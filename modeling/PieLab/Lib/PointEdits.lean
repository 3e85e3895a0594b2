import PieLab.Lib.OrderedMap

/-
  Single elements replaced by lists — a library

  Every edit names one place of a list and what stands there afterwards. The
  edits are made one after the other, the last place first, so that no edit
  moves the place of a later one.

  What is proved:
    1. `replacedInTurn_eq` — made from the last place to the first, the edits
       give every place its own replacement and leave the others.
    2. `substituted_perm` — the order in which the edits are listed is immaterial.
-/

namespace PieLab.Lib

variable {α : Type}

/-- The element at a place, replaced. -/
def replaceAt (l : List α) (edit : Nat × List α) : List α :=
  l.take edit.1 ++ edit.2 ++ l.drop (edit.1 + 1)

/-- Every place with what is put there. -/
def substitutedFrom (start : Nat) (l : List α) (edits : List (Nat × List α)) : List α :=
  (l.zipIdx start).flatMap fun place => (edits.lookup place.2).getD [place.1]

def substituted (l : List α) (edits : List (Nat × List α)) : List α := substitutedFrom 0 l edits

theorem substitutedFrom_append (start : Nat) (l r : List α) (edits : List (Nat × List α)) :
    substitutedFrom start (l ++ r) edits =
      substitutedFrom start l edits ++ substitutedFrom (start + l.length) r edits := by
  unfold substitutedFrom
  rw [List.zipIdx_append, List.flatMap_append]

variable {l : List α} {edits edits' : List (Nat × List α)}

theorem substitutedFrom_congr {start : Nat}
    (h : ∀ i, start ≤ i → i < start + l.length → edits.lookup i = edits'.lookup i) :
    substitutedFrom start l edits = substitutedFrom start l edits' := by
  induction l generalizing start with
  | nil => rfl
  | cons a l ih =>
    have hhead : edits.lookup start = edits'.lookup start := by
      apply h start (Nat.le_refl _)
      simp
    have htail : substitutedFrom (start + 1) l edits = substitutedFrom (start + 1) l edits' := by
      apply ih
      intro i hge hlt
      apply h i
      · omega
      · rw [List.length_cons]
        omega
    show (edits.lookup start).getD [a] ++ substitutedFrom (start + 1) l edits = _
    rw [hhead, htail]
    rfl

theorem substitutedFrom_nil (start : Nat) (l : List α) : substitutedFrom start l [] = l := by
  induction l generalizing start with
  | nil => rfl
  | cons a l ih =>
    show [a] ++ substitutedFrom (start + 1) l [] = a :: l
    rw [ih]
    rfl

theorem lookup_eq_none {i : Nat} (h : ∀ e ∈ edits, e.1 ≠ i) : edits.lookup i = none := by
  apply List.lookup_eq_none_iff.mpr
  intro e he
  simpa using (h e he).symm

theorem substitutedFrom_later {start : Nat} (h : ∀ e ∈ edits, e.1 < start) :
    substitutedFrom start l edits = l := by
  calc substitutedFrom start l edits
      = substitutedFrom start l [] := by
        apply substitutedFrom_congr
        intro i hge _
        apply lookup_eq_none
        intro e he
        have hlt := h e he
        omega
    _ = l := substitutedFrom_nil start l

theorem substituted_cons {edit : Nat × List α} (hin : edit.1 < l.length)
    (h : ∀ e ∈ edits, e.1 < edit.1) :
    substituted (replaceAt l edit) edits = substituted l (edit :: edits) := by
  obtain ⟨i, new⟩ := edit
  have hlen : (l.take i).length = i := by
    rw [List.length_take]
    exact Nat.min_eq_left (Nat.le_of_lt hin)
  have hlookup : List.lookup i ((i, new) :: edits) = some new := by simp
  have hfront : substitutedFrom 0 (l.take i) ((i, new) :: edits) =
      substitutedFrom 0 (l.take i) edits := by
    apply substitutedFrom_congr
    intro j _ hj
    rw [hlen] at hj
    have hne : (j == i) = false := by simpa using (by omega : j ≠ i)
    simp [List.lookup_cons, hne]
  have hback : substitutedFrom (i + 1) (l.drop (i + 1)) ((i, new) :: edits) = l.drop (i + 1) := by
    apply substitutedFrom_later
    intro e he
    rcases List.mem_cons.mp he with rfl | he
    · exact Nat.lt_succ_self i
    · exact Nat.lt_succ_of_lt (h e he)
  have hrest : ∀ rest : List α, substitutedFrom i rest edits = rest := fun rest =>
    substitutedFrom_later h
  have hsplit : l = l.take i ++ (l[i] :: l.drop (i + 1)) := by
    rw [← List.drop_eq_getElem_cons hin, List.take_append_drop]
  have hmiddle : substitutedFrom i (l[i] :: l.drop (i + 1)) ((i, new) :: edits) =
      new ++ l.drop (i + 1) := by
    show (List.lookup i ((i, new) :: edits)).getD [l[i]] ++
      substitutedFrom (i + 1) (l.drop (i + 1)) ((i, new) :: edits) = _
    rw [hlookup, hback]
    rfl
  calc substituted (replaceAt l (i, new)) edits
      = substitutedFrom 0 (l.take i ++ (new ++ l.drop (i + 1))) edits := by
        show substitutedFrom 0 (l.take i ++ new ++ l.drop (i + 1)) edits = _
        rw [List.append_assoc]
    _ = substitutedFrom 0 (l.take i) edits ++ (new ++ l.drop (i + 1)) := by
        rw [substitutedFrom_append, hlen, Nat.zero_add, hrest]
    _ = substitutedFrom 0 (l.take i ++ (l[i] :: l.drop (i + 1))) ((i, new) :: edits) := by
        rw [substitutedFrom_append, hlen, Nat.zero_add, hfront, hmiddle]
    _ = substituted l ((i, new) :: edits) := by
        rw [← hsplit]
        rfl

/-- Made from the last place to the first, every edit replaces its own place. -/
theorem replacedInTurn_eq (hsorted : edits.Pairwise fun a b => b.1 < a.1)
    (hin : ∀ e ∈ edits, e.1 < l.length) : edits.foldl replaceAt l = substituted l edits := by
  induction edits generalizing l with
  | nil => exact (substitutedFrom_nil 0 l).symm
  | cons edit edits ih =>
    obtain ⟨hlater, hsorted⟩ := List.pairwise_cons.mp hsorted
    have hedit : edit.1 < l.length := hin edit List.mem_cons_self
    have hrest : ∀ e ∈ edits, e.1 < (replaceAt l edit).length := by
      intro e he
      have hlt := hlater e he
      simp only [replaceAt, List.length_append, List.length_take]
      omega
    rw [List.foldl_cons, ih hsorted hrest]
    exact substituted_cons hedit hlater

theorem lookup_perm (hperm : edits.Perm edits') (hnodup : (edits.map Prod.fst).Nodup) (i : Nat) :
    edits.lookup i = edits'.lookup i := by
  have hnodup' : (edits'.map Prod.fst).Nodup := (hperm.map Prod.fst).nodup_iff.mp hnodup
  have hmem : ∀ new, (i, new) ∈ edits ↔ edits.lookup i = some new := fun new =>
    OrderedMap.mem_entries_iff ⟨edits, hnodup⟩
  have hmem' : ∀ new, (i, new) ∈ edits' ↔ edits'.lookup i = some new := fun new =>
    OrderedMap.mem_entries_iff ⟨edits', hnodup'⟩
  apply Option.ext
  intro new
  rw [← hmem, ← hmem', hperm.mem_iff]

/-- The edits may be listed in any order. -/
theorem substituted_perm (hperm : edits.Perm edits') (hnodup : (edits.map Prod.fst).Nodup)
    (l : List α) : substituted l edits = substituted l edits' := by
  apply substitutedFrom_congr
  intro i _ _
  exact lookup_perm hperm hnodup i

end PieLab.Lib
