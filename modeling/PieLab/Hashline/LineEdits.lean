import PieLab.Hashline.Apply
import PieLab.Lib.PointEdits

/-
  What a list of anchored edits does

  Every edit is resolved against the lines of the old text; the edits are made
  only when each of them has a line of its own.

  What is proved:
    1. `resolveHashlineEdits_eq` — the edits resolve together exactly when each
       resolves and no two lines coincide; the order of the list plays no part.
    2. `applyResolvedEdits_eq` — each resolved line is replaced by the lines of
       its edit, every other line stays.
    3. `hashline_edits_atomic` — all edits or none, in any order.

  Correspondence (TypeScript ↔ Lean):
    * `ApplyEditResult` (types.ts) ↔ `ApplyEditResult`, without the warnings and
      `hashMatched`.
    * `return { text: content, error }` (apply.ts) ↔ `applyHashlineEditsResult`.
-/

namespace PieLab

open Lib

structure ApplyEditResult where
  text : String
  error : Option String
  deriving DecidableEq, Repr

/-- An error leaves the text as it is. -/
def applyHashlineEditsResult (sha256Hex : String → String) (content : String)
    (edits : List HashlineEdit) : ApplyEditResult :=
  match applyHashlineEdits sha256Hex content edits with
  | .ok text => { text := text, error := none }
  | .error message => { text := content, error := some message }

/-! ## Resolving -/

/-- Every edit has a line, and no two have the same. -/
structure ResolveApart (sha256Hex : String → String) (lines : List String)
    (resolved : List (Nat × HashlineEdit)) : Prop where
  resolves : ∀ r ∈ resolved, resolveHashlineEdit sha256Hex lines r.2 = .ok r.1
  apart : (resolved.map Prod.fst).Nodup

theorem ResolveApart.nil (sha256Hex : String → String) (lines : List String) :
    ResolveApart sha256Hex lines [] where
  resolves := by
    intro r hr
    exact absurd hr List.not_mem_nil
  apart := List.nodup_nil

variable {sha256Hex : String → String} {lines : List String} {resolved : List (Nat × HashlineEdit)}
variable {edits : List HashlineEdit} {i : Nat}

theorem ResolveApart.perm {resolved' : List (Nat × HashlineEdit)} (hperm : resolved.Perm resolved')
    (h : ResolveApart sha256Hex lines resolved) : ResolveApart sha256Hex lines resolved' where
  resolves := by
    intro r hr
    exact h.resolves r (hperm.mem_iff.mpr hr)
  apart := (hperm.map Prod.fst).nodup_iff.mp h.apart

theorem resolveHashlineEdits_ok {before : List (Nat × HashlineEdit)}
    (hbefore : ResolveApart sha256Hex lines before)
    (h : resolveHashlineEdits sha256Hex lines edits before = .ok resolved) :
    ResolveApart sha256Hex lines resolved ∧ resolved.map Prod.snd = before.map Prod.snd ++ edits := by
  induction edits generalizing before with
  | nil =>
    cases h
    exact ⟨hbefore, (List.append_nil _).symm⟩
  | cons edit rest ih =>
    cases hline : resolveHashlineEdit sha256Hex lines edit with
    | error message =>
      simp only [resolveHashlineEdits, hline] at h
      cases h
    | ok lineIndex =>
      simp only [resolveHashlineEdits, hline] at h
      by_cases hused : before.any (·.1 == lineIndex) = true
      · rw [if_pos hused] at h
        cases h
      · rw [if_neg hused] at h
        have hnew : lineIndex ∉ before.map Prod.fst := by
          intro hmem
          obtain ⟨r, hr, hidx⟩ := List.mem_map.mp hmem
          exact hused (List.any_eq_true.mpr ⟨r, hr, by simpa using hidx⟩)
        have hnext : ResolveApart sha256Hex lines (before ++ [(lineIndex, edit)]) :=
          { resolves := by
              intro r hr
              rcases List.mem_append.mp hr with hr | hr
              · exact hbefore.resolves r hr
              · rw [List.mem_singleton.mp hr]
                exact hline
            apart := by
              rw [List.map_append]
              apply List.Nodup.append hbefore.apart (List.nodup_singleton _)
              exact List.disjoint_singleton.mpr hnew }
        obtain ⟨hapart, hsnd⟩ := ih hnext h
        refine ⟨hapart, ?_⟩
        rw [hsnd, List.map_append, List.append_assoc]
        rfl

theorem resolveHashlineEdits_of {sha256Hex : String → String} {lines : List String}
    {before new : List (Nat × HashlineEdit)}
    (h : ResolveApart sha256Hex lines (before ++ new)) :
    resolveHashlineEdits sha256Hex lines (new.map Prod.snd) before = .ok (before ++ new) := by
  induction new generalizing before with
  | nil =>
    rw [List.append_nil]
    rfl
  | cons r rest ih =>
    have hline : resolveHashlineEdit sha256Hex lines r.2 = .ok r.1 := by
      apply h.resolves
      simp
    have hfree : before.any (·.1 == r.1) = false := by
      apply List.any_eq_false.mpr
      intro r' hr' heq
      have hapart := h.apart
      rw [List.map_append, List.map_cons, List.nodup_append] at hapart
      exact hapart.2.2 r'.1 (List.mem_map_of_mem hr') r.1 List.mem_cons_self (by simpa using heq)
    have hnext : ResolveApart sha256Hex lines ((before ++ [r]) ++ rest) := by
      rw [List.append_assoc]
      exact h
    have hrest := ih hnext
    rw [List.append_assoc] at hrest
    simp only [List.map_cons, resolveHashlineEdits, hline, hfree]
    exact hrest

/-- The edits resolve together exactly when each has a line of its own. -/
theorem resolveHashlineEdits_eq (sha256Hex : String → String) (lines : List String)
    (edits : List HashlineEdit) (resolved : List (Nat × HashlineEdit)) :
    resolveHashlineEdits sha256Hex lines edits [] = .ok resolved ↔
      ResolveApart sha256Hex lines resolved ∧ resolved.map Prod.snd = edits := by
  constructor
  · intro h
    exact resolveHashlineEdits_ok (.nil sha256Hex lines) h
  · rintro ⟨hapart, rfl⟩
    exact @resolveHashlineEdits_of _ _ [] _ hapart

/-! ## The lines that resolve -/

theorem mem_candidates {fits : String → Bool} (h : i ∈ candidates lines fits) : i < lines.length :=
  List.mem_range.mp (List.mem_of_mem_filter h)

theorem HashlineEdit.mem_filterByContext {edit : HashlineEdit} {found : List Nat}
    (h : i ∈ edit.filterByContext lines found) : i ∈ found := by
  unfold HashlineEdit.filterByContext at h
  by_cases hcontext : edit.hasContext = true
  · rw [if_pos hcontext] at h
    exact List.mem_of_mem_filter h
  · rw [if_neg hcontext] at h
    exact h

theorem resolveHashlineEdit_lt {edit : HashlineEdit}
    (h : resolveHashlineEdit sha256Hex lines edit = .ok i) : i < lines.length := by
  have hin : ∀ fits found, edit.filterByContext lines (candidates lines fits) = found →
      i ∈ found → i < lines.length := by
    intro fits found hfound hi
    rw [← hfound] at hi
    exact mem_candidates (edit.mem_filterByContext hi)
  unfold resolveHashlineEdit at h
  by_cases hnewline : edit.anchor.toList.contains '\n' = true
  · rw [if_pos hnewline] at h
    cases h
  rw [if_neg hnewline] at h
  cases hexact : edit.filterByContext lines (findExactLineCandidates lines edit.anchor) with
  | nil =>
    simp only [hexact] at h
    by_cases hhash : (!truthyText edit.hash) = true
    · rw [if_pos hhash] at h
      cases h
    rw [if_neg hhash] at h
    cases hfallback : edit.filterByContext lines
        (findHashLineCandidates sha256Hex lines (edit.hash.getD "")) with
    | nil =>
      simp only [hfallback] at h
      cases h
    | cons j more =>
      cases more with
      | nil =>
        simp only [hfallback, Except.ok.injEq] at h
        exact hin _ _ hfallback (by simp [h])
      | cons k more =>
        simp only [hfallback] at h
        cases h
  | cons j more =>
    cases more with
    | nil =>
      simp only [hexact] at h
      split_ifs at h
      simp only [Except.ok.injEq] at h
      exact hin _ _ hexact (by simp [h])
    | cons k more =>
      simp only [hexact] at h
      cases h

/-! ## Applying -/

/-- What stands at the line of an edit afterwards. -/
def lineReplacement (r : Nat × HashlineEdit) : Nat × List String := (r.1, splitLines r.2.newText)

/-- Each line, or the lines of the edit that resolved to it. -/
def linesReplaced (lines : List String) (resolved : List (Nat × HashlineEdit)) : List String :=
  substituted lines (resolved.map lineReplacement)

theorem map_fst_lineReplacement (resolved : List (Nat × HashlineEdit)) :
    (resolved.map lineReplacement).map Prod.fst = resolved.map Prod.fst := by
  rw [List.map_map]
  rfl

theorem linesReplaced_perm {resolved' : List (Nat × HashlineEdit)} (hperm : resolved.Perm resolved')
    (hapart : (resolved.map Prod.fst).Nodup) (lines : List String) :
    linesReplaced lines resolved = linesReplaced lines resolved' := by
  apply substituted_perm (hperm.map lineReplacement)
  rw [map_fst_lineReplacement]
  exact hapart

/-- Each resolved line is replaced, every other line stays. -/
theorem applyResolvedEdits_eq (h : ResolveApart sha256Hex lines resolved) :
    applyResolvedEdits lines resolved = linesReplaced lines resolved := by
  let sorted := resolved.mergeSort fun a b => b.1 ≤ a.1
  have hperm : sorted.Perm resolved := List.mergeSort_perm _ _
  have hdescending : sorted.Pairwise fun a b => b.1 ≤ a.1 := by
    have hpairwise : sorted.Pairwise fun a b => decide (b.1 ≤ a.1) = true := by
      apply List.pairwise_mergeSort
      · intro a b c hab hbc
        simp only [decide_eq_true_eq] at hab hbc ⊢
        omega
      · intro a b
        simp only [Bool.or_eq_true, decide_eq_true_eq]
        omega
    exact hpairwise.imp fun hle => of_decide_eq_true hle
  have hsorted : ResolveApart sha256Hex lines sorted := h.perm hperm.symm
  have hstrict : (sorted.map lineReplacement).Pairwise fun a b => b.1 < a.1 := by
    apply List.pairwise_map.mpr
    have hne : sorted.Pairwise fun a b => a.1 ≠ b.1 := List.pairwise_map.mp hsorted.apart
    apply (hdescending.and hne).imp
    intro a b hab
    show b.1 < a.1
    have hle := hab.1
    have hne := hab.2
    omega
  have hin : ∀ e ∈ sorted.map lineReplacement, e.1 < lines.length := by
    intro e he
    obtain ⟨r, hr, rfl⟩ := List.mem_map.mp he
    exact resolveHashlineEdit_lt (hsorted.resolves r hr)
  calc applyResolvedEdits lines resolved
      = (sorted.map lineReplacement).foldl replaceAt lines := by
        rw [List.foldl_map]
        rfl
    _ = linesReplaced lines sorted := replacedInTurn_eq hstrict hin
    _ = linesReplaced lines resolved := linesReplaced_perm hperm hsorted.apart lines

/-! ## All or none -/

theorem applyHashlineEdits_ok_iff (sha256Hex : String → String) (content text : String)
    (edits : List HashlineEdit) :
    applyHashlineEdits sha256Hex content edits = .ok text ↔
      ∃ resolved, ResolveApart sha256Hex (splitLines content) resolved ∧
        resolved.map Prod.snd = edits ∧ text = join "\n" (linesReplaced (splitLines content) resolved) := by
  have hmean : applyHashlineEdits sha256Hex content edits =
      (resolveHashlineEdits sha256Hex (splitLines content) edits []).bind fun resolved =>
        .ok (join "\n" (applyResolvedEdits (splitLines content) resolved)) := rfl
  constructor
  · intro h
    cases hresolve : resolveHashlineEdits sha256Hex (splitLines content) edits [] with
    | error message =>
      rw [hmean, hresolve] at h
      cases h
    | ok resolved =>
      rw [hmean, hresolve] at h
      obtain ⟨hapart, hsnd⟩ := (resolveHashlineEdits_eq _ _ _ _).mp hresolve
      refine ⟨resolved, hapart, hsnd, ?_⟩
      rw [← applyResolvedEdits_eq hapart]
      exact (Except.ok.inj h).symm
  · rintro ⟨resolved, hapart, hsnd, rfl⟩
    rw [hmean, (resolveHashlineEdits_eq _ _ _ _).mpr ⟨hapart, hsnd⟩,
      ← applyResolvedEdits_eq hapart]
    rfl

theorem perm_of_map_snd {edits' : List HashlineEdit} (hperm : edits.Perm edits')
    (h : resolved.map Prod.snd = edits) :
    ∃ resolved', resolved.Perm resolved' ∧ resolved'.map Prod.snd = edits' := by
  induction hperm generalizing resolved with
  | nil => exact ⟨resolved, .refl _, h⟩
  | cons edit _ ih =>
    obtain ⟨r, rest, rfl, rfl, hrest⟩ := List.map_eq_cons_iff.mp h
    obtain ⟨rest', hperm', hsnd⟩ := ih hrest
    exact ⟨r :: rest', hperm'.cons r, by rw [List.map_cons, hsnd]⟩
  | swap first second _ =>
    obtain ⟨r, rest, rfl, rfl, hrest⟩ := List.map_eq_cons_iff.mp h
    obtain ⟨r', rest', rfl, rfl, rfl⟩ := List.map_eq_cons_iff.mp hrest
    exact ⟨r' :: r :: rest', .swap r' r rest', rfl⟩
  | trans _ _ ih ih' =>
    obtain ⟨middle, hperm, hsnd⟩ := ih h
    obtain ⟨last, hperm', hsnd'⟩ := ih' hsnd
    exact ⟨last, hperm.trans hperm', hsnd'⟩

theorem applyHashlineEdits_perm {content text : String} {edits' : List HashlineEdit}
    (hperm : edits.Perm edits') (h : applyHashlineEdits sha256Hex content edits = .ok text) :
    applyHashlineEdits sha256Hex content edits' = .ok text := by
  obtain ⟨resolved, hapart, hsnd, htext⟩ := (applyHashlineEdits_ok_iff _ _ _ _).mp h
  obtain ⟨resolved', hperm', hsnd'⟩ := perm_of_map_snd hperm hsnd
  apply (applyHashlineEdits_ok_iff _ _ _ _).mpr
  refine ⟨resolved', hapart.perm hperm', hsnd', ?_⟩
  rw [htext, linesReplaced_perm hperm' hapart.apart]

/-- An error leaves the text; else each line an edit resolved to is replaced, each resolved
line is resolved once, and no order of the edits changes the text or whether there is an
error. -/
theorem hashline_edits_atomic (sha256Hex : String → String) (content : String)
    (edits : List HashlineEdit) :
    let result := applyHashlineEditsResult sha256Hex content edits
    (result.error ≠ none → result.text = content) ∧
    (result.error = none → ∃ resolved : List (Nat × HashlineEdit),
      resolved.map Prod.snd = edits ∧
      (∀ r ∈ resolved, resolveHashlineEdit sha256Hex (splitLines content) r.2 = .ok r.1) ∧
      (resolved.map Prod.fst).Nodup ∧
      result.text = join "\n" (linesReplaced (splitLines content) resolved)) ∧
    ∀ edits', edits.Perm edits' →
      (applyHashlineEditsResult sha256Hex content edits').text = result.text ∧
      ((applyHashlineEditsResult sha256Hex content edits').error = none ↔
        result.error = none) := by
  intro result
  have hok : ∀ {edits' : List HashlineEdit} {text : String},
      applyHashlineEdits sha256Hex content edits' = .ok text →
      applyHashlineEditsResult sha256Hex content edits' = { text := text, error := none } := by
    intro edits' text h
    unfold applyHashlineEditsResult
    rw [h]
  have herror : ∀ {edits' : List HashlineEdit} {message : String},
      applyHashlineEdits sha256Hex content edits' = .error message →
      applyHashlineEditsResult sha256Hex content edits' =
        { text := content, error := some message } := by
    intro edits' message h
    unfold applyHashlineEditsResult
    rw [h]
  cases hrun : applyHashlineEdits sha256Hex content edits with
  | error message =>
    have hresult : result = { text := content, error := some message } := herror hrun
    refine ⟨fun _ => by rw [hresult], ?_, ?_⟩
    · intro hnone
      rw [hresult] at hnone
      cases hnone
    · intro edits' hperm
      -- a success of the other order would be one of this order
      cases hrun' : applyHashlineEdits sha256Hex content edits' with
      | error message' =>
        rw [herror hrun', hresult]
        simp
      | ok text =>
        have habsurd := applyHashlineEdits_perm hperm.symm hrun'
        rw [hrun] at habsurd
        cases habsurd
  | ok text =>
    have hresult : result = { text := text, error := none } := hok hrun
    refine ⟨fun hne => absurd (by rw [hresult]) hne, ?_, ?_⟩
    · intro _
      obtain ⟨resolved, hapart, hsnd, htext⟩ := (applyHashlineEdits_ok_iff _ _ _ _).mp hrun
      refine ⟨resolved, hsnd, hapart.resolves, hapart.apart, ?_⟩
      rw [hresult]
      exact htext
    · intro edits' hperm
      rw [hok (applyHashlineEdits_perm hperm hrun), hresult]
      exact ⟨rfl, Iff.rfl⟩

end PieLab
