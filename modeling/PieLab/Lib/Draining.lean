import Mathlib.Data.List.TakeWhile

/-
  Draining a buffer — a library

  Input comes in chunks. Each chunk goes behind what is left of the ones before it, and
  every item that is complete is taken off the front.

  What is proved:
    1. `Cutter.feed_flatten` — the items are those of the whole input, wherever it is cut
       but in places where more input changes an item.
    2. `LineBreak.joins`, `LineBreak.drain_lines` — lines as items, which are found again
       when they are written one behind the other.
-/

namespace PieLab.Lib

/-- Takes an item off the front of a buffer, and no less than one element. -/
structure Cutter (α β : Type) where
  cut : List α → Option (β × List α)
  suffix {l r : List α} {b : β} : cut l = some (b, r) → ∃ p, p ≠ [] ∧ l = p ++ r

namespace Cutter

variable {α β : Type} (c : Cutter α β)

theorem shorter {l r : List α} {b : β} (h : c.cut l = some (b, r)) : r.length < l.length := by
  obtain ⟨p, hp, rfl⟩ := c.suffix h
  have := List.length_pos_iff.mpr hp
  rw [List.length_append]
  omega

/-- All items in front, and what is left. -/
def drain (l : List α) : List β × List α :=
  match _h : c.cut l with
  | none => ([], l)
  | some (b, r) => (b :: (drain r).1, (drain r).2)
termination_by l.length
decreasing_by all_goals exact c.shorter _h

def feed : List α → List (List α) → List β × List α
  | buffer, [] => ([], buffer)
  | buffer, chunk :: chunks =>
    let (items, rest) := c.drain (buffer ++ chunk)
    (items ++ (feed rest chunks).1, (feed rest chunks).2)

variable {c}

theorem drain_of_none {l : List α} (h : c.cut l = none) : c.drain l = ([], l) := by
  rw [drain]
  split
  · rfl
  · next heq => rw [h] at heq; cases heq

theorem drain_of_some {l r : List α} {b : β} (h : c.cut l = some (b, r)) :
    c.drain l = (b :: (c.drain r).1, (c.drain r).2) := by
  rw [drain]
  split
  · next heq => rw [h] at heq; cases heq
  · next heq => rw [h] at heq; cases heq; rfl

theorem drain_rest (l : List α) : c.cut (c.drain l).2 = none ∧ ∃ p, l = p ++ (c.drain l).2 := by
  induction l using drain.induct c with
  | case1 l h => rw [drain_of_none h]; exact ⟨h, [], rfl⟩
  | case2 l b r h ih =>
    rw [drain_of_some h]
    obtain ⟨p, -, rfl⟩ := c.suffix h
    obtain ⟨hnone, q, hq⟩ := ih
    exact ⟨hnone, p ++ q, by rw [List.append_assoc, ← hq]⟩

/-- Where `ok` holds of the two sides of a cut, items before it stay as they are. -/
structure Joins (c : Cutter α β) (ok : List α → List α → Prop) : Prop where
  step {l r : List α} {b : β} (x : List α) : c.cut l = some (b, r) → ok l x → c.cut (l ++ x) = some (b, r ++ x)
  drop {p l x : List α} : ok (p ++ l) x → ok l x

theorem Joins.drain_append {ok : List α → List α → Prop} (h : c.Joins ok) {l x : List α}
    (hok : ok l x) :
    c.drain (l ++ x) = ((c.drain l).1 ++ (c.drain ((c.drain l).2 ++ x)).1, (c.drain ((c.drain l).2 ++ x)).2) := by
  induction l using drain.induct c with
  | case1 l hnone => rw [drain_of_none hnone, List.nil_append]
  | case2 l b r hsome ih =>
    have hr : ok r x := by
      obtain ⟨p, -, rfl⟩ := c.suffix hsome
      exact h.drop hok
    rw [drain_of_some (h.step x hsome hok), drain_of_some hsome, ih hr, List.cons_append]

theorem Joins.feed_flatten {ok : List α → List α → Prop} (h : c.Joins ok) {buffer : List α}
    (hbuffer : c.cut buffer = none) {chunks : List (List α)}
    (hok : ∀ before after, chunks = before ++ after → ok (buffer ++ before.flatten) after.flatten) :
    c.feed buffer chunks = c.drain (buffer ++ chunks.flatten) := by
  induction chunks generalizing buffer with
  | nil => rw [feed, List.flatten_nil, List.append_nil, drain_of_none hbuffer]
  | cons chunk chunks ih =>
    obtain ⟨hnone, p, hp⟩ := drain_rest (c := c) (buffer ++ chunk)
    have hlater : ∀ before after, chunks = before ++ after →
        ok ((c.drain (buffer ++ chunk)).2 ++ before.flatten) after.flatten := by
      intro before after hsplit
      have hcut := hok (chunk :: before) after (by rw [hsplit, List.cons_append])
      rw [List.flatten_cons, ← List.append_assoc, hp, List.append_assoc] at hcut
      exact h.drop hcut
    have hfirst := hok [chunk] chunks rfl
    rw [List.flatten_singleton] at hfirst
    rw [List.flatten_cons, ← List.append_assoc, h.drain_append hfirst, ← ih hnone hlater]
    rfl

end Cutter

/-! ## Lines -/

/-- What ends a line: an element, and more that may stand behind it. -/
structure LineBreak (α : Type) where
  isBreak : α → Bool
  /-- What stands behind the line break in front. -/
  after : List α → List α
  after_suffix (b : α) (rest : List α) : ∃ p, p ≠ [] ∧ b :: rest = p ++ after (b :: rest)

namespace LineBreak

variable {α : Type} (br : LineBreak α)

/-- The first line, without its line break. -/
def cutter : Cutter α (List α) where
  cut l :=
    match l.dropWhile (!br.isBreak ·) with
    | [] => none
    | b :: rest => some (l.takeWhile (!br.isBreak ·), br.after (b :: rest))
  suffix {l r line} h := by
    split at h
    · cases h
    · next b rest hrest =>
      obtain ⟨p, hp, hbehind⟩ := br.after_suffix b rest
      cases h
      refine ⟨l.takeWhile (!br.isBreak ·) ++ p, by simp [hp], ?_⟩
      rw [List.append_assoc, ← hbehind, ← hrest, List.takeWhile_append_dropWhile]

variable {br}

theorem cut_append {line rest : List α} {b : α} (hline : ∀ c ∈ line, br.isBreak c = false)
    (hb : br.isBreak b = true) :
    br.cutter.cut (line ++ b :: rest) = some (line, br.after (b :: rest)) := by
  have hall : ∀ c ∈ line, (!br.isBreak c) = true := fun c hc => by rw [hline c hc]; rfl
  have hdrop : (line ++ b :: rest).dropWhile (!br.isBreak ·) = b :: rest := by
    rw [List.dropWhile_append_of_pos hall, List.dropWhile_cons, if_neg (by simp [hb])]
  have htake : (line ++ b :: rest).takeWhile (!br.isBreak ·) = line := by
    rw [List.takeWhile_append_of_pos hall, List.takeWhile_cons, if_neg (by simp [hb]),
      List.append_nil]
  simp only [cutter, hdrop, htake]

theorem cut_eq_some {l r line : List α} (h : br.cutter.cut l = some (line, r)) :
    ∃ b rest, l = line ++ b :: rest ∧ (∀ c ∈ line, br.isBreak c = false) ∧ br.isBreak b = true ∧
      r = br.after (b :: rest) := by
  simp only [cutter] at h
  split at h
  · cases h
  · next b rest hrest =>
    have hb := List.head?_dropWhile_not (!br.isBreak ·) l
    rw [hrest] at hb
    have hsplit := List.takeWhile_append_dropWhile (p := (!br.isBreak ·)) (l := l)
    rw [hrest] at hsplit
    cases h
    exact ⟨b, rest, hsplit.symm, fun c hc => by simpa using List.mem_takeWhile_imp hc, by simpa using hb, rfl⟩

theorem joins {ok : List α → List α → Prop} (hdrop : ∀ p l x, ok (p ++ l) x → ok l x)
    (hafter : ∀ b rest x, ok (b :: rest) x → br.after (b :: rest ++ x) = br.after (b :: rest) ++ x) :
    br.cutter.Joins ok where
  step {l r line} x h hok := by
    obtain ⟨b, rest, rfl, hline, hb, rfl⟩ := cut_eq_some h
    rw [List.append_assoc, List.cons_append, cut_append hline hb, ← List.cons_append,
      hafter b rest x (hdrop _ _ _ hok)]
  drop hok := hdrop _ _ _ hok

/-- Lines that are written one behind the other are found again. -/
theorem drain_lines {b : α} {stop : List α} (hb : br.isBreak b = true)
    (hafter : ∀ rest, (∀ c ∈ rest.head?, br.isBreak c = true → c = b) → br.after (b :: stop ++ rest) = rest)
    {lines : List (List α)} (hlines : ∀ line ∈ lines, ∀ c ∈ line, br.isBreak c = false) :
    br.cutter.drain (lines.flatMap (· ++ b :: stop)) = (lines, []) := by
  induction lines with
  | nil => exact Cutter.drain_of_none rfl
  | cons line lines ih =>
    have hlater := fun other hother => hlines other (List.mem_cons_of_mem line hother)
    have hhead : ∀ c ∈ (lines.flatMap (· ++ b :: stop)).head?, br.isBreak c = true → c = b := by
      intro c hc hbreak
      rcases lines with - | ⟨- | ⟨d, next⟩, lines⟩
      · cases hc
      · exact (Option.some.inj hc).symm
      · obtain rfl : d = c := Option.some.inj hc
        rw [hlater _ List.mem_cons_self d List.mem_cons_self] at hbreak
        cases hbreak
    have hcut := @cut_append _ br line (stop ++ lines.flatMap (· ++ b :: stop)) b (hlines line List.mem_cons_self) hb
    rw [List.flatMap_cons, List.append_assoc, List.cons_append, Cutter.drain_of_some hcut,
      ← List.cons_append,
      hafter _ hhead, ih hlater]

end LineBreak

/-- Lines that end with one character. -/
def endedBy {α : Type} [DecidableEq α] (newline : α) : LineBreak α where
  isBreak c := c = newline
  after := List.tail
  after_suffix b rest := ⟨[b], by simp, rfl⟩

theorem endedBy_joins {α : Type} [DecidableEq α] (newline : α) :
    (endedBy newline).cutter.Joins fun _ _ => True :=
  LineBreak.joins (fun _ _ _ _ => trivial) fun _ _ _ _ => rfl

end PieLab.Lib
