import Mathlib.Data.List.Basic

/-
  Texts with a cursor — a library

  A text with a cursor is what stands before the cursor and what stands behind it. The
  same text in lines is the lines above, the line of the cursor in two parts, and the
  lines below; between two lines stands a separator.

  What is proved:
    1. `Gap.Removes.insert_text` — what was taken away around the cursor, piece after
       piece, gives the text again where it is put back as one.
    2. `Page.gap_text` — a page and its text.
    3. `Page.insert_gap` — lines put in at the cursor are a text put in there.
-/

namespace PieLab.Lib
variable {α : Type}

/-! ## Texts -/

/-- A text with a cursor in it. -/
structure Gap (α : Type) where
  front : List α
  back : List α

namespace Gap

def text (g : Gap α) : List α := g.front ++ g.back

/-- Puts a piece in front of the cursor. -/
def insert (g : Gap α) (piece : List α) : Gap α := { g with front := g.front ++ piece }

/-- What stood around the cursor was taken away, `killed` in all. -/
def Removes (g : Gap α) (killed : List α) (g' : Gap α) : Prop :=
  ∃ a b, g.front = g'.front ++ a ∧ g.back = b ++ g'.back ∧ killed = a ++ b

namespace Removes
variable {g g' g'' : Gap α} {killed piece : List α}

theorem refl (g : Gap α) : Removes g [] g := ⟨[], [], by simp, by simp, rfl⟩

theorem backward (h : Removes g killed g') (hfront : g'.front = g''.front ++ piece)
    (hback : g''.back = g'.back) : Removes g (piece ++ killed) g'' := by
  obtain ⟨a, b, hg, hb, rfl⟩ := h
  refine ⟨piece ++ a, b, ?_, by rw [hback, hb], by simp⟩
  rw [hg, hfront, List.append_assoc]

theorem forward (h : Removes g killed g') (hfront : g''.front = g'.front)
    (hback : g'.back = piece ++ g''.back) : Removes g (killed ++ piece) g'' := by
  obtain ⟨a, b, hg, hb, rfl⟩ := h
  refine ⟨a, b ++ piece, by rw [hfront, hg], ?_, by simp⟩
  rw [hb, hback, List.append_assoc]

/-- Putting back what was taken away gives the text again. -/
theorem insert_text (h : Removes g killed g') : (g'.insert killed).text = g.text := by
  obtain ⟨a, b, hg, hb, rfl⟩ := h
  simp [text, insert, hg, hb]

end Removes
end Gap

/-! ## Lines -/

/-- Lines with a cursor in one of them. -/
structure Page (α : Type) where
  above : List (List α)
  left : List α
  right : List α
  below : List (List α)

namespace Page

def lines (p : Page α) : List (List α) := p.above ++ (p.left ++ p.right) :: p.below

def gap (sep : α) (p : Page α) : Gap α where
  front := p.above.flatMap (· ++ [sep]) ++ p.left
  back := p.right ++ p.below.flatMap (sep :: ·)

theorem intercalate_eq (sep : α) (line : List α) (below : List (List α)) :
    [sep].intercalate (line :: below) = line ++ below.flatMap (sep :: ·) := by
  induction below generalizing line with
  | nil => simp
  | cons next below ih =>
    calc [sep].intercalate (line :: next :: below)
        = line ++ sep :: [sep].intercalate (next :: below) := by simp [List.intercalate]
      _ = line ++ (next :: below).flatMap (sep :: ·) := by rw [ih]; simp

/-- The text of the lines. -/
theorem gap_text (sep : α) (p : Page α) : (p.gap sep).text = [sep].intercalate p.lines := by
  obtain ⟨above, left, right, below⟩ := p
  induction above with
  | nil => simp [Gap.text, gap, lines, intercalate_eq]
  | cons line above ih =>
    have hrest : [sep].intercalate (line :: (above ++ (left ++ right) :: below)) =
        line ++ sep :: [sep].intercalate (above ++ (left ++ right) :: below) := by
      cases above <;> simp [List.intercalate]
    calc Gap.text (gap sep ⟨line :: above, left, right, below⟩)
        = line ++ sep :: Gap.text (gap sep ⟨above, left, right, below⟩) := by simp [Gap.text, gap]
      _ = line ++ sep :: [sep].intercalate (above ++ (left ++ right) :: below) := by rw [ih]; rfl
      _ = [sep].intercalate (line :: (above ++ (left ++ right) :: below)) := hrest.symm

/-- Puts lines in at the cursor, which goes behind them. -/
def insert (p : Page α) : List (List α) → Page α
  | first :: second :: rest =>
    { p with
      above := p.above ++ (p.left ++ first) :: (second :: rest).dropLast
      left := (second :: rest).getLast (List.cons_ne_nil second rest) }
  | pieces => { p with left := p.left ++ pieces.flatten }

theorem insert_gap (sep : α) (p : Page α) (pieces : List (List α)) :
    (p.insert pieces).gap sep = (p.gap sep).insert ([sep].intercalate pieces) := by
  match pieces with
  | [] => simp [insert, gap, Gap.insert]
  | [piece] => simp [insert, gap, Gap.insert]
  | first :: second :: rest =>
    have hlast : ∀ (line : List α) (rest : List (List α)), ((line :: rest).dropLast).flatMap (· ++ [sep]) ++
        (line :: rest).getLast (List.cons_ne_nil line rest) = [sep].intercalate (line :: rest) := by
      intro line rest
      induction rest generalizing line with
      | nil => simp
      | cons next rest ih =>
        have hnext := ih next
        simp only [List.dropLast_cons_cons, List.flatMap_cons, List.getLast_cons_cons,
          List.append_assoc, hnext]
        simp [List.intercalate]
    simp only [insert, gap, Gap.insert, List.flatMap_append, List.flatMap_cons, List.append_assoc,
      hlast]
    simp [List.intercalate]

/-- No separator stands in a line. -/
def Clean (sep : α) (p : Page α) : Prop := ∀ line ∈ p.lines, sep ∉ line

theorem clean_iff {sep : α} {p : Page α} : p.Clean sep ↔
    (∀ line ∈ p.above, sep ∉ line) ∧ sep ∉ p.left ∧ sep ∉ p.right ∧ ∀ line ∈ p.below, sep ∉ line := by
  simp only [Clean, lines, List.mem_append, List.mem_cons, or_imp, forall_and, forall_eq, not_or]
  tauto

theorem Clean.lines_eq [DecidableEq α] {sep : α} {p : Page α} (h : p.Clean sep) :
    p.lines = (p.gap sep).text.splitOn sep := by
  rw [gap_text]
  exact (List.splitOn_intercalate sep h (by simp [lines])).symm

theorem not_mem_of_mem_splitOn [DecidableEq α] {sep : α} {text line : List α}
    (h : line ∈ text.splitOn sep) :
    sep ∉ line := by
  induction text generalizing line with
  | nil =>
    rw [List.splitOn_nil, List.mem_singleton] at h
    rw [h]
    exact List.not_mem_nil
  | cons x text ih =>
    rw [List.splitOn_cons_eq_if_modifyHead] at h
    split at h
    · obtain rfl | h := List.mem_cons.mp h
      · exact List.not_mem_nil
      · exact ih h
    · rename_i hx
      obtain ⟨first, rest, hlines⟩ := List.exists_cons_of_ne_nil (List.splitOn_ne_nil sep text)
      rw [hlines, List.modifyHead_cons] at h
      obtain rfl | h := List.mem_cons.mp h
      · have hfirst := ih (hlines ▸ List.mem_cons_self)
        rw [beq_iff_eq] at hx
        simp only [List.mem_cons, not_or]
        exact ⟨fun heq => hx heq.symm, hfirst⟩
      · exact ih (hlines ▸ List.mem_cons_of_mem _ h)

theorem Clean.insert {sep : α} {p : Page α} (h : p.Clean sep) {pieces : List (List α)}
    (hpieces : ∀ piece ∈ pieces, sep ∉ piece) : (p.insert pieces).Clean sep := by
  rw [clean_iff] at h ⊢
  match pieces with
  | [] => simpa [Page.insert] using h
  | [piece] => simp_all [Page.insert]
  | first :: second :: rest =>
    have hmiddle : ∀ line ∈ (second :: rest).dropLast, sep ∉ line := fun line hline =>
      hpieces line (List.mem_cons_of_mem _ (List.dropLast_subset _ hline))
    have hlast :=
      hpieces _ (List.mem_cons_of_mem first (List.getLast_mem (List.cons_ne_nil second rest)))
    have hfirst := hpieces first List.mem_cons_self
    obtain ⟨habove, hleft, hright, hbelow⟩ := h
    refine ⟨?_, hlast, hright, hbelow⟩
    intro line hline
    obtain hline | hline := List.mem_append.mp hline
    · exact habove line hline
    · obtain rfl | hline := List.mem_cons.mp hline
      · simp [hleft, hfirst]
      · exact hmiddle line hline

/-! ## Taking away -/

/-- What stands next to the cursor is taken away: a part of its line, or the end of a line. -/
inductive Kill (sep : α) : Page α → Page α → Bool → List α → Prop
  | left (above : List (List α)) (left piece right : List α) (below : List (List α)) :
    Kill sep ⟨above, left ++ piece, right, below⟩ ⟨above, left, right, below⟩ true piece
  | lineAbove (above : List (List α)) (line right : List α) (below : List (List α)) :
    Kill sep ⟨above ++ [line], [], right, below⟩ ⟨above, line, right, below⟩ true [sep]
  | right (above : List (List α)) (left piece right : List α) (below : List (List α)) :
    Kill sep ⟨above, left, piece ++ right, below⟩ ⟨above, left, right, below⟩ false piece
  | lineBelow (above : List (List α)) (left line : List α) (below : List (List α)) :
    Kill sep ⟨above, left, [], line :: below⟩ ⟨above, left, line, below⟩ false [sep]

namespace Kill
variable {sep : α} {p p' : Page α} {isBackward : Bool} {piece : List α}

theorem clean (h : Kill sep p p' isBackward piece) (hp : p.Clean sep) : p'.Clean sep := by
  rw [clean_iff] at hp ⊢
  cases h <;> simp_all

theorem removes {g : Gap α} {killed : List α} (h : Kill sep p p' isBackward piece)
    (hg : g.Removes killed (p.gap sep)) :
    g.Removes (if isBackward then piece ++ killed else killed ++ piece) (p'.gap sep) := by
  cases h with
  | left => exact hg.backward (by simp [gap]) rfl
  | lineAbove => exact hg.backward (by simp [gap]) rfl
  | right => exact hg.forward rfl (by simp [gap])
  | lineBelow => exact hg.forward rfl (by simp [gap])

end Kill
end Page

end PieLab.Lib
