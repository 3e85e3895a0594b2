import Mathlib.Data.List.Basic
import Mathlib.Data.List.Nodup

/-
  Insertion-ordered maps — a library

  A map that remembers the order its keys were first set in: setting a key that
  is there keeps its place, setting a new one puts it last, and a deleted key
  set again goes last.

  What is proved:
    1. `get?_set` — lookup after an update.
    2. `mem_entries_iff` — the entries are exactly the pairs the lookup gives.
-/

namespace PieLab.Lib

/-- An insertion-ordered map: its keys are distinct. -/
structure OrderedMap (κ α : Type) where
  entries : List (κ × α)
  nodup : (entries.map Prod.fst).Nodup

namespace OrderedMap

variable {κ α : Type}

/-- The map with no entries. -/
def empty : OrderedMap κ α := { entries := [], nodup := List.nodup_nil }

variable [DecidableEq κ]

/-- The value of a key. -/
def get? (m : OrderedMap κ α) (k : κ) : Option α := m.entries.lookup k

/-- Whether the key is set. -/
def has (m : OrderedMap κ α) (k : κ) : Bool := (m.get? k).isSome

/-- Replace the value of `k`, or put it last. -/
def setEntries (k : κ) (v : α) : List (κ × α) → List (κ × α)
  | [] => [(k, v)]
  | (j, w) :: rest => if j = k then (k, v) :: rest else (j, w) :: setEntries k v rest

theorem map_fst_setEntries (k : κ) (v : α) (l : List (κ × α)) :
    (setEntries k v l).map Prod.fst =
      if k ∈ l.map Prod.fst then l.map Prod.fst else l.map Prod.fst ++ [k] := by
  induction l with
  | nil => rfl
  | cons entry rest ih =>
    obtain ⟨j, w⟩ := entry
    by_cases h : j = k
    · simp [setEntries, h]
    · have h' : k ≠ j := fun e => h e.symm
      simp only [setEntries, h, if_false, List.map_cons, ih, List.mem_cons, h', false_or]
      split <;> rfl

def set (m : OrderedMap κ α) (k : κ) (v : α) : OrderedMap κ α where
  entries := setEntries k v m.entries
  nodup := by
    rw [map_fst_setEntries]
    split
    · exact m.nodup
    · rename_i h
      exact List.Nodup.append m.nodup (List.nodup_singleton k)
        (by rw [List.disjoint_singleton]; exact h)

def delete (m : OrderedMap κ α) (k : κ) : OrderedMap κ α where
  entries := m.entries.filter (fun e => decide (e.1 ≠ k))
  nodup := m.nodup.sublist (List.filter_sublist.map _)

/-! ## Lookup -/

@[simp] theorem get?_empty (k : κ) : (empty : OrderedMap κ α).get? k = none := rfl

theorem lookup_setEntries (l : List (κ × α)) (k k' : κ) (v : α) :
    (setEntries k v l).lookup k' = if k = k' then some v else l.lookup k' := by
  induction l with
  | nil =>
    by_cases h : k = k'
    · simp [setEntries, h]
    · have h' : (k' == k) = false := by simpa using fun e => h e.symm
      simp [setEntries, List.lookup_cons, h, h']
  | cons entry rest ih =>
    obtain ⟨j, w⟩ := entry
    by_cases hj : j = k
    · subst hj
      by_cases h : j = k'
      · simp [setEntries, h]
      · have h' : (k' == j) = false := by simpa using fun e => h e.symm
        simp [setEntries, List.lookup_cons, h, h']
    · by_cases hjk : k' = j
      · simp [setEntries, hj, hjk]
        intro e; exact absurd e.symm hj
      · have h' : (k' == j) = false := by simpa using hjk
        simp only [setEntries, hj, if_false, List.lookup_cons, h', ih]

theorem lookup_filter_ne (l : List (κ × α)) (k k' : κ) :
    (l.filter (fun e => decide (e.1 ≠ k))).lookup k' = if k = k' then none else l.lookup k' := by
  induction l with
  | nil => simp
  | cons entry rest ih =>
    obtain ⟨j, w⟩ := entry
    by_cases hj : j = k
    · subst hj
      rw [List.filter_cons_of_neg (by simp), ih]
      by_cases h : j = k'
      · rw [if_pos h, if_pos h]
      · have h' : (k' == j) = false := by simpa using fun e => h e.symm
        simp only [h, if_false, List.lookup_cons, h']
    · rw [List.filter_cons_of_pos (by simpa using hj)]
      by_cases hjk : k' = j
      · subst hjk
        simp [Ne.symm hj]
      · have h' : (k' == j) = false := by simpa using hjk
        simp only [List.lookup_cons, h', ih]

theorem get?_set (m : OrderedMap κ α) (k k' : κ) (v : α) :
    (m.set k v).get? k' = if k = k' then some v else m.get? k' := lookup_setEntries m.entries k k' v

theorem get?_delete (m : OrderedMap κ α) (k k' : κ) :
    (m.delete k).get? k' = if k = k' then none else m.get? k' := lookup_filter_ne m.entries k k'

theorem mem_entries_iff (m : OrderedMap κ α) {k : κ} {v : α} :
    (k, v) ∈ m.entries ↔ m.get? k = some v := by
  obtain ⟨l, hn⟩ := m
  show (k, v) ∈ l ↔ l.lookup k = some v
  induction l with
  | nil => simp
  | cons entry rest ih =>
    obtain ⟨j, w⟩ := entry
    rw [List.map_cons, List.nodup_cons] at hn
    have ih := ih hn.2
    by_cases h : k = j
    · subst h
      have hnot : (k, v) ∉ rest := fun hmem => hn.1 (List.mem_map.mpr ⟨(k, v), hmem, rfl⟩)
      simp [hnot, eq_comm]
    · have h' : (k == j) = false := by simpa using h
      simp [List.lookup_cons, h, h', ih]

theorem entries_set_new (m : OrderedMap κ α) {k : κ} (v : α) (h : k ∉ m.entries.map Prod.fst) :
    (m.set k v).entries = m.entries ++ [(k, v)] := by
  show setEntries k v m.entries = _
  generalize m.entries = l at h
  induction l with
  | nil => rfl
  | cons entry rest ih =>
    obtain ⟨j, w⟩ := entry
    rw [List.map_cons, List.mem_cons, not_or] at h
    have hj : j ≠ k := Ne.symm h.1
    rw [setEntries, if_neg hj, ih h.2]
    rfl

end OrderedMap

end PieLab.Lib
