import Mathlib.Data.Rat.Defs

/-
  JSON values

  What `JSON.parse` returns, and reading a property of a value whose type is not
  known.
-/

namespace PieLab

inductive Json where
  | null
  | bool (b : Bool)
  /-- A number; a literal too large for a double is `Infinity`. -/
  | number (value : Option ℚ)
  | string (s : String)
  | array (items : List Json)
  | object (fields : List (String × Json))

/-- `value.name`: the property of an object, `undefined` on other values. -/
def Json.get? (value : Json) (name : String) : Option Json :=
  match value with
  | .object fields => fields.lookup name
  | _ => none

/-- `value.name` where the value may be `null`. -/
def Json.property (value : Json) (name : String) : Except String (Option Json) :=
  match value with
  | .null => .error ("Cannot read properties of null (reading '" ++ name ++ "')")
  | _ => .ok (value.get? name)

/-- A value that is not `null`, `false`, `0` or `""`. -/
def Json.truthy : Json → Bool
  | .null => false
  | .bool b => b
  | .number (some q) => q ≠ 0
  | .number none => true
  | .string s => s ≠ ""
  | .array _ | .object _ => true

/-- `value.key === text` -/
def Json.hasText (value : Json) (key text : String) : Bool :=
  match value.get? key with
  | some (.string t) => t = text
  | _ => false

/-- `value.type === type` -/
def Json.hasType (value : Json) (type : String) : Bool := value.hasText "type" type

/-- `value ?? other` of a property -/
def Json.orElse (value other : Option Json) : Option Json :=
  match value with
  | none | some .null => other
  | some value => some value

end PieLab
