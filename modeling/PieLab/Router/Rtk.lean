import PieLab.Json
import PieLab.Messages

/-
  Compression of tool output

  `compressPayloadWithRtk` clones the payload of a request and shortens the text of
  tool results in the clone, in place. `clonePayload` copies a property by assigning
  it, and an assignment to `__proto__` sets the prototype of the clone instead. A
  property that a value does not have is looked up in its prototype.

  The text filters are any functions from a text to a text that may throw. What holds
  of the code is in `RtkTexts`.

  Correspondence (TypeScript ↔ Lean), packages/router/src/rtk.ts:
    `stats` and what is written ↔ `RtkState`
    `part.text = compressText(part.text, ..)` and its like ↔ `compressField`
    the bodies of the loops ↔ `compressPart`, `compressBlock`, `compressMessage`,
                              `kiroPart`, `kiroResult`, `kiroMessage`
    `autoDetectFilter` and the filters ↔ the parameter `detect`
-/

namespace PieLab.Rtk

/-! ## Values -/

/-- Who made an array or an object. -/
inductive Owner where
  | caller
  | clone
  deriving DecidableEq, Repr

/-- A value. The prototype of an object is `Object.prototype` where none is given. -/
inductive JsVal where
  | null
  | bool (b : Bool)
  | number (value : Option ℚ)
  | string (s : String)
  | array (owner : Owner) (items : List JsVal)
  | object (owner : Owner) (fields : List (String × JsVal)) (proto : Option JsVal)

mutual

/-- The value `JSON.parse` makes, with arrays and objects of one owner. -/
def ofJson (o : Owner) : Json → JsVal
  | .null => .null
  | .bool b => .bool b
  | .number value => .number value
  | .string s => .string s
  | .array items => .array o (ofItems o items)
  | .object fields => .object o (ofFields o fields) none

def ofItems (o : Owner) : List Json → List JsVal
  | [] => []
  | v :: vs => ofJson o v :: ofItems o vs

def ofFields (o : Owner) : List (String × Json) → List (String × JsVal)
  | [] => []
  | f :: fs => ofField o f :: ofFields o fs

def ofField (o : Owner) : String × Json → String × JsVal
  | (key, value) => (key, ofJson o value)

end

mutual

/-- What others see of a value: its own properties. -/
def toJson : JsVal → Json
  | .null => .null
  | .bool b => .bool b
  | .number value => .number value
  | .string s => .string s
  | .array _ items => .array (toItems items)
  | .object _ fields _ => .object (toFields fields)

def toItems : List JsVal → List Json
  | [] => []
  | v :: vs => toJson v :: toItems vs

def toFields : List (String × JsVal) → List (String × Json)
  | [] => []
  | f :: fs => toField f :: toFields fs

def toField : String × JsVal → String × Json
  | (key, value) => (key, toJson value)

end

mutual

/-- `value[key]`: an own property, or one of the prototype. -/
def get? (key : String) : JsVal → Option JsVal
  | .object _ fields proto =>
    match fields.lookup key with
    | some v => some v
    | none => getProto key proto
  | _ => none

def getProto (key : String) : Option JsVal → Option JsVal
  | none => none
  | some v => get? key v

end

/-- The own property `key` set. -/
def setField (fields : List (String × JsVal)) (key : String) (value : JsVal) :
    List (String × JsVal) :=
  if key ∈ fields.map Prod.fst then
    fields.map fun f => if f.1 = key then (key, value) else f
  else fields ++ [(key, value)]

/-- `cloned[key] = value`. The setter of `__proto__` takes objects and `null`. -/
def assign (cloned : JsVal) (f : String × JsVal) : JsVal :=
  match cloned with
  | .object o fields proto =>
    if f.1 = "__proto__" then
      match f.2 with
      | .null | .array .. | .object .. => .object o fields (some f.2)
      | _ => .object o fields proto
    else .object o (setField fields f.1 f.2) proto
  | v => v

mutual

def clonePayload : JsVal → JsVal
  | .array _ items => .array .clone (cloneItems items)
  | .object o fields proto =>
    match proto with
    | none | some .null => (cloneFields fields).foldl assign (.object .clone [] none)
    | some _ => .object o fields proto
  | v => v

def cloneItems : List JsVal → List JsVal
  | [] => []
  | v :: vs => clonePayload v :: cloneItems vs

def cloneFields : List (String × JsVal) → List (String × JsVal)
  | [] => []
  | f :: fs => cloneField f :: cloneFields fs

def cloneField : String × JsVal → String × JsVal
  | (key, value) => (key, clonePayload value)

end

/-! ## Compression -/

structure RtkHit where
  shape : String
  filter : String
  saved : Nat
  deriving DecidableEq, Repr

structure RtkStats where
  bytesBefore : Nat := 0
  bytesAfter : Nat := 0
  hits : List RtkHit := []
  deriving DecidableEq, Repr

/-- The counts, and whose objects have been written. -/
structure RtkState where
  stats : RtkStats := {}
  writes : List Owner := []

/-- A filter, which may throw. -/
structure TextFilter where
  filterName : String
  apply : String → Option String

/-- A value rewritten in place. -/
abbrev Op := JsVal → RtkState → JsVal × RtkState

def minCompressSize : Nat := 500
def rawCap : Nat := 2000000

def safeApply (filter : TextFilter) (input : String) : String := (filter.apply input).getD input

section Code
variable (detect : String → Option TextFilter)

def compressText (text shape : String) (stats : RtkStats) : String × RtkStats :=
  let bytesIn := jsLength text
  let counted := { stats with bytesBefore := stats.bytesBefore + bytesIn }
  let kept := (text, { counted with bytesAfter := stats.bytesAfter + bytesIn })
  if bytesIn < minCompressSize ∨ bytesIn > rawCap then kept
  else
    match detect text with
    | none => kept
    | some filter =>
      let output := safeApply filter text
      if output = "" ∨ jsLength output ≥ bytesIn then kept
      else (output, { counted with
        bytesAfter := stats.bytesAfter + jsLength output
        hits := stats.hits ++
          [{ shape, filter := filter.filterName, saved := bytesIn - jsLength output }] })

/-- `v[key] = compressText(v[key], stats, shape)` where it is a text. -/
def compressField (key shape : String) : Op := fun v st =>
  match get? key v, v with
  | some (.string text), .object o fields proto =>
    let (output, stats) := compressText detect text shape st.stats
    (.object o (setField fields key (.string output)) proto,
      { stats, writes := st.writes ++ [o] })
  | _, _ => (v, st)

/-- One after the other. -/
def mapItems (op : Op) : List JsVal → RtkState → List JsVal × RtkState
  | [], st => ([], st)
  | v :: vs, st =>
    let (v', st') := op v st
    let (vs', st'') := mapItems op vs st'
    (v' :: vs', st'')

/-- The loop over an array; nothing on other values. -/
def onItems (op : Op) : Op := fun v st =>
  match v with
  | .array o items =>
    let (items', st') := mapItems op items st
    (.array o items', st')
  | v => (v, st)

mutual

/-- The value of a property rewritten where it is, in the object or in a prototype. -/
def onField (key : String) (op : Op) : JsVal → RtkState → JsVal × RtkState
  | .object o fields proto, st =>
    match fields.lookup key with
    | some v =>
      let (v', st') := op v st
      (.object o (setField fields key v') proto, st')
    | none =>
      let (proto', st') := onProto key op proto st
      (.object o fields proto', st')
  | v, st => (v, st)

def onProto (key : String) (op : Op) : Option JsVal → RtkState → Option JsVal × RtkState
  | none, st => (none, st)
  | some v, st =>
    let (v', st') := onField key op v st
    (some v', st')

end

/-- `value[key] === text` -/
def hasText (v : JsVal) (key text : String) : Bool :=
  match get? key v with
  | some (.string t) => t = text
  | _ => false

def isString : Option JsVal → Bool
  | some (.string _) => true
  | _ => false

def isArray : Option JsVal → Bool
  | some (.array ..) => true
  | _ => false

def isTrue : Option JsVal → Bool
  | some (.bool true) => true
  | _ => false

def isObject : Option JsVal → Bool
  | some (.array ..) | some (.object ..) => true
  | _ => false

/-- `if (isTextPart(part, type)) part.text = compressText(part.text, stats, shape)` -/
def compressPart (type shape : String) : Op := fun part st =>
  if hasText part "type" type ∧ isString (get? "text" part) then
    compressField detect "text" shape part st
  else (part, st)

def compressBlock : Op := fun block st =>
  if ¬ hasText block "type" "tool_result" ∨ isTrue (get? "is_error" block) then (block, st)
  else if isString (get? "content" block) then
    compressField detect "content" "claude-string" block st
  else onField "content" (onItems (compressPart detect "text" "claude-array")) block st

def compressMessage : Op := fun message st =>
  if hasText message "type" "function_call_output" then
    if isString (get? "output" message) then
      compressField detect "output" "openai-responses-string" message st
    else
      onField "output" (onItems (compressPart detect "input_text" "openai-responses-array"))
        message st
  else if hasText message "role" "tool" ∧ isString (get? "content" message) then
    compressField detect "content" "openai-tool" message st
  else if ¬ isArray (get? "content" message) then (message, st)
  else if hasText message "role" "tool" then
    onField "content" (onItems (compressPart detect "text" "openai-tool-array")) message st
  else onField "content" (onItems (compressBlock detect)) message st

def kiroPart : Op := compressField detect "text" "kiro-tool-result"

def kiroResult : Op := fun result st =>
  if hasText result "status" "error" then (result, st)
  else onField "content" (onItems (kiroPart detect)) result st

/-- The body of the loop, with the array `getNestedArray` finds. -/
def kiroMessage : Op :=
  onField "userInputMessage" (onField "userInputMessageContext"
    (onField "toolResults" (onItems (kiroResult detect))))

/-- The messages of the history, then the current one. -/
def compressKiroFormat : Op :=
  onField "conversationState" fun state st =>
    let (state', st') := onField "history" (onItems (kiroMessage detect)) state st
    onField "currentMessage" (kiroMessage detect) state' st'

/-- The body after the compression, and whether there are counts. -/
def compressMessages (body : JsVal) (enabled : Bool) : JsVal × RtkState × Bool :=
  if ¬ enabled ∨ ¬ isObject (some body) then (body, {}, false)
  else if isObject (get? "conversationState" body) then
    let (body', st) := compressKiroFormat detect body {}
    (body', st, true)
  else if isArray (get? "messages" body) then
    let (body', st) := onField "messages" (onItems (compressMessage detect)) body {}
    (body', st, true)
  else if isArray (get? "input" body) then
    let (body', st) := onField "input" (onItems (compressMessage detect)) body {}
    (body', st, true)
  else (body, {}, false)

/-- `formatRtkLog`; `percent` is the text of the share that is saved. -/
def formatRtkLog (percent : Nat → Nat → String) (stats : Option RtkStats) : Option String :=
  match stats with
  | none => none
  | some stats =>
    if stats.hits = [] then none
    else
      let saved := stats.bytesBefore - stats.bytesAfter
      let pct := if stats.bytesBefore > 0 then percent saved stats.bytesBefore else "0"
      let filters := join "," (stats.hits.map (·.filter)).eraseDups
      some ("[RTK] saved " ++ toString saved ++ "B / " ++ toString stats.bytesBefore ++ "B (" ++
        pct ++ "%) via [" ++ filters ++ "] hits=" ++ toString stats.hits.length)

structure RtkPayloadResult where
  payload : JsVal
  stats : Option RtkStats
  logLine : Option String
  /-- Whose objects the compression has written. -/
  writes : List Owner

def compressPayloadWithRtk (percent : Nat → Nat → String) (payload : JsVal) (enabled : Bool) :
    RtkPayloadResult :=
  let cloned := clonePayload payload
  let (payload, st, counted) := compressMessages detect cloned enabled
  let stats := if counted then some st.stats else none
  { payload, stats, logLine := formatRtkLog percent stats, writes := st.writes }

end Code

end PieLab.Rtk
