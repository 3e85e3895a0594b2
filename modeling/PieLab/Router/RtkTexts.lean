import PieLab.Lib.OrderedMap
import PieLab.Router.Rtk

/-
  What the compression changes

  A payload is what `JSON.parse` makes of a text. The clone of the compression is seen
  through its own properties, and compared with the payload place by place.

  What is proved:
    1. `clonePayload_eq`   — without a property `__proto__` the clone is the payload.
    2. `compressText_spec` — a text is unchanged or shorter and not empty, and the
       counts agree.
    3. `opRight_onField`, `opRight_onItems`, `opRight_compressField` — a rewriting in
       place is right where it is right on the parts.
    4. `compression_iff`   — only texts of tool results are changed, nothing of the
       caller is written and the counts agree, exactly where no object of the payload
       has a property `__proto__`.
-/

namespace PieLab.Rtk

/-! ## What may change -/

/-- A step from a value to a part of it. -/
inductive Step where
  | key (name : String)
  | index (i : Nat)
  deriving DecidableEq, Repr

def stepInto : Json → Step → Option Json
  | .object fields, .key name => fields.lookup name
  | .array items, .index i => items[i]?
  | _, _ => none

/-- The value at a place. -/
def valueAt (v : Json) (path : List Step) : Option Json := path.foldlM stepInto v

/-- The places of the texts of tool results, those flagged as errors left out. -/
inductive ToolText (payload : Json) : List Step → Prop
  /-- `{ type: "function_call_output", output: text }` -/
  | responsesText {list : String} {i : Nat} {item : Json} (hlist : list = "messages" ∨ list = "input")
      (hitem : valueAt payload [.key list, .index i] = some item)
      (htype : item.hasType "function_call_output") :
      ToolText payload [.key list, .index i, .key "output"]
  /-- A part `{ type: "input_text", text }` of such an output -/
  | responsesPart {list : String} {i j : Nat} {item part : Json}
      (hlist : list = "messages" ∨ list = "input")
      (hitem : valueAt payload [.key list, .index i] = some item)
      (htype : item.hasType "function_call_output")
      (hpart : valueAt payload [.key list, .index i, .key "output", .index j] = some part)
      (hpartType : part.hasType "input_text") :
      ToolText payload [.key list, .index i, .key "output", .index j, .key "text"]
  /-- `{ role: "tool", content: text }` -/
  | toolText {list : String} {i : Nat} {item : Json} (hlist : list = "messages" ∨ list = "input")
      (hitem : valueAt payload [.key list, .index i] = some item)
      (hrole : item.hasText "role" "tool") :
      ToolText payload [.key list, .index i, .key "content"]
  /-- A part `{ type: "text", text }` of such a content -/
  | toolPart {list : String} {i j : Nat} {item part : Json}
      (hlist : list = "messages" ∨ list = "input")
      (hitem : valueAt payload [.key list, .index i] = some item)
      (hrole : item.hasText "role" "tool")
      (hpart : valueAt payload [.key list, .index i, .key "content", .index j] = some part)
      (hpartType : part.hasType "text") :
      ToolText payload [.key list, .index i, .key "content", .index j, .key "text"]
  /-- A block `{ type: "tool_result", content: text }` of a message -/
  | claudeText {list : String} {i j : Nat} {block : Json}
      (hlist : list = "messages" ∨ list = "input")
      (hblock : valueAt payload [.key list, .index i, .key "content", .index j] = some block)
      (htype : block.hasType "tool_result")
      (herror : ∀ b, block.get? "is_error" = some (.bool b) → b = false) :
      ToolText payload [.key list, .index i, .key "content", .index j, .key "content"]
  /-- A part `{ type: "text", text }` of such a block -/
  | claudePart {list : String} {i j k : Nat} {block part : Json}
      (hlist : list = "messages" ∨ list = "input")
      (hblock : valueAt payload [.key list, .index i, .key "content", .index j] = some block)
      (htype : block.hasType "tool_result")
      (herror : ∀ b, block.get? "is_error" = some (.bool b) → b = false)
      (hpart : valueAt payload
        [.key list, .index i, .key "content", .index j, .key "content", .index k] = some part)
      (hpartType : part.hasType "text") :
      ToolText payload
        [.key list, .index i, .key "content", .index j, .key "content", .index k, .key "text"]
  /-- A part of a tool result of the history or of the current message -/
  | kiroPart {message : List Step} {j k : Nat} {result : Json}
      (hmessage : message = [.key "currentMessage"] ∨ ∃ i, message = [.key "history", .index i])
      (hresult : valueAt payload ([.key "conversationState"] ++ message ++
        [.key "userInputMessage", .key "userInputMessageContext", .key "toolResults", .index j]) =
          some result)
      (hstatus : result.hasText "status" "error" = false) :
      ToolText payload ([.key "conversationState"] ++ message ++
        [.key "userInputMessage", .key "userInputMessageContext", .key "toolResults", .index j,
          .key "content", .index k, .key "text"])

/-- Two values that differ only in texts at the given places, where the second has a
shorter text that is not empty. -/
inductive EditedAt (ok : List Step → Prop) : List Step → Json → Json → Prop
  | same {path : List Step} {v : Json} : EditedAt ok path v v
  | text {path : List Step} {s t : String} (hok : ok path) (hne : t ≠ "")
      (hshort : jsLength t < jsLength s) : EditedAt ok path (.string s) (.string t)
  | array {path : List Step} {items items' : List Json} (hlength : items.length = items'.length)
      (h : ∀ (i : Nat) (v v' : Json), items[i]? = some v → items'[i]? = some v' →
        EditedAt ok (path ++ [.index i]) v v') : EditedAt ok path (.array items) (.array items')
  | object {path : List Step} {fields fields' : List (String × Json)}
      (hkeys : fields.map Prod.fst = fields'.map Prod.fst)
      (h : ∀ (i : Nat) (key : String) (v v' : Json), fields[i]? = some (key, v) →
        fields'[i]? = some (key, v') → EditedAt ok (path ++ [.key key]) v v') :
      EditedAt ok path (.object fields) (.object fields')

/-- Every object has each of its properties once. -/
inductive DistinctKeys : Json → Prop
  | null : DistinctKeys .null
  | bool {b : Bool} : DistinctKeys (.bool b)
  | number {value : Option ℚ} : DistinctKeys (.number value)
  | string {s : String} : DistinctKeys (.string s)
  | array {items : List Json} (h : ∀ v ∈ items, DistinctKeys v) : DistinctKeys (.array items)
  | object {fields : List (String × Json)} (hkeys : (fields.map Prod.fst).Nodup)
      (h : ∀ f ∈ fields, DistinctKeys f.2) : DistinctKeys (.object fields)

/-- A JSON value as `JSON.parse` makes it. -/
structure Payload where
  value : Json
  distinct : DistinctKeys value

/-- No object has a property `__proto__`. -/
inductive NoProtoKey : Json → Prop
  | null : NoProtoKey .null
  | bool {b : Bool} : NoProtoKey (.bool b)
  | number {value : Option ℚ} : NoProtoKey (.number value)
  | string {s : String} : NoProtoKey (.string s)
  | array {items : List Json} (h : ∀ v ∈ items, NoProtoKey v) : NoProtoKey (.array items)
  | object {fields : List (String × Json)} (hkeys : ∀ f ∈ fields, f.1 ≠ "__proto__")
      (h : ∀ f ∈ fields, NoProtoKey f.2) : NoProtoKey (.object fields)

/-- What the compression promises. -/
structure CompressionRight (payload : Json) (r : RtkPayloadResult) : Prop where
  callerKept : ∀ owner ∈ r.writes, owner = .clone
  edited : EditedAt (ToolText payload) [] payload (toJson r.payload)
  counted : ∀ stats, r.stats = some stats →
    (stats.bytesBefore : Int) - stats.bytesAfter = ((stats.hits.map (·.saved)).sum : Nat)

/-! ## Lists of values -/

theorem ofItems_eq (o : Owner) (items : List Json) : ofItems o items = items.map (ofJson o) := by
  induction items with
  | nil => rfl
  | cons v vs ih => rw [ofItems, ih, List.map_cons]

theorem ofFields_eq (o : Owner) (fields : List (String × Json)) :
    ofFields o fields = fields.map fun f => (f.1, ofJson o f.2) := by
  induction fields with
  | nil => rfl
  | cons f fs ih => rw [ofFields, ih, List.map_cons, ofField]

theorem toItems_eq (items : List JsVal) : toItems items = items.map toJson := by
  induction items with
  | nil => rfl
  | cons v vs ih => rw [toItems, ih, List.map_cons]

theorem toFields_eq (fields : List (String × JsVal)) :
    toFields fields = fields.map fun f => (f.1, toJson f.2) := by
  induction fields with
  | nil => rfl
  | cons f fs ih => rw [toFields, ih, List.map_cons, toField]

theorem cloneItems_eq (items : List JsVal) : cloneItems items = items.map clonePayload := by
  induction items with
  | nil => rfl
  | cons v vs ih => rw [cloneItems, ih, List.map_cons]

theorem cloneFields_eq (fields : List (String × JsVal)) :
    cloneFields fields = fields.map fun f => (f.1, clonePayload f.2) := by
  induction fields with
  | nil => rfl
  | cons f fs ih => rw [cloneFields, ih, List.map_cons, cloneField]

theorem lookup_map {α β : Type} (g : α → β) (fields : List (String × α)) (key : String) :
    (fields.map fun f => (f.1, g f.2)).lookup key = (fields.lookup key).map g := by
  induction fields with
  | nil => rfl
  | cons f fs ih =>
    rw [List.map_cons, List.lookup_cons, List.lookup_cons]
    cases key == f.1 <;> simp [ih]

mutual

theorem toJson_ofJson (o : Owner) : ∀ v, toJson (ofJson o v) = v
  | .null => rfl
  | .bool _ => rfl
  | .number _ => rfl
  | .string _ => rfl
  | .array items => congrArg Json.array (toItems_ofItems o items)
  | .object fields => congrArg Json.object (toFields_ofFields o fields)

theorem toItems_ofItems (o : Owner) : ∀ items, toItems (ofItems o items) = items
  | [] => rfl
  | v :: vs => by rw [ofItems, toItems, toJson_ofJson o v, toItems_ofItems o vs]

theorem toFields_ofFields (o : Owner) : ∀ fields, toFields (ofFields o fields) = fields
  | [] => rfl
  | f :: fs => by rw [ofFields, toFields, toField_ofField o f, toFields_ofFields o fs]

theorem toField_ofField (o : Owner) : ∀ f, toField (ofField o f) = f
  | (_, value) => by rw [ofField, toField, toJson_ofJson o value]

end

theorem get?_ofJson (o : Owner) (key : String) (v : Json) :
    get? key (ofJson o v) = (v.get? key).map (ofJson o) := by
  cases v with
  | object fields =>
    rw [ofJson, get?, ofFields_eq, lookup_map, Json.get?]
    cases fields.lookup key <;> rfl
  | _ => rfl

theorem hasText_ofJson (o : Owner) (key text : String) (v : Json) :
    hasText (ofJson o v) key text = v.hasText key text := by
  rw [hasText, get?_ofJson, Json.hasText]
  cases hget : v.get? key with
  | none => rfl
  | some w => cases w <;> rfl

/-! ## The clone -/

theorem setField_new {fields : List (String × JsVal)} {key : String} (value : JsVal)
    (h : key ∉ fields.map Prod.fst) : setField fields key value = fields ++ [(key, value)] :=
  if_neg h

theorem foldl_assign (o : Owner) (proto : Option JsVal) :
    ∀ (fs done : List (String × JsVal)), ((done ++ fs).map Prod.fst).Nodup →
      (∀ f ∈ fs, f.1 ≠ "__proto__") →
      fs.foldl assign (.object o done proto) = .object o (done ++ fs) proto
  | [], done, _, _ => by simp
  | f :: fs, done, hnodup, hkeys => by
    obtain ⟨hf, hrest⟩ := List.forall_mem_cons.1 hkeys
    have hnew : f.1 ∉ done.map Prod.fst := by
      intro hmem
      rw [List.map_append, List.nodup_append] at hnodup
      exact hnodup.2.2 _ hmem f.1 (by simp) rfl
    have hassoc : done ++ [f] ++ fs = done ++ f :: fs := by simp
    rw [List.foldl_cons, assign, if_neg hf, setField_new _ hnew,
      foldl_assign o proto fs (done ++ [f]) (by rw [hassoc]; exact hnodup) hrest, hassoc]

/-- Without `__proto__` the clone is the payload, made anew. -/
theorem clonePayload_eq {v : Json} (hproto : NoProtoKey v) (hdistinct : DistinctKeys v)
    (o : Owner) : clonePayload (ofJson o v) = ofJson .clone v := by
  induction hproto with
  | null | bool | number | string => rfl
  | @array items _ ih =>
    cases hdistinct with
    | array hitems =>
      rw [ofJson, ofJson, clonePayload, cloneItems_eq, ofItems_eq, ofItems_eq, List.map_map]
      exact congrArg _ (List.map_congr_left fun v hv => ih v hv (hitems v hv))
  | @object fields hkeys _ ih =>
    cases hdistinct with
    | object hnodup hfields =>
      have hclone : cloneFields (ofFields o fields) = ofFields .clone fields := by
        rw [cloneFields_eq, ofFields_eq, ofFields_eq, List.map_map]
        refine List.map_congr_left fun f hf => ?_
        exact congrArg (Prod.mk f.1) (ih f hf (hfields f hf))
      have hfst : (ofFields .clone fields).map Prod.fst = fields.map Prod.fst := by
        rw [ofFields_eq, List.map_map]
        rfl
      have hnames : ∀ f ∈ ofFields .clone fields, f.1 ≠ "__proto__" := by
        rw [ofFields_eq]
        intro f hf
        obtain ⟨g, hg, rfl⟩ := List.mem_map.1 hf
        exact hkeys g hg
      simp only [ofJson, clonePayload]
      rw [hclone, foldl_assign .clone none _ [] (by simpa [hfst] using hnodup) hnames]
      rfl

/-- The own properties of an object, none of them `__proto__`. -/
def CleanFields (fields : List (String × JsVal)) : Prop :=
  ∀ f ∈ fields, f.1 ≠ "__proto__" ∧ NoProtoKey (toJson f.2)

theorem noProtoKey_object {o : Owner} {fields : List (String × JsVal)} {proto : Option JsVal} :
    NoProtoKey (toJson (.object o fields proto)) ↔ CleanFields fields := by
  rw [toJson, toFields_eq]
  constructor
  · intro h f hf
    cases h with
    | object hkeys hvalues =>
      have hmem : (f.1, toJson f.2) ∈ fields.map fun f => (f.1, toJson f.2) :=
        List.mem_map_of_mem hf
      exact ⟨hkeys _ hmem, hvalues _ hmem⟩
  · intro h
    refine .object (fun g hg => ?_) (fun g hg => ?_)
    · obtain ⟨f, hf, rfl⟩ := List.mem_map.1 hg
      exact (h f hf).1
    · obtain ⟨f, hf, rfl⟩ := List.mem_map.1 hg
      exact (h f hf).2

theorem CleanFields.setField {fields : List (String × JsVal)} (h : CleanFields fields)
    {key : String} {value : JsVal} (hkey : key ≠ "__proto__") (hvalue : NoProtoKey (toJson value)) :
    CleanFields (setField fields key value) := by
  unfold Rtk.setField
  split
  · intro f hf
    obtain ⟨g, hg, rfl⟩ := List.mem_map.1 hf
    split
    · exact ⟨hkey, hvalue⟩
    · exact h g hg
  · intro f hf
    rcases List.mem_append.1 hf with hf | hf
    · exact h f hf
    · rw [List.mem_singleton.1 hf]
      exact ⟨hkey, hvalue⟩

theorem foldl_assign_clean {fs : List (String × JsVal)} (hfs : ∀ f ∈ fs, NoProtoKey (toJson f.2)) :
    ∀ {o : Owner} {fields : List (String × JsVal)} {proto : Option JsVal}, CleanFields fields →
      NoProtoKey (toJson (fs.foldl assign (.object o fields proto))) := by
  induction fs with
  | nil => exact fun h => noProtoKey_object.2 h
  | cons f fs ih =>
    intro o fields proto h
    obtain ⟨hf, hrest⟩ := List.forall_mem_cons.1 hfs
    rw [List.foldl_cons, assign]
    split
    · -- the setter leaves the own properties as they are
      split <;> exact ih hrest h
    · rename_i hkey
      exact ih hrest (h.setField hkey hf)

mutual

theorem clonePayload_clean (o : Owner) : ∀ v, NoProtoKey (toJson (clonePayload (ofJson o v)))
  | .null => .null
  | .bool _ => .bool
  | .number _ => .number
  | .string _ => .string
  | .array items => by
    rw [ofJson, clonePayload, toJson, toItems_eq]
    refine .array fun v hv => ?_
    obtain ⟨w, hw, rfl⟩ := List.mem_map.1 hv
    exact cloneItems_clean o items w hw
  | .object fields => by
    simp only [ofJson, clonePayload]
    exact foldl_assign_clean (cloneFields_clean o fields) (fun f hf => by cases hf)

theorem cloneItems_clean (o : Owner) : ∀ items, ∀ w ∈ cloneItems (ofItems o items),
    NoProtoKey (toJson w)
  | [] => fun w hw => by cases hw
  | v :: vs => by
    rw [ofItems, cloneItems]
    exact List.forall_mem_cons.2 ⟨clonePayload_clean o v, cloneItems_clean o vs⟩

theorem cloneFields_clean (o : Owner) : ∀ fields, ∀ f ∈ cloneFields (ofFields o fields),
    NoProtoKey (toJson f.2)
  | [] => fun f hf => by cases hf
  | f :: fs => by
    rw [ofFields, cloneFields]
    exact List.forall_mem_cons.2 ⟨cloneField_clean o f, cloneFields_clean o fs⟩

theorem cloneField_clean (o : Owner) : ∀ f, NoProtoKey (toJson (cloneField (ofField o f)).2)
  | (_, value) => by
    rw [ofField, cloneField]
    exact clonePayload_clean o value

end

/-! ## One text -/

def Balanced (stats : RtkStats) : Prop :=
  stats.bytesBefore = stats.bytesAfter + (stats.hits.map (·.saved)).sum

theorem compressText_spec (detect : String → Option TextFilter) (text shape : String)
    {stats : RtkStats} (h : Balanced stats) :
    ((compressText detect text shape stats).1 = text ∨
      (compressText detect text shape stats).1 ≠ "" ∧
        jsLength (compressText detect text shape stats).1 < jsLength text) ∧
      Balanced (compressText detect text shape stats).2 := by
  have hkept : Balanced { stats with
      bytesBefore := stats.bytesBefore + jsLength text
      bytesAfter := stats.bytesAfter + jsLength text } := by
    simp only [Balanced] at h ⊢
    omega
  simp only [compressText]
  split
  · exact ⟨.inl rfl, hkept⟩
  · split
    · exact ⟨.inl rfl, hkept⟩
    · rename_i filter _
      split
      · exact ⟨.inl rfl, hkept⟩
      · rename_i hout
        simp only [not_or, not_le] at hout
        refine ⟨.inr ⟨hout.1, hout.2⟩, ?_⟩
        simp only [Balanced, List.map_append, List.sum_append, List.map_cons, List.map_nil,
          List.sum_cons, List.sum_nil] at h ⊢
        omega

/-! ## Rewriting in place -/

/-- The counts agree and nothing of the caller has been written. -/
structure Sound (st : RtkState) : Prop where
  balanced : Balanced st.stats
  owners : ∀ owner ∈ st.writes, owner = .clone

/-- At this place of the payload the operation changes texts of tool results only. -/
def OpRight (payload : Json) (path : List Step) (v : Json) (op : Op) : Prop :=
  ∀ st, Sound st →
    EditedAt (ToolText payload) path v (toJson (op (ofJson .clone v) st).1) ∧
      Sound (op (ofJson .clone v) st).2

/-- The operation adds no property `__proto__`. -/
def Keeps (op : Op) : Prop := ∀ v st, NoProtoKey (toJson v) → NoProtoKey (toJson (op v st).1)

variable {ok : List Step → Prop} {op : Op} {shape : String}

section Operations
variable {payload : Json} {path : List Step}

theorem opRight_skip {v : Json} {op : Op}
    (h : ∀ st, op (ofJson .clone v) st = (ofJson .clone v, st)) :
    OpRight payload path v op := by
  intro st hst
  rw [h, toJson_ofJson]
  exact ⟨.same, hst⟩

theorem lookup_setField_keys (fields : List (String × JsVal)) {key : String} {w : JsVal}
    (h : fields.lookup key = some w) (value : JsVal) :
    setField fields key value = fields.map fun f => if f.1 = key then (key, value) else f := by
  refine if_pos ?_
  by_contra hnone
  have hlookup : fields.lookup key = none := by
    rw [List.lookup_eq_none_iff]
    intro f hf
    simp only [bne_iff_ne, ne_eq]
    rintro rfl
    exact hnone (List.mem_map_of_mem hf)
  rw [h] at hlookup
  cases hlookup

theorem EditedAt.fields {fields fields' : List (String × Json)}
    (h : EditedAt ok path (.object fields) (.object fields')) :
    fields.map Prod.fst = fields'.map Prod.fst ∧
      ∀ (i : Nat) (key : String) (v v' : Json), fields[i]? = some (key, v) →
        fields'[i]? = some (key, v') → EditedAt ok (path ++ [.key key]) v v' := by
  cases h with
  | same =>
    refine ⟨rfl, fun i key v v' hv hv' => ?_⟩
    cases hv.symm.trans hv'
    exact .same
  | object hkeys h => exact ⟨hkeys, h⟩

theorem editedAt_setField {fields : List (String × Json)} (hnodup : (fields.map Prod.fst).Nodup)
    {now : List (String × JsVal)}
    (hnow : EditedAt ok path (.object fields) (.object (toFields now))) {key : String} {v : Json}
    (hv : fields.lookup key = some v) {w value : JsVal} (hw : now.lookup key = some w)
    (h : EditedAt ok (path ++ [.key key]) v (toJson value)) :
    EditedAt ok path (.object fields) (.object (toFields (setField now key value))) := by
  obtain ⟨hkeys, hedits⟩ := hnow.fields
  rw [toFields_eq] at hkeys hedits
  have hset : toFields (setField now key value) =
      now.map fun f => if f.1 = key then (key, toJson value) else (f.1, toJson f.2) := by
    rw [lookup_setField_keys _ hw, toFields_eq, List.map_map]
    refine List.map_congr_left fun f _ => ?_
    simp only [Function.comp_apply]
    split <;> rfl
  rw [hset]
  refine .object ?_ fun i k u u' hu hu' => ?_
  · rw [hkeys, List.map_map, List.map_map]
    refine List.map_congr_left fun f _ => ?_
    simp only [Function.comp_apply]
    split
    · rename_i heq
      exact heq
    · rfl
  · rw [List.getElem?_map] at hu'
    obtain ⟨f, hf, hfu⟩ := Option.map_eq_some_iff.1 hu'
    split at hfu
    · cases hfu
      -- there is one property of that name
      have hlookup : fields.lookup key = some u :=
        (Lib.OrderedMap.mem_entries_iff ⟨fields, hnodup⟩).1 (List.mem_of_getElem? hu)
      cases hv.symm.trans hlookup
      exact h
    · cases hfu
      exact hedits i f.1 u _ hu (by rw [List.getElem?_map, hf, Option.map_some])

/-! ### Places of the payload -/

theorem valueAt_snoc {v w : Json} {step : Step} (hv : valueAt payload path = some v)
    (h : stepInto v step = some w) : valueAt payload (path ++ [step]) = some w := by
  rw [valueAt] at hv ⊢
  rw [List.foldlM_append, hv]
  simp [h]

theorem DistinctKeys.stepInto {v w : Json} {step : Step} (h : DistinctKeys v)
    (hw : stepInto v step = some w) : DistinctKeys w := by
  cases h with
  | array hitems =>
    cases step with
    | key name => cases hw
    | index i => exact hitems w (List.mem_of_getElem? hw)
  | @object fields hkeys hfields =>
    cases step with
    | key name =>
      exact hfields (name, w) ((Lib.OrderedMap.mem_entries_iff ⟨fields, hkeys⟩).2 hw)
    | index i => cases hw
  | _ => cases hw

theorem DistinctKeys.valueAt {v w : Json} (h : DistinctKeys v) {path : List Step}
    (hw : valueAt v path = some w) : DistinctKeys w := by
  induction path generalizing v with
  | nil =>
    cases hw
    exact h
  | cons step path ih =>
    rw [Rtk.valueAt, List.foldlM_cons] at hw
    obtain ⟨u, hu, hw⟩ := Option.bind_eq_some_iff.1 hw
    exact ih (h.stepInto hu) hw

/-! ### Operations that are right -/

variable (hpayload : DistinctKeys payload)

theorem lookup_ofFields (fields : List (String × Json)) (key : String) :
    (ofFields .clone fields).lookup key = (fields.lookup key).map (ofJson .clone) := by
  rw [ofFields_eq, lookup_map]

include hpayload in
theorem opRight_onField {v : Json} {key : String} (hv : valueAt payload path = some v)
    (h : ∀ child, valueAt payload (path ++ [.key key]) = some child →
      OpRight payload (path ++ [.key key]) child op) : OpRight payload path v (onField key op) := by
  intro st hst
  cases v with
  | object fields =>
    cases hpayload.valueAt hv with
    | object hnodup _ =>
      rw [ofJson, onField, lookup_ofFields]
      cases hlookup : fields.lookup key with
      | none =>
        simp only [Option.map_none, onProto, toJson, toFields_ofFields]
        exact ⟨.same, hst⟩
      | some child =>
        obtain ⟨hedited, hsound⟩ := h child (valueAt_snoc hv hlookup) st hst
        refine ⟨editedAt_setField hnodup (by rw [toFields_ofFields]; exact .same) hlookup
          (w := ofJson .clone child) (by rw [lookup_ofFields, hlookup]; rfl) hedited, hsound⟩
  | _ => exact opRight_skip (fun _ => rfl) st hst

theorem mapItems_right :
    ∀ (items : List Json) (n : Nat) {st : RtkState}, Sound st →
      (∀ (i : Nat) (v : Json), items[i]? = some v → OpRight payload (path ++ [.index (n + i)]) v op) →
      items.length = (mapItems op (ofItems .clone items) st).1.length ∧
        (∀ (i : Nat) (v v' : Json), items[i]? = some v →
          (toItems (mapItems op (ofItems .clone items) st).1)[i]? = some v' →
          EditedAt (ToolText payload) (path ++ [.index (n + i)]) v v') ∧
        Sound (mapItems op (ofItems .clone items) st).2
  | [], n, st, hst, _ => ⟨rfl, fun i v v' hv => by simp at hv, hst⟩
  | v :: vs, n, st, hst, h => by
    obtain ⟨hedited, hsound⟩ := h 0 v rfl st hst
    obtain ⟨hlength, hrest, hsound'⟩ := mapItems_right vs (n + 1) hsound
      (fun i w hw => by
        have := h (i + 1) w hw
        rwa [Nat.add_comm i 1, ← Nat.add_assoc] at this)
    refine ⟨by simp only [ofItems, mapItems, List.length_cons, hlength], fun i w w' hw hw' => ?_,
      hsound'⟩
    cases i with
    | zero =>
      cases hw
      cases hw'
      exact hedited
    | succ i =>
      have := hrest i w w' hw hw'
      rwa [Nat.add_assoc, Nat.add_comm 1 i] at this

theorem opRight_onItems {v : Json} (hv : valueAt payload path = some v)
    (h : ∀ i child, valueAt payload (path ++ [.index i]) = some child →
      OpRight payload (path ++ [.index i]) child op) : OpRight payload path v (onItems op) := by
  intro st hst
  cases v with
  | array items =>
    obtain ⟨hlength, hedits, hsound⟩ := mapItems_right items 0 hst
      (fun i w hw => by
        rw [Nat.zero_add]
        exact h i w (valueAt_snoc hv hw))
    refine ⟨.array ?_ fun i w w' hw hw' => ?_, hsound⟩
    · rw [toItems_eq, List.length_map]
      exact hlength
    · have := hedits i w w' hw hw'
      rwa [Nat.zero_add] at this
  | _ => exact opRight_skip (fun _ => rfl) st hst

include hpayload in
theorem opRight_compressField {detect : String → Option TextFilter} {v : Json} {key : String}
    (hv : valueAt payload path = some v)
    (hok : ∀ s, v.get? key = some (.string s) → ToolText payload (path ++ [.key key])) :
    OpRight payload path v (compressField detect key shape) := by
  intro st hst
  cases v with
  | object fields =>
    cases hpayload.valueAt hv with
    | object hnodup _ =>
      have hget : get? key (ofJson .clone (.object fields)) =
          (fields.lookup key).map (ofJson .clone) := get?_ofJson .clone key (.object fields)
      unfold compressField
      rw [hget]
      cases hlookup : fields.lookup key with
      | none =>
        refine ⟨?_, hst⟩
        simp only [Option.map_none, toJson_ofJson]
        exact .same
      | some child =>
        cases child with
        | string text =>
          obtain ⟨htext, hbalanced⟩ := compressText_spec detect text shape hst.balanced
          have hedited : EditedAt (ToolText payload) (path ++ [.key key]) (.string text)
              (toJson (.string (compressText detect text shape st.stats).1)) := by
            rcases htext with heq | ⟨hne, hshort⟩
            · rw [heq]
              exact .same
            · exact .text (hok text hlookup) hne hshort
          refine ⟨editedAt_setField hnodup (by rw [toFields_ofFields]; exact .same) hlookup
            (w := .string text) (by rw [lookup_ofFields, hlookup]; rfl) hedited, hbalanced, ?_⟩
          intro owner howner
          rcases List.mem_append.1 howner with hold | hnew
          · exact hst.owners owner hold
          · exact List.mem_singleton.1 hnew
        | _ =>
          refine ⟨?_, hst⟩
          simp only [Option.map_some, ofJson, toJson, toFields_ofFields]
          exact .same
  | _ => exact opRight_skip (fun _ => rfl) st hst

theorem lookup_setField_ne (fields : List (String × JsVal)) {key other : String}
    (h : other ≠ key) (value : JsVal) :
    (setField fields key value).lookup other = fields.lookup other := by
  have hkey : (other == key) = false := by simpa using h
  unfold setField
  split
  · induction fields with
    | nil => rfl
    | cons f fs ih =>
      rename_i hmem
      rw [List.map_cons, List.lookup_cons, List.lookup_cons]
      by_cases hf : f.1 = key
      · rw [if_pos hf, hf, hkey]
        by_cases hrest : key ∈ fs.map Prod.fst
        · exact ih hrest
        · have hsame : fs.map (fun g => if g.1 = key then (key, value) else g) = fs := by
            refine (List.map_congr_left fun g hg => if_neg ?_).trans (List.map_id fs)
            rintro rfl
            exact hrest (List.mem_map_of_mem hg)
          rw [hsame]
      · rw [if_neg hf]
        have hrest : key ∈ fs.map Prod.fst := by
          rcases List.mem_cons.1 hmem with heq | hrest
          · exact absurd heq.symm hf
          · exact hrest
        rw [ih hrest]
  · induction fields with
    | nil => simp [List.lookup_cons, hkey]
    | cons f fs ih =>
      rename_i hmem
      have hrest : key ∉ fs.map Prod.fst := fun h => hmem (List.mem_cons_of_mem _ h)
      rw [List.cons_append, List.lookup_cons, List.lookup_cons, ih hrest]

include hpayload in
theorem opRight_onFields {v : Json} {key other : String} (hne : other ≠ key) {op' : Op}
    (hv : valueAt payload path = some v)
    (h : ∀ child, valueAt payload (path ++ [.key key]) = some child →
      OpRight payload (path ++ [.key key]) child op)
    (h' : ∀ child, valueAt payload (path ++ [.key other]) = some child →
      OpRight payload (path ++ [.key other]) child op') :
    OpRight payload path v fun v st =>
      onField other op' (onField key op v st).1 (onField key op v st).2 := by
  intro st hst
  obtain ⟨hedited, hsound⟩ := opRight_onField hpayload hv h st hst
  cases v with
  | object fields =>
    -- the first operation leaves the other property as it is
    obtain ⟨now, hnow, hother⟩ : ∃ now,
        (onField key op (ofJson .clone (.object fields)) st).1 = .object .clone now none ∧
          now.lookup other = (ofFields .clone fields).lookup other := by
      rw [ofJson, onField]
      cases (ofFields .clone fields).lookup key with
      | none => exact ⟨_, rfl, rfl⟩
      | some w => exact ⟨_, rfl, lookup_setField_ne _ hne _⟩
    rw [hnow] at hedited
    beta_reduce
    rw [hnow]
    generalize (onField key op (ofJson .clone (.object fields)) st).2 = st₁ at hsound ⊢
    rw [onField, hother, lookup_ofFields]
    cases hlookup : fields.lookup other with
    | none => exact ⟨hedited, hsound⟩
    | some child =>
      cases hpayload.valueAt hv with
      | object hnodup _ =>
        obtain ⟨hchild, hsound'⟩ := h' child (valueAt_snoc hv hlookup) st₁ hsound
        refine ⟨editedAt_setField hnodup hedited hlookup (w := ofJson .clone child) ?_ hchild,
          hsound'⟩
        rw [hother, lookup_ofFields, hlookup]
        rfl
  | _ => exact opRight_skip (fun _ => rfl) st hst

end Operations

/-! ## The loops -/

section Loops
variable {payload : Json} (hpayload : DistinctKeys payload) (detect : String → Option TextFilter)

include hpayload

theorem compressPart_right {path : List Step} {part : Json} {type : String}
    (hv : valueAt payload path = some part)
    (hok : part.hasType type → ToolText payload (path ++ [.key "text"])) :
    OpRight payload path part (compressPart detect type shape) := by
  by_cases htype : part.hasType type = true
  · intro st hst
    unfold compressPart
    split
    · exact opRight_compressField hpayload hv (fun _ _ => hok htype) st hst
    · exact opRight_skip (fun _ => rfl) st hst
  · refine opRight_skip fun st => if_neg ?_
    rw [hasText_ofJson]
    exact fun h => htype h.1

theorem compressBlock_right {list : String} (hlist : list = "messages" ∨ list = "input") {i j : Nat}
    {block : Json}
    (hv : valueAt payload [.key list, .index i, .key "content", .index j] = some block) :
    OpRight payload [.key list, .index i, .key "content", .index j] block
      (compressBlock detect) := by
  by_cases hskip : ¬ hasText (ofJson .clone block) "type" "tool_result" ∨
      isTrue (get? "is_error" (ofJson .clone block))
  · exact opRight_skip fun st => if_pos hskip
  · have hblock : block.hasType "tool_result" = true ∧
        ∀ b, block.get? "is_error" = some (.bool b) → b = false := by
      rw [hasText_ofJson, get?_ofJson] at hskip
      simp only [not_or, Bool.not_eq_true] at hskip
      refine ⟨by simpa [Json.hasType] using hskip.1, fun b hb => ?_⟩
      cases b with
      | false => rfl
      | true => simp [hb, ofJson, isTrue] at hskip
    intro st hst
    rw [compressBlock, if_neg hskip]
    split
    · exact opRight_compressField hpayload hv
        (fun _ _ => .claudeText hlist hv hblock.1 hblock.2) st hst
    · exact opRight_onField hpayload hv (fun content hcontent =>
        opRight_onItems hcontent fun k part hpart => compressPart_right hpayload detect hpart
          fun htype => .claudePart hlist hv hblock.1 hblock.2 hpart htype) st hst

theorem compressMessage_right {list : String} (hlist : list = "messages" ∨ list = "input") {i : Nat}
    {item : Json} (hv : valueAt payload [.key list, .index i] = some item) :
    OpRight payload [.key list, .index i] item (compressMessage detect) := by
  intro st hst
  unfold compressMessage
  rw [hasText_ofJson, hasText_ofJson]
  split
  · rename_i htype
    split
    · exact opRight_compressField hpayload hv (fun _ _ => .responsesText hlist hv htype) st hst
    · exact opRight_onField hpayload hv (fun output houtput =>
        opRight_onItems houtput fun j part hpart => compressPart_right hpayload detect hpart
          fun hpartType => .responsesPart hlist hv htype hpart hpartType) st hst
  · split
    · rename_i hrole
      exact opRight_compressField hpayload hv (fun _ _ => .toolText hlist hv hrole.1) st hst
    · split
      · exact opRight_skip (fun _ => rfl) st hst
      · split
        · rename_i hrole
          exact opRight_onField hpayload hv (fun content hcontent =>
            opRight_onItems hcontent fun j part hpart => compressPart_right hpayload detect hpart
              fun hpartType => .toolPart hlist hv hrole hpart hpartType) st hst
        · exact opRight_onField hpayload hv (fun content hcontent =>
            opRight_onItems hcontent fun j block hblock =>
              compressBlock_right hpayload detect hlist hblock) st hst

theorem kiroMessage_right {message : List Step}
    (hmessage : message = [.key "currentMessage"] ∨ ∃ i, message = [.key "history", .index i])
    {v : Json} (hv : valueAt payload ([.key "conversationState"] ++ message) = some v) :
    OpRight payload ([.key "conversationState"] ++ message) v (kiroMessage detect) := by
  refine opRight_onField hpayload hv fun input hinput => ?_
  refine opRight_onField hpayload hinput fun context hcontext => ?_
  refine opRight_onField hpayload hcontext fun results hresults => ?_
  refine opRight_onItems hresults fun j result hresult => ?_
  by_cases hstatus : result.hasText "status" "error" = true
  · refine opRight_skip fun st => if_pos ?_
    rw [hasText_ofJson]
    exact hstatus
  · intro st hst
    rw [kiroResult, hasText_ofJson, if_neg hstatus]
    refine opRight_onField hpayload hresult (fun content hcontent =>
      opRight_onItems hcontent fun k part hpart =>
        opRight_compressField hpayload hpart fun _ _ => ?_) st hst
    have hplace : ToolText payload ([.key "conversationState"] ++ message ++
        [.key "userInputMessage", .key "userInputMessageContext", .key "toolResults", .index j,
          .key "content", .index k, .key "text"]) :=
      .kiroPart hmessage (by simpa using hresult) (by simpa using hstatus)
    simpa using hplace

end Loops

/-! ## No new `__proto__` -/

theorem mem_of_lookup {fields : List (String × JsVal)} {key : String} {v : JsVal}
    (h : fields.lookup key = some v) : (key, v) ∈ fields := by
  induction fields with
  | nil => cases h
  | cons f fs ih =>
    rw [List.lookup_cons] at h
    cases hkey : key == f.1 with
    | true =>
      rw [hkey] at h
      cases h
      rw [eq_of_beq hkey]
      exact List.mem_cons_self
    | false =>
      rw [hkey] at h
      exact List.mem_cons_of_mem _ (ih h)

theorem keeps_onField {key : String} (hkey : key ≠ "__proto__") (h : Keeps op) :
    Keeps (onField key op) := by
  intro v st hv
  cases v with
  | object o fields proto =>
    rw [onField]
    have hclean := noProtoKey_object.1 hv
    cases hlookup : fields.lookup key with
    | none => exact noProtoKey_object.2 hclean
    | some w =>
      exact noProtoKey_object.2 (hclean.setField hkey (h w st (hclean _ (mem_of_lookup hlookup)).2))
  | _ => exact hv

theorem mapItems_clean (h : Keeps op) : ∀ {items : List JsVal} {st : RtkState},
    (∀ v ∈ items, NoProtoKey (toJson v)) → ∀ v ∈ (mapItems op items st).1, NoProtoKey (toJson v)
  | [], _, _ => fun v hv => by cases hv
  | w :: ws, st, hall => by
    obtain ⟨hw, hws⟩ := List.forall_mem_cons.1 hall
    exact List.forall_mem_cons.2 ⟨h w st hw, mapItems_clean h hws⟩

theorem keeps_onItems (h : Keeps op) : Keeps (onItems op) := by
  intro v st hv
  cases v with
  | array o items =>
    rw [toJson, toItems_eq] at hv
    rw [onItems, toJson, toItems_eq]
    cases hv with
    | array hitems =>
      refine .array fun w hw => ?_
      obtain ⟨u, hu, rfl⟩ := List.mem_map.1 hw
      exact mapItems_clean h (fun v hv => hitems _ (List.mem_map_of_mem hv)) u hu
  | _ => exact hv

section Keeps
variable (detect : String → Option TextFilter)

theorem keeps_compressField {key : String} (hkey : key ≠ "__proto__") :
    Keeps (compressField detect key shape) := by
  intro v st hv
  unfold compressField
  split
  · exact noProtoKey_object.2 ((noProtoKey_object.1 hv).setField hkey .string)
  · exact hv

theorem keeps_compressPart {type : String} : Keeps (compressPart detect type shape) := by
  intro v st hv
  unfold compressPart
  split
  · exact keeps_compressField detect (by decide) v st hv
  · exact hv

theorem keeps_compressBlock : Keeps (compressBlock detect) := by
  intro v st hv
  unfold compressBlock
  split
  · exact hv
  · split
    · exact keeps_compressField detect (by decide) v st hv
    · exact keeps_onField (by decide) (keeps_onItems (keeps_compressPart detect)) v st hv

theorem keeps_compressMessage : Keeps (compressMessage detect) := by
  intro v st hv
  unfold compressMessage
  split
  · split
    · exact keeps_compressField detect (by decide) v st hv
    · exact keeps_onField (by decide) (keeps_onItems (keeps_compressPart detect)) v st hv
  · split
    · exact keeps_compressField detect (by decide) v st hv
    · split
      · exact hv
      · split
        · exact keeps_onField (by decide) (keeps_onItems (keeps_compressPart detect)) v st hv
        · exact keeps_onField (by decide) (keeps_onItems (keeps_compressBlock detect)) v st hv

theorem keeps_kiroMessage : Keeps (kiroMessage detect) := by
  refine keeps_onField (by decide) (keeps_onField (by decide)
    (keeps_onField (by decide) (keeps_onItems fun v st hv => ?_)))
  unfold kiroResult
  split
  · exact hv
  · exact keeps_onField (by decide) (keeps_onItems (keeps_compressField detect (by decide))) v st hv

theorem keeps_compressKiroFormat : Keeps (compressKiroFormat detect) := by
  refine keeps_onField (by decide) fun v st hv => ?_
  exact keeps_onField (by decide) (keeps_kiroMessage detect) _ _
    (keeps_onField (by decide) (keeps_onItems (keeps_kiroMessage detect)) v st hv)

theorem compressMessages_clean {body : JsVal} (h : NoProtoKey (toJson body)) (enabled : Bool) :
    NoProtoKey (toJson (compressMessages detect body enabled).1) := by
  unfold compressMessages
  split
  · exact h
  · split
    · exact keeps_compressKiroFormat detect body {} h
    · split
      · exact keeps_onField (by decide) (keeps_onItems (keeps_compressMessage detect)) body {} h
      · split
        · exact keeps_onField (by decide) (keeps_onItems (keeps_compressMessage detect)) body {} h
        · exact h

end Keeps

theorem EditedAt.noProtoKey {path : List Step} {v w : Json} (h : EditedAt ok path v w)
    (hw : NoProtoKey w) : NoProtoKey v := by
  induction h with
  | same => exact hw
  | text => exact .string
  | @array _ items items' hlength _ ih =>
    cases hw with
    | array hitems =>
      refine .array fun v hv => ?_
      obtain ⟨i, hi, rfl⟩ := List.mem_iff_getElem.1 hv
      have hi' : i < items'.length := hlength ▸ hi
      exact ih i items[i] items'[i] (List.getElem?_eq_getElem hi) (List.getElem?_eq_getElem hi')
        (hitems _ (List.getElem_mem hi'))
  | @object _ fields fields' hkeys _ ih =>
    cases hw with
    | object hnames hvalues =>
      have hlength : fields.length = fields'.length := by simpa using congrArg List.length hkeys
      -- the property at the same place has the same name
      have hpair : ∀ i, (hi : i < fields.length) → ∃ v', fields'[i]? = some (fields[i].1, v') := by
        intro i hi
        have hi' : i < fields'.length := hlength ▸ hi
        have hname := congrArg (fun l : List String => l[i]?) hkeys
        simp only [List.getElem?_map, List.getElem?_eq_getElem hi, List.getElem?_eq_getElem hi',
          Option.map_some] at hname
        refine ⟨fields'[i].2, ?_⟩
        rw [List.getElem?_eq_getElem hi', Option.some.inj hname]
      refine .object (fun f hf => ?_) (fun f hf => ?_)
      · obtain ⟨i, hi, rfl⟩ := List.mem_iff_getElem.1 hf
        obtain ⟨v', hv'⟩ := hpair i hi
        exact hnames (fields[i].1, v') (List.mem_of_getElem? hv')
      · obtain ⟨i, hi, rfl⟩ := List.mem_iff_getElem.1 hf
        obtain ⟨v', hv'⟩ := hpair i hi
        exact ih i _ _ v' (List.getElem?_eq_getElem hi) hv' (hvalues _ (List.mem_of_getElem? hv'))

/-! ## The payload -/

theorem compressMessages_right {payload : Json} (hpayload : DistinctKeys payload)
    (detect : String → Option TextFilter) (enabled : Bool) :
    EditedAt (ToolText payload) [] payload
        (toJson (compressMessages detect (ofJson .clone payload) enabled).1) ∧
      Sound (compressMessages detect (ofJson .clone payload) enabled).2.1 := by
  have hstart : Sound {} := ⟨rfl, fun owner howner => by cases howner⟩
  have hroot : valueAt payload [] = some payload := rfl
  have hlist : ∀ list, list = "messages" ∨ list = "input" →
      OpRight payload [] payload (onField list (onItems (compressMessage detect))) := by
    intro list hlist
    exact opRight_onField hpayload hroot fun items hitems =>
      opRight_onItems hitems fun i item hitem => compressMessage_right hpayload detect hlist hitem
  have hkiro : OpRight payload [] payload (compressKiroFormat detect) := by
    refine opRight_onField hpayload hroot fun state hstate => ?_
    refine opRight_onFields hpayload (by decide) hstate (fun history hhistory => ?_)
      fun current hcurrent => kiroMessage_right hpayload detect (.inl rfl) hcurrent
    exact opRight_onItems hhistory fun i message hmessage =>
      kiroMessage_right hpayload detect (.inr ⟨i, rfl⟩) hmessage
  unfold compressMessages
  split
  · exact @opRight_skip payload [] payload (fun v st => (v, st)) (fun _ => rfl) {} hstart
  · split
    · exact hkiro {} hstart
    · split
      · exact hlist "messages" (.inl rfl) {} hstart
      · split
        · exact hlist "input" (.inr rfl) {} hstart
        · exact @opRight_skip payload [] payload (fun v st => (v, st)) (fun _ => rfl) {} hstart

/-- **Compression changes texts of tool results only.** The payload of the caller is not
written, the result differs from it in texts of tool results that are shorter and not
empty, and the counts agree, exactly where no object of the payload has a property
`__proto__`. -/
theorem compression_iff (detect : String → Option TextFilter) (percent : Nat → Nat → String)
    (payload : Payload) (enabled : Bool) :
    CompressionRight payload.value
        (compressPayloadWithRtk detect percent (ofJson .caller payload.value) enabled) ↔
      NoProtoKey payload.value := by
  constructor
  · intro h
    exact h.edited.noProtoKey
      (compressMessages_clean detect (clonePayload_clean .caller payload.value) enabled)
  · intro h
    have hclone := clonePayload_eq h payload.distinct .caller
    obtain ⟨hedited, hsound⟩ := compressMessages_right payload.distinct detect enabled
    simp only [compressPayloadWithRtk, hclone]
    generalize compressMessages detect (ofJson .clone payload.value) enabled = r at hedited hsound ⊢
    obtain ⟨body, st, counted⟩ := r
    refine ⟨hsound.owners, hedited, fun stats hstats => ?_⟩
    have hbalanced : st.stats.bytesBefore =
        st.stats.bytesAfter + (st.stats.hits.map (·.saved)).sum := hsound.balanced
    cases counted with
    | true =>
      have heq : st.stats = stats := Option.some.inj hstats
      rw [← heq]
      omega
    | false => cases hstats

/-- A tool schema with a property named `__proto__` loses it. -/
theorem proto_key_lost :
    ¬ ∀ (detect : String → Option TextFilter) (percent : Nat → Nat → String) (payload : Payload)
      (enabled : Bool), CompressionRight payload.value
        (compressPayloadWithRtk detect percent (ofJson .caller payload.value) enabled) := by
  intro h
  let payload : Payload :=
    { value := .object [("messages", .array []), ("__proto__", .object [])]
      distinct := .object (by decide) (by
        intro f hf
        rcases List.mem_pair.1 hf with rfl | rfl
        · exact .array (by simp)
        · exact .object List.nodup_nil (by simp)) }
  have hedited := (h (fun _ => none) (fun _ _ => "") payload true).edited
  obtain ⟨hkeys, -⟩ := hedited.fields
  exact absurd hkeys (by decide)

end PieLab.Rtk
