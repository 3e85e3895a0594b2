import PieLab.Settings.Manager

/-
  What a write leaves in a settings file

  A setting is a field, or one property of a field whose properties are set one by
  one. A write puts the settings that are marked over those of the file, and leaves
  nothing that a later reading would migrate.

  What is proved:
    1. `migrated` — a migrated file is not migrated again.
    2. `viewed_persisted` — after a write the file is read as the snapshot where
       its settings are marked, and as before elsewhere.
-/

namespace PieLab.Settings

open Lib

/-! ## Fields -/

@[simp] theorem lookup_put (fields : Fields) (key key' : String) (value : Option Json) :
    (fields.put key value).lookup key' = if key = key' then value else fields.lookup key' := by
  cases value with
  | none => exact OrderedMap.lookup_filter_ne fields key key'
  | some value => exact OrderedMap.lookup_setEntries fields key key' value

theorem lookup_foldl_put (keys : List String) (f : String → Option Json) (fields : Fields)
    (key : String) :
    (keys.foldl (fun fields key => Fields.put fields key (f key)) fields).lookup key =
      if key ∈ keys then f key else fields.lookup key := by
  induction keys generalizing fields with
  | nil => simp
  | cons first keys ih =>
    rw [List.foldl_cons, ih, lookup_put]
    by_cases hkey : key ∈ keys
    · simp [hkey]
    · by_cases hfirst : first = key
      · simp [hfirst]
      · have hne : key ≠ first := Ne.symm hfirst
        simp [hkey, hfirst, hne]

theorem lookup_indexed (items : List Json) : (indexed items).lookup "maxDelayMs" = none := by
  rw [List.lookup_eq_none_iff]
  intro entry hentry
  obtain ⟨⟨item, i⟩, -, rfl⟩ := List.mem_map.1 hentry
  have hne : "maxDelayMs" ≠ toString i := by
    intro heq
    have hchars : Nat.toDigits 10 i = "maxDelayMs".toList := by
      rw [heq]
      exact (Nat.toList_repr).symm
    have hdigit :=
      @Nat.isDigit_of_mem_toDigits 10 i 'm' (by omega) (by omega) (by rw [hchars]; decide)
    exact absurd hdigit (by decide)
  simpa using hne

/-! ## Settings -/

/-- The fields whose properties are set one by one. -/
def nestedFields : List String := ["compaction", "retry", "learning", "terminal", "images"]

inductive Setting where
  | field (name : String) (h : name ∉ nestedFields)
  | nested (name : String) (h : name ∈ nestedFields) (key : String)

def Setting.name : Setting → String
  | .field name _ => name
  | .nested name _ _ => name

def Setting.key : Setting → Option String
  | .field _ _ => none
  | .nested _ _ key => some key

def Fields.valueAt (fields : Fields) : Setting → Option Json
  | .field name _ => fields.lookup name
  | .nested name _ key => (spread (fields.lookup name)).lookup key

/-- The setting, as the manager reads it. -/
def viewed (file : Fields) : Setting → Option Json := (migrateSettings file).valueAt

theorem valueAt_congr {fields fields' : Fields}
    (h : ∀ name, fields.lookup name = fields'.lookup name)
    (p : Setting) : fields.valueAt p = fields'.valueAt p := by
  cases p with
  | field name hname => exact h name
  | nested name hname key =>
    show (spread (fields.lookup name)).lookup key = (spread (fields'.lookup name)).lookup key
    rw [h name]

/-! ## Migration -/

/-- There is nothing to migrate. -/
structure Migrated (settings : Fields) : Prop where
  queueMode : settings.lookup "queueMode" = none ∨ settings.lookup "steeringMode" ≠ none
  transport : settings.lookup "transport" ≠ none ∨ ∀ b, settings.lookup "websockets" ≠ some (.bool b)
  skills : ∀ fields, settings.lookup "skills" ≠ some (.object fields)
  retry : ∀ fields, settings.lookup "retry" = some (.object fields) → fields.lookup "maxDelayMs" = none

section Steps
variable (settings : Fields) {name : String}

theorem migrateTransport_frame (h : name ≠ "transport") (h' : name ≠ "websockets") :
    (migrateTransport settings).lookup name = settings.lookup name := by
  unfold migrateTransport
  split
  · simp [Ne.symm h, Ne.symm h']
  · rfl

theorem migrateSkills_frame (h : name ≠ "skills") (h' : name ≠ "enableSkillCommands") :
    (migrateSkills settings).lookup name = settings.lookup name := by
  have hcommands : ∀ value : Json,
      (settings.put "enableSkillCommands" (some value)).lookup name = settings.lookup name := by
    intro value
    simp [Ne.symm h']
  unfold migrateSkills
  split
  · simp only
    split
    · rw [lookup_put, if_neg (Ne.symm h)]
      split
      · exact hcommands _
      · rfl
    · rw [lookup_put, if_neg (Ne.symm h)]
      split
      · exact hcommands _
      · rfl
  · rfl

theorem migrateRetry_frame (h : name ≠ "retry") :
    (migrateRetry settings).lookup name = settings.lookup name := by
  unfold migrateRetry
  split
  · simp [Ne.symm h]
  · rfl

theorem migrateQueueMode_spec : (migrateQueueMode settings).lookup "queueMode" = none ∨
    (migrateQueueMode settings).lookup "steeringMode" ≠ none := by
  unfold migrateQueueMode
  split
  · left
    simp
  · next hnot =>
    cases hmode : settings.lookup "queueMode" with
    | none => exact .inl rfl
    | some mode =>
      right
      intro hsteering
      exact hnot mode hmode hsteering

theorem migrateTransport_spec : (migrateTransport settings).lookup "transport" ≠ none ∨
    ∀ b, (migrateTransport settings).lookup "websockets" ≠ some (.bool b) := by
  unfold migrateTransport
  split
  · left
    simp
  · next hnot =>
    cases htransport : settings.lookup "transport" with
    | some transport => exact .inl nofun
    | none => exact .inr fun b hb => hnot b htransport hb

theorem migrateSkills_spec (fields : Fields) :
    (migrateSkills settings).lookup "skills" ≠ some (.object fields) := by
  unfold migrateSkills
  split
  · simp only
    split
    · simp
    · simp
  · next hnot => exact hnot fields

theorem migrateRetry_spec {fields : Fields}
    (h : (migrateRetry settings).lookup "retry" = some (.object fields)) :
    fields.lookup "maxDelayMs" = none := by
  unfold migrateRetry at h
  split at h
  · rw [lookup_put, if_pos rfl] at h
    cases h
    simp
  · next hnot => exact absurd h (hnot fields)

end Steps

theorem migrated (settings : Fields) : Migrated (migrateSettings settings) where
  queueMode := by
    have hframe : ∀ name, name ≠ "retry" → name ≠ "skills" → name ≠ "enableSkillCommands" →
        name ≠ "transport" → name ≠ "websockets" →
        (migrateSettings settings).lookup name = (migrateQueueMode settings).lookup name := by
      intro name h1 h2 h3 h4 h5
      unfold migrateSettings
      rw [migrateRetry_frame _ h1, migrateSkills_frame _ h2 h3, migrateTransport_frame _ h4 h5]
    rw [hframe _ (by decide) (by decide) (by decide) (by decide) (by decide),
      hframe _ (by decide) (by decide) (by decide) (by decide) (by decide)]
    exact migrateQueueMode_spec settings
  transport := by
    unfold migrateSettings
    rw [migrateRetry_frame _ (by decide), migrateSkills_frame _ (by decide) (by decide),
      migrateRetry_frame _ (by decide), migrateSkills_frame _ (by decide) (by decide)]
    exact migrateTransport_spec _
  skills := by
    unfold migrateSettings
    rw [migrateRetry_frame _ (by decide)]
    exact migrateSkills_spec _
  retry fields h := migrateRetry_spec _ h

theorem Migrated.lookup {settings : Fields} (h : Migrated settings) (name : String) :
    (migrateSettings settings).lookup name = settings.lookup name := by
  have hqueue : migrateQueueMode settings = settings := by
    unfold migrateQueueMode
    split
    · next mode hmode hsteering =>
      obtain hnone | hsome := h.queueMode
      · rw [hnone] at hmode
        exact absurd hmode nofun
      · exact absurd hsteering hsome
    · rfl
  have htransport : migrateTransport settings = settings := by
    unfold migrateTransport
    split
    · next b hnone hbool =>
      obtain hsome | hnot := h.transport
      · exact absurd hnone hsome
      · exact absurd hbool (hnot b)
    · rfl
  have hskills : migrateSkills settings = settings := by
    unfold migrateSkills
    split
    · next fields hfields => exact absurd hfields (h.skills fields)
    · rfl
  unfold migrateSettings
  rw [hqueue, htransport, hskills]
  by_cases hname : name = "retry"
  · subst hname
    unfold migrateRetry
    split
    · next fields hfields =>
      have hnone := h.retry fields hfields
      rw [hnone, lookup_put, if_pos rfl, hfields]
      have hall : Fields.put fields "maxDelayMs" none = fields := by
        apply List.filter_eq_self.2
        intro entry hentry
        have hne : ("maxDelayMs" == entry.1) = false := by
          simpa using List.lookup_eq_none_iff.1 hnone entry hentry
        have hne : entry.1 ≠ "maxDelayMs" := fun heq => by simp [heq] at hne
        exact decide_eq_true hne
      simp only
      rw [hall]
    · rfl
  · exact migrateRetry_frame settings hname

/-! ## A write -/

def Marks.has (modified : Marks) : Setting → Bool
  | .field name _ => name ∈ modified.fields
  | .nested name _ key => key ∈ (modified.nested.lookup name).getD []

/-- What setters leave marked, in the settings they leave. -/
structure Marks.Good (modified : Marks) (settings : Fields) : Prop where
  current : ∀ name ∈ modified.fields, name ≠ "queueMode" ∧ name ≠ "websockets"
  present : ∀ name ∈ modified.fields, name = "steeringMode" ∨ name = "transport" →
    settings.lookup name ≠ none
  skills : "skills" ∈ modified.fields → ∀ fields, settings.lookup "skills" ≠ some (.object fields)
  keys : ∀ name keys, modified.nested.lookup name = some keys →
    name ∈ nestedFields ∧ name ∈ modified.fields ∧ "maxDelayMs" ∉ keys
  objects : ∀ name ∈ modified.fields, name ∈ nestedFields →
    ∃ keys fields, modified.nested.lookup name = some keys ∧ settings.lookup name = some (.object fields)

/-- The value a write gives a field. -/
def mergedValue (currentFileSettings snapshotSettings : Fields) (modified : Marks)
    (field : String) :
    Option Json :=
  match modified.nested.lookup field, (snapshotSettings.lookup field).bind asObject with
  | some nestedModified, some value =>
    some (.object (mergeNested (spread (currentFileSettings.lookup field)) value nestedModified))
  | _, _ => snapshotSettings.lookup field

section Writes
variable {snapshot : Fields} {modified : Marks} (current : Fields)

theorem lookup_persisted (name : String) :
    (persistScopedSettings current snapshot modified).lookup name =
      if name ∈ modified.fields then mergedValue (migrateSettings current) snapshot modified name
      else (migrateSettings current).lookup name := by
  have hmerge : mergeField (migrateSettings current) snapshot modified =
      fun merged field => Fields.put merged field (mergedValue (migrateSettings current) snapshot modified field) := by
    funext merged field
    cases hkeys : modified.nested.lookup field with
    | none => simp [mergeField, mergedValue, hkeys]
    | some keys =>
      cases hvalue : (snapshot.lookup field).bind asObject with
      | none => simp [mergeField, mergedValue, hkeys, hvalue]
      | some value => simp [mergeField, mergedValue, hkeys, hvalue]
  show (modified.fields.foldl (mergeField _ snapshot modified) _).lookup name = _
  rw [hmerge]
  exact lookup_foldl_put modified.fields
    (mergedValue (migrateSettings current) snapshot modified) _ name

theorem Marks.Good.mergedValue_field (h : modified.Good snapshot) {name : String}
    (hname : name ∉ nestedFields) :
    mergedValue current snapshot modified name = snapshot.lookup name := by
  cases hkeys : modified.nested.lookup name with
  | none => simp [mergedValue, hkeys]
  | some keys => exact absurd (h.keys name keys hkeys).1 hname

theorem Marks.Good.mergedValue_nested (h : modified.Good snapshot) {name : String}
    (hname : name ∈ nestedFields)
    (hmem : name ∈ modified.fields) :
    ∃ keys fields merged, modified.nested.lookup name = some keys ∧
      snapshot.lookup name = some (.object fields) ∧
      mergedValue current snapshot modified name = some (.object merged) ∧
      ∀ key, merged.lookup key =
        if key ∈ keys then fields.lookup key else (spread (current.lookup name)).lookup key := by
  obtain ⟨keys, fields, hkeys, hfields⟩ := h.objects name hmem hname
  refine ⟨keys, fields, mergeNested (spread (current.lookup name)) (.object fields) keys, hkeys,
    hfields, ?_, ?_⟩
  · simp [mergedValue, hkeys, hfields, asObject]
  · intro key
    exact lookup_foldl_put keys (fun key => fields.lookup key) _ key

theorem Marks.Good.valueAt_persisted (h : modified.Good snapshot) (p : Setting) :
    (persistScopedSettings current snapshot modified).valueAt p =
      if modified.has p then snapshot.valueAt p else viewed current p := by
  cases p with
  | field name hname =>
    show (persistScopedSettings current snapshot modified).lookup name = _
    rw [lookup_persisted, h.mergedValue_field _ hname]
    simp [Marks.has, Fields.valueAt, viewed]
  | nested name hname key =>
    show (spread ((persistScopedSettings current snapshot modified).lookup name)).lookup key = _
    rw [lookup_persisted]
    by_cases hmem : name ∈ modified.fields
    · obtain ⟨keys, fields, merged, hkeys, hfields, hvalue, hmerged⟩ :=
        h.mergedValue_nested (migrateSettings current) hname hmem
      rw [if_pos hmem, hvalue]
      show merged.lookup key = _
      rw [hmerged key]
      simp [Marks.has, hkeys, Fields.valueAt, hfields, viewed, spread]
    · have hnone : modified.nested.lookup name = none := by
        cases hkeys : modified.nested.lookup name with
        | none => rfl
        | some keys => exact absurd (h.keys name keys hkeys).2.1 hmem
      rw [if_neg hmem]
      simp [Marks.has, hnone, viewed, Fields.valueAt]

theorem Marks.Good.persisted_migrated (h : modified.Good snapshot) :
    Migrated (persistScopedSettings current snapshot modified) := by
  have hmigrated := migrated current
  have hkept : ∀ name, name ∉ nestedFields → name = "steeringMode" ∨ name = "transport" →
      (migrateSettings current).lookup name ≠ none →
      (persistScopedSettings current snapshot modified).lookup name ≠ none := by
    intro name hnested hname hsome
    rw [lookup_persisted]
    split
    · next hmem =>
      rw [h.mergedValue_field _ hnested]
      exact h.present name hmem hname
    · exact hsome
  refine ⟨?_, ?_, ?_, ?_⟩
  · have hlegacy : "queueMode" ∉ modified.fields := fun hmem => (h.current _ hmem).1 rfl
    obtain hnone | hsome := hmigrated.queueMode
    · left
      rw [lookup_persisted, if_neg hlegacy]
      exact hnone
    · exact .inr (hkept _ (by decide) (.inl rfl) hsome)
  · have hlegacy : "websockets" ∉ modified.fields := fun hmem => (h.current _ hmem).2 rfl
    obtain hsome | hnot := hmigrated.transport
    · exact .inl (hkept _ (by decide) (.inr rfl) hsome)
    · right
      rw [lookup_persisted, if_neg hlegacy]
      exact hnot
  · intro fields
    rw [lookup_persisted]
    split
    · next hmem =>
      rw [h.mergedValue_field _ (by decide)]
      exact h.skills hmem fields
    · exact hmigrated.skills fields
  · intro fields hfields
    rw [lookup_persisted] at hfields
    split at hfields
    · next hmem =>
      obtain ⟨keys, inMemory, merged, hkeys, -, hvalue, hmerged⟩ :=
        h.mergedValue_nested (migrateSettings current) (by decide) hmem
      rw [hvalue, Option.some.injEq, Json.object.injEq] at hfields
      rw [← hfields, hmerged, if_neg (h.keys _ keys hkeys).2.2]
      -- what is not modified comes from the file, which was migrated
      cases hretry : (migrateSettings current).lookup "retry" with
      | none => rfl
      | some retry =>
        cases retry with
        | object retrySettings => exact hmigrated.retry retrySettings hretry
        | array items => exact lookup_indexed items
        | string s => exact lookup_indexed _
        | null => rfl
        | bool b => rfl
        | number n => rfl
    · exact hmigrated.retry fields hfields

/-- A write puts what is marked over what was there. -/
theorem Marks.Good.viewed_persisted (h : modified.Good snapshot) (p : Setting) :
    viewed (persistScopedSettings current snapshot modified) p =
      if modified.has p then snapshot.valueAt p else viewed current p := by
  rw [← h.valueAt_persisted current p]
  exact valueAt_congr (h.persisted_migrated current).lookup p

end Writes

end PieLab.Settings
