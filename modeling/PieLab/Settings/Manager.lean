import Mathlib.Data.Rat.Floor
import PieLab.Json
import PieLab.Lib.OrderedMap
import PieLab.Messages

/-
  The settings manager

  A manager holds the settings of two files. A setter changes the copy in memory,
  marks the field, and queues a write of the fields that are marked; a write reads
  the file, puts the marked fields over it, and clears the marks. `reload` waits for
  the writes that are queued and reads both files.

  Correspondence (TypeScript ↔ Lean): the names of
  packages/coding-agent/src/core/settings-manager.ts; `markModified` and
  `markProjectModified` are `Marks.mark`, the setters are `SetterCall.assignments`
  and `ProjectSetterCall.assignment`, and `load` is what `reload` does once the
  queue it waits for is done. Each task of the queue is one step: what a promise
  runs is not interrupted, and the file is locked.

  A settings file holds an object; one that is missing holds none of the fields. A
  property that is `undefined` is not there. Numbers are finite. The errors that are
  recorded, and the merged settings that the getters read, are left out.
-/

namespace PieLab.Settings

open Lib

/-! ## Objects -/

/-- The properties of an object. -/
abbrev Fields := List (String × Json)

/-- `fields[key] = value`; `undefined` is no value. -/
def Fields.put (fields : Fields) (key : String) : Option Json → Fields
  | some value => OrderedMap.setEntries key value fields
  | none => fields.filter fun entry => decide (entry.1 ≠ key)

/-- `{ ...items }` -/
def indexed (items : List Json) : Fields := items.zipIdx.map fun (item, i) => (toString i, item)

/-- The code units of a text, each as a text; a lone surrogate is U+FFFD. -/
def unitTexts (s : String) : List String :=
  s.toList.flatMap fun c => if utf16Size c = 1 then [String.singleton c] else ["\uFFFD", "\uFFFD"]

/-- `{ ...(value ?? {}) }` -/
def spread : Option Json → Fields
  | some (.object fields) => fields
  | some (.array items) => indexed items
  | some (.string s) => indexed ((unitTexts s).map .string)
  | _ => []

/-! ## Migration -/

/-- queueMode -> steeringMode -/
def migrateQueueMode (settings : Fields) : Fields :=
  match settings.lookup "queueMode", settings.lookup "steeringMode" with
  | some mode, none => (settings.put "steeringMode" (some mode)).put "queueMode" none
  | _, _ => settings

/-- websockets boolean -> transport enum -/
def migrateTransport (settings : Fields) : Fields :=
  match settings.lookup "transport", settings.lookup "websockets" with
  | none, some (.bool websockets) =>
    (settings.put "transport" (some (.string (if websockets then "websocket" else "sse")))).put
      "websockets" none
  | _, _ => settings

/-- skills object -> array -/
def migrateSkills (settings : Fields) : Fields :=
  match settings.lookup "skills" with
  | some (.object skillsSettings) =>
    let settings :=
      match skillsSettings.lookup "enableSkillCommands", settings.lookup "enableSkillCommands" with
      | some value, none => settings.put "enableSkillCommands" (some value)
      | _, _ => settings
    match skillsSettings.lookup "customDirectories" with
    | some (.array (directory :: directories)) =>
      settings.put "skills" (some (.array (directory :: directories)))
    | _ => settings.put "skills" none
  | _ => settings

/-- A value of type `"object"`, `null` apart. -/
def asObject : Json → Option Json
  | .object fields => some (.object fields)
  | .array items => some (.array items)
  | _ => none

/-- retry.maxDelayMs -> retry.provider.maxRetryDelayMs -/
def migrateRetry (settings : Fields) : Fields :=
  match settings.lookup "retry" with
  | some (.object retrySettings) =>
    let providerSettings := (retrySettings.lookup "provider").bind asObject
    let given := Json.orElse (providerSettings.bind (·.get? "maxRetryDelayMs")) none
    let retrySettings :=
      match retrySettings.lookup "maxDelayMs", given with
      | some (.number maxDelayMs), none =>
        Fields.put retrySettings "provider"
          (some (.object ((spread providerSettings).put "maxRetryDelayMs" (some (.number maxDelayMs)))))
      | _, _ => retrySettings
    settings.put "retry" (some (.object (Fields.put retrySettings "maxDelayMs" none)))
  | _ => settings

def migrateSettings (settings : Fields) : Fields :=
  migrateRetry (migrateSkills (migrateTransport (migrateQueueMode settings)))

/-! ## Setters -/

/-- What a setter does to a field. -/
inductive Assignment where
  | field (name : String) (value : Option Json)
  /-- `settings.name` is made an object if there is none, and its property is assigned. -/
  | nested (name key : String) (value : Json)
  /-- `settings.name` becomes a new object with the property. -/
  | copied (name key : String) (value : Fields → Json)

def Assignment.name : Assignment → String
  | .field name _ => name
  | .nested name _ _ => name
  | .copied name _ _ => name

def Assignment.nestedKey : Assignment → Option String
  | .field _ _ => none
  | .nested _ key _ => some key
  | .copied _ key _ => some key

/-- The object that is assigned to; a property of a truthy primitive cannot be assigned. -/
def members : Option Json → Option Fields
  | some (.object fields) => some fields
  | some (.array items) => some (indexed items)
  | some value => if value.truthy then none else some []
  | none => some []

def Assignment.apply (settings : Fields) : Assignment → Option Fields
  | .field name value => some (settings.put name value)
  | .nested name key value => (members (settings.lookup name)).map fun current =>
      settings.put name (some (.object (current.put key (some value))))
  | .copied name key value =>
    let current := spread (settings.lookup name)
    some (settings.put name (some (.object (current.put key (some (value current))))))

/-- All of them; a setter that throws changes nothing. -/
def applyAll (settings : Fields) (assignments : List Assignment) : Option Fields :=
  assignments.foldlM Assignment.apply settings

def texts (values : List String) : Json := .array (values.map .string)

def number (value : ℚ) : Option Json := some (.number (some value))

inductive SetterCall where
  | setLastChangelogVersion (version : String)
  | setDefaultProvider (provider : String)
  | setDefaultModel (modelId : String)
  | setDefaultModelAndProvider (provider modelId : String)
  | setSteeringMode (mode : String)
  | setFollowUpMode (mode : String)
  | setTheme (theme : String)
  | setDefaultThinkingLevel (level : String)
  | setTransport (transport : String)
  | setCompactionEnabled (enabled : Bool)
  | setRetryEnabled (enabled : Bool)
  /-- A number that is not finite is none. -/
  | setHttpIdleTimeoutMs (timeoutMs : Option ℚ)
  | setHideThinkingBlock (hide : Bool)
  | setShellPath (path : Option String)
  | setQuietStartup (quiet : Bool)
  | setDefaultProjectTrust (defaultProjectTrust : String)
  | setShellCommandPrefix (shellCommandPrefix : Option String)
  | setNpmCommand (command : Option (List String))
  | setCollapseChangelog (collapse : Bool)
  | setLearningReviewMode (mode : String)
  /-- The settings that are not `undefined`. -/
  | setLearningCuratorSettings (settings : Fields)
  | setEnableInstallTelemetry (enabled : Bool)
  | setEnableAnalytics (enabled : Bool) (uuid : String)
  | setPackages (packages : List Json)
  | setExtensionPaths (paths : List String)
  | setSkillPaths (paths : List String)
  | setPromptTemplatePaths (paths : List String)
  | setThemePaths (paths : List String)
  | setEnableSkillCommands (enabled : Bool)
  | setShowImages (doShow : Bool)
  | setImageWidthCells (width : ℚ)
  | setClearOnShrink (enabled : Bool)
  | setShowTerminalProgress (enabled : Bool)
  | setImageAutoResize (enabled : Bool)
  | setBlockImages (blocked : Bool)
  | setEnabledModels (patterns : Option (List String))
  | setDoubleEscapeAction (action : String)
  | setTreeFilterMode (mode : String)
  | setShowHardwareCursor (enabled : Bool)
  | setEditorPaddingX (padding : ℚ)
  | setOutputPad (padding : ℚ)
  | setAutocompleteMaxVisible (maxVisible : ℚ)
  | setWarnings (warnings : Fields)

/-- The assignments of the setter; one that checks its argument may throw. -/
def SetterCall.assignments (settings : Fields) : SetterCall → Option (List Assignment)
  | .setLastChangelogVersion version => some [.field "lastChangelogVersion" (some (.string version))]
  | .setDefaultProvider provider => some [.field "defaultProvider" (some (.string provider))]
  | .setDefaultModel modelId => some [.field "defaultModel" (some (.string modelId))]
  | .setDefaultModelAndProvider provider modelId =>
    some [.field "defaultProvider" (some (.string provider)), .field "defaultModel" (some (.string modelId))]
  | .setSteeringMode mode => some [.field "steeringMode" (some (.string mode))]
  | .setFollowUpMode mode => some [.field "followUpMode" (some (.string mode))]
  | .setTheme theme => some [.field "theme" (some (.string theme))]
  | .setDefaultThinkingLevel level => some [.field "defaultThinkingLevel" (some (.string level))]
  | .setTransport transport => some [.field "transport" (some (.string transport))]
  | .setCompactionEnabled enabled => some [.nested "compaction" "enabled" (.bool enabled)]
  | .setRetryEnabled enabled => some [.nested "retry" "enabled" (.bool enabled)]
  | .setHttpIdleTimeoutMs timeoutMs =>
    match timeoutMs with
    | some ms => if ms < 0 then none else some [.field "httpIdleTimeoutMs" (number (⌊ms⌋ : ℤ))]
    | none => none
  | .setHideThinkingBlock hide => some [.field "hideThinkingBlock" (some (.bool hide))]
  | .setShellPath path => some [.field "shellPath" (path.map .string)]
  | .setQuietStartup quiet => some [.field "quietStartup" (some (.bool quiet))]
  | .setDefaultProjectTrust defaultProjectTrust =>
    some [.field "defaultProjectTrust" (some (.string defaultProjectTrust))]
  | .setShellCommandPrefix shellCommandPrefix =>
    some [.field "shellCommandPrefix" (shellCommandPrefix.map .string)]
  | .setNpmCommand command => some [.field "npmCommand" (command.map texts)]
  | .setCollapseChangelog collapse => some [.field "collapseChangelog" (some (.bool collapse))]
  | .setLearningReviewMode mode =>
    some [.copied "learning" "review" fun currentLearning =>
      .object (Fields.put (spread (currentLearning.lookup "review")) "mode" (some (.string mode)))]
  | .setLearningCuratorSettings settings =>
    some [.copied "learning" "skills" fun currentLearning =>
      let currentSkills := spread (currentLearning.lookup "skills")
      let nextCurator :=
        settings.foldl (fun curator (key, value) => Fields.put curator key (some value))
        (spread (currentSkills.lookup "curator"))
      .object (Fields.put currentSkills "curator" (some (.object nextCurator)))]
  | .setEnableInstallTelemetry enabled => some [.field "enableInstallTelemetry" (some (.bool enabled))]
  | .setEnableAnalytics enabled uuid =>
    if enabled && !(settings.lookup "trackingId").any Json.truthy then
      some [.field "enableAnalytics" (some (.bool enabled)), .field "trackingId" (some (.string uuid))]
    else some [.field "enableAnalytics" (some (.bool enabled))]
  | .setPackages packages => some [.field "packages" (some (.array packages))]
  | .setExtensionPaths paths => some [.field "extensions" (some (texts paths))]
  | .setSkillPaths paths => some [.field "skills" (some (texts paths))]
  | .setPromptTemplatePaths paths => some [.field "prompts" (some (texts paths))]
  | .setThemePaths paths => some [.field "themes" (some (texts paths))]
  | .setEnableSkillCommands enabled => some [.field "enableSkillCommands" (some (.bool enabled))]
  | .setShowImages doShow => some [.nested "terminal" "showImages" (.bool doShow)]
  | .setImageWidthCells width =>
    some [.nested "terminal" "imageWidthCells" (.number (some (max 1 ⌊width⌋ : ℤ)))]
  | .setClearOnShrink enabled => some [.nested "terminal" "clearOnShrink" (.bool enabled)]
  | .setShowTerminalProgress enabled => some [.nested "terminal" "showTerminalProgress" (.bool enabled)]
  | .setImageAutoResize enabled => some [.nested "images" "autoResize" (.bool enabled)]
  | .setBlockImages blocked => some [.nested "images" "blockImages" (.bool blocked)]
  | .setEnabledModels patterns => some [.field "enabledModels" (patterns.map texts)]
  | .setDoubleEscapeAction action => some [.field "doubleEscapeAction" (some (.string action))]
  | .setTreeFilterMode mode => some [.field "treeFilterMode" (some (.string mode))]
  | .setShowHardwareCursor enabled => some [.field "showHardwareCursor" (some (.bool enabled))]
  | .setEditorPaddingX padding => some [.field "editorPaddingX" (number (max 0 (min 3 ⌊padding⌋) : ℤ))]
  | .setOutputPad padding => some [.field "outputPad" (number padding)]
  | .setAutocompleteMaxVisible maxVisible =>
    some [.field "autocompleteMaxVisible" (number (max 3 (min 20 ⌊maxVisible⌋) : ℤ))]
  | .setWarnings warnings => some [.field "warnings" (some (.object warnings))]

inductive ProjectSetterCall where
  | setProjectPackages (packages : List Json)
  | setProjectExtensionPaths (paths : List String)
  | setProjectSkillPaths (paths : List String)
  | setProjectPromptTemplatePaths (paths : List String)
  | setProjectThemePaths (paths : List String)

def ProjectSetterCall.assignment : ProjectSetterCall → String × Json
  | .setProjectPackages packages => ("packages", .array packages)
  | .setProjectExtensionPaths paths => ("extensions", texts paths)
  | .setProjectSkillPaths paths => ("skills", texts paths)
  | .setProjectPromptTemplatePaths paths => ("prompts", texts paths)
  | .setProjectThemePaths paths => ("themes", texts paths)

/-! ## Marks -/

/-- `modifiedFields` and `modifiedNestedFields` -/
structure Marks where
  fields : List String
  nested : List (String × List String)

def Marks.empty : Marks := { fields := [], nested := [] }

/-- `set.add(value)` -/
def add (set : List String) (value : String) :
    List String := if value ∈ set then set else set ++ [value]

def Marks.mark (marks : Marks) (field : String) (nestedKey : Option String) : Marks where
  fields := add marks.fields field
  nested := match nestedKey with
    | some key => OrderedMap.setEntries field (add ((marks.nested.lookup field).getD []) key) marks.nested
    | none => marks.nested

/-! ## The manager -/

inductive SettingsScope where
  | global | project
  deriving DecidableEq

/-- A settings file, its copy, and what is modified in the copy. -/
structure ScopedSettings where
  file : Fields
  settings : Fields
  modified : Marks

inductive QueuedTask where
  | write (scope : SettingsScope) (snapshotSettings : Fields) (modified : Marks)
  /-- A `reload` goes on. -/
  | load

structure SettingsManager where
  global : ScopedSettings
  project : ScopedSettings
  projectTrusted : Bool
  writeQueue : List QueuedTask

inductive SettingsEvent where
  | set (call : SetterCall)
  | setProject (call : ProjectSetterCall)
  | setProjectTrusted (trusted : Bool)
  | reload
  /-- The next task of the queue. -/
  | task
  /-- Another process writes the file. -/
  | outside (scope : SettingsScope) (file : Fields)

/-- The object of a nested field, with its modified properties. -/
def mergeNested (baseNested : Fields) (inMemoryNested : Json) (nestedModified : List String) :
    Fields :=
  nestedModified.foldl (fun nested nestedKey => Fields.put nested nestedKey (inMemoryNested.get? nestedKey))
    baseNested

def mergeField (currentFileSettings snapshotSettings : Fields) (modified : Marks)
    (mergedSettings : Fields)
    (field : String) : Fields :=
  match modified.nested.lookup field, (snapshotSettings.lookup field).bind asObject with
  | some nestedModified, some value =>
    mergedSettings.put field (some (.object
      (mergeNested (spread (currentFileSettings.lookup field)) value nestedModified)))
  | _, _ => mergedSettings.put field (snapshotSettings.lookup field)

/-- What is written over `current`. -/
def persistScopedSettings (current snapshotSettings : Fields) (modified : Marks) : Fields :=
  let currentFileSettings := migrateSettings current
  modified.fields.foldl (mergeField currentFileSettings snapshotSettings modified) currentFileSettings

namespace SettingsManager

def create (globalFile projectFile : Fields) (projectTrusted : Bool) : SettingsManager where
  global := { file := globalFile, settings := migrateSettings globalFile, modified := .empty }
  project :=
    { file := projectFile
      settings := if projectTrusted then migrateSettings projectFile else []
      modified := .empty }
  projectTrusted := projectTrusted
  writeQueue := []

/-- The marks of all assignments. -/
def markAll (modified : Marks) (assignments : List Assignment) : Marks :=
  assignments.foldl (fun modified a => modified.mark a.name a.nestedKey) modified

def set (s : SettingsManager) (call : SetterCall) : SettingsManager :=
  match call.assignments s.global.settings with
  | some assignments =>
    match applyAll s.global.settings assignments with
    | some settings =>
      let modified := markAll s.global.modified assignments
      { s with
        global := { s.global with settings, modified }
        writeQueue := s.writeQueue ++ [.write .global settings modified] }
    | none => s
  | none => s

/-- `updateProjectSettings` -/
def setProject (s : SettingsManager) (call : ProjectSetterCall) : SettingsManager :=
  if s.projectTrusted then
    let settings := s.project.settings.put call.assignment.1 (some call.assignment.2)
    let modified := s.project.modified.mark call.assignment.1 none
    { s with
      project := { s.project with settings, modified }
      writeQueue := s.writeQueue ++ [.write .project settings modified] }
  else s

def setProjectTrusted (s : SettingsManager) (trusted : Bool) : SettingsManager :=
  if s.projectTrusted = trusted then s
  else
    { s with
      projectTrusted := trusted
      project :=
        { s.project with
          settings := if trusted then migrateSettings s.project.file else []
          modified := .empty } }

def load (s : SettingsManager) : SettingsManager :=
  { s with
    global := { s.global with settings := migrateSettings s.global.file, modified := .empty }
    project :=
      { s.project with
        settings := if s.projectTrusted then migrateSettings s.project.file else []
        modified := .empty } }

/-- A write that was queued; one of a project that is not trusted throws. -/
def runWrite (s : SettingsManager) (scope : SettingsScope) (snapshotSettings : Fields)
    (modified : Marks) :
    SettingsManager :=
  match scope with
  | .global =>
    { s with
      global :=
        { s.global with
          file := persistScopedSettings s.global.file snapshotSettings modified
          modified := .empty } }
  | .project =>
    if s.projectTrusted then
      { s with
        project :=
          { s.project with
            file := persistScopedSettings s.project.file snapshotSettings modified
            modified := .empty } }
    else s

def step (s : SettingsManager) : SettingsEvent → SettingsManager
  | .set call => s.set call
  | .setProject call => s.setProject call
  | .setProjectTrusted trusted => s.setProjectTrusted trusted
  | .reload => { s with writeQueue := s.writeQueue ++ [.load] }
  | .task =>
    match s.writeQueue with
    | [] => s
    | .load :: tasks => load { s with writeQueue := tasks }
    | .write scope snapshotSettings modified :: tasks =>
      runWrite { s with writeQueue := tasks } scope snapshotSettings modified
  | .outside .global file => { s with global := { s.global with file } }
  | .outside .project file => { s with project := { s.project with file } }

end SettingsManager

end PieLab.Settings
