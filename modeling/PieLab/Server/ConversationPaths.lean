import PieLab.Server.ChatApi

/-
  Conversation ids and the paths they reach

  A conversation id comes from the path of a DELETE, from a query or from a body,
  and is joined to a directory as it is. `path.join` reads its `..` segments, so
  the path can lead out of the directory.

  What is proved:
    1. `runs_handler` — the exact paths a request hands to the file system.
    2. `conversationPaths_inside_iff` — they all lie strictly inside the channels
       directory or the session directory exactly when the id comes back from
       where it climbs.
    3. `deleteConversation_leaves` — a DELETE that removes the whole chat
       directory of the agent.
-/

namespace PieLab

open Lib

/-! ## Places -/

/-- Where a path leads. -/
def Platform.place (p : Platform) (path : String) : List (List Char) :=
  Posix.locate p.cwd path.toList

/-- The climb of a path read at a directory. -/
def climbOf (path : String) : Posix.Climb := Posix.climb true (Posix.segments path.toList)

/-- `normalizePath` where it does not throw. -/
def Platform.expand (p : Platform) (path : String) : String :=
  match normalizePath p path with
  | .ok resolved => resolved
  | .error _ => path

/-- The session directory the way `continueRecent` reads a directory below it. -/
def ChatServer.expandedSessionDir (s : ChatServer) : String :=
  s.platform.expand (pathJoin [s.sessionDir])

/-- The access stays strictly inside the directory of its kind. The directory of
all channels is listed for no conversation id. -/
def Access.IsInside (s : ChatServer) (a : Access) : Prop :=
  match a.kind with
  | .delete | .readChannel => Posix.Inside (s.platform.place s.channelsDir) (s.platform.place a.path)
  | .listChannels => True
  | .listSession => Posix.Inside (s.platform.place s.sessionDir) (s.platform.place a.path)
  | .readSession | .openSession =>
    Posix.Inside (s.platform.place s.expandedSessionDir) (s.platform.place a.path)

theorem isInside_channel (s : ChatServer) (kind : AccessKind) (path : String)
    (h : kind = .delete ∨ kind = .readChannel) :
    Access.IsInside s { kind, path } ↔
      Posix.Inside (s.platform.place s.channelsDir) (s.platform.place path) := by
  rcases h with rfl | rfl <;> rfl

theorem isInside_listSession (s : ChatServer) (path : String) :
    Access.IsInside s { kind := .listSession, path } ↔
      Posix.Inside (s.platform.place s.sessionDir) (s.platform.place path) := Iff.rfl

theorem isInside_session (s : ChatServer) (kind : AccessKind) (path : String)
    (h : kind = .readSession ∨ kind = .openSession) :
    Access.IsInside s { kind, path } ↔
      Posix.Inside (s.platform.place s.expandedSessionDir) (s.platform.place path) := by
  rcases h with rfl | rfl <;> rfl

/-! ## Joined paths -/

theorem toList_pathJoin (parts : List String) :
    (pathJoin parts).toList = Posix.join (parts.map String.toList) := by
  unfold pathJoin
  rw [String.toList_ofList]

theorem pathJoin_ne (parts : List String) : pathJoin parts ≠ "" := by
  intro h
  have hnil := congrArg String.toList h
  rw [toList_pathJoin] at hnil
  exact Posix.normalize_ne_nil _ hnil

theorem place_pathJoin_concat (p : Platform) {parts : List String} {dir : String}
    (hdir : dir ∈ parts) (hne : dir ≠ "") (part : String) :
    p.place (pathJoin (parts ++ [part])) =
      Posix.walk (p.place (pathJoin parts)) (Posix.segments part.toList) := by
  unfold Platform.place
  rw [toList_pathJoin, toList_pathJoin, List.map_append, List.map_singleton]
  apply Posix.locate_join_concat
  have hmem : dir.toList ∈ (parts.map String.toList).filter (· ≠ []) := by
    rw [List.mem_filter]
    exact ⟨List.mem_map_of_mem hdir, by simpa using hne⟩
  exact List.ne_nil_of_mem hmem

theorem place_pathJoin_singleton (p : Platform) (path : String) :
    p.place (pathJoin [path]) = p.place path := by
  unfold Platform.place
  rw [toList_pathJoin, List.map_singleton, Posix.join_singleton, Posix.locate_normalize]

/-- A path read at a directory. An empty directory is the working directory, where
a leading slash is read at the root. -/
def StaysIn (p : Platform) (dir path : String) : Prop :=
  if dir = "" ∧ Posix.isAbsolute path.toList = true then
    Posix.Inside p.cwd (Posix.walk [] (Posix.segments path.toList))
  else (climbOf path).StaysBelow (p.place dir)

theorem inside_pathJoin_iff (p : Platform) (dir path : String) :
    Posix.Inside (p.place dir) (p.place (pathJoin [dir, path])) ↔ StaysIn p dir path := by
  unfold StaysIn
  by_cases hdir : dir = ""
  · subst hdir
    have hbase : p.place "" = p.cwd := rfl
    have hjoin : p.place (pathJoin ["", path]) =
        Posix.walk (if Posix.isAbsolute path.toList then [] else p.cwd)
          (Posix.segments path.toList) := by
      unfold Platform.place
      rw [toList_pathJoin]
      show Posix.locate _ (Posix.join ([] :: [path.toList])) = _
      rw [Posix.join_nil_cons, Posix.join_singleton, Posix.locate_normalize]
      rfl
    rw [hbase, hjoin]
    by_cases habs : Posix.isAbsolute path.toList = true
    · rw [if_pos habs, if_pos ⟨rfl, habs⟩]
    · rw [if_neg habs, if_neg fun h => habs h.2]
      exact Posix.walk_inside_iff _ _
  · simp only [hdir, false_and, if_false]
    have hjoin := place_pathJoin_concat p (List.mem_singleton_self dir) hdir path
    rw [List.singleton_append, place_pathJoin_singleton] at hjoin
    rw [hjoin]
    exact Posix.walk_inside_iff _ _

/-! ## The home directory's `~` -/

theorem startsWithTilde_iff (path : String) :
    startsWithTilde path = true ↔ (Posix.segments path.toList).head? = some ['~'] := by
  rw [Posix.head?_segments (by decide)]
  unfold startsWithTilde
  rw [Bool.or_eq_true, beq_iff_eq, List.isPrefixOf_iff_prefix]
  constructor
  · intro h
    rcases h with h | ⟨rest, h⟩
    · exact .inl h
    · exact .inr ⟨rest, by rw [← h]; rfl⟩
  · intro h
    rcases h with h | ⟨rest, h⟩
    · exact .inl h
    · exact .inr ⟨rest, by rw [h]; rfl⟩

theorem isName_tilde : Posix.IsName ['~'] := ⟨by decide, by decide, by decide, by decide⟩

theorem pathJoin_not_fileUrl (parts : List String) :
    ("file://".toList.isPrefixOf (pathJoin parts).toList) = false := by
  rw [Bool.eq_false_iff]
  intro h
  rw [List.isPrefixOf_iff_prefix] at h
  obtain ⟨rest, h⟩ := h
  rw [toList_pathJoin] at h
  have hname : Posix.IsName "file:".toList := ⟨by decide, by decide, by decide, by decide⟩
  exact Posix.normalize_ne_double_slash _ hname rest h.symm

theorem normalizePath_pathJoin (p : Platform) (parts : List String) :
    normalizePath p (pathJoin parts) = .ok (p.expand (pathJoin parts)) := by
  unfold Platform.expand normalizePath
  rw [pathJoin_not_fileUrl]
  by_cases h : startsWithTilde (pathJoin parts) = true
  · by_cases hhome : (pathJoin parts).toList = ['~'] <;> simp [h, hhome]
  · simp [h]

theorem expand_of_not_tilde (p : Platform) {parts : List String}
    (h : startsWithTilde (pathJoin parts) = false) : p.expand (pathJoin parts) = pathJoin parts := by
  unfold Platform.expand normalizePath
  rw [pathJoin_not_fileUrl, h]
  rfl

theorem startsWithTilde_pathJoin_file (parts : List String) {file : EntryName}
    (hfile : isSessionFile file = true) :
    startsWithTilde (pathJoin [pathJoin parts, file.text]) = startsWithTilde (pathJoin parts) := by
  have hne : ['~'] ≠ file.text.toList := by
    intro e
    unfold isSessionFile at hfile
    rw [← e] at hfile
    revert hfile
    decide
  rw [Bool.eq_iff_iff, startsWithTilde_iff, startsWithTilde_iff, toList_pathJoin, toList_pathJoin,
    List.map_cons, List.map_singleton, toList_pathJoin]
  exact Posix.head?_segments_join_file isName_tilde file.isName hne

/-! ## What a conversation id leads to -/

/-- How the conversation id of a request reaches the file system. -/
inductive ConversationUse where
  | delete (id : String)
  | history (id : String)
  | session (id : String)
  deriving DecidableEq, Repr

/-- The id of a chat completion that opens a session. -/
def openedConversation (s : ChatServer) (request : HttpRequest) : Option ConversationUse :=
  match readJsonBody s.platform request with
  | .error _ => none
  | .ok body =>
    match validateRequest body, resolveModelReference s.modelRegistry (requestedModel body) with
    | .ok _, some _ =>
      let conversationId := bodyConversationId body s.randomUUID
      if conversationId ∈ s.sessions ∨ s.gatewayAvailable then none
      else some (.session conversationId)
    | _, _ => none

def conversationUse (s : ChatServer) (request : HttpRequest) : Option ConversationUse :=
  match parseRequestUrl s request with
  | .error _ => none
  | .ok url =>
    if request.method = "DELETE" then
      if (conversationsEndpoint ++ "/").toList.isPrefixOf url.pathname.toList then
        match deletedConversationId url with
        | .ok id => if id = "" then none else some (.delete id)
        | .error _ => none
      else none
    else if request.method = "GET" then
      if url.pathname = sessionsEndpoint ∧ queriedConversationId url ≠ "" then
        some (.history (queriedConversationId url))
      else none
    else if request.method = "POST" ∧ url.pathname = defaultEndpoint then
      openedConversation s request
    else none

/-- The messages of a channel file; a file that cannot be read has none. -/
def gatewayHistory (p : Platform) (channelFile : String) : Except String (List ChatMessage) :=
  if hasNullByte channelFile then .ok []
  else
    match p.readFileSync channelFile with
    | .error _ => .ok []
    | .ok raw => channelMessages p (splitLines raw)

/-- No `~` is expanded below the session directory. -/
def ChatServer.TildeFree (s : ChatServer) (id : String) : Prop :=
  startsWithTilde (pathJoin [s.sessionDir]) = false ∧ startsWithTilde (s.convDir id) = false

/-- The id's session directory and its files, read for the history, stay inside. -/
def HistoryStays (s : ChatServer) (id : String) : Prop :=
  hasNullByte (s.convDir id) = true ∨
    StaysIn s.platform s.sessionDir id ∧
    (s.TildeFree id ∨
      ∀ names, s.platform.readdirSync (s.convDir id) = .ok names →
        ∀ file ∈ names, isSessionFile file = true →
        let path := s.platform.expand (pathJoin [s.convDir id, file.text])
        hasNullByte path = true ∨
          Posix.Inside (s.platform.place s.expandedSessionDir) (s.platform.place path))

/-- The condition on an id: read at its directory, it comes back from where it climbs. -/
def ConversationUse.Stays (s : ChatServer) : ConversationUse → Prop
  | .delete id =>
    hasNullByte (s.channelDir id) = true ∨ (climbOf id).StaysBelow (s.platform.place s.channelsDir)
  | .history id =>
    (hasNullByte (s.channelFile id) = true ∨
      (climbOf (id ++ "/channel.jsonl")).StaysBelow (s.platform.place s.channelsDir)) ∧
    (gatewayHistory s.platform (s.channelFile id) = .ok [] → HistoryStays s id)
  | .session id =>
    hasNullByte (s.platform.expand (s.convDir id)) = true ∨
      (s.TildeFree id ∧ StaysIn s.platform s.sessionDir id ∨
        -- an id may climb onto a `~` or off it: the path then starts elsewhere than the directory
        ¬s.TildeFree id ∧ Posix.Inside (s.platform.place s.expandedSessionDir)
          (s.platform.place (s.platform.expand (s.convDir id))))

/-! ## The paths of a run -/

/-- What an access leaves in the log. -/
def reached (kind : AccessKind) (path : String) : List Access :=
  if hasNullByte path then [] else [{ kind, path }]

theorem runs_access (kind : AccessKind) (path : String) :
    Runs (access kind path) (reached kind path)
      (if hasNullByte path then .error (nullByteError path) else .ok ()) := by
  unfold access reached
  split
  · exact runs_throw _
  · exact runs_record _

theorem runs_attempt {α : Type} {x : ChatM α} {entries : List Access} {result : Except String α}
    (h : Runs x entries result) : Runs (attempt x) entries (.ok result.toOption) := by
  cases result with
  | ok a =>
    have hsome := Runs.bind (f := fun a => pure (some a)) h (runs_pure (some a))
    rw [List.append_nil] at hsome
    exact hsome.caught _
  | error e =>
    have hnone := Runs.bind_error (f := fun a => (pure (some a) : ChatM (Option α))) h
    have hcaught := hnone.caught_error (fun _ => pure none) (runs_pure none)
    rw [List.append_nil] at hcaught
    exact hcaught

/-- The result of a call of the file system. -/
def answered {α : Type} (path : String) (answer : Except String α) : Except String α :=
  if hasNullByte path then .error (nullByteError path) else answer

theorem runs_fsCall {α : Type} (kind : AccessKind) (path : String) (answer : Except String α) :
    Runs (fsCall kind path answer) (reached kind path) (answered path answer) := by
  have hrun := runs_access kind path
  unfold answered
  by_cases hnull : hasNullByte path = true
  · simp only [hnull, if_true] at hrun ⊢
    exact hrun.bind_error
  · simp only [hnull, Bool.false_eq_true, if_false] at hrun ⊢
    rw [← List.append_nil (reached kind path)]
    apply hrun.bind
    cases answer with
    | ok a => exact runs_pure a
    | error e => exact runs_throw e

theorem runs_attempt_fsCall {α : Type} (kind : AccessKind) (path : String)
    (answer : Except String α) :
    Runs (attempt (fsCall kind path answer)) (reached kind path)
      (.ok (if hasNullByte path then none else answer.toOption)) := by
  have hrun := runs_attempt (runs_fsCall kind path answer)
  have hanswer : (answered path answer).toOption =
      if hasNullByte path then none else answer.toOption := by
    unfold answered
    split <;> rfl
  rwa [hanswer] at hrun

theorem runs_loadGatewayChannelHistory (p : Platform) (channelFile : String) :
    Runs (loadGatewayChannelHistory p channelFile) (reached .readChannel channelFile)
      (gatewayHistory p channelFile) := by
  rw [← List.append_nil (reached .readChannel channelFile)]
  apply (runs_attempt_fsCall .readChannel channelFile (p.readFileSync channelFile)).bind
  unfold gatewayHistory
  by_cases hnull : hasNullByte channelFile = true
  · simp only [hnull, if_true]
    exact runs_pure _
  · simp only [hnull, Bool.false_eq_true, if_false]
    cases p.readFileSync channelFile with
    | error e => exact runs_pure _
    | ok raw =>
      simp only [Except.toOption]
      cases channelMessages p (splitLines raw) with
      | ok messages => exact runs_pure _
      | error e => exact runs_throw _

/-- The access that reads one session file. -/
def fileAccess (p : Platform) (file : String) : List Access :=
  match normalizePath p file with
  | .error _ => []
  | .ok path => reached .readSession path

theorem runs_loadSessionFile (p : Platform) (file : String) :
    ∃ result, Runs (loadSessionFile p file) (fileAccess p file) result := by
  unfold loadSessionFile fileAccess
  cases normalizePath p file with
  | error e => exact ⟨_, runs_throw e⟩
  | ok path =>
    have hcall := runs_fsCall .readSession path (p.loadEntriesFromFile path)
    by_cases hnull : hasNullByte path = true
    · refine ⟨.ok [], ?_⟩
      simp only [hnull, if_true, reached]
      exact runs_pure _
    · refine ⟨answered path (p.loadEntriesFromFile path), ?_⟩
      simp only [hnull, Bool.false_eq_true, if_false]
      exact hcall

theorem runs_loadFiles (p : Platform) (files : List String) :
    ∃ messages, Runs (loadFiles p files) (files.flatMap (fileAccess p)) (.ok messages) := by
  induction files with
  | nil => exact ⟨[], runs_pure _⟩
  | cons file files ih =>
    obtain ⟨messages, hrest⟩ := ih
    obtain ⟨result, hfile⟩ := runs_loadSessionFile p file
    refine ⟨(result.toOption.getD []).filterMap entryMessage ++ messages,
      (runs_attempt hfile).bind ?_⟩
    have h := Runs.bind (f := fun rest =>
      (pure ((result.toOption.getD []).filterMap entryMessage ++ rest) : ChatM (List ChatMessage)))
      hrest (runs_pure _)
    rwa [List.append_nil] at h

/-- The session files listed in a directory. -/
def sessionFiles (p : Platform) (convDir : String) : List String :=
  match p.readdirSync convDir with
  | .error _ => []
  | .ok names => sortStrings ((names.filter isSessionFile).map EntryName.text)

/-- The accesses of a conversation's history in the session directory. -/
def historyAccesses (p : Platform) (convDir : String) : List Access :=
  reached .listSession convDir ++
    if hasNullByte convDir then []
    else ((sessionFiles p convDir).map fun f => pathJoin [convDir, f]).flatMap (fileAccess p)

theorem runs_loadConversationHistory (p : Platform) (convDir : String) :
    ∃ messages, Runs (loadConversationHistory p convDir) (historyAccesses p convDir)
      (.ok messages) := by
  have hlist := runs_attempt_fsCall .listSession convDir (p.readdirSync convDir)
  unfold historyAccesses sessionFiles
  by_cases hnull : hasNullByte convDir = true
  · simp only [hnull, if_true] at hlist ⊢
    exact ⟨[], hlist.bind (runs_pure _)⟩
  · simp only [hnull, Bool.false_eq_true, if_false] at hlist ⊢
    cases hnames : p.readdirSync convDir with
    | error e =>
      have hnone : (p.readdirSync convDir).toOption = none := by rw [hnames]; rfl
      rw [hnone] at hlist
      exact ⟨[], hlist.bind (runs_pure _)⟩
    | ok names =>
      have hsome : (p.readdirSync convDir).toOption = some names := by rw [hnames]; rfl
      rw [hsome] at hlist
      obtain ⟨messages, hfiles⟩ := runs_loadFiles p
        ((sortStrings ((names.filter isSessionFile).map EntryName.text)).map
          fun f => pathJoin [convDir, f])
      exact ⟨messages, hlist.bind hfiles⟩

/-- The accesses of the history of a conversation. -/
def conversationAccesses (p : Platform) (channelFile convDir : String) : List Access :=
  reached .readChannel channelFile ++
    match gatewayHistory p channelFile with
    | .ok [] => historyAccesses p convDir
    | _ => []

/-- The accesses a conversation id leads to. -/
def ConversationUse.accesses (s : ChatServer) : ConversationUse → List Access
  | .delete id => reached .delete (s.channelDir id)
  | .history id => conversationAccesses s.platform (s.channelFile id) (s.convDir id)
  | .session id => reached .openSession (s.platform.expand (s.convDir id))

theorem runs_deleteConversation (s : ChatServer) (url : Url) :
    ∃ result, Runs (deleteConversation s url)
      (match deletedConversationId url with
        | .ok id => if id = "" then [] else (ConversationUse.delete id).accesses s
        | .error _ => []) result := by
  unfold deleteConversation
  cases deletedConversationId url with
  | error e => exact ⟨_, runs_throw e⟩
  | ok id =>
    by_cases hid : id = ""
    · simp only [hid, if_true]
      exact ⟨_, runs_pure _⟩
    · simp only [hid, if_false, ConversationUse.accesses]
      generalize s.channelDir id = dir
      have hrm : Runs (rmSync s.platform dir) (reached .delete dir) _ := runs_fsCall _ _ _
      obtain ⟨result, hdo⟩ := hrm.bind_silent
        (f := fun _ => (pure (.json 200 .deleted) : ChatM Response)) fun _ _ => ⟨_, runs_pure _⟩
      exact hdo.caught_silent _ fun e => ⟨_, runs_pure _⟩

theorem runs_getSessionHistory (s : ChatServer) (url : Url) :
    ∃ result, Runs (getSessionHistory s url)
      (if queriedConversationId url = "" then []
        else (ConversationUse.history (queriedConversationId url)).accesses s) result := by
  unfold getSessionHistory
  generalize queriedConversationId url = id
  by_cases hid : id = ""
  · simp only [hid, if_true]
    exact ⟨_, runs_pure _⟩
  · simp only [hid, if_false, ConversationUse.accesses, conversationAccesses]
    generalize s.channelFile id = channelFile
    generalize s.convDir id = convDir
    have hgateway := runs_loadGatewayChannelHistory s.platform channelFile
    cases hg : gatewayHistory s.platform channelFile with
    | error e =>
      rw [hg] at hgateway
      simp only [List.append_nil]
      exact ⟨_, hgateway.bind_error⟩
    | ok messages =>
      rw [hg] at hgateway
      cases messages with
      | cons m ms => exact ⟨.ok (.json 200 (.history id (m :: ms))), hgateway.bind (runs_pure _)⟩
      | nil =>
        obtain ⟨messages, hhistory⟩ := runs_loadConversationHistory s.platform convDir
        refine ⟨.ok (.json 200 (.history id messages)), hgateway.bind ?_⟩
        have h := Runs.bind
          (f := fun messages => (pure (.json 200 (.history id messages)) : ChatM Response))
          hhistory (runs_pure _)
        rwa [List.append_nil] at h

theorem runs_getOrCreateSession (s : ChatServer) (id : String) :
    ∃ result, Runs (getOrCreateSession s id)
      (if id ∈ s.sessions ∨ s.gatewayAvailable then []
        else (ConversationUse.session id).accesses s) result := by
  unfold getOrCreateSession defaultPieAgentSessionFactory continueRecent
  by_cases hlive : id ∈ s.sessions
  · rw [if_pos hlive, if_pos (.inl hlive)]
    exact ⟨_, runs_pure _⟩
  · by_cases hgateway : s.gatewayAvailable = true
    · rw [if_neg hlive, if_pos hgateway, if_pos (.inr hgateway)]
      exact ⟨_, runs_pure _⟩
    · have hnormal : normalizePath s.platform (s.convDir id) =
          .ok (s.platform.expand (s.convDir id)) := normalizePath_pathJoin _ _
      rw [if_neg hlive, if_neg hgateway, hnormal, if_neg fun h => h.elim hlive hgateway]
      exact ⟨_, runs_access _ _⟩

theorem runs_chatCompletion (s : ChatServer) (request : HttpRequest) :
    ∃ result, Runs (chatCompletion s request)
      ((openedConversation s request).elim [] (ConversationUse.accesses s)) result := by
  unfold chatCompletion openedConversation
  cases readJsonBody s.platform request with
  | error e => exact ⟨_, runs_throw e⟩
  | ok body =>
    dsimp only
    cases hproperty : body.property "model" with
    | error e =>
      -- a body that is `null` is not valid either
      have hbody : body = .null := by
        cases body <;> first | rfl | cases hproperty
      subst hbody
      exact ⟨_, runs_throw e⟩
    | ok _ =>
      dsimp only
      cases validateRequest body with
      | error e => exact ⟨_, runs_pure _⟩
      | ok messages =>
        dsimp only
        cases resolveModelReference s.modelRegistry (requestedModel body) with
        | none => exact ⟨_, runs_pure _⟩
        | some model =>
          dsimp only
          obtain ⟨result, hsession⟩ :=
            runs_getOrCreateSession s (bodyConversationId body s.randomUUID)
          generalize bodyConversationId body s.randomUUID = id at hsession ⊢
          by_cases hno : id ∈ s.sessions ∨ s.gatewayAvailable = true
          · rw [if_pos hno] at hsession ⊢
            exact hsession.bind_silent fun _ _ => ⟨_, runs_pure _⟩
          · rw [if_neg hno] at hsession ⊢
            rw [Option.elim_some]
            exact hsession.bind_silent fun _ _ => ⟨_, runs_pure _⟩

theorem runs_loadChannels (s : ChatServer) (names : List EntryName) :
    ∃ entries ids, Runs (loadChannels s names) entries (.ok ids) ∧ ∀ a ∈ entries, a.IsInside s := by
  induction names with
  | nil => exact ⟨[], [], runs_pure _, by simp⟩
  | cons name names ih =>
    obtain ⟨entries, ids, hrest, hinside⟩ := ih
    have hplace : s.platform.place (pathJoin [s.channelsDir, name.text, "channel.jsonl"]) =
        s.platform.place s.channelsDir ++ [name.text.toList, "channel.jsonl".toList] := by
      have h1 := place_pathJoin_concat s.platform
        (show s.channelsDir ∈ [s.channelsDir, name.text] by simp) (pathJoin_ne _) "channel.jsonl"
      have h2 := place_pathJoin_concat s.platform (List.mem_singleton_self s.channelsDir)
        (pathJoin_ne _) name.text
      rw [List.singleton_append, place_pathJoin_singleton] at h2
      rw [List.cons_append, List.singleton_append] at h1
      have hname : Posix.segments name.text.toList = [name.text.toList] :=
        List.splitOn_eq_singleton name.isName.no_slash
      have hfile : Posix.segments "channel.jsonl".toList = ["channel.jsonl".toList] := by decide
      rw [h1, h2, hname, hfile, Posix.walk_cons, Posix.walk_nil, Posix.walk_cons, Posix.walk_nil,
        name.isName.move, Posix.IsName.move ⟨by decide, by decide, by decide, by decide⟩]
      simp
    have hread := runs_attempt_fsCall .readChannel
      (pathJoin [s.channelsDir, name.text, "channel.jsonl"])
      (s.platform.readFileSync (pathJoin [s.channelsDir, name.text, "channel.jsonl"]))
    have hrest' := Runs.bind (f := fun rest => (pure
      (if (if hasNullByte (pathJoin [s.channelsDir, name.text, "channel.jsonl"]) then none
        else (s.platform.readFileSync
          (pathJoin [s.channelsDir, name.text, "channel.jsonl"])).toOption).isSome
      then name.text :: rest else rest) : ChatM (List String))) hrest (runs_pure _)
    rw [List.append_nil] at hrest'
    refine ⟨_, _, hread.bind hrest', ?_⟩
    intro a ha
    rcases List.mem_append.mp ha with ha | ha
    · unfold reached at ha
      split at ha
      · cases ha
      · rw [List.mem_singleton.mp ha, isInside_channel _ _ _ (.inr rfl), hplace]
        exact Posix.inside_append (by simp)
    · exact hinside a ha

theorem runs_loadWebConversationList (s : ChatServer) :
    ∃ entries result, Runs (loadWebConversationList s) entries result ∧
      ∀ a ∈ entries, a.IsInside s := by
  have hlist :=
    runs_attempt_fsCall .listChannels s.channelsDir (s.platform.readdirSync s.channelsDir)
  have hscan : ∀ a ∈ reached .listChannels s.channelsDir, a.IsInside s := by
    intro a ha
    unfold reached at ha
    split at ha
    · cases ha
    · rw [List.mem_singleton.mp ha]
      trivial
  unfold loadWebConversationList readdirSync
  generalize (if hasNullByte s.channelsDir = true then none
    else (s.platform.readdirSync s.channelsDir).toOption) = answer at hlist
  cases answer with
  | none =>
    refine ⟨_, .ok [], hlist.bind (runs_pure _), ?_⟩
    rw [List.append_nil]
    exact hscan
  | some names =>
    obtain ⟨entries, ids, hrun, hinside⟩ := runs_loadChannels s names
    refine ⟨_, .ok ids, hlist.bind hrun, ?_⟩
    intro a ha
    rcases List.mem_append.mp ha with ha | ha
    · exact hscan a ha
    · exact hinside a ha

theorem runs_handlePieAgentChatRequest (s : ChatServer) (request : HttpRequest) :
    ∃ listed result,
      Runs (handlePieAgentChatRequest s request)
        (listed ++ (conversationUse s request).elim [] (ConversationUse.accesses s)) result ∧
      ∀ a ∈ listed, a.IsInside s := by
  -- no list request: the run logs exactly what the conversation id leads to
  have hexact : ∀ {x : ChatM Response} {entries : List Access},
      (∃ result, Runs x entries result) →
      ∃ listed result, Runs x (listed ++ entries) result ∧ ∀ a ∈ listed, a.IsInside s := by
    intro x entries ⟨result, h⟩
    exact ⟨[], result, h, by simp⟩
  unfold handlePieAgentChatRequest conversationUse
  cases parseRequestUrl s request with
  | error e =>
    apply hexact
    by_cases hoptions : request.method = "OPTIONS"
    · simp only [hoptions, if_true]
      exact ⟨_, runs_pure _⟩
    · simp only [hoptions, if_false]
      exact ⟨_, runs_throw e⟩
  | ok url =>
    dsimp only
    by_cases hdelete : request.method = "DELETE"
    · apply hexact
      have hget : ¬ request.method = "GET" := by rw [hdelete]; decide
      have hpost : request.method ≠ "POST" := by rw [hdelete]; decide
      rw [if_neg (by rw [hdelete]; decide), if_pos hdelete, if_neg fun h => hget h.2]
      by_cases hpre : (conversationsEndpoint ++ "/").toList.isPrefixOf url.pathname.toList = true
      · rw [if_pos ⟨hpre, hdelete⟩, if_pos hpre]
        obtain ⟨result, hrun⟩ := runs_deleteConversation s url
        refine ⟨result, ?_⟩
        cases hid : deletedConversationId url with
        | error e => rw [hid] at hrun; exact hrun
        | ok id =>
          rw [hid] at hrun
          dsimp only at hrun ⊢
          by_cases hempty : id = ""
          · rw [if_pos hempty] at hrun ⊢; exact hrun
          · rw [if_neg hempty] at hrun ⊢
            rw [Option.elim_some]; exact hrun
      · rw [if_neg fun h => hpre h.1, if_neg hpre, if_neg fun h => hget h.2]
        by_cases hpath : url.pathname ≠ defaultEndpoint
        · rw [if_pos hpath]; exact ⟨_, runs_pure _⟩
        · rw [if_neg hpath, if_pos hpost]; exact ⟨_, runs_pure _⟩
    · by_cases hget : request.method = "GET"
      · have hpost : request.method ≠ "POST" := by rw [hget]; decide
        rw [if_neg (by rw [hget]; decide), if_neg hdelete, if_pos hget]
        by_cases hlist : url.pathname = conversationsEndpoint
        · -- the list of conversations
          rw [if_pos ⟨hlist, hget⟩, if_neg (by rw [hlist]; exact fun h => absurd h.1 (by decide))]
          obtain ⟨entries, result, hrun, hinside⟩ := runs_loadWebConversationList s
          obtain ⟨result', hresult⟩ := hrun.bind_silent
            (f := fun ids => (pure (.json 200 (.conversations ids)) : ChatM Response))
            fun _ _ => ⟨_, runs_pure _⟩
          exact ⟨entries, result', by rw [Option.elim_none, List.append_nil]; exact hresult,
            hinside⟩
        · apply hexact
          rw [if_neg fun h => hlist h.1, if_neg fun h => hdelete h.2]
          by_cases hsessions : url.pathname = sessionsEndpoint
          · rw [if_pos ⟨hsessions, hget⟩]
            obtain ⟨result, hrun⟩ := runs_getSessionHistory s url
            refine ⟨result, ?_⟩
            by_cases hempty : queriedConversationId url = ""
            · rw [if_pos hempty] at hrun
              rw [if_neg fun h => h.2 hempty]; exact hrun
            · rw [if_neg hempty] at hrun
              rw [if_pos ⟨hsessions, hempty⟩, Option.elim_some]; exact hrun
          · have huse : ¬(url.pathname = sessionsEndpoint ∧ queriedConversationId url ≠ "") :=
              fun h => hsessions h.1
            rw [if_neg fun h => hsessions h.1, if_neg huse]
            by_cases hpath : url.pathname ≠ defaultEndpoint
            · rw [if_pos hpath]; exact ⟨_, runs_pure _⟩
            · rw [if_neg hpath, if_pos hpost]; exact ⟨_, runs_pure _⟩
      · apply hexact
        rw [if_neg hdelete, if_neg hget]
        by_cases hoptions : request.method = "OPTIONS"
        · rw [if_pos hoptions, if_neg (by rw [hoptions]; exact fun h => absurd h.1 (by decide))]
          exact ⟨_, runs_pure _⟩
        · rw [if_neg hoptions, if_neg fun h => hget h.2, if_neg fun h => hdelete h.2,
            if_neg fun h => hget h.2]
          by_cases hpath : url.pathname ≠ defaultEndpoint
          · rw [if_pos hpath, if_neg fun h => hpath h.2]; exact ⟨_, runs_pure _⟩
          · have hpath : url.pathname = defaultEndpoint := not_not.mp hpath
            rw [if_neg fun h => h hpath]
            by_cases hpost : request.method = "POST"
            · rw [if_neg fun h => h hpost, if_pos ⟨hpost, hpath⟩]
              exact runs_chatCompletion s request
            · rw [if_pos hpost, if_neg fun h => hpost h.1]; exact ⟨_, runs_pure _⟩

/-- The paths a request hands to the file system: those of its conversation id, or
those of the conversation list. -/
theorem runs_handler (s : ChatServer) (request : HttpRequest) :
    ∃ listed result,
      Runs (pieAgentChatHandler s request)
        (listed ++ (conversationUse s request).elim [] (ConversationUse.accesses s)) result ∧
      ∀ a ∈ listed, a.IsInside s := by
  obtain ⟨listed, result, hrun, hinside⟩ := runs_handlePieAgentChatRequest s request
  obtain ⟨result', hcaught⟩ := hrun.caught_silent
    (fun e => pure (.json 500 (.error e (some "server_error")))) fun e => ⟨_, runs_pure _⟩
  exact ⟨listed, result', hcaught, hinside⟩

/-! ## When the accesses stay inside -/

theorem forall_reached (s : ChatServer) (kind : AccessKind) (path : String) :
    (∀ a ∈ reached kind path, a.IsInside s) ↔
      hasNullByte path = true ∨ Access.IsInside s { kind, path } := by
  unfold reached
  by_cases h : hasNullByte path = true <;> simp [h]

theorem place_channelsDir_concat (s : ChatServer) (path : String) :
    s.platform.place (pathJoin ([s.agentDir, "chat", "accounts", "web", "channels"] ++ [path])) =
      Posix.walk (s.platform.place s.channelsDir) (Posix.segments path.toList) :=
  place_pathJoin_concat s.platform (show "chat" ∈ _ by simp) (by decide) path

theorem delete_inside_iff (s : ChatServer) (id : String) :
    Access.IsInside s { kind := .delete, path := s.channelDir id } ↔
      (climbOf id).StaysBelow (s.platform.place s.channelsDir) := by
  rw [isInside_channel _ _ _ (.inl rfl), show s.channelDir id =
    pathJoin ([s.agentDir, "chat", "accounts", "web", "channels"] ++ [id]) from rfl,
    place_channelsDir_concat]
  exact Posix.walk_inside_iff _ _

theorem readChannel_inside_iff (s : ChatServer) (id : String) :
    Access.IsInside s { kind := .readChannel, path := s.channelFile id } ↔
      (climbOf (id ++ "/channel.jsonl")).StaysBelow (s.platform.place s.channelsDir) := by
  have hplace := place_pathJoin_concat s.platform
    (show "chat" ∈ [s.agentDir, "chat", "accounts", "web", "channels"] ++ [id] by simp) (by decide)
    "channel.jsonl"
  have hsegs : Posix.segments (id ++ "/channel.jsonl").toList =
      Posix.segments id.toList ++ Posix.segments "channel.jsonl".toList := by
    rw [String.toList_append]
    exact Posix.segments_append_slash id.toList "channel.jsonl".toList
  rw [isInside_channel _ _ _ (.inr rfl), show s.channelFile id =
    pathJoin ([s.agentDir, "chat", "accounts", "web", "channels"] ++ [id] ++ ["channel.jsonl"]) from rfl,
    hplace, place_channelsDir_concat, ← Posix.walk_append, ← hsegs]
  exact Posix.walk_inside_iff _ _

theorem listSession_inside_iff (s : ChatServer) (id : String) :
    Access.IsInside s { kind := .listSession, path := s.convDir id } ↔
      StaysIn s.platform s.sessionDir id :=
  (isInside_listSession s _).trans (inside_pathJoin_iff s.platform s.sessionDir id)

theorem place_expandedSessionDir {s : ChatServer} {id : String} (h : s.TildeFree id) :
    s.platform.place s.expandedSessionDir = s.platform.place s.sessionDir := by
  unfold ChatServer.expandedSessionDir
  rw [expand_of_not_tilde _ h.1, place_pathJoin_singleton]

theorem session_inside_iff (s : ChatServer) (id : String) :
    (∀ a ∈ (ConversationUse.session id).accesses s, a.IsInside s) ↔
      (ConversationUse.session id).Stays s := by
  unfold ConversationUse.accesses ConversationUse.Stays
  rw [forall_reached, isInside_session _ _ _ (.inr rfl)]
  refine or_congr_right ?_
  by_cases htilde : s.TildeFree id
  · have hexpand : s.platform.expand (s.convDir id) = s.convDir id := expand_of_not_tilde _ htilde.2
    rw [hexpand, place_expandedSessionDir htilde]
    simp only [htilde, true_and, not_true_eq_false, false_and, or_false]
    exact inside_pathJoin_iff s.platform s.sessionDir id
  · simp only [htilde, false_and, not_false_eq_true, true_and, false_or]

theorem forall_historyFiles (s : ChatServer) (id : String) :
    (∀ a ∈ ((sessionFiles s.platform (s.convDir id)).map
        fun f => pathJoin [s.convDir id, f]).flatMap (fileAccess s.platform), a.IsInside s) ↔
      ∀ names, s.platform.readdirSync (s.convDir id) = .ok names →
        ∀ file ∈ names, isSessionFile file = true →
        hasNullByte (s.platform.expand (pathJoin [s.convDir id, file.text])) = true ∨
          Posix.Inside (s.platform.place s.expandedSessionDir)
            (s.platform.place (s.platform.expand (pathJoin [s.convDir id, file.text]))) := by
  have haccess : ∀ f, fileAccess s.platform (pathJoin [s.convDir id, f]) =
      reached .readSession (s.platform.expand (pathJoin [s.convDir id, f])) := by
    intro f
    unfold fileAccess
    rw [normalizePath_pathJoin]
  unfold sessionFiles
  cases s.platform.readdirSync (s.convDir id) with
  | error e => simp
  | ok names =>
    have hmem : ∀ f, f ∈ sortStrings ((names.filter isSessionFile).map EntryName.text) ↔
        ∃ file ∈ names, isSessionFile file = true ∧ file.text = f := by
      intro f
      unfold sortStrings
      rw [List.mem_mergeSort, List.mem_map]
      simp only [List.mem_filter, and_assoc]
    constructor
    · intro h names' he file hfile hsession
      cases he
      rw [← isInside_session s .readSession _ (.inl rfl), ← forall_reached]
      intro a ha
      apply h a
      rw [List.mem_flatMap]
      refine ⟨pathJoin [s.convDir id, file.text], ?_, by rw [haccess]; exact ha⟩
      exact List.mem_map.mpr ⟨file.text, (hmem _).mpr ⟨file, hfile, hsession, rfl⟩, rfl⟩
    · intro h a ha
      obtain ⟨path, hpath, ha⟩ := List.mem_flatMap.mp ha
      obtain ⟨f, hf, rfl⟩ := List.mem_map.mp hpath
      obtain ⟨file, hfile, hsession, rfl⟩ := (hmem f).mp hf
      have hfile := h names rfl file hfile hsession
      rw [← isInside_session s .readSession _ (.inl rfl), ← forall_reached] at hfile
      rw [haccess] at ha
      exact hfile a ha

theorem history_inside_iff (s : ChatServer) (id : String) :
    (∀ a ∈ historyAccesses s.platform (s.convDir id), a.IsInside s) ↔ HistoryStays s id := by
  unfold historyAccesses HistoryStays
  rw [List.forall_mem_append, forall_reached, listSession_inside_iff]
  by_cases hnull : hasNullByte (s.convDir id) = true
  · simp [hnull]
  · simp only [hnull, Bool.false_eq_true, false_or, if_false, forall_historyFiles]
    refine and_congr_right fun hstays => ?_
    refine ⟨fun h => .inr h, fun h => ?_⟩
    rcases h with htilde | h
    · -- a file of a directory inside stands inside
      intro names _ file _ hsession
      have hfile : startsWithTilde (pathJoin [s.convDir id, file.text]) = false :=
        (startsWithTilde_pathJoin_file [s.sessionDir, id] hsession).trans htilde.2
      have hdir := (inside_pathJoin_iff s.platform s.sessionDir id).mpr hstays
      have hplace := place_pathJoin_concat s.platform (List.mem_singleton_self (s.convDir id))
        (pathJoin_ne _) file.text
      have hsegs : Posix.segments file.text.toList = [file.text.toList] :=
        List.splitOn_eq_singleton file.isName.no_slash
      rw [List.singleton_append, place_pathJoin_singleton, hsegs, Posix.walk_cons, Posix.walk_nil,
        file.isName.move] at hplace
      rw [expand_of_not_tilde _ hfile, hplace, place_expandedSessionDir htilde]
      exact .inr (hdir.append _)
    · exact h

theorem ConversationUse.accesses_inside_iff (s : ChatServer) (use : ConversationUse) :
    (∀ a ∈ use.accesses s, a.IsInside s) ↔ use.Stays s := by
  cases use with
  | delete id =>
    unfold ConversationUse.accesses ConversationUse.Stays
    rw [forall_reached, delete_inside_iff]
  | session id => exact session_inside_iff s id
  | history id =>
    unfold ConversationUse.accesses ConversationUse.Stays conversationAccesses
    rw [List.forall_mem_append, forall_reached, readChannel_inside_iff]
    refine and_congr_right fun _ => ?_
    cases hg : gatewayHistory s.platform (s.channelFile id) with
    | error e => simp
    | ok messages =>
      cases messages with
      | cons m ms => simp
      | nil => simpa using history_inside_iff s id

/-- **Conversation ids and their directories.** Every path a request hands to the file
system for its conversation id stays strictly inside the directory of its kind exactly
when the id, read at that directory, comes back from where it climbs. -/
theorem conversationPaths_inside_iff (s : ChatServer) (request : HttpRequest) :
    (∀ a ∈ issued (pieAgentChatHandler s request), a.IsInside s) ↔
      ∀ use, conversationUse s request = some use → use.Stays s := by
  obtain ⟨listed, result, hrun, hlisted⟩ := runs_handler s request
  rw [hrun.issued]
  cases huse : conversationUse s request with
  | none => simpa using hlisted
  | some use =>
    have hiff := ConversationUse.accesses_inside_iff s use
    rw [Option.elim_some]
    constructor
    · intro h use' he
      cases he
      exact hiff.mp fun a ha => h a (List.mem_append_right _ ha)
    · intro h a ha
      rcases List.mem_append.mp ha with ha | ha
      · exact hlisted a ha
      · exact hiff.mpr (h use rfl) a ha

/-! ## A DELETE that leaves its directory -/

namespace DeleteExample

def platform : Platform where
  cwd := []
  homedir := "/root"
  parseUrl url _ := .ok { pathname := url, searchParams := [] }
  parseJson _ := .error "Unexpected end of JSON input"
  readFileSync _ := .error "ENOENT"
  readdirSync _ := .error "ENOENT"
  rmSync _ := .ok ()
  fileURLToPath _ := .error "Invalid URL"
  loadEntriesFromFile _ := .ok []

theorem zeroUuid_length : "00000000-0000-4000-8000-000000000000".toList.length = 36 := by decide

def server : ChatServer where
  platform := platform
  agentDir := "/agent"
  webChatSessionDir := none
  modelRegistry := { find := fun _ _ => none, getAll := [] }
  sessions := []
  gatewayAvailable := false
  randomUUID := { text := "00000000-0000-4000-8000-000000000000", length_eq := zeroUuid_length }

/-- The encoded slashes stay in the path of the URL, and are decoded in the id. -/
def request : HttpRequest where
  method := "DELETE"
  url := some "/v1/pie/chat/conversations/..%2F..%2F..%2F.."
  host := some "localhost"
  body := some ""

end DeleteExample

theorem deleteExample_use :
    conversationUse DeleteExample.server DeleteExample.request =
      some (.delete "../../../..") := by
  have hurl : parseRequestUrl DeleteExample.server DeleteExample.request =
      .ok { pathname := "/v1/pie/chat/conversations/..%2F..%2F..%2F..", searchParams := [] } := rfl
  have hcomponent : String.ofList ("/v1/pie/chat/conversations/..%2F..%2F..%2F..".toList.drop
      (conversationsEndpoint.length + 1)) = "..%2F..%2F..%2F.." := by decide
  have hdecode : decodeURIComponent "..%2F..%2F..%2F.." = .ok "../../../.." := rfl
  have htake : jsTake "../../../.." 160 = "../../../.." := by decide
  have hid : deletedConversationId
      { pathname := "/v1/pie/chat/conversations/..%2F..%2F..%2F..", searchParams := [] } =
      .ok "../../../.." := by
    unfold deletedConversationId
    rw [hcomponent]
    dsimp only
    rw [hdecode, Except.map, htake]
  unfold conversationUse
  rw [hurl]
  dsimp only
  rw [if_pos (by decide), if_pos (by decide), hid]
  dsimp only
  rw [if_neg (by decide)]

/-- which leads to the agent's directory: the DELETE removes everything in it. -/
theorem deleteConversation_leaves :
    { kind := .delete, path := "/agent" } ∈
        issued (pieAgentChatHandler DeleteExample.server DeleteExample.request) ∧
      ¬ Access.IsInside DeleteExample.server { kind := .delete, path := "/agent" } := by
  constructor
  · obtain ⟨listed, result, hrun, -⟩ := runs_handler DeleteExample.server DeleteExample.request
    rw [hrun.issued, deleteExample_use, Option.elim_some]
    apply List.mem_append_right
    have hdir : DeleteExample.server.channelDir "../../../.." = "/agent" := by decide
    have hreached : reached .delete "/agent" = [{ kind := .delete, path := "/agent" }] := by decide
    unfold ConversationUse.accesses
    dsimp only
    rw [hdir, hreached]
    exact List.mem_singleton_self _
  · rw [isInside_channel _ _ _ (.inl rfl)]
    decide

end PieLab
