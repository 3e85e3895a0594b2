import PieLab.Server.RoutedAttempts

/-
  A successful attempt of a chat completion

  Once the model call of an attempt has succeeded, the handler clears the state of
  the connection and writes a usage record. Both may throw, and then the attempt is
  handled as a failed one: the connection is marked unavailable, a record with
  status error is written, and the next route is tried.

  What is proved:
    1. `Open.asks` — a failed attempt leaves the handler where it may go on.
    2. `successful_attempt_final_iff` — successes are final in exactly the runs in
       which no bookkeeping of a success throws with something to follow it.
    3. `second_model_called` — the usage store throws, and a second model is called.
-/

namespace PieLab.Server

open Lib
open Router (ResolvedPiModelRoute)

/-- A query and its answer. -/
abbrev Asked := (query : ChatQuery) × ChatAnswer query

/-! ## Successes and what is asked behind them -/

/-- The first event that ends the stream is `done`. -/
def finishes : List StreamEvent → Bool
  | [] => false
  | .done _ :: _ => true
  | .error _ _ :: _ => false
  | _ :: events => finishes events

/-- A chunk is written before the stream ends. -/
def showsChunk : List StreamEvent → Bool
  | [] => false
  | .done _ :: _ => false
  | .error _ _ :: _ => false
  | .other :: events => showsChunk events
  | _ :: _ => true

namespace Asked

/-- The attempt whose model call succeeds. -/
def succeeds : Asked → Option Nat
  | ⟨.complete i _, .ok assistant⟩ =>
    if ChatCompletionRequest.statusOf assistant = .success then some i else none
  | ⟨.openStream i _, .ok stream⟩ => if finishes stream.events then some i else none
  | _ => none

/-- The attempt whose stream writes a chunk. -/
def shows : Asked → Option Nat
  | ⟨.openStream i _, .ok stream⟩ => if showsChunk stream.events then some i else none
  | _ => none

/-- What must not follow the success of an attempt. -/
def Undoes (i : Nat) : Asked → Prop
  | ⟨.resolveAuth j _, _⟩ => i < j
  | ⟨.markUnavailable j _ _, _⟩ => j = i
  | ⟨.recordUsage record, _⟩ => record.attemptIndex = i ∧ record.status = .error
  | _ => False

end Asked

/-- The query of an attempt is in the log. -/
def Has (f : Asked → Option Nat) (log : List Asked) (i : Nat) : Prop := ∃ x ∈ log, f x = some i

/-- No later route is executed behind a success, its connection is not marked unavailable, and it is
not recorded with status error. -/
def Final (log : List Asked) : Prop :=
  ∀ pre x post i, log = pre ++ x :: post → x.succeeds = some i → ∀ y ∈ post, ¬ y.Undoes i

variable {x : Asked} {record : AttemptRecord}

namespace ChatCompletionRequest
variable (r : ChatCompletionRequest)

/-- The budget blocks the attempt, where there are no usage records. -/
def Blocked (attemptIndex : Nat) (route : ResolvedPiModelRoute) : Prop :=
  ∃ settings, r.budgetSettings = some settings ∧
    (r.budgetStatus settings attemptIndex route []).shouldBlock = true

/-- One of the routes gets past its budget check. -/
def Passes (j : Nat) (routes : List ResolvedPiModelRoute) : Prop :=
  ∃ entry ∈ routes.zipIdx j, ¬ r.Blocked entry.2 entry.1

/-- The bookkeeping of a success throws, and something follows: a hook that marks the connection, a
usage store, or, where no chunk is out, a later route. -/
def Harms (log : List Asked) : Asked → Prop
  | ⟨.clearUnavailable i auth, .error _⟩ =>
    auth.markUnavailable = true ∨ r.hasUsageStore = true ∨
      ¬ Has Asked.shows log i ∧ r.Passes (i + 1) (r.plan.routes.drop (i + 1))
  | ⟨.recordUsage record, .error _⟩ => record.status = .success
  | _ => False

/-- No bookkeeping of a success throws to harm. -/
def BookkeepingHolds (log : List Asked) : Prop :=
  ∀ pre x post, log = pre ++ x :: post → ¬ r.Harms pre x

/-! ## Logs -/

theorem append_singleton_eq {α : Type} {log pre post : List α} {x y : α} :
    log ++ [x] = pre ++ y :: post ↔
      log = pre ∧ x = y ∧ post = [] ∨ ∃ post', post = post' ++ [x] ∧ log = pre ++ y :: post' := by
  constructor
  · intro h
    obtain rfl | ⟨post', z, rfl⟩ := List.eq_nil_or_concat post
    · obtain ⟨rfl, hxy⟩ := List.append_inj' h rfl
      exact .inl ⟨rfl, List.head_eq_of_cons_eq hxy, rfl⟩
    · rw [List.concat_eq_append, ← List.cons_append, ← List.append_assoc] at h
      obtain ⟨hlog, hxz⟩ := List.append_inj' h rfl
      obtain rfl := List.head_eq_of_cons_eq hxz
      exact .inr ⟨post', List.concat_eq_append .., hlog⟩
  · rintro (⟨rfl, rfl, rfl⟩ | ⟨post', rfl, rfl⟩)
    · rfl
    · rw [List.append_assoc, List.cons_append]

theorem has_append {f : Asked → Option Nat} {log : List Asked} {i : Nat} :
    Has f (log ++ [x]) i ↔ Has f log i ∨ f x = some i := by
  unfold Has
  simp only [List.mem_append, List.mem_singleton, or_and_right, exists_or, exists_eq_left]

theorem final_append {log : List Asked} :
    Final (log ++ [x]) ↔ Final log ∧ ∀ i, Has Asked.succeeds log i → ¬ x.Undoes i := by
  constructor
  · intro h
    constructor
    · rintro pre y post i rfl hy z hz
      apply h pre y (post ++ [x]) i (by simp) hy
      exact List.mem_append_left _ hz
    · rintro i ⟨y, hmem, hy⟩
      obtain ⟨pre, post, rfl⟩ := List.append_of_mem hmem
      apply h pre y (post ++ [x]) i (by simp) hy
      exact List.mem_append_right _ List.mem_cons_self
  · rintro ⟨hfinal, hx⟩ pre y post i heq hy z hz
    obtain ⟨rfl, rfl, rfl⟩ | ⟨post', rfl, rfl⟩ := append_singleton_eq.1 heq
    · cases hz
    · obtain hz | hz := List.mem_append.1 hz
      · exact hfinal pre y post' i rfl hy z hz
      · rw [List.mem_singleton.1 hz]
        exact hx i ⟨y, by simp, hy⟩

theorem bookkeepingHolds_append {log : List Asked} :
    r.BookkeepingHolds (log ++ [x]) ↔ r.BookkeepingHolds log ∧ ¬ r.Harms log x := by
  constructor
  · intro h
    refine ⟨?_, h log x [] rfl⟩
    rintro pre y post rfl
    exact h pre y (post ++ [x]) (by simp)
  · rintro ⟨hholds, hx⟩ pre y post heq
    obtain ⟨rfl, rfl, rfl⟩ | ⟨post', rfl, rfl⟩ := append_singleton_eq.1 heq
    · exact hx
    · exact hholds pre y post' rfl

/-! ## Where the handler is -/

def Fair (log : List Asked) : Prop := Final log ↔ r.BookkeepingHolds log

/-- A success was undone, and bookkeeping threw. -/
structure Doomed (log : List Asked) : Prop where
  undone : ¬ Final log
  harmed : ¬ r.BookkeepingHolds log

/-- No attempt has succeeded yet, and the next one is `i`. -/
structure Open (i : Nat) (log : List Asked) : Prop where
  unsuccessful : ∀ j, ¬ Has Asked.succeeds log j
  shown : ∀ j, Has Asked.shows log j → j < i
  final : Final log
  holds : r.BookkeepingHolds log

/-- Attempt `i` has succeeded, and whether it has written a chunk. -/
structure Won (i : Nat) (visible : Bool) (log : List Asked) : Prop where
  successful : ∀ j, Has Asked.succeeds log j ↔ j = i
  shown : Has Asked.shows log i ↔ visible = true
  final : Final log
  holds : r.BookkeepingHolds log

/-- An attempt before `j` has succeeded and its bookkeeping threw, which harms if a route passes. -/
structure Hanging (j : Nat) (routes : List ResolvedPiModelRoute) (log : List Asked) : Prop where
  noStore : r.hasUsageStore = false
  successful : ∃ i < j, Has Asked.succeeds log i
  final : Final log
  holds : r.BookkeepingHolds log ↔ ¬ r.Passes j routes

variable {r} {log : List Asked}

theorem Doomed.fair (h : r.Doomed log) :
    r.Fair log := ⟨fun hf => absurd hf h.undone, fun hb => absurd hb h.harmed⟩

theorem Open.fair {i : Nat} (h : r.Open i log) : r.Fair log := ⟨fun _ => h.holds, fun _ => h.final⟩

theorem Won.fair {i : Nat} {visible : Bool} (h : r.Won i visible log) : r.Fair log :=
  ⟨fun _ => h.holds, fun _ => h.final⟩

theorem Doomed.append (h : r.Doomed log) (x : Asked) : r.Doomed (log ++ [x]) where
  undone hf := h.undone (final_append.1 hf).1
  harmed hb := h.harmed (r.bookkeepingHolds_append.1 hb).1

theorem Doomed.rest {α : Type} (h : r.Doomed log) (p : ChatProg α) :
    Prog.Holds (Prog.logs ChatQuery ChatAnswer) (fun _ => r.Doomed) (fun _ => r.Doomed) p log := by
  apply Prog.Holds.kept _ p h
  rintro q log a _ rfl h
  exact h.append _

theorem Open.mono {i j : Nat} (h : r.Open i log) (hij : i ≤ j) : r.Open j log where
  unsuccessful := h.unsuccessful
  shown k hk := (h.shown k hk).trans_le hij
  final := h.final
  holds := h.holds

theorem Open.append {i : Nat} (h : r.Open i log) {x : Asked} (hsucceeds : x.succeeds = none)
    (hshows : ∀ j, x.shows = some j → j < i) (hharms : ¬ r.Harms log x) : r.Open i (log ++ [x]) where
  unsuccessful j hj := by
    obtain hold | hnew := has_append.1 hj
    · exact h.unsuccessful j hold
    · rw [hsucceeds] at hnew
      cases hnew
  shown j hj := (has_append.1 hj).elim (h.shown j) (hshows j)
  final := final_append.2 ⟨h.final, fun j hj => absurd hj (h.unsuccessful j)⟩
  holds := r.bookkeepingHolds_append.2 ⟨h.holds, hharms⟩

theorem fair_write (h : r.Fair log) (output : Output) : r.Fair (log ++ [⟨.write output, ()⟩]) := by
  unfold Fair
  rw [final_append, bookkeepingHolds_append]
  have hharms : ¬ r.Harms log ⟨.write output, ()⟩ := nofun
  have hundoes : ∀ i, Has Asked.succeeds log i → ¬ Asked.Undoes i ⟨.write output, ()⟩ :=
    fun _ _ => nofun
  exact ⟨fun hf => ⟨h.1 hf.1, hharms⟩, fun hb => ⟨h.2 hb.1, hundoes⟩⟩

/-! ## What a failed attempt asks -/

/-- A query that neither is nor follows a success. -/
def Quiet : ChatQuery → Prop
  | .recordUsage record => record.status ≠ .success
  | .complete .. | .openStream .. | .clearUnavailable .. => False
  | _ => True

abbrev AsksQuietly {α : Type} (p : ChatProg α) : Prop := Prog.Asks Quiet (fun _ => True) p

theorem Open.quiet {i : Nat} (h : r.Open i log) {query : ChatQuery} (hquiet : Quiet query)
    (answer : ChatAnswer query) : r.Open i (log ++ [⟨query, answer⟩]) := by
  cases query with
  | complete | openStream | clearUnavailable => exact hquiet.elim
  | recordUsage record =>
    apply h.append
    · rfl
    · exact fun _ => nofun
    · cases answer with
      | ok a => exact nofun
      | error e => exact hquiet
  | getUsageRecords | resolveAuth | markUnavailable | write => exact h.append rfl (fun _ => nofun) nofun

theorem Open.asks {i : Nat} (h : r.Open i log) {α : Type} {p : ChatProg α} (hp : AsksQuietly p) :
    Prog.Holds (Prog.logs ChatQuery ChatAnswer) (fun _ => r.Open i) (fun _ => r.Open i) p log := by
  apply Prog.Holds.mono (hp.holds _ h)
  · exact fun _ _ hopen => hopen.2
  · exact fun _ _ hopen => hopen
  · rintro q hq log a _ rfl hopen
    exact hopen.quiet hq a

section Asks

theorem asks_ask {query : ChatQuery} (h : Quiet query) : AsksQuietly (ask query) :=
  (Prog.Asks.call h).mono (fun _ _ => trivial) fun _ _ => trivial

theorem asks_pure {α : Type} (a : α) : AsksQuietly (pure a : ChatProg α) := trivial

theorem asks_bind {α β : Type} {p : ChatProg α} {f : α → ChatProg β} (hp : AsksQuietly p)
    (hf : ∀ a, AsksQuietly (f a)) : AsksQuietly (p >>= f) := Prog.Safe.bind hp fun a _ => hf a

theorem asks_ofExcept {α : Type} (x : Except Thrown α) :
    AsksQuietly (Prog.ofExcept x) := Prog.Safe.ofExcept x

theorem asks_write (output : Output) : AsksQuietly (write output) := asks_ask trivial

theorem asks_markUnavailable (i : Nat) (auth : Option RequestAuth) (error : Reported) :
    AsksQuietly (markUnavailable i auth error) := by
  unfold markUnavailable
  split
  · split
    · exact asks_bind (asks_ask trivial) fun marked => asks_ofExcept marked
    · exact asks_pure ()
  · exact asks_pure ()

variable (r)

theorem asks_recordUsage (h : record.status ≠ .success) : AsksQuietly (r.recordUsage record) := by
  unfold recordUsage
  split
  · exact asks_bind (asks_ask h) fun recorded => asks_ofExcept recorded
  · exact asks_pure ()

theorem asks_evaluateChatRouteBudget (i : Nat) (route : ResolvedPiModelRoute) :
    AsksQuietly (r.evaluateChatRouteBudget i route) := by
  unfold evaluateChatRouteBudget readUsageRecords
  split
  · exact asks_pure none
  · apply asks_bind
    · split
      · exact asks_bind (asks_ask trivial) fun records => asks_ofExcept records
      · exact asks_pure []
    · exact fun usage => asks_pure _

variable (i : Nat) (route : ResolvedPiModelRoute) (canFallback : Bool) (auth : Option RequestAuth)
  (attemptErrors : List AttemptError) (visibleChunkSent : Bool)

theorem asks_blockAttempt (status : BudgetStatus) :
    AsksQuietly (r.blockAttempt i route canFallback attemptErrors status) := by
  apply asks_bind (r.asks_recordUsage (by exact nofun))
  intro _
  split
  · exact asks_pure _
  · exact asks_bind (asks_write _) fun _ => asks_pure _

theorem asks_noteFailure (fallback : AttemptFallbackDecision) (error : Thrown) :
    AsksQuietly (r.noteFailure i route fallback auth error) :=
  asks_bind (asks_markUnavailable i auth _) fun _ => r.asks_recordUsage (by exact nofun)

theorem asks_catchError (error : Thrown) :
    AsksQuietly (r.catchError i route canFallback auth attemptErrors error) :=
  asks_bind (r.asks_noteFailure i route auth _ error) fun _ => asks_pure _

theorem asks_writeStreamFailure (message : String) : AsksQuietly (writeStreamFailure message) :=
  asks_bind (asks_write _) fun _ => asks_bind (asks_write _) fun _ => asks_bind (asks_write _) fun _ =>
    asks_pure _

theorem asks_writeRoutedFailureJson (message : String) :
    AsksQuietly (writeRoutedFailureJson message attemptErrors) :=
  asks_bind (asks_write _) fun _ => asks_pure _

theorem asks_catchStreamError (error : Thrown) :
    AsksQuietly (r.catchStreamError i route canFallback auth attemptErrors visibleChunkSent error) := by
  apply asks_bind (r.asks_noteFailure i route auth _ error)
  intro _
  split
  · exact asks_writeStreamFailure _
  · split
    · exact asks_pure _
    · exact asks_writeRoutedFailureJson _ _

theorem asks_unterminated :
    AsksQuietly (r.unterminated i route canFallback auth attemptErrors visibleChunkSent) := by
  apply asks_bind
  · apply Prog.Asks.protect
    exact asks_bind (asks_markUnavailable i auth _) fun _ => r.asks_recordUsage (by exact nofun)
  · intro result
    cases result with
    | error error => exact r.asks_catchStreamError i route canFallback auth _ visibleChunkSent error
    | ok _ =>
      show AsksQuietly (if _ then _ else if _ then _ else _)
      split
      · exact asks_pure _
      · split
        · exact asks_writeStreamFailure _
        · exact asks_writeRoutedFailureJson _ _

theorem asks_noteStreamError (fallback : AttemptFallbackDecision) (aborted : Bool)
    (error : AssistantMessage) (message : String) :
    AsksQuietly (r.noteStreamError i route fallback auth aborted error message) := by
  cases aborted with
  | true => exact asks_bind (asks_pure ()) fun _ => r.asks_recordUsage (by exact nofun)
  | false => exact asks_bind (asks_markUnavailable i auth _) fun _ => r.asks_recordUsage (by exact nofun)

theorem asks_streamError (aborted : Bool) (error : AssistantMessage) :
    AsksQuietly (r.streamError i route canFallback auth attemptErrors visibleChunkSent aborted error) := by
  apply asks_bind (Prog.Asks.protect (r.asks_noteStreamError i route auth _ aborted error _))
  intro result
  cases result with
  | error thrown => exact r.asks_catchStreamError i route canFallback auth _ visibleChunkSent thrown
  | ok _ =>
    show AsksQuietly (if _ then _ else _)
    split
    · exact asks_writeStreamFailure _
    · show AsksQuietly (if _ then _ else if _ then _ else _)
      split
      · exact asks_pure _
      · split
        · exact asks_writeRoutedFailureJson _ _
        · exact r.asks_unterminated i route canFallback auth _ visibleChunkSent

theorem asks_noteCompletion {assistant : AssistantMessage} (h : statusOf assistant ≠ .success) :
    AsksQuietly (r.noteCompletion i route auth assistant) := by
  apply asks_bind
  · unfold updateAttemptConnectionState
    split
    next hsuccess => exact absurd hsuccess h
    next => exact asks_markUnavailable i auth _
    next => exact asks_pure ()
  · exact fun _ => r.asks_recordUsage h

theorem asks_writeRoleChunk : AsksQuietly (writeRoleChunk route visibleChunkSent) := by
  unfold writeRoleChunk
  split
  · exact asks_pure ()
  · exact asks_bind (asks_write _) fun _ => asks_write _

theorem asks_streamEvents (broken : Option Thrown) {events : List StreamEvent}
    (h : finishes events = false) :
    AsksQuietly (r.streamEvents i route canFallback auth attemptErrors broken visibleChunkSent events) := by
  induction events generalizing visibleChunkSent with
  | nil =>
    unfold streamEvents
    cases broken with
    | none => exact r.asks_unterminated i route canFallback auth attemptErrors visibleChunkSent
    | some error => exact r.asks_catchStreamError i route canFallback auth attemptErrors visibleChunkSent error
  | cons event events ih =>
    cases event with
    | textDelta delta =>
      apply asks_bind (asks_writeRoleChunk route visibleChunkSent)
      exact fun _ => asks_bind (asks_write _) fun _ => ih true h
    | toolcallEnd id name arguments =>
      apply asks_bind (asks_writeRoleChunk route visibleChunkSent)
      exact fun _ => asks_bind (asks_write _) fun _ => ih true h
    | done message => cases h
    | error aborted error =>
      exact r.asks_streamError i route canFallback auth attemptErrors visibleChunkSent aborted error
    | other => exact ih visibleChunkSent h

end Asks

/-! ## Writes -/

def IsWrite (query : ChatQuery) : Prop := ∃ output, query = .write output

/-- A program that only writes to the response, and ends the handler. -/
abbrev WritesEnd (p : ChatProg LoopStep) : Prop := Prog.Asks IsWrite (· = .returned) p

/-- A program that only writes to the response. -/
abbrev Writes (p : ChatProg Unit) : Prop := Prog.Asks IsWrite (fun _ => True) p

theorem writes_write (output : Output) : Writes (write output) :=
  (Prog.Asks.call ⟨output, rfl⟩).mono (fun _ _ => trivial) fun _ _ => trivial

theorem writes_holds {α : Type} {R : α → Prop} {p : ChatProg α} (hp : Prog.Asks IsWrite R p)
    {I : List Asked → Prop} (hI : ∀ log output, I log → I (log ++ [⟨.write output, ()⟩])) (h : I log) :
    Prog.Holds (Prog.logs ChatQuery ChatAnswer) (fun a log => R a ∧ I log) (fun _ => I) p log := by
  apply Prog.Asks.holds _ hp h
  rintro _ ⟨output, rfl⟩ log ⟨⟩ _ rfl h
  exact hI log output h

theorem Won.write {i : Nat} {visible : Bool} (h : r.Won i visible log) (output : Output) :
    r.Won i visible (log ++ [⟨.write output, ()⟩]) where
  successful j := by
    rw [has_append, h.successful j]
    exact or_iff_left nofun
  shown := by
    rw [has_append, h.shown]
    exact or_iff_left nofun
  final := final_append.2 ⟨h.final, fun _ _ => nofun⟩
  holds := r.bookkeepingHolds_append.2 ⟨h.holds, nofun⟩

theorem writes_writeRoleChunk (route : ResolvedPiModelRoute) (visibleChunkSent : Bool) :
    Writes (writeRoleChunk route visibleChunkSent) := by
  unfold writeRoleChunk
  split
  · trivial
  · exact Prog.Safe.bind (writes_write _) fun _ _ => writes_write _

theorem writesEnd_write (output : Output) {p : ChatProg LoopStep} (hp : WritesEnd p) :
    WritesEnd (write output >>= fun _ => p) := Prog.Safe.bind (writes_write output) fun _ _ => hp

theorem writesEnd_writeStreamFailure (message : String) : WritesEnd (writeStreamFailure message) :=
  writesEnd_write _ (writesEnd_write _ (writesEnd_write _ rfl))

theorem writesEnd_writeDone (route : ResolvedPiModelRoute) (visibleChunkSent : Bool)
    (message : AssistantMessage) : WritesEnd (writeDone route visibleChunkSent message) :=
  Prog.Safe.bind (writes_writeRoleChunk route visibleChunkSent) fun _ _ =>
    writesEnd_write _ (writesEnd_write _ (writesEnd_write _ rfl))

/-! ## The bookkeeping of a success -/

/-- The auth has a hook that marks the connection. -/
def marks (auth : Option RequestAuth) : Bool := auth.any RequestAuth.markUnavailable

variable (r) in
/-- Attempt `i` has succeeded, and its bookkeeping has thrown. -/
structure Threw (i : Nat) (visible : Bool) (auth : Option RequestAuth) (log : List Asked) :
    Prop where
  successful : Has Asked.succeeds log i
  final : Final log
  holds : r.BookkeepingHolds log ↔ ¬ (marks auth = true ∨ r.hasUsageStore = true ∨
    visible = false ∧ r.Passes (i + 1) (r.plan.routes.drop (i + 1)))

section Bookkeeping
variable {i : Nat} {visible : Bool} {auth : Option RequestAuth}

theorem Won.cleared (h : r.Won i visible log) (auth : RequestAuth) :
    r.Won i visible (log ++ [⟨.clearUnavailable i auth, .ok ()⟩]) where
  successful j := by
    rw [has_append, h.successful j]
    exact or_iff_left nofun
  shown := by
    rw [has_append, h.shown]
    exact or_iff_left nofun
  final := final_append.2 ⟨h.final, fun _ _ => nofun⟩
  holds := r.bookkeepingHolds_append.2 ⟨h.holds, nofun⟩

theorem Won.recorded (h : r.Won i visible log) (hsuccess : record.status = .success) :
    r.Won i visible (log ++ [⟨.recordUsage record, .ok ()⟩]) where
  successful j := by
    rw [has_append, h.successful j]
    exact or_iff_left nofun
  shown := by
    rw [has_append, h.shown]
    exact or_iff_left nofun
  final := by
    refine final_append.2 ⟨h.final, ?_⟩
    rintro j - ⟨-, herror⟩
    rw [hsuccess] at herror
    cases herror
  holds := r.bookkeepingHolds_append.2 ⟨h.holds, nofun⟩

theorem Won.clearThrew (h : r.Won i visible log) (auth : RequestAuth) (error : Thrown) :
    r.Threw i visible (some auth) (log ++ [⟨.clearUnavailable i auth, .error error⟩]) where
  successful := has_append.2 (.inl ((h.successful i).2 rfl))
  final := final_append.2 ⟨h.final, fun _ _ => nofun⟩
  holds := by
    have hharms : r.Harms log ⟨.clearUnavailable i auth, .error error⟩ ↔
        marks (some auth) = true ∨ r.hasUsageStore = true ∨
          visible = false ∧ r.Passes (i + 1) (r.plan.routes.drop (i + 1)) := by
      show (_ ∨ _ ∨ ¬ Has Asked.shows log i ∧ _) ↔ _
      rw [h.shown, Bool.not_eq_true]
      rfl
    rw [bookkeepingHolds_append, hharms]
    exact and_iff_right h.holds

theorem Won.recordThrew (h : r.Won i visible log) (hstore : r.hasUsageStore = true)
    (hsuccess : record.status = .success) (auth : Option RequestAuth) (error : Thrown) :
    r.Threw i visible auth (log ++ [⟨.recordUsage record, .error error⟩]) where
  successful := has_append.2 (.inl ((h.successful i).2 rfl))
  final := by
    refine final_append.2 ⟨h.final, ?_⟩
    rintro j - ⟨-, herror⟩
    rw [hsuccess] at herror
    cases herror
  holds := by
    have hharms : r.Harms log ⟨.recordUsage record, .error error⟩ := hsuccess
    rw [bookkeepingHolds_append]
    constructor
    · exact fun hb => absurd hharms hb.2
    · exact fun hb => absurd (.inr (.inl hstore)) hb

theorem Won.bookkeeping (h : r.Won i visible log) (hsuccess : record.status = .success) :
    Prog.Holds (Prog.logs ChatQuery ChatAnswer) (fun _ => r.Won i visible)
      (fun _ => r.Threw i visible auth) (clearUnavailable i auth >>= fun _ => r.recordUsage record) log := by
  apply Prog.Holds.bind (R := fun _ => r.Won i visible)
  · unfold clearUnavailable
    split
    next auth =>
      split
      · rintro (error | _) _ rfl
        · exact h.clearThrew auth error
        · exact h.cleared auth
      · exact h
    next => exact h
  · intro _ log h
    unfold recordUsage
    split
    next hstore =>
      rintro (error | _) _ rfl
      · exact h.recordThrew hstore hsuccess auth error
      · exact h.recorded hsuccess
    next => exact h

theorem Threw.noteFailure (h : r.Threw i visible auth log)
    (hfollows : marks auth = true ∨ r.hasUsageStore = true) (route : ResolvedPiModelRoute)
    (fallback : AttemptFallbackDecision) (error : Thrown) :
    Prog.Holds (Prog.logs ChatQuery ChatAnswer) (fun _ => r.Doomed) (fun _ => r.Doomed)
      (r.noteFailure i route fallback auth error) log := by
  have hharmed : ¬ r.BookkeepingHolds log := by
    rw [h.holds, not_not]
    exact hfollows.elim .inl fun hstore => .inr (.inl hstore)
  have hdoomed : ∀ x : Asked, x.Undoes i → r.Doomed (log ++ [x]) := by
    intro x hx
    constructor
    · exact fun hf => (final_append.1 hf).2 i h.successful hx
    · exact fun hb => hharmed (r.bookkeepingHolds_append.1 hb).1
  by_cases hmarks : marks auth = true
  · obtain ⟨auth', rfl, hmark⟩ := (Option.any_eq_true _ _).1 hmarks
    apply Prog.Holds.bind (R := fun _ => r.Doomed)
    · unfold markUnavailable
      simp only [hmark, if_true]
      rintro answer _ rfl
      refine (hdoomed _ ?_).rest (Prog.ofExcept answer)
      exact rfl
    · exact fun _ _ hd => hd.rest _
  · have hstore : r.hasUsageStore = true := hfollows.resolve_left hmarks
    have hpure : markUnavailable i auth (.thrown error) = pure () := by
      unfold markUnavailable
      cases auth with
      | none => rfl
      | some auth => exact if_neg hmarks
    unfold ChatCompletionRequest.noteFailure
    rw [hpure]
    show Prog.Holds _ _ _ (r.recordUsage _) log
    unfold recordUsage
    rw [if_pos hstore]
    rintro answer _ rfl
    refine (hdoomed _ ?_).rest (Prog.ofExcept answer)
    exact ⟨rfl, rfl⟩

theorem noteFailure_eq (hmarks : marks auth = false) (hstore : r.hasUsageStore = false)
    (route : ResolvedPiModelRoute) (fallback : AttemptFallbackDecision) (error : Thrown) :
    r.noteFailure i route fallback auth error = pure () := by
  have hpure : markUnavailable i auth (.thrown error) = pure () := by
    unfold markUnavailable
    cases auth with
    | none => rfl
    | some auth =>
      have hmark : auth.markUnavailable = false := hmarks
      simp only [hmark, Bool.false_eq_true, if_false]
  unfold ChatCompletionRequest.noteFailure recordUsage
  rw [hpure, hstore]
  rfl

end Bookkeeping

/-! ## The end of an attempt -/

theorem passes_cons {j : Nat} {route : ResolvedPiModelRoute} {routes : List ResolvedPiModelRoute} :
    r.Passes j (route :: routes) ↔ ¬ r.Blocked j route ∨ r.Passes (j + 1) routes := by
  unfold Passes
  rw [List.zipIdx_cons]
  simp only [List.mem_cons, or_and_right, exists_or, exists_eq_left]

theorem not_passes_nil (j : Nat) : ¬ r.Passes j [] := by
  rintro ⟨entry, hentry, -⟩
  cases hentry

variable (r) in
/-- Where the handler is when the body of the loop ends. -/
def AttemptEnd (i : Nat) : LoopStep → List Asked → Prop
  | .next _, log => r.Open (i + 1) log ∨ r.Doomed log ∨
      r.Hanging (i + 1) (r.plan.routes.drop (i + 1)) log
  | _, log => r.Fair log

section Ends
variable {i : Nat} {visible : Bool} {auth : Option RequestAuth}

theorem Open.attemptEnd (h : r.Open (i + 1) log) (step : LoopStep) : r.AttemptEnd i step log := by
  cases step with
  | next attemptErrors => exact .inl h
  | stop attemptErrors => exact h.fair
  | returned => exact h.fair

theorem Doomed.attemptEnd (h : r.Doomed log) (step : LoopStep) : r.AttemptEnd i step log := by
  cases step with
  | next attemptErrors => exact .inr (.inl h)
  | stop attemptErrors => exact h.fair
  | returned => exact h.fair

theorem Open.asksEnd (h : r.Open (i + 1) log) {p : ChatProg LoopStep} (hp : AsksQuietly p) :
    Prog.Holds (Prog.logs ChatQuery ChatAnswer) (r.AttemptEnd i) (fun _ => r.Fair) p log := by
  apply (h.asks hp).mono
  · exact fun step _ hopen => hopen.attemptEnd step
  · exact fun _ _ hopen => hopen.fair

theorem fair_writesEnd (h : r.Fair log) {p : ChatProg LoopStep} (hp : WritesEnd p) :
    Prog.Holds (Prog.logs ChatQuery ChatAnswer) (r.AttemptEnd i) (fun _ => r.Fair) p log := by
  apply (writes_holds (I := r.Fair) hp (fun _ output hfair => fair_write hfair output) h).mono
  · rintro step log ⟨rfl, hfair⟩
    exact hfair
  · exact fun _ _ hfair => hfair

theorem Doomed.restEnd (h : r.Doomed log) (p : ChatProg LoopStep) :
    Prog.Holds (Prog.logs ChatQuery ChatAnswer) (r.AttemptEnd i) (fun _ => r.Fair) p log := by
  apply (h.rest p).mono
  · exact fun step _ hdoomed => hdoomed.attemptEnd step
  · exact fun _ _ hdoomed => hdoomed.fair

theorem Threw.fair (h : r.Threw i visible auth log) (hmarks : marks auth = false)
    (hstore : r.hasUsageStore = false)
    (hlast : visible = true ∨ r.plan.routes.drop (i + 1) = []) : r.Fair log := by
  have hholds : r.BookkeepingHolds log := by
    rw [h.holds, hmarks, hstore]
    rintro (hm | hs | ⟨hvisible, hpasses⟩)
    · cases hm
    · cases hs
    · obtain hv | hnil := hlast
      · rw [hv] at hvisible
        cases hvisible
      · rw [hnil] at hpasses
        exact not_passes_nil _ hpasses
  exact ⟨fun _ => hholds, fun _ => h.final⟩

theorem Threw.hanging (h : r.Threw i false auth log) (hmarks : marks auth = false)
    (hstore : r.hasUsageStore = false) : r.Hanging (i + 1) (r.plan.routes.drop (i + 1)) log where
  noStore := hstore
  successful := ⟨i, Nat.lt_succ_self i, h.successful⟩
  final := h.final
  holds := by
    rw [h.holds, hmarks, hstore]
    simp only [Bool.false_eq_true, true_and, false_or]

variable {canFallback : Bool} (hcan : canFallback = !(r.plan.routes.drop (i + 1)).isEmpty)
include hcan

theorem Threw.catchError (h : r.Threw i false auth log) (route : ResolvedPiModelRoute)
    (attemptErrors : List AttemptError) (error : Thrown) :
    Prog.Holds (Prog.logs ChatQuery ChatAnswer) (r.AttemptEnd i) (fun _ => r.Fair)
      (r.catchError i route canFallback auth attemptErrors error) log := by
  by_cases hfollows : marks auth = true ∨ r.hasUsageStore = true
  · apply Prog.Holds.bind (R := fun _ => r.Doomed)
    · exact (h.noteFailure hfollows route _ error).mono (fun _ _ hd => hd) fun _ _ hd => hd.fair
    · exact fun _ _ hd => hd.restEnd _
  · rw [not_or, Bool.not_eq_true, Bool.not_eq_true] at hfollows
    unfold ChatCompletionRequest.catchError
    simp only [noteFailure_eq hfollows.1 hfollows.2, getAttemptFallbackDecision_shouldFallback]
    show r.AttemptEnd i (if _ then _ else _) log
    cases hroutes : r.plan.routes.drop (i + 1) with
    | nil =>
      rw [hcan, hroutes]
      exact h.fair hfollows.1 hfollows.2 (.inr hroutes)
    | cons next routes =>
      rw [hcan, hroutes]
      exact .inr (.inr (h.hanging hfollows.1 hfollows.2))

theorem Threw.catchStreamError (h : r.Threw i visible auth log) (route : ResolvedPiModelRoute)
    (attemptErrors : List AttemptError) (error : Thrown) :
    Prog.Holds (Prog.logs ChatQuery ChatAnswer) (r.AttemptEnd i) (fun _ => r.Fair)
      (r.catchStreamError i route canFallback auth attemptErrors visible error) log := by
  by_cases hfollows : marks auth = true ∨ r.hasUsageStore = true
  · apply Prog.Holds.bind (R := fun _ => r.Doomed)
    · exact (h.noteFailure hfollows route _ error).mono (fun _ _ hd => hd) fun _ _ hd => hd.fair
    · exact fun _ _ hd => hd.restEnd _
  · rw [not_or, Bool.not_eq_true, Bool.not_eq_true] at hfollows
    unfold ChatCompletionRequest.catchStreamError
    simp only [noteFailure_eq hfollows.1 hfollows.2, getAttemptFallbackDecision_shouldFallback]
    show Prog.Holds _ _ _ (if _ then _ else if _ then _ else _) log
    cases visible with
    | true => exact fair_writesEnd (h.fair hfollows.1 hfollows.2 (.inl rfl)) (writesEnd_writeStreamFailure _)
    | false =>
      cases hroutes : r.plan.routes.drop (i + 1) with
      | nil =>
        rw [hcan, hroutes]
        exact fair_writesEnd (h.fair hfollows.1 hfollows.2 (.inr hroutes)) (writesEnd_write _ rfl)
      | cons next routes =>
        rw [hcan, hroutes]
        exact .inr (.inr (h.hanging hfollows.1 hfollows.2))

/-! ### The two handlers -/

omit hcan in
theorem Open.won (h : r.Open i log) (hsucceeds : x.succeeds = some i)
    (hshows : ∀ j, x.shows = some j ↔ j = i ∧ visible = true) (hharms : ¬ r.Harms log x) :
    r.Won i visible (log ++ [x]) where
  successful j := by
    rw [has_append, hsucceeds, or_iff_right (h.unsuccessful j)]
    exact ⟨fun heq => (Option.some.inj heq).symm, fun heq => heq ▸ rfl⟩
  shown := by
    rw [has_append, hshows, or_iff_right fun hshown => lt_irrefl i (h.shown i hshown)]
    exact and_iff_right rfl
  final := final_append.2 ⟨h.final, fun j hj => absurd hj (h.unsuccessful j)⟩
  holds := r.bookkeepingHolds_append.2 ⟨h.holds, hharms⟩

omit hcan in
theorem Open.executeChatCompletion (h : r.Open i log) (route : ResolvedPiModelRoute) :
    Prog.Holds (Prog.logs ChatQuery ChatAnswer)
      (fun result log => if statusOf result.1 = .success then r.Won i false log else r.Open (i + 1) log)
      (fun _ => r.Open (i + 1)) (executeChatCompletion i route) log := by
  rintro resolved _ rfl
  have h := @Open.quiet _ _ _ h (.resolveAuth i route.model) trivial resolved
  cases resolved with
  | error error => exact h.mono (Nat.le_succ i)
  | ok auth =>
    rintro completed _ rfl
    cases completed with
    | error error =>
      apply (h.append (x := ⟨.complete i route.model, .error error⟩) rfl _ _).mono (Nat.le_succ i)
      · exact fun _ => nofun
      · exact nofun
    | ok assistant =>
      show if statusOf assistant = .success then _ else _
      split
      next hsuccess =>
        apply h.won (x := ⟨.complete i route.model, .ok assistant⟩)
        · exact if_pos hsuccess
        · exact fun j => ⟨nofun, fun hv => absurd hv.2 nofun⟩
        · exact nofun
      next hfailed =>
        apply (h.append (x := ⟨.complete i route.model, .ok assistant⟩) _ _ _).mono (Nat.le_succ i)
        · exact if_neg hfailed
        · exact fun _ => nofun
        · exact nofun

theorem Open.attempt (h : r.Open i log) (route : ResolvedPiModelRoute)
    (attemptErrors : List AttemptError) :
    Prog.Holds (Prog.logs ChatQuery ChatAnswer) (r.AttemptEnd i) (fun _ => r.Fair)
      (r.attempt i route canFallback attemptErrors) log := by
  apply Prog.Holds.bind (Prog.Holds.protect (h.executeChatCompletion route))
  rintro (error | ⟨assistant, auth⟩) log ⟨hok, herror⟩
  · exact (herror error rfl).asksEnd
      (r.asks_catchError i route canFallback none attemptErrors error)
  · have hcompleted := hok _ rfl
    simp only at hcompleted ⊢
    split at hcompleted
    next hsuccess =>
      have hbook : Prog.Holds (Prog.logs ChatQuery ChatAnswer) (fun _ => r.Won i false)
          (fun _ => r.Threw i false auth) (r.noteCompletion i route auth assistant) log := by
        unfold noteCompletion
        rw [hsuccess]
        exact hcompleted.bookkeeping rfl
      apply Prog.Holds.bind (Prog.Holds.protect hbook)
      rintro (error | _) log ⟨hok, herror⟩
      · exact (herror error rfl).catchError hcan route attemptErrors error
      · apply fair_writesEnd (hok () rfl).fair
        unfold concludeAttempt
        rw [if_pos hsuccess]
        exact writesEnd_write _ rfl
    next hfailed =>
      apply hcompleted.asksEnd
      apply asks_bind (Prog.Asks.protect (r.asks_noteCompletion i route auth hfailed))
      rintro (error | _)
      · exact r.asks_catchError i route canFallback auth attemptErrors error
      · unfold concludeAttempt
        rw [if_neg hfailed]
        exact asks_pure _

theorem Won.streamEvents (h : r.Won i visible log) (route : ResolvedPiModelRoute)
    (auth : Option RequestAuth)
    (attemptErrors : List AttemptError) (broken : Option Thrown) {visibleChunkSent : Bool}
    {events : List StreamEvent} (hfinishes : finishes events = true)
    (hvisible : visible = (visibleChunkSent || showsChunk events)) :
    Prog.Holds (Prog.logs ChatQuery ChatAnswer) (r.AttemptEnd i) (fun _ => r.Fair)
      (r.streamEvents i route canFallback auth attemptErrors broken visibleChunkSent events) log := by
  have hwrites : ∀ {p : ChatProg Unit}, Writes p → ∀ {log}, r.Won i visible log →
      Prog.Holds (Prog.logs ChatQuery ChatAnswer) (fun _ => r.Won i visible) (fun _ => r.Fair) p log := by
    intro p hp log h
    apply (writes_holds (I := r.Won i visible) hp (fun _ output hwon => hwon.write output) h).mono
    · exact fun _ _ hwon => hwon.2
    · exact fun _ _ hwon => hwon.fair
  induction events generalizing visibleChunkSent log with
  | nil => cases hfinishes
  | cons event events ih =>
    -- a chunk that is written makes the rest of the events visible
    have hchunk : ∀ delta, visible = (true || showsChunk events) → finishes events = true →
        Prog.Holds (Prog.logs ChatQuery ChatAnswer) (r.AttemptEnd i) (fun _ => r.Fair)
          (do
            writeRoleChunk route visibleChunkSent
            ChatCompletionRequest.write (.chunk route delta none)
            r.streamEvents i route canFallback auth attemptErrors broken true events) log := by
      intro delta hv hf
      apply (hwrites (writes_writeRoleChunk route visibleChunkSent) h).bind
      intro _ log h
      apply (hwrites (writes_write _) h).bind
      exact fun _ log h => ih h hf hv
    cases event with
    | textDelta delta =>
      apply hchunk (.content delta) _ hfinishes
      rw [hvisible]
      exact Bool.or_true _
    | toolcallEnd id name arguments =>
      apply hchunk (.toolCall id name arguments) _ hfinishes
      rw [hvisible]
      exact Bool.or_true _
    | done message =>
      obtain rfl : visible = visibleChunkSent := hvisible.trans (Bool.or_false _)
      have hbook : Prog.Holds (Prog.logs ChatQuery ChatAnswer) (fun _ => r.Won i visible)
          (fun _ => r.Threw i visible auth) (r.noteDone i route auth message) log := h.bookkeeping rfl
      apply Prog.Holds.bind (Prog.Holds.protect hbook)
      rintro (error | _) log ⟨hok, herror⟩
      · exact (herror error rfl).catchStreamError hcan route attemptErrors error
      · exact fair_writesEnd (hok () rfl).fair (writesEnd_writeDone route visible message)
    | error aborted error => cases hfinishes
    | other => exact ih h hfinishes hvisible

omit hcan in
theorem Open.opened (h : r.Open i log) (model : Router.PiModelReference) (stream : EventStream) :
    (finishes stream.events = true →
      r.Won i (showsChunk stream.events) (log ++ [⟨.openStream i model, .ok stream⟩])) ∧
    (finishes stream.events = false → r.Open (i + 1) (log ++ [⟨.openStream i model, .ok stream⟩])) := by
  constructor
  · intro hfinishes
    apply h.won
    · exact if_pos hfinishes
    · intro j
      show (if showsChunk stream.events then some i else none) = some j ↔ _
      cases hshows : showsChunk stream.events with
      | true => simp [eq_comm]
      | false => simp
    · exact nofun
  · intro hfinishes
    apply (h.mono (Nat.le_succ i)).append
    · exact if_neg (by rw [hfinishes]; exact nofun)
    · intro j
      show (if showsChunk stream.events then some i else none) = some j → _
      split
      · rintro ⟨⟩
        exact Nat.lt_succ_self i
      · exact nofun
    · exact nofun

theorem Open.streamAttempt (h : r.Open i log) (route : ResolvedPiModelRoute)
    (attemptErrors : List AttemptError) :
    Prog.Holds (Prog.logs ChatQuery ChatAnswer) (r.AttemptEnd i) (fun _ => r.Fair)
      (r.streamAttempt i route canFallback attemptErrors) log := by
  rintro resolved _ rfl
  have h := @Open.quiet _ _ _ h (.resolveAuth i route.model) trivial resolved
  cases resolved with
  | error error =>
    exact (h.mono (Nat.le_succ i)).asksEnd
      (r.asks_catchStreamError i route canFallback none attemptErrors false error)
  | ok auth =>
    rintro opened _ rfl
    cases opened with
    | error error =>
      have hopen :=
        (h.append (x := ⟨.openStream i route.model, .error error⟩) rfl (fun _ => nofun) nofun).mono
        (Nat.le_succ i)
      exact hopen.asksEnd (r.asks_catchStreamError i route canFallback auth attemptErrors false error)
    | ok stream =>
      show Prog.Holds _ _ _ (r.streamEvents i route canFallback auth attemptErrors stream.broken false
        stream.events) _
      have hopened := h.opened route.model stream
      cases hfinishes : finishes stream.events with
      | true =>
        exact (hopened.1 hfinishes).streamEvents hcan route auth attemptErrors stream.broken hfinishes
          (Bool.false_or _).symm
      | false =>
        apply (hopened.2 hfinishes).asksEnd
        exact r.asks_streamEvents i route canFallback auth attemptErrors false stream.broken hfinishes

theorem Open.tryRoute (h : r.Open i log) (route : ResolvedPiModelRoute)
    (attemptErrors : List AttemptError) :
    Prog.Holds (Prog.logs ChatQuery ChatAnswer) (r.AttemptEnd i) (fun _ => r.Fair)
      (r.tryRoute i route canFallback attemptErrors) log := by
  have hattempt : ∀ {log}, r.Open i log →
      Prog.Holds (Prog.logs ChatQuery ChatAnswer) (r.AttemptEnd i)
      (fun _ => r.Fair) (if r.stream then r.streamAttempt i route canFallback attemptErrors
        else r.attempt i route canFallback attemptErrors) log := by
    intro log h
    split
    · exact h.streamAttempt hcan route attemptErrors
    · exact h.attempt hcan route attemptErrors
  apply Prog.Holds.bind (R := fun _ => r.Open i)
  · exact (h.asks (r.asks_evaluateChatRouteBudget i route)).mono (fun _ _ hopen => hopen)
      fun _ _ hopen => hopen.fair
  · intro status log h
    cases status with
    | none => exact hattempt h
    | some status =>
      show Prog.Holds _ _ _ (if _ then _ else _) log
      split
      · exact (h.mono (Nat.le_succ i)).asksEnd
          (r.asks_blockAttempt i route canFallback attemptErrors status)
      · exact hattempt h

end Ends

/-! ## Behind a success that threw -/

section Hanging
variable {j : Nat} {route : ResolvedPiModelRoute} {routes : List ResolvedPiModelRoute}

theorem evaluateChatRouteBudget_eq (hstore : r.hasUsageStore = false) :
    r.evaluateChatRouteBudget j route =
      pure (r.budgetSettings.map fun settings => r.budgetStatus settings j route []) := by
  unfold evaluateChatRouteBudget readUsageRecords
  rw [hstore]
  cases r.budgetSettings with
  | none => rfl
  | some settings => rfl

theorem pure_bind_eq {α β : Type} (a : α) (f : α → ChatProg β) : (pure a >>= f) = f a := rfl

theorem tryRoute_eq_of_blocked (hstore : r.hasUsageStore = false) (hblocked : r.Blocked j route)
    (canFallback : Bool) (attemptErrors : List AttemptError) :
    ∃ status attemptErrors', r.tryRoute j route canFallback attemptErrors =
      if canFallback then pure (.next attemptErrors')
      else write (.json 402 (.budgetLimit status attemptErrors')) >>= fun _ => pure .returned := by
  obtain ⟨settings, hsettings, hblock⟩ := hblocked
  refine ⟨r.budgetStatus settings j route [], attemptErrors ++
    [toBudgetAttemptError route (r.budgetStatus settings j route []) canFallback], ?_⟩
  unfold ChatCompletionRequest.tryRoute
  rw [evaluateChatRouteBudget_eq hstore, hsettings]
  rw [Option.map_some, pure_bind_eq]
  dsimp only
  rw [if_pos hblock]
  unfold blockAttempt recordBudgetSkippedUsage recordUsage
  rw [hstore]
  rfl

theorem tryRoute_eq_of_passes (hstore : r.hasUsageStore = false) (hpasses : ¬ r.Blocked j route)
    (canFallback : Bool) (attemptErrors : List AttemptError) :
    r.tryRoute j route canFallback attemptErrors =
      if r.stream then r.streamAttempt j route canFallback attemptErrors
      else r.attempt j route canFallback attemptErrors := by
  unfold ChatCompletionRequest.tryRoute
  rw [evaluateChatRouteBudget_eq hstore]
  cases hsettings : r.budgetSettings with
  | none => rfl
  | some settings =>
    rw [Option.map_some, pure_bind_eq]
    dsimp only
    rw [if_neg]
    exact fun hblock => hpasses ⟨settings, hsettings, hblock⟩

theorem Hanging.resolveAuth (h : r.Hanging j (route :: routes) log) (hpasses : ¬ r.Blocked j route)
    (answer : Except Thrown (Option RequestAuth)) :
    r.Doomed (log ++ [⟨.resolveAuth j route.model, answer⟩]) where
  undone hf := by
    obtain ⟨i, hlt, hsucceeds⟩ := h.successful
    exact (final_append.1 hf).2 i hsucceeds hlt
  harmed hb := h.holds.1 (r.bookkeepingHolds_append.1 hb).1 (passes_cons.2 (.inl hpasses))

theorem Hanging.attempt (h : r.Hanging j (route :: routes) log) (hpasses : ¬ r.Blocked j route)
    (canFallback : Bool) (attemptErrors : List AttemptError) :
    Prog.Holds (Prog.logs ChatQuery ChatAnswer) (fun _ => r.Doomed) (fun _ => r.Doomed)
      (if r.stream then r.streamAttempt j route canFallback attemptErrors
        else r.attempt j route canFallback attemptErrors) log := by
  split
  · rintro resolved _ rfl
    exact (h.resolveAuth hpasses resolved).rest _
  · rintro resolved _ rfl
    exact (h.resolveAuth hpasses resolved).rest _

theorem Hanging.blocked (h : r.Hanging j (route :: routes) log) (hblocked : r.Blocked j route) :
    r.Hanging (j + 1) routes log where
  noStore := h.noStore
  successful := by
    obtain ⟨i, hlt, hsucceeds⟩ := h.successful
    exact ⟨i, Nat.lt_succ_of_lt hlt, hsucceeds⟩
  final := h.final
  holds := by
    rw [h.holds, passes_cons, or_iff_right (not_not.2 hblocked)]

theorem Hanging.fair (h : r.Hanging j [] log) : r.Fair log :=
  ⟨fun _ => h.holds.2 (not_passes_nil j), fun _ => h.final⟩

theorem Hanging.attempts (h : r.Hanging j routes log) (attemptErrors : List AttemptError) :
    Prog.Holds (Prog.logs ChatQuery ChatAnswer) (fun _ => r.Fair) (fun _ => r.Fair)
      (r.attempts j routes attemptErrors) log := by
  induction routes generalizing j attemptErrors with
  | nil =>
    rintro _ _ rfl
    exact fair_write h.fair _
  | cons route routes ih =>
    unfold ChatCompletionRequest.attempts
    by_cases hblocked : r.Blocked j route
    · have hrest := h.blocked hblocked
      obtain ⟨status, attemptErrors', htry⟩ :=
        tryRoute_eq_of_blocked h.noStore hblocked (!routes.isEmpty) attemptErrors
      rw [htry]
      cases routes with
      | nil =>
        simp only [List.isEmpty_nil, Bool.not_true, Bool.false_eq_true, if_false]
        rintro _ _ rfl
        exact fair_write hrest.fair _
      | cons next routes => exact ih hrest attemptErrors'
    · rw [tryRoute_eq_of_passes h.noStore hblocked]
      apply Prog.Holds.bind (R := fun _ => r.Doomed)
      · exact (h.attempt hblocked _ attemptErrors).mono (fun _ _ hd => hd) fun _ _ hd => hd.fair
      · exact fun _ _ hd => (hd.rest _).mono (fun _ _ hd => hd.fair) fun _ _ hd => hd.fair

end Hanging

/-! ## Runs -/

theorem Open.attempts {i : Nat} (h : r.Open i log) {routes : List ResolvedPiModelRoute}
    (hroutes : r.plan.routes.drop i = routes) (attemptErrors : List AttemptError) :
    Prog.Holds (Prog.logs ChatQuery ChatAnswer) (fun _ => r.Fair) (fun _ => r.Fair)
      (r.attempts i routes attemptErrors) log := by
  induction routes generalizing i attemptErrors log with
  | nil =>
    rintro _ _ rfl
    exact fair_write h.fair _
  | cons route routes ih =>
    have hdrop : r.plan.routes.drop (i + 1) = routes := by
      rw [← List.drop_drop, hroutes]
      rfl
    unfold ChatCompletionRequest.attempts
    apply Prog.Holds.bind (h.tryRoute (by rw [hdrop]) route attemptErrors)
    intro step log hend
    cases step with
    | next attemptErrors =>
      obtain hopen | hdoomed | hhanging := hend
      · exact ih hopen hdrop attemptErrors
      · exact (hdoomed.rest _).mono (fun _ _ hd => hd.fair) fun _ _ hd => hd.fair
      · rw [hdrop] at hhanging
        exact hhanging.attempts attemptErrors
    | stop attemptErrors =>
      rintro _ _ rfl
      exact fair_write hend _
    | returned => exact hend

theorem open_nil : r.Open 0 [] where
  unsuccessful := by
    rintro j ⟨x, hx, -⟩
    cases hx
  shown := by
    rintro j ⟨x, hx, -⟩
    cases hx
  final pre x post i h := absurd h.symm (List.append_ne_nil_of_right_ne_nil _ (List.cons_ne_nil _ _))
  holds pre x post h := absurd h.symm (List.append_ne_nil_of_right_ne_nil _ (List.cons_ne_nil _ _))

/-- A successful attempt is final in exactly the runs in which no bookkeeping of a success throws with
something to follow it. -/
theorem successful_attempt_final_iff {result : Except Thrown Unit} {log : List Asked}
    (hrun : Prog.Exec (Prog.logs ChatQuery ChatAnswer) r.handleChatCompletion [] result log) :
    Final log ↔ r.BookkeepingHolds log := by
  obtain ⟨hok, herror⟩ := (open_nil.attempts rfl []).sound hrun
  cases result with
  | ok a => exact hok a rfl
  | error e => exact herror e rfl

section Examples

def modelOf (id : String) : Router.PiModelReference where
  provider := "p"
  id
  name := none
  input := none
  cost := none
  contextWindow := none
  reasoning := false

def routeTo (id : String) : ResolvedPiModelRoute where
  route := ⟨"auto:chat", .router, "p", id, none, .router, .router⟩
  model := modelOf id

/-- Two routes, a usage store and no budget settings. -/
def twoRoutes : ChatCompletionRequest where
  plan := ⟨"auto:chat", .router, [routeTo "a", routeTo "b"], some (routeTo "a")⟩
  requestId := "r"
  clientOrigin := none
  stream := false
  hasUsageStore := true
  hasUsageRecords := false
  budgetSettings := none
  messages := "[]"
  requestedTokens := none
  texts := ⟨id, fun _ => none⟩
  beginsAt _ := 0
  checkedAt _ := 0

def answerOf (text : String) : AssistantMessage where
  content := [.text text]
  provider := "p"
  model := "a"
  usage := ⟨0, 0, 0, 0, 0⟩
  stopReason := .stop
  errorMessage := none
  timestamp := 0

def diskFull : Thrown := ⟨"ENOSPC", none, none⟩

/-- Every model answers; the usage store takes a record as `record` says. -/
def answering (record : AttemptRecord → Except Thrown Unit) : (query : ChatQuery) → ChatAnswer query
  | .getUsageRecords => .ok []
  | .resolveAuth _ _ => .ok none
  | .complete _ _ => .ok (answerOf "hi")
  | .openStream _ _ => .ok ⟨[], none⟩
  | .clearUnavailable _ _ => .ok ()
  | .markUnavailable _ _ _ => .ok ()
  | .recordUsage r => record r
  | .write _ => ()

/-- The run in which the collaborators answer so. -/
def runWith (r : ChatCompletionRequest) (record : AttemptRecord → Except Thrown Unit) :
    Except Thrown Unit × List Asked :=
  Prog.runFrom (fun query log => (answering record query, log ++ [⟨query, answering record query⟩])) true
    r.handleChatCompletion []

theorem runWith_exec (r : ChatCompletionRequest) (record : AttemptRecord → Except Thrown Unit) :
    Prog.Exec (Prog.logs ChatQuery ChatAnswer) r.handleChatCompletion [] (runWith r record).1
      (runWith r record).2 := Prog.runFrom_exec (fun _ _ => rfl) true _ []

def successRecord : AttemptRecord :=
  { twoRoutes.attemptRecord 0 (routeTo "a") none .success with usage := some (answerOf "hi").usage }

/-- Where the store takes every record, the first route answers and nothing follows. -/
theorem successful_attempt_final_example : Final (runWith twoRoutes fun _ => .ok ()).2 := by
  apply (successful_attempt_final_iff (runWith_exec twoRoutes _)).2
  have hlog : (runWith twoRoutes fun _ => .ok ()).2 =
      [⟨.resolveAuth 0 (modelOf "a"), .ok none⟩, ⟨.complete 0 (modelOf "a"), .ok (answerOf "hi")⟩,
        ⟨.recordUsage successRecord, .ok ()⟩,
        ⟨.write (.json 200 (.completion (answerOf "hi") (routeTo "a"))), ()⟩] := rfl
  intro pre x post heq
  have hmem : x ∈ (runWith twoRoutes fun _ => .ok ()).2 := by
    rw [heq]
    exact List.mem_append_right _ List.mem_cons_self
  rw [hlog] at hmem
  simp only [List.mem_cons, List.not_mem_nil, or_false] at hmem
  obtain rfl | rfl | rfl | rfl := hmem
  · exact nofun
  · exact nofun
  · exact nofun
  · exact nofun

/-- The store refuses the record of the first attempt's success. -/
def refuseFirst (record : AttemptRecord) : Except Thrown Unit :=
  if record.attemptIndex = 0 ∧ record.status = .success then .error diskFull else .ok ()

/-- The store throws once, and a second model is called. -/
theorem second_model_called : ∃ (result : Except Thrown Unit) (log : List Asked),
    Prog.Exec (Prog.logs ChatQuery ChatAnswer) twoRoutes.handleChatCompletion [] result log ∧
      ⟨.complete 1 (modelOf "b"), .ok (answerOf "hi")⟩ ∈ log ∧ ¬ Final log := by
  refine ⟨_, _, runWith_exec twoRoutes refuseFirst, List.mem_of_getElem? (i := 5) rfl, ?_⟩
  intro hfinal
  have hsuccess : (runWith twoRoutes refuseFirst).2 = (runWith twoRoutes refuseFirst).2.take 1 ++
      ⟨.complete 0 (modelOf "a"), .ok (answerOf "hi")⟩ :: (runWith twoRoutes refuseFirst).2.drop 2 := rfl
  have hnext : ⟨.resolveAuth 1 (modelOf "b"), .ok none⟩ ∈ (runWith twoRoutes refuseFirst).2.drop 2 :=
    List.mem_of_getElem? (i := 2) rfl
  exact hfinal _ _ _ 0 hsuccess rfl _ hnext Nat.zero_lt_one

end Examples

end ChatCompletionRequest

end PieLab.Server
