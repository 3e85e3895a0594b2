import PieLab.Messages

/-
  Automatic recovery of an agent session

  A prompt runs the agent once. While the last reply is an error that a retry or a
  compaction may help with, the session continues the agent. Retries are counted, and a
  compaction after a context overflow is tried once; an error that is not retried sets the
  count back, and only a reply without an error, or a user message, sets the flag back.

  What is proved:
    1. `handlePostAgentRun_budget` — every continuation takes something from the budget.
    2. `automatic_recovery_terminates` — so a prompt ends after `2 * maxRetries + 1` of them.

  Correspondence (TypeScript ↔ Lean), packages/coding-agent/src/core/agent-session.ts:
    `_handleAgentEvent` (the two message events), `_handlePostAgentRun`, `_isRetryableError`,
    `_prepareRetry`, `_checkCompaction`, `_runAutoCompaction`, `_runAgentPrompt` ↔ the same
    `_retryAttempt`, `_overflowRecoveryAttempted`, `_lastAssistantMessage` ↔ `RecoveryState`
  The events for the user interface and the messages of the agent are left out: nothing
  here depends on them but what the host says of a reply (`Reply`, `AgentTurn`).
-/

namespace PieLab.AutoRecovery

/-! ## Replies -/

/-- An assistant message, and what the session finds out about it. -/
structure Reply where
  stopReason : StopReason
  /-- `isContextOverflow(message, contextWindow)` -/
  isContextOverflow : Bool
  /-- `isRetryableAssistantError(message)` -/
  isRetryableAssistantError : Bool
  /-- It came from the model in use. -/
  sameModel : Bool
  /-- It is not newer than the latest compaction. -/
  isFromBeforeCompaction : Bool
  /-- `shouldCompact`, of the tokens counted or estimated. -/
  shouldCompact : Bool
  deriving Repr

/-- One run of the agent, and what is met behind it. -/
structure AgentTurn where
  reply : Reply
  /-- The wait in front of a retry is cut off. -/
  sleepAborted : Bool
  /-- A compaction that is started here is written. -/
  compacts : Bool
  hasQueuedMessages : Bool
  deriving Repr

structure RecoverySettings where
  retryEnabled : Bool
  maxRetries : Nat
  compactionEnabled : Bool
  deriving Repr

structure RecoveryState where
  retryAttempt : Nat := 0
  overflowRecoveryAttempted : Bool := false
  lastAssistantMessage : Option Reply := none
  deriving Repr

/-! ## The session -/

/-- `message_start` of a user message. -/
def userMessageStart (s : RecoveryState) :
    RecoveryState := { s with overflowRecoveryAttempted := false }

/-- `message_end` of an assistant message. -/
def assistantMessageEnd (s : RecoveryState) (reply : Reply) : RecoveryState :=
  if reply.stopReason = .error then { s with lastAssistantMessage := some reply }
  else { retryAttempt := 0, overflowRecoveryAttempted := false, lastAssistantMessage := some reply }

/-- An overflow is left to the compaction. -/
def isRetryableError (reply : Reply) :
    Bool := !reply.isContextOverflow && reply.isRetryableAssistantError

def prepareRetry (settings : RecoverySettings) (turn : AgentTurn) (s : RecoveryState) :
    Bool × RecoveryState :=
  if settings.retryEnabled = false then (false, s)
  else if settings.maxRetries < s.retryAttempt + 1 then (false, s)
  else if turn.sleepAborted then (false, { s with retryAttempt := 0 })
  else (true, { s with retryAttempt := s.retryAttempt + 1 })

/-- Whether the agent is to be continued. -/
def runAutoCompaction (turn : AgentTurn) (willRetry : Bool) : Bool :=
  turn.compacts && (willRetry || turn.hasQueuedMessages)

def checkCompaction (settings : RecoverySettings) (turn : AgentTurn) (s : RecoveryState) :
    Bool × RecoveryState :=
  let reply := turn.reply
  if settings.compactionEnabled = false ∨ reply.stopReason = .aborted ∨ reply.isFromBeforeCompaction then (false, s)
  else if reply.sameModel ∧ reply.isContextOverflow then
    let willRetry := reply.stopReason != .stop
    if willRetry = false then (runAutoCompaction turn false, s)
    else if s.overflowRecoveryAttempted then (false, s)
    else (runAutoCompaction turn willRetry, { s with overflowRecoveryAttempted := true })
  else if reply.shouldCompact then (runAutoCompaction turn false, s)
  else (false, s)

/-- Behind the retries: the count is set back, and a compaction may go on. -/
def giveUpRetry (settings : RecoverySettings) (turn : AgentTurn) (reply : Reply)
    (s : RecoveryState) :
    Bool × RecoveryState :=
  let s :=
    if reply.stopReason = .error ∧ 0 < s.retryAttempt then { s with retryAttempt := 0 } else s
  let (goesOn, s) := checkCompaction settings turn s
  (goesOn || turn.hasQueuedMessages, s)

def handlePostAgentRun (settings : RecoverySettings) (turn : AgentTurn) (s : RecoveryState) :
    Bool × RecoveryState :=
  match s.lastAssistantMessage with
  | none => (false, s)
  | some reply =>
    let s := { s with lastAssistantMessage := none }
    if isRetryableError reply then
      let (retries, s) := prepareRetry settings turn s
      if retries then (true, s) else giveUpRetry settings turn reply s
    else giveUpRetry settings turn reply s

/-- The loop of `_runAgentPrompt` behind run `i` of the agent: how often it continues the
agent, or `none` when the fuel runs out. -/
def continuations (settings : RecoverySettings) (turns : Nat → AgentTurn) :
    Nat → Nat → RecoveryState → Option Nat
  | 0, _, _ => none
  | fuel + 1, i, s =>
    match handlePostAgentRun settings (turns i) (assistantMessageEnd s (turns i).reply) with
    | (false, _) => some 0
    | (true, s) => (continuations settings turns fuel (i + 1) s).map (· + 1)

/-- How often a prompt continues the agent; its messages need not be the user's. -/
def runAgentPrompt (settings : RecoverySettings) (turns : Nat → AgentTurn) (fuel : Nat)
    (hasUserMessage : Bool) (s : RecoveryState) : Option Nat :=
  continuations settings turns fuel 0 (if hasUserMessage then userMessageStart s else s)

/-! ## The budget -/

/-- What is left: the retries of this count, and those behind a compaction with the
compaction itself. -/
def budget (settings : RecoverySettings) (s : RecoveryState) : Nat :=
  (settings.maxRetries - s.retryAttempt) + if s.overflowRecoveryAttempted then 0 else settings.maxRetries + 1

/-- A turn that ends in an error, with nothing queued behind it. -/
structure AgentTurn.Fails (turn : AgentTurn) : Prop where
  error : turn.reply.stopReason = .error
  notQueued : turn.hasQueuedMessages = false

variable {settings : RecoverySettings} {turn : AgentTurn} {s : RecoveryState}

theorem giveUpRetry_budget (hturn : turn.Fails)
    (hgoesOn : (giveUpRetry settings turn turn.reply s).1 = true) :
    budget settings (giveUpRetry settings turn turn.reply s).2 < budget settings s := by
  -- without retries only the compaction after an overflow goes on, and it is tried once
  have hauto : runAutoCompaction turn false = false := by
    simp [runAutoCompaction, hturn.notQueued]
  simp only [giveUpRetry, checkCompaction, hturn.error, hturn.notQueued, hauto] at hgoesOn ⊢
  by_cases hcount : 0 < s.retryAttempt <;> cases hflag : s.overflowRecoveryAttempted <;>
    simp [hcount, hflag] at hgoesOn ⊢
  all_goals
    split at hgoesOn
    · simp at hgoesOn
    · rename_i hchecked
      split at hgoesOn
      · rename_i hover
        simp [hchecked, hover, budget, hflag]
        try omega
      · simp at hgoesOn

theorem giveUpRetry_stops (hturn : turn.Fails) (hretryable : isRetryableError turn.reply = true) :
    (giveUpRetry settings turn turn.reply s).1 = false := by
  have hauto : runAutoCompaction turn false = false := by
    simp [runAutoCompaction, hturn.notQueued]
  have hfits : turn.reply.isContextOverflow = false := by
    simp only [isRetryableError, Bool.and_eq_true, Bool.not_eq_true'] at hretryable
    exact hretryable.1
  simp only [giveUpRetry, checkCompaction, hfits, hauto, hturn.notQueued]
  split <;> simp

theorem prepareRetry_budget (hretries : (prepareRetry settings turn s).1 = true) :
    budget settings (prepareRetry settings turn s).2 < budget settings s := by
  by_cases hdisabled : settings.retryEnabled = false
  · simp [prepareRetry, hdisabled] at hretries
  · by_cases hfull : settings.maxRetries < s.retryAttempt + 1
    · simp [prepareRetry, hdisabled, hfull] at hretries
    · by_cases haborted : turn.sleepAborted = true
      · simp [prepareRetry, hdisabled, hfull, haborted] at hretries
      · have hstep : prepareRetry settings turn s =
            (true, { s with retryAttempt := s.retryAttempt + 1 }) := by
          simp [prepareRetry, hdisabled, hfull, haborted]
        rw [hstep]
        simp only [budget]
        omega

/-- A continuation takes something from the budget. -/
theorem handlePostAgentRun_budget (hturn : turn.Fails)
    (hgoesOn : (handlePostAgentRun settings turn (assistantMessageEnd s turn.reply)).1 = true) :
    budget settings (handlePostAgentRun settings turn (assistantMessageEnd s turn.reply)).2 <
      budget settings s := by
  have hsame : ∀ s : RecoveryState, budget settings { s with lastAssistantMessage := none } =
      budget settings s :=
    fun _ => rfl
  have hended : assistantMessageEnd s turn.reply =
      { s with lastAssistantMessage := some turn.reply } := by
    simp [assistantMessageEnd, hturn.error]
  simp only [hended, handlePostAgentRun] at hgoesOn ⊢
  rw [← hsame s]
  generalize { s with lastAssistantMessage := none } = s at hgoesOn ⊢
  by_cases hretryable : isRetryableError turn.reply = true
  · rw [if_pos hretryable] at hgoesOn ⊢
    by_cases hretries : (prepareRetry settings turn s).1 = true
    · rw [if_pos hretries]
      exact prepareRetry_budget hretries
    · -- an error that may be retried and is not is the end
      simp [hretries, giveUpRetry_stops hturn hretryable] at hgoesOn
  · rw [if_neg hretryable] at hgoesOn ⊢
    exact giveUpRetry_budget hturn hgoesOn

/-- What the budget holds is enough fuel. -/
theorem continuations_le {turns : Nat → AgentTurn} (hturns : ∀ i, (turns i).Fails) {most i : Nat}
    (hmost : budget settings s ≤ most) :
    ∃ count, count ≤ most ∧ ∀ fuel, most < fuel → continuations settings turns fuel i s = some count := by
  induction most generalizing i s with
  | zero =>
    have hbudget := @handlePostAgentRun_budget settings (turns i) s (hturns i)
    refine ⟨0, Nat.le_refl 0, fun fuel hfuel => ?_⟩
    obtain ⟨fuel, rfl⟩ := Nat.exists_eq_succ_of_ne_zero (Nat.pos_iff_ne_zero.mp hfuel)
    rw [continuations]
    generalize handlePostAgentRun settings (turns i) (assistantMessageEnd s (turns i).reply) = result at hbudget
    obtain ⟨goesOn, next⟩ := result
    cases goesOn with
    | false => rfl
    | true =>
      have hless : budget settings next < budget settings s := hbudget rfl
      omega
  | succ most ih =>
    have hbudget := @handlePostAgentRun_budget settings (turns i) s (hturns i)
    cases hresult : handlePostAgentRun settings (turns i) (assistantMessageEnd s (turns i).reply) with
    | mk goesOn next =>
      rw [hresult] at hbudget
      cases goesOn with
      | false =>
        refine ⟨0, Nat.zero_le _, fun fuel hfuel => ?_⟩
        obtain ⟨fuel, rfl⟩ := Nat.exists_eq_succ_of_ne_zero (Nat.ne_zero_of_lt hfuel)
        rw [continuations, hresult]
      | true =>
        have hless : budget settings next < budget settings s := hbudget rfl
        obtain ⟨count, hle, hcount⟩ := ih (i := i + 1) (s := next) (by omega)
        refine ⟨count + 1, by omega, fun fuel hfuel => ?_⟩
        obtain ⟨fuel, rfl⟩ := Nat.exists_eq_succ_of_ne_zero (Nat.ne_zero_of_lt hfuel)
        have hrest := hcount fuel (by omega)
        rw [continuations, hresult]
        simp [hrest]

/-- A prompt whose replies all end in errors is over after `2 * maxRetries + 1` continuations,
whatever was counted before it. -/
theorem automatic_recovery_terminates (settings : RecoverySettings) (turns : Nat → AgentTurn)
    (hturns : ∀ i, (turns i).Fails) (hasUserMessage : Bool) (s : RecoveryState) :
    ∃ count, count ≤ 2 * settings.maxRetries + 1 ∧
      ∀ fuel, 2 * settings.maxRetries + 1 < fuel →
        runAgentPrompt settings turns fuel hasUserMessage s = some count := by
  refine continuations_le hturns ?_
  have hflag : ∀ t : RecoveryState, (if t.overflowRecoveryAttempted then 0 else settings.maxRetries + 1) ≤
      settings.maxRetries + 1 := by
    intro t
    split <;> omega
  have hbudget : ∀ t : RecoveryState, budget settings t ≤ 2 * settings.maxRetries + 1 := by
    intro t
    have ht := hflag t
    unfold budget
    omega
  exact hbudget _

/-! ## All of the budget -/

/-- A server that is overloaded, and once in between a context that is too large. -/
def overloaded : AgentTurn where
  reply := ⟨.error, false, true, true, false, false⟩
  sleepAborted := false
  compacts := true
  hasQueuedMessages := false

def overflowing :
    AgentTurn := { overloaded with reply := ⟨.error, true, false, true, false, false⟩ }

def worstTurns (i : Nat) : AgentTurn := if i = 2 then overflowing else overloaded

theorem worstTurns_fail (i : Nat) : (worstTurns i).Fails := by
  rw [worstTurns]
  split <;> exact ⟨rfl, rfl⟩

theorem automatic_recovery_example : ∃ count, count ≤ 2 * 2 + 1 ∧
    ∀ fuel, 2 * 2 + 1 < fuel → runAgentPrompt ⟨true, 2, true⟩ worstTurns fuel true {} = some count :=
  automatic_recovery_terminates ⟨true, 2, true⟩ worstTurns worstTurns_fail true {}

end PieLab.AutoRecovery
