import CodeRs.Agent.Attempt
import CodeRs.Agent.CallOutputs

/-!
# The attempts of a turn

`run_turn` of `core/src/codex/streaming.rs`.  A turn sends its input to the
model again until an attempt succeeds or fails for good.  A run is driven by
what every attempt finds; where this ends the turn is still waiting.  Events to
the user, usage hints and the lengths of the pauses are left out.
-/

namespace CodeRs.Agent

open Protocol TurnQueues
open Chat (ResponseEvent)

/-! ## Errors -/

def isContextOverflowStreamError (message : Text) : Bool :=
  let lower := message.toAsciiLowercase
  lower.contains "exceeds the context window" ||
    lower.contains "exceed the context window" ||
    lower.contains "context length exceeded" ||
    lower.contains "maximum context length" ||
    (lower.contains "context window" &&
      (lower.contains "exceed" || lower.contains "exceeded" ||
        lower.contains "full" ||
        lower.contains "too long"))

def isUsageLimitStreamError (message : Text) : Bool :=
  let lower := message.toAsciiLowercase
  lower.contains "usage limit" || lower.contains "usage_limit_reached" ||
    lower.contains "usage_not_included"

def isConnectivityError : CodexErr → Bool
  | .reqwest _ notReached => notReached
  | .stream message _ _ =>
      let lower := message.toAsciiLowercase
      (message.startsWith "[transport]" || lower.contains "transport" ||
        lower.contains "network" || lower.contains "connection" ||
        lower.contains "connectivity" || lower.contains "timeout") &&
        !lower.contains "context window" && !lower.contains "context length" &&
        !lower.contains "usage limit" && !lower.contains "usage_not_included" &&
        !lower.contains "quota exceeded"
  | _ => false

def streamMessage : CodexErr → Option Text
  | .stream message _ _ => some message
  | _ => none

/-- The id of the request of a stream error. -/
def requestIdOf : CodexErr → Option Text
  | .stream _ _ requestId => requestId
  | _ => none

def sparkFallbackModel (model : Text) : Option Text :=
  let lower := model.toAsciiLowercase
  if lower = "gpt-5.3-codex-spark".toList then some "gpt-5.3-codex".toList
  else if lower = "code-gpt-5.3-codex-spark".toList then
    some "code-gpt-5.3-codex".toList
  else none

/-! ## The state of a turn -/

/-- The arguments of `run_turn`, with the retry budget of the provider and the
payload that `ResponseItem::from` makes of an MCP result. -/
structure TurnContext where
  initialUserItem : Option ResponseItem
  pendingInputTail : List ResponseItem
  streamMaxRetries : ℕ
  mcpPayload : McpCallResult → FunctionCallOutputPayload

/-- What an attempt finds: the session and its tools, the answer of the model,
the model without an override, whether another account takes over at a usage
limit, what a compaction leaves of the history, and the model with the larger
context. -/
structure Attempt where
  host : Host
  stream : Except CodexErr (List (Except CodexErr ResponseEvent))
  model : Text
  switched : Bool
  compactedHistory : List ResponseItem
  largerContextModel : Text → Option Text

/-- The variables of `run_turn`. -/
structure TurnState where
  retries : ℕ
  didAutoCompact : Bool
  didContextModelFallback : Bool
  didUsageLimitModelFallback : Bool
  forcedModelOverride : Option Text
  input : List ResponseItem
  attemptInput : List ResponseItem

def TurnState.start (input : List ResponseItem) : TurnState :=
  ⟨0, false, false, false, none, input, input⟩

/-- Why a turn goes on. -/
inductive Reason where
  | switched | usageFallback | waited | compacted | largerModel
  | reconnected | retried
  deriving DecidableEq

namespace TurnState

def activeModel (s : TurnState) (a : Attempt) : Text :=
  s.forcedModelOverride.getD a.model

/-- The state for the fallback model after a usage limit. -/
def usageFallback (s : TurnState) (a : Attempt) : Option TurnState :=
  if s.didUsageLimitModelFallback then none
  else (sparkFallbackModel (s.activeModel a)).map fun model => { s with
    didUsageLimitModelFallback := true
    forcedModelOverride := some model
    retries := 0
    attemptInput := s.input }

/-- The state for the model with a larger context. -/
def contextFallback (s : TurnState) (a : Attempt) : Option TurnState :=
  if s.didContextModelFallback then none
  else (a.largerContextModel (s.activeModel a)).map fun model => { s with
    didContextModelFallback := true
    didAutoCompact := false
    forcedModelOverride := some model
    retries := 0
    attemptInput := s.input }

/-- The input that is rebuilt from a compacted history. -/
def rebuilt (ctx : TurnContext)
    (previousInput compactedHistory : List ResponseItem) :
    List ResponseItem :=
  let history := compactedHistory ++ ctx.initialUserItem.toList
  let (missingCalls, filteredOutputs) :=
    reconcilePendingToolOutputs ctx.pendingInputTail history previousInput
  history ++ missingCalls ++ filteredOutputs

def compact (ctx : TurnContext) (s : TurnState) (a : Attempt) : TurnState :=
  if a.compactedHistory = [] then
    { s with didAutoCompact := true, attemptInput := s.input }
  else
    let rebuilt := rebuilt ctx s.input a.compactedHistory
    { s with didAutoCompact := true, input := rebuilt, attemptInput := rebuilt }

end TurnState

/-! ## The scratchpad of a failed attempt -/

/-- The last characters of a partial text. -/
def lastFragment (s : Text) : Text := s.drop (s.length - 800)

/-- The hint for the model behind an attempt that failed. -/
def retryHint (sp : TurnScratchpad) : ResponseItem :=
  .ofText "user"
    (.inputText
      (("[EPHEMERAL:RETRY_HINT]\nPrevious attempt aborted mid-stream. " ++
      "Continue without repeating.\n").toList ++
    (if sp.partialReasoningSummary = [] then []
      else "Last reasoning summary fragment:\n".toList ++
        lastFragment sp.partialReasoningSummary ++ "\n\n".toList) ++
    (if sp.partialAssistantText = [] then []
      else "Last assistant text fragment:\n".toList ++
        lastFragment sp.partialAssistantText ++ "\n".toList)))

/-- The id under which a call of a failed attempt is sent again. -/
def resentCallId : ResponseItem → Option String
  | .functionCall _ _ _ _ callId => some callId
  | .localShellCall _ callId => callId
  | _ => none

/-- The calls of a failed attempt whose ids are not among the ones seen. -/
def unseenCalls (seenCalls : List String) :
    List ResponseItem → List ResponseItem
  | [] => []
  | item :: rest =>
      match resentCallId item with
      | some callId =>
          if callId ∈ seenCalls then unseenCalls seenCalls rest
          else item :: unseenCalls (callId :: seenCalls) rest
      | none => unseenCalls seenCalls rest

/-- `ResponseItem::from`. -/
def responseItemOf (mcpPayload : McpCallResult → FunctionCallOutputPayload) :
    ResponseInputItem → ResponseItem
  | .message role content => .message none role content none none
  | .functionCallOutput callId output => .functionCallOutput callId output
  | .mcpToolCallOutput callId result =>
      .functionCallOutput callId (mcpPayload result)
  | .customToolCallOutput callId name output =>
      .customToolCallOutput callId name output
  | .toolSearchOutput callId status execution _ =>
      .toolSearchOutput (some callId) status execution

/-- `drain_scratchpad_into_attempt`. -/
def drainScratchpadInto (ctx : TurnContext) (attemptInput : List ResponseItem) :
    Option TurnScratchpad → List ResponseItem
  | none => attemptInput
  | some sp =>
      attemptInput ++
        unseenCalls (attemptInput.filterMap resentCallId) sp.items ++
        sp.responses.map (responseItemOf ctx.mcpPayload) ++
        if sp.partialAssistantText = [] ∧
          sp.partialReasoningSummary = [] then []
        else [retryHint sp]

def scratchpadHasToolResponses : Option TurnScratchpad → Bool
  | none => false
  | some sp => ! sp.responses.isEmpty

/-! ## After an attempt -/

/-- How a turn goes on: with the next state, or with its result. -/
abbrev TurnStep :=
  (Reason × TurnState) ⊕ Except CodexErr (List ProcessedResponseItem)

/-- What comes after an error that is no usage limit: the last arm of
`run_turn`. -/
def TurnState.afterOtherError (ctx : TurnContext) (s : TurnState) (a : Attempt)
    (scratchpad : Option TurnScratchpad) (e : CodexErr) : TurnStep :=
  let hitsUsageLimit := (streamMessage e).any isUsageLimitStreamError
  match if hitsUsageLimit then s.usageFallback a else none with
  | some next => .inl (.usageFallback, next)
  | none =>
      if (streamMessage e).any isContextOverflowStreamError then
        if ! s.didAutoCompact then .inl (.compacted, s.compact ctx a)
        else
          match s.contextFallback a with
          | some next => .inl (.largerModel, next)
          | none => .inr (.error e)
      else if scratchpadHasToolResponses scratchpad then
        .inr (.error (.stream (("stream disconnected after tool output; " ++
          "not retrying to avoid duplicate tool state: ").toList ++
          e.display) none
          (requestIdOf e)))
      else if isConnectivityError e ∧ ctx.streamMaxRetries ≤ s.retries then
        .inl (.reconnected, { s with
          retries := 0
          attemptInput := drainScratchpadInto ctx s.attemptInput scratchpad })
      else if s.retries < ctx.streamMaxRetries then
        .inl (.retried, { s with
          retries := s.retries + 1
          attemptInput := drainScratchpadInto ctx s.attemptInput scratchpad })
      else .inr (.error e)

def TurnState.afterAttempt (ctx : TurnContext) (s : TurnState) (a : Attempt) :
    Except CodexErr (List ProcessedResponseItem) × AttemptState → TurnStep
  | (.ok output, _) => .inr (.ok output)
  | (.error .interrupted, _) => .inr (.error .interrupted)
  | (.error (.envVar message), _) => .inr (.error (.envVar message))
  | (.error (.usageLimitReached _), _) =>
      if a.switched then .inl (.switched, { s with retries := 0 })
      else
        match s.usageFallback a with
        | some next => .inl (.usageFallback, next)
        | none => .inl (.waited, { s with retries := 0 })
  | (.error .usageNotIncluded, _) =>
      match s.usageFallback a with
      | some next => .inl (.usageFallback, next)
      | none => .inr (.error .usageNotIncluded)
  | (.error .quotaExceeded, _) => .inr (.error .quotaExceeded)
  | (.error e, attempt) => s.afterOtherError ctx a attempt.turnScratchpad e

/-! ## The loop -/

/-- An attempt of a run: the input it sends, the calls it executes, and why the
turn goes on behind it. -/
structure AttemptRecord where
  input : List ResponseItem
  executed : List ResponseItem
  reason : Option Reason

/-- A run: its attempts, and its result if it has one. -/
structure TurnRun where
  attempts : List AttemptRecord
  result : Option (Except CodexErr (List ProcessedResponseItem))

/-- The loop of `run_turn`. -/
def turnLoop (ctx : TurnContext) : TurnState → List Attempt → TurnRun
  | _, [] => ⟨[], none⟩
  | s, a :: rest =>
      let outcome := tryRunTurn a.host a.stream
      match s.afterAttempt ctx a outcome with
      | .inr result =>
          ⟨[⟨s.attemptInput, calls outcome.2.handled, none⟩], some result⟩
      | .inl (reason, next) =>
          let later := turnLoop ctx next rest
          ⟨⟨s.attemptInput, calls outcome.2.handled,
            some reason⟩ :: later.attempts,
            later.result⟩

def runTurn (ctx : TurnContext) (input : List ResponseItem)
    (attempts : List Attempt) : TurnRun :=
  turnLoop ctx (.start input) attempts

/-! ## How a turn goes on -/

/-- The item is the hint behind a failed attempt. -/
def IsRetryHint (item : ResponseItem) : Prop := ∃ sp, item = retryHint sp

/-- What changes when a turn goes on.  Behind a stream that breaks, the input
of the attempt gets at most one hint; nothing else is sent again. -/
inductive Continues (ctx : TurnContext) (s : TurnState) (a : Attempt) :
    Reason → TurnState → Prop
  | switched : Continues ctx s a .switched { s with retries := 0 }
  | waited : Continues ctx s a .waited { s with retries := 0 }
  | usageFallback {model : Text} : s.didUsageLimitModelFallback = false →
      Continues ctx s a .usageFallback { s with
        didUsageLimitModelFallback := true
        forcedModelOverride := some model
        retries := 0
        attemptInput := s.input }
  | compacted : s.didAutoCompact = false →
      Continues ctx s a .compacted (s.compact ctx a)
  | largerModel {model : Text} : s.didContextModelFallback = false →
      Continues ctx s a .largerModel { s with
        didContextModelFallback := true
        didAutoCompact := false
        forcedModelOverride := some model
        retries := 0
        attemptInput := s.input }
  | reconnected {hints : List ResponseItem} : hints.length ≤ 1 →
      (∀ hint ∈ hints, IsRetryHint hint) →
      Continues ctx s a .reconnected { s with
        retries := 0
        attemptInput := s.attemptInput ++ hints }
  | retried {hints : List ResponseItem} : s.retries < ctx.streamMaxRetries →
      hints.length ≤ 1 → (∀ hint ∈ hints, IsRetryHint hint) →
      Continues ctx s a .retried { s with
        retries := s.retries + 1
        attemptInput := s.attemptInput ++ hints }

variable {ctx : TurnContext} {s next : TurnState} {a : Attempt}
    {reason : Reason}

theorem unseenCalls_eq_nil {items : List ResponseItem} (h : calls items = [])
    (seenCalls : List String) : unseenCalls seenCalls items = [] := by
  induction items with
  | nil => rfl
  | cons item rest ih =>
      have hsplit : calls [item] ++ calls rest = [] := by
        rw [← calls_append]; exact h
      obtain ⟨hitem, hrest⟩ := List.append_eq_nil_iff.1 hsplit
      have hid : resentCallId item = none := by
        cases item with
        | functionCall | localShellCall => cases hitem
        | _ => rfl
      rw [unseenCalls, hid]
      exact ih hrest

/-- Of an attempt without calls and answers only a hint is left. -/
theorem drainScratchpadInto_untouched (ctx : TurnContext)
    {attempt : AttemptState}
    (h : Untouched attempt)
    (attemptInput : List ResponseItem) :
    ∃ hints, drainScratchpadInto ctx attemptInput attempt.turnScratchpad =
      attemptInput ++ hints ∧ hints.length ≤ 1 ∧ ∀ hint ∈ hints,
        IsRetryHint hint := by
  obtain ⟨sp, hsp, hitems, hresponses⟩ := h.scratchpad
  rw [hsp, drainScratchpadInto, unseenCalls_eq_nil hitems, hresponses,
    List.append_nil,
    List.map_nil, List.append_nil]
  refine ⟨_, rfl, ?_⟩
  split
  · exact ⟨Nat.zero_le _, fun _ h => nomatch h⟩
  · refine ⟨le_rfl, fun hint hmem => ⟨sp, List.mem_singleton.1 hmem⟩⟩

theorem usageFallback_continues (h : s.usageFallback a = some next) :
    Continues ctx s a .usageFallback next := by
  rw [TurnState.usageFallback] at h
  split at h
  · cases h
  · next hnot =>
    obtain ⟨model, -, rfl⟩ := Option.map_eq_some_iff.1 h
    exact .usageFallback (Bool.eq_false_of_not_eq_true hnot)

theorem contextFallback_continues (h : s.contextFallback a = some next) :
    Continues ctx s a .largerModel next := by
  rw [TurnState.contextFallback] at h
  split at h
  · cases h
  · next hnot =>
    obtain ⟨model, -, rfl⟩ := Option.map_eq_some_iff.1 h
    exact .largerModel (Bool.eq_false_of_not_eq_true hnot)

theorem afterOtherError_continues {attempt : AttemptState} {e : CodexErr}
    (huntouched : Untouched attempt)
    (h : s.afterOtherError ctx a attempt.turnScratchpad e =
      .inl (reason, next)) :
    Continues ctx s a reason next := by
  obtain ⟨hints, hdrain, hlength, hhints⟩ :=
    drainScratchpadInto_untouched ctx huntouched s.attemptInput
  rw [TurnState.afterOtherError] at h
  split at h
  next next' hfallback =>
    cases h
    split at hfallback
    · exact usageFallback_continues hfallback
    · cases hfallback
  next =>
    split at h
    · split at h
      next hnot =>
        cases h
        exact .compacted (by simpa using hnot)
      next =>
        split at h
        next next' hfallback =>
          cases h
          exact contextFallback_continues hfallback
        next => cases h
    · split at h
      · cases h
      · split at h
        · cases h
          rw [hdrain]
          exact .reconnected hlength hhints
        · split at h
          next hretries =>
            cases h
            rw [hdrain]
            exact .retried hretries hlength hhints
          next => cases h

/-- A turn goes on only behind an attempt that has executed no call. -/
theorem continues_of_afterAttempt
    (h : s.afterAttempt ctx a (tryRunTurn a.host a.stream) =
      .inl (reason, next)) :
    calls (tryRunTurn a.host a.stream).2.handled = [] ∧
      Continues ctx s a reason next := by
  have huntouched : ∀ e, (tryRunTurn a.host a.stream).1 = .error e →
      e ≠ .interrupted →
      Untouched (tryRunTurn a.host a.stream).2 := fun _ => untouched_of_error
  revert h huntouched
  generalize tryRunTurn a.host a.stream = outcome
  obtain ⟨e | output, attempt⟩ := outcome
  · intro h huntouched
    by_cases hinterrupted : e = .interrupted
    · subst hinterrupted
      cases h
    have hattempt := huntouched e rfl hinterrupted
    refine ⟨hattempt.executed, ?_⟩
    cases e with
    | interrupted => exact (hinterrupted rfl).elim
    | envVar | quotaExceeded => cases h
    | usageLimitReached =>
        rw [TurnState.afterAttempt] at h
        split at h
        · cases h
          exact .switched
        · split at h
          next hfallback =>
            cases h
            exact usageFallback_continues hfallback
          next =>
            cases h
            exact .waited
    | usageNotIncluded =>
        rw [TurnState.afterAttempt] at h
        split at h
        next hfallback =>
          cases h
          exact usageFallback_continues hfallback
        next => cases h
    | stream message retryAfter requestId =>
        exact afterOtherError_continues (a := a)
          (e := .stream message retryAfter requestId)
          hattempt h
    | reqwest message notReached =>
        exact afterOtherError_continues (a := a)
          (e := .reqwest message notReached)
          hattempt h
    | unsupportedOperation message =>
        exact afterOtherError_continues (a := a)
          (e := .unsupportedOperation message)
          hattempt h
    | other message =>
        exact afterOtherError_continues (a := a) (e := .other message)
          hattempt h
  · intro h
    cases h

/-! ## How a turn succeeds -/

theorem afterOtherError_ne_ok {scratchpad : Option TurnScratchpad}
    {e : CodexErr}
    {output : List ProcessedResponseItem} :
    s.afterOtherError ctx a scratchpad e ≠ .inr (.ok output) := by
  intro h
  rw [TurnState.afterOtherError] at h
  split at h
  · cases h
  · split at h
    · split at h
      · cases h
      · split at h <;> cases h
    · split at h
      · cases h
      · split at h
        · cases h
        · split at h <;> cases h

/-- A turn succeeds with what its last attempt gives out. -/
theorem ok_of_afterAttempt
    {outcome : Except CodexErr (List ProcessedResponseItem) × AttemptState}
    {output : List ProcessedResponseItem}
    (h : s.afterAttempt ctx a outcome = .inr (.ok output)) :
    outcome.1 = .ok output := by
  obtain ⟨e | given, attempt⟩ := outcome
  · exfalso
    cases e with
    | interrupted | envVar | quotaExceeded => cases h
    | usageLimitReached =>
        rw [TurnState.afterAttempt] at h
        split at h
        · cases h
        · split at h <;> cases h
    | usageNotIncluded =>
        rw [TurnState.afterAttempt] at h
        split at h <;> cases h
    | stream message retryAfter requestId =>
        exact afterOtherError_ne_ok (a := a)
          (e := .stream message retryAfter requestId) h
    | reqwest message notReached =>
        exact afterOtherError_ne_ok (a := a)
          (e := .reqwest message notReached) h
    | unsupportedOperation message =>
        exact afterOtherError_ne_ok (a := a)
          (e := .unsupportedOperation message) h
    | other message =>
        exact afterOtherError_ne_ok (a := a) (e := .other message) h
  · cases h
    rfl

/-! ## Calls are executed once -/

theorem result_of_executed
    {result : Except CodexErr (List ProcessedResponseItem)}
    (h : s.afterAttempt ctx a (tryRunTurn a.host a.stream) = .inr result)
    (hexecuted : calls (tryRunTurn a.host a.stream).2.handled ≠ []) :
    (∃ output, result = .ok output) ∨ result = .error .interrupted := by
  have huntouched : ∀ e, (tryRunTurn a.host a.stream).1 = .error e →
      e ≠ .interrupted →
      Untouched (tryRunTurn a.host a.stream).2 := fun _ => untouched_of_error
  revert h hexecuted huntouched
  generalize tryRunTurn a.host a.stream = outcome
  obtain ⟨e | output, attempt⟩ := outcome
  · intro h hexecuted huntouched
    by_cases hinterrupted : e = .interrupted
    · subst hinterrupted
      cases h
      exact .inr rfl
    · exact (hexecuted (huntouched e rfl hinterrupted).executed).elim
  · intro h _ _
    cases h
    exact .inl ⟨output, rfl⟩

/-- No call is executed twice, however often a turn asks the model: the attempt
that executes calls is the last one, and the turn has succeeded or was
interrupted. -/
theorem runTurn_executesOnce (ctx : TurnContext) (input : List ResponseItem)
    (attempts : List Attempt) {earlier later : List AttemptRecord}
    {record : AttemptRecord}
    (hsplit : (runTurn ctx input attempts).attempts =
      earlier ++ record :: later)
    (hexecuted : record.executed ≠ []) :
    later = [] ∧ (∀ other ∈ earlier, other.executed = []) ∧
      ((∃ output, (runTurn ctx input attempts).result = some (.ok output)) ∨
        (runTurn ctx input attempts).result = some (.error .interrupted)) := by
  rw [runTurn] at hsplit ⊢
  generalize TurnState.start input = s at hsplit ⊢
  induction attempts generalizing s earlier with
  | nil =>
      exact (List.append_ne_nil_of_right_ne_nil _ (List.cons_ne_nil _ _)
        hsplit.symm).elim
  | cons a rest ih =>
      rw [turnLoop] at hsplit ⊢
      split at hsplit
      next result hafter =>
        rcases List.singleton_eq_append_iff.1 hsplit with
          ⟨rfl, htail⟩ | ⟨rfl, htail⟩
        · obtain ⟨rfl, rfl⟩ := List.cons.inj htail
          refine ⟨rfl, fun _ hmem => (List.not_mem_nil hmem).elim, ?_⟩
          rcases result_of_executed hafter hexecuted with ⟨output, rfl⟩ | rfl
          · exact .inl ⟨output, rfl⟩
          · exact .inr rfl
        · cases htail
      next reason next hafter =>
        have hnone := (continues_of_afterAttempt hafter).1
        cases earlier with
        | nil =>
            obtain ⟨rfl, -⟩ := List.cons.inj hsplit
            exact (hexecuted hnone).elim
        | cons first earlier =>
            obtain ⟨rfl, hrest⟩ := List.cons.inj hsplit
            obtain ⟨hlast, hearlier, hresult⟩ := ih next hrest
            exact ⟨hlast, List.forall_mem_cons.2 ⟨hnone, hearlier⟩, hresult⟩

/-! ## What is sent -/

/-- The inputs that the attempts of a turn start from: the input of the turn,
rebuilt as often as one of them has compacted the history. -/
inductive BaseInput (ctx : TurnContext) (input : List ResponseItem)
    (attempts : List Attempt) :
    ℕ → List ResponseItem → Prop
  | given : BaseInput ctx input attempts 0 input
  | rebuilt {n : ℕ} {base : List ResponseItem} {a : Attempt} : a ∈ attempts →
      BaseInput ctx input attempts n base →
      BaseInput ctx input attempts (n + 1)
        (TurnState.rebuilt ctx base a.compactedHistory)

/-- What the state of a turn keeps: the input was rebuilt at most once for
every compaction, and the input of the attempt has only hints behind it. -/
structure KeepsInput (ctx : TurnContext) (input : List ResponseItem)
    (attempts : List Attempt)
    (s : TurnState) : Prop where
  base : ∃ n ≤ s.didAutoCompact.toNat + s.didContextModelFallback.toNat,
    BaseInput ctx input attempts n s.input
  hints : ∃ hints, s.attemptInput = s.input ++ hints ∧ ∀ hint ∈ hints,
    IsRetryHint hint

theorem KeepsInput.addHints {input hints : List ResponseItem}
    {attempts : List Attempt}
    (h : KeepsInput ctx input attempts s)
    (hhints : ∀ hint ∈ hints, IsRetryHint hint)
    (retries : ℕ) :
    KeepsInput ctx input attempts { s with
      retries := retries
      attemptInput := s.attemptInput ++ hints } := by
  obtain ⟨before, hbefore, hall⟩ := h.hints
  refine ⟨h.base, before ++ hints, ?_, ?_⟩
  · rw [← List.append_assoc, ← hbefore]
  · exact fun hint hmem =>
      (List.mem_append.1 hmem).elim (hall hint) (hhints hint)

theorem KeepsInput.continues {input : List ResponseItem}
    {attempts : List Attempt}
    (h : KeepsInput ctx input attempts s) (ha : a ∈ attempts)
    (hnext : Continues ctx s a reason next) :
    KeepsInput ctx input attempts next := by
  obtain ⟨n, hn, hbase⟩ := h.base
  have hempty : ∃ hints, s.input = s.input ++ hints ∧ ∀ hint ∈ hints,
      IsRetryHint hint :=
    ⟨[], (List.append_nil _).symm, fun _ h => nomatch h⟩
  cases hnext with
  | switched | waited => exact ⟨h.base, h.hints⟩
  | usageFallback => exact ⟨h.base, hempty⟩
  | compacted hnot =>
      rw [TurnState.compact]
      split
      · exact ⟨⟨n, hn.trans (by simp [hnot]), hbase⟩, hempty⟩
      · refine ⟨⟨n + 1, ?_, hbase.rebuilt ha⟩, [], (List.append_nil _).symm,
          fun _ h => nomatch h⟩
        rw [hnot] at hn
        rw [Bool.toNat_false, Nat.zero_add] at hn
        change n + 1 ≤ 1 + s.didContextModelFallback.toNat
        omega
  | largerModel hnot =>
      refine ⟨⟨n, ?_, hbase⟩, hempty⟩
      rw [hnot] at hn
      exact hn.trans
        (Nat.add_le_add_right (Bool.toNat_le _) _ |>.trans (by simp))
  | reconnected _ hhints => exact h.addHints hhints _
  | retried _ _ hhints => exact h.addHints hhints _

theorem KeepsInput.start (input : List ResponseItem) (attempts : List Attempt) :
    KeepsInput ctx input attempts (.start input) :=
  ⟨⟨0, le_rfl, .given⟩, [], (List.append_nil _).symm, fun _ h => nomatch h⟩

/-- What is sent: a base that was rebuilt at most twice, with hints behind
it. -/
theorem KeepsInput.sends {input : List ResponseItem} {attempts : List Attempt}
    (h : KeepsInput ctx input attempts s) :
    ∃ n ≤ 2, ∃ base hints, BaseInput ctx input attempts n base ∧
      s.attemptInput = base ++ hints ∧ ∀ hint ∈ hints, IsRetryHint hint := by
  obtain ⟨n, hn, hbase⟩ := h.base
  obtain ⟨hints, hhints⟩ := h.hints
  have htwo := Nat.add_le_add (Bool.toNat_le s.didAutoCompact)
    (Bool.toNat_le s.didContextModelFallback)
  exact ⟨n, hn.trans htwo, s.input, hints, hbase, hhints⟩

theorem turnLoop_inputs {input : List ResponseItem}
    {attempts rest : List Attempt}
    (h : KeepsInput ctx input attempts s) (hrest : ∀ a ∈ rest, a ∈ attempts) :
    ∀ record ∈ (turnLoop ctx s rest).attempts, ∃ n ≤ 2, ∃ base hints,
      BaseInput ctx input attempts n base ∧ record.input = base ++ hints ∧
        ∀ hint ∈ hints, IsRetryHint hint := by
  induction rest generalizing s with
  | nil => exact fun _ h => nomatch h
  | cons a rest ih =>
      obtain ⟨ha, hrest⟩ := List.forall_mem_cons.1 hrest
      rw [turnLoop]
      split
      next result hafter => exact List.forall_mem_singleton.2 h.sends
      next reason next hafter =>
        have hnext := h.continues ha (continues_of_afterAttempt hafter).2
        exact List.forall_mem_cons.2 ⟨h.sends, ih hnext hrest⟩

/-- Every attempt of a turn sends the input of the turn, or what at most two
compactions made of it, and behind it nothing but hints: no item of a failed
attempt is sent again. -/
theorem runTurn_inputs (ctx : TurnContext) (input : List ResponseItem)
    (attempts : List Attempt) :
    ∀ record ∈ (runTurn ctx input attempts).attempts, ∃ n ≤ 2, ∃ base hints,
      BaseInput ctx input attempts n base ∧ record.input = base ++ hints ∧
        ∀ hint ∈ hints, IsRetryHint hint :=
  turnLoop_inputs (.start input attempts) fun _ h => h

section Example

/-- A session whose tools answer with empty texts. -/
def exampleHost : Host where
  subId := []
  tools :=
    ⟨fun _ _ _ _ _ => .output (.fromText []), fun _ _ => none,
      fun _ _ => .fromText []⟩
  parseUuid := fun _ => none
  isCurrentTask := fun _ => true
  outside := ⟨fun _ => none, fun _ _ => .error []⟩
  toolOutputMaxBytes := 0

/-- A stream that breaks, and then an answer with one item. -/
def exampleAttempts (item : ResponseItem) : List Attempt :=
  [⟨exampleHost, .ok [.ok (.reasoningSummaryDelta ['x'])], [], false, [],
    fun _ => none⟩,
    ⟨exampleHost,
      .ok [.ok (.outputItemDone item none none), .ok (.completed "")],
      [], false, [],
      fun _ => none⟩]

def exampleCall (callId : String) : ResponseItem :=
  .functionCall none "shell" none [] callId

/-- A turn that retries once and then executes a call. -/
def exampleRun : TurnRun :=
  runTurn ⟨none, [], 1,
    fun _ => .fromText []⟩ [] (exampleAttempts (exampleCall "a"))

theorem runTurn_executesOnce_retried :
    (∀ earlier ∈ exampleRun.attempts.take 1, earlier.executed = []) ∧
      ((∃ output, exampleRun.result = some (.ok output)) ∨
        exampleRun.result = some (.error .interrupted)) :=
  (@runTurn_executesOnce _ _ _ (exampleRun.attempts.take 1) [] ⟨_,
    [exampleCall "a"], _⟩ rfl
    (List.cons_ne_nil _ _)).2

theorem runTurn_inputs_retried :
    ∃ n ≤ 2, ∃ base hints,
      BaseInput ⟨none, [], 1,
        fun _ => .fromText []⟩ [] (exampleAttempts (exampleCall "a"))
        n base ∧
      [retryHint ⟨[], [], [], ['x']⟩] = base ++ hints ∧ ∀ hint ∈ hints,
        IsRetryHint hint :=
  runTurn_inputs _ _ _ ⟨_, [exampleCall "a"], none⟩ (.tail _ (.head _))

end Example

/-! ## How often the model is asked -/

/-- How often a turn can still go on without such a pause. -/
def TurnState.left (maxRetries : ℕ) (s : TurnState) : ℕ :=
  (maxRetries + 1) * (! s.didUsageLimitModelFallback).toNat +
    (maxRetries + 2) * (! s.didContextModelFallback).toNat +
    (! s.didAutoCompact).toNat +
    (maxRetries - s.retries)

end CodeRs.Agent
