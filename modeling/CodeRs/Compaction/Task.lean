import CodeRs.Compaction.Prompt
import CodeRs.Lib.Debts
import CodeRs.Session.UserMessage

/-!
# Compaction tasks

The two compaction paths of `core/src/codex/compact.rs`, `perform_compaction`
and `run_compact_task_inner_inline`, with the loop they share up to one line
and `drain_to_completed`.  A run of a path is driven by the answers of the
model, one for each prompt; where the answers end the path is still waiting.
Events to the user and the pauses between prompts are left out.
-/

namespace CodeRs.Compaction

open Protocol TurnQueues

/-! ## Errors -/

/-- `CodexErr`, with the `Display` text of the variants that the loops treat
alike. -/
inductive CodexErr where
  | stream (message : Text)
  | interrupted
  | unexpectedStatus (body : Text)
  | usageLimitReached
  | other (message : Text)
  deriving DecidableEq

def looksLikeContextOverflow (message : Text) : Bool :=
  let lower := message.toAsciiLowercase
  lower.contains "context_length_exceeded" ||
    lower.contains "context length exceeded" ||
    (lower.contains "context window" &&
      (lower.contains "exceed" || lower.contains "exceeded" ||
        lower.contains "full" ||
        lower.contains "too long")) ||
    lower.contains "maximum context length" ||
    lower.contains "exceeds the context window"

def isContextOverflowError : CodexErr → Bool
  | .unexpectedStatus body => looksLikeContextOverflow body
  | .stream message => looksLikeContextOverflow message
  | _ => false

/-! ## Answers -/

/-- `ResponseEvent`, as far as `drain_to_completed` tells the events apart. -/
inductive ResponseEvent where
  | outputItemDone (item : ResponseItem)
  | completed
  | other
  deriving DecidableEq

/-- The answer to a prompt: no stream, or a stream with the events that come
before it is closed or the time is up. -/
inductive Answer where
  | refused (e : CodexErr)
  | stream (events : List (Except CodexErr ResponseEvent)) (timedOut : Bool)

/-- An attempt: what the machine reports for the prompt, and the answer. -/
structure Attempt where
  machine : MachineFacts
  answer : Answer

/-- `is_api_message` of `core/src/conversation_history.rs`. -/
def isApiMessage : ResponseItem → Bool
  | .additionalTools .. => false
  | .message _ role _ _ _ => role ≠ "system"
  | .other => false
  | _ => true

def recordItems (history items : List ResponseItem) : List ResponseItem :=
  history ++ items.filter isApiMessage

/-- The error of a stream that ends too early. -/
def endedEarly (timedOut : Bool) : CodexErr :=
  .stream (if timedOut then "compaction stream timed out".toList
    else "stream closed before response.completed".toList)

/-- The loop over the events of a stream. -/
def drainEvents (timedOut : Bool) :
    List ResponseItem → List (Except CodexErr ResponseEvent) →
      List ResponseItem × Except CodexErr Unit
  | history, [] => (history, .error (endedEarly timedOut))
  | history, .ok (.outputItemDone item) :: rest =>
      drainEvents timedOut (recordItems history [item]) rest
  | history, .ok .completed :: _ => (history, .ok ())
  | history, .ok .other :: rest => drainEvents timedOut history rest
  | history, .error e :: _ => (history, .error e)

/-- `drain_to_completed`, on the history that it records items in. -/
def drainToCompleted (history : List ResponseItem) :
    Answer → List ResponseItem × Except CodexErr Unit
  | .refused e => (history, .error e)
  | .stream events timedOut => drainEvents timedOut history events

theorem drainEvents_result (timedOut : Bool)
    (history history' : List ResponseItem)
    (events : List (Except CodexErr ResponseEvent)) :
    (drainEvents timedOut history events).2 =
      (drainEvents timedOut history' events).2 := by
  induction events generalizing history history' with
  | nil => rfl
  | cons event rest ih =>
      cases event with
      | error e => rfl
      | ok event =>
          cases event with
          | outputItemDone item => exact ih _ _
          | completed => rfl
          | other => exact ih _ _

def Answer.result (answer : Answer) : Except CodexErr Unit :=
  (drainToCompleted [] answer).2

theorem drainToCompleted_result (history : List ResponseItem)
    (answer : Answer) :
    (drainToCompleted history answer).2 = answer.result := by
  cases answer with
  | refused e => rfl
  | stream events timedOut =>
      exact drainEvents_result timedOut history [] events

/-! ## The loop -/

def maxCompactContextOverflowTrims : ℕ := 32

def maxCompactUsageLimitRetries : ℕ := 2

/-- The variables of the loop, and the history. -/
structure LoopState where
  turnInput : List ResponseItem
  retries : ℕ
  truncatedCount : ℕ
  usageLimitRetries : ℕ
  history : List ResponseItem

def LoopState.start (history turnInput : List ResponseItem) : LoopState :=
  ⟨turnInput, 0, 0, 0, history⟩

/-- How the loop ends.  Two of the ends carry the reason of the emergency
fallback. -/
inductive LoopEnd where
  | completed
  | interrupted
  | usageLimit (reason : Text)
  | overflow (e : CodexErr) (reason : Text)
  | failed (e : CodexErr)
  deriving DecidableEq

/-- The reason that is given after the last trim. -/
def overflowReason (truncatedCount : ℕ) : Text :=
  if truncatedCount ≥ maxCompactContextOverflowTrims then
    "Compaction trimmed ".toList ++ (toString truncatedCount).toList ++
      " items but still exceeded the context window.".toList
  else "Compaction failed: context overflow even with minimal input.".toList

/-- What the loop does after an error that is neither an interruption nor a
usage limit. -/
def LoopState.afterError (maxRetries : ℕ) (s : LoopState) (e : CodexErr) :
    LoopState ⊕ LoopEnd :=
  if isContextOverflowError e then
    if s.turnInput.length > 1 ∧
      s.truncatedCount < maxCompactContextOverflowTrims then
      .inl { s with
        turnInput := s.turnInput.tail
        truncatedCount := s.truncatedCount + 1
        retries := 0
        usageLimitRetries := 0 }
    else .inr (.overflow e (overflowReason s.truncatedCount))
  else if s.retries < maxRetries then .inl { s with retries := s.retries + 1 }
  else .inr (.failed e)

/-- The reason that is given after the last usage-limit retry. -/
def usageLimitReason : Text :=
  "Compaction hit persistent usage limits and cannot continue.".toList

/-- What the loop does with the result of an attempt: go on, or end. -/
def LoopState.afterAttempt (maxRetries : ℕ) (s : LoopState) :
    Except CodexErr Unit → LoopState ⊕ LoopEnd
  | .ok () => .inr .completed
  | .error .interrupted => .inr .interrupted
  | .error .usageLimitReached =>
      if s.usageLimitRetries ≥ maxCompactUsageLimitRetries then
        .inr (.usageLimit usageLimitReason)
      else .inl { s with
        usageLimitRetries := s.usageLimitRetries + 1, retries := 0 }
  | .error e => s.afterError maxRetries e

/-- An error after which the path returns it and leaves the history alone. -/
def CodexErr.isPlain (e : CodexErr) : Bool :=
  e ≠ .usageLimitReached && !isContextOverflowError e

/-- The outcomes of an attempt, in the order of the arms of the loop. -/
inductive After (maxRetries : ℕ) (s : LoopState) :
    Except CodexErr Unit → LoopState ⊕ LoopEnd → Prop
  | completed : After maxRetries s (.ok ()) (.inr .completed)
  | interrupted : After maxRetries s (.error .interrupted) (.inr .interrupted)
  | usageLimit : After maxRetries s (.error .usageLimitReached)
      (.inr (.usageLimit usageLimitReason))
  | usageLimitRetry : After maxRetries s (.error .usageLimitReached)
      (.inl { s with
        usageLimitRetries := s.usageLimitRetries + 1, retries := 0 })
  | trim {e : CodexErr} : isContextOverflowError e → s.turnInput.length > 1 →
      s.truncatedCount < maxCompactContextOverflowTrims →
      After maxRetries s (.error e) (.inl { s with
        turnInput := s.turnInput.tail
        truncatedCount := s.truncatedCount + 1
        retries := 0
        usageLimitRetries := 0 })
  | overflow {e : CodexErr} : isContextOverflowError e →
      After maxRetries s (.error e)
        (.inr (.overflow e (overflowReason s.truncatedCount)))
  | retry {e : CodexErr} : e.isPlain →
      After maxRetries s (.error e) (.inl { s with retries := s.retries + 1 })
  | failed {e : CodexErr} : e.isPlain →
    After maxRetries s (.error e) (.inr (.failed e))

theorem after_afterError (maxRetries : ℕ) (s : LoopState) {e : CodexErr}
    (h : e ≠ .usageLimitReached) :
    After maxRetries s (.error e) (s.afterError maxRetries e) := by
  rw [LoopState.afterError]
  by_cases hover : isContextOverflowError e
  · rw [if_pos hover]
    split
    next htrim => exact .trim hover htrim.1 htrim.2
    next => exact .overflow hover
  · have hplain : e.isPlain := by simp [CodexErr.isPlain, h, hover]
    rw [if_neg hover]
    split
    · exact .retry hplain
    · exact .failed hplain

theorem after (maxRetries : ℕ) (s : LoopState) (result : Except CodexErr Unit) :
    After maxRetries s result (s.afterAttempt maxRetries result) := by
  cases result with
  | ok => exact .completed
  | error e =>
      cases e with
      | interrupted => exact .interrupted
      | usageLimitReached =>
          rw [LoopState.afterAttempt]
          split
          · exact .usageLimit
          · exact .usageLimitRetry
      | stream message =>
          exact after_afterError maxRetries s CodexErr.noConfusion
      | unexpectedStatus body =>
          exact after_afterError maxRetries s CodexErr.noConfusion
      | other message =>
          exact after_afterError maxRetries s CodexErr.noConfusion

/-- The prompts that a loop has sent, its variables, and how it has ended, if
it has. -/
structure LoopRun where
  prompts : List Prompt
  state : LoopState
  ending : Option LoopEnd

variable (sess : Session) (turnContext : TurnContext)

/-- The loop of both paths, with what it does to the turn input before each
prompt. -/
def compactLoop (prepare : List ResponseItem → List ResponseItem) :
    LoopState → List Attempt → LoopRun
  | s, [] => ⟨[], s, none⟩
  | s, attempt :: rest =>
      let turnInput := prepare s.turnInput
      let prompt := compactPrompt sess turnContext attempt.machine turnInput
      let (history, result) := drainToCompleted s.history attempt.answer
      let s := { s with turnInput := turnInput, history := history }
      match s.afterAttempt turnContext.streamMaxRetries result with
      | .inl next =>
          let run := compactLoop prepare next rest
          { run with prompts := prompt :: run.prompts }
      | .inr ending => ⟨[prompt], s, some ending⟩

/-- The message that the prompt of a compaction ends with. -/
def promptItem (outside : Outside) (input : List InputItem) : ResponseItem :=
  .message none "user" (input.flatMap (contentOf outside)) none none

def performCompactionLoop (outside : Outside) (input : List InputItem) :
    List Attempt → LoopRun :=
  compactLoop sess turnContext (fun items => (pruneOrphanToolOutputs items).1)
    (.start sess.history (sess.compactTurnInput (promptItem outside input)))

/-- The loop of `run_compact_task_inner_inline`, which does not prune. -/
def runCompactTaskInnerInlineLoop (outside : Outside) (input : List InputItem) :
    List Attempt → LoopRun :=
  compactLoop sess turnContext id
    (.start sess.history (sess.compactTurnInput (promptItem outside input)))

end CodeRs.Compaction

/-! ## The number of attempts of a compaction

Both loops of `core/src/codex/compact.rs` end after a bounded number of
attempts.  A trim sets both retry counters back and a usage limit the one for
other errors, so the counters are nested budgets, and every attempt that the
loop goes on after lowers their rank. -/

namespace CodeRs.Compaction

open Protocol TurnQueues

/-- The counters of the loop, the one that sets the others back first. -/
def LoopState.counters (maxRetries : ℕ) (s : LoopState) : List Counter :=
  [⟨maxCompactContextOverflowTrims, s.truncatedCount⟩,
    ⟨maxCompactUsageLimitRetries, s.usageLimitRetries⟩, ⟨maxRetries, s.retries⟩]

/-- How often the loop can still go on. -/
def LoopState.rank (maxRetries : ℕ) (s : LoopState) : ℕ :=
  Counter.rank (s.counters maxRetries)

/-- The most attempts that a compaction makes. -/
def maxAttempts (maxRetries : ℕ) : ℕ :=
  (maxCompactContextOverflowTrims + 1) *
    ((maxCompactUsageLimitRetries + 1) * (maxRetries + 1))

theorem LoopState.rank_lt (maxRetries : ℕ) (s : LoopState) :
    s.rank maxRetries < maxAttempts maxRetries := by
  have hlt := Counter.rank_lt_capacity (s.counters maxRetries)
  have hcapacity :
      Counter.capacity (s.counters maxRetries) = maxAttempts maxRetries := by
    simp only [LoopState.counters, Counter.capacity, maxAttempts, Nat.mul_one]
  rwa [hcapacity] at hlt

/-! ## One attempt -/

variable {maxRetries : ℕ} {s next : LoopState}

theorem rank_afterError {e : CodexErr}
    (h : s.afterError maxRetries e = .inl next) :
    next.rank maxRetries < s.rank maxRetries := by
  rw [LoopState.afterError] at h
  split at h
  · split at h
    · next htrim =>
      cases h
      exact Counter.rank_count_up htrim.2 rfl
    · cases h
  · split at h
    · next hretry =>
      cases h
      exact Counter.rank_cons_lt rfl
        (Counter.rank_cons_lt rfl (Counter.rank_count_up hretry rfl))
    · cases h

/-- The loop goes on only with a lower rank. -/
theorem rank_afterAttempt {result : Except CodexErr Unit}
    (h : s.afterAttempt maxRetries result = .inl next) :
    next.rank maxRetries < s.rank maxRetries := by
  cases result with
  | ok => cases h
  | error e =>
      cases e with
      | interrupted => cases h
      | usageLimitReached =>
          rw [LoopState.afterAttempt] at h
          split at h
          · cases h
          · next hlimit =>
            cases h
            have hused : s.usageLimitRetries < maxCompactUsageLimitRetries :=
              Nat.lt_of_not_le hlimit
            exact Counter.rank_cons_lt rfl (Counter.rank_count_up hused rfl)
      | stream message => exact rank_afterError h
      | unexpectedStatus body => exact rank_afterError h
      | other message => exact rank_afterError h

/-! ## The loops -/

variable (sess : Session) (turnContext : TurnContext)

/-- A loop sends no more prompts than its rank allows, and has ended once it
has had as many answers. -/
theorem compactLoop_prompts (prepare : List ResponseItem → List ResponseItem)
    (s : LoopState)
    (attempts : List Attempt) :
    let run := compactLoop sess turnContext prepare s attempts
    run.prompts.length ≤ s.rank turnContext.streamMaxRetries + 1 ∧
      (s.rank turnContext.streamMaxRetries < attempts.length →
        run.ending.isSome) := by
  induction attempts generalizing s with
  | nil => exact ⟨Nat.zero_le _, fun h => absurd h (Nat.not_lt_zero _)⟩
  | cons attempt rest ih =>
      rw [compactLoop]
      simp only
      split
      next next hafter =>
        have hrank := rank_afterAttempt hafter
        obtain ⟨hprompts, hending⟩ := ih next
        constructor
        · exact Nat.succ_le_succ (hprompts.trans hrank)
        · intro hlength
          rw [List.length_cons] at hlength
          exact hending (hrank.trans_le (Nat.le_of_lt_succ hlength))
      next ending hafter =>
        exact ⟨Nat.succ_le_succ (Nat.zero_le _), fun _ => rfl⟩

/-- The loop of a path has a bounded number of attempts: it sends no more than
`bound` prompts, and has ended once it has had as many answers. -/
def EndsWithin (bound : ℕ) (loop : List Attempt → LoopRun) : Prop :=
  ∀ attempts, (loop attempts).prompts.length ≤ bound ∧
    (bound ≤ attempts.length → (loop attempts).ending.isSome)

theorem compactLoop_endsWithin (prepare : List ResponseItem → List ResponseItem)
    (s : LoopState) :
    EndsWithin (maxAttempts turnContext.streamMaxRetries)
      (compactLoop sess turnContext prepare s) := by
  intro attempts
  have hrank := s.rank_lt turnContext.streamMaxRetries
  obtain ⟨hprompts, hending⟩ :=
    compactLoop_prompts sess turnContext prepare s attempts
  exact ⟨hprompts.trans hrank, fun h => hending (hrank.trans_le h)⟩

/-- Whatever the attempts come to, both compaction loops end after a bounded
number of them. -/
theorem compactLoops_endWithin (outside : Outside) (input : List InputItem) :
    EndsWithin (maxAttempts turnContext.streamMaxRetries)
        (performCompactionLoop sess turnContext outside input) ∧
      EndsWithin (maxAttempts turnContext.streamMaxRetries)
        (runCompactTaskInnerInlineLoop sess turnContext outside input) :=
  ⟨compactLoop_endsWithin sess turnContext _ _,
    compactLoop_endsWithin sess turnContext _ _⟩

end CodeRs.Compaction
