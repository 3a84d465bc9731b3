import CodeRs.Compaction.Task

/-!
# The prompts of the two compaction paths

Both paths send the same prompts, without orphaned tool outputs, exactly where
no trim from the front of the turn input parts a call from its output:
`perform_compaction` prunes the turn input before each prompt and the inline
path sends it as it is.
-/

namespace CodeRs.Compaction

open Protocol TurnQueues

/-! ## Answers -/

/-- A context-overflow error. -/
def isOverflow : Except CodexErr Unit → Bool
  | .error e => isContextOverflowError e
  | .ok () => false

/-- The context overflows among the answers. -/
def overflowCount (attempts : List Attempt) : ℕ :=
  attempts.countP fun attempt => isOverflow attempt.answer.result

/-! ## One attempt -/

/-- A loop that goes on has kept its turn input, or has trimmed it after an
overflow. -/
theorem afterAttempt_inl {maxRetries : ℕ} {s next : LoopState}
    {result : Except CodexErr Unit}
    (h : s.afterAttempt maxRetries result = .inl next) :
    next.turnInput = s.turnInput ∧ next.truncatedCount = s.truncatedCount ∨
      isOverflow result ∧ s.truncatedCount < maxCompactContextOverflowTrims ∧
        next.turnInput = s.turnInput.tail ∧
        next.truncatedCount = s.truncatedCount + 1 := by
  have hafter := after maxRetries s result
  rw [h] at hafter
  cases hafter with
  | usageLimitRetry => exact .inl ⟨rfl, rfl⟩
  | trim hover hlength hcount => exact .inr ⟨hover, hcount, rfl, rfl⟩
  | retry hplain => exact .inl ⟨rfl, rfl⟩

/-! ## Lockstep -/

variable {sess : Session} {turnContext : TurnContext}

/-- What `perform_compaction` does to the turn input before a prompt. -/
def prune (items : List ResponseItem) : List ResponseItem :=
  (pruneOrphanToolOutputs items).1

/-- The turn input is what is left of it after the trims so far, and with those
that the attempts to come can cause there are at most `n`. -/
structure Trimmed (turnInput : List ResponseItem) (n : ℕ) (s : LoopState)
    (attempts : List Attempt) : Prop where
  turnInput_eq : s.turnInput = turnInput.drop s.truncatedCount
  count_le : s.truncatedCount ≤ maxCompactContextOverflowTrims
  total_le : s.truncatedCount + overflowCount attempts ≤ n

theorem Trimmed.next {turnInput : List ResponseItem} {n maxRetries : ℕ}
    {s next : LoopState} {attempt : Attempt} {rest : List Attempt}
    (h : Trimmed turnInput n s (attempt :: rest))
    (hafter : s.afterAttempt maxRetries attempt.answer.result = .inl next) :
    Trimmed turnInput n next rest := by
  have htotal := h.total_le
  rw [overflowCount, List.countP_cons, ← overflowCount] at htotal
  rcases afterAttempt_inl hafter with
    ⟨hkeep, hsame⟩ | ⟨hover, hlt, htail, hsucc⟩
  · refine ⟨?_, ?_, ?_⟩
    · rw [hkeep, hsame, h.turnInput_eq]
    · rw [hsame]
      exact h.count_le
    · rw [hsame]
      exact Nat.le_trans (Nat.add_le_add_left (Nat.le_add_right _ _) _) htotal
  · rw [if_pos hover] at htotal
    refine ⟨?_, ?_, ?_⟩
    · rw [htail, hsucc, h.turnInput_eq, List.tail_drop]
    · rw [hsucc]
      exact hlt
    · rw [hsucc]
      omega

/-- As long as no trim leaves an orphan the loops agree and their prompts are
clean. -/
theorem compactLoop_agree {turnInput : List ResponseItem} {n : ℕ}
    (hclean : ∀ k ≤ n, k ≤ maxCompactContextOverflowTrims →
      NoOrphans (turnInput.drop k))
    {attempts : List Attempt} {s : LoopState}
    (hs : Trimmed turnInput n s attempts) :
    (compactLoop sess turnContext id s attempts).prompts =
        (compactLoop sess turnContext prune s attempts).prompts ∧
      ∀ prompt ∈ (compactLoop sess turnContext id s attempts).prompts,
        NoOrphans prompt.input := by
  induction attempts generalizing s with
  | nil => exact ⟨rfl, fun prompt hprompt => by cases hprompt⟩
  | cons attempt rest ih =>
      have hnow : NoOrphans s.turnInput := by
        rw [hs.turnInput_eq]
        exact hclean _ (Nat.le_trans (Nat.le_add_right _ _) hs.total_le)
          hs.count_le
      have hprune : prune s.turnInput = s.turnInput :=
        pruneOrphanToolOutputs_eq_self.2 hnow
      rw [compactLoop, compactLoop, hprune]
      simp only [id]
      cases hafter : LoopState.afterAttempt turnContext.streamMaxRetries
          { s with history := (drainToCompleted s.history attempt.answer).1 }
          (drainToCompleted s.history attempt.answer).2 with
      | inr ending =>
          refine ⟨rfl, ?_⟩
          intro prompt hprompt
          rw [List.mem_singleton.1 hprompt]
          exact hnow
      | inl next =>
          rw [drainToCompleted_result] at hafter
          have hdrained : Trimmed turnInput n
              { s with
                history := (drainToCompleted s.history attempt.answer).1 }
              (attempt :: rest) := ⟨hs.turnInput_eq, hs.count_le, hs.total_le⟩
          obtain ⟨hagree, hrest⟩ := ih (hdrained.next hafter)
          simp only
          rw [hagree] at hrest ⊢
          exact ⟨rfl, List.forall_mem_cons.2 ⟨hnow, hrest⟩⟩

/-- The text of an error that the service sends when the input is too long. -/
def contextLengthExceeded : CodexErr := .stream "context_length_exceeded".toList

theorem isContextOverflowError_contextLengthExceeded :
    isContextOverflowError contextLengthExceeded = true := by
  have hlower : Text.toAsciiLowercase "context_length_exceeded".toList =
      "context_length_exceeded".toList := by decide
  have hcontains : Text.contains "context_length_exceeded".toList
      "context_length_exceeded" = true := decide_eq_true (List.infix_refl _)
  rw [contextLengthExceeded, isContextOverflowError,
    looksLikeContextOverflow, hlower]
  simp only [hcontains, Bool.true_or]

/-- An attempt that the service refuses as too long. -/
def tooLong (machine : MachineFacts) : Attempt :=
  ⟨machine, .refused contextLengthExceeded⟩

/-- An attempt that completes without output. -/
def completes (machine : MachineFacts) : Attempt :=
  ⟨machine, .stream [.ok .completed] false⟩

theorem overflowCount_tooLong (machine : MachineFacts) (k : ℕ) :
    overflowCount (List.replicate k (tooLong machine) ++ [completes machine]) =
      k := by
  have hover : isOverflow (tooLong machine).answer.result = true :=
    isContextOverflowError_contextLengthExceeded
  rw [overflowCount, List.countP_append, List.countP_replicate, if_pos hover]
  rfl

/-- Enough overflows bring the inline path to any trim. -/
theorem exists_inline_prompt (machine : MachineFacts) (k : ℕ) (s : LoopState)
    (hlength : k < s.turnInput.length)
    (hcount : s.truncatedCount + k ≤ maxCompactContextOverflowTrims) :
    ∃ prompt ∈ (compactLoop sess turnContext id s
        (List.replicate k (tooLong machine) ++ [completes machine])).prompts,
      prompt.input = s.turnInput.drop k := by
  induction k generalizing s with
  | zero => exact ⟨_, List.mem_singleton.2 rfl, rfl⟩
  | succ k ih =>
      have htrim :
          s.afterError turnContext.streamMaxRetries contextLengthExceeded =
          .inl { s with
            turnInput := s.turnInput.tail
            truncatedCount := s.truncatedCount + 1
            retries := 0
            usageLimitRetries := 0 } := by
        rw [LoopState.afterError,
          if_pos isContextOverflowError_contextLengthExceeded,
          if_pos ⟨by omega, by omega⟩]
      obtain ⟨prompt, hprompt, hinput⟩ := ih { s with
          turnInput := s.turnInput.tail
          truncatedCount := s.truncatedCount + 1
          retries := 0
          usageLimitRetries := 0 }
        (by rw [List.length_tail]; omega) (by simp only; omega)
      refine ⟨prompt, ?_, ?_⟩
      · rw [List.replicate_succ, List.cons_append, compactLoop]
        have hafter : LoopState.afterAttempt turnContext.streamMaxRetries s
            (.error contextLengthExceeded) = _ := htrim
        simp only [tooLong, drainToCompleted, id, hafter]
        exact List.mem_cons_of_mem _ hprompt
      · rw [hinput, List.drop_tail]

/-! ## The two paths -/

/-- With up to `n` overflows the paths send the same prompts, none with an
orphaned output, exactly where no allowed trim leaves an orphan. -/
theorem prompts_agree_iff (sess : Session) (turnContext : TurnContext)
    (outside : Outside)
    (input : List InputItem) (n : ℕ) :
    (∀ attempts, overflowCount attempts ≤ n →
      (runCompactTaskInnerInlineLoop sess turnContext outside input
        attempts).prompts =
          (performCompactionLoop sess turnContext outside input
            attempts).prompts ∧
        ∀ prompt ∈ (runCompactTaskInnerInlineLoop sess turnContext outside input
          attempts).prompts, NoOrphans prompt.input) ↔
      ∀ k ≤ n, k ≤ maxCompactContextOverflowTrims →
        NoOrphans
          ((sess.compactTurnInput (promptItem outside input)).drop k) := by
  constructor
  · intro hall k hk hmax
    by_cases hlength : k <
      (sess.compactTurnInput (promptItem outside input)).length
    · obtain ⟨prompt, hprompt, hinput⟩ := @exists_inline_prompt sess turnContext
        ⟨none, [], []⟩ k
        (.start sess.history (sess.compactTurnInput (promptItem outside input)))
        hlength
        (by simpa [LoopState.start] using hmax)
      have hcount : overflowCount (List.replicate k (tooLong ⟨none, [], []⟩) ++
          [completes ⟨none, [], []⟩]) ≤ n := by
        rw [overflowCount_tooLong]
        exact hk
      have hclean := (hall _ hcount).2 prompt hprompt
      rw [hinput] at hclean
      exact hclean
    · rw [List.drop_eq_nil_of_le (Nat.not_lt.1 hlength)]
      intro item hitem
      cases hitem
  · intro hclean attempts hattempts
    have hstart : Trimmed (sess.compactTurnInput (promptItem outside input)) n
        (.start sess.history (sess.compactTurnInput (promptItem outside input)))
        attempts := by
      refine ⟨rfl, Nat.zero_le _, ?_⟩
      rw [LoopState.start, Nat.zero_add]
      exact hattempts
    exact compactLoop_agree hclean hstart

/-- A session whose history is one tool call and its output. -/
def callAndOutput : Session where
  history := [.functionCall none "shell" none [] "call",
    .functionCallOutput "call" (.fromText ['x'])]
  timelineItems := none
  envCtxV2 := false
  ctxUi := false
  chatgptAuth := true
  parsesAsEnvironment := fun _ => false
  disableResponseStorage := false
  userShell := []
  modelDescriptions := none
  initialContext := []

def rootTurn : TurnContext where
  userInstructions := none
  cwd := .absolute []
  approvalPolicy := .never
  sandboxPolicy := .readOnly
  streamMaxRetries := 0

/-- A machine without files. -/
def noFiles : Outside := ⟨fun _ => none, fun _ _ => .error []⟩

/-- After one overflow the inline path sends the output without its call, which
`perform_compaction` has pruned. -/
theorem prompts_callAndOutput :
    let attempts := [tooLong ⟨none, [], []⟩, completes ⟨none, [], []⟩]
    let message := ResponseItem.message none "user" [.inputText ['s']] none none
    (runCompactTaskInnerInlineLoop callAndOutput rootTurn noFiles [.text ['s']]
        attempts).prompts.map Prompt.input =
      [callAndOutput.history ++ [message],
        [.functionCallOutput "call" (.fromText ['x']), message]] ∧
    (performCompactionLoop callAndOutput rootTurn noFiles [.text ['s']]
        attempts).prompts.map Prompt.input =
      [callAndOutput.history ++ [message], [message]] := by
  decide

end CodeRs.Compaction
