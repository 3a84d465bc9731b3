import CodeRs.Compaction.Summary

/-!
# Failed compaction attempts

`drain_to_completed` records the items of a stream in the history of the
session while the stream is still running, and nothing takes them out when the
attempt fails.  So an error leaves the history as it was, and a summary is one
of the successful attempt alone, exactly where the failed attempts have
recorded nothing.
-/

namespace CodeRs.Compaction

open Protocol TurnQueues

/-! ## What an attempt records -/

/-- The items of an answer that the history keeps. -/
def Answer.recorded (answer : Answer) : List ResponseItem :=
  (drainToCompleted [] answer).1

theorem drainEvents_history (timedOut : Bool) (history : List ResponseItem)
    (events : List (Except CodexErr ResponseEvent)) :
    (drainEvents timedOut history events).1 =
      history ++ (drainEvents timedOut [] events).1 := by
  induction events generalizing history with
  | nil => exact (List.append_nil _).symm
  | cons event rest ih =>
      cases event with
      | error e => exact (List.append_nil _).symm
      | ok event =>
          cases event with
          | outputItemDone item =>
              simp only [drainEvents]
              rw [ih, ih (recordItems [] [item]), recordItems, recordItems,
                List.nil_append, List.append_assoc]
          | completed => exact (List.append_nil _).symm
          | other => exact ih history

/-- An attempt adds what it records at the end of the history. -/
theorem drainToCompleted_history (history : List ResponseItem)
    (answer : Answer) :
    (drainToCompleted history answer).1 = history ++ answer.recorded := by
  cases answer with
  | refused e => exact (List.append_nil _).symm
  | stream events timedOut => exact drainEvents_history timedOut history events

def recordedBy (attempts : List Attempt) : List ResponseItem :=
  attempts.flatMap fun attempt => attempt.answer.recorded

/-! ## Runs of the loop -/

variable {sess : Session} {turnContext : TurnContext}
  {prepare : List ResponseItem → List ResponseItem}

theorem afterAttempt_history {maxRetries : ℕ} {s next : LoopState}
    {result : Except CodexErr Unit}
    (h : s.afterAttempt maxRetries result = .inl next) :
    next.history = s.history := by
  have hafter := after maxRetries s result
  rw [h] at hafter
  cases hafter <;> rfl

/-- The attempts that a loop has made, one for each prompt. -/
def LoopRun.made (run : LoopRun) (attempts : List Attempt) : List Attempt :=
  attempts.take run.prompts.length

theorem compactLoop_made (s : LoopState) (attempts : List Attempt) :
    (compactLoop sess turnContext prepare s attempts).state.history =
      s.history ++
        recordedBy
          ((compactLoop sess turnContext prepare s attempts).made
            attempts) := by
  induction attempts generalizing s with
  | nil => exact (List.append_nil _).symm
  | cons attempt rest ih =>
      rw [compactLoop]
      simp only
      split
      next next hafter =>
        have hnext := afterAttempt_history hafter
        simp only at hnext ⊢
        rw [ih, hnext, drainToCompleted_history, List.append_assoc]
        rfl
      next =>
        simp only
        rw [drainToCompleted_history]
        simp [LoopRun.made, recordedBy]

/-- A loop that is still waiting has kept all that its attempts have
recorded. -/
theorem compactLoop_history {s : LoopState} {attempts : List Attempt}
    (h : (compactLoop sess turnContext prepare s attempts).ending = none) :
    (compactLoop sess turnContext prepare s attempts).state.history =
      s.history ++ recordedBy attempts := by
  induction attempts generalizing s with
  | nil => exact (List.append_nil _).symm
  | cons attempt rest ih =>
      rw [compactLoop] at h ⊢
      simp only at h ⊢
      split at h
      next next hafter =>
        have hnext := afterAttempt_history hafter
        simp only
        rw [ih h, hnext, drainToCompleted_history, List.append_assoc]
        rfl
      next => cases h

/-- A loop that is still waiting goes on from its state. -/
theorem compactLoop_append {s : LoopState} {attempts : List Attempt}
    (h : (compactLoop sess turnContext prepare s attempts).ending = none)
    (rest : List Attempt) :
    (compactLoop sess turnContext prepare s (attempts ++ rest)).state =
        (compactLoop sess turnContext prepare
          (compactLoop sess turnContext prepare s attempts).state rest).state ∧
      (compactLoop sess turnContext prepare s (attempts ++ rest)).ending =
        (compactLoop sess turnContext prepare
          (compactLoop sess turnContext prepare s attempts).state
          rest).ending := by
  induction attempts generalizing s with
  | nil => exact ⟨rfl, rfl⟩
  | cons attempt more ih =>
      rw [List.cons_append, compactLoop, compactLoop]
      rw [compactLoop] at h
      simp only at h ⊢
      split at h
      next next hafter => exact ih h
      next => cases h

theorem compactLoop_concat {s : LoopState} {attempts : List Attempt}
    {last : Attempt}
    {ending : LoopEnd}
    (hrunning : (compactLoop sess turnContext prepare s attempts).ending = none)
    (hended :
      (compactLoop sess turnContext prepare s (attempts ++ [last])).ending =
      some ending) :
    (compactLoop sess turnContext prepare s
      (attempts ++ [last])).state.history =
        s.history ++ (recordedBy attempts ++ last.answer.recorded) ∧
      ∃ mid,
        After turnContext.streamMaxRetries mid last.answer.result
          (.inr ending) := by
  obtain ⟨hstate, hend⟩ := compactLoop_append hrunning [last]
  have hhistory := compactLoop_history hrunning
  rw [hend] at hended
  rw [hstate]
  generalize (compactLoop sess turnContext prepare s attempts).state = mid at *
  rw [compactLoop] at hended ⊢
  simp only at hended ⊢
  split at hended
  next => cases hended
  next other hafter =>
    cases hended
    refine ⟨?_, { mid with
      turnInput := prepare mid.turnInput
      history := (drainToCompleted mid.history last.answer).1 }, ?_⟩
    · simp only
      rw [drainToCompleted_history, hhistory, List.append_assoc]
    · rw [← hafter, ← drainToCompleted_result mid.history]
      exact after _ _ _

/-! ## What the runs keep -/

/-- What a run that its last attempt has ended does with the history it began
with.  After success its snapshot holds the items of the successful attempt
alone, and the summary is their last text; after an error that is not answered
with the emergency fallback the history is as before. -/
def KeepsFailuresOut (before : List ResponseItem) (last : Attempt)
    (run : PerformRun) :
    Prop :=
  match run.result with
  | some (.ok ()) => run.summary = some (before ++ last.answer.recorded,
      (getLastAssistantMessageFromTurn last.answer.recorded).getD [])
  | some (.error e) => e.isPlain → run.history = before
  | none => False

/-- The failed attempts of a run have recorded nothing.  A successful one has
brought a text, unless there is none before it. -/
def FailuresSilent (before : List ResponseItem) (attempts : List Attempt)
    (last : Attempt) : Prop :=
  match last.answer.result with
  | .ok () => recordedBy attempts = [] ∧
      ((getLastAssistantMessageFromTurn last.answer.recorded).isSome ∨
        (getLastAssistantMessageFromTurn before).getD [] = [])
  | .error e => e.isPlain → recordedBy attempts = [] ∧ last.answer.recorded = []

/-- The last text of the history and of new items after it. -/
theorem getLastAssistantMessageFromTurn_append
    (before items : List ResponseItem) :
    getLastAssistantMessageFromTurn (before ++ items) =
      (getLastAssistantMessageFromTurn items).or
        (getLastAssistantMessageFromTurn before) := by
  rw [getLastAssistantMessageFromTurn, List.reverse_append,
    List.findSome?_append]
  rfl

/-- The items of the successful attempt are all that is new, and the text is
theirs. -/
theorem summary_eq_iff (before failed items : List ResponseItem) :
    (before ++ (failed ++ items),
        (getLastAssistantMessageFromTurn (before ++ (failed ++ items))).getD
          []) =
      (before ++ items, (getLastAssistantMessageFromTurn items).getD []) ↔
    failed = [] ∧ ((getLastAssistantMessageFromTurn items).isSome ∨
      (getLastAssistantMessageFromTurn before).getD [] = []) := by
  rw [Prod.mk.injEq, List.append_cancel_left_eq, List.append_left_eq_self]
  refine and_congr_right ?_
  rintro rfl
  rw [List.nil_append, getLastAssistantMessageFromTurn_append]
  cases getLastAssistantMessageFromTurn items with
  | none => simp
  | some text => simp

theorem performCompaction_result_eq_none {outside : Outside}
    {input : List InputItem}
    {attempts : List Attempt} :
    (performCompaction sess turnContext outside input attempts).result = none ↔
      (performCompactionLoop sess turnContext outside input attempts).ending =
        none := by
  rw [performCompaction]
  simp only
  split <;> simp_all

theorem keeps_iff_of_error {before history : List ResponseItem}
    {attempts : List Attempt}
    {last : Attempt} {e : CodexErr} (hresult : last.answer.result = .error e)
    (hhistory : history =
      before ++ (recordedBy attempts ++ last.answer.recorded)) :
    KeepsFailuresOut before last ⟨history, none, some (.error e)⟩ ↔
      FailuresSilent before attempts last := by
  rw [KeepsFailuresOut, FailuresSilent, hresult]
  simp only
  rw [hhistory, List.append_right_eq_self, List.append_eq_nil_iff]

/-- A run of `perform_compaction` that its last attempt has ended keeps the
failed attempts out of the history exactly where they have recorded nothing. -/
theorem performCompaction_keeps_iff (sess : Session) (turnContext : TurnContext)
    (outside : Outside) (input : List InputItem) (attempts : List Attempt)
    (last : Attempt)
    (hrunning :
      (performCompaction sess turnContext outside input attempts).result = none)
    (hended : (performCompaction sess turnContext outside input
      (attempts ++ [last])).result ≠ none) :
    KeepsFailuresOut sess.history last
        (performCompaction sess turnContext outside input
          (attempts ++ [last])) ↔
      FailuresSilent sess.history attempts last := by
  rw [performCompaction_result_eq_none] at hrunning
  rw [ne_eq, performCompaction_result_eq_none] at hended
  obtain ⟨ending, hending⟩ := Option.ne_none_iff_exists'.1 hended
  obtain ⟨hhistory, mid, hafter⟩ := compactLoop_concat hrunning hending
  have hrun : (performCompactionLoop sess turnContext outside input
      (attempts ++ [last])).state.history =
    sess.history ++ (recordedBy attempts ++ last.answer.recorded) := hhistory
  rw [performCompaction, hending]
  generalize hresult : last.answer.result = result at hafter
  cases hafter with
  | completed =>
      rw [KeepsFailuresOut, FailuresSilent, hresult]
      simp only
      rw [hrun, Option.some.injEq]
      exact summary_eq_iff _ _ _
  | interrupted => exact keeps_iff_of_error hresult hrun
  | failed hplain => exact keeps_iff_of_error hresult hrun
  | usageLimit =>
      rw [KeepsFailuresOut, FailuresSilent, hresult]
      exact iff_of_true (fun hplain => absurd hplain (by decide))
        fun hplain => absurd hplain (by decide)
  | overflow hover =>
      have hnot : ∀ {e : CodexErr}, isContextOverflowError e → ¬e.isPlain := by
        intro e hover hplain
        simp [CodexErr.isPlain, hover] at hplain
      rw [KeepsFailuresOut, FailuresSilent, hresult]
      exact iff_of_true (fun hplain => absurd hplain (hnot hover))
        fun hplain => absurd hplain (hnot hover)

/-- A session without history. -/
def freshSession : Session where
  history := []
  timelineItems := none
  envCtxV2 := false
  ctxUi := false
  chatgptAuth := true
  parsesAsEnvironment := fun _ => false
  disableResponseStorage := false
  userShell := []
  modelDescriptions := none
  initialContext := []

def oneRetry : TurnContext where
  userInstructions := none
  cwd := .absolute []
  approvalPolicy := .never
  sandboxPolicy := .readOnly
  streamMaxRetries := 1

/-- Nothing is read or saved outside. -/
def nothingOutside : Outside := ⟨fun _ => none, fun _ _ => .error []⟩

/-- A message of the model. -/
def reply (text : Text) : ResponseItem := .ofText "assistant" (.outputText text)

def refusedAttempt : Attempt := ⟨⟨none, [], []⟩, .refused (.other [])⟩

/-- An attempt that brings a message and fails. -/
def droppedAttempt : Attempt :=
  ⟨⟨none, [], []⟩,
    .stream [.ok (.outputItemDone (reply ['h', 'a', 'l', 'f'])),
      .error (.other [])] false⟩

/-- An attempt that brings a message and completes. -/
def fullAttempt : Attempt :=
  ⟨⟨none, [], []⟩,
    .stream [.ok (.outputItemDone (reply ['a', 'l', 'l'])),
      .ok .completed] false⟩

theorem performCompaction_keeps_refused :
    KeepsFailuresOut freshSession.history fullAttempt
      (performCompaction freshSession oneRetry nothingOutside []
        ([refusedAttempt] ++ [fullAttempt])) :=
  (performCompaction_keeps_iff freshSession oneRetry nothingOutside []
    [refusedAttempt]
    fullAttempt (by rfl) (by decide)).2 ⟨rfl, .inl rfl⟩

/-- The message of a failed attempt stays after the error, and is in the
snapshot that is summarised after a successful retry. -/
theorem performCompaction_droppedAttempt :
    (performCompaction freshSession oneRetry nothingOutside []
        [droppedAttempt, droppedAttempt]).result = some (.error (.other [])) ∧
      (performCompaction freshSession oneRetry nothingOutside []
          [droppedAttempt, droppedAttempt]).history =
        [reply ['h', 'a', 'l', 'f'], reply ['h', 'a', 'l', 'f']] ∧
      freshSession.history = [] ∧
      (performCompaction freshSession oneRetry nothingOutside []
          [droppedAttempt, fullAttempt]).result = some (.ok ()) ∧
      (performCompaction freshSession oneRetry nothingOutside []
          [droppedAttempt, fullAttempt]).summary =
        some ([reply ['h', 'a', 'l', 'f'], reply ['a', 'l', 'l']],
          ['a', 'l', 'l']) := by
  decide

end CodeRs.Compaction
