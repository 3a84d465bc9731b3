import CodeRs.Lib.Text
import Mathlib.Algebra.GroupWithZero.Nat

/-!
# The phases of an Auto Drive run

The phases and continue modes of `code-auto-drive-core/src/controller.rs`, and
the transition table on its own.  A transition names the next phase and what
becomes of the review lock, so the table can be read without the rest of the
controller.
-/

namespace CodeRs.AutoDrive

inductive AutoContinueMode where
  | immediate
  | tenSeconds
  | sixtySeconds
  | manual
  deriving DecidableEq, Repr

def AutoContinueMode.seconds : AutoContinueMode → Option UInt8
  | .immediate => some 0
  | .tenSeconds => some 10
  | .sixtySeconds => some 60
  | .manual => none

inductive AutoRunPhase where
  | idle
  | awaitingGoalEntry
  | launching
  | active
  | pausedManual (resumeAfterSubmit bypassNextSubmit : Bool)
  | awaitingCoordinator (promptReady : Bool)
  | awaitingDiagnostics (coordinatorWaiting : Bool)
  | awaitingReview (diagnosticsPending : Bool)
  | transientRecovery (backoffMs : UInt64)
  deriving DecidableEq, Repr

namespace AutoRunPhase

def isActive : AutoRunPhase → Bool
  | idle | awaitingGoalEntry => false
  | _ => true

def awaitingCoordinatorSubmit : AutoRunPhase → Bool
  | awaitingCoordinator true => true
  | _ => false

def isPausedManual : AutoRunPhase → Bool
  | pausedManual _ _ => true
  | _ => false

def isWaitingForResponse : AutoRunPhase → Bool
  | awaitingDiagnostics _ => true
  | _ => false

def inTransientRecovery : AutoRunPhase → Bool
  | transientRecovery _ => true
  | _ => false

/-- The phase is `AwaitingReview`: `AutoRunPhase::awaiting_review`. -/
def isAwaitingReview : AutoRunPhase → Bool
  | awaitingReview _ => true
  | _ => false

theorem isActive_of_awaitingCoordinatorSubmit {phase : AutoRunPhase}
    (h : phase.awaitingCoordinatorSubmit = true) :
    phase.isActive = true ∧ phase.isPausedManual = false := by
  cases phase with
  | awaitingCoordinator promptReady => exact ⟨rfl, rfl⟩
  | _ => cases h

end AutoRunPhase

inductive PhaseTransition where
  | beginLaunch
  | launchSuccess
  | launchFailed
  | pauseForManualEdit (resumeAfterSubmit : Bool)
  | resumeFromManual
  | promptReady
  | submitPrompt
  | awaitDiagnostics
  | beginReview (diagnosticsPending : Bool)
  | completeReview
  | transientFailure (backoffMs : UInt64)
  | recoveryAttempt
  | stop
  deriving DecidableEq, Repr

/-- `ReviewGuard`: holding one is holding the global review lock. -/
structure ReviewGuard where
  lockPath : Text
  deriving DecidableEq, Repr

/-- A review begins if there is a lock for it; else the run stays active. -/
def beginReview (diagnosticsPending : Bool) :
    Option ReviewGuard → AutoRunPhase × Option ReviewGuard
  | none => (.active, none)
  | some guard => (.awaitingReview diagnosticsPending, some guard)

/-- The match of `transition` on the phase and the transition, for a review
lock that is held or not.  `acquired` is what `try_acquire_lock` gives where
the code calls it. -/
def phaseAfter (acquired : Option ReviewGuard) (phase : AutoRunPhase)
    (lock : Option ReviewGuard) :
    PhaseTransition → AutoRunPhase × Option ReviewGuard
  | .beginLaunch =>
      match phase with
      | .idle | .awaitingGoalEntry => (.launching, lock)
      | _ => (phase, lock)
  | .launchSuccess =>
      match phase with
      | .launching => (.active, lock)
      | _ => (phase, lock)
  | .launchFailed =>
      match phase with
      | .launching => (.awaitingGoalEntry, lock)
      | _ => (phase, lock)
  | .pauseForManualEdit resumeAfterSubmit =>
      match phase with
      | .active => (.pausedManual resumeAfterSubmit false, lock)
      | _ => (phase, lock)
  | .resumeFromManual =>
      match phase with
      | .pausedManual _ _ => (.active, lock)
      | _ => (phase, lock)
  | .promptReady =>
      match phase with
      | .active => (.awaitingCoordinator true, lock)
      | _ => (phase, lock)
  | .submitPrompt =>
      match phase with
      | .awaitingCoordinator _ => (.active, lock)
      | _ => (phase, lock)
  | .awaitDiagnostics =>
      match phase with
      | .active => (.awaitingDiagnostics true, lock)
      | _ => (phase, lock)
  | .beginReview diagnosticsPending =>
      match phase with
      | .awaitingDiagnostics _ | .active =>
          -- A lock that is already held is kept, and none is acquired.
          beginReview diagnosticsPending (lock <|> acquired)
      | _ => (phase, lock)
  | .completeReview =>
      match phase with
      | .awaitingReview _ => (.active, none)
      | _ => (phase, lock)
  | .transientFailure backoffMs =>
      if phase.isActive then (.transientRecovery backoffMs, lock)
        else (phase, lock)
  | .recoveryAttempt =>
      match phase with
      | .transientRecovery _ => (.active, lock)
      | _ => (phase, lock)
  | .stop => (.idle, none)

end CodeRs.AutoDrive

/-! ## The Auto Drive controller

`AutoDriveController` of `code-auto-drive-core/src/controller.rs` and every
method of it that changes its state.  An instant and a duration are a number of
milliseconds.  The time and the review lock come from outside: a method that
reads the clock or calls `try_acquire_lock` takes what it gets there as an
argument. -/

namespace CodeRs.AutoDrive

inductive ReasoningEffort where
  | minimal
  | low
  | medium
  | high
  | xHigh
  | none
  deriving DecidableEq, Repr

inductive AutoTurnAgentsTiming where
  | parallel
  | blocking
  deriving DecidableEq, Repr

structure AutoTurnAgentsAction where
  prompt : Text
  context : Option Text
  write : Bool
  writeRequested : Option Bool
  models : Option (List Text)
  deriving DecidableEq, Repr

structure AutoRunSummary where
  duration : ℕ
  turnsCompleted : ℕ
  message : Option Text
  goal : Option Text
  deriving DecidableEq, Repr

structure AutoRestartState where
  token : UInt64
  attempt : ℕ
  reason : Text
  deriving DecidableEq, Repr

inductive AutoControllerEffect where
  | refreshUi
  | startCountdown (countdownId decisionSeq : UInt64) (seconds : UInt8)
  | submitPrompt
  | launchStarted (goal : Text)
  | launchFailed (goal error : Text)
  | stopCompleted (summary : AutoRunSummary) (message : Option Text)
  | transientPause (attempt delay : ℕ) (reason : Text)
  | scheduleRestart (token : UInt64) (attempt delay : ℕ)
  | cancelCoordinator
  | resetHistory
  | updateTerminalHint (hint : Option Text)
  | setTaskRunning (running : Bool)
  | ensureInputFocus
  | clearCoordinatorView
  | showGoalEntry
  deriving DecidableEq, Repr

/-- The fields of the controller that only the interface reads. -/
structure AutoDisplay where
  currentSummary : Option Text := none
  currentStatusSentToUser : Option Text := none
  currentStatusTitle : Option Text := none
  currentCliPrompt : Option Text := none
  currentCliContext : Option Text := none
  currentCliModelOverride : Option Text := none
  currentCliReasoningEffortOverride : Option ReasoningEffort := none
  hideCliContextInUi : Bool := false
  suppressNextCliDisplay : Bool := false
  currentDisplayLine : Option Text := none
  currentDisplayIsSummary : Bool := false
  currentReasoningTitle : Option Text := none
  placeholderPhrase : Option Text := none
  thinkingPrefixStripped : Bool := false
  currentSummaryIndex : Option ℕ := none
  lastBroadcastSummary : Option Text := none
  lastDecisionSummary : Option Text := none
  lastDecisionStatusSentToUser : Option Text := none
  lastDecisionStatusTitle : Option Text := none
  lastDecisionDisplay : Option Text := none
  lastDecisionDisplayIsSummary : Bool := false
  deriving DecidableEq, Repr

/-- `AutoDriveController`.  The default of every field is the one of
`Self::default()`. -/
structure AutoDriveController where
  goal : Option Text := none
  display : AutoDisplay := {}
  countdownId : UInt64 := 0
  countdownDecisionSeq : UInt64 := 0
  secondsRemaining : UInt8 := 0
  countdownOverride : Option UInt8 := none
  reviewEnabled : Bool := false
  subagentsEnabled : Bool := false
  crossCheckEnabled : Bool := false
  qaAutomationEnabled : Bool := false
  pendingAgentActions : List AutoTurnAgentsAction := []
  pendingAgentTiming : Option AutoTurnAgentsTiming := none
  continueMode : AutoContinueMode := .tenSeconds
  startedAt : Option ℕ := none
  turnsCompleted : ℕ := 0
  lastRunSummary : Option AutoRunSummary := none
  pendingRestart : Option AutoRestartState := none
  restartToken : UInt64 := 0
  transientRestartAttempts : ℕ := 0
  introStartedAt : Option ℕ := none
  introReducedMotion : Bool := false
  introPending : Bool := false
  elapsedOverride : Option ℕ := none
  pendingStopMessage : Option Text := none
  lastCompletionExplanation : Option Text := none
  phase : AutoRunPhase := .idle
  reviewLock : Option ReviewGuard := none
  deriving DecidableEq, Repr

namespace AutoDriveController

/-! ## Phases -/

/-- `apply_phase`, which `set_phase` is too. -/
def applyPhase (c : AutoDriveController) (phase : AutoRunPhase) :
    AutoDriveController :=
  { c with phase }

def setWaitingForResponse (c : AutoDriveController) (waiting : Bool) :
    AutoDriveController :=
  if waiting then c.applyPhase (.awaitingDiagnostics true)
  else if c.phase.isWaitingForResponse then c.applyPhase .active
  else c

theorem setWaitingForResponse_eq (c : AutoDriveController) (waiting : Bool) :
    ∃ phase, c.setWaitingForResponse waiting = c.applyPhase phase := by
  unfold setWaitingForResponse
  split
  · exact ⟨_, rfl⟩
  · split
    · exact ⟨_, rfl⟩
    · exact ⟨c.phase, rfl⟩

def setCoordinatorWaiting (c : AutoDriveController) (waiting : Bool) :
    AutoDriveController :=
  match c.phase with
  | .awaitingDiagnostics _ => c.applyPhase (.awaitingDiagnostics waiting)
  | _ => if waiting then c.applyPhase (.awaitingDiagnostics true) else c

theorem setCoordinatorWaiting_eq (c : AutoDriveController) (waiting : Bool) :
    ∃ phase, c.setCoordinatorWaiting waiting = c.applyPhase phase := by
  unfold setCoordinatorWaiting
  split
  · exact ⟨_, rfl⟩
  · split
    · exact ⟨_, rfl⟩
    · exact ⟨c.phase, rfl⟩

def onPromptReady (c : AutoDriveController) (promptReady : Bool) :
    AutoDriveController :=
  c.applyPhase (.awaitingCoordinator promptReady)

def onPromptSubmitted (c : AutoDriveController) : AutoDriveController :=
  { c with countdownOverride := none }.applyPhase (.awaitingDiagnostics true)

def onPauseForManual (c : AutoDriveController) (resumeAfterSubmit : Bool) :
    AutoDriveController :=
  c.applyPhase (.pausedManual resumeAfterSubmit false)

/-- `on_resume_from_manual`, which also bumps the snapshot epoch on disk. -/
def onResumeFromManual (c : AutoDriveController) : AutoDriveController :=
  c.applyPhase .active

/-- `on_begin_review`: a lock that was held is dropped for the new outcome. -/
def onBeginReview (c : AutoDriveController) (diagnosticsPending : Bool)
    (acquired : Option ReviewGuard) : AutoDriveController :=
  let c :=
    { c.applyPhase (.awaitingReview diagnosticsPending) with
      reviewLock := acquired }
  if c.reviewLock = none then c.applyPhase .active else c

theorem onBeginReview_eq (c : AutoDriveController) (diagnosticsPending : Bool)
    (acquired : Option ReviewGuard) :
    c.onBeginReview diagnosticsPending acquired =
      match acquired with
      | none => { c.applyPhase .active with reviewLock := none }
      | some guard =>
          { c.applyPhase (.awaitingReview diagnosticsPending) with
            reviewLock := some guard } := by
  cases acquired with
  | none => rfl
  | some guard => rfl

def onCompleteReview (c : AutoDriveController) : AutoDriveController :=
  { c.applyPhase .active with reviewLock := none }

def onTransientFailure (c : AutoDriveController) (backoffMs : UInt64) :
    AutoDriveController :=
  c.applyPhase (.transientRecovery backoffMs)

def onRecoveryAttempt (c : AutoDriveController) : AutoDriveController :=
  if c.phase.inTransientRecovery then c.applyPhase .active else c

theorem onRecoveryAttempt_eq (c : AutoDriveController) :
    ∃ phase, c.onRecoveryAttempt = c.applyPhase phase := by
  unfold onRecoveryAttempt
  split
  · exact ⟨_, rfl⟩
  · exact ⟨c.phase, rfl⟩

/-- `transition`, whose list of effects is always empty, with its
`phase_changed`. -/
def transition (c : AutoDriveController) (t : PhaseTransition)
    (acquired : Option ReviewGuard) : AutoDriveController × Bool :=
  let result := phaseAfter acquired c.phase c.reviewLock t
  ({ c with phase := result.1, reviewLock := result.2 },
    decide (c.phase ≠ result.1))

/-- `set_bypass_coordinator_next_submit` and `clear_bypass_coordinator_flag`. -/
def setBypass (c : AutoDriveController) (bypass : Bool) : AutoDriveController :=
  match c.phase with
  | .pausedManual resumeAfterSubmit _ =>
      c.applyPhase (.pausedManual resumeAfterSubmit bypass)
  | _ => c

theorem setBypass_eq (c : AutoDriveController) (bypass : Bool) :
    ∃ phase, c.setBypass bypass = c.applyPhase phase := by
  unfold setBypass
  split
  · exact ⟨_, rfl⟩
  · exact ⟨c.phase, rfl⟩

/-! ## Countdowns -/

def countdownSeconds (c : AutoDriveController) : Option UInt8 :=
  c.countdownOverride <|> c.continueMode.seconds

/-- `reset_countdown`: where no seconds are left to count, the decision is
forgotten. -/
def resetCountdown (c : AutoDriveController) : AutoDriveController :=
  let secondsRemaining := c.countdownSeconds.getD 0
  { c with
    secondsRemaining
    countdownDecisionSeq := if secondsRemaining = 0 then 0
      else c.countdownDecisionSeq }

/-- The effects of a countdown that starts if there are seconds to count. -/
def countdownEffects (c : AutoDriveController) (decisionSeq : UInt64) :
    List AutoControllerEffect :=
  match c.countdownSeconds with
  | some seconds => [.startCountdown c.countdownId decisionSeq seconds]
  | none => []

/-- What a reading of the effects finds in those of a countdown, if it finds
the same for every number of seconds. -/
theorem filterMap_countdownEffects {β : Type*}
    {f : AutoControllerEffect → Option β}
    {r : Option β} (c : AutoDriveController) (decisionSeq : UInt64)
    (h : ∀ seconds, f (.startCountdown c.countdownId decisionSeq seconds) = r) :
    (c.countdownEffects decisionSeq).filterMap f =
      if c.countdownSeconds.isSome then r.toList else [] := by
  unfold countdownEffects
  cases c.countdownSeconds with
  | none => rfl
  | some seconds =>
      rw [List.filterMap_cons, h seconds]
      cases r with
      | none => rfl
      | some found => rfl

def scheduleCliPrompt (c : AutoDriveController) (decisionSeq : UInt64)
    (promptText : Text)
    (cliModelOverride : Option Text)
    (cliReasoningEffortOverride : Option ReasoningEffort)
    (countdownOverride : Option UInt8) :
    AutoDriveController × List AutoControllerEffect :=
  let display :=
    { c.display with
      currentCliPrompt := some promptText
      currentCliModelOverride := cliModelOverride
      currentCliReasoningEffortOverride := cliReasoningEffortOverride }
  let c :=
    { c with display, phase := .awaitingCoordinator true, countdownOverride }
  let c := c.resetCountdown
  let c := { c with
    countdownId := c.countdownId + 1
    countdownDecisionSeq := decisionSeq
    secondsRemaining := c.countdownSeconds.getD 0 }
  (c, .refreshUi :: c.countdownEffects decisionSeq)

/-- `update_continue_mode` up to its effects. -/
def withContinueMode (c : AutoDriveController) (mode : AutoContinueMode) :
    AutoDriveController :=
  let c :=
    { c with continueMode := mode, countdownOverride := none }.resetCountdown
  { c with secondsRemaining := c.countdownSeconds.getD 0 }

def updateContinueMode (c : AutoDriveController) (mode : AutoContinueMode) :
    AutoDriveController × List AutoControllerEffect :=
  let c := c.withContinueMode mode
  if c.phase.awaitingCoordinatorSubmit ∧ ¬ c.phase.isPausedManual then
    let c := { c with countdownId := c.countdownId + 1 }
    (c, .refreshUi :: c.countdownEffects c.countdownDecisionSeq)
  else (c, [.refreshUi])

def handleCountdownTick (c : AutoDriveController)
    (countdownId decisionSeq : UInt64)
    (secondsLeft : UInt8) : AutoDriveController × List AutoControllerEffect :=
  if ¬ c.phase.isActive ∨ countdownId ≠ c.countdownId ∨
      decisionSeq ≠ c.countdownDecisionSeq ∨
      ¬ c.phase.awaitingCoordinatorSubmit ∨
      c.phase.isPausedManual then
    (c, [])
  else
    ({ c with secondsRemaining := secondsLeft },
      if secondsLeft = 0 then [.submitPrompt] else [.refreshUi])

/-! ## The introduction -/

def resetIntroTiming (c : AutoDriveController) : AutoDriveController :=
  { c with introStartedAt := none, introReducedMotion := false }

def ensureIntroTiming (c : AutoDriveController)
    (reducedMotion : Bool) (now : ℕ) :
    AutoDriveController :=
  { c with
    introStartedAt := c.introStartedAt <|> some now
    introReducedMotion := reducedMotion }

def markIntroPending (c : AutoDriveController) : AutoDriveController :=
  { c with introPending := true }

def takeIntroPending (c : AutoDriveController) : AutoDriveController × Bool :=
  if c.introPending then ({ c with introPending := false }, true)
    else (c, false)

/-! ## Launches and stops -/

/-- `reset`.  The phase that the code looks at in the end is the one of
`Self::default()`, which is not active. -/
def reset (c : AutoDriveController) : AutoDriveController :=
  let d : AutoDriveController := {}
  { d with
    reviewEnabled := c.reviewEnabled
    subagentsEnabled := c.subagentsEnabled
    crossCheckEnabled := c.crossCheckEnabled
    qaAutomationEnabled := c.qaAutomationEnabled
    continueMode := c.continueMode
    secondsRemaining := c.continueMode.seconds.getD 0
    introPending := c.introPending
    introStartedAt := c.introStartedAt
    introReducedMotion := c.introReducedMotion
    elapsedOverride := c.elapsedOverride
    pendingStopMessage := c.pendingStopMessage
    lastCompletionExplanation := c.lastCompletionExplanation
    reviewLock := none
    phase := if d.phase.isActive then .active else .idle }

/-- The arguments of `prepare_launch`. -/
structure Launch where
  goal : Text
  reviewEnabled : Bool
  subagentsEnabled : Bool
  crossCheckEnabled : Bool
  qaAutomationEnabled : Bool
  continueMode : AutoContinueMode
  reducedMotion : Bool
  deriving DecidableEq, Repr

/-- `prepare_launch`.  Beginning a launch acquires no lock. -/
def prepareLaunch (c : AutoDriveController) (launch : Launch) (now : ℕ) :
    AutoDriveController :=
  let (c, seedIntro) := c.takeIntroPending
  let c := c.reset
  let c := if seedIntro then c.markIntroPending else c
  let c := { c with
    reviewEnabled := launch.reviewEnabled
    subagentsEnabled := launch.subagentsEnabled
    crossCheckEnabled := launch.crossCheckEnabled
    qaAutomationEnabled := launch.qaAutomationEnabled
    continueMode := launch.continueMode }
  let c := (c.resetCountdown).ensureIntroTiming launch.reducedMotion now
  ({ c with goal := some launch.goal }.transition .beginLaunch none).1

def launchSucceeded (c : AutoDriveController) (goal : Text)
    (placeholderPhrase : Option Text) (now : ℕ) :
    AutoDriveController × List AutoControllerEffect :=
  let display : AutoDisplay :=
    { placeholderPhrase
      lastDecisionSummary := c.display.lastDecisionSummary
      lastDecisionDisplay := c.display.lastDecisionDisplay
      lastDecisionDisplayIsSummary := c.display.lastDecisionDisplayIsSummary }
  let c := { c with
    startedAt := some now
    turnsCompleted := 0
    lastRunSummary := none
    lastCompletionExplanation := none
    goal := some goal
    display
    countdownOverride := none }
  (c.resetCountdown.applyPhase (.awaitingDiagnostics true),
    [.launchStarted goal, .refreshUi])

def launchFailed (c : AutoDriveController) (goal error : Text) :
    AutoDriveController × List AutoControllerEffect :=
  let c :=
    { { c with goal := none }.markIntroPending with countdownOverride := none }
  (c.resetCountdown.applyPhase .awaitingGoalEntry,
    [.launchFailed goal error, .showGoalEntry, .refreshUi])

/-- `stop_run`.  Stopping acquires no lock. -/
def stopRun (c : AutoDriveController) (now : ℕ) (message : Option Text) :
    AutoDriveController × List AutoControllerEffect :=
  let summary : AutoRunSummary :=
    { duration := (c.startedAt.map fun start => now - start).getD 0
      turnsCompleted := c.turnsCompleted
      message
      goal := c.goal }
  let c := { c.reset with lastRunSummary := some summary }
  let c := (c.transition .stop none).1.applyPhase .awaitingGoalEntry
  ({ c with pendingStopMessage := none },
    [.cancelCoordinator, .resetHistory, .clearCoordinatorView,
      .updateTerminalHint none,
      .setTaskRunning false, .ensureInputFocus,
      .stopCompleted summary message, .refreshUi])

/-! ## Transient failures -/

def autoRestartBaseDelay : ℕ := 5000

def autoRestartMaxDelay : ℕ := 120000

def autoRestartDelay (attempt : ℕ) : ℕ :=
  if attempt = 0 then min autoRestartBaseDelay autoRestartMaxDelay
  else min (autoRestartBaseDelay * 2 ^ min (attempt - 1) 5) autoRestartMaxDelay

theorem autoRestartDelay_le (attempt : ℕ) :
    autoRestartDelay attempt ≤ autoRestartMaxDelay := by
  unfold autoRestartDelay
  split
  · exact Nat.min_le_right _ _
  · exact Nat.min_le_right _ _

def truncateError (reason : Text) : Text :=
  let text := reason.trim
  if text.byteLen ≤ 160 then text else text.take 160 ++ ['…']

/-- `format_duration` below one hour, where `autoRestartDelay_le` leaves every
delay. -/
def formatDuration (millis : ℕ) : Text :=
  let secs := millis / 1000
  if millis < 1000 then (toString millis).toList ++ "ms".toList
  else if secs < 60 then (toString secs).toList ++ "s".toList
  else
    (toString (secs / 60)).toList ++ "m ".toList ++
      (if secs % 60 < 10 then ['0'] else []) ++
      (toString (secs % 60)).toList ++ "s".toList

/-- `u32::saturating_add(1)`. -/
def nextAttempt (attempts : ℕ) : ℕ := min (attempts + 1) (2 ^ 32 - 1)

/-- `pause_for_transient_failure`, which does not read its `now`. -/
def pauseForTransientFailure (c : AutoDriveController) (reason : Text) :
    AutoDriveController × List AutoControllerEffect :=
  let pendingAttempt := nextAttempt c.transientRestartAttempts
  let truncatedReason := truncateError reason
  let delay := autoRestartDelay pendingAttempt
  let token := c.restartToken + 1
  let display :=
    { c.display with
      currentCliPrompt := none
      currentCliContext := none
      currentCliModelOverride := none
      currentCliReasoningEffortOverride := none
      hideCliContextInUi := false
      suppressNextCliDisplay := false
      currentDisplayLine :=
        some ("Waiting for connection… retrying in ".toList ++
          formatDuration delay ++ " (attempt ".toList ++
          (toString pendingAttempt).toList ++
          ")".toList)
      currentDisplayIsSummary := true
      currentStatusTitle := some "Retrying after error".toList
      currentStatusSentToUser :=
        some ("Encountered an error: ".toList ++ truncatedReason ++
          ". Waiting before retrying.".toList)
      placeholderPhrase := some "Waiting for connection…".toList
      thinkingPrefixStripped := false }
  ({ c with
      display
      pendingAgentActions := []
      pendingAgentTiming := none
      phase := .transientRecovery delay.toUInt64
      transientRestartAttempts := pendingAttempt
      restartToken := token
      pendingRestart := some ⟨token, pendingAttempt, truncatedReason⟩ },
    [.cancelCoordinator, .setTaskRunning false,
      .updateTerminalHint (some "Press Esc to exit Auto Drive".toList),
      .transientPause pendingAttempt delay truncatedReason,
      .scheduleRestart token pendingAttempt delay, .refreshUi])

end AutoDriveController

/-! ## Calls -/

/-- A call of one of the methods that change the controller. -/
inductive Call where
  | setWaitingForResponse (waiting : Bool)
  | setCoordinatorWaiting (waiting : Bool)
  | onPromptReady (promptReady : Bool)
  | onPromptSubmitted
  | onPauseForManual (resumeAfterSubmit : Bool)
  | onResumeFromManual
  | onBeginReview (diagnosticsPending : Bool) (acquired : Option ReviewGuard)
  | onCompleteReview
  | onTransientFailure (backoffMs : UInt64)
  | onRecoveryAttempt
  | transition (t : PhaseTransition) (acquired : Option ReviewGuard)
  | prepareLaunch (launch : AutoDriveController.Launch) (now : ℕ)
  | launchSucceeded (goal : Text) (placeholderPhrase : Option Text) (now : ℕ)
  | launchFailed (goal error : Text)
  | stopRun (now : ℕ) (message : Option Text)
  | pauseForTransientFailure (reason : Text)
  | scheduleCliPrompt (decisionSeq : UInt64) (promptText : Text)
      (cliModelOverride : Option Text)
      (cliReasoningEffortOverride : Option ReasoningEffort)
      (countdownOverride : Option UInt8)
  | updateContinueMode (mode : AutoContinueMode)
  | handleCountdownTick (countdownId decisionSeq : UInt64) (secondsLeft : UInt8)
  | reset
  | resetIntroTiming
  | ensureIntroTiming (reducedMotion : Bool) (now : ℕ)
  | markIntroPending
  | takeIntroPending
  | resetCountdown
  | setPhase (phase : AutoRunPhase)
  | setBypassCoordinatorNextSubmit
  | clearBypassCoordinatorFlag
  deriving DecidableEq, Repr

/-- What a call makes of the controller, and the effects that it returns. -/
def Call.run (c : AutoDriveController) :
    Call → AutoDriveController × List AutoControllerEffect
  | .setWaitingForResponse waiting => (c.setWaitingForResponse waiting, [])
  | .setCoordinatorWaiting waiting => (c.setCoordinatorWaiting waiting, [])
  | .onPromptReady promptReady => (c.onPromptReady promptReady, [])
  | .onPromptSubmitted => (c.onPromptSubmitted, [])
  | .onPauseForManual resumeAfterSubmit =>
      (c.onPauseForManual resumeAfterSubmit, [])
  | .onResumeFromManual => (c.onResumeFromManual, [])
  | .onBeginReview diagnosticsPending acquired =>
      (c.onBeginReview diagnosticsPending acquired, [])
  | .onCompleteReview => (c.onCompleteReview, [])
  | .onTransientFailure backoffMs => (c.onTransientFailure backoffMs, [])
  | .onRecoveryAttempt => (c.onRecoveryAttempt, [])
  | .transition t acquired => ((c.transition t acquired).1, [])
  | .prepareLaunch launch now => (c.prepareLaunch launch now, [])
  | .launchSucceeded goal placeholderPhrase now =>
      c.launchSucceeded goal placeholderPhrase now
  | .launchFailed goal error => c.launchFailed goal error
  | .stopRun now message => c.stopRun now message
  | .pauseForTransientFailure reason => c.pauseForTransientFailure reason
  | .scheduleCliPrompt decisionSeq promptText model effort seconds =>
      c.scheduleCliPrompt decisionSeq promptText model effort seconds
  | .updateContinueMode mode => c.updateContinueMode mode
  | .handleCountdownTick countdownId decisionSeq secondsLeft =>
      c.handleCountdownTick countdownId decisionSeq secondsLeft
  | .reset => (c.reset, [])
  | .resetIntroTiming => (c.resetIntroTiming, [])
  | .ensureIntroTiming reducedMotion now =>
      (c.ensureIntroTiming reducedMotion now, [])
  | .markIntroPending => (c.markIntroPending, [])
  | .takeIntroPending => (c.takeIntroPending.1, [])
  | .resetCountdown => (c.resetCountdown, [])
  | .setPhase phase => (c.applyPhase phase, [])
  | .setBypassCoordinatorNextSubmit => (c.setBypass true, [])
  | .clearBypassCoordinatorFlag => (c.setBypass false, [])

def AutoDriveController.next (c : AutoDriveController) (call : Call) :
    AutoDriveController :=
  (call.run c).1

/-- The calls that are about the phase of the run alone. -/
def Call.isPhaseCall : Call → Bool
  | .setWaitingForResponse _ | .setCoordinatorWaiting _ | .onPromptReady _
  | .onPromptSubmitted | .onPauseForManual _ | .onResumeFromManual
  | .onBeginReview _ _
  | .onCompleteReview | .onTransientFailure _ | .onRecoveryAttempt
  | .transition _ _
  | .setPhase _ | .setBypassCoordinatorNextSubmit
  | .clearBypassCoordinatorFlag => true
  | _ => false

/-- A call about the phase leaves everything else but the lock and the override
of the countdown as it is, and has no effects. -/
theorem Call.run_isPhaseCall (c : AutoDriveController) {call : Call}
    (h : call.isPhaseCall = true) :
    (call.run c).2 = [] ∧ ∃ phase reviewLock countdownOverride,
      (call.run c).1 = { c with phase, reviewLock, countdownOverride } := by
  have happly : ∀ {c' : AutoDriveController},
      (∃ phase, c' = c.applyPhase phase) →
      ∃ phase reviewLock countdownOverride,
        c' = { c with phase, reviewLock, countdownOverride } := by
    rintro c' ⟨phase, rfl⟩
    exact ⟨phase, _, _, rfl⟩
  cases call with
  | setWaitingForResponse waiting =>
      exact ⟨rfl, happly (c.setWaitingForResponse_eq _)⟩
  | setCoordinatorWaiting waiting =>
      exact ⟨rfl, happly (c.setCoordinatorWaiting_eq _)⟩
  | onRecoveryAttempt => exact ⟨rfl, happly c.onRecoveryAttempt_eq⟩
  | setBypassCoordinatorNextSubmit => exact ⟨rfl, happly (c.setBypass_eq true)⟩
  | clearBypassCoordinatorFlag => exact ⟨rfl, happly (c.setBypass_eq false)⟩
  | onBeginReview diagnosticsPending acquired =>
      refine ⟨rfl, ?_⟩
      rw [run, AutoDriveController.onBeginReview_eq]
      cases acquired with
      | none => exact ⟨_, _, _, rfl⟩
      | some guard => exact ⟨_, _, _, rfl⟩
  | onPromptReady _ => exact ⟨rfl, _, _, _, rfl⟩
  | onPromptSubmitted => exact ⟨rfl, _, _, _, rfl⟩
  | onPauseForManual _ => exact ⟨rfl, _, _, _, rfl⟩
  | onResumeFromManual => exact ⟨rfl, _, _, _, rfl⟩
  | onCompleteReview => exact ⟨rfl, _, _, _, rfl⟩
  | onTransientFailure _ => exact ⟨rfl, _, _, _, rfl⟩
  | transition _ _ => exact ⟨rfl, _, _, _, rfl⟩
  | setPhase _ => exact ⟨rfl, _, _, _, rfl⟩
  | _ => cases h

end CodeRs.AutoDrive
