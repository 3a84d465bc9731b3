import CodeRs.Lib.Runs
import CodeRs.AutoDrive.Phase

/-!
# The review lock

The controller has the global review lock in a field next to its phase.
Completing a review and stopping a run drop it.  The other calls that leave
`AwaitingReview` set the phase alone, and so keep every other reviewer out
after the review has ended.
-/

namespace CodeRs.AutoDrive

/-- The lock is held only while the phase is `AwaitingReview`. -/
def LockOnlyInReview (c : AutoDriveController) : Prop :=
  c.reviewLock.isSome = true → c.phase.isAwaitingReview = true

/-- The transition takes a review to another phase and does not mention the
lock. -/
def PhaseTransition.leavesReview : PhaseTransition → Bool
  | .transientFailure _ => true
  | _ => false

/-- The call takes a review to another phase and does not mention the lock. -/
def Call.leavesReview : Call → Bool
  | .setWaitingForResponse waiting => waiting
  | .setCoordinatorWaiting waiting => waiting
  | .onPromptReady _ | .onPromptSubmitted | .onPauseForManual _
  | .onResumeFromManual
  | .onTransientFailure _ => true
  | .transition t _ => t.leavesReview
  | .launchSucceeded _ _ _ | .launchFailed _ _ | .pauseForTransientFailure _
  | .scheduleCliPrompt _ _ _ _ _ => true
  | .setPhase phase => !phase.isAwaitingReview
  | _ => false

/-- The call leaves a review that holds the lock. -/
def Leaks (c : AutoDriveController) (call : Call) : Prop :=
  c.reviewLock.isSome = true ∧ call.leavesReview = true

/-! ## What one call does -/

/-- What a call does to the phase and the lock, by whether it leaves a
review. -/
inductive LockStep : Bool → AutoRunPhase → Option ReviewGuard →
    AutoRunPhase → Option ReviewGuard → Prop
  /-- Neither changes. -/
  | keeps {phase lock} : LockStep false phase lock phase lock
  /-- The phase changes, and there was no review. -/
  | elsewhere {phase lock phase'} (h : phase.isAwaitingReview = false) :
      LockStep false phase lock phase' lock
  /-- No lock is held any more. -/
  | released {phase lock phase'} : LockStep false phase lock phase' none
  /-- There is a review now. -/
  | reviews {phase lock phase' lock'} (h : phase'.isAwaitingReview = true) :
      LockStep false phase lock phase' lock'
  /-- There is no review any more, and the lock is what it was. -/
  | leaves {phase lock phase'} (h : phase'.isAwaitingReview = false) :
      LockStep true phase lock phase' lock

/-- A step on a sound state gives a sound state exactly if it leaves no locked
review. -/
theorem LockStep.sound_iff {leaves : Bool} {phase phase' : AutoRunPhase}
    {lock lock' : Option ReviewGuard}
    (h : LockStep leaves phase lock phase' lock')
    (hsound : lock.isSome = true → phase.isAwaitingReview = true) :
    (lock'.isSome = true → phase'.isAwaitingReview = true) ↔
      ¬ (lock.isSome = true ∧ leaves = true) := by
  cases h with
  | keeps =>
      refine ⟨fun _ hleaks => ?_, fun _ => hsound⟩
      exact Bool.false_ne_true hleaks.2
  | elsewhere hphase =>
      refine ⟨fun _ hleaks => Bool.false_ne_true hleaks.2, fun _ hlock => ?_⟩
      -- A lock that is held without a review contradicts what held before.
      exact absurd (hsound hlock) (by simp [hphase])
  | released =>
      refine ⟨fun _ hleaks => Bool.false_ne_true hleaks.2, fun _ hlock => ?_⟩
      cases hlock
  | reviews hphase =>
      exact ⟨fun _ hleaks => Bool.false_ne_true hleaks.2, fun _ _ => hphase⟩
  | leaves hphase =>
      constructor
      · intro hafter hleaks
        exact absurd (hafter hleaks.1) (by simp [hphase])
      · intro hleaks hlock
        exact absurd ⟨hlock, rfl⟩ hleaks

theorem phaseAfter_lockStep (acquired : Option ReviewGuard)
    (phase : AutoRunPhase)
    (lock : Option ReviewGuard) (t : PhaseTransition) :
    LockStep t.leavesReview phase lock (phaseAfter acquired phase lock t).1
      (phaseAfter acquired phase lock t).2 := by
  cases t with
  | transientFailure backoffMs =>
      cases phase <;> exact .leaves rfl
  | stop => exact .released
  | completeReview => cases phase <;> first | exact .keeps | exact .released
  | beginReview diagnosticsPending =>
      have hbegin : LockStep false phase lock
          (beginReview diagnosticsPending (lock <|> acquired)).1
          (beginReview diagnosticsPending (lock <|> acquired)).2 := by
        cases lock <|> acquired with
        | none => exact .released
        | some guard => exact .reviews rfl
      cases phase <;> first | exact .keeps | exact hbegin
  | _ => cases phase <;> first | exact .keeps | exact .elsewhere rfl

/-- A call that sets the phase alone leaves every review, unless the phase is
one. -/
theorem lockStep_applyPhase (phase phase' : AutoRunPhase)
    (lock : Option ReviewGuard) :
    LockStep (!phase'.isAwaitingReview) phase lock phase' lock := by
  cases h : phase'.isAwaitingReview with
  | false => exact .leaves h
  | true => exact .reviews h

theorem not_review {phase : AutoRunPhase}
    (h : phase.isWaitingForResponse = true ∨ phase.inTransientRecovery = true) :
    phase.isAwaitingReview = false := by
  cases phase with
  | awaitingReview diagnosticsPending => rcases h with h | h <;> cases h
  | _ => rfl

theorem lockStep_setBypass (c : AutoDriveController) (bypass : Bool) :
    LockStep false c.phase c.reviewLock (c.setBypass bypass).phase
      (c.setBypass bypass).reviewLock := by
  unfold AutoDriveController.setBypass
  split
  · next hphase => exact .elsewhere (by rw [hphase]; rfl)
  · exact .keeps

theorem run_lockStep (c : AutoDriveController) (call : Call) :
    LockStep call.leavesReview c.phase c.reviewLock (call.run c).1.phase
      (call.run c).1.reviewLock := by
  cases call with
  | transition t acquired =>
      exact phaseAfter_lockStep acquired c.phase c.reviewLock t
  | setPhase phase => exact lockStep_applyPhase c.phase phase c.reviewLock
  | setWaitingForResponse waiting =>
      cases waiting with
      | true => exact .leaves rfl
      | false =>
          simp only [Call.run, AutoDriveController.setWaitingForResponse]
          split
          · contradiction
          · split
            · next hresponse => exact .elsewhere (not_review (.inl hresponse))
            · exact .keeps
  | setCoordinatorWaiting waiting =>
      cases waiting with
      | true =>
          simp only [Call.run, AutoDriveController.setCoordinatorWaiting]
          split <;> exact .leaves rfl
      | false =>
          simp only [Call.run, AutoDriveController.setCoordinatorWaiting]
          split
          · next hphase => exact .elsewhere (by rw [hphase]; rfl)
          · exact .keeps
  | onBeginReview diagnosticsPending acquired =>
      rw [Call.run, AutoDriveController.onBeginReview_eq]
      cases acquired with
      | none => exact .released
      | some guard => exact .reviews rfl
  | onRecoveryAttempt =>
      simp only [Call.run, AutoDriveController.onRecoveryAttempt]
      split
      · next hrecovery => exact .elsewhere (not_review (.inr hrecovery))
      · exact .keeps
  | setBypassCoordinatorNextSubmit => exact lockStep_setBypass c true
  | clearBypassCoordinatorFlag => exact lockStep_setBypass c false
  | handleCountdownTick id seq secondsLeft =>
      simp only [Call.run, AutoDriveController.handleCountdownTick]
      split <;> exact .keeps
  | updateContinueMode mode =>
      simp only [Call.run, AutoDriveController.updateContinueMode]
      split <;> exact .keeps
  | takeIntroPending =>
      simp only [Call.run, AutoDriveController.takeIntroPending]
      split <;> exact .keeps
  | prepareLaunch launch now =>
      simp only [Call.run, AutoDriveController.prepareLaunch]
      split <;> exact .released
  | onCompleteReview => exact .released
  | stopRun now message => exact .released
  | reset => exact .released
  | onPromptReady _ => exact .leaves rfl
  | onPromptSubmitted => exact .leaves rfl
  | onPauseForManual _ => exact .leaves rfl
  | onResumeFromManual => exact .leaves rfl
  | onTransientFailure _ => exact .leaves rfl
  | launchSucceeded _ _ _ => exact .leaves rfl
  | launchFailed _ _ => exact .leaves rfl
  | pauseForTransientFailure _ => exact .leaves rfl
  | scheduleCliPrompt _ _ _ _ _ => exact .leaves rfl
  | resetIntroTiming => exact .keeps
  | ensureIntroTiming _ _ => exact .keeps
  | markIntroPending => exact .keeps
  | resetCountdown => exact .keeps

/-! ## Runs -/

/-- The lock is held only in review throughout exactly those runs in which no
call leaves a review that holds the lock. -/
theorem lock_only_in_review_iff (calls : List Call) :
    Throughout AutoDriveController.next LockOnlyInReview {} calls ↔
      Along AutoDriveController.next (fun c call => ¬ Leaks c call)
        {} calls := by
  apply throughout_iff_along
  · intro c call hc
    exact (run_lockStep c call).sound_iff hc
  · intro hlock
    cases hlock

/-- A review that meets a transient failure keeps its lock in the recovery. -/
theorem lock_held_in_recovery :
    ¬ ∀ calls,
      Throughout AutoDriveController.next LockOnlyInReview {} calls := by
  intro h
  have hlast :=
    (h [.transition .beginLaunch none, .transition .launchSuccess none,
      .transition (.beginReview false) (some ⟨"review.lock".toList⟩),
      .transition (.transientFailure 5000) none]).after
  revert hlast
  unfold LockOnlyInReview
  decide

end CodeRs.AutoDrive
