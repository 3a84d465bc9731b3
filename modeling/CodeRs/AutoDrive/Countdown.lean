import CodeRs.Lib.Runs
import CodeRs.Lib.Stamps
import CodeRs.AutoDrive.Phase

/-!
# Late countdown ticks

A countdown runs in a thread of its own and sends its ticks with the id that
its `StartCountdown` effect had.  The controller of a process is followed here
together with the ids of all these effects.  An id tells a tick of an earlier
countdown from one of the current as long as no id comes back, and `reset`
makes ids come back.
-/

namespace CodeRs.AutoDrive

/-! ## Ids that are given out -/

/-- The id of a `StartCountdown` effect. -/
def AutoControllerEffect.startedId : AutoControllerEffect → Option UInt64
  | .startCountdown countdownId _ _ => some countdownId
  | _ => none

/-- The controller of a process, the ids of its `StartCountdown` effects with
the oldest first, and how many of these came before the current run. -/
structure Countdowns where
  controller : AutoDriveController := {}
  issued : List UInt64 := []
  runStart : ℕ := 0

/-- A run begins or ends at the call. -/
def Call.boundsRun : Call → Bool
  | .prepareLaunch _ _ | .stopRun _ _ | .reset => true
  | _ => false

/-- The call is made, and its effects are carried out. -/
def Countdowns.next (t : Countdowns) (call : Call) : Countdowns :=
  { controller := (call.run t.controller).1
    issued := t.issued ++
      (call.run t.controller).2.filterMap AutoControllerEffect.startedId
    runStart := if call.boundsRun then t.issued.length else t.runStart }

/-- The stamps that the controller's countdown ids are. -/
def Countdowns.stamps (t : Countdowns) : Stamps UInt64 :=
  ⟨t.controller.countdownId, t.issued, t.runStart⟩

/-- What a call does to the countdown id. -/
def idMove (c : AutoDriveController) : Call → Stamps.Move UInt64
  | .scheduleCliPrompt _ _ _ _ countdownOverride =>
      .renew (c.countdownId + 1) (countdownOverride <|>
        c.continueMode.seconds).isSome
  | .updateContinueMode mode =>
      if c.phase.awaitingCoordinatorSubmit then
        .renew (c.countdownId + 1) mode.seconds.isSome
      else .keep
  | .prepareLaunch _ _ | .stopRun _ _ | .reset => .restart 0
  | _ => .keep

namespace AutoDriveController

theorem countdownEffects_startedId (c : AutoDriveController) (seq : UInt64) :
    (c.countdownEffects seq).filterMap AutoControllerEffect.startedId =
      if c.countdownSeconds.isSome then [c.countdownId] else [] :=
  c.filterMap_countdownEffects (r := some c.countdownId) seq fun _ => rfl

end AutoDriveController

theorem handleCountdownTick_keep (c : AutoDriveController) (id seq : UInt64)
    (secondsLeft : UInt8) :
    (c.handleCountdownTick id seq secondsLeft).1.countdownId = c.countdownId ∧
      (c.handleCountdownTick id seq secondsLeft).2.filterMap
        AutoControllerEffect.startedId = [] := by
  unfold AutoDriveController.handleCountdownTick
  split
  · exact ⟨rfl, rfl⟩
  · refine ⟨rfl, ?_⟩
    dsimp only
    split <;> rfl

/-- Where no prompt awaits its countdown, a new mode starts none. -/
theorem updateContinueMode_keep {c : AutoDriveController}
    (mode : AutoContinueMode)
    (h : c.phase.awaitingCoordinatorSubmit ≠ true) :
    c.updateContinueMode mode = (c.withContinueMode mode, [.refreshUi]) := by
  apply if_neg
  intro hawait
  exact h hawait.1

/-- A prompt that awaits its countdown awaits it in a new mode, and is not
paused. -/
theorem withContinueMode_awaiting {c : AutoDriveController}
    (mode : AutoContinueMode)
    (h : c.phase.awaitingCoordinatorSubmit = true) :
    (c.withContinueMode mode).phase.awaitingCoordinatorSubmit ∧
      ¬ (c.withContinueMode mode).phase.isPausedManual := by
  have hpaused := (AutoRunPhase.isActive_of_awaitingCoordinatorSubmit h).2
  refine ⟨h, ?_⟩
  change ¬ c.phase.isPausedManual = true
  rw [hpaused]
  exact Bool.false_ne_true

/-- A new mode starts the countdown of the prompt that awaits it anew. -/
theorem updateContinueMode_renew {c : AutoDriveController}
    (mode : AutoContinueMode)
    (h : c.phase.awaitingCoordinatorSubmit = true) :
    (c.updateContinueMode mode).1.countdownId = c.countdownId + 1 ∧
      (c.updateContinueMode mode).2.filterMap AutoControllerEffect.startedId =
        if mode.seconds.isSome then [c.countdownId + 1] else [] := by
  unfold AutoDriveController.updateContinueMode
  rw [if_pos (withContinueMode_awaiting mode h)]
  exact ⟨rfl, AutoDriveController.countdownEffects_startedId _ _⟩

theorem scheduleCliPrompt_renew (c : AutoDriveController) (seq : UInt64)
    (prompt : Text)
    (model : Option Text) (effort : Option ReasoningEffort)
    (seconds : Option UInt8) :
    (c.scheduleCliPrompt seq prompt model effort seconds).1.countdownId =
        c.countdownId + 1 ∧
      (c.scheduleCliPrompt seq prompt model effort seconds).2.filterMap
          AutoControllerEffect.startedId =
        if (seconds <|> c.continueMode.seconds).isSome then
          [c.countdownId + 1] else [] := by
  refine ⟨rfl, ?_⟩
  exact AutoDriveController.countdownEffects_startedId _ _

theorem run_keep {c : AutoDriveController} {call : Call}
    (h : idMove c call = .keep) :
    (call.run c).1.countdownId = c.countdownId ∧
      (call.run c).2.filterMap AutoControllerEffect.startedId = [] ∧
      call.boundsRun = false := by
  by_cases hphase : call.isPhaseCall = true
  · obtain ⟨heffects, phase, lock, override, hc⟩ :=
      Call.run_isPhaseCall c hphase
    rw [heffects, hc]
    refine ⟨rfl, rfl, ?_⟩
    cases call <;> first | rfl | cases hphase
  · cases call with
    | launchSucceeded goal placeholderPhrase now => exact ⟨rfl, rfl, rfl⟩
    | launchFailed goal error => exact ⟨rfl, rfl, rfl⟩
    | pauseForTransientFailure reason => exact ⟨rfl, rfl, rfl⟩
    | updateContinueMode mode =>
        have hawait : c.phase.awaitingCoordinatorSubmit ≠ true := by
          intro hawait
          rw [idMove, if_pos hawait] at h
          cases h
        rw [Call.run, updateContinueMode_keep mode hawait]
        exact ⟨rfl, rfl, rfl⟩
    | handleCountdownTick id seq secondsLeft =>
        have htick := handleCountdownTick_keep c id seq secondsLeft
        exact ⟨htick.1, htick.2, rfl⟩
    | takeIntroPending =>
        refine ⟨?_, rfl, rfl⟩
        simp only [Call.run, AutoDriveController.takeIntroPending]
        split <;> rfl
    | resetIntroTiming => exact ⟨rfl, rfl, rfl⟩
    | ensureIntroTiming reducedMotion now => exact ⟨rfl, rfl, rfl⟩
    | markIntroPending => exact ⟨rfl, rfl, rfl⟩
    | resetCountdown => exact ⟨rfl, rfl, rfl⟩
    | scheduleCliPrompt _ _ _ _ _ => cases h
    | prepareLaunch _ _ => cases h
    | stopRun _ _ => cases h
    | reset => cases h
    | _ => exact absurd rfl hphase

theorem run_renew {c : AutoDriveController} {call : Call} {id : UInt64}
    {issues : Bool}
    (h : idMove c call = .renew id issues) :
    (call.run c).1.countdownId = id ∧
      (call.run c).2.filterMap AutoControllerEffect.startedId =
        (if issues then [id] else []) ∧
      call.boundsRun = false := by
  cases call with
  | scheduleCliPrompt seq prompt model effort seconds =>
      cases h
      have hrun := scheduleCliPrompt_renew c seq prompt model effort seconds
      exact ⟨hrun.1, hrun.2, rfl⟩
  | updateContinueMode mode =>
      by_cases hawait : c.phase.awaitingCoordinatorSubmit = true
      · rw [idMove, if_pos hawait] at h
        cases h
        have hrun := updateContinueMode_renew mode hawait
        exact ⟨hrun.1, hrun.2, rfl⟩
      · rw [idMove, if_neg hawait] at h
        cases h
  | _ => cases h

/-- A call that begins or ends a run resets the countdown id, and starts no
countdown. -/
theorem run_restart {c : AutoDriveController} {call : Call} {id : UInt64}
    (h : idMove c call = .restart id) :
    (call.run c).1.countdownId = id ∧
      (call.run c).2.filterMap AutoControllerEffect.startedId = [] ∧
      call.boundsRun = true := by
  cases call with
  | prepareLaunch launch now =>
      cases h
      refine ⟨?_, rfl, rfl⟩
      simp only [Call.run, AutoDriveController.prepareLaunch]
      split <;> rfl
  | stopRun now message =>
      cases h
      exact ⟨rfl, rfl, rfl⟩
  | reset =>
      cases h
      exact ⟨rfl, rfl, rfl⟩
  | updateContinueMode mode =>
      rw [idMove] at h
      split at h <;> cases h
  | _ => cases h

theorem Countdowns.stamps_next (t : Countdowns) (call : Call) :
    (t.next call).stamps = t.stamps.move (idMove t.controller call) := by
  cases h : idMove t.controller call with
  | keep =>
      obtain ⟨hid, hstarted, hbounds⟩ := run_keep h
      simp [stamps, next, Stamps.move, hid, hstarted, hbounds]
  | renew id issues =>
      obtain ⟨hid, hstarted, hbounds⟩ := run_renew h
      cases issues <;> simp [stamps, next, Stamps.move, hid, hstarted, hbounds]
  | restart id =>
      obtain ⟨hid, hstarted, hbounds⟩ := run_restart h
      simp [stamps, next, Stamps.move, hid, hstarted, hbounds]

/-! ## Ticks -/

/-- A tick of a countdown that is not the latest of the current run changes
nothing and has no effects, whatever decision and seconds it comes with. -/
def LeftoversIgnored (t : Countdowns) : Prop :=
  ∀ i id, t.issued[i]? = some id → ¬ t.stamps.IsLatest i →
    ∀ seq secondsLeft,
      t.controller.handleCountdownTick id seq secondsLeft = (t.controller, [])

/-- The call makes no id current that a countdown of this process already
had. -/
def FreshId (t : Countdowns) (call : Call) : Prop :=
  (idMove t.controller call).Fresh t.issued

instance (t : Countdowns) (call : Call) : Decidable (FreshId t call) :=
  inferInstanceAs (Decidable (Stamps.Move.Fresh _ _))

theorem handleCountdownTick_other {c : AutoDriveController} {id : UInt64}
    (h : id ≠ c.countdownId) (seq : UInt64) (secondsLeft : UInt8) :
    c.handleCountdownTick id seq secondsLeft = (c, []) :=
  if_pos (Or.inr (Or.inl h))

/-- While a prompt awaits its countdown, a tick with the current id and
decision counts. -/
theorem handleCountdownTick_honoured {c : AutoDriveController}
    (h : c.phase.awaitingCoordinatorSubmit = true) (secondsLeft : UInt8) :
    (c.handleCountdownTick c.countdownId c.countdownDecisionSeq secondsLeft).2 ≠
      [] := by
  obtain ⟨hactive, hpaused⟩ :=
    AutoRunPhase.isActive_of_awaitingCoordinatorSubmit h
  unfold AutoDriveController.handleCountdownTick
  rw [if_neg (by simp [h, hactive, hpaused])]
  dsimp only
  split
  · exact List.cons_ne_nil _ _
  · exact List.cons_ne_nil _ _

/-- While the ids are sound, ticks of other countdowns than the latest are
ignored. -/
theorem leftoversIgnored_of_sound {t : Countdowns} (h : t.stamps.Sound) :
    LeftoversIgnored t := by
  intro i id hi hlatest seq secondsLeft
  apply handleCountdownTick_other
  intro hid
  apply hlatest
  apply h.isLatest i
  change t.issued[i]? = some t.controller.countdownId
  rw [hi, hid]

/-- A prompt that is scheduled with the id of an earlier countdown makes the
ticks of that one count. -/
theorem not_leftoversIgnored_of_reused {t : Countdowns} (seq : UInt64)
    (prompt : Text)
    (model : Option Text) (effort : Option ReasoningEffort)
    {seconds : Option UInt8}
    (hseconds : (seconds <|> t.controller.continueMode.seconds).isSome = true)
    (hreused : t.controller.countdownId + 1 ∈ t.issued) :
    ¬ LeftoversIgnored
      (t.next (.scheduleCliPrompt seq prompt model effort seconds)) := by
  intro hignored
  obtain ⟨i, hi⟩ := List.mem_iff_getElem?.1 hreused
  have hissued :
      (t.next (.scheduleCliPrompt seq prompt model effort seconds)).issued =
      t.issued ++ [t.controller.countdownId + 1] := by
    rw [Countdowns.next, Call.run, (scheduleCliPrompt_renew _ _ _ _ _ _).2,
      if_pos hseconds]
  have hlt : i < t.issued.length := (List.getElem?_eq_some_iff.1 hi).1
  have hplace :
      (t.next (.scheduleCliPrompt seq prompt model effort seconds)).issued[i]? =
      some (t.controller.countdownId + 1) := by
    rw [hissued, List.getElem?_append_left hlt]
    exact hi
  have hleftover : ¬ (t.next (.scheduleCliPrompt seq prompt model effort
      seconds)).stamps.IsLatest i := by
    intro hlatest
    have hlast : i + 1 = (t.next _).issued.length := hlatest.1
    rw [hissued, List.length_append] at hlast
    exact Nat.ne_of_lt hlt (Nat.succ.inj hlast)
  -- The tick is of the prompt's own decision, and so it counts.
  have htick := hignored i _ hplace hleftover seq 0
  exact handleCountdownTick_honoured (c := (t.next _).controller) rfl 0
    (congrArg Prod.snd htick)

/-- In every run in which no call brings an id back, no tick left over from an
earlier countdown or an earlier run is honoured. -/
theorem leftovers_ignored_throughout {calls : List Call}
    (h : Along Countdowns.next FreshId {} calls) :
    Throughout Countdowns.next LeftoversIgnored {} calls := by
  have hsound :
      Throughout Countdowns.next (fun t => t.stamps.Sound) {} calls := by
    apply h.throughout
    · intro t call ht hfresh
      rw [Countdowns.stamps_next]
      exact ht.move hfresh
    · exact Stamps.Sound.initial 0
  exact hsound.mono fun t ht => leftoversIgnored_of_sound ht

/-- A launch with the settings of a first run. -/
def someLaunch : AutoDriveController.Launch where
  goal := "ship".toList
  reviewEnabled := true
  subagentsEnabled := true
  crossCheckEnabled := true
  qaAutomationEnabled := false
  continueMode := .tenSeconds
  reducedMotion := false

/-- A run that is launched and has its first prompt scheduled. -/
def firstPrompt (now : ℕ) : List Call :=
  [.prepareLaunch someLaunch now, .launchSucceeded "ship".toList none now,
    .scheduleCliPrompt 1 "cargo test".toList none none none]

/-- One run: its first countdown ticks, the mode is changed and a prompt is
scheduled. -/
def oneRun : List Call :=
  firstPrompt 0 ++
    [.handleCountdownTick 1 1 9, .updateContinueMode .sixtySeconds,
      .handleCountdownTick 1 1 8,
      .scheduleCliPrompt 2 "cargo build".toList none none none]

theorem leftovers_ignored_oneRun :
    Along Countdowns.next FreshId {} oneRun ∧
      Throughout Countdowns.next LeftoversIgnored {} oneRun := by
  have h : Along Countdowns.next FreshId {} oneRun := by decide
  exact ⟨h, leftovers_ignored_throughout h⟩

/-- The first countdown of a run that is stopped has the id of the first
countdown of the next run, and its tick submits the prompt of the next run at
once. -/
theorem leftover_honoured_after_relaunch :
    ¬ ∀ calls, Throughout Countdowns.next LeftoversIgnored {} calls := by
  intro h
  have hlast :=
    (h (firstPrompt 0 ++ [.stopRun 3000 none] ++ firstPrompt 4000)).after
  have htick := hlast 0 1 (by decide) (by decide) 1 0
  revert htick
  decide

end CodeRs.AutoDrive
