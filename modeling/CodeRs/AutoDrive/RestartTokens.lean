import CodeRs.AutoDrive.Countdown
import Mathlib.Data.List.Nodup

/-!
# Late restarts

After a transient failure a restart is scheduled, and `auto_handle_restart` of
the interface takes it when it comes, if the controller still waits for a
restart with its token.  The tokens are counted by the controller.  `reset`
sets the counter back, while the restarts that were scheduled before are still
to come.
-/

namespace CodeRs.AutoDrive

/-! ## Tokens that are given out -/

/-- The token of a `ScheduleRestart` effect. -/
def AutoControllerEffect.scheduledToken : AutoControllerEffect → Option UInt64
  | .scheduleRestart token _ _ => some token
  | _ => none

namespace AutoDriveController

/-- The restart that comes is the one that the controller waits for. -/
def takesRestart (c : AutoDriveController) (token : UInt64)
    (attempt : ℕ) : Bool :=
  c.phase.isActive && c.phase.inTransientRecovery &&
    c.pendingRestart.any fun restart =>
      restart.token = token && restart.attempt = attempt

/-- `auto_handle_restart` up to the launch, or to the stop without a goal. -/
def autoHandleRestart (c : AutoDriveController) (token : UInt64) (attempt : ℕ) :
    AutoDriveController :=
  if c.takesRestart token attempt then
    let c := { c with pendingRestart := none }.onRecoveryAttempt
    if c.goal.isSome then { c with restartToken := token } else c
  else c

/-- What a decision of the coordinator that is no failure clears. -/
def clearRestart (c : AutoDriveController) : AutoDriveController :=
  { { c with transientRestartAttempts := 0 }.onRecoveryAttempt with
    pendingRestart := none }

end AutoDriveController

/-- What happens to the restarts of a process: a call, a restart that comes,
and the two places where the interface writes the attempts itself. -/
inductive RestartStep where
  | call (call : Call)
  | restart (token : UInt64) (attempt : ℕ)
  | clear
  | restoreAttempts (attempts : ℕ)
  deriving DecidableEq, Repr

/-- The controller of a process, the tokens of its `ScheduleRestart` effects
with the oldest first, and how many of these came before the current run. -/
structure Restarts where
  controller : AutoDriveController := {}
  issued : List UInt64 := []
  runStart : ℕ := 0

/-- The step is taken, and its effects are carried out. -/
def Restarts.next (t : Restarts) : RestartStep → Restarts
  | .call call =>
      { controller := (call.run t.controller).1
        issued := t.issued ++
          (call.run t.controller).2.filterMap
            AutoControllerEffect.scheduledToken
        runStart := if call.boundsRun then t.issued.length else t.runStart }
  | .restart token attempt =>
      { t with controller := t.controller.autoHandleRestart token attempt }
  | .clear => { t with controller := t.controller.clearRestart }
  | .restoreAttempts attempts =>
      { t with
        controller := { t.controller with
          transientRestartAttempts := attempts } }

/-- No token is given out twice. -/
def TokensUnique (t : Restarts) : Prop := t.issued.Nodup

/-- A restart that is not the latest of the current run is not taken, whatever
attempt it is. -/
def LateRestartsRefused (t : Restarts) : Prop :=
  ∀ i token, t.issued[i]? = some token →
    ¬ (i + 1 = t.issued.length ∧ t.runStart ≤ i) →
    ∀ attempt, t.controller.takesRestart token attempt = false

/-- A pause comes while all restarts that were ever scheduled are of the
current run, and there are tokens left. -/
def PauseInFirstRun (t : Restarts) : RestartStep → Prop
  | .call (.pauseForTransientFailure _) =>
  t.runStart = 0 ∧ t.issued.length < 2 ^ 64
  | _ => True

/-! ## What a step does to the tokens -/

theorem pendingRestart_of_takesRestart {c : AutoDriveController}
    {token : UInt64}
    {attempt : ℕ} (h : c.takesRestart token attempt = true) :
    ∃ restart, c.pendingRestart = some restart ∧ restart.token = token := by
  obtain ⟨-, hany⟩ := Bool.and_eq_true_iff.1 h
  obtain ⟨restart, hrestart, hsame⟩ := (Option.any_eq_true _ _).1 hany
  rw [Bool.and_eq_true, decide_eq_true_eq] at hsame
  exact ⟨restart, hrestart, hsame.1⟩

theorem countdownEffects_scheduledToken (c : AutoDriveController)
    (seq : UInt64) :
    (c.countdownEffects seq).filterMap AutoControllerEffect.scheduledToken =
      [] :=
  (c.filterMap_countdownEffects (r := none) seq
    fun _ => rfl).trans (ite_self [])

/-- The call leaves the tokens alone and schedules no restart. -/
def KeepsTokens (c : AutoDriveController) (call : Call) : Prop :=
  call.boundsRun = false ∧ (call.run c).1.restartToken = c.restartToken ∧
    (call.run c).1.pendingRestart = c.pendingRestart ∧
    (call.run c).2.filterMap AutoControllerEffect.scheduledToken = []

/-- The call begins or ends a run: the tokens are counted anew and no restart
is waited for. -/
def ClearsTokens (c : AutoDriveController) (call : Call) : Prop :=
  call.boundsRun = true ∧ (call.run c).1.restartToken = 0 ∧
    (call.run c).1.pendingRestart = none ∧
    (call.run c).2.filterMap AutoControllerEffect.scheduledToken = []

/-- Only a pause schedules a restart, and only the bounds of a run set the
token back. -/
theorem run_cases (c : AutoDriveController) (call : Call) :
    (∃ reason, call = .pauseForTransientFailure reason) ∨ ClearsTokens c call ∨
      KeepsTokens c call := by
  by_cases hphase : call.isPhaseCall = true
  · right; right
    obtain ⟨heffects, phase, lock, override, hc⟩ :=
      Call.run_isPhaseCall c hphase
    refine ⟨?_, ?_, ?_, ?_⟩
    · cases call <;> first | rfl | cases hphase
    · rw [hc]
    · rw [hc]
    · rw [heffects]
      rfl
  · cases call with
    | pauseForTransientFailure reason => exact Or.inl ⟨reason, rfl⟩
    | prepareLaunch launch now =>
        right; left
        refine ⟨rfl, ?_, ?_, rfl⟩
        · simp only [Call.run, AutoDriveController.prepareLaunch]
          split <;> rfl
        · simp only [Call.run, AutoDriveController.prepareLaunch]
          split <;> rfl
    | stopRun now message => exact Or.inr (Or.inl ⟨rfl, rfl, rfl, rfl⟩)
    | reset => exact Or.inr (Or.inl ⟨rfl, rfl, rfl, rfl⟩)
    | scheduleCliPrompt seq prompt model effort seconds =>
        right; right
        refine ⟨rfl, rfl, rfl, ?_⟩
        exact countdownEffects_scheduledToken _ _
    | updateContinueMode mode =>
        right; right
        simp only [KeepsTokens, Call.run,
          AutoDriveController.updateContinueMode]
        split
        · exact ⟨rfl, rfl, rfl, countdownEffects_scheduledToken _ _⟩
        · exact ⟨rfl, rfl, rfl, rfl⟩
    | handleCountdownTick id seq secondsLeft =>
        right; right
        simp only [KeepsTokens, Call.run,
          AutoDriveController.handleCountdownTick]
        split
        · exact ⟨rfl, rfl, rfl, rfl⟩
        · refine ⟨rfl, rfl, rfl, ?_⟩
          dsimp only
          split <;> rfl
    | takeIntroPending =>
        right; right
        simp only [KeepsTokens, Call.run, AutoDriveController.takeIntroPending]
        split <;> exact ⟨rfl, rfl, rfl, rfl⟩
    | launchSucceeded goal placeholderPhrase now =>
        exact Or.inr (Or.inr ⟨rfl, rfl, rfl, rfl⟩)
    | launchFailed goal error => exact Or.inr (Or.inr ⟨rfl, rfl, rfl, rfl⟩)
    | resetIntroTiming => exact Or.inr (Or.inr ⟨rfl, rfl, rfl, rfl⟩)
    | ensureIntroTiming reducedMotion now =>
        exact Or.inr (Or.inr ⟨rfl, rfl, rfl, rfl⟩)
    | markIntroPending => exact Or.inr (Or.inr ⟨rfl, rfl, rfl, rfl⟩)
    | resetCountdown => exact Or.inr (Or.inr ⟨rfl, rfl, rfl, rfl⟩)
    | _ => exact absurd rfl hphase

/-! ## Tokens of one run -/

/-- The first tokens of a counter that begins at zero. -/
def firstTokens (n : ℕ) : List UInt64 :=
  (List.range n).map fun i => UInt64.ofNat (i + 1)

@[simp] theorem length_firstTokens (n : ℕ) : (firstTokens n).length = n := by
  rw [firstTokens, List.length_map, List.length_range]

theorem firstTokens_succ (n : ℕ) :
    firstTokens (n + 1) = firstTokens n ++ [UInt64.ofNat (n + 1)] := by
  rw [firstTokens, List.range_succ, List.map_append]
  rfl

theorem getElem?_firstTokens {n i : ℕ} (h : i < n) :
    (firstTokens n)[i]? = some (UInt64.ofNat (i + 1)) := by
  rw [firstTokens, List.getElem?_map, List.getElem?_range h]
  rfl

/-- The counter comes back to a token after all of them only. -/
theorem nodup_firstTokens {n : ℕ} (h : n ≤ 2 ^ 64) : (firstTokens n).Nodup := by
  refine List.Nodup.map_on ?_ List.nodup_range
  intro i hi j hj heq
  rw [List.mem_range] at hi hj
  have hmod : (i + 1) % 2 ^ 64 = (j + 1) % 2 ^ 64 := by
    rw [← UInt64.toNat_ofNat', ← UInt64.toNat_ofNat', heq]
  omega

theorem one_mem_firstTokens {n : ℕ} (h : n ≠ 0) : 1 ∈ firstTokens n :=
  List.mem_of_getElem? (getElem?_firstTokens (Nat.pos_of_ne_zero h))

/-- As long as pauses are in the first run only, its tokens are counted from
one. -/
structure Restarts.Counted (t : Restarts) : Prop where
  issued_eq : t.issued = firstTokens t.issued.length
  length_le : t.issued.length ≤ 2 ^ 64
  runStart_eq : t.runStart = 0 ∨ t.runStart = t.issued.length
  restartToken_eq : t.controller.restartToken =
    if t.runStart = 0 then UInt64.ofNat t.issued.length else 0
  pending_eq : ∀ restart, t.controller.pendingRestart = some restart →
    restart.token = t.controller.restartToken ∧ t.runStart < t.issued.length

theorem Restarts.counted_initial : Counted {} := by
  refine ⟨rfl, Nat.zero_le _, Or.inl rfl, rfl, ?_⟩
  intro restart hrestart
  cases hrestart

namespace Restarts.Counted

variable {t : Restarts}

theorem tokensUnique (h : t.Counted) : TokensUnique t := by
  rw [TokensUnique, h.issued_eq]
  exact nodup_firstTokens h.length_le

theorem pending_latest (h : t.Counted) {restart : AutoRestartState}
    (hrestart : t.controller.pendingRestart = some restart) {i : ℕ}
    (hi : t.issued[i]? = some restart.token) :
    i + 1 = t.issued.length ∧ t.runStart ≤ i := by
  obtain ⟨htoken, hstart⟩ := h.pending_eq restart hrestart
  have hfirst : t.runStart = 0 := by
    obtain hfirst | hlast := h.runStart_eq
    · exact hfirst
    · omega
  have hlast : t.issued[t.issued.length - 1]? = some restart.token := by
    have hsub : t.issued.length - 1 + 1 = t.issued.length := by omega
    have hget :=
      getElem?_firstTokens (show t.issued.length - 1 < t.issued.length by omega)
    rw [← h.issued_eq, hsub] at hget
    rw [hget, htoken, h.restartToken_eq, if_pos hfirst]
  have hlt := (List.getElem?_eq_some_iff.1 hi).1
  have hsame : i = t.issued.length - 1 :=
    (List.getElem?_inj hlt h.tokensUnique).1 (hi.trans hlast.symm)
  omega

theorem lateRestartsRefused (h : t.Counted) : LateRestartsRefused t := by
  intro i token hi hlate attempt
  rw [Bool.eq_false_iff]
  intro htakes
  obtain ⟨restart, hrestart, rfl⟩ := pendingRestart_of_takesRestart htakes
  exact hlate (h.pending_latest hrestart hi)

/-! ## One step -/

theorem keeps {call : Call} (h : t.Counted)
    (hcall : KeepsTokens t.controller call) :
    (t.next (.call call)).Counted := by
  obtain ⟨hbounds, htoken, hpending, hissued⟩ := hcall
  refine ⟨?_, ?_, ?_, ?_, ?_⟩ <;>
    simp only [next, hissued, List.append_nil, hbounds]
  · exact h.issued_eq
  · exact h.length_le
  · exact h.runStart_eq
  · rw [htoken]
    exact h.restartToken_eq
  · rw [htoken, hpending]
    exact h.pending_eq

theorem clears {call : Call} (h : t.Counted)
    (hcall : ClearsTokens t.controller call) :
    (t.next (.call call)).Counted := by
  obtain ⟨hbounds, htoken, hpending, hissued⟩ := hcall
  refine ⟨?_, ?_, ?_, ?_, ?_⟩ <;>
    simp only [next, hissued, List.append_nil, hbounds, if_true]
  · exact h.issued_eq
  · exact h.length_le
  · exact Or.inr trivial
  · rw [htoken]
    split
    next hnone =>
      rw [hnone]
      rfl
    next => rfl
  · rw [hpending]
    intro restart hrestart
    cases hrestart

/-- A step that leaves the token and all that is waited for, or stops
waiting. -/
theorem of_controller (h : t.Counted) {c : AutoDriveController}
    (htoken : c.restartToken = t.controller.restartToken)
    (hpending : c.pendingRestart = none ∨
      c.pendingRestart = t.controller.pendingRestart) :
    Counted { t with controller := c } := by
  refine ⟨h.issued_eq, h.length_le, h.runStart_eq,
    htoken.trans h.restartToken_eq, ?_⟩
  intro restart hrestart
  obtain hnone | hsame := hpending
  · cases hnone.symm.trans hrestart
  · have hkept := h.pending_eq restart (hsame ▸ hrestart)
    exact ⟨hkept.1.trans htoken.symm, hkept.2⟩

theorem pause_eq (t : Restarts) (reason : Text) :
    (t.next (.call (.pauseForTransientFailure reason))).issued =
      t.issued ++ [t.controller.restartToken + 1] :=
  rfl

theorem pause (h : t.Counted) (hstart : t.runStart = 0)
    (hroom : t.issued.length < 2 ^ 64)
    (reason : Text) :
    (t.next (.call (.pauseForTransientFailure reason))).Counted := by
  have htoken :
      t.controller.restartToken + 1 = UInt64.ofNat (t.issued.length + 1) := by
    rw [h.restartToken_eq, if_pos hstart, UInt64.ofNat_add]
    rfl
  have hlength :
      (t.next (.call (.pauseForTransientFailure reason))).issued.length =
      t.issued.length + 1 := by
    rw [pause_eq, List.length_append]
    rfl
  refine ⟨?_, ?_, Or.inl hstart, ?_, ?_⟩
  · rw [hlength, firstTokens_succ, ← h.issued_eq, pause_eq, htoken]
  · rw [hlength]
    exact hroom
  · rw [hlength]
    exact htoken.trans (if_pos hstart).symm
  · intro restart hrestart
    cases hrestart
    refine ⟨rfl, ?_⟩
    rw [hlength]
    change t.runStart < _
    rw [hstart]
    exact Nat.succ_pos _

/-- A pause in a later run, or after all tokens are used up, gives out the
first token again. -/
theorem pause_repeats (h : t.Counted)
    (hlate : ¬ (t.runStart = 0 ∧ t.issued.length < 2 ^ 64))
    (reason : Text) :
    ¬ TokensUnique (t.next (.call (.pauseForTransientFailure reason))) := by
  have hone : t.controller.restartToken + 1 = 1 := by
    rw [h.restartToken_eq]
    split
    next hstart =>
      have hfull : t.issued.length = 2 ^ 64 := by
        have hle := h.length_le
        omega
      rw [hfull]
      rfl
    next => rfl
  have hsome : t.issued.length ≠ 0 := by
    have hstart := h.runStart_eq
    omega
  intro hunique
  rw [TokensUnique, pause_eq, hone, h.issued_eq] at hunique
  exact List.disjoint_of_nodup_append hunique (one_mem_firstTokens hsome)
    (List.mem_singleton_self 1)

theorem token_of_takesRestart (h : t.Counted) {token : UInt64} {attempt : ℕ}
    (htakes : t.controller.takesRestart token attempt = true) :
    token = t.controller.restartToken := by
  obtain ⟨restart, hrestart, rfl⟩ := pendingRestart_of_takesRestart htakes
  exact (h.pending_eq restart hrestart).1

theorem autoHandleRestart (h : t.Counted) (token : UInt64) (attempt : ℕ) :
    (t.next (.restart token attempt)).Counted := by
  rw [Restarts.next, AutoDriveController.autoHandleRestart]
  split
  next htakes =>
    obtain ⟨phase, hphase⟩ :=
      ({ t.controller with
        pendingRestart := none } : AutoDriveController).onRecoveryAttempt_eq
    rw [hphase]
    dsimp only
    split
    · exact h.of_controller (h.token_of_takesRestart htakes) (Or.inl rfl)
    · exact h.of_controller rfl (Or.inl rfl)
  next => exact h

theorem clearRestart (h : t.Counted) : (t.next .clear).Counted := by
  obtain ⟨phase, hphase⟩ :=
    ({ t.controller with transientRestartAttempts := 0 } :
      AutoDriveController).onRecoveryAttempt_eq
  rw [Restarts.next, AutoDriveController.clearRestart, hphase]
  exact h.of_controller rfl (Or.inl rfl)

theorem next (h : t.Counted) {step : RestartStep} (hstep :
      PauseInFirstRun t step) :
    (t.next step).Counted := by
  cases step with
  | call call =>
      obtain ⟨reason, rfl⟩ | hclears | hkeeps := run_cases t.controller call
      · exact h.pause hstep.1 hstep.2 reason
      · exact h.clears hclears
      · exact h.keeps hkeeps
  | restart token attempt => exact h.autoHandleRestart token attempt
  | clear => exact h.clearRestart
  | restoreAttempts attempts => exact h.of_controller rfl (Or.inr rfl)

end Restarts.Counted

/-- The tokens are different and late restarts are refused throughout a run of
the process exactly if every pause is in the first run of all, with tokens
left. -/
theorem tokens_unique_throughout_iff (steps : List RestartStep) :
    Throughout Restarts.next (fun t => TokensUnique t ∧
      LateRestartsRefused t) {} steps ↔
      Along Restarts.next PauseInFirstRun {} steps := by
  apply throughout_iff_along_of_inv (P := Restarts.Counted)
  · intro t h
    exact ⟨h.tokensUnique, h.lateRestartsRefused⟩
  · intro t step h hstep
    exact h.next hstep
  · intro t step h hnext
    cases step with
    | call call =>
        cases call with
        | pauseForTransientFailure reason =>
            by_contra hlate
            exact h.pause_repeats hlate reason hnext.1
        | _ => trivial
    | _ => trivial
  · exact Restarts.counted_initial

/-- A run that pauses, is stopped and launched again, and pauses once more. -/
def pausedTwice : List RestartStep :=
  [.call (.prepareLaunch someLaunch 0),
    .call (.pauseForTransientFailure "timeout".toList),
    .call (.stopRun 3000 none), .call (.prepareLaunch someLaunch 4000),
    .call (.pauseForTransientFailure "timeout".toList)]

/-- The restart of the first pause has the token of the second one, and is
taken for it. -/
theorem restart_of_earlier_run_taken :
    (after Restarts.next {} pausedTwice).issued = [1, 1] ∧
      (after Restarts.next {} pausedTwice).controller.takesRestart 1 1 = true ∧
      ¬ ∀ steps, Throughout Restarts.next
        (fun t => TokensUnique t ∧ LateRestartsRefused t) {} steps := by
  refine ⟨by decide, by decide, ?_⟩
  intro h
  have hlast : (after Restarts.next {} pausedTwice).issued.Nodup :=
    (h pausedTwice).after.1
  revert hlast
  decide

end CodeRs.AutoDrive
