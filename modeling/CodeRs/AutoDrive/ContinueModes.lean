import CodeRs.AutoDrive.Countdown

/-!
# Changes of the continue mode

`schedule_cli_prompt` starts a countdown with the decision of its prompt.
While the prompt awaits its countdown, `update_continue_mode` starts it anew
with the decision that the controller holds.  A mode without seconds to count
makes `reset_countdown` forget this decision, and `update_continue_mode` does
not set it again as `schedule_cli_prompt` does.
-/

namespace CodeRs.AutoDrive

/-! ## Prompts that await their countdown -/

/-- The controller of a process and the decision of the prompt that was
scheduled last. -/
structure Prompts where
  controller : AutoDriveController := {}
  lastScheduled : UInt64 := 0

/-- The call is made. -/
def Prompts.next (t : Prompts) (call : Call) : Prompts :=
  { controller := (call.run t.controller).1
    lastScheduled :=
      match call with
      | .scheduleCliPrompt decisionSeq _ _ _ _ => decisionSeq
      | _ => t.lastScheduled }

def Prompts.AwaitsCountdown (t : Prompts) : Prop :=
  t.controller.display.currentCliPrompt.isSome ∧
    t.controller.phase.awaitingCoordinatorSubmit = true

/-- The decision of a `StartCountdown` effect. -/
def AutoControllerEffect.startedSeq : AutoControllerEffect → Option UInt64
  | .startCountdown _ decisionSeq _ => some decisionSeq
  | _ => none

/-- The effects of a sequence of `update_continue_mode` calls. -/
def modeEffects : AutoDriveController → List AutoContinueMode →
    List AutoControllerEffect
  | _, [] => []
  | c, mode :: rest =>
      (c.updateContinueMode mode).2 ++
        modeEffects (c.updateContinueMode mode).1 rest

/-- Every countdown that the modes start has the decision of the prompt
scheduled last. -/
def StartsCarryPrompt (t : Prompts) (modes : List AutoContinueMode) : Prop :=
  ∀ seq ∈
    (modeEffects t.controller modes).filterMap AutoControllerEffect.startedSeq,
    seq = t.lastScheduled

def AutoContinueMode.counts (mode : AutoContinueMode) : Prop :=
  mode.seconds.getD 0 ≠ 0

instance : DecidablePred AutoContinueMode.counts := fun mode =>
  inferInstanceAs (Decidable (mode.seconds.getD 0 ≠ 0))

/-- First come modes with seconds to count, and then manual ones. -/
def CountsThenManual (modes : List AutoContinueMode) : Prop :=
  ∃ counting manual, modes = counting ++ manual ∧
    (∀ mode ∈ counting, mode.counts) ∧ ∀ mode ∈ manual, mode = .manual

/-- The decision of the prompt is none that could be forgotten, or no countdown
is started, or the controller holds the decision and all modes have seconds to
count until none is started any more. -/
def KeepsDecision (t : Prompts) (modes : List AutoContinueMode) : Prop :=
  t.lastScheduled = 0 ∨ (∀ mode ∈ modes, mode = .manual) ∨
    t.controller.countdownDecisionSeq = t.lastScheduled ∧ CountsThenManual modes

/-! ## The decision that the controller holds -/

/-- No call but `schedule_cli_prompt` makes the controller hold another
decision. -/
theorem countdownDecisionSeq_run (c : AutoDriveController) (call : Call) :
    (∃ seq prompt model effort seconds,
        call = .scheduleCliPrompt seq prompt model effort seconds) ∨
      (call.run c).1.countdownDecisionSeq = c.countdownDecisionSeq ∨
      (call.run c).1.countdownDecisionSeq = 0 := by
  have hreset : ∀ c' : AutoDriveController,
      c'.countdownDecisionSeq = c.countdownDecisionSeq →
        c'.resetCountdown.countdownDecisionSeq = c.countdownDecisionSeq ∨
          c'.resetCountdown.countdownDecisionSeq = 0 := by
    intro c' hc'
    simp only [AutoDriveController.resetCountdown]
    split
    · exact Or.inr rfl
    · exact Or.inl hc'
  have hzero : ∀ c' : AutoDriveController, c'.countdownDecisionSeq = 0 →
      c'.resetCountdown.countdownDecisionSeq = 0 := by
    intro c' hc'
    simp only [AutoDriveController.resetCountdown, hc', ite_self]
  by_cases hphase : call.isPhaseCall = true
  · obtain ⟨-, phase, lock, override, hc⟩ := Call.run_isPhaseCall c hphase
    right; left
    rw [hc]
  · cases call with
    | scheduleCliPrompt seq prompt model effort seconds =>
        exact Or.inl ⟨seq, prompt, model, effort, seconds, rfl⟩
    | prepareLaunch launch now =>
        right; right
        simp only [Call.run, AutoDriveController.prepareLaunch]
        split <;> exact hzero _ rfl
    | launchSucceeded goal placeholderPhrase now => exact Or.inr (hreset _ rfl)
    | launchFailed goal error => exact Or.inr (hreset _ rfl)
    | stopRun now message => exact Or.inr (Or.inr rfl)
    | pauseForTransientFailure reason => exact Or.inr (Or.inl rfl)
    | updateContinueMode mode =>
        right
        simp only [Call.run, AutoDriveController.updateContinueMode]
        split
        · exact hreset _ rfl
        · exact hreset _ rfl
    | handleCountdownTick id seq secondsLeft =>
        right; left
        simp only [Call.run, AutoDriveController.handleCountdownTick]
        split <;> rfl
    | reset => exact Or.inr (Or.inr rfl)
    | resetIntroTiming => exact Or.inr (Or.inl rfl)
    | ensureIntroTiming reducedMotion now => exact Or.inr (Or.inl rfl)
    | markIntroPending => exact Or.inr (Or.inl rfl)
    | takeIntroPending =>
        right; left
        simp only [Call.run, AutoDriveController.takeIntroPending]
        split <;> rfl
    | resetCountdown => exact Or.inr (hreset _ rfl)
    | _ => exact absurd rfl hphase

/-- The decision is that of the last prompt, or forgotten. -/
def Prompts.Known (t : Prompts) : Prop :=
  t.controller.countdownDecisionSeq = t.lastScheduled ∨
    t.controller.countdownDecisionSeq = 0

theorem Prompts.Known.next {t : Prompts} (h : t.Known) (call : Call) :
    (t.next call).Known := by
  obtain ⟨seq, prompt, model, effort, seconds, rfl⟩ | hsame | hzero :=
    countdownDecisionSeq_run t.controller call
  · exact Or.inl rfl
  · obtain hknown | hzero := h
    · cases call <;>
        first | exact Or.inl (hsame.trans hknown) | exact Or.inl rfl
    · exact Or.inr (hsame.trans hzero)
  · exact Or.inr hzero

theorem Prompts.known_after {t : Prompts} (h : t.Known) (calls : List Call) :
    (after Prompts.next t calls).Known :=
  after_induction (P := Prompts.Known)
    (fun _ call hknown => hknown.next call) h calls

/-! ## The countdowns that modes start -/

/-- The decision that the controller holds after a mode is set. -/
def seqAfter (seq : UInt64) (mode : AutoContinueMode) : UInt64 :=
  if mode.counts then seq else 0

/-- The decisions of the countdowns that modes start. -/
def modeSeqs : UInt64 → List AutoContinueMode → List UInt64
  | _, [] => []
  | seq, mode :: rest =>
      (if mode.seconds.isSome then [seqAfter seq mode] else []) ++
        modeSeqs (seqAfter seq mode) rest

theorem withContinueMode_seq (c : AutoDriveController)
    (mode : AutoContinueMode) :
    (c.withContinueMode mode).countdownDecisionSeq =
      seqAfter c.countdownDecisionSeq mode := by
  rw [seqAfter]
  change (if mode.seconds.getD 0 = 0 then 0 else c.countdownDecisionSeq) = _
  by_cases hzero : mode.seconds.getD 0 = 0
  · rw [if_pos hzero, if_neg (fun hcounts => hcounts hzero)]
  · rw [if_neg hzero]
    exact (if_pos hzero).symm

theorem countdownEffects_startedSeq (c : AutoDriveController) (seq : UInt64) :
    (c.countdownEffects seq).filterMap AutoControllerEffect.startedSeq =
      if c.countdownSeconds.isSome then [seq] else [] :=
  c.filterMap_countdownEffects (r := some seq) seq fun _ => rfl

/-- While a prompt awaits its countdown, a mode starts it with the decision
that is held. -/
theorem updateContinueMode_awaiting {c : AutoDriveController}
    (mode : AutoContinueMode)
    (h : c.phase.awaitingCoordinatorSubmit = true) :
    (c.updateContinueMode mode).1.phase.awaitingCoordinatorSubmit = true ∧
      (c.updateContinueMode mode).1.countdownDecisionSeq =
        seqAfter c.countdownDecisionSeq mode ∧
      (c.updateContinueMode mode).2.filterMap AutoControllerEffect.startedSeq =
        if mode.seconds.isSome then [seqAfter c.countdownDecisionSeq mode]
          else [] := by
  unfold AutoDriveController.updateContinueMode
  rw [if_pos (withContinueMode_awaiting mode h), ← withContinueMode_seq]
  exact ⟨h, rfl, countdownEffects_startedSeq _ _⟩

theorem modeEffects_startedSeq {c : AutoDriveController}
    (modes : List AutoContinueMode)
    (h : c.phase.awaitingCoordinatorSubmit = true) :
    (modeEffects c modes).filterMap AutoControllerEffect.startedSeq =
      modeSeqs c.countdownDecisionSeq modes := by
  induction modes generalizing c with
  | nil => rfl
  | cons mode rest ih =>
      obtain ⟨hphase, hseq, hstarted⟩ := updateContinueMode_awaiting mode h
      rw [modeEffects, List.filterMap_append, hstarted, ih hphase,
        hseq, modeSeqs]

/-! ## Which modes keep the decision -/

theorem not_counts_manual : ¬ AutoContinueMode.counts .manual := by decide

theorem countsThenManual_cons {mode : AutoContinueMode} (h : mode.counts)
    (rest : List AutoContinueMode) :
    CountsThenManual (mode :: rest) ↔ CountsThenManual rest := by
  constructor
  · rintro ⟨counting, manual, hmodes, hcounting, hmanual⟩
    cases counting with
    | nil =>
        rw [List.nil_append] at hmodes
        rw [← hmodes] at hmanual
        rw [hmanual mode List.mem_cons_self] at h
        exact absurd h not_counts_manual
    | cons first counting =>
        obtain ⟨rfl, rfl⟩ := List.cons.inj hmodes
        exact ⟨counting, manual, rfl,
          fun mode hmode =>
            hcounting mode (List.mem_cons_of_mem _ hmode), hmanual⟩
  · rintro ⟨counting, manual, rfl, hcounting, hmanual⟩
    refine ⟨mode :: counting, manual, rfl, ?_, hmanual⟩
    intro other hother
    rcases List.mem_cons.1 hother with rfl | hother
    · exact h
    · exact hcounting other hother

theorem countsThenManual_cons_of_not_counts {mode : AutoContinueMode}
    (h : ¬ mode.counts)
    (rest : List AutoContinueMode) :
    CountsThenManual (mode :: rest) ↔
      ∀ other ∈ mode :: rest, other = .manual := by
  constructor
  · rintro ⟨counting, manual, hmodes, hcounting, hmanual⟩
    cases counting with
    | nil =>
        rw [hmodes]
        exact hmanual
    | cons first counting =>
        obtain ⟨rfl, -⟩ := List.cons.inj hmodes
        exact absurd (hcounting mode List.mem_cons_self) h
  · intro hmanual
    exact ⟨[], mode :: rest, rfl, fun other hother => (by cases hother),
      hmanual⟩

/-- A forgotten decision stays forgotten. -/
theorem seqAfter_zero (mode : AutoContinueMode) : seqAfter 0 mode = 0 :=
  ite_self 0

/-- The countdown that a mode may start carries the decision that is held. -/
theorem eq_of_mem_started {started : Bool} {held seq : UInt64}
    (h : seq ∈ if started then [held] else []) : seq = held := by
  cases started with
  | false => cases h
  | true => exact List.mem_singleton.1 h

/-- Where the decision is forgotten, every countdown that is started has lost
it. -/
theorem modeSeqs_zero {n : UInt64} (hn : n ≠ 0)
    (modes : List AutoContinueMode) :
    (∀ seq ∈ modeSeqs 0 modes, seq = n) ↔ ∀ mode ∈ modes, mode = .manual := by
  induction modes with
  | nil => exact iff_of_true (by simp [modeSeqs]) (by simp)
  | cons mode rest ih =>
      rw [modeSeqs, seqAfter_zero, List.forall_mem_append, List.forall_mem_cons]
      refine and_congr ?_ ih
      cases mode with
      | manual => simp [AutoContinueMode.seconds]
      | _ => simp [AutoContinueMode.seconds, hn.symm]

theorem modeSeqs_all_zero (modes : List AutoContinueMode) :
    ∀ seq ∈ modeSeqs 0 modes, seq = 0 := by
  induction modes with
  | nil => exact fun seq hseq => (by cases hseq)
  | cons mode rest ih =>
      rw [modeSeqs, seqAfter_zero, List.forall_mem_append]
      exact ⟨fun seq hseq => eq_of_mem_started hseq, ih⟩

/-- A decision that is held is kept as long as the modes have seconds to
count. -/
theorem modeSeqs_held {n : UInt64} (hn : n ≠ 0)
    (modes : List AutoContinueMode) :
    (∀ seq ∈ modeSeqs n modes, seq = n) ↔ CountsThenManual modes := by
  induction modes with
  | nil =>
      refine iff_of_true (fun seq hseq => (by cases hseq)) ?_
      exact ⟨[], [], rfl, fun mode hmode => (by cases hmode),
        fun mode hmode => (by cases hmode)⟩
  | cons mode rest ih =>
      rw [modeSeqs, List.forall_mem_append, seqAfter]
      by_cases hcounts : mode.counts
      · rw [if_pos hcounts, ih, countsThenManual_cons hcounts]
        exact and_iff_right fun seq hseq => eq_of_mem_started hseq
      · rw [if_neg hcounts, modeSeqs_zero hn,
          countsThenManual_cons_of_not_counts hcounts,
          List.forall_mem_cons]
        cases mode with
        | manual => simp [AutoContinueMode.seconds]
        | immediate => simp [AutoContinueMode.seconds, hn.symm]
        | tenSeconds => exact absurd (by decide) hcounts
        | sixtySeconds => exact absurd (by decide) hcounts

/-- In a reachable state with a prompt that awaits its countdown, all
countdowns that a sequence of modes starts carry the decision of the prompt
exactly if the modes keep it. -/
theorem startsCarryPrompt_iff (calls : List Call)
    (modes : List AutoContinueMode)
    (hawaits : (after Prompts.next {} calls).AwaitsCountdown) :
    StartsCarryPrompt (after Prompts.next {} calls) modes ↔
      KeepsDecision (after Prompts.next {} calls) modes := by
  have hknown := Prompts.known_after (t := {}) (Or.inl rfl) calls
  generalize after Prompts.next {} calls = t at hawaits hknown ⊢
  rw [StartsCarryPrompt, KeepsDecision, modeEffects_startedSeq modes hawaits.2]
  by_cases hn : t.lastScheduled = 0
  · refine iff_of_true ?_ (Or.inl hn)
    have hseq : t.controller.countdownDecisionSeq = 0 := by
      obtain hheld | hforgotten := hknown
      · rw [hheld, hn]
      · exact hforgotten
    rw [hseq, hn]
    exact modeSeqs_all_zero modes
  · rw [or_iff_right hn]
    obtain hheld | hforgotten := hknown
    · rw [hheld, modeSeqs_held hn, and_iff_right rfl]
      refine ⟨Or.inr, fun h => h.elim ?_ id⟩
      intro hmanual
      exact ⟨[], modes, rfl, fun mode hmode => (by cases hmode), hmanual⟩
    · rw [hforgotten, modeSeqs_zero hn, or_iff_left]
      rintro ⟨hheld, -⟩
      exact hn hheld.symm

/-- A run whose first prompt awaits its countdown, with modes that have seconds
to count. -/
theorem startsCarryPrompt_firstPrompt :
    StartsCarryPrompt (after Prompts.next {} (firstPrompt 0))
      [.sixtySeconds, .tenSeconds, .manual] := by
  apply (startsCarryPrompt_iff (firstPrompt 0) _ ⟨by decide, by decide⟩).2
  exact Or.inr
    (Or.inr ⟨by decide, [.sixtySeconds, .tenSeconds], [.manual], rfl, by decide,
    by decide⟩)

/-- The manual mode and back again: the countdown of the first prompt, whose
decision is one, starts anew with the decision zero. -/
theorem manual_and_back_forgets :
    (after Prompts.next {} (firstPrompt 0)).AwaitsCountdown ∧
      ¬ StartsCarryPrompt (after Prompts.next {} (firstPrompt 0)) [.manual,
        .tenSeconds] := by
  refine ⟨⟨by decide, by decide⟩, ?_⟩
  intro h
  have hseq : (0 : UInt64) = 1 := h 0 (by decide)
  exact absurd hseq (by decide)

end CodeRs.AutoDrive
