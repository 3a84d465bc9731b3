import CodeRs.Environment.Timeline

/-!
# The tracker runs ahead of the timeline

The tracker counts a full emission and the timeline does not, so the first delta
after a full emission already carries the number after the one the timeline
expects.  A restored session starts with the same offset.
-/

namespace CodeRs.Environment

variable (digest : List (String × String) → String) (decode : Decoders)

/-! ## Runs of a session -/

/-- What happens to the environment context of a session. -/
inductive SessionOp where
  | observe (envContext : EnvironmentContext)
      (gitBranch reasoningEffort : Option String)
  | reconstruct (rollout : Rollout)

namespace SessionState

/-- One step of a session, with the emission it makes. -/
def next (state : SessionState) : SessionOp → SessionState × Option Fed
  | .observe envContext gitBranch reasoningEffort =>
      state.maybeEmitEnvCtx digest envContext gitBranch reasoningEffort
  | .reconstruct rollout => (reconstructFromRollout digest decode rollout, none)

/-- The emissions of a run, each with the answer of the timeline. -/
def trace : SessionState → List SessionOp → List Fed
  | _, [] => []
  | state, op :: rest =>
      (state.next digest decode op).2.toList ++
        trace (state.next digest decode op).1 rest

end SessionState

/-- A delta is accepted when the timeline applies it and its base is the
snapshot emitted before; a full emission is not a delta. -/
def Fed.Accepted (fed : Fed) : Prop :=
  ∀ sequence snapshot delta, fed.emission = .delta sequence snapshot delta →
    fed.result = .ok () ∧
      ∃ previous, fed.previous = some previous ∧
        delta.baseFingerprint = previous.fingerprint digest

/-- The context has the fingerprint of the snapshot the tracker holds, if it
holds one. -/
def Steady (state : SessionState) : SessionOp → Prop
  | .observe envContext gitBranch reasoningEffort =>
      ∀ previous, state.environmentContextTracker.lastSnapshot = some previous →
        ((EnvironmentContextSnapshot.fromContext envContext).withMetadata
          gitBranch reasoningEffort).fingerprint digest =
          previous.fingerprint digest
  | .reconstruct _ => True

def SteadyRun : SessionState → List SessionOp → Prop
  | _, [] => True
  | state, op :: rest =>
      Steady digest state op ∧ SteadyRun (state.next digest decode op).1 rest

/-! ## The timeline keeps its number -/

namespace ContextTimeline

theorem orKeep_addBaselineOnce_nextSequence (timeline : ContextTimeline)
    (snapshot : EnvironmentContextSnapshot) :
    (timeline.orKeep (timeline.addBaselineOnce snapshot)).nextSequence =
      timeline.nextSequence := by
  rw [addBaselineOnce]
  split <;> rfl

@[simp] theorem recordSnapshot_nextSequence (timeline : ContextTimeline)
    (snapshot : EnvironmentContextSnapshot) :
    (timeline.recordSnapshot digest snapshot).nextSequence =
      timeline.nextSequence := by
  simp only [recordSnapshot]
  split <;> rfl

/-- The baseline is present once a delta has seeded it. -/
theorem seedBaseline_ne_none (timeline : ContextTimeline)
    (snapshot : EnvironmentContextSnapshot) :
    (timeline.seedBaseline snapshot).baseline ≠ none := by
  cases hbase : timeline.baseline with
  | none => simp [seedBaseline, addBaselineOnce, hbase, orKeep]
  | some base => simp [seedBaseline, hbase]

@[simp] theorem seedBaseline_nextSequence (timeline : ContextTimeline)
    (snapshot : EnvironmentContextSnapshot) :
    (timeline.seedBaseline snapshot).nextSequence = timeline.nextSequence := by
  rw [seedBaseline]
  split
  · exact orKeep_addBaselineOnce_nextSequence timeline snapshot
  · rfl

theorem feed_full_nextSequence (timeline : ContextTimeline) (sequence : ℕ)
    (snapshot : EnvironmentContextSnapshot) :
    (timeline.feed digest (.full sequence snapshot)).1.nextSequence =
      timeline.nextSequence := by
  simp only [feed, recordSnapshot_nextSequence]
  exact orKeep_addBaselineOnce_nextSequence timeline snapshot

/-- A delta with a number the timeline does not expect is rejected. -/
theorem feed_delta_of_ne {timeline : ContextTimeline} {sequence : ℕ}
    (h : sequence ≠ timeline.nextSequence)
    (snapshot : EnvironmentContextSnapshot)
    (delta : EnvironmentContextDelta) :
    (timeline.feed digest (.delta sequence snapshot delta)).2 =
        .error (.deltaSequenceOutOfOrder timeline.nextSequence sequence) ∧
      (timeline.feed digest (.delta sequence snapshot delta)).1.nextSequence =
        timeline.nextSequence := by
  have hreject : (timeline.seedBaseline snapshot).applyDelta sequence delta =
      .error (.deltaSequenceOutOfOrder timeline.nextSequence sequence) := by
    rw [applyDelta,
      if_neg (by simpa using seedBaseline_ne_none timeline snapshot),
      seedBaseline_nextSequence, if_pos h]
  simp only [feed, hreject, recordSnapshot_nextSequence]
  exact ⟨rfl, seedBaseline_nextSequence timeline snapshot⟩

theorem nextSequence_of_applyDelta {timeline timeline' : ContextTimeline}
    {sequence : ℕ} {delta : EnvironmentContextDelta}
    (h : timeline.applyDelta sequence delta = .ok timeline') :
    timeline'.nextSequence = timeline.nextSequence + 1 := by
  rw [applyDelta] at h
  split at h
  · cases h
  · split at h
    · cases h
    · cases h
      rfl

end ContextTimeline

/-! ## The invariant -/

/-- The tracker has counted at least as far as the timeline expects; before its
first emission it may be one behind. -/
structure RunsAhead (state : SessionState) : Prop where
  started : ∀ last, state.environmentContextTracker.lastSnapshot = some last →
    state.contextTimeline.nextSequence ≤
      state.environmentContextTracker.nextSequence
  fresh : state.environmentContextTracker.lastSnapshot = none →
    state.contextTimeline.nextSequence ≤
      state.environmentContextTracker.nextSequence + 1

theorem runsAhead_new : RunsAhead SessionState.new :=
  ⟨fun _ hlast => (by cases hlast), fun _ => le_rfl⟩

/-! ### Replays -/

/-- The replay context numbers deltas as its timeline does, from 1. -/
structure InStep (ctx : TimelineReplayContext) : Prop where
  same : ctx.timeline.nextSequence = ctx.nextSequence
  pos : 0 < ctx.nextSequence
  fresh : ctx.lastSnapshot = none → ctx.nextSequence = 1

theorem processRolloutEnvItem_inStep {ctx : TimelineReplayContext}
    (hbound : ctx.nextSequence + 1 ≤ u64Max) (h : InStep ctx)
    (item : RolloutEnvItem) :
    InStep (ctx.processRolloutEnvItem digest decode item) ∧
      (ctx.processRolloutEnvItem digest decode item).nextSequence ≤
        ctx.nextSequence + 1 := by
  have hsame := h.same
  have hpos := h.pos
  cases item with
  | snapshot snapshot =>
      refine ⟨⟨?_, hpos, fun hnone => by cases hnone⟩, Nat.le_succ _⟩
      simpa [TimelineReplayContext.processRolloutEnvItem] using hsame
  | legacyStatus snapshot =>
      simp only [TimelineReplayContext.processRolloutEnvItem]
      split
      · exact ⟨⟨hsame, hpos, h.fresh⟩, Nat.le_succ _⟩
      · exact ⟨h, Nat.le_succ _⟩
  | other => exact ⟨h, Nat.le_succ _⟩
  | delta delta =>
      simp only [TimelineReplayContext.processRolloutEnvItem]
      split
      · rename_i base hbase
        split
        · exact ⟨⟨rfl, Nat.one_pos, fun _ => rfl⟩,
            Nat.succ_le_succ (Nat.zero_le _)⟩
        · split
          · rename_i timeline happly
            have hnext := ContextTimeline.nextSequence_of_applyDelta happly
            have hsat := satAdd_eq hbound
            refine ⟨⟨?_, ?_, fun hnone => by cases hnone⟩, hsat.le⟩
            · rw [ContextTimeline.recordSnapshot_nextSequence,
                hnext, hsame, hsat]
            · simp only [hsat]
              exact Nat.succ_pos _
          · exact ⟨h, Nat.le_succ _⟩
      · exact ⟨h, Nat.le_succ _⟩

theorem replay_inStep (items : List RolloutEnvItem)
    {ctx : TimelineReplayContext}
    (hbound : ctx.nextSequence + items.length ≤ u64Max) (h : InStep ctx) :
    InStep
      (items.foldl (TimelineReplayContext.processRolloutEnvItem digest decode)
      ctx) := by
  induction items generalizing ctx with
  | nil => exact h
  | cons item rest ih =>
      rw [List.length_cons] at hbound
      obtain ⟨h', hle⟩ :=
        processRolloutEnvItem_inStep digest decode (by omega) h item
      exact ih (by omega) h'

theorem useLegacyBaseline_inStep {ctx : TimelineReplayContext}
    (h : InStep ctx) :
    InStep (ctx.useLegacyBaseline digest) := by
  rw [TimelineReplayContext.useLegacyBaseline]
  split
  · split
    · refine ⟨?_, h.pos, fun hnone => by cases hnone⟩
      rw [ContextTimeline.recordSnapshot_nextSequence,
        ContextTimeline.orKeep_addBaselineOnce_nextSequence]
      exact h.same
    · exact h
  · exact h

theorem runsAhead_reconstruct (rollout : Rollout) :
    RunsAhead (SessionState.reconstructFromRollout digest decode rollout) := by
  have hnew : InStep TimelineReplayContext.new :=
    ⟨rfl, Nat.one_pos, fun _ => rfl⟩
  have hreplay :=
    useLegacyBaseline_inStep digest (replay_inStep digest decode rollout.1
      (by rw [Nat.add_comm]; exact rollout.2) hnew)
  constructor
  · intro last hlast
    simp only [SessionState.reconstructFromRollout] at hlast ⊢
    split at hlast
    · rw [hreplay.same]
      exact Nat.le_max_left _ _
    · cases hlast
  · intro hlast
    simp only [SessionState.reconstructFromRollout] at hlast ⊢
    split at hlast
    · cases hlast
    · rename_i hnone
      rw [hreplay.same, hreplay.fresh hnone]
      exact Nat.succ_le_succ (Nat.zero_le _)

/-! ## One step -/

/-- A context is emitted in full first, not at all while it is steady, and
otherwise as a delta that the timeline rejects. -/
theorem next_observe {state : SessionState} (h : RunsAhead state)
    (envContext : EnvironmentContext)
    (gitBranch reasoningEffort : Option String) :
    let op := SessionOp.observe envContext gitBranch reasoningEffort
    RunsAhead (state.next digest decode op).1 ∧
      ((∀ fed ∈ (state.next digest decode op).2, fed.Accepted digest) ↔
        Steady digest state op) := by
  cases hlast : state.environmentContextTracker.lastSnapshot with
  | none =>
      simp only [SessionState.next, SessionState.maybeEmitEnvCtx,
        EnvironmentContextTracker.observe, hlast]
      refine ⟨⟨fun last _ => ?_, fun hnone => (by cases hnone)⟩,
        iff_of_true ?_ fun previous hsome =>
          (by rw [hlast] at hsome; cases hsome)⟩
      · rw [ContextTimeline.feed_full_nextSequence]
        exact h.fresh hlast
      · rintro fed hfed sequence snapshot delta hdelta
        cases hfed
        cases hdelta
  | some previous =>
      have hahead := h.started previous hlast
      by_cases hsteady : ((EnvironmentContextSnapshot.fromContext
          envContext).withMetadata gitBranch reasoningEffort).fingerprint
          digest =
            previous.fingerprint digest
      · simp only [SessionState.next, SessionState.maybeEmitEnvCtx,
          EnvironmentContextTracker.observe, hlast, hsteady, if_true]
        refine ⟨h, iff_of_true (fun fed hfed => (by cases hfed)) ?_⟩
        intro previous' hsome
        rw [hlast, Option.some.injEq] at hsome
        exact hsome ▸ hsteady
      · simp only [SessionState.next, SessionState.maybeEmitEnvCtx,
          EnvironmentContextTracker.observe, hlast, hsteady, if_false]
        have hne : state.environmentContextTracker.nextSequence + 1 ≠
            state.contextTimeline.nextSequence := by omega
        have hreject := ContextTimeline.feed_delta_of_ne digest hne
          ((EnvironmentContextSnapshot.fromContext envContext).withMetadata
            gitBranch reasoningEffort)
          (((EnvironmentContextSnapshot.fromContext envContext).withMetadata
            gitBranch reasoningEffort).diffFrom digest previous)
        refine ⟨⟨fun last _ => ?_, fun hnone => (by cases hnone)⟩,
          iff_of_false ?_ ?_⟩
        · rw [hreject.2]
          exact hahead.trans (Nat.le_succ _)
        · intro hall
          have haccepted := (hall _ rfl _ _ _ rfl).1
          rw [hreject.1] at haccepted
          cases haccepted
        · exact fun hsteady' => hsteady (hsteady' previous hlast)

/-! ## Runs -/

theorem trace_accepted_iff {state : SessionState} (h : RunsAhead state)
    (ops : List SessionOp) :
    (∀ fed ∈ state.trace digest decode ops, fed.Accepted digest) ↔
      SteadyRun digest decode state ops := by
  induction ops generalizing state with
  | nil => simp [SessionState.trace, SteadyRun]
  | cons op rest ih =>
      have hstep : RunsAhead (state.next digest decode op).1 ∧
          ((∀ fed ∈ (state.next digest decode op).2, fed.Accepted digest) ↔
            Steady digest state op) := by
        cases op with
        | observe envContext gitBranch reasoningEffort =>
            exact next_observe digest decode h envContext gitBranch
              reasoningEffort
        | reconstruct rollout =>
            exact ⟨runsAhead_reconstruct digest decode rollout,
              iff_of_true (fun fed hfed => (by cases hfed)) trivial⟩
      have hsplit : (∀ fed ∈ state.trace digest decode (op :: rest),
          fed.Accepted digest) ↔
            (∀ fed ∈ (state.next digest decode op).2, fed.Accepted digest) ∧
              ∀ fed ∈ (state.next digest decode op).1.trace digest decode rest,
                fed.Accepted digest := by
        rw [SessionState.trace, List.forall_mem_append]
        simp only [Option.mem_toList, Option.mem_def]
      rw [hsplit, hstep.2, ih hstep.1, SteadyRun]

/-- In every run of a session, new or resumed, all deltas are accepted exactly
when no context makes one. -/
theorem deltas_accepted_iff_steady (ops : List SessionOp) :
    (∀ fed ∈ SessionState.new.trace digest decode ops, fed.Accepted digest) ↔
      SteadyRun digest decode SessionState.new ops :=
  trace_accepted_iff digest decode runsAhead_new ops

/-- A new session that changes its directory: its first delta has the number
2. -/
theorem not_deltas_accepted_two_dirs :
    let digest := fun fields : List (String × String) =>
      String.join (fields.map fun field => field.1 ++ "=" ++ field.2 ++ ";")
    let decode : Decoders :=
      ⟨fun _ => none, fun _ => none, fun _ => none, fun _ => none,
        fun _ => none,
        fun _ => none⟩
    let context := fun cwd : String =>
      (⟨some cwd, none, none, none, none, none, none,
        none⟩ : EnvironmentContext)
    ¬ ∀ fed ∈ SessionState.new.trace digest decode
        [.observe (context "/a") none none, .observe (context "/b") none none],
      fed.Accepted digest := by
  intro digest decode context hall
  have hsteady := (trace_accepted_iff digest decode runsAhead_new _).1 hall
  have hsame := hsteady.2.1 _ rfl
  exact absurd hsame (by decide)

end CodeRs.Environment
