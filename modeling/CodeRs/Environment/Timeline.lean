import CodeRs.Environment.Snapshot
import CodeRs.Lib.Saturating
import Mathlib.Data.Finmap

/-!
# The tracker and the timeline

`EnvironmentContextTracker` numbers the emissions of a session and
`ContextTimeline` (`core/src/context_timeline/timeline.rs`) records them.  The
session feeds one with the other in `maybe_emit_env_ctx_messages`, and restores
both from a rollout.  The two counters are natural numbers: they count emissions
and start at 0 and 1.  Timestamps and telemetry are left out.
-/

namespace CodeRs.Environment

/-! ## The tracker -/

structure EnvironmentContextTracker where
  nextSequence : ℕ
  lastSnapshot : Option EnvironmentContextSnapshot

inductive EnvironmentContextEmission where
  | full (sequence : ℕ) (snapshot : EnvironmentContextSnapshot)
  | delta (sequence : ℕ) (snapshot : EnvironmentContextSnapshot)
      (delta : EnvironmentContextDelta)

def EnvironmentContextEmission.sequence : EnvironmentContextEmission → ℕ
  | full sequence _ => sequence
  | delta sequence _ _ => sequence

def EnvironmentContextEmission.snapshot :
    EnvironmentContextEmission → EnvironmentContextSnapshot
  | full _ snapshot => snapshot
  | delta _ snapshot _ => snapshot

namespace EnvironmentContextTracker

def new : EnvironmentContextTracker where
  nextSequence := 0
  lastSnapshot := none

def observe (digest : List (String × String) → String)
    (tracker : EnvironmentContextTracker)
    (snapshot : EnvironmentContextSnapshot) :
    EnvironmentContextTracker × Option EnvironmentContextEmission :=
  match tracker.lastSnapshot with
  | none =>
      let nextSequence := tracker.nextSequence + 1
      ({ nextSequence, lastSnapshot := some snapshot },
        some (.full nextSequence snapshot))
  | some previous =>
      if snapshot.fingerprint digest = previous.fingerprint digest then
        (tracker, none)
      else
        let nextSequence := tracker.nextSequence + 1
        ({ nextSequence, lastSnapshot := some snapshot },
          some
            (.delta nextSequence snapshot (snapshot.diffFrom digest previous)))

def restore (lastSnapshot : EnvironmentContextSnapshot) (nextSequence : ℕ) :
    EnvironmentContextTracker where
  nextSequence := max nextSequence 1
  lastSnapshot := some lastSnapshot

end EnvironmentContextTracker

/-! ## The timeline -/

/-- The errors of `TimelineError` that the modelled operations raise. -/
inductive TimelineError where
  | baselineAlreadySet
  | baselineNotSet
  | deltaSequenceOutOfOrder (expected actual : ℕ)

structure DeltaEntry where
  sequence : ℕ
  delta : EnvironmentContextDelta

structure SnapshotEntry where
  fingerprint : String
  snapshot : EnvironmentContextSnapshot

structure ContextTimeline where
  baseline : Option EnvironmentContextSnapshot
  deltas : Finmap fun _ : ℕ => DeltaEntry
  snapshots : Finmap fun _ : String => SnapshotEntry
  nextSequence : ℕ

namespace ContextTimeline

def new : ContextTimeline where
  baseline := none
  deltas := ∅
  snapshots := ∅
  nextSequence := 1

def addBaselineOnce (timeline : ContextTimeline)
    (snapshot : EnvironmentContextSnapshot) :
    Except TimelineError ContextTimeline :=
  if timeline.baseline.isSome then .error .baselineAlreadySet
  else .ok { timeline with baseline := some snapshot }

def applyDelta (timeline : ContextTimeline) (sequence : ℕ)
    (delta : EnvironmentContextDelta) : Except TimelineError ContextTimeline :=
  if timeline.baseline.isNone then .error .baselineNotSet
  else if sequence ≠ timeline.nextSequence then
    .error (.deltaSequenceOutOfOrder timeline.nextSequence sequence)
  else
    .ok
      { timeline with
        deltas := timeline.deltas.insert sequence { sequence, delta }
        nextSequence := timeline.nextSequence + 1 }

/-- `record_snapshot`, which never fails. -/
def recordSnapshot (digest : List (String × String) → String)
    (timeline : ContextTimeline) (snapshot : EnvironmentContextSnapshot) :
    ContextTimeline :=
  let fingerprint := snapshot.fingerprint digest
  if fingerprint ∈ timeline.snapshots then timeline
  else
    { timeline with
      snapshots :=
        timeline.snapshots.insert fingerprint { fingerprint, snapshot } }

/-- A result whose error is only logged. -/
def orKeep (timeline : ContextTimeline) :
    Except TimelineError ContextTimeline → ContextTimeline
  | .ok updated => updated
  | .error _ => timeline

/-- Seed the baseline where none is set yet; an error is only logged. -/
def seedBaseline (timeline : ContextTimeline)
    (snapshot : EnvironmentContextSnapshot) : ContextTimeline :=
  if timeline.baseline.isNone then
    timeline.orKeep (timeline.addBaselineOnce snapshot)
  else timeline

end ContextTimeline

/-! ## The session -/

/-- The part of the session state that carries environment contexts. -/
structure SessionState where
  environmentContextTracker : EnvironmentContextTracker
  environmentContextSeq : ℕ
  lastEnvironmentSnapshot : Option EnvironmentContextSnapshot
  contextTimeline : ContextTimeline

def SessionState.new : SessionState where
  environmentContextTracker := .new
  environmentContextSeq := 0
  lastEnvironmentSnapshot := none
  contextTimeline := .new

/-- What `maybe_emit_env_ctx_messages` feeds to the timeline for one emission,
and the result of `apply_delta` if the emission is a delta. -/
def ContextTimeline.feed (digest : List (String × String) → String)
    (timeline : ContextTimeline) :
    EnvironmentContextEmission → ContextTimeline × Except TimelineError Unit
  | .full _ snapshot =>
      let timeline := timeline.orKeep (timeline.addBaselineOnce snapshot)
      (timeline.recordSnapshot digest snapshot, .ok ())
  | .delta sequence snapshot delta =>
      let timeline := timeline.seedBaseline snapshot
      let result := timeline.applyDelta sequence delta
      ((timeline.orKeep result).recordSnapshot digest snapshot,
        result.map fun _ => ())

/-- An emission and how the timeline took it. -/
structure Fed where
  emission : EnvironmentContextEmission
  /-- The snapshot the tracker held when it made the emission. -/
  previous : Option EnvironmentContextSnapshot
  result : Except TimelineError Unit

/-- `maybe_emit_env_ctx_messages` up to the state it leaves, with the feature
`env_ctx_v2` on. -/
def SessionState.maybeEmitEnvCtx (digest : List (String × String) → String)
    (state : SessionState) (envContext : EnvironmentContext)
    (gitBranch reasoningEffort : Option String) : SessionState × Option Fed :=
  let snapshot :=
    (EnvironmentContextSnapshot.fromContext envContext).withMetadata
      gitBranch reasoningEffort
  let previous := state.environmentContextTracker.lastSnapshot
  match state.environmentContextTracker.observe digest snapshot with
  | (_, none) => (state, none)
  | (tracker, some emission) =>
      let fed := state.contextTimeline.feed digest emission
      ({ environmentContextTracker := tracker
         environmentContextSeq := emission.sequence
         lastEnvironmentSnapshot := some emission.snapshot
         contextTimeline := fed.1 },
        some { emission, previous, result := fed.2 })

/-! ## Replaying a rollout -/

/-- A rollout item as `process_rollout_env_item` parses it. -/
inductive RolloutEnvItem where
  | snapshot (snapshot : EnvironmentContextSnapshot)
  | delta (delta : EnvironmentContextDelta)
  | legacyStatus (snapshot : EnvironmentContextSnapshot)
  | other

structure TimelineReplayContext where
  timeline : ContextTimeline
  nextSequence : ℕ
  lastSnapshot : Option EnvironmentContextSnapshot
  legacyBaseline : Option EnvironmentContextSnapshot

namespace TimelineReplayContext

/-- The default context. -/
def new : TimelineReplayContext where
  timeline := .new
  nextSequence := 1
  lastSnapshot := none
  legacyBaseline := none

def processRolloutEnvItem (digest : List (String × String) → String)
    (decode : Decoders) (ctx : TimelineReplayContext) :
    RolloutEnvItem → TimelineReplayContext
  | .snapshot snapshot =>
      { ctx with
        timeline := (ctx.timeline.seedBaseline snapshot).recordSnapshot
          digest snapshot
        lastSnapshot := some snapshot }
  | .delta delta =>
      match ctx.lastSnapshot with
      | some base =>
          if delta.baseFingerprint ≠ base.fingerprint digest then
            { timeline := .new, nextSequence := 1, lastSnapshot := none
              legacyBaseline := none }
          else
            match ctx.timeline.applyDelta ctx.nextSequence delta with
            | .ok timeline =>
                let next := base.applyDelta decode delta
                { ctx with
                  timeline := timeline.recordSnapshot digest next
                  nextSequence := satAdd ctx.nextSequence 1
                  lastSnapshot := some next }
            | .error _ => ctx
      | none => ctx
  | .legacyStatus snapshot =>
      if ctx.legacyBaseline.isNone then
        { ctx with legacyBaseline := some snapshot }
      else ctx
  | .other => ctx

/-- The fallback of `reconstruct_history_from_rollout` to a legacy baseline. -/
def useLegacyBaseline (digest : List (String × String) → String)
    (ctx : TimelineReplayContext) : TimelineReplayContext :=
  if ctx.timeline.baseline.isNone then
    match ctx.legacyBaseline with
    | some snapshot =>
        { ctx with
          timeline := (ctx.timeline.orKeep
            (ctx.timeline.addBaselineOnce snapshot)).recordSnapshot
            digest snapshot
          lastSnapshot := some snapshot }
    | none => ctx
  else ctx

end TimelineReplayContext

/-- A recorded rollout.  It is a `Vec`, so it has fewer than `u64::MAX`
items. -/
abbrev Rollout := { items : List RolloutEnvItem // items.length < u64Max }

/-- The state that `reconstruct_history_from_rollout` leaves. -/
def SessionState.reconstructFromRollout
    (digest : List (String × String) → String)
    (decode : Decoders) (rollout : Rollout) : SessionState :=
  let ctx := (rollout.1.foldl
    (TimelineReplayContext.processRolloutEnvItem digest decode)
    TimelineReplayContext.new).useLegacyBaseline digest
  { contextTimeline := ctx.timeline
    environmentContextSeq := ctx.nextSequence - 1
    lastEnvironmentSnapshot := ctx.lastSnapshot
    environmentContextTracker :=
      match ctx.lastSnapshot with
      | some snapshot => .restore snapshot ctx.nextSequence
      | none => .new }

end CodeRs.Environment
