import CodeRs.Environment.Tracker
import CodeRs.Lib.Lists
import CodeRs.Lib.Runs
import CodeRs.Protocol.Models
import Mathlib.Data.Finset.Sort

/-!
# Runs of insertions into the timeline

The three methods that put something into a `ContextTimeline` change it in
place, and an error may come after a part of the work.  So they are programs on
the timeline here, and what they do is what the functions of the same names
compute.
-/

namespace CodeRs.Environment

open Protocol

/-! ## The methods -/

/-- A method that changes the timeline and may fail. -/
abbrev TimelineMethod (α : Type) :=
  ExceptT TimelineError (StateM ContextTimeline) α

namespace TimelineMethod

def addBaselineOnce (snapshot : EnvironmentContextSnapshot) :
    TimelineMethod Unit := do
  if (← get).baseline.isSome then throw .baselineAlreadySet
  modify fun timeline => { timeline with baseline := some snapshot }

def applyDelta (sequence : ℕ) (delta : EnvironmentContextDelta) :
    TimelineMethod Unit := do
  if (← get).baseline.isNone then throw .baselineNotSet
  if sequence ≠ (← get).nextSequence then
    throw (.deltaSequenceOutOfOrder (← get).nextSequence sequence)
  modify fun timeline =>
    { timeline with
      deltas := timeline.deltas.insert sequence { sequence, delta } }
  modify fun timeline =>
  { timeline with nextSequence := timeline.nextSequence + 1 }

/-- `record_snapshot`: whether the snapshot is new. -/
def recordSnapshot (digest : List (String × String) → String)
    (snapshot : EnvironmentContextSnapshot) : TimelineMethod Bool := do
  let fingerprint := snapshot.fingerprint digest
  if fingerprint ∈ (← get).snapshots then return false
  modify fun timeline =>
    { timeline with
      snapshots :=
        timeline.snapshots.insert fingerprint { fingerprint, snapshot } }
  return true

/-- The answer of a method and the timeline that it leaves. -/
def apply {α : Type} (method : TimelineMethod α) (timeline : ContextTimeline) :
    Except TimelineError α × ContextTimeline :=
  method.run.run timeline

section Apply

variable {α : Type} (timeline : ContextTimeline)

@[simp] theorem apply_get_bind (f : ContextTimeline → TimelineMethod α) :
    (get >>= f).apply timeline = (f timeline).apply timeline :=
  rfl

@[simp] theorem apply_modify_bind (change : ContextTimeline → ContextTimeline)
    (f : PUnit → TimelineMethod α) :
    (modify change >>= f).apply timeline = (f ⟨⟩).apply (change timeline) :=
  rfl

@[simp] theorem apply_modify (change : ContextTimeline → ContextTimeline) :
    (modify change : TimelineMethod Unit).apply timeline =
      (.ok (), change timeline) :=
  rfl

@[simp] theorem apply_pure (answer : α) :
    (pure answer : TimelineMethod α).apply timeline = (.ok answer, timeline) :=
  rfl

theorem apply_bind {β : Type} {timeline updated : ContextTimeline}
    {method : TimelineMethod α}
    {answer : α} (h : method.apply timeline = (.ok answer, updated))
    (f : α → TimelineMethod β) :
    (method >>= f).apply timeline = (f answer).apply updated := by
  rw [apply, StateT.run, ExceptT.run] at h
  simp only [apply, ExceptT.run_bind, StateT.run_bind]
  rw [StateT.run, ExceptT.run, h]
  rfl

@[simp] theorem apply_ite (p : Prop) [Decidable p]
    (first second : TimelineMethod α) :
    (if p then first else second).apply timeline =
      if p then first.apply timeline else second.apply timeline := by
  split <;> rfl

end Apply

/-- What a function that gives no timeline with an error says about a method. -/
def ofResult (timeline : ContextTimeline) :
    Except TimelineError ContextTimeline →
      Except TimelineError Unit × ContextTimeline
  | .ok updated => (.ok (), updated)
  | .error error => (.error error, timeline)

theorem apply_addBaselineOnce (snapshot : EnvironmentContextSnapshot)
    (timeline : ContextTimeline) :
    (addBaselineOnce snapshot).apply timeline =
      ofResult timeline (timeline.addBaselineOnce snapshot) := by
  rw [addBaselineOnce, ContextTimeline.addBaselineOnce]
  simp only [apply_get_bind, apply_ite, apply_modify]
  split <;> rfl

theorem apply_applyDelta (sequence : ℕ) (delta : EnvironmentContextDelta)
    (timeline : ContextTimeline) :
    (applyDelta sequence delta).apply timeline =
      ofResult timeline (timeline.applyDelta sequence delta) := by
  rw [applyDelta, ContextTimeline.applyDelta]
  simp only [apply_get_bind, apply_ite, apply_modify_bind, apply_modify]
  split
  · rfl
  · split <;> rfl

theorem apply_recordSnapshot (digest : List (String × String) → String)
    (snapshot : EnvironmentContextSnapshot) (timeline : ContextTimeline) :
    (recordSnapshot digest snapshot).apply timeline =
      (.ok (decide (snapshot.fingerprint digest ∉ timeline.snapshots)),
        timeline.recordSnapshot digest snapshot) := by
  rw [recordSnapshot, ContextTimeline.recordSnapshot]
  simp only [apply_get_bind, apply_ite, apply_pure, apply_modify_bind]
  split
  next hknown => simp [hknown]
  next hnew => simp [hnew]

end TimelineMethod

/-! ## Runs -/

inductive Insertion where
  | addBaselineOnce (snapshot : EnvironmentContextSnapshot)
  | applyDelta (sequence : ℕ) (delta : EnvironmentContextDelta)
  | recordSnapshot (snapshot : EnvironmentContextSnapshot)

variable (digest : List (String × String) → String)

def Insertion.method : Insertion → TimelineMethod Unit
  | .addBaselineOnce snapshot => TimelineMethod.addBaselineOnce snapshot
  | .applyDelta sequence delta => TimelineMethod.applyDelta sequence delta
  | .recordSnapshot snapshot => do
      let _ ← TimelineMethod.recordSnapshot digest snapshot

namespace ContextTimeline

/-- The timeline after an insertion, which may have failed. -/
def next (timeline : ContextTimeline) (insertion : Insertion) :
    ContextTimeline :=
  ((insertion.method digest).apply timeline).2

/-- What the functions of the same names compute for an insertion. -/
def insert (timeline : ContextTimeline) :
    Insertion → Except TimelineError ContextTimeline
  | .addBaselineOnce snapshot => timeline.addBaselineOnce snapshot
  | .applyDelta sequence delta => timeline.applyDelta sequence delta
  | .recordSnapshot snapshot => .ok (timeline.recordSnapshot digest snapshot)

theorem apply_method (timeline : ContextTimeline) (insertion : Insertion) :
    (insertion.method digest).apply timeline =
      TimelineMethod.ofResult timeline (timeline.insert digest insertion) := by
  cases insertion with
  | addBaselineOnce snapshot =>
      exact TimelineMethod.apply_addBaselineOnce snapshot timeline
  | applyDelta sequence delta =>
      exact TimelineMethod.apply_applyDelta sequence delta timeline
  | recordSnapshot snapshot =>
      exact TimelineMethod.apply_bind
        (TimelineMethod.apply_recordSnapshot digest snapshot timeline) _

variable {digest} {timeline : ContextTimeline} {insertion : Insertion}

theorem next_of_error {error : TimelineError}
    (h : ((insertion.method digest).apply timeline).1 = .error error) :
    timeline.next digest insertion = timeline := by
  rw [next]
  rw [apply_method] at h ⊢
  cases hresult : timeline.insert digest insertion with
  | ok updated =>
      rw [hresult] at h
      cases h
  | error error => rfl

/-- A property that successful insertions keep is kept by all of them. -/
theorem next_induction {P : ContextTimeline → Prop} (h : P timeline)
    (hinsert : ∀ updated,
      timeline.insert digest insertion = .ok updated → P updated) :
    P (timeline.next digest insertion) := by
  rw [next, apply_method]
  cases hresult : timeline.insert digest insertion with
  | ok updated => exact hinsert updated hresult
  | error error => exact h

theorem addBaselineOnce_eq_ok {updated : ContextTimeline}
    {snapshot : EnvironmentContextSnapshot}
    (h : timeline.addBaselineOnce snapshot = .ok updated) :
    timeline.baseline = none ∧
      updated = { timeline with baseline := some snapshot } := by
  rw [addBaselineOnce] at h
  split at h
  next => cases h
  next hnone =>
    cases h
    exact ⟨Option.not_isSome_iff_eq_none.1 hnone, rfl⟩

theorem applyDelta_eq_ok {updated : ContextTimeline} {sequence : ℕ}
    {delta : EnvironmentContextDelta}
    (h : timeline.applyDelta sequence delta = .ok updated) :
    sequence = timeline.nextSequence ∧
      updated =
        { timeline with
          deltas := timeline.deltas.insert sequence { sequence, delta }
          nextSequence := timeline.nextSequence + 1 } := by
  rw [applyDelta] at h
  split at h
  next => cases h
  next =>
    split at h
    next => cases h
    next hsequence =>
      cases h
      exact ⟨not_ne_iff.1 hsequence, rfl⟩

/-- Recording a snapshot changes nothing else. -/
theorem recordSnapshot_eq (digest : List (String × String) → String)
    (timeline : ContextTimeline) (snapshot : EnvironmentContextSnapshot) :
    ∃ snapshots, timeline.recordSnapshot digest snapshot =
      { timeline with snapshots } := by
  rw [recordSnapshot]
  split
  · exact ⟨timeline.snapshots, rfl⟩
  · exact ⟨_, rfl⟩

/-- The baseline stays once it is set. -/
theorem baseline_next {baseline : EnvironmentContextSnapshot}
    (h : timeline.baseline = some baseline) (insertion : Insertion) :
    (timeline.next digest insertion).baseline = some baseline := by
  apply next_induction (P := fun timeline => timeline.baseline =
    some baseline) h
  intro updated hupdated
  cases insertion with
  | addBaselineOnce snapshot =>
      have hnone := (addBaselineOnce_eq_ok hupdated).1
      rw [h] at hnone
      cases hnone
  | applyDelta sequence delta =>
      obtain ⟨-, rfl⟩ := applyDelta_eq_ok hupdated
      exact h
  | recordSnapshot snapshot =>
      obtain ⟨snapshots, hrecord⟩ := recordSnapshot_eq digest timeline snapshot
      cases hupdated
      rw [hrecord]
      exact h

theorem baseline_after {baseline : EnvironmentContextSnapshot}
    (h : timeline.baseline = some baseline) (later : List Insertion) :
    (after (next digest) timeline later).baseline = some baseline :=
  after_induction (P := fun reached : ContextTimeline => reached.baseline =
    some baseline)
    (fun _ insertion hbaseline => baseline_next hbaseline insertion) h later

/-- The deltas are numbered without a gap, each one by its own number. -/
structure Contiguous (timeline : ContextTimeline) : Prop where
  one_le : 1 ≤ timeline.nextSequence
  mem_deltas : ∀ sequence, sequence ∈ timeline.deltas ↔
    1 ≤ sequence ∧ sequence < timeline.nextSequence
  sequence_eq : ∀ sequence entry, timeline.deltas.lookup sequence = some entry →
    entry.sequence = sequence

theorem contiguous_new : new.Contiguous := by
  refine ⟨Nat.le_refl 1, fun sequence => ?_, fun sequence entry h => ?_⟩
  · refine iff_of_false (Finmap.notMem_empty) ?_
    rintro ⟨hpos, hlt⟩
    exact Nat.not_lt_of_le hpos hlt
  · cases h

theorem Contiguous.applyDelta (h : timeline.Contiguous)
    (delta : EnvironmentContextDelta) :
    Contiguous
      { timeline with
        deltas := timeline.deltas.insert timeline.nextSequence
          ⟨timeline.nextSequence, delta⟩
        nextSequence := timeline.nextSequence + 1 } := by
  have hone := h.one_le
  refine ⟨Nat.le_succ_of_le hone, fun sequence => ?_,
    fun sequence entry hentry => ?_⟩
  · change sequence ∈ timeline.deltas.insert _ _ ↔
      1 ≤ sequence ∧ sequence < timeline.nextSequence + 1
    rw [Finmap.mem_insert, h.mem_deltas]
    omega
  · by_cases hsequence : sequence = timeline.nextSequence
    · subst hsequence
      rw [Finmap.lookup_insert] at hentry
      cases hentry
      rfl
    · rw [Finmap.lookup_insert_of_ne _ hsequence] at hentry
      exact h.sequence_eq sequence entry hentry

theorem Contiguous.next (h : timeline.Contiguous) (insertion : Insertion) :
    (timeline.next digest insertion).Contiguous := by
  apply next_induction h
  intro updated hupdated
  cases insertion with
  | addBaselineOnce snapshot =>
      obtain ⟨-, rfl⟩ := addBaselineOnce_eq_ok hupdated
      exact ⟨h.one_le, h.mem_deltas, h.sequence_eq⟩
  | applyDelta sequence delta =>
      obtain ⟨rfl, rfl⟩ := applyDelta_eq_ok hupdated
      exact h.applyDelta delta
  | recordSnapshot snapshot =>
      obtain ⟨snapshots, hrecord⟩ := recordSnapshot_eq digest timeline snapshot
      cases hupdated
      rw [hrecord]
      exact ⟨h.one_le, h.mem_deltas, h.sequence_eq⟩

theorem Contiguous.after (h : timeline.Contiguous)
    (insertions : List Insertion) :
    (after (ContextTimeline.next digest) timeline insertions).Contiguous :=
  after_induction (P := Contiguous)
    (fun _ insertion hcontiguous => hcontiguous.next insertion)
    h insertions

end ContextTimeline

/-! ## Prompt items -/

/-- `serde_json::to_string_pretty` of what the timeline holds. -/
structure PrettyJson (ε : Type) where
  snapshot : EnvironmentContextSnapshot → Except ε Text
  delta : EnvironmentContextDelta → Except ε Text

/-- A user message with JSON between two tags. -/
def taggedItem (openTag closeTag : String) (json : Text)
    (streamId : Option String) :
    ResponseItem :=
  .message streamId "user"
    [.inputText (openTag.toList ++ '\n' :: json ++ '\n' :: closeTag.toList)]
    none none

section PromptItems

variable {ε : Type} (pretty : PrettyJson ε)

def snapshotToResponseItem (snapshot : EnvironmentContextSnapshot)
    (streamId : Option String) : Except ε ResponseItem := do
  let json ← pretty.snapshot snapshot
  return taggedItem "<environment_context>"
    "</environment_context>" json streamId

def deltaToResponseItem (delta : EnvironmentContextDelta)
    (streamId : Option String) :
    Except ε ResponseItem := do
  let json ← pretty.delta delta
  return taggedItem "<environment_context_delta>"
    "</environment_context_delta>" json streamId

namespace ContextTimeline

/-- `deltas.values()`, in the order of the numbers. -/
def deltaValues (timeline : ContextTimeline) : List DeltaEntry :=
  (timeline.deltas.keys.sort (· ≤ ·)).filterMap timeline.deltas.lookup

def assemblePromptItems (timeline : ContextTimeline) (maxDeltas : ℕ)
    (streamId : Option String) : Except ε (List ResponseItem) := do
  let mut items := []
  if let some snapshot := timeline.baseline then
    items := items ++ [← snapshotToResponseItem pretty snapshot streamId]
  if 0 < maxDeltas then
    let recent := (timeline.deltaValues.reverse.take maxDeltas).reverse
    for entry in recent do
      items := items ++ [← deltaToResponseItem pretty entry.delta streamId]
  return items

/-- The numbers of the stored deltas in their order. -/
theorem Contiguous.sort_keys {timeline : ContextTimeline}
    (h : timeline.Contiguous) :
    timeline.deltas.keys.sort (· ≤ ·) =
      List.range' 1 (timeline.nextSequence - 1) := by
  have hkeys : timeline.deltas.keys =
      (List.range' 1 (timeline.nextSequence - 1)).toFinset := by
    ext sequence
    rw [Finmap.mem_keys, h.mem_deltas, List.mem_toFinset, List.mem_range'_1]
    omega
  rw [hkeys]
  apply (List.toFinset_sort _ List.nodup_range').2
  exact List.pairwise_le_range' _

theorem Contiguous.exists_lookup {timeline : ContextTimeline}
    (h : timeline.Contiguous)
    {sequence : ℕ}
    (hmem : sequence ∈ List.range' 1 (timeline.nextSequence - 1)) :
    ∃ entry, timeline.deltas.lookup sequence = some entry ∧
      entry.sequence = sequence := by
  have hsequence : sequence ∈ timeline.deltas := by
    rw [h.mem_deltas]
    rw [List.mem_range'_1] at hmem
    omega
  obtain ⟨entry, hentry⟩ :=
    Option.isSome_iff_exists.1 (Finmap.lookup_isSome.2 hsequence)
  exact ⟨entry, hentry, h.sequence_eq sequence entry hentry⟩

/-- The values are numbered without a gap. -/
theorem Contiguous.map_deltaValues {timeline : ContextTimeline}
    (h : timeline.Contiguous) :
    timeline.deltaValues.map (·.sequence) =
      List.range' 1 (timeline.nextSequence - 1) := by
  rw [deltaValues, h.sort_keys]
  exact map_filterMap_of_found fun _ => h.exists_lookup

theorem Contiguous.lookup_deltaValues {timeline : ContextTimeline}
    (h : timeline.Contiguous)
    {entry : DeltaEntry} (hentry : entry ∈ timeline.deltaValues) :
    timeline.deltas.lookup entry.sequence = some entry := by
  rw [deltaValues, h.sort_keys] at hentry
  exact find_of_mem_filterMap (fun _ => h.exists_lookup) hentry

theorem forIn_append {α β : Type} (f : α → Except ε β) (entries : List α)
    (items : List β) :
    (forIn entries items fun entry items => do
        let item ← f entry
        pure (.yield (items ++ [item])) : Except ε (List β)) =
      (items ++ ·) <$> entries.mapM f := by
  induction entries generalizing items with
  | nil => simp
  | cons entry entries ih =>
      rw [List.forIn_cons, List.mapM_cons]
      cases hitem : f entry with
      | error error => rfl
      | ok item =>
          refine (ih (items ++ [item])).trans ?_
          cases hitems : entries.mapM f with
          | error error => rfl
          | ok later =>
              simp [bind, Except.bind, pure, Except.pure,
                Functor.map, Except.map]

def recentDeltas (timeline : ContextTimeline) (maxDeltas : ℕ) :
    List DeltaEntry :=
  (timeline.deltaValues.reverse.take maxDeltas).reverse

theorem assemblePromptItems_eq (timeline : ContextTimeline) (maxDeltas : ℕ)
    (streamId : Option String) :
    timeline.assemblePromptItems pretty maxDeltas streamId = do
      let first ← timeline.baseline.toList.mapM (snapshotToResponseItem
        pretty · streamId)
      let later ← (timeline.recentDeltas maxDeltas).mapM
        fun entry => deltaToResponseItem pretty entry.delta streamId
      return first ++ later := by
  have hnone : (timeline.recentDeltas 0).mapM
      (fun entry => deltaToResponseItem pretty entry.delta streamId) =
      pure [] := by
    simp [recentDeltas]
  have hloop := forIn_append (fun entry : DeltaEntry =>
    deltaToResponseItem pretty entry.delta streamId)
      (timeline.recentDeltas maxDeltas)
  rw [recentDeltas] at hloop
  rw [assemblePromptItems]
  cases timeline.baseline with
  | none =>
      simp only [Option.toList_none, List.mapM_nil, pure_bind,
        List.nil_append, bind_pure]
      split
      next hsome => exact (hloop []).trans (id_map' _)
      next hzero => rw [Nat.eq_zero_of_not_pos hzero, hnone]
  | some snapshot =>
      cases hitem : snapshotToResponseItem pretty snapshot streamId with
      | error error => simp [hitem]; rfl
      | ok item =>
          simp only [Option.toList_some, List.mapM_cons, List.mapM_nil, hitem]
          change (if 0 < maxDeltas then _ else _) = _
          split
          next hsome =>
            refine (bind_pure _).trans ((hloop [item]).trans ?_)
            exact (map_eq_pure_bind _ _)
          next hzero =>
            rw [Nat.eq_zero_of_not_pos hzero, hnone]
            rfl

theorem Contiguous.recentDeltas {timeline : ContextTimeline}
    (h : timeline.Contiguous)
    (maxDeltas : ℕ) :
    let count := min maxDeltas (timeline.nextSequence - 1)
    (timeline.recentDeltas maxDeltas).map (·.sequence) =
        List.range' (timeline.nextSequence - count) count ∧
      ∀ entry ∈ timeline.recentDeltas maxDeltas,
        timeline.deltas.lookup entry.sequence = some entry := by
  have hone := h.one_le
  constructor
  · have hlength : timeline.deltaValues.length = timeline.nextSequence - 1 := by
      rw [← List.length_map (f := (·.sequence)), h.map_deltaValues,
        List.length_range']
    rw [ContextTimeline.recentDeltas, List.reverse_take, List.reverse_reverse,
      List.length_reverse, hlength, List.map_drop, h.map_deltaValues,
      List.drop_range']
    congr 1 <;> omega
  · intro entry hentry
    have hrecent := List.mem_of_mem_take (List.mem_reverse.1 hentry)
    exact h.lookup_deltaValues (List.mem_reverse.1 hrecent)

end ContextTimeline

/-- After any insertions the deltas are numbered without a gap, the baseline
stays, an insertion that fails changes nothing, and the prompt items are the
baseline and the most recent deltas in their order. -/
theorem timeline_after_insertions (digest : List (String × String) → String)
    (insertions : List Insertion) :
    let timeline := after (ContextTimeline.next digest) .new insertions
    (∀ sequence, sequence ∈ timeline.deltas ↔
        1 ≤ sequence ∧ sequence < timeline.nextSequence) ∧
      (∀ sequence entry, timeline.deltas.lookup sequence = some entry →
        entry.sequence = sequence) ∧
      (∀ baseline, timeline.baseline = some baseline → ∀ later,
        (after (ContextTimeline.next digest) timeline later).baseline =
          some baseline) ∧
      (∀ (insertion : Insertion) (error : TimelineError),
        ((insertion.method digest).apply timeline).1 = .error error →
          ((insertion.method digest).apply timeline).2 = timeline) ∧
      ∀ maxDeltas streamId, ∃ recent : List DeltaEntry,
        let count := min maxDeltas (timeline.nextSequence - 1)
        recent.map (·.sequence) =
          List.range' (timeline.nextSequence - count) count ∧
          (∀ entry ∈ recent,
            timeline.deltas.lookup entry.sequence = some entry) ∧
          timeline.assemblePromptItems pretty maxDeltas streamId = do
            let first ← timeline.baseline.toList.mapM
              (snapshotToResponseItem pretty · streamId)
            let later ← recent.mapM
              fun entry => deltaToResponseItem pretty entry.delta streamId
            return first ++ later := by
  intro timeline
  have hcontiguous : timeline.Contiguous :=
    ContextTimeline.contiguous_new.after insertions
  refine ⟨hcontiguous.mem_deltas, hcontiguous.sequence_eq, ?_, ?_, ?_⟩
  · intro baseline hbaseline later
    exact ContextTimeline.baseline_after hbaseline later
  · intro insertion error herror
    exact ContextTimeline.next_of_error herror
  · intro maxDeltas streamId
    obtain ⟨hnumbers, hentries⟩ := hcontiguous.recentDeltas maxDeltas
    exact ⟨timeline.recentDeltas maxDeltas, hnumbers, hentries,
      timeline.assemblePromptItems_eq pretty maxDeltas streamId⟩

end PromptItems

/-- A recorded snapshot is no prompt item: only the baseline is one. -/
theorem snapshot_not_assembled :
    let pretty : PrettyJson Unit :=
      ⟨fun snapshot => .ok (snapshot.cwd.getD "").toList, fun _ => .ok []⟩
    let timeline := after (ContextTimeline.next dirDigest) .new
      [.addBaselineOnce (shellIn "/a" .unknown),
        .recordSnapshot (shellIn "/b" .unknown)]
    ¬ ∀ fingerprint entry, timeline.snapshots.lookup fingerprint = some entry →
      ∃ items item, timeline.assemblePromptItems pretty 10 none = .ok items ∧
        snapshotToResponseItem pretty entry.snapshot none = .ok item ∧
        item ∈ items := by
  intro pretty timeline h
  have hsnapshots : timeline.snapshots =
      Finmap.insert ((shellIn "/b" .unknown).fingerprint dirDigest)
        ⟨(shellIn "/b" .unknown).fingerprint dirDigest,
          shellIn "/b" .unknown⟩ ∅ := rfl
  obtain ⟨items, item, hitems, hitem, hmem⟩ := h _ _ (by
    rw [hsnapshots]
    exact Finmap.lookup_insert _)
  have hassembled : timeline.assemblePromptItems pretty 10 none =
      .ok [taggedItem "<environment_context>" "</environment_context>"
        "/a".toList none] := by
    have hrecent : timeline.recentDeltas 10 = [] :=
      List.map_eq_nil_iff.1
        ((ContextTimeline.contiguous_new.after
          [.addBaselineOnce (shellIn "/a" .unknown),
          .recordSnapshot (shellIn "/b" .unknown)]).recentDeltas 10).1
    rw [ContextTimeline.assemblePromptItems_eq, hrecent]
    rfl
  cases hassembled.symm.trans hitems
  cases hitem
  revert hmem
  decide

end CodeRs.Environment
