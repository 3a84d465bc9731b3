import CodeRs.History.Edits
import CodeRs.Lib.Runs

/-!
# Steps of a history

The operations of a history as one step function.  `stored_edit` performs the
case analysis over all operations once, in terms of the primitive edits, and
`enforceLoop_cons` the one over the loop that enforces the global exec limit;
each invariant is then a handful of lemmas, one per edit.
-/

namespace CodeRs.History

/-- The operations that change a history. -/
inductive Op where
  | push (record : HistoryRecord)
  | insert (index : ℕ) (record : HistoryRecord)
  | remove (index : ℕ)
  | applyEvent (event : HistoryEvent)
  | applyDomainEvent (now : ℕ) (event : HistoryDomainEvent)
  | finalizeAssistantStreamState (now : ℕ) (streamId : Option String)
      (markdown : String) (metadata : Option MessageMetadata)
      (tokenUsage : Option TokenUsage)
  | truncateAfter (id : HistoryId)

/-- The record an operation carries. -/
def Op.record? : Op → Option HistoryRecord
  | .push record => some record
  | .insert _ record => some record
  | .applyEvent (.insert _ record) => some record
  | .applyEvent (.replace _ record) => some record
  | .applyDomainEvent _ (.insert _ record) => some record.intoHistoryRecord
  | .applyDomainEvent _ (.replace _ record) => some record.intoHistoryRecord
  | _ => none

namespace HistoryState

/-- One operation on a history; `none` where the source panics. -/
def step (s : HistoryState) : Op → Option HistoryState
  | .push record => some (s.push record)
  | .insert index record => s.insert index record
  | .remove index => some (s.remove index).1
  | .applyEvent event => some (s.applyEvent event).1
  | .applyDomainEvent now event => (s.applyDomainEvent now event).map Prod.fst
  | .finalizeAssistantStreamState now streamId markdown metadata tokenUsage =>
      some (s.finalizeAssistantStreamState now streamId markdown metadata
        tokenUsage).1
  | .truncateAfter id => some (s.truncateAfter id).1

end HistoryState

/-- Histories grow from the empty one by operations and by restoring a snapshot
of another history. -/
def historySystem : System HistoryState Op where
  init := .new
  step := HistoryState.step
  combine s t := s.restore t.snapshot

/-- Histories reachable by steps that meet `ok`. -/
abbrev Reachable (ok : HistoryState → Op → Prop) : HistoryState → Prop :=
  historySystem.Reachable ok

/-! ## Kinds of records -/

namespace HistoryRecord

theorem isStream_iff {streamId : String} {record : HistoryRecord} :
    record.isStream streamId = true ↔
      ∃ state, record = .assistantStream state ∧ state.streamId = streamId := by
  cases record <;> simp [isStream]

theorem isMessageOf_iff {streamId : String} {record : HistoryRecord} :
    record.isMessageOf streamId = true ↔
      ∃ state, record = .assistantMessage state ∧
        state.streamId = some streamId := by
  cases record <;> simp [isMessageOf]

theorem isStream_of_ne {streamId : String} {state : AssistantStreamState}
    (h : state.streamId ≠ streamId) :
    isStream streamId (.assistantStream state) = false :=
  beq_eq_false_iff_ne.mpr h

end HistoryRecord

namespace HistoryState

/-! ## Operations as edits -/

theorem push_eq_insertAt (s : HistoryState) (record : HistoryRecord) :
    s.push record = s.insertAt s.records.length record := by
  simp [push, insertAt, withRecords_registerRecord, List.insertIdx_length_self]

theorem insert_eq_insertAt {s s' : HistoryState} {index : ℕ}
    {record : HistoryRecord} (h : s.insert index record = some s') :
    index ≤ s.records.length ∧ s' = s.insertAt index record := by
  simp only [insert, registerRecord_records, bumpNextId_records] at h
  split at h
  · rename_i hle
    simp only [Option.some.injEq] at h
    exact ⟨hle, by rw [← h, insertAt, withRecords_registerRecord]⟩
  · cases h

theorem remove_eq_removeAt (s : HistoryState) (index : ℕ) :
    (s.remove index).1 = s ∨
      ∃ record, s.records[index]? = some record ∧
        s.remove index = (s.removeAt index record, some record) := by
  cases h : s.records[index]? with
  | none => exact Or.inl (by simp [remove, h])
  | some record => exact Or.inr ⟨record, rfl, by simp [remove, h, removeAt]⟩

theorem truncateAfter_cases (s : HistoryState) (id : HistoryId) :
    (s.truncateAfter id).1 = s ∨
      (id = HistoryId.zero ∧ (s.truncateAfter id).1 = s.clearAll) ∨
      ∃ pos, pos + 1 < s.records.length ∧
        (s.truncateAfter id).1 = s.cutAfter pos := by
  by_cases hid : id = HistoryId.zero
  · exact Or.inr (Or.inl ⟨hid, by simp [truncateAfter, hid, clearAll]⟩)
  · cases hpos : s.records.findIdx? fun record => record.id == id with
    | none => exact Or.inl (by simp [truncateAfter, hid, hpos])
    | some pos =>
        by_cases hle : s.records.length ≤ pos + 1
        · exact Or.inl (by simp [truncateAfter, hid, hpos, hle])
        · refine Or.inr (Or.inr ⟨pos, by omega, ?_⟩)
          simp [truncateAfter, hid, hpos, hle, cutAfter]

@[simp] theorem truncateAfter_zero (s : HistoryState) :
    (s.truncateAfter HistoryId.zero).1 = s.clearAll := rfl

theorem applyEvent_insert (s : HistoryState) (index : ℕ)
    (record : HistoryRecord) :
    (s.applyEvent (.insert index record)).1 =
      s.insertAt (min index s.records.length) record := rfl

theorem applyEvent_replace {s : HistoryState} {index : ℕ}
    {existing : HistoryRecord} (h : s.records[index]? = some existing)
    (record : HistoryRecord) :
    s.applyEvent (.replace index record) =
      (s.replaceAt index existing record,
        .replaced index existing.id (record.withId existing.id)) := by
  simp [applyEvent, h, replaceAt]

theorem applyEvent_remove {s : HistoryState} {index : ℕ}
    {record : HistoryRecord} (h : s.records[index]? = some record) :
    (s.applyEvent (.remove index)).1 = s.removeAt index record := by
  simp [applyEvent, h, removeAt]

theorem applyEvent_replace_none {s : HistoryState} {index : ℕ}
    (h : s.records[index]? = none) (record : HistoryRecord) :
    s.applyEvent (.replace index record) = (s, .noop) := by
  simp [applyEvent, h]

theorem applyEvent_remove_none {s : HistoryState} {index : ℕ}
    (h : s.records[index]? = none) :
    s.applyEvent (.remove index) = (s, .noop) := by
  simp [applyEvent, h]

/-! ## One case analysis for all operations -/

/-- The operation inserts a record, so it issues an identifier. -/
def issuesId (s : HistoryState) : Op → Bool
  | .push _ => true
  | .insert _ _ => true
  | .applyEvent (.insert _ _) => true
  | .applyDomainEvent _ (.insert _ _) => true
  | .applyDomainEvent _ (.startExec _) => true
  | .applyDomainEvent _ (.upsertAssistantStream streamId _ _ _) =>
      !s.records.any (HistoryRecord.isStream streamId)
  | .finalizeAssistantStreamState _ none _ _ _ => true
  | .finalizeAssistantStreamState _ (some streamId) _ _ _ =>
      !s.records.any (HistoryRecord.isMessageOf streamId)
  | _ => false

/-- The state an operation leaves before it enforces the global exec limit, and
whether it goes on to enforce it. -/
def stored (s : HistoryState) : Op → Option (HistoryState × Bool)
  | .applyDomainEvent _ (.updateExecStream index stdoutChunk stderrChunk) =>
      match s.records[index]? with
      | some (.exec existing) =>
          (s.storeExecStream index existing stdoutChunk stderrChunk).map (·,
            true)
      | _ => some (s, false)
  | .applyDomainEvent _ (.finishExec event) =>
      match s.finishTarget event with
      | some idx =>
          match s.records[idx]? with
          | some (.exec existing) =>
              (finishedRecord existing event).map fun updated =>
                (s.replaceAt idx (.exec existing) (.exec updated), true)
          | _ => some (s, false)
      | none => some (s, false)
  | op => (s.step op).map (·, false)

/-- The output of `new` is that of `old` with at most one chunk appended to each
stream. -/
def AppendedTo (old new : ExecRecord) : Prop :=
  (∃ chunk, appendExecChunk? old.stdoutChunks chunk = some new.stdoutChunks) ∧
    ∃ chunk, appendExecChunk? old.stderrChunks chunk = some new.stderrChunks

/-- The records an operation can write: the one it carries, one without exec
output, a command that starts, or a present command with more output. -/
inductive Written (s : HistoryState) (op : Op) : HistoryRecord → Prop
  | given (record : HistoryRecord) :
  op.record? = some record → Written s op record
  | plain (record : HistoryRecord) :
      (∀ exec, record ≠ .exec exec) → Written s op record
  | started (event : StartExec) : Written s op (.exec (startedRecord event))
  | appended (old new : ExecRecord) :
      .exec old ∈ s.records → AppendedTo old new → Written s op (.exec new)

/-- What an operation does before the global limit, as primitive edits. -/
inductive Edit (s : HistoryState) (op : Op) : HistoryState → Prop
  | same : s.issuesId op = false → Edit s op s
  | insert (idx : ℕ) (record : HistoryRecord) :
      s.issuesId op = true → s.Written op record → idx ≤ s.records.length →
      Edit s op (s.insertAt idx record)
  | replace (idx : ℕ) (existing record : HistoryRecord) :
      s.issuesId op = false → s.Written op record →
      s.records[idx]? = some existing →
      Edit s op (s.replaceAt idx existing record)
  | remove (idx : ℕ) (record : HistoryRecord) :
      s.issuesId op = false → s.records[idx]? = some record →
      Edit s op (s.removeAt idx record)
  | cut (pos : ℕ) :
      s.issuesId op = false → pos + 1 < s.records.length →
      Edit s op (s.cutAfter pos)
  | clear : s.issuesId op = false → op = .truncateAfter HistoryId.zero →
      Edit s op s.clearAll
  | message (idx : ℕ) (existing state : AssistantMessageState) :
      s.issuesId op = false →
        s.records[idx]? = some (.assistantMessage existing) →
      state.id = existing.id → Edit s op (s.setMessage idx state)
  | store (idx : ℕ) (existing exec : ExecRecord) :
      s.issuesId op = false → s.records[idx]? = some (.exec existing) →
      exec.id = existing.id → exec.callId = existing.callId →
      AppendedTo existing exec → Edit s op (s.storeExec idx exec)
  | removeInsert (idx : ℕ) (removed record : HistoryRecord) :
      s.issuesId op = true → (∀ exec, record ≠ .exec exec) →
      s.records[idx]? = some removed →
      Edit s op ((s.removeAt idx removed).insertAt
        (s.removeAt idx removed).records.length record)
  | removeMessage (idx idx' : ℕ) (removed : HistoryRecord)
      (existing state : AssistantMessageState) :
      s.issuesId op = false → s.records[idx]? = some removed →
      (s.removeAt idx removed).records[idx']? =
        some (.assistantMessage existing) →
      state.id = existing.id →
      Edit s op ((s.removeAt idx removed).setMessage idx' state)

theorem applyEvent_edit {s : HistoryState} {op : Op} {event : HistoryEvent}
    (hissues : s.issuesId op = s.issuesId (.applyEvent event))
    (hwritten : ∀ record, (Op.applyEvent event).record? = some record →
      s.Written op record) :
    Edit s op (s.applyEvent event).1 := by
  cases event with
  | insert index record =>
      rw [applyEvent_insert]
      exact .insert _ _ hissues (hwritten record rfl) (min_le_right _ _)
  | replace index record =>
      cases h : s.records[index]? with
      | none =>
          rw [applyEvent_replace_none h]
          exact .same hissues
      | some existing =>
          rw [applyEvent_replace h]
          exact .replace _ _ _ hissues (hwritten record rfl) h
  | remove index =>
      cases h : s.records[index]? with
      | none =>
          rw [applyEvent_remove_none h]
          exact .same hissues
      | some record =>
          rw [applyEvent_remove h]
          exact .remove _ _ hissues h

theorem upsertAssistantStream_edit {s : HistoryState} {now : ℕ}
    {streamId previewMarkdown : String} {delta : Option AssistantStreamDelta}
    {metadata : Option MessageMetadata}
    {result : HistoryState × HistoryMutation}
    (h : s.upsertAssistantStream now streamId previewMarkdown delta metadata =
      some result) :
    Edit s (.applyDomainEvent now
      (.upsertAssistantStream streamId previewMarkdown delta metadata))
      result.1 := by
  cases hidx : s.records.findIdx? (HistoryRecord.isStream streamId) with
  | none =>
      have hissues : s.issuesId (.applyDomainEvent now
          (.upsertAssistantStream streamId previewMarkdown delta metadata)) =
          true := by
        simpa [issuesId] using List.findIdx?_eq_none_iff.mp hidx
      simp only [upsertAssistantStream, replaceAssistantStream, hidx,
        insertAssistantStream, Option.bind_eq_bind, Option.bind_some,
        Option.bind_eq_some_iff, Option.some.injEq] at h
      obtain ⟨appended, _, rfl⟩ := h
      rw [applyEvent_insert]
      exact .insert _ _ hissues (.plain _ (by simp)) (min_le_right _ _)
  | some idx =>
      obtain ⟨record, hrecord, hstream⟩ := findIdx?_getElem? hidx
      obtain ⟨existing, rfl, -⟩ := HistoryRecord.isStream_iff.mp hstream
      simp only [upsertAssistantStream, replaceAssistantStream, hidx, hrecord,
        Option.bind_eq_bind, Option.bind_eq_some_iff] at h
      obtain ⟨replaced, ⟨appended, _, hreplaced⟩, hresult⟩ := h
      rw [applyEvent_replace hrecord] at hreplaced
      simp only [reduceCtorEq, if_false, Option.some.injEq] at hreplaced
      subst hreplaced
      simp only [Option.some.injEq] at hresult
      subst hresult
      refine .replace _ _ _ ?_ (.plain _ (by simp)) hrecord
      simpa [issuesId] using ⟨_, List.mem_of_getElem? hrecord, hstream⟩

theorem takeLiveStream_cases (s : HistoryState) (streamId : Option String) :
    (s.takeLiveStream streamId).1 = s ∨
      ∃ idx state, s.records[idx]? = some (.assistantStream state) ∧
        (s.takeLiveStream streamId).1 =
          s.removeAt idx (.assistantStream state) := by
  cases hidx : streamId.bind fun id =>
      s.records.findIdx? (HistoryRecord.isStream id) with
  | none => exact Or.inl (by simp [takeLiveStream, hidx])
  | some idx =>
      obtain ⟨id, _, hfind⟩ := Option.bind_eq_some_iff.mp hidx
      obtain ⟨record, hrecord, hstream⟩ := findIdx?_getElem? hfind
      obtain ⟨state, rfl, -⟩ := HistoryRecord.isStream_iff.mp hstream
      refine Or.inr ⟨idx, state, hrecord, ?_⟩
      simp [takeLiveStream, hidx, remove, hrecord, removeAt]

/-- Removing a live stream does not change which messages are present. -/
theorem any_isMessageOf_removeAt {s : HistoryState} {idx : ℕ}
    {state : AssistantStreamState} (streamId : String)
    (h : s.records[idx]? = some (.assistantStream state)) :
    (s.removeAt idx (.assistantStream state)).records.any
        (HistoryRecord.isMessageOf streamId) =
      s.records.any (HistoryRecord.isMessageOf streamId) := by
  obtain ⟨before, after, hsplit, -, herase⟩ := exists_split_of_getElem? h
  rw [removeAt_records, herase, hsplit]
  simp [HistoryRecord.isMessageOf]

theorem putMessage_cases (s : HistoryState) (message : AssistantMessageState) :
    (message.streamId.all
      (fun id => !s.records.any (HistoryRecord.isMessageOf id)) ∧
        ∃ state, (s.putMessage message).1 =
          s.insertAt s.records.length (.assistantMessage state)) ∨
      (message.streamId.any
        (fun id => s.records.any (HistoryRecord.isMessageOf id)) ∧
        ∃ idx existing state,
          s.records[idx]? = some (.assistantMessage existing) ∧
          state.id = existing.id ∧
          (s.putMessage message).1 = s.setMessage idx state) := by
  cases hpos : message.streamId.bind fun id =>
      rposition (HistoryRecord.isMessageOf id) s.records with
  | none =>
      refine Or.inl ⟨?_, message, ?_⟩
      · cases hid : message.streamId with
        | none => rfl
        | some id =>
            have hnone :
                rposition (HistoryRecord.isMessageOf id) s.records = none := by
              simpa [hid] using hpos
            simp [rposition_eq_none hnone]
      · simp [putMessage, hpos, insertAt, HistoryRecord.withId, registerRecord,
          List.insertIdx_length_self]
  | some idx =>
      obtain ⟨id, hid, hrpos⟩ := Option.bind_eq_some_iff.mp hpos
      obtain ⟨record, hrecord, hmessage⟩ := rposition_getElem? hrpos
      obtain ⟨existing, rfl, -⟩ := HistoryRecord.isMessageOf_iff.mp hmessage
      refine Or.inr ⟨?_, idx, existing,
        { existing with
          markdown := message.markdown
          citations := message.citations
          metadata := message.metadata
          tokenUsage := message.tokenUsage
          createdAt := message.createdAt }, hrecord, rfl, ?_⟩
      · simpa [hid] using ⟨_, List.mem_of_getElem? hrecord, hmessage⟩
      · simp [putMessage, hpos, hrecord, setMessage]

theorem finalizeAssistantStreamState_edit (s : HistoryState) (now : ℕ)
    (streamId : Option String) (markdown : String)
    (metadata : Option MessageMetadata) (tokenUsage : Option TokenUsage) :
    Edit s
      (.finalizeAssistantStreamState now streamId markdown metadata tokenUsage)
      (s.finalizeAssistantStreamState now streamId markdown metadata
        tokenUsage).1 := by
  have hnew {t : HistoryState}
      (hany : ∀ id, t.records.any (HistoryRecord.isMessageOf id) =
        s.records.any (HistoryRecord.isMessageOf id))
      (hnone : streamId.all fun id =>
        !t.records.any (HistoryRecord.isMessageOf id)) :
      s.issuesId (.finalizeAssistantStreamState now streamId markdown metadata
        tokenUsage) = true := by
    cases streamId with
    | none => rfl
    | some id => simpa [issuesId, hany] using hnone
  have hold {t : HistoryState}
      (hany : ∀ id, t.records.any (HistoryRecord.isMessageOf id) =
        s.records.any (HistoryRecord.isMessageOf id))
      (hsome : streamId.any fun id =>
        t.records.any (HistoryRecord.isMessageOf id)) :
      s.issuesId (.finalizeAssistantStreamState now streamId markdown metadata
        tokenUsage) = false := by
    cases streamId with
    | none => cases hsome
    | some id =>
        rw [Option.any_some, hany] at hsome
        simp only [issuesId, hsome, Bool.not_true]
  simp only [finalizeAssistantStreamState]
  rcases takeLiveStream_cases s streamId with hs | ⟨idx, state, hget, hs⟩
  · rw [hs]
    rcases putMessage_cases s _ with
      ⟨hnone, record, hput⟩ | ⟨hsome, idx, existing, state, hget, hid, hput⟩
    · rw [hput]
      exact .insert _ _ (hnew (fun _ => rfl) hnone) (.plain _ (by simp)) le_rfl
    · rw [hput]
      exact .message _ _ _ (hold (fun _ => rfl) hsome) hget hid
  · have hany (id : String) := any_isMessageOf_removeAt id hget
    rw [hs]
    rcases putMessage_cases (s.removeAt idx (.assistantStream state)) _ with
      ⟨hnone, record, hput⟩ | ⟨hsome, idx', existing, message, hget', hid, hput⟩
    · rw [hput]
      exact .removeInsert _ _ _ (hnew hany hnone) (by simp) hget
    · rw [hput]
      exact .removeMessage _ _ _ _ _ (hold hany hsome) hget hget' hid

theorem storeExecStream_eq_storeExec {s t : HistoryState} {index : ℕ}
    {existing : ExecRecord} {stdoutChunk stderrChunk : Option ExecStreamChunk}
    (h : s.storeExecStream index existing stdoutChunk stderrChunk = some t) :
    ∃ exec, t = s.storeExec index exec ∧ exec.id = existing.id ∧
      exec.callId = existing.callId ∧ AppendedTo existing exec := by
  simp only [storeExecStream, Option.bind_eq_bind, Option.bind_eq_some_iff,
    Option.some.injEq] at h
  obtain ⟨stdoutChunks, hout, stderrChunks, herr, rfl⟩ := h
  exact ⟨_, rfl, rfl, rfl, ⟨_, hout⟩, ⟨_, herr⟩⟩

theorem appendTail_eq_append (chunks : List ExecStreamChunk)
    (tail : Option Text) :
    ∃ chunk, appendTail chunks tail = appendExecChunk? chunks chunk := by
  cases tail with
  | none => exact ⟨none, rfl⟩
  | some text =>
      by_cases hnil : text = []
      · exact ⟨none, by simp [appendTail, hnil, appendExecChunk?]⟩
      · exact ⟨some _, by rw [appendTail, if_neg hnil]; rfl⟩

theorem finishedRecord_appended {existing updated : ExecRecord}
    {event : FinishExec}
    (h : finishedRecord existing event = some updated) :
    AppendedTo existing updated := by
  simp only [finishedRecord, Option.bind_eq_bind, Option.bind_eq_some_iff,
    Option.some.injEq] at h
  obtain ⟨stdoutChunks, hout, stderrChunks, herr, rfl⟩ := h
  obtain ⟨outChunk, hout'⟩ :=
    appendTail_eq_append existing.stdoutChunks event.stdoutTail
  obtain ⟨errChunk, herr'⟩ :=
    appendTail_eq_append existing.stderrChunks event.stderrTail
  exact ⟨⟨outChunk, hout' ▸ hout⟩, ⟨errChunk, herr' ▸ herr⟩⟩

/-- An operation that does not enforce the limit stores what it leaves. -/
theorem eq_some_of_map_plain {result : Option HistoryState} {t : HistoryState}
    {limit : Bool} (h : result.map (·, false) = some (t, limit)) :
    result = some t := by
  obtain ⟨t', hresult, ht⟩ := Option.map_eq_some_iff.mp h
  rw [hresult, (Prod.mk.inj ht).1]

theorem updateExecStream_edit {s t : HistoryState} {now index : ℕ}
    {stdoutChunk stderrChunk : Option ExecStreamChunk} {limit : Bool}
    (h : s.stored (.applyDomainEvent now
      (.updateExecStream index stdoutChunk stderrChunk)) = some (t, limit)) :
    Edit s (.applyDomainEvent now
      (.updateExecStream index stdoutChunk stderrChunk)) t := by
  simp only [stored] at h
  split at h
  · rename_i existing hget
    simp only [Option.map_eq_some_iff, Prod.mk.injEq] at h
    obtain ⟨t', ht', rfl, -⟩ := h
    obtain ⟨exec, rfl, hid, hcall, happended⟩ :=
      storeExecStream_eq_storeExec ht'
    exact .store _ _ _ rfl hget hid hcall happended
  · simp only [Option.some.injEq, Prod.mk.injEq] at h
    rw [← h.1]
    exact .same rfl

theorem finishExec_edit {s t : HistoryState} {now : ℕ} {event : FinishExec}
    {limit : Bool}
    (h : s.stored (.applyDomainEvent now (.finishExec event)) =
      some (t, limit)) :
    Edit s (.applyDomainEvent now (.finishExec event)) t := by
  have hsame : some (s, false) = some (t, limit) →
      Edit s (.applyDomainEvent now (.finishExec event)) t := by
    intro hst
    simp only [Option.some.injEq, Prod.mk.injEq] at hst
    rw [← hst.1]
    exact .same rfl
  simp only [stored] at h
  split at h
  · rename_i idx htarget
    split at h
    · rename_i existing hget
      simp only [Option.map_eq_some_iff, Prod.mk.injEq] at h
      obtain ⟨updated, hfinished, rfl, -⟩ := h
      have hwritten : s.Written (.applyDomainEvent now (.finishExec event))
          (.exec updated) :=
        .appended existing updated (List.mem_of_getElem? hget)
          (finishedRecord_appended hfinished)
      exact .replace _ _ _ rfl hwritten hget
    · exact hsame h
  · exact hsame h

theorem updateExecWait_edit (s : HistoryState) (now index : ℕ)
    (totalWait : Option ℕ) (waitActive : Bool) (notes : List ExecWaitNote) :
    Edit s
      (.applyDomainEvent now (.updateExecWait index totalWait waitActive notes))
      (s.updateExecWait index totalWait waitActive notes).1 := by
  rw [updateExecWait]
  split
  · rename_i existing hget
    refine applyEvent_edit rfl ?_
    intro record hrecord
    cases hrecord
    exact .appended existing _ (List.mem_of_getElem? hget) ⟨⟨none, rfl⟩,
      ⟨none, rfl⟩⟩
  · exact .same rfl

theorem storedDomain_edit {s t : HistoryState} {now : ℕ}
    {event : HistoryDomainEvent}
    {limit : Bool}
    (h : s.stored (.applyDomainEvent now event) = some (t, limit)) :
    Edit s (.applyDomainEvent now event) t := by
  cases event with
  | updateExecStream index stdoutChunk stderrChunk =>
      exact updateExecStream_edit h
  | finishExec event => exact finishExec_edit h
  | insert index record =>
      have ht := Option.some.inj (eq_some_of_map_plain h)
      rw [← ht]
      exact .insert _ _ rfl (.given _ rfl) (min_le_right _ _)
  | replace index record =>
      have ht := Option.some.inj (eq_some_of_map_plain h)
      rw [← ht]
      exact applyEvent_edit rfl fun record hrecord => .given record hrecord
  | remove index =>
      have ht := Option.some.inj (eq_some_of_map_plain h)
      rw [← ht]
      exact applyEvent_edit rfl fun record hrecord => .given record hrecord
  | upsertAssistantStream streamId previewMarkdown delta metadata =>
      have ht := eq_some_of_map_plain h
      obtain ⟨result, hresult, rfl⟩ := Option.map_eq_some_iff.mp ht
      exact upsertAssistantStream_edit hresult
  | updateExecWait index totalWait waitActive notes =>
      have ht := Option.some.inj (eq_some_of_map_plain h)
      rw [← ht]
      exact updateExecWait_edit s now index totalWait waitActive notes
  | startExec event =>
      have ht := Option.some.inj (eq_some_of_map_plain h)
      rw [← ht]
      exact .insert _ _ rfl (.started event) (min_le_right _ _)

theorem stored_edit {s t : HistoryState} {op : Op} {limit : Bool}
    (h : s.stored op = some (t, limit)) : Edit s op t := by
  cases op with
  | applyDomainEvent now event => exact storedDomain_edit h
  | push record =>
      have ht := Option.some.inj (eq_some_of_map_plain h)
      rw [← ht, push_eq_insertAt]
      exact .insert _ _ rfl (.given _ rfl) le_rfl
  | insert index record =>
      obtain ⟨hle, rfl⟩ := insert_eq_insertAt (eq_some_of_map_plain h)
      exact .insert _ _ rfl (.given _ rfl) hle
  | remove index =>
      have ht := Option.some.inj (eq_some_of_map_plain h)
      rw [← ht]
      rcases remove_eq_removeAt s index with hs | ⟨record, hget, hs⟩
      · rw [hs]
        exact .same rfl
      · rw [hs]
        exact .remove _ _ rfl hget
  | applyEvent event =>
      have ht := Option.some.inj (eq_some_of_map_plain h)
      rw [← ht]
      exact applyEvent_edit rfl fun record hrecord => .given record hrecord
  | finalizeAssistantStreamState now streamId markdown metadata tokenUsage =>
      have ht := Option.some.inj (eq_some_of_map_plain h)
      rw [← ht]
      exact finalizeAssistantStreamState_edit s now streamId markdown
        metadata tokenUsage
  | truncateAfter id =>
      have ht := Option.some.inj (eq_some_of_map_plain h)
      rw [← ht]
      rcases truncateAfter_cases s id with hs | ⟨rfl, hs⟩ | ⟨pos, hpos, hs⟩
      · rw [hs]
        exact .same rfl
      · rw [hs]
        exact .clear rfl rfl
      · rw [hs]
        exact .cut pos rfl hpos

/-- The second half of an operation: enforce the global exec limit if the
operation asks for it. -/
def settle : HistoryState × Bool → Option HistoryState
  | (t, true) => t.enforceExecStreamGlobalLimit
  | (t, false) => some t

theorem enforceAndReport_fst (s : HistoryState) (index : ℕ) (id : HistoryId) :
    (s.enforceAndReport index id).map Prod.fst =
      s.enforceExecStreamGlobalLimit := by
  simp only [enforceAndReport, Option.bind_eq_bind]
  cases h : s.enforceExecStreamGlobalLimit with
  | none => rfl
  | some t => cases ht : t.records[index]? <;> simp [ht]

theorem exec_or_not (o : Option HistoryRecord) :
    (∃ exec, o = some (.exec exec)) ∨ ∀ exec, o ≠ some (.exec exec) := by
  by_cases h : ∃ exec, o = some (.exec exec)
  · exact Or.inl h
  · exact Or.inr fun exec hexec => h ⟨exec, hexec⟩

theorem step_eq_stored (s : HistoryState) (op : Op) :
    s.step op = (s.stored op).bind settle := by
  have hplain (r : Option HistoryState) :
      r = (r.map (·, false)).bind settle := by
    cases r <;> rfl
  cases op with
  | push _ => exact hplain _
  | insert _ _ => exact hplain _
  | remove _ => exact hplain _
  | applyEvent _ => exact hplain _
  | finalizeAssistantStreamState _ _ _ _ _ => exact hplain _
  | truncateAfter _ => exact hplain _
  | applyDomainEvent now event =>
      cases event with
      | insert _ _ => exact hplain _
      | replace _ _ => exact hplain _
      | remove _ => exact hplain _
      | upsertAssistantStream _ _ _ _ => exact hplain _
      | updateExecWait _ _ _ _ => exact hplain _
      | startExec _ => exact hplain _
      | updateExecStream index stdoutChunk stderrChunk =>
          rcases exec_or_not (s.records[index]?) with ⟨existing, hget⟩ | hnot
          · simp only [step, stored, applyDomainEvent, updateExecStream, hget]
            cases s.storeExecStream index existing stdoutChunk stderrChunk with
            | none => rfl
            | some t => exact enforceAndReport_fst t index existing.id
          · simp only [step, stored, applyDomainEvent, updateExecStream]
            rfl
      | finishExec event =>
          cases htarget : s.finishTarget event with
          | none =>
              simp [step, stored, applyDomainEvent, finishExec, htarget, settle]
          | some idx =>
              rcases exec_or_not (s.records[idx]?) with ⟨existing, hget⟩ | hnot
              · simp only [step, stored, applyDomainEvent, finishExec,
                  htarget, hget]
                cases finishedRecord existing event with
                | none => rfl
                | some updated =>
                    simpa [applyEvent_replace hget, settle] using
                      enforceAndReport_fst
                        (s.replaceAt idx (.exec existing) (.exec updated))
                        idx updated.id
              · simp only [step, stored, applyDomainEvent, finishExec, htarget]
                rfl

theorem step_cases {s t : HistoryState} {op : Op} (h : s.step op = some t) :
    ∃ u limit, s.stored op = some (u, limit) ∧ settle (u, limit) = some t := by
  rw [step_eq_stored, Option.bind_eq_some_iff] at h
  obtain ⟨⟨u, limit⟩, hstored, hsettle⟩ := h
  exact ⟨u, limit, hstored, hsettle⟩

/-- What holds after an edit and is kept by enforcing the limit holds after the
operation. -/
theorem holds_of_step {P : HistoryState → Prop} {s t : HistoryState} {op : Op}
    (hedit : ∀ {u : HistoryState}, Edit s op u → P u)
    (henforce : ∀ {u t : HistoryState},
      P u → u.enforceExecStreamGlobalLimit = some t → P t)
    (h : s.step op = some t) : P t := by
  obtain ⟨stored, limit, hstored, hsettle⟩ := step_cases h
  have hkept : P stored := hedit (stored_edit hstored)
  cases limit with
  | false =>
      cases hsettle
      exact hkept
  | true => exact henforce hkept hsettle

/-- What holds of the empty history and is kept by edits, by enforcing the
limit and by `restore` holds of every reachable history. -/
theorem invariant_of_edits {ok : HistoryState → Op → Prop}
    {P : HistoryState → Prop}
    (hinit : P .new)
    (hedit : ∀ {s t : HistoryState} {op : Op},
      P s → ok s op → Edit s op t → P t)
    (henforce : ∀ {s t : HistoryState},
      P s → s.enforceExecStreamGlobalLimit = some t → P t)
    (hrestore : ∀ {s t : HistoryState}, P s → P t → P (s.restore t.snapshot))
    {s : HistoryState}
    (h : Reachable ok s) : P s :=
  h.invariant hinit (fun _ _ _ hs hok hstep =>
    holds_of_step (hedit hs hok) henforce hstep)
      fun _ _ => hrestore

/-- An operation that issues an identifier does not enforce the limit. -/
theorem settle_of_issuesId {s t u : HistoryState} {op : Op} {limit : Bool}
    (hissues : s.issuesId op = true) (hstored : s.stored op = some (u, limit))
    (hsettle : settle (u, limit) = some t) : u = t := by
  have hlimit : limit = false := by
    cases op with
    | applyDomainEvent now event =>
        cases event with
        | updateExecStream _ _ _ => cases hissues
        | finishExec _ => cases hissues
        | _ => simp_all [stored, Option.map_eq_some_iff]
    | _ => simp_all [stored, Option.map_eq_some_iff]
  subst hlimit
  exact Option.some.inj hsettle

/-! ## What enforcement changes -/

/-- `new` is `old`, or an exec record whose streams were pruned. -/
inductive ChunksChanged : HistoryRecord → HistoryRecord → Prop
  | same (record : HistoryRecord) : ChunksChanged record record
  | exec (exec : ExecRecord) (stdoutChunks stderrChunks : List
    ExecStreamChunk) :
      pruneExecStream exec.stdoutChunks execStreamPruneTargetBytes =
        some stdoutChunks →
      pruneExecStream exec.stderrChunks execStreamPruneTargetBytes =
        some stderrChunks →
      ChunksChanged (.exec exec) (.exec { exec with
        stdoutChunks, stderrChunks })

theorem ChunksChanged.id_eq {old new : HistoryRecord}
    (h : ChunksChanged old new) :
    new.id = old.id := by
  cases h <;> rfl

/-- What the loop does with one record: stop, pass over it, or prune it. -/
theorem enforceLoop_cons {record : HistoryRecord}
    {rest records' : List HistoryRecord} {bytesToDrop : ℕ}
    {r r' : ExecStreamRetained}
    (h : enforceLoop (record :: rest) bytesToDrop r = some (records', r')) :
    (bytesToDrop = 0 ∧ records' = record :: rest ∧ r' = r) ∨
      (0 < bytesToDrop ∧
        (∀ exec, record = .exec exec → recordedBytes r exec = 0) ∧
        ∃ rest', enforceLoop rest bytesToDrop r = some (rest', r') ∧
          records' = record :: rest') ∨
      (0 < bytesToDrop ∧ ∃ exec stdoutChunks stderrChunks rest',
        record = .exec exec ∧ 0 < recordedBytes r exec ∧
        pruneExecStream exec.stdoutChunks execStreamPruneTargetBytes =
          some stdoutChunks ∧
        pruneExecStream exec.stderrChunks execStreamPruneTargetBytes =
          some stderrChunks ∧
        enforceLoop rest
          (bytesToDrop - (recordedBytes r exec -
            retainedExecRecordBytes { exec with stdoutChunks, stderrChunks }))
          (r.store exec.id
            (retainedExecRecordBytes { exec with
              stdoutChunks, stderrChunks })) =
          some (rest', r') ∧
        records' = .exec { exec with
          stdoutChunks, stderrChunks } :: rest') := by
  by_cases hn : bytesToDrop = 0
  · left
    cases record <;> simp_all [enforceLoop]
  · right
    have hpos : 0 < bytesToDrop := by omega
    have hskip (hne : ∀ exec, record = .exec exec → recordedBytes r exec = 0)
        (heq : ((enforceLoop rest bytesToDrop r).bind fun p =>
          some (record :: p.1, p.2)) = some (records', r')) :
        ∃ rest', enforceLoop rest bytesToDrop r = some (rest', r') ∧
          records' = record :: rest' := by
      simp only [Option.bind_eq_some_iff, Option.some.injEq, Prod.mk.injEq,
        Prod.exists] at heq
      obtain ⟨rest', _, hrest, rfl, rfl⟩ := heq
      exact ⟨rest', hrest, rfl⟩
    cases record with
    | exec exec =>
        by_cases hzero : recordedBytes r exec = 0
        · refine Or.inl ⟨hpos, by simp [hzero], hskip (by simp [hzero]) ?_⟩
          simpa [enforceLoop, hn, hzero] using h
        · refine Or.inr ⟨hpos, exec, ?_⟩
          simp only [enforceLoop, hn, if_false, hzero,
            Option.bind_eq_bind, Option.bind_eq_some_iff, Option.some.injEq,
            Prod.mk.injEq, Prod.exists] at h
          obtain ⟨stdoutChunks, hout, stderrChunks, herr, rest', _, hrest,
            rfl, rfl⟩ := h
          exact ⟨stdoutChunks, stderrChunks, rest', rfl,
            Nat.pos_of_ne_zero hzero,
            hout, herr, hrest, rfl⟩
    | _ =>
        refine Or.inl ⟨hpos, by simp, hskip (by simp) ?_⟩
        simpa [enforceLoop, hn] using h

theorem enforceLoop_chunksChanged {records records' : List HistoryRecord}
    {bytesToDrop : ℕ} {r r' : ExecStreamRetained}
    (h : enforceLoop records bytesToDrop r = some (records', r')) :
    List.Forall₂ ChunksChanged records records' := by
  induction records generalizing bytesToDrop r records' with
  | nil =>
      simp only [enforceLoop, Option.some.injEq, Prod.mk.injEq] at h
      rw [← h.1]
      exact .nil
  | cons record rest ih =>
      rcases enforceLoop_cons h with ⟨_, rfl, _⟩ | ⟨_, _, rest', hrest, rfl⟩ |
        ⟨_, exec, _, _, rest', rfl, _, hout, herr, hrest, rfl⟩
      · exact List.forall₂_same.mpr fun record _ => .same record
      · exact .cons (.same record) (ih hrest)
      · exact .cons (.exec exec _ _ hout herr) (ih hrest)

theorem enforce_cases {s t : HistoryState}
    (h : s.enforceExecStreamGlobalLimit = some t) :
    (s.retained.totalBytes ≤ globalExecStreamRetainedBytes ∧ t = s) ∨
      (globalExecStreamRetainedBytes < s.retained.totalBytes ∧
        ∃ records retained,
        enforceLoop s.records
          (s.retained.totalBytes - globalExecStreamRetainedBytes) s.retained =
          some (records, retained) ∧
        t = { s with records, retained }) := by
  rw [enforceExecStreamGlobalLimit] at h
  split at h
  · rename_i hle
    cases h
    exact Or.inl ⟨hle, rfl⟩
  · rename_i hgt
    simp only [Option.bind_eq_bind, Option.bind_eq_some_iff, Option.some.injEq,
      Prod.exists] at h
    obtain ⟨records, retained, hloop, rfl⟩ := h
    exact Or.inr ⟨not_le.mp hgt, records, retained, hloop, rfl⟩

theorem enforce_chunksChanged {s t : HistoryState}
    (h : s.enforceExecStreamGlobalLimit = some t) :
    ∃ records retained, List.Forall₂ ChunksChanged s.records records ∧
      t = { s with records, retained } := by
  rcases enforce_cases h with ⟨_, rfl⟩ | ⟨_, records, retained, hloop, rfl⟩
  · exact ⟨t.records, t.retained,
      List.forall₂_same.mpr fun record _ => .same record, rfl⟩
  · exact ⟨records, retained, enforceLoop_chunksChanged hloop, rfl⟩

theorem map_id_of_chunksChanged {records records' : List HistoryRecord}
    (h : List.Forall₂ ChunksChanged records records') :
    records'.map HistoryRecord.id = records.map HistoryRecord.id := by
  induction h with
  | nil => rfl
  | cons hchanged _ ih => rw [List.map_cons, List.map_cons, hchanged.id_eq, ih]

/-! ## What a restored history contains -/

theorem dedupMessages_sublist (seen : List String)
    (records : List HistoryRecord) :
    (dedupMessages seen records).Sublist records := by
  fun_induction dedupMessages seen records with
  | case1 => exact .slnil
  | case2 _ _ _ _ _ _ ih => exact .cons _ ih
  | case3 _ _ _ _ _ _ ih => exact .cons_cons _ ih
  | case4 _ _ _ _ ih => exact .cons_cons _ ih
  | case5 _ _ _ _ ih => exact .cons_cons _ ih

@[simp] theorem restore_records (s : HistoryState)
    (snapshot : HistorySnapshot) :
    (s.restore snapshot).records = dedupMessages [] snapshot.records := by
  simp only [restore]
  split <;> simp [rebuildLookupMaps]

@[simp] theorem restore_nextId (s : HistoryState) (snapshot : HistorySnapshot) :
    (s.restore snapshot).nextId = snapshot.nextId := by
  simp only [restore]
  split <;> simp [rebuildLookupMaps]

theorem restore_idIndex (s : HistoryState) (snapshot : HistorySnapshot) :
    (s.restore snapshot).idIndex =
      indexRecords (dedupMessages [] snapshot.records) 0 ∅ := by
  simp only [restore]
  split <;> simp [rebuildLookupMaps, rebuildIdIndex]

end HistoryState

end CodeRs.History
