import CodeRs.History.State

/-!
# Primitive edits of a history

The few edits every operation of `HistoryState` is made of, with the fields each
one changes.
-/

namespace CodeRs.History

namespace HistoryState

/-- Insert a record under the next identifier. -/
def insertAt (s : HistoryState) (idx : ℕ) (record : HistoryRecord) :
    HistoryState :=
  let record := record.withId s.nextId
  ((s.bumpNextId.withRecords (s.records.insertIdx idx record)).registerRecord
    record).rebuildIdIndex

/-- Put `record` under the identifier of the record at `idx`. -/
def replaceAt (s : HistoryState) (idx : ℕ) (existing record : HistoryRecord) :
    HistoryState :=
  let record := record.withId existing.id
  (((s.unregisterRecord existing).withRecords
    (s.records.set idx record)).registerRecord record).rebuildIdIndex

/-- Remove the record at `idx`. -/
def removeAt (s : HistoryState) (idx : ℕ) (record : HistoryRecord) :
    HistoryState :=
  ((s.withRecords (s.records.eraseIdx idx)).unregisterRecord
    record).rebuildIdIndex

/-- Remove every record after position `pos`. -/
def cutAfter (s : HistoryState) (pos : ℕ) : HistoryState :=
  ((s.records.drop (pos + 1)).foldl unregisterRecord
    (s.withRecords (s.records.take (pos + 1)))).recomputeNextId.rebuildIdIndex

/-- Remove every record, as `truncate_after` does for the zero identifier. -/
def clearAll (s : HistoryState) : HistoryState :=
  { s with
    records := []
    execCallLookup := ∅
    toolCallLookup := ∅
    streamLookup := ∅
    nextId := 1
    retained := s.retained.clear }

/-- Write over the assistant message at `idx` in place. -/
def setMessage (s : HistoryState) (idx : ℕ) (state : AssistantMessageState) :
    HistoryState :=
  s.withRecords (s.records.set idx (.assistantMessage state))

/-- Write over the exec record at `idx` and record its retained bytes. -/
def storeExec (s : HistoryState) (idx : ℕ) (exec : ExecRecord) : HistoryState :=
  { s.withRecords (s.records.set idx (.exec exec)) with
    retained := s.retained.set exec.id (retainedExecRecordBytes exec) }

/-! ## Fields that an update leaves alone -/

section Fields

variable (s : HistoryState) (r : HistoryRecord) (l : List HistoryRecord)

@[simp] theorem withRecords_records : (s.withRecords l).records = l := rfl
@[simp] theorem withRecords_nextId : (s.withRecords l).nextId = s.nextId := rfl
@[simp] theorem withRecords_execCallLookup :
    (s.withRecords l).execCallLookup = s.execCallLookup := rfl
@[simp] theorem withRecords_toolCallLookup :
    (s.withRecords l).toolCallLookup = s.toolCallLookup := rfl
@[simp] theorem withRecords_streamLookup :
    (s.withRecords l).streamLookup = s.streamLookup := rfl
@[simp] theorem withRecords_idIndex :
    (s.withRecords l).idIndex = s.idIndex := rfl
@[simp] theorem withRecords_retained :
    (s.withRecords l).retained = s.retained := rfl

@[simp] theorem bumpNextId_records : s.bumpNextId.records = s.records := rfl
@[simp] theorem bumpNextId_nextId :
    s.bumpNextId.nextId = satAdd s.nextId 1 := rfl
@[simp] theorem bumpNextId_execCallLookup :
    s.bumpNextId.execCallLookup = s.execCallLookup := rfl
@[simp] theorem bumpNextId_toolCallLookup :
    s.bumpNextId.toolCallLookup = s.toolCallLookup := rfl
@[simp] theorem bumpNextId_streamLookup :
    s.bumpNextId.streamLookup = s.streamLookup := rfl
@[simp] theorem bumpNextId_retained : s.bumpNextId.retained = s.retained := rfl

@[simp] theorem rebuildIdIndex_records :
    s.rebuildIdIndex.records = s.records := rfl
@[simp] theorem rebuildIdIndex_nextId :
    s.rebuildIdIndex.nextId = s.nextId := rfl
@[simp] theorem rebuildIdIndex_execCallLookup :
    s.rebuildIdIndex.execCallLookup = s.execCallLookup := rfl
@[simp] theorem rebuildIdIndex_toolCallLookup :
    s.rebuildIdIndex.toolCallLookup = s.toolCallLookup := rfl
@[simp] theorem rebuildIdIndex_streamLookup :
    s.rebuildIdIndex.streamLookup = s.streamLookup := rfl
@[simp] theorem rebuildIdIndex_retained :
    s.rebuildIdIndex.retained = s.retained := rfl

@[simp] theorem registerRecord_records :
    (s.registerRecord r).records = s.records := by
  cases r <;> rfl

@[simp] theorem registerRecord_nextId :
    (s.registerRecord r).nextId = s.nextId := by
  cases r <;> rfl

@[simp] theorem unregisterRecord_records :
    (s.unregisterRecord r).records = s.records := by
  cases r <;> rfl

@[simp] theorem unregisterRecord_nextId :
    (s.unregisterRecord r).nextId = s.nextId := by
  cases r <;> rfl

@[simp] theorem foldl_unregister_records :
    (l.foldl unregisterRecord s).records = s.records := by
  induction l generalizing s with
  | nil => rfl
  | cons r rest ih => simp [ih]

@[simp] theorem foldl_register_records :
    (l.foldl registerRecord s).records = s.records := by
  induction l generalizing s with
  | nil => rfl
  | cons r rest ih => simp [ih]

@[simp] theorem foldl_register_nextId :
    (l.foldl registerRecord s).nextId = s.nextId := by
  induction l generalizing s with
  | nil => rfl
  | cons r rest ih => simp [ih]

theorem withRecords_registerRecord :
    (s.registerRecord r).withRecords l =
      (s.withRecords l).registerRecord r := by
  cases r <;> rfl

end Fields

/-! ## Fields after an edit -/

section Edits

variable (s : HistoryState) (idx : ℕ) (existing record : HistoryRecord)

@[simp] theorem insertAt_records :
    (s.insertAt idx record).records =
      s.records.insertIdx idx (record.withId s.nextId) := by
  simp [insertAt]

@[simp] theorem insertAt_nextId :
    (s.insertAt idx record).nextId = satAdd s.nextId 1 := by
  simp [insertAt]

@[simp] theorem replaceAt_records :
    (s.replaceAt idx existing record).records =
      s.records.set idx (record.withId existing.id) := by
  simp [replaceAt]

@[simp] theorem replaceAt_nextId :
    (s.replaceAt idx existing record).nextId = s.nextId := by
  simp [replaceAt]

@[simp] theorem removeAt_records :
    (s.removeAt idx record).records = s.records.eraseIdx idx := by
  simp [removeAt]

@[simp] theorem removeAt_nextId :
    (s.removeAt idx record).nextId = s.nextId := by
  simp [removeAt]

@[simp] theorem cutAfter_records :
    (s.cutAfter idx).records = s.records.take (idx + 1) := by
  simp [cutAfter, recomputeNextId]

@[simp] theorem cutAfter_nextId :
    (s.cutAfter idx).nextId =
      satAdd
        (((s.records.take (idx + 1)).map HistoryRecord.id).foldr max 0) 1 := by
  simp [cutAfter, recomputeNextId]

@[simp] theorem setMessage_records (state : AssistantMessageState) :
    (s.setMessage idx state).records =
      s.records.set idx (.assistantMessage state) := rfl

@[simp] theorem storeExec_records (exec : ExecRecord) :
    (s.storeExec idx exec).records = s.records.set idx (.exec exec) := rfl

theorem map_id_setMessage {existing state : AssistantMessageState}
    (hget : s.records[idx]? = some (.assistantMessage existing))
    (hid : state.id = existing.id) :
    (s.setMessage idx state).records.map HistoryRecord.id =
      s.records.map HistoryRecord.id :=
  map_set_of_eq HistoryRecord.id hget hid

theorem map_id_storeExec {existing exec : ExecRecord}
    (hget : s.records[idx]? = some (.exec existing))
    (hid : exec.id = existing.id) :
    (s.storeExec idx exec).records.map HistoryRecord.id =
      s.records.map HistoryRecord.id :=
  map_set_of_eq HistoryRecord.id hget hid

end Edits

end HistoryState

end CodeRs.History
