import CodeRs.History.Record
import CodeRs.Lib.Lists
import Mathlib.Data.Finmap

/-!
# The history state

`HistoryState` of `core/src/history/state.rs` and every operation that changes
it.  Hash maps are finite maps.  Operations that can panic (an insertion past
the end, a cut inside a code point) return `none` there.  The usage tracker only
feeds log lines and is left out.
-/

namespace CodeRs.History

/-- A map from call or stream identifiers to history identifiers. -/
abbrev LookupMap := Finmap fun _ : String => HistoryId

/-! ## Retained-byte bookkeeping -/

/-- The two fields `exec_stream_retained_total_bytes` and
`exec_stream_retained_by_id`, kept together.  The two flags are not in the
source: they record whether an addition to the total ever stopped at `u64Max`,
or a subtraction from it at zero. -/
structure ExecStreamRetained where
  totalBytes : ℕ
  byId : Finmap fun _ : HistoryId => ℕ
  additionSaturated : Bool
  subtractionSaturated : Bool

namespace ExecStreamRetained

/-- The values of a fresh or cleared history. -/
def empty : ExecStreamRetained where
  totalBytes := 0
  byId := ∅
  additionSaturated := false
  subtractionSaturated := false

/-- Record `retained` under `id` and move the total by the difference to the
value recorded before. -/
def store (r : ExecStreamRetained) (id : HistoryId) (retained : ℕ) :
    ExecStreamRetained :=
  let prev := (r.byId.lookup id).getD 0
  { byId := r.byId.insert id retained
    totalBytes :=
      if prev < retained then satAdd r.totalBytes (retained - prev)
      else if retained < prev then r.totalBytes - (prev - retained)
      else r.totalBytes
    additionSaturated :=
      r.additionSaturated || decide (u64Max < r.totalBytes + (retained - prev))
    subtractionSaturated :=
      r.subtractionSaturated || decide (r.totalBytes < prev - retained) }

/-- `set_exec_stream_retained`. -/
def set (r : ExecStreamRetained) (id : HistoryId) (retained : ℕ) :
    ExecStreamRetained :=
  if id = HistoryId.zero then r else r.store id retained

/-- `remove_exec_stream_retained`. -/
def remove (r : ExecStreamRetained) (id : HistoryId) : ExecStreamRetained :=
  if id = HistoryId.zero then r
  else
    match r.byId.lookup id with
    | none => r
    | some prev =>
        { r with
          byId := r.byId.erase id
          totalBytes := r.totalBytes - prev
          subtractionSaturated :=
            r.subtractionSaturated || decide (r.totalBytes < prev) }

/-- Clear the total and the map, as `truncate_after` does for the zero id. -/
def clear (r : ExecStreamRetained) : ExecStreamRetained :=
  { r with totalBytes := 0, byId := ∅ }

/-- One record of `rebuild_exec_stream_retained_totals`. -/
def addRecord (r : ExecStreamRetained) : HistoryRecord → ExecStreamRetained
  | .exec exec =>
      if exec.id = HistoryId.zero then r
      else
        { r with
          byId := r.byId.insert exec.id (retainedExecRecordBytes exec)
          totalBytes := satAdd r.totalBytes (retainedExecRecordBytes exec)
          additionSaturated :=
            r.additionSaturated ||
              decide (u64Max < r.totalBytes + retainedExecRecordBytes exec) }
  | _ => r

/-- `rebuild_exec_stream_retained_totals`. -/
def rebuild (r : ExecStreamRetained) (records : List HistoryRecord) :
    ExecStreamRetained :=
  records.foldl addRecord r.clear

end ExecStreamRetained

/-! ## The state -/

structure HistoryState where
  records : List HistoryRecord
  nextId : ℕ
  execCallLookup : LookupMap
  toolCallLookup : LookupMap
  streamLookup : LookupMap
  idIndex : Finmap fun _ : HistoryId => ℕ
  retained : ExecStreamRetained

/-- `HistorySnapshot`, without the display order that `restore` ignores. -/
structure HistorySnapshot where
  records : List HistoryRecord
  nextId : ℕ
  execCallLookup : LookupMap
  toolCallLookup : LookupMap
  streamLookup : LookupMap

inductive HistoryEvent where
  | insert (index : ℕ) (record : HistoryRecord)
  | replace (index : ℕ) (record : HistoryRecord)
  | remove (index : ℕ)

inductive HistoryMutation where
  | inserted (index : ℕ) (id : HistoryId) (record : HistoryRecord)
  | replaced (index : ℕ) (id : HistoryId) (record : HistoryRecord)
  | removed (index : ℕ) (id : HistoryId) (record : HistoryRecord)
  | noop
  deriving DecidableEq

/-- The fields of `HistoryDomainEvent::StartExec`. -/
structure StartExec where
  index : ℕ
  callId : Option String
  command : List String
  action : ExecAction
  startedAt : ℕ
  workingDir : Option String
  env : List (String × String)
  tags : List String

/-- The fields of `HistoryDomainEvent::FinishExec`. -/
structure FinishExec where
  id : Option HistoryId
  callId : Option String
  status : ExecStatus
  exitCode : Option ℤ
  completedAt : Option ℕ
  stdoutTail : Option Text
  stderrTail : Option Text
  waitTotal : Option ℕ
  waitActive : Bool
  waitNotes : List ExecWaitNote

/-- `HistoryDomainEvent`.  A `HistoryDomainRecord` has the variants of a
`HistoryRecord`. -/
inductive HistoryDomainEvent where
  | insert (index : ℕ) (record : HistoryRecord)
  | replace (index : ℕ) (record : HistoryRecord)
  | remove (index : ℕ)
  | updateExecStream (index : ℕ) (stdoutChunk stderrChunk : Option
    ExecStreamChunk)
  | upsertAssistantStream (streamId previewMarkdown : String)
      (delta : Option AssistantStreamDelta) (metadata : Option MessageMetadata)
  | updateExecWait (index : ℕ) (totalWait : Option ℕ) (waitActive : Bool)
      (notes : List ExecWaitNote)
  | startExec (event : StartExec)
  | finishExec (event : FinishExec)

namespace HistoryRecord

/-- The record is the live assistant stream `streamId`. -/
def isStream (streamId : String) : HistoryRecord → Bool
  | assistantStream state => state.streamId == streamId
  | _ => false

/-- The record is an assistant message finalised for stream `streamId`. -/
def isMessageOf (streamId : String) : HistoryRecord → Bool
  | assistantMessage state => state.streamId == some streamId
  | _ => false

/-- The call identifiers an exec or merged exec record answers to. -/
def execCallIds : HistoryRecord → List String
  | exec state => state.callId.toList
  | mergedExec state => state.segments.filterMap ExecRecord.callId
  | _ => []

/-- The call identifiers a tool record answers to. -/
def toolCallIds : HistoryRecord → List String
  | runningTool state => state.callId.toList
  | toolCall state => state.callId.toList
  | _ => []

/-- The stream identifier of an assistant stream. -/
def streamIds : HistoryRecord → List String
  | assistantStream state => [state.streamId]
  | _ => []

end HistoryRecord

/-- Point every identifier of `keys` at `id`. -/
def insertCalls (lookup : LookupMap) (keys : List String) (id : HistoryId) :
    LookupMap :=
  keys.foldl (fun m key => m.insert key id) lookup

/-- Remove every identifier of `keys` that still points at `id`. -/
def removeCalls (lookup : LookupMap) (keys : List String) (id : HistoryId) :
    LookupMap :=
  keys.foldl (fun m key => if m.lookup key = some id then m.erase key
    else m) lookup

namespace HistoryState

def new : HistoryState where
  records := []
  nextId := 1
  execCallLookup := ∅
  toolCallLookup := ∅
  streamLookup := ∅
  idIndex := ∅
  retained := .empty

def withRecords (s : HistoryState) (records : List HistoryRecord) :
    HistoryState :=
  { s with records }

def indexOf (s : HistoryState) (id : HistoryId) : Option ℕ :=
  if id = HistoryId.zero then none else s.idIndex.lookup id

def historyIdForExecCall (s : HistoryState) (callId : String) :
    Option HistoryId :=
  s.execCallLookup.lookup callId

/-! ### Registration -/

def registerRecord (s : HistoryState) : HistoryRecord → HistoryState
  | .exec state =>
      { s with
        execCallLookup := insertCalls s.execCallLookup
          state.callId.toList state.id
        retained := s.retained.set state.id (retainedExecRecordBytes state) }
  | .mergedExec state =>
      { s with
        execCallLookup :=
          insertCalls s.execCallLookup
            (state.segments.filterMap ExecRecord.callId) state.id }
  | .runningTool state =>
      { s with
        toolCallLookup := insertCalls s.toolCallLookup
          state.callId.toList state.id }
  | .toolCall state =>
      { s with
        toolCallLookup := insertCalls s.toolCallLookup
          state.callId.toList state.id }
  | .assistantStream state =>
      { s with
        streamLookup := insertCalls s.streamLookup [state.streamId] state.id }
  | _ => s

def unregisterRecord (s : HistoryState) : HistoryRecord → HistoryState
  | .exec state =>
      { s with
        execCallLookup := removeCalls s.execCallLookup
          state.callId.toList state.id
        retained := s.retained.remove state.id }
  | .mergedExec state =>
      { s with
        execCallLookup :=
          removeCalls s.execCallLookup
            (state.segments.filterMap ExecRecord.callId) state.id }
  | .runningTool state =>
      { s with
        toolCallLookup := removeCalls s.toolCallLookup
          state.callId.toList state.id }
  | .toolCall state =>
      { s with
        toolCallLookup := removeCalls s.toolCallLookup
          state.callId.toList state.id }
  | .assistantStream state =>
      { s with
        streamLookup := removeCalls s.streamLookup [state.streamId] state.id }
  | _ => s

def rebuildLookupMaps (s : HistoryState) : HistoryState :=
  s.records.foldl registerRecord
    { s with execCallLookup := ∅, toolCallLookup := ∅, streamLookup := ∅ }

/-- The loop of `rebuild_id_index`. -/
def indexRecords : List HistoryRecord → ℕ → (Finmap fun _ : HistoryId => ℕ) →
    Finmap fun _ : HistoryId => ℕ
  | [], _, m => m
  | record :: rest, idx, m =>
      indexRecords rest (idx + 1)
        (if record.id = HistoryId.zero then m else m.insert record.id idx)

def rebuildIdIndex (s : HistoryState) : HistoryState :=
  { s with idIndex := indexRecords s.records 0 ∅ }

/-- The state after `next_history_id`, whose result is the old `nextId`. -/
def bumpNextId (s : HistoryState) : HistoryState :=
  { s with nextId := satAdd s.nextId 1 }

def recomputeNextId (s : HistoryState) : HistoryState :=
  { s with nextId := satAdd ((s.records.map HistoryRecord.id).foldr max 0) 1 }

/-! ### Direct operations -/

def push (s : HistoryState) (record : HistoryRecord) : HistoryState :=
  let record := record.withId s.nextId
  let s := s.bumpNextId.registerRecord record
  (s.withRecords (s.records ++ [record])).rebuildIdIndex

/-- `insert`, which panics past the end of the records. -/
def insert (s : HistoryState) (index : ℕ) (record : HistoryRecord) :
    Option HistoryState :=
  let record := record.withId s.nextId
  let s := s.bumpNextId.registerRecord record
  if index ≤ s.records.length then
    some (s.withRecords (s.records.insertIdx index record)).rebuildIdIndex
  else none

def remove (s : HistoryState) (index : ℕ) :
    HistoryState × Option HistoryRecord :=
  match s.records[index]? with
  | some record =>
      (((s.withRecords (s.records.eraseIdx index)).unregisterRecord
        record).rebuildIdIndex, some record)
  | none => (s, none)

/-- `truncate_after`, with the records it removed. -/
def truncateAfter (s : HistoryState) (id : HistoryId) :
    HistoryState × List HistoryRecord :=
  if id = HistoryId.zero then
    ({ s with
        records := []
        execCallLookup := ∅
        toolCallLookup := ∅
        streamLookup := ∅
        nextId := 1
        retained := s.retained.clear }, s.records)
  else
    match s.records.findIdx? fun record => record.id == id with
    | none => (s, [])
    | some pos =>
        if s.records.length ≤ pos + 1 then (s, [])
        else
          let removed := s.records.drop (pos + 1)
          let s := removed.foldl unregisterRecord
            (s.withRecords (s.records.take (pos + 1)))
          (s.recomputeNextId.rebuildIdIndex, removed)

/-! ### Snapshots -/

def snapshot (s : HistoryState) : HistorySnapshot where
  records := s.records
  nextId := s.nextId
  execCallLookup := s.execCallLookup
  toolCallLookup := s.toolCallLookup
  streamLookup := s.streamLookup

/-- The `retain` call of `restore`: only the first assistant message of each
stream stays. -/
def dedupMessages : List String → List HistoryRecord → List HistoryRecord
  | _, [] => []
  | seen, .assistantMessage state :: rest =>
      match state.streamId with
      | some streamId =>
          if streamId ∈ seen then dedupMessages seen rest
          else .assistantMessage state :: dedupMessages (streamId :: seen) rest
      | none => .assistantMessage state :: dedupMessages seen rest
  | seen, record :: rest => record :: dedupMessages seen rest

def restore (s : HistoryState) (snapshot : HistorySnapshot) : HistoryState :=
  let s : HistoryState :=
    { s with
      records := dedupMessages [] snapshot.records
      nextId := snapshot.nextId
      execCallLookup := snapshot.execCallLookup
      toolCallLookup := snapshot.toolCallLookup
      streamLookup := snapshot.streamLookup }
  let s :=
    if s.execCallLookup = ∅ ∧ s.toolCallLookup = ∅ ∧ s.streamLookup = ∅ then
      s.rebuildLookupMaps
    else s
  let s := s.rebuildIdIndex
  { s with retained := s.retained.rebuild s.records }

/-! ### Events -/

def applyEvent (s : HistoryState) :
    HistoryEvent → HistoryState × HistoryMutation
  | .insert index record =>
      let id := s.nextId
      let record := record.withId id
      let idx := min index s.records.length
      let s := s.bumpNextId.withRecords (s.records.insertIdx idx record)
      ((s.registerRecord record).rebuildIdIndex, .inserted idx id record)
  | .replace index record =>
      match s.records[index]? with
      | some existing =>
          let id := existing.id
          let record := record.withId id
          let s := s.unregisterRecord existing
          let s := s.withRecords (s.records.set index record)
          ((s.registerRecord record).rebuildIdIndex, .replaced index id record)
      | none => (s, .noop)
  | .remove index =>
      match s.records[index]? with
      | some record =>
          (((s.withRecords (s.records.eraseIdx index)).unregisterRecord
            record).rebuildIdIndex, .removed index record.id record)
      | none => (s, .noop)

/-- What the loop of `enforce_exec_stream_global_limit` takes as the bytes that
`exec` retains before it prunes it. -/
def recordedBytes (r : ExecStreamRetained) (exec : ExecRecord) : ℕ :=
  (r.byId.lookup exec.id).getD (retainedExecRecordBytes exec)

/-- The loop of `enforce_exec_stream_global_limit`. -/
def enforceLoop : List HistoryRecord → (bytesToDrop : ℕ) → ExecStreamRetained →
    Option (List HistoryRecord × ExecStreamRetained)
  | [], _, r => some ([], r)
  | .exec exec :: rest, bytesToDrop, r =>
      if bytesToDrop = 0 then some (.exec exec :: rest, r)
      else
        let before := recordedBytes r exec
        if before = 0 then do
          let (rest, r) ← enforceLoop rest bytesToDrop r
          some (.exec exec :: rest, r)
        else do
          let stdoutChunks ←
            pruneExecStream exec.stdoutChunks execStreamPruneTargetBytes
          let stderrChunks ←
            pruneExecStream exec.stderrChunks execStreamPruneTargetBytes
          let exec := { exec with stdoutChunks, stderrChunks }
          let after := retainedExecRecordBytes exec
          let (rest, r) ←
            enforceLoop rest (bytesToDrop - (before - after))
              (r.store exec.id after)
          some (.exec exec :: rest, r)
  | record :: rest, bytesToDrop, r =>
      if bytesToDrop = 0 then some (record :: rest, r)
      else do
        let (rest, r) ← enforceLoop rest bytesToDrop r
        some (record :: rest, r)

def enforceExecStreamGlobalLimit (s : HistoryState) : Option HistoryState :=
  if s.retained.totalBytes ≤ globalExecStreamRetainedBytes then some s
  else do
    let (records, retained) ←
      enforceLoop s.records
        (s.retained.totalBytes - globalExecStreamRetainedBytes) s.retained
    some { s with records, retained }

/-- What `UpdateExecStream` stores in the exec record at `index` before the
global limit is enforced. -/
def storeExecStream (s : HistoryState) (index : ℕ) (existing : ExecRecord)
    (stdoutChunk stderrChunk : Option ExecStreamChunk) :
    Option HistoryState := do
  let stdoutChunks ← appendExecChunk? existing.stdoutChunks stdoutChunk
  let stderrChunks ← appendExecChunk? existing.stderrChunks stderrChunk
  let updated := { existing with stdoutChunks, stderrChunks }
  some
    { s with
      records := s.records.set index (.exec updated)
      retained := s.retained.set updated.id (retainedExecRecordBytes updated) }

/-- The end of the `UpdateExecStream` and `FinishExec` arms: enforce the global
limit and report the record at `index`. -/
def enforceAndReport (s : HistoryState) (index : ℕ) (id : HistoryId) :
    Option (HistoryState × HistoryMutation) := do
  let s ← s.enforceExecStreamGlobalLimit
  match s.records[index]? with
  | some record => some (s, .replaced index id record)
  | none => some (s, .noop)

/-- The `UpdateExecStream` arm of `apply_domain_event`. -/
def updateExecStream (s : HistoryState) (index : ℕ)
    (stdoutChunk stderrChunk : Option ExecStreamChunk) :
    Option (HistoryState × HistoryMutation) :=
  match s.records[index]? with
  | some (.exec existing) => do
      let stored ← s.storeExecStream index existing stdoutChunk stderrChunk
      stored.enforceAndReport index existing.id
  | _ => some (s, .noop)

/-- Append a non-empty output tail at the end of a stream. -/
def appendTail (chunks : List ExecStreamChunk) :
    Option Text → Option (List ExecStreamChunk)
  | none => some chunks
  | some tail =>
      if tail = [] then some chunks
      else
        appendExecChunk chunks
          { offset := streamLen chunks
            content := tail
            offset_le := streamLen_le chunks }

/-- The record `FinishExec` writes over `existing`. -/
def finishedRecord (existing : ExecRecord) (event : FinishExec) :
    Option ExecRecord := do
  let stdoutChunks ← appendTail existing.stdoutChunks event.stdoutTail
  let stderrChunks ← appendTail existing.stderrChunks event.stderrTail
  some
    { existing with
      status := event.status
      exitCode := event.exitCode
      completedAt := event.completedAt
      waitTotal := event.waitTotal
      waitActive := event.waitActive
      waitNotes := event.waitNotes
      stdoutChunks
      stderrChunks }

/-- The record `FinishExec` is about: by history id, else by call id. -/
def finishTarget (s : HistoryState) (event : FinishExec) : Option ℕ :=
  match event.id.bind s.indexOf with
  | some idx => some idx
  | none => (event.callId.bind s.historyIdForExecCall).bind s.indexOf

/-- The `FinishExec` arm of `apply_domain_event`. -/
def finishExec (s : HistoryState) (event : FinishExec) :
    Option (HistoryState × HistoryMutation) :=
  match s.finishTarget event with
  | some idx =>
      match s.records[idx]? with
      | some (.exec existing) => do
          let updated ← finishedRecord existing event
          let result := s.applyEvent (.replace idx (.exec updated))
          if result.2 = .noop then some result
          else result.1.enforceAndReport idx updated.id
      | _ => some (s, .noop)
  | none => some (s, .noop)

/-- The part of the `UpsertAssistantStream` arm that updates an existing stream;
`some none` falls through to the insertion. -/
def replaceAssistantStream (s : HistoryState) (now : ℕ)
    (streamId previewMarkdown : String) (delta : Option AssistantStreamDelta)
    (metadata : Option MessageMetadata) :
    Option (Option (HistoryState × HistoryMutation)) :=
  match s.records.findIdx? (HistoryRecord.isStream streamId) with
  | none => some none
  | some idx =>
      match s.records[idx]? with
      | some (.assistantStream existing) => do
          let (deltas, truncated) ← appendAssistantDelta? existing.deltas delta
          let updated : AssistantStreamState :=
            { existing with
              deltas
              truncatedPrefixBytes :=
                if 0 < truncated then
                  satAdd existing.truncatedPrefixBytes truncated
                else existing.truncatedPrefixBytes
              previewMarkdown
              citations := (metadata.map MessageMetadata.citations).getD
                existing.citations
              metadata := metadata.or existing.metadata
              inProgress := true
              lastUpdatedAt := now }
          let result := s.applyEvent (.replace idx (.assistantStream updated))
          if result.2 = .noop then some none else some (some result)
      | _ => some none

/-- The part of the `UpsertAssistantStream` arm that inserts a new stream. -/
def insertAssistantStream (s : HistoryState) (now : ℕ)
    (streamId previewMarkdown : String) (delta : Option AssistantStreamDelta)
    (metadata : Option MessageMetadata) :
    Option (HistoryState × HistoryMutation) := do
  let (deltas, truncatedPrefixBytes) ← appendAssistantDelta? [] delta
  let state : AssistantStreamState :=
    { id := HistoryId.zero
      streamId
      previewMarkdown
      deltas
      citations := (metadata.map MessageMetadata.citations).getD []
      metadata
      inProgress := true
      lastUpdatedAt := now
      truncatedPrefixBytes }
  some (s.applyEvent (.insert s.records.length (.assistantStream state)))

/-- The `UpsertAssistantStream` arm of `apply_domain_event`. -/
def upsertAssistantStream (s : HistoryState) (now : ℕ)
    (streamId previewMarkdown : String) (delta : Option AssistantStreamDelta)
    (metadata : Option MessageMetadata) :
    Option (HistoryState × HistoryMutation) := do
  match ← s.replaceAssistantStream now streamId previewMarkdown
    delta metadata with
  | some result => some result
  | none => s.insertAssistantStream now streamId previewMarkdown delta metadata

/-- The `UpdateExecWait` arm of `apply_domain_event`. -/
def updateExecWait (s : HistoryState) (index : ℕ) (totalWait : Option ℕ)
    (waitActive : Bool) (notes : List ExecWaitNote) :
    HistoryState × HistoryMutation :=
  match s.records[index]? with
  | some (.exec existing) =>
      s.applyEvent (.replace index (.exec
        { existing with
          waitTotal := totalWait, waitActive, waitNotes := notes }))
  | _ => (s, .noop)

/-- The record `StartExec` inserts. -/
def startedRecord (event : StartExec) : ExecRecord where
  id := HistoryId.zero
  callId := event.callId
  command := event.command
  action := event.action
  status := .running
  stdoutChunks := []
  stderrChunks := []
  exitCode := none
  waitTotal := none
  waitActive := false
  waitNotes := []
  startedAt := event.startedAt
  completedAt := none
  workingDir := event.workingDir
  env := event.env
  tags := event.tags

/-- The `StartExec` arm of `apply_domain_event`. -/
def startExec (s : HistoryState) (event : StartExec) :
    HistoryState × HistoryMutation :=
  s.applyEvent (.insert (min event.index s.records.length)
    (.exec (startedRecord event)))

/-- `apply_domain_event` at time `now`. -/
def applyDomainEvent (s : HistoryState) (now : ℕ) :
    HistoryDomainEvent → Option (HistoryState × HistoryMutation)
  | .insert index record =>
      some (s.applyEvent (.insert index record.intoHistoryRecord))
  | .replace index record =>
      some (s.applyEvent (.replace index record.intoHistoryRecord))
  | .remove index => some (s.applyEvent (.remove index))
  | .updateExecStream index stdoutChunk stderrChunk =>
      s.updateExecStream index stdoutChunk stderrChunk
  | .upsertAssistantStream streamId previewMarkdown delta metadata =>
      s.upsertAssistantStream now streamId previewMarkdown delta metadata
  | .updateExecWait index totalWait waitActive notes =>
      some (s.updateExecWait index totalWait waitActive notes)
  | .startExec event => some (s.startExec event)
  | .finishExec event => s.finishExec event

/-! ### Finalising an assistant stream -/

/-- The start of `finalize_assistant_stream_state`: remove the live stream and
carry over its citations and metadata. -/
def takeLiveStream (s : HistoryState) (streamId : Option String) :
    HistoryState × List String × Option MessageMetadata :=
  match streamId.bind fun id =>
    s.records.findIdx? (HistoryRecord.isStream id) with
  | none => (s, [], none)
  | some idx =>
      match s.remove idx with
      | (s, some (.assistantStream state)) =>
          (s, state.citations, state.metadata)
      | (s, _) => (s, [], none)

/-- The end of `finalize_assistant_stream_state`: refresh the last message of
the stream in place, or push `message` as a new one. -/
def putMessage (s : HistoryState) (message : AssistantMessageState) :
    HistoryState × AssistantMessageState :=
  let fresh : HistoryState × AssistantMessageState :=
    let state := { message with id := s.nextId }
    let s := s.bumpNextId
    ((s.withRecords (s.records ++ [.assistantMessage state])).rebuildIdIndex,
      state)
  match message.streamId.bind fun id =>
      rposition (HistoryRecord.isMessageOf id) s.records with
  | none => fresh
  | some idx =>
      match s.records[idx]? with
      | some (.assistantMessage existing) =>
          let updated : AssistantMessageState :=
            { existing with
              markdown := message.markdown
              citations := message.citations
              metadata := message.metadata
              tokenUsage := message.tokenUsage
              createdAt := message.createdAt }
          (s.withRecords (s.records.set idx (.assistantMessage updated)),
            updated)
      | _ => fresh

/-- `finalize_assistant_stream_state` at time `now`, with the message it
returns. -/
def finalizeAssistantStreamState (s : HistoryState) (now : ℕ)
    (streamId : Option String) (markdown : String)
    (metadata : Option MessageMetadata) (tokenUsage : Option TokenUsage) :
    HistoryState × AssistantMessageState :=
  let (s, carriedCitations, carriedMetadata) := s.takeLiveStream streamId
  let citations :=
    (metadata.map MessageMetadata.citations).getD carriedCitations
  let metadata := metadata.or carriedMetadata
  let tokenUsage := tokenUsage.or (metadata.bind MessageMetadata.tokenUsage)
  s.putMessage
    { id := HistoryId.zero, streamId, markdown, citations, metadata, tokenUsage,
      midTurn := false, createdAt := now }

end HistoryState

end CodeRs.History
