import CodeRs.Lib.Lists
import CodeRs.Lib.Saturating
import CodeRs.Lib.Text
import Mathlib.Data.List.Basic

/-!
# History records

The records kept in `core/src/history/state.rs`, with the fields that the
history operations read or write.  The fourteen record kinds whose contents no
history operation looks at keep only their identifier.  A Rust `SystemTime` or
`Duration` is a natural number of time units.
-/

namespace CodeRs.History

/-- `HistoryId(pub u64)`. -/
abbrev HistoryId := ℕ

def HistoryId.zero : HistoryId := 0

/-! ## Constants -/

def maxExecStreamRetainedBytes : ℕ := 32 * 1024 * 1024

def globalExecStreamRetainedBytes : ℕ := 256 * 1024 * 1024

def execStreamPruneTargetBytes : ℕ := 512 * 1024

def maxAssistantStreamRetainedBytes : ℕ := 6 * 1024 * 1024

/-! ## Exec records -/

/-- A piece of an exec stream and its byte offset, a `usize`, in that stream. -/
structure ExecStreamChunk where
  offset : ℕ
  content : Text
  offset_le : offset ≤ u64Max
  deriving DecidableEq, Repr

/-- The tone of a wait note. -/
inductive TextTone where
  | default | dim | primary | success | warning | error | info
  deriving DecidableEq, Repr

structure ExecWaitNote where
  message : String
  tone : TextTone
  timestamp : ℕ
  deriving DecidableEq, Repr

inductive ExecAction where
  | read | search | list | run
  deriving DecidableEq, Repr

inductive ExecStatus where
  | running | success | error
  deriving DecidableEq, Repr

structure ExecRecord where
  id : HistoryId
  callId : Option String
  command : List String
  action : ExecAction
  status : ExecStatus
  stdoutChunks : List ExecStreamChunk
  stderrChunks : List ExecStreamChunk
  exitCode : Option ℤ
  waitTotal : Option ℕ
  waitActive : Bool
  waitNotes : List ExecWaitNote
  startedAt : ℕ
  completedAt : Option ℕ
  workingDir : Option String
  env : List (String × String)
  tags : List String
  deriving DecidableEq, Repr

structure MergedExecRecord where
  id : HistoryId
  action : ExecAction
  segments : List ExecRecord
  deriving DecidableEq, Repr

/-! ## Tool and assistant records -/

structure RunningToolState where
  id : HistoryId
  callId : Option String
  deriving DecidableEq, Repr

structure ToolCallState where
  id : HistoryId
  callId : Option String
  deriving DecidableEq, Repr

structure TokenUsage where
  inputTokens : ℕ
  cachedInputTokens : ℕ
  outputTokens : ℕ
  reasoningOutputTokens : ℕ
  totalTokens : ℕ
  deriving DecidableEq, Repr

structure MessageMetadata where
  citations : List String
  tokenUsage : Option TokenUsage
  deriving DecidableEq, Repr

structure AssistantStreamDelta where
  delta : Text
  sequence : Option ℕ
  receivedAt : ℕ
  deriving DecidableEq, Repr

structure AssistantStreamState where
  id : HistoryId
  streamId : String
  previewMarkdown : String
  deltas : List AssistantStreamDelta
  citations : List String
  metadata : Option MessageMetadata
  inProgress : Bool
  lastUpdatedAt : ℕ
  truncatedPrefixBytes : ℕ
  deriving DecidableEq, Repr

structure AssistantMessageState where
  id : HistoryId
  streamId : Option String
  markdown : String
  citations : List String
  metadata : Option MessageMetadata
  tokenUsage : Option TokenUsage
  midTurn : Bool
  createdAt : ℕ
  deriving DecidableEq, Repr

/-! ## The record type -/

/-- The record kinds whose payload no history operation reads. -/
inductive InertKind where
  | plainMessage | waitStatus | loading | planUpdate | upgradeNotice | reasoning
  | diff | image | explore | rateLimits | patch | backgroundEvent
  | notice | context
  deriving DecidableEq, Repr

inductive HistoryRecord where
  | inert (kind : InertKind) (id : HistoryId)
  | runningTool (state : RunningToolState)
  | toolCall (state : ToolCallState)
  | exec (state : ExecRecord)
  | mergedExec (state : MergedExecRecord)
  | assistantStream (state : AssistantStreamState)
  | assistantMessage (state : AssistantMessageState)
  deriving DecidableEq, Repr

namespace HistoryRecord

def id : HistoryRecord → HistoryId
  | inert _ id => id
  | runningTool state => state.id
  | toolCall state => state.id
  | exec state => state.id
  | mergedExec state => state.id
  | assistantStream state => state.id
  | assistantMessage state => state.id

def withId (record : HistoryRecord) (id : HistoryId) : HistoryRecord :=
  match record with
  | inert kind _ => inert kind id
  | runningTool state => runningTool { state with id }
  | toolCall state => toolCall { state with id }
  | exec state => exec { state with id }
  | mergedExec state => mergedExec { state with id }
  | assistantStream state => assistantStream { state with id }
  | assistantMessage state => assistantMessage { state with id }

@[simp] theorem id_withId (record : HistoryRecord) (id : HistoryId) :
    (record.withId id).id = id := by
  cases record <;> rfl

@[simp] theorem withId_withId (record : HistoryRecord) (id id' : HistoryId) :
    (record.withId id).withId id' = record.withId id' := by
  cases record <;> rfl

/-- `HistoryDomainRecord::into_history_record`.  A domain record has the same
variants as a record, and conversion clears its identifier. -/
def intoHistoryRecord (record : HistoryRecord) : HistoryRecord :=
  record.withId HistoryId.zero

end HistoryRecord

end CodeRs.History

/-! ## Exec and assistant stream buffers

The chunk-list operations of `core/src/history/state.rs`.  A cut inside a UTF-8
code point panics in the source and returns `none` here. -/

namespace CodeRs.History

namespace ExecStreamChunk

/-- Length of the content in bytes. -/
def len (chunk : ExecStreamChunk) : ℕ := chunk.content.byteLen

/-- Offset just past the chunk. -/
def endOffset (chunk : ExecStreamChunk) : ℕ := satAdd chunk.offset chunk.len

end ExecStreamChunk

/-! ## Lengths -/

def streamLen (chunks : List ExecStreamChunk) : ℕ :=
  (chunks.map ExecStreamChunk.endOffset).foldr max 0

theorem streamLen_le (chunks : List ExecStreamChunk) :
    streamLen chunks ≤ u64Max := by
  refine foldr_max_le fun n hn => ?_
  obtain ⟨chunk, _, rfl⟩ := List.mem_map.mp hn
  exact satAdd_le_max _ _

def retainedStreamLen : List ExecStreamChunk → ℕ
  | [] => 0
  | first :: rest => streamLen (first :: rest) - first.offset

def retainedExecRecordBytes (record : ExecRecord) : ℕ :=
  satAdd (retainedStreamLen record.stdoutChunks)
    (retainedStreamLen record.stderrChunks)

/-! ## Cutting and growing exec streams -/

/-- The loop of `truncate_exec_stream`, on the chunks listed last one first. -/
def truncateExecStreamRev :
    List ExecStreamChunk → ℕ → Option (List ExecStreamChunk)
  | [], _ => some []
  | last :: rest, truncateAt =>
      if last.endOffset ≤ truncateAt then some (last :: rest)
      else if truncateAt ≤ last.offset then
        truncateExecStreamRev rest truncateAt
      else do
        let content ← last.content.truncate (truncateAt - last.offset)
        some ({ last with content } :: rest)

def truncateExecStream (chunks : List ExecStreamChunk) (truncateAt : ℕ) :
    Option (List ExecStreamChunk) :=
  (truncateExecStreamRev chunks.reverse truncateAt).map List.reverse

/-- The loop of `prune_exec_stream` that drops whole chunks: the chunks that
stay and the bytes still to drop. -/
def dropChunks : List ExecStreamChunk → ℕ → List ExecStreamChunk × ℕ
  | [], bytesToDrop => ([], bytesToDrop)
  | chunk :: rest, bytesToDrop =>
      if chunk.len ≤ bytesToDrop then dropChunks rest (bytesToDrop - chunk.len)
      else (chunk :: rest, bytesToDrop)

/-- The partial cut of `prune_exec_stream` in the first chunk that stays. -/
def drainFirst (bytesToDrop : ℕ) :
    List ExecStreamChunk → Option (List ExecStreamChunk)
  | [] => some []
  | first :: rest =>
      if bytesToDrop = 0 then some (first :: rest)
      else do
        let drain := min bytesToDrop first.len
        let content ← first.content.drain drain
        some (
        { offset := satAdd first.offset drain
          content
          offset_le := satAdd_le_max _ _ } :: rest)

def pruneExecStream (chunks : List ExecStreamChunk) (maxBytes : ℕ) :
    Option (List ExecStreamChunk) :=
  if retainedStreamLen chunks ≤ maxBytes then some chunks
  else
    let dropped := dropChunks chunks (retainedStreamLen chunks - maxBytes)
    drainFirst dropped.2 dropped.1

/-- Put `chunk` at the end of a chunk list, joining it to the last chunk when
they touch. -/
def pushExecChunk (chunks : List ExecStreamChunk) (chunk : ExecStreamChunk) :
    List ExecStreamChunk :=
  match chunks.getLast? with
  | some last =>
      if chunk.offset = last.endOffset then
        chunks.dropLast ++
          [{ last with content := last.content ++ chunk.content }]
      else chunks ++ [chunk]
  | none => chunks ++ [chunk]

def appendExecChunk (chunks : List ExecStreamChunk) (chunk : ExecStreamChunk) :
    Option (List ExecStreamChunk) := do
  let kept ← truncateExecStream chunks chunk.offset
  pruneExecStream (pushExecChunk kept chunk) maxExecStreamRetainedBytes

/-- `append_exec_chunk` for an optional chunk. -/
def appendExecChunk? (chunks : List ExecStreamChunk) :
    Option ExecStreamChunk → Option (List ExecStreamChunk)
  | none => some chunks
  | some chunk => appendExecChunk chunks chunk

/-! ## Assistant streams -/

/-- The loop of `prune_assistant_stream`.  Once a delta is cut in part the
total is at most `maxBytes`, so the loop ends there. -/
def pruneAssistantLoop (maxBytes : ℕ) :
    List AssistantStreamDelta → (total truncated : ℕ) →
      Option (List AssistantStreamDelta × ℕ)
  | [], _, truncated => some ([], truncated)
  | first :: rest, total, truncated =>
      let firstLen := first.delta.byteLen
      if total ≤ maxBytes then some (first :: rest, truncated)
      else if maxBytes ≤ total - firstLen then
        pruneAssistantLoop maxBytes rest (total - firstLen)
          (satAdd truncated firstLen)
      else
        let drain := first.delta.nextBoundary (min (total - maxBytes) firstLen)
        if firstLen ≤ drain then
          pruneAssistantLoop maxBytes rest (total - firstLen)
            (satAdd truncated firstLen)
        else do
          let delta ← first.delta.drain drain
          some ({ first with delta } :: rest, satAdd truncated drain)

/-- `prune_assistant_stream`: the deltas that stay and the bytes removed. -/
def pruneAssistantStream (deltas : List AssistantStreamDelta) (maxBytes : ℕ) :
    Option (List AssistantStreamDelta × ℕ) :=
  let total := (deltas.map fun d => d.delta.byteLen).sum
  if maxBytes = 0 then some ([], total)
  else if total ≤ maxBytes then some (deltas, 0)
  else pruneAssistantLoop maxBytes deltas total 0

/-- Put `delta` at the end of the deltas, joining it to the last delta when
both carry the same sequence number or neither carries one. -/
def pushAssistantDelta (deltas : List AssistantStreamDelta)
    (delta : AssistantStreamDelta) : List AssistantStreamDelta :=
  match deltas.getLast? with
  | some last =>
      if delta.sequence = last.sequence then
        deltas.dropLast ++ [{ last with delta := last.delta ++ delta.delta }]
      else deltas ++ [delta]
  | none => deltas ++ [delta]

def appendAssistantDelta (deltas : List AssistantStreamDelta)
    (delta : AssistantStreamDelta) : Option (List AssistantStreamDelta × ℕ) :=
  pruneAssistantStream (pushAssistantDelta deltas delta)
    maxAssistantStreamRetainedBytes

/-- `append_assistant_delta` for an optional delta. -/
def appendAssistantDelta? (deltas : List AssistantStreamDelta) :
    Option AssistantStreamDelta → Option (List AssistantStreamDelta × ℕ)
  | none => some (deltas, 0)
  | some delta => appendAssistantDelta deltas delta

end CodeRs.History
