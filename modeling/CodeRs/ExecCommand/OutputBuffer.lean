import CodeRs.Lib.Eviction
import CodeRs.Lib.Runs
import CodeRs.Lib.Saturating

/-!
# The output buffer of a unified exec session

`OutputBufferState` of `core/src/unified_exec/mod.rs` holds the output of a
session in the chunks that it came in, until it is drained.  What is too much
is removed from the front: whole chunks while they fit into the excess, and
then the beginning of one.  So chunks of any size leave the last bytes, and a
drain starts afresh.
-/

namespace CodeRs.ExecCommand

def unifiedExecOutputMaxBytes : ℕ := 128 * 1024

/-- A `Vec<u8>`, which holds no more than `isize::MAX` bytes. -/
structure ByteVec where
  bytes : List UInt8
  length_lt : bytes.length < 2 ^ 63
  deriving DecidableEq, Repr

structure OutputBufferState where
  chunks : List (List UInt8) := []
  totalBytes : ℕ := 0
  deriving DecidableEq, Repr

namespace OutputBufferState

/-- The loop of `push_chunk` that removes the excess from the front, over the
chunks that are left. -/
def removeExcess : ℕ → ℕ → List (List UInt8) → OutputBufferState
  | _, totalBytes, [] => ⟨[], totalBytes⟩
  | excess, totalBytes, front :: rest =>
      if excess = 0 then ⟨front :: rest, totalBytes⟩
      else if front.length ≤ excess then
        removeExcess (excess - front.length) (totalBytes - front.length) rest
      else ⟨front.drop excess :: rest, totalBytes - excess⟩

def pushChunk (b : OutputBufferState) (chunk : ByteVec) : OutputBufferState :=
  let totalBytes := satAdd b.totalBytes chunk.bytes.length
  removeExcess (totalBytes - unifiedExecOutputMaxBytes) totalBytes
    (b.chunks ++ [chunk.bytes])

def drain (b : OutputBufferState) : OutputBufferState × List (List UInt8) :=
  (⟨[], 0⟩, b.chunks)

/-! ## Removing the excess -/

theorem flatten_removeExcess (excess totalBytes : ℕ)
    (chunks : List (List UInt8)) :
    (removeExcess excess totalBytes chunks).chunks.flatten =
      chunks.flatten.drop excess := by
  induction chunks generalizing excess totalBytes with
  | nil => exact List.drop_nil.symm
  | cons front rest ih =>
      rw [removeExcess, List.flatten_cons]
      split
      next hnone =>
        rw [hnone, List.drop_zero, List.flatten_cons]
      next hsome =>
        split
        next hwhole =>
          rw [ih, List.drop_append, List.drop_eq_nil_of_le hwhole,
            List.nil_append]
        next hpart =>
          rw [List.flatten_cons,
            List.drop_append_of_le_length (Nat.le_of_not_le hpart)]

/-- The counter stays the number of bytes. -/
theorem totalBytes_removeExcess (excess : ℕ) (chunks : List (List UInt8)) :
    (removeExcess excess chunks.flatten.length chunks).totalBytes =
      (removeExcess excess chunks.flatten.length
        chunks).chunks.flatten.length := by
  induction chunks generalizing excess with
  | nil => rfl
  | cons front rest ih =>
      rw [removeExcess, List.flatten_cons, List.length_append]
      split
      next hnone =>
        rw [List.flatten_cons, List.length_append]
      next hsome =>
        split
        next hwhole =>
          rw [Nat.add_sub_cancel_left]
          exact ih _
        next hpart =>
          change front.length + rest.flatten.length - excess = _
          rw [List.flatten_cons, List.length_append, List.length_drop]
          omega

end OutputBufferState

/-! ## Runs -/

inductive BufferOp where
  | pushChunk (chunk : ByteVec)
  | drain
  deriving DecidableEq, Repr

def OutputBufferState.next (b : OutputBufferState) :
    BufferOp → OutputBufferState
  | .pushChunk chunk => b.pushChunk chunk
  | .drain => b.drain.1

/-- The bytes pushed since the last drain, after one more operation. -/
def pushedNext (pushed : List UInt8) : BufferOp → List UInt8
  | .pushChunk chunk => pushed ++ chunk.bytes
  | .drain => []

/-- The bytes pushed since the last drain. -/
def pushedSinceDrain (ops : List BufferOp) : List UInt8 :=
  after pushedNext [] ops

/-- A buffer after some bytes: the last of them, and how many these are. -/
structure OutputBufferState.Holds (b : OutputBufferState)
    (pushed : List UInt8) : Prop where
  content : b.chunks.flatten =
    Eviction.lastOf (some unifiedExecOutputMaxBytes) pushed
  totalBytes : b.totalBytes = b.chunks.flatten.length

namespace OutputBufferState

theorem holds_empty : Holds ⟨[], 0⟩ [] := ⟨List.drop_nil.symm, rfl⟩

theorem Holds.le_max {b : OutputBufferState} {pushed : List UInt8}
    (h : b.Holds pushed) :
    b.totalBytes ≤ unifiedExecOutputMaxBytes := by
  rw [h.totalBytes, h.content, (Eviction.lastOf_spec _ pushed).2]
  exact Nat.min_le_left _ _

/-- No chunk is so long that the counter saturates. -/
theorem Holds.satAdd {b : OutputBufferState} {pushed : List UInt8}
    (h : b.Holds pushed)
    (chunk : ByteVec) :
    CodeRs.satAdd b.totalBytes chunk.bytes.length =
      (b.chunks ++ [chunk.bytes]).flatten.length := by
  have hlen : (b.chunks ++ [chunk.bytes]).flatten.length =
      b.totalBytes + chunk.bytes.length := by
    rw [List.flatten_append, List.length_append, h.totalBytes,
      List.flatten_singleton]
  rw [hlen]
  apply satAdd_eq
  have hchunk := chunk.length_lt
  have hmax := h.le_max
  simp only [unifiedExecOutputMaxBytes] at hmax
  simp only [u64Max]
  omega

theorem Holds.pushChunk {b : OutputBufferState} {pushed : List UInt8}
    (h : b.Holds pushed)
    (chunk : ByteVec) : (b.pushChunk chunk).Holds (pushed ++ chunk.bytes) := by
  have hflatten : (b.chunks ++ [chunk.bytes]).flatten =
      Eviction.lastOf (some unifiedExecOutputMaxBytes) pushed ++
        chunk.bytes := by
    rw [List.flatten_append, h.content, List.flatten_singleton]
  refine ⟨?_, ?_⟩
  · rw [OutputBufferState.pushChunk, h.satAdd, flatten_removeExcess, hflatten,
      ← Eviction.lastOf_lastOf_append]
    rfl
  · rw [OutputBufferState.pushChunk, h.satAdd]
    exact totalBytes_removeExcess _ _

theorem Holds.next {b : OutputBufferState} {pushed : List UInt8}
    (h : b.Holds pushed)
    (op : BufferOp) : (b.next op).Holds (pushedNext pushed op) := by
  cases op with
  | pushChunk chunk => exact h.pushChunk chunk
  | drain => exact holds_empty

theorem holds_after {b : OutputBufferState} {pushed : List UInt8}
    (h : b.Holds pushed)
    (ops : List BufferOp) :
    (after next b ops).Holds (after pushedNext pushed ops) :=
  after_relation (R := Holds) (fun _ _ op hholds => Holds.next hholds op) h ops

end OutputBufferState

/-- Whatever is pushed and drained, the counter is the number of the buffered
bytes, which are the last of those pushed since the last drain, up to the
cap. -/
theorem buffered_last_bytes (ops : List BufferOp) :
    let b := after OutputBufferState.next {} ops
    b.totalBytes = (b.chunks.map List.length).sum ∧
      b.totalBytes ≤ unifiedExecOutputMaxBytes ∧
      b.chunks.flatten <:+ pushedSinceDrain ops ∧
      b.chunks.flatten.length =
        min unifiedExecOutputMaxBytes (pushedSinceDrain ops).length := by
  intro b
  have hholds : b.Holds (pushedSinceDrain ops) :=
    OutputBufferState.holds_after OutputBufferState.holds_empty ops
  have hlast :=
    Eviction.lastOf_spec unifiedExecOutputMaxBytes (pushedSinceDrain ops)
  rw [← hholds.content] at hlast
  refine ⟨?_, hholds.le_max, hlast.1, hlast.2⟩
  rw [hholds.totalBytes, List.length_flatten]

/-- A chunk of one byte more than the cap. -/
def longChunk : ByteVec where
  bytes := List.replicate (unifiedExecOutputMaxBytes + 1) 0
  length_lt := by
    rw [List.length_replicate]
    decide

/-- After a drain the buffer fills up to the cap again. -/
theorem buffered_last_bytes_longChunk :
    (after OutputBufferState.next {}
      [.pushChunk longChunk, .drain,
        .pushChunk longChunk]).chunks.flatten.length =
        unifiedExecOutputMaxBytes := by
  have hlength := (buffered_last_bytes
    [.pushChunk longChunk, .drain, .pushChunk longChunk]).2.2.2
  have hpushed :
      pushedSinceDrain [.pushChunk longChunk, .drain, .pushChunk longChunk] =
      List.replicate (unifiedExecOutputMaxBytes + 1) 0 := rfl
  rw [hpushed, List.length_replicate] at hlength
  rw [hlength, min_eq_left (Nat.le_succ _)]

end CodeRs.ExecCommand
