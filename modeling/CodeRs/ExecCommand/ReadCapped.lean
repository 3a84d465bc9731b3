import CodeRs.Lib.Eviction
import CodeRs.Lib.Runs
import CodeRs.Lib.Saturating

/-!
# Reading the output of a command

`read_capped` of `core/src/exec.rs` with `append_with_cap` and
`emit_pending_delta`.  Every read goes into a buffer that keeps the last bytes,
into a delta that is sent to the user now and then, and on to the spool file
and the collector of both streams.  A run of the loop is the list of its reads
and of the times at which the flush timer fires.
-/

namespace CodeRs.ExecCommand

def readChunkSize : ℕ := 8192

def execDeltaFlushBytes : ℕ := 256 * 1024

def execCaptureMaxBytes : ℕ := 32 * 1024 * 1024

def maxExecOutputDeltasPerCall : ℕ := 2048

/-- `b'\n'`. -/
def newline : UInt8 := 10

/-! ## The captured bytes -/

/-- The buffer of a reader, and what it has dropped. -/
@[ext]
structure Capture where
  buf : List UInt8 := []
  truncated : Bool := false
  truncatedLines : ℕ := 0
  truncatedBytes : ℕ := 0
  deriving DecidableEq

/-- The loop of `append_with_cap` over the bytes that are dropped. -/
def droppedLines (dropped : List UInt8) : ℕ :=
  dropped.foldl (fun lines byte => if byte = newline then
    satAdd32 lines 1 else lines) 0

def appendWithCap (capture : Capture) (chunk : List UInt8) : Capture :=
  if chunk = [] then capture
  else
    let buf := capture.buf ++ chunk
    if execCaptureMaxBytes < buf.length then
      let dropLen := buf.length - execCaptureMaxBytes
      { buf := buf.drop dropLen
        truncated := true
        truncatedLines := satAdd32 capture.truncatedLines
          (droppedLines (buf.take dropLen))
        truncatedBytes := satAdd capture.truncatedBytes dropLen }
    else { capture with buf := buf }

/-! ## The loop -/

/-- What a read gives: some bytes, no more than fit. -/
structure ReadChunk where
  bytes : List UInt8
  nonempty : bytes ≠ []
  length_le : bytes.length ≤ readChunkSize

/-- What the loop waits for: a read that gives something, or the flush timer. -/
inductive SelectEvent where
  | read (chunk : ReadChunk)
  | flushTimer

/-- The variables of `read_capped`, with the deltas that it has sent and what
it has passed on to the spool file and the collector.  Of the deadline it
matters whether there is one. -/
structure ReadState where
  capture : Capture := {}
  emittedDeltas : ℕ := 0
  pendingDelta : List UInt8 := []
  flushDeadline : Bool := false
  deltas : List (List UInt8) := []
  passedOn : List (List UInt8) := []

def emitPendingDelta (s : ReadState) : ReadState :=
  if s.pendingDelta = [] ∨ maxExecOutputDeltasPerCall ≤ s.emittedDeltas then
    if maxExecOutputDeltasPerCall ≤ s.emittedDeltas then
      { s with pendingDelta := [] } else s
  else
    { s with
      pendingDelta := []
      deltas := s.deltas ++ [s.pendingDelta]
      emittedDeltas := satAdd s.emittedDeltas 1 }

/-- What a read does to the deltas, where there is a stream to send them to. -/
def accumulateDelta (s : ReadState) (bytes : List UInt8) : ReadState :=
  let s := { s with pendingDelta := s.pendingDelta ++ bytes }
  if maxExecOutputDeltasPerCall ≤ s.emittedDeltas then
    { s with pendingDelta := [], flushDeadline := false }
  else if execDeltaFlushBytes ≤ s.pendingDelta.length then
    { emitPendingDelta s with flushDeadline := false }
  else if s.flushDeadline = false then { s with flushDeadline := true }
  else s

/-- One round of the loop.  The branch of the timer is closed without a
deadline. -/
def selectStep (live : Bool) (s : ReadState) : SelectEvent → ReadState
  | .read chunk =>
      let s := if live then accumulateDelta s chunk.bytes else s
      { s with
        passedOn := s.passedOn ++ [chunk.bytes]
        capture := appendWithCap s.capture chunk.bytes }
  | .flushTimer =>
      if s.flushDeadline then
        let s := if live then emitPendingDelta s
          else { s with pendingDelta := [] }
        { s with flushDeadline := false }
      else s

structure StreamOutput where
  text : List UInt8
  truncatedAfterLines : Option ℕ
  truncatedBeforeBytes : Option ℕ
  deriving DecidableEq

/-- The output of a reader that has come to the end of the stream. -/
def Capture.output (capture : Capture) : StreamOutput where
  text := capture.buf
  truncatedAfterLines :=
    if capture.truncated then some (max capture.truncatedLines 1) else none
  truncatedBeforeBytes :=
    if 0 < capture.truncatedBytes then some capture.truncatedBytes else none

inductive ReadEnd where
  | eof
  | failed
  deriving DecidableEq

/-- What a call of `read_capped` does: the deltas that it sends, what it passes
on, and its output, unless a read fails. -/
structure ReadRun where
  deltas : List (List UInt8)
  passedOn : List (List UInt8)
  output : Option StreamOutput

def readCapped (live : Bool) (events : List SelectEvent) : ReadEnd → ReadRun
  | .eof =>
      let s := after (selectStep live) {} events
      let s := if live then emitPendingDelta s else s
      ⟨s.deltas, s.passedOn, some s.capture.output⟩
  | .failed =>
      let s := after (selectStep live) {} events
      ⟨s.deltas, s.passedOn, none⟩

/-! ## What is captured -/

open Eviction

def readBytes (events : List SelectEvent) : List UInt8 :=
  events.flatMap fun
    | .read chunk => chunk.bytes
    | .flushTimer => []

/-- The capture of a stream that has been read so far. -/
def captureOf (stream : List UInt8) : Capture where
  buf := lastOf (some execCaptureMaxBytes) stream
  truncated := execCaptureMaxBytes < stream.length
  truncatedLines :=
    min ((overflow (some execCaptureMaxBytes) stream).count newline) u32Max
  truncatedBytes :=
    min (overflow (some execCaptureMaxBytes) stream).length u64Max

theorem droppedLines_eq (dropped : List UInt8) :
    droppedLines dropped = min (dropped.count newline) u32Max := by
  have hfold : ∀ lines ≤ u32Max, dropped.foldl
      (fun lines byte => if byte = newline then satAdd32 lines 1
        else lines) lines =
        min (lines + dropped.count newline) u32Max := by
    induction dropped with
    | nil => exact fun lines hle => (min_eq_left hle).symm
    | cons byte rest ih =>
        intro lines hle
        rw [List.foldl_cons]
        by_cases hbyte : byte = newline
        · have hle' : satAdd32 lines 1 ≤ u32Max := min_le_right _ _
          rw [if_pos hbyte, ih _ hle', satAdd32, hbyte, List.count_cons_self]
          omega
        · rw [if_neg hbyte, ih _ hle, List.count_cons_of_ne hbyte]
  rw [droppedLines, hfold 0 (Nat.zero_le _), Nat.zero_add]

theorem captureOf_nil : captureOf [] = {} := by
  simp [captureOf, lastOf, overflow]

theorem appendWithCap_eq {capture : Capture} {chunk : List UInt8}
    (hchunk : chunk ≠ [])
    (hlines : capture.truncatedLines ≤ u32Max)
    (hbytes : capture.truncatedBytes ≤ u64Max) :
    appendWithCap capture chunk =
      { buf := lastOf (some execCaptureMaxBytes) (capture.buf ++ chunk)
        truncated := capture.truncated ||
          decide (execCaptureMaxBytes < (capture.buf ++ chunk).length)
        truncatedLines := satAdd32 capture.truncatedLines
          (droppedLines
            (overflow (some execCaptureMaxBytes) (capture.buf ++ chunk)))
        truncatedBytes := satAdd capture.truncatedBytes
          (overflow (some execCaptureMaxBytes) (capture.buf ++ chunk)).length
            } := by
  rw [appendWithCap, if_neg hchunk]
  simp only
  split
  next hfull =>
    refine Capture.ext rfl ?_ rfl ?_
    · rw [decide_eq_true hfull, Bool.or_true]
    · have hlength :
          (overflow (some execCaptureMaxBytes) (capture.buf ++ chunk)).length =
          (capture.buf ++ chunk).length - execCaptureMaxBytes := by
        rw [overflow, List.length_take]
        omega
      rw [hlength]
  next hfits =>
    have hzero : (capture.buf ++ chunk).length - execCaptureMaxBytes = 0 := by
      omega
    refine Capture.ext ?_ ?_ ?_ ?_
    · rw [lastOf, hzero, List.drop_zero]
    · rw [decide_eq_false hfits, Bool.or_false]
    · rw [overflow, hzero, List.take_zero]
      exact (min_eq_left hlines).symm
    · rw [overflow, hzero, List.take_zero]
      exact (min_eq_left hbytes).symm

/-- However a stream is cut, appending the next piece captures what has been
read. -/
theorem appendWithCap_captureOf (stream chunk : List UInt8) :
    appendWithCap (captureOf stream) chunk = captureOf (stream ++ chunk) := by
  by_cases hchunk : chunk = []
  · rw [appendWithCap, if_pos hchunk, hchunk, List.append_nil]
  · have hover := overflow_append execCaptureMaxBytes stream chunk
    rw [appendWithCap_eq hchunk (min_le_right _ _) (min_le_right _ _)]
    refine Capture.ext ?_ ?_ ?_ ?_
    · simp only [captureOf]
      exact lastOf_lastOf_append execCaptureMaxBytes stream chunk
    · have hlength :
          (lastOf (some execCaptureMaxBytes) stream ++ chunk).length =
          min execCaptureMaxBytes stream.length + chunk.length := by
        rw [List.length_append, (lastOf_spec _ stream).2]
      have hpos : 0 < chunk.length := List.length_pos_iff.2 hchunk
      have hiff : execCaptureMaxBytes < stream.length ∨
          execCaptureMaxBytes <
            min execCaptureMaxBytes stream.length + chunk.length ↔
            execCaptureMaxBytes < stream.length + chunk.length := by omega
      simp only [captureOf, hlength, List.length_append, ← Bool.decide_or, hiff]
    · simp only [captureOf, droppedLines_eq, satAdd32, hover, List.count_append]
      omega
    · simp only [captureOf, satAdd, hover, List.length_append]
      omega

/-- The output for a stream of which some bytes are dropped and the others
kept, and how many lines and bytes are missing, as some functions count them. -/
def droppedOutput (lineCount byteCount : ℕ → ℕ) (dropped text : List UInt8) :
    StreamOutput where
  text := text
  truncatedAfterLines :=
    if dropped = [] then none
      else some (max (lineCount (dropped.count newline)) 1)
  truncatedBeforeBytes :=
    if dropped = [] then none else some (byteCount dropped.length)

/-- The output for a stream that keeps the last bytes up to the cap. -/
def streamOutput (lineCount byteCount : ℕ → ℕ) (stream : List UInt8) :
    StreamOutput :=
  droppedOutput lineCount byteCount
    (stream.take (stream.length - execCaptureMaxBytes))
    (stream.drop (stream.length - execCaptureMaxBytes))

theorem output_captureOf (stream : List UInt8) :
    (captureOf stream).output =
      streamOutput (min · u32Max) (min · u64Max) stream := by
  have hlength : (stream.take (stream.length - execCaptureMaxBytes)).length =
      stream.length - execCaptureMaxBytes := by
    rw [List.length_take]
    omega
  have hmax := one_le_u64Max
  simp only [Capture.output, captureOf, streamOutput, droppedOutput, lastOf,
    overflow, hlength]
  by_cases hfull : execCaptureMaxBytes < stream.length
  · have hne : stream.take (stream.length - execCaptureMaxBytes) ≠ [] := by
      intro hnil
      rw [hnil, List.length_nil] at hlength
      omega
    have hpos : 0 < min (stream.length - execCaptureMaxBytes) u64Max := by omega
    rw [decide_eq_true hfull, if_pos rfl, if_pos hpos, if_neg hne, if_neg hne]
  · have hzero : stream.length - execCaptureMaxBytes = 0 := by omega
    rw [decide_eq_false hfull, hzero, List.take_zero, if_pos rfl, if_pos rfl]
    simp

/-! ## What is sent -/

/-- Deltas that follow a stream: they are a beginning of it, and all of it
unless as many have been sent as may be. -/
structure DeltasFollow (stream : List UInt8) (deltas : List (List UInt8)) :
    Prop where
  begins : deltas.flatten <+: stream
  length_le : deltas.length ≤ maxExecOutputDeltasPerCall
  whole : deltas.length ≠ maxExecOutputDeltasPerCall → deltas.flatten = stream

/-- While more deltas may be sent, those sent and the pending one are the
stream. -/
structure DeltasOf (s : ReadState) (stream : List UInt8) : Prop where
  count : s.emittedDeltas = s.deltas.length
  length_le : s.deltas.length ≤ maxExecOutputDeltasPerCall
  begins : s.deltas.flatten <+: stream
  pending : s.deltas.length < maxExecOutputDeltasPerCall →
    s.deltas.flatten ++ s.pendingDelta = stream

variable {s : ReadState} {stream : List UInt8}

theorem DeltasOf.emit (h : DeltasOf s stream) :
    DeltasOf (emitPendingDelta s) stream ∧
      DeltasFollow stream (emitPendingDelta s).deltas := by
  have hcount := h.count
  rw [emitPendingDelta]
  by_cases hlimit : maxExecOutputDeltasPerCall ≤ s.emittedDeltas
  · rw [if_pos (Or.inr hlimit), if_pos hlimit]
    have hfull : s.deltas.length = maxExecOutputDeltasPerCall :=
      le_antisymm h.length_le (hcount ▸ hlimit)
    exact ⟨⟨hcount, h.length_le, h.begins, fun hlt => absurd hfull hlt.ne⟩,
      ⟨h.begins, h.length_le, fun hne => absurd hfull hne⟩⟩
  · have hlt : s.deltas.length < maxExecOutputDeltasPerCall := by omega
    have hstream := h.pending hlt
    by_cases hnil : s.pendingDelta = []
    · rw [if_pos (Or.inl hnil), if_neg hlimit]
      refine ⟨h, ⟨h.begins, h.length_le, fun _ => ?_⟩⟩
      rw [hnil, List.append_nil] at hstream
      exact hstream
    · have hneither :
          ¬ (s.pendingDelta = [] ∨
            maxExecOutputDeltasPerCall ≤ s.emittedDeltas) :=
        fun hor => hor.elim hnil hlimit
      have hflatten : (s.deltas ++ [s.pendingDelta]).flatten = stream := by
        rw [List.flatten_append, List.flatten_singleton, hstream]
      have hlength :
          (s.deltas ++ [s.pendingDelta]).length = s.deltas.length + 1 :=
        List.length_append
      have hadd : satAdd s.emittedDeltas 1 = s.deltas.length + 1 := by
        have hbound : maxExecOutputDeltasPerCall ≤ u64Max := by decide
        rw [hcount, satAdd_eq (by omega)]
      have hbegins : (s.deltas ++ [s.pendingDelta]).flatten <+: stream :=
        hflatten ▸ List.prefix_rfl
      rw [if_neg hneither]
      refine ⟨⟨hadd.trans hlength.symm, ?_, hbegins, fun _ => ?_⟩,
        ⟨hbegins, ?_, fun _ => hflatten⟩⟩
      · rw [hlength]
        exact hlt
      · rw [List.append_nil]
        exact hflatten
      · rw [hlength]
        exact hlt

theorem DeltasOf.accumulate (h : DeltasOf s stream) (bytes : List UInt8) :
    DeltasOf (accumulateDelta s bytes) (stream ++ bytes) := by
  have hcount := h.count
  have hbegins : s.deltas.flatten <+: stream ++ bytes :=
    h.begins.trans (List.prefix_append stream bytes)
  have hmore :
      DeltasOf { s with
        pendingDelta := s.pendingDelta ++ bytes } (stream ++ bytes) := by
    refine ⟨hcount, h.length_le, hbegins, fun hlt => ?_⟩
    rw [← h.pending hlt, List.append_assoc]
  rw [accumulateDelta]
  simp only
  split
  next hlimit =>
    have hfull : s.deltas.length = maxExecOutputDeltasPerCall :=
      le_antisymm h.length_le (hcount ▸ hlimit)
    exact ⟨hcount, h.length_le, hbegins, fun hlt => absurd hfull hlt.ne⟩
  next =>
    split
    · obtain ⟨⟨hcount', hle', hbegins', hpending'⟩, -⟩ := hmore.emit
      exact ⟨hcount', hle', hbegins', hpending'⟩
    · split
      · exact ⟨hmore.count, hmore.length_le, hmore.begins, hmore.pending⟩
      · exact hmore

/-! ## Runs -/

theorem emitPendingDelta_capture (s : ReadState) :
    (emitPendingDelta s).capture = s.capture ∧
      (emitPendingDelta s).passedOn = s.passedOn := by
  rw [emitPendingDelta]
  split
  · split
    · exact ⟨rfl, rfl⟩
    · exact ⟨rfl, rfl⟩
  · exact ⟨rfl, rfl⟩

theorem accumulateDelta_capture (s : ReadState) (bytes : List UInt8) :
    (accumulateDelta s bytes).capture = s.capture ∧
      (accumulateDelta s bytes).passedOn = s.passedOn := by
  rw [accumulateDelta]
  simp only
  split
  · exact ⟨rfl, rfl⟩
  · split
    · exact emitPendingDelta_capture _
    · split
      · exact ⟨rfl, rfl⟩
      · exact ⟨rfl, rfl⟩

/-- What the variables of the loop are after a stream has been read. -/
structure HasRead (live : Bool) (stream : List UInt8)
    (s : ReadState) : Prop where
  capture : s.capture = captureOf stream
  passedOn : s.passedOn.flatten = stream
  silent : live = false → s.deltas = []
  deltas : live = true → DeltasOf s stream

variable {live : Bool}

theorem hasRead_start : HasRead live [] {} where
  capture := captureOf_nil.symm
  passedOn := rfl
  silent _ := rfl
  deltas _ := ⟨rfl, Nat.zero_le _, List.prefix_rfl, fun _ => rfl⟩

theorem HasRead.read (h : HasRead live stream s) (chunk : ReadChunk) :
    HasRead live (stream ++ chunk.bytes) (selectStep live s (.read chunk)) := by
  rw [selectStep]
  cases live with
  | true =>
      obtain ⟨hcapture, hpassed⟩ := accumulateDelta_capture s chunk.bytes
      obtain ⟨hcount, hle, hbegins, hpending⟩ :=
        (h.deltas rfl).accumulate chunk.bytes
      refine ⟨?_, ?_, nofun, fun _ => ⟨hcount, hle, hbegins, hpending⟩⟩
      · simp only [if_true]
        rw [hcapture, h.capture, appendWithCap_captureOf]
      · simp only [if_true]
        rw [hpassed, List.flatten_append, h.passedOn, List.flatten_singleton]
  | false =>
      refine ⟨?_, ?_, h.silent, nofun⟩
      · simp only [Bool.false_eq_true, if_false]
        rw [h.capture, appendWithCap_captureOf]
      · simp only [Bool.false_eq_true, if_false]
        rw [List.flatten_append, h.passedOn, List.flatten_singleton]

theorem HasRead.flush (h : HasRead live stream s) :
    HasRead live stream (selectStep live s .flushTimer) := by
  rw [selectStep]
  split
  · cases live with
    | true =>
        obtain ⟨hcapture, hpassed⟩ := emitPendingDelta_capture s
        obtain ⟨⟨hcount, hle, hbegins, hpending⟩, -⟩ := (h.deltas rfl).emit
        exact ⟨hcapture.trans h.capture,
          (congrArg List.flatten hpassed).trans h.passedOn,
          nofun, fun _ => ⟨hcount, hle, hbegins, hpending⟩⟩
    | false => exact ⟨h.capture, h.passedOn, h.silent, nofun⟩
  · exact h

theorem HasRead.after (h : HasRead live stream s) (events : List SelectEvent) :
    HasRead live (stream ++ readBytes events)
      (after (selectStep live) s events) := by
  induction events generalizing s stream with
  | nil =>
      rw [readBytes, List.flatMap_nil, List.append_nil]
      exact h
  | cons event rest ih =>
      cases event with
      | read chunk =>
          have hnext := ih (h.read chunk)
          rw [List.append_assoc] at hnext
          exact hnext
      | flushTimer => exact ih h.flush

variable (live) (events : List SelectEvent)

theorem hasRead_events : HasRead live (readBytes events)
    (after (selectStep live) {} events) := by
  have hread := (@hasRead_start live).after events
  rwa [List.nil_append] at hread

theorem readCapped_output : (readCapped live events .eof).output =
    some (streamOutput (min · u32Max) (min · u64Max) (readBytes events)) := by
  have hcapture := (hasRead_events live events).capture
  rw [← output_captureOf, ← hcapture, readCapped]
  cases live with
  | true =>
      exact congrArg (fun c => some c.output) (emitPendingDelta_capture _).1
  | false => rfl

/-- The spool file and the collector get the stream. -/
theorem readCapped_passedOn (ending : ReadEnd) :
    (readCapped live events ending).passedOn.flatten = readBytes events := by
  have hpassed := (hasRead_events live events).passedOn
  cases ending with
  | eof =>
      rw [readCapped]
      cases live with
      | true =>
          exact (congrArg List.flatten (emitPendingDelta_capture _).2).trans
            hpassed
      | false => exact hpassed
  | failed => exact hpassed

/-- What a call does that comes to the end of its stream, however the stream is
cut and whenever the timer fires.  Its output is the last bytes of the stream
with the saturating counts of what is missing, and where deltas are sent, they
follow the stream. -/
theorem readCapped_eof :
    (readCapped live events .eof).output =
        some (streamOutput (min · u32Max) (min · u64Max) (readBytes events)) ∧
      (live = true →
        DeltasFollow (readBytes events) (readCapped live events .eof).deltas) ∧
      (live = false → (readCapped live events .eof).deltas = []) := by
  have hread := hasRead_events live events
  refine ⟨readCapped_output live events, ?_, ?_⟩
  · rintro rfl
    exact (hread.deltas rfl).emit.2
  · rintro rfl
    exact hread.silent rfl

/-! ## More lines than are counted -/

/-- A read that gives as many line breaks as fit. -/
def breaksChunk : ReadChunk where
  bytes := List.replicate readChunkSize newline
  nonempty := by
    rw [List.ne_nil_iff_length_pos, List.length_replicate]
    decide
  length_le := (List.length_replicate).le

theorem readBytes_breaks (reads : ℕ) :
    readBytes (List.replicate reads (.read breaksChunk)) =
      List.replicate (reads * readChunkSize) newline := by
  rw [readBytes, List.flatMap_replicate]
  exact List.flatten_replicate_replicate

theorem droppedOutput_ne {dropped text : List UInt8}
    (h : u32Max < dropped.count newline) :
    droppedOutput (min · u32Max) (min · u64Max) dropped text ≠
      droppedOutput id id dropped text := by
  intro heq
  have hlines := congrArg StreamOutput.truncatedAfterLines heq
  have hne : dropped ≠ [] := by
    rintro rfl
    exact absurd h (Nat.not_lt_zero _)
  simp only [droppedOutput, if_neg hne, id] at hlines
  have hcount := Option.some.inj hlines
  have hone : 1 ≤ u32Max := by decide
  omega

/-- A stream of line breaks of which `2 ^ 32` are dropped: one fewer is
counted. -/
theorem readCapped_breaks_ne :
    (readCapped true (List.replicate 528384 (.read breaksChunk)) .eof).output ≠
      some (streamOutput id id
        (readBytes (List.replicate 528384 (.read breaksChunk)))) := by
  rw [readCapped_output, readBytes_breaks]
  intro h
  refine droppedOutput_ne ?_ (Option.some.inj h)
  rw [List.length_replicate, List.take_replicate, List.count_replicate_self]
  decide

end CodeRs.ExecCommand
