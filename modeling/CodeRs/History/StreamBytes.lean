import CodeRs.History.StreamCuts
import CodeRs.Lib.Runs
import CodeRs.Lib.Utf8

/-!
# The bytes of an exec stream

In ASCII output each character is a byte, and a stream holds bytes at
positions.  A chunk takes the place of everything from its offset on, and then
the oldest bytes go until the stream spans no more than the limit.  The span
counts the gaps, but only bytes are dropped, so wide gaps cost the newest
bytes.
-/

namespace CodeRs.History

/-! ## Bytes at positions -/

def ExecStreamChunk.bytes (chunk : ExecStreamChunk) : List (Char × ℕ) :=
  chunk.content.zipIdx chunk.offset

/-- The bytes that a stream holds and where they are. -/
def heldBytes (chunks : List ExecStreamChunk) : List (Char × ℕ) :=
  chunks.flatMap ExecStreamChunk.bytes

/-- What a stream holds with a chunk more, before it is pruned. -/
def writtenBytes (chunks : List ExecStreamChunk) (chunk : ExecStreamChunk) :
    List (Char × ℕ) :=
  (heldBytes chunks).filter (fun entry => entry.2 < chunk.offset) ++ chunk.bytes

/-- Chunks in the order of their offsets that do not overlap. -/
def Apart (chunks : List ExecStreamChunk) : Prop :=
  chunks.Pairwise fun a b => a.offset + a.len ≤ b.offset

/-- A stream of ASCII chunks that do not overlap. -/
structure AsciiStream (chunks : List ExecStreamChunk) : Prop where
  apart : Apart chunks
  ascii : ∀ chunk ∈ chunks, chunk.content.IsAscii

theorem mem_zipIdx_bounds {t : Text} {k : ℕ} {entry : Char × ℕ}
    (h : entry ∈ t.zipIdx k) :
    k ≤ entry.2 ∧ entry.2 < k + t.length := by
  obtain ⟨hk, hlt, -⟩ := List.mem_zipIdx (x := entry.1) (i := entry.2) h
  exact ⟨hk, hlt⟩

/-- The bytes before a position are the first ones. -/
theorem filter_zipIdx_lt (t : Text) (k n : ℕ) :
    (t.zipIdx k).filter (fun entry => entry.2 < n) =
      (t.take (n - k)).zipIdx k := by
  induction t generalizing k with
  | nil => simp
  | cons c t ih =>
      rw [List.zipIdx_cons]
      by_cases hk : k < n
      · obtain ⟨m, hm⟩ := Nat.exists_eq_add_of_lt hk
        have hsub : n - k = n - (k + 1) + 1 := by omega
        rw [List.filter_cons_of_pos (by simpa using hk), ih, hsub,
          List.take_succ_cons,
          List.zipIdx_cons]
      · have hnone : ∀ entry ∈ t.zipIdx (k + 1),
            ¬ (decide (entry.2 < n)) = true := by
          intro entry hentry
          have hle := (mem_zipIdx_bounds hentry).1
          simp only [decide_eq_true_eq]
          omega
        rw [List.filter_cons_of_neg (by simpa using hk),
          List.filter_eq_nil_iff.2 hnone,
          Nat.sub_eq_zero_of_le (Nat.le_of_not_lt hk), List.take_zero,
          List.zipIdx_nil]

theorem heldBytes_append (chunks later : List ExecStreamChunk) :
    heldBytes (chunks ++ later) = heldBytes chunks ++ heldBytes later :=
  List.flatMap_append

theorem heldBytes_cons (chunk : ExecStreamChunk)
    (chunks : List ExecStreamChunk) :
    heldBytes (chunk :: chunks) = chunk.bytes ++ heldBytes chunks := rfl

theorem heldBytes_singleton (chunk : ExecStreamChunk) :
    heldBytes [chunk] = chunk.bytes :=
  List.append_nil _

theorem ExecStreamChunk.len_eq {chunk : ExecStreamChunk}
    (h : chunk.content.IsAscii) :
    chunk.len = chunk.content.length :=
  h.byteLen_eq

theorem ExecStreamChunk.length_bytes {chunk : ExecStreamChunk}
    (h : chunk.content.IsAscii) :
    chunk.bytes.length = chunk.len := by
  rw [bytes, List.length_zipIdx, len_eq h]

/-- Chunks that end by a position hold bytes before it only. -/
theorem lt_of_mem_heldBytes {chunks : List ExecStreamChunk} {n : ℕ}
    (hascii : ∀ chunk ∈ chunks, chunk.content.IsAscii)
    (hend : ∀ chunk ∈ chunks, chunk.offset + chunk.len ≤ n) {entry : Char × ℕ}
    (h : entry ∈ heldBytes chunks) : entry.2 < n := by
  obtain ⟨chunk, hchunk, hentry⟩ := List.mem_flatMap.1 h
  have hlt := (mem_zipIdx_bounds hentry).2
  have hle := hend chunk hchunk
  rw [ExecStreamChunk.len_eq (hascii chunk hchunk)] at hle
  omega

theorem heldBytes_filter_of_end_le {chunks : List ExecStreamChunk} {n : ℕ}
    (hascii : ∀ chunk ∈ chunks, chunk.content.IsAscii)
    (hend : ∀ chunk ∈ chunks, chunk.offset + chunk.len ≤ n) :
    (heldBytes chunks).filter (fun entry => entry.2 < n) = heldBytes chunks :=
  List.filter_eq_self.2 fun _ hentry =>
    decide_eq_true (lt_of_mem_heldBytes hascii hend hentry)

theorem AsciiStream.of_append {chunks later : List ExecStreamChunk}
    (h : AsciiStream (chunks ++ later)) : AsciiStream chunks :=
  ⟨(List.pairwise_append.1 h.apart).1,
    fun chunk hchunk => h.ascii chunk (by simp [hchunk])⟩

theorem AsciiStream.of_append_right {chunks later : List ExecStreamChunk}
    (h : AsciiStream (chunks ++ later)) : AsciiStream later :=
  ⟨(List.pairwise_append.1 h.apart).2.1,
    fun chunk hchunk => h.ascii chunk (by simp [hchunk])⟩

theorem AsciiStream.cons_of_end_eq {first first' : ExecStreamChunk}
    {rest : List ExecStreamChunk} (h : AsciiStream (first :: rest))
    (hascii : first'.content.IsAscii)
    (hend : first'.offset + first'.len = first.offset + first.len) :
    AsciiStream (first' :: rest) where
  apart := by
    obtain ⟨hfirst, hrest⟩ := List.pairwise_cons.1 h.apart
    refine List.pairwise_cons.2 ⟨fun c hc => ?_, hrest⟩
    rw [hend]
    exact hfirst c hc
  ascii := by
    intro c hc
    rcases List.mem_cons.1 hc with rfl | hc
    · exact hascii
    · exact h.ascii c (List.mem_cons_of_mem first hc)

theorem AsciiStream.concat {chunks : List ExecStreamChunk}
    (h : AsciiStream chunks)
    {chunk : ExecStreamChunk} (hascii : chunk.content.IsAscii)
    (hend : ∀ c ∈ chunks,
      c.offset + c.len ≤ chunk.offset) : AsciiStream (chunks ++ [chunk]) where
  apart :=
    List.pairwise_append.2 ⟨h.apart, List.pairwise_singleton _ _,
      by simpa using hend⟩
  ascii := by
    intro c hc
    rcases List.mem_append.1 hc with hc | hc
    · exact h.ascii c hc
    · rw [List.mem_singleton.1 hc]
      exact hascii

theorem AsciiStream.end_le_of_concat {chunks : List ExecStreamChunk}
    {chunk : ExecStreamChunk}
    (h : AsciiStream (chunks ++ [chunk])) :
    ∀ c ∈ chunks, c.offset + c.len ≤ chunk.offset :=
  fun c hc =>
    (List.pairwise_append.1 h.apart).2.2 c hc chunk (List.mem_singleton_self _)

theorem AsciiStream.end_le_end {chunks : List ExecStreamChunk}
    {last : ExecStreamChunk}
    (h : AsciiStream (chunks ++ [last])) :
    ∀ c ∈ chunks ++ [last], c.offset + c.len ≤ last.offset + last.len := by
  intro c hc
  rcases List.mem_append.1 hc with hc | hc
  · exact (h.end_le_of_concat c hc).trans (Nat.le_add_right _ _)
  · rw [List.mem_singleton.1 hc]

/-! ## The cut at an offset -/

/-- The least offset of a stream and of a chunk that goes over it. -/
def streamStart (chunks : List ExecStreamChunk) (offset : ℕ) : ℕ :=
  (chunks.map ExecStreamChunk.offset).foldr min offset

theorem streamStart_concat (chunks : List ExecStreamChunk)
    (chunk : ExecStreamChunk) (n : ℕ) :
    streamStart (chunks ++ [chunk]) n =
      streamStart chunks (min chunk.offset n) := by
  simp [streamStart]

/-- The chunks that stay before an offset. -/
structure CutAt (chunks : List ExecStreamChunk) (offset : ℕ)
    (kept : List ExecStreamChunk) :
    Prop where
  stream : AsciiStream kept
  held : heldBytes kept = (heldBytes chunks).filter fun entry =>
    entry.2 < offset
  end_le : ∀ chunk ∈ kept, chunk.offset + chunk.len ≤ offset
  start : streamStart kept offset = streamStart chunks offset

theorem truncateExecStream_concat (chunks : List ExecStreamChunk)
    (last : ExecStreamChunk)
    (n : ℕ) :
    truncateExecStream (chunks ++ [last]) n =
      if last.endOffset ≤ n then some (chunks ++ [last])
      else if n ≤ last.offset then truncateExecStream chunks n
      else (last.content.truncate (n - last.offset)).map fun content =>
        chunks ++ [{ last with content }] := by
  rw [truncateExecStream, List.reverse_append, List.reverse_singleton,
    List.singleton_append,
    truncateExecStreamRev]
  split
  next => simp
  next =>
    split
    next => rfl
    next => cases last.content.truncate (n - last.offset) <;> simp

theorem endOffset_le_iff {chunk : ExecStreamChunk} {n : ℕ} (hn : n ≤ u64Max)
    (hbelow : n = u64Max → chunk.offset + chunk.len ≤ u64Max) :
    chunk.endOffset ≤ n ↔ chunk.offset + chunk.len ≤ n := by
  rw [ExecStreamChunk.endOffset, satAdd]
  omega

theorem truncateExecStream_cutAt {chunks : List ExecStreamChunk}
    (h : AsciiStream chunks) {n : ℕ}
    (hn : n ≤ u64Max)
    (hbelow : n = u64Max → ∀ chunk ∈ chunks,
      chunk.offset + chunk.len ≤ u64Max) :
    ∃ kept, truncateExecStream chunks n = some kept ∧ CutAt chunks n kept := by
  induction chunks using List.reverseRecOn with
  | nil => exact ⟨[], rfl, ⟨h, rfl, by simp, rfl⟩⟩
  | append_singleton chunks last ih =>
      have hbefore := h.end_le_of_concat
      have hlast : last.content.IsAscii := h.ascii last (by simp)
      have hiff := endOffset_le_iff hn fun hmax => hbelow hmax last (by simp)
      rw [truncateExecStream_concat]
      simp only [hiff]
      split
      next hend =>
        have hall : ∀ c ∈ chunks ++ [last], c.offset + c.len ≤ n :=
          fun c hc => (h.end_le_end c hc).trans hend
        exact ⟨_, rfl,
          ⟨h, (heldBytes_filter_of_end_le h.ascii hall).symm, hall, rfl⟩⟩
      next hend =>
        split
        next hstart =>
          obtain ⟨kept, hkept, hcut⟩ := ih h.of_append
            fun hmax c hc => hbelow hmax c (List.mem_append_left _ hc)
          refine ⟨kept, hkept, ⟨hcut.stream, ?_, hcut.end_le, ?_⟩⟩
          · rw [hcut.held, heldBytes_append, List.filter_append,
              heldBytes_singleton,
              ExecStreamChunk.bytes, filter_zipIdx_lt,
              Nat.sub_eq_zero_of_le hstart,
              List.take_zero, List.zipIdx_nil, List.append_nil]
          · rw [hcut.start, streamStart_concat, min_eq_right hstart]
        next hstart =>
          rw [hlast.truncate_eq, Option.map_some]
          have htake : Text.IsAscii (last.content.take (n - last.offset)) :=
            fun c hc => hlast c (List.mem_of_mem_take hc)
          have hend' : ∀ c ∈ chunks, c.offset + c.len ≤ n :=
            fun c hc => (hbefore c hc).trans (Nat.le_of_not_le hstart)
          refine ⟨_, rfl, ⟨h.of_append.concat htake hbefore, ?_, ?_, ?_⟩⟩
          · rw [heldBytes_append, heldBytes_append, List.filter_append,
              heldBytes_filter_of_end_le h.of_append.ascii hend',
              heldBytes_singleton,
              heldBytes_singleton, ExecStreamChunk.bytes, ExecStreamChunk.bytes,
              filter_zipIdx_lt]
          · intro c hc
            rcases List.mem_append.1 hc with hc | hc
            · exact hend' c hc
            · rw [List.mem_singleton.1 hc, ExecStreamChunk.len_eq htake,
                List.length_take]
              simp only
              omega
          · rw [streamStart_concat, streamStart_concat]

/-! ## A chunk at the end -/

/-- A chunk at the end makes the stream longer by its bytes. -/
theorem pushExecChunk_spec {chunks : List ExecStreamChunk}
    (h : AsciiStream chunks)
    {chunk : ExecStreamChunk} (hascii : chunk.content.IsAscii)
    (hend : ∀ c ∈ chunks, c.offset + c.len ≤ chunk.offset) :
    ∃ before last, pushExecChunk chunks chunk = before ++ [last] ∧
      AsciiStream (before ++ [last]) ∧
      heldBytes (before ++ [last]) = heldBytes chunks ++ chunk.bytes ∧
      last.offset ≤ chunk.offset ∧
      last.offset + last.len = chunk.offset + chunk.len ∧
      streamStart (before ++ [last]) chunk.offset =
        streamStart chunks chunk.offset := by
  have hsnoc : ∃ before last, chunks ++ [chunk] = before ++ [last] ∧
      AsciiStream (before ++ [last]) ∧
      heldBytes (before ++ [last]) = heldBytes chunks ++ chunk.bytes ∧
      last.offset ≤ chunk.offset ∧
      last.offset + last.len = chunk.offset + chunk.len ∧
      streamStart (before ++ [last]) chunk.offset =
        streamStart chunks chunk.offset := by
    refine ⟨chunks, chunk, rfl, h.concat hascii hend, ?_, le_rfl, rfl, ?_⟩
    · rw [heldBytes_append, heldBytes_singleton]
    · rw [streamStart_concat, min_self]
  rw [pushExecChunk]
  cases hlast : chunks.getLast? with
  | none => exact hsnoc
  | some last =>
      simp only
      split
      next htouch =>
        obtain ⟨before, rfl⟩ := List.getLast?_eq_some_iff.1 hlast
        have hlen := hend last (by simp)
        have hend' : last.offset + last.len = chunk.offset := by
          have hmax := chunk.offset_le
          rw [htouch, ExecStreamChunk.endOffset, satAdd] at hlen hmax ⊢
          omega
        have hlastAscii : last.content.IsAscii := h.ascii last (by simp)
        have hjoined : Text.IsAscii (last.content ++ chunk.content) := by
          intro c hc
          exact (List.mem_append.1 hc).elim (hlastAscii c) (hascii c)
        rw [List.dropLast_concat]
        refine ⟨before, _, rfl, h.of_append.concat hjoined h.end_le_of_concat,
          ?_, ?_, ?_, ?_⟩
        · have hbytes : last.offset + last.content.length = chunk.offset := by
            rw [← ExecStreamChunk.len_eq hlastAscii, hend']
          rw [heldBytes_append, heldBytes_append, heldBytes_singleton,
            heldBytes_singleton,
            ExecStreamChunk.bytes, ExecStreamChunk.bytes, ExecStreamChunk.bytes,
            List.zipIdx_append, hbytes, List.append_assoc]
        · exact (Nat.le_add_right _ _).trans hlen
        · rw [← hend', ExecStreamChunk.len, Text.byteLen_append,
            ← Nat.add_assoc]
          rfl
        · rw [streamStart_concat, streamStart_concat]
      next => exact hsnoc

theorem retainedStreamLen_eq {before : List ExecStreamChunk}
    {last : ExecStreamChunk}
    (h : AsciiStream (before ++ [last])) {n : ℕ} (hn : last.offset ≤ n) :
    retainedStreamLen (before ++ [last]) =
      last.endOffset - streamStart (before ++ [last]) n := by
  have hlen : streamLen (before ++ [last]) = last.endOffset := by
    refine le_antisymm (streamLen_le_of_forall fun c hc => ?_)
      (endOffset_le_streamLen (by simp))
    rcases List.mem_append.1 hc with hc | hc
    · exact (satAdd_le _ _).trans
        ((h.end_le_of_concat c hc).trans last.offset_le_endOffset)
    · rw [List.mem_singleton.1 hc]
  have hle : ∀ c ∈ before ++ [last], c.offset ≤ n := by
    intro c hc
    rcases List.mem_append.1 hc with hc | hc
    · have hend := h.end_le_of_concat c hc
      omega
    · rw [List.mem_singleton.1 hc]
      exact hn
  rw [← hlen]
  generalize before ++ [last] = chunks at h hle
  cases chunks with
  | nil => simp [retainedStreamLen, streamLen]
  | cons first rest =>
      have hfirst : first.offset ≤ streamStart rest n := by
        refine le_foldr_min (fun offset hoffset => ?_) (hle first (by simp))
        obtain ⟨c, hc, rfl⟩ := List.mem_map.1 hoffset
        exact (Nat.le_add_right _ _).trans
          ((List.pairwise_cons.1 h.apart).1 c hc)
      have hstart : streamStart (first :: rest) n = first.offset :=
        min_eq_left hfirst
      rw [hstart, retainedStreamLen]

/-! ## The cut at the front -/

/-- Whole chunks are dropped as long as the bytes to drop reach over them. -/
theorem dropChunks_spec {chunks : List ExecStreamChunk}
    (hascii : ∀ chunk ∈ chunks, chunk.content.IsAscii) (n : ℕ) :
    ∃ dropped, chunks = dropped ++ (dropChunks chunks n).1 ∧
      n = (heldBytes dropped).length + (dropChunks chunks n).2 ∧
      ∀ first rest, (dropChunks chunks n).1 = first :: rest →
        (dropChunks chunks n).2 < first.len := by
  induction chunks generalizing n with
  | nil => exact ⟨[], rfl, (Nat.zero_add n).symm, nofun⟩
  | cons chunk rest ih =>
      rw [dropChunks]
      split
      next hwhole =>
        obtain ⟨dropped, hsplit, hbytes, hfirst⟩ :=
          ih (fun c hc => hascii c (List.mem_cons_of_mem chunk hc))
            (n - chunk.len)
        refine ⟨chunk :: dropped,
          by rw [List.cons_append, ← hsplit], ?_, hfirst⟩
        have hheld : (heldBytes (chunk :: dropped)).length =
            chunk.len + (heldBytes dropped).length := by
          rw [← ExecStreamChunk.length_bytes (hascii chunk List.mem_cons_self),
            ← List.length_append]
          rfl
        omega
      next hpart =>
        refine ⟨[], rfl, (Nat.zero_add n).symm, ?_⟩
        rintro first rest' hcons
        cases hcons
        exact Nat.lt_of_not_ge hpart

theorem zipIdx_drop {t : Text} {n : ℕ} (hn : n ≤ t.length) (k : ℕ) :
    (t.drop n).zipIdx (k + n) = (t.zipIdx k).drop n := by
  have hlen : (t.take n).length = n := by rw [List.length_take, min_eq_left hn]
  conv_rhs => rw [← List.take_append_drop n t, List.zipIdx_append]
  rw [List.drop_left' (by rw [List.length_zipIdx, hlen]), hlen]

/-- A chunk without its first bytes, where its new offset does not wrap. -/
theorem drainFirst_spec {first : ExecStreamChunk}
    (rest : List ExecStreamChunk) {part : ℕ}
    (hascii : first.content.IsAscii) (hlt : part < first.len)
    (hoffset : first.offset + part ≤ u64Max) :
    ∃ first', drainFirst part (first :: rest) = some (first' :: rest) ∧
      first'.content.IsAscii ∧ first'.bytes = first.bytes.drop part ∧
      first'.offset + first'.len = first.offset + first.len := by
  have hlen := ExecStreamChunk.len_eq hascii
  have hle : part ≤ first.content.length := hlt.le.trans_eq hlen
  rw [drainFirst]
  split
  next hzero =>
    rw [hzero, List.drop_zero]
    exact ⟨first, rfl, hascii, rfl, rfl⟩
  next =>
    have hmin : min part first.len = part := min_eq_left hlt.le
    simp only [hmin, satAdd_eq hoffset, hascii.drain_eq hle,
      Option.bind_eq_bind,
      Option.bind_some]
    refine ⟨_, rfl, fun c hc => hascii c (List.mem_of_mem_drop hc),
      zipIdx_drop hle _, ?_⟩
    have hascii' : Text.IsAscii (first.content.drop part) :=
      fun c hc => hascii c (List.mem_of_mem_drop hc)
    change first.offset + part + Text.byteLen (first.content.drop part) = _
    rw [hascii'.byteLen_eq, List.length_drop, hlen]
    omega

/-- The chunk that is cut does not reach the greatest offset, where the number
of dropped bytes does not. -/
theorem offset_add_part_le {dropped rest : List ExecStreamChunk}
    {first last : ExecStreamChunk}
    {before : List ExecStreamChunk} {drop part : ℕ}
    (hsplit : before ++ [last] = dropped ++ first :: rest)
    (hstay : AsciiStream (first :: rest))
    (hbytes : drop = (heldBytes dropped).length + part)
    (hlt : part < first.len)
    (hfits : drop < (heldBytes (before ++ [last])).length →
      last.offset + last.len + drop ≤
        u64Max + (heldBytes (before ++ [last])).length) :
    first.offset + part ≤ u64Max := by
  cases rest with
  | nil =>
      obtain ⟨-, hlast⟩ := List.append_inj' hsplit rfl
      cases hlast
      rw [hsplit, heldBytes_append, List.length_append, heldBytes_singleton,
        ExecStreamChunk.length_bytes
          (hstay.ascii _ List.mem_cons_self)] at hfits
      omega
  | cons second rest =>
      have hnext :=
        (List.pairwise_cons.1 hstay.apart).1 second List.mem_cons_self
      have hmax := second.offset_le
      omega

/-- The first bytes of a stream are dropped, where their number does not end at
an offset that wraps. -/
theorem pruneExecStream_held {before : List ExecStreamChunk}
    {last : ExecStreamChunk}
    (h : AsciiStream (before ++ [last])) {maxBytes drop : ℕ}
    (hdrop : drop = retainedStreamLen (before ++ [last]) - maxBytes)
    (hfits : drop < (heldBytes (before ++ [last])).length →
      last.offset + last.len + drop ≤
        u64Max + (heldBytes (before ++ [last])).length) :
    ∃ later, pruneExecStream (before ++ [last]) maxBytes = some later ∧
      AsciiStream later ∧
      heldBytes later = (heldBytes (before ++ [last])).drop drop ∧
      ∀ chunk ∈ later, chunk.offset + chunk.len ≤ last.offset + last.len := by
  have hend := h.end_le_end
  rw [pruneExecStream, ← hdrop]
  split
  next hle =>
    rw [Nat.sub_eq_zero_of_le hle] at hdrop
    rw [hdrop, List.drop_zero]
    exact ⟨_, rfl, h, rfl, hend⟩
  next =>
    obtain ⟨dropped, hsplit, hbytes, hfirst⟩ := dropChunks_spec h.ascii drop
    generalize dropChunks (before ++ [last]) drop =
      result at hsplit hbytes hfirst
    obtain ⟨stay, part⟩ := result
    simp only at hsplit hbytes hfirst
    have hheld : (heldBytes (before ++ [last])).drop drop =
        (heldBytes stay).drop part := by
      rw [hsplit, heldBytes_append, hbytes, List.drop_length_add_append]
    rw [hheld]
    cases stay with
    | nil => exact ⟨[], rfl, ⟨.nil, by simp⟩, by simp [heldBytes], by simp⟩
    | cons first rest =>
        have hlt : part < first.len := hfirst first rest rfl
        have hstay : AsciiStream (first :: rest) := (hsplit ▸ h).of_append_right
        have hend' : ∀ c ∈ first :: rest,
            c.offset + c.len ≤ last.offset + last.len :=
          fun c hc => hend c (hsplit ▸ List.mem_append_right _ hc)
        have hascii : first.content.IsAscii :=
          hstay.ascii first List.mem_cons_self
        have hoffset := offset_add_part_le hsplit hstay hbytes hlt hfits
        obtain ⟨first', hdrain, hascii', hheld', hlen⟩ :=
          drainFirst_spec rest hascii hlt hoffset
        refine ⟨_, hdrain, hstay.cons_of_end_eq hascii' hlen, ?_, ?_⟩
        · rw [heldBytes_cons, heldBytes_cons, hheld',
            List.drop_append_of_le_length]
          rw [ExecStreamChunk.length_bytes hascii]
          exact hlt.le
        · intro c hc
          rcases List.mem_cons.1 hc with rfl | hc
          · rw [hlen]
            exact hend' first List.mem_cons_self
          · exact hend' c (List.mem_cons_of_mem _ hc)

/-! ## A chunk more -/

/-- The span of a stream with a chunk more, from its least offset to the end of
the chunk. -/
def writtenSpan (chunks : List ExecStreamChunk) (chunk : ExecStreamChunk) : ℕ :=
  chunk.endOffset - streamStart chunks chunk.offset

/-- What the span is over the limit. -/
def writtenExcess (chunks : List ExecStreamChunk)
    (chunk : ExecStreamChunk) : ℕ :=
  writtenSpan chunks chunk - maxExecStreamRetainedBytes

/-- No offset stops at the greatest one: no chunk reaches over it that one at
it goes over, and no chunk is cut behind it. -/
structure NoWrap (chunks : List ExecStreamChunk) (chunk : ExecStreamChunk) :
    Prop where
  below : chunk.offset = u64Max → ∀ c ∈ chunks, c.offset + c.len ≤ u64Max
  drained : writtenExcess chunks chunk < (writtenBytes chunks chunk).length →
    chunk.offset + chunk.len + writtenExcess chunks chunk ≤
      u64Max + (writtenBytes chunks chunk).length

/-- The gaps leave room for the newest bytes of a chunk within the limit. -/
structure RoomFor (chunks : List ExecStreamChunk)
    (chunk : ExecStreamChunk) : Prop
    extends NoWrap chunks chunk where
  newest : 0 < chunk.len →
    writtenSpan chunks chunk + min maxExecStreamRetainedBytes chunk.len ≤
      maxExecStreamRetainedBytes + (writtenBytes chunks chunk).length

/-- What becomes of a stream that a chunk is appended to: its chunks are apart,
the positions from the chunk's offset on are the chunk's, only the oldest bytes
are dropped, and the newest ones of the chunk, as many as the limit lets it
have, are not. -/
structure KeepsNewest (chunks : List ExecStreamChunk) (chunk : ExecStreamChunk)
    (later : List ExecStreamChunk) : Prop where
  apart : Apart later
  latest : ∀ entry ∈ heldBytes later, chunk.offset ≤ entry.2 →
    entry ∈ chunk.bytes
  oldest : heldBytes later <:+ writtenBytes chunks chunk
  newest : chunk.bytes.drop (chunk.len - maxExecStreamRetainedBytes) <:+
    heldBytes later

theorem appendExecChunk_held {chunks : List ExecStreamChunk}
    (h : AsciiStream chunks)
    {chunk : ExecStreamChunk} (hascii : chunk.content.IsAscii)
    (hwrap : NoWrap chunks chunk) :
    ∃ later, appendExecChunk chunks chunk = some later ∧ AsciiStream later ∧
      heldBytes later =
        (writtenBytes chunks chunk).drop (writtenExcess chunks chunk) ∧
      ∀ c ∈ later, c.offset + c.len ≤ chunk.offset + chunk.len := by
  obtain ⟨kept, hkept, hcut⟩ :=
    truncateExecStream_cutAt h chunk.offset_le hwrap.below
  obtain ⟨before, last, hpush, hstream, hheld, hoffset, hend, hstart⟩ :=
    pushExecChunk_spec hcut.stream hascii hcut.end_le
  have hwritten : heldBytes (before ++ [last]) = writtenBytes chunks chunk := by
    rw [hheld, hcut.held, writtenBytes]
  have hlastEnd : last.endOffset = chunk.endOffset := by
    rw [ExecStreamChunk.endOffset, ExecStreamChunk.endOffset,
      satAdd, satAdd, hend]
  have hspan :
      retainedStreamLen (before ++ [last]) = writtenSpan chunks chunk := by
    rw [retainedStreamLen_eq hstream hoffset, hlastEnd, hstart,
      hcut.start, writtenSpan]
  have hdrained := hwrap.drained
  rw [← hwritten, ← hend] at hdrained
  obtain ⟨later, hprune, hlater, hlaterHeld, hends⟩ :=
    pruneExecStream_held hstream
      (congrArg (· - maxExecStreamRetainedBytes) hspan.symm) hdrained
  refine ⟨later, ?_, hlater, hwritten ▸ hlaterHeld, hend ▸ hends⟩
  rw [appendExecChunk, hkept, Option.bind_eq_bind, Option.bind_some,
    hpush, hprune]

/-- The bytes of a chunk that stay are its newest ones. -/
theorem drop_bytes_suffix_iff {chunks : List ExecStreamChunk}
    {chunk : ExecStreamChunk}
    (hascii : chunk.content.IsAscii) (hlen : 0 < chunk.len) :
    (chunk.bytes.drop (chunk.len - maxExecStreamRetainedBytes) <:+
        (writtenBytes chunks chunk).drop (writtenExcess chunks chunk)) ↔
      writtenSpan chunks chunk + min maxExecStreamRetainedBytes chunk.len ≤
        maxExecStreamRetainedBytes + (writtenBytes chunks chunk).length := by
  have hbytes := ExecStreamChunk.length_bytes hascii
  have hwritten : chunk.len ≤ (writtenBytes chunks chunk).length := by
    rw [writtenBytes, List.length_append, hbytes]
    exact Nat.le_add_left _ _
  have hmax : 0 < maxExecStreamRetainedBytes := by decide
  constructor
  · intro hsuffix
    have hle := hsuffix.length_le
    rw [List.length_drop, List.length_drop, hbytes, writtenExcess] at hle
    omega
  · intro hroom
    have hchunk : chunk.bytes.drop (chunk.len - maxExecStreamRetainedBytes) <:+
        writtenBytes chunks chunk :=
      (List.drop_suffix _ _).trans (List.suffix_append _ _)
    refine List.suffix_of_suffix_length_le hchunk (List.drop_suffix _ _) ?_
    rw [List.length_drop, List.length_drop, hbytes, writtenExcess]
    omega

theorem keepsNewest_of_held {chunks later : List ExecStreamChunk}
    {chunk : ExecStreamChunk}
    (hascii : chunk.content.IsAscii) (hroom : RoomFor chunks chunk)
    (hlater : AsciiStream later)
    (hheld : heldBytes later =
      (writtenBytes chunks chunk).drop (writtenExcess chunks chunk)) :
    KeepsNewest chunks chunk later := by
  have hsuffix : heldBytes later <:+ writtenBytes chunks chunk := by
    rw [hheld]
    exact List.drop_suffix _ _
  refine ⟨hlater.apart, fun entry hentry hle => ?_, hsuffix, ?_⟩
  · rcases List.mem_append.1 (hsuffix.subset hentry) with hold | hnew
    · have hlt := of_decide_eq_true (List.mem_filter.1 hold).2
      exact absurd hle (Nat.not_le.2 hlt)
    · exact hnew
  · rw [hheld]
    cases Nat.eq_zero_or_pos chunk.len with
    | inl hzero =>
        have hnil : chunk.bytes = [] := by
          rw [← List.length_eq_zero_iff,
            ExecStreamChunk.length_bytes hascii, hzero]
        rw [hnil, List.drop_nil]
        exact List.nil_suffix
    | inr hpos =>
        exact (drop_bytes_suffix_iff hascii hpos).2 (hroom.newest hpos)

/-! ## Every run -/

abbrev AsciiChunk := { chunk : ExecStreamChunk // chunk.content.IsAscii }

def appendAsciiChunk (chunks : List ExecStreamChunk) (chunk : AsciiChunk) :
    Option (List ExecStreamChunk) :=
  appendExecChunk chunks chunk.1

/-- Whatever the offsets are, every chunk keeps its newest bytes where the gaps
leave room for them, and for chunks with bytes within the offsets only there. -/
theorem keepsNewest_runs (chunks : List AsciiChunk) :
    (Admits appendAsciiChunk (fun s chunk => RoomFor s chunk.1) [] chunks →
      EveryStep appendAsciiChunk (fun s chunk t => KeepsNewest s chunk.1 t) []
        chunks) ∧
    ((∀ chunk ∈ chunks,
      0 < chunk.1.len ∧ chunk.1.offset + chunk.1.len ≤ u64Max) →
      (EveryStep appendAsciiChunk (fun s chunk t => KeepsNewest s chunk.1 t) []
        chunks ↔
        Admits appendAsciiChunk (fun s chunk => RoomFor s chunk.1) []
          chunks)) := by
  have hkeeps
      (h : Admits appendAsciiChunk (fun s chunk => RoomFor s chunk.1) []
        chunks) :
      EveryStep appendAsciiChunk (fun s chunk t => KeepsNewest s chunk.1 t)
        [] chunks := by
    refine h.everyStep (P := AsciiStream) (fun s chunk hs hroom => ?_) ⟨.nil,
      by simp⟩
    obtain ⟨later, happend, hlater, hheld, -⟩ :=
      appendExecChunk_held hs chunk.2 hroom.toNoWrap
    exact ⟨later, happend,
      keepsNewest_of_held chunk.2 hroom hlater hheld, hlater⟩
  refine ⟨hkeeps, fun hchunks => ⟨fun h => ?_, hkeeps⟩⟩
  refine h.admits (P := fun s => AsciiStream s ∧ ∀ c ∈ s,
    c.offset + c.len ≤ u64Max)
    (fun s chunk t hs hchunk happend hnewest => ?_) ⟨⟨.nil, by simp⟩,
      by simp⟩ hchunks
  have hwrap : NoWrap s chunk.1 := ⟨fun _ => hs.2, fun hlt => by omega⟩
  obtain ⟨later, happend', hlater, hheld, hends⟩ :=
    appendExecChunk_held hs.1 chunk.2 hwrap
  cases happend.symm.trans happend'
  refine ⟨⟨hwrap, fun hpos => ?_⟩, hlater,
    fun c hc => (hends c hc).trans hchunk.2⟩
  have hsuffix := hnewest.newest
  rw [hheld] at hsuffix
  exact (drop_bytes_suffix_iff chunk.2 hpos).1 hsuffix

def letterChunk (offset : ℕ) (hoffset : offset ≤ u64Max) (letter : Char)
    (hletter : Text.IsAscii [letter]) : AsciiChunk :=
  ⟨{ offset, content := [letter], offset_le := hoffset }, hletter⟩

/-- A chunk behind a wide gap is dropped together with what is before it. -/
theorem not_keepsNewest_behindGap :
    ¬ ∀ chunks : List AsciiChunk,
      EveryStep appendAsciiChunk (fun s chunk t => KeepsNewest s chunk.1 t)
        [] chunks := by
  intro h
  obtain ⟨first, hfirst, -, second, hsecond, hnewest, -⟩ :=
    h [letterChunk 0 (by decide) 'a' (by decide),
      letterChunk (100 * 1024 * 1024) (by decide) 'b' (by decide)]
  have hone : appendAsciiChunk [] (letterChunk 0 (by decide) 'a' (by decide)) =
      some [(letterChunk 0 (by decide) 'a' (by decide)).1] := by decide
  cases hone.symm.trans hfirst
  have hnone : appendAsciiChunk [(letterChunk 0 (by decide) 'a' (by decide)).1]
      (letterChunk (100 * 1024 * 1024) (by decide) 'b' (by decide)) =
      some [] := by
    decide
  cases hnone.symm.trans hsecond
  exact absurd (List.suffix_nil.1 hnewest.newest) (by decide)

end CodeRs.History
