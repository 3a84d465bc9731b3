import CodeRs.History.Record
import CodeRs.Lib.Runs
import CodeRs.Lib.Utf8

/-!
# Streams in offset order

The chunks of a stream are in order when each one ends before the next begins.
Appending and pruning keep the order, and pruning a stream in order never makes
it retain more.
-/

namespace CodeRs.History

namespace ExecStreamChunk

theorem offset_le_endOffset (chunk : ExecStreamChunk) :
    chunk.offset ≤ chunk.endOffset :=
  le_min (Nat.le_add_right _ _) chunk.offset_le

end ExecStreamChunk

/-- Each chunk ends before the next one begins. -/
def Ordered (chunks : List ExecStreamChunk) : Prop :=
  chunks.Pairwise fun a b => a.endOffset ≤ b.offset

/-! ## Lengths -/

theorem endOffset_le_streamLen {chunks : List ExecStreamChunk}
    {chunk : ExecStreamChunk} (h : chunk ∈ chunks) :
    chunk.endOffset ≤ streamLen chunks :=
  le_foldr_max (List.mem_map_of_mem h)

theorem streamLen_le_of_forall {chunks : List ExecStreamChunk} {n : ℕ}
    (h : ∀ chunk ∈ chunks, chunk.endOffset ≤ n) : streamLen chunks ≤ n := by
  refine foldr_max_le fun a ha => ?_
  obtain ⟨chunk, hmem, rfl⟩ := List.mem_map.mp ha
  exact h chunk hmem

/-! ## Truncation -/

/-- The chunks that survive a truncation end at the cut and stay in order. -/
theorem truncateExecStreamRev_spec {rev kept : List ExecStreamChunk} {n : ℕ}
    (hord : rev.Pairwise fun b a => a.endOffset ≤ b.offset)
    (h : truncateExecStreamRev rev n = some kept) :
    (kept.Pairwise fun b a => a.endOffset ≤ b.offset) ∧
      ∀ chunk ∈ kept, chunk.endOffset ≤ n := by
  induction rev with
  | nil =>
      simp only [truncateExecStreamRev, Option.some.injEq] at h
      subst h
      exact ⟨.nil, by simp⟩
  | cons last rest ih =>
      obtain ⟨hlast, hrest⟩ := List.pairwise_cons.mp hord
      rw [truncateExecStreamRev] at h
      split at h
      · rename_i hend
        simp only [Option.some.injEq] at h
        subst h
        refine ⟨hord, fun chunk hmem => ?_⟩
        rcases List.mem_cons.mp hmem with rfl | hmem
        · exact hend
        · exact (hlast chunk hmem).trans (last.offset_le_endOffset.trans hend)
      · split at h
        · exact ih hrest h
        · rename_i hstart
          simp only [Option.bind_eq_bind, Option.bind_eq_some_iff,
            Option.some.injEq] at h
          obtain ⟨content, hcontent, rfl⟩ := h
          refine ⟨List.pairwise_cons.mpr ⟨hlast, hrest⟩, fun chunk hmem => ?_⟩
          rcases List.mem_cons.mp hmem with rfl | hmem
          · have hlen := Text.byteLen_truncate hcontent
            refine (satAdd_le _ _).trans ?_
            simp only [ExecStreamChunk.len]
            omega
          · exact (hlast chunk hmem).trans (by omega)

theorem truncateExecStream_spec {chunks kept : List ExecStreamChunk} {n : ℕ}
    (hord : Ordered chunks) (h : truncateExecStream chunks n = some kept) :
    Ordered kept ∧ ∀ chunk ∈ kept, chunk.endOffset ≤ n := by
  rw [truncateExecStream, Option.map_eq_some_iff] at h
  obtain ⟨rev, hrev, rfl⟩ := h
  obtain ⟨hpair, hend⟩ := truncateExecStreamRev_spec
    (List.pairwise_reverse.mpr hord) hrev
  exact ⟨List.pairwise_reverse.mpr hpair, by simpa using hend⟩

/-! ## Appending -/

theorem pushExecChunk_ordered {chunks : List ExecStreamChunk}
    {chunk : ExecStreamChunk} (hord : Ordered chunks)
    (hend : ∀ c ∈ chunks, c.endOffset ≤ chunk.offset) :
    Ordered (pushExecChunk chunks chunk) := by
  have hsnoc : Ordered (chunks ++ [chunk]) :=
    List.pairwise_append.mpr ⟨hord, List.pairwise_singleton _ _,
      by simpa using hend⟩
  rw [pushExecChunk]
  cases hlast : chunks.getLast? with
  | none => exact hsnoc
  | some last =>
      by_cases htouch : chunk.offset = last.endOffset
      · simp only [htouch, if_true]
        have hsplit : chunks.dropLast ++ [last] = chunks :=
          List.dropLast_append_getLast? last hlast
        rw [Ordered, ← hsplit, List.pairwise_append] at hord
        exact List.pairwise_append.mpr
          ⟨hord.1, List.pairwise_singleton _ _, by simpa using hord.2.2⟩
      · simp only [htouch, if_false]
        exact hsnoc

/-! ## Pruning -/

theorem dropChunks_suffix (chunks : List ExecStreamChunk) (n : ℕ) :
    (dropChunks chunks n).1 <:+ chunks := by
  induction chunks generalizing n with
  | nil => exact List.suffix_refl _
  | cons chunk rest ih =>
      rw [dropChunks]
      split
      · exact (ih _).trans (List.suffix_cons chunk rest)
      · exact List.suffix_refl _

theorem drainFirst_cons {first : ExecStreamChunk}
    {rest kept : List ExecStreamChunk}
    {n : ℕ} (h : drainFirst n (first :: rest) = some kept) :
    ∃ first', kept = first' :: rest ∧ first.offset ≤ first'.offset ∧
      first'.endOffset = first.endOffset := by
  rw [drainFirst] at h
  split at h
  · simp only [Option.some.injEq] at h
    exact ⟨first, h.symm, le_rfl, rfl⟩
  · simp only [Option.bind_eq_bind, Option.bind_eq_some_iff,
      Option.some.injEq] at h
    obtain ⟨content, hcontent, rfl⟩ := h
    have hlen := Text.byteLen_drain hcontent
    refine ⟨_, rfl, le_min (Nat.le_add_right _ _) first.offset_le, ?_⟩
    simp only [ExecStreamChunk.endOffset, ExecStreamChunk.len, satAdd] at hlen ⊢
    omega

/-- Pruning leaves a suffix whose first chunk may start later. -/
theorem pruneExecStream_cases {chunks kept : List ExecStreamChunk} {n : ℕ}
    (h : pruneExecStream chunks n = some kept) :
    kept = chunks ∨ kept = [] ∨
      ∃ first first' rest, (first :: rest) <:+ chunks ∧ kept = first' :: rest ∧
        first.offset ≤ first'.offset ∧ first'.endOffset = first.endOffset := by
  rw [pruneExecStream] at h
  split at h
  · exact Or.inl (by simpa using h.symm)
  · dsimp only at h
    have hsuffix := dropChunks_suffix chunks (retainedStreamLen chunks - n)
    cases hdrop : (dropChunks chunks (retainedStreamLen chunks - n)).1 with
    | nil =>
        rw [hdrop, drainFirst, Option.some.injEq] at h
        exact Or.inr (Or.inl h.symm)
    | cons first rest =>
        rw [hdrop] at h hsuffix
        obtain ⟨first', hkept, hoffset, hend⟩ := drainFirst_cons h
        exact Or.inr (Or.inr ⟨first, first', rest, hsuffix, hkept,
          hoffset, hend⟩)

theorem pruneExecStream_ordered {chunks kept : List ExecStreamChunk} {n : ℕ}
    (hord : Ordered chunks) (h : pruneExecStream chunks n = some kept) :
    Ordered kept := by
  rcases pruneExecStream_cases h with rfl | rfl |
    ⟨first, first', rest, hsuffix, rfl, _, hend⟩
  · exact hord
  · exact .nil
  · have hkept := List.pairwise_cons.mp (hord.sublist hsuffix.sublist)
    exact List.pairwise_cons.mpr ⟨fun b hb => hend ▸ hkept.1 b hb, hkept.2⟩

/-- Pruning a stream in order never makes it retain more. -/
theorem retainedStreamLen_prune_le {chunks kept : List ExecStreamChunk} {n : ℕ}
    (hord : Ordered chunks) (h : pruneExecStream chunks n = some kept) :
    retainedStreamLen kept ≤ retainedStreamLen chunks := by
  rcases pruneExecStream_cases h with rfl | rfl |
    ⟨first, first', rest, hsuffix, rfl, hoffset, hend⟩
  · exact le_rfl
  · exact Nat.zero_le _
  · have hlen : streamLen (first' :: rest) ≤ streamLen chunks := by
      refine streamLen_le_of_forall fun chunk hmem => ?_
      rcases List.mem_cons.mp hmem with rfl | hmem
      · rw [hend]
        exact endOffset_le_streamLen (hsuffix.subset List.mem_cons_self)
      · exact endOffset_le_streamLen
          (hsuffix.subset (List.mem_cons_of_mem _ hmem))
    have hstart : ∀ head tail, chunks = head :: tail →
        head.offset ≤ first.offset := by
      rintro head tail rfl
      rcases List.mem_cons.mp (hsuffix.subset List.mem_cons_self) with
        rfl | hmem
      · exact le_rfl
      · exact head.offset_le_endOffset.trans
          ((List.pairwise_cons.mp hord).1 first hmem)
    cases chunks with
    | nil => exact absurd hsuffix (by simp)
    | cons head tail =>
        have hhead := hstart head tail rfl
        simp only [retainedStreamLen]
        omega

theorem appendExecChunk?_ordered {chunks kept : List ExecStreamChunk}
    {chunk : Option ExecStreamChunk} (hord : Ordered chunks)
    (h : appendExecChunk? chunks chunk = some kept) : Ordered kept := by
  cases chunk with
  | none =>
      simp only [appendExecChunk?, Option.some.injEq] at h
      exact h ▸ hord
  | some chunk =>
      simp only [appendExecChunk?, appendExecChunk, Option.bind_eq_bind,
        Option.bind_eq_some_iff] at h
      obtain ⟨truncated, htruncated, hpruned⟩ := h
      obtain ⟨hord', hend⟩ := truncateExecStream_spec hord htruncated
      exact pruneExecStream_ordered (pushExecChunk_ordered hord' hend) hpruned

end CodeRs.History

/-! ## Where exec streams are cut

An exec stream is cut at the offset of a chunk that goes over it, and at its
front once it is too long.  Neither place is moved to the end of a character,
as it is for the text of an assistant stream, so a run of calls fails exactly
where one of them is inside a character. -/

namespace CodeRs.History

/-! ## The two cuts -/

/-- The last chunk that ends by an offset or begins before it. -/
def lastReached (chunks : List ExecStreamChunk) (offset : ℕ) :
    Option ExecStreamChunk :=
  chunks.reverse.find? fun chunk =>
    decide (chunk.endOffset ≤ offset) || decide (chunk.offset < offset)

/-- An offset is not inside a character of the chunk it falls into. -/
def OffsetWhole (chunks : List ExecStreamChunk) (offset : ℕ) : Prop :=
  ∀ chunk, lastReached chunks offset = some chunk → offset < chunk.endOffset →
    chunk.content.IsBoundary (offset - chunk.offset)

def streamText (chunks : List ExecStreamChunk) : Text :=
  chunks.flatMap ExecStreamChunk.content

/-- The bytes over the limit do not end inside a character of the stream. -/
def PruneWhole (chunks : List ExecStreamChunk) (maxBytes : ℕ) : Prop :=
  retainedStreamLen chunks - maxBytes < (streamText chunks).byteLen →
    (streamText chunks).IsBoundary (retainedStreamLen chunks - maxBytes)

theorem isSome_truncateExecStreamRev_iff (rev : List ExecStreamChunk)
    (offset : ℕ) :
    (truncateExecStreamRev rev offset).isSome ↔
      OffsetWhole rev.reverse offset := by
  rw [OffsetWhole, lastReached, List.reverse_reverse]
  induction rev with
  | nil => simp [truncateExecStreamRev]
  | cons last rest ih =>
      rw [truncateExecStreamRev]
      split
      next hend => simp [hend, Nat.not_lt.2 hend]
      next hend =>
        split
        next hstart =>
          rw [List.find?_cons_of_neg (by simp; omega)]
          exact ih
        next hstart =>
          rw [List.find?_cons_of_pos (by simp; omega)]
          have hlen : offset - last.offset ≤ last.content.byteLen := by
            have hle : last.endOffset ≤ last.offset + last.len := satAdd_le _ _
            simp only [ExecStreamChunk.len] at hle
            omega
          have hlast :
              (∀ chunk, some last = some chunk → offset < chunk.endOffset →
              chunk.content.IsBoundary (offset - chunk.offset)) ↔
                last.content.IsBoundary (offset - last.offset) := by
            simp [Nat.lt_of_not_ge hend]
          rw [hlast, ← Text.isSome_truncate_iff hlen]
          cases last.content.truncate (offset - last.offset) <;> rfl

theorem isSome_truncateExecStream_iff (chunks : List ExecStreamChunk)
    (offset : ℕ) :
    (truncateExecStream chunks offset).isSome ↔ OffsetWhole chunks offset := by
  rw [truncateExecStream, Option.isSome_map, isSome_truncateExecStreamRev_iff,
    List.reverse_reverse]

theorem isSome_drainFirst_dropChunks_iff
    (chunks : List ExecStreamChunk) (n : ℕ) :
    (drainFirst (dropChunks chunks n).2 (dropChunks chunks n).1).isSome ↔
      (n < (streamText chunks).byteLen → (streamText chunks).IsBoundary n) := by
  induction chunks generalizing n with
  | nil => simp [dropChunks, drainFirst, streamText]
  | cons chunk rest ih =>
      have htext :
          streamText (chunk :: rest) = chunk.content ++ streamText rest := rfl
      rw [dropChunks, htext, Text.byteLen_append]
      split
      next hwhole =>
        obtain ⟨k, rfl⟩ := Nat.exists_eq_add_of_le hwhole
        rw [Nat.add_sub_cancel_left, ih]
        simp only [ExecStreamChunk.len, Nat.add_lt_add_iff_left,
          Text.isBoundary_append_right]
      next hpart =>
        have hlt : n < chunk.content.byteLen := Nat.lt_of_not_ge hpart
        have hbytes :
            n < chunk.content.byteLen + (streamText rest).byteLen := by omega
        rw [Text.isBoundary_append_left _ hlt.le,
          ← Text.isSome_drain_iff, drainFirst]
        split
        next hzero =>
          simp only [show n = 0 from hzero, Text.drain_zero]
          simp
        next =>
          have hmin : min n chunk.len = n := min_eq_left hlt.le
          simp only [hmin, hbytes, forall_true_left]
          cases chunk.content.drain n <;> rfl

theorem isSome_pruneExecStream_iff (chunks : List ExecStreamChunk)
    (maxBytes : ℕ) :
    (pruneExecStream chunks maxBytes).isSome ↔ PruneWhole chunks maxBytes := by
  rw [pruneExecStream, PruneWhole]
  split
  next hfits =>
    rw [Nat.sub_eq_zero_of_le hfits]
    exact ⟨fun _ _ => ⟨[], _, rfl, rfl⟩, fun _ => rfl⟩
  next => exact isSome_drainFirst_dropChunks_iff _ _

/-! ## Every run -/

/-- The steps of the calls on an exec stream. -/
inductive StreamCut where
  | truncate (offset : ℕ)
  | push (chunk : ExecStreamChunk)
  | prune (maxBytes : ℕ)

namespace StreamCut

def run (chunks : List ExecStreamChunk) :
    StreamCut → Option (List ExecStreamChunk)
  | .truncate offset => truncateExecStream chunks offset
  | .push chunk => some (pushExecChunk chunks chunk)
  | .prune maxBytes => pruneExecStream chunks maxBytes

/-- The step cuts the stream between two characters, if it cuts it. -/
def Whole (chunks : List ExecStreamChunk) : StreamCut → Prop
  | .truncate offset => OffsetWhole chunks offset
  | .push _ => True
  | .prune maxBytes => PruneWhole chunks maxBytes

theorem isSome_run_iff (chunks : List ExecStreamChunk) (cut : StreamCut) :
    (cut.run chunks).isSome ↔ cut.Whole chunks := by
  cases cut with
  | truncate offset => exact isSome_truncateExecStream_iff chunks offset
  | push chunk => exact ⟨fun _ => trivial, fun _ => rfl⟩
  | prune maxBytes => exact isSome_pruneExecStream_iff chunks maxBytes

end StreamCut

/-- A call on an exec stream: a chunk more, or one of the two cuts on its own,
as the limit over all records makes it. -/
inductive StreamCall where
  | append (chunk : ExecStreamChunk)
  | truncate (offset : ℕ)
  | prune (maxBytes : ℕ)

namespace StreamCall

def run (chunks : List ExecStreamChunk) :
    StreamCall → Option (List ExecStreamChunk)
  | .append chunk => appendExecChunk chunks chunk
  | .truncate offset => truncateExecStream chunks offset
  | .prune maxBytes => pruneExecStream chunks maxBytes

/-- The steps of a call. -/
def cuts : StreamCall → List StreamCut
  | .append chunk =>
      [.truncate chunk.offset, .push chunk, .prune maxExecStreamRetainedBytes]
  | .truncate offset => [.truncate offset]
  | .prune maxBytes => [.prune maxBytes]

theorem run_eq_foldlM_cuts (chunks : List ExecStreamChunk) (call : StreamCall) :
    call.run chunks = call.cuts.foldlM StreamCut.run chunks := by
  cases call <;> simp [run, cuts, StreamCut.run, appendExecChunk]

theorem foldlM_run_eq (chunks : List ExecStreamChunk)
    (calls : List StreamCall) :
    calls.foldlM run chunks =
      (calls.flatMap cuts).foldlM StreamCut.run chunks := by
  induction calls generalizing chunks with
  | nil => rfl
  | cons call rest ih =>
      rw [List.foldlM_cons, List.flatMap_cons, List.foldlM_append,
        run_eq_foldlM_cuts]
      congr 1
      funext chunks
      exact ih chunks

end StreamCall

/-- Calls on an exec stream cut no character exactly if no chunk's offset is
inside a character of the chunk it falls into and the bytes over a limit never
end inside one. -/
theorem isSome_streamCalls_iff (chunks : List ExecStreamChunk)
    (calls : List StreamCall) :
    (calls.foldlM StreamCall.run chunks).isSome ↔
      Admits StreamCut.run StreamCut.Whole chunks
        (calls.flatMap StreamCall.cuts) := by
  rw [StreamCall.foldlM_run_eq]
  exact isSome_foldlM_iff_admits StreamCut.isSome_run_iff chunks _

/-- A chunk that goes over the second byte of a character. -/
theorem not_isSome_streamCalls_intoCharacter :
    ¬ ∀ chunks calls, (List.foldlM StreamCall.run chunks calls).isSome := by
  intro h
  have hrun := h []
    [.append { offset := 0, content := ['é'], offset_le := by decide },
      .append { offset := 1, content := ['x'], offset_le := by decide }]
  exact absurd hrun (by decide)

end CodeRs.History
