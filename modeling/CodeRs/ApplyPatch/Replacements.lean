import CodeRs.ApplyPatch.Derive
import CodeRs.ApplyPatch.SeekSequence
import CodeRs.Lib.Substitution

/-!
# The replacements of an update

`compute_replacements` locates each chunk from where the one before it ended,
but for chunks that are to be found at the end of the file, and for chunks
without old lines, which always go to the end.  Where these two kinds keep out
of the lines that other chunks replace, no two replacements overlap, and
`apply_replacements` is the simultaneous substitution.
-/

namespace CodeRs.ApplyPatch

/-! ## Applying replacements -/

namespace Replacement

/-- The line behind the replaced ones. -/
def stop (r : Replacement) : ℕ := r.startIdx + r.oldLen

/-- The replacement as that of a range of a list. -/
def splice (r : Replacement) : Splice Text where
  start := r.startIdx
  len := r.oldLen
  items := r.newLines

theorem startIdx_le_stop (r : Replacement) : r.startIdx ≤ r.stop :=
  Nat.le_add_right _ _

@[simp] theorem splice_start (r : Replacement) :
    r.splice.start = r.startIdx := rfl
@[simp] theorem splice_stop (r : Replacement) : r.splice.stop = r.stop := rfl
@[simp] theorem splice_items (r : Replacement) :
    r.splice.items = r.newLines := rfl

end Replacement

theorem insertLines_eq (before segment after : List Text) :
    insertLines before.length segment (before ++ after) =
      some (before ++ segment ++ after) := by
  induction segment generalizing before with
  | nil => rw [insertLines, List.append_nil]
  | cons line segment ih =>
      have hnext := ih (before ++ [line])
      rw [List.length_append, List.length_singleton,
        ← List.append_cons] at hnext
      rw [insertLines, if_pos (by simp), insertIdx_append_length, hnext,
        ← List.append_cons]

theorem applyReplacement_eq {r : Replacement} {lines : List Text}
    (h : r.startIdx ≤ lines.length) :
    applyReplacement lines r = some (r.splice.apply lines) := by
  have hlen : (lines.take r.startIdx).length = r.startIdx := by
    rw [List.length_take, min_eq_left h]
  have herase :=
    iterate_eraseIdx_append_length (lines.take r.startIdx)
      (lines.drop r.startIdx)
      r.oldLen
  have hinsert := insertLines_eq (lines.take r.startIdx) r.newLines
    ((lines.drop r.startIdx).drop r.oldLen)
  rw [List.take_append_drop, hlen] at herase
  rw [hlen] at hinsert
  rw [applyReplacement, herase, hinsert, List.drop_drop]
  rfl

/-- Replacements in order within the file are applied without a panic. -/
theorem applyReplacements_eq {replacements : List Replacement}
    {lines : List Text}
    (hsorted : replacements.Pairwise fun a b => a.startIdx ≤ b.startIdx)
    (hstart : ∀ r ∈ replacements, r.startIdx ≤ lines.length) :
    applyReplacements lines replacements =
      some (Splice.applyAll (replacements.map Replacement.splice) lines) := by
  induction replacements with
  | nil => rfl
  | cons r rest ih =>
      obtain ⟨hfirst, hrest⟩ := List.pairwise_cons.1 hsorted
      have happly := ih hrest fun x hx => hstart x (List.mem_cons_of_mem r hx)
      have hlen : r.startIdx ≤
          (Splice.applyAll (rest.map Replacement.splice) lines).length := by
        refine (Splice.take_applyAll (fun s hs => ?_)
          (hstart r List.mem_cons_self)).2
        obtain ⟨x, hx, rfl⟩ := List.mem_map.1 hs
        exact hfirst x hx
      rw [applyReplacements] at happly ⊢
      rw [List.reverse_cons, List.foldlM_append, happly]
      simp [applyReplacement_eq hlen]

/-- Replacements within the file that do not reach into later ones are made as
if at once. -/
theorem applyAll_splice_eq {replacements : List Replacement} {lines : List Text}
    (hsep : replacements.Pairwise fun a b => a.stop ≤ b.startIdx)
    (hbound : ∀ r ∈ replacements, r.stop ≤ lines.length) :
    Splice.applyAll (replacements.map Replacement.splice) lines =
      Splice.substitute lines 0 (replacements.map Replacement.splice) := by
  refine Splice.applyAll_eq_substitute (List.pairwise_map.2 hsep) fun s hs => ?_
  obtain ⟨r, hr, rfl⟩ := List.mem_map.1 hs
  exact hbound r hr

/-- Replacements that are sorted by their start, in bounds and do not overlap
are applied without a panic, and what comes of it is the reference
substitution: the gaps between them are copied, and each one's new lines are
inserted in order. -/
theorem applyReplacements_of_sorted {replacements : List Replacement}
    {lines : List Text}
    (hsorted : replacements.Pairwise fun a b => a.startIdx ≤ b.startIdx)
    (hbound : ∀ r ∈ replacements, r.startIdx + r.oldLen ≤ lines.length)
    (hsep : replacements.Pairwise
      fun a b => a.startIdx + a.oldLen ≤ b.startIdx) :
    applyReplacements lines replacements =
      some
        (Splice.substitute lines 0 (replacements.map Replacement.splice)) := by
  have hstart : ∀ r ∈ replacements, r.startIdx ≤ lines.length := fun r hr =>
    r.startIdx_le_stop.trans (hbound r hr)
  rw [applyReplacements_eq hsorted hstart, applyAll_splice_eq hsep hbound]

/-- An insertion, a replacement that grows and one that deletes to the end. -/
theorem applyReplacements_insert_grow_delete :
    applyReplacements ["a".toList, "b".toList, "c".toList, "d".toList]
        [⟨0, 0, ["x".toList]⟩, ⟨1, 1, ["y".toList, "z".toList]⟩, ⟨3, 1, []⟩] =
      some ["x".toList, "a".toList, "y".toList, "z".toList, "c".toList] :=
  applyReplacements_of_sorted (by decide) (by decide) (by decide)

/-! ## Where chunks are located -/

/-- A pattern is found in the file, from the start on or at the end, and one
without lines at the start. -/
theorem seekSequence_bounds {lines pattern : List Text}
    {start i : ℕ} {eof : Bool}
    (h : seekSequence lines pattern start eof = some i)
    (hstart : start ≤ lines.length) :
    i + pattern.length ≤ lines.length ∧
      (start ≤ i ∨ (eof = true ∧ i + pattern.length = lines.length)) := by
  by_cases hne : pattern = []
  · rw [seekSequence, if_pos hne] at h
    cases h
    rw [hne]
    exact ⟨hstart, .inl le_rfl⟩
  · have hle : pattern.length ≤ lines.length := by
      by_contra hlt
      rw [seekSequence, if_neg hne, if_pos (Nat.lt_of_not_le hlt)] at h
      cases h
    rw [seekSequence_eq hne hle] at h
    obtain ⟨hi, -, _, _, _, _, hmatch, -⟩ := seekLevels_eq_some hne h
    have hend := hmatch.add_length_le hne
    refine ⟨hend, ?_⟩
    cases eof with
    | false => exact .inl hi
    | true =>
        refine .inr ⟨rfl, ?_⟩
        rw [if_pos rfl] at hi
        omega

/-- The line that additions go before. -/
def insertionIdx (lines : List Text) : ℕ :=
  if endsEmpty lines then lines.length - 1 else lines.length

theorem insertionIdx_le (lines : List Text) :
    insertionIdx lines ≤ lines.length := by
  rw [insertionIdx]
  split
  · exact Nat.sub_le _ _
  · exact le_rfl

/-- The lines that a replacement brings are those of its chunk, but for an
empty last line that stands for the end of the file. -/
def Brings (chunk : UpdateFileChunk) (found : Replacement) : Prop :=
  found.newLines = chunk.newLines.map normalizeLineEnding ∨
    chunk.newLines.map normalizeLineEnding = found.newLines ++ [[]]

/-- Where a chunk is located from a line on: it replaces its old lines there or
at the end of the file, or has none and goes to the end. -/
structure Located (lines : List Text) (lineIndex : ℕ) (chunk : UpdateFileChunk)
    (found : Replacement) : Prop where
  stop_le : found.stop ≤ lines.length
  brings : Brings chunk found
  replaces : chunk.oldLines ≠ [] →
    lineIndex ≤ found.startIdx ∨
      (chunk.isEndOfFile = true ∧ found.stop = lines.length)
  adds : chunk.oldLines = [] →
    found.oldLen = 0 ∧ found.startIdx = insertionIdx lines

theorem Located.mono {lines : List Text} {lineIndex lineIndex' : ℕ}
    {chunk : UpdateFileChunk}
    {found : Replacement} (h : Located lines lineIndex' chunk found)
    (hle : lineIndex ≤ lineIndex') : Located lines lineIndex chunk found :=
  ⟨h.stop_le, h.brings,
    fun hold => (h.replaces hold).imp_left hle.trans, h.adds⟩

theorem Located.stop_eq {lines : List Text} {lineIndex : ℕ}
    {chunk : UpdateFileChunk}
    {found : Replacement} (h : Located lines lineIndex chunk found)
    (hadd : chunk.oldLines = []) :
    found.stop = found.startIdx := by
  rw [Replacement.stop, (h.adds hadd).1, Nat.add_zero]

theorem seekContext_bounds {lines : List Text} {path : Path}
    {lineIndex next : ℕ}
    {ctx : Option Text} (h : seekContext lines path lineIndex ctx = .ok next)
    (hline : lineIndex ≤ lines.length) :
    lineIndex ≤ next ∧ next ≤ lines.length := by
  cases ctx with
  | none =>
      cases h
      exact ⟨le_rfl, hline⟩
  | some ctxLine =>
      rw [seekContext] at h
      split at h
      next idx hidx =>
        cases h
        obtain ⟨hend, hstart⟩ := seekSequence_bounds hidx hline
        rw [List.length_singleton] at hend
        simp only [Bool.false_eq_true, false_and, or_false] at hstart
        exact ⟨by omega, hend⟩
      next => cases h

theorem endsEmpty_iff {lines : List Text} :
    endsEmpty lines = true ↔ ∃ before, lines = before ++ [[]] := by
  rw [endsEmpty, decide_eq_true_eq, List.getLast?_eq_some_iff]

theorem seekOldLines_bounds {lines oldLines newLines : List Text}
    {lineIndex : ℕ} {eof : Bool}
    {found : Replacement}
    (h : seekOldLines lines oldLines newLines lineIndex eof = some found)
    (hline : lineIndex ≤ lines.length) :
    found.stop ≤ lines.length ∧
      (found.newLines = newLines ∨ newLines = found.newLines ++ [[]]) ∧
      (lineIndex ≤ found.startIdx ∨
        (eof = true ∧ found.stop = lines.length)) := by
  rw [seekOldLines] at h
  split at h
  next startIdx hstart =>
    cases h
    obtain ⟨hend, hbounds⟩ := seekSequence_bounds hstart hline
    exact ⟨hend, .inl rfl, hbounds⟩
  next =>
    split at h
    next =>
      obtain ⟨startIdx, hstart, rfl⟩ := Option.map_eq_some_iff.1 h
      obtain ⟨hend, hbounds⟩ := seekSequence_bounds hstart hline
      refine ⟨hend, ?_, hbounds⟩
      dsimp only
      split
      next hempty =>
        obtain ⟨before, rfl⟩ := endsEmpty_iff.1 hempty
        exact .inr (by rw [List.dropLast_concat])
      next => exact .inl rfl
    next => cases h

theorem chunkReplacement_located {lines : List Text} {path : Path}
    {lineIndex next : ℕ}
    {chunk : UpdateFileChunk} {found : Replacement}
    (h : chunkReplacement lines path lineIndex chunk = .ok (found, next))
    (hline : lineIndex ≤ lines.length) :
    Located lines lineIndex chunk found ∧ lineIndex ≤ next ∧
      next ≤ lines.length ∧
      (chunk.oldLines ≠ [] → found.stop ≤ next) := by
  rw [chunkReplacement] at h
  obtain ⟨line, hctx, h⟩ := bind_eq_ok.1 h
  obtain ⟨hle, hend⟩ := seekContext_bounds hctx hline
  by_cases hold : chunk.oldLines = []
  · simp only [if_pos hold] at h
    cases h
    refine ⟨⟨insertionIdx_le lines, .inl rfl, fun hne => absurd hold hne,
      fun _ => ⟨rfl, rfl⟩⟩,
      hle, hend, fun hne => absurd hold hne⟩
  · simp only [if_neg hold] at h
    cases hfound : seekOldLines lines (chunk.oldLines.map normalizeLineEnding)
        (chunk.newLines.map normalizeLineEnding) line chunk.isEndOfFile with
    | none =>
        rw [hfound] at h
        cases h
    | some r =>
        rw [hfound] at h
        cases h
        obtain ⟨hstop, hbrings, hbounds⟩ := seekOldLines_bounds hfound hend
        have hnext : lineIndex ≤ found.stop := by
          have hstart := found.startIdx_le_stop
          omega
        exact ⟨⟨hstop, hbrings, fun _ => hbounds.imp_left hle.trans,
          fun hnil => absurd hnil hold⟩,
          hnext, hstop, fun _ => le_rfl⟩

abbrev LocatedChunk := UpdateFileChunk × Replacement

/-- A chunk with old lines is located behind one before it, unless it is to be
found at the end of the file. -/
def Follows (lines : List Text) (a b : LocatedChunk) : Prop :=
  a.1.oldLines ≠ [] → b.1.oldLines ≠ [] →
    a.2.stop ≤ b.2.startIdx ∨ (b.1.isEndOfFile = true ∧ b.2.stop = lines.length)

theorem chunkReplacements_located {lines : List Text} {path : Path}
    {lineIndex : ℕ}
    {chunks : List UpdateFileChunk} {found : List Replacement}
    (h : chunkReplacements lines path lineIndex chunks = .ok found)
    (hline : lineIndex ≤ lines.length) :
    found.length = chunks.length ∧
      (∀ p ∈ chunks.zip found, Located lines lineIndex p.1 p.2) ∧
      (chunks.zip found).Pairwise (Follows lines) := by
  induction chunks generalizing lineIndex found with
  | nil =>
      cases h
      exact ⟨rfl, by simp, .nil⟩
  | cons chunk rest ih =>
      rw [chunkReplacements] at h
      obtain ⟨⟨r, next⟩, hr, h⟩ := bind_eq_ok.1 h
      obtain ⟨later, hlater, h⟩ := bind_eq_ok.1 h
      cases h
      obtain ⟨hlocated, hle, hend, hstop⟩ := chunkReplacement_located hr hline
      obtain ⟨hlength, hall, hpairs⟩ := ih hlater hend
      refine ⟨congrArg (· + 1) hlength, ?_, ?_⟩
      · intro p hp
        rcases List.mem_cons.1 hp with rfl | hp
        · exact hlocated
        · exact (hall p hp).mono hle
      · refine List.pairwise_cons.2 ⟨fun p hp hold hold' => ?_, hpairs⟩
        exact ((hall p hp).replaces hold').imp_left (hstop hold).trans

/-! ## Replacements that do not overlap -/

/-- A chunk and a later one keep out of each other's lines: one that is found
at the end of the file does not begin before the other's end, and an addition
does not go between the other's lines, nor to where they begin if it is the
later one. -/
structure KeepsApart (a b : LocatedChunk) : Prop where
  atEnd : a.1.oldLines ≠ [] → b.1.oldLines ≠ [] → b.1.isEndOfFile = true →
    a.2.stop ≤ b.2.startIdx
  addedLater : a.1.oldLines ≠ [] → b.1.oldLines = [] →
    a.2.stop ≤ b.2.startIdx ∨ b.2.startIdx < a.2.startIdx
  addedEarlier : a.1.oldLines = [] →
    b.2.stop ≤ a.2.startIdx ∨ a.2.startIdx ≤ b.2.startIdx

theorem KeepsApart.disjoint {lines : List Text} {a b : LocatedChunk}
    (h : KeepsApart a b)
    (ha : Located lines 0 a.1 a.2) (hb : Located lines 0 b.1 b.2)
    (hfollows : Follows lines a b) :
    a.2.stop ≤ b.2.startIdx ∨
      (b.2.stop ≤ a.2.startIdx ∧ b.2.startIdx < a.2.startIdx) := by
  by_cases hadd : a.1.oldLines = []
  · have hstop := ha.stop_eq hadd
    have hle := b.2.startIdx_le_stop
    have hcases := h.addedEarlier hadd
    omega
  · by_cases hadd' : b.1.oldLines = []
    · have hstop := hb.stop_eq hadd'
      have hcases := h.addedLater hadd hadd'
      omega
    · rcases hfollows hadd hadd' with hstop | ⟨heof, -⟩
      · exact .inl hstop
      · exact .inl (h.atEnd hadd hadd' heof)

theorem pairwise_of_zip {R : Replacement → Replacement → Prop}
    {chunks : List UpdateFileChunk}
    {found : List Replacement} (hlength : found.length = chunks.length)
    (h : (chunks.zip found).Pairwise
      fun a b => R a.2 b.2) : found.Pairwise R := by
  rw [← List.pairwise_map, List.map_snd_zip hlength.le] at h
  exact h

theorem computeReplacements_eq {lines : List Text} {path : Path}
    {chunks : List UpdateFileChunk} {replacements : List Replacement}
    (h : computeReplacements lines path chunks = .ok replacements) :
    ∃ found, chunkReplacements lines path 0 chunks = .ok found ∧
      replacements = found.insertionSort fun a b =>
        a.startIdx ≤ b.startIdx := by
  obtain ⟨found, hfound, hsort⟩ := map_eq_ok.1 h
  exact ⟨found, hfound, hsort.symm⟩

theorem sorted_computeReplacements {lines : List Text} {path : Path}
    {chunks : List UpdateFileChunk} {replacements : List Replacement}
    (h : computeReplacements lines path chunks = .ok replacements) :
    replacements.Pairwise fun a b => a.startIdx ≤ b.startIdx := by
  obtain ⟨found, -, rfl⟩ := computeReplacements_eq h
  exact List.pairwise_insertionSort _ found

theorem stop_le_computeReplacements {lines : List Text} {path : Path}
    {chunks : List UpdateFileChunk} {replacements : List Replacement}
    (h : computeReplacements lines path chunks = .ok replacements) :
    ∀ r ∈ replacements, r.stop ≤ lines.length := by
  obtain ⟨found, hfound, rfl⟩ := computeReplacements_eq h
  obtain ⟨hlength, hlocated, -⟩ :=
    chunkReplacements_located hfound (Nat.zero_le _)
  intro r hr
  rw [List.mem_insertionSort, ← List.map_snd_zip hlength.le] at hr
  obtain ⟨p, hp, rfl⟩ := List.mem_map.1 hr
  exact (hlocated p hp).stop_le

/-- The replacements are within the file and in order.  Unless a chunk that is
found at the end of the file, or an addition, goes into the lines that another
chunk replaces, they do not overlap, applying them is the simultaneous
substitution, so the new lines of every chunk come into the file, and each
chunk with old lines is behind the ones before it. -/
theorem computeReplacements_spec {lines : List Text} {path : Path}
    {chunks : List UpdateFileChunk} {replacements : List Replacement}
    (h : computeReplacements lines path chunks = .ok replacements) :
    ∃ found, chunkReplacements lines path 0 chunks = .ok found ∧
      found.length = chunks.length ∧ replacements.Perm found ∧
      (∀ r ∈ replacements, r.startIdx + r.oldLen ≤ lines.length) ∧
      (replacements.Pairwise fun a b => a.startIdx ≤ b.startIdx) ∧
      (∀ p ∈ chunks.zip found, Brings p.1 p.2 ∧
        (p.1.oldLines = [] →
          p.2.oldLen = 0 ∧ p.2.startIdx = insertionIdx lines)) ∧
      ((chunks.zip found).Pairwise KeepsApart →
        (replacements.Pairwise fun a b => a.startIdx + a.oldLen ≤ b.startIdx) ∧
        (∃ result, applyReplacements lines replacements = some result ∧
          result =
            Splice.substitute lines 0 (replacements.map Replacement.splice) ∧
          ∀ r ∈ found, r.newLines <:+: result) ∧
        (chunks.zip found).Pairwise fun a b =>
          a.1.oldLines ≠ [] → b.1.oldLines ≠ [] →
          a.2.startIdx + a.2.oldLen ≤ b.2.startIdx) := by
  have hsorted := sorted_computeReplacements h
  have hbound := stop_le_computeReplacements h
  obtain ⟨found, hfound, rfl⟩ := computeReplacements_eq h
  obtain ⟨hlength, hlocated, hfollows⟩ :=
    chunkReplacements_located hfound (Nat.zero_le _)
  refine ⟨found, hfound, hlength, List.perm_insertionSort _ _, hbound, hsorted,
    fun p hp => ⟨(hlocated p hp).brings, (hlocated p hp).adds⟩,
    fun hapart => ?_⟩
  have hpairs : found.Pairwise fun a b => True → True →
      a.stop ≤ b.startIdx ∨
        (b.stop ≤ a.startIdx ∧ b.startIdx < a.startIdx) := by
    refine pairwise_of_zip hlength ?_
    refine (hapart.and hfollows).imp_of_mem fun ha hb hab _ _ => ?_
    exact hab.1.disjoint (hlocated _ ha) (hlocated _ hb) hab.2
  have hsep : (found.insertionSort fun a b => a.startIdx ≤ b.startIdx).Pairwise
      fun a b => a.stop ≤ b.startIdx :=
    (pairwise_insertionSort_start Replacement.startIdx_le_stop hpairs).imp
      fun hab => hab trivial trivial
  refine ⟨hsep, ⟨_, applyReplacements_eq hsorted fun r hr =>
    r.startIdx_le_stop.trans (hbound r hr), ?_⟩, ?_⟩
  · have hsubst := applyAll_splice_eq hsep hbound
    refine ⟨hsubst, fun r hr => ?_⟩
    have hmem : r ∈ found.insertionSort fun a b => a.startIdx ≤ b.startIdx := by
      rwa [List.mem_insertionSort]
    rw [hsubst]
    exact Splice.items_infix_substitute (s := r.splice)
      (List.mem_map_of_mem hmem) 0
  · refine (hapart.and hfollows).imp fun hab hold hold' => ?_
    rcases hab.2 hold hold' with hstop | ⟨heof, -⟩
    · exact hstop
    · exact hab.1.atEnd hold hold' heof

def threeLines : List Text := ["a".toList, "b".toList, "c".toList]

/-- A chunk that only adds, and one that replaces the two last of the lines. -/
def addThenReplace : List UpdateFileChunk :=
  [⟨none, [], ["x".toList], false⟩,
    ⟨none, ["b".toList, "c".toList], ["y".toList], false⟩]

/-- The addition comes behind the replaced lines. -/
theorem computeReplacements_addThenReplace :
    ∃ replacements result,
      computeReplacements threeLines (.relative ["f"]) addThenReplace =
        .ok replacements ∧
      (replacements.Pairwise fun a b => a.startIdx + a.oldLen ≤ b.startIdx) ∧
      applyReplacements threeLines replacements = some result ∧
      result = ["a".toList, "y".toList, "x".toList] := by
  obtain ⟨found, hfound, -, -, -, -, -, hspec⟩ :=
    @computeReplacements_spec threeLines (.relative ["f"]) addThenReplace _ rfl
  cases hfound
  have hapart :
      (addThenReplace.zip [⟨3, 0, ["x".toList]⟩, ⟨1, 2, ["y".toList]⟩]).Pairwise
      KeepsApart := by
    refine List.pairwise_pair.2 ⟨fun h => absurd rfl h,
      fun h => absurd rfl h, fun _ => ?_⟩
    exact .inl (by decide)
  obtain ⟨hsep, ⟨result, hresult, hsubst, -⟩, -⟩ := hspec hapart
  exact ⟨_, result, rfl, hsep, hresult, hsubst.trans rfl⟩

/-- A chunk that only adds is applied behind the chunk that follows it. -/
theorem not_behind_addThenReplace :
    ¬ ∀ (lines : List Text) (path : Path) (chunks : List UpdateFileChunk)
      (found : List Replacement),
        chunkReplacements lines path 0 chunks = .ok found →
      found.Pairwise fun a b => a.startIdx + a.oldLen ≤ b.startIdx := by
  intro h
  have hbehind := h threeLines (.relative ["f"]) addThenReplace _ rfl
  exact absurd (List.pairwise_pair.1 hbehind) (by decide)

end CodeRs.ApplyPatch
