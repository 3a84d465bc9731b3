import CodeRs.ApplyPatch.Replacements
import CodeRs.Lib.Lines

/-!
# Lines that no chunk replaces

A file is split at its line feeds, its line ending is taken from the whole of
it, and the new lines are joined with that.  A line that is in no replaced
range stays, behind what the replacements before it make of the lines before
it, and ends as the file does.
-/

namespace CodeRs.ApplyPatch

/-- The line is in no replaced range. -/
def Untouched (replacements : List Replacement) (i : ℕ) : Prop :=
  ∀ r ∈ replacements, ¬ (r.startIdx ≤ i ∧ i < r.startIdx + r.oldLen)

instance (replacements : List Replacement) (i : ℕ) :
    Decidable (Untouched replacements i) :=
  inferInstanceAs (Decidable (∀ r ∈ replacements,
    ¬ (r.startIdx ≤ i ∧ i < r.startIdx + r.oldLen)))

/-! ## The lines behind which an untouched one stays -/

theorem insertionIdx_ge (lines : List Text) :
    lines.length ≤ insertionIdx lines + 1 := by
  rw [insertionIdx]
  split <;> omega

theorem pairwise_stop_le {lines : List Text} {path : Path}
    {chunks : List UpdateFileChunk}
    {replacements : List Replacement} {i : ℕ}
    (h : computeReplacements lines path chunks = .ok replacements)
    (hi : i < lines.length) :
    replacements.Pairwise fun a b =>
      a.stop ≤ i → b.stop ≤ i → a.stop ≤ b.startIdx := by
  obtain ⟨found, hfound, rfl⟩ := computeReplacements_eq h
  obtain ⟨hlength, hlocated, hfollows⟩ :=
    chunkReplacements_located hfound (Nat.zero_le _)
  refine pairwise_insertionSort_start Replacement.startIdx_le_stop
    (pairwise_of_zip hlength ?_)
  refine hfollows.imp_of_mem fun {a b} ha hb hab hstop hstop' => ?_
  have hins := insertionIdx_ge lines
  have hle := a.2.startIdx_le_stop
  have hle' := b.2.startIdx_le_stop
  by_cases hadd : a.1.oldLines = []
  · -- An addition that ends by the line goes before it, and the line is the
    -- last one.
    have hends := (hlocated a ha).stop_eq hadd
    have hstart := ((hlocated a ha).adds hadd).2
    omega
  · by_cases hadd' : b.1.oldLines = []
    · have hends := (hlocated b hb).stop_eq hadd'
      have hstart := ((hlocated b hb).adds hadd').2
      omega
    · rcases hab hadd hadd' with hbehind | ⟨-, hend⟩
      · exact .inl hbehind
      · omega

theorem applyReplacements_untouched {before later : List Text}
    {line : Text} {path : Path}
    {chunks : List UpdateFileChunk} {replacements : List Replacement}
    (h : computeReplacements (before ++ line :: later) path chunks =
      .ok replacements)
    (huntouched : Untouched replacements before.length) :
    ∃ front back,
      applyReplacements before (replacements.filter
        fun r => r.stop ≤ before.length) =
        some front ∧
      applyReplacements (before ++ line :: later) replacements =
        some (front ++ line :: back) := by
  have hsorted := sorted_computeReplacements h
  have hbound := stop_le_computeReplacements h
  have hlength : before.length < (before ++ line :: later).length := by simp
  have hoff : ∀ s ∈ replacements.map Replacement.splice,
      s.stop ≤ before.length ∨ before.length < s.start := by
    intro s hs
    obtain ⟨r, hr, rfl⟩ := List.mem_map.1 hs
    have hnot := huntouched r hr
    simp only [Replacement.splice_stop, Replacement.splice_start,
      Replacement.stop]
    omega
  have hmap :
      (replacements.map Replacement.splice).filter (fun s => s.stop ≤
        before.length) =
      (replacements.filter fun r => r.stop ≤
        before.length).map Replacement.splice := by
    rw [List.filter_map]
    rfl
  have hstop : ∀ r ∈ replacements.filter fun r => r.stop ≤ before.length,
      r.stop ≤ before.length :=
    fun r hr => of_decide_eq_true (List.mem_filter.1 hr).2
  have hsep : (replacements.filter fun r => r.stop ≤ before.length).Pairwise
      fun a b => a.stop ≤ b.startIdx :=
    ((pairwise_stop_le h hlength).filter _).imp_of_mem fun ha hb hab =>
      hab (hstop _ ha) (hstop _ hb)
  obtain ⟨back, hback⟩ :=
    Splice.applyAll_at line later (List.pairwise_map.2 hsorted) hoff
      (by rw [hmap]; exact List.pairwise_map.2 hsep)
  rw [hmap] at hback
  refine ⟨_, back, applyReplacements_eq (hsorted.filter _) fun r hr => ?_, ?_⟩
  · exact r.startIdx_le_stop.trans (hstop r hr)
  · rw [applyReplacements_eq hsorted
      fun r hr => r.startIdx_le_stop.trans (hbound r hr), hback]

/-! ## Lines and their ends -/

theorem normalizeLineEnding_eq (line : Text) :
    normalizeLineEnding line = Text.stripCarriageReturn line := rfl

/-- The text of a line with its end is that line of the file, but for a
carriage return alone at the end of the file. -/
theorem getElem?_fileLines {contents raw : Text} {i : ℕ}
    (h : (Text.rawLines contents)[i]? = some raw) (hraw : raw ≠ ['\r']) :
    (fileLines contents)[i]? = some (Text.lineText raw) := by
  obtain ⟨segments, last, hsplit, hlast, -, hrawLines⟩ :=
    Text.exists_segments contents
  have hlines : fileLines contents = segments.map normalizeLineEnding ++
      if normalizeLineEnding last = [] then []
        else [normalizeLineEnding last] := by
    rw [fileLines, hsplit, List.map_append, List.map_singleton, endsEmpty,
      List.getLast?_concat]
    by_cases hempty : normalizeLineEnding last = []
    · simp [hempty]
    · simp [hempty]
  rw [hrawLines] at h
  rw [hlines]
  by_cases hi : i < segments.length
  · rw [List.getElem?_append_left (by rwa [List.length_map]),
      List.getElem?_map] at h ⊢
    obtain ⟨segment, hsegment, rfl⟩ := Option.map_eq_some_iff.1 h
    rw [hsegment, Option.map_some, Text.lineText_concat, normalizeLineEnding_eq]
  · rw [List.getElem?_append_right (by rw [List.length_map]; omega),
      List.length_map] at h ⊢
    split at h
    next => cases h
    next hne =>
      obtain ⟨hzero, rfl⟩ : i - segments.length = 0 ∧ last = raw := by
        simpa [List.getElem?_singleton] using h
      have hnormal : normalizeLineEnding last ≠ [] := by
        rw [normalizeLineEnding]
        split
        next hreturn =>
          obtain ⟨before, rfl⟩ := List.getLast?_eq_some_iff.1 hreturn
          rintro hdrop
          rw [List.dropLast_concat] at hdrop
          rw [hdrop] at hraw
          exact hraw rfl
        next => exact hne
      rw [if_neg hnormal, hzero, Text.lineText_of_notMem hlast,
        normalizeLineEnding_eq]
      rfl

theorem containsCrlf_append (before after : Text) :
    containsCrlf (before ++ '\r' :: '\n' :: after) = true := by
  induction before with
  | nil => rfl
  | cons c before ih =>
      rw [List.cons_append]
      unfold containsCrlf
      split
      next => rfl
      next heq =>
        cases heq
        exact ih
      next heq => cases heq

theorem containsCrlf_of_mem_rawLines {contents raw : Text}
    (hraw : raw ∈ Text.rawLines contents)
    (hend : ['\r', '\n'] <:+ raw) : containsCrlf contents = true := by
  have hinfix := List.infix_of_mem_flatten hraw
  rw [Text.flatten_rawLines] at hinfix
  obtain ⟨before, after, rfl⟩ := hend.isInfix.trans hinfix
  rw [List.append_assoc]
  exact containsCrlf_append before after

/-- A line that ends as the file does is its text and the file's line ending. -/
theorem lineText_append_joiner {contents raw : Text}
    (hraw : raw ∈ Text.rawLines contents)
    (hfeed : raw.getLast? = some '\n')
    (hcrlf : containsCrlf contents = true → ['\r', '\n'] <:+ raw) :
    Text.lineText raw ++ (LineEnding.detect contents).joiner = raw := by
  rw [LineEnding.detect]
  split
  next hcontains =>
    obtain ⟨line, rfl⟩ := hcrlf hcontains
    rw [List.append_cons, Text.lineText_concat, Text.stripCarriageReturn_concat]
    rw [List.append_assoc]
    rfl
  next hcontains =>
    obtain ⟨line, rfl⟩ := List.getLast?_eq_some_iff.1 hfeed
    have hline : line.getLast? ≠ some '\r' := by
      intro hreturn
      obtain ⟨before, rfl⟩ := List.getLast?_eq_some_iff.1 hreturn
      exact hcontains (containsCrlf_of_mem_rawLines hraw ⟨before, by simp⟩)
    rw [Text.lineText_concat, Text.stripCarriageReturn, if_neg hline]
    rfl

/-! ## The new contents -/

theorem deriveNewContents_eq_ok {path : Path} {contents new : Text}
    {chunks : List UpdateFileChunk}
    (h : deriveNewContents path contents chunks = .ok new) :
    ∃ replacements newLines,
      computeReplacements (fileLines contents) path chunks = .ok replacements ∧
      applyReplacements (fileLines contents) replacements = some newLines ∧
      new = (LineEnding.detect contents).joiner.intercalate
        (if endsEmpty newLines then newLines else newLines ++ [[]]) := by
  obtain ⟨replacements, hreplacements, h⟩ := bind_eq_ok.1 h
  refine ⟨replacements, ?_⟩
  cases hnew : applyReplacements (fileLines contents) replacements with
  | none =>
      rw [hnew] at h
      cases h
  | some newLines =>
      rw [hnew] at h
      cases h
      exact ⟨newLines, mapError_eq_ok.1 hreplacements, rfl, rfl⟩

/-- A line is followed by the separator, unless it is an empty one at the
end. -/
theorem intercalate_line (sep : Text) (front back : List Text) {line : Text}
    (h : line ≠ [] ∨ back ≠ []) :
    ∃ rest, sep.intercalate (if endsEmpty (front ++ line :: back) then
      front ++ line :: back
        else front ++ line :: back ++ [[]]) =
      front.flatMap (· ++ sep) ++ (line ++ sep) ++ rest := by
  split
  next hempty =>
    have hback : back ≠ [] := by
      refine h.elim (fun hline hnil => hline ?_) id
      rw [hnil, endsEmpty, List.getLast?_concat] at hempty
      simpa using hempty
    obtain ⟨before, last, rfl⟩ : ∃ before last, back = before ++ [last] :=
      ⟨_, _, (List.dropLast_append_getLast hback).symm⟩
    refine ⟨before.flatMap (· ++ sep) ++ last, ?_⟩
    rw [← List.cons_append, ← List.append_assoc, Text.intercalate_concat]
    simp
  next =>
    refine ⟨back.flatMap (· ++ sep), ?_⟩
    rw [Text.intercalate_concat]
    simp

/-- A line that is in no replaced range stays, behind what the replacements
before it make of the lines before it.  Its text is followed by the line ending
of the file, unless it is an empty one behind which no line remains.  This is
the line itself if it ends as the file does. -/
theorem deriveNewContents_untouched {path : Path} {contents new : Text}
    {chunks : List UpdateFileChunk}
    (h : deriveNewContents path contents chunks = .ok new) :
    ∃ replacements newLines,
      computeReplacements (fileLines contents) path chunks = .ok replacements ∧
      applyReplacements (fileLines contents) replacements = some newLines ∧
      ∀ (i : ℕ) (raw : Text), (Text.rawLines contents)[i]? = some raw →
      raw ≠ ['\r'] →
        Untouched replacements i →
        ∃ front back,
          applyReplacements ((fileLines contents).take i)
            (replacements.filter fun r => r.startIdx + r.oldLen ≤ i) =
            some front ∧
          newLines = front ++ Text.lineText raw :: back ∧
          (Text.lineText raw ≠ [] ∨ back ≠ [] → ∃ rest,
            new = front.flatMap (· ++ (LineEnding.detect contents).joiner) ++
              (Text.lineText raw ++ (LineEnding.detect contents).joiner) ++
              rest) ∧
          (raw.getLast? = some '\n' →
            (containsCrlf contents = true → ['\r', '\n'] <:+ raw) →
            Text.lineText raw ++ (LineEnding.detect contents).joiner = raw) ∧
          (raw.getLast? ≠ some '\n' → raw.getLast? ≠ some '\r' →
            Text.lineText raw = raw) := by
  obtain ⟨replacements, newLines, hcompute, happly, hnew⟩ :=
    deriveNewContents_eq_ok h
  refine ⟨replacements, newLines, hcompute, happly,
    fun i raw hraw hreturn huntouched => ?_⟩
  have hmem := List.mem_of_getElem? hraw
  have hline := getElem?_fileLines hraw hreturn
  obtain ⟨hi, hget⟩ := List.getElem?_eq_some_iff.1 hline
  have hsplit : fileLines contents = (fileLines contents).take i ++
      Text.lineText raw :: (fileLines contents).drop (i + 1) := by
    rw [← hget, List.getElem_cons_drop, List.take_append_drop]
  have hlen : ((fileLines contents).take i).length = i := by
    rw [List.length_take, min_eq_left hi.le]
  rw [hsplit] at hcompute happly
  obtain ⟨front, back, hfront, hall⟩ :=
    applyReplacements_untouched hcompute (by rwa [hlen])
  rw [hlen] at hfront
  rw [hall, Option.some.injEq] at happly
  refine ⟨front, back, hfront, happly.symm, fun hne => ?_,
    lineText_append_joiner hmem,
    fun hfeed hcarriage => ?_⟩
  · rw [hnew, ← happly]
    exact intercalate_line _ front back hne
  · rw [Text.lineText, if_neg hfeed, Text.stripCarriageReturn, if_neg hcarriage]

/-- A chunk that replaces the line `a`. -/
def replaceA : List UpdateFileChunk :=
  [⟨none, ["a".toList], ["x".toList], false⟩]

/-- The line behind the replaced one stays. -/
theorem deriveNewContents_replaceA :
    ∃ new rest, deriveNewContents (.relative ["f"]) "a\nb\n".toList replaceA =
      .ok new ∧
      new = "x\n".toList ++ "b\n".toList ++ rest := by
  obtain ⟨replacements, newLines, hcompute, -, hline⟩ :=
    @deriveNewContents_untouched (.relative ["f"]) "a\nb\n".toList
      _ replaceA rfl
  cases hcompute
  obtain ⟨front, back, hfront, -, hnew, -⟩ :=
    hline 1 "b\n".toList rfl (by decide) (by decide)
  cases hfront
  obtain ⟨rest, hrest⟩ := hnew (.inl (by decide))
  exact ⟨_, rest, rfl, hrest⟩

/-- In a file with both line endings a line that no chunk touches gets the
other one. -/
theorem not_untouched_mixedEndings :
    ¬ ∀ (path : Path) (contents new : Text) (chunks : List UpdateFileChunk)
      (replacements : List Replacement),
        deriveNewContents path contents chunks = .ok new →
      computeReplacements (fileLines contents) path chunks = .ok replacements →
      ∀ (i : ℕ) (raw : Text), (Text.rawLines contents)[i]? = some raw →
        Untouched replacements i → raw <:+: new := by
  intro h
  have hinfix :=
    h (.relative ["f"]) "a\r\nb\n".toList _ replaceA _ rfl rfl 1
      "b\n".toList rfl
      (by decide)
  exact absurd hinfix (by decide)

end CodeRs.ApplyPatch
