import CodeRs.ApplyPatch.Reading

/-!
# The round trip of a patch

A patch that the grammar renders, alone or in a heredoc, is parsed into the
hunks it was rendered from exactly where no update without its first context
line starts with a line of white space.
-/

namespace CodeRs.ApplyPatch

/-! ## The lines of a patch -/

theorem isLine_append (marker : Text) {text : Text} (hmarker : '\n' ∉ marker)
    (htext : Text.IsLine text) (hlast : marker.getLast? ≠ some '\r') :
    Text.IsLine (marker ++ text) := by
  refine ⟨?_, ?_⟩
  · rw [List.mem_append, not_or]
    exact ⟨hmarker, htext.noLineFeed⟩
  · rw [List.getLast?_append]
    cases hc : text.getLast? with
    | none => exact hlast
    | some c =>
        intro hreturn
        refine htext.noCarriageReturn ?_
        rw [hc, ← hreturn]
        rfl

theorem GrammarHunk.IsPath.isLine {path : Text} (h : IsPath path) :
    Text.IsLine path := by
  refine ⟨h.noLineFeed, fun hreturn => ?_⟩
  have hws := Text.getLast_of_trim_eq h.trimmed hreturn
  exact absurd hws (by decide)

theorem isLine_render {line : ChangeLine} (h : Text.IsLine line.text) :
    Text.IsLine line.render := by
  cases line with
  | context text => exact isLine_append [' '] (by decide) h (by decide)
  | add text => exact isLine_append ['+'] (by decide) h (by decide)
  | remove text => exact isLine_append ['-'] (by decide) h (by decide)

theorem isLine_change {change : Change} (h : GrammarHunk.ChangeValid change) :
    ∀ line ∈ change.render, Text.IsLine line := by
  intro line hline
  rw [Change.render, Change.body, List.mem_cons, List.mem_append] at hline
  rcases hline with rfl | hmem | heof
  · rw [Change.header]
    cases hcontext : change.context with
    | none => exact ⟨by decide, by decide⟩
    | some context =>
        exact isLine_append _ (by decide)
          (h.context context hcontext) (by decide)
  · obtain ⟨other, hother, rfl⟩ := List.mem_map.1 hmem
    exact isLine_render (h.lines other hother)
  · split at heof
    · rw [List.mem_singleton.1 heof]
      exact ⟨by decide, by decide⟩
    · cases heof

theorem isLine_hunk {hunk : GrammarHunk} (h : hunk.Valid) :
    ∀ line ∈ hunk.render, Text.IsLine line := by
  intro line hline
  cases hunk with
  | add path lines =>
      rcases List.mem_cons.1 hline with rfl | hmem
      · exact isLine_append _ (by decide) h.1.isLine (by decide)
      · obtain ⟨text, htext, rfl⟩ := List.mem_map.1 hmem
        exact isLine_append ['+'] (by decide) (h.2 text htext) (by decide)
  | delete path =>
      rw [List.mem_singleton.1 hline]
      exact isLine_append _ (by decide) h.isLine (by decide)
  | update path move headless first rest =>
      obtain ⟨hpath, hmove, hchanges⟩ := h
      rw [GrammarHunk.render, List.mem_append, List.mem_append,
        List.mem_cons] at hline
      rcases hline with ((rfl | hmem) | hmem) | hmem
      · exact isLine_append _ (by decide) hpath.isLine (by decide)
      · rw [GrammarHunk.renderMove, Option.mem_toList,
          Option.map_eq_some_iff] at hmem
        obtain ⟨target, htarget, rfl⟩ := hmem
        exact isLine_append _ (by decide)
          (hmove target htarget).isLine (by decide)
      · refine isLine_change (hchanges first List.mem_cons_self) line ?_
        rw [GrammarHunk.renderFirst] at hmem
        split at hmem
        · exact List.mem_cons_of_mem _ hmem
        · exact hmem
      · obtain ⟨change, hchange, hmem⟩ := List.mem_flatMap.1 hmem
        exact isLine_change (hchanges change (List.mem_cons_of_mem _ hchange))
          line hmem

theorem isLine_renderPatch {hunks : List GrammarHunk}
    (h : ∀ hunk ∈ hunks, hunk.Valid) :
    ∀ line ∈ beginPatchMarker :: hunks.flatMap GrammarHunk.render,
      Text.IsLine line := by
  intro line hline
  rcases List.mem_cons.1 hline with rfl | hmem
  · exact ⟨by decide, by decide⟩
  · obtain ⟨hunk, hhunk, hmem⟩ := List.mem_flatMap.1 hmem
    exact isLine_hunk (h hunk hhunk) line hmem

/-! ## The text of a patch -/

/-- The lines of a text that starts and ends with something else than white
space. -/
theorem lines_trim_intercalate (ls : List Text) (last : Text)
    (first end_ : Char)
    (hls : ∀ line ∈ ls, Text.IsLine line) (hfeed : '\n' ∉ last)
    (hhead : (Text.unlines ls ++ last).head? = some first)
    (hfirst : Text.isWhitespace first = false)
    (hlast : last.getLast? = some end_) (hend : Text.isWhitespace end_ = false)
    (newline : Bool) :
    Text.lines (Text.trim (['\n'].intercalate (ls ++ [last]) ++
        if newline then ['\n'] else [])) = ls ++ [last] := by
  have hne : last ≠ [] := by
    rintro rfl
    cases hlast
  have htrim :
      Text.trim (Text.unlines ls ++ last) = Text.unlines ls ++ last := by
    refine Text.trim_eq_self hhead hfirst ?_ hend
    rw [List.getLast?_append, hlast]
    rfl
  have hread : Text.lines (Text.unlines ls ++ last) = ls ++ [last] := by
    rw [Text.lines_unlines_append hls, Text.lines_last hfeed hne]
  rw [Text.intercalate_concat, ← Text.unlines]
  cases newline with
  | false =>
      rw [if_neg Bool.false_ne_true, List.append_nil, htrim, hread]
  | true =>
      rw [if_pos rfl, Text.trim_append_whitespace, htrim, hread]
      · exact List.append_ne_nil_of_right_ne_nil _ hne
      · intro c hc
        rw [hhead, Option.some.injEq] at hc
        rw [← hc, hfirst]
      · decide

theorem isLine_opening {opening : Text} (h : opening ∈ heredocOpenings) :
    Text.IsLine opening := by
  have hall : ∀ opening ∈ heredocOpenings,
      '\n' ∉ opening ∧ opening.getLast? ≠ some '\r' := by decide
  exact ⟨(hall opening h).1, (hall opening h).2⟩

theorem head_opening {opening : Text} (h : opening ∈ heredocOpenings) :
    opening.head? = some '<' := by
  have hall : ∀ opening ∈ heredocOpenings, opening.head? = some '<' := by decide
  exact hall opening h

theorem lines_envelope {hunks : List GrammarHunk}
    (hvalid : ∀ hunk ∈ hunks, hunk.Valid)
    (envelope : Envelope) (newline : Bool) :
    Text.lines (Text.trim (envelope.text hunks newline)) =
      envelope.lines (renderPatch hunks) := by
  cases envelope with
  | plain =>
      exact lines_trim_intercalate _ _ '*' 'h' (isLine_renderPatch hvalid)
        (by decide) rfl
        (by decide) rfl (by decide) newline
  | heredoc opening h =>
      refine lines_trim_intercalate (opening :: renderPatch hunks) _ '<' 'F' ?_
        (by decide) ?_ (by decide) rfl (by decide) newline
      · rw [List.forall_mem_cons, renderPatch]
        refine ⟨isLine_opening h, List.forall_mem_append.2
          ⟨isLine_renderPatch hvalid, ?_⟩⟩
        rw [List.forall_mem_singleton]
        exact ⟨by decide, by decide⟩
      · rw [Text.unlines, List.flatMap_cons, List.append_assoc,
          List.append_assoc,
          List.head?_append, head_opening h]
        rfl

theorem checkPatchBoundariesStrict_renderPatch (hunks : List GrammarHunk) :
    checkPatchBoundariesStrict (renderPatch hunks) = .ok () := by
  have hlast : (renderPatch hunks).getLast? = some endPatchMarker := by
    rw [renderPatch]
    exact List.getLast?_concat
  have hfirst : (renderPatch hunks).head? = some beginPatchMarker := rfl
  rw [checkPatchBoundariesStrict, hfirst, hlast]
  simp only [ne_eq, not_true_eq_false, if_false]

theorem patchLines_envelope (hunks : List GrammarHunk) (envelope : Envelope) :
    patchLines (envelope.lines (renderPatch hunks)) .lenient =
      .ok (renderPatch hunks) := by
  cases envelope with
  | plain =>
      rw [patchLines, Envelope.lines, checkPatchBoundariesStrict_renderPatch]
  | heredoc opening h =>
      have hlast : (opening :: renderPatch hunks ++ ["EOF".toList]).getLast? =
          some "EOF".toList := List.getLast?_concat
      have hfirst : (opening :: renderPatch hunks ++ ["EOF".toList]).head? =
          some opening := rfl
      have hinner :
          (opening :: renderPatch hunks ++ ["EOF".toList]).tail.dropLast =
          renderPatch hunks := List.dropLast_concat
      have hbegin : opening ≠ beginPatchMarker := by
        intro heq
        have hhead := head_opening h
        rw [heq] at hhead
        exact absurd hhead (by decide)
      have hlength :
          (opening :: renderPatch hunks ++ ["EOF".toList]).length ≥ 4 := by
        simp only [renderPatch, List.length_append, List.length_cons,
          List.length_nil]
        omega
      rw [patchLines, Envelope.lines, checkPatchBoundariesStrict, hfirst, hlast]
      simp only [ne_eq, hbegin, not_false_eq_true, if_true]
      rw [checkPatchBoundariesLenient, hfirst, hlast]
      simp only [hinner]
      rw [if_pos ⟨h, by decide, hlength⟩,
        checkPatchBoundariesStrict_renderPatch]

/-! ## The round trip -/

/-- A rendered patch is parsed into its hunks, in any envelope, exactly where
no hunk starts with a separator. -/
theorem parsePatch_render_iff (hunks : List GrammarHunk)
    (hvalid : ∀ hunk ∈ hunks, hunk.Valid) (envelope : Envelope)
    (newline : Bool) :
    (parsePatch (envelope.text hunks newline)).map ApplyPatchArgs.hunks =
        .ok (hunks.map GrammarHunk.hunk) ↔
      ∀ hunk ∈ hunks, ¬hunk.OpensBlank := by
  have hinner :
      (renderPatch hunks).tail.dropLast = hunks.flatMap GrammarHunk.render :=
    List.dropLast_concat
  rw [← @parseHunks_render_iff 2 hunks hvalid, parsePatch, parsePatchText,
    lines_envelope hvalid, patchLines_envelope]
  simp only [hinner]
  cases parseHunks 0 2 (hunks.flatMap GrammarHunk.render) with
  | error e => exact Iff.rfl
  | ok parsed => exact Iff.rfl

/-- A patch with every kind of hunk: an added line that reads like a marker, a
first change without its context line and a move. -/
def mixedHunks : List GrammarHunk :=
  [.add ['n'] [endPatchMarker], .delete ['d'],
    .update ['u'] (some ['v']) true
      ⟨none, [.remove ['a'], .context [], .add ['b']], true, by decide⟩
      [⟨some ['f'], [.context []], false, by decide⟩]]

theorem mixedHunks_valid : ∀ hunk ∈ mixedHunks, hunk.Valid := by
  have hpath : ∀ c, Text.isWhitespace c = false → GrammarHunk.IsPath [c] := by
    intro c hc
    refine ⟨List.cons_ne_nil c [], ?_, ?_⟩
    · intro hfeed
      rw [← List.mem_singleton.1 hfeed] at hc
      exact absurd hc (by decide)
    · simp [Text.trim, Text.trimEnd, hc]
  have hline : ∀ text : Text, text ∈ [endPatchMarker, ['a'], [], ['b'], ['f']] →
      Text.IsLine text := by
    have hall : ∀ text ∈ [endPatchMarker, ['a'], [], ['b'], ['f']],
        '\n' ∉ text ∧ text.getLast? ≠ some '\r' := by decide
    exact fun text htext => ⟨(hall text htext).1, (hall text htext).2⟩
  simp only [mixedHunks, List.forall_mem_cons, GrammarHunk.Valid]
  refine ⟨⟨hpath _ (by decide), by simpa using hline _ (by decide)⟩,
    hpath _ (by decide), ⟨hpath _ (by decide), ?_, ⟨?_, ?_⟩, ⟨?_, ?_⟩, by simp⟩,
    by simp⟩
  · rintro target ⟨⟩
    exact hpath _ (by decide)
  · rintro context ⟨⟩
  · simp only [List.forall_mem_cons, ChangeLine.text]
    exact ⟨hline _ (by decide), hline _ (by decide),
      hline _ (by decide), by simp⟩
  · rintro context ⟨⟩
    exact hline _ (by decide)
  · simp only [List.forall_mem_cons, ChangeLine.text]
    exact ⟨hline _ (by decide), by simp⟩

theorem parsePatch_render_mixedHunks :
    (parsePatch (Envelope.text (.heredoc "<<EOF".toList (by decide)) mixedHunks
        true)).map ApplyPatchArgs.hunks =
        .ok (mixedHunks.map GrammarHunk.hunk) := by
  refine (parsePatch_render_iff mixedHunks mixedHunks_valid _ true).2 ?_
  simp only [mixedHunks, List.forall_mem_cons, GrammarHunk.OpensBlank]
  exact ⟨not_false, not_false, by decide, by simp⟩

/-- An update of one chunk without its context line, which keeps a line with
one blank and adds a line after it. -/
def blankContextHunk : GrammarHunk :=
  .update ['f'] none true ⟨none, [.context [' '], .add ['x']],
    false, by decide⟩ []

/-- The kept line is not in the hunk that the parser returns. -/
theorem parsePatch_render_blankContextHunk :
    blankContextHunk.Valid ∧
      blankContextHunk.hunk =
        .updateFile ['f'] none [⟨none, [[' ']], [[' '], ['x']], false⟩] ∧
      (parsePatch (Envelope.text .plain [blankContextHunk] false)).map
          ApplyPatchArgs.hunks =
        .ok [.updateFile ['f'] none [⟨none, [], [['x']], false⟩]] := by
  refine ⟨⟨⟨by decide, by decide, by decide⟩, ?_, ?_⟩, rfl, by decide⟩
  · rintro target ⟨⟩
  · rw [List.forall_mem_singleton]
    refine ⟨?_, ?_⟩
    · rintro context ⟨⟩
    · simp only [List.forall_mem_cons, ChangeLine.text]
      exact ⟨⟨by decide, by decide⟩, ⟨by decide, by decide⟩, by simp⟩

end CodeRs.ApplyPatch
