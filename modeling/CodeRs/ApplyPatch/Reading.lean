import CodeRs.ApplyPatch.Parser

/-!
# Parsing what the grammar renders

The parser reads a rendered patch back, chunk by chunk and hunk by hunk.  The
one exception is an update without its first context line whose first line is
white space: the loop over the chunks takes that line for a separator.
-/

namespace CodeRs.ApplyPatch

/-! ## Lines after a chunk -/

/-- Lines at which a chunk that has read some lines stops: the end, or a line
that is no change line, is not empty and is not the end-of-file marker. -/
inductive Stops : List Text → Prop
  | nil : Stops []
  | cons {c : Char} {text : Text} {rest : List Text} :
      c ≠ ' ' → c ≠ '+' → c ≠ '-' → c :: text ≠ eofMarker →
        Stops ((c :: text) :: rest)

/-- The first line of a hunk. -/
def IsMarker (line : Text) : Prop :=
  (∃ text, line = '*' :: '*' :: '*' :: text) ∧ line ≠ eofMarker

/-- Lines at which an update stops: the end, or the first line of the next
hunk. -/
inductive Ends : List Text → Prop
  | nil : Ends []
  | cons {line : Text} {rest : List Text} : IsMarker line → Ends (line :: rest)

theorem Ends.stops {tail : List Text} (h : Ends tail) : Stops tail := by
  cases h with
  | nil => exact .nil
  | cons hmarker =>
      obtain ⟨⟨text, rfl⟩, heof⟩ := hmarker
      exact .cons (by decide) (by decide) (by decide) heof

theorem isMarker_append {marker : Text} {c : Char} (path : Text)
    (hstars : marker = '*' :: '*' :: '*' :: marker.drop 3)
    (hc : marker[4]? = some c)
    (hne : c ≠ 'E') : IsMarker (marker ++ path) := by
  refine ⟨⟨marker.drop 3 ++ path, ?_⟩, ?_⟩
  · rw [← List.cons_append, ← List.cons_append, ← List.cons_append, ← hstars]
  · intro heof
    have hlength := (List.getElem?_eq_some_iff.1 hc).1
    have hchar : (marker ++ path)[4]? = some 'E' := by
      rw [heof]
      rfl
    rw [List.getElem?_append_left hlength, hc, Option.some.injEq] at hchar
    exact hne hchar

theorem header_cons (change : Change) :
    ∃ text, change.header = '@' :: '@' :: text := by
  rw [Change.header]
  cases change.context with
  | none => exact ⟨[], rfl⟩
  | some context => exact ⟨' ' :: context, rfl⟩

theorem stops_header (change : Change) (rest : List Text) :
    Stops (change.header :: rest) := by
  obtain ⟨text, htext⟩ := header_cons change
  rw [htext]
  exact .cons (by decide) (by decide) (by decide) (by
    intro heof
    exact absurd (List.head_eq_of_cons_eq heof) (by decide))

/-! ## One chunk -/

variable {lineNumber : ℕ}

theorem render_ne_eofMarker (line : ChangeLine) : line.render ≠ eofMarker := by
  intro h
  have hstar : line.render.head? = some '*' := by
    rw [h]
    rfl
  cases line with
  | context text => exact absurd hstar (by simp [ChangeLine.render])
  | add text => exact absurd hstar (by simp [ChangeLine.render])
  | remove text => exact absurd hstar (by simp [ChangeLine.render])

theorem readChangeLine_render (chunk : UpdateFileChunk) (line : ChangeLine) :
    readChangeLine chunk line.render = some
      { chunk with
        oldLines := chunk.oldLines ++ line.old.toList
        newLines := chunk.newLines ++ line.new.toList } := by
  cases line with
  | context text => rfl
  | add text =>
      simp [ChangeLine.render, readChangeLine, ChangeLine.old, ChangeLine.new]
  | remove text =>
      simp [ChangeLine.render, readChangeLine, ChangeLine.old, ChangeLine.new]

theorem readChangeLine_eq_none {c : Char} (hspace : c ≠ ' ') (hplus : c ≠ '+')
    (hminus : c ≠ '-') (chunk : UpdateFileChunk) (text : Text) :
    readChangeLine chunk (c :: text) = none := by
  unfold readChangeLine
  split <;> simp_all

theorem chunkLines_render (lines : List ChangeLine) (parsedLines : ℕ)
    (chunk : UpdateFileChunk) (tail : List Text) :
    chunkLines lineNumber parsedLines chunk
      (lines.map ChangeLine.render ++ tail) =
      chunkLines lineNumber (parsedLines + lines.length)
        { chunk with
          oldLines := chunk.oldLines ++ lines.filterMap ChangeLine.old
          newLines := chunk.newLines ++ lines.filterMap ChangeLine.new }
          tail := by
  induction lines generalizing parsedLines chunk with
  | nil => simp
  | cons line lines ih =>
      rw [List.map_cons, List.cons_append, chunkLines,
        if_neg (render_ne_eofMarker line), readChangeLine_render]
      simp only
      rw [ih, List.filterMap_cons, List.filterMap_cons, List.length_cons]
      cases line <;>
        simp [ChangeLine.old, ChangeLine.new, Nat.add_assoc, Nat.add_comm 1]

theorem chunkLines_stop {parsedLines : ℕ} {chunk : UpdateFileChunk}
    {tail : List Text}
    (hpos : parsedLines ≠ 0) (h : Stops tail) :
    chunkLines lineNumber parsedLines chunk tail =
      .ok (chunk, parsedLines) := by
  cases h with
  | nil => rfl
  | cons hspace hplus hminus heof =>
      rw [chunkLines, if_neg heof, readChangeLine_eq_none hspace hplus hminus]
      simp only
      rw [if_neg hpos]

/-- The loop reads the body of a change, whatever follows its end-of-file
marker and otherwise up to a line where it stops. -/
theorem chunkLines_body (change : Change) {tail : List Text} (h : Stops tail) :
    chunkLines lineNumber 0 ⟨change.context, [], [],
      false⟩ (change.body ++ tail) =
      .ok (change.chunk, change.body.length) := by
  have hpos : change.lines.length ≠ 0 := by
    simpa using change.lines_ne
  rw [Change.body, List.append_assoc, chunkLines_render]
  cases heof : change.endOfFile with
  | true =>
      rw [if_pos rfl, List.cons_append, chunkLines, if_pos rfl,
        if_neg (by omega)]
      simp [Change.chunk, heof]
  | false =>
      rw [if_neg Bool.false_ne_true]
      simp only [List.nil_append, Nat.zero_add]
      rw [chunkLines_stop hpos h]
      simp [Change.chunk, heof]

theorem stripMarker_append (marker text : Text) :
    stripMarker marker (marker ++ text) = some text := by
  induction marker with
  | nil => rfl
  | cons c marker ih =>
      rw [stripMarker] at ih
      simp [stripMarker, List.isPrefixOf?, ih]

theorem stripMarker_eq_none {marker text : Text} {c d : Char} (n : ℕ)
    (hmarker : marker[n]? = some c) (htext : text[n]? = some d) (hne : c ≠ d) :
    stripMarker marker text = none := by
  induction marker generalizing n text with
  | nil => simp at hmarker
  | cons e marker ih =>
      cases text with
      | nil => rfl
      | cons f text =>
          rw [stripMarker, List.isPrefixOf?]
          split
          next heq =>
            cases n with
            | zero =>
                rw [List.getElem?_cons_zero, Option.some.injEq] at hmarker htext
                rw [← hmarker, ← htext] at hne
                exact absurd (by simpa using heq) hne
            | succ n => exact ih n hmarker htext
          next => rfl

theorem parseUpdateFileChunk_render (change : Change)
    (allowMissingContext : Bool)
    {tail : List Text} (h : Stops tail) :
    parseUpdateFileChunk (change.render ++ tail) lineNumber
      allowMissingContext =
      .ok (change.chunk, change.render.length) := by
  have hcontext : chunkContext change.header lineNumber allowMissingContext =
      .ok (change.context, 1) := by
    rw [chunkContext, Change.header]
    cases hctx : change.context with
    | none => exact if_pos rfl
    | some context =>
        rw [if_neg (by simp [changeContextMarker, emptyChangeContextMarker]),
          stripMarker_append]
  have hne : change.body ≠ [] := by
    simp [Change.body, change.lines_ne]
  have hlength : ¬1 ≥ (change.render ++ tail).length := by
    have hpos := List.length_pos_of_ne_nil hne
    simp only [Change.render, List.length_append, List.length_cons]
    omega
  simp only [Change.render, List.cons_append] at hlength ⊢
  rw [parseUpdateFileChunk]
  simp only [hcontext]
  rw [if_neg hlength]
  rw [List.drop_succ_cons, List.drop_zero, chunkLines_body change h]
  rfl

/-- The lines of a first change, with or without its context line. -/
theorem parseUpdateFileChunk_renderFirst (headless : Bool) (change : Change)
    {tail : List Text} (h : Stops tail) :
    parseUpdateFileChunk (GrammarHunk.renderFirst headless change ++
      tail) lineNumber
      true = .ok (change.chunk,
        (GrammarHunk.renderFirst headless change).length) := by
  rw [GrammarHunk.renderFirst]
  split
  next hhead =>
    obtain ⟨line, lines, hlines⟩ := List.exists_cons_of_ne_nil change.lines_ne
    have hbody : change.body = line.render :: change.body.tail := by
      rw [Change.body, hlines]
      rfl
    have hcontext : chunkContext line.render lineNumber true =
        .ok (change.context, 0) := by
      rw [hhead.2, chunkContext]
      cases line <;>
        simp [ChangeLine.render, emptyChangeContextMarker, changeContextMarker,
          stripMarker, List.isPrefixOf?]
    have hread := @chunkLines_body lineNumber change tail h
    rw [hbody, List.cons_append] at hread
    rw [hbody, List.cons_append, parseUpdateFileChunk]
    simp only [hcontext]
    rw [if_neg (by simp), List.drop_zero, hread]
    rfl
  next => exact parseUpdateFileChunk_render change true h

/-! ## The chunks of an update -/

theorem updateChunks_skip (skip parsedLines : ℕ) (chunks : List UpdateFileChunk)
    {lines : List Text} (tail : List Text) (h : lines.length = skip) :
    updateChunks lineNumber skip parsedLines chunks (lines ++ tail) =
      updateChunks lineNumber 0 parsedLines chunks tail := by
  induction lines generalizing skip with
  | nil =>
      subst h
      rfl
  | cons line lines ih =>
      obtain rfl : lines.length + 1 = skip := h
      rw [List.cons_append]
      cases lines <;> exact ih _ rfl

/-- The loop passes over lines of white space before a chunk. -/
theorem updateChunks_blank (parsedLines : ℕ) (chunks : List UpdateFileChunk)
    {lines : List Text} (tail : List Text)
    (h : ∀ line ∈ lines, line.trim = []) :
    updateChunks lineNumber 0 parsedLines chunks (lines ++ tail) =
      updateChunks lineNumber 0 (parsedLines + lines.length) chunks tail := by
  induction lines generalizing parsedLines with
  | nil => rfl
  | cons line lines ih =>
      rw [List.cons_append, updateChunks, if_pos (h line List.mem_cons_self),
        ih _ fun other hother => h other (List.mem_cons_of_mem _ hother),
        List.length_cons, Nat.add_right_comm, Nat.add_assoc]

theorem updateChunks_marker {line text : Text} {rest : List Text}
    (parsedLines : ℕ)
    (chunks : List UpdateFileChunk) (h : line = '*' :: '*' :: '*' :: text) :
    updateChunks lineNumber 0 parsedLines chunks (line :: rest) =
      .ok (chunks, parsedLines) := by
  rw [h, updateChunks, if_neg (Text.trim_ne_nil List.mem_cons_self (by decide)),
    if_pos (by simp [stripMarker, List.isPrefixOf?])]

theorem updateChunks_ends {tail : List Text} (parsedLines : ℕ)
    (chunks : List UpdateFileChunk) (h : Ends tail) :
    updateChunks lineNumber 0 parsedLines chunks tail =
      .ok (chunks, parsedLines) := by
  cases h with
  | nil => rfl
  | cons hmarker =>
      obtain ⟨text, htext⟩ := hmarker.1
      exact updateChunks_marker _ _ htext

theorem updateChunks_eofMarker (parsedLines : ℕ) (chunks : List UpdateFileChunk)
    (tail : List Text) :
    updateChunks lineNumber 0 parsedLines chunks (eofMarker :: tail) =
      .ok (chunks, parsedLines) := by
  have hstar : eofMarker = '*' :: '*' :: '*' :: eofMarker.drop 3 := by decide
  exact updateChunks_marker _ _ hstar

/-- The loop reads one chunk where a block of lines parses as one. -/
theorem updateChunks_chunk {parsedLines : ℕ} {chunks : List UpdateFileChunk}
    {line : Text} {block tail : List Text} {chunk : UpdateFileChunk}
    (htrim : line.trim ≠ [])
    (hmarker : (stripMarker "***".toList line).isSome = false)
    (h : parseUpdateFileChunk (line :: block ++ tail) (lineNumber + parsedLines)
      chunks.isEmpty = .ok (chunk, (line :: block).length)) :
    updateChunks lineNumber 0 parsedLines chunks (line :: block ++ tail) =
      updateChunks lineNumber 0 (parsedLines + (line :: block).length)
        (chunks ++ [chunk]) tail := by
  rw [List.cons_append] at h ⊢
  have hno : ¬(stripMarker "***".toList line).isSome := by
    rw [hmarker]
    exact Bool.false_ne_true
  rw [updateChunks, if_neg htrim, if_neg hno, h]
  exact updateChunks_skip _ _ _ _ rfl

theorem updateChunks_render (change : Change) (parsedLines : ℕ)
    (chunks : List UpdateFileChunk) {tail : List Text} (h : Stops tail) :
    updateChunks lineNumber 0 parsedLines chunks (change.render ++ tail) =
      updateChunks lineNumber 0 (parsedLines + change.render.length)
        (chunks ++ [change.chunk]) tail := by
  obtain ⟨text, htext⟩ := header_cons change
  refine updateChunks_chunk ?_ ?_ (parseUpdateFileChunk_render change _ h)
  · rw [htext]
    exact Text.trim_ne_nil List.mem_cons_self (by decide)
  · rw [htext]
    rfl

theorem stops_flatMap (changes : List Change) {tail : List Text}
    (h : Ends tail) :
    Stops (changes.flatMap Change.render ++ tail) := by
  cases changes with
  | nil => exact h.stops
  | cons change changes => exact stops_header change _

/-- The changes after the first one are read back. -/
theorem updateChunks_flatMap (changes : List Change) (parsedLines : ℕ)
    (chunks : List UpdateFileChunk) {tail : List Text} (h : Ends tail) :
    updateChunks lineNumber 0 parsedLines chunks
        (changes.flatMap Change.render ++ tail) =
      .ok (chunks ++ changes.map Change.chunk,
        parsedLines + (changes.flatMap Change.render).length) := by
  induction changes generalizing parsedLines chunks with
  | nil =>
      rw [List.map_nil, List.append_nil]
      exact updateChunks_ends _ _ h
  | cons change changes ih =>
      rw [List.flatMap_cons, List.append_assoc,
        updateChunks_render change _ _ (stops_flatMap changes h), ih,
        List.map_cons, List.append_assoc, List.length_append, Nat.add_assoc]
      rfl

/-- The first line of the first change without its context line. -/
theorem body_cons {change : Change} :
    ∃ line block, change.lines.head? = some line ∧
      change.body = line.render :: block := by
  obtain ⟨line, lines, hlines⟩ := List.exists_cons_of_ne_nil change.lines_ne
  refine ⟨line, change.body.tail, ?_, ?_⟩
  · rw [hlines]
    rfl
  · rw [Change.body, hlines]
    rfl

/-- The first change is read back, unless it starts with a separator. -/
theorem updateChunks_renderFirst {headless : Bool} {change : Change}
    (hblank : ¬(headless ∧ change.context = none ∧
      ∃ line ∈ change.lines.head?, line.IsBlank)) (parsedLines : ℕ)
      {tail : List Text}
    (h : Stops tail) :
    updateChunks lineNumber 0 parsedLines []
        (GrammarHunk.renderFirst headless change ++ tail) =
      updateChunks lineNumber 0
        (parsedLines + (GrammarHunk.renderFirst headless change).length)
        [change.chunk]
        tail := by
  have hread :=
    @parseUpdateFileChunk_renderFirst (lineNumber + parsedLines) headless
      change tail h
  by_cases hhead : headless ∧ change.context = none
  · rw [GrammarHunk.renderFirst, if_pos hhead] at hread ⊢
    obtain ⟨line, block, hline, hbody⟩ := @body_cons change
    rw [hbody] at hread ⊢
    refine updateChunks_chunk ?_ ?_ hread
    · intro htrim
      exact hblank ⟨hhead.1, hhead.2, line, hline, htrim⟩
    · cases line <;> rfl
  · rw [GrammarHunk.renderFirst, if_neg hhead]
    exact updateChunks_render change parsedLines [] h

/-! ## One hunk -/

theorem trim_marker_append {marker path : Text} {c : Char}
    (h : GrammarHunk.IsPath path)
    (hc : marker.head? = some c) (hws : Text.isWhitespace c = false) :
    (marker ++ path).trim = marker ++ path := by
  have hlast := List.getLast?_eq_some_getLast h.ne_nil
  refine Text.trim_eq_self ?_ hws ?_ (Text.getLast_of_trim_eq h.trimmed hlast)
  · rw [List.head?_append, hc]
    rfl
  · rw [List.getLast?_append, hlast]
    rfl

theorem parseOneHunk_add {path : Text} (hpath : GrammarHunk.IsPath path)
    (lines : List Text) {tail : List Text} (h : Ends tail) :
    parseOneHunk (addFileMarker ++ path)
      (lines.map ('+' :: ·) ++ tail) lineNumber =
      .ok (.addFile path (Text.unlines lines), lines.length + 1) := by
  have htake : (lines.map ('+' :: ·) ++ tail).takeWhile
      (fun line => line.head? = some '+') = lines.map ('+' :: ·) := by
    rw [List.takeWhile_append_of_pos]
    · cases h with
      | nil => simp
      | cons hmarker =>
          obtain ⟨⟨text, rfl⟩, -⟩ := hmarker
          simp
    · intro line hline
      obtain ⟨text, -, rfl⟩ := List.mem_map.1 hline
      rfl
  rw [parseOneHunk, trim_marker_append hpath rfl (by decide),
    stripMarker_append]
  simp only [htake, List.length_map, List.flatMap_map]
  rfl

theorem parseOneHunk_delete {path : Text} (hpath : GrammarHunk.IsPath path)
    (tail : List Text) :
    parseOneHunk (deleteFileMarker ++ path) tail lineNumber =
      .ok (.deleteFile path, 1) := by
  have hadd : stripMarker addFileMarker (deleteFileMarker ++ path) = none :=
    stripMarker_eq_none 4 rfl rfl (by decide)
  rw [parseOneHunk, trim_marker_append hpath rfl (by decide)]
  simp only [hadd, stripMarker_append]

theorem parseOneHunk_update {path : Text} (hpath : GrammarHunk.IsPath path)
    (rest : List Text) :
    parseOneHunk (updateFileMarker ++ path) rest lineNumber =
      parseUpdate path rest lineNumber := by
  have hadd : stripMarker addFileMarker (updateFileMarker ++ path) = none :=
    stripMarker_eq_none 4 rfl rfl (by decide)
  have hdelete :
      stripMarker deleteFileMarker (updateFileMarker ++ path) = none :=
    stripMarker_eq_none 4 rfl rfl (by decide)
  rw [parseOneHunk, trim_marker_append hpath rfl (by decide)]
  simp only [hadd, hdelete, stripMarker_append]

theorem renderFirst_head (headless : Bool) (change : Change) :
    ∃ line block, GrammarHunk.renderFirst headless change = line :: block ∧
      stripMarker moveToMarker line = none := by
  rw [GrammarHunk.renderFirst]
  split
  next =>
    obtain ⟨line, block, -, hbody⟩ := @body_cons change
    refine ⟨line.render, block, hbody, ?_⟩
    cases line <;> exact stripMarker_eq_none 0 rfl rfl (by decide)
  next =>
    obtain ⟨text, htext⟩ := header_cons change
    refine ⟨change.header, change.body, rfl, ?_⟩
    rw [htext]
    exact stripMarker_eq_none 0 rfl rfl (by decide)

theorem parseUpdate_renderMove (path : Text) (move : Option Text)
    (headless : Bool)
    (first : Change) (tail : List Text) :
    parseUpdate path (GrammarHunk.renderMove move ++
        (GrammarHunk.renderFirst headless first ++ tail)) lineNumber =
      match updateChunks lineNumber 0
        (1 + (GrammarHunk.renderMove move).length) []
        (GrammarHunk.renderFirst headless first ++ tail) with
      | .error e => .error e
      | .ok (chunks, parsedLines) =>
          if chunks = [] then .error (emptyUpdate path lineNumber)
          else .ok (.updateFile path move chunks, parsedLines) := by
  cases move with
  | some target =>
      rw [parseUpdate]
      simp only [GrammarHunk.renderMove, Option.map_some, Option.toList_some,
        List.cons_append, List.nil_append, List.head?_cons, Option.bind_some,
        stripMarker_append, Option.isSome_some, if_true, List.tail_cons]
      rfl
  | none =>
      obtain ⟨line, block, hfirst, hmove⟩ := renderFirst_head headless first
      rw [parseUpdate, hfirst]
      simp only [GrammarHunk.renderMove, Option.map_none, Option.toList_none,
        List.cons_append, List.nil_append, List.head?_cons,
        Option.bind_some, hmove,
        Option.isSome_none, List.length_nil]
      rfl

/-- An update is read back, unless it starts with a separator. -/
theorem parseUpdate_render {path : Text} {move : Option Text} {headless : Bool}
    {first : Change} {rest : List Change}
    (hblank : ¬(GrammarHunk.update path move headless first rest).OpensBlank)
    {tail : List Text} (h : Ends tail) :
    parseUpdate path (GrammarHunk.renderMove move ++
        (GrammarHunk.renderFirst headless first ++
          (rest.flatMap Change.render ++ tail))) lineNumber =
      .ok (.updateFile path move (first.chunk :: rest.map Change.chunk),
        1 + (GrammarHunk.renderMove move).length +
          (GrammarHunk.renderFirst headless first).length +
          (rest.flatMap Change.render).length) := by
  rw [parseUpdate_renderMove,
    updateChunks_renderFirst hblank _ (stops_flatMap rest h),
    updateChunks_flatMap rest _ _ h]
  rfl

/-! ## Updates that start with a separator -/

/-- A line of white space is a context line. -/
theorem old_of_isBlank {line : ChangeLine} (h : line.IsBlank) :
    line.old.isSome := by
  cases line with
  | context text => rfl
  | add text =>
      have hplus : '+' ∈ (ChangeLine.add text).render := List.mem_cons_self
      exact absurd h (Text.trim_ne_nil hplus (by decide))
  | remove text => rfl

theorem exists_blank_append (lines : List ChangeLine) :
    ∃ blank others, lines = blank ++ others ∧ (∀ line ∈ blank, line.IsBlank) ∧
      ∀ line ∈ others.head?, ¬line.IsBlank := by
  induction lines with
  | nil => exact ⟨[], [], rfl, by simp, by simp⟩
  | cons line lines ih =>
      by_cases hws : line.IsBlank
      · obtain ⟨blank, others, rfl, hblank, hothers⟩ := ih
        exact ⟨line :: blank, others, rfl,
          List.forall_mem_cons.2 ⟨hws, hblank⟩, hothers⟩
      · refine ⟨[], line :: lines, rfl, by simp, ?_⟩
        rintro other ⟨⟩
        exact hws

/-- A line of white space at the start is one of the separators. -/
theorem mem_blank_of_head {lines blank others : List ChangeLine}
    {line : ChangeLine}
    (hsplit : lines = blank ++ others)
    (hothers : ∀ line ∈ others.head?, ¬line.IsBlank)
    (hline : line ∈ lines.head?) (hws : line.IsBlank) : line ∈ blank := by
  cases blank with
  | nil =>
      rw [hsplit, List.nil_append] at hline
      exact absurd hws (hothers line hline)
  | cons other blank =>
      rw [hsplit, List.cons_append, List.head?_cons, Option.mem_some] at hline
      rw [hline]
      exact List.mem_cons_self

theorem body_append {change : Change} {blank lines : List ChangeLine}
    (hsplit : change.lines = blank ++ lines) :
    change.body = blank.map ChangeLine.render ++ (lines.map ChangeLine.render ++
      if change.endOfFile then [eofMarker] else []) := by
  rw [Change.body, hsplit, List.map_append, List.append_assoc]

/-- After the separators the loop reads the rest of the first change, or none
of it where nothing else is there. -/
theorem updateChunks_opensBlank {first : Change} {blank lines : List ChangeLine}
    (hsplit : first.lines = blank ++ lines)
    (hblank : ∀ line ∈ blank, line.IsBlank)
    (hlines : ∀ line ∈ lines.head?, ¬line.IsBlank) (parsedLines : ℕ)
    (rest : List Change) {tail : List Text} (h : Ends tail) :
    ∃ chunks n, updateChunks lineNumber 0 parsedLines []
        (first.body ++ (rest.flatMap Change.render ++ tail)) = .ok (chunks, n) ∧
      (chunks.length < rest.length + 1 ∨ ∃ chunk, chunks.head? = some chunk ∧
        chunk.oldLines = lines.filterMap ChangeLine.old) := by
  have hskip : ∀ line ∈ blank.map ChangeLine.render, line.trim = [] := by
    intro text htext
    obtain ⟨line, hline, rfl⟩ := List.mem_map.1 htext
    exact hblank line hline
  rw [body_append hsplit, List.append_assoc, updateChunks_blank _ _ _ hskip]
  by_cases hne : lines = []
  · subst hne
    cases heof : first.endOfFile with
    | true =>
        refine ⟨[], _, updateChunks_eofMarker _ _ _, .inl ?_⟩
        exact Nat.succ_pos _
    | false =>
        refine ⟨_, _, updateChunks_flatMap rest _ _ h, .inl ?_⟩
        rw [List.nil_append, List.length_map]
        exact Nat.lt_succ_self _
  · have hread := @updateChunks_renderFirst lineNumber true
      ⟨none, lines, first.endOfFile, hne⟩
    have hbody :
        GrammarHunk.renderFirst true ⟨none, lines, first.endOfFile, hne⟩ =
        lines.map ChangeLine.render ++ if first.endOfFile then [eofMarker]
          else [] := rfl
    rw [hbody] at hread
    have hfirst : ¬(true ∧ (none : Option Text) = none ∧
        ∃ line ∈ lines.head?, line.IsBlank) := by
      rintro ⟨-, -, line, hline, hws⟩
      exact hlines line hline hws
    rw [hread hfirst _ (stops_flatMap rest h), updateChunks_flatMap rest _ _ h]
    exact ⟨_, _, rfl, .inr ⟨_, rfl, rfl⟩⟩

theorem parseUpdate_opensBlank {path : Text} {move : Option Text}
    {headless : Bool}
    {first : Change} {rest : List Change}
    (hopens : (GrammarHunk.update path move headless first rest).OpensBlank)
    {tail : List Text} (h : Ends tail) (n : ℕ) :
    parseUpdate path (GrammarHunk.renderMove move ++
        (GrammarHunk.renderFirst headless first ++
          (rest.flatMap Change.render ++ tail))) lineNumber ≠
      .ok (.updateFile path move (first.chunk :: rest.map Change.chunk),
        n) := by
  obtain ⟨hheadless, hcontext, line, hline, hws⟩ := hopens
  have hfirst : GrammarHunk.renderFirst headless first = first.body :=
    if_pos ⟨hheadless, hcontext⟩
  obtain ⟨blank, others, hsplit, hblank, hothers⟩ :=
    exists_blank_append first.lines
  have hseparator : line ∈ blank := mem_blank_of_head hsplit hothers hline hws
  obtain ⟨chunks, m, hread, hchunks⟩ :=
    @updateChunks_opensBlank lineNumber first _ _
      hsplit hblank hothers (1 + (GrammarHunk.renderMove move).length)
      rest tail h
  rw [parseUpdate_renderMove, hfirst, hread]
  simp only
  split
  next => exact fun herr => by cases herr
  next =>
    rw [ne_eq, Except.ok.injEq, Prod.mk.injEq, ParsedHunk.updateFile.injEq]
    rintro ⟨⟨-, -, rfl⟩, -⟩
    rcases hchunks with hlength | ⟨chunk, hchunk, hold⟩
    · rw [List.length_cons, List.length_map] at hlength
      exact absurd hlength (Nat.lt_irrefl _)
    · rw [List.head?_cons, Option.some.injEq] at hchunk
      -- the separator is missing among the old lines of the first chunk
      have hall : first.lines.filterMap ChangeLine.old =
          others.filterMap ChangeLine.old := by
        rw [← hold, ← hchunk]
        rfl
      rw [hsplit, List.filterMap_append, List.append_left_eq_self,
        List.filterMap_eq_nil_iff] at hall
      have hsome := old_of_isBlank hws
      rw [hall line hseparator] at hsome
      cases hsome

def GrammarHunk.headerLine : GrammarHunk → Text
  | add path _ => addFileMarker ++ path
  | delete path => deleteFileMarker ++ path
  | update path _ _ _ _ => updateFileMarker ++ path

theorem isMarker_headerLine (hunk : GrammarHunk) :
    IsMarker hunk.headerLine := by
  cases hunk with
  | add path lines =>
      exact isMarker_append path (by decide) rfl (c := 'A') (by decide)
  | delete path =>
      exact isMarker_append path (by decide) rfl (c := 'D') (by decide)
  | update path move headless first rest =>
      exact isMarker_append path (by decide) rfl (c := 'U') (by decide)

theorem render_cons (hunk : GrammarHunk) :
    hunk.render = hunk.headerLine :: hunk.render.tail := by
  cases hunk <;> rfl

theorem render_update_append (path : Text) (move : Option Text)
    (headless : Bool)
    (first : Change) (rest : List Change) (tail : List Text) :
    (GrammarHunk.update path move headless first rest).render.tail ++ tail =
      GrammarHunk.renderMove move ++ (GrammarHunk.renderFirst headless first ++
        (rest.flatMap Change.render ++ tail)) := by
  rw [← List.append_assoc, ← List.append_assoc]
  rfl

/-- A hunk that does not start with a separator is read back. -/
theorem parseOneHunk_render {hunk : GrammarHunk} (hvalid : hunk.Valid)
    (hblank : ¬hunk.OpensBlank) {tail : List Text} (h : Ends tail) :
    parseOneHunk hunk.headerLine (hunk.render.tail ++ tail) lineNumber =
      .ok (hunk.hunk, hunk.render.tail.length + 1) := by
  cases hunk with
  | add path lines =>
      have hlength :
          (GrammarHunk.add path lines).render.tail.length = lines.length :=
        List.length_map _
      rw [hlength]
      exact parseOneHunk_add hvalid.1 lines h
  | delete path => exact parseOneHunk_delete hvalid tail
  | update path move headless first rest =>
      rw [render_update_append, GrammarHunk.headerLine,
        parseOneHunk_update hvalid.1,
        parseUpdate_render hblank h]
      have hlength :
          (GrammarHunk.update path move headless first rest).render.length =
          1 + (GrammarHunk.renderMove move).length +
            (GrammarHunk.renderFirst headless first).length +
            (rest.flatMap Change.render).length := by
        simp only [GrammarHunk.render, List.cons_append, List.length_cons,
          List.length_append]
        omega
      rw [← hlength, render_cons]
      rfl

theorem parseOneHunk_opensBlank {hunk : GrammarHunk} (hvalid : hunk.Valid)
    (hblank : hunk.OpensBlank) {tail : List Text} (h : Ends tail) (n : ℕ) :
    parseOneHunk hunk.headerLine (hunk.render.tail ++ tail) lineNumber ≠
      .ok (hunk.hunk, n) := by
  cases hunk with
  | add path lines => exact hblank.elim
  | delete path => exact hblank.elim
  | update path move headless first rest =>
      rw [render_update_append, GrammarHunk.headerLine,
        parseOneHunk_update hvalid.1]
      exact parseUpdate_opensBlank hblank h n

/-! ## The hunks of a patch -/

theorem ends_flatMap (hunks : List GrammarHunk) :
    Ends (hunks.flatMap GrammarHunk.render) := by
  cases hunks with
  | nil => exact .nil
  | cons hunk hunks =>
      rw [List.flatMap_cons, render_cons]
      exact .cons (isMarker_headerLine hunk)

theorem parseHunks_skip (skip : ℕ) {lines : List Text} (tail : List Text)
    (h : lines.length = skip) :
    parseHunks skip lineNumber (lines ++ tail) =
      parseHunks 0 lineNumber tail := by
  induction lines generalizing skip with
  | nil =>
      subst h
      rfl
  | cons line lines ih =>
      obtain rfl : lines.length + 1 = skip := h
      rw [List.cons_append]
      cases lines <;> exact ih _ rfl

theorem map_cons_eq_ok {ε α : Type*} {result : Except ε (List α)} {x y : α}
    {ys : List α} :
    result.map (x :: ·) = .ok (y :: ys) ↔ x = y ∧ result = .ok ys := by
  cases result with
  | error e => simp [Except.map]
  | ok xs => simp [Except.map]

/-- The hunks between the markers of a patch are read back exactly where none
starts with a separator. -/
theorem parseHunks_render_iff {hunks : List GrammarHunk}
    (hvalid : ∀ hunk ∈ hunks, hunk.Valid) :
    parseHunks 0 lineNumber (hunks.flatMap GrammarHunk.render) =
        .ok (hunks.map GrammarHunk.hunk) ↔
      ∀ hunk ∈ hunks, ¬hunk.OpensBlank := by
  induction hunks generalizing lineNumber with
  | nil => simp [parseHunks]
  | cons hunk hunks ih =>
      obtain ⟨hhunk, hhunks⟩ := List.forall_mem_cons.1 hvalid
      rw [List.flatMap_cons, render_cons, List.cons_append, parseHunks,
        List.forall_mem_cons]
      by_cases hblank : hunk.OpensBlank
      · -- the loop stops with an error or goes on with another hunk
        have hne := fun n =>
          @parseOneHunk_opensBlank lineNumber _ hhunk hblank _
            (ends_flatMap hunks) n
        refine iff_of_false ?_ fun hall => hall.1 hblank
        cases hone : parseOneHunk hunk.headerLine
            (hunk.render.tail ++ hunks.flatMap GrammarHunk.render)
            lineNumber with
        | error e => exact fun herr => by cases herr
        | ok result =>
            obtain ⟨other, n⟩ := result
            intro hok
            simp only [List.map_cons, map_cons_eq_ok] at hok
            rw [hok.1] at hone
            exact hne n hone
      · rw [parseOneHunk_render hhunk hblank (ends_flatMap hunks)]
        simp only [Nat.add_sub_cancel]
        rw [parseHunks_skip _ _ rfl, List.map_cons, map_cons_eq_ok, ih hhunks]
        exact and_congr_left' (iff_of_true rfl hblank)

end CodeRs.ApplyPatch
