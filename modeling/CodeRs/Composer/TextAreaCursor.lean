import CodeRs.Composer.TextArea
import CodeRs.Lib.Runs

/-!
# The cursor of the text area

The cursor lies on a character boundary, where it may cut the text.  `set_text`
keeps the cursor and `set_cursor` takes it from elsewhere; both compare it with
the length of the text only.
-/

namespace CodeRs.Composer

open Text

/-- The range is one of the text, with a byte behind it. -/
structure LineRange.Within (line : LineRange) (text : Text) : Prop where
  start : text.IsBoundary line.start
  stop : text.IsBoundary (line.stop - 1)
  le : line.start ≤ line.stop - 1

/-- What the crates are documented to compute. -/
structure Unicode.Lawful (u : Unicode) : Prop where
  /-- The graphemes of a text are its parts. -/
  graphemes_flatten : ∀ text, (u.graphemes text).flatten = text
  /-- With the whole text at hand, the boundary before a position is found. -/
  prevBoundary_ok : ∀ (text : Text) (pos : ℕ), text.IsBoundary pos → ∃ found,
    u.prevBoundary text pos = .ok found ∧ ∀ b ∈ found,
    text.IsBoundary b ∧ b ≤ pos
  nextBoundary_ok : ∀ (text : Text) (pos : ℕ), text.IsBoundary pos → ∃ found,
    u.nextBoundary text pos = .ok found ∧ ∀ b ∈ found,
    text.IsBoundary b ∧ pos ≤ b
  /-- A wrapped line that is a slice is one of the text. -/
  wrap_borrowed : ∀ (width : ℕ) (text : Text) (start stop : ℕ),
    .borrowed start stop ∈ u.wrap width text →
      text.IsBoundary start ∧ text.IsBoundary stop ∧ start ≤ stop

namespace TextArea

variable {s t : TextArea} {pos : ℕ}

/-! ## Lines and words -/

theorem beginningOfLine_spec (h : s.text.IsBoundary pos) :
    ∃ bol, s.beginningOfLine pos = some bol ∧ s.text.IsBoundary bol ∧
      s.text.IsBoundary (bol - 1) ∧ bol ≤ pos := by
  obtain ⟨head, tail, ht, rfl, hhead, -⟩ := h.getTo_eq
  rw [beginningOfLine, hhead, Option.map_some]
  cases hfind : head.rfind (· == '\n') with
  | none => exact ⟨0, rfl, isBoundary_zero _, isBoundary_zero _, Nat.zero_le _⟩
  | some i =>
      obtain ⟨before, c, after, rfl, hc, rfl⟩ := rfind_spec hfind
      obtain rfl : c = '\n' := by simpa using hc
      refine ⟨before.byteLen + 1, rfl, ?_, ?_, ?_⟩
      · rw [ht]
        exact ⟨before ++ ['\n'], after ++ tail,
          by simp, by simp [Char.utf8Size]⟩
      · rw [ht, List.append_assoc]
        exact isBoundary_length_append before _
      · rw [byteLen_append, byteLen_cons]
        have hpos := Char.utf8Size_pos '\n'
        omega

theorem endOfLine_spec (h : s.text.IsBoundary pos) :
    ∃ eol, s.endOfLine pos = some eol ∧ s.text.IsBoundary eol ∧
      s.text.IsBoundary (min (eol + 1) s.text.byteLen) ∧ pos ≤ eol := by
  obtain ⟨head, tail, ht, rfl, -, htail⟩ := h.getTo_eq
  rw [endOfLine, htail, Option.map_some]
  cases hfind : tail.find (· == '\n') with
  | none =>
      refine ⟨s.text.byteLen, rfl, isBoundary_byteLen _, ?_, h.le_byteLen⟩
      rw [Nat.min_eq_right (Nat.le_succ _)]
      exact isBoundary_byteLen _
  | some i =>
      obtain ⟨before, c, after, rfl, hc, rfl⟩ := find_spec hfind
      obtain rfl : c = '\n' := by simpa using hc
      refine ⟨before.byteLen + head.byteLen, rfl, ?_, ?_, Nat.le_add_left _ _⟩
      · rw [ht]
        exact ⟨head ++ before, '\n' :: after, by simp, by simp [Nat.add_comm]⟩
      · have hnext : s.text.IsBoundary (before.byteLen + head.byteLen + 1) := by
          rw [ht]
          exact ⟨head ++ before ++ ['\n'], after, by simp,
            by simp [Char.utf8Size, Nat.add_comm, Nat.add_left_comm]⟩
        rwa [Nat.min_eq_left hnext.le_byteLen]

theorem beginningOfPreviousWord_spec (h : s.text.IsBoundary s.cursorPos) :
    ∃ start, s.beginningOfPreviousWord = some start ∧ s.text.IsBoundary start ∧
      start ≤ s.cursorPos := by
  obtain ⟨head, tail, ht, hpos, hhead, -⟩ := h.getTo_eq
  rw [beginningOfPreviousWord, hhead, Option.bind_eq_bind, Option.bind_some]
  cases hword : head.rfind fun c => !isWhitespace c with
  | none => exact ⟨0, rfl, isBoundary_zero _, Nat.zero_le _⟩
  | some last =>
      obtain ⟨before, c, after, rfl, -, rfl⟩ := rfind_spec hword
      have hbefore : getTo s.text before.byteLen = some before := by
        rw [ht, List.append_assoc]
        exact getTo_append_byteLen before _
      simp only [hbefore, Option.bind_eq_bind, Option.bind_some]
      cases hspace : before.rfind isWhitespace with
      | none => exact ⟨0, rfl, isBoundary_zero _, Nat.zero_le _⟩
      | some i =>
          obtain ⟨first, space, word, rfl, -, rfl⟩ := rfind_spec hspace
          have hrest : drain s.text first.byteLen =
              some (space :: (word ++ c :: after ++ tail)) := by
            rw [ht, show first ++ space :: word ++ c :: after ++ tail =
              first ++ space :: (word ++ c :: after ++ tail) by simp]
            exact drain_append_byteLen first _
          simp only [hrest, Option.bind_some, List.head?_cons, Option.pure_def]
          refine ⟨first.byteLen + space.utf8Size, rfl, ?_, ?_⟩
          · rw [ht]
            exact ⟨first ++ [space], word ++ c :: after ++ tail,
              by simp, by simp⟩
          · rw [hpos]
            simp only [byteLen_append, byteLen_cons]
            omega

theorem endOfNextWord_spec (h : s.text.IsBoundary s.cursorPos) :
    ∃ stop, s.endOfNextWord = some stop ∧ s.text.IsBoundary stop ∧
      s.cursorPos ≤ stop := by
  obtain ⟨head, tail, ht, hpos, -, htail⟩ := h.getTo_eq
  rw [endOfNextWord, htail, Option.bind_eq_bind, Option.bind_some]
  cases hword : tail.find fun c => !isWhitespace c with
  | none => exact ⟨s.text.byteLen, rfl, isBoundary_byteLen _, h.le_byteLen⟩
  | some first =>
      obtain ⟨spaces, c, after, rfl, -, rfl⟩ := find_spec hword
      have hdrain :
          drain s.text (s.cursorPos + spaces.byteLen) = some (c :: after) := by
        rw [ht, hpos, ← byteLen_append, ← List.append_assoc]
        exact drain_append_byteLen _ _
      simp only [hdrain, Option.bind_some, Option.pure_def]
      cases hspace : find isWhitespace (c :: after) with
      | none => exact ⟨s.text.byteLen, rfl, isBoundary_byteLen _, h.le_byteLen⟩
      | some i =>
          obtain ⟨word, space, rest, hafter, -, rfl⟩ := find_spec hspace
          refine ⟨s.cursorPos + spaces.byteLen + word.byteLen,
            rfl, ?_, by omega⟩
          rw [ht, hpos, hafter]
          exact ⟨head ++ spaces ++ word, space :: rest,
            by simp, by simp [Nat.add_assoc]⟩

/-! ## Graphemes and columns -/

section

variable {u : Unicode} (hu : u.Lawful)

include hu

theorem prevAtomicBoundary_spec (h : s.text.IsBoundary pos) :
    s.text.IsBoundary (s.prevAtomicBoundary u pos) ∧
      s.prevAtomicBoundary u pos ≤ pos := by
  obtain ⟨found, hfound, hb⟩ := hu.prevBoundary_ok s.text pos h
  rw [prevAtomicBoundary, hfound]
  split
  next => exact ⟨isBoundary_zero _, Nat.zero_le _⟩
  next =>
    cases found with
    | none => exact ⟨isBoundary_zero _, Nat.zero_le _⟩
    | some b => exact hb b rfl

theorem nextAtomicBoundary_spec (h : s.text.IsBoundary pos) :
    s.text.IsBoundary (s.nextAtomicBoundary u pos) ∧
      pos ≤ s.nextAtomicBoundary u pos := by
  obtain ⟨found, hfound, hb⟩ := hu.nextBoundary_ok s.text pos h
  rw [nextAtomicBoundary, hfound]
  split
  next => exact ⟨isBoundary_byteLen _, h.le_byteLen⟩
  next =>
    cases found with
    | none => exact ⟨isBoundary_byteLen _, h.le_byteLen⟩
    | some b => exact hb b rfl

theorem backwardTarget_spec (n : ℕ) (h : s.text.IsBoundary pos) :
    s.text.IsBoundary (s.backwardTarget u n pos) ∧
      s.backwardTarget u n pos ≤ pos := by
  induction n generalizing pos with
  | zero => exact ⟨h, Nat.le_refl _⟩
  | succ n ih =>
      obtain ⟨hprev, hle⟩ := prevAtomicBoundary_spec hu h
      simp only [backwardTarget]
      split
      next => exact ⟨hprev, hle⟩
      next => exact ⟨(ih hprev).1, (ih hprev).2.trans hle⟩

theorem forwardTarget_spec (n : ℕ) (h : s.text.IsBoundary pos) :
    s.text.IsBoundary (s.forwardTarget u n pos) ∧
      pos ≤ s.forwardTarget u n pos := by
  induction n generalizing pos with
  | zero => exact ⟨h, Nat.le_refl _⟩
  | succ n ih =>
      obtain ⟨hnext, hle⟩ := nextAtomicBoundary_spec hu h
      simp only [forwardTarget]
      split
      next => exact ⟨hnext, hle⟩
      next => exact ⟨(ih hnext).1, hle.trans (ih hnext).2⟩

omit hu in
/-- A grapheme begins where those before it end. -/
theorem displayColIndex_spec {col i width j : ℕ} {gs : List Text}
    (h : displayColIndex u col i width gs = some j) :
    ∃ before after : List Text, gs = before ++ after ∧
      j = i + byteLen before.flatten := by
  induction gs generalizing i width with
  | nil => cases h
  | cons g rest ih =>
      rw [displayColIndex] at h
      split at h
      next =>
        cases h
        exact ⟨[], g :: rest, rfl, rfl⟩
      next =>
        obtain ⟨before, after, rfl, rfl⟩ := ih h
        refine ⟨g :: before, after, rfl, ?_⟩
        rw [List.flatten_cons, byteLen_append, Nat.add_assoc]

theorem moveToDisplayColOnLine_spec {lineStart lineEnd : ℕ} (col : ℕ)
    (hstart : s.text.IsBoundary lineStart) (hend : s.text.IsBoundary lineEnd)
    (hle : lineStart ≤ lineEnd) :
    ∃ pos, s.text.IsBoundary pos ∧
      s.moveToDisplayColOnLine u lineStart lineEnd col =
        some { s with cursorPos := pos } := by
  obtain ⟨head, line, tail, ht, rfl, rfl, hslice⟩ :=
    slice_of_boundaries hstart hend hle
  have hpos :
      s.text.IsBoundary (((displayColIndex u col 0 0 (u.graphemes line)).map
      (head.byteLen + ·)).getD (head.byteLen + line.byteLen)) := by
    cases hfound : displayColIndex u col 0 0 (u.graphemes line) with
    | none => exact hend
    | some j =>
        obtain ⟨before, after, hgs, rfl⟩ := displayColIndex_spec hfound
        have hline : line = before.flatten ++ after.flatten := by
          rw [← List.flatten_append, ← hgs, hu.graphemes_flatten]
        rw [ht, hline]
        exact ⟨head ++ before.flatten, after.flatten ++ tail, by simp, by simp⟩
  refine ⟨_, hpos, ?_⟩
  simp only [moveToDisplayColOnLine, hslice, Option.bind_eq_bind,
    Option.bind_some,
    Option.pure_def, clampPosToNearestBoundary, Nat.min_eq_left hpos.le_byteLen]

end

/-! ## Edits -/

theorem mem_of_mem_keptSnapshots {stack : List UndoSnapshot}
    {snap : UndoSnapshot}
    (h : snap ∈ keptSnapshots stack) : snap ∈ stack := by
  rw [keptSnapshots] at h
  split at h
  next => exact List.mem_of_mem_drop h
  next => exact h

/-- The cursor and those of the snapshots lie on character boundaries, and so
do the ends of the wrapped lines. -/
structure OnBoundaries (s : TextArea) : Prop where
  cursor : s.text.IsBoundary s.cursorPos
  snapshots : ∀ snap ∈ s.undoStack, snap.text.IsBoundary snap.cursorPos
  lines : ∀ cache, s.wrapCache = some cache →
    ∀ line ∈ cache.lines, line.Within s.text

namespace OnBoundaries

theorem new : OnBoundaries {} :=
  ⟨isBoundary_zero _, fun _ h => absurd h List.not_mem_nil,
    fun _ h => by cases h⟩

theorem move (h : s.OnBoundaries) (hpos : s.text.IsBoundary pos)
    (col : Option ℕ) :
    OnBoundaries { s with cursorPos := pos, preferredCol := col } :=
  ⟨hpos, h.snapshots, h.lines⟩

theorem setCursor (h : s.OnBoundaries)
    (hpos : s.text.IsBoundary (s.clampPosToNearestBoundary pos)) :
    (s.setCursor pos).OnBoundaries :=
  h.move hpos none

theorem edit (h : s.OnBoundaries) {text : Text} (hpos : text.IsBoundary pos) :
    OnBoundaries { s with
      text := text, cursorPos := pos, wrapCache := none,
      preferredCol := none } :=
  ⟨hpos, h.snapshots, fun _ hcache => by cases hcache⟩

theorem pushUndoSnapshot (h : s.OnBoundaries) :
    s.pushUndoSnapshot.OnBoundaries := by
  refine ⟨h.cursor, fun snap hsnap => ?_, h.lines⟩
  rcases List.mem_append.1 (mem_of_mem_keptSnapshots hsnap) with hold | hnew
  · exact h.snapshots snap hold
  · rw [List.mem_singleton.1 hnew]
    exact h.cursor

/-- What is replaced between two boundaries moves the cursor with the text
behind it. -/
theorem replaceRange (h : s.OnBoundaries) {start stop : ℕ}
    (hstart : s.text.IsBoundary start)
    (hstop : s.text.IsBoundary stop) (hle : start ≤ stop) (text : Text) :
    ∃ t, s.replaceRange start stop text = some t ∧ t.OnBoundaries ∧
      t.text.IsBoundary start := by
  obtain ⟨head, old, tail, ht, rfl, rfl⟩ := hstart.exists_parts hstop hle
  have hcursor := h.cursor
  rw [TextArea.replaceRange, if_pos hle]
  simp only [Nat.min_eq_left hstart.le_byteLen,
    Nat.min_eq_left hstop.le_byteLen]
  split
  next => exact ⟨_, rfl, h.pushUndoSnapshot, hstart⟩
  next =>
    rw [ht, replaceRange_append, Option.map_some]
    refine ⟨_, rfl, ?_, by
      rw [List.append_assoc]
      exact isBoundary_length_append head _⟩
    refine h.pushUndoSnapshot.edit ?_
    have hpos : (head ++ text ++ tail : Text).IsBoundary
        (if s.cursorPos < head.byteLen then s.cursorPos
        else if s.cursorPos ≤ head.byteLen + old.byteLen then
          head.byteLen + text.byteLen
        else s.cursorPos + text.byteLen -
          (head.byteLen + old.byteLen - head.byteLen)) := by
      rw [ht, List.append_assoc] at hcursor
      split
      next hlt =>
        -- in front of the range
        rw [List.append_assoc]
        exact ((isBoundary_append_left _ hlt.le).1 hcursor).append_left _
      next =>
        split
        next =>
          rw [← byteLen_append]
          exact isBoundary_length_append _ tail
        next hgt =>
          -- behind the range
          rw [← List.append_assoc] at hcursor
          obtain ⟨first, last, rfl, hsplit⟩ :=
            hcursor.exists_split (s := head ++ old)
              (by rw [byteLen_append]; omega)
          rw [byteLen_append] at hsplit
          exact ⟨head ++ text ++ first, last, by simp, by
            simp only [byteLen_append]
            omega⟩
    rwa [Nat.min_eq_left hpos.le_byteLen]

theorem insertStrAt (h : s.OnBoundaries) (hpos : s.text.IsBoundary pos)
    (text : Text) :
    ∃ t, s.insertStrAt pos text = some t ∧ t.OnBoundaries := by
  obtain ⟨head, tail, ht, rfl⟩ := hpos
  have hcursor := h.cursor
  have hedit : Text.insertStr (head ++ tail) head.byteLen text =
      some (head ++ text ++ tail) := by
    have hrange := replaceRange_append head [] tail text
    rwa [List.append_nil, byteLen_nil, Nat.add_zero] at hrange
  have hpos : (head ++ text ++ tail : Text).IsBoundary
      (if head.byteLen ≤ s.cursorPos then s.cursorPos + text.byteLen
        else s.cursorPos) := by
    rw [ht] at hcursor
    split
    next hle =>
      obtain ⟨first, last, rfl, hsplit⟩ := hcursor.exists_split hle
      rw [hsplit]
      exact ⟨head ++ text ++ first, last, by simp, by
        simp only [byteLen_append]
        omega⟩
    next hgt =>
      rw [List.append_assoc]
      exact ((isBoundary_append_left _ (Nat.le_of_not_le hgt)).1
        hcursor).append_left _
  rw [TextArea.insertStrAt, ht, hedit, Option.map_some]
  exact ⟨_, rfl, h.pushUndoSnapshot.edit hpos⟩

theorem undo (h : s.OnBoundaries) : s.undo.OnBoundaries := by
  rw [TextArea.undo]
  split
  next => exact h
  next prev hprev =>
    have hsnap := h.snapshots prev (List.mem_of_getLast? hprev)
    refine ⟨?_,
      fun snap hsnap => h.snapshots snap (List.mem_of_mem_dropLast hsnap),
      fun _ hcache => by cases hcache⟩
    rwa [Nat.min_eq_left hsnap.le_byteLen]

end OnBoundaries

/-- The call does not panic, and leaves all on boundaries. -/
def Stays (result : Option TextArea) : Prop :=
  ∃ t, result = some t ∧ t.OnBoundaries

theorem OnBoundaries.stays (h : s.OnBoundaries) : Stays (some s) := ⟨s, rfl, h⟩

section

variable (h : s.OnBoundaries)

include h

theorem stays_replaceRange {start stop : ℕ} (hstart : s.text.IsBoundary start)
    (hstop : s.text.IsBoundary stop) (hle : start ≤ stop) (text : Text) :
    Stays (s.replaceRange start stop text) := by
  obtain ⟨t, ht, hgood, -⟩ := h.replaceRange hstart hstop hle text
  exact ⟨t, ht, hgood⟩

theorem stays_setCursor (hpos : s.text.IsBoundary pos) :
    Stays (some (s.setCursor pos)) := by
  refine (h.setCursor ?_).stays
  rwa [clampPosToNearestBoundary, Nat.min_eq_left hpos.le_byteLen]

theorem stays_deleteBackwardWord : Stays s.deleteBackwardWord := by
  obtain ⟨start, hstart, hb, hle⟩ := beginningOfPreviousWord_spec h.cursor
  rw [deleteBackwardWord, hstart]
  exact stays_replaceRange h hb h.cursor hle []

theorem stays_deleteForwardWord : Stays s.deleteForwardWord := by
  obtain ⟨stop, hstop, hb, hle⟩ := endOfNextWord_spec h.cursor
  rw [deleteForwardWord, hstop, Option.bind_eq_bind, Option.bind_some]
  split
  next => exact stays_replaceRange h h.cursor hb hle []
  next => exact h.stays

theorem stays_killToEndOfLine : Stays s.killToEndOfLine := by
  obtain ⟨eol, heol, hb, hnext, hle⟩ := endOfLine_spec h.cursor
  rw [killToEndOfLine, endOfCurrentLine, heol, Option.bind_eq_bind,
    Option.bind_some]
  split
  next =>
    split
    next hlt =>
      rw [Nat.min_eq_left hlt] at hnext
      exact stays_replaceRange h h.cursor hnext (hle.trans (Nat.le_succ _)) []
    next => exact h.stays
  next => exact stays_replaceRange h h.cursor hb hle []

theorem stays_killToBeginningOfLine : Stays s.killToBeginningOfLine := by
  obtain ⟨bol, hbol, hb, hprev, hle⟩ := beginningOfLine_spec h.cursor
  rw [killToBeginningOfLine, beginningOfCurrentLine, hbol, Option.bind_eq_bind,
    Option.bind_some]
  split
  next =>
    split
    next => exact stays_replaceRange h hprev hb (Nat.sub_le _ _) []
    next => exact h.stays
  next => exact stays_replaceRange h hb h.cursor hle []

theorem stays_deleteEntireLine : Stays s.deleteEntireLine := by
  obtain ⟨bol, hbol, hb, -, hle⟩ := beginningOfLine_spec h.cursor
  obtain ⟨eol, heol, he, -, hle'⟩ := endOfLine_spec h.cursor
  simp only [deleteEntireLine, beginningOfCurrentLine,
    endOfCurrentLine, hbol, heol,
    Option.bind_eq_bind, Option.bind_some, Option.pure_def]
  split
  next =>
    obtain ⟨t, ht, hgood, hbt⟩ := h.replaceRange hb he (hle.trans hle') []
    rw [ht, Option.bind_some]
    exact stays_setCursor hgood hbt
  next => exact stays_setCursor h hb

theorem stays_moveCursorToBeginningOfLine (moveUpAtBol : Bool) :
    Stays (s.moveCursorToBeginningOfLine moveUpAtBol) := by
  obtain ⟨bol, hbol, hb, hprev, -⟩ := beginningOfLine_spec h.cursor
  rw [moveCursorToBeginningOfLine, beginningOfCurrentLine, hbol,
    Option.bind_eq_bind,
    Option.bind_some]
  split
  next hup =>
    obtain ⟨bol', hbol', hb', -, -⟩ := beginningOfLine_spec hprev
    rw [hup.2, hbol']
    exact stays_setCursor h hb'
  next => exact stays_setCursor h hb

theorem stays_moveCursorToEndOfLine (moveDownAtEol : Bool) :
    Stays (s.moveCursorToEndOfLine moveDownAtEol) := by
  obtain ⟨eol, heol, hb, hnext, -⟩ := endOfLine_spec h.cursor
  rw [moveCursorToEndOfLine, endOfCurrentLine, heol, Option.bind_eq_bind,
    Option.bind_some]
  split
  next hdown =>
    obtain ⟨eol', heol', hb', -, -⟩ := endOfLine_spec hnext
    rw [hdown.2, heol']
    exact stays_setCursor h hb'
  next => exact stays_setCursor h hb

end

/-! ## Wrapped lines -/

theorem wrappedLineIndexByStart_spec {lines : List LineRange} {idx : ℕ}
    (h : wrappedLineIndexByStart lines pos = some idx) :
    ∃ line, lines[idx]? = some line ∧ line ∈ lines ∧ line.start ≤ pos := by
  simp only [wrappedLineIndexByStart] at h
  split at h
  next => cases h
  next hne =>
    obtain rfl := Option.some.inj h
    have hlt : (lines.takeWhile fun line => line.start ≤ pos).length - 1 <
        (lines.takeWhile fun line => line.start ≤ pos).length :=
      Nat.sub_lt (Nat.pos_of_ne_zero hne) Nat.one_pos
    have hmem := List.getElem_mem hlt
    have hstart := List.mem_takeWhile_imp hmem
    refine ⟨_, ?_, (List.takeWhile_prefix _).subset hmem, by simpa using hstart⟩
    exact List.prefix_iff_getElem?.1 (List.takeWhile_prefix _) _ hlt

theorem lines_of_wrappedPosition (h : s.OnBoundaries)
    {lines : List LineRange} {idx : ℕ}
    (hposition : s.wrappedPosition = some (lines, idx)) :
    (∀ line ∈ lines, line.Within s.text) ∧
      ∃ line, lines[idx]? = some line ∧ line ∈ lines ∧
      line.start ≤ s.cursorPos := by
  obtain ⟨cache, hcache, hrest⟩ := Option.bind_eq_some_iff.1 hposition
  obtain ⟨i, hi, hpair⟩ := Option.bind_eq_some_iff.1 hrest
  obtain ⟨rfl, rfl⟩ := Prod.mk.inj (Option.some.inj hpair)
  exact ⟨h.lines cache hcache, wrappedLineIndexByStart_spec hi⟩

theorem slice_cursor (h : s.OnBoundaries) {start : ℕ}
    (hstart : s.text.IsBoundary start)
    (hle : start ≤ s.cursorPos) :
    ∃ part, s.text.slice start s.cursorPos = some part := by
  obtain ⟨-, part, -, -, -, -, hslice⟩ :=
    slice_of_boundaries hstart h.cursor hle
  exact ⟨part, hslice⟩

section

variable {u : Unicode}

theorem wrappedTargetCol_isSome (h : s.OnBoundaries) {start : ℕ}
    (hstart : s.text.IsBoundary start) (hle : start ≤ s.cursorPos) :
    ∃ col, s.wrappedTargetCol u start = some col := by
  obtain ⟨part, hpart⟩ := slice_cursor h hstart hle
  rw [wrappedTargetCol, hpart]
  cases s.preferredCol with
  | none => exact ⟨_, rfl⟩
  | some col => exact ⟨col, rfl⟩

theorem targetCol_isSome (h : s.OnBoundaries) :
    ∃ col, s.targetCol u = some col := by
  obtain ⟨bol, hbol, hb, -, hle⟩ := beginningOfLine_spec h.cursor
  obtain ⟨part, hpart⟩ := slice_cursor h hb hle
  rw [targetCol, currentDisplayCol, beginningOfCurrentLine, hbol,
    Option.bind_eq_bind,
    Option.bind_some, hpart]
  cases s.preferredCol with
  | none => exact ⟨_, rfl⟩
  | some col => exact ⟨col, rfl⟩

/-- The range of a wrapped line of the text, whatever spaces are behind it. -/
theorem lineRange_borrowed {text : Text} {start stop : ℕ}
    (hstart : text.IsBoundary start)
    (hstop : text.IsBoundary stop) (hle : start ≤ stop) :
    ∃ line, lineRange text (.borrowed start stop) = some line ∧
      line.Within text := by
  obtain ⟨head, rest, rfl, rfl, -, hdrain⟩ := hstop.getTo_eq
  rw [lineRange, hdrain, Option.bind_eq_bind, Option.bind_some]
  refine ⟨_, rfl, hstart, ?_, by
    simp only [Nat.add_sub_cancel]
    omega⟩
  have hspaces : byteLen (rest.takeWhile (· = ' ')) =
      (rest.takeWhile (· = ' ')).length := by
    refine IsAscii.byteLen_eq fun c hc => ?_
    have hspace := List.mem_takeWhile_imp hc
    rw [of_decide_eq_true hspace]
    decide
  refine ⟨head ++ rest.takeWhile (· = ' '), rest.dropWhile (· = ' '), ?_, ?_⟩
  · rw [List.append_assoc, List.takeWhile_append_dropWhile]
  · rw [byteLen_append, hspaces]
    rfl

variable (hu : u.Lawful)

include hu

theorem mapM_lineRange {text : Text} {width : ℕ} {wrapped : List WrappedLine}
    (hwrapped : ∀ line ∈ wrapped, line ∈ u.wrap width text)
    (hslices : ∀ line ∈ wrapped, line ≠ .owned) :
    ∃ lines, wrapped.mapM (lineRange text) = some lines ∧
      ∀ line ∈ lines, line.Within text := by
  induction wrapped with
  | nil => exact ⟨[], rfl, fun _ h => absurd h List.not_mem_nil⟩
  | cons line rest ih =>
      obtain ⟨lines, hlines, hwithin⟩ :=
        ih (fun l hl => hwrapped l (List.mem_cons_of_mem _ hl))
          fun l hl => hslices l (List.mem_cons_of_mem _ hl)
      cases line with
      | owned => exact absurd rfl (hslices .owned List.mem_cons_self)
      | borrowed start stop =>
          obtain ⟨hstart, hstop, hle⟩ :=
            hu.wrap_borrowed width text start stop
              (hwrapped _ List.mem_cons_self)
          obtain ⟨range, hrange, hin⟩ := lineRange_borrowed hstart hstop hle
          refine ⟨range :: lines, ?_, ?_⟩
          · rw [List.mapM_cons, hrange, hlines]
            rfl
          · exact List.forall_mem_cons.2 ⟨hin, hwithin⟩

/-! ## Motions -/

theorem stays_deleteBackward (h : s.OnBoundaries) (n : ℕ) :
    Stays (s.deleteBackward u n) := by
  obtain ⟨hb, hle⟩ := backwardTarget_spec hu n h.cursor
  rw [deleteBackward]
  split
  next => exact h.stays
  next => exact stays_replaceRange h hb h.cursor hle []

theorem stays_deleteForward (h : s.OnBoundaries) (n : ℕ) :
    Stays (s.deleteForward u n) := by
  obtain ⟨hb, hle⟩ := forwardTarget_spec hu n h.cursor
  rw [deleteForward]
  split
  next => exact h.stays
  next => exact stays_replaceRange h h.cursor hb hle []

theorem stays_moveToDisplayColOnLine (h : s.OnBoundaries)
    {lineStart lineEnd : ℕ} (col : ℕ)
    (hstart : s.text.IsBoundary lineStart) (hend : s.text.IsBoundary lineEnd)
    (hle : lineStart ≤ lineEnd) :
    Stays ({ s with
      preferredCol := some col }.moveToDisplayColOnLine u lineStart lineEnd
      col) := by
  obtain ⟨pos, hpos, hmove⟩ := moveToDisplayColOnLine_spec hu
    (s := { s with preferredCol := some col }) col hstart hend hle
  exact ⟨_, hmove, h.move hpos (some col)⟩

theorem stays_moveUpWrapped (h : s.OnBoundaries)
    {lines : List LineRange} {idx : ℕ}
    (hposition : s.wrappedPosition = some (lines, idx)) :
    Stays (s.moveUpWrapped u lines idx) := by
  obtain ⟨hwithin, line, hline, hmem, hle⟩ :=
    lines_of_wrappedPosition h hposition
  obtain ⟨col, hcol⟩ :=
    wrappedTargetCol_isSome (u := u) h (hwithin line hmem).start hle
  simp only [moveUpWrapped, hline, hcol, Option.bind_eq_bind, Option.bind_some]
  split
  next =>
    have hlt : idx - 1 < lines.length :=
      Nat.lt_of_le_of_lt (Nat.sub_le _ _) (List.getElem?_eq_some_iff.1 hline).1
    have hprev := hwithin _ (List.getElem_mem hlt)
    rw [List.getElem?_eq_getElem hlt, Option.bind_some]
    exact stays_moveToDisplayColOnLine hu h col hprev.start hprev.stop hprev.le
  next => exact (h.move (isBoundary_zero _) none).stays

theorem stays_moveDownWrapped (h : s.OnBoundaries)
    {lines : List LineRange} {idx : ℕ}
    (hposition : s.wrappedPosition = some (lines, idx)) :
    Stays (s.moveDownWrapped u lines idx) := by
  obtain ⟨hwithin, line, hline, hmem, hle⟩ :=
    lines_of_wrappedPosition h hposition
  obtain ⟨col, hcol⟩ :=
    wrappedTargetCol_isSome (u := u) h (hwithin line hmem).start hle
  simp only [moveDownWrapped, hline, hcol, Option.bind_eq_bind,
    Option.bind_some]
  split
  next hlt =>
    have hnext := hwithin _ (List.getElem_mem hlt)
    rw [List.getElem?_eq_getElem hlt, Option.bind_some]
    exact stays_moveToDisplayColOnLine hu h col hnext.start hnext.stop hnext.le
  next => exact (h.move (isBoundary_byteLen _) none).stays

theorem stays_moveCursorUp (h : s.OnBoundaries) : Stays (s.moveCursorUp u) := by
  rw [moveCursorUp]
  split
  next lines idx hposition => exact stays_moveUpWrapped hu h hposition
  next =>
    obtain ⟨head, tail, ht, -, hhead, -⟩ := h.cursor.getTo_eq
    rw [hhead, Option.bind_eq_bind, Option.bind_some]
    split
    next => exact (h.move (isBoundary_zero _) none).stays
    next prevNl hfind =>
      obtain ⟨before, c, after, rfl, -, rfl⟩ := rfind_spec hfind
      have hnl : s.text.IsBoundary before.byteLen := by
        rw [ht, List.append_assoc]
        exact isBoundary_length_append before _
      obtain ⟨col, hcol⟩ := targetCol_isSome (u := u) h
      obtain ⟨bol, hbol, hb, -, hle⟩ := beginningOfLine_spec hnl
      simp only [hcol, hbol]
      exact stays_moveToDisplayColOnLine hu h col hb hnl hle

theorem stays_moveCursorDown (h : s.OnBoundaries) :
    Stays (s.moveCursorDown u) := by
  rw [moveCursorDown]
  split
  next lines idx hposition => exact stays_moveDownWrapped hu h hposition
  next =>
    obtain ⟨head, tail, ht, hpos, -, htail⟩ := h.cursor.getTo_eq
    obtain ⟨col, hcol⟩ := targetCol_isSome (u := u) h
    simp only [hcol, htail, Option.bind_eq_bind, Option.bind_some]
    split
    next => exact (h.move (isBoundary_byteLen _) none).stays
    next i hfind =>
      obtain ⟨before, c, after, rfl, hc, rfl⟩ := find_spec hfind
      obtain rfl : c = '\n' := by simpa using hc
      have hstart : s.text.IsBoundary (before.byteLen + s.cursorPos + 1) := by
        rw [ht, hpos]
        exact ⟨head ++ before ++ ['\n'], after, by simp,
          by simp [Char.utf8Size, Nat.add_comm, Nat.add_left_comm]⟩
      obtain ⟨eol, heol, he, -, hle⟩ := endOfLine_spec hstart
      simp only [heol, Option.bind_some]
      exact stays_moveToDisplayColOnLine hu h col hstart he hle

/-- The lines for a width are at hand, or wrapping the text gives slices of
it. -/
def Wraps (u : Unicode) (s : TextArea) (width : ℕ) : Prop :=
  (s.wrapCache.filter fun cache => cache.width = width) ≠ none ∨
    ∀ line ∈ u.wrap (width - 1) s.text, line ≠ .owned

theorem wrappedLines_spec (h : s.OnBoundaries) {width : ℕ}
    (hwraps : Wraps u s width) :
    ∃ cache, s.wrappedLines u width =
      some ({ s with wrapCache := some cache }, cache.lines) ∧
      ∀ line ∈ cache.lines, line.Within s.text := by
  rw [wrappedLines]
  cases hcache : s.wrapCache.filter fun cache => cache.width = width with
  | some cache =>
      obtain ⟨hkept, -⟩ := Option.filter_eq_some_iff.1 hcache
      have hs : { s with wrapCache := some cache } = s := by rw [← hkept]
      exact ⟨cache, by rw [hs], h.lines cache hkept⟩
  | none =>
      have hslices := hwraps.resolve_left fun hne => hne hcache
      obtain ⟨lines, hlines, hwithin⟩ :=
        mapM_lineRange hu (fun line hline => hline) hslices
      refine ⟨⟨width, lines⟩, ?_, hwithin⟩
      simp only [hlines, Option.bind_eq_bind, Option.bind_some, Option.pure_def]

omit hu in
theorem OnBoundaries.wrapped (h : s.OnBoundaries) {cache : WrapCache}
    (hwithin : ∀ line ∈ cache.lines, line.Within s.text) :
    OnBoundaries { s with wrapCache := some cache } :=
  ⟨h.cursor, h.snapshots, fun _ hcache => Option.some.inj hcache ▸ hwithin⟩

theorem stays_desiredHeight (h : s.OnBoundaries) {width : ℕ}
    (hwraps : Wraps u s width) :
    Stays ((s.desiredHeight u width).map Prod.fst) := by
  obtain ⟨cache, hcache, hwithin⟩ := wrappedLines_spec hu h hwraps
  rw [desiredHeight, hcache]
  exact (h.wrapped hwithin).stays

theorem stays_cursorPosWithState (h : s.OnBoundaries) {width : ℕ}
    (hwraps : Wraps u s width) :
    Stays ((s.cursorPosWithState u width).map Prod.fst) := by
  obtain ⟨cache, hcache, hwithin⟩ := wrappedLines_spec hu h hwraps
  simp only [cursorPosWithState, hcache, Option.bind_eq_bind, Option.bind_some]
  split
  next => exact (h.wrapped hwithin).stays
  next i hi =>
    obtain ⟨line, hline, hmem, hle⟩ := wrappedLineIndexByStart_spec hi
    obtain ⟨part, hpart⟩ := slice_cursor h (hwithin line hmem).start hle
    simp only [hline, hpart, Option.bind_some]
    exact (h.wrapped hwithin).stays

end

end TextArea

end CodeRs.Composer
