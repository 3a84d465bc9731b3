import CodeRs.Lib.TextEdit
import Mathlib.Algebra.Order.Group.Nat

/-!
# The text area of the composer

`TextArea` of `tui/src/bottom_pane/textarea.rs`: a text with a cursor at one of
its bytes.  A method that cuts the text inside a character panics and has no
result.  What the crates `unicode-segmentation`, `unicode-width` and `textwrap`
compute is a parameter.
-/

namespace CodeRs.Composer

/-- A line of `textwrap::wrap`: a slice of the text, or a text of its own. -/
inductive WrappedLine where
  | borrowed (start stop : ℕ)
  | owned
  deriving DecidableEq

/-- What the crates compute. -/
structure Unicode where
  /-- `graphemes(true)`. -/
  graphemes : Text → List Text
  /-- `UnicodeWidthStr::width`. -/
  width : Text → ℕ
  /-- `GraphemeCursor::prev_boundary` from a byte of the text, which is the
  whole chunk. -/
  prevBoundary : Text → ℕ → Except Unit (Option ℕ)
  /-- `GraphemeCursor::next_boundary`. -/
  nextBoundary : Text → ℕ → Except Unit (Option ℕ)
  /-- `textwrap::wrap` with the first fit. -/
  wrap : ℕ → Text → List WrappedLine

/-- `Range<usize>`, for a wrapped line. -/
structure LineRange where
  start : ℕ
  stop : ℕ
  deriving DecidableEq

structure WrapCache where
  width : ℕ
  lines : List LineRange
  deriving DecidableEq

structure UndoSnapshot where
  text : Text
  cursorPos : ℕ

structure TextArea where
  text : Text := []
  cursorPos : ℕ := 0
  wrapCache : Option WrapCache := none
  preferredCol : Option ℕ := none
  undoStack : List UndoSnapshot := []

def maxUndoSnapshots : ℕ := 128

namespace TextArea

def clampPosToNearestBoundary (s : TextArea) (pos : ℕ) : ℕ :=
  min pos s.text.byteLen

/-- The newest snapshots, without the oldest ones in excess. -/
def keptSnapshots (stack : List UndoSnapshot) : List UndoSnapshot :=
  if maxUndoSnapshots < stack.length then
    stack.drop (stack.length - maxUndoSnapshots)
  else stack

def pushUndoSnapshot (s : TextArea) : TextArea :=
  { s with undoStack := keptSnapshots (s.undoStack ++ [⟨s.text, s.cursorPos⟩]) }

/-! ## Lines and words -/

def beginningOfLine (s : TextArea) (pos : ℕ) : Option ℕ :=
  (s.text.getTo pos).map fun before =>
    ((before.rfind (· == '\n')).map (· + 1)).getD 0

def endOfLine (s : TextArea) (pos : ℕ) : Option ℕ :=
  (s.text.drain pos).map fun rest =>
    ((rest.find (· == '\n')).map (· + pos)).getD s.text.byteLen

def beginningOfCurrentLine (s : TextArea) : Option ℕ :=
  s.beginningOfLine s.cursorPos

def endOfCurrentLine (s : TextArea) : Option ℕ := s.endOfLine s.cursorPos

def beginningOfPreviousWord (s : TextArea) : Option ℕ := do
  let before ← s.text.getTo s.cursorPos
  match before.rfind fun c => !Text.isWhitespace c with
  | none => return 0
  | some firstNonWs =>
      let before ← s.text.getTo firstNonWs
      match before.rfind Text.isWhitespace with
      | none => return 0
      | some i =>
          let rest ← s.text.drain i
          let c ← rest.head?
          return i + c.utf8Size

def endOfNextWord (s : TextArea) : Option ℕ := do
  let rest ← s.text.drain s.cursorPos
  match rest.find fun c => !Text.isWhitespace c with
  | none => return s.text.byteLen
  | some firstNonWs =>
      let wordStart := s.cursorPos + firstNonWs
      let word ← s.text.drain wordStart
      return ((word.find Text.isWhitespace).map (wordStart + ·)).getD
        s.text.byteLen

/-! ## Edits -/

def setText (s : TextArea) (text : Text) : TextArea :=
  { s with
    text := text
    cursorPos := min s.cursorPos text.byteLen
    wrapCache := none
    preferredCol := none }

def insertStrAt (s : TextArea) (pos : ℕ) (text : Text) : Option TextArea :=
  (s.text.insertStr pos text).map fun edited =>
    { s.pushUndoSnapshot with
      text := edited
      wrapCache := none
      cursorPos := if pos ≤ s.cursorPos then s.cursorPos + text.byteLen
        else s.cursorPos
      preferredCol := none }

def insertStr (s : TextArea) (text : Text) : Option TextArea :=
  s.insertStrAt s.cursorPos text

def replaceRange (s : TextArea) (start stop : ℕ) (text : Text) :
    Option TextArea :=
  if start ≤ stop then
    let first := min start s.text.byteLen
    let last := min stop s.text.byteLen
    let removedLen := last - first
    let insertedLen := text.byteLen
    if removedLen = 0 ∧ insertedLen = 0 then some s.pushUndoSnapshot
    else
      (s.text.replaceRange start stop text).map fun edited =>
        let cursor :=
          if s.cursorPos < first then s.cursorPos
          else if s.cursorPos ≤ last then first + insertedLen
          else s.cursorPos + insertedLen - removedLen
        { s.pushUndoSnapshot with
          text := edited
          wrapCache := none
          preferredCol := none
          cursorPos := min cursor edited.byteLen }
  else none

def setCursor (s : TextArea) (pos : ℕ) : TextArea :=
  { s with cursorPos := s.clampPosToNearestBoundary pos, preferredCol := none }

def undo (s : TextArea) : TextArea :=
  match s.undoStack.getLast? with
  | none => s
  | some prev =>
      { text := prev.text
        cursorPos := min prev.cursorPos prev.text.byteLen
        undoStack := s.undoStack.dropLast }

def deleteBackwardWord (s : TextArea) : Option TextArea := do
  let start ← s.beginningOfPreviousWord
  s.replaceRange start s.cursorPos []

def deleteForwardWord (s : TextArea) : Option TextArea := do
  let stop ← s.endOfNextWord
  if s.cursorPos < stop then s.replaceRange s.cursorPos stop [] else some s

def killToEndOfLine (s : TextArea) : Option TextArea := do
  let eol ← s.endOfCurrentLine
  if s.cursorPos = eol then
    if eol < s.text.byteLen then s.replaceRange s.cursorPos (eol + 1) []
      else some s
  else s.replaceRange s.cursorPos eol []

def killToBeginningOfLine (s : TextArea) : Option TextArea := do
  let bol ← s.beginningOfCurrentLine
  if s.cursorPos = bol then
    if 0 < bol then s.replaceRange (bol - 1) bol [] else some s
  else s.replaceRange bol s.cursorPos []

def deleteEntireLine (s : TextArea) : Option TextArea := do
  let bol ← s.beginningOfCurrentLine
  let eol ← s.endOfCurrentLine
  let t ← if bol < eol then s.replaceRange bol eol [] else some s
  return t.setCursor bol

def moveCursorToBeginningOfLine (s : TextArea) (moveUpAtBol : Bool) :
    Option TextArea := do
  let bol ← s.beginningOfCurrentLine
  if moveUpAtBol = true ∧ s.cursorPos = bol then
    return s.setCursor (← s.beginningOfLine (s.cursorPos - 1))
  else return s.setCursor bol

def moveCursorToEndOfLine (s : TextArea) (moveDownAtEol : Bool) :
    Option TextArea := do
  let eol ← s.endOfCurrentLine
  if moveDownAtEol = true ∧ s.cursorPos = eol then
    return s.setCursor (← s.endOfLine (min (s.cursorPos + 1) s.text.byteLen))
  else return s.setCursor eol

/-! ## Graphemes -/

section

variable (u : Unicode)

def prevAtomicBoundary (s : TextArea) (pos : ℕ) : ℕ :=
  if pos = 0 then 0
  else
    match u.prevBoundary s.text pos with
    | .ok (some b) => b
    | .ok none => 0
    | .error _ => pos - 1

def nextAtomicBoundary (s : TextArea) (pos : ℕ) : ℕ :=
  if s.text.byteLen ≤ pos then s.text.byteLen
  else
    match u.nextBoundary s.text pos with
    | .ok (some b) => b
    | .ok none => s.text.byteLen
    | .error _ => pos + 1

/-- The loop of `delete_backward`. -/
def backwardTarget (s : TextArea) : ℕ → ℕ → ℕ
  | 0, target => target
  | n + 1, target =>
      let target := s.prevAtomicBoundary u target
      if target = 0 then target else backwardTarget s n target

/-- The loop of `delete_forward`. -/
def forwardTarget (s : TextArea) : ℕ → ℕ → ℕ
  | 0, target => target
  | n + 1, target =>
      let target := s.nextAtomicBoundary u target
      if s.text.byteLen ≤ target then target else forwardTarget s n target

def deleteBackward (s : TextArea) (n : ℕ) : Option TextArea :=
  if n = 0 ∨ s.cursorPos = 0 then some s
  else s.replaceRange (s.backwardTarget u n s.cursorPos) s.cursorPos []

def deleteForward (s : TextArea) (n : ℕ) : Option TextArea :=
  if n = 0 ∨ s.text.byteLen ≤ s.cursorPos then some s
  else s.replaceRange s.cursorPos (s.forwardTarget u n s.cursorPos) []

def moveCursorLeft (s : TextArea) : TextArea :=
  { s with
    cursorPos := s.prevAtomicBoundary u s.cursorPos, preferredCol := none }

def moveCursorRight (s : TextArea) : TextArea :=
  { s with
    cursorPos := s.nextAtomicBoundary u s.cursorPos, preferredCol := none }

/-! ## Columns -/

/-- The loop of `move_to_display_col_on_line`: the byte where the grapheme
begins that goes beyond the column. -/
def displayColIndex (targetCol : ℕ) : ℕ → ℕ → List Text → Option ℕ
  | _, _, [] => none
  | i, widthSoFar, g :: rest =>
      if targetCol < widthSoFar + u.width g then some i
      else
        displayColIndex targetCol (i + g.byteLen) (widthSoFar + u.width g) rest

def moveToDisplayColOnLine (s : TextArea) (lineStart lineEnd targetCol : ℕ) :
    Option TextArea := do
  let line ← s.text.slice lineStart lineEnd
  let pos :=
    ((displayColIndex u targetCol 0 0 (u.graphemes line)).map
      (lineStart + ·)).getD lineEnd
  return { s with cursorPos := s.clampPosToNearestBoundary pos }

def currentDisplayCol (s : TextArea) : Option ℕ := do
  let bol ← s.beginningOfCurrentLine
  (s.text.slice bol s.cursorPos).map u.width

/-- The preferred column, or that of the cursor on a wrapped line. -/
def wrappedTargetCol (s : TextArea) (lineStart : ℕ) : Option ℕ :=
  s.preferredCol.or ((s.text.slice lineStart s.cursorPos).map u.width)

/-- The preferred column, or that of the cursor on its line. -/
def targetCol (s : TextArea) : Option ℕ :=
  s.preferredCol.or (s.currentDisplayCol u)

/-- `wrapped_line_index_by_start`.  The lines come in the order of the text, so
those that start at or before the cursor are the first ones. -/
def wrappedLineIndexByStart (lines : List LineRange) (pos : ℕ) : Option ℕ :=
  let idx := (lines.takeWhile fun line => line.start ≤ pos).length
  if idx = 0 then none else some (idx - 1)

/-- The wrapped lines and the one that the cursor is on. -/
def wrappedPosition (s : TextArea) : Option (List LineRange × ℕ) := do
  let cache ← s.wrapCache
  let idx ← wrappedLineIndexByStart cache.lines s.cursorPos
  return (cache.lines, idx)

/-- `move_cursor_up` on wrapped lines. -/
def moveUpWrapped (s : TextArea) (lines : List LineRange) (idx : ℕ) :
    Option TextArea := do
  let curRange ← lines[idx]?
  let col ← s.wrappedTargetCol u curRange.start
  if 0 < idx then
    let prev ← lines[idx - 1]?
    { s with
      preferredCol := some col }.moveToDisplayColOnLine u prev.start
      (prev.stop - 1) col
  else return { s with cursorPos := 0, preferredCol := none }

def moveCursorUp (s : TextArea) : Option TextArea :=
  match s.wrappedPosition with
  | some (lines, idx) => s.moveUpWrapped u lines idx
  | none => do
      let before ← s.text.getTo s.cursorPos
      match before.rfind (· == '\n') with
      | none => return { s with cursorPos := 0, preferredCol := none }
      | some prevNl =>
          let col ← s.targetCol u
          let prevLineStart ← s.beginningOfLine prevNl
          { s with
            preferredCol := some col }.moveToDisplayColOnLine u
            prevLineStart prevNl col

/-- `move_cursor_down` on wrapped lines. -/
def moveDownWrapped (s : TextArea) (lines : List LineRange) (idx : ℕ) :
    Option TextArea := do
  let curRange ← lines[idx]?
  let col ← s.wrappedTargetCol u curRange.start
  if idx + 1 < lines.length then
    let next ← lines[idx + 1]?
    { s with
      preferredCol := some col }.moveToDisplayColOnLine u next.start
      (next.stop - 1) col
  else return { s with cursorPos := s.text.byteLen, preferredCol := none }

def moveCursorDown (s : TextArea) : Option TextArea :=
  match s.wrappedPosition with
  | some (lines, idx) => s.moveDownWrapped u lines idx
  | none => do
      let col ← s.targetCol u
      let rest ← s.text.drain s.cursorPos
      match rest.find (· == '\n') with
      | none =>
          return { s with cursorPos := s.text.byteLen, preferredCol := none }
      | some i =>
          let nextLineStart := i + s.cursorPos + 1
          let nextLineEnd ← s.endOfLine nextLineStart
          { s with
            preferredCol := some col }.moveToDisplayColOnLine u nextLineStart
            nextLineEnd col

/-! ## Wrapping -/

/-- The range of a wrapped line, with the spaces behind it.  A line that is no
slice of the text is unreachable. -/
def lineRange (text : Text) : WrappedLine → Option LineRange
  | .owned => none
  | .borrowed start stop => do
      let rest ← text.drain stop
      let trailingSpaces := (rest.takeWhile (· = ' ')).length
      return ⟨start, stop + trailingSpaces + 1⟩

/-- `wrapped_lines`: the lines are kept for the width. -/
def wrappedLines (s : TextArea) (width : ℕ) :
    Option (TextArea × List LineRange) :=
  match s.wrapCache.filter fun cache => cache.width = width with
  | some cache => some (s, cache.lines)
  | none => do
      let lines ← (u.wrap (width - 1) s.text).mapM (lineRange s.text)
      return ({ s with wrapCache := some ⟨width, lines⟩ }, lines)

def desiredHeight (s : TextArea) (width : ℕ) : Option (TextArea × ℕ) :=
  (s.wrappedLines u width).map fun (t, lines) => (t, lines.length % 2 ^ 16)

/-- `cursor_pos_with_state`: the wrapped line of the cursor and its column
there. -/
def cursorPosWithState (s : TextArea) (width : ℕ) :
    Option (TextArea × Option (ℕ × ℕ)) := do
  let (t, lines) ← s.wrappedLines u width
  match wrappedLineIndexByStart lines s.cursorPos with
  | none => return (t, none)
  | some i =>
      let line ← lines[i]?
      let before ← s.text.slice line.start s.cursorPos
      return (t, some (i, u.width before % 2 ^ 16))

end

end TextArea

/-! ## Operations -/

/-- A call of a method that may change the text area. -/
inductive TextAreaOp where
  | setText (text : Text)
  | setCursor (pos : ℕ)
  | insertStr (text : Text)
  | insertStrAt (pos : ℕ) (text : Text)
  | replaceRange (start stop : ℕ) (text : Text)
  | deleteBackward (n : ℕ)
  | deleteForward (n : ℕ)
  | deleteBackwardWord
  | deleteForwardWord
  | killToEndOfLine
  | killToBeginningOfLine
  | deleteEntireLine
  | undo
  | moveCursorLeft
  | moveCursorRight
  | moveCursorUp
  | moveCursorDown
  | moveCursorToBeginningOfLine (moveUpAtBol : Bool)
  | moveCursorToEndOfLine (moveDownAtEol : Bool)
  | moveToPreviousWord
  | moveToNextWord
  | desiredHeight (width : ℕ)
  | cursorPosWithState (width : ℕ)

/-- What a call leaves, unless it panics. -/
def TextArea.call (u : Unicode) (s : TextArea) : TextAreaOp → Option TextArea
  | .setText text => some (s.setText text)
  | .setCursor pos => some (s.setCursor pos)
  | .insertStr text => s.insertStr text
  | .insertStrAt pos text => s.insertStrAt pos text
  | .replaceRange start stop text => s.replaceRange start stop text
  | .deleteBackward n => s.deleteBackward u n
  | .deleteForward n => s.deleteForward u n
  | .deleteBackwardWord => s.deleteBackwardWord
  | .deleteForwardWord => s.deleteForwardWord
  | .killToEndOfLine => s.killToEndOfLine
  | .killToBeginningOfLine => s.killToBeginningOfLine
  | .deleteEntireLine => s.deleteEntireLine
  | .undo => some s.undo
  | .moveCursorLeft => some (s.moveCursorLeft u)
  | .moveCursorRight => some (s.moveCursorRight u)
  | .moveCursorUp => s.moveCursorUp u
  | .moveCursorDown => s.moveCursorDown u
  | .moveCursorToBeginningOfLine moveUpAtBol =>
      s.moveCursorToBeginningOfLine moveUpAtBol
  | .moveCursorToEndOfLine moveDownAtEol =>
      s.moveCursorToEndOfLine moveDownAtEol
  | .moveToPreviousWord => s.beginningOfPreviousWord.map s.setCursor
  | .moveToNextWord => s.endOfNextWord.map s.setCursor
  | .desiredHeight width => (s.desiredHeight u width).map Prod.fst
  | .cursorPosWithState width => (s.cursorPosWithState u width).map Prod.fst

end CodeRs.Composer
