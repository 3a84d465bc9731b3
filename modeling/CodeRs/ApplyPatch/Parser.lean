import CodeRs.ApplyPatch.Hunk
import CodeRs.Lib.Lines

/-!
# The patch parser

`parse_patch` of `apply-patch/src/parser.rs`, line by line.  A `PathBuf` is the
text it is made from.  Where the source cuts the lines that a call has read off
its slice, the loops here count them down.
-/

namespace CodeRs.ApplyPatch

/-! ## Results and errors -/

/-- A `Hunk` as the parser builds it, with the paths as texts. -/
inductive ParsedHunk where
  | addFile (path contents : Text)
  | deleteFile (path : Text)
  | updateFile (path : Text) (movePath : Option Text) (chunks : List
    UpdateFileChunk)
  deriving DecidableEq

structure ApplyPatchArgs where
  hunks : List ParsedHunk
  patch : Text
  workdir : Option Text
  deriving DecidableEq

inductive ParseError where
  | invalidPatch (message : Text)
  | invalidHunk (message : Text) (lineNumber : ℕ)
  deriving DecidableEq

inductive ParseMode where
  | strict | lenient
  deriving DecidableEq

/-! ## Markers -/

def beginPatchMarker : Text := "*** Begin Patch".toList

def endPatchMarker : Text := "*** End Patch".toList

def addFileMarker : Text := "*** Add File: ".toList

def deleteFileMarker : Text := "*** Delete File: ".toList

def updateFileMarker : Text := "*** Update File: ".toList

def moveToMarker : Text := "*** Move to: ".toList

def eofMarker : Text := "*** End of File".toList

def changeContextMarker : Text := "@@ ".toList

def emptyChangeContextMarker : Text := "@@".toList

/-- `str::strip_prefix`. -/
def stripMarker (marker line : Text) : Option Text := marker.isPrefixOf? line

/-! ## Chunks -/

/-- The error of a chunk without lines. -/
def noLines (lineNumber : ℕ) : ParseError :=
  .invalidHunk "Update hunk does not contain any lines".toList lineNumber

/-- The error of a line that no chunk can start with. -/
def unexpectedLine (line : Text) (lineNumber : ℕ) : ParseError :=
  .invalidHunk ("Unexpected line found in update hunk: '".toList ++ line ++
    "'. Every line should start with ' ' (context line), '+' (added ".toList ++
    "line), or '-' (removed line)".toList) lineNumber

/-- What a line of a chunk adds to it, by its first character. -/
def readChangeLine (chunk : UpdateFileChunk) : Text → Option UpdateFileChunk
  | [] =>
      some { chunk with
        oldLines := chunk.oldLines ++ [[]]
        newLines := chunk.newLines ++ [[]] }
  | ' ' :: text =>
      some { chunk with
        oldLines := chunk.oldLines ++ [text]
        newLines := chunk.newLines ++ [text] }
  | '+' :: text => some { chunk with newLines := chunk.newLines ++ [text] }
  | '-' :: text => some { chunk with oldLines := chunk.oldLines ++ [text] }
  | _ => none

/-- The loop over the lines of a chunk, with the number of lines it has read. -/
def chunkLines (lineNumber : ℕ) :
    ℕ → UpdateFileChunk → List Text → Except ParseError (UpdateFileChunk × ℕ)
  | parsedLines, chunk, [] => .ok (chunk, parsedLines)
  | parsedLines, chunk, line :: rest =>
      if line = eofMarker then
        if parsedLines = 0 then .error (noLines (lineNumber + 1))
        else .ok ({ chunk with isEndOfFile := true }, parsedLines + 1)
      else
        match readChangeLine chunk line with
        | some chunk => chunkLines lineNumber (parsedLines + 1) chunk rest
        | none =>
            if parsedLines = 0 then
              .error (unexpectedLine line (lineNumber + 1))
            else .ok (chunk, parsedLines)

/-- The error of a later chunk without a context line. -/
def missingContext (line : Text) (lineNumber : ℕ) : ParseError :=
  .invalidHunk
    ("Expected update hunk to start with a @@ context marker, got: '".toList ++
    line ++ "'".toList) lineNumber

/-- The context that the first line of a chunk gives, and how many lines it
takes. -/
def chunkContext (firstLine : Text) (lineNumber : ℕ)
    (allowMissingContext : Bool) :
    Except ParseError (Option Text × ℕ) :=
  if firstLine = emptyChangeContextMarker then .ok (none, 1)
  else
    match stripMarker changeContextMarker firstLine with
    | some context => .ok (some context, 1)
    | none =>
        if allowMissingContext then .ok (none, 0)
        else .error (missingContext firstLine lineNumber)

def parseUpdateFileChunk (lines : List Text) (lineNumber : ℕ)
    (allowMissingContext : Bool) : Except ParseError (UpdateFileChunk × ℕ) :=
  match lines with
  | [] => .error (noLines lineNumber)
  | firstLine :: _ =>
      match chunkContext firstLine lineNumber allowMissingContext with
      | .error e => .error e
      | .ok (changeContext, startIndex) =>
          if startIndex ≥ lines.length then .error (noLines (lineNumber + 1))
          else
            match chunkLines lineNumber 0 ⟨changeContext, [], [], false⟩
                (lines.drop startIndex) with
            | .error e => .error e
            | .ok (chunk, parsedLines) => .ok (chunk, parsedLines + startIndex)

/-! ## Hunks -/

/-- The loop over the chunks of an update: how many lines of the last chunk are
still to be passed over, how many lines the hunk has taken, and the chunks so
far. -/
def updateChunks (lineNumber : ℕ) :
    ℕ → ℕ → List UpdateFileChunk → List Text →
      Except ParseError (List UpdateFileChunk × ℕ)
  | _, parsedLines, chunks, [] => .ok (chunks, parsedLines)
  | skip + 1, parsedLines, chunks, _ :: rest =>
      updateChunks lineNumber skip parsedLines chunks rest
  | 0, parsedLines, chunks, line :: rest =>
      if line.trim = [] then
        updateChunks lineNumber 0 (parsedLines + 1) chunks rest
      else if (stripMarker "***".toList line).isSome then
        .ok (chunks, parsedLines)
      else
        match parseUpdateFileChunk (line :: rest) (lineNumber + parsedLines)
            chunks.isEmpty with
        | .error e => .error e
        | .ok (chunk, chunkLines) =>
            updateChunks lineNumber (chunkLines - 1) (parsedLines + chunkLines)
              (chunks ++ [chunk]) rest

/-- The error of an update without chunks. -/
def emptyUpdate (path : Text) (lineNumber : ℕ) : ParseError :=
  .invalidHunk ("Update file hunk for path '".toList ++ path ++
    "' is empty".toList)
    lineNumber

/-- The update branch of `parse_one_hunk`. -/
def parseUpdate (path : Text) (rest : List Text) (lineNumber : ℕ) :
    Except ParseError (ParsedHunk × ℕ) :=
  let movePath := rest.head?.bind (stripMarker moveToMarker)
  let (remainingLines, parsedLines) :=
    if movePath.isSome then (rest.tail, 2) else (rest, 1)
  match updateChunks lineNumber 0 parsedLines [] remainingLines with
  | .error e => .error e
  | .ok (chunks, parsedLines) =>
      if chunks = [] then .error (emptyUpdate path lineNumber)
      else .ok (.updateFile path movePath chunks, parsedLines)

/-- The error of a line that opens no hunk. -/
def invalidHeader (line : Text) (lineNumber : ℕ) : ParseError :=
  .invalidHunk ("'".toList ++ line ++
    "' is not a valid hunk header. Valid hunk headers: ".toList ++
    "'*** Add File: \x7bpath\x7d', '*** Delete File: \x7bpath\x7d', ".toList ++
    "'*** Update File: \x7bpath\x7d'".toList) lineNumber

/-- `parse_one_hunk`, on the first line and the lines after it. -/
def parseOneHunk (firstLine : Text) (rest : List Text) (lineNumber : ℕ) :
    Except ParseError (ParsedHunk × ℕ) :=
  let firstLine := firstLine.trim
  match stripMarker addFileMarker firstLine with
  | some path =>
      let addLines := rest.takeWhile fun line => line.head? = some '+'
      .ok (.addFile path (addLines.flatMap fun line => line.tail ++ ['\n']),
        addLines.length + 1)
  | none =>
      match stripMarker deleteFileMarker firstLine with
      | some path => .ok (.deleteFile path, 1)
      | none =>
          match stripMarker updateFileMarker firstLine with
          | some path => parseUpdate path rest lineNumber
          | none => .error (invalidHeader firstLine lineNumber)

/-- The loop over the hunks of a patch: how many lines of the last hunk are
still to be passed over, and the number of the current line. -/
def parseHunks : ℕ → ℕ → List Text → Except ParseError (List ParsedHunk)
  | _, _, [] => .ok []
  | skip + 1, lineNumber, _ :: rest => parseHunks skip lineNumber rest
  | 0, lineNumber, line :: rest =>
      match parseOneHunk line rest lineNumber with
      | .error e => .error e
      | .ok (hunk, hunkLines) =>
          (parseHunks (hunkLines - 1) (lineNumber + hunkLines) rest).map
            (hunk :: ·)

/-! ## Patches -/

def checkPatchBoundariesStrict (lines : List Text) : Except ParseError Unit :=
  match lines.head?, lines.getLast? with
  | some first, some last =>
      if first ≠ beginPatchMarker then
        .error (.invalidPatch
          "The first line of the patch must be '*** Begin Patch'".toList)
      else if last ≠ endPatchMarker then
        .error
          (.invalidPatch
            "The last line of the patch must be '*** End Patch'".toList)
      else .ok ()
  | _, _ =>
      .error
        (.invalidPatch
          "The last line of the patch must be '*** End Patch'".toList)

/-- The first lines of a heredoc that the lenient mode accepts. -/
def heredocOpenings : List Text :=
  let quoted (quote : List Char) :=
    "<<".toList ++ quote ++ "EOF".toList ++ quote
  [quoted [], quoted [Char.ofNat 0x27], quoted [Char.ofNat 0x22]]

def checkPatchBoundariesLenient (originalLines : List Text)
    (originalParseError : ParseError) : Except ParseError (List Text) :=
  match originalLines.head?, originalLines.getLast? with
  | some first, some last =>
      if first ∈ heredocOpenings ∧ "EOF".toList.isSuffixOf last ∧
          originalLines.length ≥ 4 then
        let innerLines := originalLines.tail.dropLast
        match checkPatchBoundariesStrict innerLines with
        | .ok () => .ok innerLines
        | .error e => .error e
      else .error originalParseError
  | _, _ => .error originalParseError

/-- The lines between which the hunks stand, and the markers around them. -/
def patchLines (lines : List Text) (mode : ParseMode) :
    Except ParseError (List Text) :=
  match checkPatchBoundariesStrict lines with
  | .ok () => .ok lines
  | .error e =>
      match mode with
      | .strict => .error e
      | .lenient => checkPatchBoundariesLenient lines e

def parsePatchText (patch : Text) (mode : ParseMode) :
    Except ParseError ApplyPatchArgs :=
  match patchLines patch.trim.lines mode with
  | .error e => .error e
  | .ok lines =>
      (parseHunks 0 2 lines.tail.dropLast).map fun hunks =>
        ⟨hunks, ['\n'].intercalate lines, none⟩

/-- `parse_patch`, which is lenient. -/
def parsePatch (patch : Text) : Except ParseError ApplyPatchArgs :=
  parsePatchText patch .lenient

end CodeRs.ApplyPatch

/-! ## The patch grammar

The derivations of the Lark grammar at the head of `apply-patch/src/parser.rs`:
the lines that each one renders to, and the hunk that it stands for.  The
grammar lets the first change of an update go without its context line. -/

namespace CodeRs.ApplyPatch

/-! ## Changes -/

inductive ChangeLine where
  | context (text : Text)
  | add (text : Text)
  | remove (text : Text)
  deriving DecidableEq

namespace ChangeLine

/-- The text behind the sign. -/
def text : ChangeLine → Text
  | context text | add text | remove text => text

/-- The line of a patch. -/
def render : ChangeLine → Text
  | context text => ' ' :: text
  | add text => '+' :: text
  | remove text => '-' :: text

/-- The line of the old file. -/
def old : ChangeLine → Option Text
  | context text | remove text => some text
  | add _ => none

/-- The line of the new file. -/
def new : ChangeLine → Option Text
  | context text | add text => some text
  | remove _ => none

/-- A line of white space that the file has before and after. -/
def IsBlank (line : ChangeLine) : Prop := line.render.trim = []

instance (line : ChangeLine) : Decidable line.IsBlank :=
  inferInstanceAs (Decidable (_ = _))

end ChangeLine

/-- The lines of one chunk: `change_context`, some `change_line` and
`eof_line`. -/
structure Change where
  context : Option Text
  lines : List ChangeLine
  endOfFile : Bool
  lines_ne : lines ≠ []

namespace Change

/-- The `change_context` line. -/
def header (change : Change) : Text :=
  match change.context with
  | none => emptyChangeContextMarker
  | some context => changeContextMarker ++ context

/-- The lines after the `change_context` line. -/
def body (change : Change) : List Text :=
  change.lines.map ChangeLine.render ++ if change.endOfFile then
    [eofMarker] else []

def render (change : Change) : List Text := change.header :: change.body

/-- The chunk that a change stands for. -/
def chunk (change : Change) : UpdateFileChunk where
  changeContext := change.context
  oldLines := change.lines.filterMap ChangeLine.old
  newLines := change.lines.filterMap ChangeLine.new
  isEndOfFile := change.endOfFile

end Change

/-- Every chunk with a line comes from a change that removes its old lines and
adds its new ones. -/
theorem exists_change {chunk : UpdateFileChunk}
    (h : chunk.oldLines ≠ [] ∨ chunk.newLines ≠ []) :
    ∃ change : Change, change.chunk = chunk := by
  have hne :
      chunk.oldLines.map ChangeLine.remove ++
        chunk.newLines.map ChangeLine.add ≠
      [] := by
    intro hnil
    obtain ⟨hold, hnew⟩ := List.append_eq_nil_iff.1 hnil
    exact h.elim (absurd (List.map_eq_nil_iff.1 hold))
      (absurd (List.map_eq_nil_iff.1 hnew))
  refine ⟨⟨chunk.changeContext, _, chunk.isEndOfFile, hne⟩, ?_⟩
  simp [Change.chunk, List.filterMap_append, List.filterMap_map,
    Function.comp_def,
    ChangeLine.old, ChangeLine.new]

/-! ## Hunks -/

/-- `hunk`.  A `headless` update leaves out the context line of its first
change, where that is a bare `@@`. -/
inductive GrammarHunk where
  | add (path : Text) (lines : List Text)
  | delete (path : Text)
  | update (path : Text) (move : Option Text) (headless : Bool) (first : Change)
      (rest : List Change)

namespace GrammarHunk

/-- The lines of the first change of an update. -/
def renderFirst (headless : Bool) (first : Change) : List Text :=
  if headless ∧ first.context = none then first.body else first.render

/-- `change_move`. -/
def renderMove (move : Option Text) : List Text :=
  (move.map (moveToMarker ++ ·)).toList

/-- The lines of a hunk. -/
def render : GrammarHunk → List Text
  | add path lines => (addFileMarker ++ path) :: lines.map ('+' :: ·)
  | delete path => [deleteFileMarker ++ path]
  | update path move headless first rest =>
      (updateFileMarker ++ path) :: renderMove move ++
        renderFirst headless first ++
        rest.flatMap Change.render

/-- The hunk that a derivation stands for. -/
def hunk : GrammarHunk → ParsedHunk
  | add path lines => .addFile path (Text.unlines lines)
  | delete path => .deleteFile path
  | update path move _ first rest =>
      .updateFile path move (first.chunk :: rest.map Change.chunk)

/-- A path that is not empty and has no line feed and no white space around
it. -/
structure IsPath (path : Text) : Prop where
  ne_nil : path ≠ []
  noLineFeed : '\n' ∉ path
  trimmed : path.trim = path

/-- The texts of a change are lines. -/
structure ChangeValid (change : Change) : Prop where
  context : ∀ context, change.context = some context → Text.IsLine context
  lines : ∀ line ∈ change.lines, Text.IsLine line.text

/-- The paths of a hunk are paths and its texts are lines. -/
def Valid : GrammarHunk → Prop
  | add path lines => IsPath path ∧ ∀ line ∈ lines, Text.IsLine line
  | delete path => IsPath path
  | update path move _ first rest =>
      IsPath path ∧ (∀ target, move = some target → IsPath target) ∧
        ∀ change ∈ first :: rest, ChangeValid change

/-- An update without its first context line that starts with a context line of
white space. -/
def OpensBlank : GrammarHunk → Prop
  | update _ _ headless first _ =>
      headless ∧ first.context = none ∧ ∃ line ∈ first.lines.head?, line.IsBlank
  | _ => False

end GrammarHunk

/-! ## Patches -/

def renderPatch (hunks : List GrammarHunk) : List Text :=
  beginPatchMarker :: hunks.flatMap GrammarHunk.render ++ [endPatchMarker]

/-- How the text of a patch is handed over: as it is, or in a heredoc. -/
inductive Envelope where
  | plain
  | heredoc (opening : Text) (h : opening ∈ heredocOpenings)

def Envelope.lines : Envelope → List Text → List Text
  | plain, patch => patch
  | heredoc opening _, patch => opening :: patch ++ ["EOF".toList]

/-- The text in the envelope, with or without a line feed at its end. -/
def Envelope.text (envelope : Envelope) (hunks : List GrammarHunk)
    (newline : Bool) :
    Text :=
  ['\n'].intercalate (envelope.lines (renderPatch hunks)) ++
    if newline then ['\n'] else []

end CodeRs.ApplyPatch
