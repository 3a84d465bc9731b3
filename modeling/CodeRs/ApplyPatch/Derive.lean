import CodeRs.ApplyPatch.Hunk
import CodeRs.ApplyPatch.SeekSequence
import CodeRs.Lib.Program
import Mathlib.Data.List.Sort

/-!
# The new contents of an updated file

`derive_new_contents_from_chunks` of `apply-patch/src/lib.rs`, after the file is
read: the chunks are located in its lines, and the lines are replaced.
-/

namespace CodeRs.ApplyPatch

/-! ## Lines -/

inductive LineEnding where
  | lf | crlf
  deriving DecidableEq, Repr

/-- The text contains a line feed after a carriage return. -/
def containsCrlf : Text → Bool
  | '\r' :: '\n' :: _ => true
  | _ :: rest => containsCrlf rest
  | [] => false

def LineEnding.detect (contents : Text) : LineEnding :=
  if containsCrlf contents then .crlf else .lf

def LineEnding.joiner : LineEnding → Text
  | lf => ['\n']
  | crlf => ['\r', '\n']

def normalizeLineEnding (line : Text) : Text :=
  if line.getLast? = some '\r' then line.dropLast else line

/-- The last line is empty. -/
def endsEmpty (lines : List Text) : Bool := lines.getLast? = some []

/-! ## Replacements -/

/-- A replacement: where it starts, how many lines go, and the lines that
come. -/
structure Replacement where
  startIdx : ℕ
  oldLen : ℕ
  newLines : List Text
  deriving DecidableEq

/-- The position after the context line of a chunk. -/
def seekContext (originalLines : List Text) (path : Path) (lineIndex : ℕ) :
    Option Text → Except ApplyPatchError ℕ
  | none => .ok lineIndex
  | some ctxLine =>
      match seekSequence originalLines [ctxLine] lineIndex false with
      | some idx => .ok (idx + 1)
      | none =>
          .error
            (.computeReplacements
              ("Failed to find context '".toList ++ ctxLine ++
            "' in ".toList ++ path.display))

/-- The replacement of the old lines of a chunk, without the empty last line if
it is not found with it. -/
def seekOldLines (originalLines oldLines newLines : List Text) (lineIndex : ℕ)
    (eof : Bool) : Option Replacement :=
  match seekSequence originalLines oldLines lineIndex eof with
  | some startIdx => some { startIdx, oldLen := oldLines.length, newLines }
  | none =>
      if endsEmpty oldLines then
        let pattern := oldLines.dropLast
        let newSlice := if endsEmpty newLines then
          newLines.dropLast else newLines
        (seekSequence originalLines pattern lineIndex eof).map fun startIdx =>
          { startIdx, oldLen := pattern.length, newLines := newSlice }
      else none

/-- One round of the loop of `compute_replacements`: the replacement of a chunk
and the line to go on from. -/
def chunkReplacement (originalLines : List Text) (path : Path) (lineIndex : ℕ)
    (chunk : UpdateFileChunk) : Except ApplyPatchError (Replacement × ℕ) := do
  let lineIndex ← seekContext originalLines path lineIndex chunk.changeContext
  let newLines := chunk.newLines.map normalizeLineEnding
  if chunk.oldLines = [] then
    let insertionIdx :=
      if endsEmpty originalLines then originalLines.length - 1
        else originalLines.length
    return ({ startIdx := insertionIdx, oldLen := 0, newLines }, lineIndex)
  else
    let oldLines := chunk.oldLines.map normalizeLineEnding
    match seekOldLines originalLines oldLines newLines lineIndex
      chunk.isEndOfFile with
    | some found => return (found, found.startIdx + found.oldLen)
    | none =>
        throw
          (.computeReplacements ("Failed to find expected lines in ".toList ++
          path.display ++ ":\n".toList ++ ['\n'].intercalate oldLines))

/-- The loop of `compute_replacements`. -/
def chunkReplacements (originalLines : List Text) (path : Path) :
    ℕ → List UpdateFileChunk → Except ApplyPatchError (List Replacement)
  | _, [] => .ok []
  | lineIndex, chunk :: rest => do
      let (found,
        lineIndex) ← chunkReplacement originalLines path lineIndex chunk
      let later ← chunkReplacements originalLines path lineIndex rest
      return found :: later

/-- `compute_replacements`, which sorts by the start. -/
def computeReplacements (originalLines : List Text) (path : Path)
    (chunks : List UpdateFileChunk) :
    Except ApplyPatchError (List Replacement) :=
  (chunkReplacements originalLines path 0 chunks).map
    (List.insertionSort fun a b => a.startIdx ≤ b.startIdx)

/-- `Vec::insert` of consecutive lines, which panics beyond the end. -/
def insertLines (index : ℕ) : List Text → List Text → Option (List Text)
  | [], lines => some lines
  | line :: segment, lines =>
      if index ≤ lines.length then
        insertLines (index + 1) segment (lines.insertIdx index line)
      else none

/-- One replacement in place: `Vec::remove` for each old line, then the
inserts. -/
def applyReplacement (lines : List Text) (replacement : Replacement) :
    Option (List Text) :=
  insertLines replacement.startIdx replacement.newLines
    ((fun lines : List Text =>
      lines.eraseIdx replacement.startIdx)^[replacement.oldLen]
      lines)

/-- `apply_replacements`, from the last replacement to the first. -/
def applyReplacements (lines : List Text) (replacements : List Replacement) :
    Option (List Text) :=
  replacements.reverse.foldlM applyReplacement lines

/-! ## New contents -/

/-- The lines of a file without the empty one after its final line break. -/
def fileLines (contents : Text) : List Text :=
  let lines := (contents.splitOn '\n').map normalizeLineEnding
  if endsEmpty lines then lines.dropLast else lines

/-- `derive_new_contents_from_chunks` for a file with the given contents. -/
def deriveNewContents (path : Path) (originalContents : Text)
    (chunks : List UpdateFileChunk) : Except Failure Text := do
  let originalLines := fileLines originalContents
  let replacements
      ← (computeReplacements originalLines path chunks).mapError .error
  match applyReplacements originalLines replacements with
  | none => throw .panic
  | some newLines =>
      let newLines := if endsEmpty newLines then newLines else newLines ++ [[]]
      return (LineEnding.detect originalContents).joiner.intercalate newLines

/-! ## The path is only for messages -/

theorem seekContext_path {originalLines : List Text} {path : Path}
    {lineIndex : ℕ}
    {ctx : Option Text} {next : ℕ}
    (h : seekContext originalLines path lineIndex ctx = .ok next)
    (path' : Path) :
    seekContext originalLines path' lineIndex ctx = .ok next := by
  cases ctx with
  | none => exact h
  | some ctxLine =>
      simp only [seekContext] at h ⊢
      split at h
      · exact h
      · cases h

theorem chunkReplacement_path {originalLines : List Text} {path : Path}
    {lineIndex : ℕ} {chunk : UpdateFileChunk} {result : Replacement × ℕ}
    (h : chunkReplacement originalLines path lineIndex chunk = .ok result)
    (path' : Path) :
    chunkReplacement originalLines path' lineIndex chunk = .ok result := by
  rw [chunkReplacement] at h ⊢
  obtain ⟨next, hnext, h⟩ := bind_eq_ok.1 h
  refine bind_eq_ok.2 ⟨next, seekContext_path hnext path', ?_⟩
  by_cases hold : chunk.oldLines = []
  · simpa only [if_pos hold] using h
  · simp only [if_neg hold] at h ⊢
    cases hfound : seekOldLines originalLines
      (chunk.oldLines.map normalizeLineEnding)
        (chunk.newLines.map normalizeLineEnding) next chunk.isEndOfFile with
    | none =>
        rw [hfound] at h
        cases h
    | some found =>
        rw [hfound] at h
        exact h

theorem chunkReplacements_path {originalLines : List Text} {path : Path}
    {lineIndex : ℕ} {chunks : List UpdateFileChunk} {result : List Replacement}
    (h : chunkReplacements originalLines path lineIndex chunks = .ok result)
    (path' : Path) :
    chunkReplacements originalLines path' lineIndex chunks = .ok result := by
  induction chunks generalizing lineIndex result with
  | nil => exact h
  | cons chunk rest ih =>
      rw [chunkReplacements] at h ⊢
      obtain ⟨found, hfound, h⟩ := bind_eq_ok.1 h
      obtain ⟨later, hlater, h⟩ := bind_eq_ok.1 h
      exact bind_eq_ok.2 ⟨found, chunkReplacement_path hfound path',
        bind_eq_ok.2 ⟨later, ih hlater, h⟩⟩

theorem deriveNewContents_path {path : Path} {originalContents contents : Text}
    {chunks : List UpdateFileChunk}
    (h : deriveNewContents path originalContents chunks = .ok contents)
    (path' : Path) :
    deriveNewContents path' originalContents chunks = .ok contents := by
  obtain ⟨replacements, hreplacements, h⟩ := bind_eq_ok.1 h
  obtain ⟨found, hfound, hsort⟩ := map_eq_ok.1 (mapError_eq_ok.1 hreplacements)
  have hreplacements' :
      computeReplacements (fileLines originalContents) path' chunks =
        .ok replacements :=
    map_eq_ok.2 ⟨found, chunkReplacements_path hfound path', hsort⟩
  exact bind_eq_ok.2 ⟨replacements, mapError_eq_ok.2 hreplacements', h⟩

end CodeRs.ApplyPatch
