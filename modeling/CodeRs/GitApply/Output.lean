import CodeRs.Lib.Lines
import Mathlib.Data.Char
import Mathlib.Data.Finset.Max
import Mathlib.Data.Finset.Sort
import Mathlib.Data.List.Lex

/-!
# What `git apply` says of each path

`parse_git_apply_output` of `git-apply/src/lib.rs`.  Every line of the output
that a pattern matches moves paths between three sets, and what is behind a
path in more than one set is settled in the end.  The patterns are parameters.
-/

namespace CodeRs.GitApply

/-! ## Paths -/

def quoteMarks : List Char := [Char.ofNat 34, Char.ofNat 39]

/-- A text without the pair of equal quotes around it. -/
def unquote (text : Text) : Text :=
  if text.head? ∈ quoteMarks.map some ∧ text.getLast? = text.head? ∧
    2 ≤ text.byteLen then
    text.tail.dropLast
  else text

/-- The path that `add` inserts for a matched text. -/
def namedPath (raw : Text) : Option Text :=
  let unquoted := unquote raw.trim
  if unquoted = [] then none else some unquoted

/-! ## Lines -/

/-- What the result says of a path. -/
inductive Outcome where
  | applied | skipped | conflicted
  deriving DecidableEq, Repr

/-- The lines that the parser acts on, with the text that their pattern matches
as a path.  A line that a patch failed is a first hint only, and it takes its
path out of no set. -/
inductive OutputLine where
  | checking (raw : Text)
  | status (outcome : Outcome) (raw : Text)
  | failed (raw : Text)
  | threeWayFailed
  deriving DecidableEq

/-- The patterns: those with a path give the text that they match as one. -/
structure Patterns where
  checkingPatch : Text → Option Text
  appliedClean : Text → Option Text
  appliedConflicts : Text → Option Text
  applyingWithRejects : Text → Option Text
  unmergedLine : Text → Option Text
  patchFailed : Text → Option Text
  doesNotApply : Text → Option Text
  threeWayStart : Text → Bool
  fallbackDirect : Text → Bool
  threeWayFailed : Text → Bool
  lacksBlob : Text → Bool
  indexMismatch : Text → Option Text
  notInIndex : Text → Option Text
  alreadyExistsWt : Text → Option Text
  fileExists : Text → Option Text
  renamedDeleted : Text → Option Text
  cannotApplyBinary : Text → Option Text
  binaryDoesNotApply : Text → Option Text
  binaryIncorrectResult : Text → Option Text
  cannotReadCurrent : Text → Option Text
  skippedPatch : Text → Option Text
  cannotMergeBinaryWarn : Text → Option Text

/-- The text matched by the first of some patterns that matches. -/
def firstMatch (patterns : List (Text → Option Text)) (line : Text) :
    Option Text :=
  patterns.findSome? fun pattern => pattern line

/-- The patterns of the source in their order.  Narration and lines that
nothing matches are not acted on. -/
def Patterns.classify (patterns : Patterns) (line : Text) : Option OutputLine :=
  (patterns.checkingPatch line).map .checking <|>
    (patterns.appliedClean line).map (.status .applied) <|>
    (firstMatch [patterns.appliedConflicts, patterns.applyingWithRejects,
      patterns.unmergedLine] line).map (.status .conflicted) <|>
    (firstMatch [patterns.patchFailed,
      patterns.doesNotApply] line).map .failed <|>
    if patterns.threeWayStart line || patterns.fallbackDirect line then none
    else if patterns.threeWayFailed line || patterns.lacksBlob line then
      some .threeWayFailed
    else
      (firstMatch [patterns.indexMismatch, patterns.notInIndex,
        patterns.alreadyExistsWt,
        patterns.fileExists, patterns.renamedDeleted,
        patterns.cannotApplyBinary,
        patterns.binaryDoesNotApply, patterns.binaryIncorrectResult,
        patterns.cannotReadCurrent, patterns.skippedPatch] line).map
        (.status .skipped) <|>
      (patterns.cannotMergeBinaryWarn line).map (.status .conflicted)

/-- The lines of the two outputs together. -/
def Patterns.outputLines (patterns : Patterns) (stdout stderr : Text) :
    List OutputLine :=
  let combined := ['\n'].intercalate ([stdout, stderr].filter (· ≠ []))
  (((Text.lines combined).map Text.trim).filter (· ≠ [])).filterMap
    patterns.classify

/-! ## The sets -/

abbrev PathSets := Outcome → Finset Text

namespace PathSets

/-- The path in the set too. -/
def insertPath (sets : PathSets) (outcome : Outcome) (path : Text) : PathSets :=
  Function.update sets outcome (insert path (sets outcome))

def add (sets : PathSets) (outcome : Outcome) (raw : Text) : PathSets :=
  match namedPath raw with
  | some path => sets.insertPath outcome path
  | none => sets

/-- The path removed from the other sets. -/
def removeFromOthers (sets : PathSets) (outcome : Outcome)
    (path : Text) : PathSets :=
  fun other => if other = outcome then sets other else (sets other).erase path

variable {sets : PathSets} {outcome other : Outcome} {path q raw : Text}

theorem mem_insertPath :
    q ∈ sets.insertPath outcome path other ↔
      (other = outcome ∧ q = path) ∨ q ∈ sets other := by
  rw [insertPath]
  by_cases h : other = outcome
  · rw [h, Function.update_self, Finset.mem_insert]
    simp
  · rw [Function.update_of_ne h]
    simp [h]

theorem mem_removeFromOthers :
    q ∈ sets.removeFromOthers outcome path other ↔
      q ∈ sets other ∧ (q = path → other = outcome) := by
  rw [removeFromOthers]
  split
  next h => simp [h]
  next h =>
    rw [Finset.mem_erase]
    simp [h, and_comm]

theorem insertPath_of_mem (h : path ∈ sets outcome) :
    sets.insertPath outcome path = sets := by
  rw [insertPath, Finset.insert_eq_of_mem h, Function.update_eq_self]

theorem removeFromOthers_of_notMem (h : ∀ other ≠ outcome, path ∉ sets other) :
    sets.removeFromOthers outcome path = sets := by
  funext other
  rw [removeFromOthers]
  split
  next => rfl
  next hne => exact Finset.erase_eq_of_notMem (h other hne)

theorem removeFromOthers_insertPath (h : ∀ other ≠ outcome, q ∉ sets other) :
    (sets.insertPath outcome path).removeFromOthers outcome q =
      sets.insertPath outcome path := by
  refine removeFromOthers_of_notMem fun other hne hmem => ?_
  rcases mem_insertPath.1 hmem with ⟨heq, -⟩ | hmem
  · exact hne heq
  · exact h other hne hmem

theorem add_of_some (h : namedPath raw = some path) :
    sets.add outcome raw = sets.insertPath outcome path := by
  rw [add, h]

theorem add_of_none (h : namedPath raw = none) :
    sets.add outcome raw = sets := by
  rw [add, h]

end PathSets

/-- `iter().next_back()` of a `BTreeSet`: its greatest element. -/
def nextBack (set : Finset Text) : Option Text := set.max

theorem nextBack_eq_some {set : Finset Text} {path : Text} :
    nextBack set = some path ↔ path ∈ set ∧ ∀ q ∈ set, q ≤ path := by
  constructor
  · intro h
    exact ⟨Finset.mem_of_max h, fun q hq => Finset.le_max_of_eq hq h⟩
  · rintro ⟨hmem, hle⟩
    obtain ⟨greatest, hmax⟩ := Finset.max_of_mem hmem
    have heq : greatest = path :=
      le_antisymm (hle greatest (Finset.mem_of_max hmax))
        (Finset.le_max_of_eq hmem hmax)
    rwa [heq] at hmax

/-! ## The loop over the lines -/

/-- The state of the loop. -/
structure Parsing where
  sets : PathSets
  lastSeenPath : Option Text

/-- Before the first line. -/
def Parsing.start : Parsing := ⟨fun _ => ∅, none⟩

/-- What a line does.  The path that a status line is about is taken to be the
last one of its set. -/
def Parsing.step (state : Parsing) : OutputLine → Parsing
  | .checking raw => { state with lastSeenPath := some raw }
  | .status outcome raw =>
      let sets := state.sets.add outcome raw
      match nextBack (sets outcome) with
      | some path => ⟨sets.removeFromOthers outcome path, some path⟩
      | none => { state with sets := sets }
  | .failed raw => ⟨state.sets.add .skipped raw, some raw⟩
  | .threeWayFailed =>
      match state.lastSeenPath with
      | some path =>
          { state with
            sets := (state.sets.add .skipped path).removeFromOthers
              .skipped path }
      | none => state

theorem Parsing.step_status {state : Parsing} {outcome : Outcome}
    {raw path moved : Text}
    (hpath : namedPath raw = some path)
    (hnext : nextBack (state.sets.insertPath outcome path outcome) =
      some moved) :
    state.step (.status outcome raw) =
      ⟨(state.sets.insertPath outcome path).removeFromOthers outcome moved,
        some moved⟩ := by
  rw [Parsing.step, PathSets.add_of_some hpath, hnext]

theorem Parsing.step_threeWayFailed {state : Parsing} {raw : Text}
    (hlast : state.lastSeenPath = some raw) :
    state.step .threeWayFailed =
      ⟨(state.sets.add .skipped raw).removeFromOthers .skipped raw,
        some raw⟩ := by
  rw [Parsing.step, hlast]

/-- The state after some lines. -/
def parsed (lines : List OutputLine) : Parsing :=
  lines.foldl Parsing.step Parsing.start

/-- The final precedence: conflicts, then what is applied, then what is
skipped. -/
def PathSets.settled (sets : PathSets) : PathSets
  | .conflicted => sets .conflicted
  | .applied => sets .applied \ sets .conflicted
  | .skipped =>
      (sets .skipped \ sets .conflicted) \ (sets .applied \ sets .conflicted)

/-- The paths of an outcome, in order. -/
def report (lines : List OutputLine) (outcome : Outcome) : List Text :=
  ((parsed lines).sets.settled outcome).sort (· ≤ ·)

/-- `parse_git_apply_output`: the applied, the skipped and the conflicted
paths. -/
def parseGitApplyOutput (patterns : Patterns) (stdout stderr : Text) :
    List Text × List Text × List Text :=
  let lines := patterns.outputLines stdout stderr
  (report lines .applied, report lines .skipped, report lines .conflicted)

theorem mem_report {lines : List OutputLine} {outcome : Outcome} {path : Text} :
    path ∈ report lines outcome ↔ path ∈ (parsed lines).sets.settled outcome :=
  Finset.mem_sort _

theorem disjoint_report (lines : List OutputLine) {outcome other : Outcome}
    (hne : outcome ≠ other) :
    (report lines outcome).Disjoint (report lines other) := by
  intro path hpath hother
  rw [mem_report] at hpath hother
  cases outcome <;> cases other <;> simp_all [PathSets.settled]

/-- The three lists have no path in common. -/
theorem disjoint_parseGitApplyOutput (patterns : Patterns)
    (stdout stderr : Text) :
    let (applied, skipped, conflicted) :=
      parseGitApplyOutput patterns stdout stderr
    applied.Disjoint skipped ∧ applied.Disjoint conflicted ∧
      skipped.Disjoint conflicted := by
  refine ⟨disjoint_report _ ?_, disjoint_report _ ?_, disjoint_report _ ?_⟩
  · exact Outcome.noConfusion
  · exact Outcome.noConfusion
  · exact Outcome.noConfusion

end CodeRs.GitApply
