import CodeRs.Lib.Decimal
import CodeRs.Lib.Program
import Mathlib.Data.Char
import Mathlib.Data.List.Lex

/-!
# Argument types and patterns

What the values of options and the positional arguments of a program may be.  A
check fails with an error of the policy, or it panics.
-/

namespace CodeRs.ExecPolicy

inductive ArgType where
  | literal (value : Text)
  | opaqueNonFile
  | readableFile
  | writeableFile
  | positiveInteger
  | sedCommand
  | unknown
deriving DecidableEq, Repr

inductive ArgMatcher where
  | literal (value : Text)
  | opaqueNonFile
  | readableFile
  | writeableFile
  | readableFiles
  | readableFilesOrCwd
  | positiveInteger
  | sedCommand
  | unverifiedVarargs
deriving DecidableEq, Repr

inductive ArgMatcherCardinality where
  | one
  | atLeastOne
  | zeroOrMore
deriving DecidableEq, Repr

structure PositionalArg where
  index : Nat
  value : Text
deriving DecidableEq, Repr

inductive Error where
  | optionMissingValue (program option : Text)
  | optionFollowedByOptionInsteadOfValue (program option value : Text)
  | unknownOption (program option : Text)
  | unexpectedArguments (program : Text) (args : List PositionalArg)
  | doubleDashNotSupportedYet (program : Text)
  | multipleVarargPatterns (program : Text) (first second : ArgMatcher)
  | rangeStartExceedsEnd (start stop : Nat)
  | rangeEndOutOfBounds (stop len : Nat)
  | prefixOverlapsSuffix
  | notEnoughArgs (program : Text) (args : List PositionalArg) (argPatterns :
    List ArgMatcher)
  | internalInvariantViolation (message : Text)
  | varargMatcherDidNotMatchAnything (program : Text) (matcher : ArgMatcher)
  | emptyFileName
  | literalValueDidNotMatch (expected actual : Text)
  | invalidPositiveInteger (value : Text)
  | missingRequiredOptions (program : Text) (options : List Text)
  | sedCommandNotProvablySafe (command : Text)
deriving DecidableEq, Repr

/-- A check that does not succeed returns an error or panics. -/
inductive Failure where
  | error (e : Error)
  | panic
deriving DecidableEq, Repr

abbrev Checked (α : Type) := Except Failure α

def fail {α : Type} (e : Error) : Checked α := .error (.error e)

def ArgMatcher.cardinality : ArgMatcher → ArgMatcherCardinality
  | .literal _ | .opaqueNonFile | .readableFile | .writeableFile
  | .positiveInteger
  | .sedCommand => .one
  | .readableFiles => .atLeastOne
  | .readableFilesOrCwd | .unverifiedVarargs => .zeroOrMore

def ArgMatcher.argType : ArgMatcher → ArgType
  | .literal value => .literal value
  | .opaqueNonFile => .opaqueNonFile
  | .readableFile => .readableFile
  | .writeableFile => .writeableFile
  | .readableFiles => .readableFile
  | .readableFilesOrCwd => .readableFile
  | .positiveInteger => .positiveInteger
  | .sedCommand => .sedCommand
  | .unverifiedVarargs => .unknown

def ArgMatcherCardinality.isExact : ArgMatcherCardinality → Option Nat
  | .one => some 1
  | .atLeastOne => none
  | .zeroOrMore => none

/-- `parse_sed_command`: commands like `122,202p`. -/
def parseSedCommand (sedCommand : Text) : Checked Unit :=
  let stripped := sedCommand.dropLast
  let first := stripped.takeWhile (· ≠ ',')
  let rest := (stripped.dropWhile (· ≠ ',')).tail
  if sedCommand.getLast? = some 'p' ∧ ',' ∈ stripped ∧
      (Text.parseU64 first).isSome ∧ (Text.parseU64 rest).isSome then .ok ()
  else fail (.sedCommandNotProvablySafe sedCommand)

def ArgType.validate (value : Text) : ArgType → Checked Unit
  | .literal literalValue =>
      if value ≠ literalValue then
        fail (.literalValueDidNotMatch literalValue value) else .ok ()
  | .readableFile | .writeableFile =>
      if value = [] then fail .emptyFileName else .ok ()
  | .opaqueNonFile | .unknown => .ok ()
  | .positiveInteger =>
      match Text.parseU64 value with
      | some 0 => fail (.invalidPositiveInteger value)
      | some _ => .ok ()
      | none => fail (.invalidPositiveInteger value)
  | .sedCommand => parseSedCommand value

structure MatchedArg where
  index : Nat
  type : ArgType
  value : Text
deriving DecidableEq, Repr

structure MatchedOpt where
  name : Text
  value : Text
  type : ArgType
deriving DecidableEq, Repr

structure MatchedFlag where
  name : Text
deriving DecidableEq, Repr

def MatchedArg.new (index : Nat) (type : ArgType) (value : Text) :
    Checked MatchedArg := do
  type.validate value
  return ⟨index, type, value⟩

def MatchedOpt.new (name value : Text) (type : ArgType) :
    Checked MatchedOpt := do
  type.validate value
  return ⟨name, value, type⟩

def ArgType.Accepts (type : ArgType) (value : Text) : Prop :=
  type.validate value = .ok ()

instance (type : ArgType) (value : Text) : Decidable (type.Accepts value) :=
  inferInstanceAs (Decidable (type.validate value = .ok ()))

theorem validate_ne_panic (type : ArgType) (value : Text) :
    type.validate value ≠ .error .panic := by
  intro h
  cases type with
  | literal literalValue =>
      simp only [ArgType.validate] at h
      split at h <;> cases h
  | readableFile | writeableFile =>
      simp only [ArgType.validate] at h
      split at h <;> cases h
  | opaqueNonFile | unknown => cases h
  | positiveInteger =>
      simp only [ArgType.validate] at h
      split at h <;> cases h
  | sedCommand =>
      simp only [ArgType.validate, parseSedCommand] at h
      split at h <;> cases h

end CodeRs.ExecPolicy

/-! ## Matching positional arguments with patterns

At most one pattern may take a variable number of arguments.  The patterns
before it are matched with the first arguments, the patterns after it with the
last ones, and it takes what is between them.  Ranges are checked where the
source checks them; the other slices panic when they are out of bounds. -/

namespace CodeRs.ExecPolicy

/-- The slice `args[start..stop]`. -/
def slice {α : Type} (args : List α) (start stop : Nat) : Checked (List α) :=
  if start ≤ stop ∧ stop ≤ args.length then
    .ok ((args.drop start).take (stop - start))
  else .error .panic

def getRangeChecked {α : Type} (args : List α) (start stop : Nat) :
    Checked (List α) :=
  if stop < start then fail (.rangeStartExceedsEnd start stop)
  else if args.length < stop then fail (.rangeEndOutOfBounds stop args.length)
  else slice args start stop

/-- `ParitionedArgs`. -/
structure PartitionedArgs where
  numPrefixArgs : Nat := 0
  numSuffixArgs : Nat := 0
  prefixPatterns : List ArgMatcher := []
  suffixPatterns : List ArgMatcher := []
  varargPattern : Option ArgMatcher := none
deriving DecidableEq, Repr

/-- The loop of `partition_args`. -/
def partitionFrom (program : Text) (inPrefix : Bool) (parts : PartitionedArgs) :
    List ArgMatcher → Checked PartitionedArgs
  | [] => .ok parts
  | pattern :: rest =>
      match pattern.cardinality.isExact with
      | some n =>
          if inPrefix then
            partitionFrom program inPrefix
              { parts with
                prefixPatterns := parts.prefixPatterns ++ [pattern]
                numPrefixArgs := parts.numPrefixArgs + n } rest
          else
            partitionFrom program inPrefix
              { parts with
                suffixPatterns := parts.suffixPatterns ++ [pattern]
                numSuffixArgs := parts.numSuffixArgs + n } rest
      | none =>
          match parts.varargPattern with
          | none =>
              partitionFrom program false { parts with
                varargPattern := some pattern } rest
          | some existing =>
              fail (.multipleVarargPatterns program existing pattern)

def partitionArgs (program : Text) (argPatterns : List ArgMatcher) :
    Checked PartitionedArgs :=
  partitionFrom program true {} argPatterns

/-- Match every argument of a list with one pattern. -/
def matchAll (pattern : ArgMatcher) :
    List PositionalArg → Checked (List MatchedArg)
  | [] => .ok []
  | arg :: rest => do
      let matched ← MatchedArg.new arg.index pattern.argType arg.value
      let others ← matchAll pattern rest
      return matched :: others

/-- Match patterns of exact cardinality with the arguments from an index on.
Returns what has been matched and the index after it. -/
def matchExact (observed : List PositionalArg) (index : Nat)
    (matchedArgs : List MatchedArg) :
    List ArgMatcher → Checked (List MatchedArg × Nat)
  | [] => .ok (matchedArgs, index)
  | pattern :: rest =>
      match pattern.cardinality.isExact with
      | none =>
          fail (.internalInvariantViolation "expected exact cardinality".toList)
      | some n => do
          let args ← slice observed index (index + n)
          let matched ← matchAll pattern args
          matchExact observed (index + n) (matchedArgs ++ matched) rest

/-- Match the arguments that are left in the middle with the vararg pattern. -/
def matchVararg (program : Text) (pattern : ArgMatcher)
    (vararg : List PositionalArg) :
    Checked (List MatchedArg) :=
  match pattern.cardinality with
  | .one =>
      fail (.internalInvariantViolation
        "vararg pattern should not have cardinality of one".toList)
  | .atLeastOne =>
      if vararg = [] then
        fail (.varargMatcherDidNotMatchAnything program pattern)
      else matchAll pattern vararg
  | .zeroOrMore => matchAll pattern vararg

/-- Match the middle, if there is a vararg pattern. -/
def matchMiddle (program : Text) (varargPattern : Option ArgMatcher)
    (args : List PositionalArg)
    (start stop : Nat) : Checked (List MatchedArg) :=
  match varargPattern with
  | none => .ok []
  | some pattern => do
      let vararg ← getRangeChecked args start stop
      matchVararg program pattern vararg

/-- Match the last arguments with the patterns behind the vararg pattern, and
refuse arguments that no pattern has taken. -/
def matchSuffix (program : Text) (args : List PositionalArg)
    (matchedArgs : List MatchedArg)
    (suffixPatterns : List ArgMatcher) (start : Nat) :
    Checked (List MatchedArg) := do
  let trailing ← getRangeChecked args start args.length
  let (matchedArgs, _) ← matchExact trailing 0 matchedArgs suffixPatterns
  if matchedArgs.length < args.length then do
    let extraArgs ← getRangeChecked args matchedArgs.length args.length
    fail (.unexpectedArguments program extraArgs)
  else return matchedArgs

def resolveObservedArgsWithPatterns (program : Text) (args : List PositionalArg)
    (argPatterns : List ArgMatcher) : Checked (List MatchedArg) := do
  let parts ← partitionArgs program argPatterns
  let leading ← getRangeChecked args 0 parts.numPrefixArgs
  let (matchedPrefix,
    prefixArgIndex) ← matchExact leading 0 [] parts.prefixPatterns
  if args.length < parts.numSuffixArgs then
    fail (.notEnoughArgs program args argPatterns)
  else
    let initialSuffixArgsIndex := args.length - parts.numSuffixArgs
    if initialSuffixArgsIndex < prefixArgIndex then fail .prefixOverlapsSuffix
    else do
      let matchedMiddle ←
        matchMiddle program parts.varargPattern args prefixArgIndex
          initialSuffixArgsIndex
      matchSuffix program args (matchedPrefix ++ matchedMiddle)
        parts.suffixPatterns
        initialSuffixArgsIndex

end CodeRs.ExecPolicy

/-! ## Checking a call against the specification of its program

`ProgramSpec::check` walks over the arguments: options are looked up, an option
with a value takes the next argument, and everything else is positional. -/

namespace CodeRs.ExecPolicy

inductive OptMeta where
  | flag
  | value (type : ArgType)
deriving DecidableEq, Repr

structure Opt where
  opt : Text
  optMeta : OptMeta
  required : Bool
deriving DecidableEq, Repr

/-- `HashMap<String, Opt>`: entries with different keys. -/
structure OptMap where
  entries : List (Text × Opt)
  nodup : (entries.map (·.1)).Nodup

def OptMap.get (m : OptMap) (name : Text) : Option Opt := m.entries.lookup name

/-- `ProgramSpec`, with the fields that a check reads. -/
structure ProgramSpec where
  program : Text
  systemPath : List Text
  allowedOptions : OptMap
  argPatterns : List ArgMatcher
  forbidden : Option Text

structure ExecCall where
  program : Text
  args : List Text
deriving DecidableEq, Repr

structure ValidExec where
  program : Text
  flags : List MatchedFlag
  opts : List MatchedOpt
  args : List MatchedArg
  systemPath : List Text
deriving DecidableEq, Repr

/-- `MatchedExec`.  A program specification only forbids with cause
`Forbidden::Exec`. -/
inductive MatchedExec where
  | matched (exec : ValidExec)
  | forbidden (exec : ValidExec) (reason : Text)
deriving DecidableEq, Repr

/-- What the loop of `check` has found so far. -/
structure ScanState where
  expectingOptionValue : Option (Text × ArgType) := none
  args : List PositionalArg := []
  matchedFlags : List MatchedFlag := []
  matchedOpts : List MatchedOpt := []
deriving DecidableEq, Repr

namespace ProgramSpec

/-- The names of the required options, as `ProgramSpec::new` collects them. -/
def requiredOptions (spec : ProgramSpec) : List Text :=
  spec.allowedOptions.entries.filterMap fun entry =>
    if entry.2.required then some entry.1 else none

/-- The body of the loop of `check` for the argument at an index. -/
def scanArg (spec : ProgramSpec) (s : ScanState) (index : Nat) (arg : Text) :
    Checked ScanState :=
  match s.expectingOptionValue with
  | some (name, argType) =>
      if arg.head? = some '-' then
        fail (.optionFollowedByOptionInsteadOfValue spec.program name arg)
      else do
        let matchedOpt ← MatchedOpt.new name arg argType
        return { s with
          matchedOpts := s.matchedOpts ++ [matchedOpt]
          expectingOptionValue := none }
  | none =>
      if arg = "--".toList then fail (.doubleDashNotSupportedYet spec.program)
      else if arg.head? = some '-' then
        match spec.allowedOptions.get arg with
        | some opt =>
            match opt.optMeta with
            | .flag => .ok { s with matchedFlags := s.matchedFlags ++ [⟨arg⟩] }
            | .value argType =>
                .ok { s with expectingOptionValue := some (arg, argType) }
        | none => fail (.unknownOption spec.program arg)
      else .ok { s with args := s.args ++ [⟨index, arg⟩] }

/-- The loop of `check` from an index on. -/
def scanFrom (spec : ProgramSpec) (s : ScanState) (index : Nat) :
    List Text → Checked ScanState
  | [] => .ok s
  | arg :: rest => do
      let s ← spec.scanArg s index arg
      spec.scanFrom s (index + 1) rest

/-- The required options without a value, in the order of their names. -/
def missingOptions (spec : ProgramSpec) (opts : List MatchedOpt) : List Text :=
  (spec.requiredOptions.filter fun name => name ∉ opts.map (·.name)).mergeSort
    fun a b => decide (a ≤ b)

/-- The verdict on a call whose arguments have been matched. -/
def verdict (spec : ProgramSpec) (flags : List MatchedFlag)
    (opts : List MatchedOpt)
    (args : List MatchedArg) : MatchedExec :=
  let exec : ValidExec := ⟨spec.program, flags, opts, args, spec.systemPath⟩
  match spec.forbidden with
  | some reason => .forbidden exec reason
  | none => .matched exec

def check (spec : ProgramSpec) (execCall : ExecCall) : Checked MatchedExec := do
  let s ← spec.scanFrom {} 0 execCall.args
  match s.expectingOptionValue with
  | some (name, _) => fail (.optionMissingValue spec.program name)
  | none =>
      let matchedArgs ← resolveObservedArgsWithPatterns spec.program s.args
          spec.argPatterns
      if spec.requiredOptions.all fun name =>
        name ∈ s.matchedOpts.map (·.name) then
          return spec.verdict s.matchedFlags s.matchedOpts matchedArgs
      else
        fail
          (.missingRequiredOptions spec.program
            (spec.missingOptions s.matchedOpts))

end ProgramSpec

end CodeRs.ExecPolicy
