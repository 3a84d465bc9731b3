import CodeRs.Lib.Text

/-!
# Formatters that change files

`core/src/dry_run_guard.rs`: the guarded formatter that a command runs, whether
it only looks or changes files, and the command that is suggested in its place.
What `parse_command` takes for the words of the first command is a parameter.
-/

namespace CodeRs.DryRun

inductive PackageManager where
  | npm
  | pnpm
  | yarn
  deriving DecidableEq

def PackageManager.label : PackageManager → String
  | npm => "npm"
  | pnpm => "pnpm"
  | yarn => "yarn"

inductive DryRunGuardKey where
  | cargoFmt
  | cargoFix
  | cargoClippyFix
  | rustfmt
  | packageLint (manager : PackageManager)
  | packageFormat (manager : PackageManager)
  | eslintFix
  | prettierWrite
  | black
  | ruffFormat
  | isort
  | gofmt
  | rustywind
  | dartFormat
  | swiftFormat
  deriving DecidableEq

inductive DryRunDisposition where
  | dryRun
  | mutating
  deriving DecidableEq

structure DryRunAnalysis where
  key : DryRunGuardKey
  disposition : DryRunDisposition
  tokens : List Text
  displayName : Text
  customSuggestedDryRun : Option Text
  deriving DecidableEq

structure InternalAnalysis where
  key : DryRunGuardKey
  disposition : DryRunDisposition
  displayName : Text
  suggestedDryRun : Option Text
  deriving DecidableEq

/-! ## Tokens -/

def equalIgnoreCase (token : Text) (word : String) : Bool :=
  token.toAsciiLowercase = Text.toAsciiLowercase word.toList

def startsWithChar (c : Char) (token : Text) : Bool := token.head? = some c

def sliceContainsFlag (args : List Text) (flag : String) : Bool :=
  args.any fun arg => equalIgnoreCase arg flag

/-- The word between the command's own arguments and those of another
program. -/
def dashes : Text := "--".toList

/-- `trim_matches` for a character. -/
def trimMatches (c : Char) (t : Text) : Text :=
  ((t.dropWhile (· = c)).reverse.dropWhile (· = c)).reverse

/-- `Path::file_name`: the last component, if it is a name. -/
def fileName (path : Text) : Option Text :=
  match ((path.splitOn '/').filter fun part => part ≠ [] ∧
    part ≠ ['.']).getLast? with
  | some part => if part = ['.', '.'] then none else some part
  | none => none

def commandBasename (token : Text) : Text :=
  let trimmed := trimMatches '\'' (trimMatches '"' token)
  Text.toAsciiLowercase ((fileName trimmed).getD trimmed)

def isEnvAssignment (token : Text) : Bool :=
  '=' ∈ token && !startsWithChar '-' token && !startsWithChar '=' token

def isWrapper (token : Text) : Bool :=
  token ∈ ["env", "sudo", "command", "time", "nohup", "nice"].map String.toList

/-- The loop of `strip_wrappers`.  Behind a wrapper flags are skipped. -/
def stripWrappersFrom : (behindWrapper : Bool) → List Text → List Text
  | _, [] => []
  | behindWrapper, token :: rest =>
      if behindWrapper && startsWithChar '-' token then
        stripWrappersFrom true rest
      else if isEnvAssignment token then stripWrappersFrom false rest
      else if isWrapper token then stripWrappersFrom true rest
      else token :: rest

def stripWrappers (tokens : List Text) : List Text :=
  stripWrappersFrom false tokens

def skipLeadingFlags : List Text → List Text
  | [] => []
  | token :: rest =>
      if token = dashes then rest
      else if startsWithChar '-' token then skipLeadingFlags rest
      else token :: rest

theorem length_skipLeadingFlags_le (tokens : List Text) :
    (skipLeadingFlags tokens).length ≤ tokens.length := by
  induction tokens with
  | nil => exact Nat.le_refl _
  | cons token rest ih =>
      rw [skipLeadingFlags]
      split
      next => exact Nat.le_succ _
      next =>
        split
        next => exact ih.trans (Nat.le_succ _)
        next => exact Nat.le_refl _

def peelExecWrappers : List Text → List Text
  | [] => []
  | token :: rest =>
      let base := commandBasename token
      if base = "npx".toList ∨ base = "bunx".toList then
        peelExecWrappers (skipLeadingFlags rest)
      else
        match rest with
        | [] => [token]
        | second :: args =>
            if base = "pnpm".toList ∧
              (second = "exec".toList ∨ second = "dlx".toList) then
              peelExecWrappers (skipLeadingFlags args)
            else if base = "yarn".toList ∧
                (commandBasename second = "exec".toList ∨
                  commandBasename second = "dlx".toList) then
              peelExecWrappers (skipLeadingFlags args)
            else token :: second :: args
termination_by tokens => tokens.length
decreasing_by
  · exact Nat.lt_succ_of_le (length_skipLeadingFlags_le _)
  · exact Nat.lt_succ_of_le
      ((length_skipLeadingFlags_le _).trans (Nat.le_succ _))
  · exact Nat.lt_succ_of_le
      ((length_skipLeadingFlags_le _).trans (Nat.le_succ _))

/-! ## Analysis -/

/-- An analysis without a suggestion of its own. -/
def judged (key : DryRunGuardKey) (isDry : Bool) (displayName : Text) :
    InternalAnalysis :=
  { key := key
    disposition := if isDry then .dryRun else .mutating
    displayName := displayName
    suggestedDryRun := none }

def analyzeCargo : List Text → Option InternalAnalysis
  | [] => none
  | program :: rest =>
      if equalIgnoreCase program "cargo" then
        match rest.dropWhile (startsWithChar '+') with
        | [] => none
        | sub :: args =>
            let sub := commandBasename sub
            if sub = "fmt".toList then
              some
                (judged .cargoFmt (sliceContainsFlag args "--check")
                  "cargo fmt".toList)
            else if sub = "fix".toList then
              some
                (judged .cargoFix (sliceContainsFlag args "--dry-run")
                  "cargo fix".toList)
            else if sub = "clippy".toList then
              if sliceContainsFlag args "--fix" then
                some
                  (judged .cargoClippyFix (sliceContainsFlag args "--dry-run")
                  "cargo clippy --fix".toList)
              else none
            else none
      else none

def analyzeRustfmt : List Text → Option InternalAnalysis
  | [] => none
  | program :: args =>
      if equalIgnoreCase program "rustfmt" then
        some
          (judged .rustfmt (sliceContainsFlag args "--check") "rustfmt".toList)
      else none

/-- An arm of `analyze_direct_formatter`: a formatter, the words that make it a
guarded one and those that make it a dry run. -/
structure DirectFormatter where
  base : String
  key : DryRunGuardKey
  displayName : String
  isGuarded : List Text → Bool
  isDry : List Text → Bool

/-- One of the flags is among the words. -/
def containsOneOf (flags : List String) (words : List Text) : Bool :=
  words.any fun word => flags.any fun flag => equalIgnoreCase word flag

/-- `--write` or `-w`. -/
def isWriteFlag (token : Text) : Bool :=
  equalIgnoreCase token "--write" || token = "-w".toList

/-- `-w` of `gofmt`, with or without a value. -/
def isGofmtWriteFlag (token : Text) : Bool :=
  token = "-w".toList || token.startsWith "-w="

/-- The second word is `format`. -/
def hasFormat (words : List Text) : Bool :=
  match words with
  | _ :: second :: _ => equalIgnoreCase second "format"
  | _ => false

/-- The arms of `analyze_direct_formatter`. -/
def directFormatters : List DirectFormatter :=
  [ ⟨"eslint", .eslintFix, "eslint --fix", containsOneOf ["--fix"],
      containsOneOf ["--fix-dry-run", "--dry-run"]⟩,
    ⟨"prettier", .prettierWrite, "prettier --write",
      fun actual => actual.any isWriteFlag,
      containsOneOf ["--check", "--list-different", "--dry-run"]⟩,
    ⟨"black", .black, "black", fun _ => true, containsOneOf ["--check"]⟩,
    ⟨"ruff", .ruffFormat, "ruff format", hasFormat,
      fun actual => containsOneOf ["--check"] actual.tail⟩,
    ⟨"isort", .isort, "isort", fun _ => true, containsOneOf ["--check-only"]⟩,
    ⟨"gofmt", .gofmt, "gofmt -w", fun actual => actual.any isGofmtWriteFlag,
      fun actual => actual.any fun t =>
        t = "-d".toList || t = "-l".toList || t = "-n".toList⟩,
    ⟨"rustywind", .rustywind, "rustywind", fun _ => true,
      containsOneOf ["--check"]⟩,
    ⟨"dart", .dartFormat, "dart format", hasFormat,
      containsOneOf ["--dry-run"]⟩,
    ⟨"swiftformat", .swiftFormat, "swiftformat", fun _ => true,
      containsOneOf ["--lint", "--dryrun"]⟩ ]

def analyzeDirectFormatter (tokens : List Text) : Option InternalAnalysis :=
  match peelExecWrappers tokens with
  | [] => none
  | program :: args =>
      let base := commandBasename program
      match directFormatters.find? fun formatter =>
        formatter.base.toList = base with
      | none => none
      | some formatter =>
          if formatter.isGuarded (program :: args) then
            some (judged formatter.key (formatter.isDry (program :: args))
              formatter.displayName.toList)
          else none

def locateNpmScript (tokens : List Text) : Option (ℕ × Text) :=
  match tokens[1]? with
  | none => none
  | some second =>
      if equalIgnoreCase second "run" then tokens[2]?.map fun script =>
        (2, script)
      else some (1, second)

def locateSimpleScript (tokens : List Text) : Option (ℕ × Text) :=
  tokens[1]?.map fun script => (1, script)

def locatePackageScript (tokens : List Text) :
    PackageManager → Option (ℕ × Text)
  | .npm => locateNpmScript tokens
  | .pnpm => locateSimpleScript tokens
  | .yarn => locateSimpleScript tokens

def scriptKey (manager : PackageManager) (script : Text) :
    Option DryRunGuardKey :=
  let scriptLower := script.toAsciiLowercase
  if scriptLower.contains "lint" then some (.packageLint manager)
  else if scriptLower.contains "format" || scriptLower.contains "fmt" ||
      scriptLower.contains "prettier" then some (.packageFormat manager)
  else none

/-- An argument that makes a script a dry run. -/
def isDryArg (arg : Text) : Bool :=
  let lower := arg.toAsciiLowercase
  equalIgnoreCase arg "--check" || equalIgnoreCase arg "--dry-run" ||
    equalIgnoreCase arg "--no-fix" || lower.contains "fix=false" ||
    lower.contains "write=false" || lower.contains "mode=check"

/-- The script only runs another command. -/
def isExecScript (script : Text) : Bool :=
  equalIgnoreCase script "exec" || equalIgnoreCase script "dlx"

def analyzePackageManager (tokens : List Text) (manager : PackageManager) :
    Option InternalAnalysis :=
  match tokens.head? with
  | none => none
  | some program =>
      if equalIgnoreCase program manager.label then
        match locatePackageScript tokens manager with
        | none => none
        | some (scriptIdx, script) =>
            if isExecScript script then analyzeDirectFormatter tokens
            else
              match scriptKey manager script with
              | none => none
              | some key =>
                  some (judged key ((tokens.drop (scriptIdx + 1)).any isDryArg)
                    (manager.label.toList ++ ' ' :: script))
      else none

def analyzeTokens (tokens : List Text) : Option InternalAnalysis :=
  (analyzeCargo tokens).or <| (analyzeRustfmt tokens).or <|
    (analyzePackageManager tokens .npm).or <|
      (analyzePackageManager tokens .pnpm).or <|
      (analyzePackageManager tokens .yarn).or (analyzeDirectFormatter tokens)

/-- `analyze_command` on the words of the first command. -/
def analyzeWords (firstTokens : List Text) : Option DryRunAnalysis :=
  match stripWrappers firstTokens with
  | [] => none
  | token :: rest => (analyzeTokens (token :: rest)).map fun analysis =>
      { key := analysis.key
        disposition := analysis.disposition
        tokens := token :: rest
        displayName := analysis.displayName
        customSuggestedDryRun := analysis.suggestedDryRun }

def analyzeCommand (firstCommandTokens : List Text → Option (List Text))
    (command : List Text) : Option DryRunAnalysis :=
  (firstCommandTokens command).bind analyzeWords

/-! ## Suggestions -/

/-- A token is inserted in front of the first one of a kind, or at the end. -/
def insertAtFirst (p : Text → Bool) (flag : Text) : List Text → List Text
  | [] => [flag]
  | token :: rest =>
      if p token then flag :: token :: rest
        else token :: insertAtFirst p flag rest

/-- The first token of a kind is replaced, or one is put at the end. -/
def replaceFirst (p : Text → Bool) (flag : Text) : List Text → List Text
  | [] => [flag]
  | token :: rest =>
      if p token then flag :: rest else token :: replaceFirst p flag rest

/-- `suggest_cargo_fmt_dry_run`, as the tokens that it joins. -/
def suggestCargoFmt : List Text → List Text
  | [] => [dashes, "--check".toList]
  | token :: rest =>
      if token = dashes then
        if sliceContainsFlag rest "--check" then token :: rest
        else token :: "--check".toList :: rest
      else token :: suggestCargoFmt rest

/-- `suggest_cargo_fix_dry_run`. -/
def suggestCargoFix (tokens : List Text) : List Text :=
  if sliceContainsFlag tokens "--dry-run" then tokens
  else insertAtFirst (· = dashes) "--dry-run".toList tokens

/-- `suggest_cargo_clippy_dry_run`. -/
def suggestCargoClippy (tokens : List Text) : List Text :=
  tokens.eraseP fun token => equalIgnoreCase token "--fix"

/-- `suggest_package_script_dry_run`. -/
def suggestPackageScript (preferredFlag fallbackFlag : String)
    (tokens : List Text) :
    List Text :=
  if containsOneOf [preferredFlag, fallbackFlag] tokens then tokens
  else tokens ++ [dashes, preferredFlag.toList]

/-- `suggest_eslint_fix_dry_run`. -/
def suggestEslintFix (tokens : List Text) : List Text :=
  if containsOneOf ["--fix-dry-run", "--dry-run"] tokens then tokens
  else insertAtFirst (· = dashes) "--fix-dry-run".toList tokens

/-- `suggest_prettier_write_dry_run`. -/
def suggestPrettierWrite (tokens : List Text) : List Text :=
  if containsOneOf ["--check", "--list-different"] tokens then tokens
  else replaceFirst isWriteFlag "--check".toList tokens

/-- `suggest_append_flag`, where other flags may stand for the one that is
appended. -/
def suggestAppendFlag (flag : String) (others : List String)
    (tokens : List Text) : List Text :=
  if containsOneOf (flag :: others) tokens then tokens
    else tokens ++ [flag.toList]

/-- `suggest_rustfmt_dry_run`. -/
def suggestRustfmt : List Text → List Text := suggestAppendFlag "--check" []

/-- `suggest_gofmt_dry_run`. -/
def suggestGofmt : List Text → List Text :=
  replaceFirst isGofmtWriteFlag "-d".toList

/-- `suggest_swiftformat_dry_run`. -/
def suggestSwiftformat : List Text → List Text :=
  suggestAppendFlag "--lint" ["--dryrun"]

def suggestTokens : DryRunGuardKey → List Text → List Text
  | .cargoFmt => suggestCargoFmt
  | .cargoFix => suggestCargoFix
  | .cargoClippyFix => suggestCargoClippy
  | .rustfmt => suggestRustfmt
  | .packageLint _ => suggestPackageScript "--dry-run" "--check"
  | .packageFormat _ => suggestPackageScript "--check" "--dry-run"
  | .eslintFix => suggestEslintFix
  | .prettierWrite => suggestPrettierWrite
  | .black => suggestAppendFlag "--check" []
  | .ruffFormat => suggestAppendFlag "--check" []
  | .isort => suggestAppendFlag "--check-only" []
  | .gofmt => suggestGofmt
  | .rustywind => suggestAppendFlag "--check" []
  | .dartFormat => suggestAppendFlag "--dry-run" []
  | .swiftFormat => suggestSwiftformat

def joinWords (tokens : List Text) : Text := [' '].intercalate tokens

def DryRunAnalysis.suggestedDryRun (analysis : DryRunAnalysis) : Option Text :=
  match analysis.customSuggestedDryRun with
  | some custom => some custom
  | none => some (joinWords (suggestTokens analysis.key analysis.tokens))

end CodeRs.DryRun
