import CodeRs.Lib.ShellScript
import CodeRs.Lib.Text
import CodeRs.Protocol.Policies

/-!
# When a command runs without asking

`ApprovedCommandPattern` of `core/src/codex/session.rs` and
`assess_command_safety` of `core/src/safety.rs`.  A pattern of kind prefix
compares the words of a script with the approved words, and operators are words
too.  Splitting into words and the list of known safe commands are parameters,
and so is the way the shell reads a script.
-/

namespace CodeRs.Safety

open Protocol Shell

/-! ## Shell scripts in command vectors -/

/-- `str::trim_matches` for one character. -/
def trimMatches (c : Char) (text : Text) : Text :=
  ((text.dropWhile (· = c)).reverse.dropWhile (· = c)).reverse

/-- `Path::file_name` of a text. -/
def fileName (path : Text) : Option Text :=
  ((path.splitOn '/').filter fun part => part ≠ [] ∧
    part ≠ ['.']).getLast?.filter
    fun part => part ≠ ['.', '.']

/-- The executables that take a script after `-c`. -/
def shellNames : List String :=
  ["bash", "bash.exe", "sh", "sh.exe", "zsh", "zsh.exe", "dash",
    "dash.exe", "ksh",
    "ksh.exe", "busybox"]

/-- `is_shell_like_executable`.  The characters trimmed are the two quotes. -/
def isShellLikeExecutable (token : String) : Bool :=
  let trimmed :=
    trimMatches (Char.ofNat 39) (trimMatches (Char.ofNat 34) token.toList)
  let name := ((fileName trimmed).getD trimmed).map Char.toLower
  shellNames.any fun shell => shell.toList = name

def extractShellScript : List String → Option (ℕ × String)
  | [script] => some (0, script)
  | [first, second, third] =>
      if isShellLikeExecutable first && (second = "-lc" || second = "-c") then
        some (2, third)
      else none
  | _ => none

/-! ## Approved patterns -/

inductive ApprovedCommandMatchKind where
  | exactMatch | prefixMatch
  deriving DecidableEq, Repr

/-- `ApprovedCommandPattern`.  Exactly the patterns of kind prefix have semantic
words. -/
structure ApprovedCommandPattern where
  argv : List String
  kind : ApprovedCommandMatchKind
  semanticPrefix : Option (List String)
  semanticPrefix_isSome : semanticPrefix.isSome ↔ kind = .prefixMatch
  deriving DecidableEq

def ApprovedCommandPattern.new (argv : List String)
    (kind : ApprovedCommandMatchKind)
    (semanticPrefix : Option (List String)) : ApprovedCommandPattern where
  argv := argv
  kind := kind
  semanticPrefix :=
    match kind with
    | .prefixMatch => semanticPrefix.or (some argv)
    | .exactMatch => none
  semanticPrefix_isSome := by cases kind <;> simp

variable (shlexSplit : String → Option (List String))

def semanticTokens (command : List String) : Option (List String) :=
  if command = [] then none
  else
    match extractShellScript command with
    | some (_, script) => some ((shlexSplit script).getD [script])
    | none => some command

/-- `matches`. -/
def ApprovedCommandPattern.matchesCommand (pattern : ApprovedCommandPattern)
    (command : List String) : Bool :=
  match pattern.kind with
  | .exactMatch => command = pattern.argv
  | .prefixMatch =>
      if pattern.argv.isPrefixOf command then true
      else
        match pattern.semanticPrefix, semanticTokens shlexSplit command with
        | some words, some candidate => words.isPrefixOf candidate
        | _, _ => false

/-! ## The assessment -/

/-- A command runs in the platform sandbox if there is one. -/
def inPlatformSandbox (host : Host) (otherwise : SafetyCheck) : SafetyCheck :=
  match getPlatformSandbox host with
  | some sandboxType => .autoApprove sandboxType false
  | none => otherwise

def assessSafetyForUntrustedCommand (host : Host)
    (approvalPolicy : AskForApproval)
    (sandboxPolicy : SandboxPolicy) (withEscalatedPermissions : Bool) :
    SafetyCheck :=
  match approvalPolicy, sandboxPolicy with
  | .unlessTrusted, _ => .askUser
  | _, .dangerFullAccess => .autoApprove .none false
  | .reject config, _ =>
      if config.sandboxApproval || config.rules then
        .reject "auto-rejected by approval policy"
      else if withEscalatedPermissions then .askUser
      else inPlatformSandbox host .askUser
  | .onRequest, _ =>
      if withEscalatedPermissions then .askUser
        else inPlatformSandbox host .askUser
  | .never, _ =>
      inPlatformSandbox host
        (.reject "auto-rejected because command is not on trusted list")
  | .onFailure, _ => inPlatformSandbox host .askUser

def assessCommandSafety (host : Host) (isKnownSafeCommand : List String → Bool)
    (command : List String) (approvalPolicy : AskForApproval)
    (sandboxPolicy : SandboxPolicy) (approved : List ApprovedCommandPattern)
    (withEscalatedPermissions : Bool) : SafetyCheck :=
  let userExplicitlyApproved :=
    approved.any fun pattern => pattern.matchesCommand shlexSplit command
  if isKnownSafeCommand command || userExplicitlyApproved then
    .autoApprove .none userExplicitlyApproved
  else
    assessSafetyForUntrustedCommand host approvalPolicy sandboxPolicy
      withEscalatedPermissions

/-- A command that some pattern matches runs outside any sandbox without
asking. -/
theorem assessCommandSafety_of_matches {host : Host}
    {isKnownSafeCommand : List String → Bool} {command : List String}
    {approvalPolicy : AskForApproval} {sandboxPolicy : SandboxPolicy}
    {approved : List ApprovedCommandPattern} {withEscalatedPermissions : Bool}
    {pattern : ApprovedCommandPattern} (hmem : pattern ∈ approved)
    (hmatches : pattern.matchesCommand shlexSplit command) :
    assessCommandSafety shlexSplit host isKnownSafeCommand command
      approvalPolicy
      sandboxPolicy approved withEscalatedPermissions =
      .autoApprove .none true := by
  have hany : (approved.any fun pattern =>
      pattern.matchesCommand shlexSplit command) = true :=
    List.any_eq_true.2 ⟨pattern, hmem, hmatches⟩
  rw [assessCommandSafety, hany, Bool.or_true, if_pos rfl]

/-! ## What an approved prefix covers -/

variable (read : String → Script)

/-- The simple commands that a command vector runs: those of its script, or the
vector itself. -/
def executedCommands (command : List String) : List (List Arg) :=
  match extractShellScript command with
  | some (_, script) => (read script).commands
  | none => if command = [] then [] else [command.map .text]

/-- The words that a pattern approves, as a vector and as a script. -/
def ApprovedCommandPattern.approvedWords (pattern : ApprovedCommandPattern) :
    List (List String) :=
  pattern.argv :: pattern.semanticPrefix.toList

/-- The simple command extends the approved words. -/
def ApprovedCommandPattern.Extends (pattern : ApprovedCommandPattern)
    (args : List Arg) : Prop :=
  ∃ words ∈ pattern.approvedWords, words.map .text <+: args

instance (pattern : ApprovedCommandPattern) (args : List Arg) :
    Decidable (pattern.Extends args) :=
  inferInstanceAs (Decidable (∃ words ∈ pattern.approvedWords, _))

/-- Every simple command of a vector that an approved prefix matches extends
this prefix. -/
def CoversMatches (approved : List ApprovedCommandPattern)
    (command : List String) :
    Prop :=
  ∀ pattern ∈ approved, pattern.kind = .prefixMatch →
    pattern.matchesCommand shlexSplit command →
    ∀ args ∈ executedCommands read command, pattern.Extends args

/-- The approved words come first in the vector or in the words of the
script. -/
def ApprovedCommandPattern.Leads (pattern : ApprovedCommandPattern)
    (command : List String) (script : Script) : Prop :=
  pattern.argv <+: command ∨ ∃ words ∈ pattern.semanticPrefix,
    words <+: script.words

/-- Wherever a simple command can start in the script, at the beginning, after
an operator or inside a substitution, there are no words or approved ones. -/
def ApprovedCommandPattern.StartsEveryCommand (pattern : ApprovedCommandPattern)
    (script : Script) : Prop :=
  ∀ start ∈ script :: script.laterStarts,
    start.firstCommand = [] ∨ pattern.Extends start.firstCommand

instance (pattern : ApprovedCommandPattern) (script : Script) :
    Decidable (pattern.StartsEveryCommand script) :=
  inferInstanceAs (Decidable (∀ start ∈ script :: script.laterStarts, _))

theorem matchesCommand_prefix_iff {pattern : ApprovedCommandPattern}
    {command : List String} (hkind : pattern.kind = .prefixMatch) :
    pattern.matchesCommand shlexSplit command ↔
      pattern.argv <+: command ∨ ∃ words ∈ pattern.semanticPrefix,
        ∃ candidate ∈ semanticTokens shlexSplit command,
        words <+: candidate := by
  simp only [ApprovedCommandPattern.matchesCommand, hkind]
  split
  · rename_i hargv
    exact iff_of_true rfl (.inl (List.isPrefixOf_iff_prefix.1 hargv))
  · rename_i hargv
    rw [or_iff_right (mt List.isPrefixOf_iff_prefix.2 hargv)]
    cases pattern.semanticPrefix <;>
      cases semanticTokens shlexSplit command <;> simp

variable {shlexSplit read}

/-- For a script, a pattern of kind prefix matches when its words come first. -/
theorem matchesCommand_script_iff {pattern : ApprovedCommandPattern}
    {command : List String} {i : ℕ} {script : String}
    (hshlex : shlexSplit script = some (read script).words)
    (hkind : pattern.kind = .prefixMatch)
    (hscript : extractShellScript command = some (i, script)) :
    pattern.matchesCommand shlexSplit command ↔
      pattern.Leads command (read script) := by
  have hne : command ≠ [] := by
    rintro rfl
    cases hscript
  have htokens :
      semanticTokens shlexSplit command = some (read script).words := by
    simp only [semanticTokens, if_neg hne, hscript, hshlex, Option.getD_some]
  rw [matchesCommand_prefix_iff shlexSplit hkind, htokens]
  simp [ApprovedCommandPattern.Leads]

theorem extends_of_matches_vector {pattern : ApprovedCommandPattern}
    {command : List String} (hkind : pattern.kind = .prefixMatch)
    (hscript : extractShellScript command = none)
    (hmatches : pattern.matchesCommand shlexSplit command) {args : List Arg}
    (hargs : args ∈ executedCommands read command) : pattern.Extends args := by
  simp only [executedCommands, hscript] at hargs
  split at hargs
  · cases hargs
  rename_i hne
  cases List.mem_singleton.1 hargs
  obtain hargv | ⟨words, hwords, candidate, hcandidate, hleads⟩ :=
    (matchesCommand_prefix_iff shlexSplit hkind).1 hmatches
  · exact ⟨pattern.argv, List.mem_cons_self, hargv.map _⟩
  · simp only [semanticTokens, if_neg hne, hscript,
      Option.mem_some] at hcandidate
    subst hcandidate
    exact ⟨words, List.mem_cons_of_mem _ (Option.mem_toList.2 hwords),
      hleads.map _⟩

/-- The simple commands of a script extend the approved words exactly when every
place where one can start does. -/
theorem forall_commands_extends_iff {pattern : ApprovedCommandPattern}
    {script : Script} :
    (∀ args ∈ script.commands, pattern.Extends args) ↔
      pattern.StartsEveryCommand script := by
  constructor
  · intro hall start hstart
    by_cases hnil : start.firstCommand = []
    · exact .inl hnil
    · exact .inr (hall _ (Script.mem_commands.2 ⟨hnil, start, hstart, rfl⟩))
  · intro hstarts args hargs
    obtain ⟨hne, start, hstart, rfl⟩ := Script.mem_commands.1 hargs
    exact (hstarts start hstart).resolve_left hne

/-- Approved prefixes cover what they match exactly when each pattern whose
words come first in a script also starts every other simple command of it. -/
theorem coversMatches_iff
    (hshlex : ∀ script, shlexSplit script = some (read script).words)
    (approved : List ApprovedCommandPattern) (command : List String) :
    CoversMatches shlexSplit read approved command ↔
      ∀ pattern ∈ approved, pattern.kind = .prefixMatch →
        ∀ i script, extractShellScript command = some (i, script) →
          pattern.Leads command (read script) →
          pattern.StartsEveryCommand (read script) := by
  constructor
  · intro hcovers pattern hpattern hkind i script hscript hleads
    rw [← forall_commands_extends_iff]
    have hmatches :=
      (matchesCommand_script_iff (hshlex script) hkind hscript).2 hleads
    have hall := hcovers pattern hpattern hkind hmatches
    simpa only [executedCommands, hscript] using hall
  · intro hcond pattern hpattern hkind hmatches args hargs
    cases hscript : extractShellScript command with
    | none => exact extends_of_matches_vector hkind hscript hmatches hargs
    | some found =>
        obtain ⟨i, script⟩ := found
        have hleads :=
          (matchesCommand_script_iff (hshlex script) hkind hscript).1 hmatches
        simp only [executedCommands, hscript] at hargs
        exact forall_commands_extends_iff.2
          (hcond pattern hpattern hkind i script hscript hleads) args hargs

/-! ### Scripts of plain words -/

/-- The shell's reading of words and operators that stand between blanks. -/
def readPlain (text : String) : Script :=
  (((text.toList.splitOn ' ').map String.ofList).filter (· ≠ "")).foldr
    (fun word rest =>
      if word = "&&" then .connector .andIf rest
      else if word = "||" then .connector .orIf rest
      else if word = ";" then .connector .semicolon rest
      else if word = "|" then .connector .pipe rest
      else .word word rest)
    .done

/-- An approval of `git status` covers the script `git status --short`. -/
theorem coversMatches_git_status :
    CoversMatches (fun script => some (readPlain script).words) readPlain
      [.new ["git", "status"] .prefixMatch none]
      ["bash", "-lc", "git status --short"] := by
  refine (coversMatches_iff (fun _ => rfl) _ _).2 ?_
  intro pattern hpattern _ i script hscript _
  have hfound : extractShellScript ["bash", "-lc", "git status --short"] =
      some (2, "git status --short") := by decide
  cases List.mem_singleton.1 hpattern
  cases hfound.symm.trans hscript
  decide

/-- An approval of `git status` also matches a script that goes on with another
command, which then runs outside any sandbox without asking. -/
theorem not_coversMatches_git_status_and_rm :
    let shlexSplit := fun script => some (readPlain script).words
    let approved := [.new ["git", "status"] .prefixMatch none]
    let command := ["bash", "-lc", "git status && rm -rf /"]
    ¬ CoversMatches shlexSplit readPlain approved command ∧
      ∀ host isKnownSafeCommand approvalPolicy sandboxPolicy escalated,
        assessCommandSafety shlexSplit host isKnownSafeCommand command
          approvalPolicy
          sandboxPolicy approved escalated = .autoApprove .none true := by
  intro shlexSplit approved command
  have hmatches : (ApprovedCommandPattern.new ["git", "status"] .prefixMatch
      none).matchesCommand shlexSplit command := by decide
  constructor
  · intro hcovers
    have hextends := hcovers _ (List.mem_singleton.2 rfl) rfl hmatches
      [.text "rm", .text "-rf", .text "/"] (by decide)
    exact absurd hextends (by decide)
  · intro host isKnownSafeCommand approvalPolicy sandboxPolicy escalated
    exact assessCommandSafety_of_matches shlexSplit
      (List.mem_singleton.2 rfl) hmatches

end CodeRs.Safety
