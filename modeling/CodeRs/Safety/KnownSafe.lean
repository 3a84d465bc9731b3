import CodeRs.Safety.CommandSafety

/-!
# Commands that are known to be safe

`is_known_safe_command` of `core/src/command_safety/is_safe_command.rs`, as it
is on Unix.  A command of the list runs without asking, and of `sed` only the
printing of lines by their numbers is in it.  Parsing a script into the words
of its plain commands is a parameter.
-/

namespace CodeRs.Safety

/-! ## The list -/

/-- Of `find`: options that run commands, delete files or write to them. -/
def unsafeFindOptions : List String :=
  ["-exec", "-execdir", "-ok", "-okdir", "-delete", "-fls", "-fprint",
    "-fprint0", "-fprintf"]

/-- Of `rg`: options that take a command. -/
def unsafeRipgrepOptionsWithArgs : List String := ["--pre", "--hostname-bin"]

/-- Of `rg`: options that call decompression tools. -/
def unsafeRipgrepOptionsWithoutArgs : List String := ["--search-zip", "-z"]

/-- The argument is the option, or gives it a value behind an equals sign. -/
def givesOption (arg opt : String) : Bool :=
  arg = opt || (opt ++ "=").toList.isPrefixOf arg.toList

/-- `str::strip_suffix` for a character. -/
def stripLast (c : Char) (text : Text) : Option Text :=
  if text.getLast? = some c then some text.dropLast else none

/-- The part is not empty, and has ASCII digits only. -/
def isNumeric (part : Text) : Bool := !part.isEmpty && part.all Char.isDigit

def isValidSedNArg (arg : Option String) : Bool :=
  match arg with
  | none => false
  | some s =>
      match stripLast 'p' s.toList with
      | none => false
      | some core =>
          match core.splitOn ',' with
          | [num] => isNumeric num
          | [a, b] => isNumeric a && isNumeric b
          | _ => false

/-- The programs that are safe whatever their arguments are. -/
def safePrograms : List String :=
  ["cat", "cd", "echo", "false", "grep", "head", "ls", "nl", "pwd",
    "tail", "true", "wc",
    "which"]

def safeGitSubcommands : List String :=
  ["branch", "status", "log", "diff", "show"]

def isSafeToCallWithExec (command : List String) : Bool :=
  match command.head? with
  | none => false
  | some cmd0 =>
      if cmd0 ∈ safePrograms then true
      else if cmd0 = "find" then !command.any fun arg =>
        unsafeFindOptions.contains arg
      else if cmd0 = "rg" then
        !command.any fun arg => unsafeRipgrepOptionsWithoutArgs.contains arg ||
          unsafeRipgrepOptionsWithArgs.any (givesOption arg)
      else if cmd0 = "git" then command[1]?.any fun sub =>
        safeGitSubcommands.contains sub
      else if cmd0 = "cargo" ∧ command[1]? = some "check" then true
      else if cmd0 = "sed" then
        command.length = 4 && command[1]? = some "-n" &&
          isValidSedNArg command[2]? &&
          command[3]?.any fun file => file ≠ ""
      else false

/-! ## Scripts of plain commands -/

/-- `is_bash`.  The characters trimmed are the two quotes. -/
def isBash (cmd : String) : Bool :=
  let trimmed :=
    trimMatches (Char.ofNat 39) (trimMatches (Char.ofNat 34) cmd.toList)
  let isName (name : Text) : Bool :=
    Text.toAsciiLowercase name = "bash".toList ||
      Text.toAsciiLowercase name = "bash.exe".toList
  isName trimmed || (fileName trimmed).any isName

variable (wordOnlyCommands : String → Option (List (List String)))

/-- The script has plain commands only, at least one, and all of them are in
the list. -/
def isSafeScript (script : String) : Bool :=
  match wordOnlyCommands script with
  | some allCommands =>
      !allCommands.isEmpty && allCommands.all isSafeToCallWithExec
  | none => false

def isKnownSafeCommand (command : List String) : Bool :=
  if isSafeToCallWithExec command then true
  else
    match command with
    | [script] => isSafeScript wordOnlyCommands script
    | [bash, flag, script] =>
        isBash bash && flag = "-lc" && isSafeScript wordOnlyCommands script
    | _ => false

/-- The plain commands that a command vector is run as: those of a script
behind `bash -lc`, and of a single word that is no program of the list, and
otherwise the vector itself. -/
def plainCommands (command : List String) : Option (List (List String)) :=
  match command with
  | [script] =>
      if isSafeToCallWithExec [script] then some [[script]]
        else wordOnlyCommands script
  | [bash, flag, script] =>
      if isBash bash && flag = "-lc" then wordOnlyCommands script
        else some [command]
  | _ => some [command]

variable {wordOnlyCommands}

theorem commands_of_isSafeScript {script : String}
    (h : isSafeScript wordOnlyCommands script = true) :
    ∃ commands, wordOnlyCommands script = some commands ∧ commands ≠ [] ∧
      ∀ words ∈ commands, isSafeToCallWithExec words = true := by
  rw [isSafeScript] at h
  cases hparse : wordOnlyCommands script with
  | none =>
      rw [hparse] at h
      cases h
  | some commands =>
      rw [hparse] at h
      obtain ⟨hne, hall⟩ := Bool.and_eq_true_iff.1 h
      exact ⟨commands, rfl, by simpa using hne, List.all_eq_true.1 hall⟩

theorem head_of_isSafeToCallWithExec {cmd0 : String} {args : List String}
    (h : isSafeToCallWithExec (cmd0 :: args) = true) :
    cmd0 ∈ safePrograms ++ ["find", "rg", "git", "cargo", "sed"] := by
  rw [isSafeToCallWithExec] at h
  simp only [List.head?_cons] at h
  refine List.mem_append.2 (or_iff_not_imp_left.2 fun hprogram => ?_)
  rw [if_neg hprogram] at h
  by_contra hother
  simp only [List.mem_cons, List.not_mem_nil, or_false, not_or] at hother
  obtain ⟨hfind, hrg, hgit, hcargo, hsed⟩ := hother
  rw [if_neg hfind, if_neg hrg, if_neg hgit,
    if_neg fun hcheck => hcargo hcheck.1,
    if_neg hsed] at h
  cases h

theorem isSafeToCallWithExec_bash {bash : String} (hbash : isBash bash = true)
    (args : List String) : isSafeToCallWithExec (bash :: args) = false := by
  rw [Bool.eq_false_iff]
  intro h
  have hnone :
      ∀ program ∈ safePrograms ++ ["find", "rg", "git", "cargo", "sed"],
      isBash program = false := by decide
  exact Bool.noConfusion
    (hbash.symm.trans (hnone bash (head_of_isSafeToCallWithExec h)))

/-- What runs without asking is run as plain commands of the list. -/
theorem plainCommands_of_isKnownSafeCommand {command : List String}
    (h : isKnownSafeCommand wordOnlyCommands command = true) :
    ∃ commands, plainCommands wordOnlyCommands command = some commands ∧
      commands ≠ [] ∧
      ∀ words ∈ commands, isSafeToCallWithExec words = true := by
  have hvector (hsafe : isSafeToCallWithExec command = true) :
      ∃ commands, some [command] = some commands ∧ commands ≠ [] ∧
        ∀ words ∈ commands, isSafeToCallWithExec words = true := by
    refine ⟨[command], rfl, List.cons_ne_nil _ _, fun words hwords => ?_⟩
    rwa [List.mem_singleton.1 hwords]
  unfold isKnownSafeCommand at h
  unfold plainCommands
  split
  next script =>
    by_cases hsafe : isSafeToCallWithExec [script] = true
    · rw [if_pos hsafe]
      exact hvector hsafe
    · rw [if_neg hsafe] at h ⊢
      exact commands_of_isSafeScript h
  next bash flag script =>
    by_cases hbash : (isBash bash && flag = "-lc") = true
    · rw [if_pos hbash]
      have hlist :=
        isSafeToCallWithExec_bash (Bool.and_eq_true_iff.1 hbash).1 [flag,
          script]
      rw [hlist, if_neg Bool.false_ne_true] at h
      exact commands_of_isSafeScript (Bool.and_eq_true_iff.1 h).2
    · rw [if_neg hbash]
      apply hvector
      by_contra hsafe
      rw [if_neg hsafe] at h
      exact hbash (Bool.and_eq_true_iff.1 h).1
  next hone hthree =>
    apply hvector
    by_contra hsafe
    rw [if_neg hsafe] at h
    split at h
    next script => exact hone script rfl
    next bash flag script => exact hthree bash flag script rfl
    next => cases h

/-! ## Scripts of `sed` -/

/-- A line number: ASCII digits, and at least one. -/
def LineNumber (text : Text) : Prop := text ≠ [] ∧ ∀ c ∈ text, c.isDigit = true

/-- The scripts that print lines by their numbers: `Np` and `N,Mp`. -/
inductive PrintsLines : Text → Prop
  | line {n : Text} : LineNumber n → PrintsLines (n ++ ['p'])
  | range {n m : Text} : LineNumber n → LineNumber m →
    PrintsLines (n ++ ',' :: m ++ ['p'])

theorem isNumeric_iff {part : Text} :
    isNumeric part = true ↔ LineNumber part := by
  simp [isNumeric, LineNumber]

theorem LineNumber.comma_notMem {n : Text} (h : LineNumber n) : ',' ∉ n := by
  intro hmem
  have hdigit := h.2 ',' hmem
  exact absurd hdigit (by decide)

theorem stripLast_eq_some {c : Char} {text core : Text} :
    stripLast c text = some core ↔ text = core ++ [c] := by
  rw [stripLast]
  constructor
  · intro h
    split at h
    next hlast =>
      obtain ⟨front, rfl⟩ := List.getLast?_eq_some_iff.1 hlast
      rw [List.dropLast_concat] at h
      cases h
      rfl
    next => cases h
  · rintro rfl
    rw [List.getLast?_concat, if_pos rfl, List.dropLast_concat]

/-- `is_valid_sed_n_arg` accepts the scripts that print lines by their
numbers. -/
theorem isValidSedNArg_some (script : String) :
    isValidSedNArg (some script) = true ↔ PrintsLines script.toList := by
  constructor
  · intro h
    simp only [isValidSedNArg] at h
    split at h
    next => cases h
    next core hcore =>
      rw [stripLast_eq_some.1 hcore]
      have hjoin : [','].intercalate (core.splitOn ',') = core :=
        List.intercalate_splitOn ','
      split at h
      next num hsplit =>
        rw [hsplit] at hjoin
        have hnum : num = core := by simpa using hjoin
        rw [← hnum]
        exact .line (isNumeric_iff.1 h)
      next a b hsplit =>
        rw [hsplit] at hjoin
        have hrange : a ++ ',' :: b = core := by simpa using hjoin
        obtain ⟨ha, hb⟩ := Bool.and_eq_true_iff.1 h
        rw [← hrange]
        exact .range (isNumeric_iff.1 ha) (isNumeric_iff.1 hb)
      next => cases h
  · intro h
    rw [isValidSedNArg]
    generalize script.toList = text at h
    cases h with
    | @line n hn =>
        rw [stripLast_eq_some.2 rfl]
        dsimp only
        rw [List.splitOn_eq_singleton hn.comma_notMem]
        exact isNumeric_iff.2 hn
    | @range n m hn hm =>
        rw [stripLast_eq_some.2 rfl]
        dsimp only
        rw [List.splitOn_append_cons_self_of_not_mem hn.comma_notMem,
          List.splitOn_eq_singleton hm.comma_notMem]
        exact Bool.and_eq_true_iff.2 ⟨isNumeric_iff.2 hn, isNumeric_iff.2 hm⟩

theorem isSafeToCallWithExec_sed (args : List String) :
    isSafeToCallWithExec ("sed" :: args) = true ↔
      ∃ script file, args = ["-n", script, file] ∧ PrintsLines script.toList ∧
        file ≠ "" := by
  have hsed : isSafeToCallWithExec ("sed" :: args) =
      ((args.length + 1 = 4 : Bool) && (args[0]? = some "-n" : Bool) &&
        isValidSedNArg args[1]? &&
        args[2]?.any fun file => file ≠ "") := rfl
  rw [hsed]
  constructor
  · intro h
    obtain ⟨h, hfile⟩ := Bool.and_eq_true_iff.1 h
    obtain ⟨h, hscript⟩ := Bool.and_eq_true_iff.1 h
    obtain ⟨hlen, hflag⟩ := Bool.and_eq_true_iff.1 h
    have hthree : args.length = 3 := by simpa using hlen
    obtain ⟨flag, script, file, rfl⟩ := List.length_eq_three.1 hthree
    have hflag' : flag = "-n" := by simpa using hflag
    have hfile' : file ≠ "" := by simpa using hfile
    exact ⟨script, file,
      by rw [hflag'], (isValidSedNArg_some script).1 hscript, hfile'⟩
  · rintro ⟨script, file, rfl, hscript, hfile⟩
    have hvalid := (isValidSedNArg_some script).2 hscript
    simp [hvalid, hfile]

/-- `is_valid_sed_n_arg` accepts exactly `Np` and `N,Mp`, and every `sed`
command that a known safe command is run as, in the script of a shell or by
itself, has such a script between `-n` and a file. -/
theorem isValidSedNArg_iff :
    (∀ arg, isValidSedNArg arg = true ↔
      ∃ script, arg = some script ∧ PrintsLines script.toList) ∧
    ∀ wordOnlyCommands command,
      isKnownSafeCommand wordOnlyCommands command = true →
      ∃ commands, plainCommands wordOnlyCommands command = some commands ∧
        commands ≠ [] ∧
        ∀ args, "sed" :: args ∈ commands → ∃ script file,
          args = ["-n", script, file] ∧ PrintsLines script.toList ∧
            file ≠ "" := by
  constructor
  · intro arg
    cases arg with
    | none =>
        refine iff_of_false Bool.false_ne_true ?_
        rintro ⟨script, hscript, -⟩
        cases hscript
    | some s =>
        rw [isValidSedNArg_some]
        constructor
        · exact fun h => ⟨s, rfl, h⟩
        · rintro ⟨script, hscript, h⟩
          cases hscript
          exact h
  · intro wordOnlyCommands command h
    obtain ⟨commands, hruns, hne, hall⟩ := plainCommands_of_isKnownSafeCommand h
    exact ⟨commands, hruns, hne, fun args hargs =>
      (isSafeToCallWithExec_sed args).1 (hall _ hargs)⟩

end CodeRs.Safety
