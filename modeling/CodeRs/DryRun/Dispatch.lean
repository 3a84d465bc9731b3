import CodeRs.DryRun.Peeling
import Mathlib.Data.List.TakeWhile

/-!
# How a command is judged

The first words of a command say which analysis is asked, and the words behind
them what it finds.  Cargo, `rustfmt` and the scripts of a package manager are
judged by the words behind a front, and the direct formatters by their own
words.
-/

namespace CodeRs.DryRun

/-! ## Fronts -/

/-- The flags that a suggestion looks for in a front. -/
def frontFlags : List String := ["--", "--check", "--dry-run", "--fix"]

/-- No word of the front is one of the flags. -/
def Flagless (front : List Text) : Prop :=
  ∀ token ∈ front, ∀ flag ∈ frontFlags, equalIgnoreCase token flag = false

theorem frontFlags_names : ∀ flag ∈ frontFlags,
    IsName (Text.toAsciiLowercase flag.toList) := by decide

theorem Flagless.append {front other : List Text} (h : Flagless front)
    (h' : Flagless other) :
    Flagless (front ++ other) :=
  fun token ht => (List.mem_append.1 ht).elim (h token) (h' token)

theorem flagless_singleton {token : Text}
    (h : ∀ flag ∈ frontFlags,
      equalIgnoreCase token flag = false) : Flagless [token] :=
  fun t ht => by rwa [List.mem_singleton.1 ht]

theorem flagless_of_name {token : Text} {word : String}
    (h : equalIgnoreCase token word = true)
    (hword : ∀ flag ∈ frontFlags,
      Text.toAsciiLowercase word.toList ≠ Text.toAsciiLowercase flag.toList) :
    Flagless [token] :=
  flagless_singleton fun flag hflag =>
    equalIgnoreCase_unique h (hword flag hflag)

theorem flagless_of_base {token : Text}
    (h : ∀ flag ∈ frontFlags,
      commandBasename token ≠ Text.toAsciiLowercase flag.toList) :
    Flagless [token] :=
  flagless_singleton fun flag hflag =>
    equalIgnoreCase_eq_false (h flag hflag) (frontFlags_names flag hflag)

theorem flagless_of_toolchain {front : List Text}
    (h : ∀ token ∈ front,
      startsWithChar '+' token = true) : Flagless front := by
  intro token ht flag hflag
  refine decide_eq_false fun heq => ?_
  have hhead : (Text.toAsciiLowercase flag.toList).head? = some '+' := by
    have hplus : token.head? = some '+' := of_decide_eq_true (h token ht)
    rw [← heq, Text.toAsciiLowercase, List.head?_map, hplus]
    rfl
  exact absurd hhead ((by decide : ∀ flag ∈ frontFlags,
    (Text.toAsciiLowercase flag.toList).head? ≠ some '+') flag hflag)

theorem flagless_of_scriptKey {manager : PackageManager} {script : Text}
    {key : DryRunGuardKey}
    (h : scriptKey manager script = some key) : Flagless [script] := by
  refine flagless_singleton fun flag hflag => decide_eq_false fun heq => ?_
  have hwords : ∀ flag ∈ frontFlags,
      ∀ word ∈ ["lint", "format", "fmt", "prettier"],
      (Text.toAsciiLowercase flag.toList).contains word = false := by decide
  have hnone := hwords flag hflag
  simp only [scriptKey, heq, hnone "lint" (by decide),
    hnone "format" (by decide),
    hnone "fmt" (by decide), hnone "prettier" (by decide)] at h
  cases h

/-! ## Analyses that do not apply -/

theorem analyzeCargo_eq_none {program : Text}
    (h : equalIgnoreCase program "cargo" = false)
    (rest : List Text) : analyzeCargo (program :: rest) = none := by
  simp only [analyzeCargo, h, Bool.false_eq_true, if_false]

theorem analyzeRustfmt_eq_none {program : Text}
    (h : equalIgnoreCase program "rustfmt" = false) (rest : List Text) :
    analyzeRustfmt (program :: rest) = none := by
  simp only [analyzeRustfmt, h, Bool.false_eq_true, if_false]

theorem analyzePackageManager_eq_none {program : Text}
    {manager : PackageManager}
    (h : equalIgnoreCase program manager.label = false) (rest : List Text) :
    analyzePackageManager (program :: rest) manager = none := by
  simp only [analyzePackageManager, List.head?_cons, h,
    Bool.false_eq_true, if_false]

theorem analyzeTokens_of_other {program : Text}
    (hcargo : equalIgnoreCase program "cargo" = false)
    (hrustfmt : equalIgnoreCase program "rustfmt" = false)
    (hlabel : ∀ manager : PackageManager,
      equalIgnoreCase program manager.label = false)
    (rest : List Text) :
    analyzeTokens (program :: rest) =
      analyzeDirectFormatter (program :: rest) := by
  rw [analyzeTokens, analyzeCargo_eq_none hcargo,
    analyzeRustfmt_eq_none hrustfmt,
    analyzePackageManager_eq_none (hlabel .npm),
    analyzePackageManager_eq_none (hlabel .pnpm),
    analyzePackageManager_eq_none (hlabel .yarn)]
  rfl

theorem analyzeTokens_of_cargo {program : Text}
    (h : equalIgnoreCase program "cargo" = true)
    (rest : List Text) :
    analyzeTokens (program :: rest) = analyzeCargo (program :: rest) := by
  have hbase : commandBasename program = "cargo".toList :=
    commandBasename_of_equalIgnoreCase h (by decide)
  have hdirect : analyzeDirectFormatter (program :: rest) = none := by
    rw [analyzeDirectFormatter,
      peelExecWrappers_of_not_isRunner (by rw [hbase]; decide)]
    simp only [hbase]
    rfl
  have hlabel : ∀ manager : PackageManager,
      equalIgnoreCase program manager.label = false :=
    fun manager => equalIgnoreCase_unique h (by cases manager <;> decide)
  rw [analyzeTokens,
    analyzeRustfmt_eq_none (equalIgnoreCase_unique h (by decide)),
    analyzePackageManager_eq_none (hlabel .npm),
    analyzePackageManager_eq_none (hlabel .pnpm),
    analyzePackageManager_eq_none (hlabel .yarn), hdirect]
  exact Option.or_none

theorem analyzeTokens_of_rustfmt {program : Text}
    (h : equalIgnoreCase program "rustfmt" = true) (rest : List Text) :
    analyzeTokens (program :: rest) = analyzeRustfmt (program :: rest) := by
  rw [analyzeTokens,
    analyzeCargo_eq_none (equalIgnoreCase_unique h (by decide)), analyzeRustfmt,
    if_pos h]
  rfl

/-- A package manager is asked first, and then the direct formatters. -/
theorem analyzeTokens_of_label {program : Text} {manager : PackageManager}
    (h : equalIgnoreCase program manager.label = true) (rest : List Text) :
    analyzeTokens (program :: rest) =
      (analyzePackageManager (program :: rest) manager).or
        (analyzeDirectFormatter (program :: rest)) := by
  have hother : ∀ other : PackageManager, other ≠ manager →
      equalIgnoreCase program other.label = false := by
    intro other hne
    refine equalIgnoreCase_unique h ?_
    cases manager <;> cases other <;> first | decide | exact absurd rfl hne
  rw [analyzeTokens,
    analyzeCargo_eq_none
      (equalIgnoreCase_unique h (by cases manager <;> decide)),
    analyzeRustfmt_eq_none
      (equalIgnoreCase_unique h (by cases manager <;> decide))]
  cases manager with
  | npm =>
      rw [analyzePackageManager_eq_none (hother .pnpm (by decide)),
        analyzePackageManager_eq_none (hother .yarn (by decide))]
      rfl
  | pnpm =>
      rw [analyzePackageManager_eq_none (hother .npm (by decide)),
        analyzePackageManager_eq_none (hother .yarn (by decide))]
      rfl
  | yarn =>
      rw [analyzePackageManager_eq_none (hother .npm (by decide)),
        analyzePackageManager_eq_none (hother .pnpm (by decide))]
      rfl

/-! ## Commands judged behind a front -/

/-- Which words make a guarded command of a front, and which a dry run. -/
inductive Judge : DryRunGuardKey → (List Text → Bool) →
    (List Text → Bool) → Prop
  | cargoFmt : Judge .cargoFmt (fun _ => true) fun args =>
  sliceContainsFlag args "--check"
  | cargoFix : Judge .cargoFix (fun _ => true) fun args =>
    sliceContainsFlag args "--dry-run"
  | cargoClippyFix : Judge .cargoClippyFix (fun args =>
    sliceContainsFlag args "--fix")
      fun args => sliceContainsFlag args "--dry-run"
  | rustfmt : Judge .rustfmt (fun _ => true) fun args =>
    sliceContainsFlag args "--check"
  | packageLint (manager : PackageManager) :
      Judge (.packageLint manager) (fun _ => true) fun args => args.any isDryArg
  | packageFormat (manager : PackageManager) :
      Judge (.packageFormat manager) (fun _ => true) fun args =>
        args.any isDryArg

/-- The words behind a front without flags decide. -/
structure FrontRun (key : DryRunGuardKey) (front : List Text)
    (guarded dry : List Text → Bool) :
    Prop where
  judge : Judge key guarded dry
  flagless : Flagless front
  ne_nil : front ≠ []
  analyze : ∃ name, ∀ args, analyzeTokens (front ++ args) =
    if guarded args then some (judged key (dry args) name) else none

/-- The words from the formatter's name on decide, whatever runs it. -/
structure DirectRun (w : List Text) (a : Text)
    (f : DirectFormatter) : Prop where
  found : (directFormatters.find? fun g => g.base.toList = commandBasename a) =
    some f
  peel : ∀ (b : Text) (rest : List Text), ¬ IsRunner (commandBasename b) →
    b ≠ dashes →
    startsWithChar '-' b = startsWithChar '-' a →
      peelExecWrappers (w ++ b :: rest) = b :: rest
  analyze : ∀ (b : Text) (rest : List Text), w ≠ [] ∨ b = a →
    analyzeTokens (w ++ b :: rest) = analyzeDirectFormatter (w ++ b :: rest)

/-- The result of a formatter for its words. -/
def DirectFormatter.judge (f : DirectFormatter) (actual : List Text) :
    Option InternalAnalysis :=
  if f.isGuarded actual then
    some (judged f.key (f.isDry actual) f.displayName.toList)
  else none

/-- The name of a formatter runs nothing else, and is no other program. -/
theorem name_of_found {a : Text} {f : DirectFormatter}
    (h : (directFormatters.find? fun g => g.base.toList = commandBasename a) =
      some f) :
    ¬ IsRunner (commandBasename a) ∧ a ≠ dashes ∧
      ∀ name ∈ ["cargo", "rustfmt", "npm", "pnpm", "yarn"],
        equalIgnoreCase a name = false := by
  have hmem := List.mem_of_find?_eq_some h
  have hbase : f.base.toList = commandBasename a := by
    simpa using List.find?_some h
  have hnames : ∀ g ∈ directFormatters, ¬ IsRunner g.base.toList ∧
      g.base.toList ≠ commandBasename dashes ∧
      ∀ name ∈ ["cargo", "rustfmt", "npm", "pnpm", "yarn"],
        g.base.toList ≠ Text.toAsciiLowercase name.toList := by decide
  obtain ⟨hrunner, hdashes, hother⟩ := hnames f hmem
  rw [hbase] at hrunner hdashes hother
  refine ⟨hrunner, fun heq => hdashes (by rw [heq]), fun name hname => ?_⟩
  have hword : ∀ name ∈ ["cargo", "rustfmt", "npm", "pnpm", "yarn"],
      IsName (Text.toAsciiLowercase name.toList) := by decide
  exact equalIgnoreCase_eq_false (hother name hname) (hword name hname)

/-- A direct formatter is found behind the words that run it. -/
theorem exists_of_analyzeDirectFormatter {tokens : List Text}
    {r : InternalAnalysis}
    (h : analyzeDirectFormatter tokens = some r) :
    ∃ (w : List Text) (a : Text) (args : List Text) (f : DirectFormatter),
      tokens = w ++ a :: args ∧ peelExecWrappers tokens = a :: args ∧
      (directFormatters.find? fun g => g.base.toList = commandBasename a) =
        some f ∧
      f.judge (a :: args) = some r := by
  obtain ⟨w, hw⟩ := peelExecWrappers_suffix tokens
  rw [analyzeDirectFormatter] at h
  split at h
  next => cases h
  next a args hpeel =>
    rw [hpeel] at hw
    simp only at h
    split at h
    next => cases h
    next f hfound => exact ⟨w, a, args, f, hw.symm, hpeel, hfound, h⟩

/-- The analysis of a direct formatter looks at its own words. -/
theorem analyzeDirectFormatter_of_peel {tokens args : List Text} {a : Text}
    {f : DirectFormatter} (hpeel : peelExecWrappers tokens = a :: args)
    (hfound : (directFormatters.find?
      fun g => g.base.toList = commandBasename a) = some f) :
    analyzeDirectFormatter tokens = f.judge (a :: args) := by
  simp only [analyzeDirectFormatter, hpeel, hfound]
  rfl

/-! ## Cargo and `rustfmt` -/

section Cargo

variable {program sub : Text} {toolchain : List Text}

/-- The subcommand behind the toolchain decides. -/
theorem analyzeCargo_toolchain
    (hprogram : equalIgnoreCase program "cargo" = true)
    (htoolchain : ∀ token ∈ toolchain, startsWithChar '+' token = true)
    (hsub : startsWithChar '+' sub = false) (args : List Text) :
    analyzeCargo (program :: (toolchain ++ sub :: args)) =
      if commandBasename sub = "fmt".toList then
        some
          (judged .cargoFmt (sliceContainsFlag args "--check")
            "cargo fmt".toList)
      else if commandBasename sub = "fix".toList then
        some
          (judged .cargoFix (sliceContainsFlag args "--dry-run")
            "cargo fix".toList)
      else if commandBasename sub = "clippy".toList then
        if sliceContainsFlag args "--fix" then
          some (judged .cargoClippyFix (sliceContainsFlag args "--dry-run")
            "cargo clippy --fix".toList)
        else none
      else none := by
  have hdrop : (toolchain ++ sub :: args).dropWhile (startsWithChar '+') =
      sub :: args := by
    rw [List.dropWhile_append_of_pos htoolchain,
      List.dropWhile_cons_of_neg (by simp [hsub])]
  simp only [analyzeCargo, hprogram, if_true, hdrop]

theorem frontRun_of_cargo {key : DryRunGuardKey}
    {guarded dry : List Text → Bool}
    (name : Text) (hprogram : equalIgnoreCase program "cargo" = true)
    (htoolchain : ∀ token ∈ toolchain, startsWithChar '+' token = true)
    (hbase : ∀ flag ∈ frontFlags,
      commandBasename sub ≠ Text.toAsciiLowercase flag.toList)
    (hjudge : Judge key guarded dry)
    (hanalyze : ∀ args, analyzeCargo (program :: (toolchain ++ sub :: args)) =
      if guarded args then some (judged key (dry args) name) else none) :
    FrontRun key (program :: (toolchain ++ [sub])) guarded dry := by
  refine ⟨hjudge, ?_, List.cons_ne_nil _ _, name, fun args => ?_⟩
  · exact (flagless_of_name hprogram (by decide)).append
      ((flagless_of_toolchain htoolchain).append (flagless_of_base hbase))
  · rw [List.cons_append, List.append_assoc, List.singleton_append,
      analyzeTokens_of_cargo hprogram, hanalyze]

theorem exists_front_of_cargo {rest : List Text} {r : InternalAnalysis}
    (hprogram : equalIgnoreCase program "cargo" = true)
    (h : analyzeTokens (program :: rest) = some r) :
    ∃ front args guarded dry, program :: rest = front ++ args ∧
      FrontRun r.key front guarded dry := by
  rw [analyzeTokens_of_cargo hprogram] at h
  have hsplit :=
    List.takeWhile_append_dropWhile (p := startsWithChar '+') (l := rest)
  have htoolchain : ∀ token ∈ rest.takeWhile (startsWithChar '+'),
      startsWithChar '+' token = true := fun _ ht => List.mem_takeWhile_imp ht
  cases hdrop : rest.dropWhile (startsWithChar '+') with
  | nil =>
      simp only [analyzeCargo, hprogram, if_true, hdrop] at h
      cases h
  | cons sub args =>
      have hsub : startsWithChar '+' sub = false := by
        have hhead := List.head?_dropWhile_not (startsWithChar '+') rest
        rw [hdrop] at hhead
        simpa using hhead
      rw [hdrop] at hsplit
      have hanalyze := analyzeCargo_toolchain hprogram htoolchain hsub
      have hfront : program :: rest =
          program :: (rest.takeWhile (startsWithChar '+') ++ [sub]) ++
            args := by
        rw [List.cons_append, List.append_assoc, List.singleton_append, hsplit]
      rw [← hsplit, hanalyze] at h
      refine ⟨program :: (rest.takeWhile (startsWithChar '+') ++ [sub]),
        args, ?_⟩
      split at h
      next hfmt =>
        cases h
        refine ⟨_, _, hfront,
          frontRun_of_cargo "cargo fmt".toList hprogram htoolchain
          (by rw [hfmt]; decide) .cargoFmt fun args' => ?_⟩
        rw [hanalyze, if_pos hfmt]
        rfl
      next hfmt =>
        split at h
        next hfix =>
          cases h
          refine ⟨_, _, hfront,
            frontRun_of_cargo "cargo fix".toList hprogram htoolchain
            (by rw [hfix]; decide) .cargoFix fun args' => ?_⟩
          rw [hanalyze, if_neg hfmt, if_pos hfix]
          rfl
        next hfix =>
          split at h
          next hclippy =>
            split at h
            next =>
              cases h
              refine ⟨_, _, hfront,
                frontRun_of_cargo "cargo clippy --fix".toList hprogram
                htoolchain (by rw [hclippy]; decide) .cargoClippyFix
                fun args' => ?_⟩
              rw [hanalyze, if_neg hfmt, if_neg hfix, if_pos hclippy]
              rfl
            next => cases h
          next => cases h

end Cargo

theorem exists_front_of_rustfmt {program : Text} {rest : List Text}
    {r : InternalAnalysis}
    (hprogram : equalIgnoreCase program "rustfmt" = true)
    (h : analyzeTokens (program :: rest) = some r) :
    ∃ front args guarded dry, program :: rest = front ++ args ∧
      FrontRun r.key front guarded dry := by
  rw [analyzeTokens_of_rustfmt hprogram] at h
  simp only [analyzeRustfmt, hprogram, if_true] at h
  cases h
  refine ⟨[program], rest, _, _, rfl, .rustfmt,
    flagless_of_name hprogram (by decide),
    List.cons_ne_nil _ _, "rustfmt".toList, fun args => ?_⟩
  rw [List.singleton_append, analyzeTokens_of_rustfmt hprogram]
  simp only [analyzeRustfmt, hprogram, if_true]
  rfl

/-! ## Package managers and direct formatters -/

theorem locatePackageScript_cases {program : Text} {rest : List Text}
    {manager : PackageManager} {idx : ℕ} {script : Text}
    (h : locatePackageScript (program :: rest) manager = some (idx, script)) :
    (∃ args, rest = script :: args ∧ idx = 1 ∧ ∀ args' : List Text,
      locatePackageScript (program :: script :: args') manager =
        some (1, script)) ∨
    (manager = .npm ∧ ∃ second args, rest = second :: script :: args ∧ idx = 2 ∧
      equalIgnoreCase second "run" = true) := by
  cases rest with
  | nil => cases manager <;> cases h
  | cons second args =>
      cases manager with
      | npm =>
          simp only [locatePackageScript, locateNpmScript,
            List.getElem?_cons_succ,
            List.getElem?_cons_zero] at h
          split at h
          next hrun =>
            obtain ⟨script', hscript, hpair⟩ := Option.map_eq_some_iff.1 h
            obtain ⟨rfl, rfl⟩ := Prod.mk.inj hpair
            cases args with
            | nil => cases hscript
            | cons third args =>
                obtain rfl := Option.some.inj hscript
                exact .inr ⟨rfl, second, args, rfl, rfl, hrun⟩
          next hrun =>
            obtain ⟨rfl, rfl⟩ := Prod.mk.inj (Option.some.inj h)
            refine .inl ⟨args, rfl, rfl, fun args' => ?_⟩
            simp only [locatePackageScript, locateNpmScript,
              List.getElem?_cons_succ,
              List.getElem?_cons_zero, if_neg hrun]
      | pnpm =>
          obtain ⟨rfl, rfl⟩ := Prod.mk.inj (Option.some.inj h)
          exact .inl ⟨args, rfl, rfl, fun _ => rfl⟩
      | yarn =>
          obtain ⟨rfl, rfl⟩ := Prod.mk.inj (Option.some.inj h)
          exact .inl ⟨args, rfl, rfl, fun _ => rfl⟩

/-- A script whose name has a key is judged by its arguments. -/
theorem frontRun_of_script (front : List Text) {program : Text}
    {manager : PackageManager}
    {idx : ℕ} {script : Text} {key : DryRunGuardKey}
    (hlabel : equalIgnoreCase program manager.label = true)
    (hfront : Flagless front)
    (hlength : (program :: front).length = idx + 1)
    (hlocate : ∀ args : List Text,
      locatePackageScript (program :: (front ++ args)) manager =
        some (idx, script))
    (hexec : isExecScript script = false)
    (hkey : scriptKey manager script = some key) :
    FrontRun key (program :: front) (fun _ => true) fun args =>
      args.any isDryArg := by
  have hjudge : Judge key (fun _ => true) fun args => args.any isDryArg := by
    simp only [scriptKey] at hkey
    split at hkey
    next =>
      cases hkey
      exact .packageLint manager
    next =>
      split at hkey
      next =>
        cases hkey
        exact .packageFormat manager
      next => cases hkey
  refine ⟨hjudge, ?_, List.cons_ne_nil _ _,
    manager.label.toList ++ ' ' :: script,
    fun args => ?_⟩
  · exact (flagless_of_name hlabel (by cases manager <;> decide)).append hfront
  · have hdrop : (program :: (front ++ args)).drop (idx + 1) = args := by
      rw [← hlength, ← List.cons_append]
      exact List.drop_left
    rw [List.cons_append, analyzeTokens_of_label hlabel]
    simp only [analyzePackageManager, List.head?_cons, hlabel, if_true,
      hlocate, hexec,
      Bool.false_eq_true, if_false, hkey, hdrop, Option.some_or]

/-- The first word in front of a formatter is a runner. -/
theorem isRunner_of_runs {program : Text} {w : List Text}
    (h : Runs (program :: w)) :
    (commandBasename program = "npx".toList ∨
      commandBasename program = "bunx".toList) ∨
      ∃ second w', w = second :: w' ∧
        (commandBasename program = "pnpm".toList ∨
          commandBasename program = "yarn".toList) := by
  cases h with
  | one _ hbase => exact .inl hbase
  | two w' hbase => exact .inr ⟨_, w', rfl, hbase⟩

/-- A direct formatter that a package manager runs: the second word is fixed. -/
theorem exists_second_of_label {program : Text} {manager : PackageManager}
    {w : List Text}
    {a : Text} (hlabel : equalIgnoreCase program manager.label = true)
    (ha : equalIgnoreCase a manager.label = false) {args rest : List Text}
    (hsplit : program :: rest = w ++ a :: args) (hw : w = [] ∨ Runs w) :
    ∃ second w', w = program :: second :: w' ∧ ∀ rest' : List Text,
      locatePackageScript (program :: second :: rest') manager =
        some (1, second) := by
  have hbase : commandBasename program = manager.label.toList := by
    have hname :=
      commandBasename_of_equalIgnoreCase hlabel (by cases manager <;> decide)
    rw [hname]
    cases manager <;> rfl
  cases w with
  | nil =>
      obtain ⟨rfl, -⟩ := List.cons.inj hsplit
      rw [hlabel] at ha
      cases ha
  | cons x w =>
      obtain ⟨rfl, -⟩ := List.cons.inj hsplit
      rcases isRunner_of_runs (hw.resolve_left (List.cons_ne_nil _ _)) with
        hnpx | ⟨second, w', rfl, htwo⟩
      · rw [hbase] at hnpx
        exact absurd hnpx (by cases manager <;> decide)
      · refine ⟨second, w', rfl, fun rest' => ?_⟩
        cases manager with
        | npm =>
            rw [hbase] at htwo
            exact absurd htwo (by decide)
        | pnpm => rfl
        | yarn => rfl

/-- A direct formatter that no package manager, or one that only runs it, is
asked for. -/
theorem directRun_of_peel {w args : List Text} {a : Text} {f : DirectFormatter}
    (hpeel : peelExecWrappers (w ++ a :: args) = a :: args)
    (hfound : (directFormatters.find?
      fun g => g.base.toList = commandBasename a) = some f)
    (hanalyze : ∀ (b : Text) (rest : List Text), w ≠ [] ∨ b = a →
      analyzeTokens (w ++ b :: rest) =
        analyzeDirectFormatter (w ++ b :: rest)) :
    DirectRun w a f :=
  ⟨hfound, (peelExecWrappers_append hpeel (name_of_found hfound).2.1).2,
    hanalyze⟩

/-- A package manager is asked: the script is judged, or what it runs. -/
theorem exists_run_of_label {program : Text} {manager : PackageManager}
    {rest : List Text}
    {r : InternalAnalysis}
    (hlabel : equalIgnoreCase program manager.label = true)
    (h : analyzeTokens (program :: rest) = some r) :
    (∃ front args guarded dry, program :: rest = front ++ args ∧
      FrontRun r.key front guarded dry) ∨
    ∃ w a args f, program :: rest = w ++ a :: args ∧
      peelExecWrappers (program :: rest) = a :: args ∧ DirectRun w a f ∧
        f.judge (a :: args) = some r := by
  by_cases hscript : ∃ idx script key,
      locatePackageScript (program :: rest) manager = some (idx, script) ∧
        isExecScript script = false ∧ scriptKey manager script = some key
  · obtain ⟨idx, script, key, hlocate, hexec, hkey⟩ := hscript
    have hresult : r.key = key := by
      rw [analyzeTokens_of_label hlabel] at h
      simp only [analyzePackageManager, List.head?_cons, hlabel, if_true,
        hlocate, hexec,
        Bool.false_eq_true, if_false, hkey, Option.some_or] at h
      cases h
      rfl
    subst hresult
    rcases locatePackageScript_cases hlocate with
      ⟨args, rfl, rfl, hstable⟩ | ⟨rfl, second, args, rfl, rfl, hrun⟩
    · exact .inl ⟨[program, script], args, _, _, rfl,
        frontRun_of_script [script]
        hlabel (flagless_of_scriptKey hkey) rfl hstable hexec hkey⟩
    · refine .inl ⟨[program, second, script], args, _, _, rfl,
        frontRun_of_script
        [second, script] hlabel ((flagless_of_name hrun (by decide)).append
          (flagless_of_scriptKey hkey)) rfl (fun args' => ?_) hexec hkey⟩
      simp only [locatePackageScript, locateNpmScript, List.cons_append,
        List.getElem?_cons_succ, List.getElem?_cons_zero, hrun, if_true]
      rfl
  · -- the script is not judged, so the direct formatter is
    have hnone : ∀ (idx : ℕ) (script : Text) (rest' : List Text),
        locatePackageScript (program :: rest) manager = some (idx, script) →
        locatePackageScript (program :: rest') manager = some (idx, script) →
        analyzeTokens (program :: rest') =
          analyzeDirectFormatter (program :: rest') := by
      intro idx script rest' hlocate hlocate'
      rw [analyzeTokens_of_label hlabel]
      simp only [analyzePackageManager, List.head?_cons, hlabel,
        if_true, hlocate']
      cases hexec : isExecScript script with
      | true => exact Option.or_self
      | false =>
          cases hkey : scriptKey manager script with
          | none => rfl
          | some key =>
              exact absurd ⟨idx, script, key, hlocate, hexec, hkey⟩ hscript
    have hdirect : analyzeDirectFormatter (program :: rest) = some r := by
      cases hlocate : locatePackageScript (program :: rest) manager with
      | none =>
          rw [analyzeTokens_of_label hlabel] at h
          simpa only [analyzePackageManager, List.head?_cons, hlabel,
            if_true, hlocate,
            Option.none_or] using h
      | some found => rw [← hnone found.1 found.2 rest hlocate hlocate, h]
    obtain ⟨w, a, args, f, hsplit, hpeel, hfound, hjudge⟩ :=
      exists_of_analyzeDirectFormatter hdirect
    have hname := name_of_found hfound
    have hw := (peelExecWrappers_append (hsplit ▸ hpeel) hname.2.1).1
    obtain ⟨second, w', rfl, hlocate⟩ := exists_second_of_label hlabel
      (hname.2.2 manager.label (by cases manager <;> decide)) hsplit hw
    obtain ⟨-, rfl⟩ := List.cons.inj hsplit
    exact .inr ⟨program :: second :: w', a, args, f, rfl, hpeel,
      directRun_of_peel hpeel hfound
      fun b rest' _ => hnone 1 second _ (hlocate _) (hlocate _), hjudge⟩

/-- A command that is judged is so by the words behind a front, or by the words
of a direct formatter. -/
theorem exists_run {program : Text} {rest : List Text} {r : InternalAnalysis}
    (h : analyzeTokens (program :: rest) = some r) :
    (∃ front args guarded dry, program :: rest = front ++ args ∧
      FrontRun r.key front guarded dry) ∨
    ∃ w a args f, program :: rest = w ++ a :: args ∧
      peelExecWrappers (program :: rest) = a :: args ∧ DirectRun w a f ∧
        f.judge (a :: args) = some r := by
  cases hcargo : equalIgnoreCase program "cargo" with
  | true => exact .inl (exists_front_of_cargo hcargo h)
  | false =>
      cases hrustfmt : equalIgnoreCase program "rustfmt" with
      | true => exact .inl (exists_front_of_rustfmt hrustfmt h)
      | false =>
          by_cases hlabel : ∃ manager : PackageManager,
              equalIgnoreCase program manager.label = true
          · obtain ⟨manager, hmanager⟩ := hlabel
            exact exists_run_of_label hmanager h
          · have hother : ∀ rest' : List Text,
                analyzeTokens (program :: rest') =
                analyzeDirectFormatter (program :: rest') :=
              analyzeTokens_of_other hcargo hrustfmt fun manager =>
                Bool.eq_false_iff.2 fun heq => hlabel ⟨manager, heq⟩
            rw [hother] at h
            obtain ⟨w, a, args, f, hsplit, hpeel, hfound, hjudge⟩ :=
              exists_of_analyzeDirectFormatter h
            refine .inr ⟨w, a, args, f, hsplit, hpeel,
              directRun_of_peel (hsplit ▸ hpeel) hfound fun b rest' hb =>
                ?_, hjudge⟩
            cases w with
            | nil =>
                obtain ⟨rfl, -⟩ := List.cons.inj hsplit
                rw [hb.resolve_left fun hne => hne rfl]
                exact hother rest'
            | cons x w =>
                obtain ⟨rfl, -⟩ := List.cons.inj hsplit
                exact hother _

end CodeRs.DryRun
