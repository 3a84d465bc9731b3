import CodeRs.ExecPolicy.ArgMatcher
import CodeRs.ExecPolicy.Resolution

/-!
# Every argument is accounted for

`ProgramSpec::check` accepts a call exactly if each of its arguments is an
allowed flag, an allowed option, the value of the option immediately before it,
or a positional argument that is matched in order with a pattern.
-/

namespace CodeRs.ExecPolicy

/-- The text of an option on a command line. -/
def IsOption (arg : Text) : Prop := arg.head? = some '-' ∧ arg ≠ "--".toList

/-- The text of a positional argument. -/
def IsPositional (arg : Text) : Prop := arg.head? ≠ some '-'

instance (arg : Text) : Decidable (IsOption arg) :=
  inferInstanceAs (Decidable (_ ∧ _))

instance (arg : Text) : Decidable (IsPositional arg) :=
  inferInstanceAs (Decidable (_ ≠ _))

/-- A division of the arguments from an index on into positional arguments,
flags, and options with their values.  Options and positional arguments are
told apart by their texts. -/
inductive Accounted (spec : ProgramSpec) (option positional : Text → Prop) :
    Nat → List Text → List PositionalArg → List MatchedFlag →
      List MatchedOpt → Prop
  | nil {index} : Accounted spec option positional index [] [] [] []
  | flag {index arg opt rest args flags opts} (htext : option arg)
      (hget : spec.allowedOptions.get arg =
        some opt) (hflag : opt.optMeta = .flag)
      (h : Accounted spec option positional (index + 1) rest args flags opts) :
      Accounted spec option positional index (arg :: rest) args
        (⟨arg⟩ :: flags) opts
  | opt {index arg value type opt rest args flags opts} (htext : option arg)
      (hget : spec.allowedOptions.get arg =
        some opt) (hvalue : opt.optMeta = .value type)
      (hdash : value.head? ≠ some '-') (haccepts : type.Accepts value)
      (h : Accounted spec option positional (index + 2) rest args flags opts) :
      Accounted spec option positional index (arg :: value :: rest) args flags
        (⟨arg, value, type⟩ :: opts)
  | positional {index arg rest args flags opts} (htext : positional arg)
      (h : Accounted spec option positional (index + 1) rest args flags opts) :
      Accounted spec option positional index (arg :: rest)
        (⟨index, arg⟩ :: args) flags opts

/-! ## The scanner -/

/-- What has been found, with no option left without its value. -/
def ScanState.extend (s : ScanState) (args : List PositionalArg)
    (flags : List MatchedFlag)
    (opts : List MatchedOpt) : ScanState :=
  ⟨none, s.args ++ args, s.matchedFlags ++ flags, s.matchedOpts ++ opts⟩

theorem ScanState.extend_extend (s : ScanState)
    (args args' : List PositionalArg)
    (flags flags' : List MatchedFlag) (opts opts' : List MatchedOpt) :
    (s.extend args flags opts).extend args' flags' opts' =
      s.extend (args ++ args') (flags ++ flags') (opts ++ opts') := by
  simp [ScanState.extend]

theorem newOpt_eq_ok {name value : Text} {type : ArgType}
    {matched : MatchedOpt} :
    MatchedOpt.new name value type = .ok matched ↔
      type.Accepts value ∧ matched = ⟨name, value, type⟩ := by
  rw [MatchedOpt.new, bind_eq_ok]
  constructor
  · rintro ⟨⟨⟩, haccepts, ⟨⟩⟩
    exact ⟨haccepts, rfl⟩
  · rintro ⟨haccepts, rfl⟩
    exact ⟨(), haccepts, rfl⟩

namespace ProgramSpec

variable {spec : ProgramSpec} {s s' : ScanState} {index : Nat} {arg : Text}

theorem scanArg_value {name : Text} {type : ArgType}
    (hpending : s.expectingOptionValue = some (name, type)) :
    spec.scanArg s index arg = .ok s' ↔
      arg.head? ≠ some '-' ∧ type.Accepts arg ∧
        s' = s.extend [] [] [⟨name, arg, type⟩] := by
  simp only [scanArg, hpending, ite_fail_eq_ok, bind_eq_ok, newOpt_eq_ok]
  constructor
  · rintro ⟨hdash, _, ⟨haccepts, rfl⟩, ⟨⟩⟩
    exact ⟨hdash, haccepts, by simp [ScanState.extend]⟩
  · rintro ⟨hdash, haccepts, rfl⟩
    exact ⟨hdash, _, ⟨haccepts, rfl⟩, by simp [ScanState.extend]; rfl⟩

theorem scanArg_idle (hidle : s.expectingOptionValue = none) :
    spec.scanArg s index arg = .ok s' ↔
      (∃ opt, IsOption arg ∧ spec.allowedOptions.get arg = some opt ∧
        opt.optMeta = .flag ∧
        s' = s.extend [] [⟨arg⟩] []) ∨
      (∃ opt type, IsOption arg ∧ spec.allowedOptions.get arg = some opt ∧
        opt.optMeta = .value type ∧
          s' = { s with expectingOptionValue := some (arg, type) }) ∨
      (IsPositional arg ∧ s' = s.extend [⟨index, arg⟩] [] []) := by
  constructor
  · intro h
    simp only [scanArg, hidle, ite_fail_eq_ok] at h
    obtain ⟨hdouble, h⟩ := h
    by_cases hdash : arg.head? = some '-'
    · rw [if_pos hdash] at h
      cases hget : spec.allowedOptions.get arg with
      | none =>
          simp only [hget] at h
          cases h
      | some opt =>
          cases hmeta : opt.optMeta with
          | flag =>
              simp only [hget, hmeta, Except.ok.injEq] at h
              subst h
              exact .inl ⟨opt, ⟨hdash, hdouble⟩, rfl, hmeta,
                by simp [ScanState.extend]⟩
          | value type =>
              simp only [hget, hmeta, Except.ok.injEq] at h
              exact .inr (.inl ⟨opt, type, ⟨hdash, hdouble⟩, rfl,
                hmeta, h.symm⟩)
    · rw [if_neg hdash, Except.ok.injEq] at h
      subst h
      exact .inr (.inr ⟨hdash, by simp [ScanState.extend]⟩)
  · rintro (⟨opt, ⟨hdash, hdouble⟩, hget, hflag, rfl⟩ |
      ⟨opt, type, ⟨hdash, hdouble⟩, hget, hvalue, rfl⟩ | ⟨hdash, rfl⟩)
    · simp only [scanArg, hidle, if_neg hdouble, if_pos hdash, hget, hflag]
      simp [ScanState.extend]
    · simp only [scanArg, hidle, if_neg hdouble, if_pos hdash, hget, hvalue]
    · have hdouble : arg ≠ "--".toList := by
        rintro rfl
        exact hdash rfl
      simp only [scanArg, hidle, if_neg hdouble,
        if_neg (show ¬ arg.head? = some '-' from hdash)]
      simp [ScanState.extend]

/-- The arguments from an index on are accounted for, the first one as the
value of the option that waits for one. -/
def Awaited (spec : ProgramSpec) (index : Nat) (args : List Text)
    (positional : List PositionalArg) (flags : List MatchedFlag)
    (opts : List MatchedOpt) :
    Option (Text × ArgType) → Prop
  | none =>
  Accounted spec IsOption IsPositional index args positional flags opts
  | some (name, type) => ∃ value rest others, args = value :: rest ∧
      value.head? ≠ some '-' ∧ type.Accepts value ∧
      opts = ⟨name, value, type⟩ :: others ∧
        Accounted spec IsOption IsPositional (index + 1) rest
          positional flags others

/-- The arguments from an index on are accounted for, and a state has what they
yield added. -/
def Finds (spec : ProgramSpec) (s : ScanState) (index : Nat) (args : List Text)
    (s' : ScanState) : Prop :=
  ∃ positional flags opts,
    spec.Awaited index args positional flags opts s.expectingOptionValue ∧
      s' = s.extend positional flags opts

theorem finds_nil :
    spec.Finds s index [] s' ↔ s = s' ∧ s'.expectingOptionValue = none := by
  cases hpending : s.expectingOptionValue with
  | none =>
      constructor
      · rintro ⟨_, _, _, haccounted, rfl⟩
        rw [hpending] at haccounted
        cases haccounted
        exact ⟨by simp [ScanState.extend, ← hpending], rfl⟩
      · rintro ⟨rfl, -⟩
        refine ⟨[], [], [], ?_, by simp [ScanState.extend, ← hpending]⟩
        rw [hpending]
        exact .nil
  | some pending =>
      constructor
      · rintro ⟨_, _, _, hawaited, -⟩
        rw [hpending] at hawaited
        obtain ⟨_, _, _, hnil, -⟩ := hawaited
        cases hnil
      · rintro ⟨rfl, hidle⟩
        rw [hidle] at hpending
        cases hpending

/-- The first argument is the value of an option that waits for one. -/
theorem finds_cons_value {rest : List Text} {name : Text} {type : ArgType}
    (hpending : s.expectingOptionValue = some (name, type)) :
    spec.Finds s index (arg :: rest) s' ↔
      arg.head? ≠ some '-' ∧ type.Accepts arg ∧
        spec.Finds (s.extend [] [] [⟨name, arg, type⟩])
          (index + 1) rest s' := by
  constructor
  · rintro ⟨positional, flags, _, hawaited, rfl⟩
    rw [hpending] at hawaited
    obtain ⟨_, _, opts, hcons, hdash, haccepts, rfl, haccounted⟩ := hawaited
    cases hcons
    exact ⟨hdash, haccepts, positional, flags, opts, haccounted,
      by rw [ScanState.extend_extend]; rfl⟩
  · rintro ⟨hdash, haccepts, positional, flags, opts, haccounted, rfl⟩
    refine ⟨positional, flags, ⟨name, arg, type⟩ :: opts, ?_,
      by rw [ScanState.extend_extend]; rfl⟩
    rw [hpending]
    exact ⟨_, _, _, rfl, hdash, haccepts, rfl, haccounted⟩

/-- The first argument where no option waits for a value. -/
theorem finds_cons_idle {rest : List Text}
    (hidle : s.expectingOptionValue = none) :
    spec.Finds s index (arg :: rest) s' ↔
      ∃ mid, spec.scanArg s index arg = .ok mid ∧
        spec.Finds mid (index + 1) rest s' := by
  constructor
  · rintro ⟨positional, flags, opts, haccounted, rfl⟩
    rw [hidle] at haccounted
    cases haccounted with
    | flag htext hget hflag h =>
        refine ⟨_,
          (scanArg_idle hidle).2 (.inl ⟨_, htext, hget, hflag, rfl⟩), ?_⟩
        exact ⟨_, _, _, h, by rw [ScanState.extend_extend]; rfl⟩
    | opt htext hget hvalue hdash haccepts h =>
        refine ⟨_,
          (scanArg_idle hidle).2 (.inr (.inl ⟨_, _, htext, hget, hvalue, rfl⟩)),
          ?_⟩
        exact ⟨_, _, _, ⟨_, _, _, rfl, hdash, haccepts, rfl, h⟩, rfl⟩
    | positional htext h =>
        refine ⟨_, (scanArg_idle hidle).2 (.inr (.inr ⟨htext, rfl⟩)), ?_⟩
        exact ⟨_, _, _, h, by rw [ScanState.extend_extend]; rfl⟩
  · rintro ⟨mid, hmid, positional, flags, opts, haccounted, rfl⟩
    rcases (scanArg_idle hidle).1 hmid with
      ⟨opt, htext, hget, hflag, rfl⟩ | ⟨opt, type, htext, hget, hvalue,
        rfl⟩ | ⟨htext, rfl⟩
    · refine ⟨positional, ⟨arg⟩ :: flags, opts, ?_,
        by rw [ScanState.extend_extend]; rfl⟩
      rw [hidle]
      exact .flag htext hget hflag haccounted
    · obtain ⟨value, others, later, rfl, hdash, haccepts, rfl, haccounted⟩ :=
        haccounted
      refine ⟨positional, flags, ⟨arg, value, type⟩ :: later, ?_, rfl⟩
      rw [hidle]
      exact .opt htext hget hvalue hdash haccepts haccounted
    · refine ⟨⟨index, arg⟩ :: positional, flags, opts, ?_,
        by rw [ScanState.extend_extend]; rfl⟩
      rw [hidle]
      exact .positional htext haccounted

theorem scanFrom_eq_ok {args : List Text} :
    (spec.scanFrom s index args = .ok s' ∧ s'.expectingOptionValue = none) ↔
      spec.Finds s index args s' := by
  induction args generalizing s index with
  | nil => rw [scanFrom, Except.ok.injEq, finds_nil]
  | cons arg rest ih =>
      have hscan : (spec.scanFrom s index (arg :: rest) = .ok s' ∧
          s'.expectingOptionValue = none) ↔
            ∃ mid, spec.scanArg s index arg = .ok mid ∧
              spec.Finds mid (index + 1) rest s' := by
        simp only [scanFrom, bind_eq_ok, ← ih, ← exists_and_right, and_assoc]
      rw [hscan]
      cases hpending : s.expectingOptionValue with
      | none => exact (finds_cons_idle hpending).symm
      | some pending =>
          simp only [scanArg_value hpending,
            finds_cons_value hpending, and_assoc,
            exists_and_left, exists_eq_left]

/-! ## No panics -/

theorem scanArg_ne_panic (spec : ProgramSpec) (s : ScanState) (index : Nat)
    (arg : Text) :
    spec.scanArg s index arg ≠ .error .panic := by
  rw [scanArg]
  split
  next name type _ =>
    split
    next => exact fail_ne_panic _
    next =>
      refine bind_ne_error (bind_ne_error (validate_ne_panic type arg) ?_) ?_
      · exact fun _ _ h => (by cases h)
      · exact fun _ _ h => (by cases h)
  next =>
    split
    next => exact fail_ne_panic _
    next =>
      split
      next =>
        split
        next =>
          split
          next => exact fun h => (by cases h)
          next => exact fun h => (by cases h)
        next => exact fail_ne_panic _
      next => exact fun h => (by cases h)

theorem scanFrom_ne_panic (spec : ProgramSpec) (s : ScanState) (index : Nat)
    (args : List Text) : spec.scanFrom s index args ≠ .error .panic := by
  induction args generalizing s index with
  | nil => exact fun h => (by cases h)
  | cons arg rest ih =>
      exact bind_ne_error (scanArg_ne_panic spec s index arg) fun _ _ => ih _ _

theorem check_ne_panic (spec : ProgramSpec) (execCall : ExecCall) :
    spec.check execCall ≠ .error .panic := by
  refine bind_ne_error (scanFrom_ne_panic spec {} 0 execCall.args) fun s _ => ?_
  split
  next => exact fail_ne_panic _
  next =>
    refine bind_ne_error (resolve_ne_panic _ _ _) fun _ _ => ?_
    split
    next => exact fun h => (by cases h)
    next => exact fail_ne_panic _

/-! ## The check -/

/-- A call that is accounted for: its arguments are divided, the positional
ones are matched in order, and every required option has a value. -/
def AccountsFor (spec : ProgramSpec) (option positional : Text → Prop)
    (execCall : ExecCall)
    (flags : List MatchedFlag) (opts : List MatchedOpt)
    (args : List MatchedArg) : Prop :=
  ∃ observed,
    Accounted spec option positional 0 execCall.args observed flags opts ∧
    InOrder spec.argPatterns observed args ∧
      ∀ name ∈ spec.requiredOptions, name ∈ opts.map (·.name)

/-- The check never panics, and it accepts exactly the calls that are accounted
for. -/
theorem check_accounts (spec : ProgramSpec) (execCall : ExecCall) :
    spec.check execCall ≠ .error .panic ∧
      ∀ exec, spec.check execCall = .ok exec ↔
        AtMostOneVararg spec.argPatterns ∧
          ∃ flags opts args,
            spec.AccountsFor IsOption IsPositional execCall flags opts args ∧
              exec = spec.verdict flags opts args := by
  refine ⟨check_ne_panic spec execCall, fun exec => ?_⟩
  rw [check, bind_eq_ok]
  constructor
  · rintro ⟨s, hscan, h⟩
    cases hpending : s.expectingOptionValue with
    | some pending =>
        simp only [hpending] at h
        cases h
    | none =>
        simp only [hpending, bind_eq_ok, resolve_eq_ok] at h
        obtain ⟨args, ⟨hvararg, horder⟩, h⟩ := h
        obtain ⟨observed, flags, opts, haccounted, rfl⟩ :=
          (scanFrom_eq_ok (s := {})).1 ⟨hscan, hpending⟩
        split at h
        next hrequired =>
          cases h
          refine ⟨hvararg, flags, opts, args,
            ⟨observed, haccounted, horder, ?_⟩, rfl⟩
          intro name hname
          exact of_decide_eq_true (List.all_eq_true.1 hrequired name hname)
        next => cases h
  · rintro ⟨hvararg, flags, opts, args,
      ⟨observed, haccounted, horder, hrequired⟩, rfl⟩
    obtain ⟨hscan, -⟩ :=
      (scanFrom_eq_ok (s := {})).2 ⟨observed, flags, opts, haccounted, rfl⟩
    refine ⟨_, hscan,
      bind_eq_ok.2 ⟨args, resolve_eq_ok.2 ⟨hvararg, horder⟩, ?_⟩⟩
    exact if_pos (List.all_eq_true.2
      fun name hname => decide_eq_true (hrequired name hname))

/-! ## Dashes and required flags -/

/-- A call whose arguments can be divided whatever their texts are, where a
required option is present also as a flag. -/
def Divides (spec : ProgramSpec) (execCall : ExecCall) : Prop :=
  ∃ observed flags opts args,
    Accounted spec (fun _ => True) (fun _ => True) 0 execCall.args
      observed flags opts ∧
      InOrder spec.argPatterns observed args ∧
        ∀ name ∈ spec.requiredOptions, name ∈ flags.map (·.name) ∨
        name ∈ opts.map (·.name)

/-- A program with flags and patterns. -/
def plainSpec (options : List (Text × Opt)) (hnodup : (options.map (·.1)).Nodup)
    (argPatterns : List ArgMatcher) : ProgramSpec :=
  ⟨"p".toList, [], ⟨options, hnodup⟩, argPatterns, none⟩

/-- A program with one argument. -/
def operandSpec : ProgramSpec := plainSpec [] List.nodup_nil [.opaqueNonFile]

def flagSpec (name : Text) (required : Bool) : ProgramSpec :=
  plainSpec [(name, ⟨name, .flag, required⟩)]
    (List.pairwise_singleton _ name) []

theorem divides_flag (name : Text) (required : Bool) :
    (flagSpec name required).Divides ⟨"p".toList, [name]⟩ := by
  have hget : (flagSpec name required).allowedOptions.get name =
      some ⟨name, .flag, required⟩ := by
    simp [flagSpec, plainSpec, OptMap.get]
  refine ⟨[], [⟨name⟩], [], [], .flag trivial hget rfl .nil, .nil, ?_⟩
  intro found hfound
  left
  cases required <;> simp_all [requiredOptions, flagSpec, plainSpec]

/-- Calls that can be divided and are refused: an argument that starts with a
dash, the flag `--`, a flag without a dash, and a required flag. -/
theorem dash_not_accepted :
    (operandSpec.Divides ⟨"p".toList, ["-x".toList]⟩ ∧
      ∀ exec, operandSpec.check ⟨"p".toList, ["-x".toList]⟩ ≠ .ok exec) ∧
    ∀ flag ∈ [("--".toList, false), ("v".toList, false), ("-f".toList, true)],
      (flagSpec flag.1 flag.2).Divides ⟨"p".toList, [flag.1]⟩ ∧
        ∀ exec, (flagSpec flag.1 flag.2).check ⟨"p".toList, [flag.1]⟩ ≠
          .ok exec := by
  refine ⟨⟨⟨[⟨0, "-x".toList⟩], [], [], [⟨0, .opaqueNonFile, "-x".toList⟩],
    .positional trivial .nil, .exact rfl rfl .nil, fun _ h => (by cases h)⟩,
    fun _ h => (by cases h)⟩, ?_⟩
  simp only [List.forall_mem_cons]
  exact ⟨⟨divides_flag _ _, fun _ h => (by cases h)⟩,
    ⟨divides_flag _ _, fun _ h => (by cases h)⟩,
    ⟨divides_flag _ _, fun _ h => (by cases h)⟩, fun _ h => (by cases h)⟩

end ProgramSpec

end CodeRs.ExecPolicy
