import CodeRs.DryRun.Suggestions

/-!
# How the suggestion edits the command

Behind the front of a command, or behind the words that run a formatter, the
suggestion puts a dry-run flag in or replaces the mutating flag, unless it
takes one of the words that run the formatter for a flag.  What it gives is a
dry run again.
-/

namespace CodeRs.DryRun

/-! ## Edits -/

theorem isPlain_of_mem_dryRunWords {key : DryRunGuardKey} {new : List Text}
    (h : new ∈ dryRunWords key) : ∀ word ∈ new, IsPlain word := by
  revert new
  cases key with
  | packageLint manager => cases manager <;> decide
  | packageFormat manager => cases manager <;> decide
  | _ => decide

theorem mutatingFlag_of_mem_dryRunWords {key : DryRunGuardKey} {p : Text → Bool}
    {new : List Text} (hkey : mutatingFlag key = some p)
    (h : new ∈ dryRunWords key) :
    ∀ word ∈ new, p word = false := by
  revert new
  cases key <;> cases hkey <;> decide

theorem ne_nil_of_mem_dryRunWords {key : DryRunGuardKey} {new : List Text}
    (hkey : mutatingFlag key = none) (h : new ∈ dryRunWords key) :
    new ≠ [] := by
  revert new
  cases key with
  | packageLint manager => cases manager <;> decide
  | packageFormat manager => cases manager <;> decide
  | cargoClippyFix => cases hkey
  | prettierWrite => cases hkey
  | gofmt => cases hkey
  | _ => decide

theorem Edited.ne {key : DryRunGuardKey} {own own' : List Text}
    (h : Edited key own own') :
    own ≠ own' := by
  cases h with
  | @added pre new post hkey hnew =>
      intro heq
      rw [List.append_assoc, List.append_cancel_left_eq,
        List.self_eq_append_left] at heq
      exact ne_nil_of_mem_dryRunWords hkey hnew heq
  | @replaced pre new post flag p hkey hflag hnew =>
      intro heq
      rw [List.append_assoc, List.append_cancel_left_eq] at heq
      cases new with
      | nil =>
          have hlength := congrArg List.length heq
          simp at hlength
      | cons word rest =>
          obtain ⟨rfl, -⟩ := List.cons.inj heq
          have hword :=
            mutatingFlag_of_mem_dryRunWords hkey hnew flag List.mem_cons_self
          rw [hflag] at hword
          cases hword

theorem Edited.append_left {key : DryRunGuardKey} {own own' : List Text}
    (h : Edited key own own') (front : List Text) :
    Edited key (front ++ own) (front ++ own') := by
  cases h with
  | @added pre new post hkey hnew =>
      rw [← List.append_assoc, ← List.append_assoc, ← List.append_assoc]
      exact .added hkey hnew
  | @replaced pre new post flag p hkey hflag hnew =>
      rw [← List.append_assoc, ← List.append_assoc, ← List.append_assoc]
      exact .replaced hkey hflag hnew

/-- Behind some words the suggestion is an edit, and only what it leaves out
need not be plain. -/
structure EditsBehind (key : DryRunGuardKey) (front args args' : List Text) :
    Prop where
  suggest : suggestTokens key (front ++ args) = front ++ args'
  edited : Edited key args args'
  plain : (∀ word ∈ front ++ args', IsPlain word) ↔
    ∀ token ∈ keptTokens key (front ++ args), IsPlain token

theorem plain_append_iff {key : DryRunGuardKey} {new : List Text}
    (hnew : new ∈ dryRunWords key)
    (front pre post : List Text) :
    (∀ word ∈ front ++ (pre ++ new ++ post), IsPlain word) ↔
      ∀ word ∈ front ++ (pre ++ post), IsPlain word := by
  simp only [List.forall_mem_append]
  exact ⟨fun h => ⟨h.1, h.2.1.1, h.2.2⟩,
    fun h => ⟨h.1, ⟨h.2.1, isPlain_of_mem_dryRunWords hnew⟩, h.2.2⟩⟩

theorem editsBehind_of_added {key : DryRunGuardKey} {front new post : List Text}
    (pre : List Text) (hkey : mutatingFlag key = none)
    (hnew : new ∈ dryRunWords key)
    (hsuggest : suggestTokens key (front ++ (pre ++ post)) =
      front ++ (pre ++ new ++ post)) :
    EditsBehind key front (pre ++ post) (pre ++ new ++ post) := by
  refine ⟨hsuggest, .added hkey hnew, ?_⟩
  rw [plain_append_iff hnew]
  simp only [keptTokens, hkey]

theorem editsBehind_of_append {key : DryRunGuardKey}
    {front args new : List Text}
    (hkey : mutatingFlag key = none) (hnew : new ∈ dryRunWords key)
    (hsuggest : suggestTokens key (front ++ args) = front ++ args ++ new) :
    EditsBehind key front args (args ++ new) := by
  have h : EditsBehind key front (args ++ []) (args ++ new ++ []) :=
    editsBehind_of_added args hkey hnew (by simpa using hsuggest)
  rwa [List.append_nil, List.append_nil] at h

theorem editsBehind_of_replaced {key : DryRunGuardKey}
    {front pre new post : List Text}
    {flag : Text} {p : Text → Bool} (hkey : mutatingFlag key = some p)
    (hflag : p flag = true)
    (hnew : new ∈ dryRunWords key)
    (hsuggest : suggestTokens key (front ++ (pre ++ flag :: post)) =
      front ++ (pre ++ new ++ post))
    (herase : (front ++ (pre ++ flag :: post)).eraseP p =
      front ++ (pre ++ post)) :
    EditsBehind key front (pre ++ flag :: post) (pre ++ new ++ post) := by
  refine ⟨hsuggest, .replaced hkey hflag hnew, ?_⟩
  rw [plain_append_iff hnew]
  simp only [keptTokens, hkey, herase]

theorem EditsBehind.whole {key : DryRunGuardKey} {front args args' : List Text}
    (h : EditsBehind key front args args') :
    EditsBehind key [] (front ++ args) (front ++ args') :=
  ⟨h.suggest, h.edited.append_left front, h.plain⟩

/-! ## Behind a front -/

section Front

variable {key : DryRunGuardKey} {front args : List Text}
    {guarded dry : List Text → Bool}

theorem Flagless.ne_dashes (h : Flagless front) :
    ∀ token ∈ front, token ≠ dashes := by
  rintro token htoken rfl
  have hdashes := h dashes htoken "--" (by decide)
  revert hdashes
  decide

theorem Flagless.sliceContainsFlag (h : Flagless front) {flag : String}
    (hflag : flag ∈ frontFlags) (args : List Text) :
    sliceContainsFlag (front ++ args) flag = sliceContainsFlag args flag := by
  have hfront : DryRun.sliceContainsFlag front flag = false :=
    List.any_eq_false.2 fun token ht => by simp [h token ht flag hflag]
  rw [DryRun.sliceContainsFlag, List.any_append]
  rw [DryRun.sliceContainsFlag] at hfront
  rw [hfront, Bool.false_or]
  rfl

theorem containsOneOf_append (flags : List String) (words args : List Text) :
    containsOneOf flags (words ++ args) =
      (containsOneOf flags words || containsOneOf flags args) :=
  List.any_append

theorem containsOneOf_singleton (flag : String) (words : List Text) :
    containsOneOf [flag] words = sliceContainsFlag words flag := by
  simp only [containsOneOf, sliceContainsFlag, List.any_cons, List.any_nil,
    Bool.or_false]

theorem Flagless.containsOneOf (h : Flagless front) {flags : List String}
    (hflags : ∀ flag ∈ flags, flag ∈ frontFlags) : containsOneOf flags front =
    false :=
  List.any_eq_false.2 fun token ht =>
    Bool.not_eq_true _ ▸ List.any_eq_false.2 fun flag hf => by
      simp [h token ht flag (hflags flag hf)]

/-- The new words make a dry run. -/
theorem sliceContainsFlag_of_new {new : List Text} {flag : String}
    (h : sliceContainsFlag new flag = true) (pre post : List Text) :
    sliceContainsFlag (pre ++ new ++ post) flag = true := by
  rw [sliceContainsFlag] at h
  rw [sliceContainsFlag, List.any_append, List.any_append, h,
    Bool.or_true, Bool.true_or]

/-- Behind the front of a script the flag is put at the end, and is a dry
argument. -/
theorem editsBehind_of_script (key : DryRunGuardKey)
    {preferredFlag fallbackFlag : String}
    (hsuggest : suggestTokens key =
      suggestPackageScript preferredFlag fallbackFlag)
    (hkey : mutatingFlag key = none)
    (hnew : [dashes, preferredFlag.toList] ∈ dryRunWords key)
    (hfront : containsOneOf [preferredFlag, fallbackFlag] front = false)
    (hdry : args.any isDryArg = false)
    (hflags : ∀ flag ∈ [preferredFlag, fallbackFlag],
      flag ∈ ["--check", "--dry-run"])
    (hpreferred : isDryArg preferredFlag.toList = true) :
    EditsBehind key front args (args ++ [dashes, preferredFlag.toList]) ∧
      (args ++ [dashes, preferredFlag.toList]).any isDryArg = true := by
  have hargs : containsOneOf [preferredFlag, fallbackFlag] args = false := by
    refine List.any_eq_false.2 fun arg harg hany =>
      List.any_eq_false.1 hdry arg harg ?_
    obtain ⟨flag, hflag, heq⟩ := List.any_eq_true.1 hany
    simp only [List.mem_cons, List.not_mem_nil, or_false] at hflags
    rcases hflags flag (by simpa using hflag) with rfl | rfl <;>
      simp [isDryArg, heq]
  refine ⟨editsBehind_of_append hkey hnew ?_, ?_⟩
  · rw [hsuggest, suggestPackageScript, containsOneOf_append, hfront, hargs]
    rfl
  · rw [List.any_append, List.any_cons, List.any_cons, hpreferred,
      Bool.true_or, Bool.or_true,
      Bool.or_true]

/-- The first `--fix` is left out, and what stays is guarded if it has another
one. -/
theorem exists_edits_of_clippy (hflagless : Flagless front)
    (hguarded : sliceContainsFlag args "--fix" = true)
    (hdry : sliceContainsFlag args "--dry-run" = false) :
    ∃ args', EditsBehind .cargoClippyFix front args args' ∧
      ((sliceContainsFlag args' "--fix" = true →
        sliceContainsFlag args' "--dry-run" = true) ↔
        (DryRunGuardKey.cargoClippyFix = .cargoClippyFix →
          ((front ++ args).countP fun token => equalIgnoreCase token "--fix") ≤
            1)) := by
  obtain ⟨found, hmem, hfound⟩ := List.any_eq_true.1 hguarded
  obtain ⟨flag, pre, post, hpre, hflag, rfl, herase⟩ :=
    List.exists_of_eraseP (p := fun token => equalIgnoreCase token "--fix")
      hmem hfound
  have hfront : ∀ token ∈ front, ¬ equalIgnoreCase token "--fix" = true :=
    fun token ht => by
      rw [hflagless token ht "--fix" (by decide)]
      exact Bool.false_ne_true
  have herase' : (front ++ (pre ++ flag :: post)).eraseP
      (fun token => equalIgnoreCase token "--fix") =
      front ++ (pre ++ post) := by
    rw [List.eraseP_append_right _ hfront, herase]
  have hedits :
      EditsBehind .cargoClippyFix front (pre ++ flag :: post)
        (pre ++ [] ++ post) :=
    editsBehind_of_replaced rfl hflag List.mem_cons_self
      (herase'.trans (by rw [List.append_nil])) herase'
  rw [List.append_nil] at hedits
  refine ⟨pre ++ post, hedits, ?_⟩
  -- what is left is no dry run, so no other `--fix` may be left
  have hleft : sliceContainsFlag (pre ++ post) "--dry-run" = false := by
    simp only [sliceContainsFlag, List.any_append, List.any_cons,
      Bool.or_eq_false_iff]
      at hdry ⊢
    exact ⟨hdry.1, hdry.2.2⟩
  have hcount : (front ++ (pre ++ flag :: post)).countP
      (fun token => equalIgnoreCase token "--fix") =
        1 + post.countP fun token => equalIgnoreCase token "--fix" := by
    rw [List.countP_append, List.countP_append, List.countP_eq_zero.2 hfront,
      List.countP_eq_zero.2 hpre,
      List.countP_cons_of_pos
        (p := fun token => equalIgnoreCase token "--fix") hflag]
    omega
  have hguard : sliceContainsFlag (pre ++ post) "--fix" = true ↔
      0 < post.countP fun token => equalIgnoreCase token "--fix" := by
    rw [sliceContainsFlag, List.any_append, List.any_eq_false.2 hpre,
      Bool.false_or,
      List.any_eq_true, List.countP_pos_iff]
  simp only [hleft, hguard, hcount, Bool.false_eq_true, imp_false, true_imp_iff]
  omega

/-- Behind a front the suggestion is an edit, which is a dry run unless clippy
has another `--fix`. -/
theorem exists_edits_of_front (hrun : FrontRun key front guarded dry)
    (hguarded : guarded args = true) (hdry : dry args = false) :
    ∃ args', EditsBehind key front args args' ∧
      ((guarded args' = true → dry args' = true) ↔
        (key = .cargoClippyFix →
          ((front ++ args).countP fun token => equalIgnoreCase token "--fix") ≤
            1)) := by
  have hflagless := hrun.flagless
  cases hrun.judge with
  | cargoFmt =>
      obtain ⟨pre, new, post, rfl, hsuggest, hnew⟩ :=
        exists_suggestCargoFmt hdry
      refine ⟨pre ++ new ++ post, editsBehind_of_added pre rfl hnew ?_, ?_⟩
      · rw [← hsuggest]
        exact suggestCargoFmt_append hflagless.ne_dashes _
      · exact iff_of_true
          (fun _ => sliceContainsFlag_of_new ((by decide : ∀ new ∈
          dryRunWords .cargoFmt,
            sliceContainsFlag new "--check" = true) new hnew) pre post)
          (fun heq => nomatch heq)
  | cargoFix =>
      obtain ⟨pre, post, rfl, hinsert⟩ :=
        exists_insertAtFirst (· = dashes) "--dry-run".toList args
      refine ⟨pre ++ ["--dry-run".toList] ++ post,
        editsBehind_of_added pre rfl List.mem_cons_self ?_, ?_⟩
      · have hfront : ∀ token ∈ front, decide (token = dashes) = false :=
          fun token ht =>
            decide_eq_false (hflagless.ne_dashes token ht)
        simp only [suggestTokens, suggestCargoFix,
          hflagless.sliceContainsFlag (by decide : "--dry-run" ∈ frontFlags),
          hdry,
          Bool.false_eq_true, if_false, insertAtFirst_append hfront, hinsert]
      · exact iff_of_true
          (fun _ => sliceContainsFlag_of_new (by decide) pre post)
          (fun heq => nomatch heq)
  | rustfmt =>
      refine ⟨args ++ ["--check".toList],
        editsBehind_of_append rfl List.mem_cons_self ?_, ?_⟩
      · have hnone : containsOneOf ["--check"] (front ++ args) = false := by
          rw [containsOneOf_append, hflagless.containsOneOf (by decide),
            Bool.false_or,
            containsOneOf_singleton]
          exact hdry
        simp only [suggestTokens, suggestRustfmt, suggestAppendFlag, hnone,
          Bool.false_eq_true,
          if_false]
      · refine iff_of_true (fun _ => ?_) (fun heq => nomatch heq)
        have hnew : sliceContainsFlag ["--check".toList] "--check" = true := by
          decide
        simpa using sliceContainsFlag_of_new hnew args []
  | cargoClippyFix => exact exists_edits_of_clippy hflagless hguarded hdry
  | packageLint manager =>
      obtain ⟨hedits, hdry'⟩ :=
        editsBehind_of_script (.packageLint manager) rfl rfl
          List.mem_cons_self (hflagless.containsOneOf (by decide)) hdry (by
            decide) (by decide)
      exact ⟨_, hedits, iff_of_true (fun _ => hdry') fun heq => nomatch heq⟩
  | packageFormat manager =>
      obtain ⟨hedits, hdry'⟩ :=
        editsBehind_of_script (.packageFormat manager) rfl rfl
          List.mem_cons_self (hflagless.containsOneOf (by decide)) hdry (by
            decide) (by decide)
      exact ⟨_, hedits, iff_of_true (fun _ => hdry') fun heq => nomatch heq⟩

end Front

end CodeRs.DryRun

/-! ## Suggestions for direct formatters

A formatter may stand behind words that run it.  If the suggestion takes one of
them for a flag, it leaves the formatter's words as they are or changes a word
in front of them.  Otherwise it edits the formatter's own words. -/

namespace CodeRs.DryRun

/-! ## Words in front that are taken for a flag -/

section Lists

variable {p : Text → Bool} {flag : Text} {front : List Text}

theorem exists_first (h : ∃ token ∈ front, p token = true) :
    ∃ pre found post, front = pre ++ found :: post ∧ p found = true ∧
      ∀ token ∈ pre, p token = false := by
  obtain ⟨token, hmem, htoken⟩ := h
  obtain ⟨found, pre, post, hpre, hfound, rfl, -⟩ :=
    List.exists_of_eraseP hmem htoken
  exact ⟨pre, found, post, rfl, hfound,
    fun t ht => Bool.not_eq_true _ ▸ hpre t ht⟩

theorem insertAtFirst_append_ne (hflag : p flag = false)
    (h : ∃ token ∈ front, p token = true)
    (args words : List Text) :
    insertAtFirst p flag (front ++ args) ≠ front ++ words := by
  obtain ⟨pre, found, post, rfl, hfound, hpre⟩ := exists_first h
  intro heq
  rw [List.append_assoc, insertAtFirst_append hpre, List.append_assoc,
    List.append_cancel_left_eq, List.cons_append, insertAtFirst,
    if_pos hfound] at heq
  rw [(List.cons.inj heq).1, hfound] at hflag
  cases hflag

theorem replaceFirst_append_ne (hflag : p flag = false)
    (h : ∃ token ∈ front, p token = true)
    (args words : List Text) :
    replaceFirst p flag (front ++ args) ≠ front ++ words := by
  obtain ⟨pre, found, post, rfl, hfound, hpre⟩ := exists_first h
  intro heq
  rw [List.append_assoc, replaceFirst_append hpre, List.append_assoc,
    List.append_cancel_left_eq, List.cons_append, replaceFirst,
    if_pos hfound] at heq
  rw [(List.cons.inj heq).1, hfound] at hflag
  cases hflag

end Lists

theorem not_edited_of_unchanged {key : DryRunGuardKey} {w own words : List Text}
    (h : suggestTokens key (w ++ own) = w ++ own)
    (hwords : suggestTokens key (w ++ own) = w ++ words) :
    ¬ Edited key own words := by
  rw [h, List.append_cancel_left_eq] at hwords
  exact fun hedited => hedited.ne hwords

/-! ## Own words -/

/-- The suggestion edits the formatter's own words to a dry run, or gofmt's own
name where that is a flag, unless a word in front misleads it. -/
structure EditsOwn (f : DirectFormatter) (w : List Text) (a : Text)
    (args : List Text) :
    Prop where
  clear : (∀ token ∈ w, misleads f.key token = false) →
    ∃ b args', EditsBehind f.key w (a :: args) (b :: args') ∧
      (b = a ∧ f.isDry (a :: args') = true ∨
        b = "-d".toList ∧ startsWithChar '-' a = true)
  misled : (∃ token ∈ w, misleads f.key token = true) → ∀ words,
    suggestTokens f.key (w ++ a :: args) = w ++ words →
      ¬ Edited f.key (a :: args) words

section Own

variable {f : DirectFormatter} {w args : List Text} {a : Text}

theorem containsOneOf_word (flags : List String) (token : Text) :
    containsOneOf flags [token] = flags.any fun flag =>
      equalIgnoreCase token flag := by
  rw [containsOneOf, List.any_cons, List.any_nil, Bool.or_false]

/-- Where no word in front misleads, the suggestion finds neither a flag that
makes a dry run nor a word that it changes. -/
theorem front_of_clear {flags : List String} {p : Text → Bool}
    (hlooks : ∀ token,
      misleads f.key token = (containsOneOf flags [token] || p token))
    (hclear : ∀ token ∈ w, misleads f.key token = false) :
    containsOneOf flags w = false ∧ ∀ token ∈ w, p token = false := by
  have hboth : ∀ token ∈ w, containsOneOf flags [token] = false ∧
      p token = false := by
    intro token ht
    rw [← Bool.or_eq_false_iff, ← hlooks]
    exact hclear token ht
  refine ⟨List.any_eq_false.2 fun token ht => ?_,
    fun token ht => (hboth token ht).2⟩
  rw [← containsOneOf_word, (hboth token ht).1]
  exact Bool.false_ne_true

/-- Where a word in front misleads, the suggestion is the command itself, or a
word in front is changed. -/
theorem not_edited_of_misled {flags : List String} {p : Text → Bool}
    {own words : List Text}
    (hlooks : ∀ token,
      misleads f.key token = (containsOneOf flags [token] || p token))
    (hunchanged : containsOneOf flags w = true →
      suggestTokens f.key (w ++ own) = w ++ own)
    (hchanged : containsOneOf flags w = false → (∃ token ∈ w, p token = true) →
      suggestTokens f.key (w ++ own) ≠ w ++ words)
    (hmisled : ∃ token ∈ w, misleads f.key token = true)
    (hwords : suggestTokens f.key (w ++ own) = w ++ words) :
    ¬ Edited f.key own words := by
  cases hcontains : containsOneOf flags w with
  | true => exact not_edited_of_unchanged (hunchanged hcontains) hwords
  | false =>
      obtain ⟨token, ht, htoken⟩ := hmisled
      rw [hlooks, containsOneOf_word,
        Bool.eq_false_iff.2 (List.any_eq_false.1 hcontains token ht),
        Bool.false_or] at htoken
      exact absurd hwords (hchanged hcontains ⟨token, ht, htoken⟩)

theorem editsOwn_of_append (flag : String) (others : List String)
    (hsuggest : suggestTokens f.key = suggestAppendFlag flag others)
    (hkey : mutatingFlag f.key = none)
    (hnew : [flag.toList] ∈ dryRunWords f.key)
    (hmisleads : ∀ token,
      misleads f.key token = containsOneOf (flag :: others) [token])
    (hown : containsOneOf (flag :: others) (a :: args) = false)
    (hdry : f.isDry (a :: (args ++ [flag.toList])) = true) :
    EditsOwn f w a args := by
  have hlooks : ∀ token, misleads f.key token =
      (containsOneOf (flag :: others) [token] || false) := fun token => by
    rw [hmisleads, Bool.or_false]
  refine ⟨fun hclear => ⟨a, args ++ [flag.toList], ?_, .inl ⟨rfl, hdry⟩⟩,
    fun hmisled words hwords =>
      not_edited_of_misled hlooks (fun hcontains => ?_)
      (fun _ hnone => ?_) hmisled hwords⟩
  · refine editsBehind_of_append hkey hnew ?_
    rw [hsuggest, suggestAppendFlag, containsOneOf_append,
      (front_of_clear hlooks hclear).1, hown]
    rfl
  · rw [hsuggest, suggestAppendFlag, containsOneOf_append, hcontains]
    rfl
  · obtain ⟨_, _, hfalse⟩ := hnone
    cases hfalse

theorem exists_edits_of_replace {p : Text → Bool} {flag : Text}
    {own : List Text}
    (hkey : mutatingFlag f.key = some p) (hnew : [flag] ∈ dryRunWords f.key)
    (hsuggest : suggestTokens f.key (w ++ own) = replaceFirst p flag (w ++ own))
    (hclear : ∀ token ∈ w, p token = false) (hown : own.any p = true) :
    ∃ pre token post, own = pre ++ token :: post ∧ p token = true ∧
      EditsBehind f.key w own (pre ++ [flag] ++ post) := by
  obtain ⟨pre, token, post, rfl, htoken, hreplace, herase⟩ :=
    exists_replaceFirst flag hown
  refine ⟨pre, token, post, rfl, htoken,
    editsBehind_of_replaced hkey htoken hnew ?_ ?_⟩
  · rw [hsuggest, replaceFirst_append hclear, hreplace]
  · rw [List.eraseP_append_right _ fun t ht => by simp [hclear t ht], herase]

theorem containsOneOf_of_mem {flags : List String} (flag : String)
    {words : List Text}
    (hflag : flag ∈ flags) (hword : flag.toList ∈ words) :
    containsOneOf flags words = true :=
  List.any_eq_true.2 ⟨_, hword,
    List.any_eq_true.2 ⟨flag, hflag, decide_eq_true rfl⟩⟩

theorem equalIgnoreCase_of_base {flag : String}
    (hbase : f.base.toList = commandBasename a)
    (hne : f.base.toList ≠ Text.toAsciiLowercase flag.toList)
    (hname : IsName (Text.toAsciiLowercase flag.toList)) :
    equalIgnoreCase a flag = false :=
  equalIgnoreCase_eq_false (fun heq => hne (hbase.trans heq)) hname

theorem startsWithChar_of_isGofmtWriteFlag {token : Text}
    (h : isGofmtWriteFlag token = true) :
    startsWithChar '-' token = true := by
  rw [isGofmtWriteFlag, Bool.or_eq_true, decide_eq_true_eq, Text.startsWith,
    List.isPrefixOf_iff_prefix] at h
  rcases h with rfl | ⟨value, rfl⟩ <;> rfl

/-- The flag is put in front of the dashes. -/
theorem editsOwn_of_insert (hkey : f.key = .eslintFix) (ha : a ≠ dashes)
    (hisDry : f.isDry = containsOneOf ["--fix-dry-run", "--dry-run"])
    (hdry : f.isDry (a :: args) = false) : EditsOwn f w a args := by
  have hsuggest : suggestTokens f.key (w ++ a :: args) =
      if containsOneOf ["--fix-dry-run", "--dry-run"] w then w ++ a :: args
      else
        insertAtFirst (· = dashes) "--fix-dry-run".toList (w ++ a :: args) := by
    have hunchanged :
        containsOneOf ["--fix-dry-run", "--dry-run"] (w ++ a :: args) =
        containsOneOf ["--fix-dry-run", "--dry-run"] w := by
      rw [containsOneOf_append, ← hisDry, hdry, Bool.or_false]
    rw [hkey, ← hunchanged]
    rfl
  have hlooks : ∀ token, misleads f.key token =
      (containsOneOf ["--fix-dry-run", "--dry-run"] [token] ||
        decide (token = dashes)) := by
    intro token
    rw [hkey, containsOneOf_word]
    simp [misleads]
  refine ⟨fun hclear => ?_,
    fun hmisled words hwords => not_edited_of_misled hlooks
    (fun hcontains => by rw [hsuggest, if_pos hcontains])
    (fun hcontains hfound => ?_)
      hmisled hwords⟩
  · obtain ⟨hnone, hw⟩ := front_of_clear hlooks hclear
    obtain ⟨pre, post, rfl, hinsert⟩ :=
      exists_insertAtFirst (· = dashes) "--fix-dry-run".toList args
    refine ⟨a, pre ++ ["--fix-dry-run".toList] ++ post, ?_, .inl ⟨rfl, ?_⟩⟩
    · refine editsBehind_of_added (a :: pre) (hkey ▸ rfl) (hkey ▸
        List.mem_cons_self) ?_
      rw [List.cons_append, hsuggest, hnone, insertAtFirst_append hw]
      simp only [Bool.false_eq_true, if_false, insertAtFirst, ha,
        decide_false, hinsert]
      rfl
    · rw [hisDry]
      exact containsOneOf_of_mem "--fix-dry-run" List.mem_cons_self (by simp)
  · rw [hsuggest, hcontains]
    exact insertAtFirst_append_ne (by decide) hfound _ _

theorem editsOwn_of_replaceWrite (hkey : f.key = .prettierWrite)
    (ha : isWriteFlag a = false) (hguarded : (a :: args).any isWriteFlag = true)
    (hisDry : f.isDry =
      containsOneOf ["--check", "--list-different", "--dry-run"])
    (hdry : f.isDry (a :: args) = false) : EditsOwn f w a args := by
  have hown :
      containsOneOf ["--check", "--list-different"] (a :: args) = false := by
    refine List.any_eq_false.2 fun word hword hany => ?_
    rw [hisDry] at hdry
    refine List.any_eq_false.1 hdry word hword ?_
    obtain ⟨flag, hflag, heq⟩ := List.any_eq_true.1 hany
    exact List.any_eq_true.2 ⟨flag, by simp at hflag ⊢; tauto, heq⟩
  have hsuggest : suggestTokens f.key (w ++ a :: args) =
      if containsOneOf ["--check", "--list-different"] w then w ++ a :: args
      else replaceFirst isWriteFlag "--check".toList (w ++ a :: args) := by
    have hunchanged :
        containsOneOf ["--check", "--list-different"] (w ++ a :: args) =
        containsOneOf ["--check", "--list-different"] w := by
      rw [containsOneOf_append, hown, Bool.or_false]
    rw [hkey, ← hunchanged]
    rfl
  have hlooks : ∀ token, misleads f.key token =
      (containsOneOf ["--check", "--list-different"] [token] ||
        isWriteFlag token) := by
    intro token
    rw [hkey, containsOneOf_word]
    simp [misleads]
  refine ⟨fun hclear => ?_,
    fun hmisled words hwords => not_edited_of_misled hlooks
    (fun hcontains => by rw [hsuggest, if_pos hcontains])
    (fun hcontains hfound => ?_)
      hmisled hwords⟩
  · obtain ⟨hnone, hw⟩ := front_of_clear hlooks hclear
    have hreplace : suggestTokens f.key (w ++ a :: args) =
        replaceFirst isWriteFlag "--check".toList (w ++ a :: args) := by
      rw [hsuggest, hnone]
      rfl
    obtain ⟨pre, token, post, hsplit, htoken, hedits⟩ := exists_edits_of_replace
      (hkey ▸ rfl) (hkey ▸ List.mem_cons_self) hreplace hw hguarded
    cases pre with
    | nil =>
        obtain ⟨rfl, -⟩ := List.cons.inj hsplit
        rw [htoken] at ha
        cases ha
    | cons b pre =>
        obtain ⟨rfl, -⟩ := List.cons.inj hsplit
        refine ⟨a, pre ++ ["--check".toList] ++ post, hedits, .inl ⟨rfl, ?_⟩⟩
        rw [hisDry]
        exact containsOneOf_of_mem "--check" List.mem_cons_self (by simp)
  · rw [hsuggest, hcontains]
    exact replaceFirst_append_ne (by decide) hfound _ _

theorem editsOwn_of_replaceGofmt (hkey : f.key = .gofmt)
    (hguarded : (a :: args).any isGofmtWriteFlag = true)
    (hisDry : ∀ words : List Text, "-d".toList ∈ words → f.isDry words = true) :
    EditsOwn f w a args := by
  have hsuggest : suggestTokens f.key (w ++ a :: args) =
      replaceFirst isGofmtWriteFlag "-d".toList (w ++ a :: args) := by
    rw [hkey]
    rfl
  refine ⟨fun hclear => ?_, fun hmisled words hwords => ?_⟩
  · rw [hkey] at hclear
    obtain ⟨pre, token, post, hsplit, htoken, hedits⟩ := exists_edits_of_replace
      (hkey ▸ rfl) (hkey ▸ List.mem_cons_self) hsuggest hclear hguarded
    cases pre with
    | nil =>
        obtain ⟨rfl, -⟩ := List.cons.inj hsplit
        exact ⟨_, post, hedits,
          .inr ⟨rfl, startsWithChar_of_isGofmtWriteFlag htoken⟩⟩
    | cons b pre =>
        obtain ⟨rfl, -⟩ := List.cons.inj hsplit
        exact ⟨a, pre ++ ["-d".toList] ++ post, hedits,
          .inl ⟨rfl, hisDry _ (by simp)⟩⟩
  · rw [hsuggest] at hwords
    rw [hkey] at hmisled
    exact absurd hwords (replaceFirst_append_ne (by decide) hmisled _ _)

theorem editsOwn_of_mem (hf : f ∈ directFormatters)
    (hbase : f.base.toList = commandBasename a)
    (hguarded : f.isGuarded (a :: args) = true)
    (hdry : f.isDry (a :: args) = false) :
    EditsOwn f w a args := by
  have hmisleads : ∀ (flag : String) (token : Text),
      equalIgnoreCase token flag = containsOneOf [flag] [token] :=
    fun flag token => by
    rw [containsOneOf_word, List.any_cons, List.any_nil, Bool.or_false]
  simp only [directFormatters, List.mem_cons, List.not_mem_nil, or_false] at hf
  rcases hf with rfl | rfl | rfl | rfl | rfl | rfl | rfl | rfl | rfl
  · -- eslint
    refine editsOwn_of_insert rfl ?_ rfl hdry
    rintro rfl
    revert hbase
    decide
  · -- prettier
    refine editsOwn_of_replaceWrite rfl ?_ hguarded rfl hdry
    have hw : a ≠ "-w".toList := by
      rintro rfl
      revert hbase
      decide
    rw [isWriteFlag, equalIgnoreCase_of_base hbase (by decide) (by decide),
      decide_eq_false hw]
    rfl
  · exact editsOwn_of_append "--check" [] rfl rfl List.mem_cons_self
      (hmisleads _) hdry
      (containsOneOf_of_mem _ List.mem_cons_self (by simp))
  · -- ruff looks for the flag behind its own name
    have ha : equalIgnoreCase a "--check" = false :=
      equalIgnoreCase_of_base hbase (by decide) (by decide)
    refine editsOwn_of_append "--check" [] rfl rfl List.mem_cons_self
      (hmisleads _) ?_
      (containsOneOf_of_mem _ List.mem_cons_self (by simp))
    have hsplit := containsOneOf_append ["--check"] [a] args
    rw [← hmisleads, ha, Bool.false_or] at hsplit
    exact hsplit.trans hdry
  · exact editsOwn_of_append "--check-only" [] rfl rfl List.mem_cons_self
      (hmisleads _) hdry
      (containsOneOf_of_mem _ List.mem_cons_self (by simp))
  · exact editsOwn_of_replaceGofmt rfl hguarded fun words hmem =>
      List.any_eq_true.2 ⟨_, hmem, rfl⟩
  · exact editsOwn_of_append "--check" [] rfl rfl List.mem_cons_self
      (hmisleads _) hdry
      (containsOneOf_of_mem _ List.mem_cons_self (by simp))
  · exact editsOwn_of_append "--dry-run" [] rfl rfl List.mem_cons_self
      (hmisleads _) hdry
      (containsOneOf_of_mem _ List.mem_cons_self (by simp))
  · refine editsOwn_of_append "--lint" ["--dryrun"] rfl rfl List.mem_cons_self
      (fun token => ?_) hdry
      (containsOneOf_of_mem "--lint" List.mem_cons_self (by simp))
    simp only [containsOneOf_word, misleads, List.any_cons, List.any_nil,
      Bool.or_false]

end Own

end CodeRs.DryRun
