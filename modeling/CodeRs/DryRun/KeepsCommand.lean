import CodeRs.DryRun.Edits

/-!
# When a suggestion keeps the command

The suggestion for a formatter that changes files is the command with its
dry-run flag if nothing that stays needs quoting, the words that run the
formatter are not taken for flags, and clippy has no second `--fix`.
-/

namespace CodeRs.DryRun

/-! ## Commands that are analysed -/

/-- The first word that is kept sets no variable and wraps nothing. -/
theorem stripWrappersFrom_head {behindWrapper : Bool} {tokens rest : List Text}
    {token : Text}
    (h : stripWrappersFrom behindWrapper tokens = token :: rest) :
    isEnvAssignment token = false ∧ isWrapper token = false := by
  induction tokens generalizing behindWrapper with
  | nil => cases h
  | cons first others ih =>
      rw [stripWrappersFrom] at h
      split at h
      next => exact ih h
      next =>
        split at h
        next => exact ih h
        next henv =>
          split at h
          next => exact ih h
          next hwrapper =>
            obtain ⟨rfl, -⟩ := List.cons.inj h
            exact ⟨Bool.eq_false_iff.2 henv, Bool.eq_false_iff.2 hwrapper⟩

theorem analyzeWords_cons {token : Text} (henv : isEnvAssignment token = false)
    (hwrapper : isWrapper token = false) (rest : List Text) :
    analyzeWords (token :: rest) = (analyzeTokens (token :: rest)).map
      fun analysis =>
      { key := analysis.key
        disposition := analysis.disposition
        tokens := token :: rest
        displayName := analysis.displayName
        customSuggestedDryRun := analysis.suggestedDryRun } := by
  have hstrip : stripWrappers (token :: rest) = token :: rest := by
    simp only [stripWrappers, stripWrappersFrom, henv, hwrapper, Bool.false_and,
      Bool.false_eq_true, if_false]
  rw [analyzeWords, hstrip]

theorem exists_of_analyzeCommand {first : List Text → Option (List Text)}
    {command : List Text} {a : DryRunAnalysis}
    (h : analyzeCommand first command = some a) :
    ∃ program rest r, isEnvAssignment program = false ∧
      isWrapper program = false ∧
      analyzeTokens (program :: rest) = some r ∧
      a = { key := r.key
            disposition := r.disposition
            tokens := program :: rest
            displayName := r.displayName
            customSuggestedDryRun := r.suggestedDryRun } := by
  obtain ⟨tokens, -, hwords⟩ := Option.bind_eq_some_iff.1 h
  rw [analyzeWords] at hwords
  split at hwords
  next => cases hwords
  next program rest hstrip =>
    obtain ⟨henv, hwrapper⟩ := stripWrappersFrom_head hstrip
    obtain ⟨r, hr, rfl⟩ := Option.map_eq_some_iff.1 hwords
    exact ⟨program, rest, r, henv, hwrapper, hr, rfl⟩

theorem FrontRun.eq_judged {key : DryRunGuardKey} {front args : List Text}
    {guarded dry : List Text → Bool} {r : InternalAnalysis}
    (hrun : FrontRun key front guarded dry)
    (h : analyzeTokens (front ++ args) = some r) :
    guarded args = true ∧ ∃ name, r = judged key (dry args) name := by
  obtain ⟨name, hanalyze⟩ := hrun.analyze
  rw [hanalyze] at h
  split at h
  next hguarded => exact ⟨hguarded, name, (Option.some.inj h).symm⟩
  next => cases h

theorem DirectFormatter.eq_judged {f : DirectFormatter} {actual : List Text}
    {r : InternalAnalysis} (h : f.judge actual = some r) :
    f.isGuarded actual = true ∧
      r = judged f.key (f.isDry actual) f.displayName.toList := by
  rw [DirectFormatter.judge] at h
  split at h
  next hguarded => exact ⟨hguarded, (Option.some.inj h).symm⟩
  next => cases h

theorem disposition_judged_iff {key : DryRunGuardKey} {isDry : Bool}
    {name : Text} :
    (judged key isDry name).disposition = .dryRun ↔ isDry = true := by
  cases isDry <;> simp [judged]

/-! ## Analysing the suggestion again -/

theorem onlyDryRun_cons_iff {key : DryRunGuardKey} {token : Text}
    (henv : isEnvAssignment token = false) (hwrapper : isWrapper token = false)
    (rest : List Text) :
    OnlyDryRun key (token :: rest) ↔
      ∀ r, analyzeTokens (token :: rest) = some r →
        r.key = key ∧ r.disposition = .dryRun := by
  rw [OnlyDryRun, analyzeWords_cons henv hwrapper]
  constructor
  · exact fun h r hr => h _ (Option.map_eq_some_iff.2 ⟨r, hr, rfl⟩)
  · intro h other hother
    obtain ⟨r, hr, rfl⟩ := Option.map_eq_some_iff.1 hother
    exact h r hr

/-- An edited suggestion is read again if what stays is plain. -/
theorem keepsCommand_iff_of_edits {split : Text → Option (List Text)}
    (hsplit : SplitsPlainWords split) {a : DryRunAnalysis}
    {w own own' : List Text}
    (hcustom : a.customSuggestedDryRun = none) (htokens : a.tokens = w ++ own)
    (hown : analyzedWords a.key a.tokens = own)
    (hedits : EditsBehind a.key w own own') :
    KeepsCommand split a ↔
      (∀ token ∈ keptTokens a.key a.tokens, IsPlain token) ∧
      OnlyDryRun a.key (w ++ own') := by
  have hsuggest : suggestTokens a.key a.tokens = w ++ own' := by
    rw [htokens, hedits.suggest]
  have htext : a.suggestedDryRun = some (joinWords (w ++ own')) := by
    rw [DryRunAnalysis.suggestedDryRun, hcustom, ← hsuggest]
  have hfront : wordsInFront a.key a.tokens = w := by
    rw [wordsInFront, hown, htokens, List.length_append, Nat.add_sub_cancel]
    exact List.take_left
  have hplain := hedits.plain
  rw [← htokens] at hplain
  rw [← hplain, ← hsplit]
  constructor
  · rintro ⟨⟨text, hsome, hread⟩, -, hagain⟩
    rw [htext] at hsome
    obtain rfl := Option.some.inj hsome
    rw [hsuggest] at hread hagain
    exact ⟨hread, hagain⟩
  · rintro ⟨hread, hagain⟩
    refine ⟨⟨_, htext, hsuggest ▸ hread⟩, ⟨own', by rw [hsuggest, hfront], ?_⟩,
      hsuggest ▸ hagain⟩
    rw [hown]
    exact hedits.edited

/-! ## Commands judged behind a front -/

/-- Behind a front, the words decide. -/
theorem onlyDryRun_front_iff {key : DryRunGuardKey} {front : List Text}
    {guarded dry : List Text → Bool} (hrun : FrontRun key front guarded dry)
    {program : Text}
    (hprogram : front.head? = some program)
    (henv : isEnvAssignment program = false)
    (hwrapper : isWrapper program = false) (args : List Text) :
    OnlyDryRun key (front ++ args) ↔
      (guarded args = true → dry args = true) := by
  obtain ⟨others, rfl⟩ := List.head?_eq_some_iff.1 hprogram
  rw [List.cons_append, onlyDryRun_cons_iff henv hwrapper, ← List.cons_append]
  constructor
  · intro h hguarded
    obtain ⟨name, hanalyze⟩ := hrun.analyze
    have hr := (h _ ((hanalyze args).trans (if_pos hguarded))).2
    exact disposition_judged_iff.1 hr
  · intro h r hr
    obtain ⟨hguarded, name, rfl⟩ := hrun.eq_judged hr
    exact ⟨rfl, disposition_judged_iff.2 (h hguarded)⟩

theorem Judge.analyzedWords {key : DryRunGuardKey}
    {guarded dry : List Text → Bool}
    (h : Judge key guarded dry) (tokens : List Text) :
    analyzedWords key tokens = tokens := by
  cases h <;> rfl

theorem keepsCommand_iff_of_front {split : Text → Option (List Text)}
    (hsplit : SplitsPlainWords split) {a : DryRunAnalysis} {program : Text}
    {front args : List Text} {guarded dry : List Text → Bool}
    (hrun : FrontRun a.key front guarded dry)
    (hprogram : front.head? = some program)
    (henv : isEnvAssignment program = false)
    (hwrapper : isWrapper program = false)
    (hcustom : a.customSuggestedDryRun = none)
    (htokens : a.tokens = front ++ args)
    (hguarded : guarded args = true) (hdry : dry args = false) :
    KeepsCommand split a ↔ NeedsNoCare a := by
  obtain ⟨args', hedits, honce⟩ := exists_edits_of_front hrun hguarded hdry
  have hwords := hrun.judge.analyzedWords a.tokens
  rw [keepsCommand_iff_of_edits hsplit (w := []) hcustom htokens
    (hwords.trans htokens)
    hedits.whole, List.nil_append,
      onlyDryRun_front_iff hrun hprogram henv hwrapper, honce,
    ← htokens]
  constructor
  · rintro ⟨hplain, honce⟩
    refine ⟨hplain, fun token ht => ?_, honce⟩
    rw [wordsInFront, hwords, Nat.sub_self] at ht
    cases ht
  · exact fun h => ⟨h.plain, h.once⟩

/-! ## Direct formatters -/

theorem analyzedWords_of_mem {f : DirectFormatter} (hf : f ∈ directFormatters)
    (tokens : List Text) :
    analyzedWords f.key tokens = peelExecWrappers tokens := by
  simp only [directFormatters, List.mem_cons, List.not_mem_nil, or_false] at hf
  rcases hf with rfl | rfl | rfl | rfl | rfl | rfl | rfl | rfl | rfl <;> rfl

theorem analyzeTokens_dashD {f : DirectFormatter} {w : List Text} {a : Text}
    (hrun : DirectRun w a f) (hflag : startsWithChar '-' a = true)
    (args : List Text) :
    analyzeTokens (w ++ "-d".toList :: args) = none := by
  have hpeel :=
    hrun.peel "-d".toList args (by decide) (by decide) (by rw [hflag]; rfl)
  have hdirect : analyzeDirectFormatter (w ++ "-d".toList :: args) = none := by
    have hfound : (directFormatters.find? fun g =>
        g.base.toList = commandBasename "-d".toList) = none := by decide
    simp only [analyzeDirectFormatter, hpeel, hfound]
  rw [← hdirect]
  cases w with
  | nil =>
      refine analyzeTokens_of_other (by decide) (by
        decide) (fun manager => ?_) args
      cases manager <;> decide
  | cons x w => exact hrun.analyze _ args (.inl (List.cons_ne_nil _ _))

/-- The edited words of a direct formatter are a dry run, or no formatter's. -/
theorem onlyDryRun_of_direct {f : DirectFormatter}
    {w args : List Text} {a b : Text}
    (hrun : DirectRun w a f)
    (hb : b = a ∧ f.isDry (a :: args) = true ∨
      b = "-d".toList ∧ startsWithChar '-' a = true)
    {program : Text} (hprogram : (w ++ [a]).head? = some program)
    (henv : isEnvAssignment program = false)
    (hwrapper : isWrapper program = false) :
    OnlyDryRun f.key (w ++ b :: args) := by
  have hhead : ∃ token rest, w ++ b :: args = token :: rest ∧
      isEnvAssignment token = false ∧ isWrapper token = false := by
    cases w with
    | nil =>
        obtain rfl := Option.some.inj hprogram
        rcases hb with ⟨rfl, -⟩ | ⟨rfl, -⟩
        · exact ⟨_, _, rfl, henv, hwrapper⟩
        · exact ⟨_, _, rfl, by decide, by decide⟩
    | cons x w =>
        obtain rfl := Option.some.inj hprogram
        exact ⟨_, _, rfl, henv, hwrapper⟩
  obtain ⟨token, rest, htokens, henv', hwrapper'⟩ := hhead
  rw [htokens, onlyDryRun_cons_iff henv' hwrapper', ← htokens]
  intro r hr
  rcases hb with ⟨rfl, hdry⟩ | ⟨rfl, hflag⟩
  · have hname := name_of_found hrun.found
    rw [hrun.analyze b args (.inr rfl),
      analyzeDirectFormatter_of_peel (hrun.peel b args hname.1 hname.2.1 rfl)
        hrun.found] at hr
    obtain ⟨-, rfl⟩ := DirectFormatter.eq_judged hr
    exact ⟨rfl, disposition_judged_iff.2 hdry⟩
  · rw [analyzeTokens_dashD hrun hflag] at hr
    cases hr

theorem keepsCommand_iff_of_direct {split : Text → Option (List Text)}
    (hsplit : SplitsPlainWords split) {a : DryRunAnalysis} {f : DirectFormatter}
    {w args : List Text} {name program : Text} (hrun : DirectRun w name f)
    (hprogram : (w ++ [name]).head? = some program)
    (henv : isEnvAssignment program = false)
    (hwrapper : isWrapper program = false)
    (hkey : a.key = f.key) (hcustom : a.customSuggestedDryRun = none)
    (htokens : a.tokens = w ++ name :: args)
    (hpeel : peelExecWrappers a.tokens = name :: args)
    (hguarded : f.isGuarded (name :: args) = true)
    (hdry : f.isDry (name :: args) = false) :
    KeepsCommand split a ↔ NeedsNoCare a := by
  have hmem := List.mem_of_find?_eq_some hrun.found
  have hbase : f.base.toList = commandBasename name := by
    simpa using List.find?_some hrun.found
  have hown : analyzedWords a.key a.tokens = name :: args := by
    rw [hkey, analyzedWords_of_mem hmem, hpeel]
  have hfront : wordsInFront a.key a.tokens = w := by
    rw [wordsInFront, hown, htokens, List.length_append, Nat.add_sub_cancel]
    exact List.take_left
  have hedits : EditsOwn f w name args :=
    editsOwn_of_mem hmem hbase hguarded hdry
  by_cases hclear : ∀ token ∈ w, misleads f.key token = false
  · obtain ⟨b, args', hbehind, hb⟩ := hedits.clear hclear
    rw [keepsCommand_iff_of_edits hsplit hcustom htokens hown (hkey ▸ hbehind)]
    constructor
    · rintro ⟨hplain, -⟩
      refine ⟨hplain, by rwa [hfront, hkey], fun hclippy => ?_⟩
      exact absurd (hkey.symm.trans hclippy)
        ((by decide : ∀ g ∈ directFormatters,
        g.key ≠ .cargoClippyFix) f hmem)
    · exact fun h =>
        ⟨h.plain, hkey ▸ onlyDryRun_of_direct hrun hb hprogram henv hwrapper⟩
  · refine iff_of_false (fun h => ?_) fun h =>
      hclear (by rw [← hkey, ← hfront]; exact h.front)
    obtain ⟨words, hwords, hedited⟩ := h.edited
    rw [hfront, hkey, htokens] at hwords
    rw [hown, hkey] at hedited
    refine hedits.misled ?_ words hwords hedited
    simpa using hclear

/-! ## Every analysis -/

theorem head?_of_append {program : Text} {rest front args : List Text}
    (h : program :: rest = front ++ args) (hne : front ≠ []) :
    front.head? = some program := by
  cases front with
  | nil => exact absurd rfl hne
  | cons x front => rw [List.head?_cons, (List.cons.inj h).1]

/-- The suggestion for a mutating command keeps the command, and is guarded
only as a dry run, exactly if it needs no care. -/
theorem keepsCommand_iff {split : Text → Option (List Text)}
    (hsplit : SplitsPlainWords split)
    {first : List Text → Option (List Text)} {command : List Text}
    {a : DryRunAnalysis}
    (h : analyzeCommand first command = some a)
    (hmutating : a.disposition = .mutating) :
    KeepsCommand split a ↔ NeedsNoCare a := by
  obtain ⟨program, rest, r, henv, hwrapper, hr, rfl⟩ :=
    exists_of_analyzeCommand h
  have hnotDry : ∀ {key isDry name}, r = judged key isDry name →
      isDry = false := by
    rintro key isDry name rfl
    refine Bool.eq_false_iff.2 fun hdry => ?_
    rw [show (judged key isDry name).disposition = .dryRun from
      disposition_judged_iff.2 hdry] at hmutating
    cases hmutating
  rcases exists_run hr with
    ⟨front, args, guarded, dry, htokens, hrun⟩ | ⟨w, name, args, f, htokens,
      hpeel, hrun, hjudge⟩
  · obtain ⟨hguarded, name, hname⟩ := hrun.eq_judged (htokens ▸ hr)
    refine keepsCommand_iff_of_front hsplit hrun ?_ henv hwrapper ?_
      htokens hguarded
      (hnotDry hname)
    · exact head?_of_append htokens hrun.ne_nil
    · rw [hname]
      rfl
  · obtain ⟨hguarded, hname⟩ := DirectFormatter.eq_judged hjudge
    refine keepsCommand_iff_of_direct hsplit hrun ?_ henv hwrapper ?_ ?_ htokens
      hpeel hguarded
      (hnotDry hname)
    · exact head?_of_append (htokens.trans (List.append_cons w name args))
        (by simp)
    · rw [hname]
      rfl
    · rw [hname]
      rfl

/-! ## Words without quotation -/

/-- The words between spaces. -/
def splitAtSpaces (text : Text) : List Text :=
  if text = [] then [] else text.splitOn ' '

/-- Splitting at spaces where nothing is quoted. -/
def plainSplit (text : Text) : Option (List Text) :=
  if ∀ word ∈ splitAtSpaces text, IsPlain word then some (splitAtSpaces text)
    else none

theorem splitAtSpaces_joinWords {words : List Text}
    (h : ∀ word ∈ words, IsPlain word) :
    splitAtSpaces (joinWords words) = words := by
  cases words with
  | nil => rfl
  | cons word rest =>
      have hspace : ∀ w ∈ word :: rest, ' ' ∉ w := fun w hw hmem =>
        (h w hw).2.2 ' ' hmem (by decide)
      have hne : joinWords (word :: rest) ≠ [] := by
        intro heq
        have hword := (h word List.mem_cons_self).1
        cases rest with
        | nil => exact hword (by simpa [joinWords] using heq)
        | cons next rest => simp [joinWords] at heq
      rw [splitAtSpaces, if_neg hne]
      exact List.splitOn_intercalate ' ' hspace (List.cons_ne_nil _ _)

theorem splitsPlainWords_plainSplit : SplitsPlainWords plainSplit := by
  intro words
  rw [plainSplit]
  constructor
  · intro h
    split at h
    next hplain => exact Option.some.inj h ▸ hplain
    next => cases h
  · intro hplain
    rw [splitAtSpaces_joinWords hplain, if_pos hplain]

/-- `cargo fmt`. -/
theorem keepsCommand_cargoFmt :
    KeepsCommand plainSplit
      { key := .cargoFmt
        disposition := .mutating
        tokens := ["cargo".toList, "fmt".toList]
        displayName := "cargo fmt".toList
        customSuggestedDryRun := none } :=
  (keepsCommand_iff splitsPlainWords_plainSplit
    (rfl : analyzeCommand some ["cargo".toList, "fmt".toList] = some _) rfl).2
    ⟨by decide, by decide, by decide⟩

theorem Edited.mem {key : DryRunGuardKey} {own own' : List Text}
    (h : Edited key own own')
    (hkey : mutatingFlag key = none) : ∀ token ∈ own, token ∈ own' := by
  cases h with
  | added => simp; tauto
  | replaced hflag =>
      rw [hkey] at hflag
      cases hflag

/-- `rustfmt 'my file.rs'`: the suggestion names two files. -/
theorem not_keepsCommand_space : ∃ a text words,
    analyzeCommand some ["rustfmt".toList, "my file.rs".toList] = some a ∧
      a.disposition = .mutating ∧ a.suggestedDryRun = some text ∧
      plainSplit text = some words ∧ ¬ Edited a.key a.tokens words ∧
      ¬ KeepsCommand plainSplit a := by
  refine ⟨_, _,
    ["rustfmt".toList, "my".toList, "file.rs".toList, "--check".toList],
    rfl, rfl,
    rfl, by decide, fun h => ?_, fun h => ?_⟩
  · exact absurd (h.mem rfl "my file.rs".toList (by decide)) (by decide)
  · obtain ⟨text, htext, hread⟩ := h.read
    obtain rfl := Option.some.inj htext
    revert hread
    decide

end CodeRs.DryRun
