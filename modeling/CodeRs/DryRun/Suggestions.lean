import CodeRs.DryRun.Dispatch

/-!
# The suggested dry run

The suggestion is the tokens of the command with a flag put in or one replaced,
joined by spaces.  It is read as these tokens if none of them needs quoting,
and it is a dry run if the flag is put behind the formatter's name and nothing
stays that is not.
-/

namespace CodeRs.DryRun

/-! ## Words -/

/-- White space, quotation marks and the backslash. -/
def quotedChars : List Char := [' ', '\t', '\n', '"', '\'', '\\']

/-- A word that is read as it is where words are split. -/
def IsPlain (word : Text) : Prop :=
  word ≠ [] ∧ word.head? ≠ some '#' ∧ ∀ c ∈ word, c ∉ quotedChars

instance (word : Text) : Decidable (IsPlain word) :=
  letI : Decidable (∀ c ∈ word, c ∉ quotedChars) :=
    List.decidableBAll (· ∉ quotedChars) word
  inferInstanceAs (Decidable (_ ∧ _ ∧ _))

/-- `shlex::split` as it is documented: words that are joined by spaces are
read back exactly if none of them has white space, a quotation mark or a
backslash, begins a comment or is empty. -/
def SplitsPlainWords (split : Text → Option (List Text)) : Prop :=
  ∀ words, split (joinWords words) = some words ↔ ∀ word ∈ words, IsPlain word

/-! ## What a suggestion is to be -/

/-- The flag that is replaced or left out, where there is one. -/
def mutatingFlag : DryRunGuardKey → Option (Text → Bool)
  | .cargoClippyFix => some fun token => equalIgnoreCase token "--fix"
  | .prettierWrite => some isWriteFlag
  | .gofmt => some isGofmtWriteFlag
  | _ => none

def dryRunWords : DryRunGuardKey → List (List Text)
  | .cargoFmt => [["--check".toList], [dashes, "--check".toList]]
  | .cargoFix => [["--dry-run".toList]]
  | .cargoClippyFix => [[]]
  | .rustfmt => [["--check".toList]]
  | .packageLint _ => [[dashes, "--dry-run".toList]]
  | .packageFormat _ => [[dashes, "--check".toList]]
  | .eslintFix => [["--fix-dry-run".toList]]
  | .prettierWrite => [["--check".toList]]
  | .black => [["--check".toList]]
  | .ruffFormat => [["--check".toList]]
  | .isort => [["--check-only".toList]]
  | .gofmt => [["-d".toList]]
  | .rustywind => [["--check".toList]]
  | .dartFormat => [["--dry-run".toList]]
  | .swiftFormat => [["--lint".toList]]

/-- The dry-run flag is added, or the mutating flag is replaced. -/
inductive Edited (key : DryRunGuardKey) : List Text → List Text → Prop
  | added {pre new post : List Text} (hkey : mutatingFlag key = none)
      (hnew : new ∈ dryRunWords key) : Edited key (pre ++ post)
      (pre ++ new ++ post)
  | replaced {pre new post : List Text} {flag : Text} {p : Text → Bool}
      (hkey : mutatingFlag key = some p) (hflag : p flag = true)
      (hnew : new ∈ dryRunWords key) : Edited key (pre ++ flag :: post)
      (pre ++ new ++ post)

/-- The words that the analysis of a key looks at. -/
def analyzedWords : DryRunGuardKey → List Text → List Text
  | .cargoFmt, tokens => tokens
  | .cargoFix, tokens => tokens
  | .cargoClippyFix, tokens => tokens
  | .rustfmt, tokens => tokens
  | .packageLint _, tokens => tokens
  | .packageFormat _, tokens => tokens
  | _, tokens => peelExecWrappers tokens

/-- The words in front of them, which run the formatter. -/
def wordsInFront (key : DryRunGuardKey) (tokens : List Text) : List Text :=
  tokens.take (tokens.length - (analyzedWords key tokens).length)

/-- Nothing in the words, taken as one command, is guarded but a dry run of the
key.  Where a quoted token is a connector, `first_command_tokens` would take
the words up to it only. -/
def OnlyDryRun (key : DryRunGuardKey) (words : List Text) : Prop :=
  ∀ other, analyzeWords words = some other →
    other.key = key ∧ other.disposition = .dryRun

/-- The suggestion is read as the tokens of the command, with only the dry-run
flag of the formatter added or its mutating flag replaced, and nothing in it is
guarded but a dry run of the same key. -/
structure KeepsCommand (split : Text → Option (List Text))
    (analysis : DryRunAnalysis) :
    Prop where
  read : ∃ text, analysis.suggestedDryRun = some text ∧
    split text = some (suggestTokens analysis.key analysis.tokens)
  edited : ∃ words, suggestTokens analysis.key analysis.tokens =
    wordsInFront analysis.key analysis.tokens ++ words ∧
      Edited analysis.key (analyzedWords analysis.key analysis.tokens) words
  again : OnlyDryRun analysis.key (suggestTokens analysis.key analysis.tokens)

/-! ## When it is -/

def keptTokens (key : DryRunGuardKey) (tokens : List Text) : List Text :=
  match mutatingFlag key with
  | none => tokens
  | some p => tokens.eraseP p

/-- A word in front of the formatter that the suggestion takes for one of its
own. -/
def misleads : DryRunGuardKey → Text → Bool
  | .eslintFix, token => equalIgnoreCase token "--fix-dry-run" ||
      equalIgnoreCase token "--dry-run" || token = dashes
  | .prettierWrite, token => equalIgnoreCase token "--check" ||
      equalIgnoreCase token "--list-different" || isWriteFlag token
  | .black, token => equalIgnoreCase token "--check"
  | .ruffFormat, token => equalIgnoreCase token "--check"
  | .isort, token => equalIgnoreCase token "--check-only"
  | .gofmt, token => isGofmtWriteFlag token
  | .rustywind, token => equalIgnoreCase token "--check"
  | .dartFormat, token => equalIgnoreCase token "--dry-run"
  | .swiftFormat, token =>
      equalIgnoreCase token "--lint" || equalIgnoreCase token "--dryrun"
  | _, _ => false

/-- No token that stays needs quoting, no word in front of the formatter is one
that the suggestion looks for, and `--fix` is not given twice to clippy. -/
structure NeedsNoCare (analysis : DryRunAnalysis) : Prop where
  plain : ∀ token ∈ keptTokens analysis.key analysis.tokens, IsPlain token
  front : ∀ token ∈ wordsInFront analysis.key analysis.tokens,
    misleads analysis.key token = false
  once : analysis.key = .cargoClippyFix →
    (analysis.tokens.countP fun token => equalIgnoreCase token "--fix") ≤ 1

/-! ## Lists with one word put in -/

section Lists

variable {p : Text → Bool} {flag : Text}

theorem insertAtFirst_append {front : List Text}
    (h : ∀ token ∈ front, p token = false)
    (args : List Text) :
    insertAtFirst p flag (front ++ args) =
      front ++ insertAtFirst p flag args := by
  induction front with
  | nil => rfl
  | cons token rest ih =>
      rw [List.forall_mem_cons] at h
      simp only [List.cons_append, insertAtFirst, h.1, Bool.false_eq_true,
        if_false, ih h.2]

theorem exists_insertAtFirst (p : Text → Bool) (flag : Text)
    (args : List Text) :
    ∃ pre post, args = pre ++ post ∧
      insertAtFirst p flag args = pre ++ [flag] ++ post := by
  induction args with
  | nil => exact ⟨[], [], rfl, rfl⟩
  | cons token rest ih =>
      rw [insertAtFirst]
      split
      next => exact ⟨[], token :: rest, rfl, rfl⟩
      next =>
        obtain ⟨pre, post, hrest, hinsert⟩ := ih
        exact ⟨token :: pre, post, by rw [hrest]; rfl, by rw [hinsert]; rfl⟩

theorem replaceFirst_append {front : List Text}
    (h : ∀ token ∈ front, p token = false)
    (args : List Text) :
    replaceFirst p flag (front ++ args) =
      front ++ replaceFirst p flag args := by
  induction front with
  | nil => rfl
  | cons token rest ih =>
      rw [List.forall_mem_cons] at h
      simp only [List.cons_append, replaceFirst, h.1, Bool.false_eq_true,
        if_false, ih h.2]

/-- The first word of a kind is replaced, and left out where it is erased. -/
theorem exists_replaceFirst (flag : Text) {args : List Text}
    (h : args.any p = true) :
    ∃ pre token post, args = pre ++ token :: post ∧ p token = true ∧
      replaceFirst p flag args = pre ++ [flag] ++ post ∧
      args.eraseP p = pre ++ post := by
  induction args with
  | nil => cases h
  | cons token rest ih =>
      cases htoken : p token with
      | true =>
          refine ⟨[], token, rest, rfl, htoken, ?_,
            List.eraseP_cons_of_pos htoken⟩
          rw [replaceFirst, if_pos htoken]
          rfl
      | false =>
          rw [List.any_cons, htoken, Bool.false_or] at h
          obtain ⟨pre, found, post, hrest, hfound, hreplace, herase⟩ := ih h
          refine ⟨token :: pre, found, post, by rw [hrest]; rfl, hfound, ?_, ?_⟩
          · simp only [replaceFirst, htoken, Bool.false_eq_true,
              if_false, hreplace]
            rfl
          · rw [List.eraseP_cons_of_neg (by simp [htoken]), herase]
            rfl

theorem suggestCargoFmt_append {front : List Text}
    (h : ∀ token ∈ front, token ≠ dashes)
    (args : List Text) :
    suggestCargoFmt (front ++ args) = front ++ suggestCargoFmt args := by
  induction front with
  | nil => rfl
  | cons token rest ih =>
      rw [List.forall_mem_cons] at h
      simp only [List.cons_append, suggestCargoFmt, if_neg h.1, ih h.2]

/-- Where no argument is `--check`, one is put in, behind dashes. -/
theorem exists_suggestCargoFmt {args : List Text}
    (h : sliceContainsFlag args "--check" = false) :
    ∃ pre new post, args = pre ++ post ∧
      suggestCargoFmt args = pre ++ new ++ post ∧
      new ∈ dryRunWords .cargoFmt := by
  induction args with
  | nil =>
      exact ⟨[], _, [], rfl, rfl, List.mem_cons_of_mem _ List.mem_cons_self⟩
  | cons token rest ih =>
      rw [sliceContainsFlag, List.any_cons, Bool.or_eq_false_iff] at h
      rw [suggestCargoFmt]
      split
      next =>
        rw [if_neg (by rw [sliceContainsFlag, h.2]; exact Bool.false_ne_true)]
        exact ⟨[token], _, rest, rfl, rfl, List.mem_cons_self⟩
      next =>
        obtain ⟨pre, new, post, hrest, hsuggest, hnew⟩ := ih h.2
        exact ⟨token :: pre, new, post,
          by rw [hrest]; rfl, by rw [hsuggest]; rfl, hnew⟩

end Lists

end CodeRs.DryRun
