import CodeRs.DryRun.Analysis

/-!
# The words in front of a formatter

A formatter may be run by another program, whose own flags are skipped.  What
comes behind the formatter's name does not change where it is found.
-/

namespace CodeRs.DryRun

/-! ## Names -/

/-- A character that a path or a quotation gives a meaning to. -/
def IsNameChar (c : Char) : Prop := c ≠ '"' ∧ c ≠ '\'' ∧ c ≠ '/' ∧ c ≠ '.'

instance (c : Char) : Decidable (IsNameChar c) :=
  inferInstanceAs (Decidable (_ ∧ _))

/-- A text that is a name alone. -/
def IsName (t : Text) : Prop := t ≠ [] ∧ ∀ c ∈ t, IsNameChar c

instance (t : Text) : Decidable (IsName t) :=
  letI : Decidable (∀ c ∈ t, IsNameChar c) := List.decidableBAll IsNameChar t
  inferInstanceAs (Decidable (_ ∧ _))

theorem isNameChar_of_toLower {c : Char} (h : IsNameChar c.toLower) :
    IsNameChar c := by
  refine ⟨?_, ?_, ?_, ?_⟩ <;> rintro rfl <;> exact absurd h (by decide)

theorem trimMatches_of_notMem {c : Char} {t : Text} (h : c ∉ t) :
    trimMatches c t = t := by
  have hdrop : ∀ l : Text, c ∉ l → l.dropWhile (· = c) = l := by
    intro l hl
    cases l with
    | nil => rfl
    | cons d rest =>
        refine List.dropWhile_cons_of_neg fun hd => hl ?_
        rw [of_decide_eq_true hd]
        exact List.mem_cons_self
  rw [trimMatches, hdrop t h,
    hdrop t.reverse fun hmem => h (List.mem_reverse.1 hmem),
    List.reverse_reverse]

/-- A name alone is its own base name. -/
theorem commandBasename_of_name {t : Text} (h : IsName t) :
    commandBasename t = t.toAsciiLowercase := by
  obtain ⟨hne, h⟩ := h
  have hquote : '"' ∉ t := fun hmem => (h _ hmem).1 rfl
  have hsingle : '\'' ∉ t := fun hmem => (h _ hmem).2.1 rfl
  have hdot : '.' ∉ t := fun hmem => (h _ hmem).2.2.2 rfl
  have hsplit : t.splitOn '/' = [t] :=
    List.splitOnP_eq_singleton fun c hc => beq_false_of_ne (h c hc).2.2.1
  have hcur : t ≠ ['.'] := fun heq => hdot (heq ▸ List.mem_cons_self)
  have hparent : t ≠ ['.', '.'] := fun heq => hdot (heq ▸ List.mem_cons_self)
  simp only [commandBasename, trimMatches_of_notMem hquote,
    trimMatches_of_notMem hsingle,
    fileName, hsplit]
  simp [hne, hcur, hparent]

theorem commandBasename_of_equalIgnoreCase {t : Text} {word : String}
    (h : equalIgnoreCase t word = true)
    (hword : IsName (Text.toAsciiLowercase word.toList)) :
    commandBasename t = Text.toAsciiLowercase word.toList := by
  have heq : t.toAsciiLowercase = Text.toAsciiLowercase word.toList :=
    of_decide_eq_true h
  have hname : IsName t := by
    refine ⟨?_, fun c hc => isNameChar_of_toLower (hword.2 _ ?_)⟩
    · rintro rfl
      exact hword.1 heq.symm
    · rw [← heq]
      exact List.mem_map_of_mem hc
  rw [commandBasename_of_name hname, heq]

theorem equalIgnoreCase_eq_false {t : Text} {word : String}
    (hbase : commandBasename t ≠ Text.toAsciiLowercase word.toList)
    (hword : IsName (Text.toAsciiLowercase word.toList)) :
    equalIgnoreCase t word = false :=
  Bool.eq_false_iff.2 fun h =>
    hbase (commandBasename_of_equalIgnoreCase h hword)

theorem equalIgnoreCase_unique {t : Text} {word other : String}
    (h : equalIgnoreCase t word = true)
    (hne : Text.toAsciiLowercase word.toList ≠
      Text.toAsciiLowercase other.toList) :
    equalIgnoreCase t other = false := by
  refine decide_eq_false fun hother => hne ?_
  exact (of_decide_eq_true h).symm.trans hother

/-! ## Peeling -/

/-- The words that run another command. -/
def IsRunner (base : Text) : Prop :=
  base ∈ ["npx", "bunx", "pnpm", "yarn"].map String.toList

instance (base : Text) : Decidable (IsRunner base) :=
  inferInstanceAs (Decidable (_ ∈ _))

theorem length_peelExecWrappers_le (tokens : List Text) :
    (peelExecWrappers tokens).length ≤ tokens.length := by
  fun_induction peelExecWrappers tokens with
  | case1 => exact Nat.le_refl _
  | case2 token rest base hbase ih =>
      exact ih.trans ((length_skipLeadingFlags_le rest).trans (Nat.le_succ _))
  | case3 token base hbase => exact Nat.le_refl _
  | case4 token base hbase second args hpnpm ih =>
      have hle := length_skipLeadingFlags_le args
      simp only [List.length_cons]
      omega
  | case5 token base hbase second args hpnpm hyarn ih =>
      have hle := length_skipLeadingFlags_le args
      simp only [List.length_cons]
      omega
  | case6 token base hbase second args hpnpm hyarn => exact Nat.le_refl _

/-- The flags that are skipped do not depend on what comes behind the first
other word. -/
theorem skipLeadingFlags_append (w : List Text) {a : Text} (rest : List Text)
    (ha : a ≠ dashes) :
    (∃ w₀ w₁ : List Text, w = w₀ ++ w₁ ∧ ∀ (b : Text) (rest' : List Text),
      b ≠ dashes →
      startsWithChar '-' b = startsWithChar '-' a →
        skipLeadingFlags (w ++ b :: rest') = w₁ ++ b :: rest') ∨
      (skipLeadingFlags (w ++ a :: rest)).length ≤ rest.length := by
  induction w with
  | nil =>
      cases hdash : startsWithChar '-' a with
      | true =>
          right
          rw [List.nil_append, skipLeadingFlags, if_neg ha, if_pos hdash]
          exact length_skipLeadingFlags_le rest
      | false =>
          refine .inl ⟨[], [], rfl, fun b rest' hb hsame => ?_⟩
          rw [List.nil_append, skipLeadingFlags, if_neg hb, hsame]
          rfl
  | cons x w ih =>
      simp only [List.cons_append, skipLeadingFlags]
      by_cases hx : x = dashes
      · simp only [if_pos hx]
        exact .inl ⟨[x], w, rfl, fun _ _ _ _ => rfl⟩
      · simp only [if_neg hx]
        cases hdash : startsWithChar '-' x with
        | true =>
            simp only [if_true]
            refine ih.imp_left ?_
            rintro ⟨w₀, w₁, rfl, hskip⟩
            exact ⟨x :: w₀, w₁, rfl, hskip⟩
        | false => exact .inl ⟨[], x :: w, rfl, fun _ _ _ _ => rfl⟩

theorem peelExecWrappers_of_not_isRunner {a : Text}
    (h : ¬ IsRunner (commandBasename a))
    (rest : List Text) : peelExecWrappers (a :: rest) = a :: rest := by
  have hnpx :
      ¬ (commandBasename a = "npx".toList ∨
        commandBasename a = "bunx".toList) := by
    rintro (heq | heq) <;> exact h (by rw [heq]; decide)
  have hpnpm : commandBasename a ≠ "pnpm".toList :=
    fun heq => h (by rw [heq]; decide)
  have hyarn : commandBasename a ≠ "yarn".toList :=
    fun heq => h (by rw [heq]; decide)
  cases rest with
  | nil => simp only [peelExecWrappers, if_neg hnpx]
  | cons second args =>
      simp only [peelExecWrappers, if_neg hnpx, hpnpm, hyarn,
        false_and, if_false]

/-- A word that runs the next command. -/
theorem peelExecWrappers_npx {x : Text}
    (h : commandBasename x = "npx".toList ∨ commandBasename x = "bunx".toList)
    (rest : List Text) :
    peelExecWrappers (x :: rest) =
      peelExecWrappers (skipLeadingFlags rest) := by
  cases rest <;> simp only [peelExecWrappers, if_pos h]

/-- The words in front of the command that is found. -/
theorem peelExecWrappers_suffix (tokens : List Text) :
    peelExecWrappers tokens <:+ tokens := by
  have hskip : ∀ l : List Text, skipLeadingFlags l <:+ l := by
    intro l
    induction l with
    | nil => exact List.suffix_refl _
    | cons token rest ih =>
        rw [skipLeadingFlags]
        split
        next => exact List.suffix_cons _ _
        next =>
          split
          next => exact ih.trans (List.suffix_cons _ _)
          next => exact List.suffix_refl _
  fun_induction peelExecWrappers tokens with
  | case1 => exact List.suffix_refl _
  | case2 token rest base hbase ih =>
      exact ih.trans ((hskip rest).trans (List.suffix_cons _ _))
  | case3 token base hbase => exact List.suffix_refl _
  | case4 token base hbase second args hpnpm ih =>
      exact ih.trans
        ((hskip args).trans
          ((List.suffix_cons _ _).trans (List.suffix_cons _ _)))
  | case5 token base hbase second args hpnpm hyarn ih =>
      exact ih.trans
        ((hskip args).trans
          ((List.suffix_cons _ _).trans (List.suffix_cons _ _)))
  | case6 token base hbase second args hpnpm hyarn => exact List.suffix_refl _

/-- The first word in front of the command that is found: it runs another
command, by itself or with the word behind it. -/
inductive Runs : List Text → Prop
  | one {x : Text} (w : List Text) : commandBasename x = "npx".toList ∨
      commandBasename x = "bunx".toList → Runs (x :: w)
  | two {x y : Text} (w : List Text) : commandBasename x = "pnpm".toList ∨
      commandBasename x = "yarn".toList → Runs (x :: y :: w)

/-- What is behind the command that is found, and the command itself if it
stays one and is a flag or not as before, do not change where it is found. -/
theorem peelExecWrappers_append {w : List Text} {a : Text} {rest : List Text}
    (h : peelExecWrappers (w ++ a :: rest) = a :: rest) (ha : a ≠ dashes) :
    (w = [] ∨ Runs w) ∧ ∀ (b : Text) (rest' : List Text),
      ¬ IsRunner (commandBasename b) →
      b ≠ dashes → startsWithChar '-' b = startsWithChar '-' a →
        peelExecWrappers (w ++ b :: rest') = b :: rest' := by
  -- behind each runner the words that are left are fewer
  have hshort : ∀ l : List Text, l.length ≤ rest.length →
      peelExecWrappers l ≠ a :: rest := by
    intro l hl heq
    have hle := length_peelExecWrappers_le l
    rw [heq, List.length_cons] at hle
    omega
  induction hn : w.length using Nat.strongRecOn generalizing w with
  | ind n ih =>
      have hinner : ∀ v : List Text, v.length < w.length →
          peelExecWrappers (skipLeadingFlags (v ++ a :: rest)) = a :: rest →
          ∀ (b : Text) (rest' : List Text), ¬ IsRunner (commandBasename b) →
          b ≠ dashes →
            startsWithChar '-' b = startsWithChar '-' a →
              peelExecWrappers (skipLeadingFlags (v ++ b :: rest')) =
                b :: rest' := by
        intro v hv hpeel b rest' hb hne hsame
        rcases skipLeadingFlags_append v rest ha with ⟨w₀, w₁, rfl, hskip⟩ | hle
        · rw [hskip a rest ha rfl] at hpeel
          rw [hskip b rest' hne hsame]
          rw [List.length_append] at hv
          exact (ih w₁.length (by omega) hpeel rfl).2 b rest' hb hne hsame
        · exact absurd hpeel (hshort _ hle)
      cases w with
      | nil =>
          exact ⟨.inl rfl,
            fun b rest' hb _ _ => peelExecWrappers_of_not_isRunner hb rest'⟩
      | cons x w =>
          rw [List.cons_append] at h
          by_cases hnpx : commandBasename x = "npx".toList ∨
            commandBasename x = "bunx".toList
          · rw [peelExecWrappers_npx hnpx] at h
            refine ⟨.inr (.one w hnpx), fun b rest' hb hne hsame => ?_⟩
            rw [List.cons_append, peelExecWrappers_npx hnpx]
            exact hinner w (Nat.lt_succ_self _) h b rest' hb hne hsame
          · cases w with
            | nil =>
                simp only [List.nil_append, peelExecWrappers, if_neg hnpx] at h
                split at h
                next =>
                  exact absurd h (hshort _ (length_skipLeadingFlags_le rest))
                next =>
                  split at h
                  next =>
                    exact absurd h (hshort _ (length_skipLeadingFlags_le rest))
                  next =>
                    have hlength := congrArg List.length h
                    simp at hlength
            | cons y w =>
                simp only [List.cons_append, peelExecWrappers, if_neg hnpx] at h
                split at h
                next hpnpm =>
                  refine ⟨.inr (.two w (.inl hpnpm.1)),
                    fun b rest' hb hne hsame => ?_⟩
                  simp only [List.cons_append, peelExecWrappers,
                    if_neg hnpx, if_pos hpnpm]
                  exact hinner w (by simp only [List.length_cons]; omega) h b
                    rest' hb hne hsame
                next hpnpm =>
                  split at h
                  next hyarn =>
                    refine ⟨.inr (.two w (.inr hyarn.1)),
                      fun b rest' hb hne hsame => ?_⟩
                    simp only [List.cons_append, peelExecWrappers,
                      if_neg hnpx, if_neg hpnpm,
                      if_pos hyarn]
                    exact hinner w (by simp only [List.length_cons]; omega) h b
                      rest' hb hne hsame
                  next =>
                    have hlength := congrArg List.length h
                    simp at hlength
                    omega

end CodeRs.DryRun
