import CodeRs.ExecPolicy.ArgMatcher

/-!
# What the resolver matches

The resolver succeeds exactly if there is at most one vararg pattern and the
arguments can be matched with the patterns in order: each pattern of
cardinality one takes one argument and the vararg pattern takes a block.  None
of its slices is out of bounds.
-/

namespace CodeRs.ExecPolicy

/-- The match of an argument with a pattern. -/
def ArgMatcher.matchedArg (pattern : ArgMatcher)
    (arg : PositionalArg) : MatchedArg :=
  ⟨arg.index, pattern.argType, arg.value⟩

/-- Arguments that are matched with patterns in order, each argument with one
pattern. -/
inductive InOrder :
    List ArgMatcher → List PositionalArg → List MatchedArg → Prop
  | nil : InOrder [] [] []
  | exact {pattern patterns arg args matched} (hone : pattern.cardinality =
    .one)
      (haccepts : pattern.argType.Accepts arg.value)
      (h : InOrder patterns args matched) :
      InOrder (pattern :: patterns) (arg :: args)
        (pattern.matchedArg arg :: matched)
  | vararg {pattern patterns block args matched} (hmany : pattern.cardinality ≠
    .one)
      (hne : pattern.cardinality = .atLeastOne → block ≠ [])
      (haccepts : ∀ arg ∈ block, pattern.argType.Accepts arg.value)
      (h : InOrder patterns args matched) :
      InOrder (pattern :: patterns) (block ++ args)
        (block.map pattern.matchedArg ++ matched)

/-- At most one pattern takes a variable number of arguments. -/
def AtMostOneVararg (patterns : List ArgMatcher) : Prop :=
  (patterns.filter fun pattern => pattern.cardinality ≠ .one).length ≤ 1

instance (patterns : List ArgMatcher) : Decidable (AtMostOneVararg patterns) :=
  inferInstanceAs (Decidable (_ ≤ 1))

/-- All patterns take one argument. -/
def Exact (patterns : List ArgMatcher) : Prop :=
  ∀ pattern ∈ patterns, pattern.cardinality = .one

theorem isExact_one {pattern : ArgMatcher} (h : pattern.cardinality = .one) :
    pattern.cardinality.isExact = some 1 := by
  rw [h]
  rfl

theorem isExact_none {pattern : ArgMatcher} (h : pattern.cardinality ≠ .one) :
    pattern.cardinality.isExact = none := by
  cases hcard : pattern.cardinality with
  | one => exact absurd hcard h
  | _ => rfl

/-! ## One pattern -/

theorem new_eq_ok {index : Nat} {type : ArgType} {value : Text}
    {matched : MatchedArg} :
    MatchedArg.new index type value = .ok matched ↔
      type.Accepts value ∧ matched = ⟨index, type, value⟩ := by
  rw [MatchedArg.new, bind_eq_ok]
  constructor
  · rintro ⟨⟨⟩, haccepts, ⟨⟩⟩
    exact ⟨haccepts, rfl⟩
  · rintro ⟨haccepts, rfl⟩
    exact ⟨(), haccepts, rfl⟩

theorem matchAll_eq_ok {pattern : ArgMatcher} {args : List PositionalArg}
    {matched : List MatchedArg} :
    matchAll pattern args = .ok matched ↔
      (∀ arg ∈ args, pattern.argType.Accepts arg.value) ∧
        matched = args.map pattern.matchedArg := by
  induction args generalizing matched with
  | nil =>
      rw [matchAll, Except.ok.injEq, eq_comm]
      simp
  | cons arg rest ih =>
      simp only [matchAll, bind_eq_ok, new_eq_ok, ih, List.forall_mem_cons]
      constructor
      · rintro ⟨_, ⟨harg, rfl⟩, _, ⟨hrest, rfl⟩, ⟨⟩⟩
        exact ⟨⟨harg, hrest⟩, rfl⟩
      · rintro ⟨⟨harg, hrest⟩, rfl⟩
        exact ⟨_, ⟨harg, rfl⟩, _, ⟨hrest, rfl⟩, rfl⟩

theorem matchVararg_eq_ok {program : Text} {pattern : ArgMatcher}
    (hmany : pattern.cardinality ≠ .one) {block : List PositionalArg}
    {matched : List MatchedArg} :
    matchVararg program pattern block = .ok matched ↔
      (pattern.cardinality = .atLeastOne → block ≠ []) ∧
        (∀ arg ∈ block, pattern.argType.Accepts arg.value) ∧
          matched = block.map pattern.matchedArg := by
  rw [← matchAll_eq_ok]
  cases hcard : pattern.cardinality with
  | one => exact absurd hcard hmany
  | atLeastOne =>
      simp only [matchVararg, hcard]
      split
      next hempty =>
        exact ⟨fun h => (by cases h), fun h => absurd hempty (h.1 trivial)⟩
      next hne => exact ⟨fun h => ⟨fun _ => hne, h⟩, fun h => h.2⟩
  | zeroOrMore =>
      simp only [matchVararg, hcard]
      exact ⟨fun h => ⟨fun hne => (by cases hne), h⟩, fun h => h.2⟩

/-! ## Patterns that take one argument each -/

theorem Exact.tail {pattern : ArgMatcher} {patterns : List ArgMatcher}
    (h : Exact (pattern :: patterns)) : Exact patterns :=
  fun p hp => h p (List.mem_cons_of_mem _ hp)

theorem InOrder.length_of_exact {patterns : List ArgMatcher}
    {args : List PositionalArg}
    {matched : List MatchedArg} (h : InOrder patterns args matched)
    (hexact : Exact patterns) :
    args.length = patterns.length ∧ matched.length = patterns.length := by
  induction h with
  | nil => exact ⟨rfl, rfl⟩
  | exact hone haccepts h ih =>
      obtain ⟨hargs, hmatched⟩ := ih hexact.tail
      exact ⟨congrArg Nat.succ hargs, congrArg Nat.succ hmatched⟩
  | vararg hmany => exact absurd (hexact _ (List.mem_cons_self ..)) hmany

/-- A pattern that takes one argument takes the first one. -/
theorem inOrder_exact {pattern : ArgMatcher} {patterns : List ArgMatcher}
    (hone : pattern.cardinality = .one) {args : List PositionalArg}
    {matched : List MatchedArg} :
    InOrder (pattern :: patterns) args matched ↔
      ∃ arg rest others, args = arg :: rest ∧
        pattern.argType.Accepts arg.value ∧
        InOrder patterns rest others ∧
        matched = pattern.matchedArg arg :: others := by
  constructor
  · intro h
    cases h with
    | exact _ haccepts h => exact ⟨_, _, _, rfl, haccepts, h, rfl⟩
    | vararg hmany => exact absurd hone hmany
  · rintro ⟨arg, rest, others, rfl, haccepts, h, rfl⟩
    exact .exact hone haccepts h

/-- The first patterns take the first arguments. -/
theorem inOrder_append {before after : List ArgMatcher} (hexact : Exact before)
    {args : List PositionalArg} {matched : List MatchedArg} :
    InOrder (before ++ after) args matched ↔
      ∃ matchedBefore matchedAfter,
        InOrder before (args.take before.length) matchedBefore ∧
          InOrder after (args.drop before.length) matchedAfter ∧
            matched = matchedBefore ++ matchedAfter := by
  induction before generalizing args matched with
  | nil =>
      constructor
      · intro h
        exact ⟨[], matched, .nil, h, rfl⟩
      · rintro ⟨_, _, hbefore, hafter, rfl⟩
        cases hbefore
        exact hafter
  | cons pattern before ih =>
      have hone := hexact pattern (List.mem_cons_self ..)
      rw [List.cons_append, inOrder_exact hone]
      constructor
      · rintro ⟨arg, rest, others, rfl, haccepts, h, rfl⟩
        obtain ⟨matchedBefore, matchedAfter, hbefore, hafter, rfl⟩ :=
          (ih hexact.tail).1 h
        exact ⟨_, _, .exact hone haccepts hbefore, hafter, rfl⟩
      · rintro ⟨matchedBefore, matchedAfter, hbefore, hafter, rfl⟩
        obtain ⟨arg, rest, others, htake, haccepts, h, rfl⟩ :=
          (inOrder_exact hone).1 hbefore
        cases args with
        | nil => cases htake
        | cons arg args =>
            cases htake
            exact ⟨_, _, _, rfl, haccepts,
              (ih hexact.tail).2 ⟨_, _, h, hafter, rfl⟩, rfl⟩

theorem slice_eq {α : Type} {args : List α} {start stop : Nat}
    (hle : start ≤ stop)
    (hstop : stop ≤ args.length) :
    slice args start stop = .ok ((args.drop start).take (stop - start)) :=
  if_pos ⟨hle, hstop⟩

/-- Patterns that take one argument each, matched with as many arguments. -/
theorem matchExact_eq_ok {patterns : List ArgMatcher} (hexact : Exact patterns)
    {observed : List PositionalArg} {index : Nat}
    (hlength : observed.length = index + patterns.length)
    (acc : List MatchedArg)
    {result : List MatchedArg × Nat} :
    matchExact observed index acc patterns = .ok result ↔
      ∃ matched, InOrder patterns (observed.drop index) matched ∧
        result = (acc ++ matched, index + patterns.length) := by
  induction patterns generalizing index acc with
  | nil =>
      have hdrop : observed.drop index = [] :=
        List.drop_eq_nil_of_le (Nat.le_of_eq hlength)
      rw [matchExact, Except.ok.injEq, hdrop]
      constructor
      · rintro rfl
        exact ⟨[], .nil, by simp⟩
      · rintro ⟨_, hmatched, rfl⟩
        cases hmatched
        simp
  | cons pattern patterns ih =>
      rw [List.length_cons] at hlength
      have hone := hexact pattern (List.mem_cons_self ..)
      have hlt : index < observed.length := by omega
      have hdrop :
          observed.drop index = observed[index] :: observed.drop (index + 1) :=
        List.drop_eq_getElem_cons hlt
      have hslice :
          slice observed index (index + 1) = .ok [observed[index]] := by
        rw [slice_eq (Nat.le_succ index) hlt, hdrop,
          Nat.succ_sub (Nat.le_refl index),
          Nat.sub_self]
        rfl
      have hrest := @ih hexact.tail (index + 1) (by omega)
      simp only [matchExact, isExact_one hone, hslice, bind_eq_ok,
        matchAll_eq_ok,
        Except.ok.injEq, inOrder_exact hone, hdrop, hrest]
      constructor
      · rintro ⟨_, rfl, _, ⟨haccepts, rfl⟩, others, hothers, rfl⟩
        refine ⟨_,
          ⟨_, _, others, rfl, haccepts _ (List.mem_singleton_self _),
            hothers, rfl⟩, ?_⟩
        simp [Nat.add_assoc, Nat.add_comm 1]
      · rintro ⟨_, ⟨_, _, others, heq, haccepts, hothers, rfl⟩, rfl⟩
        cases heq
        refine ⟨_, rfl, _, ⟨?_, rfl⟩, others, hothers, ?_⟩
        · intro arg harg
          rw [List.mem_singleton.1 harg]
          exact haccepts
        · simp [Nat.add_assoc, Nat.add_comm 1]

/-! ## The partition of the patterns -/

/-- Patterns are split at the first one that takes a variable number of
arguments. -/
theorem exact_or_split (patterns : List ArgMatcher) :
    Exact patterns ∨ ∃ before vararg after,
      patterns = before ++ vararg :: after ∧
      Exact before ∧ vararg.cardinality ≠ .one := by
  induction patterns with
  | nil => exact .inl fun _ h => (by cases h)
  | cons pattern patterns ih =>
      by_cases hone : pattern.cardinality = .one
      · have hcons : ∀ {others : List ArgMatcher}, Exact others →
            Exact (pattern :: others) :=
          fun h => List.forall_mem_cons.2 ⟨hone, h⟩
        rcases ih with hexact | ⟨before, vararg, after, rfl, hexact, hmany⟩
        · exact .inl (hcons hexact)
        · exact .inr ⟨pattern :: before, vararg, after, rfl,
            hcons hexact, hmany⟩
      · exact .inr ⟨[], pattern, patterns, rfl, fun _ h => (by cases h), hone⟩

theorem filter_exact {patterns : List ArgMatcher} (h : Exact patterns) :
    (patterns.filter fun pattern => pattern.cardinality ≠ .one) = [] := by
  rw [List.filter_eq_nil_iff]
  intro pattern hpattern
  simp [h pattern hpattern]

theorem atMostOneVararg_exact {patterns : List ArgMatcher}
    (h : Exact patterns) :
    AtMostOneVararg patterns := by
  rw [AtMostOneVararg, filter_exact h]
  exact Nat.zero_le 1

/-- Behind a vararg pattern there is room for patterns of cardinality one
only. -/
theorem atMostOneVararg_split {before after : List ArgMatcher}
    {vararg : ArgMatcher}
    (hbefore : Exact before) (hmany : vararg.cardinality ≠ .one) :
    AtMostOneVararg (before ++ vararg :: after) ↔ Exact after := by
  have hkeep : decide (vararg.cardinality ≠ .one) = true := decide_eq_true hmany
  rw [AtMostOneVararg, List.filter_append, filter_exact hbefore,
    List.nil_append,
    List.filter_cons, if_pos hkeep, List.length_cons]
  constructor
  · intro h pattern hpattern
    have hnil : (after.filter fun pattern => pattern.cardinality ≠ .one) = [] :=
      List.eq_nil_of_length_eq_zero (by omega)
    have hnot := List.filter_eq_nil_iff.1 hnil pattern hpattern
    simpa using hnot
  · intro h
    rw [filter_exact h]
    exact Nat.le_refl 1

theorem partitionFrom_before (program : Text) (parts : PartitionedArgs)
    {before : List ArgMatcher} (h : Exact before) (rest : List ArgMatcher) :
    partitionFrom program true parts (before ++ rest) =
      partitionFrom program true
        { parts with
          prefixPatterns := parts.prefixPatterns ++ before
          numPrefixArgs := parts.numPrefixArgs + before.length } rest := by
  induction before generalizing parts with
  | nil => simp
  | cons pattern before ih =>
      have hone := h pattern (List.mem_cons_self ..)
      rw [List.cons_append, partitionFrom]
      simp only [isExact_one hone, if_true]
      rw [ih _ h.tail]
      simp [Nat.add_assoc, Nat.add_comm 1]

/-- Patterns behind the vararg pattern are collected as the suffix. -/
theorem partitionFrom_after (program : Text) (parts : PartitionedArgs)
    {after : List ArgMatcher} (h : Exact after) (rest : List ArgMatcher) :
    partitionFrom program false parts (after ++ rest) =
      partitionFrom program false
        { parts with
          suffixPatterns := parts.suffixPatterns ++ after
          numSuffixArgs := parts.numSuffixArgs + after.length } rest := by
  induction after generalizing parts with
  | nil => simp
  | cons pattern after ih =>
      have hone := h pattern (List.mem_cons_self ..)
      rw [List.cons_append, partitionFrom]
      simp only [isExact_one hone, Bool.false_eq_true, if_false]
      rw [ih _ h.tail]
      simp [Nat.add_assoc, Nat.add_comm 1]

theorem partitionArgs_exact (program : Text) {patterns : List ArgMatcher}
    (h : Exact patterns) :
    partitionArgs program patterns =
      .ok { prefixPatterns := patterns, numPrefixArgs := patterns.length } := by
  have hpartition := partitionFrom_before program {} h []
  rw [List.append_nil] at hpartition
  rw [partitionArgs, hpartition]
  simp [partitionFrom]

/-- What comes behind the vararg pattern decides. -/
theorem partitionArgs_split (program : Text) {before : List ArgMatcher}
    {vararg : ArgMatcher}
    (hbefore : Exact before) (hmany : vararg.cardinality ≠ .one)
    (after : List ArgMatcher) :
    partitionArgs program (before ++ vararg :: after) =
      partitionFrom program false
        { prefixPatterns := before, numPrefixArgs := before.length
          varargPattern := some vararg } after := by
  rw [partitionArgs, partitionFrom_before program {} hbefore, partitionFrom]
  simp [isExact_none hmany]

theorem partitionArgs_vararg (program : Text) {before after : List ArgMatcher}
    {vararg : ArgMatcher} (hbefore : Exact before)
    (hmany : vararg.cardinality ≠ .one)
    (hafter : Exact after) :
    partitionArgs program (before ++ vararg :: after) =
      .ok { prefixPatterns := before, numPrefixArgs := before.length
            suffixPatterns := after, numSuffixArgs := after.length
            varargPattern := some vararg } := by
  have hpartition := partitionFrom_after program
    { prefixPatterns := before, numPrefixArgs := before.length,
      varargPattern := some vararg }
    hafter []
  rw [List.append_nil] at hpartition
  rw [partitionArgs_split program hbefore hmany, hpartition]
  simp [partitionFrom]

theorem partitionArgs_two (program : Text) {before after : List ArgMatcher}
    {vararg : ArgMatcher} (hbefore : Exact before)
    (hmany : vararg.cardinality ≠ .one)
    (hafter : ¬ Exact after) :
    ∃ second, partitionArgs program (before ++ vararg :: after) =
      fail (.multipleVarargPatterns program vararg second) := by
  rcases exact_or_split after with
    hexact | ⟨between, second, rest, rfl, hbetween, hsecond⟩
  · exact absurd hexact hafter
  · refine ⟨second, ?_⟩
    rw [partitionArgs_split program hbefore hmany,
      partitionFrom_after program _ hbetween,
      partitionFrom]
    simp [isExact_none hsecond]

/-! ## The resolver -/

theorem ite_fail_eq_ok {α : Type} {p : Prop} [Decidable p] {e : Error}
    {x : Checked α} {a : α} :
    (if p then fail e else x) = .ok a ↔ ¬ p ∧ x = .ok a := by
  split
  next hp => exact ⟨fun h => (by cases h), fun h => absurd hp h.1⟩
  next hp => exact ⟨fun h => ⟨hp, h⟩, fun h => h.2⟩

theorem getRangeChecked_eq_ok {α : Type} {args range : List α}
    {start stop : Nat} :
    getRangeChecked args start stop = .ok range ↔
      start ≤ stop ∧ stop ≤ args.length ∧
        range = (args.drop start).take (stop - start) := by
  rw [getRangeChecked, ite_fail_eq_ok, ite_fail_eq_ok, Nat.not_lt, Nat.not_lt]
  refine and_congr_right fun hle => and_congr_right fun hstop => ?_
  rw [slice_eq hle hstop, Except.ok.injEq, eq_comm]

/-- The patterns behind the vararg pattern take the last arguments. -/
theorem matchSuffix_eq_ok {program : Text} {args : List PositionalArg}
    {acc result : List MatchedArg} {patterns : List ArgMatcher}
    (hexact : Exact patterns)
    {start : Nat} (hstart : start + patterns.length = args.length)
    (hacc : acc.length ≤ start) :
    matchSuffix program args acc patterns start = .ok result ↔
      acc.length = start ∧ ∃ matched,
        InOrder patterns (args.drop start) matched ∧
        result = acc ++ matched := by
  have htrailing : ((args.drop start).take (args.length - start)).length =
      0 + patterns.length := by
    rw [List.length_take, List.length_drop]
    omega
  have htake :
      (args.drop start).take (args.length - start) = args.drop start := by
    rw [← List.length_drop, List.take_length]
  have hpos : start ≤ args.length := by omega
  have hmatch := @matchExact_eq_ok patterns hexact _ 0 htrailing acc
  rw [List.drop_zero, htake] at hmatch
  simp only [matchSuffix, bind_eq_ok, getRangeChecked_eq_ok]
  constructor
  · rintro ⟨_, ⟨-, -, rfl⟩, found, hfound, hresult⟩
    rw [htake, hmatch] at hfound
    obtain ⟨matched, hmatched, rfl⟩ := hfound
    have hlength := (hmatched.length_of_exact hexact).2
    by_cases hshort : (acc ++ matched).length < args.length
    · rw [if_pos hshort, bind_eq_ok] at hresult
      obtain ⟨_, -, hfail⟩ := hresult
      cases hfail
    · rw [if_neg hshort] at hresult
      cases hresult
      rw [List.length_append] at hshort
      exact ⟨by omega, matched, hmatched, rfl⟩
  · rintro ⟨hacc, matched, hmatched, rfl⟩
    have hlength := (hmatched.length_of_exact hexact).2
    have hfull : ¬ (acc ++ matched).length < args.length := by
      rw [List.length_append]
      omega
    refine ⟨_, ⟨hpos, Nat.le_refl _, rfl⟩,
      (acc ++ matched, 0 + patterns.length), ?_, ?_⟩
    · rw [htake, hmatch]
      exact ⟨matched, hmatched, rfl⟩
    · rw [if_neg hfull]
      rfl

end CodeRs.ExecPolicy
