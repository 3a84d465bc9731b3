import CodeRs.ExecPolicy.Matching

/-!
# The resolver

The resolver returns exactly the matches in order, if there is at most one
vararg pattern, and none of its slices is out of bounds.
-/

namespace CodeRs.ExecPolicy

/-! ## The partition -/

/-- A partition of patterns at the one vararg pattern, if there is one. -/
structure PartitionedArgs.Of (patterns : List ArgMatcher)
    (parts : PartitionedArgs) :
    Prop where
  split : patterns =
    parts.prefixPatterns ++ (parts.varargPattern.toList ++ parts.suffixPatterns)
  exact_prefix : Exact parts.prefixPatterns
  exact_suffix : Exact parts.suffixPatterns
  numPrefixArgs_eq : parts.numPrefixArgs = parts.prefixPatterns.length
  numSuffixArgs_eq : parts.numSuffixArgs = parts.suffixPatterns.length
  cardinality_ne : ∀ pattern, parts.varargPattern = some pattern →
    pattern.cardinality ≠ .one
  suffix_nil : parts.varargPattern = none → parts.suffixPatterns = []

theorem partitionArgs_of (program : Text) {patterns : List ArgMatcher}
    (h : AtMostOneVararg patterns) :
    ∃ parts, partitionArgs program patterns = .ok parts ∧
      parts.Of patterns := by
  rcases exact_or_split patterns with
    hexact | ⟨before, vararg, after, rfl, hbefore, hmany⟩
  · refine ⟨_, partitionArgs_exact program hexact, ?_⟩
    exact
      { split := (List.append_nil _).symm
        exact_prefix := hexact
        exact_suffix := fun _ hpattern => (by cases hpattern)
        numPrefixArgs_eq := rfl
        numSuffixArgs_eq := rfl
        cardinality_ne := fun _ hsome => (by cases hsome)
        suffix_nil := fun _ => rfl }
  · have hafter := (atMostOneVararg_split hbefore hmany).1 h
    refine ⟨_, partitionArgs_vararg program hbefore hmany hafter, ?_⟩
    exact
      { split := rfl
        exact_prefix := hbefore
        exact_suffix := hafter
        numPrefixArgs_eq := rfl
        numSuffixArgs_eq := rfl
        cardinality_ne := fun pattern hsome => Option.some.inj hsome ▸ hmany
        suffix_nil := fun hnone => (by cases hnone) }

theorem partitionArgs_fail (program : Text) {patterns : List ArgMatcher}
    (h : ¬ AtMostOneVararg patterns) :
    ∃ e, partitionArgs program patterns = fail e := by
  rcases exact_or_split patterns with
    hexact | ⟨before, vararg, after, rfl, hbefore, hmany⟩
  · exact absurd (atMostOneVararg_exact hexact) h
  · rw [atMostOneVararg_split hbefore hmany] at h
    obtain ⟨second, hfail⟩ := partitionArgs_two program hbefore hmany h
    exact ⟨_, hfail⟩

/-! ## The middle -/

theorem matchMiddle_some_eq_ok {program : Text} {pattern : ArgMatcher}
    (hmany : pattern.cardinality ≠ .one) {args : List PositionalArg}
    {start stop : Nat}
    (hle : start ≤ stop) (hstop : stop ≤ args.length)
    {matched : List MatchedArg} :
    matchMiddle program (some pattern) args start stop = .ok matched ↔
      (pattern.cardinality = .atLeastOne →
        (args.drop start).take (stop - start) ≠ []) ∧
        (∀ arg ∈ (args.drop start).take (stop - start),
          pattern.argType.Accepts arg.value) ∧
          matched =
            ((args.drop start).take (stop - start)).map pattern.matchedArg := by
  simp only [matchMiddle, bind_eq_ok, getRangeChecked_eq_ok,
    matchVararg_eq_ok hmany]
  constructor
  · rintro ⟨_, ⟨-, -, rfl⟩, h⟩
    exact h
  · exact fun h => ⟨_, ⟨hle, hstop, rfl⟩, h⟩

/-- A vararg pattern takes what the patterns behind it leave. -/
theorem inOrder_vararg {pattern : ArgMatcher} {patterns : List ArgMatcher}
    (hmany : pattern.cardinality ≠ .one) (hexact : Exact patterns)
    {args : List PositionalArg} {matched : List MatchedArg} :
    InOrder (pattern :: patterns) args matched ↔
      ∃ block rest others, args = block ++ rest ∧
        rest.length = patterns.length ∧
        (pattern.cardinality = .atLeastOne → block ≠ []) ∧
          (∀ arg ∈ block, pattern.argType.Accepts arg.value) ∧
            InOrder patterns rest others ∧
            matched = block.map pattern.matchedArg ++ others := by
  constructor
  · intro h
    cases h with
    | exact hone => exact absurd hone hmany
    | vararg _ hne haccepts h =>
        exact ⟨_, _, _, rfl, (h.length_of_exact hexact).1, hne,
          haccepts, h, rfl⟩
  · rintro ⟨block, rest, others, rfl, -, hne, haccepts, h, rfl⟩
    exact .vararg hmany hne haccepts h

theorem matchMiddle_length_le {program : Text}
    {varargPattern : Option ArgMatcher}
    (hmany : ∀ pattern, varargPattern = some pattern →
      pattern.cardinality ≠ .one)
    {args : List PositionalArg} {start stop : Nat} (hle : start ≤ stop)
    (hstop : stop ≤ args.length) {matched : List MatchedArg}
    (h : matchMiddle program varargPattern args start stop = .ok matched) :
    matched.length ≤ stop - start := by
  cases varargPattern with
  | none =>
      cases h
      exact Nat.zero_le _
  | some pattern =>
      rw [matchMiddle_some_eq_ok (hmany pattern rfl) hle hstop] at h
      rw [h.2.2, List.length_map]
      exact List.length_take_le _ _

/-! ## The three parts -/

/-- Arguments that are matched with the three parts of a partition. -/
def PartitionedArgs.Matches (parts : PartitionedArgs) (program : Text)
    (args : List PositionalArg) (matched : List MatchedArg) : Prop :=
  parts.prefixPatterns.length + parts.suffixPatterns.length ≤ args.length ∧
    ∃ before middle after,
      InOrder parts.prefixPatterns (args.take parts.prefixPatterns.length)
        before ∧
      matchMiddle program parts.varargPattern args parts.prefixPatterns.length
        (args.length - parts.suffixPatterns.length) = .ok middle ∧
      parts.prefixPatterns.length + middle.length =
        args.length - parts.suffixPatterns.length ∧
      InOrder parts.suffixPatterns
        (args.drop (args.length - parts.suffixPatterns.length)) after ∧
      matched = before ++ middle ++ after

theorem resolve_parts {program : Text} {patterns : List ArgMatcher}
    {parts : PartitionedArgs}
    (hparts : partitionArgs program patterns = .ok parts)
    (hof : parts.Of patterns)
    {args : List PositionalArg} {matched : List MatchedArg} :
    resolveObservedArgsWithPatterns program args patterns = .ok matched ↔
      parts.Matches program args matched := by
  have hleading : ∀ range,
      getRangeChecked args 0 parts.numPrefixArgs = .ok range ↔
      parts.prefixPatterns.length ≤ args.length ∧
        range = args.take parts.prefixPatterns.length := by
    intro range
    rw [getRangeChecked_eq_ok, hof.numPrefixArgs_eq]
    simp
  have hbeginning (hlength : parts.prefixPatterns.length ≤ args.length) :
      (args.take parts.prefixPatterns.length).length =
        0 + parts.prefixPatterns.length := by
    rw [List.length_take]
    omega
  rw [resolveObservedArgsWithPatterns, PartitionedArgs.Matches]
  simp only [hparts, bind_eq_ok, hleading, ite_fail_eq_ok, hof.numSuffixArgs_eq,
    Except.ok.injEq,
    exists_eq_left', Nat.not_lt]
  constructor
  · rintro ⟨_, ⟨hlength, rfl⟩, ⟨found, index⟩, hfound, hsuffix, hoverlap,
      middle, hmiddle, hrest⟩
    rw [matchExact_eq_ok hof.exact_prefix (hbeginning hlength)] at hfound
    obtain ⟨before, hbefore, heq⟩ := hfound
    rw [Nat.zero_add] at heq
    cases heq
    dsimp only at hoverlap hmiddle hrest
    have hmiddleLength :=
      matchMiddle_length_le hof.cardinality_ne hoverlap (Nat.sub_le _ _) hmiddle
    have hbeforeLength := (hbefore.length_of_exact hof.exact_prefix).2
    rw [matchSuffix_eq_ok hof.exact_suffix (Nat.sub_add_cancel hsuffix)
      (by rw [List.nil_append, List.length_append]; omega)] at hrest
    obtain ⟨hfull, after, hafter, rfl⟩ := hrest
    rw [List.nil_append, List.length_append, hbeforeLength] at hfull
    exact ⟨by
      omega, before, middle, after, hbefore, hmiddle, hfull, hafter, rfl⟩
  · rintro ⟨hlength, before, middle, after, hbefore, hmiddle,
      hfull, hafter, rfl⟩
    have hbeforeLength := (hbefore.length_of_exact hof.exact_prefix).2
    have hacc : (before ++ middle).length =
        args.length - parts.suffixPatterns.length := by
      rw [List.length_append, hbeforeLength, hfull]
    refine ⟨_, ⟨by omega, rfl⟩, (before, parts.prefixPatterns.length), ?_,
      by omega, by omega,
      middle, hmiddle, ?_⟩
    · rw [matchExact_eq_ok hof.exact_prefix (hbeginning (by omega))]
      exact ⟨before, hbefore, by rw [List.nil_append, Nat.zero_add]⟩
    · rw [matchSuffix_eq_ok hof.exact_suffix (Nat.sub_add_cancel (by omega))
        (Nat.le_of_eq hacc)]
      exact ⟨hacc, after, hafter, rfl⟩

/-- Without a vararg pattern every argument goes to the prefix. -/
theorem inOrder_parts_none {program : Text} {patterns : List ArgMatcher}
    {parts : PartitionedArgs} (hof : parts.Of patterns)
    (hnone : parts.varargPattern = none)
    {args : List PositionalArg} {matched : List MatchedArg} :
    InOrder patterns args matched ↔ parts.Matches program args matched := by
  have hsplit : patterns = parts.prefixPatterns ++ [] := by
    rw [hof.split, hnone, hof.suffix_nil hnone]
    rfl
  rw [PartitionedArgs.Matches, hnone, hof.suffix_nil hnone, List.length_nil,
    Nat.sub_zero, Nat.add_zero, List.drop_length]
  constructor
  · intro h
    rw [hsplit] at h
    have hlength : args.length = parts.prefixPatterns.length :=
      List.append_nil parts.prefixPatterns ▸
        (h.length_of_exact (by rw [List.append_nil]; exact hof.exact_prefix)).1
    obtain ⟨before, after, hbefore, hafter, rfl⟩ :=
      (inOrder_append hof.exact_prefix).1 h
    rw [List.drop_eq_nil_of_le (Nat.le_of_eq hlength)] at hafter
    cases hafter
    exact ⟨Nat.le_of_eq hlength.symm, before, [], [], hbefore, rfl,
      hlength.symm, .nil,
      by simp⟩
  · rintro ⟨-, before, middle, after, hbefore, hmiddle, hfull, hafter, rfl⟩
    cases hmiddle
    cases hafter
    have hlength : parts.prefixPatterns.length = args.length := hfull
    rw [hlength, List.take_length] at hbefore
    rw [hsplit, List.append_nil, List.append_nil, List.append_nil]
    exact hbefore

/-- What is between the first elements of a list and its last ones. -/
theorem drop_middle {α : Type} {l block rest : List α} {m : Nat}
    (hm : m ≤ l.length)
    (h : l.drop m = block ++ rest) :
    (l.drop m).take (l.length - rest.length - m) = block ∧
      l.drop (l.length - rest.length) = rest := by
  have hlength := congrArg List.length h
  rw [List.length_drop, List.length_append] at hlength
  constructor
  · have hblock : l.length - rest.length - m = block.length := by omega
    rw [h, hblock, List.take_left]
  · have hindex : l.length - rest.length = m + block.length := by omega
    rw [hindex, ← List.drop_drop, h, List.drop_left]

/-- A vararg pattern takes what the prefix and the suffix leave. -/
theorem inOrder_parts_some {program : Text} {patterns : List ArgMatcher}
    {parts : PartitionedArgs} (hof : parts.Of patterns) {pattern : ArgMatcher}
    (hsome : parts.varargPattern = some pattern)
    {args : List PositionalArg} {matched : List MatchedArg} :
    InOrder patterns args matched ↔ parts.Matches program args matched := by
  have hsplit :
      patterns = parts.prefixPatterns ++ (pattern :: parts.suffixPatterns) := by
    rw [hof.split, hsome]
    rfl
  have hmany := hof.cardinality_ne pattern hsome
  rw [PartitionedArgs.Matches, hsome, hsplit, inOrder_append hof.exact_prefix]
  constructor
  · rintro ⟨before, others, hbefore, hothers, rfl⟩
    obtain ⟨block, rest, after, hdrop, hrest, hne, haccepts, hafter, rfl⟩ :=
      (inOrder_vararg hmany hof.exact_suffix).1 hothers
    have hbeforeLength := (hbefore.length_of_exact hof.exact_prefix).1
    rw [List.length_take] at hbeforeLength
    obtain ⟨hblock, hrestEq⟩ := drop_middle (by omega) hdrop
    have hlength := congrArg List.length hdrop
    rw [List.length_drop, List.length_append] at hlength
    rw [hrest] at hblock hrestEq hlength
    refine ⟨by
      omega, before, block.map pattern.matchedArg, after, hbefore,
        ?_, ?_, ?_, ?_⟩
    · rw [matchMiddle_some_eq_ok hmany (by omega) (Nat.sub_le _ _), hblock]
      exact ⟨hne, haccepts, rfl⟩
    · rw [List.length_map]
      omega
    · rw [hrestEq]
      exact hafter
    · rw [List.append_assoc]
  · rintro ⟨hlength, before, middle, after, hbefore, hmiddle,
      hfull, hafter, rfl⟩
    rw [matchMiddle_some_eq_ok hmany (by omega) (Nat.sub_le _ _)] at hmiddle
    obtain ⟨hne, haccepts, rfl⟩ := hmiddle
    refine ⟨before, _, hbefore, (inOrder_vararg hmany hof.exact_suffix).2
      ⟨_, _, after, ?_, ?_, hne, haccepts, hafter, rfl⟩,
        List.append_assoc _ _ _⟩
    · have hindex : args.length - parts.suffixPatterns.length =
          parts.prefixPatterns.length +
            (args.length - parts.suffixPatterns.length -
              parts.prefixPatterns.length) := by
        omega
      rw [hindex, ← List.drop_drop, Nat.add_sub_cancel_left,
        List.take_append_drop]
    · rw [List.length_drop]
      omega

/-- The resolver returns the matches in order, if at most one pattern takes a
variable number of arguments. -/
theorem resolve_eq_ok {program : Text} {args : List PositionalArg}
    {patterns : List ArgMatcher}
    {matched : List MatchedArg} :
    resolveObservedArgsWithPatterns program args patterns = .ok matched ↔
      AtMostOneVararg patterns ∧ InOrder patterns args matched := by
  by_cases h : AtMostOneVararg patterns
  · obtain ⟨parts, hparts, hof⟩ := partitionArgs_of program h
    rw [and_iff_right h, resolve_parts hparts hof]
    cases hvararg : parts.varargPattern with
    | none => exact (inOrder_parts_none hof hvararg).symm
    | some pattern => exact (inOrder_parts_some hof hvararg).symm
  · obtain ⟨e, hfail⟩ := partitionArgs_fail program h
    rw [resolveObservedArgsWithPatterns, hfail]
    exact ⟨fun hok => (by cases hok), fun hok => absurd hok.1 h⟩

/-! ## No panics -/

theorem fail_ne_panic {α : Type} (e : Error) :
    (fail e : Checked α) ≠ .error .panic :=
  fun h => (by cases h)

theorem new_ne_panic (index : Nat) (type : ArgType) (value : Text) :
    MatchedArg.new index type value ≠ .error .panic :=
  bind_ne_error (validate_ne_panic type value) fun _ _ h => (by cases h)

theorem matchAll_ne_panic (pattern : ArgMatcher) (args : List PositionalArg) :
    matchAll pattern args ≠ .error .panic := by
  induction args with
  | nil => exact fun h => (by cases h)
  | cons arg rest ih =>
      exact bind_ne_error (new_ne_panic _ _ _) fun _ _ =>
        bind_ne_error ih fun _ _ h => (by cases h)

theorem getRangeChecked_ne_panic {α : Type} (args : List α) (start stop : Nat) :
    getRangeChecked args start stop ≠ .error .panic := by
  rw [getRangeChecked]
  split
  next => exact fail_ne_panic _
  next hle =>
    split
    next => exact fail_ne_panic _
    next hstop =>
      rw [slice_eq (Nat.le_of_not_lt hle) (Nat.le_of_not_lt hstop)]
      exact fun h => (by cases h)

/-- There are enough arguments for patterns that take one each. -/
theorem matchExact_ne_panic {patterns : List ArgMatcher}
    (hexact : Exact patterns)
    {observed : List PositionalArg} {index : Nat}
    (hlength : index + patterns.length ≤ observed.length)
    (acc : List MatchedArg) :
    matchExact observed index acc patterns ≠ .error .panic := by
  induction patterns generalizing index acc with
  | nil => exact fun h => (by cases h)
  | cons pattern patterns ih =>
      rw [List.length_cons] at hlength
      have hone := hexact pattern (List.mem_cons_self ..)
      have hslice : slice observed index (index + 1) ≠ .error .panic := by
        rw [slice_eq (Nat.le_succ index) (by omega)]
        exact fun h => (by cases h)
      simp only [matchExact, isExact_one hone]
      exact bind_ne_error hslice fun _ _ =>
        bind_ne_error (matchAll_ne_panic _ _) fun _ _ =>
          ih hexact.tail (by omega) _

theorem matchMiddle_ne_panic (program : Text)
    (varargPattern : Option ArgMatcher)
    (args : List PositionalArg) (start stop : Nat) :
    matchMiddle program varargPattern args start stop ≠ .error .panic := by
  cases varargPattern with
  | none => exact fun h => (by cases h)
  | some pattern =>
      refine bind_ne_error (getRangeChecked_ne_panic _ _ _) fun vararg _ => ?_
      rw [matchVararg]
      split
      next => exact fail_ne_panic _
      next =>
        split
        next => exact fail_ne_panic _
        next => exact matchAll_ne_panic _ _
      next => exact matchAll_ne_panic _ _

theorem matchSuffix_ne_panic (program : Text) {args : List PositionalArg}
    (acc : List MatchedArg) {patterns : List ArgMatcher}
    (hexact : Exact patterns) {start : Nat}
    (hstart : start + patterns.length ≤ args.length) :
    matchSuffix program args acc patterns start ≠ .error .panic := by
  refine bind_ne_error (getRangeChecked_ne_panic _ _ _)
    fun trailing htrailing => ?_
  obtain ⟨-, -, rfl⟩ := getRangeChecked_eq_ok.1 htrailing
  refine bind_ne_error (matchExact_ne_panic hexact ?_ acc) fun found _ => ?_
  · rw [List.length_take, List.length_drop]
    omega
  · dsimp only
    split
    next => exact bind_ne_error (getRangeChecked_ne_panic _ _ _) fun _ _ =>
      fail_ne_panic _
    next => exact fun h => (by cases h)

theorem resolve_ne_panic (program : Text) (args : List PositionalArg)
    (patterns : List ArgMatcher) :
    resolveObservedArgsWithPatterns program args patterns ≠ .error .panic := by
  by_cases h : AtMostOneVararg patterns
  · obtain ⟨parts, hparts, hof⟩ := partitionArgs_of program h
    refine bind_ne_error (fun herror => ?_) fun parts' hparts' => ?_
    · rw [hparts] at herror
      cases herror
    rw [hparts] at hparts'
    cases hparts'
    refine bind_ne_error (getRangeChecked_ne_panic _ _ _)
      fun leading hleading => ?_
    obtain ⟨-, hlength, rfl⟩ := getRangeChecked_eq_ok.1 hleading
    rw [hof.numPrefixArgs_eq] at hlength
    refine bind_ne_error (matchExact_ne_panic hof.exact_prefix ?_ [])
      fun found _ => ?_
    · rw [hof.numPrefixArgs_eq, List.length_take, List.length_drop]
      omega
    · dsimp only
      rw [hof.numSuffixArgs_eq]
      split
      next => exact fail_ne_panic _
      next hsuffix =>
        split
        next => exact fail_ne_panic _
        next =>
          exact bind_ne_error (matchMiddle_ne_panic _ _ _ _ _) fun _ _ =>
            matchSuffix_ne_panic _ _ hof.exact_suffix (by omega)
  · obtain ⟨e, hfail⟩ := partitionArgs_fail program h
    rw [resolveObservedArgsWithPatterns, hfail]
    exact fail_ne_panic e

end CodeRs.ExecPolicy
