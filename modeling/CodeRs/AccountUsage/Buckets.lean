import CodeRs.AccountUsage.Data
import CodeRs.Lib.Lists
import Mathlib.Algebra.BigOperators.Group.List.Basic

/-!
# Buckets

Adding tokens to buckets that are in the order of their periods keeps the
order, and the buckets then hold so much more, as long as no counter saturates.
-/

namespace CodeRs.AccountUsage

/-! ## Components -/

/-- The five counters of `TokenTotals` and `TokenUsage`. -/
inductive TokenComponent where
  | inputTokens
  | cachedInputTokens
  | outputTokens
  | reasoningOutputTokens
  | totalTokens
  deriving DecidableEq

/-- A counter of totals, as a number. -/
def TokenTotals.amount (component : TokenComponent)
    (totals : TokenTotals) : ℕ :=
  match component with
  | .inputTokens => totals.inputTokens.val
  | .cachedInputTokens => totals.cachedInputTokens.val
  | .outputTokens => totals.outputTokens.val
  | .reasoningOutputTokens => totals.reasoningOutputTokens.val
  | .totalTokens => totals.totalTokens.val

/-- A counter of a usage, as a number. -/
def TokenUsage.amount (component : TokenComponent) (usage : TokenUsage) : ℕ :=
  match component with
  | .inputTokens => usage.inputTokens.val
  | .cachedInputTokens => usage.cachedInputTokens.val
  | .outputTokens => usage.outputTokens.val
  | .reasoningOutputTokens => usage.reasoningOutputTokens.val
  | .totalTokens => usage.totalTokens.val

variable (component : TokenComponent)

/-- The sum of a counter over some totals. -/
def amountOf (tokens : List TokenTotals) : ℕ :=
  (tokens.map (·.amount component)).sum

variable {component}

theorem TokenTotals.amount_add {a b : TokenTotals}
    (h : a.amount component + b.amount component ≤ u64Max) :
    (a + b).amount component = a.amount component + b.amount component := by
  cases component <;> exact satAdd_eq h

@[simp] theorem TokenTotals.amount_zero :
    (0 : TokenTotals).amount component = 0 := by
  cases component <;> rfl

theorem TokenTotals.amount_fromUsage (usage : TokenUsage) :
    (fromUsage usage).amount component = usage.amount component := by
  cases component with
  | inputTokens => exact congrArg U64.val (zero_add usage.inputTokens)
  | cachedInputTokens =>
      exact congrArg U64.val (zero_add usage.cachedInputTokens)
  | outputTokens => exact congrArg U64.val (zero_add usage.outputTokens)
  | reasoningOutputTokens =>
      exact congrArg U64.val (zero_add usage.reasoningOutputTokens)
  | totalTokens => exact congrArg U64.val (zero_add usage.totalTokens)

@[simp] theorem amountOf_nil : amountOf component [] = 0 := rfl

@[simp] theorem amountOf_cons (tokens : TokenTotals) (rest : List TokenTotals) :
    amountOf component (tokens :: rest) =
      tokens.amount component + amountOf component rest :=
  List.sum_cons

@[simp] theorem amountOf_append (front back : List TokenTotals) :
    amountOf component (front ++ back) =
      amountOf component front + amountOf component back := by
  rw [amountOf, List.map_append, List.sum_append]
  rfl

/-- What a filter takes and what it leaves is everything. -/
theorem amountOf_filter {ε : Type*} (tokens : ε → TokenTotals) (p q : ε → Bool)
    (hq : ∀ e, q e = !p e) (entries : List ε) :
    amountOf component ((entries.filter p).map tokens) +
        amountOf component ((entries.filter q).map tokens) =
      amountOf component (entries.map tokens) := by
  induction entries with
  | nil => rfl
  | cons e rest ih =>
      rw [List.filter_cons, List.filter_cons, hq]
      cases p e with
      | true =>
          simp only [if_true, Bool.not_true, Bool.false_eq_true, if_false,
            List.map_cons,
            amountOf_cons]
          omega
      | false =>
          simp only [if_true, Bool.not_false, Bool.false_eq_true, if_false,
            List.map_cons,
            amountOf_cons]
          omega

/-! ## One bucket -/

variable {buckets : List AggregatedUsageEntry} {period : DateTime}
    {tokens : TokenTotals}

/-- Buckets in the order of their periods, without a period twice. -/
def InOrder (buckets : List AggregatedUsageEntry) : Prop :=
  buckets.Pairwise (·.periodStart < ·.periodStart)

/-- The sum of a counter over some buckets. -/
def bucketAmount (component : TokenComponent)
    (buckets : List AggregatedUsageEntry) : ℕ :=
  amountOf component (buckets.map (·.tokens))

/-- Buckets in order are those before a period and those behind it, with one of
the period between them or none. -/
theorem InOrder.split (h : InOrder buckets) (period : DateTime) :
    ∃ front back : List AggregatedUsageEntry,
      (∀ entry ∈ front, entry.periodStart < period) ∧
      (∀ entry ∈ back, period < entry.periodStart) ∧
      (buckets = front ++ back ∨
        ∃ entry, entry.periodStart = period ∧
          buckets = front ++ entry :: back) := by
  induction buckets with
  | nil => exact ⟨[], [], by simp, by simp, Or.inl rfl⟩
  | cons entry rest ih =>
      obtain ⟨hentry, hrest⟩ := List.pairwise_cons.1 h
      rcases lt_trichotomy entry.periodStart period with hlt | heq | hgt
      · obtain ⟨front, back, hfront, hback, hsplit⟩ := ih hrest
        refine ⟨entry :: front, back, List.forall_mem_cons.2 ⟨hlt, hfront⟩,
          hback, ?_⟩
        rcases hsplit with rfl | ⟨found, hfound, rfl⟩
        · exact Or.inl rfl
        · exact Or.inr ⟨found, hfound, rfl⟩
      · exact ⟨[], rest, by simp, fun other hother => heq ▸ hentry other hother,
          Or.inr ⟨entry, heq, rfl⟩⟩
      · refine ⟨[], entry :: rest, by simp, ?_, Or.inl rfl⟩
        exact List.forall_mem_cons.2 ⟨hgt,
          fun other hother => hgt.trans (hentry other hother)⟩

section Split

variable {front back : List AggregatedUsageEntry} {entry : AggregatedUsageEntry}
  (hfront : ∀ entry ∈ front, entry.periodStart < period)
  (hback : ∀ entry ∈ back, period < entry.periodStart)

include hfront

theorem addToRollover_found (hentry : entry.periodStart = period) :
    addToRollover period tokens (front ++ entry :: back) =
      front ++ { entry with tokens := entry.tokens + tokens } :: back := by
  induction front with
  | nil =>
      rw [List.nil_append, addToRollover,
        if_neg (not_lt.2 (le_of_eq hentry.symm)),
        if_pos hentry, List.nil_append]
  | cons first rest ih =>
      obtain ⟨hfirst, hrest⟩ := List.forall_mem_cons.1 hfront
      rw [List.cons_append, addToRollover, if_pos hfirst, ih hrest,
        List.cons_append]

include hback

theorem addToRollover_missing :
    addToRollover period tokens (front ++ back) =
      front ++ ⟨period, tokens⟩ :: back := by
  induction front with
  | nil =>
      cases back with
      | nil => rfl
      | cons next more =>
          have hnext := hback next List.mem_cons_self
          rw [List.nil_append, addToRollover,
            if_neg (not_lt.2 (le_of_lt hnext)),
            if_neg (ne_of_gt hnext), List.nil_append]
  | cons first rest ih =>
      obtain ⟨hfirst, hrest⟩ := List.forall_mem_cons.1 hfront
      rw [List.cons_append, addToRollover, if_pos hfirst, ih hrest,
        List.cons_append]

theorem addToBucket_found (hentry : entry.periodStart = period) :
    addToBucket period tokens (front ++ entry :: back) =
      front ++ { entry with tokens := entry.tokens + tokens } :: back := by
  have hsearch : binarySearchBy (fun entry => compare entry.periodStart period)
      (front ++ entry :: back) = .ok front.length :=
    binarySearchBy_found (fun e he => compare_lt_iff_lt.2 (hfront e he))
      (compare_eq_iff_eq.2 hentry)
      (fun e he => compare_gt_iff_gt.2 (hback e he))
  rw [addToBucket, hsearch]
  exact modify_append_cons front back entry _

theorem addToBucket_missing :
    addToBucket period tokens (front ++ back) =
      front ++ ⟨period, tokens⟩ :: back := by
  have hsearch : binarySearchBy (fun entry => compare entry.periodStart period)
      (front ++ back) = .error front.length :=
    binarySearchBy_missing (fun e he => compare_lt_iff_lt.2 (hfront e he))
      (fun e he => compare_gt_iff_gt.2 (hback e he))
  rw [addToBucket, hsearch]
  exact insertIdx_append_length front back _

end Split

/-- On buckets in order the binary search adds where a map does. -/
theorem addToBucket_eq (h : InOrder buckets) :
    addToBucket period tokens buckets =
      addToRollover period tokens buckets := by
  obtain ⟨front, back, hfront, hback, rfl | ⟨entry, hentry, rfl⟩⟩ :=
    h.split period
  · rw [addToBucket_missing hfront hback, addToRollover_missing hfront hback]
  · rw [addToBucket_found hfront hback hentry,
      addToRollover_found hfront hentry]

theorem InOrder.addToRollover (h : InOrder buckets) :
    InOrder (addToRollover period tokens buckets) := by
  obtain ⟨front, back, hfront, hback, rfl | ⟨entry, hentry, rfl⟩⟩ :=
    h.split period
  · rw [addToRollover_missing hfront hback]
    obtain ⟨hfirst, hlast, hcross⟩ := List.pairwise_append.1 h
    refine List.pairwise_append.2 ⟨hfirst,
      List.pairwise_cons.2 ⟨hback, hlast⟩, ?_⟩
    intro e he other hother
    rcases List.mem_cons.1 hother with rfl | hother
    · exact hfront e he
    · exact hcross e he other hother
  · rw [addToRollover_found hfront hentry]
    obtain ⟨hfirst, hlast, hcross⟩ := List.pairwise_append.1 h
    obtain ⟨hbehind, hlast⟩ := List.pairwise_cons.1 hlast
    refine List.pairwise_append.2 ⟨hfirst,
      List.pairwise_cons.2 ⟨hbehind, hlast⟩, ?_⟩
    intro e he other hother
    rcases List.mem_cons.1 hother with rfl | hother
    · exact hcross e he entry List.mem_cons_self
    · exact hcross e he other (List.mem_cons_of_mem _ hother)

theorem bucketAmount_addToRollover
    (h : bucketAmount component buckets + tokens.amount component ≤ u64Max) :
    bucketAmount component (addToRollover period tokens buckets) =
      bucketAmount component buckets + tokens.amount component := by
  induction buckets with
  | nil => simp [addToRollover, bucketAmount]
  | cons entry rest ih =>
      simp only [bucketAmount, List.map_cons, amountOf_cons] at h ih ⊢
      rw [CodeRs.AccountUsage.addToRollover]
      split
      · rw [List.map_cons, amountOf_cons, ih (by omega)]
        omega
      · split
        · rw [List.map_cons, amountOf_cons, TokenTotals.amount_add (by omega)]
          omega
        · rw [List.map_cons, List.map_cons, amountOf_cons, amountOf_cons]
          simp only
          omega

/-! ## Some buckets -/

variable {entries : List AggregatedUsageEntry} {periodOf : DateTime → DateTime}

theorem InOrder.nil : InOrder [] := List.Pairwise.nil

theorem InOrder.filter (h : InOrder buckets) (p : AggregatedUsageEntry → Bool) :
    InOrder (buckets.filter p) :=
  h.sublist List.filter_sublist

theorem InOrder.sortBuckets (h : InOrder buckets) :
    sortBuckets buckets = buckets := by
  refine List.mergeSort_of_pairwise (h.imp ?_)
  intro a b hlt
  exact decide_eq_true (le_of_lt hlt)

theorem InOrder.addToBucket (h : InOrder buckets) :
    InOrder (addToBucket period tokens buckets) := by
  rw [addToBucket_eq h]
  exact h.addToRollover

theorem addAll_cons (entry : AggregatedUsageEntry)
    (rest : List AggregatedUsageEntry) :
    addAll periodOf (entry :: rest) buckets =
      addAll periodOf rest
        (addToBucket (periodOf entry.periodStart) entry.tokens buckets) :=
  rfl

theorem InOrder.addAll (h : InOrder buckets) (periodOf : DateTime → DateTime)
    (entries : List AggregatedUsageEntry) :
    InOrder (addAll periodOf entries buckets) := by
  induction entries generalizing buckets with
  | nil => exact h
  | cons entry rest ih => exact ih h.addToBucket

theorem bucketAmount_addAll (h : InOrder buckets)
    (hmax : bucketAmount component buckets + bucketAmount component entries ≤
      u64Max) :
    bucketAmount component (addAll periodOf entries buckets) =
      bucketAmount component buckets + bucketAmount component entries := by
  induction entries generalizing buckets with
  | nil => rfl
  | cons entry rest ih =>
      have hcons : bucketAmount component (entry :: rest) =
        entry.tokens.amount component + bucketAmount component rest :=
        amountOf_cons _ _
      have hadd : bucketAmount component
          (addToBucket (periodOf entry.periodStart) entry.tokens buckets) =
            bucketAmount component buckets + entry.tokens.amount component := by
        rw [addToBucket_eq h]
        exact bucketAmount_addToRollover (by omega)
      rw [addAll_cons, ih h.addToBucket (by omega), hadd, hcons]
      omega

/-- A map is filled as buckets are that are still empty. -/
theorem rollUp_eq (periodOf : DateTime → DateTime)
    (entries : List AggregatedUsageEntry) :
    rollUp periodOf entries = addAll periodOf entries [] := by
  have hfold : ∀ buckets, InOrder buckets → entries.foldl
      (fun rollover entry =>
        addToRollover (periodOf entry.periodStart) entry.tokens rollover)
      buckets = addAll periodOf entries buckets := by
    induction entries with
    | nil => exact fun _ _ => rfl
    | cons entry rest ih =>
        intro buckets h
        rw [List.foldl_cons, addAll_cons, addToBucket_eq h]
        exact ih _ h.addToRollover
  exact hfold [] .nil

theorem bucketAmount_rollUp (hmax : bucketAmount component entries ≤ u64Max) :
    bucketAmount component (rollUp periodOf entries) =
      bucketAmount component entries := by
  have hnil : bucketAmount component [] = 0 := rfl
  rw [rollUp_eq, bucketAmount_addAll .nil (by omega), hnil, Nat.zero_add]

end CodeRs.AccountUsage
