import CodeRs.Retention.Survivors

/-!
# What retention guarantees

Which items the owning function keeps whatever the byte budget is, and what its
counters say about the result.
-/

namespace CodeRs.Retention

open Protocol Eviction

variable {policy : RetentionPolicy} {items : List ResponseItem}

/-! ## Classes of kept items -/

/-- The items that the owning function keeps, with their positions. -/
def kept (policy : RetentionPolicy) (items : List ResponseItem) :
    List CategorizedItem :=
  withinBudget policy (survivors policy (categorize items))

theorem applyRetentionPolicyOwned_fst :
    (applyRetentionPolicyOwned items policy).1 =
      (kept policy items).map (·.item) := by
  rw [applyRetentionPolicyOwned_eq, kept]

theorem kept_sublist : (kept policy items).Sublist (categorize items) :=
  (withinBudget_sublist _).trans survivors_sublist

theorem filter_map_item {l : List CategorizedItem}
    (h : l.Sublist (categorize items))
    (p : ItemCategory → Bool) :
    (l.map (·.item)).filter (fun item => p (categorizeItem item)) =
      (l.filter fun item => p item.category).map (·.item) := by
  rw [List.filter_map]
  congr 1
  refine List.filter_congr fun item hitem => ?_
  rw [eq_new_of_mem_categorize (h.subset hitem)]
  rfl

theorem filter_items (p : ItemCategory → Bool) :
    items.filter (fun item => p (categorizeItem item)) =
      ((categorize items).filter fun item => p item.category).map (·.item) := by
  conv_lhs => rw [← map_item_categorize items]
  exact filter_map_item (List.Sublist.refl _) p

/-- On the walk from the newest survivor, every item that no longer fits in the
byte budget is of a category without `p`. -/
def BudgetSpares (p : ItemCategory → Bool) (policy : RetentionPolicy)
    (items : List ResponseItem) : Prop :=
  Spares satAdd (·.sizeBytes) policy.maxTotalBytes
    (fun item => p item.category) 0
    (survivors policy (categorize items)).reverse

instance (p : ItemCategory → Bool) : Decidable (BudgetSpares p policy items) :=
  decidableSpares _ _ _ _ _ _

/-- The budget spares some categories exactly when it drops none of their
items. -/
theorem budgetSpares_iff (p : ItemCategory → Bool) :
    BudgetSpares p policy items ↔
      (kept policy items).filter (fun item => p item.category) =
        (survivors policy (categorize items)).filter fun item =>
          p item.category := by
  rw [BudgetSpares, ← filter_greedy_eq_iff, kept, withinBudget,
    List.filter_reverse,
    List.filter_reverse, List.reverse_eq_iff]

theorem budgetSpares_iff_count (p : ItemCategory → Bool) :
    BudgetSpares p policy items ↔
      (kept policy items).countP (fun item => p item.category) =
        (survivors policy (categorize items)).countP fun item =>
          p item.category := by
  rw [budgetSpares_iff, List.countP_eq_length_filter,
    List.countP_eq_length_filter]
  constructor
  · intro h
    rw [h]
  · intro h
    exact ((withinBudget_sublist _).filter _).eq_of_length h

theorem count_kept_le (p : ItemCategory → Bool) :
    (kept policy items).countP (fun item => p item.category) ≤
      (survivors policy (categorize items)).countP fun item =>
        p item.category :=
  (withinBudget_sublist _).countP_le

/-! ## Items that are never dropped -/

/-- Real user messages, assistant messages, tool calls and their outputs. -/
def isMessage (category : ItemCategory) : Bool :=
  category = .realUserMessage ∨ category = .other

def isBaseline (category : ItemCategory) : Bool := category = .envBaseline

/-- The items that no pass may drop once pruning by count has kept them. -/
def isProtected (category : ItemCategory) : Bool :=
  isMessage category || isBaseline category

/-- Some items have the call of a tool with its output. -/
def HasPair (callId : String) (items : List ResponseItem) : Prop :=
  (∃ id name space arguments,
    .functionCall id name space arguments callId ∈ items) ∧
    ∃ output, .functionCallOutput callId output ∈ items

/-- What is promised of a result: every message, the latest baseline under
`keep_latest_baseline`, and both sides of every call. -/
structure RetainsProtected (policy : RetentionPolicy)
    (items out : List ResponseItem) :
    Prop where
  messages : out.filter (fun item => isMessage (categorizeItem item)) =
    items.filter fun item => isMessage (categorizeItem item)
  baseline : policy.keepLatestBaseline →
    out.filter (fun item => isBaseline (categorizeItem item)) =
      (items.filter
        fun item => isBaseline (categorizeItem item)).getLast?.toList
  pairs : ∀ callId, HasPair callId items → HasPair callId out

theorem isMessage_iff_queue (category : ItemCategory) :
    isMessage category = decide (category.queue = .other) := by
  cases category <;> rfl

theorem isBaseline_iff_queue (category : ItemCategory) :
    isBaseline category = decide (category.queue = .envBaseline) := by
  cases category <;> rfl

/-- Pruning by count keeps every message. -/
theorem messages_survivors (categorized : List CategorizedItem) :
    (survivors policy categorized).filter
      (fun item => isMessage item.category) =
      categorized.filter fun item => isMessage item.category := by
  simp only [isMessage_iff_queue]
  exact queued_survivors .other

theorem lastOf_one {α : Type} (l : List α) :
    lastOf (some 1) l = l.getLast?.toList := by
  obtain rfl | ⟨latest, hl, hlast⟩ := Owned.getLast?_cases l
  · rfl
  · rw [hlast, hl]
    simp [lastOf]

/-- Pruning by count keeps the latest baseline, or none. -/
theorem baselines_survivors (categorized : List CategorizedItem) :
    (survivors policy categorized).filter
      (fun item => isBaseline item.category) =
      if policy.keepLatestBaseline then
        (categorized.filter
          fun item => isBaseline item.category).getLast?.toList
      else [] := by
  simp only [isBaseline_iff_queue]
  refine (queued_survivors .envBaseline).trans ?_
  rw [keptOf]
  cases hkeep : policy.keepLatestBaseline with
  | true =>
      simp only [RetentionPolicy.limit, hkeep, if_true]
      exact lastOf_one _
  | false => simp [RetentionPolicy.limit, hkeep]

/-- Items of one of two kinds that exclude each other are counted separately. -/
theorem countP_either (p q : ItemCategory → Bool) (h : ∀ c, p c → q c = false)
    (l : List CategorizedItem) :
    l.countP (fun item => p item.category || q item.category) =
      l.countP (fun item => p item.category) + l.countP fun item =>
        q item.category := by
  induction l with
  | nil => rfl
  | cons item l ih =>
      simp only [List.countP_cons, ih]
      cases hp : p item.category with
      | true =>
          have hq := h _ hp
          simp only [hq, Bool.or_false, if_true]
          simp
          omega
      | false => simp [Nat.add_assoc]

theorem countP_isProtected (l : List CategorizedItem) :
    l.countP (fun item => isProtected item.category) =
      l.countP (fun item => isMessage item.category) +
        l.countP fun item => isBaseline item.category := by
  refine countP_either isMessage isBaseline (fun c hc => ?_) l
  cases c <;> simp_all [isMessage, isBaseline]

theorem budgetSpares_isProtected :
    BudgetSpares isProtected policy items ↔
      BudgetSpares isMessage policy items ∧
        BudgetSpares isBaseline policy items := by
  have hmessage := @count_kept_le policy items isMessage
  have hbaseline := @count_kept_le policy items isBaseline
  simp only [budgetSpares_iff_count, countP_isProtected]
  omega

theorem filter_out (p : ItemCategory → Bool) :
    (applyRetentionPolicyOwned items policy).1.filter
      (fun item => p (categorizeItem item)) =
      ((kept policy items).filter
        fun item => p item.category).map (·.item) := by
  rw [applyRetentionPolicyOwned_fst, filter_map_item kept_sublist]

theorem out_sublist :
    (applyRetentionPolicyOwned items policy).1.Sublist items := by
  have hsub := (@kept_sublist policy items).map (·.item)
  rw [map_item_categorize] at hsub
  rw [applyRetentionPolicyOwned_fst]
  exact hsub

/-- Filtering the result keeps what filtering a list of categorized items keeps
exactly when their numbers agree. -/
theorem filter_kept_eq_iff (p : ItemCategory → Bool) :
    ((kept policy items).filter fun item => p item.category).map (·.item) =
        ((survivors policy (categorize items)).filter fun item =>
          p item.category).map (·.item) ↔
      BudgetSpares p policy items := by
  constructor
  · intro h
    rw [budgetSpares_iff_count, List.countP_eq_length_filter,
      List.countP_eq_length_filter, ← List.length_map, h, List.length_map]
  · intro h
    rw [(budgetSpares_iff p).1 h]

theorem messages_iff :
    (applyRetentionPolicyOwned items policy).1.filter
        (fun item => isMessage (categorizeItem item)) =
      items.filter (fun item => isMessage (categorizeItem item)) ↔
      BudgetSpares isMessage policy items := by
  rw [filter_out, filter_items, ← @messages_survivors policy (categorize items),
    filter_kept_eq_iff]

theorem baseline_iff :
    (policy.keepLatestBaseline →
      (applyRetentionPolicyOwned items policy).1.filter
          (fun item => isBaseline (categorizeItem item)) =
        (items.filter
          fun item => isBaseline (categorizeItem item)).getLast?.toList) ↔
      BudgetSpares isBaseline policy items := by
  have hsurvivors := @baselines_survivors policy (categorize items)
  rw [filter_out, filter_items, ← filter_kept_eq_iff]
  cases hkeep : policy.keepLatestBaseline with
  | true =>
      rw [hkeep, if_pos rfl] at hsurvivors
      rw [hsurvivors, List.getLast?_map, Option.toList_map]
      simp only [forall_const]
  | false =>
      rw [hkeep, if_neg Bool.false_ne_true] at hsurvivors
      have hkept :
          (kept policy items).filter (fun item => isBaseline item.category) =
          [] := by
        have hsub :=
          (@withinBudget_sublist policy
            (survivors policy (categorize items))).filter
            fun item => isBaseline item.category
        rw [hsurvivors] at hsub
        exact List.sublist_nil.1 hsub
      simp [hkept, hsurvivors]

/-- Once every message is kept, so are both sides of every call. -/
theorem hasPair_of_messages {out : List ResponseItem} {callId : String}
    (h : out.filter (fun item => isMessage (categorizeItem item)) =
      items.filter fun item => isMessage (categorizeItem item))
    (hpair : HasPair callId items) : HasPair callId out := by
  have hmem : ∀ item ∈ items, isMessage (categorizeItem item) → item ∈ out := by
    intro item hitem hmessage
    have hfilter : item ∈ items.filter fun item =>
        isMessage (categorizeItem item) :=
      List.mem_filter.2 ⟨hitem, hmessage⟩
    rw [← h] at hfilter
    exact (List.mem_filter.1 hfilter).1
  obtain ⟨⟨id, name, space, arguments, hcall⟩, output, houtput⟩ := hpair
  exact ⟨⟨id, name, space, arguments, hmem _ hcall rfl⟩, output,
    hmem _ houtput rfl⟩

/-- The owning function keeps its promise exactly when the byte budget spares
every message and the baseline that pruning by count left. -/
theorem retainsProtected_iff (policy : RetentionPolicy)
    (items : List ResponseItem) :
    RetainsProtected policy items (applyRetentionPolicyOwned items policy).1 ↔
      BudgetSpares isProtected policy items := by
  rw [budgetSpares_isProtected, ← messages_iff, ← baseline_iff]
  constructor
  · intro h
    exact ⟨h.messages, h.baseline⟩
  · rintro ⟨hmessages, hbaseline⟩
    exact ⟨hmessages, hbaseline,
      fun callId hpair => hasPair_of_messages hmessages hpair⟩

/-- A tool call with long arguments and its short output. -/
def callAndOutput : List ResponseItem :=
  [.functionCall none "shell" none "[command: ls -la]".toList "call-1",
    .functionCallOutput "call-1" (.fromText "ok".toList)]

/-- Under a budget of ten bytes, the output outlives its call. -/
theorem retainsProtected_callAndOutput :
    ¬RetainsProtected { RetentionPolicy.default with
      maxTotalBytes := 10 } callAndOutput
      (applyRetentionPolicyOwned callAndOutput
        { RetentionPolicy.default with maxTotalBytes := 10 }).1 := by
  intro h
  exact absurd h.messages (by decide)

/-! ## What the counters say -/

/-- The bytes of some items. -/
def totalSize (items : List ResponseItem) : ℕ :=
  (items.map estimateItemSize).sum

/-- The items of a `Vec<ResponseItem>`.  Their texts are in memory at once, so
their total length is a `usize`. -/
structure ItemVec where
  items : List ResponseItem
  totalSize_le : totalSize items ≤ u64Max

/-- The categories whose kept items are counted. -/
def isCounted (category : ItemCategory) : Bool :=
  category = .envDelta ||
    (category = .browserSnapshot || category = .screenshot)

/-- The counters describe what a pass made of some items. -/
structure Describes (stats : RetentionStats) (policy : RetentionPolicy)
    (items out : List ResponseItem) : Prop where
  sublist : out.Sublist items
  bytesKept : stats.bytesKept = totalSize out
  withinBudget : stats.bytesKept ≤ policy.maxTotalBytes
  bytes : stats.bytesKept + stats.bytesRemoved = totalSize items
  keptEnvDeltas : stats.keptEnvDeltas =
    out.countP (categorizeItem · = .envDelta)
  keptBrowserSnapshots :
    stats.keptBrowserSnapshots =
      out.countP (categorizeItem · = .browserSnapshot)
  keptRecentScreenshots :
    stats.keptRecentScreenshots = out.countP (categorizeItem · = .screenshot)
  count : items.length - out.length =
    stats.removedEnvBaselines + stats.removedEnvDeltas +
      stats.removedBrowserSnapshots +
      stats.removedScreenshots + stats.removedStatus + stats.droppedForBudget

theorem totalSize_map_item {l : List CategorizedItem}
    (h : l.Sublist (categorize items)) :
    totalSize (l.map (·.item)) = sizes l := by
  rw [totalSize, sizes, List.map_map]
  congr 1
  refine List.map_congr_left fun item hitem => ?_
  rw [eq_new_of_mem_categorize (h.subset hitem)]
  rfl

theorem totalSize_eq : totalSize items = sizes (categorize items) := by
  conv_lhs => rw [← map_item_categorize items]
  exact totalSize_map_item (List.Sublist.refl _)

theorem countP_map_item {l : List CategorizedItem}
    (h : l.Sublist (categorize items))
    (p : ItemCategory → Bool) :
    (l.map (·.item)).countP (fun item => p (categorizeItem item)) =
      l.countP fun item => p item.category := by
  rw [List.countP_eq_length_filter, filter_map_item h, List.length_map,
    List.countP_eq_length_filter]

theorem queue_eq_iff {category : ItemCategory} (h : category.queue = category)
    (hother : category ≠ .other) (c : ItemCategory) :
    c = category ↔ c.queue = category := by
  constructor
  · rintro rfl
    exact h
  · intro hc
    cases c with
    | realUserMessage => exact absurd hc.symm hother
    | _ => exact hc

theorem countP_survivors {category : ItemCategory}
    (h : category.queue = category)
    (hother : category ≠ .other) :
    (survivors policy (categorize items)).countP (fun item => item.category =
      category) =
      (keptOf policy category (categorize items)).length := by
  rw [← queued_survivors, queued, ofClass, List.countP_eq_length_filter]
  congr 1
  refine List.filter_congr fun item _ => ?_
  exact decide_eq_decide.2 (queue_eq_iff h hother item.category)

theorem countP_isCounted (l : List CategorizedItem) :
    l.countP (fun item => isCounted item.category) =
      l.countP (fun item => item.category = .envDelta) +
        (l.countP (fun item => item.category = .browserSnapshot) +
          l.countP fun item => item.category = .screenshot) := by
  rw [← countP_either (· = .browserSnapshot) (· =
    .screenshot) (fun c hc => ?_) l]
  · refine countP_either (· = .envDelta)
      (fun c => c = .browserSnapshot || c = .screenshot) (fun c hc => ?_) l
    cases c <;> simp_all
  · cases c <;> simp_all

theorem countP_out (p : ItemCategory → Bool) :
    (applyRetentionPolicyOwned items policy).1.countP
        (fun item => p (categorizeItem item)) =
      (kept policy items).countP fun item => p item.category := by
  rw [applyRetentionPolicyOwned_fst, countP_map_item kept_sublist]

/-! ### The counters that always agree -/

theorem sizes_kept_add_overBudget (l : List CategorizedItem) :
    sizes (withinBudget policy l) + sizes (overBudget policy l) = sizes l := by
  have hsum := sum_greedy_add_misfits satAdd (fun item : CategorizedItem =>
    item.sizeBytes) policy.maxTotalBytes 0 l.reverse
  rw [withinBudget, sizes_perm (List.reverse_perm _),
    ← sizes_perm l.reverse_perm]
  exact hsum

theorem length_kept_add_overBudget (l : List CategorizedItem) :
    (withinBudget policy l).length + (overBudget policy l).length =
      l.length := by
  have hlength :=
    length_greedy_add_misfits satAdd (fun item : CategorizedItem =>
      item.sizeBytes) policy.maxTotalBytes 0 l.reverse
  rw [withinBudget, List.length_reverse, ← l.length_reverse]
  exact hlength

/-- The bytes of the survivors, of which the budget takes its share. -/
theorem sizes_survivors :
    (Owned.pruneByCount policy (categorize items)).stats.bytesKept =
      sizes (survivors policy (categorize items)) := by
  rw [pruneByCount_eq]
  exact sizes_perm flatMap_keptOf_perm

theorem finalStats_bytesKept :
    (finalStats policy (categorize items)).bytesKept =
      sizes (kept policy items) := by
  have hsum :=
    @sizes_kept_add_overBudget policy (survivors policy (categorize items))
  simp only [finalStats, sizes_survivors, kept]
  omega

theorem finalStats_bytes :
    (finalStats policy (categorize items)).bytesKept +
        (finalStats policy (categorize items)).bytesRemoved =
        totalSize items := by
  have hsum :=
    @sizes_kept_add_overBudget policy (survivors policy (categorize items))
  have htotal := @sizes_removed_add_kept policy (categorize items)
  have hkept := sizes_perm (@flatMap_keptOf_perm policy (categorize items))
  rw [finalStats_bytesKept, totalSize_eq, kept]
  simp only [finalStats, pruneByCount_eq]
  omega

/-- While the items are in memory, what is kept stays within the budget. -/
theorem sizes_kept_le (h : totalSize items ≤ u64Max) :
    sizes (kept policy items) ≤ policy.maxTotalBytes := by
  have hsum := @sizes_removed_add_kept policy (categorize items)
  have hsurvivors := sizes_perm (@flatMap_keptOf_perm policy (categorize items))
  rw [totalSize_eq] at h
  have htotal :
      sizes (survivors policy (categorize items)).reverse ≤ u64Max := by
    rw [sizes_perm (List.reverse_perm _)]
    omega
  have hexact : ∀ a b, a + b ≤ u64Max → satAdd a b = a + b :=
    fun a b => Nat.min_eq_left
  rw [kept, withinBudget, sizes_perm (List.reverse_perm _),
    greedy_congr _ _ _ hexact (by rwa [Nat.zero_add])]
  simpa [sizes] using
    sum_greedy_le (fun item : CategorizedItem => item.sizeBytes)
    policy.maxTotalBytes (Nat.zero_le _)
    (survivors policy (categorize items)).reverse

theorem finalStats_count :
    items.length - (applyRetentionPolicyOwned items policy).1.length =
      (finalStats policy (categorize items)).removedEnvBaselines +
        (finalStats policy (categorize items)).removedEnvDeltas +
        (finalStats policy (categorize items)).removedBrowserSnapshots +
        (finalStats policy (categorize items)).removedScreenshots +
        (finalStats policy (categorize items)).removedStatus +
        (finalStats policy (categorize items)).droppedForBudget := by
  have hlength := @length_removed_add_survivors policy (categorize items)
  have hbudget :=
    @length_kept_add_overBudget policy (survivors policy (categorize items))
  have hitems := congrArg List.length (map_item_categorize items)
  have hother : removedOf policy .other (categorize items) = [] := rfl
  rw [List.length_map] at hitems
  rw [applyRetentionPolicyOwned_fst, List.length_map, kept]
  simp only [finalStats, pruneByCount_eq]
  simp only [queues, List.flatMap_cons, List.flatMap_nil, List.length_append,
    List.append_nil, hother, List.length_nil] at hlength
  omega

/-! ### The counters of kept items -/

theorem finalStats_keptEnvDeltas :
    (finalStats policy (categorize items)).keptEnvDeltas =
      (survivors policy (categorize items)).countP (·.category =
        .envDelta) := by
  rw [countP_survivors rfl (by decide), finalStats, pruneByCount_eq]

theorem finalStats_keptBrowserSnapshots :
    (finalStats policy (categorize items)).keptBrowserSnapshots =
      (survivors policy (categorize items)).countP (·.category =
        .browserSnapshot) := by
  rw [countP_survivors rfl (by decide), finalStats, pruneByCount_eq]

theorem finalStats_keptRecentScreenshots :
    (finalStats policy (categorize items)).keptRecentScreenshots =
      (survivors policy (categorize items)).countP (·.category =
        .screenshot) := by
  rw [countP_survivors rfl (by decide), finalStats, pruneByCount_eq]

/-- The counters of kept items agree with the result exactly when the byte
budget drops no counted item. -/
theorem keptCounters_iff :
    ((finalStats policy (categorize items)).keptEnvDeltas =
        (kept policy items).countP (·.category = .envDelta) ∧
      (finalStats policy (categorize items)).keptBrowserSnapshots =
        (kept policy items).countP (·.category = .browserSnapshot) ∧
      (finalStats policy (categorize items)).keptRecentScreenshots =
        (kept policy items).countP (·.category = .screenshot)) ↔
      BudgetSpares isCounted policy items := by
  have hdeltas := @count_kept_le policy items (· = .envDelta)
  have hsnapshots := @count_kept_le policy items (· = .browserSnapshot)
  have hscreenshots := @count_kept_le policy items (· = .screenshot)
  rw [finalStats_keptEnvDeltas, finalStats_keptBrowserSnapshots,
    finalStats_keptRecentScreenshots, budgetSpares_iff_count, countP_isCounted,
    countP_isCounted]
  omega

/-- The counters of the owning function describe its result exactly when the
byte budget drops no delta, no browser snapshot and no screenshot. -/
theorem describes_iff (policy : RetentionPolicy) (vec : ItemVec) :
    Describes (applyRetentionPolicyOwned vec.items policy).2 policy vec.items
        (applyRetentionPolicyOwned vec.items policy).1 ↔
      BudgetSpares isCounted policy vec.items := by
  have hstats : (applyRetentionPolicyOwned vec.items policy).2 =
      finalStats policy (categorize vec.items) := by
    rw [applyRetentionPolicyOwned_eq]
  rw [← keptCounters_iff, hstats]
  constructor
  · intro h
    refine ⟨h.keptEnvDeltas.trans ?_, h.keptBrowserSnapshots.trans ?_,
      h.keptRecentScreenshots.trans ?_⟩
    · exact countP_out (· = .envDelta)
    · exact countP_out (· = .browserSnapshot)
    · exact countP_out (· = .screenshot)
  · rintro ⟨hdeltas, hsnapshots, hscreenshots⟩
    have hout := totalSize_map_item (@kept_sublist policy vec.items)
    refine
      { sublist := out_sublist
        bytesKept := ?_
        withinBudget := ?_
        bytes := finalStats_bytes
        keptEnvDeltas := hdeltas.trans (countP_out (· = .envDelta)).symm
        keptBrowserSnapshots :=
          hsnapshots.trans (countP_out (· = .browserSnapshot)).symm
        keptRecentScreenshots :=
          hscreenshots.trans (countP_out (· = .screenshot)).symm
        count := finalStats_count }
    · rw [finalStats_bytesKept, applyRetentionPolicyOwned_fst, hout]
    · rw [finalStats_bytesKept]
      exact sizes_kept_le vec.totalSize_le

/-- One screenshot of fifteen bytes. -/
def oneScreenshot : List ResponseItem :=
  [.ofText "user" (.inputImage "data:image/png;".toList)]

/-- A call with its output and a screenshot, which all fit in the default
budget. -/
def oneTurn : ItemVec where
  items := callAndOutput ++ oneScreenshot
  totalSize_le := by decide

theorem describes_oneTurn :
    Describes (applyRetentionPolicyOwned oneTurn.items .default).2
      .default oneTurn.items
      (applyRetentionPolicyOwned oneTurn.items .default).1 :=
  (describes_iff .default oneTurn).2 (by decide)

/-- A screenshot that the budget drops is still counted as kept. -/
theorem describes_oneScreenshot :
    ¬Describes
      (applyRetentionPolicyOwned oneScreenshot
        { RetentionPolicy.default with maxTotalBytes := 10 }).2
      { RetentionPolicy.default with maxTotalBytes := 10 } oneScreenshot
      (applyRetentionPolicyOwned oneScreenshot
        { RetentionPolicy.default with maxTotalBytes := 10 }).1 := by
  intro h
  exact absurd h.keptRecentScreenshots (by decide)

end CodeRs.Retention

/-! ## The two pruning functions agree

The borrowing function runs the passes of the owning one on pairs of a position
and an item.  Each pass is shown to commute with that view, and then the byte
budget, which measures the items again and adds without saturation. -/

namespace CodeRs.Retention

open Protocol Eviction

/-! ## Pruning by count -/

/-- The same counters, with another form of the kept items. -/
def Pruned.map {α β : Type} (f : α → β) (p : Pruned α) : Pruned β where
  stats := p.stats
  kept := p.kept.map f

namespace Borrowed

variable {p : Pruned CategorizedItem} {policy : RetentionPolicy}

theorem keep_map (item : CategorizedItem) :
    (p.map store).keep store item = (p.keep id item).map store := by
  simp [Pruned.keep, Pruned.map]

theorem keepAll_map (queue : List CategorizedItem) :
    (p.map store).keepAll store queue = (p.keepAll id queue).map store := by
  rw [Pruned.keepAll_eq, Pruned.keepAll_eq]
  simp [Pruned.map]

theorem removeAll_map (add : ℕ → RetentionStats → RetentionStats)
    (queue : List CategorizedItem) :
    (p.map store).removeAll add queue = (p.removeAll add queue).map store := rfl

theorem count_map (update : RetentionStats → RetentionStats) :
    (p.map store).count update = (p.count update).map store := rfl

theorem pruneBaselines_map (queue : List CategorizedItem) :
    pruneBaselines policy (p.map store) queue =
      (Owned.pruneBaselines policy p queue).map store := by
  rw [pruneBaselines, Owned.pruneBaselines]
  by_cases hkeep : policy.keepLatestBaseline
  · by_cases hqueue : queue = []
    · rw [dif_neg (by simp [hqueue]), if_pos hkeep, hqueue]
      rfl
    · rw [dif_pos ⟨hkeep, hqueue⟩, if_pos hkeep,
        List.getLast?_eq_some_getLast hqueue,
        keep_map, removeAll_map]
  · rw [dif_neg (by simp [hkeep]), if_neg hkeep, removeAll_map]

theorem pruneQueue_map (max : ℕ) (add set : ℕ → RetentionStats → RetentionStats)
    (queue : List CategorizedItem) :
    pruneQueue max add set (p.map store) queue =
      (Owned.pruneQueue max add set p queue).map store := by
  rw [pruneQueue, Owned.pruneQueue]
  by_cases hmax : queue.length ≤ max
  · rw [if_pos hmax, if_neg (Nat.not_lt.2 hmax), count_map, keepAll_map]
  · rw [if_neg hmax, if_pos (Nat.lt_of_not_le hmax)]
    simp only [count_map, removeAll_map, keepAll_map]

theorem pruneScreenshots_map (queue : List CategorizedItem) :
    pruneScreenshots (p.map store) queue =
      (Owned.pruneScreenshots p queue).map store := by
  rw [pruneScreenshots, Owned.pruneScreenshots]
  by_cases hqueue : queue = []
  · rw [dif_neg (by simp [hqueue]), hqueue]
    rfl
  · rw [dif_pos hqueue, List.getLast?_eq_some_getLast hqueue]
    simp only [count_map, keep_map, removeAll_map]

theorem pruneByCount_map (categorized : List CategorizedItem) :
    pruneByCount policy categorized =
      (Owned.pruneByCount policy categorized).map store := by
  have hstart : ({} : Pruned (ℕ × ResponseItem)) =
      ({} : Pruned CategorizedItem).map store := rfl
  rw [pruneByCount, hstart]
  simp only [keepAll_map, pruneBaselines_map, pruneQueue_map, removeAll_map,
    pruneScreenshots_map]
  rfl

end Borrowed

/-! ## The byte budget -/

namespace Borrowed

/-- The walk of the owning function, seen as the borrowing one stores it. -/
def walkView (walk : BudgetWalk CategorizedItem) :
    BudgetWalk (ℕ × ResponseItem) where
  cumulativeBytes := walk.cumulativeBytes
  finalItems := walk.finalItems.map store
  stats := walk.stats
  bytesKept := walk.bytesKept

/-- One item of the loop, as long as the sizes add up without saturation. -/
theorem budgetStep_map {max : ℕ} {walk : BudgetWalk CategorizedItem}
    {item : CategorizedItem} (hitem : item = .new item.item item.index)
    (h : walk.cumulativeBytes + item.sizeBytes ≤ u64Max) :
    budgetStep max (walkView walk) (store item) =
      walkView (Owned.budgetStep max walk item) := by
  have hsize : estimateItemSize (store item).2 = item.sizeBytes := by
    rw [hitem]
    rfl
  have hadd : satAdd walk.cumulativeBytes item.sizeBytes =
      walk.cumulativeBytes + item.sizeBytes := Nat.min_eq_left h
  simp only [budgetStep, Owned.budgetStep, hsize, hadd, walkView]
  split
  · simp
  · rfl

theorem foldl_budgetStep_map {max : ℕ} {walk : BudgetWalk CategorizedItem}
    {l : List CategorizedItem}
    (hl : ∀ item ∈ l, item = .new item.item item.index)
    (h : walk.cumulativeBytes + sizes l ≤ u64Max) :
    (l.map store).foldl (budgetStep max) (walkView walk) =
      walkView (l.foldl (Owned.budgetStep max) walk) := by
  induction l generalizing walk with
  | nil => rfl
  | cons item older ih =>
      rw [sizes_cons] at h
      have hused : (Owned.budgetStep max walk item).cumulativeBytes ≤
          walk.cumulativeBytes + item.sizeBytes := by
        rw [Owned.budgetStep]
        split
        · exact satAdd_le _ _
        · exact Nat.le_add_right _ _
      rw [List.map_cons, List.foldl_cons, List.foldl_cons,
        budgetStep_map (hl item List.mem_cons_self) (by omega)]
      exact ih (fun other hother => hl other (List.mem_cons_of_mem _ hother))
        (by omega)

theorem sortByKey_map (l : List CategorizedItem) :
    sortByKey Prod.fst (l.map store) = (sortByKey (·.index) l).map store :=
  (List.map_insertionSort _ _ store l fun _ _ _ _ => Iff.rfl).symm

theorem applyBudget_map {p : Pruned CategorizedItem} {policy : RetentionPolicy}
    (hkept : ∀ item ∈ p.kept, item = .new item.item item.index)
    (h : sizes p.kept ≤ u64Max) :
    applyBudget policy (p.map store) =
      ((Owned.applyBudget policy p).1.map store,
        (Owned.applyBudget policy p).2) := by
  have hsorted : ∀ item ∈ (sortByKey (·.index) p.kept).reverse,
      item = .new item.item item.index := by
    intro item hitem
    exact hkept item
      ((sortByKey_perm p.kept).mem_iff.1 (List.mem_reverse.1 hitem))
  have hsizes : 0 + sizes (sortByKey (·.index) p.kept).reverse ≤ u64Max := by
    rw [Nat.zero_add, sizes_perm (List.reverse_perm _),
      sizes_perm (sortByKey_perm _)]
    exact h
  have hwalk := @foldl_budgetStep_map policy.maxTotalBytes
    { stats := p.stats, bytesKept := p.stats.bytesKept } _ hsorted hsizes
  rw [applyBudget, Owned.applyBudget]
  simp only [Pruned.map, sortByKey_map]
  by_cases hover : p.stats.bytesKept > policy.maxTotalBytes
  · rw [if_pos hover, if_pos hover, ← List.map_reverse]
    have hview : walkView { stats := p.stats, bytesKept := p.stats.bytesKept } =
        { stats := p.stats, bytesKept := p.stats.bytesKept } := rfl
    rw [hview] at hwalk
    rw [hwalk]
    simp only [walkView, sortByKey_map]
  · rw [if_neg hover, if_neg hover]

end Borrowed

/-- The borrowing and the owning function return the same items and counters,
as long as the sizes add up to a `usize`. -/
theorem applyRetentionPolicy_eq_owned (items : List ResponseItem)
    (policy : RetentionPolicy)
    (h : totalSize items ≤ u64Max) :
    applyRetentionPolicy items policy =
      applyRetentionPolicyOwned items policy := by
  have hperm : (Owned.pruneByCount policy (categorize items)).kept.Perm
      (survivors policy (categorize items)) := by
    rw [pruneByCount_eq]
    exact flatMap_keptOf_perm
  have hsum := @sizes_removed_add_kept policy (categorize items)
  have hsurvivors := sizes_perm (@flatMap_keptOf_perm policy (categorize items))
  rw [totalSize_eq] at h
  rw [applyRetentionPolicy, applyRetentionPolicyOwned,
    Borrowed.pruneByCount_map]
  have hbudget :
      sizes (Owned.pruneByCount policy (categorize items)).kept ≤ u64Max := by
    rw [sizes_perm hperm]
    omega
  rw [Borrowed.applyBudget_map (fun item hitem => eq_new_of_mem_categorize
    (survivors_sublist.subset (hperm.mem_iff.1 hitem))) hbudget]
  simp [Function.comp_def, Borrowed.store]

theorem applyRetentionPolicy_callAndOutput :
    applyRetentionPolicy callAndOutput .default =
      applyRetentionPolicyOwned callAndOutput .default :=
  applyRetentionPolicy_eq_owned callAndOutput .default (by decide)

end CodeRs.Retention
