import CodeRs.Retention.Prune

/-!
# What survives a retention pass

Pruning by count keeps the newest items of each category, and the byte budget
then keeps what fits on a walk from the newest of these.
-/

namespace CodeRs.Retention

open Protocol Eviction

/-! ## One queue -/

/-- The bytes of some items. -/
def sizes (items : List CategorizedItem) : ℕ := (items.map (·.sizeBytes)).sum

@[simp] theorem sizes_nil : sizes [] = 0 := rfl

@[simp] theorem sizes_cons (item : CategorizedItem)
    (items : List CategorizedItem) :
    sizes (item :: items) = item.sizeBytes + sizes items := by
  simp [sizes]

@[simp] theorem sizes_append (a b : List CategorizedItem) :
    sizes (a ++ b) = sizes a + sizes b := by
  simp [sizes]

theorem sizes_perm {a b : List CategorizedItem} (h : a.Perm b) :
    sizes a = sizes b :=
  (h.map _).sum_eq

/-- A counter that is raised by a number, apart from the byte counters. -/
structure IsCounter (add : ℕ → RetentionStats → RetentionStats) : Prop where
  zero : ∀ stats, add 0 stats = stats
  succ : ∀ n stats, add n (add 1 stats) = add (n + 1) stats
  kept : ∀ n stats, (add n stats).bytesKept = stats.bytesKept
  removed : ∀ n b stats, add n { stats with bytesRemoved := b } =
    { add n stats with bytesRemoved := b }

variable {α : Type} {store : CategorizedItem → α} {p : Pruned α}

theorem Pruned.keepAll_eq (items : List CategorizedItem) :
    p.keepAll store items =
      { stats := { p.stats with bytesKept := p.stats.bytesKept + sizes items }
        kept := p.kept ++ items.map store } := by
  induction items generalizing p with
  | nil => simp [keepAll]
  | cons item items ih =>
      rw [keepAll, List.foldl_cons, ← keepAll, ih]
      simp [keep, Nat.add_assoc]

theorem Pruned.removeAll_eq {add : ℕ → RetentionStats → RetentionStats}
    (h : IsCounter add) (items : List CategorizedItem) :
    p.removeAll add items =
      { p with
        stats :=
          { add items.length p.stats with
            bytesRemoved := p.stats.bytesRemoved + sizes items } } := by
  induction items generalizing p with
  | nil => simp [removeAll, h.zero]
  | cons item items ih =>
      have hrest := @ih { p with
        stats :=
          { add 1 p.stats with
            bytesRemoved := p.stats.bytesRemoved + item.sizeBytes } }
      rw [removeAll] at hrest ⊢
      rw [List.foldl_cons, hrest, h.removed, h.succ]
      simp [Nat.add_assoc]

theorem isCounter_removeUncounted : IsCounter .removeUncounted :=
  ⟨fun _ => rfl, fun _ _ => rfl, fun _ _ => rfl, fun _ _ _ => rfl⟩

theorem isCounter_removeEnvBaselines : IsCounter .removeEnvBaselines := by
  refine ⟨fun _ => rfl, fun n stats => ?_, fun _ _ => rfl, fun _ _ _ => rfl⟩
  simp [RetentionStats.removeEnvBaselines, Nat.add_assoc, Nat.add_comm n 1]

theorem isCounter_removeStatus : IsCounter .removeStatus := by
  refine ⟨fun _ => rfl, fun n stats => ?_, fun _ _ => rfl, fun _ _ _ => rfl⟩
  simp [RetentionStats.removeStatus, Nat.add_assoc, Nat.add_comm n 1]

theorem isCounter_removeScreenshots : IsCounter .removeScreenshots := by
  refine ⟨fun _ => rfl, fun n stats => ?_, fun _ _ => rfl, fun _ _ _ => rfl⟩
  simp [RetentionStats.removeScreenshots, Nat.add_assoc, Nat.add_comm n 1]

/-- A queue of which the newest items within a limit are kept, with the counters
that record how many were removed and kept. -/
def Pruned.settle (p : Pruned CategorizedItem) (limit : Option ℕ)
    (record : ℕ → ℕ → RetentionStats → RetentionStats)
    (queue : List CategorizedItem) :
    Pruned CategorizedItem where
  stats :=
    { record (overflow limit queue).length
      (lastOf limit queue).length p.stats with
      bytesKept := p.stats.bytesKept + sizes (lastOf limit queue)
      bytesRemoved := p.stats.bytesRemoved + sizes (overflow limit queue) }
  kept := p.kept ++ lastOf limit queue

/-- Steps 3 and 4 set the number of kept items after the removals. -/
def recordQueue (addRemoved setKept : ℕ → RetentionStats → RetentionStats)
    (removed kept : ℕ) (stats : RetentionStats) : RetentionStats :=
  setKept kept (addRemoved removed stats)

/-- A step that only keeps or only removes has one counter or none. -/
def recordRemoved (addRemoved : ℕ → RetentionStats → RetentionStats)
    (removed _ : ℕ) :
    RetentionStats → RetentionStats :=
  addRemoved removed

namespace Owned

variable {p : Pruned CategorizedItem} {policy : RetentionPolicy}

theorem keepAll_eq_settle (queue : List CategorizedItem) :
    p.keepAll id queue =
      p.settle none (recordRemoved .removeUncounted) queue := by
  rw [Pruned.keepAll_eq, List.map_id]
  rfl

theorem removeAll_eq_settle {add : ℕ → RetentionStats → RetentionStats}
    (h : IsCounter add) (queue : List CategorizedItem) :
    p.removeAll add queue = p.settle (some 0) (recordRemoved add) queue := by
  rw [Pruned.removeAll_eq h, Pruned.settle]
  simp [overflow, recordRemoved, ← h.kept queue.length p.stats]

theorem getLast?_cases {α : Type} (l : List α) :
    l = [] ∨ ∃ latest, l = l.dropLast ++ [latest] ∧
      l.getLast? = some latest := by
  cases h : l.getLast? with
  | none => exact .inl (List.getLast?_eq_none_iff.1 h)
  | some latest =>
      obtain ⟨front, rfl⟩ := List.getLast?_eq_some_iff.1 h
      exact .inr ⟨latest, by simp, rfl⟩

theorem pruneBaselines_eq_settle (queue : List CategorizedItem) :
    pruneBaselines policy p queue =
      p.settle (some (if policy.keepLatestBaseline then 1 else 0))
        (recordRemoved .removeEnvBaselines) queue := by
  rw [pruneBaselines]
  cases hkeep : policy.keepLatestBaseline with
  | false => exact removeAll_eq_settle isCounter_removeEnvBaselines queue
  | true =>
      rw [if_pos rfl, if_pos rfl]
      obtain rfl | ⟨latest, hqueue, hlast⟩ := getLast?_cases queue
      · simp [Pruned.settle, Pruned.removeAll, overflow, lastOf, recordRemoved,
          RetentionStats.removeEnvBaselines]
      · rw [hlast]
        simp only [Pruned.removeAll_eq isCounter_removeEnvBaselines]
        rw [hqueue]
        simp [Pruned.settle, Pruned.keep, overflow, lastOf, recordRemoved,
          RetentionStats.removeEnvBaselines]

/-- Draining a queue settles it if its counters leave the bytes alone. -/
theorem pruneQueue_eq_settle
    {addRemoved setKept : ℕ → RetentionStats → RetentionStats}
    (hzero : ∀ stats, addRemoved 0 stats = stats)
    (hbytes : ∀ n k b stats,
      setKept k
          { addRemoved n stats with
            bytesRemoved := (addRemoved n stats).bytesRemoved + b } =
        { setKept k (addRemoved n stats) with
          bytesKept := stats.bytesKept
          bytesRemoved := stats.bytesRemoved + b })
    (queue : List CategorizedItem) {max : ℕ} :
    pruneQueue max addRemoved setKept p queue =
      p.settle (some max) (recordQueue addRemoved setKept) queue := by
  rw [pruneQueue]
  split
  · have htake :
        (queue.take (queue.length - max)).length = queue.length - max := by
      simp
    rw [Pruned.keepAll_eq, Pruned.removeAll_eq isCounter_removeUncounted,
      List.map_id]
    simp only [Pruned.settle, overflow, htake, recordQueue]
    have hstats :=
      hbytes (queue.length - max) (queue.drop (queue.length - max)).length
        (sizes (queue.take (queue.length - max))) p.stats
    simp only [Pruned.count, RetentionStats.removeUncounted, hstats]
    rfl
  · rename_i hle
    have hnone : queue.length - max = 0 := by omega
    have hstats := hbytes 0 queue.length 0 p.stats
    rw [hzero] at hstats
    change setKept queue.length p.stats = _ at hstats
    rw [Pruned.keepAll_eq, List.map_id]
    simp only [Pruned.settle, overflow, lastOf, hnone, recordQueue,
      List.take_zero,
      List.length_nil, List.drop_zero, hzero, Pruned.count]
    rw [hstats]
    rfl

theorem pruneDeltas_eq_settle (queue : List CategorizedItem) {max : ℕ} :
    pruneQueue max .removeEnvDeltas .keepEnvDeltas p queue =
      p.settle (some max) (recordQueue .removeEnvDeltas .keepEnvDeltas) queue :=
  pruneQueue_eq_settle (fun _ => rfl) (fun _ _ _ _ => rfl) queue

theorem pruneSnapshots_eq_settle (queue : List CategorizedItem) {max : ℕ} :
    pruneQueue max .removeBrowserSnapshots .keepBrowserSnapshots p queue =
      p.settle (some max)
        (recordQueue .removeBrowserSnapshots .keepBrowserSnapshots) queue :=
  pruneQueue_eq_settle (fun _ => rfl) (fun _ _ _ _ => rfl) queue

theorem pruneScreenshots_eq_settle (queue : List CategorizedItem)
    (h : p.stats.keptRecentScreenshots = 0) :
    pruneScreenshots p queue =
      p.settle (some 1) (recordQueue .removeScreenshots .keepRecentScreenshots)
        queue := by
  rw [pruneScreenshots]
  obtain rfl | ⟨latest, hqueue, hlast⟩ := getLast?_cases queue
  · simp [Pruned.settle, overflow, lastOf, recordQueue,
      RetentionStats.removeScreenshots, RetentionStats.keepRecentScreenshots]
    rw [← h]
  · rw [hlast]
    simp only [Pruned.removeAll_eq isCounter_removeScreenshots]
    rw [hqueue]
    simp [Pruned.settle, Pruned.keep, Pruned.count, overflow,
      lastOf, recordQueue,
      RetentionStats.removeScreenshots, RetentionStats.keepRecentScreenshots]

end Owned

/-! ## Pruning by count -/

/-- How many items of a queue are kept. -/
def RetentionPolicy.limit (policy : RetentionPolicy) : ItemCategory → Option ℕ
  | .realUserMessage | .other => none
  | .envBaseline => some (if policy.keepLatestBaseline then 1 else 0)
  | .envDelta => some policy.maxEnvDeltas
  | .browserSnapshot => some policy.maxBrowserSnapshots
  | .statusMessage => some 0
  | .screenshot => some 1

/-- The items that pruning by count keeps, in their order. -/
def survivors (policy : RetentionPolicy) (categorized : List CategorizedItem) :
    List CategorizedItem :=
  keepNewest (fun item => item.category.queue) policy.limit categorized

/-- The kept part of a queue. -/
def keptOf (policy : RetentionPolicy) (category : ItemCategory)
    (categorized : List CategorizedItem) : List CategorizedItem :=
  lastOf (policy.limit category) (queued category categorized)

/-- The removed part of a queue. -/
def removedOf (policy : RetentionPolicy) (category : ItemCategory)
    (categorized : List CategorizedItem) : List CategorizedItem :=
  overflow (policy.limit category) (queued category categorized)

/-- The queues, in the order in which they are pruned. -/
def queues : List ItemCategory :=
  [.other, .envBaseline, .envDelta, .browserSnapshot,
    .statusMessage, .screenshot]

variable {policy : RetentionPolicy} {categorized : List CategorizedItem}

theorem queued_survivors (category : ItemCategory) :
    queued category (survivors policy categorized) =
      keptOf policy category categorized :=
  ofClass_keepNewest category categorized

theorem pruneByCount_eq :
    Owned.pruneByCount policy categorized =
      { stats :=
          { removedEnvBaselines :=
              (removedOf policy .envBaseline categorized).length
            removedEnvDeltas := (removedOf policy .envDelta categorized).length
            removedBrowserSnapshots :=
              (removedOf policy .browserSnapshot categorized).length
            removedScreenshots :=
              (removedOf policy .screenshot categorized).length
            removedStatus :=
              (removedOf policy .statusMessage categorized).length
            keptEnvDeltas := (keptOf policy .envDelta categorized).length
            keptBrowserSnapshots :=
              (keptOf policy .browserSnapshot categorized).length
            keptRecentScreenshots :=
              (keptOf policy .screenshot categorized).length
            bytesRemoved :=
              sizes (queues.flatMap
                fun category => removedOf policy category categorized)
            bytesKept :=
              sizes (queues.flatMap
                fun category => keptOf policy category categorized)
            droppedForBudget := 0 }
        kept := queues.flatMap fun category =>
          keptOf policy category categorized } := by
  rw [Owned.pruneByCount, Owned.keepAll_eq_settle,
    Owned.pruneBaselines_eq_settle,
    Owned.pruneDeltas_eq_settle, Owned.pruneSnapshots_eq_settle,
    Owned.removeAll_eq_settle isCounter_removeStatus]
  rw [Owned.pruneScreenshots_eq_settle _ rfl]
  simp [Pruned.settle, queues, keptOf, removedOf, RetentionPolicy.limit,
    recordRemoved,
    recordQueue, RetentionStats.removeUncounted,
    RetentionStats.removeEnvBaselines,
    RetentionStats.removeEnvDeltas, RetentionStats.keepEnvDeltas,
    RetentionStats.removeBrowserSnapshots, RetentionStats.keepBrowserSnapshots,
    RetentionStats.removeStatus, RetentionStats.removeScreenshots,
    RetentionStats.keepRecentScreenshots, overflow, Nat.add_assoc]

theorem queue_mem_queues (category : ItemCategory) :
    category.queue ∈ queues := by
  cases category <;> decide

/-- The queues side by side are the list again. -/
theorem flatMap_queued_perm (l : List CategorizedItem) :
    (queues.flatMap fun category => queued category l).Perm l := by
  have hnone : l.filter (fun item => item.category.queue ∉ queues) = [] := by
    refine List.filter_eq_nil_iff.2 fun item _ => ?_
    simp [queue_mem_queues]
  have hnodup : queues.Nodup := by decide
  have hperm : (queues.flatMap (fun category => queued category l) ++
      l.filter fun item => item.category.queue ∉ queues).Perm l :=
    flatMap_ofClass_perm hnodup l
  rwa [hnone, List.append_nil] at hperm

theorem flatMap_keptOf_perm :
    (queues.flatMap fun category => keptOf policy category categorized).Perm
      (survivors policy categorized) := by
  simp only [← queued_survivors]
  exact flatMap_queued_perm _

theorem removedOf_append_keptOf (category : ItemCategory) :
    removedOf policy category categorized ++
      keptOf policy category categorized =
      queued category categorized :=
  overflow_append_lastOf _ _

theorem sizes_removed_add_kept :
    sizes (queues.flatMap
      fun category => removedOf policy category categorized) +
        sizes (queues.flatMap
          fun category => keptOf policy category categorized) =
      sizes categorized := by
  rw [← sizes_perm (flatMap_queued_perm categorized)]
  simp only [queues, List.flatMap_cons, List.flatMap_nil,
    List.append_nil, sizes_append,
    ← @removedOf_append_keptOf policy categorized]
  omega

theorem length_removed_add_survivors :
    (queues.flatMap
      fun category => removedOf policy category categorized).length +
        (survivors policy categorized).length = categorized.length := by
  rw [← (flatMap_queued_perm categorized).length_eq,
    ← flatMap_keptOf_perm.length_eq]
  simp only [queues, List.flatMap_cons, List.flatMap_nil, List.append_nil,
    List.length_append, ← @removedOf_append_keptOf policy categorized]
  omega

/-! ## Positions -/

variable {items : List ResponseItem}

theorem map_item_categorize (items : List ResponseItem) :
    (categorize items).map (·.item) = items := by
  refine List.ext_getElem (by simp [categorize]) fun i hi hi' => ?_
  simp [categorize, CategorizedItem.new]

theorem eq_new_of_mem_categorize {item : CategorizedItem}
    (h : item ∈ categorize items) :
    item = .new item.item item.index := by
  obtain ⟨index, hindex, rfl⟩ := List.mem_mapIdx.1 h
  rfl

/-- Positions increase along the list. -/
theorem categorize_ordered :
    (categorize items).Pairwise fun a b => a.index < b.index := by
  rw [categorize, List.pairwise_iff_getElem]
  intro i j hi hj hij
  simpa [CategorizedItem.new] using hij

theorem survivors_sublist :
    (survivors policy categorized).Sublist categorized :=
  keepNewest_sublist categorized

/-- Sorting by position gives the survivors back in the order of the list. -/
theorem sortByKey_kept :
    sortByKey (·.index) (Owned.pruneByCount policy (categorize items)).kept =
      survivors policy (categorize items) := by
  rw [pruneByCount_eq]
  exact sortByKey_eq flatMap_keptOf_perm
    (categorize_ordered.sublist survivors_sublist)

/-! ## The byte budget -/

/-- What the byte budget keeps, in the order of the list. -/
def withinBudget (policy : RetentionPolicy) (items : List CategorizedItem) :
    List CategorizedItem :=
  (greedy satAdd (·.sizeBytes) policy.maxTotalBytes 0 items.reverse).reverse

/-- What the byte budget drops, newest first. -/
def overBudget (policy : RetentionPolicy) (items : List CategorizedItem) :
    List CategorizedItem :=
  misfits satAdd (·.sizeBytes) policy.maxTotalBytes 0 items.reverse

theorem withinBudget_sublist (l : List CategorizedItem) :
    (withinBudget policy l).Sublist l := by
  have hsub := (greedy_sublist satAdd (·.sizeBytes) policy.maxTotalBytes 0
    l.reverse).reverse
  rwa [List.reverse_reverse] at hsub

theorem satAdd_le (a b : ℕ) : satAdd a b ≤ a + b := Nat.min_le_left _ _

/-- The loop of the owning function keeps what fits and counts what does not. -/
theorem foldl_budgetStep (max : ℕ) (walk : BudgetWalk CategorizedItem)
    (l : List CategorizedItem) :
    ∃ used, l.foldl (Owned.budgetStep max) walk =
      { cumulativeBytes := used
        finalItems := walk.finalItems ++
          greedy satAdd (·.sizeBytes) max walk.cumulativeBytes l
        stats :=
          { walk.stats with
            droppedForBudget := walk.stats.droppedForBudget +
              (misfits satAdd (·.sizeBytes) max walk.cumulativeBytes l).length
            bytesRemoved := walk.stats.bytesRemoved +
              sizes (misfits satAdd (·.sizeBytes) max walk.cumulativeBytes l) }
        bytesKept := walk.bytesKept -
          sizes
            (misfits satAdd (·.sizeBytes) max walk.cumulativeBytes l) } := by
  induction l generalizing walk with
  | nil => exact ⟨walk.cumulativeBytes, by simp [greedy, misfits]⟩
  | cons item older ih =>
      obtain ⟨used, hused⟩ := ih (Owned.budgetStep max walk item)
      refine ⟨used, ?_⟩
      rw [List.foldl_cons, hused, greedy, misfits, Owned.budgetStep]
      split
      · simp
      · simp [Nat.add_assoc, Nat.add_comm 1, Nat.sub_sub]

/-- The counters of the owning function. -/
def finalStats (policy : RetentionPolicy) (categorized : List CategorizedItem) :
    RetentionStats :=
  let stats := (Owned.pruneByCount policy categorized).stats
  let dropped := overBudget policy (survivors policy categorized)
  { stats with
    droppedForBudget := dropped.length
    bytesRemoved := stats.bytesRemoved + sizes dropped
    bytesKept := stats.bytesKept - sizes dropped }

/-- Nothing is over the budget when everything fits. -/
theorem withinBudget_eq_self {l : List CategorizedItem}
    (h : sizes l ≤ policy.maxTotalBytes) :
    withinBudget policy l = l ∧ overBudget policy l = [] := by
  have hfits :
      0 + (l.reverse.map (·.sizeBytes)).sum ≤ policy.maxTotalBytes := by
    rw [Nat.zero_add, ← sizes, sizes_perm l.reverse_perm]
    exact h
  have hall :=
    greedy_eq_self satAdd (fun item : CategorizedItem => item.sizeBytes)
      policy.maxTotalBytes satAdd_le hfits
  have hlength :=
    length_greedy_add_misfits satAdd (·.sizeBytes) policy.maxTotalBytes 0
      l.reverse
  rw [hall, ← overBudget] at hlength
  refine ⟨by rw [withinBudget, hall, List.reverse_reverse], ?_⟩
  exact List.eq_nil_of_length_eq_zero (by omega)

/-- What the owning function returns: the survivors that fit in the budget, in
their order, with the counters. -/
theorem applyRetentionPolicyOwned_eq :
    applyRetentionPolicyOwned items policy =
      ((withinBudget policy (survivors policy (categorize items))).map (·.item),
        finalStats policy (categorize items)) := by
  rw [applyRetentionPolicyOwned, Owned.applyBudget]
  simp only [sortByKey_kept]
  have hkept : (Owned.pruneByCount policy (categorize items)).stats.bytesKept =
      sizes (survivors policy (categorize items)) := by
    rw [pruneByCount_eq]
    exact sizes_perm flatMap_keptOf_perm
  have hdropped :
      (Owned.pruneByCount policy (categorize items)).stats.droppedForBudget =
      0 := by
    rw [pruneByCount_eq]
  split
  · obtain ⟨used, hused⟩ := foldl_budgetStep policy.maxTotalBytes
      { stats := (Owned.pruneByCount policy (categorize items)).stats
        bytesKept :=
          (Owned.pruneByCount policy (categorize items)).stats.bytesKept }
      (survivors policy (categorize items)).reverse
    have hsort : sortByKey (·.index)
        (greedy satAdd (·.sizeBytes) policy.maxTotalBytes 0
          (survivors policy (categorize items)).reverse) =
        withinBudget policy (survivors policy (categorize items)) :=
      sortByKey_eq (List.reverse_perm _).symm (categorize_ordered.sublist
        ((withinBudget_sublist _).trans survivors_sublist))
    simp only [hused, List.nil_append, hsort, hdropped, Nat.zero_add]
    rfl
  · rename_i hfits
    rw [hkept] at hfits
    obtain ⟨hall, hnone⟩ := withinBudget_eq_self (Nat.le_of_not_lt hfits)
    rw [hall, finalStats, hnone, List.length_nil, ← hdropped]
    rfl

end CodeRs.Retention
