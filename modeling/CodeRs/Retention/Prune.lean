import CodeRs.Lib.Eviction
import CodeRs.Lib.Saturating
import CodeRs.Protocol.Models

/-!
# Retention of history items

The policy, the item categories and the two pruning functions of
`core/src/retention.rs`.  The byte counters are sums of text lengths of items
that are in memory at once, so `+=` on them is addition; `saturating_add` is
kept where the source writes it.
-/

namespace CodeRs.Retention

open Protocol Eviction

/-! ## Policies and counters -/

structure RetentionPolicy where
  maxEnvDeltas : ℕ
  maxBrowserSnapshots : ℕ
  maxTotalBytes : ℕ
  keepLatestBaseline : Bool

def RetentionPolicy.default : RetentionPolicy where
  maxEnvDeltas := 3
  maxBrowserSnapshots := 2
  maxTotalBytes := 100 * 1024
  keepLatestBaseline := true

structure RetentionStats where
  removedEnvBaselines : ℕ := 0
  removedEnvDeltas : ℕ := 0
  removedBrowserSnapshots : ℕ := 0
  removedScreenshots : ℕ := 0
  removedStatus : ℕ := 0
  keptEnvDeltas : ℕ := 0
  keptBrowserSnapshots : ℕ := 0
  keptRecentScreenshots : ℕ := 0
  bytesRemoved : ℕ := 0
  bytesKept : ℕ := 0
  droppedForBudget : ℕ := 0
  deriving DecidableEq

/-! ## Categories -/

inductive ItemCategory where
  | realUserMessage
  | statusMessage
  | envBaseline
  | envDelta
  | browserSnapshot
  | screenshot
  | other
  deriving DecidableEq

/-- The bytes of one piece of content. -/
def contentSize : ContentItem → ℕ
  | .inputText text | .outputText text => text.byteLen
  | .inputImage imageUrl => imageUrl.byteLen

def estimateItemSize : ResponseItem → ℕ
  | .message _ _ content _ _ => (content.map contentSize).sum
  | .functionCall _ _ _ arguments _ => arguments.byteLen
  | .functionCallOutput _ output => output.display.byteLen
  | .customToolCall _ _ _ _ _ input => input.byteLen
  | .customToolCallOutput _ _ output => output.display.byteLen
  | .reasoning _ _ content _ => (content.map List.length).getD 0
  | _ => 0

/-- Whether a piece of content is an input text with a property. -/
def anyInputText (p : Text → Bool) (content : List ContentItem) : Bool :=
  content.any fun
    | .inputText text => p text
    | _ => false

def envCtxOpen : String := "<environment_context>"

def envCtxDeltaOpen : String := "<environment_context_delta>"

def browserSnapshotOpen : String := "<browser_snapshot>"

/-- The marks of a status message. -/
def isStatusText (text : Text) : Bool :=
  text.contains "== System Status ==" ||
    text.contains "Current working directory:" || text.contains "Git branch:"

/-- Text that none of the earlier tests claims. -/
def isRealText (text : Text) : Bool :=
  !isStatusText text && text.trim ≠ [] && !text.contains envCtxOpen &&
    !text.contains envCtxDeltaOpen && !text.contains browserSnapshotOpen

def categorizeItem : ResponseItem → ItemCategory
  | .message _ role content _ _ =>
      if role ≠ "user" then .other
      else if anyInputText
          (fun t => t.contains envCtxOpen &&
            !t.contains envCtxDeltaOpen) content then
        .envBaseline
      else if anyInputText (·.contains envCtxDeltaOpen) content then .envDelta
      else if anyInputText (·.contains browserSnapshotOpen) content then
        .browserSnapshot
      else if anyInputText isStatusText content then .statusMessage
      else if content.any (fun | .inputImage _ => true | _ => false) then
        .screenshot
      else if anyInputText isRealText content then .realUserMessage
      else .statusMessage
  | _ => .other

structure CategorizedItem where
  item : ResponseItem
  category : ItemCategory
  sizeBytes : ℕ
  index : ℕ

def CategorizedItem.new (item : ResponseItem) (index : ℕ) :
    CategorizedItem where
  item := item
  category := categorizeItem item
  sizeBytes := estimateItemSize item
  index := index

/-- The items with their categories, sizes and positions. -/
def categorize (items : List ResponseItem) : List CategorizedItem :=
  items.mapIdx fun index item => .new item index

/-- The queue into which a category is sorted: the two that are always kept
share one. -/
def ItemCategory.queue : ItemCategory → ItemCategory
  | realUserMessage => other
  | category => category

/-- The items that are pushed onto a queue, in order. -/
def queued (category : ItemCategory) (items : List CategorizedItem) :
    List CategorizedItem :=
  ofClass (fun item => item.category.queue) category items

/-! ## Running totals -/

/-- The counters and the kept items while a function runs. -/
structure Pruned (α : Type) where
  stats : RetentionStats := {}
  kept : List α := []

variable {α : Type}

/-- Count an item as kept and keep it, in the form that the caller stores. -/
def Pruned.keep (store : CategorizedItem → α) (p : Pruned α)
    (item : CategorizedItem) :
    Pruned α where
  stats := { p.stats with bytesKept := p.stats.bytesKept + item.sizeBytes }
  kept := p.kept ++ [store item]

/-- The loop that keeps every item of a queue. -/
def Pruned.keepAll (store : CategorizedItem → α) (p : Pruned α)
    (items : List CategorizedItem) : Pruned α :=
  items.foldl (keep store) p

/-- The loop that counts every item of a queue as removed, with its own
counter. -/
def Pruned.removeAll (addRemoved : ℕ → RetentionStats → RetentionStats)
    (p : Pruned α)
    (items : List CategorizedItem) : Pruned α :=
  { p with
    stats := items.foldl
      (fun stats item =>
        { addRemoved 1 stats with
          bytesRemoved := stats.bytesRemoved + item.sizeBytes })
      p.stats }

def Pruned.count (p : Pruned α) (update : RetentionStats → RetentionStats) :
    Pruned α :=
  { p with stats := update p.stats }

namespace RetentionStats

/-- The loop has no counter of its own. -/
def removeUncounted (_ : ℕ) (stats : RetentionStats) : RetentionStats := stats

/-- `removed_env_baselines += n`. -/
def removeEnvBaselines (n : ℕ) (stats : RetentionStats) : RetentionStats :=
  { stats with removedEnvBaselines := stats.removedEnvBaselines + n }

/-- `removed_env_deltas += n`. -/
def removeEnvDeltas (n : ℕ) (stats : RetentionStats) : RetentionStats :=
  { stats with removedEnvDeltas := stats.removedEnvDeltas + n }

/-- `kept_env_deltas = n`. -/
def keepEnvDeltas (n : ℕ) (stats : RetentionStats) : RetentionStats :=
  { stats with keptEnvDeltas := n }

/-- `removed_browser_snapshots += n`. -/
def removeBrowserSnapshots (n : ℕ) (stats : RetentionStats) : RetentionStats :=
  { stats with removedBrowserSnapshots := stats.removedBrowserSnapshots + n }

/-- `kept_browser_snapshots = n`. -/
def keepBrowserSnapshots (n : ℕ) (stats : RetentionStats) : RetentionStats :=
  { stats with keptBrowserSnapshots := n }

/-- `removed_status += n`. -/
def removeStatus (n : ℕ) (stats : RetentionStats) : RetentionStats :=
  { stats with removedStatus := stats.removedStatus + n }

/-- `removed_screenshots += n`. -/
def removeScreenshots (n : ℕ) (stats : RetentionStats) : RetentionStats :=
  { stats with removedScreenshots := stats.removedScreenshots + n }

/-- `kept_recent_screenshots = n`. -/
def keepRecentScreenshots (n : ℕ) (stats : RetentionStats) : RetentionStats :=
  { stats with keptRecentScreenshots := n }

end RetentionStats

/-- The totals of the byte-budget loop. -/
structure BudgetWalk (α : Type) where
  cumulativeBytes : ℕ := 0
  finalItems : List α := []
  stats : RetentionStats
  bytesKept : ℕ

/-! ## The owning function -/

namespace Owned

/-- Step 2: keep the latest baseline and remove the others. -/
def pruneBaselines (policy : RetentionPolicy) (p : Pruned CategorizedItem)
    (envBaselines : List CategorizedItem) : Pruned CategorizedItem :=
  if policy.keepLatestBaseline then
    match envBaselines.getLast? with
    | some latest =>
        (p.keep id latest).removeAll .removeEnvBaselines envBaselines.dropLast
    | none => p.removeAll .removeEnvBaselines envBaselines
  else p.removeAll .removeEnvBaselines envBaselines

/-- Steps 3 and 4: drain a queue down to its limit and keep the rest. -/
def pruneQueue (max : ℕ)
    (addRemoved setKept : ℕ → RetentionStats → RetentionStats)
    (p : Pruned CategorizedItem) (queue : List CategorizedItem) :
    Pruned CategorizedItem :=
  if queue.length > max then
    let toDrop := queue.length - max
    (((p.count (addRemoved toDrop)).removeAll .removeUncounted
      (queue.take toDrop)).count
      (setKept (queue.drop toDrop).length)).keepAll id (queue.drop toDrop)
  else (p.count (setKept queue.length)).keepAll id queue

/-- Step 5, second half: keep the most recent screenshot. -/
def pruneScreenshots (p : Pruned CategorizedItem)
    (screenshots : List CategorizedItem) :
    Pruned CategorizedItem :=
  match screenshots.getLast? with
  | some latest =>
      ((p.count (.keepRecentScreenshots 1)).keep id latest).removeAll
        .removeScreenshots
        screenshots.dropLast
  | none => p

/-- Steps 1 to 5, on the queues. -/
def pruneByCount (policy : RetentionPolicy)
    (categorized : List CategorizedItem) :
    Pruned CategorizedItem :=
  let p := ({} : Pruned CategorizedItem).keepAll id (queued .other categorized)
  let p := pruneBaselines policy p (queued .envBaseline categorized)
  let p := pruneQueue policy.maxEnvDeltas .removeEnvDeltas .keepEnvDeltas p
    (queued .envDelta categorized)
  let p := pruneQueue policy.maxBrowserSnapshots .removeBrowserSnapshots
    .keepBrowserSnapshots p (queued .browserSnapshot categorized)
  let p := p.removeAll .removeStatus (queued .statusMessage categorized)
  pruneScreenshots p (queued .screenshot categorized)

/-- One item of the byte-budget loop. -/
def budgetStep (maxTotalBytes : ℕ) (walk : BudgetWalk CategorizedItem)
    (item : CategorizedItem) : BudgetWalk CategorizedItem :=
  if satAdd walk.cumulativeBytes item.sizeBytes ≤ maxTotalBytes then
    { walk with
      cumulativeBytes := satAdd walk.cumulativeBytes item.sizeBytes
      finalItems := walk.finalItems ++ [item] }
  else
    { walk with
      stats :=
        { walk.stats with
          droppedForBudget := walk.stats.droppedForBudget + 1
          bytesRemoved := walk.stats.bytesRemoved + item.sizeBytes }
      bytesKept := walk.bytesKept - item.sizeBytes }

/-- Step 6: apply the byte budget, newest items first. -/
def applyBudget (policy : RetentionPolicy) (p : Pruned CategorizedItem) :
    List CategorizedItem × RetentionStats :=
  let kept := sortByKey (·.index) p.kept
  if p.stats.bytesKept > policy.maxTotalBytes then
    let walk := kept.reverse.foldl (budgetStep policy.maxTotalBytes)
      { stats := p.stats, bytesKept := p.stats.bytesKept }
    (sortByKey (·.index) walk.finalItems,
      { walk.stats with bytesKept := walk.bytesKept })
  else (kept, p.stats)

end Owned

def applyRetentionPolicyOwned (items : List ResponseItem)
    (policy : RetentionPolicy) :
    List ResponseItem × RetentionStats :=
  let result :=
    Owned.applyBudget policy (Owned.pruneByCount policy (categorize items))
  (result.1.map (·.item), result.2)

/-! ## The borrowing function -/

namespace Borrowed

/-- What the borrowing function keeps of an item. -/
def store (item : CategorizedItem) : ℕ × ResponseItem := (item.index, item.item)

/-- Step 2: keep the latest baseline and remove the others. -/
def pruneBaselines (policy : RetentionPolicy) (p : Pruned (ℕ × ResponseItem))
    (envBaselines : List CategorizedItem) : Pruned (ℕ × ResponseItem) :=
  if h : policy.keepLatestBaseline ∧ envBaselines ≠ [] then
    (p.keep store (envBaselines.getLast h.2)).removeAll .removeEnvBaselines
      envBaselines.dropLast
  else p.removeAll .removeEnvBaselines envBaselines

/-- Steps 3 and 4: skip what a queue has over its limit and keep the rest. -/
def pruneQueue (max : ℕ)
    (addRemoved setKept : ℕ → RetentionStats → RetentionStats)
    (p : Pruned (ℕ × ResponseItem)) (queue : List CategorizedItem) :
    Pruned (ℕ × ResponseItem) :=
  if queue.length ≤ max then
    (p.count (setKept queue.length)).keepAll store queue
  else
    let toDrop := queue.length - max
    (((p.count (addRemoved toDrop)).removeAll .removeUncounted
      (queue.take toDrop)).count
      (setKept (queue.drop toDrop).length)).keepAll store (queue.drop toDrop)

/-- Step 5, second half: keep the most recent screenshot. -/
def pruneScreenshots (p : Pruned (ℕ × ResponseItem))
    (screenshots : List CategorizedItem) : Pruned (ℕ × ResponseItem) :=
  if h : screenshots ≠ [] then
    ((p.count (.keepRecentScreenshots 1)).keep store
      (screenshots.getLast h)).removeAll
      .removeScreenshots screenshots.dropLast
  else p

/-- Steps 1 to 5, on the queues. -/
def pruneByCount (policy : RetentionPolicy)
    (categorized : List CategorizedItem) :
    Pruned (ℕ × ResponseItem) :=
  let p :=
    ({} : Pruned (ℕ × ResponseItem)).keepAll store (queued .other categorized)
  let p := pruneBaselines policy p (queued .envBaseline categorized)
  let p := pruneQueue policy.maxEnvDeltas .removeEnvDeltas .keepEnvDeltas p
    (queued .envDelta categorized)
  let p := pruneQueue policy.maxBrowserSnapshots .removeBrowserSnapshots
    .keepBrowserSnapshots p (queued .browserSnapshot categorized)
  let p := p.removeAll .removeStatus (queued .statusMessage categorized)
  pruneScreenshots p (queued .screenshot categorized)

/-- One item of the byte-budget loop, which estimates the size again. -/
def budgetStep (maxTotalBytes : ℕ) (walk : BudgetWalk (ℕ × ResponseItem))
    (entry : ℕ × ResponseItem) : BudgetWalk (ℕ × ResponseItem) :=
  let itemSize := estimateItemSize entry.2
  if walk.cumulativeBytes + itemSize ≤ maxTotalBytes then
    { walk with
      cumulativeBytes := walk.cumulativeBytes + itemSize
      finalItems := walk.finalItems ++ [entry] }
  else
    { walk with
      stats :=
        { walk.stats with
          droppedForBudget := walk.stats.droppedForBudget + 1
          bytesRemoved := walk.stats.bytesRemoved + itemSize }
      bytesKept := walk.bytesKept - itemSize }

/-- Step 6: apply the byte budget, newest items first.  The counter that the
walk lowers is `stats.bytes_kept` itself. -/
def applyBudget (policy : RetentionPolicy) (p : Pruned (ℕ × ResponseItem)) :
    List (ℕ × ResponseItem) × RetentionStats :=
  let kept := sortByKey Prod.fst p.kept
  if p.stats.bytesKept > policy.maxTotalBytes then
    let walk := kept.reverse.foldl (budgetStep policy.maxTotalBytes)
      { stats := p.stats, bytesKept := p.stats.bytesKept }
    (sortByKey Prod.fst walk.finalItems,
      { walk.stats with bytesKept := walk.bytesKept })
  else (kept, p.stats)

end Borrowed

def applyRetentionPolicy (items : List ResponseItem)
    (policy : RetentionPolicy) :
    List ResponseItem × RetentionStats :=
  let result :=
    Borrowed.applyBudget policy
      (Borrowed.pruneByCount policy (categorize items))
  (result.1.map Prod.snd, result.2)

end CodeRs.Retention
