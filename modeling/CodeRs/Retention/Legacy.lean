import CodeRs.Retention.Guarantees

/-!
# The clean-up without a policy

`prune_history_items_owned` of `core/src/codex/session.rs`, which cleans up the
history where `env_ctx_v2` is off.  Its counters, which are only logged, are
left out.
-/

namespace CodeRs.Retention

open Protocol

/-! ## Kinds of items -/

/-- A user message whose content has a property. -/
def isUserWith (p : List ContentItem → Bool) : ResponseItem → Bool
  | .message _ role content _ _ => role = "user" && p content
  | _ => false

def hasStatus (content : List ContentItem) : Bool :=
  anyInputText (fun text => isStatusText text || text.contains envCtxOpen ||
    text.contains envCtxDeltaOpen || text.contains browserSnapshotOpen) content

def hasScreenshot (content : List ContentItem) : Bool :=
  content.any fun | .inputImage _ => true | _ => false

/-- A message that is pushed to `real_user_messages`. -/
def isRealUserMessage : ResponseItem → Bool :=
  isUserWith fun content =>
    anyInputText isRealText content && !hasStatus content &&
      !hasScreenshot content

/-- A message that is pushed to `status_messages`. -/
def isStatusMessage : ResponseItem → Bool :=
  isUserWith fun content => hasStatus content || hasScreenshot content

/-- A message that is pushed to `env_baselines`. -/
def isEnvBaseline : ResponseItem → Bool :=
  isUserWith (anyInputText fun text => text.contains envCtxOpen &&
    !text.contains envCtxDeltaOpen)

/-- A message that is pushed to `env_deltas`. -/
def isEnvDelta : ResponseItem → Bool :=
  isUserWith (anyInputText (·.contains envCtxDeltaOpen))

/-- A message that is pushed to `browser_snapshot_messages`. -/
def isBrowserSnapshot : ResponseItem → Bool :=
  isUserWith (anyInputText (·.contains browserSnapshotOpen))

/-! ## Pruning -/

def maxEnvDeltas : ℕ := 3

def maxBrowserSnapshots : ℕ := 2

/-- The positions of the items of a kind. -/
def positions (p : ResponseItem → Bool) (items : List ResponseItem) : List ℕ :=
  (items.zipIdx.filter fun entry => p entry.1).map (·.2)

/-- `screenshots_to_keep`: the first screenshot after each of the last two real
user messages. -/
def screenshotsToKeep (items : List ResponseItem) : List ℕ :=
  ((positions isRealUserMessage items).reverse.take 2).filterMap fun userIdx =>
    (positions isStatusMessage items).find? fun statusIdx =>
      statusIdx > userIdx && (items[statusIdx]?.map fun item =>
        match item with
        | .message _ _ content _ _ => hasScreenshot content
        | _ => false).getD false

/-- Whether a status message is kept. -/
def keepsStatus (items : List ResponseItem) (idx : ℕ) : Bool :=
  decide (idx ∈ screenshotsToKeep items) ||
    decide (idx ∈
      (positions isBrowserSnapshot items).reverse.take maxBrowserSnapshots) ||
    decide ((positions isEnvBaseline items).getLast? = some idx) ||
    decide (idx ∈ (positions isEnvDelta items).reverse.take maxEnvDeltas)

def pruneHistoryItemsOwned (items : List ResponseItem) : List ResponseItem :=
  (items.zipIdx.filter fun entry =>
    if entry.2 ∈ positions isStatusMessage items then keepsStatus items entry.2
      else true).map
    (·.1)

/-! ## What it keeps -/

theorem marked_of_hasStatus {content : List ContentItem}
    (h : hasStatus content = true) :
    anyInputText (fun t => t.contains envCtxOpen &&
      !t.contains envCtxDeltaOpen) content = true ∨
      anyInputText (·.contains envCtxDeltaOpen) content = true ∨
      anyInputText (·.contains browserSnapshotOpen) content = true ∨
      anyInputText isStatusText content = true := by
  obtain ⟨part, hpart, hmark⟩ := List.any_eq_true.1 h
  cases part with
  | inputText text =>
      have hany : ∀ p : Text → Bool, p text = true →
          anyInputText p content = true :=
        fun p hp => List.any_eq_true.2 ⟨.inputText text, hpart, hp⟩
      simp only [Bool.or_eq_true] at hmark
      obtain ((hstatus | hopen) | hdelta) | hbrowser := hmark
      · exact .inr (.inr (.inr (hany _ hstatus)))
      · cases hdelta : text.contains envCtxDeltaOpen with
        | true => exact .inr (.inl (hany _ hdelta))
        | false => exact .inl (hany _ (by simp [hopen, hdelta]))
      · exact .inr (.inl (hany _ hdelta))
      · exact .inr (.inr (.inl (hany _ hbrowser)))
  | inputImage _ | outputText _ => cases hmark

theorem isMessage_of_isStatusMessage {item : ResponseItem}
    (h : isStatusMessage item = true) :
    isMessage (categorizeItem item) = false := by
  cases item with
  | message id role content endTurn phase =>
      obtain ⟨hrole, hmarked⟩ := Bool.and_eq_true_iff.1 h
      rw [categorizeItem, if_neg (by simpa using hrole)]
      split
      · rfl
      next hbaseline =>
        split
        · rfl
        next hdelta =>
          split
          · rfl
          next hbrowser =>
            split
            · rfl
            next hstatus =>
              split
              · rfl
              next himage =>
                obtain hmark | himage' := Bool.or_eq_true_iff.1 hmarked
                · obtain h | h | h | h := marked_of_hasStatus hmark
                  · exact absurd h hbaseline
                  · exact absurd h hdelta
                  · exact absurd h hbrowser
                  · exact absurd h hstatus
                · exact absurd himage' himage
  | _ => cases h

theorem pruneHistoryItemsOwned_sublist (items : List ResponseItem) :
    (pruneHistoryItemsOwned items).Sublist items := by
  have hsub := (List.filter_sublist (l := items.zipIdx) (p := fun entry =>
    if entry.2 ∈ positions isStatusMessage items then keepsStatus items entry.2
      else true)).map
      (·.1)
  rw [List.zipIdx_map_fst] at hsub
  exact hsub

/-- Pruning keeps all messages but those about the status and the
environment. -/
theorem messages_pruneHistoryItemsOwned (items : List ResponseItem) :
    (pruneHistoryItemsOwned items).filter
      (fun item => isMessage (categorizeItem item)) =
      items.filter (fun item => isMessage (categorizeItem item)) := by
  have hkept : ∀ entry ∈ items.zipIdx,
      isMessage (categorizeItem entry.1) = true →
      entry.2 ∉ positions isStatusMessage items := by
    intro entry hentry hmessage hmem
    obtain ⟨other, hother, hidx⟩ := List.mem_map.1 hmem
    obtain ⟨hother, hstatus⟩ := List.mem_filter.1 hother
    have hsame : other.1 = entry.1 := by
      have h₁ := List.mem_zipIdx_iff_getElem?.1 hentry
      have h₂ := List.mem_zipIdx_iff_getElem?.1 hother
      rw [hidx, h₁] at h₂
      exact (Option.some.inj h₂).symm
    rw [hsame] at hstatus
    rw [isMessage_of_isStatusMessage hstatus] at hmessage
    cases hmessage
  rw [pruneHistoryItemsOwned, List.filter_map, List.filter_filter]
  conv_rhs => rw [← List.zipIdx_map_fst 0 items, List.filter_map]
  congr 1
  apply List.filter_congr
  intro entry hentry
  cases hmessage : isMessage (categorizeItem entry.1) with
  | false => simp [hmessage]
  | true => simp [hmessage, hkept entry hentry hmessage]

/-! ## The positions that stay -/

/-- The positions of the items that stay. -/
def keptPositions (items : List ResponseItem) : List ℕ :=
  (items.zipIdx.filter fun entry =>
    if entry.2 ∈ positions isStatusMessage items then keepsStatus items entry.2
      else true).map
    (·.2)

theorem mem_positions {p : ResponseItem → Bool}
    {items : List ResponseItem} {idx : ℕ} :
    idx ∈ positions p items ↔
      ∃ item, items[idx]? = some item ∧ p item = true := by
  rw [positions, List.mem_map]
  constructor
  · rintro ⟨entry, hentry, rfl⟩
    obtain ⟨hentry, hp⟩ := List.mem_filter.1 hentry
    exact ⟨entry.1, List.mem_zipIdx_iff_getElem?.1 hentry, hp⟩
  · rintro ⟨item, hitem, hp⟩
    exact ⟨(item, idx),
      List.mem_filter.2 ⟨List.mem_zipIdx_iff_getElem?.2 hitem, hp⟩, rfl⟩

theorem mem_keptPositions {items : List ResponseItem} {idx : ℕ}
    (h : idx < items.length)
    (hkeeps : idx ∈ positions isStatusMessage items →
      keepsStatus items idx = true) :
    idx ∈ keptPositions items := by
  refine List.mem_map.2 ⟨(items[idx], idx), List.mem_filter.2 ⟨?_, ?_⟩, rfl⟩
  · exact List.mem_zipIdx_iff_getElem?.2 (List.getElem?_eq_getElem h)
  · dsimp only
    split
    next hstatus => exact hkeeps hstatus
    next => rfl

theorem lt_length_of_mem_positions {p : ResponseItem → Bool}
    {items : List ResponseItem}
    {idx : ℕ} (h : idx ∈ positions p items) : idx < items.length := by
  obtain ⟨item, hitem, -⟩ := mem_positions.1 h
  exact (List.getElem?_eq_some_iff.1 hitem).1

/-- The last of some positions, taken from behind. -/
theorem mem_reverse_take_iff {l : List ℕ} {limit idx : ℕ} :
    idx ∈ l.reverse.take limit ↔ idx ∈ Eviction.lastOf (some limit) l := by
  rw [List.take_reverse, List.mem_reverse]
  rfl

/-- The last positions of a kind stay if the status items among them do. -/
theorem mem_keptPositions_of_lastOf {p : ResponseItem → Bool}
    {items : List ResponseItem}
    {limit : ℕ}
    (hkeeps : ∀ idx ∈ (positions p items).reverse.take limit,
      keepsStatus items idx = true) :
    ∀ idx ∈ Eviction.lastOf (some limit) (positions p items),
      idx ∈ keptPositions items := by
  intro idx hlast
  have hmem := List.mem_of_mem_drop hlast
  apply mem_keptPositions (lt_length_of_mem_positions hmem)
  intro _
  exact hkeeps idx (mem_reverse_take_iff.2 hlast)

/-- The items that stay are those at some positions in their order.  Among
these are the positions of all items that are not about the status, the
environment or a screenshot, of the last baseline, of the last three deltas and
of the last two browser snapshots. -/
theorem pruneHistoryItemsOwned_keeps (items : List ResponseItem) :
    ∃ kept : List ℕ, kept.Pairwise (· < ·) ∧
      (pruneHistoryItemsOwned items).map some = kept.map (items[·]?) ∧
      (∀ idx item, items[idx]? = some item →
        isStatusMessage item = false → idx ∈ kept) ∧
      (∀ idx, (positions isEnvBaseline items).getLast? = some idx →
        idx ∈ kept) ∧
      (∀ idx ∈ Eviction.lastOf (some maxEnvDeltas) (positions isEnvDelta items),
        idx ∈ kept) ∧
      (∀ idx ∈
        Eviction.lastOf (some maxBrowserSnapshots)
          (positions isBrowserSnapshot items),
        idx ∈ kept) := by
  refine ⟨keptPositions items, ?_, ?_, ?_, ?_, ?_, ?_⟩
  · have hsub : (keptPositions items).Sublist (items.zipIdx.map (·.2)) :=
      List.filter_sublist.map Prod.snd
    rw [List.zipIdx_map_snd] at hsub
    exact List.Pairwise.sublist hsub (List.pairwise_lt_range' _)
  · rw [pruneHistoryItemsOwned, keptPositions, List.map_map, List.map_map]
    apply List.map_congr_left
    intro entry hentry
    exact (List.mem_zipIdx_iff_getElem?.1 (List.mem_of_mem_filter hentry)).symm
  · intro idx item hitem hstatus
    apply mem_keptPositions (List.getElem?_eq_some_iff.1 hitem).1
    intro hmem
    obtain ⟨marked, hmarked, hmark⟩ := mem_positions.1 hmem
    cases hmarked.symm.trans hitem
    rw [hstatus] at hmark
    cases hmark
  · intro idx hlast
    apply mem_keptPositions
      (lt_length_of_mem_positions (List.mem_of_getLast? hlast))
    intro _
    simp [keepsStatus, hlast]
  · apply mem_keptPositions_of_lastOf
    intro idx hrecent
    simp [keepsStatus, hrecent]
  · apply mem_keptPositions_of_lastOf
    intro idx hrecent
    simp [keepsStatus, hrecent]

end CodeRs.Retention
