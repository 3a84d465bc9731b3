import CodeRs.AutoDrive.AutoCompact
import CodeRs.Lib.Runs
import CodeRs.Lib.Saturating

/-!
# The converted history of Auto Drive

`AutoDriveHistory` of `code-auto-drive-core/src/auto_drive_history.rs` keeps
the conversation that was last derived from the screen and a queue of the
messages that were appended to the raw one and are expected in it.  What a
longer conversation adds is its tail.  A tail that replays the queue after a
user message is dropped, and of any other one the beginning that the queue has.
The token counts of the metrics are left out.
-/

namespace CodeRs.AutoDrive

open Prefixes (firstReaching)
open Protocol (ResponseItem ContentItem)

/-! ## Messages -/

inductive NormalizedContent where
  | inputText (text : Text)
  | outputText (text : Text)
  | inputImage (imageUrl : Text)
  deriving DecidableEq

structure NormalizedMessage where
  role : String
  content : List NormalizedContent
  deriving DecidableEq

/-- The normal form of an item of content. -/
def normalizeContent : ContentItem → NormalizedContent
  | .inputText text => .inputText text
  | .outputText text => .outputText text
  | .inputImage imageUrl => .inputImage imageUrl

def normalizeMessage : ResponseItem → Option NormalizedMessage
  | .message _ role content _ _ => some ⟨role, content.map normalizeContent⟩
  | _ => none

def contentText : NormalizedContent → Option Text
  | .inputText text | .outputText text | .inputImage text => some text

/-! ## The history -/

/-- The counters of `SessionMetrics` that the history changes. -/
structure SessionMetrics where
  duplicateItems : ℕ := 0
  replayUpdates : ℕ := 0
  deriving DecidableEq

def SessionMetrics.recordDuplicateItems (m : SessionMetrics) (count : ℕ) :
    SessionMetrics :=
  if count = 0 then m
  else { m with duplicateItems := satAdd32 m.duplicateItems (min count u32Max) }

def SessionMetrics.recordReplay (m : SessionMetrics) : SessionMetrics :=
  { m with replayUpdates := satAdd32 m.replayUpdates 1 }

structure AutoDriveHistory where
  converted : Conversation := []
  raw : Conversation := []
  pendingDuplicates : List NormalizedMessage := []
  prevCompactSummary : Option Text := none
  sessionMetrics : SessionMetrics := {}
  deriving DecidableEq

/-- The item is the message that the queue has first. -/
def isExpected (item : ResponseItem) (queue : List NormalizedMessage) : Bool :=
  match normalizeMessage item, queue.head? with
  | some message, some expected => message = expected
  | _, _ => false

/-- The loop of `replace_converted`: the items that are returned, the queue and
the metrics. -/
def filterTail : Conversation → List NormalizedMessage → SessionMetrics →
    Conversation × List NormalizedMessage × SessionMetrics
  | [], queue, metrics => ([], queue, metrics)
  | item :: tail, queue, metrics =>
      if isExpected item queue then
        filterTail tail queue.tail (metrics.recordDuplicateItems 1)
      else
        -- The queue is cleared at the first item that is not expected.
        let (filtered, queue, metrics) := filterTail tail [] metrics
        (item :: filtered, queue, metrics)

namespace AutoDriveHistory

/-- The item has the role and the texts of a message. -/
def replays (item : ResponseItem) (expected : NormalizedMessage) : Bool :=
  match normalizeMessage item with
  | none => false
  | some message =>
      message.role = expected.role &&
        message.content.filterMap contentText =
          expected.content.filterMap contentText

def shouldSkipEntireTail (h : AutoDriveHistory) (tail : Conversation) : Bool :=
  !h.pendingDuplicates.isEmpty &&
    tail.length = h.pendingDuplicates.length + 1 &&
    tail.head?.any isUserMessage &&
    ((tail.drop 1).zip h.pendingDuplicates).all fun pair =>
      replays pair.1 pair.2

def replaceConverted (h : AutoDriveHistory) (items : Conversation) :
    AutoDriveHistory × Conversation :=
  let prevLen := h.converted.length
  let h' := { h with converted := items }
  let tail := if items.length ≤ prevLen then [] else items.drop prevLen
  if tail = [] then (h', tail)
  else if h.shouldSkipEntireTail tail then
    ({ h' with
        pendingDuplicates := []
        sessionMetrics :=
          (h.sessionMetrics.recordDuplicateItems (tail.length - 1)).recordReplay
            }, [])
  else if h.pendingDuplicates = [] then (h', tail)
  else
    let (filtered, queue, metrics) :=
      filterTail tail h.pendingDuplicates h.sessionMetrics
    ({ h' with pendingDuplicates := queue, sessionMetrics := metrics },
      filtered)

def appendRaw (h : AutoDriveHistory) (items : Conversation) :
    AutoDriveHistory :=
  { h with
    raw := h.raw ++ items
    pendingDuplicates := h.pendingDuplicates ++
      items.filterMap normalizeMessage }

def appendConvertedTail (h : AutoDriveHistory) (items : Conversation) :
    AutoDriveHistory :=
  { h with raw := h.raw ++ items }

def replaceAll (h : AutoDriveHistory) (items : Conversation) :
    AutoDriveHistory :=
  { h with converted := items, raw := items, pendingDuplicates := [] }

def applyTokenMetrics (h : AutoDriveHistory)
    (duplicateItems replayUpdates : ℕ) :
    AutoDriveHistory :=
  { h with sessionMetrics := ⟨duplicateItems, replayUpdates⟩ }

/-- The bounds of the slice that `compact_slice` replaces. -/
def compactSliceBounds (converted : Conversation) : Option (ℕ × ℕ) :=
  match converted.findIdx? isUserMessage with
  | none => none
  | some goalIdx =>
      if converted.length ≤ goalIdx + 3 then none
      else
        let tokenCounts := (converted.drop (goalIdx + 1)).map estimateItemTokens
        let totalTokens := tokenCounts.sum
        if totalTokens < 1000 then none
        else
          let midpointIdx := goalIdx + 1 +
            (firstReaching (totalTokens / 2) 0 tokenCounts).getD 0
          let sliceEnd := advanceToTurnBoundary converted midpointIdx
          if sliceEnd ≤ goalIdx + 1 then none else some (goalIdx + 1, sliceEnd)

/-- The item that `compact_slice` puts in. -/
def compactItem (summaryText : Text) : ResponseItem :=
  .ofText "user" (.inputText
    ("<compact_summary>\n".toList ++ summaryText ++
      "\n</compact_summary>".toList))

def compactSlice (h : AutoDriveHistory) (summarizer : Conversation → Text) :
    AutoDriveHistory × Bool :=
  match compactSliceBounds h.converted with
  | none => (h, false)
  | some bounds =>
      let summaryText := summarizer (sliceOf h.converted bounds)
      ({ h with
          converted := h.converted.take bounds.1 ++ compactItem summaryText ::
            h.converted.drop bounds.2
          prevCompactSummary := some summaryText }, true)

end AutoDriveHistory

/-- The methods that change a history. -/
inductive HistoryUpdate where
  | replaceConverted (items : Conversation)
  | appendRaw (items : Conversation)
  | appendConvertedTail (items : Conversation)
  | replaceAll (items : Conversation)
  | clear
  | applyTokenMetrics (duplicateItems replayUpdates : ℕ)
  | compactSlice (summarizer : Conversation → Text)

namespace AutoDriveHistory

def update (h : AutoDriveHistory) : HistoryUpdate → AutoDriveHistory
  | .replaceConverted items => (h.replaceConverted items).1
  | .appendRaw items => h.appendRaw items
  | .appendConvertedTail items => h.appendConvertedTail items
  | .replaceAll items => h.replaceAll items
  | .clear => {}
  | .applyTokenMetrics duplicateItems replayUpdates =>
      h.applyTokenMetrics duplicateItems replayUpdates
  | .compactSlice summarizer => (h.compactSlice summarizer).1

end AutoDriveHistory

/-- The messages that an update delivers to the raw conversation and puts on
the queue. -/
def HistoryUpdate.delivered : HistoryUpdate → List NormalizedMessage
  | .appendRaw items => items.filterMap normalizeMessage
  | _ => []

/-! ## The tail that is returned -/

variable {item : ResponseItem} {queue : List NormalizedMessage}

theorem isExpected_iff :
    isExpected item queue = true ↔
      ∃ message rest, queue = message :: rest ∧
        normalizeMessage item = some message := by
  cases queue with
  | nil =>
      cases hmessage : normalizeMessage item <;> simp [isExpected, hmessage]
  | cons expected rest =>
      cases hmessage : normalizeMessage item with
      | none => simp [isExpected, hmessage]
      | some message => simp [isExpected, hmessage, eq_comm]

/-- Without a queue every item is returned. -/
theorem filterTail_nil (tail : Conversation) (metrics : SessionMetrics) :
    filterTail tail [] metrics = (tail, [], metrics) := by
  induction tail with
  | nil => rfl
  | cons item tail ih =>
      have hnot : ¬ isExpected item [] = true := fun h => by
        obtain ⟨message, rest, hnil, -⟩ := isExpected_iff.1 h
        exact absurd hnil (List.cons_ne_nil message rest).symm
      rw [filterTail, if_neg hnot, ih]

/-- The longest beginning of the tail that the queue has in its order. -/
structure Delivered (tail : Conversation) (queue : List NormalizedMessage)
    (delivered filtered : Conversation) : Prop where
  tail_eq : tail = delivered ++ filtered
  matched : delivered.map normalizeMessage =
    (queue.take delivered.length).map some
  longest : ∀ item ∈ filtered.head?,
    ¬ isExpected item (queue.drop delivered.length) = true

/-- What the loop drops is the longest beginning that the queue has, and what
it leaves of the queue is behind it. -/
theorem filterTail_spec (tail : Conversation) (queue : List NormalizedMessage)
    (metrics : SessionMetrics) :
    ∃ delivered,
      Delivered tail queue delivered (filterTail tail queue metrics).1 ∧
      (filterTail tail queue metrics).2.1 =
        if (filterTail tail queue metrics).1 = [] then
          queue.drop delivered.length else [] := by
  induction tail generalizing queue metrics with
  | nil => exact ⟨[], ⟨rfl, rfl, fun item hitem => (by cases hitem)⟩, rfl⟩
  | cons item tail ih =>
      rw [filterTail]
      split
      next hexpected =>
        obtain ⟨message, rest, rfl, hmessage⟩ := isExpected_iff.1 hexpected
        obtain ⟨delivered, ⟨htail, hmatched, hlongest⟩, hqueue⟩ :=
          ih rest (metrics.recordDuplicateItems 1)
        refine ⟨item :: delivered, ⟨?_, ?_, hlongest⟩, hqueue⟩
        · rw [List.cons_append, List.tail_cons, ← htail]
        · rw [List.map_cons, hmatched, hmessage]
          rfl
      next hnot =>
        rw [filterTail_nil]
        exact ⟨[],
          ⟨rfl, rfl, fun first hfirst => Option.some.inj hfirst ▸ hnot⟩, rfl⟩

/-- A message of the user and then, item by item, the roles and texts of a
queue. -/
def IsReplay (tail : Conversation) (queue : List NormalizedMessage) : Prop :=
  queue ≠ [] ∧ ∃ first rest, tail = first :: rest ∧ isUserMessage first = true ∧
    List.Forall₂ (fun item expected => AutoDriveHistory.replays item expected =
      true)
      rest queue

namespace AutoDriveHistory

variable (h : AutoDriveHistory) (items : Conversation)

theorem shouldSkipEntireTail_iff (tail : Conversation) :
    h.shouldSkipEntireTail tail = true ↔ IsReplay tail h.pendingDuplicates := by
  cases tail with
  | nil =>
      refine ⟨fun hskip => ?_, fun ⟨_, first, rest, hnil, _⟩ => by cases hnil⟩
      simp [shouldSkipEntireTail] at hskip
  | cons first rest =>
      simp only [shouldSkipEntireTail, IsReplay, List.forall₂_iff_zip,
        Bool.and_eq_true,
        Bool.not_eq_true', List.isEmpty_eq_false_iff, decide_eq_true_eq,
        List.length_cons,
        Nat.add_right_cancel_iff, List.head?_cons, Option.any_some,
        List.drop_succ_cons,
        List.drop_zero, List.all_eq_true, Prod.forall, List.cons.injEq]
      constructor
      · rintro ⟨⟨⟨hqueue, hlength⟩, huser⟩, hall⟩
        exact ⟨hqueue, first, rest, ⟨rfl, rfl⟩, huser, hlength,
          fun {a b} => hall a b⟩
      · rintro ⟨hqueue, _, _, ⟨rfl, rfl⟩, huser, hlength, hall⟩
        exact ⟨⟨⟨hqueue, hlength⟩, huser⟩, fun a b => hall⟩

theorem replaceConverted_cases :
    (h.replaceConverted items).1.converted = items ∧
      (h.replaceConverted items).1.raw = h.raw ∧
      (items.length ≤ h.converted.length →
        (h.replaceConverted items).2 = [] ∧
          (h.replaceConverted items).1.pendingDuplicates =
            h.pendingDuplicates) ∧
      (h.converted.length < items.length →
        if h.shouldSkipEntireTail (items.drop h.converted.length) then
          (h.replaceConverted items).2 = [] ∧
            (h.replaceConverted items).1.pendingDuplicates = []
        else
          ∃ delivered,
            Delivered (items.drop h.converted.length)
              h.pendingDuplicates delivered
              (h.replaceConverted items).2 ∧
            (h.replaceConverted items).1.pendingDuplicates =
              if (h.replaceConverted items).2 = [] then
                h.pendingDuplicates.drop delivered.length
              else []) := by
  by_cases hlen : items.length ≤ h.converted.length
  · have heq :
        h.replaceConverted items = ({ h with converted := items }, []) := by
      simp [replaceConverted, hlen]
    rw [heq]
    exact ⟨rfl, rfl, fun _ => ⟨rfl, rfl⟩,
      fun hlt => absurd hlen (Nat.not_le.2 hlt)⟩
  · have htail : items.drop h.converted.length ≠ [] := fun hnil =>
      hlen (List.drop_eq_nil_iff.1 hnil)
    simp only [replaceConverted, if_neg hlen, if_neg htail]
    split
    next hskip =>
      exact ⟨rfl, rfl, fun hle => absurd hle hlen, fun _ => ⟨rfl, rfl⟩⟩
    next hskip =>
      split
      next hnone =>
        refine ⟨rfl, rfl, fun hle => absurd hle hlen,
          fun _ => ⟨[], ⟨rfl, rfl, ?_⟩, hnone⟩⟩
        intro item _ hexpected
        obtain ⟨message, rest, hcons, -⟩ := isExpected_iff.1 hexpected
        rw [hnone] at hcons
        cases hcons
      next =>
        obtain ⟨delivered, hdelivered, hqueue⟩ := filterTail_spec
          (items.drop h.converted.length) h.pendingDuplicates h.sessionMetrics
        exact ⟨rfl, rfl, fun hle => absurd hle hlen,
          fun _ => ⟨delivered, hdelivered, hqueue⟩⟩

/-- An update takes messages from the front of the queue only. -/
theorem pendingDuplicates_update (u : HistoryUpdate) :
    (h.update u).pendingDuplicates <:+ h.pendingDuplicates ++ u.delivered := by
  have hkeep : ∀ queue : List NormalizedMessage, queue <:+ queue ++ [] :=
    fun queue =>
      (List.append_nil queue).symm ▸ List.suffix_refl queue
  cases u with
  | replaceConverted items =>
      obtain ⟨-, -, hshort, hlong⟩ := h.replaceConverted_cases items
      have hnone : (HistoryUpdate.replaceConverted items).delivered = [] := rfl
      rw [hnone, List.append_nil, update]
      rcases Nat.lt_or_ge h.converted.length items.length with hlt | hge
      · have hcases := hlong hlt
        split at hcases
        next =>
          rw [hcases.2]
          exact List.nil_suffix
        next =>
          obtain ⟨delivered, -, hqueue⟩ := hcases
          rw [hqueue]
          split
          · exact List.drop_suffix _ _
          · exact List.nil_suffix
      · rw [(hshort hge).2]
  | appendRaw items => exact List.suffix_refl _
  | appendConvertedTail items => exact hkeep h.pendingDuplicates
  | replaceAll items => exact List.nil_suffix
  | clear => exact List.nil_suffix
  | applyTokenMetrics duplicateItems replayUpdates =>
      exact hkeep h.pendingDuplicates
  | compactSlice summarizer =>
      have hpending : (h.update (.compactSlice summarizer)).pendingDuplicates =
          h.pendingDuplicates := by
        simp only [update, compactSlice]
        split <;> rfl
      rw [hpending]
      exact hkeep h.pendingDuplicates

/-- The queue holds the newest of the messages that were delivered. -/
theorem pendingDuplicates_after (updates : List HistoryUpdate) :
    (after update h updates).pendingDuplicates <:+
      h.pendingDuplicates ++ updates.flatMap HistoryUpdate.delivered := by
  induction updates generalizing h with
  | nil =>
      rw [List.flatMap_nil, List.append_nil]
      exact List.suffix_refl _
  | cons u rest ih =>
      obtain ⟨dropped, hdropped⟩ := h.pendingDuplicates_update u
      have hrest := ih (h.update u)
      rw [List.flatMap_cons, ← List.append_assoc, ← hdropped, List.append_assoc]
      exact hrest.trans (List.suffix_append _ _)

end AutoDriveHistory

/-- In every run a replacement stores the conversation, and what it returns is
the tail less its longest beginning that the queue has; the queue holds the
newest messages that were delivered. -/
theorem AutoDriveHistory.replaceConverted_returns (updates : List HistoryUpdate)
    (items : Conversation) :
    let h := after AutoDriveHistory.update {} updates
    let tail := items.drop h.converted.length
    let returned := (h.replaceConverted items).2
    (h.replaceConverted items).1.converted = items ∧
      h.pendingDuplicates <:+ updates.flatMap HistoryUpdate.delivered ∧
      (items.length ≤ h.converted.length → returned = []) ∧
      (h.converted.length < items.length → IsReplay tail h.pendingDuplicates →
        returned = [] ∧ (h.replaceConverted items).1.pendingDuplicates = []) ∧
      (h.converted.length < items.length → ¬ IsReplay tail h.pendingDuplicates →
        ∃ delivered, Delivered tail h.pendingDuplicates delivered returned ∧
          (h.converted <+: items →
            items = h.converted ++ delivered ++ returned) ∧
          (h.replaceConverted items).1.pendingDuplicates =
            if returned = [] then h.pendingDuplicates.drop delivered.length
              else []) := by
  intro h tail returned
  obtain ⟨hconverted, -, hshort, hlong⟩ := h.replaceConverted_cases items
  have hpending :
      h.pendingDuplicates <:+ updates.flatMap HistoryUpdate.delivered :=
    AutoDriveHistory.pendingDuplicates_after {} updates
  refine ⟨hconverted, hpending, fun hle => (hshort hle).1,
    fun hlt hreplay => ?_,
    fun hlt hreplay => ?_⟩
  · have hcases := hlong hlt
    rwa [if_pos ((h.shouldSkipEntireTail_iff tail).2 hreplay)] at hcases
  · have hcases := hlong hlt
    rw [if_neg
      fun hskip =>
      hreplay ((h.shouldSkipEntireTail_iff tail).1 hskip)] at hcases
    obtain ⟨delivered, hdelivered, hqueue⟩ := hcases
    refine ⟨delivered, hdelivered, fun hprefix => ?_, hqueue⟩
    rw [List.append_assoc, ← hdelivered.tail_eq]
    exact (List.prefix_iff_eq_append.1 hprefix).symm

/-! ## Items that are withheld or come back -/

def userMessage (text : String) : ResponseItem :=
  .ofText "user" (.inputText text.toList)

/-- A reply that is on the queue comes back after a follow-up of the user: the
follow-up is withheld.  So is the only message of a conversation that is not
longer, and a conversation that begins anew and ends with the earlier one
returns the earlier message.  Where more follows, the follow-up is returned,
and the reply that was delivered before with it. -/
theorem AutoDriveHistory.not_replaceConverted_returns_new :
    (¬ ∀ (updates : List HistoryUpdate) (items : Conversation),
        let h := after AutoDriveHistory.update {} updates
        ∀ item ∈ items.drop h.converted.length, item ∉ h.converted →
          normalizeMessage item ∉ h.pendingDuplicates.map some →
          item ∈ (h.replaceConverted items).2) ∧
      (¬ ∀ (updates : List HistoryUpdate) (items : Conversation),
        let h := after AutoDriveHistory.update {} updates
        ∀ item ∈ items, item ∉ h.converted → h.pendingDuplicates = [] →
          item ∈ (h.replaceConverted items).2) ∧
      (¬ ∀ (updates : List HistoryUpdate) (items : Conversation),
        let h := after AutoDriveHistory.update {} updates
        ∀ item ∈ (h.replaceConverted items).2, item ∉ h.converted) ∧
      ¬ ∀ (updates : List HistoryUpdate) (items : Conversation),
        let h := after AutoDriveHistory.update {} updates
        ∀ item ∈ (h.replaceConverted items).2,
          normalizeMessage item ∉ h.pendingDuplicates.map some := by
  have hfollowUp : ∃ updates items, ∃ item ∈ items.drop
      (after AutoDriveHistory.update {} updates).converted.length,
      item ∉ (after AutoDriveHistory.update {} updates).converted ∧
      normalizeMessage item ∉
        (after AutoDriveHistory.update {} updates).pendingDuplicates.map some ∧
      item ∉
        ((after AutoDriveHistory.update {} updates).replaceConverted items).2 :=
    ⟨[.replaceConverted [userMessage "Goal"],
        .appendRaw [.ofText "assistant" (.outputText "Reply".toList)]],
      [userMessage "Goal", userMessage "Follow-up",
        .ofText "assistant" (.outputText "Reply".toList)],
      userMessage "Follow-up", by decide +kernel⟩
  have hrewritten : ∃ updates items, ∃ item ∈ items,
      item ∉ (after AutoDriveHistory.update {} updates).converted ∧
      (after AutoDriveHistory.update {} updates).pendingDuplicates = [] ∧
      item ∉
        ((after AutoDriveHistory.update {} updates).replaceConverted items).2 :=
    ⟨[.replaceConverted [userMessage "Goal"]], [userMessage "Other goal"],
      userMessage "Other goal", by decide +kernel⟩
  have hreturned : ∃ updates items,
      ∃ item ∈
        ((after AutoDriveHistory.update {} updates).replaceConverted items).2,
      item ∈ (after AutoDriveHistory.update {} updates).converted :=
    ⟨[.replaceConverted [userMessage "Goal"]],
      [userMessage "Preface", userMessage "Goal"],
      userMessage "Goal", by decide +kernel⟩
  have hdelivered : ∃ updates items,
      ∃ item ∈
        ((after AutoDriveHistory.update {} updates).replaceConverted items).2,
      normalizeMessage item ∈
        (after AutoDriveHistory.update {} updates).pendingDuplicates.map some :=
    ⟨[.replaceConverted [userMessage "Goal"],
        .appendRaw [.ofText "assistant" (.outputText "Reply".toList)]],
      [userMessage "Goal", userMessage "Follow-up",
        .ofText "assistant" (.outputText "Reply".toList), userMessage "Next"],
      .ofText "assistant" (.outputText "Reply".toList), by decide +kernel⟩
  refine ⟨fun hall => ?_, fun hall => ?_, fun hall => ?_, fun hall => ?_⟩
  · obtain ⟨updates, items, item, hmem, hnew, hpending, hwithheld⟩ := hfollowUp
    exact hwithheld (hall updates items item hmem hnew hpending)
  · obtain ⟨updates, items, item, hmem, hnew, hpending, hwithheld⟩ := hrewritten
    exact hwithheld (hall updates items item hmem hnew hpending)
  · obtain ⟨updates, items, item, hmem, hold⟩ := hreturned
    exact hall updates items item hmem hold
  · obtain ⟨updates, items, item, hmem, hpending⟩ := hdelivered
    exact hall updates items item hmem hpending

end CodeRs.AutoDrive
