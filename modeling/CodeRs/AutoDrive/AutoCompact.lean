import CodeRs.AutoDrive.CoordinatorMessages
import CodeRs.Compaction.Summary
import CodeRs.Lib.Lists
import CodeRs.Lib.Prefixes
import CodeRs.Lib.Runs
import CodeRs.Lib.Utf8
import Mathlib.Algebra.Order.Group.Nat
import Mathlib.Data.Nat.Notation

/-!
# Compacting the Auto Drive conversation

The local compaction of `code-auto-drive-core/src/auto_compact.rs`: the items
after the goal that hold the first half of the tokens, up to the next user
message, are replaced by a summary and, if there is one, the summary before it.
The texts of a conversation are in memory, so no sum of their lengths
overflows.
-/

namespace CodeRs.AutoDrive

open Compaction (makeCompactionSummaryMessage)
open Prefixes
    (firstReaching firstReaching_lt_length exists_firstReaching
      firstReaching_lt_iff)
open Protocol

/-! ## Estimated tokens -/

def bytesPerToken : ℕ := 4

/-- The bytes that an item of content counts. -/
def contentBytes : ContentItem → ℕ
  | .inputText text => text.byteLen
  | .outputText text => text.byteLen
  | .inputImage imageUrl => imageUrl.byteLen / 10

/-- The bytes that an item of a tool output counts. -/
def outputContentBytes : FunctionCallOutputContentItem → ℕ
  | .inputText text => text.byteLen
  | .inputImage imageUrl _ => imageUrl.byteLen / 10

def segmentBytes : ReasoningItemContent → ℕ
  | .reasoningText text => text.byteLen
  | .text text => text.byteLen

/-- The `byte_count` of `estimate_item_tokens`. -/
def itemBytes : ResponseItem → ℕ
  | .message _ _ content _ _ => (content.map contentBytes).sum
  | .functionCall _ name _ arguments _ =>
      Text.byteLen name.toList + arguments.byteLen
  | .functionCallOutput _ output =>
      match output.body with
      | .text content => content.byteLen
      | .contentItems items => (items.map outputContentBytes).sum
  | .customToolCall _ _ _ name _ input =>
      Text.byteLen name.toList + input.byteLen
  | .customToolCallOutput _ _ output => output.display.byteLen
  | .reasoning _ summary content _ =>
      (summary.map Text.byteLen).sum +
        (content.map fun segments => (segments.map segmentBytes).sum).getD 0
  | _ => 0

/-- `estimate_item_tokens`, with `usize::div_ceil`. -/
def estimateItemTokens (item : ResponseItem) : ℕ :=
  (itemBytes item + (bytesPerToken - 1)) / bytesPerToken

/-! ## The slice -/

/-- `advance_to_turn_boundary`: the next user message from a position on, or
the end. -/
def advanceToTurnBoundary (items : Conversation) (startIdx : ℕ) : ℕ :=
  startIdx + (items.drop startIdx).findIdx isUserMessage

/-- The position in the items after the goal at which `compute_slice_bounds`
cuts them: the first one by which half of the tokens are reached. -/
def midpointOffset (afterGoal : Conversation) : ℕ :=
  let tokenCounts := afterGoal.map estimateItemTokens
  let totalTokens := tokenCounts.sum
  if 0 < totalTokens then
    (firstReaching ((totalTokens + 1) / 2) 0 tokenCounts).getD 0
  else (afterGoal.length + 1) / 2

def computeSliceBounds (conversation : Conversation) : Option (ℕ × ℕ) :=
  match conversation.findIdx? isUserMessage with
  | none => none
  | some goalIdx =>
      if conversation.length ≤ goalIdx + 3 then none
      else
        let midpoint :=
          goalIdx + 1 + midpointOffset (conversation.drop (goalIdx + 1))
        let sliceStart := goalIdx + 1
        let sliceEnd := advanceToTurnBoundary conversation (midpoint + 1)
        if sliceEnd ≤ sliceStart then none else some (sliceStart, sliceEnd)

/-- What `apply_compaction` puts in for the previous summary. -/
def previousSummaryItems : Option Text → List ResponseItem
  | none => []
  | some text =>
      if text.trim = [] then [] else [makeCompactionSummaryMessage [] text]

def applyCompaction (conversation : Conversation) (bounds : ℕ × ℕ)
    (prevSummaryText : Option Text) (summaryMessage : ResponseItem) :
    Option Conversation :=
  match conversation.findIdx? isUserMessage with
  | none => none
  | some goalIdx =>
      if bounds.1 ≤ goalIdx ∨ bounds.2 > conversation.length then none
      else
        some (conversation.take (goalIdx + 1) ++
          previousSummaryItems prevSummaryText ++
          [summaryMessage] ++ conversation.drop bounds.2)

/-- `conversation[bounds.0..bounds.1]`. -/
def sliceOf (conversation : Conversation) (bounds : ℕ × ℕ) : Conversation :=
  (conversation.take bounds.2).drop bounds.1

/-! ## The bounds -/

variable {conversation : Conversation} {goalIdx s e : ℕ}

theorem exists_half_reached {tokenCounts : List ℕ}
    (htotal : 0 < tokenCounts.sum) :
    ∃ offset, firstReaching ((tokenCounts.sum + 1) / 2) 0 tokenCounts =
      some offset := by
  have hpos : 0 < (tokenCounts.sum + 1) / 2 := by omega
  have hreached : (tokenCounts.sum + 1) / 2 ≤ 0 + tokenCounts.sum := by omega
  exact exists_firstReaching hpos hreached

theorem midpointOffset_lt {afterGoal : Conversation}
    (hlength : 2 < afterGoal.length) :
    midpointOffset afterGoal < afterGoal.length := by
  simp only [midpointOffset]
  split
  · rename_i htotal
    obtain ⟨offset, hoffset⟩ := exists_half_reached htotal
    have hlt := firstReaching_lt_length hoffset
    rw [List.length_map] at hlt
    rwa [hoffset, Option.getD_some]
  · omega

/-- The end of the slice is not before the position it is advanced from, is
within the conversation if that is, and is at a user message or behind the last
item. -/
theorem advanceToTurnBoundary_spec (items : Conversation) {startIdx : ℕ}
    (hstart : startIdx ≤ items.length) :
    startIdx ≤ advanceToTurnBoundary items startIdx ∧
      advanceToTurnBoundary items startIdx ≤ items.length ∧
      ∀ item, items[advanceToTurnBoundary items startIdx]? = some item →
        isUserMessage item = true := by
  have hle := (items.drop startIdx).findIdx_le_length (p := isUserMessage)
  rw [List.length_drop] at hle
  refine ⟨Nat.le_add_right _ _, ?_, fun item hitem => ?_⟩
  · unfold advanceToTurnBoundary
    omega
  · rw [advanceToTurnBoundary, ← List.getElem?_drop] at hitem
    exact List.findIdx_of_getElem?_eq_some hitem

theorem computeSliceBounds_eq_some_iff :
    computeSliceBounds conversation = some (s, e) ↔
      ∃ goalIdx, conversation.findIdx? isUserMessage = some goalIdx ∧
        goalIdx + 3 < conversation.length ∧ s = goalIdx + 1 ∧
        e = advanceToTurnBoundary conversation
          (goalIdx + 1 + midpointOffset (conversation.drop (goalIdx + 1)) +
            1) := by
  unfold computeSliceBounds
  cases hgoal : conversation.findIdx? isUserMessage with
  | none => simp
  | some goalIdx =>
      have hforward : ∀ start,
          start ≤ advanceToTurnBoundary conversation start :=
        fun start => Nat.le_add_right _ _
      have hend := hforward
        (goalIdx + 1 + midpointOffset (conversation.drop (goalIdx + 1)) + 1)
      by_cases hshort : conversation.length ≤ goalIdx + 3
      · simp only [if_pos hshort, reduceCtorEq, Option.some.injEq, false_iff]
        rintro ⟨_, rfl, hlong, -⟩
        exact absurd hshort hlong.not_ge
      · simp only [if_neg hshort,
          if_neg (show ¬ advanceToTurnBoundary conversation
          (goalIdx + 1 + midpointOffset (conversation.drop (goalIdx + 1)) + 1) ≤
            goalIdx + 1 by omega), Option.some.injEq, Prod.mk.injEq]
        constructor
        · rintro ⟨rfl, rfl⟩
          exact ⟨goalIdx, rfl, not_le.1 hshort, rfl, rfl⟩
        · rintro ⟨_, rfl, -, rfl, rfl⟩
          exact ⟨rfl, rfl⟩

theorem computeSliceBounds_lt
    (h : computeSliceBounds conversation = some (s, e)) :
    s < e ∧ e ≤ conversation.length ∧
      ∀ item, conversation[e]? = some item → isUserMessage item = true := by
  obtain ⟨goalIdx, -, hlong, rfl, rfl⟩ := computeSliceBounds_eq_some_iff.1 h
  have hlength : (conversation.drop (goalIdx + 1)).length =
      conversation.length - (goalIdx + 1) := List.length_drop
  have hmidpoint : midpointOffset (conversation.drop (goalIdx + 1)) <
      (conversation.drop (goalIdx + 1)).length :=
    midpointOffset_lt (by omega)
  have hstart :
      goalIdx + 1 + midpointOffset (conversation.drop (goalIdx + 1)) + 1 ≤
      conversation.length := by
    omega
  obtain ⟨hforward, hend, huser⟩ :=
    advanceToTurnBoundary_spec conversation hstart
  exact ⟨by omega, hend, huser⟩

/-- The slice of a conversation is what is between the goal and the items that a
compaction keeps. -/
theorem take_sliceOf_drop (hs : s ≤ e) :
    conversation.take s ++ sliceOf conversation (s, e) ++ conversation.drop e =
      conversation := by
  have htake : conversation.take s = (conversation.take e).take s := by
    rw [List.take_take, Nat.min_eq_left hs]
  rw [htake, sliceOf, List.take_append_drop, List.take_append_drop]

theorem applyCompaction_eq
    (hgoal : conversation.findIdx? isUserMessage = some goalIdx)
    (hs : goalIdx < s) (hend : e ≤ conversation.length)
    (prevSummaryText : Option Text)
    (summaryMessage : ResponseItem) :
    applyCompaction conversation (s, e) prevSummaryText summaryMessage =
      some (conversation.take (goalIdx + 1) ++
        previousSummaryItems prevSummaryText ++
        [summaryMessage] ++ conversation.drop e) := by
  have hbounds : ¬ (s ≤ goalIdx ∨ e > conversation.length) := by omega
  simp only [applyCompaction, hgoal, if_neg hbounds]

/-- A compaction at the bounds of the slice replaces the slice by the summary,
after the previous one, and nothing else. -/
theorem applyCompaction_sliceBounds
    (h : computeSliceBounds conversation = some (s, e))
    (prevSummaryText : Option Text) (summaryMessage : ResponseItem) :
    ∃ goalIdx, conversation.findIdx? isUserMessage = some goalIdx ∧
      s = goalIdx + 1 ∧ s < e ∧ e ≤ conversation.length ∧
      (∀ item, conversation[e]? = some item → isUserMessage item = true) ∧
      conversation = conversation.take (goalIdx + 1) ++
        sliceOf conversation (s, e) ++
        conversation.drop e ∧
      applyCompaction conversation (s, e) prevSummaryText summaryMessage =
        some (conversation.take (goalIdx + 1) ++
          previousSummaryItems prevSummaryText ++
          [summaryMessage] ++ conversation.drop e) := by
  obtain ⟨hlt, hend, huser⟩ := computeSliceBounds_lt h
  obtain ⟨goalIdx, hgoal, -, rfl, -⟩ := computeSliceBounds_eq_some_iff.1 h
  refine ⟨goalIdx, hgoal, rfl, hlt, hend, huser,
    (take_sliceOf_drop hlt.le).symm, ?_⟩
  exact applyCompaction_eq hgoal (Nat.lt_succ_self goalIdx) hend _ _

/-- A conversation with two steps and a third one to come. -/
def threeSteps : Conversation :=
  [.ofText "system" (.inputText "System".toList),
    .ofText "user" (.inputText "Goal".toList),
    .ofText "assistant" (.inputText "Step 1".toList),
    .ofText "user" (.inputText "Step 2".toList),
    .ofText "assistant" (.inputText "Step 2 done".toList),
    .ofText "user" (.inputText "Step 3".toList)]

theorem applyCompaction_sliceBounds_threeSteps :
    ∃ goalIdx, threeSteps.findIdx? isUserMessage = some goalIdx ∧
      2 = goalIdx + 1 ∧ 2 < 5 ∧ 5 ≤ threeSteps.length ∧
      (∀ item, threeSteps[5]? = some item → isUserMessage item = true) ∧
      threeSteps = threeSteps.take (goalIdx + 1) ++ sliceOf threeSteps (2, 5) ++
        threeSteps.drop 5 ∧
      applyCompaction threeSteps (2,
        5) none (makeCompactionSummaryMessage [] []) =
        some (threeSteps.take (goalIdx + 1) ++ previousSummaryItems none ++
          [makeCompactionSummaryMessage [] []] ++ threeSteps.drop 5) :=
  applyCompaction_sliceBounds (by
    decide) none (makeCompactionSummaryMessage [] [])

/-! ## Whether a compaction shrinks the conversation -/

/-- The items that a compaction puts in. -/
def insertedCount (prevSummaryText : Option Text) : ℕ :=
  (previousSummaryItems prevSummaryText).length + 1

/-- The first one or two items after the goal, no more than are put in, hold
half of the tokens there, and a user message follows them. -/
def Stalls (conversation : Conversation)
    (prevSummaryText : Option Text) : Prop :=
  ∃ goalIdx, conversation.findIdx? isUserMessage = some goalIdx ∧
    ∃ j ≤ insertedCount prevSummaryText,
      (conversation.drop (goalIdx + 1))[j]?.any isUserMessage = true ∧
      0 < ((conversation.drop (goalIdx + 1)).map estimateItemTokens).sum ∧
      ((conversation.drop (goalIdx + 1)).map estimateItemTokens).sum ≤
        2 * (((conversation.drop (goalIdx + 1)).map
          estimateItemTokens).take j).sum

instance Stalls.instDecidable (conversation : Conversation)
    (prevSummaryText : Option Text) :
    Decidable (Stalls conversation prevSummaryText) :=
  match hgoal : conversation.findIdx? isUserMessage with
  | none => isFalse fun ⟨_, hsome, _⟩ => nomatch hgoal.symm.trans hsome
  | some goalIdx =>
      decidable_of_iff
        (∃ j ≤ insertedCount prevSummaryText,
          (conversation.drop (goalIdx + 1))[j]?.any isUserMessage = true ∧
          0 < ((conversation.drop (goalIdx + 1)).map estimateItemTokens).sum ∧
          ((conversation.drop (goalIdx + 1)).map estimateItemTokens).sum ≤
            2 * (((conversation.drop (goalIdx + 1)).map
              estimateItemTokens).take j).sum)
        ⟨fun h => ⟨goalIdx, hgoal, h⟩, fun ⟨_, hsome, h⟩ =>
          Option.some.inj (hgoal.symm.trans hsome) ▸ h⟩

theorem insertedCount_le (prevSummaryText : Option Text) :
    insertedCount prevSummaryText ≤ 2 := by
  unfold insertedCount previousSummaryItems
  split
  · exact Nat.le_succ 1
  · split
    · exact Nat.le_succ 1
    · exact Nat.le_refl 2

/-- The items after the goal are cut within the first two only if these hold
half of the tokens. -/
theorem midpointOffset_lt_iff {afterGoal : Conversation}
    (hlength : 2 < afterGoal.length)
    {j : ℕ} (hj : j ≤ 2) :
    midpointOffset afterGoal < j ↔
      0 < (afterGoal.map estimateItemTokens).sum ∧
        (afterGoal.map estimateItemTokens).sum ≤
          2 * ((afterGoal.map estimateItemTokens).take j).sum := by
  simp only [midpointOffset]
  split
  · rename_i htotal
    obtain ⟨offset, hoffset⟩ := exists_half_reached htotal
    have hreach := firstReaching_lt_iff (by omega) hoffset j
    rw [hoffset, Option.getD_some, hreach]
    omega
  · omega

/-- The slice is no longer than what is put in exactly if the conversation
stalls. -/
theorem sliceBounds_le_iff (h : computeSliceBounds conversation = some (s, e))
    (prevSummaryText : Option Text) :
    e ≤ s + insertedCount prevSummaryText ↔
      Stalls conversation prevSummaryText := by
  obtain ⟨goalIdx, hgoal, hlong, rfl, rfl⟩ := computeSliceBounds_eq_some_iff.1 h
  have hcount := insertedCount_le prevSummaryText
  have hlength : (conversation.drop (goalIdx + 1)).length =
      conversation.length - (goalIdx + 1) := List.length_drop
  -- The position of the boundary among the items after the goal.
  have hboundary : advanceToTurnBoundary conversation
        (goalIdx + 1 + midpointOffset (conversation.drop (goalIdx + 1)) + 1) ≤
          goalIdx + 1 + insertedCount prevSummaryText ↔
      midpointOffset (conversation.drop (goalIdx + 1)) + 1 +
        ((conversation.drop (goalIdx + 1)).drop
          (midpointOffset (conversation.drop (goalIdx + 1)) + 1)).findIdx
          isUserMessage ≤
        insertedCount prevSummaryText := by
    rw [advanceToTurnBoundary, List.drop_drop]
    simp only [Nat.add_assoc]
    omega
  rw [hboundary, add_findIdx_drop_le_iff (by omega)]
  constructor
  · rintro ⟨j, hmidpoint, hj, huser⟩
    have hhalf :=
      (midpointOffset_lt_iff (by omega) (hj.trans hcount)).1 hmidpoint
    exact ⟨goalIdx, hgoal, j, hj, huser, hhalf⟩
  · rintro ⟨_, hgoal', j, hj, huser, hhalf⟩
    obtain rfl := Option.some.inj (hgoal.symm.trans hgoal')
    have hmidpoint :=
      (midpointOffset_lt_iff (by omega) (hj.trans hcount)).2 hhalf
    exact ⟨j, hmidpoint, hj, huser⟩

theorem length_applyCompaction
    (h : computeSliceBounds conversation = some (s, e))
    (prevSummaryText : Option Text) (summaryMessage : ResponseItem) :
    ∃ compacted,
      applyCompaction conversation (s, e) prevSummaryText summaryMessage =
        some compacted ∧
        compacted.length + e =
          s + insertedCount prevSummaryText + conversation.length := by
  obtain ⟨hlt, hend, -⟩ := computeSliceBounds_lt h
  obtain ⟨goalIdx, hgoal, -, rfl, -⟩ := computeSliceBounds_eq_some_iff.1 h
  refine ⟨_, applyCompaction_eq hgoal (Nat.lt_succ_self goalIdx) hend _ _, ?_⟩
  simp only [List.length_append, List.length_take, List.length_drop,
    List.length_singleton,
    insertedCount]
  omega

/-! ## Compacting again and again -/

structure CompactionRound where
  prevSummaryText : Option Text
  summaryMessage : ResponseItem

/-- The compaction of a conversation that has a slice. -/
def compactOnce (conversation : Conversation) (round : CompactionRound) :
    Conversation :=
  ((computeSliceBounds conversation).bind fun bounds =>
    applyCompaction conversation bounds round.prevSummaryText
      round.summaryMessage).getD
    conversation

theorem compactOnce_of_none (h : computeSliceBounds conversation = none)
    (round : CompactionRound) :
    compactOnce conversation round = conversation := by
  rw [compactOnce, h, Option.bind_none, Option.getD_none]

theorem compactOnce_of_some (h : computeSliceBounds conversation = some (s, e))
    (round : CompactionRound) :
    (compactOnce conversation round).length + e =
      s + insertedCount round.prevSummaryText + conversation.length := by
  obtain ⟨compacted, happly, hlength⟩ :=
    length_applyCompaction h round.prevSummaryText round.summaryMessage
  rw [compactOnce, h, Option.bind_some, happly, Option.getD_some, hlength]

theorem length_compactOnce_lt
    (hslice : (computeSliceBounds conversation).isSome = true)
    {round : CompactionRound}
    (h : ¬ Stalls conversation round.prevSummaryText) :
    (compactOnce conversation round).length < conversation.length := by
  obtain ⟨⟨s, e⟩, hbounds⟩ := Option.isSome_iff_exists.1 hslice
  have hlength := compactOnce_of_some hbounds round
  rw [← sliceBounds_le_iff hbounds] at h
  omega

/-- A compaction makes a conversation shorter exactly if it does not stall, and
while it does not, compacting it as often as it has items leaves no slice. -/
theorem compaction_shrinks_iff (conversation : Conversation) :
    (∀ bounds prevSummaryText summaryMessage,
      computeSliceBounds conversation = some bounds →
      ∃ compacted,
        applyCompaction conversation bounds prevSummaryText summaryMessage =
          some compacted ∧
        (compacted.length < conversation.length ↔
          ¬ Stalls conversation prevSummaryText)) ∧
    ∀ rounds : List CompactionRound,
      Along compactOnce (fun reached round =>
        (computeSliceBounds reached).isSome = true →
        ¬ Stalls reached round.prevSummaryText) conversation rounds →
      conversation.length ≤ rounds.length →
      computeSliceBounds (after compactOnce conversation rounds) = none := by
  constructor
  · rintro ⟨s, e⟩ prevSummaryText summaryMessage h
    obtain ⟨compacted, happly, hlength⟩ :=
      length_applyCompaction h prevSummaryText summaryMessage
    refine ⟨compacted, happly, ?_⟩
    rw [← sliceBounds_le_iff h]
    omega
  · intro rounds halong hrounds
    rw [← Option.not_isSome_iff_eq_none]
    refine halong.settled List.length (fun reached hslice => ?_)
      (fun reached round hslice hok =>
        length_compactOnce_lt hslice (hok hslice))
      (fun reached round hnone => ?_) hrounds
    · obtain ⟨⟨s, e⟩, hbounds⟩ := Option.isSome_iff_exists.1 hslice
      obtain ⟨hlt, hend, -⟩ := computeSliceBounds_lt hbounds
      omega
    · exact compactOnce_of_none (Option.not_isSome_iff_eq_none.1 hnone) round

theorem compaction_shrinks_iff_threeSteps :
    computeSliceBounds (after compactOnce threeSteps
      (List.replicate 6 ⟨none, makeCompactionSummaryMessage [] []⟩)) = none :=
  (compaction_shrinks_iff threeSteps).2 _ (by decide +kernel) (by decide)

/-- A checkpoint between the goal and the last turn. -/
def checkpointed : Conversation :=
  [.ofText "user" (.inputText "Fix the parser".toList),
    makeCompactionSummaryMessage [] "The tests still fail".toList,
    .ofText "user" (.inputText "Go on".toList),
    .ofText "assistant" (.outputText "Done".toList)]

/-- The round in which the checkpoint is written once more. -/
def sameCheckpoint : CompactionRound :=
  ⟨none, makeCompactionSummaryMessage [] "The tests still fail".toList⟩

theorem compactOnce_sameCheckpoint :
    compactOnce checkpointed sameCheckpoint = checkpointed := by
  decide +kernel

/-- The checkpoint alone is the slice.  With its text as the previous summary
there are more items after the compaction, and without it the conversation can
stay as it is. -/
theorem not_compaction_shrinks_checkpointed :
    ¬ (∀ conversation bounds prevSummaryText summaryMessage,
        computeSliceBounds conversation = some bounds →
        ∃ compacted,
          applyCompaction conversation bounds prevSummaryText summaryMessage =
            some compacted ∧
          compacted.length < conversation.length) ∧
      ¬ ∀ (conversation : Conversation) (round : CompactionRound),
        ∃ n, computeSliceBounds ((compactOnce · round)^[n] conversation) =
          none := by
  have hbounds : computeSliceBounds checkpointed = some (1, 2) := by
    decide +kernel
  constructor
  · intro h
    obtain ⟨compacted, happly, hlt⟩ := h checkpointed (1, 2)
      (some "The tests still fail".toList)
      (makeCompactionSummaryMessage
        (Compaction.collectCompactionSnippets (sliceOf checkpointed (1, 2)))
        "Nothing new".toList) hbounds
    have hlength : (applyCompaction checkpointed (1, 2)
        (some "The tests still fail".toList)
        (makeCompactionSummaryMessage
          (Compaction.collectCompactionSnippets (sliceOf checkpointed (1, 2)))
          "Nothing new".toList)).map List.length = some 5 := by
      decide +kernel
    rw [happly] at hlength
    have hfive : compacted.length = 5 := Option.some.inj hlength
    rw [hfive] at hlt
    exact absurd hlt (by decide)
  · intro h
    obtain ⟨n, hn⟩ := h checkpointed sameCheckpoint
    have hfixed :
        (compactOnce · sameCheckpoint)^[n] checkpointed = checkpointed :=
      Function.iterate_fixed (f := (compactOnce · sameCheckpoint))
        compactOnce_sameCheckpoint n
    rw [hfixed, hbounds] at hn
    cases hn

end CodeRs.AutoDrive

/-! ## Chunks of a transcript

`chunk_text` of `code-auto-drive-core/src/auto_compact.rs` cuts a flattened
conversation into the pieces that are summarised one after the other.  A piece
ends at the last character boundary within the budget. -/

namespace CodeRs.AutoDrive

def maxTranscriptBytes : ℕ := 32000

/-- The loop of `chunk_text` that steps back to a character boundary. -/
def backToBoundary (text : Text) (start : ℕ) : ℕ → ℕ
  | 0 => 0
  | stop + 1 =>
      if start < stop + 1 ∧ ¬ text.IsBoundary (stop + 1) then
        backToBoundary text start stop
      else stop + 1

/-- The end of the chunk that begins at `start`. -/
def chunkEnd (maxBytes : ℕ) (text : Text) (start : ℕ) : Option ℕ :=
  let len := text.byteLen
  let stop := min (start + maxBytes) len
  if stop < len then
    let back := backToBoundary text start stop
    if back = start then
      -- The next character alone exceeds the budget.
      (text.drain start).map fun rest =>
        start + match rest with
          | c :: _ => c.utf8Size
          | [] => len - start
    else some back
  else some stop

/-- The loop of `chunk_text` from a start on; a slice that panics gives
nothing. -/
def chunksFrom (maxBytes : ℕ) (text : Text) (start : ℕ) : Option (List Text) :=
  if start < text.byteLen then
    (chunkEnd maxBytes text start).bind fun stop =>
      if stop ≤ start then some []
      else
        (text.slice start stop).bind fun chunk =>
          (chunksFrom maxBytes text stop).map (chunk :: ·)
  else some []
termination_by text.byteLen - start
decreasing_by omega

def chunkText (text : Text) : Option (List Text) :=
  if text = [] then some [] else chunksFrom maxTranscriptBytes text 0

/-! ## The end of a chunk -/

variable {text : Text} {start stop maxBytes : ℕ}

/-- The step back ends at the last boundary at or before its start. -/
theorem backToBoundary_spec (hstart : text.IsBoundary start)
    (hle : start ≤ stop) :
    text.IsBoundary (backToBoundary text start stop) ∧
      backToBoundary text start stop ≤ stop ∧
      ∀ n ≤ stop, text.IsBoundary n → n ≤ backToBoundary text start stop := by
  induction stop with
  | zero => exact ⟨text.isBoundary_zero, Nat.le_refl 0, fun n hn _ => hn⟩
  | succ stop ih =>
      rw [backToBoundary]
      split
      next hback =>
        obtain ⟨hboundary, hstop, hlast⟩ := ih (Nat.le_of_lt_succ hback.1)
        refine ⟨hboundary, Nat.le_succ_of_le hstop,
          fun n hn hnb => hlast n ?_ hnb⟩
        have hne : n ≠ stop + 1 := fun h => hback.2 (h ▸ hnb)
        omega
      next hstay =>
        refine ⟨?_, Nat.le_refl _, fun n hn _ => hn⟩
        rcases Nat.lt_or_ge start (stop + 1) with hlt | hge
        · by_contra hboundary
          exact hstay ⟨hlt, hboundary⟩
        · rwa [← Nat.le_antisymm hle hge]

/-- A chunk ends at a boundary within the budget, and holds a character. -/
theorem exists_chunkEnd (before : Text) {rest : Text} (hmax : 4 ≤ maxBytes)
    (hrest : rest ≠ []) :
    ∃ stop, chunkEnd maxBytes (before ++ rest) before.byteLen = some stop ∧
      (before ++ rest : Text).IsBoundary stop ∧ before.byteLen < stop ∧
      stop ≤ before.byteLen + maxBytes := by
  obtain ⟨c, rest, rfl⟩ := List.exists_cons_of_ne_nil hrest
  have hpos := c.utf8Size_pos
  have hfour := c.utf8Size_le_four
  have hlen : (before ++ c :: rest : Text).byteLen =
      before.byteLen + (c.utf8Size + Text.byteLen rest) :=
    Text.byteLen_append _ _
  rw [chunkEnd]
  dsimp only
  split
  next hcut =>
    obtain ⟨hboundary, hle, hlast⟩ :=
      @backToBoundary_spec (before ++ c :: rest) before.byteLen
        (min (before.byteLen + maxBytes) (before ++ c :: rest : Text).byteLen)
        ⟨before, c :: rest, rfl, rfl⟩ (by omega)
    -- The end of the first character is within the budget.
    have hfirst :
        (before ++ c :: rest : Text).IsBoundary (before.byteLen + c.utf8Size) :=
      (Text.isBoundary_append_right _ _ _).2 ⟨[c], rest, rfl, rfl⟩
    have hprogress := hlast _ (by omega) hfirst
    rw [if_neg (by omega)]
    exact ⟨_, rfl, hboundary, by omega, by omega⟩
  next hend =>
    refine ⟨_, rfl, ?_, by omega, by omega⟩
    rw [Nat.min_eq_right (by omega)]
    exact Text.isBoundary_byteLen _

/-! ## All chunks -/

/-- The chunks of the rest of a text are not empty, keep to the budget and make
up the rest. -/
theorem exists_chunksFrom (before rest : Text) (hmax : 4 ≤ maxBytes) :
    ∃ chunks, chunksFrom maxBytes (before ++ rest) before.byteLen =
      some chunks ∧
      chunks.flatten = rest ∧ ∀ chunk ∈ chunks,
        chunk ≠ [] ∧ chunk.byteLen ≤ maxBytes := by
  induction hsize : rest.byteLen using
    Nat.strong_induction_on generalizing before rest with
  | _ size ih =>
      subst hsize
      have hlen := Text.byteLen_append before rest
      rw [chunksFrom]
      split
      next hlt =>
        have hrest : rest ≠ [] := fun h => by
          rw [h, List.append_nil] at hlt
          exact Nat.lt_irrefl _ hlt
        obtain ⟨stop, hstop, hboundary, hprogress, hbudget⟩ :=
          exists_chunkEnd before hmax hrest
        obtain ⟨chunk, tail, rfl, rfl⟩ :=
          hboundary.exists_split (Nat.le_of_lt hprogress)
        rw [Text.byteLen_append] at hlen
        obtain ⟨chunks, hchunks, hflatten, hall⟩ :=
          ih tail.byteLen (by rw [Text.byteLen_append]; omega)
            (before ++ chunk) tail rfl
        rw [List.append_assoc, Text.byteLen_append] at hchunks
        have hslice := Text.slice_append before chunk tail
        rw [List.append_assoc] at hslice
        rw [hstop, Option.bind_some, if_neg (by omega), hslice,
          Option.bind_some, hchunks]
        refine ⟨chunk :: chunks, rfl, by rw [List.flatten_cons, hflatten], ?_⟩
        rw [List.forall_mem_cons]
        refine ⟨⟨fun h => ?_, by omega⟩, hall⟩
        rw [h, Text.byteLen_nil] at hprogress
        omega
      next hge =>
        have hnil : rest = [] := Text.byteLen_eq_zero.1 (by omega)
        exact ⟨[], rfl, hnil.symm,
          fun chunk hmem => absurd hmem (List.not_mem_nil)⟩

/-- A transcript is cut at character boundaries into chunks that are not empty,
keep to the budget and make it up. -/
theorem chunkText_cuts (text : Text) :
    ∃ chunks, chunkText text = some chunks ∧ chunks.flatten = text ∧
      ∀ (before : List Text) (chunk : Text) (after : List Text),
        chunks = before ++ chunk :: after →
          chunk ≠ [] ∧ chunk.byteLen ≤ maxTranscriptBytes ∧
            let start := Text.byteLen before.flatten
            text.IsBoundary start ∧ text.IsBoundary (start + chunk.byteLen) ∧
              text.slice start (start + chunk.byteLen) = some chunk := by
  have hchunks : ∃ chunks, chunkText text = some chunks ∧
      chunks.flatten = text ∧
      ∀ chunk ∈ chunks, chunk ≠ [] ∧ chunk.byteLen ≤ maxTranscriptBytes := by
    rw [chunkText]
    split
    next hempty =>
      exact ⟨[], rfl, hempty.symm,
        fun chunk hmem => absurd hmem (List.not_mem_nil)⟩
    next => exact exists_chunksFrom [] text (by decide)
  obtain ⟨chunks, hsome, hflatten, hall⟩ := hchunks
  refine ⟨chunks, hsome, hflatten, ?_⟩
  rintro before chunk after rfl
  obtain ⟨hne, hbudget⟩ :=
    hall chunk (List.mem_append_right _ List.mem_cons_self)
  rw [List.flatten_append, List.flatten_cons, ← List.append_assoc] at hflatten
  subst hflatten
  refine ⟨hne, hbudget, ?_, ?_, Text.slice_append _ _ _⟩
  · exact ⟨before.flatten, chunk ++ after.flatten, List.append_assoc _ _ _, rfl⟩
  · exact ⟨before.flatten ++ chunk, after.flatten, rfl, Text.byteLen_append _ _⟩

end CodeRs.AutoDrive
