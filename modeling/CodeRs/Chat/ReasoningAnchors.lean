import CodeRs.Chat.Messages

/-!
# The reasoning of a chat request

A first pass attaches the reasoning behind the last user message to anchors,
and a second one sends what it finds at the calls.  Only a message of calls is
sent with a reasoning, and a custom tool call is no anchor of the first pass.
-/

namespace CodeRs.Chat

open Grouping Protocol

/-! ## Anchors -/

/-- The item next to a reasoning that it belongs to. -/
def isNeighbour (item : ResponseItem) : Bool :=
  hasRole "assistant" item || isToolCall item

/-- Where a reasoning belongs: to an assistant message before it, or else to an
assistant message or a call behind it. -/
def neighbourOf (input : List InputItem) (idx : ℕ) : Option ℕ :=
  if (itemBefore input idx).any (hasRole "assistant") = true then some (idx - 1)
  else if (itemAfter input idx).any isNeighbour = true then some (idx + 1)
  else none

/-- The texts behind the last user message that have an anchor. -/
def textsAt (input : List InputItem) (anchor : ℕ → Option ℕ) (idx : ℕ)
    (entries : List (InputItem × ℕ)) : List Text :=
  (entries.filter fun entry => isAfterLastUser input entry.2 &&
    anchor entry.2 = some idx).filterMap
    fun entry => reasoningText entry.1.item

/-- Texts behind a text, if there is one. -/
def joinTexts (before : Option Text) (texts : List Text) : Option Text :=
  if texts = [] then before else some (before.getD [] ++ texts.flatten)

/-- The reasoning that belongs to an item. -/
def neighbourReasoning (input : List InputItem) (idx : ℕ) : Option Text :=
  joinTexts none (textsAt input (neighbourOf input) idx input.zipIdx)

/-- The last item is a user message. -/
def EndsWithUser (input : List InputItem) : Prop :=
  ∃ entry, input.getLast? = some entry ∧ hasRole "user" entry.item = true

/-- Every message has the reasoning of its items, and no message has one behind
a user message. -/
def SendsReasoning (input : List InputItem) (messages : List Json) : Prop :=
  (¬ EndsWithUser input →
    List.Forall₂ (fun run message => message.get "reasoning" =
      (runReasoning (neighbourReasoning input) run).map jsonText)
    ([] :: messageRuns input.zipIdx) messages) ∧
  (EndsWithUser input → ∀ message ∈ messages, message.get "reasoning" = none)

def isCustomCall : ResponseItem → Bool
  | .customToolCall .. => true
  | _ => false

/-- A reasoning is next to an assistant message, or before a custom tool
call. -/
def LosesReasoning (input : List InputItem) (idx : ℕ)
    (item : ResponseItem) : Prop :=
  isAfterLastUser input idx = true ∧ (reasoningText item).isSome = true ∧
    ((itemBefore input idx).any (hasRole "assistant") = true ∨
      (itemAfter input idx).any (hasRole "assistant") = true ∨
      (itemAfter input idx).any isCustomCall = true)

variable (input : List InputItem)

/-! ## The first pass -/

theorem joinTexts_append (before : Option Text) (texts texts' : List Text) :
    joinTexts before (texts ++ texts') =
      joinTexts (joinTexts before texts) texts' := by
  cases texts with
  | nil => rfl
  | cons text texts =>
      cases texts' with
      | nil => rw [List.append_nil]; rfl
      | cons text' texts' => simp [joinTexts]

theorem joinTexts_eq_none {texts : List Text} :
    joinTexts none texts = none ↔ texts = [] := by
  rw [joinTexts]
  split
  next h => exact iff_of_true rfl h
  next h => exact iff_of_false (Option.some_ne_none _) h

theorem attachReasoning_apply (anchors : ℕ → Option Text)
    (entry : InputItem × ℕ) (idx : ℕ) :
    attachReasoning input anchors entry idx =
      joinTexts (anchors idx) (textsAt input (anchorOf input) idx [entry]) := by
  rw [attachReasoning, textsAt]
  cases hafter : isAfterLastUser input entry.2 with
  | false => simp [hafter, joinTexts]
  | true =>
      cases htext : reasoningText entry.1.item with
      | none =>
          have hnone :
              ([entry].filter fun entry => isAfterLastUser input entry.2 &&
              anchorOf input entry.2 = some idx).filterMap
                (fun entry => reasoningText entry.1.item) = [] := by
            rw [List.filterMap_eq_nil_iff]
            intro entry' hentry'
            rw [List.mem_singleton.1 (List.mem_of_mem_filter hentry'), htext]
          rw [hnone]
          rfl
      | some text =>
          cases hanchor : anchorOf input entry.2 with
          | none => simp [hanchor, joinTexts]
          | some anchor =>
              by_cases heq : anchor = idx
              · subst heq
                simp [hafter, hanchor, htext, attach, joinTexts]
              · simp [hanchor, attach, joinTexts, heq, Ne.symm heq]

theorem foldl_attachReasoning (entries : List (InputItem × ℕ))
    (anchors : ℕ → Option Text)
    (idx : ℕ) :
    entries.foldl (attachReasoning input) anchors idx =
      joinTexts (anchors idx) (textsAt input (anchorOf input) idx entries) := by
  induction entries generalizing anchors with
  | nil => rfl
  | cons entry entries ih =>
      rw [List.foldl_cons, ih, attachReasoning_apply, ← joinTexts_append,
        textsAt, textsAt,
        textsAt, ← List.filterMap_append, ← List.filter_append,
        List.singleton_append]

theorem reasoningByAnchorIndex_apply (idx : ℕ) :
    reasoningByAnchorIndex input idx =
      if lastEmittedRole input = some "user" then none
      else
        joinTexts none (textsAt input (anchorOf input) idx input.zipIdx) := by
  rw [reasoningByAnchorIndex]
  split
  · rfl
  · exact foldl_attachReasoning input _ _ idx

/-! ## Anchors of the first pass -/

variable {input} {idx anchor : ℕ} {entry : InputItem}

theorem any_itemAt_iff (p : ResponseItem → Bool) (i : ℕ) :
    ((input[i]?).map InputItem.item).any p = true ↔
      ∃ entry, input[i]? = some entry ∧ p entry.item = true := by
  cases input[i]? <;> simp

theorem any_itemBefore_iff (p : ResponseItem → Bool) :
    (itemBefore input idx).any p = true ↔
      0 < idx ∧ ∃ entry, input[idx - 1]? = some entry ∧
        p entry.item = true := by
  rw [itemBefore]
  split
  next h => rw [any_itemAt_iff, and_iff_right h]
  next h => simp [h]

theorem any_itemAfter_iff (p : ResponseItem → Bool) :
    (itemAfter input idx).any p = true ↔
      ∃ entry, input[idx + 1]? = some entry ∧ p entry.item = true :=
  any_itemAt_iff p (idx + 1)

theorem isNeighbour_eq (item : ResponseItem) :
    isNeighbour item = (isNextAnchor item || isCustomCall item) := by
  cases item <;> rfl

theorem isSent_of_hasRole {item : ResponseItem} {role : String}
    (h : hasRole role item = true) :
    isSent item = true ∧ isToolCall item = false ∧
      isCustomCall item = false := by
  cases item with
  | message => exact ⟨rfl, rfl, rfl⟩
  | _ => cases h

/-- A custom tool call is sent, and the first pass does not take it for an
anchor. -/
theorem isSent_of_isCustomCall {item : ResponseItem}
    (h : isCustomCall item = true) :
    isSent item = true ∧ isNextAnchor item = false := by
  cases item with
  | customToolCall => exact ⟨rfl, rfl⟩
  | _ => cases h

theorem emittedRole_of_isToolCall {item : ResponseItem}
    (h : isToolCall item = true)
    (hcustom : isCustomCall item = false) :
    emittedRole item = some "assistant" := by
  cases item with
  | functionCall | toolSearchCall | localShellCall => rfl
  | customToolCall => cases hcustom
  | _ => cases h

/-- The first pass finds the anchors that are no custom tool calls. -/
theorem anchorOf_eq_some_iff (hentry : input[anchor]? = some entry)
    (hcustom : isCustomCall entry.item = false) :
    anchorOf input idx = some anchor ↔ neighbourOf input idx = some anchor := by
  rw [anchorOf, neighbourOf]
  split
  · rfl
  · by_cases heq : idx + 1 = anchor
    · have hsame : (itemAfter input idx).any isNeighbour =
          (itemAfter input idx).any isNextAnchor := by
        rw [itemAfter, heq, hentry]
        change isNeighbour entry.item = isNextAnchor entry.item
        rw [isNeighbour_eq, hcustom, Bool.or_false]
      rw [hsame]
    · split <;> split <;> simp [heq]

/-- No custom tool call is an anchor of the first pass. -/
theorem anchorOf_ne_of_isCustomCall (hentry : input[anchor]? = some entry)
    (hcustom : isCustomCall entry.item = true) :
    anchorOf input idx ≠ some anchor := by
  intro h
  rw [anchorOf] at h
  split at h
  next hbefore =>
    obtain ⟨-, entry', hentry', hrole⟩ := (any_itemBefore_iff _).1 hbefore
    rw [Option.some.inj h, hentry] at hentry'
    obtain rfl := Option.some.inj hentry'
    rw [(isSent_of_hasRole hrole).2.2] at hcustom
    cases hcustom
  next =>
    split at h
    next hafter =>
      obtain ⟨entry', hentry', hnext⟩ := (any_itemAfter_iff _).1 hafter
      rw [Option.some.inj h, hentry] at hentry'
      obtain rfl := Option.some.inj hentry'
      rw [(isSent_of_isCustomCall hcustom).2] at hnext
      cases hnext
    next => cases h

theorem reasoningByAnchorIndex_eq (hlast : lastEmittedRole input ≠ some "user")
    (hentry : input[anchor]? = some entry) :
    reasoningByAnchorIndex input anchor =
      if isCustomCall entry.item = true then none
        else neighbourReasoning input anchor := by
  rw [reasoningByAnchorIndex_apply, if_neg hlast]
  split
  next hcustom =>
    rw [joinTexts_eq_none, textsAt, List.filterMap_eq_nil_iff]
    intro entry' hentry'
    have hanchor := (List.mem_filter.1 hentry').2
    simp [anchorOf_ne_of_isCustomCall hentry hcustom] at hanchor
  next hcustom =>
    rw [neighbourReasoning, textsAt, textsAt]
    simp only [anchorOf_eq_some_iff hentry (Bool.eq_false_iff.2 hcustom)]

/-! ## The last user message -/

theorem lastEmittedRole_concat (input : List InputItem) (entry : InputItem) :
    lastEmittedRole (input ++ [entry]) =
      (emittedRole entry.item).or (lastEmittedRole input) := by
  rw [lastEmittedRole, List.foldl_append]
  rfl

theorem lastUserIndex_concat (input : List InputItem) (entry : InputItem) :
    lastUserIndex (input ++ [entry]) =
      if hasRole "user" entry.item = true then some input.length
        else lastUserIndex input := by
  rw [lastUserIndex, List.zipIdx_append, List.foldl_append, Nat.zero_add]
  rfl

theorem hasRole_iff {item : ResponseItem} :
    hasRole "user" item = true ↔ emittedRole item = some "user" := by
  cases item with
  | message => simp [hasRole, emittedRole]
  | _ => simp [hasRole, emittedRole]

/-- Nothing behind the last user message has a role, if the last role is that
of a user. -/
theorem exists_lastUserIndex (h : lastEmittedRole input = some "user") :
    ∃ userIdx, lastUserIndex input = some userIdx ∧
      ∀ i entry, input[i]? = some entry → userIdx < i →
      emittedRole entry.item = none := by
  induction input using List.reverseRecOn with
  | nil => cases h
  | append_singleton input last ih =>
      rw [lastEmittedRole_concat] at h
      rw [lastUserIndex_concat]
      by_cases huser : hasRole "user" last.item = true
      · refine ⟨input.length, if_pos huser, fun i entry hentry hi => ?_⟩
        have hlt := (List.getElem?_eq_some_iff.1 hentry).1
        rw [List.length_append, List.length_singleton] at hlt
        omega
      · have hnone : emittedRole last.item = none := by
          cases hrole : emittedRole last.item with
          | none => rfl
          | some role =>
              rw [hrole, Option.some_or] at h
              exact absurd (hasRole_iff.2 (hrole.trans h)) huser
        rw [hnone, Option.none_or] at h
        obtain ⟨userIdx, hindex, hbehind⟩ := ih h
        refine ⟨userIdx, (if_neg huser).trans hindex,
          fun i entry hentry hi => ?_⟩
        rw [List.getElem?_append] at hentry
        split at hentry
        · exact hbehind i entry hentry hi
        · obtain rfl : last = entry :=
            List.mem_singleton.1 (List.mem_of_getElem? hentry) |>.symm
          exact hnone

/-- Nothing is behind the last user message if it is the last item. -/
theorem not_isAfterLastUser_of_endsWithUser (h : EndsWithUser input)
    (hentry : input[idx]? = some entry) :
    isAfterLastUser input idx = false := by
  obtain ⟨last, hlast, huser⟩ := h
  obtain ⟨before, rfl⟩ := List.getLast?_eq_some_iff.1 hlast
  have hlt := (List.getElem?_eq_some_iff.1 hentry).1
  rw [List.length_append, List.length_singleton] at hlt
  rw [isAfterLastUser, lastUserIndex_concat, if_pos huser]
  exact decide_eq_false (by omega)

theorem lastEmittedRole_of_endsWithUser (h : EndsWithUser input) :
    lastEmittedRole input = some "user" := by
  obtain ⟨last, hlast, huser⟩ := h
  obtain ⟨before, rfl⟩ := List.getLast?_eq_some_iff.1 hlast
  rw [lastEmittedRole_concat, hasRole_iff.1 huser, Option.some_or]

/-! ## Reasonings that belong to an item -/

theorem neighbourReasoning_ne_none_iff :
    neighbourReasoning input anchor ≠ none ↔ ∃ i entry, input[i]? = some entry ∧
      isAfterLastUser input i = true ∧ neighbourOf input i = some anchor ∧
      (reasoningText entry.item).isSome = true := by
  rw [Ne, neighbourReasoning, joinTexts_eq_none, textsAt,
    List.filterMap_eq_nil_iff]
  simp only [List.mem_filter, Bool.and_eq_true, decide_eq_true_eq,
    not_forall, Prod.exists,
    List.mk_mem_zipIdx_iff_getElem?, exists_prop, Option.isSome_iff_ne_none]
  constructor
  · rintro ⟨e, i, ⟨hentry, hafter, hanchor⟩, htext⟩
    exact ⟨i, e, hentry, hafter, hanchor, htext⟩
  · rintro ⟨i, e, hentry, hafter, hanchor, htext⟩
    exact ⟨e, i, ⟨hentry, hafter, hanchor⟩, htext⟩

/-- The item that a reasoning belongs to, where no reasoning is lost, is a call
behind it. -/
theorem anchor_of_not_losesReasoning
    (h : ∀ i entry, input[i]? = some entry →
      ¬ LosesReasoning input i entry.item)
    (hanchor : input[anchor]? = some entry)
    (hreasoning : neighbourReasoning input anchor ≠ none) :
    ∃ i, anchor = i + 1 ∧ isAfterLastUser input i = true ∧
      isToolCall entry.item = true ∧
      isCustomCall entry.item = false := by
  obtain ⟨i, reasoning, hi, hafter, hof, htext⟩ :=
    neighbourReasoning_ne_none_iff.1 hreasoning
  have hloses := h i reasoning hi
  rw [LosesReasoning, not_and, not_and, not_or, not_or] at hloses
  obtain ⟨hbefore, hassistant, hcustom⟩ := hloses hafter htext
  rw [neighbourOf, if_neg hbefore] at hof
  split at hof
  next hnext =>
    obtain rfl := Option.some.inj hof
    have hitem : itemAfter input i = some entry.item := congrArg _ hanchor
    rw [hitem, Option.any_some] at hassistant hcustom hnext
    rw [isNeighbour, Bool.eq_false_iff.2 hassistant, Bool.false_or] at hnext
    exact ⟨i, rfl, hafter, hnext, Bool.eq_false_iff.2 hcustom⟩
  next => cases hof

end CodeRs.Chat
