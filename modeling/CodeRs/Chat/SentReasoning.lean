import CodeRs.Chat.ReasoningAnchors
import Mathlib.Algebra.Order.BigOperators.Group.List
import Mathlib.Algebra.Order.Group.Nat

/-!
# The reasoning that is sent

Every message of calls has the reasoning that belongs to its calls if and only
if no reasoning is next to an assistant message or before a custom tool call.
-/

namespace CodeRs.Chat

open Grouping Protocol

variable {input : List InputItem} {idx anchor : ℕ} {entry : InputItem}

/-! ## The reasoning of a message -/

variable (write : Json → String) {reasoning reasoning' : ℕ → Option Text}
  {run : List (InputItem × ℕ)}

theorem reasoning_sentJson {entry : InputItem × ℕ}
    (h : isCallEntry entry = false) :
    (sentJson write entry).get "reasoning" = none := by
  obtain ⟨⟨item, extra⟩, idx⟩ := entry
  cases item with
  | functionCall | toolSearchCall | localShellCall | customToolCall => cases h
  | _ => rfl

theorem reasoning_runMessage (entry : InputItem × ℕ)
    (run : List (InputItem × ℕ)) :
    (runMessage write reasoning (entry :: run)).get "reasoning" =
      if isCallEntry entry = true then
        (runReasoning reasoning (entry :: run)).map jsonText
      else none := by
  rw [runMessage]
  split
  · cases runReasoning reasoning (entry :: run) <;> rfl
  next h => exact reasoning_sentJson write (Bool.eq_false_iff.2 h)

theorem runReasoning_congr
    (h : ∀ entry ∈ run, reasoning entry.2 = reasoning' entry.2) :
    runReasoning reasoning run = runReasoning reasoning' run :=
  List.foldl_ext _ _ none fun joined entry hentry => by rw [h entry hentry]

theorem runReasoning_eq_none (h : ∀ entry ∈ run, reasoning entry.2 = none) :
    runReasoning reasoning run = none := by
  have hnone : runReasoning reasoning run = runReasoning (fun _ => none) run :=
    runReasoning_congr h
  rw [hnone, runReasoning]
  clear hnone
  induction run with
  | nil => rfl
  | cons entry run ih =>
      exact ih fun entry' hentry' => h entry' (List.mem_cons_of_mem _ hentry')

/-! ## No reasoning is lost -/

theorem getElem?_of_mem_messageRuns (h : run ∈ messageRuns input.zipIdx)
    {entry : InputItem × ℕ}
    (hentry : entry ∈ run) : input[entry.2]? = some entry.1 := by
  have hmem : entry ∈ (messageRuns input.zipIdx).flatten :=
    List.mem_flatten.2 ⟨run, h, hentry⟩
  rw [messageRuns, flatten_runs] at hmem
  exact List.mem_zipIdx_iff_getElem?.1 (List.mem_of_mem_filter hmem)

/-- Calls have the reasoning that belongs to them, where no reasoning is
lost. -/
theorem reasoningByAnchorIndex_of_not_losesReasoning
    (h : ∀ i entry, input[i]? = some entry →
      ¬ LosesReasoning input i entry.item)
    (hentry : input[anchor]? = some entry) :
    reasoningByAnchorIndex input anchor = neighbourReasoning input anchor := by
  by_cases hnone : neighbourReasoning input anchor = none
  · rw [hnone]
    by_cases hlast : lastEmittedRole input = some "user"
    · rw [reasoningByAnchorIndex_apply, if_pos hlast]
    · rw [reasoningByAnchorIndex_eq hlast hentry, hnone, ite_self]
  · obtain ⟨i, rfl, hafter, hcall, hcustom⟩ :=
      anchor_of_not_losesReasoning h hentry hnone
    have hlast : lastEmittedRole input ≠ some "user" := by
      intro hlast
      obtain ⟨userIdx, hindex, hbehind⟩ := exists_lastUserIndex hlast
      rw [isAfterLastUser, hindex] at hafter
      have hlt : userIdx < i := of_decide_eq_true hafter
      have hrole := hbehind (i + 1) entry hentry (by omega)
      rw [emittedRole_of_isToolCall hcall hcustom] at hrole
      cases hrole
    rw [reasoningByAnchorIndex_eq hlast hentry,
      if_neg (by rw [hcustom]; exact Bool.false_ne_true)]

theorem reasoning_of_not_losesReasoning
    (h : ∀ i entry, input[i]? = some entry →
      ¬ LosesReasoning input i entry.item)
    (hrun : run ∈ messageRuns input.zipIdx) :
    (runMessage write (reasoningByAnchorIndex input) run).get "reasoning" =
      (runReasoning (neighbourReasoning input) run).map jsonText := by
  obtain ⟨hne, hcalls | ⟨entry, rfl, hentry⟩⟩ := mem_runs hrun
  · cases run with
    | nil => exact absurd rfl hne
    | cons entry run =>
        rw [reasoning_runMessage, if_pos (hcalls entry List.mem_cons_self),
          runReasoning_congr fun entry' hentry' =>
            reasoningByAnchorIndex_of_not_losesReasoning h
              (getElem?_of_mem_messageRuns hrun hentry')]
  · rw [reasoning_runMessage, if_neg (by rw [hentry]; exact Bool.false_ne_true),
      runReasoning_eq_none]
    · rfl
    · intro entry' hentry'
      rw [List.mem_singleton.1 hentry']
      by_contra hsome
      obtain ⟨i, -, -, hcall, -⟩ := anchor_of_not_losesReasoning h
        (getElem?_of_mem_messageRuns hrun (List.mem_singleton_self entry)) hsome
      rw [isCallEntry, hcall] at hentry
      cases hentry

theorem no_reasoning_of_lastEmittedRole (instructions : Text)
    (h : lastEmittedRole input = some "user") :
    ∀ message ∈ chatMessages input write instructions,
      message.get "reasoning" = none := by
  rw [chatMessages_eq, List.forall_mem_cons, List.forall_mem_map]
  refine ⟨rfl, fun run hrun => ?_⟩
  cases run with
  | nil => rfl
  | cons entry run =>
      rw [reasoning_runMessage, runReasoning_eq_none, Option.map_none, ite_self]
      intro entry' _
      rw [reasoningByAnchorIndex_apply, if_pos h]

theorem forall₂_reasoning_iff (instructions : Text) :
    List.Forall₂ (fun run message => message.get "reasoning" =
        (runReasoning (neighbourReasoning input) run).map jsonText)
        ([] :: messageRuns input.zipIdx)
        (chatMessages input write instructions) ↔
      ∀ run ∈ messageRuns input.zipIdx,
        (runMessage write (reasoningByAnchorIndex input) run).get "reasoning" =
          (runReasoning (neighbourReasoning input) run).map jsonText := by
  rw [chatMessages_eq, List.forall₂_cons, and_iff_right (by rfl),
    List.forall₂_map_right_iff,
    List.forall₂_same]

/-! ## A lost reasoning -/

/-- A reasoning that is lost belongs to an assistant message or to a custom
tool call. -/
theorem LosesReasoning.exists_anchor {item : ResponseItem}
    (h : LosesReasoning input idx item)
    (hidx : (input[idx]?).map InputItem.item = some item) :
    ∃ anchor entry, input[anchor]? = some entry ∧
      neighbourReasoning input anchor ≠ none ∧
      (hasRole "assistant" entry.item = true ∨
        isCustomCall entry.item = true) := by
  obtain ⟨hafter, htext, hnext⟩ := h
  obtain ⟨reasoning, hreasoning, rfl⟩ := Option.map_eq_some_iff.1 hidx
  by_cases hbefore : (itemBefore input idx).any (hasRole "assistant") = true
  · obtain ⟨-, entry, hentry, hrole⟩ := (any_itemBefore_iff _).1 hbefore
    refine ⟨idx - 1, entry, hentry, ?_, .inl hrole⟩
    exact neighbourReasoning_ne_none_iff.2
      ⟨idx, reasoning, hreasoning, hafter, if_pos hbefore, htext⟩
  · have hitem : ∃ entry, input[idx + 1]? = some entry ∧
        (hasRole "assistant" entry.item = true ∨
          isCustomCall entry.item = true) := by
      rcases hnext with hnext | hnext | hnext
      · exact absurd hnext hbefore
      · obtain ⟨entry, hentry, hrole⟩ := (any_itemAfter_iff _).1 hnext
        exact ⟨entry, hentry, .inl hrole⟩
      · obtain ⟨entry, hentry, hcustom⟩ := (any_itemAfter_iff _).1 hnext
        exact ⟨entry, hentry, .inr hcustom⟩
    obtain ⟨entry, hentry, hkind⟩ := hitem
    refine ⟨idx + 1, entry, hentry, neighbourReasoning_ne_none_iff.2
      ⟨idx, reasoning, hreasoning, hafter, ?_, htext⟩, hkind⟩
    have hneighbour : isNeighbour entry.item = true := by
      rcases hkind with hrole | hcustom
      · rw [isNeighbour, hrole, Bool.true_or]
      · rw [isNeighbour_eq, hcustom, Bool.or_true]
    rw [neighbourOf, if_neg hbefore,
      if_pos ((any_itemAfter_iff _).2 ⟨entry, hentry, hneighbour⟩)]

/-- The length of a reasoning and of the line break before it. -/
def weight : Option Text → ℕ
  | none => 0
  | some text => text.length + 1

theorem weight_joinReasoning {text : Option Text} (h : text ≠ some [])
    (other : Option Text) :
    weight (joinReasoning text other) = weight text + weight other := by
  cases text with
  | none => exact (Nat.zero_add _).symm
  | some text =>
      cases other with
      | none => rfl
      | some other =>
          rw [joinReasoning, if_neg fun hnil => h (congrArg some hnil)]
          simp only [weight, List.length_append, List.length_cons]
          omega

/-- The parts of the reasoning of a run have the length of the whole. -/
theorem weight_runReasoning (run : List (InputItem × ℕ))
    (h : ∀ i, reasoning i ≠ some []) :
    weight (runReasoning reasoning run) =
      (run.map fun entry => weight (reasoning entry.2)).sum ∧
      runReasoning reasoning run ≠ some [] := by
  induction run using List.reverseRecOn with
  | nil => exact ⟨rfl, (Option.some_ne_none _).symm⟩
  | append_singleton run entry ih =>
      obtain ⟨hweight, hne⟩ := ih
      have hstep : runReasoning reasoning (run ++ [entry]) =
          joinReasoning (runReasoning reasoning run) (reasoning entry.2) := by
        rw [runReasoning, List.foldl_append]
        rfl
      rw [hstep, List.map_append, List.sum_append,
        weight_joinReasoning hne, hweight]
      refine ⟨by simp, ?_⟩
      cases hrun : runReasoning reasoning run with
      | none => exact h entry.2
      | some text =>
          cases reasoning entry.2 with
          | none => exact fun hnil => hne (hrun.trans hnil)
          | some other =>
              rw [joinReasoning,
                if_neg fun hnil => hne (hrun.trans (congrArg some hnil))]
              simp

theorem joinTexts_ne_nil {texts : List Text} (h : ∀ text ∈ texts, text ≠ []) :
    joinTexts none texts ≠ some [] := by
  cases texts with
  | nil => exact (Option.some_ne_none _).symm
  | cons text texts =>
      intro hnil
      have hflatten : text ++ texts.flatten = [] := Option.some.inj hnil
      exact h text List.mem_cons_self (List.append_eq_nil_iff.1 hflatten).1

theorem textsAt_ne_nil (anchors : ℕ → Option ℕ) (anchor : ℕ)
    (entries : List (InputItem × ℕ)) :
    ∀ text ∈ textsAt input anchors anchor entries, text ≠ [] := by
  rintro text htext rfl
  obtain ⟨⟨⟨item, extra⟩, i⟩, -, hreasoning⟩ := List.mem_filterMap.1 htext
  cases item with
  | reasoning id summary content encrypted =>
      cases content with
      | none => cases hreasoning
      | some items =>
          rw [reasoningText] at hreasoning
          split at hreasoning
          · cases hreasoning
          next hblank =>
            refine hblank ?_
            rw [Option.some.inj hreasoning]
            rfl
  | _ => cases hreasoning

theorem jsonText_injective : Function.Injective jsonText :=
  fun text text' h => by
  rw [← String.toList_ofList (l := text), ← String.toList_ofList (l := text'),
    Json.string.inj h]

/-- A run with a custom tool call that a reasoning belongs to is sent with
less. -/
theorem runReasoning_ne_of_isCustomCall {run : List (InputItem × ℕ)}
    (hget : ∀ entry ∈ run, input[entry.2]? = some entry.1)
    {entry : InputItem × ℕ}
    (hentry : entry ∈ run) (hcustom : isCustomCall entry.1.item = true)
    (hreasoning : neighbourReasoning input entry.2 ≠ none) :
    runReasoning (reasoningByAnchorIndex input) run ≠
      runReasoning (neighbourReasoning input) run := by
  intro heq
  have hsent : ∀ i, reasoningByAnchorIndex input i ≠ some [] := by
    intro i
    rw [reasoningByAnchorIndex_apply]
    split
    · exact (Option.some_ne_none _).symm
    · exact joinTexts_ne_nil (textsAt_ne_nil _ _ _)
  have hbelongs : ∀ i, neighbourReasoning input i ≠ some [] := fun i =>
    joinTexts_ne_nil (textsAt_ne_nil _ _ _)
  have hcase : ∀ entry ∈ run, reasoningByAnchorIndex input entry.2 =
      if lastEmittedRole input = some "user" ∨
        isCustomCall entry.1.item = true then none
      else neighbourReasoning input entry.2 := by
    intro entry hentry
    by_cases hlast : lastEmittedRole input = some "user"
    · rw [if_pos (.inl hlast), reasoningByAnchorIndex_apply, if_pos hlast]
    · rw [reasoningByAnchorIndex_eq hlast (hget entry hentry)]
      simp [hlast]
  have hweight := congrArg weight heq
  rw [(weight_runReasoning run hsent).1,
    (weight_runReasoning run hbelongs).1] at hweight
  refine absurd hweight
    (Nat.ne_of_lt (List.sum_lt_sum _ _ (fun entry hentry => ?_)
    ⟨entry, hentry, ?_⟩))
  · rw [hcase entry hentry]
    split
    · exact Nat.zero_le _
    · exact le_rfl
  · rw [hcase entry hentry, if_pos (.inr hcustom)]
    obtain ⟨text, htext⟩ := Option.ne_none_iff_exists'.1 hreasoning
    rw [htext]
    exact Nat.succ_pos _

theorem exists_messageRun (hentry : input[anchor]? = some entry)
    (hsent : isSentEntry (entry, anchor) = true) :
    ∃ run ∈ messageRuns input.zipIdx, (entry, anchor) ∈ run := by
  rw [← List.mem_flatten, messageRuns, flatten_runs]
  exact List.mem_filter.2 ⟨List.mk_mem_zipIdx_iff_getElem?.2 hentry, hsent⟩

theorem not_sendsReasoning_of_losesReasoning (instructions : Text)
    {reasoning : InputItem}
    (hidx : input[idx]? = some reasoning)
    (hloses : LosesReasoning input idx reasoning.item) :
    ¬ SendsReasoning input (chatMessages input write instructions) := by
  rw [SendsReasoning, forall₂_reasoning_iff]
  rintro ⟨hsends, -⟩
  have hend : ¬ EndsWithUser input := fun hend => by
    have hafter := hloses.1
    rw [not_isAfterLastUser_of_endsWithUser hend hidx] at hafter
    cases hafter
  obtain ⟨anchor, entry, hentry, hreasoning, hkind⟩ :=
    hloses.exists_anchor (by rw [hidx, Option.map_some])
  have hsent : isSent entry.item = true :=
    hkind.elim (fun hrole => (isSent_of_hasRole hrole).1)
      fun hcustom => (isSent_of_isCustomCall hcustom).1
  obtain ⟨run, hrun, hmem⟩ := exists_messageRun hentry hsent
  have heq := hsends hend run hrun
  obtain ⟨hne, hcalls | ⟨other, rfl, hother⟩⟩ := mem_runs hrun
  · cases run with
    | nil => exact absurd rfl hne
    | cons first run =>
        rw [reasoning_runMessage,
          if_pos (hcalls first List.mem_cons_self)] at heq
        have hcustom : isCustomCall entry.item = true := by
          refine hkind.resolve_left fun hrole => ?_
          have hcall : isToolCall entry.item = true := hcalls _ hmem
          rw [(isSent_of_hasRole hrole).2.1] at hcall
          cases hcall
        exact runReasoning_ne_of_isCustomCall
          (fun entry' hentry' => getElem?_of_mem_messageRuns hrun hentry')
          hmem hcustom
          hreasoning (Option.map_injective jsonText_injective heq)
  · obtain rfl := List.mem_singleton.1 hmem
    rw [reasoning_runMessage,
      if_neg (by rw [hother]; exact Bool.false_ne_true)] at heq
    exact hreasoning (Option.map_eq_none_iff.1 heq.symm)

/-- Every reasoning is sent with its neighbour if and only if none is lost. -/
theorem sendsReasoning_iff (instructions : Text) :
    SendsReasoning input (chatMessages input write instructions) ↔
      ∀ idx entry, input[idx]? = some entry →
        ¬ LosesReasoning input idx entry.item := by
  constructor
  · intro hsends idx entry hidx hloses
    exact not_sendsReasoning_of_losesReasoning write instructions
      hidx hloses hsends
  · intro h
    rw [SendsReasoning, forall₂_reasoning_iff]
    exact ⟨fun _ run hrun => reasoning_of_not_losesReasoning write h hrun,
      fun hend =>
      no_reasoning_of_lastEmittedRole write instructions
        (lastEmittedRole_of_endsWithUser hend)⟩

/-- A turn that stops with a message of the assistant and its reasoning. -/
def stopTurnInput : List InputItem :=
  [⟨.ofText "user" (.inputText ['h', 'i']), fun _ => .null⟩,
    ⟨.ofText "assistant" (.outputText ['o', 'k']), fun _ => .null⟩,
    ⟨.reasoning none [] (some [.reasoningText ['x']]) none, fun _ => .null⟩]

/-- The reasoning behind a message of the assistant is not sent with it. -/
theorem not_sendsReasoning :
    ¬ ∀ (write : Json → String) (instructions : Text) (input : List InputItem),
      SendsReasoning input (chatMessages input write instructions) := by
  intro h
  have hidx : stopTurnInput[2]? =
      some ⟨.reasoning none [] (some [.reasoningText ['x']]) none,
        fun _ => .null⟩ := rfl
  exact not_sendsReasoning_of_losesReasoning (fun _ => "") [] hidx
    ⟨by decide, by decide, .inl (by decide)⟩ (h (fun _ => "") [] stopTurnInput)

end CodeRs.Chat
