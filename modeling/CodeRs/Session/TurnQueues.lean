import CodeRs.Lib.Monitor
import CodeRs.Session.UserMessage
import Mathlib.Data.Finset.Basic

/-!
# The input queues of a session

The functions of `core/src/codex/session.rs` that queue input for the turns of
a session and hand it to them.  Each function holds the lock of the state while
it runs, so a run of the session is a sequence of their calls; a turn starts
(`set_task`) and ends (`remove_task`) between them.
-/

namespace CodeRs.TurnQueues

open Protocol

/-! ## The state -/

structure QueuedUserInput where
  submissionId : Text
  responseItem : ResponseInputItem
  coreItems : List InputItem
  deriving DecidableEq

/-- `AgentTask`, by the submission it belongs to. -/
structure AgentTask where
  subId : Text
  deriving DecidableEq

structure TurnScratchpad where
  items : List ResponseItem
  responses : List ResponseInputItem
  partialAssistantText : Text
  partialReasoningSummary : Text
  deriving DecidableEq

/-- What the functions here read and write of `State`, the maps of waiting
senders by their keys, and the limit of the session on user messages. -/
structure State where
  currentTask : Option AgentTask
  pendingApprovals : Finset Text
  pendingRequestUserInput : Finset Text
  pendingDynamicTools : Finset Text
  pendingInput : List ResponseInputItem
  pendingPostTurnInput : List ResponseInputItem
  pendingUserInput : List QueuedUserInput
  turnScratchpad : Option TurnScratchpad
  pendingManualCompacts : List Text
  toolOutputMaxBytes : ℕ
  deriving DecidableEq

def maxPendingManualCompacts : ℕ := 64

inductive FollowUpTurnAction where
  | postTurnPendingInput
  | manualCompact (subId : Text)
  | pendingInput
  | queuedUserInput (queued : QueuedUserInput)
  deriving DecidableEq

namespace State

/-! ## Queueing -/

def enqueueOutOfTurnItem (s : State) (item : ResponseInputItem) :
    State × Bool :=
  ({ s with pendingInput := s.pendingInput ++ [item] }, s.currentTask.isNone)

def enqueuePostTurnItem (s : State) (item : ResponseInputItem) : State × Bool :=
  ({ s with pendingPostTurnInput := s.pendingPostTurnInput ++ [item] },
    s.currentTask.isNone)

def queueUserInput (s : State) (queued : QueuedUserInput) : State :=
  { s with pendingUserInput := s.pendingUserInput ++ [queued] }

def injectInput (s : State) (outside : Outside) (input : List InputItem) :
    State × Except (List InputItem) Unit :=
  match s.currentTask with
  | some task =>
      let response :=
        enforceUserMessageLimits outside s.toolOutputMaxBytes task.subId
          (responseInputFromCoreItems outside input)
      ({ s with pendingInput := s.pendingInput ++ [response] }, .ok ())
  | none => (s, .error input)

/-- The input of `add_pending_input` under the limits of the running task. -/
def limited (s : State) (outside : Outside) (input : ResponseInputItem) :
    ResponseInputItem :=
  match s.currentTask with
  | some task =>
      enforceUserMessageLimits outside s.toolOutputMaxBytes task.subId input
  | none => input

def addPendingInput (s : State) (outside : Outside)
    (input : ResponseInputItem) : State :=
  { s with pendingInput := s.pendingInput ++ [s.limited outside input] }

def enqueueManualCompact (s : State) (subId : Text) : State × Bool :=
  let kept := s.pendingManualCompacts.drop
    (s.pendingManualCompacts.length + 1 - maxPendingManualCompacts)
  ({ s with pendingManualCompacts := kept ++ [subId] },
    s.pendingManualCompacts.isEmpty)

/-! ## Handing over -/

/-- `get_pending_input_filtered`.  Queued user input is only handed over next
to pending input when it is to be drained. -/
def getPendingInputFiltered (s : State) (drainUserInputs : Bool) :
    State × List ResponseInputItem :=
  if s.pendingInput = [] ∧
    (drainUserInputs ∨ s.pendingUserInput = []) then (s, [])
  else
    let returned :=
      s.pendingInput ++ s.pendingUserInput.map QueuedUserInput.responseItem
    if drainUserInputs then
      ({ s with pendingInput := [], pendingUserInput := [] }, returned)
    else ({ s with pendingInput := [] }, returned)

def getPendingInput (s : State) : State × List ResponseInputItem :=
  s.getPendingInputFiltered true

def takeFollowUpTurnAction (s : State) : State × Option FollowUpTurnAction :=
  if s.pendingPostTurnInput ≠ [] then
    ({ s with
      pendingInput := s.pendingInput ++ s.pendingPostTurnInput
      pendingPostTurnInput := [] }, some .postTurnPendingInput)
  else
    match s.pendingManualCompacts with
    | subId :: rest =>
        ({ s with pendingManualCompacts := rest }, some (.manualCompact subId))
    | [] =>
        if s.pendingInput ≠ [] then (s, some .pendingInput)
        else
          match s.pendingUserInput with
          | [] => (s, none)
          | queued :: rest =>
              ({ s with pendingUserInput := rest },
                some (.queuedUserInput queued))

/-- The first part of `start_post_turn_pending_only_turn_if_idle`, under the
lock.  Its answer is whether a turn is to be started. -/
def startPostTurnPendingOnlyTurnIfIdle (s : State) : State × Bool :=
  if s.currentTask.isSome ∨ s.pendingPostTurnInput = [] then (s, false)
  else
    ({ s with
      pendingInput := s.pendingInput ++ s.pendingPostTurnInput
      pendingPostTurnInput := [] }, true)

/-! ## Tasks -/

def setTask (s : State) (agent : AgentTask) : State :=
  { s with currentTask := some agent }

def removeTask (s : State) (subId : Text) : State :=
  match s.currentTask with
  | some agent =>
      if agent.subId = subId then { s with currentTask := none } else s
  | none => s

def abort (s : State) : State :=
  { s with
    pendingApprovals := ∅
    pendingRequestUserInput := ∅
    pendingDynamicTools := ∅
    turnScratchpad := none
    currentTask := none }

end State

/-! ## Calls -/

inductive Call where
  | enqueueOutOfTurnItem (item : ResponseInputItem)
  | enqueuePostTurnItem (item : ResponseInputItem)
  | queueUserInput (queued : QueuedUserInput)
  | injectInput (outside : Outside) (input : List InputItem)
  | addPendingInput (outside : Outside) (input : ResponseInputItem)
  | enqueueManualCompact (subId : Text)
  | getPendingInput
  | takeFollowUpTurnAction
  | startPostTurnPendingOnlyTurnIfIdle
  | setTask (agent : AgentTask)
  | removeTask (subId : Text)
  | abort

/-- What a call returns. -/
inductive Reply where
  | unit
  | bool (b : Bool)
  | injected (result : Except (List InputItem) Unit)
  | input (items : List ResponseInputItem)
  | action (action : Option FollowUpTurnAction)

def State.call (s : State) : Call → State × Reply
  | .enqueueOutOfTurnItem item => (s.enqueueOutOfTurnItem item).map id .bool
  | .enqueuePostTurnItem item => (s.enqueuePostTurnItem item).map id .bool
  | .queueUserInput queued => (s.queueUserInput queued, .unit)
  | .injectInput outside input => (s.injectInput outside input).map id .injected
  | .addPendingInput outside input => (s.addPendingInput outside input, .unit)
  | .enqueueManualCompact subId => (s.enqueueManualCompact subId).map id .bool
  | .getPendingInput => s.getPendingInput.map id .input
  | .takeFollowUpTurnAction => s.takeFollowUpTurnAction.map id .action
  | .startPostTurnPendingOnlyTurnIfIdle =>
      s.startPostTurnPendingOnlyTurnIfIdle.map id .bool
  | .setTask agent => (s.setTask agent, .unit)
  | .removeTask subId => (s.removeTask subId, .unit)
  | .abort => (s.abort, .unit)

def State.next (s : State) (call : Call) : State := (s.call call).1

/-! ## What a call hands in and takes out -/

/-- The item that a call adds to the pending input itself. -/
def injected (s : State) : Call → List ResponseInputItem
  | .enqueueOutOfTurnItem item => [item]
  | .injectInput outside input =>
      match s.currentTask with
      | some _ => [s.limited outside (responseInputFromCoreItems outside input)]
      | none => []
  | .addPendingInput outside input => [s.limited outside input]
  | _ => []

/-- The item that a call adds to the post-turn input. -/
def postponed (_ : State) : Call → List ResponseInputItem
  | .enqueuePostTurnItem item => [item]
  | _ => []

/-- The user input that a call adds to the queue. -/
def queued (_ : State) : Call → List QueuedUserInput
  | .queueUserInput queued => [queued]
  | _ => []

def handedIn (s : State) (call : Call) : List ResponseInputItem :=
  injected s call ++ postponed s call ++
    (queued s call).map QueuedUserInput.responseItem

/-- What an answer gives to a turn. -/
def Reply.delivered : Reply → List ResponseInputItem
  | .input items => items
  | .action (some (.queuedUserInput queued)) => [queued.responseItem]
  | _ => []

/-- What a call gives to a turn. -/
def delivered (s : State) (call : Call) : List ResponseInputItem :=
  (s.call call).2.delivered

/-- All items in the queues. -/
def State.held (s : State) : Multiset ResponseInputItem :=
  ↑s.pendingInput + ↑s.pendingPostTurnInput +
    ↑(s.pendingUserInput.map QueuedUserInput.responseItem)

/-- The post-turn input that a call moves to the pending input. -/
def moved (s : State) : Call → List ResponseInputItem
  | .takeFollowUpTurnAction => s.pendingPostTurnInput
  | .startPostTurnPendingOnlyTurnIfIdle =>
      if s.currentTask.isSome then [] else s.pendingPostTurnInput
  | _ => []

/-- The pending input that a call gives to a turn. -/
def pendingDelivered (s : State) : Call → List ResponseInputItem
  | .getPendingInput => s.pendingInput
  | _ => []

/-- The queued user input that a call gives to a turn. -/
def userDelivered (s : State) : Call → List QueuedUserInput
  | .getPendingInput => if s.pendingInput = [] then [] else s.pendingUserInput
  | .takeFollowUpTurnAction =>
      if s.pendingPostTurnInput = [] ∧ s.pendingManualCompacts = [] ∧
        s.pendingInput = []
      then s.pendingUserInput.take 1
      else []
  | _ => []

/-! ## One call -/

/-- The outcomes of `take_follow_up_turn_action`, in the order of its tests. -/
inductive FollowUp (s : State) : State × Option FollowUpTurnAction → Prop
  | postTurnPendingInput : s.pendingPostTurnInput ≠ [] →
      FollowUp s ({ s with
        pendingInput := s.pendingInput ++ s.pendingPostTurnInput
        pendingPostTurnInput := [] }, some .postTurnPendingInput)
  | manualCompact {subId : Text} {rest : List Text} : s.pendingPostTurnInput =
    [] →
      s.pendingManualCompacts = subId :: rest →
      FollowUp s ({ s with pendingManualCompacts := rest },
        some (.manualCompact subId))
  | pendingInput : s.pendingPostTurnInput = [] → s.pendingInput ≠ [] →
      FollowUp s (s, some .pendingInput)
  | none : s.pendingPostTurnInput = [] → s.pendingUserInput = [] →
    FollowUp s (s, none)
  | queuedUserInput {queued : QueuedUserInput} {rest : List QueuedUserInput} :
      s.pendingPostTurnInput = [] → s.pendingManualCompacts = [] →
        s.pendingInput = [] →
      s.pendingUserInput = queued :: rest →
      FollowUp s ({ s with pendingUserInput := rest },
        some (.queuedUserInput queued))

theorem followUp (s : State) : FollowUp s s.takeFollowUpTurnAction := by
  rw [State.takeFollowUpTurnAction]
  by_cases hpost : s.pendingPostTurnInput = []
  · rw [if_neg (not_not.2 hpost)]
    split
    next subId rest hcompacts => exact .manualCompact hpost hcompacts
    next hcompacts =>
      by_cases hpending : s.pendingInput = []
      · rw [if_neg (not_not.2 hpending)]
        split
        next huser => exact .none hpost huser
        next queued rest huser =>
          exact .queuedUserInput hpost hcompacts hpending huser
      · rw [if_pos hpending]
        exact .pendingInput hpost hpending
  · rw [if_pos hpost]
    exact .postTurnPendingInput hpost

theorem getPendingInput_cases (s : State) :
    (s.pendingInput = [] ∧ s.getPendingInput = (s, [])) ∨
    (s.pendingInput ≠ [] ∧ s.getPendingInput =
      ({ s with pendingInput := [], pendingUserInput := [] },
        s.pendingInput ++
          s.pendingUserInput.map QueuedUserInput.responseItem)) := by
  rw [State.getPendingInput, State.getPendingInputFiltered]
  by_cases hpending : s.pendingInput = []
  · exact .inl ⟨hpending, if_pos ⟨hpending, .inl rfl⟩⟩
  · refine .inr ⟨hpending, ?_⟩
    rw [if_neg fun h => hpending h.1]
    exact if_pos rfl

theorem startPostTurn_cases (s : State) :
    (moved s .startPostTurnPendingOnlyTurnIfIdle = [] ∧
      s.startPostTurnPendingOnlyTurnIfIdle = (s, false)) ∨
    (moved s .startPostTurnPendingOnlyTurnIfIdle = s.pendingPostTurnInput ∧
      s.startPostTurnPendingOnlyTurnIfIdle =
        ({ s with
          pendingInput := s.pendingInput ++ s.pendingPostTurnInput
          pendingPostTurnInput := [] }, true)) := by
  rw [State.startPostTurnPendingOnlyTurnIfIdle, moved]
  by_cases htask : s.currentTask.isSome
  · exact .inl ⟨if_pos htask, if_pos (.inl htask)⟩
  · rw [if_neg htask]
    by_cases hpost : s.pendingPostTurnInput = []
    · exact .inl ⟨hpost, if_pos (.inr hpost)⟩
    · exact .inr ⟨rfl, if_neg fun h => h.elim htask hpost⟩

theorem removeTask_queues (s : State) (subId : Text) :
    (s.removeTask subId).pendingInput = s.pendingInput ∧
      (s.removeTask subId).pendingPostTurnInput = s.pendingPostTurnInput ∧
      (s.removeTask subId).pendingUserInput = s.pendingUserInput := by
  rw [State.removeTask]
  split
  · split <;> exact ⟨rfl, rfl, rfl⟩
  · exact ⟨rfl, rfl, rfl⟩

theorem delivered_eq (s : State) (call : Call) :
    delivered s call =
      pendingDelivered s call ++
        (userDelivered s call).map QueuedUserInput.responseItem := by
  cases call with
  | getPendingInput =>
      rw [delivered, State.call, pendingDelivered, userDelivered]
      rcases getPendingInput_cases s with ⟨hpending, heq⟩ | ⟨hpending, heq⟩
      · rw [heq, if_pos hpending, hpending]
        rfl
      · rw [heq, if_neg hpending]
        rfl
  | takeFollowUpTurnAction =>
      have hfollow := followUp s
      simp only [delivered, State.call, pendingDelivered, userDelivered]
      generalize s.takeFollowUpTurnAction = result at hfollow ⊢
      cases hfollow with
      | postTurnPendingInput hpost =>
          rw [if_neg fun h => hpost h.1]
          rfl
      | manualCompact hpost hcompacts =>
          have hne : s.pendingManualCompacts ≠ [] := by
            rw [hcompacts]
            exact List.cons_ne_nil _ _
          rw [if_neg fun h => hne h.2.1]
          rfl
      | pendingInput hpost hpending =>
          rw [if_neg fun h => hpending h.2.2]
          rfl
      | none hpost huser =>
          rw [huser, List.take_nil, ite_self]
          rfl
      | queuedUserInput hpost hcompacts hpending huser =>
          rw [if_pos ⟨hpost, hcompacts, hpending⟩, huser]
          rfl
  | _ => rfl

open Fifo

/-- What a call does to the three queues: each is left at its front and entered
at its end. -/
theorem next_queues (s : State) (call : Call) :
    pendingDelivered s call ++ (s.next call).pendingInput =
        s.pendingInput ++ (injected s call ++ moved s call) ∧
      moved s call ++ (s.next call).pendingPostTurnInput =
        s.pendingPostTurnInput ++ postponed s call ∧
      userDelivered s call ++ (s.next call).pendingUserInput =
        s.pendingUserInput ++ queued s call := by
  have hsame : ∀ {α : Type} (l : List α), l = l ++ [] :=
    fun l => (List.append_nil l).symm
  cases call with
  | injectInput outside input =>
      simp only [State.next, State.call, State.injectInput, injected,
        State.limited]
      cases s.currentTask with
      | none => exact ⟨hsame _, hsame _, hsame _⟩
      | some task => exact ⟨rfl, hsame _, hsame _⟩
  | getPendingInput =>
      simp only [State.next, State.call, pendingDelivered, userDelivered]
      rcases getPendingInput_cases s with ⟨hpending, heq⟩ | ⟨hpending, heq⟩
      · rw [heq, if_pos hpending, hpending]
        exact ⟨hpending, hsame _, hsame _⟩
      · rw [heq, if_neg hpending]
        exact ⟨rfl, hsame _, rfl⟩
  | takeFollowUpTurnAction =>
      have hfollow := followUp s
      simp only [State.next, State.call, moved, userDelivered]
      generalize s.takeFollowUpTurnAction = result at hfollow ⊢
      cases hfollow with
      | postTurnPendingInput hpost =>
          rw [if_neg fun h => hpost h.1]
          exact ⟨rfl, rfl, hsame _⟩
      | manualCompact hpost hcompacts =>
          have hne : s.pendingManualCompacts ≠ [] := by
            rw [hcompacts]
            exact List.cons_ne_nil _ _
          rw [if_neg fun h => hne h.2.1, hpost]
          exact ⟨hsame _, rfl, hsame _⟩
      | pendingInput hpost hpending =>
          rw [if_neg fun h => hpending h.2.2, hpost]
          exact ⟨hsame _, hpost, hsame _⟩
      | none hpost huser =>
          rw [huser, List.take_nil, ite_self, hpost]
          exact ⟨hsame _, hpost, huser⟩
      | queuedUserInput hpost hcompacts hpending huser =>
          rw [if_pos ⟨hpost, hcompacts, hpending⟩, huser, hpost]
          exact ⟨hsame _, rfl, hsame _⟩
  | startPostTurnPendingOnlyTurnIfIdle =>
      simp only [State.next, State.call]
      rcases startPostTurn_cases s with ⟨hmoved, heq⟩ | ⟨hmoved, heq⟩
      · rw [heq, hmoved]
        exact ⟨hsame _, hsame _, hsame _⟩
      · rw [heq, hmoved]
        exact ⟨rfl, rfl, hsame _⟩
  | removeTask subId =>
      obtain ⟨hpending, hpost, huser⟩ := removeTask_queues s subId
      rw [State.next, State.call, hpending, hpost, huser]
      exact ⟨hsame _, hsame _, hsame _⟩
  | enqueueOutOfTurnItem item => exact ⟨rfl, hsame _, hsame _⟩
  | addPendingInput outside input => exact ⟨rfl, hsame _, hsame _⟩
  | enqueuePostTurnItem item => exact ⟨hsame _, rfl, hsame _⟩
  | queueUserInput queued => exact ⟨hsame _, hsame _, rfl⟩
  | _ => exact ⟨hsame _, hsame _, hsame _⟩

/-- Pending input is handed over in the order in which it came or was moved
here. -/
theorem ordered_pendingInput :
    Ordered State.next State.pendingInput
      (fun s call => injected s call ++ moved s call)
      pendingDelivered :=
  fun s call => (next_queues s call).1

theorem ordered_pendingPostTurnInput :
    Ordered State.next State.pendingPostTurnInput postponed moved :=
  fun s call => (next_queues s call).2.1

/-- Queued user input is handed over in the order in which it came. -/
theorem ordered_pendingUserInput :
    Ordered State.next State.pendingUserInput queued userDelivered :=
  fun s call => (next_queues s call).2.2

/-! ## Runs -/

/-- A call keeps count of the items. -/
theorem delivered_add_held (s : State) (call : Call) :
    ↑(delivered s call) + (s.next call).held = s.held + ↑(handedIn s call) := by
  have hpending := congrArg Multiset.ofList (ordered_pendingInput s call)
  have hpost := congrArg Multiset.ofList (ordered_pendingPostTurnInput s call)
  have huser :=
    congrArg Multiset.ofList (congrArg (List.map QueuedUserInput.responseItem)
      (ordered_pendingUserInput s call))
  simp only [List.map_append, ← Multiset.coe_add] at hpending hpost huser
  rw [delivered_eq, handedIn, State.held, State.held]
  simp only [← Multiset.coe_add]
  calc
    _ = ((pendingDelivered s call : Multiset ResponseInputItem) +
            ↑(s.next call).pendingInput) + ↑(s.next call).pendingPostTurnInput +
          (↑((userDelivered s call).map QueuedUserInput.responseItem) +
            ↑((s.next call).pendingUserInput.map
              QueuedUserInput.responseItem)) := by
      ac_rfl
    _ = (↑s.pendingInput + ↑(injected s call)) +
          (↑(moved s call) + ↑(s.next call).pendingPostTurnInput) +
          (↑(s.pendingUserInput.map QueuedUserInput.responseItem) +
            ↑((queued s call).map QueuedUserInput.responseItem)) := by
      rw [hpending, huser]
      ac_rfl
    _ = _ := by
      rw [hpost]
      ac_rfl

/-- Review mode reads the pending input and leaves the rest in its queues. -/
theorem getPendingInputFiltered_false (s : State) :
    (s.getPendingInputFiltered false).1 = { s with pendingInput := [] } ∧
      s.pendingInput <+: (s.getPendingInputFiltered false).2 := by
  rw [State.getPendingInputFiltered]
  split
  next hempty =>
    have hpending := hempty.1
    refine ⟨?_, ?_⟩
    · cases s
      simp only at hpending
      rw [hpending]
    · rw [hpending]
  next => exact ⟨rfl, List.prefix_append _ _⟩

/-- Over any run of calls the items handed in are the items given to turns and
the items still queued, each queue keeps the order of its items, and a read
that does not drain the user input takes the pending input alone. -/
theorem turnQueues_conserve (s : State) (calls : List Call) :
    ↑(gather State.next delivered s calls) + (after State.next s calls).held =
        s.held + ↑(gather State.next handedIn s calls) ∧
      gather State.next pendingDelivered s calls ++
          (after State.next s calls).pendingInput =
        s.pendingInput ++
          gather State.next (fun s call => injected s call ++
            moved s call) s calls ∧
      gather State.next moved s calls ++
          (after State.next s calls).pendingPostTurnInput =
        s.pendingPostTurnInput ++ gather State.next postponed s calls ∧
      gather State.next userDelivered s calls ++
          (after State.next s calls).pendingUserInput =
        s.pendingUserInput ++ gather State.next queued s calls ∧
      (∀ s call, delivered s call = pendingDelivered s call ++
        (userDelivered s call).map QueuedUserInput.responseItem) ∧
      (s.getPendingInputFiltered false).1 = { s with pendingInput := [] } ∧
        s.pendingInput <+: (s.getPendingInputFiltered false).2 :=
  ⟨coe_gather_add delivered_add_held s calls, ordered_pendingInput.run s calls,
    ordered_pendingPostTurnInput.run s calls,
    ordered_pendingUserInput.run s calls,
    delivered_eq, getPendingInputFiltered_false s⟩

/-- A session in review mode: a task runs, and a tool result is pending. -/
def reviewing : State where
  currentTask := some ⟨[]⟩
  pendingApprovals := ∅
  pendingRequestUserInput := ∅
  pendingDynamicTools := ∅
  pendingInput := [.customToolCallOutput "call" none (.fromText [])]
  pendingPostTurnInput := []
  pendingUserInput := []
  turnScratchpad := none
  pendingManualCompacts := []
  toolOutputMaxBytes := 0

/-- A read that does not drain the user input changes the queues. -/
theorem getPendingInputFiltered_reviewing :
    (reviewing.getPendingInputFiltered false).1 ≠ reviewing ∧
      (reviewing.getPendingInputFiltered false).1.pendingInput = [] ∧
      reviewing.pendingInput ≠ [] := by
  decide

end CodeRs.TurnQueues
