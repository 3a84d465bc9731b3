import CodeRs.Agent.Turn
import CodeRs.Compaction.Atomicity
import CodeRs.Compaction.Persistence

/-!
# The loop of the agent

`run_agent` of `core/src/codex/streaming.rs` with `RepeatedToolCycleGuard` of
`core/src/codex/repeated_tool_cycle.rs`.  A run is driven by what every
iteration finds. Between the iterations others may call the queues of the
session, and during a turn they may change the history.  Events to the user and
the output of a review are left out.
-/

namespace CodeRs.Agent

open Protocol TurnQueues
open Compaction (recordItems)

/-! ## Answered calls -/

/-- Every call has an output behind it. -/
def Answered : List ResponseItem → Prop
  | [] => True
  | item :: rest =>
      (∀ callId, callIdOf item = some callId → callId ∈ outputIds rest) ∧
        Answered rest

/-- A change of the history that leaves no call without an output. -/
structure HistoryChange where
  change : List ResponseItem → List ResponseItem
  answered : ∀ history, Answered history → Answered (change history)

/-- A compaction: what it leaves in the history, and what it returns.  It
offers no tools to the model, so it leaves no call without an output. -/
structure CompactTask where
  history : HistoryChange
  returned : HistoryChange

/-! ## Repeated tool cycles -/

/-- How `repeated_tool_cycle.rs` writes calls and outputs as JSON texts. -/
structure Fingerprints where
  toolCall : ResponseItem → Option Text
  toolOutput : ResponseInputItem → Option Text

structure ToolCycleFingerprint where
  toolCalls : List Text
  toolOutputs : List Text
  deriving DecidableEq

def ToolCycleFingerprint.fromTurn (fingerprints : Fingerprints)
    (items : List ResponseItem)
    (responses : List ResponseInputItem) : Option ToolCycleFingerprint :=
  let toolCalls := items.filterMap fingerprints.toolCall
  let toolOutputs := responses.filterMap fingerprints.toolOutput
  if toolCalls = [] ∨ responses = [] ∨ toolOutputs = [] then none
  else some ⟨toolCalls, toolOutputs⟩

/-- `RepeatedToolCycleGuard::check`: the fingerprint that is kept, unless the
last one comes again. -/
def checkCycle (previous current : Option ToolCycleFingerprint) :
    Option (Option ToolCycleFingerprint) :=
  if current.isSome ∧ previous = current then none else some current

/-! ## The state -/

/-- What `run_agent` finds at its start. -/
structure AgentContext where
  isReviewMode : Bool
  postTurnOnlyTurn : Bool
  visibleToUser : Bool
  streamMaxRetries : ℕ
  outside : Outside
  fingerprints : Fingerprints
  mcpPayload : McpCallResult → FunctionCallOutputPayload
  callToolPayload : McpCallResult → FunctionCallOutputPayload

/-- The variables of `run_agent`, and what it uses of the session. -/
structure LoopState where
  session : Compaction.Session
  queues : State
  initialResponseItem : Option ResponseItem
  firstIteration : Bool
  didProactiveCompactThisIteration : Bool
  autoCompactPending : Bool
  stopHookActive : Bool
  previousCycle : Option ToolCycleFingerprint
  reviewHistory : List ResponseItem

/-- What an iteration finds: the calls of others on the queues, the attempts of
the turn, what becomes of the history during the turn, its compaction, whether
the token limit is reached, and the prompt of a stop hook that blocks the
end. -/
structure Iteration where
  calls : List Call
  attempts : List Attempt
  compacted_answered : ∀ a ∈ attempts, Answered a.compactedHistory
  duringTurn : HistoryChange
  compactTask : CompactTask
  tokenLimitReached : Bool
  continuationPrompt : Option Text

inductive Ending where
  | nothingPending
  | failed (e : CodexErr)
  | repeatedCycle
  | completed

/-! ## Recording a turn -/

/-- The items that are recorded for an item of a turn: a call with its
output. -/
def recordedItems (agent : AgentContext) :
    ProcessedResponseItem → List ResponseItem
  | ⟨.message id role content endTurn phase, none⟩ =>
      if role = "assistant" then
        [.message id role content endTurn phase] else []
  | ⟨.localShellCall id callId', some (.functionCallOutput callId output)⟩ =>
      [.localShellCall id callId', .functionCallOutput callId output]
  | ⟨.functionCall id name space arguments callId',
    some (.functionCallOutput callId output)⟩ =>
      [.functionCall id name space arguments callId',
        .functionCallOutput callId output]
  | ⟨.customToolCall id status callId' name' space input,
      some (.customToolCallOutput callId name output)⟩ =>
      [.customToolCall id status callId' name' space input,
        .customToolCallOutput callId name output]
  | ⟨.functionCall id name space arguments callId',
    some (.mcpToolCallOutput callId result)⟩ =>
      [.functionCall id name space arguments callId',
        .functionCallOutput callId (agent.callToolPayload result)]
  | ⟨.toolSearchCall id callId' status' execution',
    some (.toolSearchOutput callId status
      execution _)⟩ =>
      [.toolSearchCall id callId' status' execution',
        .toolSearchOutput (some callId) status execution]
  | ⟨.reasoning id summary content encryptedContent, none⟩ =>
      [.reasoning id summary content encryptedContent]
  | ⟨.imageGenerationCall id status revisedPrompt result, none⟩ =>
      [.imageGenerationCall id status revisedPrompt result]
  | _ => []

/-! ## One iteration -/

namespace LoopState

/-- `record_conversation_items`. -/
def record (s : LoopState) (items : List ResponseItem) : LoopState :=
  { s with
    session := { s.session with
      history := recordItems s.session.history items } }

def replaceHistory (s : LoopState) (items : List ResponseItem) : LoopState :=
  { s with session := { s.session with history := items } }

/-- An item of the conversation, in a review that of the review. -/
def enter (agent : AgentContext) (s : LoopState) (items : List ResponseItem) :
    LoopState :=
  if agent.isReviewMode then
    { s with reviewHistory := s.reviewHistory ++ items }
  else s.record items

/-- The pending input of an iteration. -/
def takePending (agent : AgentContext) (s : LoopState) :
    LoopState × List ResponseItem :=
  let (queues, pending) :=
    if agent.isReviewMode || agent.postTurnOnlyTurn then
      s.queues.getPendingInputFiltered false
    else s.queues.getPendingInput
  ({ s with queues := queues }, pending.map (responseItemOf agent.mcpPayload))

/-- The initial item of a turn, which may be the first one that is pending,
with the rest. -/
def takeInitial (agent : AgentContext) (s : LoopState)
    (pending : List ResponseItem) :
    Option (LoopState × ResponseItem × List ResponseItem) :=
  match s.initialResponseItem with
  | some initial => some (s, initial, pending)
  | none =>
      match pending with
      | first :: rest =>
          some ({ s.enter agent [first] with
            initialResponseItem := some first }, first, rest)
      | [] => none

/-- The pending input is recorded from the second iteration on. -/
def recordPending (s : LoopState) (pending : List ResponseItem) : LoopState :=
  if s.firstIteration then { s with firstIteration := false }
    else s.record pending

/-- The proactive compaction of an iteration, with the pending input that is
left. -/
def autoCompact (s : LoopState) (it : Iteration)
    (snapshot tail : List ResponseItem) :
    LoopState × List ResponseItem :=
  let compactedHistory := it.compactTask.returned.change s.session.history
  let compacted :=
    s.replaceHistory (it.compactTask.history.change s.session.history)
  if compactedHistory = [] then
    ({ compacted with autoCompactPending := false }, tail)
  else
    let (missingCalls, filteredOutputs) :=
      reconcilePendingToolOutputs tail compactedHistory snapshot
    ({ compacted.replaceHistory (compactedHistory ++ missingCalls ++
      filteredOutputs) with
      didProactiveCompactThisIteration := true
      autoCompactPending := false }, [])

/-- The compaction that an earlier iteration has asked for. -/
def compactIfPending (agent : AgentContext) (s : LoopState) (it : Iteration)
    (snapshot tail : List ResponseItem) : LoopState × List ResponseItem :=
  if s.autoCompactPending && ! agent.isReviewMode then
    s.autoCompact it snapshot tail
  else (s, tail)

def turnInput (agent : AgentContext) (s : LoopState)
    (tail : List ResponseItem) :
    LoopState × List ResponseItem :=
  if agent.isReviewMode then
    ({ s with reviewHistory := s.reviewHistory ++ tail },
      s.reviewHistory ++ tail)
  else (s, s.session.turnInputWithHistory tail)

/-- The part of an iteration in front of the turn: the state, the initial item,
the pending input and the input of the turn. -/
def prepare (agent : AgentContext) (s : LoopState) (it : Iteration) :
    Option (LoopState × ResponseItem × List ResponseItem × List ResponseItem) :=
  let (s, pending) :=
    takePending agent { s with queues := after State.next s.queues it.calls }
  (s.takeInitial agent pending).map fun (s, initial, tail) =>
    let snapshot := s.session.turnInputWithHistory tail
    let (s, tail) :=
      (s.recordPending pending).compactIfPending agent it snapshot tail
    let (s, turnInput) := s.turnInput agent tail
    (s, initial, tail, turnInput)

/-- What comes behind a turn without answers of tools. -/
def finish (agent : AgentContext) (s : LoopState) (it : Iteration) :
    LoopState ⊕ Ending :=
  if it.tokenLimitReached && ! s.didProactiveCompactThisIteration &&
    ! agent.isReviewMode then
    .inl
      { s.replaceHistory (it.compactTask.history.change s.session.history) with
      didProactiveCompactThisIteration := true }
  else
    match it.continuationPrompt with
    | some prompt =>
        if agent.visibleToUser && ! agent.isReviewMode &&
          ! s.stopHookActive then
          let continuation := .ofText "user" (.inputText prompt)
          .inl { s.record [continuation] with
            initialResponseItem := some continuation
            stopHookActive := true }
        else .inr .completed
    | none => .inr .completed

/-- What comes behind a turn with answers of tools. -/
def goOn (agent : AgentContext) (s : LoopState) (it : Iteration)
    (responses : List ResponseInputItem) : LoopState :=
  { s with
    queues :=
      if agent.isReviewMode then s.queues
      else responses.foldl (·.addPendingInput agent.outside ·) s.queues
    didProactiveCompactThisIteration := false
    autoCompactPending :=
      s.autoCompactPending || (it.tokenLimitReached && ! agent.isReviewMode) }

/-- The part of an iteration behind a turn that has succeeded. -/
def conclude (agent : AgentContext) (s : LoopState) (it : Iteration)
    (output : List ProcessedResponseItem) : LoopState ⊕ Ending :=
  let items := output.flatMap (recordedItems agent)
  let responses := output.filterMap ProcessedResponseItem.response
  match checkCycle s.previousCycle
      (ToolCycleFingerprint.fromTurn agent.fingerprints items responses) with
  | none => .inr .repeatedCycle
  | some previousCycle =>
      let recorded :=
        { s.enter agent items with previousCycle := previousCycle }
      if responses = [] then recorded.finish agent it
      else .inl (recorded.goOn agent it responses)

end LoopState

/-! ## The loop -/

/-- A run of the loop: the inputs of all requests, and how it ends, if it has
ended. -/
structure LoopRun where
  inputs : List (List ResponseItem)
  ending : Option Ending

/-- The loop of `run_agent`. -/
def agentLoop (agent : AgentContext) : LoopState → List Iteration → LoopRun
  | _, [] => ⟨[], none⟩
  | s, it :: rest =>
      match s.prepare agent it with
      | none => ⟨[], some .nothingPending⟩
      | some (s, initial, tail, turnInput) =>
          let ctx : TurnContext :=
            ⟨some initial, tail, agent.streamMaxRetries, agent.mcpPayload⟩
          let run := runTurn ctx turnInput it.attempts
          let inputs := run.attempts.map AttemptRecord.input
          let s := s.replaceHistory (it.duringTurn.change s.session.history)
          match run.result with
          | none => ⟨inputs, none⟩
          | some (.error e) => ⟨inputs, some (.failed e)⟩
          | some (.ok output) =>
              match s.conclude agent it output with
              | .inr ending => ⟨inputs, some ending⟩
              | .inl s =>
                  let later := agentLoop agent s rest
                  ⟨inputs ++ later.inputs, later.ending⟩

/-! ## Lists of answered calls -/

theorem outputIds_append (items later : List ResponseItem) :
    outputIds (items ++ later) = outputIds items ++ outputIds later :=
  List.filterMap_append ..

theorem answered_append {items later : List ResponseItem}
    (hitems : ∀ callId ∈ collectToolCallIds items, callId ∈ outputIds later)
    (hlater : Answered later) : Answered (items ++ later) := by
  induction items with
  | nil => exact hlater
  | cons item rest ih =>
      rw [List.cons_append]
      refine ⟨fun callId hid => ?_, ih fun callId hmem => hitems callId ?_⟩
      · rw [outputIds_append]
        exact List.mem_append_right _ (hitems callId (List.mem_filterMap.2
          ⟨item, List.mem_cons_self, hid⟩))
      · obtain ⟨call, hcall, hid⟩ := List.mem_filterMap.1 hmem
        exact List.mem_filterMap.2 ⟨call, List.mem_cons_of_mem _ hcall, hid⟩

theorem Answered.append {items later : List ResponseItem}
    (hitems : Answered items)
    (hlater : Answered later) : Answered (items ++ later) := by
  induction items with
  | nil => exact hlater
  | cons item rest ih =>
      rw [List.cons_append]
      refine ⟨fun callId hid => ?_, ih hitems.2⟩
      rw [outputIds_append]
      exact List.mem_append_left _ (hitems.1 callId hid)

theorem answered_of_no_calls {items : List ResponseItem}
    (h : collectToolCallIds items = []) :
    Answered items := by
  rw [← List.append_nil items]
  exact answered_append (by rw [h]; exact fun _ h => nomatch h) trivial

/-- Items go without the others if no call and no output does. -/
theorem Answered.filter {items : List ResponseItem} (h : Answered items)
    {p : ResponseItem → Bool}
    (hp : ∀ item, p item = false → outputIdOf item = none) :
    Answered (items.filter p) := by
  induction items with
  | nil => trivial
  | cons item rest ih =>
      have hids : outputIds (rest.filter p) = outputIds rest := by
        rw [outputIds, List.filterMap_filter]
        refine List.filterMap_congr fun later _ => ?_
        cases hlater : p later with
        | true => rfl
        | false => exact (hp later hlater).symm
      rw [List.filter_cons]
      split
      · refine ⟨?_, ih h.2⟩
        rw [hids]
        exact h.1
      · exact ih h.2

theorem Answered.map {items : List ResponseItem} (h : Answered items)
    {f : ResponseItem → ResponseItem}
    (hcall : ∀ item, callIdOf (f item) = callIdOf item)
    (hout : ∀ item,
      outputIdOf (f item) = outputIdOf item) : Answered (items.map f) := by
  induction items with
  | nil => trivial
  | cons item rest ih =>
      refine ⟨fun callId hid => ?_, ih h.2⟩
      have hids : outputIds (rest.map f) = outputIds rest := by
        rw [outputIds, List.filterMap_map]
        exact List.filterMap_congr fun later _ => hout later
      rw [hids]
      exact h.1 callId ((hcall item).symm.trans hid)

/-- No output is made up for a list whose calls have outputs. -/
theorem Answered.withMissingCalls {items : List ResponseItem}
    (h : Answered items) :
    withMissingCalls items = items := by
  have hids : ∀ callId ∈ collectToolCallIds items,
      callId ∈ outputIds items := by
    induction items with
    | nil => exact fun _ h => nomatch h
    | cons item rest ih =>
        intro callId hmem
        have hrest : callId ∈ outputIds rest := by
          obtain ⟨call, hcall, hid⟩ := List.mem_filterMap.1 hmem
          rcases List.mem_cons.1 hcall with rfl | hcall
          · exact h.1 callId hid
          · exact ih h.2 callId (List.mem_filterMap.2 ⟨call, hcall, hid⟩)
        obtain ⟨output, houtput, hid⟩ := List.mem_filterMap.1 hrest
        exact List.mem_filterMap.2 ⟨output, List.mem_cons_of_mem _ houtput, hid⟩
  have hmissing : missingCalls items = [] := by
    rw [missingCalls, List.map_eq_nil_iff, List.filter_eq_nil_iff]
    intro callId hmem
    rw [decide_eq_true_iff, not_not, mem_completedIds]
    exact .inl (hids callId hmem)
  rw [Agent.withMissingCalls, hmissing, List.nil_append]

/-! ## Items without calls -/

theorem callIdOf_responseItemOf
    (mcpPayload : McpCallResult → FunctionCallOutputPayload)
    (input : ResponseInputItem) :
    callIdOf (responseItemOf mcpPayload input) = none := by
  cases input <;> rfl

theorem collectToolCallIds_map_responseItemOf
    (mcpPayload : McpCallResult → FunctionCallOutputPayload)
    (pending : List ResponseInputItem) :
    collectToolCallIds (pending.map (responseItemOf mcpPayload)) = [] :=
  List.filterMap_eq_nil_iff.2 fun item hitem => by
    obtain ⟨input, -, rfl⟩ := List.mem_map.1 hitem
    exact callIdOf_responseItemOf mcpPayload input

theorem Answered.recordItems {history items : List ResponseItem}
    (hhistory : Answered history)
    (hitems : Answered items) : Answered (recordItems history items) := by
  refine hhistory.append (hitems.filter fun item h => ?_)
  cases item with
  | functionCallOutput | customToolCallOutput => cases h
  | _ => rfl

/-- The outputs that are put behind a history answer the calls that are put
there. -/
theorem answered_reconcile {pending history : List ResponseItem}
    (previous : List ResponseItem) (hpending : collectToolCallIds pending = [])
    (hhistory : Answered history) :
    Answered (history ++
      (reconcilePendingToolOutputs pending history previous).1 ++
      (reconcilePendingToolOutputs pending history previous).2) := by
  have h : Reconciled previous (collectToolCallIds history) pending
      (reconcilePendingToolOutputs pending history previous).1
      (reconcilePendingToolOutputs pending history previous).2 :=
    reconciled_reconcileFrom previous _ pending
  rw [List.append_assoc]
  refine hhistory.append
    (answered_append (fun callId hid => (h.lacking callId hid).2) ?_)
  refine answered_of_no_calls (List.filterMap_eq_nil_iff.2 fun item hitem => ?_)
  rw [h.kept] at hitem
  exact List.filterMap_eq_nil_iff.1 hpending item (List.mem_filter.1 hitem).1

theorem answered_turnInputWithHistory {sess : Compaction.Session}
    {extra : List ResponseItem}
    (hhistory : Answered sess.history)
    (htimeline : Answered (sess.timelineItems.getD []))
    (hextra : collectToolCallIds extra = []) :
    Answered (sess.turnInputWithHistory extra) := by
  have hstrip : ∀ items, Answered items →
      Answered (items.map Compaction.stripEncryptedReasoning) := fun _ h =>
    h.map (fun item => by cases item <;> rfl) (fun item => by
      cases item <;> rfl)
  have hold : ∀ suppress : Bool, Answered ((sess.history.filter fun item =>
      ! (suppress && Compaction.isLegacyEnvContext item)).map
        Compaction.historyItem) := by
    intro suppress
    refine Answered.map (hhistory.filter
      fun item h => ?_) (fun item => by cases item <;> rfl)
      (fun item => by cases item <;> rfl)
    cases item with
    | functionCallOutput | customToolCallOutput =>
        cases suppress <;> cases h
    | _ => rfl
  have hnew : ∀ suppress : Bool, Answered (if suppress then
      extra.filter (fun item => ! sess.parsesAsEnvironment item)
        else extra) := by
    intro suppress
    refine answered_of_no_calls (List.filterMap_eq_nil_iff.2
      fun item hitem => ?_)
    refine List.filterMap_eq_nil_iff.1 hextra item ?_
    cases suppress with
    | true => exact (List.mem_filter.1 hitem).1
    | false => exact hitem
  rw [Compaction.Session.turnInputWithHistory]
  split
  · exact (htimeline.append (hold _)).append (hnew _)
  · exact hstrip _ ((htimeline.append (hold _)).append (hnew _))

/-! ## What is recorded of a turn -/

theorem answered_pair {call output : ResponseItem}
    (hcall : callIdOf output = none)
    (h : ∀ callId, callIdOf call = some callId →
      outputIdOf output = some callId) :
    Answered [call, output] := by
  have hids : ∀ callId, callIdOf call = some callId →
      callId ∈ outputIds [output] :=
    fun callId hid =>
      List.mem_filterMap.2 ⟨output, List.mem_singleton_self _, h callId hid⟩
  exact ⟨hids, fun _ hid => (nomatch hcall.symm.trans hid), trivial⟩

theorem answered_recordedItems (agent : AgentContext) (tools : Tools)
    (handled : List ResponseItem) (item : ResponseItem) :
    Answered (recordedItems agent ⟨item, answerTo tools handled item⟩) := by
  cases item with
  | functionCall id name space arguments callId =>
      cases hanswer : tools.functionCall handled name space
        arguments callId with
      | output payload =>
          have hrecorded :
              recordedItems agent ⟨.functionCall id name space arguments callId,
              answerTo tools handled
                (.functionCall id name space arguments callId)⟩ =
              [.functionCall id name space arguments callId,
                .functionCallOutput callId payload] := by
            rw [answerTo, handleResponseItem, hanswer]
            rfl
          rw [hrecorded]
          exact answered_pair rfl fun _ h => h
      | mcp result =>
          have hrecorded :
              recordedItems agent ⟨.functionCall id name space arguments callId,
              answerTo tools handled
                (.functionCall id name space arguments callId)⟩ =
              [.functionCall id name space arguments callId,
                .functionCallOutput callId (agent.callToolPayload result)] := by
            rw [answerTo, handleResponseItem, hanswer]
            rfl
          rw [hrecorded]
          exact answered_pair rfl fun _ h => h
  | localShellCall id callId =>
      rcases callId with _ | callId
      · rcases id with _ | id
        · exact answered_pair rfl fun _ h => (Option.some_ne_none _ h.symm).elim
        · exact answered_pair rfl fun _ h => (Option.some_ne_none _ h.symm).elim
      · exact answered_pair rfl fun _ h => h
  | toolSearchCall id callId status execution =>
      refine answered_of_no_calls ?_
      rw [answerTo, handleResponseItem]
      cases tools.toolSearch handled execution <;> rfl
  | message id role content endTurn phase =>
      refine answered_of_no_calls ?_
      change collectToolCallIds (if role = "assistant" then _ else _) = []
      split <;> rfl
  | _ => exact answered_of_no_calls rfl

theorem answered_flatMap_recordedItems (agent : AgentContext) (tools : Tools)
    (handled items : List ResponseItem) :
    Answered
      ((processAll tools handled items).flatMap (recordedItems agent)) := by
  induction items generalizing handled with
  | nil => trivial
  | cons item rest ih =>
      rw [processAll, List.flatMap_cons]
      exact (answered_recordedItems agent tools handled item).append (ih _)

theorem runTurn_output {ctx : TurnContext} {input : List ResponseItem}
    {attempts : List Attempt}
    {output : List ProcessedResponseItem}
    (h : (runTurn ctx input attempts).result = some (.ok output)) :
    ∃ tools items, output = processAll tools [] items := by
  rw [runTurn] at h
  generalize TurnState.start input = s at h
  induction attempts generalizing s with
  | nil => cases h
  | cons a rest ih =>
      rw [turnLoop] at h
      split at h
      next result hafter =>
        obtain rfl : result = .ok output := Option.some.inj h
        exact ⟨a.host.tools, output_of_ok (ok_of_afterAttempt hafter)⟩
      next reason next hafter => exact ih next h

theorem answered_runTurn (ctx : TurnContext) {input : List ResponseItem}
    {attempts : List Attempt} (hinput : Answered input)
    (hinitial : collectToolCallIds ctx.initialUserItem.toList = [])
    (hpending : collectToolCallIds ctx.pendingInputTail = [])
    (hattempts : ∀ a ∈ attempts, Answered a.compactedHistory) :
    ∀ record ∈ (runTurn ctx input attempts).attempts,
      Answered record.input := by
  have hbase : ∀ n base, BaseInput ctx input attempts n base →
      Answered base := by
    intro n base h
    induction h with
    | given => exact hinput
    | rebuilt ha _ _ =>
        exact answered_reconcile _ hpending
          ((hattempts _ ha).append (answered_of_no_calls hinitial))
  intro record hrecord
  obtain ⟨n, -, base, hints, hbaseInput, heq, hhints⟩ :=
    turnLoop_inputs (.start input attempts) (fun _ h => h) record hrecord
  rw [heq]
  refine (hbase n base hbaseInput).append (answered_of_no_calls ?_)
  refine List.filterMap_eq_nil_iff.2 fun hint hhint => ?_
  obtain ⟨sp, rfl⟩ := hhints hint hhint
  rfl

/-! ## Clean-ups and compactions -/

theorem Answered.of_filter {items : List ResponseItem} {p : ResponseItem → Bool}
    (hp : ∀ item, p item = false → callIdOf item = none)
    (h : Answered (items.filter p)) :
    Answered items := by
  induction items with
  | nil => trivial
  | cons item rest ih =>
      rw [List.filter_cons] at h
      split at h
      · refine ⟨fun callId hid => ?_, ih h.2⟩
        exact (List.filter_sublist.filterMap outputIdOf).subset (h.1 callId hid)
      · rename_i hdropped
        refine ⟨fun callId hid => ?_, ih h⟩
        rw [hp item (Bool.eq_false_of_not_eq_true hdropped)] at hid
        cases hid

/-- What may be pruned is neither a call nor an output. -/
theorem ids_of_not_isMessage {item : ResponseItem}
    (h : Retention.isMessage (Retention.categorizeItem item) = false) :
    callIdOf item = none ∧ outputIdOf item = none := by
  cases item with
  | message => exact ⟨rfl, rfl⟩
  | _ => cases h

theorem answered_pruneHistoryItemsOwned {history : List ResponseItem}
    (h : Answered history) :
    Answered (Retention.pruneHistoryItemsOwned history) := by
  refine Answered.of_filter
    (p := fun item => Retention.isMessage (Retention.categorizeItem item))
    (fun item hitem => (ids_of_not_isMessage hitem).1) ?_
  rw [Retention.messages_pruneHistoryItemsOwned]
  exact h.filter fun item hitem => (ids_of_not_isMessage hitem).2

/-- `cleanup_old_status_items`, with the pruning of
`prune_history_items_owned`. -/
def HistoryChange.cleanupOldStatusItems : HistoryChange where
  change history := recordItems [] (Retention.pruneHistoryItemsOwned history)
  answered _ h :=
    Answered.recordItems trivial (answered_pruneHistoryItemsOwned h)

section LocalCompaction

variable (sess : Compaction.Session) (turnContext : Compaction.TurnContext)
  (outside : Outside) (input : List InputItem)
  {attempts : List Compaction.Attempt}

/-- A loop leaves the history with what its streams have brought. -/
theorem answered_compactLoop (prepare : List ResponseItem → List ResponseItem)
    {s : Compaction.LoopState} (h : Answered s.history)
    (hstreams : collectToolCallIds (Compaction.recordedBy attempts) = []) :
    Answered
      (Compaction.compactLoop sess turnContext prepare s
        attempts).state.history := by
  rw [Compaction.compactLoop_made]
  refine h.append (answered_of_no_calls (List.eq_nil_iff_forall_not_mem.2 ?_))
  intro callId hid
  have hmade : ∀ n, (Compaction.recordedBy (attempts.take n)).Sublist
      (Compaction.recordedBy attempts) :=
    fun n => (List.take_sublist n attempts).flatMap _
  have hall := ((hmade _).filterMap callIdOf).subset hid
  rw [← collectToolCallIds, hstreams] at hall
  cases hall

/-- A compaction leaves the initial context with a message, or the history with
what its streams have brought. -/
theorem answered_runCompactTaskInnerInline (h : Answered sess.history)
    (hcontext : collectToolCallIds sess.initialContext = [])
    (hstreams : collectToolCallIds (Compaction.recordedBy attempts) = []) :
    let result :=
      Compaction.runCompactTaskInnerInline sess turnContext outside
        input attempts
    Answered result.1 ∧ Answered (result.2.getD []) := by
  have hmessage : ∀ content,
      Answered (sess.initialContext ++ [.ofText "user" content]) := by
    intro content
    refine answered_of_no_calls ?_
    rw [collectToolCallIds, List.filterMap_append,
      ← collectToolCallIds, hcontext]
    rfl
  have hloop :
      Answered
        (Compaction.runCompactTaskInnerInlineLoop sess turnContext outside input
      attempts).state.history :=
    answered_compactLoop sess turnContext id h hstreams
  simp only [Compaction.runCompactTaskInnerInline]
  cases (Compaction.runCompactTaskInnerInlineLoop sess turnContext outside input
      attempts).ending with
  | none => exact ⟨hloop, trivial⟩
  | some ending =>
      cases ending with
      | completed =>
          exact ⟨Answered.recordItems trivial (hmessage _), hmessage _⟩
      | usageLimit reason => exact ⟨hmessage _, hmessage _⟩
      | overflow e reason => exact ⟨hmessage _, hmessage _⟩
      | interrupted | failed e => exact ⟨hloop, trivial⟩

/-- `run_inline_auto_compact_task`, whose model gets no tools and asks for
none. -/
def CompactTask.inline (call : Compaction.LocalCompaction)
    (hcontext : collectToolCallIds call.sess.initialContext = [])
    (hstreams : collectToolCallIds (Compaction.recordedBy call.attempts) = []) :
    CompactTask :=
  let sess (history : List ResponseItem) :=
    { call.sess with history := history }
  let run (history : List ResponseItem) :=
    Compaction.runCompactTaskInnerInline (sess history)
      call.turnContext call.outside call.input call.attempts
  have hrun (history : List ResponseItem) (h : Answered history) :=
    answered_runCompactTaskInnerInline (sess history) call.turnContext
      call.outside call.input h
      hcontext hstreams
  { history := ⟨fun history => (run history).1,
    fun history h => (hrun history h).1⟩
    returned := ⟨fun history => (run history).2.getD [],
      fun history h => (hrun history h).2⟩ }

end LocalCompaction

/-! ## The invariant of the loop -/

/-- Whatever a request can be made of has its calls answered. -/
structure Ready (s : LoopState) : Prop where
  history : Answered s.session.history
  timeline : Answered (s.session.timelineItems.getD [])
  review : Answered s.reviewHistory
  initial : collectToolCallIds s.initialResponseItem.toList = []

variable {agent : AgentContext} {s : LoopState}

theorem Ready.record (h : Ready s) {items : List ResponseItem}
    (hitems : Answered items) :
    Ready (s.record items) :=
  { h with history := h.history.recordItems hitems }

theorem Ready.replaceHistory (h : Ready s) {items : List ResponseItem}
    (hitems : Answered items) :
    Ready (s.replaceHistory items) :=
  { h with history := hitems }

theorem Ready.enter (h : Ready s) (agent : AgentContext)
    {items : List ResponseItem}
    (hitems : Answered items) :
    Ready (s.enter agent items) := by
  rw [LoopState.enter]
  split
  · exact { h with review := h.review.append hitems }
  · exact h.record hitems

theorem Ready.takeInitial (h : Ready s) {pending tail : List ResponseItem}
    {next : LoopState}
    {initial : ResponseItem} (hpending : collectToolCallIds pending = [])
    (htake : s.takeInitial agent pending = some (next, initial, tail)) :
    Ready next ∧ collectToolCallIds [initial] = [] ∧
      collectToolCallIds tail = [] := by
  unfold LoopState.takeInitial at htake
  split at htake
  next first hfirst =>
    cases htake
    have hinitial := h.initial
    rw [hfirst] at hinitial
    exact ⟨h, hinitial, hpending⟩
  next hnone =>
    split at htake
    next first rest =>
      cases htake
      have hsplit :
          collectToolCallIds [initial] ++ collectToolCallIds tail = [] := by
        rw [← hpending]
        exact (@List.filterMap_append _ _ [initial] tail callIdOf).symm
      obtain ⟨hinitial, htail⟩ := List.append_eq_nil_iff.1 hsplit
      have henter := h.enter agent (answered_of_no_calls hinitial)
      exact ⟨{ henter with initial := hinitial }, hinitial, htail⟩
    next => cases htake

theorem Ready.recordPending (h : Ready s) {pending : List ResponseItem}
    (hpending : collectToolCallIds pending = []) :
    Ready (s.recordPending pending) := by
  rw [LoopState.recordPending]
  split
  · exact { h with }
  · exact h.record (answered_of_no_calls hpending)

theorem Ready.compactIfPending (h : Ready s) (agent : AgentContext)
    (it : Iteration)
    (snapshot : List ResponseItem) {tail : List ResponseItem}
    (htail : collectToolCallIds tail = []) :
    Ready (s.compactIfPending agent it snapshot tail).1 ∧
      collectToolCallIds (s.compactIfPending agent it snapshot tail).2 =
        [] := by
  have hcompacted :=
    h.replaceHistory (it.compactTask.history.answered _ h.history)
  rw [LoopState.compactIfPending]
  split
  · rw [LoopState.autoCompact]
    split
    · exact ⟨{ hcompacted with }, htail⟩
    · have hreturned := it.compactTask.returned.answered _ h.history
      have hrebuilt := hcompacted.replaceHistory
        (answered_reconcile snapshot htail hreturned)
      exact ⟨{ hrebuilt with }, rfl⟩
  · exact ⟨h, htail⟩

theorem Ready.turnInput (h : Ready s) (agent : AgentContext)
    {tail : List ResponseItem}
    (htail : collectToolCallIds tail = []) :
    Ready (s.turnInput agent tail).1 ∧ Answered (s.turnInput agent tail).2 := by
  rw [LoopState.turnInput]
  split
  · have hreview := h.review.append (answered_of_no_calls htail)
    exact ⟨{ h with review := hreview }, hreview⟩
  · exact ⟨h, answered_turnInputWithHistory h.history h.timeline htail⟩

/-- The input of a turn has its calls answered, and nothing that comes with it
is a call. -/
theorem Ready.prepare (h : Ready s) {it : Iteration} {next : LoopState}
    {initial : ResponseItem}
    {tail turnInput : List ResponseItem}
    (hprepare : s.prepare agent it = some (next, initial, tail, turnInput)) :
    Ready next ∧ collectToolCallIds [initial] = [] ∧
      collectToolCallIds tail = [] ∧
      Answered turnInput := by
  let taken := LoopState.takePending agent
    { s with queues := after State.next s.queues it.calls }
  have htaken : Ready taken.1 := { h with }
  have hpending : collectToolCallIds taken.2 = [] :=
    collectToolCallIds_map_responseItemOf _ _
  obtain ⟨⟨s', initial', tail'⟩, htake, heq⟩ :=
    Option.map_eq_some_iff.1 hprepare
  obtain ⟨hready, hinitial, htail⟩ := htaken.takeInitial hpending htake
  obtain ⟨hcompact, hrest⟩ :=
    (hready.recordPending hpending).compactIfPending agent it
      (s'.session.turnInputWithHistory tail') htail
  obtain ⟨hnext, hinput⟩ := hcompact.turnInput agent hrest
  cases heq
  exact ⟨hnext, hinitial, hrest, hinput⟩

theorem Ready.finish (h : Ready s) {it : Iteration} {next : LoopState}
    (hfinish : s.finish agent it = .inl next) : Ready next := by
  rw [LoopState.finish] at hfinish
  split at hfinish
  · cases hfinish
    exact
      { h.replaceHistory (it.compactTask.history.answered _ h.history) with }
  · split at hfinish
    next prompt hprompt =>
      split at hfinish
      · cases hfinish
        exact { h.record (answered_of_no_calls rfl) with initial := rfl }
      · cases hfinish
    next => cases hfinish

theorem Ready.conclude (h : Ready s) {it : Iteration} {next : LoopState}
    {tools : Tools}
    {items : List ResponseItem}
    (hconclude : s.conclude agent it (processAll tools [] items) = .inl next) :
    Ready next := by
  have hitems := answered_flatMap_recordedItems agent tools [] items
  have henter := h.enter agent hitems
  rw [LoopState.conclude] at hconclude
  split at hconclude
  next => cases hconclude
  next previousCycle hcheck =>
    have hrecorded : Ready { s.enter agent ((processAll tools [] items).flatMap
        (recordedItems agent)) with previousCycle := previousCycle } :=
      { henter with }
    split at hconclude
    · exact hrecorded.finish hconclude
    · cases hconclude
      exact { hrecorded with }

/-! ## Every request -/

/-- In every run of the agent from a state whose calls are answered, every
input that is sent has an output behind each of its calls, so none is made up:
no call that was executed is ever reported as aborted, whatever the model
answers, whatever others queue and however often the history is compacted. -/
theorem agentLoop_answered (agent : AgentContext) {s : LoopState} (h : Ready s)
    (iterations : List Iteration) :
    ∀ input ∈ (agentLoop agent s iterations).inputs,
      Answered input ∧ withMissingCalls input = input := by
  induction iterations generalizing s with
  | nil => exact fun _ h => nomatch h
  | cons it rest ih =>
      rw [agentLoop]
      split
      next => exact fun _ h => nomatch h
      next next initial tail turnInput hprepare =>
        obtain ⟨hnext, hinitial, htail, hinput⟩ := h.prepare hprepare
        let ctx : TurnContext :=
          ⟨some initial, tail, agent.streamMaxRetries, agent.mcpPayload⟩
        have hsent : ∀ input ∈ (runTurn ctx turnInput it.attempts).attempts.map
            AttemptRecord.input, Answered input ∧
            withMissingCalls input = input := by
          intro input hmem
          obtain ⟨record, hrecord, rfl⟩ := List.mem_map.1 hmem
          have hanswered := answered_runTurn ctx hinput hinitial htail
            it.compacted_answered record hrecord
          exact ⟨hanswered, hanswered.withMissingCalls⟩
        have hduring :=
          hnext.replaceHistory (it.duringTurn.answered _ hnext.history)
        dsimp only
        split
        next => exact hsent
        next => exact hsent
        next output houtput =>
          obtain ⟨tools, items, rfl⟩ := runTurn_output houtput
          split
          next => exact hsent
          next later hconclude =>
            intro input hmem
            rcases List.mem_append.1 hmem with hmem | hmem
            · exact hsent input hmem
            · exact ih (hduring.conclude hconclude) input hmem

section Example

/-- A session that has executed one call. -/
def exampleState : LoopState where
  session :=
    { history := [exampleCall "a", .functionCallOutput "a" (.fromText [])]
      timelineItems := none
      envCtxV2 := false
      ctxUi := false
      chatgptAuth := true
      parsesAsEnvironment := fun _ => false
      disableResponseStorage := false
      userShell := []
      modelDescriptions := none
      initialContext := [] }
  queues := ⟨none, ∅, ∅, ∅, [], [], [], none, [], 0⟩
  initialResponseItem := some (.ofText "user" (.inputText []))
  firstIteration := true
  didProactiveCompactThisIteration := false
  autoCompactPending := false
  stopHookActive := false
  previousCycle := none
  reviewHistory := []

/-- An agent whose tools answer with empty texts. -/
def exampleAgent : AgentContext where
  isReviewMode := false
  postTurnOnlyTurn := false
  visibleToUser := true
  streamMaxRetries := 1
  outside := exampleHost.outside
  fingerprints := ⟨fun _ => none, fun _ => none⟩
  mcpPayload := fun _ => .fromText []
  callToolPayload := fun _ => .fromText []

def exampleCompactTask : CompactTask :=
  .inline ⟨Compaction.freshSession, Compaction.oneRetry,
    Compaction.nothingOutside, [],
    [Compaction.fullAttempt]⟩ rfl rfl

/-- A stream that is refused, since the context is too long, and compacted. -/
def exampleOverflow : Attempt where
  host := exampleHost
  stream := .error (.stream "maximum context length".toList none none)
  model := []
  switched := false
  compactedHistory :=
    exampleCompactTask.returned.change exampleState.session.history
  largerContextModel := fun _ => none

theorem answered_exampleState : Answered exampleState.session.history :=
  answered_pair rfl fun _ h => h

/-- An iteration in which the model answers with one item, after a compaction
and a stream that has broken.  The status is cleaned up, and the token limit is
reached. -/
def exampleIteration (item : ResponseItem) : Iteration where
  calls := []
  attempts := exampleOverflow :: exampleAttempts item
  compacted_answered := by
    intro a ha
    simp only [exampleAttempts, List.mem_cons, List.not_mem_nil, or_false] at ha
    rcases ha with rfl | rfl | rfl
    · exact exampleCompactTask.returned.answered _ answered_exampleState
    · trivial
    · trivial
  duringTurn := .cleanupOldStatusItems
  compactTask := exampleCompactTask
  tokenLimitReached := true
  continuationPrompt := none

/-- Two turns, the first of which executes a call, with a compaction and a
retry in each and one between them. -/
theorem agentLoop_answered_twoTurns :
    (agentLoop exampleAgent exampleState [exampleIteration (exampleCall "b"),
      exampleIteration (.message none "assistant" [] none none)]).inputs.map
      List.length =
        [2, 2, 3, 3, 2, 3] ∧
    ∀ input ∈
      (agentLoop exampleAgent exampleState [exampleIteration (exampleCall "b"),
        exampleIteration (.message none "assistant" [] none none)]).inputs,
      Answered input ∧ withMissingCalls input = input := by
  have hready : Ready exampleState :=
    ⟨answered_exampleState, trivial, trivial, rfl⟩
  exact ⟨rfl, agentLoop_answered exampleAgent hready _⟩

end Example

end CodeRs.Agent
