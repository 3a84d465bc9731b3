import CodeRs.Protocol.Models

/-!
# Calls and their outputs in a prompt

The model takes a prompt only if every call in it has an output.
`try_run_turn` of `core/src/codex/streaming.rs` answers the calls that have
none, `get_formatted_input` of `core/src/client_common.rs` drops outputs that
come again, and `reconcile_pending_tool_outputs` puts the outputs of a turn
behind a history that was compacted.
-/

namespace CodeRs.Agent

open Protocol

/-! ## Ids -/

def callIdOf : ResponseItem → Option String
  | .functionCall _ _ _ _ callId => some callId
  | .localShellCall _ callId => callId
  | .customToolCall _ _ callId _ _ _ => some callId
  | _ => none

/-- The id of the call that an output answers. -/
def outputIdOf : ResponseItem → Option String
  | .functionCallOutput callId _ => some callId
  | .customToolCallOutput callId _ _ => some callId
  | _ => none

def shellCallIdOf : ResponseItem → Option String
  | .localShellCall _ callId => callId
  | _ => none

def collectToolCallIds (items : List ResponseItem) : List String :=
  items.filterMap callIdOf

/-- The ids of the outputs among items. -/
def outputIds (items : List ResponseItem) : List String :=
  items.filterMap outputIdOf

def findCallItemById (items : List ResponseItem) (callId : String) :
    Option ResponseItem :=
  items.reverse.find? fun item => callIdOf item = some callId

/-! ## Missing outputs -/

/-- An id that `try_run_turn` takes to be completed: that of an output, and
that of a shell call. -/
def completedIdOf : ResponseItem → Option String
  | .functionCallOutput callId _ => some callId
  | .localShellCall _ callId => callId
  | .customToolCallOutput callId _ _ => some callId
  | _ => none

/-- The output of a call that was not executed. -/
def aborted (callId : String) : ResponseItem :=
  .customToolCallOutput callId none (.fromText "aborted".toList)

/-- The `missing_calls` of `try_run_turn`. -/
def missingCalls (input : List ResponseItem) : List ResponseItem :=
  ((collectToolCallIds input).filter (· ∉ input.filterMap completedIdOf)).map
    aborted

/-- The input of `try_run_turn`. -/
def withMissingCalls (input : List ResponseItem) : List ResponseItem :=
  missingCalls input ++ input

/-! ## Formatting -/

def isMessage : ResponseItem → Bool
  | .message .. => true
  | _ => false

/-- `Prompt`, with the texts that it makes of its instructions and its context.
The status items of a turn are messages. -/
structure Prompt where
  input : List ResponseItem
  includeAdditionalInstructions : Bool
  developerText : Text
  prependDeveloperMessages : List Text
  environmentContext : Option Text
  userInstructions : Option Text
  statusItems : List ResponseItem
  statusItems_messages : ∀ item ∈ statusItems, isMessage item = true

/-- `ENVIRONMENT_CONTEXT_START`, trimmed. -/
def environmentContextTag : String := "<environment_context>"

/-- A text of a user message. -/
def hasEnvironmentContext : ResponseItem → Bool
  | .message _ role content _ _ => role = "user" && content.any fun
      | .inputText text => text.contains environmentContextTag
      | _ => false
  | _ => false

/-- `UserInstructions::is_user_instructions`, of a user message. -/
def isUserInstructions : ResponseItem → Bool
  | .message _ role [.inputText text] _ _ => role = "user" &&
      (text.startsWith "# AGENTS.md instructions for " ||
        text.startsWith "<user_instructions>")
  | _ => false

/-- The messages in front of the input. -/
def instructions (prompt : Prompt) : List ResponseItem :=
  if prompt.includeAdditionalInstructions then
    .ofText "developer" (.inputText prompt.developerText) ::
    ((prompt.prependDeveloperMessages.map Text.trim).filter (· ≠ [])).map
      (fun text => .ofText "developer" (.inputText text)) ++
    (if prompt.input.any hasEnvironmentContext then []
      else (prompt.environmentContext.map fun text =>
        ResponseItem.ofText "user" (.inputText text)).toList) ++
    (if prompt.input.any isUserInstructions then []
      else (prompt.userInstructions.map fun text =>
        ResponseItem.ofText "user" (.inputText text)).toList)
  else []

/-- The item is a message with an image. -/
def hasScreenshot : ResponseItem → Bool
  | .message _ _ content _ _ => content.any fun
      | .inputImage _ => true
      | _ => false
  | _ => false

/-- The loop of `reconcile_pending_tool_outputs`: the calls and the outputs
that are put behind the history, whose calls have the ids given first. -/
def reconcileFrom (previous : List ResponseItem) :
    List String → List ResponseItem → List ResponseItem × List ResponseItem
  | _, [] => ([], [])
  | callIds, item :: rest =>
      match outputIdOf item with
      | some callId =>
          if callId ∈ callIds then
            let (missing, filtered) := reconcileFrom previous callIds rest
            (missing, item :: filtered)
          else
            match findCallItemById previous callId with
            | some call =>
                let (missing, filtered) :=
                  reconcileFrom previous (callId :: callIds) rest
                (call :: missing, item :: filtered)
            | none => reconcileFrom previous callIds rest
      | none =>
          let (missing, filtered) := reconcileFrom previous callIds rest
          (missing, item :: filtered)

def reconcilePendingToolOutputs
    (pendingOutputs rebuiltHistory previous : List ResponseItem) :
    List ResponseItem × List ResponseItem :=
  reconcileFrom previous (collectToolCallIds rebuiltHistory) pendingOutputs

/-! ## What formatting keeps -/

section Formatting

variable {α : Type} {f : ResponseItem → Option α}

end Formatting

theorem mem_completedIds {input : List ResponseItem} {callId : String} :
    callId ∈ input.filterMap completedIdOf ↔
      callId ∈ outputIds input ∨ callId ∈ input.filterMap shellCallIdOf := by
  rw [outputIds, List.mem_filterMap, List.mem_filterMap, List.mem_filterMap]
  constructor
  · rintro ⟨item, hitem, hid⟩
    cases item with
    | functionCallOutput | customToolCallOutput => exact .inl ⟨_, hitem, hid⟩
    | localShellCall => exact .inr ⟨_, hitem, hid⟩
    | _ => cases hid
  · rintro (⟨item, hitem, hid⟩ | ⟨item, hitem, hid⟩)
    · refine ⟨item, hitem, ?_⟩
      cases item with
      | functionCallOutput | customToolCallOutput => exact hid
      | _ => cases hid
    · refine ⟨item, hitem, ?_⟩
      cases item with
      | localShellCall => exact hid
      | _ => cases hid

/-- The call of an output is known or among earlier items. -/
def hasCall (previous : List ResponseItem) (callIds : List String)
    (item : ResponseItem) :
    Bool :=
  match outputIdOf item with
  | some callId => callId ∈ callIds || callId ∈ collectToolCallIds previous
  | none => true

theorem findCallItemById_eq_some {items : List ResponseItem} {callId : String}
    {call : ResponseItem} (h : findCallItemById items callId = some call) :
    callIdOf call = some callId ∧ call ∈ items := by
  refine ⟨by simpa using List.find?_some h, ?_⟩
  exact List.mem_reverse.1 (List.mem_of_find?_eq_some h)

theorem findCallItemById_eq_none {items : List ResponseItem} {callId : String} :
    findCallItemById items callId = none ↔
      callId ∉ collectToolCallIds items := by
  simp [findCallItemById, collectToolCallIds]

/-- What is put behind a history with calls of the given ids: the outputs that
have a call there or earlier, and the last earlier call of each one that the
history lacks. -/
structure Reconciled (previous : List ResponseItem) (callIds : List String)
    (pending missing filtered : List ResponseItem) : Prop where
  kept : filtered = pending.filter (hasCall previous callIds)
  answered : ∀ callId ∈ outputIds filtered,
    callId ∈ callIds ∨ callId ∈ collectToolCallIds missing
  nodup : (collectToolCallIds missing).Nodup
  lacking : ∀ callId ∈ collectToolCallIds missing,
    callId ∉ callIds ∧ callId ∈ outputIds filtered
  found : ∀ call ∈ missing, ∃ callId,
    findCallItemById previous callId = some call

section Reconciliation

variable {previous : List ResponseItem} {callIds : List String}
  {rest missing filtered : List ResponseItem} {item : ResponseItem}
  {callId : String}

theorem Reconciled.keep_other
    (h : Reconciled previous callIds rest missing filtered)
    (hout : outputIdOf item = none) :
    Reconciled previous callIds (item :: rest) missing (item :: filtered) := by
  have hids : outputIds (item :: filtered) = outputIds filtered :=
    List.filterMap_cons_none hout
  refine ⟨?_, hids ▸ h.answered, h.nodup, hids ▸ h.lacking, h.found⟩
  rw [List.filter_cons_of_pos (by rw [hasCall, hout]), h.kept]

theorem Reconciled.keep_known
    (h : Reconciled previous callIds rest missing filtered)
    (hout : outputIdOf item = some callId) (hmem : callId ∈ callIds) :
    Reconciled previous callIds (item :: rest) missing (item :: filtered) := by
  have hids : outputIds (item :: filtered) = callId :: outputIds filtered :=
    List.filterMap_cons_some hout
  refine ⟨?_, ?_, h.nodup, ?_, h.found⟩
  · rw [List.filter_cons_of_pos (by simp [hasCall, hout, hmem]), h.kept]
  · rw [hids]
    exact List.forall_mem_cons.2 ⟨.inl hmem, h.answered⟩
  · intro id hid
    rw [hids]
    exact ⟨(h.lacking id hid).1, List.mem_cons_of_mem _ (h.lacking id hid).2⟩

theorem hasCall_cons (hcall : callId ∈ collectToolCallIds previous) :
    hasCall previous (callId :: callIds) = hasCall previous callIds := by
  funext item
  rw [hasCall, hasCall]
  cases outputIdOf item with
  | none => rfl
  | some id =>
      by_cases heq : id = callId
      · simp [heq, hcall]
      · simp [heq]

theorem Reconciled.keep_missing {call : ResponseItem}
    (h : Reconciled previous (callId :: callIds) rest missing filtered)
    (hout : outputIdOf item = some callId) (hmem : callId ∉ callIds)
    (hcall : findCallItemById previous callId = some call) :
    Reconciled previous callIds (item :: rest) (call :: missing)
      (item :: filtered) := by
  have hids : outputIds (item :: filtered) = callId :: outputIds filtered :=
    List.filterMap_cons_some hout
  obtain ⟨hid, hin⟩ := findCallItemById_eq_some hcall
  have hcalls : collectToolCallIds (call :: missing) =
      callId :: collectToolCallIds missing :=
    List.filterMap_cons_some hid
  have hknown : callId ∈ collectToolCallIds previous :=
    List.mem_filterMap.2 ⟨call, hin, hid⟩
  refine ⟨?_, ?_, ?_, ?_, List.forall_mem_cons.2 ⟨⟨callId, hcall⟩, h.found⟩⟩
  · rw [List.filter_cons_of_pos (by simp [hasCall, hout, hknown]), h.kept,
      hasCall_cons hknown]
  · rw [hids, hcalls]
    refine List.forall_mem_cons.2 ⟨.inr List.mem_cons_self, fun id hid => ?_⟩
    rcases h.answered id hid with hid | hid
    · rcases List.mem_cons.1 hid with rfl | hid
      · exact .inr List.mem_cons_self
      · exact .inl hid
    · exact .inr (List.mem_cons_of_mem _ hid)
  · rw [hcalls]
    exact List.nodup_cons.2 ⟨fun hid => (h.lacking _ hid).1 List.mem_cons_self,
      h.nodup⟩
  · rw [hcalls, hids]
    refine List.forall_mem_cons.2 ⟨⟨hmem, List.mem_cons_self⟩, fun id hid => ?_⟩
    obtain ⟨hlacking, hanswers⟩ := h.lacking id hid
    exact ⟨fun hid => hlacking (List.mem_cons_of_mem _ hid),
      List.mem_cons_of_mem _ hanswers⟩

theorem Reconciled.drop (h : Reconciled previous callIds rest missing filtered)
    (hout : outputIdOf item = some callId) (hmem : callId ∉ callIds)
    (hcall : findCallItemById previous callId = none) :
    Reconciled previous callIds (item :: rest) missing filtered := by
  refine { h with kept := ?_ }
  rw [findCallItemById_eq_none] at hcall
  rw [List.filter_cons_of_neg (by simp [hasCall, hout, hmem, hcall]), h.kept]

end Reconciliation

theorem reconciled_reconcileFrom (previous : List ResponseItem)
    (callIds : List String)
    (pending : List ResponseItem) :
    Reconciled previous callIds pending
      (reconcileFrom previous callIds pending).1
      (reconcileFrom previous callIds pending).2 := by
  induction pending generalizing callIds with
  | nil =>
      refine ⟨rfl, ?_, List.nodup_nil, ?_, ?_⟩ <;>
        exact fun _ h => (List.not_mem_nil h).elim
  | cons item rest ih =>
      rw [reconcileFrom]
      split
      next callId hout =>
        by_cases hmem : callId ∈ callIds
        · rw [if_pos hmem]
          exact (ih callIds).keep_known hout hmem
        · rw [if_neg hmem]
          split
          next call hcall =>
            exact (ih (callId :: callIds)).keep_missing hout hmem hcall
          next hcall => exact (ih callIds).drop hout hmem hcall
      next hout => exact (ih callIds).keep_other hout

end CodeRs.Agent
