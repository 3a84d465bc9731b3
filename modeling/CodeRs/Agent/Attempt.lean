import CodeRs.Chat.Sse
import CodeRs.Lib.Program
import CodeRs.Memory.Citations
import CodeRs.Session.TurnQueues

/-!
# One request to the model

`try_run_turn` of `core/src/codex/streaming.rs` with the scratchpad of
`core/src/codex/session.rs`.  The stream is the list of what it yields before
it is closed. Whether the turn is still the current one is looked at again and
again, so the answer is a function of how often it was asked.  Events to the
user, token counts and the turn diff are left out.
-/

namespace CodeRs.Agent

open Protocol TurnQueues
open Chat (ResponseEvent)

/-! ## Errors -/

/-- `CodexErr`, as far as the loop over the attempts of a turn tells the
variants apart, with the `Display` text of the others.  An error of the HTTP
client has whether the server was not reached. -/
inductive CodexErr where
  | stream (message : Text) (retryAfter : Option ℕ) (requestId : Option Text)
  | interrupted
  | envVar (message : Text)
  | usageLimitReached (message : Text)
  | usageNotIncluded
  | quotaExceeded
  | reqwest (message : Text) (notReached : Bool)
  | unsupportedOperation (message : Text)
  | other (message : Text)
  deriving DecidableEq

/-- The `Display` text of an error. -/
def CodexErr.display : CodexErr → Text
  | stream message _ _ =>
  "stream disconnected before completion: ".toList ++ message
  | interrupted => "interrupted (Ctrl-C)".toList
  | envVar message => message
  | usageLimitReached message => message
  | usageNotIncluded =>
      ("To use Codex with your ChatGPT plan, upgrade to Plus: " ++
        "https://openai.com/chatgpt/pricing.").toList
  | quotaExceeded =>
      "Quota exceeded. Check your plan and billing details.".toList
  | reqwest message _ => message
  | unsupportedOperation message => "unsupported operation: ".toList ++ message
  | other message => message

/-- The error of a stream that is closed too early. -/
def closedEarly : CodexErr :=
  .stream "stream closed before response.completed".toList none none

/-! ## Tools -/

/-- An answer of `handle_function_call`, every branch of which answers under
the id of the call. -/
inductive FunctionAnswer where
  | output (payload : FunctionCallOutputPayload)
  | mcp (result : McpCallResult)
  deriving DecidableEq

/-- What the tools do at a call, after the items that were handled before it in
the same attempt.  A tool search fails or gives the tools it has found. -/
structure Tools where
  functionCall : List ResponseItem → String → Option String → Text → String →
    FunctionAnswer
  toolSearch : List ResponseItem → String → Option (List Text)
  containerExec : List ResponseItem → String → FunctionCallOutputPayload

def FunctionAnswer.input (callId : String) : FunctionAnswer → ResponseInputItem
  | output payload => .functionCallOutput callId payload
  | mcp result => .mcpToolCallOutput callId result

/-- The answer of a tool search, `ToolSearchResponseMode::ToolSearchOutput`. -/
def toolSearchOutput (callId execution : String) :
    Option (List Text) → ResponseInputItem
  | none => .toolSearchOutput callId "failed" execution []
  | some tools => .toolSearchOutput callId "completed" execution tools

/-- `should_handle_response_item_after_turn_validation`. -/
def shouldHandleAfterTurnValidation : ResponseItem → Bool
  | .functionCall .. | .toolSearchCall .. | .localShellCall ..
  | .customToolCall .. => true
  | _ => false

def handleResponseItem (tools : Tools) (handled : List ResponseItem) :
    ResponseItem → Except CodexErr (Option ResponseInputItem)
  | .functionCall _ name space arguments callId =>
      .ok
        (some
          ((tools.functionCall handled name space arguments callId).input
            callId))
  | .toolSearchCall _ callId _ execution =>
      .ok (some (toolSearchOutput (callId.getD "") execution
        (tools.toolSearch handled execution)))
  | .localShellCall _ (some callId) =>
      .ok
        (some (.functionCallOutput callId (tools.containerExec handled callId)))
  | .localShellCall (some id) none =>
      .ok (some (.functionCallOutput id (tools.containerExec handled id)))
  | .localShellCall none none =>
      .ok (some (.functionCallOutput ""
        ⟨.text "LocalShellCall without call_id or id".toList, none⟩))
  | .customToolCall _ _ callId name space _ =>
      let displayName := (space.map fun space => space ++ "." ++ name).getD name
      .ok (some (.functionCallOutput callId ⟨.text ("Custom tool '".toList ++
        displayName.toList ++ "' is not supported in this build".toList),
        some false⟩))
  | _ => .ok none

/-- `sanitize_response_item`, without the ids of the rollouts that are cited. -/
def sanitizeResponseItem (parseUuid : Text → Option Text) :
    ResponseItem → ResponseItem
  | .message id role content endTurn phase =>
      if role = "assistant" then
        .message id role (content.map fun
          | .outputText text =>
              .outputText (Memory.Core.stripMemoryCitations parseUuid text).1
          | other => other) endTurn phase
      else .message id role content endTurn phase
  | item => item

/-! ## The state of an attempt -/

structure ProcessedResponseItem where
  item : ResponseItem
  response : Option ResponseInputItem
  deriving DecidableEq

/-- The variables of an attempt, the items it has handled so far, and how often
it has asked whether its turn is current. -/
structure AttemptState where
  turnScratchpad : Option TurnScratchpad
  pendingTurnValidatedItems : List ResponseItem
  output : List ProcessedResponseItem
  handled : List ResponseItem
  checks : ℕ

/-- What an attempt finds around it. -/
structure Host where
  subId : Text
  tools : Tools
  parseUuid : Text → Option Text
  isCurrentTask : ℕ → Bool
  outside : Outside
  toolOutputMaxBytes : ℕ

/-- The largest number of bytes of a partial text that are kept. -/
def maxPartialBytes : ℕ := 4000

/-- The end of a partial text that is kept. -/
def keepPartial (t : Text) : Text :=
  if t.byteLen > maxPartialBytes then
    (t.drain (t.floorBoundary (t.byteLen - maxPartialBytes))).getD t
  else t

def beginAttemptScratchpad : AttemptState :=
  ⟨some ⟨[], [], [], []⟩, [], [], [], 0⟩

namespace AttemptState

/-- Work on the scratchpad, if there is one. -/
def onScratchpad (f : TurnScratchpad → TurnScratchpad) (s : AttemptState) :
    AttemptState :=
  { s with turnScratchpad := s.turnScratchpad.map f }

def scratchpadPush (host : Host) (item : ResponseItem)
    (response : Option ResponseInputItem) :
    AttemptState → AttemptState :=
  onScratchpad fun sp => { sp with
    items := sp.items ++ [item]
    responses := sp.responses ++ (response.map fun r =>
      enforceUserMessageLimits host.outside host.toolOutputMaxBytes
        host.subId r).toList }

def scratchpadAddTextDelta (delta : Text) : AttemptState → AttemptState :=
  onScratchpad fun sp =>
    { sp with
      partialAssistantText := keepPartial (sp.partialAssistantText ++ delta) }

def scratchpadAddReasoningDelta (delta : Text) : AttemptState → AttemptState :=
  onScratchpad fun sp =>
    { sp with
      partialReasoningSummary :=
        keepPartial (sp.partialReasoningSummary ++ delta) }

def scratchpadClearPartialMessage (item : ResponseItem) :
    AttemptState → AttemptState :=
  onScratchpad fun sp => { sp with
    partialAssistantText :=
      match item with
      | .message .. => []
      | _ => sp.partialAssistantText }

/-- Keep an item until the response is complete. -/
def pend (item : ResponseItem) (s : AttemptState) : AttemptState :=
  { s with pendingTurnValidatedItems := s.pendingTurnValidatedItems ++ [item] }

def give (processed : ProcessedResponseItem) (s : AttemptState) :
    AttemptState :=
  { s with output := s.output ++ [processed] }

/-- Note that an item is handled. -/
def handle (item : ResponseItem) (s : AttemptState) : AttemptState :=
  { s with handled := s.handled ++ [item] }

end AttemptState

/-! ## The loop -/

abbrev AttemptM := Program AttemptState CodexErr

def ensureTurnStillCurrent (host : Host) : AttemptM Unit := do
  let s ← get
  modify fun s => { s with checks := s.checks + 1 }
  if host.isCurrentTask s.checks then pure () else throw .interrupted

/-- An item is handled, entered into the scratchpad and given out. -/
def processItem (host : Host) (item : ResponseItem) : AttemptM Unit := do
  let s ← get
  modify (.handle item)
  match handleResponseItem host.tools s.handled item with
  | .error e => throw e
  | .ok response =>
      ensureTurnStillCurrent host
      modify (.scratchpadPush host item response)
      modify (.scratchpadClearPartialMessage item)
      modify (.give ⟨item, response⟩)

/-- The items that were kept, when the response is complete. -/
def processPending (host : Host) : AttemptM Unit := do
  let s ← get
  s.pendingTurnValidatedItems.forM fun item => do
    ensureTurnStillCurrent host
    processItem host item

/-- The loop over the events of a stream. -/
def attemptLoop (host : Host) :
    List (Except CodexErr ResponseEvent) → AttemptM (List ProcessedResponseItem)
  | [] => do
      ensureTurnStillCurrent host
      throw closedEarly
  | .error e :: _ => do
      ensureTurnStillCurrent host
      throw e
  | .ok event :: rest => do
      ensureTurnStillCurrent host
      ensureTurnStillCurrent host
      match event with
      | .outputItemDone item _ _ =>
          let item := sanitizeResponseItem host.parseUuid item
          if shouldHandleAfterTurnValidation item then modify (.pend item)
          else processItem host item
          attemptLoop host rest
      | .completed _ =>
          processPending host
          return (← get).output
      | .outputTextDelta delta _ _ _ =>
          modify (.scratchpadAddTextDelta delta)
          attemptLoop host rest
      | .reasoningSummaryDelta delta =>
          modify (.scratchpadAddReasoningDelta delta)
          attemptLoop host rest
      | _ => attemptLoop host rest

/-- `try_run_turn`, on the stream or the error that the client gives for the
prompt, with what it leaves behind. -/
def tryRunTurn (host : Host)
    (stream : Except CodexErr (List (Except CodexErr ResponseEvent))) :
    Except CodexErr (List ProcessedResponseItem) × AttemptState :=
  match stream with
  | .error e => (.error e, beginAttemptScratchpad)
  | .ok events => Program.exec (attemptLoop host events) beginAttemptScratchpad

/-! ## What a response asks for -/

/-- The items of a response, as far as it comes. -/
def responseItems (parseUuid : Text → Option Text) :
    List (Except CodexErr ResponseEvent) → List ResponseItem
  | .ok (.outputItemDone item _ _) :: rest =>
      sanitizeResponseItem parseUuid item :: responseItems parseUuid rest
  | .ok (.completed _) :: _ => []
  | .ok _ :: rest => responseItems parseUuid rest
  | _ => []

/-- The response comes to its end. -/
def completes : List (Except CodexErr ResponseEvent) → Bool
  | .ok (.completed _) :: _ => true
  | .ok _ :: rest => completes rest
  | _ => false

/-- The calls among items. -/
def calls (items : List ResponseItem) : List ResponseItem :=
  items.filter shouldHandleAfterTurnValidation

/-- The items that are no calls. -/
def remarks (items : List ResponseItem) : List ResponseItem :=
  items.filter (! shouldHandleAfterTurnValidation ·)

def answerTo (tools : Tools) (handled : List ResponseItem)
    (item : ResponseItem) :
    Option ResponseInputItem :=
  match handleResponseItem tools handled item with
  | .ok response => response
  | .error _ => none

/-- Items with their answers, handled one after the other. -/
def processAll (tools : Tools) (handled : List ResponseItem) :
    List ResponseItem → List ProcessedResponseItem
  | [] => []
  | item :: rest =>
      ⟨item, answerTo tools handled item⟩ ::
        processAll tools (handled ++ [item]) rest

theorem handleResponseItem_eq (tools : Tools) (handled : List ResponseItem)
    (item : ResponseItem) :
    handleResponseItem tools handled item =
      .ok (answerTo tools handled item) := by
  have hok : ∃ response,
      handleResponseItem tools handled item = .ok response := by
    unfold handleResponseItem
    split <;> exact ⟨_, rfl⟩
  obtain ⟨response, hresponse⟩ := hok
  rw [answerTo, hresponse]

theorem answerTo_of_remark (tools : Tools) (handled : List ResponseItem)
    {item : ResponseItem} (h : shouldHandleAfterTurnValidation item = false) :
    answerTo tools handled item = none := by
  cases item with
  | functionCall => cases h
  | toolSearchCall => cases h
  | localShellCall => cases h
  | customToolCall => cases h
  | _ => rfl

theorem processAll_concat (tools : Tools) (before items : List ResponseItem)
    (item : ResponseItem) :
    processAll tools before (items ++ [item]) =
      processAll tools before items ++
        [⟨item, answerTo tools (before ++ items) item⟩] := by
  induction items generalizing before with
  | nil => rw [List.append_nil]; rfl
  | cons first rest ih =>
      rw [List.cons_append, processAll, processAll, ih, List.cons_append,
        List.append_assoc,
        List.singleton_append]

theorem map_item_processAll (tools : Tools) (before items : List ResponseItem) :
    (processAll tools before items).map ProcessedResponseItem.item = items := by
  induction items generalizing before with
  | nil => rfl
  | cons first rest ih => rw [processAll, List.map_cons, ih]

/-! ## Triples of an attempt -/

section Triples

variable {host : Host} {P : AttemptState → Prop}
    {Q : Unit → AttemptState → Prop}
  {E : CodexErr → AttemptState → Prop}

def AttemptState.tick (s : AttemptState) : AttemptState :=
  { s with checks := s.checks + 1 }

/-- The state after an item that was handled while the turn was current. -/
def AttemptState.process (host : Host) (item : ResponseItem)
    (s : AttemptState) :
    AttemptState :=
  let response := answerTo host.tools s.handled item
  .give ⟨item, response⟩ <| .scratchpadClearPartialMessage item <|
    .scratchpadPush host item response (s.handle item).tick

theorem triple_ensure
    (hcurrent : ∀ s, P s → host.isCurrentTask s.checks = true → Q () s.tick)
    (hnot : ∀ s, P s → host.isCurrentTask s.checks = false →
      E .interrupted s.tick) :
    Program.Triple P (ensureTurnStillCurrent host) Q E := by
  intro s hs
  change Program.EndsIn Q E (Program.exec
    (if host.isCurrentTask s.checks then pure ()
      else throw .interrupted) s.tick)
  by_cases hcheck : host.isCurrentTask s.checks = true
  · rw [if_pos hcheck]
    exact hcurrent s hs hcheck
  · rw [if_neg hcheck]
    exact hnot s hs (Bool.eq_false_of_not_eq_true hcheck)

theorem triple_processItem {item : ResponseItem}
    (hcurrent : ∀ s, P s → host.isCurrentTask s.checks = true →
      Q () (s.process host item))
    (hnot : ∀ s, P s → host.isCurrentTask s.checks = false →
      E .interrupted (s.handle item).tick) :
    Program.Triple P (processItem host item) Q E := by
  intro s hs
  have hrun : Program.exec (processItem host item) s =
      Program.exec (do
        ensureTurnStillCurrent host
        modify (.scratchpadPush host item (answerTo host.tools s.handled item))
        modify (.scratchpadClearPartialMessage item)
        modify (.give ⟨item, answerTo host.tools s.handled item⟩))
        (s.handle item) := by
    change Program.exec (match handleResponseItem host.tools s.handled item with
      | .error e => throw e
      | .ok response => _) (s.handle item) = _
    rw [handleResponseItem_eq]
  rw [hrun]
  refine Program.Triple.bind (P := fun s' => s' = s.handle item)
    (Q := fun _ s' => s' = (s.handle item).tick ∧
      host.isCurrentTask s.checks = true)
    (triple_ensure ?_ ?_) (fun _ => ?_) _ rfl
  · rintro _ rfl hcheck
    exact ⟨rfl, hcheck⟩
  · rintro _ rfl hcheck
    exact hnot s hs hcheck
  · rintro _ ⟨rfl, hcheck⟩
    exact hcurrent s hs hcheck

end Triples

/-! ## Before the response is complete -/

/-- No check but the last one may have found that the turn is over. -/
def CheckedBefore (host : Host) (s : AttemptState) : Prop :=
  ∀ n, n + 1 < s.checks → host.isCurrentTask n = true

/-- No call has been executed, and the scratchpad has no call and no answer. -/
structure Untouched (s : AttemptState) : Prop where
  executed : calls s.handled = []
  scratchpad : ∃ sp, s.turnScratchpad = some sp ∧ calls sp.items = [] ∧
    sp.responses = []

/-- The state while the items of a response come in. -/
structure Streaming (host : Host) (items : List ResponseItem)
    (s : AttemptState) : Prop where
  pending : s.pendingTurnValidatedItems = calls items
  handled : s.handled = remarks items
  output : s.output = processAll host.tools [] (remarks items)
  scratchpad : ∃ sp, s.turnScratchpad = some sp ∧ calls sp.items = [] ∧
    sp.responses = []
  checks : ∀ n < s.checks, host.isCurrentTask n = true

/-- The outcome of a whole response. -/
structure Delivered (host : Host) (items : List ResponseItem)
    (output : List ProcessedResponseItem) (s : AttemptState) : Prop where
  handled : s.handled = remarks items ++ calls items
  output : output = processAll host.tools [] (remarks items ++ calls items)
  checks : ∀ n < s.checks, host.isCurrentTask n = true

/-- The outcomes of an attempt that fails: no call has been executed, or the
turn was over when the calls of the whole response were being executed. -/
inductive Failed (host : Host) (completed : Bool) (items : List ResponseItem)
    (e : CodexErr)
    (s : AttemptState) : Prop
  | untouched : CheckedBefore host s → Untouched s →
  Failed host completed items e s
  | interrupted : CheckedBefore host s → completed = true → e = .interrupted →
      calls s.handled <+: calls items →
      host.isCurrentTask (s.checks - 1) = false →
      Failed host completed items e s

theorem calls_append (items later : List ResponseItem) :
    calls (items ++ later) = calls items ++ calls later := List.filter_append ..

theorem remarks_append (items later : List ResponseItem) :
    remarks (items ++ later) = remarks items ++ remarks later :=
  List.filter_append ..

@[simp] theorem calls_remarks (items : List ResponseItem) :
    calls (remarks items) = [] := by
  rw [calls, remarks, List.filter_filter, List.filter_eq_nil_iff]
  intro item _
  cases shouldHandleAfterTurnValidation item <;> simp

@[simp] theorem calls_calls (items : List ResponseItem) :
    calls (calls items) = calls items := by
  rw [calls, calls, List.filter_filter]
  exact List.filter_congr fun item _ => Bool.and_self _

theorem calls_of_call {item : ResponseItem}
    (h : shouldHandleAfterTurnValidation item = true) :
    calls [item] = [item] ∧ remarks [item] = [] := by
  simp [calls, remarks, h]

theorem calls_of_remark {item : ResponseItem}
    (h : shouldHandleAfterTurnValidation item = false) :
    calls [item] = [] ∧ remarks [item] = [item] := by
  simp [calls, remarks, h]

section Loop

variable {host : Host} {items : List ResponseItem} {s : AttemptState}

theorem forall_lt_tick (h : ∀ n < s.checks, host.isCurrentTask n = true)
    (hcheck : host.isCurrentTask s.checks = true) :
    ∀ n < s.tick.checks, host.isCurrentTask n = true := by
  intro n hn
  rcases Nat.lt_succ_iff_lt_or_eq.1 hn with hlt | rfl
  · exact h n hlt
  · exact hcheck

theorem checkedBefore_tick (h : ∀ n < s.checks, host.isCurrentTask n = true) :
    CheckedBefore host s.tick :=
  fun n hn => h n (Nat.lt_of_succ_lt_succ hn)

theorem Streaming.start : Streaming host [] beginAttemptScratchpad where
  pending := rfl
  handled := rfl
  output := rfl
  scratchpad := ⟨_, rfl, rfl, rfl⟩
  checks := fun _ hn => (Nat.not_lt_zero _ hn).elim

theorem Streaming.untouched (h : Streaming host items s) : Untouched s where
  executed := by rw [h.handled, calls_remarks]
  scratchpad := h.scratchpad

theorem Streaming.tick (h : Streaming host items s)
    (hcheck : host.isCurrentTask s.checks = true) :
    Streaming host items s.tick :=
  { h with checks := forall_lt_tick h.checks hcheck }

theorem Streaming.onScratchpad {f : TurnScratchpad → TurnScratchpad}
    (hf : ∀ sp, (f sp).items = sp.items ∧ (f sp).responses = sp.responses)
    (h : Streaming host items s) : Streaming host items (s.onScratchpad f) := by
  obtain ⟨sp, hsp, hitems, hresponses⟩ := h.scratchpad
  refine { h with scratchpad := ⟨f sp, ?_, ?_, ?_⟩ }
  · rw [AttemptState.onScratchpad, hsp]
    rfl
  · rw [(hf sp).1, hitems]
  · rw [(hf sp).2, hresponses]

theorem Streaming.pend (h : Streaming host items s) {item : ResponseItem}
    (hitem : shouldHandleAfterTurnValidation item = true) :
    Streaming host (items ++ [item]) (s.pend item) where
  pending := by
    rw [calls_append, (calls_of_call hitem).1, ← h.pending]
    rfl
  handled := by
    rw [remarks_append, (calls_of_call hitem).2, List.append_nil]
    exact h.handled
  output := by
    rw [remarks_append, (calls_of_call hitem).2, List.append_nil]
    exact h.output
  scratchpad := h.scratchpad
  checks := h.checks

theorem Streaming.process (h : Streaming host items s) {item : ResponseItem}
    (hitem : shouldHandleAfterTurnValidation item = false)
    (hcheck : host.isCurrentTask s.checks = true) :
    Streaming host (items ++ [item]) (s.process host item) where
  pending := by
    rw [calls_append, (calls_of_remark hitem).1, List.append_nil]
    exact h.pending
  handled := by
    rw [remarks_append, (calls_of_remark hitem).2, ← h.handled]
    rfl
  output := by
    rw [remarks_append, (calls_of_remark hitem).2,
      processAll_concat, ← h.output,
      List.nil_append, ← h.handled]
    rfl
  scratchpad := by
    obtain ⟨sp, hsp, hitems, hresponses⟩ := h.scratchpad
    have hanswer : answerTo host.tools s.handled item = none :=
      answerTo_of_remark _ _ hitem
    refine ⟨_, congrArg (Option.map _ ∘ Option.map _) hsp, ?_, ?_⟩
    · change calls (sp.items ++ [item]) = []
      rw [calls_append, hitems, (calls_of_remark hitem).1, List.append_nil]
    · change sp.responses ++
        ((answerTo host.tools s.handled item).map _).toList = []
      rw [hresponses, hanswer]
      rfl
  checks := forall_lt_tick h.checks hcheck

/-! ## After the response is complete -/

/-- The state while the calls of a response are executed. -/
structure Executing (host : Host) (items visited : List ResponseItem)
    (s : AttemptState) :
    Prop where
  handled : s.handled = remarks items ++ visited
  output : s.output = processAll host.tools [] (remarks items ++ visited)
  checks : ∀ n < s.checks, host.isCurrentTask n = true

theorem Streaming.executing (h : Streaming host items s) :
    Executing host items [] s where
  handled := by rw [List.append_nil, h.handled]
  output := by rw [List.append_nil, h.output]
  checks := h.checks

theorem Executing.process {visited : List ResponseItem}
    (h : Executing host items visited s)
    (item : ResponseItem) (hcheck : host.isCurrentTask s.checks = true) :
    Executing host items (visited ++ [item]) (s.process host item) where
  handled := by
    rw [← List.append_assoc, ← h.handled]
    rfl
  output := by
    rw [← List.append_assoc, processAll_concat, ← h.output,
      List.nil_append, ← h.handled]
    rfl
  checks := forall_lt_tick h.checks hcheck

theorem Executing.failed {visited : List ResponseItem} {t : AttemptState}
    (hchecks : ∀ n < t.checks, host.isCurrentTask n = true)
    (ht : t.handled = remarks items ++ visited)
    (hvisited : visited <+: calls items)
    (hcheck : host.isCurrentTask t.checks = false) :
    Failed host true items .interrupted t.tick := by
  refine .interrupted (checkedBefore_tick hchecks) rfl rfl ?_ hcheck
  obtain ⟨later, hlater⟩ := hvisited
  have hcalls : calls visited ++ calls later = calls items := by
    rw [← calls_append, hlater, calls_calls]
  change calls t.handled <+: calls items
  rw [ht, calls_append, calls_remarks, List.nil_append, ← hcalls]
  exact List.prefix_append ..

theorem triple_processPending :
    Program.Triple (Streaming host items) (processPending host)
      (fun _ => Executing host items (calls items))
      (Failed host true items) := by
  refine Program.Triple.bind
    (Program.Triple.of_get (Q := fun a s => Streaming host items s ∧
      a.pendingTurnValidatedItems = calls items) fun s hs => ⟨hs, hs.pending⟩)
      fun a => ?_
  intro s ⟨hs, ha⟩
  rw [ha]
  refine Program.Triple.forM (I := Executing host items) (calls items) ?_
    s hs.executing
  intro visited item rest hsplit
  have hprefix : visited <+: calls items := hsplit ▸ List.prefix_append ..
  have hprefix' : visited ++ [item] <+: calls items :=
    ⟨rest, by rw [List.append_assoc, List.singleton_append, hsplit]⟩
  refine Program.Triple.bind (Q := fun _ => Executing host items visited)
    (triple_ensure ?_ ?_) fun _ => triple_processItem ?_ ?_
  · exact fun t ht hcheck =>
      { ht with checks := forall_lt_tick ht.checks hcheck }
  · exact fun t ht hcheck =>
      Executing.failed ht.checks ht.handled hprefix hcheck
  · exact fun t ht hcheck => ht.process item hcheck
  · refine fun t ht hcheck =>
      Executing.failed (t := t.handle item) ht.checks ?_ hprefix' hcheck
    rw [← List.append_assoc, ← ht.handled]
    rfl

/-! ## The whole attempt -/

/-- Two checks in front of an event. -/
theorem triple_checked {β : Type} {p : AttemptM β} {Q : β → AttemptState → Prop}
    {completed : Bool} {all : List ResponseItem}
    (hp : Program.Triple (Streaming host items) p Q
      (Failed host completed all)) :
    Program.Triple (Streaming host items) (do ensureTurnStillCurrent host; p) Q
      (Failed host completed all) :=
  Program.Triple.bind (Q := fun _ => Streaming host items)
    (triple_ensure (fun _ ht hcheck => ht.tick hcheck) fun _ ht _ =>
      .untouched (checkedBefore_tick ht.checks)
        ⟨ht.untouched.executed, ht.untouched.scratchpad⟩) fun _ => hp

theorem Streaming.failed (h : Streaming host items s) {completed : Bool}
    {all : List ResponseItem} {e : CodexErr} : Failed host completed all e s :=
  .untouched (fun n hn => h.checks n (Nat.lt_of_succ_lt hn)) h.untouched

theorem triple_attemptLoop (events : List (Except CodexErr ResponseEvent)) :
    Program.Triple (Streaming host items) (attemptLoop host events)
      (fun output s => completes events = true ∧
        Delivered host (items ++ responseItems host.parseUuid events) output s)
      (Failed host (completes events)
        (items ++ responseItems host.parseUuid events)) := by
  induction events generalizing items with
  | nil => exact triple_checked (Program.Triple.of_throw fun _ hs => hs.failed)
  | cons event rest ih =>
      rcases event with e | event
      · exact triple_checked (Program.Triple.of_throw fun _ hs => hs.failed)
      refine triple_checked (triple_checked ?_)
      cases event with
      | outputItemDone done number index =>
          let item := sanitizeResponseItem host.parseUuid done
          change Program.Triple _
            (if shouldHandleAfterTurnValidation item then
              (do modify (.pend item); attemptLoop host rest)
            else (do processItem host item; attemptLoop host rest))
            (fun output s => completes rest = true ∧
              Delivered host (items ++ item ::
                responseItems host.parseUuid rest) output s)
            (Failed host (completes rest) (items ++
              item :: responseItems host.parseUuid rest))
          rw [List.append_cons]
          by_cases hcall : shouldHandleAfterTurnValidation item = true
          · rw [if_pos hcall]
            exact Program.Triple.bind
              (Program.Triple.of_modify fun _ hs => hs.pend hcall) fun _ => ih
          · have hremark := Bool.eq_false_of_not_eq_true hcall
            rw [if_neg hcall]
            refine Program.Triple.bind (triple_processItem
              (Q := fun _ => Streaming host (items ++ [item]))
              (fun _ hs hcheck => hs.process hremark hcheck) fun t ht _ => ?_)
              fun _ => ih
            refine .untouched (checkedBefore_tick ht.checks) ⟨?_, ht.scratchpad⟩
            change calls (t.handled ++ [item]) = []
            rw [calls_append, ht.untouched.executed,
              (calls_of_remark hremark).1]
            rfl
      | completed id =>
          change Program.Triple _ _ (fun output s => true = true ∧
            Delivered host (items ++ []) output s)
            (Failed host true (items ++ []))
          rw [List.append_nil]
          refine Program.Triple.bind triple_processPending fun _ => ?_
          refine Program.Triple.bind
            (Program.Triple.of_get (Q := fun a s => a = s ∧
              Executing host items (calls items) s) fun s hs => ⟨rfl, hs⟩)
              fun a => ?_
          refine Program.Triple.of_pure ?_
          rintro _ ⟨rfl, hs⟩
          exact ⟨rfl, hs.handled, hs.output, hs.checks⟩
      | outputTextDelta delta =>
          refine Program.Triple.bind (Q := fun _ => Streaming host items)
            (Program.Triple.of_modify fun _ hs => hs.onScratchpad ?_) fun _ =>
            ih
          exact fun _ => ⟨rfl, rfl⟩
      | reasoningSummaryDelta delta =>
          refine Program.Triple.bind (Q := fun _ => Streaming host items)
            (Program.Triple.of_modify fun _ hs => hs.onScratchpad ?_) fun _ =>
            ih
          exact fun _ => ⟨rfl, rfl⟩
      | _ => exact ih

end Loop

/-- An attempt on a stream ends as its response says. -/
theorem tryRunTurn_endsIn (host : Host)
    (events : List (Except CodexErr ResponseEvent)) :
    Program.EndsIn
      (fun output s => completes events = true ∧
        Delivered host (responseItems host.parseUuid events) output s)
      (Failed host (completes events) (responseItems host.parseUuid events))
      (tryRunTurn host (.ok events)) :=
  triple_attemptLoop events _ Streaming.start

/-- An attempt that fails without being interrupted has executed no call, and
left neither a call nor an answer in the scratchpad. -/
theorem untouched_of_error {host : Host}
    {stream : Except CodexErr (List (Except CodexErr ResponseEvent))}
    {e : CodexErr}
    (h : (tryRunTurn host stream).1 = .error e) (hne : e ≠ .interrupted) :
    Untouched (tryRunTurn host stream).2 := by
  rcases stream with e' | events
  · exact ⟨rfl, _, rfl, rfl, rfl⟩
  · have hend := tryRunTurn_endsIn host events
    revert h hend
    generalize tryRunTurn host (.ok events) = result
    obtain ⟨e' | output, s⟩ := result
    · rintro h (⟨-, huntouched⟩ | ⟨-, -, rfl, -⟩)
      · exact huntouched
      · exact (hne (Except.error.inj h).symm).elim
    · exact fun h => nomatch h

/-- What an attempt gives out are items with the answers of its tools. -/
theorem output_of_ok {host : Host}
    {stream : Except CodexErr (List (Except CodexErr ResponseEvent))}
    {output : List ProcessedResponseItem}
    (h : (tryRunTurn host stream).1 = .ok output) :
    ∃ items, output = processAll host.tools [] items := by
  rcases stream with e | events
  · exact nomatch h
  · have hend := tryRunTurn_endsIn host events
    revert h hend
    generalize tryRunTurn host (.ok events) = result
    obtain ⟨e | output', s⟩ := result
    · exact fun h => nomatch h
    · exact fun h hend => ⟨_, Except.ok.inj h ▸ hend.2.output⟩

/-- The calls of a response are executed last and in one go: none before the
response is complete, in their order, and none behind a check that finds the
turn over.  An attempt that succeeds has executed them all, and gives out every
item of the response once, the calls behind the others, with what its tool has
answered.  One that fails behind an executed call does so because its turn is
over. -/
structure ExecutesCallsLast (host : Host)
    (events : List (Except CodexErr ResponseEvent))
    (result : Except CodexErr (List ProcessedResponseItem) × AttemptState) :
    Prop where
  executed : calls result.2.handled ≠ [] → completes events = true ∧
    calls result.2.handled <+: calls (responseItems host.parseUuid events)
  checked : CheckedBefore host result.2
  delivered : ∀ output, result.1 = .ok output →
    completes events = true ∧
    calls result.2.handled = calls (responseItems host.parseUuid events) ∧
    output =
      processAll host.tools [] (remarks (responseItems host.parseUuid events) ++
      calls (responseItems host.parseUuid events))
  interrupted : ∀ e, result.1 = .error e → calls result.2.handled ≠ [] →
    e = .interrupted ∧ host.isCurrentTask (result.2.checks - 1) = false

theorem tryRunTurn_executesCallsLast (host : Host)
    (events : List (Except CodexErr ResponseEvent)) :
    ExecutesCallsLast host events (tryRunTurn host (.ok events)) := by
  have hend := tryRunTurn_endsIn host events
  revert hend
  generalize tryRunTurn host (.ok events) = result
  obtain ⟨e | output, s⟩ := result
  · rintro (⟨hchecks, huntouched⟩ | ⟨hchecks, hcomplete, rfl, hprefix, hlast⟩)
    · refine ⟨fun h => (h huntouched.executed).elim, hchecks, ?_, ?_⟩
      · exact fun _ h => nomatch h
      · exact fun _ _ h => (h huntouched.executed).elim
    · refine ⟨fun _ => ⟨hcomplete, hprefix⟩, hchecks, ?_, ?_⟩
      · exact fun _ h => nomatch h
      · exact fun _ h _ => ⟨(Except.error.inj h).symm, hlast⟩
  · rintro ⟨hcomplete, hdelivered⟩
    have hcalls :
        calls s.handled = calls (responseItems host.parseUuid events) := by
      rw [hdelivered.handled, calls_append, calls_remarks, calls_calls,
        List.nil_append]
    refine ⟨fun _ => ⟨hcomplete, hcalls ▸ List.prefix_refl _⟩, ?_, ?_, ?_⟩
    · exact fun n hn => hdelivered.checks n (Nat.lt_of_succ_lt hn)
    · exact fun _ h => ⟨hcomplete, hcalls, Except.ok.inj h ▸ hdelivered.output⟩
    · exact fun _ h => nomatch h

end CodeRs.Agent
