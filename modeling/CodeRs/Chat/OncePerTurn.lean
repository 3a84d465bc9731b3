import CodeRs.Chat.Aggregated

/-!
# One message for every turn

The aggregated stream of a turn should have one message with the text of the
turn, at most one reasoning item, and one `Completed` as its last event.  It
has them unless the end of the turn makes `process_chat_sse` send a message, or
reasoning, that the adapter sends again.
-/

namespace CodeRs.Chat

open Protocol

/-- A text, if there is any. -/
def said (text : Text) : List Text := if text = [] then [] else [text]

/-- What the outputs of the adapter should be for the events of one turn. -/
structure OncePerTurn (inner outputs : List StreamItem) : Prop where
  message : messages outputs = said (inner.flatMap textDelta)
  reasoning : reasonings outputs = [] ∨
    reasonings outputs = [inner.flatMap reasoningDelta]
  completed : ∃ before responseId,
    outputs = before ++ [.ok (.completed responseId)] ∧
    ∀ event ∈ before, isCompleted event = false

/-! ## Lists of events -/

/-- The events for finished items. -/
def dones (items : List ResponseItem) : List StreamItem :=
  items.map fun item => .ok (itemDone item)

/-- Events without an item and without an end. -/
def IsQuiet (events : List StreamItem) : Prop :=
  ∀ event ∈ events, doneItem event = none ∧ isCompleted event = false

section Events

variable (events events' : List StreamItem)

theorem messages_append : messages
    (events ++ events') = messages events ++ messages events' :=
  List.filterMap_append ..

theorem reasonings_append :
    reasonings (events ++ events') = reasonings events ++ reasonings events' :=
  List.filterMap_append ..

variable {events}

theorem messages_of_quiet (h : IsQuiet events) : messages events = [] := by
  rw [messages, List.filterMap_eq_nil_iff]
  intro event hevent
  rw [(h event hevent).1]
  rfl

theorem reasonings_of_quiet (h : IsQuiet events) : reasonings events = [] := by
  rw [reasonings, List.filterMap_eq_nil_iff]
  intro event hevent
  rw [(h event hevent).1]
  rfl

theorem messages_dones (items : List ResponseItem) :
    messages (dones items) = items.filterMap messageText := by
  rw [messages, dones, List.filterMap_map]
  rfl

theorem reasonings_dones (items : List ResponseItem) :
    reasonings (dones items) = items.filterMap reasoningItemText := by
  rw [reasonings, dones, List.filterMap_map]
  rfl

end Events

/-! ## The end of a turn -/

namespace TurnEnd

/-- `process_chat_sse` sends the text of the turn as a message. -/
def flushesText : TurnEnd → Bool
  | finish reason => reason = "stop"
  | done => true
  | closed => true
  | failed _ => false

/-- `process_chat_sse` sends the reasoning of the turn as an item; `called`
says that there was a fragment of a tool call. -/
def flushesReasoning (called : Bool) : TurnEnd → Bool
  | finish reason => reason = "stop" || (reason = "tool_calls" && called)
  | done => true
  | closed => true
  | failed _ => false

end TurnEnd

namespace ChatState

variable (s : ChatState)

theorem sent_flushText : ∃ items, s.flushText.sent = s.sent ++ dones items ∧
    items.filterMap messageText = said s.assistantText ∧
    items.filterMap reasoningItemText = [] := by
  rw [flushText, said]
  split
  · exact ⟨[], (List.append_nil _).symm, rfl, rfl⟩
  · exact ⟨[_], rfl, rfl, rfl⟩

theorem sent_flushReasoning :
    ∃ items, s.flushReasoning.sent = s.sent ++ dones items ∧
    items.filterMap messageText = [] ∧
    items.filterMap reasoningItemText = said s.reasoningText := by
  rw [flushReasoning, said]
  split
  · exact ⟨[], (List.append_nil _).symm, rfl, rfl⟩
  · exact ⟨[_], rfl, rfl, by simp [reasoningItem, reasoningItemText]⟩

theorem reasoningText_flushText :
    s.flushText.reasoningText = s.reasoningText := by
  rw [flushText]
  split <;> rfl

theorem sent_flush :
    ∃ items, s.flushText.flushReasoning.sent = s.sent ++ dones items ∧
    items.filterMap messageText = said s.assistantText ∧
    items.filterMap reasoningItemText = said s.reasoningText := by
  obtain ⟨items, hsent, htext, hreasoning⟩ := s.sent_flushText
  obtain ⟨items', hsent', htext', hreasoning'⟩ :=
    s.flushText.sent_flushReasoning
  refine ⟨items ++ items', ?_, ?_, ?_⟩
  · rw [hsent', hsent, List.append_assoc, dones, dones, dones, List.map_append]
  · rw [List.filterMap_append, htext, htext', List.append_nil]
  · rw [List.filterMap_append, hreasoning, hreasoning', reasoningText_flushText]
    rfl

theorem sent_finishItems (reason : String) :
    ∃ items, (s.finishItems reason).sent = s.sent ++ dones items ∧
      items.filterMap messageText =
        (if (TurnEnd.finish reason).flushesText then
          said s.assistantText else []) ∧
      items.filterMap reasoningItemText =
        if (TurnEnd.finish reason).flushesReasoning s.fnCallState.active then
          said s.reasoningText else [] := by
  rw [finishItems]
  split
  · rename_i hcalled
    obtain ⟨items, hsent, htext, hreasoning⟩ := s.sent_flushReasoning
    refine ⟨items ++ [s.flushReasoning.functionCall], ?_, ?_, ?_⟩
    · rw [sendFunctionCall, send, hsent, dones, dones, List.map_append,
        ← List.append_assoc]
      rfl
    · rw [List.filterMap_append, htext]
      simp [TurnEnd.flushesText, hcalled.1, functionCall, messageText]
    · rw [List.filterMap_append, hreasoning]
      simp [TurnEnd.flushesReasoning, hcalled.1, hcalled.2, functionCall,
        reasoningItemText]
  · rename_i hcalled
    split
    · rename_i hstop
      obtain ⟨items, hsent, htext, hreasoning⟩ := s.sent_flush
      refine ⟨items, hsent, ?_, ?_⟩
      · simp [htext, TurnEnd.flushesText, hstop]
      · simp [hreasoning, TurnEnd.flushesReasoning, hstop]
    · rename_i hstop
      refine ⟨[], (List.append_nil _).symm, ?_, ?_⟩
      · simp [TurnEnd.flushesText, hstop]
      · have hnone :
            (TurnEnd.finish reason).flushesReasoning s.fnCallState.active =
              false := by
          simpa [TurnEnd.flushesReasoning, hstop] using hcalled
        rw [hnone]
        rfl

theorem sent_endTurn (requestId : String) {turnEnd : TurnEnd}
    (hend : ∀ error, turnEnd ≠ .failed error) :
    ∃ items responseId,
      (s.endTurn requestId turnEnd).sent =
        s.sent ++ dones items ++ [.ok (.completed responseId)] ∧
      items.filterMap messageText =
        (if turnEnd.flushesText then said s.assistantText else []) ∧
      items.filterMap reasoningItemText =
        if turnEnd.flushesReasoning s.fnCallState.active then
          said s.reasoningText else [] := by
  obtain ⟨flushed, hflushed, htext, hreasoning⟩ := s.sent_flush
  have hcomplete : s.flushAndComplete.sent =
      s.sent ++ dones flushed ++
        [.ok (.completed (s.currentResponseId.getD ""))] := by
    rw [← hflushed]
    rfl
  cases turnEnd with
  | failed error => exact absurd rfl (hend error)
  | done => exact ⟨flushed, _, hcomplete, htext, hreasoning⟩
  | closed => exact ⟨flushed, _, hcomplete, htext, hreasoning⟩
  | finish reason =>
      obtain ⟨items, hitems, htext, hreasoning⟩ := s.sent_finishItems reason
      refine ⟨items, "", ?_, htext, hreasoning⟩
      rw [← hitems]
      rfl

end ChatState

/-! ## What the adapter makes of it -/

namespace AggregatedChatStream

/-- The adapter has taken up these texts, and nothing is pending. -/
structure Heard (s : AggregatedChatStream) (mode : AggregateMode)
    (text reasoning : Text) :
    Prop where
  cumulative : s.cumulative = text
  cumulativeReasoning : s.cumulativeReasoning = reasoning
  mode : s.mode = mode
  pending : s.pending = []

variable {s : AggregatedChatStream} {mode : AggregateMode}
    {text reasoning : Text}

/-- An early event is neither an item nor an end. -/
theorem isQuiet_of_early {events : List StreamItem}
    (h : ∀ event ∈ events, IsEarly event) :
    IsQuiet events := by
  intro event hevent
  have hearly := h event hevent
  cases event with
  | error error => exact ⟨rfl, rfl⟩
  | ok event => cases event <;> first | exact ⟨rfl, rfl⟩ | exact hearly.elim

theorem isEarly_of_react {event output : StreamItem} (hearly : IsEarly event)
    (houtput : (s.react event).2 = some output) : IsEarly output := by
  cases event with
  | error error => exact hearly.elim
  | ok event =>
      cases event with
      | created responseId responseModel =>
          rw [← Option.some.inj houtput]
          trivial
      | outputTextDelta delta itemId sequenceNumber outputIndex =>
          obtain ⟨-, houtput⟩ := Option.ite_none_right_eq_some.1 houtput
          rw [← Option.some.inj houtput]
          trivial
      | reasoningContentDelta delta itemId sequenceNumber outputIndex
          contentIndex =>
          obtain ⟨-, houtput⟩ := Option.ite_none_right_eq_some.1 houtput
          rw [← Option.some.inj houtput]
          trivial
      | outputItemDone | completed | reasoningSummaryDelta
      | reasoningSummaryPartAdded
        | forwarded => exact hearly.elim

theorem Heard.react_early {event : StreamItem} (h : s.Heard mode text reasoning)
    (hearly : IsEarly event) :
    (s.react event).1.Heard mode (text ++ textDelta event)
      (reasoning ++ reasoningDelta event) := by
  obtain ⟨htext, hreasoning, hmode, hpending⟩ := h
  cases event with
  | error error => exact hearly.elim
  | ok event =>
      cases event with
      | created responseId responseModel =>
          exact ⟨htext.trans (List.append_nil _).symm,
            hreasoning.trans (List.append_nil _).symm, hmode, hpending⟩
      | outputTextDelta delta itemId sequenceNumber outputIndex =>
          exact ⟨congrArg (· ++ delta) htext,
            hreasoning.trans (List.append_nil _).symm, hmode, hpending⟩
      | reasoningContentDelta delta itemId sequenceNumber outputIndex
          contentIndex =>
          exact ⟨htext.trans (List.append_nil _).symm,
            congrArg (· ++ delta) hreasoning, hmode, hpending⟩
      | outputItemDone | completed | reasoningSummaryDelta
      | reasoningSummaryPartAdded
        | forwarded => exact hearly.elim

theorem Heard.flushed (h : s.Heard mode text reasoning) :
    s.flushed.Heard mode text reasoning :=
  ⟨h.cumulative, h.cumulativeReasoning, h.mode, rfl⟩

/-- Early events add their texts and return no items. -/
theorem Heard.earlies {early : List StreamItem}
    (h : s.Heard mode text reasoning)
    (hearly : ∀ event ∈ early, IsEarly event) :
    ∃ (s' : AggregatedChatStream) (quiet : List StreamItem),
      (∀ rest, s.emitted (early ++ rest) = quiet ++ s'.emitted rest) ∧
      IsQuiet quiet ∧
      s'.Heard mode (text ++ early.flatMap textDelta)
        (reasoning ++ early.flatMap reasoningDelta) := by
  induction early generalizing s text reasoning with
  | nil =>
      refine ⟨s, [], fun _ => rfl,
        fun event hevent => absurd hevent List.not_mem_nil, ?_⟩
      simpa using h
  | cons event early ih =>
      have hfirst := hearly event List.mem_cons_self
      have hheard := h.react_early hfirst
      have hquiet : IsQuiet (s.emit event) := by
        rw [emit, hheard.pending, List.map_nil, List.append_nil]
        refine isQuiet_of_early ?_
        intro output houtput
        exact isEarly_of_react hfirst (Option.mem_toList.1 houtput)
      obtain ⟨s', quiet, hemitted, hquiet', hheard'⟩ :=
        ih hheard.flushed fun event hevent =>
          hearly event (List.mem_cons_of_mem _ hevent)
      refine ⟨s', s.emit event ++ quiet, ?_, ?_, ?_⟩
      · intro rest
        rw [List.cons_append, emitted, hemitted, List.append_assoc]
      · intro event hevent
        obtain hevent | hevent := List.mem_append.1 hevent
        · exact hquiet event hevent
        · exact hquiet' event hevent
      · simpa [List.append_assoc] using hheard'

/-- A finished item is passed on; a message does not count when there was
text. -/
theorem Heard.item {item : ResponseItem} (h : s.Heard mode text reasoning)
    (hitem : text = [] → messageText item = none) :
    s.emit (.ok (itemDone item)) = [.ok (itemDone item)] ∧
      (s.react (.ok (itemDone item))).1.Heard mode text reasoning := by
  have hnoted : (s.noteItem item).Heard mode text reasoning := by
    obtain ⟨rfl, hreasoning, hmode, hpending⟩ := h
    cases item with
    | message id role content endTurn phase =>
        rw [noteItem]
        split
        · rename_i hassistant
          have hnone := hitem hassistant.2
          rw [messageText, if_pos hassistant.1] at hnone
          rw [hnone]
          exact ⟨List.append_nil _, hreasoning, hmode, hpending⟩
        · exact ⟨rfl, hreasoning, hmode, hpending⟩
    | reasoning id summary content encryptedContent =>
        exact ⟨rfl, hreasoning, hmode, hpending⟩
    | _ => exact ⟨rfl, hreasoning, hmode, hpending⟩
  refine ⟨?_, hnoted⟩
  have hemit : s.emit (.ok (itemDone item)) =
      .ok (itemDone item) :: (s.noteItem item).pending.map .ok := rfl
  rw [hemit, hnoted.pending]
  rfl

theorem Heard.items {items : List ResponseItem}
    (h : s.Heard mode text reasoning)
    (hitems : ∀ item ∈ items, text = [] → messageText item = none) :
    ∃ s' : AggregatedChatStream,
      (∀ rest,
        s.emitted (dones items ++ rest) = dones items ++ s'.emitted rest) ∧
      s'.Heard mode text reasoning := by
  induction items generalizing s with
  | nil => exact ⟨s, fun _ => rfl, h⟩
  | cons item items ih =>
      obtain ⟨hemit, hheard⟩ := h.item (hitems item List.mem_cons_self)
      obtain ⟨s', hemitted, hheard'⟩ :=
        ih hheard.flushed fun item hitem =>
          hitems item (List.mem_cons_of_mem _ hitem)
      refine ⟨s', ?_, hheard'⟩
      intro rest
      change s.emitted (_ :: (dones items ++ rest)) = _ :: (dones items ++ _)
      rw [emitted, hemit, hemitted]
      rfl

/-- At the end of the turn the aggregated items are returned, then
`Completed`. -/
theorem Heard.complete (h : s.Heard mode text reasoning) (responseId : String) :
    s.emitted [.ok (.completed responseId)] =
      dones s.aggregated ++ [.ok (.completed responseId)] := by
  have hemitted : s.emitted [.ok (.completed responseId)] =
      .ok (s.complete responseId).2 ::
        (s.complete responseId).1.pending.map .ok :=
    List.append_nil _
  rw [hemitted, AggregatedChatStream.complete, h.pending]
  cases s.aggregated with
  | nil => rfl
  | cons item items => simp [dones]

theorem Heard.messageText_aggregated (h : s.Heard mode text reasoning) :
    s.aggregated.filterMap messageText = said text := by
  obtain ⟨rfl, -, -, -⟩ := h
  rw [aggregated, said, List.filterMap_append]
  by_cases htext : s.cumulative = []
  · rw [if_pos htext, if_neg (not_not_intro htext)]
    split <;> rfl
  · rw [if_neg htext, if_pos htext]
    split <;> rfl

theorem Heard.reasoningItemText_aggregated (h : s.Heard mode text reasoning) :
    s.aggregated.filterMap reasoningItemText =
      if mode = .aggregatedOnly then said reasoning else [] := by
  obtain ⟨-, rfl, rfl, -⟩ := h
  have hmessage : (if s.cumulative ≠ [] then
      [assistantMessage s.cumulativeItemId s.cumulative] else []).filterMap
        reasoningItemText = [] := by
    split <;> rfl
  rw [aggregated, said, List.filterMap_append, hmessage, List.append_nil]
  by_cases hmode : s.mode = .aggregatedOnly
  · by_cases hreasoning : s.cumulativeReasoning = []
    · rw [if_neg (fun h => h.1 hreasoning), if_pos hmode, if_pos hreasoning]
      rfl
    · rw [if_pos ⟨hreasoning, hmode⟩, if_pos hmode, if_neg hreasoning]
      simp [reasoningItem, reasoningItemText]
  · rw [if_neg (fun h => hmode h.2), if_neg hmode]
    rfl

end AggregatedChatStream

/-! ## When every message comes once -/

variable {fromStr : Text → Option Json} {requestId : String} {datas : List Text}
  {ending : StreamEnd} {chunks : List Json} {turnEnd : TurnEnd}

theorem active_handleChunks (chunks : List Json) :
    (chunks.foldl ChatState.handleChunk .init).fnCallState.active =
      decide (allFragments chunks ≠ []) := by
  have hcall : (chunks.foldl ChatState.handleChunk .init).fnCallState =
      (firstFragments chunks).foldl FunctionCallState.note
        ChatState.init.fnCallState :=
    ChatState.fnCallState_handleChunks .init chunks
  rw [hcall, foldl_note, Bool.eq_iff_iff, decide_eq_true_iff, Ne,
    ← firstFragments_eq_nil_iff]
  simp [ChatState.init]

theorem processChatSse_eq (requestId : String)
    (hturn : readTurn fromStr datas ending = (chunks, turnEnd))
    (hend : ∀ error, turnEnd ≠ .failed error) :
    ∃ early items responseId,
      processChatSse fromStr requestId datas ending =
        early ++ (dones items ++ [.ok (.completed responseId)]) ∧
      (∀ event ∈ early, IsEarly event) ∧
      early.flatMap textDelta = chunks.flatMap chunkText ∧
      early.flatMap reasoningDelta = chunks.flatMap chunkReasoning ∧
      items.filterMap messageText =
        (if turnEnd.flushesText then said (chunks.flatMap chunkText) else []) ∧
      items.filterMap reasoningItemText =
        if turnEnd.flushesReasoning (allFragments chunks ≠ []) then
          said (chunks.flatMap chunkReasoning) else [] := by
  have hprogress := ChatState.progress_handleChunks .init chunks
  obtain ⟨early, hsent, hearly, htext, hreasoning⟩ := hprogress.sent
  obtain ⟨items, responseId, hlast, hmessages, hreasonings⟩ :=
    (chunks.foldl ChatState.handleChunk .init).sent_endTurn requestId hend
  rw [hprogress.assistantText] at hmessages
  rw [hprogress.reasoningText, active_handleChunks] at hreasonings
  refine ⟨early, items, responseId, ?_, hearly, htext, hreasoning,
    hmessages, hreasonings⟩
  rw [processChatSse, processFrom_eq, hturn, hlast, hsent, List.append_assoc]
  rfl

/-- Finished items and the end of a turn have no deltas. -/
theorem deltas_last (items : List ResponseItem) (responseId : String) :
    List.flatMap textDelta (dones items ++ [.ok (.completed responseId)]) = [] ∧
      List.flatMap reasoningDelta (dones items ++
        [.ok (.completed responseId)]) = [] := by
  simp [dones, itemDone, textDelta, reasoningDelta]

theorem deltas_processChatSse (requestId : String)
    (hturn : readTurn fromStr datas ending = (chunks, turnEnd))
    (hend : ∀ error, turnEnd ≠ .failed error) :
    (processChatSse fromStr requestId datas ending).flatMap textDelta =
        chunks.flatMap chunkText ∧
      (processChatSse fromStr requestId datas ending).flatMap reasoningDelta =
        chunks.flatMap chunkReasoning := by
  obtain ⟨early, items, responseId, hevents, -, htext, hreasoning, -, -⟩ :=
    processChatSse_eq requestId hturn hend
  have hlast := deltas_last items responseId
  rw [hevents]
  refine ⟨?_, ?_⟩
  · rw [List.flatMap_append, hlast.1, List.append_nil, htext]
  · rw [List.flatMap_append, hlast.2, List.append_nil, hreasoning]

theorem outputs_processChatSse (requestId : String) (mode : AggregateMode)
    (hturn : readTurn fromStr datas ending = (chunks, turnEnd))
    (hend : ∀ error, turnEnd ≠ .failed error) :
    ∃ quiet items responseId,
      (AggregatedChatStream.new mode).outputs
          (processChatSse fromStr requestId datas ending) =
        quiet ++ dones items ++ [.ok (.completed responseId)] ∧
      IsQuiet quiet ∧
      items.filterMap messageText =
        (if turnEnd.flushesText then said (chunks.flatMap chunkText) else []) ++
          said (chunks.flatMap chunkText) ∧
      items.filterMap reasoningItemText =
        (if turnEnd.flushesReasoning (allFragments chunks ≠ []) then
          said (chunks.flatMap chunkReasoning) else []) ++
        if mode = .aggregatedOnly then said (chunks.flatMap chunkReasoning)
          else [] := by
  obtain ⟨early, items, responseId, hevents, hearly, htext,
    hreasoning, hmessages,
    hreasonings⟩ := processChatSse_eq requestId hturn hend
  have hnew : (AggregatedChatStream.new mode).Heard mode [] [] :=
    ⟨rfl, rfl, rfl, rfl⟩
  obtain ⟨s, quiet, hquietEmitted, hquiet, hheard⟩ := hnew.earlies hearly
  rw [htext, hreasoning, List.nil_append, List.nil_append] at hheard
  -- Without text the producer has no message to send.
  have hitems : ∀ item ∈ items, chunks.flatMap chunkText = [] →
      messageText item = none := by
    intro item hitem hnone
    have hsaid : items.filterMap messageText = [] := by
      rw [hmessages, hnone]
      exact ite_self _
    exact List.filterMap_eq_nil_iff.1 hsaid item hitem
  obtain ⟨s', hitemsEmitted, hheard'⟩ := hheard.items hitems
  refine ⟨quiet, items ++ s'.aggregated, responseId, ?_, hquiet, ?_, ?_⟩
  · rw [AggregatedChatStream.outputs_eq _ _ rfl, hevents, hquietEmitted,
      hitemsEmitted,
      hheard'.complete, dones, dones, dones, List.map_append]
    simp only [List.append_assoc]
  · rw [List.filterMap_append, hmessages, hheard'.messageText_aggregated]
  · rw [List.filterMap_append, hreasonings,
      hheard'.reasoningItemText_aggregated]

/-- A text said twice is said once only if there is none. -/
theorem ite_append_said (flushes : Bool) (text : Text) :
    (if flushes then said text else []) ++ said text = said text ↔
      text = [] ∨ flushes = false := by
  cases flushes with
  | false => simp
  | true => by_cases htext : text = [] <;> simp [said, htext]

/-- A text said at two places is said at most once if there is none, or not at
both. -/
theorem ite_append_ite_said (flushes : Bool) (mode : AggregateMode)
    (text : Text) :
    ((if flushes then said text else []) ++
          (if mode = .aggregatedOnly then said text else []) = [] ∨
        (if flushes then said text else []) ++
          (if mode = .aggregatedOnly then said text else []) = [text]) ↔
      text = [] ∨ mode = .streaming ∨ flushes = false := by
  by_cases htext : text = []
  · cases flushes <;> cases mode <;> simp [said, htext]
  · cases flushes <;> cases mode <;> simp [said, htext]

/-- For a turn that does not fail the adapter returns every message once
exactly if the producer sends none itself, and reasoning at most once exactly
if the producer sends none or the adapter streams. -/
theorem oncePerTurn_iff (requestId : String) (mode : AggregateMode)
    (hturn : readTurn fromStr datas ending = (chunks, turnEnd))
    (hend : ∀ error, turnEnd ≠ .failed error) :
    OncePerTurn (processChatSse fromStr requestId datas ending)
        ((AggregatedChatStream.new mode).outputs
          (processChatSse fromStr requestId datas ending)) ↔
      (chunks.flatMap chunkText = [] ∨ turnEnd.flushesText = false) ∧
      (chunks.flatMap chunkReasoning = [] ∨ mode = .streaming ∨
        turnEnd.flushesReasoning (allFragments chunks ≠ []) = false) := by
  obtain ⟨htext, hreasoning⟩ := deltas_processChatSse requestId hturn hend
  obtain ⟨quiet, items, responseId, houtputs, hquiet, hmessages, hreasonings⟩ :=
    outputs_processChatSse requestId mode hturn hend
  have hmessages' :
      messages (quiet ++ dones items ++ [.ok (.completed responseId)]) =
      items.filterMap messageText := by
    rw [messages_append, messages_append, messages_of_quiet hquiet,
      messages_dones]
    exact List.append_nil _
  have hreasonings' :
      reasonings (quiet ++ dones items ++ [.ok (.completed responseId)]) =
      items.filterMap reasoningItemText := by
    rw [reasonings_append, reasonings_append, reasonings_of_quiet hquiet,
      reasonings_dones]
    exact List.append_nil _
  rw [← ite_append_said, ← ite_append_ite_said, ← hmessages,
    ← hreasonings, ← hmessages',
    ← hreasonings', ← houtputs]
  constructor
  · rintro ⟨hmessage, hreasoning', -⟩
    rw [htext] at hmessage
    rw [hreasoning] at hreasoning'
    exact ⟨hmessage, hreasoning'⟩
  · rintro ⟨hmessage, hreasoning'⟩
    refine ⟨by rwa [htext], by
      rwa [hreasoning], quiet ++ dones items, responseId, houtputs, ?_⟩
    intro event hevent
    obtain hevent | hevent := List.mem_append.1 hevent
    · exact (hquiet event hevent).2
    · obtain ⟨item, -, rfl⟩ := List.mem_map.1 hevent
      rfl

/-! ## A turn that is said once and one that is said twice -/

/-- A chunk with text that ends its turn. -/
def textChunk (content reason : String) : Json :=
  .object [("choices", .array [.object
    [("delta", .object [("content", .string content)]),
      ("finish_reason", .string reason)]])]

def textChunkText (content reason : String) : Text :=
  ("\x7b\"choices\":[\x7b\"delta\":\x7b\"content\":\"" ++ content ++
    "\"\x7d,\"finish_reason\":\"" ++ reason ++ "\"\x7d]\x7d").toList

/-- What is sent for a stream of one such chunk. -/
def textTurn (content reason : String) : List StreamItem :=
  processChatSse
    (parserOf (textChunkText content reason) (textChunk content reason)) "r"
    [textChunkText content reason] .closed

set_option maxRecDepth 2000 in
/-- A text that is cut off at the length limit is said once. -/
theorem oncePerTurn_length :
    OncePerTurn (textTurn "hi" "length")
      ((AggregatedChatStream.new .streaming).outputs
        (textTurn "hi" "length")) := by
  have hturn :
      readTurn
        (parserOf (textChunkText "hi" "length") (textChunk "hi" "length"))
      [textChunkText "hi" "length"] .closed =
        ([textChunk "hi" "length"], .finish "length") := rfl
  refine (oncePerTurn_iff "r" .streaming hturn (fun _ => TurnEnd.noConfusion)).2
    ⟨.inr ?_, ?_⟩
  · decide
  · exact .inr (.inl rfl)

set_option maxRecDepth 2000 in
/-- A text that ends with a stop is said twice. -/
theorem not_oncePerTurn_stop :
    ¬ OncePerTurn (textTurn "hi" "stop")
      ((AggregatedChatStream.new .streaming).outputs
        (textTurn "hi" "stop")) := by
  intro h
  have hmessage := h.message
  rw [AggregatedChatStream.outputs_eq _ _ rfl] at hmessage
  exact absurd hmessage (by decide)

end CodeRs.Chat
