import CodeRs.Chat.Messages

/-!
# Tool messages and their calls

A provider looks for the call of a tool message by its id.  The id that a call
is sent with is its `call_id` for some kinds of calls and its `id` for the
others.
-/

namespace CodeRs.Chat

open Grouping Protocol

/-! ## Ids -/

def callIdOf : ResponseItem → Option String
  | .functionCall _ _ _ _ callId => some callId
  | .toolSearchCall _ callId _ _ => callId
  | .localShellCall _ callId => callId
  | .customToolCall _ _ callId _ _ _ => some callId
  | _ => none

def sentId : ResponseItem → Option String
  | .functionCall _ _ _ _ callId => some callId
  | .toolSearchCall _ callId _ _ => some (callId.getD "")
  | .localShellCall id _ => some (id.getD "")
  | .customToolCall id _ _ _ _ _ => id
  | _ => none

/-- The id of the call that an output is of, as it is sent. -/
def outputId : ResponseItem → Option String
  | .functionCallOutput callId _ => some callId
  | .customToolCallOutput callId _ _ => some callId
  | .toolSearchOutput callId _ _ => some (callId.getD "")
  | _ => none

/-- The `call_id` of the output of a function, a custom tool or a local
shell. -/
def outputCallId : ResponseItem → Option String
  | .functionCallOutput callId _ => some callId
  | .customToolCallOutput callId _ _ => some callId
  | _ => none

/-- Every output comes behind a call with its id. -/
def Follows (output call : ResponseItem → Option String)
    (input : List InputItem) : Prop :=
  ∀ before entry after, input = before ++ entry :: after →
    ∀ id, output entry.item = some id →
    ∃ entry' ∈ before, call entry'.item = some id

/-! ## Messages -/

/-- A message of calls has one with an id. -/
def HasCall (message : Json) (id : String) : Prop :=
  message.getStr "role" = some "assistant" ∧ ∃ toolCalls,
    message.get "tool_calls" = some (.array toolCalls) ∧
      ∃ toolCall ∈ toolCalls, toolCall.getStr "id" = some id

/-- Every tool message comes behind a message with its call. -/
def PairsUp (messages : List Json) : Prop :=
  ∀ before message after, messages = before ++ message :: after →
    ∀ id, message.getStr "tool_call_id" = some id →
    ∃ message' ∈ before, HasCall message' id

/-- Every run of calls is one message of the assistant with these calls, behind
the message with the instructions. -/
def GroupsCalls (write : Json → String) (input : List InputItem)
    (messages : List Json) : Prop :=
  List.Forall₂ (fun run message => (∀ entry ∈ run, isCallEntry entry = true) →
    message.getStr "role" = some "assistant" ∧
      message.get "content" = some .null ∧
      message.get "tool_calls" = some (.array (run.map (sentJson write))))
    (messageRuns input.zipIdx) messages.tail

variable (write : Json → String) (reasoning : ℕ → Option Text)

theorem getStr_id_sentJson {entry : InputItem × ℕ}
    (h : isCallEntry entry = true) :
    (sentJson write entry).getStr "id" = sentId entry.1.item := by
  obtain ⟨⟨item, extra⟩, idx⟩ := entry
  cases item with
  | functionCall | toolSearchCall | localShellCall => rfl
  | customToolCall id => cases id <;> rfl
  | _ => cases h

theorem isCallEntry_of_sentId {entry : InputItem × ℕ} {id : String}
    (h : sentId entry.1.item = some id) :
    isCallEntry entry = true ∧ isSentEntry entry = true := by
  obtain ⟨⟨item, extra⟩, idx⟩ := entry
  cases item with
  | functionCall | toolSearchCall | localShellCall
  | customToolCall => exact ⟨rfl, rfl⟩
  | _ => cases h

theorem isSentEntry_of_outputId {entry : InputItem × ℕ} {id : String}
    (h : outputId entry.1.item = some id) :
    isCallEntry entry = false ∧ isSentEntry entry = true := by
  obtain ⟨⟨item, extra⟩, idx⟩ := entry
  cases item with
  | functionCallOutput | toolSearchOutput
  | customToolCallOutput => exact ⟨rfl, rfl⟩
  | _ => cases h

theorem sentJson_of_not_call {entry : InputItem × ℕ}
    (h : isCallEntry entry = false) :
    (sentJson write entry).get "tool_calls" = none ∧
      (sentJson write entry).getStr "tool_call_id" = outputId entry.1.item := by
  obtain ⟨⟨item, extra⟩, idx⟩ := entry
  cases item with
  | functionCall | toolSearchCall | localShellCall | customToolCall => cases h
  | _ => exact ⟨rfl, rfl⟩

theorem callsMessage_fields (toolCalls : List Json) (text : Option Text) :
    (callsMessage toolCalls text).getStr "role" = some "assistant" ∧
      (callsMessage toolCalls text).get "content" = some .null ∧
      (callsMessage toolCalls text).get "tool_calls" =
        some (.array toolCalls) := ⟨rfl, rfl, rfl⟩

theorem toolCallId_callsMessage (toolCalls : List Json) (text : Option Text) :
    (callsMessage toolCalls text).getStr "tool_call_id" = none := by
  cases text <;> rfl

theorem runMessage_of_calls {run : List (InputItem × ℕ)} (hne : run ≠ [])
    (h : ∀ entry ∈ run, isCallEntry entry = true) :
    runMessage write reasoning run =
      callsMessage (run.map (sentJson write)) (runReasoning reasoning run) := by
  cases run with
  | nil => exact absurd rfl hne
  | cons first rest => exact if_pos (h first List.mem_cons_self)

theorem runMessage_singleton {entry : InputItem × ℕ}
    (h : isCallEntry entry = false) :
    runMessage write reasoning [entry] = sentJson write entry :=
  if_neg (by rw [h]; exact Bool.false_ne_true)

theorem hasCall_runMessage_iff {entries run : List (InputItem × ℕ)}
    (hrun : run ∈ runs isCallEntry entries) {id : String} :
    HasCall (runMessage write reasoning run) id ↔
      ∃ entry ∈ run, sentId entry.1.item = some id := by
  obtain ⟨hne, hcalls | ⟨entry, rfl, hentry⟩⟩ := mem_runs hrun
  · rw [runMessage_of_calls write reasoning hne hcalls]
    obtain ⟨hrole, -, htool⟩ :=
      callsMessage_fields (run.map (sentJson write))
        (runReasoning reasoning run)
    constructor
    · rintro ⟨-, toolCalls, hget, toolCall, hmem, hid⟩
      obtain rfl := Json.array.inj (Option.some.inj (htool.symm.trans hget))
      obtain ⟨entry, hentry, rfl⟩ := List.mem_map.1 hmem
      exact ⟨entry, hentry,
        (getStr_id_sentJson write (hcalls entry hentry)).symm.trans hid⟩
    · rintro ⟨entry, hentry, hid⟩
      refine ⟨hrole, _, htool, _, List.mem_map_of_mem hentry, ?_⟩
      exact (getStr_id_sentJson write (hcalls entry hentry)).trans hid
  · rw [runMessage_singleton write reasoning hentry]
    constructor
    · rintro ⟨-, toolCalls, hget, -⟩
      rw [(sentJson_of_not_call write hentry).1] at hget
      cases hget
    · rintro ⟨entry', hentry', hid⟩
      rw [List.mem_singleton.1 hentry'] at hid
      rw [(isCallEntry_of_sentId hid).1] at hentry
      cases hentry

theorem toolCallId_runMessage {entries run : List (InputItem × ℕ)}
    (hrun : run ∈ runs isCallEntry entries) {id : String}
    (h : (runMessage write reasoning run).getStr "tool_call_id" = some id) :
    ∃ entry, run = [entry] ∧ outputId entry.1.item = some id := by
  obtain ⟨hne, hcalls | ⟨entry, rfl, hentry⟩⟩ := mem_runs hrun
  · rw [runMessage_of_calls write reasoning hne hcalls,
      toolCallId_callsMessage] at h
    cases h
  · rw [runMessage_singleton write reasoning hentry,
      (sentJson_of_not_call write hentry).2] at h
    exact ⟨entry, rfl, h⟩

/-! ## Pairs of messages and pairs of items -/

theorem exists_hasCall_iff (entries : List (InputItem × ℕ)) (id : String) :
    (∃ run ∈ runs isCallEntry entries,
      HasCall (runMessage write reasoning run) id) ↔
      ∃ entry ∈ entries, sentId entry.1.item = some id := by
  constructor
  · rintro ⟨run, hrun, hcall⟩
    obtain ⟨entry, hentry, hid⟩ :=
      (hasCall_runMessage_iff write reasoning hrun).1 hcall
    refine ⟨entry, ?_, hid⟩
    rw [← flatten_runs isCallEntry entries]
    exact List.mem_flatten.2 ⟨run, hrun, hentry⟩
  · rintro ⟨entry, hentry, hid⟩
    rw [← flatten_runs isCallEntry entries] at hentry
    obtain ⟨run, hrun, hmem⟩ := List.mem_flatten.1 hentry
    exact ⟨run, hrun,
      (hasCall_runMessage_iff write reasoning hrun).2 ⟨entry, hmem, hid⟩⟩

theorem exists_split_of_run {input : List InputItem}
    {front back : List (List (InputItem × ℕ))}
    {entry : InputItem × ℕ}
    (h : messageRuns input.zipIdx = front ++ [entry] :: back) :
    ∃ before after, input = before ++ entry.1 :: after ∧
      ∀ item ∈ before, isSent item.item = true →
      ∃ sent ∈ front.flatten, sent.1 = item := by
  have hflatten : input.zipIdx.filter isSentEntry =
      front.flatten ++ entry :: back.flatten := by
    rw [← flatten_runs isCallEntry (input.zipIdx.filter isSentEntry)]
    change (messageRuns input.zipIdx).flatten = _
    rw [h, List.flatten_append, List.flatten_cons, List.singleton_append]
  obtain ⟨sent, rest, hzip, hsent, hrest⟩ :=
    List.filter_eq_append_iff.1 hflatten
  obtain ⟨skipped, after, rfl, hskipped, -, -⟩ :=
    List.filter_eq_cons_iff.1 hrest
  refine ⟨(sent ++ skipped).map Prod.fst, after.map Prod.fst, ?_, ?_⟩
  · rw [← List.zipIdx_map_fst 0 input, hzip]
    simp
  · rintro item hitem hyes
    obtain ⟨call, hmem, rfl⟩ := List.mem_map.1 hitem
    refine ⟨call, ?_, rfl⟩
    rcases List.mem_append.1 hmem with hmem | hmem
    · rw [← hsent]
      exact List.mem_filter.2 ⟨hmem, hyes⟩
    · exact absurd hyes (hskipped call hmem)

/-- Tool messages come behind their calls if the outputs that are sent do. -/
theorem pairsUp_of_follows (input : List InputItem) (instructions : Text)
    (h : Follows outputId sentId input) :
    PairsUp (chatMessages input write instructions) := by
  intro before message after hsplit id hid
  rw [chatMessages_eq] at hsplit
  cases before with
  | nil =>
      obtain ⟨rfl, -⟩ := List.cons.inj hsplit
      cases hid
  | cons system before =>
      obtain ⟨-, hsplit⟩ := List.cons.inj hsplit
      obtain ⟨front, back, hruns, rfl, hback⟩ := List.map_eq_append_iff.1 hsplit
      obtain ⟨run, back, rfl, rfl, -⟩ := List.map_eq_cons_iff.1 hback
      have hmem : ∀ run' ∈ front ++ [run], run' ∈ messageRuns input.zipIdx := by
        intro run' hrun'
        rw [hruns, ← List.singleton_append, ← List.append_assoc]
        exact List.mem_append_left _ hrun'
      obtain ⟨entry, rfl, houtput⟩ := toolCallId_runMessage write _
        (hmem run (List.mem_append_right _ (List.mem_singleton_self run))) hid
      obtain ⟨before', after', hinput, hbefore⟩ := exists_split_of_run hruns
      obtain ⟨item, hitem, hcallId⟩ := h _ _ _ hinput id houtput
      have hyes : isSent item.item = true :=
        (@isCallEntry_of_sentId (item, 0) id hcallId).2
      obtain ⟨call, hcall, rfl⟩ := hbefore item hitem hyes
      obtain ⟨run, hrun, hentry⟩ := List.mem_flatten.1 hcall
      exact ⟨_, List.mem_cons_of_mem _ (List.mem_map_of_mem hrun),
        (hasCall_runMessage_iff write _
          (hmem run (List.mem_append_left _ hrun))).2
          ⟨call, hentry, hcallId⟩⟩

/-- Outputs come behind their calls if the tool messages do. -/
theorem follows_of_pairsUp (input : List InputItem) (instructions : Text)
    (h : PairsUp (chatMessages input write instructions)) :
    Follows outputId sentId input := by
  rintro before entry after rfl id hid
  have hsent : isSentEntry (entry, before.length) = true :=
    (isSentEntry_of_outputId hid).2
  have hcall : isCallEntry (entry, before.length) = false :=
    (isSentEntry_of_outputId hid).1
  have hruns : messageRuns (before ++ entry :: after).zipIdx =
      messageRuns before.zipIdx ++ [(entry, before.length)] ::
        messageRuns (after.zipIdx (before.length + 1)) := by
    rw [messageRuns, List.zipIdx_append, List.zipIdx_cons, Nat.zero_add,
      List.filter_append,
      List.filter_cons_of_pos hsent, runs_append_cons hcall]
    rfl
  have hsplit := chatMessages_eq write (before ++ entry :: after) instructions
  rw [hruns, List.map_append, List.map_cons, ← List.cons_append] at hsplit
  obtain ⟨message, hmessage, hhas⟩ := h _ _ _ hsplit id (by
    rw [runMessage_singleton write _ hcall,
      (sentJson_of_not_call write hcall).2, hid])
  rcases List.mem_cons.1 hmessage with rfl | hmessage
  · obtain ⟨-, toolCalls, hget, -⟩ := hhas
    cases hget
  · obtain ⟨run, hrun, rfl⟩ := List.mem_map.1 hmessage
    obtain ⟨call, hcall', hcallId⟩ :=
      (exists_hasCall_iff write _ _ id).1 ⟨run, hrun, hhas⟩
    refine ⟨call.1, ?_, hcallId⟩
    exact (List.mem_zipIdx' (List.mem_filter.1 hcall').1).2 ▸ List.getElem_mem _

theorem groupsCalls_chatMessages (input : List InputItem)
    (instructions : Text) :
    GroupsCalls write input (chatMessages input write instructions) := by
  rw [chatMessages_eq, GroupsCalls, List.tail_cons, List.forall₂_map_right_iff,
    List.forall₂_same]
  intro run hrun hcalls
  rw [runMessage_of_calls write _ (mem_runs hrun).1 hcalls]
  exact callsMessage_fields _ _

/-- The tool messages have their calls before them if and only if every output
comes behind a call that is sent with its `call_id`. -/
theorem pairsUp_chatMessages_iff (input : List InputItem)
    (instructions : Text) :
    (PairsUp (chatMessages input write instructions) ∧
      GroupsCalls write input (chatMessages input write instructions)) ↔
        Follows outputId sentId input :=
  ⟨fun h => follows_of_pairsUp write input instructions h.1,
    fun h => ⟨pairsUp_of_follows write input instructions h,
      groupsCalls_chatMessages write input instructions⟩⟩

/-- A local shell call with a `call_id` and no `id`, and its output. -/
def shellCallInput : List InputItem :=
  [⟨.localShellCall none (some "c1"), fun _ => .null⟩,
    ⟨.functionCallOutput "c1" (.fromText ['o', 'k']), fun _ => .null⟩]

theorem shellCallInput_follows :
    Follows outputCallId callIdOf shellCallInput := by
  intro before entry after hsplit id hid
  obtain _ | ⟨first, _ | ⟨second, before⟩⟩ := before
  · obtain ⟨rfl, -⟩ := List.cons.inj hsplit
    cases hid
  · obtain ⟨rfl, hback⟩ := List.cons.inj hsplit
    obtain ⟨hentry, -⟩ := List.cons.inj hback
    rw [← hentry] at hid
    exact ⟨_, List.mem_singleton_self _, hid⟩
  · obtain ⟨-, hsplit⟩ := List.cons.inj hsplit
    obtain ⟨-, hsplit⟩ := List.cons.inj hsplit
    exact absurd hsplit (by simp)

/-- The output of a local shell call has the `call_id`, and its call is sent
without it. -/
theorem not_pairsUp_chatMessages :
    ¬ ∀ (write : Json → String) (instructions : Text) (input : List InputItem),
      Follows outputCallId callIdOf input →
        PairsUp (chatMessages input write instructions) ∧
          GroupsCalls write input (chatMessages input write instructions) := by
  intro h
  obtain ⟨hpairs, -⟩ := h (fun _ => "") [] shellCallInput shellCallInput_follows
  have hfollows := follows_of_pairsUp (fun _ => "") shellCallInput [] hpairs
  obtain ⟨call, hcall, hid⟩ := hfollows [_] _ [] rfl "c1" rfl
  rw [List.mem_singleton.1 hcall] at hid
  exact absurd hid (by decide)

end CodeRs.Chat
