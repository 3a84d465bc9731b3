import CodeRs.Chat.Turn

/-!
# Tool calls of a turn

A stream tells the fragments of several tool calls apart by their index.
`process_chat_sse` takes the first fragment of every chunk for a fragment of
one call.  So it sends the calls of the stream exactly if there is at most one
and no text is in a fragment after the first of its chunk.
-/

namespace CodeRs.Chat

open Protocol

/-! ## Calls and their fragments -/

@[ext]
structure ToolCall where
  callId : String
  name : String
  arguments : Text
  deriving DecidableEq

/-- The index of the call that a fragment belongs to. -/
def fragmentIndex (toolCall : Json) : Option ℕ :=
  (toolCall.get "index").bind Json.asU64

def fragmentsOf (fragments : List Json) (i : ℕ) : List Json :=
  fragments.filter fun fragment => fragmentIndex fragment = some i

/-- The fragments encode the calls: each belongs to one of them, the first one
of a call has its id and its name, and together they have its arguments. -/
structure Encodes (fragments : List Json) (calls : List ToolCall) : Prop where
  index : ∀ fragment ∈ fragments, ∃ i, fragmentIndex fragment = some i ∧
    i < calls.length
  first : ∀ i call, calls[i]? = some call → ∃ first rest,
    fragmentsOf fragments i = first :: rest ∧
      fragmentId first = some call.callId ∧
      fragmentName first = some call.name
  arguments : ∀ i call, calls[i]? = some call →
    (fragmentsOf fragments i).flatMap fragmentArguments = call.arguments

/-- The tool call of a finished item. -/
def toolCallOf : ResponseItem → Option ToolCall
  | .functionCall _ name _ arguments callId => some ⟨callId, name, arguments⟩
  | _ => none

/-- The tool calls that are sent, in order. -/
def sentCalls (events : List StreamItem) : List ToolCall :=
  events.filterMap fun event => (doneItem event).bind toolCallOf

theorem sentCalls_append (events events' : List StreamItem) :
    sentCalls (events ++ events') = sentCalls events ++ sentCalls events' :=
  List.filterMap_append ..

theorem sentCalls_of_early {events : List StreamItem}
    (h : ∀ event ∈ events, IsEarly event) :
    sentCalls events = [] := by
  rw [sentCalls, List.filterMap_eq_nil_iff]
  intro event hevent
  have hearly := h event hevent
  cases event with
  | error error => rfl
  | ok event => cases event <;> first | rfl | exact hearly.elim

/-! ## The call that is sent -/

/-- The call that the state of the stream describes. -/
def FunctionCallState.toolCall (call : FunctionCallState) : ToolCall :=
  ⟨call.callId.getD "", call.name.getD "", call.arguments⟩

/-- A turn that ends for tool calls sends the one that was noted. -/
theorem sentCalls_finish (s : ChatState) :
    sentCalls (s.finish "tool_calls").sent =
      sentCalls s.sent ++ if s.fnCallState.active then
        [s.fnCallState.toolCall] else [] := by
  have hreasoning : sentCalls s.flushReasoning.sent = sentCalls s.sent := by
    rw [ChatState.flushReasoning]
    split
    · rfl
    · exact (sentCalls_append ..).trans (List.append_nil _)
  have hcall : s.flushReasoning.fnCallState = s.fnCallState := by
    rw [ChatState.flushReasoning]
    split <;> rfl
  cases hactive : s.fnCallState.active with
  | false =>
      have hitems : s.finishItems "tool_calls" = s := by
        simp [ChatState.finishItems, hactive]
      rw [ChatState.finish, hitems]
      exact sentCalls_append ..
  | true =>
      have hitems :
          s.finishItems "tool_calls" = s.flushReasoning.sendFunctionCall := by
        simp [ChatState.finishItems, hactive]
      rw [ChatState.finish, hitems]
      have hsent : sentCalls [.ok (itemDone s.flushReasoning.functionCall)] =
          [s.flushReasoning.fnCallState.toolCall] := rfl
      change sentCalls ((s.flushReasoning.sent ++ [_]) ++ [_]) = _
      rw [sentCalls_append, sentCalls_append, hreasoning, hsent, hcall]
      exact List.append_nil _

theorem foldl_note (call : FunctionCallState) (fragments : List Json) :
    fragments.foldl FunctionCallState.note call =
      { active := call.active || !fragments.isEmpty
        callId := call.callId.or (fragments.findSome? fragmentId)
        name := call.name.or (fragments.findSome? fragmentName)
        arguments := call.arguments ++
          fragments.flatMap fragmentArguments } := by
  induction fragments generalizing call with
  | nil => simp
  | cons fragment rest ih =>
      rw [List.foldl_cons, ih]
      simp only [FunctionCallState.note, List.findSome?_cons, List.flatMap_cons,
        List.append_assoc, List.isEmpty_cons, Bool.true_or,
        Bool.not_false, Bool.or_true]
      congr 1
      · cases fragmentName fragment <;> cases call.name <;> rfl
      · cases fragmentId fragment <;> cases call.callId <;> rfl

def firstFragments (chunks : List Json) : List Json :=
  chunks.filterMap fun chunk => (chunkToolCalls chunk).head?

def allFragments (chunks : List Json) : List Json :=
  chunks.flatMap chunkToolCalls

variable {fromStr : Text → Option Json} {requestId : String} {datas : List Text}
  {ending : StreamEnd} {chunks : List Json}

/-- A turn that ends for tool calls sends one call, made of the first
fragments. -/
theorem sentCalls_processChatSse
    (hturn : readTurn fromStr datas ending = (chunks, .finish "tool_calls")) :
    sentCalls (processChatSse fromStr requestId datas ending) =
      if firstFragments chunks = [] then []
      else [⟨((firstFragments chunks).findSome? fragmentId).getD "",
        ((firstFragments chunks).findSome? fragmentName).getD "",
        (firstFragments chunks).flatMap fragmentArguments⟩] := by
  rw [processChatSse, processFrom_eq, hturn]
  change sentCalls (ChatState.finish _ "tool_calls").sent = _
  obtain ⟨early, hsent, hearly, -, -⟩ :=
    (ChatState.progress_handleChunks .init chunks).sent
  have hcall : (chunks.foldl ChatState.handleChunk .init).fnCallState =
      (firstFragments chunks).foldl FunctionCallState.note
        ChatState.init.fnCallState :=
    ChatState.fnCallState_handleChunks .init chunks
  rw [sentCalls_finish, hsent, hcall, foldl_note, sentCalls_append,
    sentCalls_of_early hearly]
  simp only [ChatState.init, FunctionCallState.toolCall, Option.none_or,
    List.nil_append,
    Bool.false_or, Bool.not_eq_true', List.isEmpty_eq_false_iff]
  by_cases hnil : firstFragments chunks = []
  · rw [if_pos hnil, if_neg (not_not_intro hnil)]
    rfl
  · rw [if_neg hnil, if_pos hnil]
    rfl

/-! ## When the calls are those of the stream -/

theorem firstFragments_cons (chunk : Json) (chunks : List Json) :
    firstFragments (chunk :: chunks) =
      (chunkToolCalls chunk).head?.toList ++ firstFragments chunks := by
  rw [firstFragments, List.filterMap_cons]
  cases (chunkToolCalls chunk).head? <;> rfl

theorem firstFragments_eq_nil_iff (chunks : List Json) :
    firstFragments chunks = [] ↔ allFragments chunks = [] := by
  rw [firstFragments, allFragments, List.filterMap_eq_nil_iff,
    List.flatMap_eq_nil_iff]
  simp only [List.head?_eq_none_iff]

theorem head?_firstFragments (chunks : List Json) :
    (firstFragments chunks).head? = (allFragments chunks).head? := by
  induction chunks with
  | nil => rfl
  | cons chunk rest ih =>
      rw [firstFragments_cons, allFragments, List.flatMap_cons]
      cases chunkToolCalls chunk with
      | nil => exact ih
      | cons first others => rfl

theorem length_firstFragments_le (chunks : List Json) :
    ((firstFragments chunks).flatMap fragmentArguments).length ≤
      ((allFragments chunks).flatMap fragmentArguments).length := by
  induction chunks with
  | nil => exact Nat.le_refl _
  | cons chunk rest ih =>
      rw [firstFragments_cons, allFragments, List.flatMap_cons]
      cases chunkToolCalls chunk with
      | nil => exact ih
      | cons first others =>
          simp only [List.head?_cons, Option.toList_some, List.flatMap_append,
            List.flatMap_cons, List.length_append, List.flatMap_nil,
            List.length_nil]
          rw [allFragments] at ih
          omega

/-- The first fragments have all argument text exactly if the others have
none. -/
theorem flatMap_firstFragments (chunks : List Json) :
    (firstFragments chunks).flatMap fragmentArguments =
        (allFragments chunks).flatMap fragmentArguments ↔
      ∀ chunk ∈ chunks, ∀ fragment ∈ (chunkToolCalls chunk).tail,
        fragmentArguments fragment = [] := by
  induction chunks with
  | nil => simp [firstFragments, allFragments]
  | cons chunk rest ih =>
      rw [List.forall_mem_cons, ← ih, firstFragments_cons, allFragments,
        List.flatMap_cons]
      cases chunkToolCalls chunk with
      | nil => simp [allFragments]
      | cons first others =>
          simp only [List.head?_cons, Option.toList_some, List.tail_cons,
            List.cons_append,
            List.nil_append, List.flatMap_cons, List.flatMap_append,
            List.append_cancel_left_eq]
          rw [← List.flatMap_eq_nil_iff]
          constructor
          · intro heq
            -- The other fragments of the chunk are what the lengths differ by.
            have hle := length_firstFragments_le rest
            have hlength := congrArg List.length heq
            rw [List.length_append] at hlength
            rw [allFragments] at hle
            have hothers : others.flatMap fragmentArguments = [] :=
              List.length_eq_zero_iff.1 (by omega)
            refine ⟨hothers, ?_⟩
            rw [hothers] at heq
            exact heq
          · rintro ⟨hothers, hrest⟩
            rw [hothers, hrest]
            rfl

theorem Encodes.fragmentsOf_zero {fragments : List Json} {call : ToolCall}
    (h : Encodes fragments [call]) : fragmentsOf fragments 0 = fragments := by
  rw [fragmentsOf, List.filter_eq_self]
  intro fragment hfragment
  obtain ⟨i, hi, hlt⟩ := h.index fragment hfragment
  have hzero : i = 0 := Nat.lt_one_iff.1 hlt
  simp [hi, hzero]

/-- A turn that ends for tool calls sends exactly the calls of its fragments if
and only if there is at most one call, and no fragment after the first of its
chunk has argument text. -/
theorem sentCalls_eq_iff {calls : List ToolCall}
    (hturn : readTurn fromStr datas ending = (chunks, .finish "tool_calls"))
    (hcalls : Encodes (allFragments chunks) calls) :
    sentCalls (processChatSse fromStr requestId datas ending) = calls ↔
      calls.length ≤ 1 ∧ ∀ chunk ∈ chunks,
        ∀ fragment ∈ (chunkToolCalls chunk).tail,
        fragmentArguments fragment = [] := by
  rw [sentCalls_processChatSse hturn, ← flatMap_firstFragments]
  cases calls with
  | nil =>
      have hnone : allFragments chunks = [] := by
        rw [List.eq_nil_iff_forall_not_mem]
        intro fragment hfragment
        obtain ⟨i, -, hlt⟩ := hcalls.index fragment hfragment
        exact absurd hlt (Nat.not_lt_zero i)
      simp [(firstFragments_eq_nil_iff chunks).2 hnone, hnone]
  | cons call more =>
      cases more with
      | nil =>
          have hall := hcalls.fragmentsOf_zero
          obtain ⟨first, rest, hfirst, hid, hname⟩ := hcalls.first 0 call rfl
          have harguments := hcalls.arguments 0 call rfl
          rw [hall] at hfirst harguments
          have hhead := head?_firstFragments chunks
          rw [hfirst, List.head?_cons] at hhead
          obtain ⟨others, hothers⟩ := List.head?_eq_some_iff.1 hhead
          rw [harguments]
          simp [hothers, hid, hname, ToolCall.ext_iff]
      | cons call' more =>
          constructor
          · intro heq
            split at heq <;> simp at heq
          · rintro ⟨hlength, -⟩
            simp at hlength

/-! ## A stream with one call and a stream with two -/

def wholeCall (index : ℕ) (callId name arguments : String) : Json :=
  .object [("index", .natural index), ("id", .string callId), ("function",
    .object [("name", .string name), ("arguments", .string arguments)])]

/-- A fragment with more arguments of a call. -/
def moreArguments (index : ℕ) (arguments : String) : Json :=
  .object [("index", .natural index), ("function",
    .object [("arguments", .string arguments)])]

/-- A chunk with fragments that does not end its turn. -/
def openChunk (fragments : List Json) : Json :=
  .object [("choices", .array [.object
    [("delta", .object [("tool_calls", .array fragments)])]])]

/-- A chunk with fragments that ends its turn for tool calls. -/
def lastChunk (fragments : List Json) : Json :=
  .object [("choices", .array [.object
    [("delta", .object [("tool_calls", .array fragments)]),
      ("finish_reason", .string "tool_calls")]])]

def wholeCallText (index callId name arguments : String) : String :=
  "\x7b\"index\":" ++ index ++ ",\"id\":\"" ++ callId ++
    "\",\"function\":\x7b\"name\":\"" ++
    name ++ "\",\"arguments\":\"" ++ arguments ++ "\"\x7d\x7d"

def moreArgumentsText (index arguments : String) : String :=
  "\x7b\"index\":" ++ index ++ ",\"function\":\x7b\"arguments\":\"" ++
    arguments ++ "\"\x7d\x7d"

def openChunkText (fragments : String) : Text :=
  ("\x7b\"choices\":[\x7b\"delta\":\x7b\"tool_calls\":[" ++ fragments ++
    "]\x7d\x7d]\x7d").toList

def lastChunkText (fragments : String) : Text :=
  ("\x7b\"choices\":[\x7b\"delta\":\x7b\"tool_calls\":[" ++ fragments ++
    "]\x7d,\"finish_reason\":\"tool_calls\"\x7d]\x7d").toList

/-- A parser that knows one text. -/
def parserOf (text : Text) (chunk : Json) (data : Text) : Option Json :=
  if data = text then some chunk else none

/-- A stream with one call in two chunks. -/
def oneCallDatas : List Text :=
  [openChunkText (wholeCallText "0" "a" "ls" "[1,"),
    lastChunkText (moreArgumentsText "0" "2]")]

def oneCallParser (data : Text) : Option Json :=
  (parserOf (openChunkText (wholeCallText "0" "a" "ls" "[1,"))
    (openChunk [wholeCall 0 "a" "ls" "[1,"]) data).or
  (parserOf (lastChunkText (moreArgumentsText "0" "2]"))
    (lastChunk [moreArguments 0 "2]"]) data)

def twoCallDatas : List Text :=
  [lastChunkText (wholeCallText "0" "a" "ls" "" ++ "," ++
    wholeCallText "1" "b" "pwd" "")]

def twoCallParser : Text → Option Json :=
  parserOf
    (lastChunkText (wholeCallText "0" "a" "ls" "" ++ "," ++
      wholeCallText "1" "b" "pwd" ""))
    (lastChunk [wholeCall 0 "a" "ls" "", wholeCall 1 "b" "pwd" ""])

theorem allFragments_lastChunk (fragments : List Json) :
    allFragments [lastChunk fragments] = fragments :=
  List.append_nil fragments

set_option maxRecDepth 2000 in
/-- One call in two chunks is sent with all its arguments. -/
theorem sentCalls_oneCall :
    sentCalls (processChatSse oneCallParser "r" oneCallDatas .closed) =
      [⟨"a", "ls", "[1,2]".toList⟩] := by
  have hturn : readTurn oneCallParser oneCallDatas .closed =
      ([openChunk [wholeCall 0 "a" "ls" "[1,"],
        lastChunk [moreArguments 0 "2]"]],
        .finish "tool_calls") := rfl
  have hall : allFragments [openChunk [wholeCall 0 "a" "ls" "[1,"], lastChunk
      [moreArguments 0 "2]"]] =
      [wholeCall 0 "a" "ls" "[1,", moreArguments 0 "2]"] := rfl
  refine (sentCalls_eq_iff hturn ?_).2 ⟨Nat.le_refl 1, ?_⟩
  · rw [hall]
    refine ⟨?_, ?_, ?_⟩
    · intro fragment hfragment
      obtain rfl | hfragment := List.mem_cons.1 hfragment
      · exact ⟨0, rfl, Nat.one_pos⟩
      · rw [List.mem_singleton.1 hfragment]
        exact ⟨0, rfl, Nat.one_pos⟩
    · intro i call hcall
      cases i with
      | zero =>
          rw [← Option.some.inj hcall]
          exact ⟨_, [moreArguments 0 "2]"], rfl, rfl, rfl⟩
      | succ i => exact absurd hcall (Option.not_mem_none call)
    · intro i call hcall
      cases i with
      | zero =>
          rw [← Option.some.inj hcall]
          rfl
      | succ i => exact absurd hcall (Option.not_mem_none call)
  · intro chunk hchunk fragment hfragment
    obtain rfl | hchunk := List.mem_cons.1 hchunk
    · exact absurd hfragment List.not_mem_nil
    · rw [List.mem_singleton.1 hchunk] at hfragment
      exact absurd hfragment List.not_mem_nil

set_option maxRecDepth 2000 in
/-- Of two calls in one chunk only the first is sent. -/
theorem not_sentCalls_twoCalls :
    ∃ chunks calls,
      readTurn twoCallParser twoCallDatas .closed =
        (chunks, .finish "tool_calls") ∧
        Encodes (allFragments chunks) calls ∧
        sentCalls (processChatSse twoCallParser "r" twoCallDatas .closed) ≠
          calls := by
  refine ⟨[lastChunk [wholeCall 0 "a" "ls" "", wholeCall 1 "b" "pwd" ""]],
    [⟨"a", "ls", []⟩, ⟨"b", "pwd", []⟩], rfl, ?_, ?_⟩
  · rw [allFragments_lastChunk]
    refine ⟨?_, ?_, ?_⟩
    · intro fragment hfragment
      obtain rfl | hfragment := List.mem_cons.1 hfragment
      · exact ⟨0, rfl, Nat.two_pos⟩
      · rw [List.mem_singleton.1 hfragment]
        exact ⟨1, rfl, Nat.one_lt_two⟩
    · intro i call hcall
      obtain _ | _ | i := i
      · rw [← Option.some.inj hcall]
        exact ⟨_, [], rfl, rfl, rfl⟩
      · rw [← Option.some.inj hcall]
        exact ⟨_, [], rfl, rfl, rfl⟩
      · exact absurd hcall (Option.not_mem_none call)
    · intro i call hcall
      obtain _ | _ | i := i
      · rw [← Option.some.inj hcall]
        rfl
      · rw [← Option.some.inj hcall]
        rfl
      · exact absurd hcall (Option.not_mem_none call)
  · intro heq
    have hlength := congrArg List.length heq
    exact absurd hlength (by decide)

end CodeRs.Chat
