import CodeRs.Lib.Json
import CodeRs.Lib.Text
import CodeRs.Protocol.Models

/-!
# Response events

`ResponseEvent` of `core/src/client_common.rs`, the events of a model's turn,
and how a Chat Completions stream is read as such events.
-/

namespace CodeRs.Chat

open Protocol

/-- The events that the adapter passes on as they are. -/
inductive ForwardedEvent where
  | rateLimits
  | serverReasoningIncluded (included : Bool)
  | modelsEtag (etag : String)
  | responseHeaders
  | webSearchCallBegin (callId : String)
  | webSearchCallCompleted (callId : String) (query : Option String)
  deriving DecidableEq

/-- `ResponseEvent`.  Chat Completions streams carry no token usage. -/
inductive ResponseEvent where
  | created (responseId responseModel : Option String)
  | outputItemDone (item : ResponseItem) (sequenceNumber : Option
    ℕ) (outputIndex : Option ℕ)
  | completed (responseId : String)
  | outputTextDelta (delta : Text) (itemId : Option
    String) (sequenceNumber : Option ℕ)
      (outputIndex : Option ℕ)
  | reasoningContentDelta (delta : Text) (itemId : Option String)
      (sequenceNumber : Option ℕ) (outputIndex contentIndex : Option ℕ)
  | reasoningSummaryDelta (delta : Text)
  | reasoningSummaryPartAdded
  | forwarded (event : ForwardedEvent)
  deriving DecidableEq

/-- `CodexErr::Stream`. -/
structure StreamError where
  message : String
  requestId : Option String
  deriving DecidableEq

/-- What a stream of events yields at once. -/
abbrev StreamItem := Except StreamError ResponseEvent

/-! ## Items of a turn -/

def assistantMessage (id : Option String) (text : Text) : ResponseItem :=
  .message id "assistant" [.outputText text] none none

def reasoningItem (id : Option String) (text : Text) : ResponseItem :=
  .reasoning id [] (some [.reasoningText text]) none

def itemDone (item : ResponseItem) : ResponseEvent :=
  .outputItemDone item none none

def firstOutputText (content : List ContentItem) : Option Text :=
  content.findSome? fun
    | .outputText text => some text
    | _ => none

def messageText : ResponseItem → Option Text
  | .message _ role content _ _ =>
  if role = "assistant" then firstOutputText content else none
  | _ => none

def reasoningItemText : ResponseItem → Option Text
  | .reasoning _ _ (some content) _ =>
      some (content.flatMap fun
        | .reasoningText text => text
        | .text text => text)
  | .reasoning _ _ none _ => some []
  | _ => none

/-! ## Reading a sequence of events -/

/-- The finished item of an event. -/
def doneItem : StreamItem → Option ResponseItem
  | .ok (.outputItemDone item _ _) => some item
  | _ => none

def textDelta : StreamItem → Text
  | .ok (.outputTextDelta delta _ _ _) => delta
  | _ => []

def reasoningDelta : StreamItem → Text
  | .ok (.reasoningContentDelta delta _ _ _ _) => delta
  | _ => []

/-- The event ends the turn. -/
def isCompleted : StreamItem → Bool
  | .ok (.completed _) => true
  | _ => false

/-- The texts of the finished assistant messages. -/
def messages (events : List StreamItem) : List Text :=
  events.filterMap fun event => (doneItem event).bind messageText

/-- The texts of the finished reasoning items. -/
def reasonings (events : List StreamItem) : List Text :=
  events.filterMap fun event => (doneItem event).bind reasoningItemText

end CodeRs.Chat

/-! ## Reading a Chat Completions stream

`process_chat_sse` of `core/src/chat_completions.rs`.  The data of the
server-sent events and the JSON parser are libraries: the data is a list of
texts with the way the stream ends, and the parser is a parameter. -/

namespace CodeRs.Chat

open Protocol

/-! ## Chunks -/

/-- The first choice of a chunk. -/
def choiceOf (chunk : Json) : Option Json :=
  (chunk.get "choices").bind (Json.getIndex 0)

def deltaField (key : String) (choice : Json) : Option Json :=
  (choice.get "delta").bind (Json.get key)

/-- The assistant text of a choice. -/
def contentOf (choice : Json) : Text :=
  match (deltaField "content" choice).bind Json.asStr with
  | some content => content.toList
  | none => []

def nonEmpty (s : Option String) : Option String := s.filter (· ≠ "")

/-- The reasoning of a delta: a string, or the `text` or else the `content` of
an object. -/
def deltaReasoning (choice : Json) : Text :=
  match deltaField "reasoning" choice with
  | none => []
  | some value =>
      let direct := nonEmpty value.asStr
      let nested :=
        if value.isObject then
          (nonEmpty (value.getStr "text")).or
            (nonEmpty (value.getStr "content"))
        else none
      ((direct.or nested).getD "").toList

/-- The reasoning of a final message object: a string, or the `text`, if there
is one, and else the `content` of an object. -/
def messageReasoning (choice : Json) : Text :=
  match (choice.get "message").bind (Json.get "reasoning") with
  | none => []
  | some value =>
      match value.asStr with
      | some s => s.toList
      | none =>
          (((value.getStr "text").or (value.getStr "content")).getD "").toList

/-- The fragments of tool calls in a choice. -/
def toolCallsOf (choice : Json) : List Json :=
  ((deltaField "tool_calls" choice).bind Json.asArray).getD []

/-- The id of a fragment of a tool call. -/
def fragmentId (toolCall : Json) : Option String := toolCall.getStr "id"

def fragmentName (toolCall : Json) : Option String :=
  (toolCall.get "function").bind (Json.getStr "name")

/-- The piece of the arguments that a fragment carries. -/
def fragmentArguments (toolCall : Json) : Text :=
  (((toolCall.get "function").bind (Json.getStr "arguments")).getD "").toList

/-- The reason why a choice is the last one. -/
def finishReasonOf (choice : Json) : Option String :=
  choice.getStr "finish_reason"

/-! ## The state of a stream -/

structure FunctionCallState where
  name : Option String
  arguments : Text
  callId : Option String
  active : Bool

/-- Take up a fragment: the first id and the first name count, the arguments
add up. -/
def FunctionCallState.note (call : FunctionCallState) (toolCall : Json) :
    FunctionCallState where
  active := true
  callId := call.callId.or (fragmentId toolCall)
  name := call.name.or (fragmentName toolCall)
  arguments := call.arguments ++ fragmentArguments toolCall

/-- The state of the loop, and what it has sent. -/
structure ChatState where
  fnCallState : FunctionCallState
  assistantText : Text
  reasoningText : Text
  currentItemId : Option String
  currentResponseId : Option String
  currentResponseModel : Option String
  createdEmitted : Bool
  sent : List StreamItem

namespace ChatState

/-- The state before the first chunk. -/
def init : ChatState where
  fnCallState := ⟨none, [], none, false⟩
  assistantText := []
  reasoningText := []
  currentItemId := none
  currentResponseId := none
  currentResponseModel := none
  createdEmitted := false
  sent := []

def send (s : ChatState) (event : ResponseEvent) : ChatState :=
  { s with sent := s.sent ++ [.ok event] }

def sendError (s : ChatState) (error : StreamError) : ChatState :=
  { s with sent := s.sent ++ [.error error] }

/-- Note the id and the model of the response, and announce them once. -/
def noteResponse (s : ChatState) (chunk : Json) : ChatState :=
  let s :=
    { s with
      currentResponseId := s.currentResponseId.or (chunk.getStr "id")
      currentResponseModel := s.currentResponseModel.or (chunk.getStr "model") }
  if !s.createdEmitted &&
    (s.currentResponseId.isSome || s.currentResponseModel.isSome) then
    { s.send (.created s.currentResponseId s.currentResponseModel) with
      createdEmitted := true }
  else s

/-- Note the item id of a chunk or a choice. -/
def noteItemId (s : ChatState) (value : Json) : ChatState :=
  { s with currentItemId := (value.getStr "item_id").or s.currentItemId }

/-- Take up assistant text. -/
def pushText (s : ChatState) (content : Text) : ChatState :=
  if content = [] then s
  else
    { s.send (.outputTextDelta content s.currentItemId none none) with
      assistantText := s.assistantText ++ content }

def pushReasoning (s : ChatState) (reasoning : Text) : ChatState :=
  if reasoning = [] then s
  else
    { s.send
      (.reasoningContentDelta reasoning s.currentItemId none none none) with
      reasoningText := s.reasoningText ++ reasoning }

/-- Take up the tool calls of a choice: only the first one is looked at, and
its index is not. -/
def noteToolCalls (s : ChatState) (toolCalls : List Json) : ChatState :=
  match toolCalls.head? with
  | some toolCall => { s with fnCallState := s.fnCallState.note toolCall }
  | none => s

/-- Send the final message, if there is text. -/
def flushText (s : ChatState) : ChatState :=
  if s.assistantText = [] then s
  else
    { s.send (itemDone (assistantMessage s.currentItemId s.assistantText)) with
      assistantText := [] }

/-- Send the final reasoning, if there is any. -/
def flushReasoning (s : ChatState) : ChatState :=
  if s.reasoningText = [] then s
  else
    { s.send (itemDone (reasoningItem s.currentItemId s.reasoningText)) with
      reasoningText := [] }

def functionCall (s : ChatState) : ResponseItem :=
  .functionCall s.currentItemId (s.fnCallState.name.getD "") none
    s.fnCallState.arguments
    (s.fnCallState.callId.getD "")

def sendFunctionCall (s : ChatState) : ChatState :=
  s.send (itemDone s.functionCall)

def flushAndComplete (s : ChatState) : ChatState :=
  s.flushText.flushReasoning.send (.completed (s.currentResponseId.getD ""))

/-- What a finish reason sends before the end of the turn. -/
def finishItems (s : ChatState) (reason : String) : ChatState :=
  if reason = "tool_calls" ∧ s.fnCallState.active = true then
    s.flushReasoning.sendFunctionCall
  else if reason = "stop" then s.flushText.flushReasoning
  else s

/-- The end of a turn by a finish reason. -/
def finish (s : ChatState) (reason : String) : ChatState :=
  (s.finishItems reason).send (.completed "")

/-- The part of the loop's body that looks into a choice, without the finish
reason. -/
def handleChoice (s : ChatState) (choice : Json) : ChatState :=
  ((((s.noteItemId choice).pushText (contentOf choice)).pushReasoning
    (deltaReasoning choice)).pushReasoning
    (messageReasoning choice)).noteToolCalls
    (toolCallsOf choice)

/-- The body of the loop for a chunk, without the finish reason. -/
def handleChunk (s : ChatState) (chunk : Json) : ChatState :=
  let s := (s.noteResponse chunk).noteItemId chunk
  match choiceOf chunk with
  | some choice => s.handleChoice choice
  | none => s

end ChatState

/-! ## The loop -/

/-- How the server-sent events end when no event ends the turn. -/
inductive StreamEnd where
  | closed
  | transport (error : String)
  | idle
  deriving DecidableEq

variable (fromStr : Text → Option Json) (requestId : String)

/-- `process_chat_sse` from a state on, without the excerpts that it cuts of
payloads that are not JSON, a cut inside of a character being a panic: see
`runTask`. -/
def processFrom (s : ChatState) : List Text → StreamEnd → ChatState
  | [], .closed => s.flushAndComplete
  | [], .transport error =>
      s.sendError ⟨"[transport] " ++ error, some requestId⟩
  | [], .idle => s.sendError ⟨"[idle] timeout waiting for SSE", some requestId⟩
  | data :: rest, ending =>
      let data := Text.trim data
      if data = [] then processFrom s rest ending
      else if data = "[DONE]".toList ∨ data = "DONE".toList then
        s.flushAndComplete
      else
        match fromStr data with
        | none => processFrom s rest ending
        | some chunk =>
            match (choiceOf chunk).bind finishReasonOf with
            | some reason => (s.handleChunk chunk).finish reason
            | none => processFrom (s.handleChunk chunk) rest ending

/-- `process_chat_sse`: the events it sends. -/
def processChatSse (datas : List Text) (ending : StreamEnd) : List StreamItem :=
  (processFrom fromStr requestId .init datas ending).sent

end CodeRs.Chat
