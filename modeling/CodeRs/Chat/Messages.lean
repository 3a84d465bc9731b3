import CodeRs.Lib.Lists
import CodeRs.Lib.Json
import CodeRs.Lib.Utf8
import CodeRs.Protocol.Models
import Mathlib.Logic.Function.Basic

/-!
# The messages of a chat request

What `stream_chat_completions` of `core/src/chat_completions.rs` makes of its
input, which is the formatted one with its images rewritten: the reasoning of
each anchor, and then the array of messages.  The roles that some providers
refuse are renamed later and are left out.
-/

namespace CodeRs.Chat

open Protocol

/-- An item of the input, with the JSON of the fields that `ResponseItem`
leaves out. -/
structure InputItem where
  item : ResponseItem
  extra : String → Json

variable (input : List InputItem)

/-! ## Roles -/

def hasRole (role : String) : ResponseItem → Bool
  | .message _ role' _ _ _ => role' = role
  | _ => false

/-- The role that an item is taken to be sent with, if any. -/
def emittedRole : ResponseItem → Option String
  | .message _ role _ _ _ => some role
  | .functionCall .. | .toolSearchCall ..
  | .localShellCall .. => some "assistant"
  | .functionCallOutput .. | .toolSearchOutput .. => some "tool"
  | .compactionSummary _ | .contextCompaction _ => some "assistant"
  | _ => none

def lastEmittedRole : Option String :=
  input.foldl (fun last entry => (emittedRole entry.item).or last) none

def lastUserIndex : Option ℕ :=
  input.zipIdx.foldl
    (fun last entry => if hasRole "user" entry.1.item then
      some entry.2 else last)
    none

/-! ## Reasoning -/

def segmentText : ReasoningItemContent → Text
  | .reasoningText text | .text text => text

def reasoningText : ResponseItem → Option Text
  | .reasoning _ _ (some items) _ =>
      let text : Text := items.flatMap segmentText
      if text.trim = [] then none else some text
  | _ => none

/-- What is before the last user message is passed over. -/
def isAfterLastUser (idx : ℕ) : Bool :=
  match lastUserIndex input with
  | some userIdx => userIdx < idx
  | none => true

/-- The next item takes the reasoning before it. -/
def isNextAnchor : ResponseItem → Bool
  | .functionCall .. | .toolSearchCall .. | .localShellCall .. => true
  | item => hasRole "assistant" item

def itemBefore (idx : ℕ) : Option ResponseItem :=
  if 0 < idx then (input[idx - 1]?).map InputItem.item else none

/-- The item behind a position. -/
def itemAfter (idx : ℕ) : Option ResponseItem :=
  (input[idx + 1]?).map InputItem.item

/-- Where a reasoning is attached: to an assistant message before it, or else
to the anchor behind it. -/
def anchorOf (idx : ℕ) : Option ℕ :=
  if (itemBefore input idx).any (hasRole "assistant") = true then some (idx - 1)
  else if (itemAfter input idx).any isNextAnchor = true then some (idx + 1)
  else none

/-- Attach a text to an anchor, behind what it has. -/
def attach (anchors : ℕ → Option Text) (idx : ℕ) (text : Text) :
    ℕ → Option Text :=
  Function.update anchors idx (some ((anchors idx).getD [] ++ text))

/-- One round of the loop that attaches reasonings. -/
def attachReasoning (anchors : ℕ → Option Text) (entry : InputItem × ℕ) :
    ℕ → Option Text :=
  if isAfterLastUser input entry.2 = true then
    match reasoningText entry.1.item, anchorOf input entry.2 with
    | some text, some anchor => attach anchors anchor text
    | _, _ => anchors
  else anchors

def reasoningByAnchorIndex : ℕ → Option Text :=
  if lastEmittedRole input = some "user" then fun _ => none
  else input.zipIdx.foldl (attachReasoning input) fun _ => none

/-! ## Messages -/

def jsonText (text : Text) : Json := .string (String.ofList text)

/-- An optional string, or null. -/
def jsonOption (value : Option String) : Json :=
  (value.map Json.string).getD .null

/-- The part of a message that an item of its content is. -/
def contentPart : ContentItem → Json
  | .inputText text | .outputText text =>
      .object [("type", .string "text"), ("text", jsonText text)]
  | .inputImage imageUrl =>
      .object [("type", .string "image_url"),
        ("image_url", .object [("url", jsonText imageUrl)])]

/-- An item of content is an image. -/
def isImage : ContentItem → Bool
  | .inputImage _ => true
  | _ => false

/-- The text of an item of content. -/
def plainText : ContentItem → Text
  | .inputText text | .outputText text => text
  | .inputImage _ => []

/-- The content of a message: its parts if there is an image, else its text. -/
def messageContent (content : List ContentItem) : Json :=
  if content.any isImage = true then .array (content.map contentPart)
  else jsonText (content.flatMap plainText)

def outputItemJson : FunctionCallOutputContentItem → Json
  | .inputText text =>
  .object [("type", .string "input_text"), ("text", jsonText text)]
  | .inputImage imageUrl detail =>
      .object (("type", .string "input_image") :: ("image_url",
        jsonText imageUrl) ::
        (detail.map fun d => ("detail", Json.string d.text)).toList)

def outputJson (output : FunctionCallOutputPayload) : Json :=
  match output.body with
  | .text content => jsonText content
  | .contentItems items => .array (items.map outputItemJson)

def toolMessage (callId : String) (content : Json) : Json :=
  .object [("role", .string "tool"), ("tool_call_id", .string callId),
    ("content", content)]

/-- What the second loop does for an item. -/
inductive Emission where
  | omitted
  | message (json : Json)
  | toolCall (json : Json)

/-- What an item is sent as. `write` is the text of a JSON value. -/
def emission (write : Json → String) (entry : InputItem) : Emission :=
  match entry.item with
  | .message _ role content _ _ =>
      .message (.object [("role", .string role),
        ("content", messageContent content)])
  | .functionCall _ name _ arguments callId =>
      .toolCall (.object [("id", .string callId), ("type", .string "function"),
        ("function",
          .object [("name", .string name), ("arguments", jsonText arguments)])])
  | .toolSearchCall _ callId status execution =>
      .toolCall (.object [("id", .string (callId.getD "")),
        ("type", .string "tool_search_call"),
        ("call_id", jsonOption callId), ("status", jsonOption status),
        ("execution", .string execution),
        ("arguments", entry.extra "arguments")])
  | .localShellCall id _ =>
      .toolCall (.object [("id", .string (id.getD "")),
        ("type", .string "local_shell_call"),
        ("status", entry.extra "status"), ("action", entry.extra "action")])
  | .customToolCall id _ _ name _ input =>
      .toolCall (.object [("id", jsonOption id), ("type", .string "custom"),
        ("custom",
          .object [("name", .string name), ("input", jsonText input)])])
  | .functionCallOutput callId output =>
      .message (toolMessage callId (jsonText output.display))
  | .toolSearchOutput callId status execution =>
      .message (toolMessage (callId.getD "") (.string (write (.object
        [("status", .string status), ("execution", .string execution),
          ("tools", entry.extra "tools")]))))
  | .customToolCallOutput callId _ output =>
      .message (toolMessage callId (outputJson output))
  | .compactionSummary _ | .contextCompaction _ => .omitted
  | .additionalTools .. | .reasoning .. | .webSearchCall ..
  | .imageGenerationCall ..
  | .ghostSnapshot | .other => .omitted

/-- Put a value under a key of an object. -/
def insertField (key : String) (value : Json) (fields : List (String × Json)) :
    List (String × Json) :=
  if fields.any (fun field => field.1 = key) = true then
    fields.map fun field => if field.1 = key then (key, value) else field
  else fields ++ [(key, value)]

/-- The reasoning of a message with another one behind it. -/
def appendReasoning (fields : List (String × Json)) :
    Option Text → List (String × Json)
  | none => fields
  | some reasoning =>
      match (Json.object fields).get "reasoning" with
      | some (.string existing) =>
          let front := if existing = "" then [] else existing.toList ++ ['\n']
          insertField "reasoning" (jsonText (front ++ reasoning)) fields
      | _ => insertField "reasoning" (jsonText reasoning) fields

/-- The last message with another call, if it is one of calls. -/
def appendToolCall (last toolCall : Json) (reasoning : Option Text) :
    Option Json :=
  match last, last.getStr "role", last.get "content", last.get "tool_calls" with
  | .object fields, some "assistant", some .null, some (.array toolCalls) =>
      some (.object (appendReasoning
        (insertField "tool_calls" (.array (toolCalls ++ [toolCall])) fields)
        reasoning))
  | _, _, _, _ => none

def callsMessage (toolCalls : List Json) (reasoning : Option Text) : Json :=
  .object ([("role", .string "assistant"), ("content", .null),
    ("tool_calls", .array toolCalls)] ++
      (reasoning.map fun text => ("reasoning", jsonText text)).toList)

def pushToolCallMessage (messages : List Json) (toolCall : Json)
    (reasoning : Option Text) :
    List Json :=
  match messages.getLast?.bind fun last =>
    appendToolCall last toolCall reasoning with
  | some last => messages.dropLast ++ [last]
  | none => messages ++ [callsMessage [toolCall] reasoning]

/-- One round of the loop that builds the messages. -/
def pushItem (write : Json → String) (reasoning : ℕ → Option Text)
    (messages : List Json)
    (entry : InputItem × ℕ) : List Json :=
  match emission write entry.1 with
  | .omitted => messages
  | .message json => messages ++ [json]
  | .toolCall json => pushToolCallMessage messages json (reasoning entry.2)

def systemMessage (instructions : Text) : Json :=
  .object [("role", .string "system"), ("content", jsonText instructions)]

def chatMessages (write : Json → String) (instructions : Text) : List Json :=
  input.zipIdx.foldl (pushItem write (reasoningByAnchorIndex input))
    [systemMessage instructions]

end CodeRs.Chat

/-! ## Runs of calls in a chat request

The messages of a request are one for the instructions, one for each run of
calls and one for each other item that is sent. -/

namespace CodeRs.Chat

open Grouping Protocol

/-! ## Items that are sent -/

def isToolCall : ResponseItem → Bool
  | .functionCall .. | .toolSearchCall .. | .localShellCall ..
  | .customToolCall .. => true
  | _ => false

def isSent : ResponseItem → Bool
  | .message .. | .functionCallOutput .. | .toolSearchOutput ..
  | .customToolCallOutput .. => true
  | item => isToolCall item

/-- An item with its position is a call. -/
def isCallEntry (entry : InputItem × ℕ) : Bool := isToolCall entry.1.item

/-- An item with its position is sent. -/
def isSentEntry (entry : InputItem × ℕ) : Bool := isSent entry.1.item

variable (write : Json → String) (reasoning : ℕ → Option Text)

def sentJson (entry : InputItem × ℕ) : Json :=
  match emission write entry.1 with
  | .omitted => .null
  | .message json | .toolCall json => json

theorem emission_cases (entry : InputItem × ℕ) :
    (emission write entry.1 = .omitted ∧ isSentEntry entry = false) ∨
    (emission write entry.1 = .message (sentJson write entry) ∧
      isSentEntry entry = true ∧ isCallEntry entry = false) ∨
    (emission write entry.1 = .toolCall (sentJson write entry) ∧
      isSentEntry entry = true ∧ isCallEntry entry = true) := by
  obtain ⟨⟨item, extra⟩, idx⟩ := entry
  cases item with
  | message | functionCallOutput | toolSearchOutput | customToolCallOutput =>
      exact .inr (.inl ⟨rfl, rfl, rfl⟩)
  | functionCall | toolSearchCall | localShellCall | customToolCall =>
      exact .inr (.inr ⟨rfl, rfl, rfl⟩)
  | _ => exact .inl ⟨rfl, rfl⟩

/-! ## The messages of runs -/

def joinReasoning : Option Text → Option Text → Option Text
  | none, other => other
  | some text, none => some text
  | some text, some other =>
      some (if text = [] then other else text ++ '\n' :: other)

def runReasoning (run : List (InputItem × ℕ)) : Option Text :=
  run.foldl (fun joined entry => joinReasoning joined (reasoning entry.2)) none

def runMessage (run : List (InputItem × ℕ)) : Json :=
  match run with
  | [] => .null
  | first :: _ =>
      if isCallEntry first = true then
        callsMessage (run.map (sentJson write)) (runReasoning reasoning run)
      else sentJson write first

def messageRuns (entries : List (InputItem × ℕ)) :
    List (List (InputItem × ℕ)) :=
  runs isCallEntry (entries.filter isSentEntry)

theorem appendToolCall_callsMessage (toolCalls : List Json) (toolCall : Json)
    (before reasoning : Option Text) :
    appendToolCall (callsMessage toolCalls before) toolCall reasoning =
      some
        (callsMessage (toolCalls ++ [toolCall])
          (joinReasoning before reasoning)) := by
  cases before with
  | none =>
      cases reasoning with
      | none => rfl
      | some text => rfl
  | some existing =>
      cases reasoning with
      | none => rfl
      | some text =>
          have hfront : (if String.ofList existing = "" then []
              else (String.ofList existing).toList ++ ['\n']) ++ text =
                if existing = [] then text else existing ++ '\n' :: text := by
            rw [String.toList_ofList]
            by_cases hempty : existing = []
            · subst hempty
              rfl
            · have hne : String.ofList existing ≠ "" := fun heq => hempty (by
                rw [← String.toList_ofList (l := existing), heq]
                rfl)
              rw [if_neg hempty, if_neg hne, List.append_assoc,
                List.singleton_append]
          have happend :
              appendToolCall (callsMessage toolCalls (some existing)) toolCall
              (some text) =
              some (.object [("role", .string "assistant"), ("content", .null),
                ("tool_calls", .array (toolCalls ++ [toolCall])),
                ("reasoning", jsonText ((if String.ofList existing = "" then []
                  else (String.ofList existing).toList ++ ['\n']) ++ text))]) :=
                    rfl
          rw [happend, hfront]
          rfl

theorem appendToolCall_message {entry : InputItem × ℕ} {json : Json}
    (h : emission write entry.1 = .message json) (toolCall : Json)
    (reasoning : Option Text) :
    appendToolCall json toolCall reasoning = none := by
  obtain ⟨⟨item, extra⟩, idx⟩ := entry
  cases item with
  | message id role content endTurn phase =>
      cases h
      have hcontent : messageContent content ≠ .null := by
        rw [messageContent]
        split <;> exact Json.noConfusion
      unfold appendToolCall
      split
      next _ _ _ hnull _ => exact absurd (Option.some.inj hnull) hcontent
      next => rfl
  | functionCallOutput | toolSearchOutput | customToolCallOutput =>
      cases h
      rfl
  | _ => cases h

/-! ## The array of messages -/

theorem pushToolCallMessage_concat (messages : List Json) (last toolCall : Json)
    (reasoning : Option Text) :
    pushToolCallMessage (messages ++ [last]) toolCall reasoning =
      match appendToolCall last toolCall reasoning with
      | some joined => messages ++ [joined]
      | none => messages ++ [last] ++ [callsMessage [toolCall] reasoning] := by
  cases happend : appendToolCall last toolCall reasoning with
  | none => simp [pushToolCallMessage, happend]
  | some joined => simp [pushToolCallMessage, happend]

theorem runMessage_concat {run : List (InputItem × ℕ)} {entry : InputItem × ℕ}
    (hne : run ≠ []) (hcalls : ∀ call ∈ run, isCallEntry call = true) :
    appendToolCall (runMessage write reasoning run) (sentJson write entry)
      (reasoning entry.2) =
      some (runMessage write reasoning (run ++ [entry])) := by
  cases run with
  | nil => exact absurd rfl hne
  | cons first rest =>
      have hfirst : isCallEntry first = true := hcalls first List.mem_cons_self
      rw [List.cons_append, runMessage, runMessage, if_pos hfirst,
        if_pos hfirst,
        appendToolCall_callsMessage, ← List.cons_append,
        List.map_append, runReasoning,
        runReasoning, List.foldl_append]
      rfl

/-- A call begins a message or joins the last one, as it begins a run or joins
the last one. -/
theorem pushToolCallMessage_runs (instructions : Text)
    {sent : List (InputItem × ℕ)}
    (hsent : ∀ entry ∈ sent, isSentEntry entry = true) {entry : InputItem × ℕ}
    (hcall : isCallEntry entry = true) :
    pushToolCallMessage (systemMessage instructions ::
        (runs isCallEntry sent).map (runMessage write reasoning))
        (sentJson write entry)
        (reasoning entry.2) =
      systemMessage instructions ::
        (runs isCallEntry (sent ++ [entry])).map
          (runMessage write reasoning) := by
  have hone : runMessage write reasoning [entry] =
      callsMessage [sentJson write entry] (reasoning entry.2) := if_pos hcall
  cases hlast : sent.getLast? with
  | none =>
      rw [List.getLast?_eq_none_iff.1 hlast]
      exact congrArg (fun message => [systemMessage instructions,
        message]) hone.symm
  | some y =>
      obtain ⟨before, last, hruns, hy⟩ :=
        exists_last_run (p := isCallEntry) hlast
      have hmem : last ∈ runs isCallEntry sent := by
        rw [hruns]
        exact List.mem_append_right _ (List.mem_singleton_self last)
      have hpush := pushToolCallMessage_concat
        (systemMessage instructions :: before.map (runMessage write reasoning))
        (runMessage write reasoning last) (sentJson write entry)
        (reasoning entry.2)
      rw [List.cons_append, ← List.map_singleton, ← List.map_append,
        ← hruns] at hpush
      rw [hpush]
      obtain ⟨hne, hcalls | ⟨y', rfl, hy'⟩⟩ := mem_runs hmem
      · rw [runMessage_concat write reasoning hne hcalls,
          runs_concat_join hruns hy (hcalls y (List.mem_of_getLast? hy)) hcall,
          List.map_append]
        rfl
      · obtain rfl : y' = y := by simpa using hy
        have hmessage : emission write y'.1 = .message (sentJson write y') := by
          obtain ⟨-, hno⟩ | ⟨hmessage, -⟩ | ⟨-, -, hyes⟩ :=
            emission_cases write y'
          · rw [hsent y' (List.mem_of_getLast? hlast)] at hno
            cases hno
          · exact hmessage
          · rw [hy'] at hyes
            cases hyes
        have hnone :
            appendToolCall (runMessage write reasoning [y'])
              (sentJson write entry)
            (reasoning entry.2) = none := by
          rw [runMessage, if_neg (by rw [hy']; exact Bool.false_ne_true)]
          exact appendToolCall_message write hmessage _ _
        rw [hnone, runs_concat_new (.inr fun z hz => ?_), List.map_append,
          List.map_singleton,
          hone]
        · rfl
        · obtain rfl : y' = z := Option.some.inj (hlast.symm.trans hz)
          exact hy'

theorem foldl_pushItem (instructions : Text) (entries : List (InputItem × ℕ)) :
    entries.foldl (pushItem write reasoning) [systemMessage instructions] =
      systemMessage instructions ::
        (messageRuns entries).map (runMessage write reasoning) := by
  induction entries using List.reverseRecOn with
  | nil => rfl
  | append_singleton entries entry ih =>
      rw [List.foldl_append, ih, List.foldl_cons, List.foldl_nil,
        messageRuns, messageRuns,
        List.filter_append, pushItem]
      obtain ⟨hemission, hsent⟩ | ⟨hemission, hsent, hcall⟩ | ⟨hemission,
          hsent, hcall⟩ :=
        emission_cases write entry
      · rw [hemission,
          List.filter_cons_of_neg (by rw [hsent]; exact Bool.false_ne_true),
          List.filter_nil, List.append_nil]
      · rw [hemission, List.filter_cons_of_pos hsent, List.filter_nil,
          runs_concat_new (.inl hcall), List.map_append,
          List.map_singleton, runMessage,
          if_neg (by rw [hcall]; exact Bool.false_ne_true)]
        rfl
      · rw [hemission, List.filter_cons_of_pos hsent, List.filter_nil]
        exact pushToolCallMessage_runs write reasoning instructions
          (fun entry' hentry' => (List.mem_filter.1 hentry').2) hcall

theorem chatMessages_eq (input : List InputItem) (instructions : Text) :
    chatMessages input write instructions = systemMessage instructions ::
      (messageRuns input.zipIdx).map
        (runMessage write (reasoningByAnchorIndex input)) :=
  foldl_pushItem ..

end CodeRs.Chat
