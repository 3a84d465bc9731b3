import CodeRs.AutoDrive.Phase
import CodeRs.Lib.Decimal
import CodeRs.Lib.Search
import CodeRs.Protocol.Models

/-!
# What goes in and out of the Auto Drive coordinator

The commands and events of `code-auto-drive-core/src/auto_coordinator.rs`, the
decision that a model request yields or the failure it ends with, and what the
coordinator does to a conversation before it sends one.  The token metrics are
left out.
-/

namespace CodeRs.AutoDrive

open Protocol (ResponseItem ContentItem)

/-- `Arc<[ResponseItem]>`. -/
abbrev Conversation := List ResponseItem

/-! ## Commands and events -/

inductive AutoCoordinatorStatus where
  | continues
  | success
  | failed
  deriving DecidableEq

structure AutoTurnCliAction where
  prompt : Text
  context : Option Text
  suppressUiContext : Bool
  modelOverride : Option Text
  reasoningEffortOverride : Option ReasoningEffort
  deriving DecidableEq

/-- The fields of `AutoCoordinatorEvent::Decision`. -/
structure Decision where
  seq : UInt64
  status : AutoCoordinatorStatus
  statusTitle : Option Text
  statusSentToUser : Option Text
  goal : Option Text
  cli : Option AutoTurnCliAction
  agentsTiming : Option AutoTurnAgentsTiming
  agents : List AutoTurnAgentsAction
  transcript : List ResponseItem
  deriving DecidableEq

inductive AutoCoordinatorEvent where
  | decision (decision : Decision)
  | thinking (delta : Text) (summaryIndex : Option ℕ)
  | action (message : Text)
  | userReply (userResponse cliCommand : Option Text)
  | compactedHistory (conversation : Conversation) (showNotice : Bool)
  | stopAck
  deriving DecidableEq

inductive AutoCoordinatorCommand where
  | updateConversation (conversation : Conversation)
  | handleUserPrompt (text : Text) (conversation : Conversation)
  | ackDecision (seq : UInt64)
  | stop
  deriving DecidableEq

/-! ## Decisions -/

structure CliAction where
  prompt : Text
  context : Option Text
  suppressUiContext : Bool
  modelOverride : Option Text
  reasoningEffortOverride : Option ReasoningEffort

structure AgentAction where
  prompt : Text
  context : Option Text
  write : Option Bool
  models : Option (List Text)

/-- `ParsedCoordinatorDecision`, less the token usage and the model. -/
structure ParsedCoordinatorDecision where
  status : AutoCoordinatorStatus
  statusTitle : Option Text
  statusSentToUser : Option Text
  cli : Option CliAction
  agentsTiming : Option AutoTurnAgentsTiming
  agents : List AgentAction
  goal : Option Text
  responseItems : List ResponseItem

def cliActionToEvent (action : CliAction) : AutoTurnCliAction :=
  { prompt := action.prompt
    context := action.context
    suppressUiContext := action.suppressUiContext
    modelOverride := action.modelOverride
    reasoningEffortOverride := action.reasoningEffortOverride }

def agentActionToEvent (action : AgentAction) : AutoTurnAgentsAction :=
  { prompt := action.prompt
    context := action.context
    write := action.write.getD false
    writeRequested := action.write
    models := action.models }

def agentActionToEventWithWriteGuard (action : AgentAction)
    (allowWrite : Bool) :
    AutoTurnAgentsAction :=
  let event := agentActionToEvent action
  if !allowWrite && event.write then { event with write := false } else event

/-! ## Failures -/

/-- `DecisionFailure`: the text of the error, whether it is an
`AutoCoordinatorCancelled`, the label of the schema and what the model has put
out. -/
structure DecisionFailure where
  error : Text
  cancelled : Bool
  schemaLabel : Text
  outputText : Option Text

structure RecoverableDecisionError where
  summary : Text
  guidance : Option Text

/-- What is before the first occurrence of a pattern, the first half of
`str::split_once`. -/
def beforeFirst (pattern : String) (t : Text) : Option Text :=
  (Search.find pattern.toList t).map fun position => t.take position

/-- `str::trim_matches` for a character. -/
def trimMatches (c : Char) (t : Text) : Text :=
  ((t.dropWhile (· = c)).reverse.dropWhile (· = c)).reverse

/-- The field that an error names before a pattern, without white space and
backquotes around it. -/
def namedField (pattern : String) (error : Text) : Option Text :=
  match beforeFirst pattern error with
  | some field =>
      let fieldTrimmed := trimMatches (Char.ofNat 0x60) field.trim
      if fieldTrimmed = [] then none else some fieldTrimmed
  | none => none

/-- What an error has between its first two single quotes. -/
def quoted (error : Text) : Option Text :=
  let quote := Char.ofNat 0x27
  if quote ∈ error then
    let value := (error.dropWhile (· ≠ quote)).tail.takeWhile (· ≠ quote)
    if value = [] then none else some value
  else none

/-- An error with a fixed summary and guidance. -/
def recoverable (summary guidance : String) : Option RecoverableDecisionError :=
  some ⟨summary.toList, some guidance.toList⟩

def classifyRecoverableDecisionError (error : Text) :
    Option RecoverableDecisionError :=
  let has := fun pattern : String => error.toAsciiLowercase.contains pattern
  if has "missing cli_milestone_instruction" ||
    has "missing cli prompt for continue" ||
      has "missing cli prompt for `finish_status" ||
      has "missing cli prompt" then
    recoverable
      "missing `cli_milestone_instruction` for `finish_status: \"continue\"`"
      ("Include a non-empty `cli_milestone_instruction` string whenever " ++
        "`finish_status` is `\"continue\"`.")
  else if has "missing finish_evidence" then
    recoverable "missing `finish_evidence` for finish status"
      ("Include a `finish_evidence` object whenever `finish_status` is " ++
        "`finish_success` or `finish_failed`.")
  else if has "missing cli_model" then
    recoverable "missing `cli_model` for continue turn"
      ("When Auto Drive model routing is enabled, include `cli_model` on " ++
        "every continue turn.")
  else if has "missing cli_reasoning_effort" then
    recoverable "missing `cli_reasoning_effort` for continue turn"
      ("When Auto Drive model routing is enabled, include " ++
        "`cli_reasoning_effort` on every continue turn.")
  else if has "validation_checks_passed must include at least one" then
    recoverable "finish evidence is missing passing validation checks"
      ("Provide at least one concrete passing validation check in " ++
        "`finish_evidence.validation_checks_passed` before finishing.")
  else if has "finish_evidence must be null" then
    recoverable "`finish_evidence` must be null for continue turns"
      ("Set `finish_evidence` to null (or omit it) when `finish_status` is " ++
        "`continue`.")
  else if has "must set cli_milestone_instruction to null" then
    recoverable "`cli_milestone_instruction` must be null for finish statuses"
      ("When finishing (`finish_success`/`finish_failed`), set " ++
        "`cli_milestone_instruction` to null and include `finish_evidence`.")
  else if has "must set cli_model to null" ||
    has "must set cli_reasoning_effort to null" then
    recoverable "CLI model routing fields must be null for finish statuses"
      ("When finishing (`finish_success`/`finish_failed`), set `cli_model` " ++
        "and `cli_reasoning_effort` to null.")
  else if has "unsupported cli_model" ||
    has "unsupported cli_reasoning_effort" then
    recoverable "unsupported CLI model routing selection"
      ("Use a `cli_model` listed in the schema and a `cli_reasoning_effort` " ++
        "allowed for that model.")
  else if has "length limit" || has "cut off" ||
      (has "exceeds" && has "cli_milestone_instruction") then
    recoverable "model output was cut off by a length cap"
      ("Regenerate with a shorter `cli_milestone_instruction` (<=600 chars) " ++
        "and more concise status text so the response fits within provider " ++
        "limits.")
  else if has "legacy model response missing cli_prompt for continue" then
    recoverable "legacy response omitted `cli_prompt` for continue turn"
      ("Legacy coordinator responses must populate `cli_prompt` when the " ++
        "turn continues.")
  else
    match if has " is empty" then namedField " is empty" error else none with
    | some field =>
        some ⟨"`".toList ++ field ++ "` was empty".toList,
          some ("Provide a meaningful value for `".toList ++ field ++
            "` instead of leaving it blank.".toList)⟩
    | none =>
        match if has " is missing" then namedField " is missing" error
          else none with
        | some field =>
            some ⟨"`".toList ++ field ++ "` was missing".toList,
              some ("Include `".toList ++ field ++
                "` with a meaningful value before retrying.".toList)⟩
        | none =>
            if has "unexpected finish_status" then
              some ⟨match quoted error with
                  | some value =>
                      "unexpected finish_status '".toList ++ value ++ "'".toList
                  | none => "unexpected finish_status".toList,
                some
                  ("Use `finish_status` values: `continue`, ".toList ++
                    "`finish_success`, or `finish_failed`.".toList)⟩
            else if has "model response was not valid json" ||
                has "parsing json from model output" then
              recoverable "response was not valid JSON"
                ("Return strictly valid JSON that matches the " ++
                  "`auto_coordinator_flow` schema without extra prose.")
            else if has "decoding coordinator decision failed" then
              recoverable "response did not match the coordinator schema"
                ("Ensure every required field is present and spelled " ++
                  "correctly per the coordinator schema.")
            else none

/-! ## Messages -/

def eqIgnoreAsciiCase (s t : String) : Bool :=
  s.toList.map Char.toLower = t.toList.map Char.toLower

def makeMessage (role : String) (text : Text) : ResponseItem :=
  .ofText role (if eqIgnoreAsciiCase role "assistant" then .outputText text
    else .inputText text)

def isPopularCommandsMessage : ResponseItem → Bool
  | .message _ role content _ _ =>
      eqIgnoreAsciiCase role "user" && content.any fun
        | .inputText text => text.contains "Popular commands:"
        | _ => false
  | _ => false

def filterPopularCommands (items : Conversation) : Conversation :=
  items.filter fun item => !isPopularCommandsMessage item

def hardMessageLimit : ℕ := 320

/-- Whether an item is a message of the role `user`. -/
def isUserMessage : ResponseItem → Bool
  | .message _ role _ _ _ => role = "user"
  | _ => false

/-- `enforce_hard_message_limit`: the first user message and the newest
items. -/
def enforceHardMessageLimit (items : Conversation) : Conversation :=
  if items.length ≤ hardMessageLimit then items
  else
    let goalIndex := items.findIdx? isUserMessage
    let goal := (goalIndex.bind fun index => items[index]?).toList
    let tailStart := items.length - (hardMessageLimit - goal.length)
    let newest := (items.zipIdx.drop tailStart).filter fun item =>
      goalIndex ≠ some item.2
    let trimmed := goal ++ newest.map Prod.fst
    trimmed.drop (trimmed.length - hardMessageLimit)

/-- What the coordinator makes of every conversation it is given. -/
def prepared (items : Conversation) : Conversation :=
  enforceHardMessageLimit (filterPopularCommands items)

theorem length_prepared_le (items : Conversation) :
    (prepared items).length ≤ hardMessageLimit := by
  unfold prepared enforceHardMessageLimit
  split
  · assumption
  · rw [List.length_drop]
    omega

/-! ## The first decision -/

structure InitialPlanningSeed where
  responseJson : Text
  cliPrompt : Text
  goalMessage : Text
  statusTitle : Text
  statusSentToUser : Text
  agentsTiming : Option AutoTurnAgentsTiming

def buildInitialPlanningSeed (goalText : Text) (includeAgents : Bool) :
    Option InitialPlanningSeed :=
  let goal := goalText.trim
  if goal = [] then none
  else
    let cliPrompt :=
      (if includeAgents then
        "Please provide a clear plan to best achieve the Primary Goal. If " ++
          "this is not a trivial task, launch agents and use your tools to " ++
          "research the best approach. If this is a trivial task, or the " ++
          "plan is already in the conversation history, immediately provide " ++
          "the plan. Judge the length of research and planning you perform " ++
          "based on the complexity of the task. For more complex tasks, you " ++
          "can break the plan into workstreams that can be performed at the " ++
          "same time."
      else
        "Please provide a clear plan to best achieve the Primary Goal. If " ++
          "this is not a trivial task, use your tools to research the best " ++
          "approach. If this is a trivial task, or the plan is already in " ++
          "the conversation history, immediately provide the plan. Judge " ++
          "the length of research and planning you perform based on the " ++
          "complexity of the task.").toList
    some {
      responseJson :=
        "\x7b\"finish_status\":\"continue\",".toList ++
          "\"status_title\":\"Planning\",\"status_sent_to_user\":".toList ++
          "\"Started initial planning phase\",".toList ++
          "\"cli_milestone_instruction\":\"".toList ++
          cliPrompt ++ "\"\x7d".toList
      cliPrompt := cliPrompt
      goalMessage := "Primary Goal: ".toList ++ goal
      statusTitle := "Planning route".toList
      statusSentToUser := "Planning best route to reach the goal.".toList
      agentsTiming := if includeAgents then some .parallel else none }

end CodeRs.AutoDrive
