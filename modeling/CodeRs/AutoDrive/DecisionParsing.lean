import CodeRs.AutoDrive.DecisionPayloads
import CodeRs.Lib.Utf8
import Mathlib.Data.Char
import Mathlib.Data.List.Destutter
import Mathlib.Data.List.Lex

/-!
# Parsing a decision

`parse_decision` of `code-auto-drive-core/src/auto_coordinator.rs`, what it
cleans and what it checks.  What `serde_json` reads and writes and the texts of
its errors are a parameter.  A slice that cuts a character panics and has no
result.
-/

namespace CodeRs.AutoDrive

/-- `AutoDriveCliRoutingEntry`, less the description. -/
structure AutoDriveCliRoutingEntry where
  model : Text
  reasoningLevels : List ReasoningEffort
  deriving DecidableEq

structure DecisionParseOptions where
  requireCliModelRouting : Bool
  allowedCliRoutingEntries : List AutoDriveCliRoutingEntry

def cliPromptMinChars : ℕ := 4

def cliPromptMaxChars : ℕ := 600

/-! ## Cleaning -/

/-- A prefix and one space behind it, if the text begins with the prefix in any
case. -/
def withoutPrefix (marker : String) (input : Text) : Option Text :=
  let size := Text.byteLen marker.toList
  match input.getTo size with
  | some head =>
      if head.toAsciiLowercase = Text.toAsciiLowercase marker.toList then
        match (input.drain size).getD [] with
        | ' ' :: rest => some rest
        | rest => some rest
      else none
  | none => none

def stripRolePrefix (input : Text) : Text :=
  ((withoutPrefix "Coordinator:" input).or (withoutPrefix "CLI:" input)).getD
    input

def cleanOptional (input : Option Text) : Option Text :=
  input.bind fun value =>
    let trimmed := value.trim
    if trimmed = [] then none
    else
      let finalTrimmed := (stripRolePrefix trimmed).trim
      if finalTrimmed = [] then none else some finalTrimmed

def cleanModels (models : Option (List Text)) : Option (List Text) :=
  models.bind fun models =>
    let cleaned := (models.map Text.trim).filter fun model => model ≠ []
    if cleaned = [] then none
    else some ((cleaned.mergeSort fun s t => decide (s ≤ t)).destutter (· ≠ ·))

def cleanRequired (value field : Text) : Except Text Text :=
  let trimmed := value.trim
  if trimmed = [] then .error (field ++ " is empty".toList)
  else
    let finalTrimmed := (stripRolePrefix trimmed).trim
    if finalTrimmed = [] then .error (field ++ " is empty".toList)
      else .ok finalTrimmed

def cleanRequiredList (values : Option (List Text)) (field : Text) :
    Except Text (List Text) :=
  match values with
  | none => .error (field ++ " is missing".toList)
  | some values => values.zipIdx.mapM fun (value, idx) =>
      cleanRequired value (field ++ '[' :: Text.decimal idx ++ [']'])

/-! ## Checks -/

def parseFinishStatus (finishStatus : Text) :
    Except Text AutoCoordinatorStatus :=
  let normalized := finishStatus.trim.toAsciiLowercase
  if normalized = "continue".toList then .ok .continues
  else if normalized = "finish_success".toList then .ok .success
  else if normalized = "finish_failed".toList then .ok .failed
  else .error ("unexpected finish_status '".toList ++ normalized ++ "'".toList)

def validatePhase (phase : Option Text) : Except Text Unit :=
  match cleanOptional phase with
  | none => .ok ()
  | some phase =>
      if phase ∈ ["explore", "implement", "validate",
        "lockdown"].map String.toList then .ok ()
      else .error ("unexpected phase '".toList ++ phase ++
        "'; use one of: explore, implement, validate, lockdown".toList)

def parseCliReasoningEffort (value : Text) : Except Text ReasoningEffort :=
  let normalized := value.trim.toAsciiLowercase
  if normalized = "minimal".toList then .ok .minimal
  else if normalized = "none".toList then .ok .minimal
  else if normalized = "low".toList then .ok .low
  else if normalized = "medium".toList then .ok .medium
  else if normalized = "high".toList then .ok .high
  else if normalized = "xhigh".toList then .ok .xHigh
  else .error ("unsupported cli_reasoning_effort '".toList ++ normalized ++
    "'; expected one of: minimal, low, medium, high, xhigh".toList)

def cliReasoningEffortToStr : ReasoningEffort → String
  | .minimal => "minimal"
  | .low => "low"
  | .medium => "medium"
  | .high => "high"
  | .xHigh => "xhigh"
  | .none => "minimal"

/-- `join(", ")`. -/
def listed (items : List Text) : Text := List.intercalate ", ".toList items

def normalizeCliModel (value : Text) (entries : List AutoDriveCliRoutingEntry) :
    Except Text AutoDriveCliRoutingEntry :=
  let trimmed := value.trim
  match entries.find? fun entry =>
    trimmed.toAsciiLowercase = entry.model.toAsciiLowercase with
  | some entry => .ok entry
  | none =>
      let expectedModels :=
        if entries = [] then "<none>".toList
        else listed (entries.map AutoDriveCliRoutingEntry.model)
      .error ("unsupported cli_model '".toList ++ trimmed ++
        "'; expected one of: ".toList ++
        expectedModels)

def validateCliModelSelection (status : AutoCoordinatorStatus)
    (cliModel cliReasoningEffort : Option Text)
    (options : DecisionParseOptions) :
    Except Text (Option Text × Option ReasoningEffort) :=
  if options.requireCliModelRouting = false then .ok (none, none)
  else if status = .continues then
    match cliModel, cliReasoningEffort with
    | none, _ => .error "model response missing cli_model for continue".toList
    | some _, none =>
        .error "model response missing cli_reasoning_effort for continue".toList
    | some model, some reasoningRaw => do
        let entry ← normalizeCliModel model options.allowedCliRoutingEntries
        let reasoning ← parseCliReasoningEffort reasoningRaw
        if reasoning ∈ entry.reasoningLevels then
          return (some entry.model, some reasoning)
        else
          throw ("unsupported cli_reasoning_effort '".toList ++ reasoningRaw ++
          "' for cli_model '".toList ++ entry.model ++
          "'; expected one of: ".toList ++
          listed (entry.reasoningLevels.map fun level =>
            (cliReasoningEffortToStr level).toList))
  else if cliModel.isSome then
    .error
      ("model response must set cli_model to null when finish_status ".toList ++
        "is finish_success or finish_failed".toList)
  else if cliReasoningEffort.isSome then
    .error
      ("model response must set cli_reasoning_effort to null when ".toList ++
        "finish_status is finish_success or finish_failed".toList)
  else .ok (none, none)

/-- The checks of `validate_finish_evidence_for_status` on the evidence of a
finish. -/
def validateFinishEvidence (evidence : FinishEvidencePayload) :
    Except Text Unit := do
  match evidence.primaryOutcomeAchieved with
  | none => throw "finish_evidence.primary_outcome_achieved is missing".toList
  | some outcome =>
      let _ ← cleanRequired outcome
          "finish_evidence.primary_outcome_achieved".toList
      let checks ← cleanRequiredList evidence.validationChecksPassed
        "finish_evidence.validation_checks_passed".toList
      if checks = [] then
        throw
          ("finish_evidence.validation_checks_passed must include at ".toList ++
            "least one passing validation check".toList)
      else
        let _ ← cleanRequiredList evidence.edgeCasesHandled
          "finish_evidence.edge_cases_handled".toList
        return ()

def validateFinishEvidenceForStatus (status : AutoCoordinatorStatus)
    (finishEvidence : Option FinishEvidencePayload) : Except Text Unit :=
  if status = .continues then
    if finishEvidence.isSome then
      .error
        "finish_evidence must be null when finish_status is continue".toList
    else .ok ()
  else
    match finishEvidence with
    | none => .error
        ("model response missing finish_evidence for finish_status ".toList ++
          "finish_success or finish_failed".toList)
    | some evidence => validateFinishEvidence evidence

def ensureCliPromptLength (prompt : Text) : Except Text Unit :=
  if prompt.length < cliPromptMinChars then
    .error ("cli_milestone_instruction must be at least ".toList ++
      Text.decimal cliPromptMinChars ++
      " characters; keep it concise but not empty".toList)
  else if cliPromptMaxChars < prompt.length then
    .error ("cli_milestone_instruction exceeds ".toList ++
      Text.decimal cliPromptMaxChars ++
      " characters; keep prompts succinct (<=600 chars) and let the ".toList ++
        "CLI decide how to execute the task".toList)
  else .ok ()

/-! ## Conversion -/

/-- The action of an agent, with the models of its batch if it names none. -/
def agentAction (field : String) (batchModels : Option (List Text))
    (payload : AgentPayload) :
    Except Text AgentAction := do
  let prompt ← cleanRequired payload.prompt field.toList
  return {
    prompt := prompt
    context := cleanOptional payload.context
    write := payload.write
    models := (cleanModels payload.models).or batchModels }

def agentActions :
    Option AgentsField →
      Except Text (Option AutoTurnAgentsTiming × List AgentAction)
  | none => .ok (none, [])
  | some (.list payloads) => do
      return (none, ← payloads.mapM (agentAction "agents[*].prompt" none))
  | some (.object plan) => do
      return (plan.timing,
        ← plan.requests.mapM
          (agentAction "agents.requests[*].prompt" (cleanModels plan.models)))

/-- The action for the CLI in the current schema. -/
def cliActionNew (status : AutoCoordinatorStatus)
    (cliPrompt cliModel : Option Text)
    (cliReasoningEffort : Option ReasoningEffort) :
    Except Text (Option CliAction) :=
  match cliPrompt with
  | some prompt =>
      if status = .continues then do
        let prompt ← cleanRequired prompt "cli_milestone_instruction".toList
        ensureCliPromptLength prompt
        return some {
          prompt := prompt
          context := none
          suppressUiContext := false
          modelOverride := cliModel
          reasoningEffortOverride := cliReasoningEffort }
      else .error
        ("model response must set cli_milestone_instruction to null ".toList ++
          "when finish_status is finish_success or finish_failed".toList)
  | none =>
      if status = .continues then
        .error
          "model response missing cli_milestone_instruction for continue".toList
      else .ok none

def convertDecisionNew (decision : CoordinatorDecisionNew)
    (status : AutoCoordinatorStatus)
    (options : DecisionParseOptions) :
    Except Text ParsedCoordinatorDecision := do
  validatePhase decision.phase
  let legacyCurrent :=
    cleanOptional (decision.progress.bind ProgressPayload.current)
  let legacyPast := cleanOptional (decision.progress.bind ProgressPayload.past)
  validateFinishEvidenceForStatus status decision.finishEvidence
  let (cliModel, cliReasoningEffort) ← validateCliModelSelection status
    (cleanOptional decision.cliModel)
    (cleanOptional decision.cliReasoningEffort) options
  let cli ← cliActionNew status (cleanOptional decision.cliMilestoneInstruction)
      cliModel
    cliReasoningEffort
  let (agentsTiming, agents) ← agentActions decision.agents
  return {
    status := status
    statusTitle := (cleanOptional decision.statusTitle).or legacyCurrent
    statusSentToUser := (cleanOptional decision.statusSentToUser).or legacyPast
    cli := cli
    agentsTiming := agentsTiming
    agents := agents
    goal := cleanOptional decision.goal
    responseItems := [] }

/-- `convert_decision_legacy`.  A status that is not a finish is to continue. -/
def convertDecisionLegacy (decision : CoordinatorDecisionLegacy)
    (status : AutoCoordinatorStatus) (options : DecisionParseOptions) :
    Except Text ParsedCoordinatorDecision :=
  if status = .success ∨ status = .failed then
    .error
      ("legacy model response missing finish_evidence for ".toList ++
        "finish_status finish_success or finish_failed".toList)
  else if options.requireCliModelRouting = true then
    .error
      ("legacy model response missing cli_model and ".toList ++
        "cli_reasoning_effort for continue".toList)
  else
    match decision.cliPrompt with
    | none =>
        .error "legacy model response missing cli_prompt for continue".toList
    | some prompt => do
        let prompt ← cleanRequired prompt "cli_prompt".toList
        return {
          status := status
          statusTitle := cleanOptional decision.progressCurrent
          statusSentToUser := cleanOptional decision.progressPast
          cli := some {
            prompt := prompt
            context := cleanOptional decision.cliContext
            suppressUiContext := false
            modelOverride := none
            reasoningEffortOverride := none }
          agentsTiming := none
          agents := []
          goal := cleanOptional decision.goal
          responseItems := [] }

/-! ## Parsing -/

structure SerdeJson where
  /-- `from_str`. -/
  fromStr : Text → Option Json
  /-- `to_string`. -/
  toString : Json → Option Text
  /-- The texts of the errors of the two decoders. -/
  newErr : Json → Text
  legacyErr : Json → Text

/-- The loop of `extract_first_json_object`, at a byte of the input: the depth
of braces, whether it is in a string and behind a backslash there, and where
the object begins. -/
def firstJsonObjectFrom (input : Text) :
    (idx depth : ℕ) → (inStr escape : Bool) → (start : Option ℕ) → Text →
      Option (Option Text)
  | _, _, _, _, _, [] => some none
  | idx, depth, inStr, escape, start, ch :: rest =>
      let next := idx + ch.utf8Size
      if inStr then
        if escape then
          firstJsonObjectFrom input next depth true false start rest
        else if ch = '"' then
          firstJsonObjectFrom input next depth false false start rest
        else if ch = '\\' then
          firstJsonObjectFrom input next depth true true start rest
        else firstJsonObjectFrom input next depth true false start rest
      else if ch = '"' then
        firstJsonObjectFrom input next depth true escape start rest
      else if ch = '\x7b' then
        firstJsonObjectFrom input next (depth + 1) false escape
          (if depth = 0 then some idx else start) rest
      else if ch = '\x7d' then
        if depth = 0 then
          firstJsonObjectFrom input next depth false escape start rest
        else if depth = 1 then
          match start with
          | none => some none
          | some s => (input.slice s next).map some
        else firstJsonObjectFrom input next (depth - 1) false escape start rest
      else firstJsonObjectFrom input next depth false escape start rest

def extractFirstJsonObject (input : Text) : Option (Option Text) :=
  firstJsonObjectFrom input 0 0 false false none input

/-- The value that the model has put out. -/
def readValue (serde : SerdeJson) (raw : Text) : Option (Except Text Json) :=
  match serde.fromStr raw with
  | some value => some (.ok value)
  | none => do
      match ← extractFirstJsonObject raw with
      | none => return .error "model response was not valid JSON".toList
      | some jsonBlob =>
          match serde.fromStr jsonBlob with
          | some value => return .ok value
          | none => return .error "parsing JSON from model output".toList

/-- The error for a value that fits neither schema. -/
def schemaMismatch (serde : SerdeJson) (value : Json) : Option Text := do
  let payload := (serde.toString value).getD "<unprintable json>".toList
  let snippet ←
    if 2000 < payload.byteLen then (payload.getTo 2000).map (· ++ "…".toList)
      else some payload
  return "decoding coordinator decision failed: new_schema_err=".toList ++
    serde.newErr value ++ "; legacy_err=".toList ++ serde.legacyErr value ++
    "; payload_snippet=".toList ++ snippet

def parseDecision (serde : SerdeJson) (raw : Text)
    (options : DecisionParseOptions) :
    Option (Except Text (ParsedCoordinatorDecision × Json)) := do
  match ← readValue serde raw with
  | .error error => return .error error
  | .ok value =>
      match CoordinatorDecisionNew.decode value with
      | some decision => return do
          let status ← parseFinishStatus decision.finishStatus
          let parsed ← convertDecisionNew decision status options
          return (parsed, value)
      | none =>
          match CoordinatorDecisionLegacy.decode value with
          | none => return .error (← schemaMismatch serde value)
          | some decision => return do
              let status ← parseFinishStatus decision.finishStatus
              let parsed ← convertDecisionLegacy decision status options
              return (parsed, value)

end CodeRs.AutoDrive
