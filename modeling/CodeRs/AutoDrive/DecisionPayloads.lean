import CodeRs.AutoDrive.CoordinatorMessages
import CodeRs.Lib.Json

/-!
# The decisions that a model writes

The payload types of `code-auto-drive-core/src/auto_coordinator.rs` and their
decoders, as they are derived from the fields and their attributes: a struct is
read from an object by the names of its fields, and from an array by their
order.  What is decoded is given; the texts of the errors are not.
-/

namespace CodeRs.AutoDrive

/-! ## Decoders -/

section

variable {α : Type}

/-- The fields of a struct, as far as they are there. -/
def structFields (names : List String) : Json → Option (String → Option Json)
  | .object fields => some fun name => (Json.object fields).get name
  | .array items =>
      if items.length ≤ names.length then some fun name =>
        items[names.idxOf name]? else none
  | _ => none

/-- A field of an optional type with the attribute `default`. -/
def optionalField (decode : Json → Option α) : Option Json → Option (Option α)
  | none => some none
  | some .null => some none
  | some value => (decode value).map some

/-- A field that has other names too.  It is there only once. -/
def aliasedField (aliases : List String) (index : ℕ) :
    Json → Option (Option Json)
  | .object fields =>
      match fields.filter fun field => field.1 ∈ aliases with
      | [] => some none
      | [field] => some (some field.2)
      | _ => none
  | .array items => some items[index]?
  | _ => some none

def decodeString : Json → Option Text
  | .string value => some value.toList
  | _ => none

def decodeBool : Json → Option Bool
  | .bool value => some value
  | _ => none

def decodeList (decode : Json → Option α) : Json → Option (List α)
  | .array items => items.mapM decode
  | _ => none

end

/-! ## The current schema -/

structure FinishEvidencePayload where
  primaryOutcomeAchieved : Option Text
  validationChecksPassed : Option (List Text)
  edgeCasesHandled : Option (List Text)
  deriving DecidableEq

def FinishEvidencePayload.decode (value : Json) :
    Option FinishEvidencePayload := do
  let field ← structFields
    ["primary_outcome_achieved", "validation_checks_passed",
      "edge_cases_handled"] value
  return {
    primaryOutcomeAchieved :=
      ← optionalField decodeString (field "primary_outcome_achieved")
    validationChecksPassed :=
      ← optionalField (decodeList decodeString)
        (field "validation_checks_passed")
    edgeCasesHandled :=
      ← optionalField (decodeList decodeString) (field "edge_cases_handled") }

structure ProgressPayload where
  past : Option Text
  current : Option Text
  deriving DecidableEq

def ProgressPayload.decode (value : Json) : Option ProgressPayload := do
  let field ← structFields ["past", "current"] value
  return {
    past := ← optionalField decodeString (field "past")
    current := ← optionalField decodeString (field "current") }

structure AgentPayload where
  prompt : Text
  context : Option Text
  write : Option Bool
  models : Option (List Text)
  deriving DecidableEq

def AgentPayload.decode (value : Json) : Option AgentPayload := do
  let field ← structFields ["prompt", "context", "write", "models"] value
  return {
    prompt := ← (field "prompt").bind decodeString
    context := ← optionalField decodeString (field "context")
    write := ← optionalField decodeBool (field "write")
    models := ← optionalField (decodeList decodeString) (field "models") }

/-- The name of a variant of `AgentsTimingValue`. -/
def timingOfName (name : String) : Option AutoTurnAgentsTiming :=
  if name = "parallel" then some .parallel
  else if name = "blocking" then some .blocking
  else none

/-- `AgentsTimingValue`: a variant by its name, alone or as the only key with
no value. -/
def decodeTiming : Json → Option AutoTurnAgentsTiming
  | .string name => timingOfName name
  | .object [(name, .null)] => timingOfName name
  | _ => none

structure AgentsPayload where
  timing : Option AutoTurnAgentsTiming
  models : Option (List Text)
  requests : List AgentPayload
  deriving DecidableEq

def AgentsPayload.decode (value : Json) : Option AgentsPayload := do
  let field ← structFields ["timing", "models", "requests"] value
  let requests ← aliasedField ["list", "agents", "entries", "requests"] 2 value
  return {
    timing := ← optionalField decodeTiming (field "timing")
    models := ← optionalField (decodeList decodeString) (field "models")
    requests := ← match requests with
      | none => some []
      | some requests => decodeList AgentPayload.decode requests }

inductive AgentsField where
  | list (payloads : List AgentPayload)
  | object (plan : AgentsPayload)
  deriving DecidableEq

/-- The first variant that fits. -/
def AgentsField.decode (value : Json) : Option AgentsField :=
  ((decodeList AgentPayload.decode value).map .list).or
    ((AgentsPayload.decode value).map .object)

structure CoordinatorDecisionNew where
  finishStatus : Text
  phase : Option Text
  statusTitle : Option Text
  statusSentToUser : Option Text
  progress : Option ProgressPayload
  cliMilestoneInstruction : Option Text
  cliModel : Option Text
  cliReasoningEffort : Option Text
  agents : Option AgentsField
  finishEvidence : Option FinishEvidencePayload
  goal : Option Text
  deriving DecidableEq

def CoordinatorDecisionNew.decode (value : Json) :
    Option CoordinatorDecisionNew := do
  let field ← structFields
    ["finish_status", "phase", "status_title",
      "status_sent_to_user", "progress",
      "cli_milestone_instruction", "cli_model",
      "cli_reasoning_effort", "agents",
      "finish_evidence", "goal"] value
  return {
    finishStatus := ← (field "finish_status").bind decodeString
    phase := ← optionalField decodeString (field "phase")
    statusTitle := ← optionalField decodeString (field "status_title")
    statusSentToUser :=
      ← optionalField decodeString (field "status_sent_to_user")
    progress := ← optionalField ProgressPayload.decode (field "progress")
    cliMilestoneInstruction :=
      ← optionalField decodeString (field "cli_milestone_instruction")
    cliModel := ← optionalField decodeString (field "cli_model")
    cliReasoningEffort :=
      ← optionalField decodeString (field "cli_reasoning_effort")
    agents := ← optionalField AgentsField.decode (field "agents")
    finishEvidence := ← optionalField FinishEvidencePayload.decode
      (field "finish_evidence")
    goal := ← optionalField decodeString (field "goal") }

/-! ## The legacy schema -/

structure CoordinatorDecisionLegacy where
  finishStatus : Text
  progressPast : Option Text
  progressCurrent : Option Text
  cliContext : Option Text
  cliPrompt : Option Text
  goal : Option Text
  deriving DecidableEq

def CoordinatorDecisionLegacy.decode (value : Json) :
    Option CoordinatorDecisionLegacy := do
  let field ← structFields
    ["finish_status", "progress_past", "progress_current",
      "cli_context", "cli_prompt",
      "goal"] value
  return {
    finishStatus := ← (field "finish_status").bind decodeString
    progressPast := ← optionalField decodeString (field "progress_past")
    progressCurrent := ← optionalField decodeString (field "progress_current")
    cliContext := ← optionalField decodeString (field "cli_context")
    cliPrompt := ← optionalField decodeString (field "cli_prompt")
    goal := ← optionalField decodeString (field "goal") }

/-- The fields of the legacy schema alone are read in the current schema. -/
example :
    CoordinatorDecisionNew.decode
      (.object [("finish_status", .string "continue"),
        ("cli_prompt", .string "Run it")]) =
    some ⟨"continue".toList, none, none, none, none, none, none, none, none,
      none, none⟩ :=
  rfl

end CodeRs.AutoDrive
