import CodeRs.Lib.PartialMap
import CodeRs.Lib.Text

/-!
# Tools of MCP servers

`core/src/mcp_connection_manager.rs` asks all servers for their tools and gives
each tool a name that the Responses API takes.
-/

namespace CodeRs.Mcp

def mcpToolNameDelimiter : Text := "__".toList

def maxToolNameLength : ℕ := 64

/-- `Tool`, with what tells two tools of one name apart. -/
structure Tool where
  name : Text
  description : Option Text
deriving DecidableEq, Repr

structure ToolInfo where
  serverName : Text
  toolName : Text
  tool : Tool
deriving DecidableEq, Repr

/-! ## Names -/

/-- The characters of a tool name. -/
def isAllowed (c : Char) : Bool := c.isAlphanum || c == '_' || c == '-'

def sanitizeResponsesApiToolName (name : Text) : Text :=
  let sanitized := name.map fun c => if isAllowed c then c else '_'
  if sanitized = [] then "_".toList else sanitized

def ToolInfo.rawName (tool : ToolInfo) : Text :=
  tool.serverName ++ mcpToolNameDelimiter ++ tool.toolName

section

variable (sha1Hex : Text → Text)

/-- `append_sha1_suffix`.  A cut inside a character panics. -/
def appendSha1Suffix (base raw : Text) : Text :=
  let sha1Str := sha1Hex raw
  let prefixLen := maxToolNameLength - sha1Str.byteLen
  let head := if prefixLen < base.byteLen then (base.truncate prefixLen).getD []
    else base
  head ++ sha1Str

/-- The name of a tool that collides with nothing. -/
def ToolInfo.prettyName (tool : ToolInfo) : Text :=
  let qualifiedName := sanitizeResponsesApiToolName tool.rawName
  if maxToolNameLength < qualifiedName.byteLen then
    appendSha1Suffix sha1Hex qualifiedName tool.rawName
  else qualifiedName

/-- The name of a tool whose pretty name is used already. -/
def ToolInfo.disambiguatedName (tool : ToolInfo) : Text :=
  appendSha1Suffix sha1Hex (tool.prettyName sha1Hex) tool.rawName

/-! ## Qualified tools -/

/-- The sets and the map of `qualify_tools`. -/
structure QualifyState where
  usedNames : List Text := []
  seenRawNames : List Text := []
  qualifiedTools : PartialMap Text ToolInfo := fun _ => none

/-- A tool under a name that is not used yet. -/
def QualifyState.insert (s : QualifyState) (name : Text) (tool : ToolInfo) :
    QualifyState :=
  { s with
    usedNames := name :: s.usedNames
    qualifiedTools := s.qualifiedTools.insert name tool }

/-- The body of the loop of `qualify_tools`. -/
def qualifyTool (s : QualifyState) (tool : ToolInfo) : QualifyState :=
  if tool.rawName ∈ s.seenRawNames then s
  else
    let s := { s with seenRawNames := tool.rawName :: s.seenRawNames }
    if tool.prettyName sha1Hex ∈ s.usedNames then
      if tool.disambiguatedName sha1Hex ∈ s.usedNames then s
      else s.insert (tool.disambiguatedName sha1Hex) tool
    else s.insert (tool.prettyName sha1Hex) tool

def qualifyTools (tools : List ToolInfo) : PartialMap Text ToolInfo :=
  (tools.foldl (qualifyTool sha1Hex) {}).qualifiedTools

end

/-! ## Listed tools -/

structure ToolFilter where
  enabled : Option (List Text) := none
  disabled : List Text := []
deriving DecidableEq, Repr

def ToolFilter.allows (filter : ToolFilter) (toolName : Text) : Bool :=
  match filter.enabled with
  | some enabled =>
      decide (toolName ∈ enabled) && decide (toolName ∉ filter.disabled)
  | none => decide (toolName ∉ filter.disabled)

inductive McpServerFailurePhase where
  | start
  | listTools
deriving DecidableEq, Repr

structure McpServerFailure where
  phase : McpServerFailurePhase
  message : Text
deriving DecidableEq, Repr

/-- The answer of a server to `tools/list`, or the text of the error. -/
structure Answer where
  serverName : Text
  toolFilter : ToolFilter
  listResult : Except Text (List Tool)

/-- What `list_all_tools` has collected. -/
structure Listing where
  aggregated : List ToolInfo := []
  errors : PartialMap Text McpServerFailure := fun _ => none

/-- The tools of an answer that are neither filtered nor excluded. -/
def Answer.toolInfos (answer : Answer) (excludedTools : List (Text × Text))
    (tools : List Tool) : List ToolInfo :=
  (tools.filter fun tool =>
    answer.toolFilter.allows tool.name &&
      decide ((answer.serverName, tool.name) ∉ excludedTools)).map fun tool =>
        ⟨answer.serverName, tool.name, tool⟩

/-- One answer, or nothing if the task that asked has panicked. -/
def listAnswer (excludedTools : List (Text × Text)) (listing : Listing) :
    Option Answer → Listing
  | none => listing
  | some answer =>
      match answer.listResult with
      | .ok tools =>
          { listing with
            aggregated := listing.aggregated ++
              answer.toolInfos excludedTools tools }
      | .error message =>
          { listing with
            errors := listing.errors.insert answer.serverName ⟨.listTools,
              message⟩ }

/-- `list_all_tools`, with the answers in the order in which they come. -/
def listAllTools (excludedTools : List (Text × Text))
    (errors : PartialMap Text McpServerFailure)
    (answers : List (Option Answer)) : Listing :=
  answers.foldl (listAnswer excludedTools) { errors }

end CodeRs.Mcp
