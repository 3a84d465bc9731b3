import CodeRs.Protocol.Models
import CodeRs.Protocol.Policies

/-!
# The input of a compaction

The items that a compaction sends to the model: `turn_input_with_history` of
`core/src/codex/session.rs`, `sanitize_items_for_compact` and
`prune_orphan_tool_outputs` of `core/src/codex/compact.rs`, and
`truncate_middle` of `core/src/truncate.rs`.
-/

namespace CodeRs.Compaction

open Protocol

/-! ## Truncation -/

/-- Division by four, rounded up. -/
def tokensOf (bytes : ℕ) : ℕ := (bytes + 3) / 4

/-- The note in the place of what was cut. -/
def truncationNote (tokens : ℕ) : Text :=
  "…".toList ++ (toString tokens).toList ++ " tokens truncated…".toList

def pickPrefixEnd (s : Text) (leftBudget : ℕ) : ℕ :=
  ((s.getTo leftBudget).bind Text.afterLastFeed).getD
    (s.floorBoundary leftBudget)

def pickSuffixStart (s : Text) (rightBudget : ℕ) : ℕ :=
  let startTail := s.byteLen - rightBudget
  ((s.drain startTail).bind Text.firstFeed).elim (s.nextBoundary startTail)
    fun i => startTail + i + 1

/-- Where a cut with a note about `tokens` goes, if there is room beside the
note. -/
def cutFor (s : Text) (maxBytes tokens : ℕ) : Option (ℕ × ℕ) :=
  let keepBudget := maxBytes - (truncationNote tokens).byteLen
  if keepBudget = 0 then none
  else
    let leftBudget := keepBudget / 2
    some (pickPrefixEnd s leftBudget,
      pickSuffixStart s (keepBudget - leftBudget))

/-- A text with a note between the two parts that stay. -/
def joinCut (s : Text) (tokens stop start : ℕ) : Text :=
  (s.truncate stop).getD [] ++ truncationNote tokens ++
    '\n' :: (s.drain start).getD []

/-- The loop that looks for a note about as many tokens as are cut, with the
rounds it has left. -/
def truncateMiddleLoop (s : Text) (maxBytes : ℕ) : ℕ → ℕ → Text
  | rounds, guessTokens =>
      match cutFor s maxBytes guessTokens with
      | none => truncationNote (tokensOf s.byteLen)
      | some (stop, start) =>
          match rounds with
          | 0 => joinCut s guessTokens stop start
          | rounds + 1 =>
              let start := max start stop
              let kept := stop + (s.byteLen - start)
              let newTokens := tokensOf (s.byteLen - kept)
              if newTokens = guessTokens then joinCut s guessTokens stop start
              else truncateMiddleLoop s maxBytes rounds newTokens

def truncateMiddle (s : Text) (maxBytes : ℕ) : Text × Option ℕ :=
  let estTokens := tokensOf s.byteLen
  if s.byteLen ≤ maxBytes then (s, none)
  else if maxBytes = 0 then (truncationNote estTokens, some estTokens)
  else (truncateMiddleLoop s maxBytes 4 estTokens, some estTokens)

def truncateForCompact (text : Text) (maxBytes : ℕ) : Text :=
  if text.byteLen ≤ maxBytes then text else (truncateMiddle text maxBytes).1

/-! ## Sanitising -/

def compactTextContentMaxBytes : ℕ := 8 * 1024

def compactToolArgsMaxBytes : ℕ := 4 * 1024

def compactToolOutputMaxBytes : ℕ := 4 * 1024

def compactImageUrlMaxBytes : ℕ := 512

/-- The content of a message for a compaction. -/
def sanitizeContent : ContentItem → ContentItem
  | .inputText text =>
  .inputText (truncateForCompact text compactTextContentMaxBytes)
  | .outputText text =>
      .outputText (truncateForCompact text compactTextContentMaxBytes)
  | .inputImage imageUrl =>
      if imageUrl.startsWith "data:" ∨
        imageUrl.byteLen > compactImageUrlMaxBytes then
        .inputText ("(image omitted for compaction; ".toList ++
          (toString imageUrl.byteLen).toList ++ " bytes)".toList)
      else .inputImage imageUrl

/-- One item for a compaction, if it stays. -/
def sanitizeItem : ResponseItem → Option ResponseItem
  | .message id role content _ _ =>
      if content = [] then none
      else some (.message id role (content.map sanitizeContent) none none)
  | .functionCall id name space arguments callId =>
      some (.functionCall id name space
        (truncateForCompact arguments compactToolArgsMaxBytes) callId)
  | .functionCallOutput callId output =>
      let content := truncateForCompact output.display compactToolOutputMaxBytes
      some (.functionCallOutput callId ⟨.text content, output.success⟩)
  | .customToolCall id status callId name space input =>
      some (.customToolCall id status callId name space
        (truncateForCompact input compactToolArgsMaxBytes))
  | .customToolCallOutput callId name output =>
      some (.customToolCallOutput callId name
        (.fromText
          (truncateForCompact output.display compactToolOutputMaxBytes)))
  | .reasoning id summary _ _ => some (.reasoning id summary none none)
  | item => some item

def sanitizeItemsForCompact (items : List ResponseItem) : List ResponseItem :=
  items.filterMap sanitizeItem

/-! ## Orphans -/

/-- The ids under which outputs can answer a call. -/
def callIds : ResponseItem → List String
  | .functionCall _ _ _ _ callId => [callId]
  | .toolSearchCall _ callId _ _ => callId.toList
  | .customToolCall _ _ callId _ _ _ => [callId]
  | .localShellCall id callId => callId.toList ++ id.toList
  | _ => []

/-- The id of the call that an output answers. -/
def outputId : ResponseItem → Option String
  | .functionCallOutput callId _ => some callId
  | .toolSearchOutput callId _ _ => callId
  | .customToolCallOutput callId _ _ => some callId
  | _ => none

def seenCalls (items : List ResponseItem) : List String := items.flatMap callIds

/-- An item that is no output or answers one of the calls. -/
def Answers (calls : List String) (item : ResponseItem) : Prop :=
  ∀ id ∈ outputId item, id ∈ calls

instance (calls : List String) : DecidablePred (Answers calls) := fun item =>
  inferInstanceAs (Decidable (∀ id ∈ outputId item, id ∈ calls))

/-- `prune_orphan_tool_outputs`: the items that stay and how many do not. -/
def pruneOrphanToolOutputs (items : List ResponseItem) :
    List ResponseItem × ℕ :=
  let kept := items.filter (Answers (seenCalls items))
  (kept, items.length - kept.length)

/-- Every output answers a call among the items. -/
def NoOrphans (items : List ResponseItem) : Prop :=
  ∀ item ∈ items, Answers (seenCalls items) item

instance : DecidablePred NoOrphans := fun items =>
  inferInstanceAs (Decidable (∀ item ∈ items, Answers (seenCalls items) item))

theorem pruneOrphanToolOutputs_eq_self {items : List ResponseItem} :
    (pruneOrphanToolOutputs items).1 = items ↔ NoOrphans items := by
  rw [pruneOrphanToolOutputs, List.filter_eq_self]
  simp only [decide_eq_true_eq]
  rfl

theorem callIds_of_outputId {item : ResponseItem} {id : String}
    (h : outputId item = some id) : callIds item = [] := by
  cases item <;> first | rfl | cases h

theorem noOrphans_pruneOrphanToolOutputs (items : List ResponseItem) :
    NoOrphans (pruneOrphanToolOutputs items).1 := by
  intro item hitem id hid
  obtain ⟨-, hanswers⟩ := List.mem_filter.1 hitem
  obtain ⟨call, hcall, hmem⟩ :=
    List.mem_flatMap.1 (of_decide_eq_true hanswers id hid)
  refine List.mem_flatMap.2 ⟨call,
    List.mem_filter.2 ⟨hcall, decide_eq_true ?_⟩, hmem⟩
  intro other hother
  rw [callIds_of_outputId hother] at hmem
  cases hmem

end CodeRs.Compaction

/-! ## The prompt of a compaction

The parts of a session and of a turn that a compaction reads, the turn input
that `turn_input_with_history` of `core/src/codex/session.rs` makes of the
history, and the prompt that both compaction paths of
`core/src/codex/compact.rs` send. -/

namespace CodeRs.Compaction

open Protocol

/-! ## Session and turn -/

/-- What a compaction reads of the session: the contents of the history, the
items that `assemble_from_timeline` returns, the flags that
`turn_input_with_history` asks for, whether an item parses as an environment
snapshot or delta, the fields that go into the prompt as they are, and the
items of `build_initial_context`. -/
structure Session where
  history : List ResponseItem
  timelineItems : Option (List ResponseItem)
  envCtxV2 : Bool
  ctxUi : Bool
  chatgptAuth : Bool
  parsesAsEnvironment : ResponseItem → Bool
  disableResponseStorage : Bool
  userShell : Text
  modelDescriptions : Option Text
  initialContext : List ResponseItem

/-- What a compaction reads of `TurnContext`, with the number of retries of the
provider. -/
structure TurnContext where
  userInstructions : Option Text
  cwd : Path
  approvalPolicy : AskForApproval
  sandboxPolicy : SandboxPolicy
  streamMaxRetries : ℕ

/-! ## Turn input -/

def isEphemeralMarker : ContentItem → Bool
  | .inputText text => text.startsWith "[EPHEMERAL:"
  | _ => false

def isImage : ContentItem → Bool
  | .inputImage _ => true
  | _ => false

/-- The content of a user message without screenshots and their markers. -/
def filterEphemeral : Bool → List ContentItem → List ContentItem
  | _, [] => []
  | skipNextImage, item :: rest =>
      if isEphemeralMarker item then filterEphemeral true rest
      else if isImage item ∧ skipNextImage then filterEphemeral false rest
      else item :: filterEphemeral skipNextImage rest

/-- A user message with an environment context in XML. -/
def isLegacyEnvContext : ResponseItem → Bool
  | .message _ role content _ _ =>
      role = "user" && content.any fun item =>
        match item with
        | .inputText text => text.contains "<environment_context>"
        | _ => false
  | _ => false

/-- An item of the history in a turn input. -/
def historyItem : ResponseItem → ResponseItem
  | .message id role content _ _ =>
      .message id role (if role = "user" then filterEphemeral false content
        else content)
        none none
  | item => item

/-- An item without encrypted reasoning. -/
def stripEncryptedReasoning : ResponseItem → ResponseItem
  | .reasoning id summary content _ => .reasoning id summary content none
  | item => item

def Session.turnInputWithHistory (sess : Session) (extra : List ResponseItem) :
    List ResponseItem :=
  let suppress := sess.envCtxV2 && sess.ctxUi
  let filteredHistory :=
    (sess.history.filter fun item => !(suppress && isLegacyEnvContext item)).map
      historyItem
  let filteredExtra :=
    if suppress then extra.filter fun item =>
      !sess.parsesAsEnvironment item else extra
  let result := sess.timelineItems.getD [] ++ filteredHistory ++ filteredExtra
  if sess.chatgptAuth then result else result.map stripEncryptedReasoning

/-- The items of a compaction before the loop.  The prompt text is one user
message. -/
def Session.compactTurnInput (sess : Session) (input : ResponseItem) :
    List ResponseItem :=
  sanitizeItemsForCompact (sess.turnInputWithHistory [input])

/-! ## Prompts -/

inductive SandboxMode where
  | readOnly | workspaceWrite | dangerFullAccess
  deriving DecidableEq

inductive NetworkAccess where
  | restricted | enabled
  deriving DecidableEq

/-- What an environment context reads of the machine: its operating system, its
tools and its date. -/
structure MachineFacts where
  operatingSystem : Option Text
  commonTools : List Text
  currentDate : Text
  deriving DecidableEq

structure EnvironmentContext where
  cwd : Option Path
  approvalPolicy : Option AskForApproval
  sandboxMode : Option SandboxMode
  networkAccess : Option NetworkAccess
  writableRoots : Option (List Path)
  machine : MachineFacts
  shell : Option Text
  deriving DecidableEq

def EnvironmentContext.new (machine : MachineFacts) (cwd : Option Path)
    (approvalPolicy : Option AskForApproval)
    (sandboxPolicy : Option SandboxPolicy)
    (shell : Option Text) : EnvironmentContext where
  cwd := cwd
  approvalPolicy := approvalPolicy
  sandboxMode := sandboxPolicy.map fun policy =>
    match policy with
    | .dangerFullAccess => .dangerFullAccess
    | .readOnly => .readOnly
    | .workspaceWrite .. => .workspaceWrite
  networkAccess := sandboxPolicy.map fun policy =>
    match policy with
    | .dangerFullAccess => .enabled
    | .readOnly => .restricted
    | .workspaceWrite _ networkAccess _ _ _ =>
        if networkAccess then .enabled else .restricted
  writableRoots :=
    match sandboxPolicy with
    | some (.workspaceWrite writableRoots _ _ _ _) =>
        if writableRoots = [] then none else some writableRoots
    | _ => none
  machine := machine
  shell := shell

/-- The fields of `Prompt` that a compaction sets. -/
structure Prompt where
  input : List ResponseItem
  store : Bool
  userInstructions : Option Text
  environmentContext : Option EnvironmentContext
  modelDescriptions : Option Text
  logTag : Option Text
  deriving DecidableEq

def compactPrompt (sess : Session) (turnContext : TurnContext)
    (machine : MachineFacts)
    (turnInput : List ResponseItem) : Prompt where
  input := turnInput
  store := !sess.disableResponseStorage
  userInstructions := turnContext.userInstructions
  environmentContext := some (.new machine (some turnContext.cwd)
    (some turnContext.approvalPolicy) (some turnContext.sandboxPolicy)
    (some sess.userShell))
  modelDescriptions := sess.modelDescriptions
  logTag := some "codex/compact".toList

end CodeRs.Compaction
