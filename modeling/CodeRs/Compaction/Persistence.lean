import CodeRs.Agent.CallOutputs
import CodeRs.Compaction.Summary
import CodeRs.Lib.Runs
import CodeRs.Retention.Legacy

/-!
# The rollout of a session

What `record_conversation_items` and the compactions of
`core/src/codex/compact.rs` and `core/src/codex/compact_remote.rs` persist in
the rollout, and what `reconstruct_history_from_rollout` of
`core/src/codex/session.rs` makes of it.  The timeline of environment items
that a replay restores besides is left out.  `cleanup_old_status_items` takes
items out of the history and not out of the rollout, and `run_agent` of
`core/src/codex/streaming.rs` puts pending outputs and their calls behind a
compacted history without a word in the rollout.
-/

namespace CodeRs.Compaction

open Protocol TurnQueues Retention

/-! ## Rollout items -/

/-- `RolloutItem`, as far as a replay tells them apart. -/
inductive RolloutItem where
  | responseItem (item : ResponseItem)
  | compacted (message : Text) (replacementHistory : Option (List ResponseItem))
  | userMessage (id : String) (message : Text)
  | other
  deriving DecidableEq

def shouldPersistResponseItem : ResponseItem → Bool
  | .additionalTools .. => false
  | .other => false
  | _ => true

def recordResponseItems (items : List ResponseItem) : List RolloutItem :=
  (items.filter shouldPersistResponseItem).map .responseItem

/-! ## Replay -/

/-- The items of `build_initial_context`, which are messages of the user. -/
structure InitialContext where
  items : List ResponseItem
  api : ∀ item ∈ items, isApiMessage item = true

/-- A history, with the snippets and the summary of each bridge message that
was put into it. -/
structure BridgedHistory where
  history : List ResponseItem
  bridges : List (List CompactionSnippet × Text)
  deriving DecidableEq

variable (context : InitialContext)

/-- The loop body of `reconstruct_history_from_rollout`. -/
def replayItem (replayed : BridgedHistory) : RolloutItem → BridgedHistory
  | .responseItem item =>
  { replayed with history := replayed.history ++ [item] }
  | .compacted message _ =>
      let snippets := collectCompactionSnippets replayed.history
      ⟨buildCompactedHistory context.items snippets message,
        replayed.bridges ++ [(snippets, message)]⟩
  | .userMessage id message =>
      { replayed with
        history := replayed.history ++
          [.message (some id) "user" [.inputText message] none none] }
  | .other => replayed

/-- `reconstruct_history_from_rollout`, with the bridges that it builds. -/
def reconstructHistoryFromRollout (rolloutItems : List RolloutItem) :
    BridgedHistory :=
  replay (replayItem context) ⟨context.items, []⟩ rolloutItems

/-! ## The live session -/

/-- The history and the rollout of a session.  A new session has no initial
context in its history, until a compaction puts it there. -/
structure LiveSession where
  history : List ResponseItem
  rollout : List RolloutItem
  /-- The history has the initial context. -/
  contextual : Bool
  /-- What the history would be without the clean-ups, and the bridges that
  compactions have put into it. -/
  unpruned : BridgedHistory

/-- A call of `perform_compaction` or of `run_compact_task_inner_inline`, with
the rest of the session at that time and the answers of the model. -/
structure LocalCompaction where
  sess : Session
  turnContext : TurnContext
  outside : Outside
  input : List InputItem
  attempts : List Attempt

/-- How `run_remote_compact_task_inner` ends: with a history from the service,
with the emergency fallback, or with an error. -/
inductive RemoteEnd where
  | compacted (newHistory : List ResponseItem)
  | usageLimit
  | overflow (truncatedCount : ℕ)
  | failed

def maxRemoteCompactContextOverflowTrims : ℕ := 32

/-- The reason of an emergency fallback, if there is one. -/
def RemoteEnd.reason : RemoteEnd → Option Text
  | usageLimit =>
  some "Remote compact hit persistent usage limits and cannot continue.".toList
  | overflow truncatedCount =>
      some (if truncatedCount ≥ maxRemoteCompactContextOverflowTrims then
        "Remote compact trimmed ".toList ++ (toString truncatedCount).toList ++
          " items but still exceeded the context window.".toList
      else
        "Remote compact failed: context overflow even with minimal ".toList ++
          "input.".toList)
  | _ => none

/-- What `run_agent` has at hand when it compacts between two requests: the
pending input without the item that opens the turn, and the input as it was
before. -/
structure PendingTurn where
  pendingInputTail : List ResponseItem
  compactSnapshot : List ResponseItem

/-- The missing calls and the outputs that `run_agent` puts behind a compacted
history. -/
def PendingTurn.behind (pending : PendingTurn)
    (compactedHistory : List ResponseItem) :
    List ResponseItem :=
  let (missingCalls, filteredOutputs) :=
    Agent.reconcilePendingToolOutputs pending.pendingInputTail compactedHistory
      pending.compactSnapshot
  missingCalls ++ filteredOutputs

/-- A step of a session.  A caller of an inline compaction that drops the
returned history has no pending input. -/
inductive SessionTurn where
  | record (items : List ResponseItem)
  | cleanup (policy : Option RetentionPolicy)
  | perform (call : LocalCompaction)
  | inline (call : LocalCompaction) (pending : PendingTurn)
  | remote (sess : Session) (ending : RemoteEnd) (pending : PendingTurn)

namespace LiveSession

variable (s : LiveSession)

/-- A new session, or one that begins with the initial context. -/
def start (contextual : Bool) : LiveSession where
  history := if contextual then context.items else []
  rollout := []
  contextual := contextual
  unpruned := ⟨if contextual then context.items else [], []⟩

def session (sess : Session) : Session :=
  { sess with history := s.history, initialContext := context.items }

/-- The session with more items in its history. -/
def extend (items : List ResponseItem) : LiveSession :=
  { s with
    history := s.history ++ items
    unpruned := { s.unpruned with history := s.unpruned.history ++ items } }

def recordConversationItems (items : List ResponseItem) : LiveSession :=
  { s.extend (recordItems [] items) with
    rollout := s.rollout ++ recordResponseItems items }

/-- `cleanup_old_status_items`, with the retention policy if `env_ctx_v2` is
on. -/
def cleanupOldStatusItems (policy : Option RetentionPolicy) : LiveSession :=
  let itemsToKeep :=
    match policy with
    | some policy => (applyRetentionPolicyOwned s.history policy).1
    | none => pruneHistoryItemsOwned s.history
  { s with history := recordItems [] itemsToKeep }

/-- The session with the history of an emergency fallback, which is not
persisted. -/
def fallback (newHistory : List ResponseItem) : LiveSession :=
  { s with
    history := newHistory
    contextual := true
    unpruned := { s.unpruned with history := newHistory } }

/-- The session after a successful compaction of a snapshot. -/
def compacted (historySnapshot newHistory : List ResponseItem) : LiveSession :=
  let summaryText := (getLastAssistantMessageFromTurn historySnapshot).getD []
  { history := newHistory
    rollout := s.rollout ++ [.compacted summaryText none]
    contextual := true
    unpruned := ⟨newHistory,
      s.unpruned.bridges ++
        [(collectCompactionSnippets historySnapshot, summaryText)]⟩ }

/-- The session after a local compaction, whose loop has come to its end or is
cut off. -/
def afterLoop (run : LoopRun) (newHistory : List ResponseItem) : LiveSession :=
  match run.ending with
  | some .completed => s.compacted run.state.history newHistory
  | some (.usageLimit _) => s.fallback newHistory
  | some (.overflow _ _) => s.fallback newHistory
  | _ => s.extend (newHistory.drop s.history.length)

/-- The session after `run_agent` has got the history of an inline
compaction. -/
def rebuild (pending : PendingTurn) (compactedHistory : List ResponseItem) :
    LiveSession :=
  if compactedHistory.isEmpty then s
  else
    let rebuilt := compactedHistory ++ pending.behind compactedHistory
    { s with
      history := rebuilt, unpruned := { s.unpruned with history := rebuilt } }

/-- The loop of a call of `perform_compaction`. -/
def performLoop (call : LocalCompaction) : LoopRun :=
  performCompactionLoop (s.session context call.sess) call.turnContext
    call.outside call.input
    call.attempts

/-- The loop of a call of `run_compact_task_inner_inline`. -/
def inlineLoop (call : LocalCompaction) : LoopRun :=
  runCompactTaskInnerInlineLoop (s.session context call.sess)
    call.turnContext call.outside
    call.input call.attempts

/-- The session after a step. -/
def next (s : LiveSession) : SessionTurn → LiveSession
  | .record items => s.recordConversationItems items
  | .cleanup policy => s.cleanupOldStatusItems policy
  | .perform call =>
      s.afterLoop (s.performLoop context call)
        (performCompaction (s.session context call.sess) call.turnContext
          call.outside call.input
          call.attempts).history
  | .inline call pending =>
      let (history, returned) :=
        runCompactTaskInnerInline (s.session context call.sess)
          call.turnContext call.outside call.input call.attempts
      (s.afterLoop (s.inlineLoop context call) history).rebuild pending
        (returned.getD [])
  | .remote sess ending pending =>
      match ending, ending.reason with
      | .compacted newHistory, _ =>
          let replaced := s.fallback newHistory
          let persisted :=
            [.compacted "Conversation history compacted.".toList none]
          { replaced with
            rollout := s.rollout ++ persisted }.rebuild pending newHistory
      | _, some reason =>
          let newHistory := emergencyHistory (s.session context sess) reason
          (s.fallback newHistory).rebuild pending newHistory
      | _, none => s

/-- The initial context, as long as the session is without it. -/
def missingContext : List ResponseItem :=
  if s.contextual then [] else context.items

/-- The history with the initial context and without the clean-ups. -/
def withContext : BridgedHistory :=
  { s.unpruned with history := s.missingContext context ++ s.unpruned.history }

end LiveSession

end CodeRs.Compaction
