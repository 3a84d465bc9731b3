import CodeRs.AutoDrive.CoordinatorMessages
import CodeRs.Lib.Monitor

/-!
# The loop of the Auto Drive coordinator

`run_auto_loop` of `code-auto-drive-core/src/auto_coordinator.rs`.  An
iteration of the loop picks the next conversation and asks the model for a
decision on it, or receives a command.  What comes from outside (a
cancellation, a compaction, the results of the model requests, the command) is
an argument of the iteration, and beside the next state it yields what can be
observed of it, in the order of the source: the commands received, the events
sent and what becomes of each conversation.
-/

namespace CodeRs.AutoDrive

def maxDecisionRecoveryAttempts : ℕ := 3

def maxQueuedConversationUpdates : ℕ := 24

/-- What `run_auto_loop` knows from its start. -/
structure CoordinatorConfig where
  goalText : Text
  deriveGoalFromHistory : Bool
  includeAgents : Bool
  gitRepoPresent : Bool
  coordinatorTurnCap : ℕ

/-- The first decision, if the loop begins with one. -/
def CoordinatorConfig.seed (cfg : CoordinatorConfig) :
    Option InitialPlanningSeed :=
  if cfg.deriveGoalFromHistory then none
  else buildInitialPlanningSeed cfg.goalText cfg.includeAgents

/-- The state of the loop. -/
structure Coordinator where
  pendingConversation : Option Conversation
  decisionSeq : UInt64 := 0
  pendingAckSeq : Option UInt64 := none
  queuedUpdates : List Conversation := []
  stopped : Bool := false
  consecutiveDecisionFailures : ℕ := 0
  coordinatorTurnsSeen : ℕ := 0
  deriving DecidableEq

/-- What `request_user_turn_decision` yields: a reply and a CLI command, or the
text of an error. -/
abbrev UserTurn := Except Text (Option Text × Option Text)

/-- What an iteration of the loop gets from outside. -/
structure Turn where
  /-- `cancel_token.is_cancelled()` -/
  cancelled : Bool := false
  /-- the conversation after `maybe_compact`, if that completes -/
  compacted : Option Conversation := none
  /-- the result of `request_coordinator_decision` -/
  outcome : Except DecisionFailure ParsedCoordinatorDecision
  /-- the result of `cmd_rx.recv()`; nothing if every sender is gone -/
  command : Option AutoCoordinatorCommand := none
  userTurn : UserTurn := .ok (none, none)

inductive Observation where
  /-- the loop begins with a conversation -/
  | opened (conversation : Conversation)
  | received (command : AutoCoordinatorCommand)
  /-- the model request for a user prompt has ended -/
  | answered (conversation : Conversation) (userTurn : UserTurn)
  | hungUp
  | cancelled
  /-- a decision is asked for on a conversation that was handed in -/
  | takenUp (conversation : Conversation)
  /-- a decision is asked for once more after a recoverable failure -/
  | retried (conversation : Conversation)
  /-- a recoverable failure -/
  | rejected
  /-- a full queue loses its oldest conversation -/
  | dropped (conversation : Conversation)
  /-- the loop stops and a conversation is left -/
  | discarded (conversation : Conversation)
  | sent (event : AutoCoordinatorEvent)

namespace Coordinator

/-! ## The next conversation -/

/-- `queue_update_capped`: what falls out of the queue and the queue. -/
def queueUpdateCapped (queue : List Conversation) (update : Conversation) :
    List Conversation × List Conversation :=
  if maxQueuedConversationUpdates ≤ queue.length then
    (queue.take 1, queue.drop 1 ++ [update])
  else ([], queue ++ [update])

theorem queueUpdateCapped_of_le {oldest : Conversation}
    {rest : List Conversation}
    (update : Conversation)
    (h : maxQueuedConversationUpdates ≤ (oldest :: rest).length) :
    queueUpdateCapped (oldest :: rest) update = ([oldest], rest ++ [update]) :=
  if_pos h

theorem queueUpdateCapped_of_lt {queue : List Conversation}
    (update : Conversation)
    (h : ¬ maxQueuedConversationUpdates ≤ queue.length) :
    queueUpdateCapped queue update = ([], queue ++ [update]) :=
  if_neg h

/-- Queueing a conversation while a decision waits for its ack. -/
def enqueue (s : Coordinator) (conversation : Conversation) :
    Coordinator × List Observation :=
  let queue := queueUpdateCapped s.queuedUpdates conversation
  ({ s with queuedUpdates := queue.2 }, queue.1.map .dropped)

/-- The beginning of an iteration: the conversation to ask for a decision on,
if any. -/
def select (s : Coordinator) :
    (Coordinator × List Observation) × Option Conversation :=
  match s.pendingConversation, s.pendingAckSeq, s.queuedUpdates with
  | some conversation, some _, _ =>
      ({ s with pendingConversation := none }.enqueue conversation, none)
  | some conversation, none, _ =>
      (({ s with pendingConversation := none }, []), some conversation)
  | none, none, conversation :: rest =>
      (({ s with queuedUpdates := rest }, []), some conversation)
  | none, _, _ => ((s, []), none)

/-! ## A decision -/

/-- Sending a decision under the next number. -/
def sendDecision (s : Coordinator) (decision : UInt64 → Decision)
    (stop : Bool) :
    Coordinator × List Observation :=
  let seq := s.decisionSeq + 1
  ({ s with
      decisionSeq := seq
      pendingAckSeq := some seq
      stopped := stop
      consecutiveDecisionFailures := 0 }, [.sent (.decision (decision seq))])

/-- The text that explains a reached turn cap. -/
def turnCapText (seen cap : ℕ) : Text :=
  "Stopped after ".toList ++ Text.decimal seen ++
    " coordinator turns (cap=".toList ++
    Text.decimal cap ++ ") to prevent a runaway session.".toList

/-- The branch of the loop for a parsed decision.  The source sends a decision
that continues and one that does not in two places, with the same fields. -/
def onDecision (cfg : CoordinatorConfig) (s : Coordinator)
    (parsed : ParsedCoordinatorDecision) :
    Coordinator × List Observation :=
  let seen := satAdd32 s.coordinatorTurnsSeen 1
  let s := { s with coordinatorTurnsSeen := seen }
  if 0 < cfg.coordinatorTurnCap ∧ cfg.coordinatorTurnCap ≤ seen ∧
    parsed.status = .continues then
    s.sendDecision (fun seq =>
      { seq := seq
        status := .failed
        statusTitle := some "Turn limit reached".toList
        statusSentToUser := some (turnCapText seen cfg.coordinatorTurnCap)
        goal := parsed.goal
        cli := none
        agentsTiming := none
        agents := []
        transcript := parsed.responseItems }) true
  else
    s.sendDecision (fun seq =>
      { seq := seq
        status := parsed.status
        statusTitle := parsed.statusTitle
        statusSentToUser := parsed.statusSentToUser
        goal := parsed.goal
        cli := parsed.cli.map cliActionToEvent
        agentsTiming := if cfg.includeAgents then parsed.agentsTiming else none
        agents :=
          (if cfg.includeAgents then parsed.agents else []).map
            (agentActionToEventWithWriteGuard · cfg.gitRepoPresent)
        transcript := parsed.responseItems }) (parsed.status = .failed)

/-! ## A failure -/

/-- The number of an attempt among those that are allowed. -/
def attemptText (attempt : ℕ) : Text :=
  "(attempt ".toList ++ Text.decimal attempt ++ "/".toList ++
    Text.decimal maxDecisionRecoveryAttempts ++ ")".toList

def overlongMsg : Text :=
  "ERROR: Your last cli_milestone_instruction was greater than 600 ".toList ++
    "characters and was not sent to the CLI. Please try again with a ".toList ++
    "shorter prompt. You must keep prompts succinct (<=600 chars) to ".toList ++
    "give the CLI autonomy to decide how to best execute the task.".toList

/-- What the developer tells the model about its last answer. -/
def developerNote (attempt : ℕ) (failure : DecisionFailure)
    (recoverable : RecoverableDecisionError) : Text :=
  "Previous coordinator response failed validation ".toList ++
    attemptText attempt ++
    ".\nError: ".toList ++ failure.error ++ "\nSchema: ".toList ++
    failure.schemaLabel ++
    (match recoverable.guidance with
      | some guidance => "\nGuidance: ".toList ++ guidance
      | none => []) ++
    (match failure.outputText with
      | some _ => "\n".toList ++ overlongMsg
      | none => [])

/-- What the interface is told about a retry. -/
def retryNotice (attempt : ℕ) (failure : DecisionFailure)
    (recoverable : RecoverableDecisionError) : Text :=
  "Coordinator response invalid ".toList ++ attemptText attempt ++
    ": ".toList ++
    recoverable.summary ++ ". Retrying…\nSchema: ".toList ++
    failure.schemaLabel ++
    (match failure.outputText with
      | some _ =>
          "\nSee assistant message above for the full model output ".toList ++
            "that failed validation.".toList
      | none => [])

/-- The conversation to try again with: what the model has put out and the note
are added. -/
def retrySnapshot (conversation : Conversation) (attempt : ℕ)
    (failure : DecisionFailure)
    (recoverable : RecoverableDecisionError) : Conversation :=
  prepared (conversation ++
    (failure.outputText.map (makeMessage "assistant")).toList ++
    [makeMessage "developer" (developerNote attempt failure recoverable)])

/-- The end of the branch for a failure. -/
def onFatal (s : Coordinator) (error : Text) : Coordinator × List Observation :=
  s.sendDecision (fun seq =>
    { seq := seq
      status := .failed
      statusTitle := some "Coordinator error".toList
      statusSentToUser := some ("Encountered an error: ".toList ++ error)
      goal := none
      cli := none
      agentsTiming := none
      agents := []
      transcript := [] }) true

/-- The branch of the loop for a failure. -/
def onFailure (s : Coordinator) (conversation : Conversation)
    (failure : DecisionFailure) :
    Coordinator × List Observation :=
  if failure.cancelled then ({ s with stopped := true }, [.cancelled])
  else
    match classifyRecoverableDecisionError failure.error with
    | none => s.onFatal failure.error
    | some recoverable =>
        let attempt := satAdd32 s.consecutiveDecisionFailures 1
        if attempt ≤ maxDecisionRecoveryAttempts then
          let snapshot := retrySnapshot conversation attempt failure recoverable
          ({ s with
              consecutiveDecisionFailures := attempt
              pendingConversation := some snapshot },
            [.rejected,
              .sent (.thinking (retryNotice attempt failure recoverable) none),
              .sent (.compactedHistory snapshot false),
              .sent
                (.action
                  ("Retrying prompt generation after the previous ".toList ++
                    "response was too long to send to the CLI.".toList))])
        else
          let last := s.onFatal failure.error
          (last.1, .rejected :: last.2)

/-- What comes of a model request. -/
def onOutcome (cfg : CoordinatorConfig) (s : Coordinator)
    (requested : Conversation) :
    Except DecisionFailure ParsedCoordinatorDecision →
      Coordinator × List Observation
  | .ok parsed => s.onDecision cfg parsed
  | .error failure => s.onFailure requested failure

/-! ## An iteration -/

/-- Asking for a decision.  A request after a failure is one more for a
conversation that has been taken up. -/
def attempt (cfg : CoordinatorConfig) (s : Coordinator)
    (conversation : Conversation)
    (turn : Turn) : Coordinator × List Observation :=
  let fresh := s.consecutiveDecisionFailures = 0
  if turn.cancelled then
    ({ s with stopped := true },
      .cancelled :: if fresh then [.discarded conversation] else [])
  else
    let requested :=
      enforceHardMessageLimit
        (turn.compacted.getD (filterPopularCommands conversation))
    let notice : List Observation :=
      if turn.compacted.isSome then
        [.sent (.compactedHistory requested true)] else []
    let result := s.onOutcome cfg requested turn.outcome
    (result.1,
      notice ++ (if fresh then .takenUp conversation
        else .retried conversation) :: result.2)

/-- The branch of the loop for `AckDecision`. -/
def onAck (s : Coordinator) (seq : UInt64) : Coordinator :=
  if s.pendingAckSeq = some seq then
    match s.queuedUpdates with
    | queued :: rest =>
        { s with
          pendingAckSeq := none, pendingConversation := some queued,
          queuedUpdates := rest }
    | [] => { s with pendingAckSeq := none }
  else s

/-- A conversation with the reply to a user prompt, if there is one. -/
def withReply (conversation : Conversation) (reply : Option Text) :
    Conversation :=
  conversation ++ (reply.map (makeMessage "assistant")).toList

/-- The branch of the loop for `HandleUserPrompt`. -/
def onUserPrompt (s : Coordinator) (conversation : Conversation) :
    UserTurn → Coordinator × List Observation
  | .ok (reply, cliCommand) =>
      ({ s with
        pendingConversation := some (prepared (withReply conversation reply)) },
        [.sent (.userReply reply cliCommand)])
  | .error error =>
      (s,
        [.sent
          (.userReply (some ("Coordinator error: ".toList ++ error)) none)])

/-- The branch of the loop for `UpdateConversation`. -/
def onUpdate (s : Coordinator) (conversation : Conversation) :
    Coordinator × List Observation :=
  let s := { s with consecutiveDecisionFailures := 0 }
  if s.pendingAckSeq.isSome ∨ s.pendingConversation.isSome then
    s.enqueue (prepared conversation)
  else ({ s with pendingConversation := some (prepared conversation) }, [])

/-- The branch of the loop for `Stop` and for a channel without a sender. -/
def onStop (s : Coordinator) : Coordinator × List Observation :=
  ({ s with stopped := true, pendingAckSeq := none, queuedUpdates := [] },
    .sent .stopAck :: s.queuedUpdates.map .discarded)

def receive (s : Coordinator) (turn : Turn) : Coordinator × List Observation :=
  match turn.command with
  | some command =>
      let result : Coordinator × List Observation :=
        match command with
        | .ackDecision seq => (s.onAck seq, [])
        | .handleUserPrompt _ conversation =>
            let result := s.onUserPrompt conversation turn.userTurn
            (result.1, .answered conversation turn.userTurn :: result.2)
        | .updateConversation conversation => s.onUpdate conversation
        | .stop => s.onStop
      (result.1, .received command :: result.2)
  | none =>
      let result := s.onStop
      (result.1, .hungUp :: result.2)

/-- One iteration of the loop; none after it has been left. -/
def iterate (cfg : CoordinatorConfig) (s : Coordinator) (turn : Turn) :
    Coordinator × List Observation :=
  if s.stopped then (s, [])
  else
    let selected := s.select
    let result :=
      match selected.2 with
      | some conversation => selected.1.1.attempt cfg conversation turn
      | none => selected.1.1.receive turn
    (result.1, selected.1.2 ++ result.2)

section Iterate

variable {cfg : CoordinatorConfig} {s : Coordinator} {turn : Turn}

theorem iterate_of_stopped (hstopped : s.stopped = true) :
    s.iterate cfg turn = (s, []) :=
  if_pos hstopped

theorem iterate_of_some (hrunning : s.stopped = false)
    {conversation : Conversation}
    (hselect : s.select.2 = some conversation) :
    s.iterate cfg turn =
      ((s.select.1.1.attempt cfg conversation turn).1,
        s.select.1.2 ++ (s.select.1.1.attempt cfg conversation turn).2) := by
  rw [iterate, if_neg (by simp [hrunning])]
  simp only [hselect]

theorem iterate_of_none (hrunning : s.stopped = false)
    (hselect : s.select.2 = none) :
    s.iterate cfg turn =
      ((s.select.1.1.receive turn).1,
        s.select.1.2 ++ (s.select.1.1.receive turn).2) := by
  rw [iterate, if_neg (by simp [hrunning])]
  simp only [hselect]

end Iterate

/-! ## The whole run -/

/-- What `run_auto_loop` does before its loop. -/
def start (cfg : CoordinatorConfig) (initialConversation : Conversation) :
    Coordinator × List Observation :=
  match cfg.seed with
  | some seed =>
      ({ pendingConversation := none, pendingAckSeq := some 0 },
        [.sent (.decision
          { seq := 0
            status := .continues
            statusTitle := some seed.statusTitle
            statusSentToUser := some seed.statusSentToUser
            goal := some cfg.goalText
            cli := some
              { prompt := seed.cliPrompt
                context := some seed.goalMessage
                suppressUiContext := true
                modelOverride := none
                reasoningEffortOverride := none }
            agentsTiming := seed.agentsTiming
            agents := []
            transcript := [makeMessage "assistant" seed.responseJson] })])
  | none =>
      let conversation := prepared initialConversation
      ({ pendingConversation := some conversation }, [.opened conversation])

variable (cfg : CoordinatorConfig)

/-- The state after an iteration. -/
def next (s : Coordinator) (turn : Turn) : Coordinator := (s.iterate cfg turn).1

def observed (s : Coordinator) (turn : Turn) : List Observation :=
  (s.iterate cfg turn).2

/-- The state of the loop after some iterations. -/
def runAutoLoop (initialConversation : Conversation) (turns : List Turn) :
    Coordinator :=
  after (next cfg) (start cfg initialConversation).1 turns

/-- What can be observed of the loop over some iterations. -/
def trace (initialConversation : Conversation) (turns : List Turn) :
    List Observation :=
  (start cfg initialConversation).2 ++
    Fifo.gather (next cfg) (observed cfg)
      (start cfg initialConversation).1 turns

end Coordinator

end CodeRs.AutoDrive
