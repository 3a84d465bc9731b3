import CodeRs.Lib.Keyed
import CodeRs.Lib.Runs
import CodeRs.Lib.Saturating
import CodeRs.Lib.Text
import Mathlib.Logic.Function.Basic

/-!
# Running execs

`run_exec_with_events_inner` of `core/src/codex/exec.rs` registers an exec,
sends its begin event, runs the process, sends its end event, and then
`finalize_cancelled_execs` ends the other execs of the same submission.  A
future that is dropped leaves the end event to `ExecDropGuard`.  Every access
to the registry, to a flag and to the channel is a step of its own, and any
exec may take the next one; what one exec awaits of another, as of its hooks,
only leaves out runs.
-/

namespace CodeRs.Session

/-! ## Calls -/

/-- A call of `run_exec_with_events_inner`. -/
structure ExecCall where
  subId : String
  callId : String
  isApplyPatch : Bool
  seqHint : Option ℕ
  outputIndex : Option ℕ
  attemptReq : ℕ
  deriving DecidableEq

def sanitizeIdentifier (value : String) : String :=
  let slug :=
    (value.toList.map fun ch => if ch.isAlphanum then ch.toLower
      else '_').dropWhile
      (· = '_')
  if slug = [] then "hook" else String.ofList slug

inductive ProjectHookEvent where
  | sessionStart | sessionEnd | userPromptSubmit | toolBefore | toolAfter
  | fileBeforeWrite
  | fileAfterWrite | stop
  deriving DecidableEq, Repr

def ProjectHookEvent.slug : ProjectHookEvent → String
  | sessionStart => "session_start"
  | sessionEnd => "session_end"
  | userPromptSubmit => "user_prompt_submit"
  | toolBefore => "tool_before"
  | toolAfter => "tool_after"
  | fileBeforeWrite => "file_before_write"
  | fileAfterWrite => "file_after_write"
  | stop => "stop"

def initialSubmitId : String := ""

/-- The call that `run_hook_command` makes for a hook, around an exec or
without one. -/
def hookCall (base : Option ExecCall) (fallbackSubId : Option String)
    (event : ProjectHookEvent) (attemptReq index : ℕ) : ExecCall where
  subId := ((base.map ExecCall.subId).or fallbackSubId).getD initialSubmitId
  callId :=
    ((base.map fun call => sanitizeIdentifier call.callId).getD event.slug) ++
      "_hook_" ++
      event.slug ++ "_" ++ toString (index + 1)
  isApplyPatch := false
  seqHint := none
  outputIndex := none
  attemptReq := attemptReq

/-! ## Events -/

/-- What a process leaves, or the error in its place. -/
structure ExecToolCallOutput where
  stdout : Text
  stderr : Text
  exitCode : ℤ
  deriving DecidableEq

def syntheticExecEndPayload (cancelled : Bool) : ℤ × Text :=
  if cancelled then (130, "Command cancelled by user.".toList)
  else (130, "Command interrupted before completion.".toList)

structure OrderMeta where
  requestOrdinal : ℕ
  outputIndex : Option ℕ
  sequenceNumber : Option ℕ
  deriving DecidableEq

/-- The messages about an exec. -/
inductive ExecMsg where
  | execCommandBegin (callId : String)
  | patchApplyBegin (callId : String)
  | execCommandEnd (callId : String) (stdout stderr : Text) (exitCode : ℤ)
  | patchApplyEnd (callId : String) (stdout stderr : Text) (success : Bool)
  deriving DecidableEq

/-- An event with the id of its submission and its place in the order. -/
structure Event where
  id : String
  msg : ExecMsg
  order : OrderMeta
  deriving DecidableEq

/-- What is sent about an exec: that it begins, or that it ends, with its own
output or without. -/
inductive ExecEvent (ι : Type) where
  | begun (exec : ι)
  | ended (exec : ι) (output : ExecToolCallOutput)
  | synthetic (exec : ι) (cancelled : Bool)
  deriving DecidableEq

def maxStreamOutput : ℕ := 5 * 1024

namespace ExecCall

variable (call : ExecCall)

def orderForEnd : OrderMeta :=
  ⟨call.attemptReq, call.outputIndex, call.seqHint.map fun h => satAdd h 1⟩

def onExecCommandBegin : Event where
  id := call.subId
  msg := if call.isApplyPatch then .patchApplyBegin call.callId
    else .execCommandBegin call.callId
  order := ⟨call.attemptReq, call.outputIndex, call.seqHint⟩

def onExecCommandEnd (output : ExecToolCallOutput) : Event where
  id := call.subId
  msg :=
    let stdout := output.stdout.take maxStreamOutput
    let stderr := output.stderr.take maxStreamOutput
    if call.isApplyPatch then
      .patchApplyEnd call.callId stdout stderr (output.exitCode = 0)
    else .execCommandEnd call.callId stdout stderr output.exitCode
  order := call.orderForEnd

/-- The end event of the drop guard and of `finalize_cancelled_execs`. -/
def syntheticEnd (cancelled : Bool) : Event where
  id := call.subId
  msg :=
    let payload := syntheticExecEndPayload cancelled
    .execCommandEnd call.callId [] payload.2 payload.1
  order := call.orderForEnd

end ExecCall

def ExecEvent.event {ι : Type} (calls : ι → ExecCall) : ExecEvent ι → Event
  | begun exec => (calls exec).onExecCommandBegin
  | ended exec output => (calls exec).onExecCommandEnd output
  | synthetic exec cancelled => (calls exec).syntheticEnd cancelled

/-! ## The session -/

/-- How far a call has come.  While it finalizes it has a list of the execs to
end, and the one it has set the cancel flag of, or has taken the end event
of. -/
inductive ExecPhase (ι : Type) where
  | absent
  | tracked
  | running
  | ended
  | endStored
  | unregistered
  | finalizing (toEmit : List ι)
  | flagged (exec : ι) (toEmit : List ι)
  | swapped (exec : ι) (toEmit : List ι)
  | completed
  | dropped
  | dropSwapped
  | over
  deriving DecidableEq

/-- The session with its execs.  The flags of an exec are its own, and unset at
first. -/
structure ExecSession {ι : Type} (calls : ι → ExecCall) where
  phase : ι → ExecPhase ι
  cancelFlag : ι → Bool
  endEmitted : ι → Bool
  runningExecs : Keyed fun e => (calls e).callId
  /-- The submissions that an abort has still to mark. -/
  subIds : List String
  events : List (ExecEvent ι)
  /-- The cancel flag was set by an abort. -/
  aborted : ι → Bool

/-- A step: of a call, with the output of its process or the order in which it
finds the execs to end, a drop of its future, or a step of an abort. -/
inductive ExecTurn (ι : Type) where
  | enter (e : ι)
  | proceed (e : ι)
  | finish (e : ι) (output : ExecToolCallOutput)
  | finalize (e : ι) (toEmit : List ι)
  | drop (e : ι)
  | abort
  | mark (subId : String)

namespace ExecSession

variable {ι : Type} {calls : ι → ExecCall} (s : ExecSession calls)

/-- The session before the first call. -/
def start : ExecSession calls where
  phase := fun _ => .absent
  cancelFlag := fun _ => false
  endEmitted := fun _ => false
  runningExecs := Keyed.empty
  subIds := []
  events := []
  aborted := fun _ => false

def send (event : ExecEvent ι) : ExecSession calls :=
  { s with events := s.events ++ [event] }

/-- The execs of a submission that are registered without their end. -/
def unended (subId : String) : List ι :=
  s.runningExecs.values.filter fun e =>
    (calls e).subId = subId ∧ s.endEmitted e = false

variable [DecidableEq ι]

def goto (e : ι) (phase : ExecPhase ι) : ExecSession calls :=
  { s with phase := Function.update s.phase e phase }

def setCancelFlag (e : ι) : ExecSession calls :=
  { s with cancelFlag := Function.update s.cancelFlag e true }

def setEndEmitted (e : ι) : ExecSession calls :=
  { s with endEmitted := Function.update s.endEmitted e true }

def trackRunningExec (e : ι) : ExecSession calls :=
  { s with runningExecs := s.runningExecs.insert e }

def unregisterRunningExec (callId : String) : ExecSession calls :=
  { s with runningExecs := s.runningExecs.remove callId }

/-- The execs of a submission that are registered. -/
def registered (subId : String) (e : ι) : Bool :=
  decide (e ∈ s.runningExecs.values ∧ (calls e).subId = subId)

def markRunningExecAsCancelled (subId : String) : ExecSession calls :=
  { s with
    cancelFlag := fun e => s.cancelFlag e || s.registered subId e
    aborted := fun e => s.aborted e || s.registered subId e }

/-- Take the execs to end out of the registry. -/
def takeUnended (toEmit : List ι) : ExecSession calls :=
  { s with
    runningExecs := toEmit.foldl (fun m x => m.remove (calls x).callId)
      s.runningExecs }

/-- The next step of a call, where there is nothing to choose. -/
def proceed (e : ι) : ExecSession calls :=
  match s.phase e with
  -- the hooks before the exec run while it is tracked
  | .tracked => (s.send (.begun e)).goto e .running
  | .ended => (s.setEndEmitted e).goto e .endStored
  | .endStored =>
      (s.unregisterRunningExec (calls e).callId).goto e .unregistered
  | .finalizing [] => s.goto e .completed
  | .finalizing (x :: toEmit) => (s.setCancelFlag x).goto e (.flagged x toEmit)
  | .flagged x toEmit =>
      if s.endEmitted x then s.goto e (.finalizing toEmit)
      else (s.setEndEmitted x).goto e (.swapped x toEmit)
  | .swapped x toEmit =>
      (s.send (.synthetic x true)).goto e (.finalizing toEmit)
  -- the hooks after it are over, or the future is dropped among them
  | .completed => (s.unregisterRunningExec (calls e).callId).goto e .over
  | .dropped =>
      if s.endEmitted e then s.goto e .over
        else (s.setEndEmitted e).goto e .dropSwapped
  | .dropSwapped => (s.send (.synthetic e (s.cancelFlag e))).goto e .over
  | _ => s

/-- The session after a step, or as it was where the step cannot be taken. -/
def next (s : ExecSession calls) : ExecTurn ι → ExecSession calls
  | .enter e =>
  if s.phase e = .absent then (s.trackRunningExec e).goto e .tracked else s
  | .proceed e => s.proceed e
  | .finish e output =>
      if s.phase e = .running then
        (s.send (.ended e output)).goto e .ended else s
  | .finalize e toEmit =>
      if s.phase e = .unregistered ∧
        toEmit.Perm (s.unended (calls e).subId) then
        (s.takeUnended toEmit).goto e (.finalizing toEmit)
      else s
  | .drop e =>
      -- only the hooks before it and its process are awaited
      if s.phase e = .tracked ∨ s.phase e = .running then
        (s.unregisterRunningExec (calls e).callId).goto e .dropped
      else s
  | .abort =>
      { s with
        subIds := s.subIds ++
          s.runningExecs.values.map fun e => (calls e).subId }
  | .mark subId =>
      if subId ∈ s.subIds then
        { s.markRunningExecAsCancelled subId with
          subIds := s.subIds.erase subId }
      else s

end ExecSession

end CodeRs.Session
