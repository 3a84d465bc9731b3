import CodeRs.Lib.Runs
import Mathlib.Data.Finmap
import Mathlib.Logic.Function.Basic

/-!
# Approval requests

`request_command_approval` and `request_patch_approval` of
`core/src/codex/session.rs` send an event to the client and afterwards insert
the sender half of a channel under the approval id; `notify_approval` looks the
sender up when the client answers.  The two parts of a request are separate
steps here, so that the submission loop can run between them.
-/

namespace CodeRs.Approvals

/-! ## Requests -/

inductive ReviewDecision where
  | approved | approvedForSession | denied | abort
  deriving DecidableEq, Repr

structure ExecApprovalRequestEvent where
  callId : String
  approvalId : Option String
  turnId : String
  environmentId : Option String
  command : List String
  cwd : String
  reason : Option String
  deriving DecidableEq, Repr

def ExecApprovalRequestEvent.effectiveApprovalId
    (event : ExecApprovalRequestEvent) : String :=
  event.approvalId.getD event.callId

structure ApplyPatchApprovalRequestEvent where
  callId : String
  reason : Option String
  grantRoot : Option String
  deriving DecidableEq, Repr

/-- The two events that ask for an approval. -/
inductive ApprovalEvent where
  | execApprovalRequest (event : ExecApprovalRequestEvent)
  | applyPatchApprovalRequest (event : ApplyPatchApprovalRequestEvent)
  deriving DecidableEq, Repr

/-- The id under which a client answers an event. -/
def ApprovalEvent.answerId : ApprovalEvent → String
  | execApprovalRequest event => event.effectiveApprovalId
  | applyPatchApprovalRequest event => event.callId

/-- One call of a request function: the event it sends and the id it inserts its
sender under.  The serial number tells calls with equal arguments apart. -/
structure Request where
  serial : ℕ
  event : ApprovalEvent
  approvalKey : String
  /-- The client answers under the id of the entry. -/
  answerId_eq : event.answerId = approvalKey
  deriving DecidableEq

def requestCommandApproval (serial : ℕ) (subId callId : String)
    (approvalId environmentId : Option String) (command : List String)
    (cwd : String)
    (reason : Option String) : Request where
  serial := serial
  event := .execApprovalRequest
    { callId, approvalId, turnId := subId, environmentId, command, cwd, reason }
  approvalKey := approvalId.getD callId
  answerId_eq := rfl

def requestPatchApproval (serial : ℕ) (callId : String)
    (reason grantRoot : Option String) : Request where
  serial := serial
  event := .applyPatchApprovalRequest { callId, reason, grantRoot }
  approvalKey := callId
  answerId_eq := rfl

/-! ## The session -/

/-- How far a request is, as its waiter sees it. -/
inductive Stage where
  /-- Not called yet. -/
  | unsent
  /-- The event is out and the sender is not inserted yet. -/
  | sent
  /-- The sender is in the map. -/
  | waiting
  /-- The sender was used. -/
  | decided (decision : ReviewDecision)
  /-- The sender was dropped, which the waiter reads as the default decision. -/
  | dropped
  deriving DecidableEq, Repr

/-- The pending approvals of a session and the stage of each request.  A sender
is the request whose channel it belongs to. -/
structure Session where
  pendingApprovals : Finmap fun _ : String => Request
  stage : Request → Stage

namespace Session

/-- A session without requests. -/
def new : Session where
  pendingApprovals := ∅
  stage := fun _ => .unsent

/-- The sender that an insertion under `key` replaces is dropped. -/
def dropReplaced (s : Session) (key : String) : Request → Stage :=
  match s.pendingApprovals.lookup key with
  | some old => Function.update s.stage old .dropped
  | none => s.stage

/-- The first part of a request: the event goes out. -/
def send (s : Session) (request : Request) : Session :=
  { s with stage := Function.update s.stage request .sent }

/-- The second part of a request: the sender is inserted. -/
def register (s : Session) (request : Request) : Session where
  pendingApprovals := s.pendingApprovals.insert request.approvalKey request
  stage := Function.update (s.dropReplaced request.approvalKey) request .waiting

def notifyApproval (s : Session) (callId : String) (decision : ReviewDecision) :
    Session :=
  match s.pendingApprovals.lookup callId with
  | some request =>
      { pendingApprovals := s.pendingApprovals.erase callId
        stage := Function.update s.stage request (.decided decision) }
  | none => s

/-- What `abort` does to the pending approvals. -/
def abort (s : Session) : Session where
  pendingApprovals := ∅
  stage := fun request =>
    if s.pendingApprovals.lookup request.approvalKey = some request then
      .dropped
    else s.stage request

/-- How the submission loop handles `ExecApproval` and `PatchApproval`. -/
def handleApproval (s : Session) (id : String) : ReviewDecision → Session
  | .abort => s.abort
  | decision => s.notifyApproval id decision

end Session

/-- The steps of the session tasks and of the submission loop. -/
inductive Step where
  | send (request : Request)
  | register (request : Request)
  | answer (request : Request) (decision : ReviewDecision)
  | abort
  deriving DecidableEq

/-- A step, where it can be taken: a request sends once and registers once after
that, and the client answers an event it has received. -/
def Session.step (s : Session) : Step → Option Session
  | .send request =>
  if s.stage request = .unsent then some (s.send request) else none
  | .register request =>
      if s.stage request = .sent then some (s.register request) else none
  | .answer request decision =>
      if s.stage request = .unsent then none
      else some (s.handleApproval request.event.answerId decision)
  | .abort => some s.abort

/-- The state after the steps of a run, newest first. -/
def runSession (run : List Step) : Option Session :=
  runOf Session.step Session.new run

theorem Session.dropReplaced_of_ne {s : Session} {key : String}
    {request : Request}
    (h : s.pendingApprovals.lookup key ≠ some request) :
    s.dropReplaced key request = s.stage request := by
  cases hlookup : s.pendingApprovals.lookup key with
  | none => simp [Session.dropReplaced, hlookup]
  | some old =>
      have hold : request ≠ old := by
        rintro rfl
        exact h hlookup
      simp [Session.dropReplaced, hlookup, hold]

/-! ## The step that decides an entry -/

/-- The step changes the entry under `key`: it inserts it, takes it, or clears
the map. -/
def Step.touches (key : String) : Step → Bool
  | .send _ => false
  | .register request => request.approvalKey = key
  | .answer _ .abort => true
  | .answer request _ => request.event.answerId = key
  | .abort => true

/-- The last step of a run that touches `key`. -/
def lastTouch (key : String) (run : List Step) : Option Step :=
  run.find? (Step.touches key)

/-- The decision for `request` comes when the last step that touched its id is
its own registration. -/
def AnsweredInTurn (request : Request) (earlier : List Step) : Prop :=
  lastTouch request.approvalKey earlier = some (.register request)

/-- The session holds what its run says: the entry under a key is the request
whose registration touched the key last, and these requests are the waiting
ones. -/
structure Tracks (run : List Step) (s : Session) : Prop where
  pending : ∀ key request, s.pendingApprovals.lookup key = some request ↔
    lastTouch key run = some (.register request)
  waiting : ∀ request, s.stage request = .waiting ↔
    s.pendingApprovals.lookup request.approvalKey = some request

theorem tracks_new : Tracks [] Session.new :=
  ⟨fun _ _ => by simp [Session.new, lastTouch],
    fun _ => by simp [Session.new]⟩

theorem lastTouch_cons_of_touches {key : String} {a : Step} (h : a.touches key)
    (run : List Step) : lastTouch key (a :: run) = some a :=
  List.find?_cons_of_pos h

theorem lastTouch_cons_of_not_touches {key : String} {a : Step}
    (h : a.touches key = false) (run : List Step) :
    lastTouch key (a :: run) = lastTouch key run :=
  List.find?_cons_of_neg (by simp [h])

namespace Tracks

variable {run : List Step} {s : Session}

theorem approvalKey_eq (h : Tracks run s) {key : String} {request : Request}
    (hlookup : s.pendingApprovals.lookup key = some request) :
    request.approvalKey = key := by
  have htouches := List.find?_some ((h.pending key request).1 hlookup)
  simpa [Step.touches] using htouches

theorem send (h : Tracks run s) {request : Request}
    (hstage : s.stage request = .unsent) :
    Tracks (.send request :: run) (s.send request) where
  pending key other := by
    rw [lastTouch_cons_of_not_touches rfl]
    exact h.pending key other
  waiting other := by
    by_cases hother : other = request
    · subst hother
      have hnot := mt (h.waiting other).2 (by simp [hstage])
      simpa [Session.send] using hnot
    · simpa [Session.send, hother] using h.waiting other

/-- After an insertion under `key`, the waiting requests with another key are
those from before. -/
theorem dropReplaced_waiting (h : Tracks run s) (key : String)
    (request : Request) :
    s.dropReplaced key request = .waiting ↔
      request.approvalKey ≠ key ∧
        s.pendingApprovals.lookup request.approvalKey = some request := by
  cases hlookup : s.pendingApprovals.lookup key with
  | none =>
      simp only [Session.dropReplaced, hlookup]
      rw [h.waiting request]
      refine ⟨fun hpending => ⟨?_, hpending⟩, And.right⟩
      rintro rfl
      rw [hlookup] at hpending
      cases hpending
  | some old =>
      have hkey := h.approvalKey_eq hlookup
      simp only [Session.dropReplaced, hlookup]
      by_cases hold : request = old
      · subst hold
        simp [hkey]
      · rw [Function.update_of_ne hold, h.waiting request]
        refine ⟨fun hpending => ⟨?_, hpending⟩, And.right⟩
        rintro rfl
        rw [hlookup, Option.some.injEq] at hpending
        exact hold hpending.symm

theorem register (h : Tracks run s) {request : Request} :
    Tracks (.register request :: run) (s.register request) where
  pending key other := by
    by_cases hkey : request.approvalKey = key
    · rw [lastTouch_cons_of_touches (by simp [Step.touches, hkey])]
      subst hkey
      simp [Session.register]
    · rw [lastTouch_cons_of_not_touches (by simp [Step.touches, hkey])]
      rw [Session.register, Finmap.lookup_insert_of_ne _ (Ne.symm hkey)]
      exact h.pending key other
  waiting other := by
    by_cases hother : other = request
    · subst hother
      simp [Session.register]
    · simp only [Session.register, Function.update_of_ne hother,
        h.dropReplaced_waiting]
      by_cases hkey : other.approvalKey = request.approvalKey
      · refine iff_of_false (fun hboth => hboth.1 hkey) ?_
        generalize other.approvalKey = key at hkey ⊢
        subst hkey
        simpa using Ne.symm hother
      · rw [Finmap.lookup_insert_of_ne _ hkey]
        simp [hkey]

theorem abort (h : Tracks run s) {a : Step} (ha : ∀ key, a.touches key)
    (hne : ∀ request, a ≠ .register request) : Tracks (a :: run) s.abort where
  pending key other := by
    rw [lastTouch_cons_of_touches (ha key)]
    simpa [Session.abort] using hne other
  waiting other := by
    have hwaiting := h.waiting other
    simp only [Session.abort, Finmap.lookup_empty]
    split
    · simp
    · rename_i hnot
      simpa [hwaiting] using hnot

theorem notifyApproval (h : Tracks run s) {a : Step} {callId : String}
    (ha : ∀ key, a.touches key = decide (callId = key))
    (hne : ∀ request, a ≠ .register request) (decision : ReviewDecision) :
    Tracks (a :: run) (s.notifyApproval callId decision) := by
  cases hlookup : s.pendingApprovals.lookup callId with
  | none =>
      simp only [Session.notifyApproval, hlookup]
      refine ⟨fun key other => ?_, h.waiting⟩
      by_cases hkey : callId = key
      · subst hkey
        rw [lastTouch_cons_of_touches (by simp [ha])]
        simpa [hlookup] using hne other
      · rw [lastTouch_cons_of_not_touches (by simp [ha, hkey])]
        exact h.pending key other
  | some request =>
      have hcall := h.approvalKey_eq hlookup
      simp only [Session.notifyApproval, hlookup]
      refine ⟨fun key other => ?_, fun other => ?_⟩
      · by_cases hkey : callId = key
        · subst hkey
          rw [lastTouch_cons_of_touches (by simp [ha])]
          simpa using hne other
        · rw [lastTouch_cons_of_not_touches (by simp [ha, hkey]),
            Finmap.lookup_erase_ne (Ne.symm hkey)]
          exact h.pending key other
      · by_cases hother : other = request
        · subst hother
          simp [← hcall]
        · simp only [Function.update_of_ne hother, h.waiting other]
          by_cases hkey : other.approvalKey = callId
          · generalize other.approvalKey = key at hkey ⊢
            subst hkey
            simpa [hlookup] using Ne.symm hother
          · rw [Finmap.lookup_erase_ne hkey]

theorem step (h : Tracks run s) {a : Step} {s' : Session}
    (hs : s.step a = some s') : Tracks (a :: run) s' := by
  cases a with
  | send request =>
      obtain ⟨hstage, rfl⟩ :
          s.stage request = .unsent ∧ s.send request = s' := by
        simpa [Session.step] using hs
      exact h.send hstage
  | register request =>
      obtain ⟨-, rfl⟩ : s.stage request = .sent ∧ s.register request = s' := by
        simpa [Session.step] using hs
      exact h.register
  | answer request decision =>
      obtain ⟨-, rfl⟩ : ¬ s.stage request = .unsent ∧
          s.handleApproval request.event.answerId decision = s' := by
        simpa [Session.step] using hs
      cases decision with
      | abort => exact h.abort (fun _ => rfl) (fun _ => by simp)
      | approved => exact h.notifyApproval (fun _ => rfl) (fun _ => by simp) _
      | approvedForSession =>
          exact h.notifyApproval (fun _ => rfl) (fun _ => by simp) _
      | denied => exact h.notifyApproval (fun _ => rfl) (fun _ => by simp) _
  | abort =>
      cases hs
      exact h.abort (fun _ => rfl) (fun _ => by simp)

end Tracks

theorem tracks_of_run {run : List Step} {s : Session}
    (h : runSession run = some s) : Tracks run s :=
  runOf_induction tracks_new (fun _ _ _ _ htracks hs => htracks.step hs) h

/-! ## Decided requests -/

/-- A step leaves the waiter of a decided request alone. -/
theorem stage_decided_step {run : List Step} {s s' : Session} (h : Tracks run s)
    {request : Request} {decision : ReviewDecision}
    (hstage : s.stage request = .decided decision) {a : Step}
    (hs : s.step a = some s') : s'.stage request = .decided decision := by
  have hfree : ∀ key, s.pendingApprovals.lookup key ≠ some request := by
    intro key hlookup
    have hkey := h.approvalKey_eq hlookup
    have hwaiting := (h.waiting request).2 (hkey ▸ hlookup)
    rw [hstage] at hwaiting
    cases hwaiting
  have hnotify : ∀ callId d,
      (s.notifyApproval callId d).stage request = .decided decision := by
    intro callId d
    rw [Session.notifyApproval]
    split
    · rename_i other hlookup
      have hne : request ≠ other := by
        rintro rfl
        exact hfree callId hlookup
      simpa [hne] using hstage
    · exact hstage
  have habort : s.abort.stage request = .decided decision := by
    simpa [Session.abort, hfree] using hstage
  cases a with
  | send other =>
      obtain ⟨hother, rfl⟩ : s.stage other = .unsent ∧ s.send other = s' := by
        simpa [Session.step] using hs
      have hne : request ≠ other := by
        rintro rfl
        rw [hstage] at hother
        cases hother
      simpa [Session.send, hne] using hstage
  | register other =>
      obtain ⟨hother, rfl⟩ : s.stage other = .sent ∧ s.register other = s' := by
        simpa [Session.step] using hs
      have hne : request ≠ other := by
        rintro rfl
        rw [hstage] at hother
        cases hother
      simpa only [Session.register, Function.update_of_ne hne,
        Session.dropReplaced_of_ne (hfree _)] using hstage
  | answer other d =>
      obtain ⟨-, rfl⟩ : ¬ s.stage other = .unsent ∧
          s.handleApproval other.event.answerId d = s' := by
        simpa [Session.step] using hs
      cases d with
      | abort => exact habort
      | approved => exact hnotify _ _
      | approvedForSession => exact hnotify _ _
      | denied => exact hnotify _ _
  | abort =>
      cases hs
      exact habort

/-! ## Decisions and their waiters -/

/-- The decision for `request` reached its waiter: the waiter was pending when
it was delivered, and holds it in the end. -/
def Reached (earlier : List Step) (s : Session) (request : Request)
    (decision : ReviewDecision) : Prop :=
  (∃ mid, runSession earlier = some mid ∧ mid.stage request = .waiting) ∧
    s.stage request = .decided decision

theorem handleApproval_eq {decision : ReviewDecision} (h : decision ≠ .abort)
    (s : Session) (id : String) :
    s.handleApproval id decision = s.notifyApproval id decision := by
  cases decision <;> first | rfl | exact absurd rfl h

theorem reached_iff {earlier later : List Step} {s : Session}
    {request : Request}
    {decision : ReviewDecision} (hdecision : decision ≠ .abort)
    (h : runSession (later ++ .answer request decision :: earlier) = some s) :
    Reached earlier s request decision ↔ AnsweredInTurn request earlier := by
  obtain ⟨after, hafter⟩ := runOf_earlier h
  obtain ⟨mid, hmid, hs⟩ := runOf_cons hafter
  have htracks := tracks_of_run hmid
  constructor
  · rintro ⟨⟨mid', hmid', hwaiting⟩, -⟩
    rw [runSession, hmid, Option.some.injEq] at hmid'
    subst hmid'
    exact (htracks.pending _ _).1 ((htracks.waiting request).1 hwaiting)
  · intro hturn
    have hlookup := (htracks.pending _ _).2 hturn
    refine ⟨⟨mid, hmid, (htracks.waiting request).2 hlookup⟩, ?_⟩
    have hdecided : after.stage request = .decided decision := by
      obtain ⟨-, rfl⟩ : ¬ mid.stage request = .unsent ∧
          mid.handleApproval request.event.answerId decision = after := by
        simpa [Session.step] using hs
      rw [handleApproval_eq hdecision, Session.notifyApproval,
        request.answerId_eq,
        hlookup]
      exact Function.update_self ..
    exact runOf_stable
      (fun _ _ _ _ hrun hstage hstep =>
        stage_decided_step (tracks_of_run hrun) hstage hstep) hafter hdecided h

/-- If nothing else touches its id, a request is answered in turn when it is
registered before. -/
theorem answeredInTurn_iff_mem {request : Request} {earlier : List Step}
    (h : ∀ a ∈ earlier, a.touches request.approvalKey → a = .register request) :
    AnsweredInTurn request earlier ↔ .register request ∈ earlier := by
  constructor
  · exact List.mem_of_find?_eq_some
  · intro hmem
    have hsome : (lastTouch request.approvalKey earlier).isSome :=
      List.find?_isSome.2 ⟨_, hmem, by simp [Step.touches]⟩
    obtain ⟨a, ha⟩ := Option.isSome_iff_exists.1 hsome
    rw [AnsweredInTurn, ha,
      h a (List.mem_of_find?_eq_some ha) (List.find?_some ha)]

/-- In every run, each decision reaches its waiter exactly when each is answered
in turn. -/
theorem decisions_reached_iff {run : List Step} {s : Session}
    (h : runSession run = some s) :
    (∀ later request decision earlier,
        run = later ++ .answer request decision :: earlier → decision ≠ .abort →
        Reached earlier s request decision) ↔
      ∀ later request decision earlier,
        run = later ++ .answer request decision :: earlier → decision ≠ .abort →
        AnsweredInTurn request earlier := by
  constructor
  · rintro hall later request decision earlier rfl hdecision
    exact (reached_iff hdecision h).1 (hall _ _ _ _ rfl hdecision)
  · rintro hall later request decision earlier rfl hdecision
    exact (reached_iff hdecision h).2 (hall _ _ _ _ rfl hdecision)

/-- The decision reaches its waiter when it comes after the registration. -/
theorem decisions_reached_after_register :
    let request :=
      requestCommandApproval 0 "turn" "call" none none ["ls"] "/" none
    ∃ s,
      runSession [.answer request .approved, .register request, .send request] =
        some s ∧
      Reached [.register request, .send request] s request .approved := by
  intro request
  refine ⟨_, rfl, (decisions_reached_iff rfl).2 ?_ [] request .approved _ rfl
    (by decide)⟩
  intro later other decision earlier hrun _
  match later with
  | [] =>
      cases hrun
      rfl
  | [_] => cases hrun
  | [_, _] => cases hrun
  | [_, _, _] => cases hrun

/-- The client answers before the entry is there: its decision is dropped and
the waiter stays pending. -/
theorem not_decisions_reached_before_register :
    let request :=
      requestCommandApproval 0 "turn" "call" none none ["ls"] "/" none
    ∃ s,
      runSession [.register request, .answer request .approved, .send request] =
        some s ∧
      s.stage request = .waiting ∧
      ¬ ∀ later other decision earlier,
        [Step.register request, .answer request .approved, .send request] =
          later ++ .answer other decision :: earlier → decision ≠ .abort →
        Reached earlier s other decision := by
  intro request
  refine ⟨_, rfl, by decide, fun hall => ?_⟩
  have hdecided :=
    (hall [.register request] request .approved _ rfl (by decide)).2
  exact absurd hdecided (by decide)

end CodeRs.Approvals
