import CodeRs.AutoDrive.CoordinatorProtocol

/-!
# Runs of the coordinator

The loop refines its protocol: the monitor allows every iteration and comes to
the state that the variables of the loop stand for.  So every run is orderly,
whatever the commands, the model requests and the cancellations.
-/

namespace CodeRs.AutoDrive.Coordinator

open Monitor (watch watch_append)

/-! ## What the variables stand for -/

/-- The pending conversation, unless it is one to try again with. -/
def fresh (s : Coordinator) : List Conversation :=
  if s.consecutiveDecisionFailures = 0 then s.pendingConversation.toList else []

/-- The conversations that wait, the oldest first. -/
def waiting (s : Coordinator) : List Conversation :=
  if s.pendingAckSeq.isSome then s.queuedUpdates ++ s.fresh
    else s.fresh ++ s.queuedUpdates

/-- The state of the monitor for a state of the loop. -/
def exchange (s : Coordinator) : Exchange where
  outstanding := s.pendingAckSeq
  nextSeq := s.decisionSeq + 1
  line := s.waiting
  stage :=
    if s.stopped = true ∨ s.consecutiveDecisionFailures = 0 then .settled
    else .retrying s.consecutiveDecisionFailures
  stopped := s.stopped

/-- The invariant of the loop at the beginning of an iteration: a conversation
to try again with is pending and no decision is outstanding, and nothing is
queued without a reason to wait. -/
structure Sound (s : Coordinator) : Prop where
  few : s.consecutiveDecisionFailures ≤ maxDecisionRecoveryAttempts
  retry : s.consecutiveDecisionFailures ≠ 0 →
    s.pendingConversation.isSome ∧ s.pendingAckSeq = none
  idle : s.pendingAckSeq = none → s.pendingConversation = none →
    s.queuedUpdates = []

/-- The state in which a command is received. -/
structure Receives (s : Coordinator) : Prop where
  running : s.stopped = false
  settled : s.consecutiveDecisionFailures = 0
  pending : s.pendingConversation = none
  idle : s.pendingAckSeq = none → s.queuedUpdates = []

/-- The state in which a decision is asked for. -/
structure Requests (s : Coordinator) : Prop where
  running : s.stopped = false
  few : s.consecutiveDecisionFailures ≤ maxDecisionRecoveryAttempts
  pending : s.pendingConversation = none
  acked : s.pendingAckSeq = none

/-- A part of an iteration that the monitor allows from some state, and that
leaves the invariant if the loop goes on. -/
structure Kept (p : Exchange) (result : Coordinator × List Observation) :
    Prop where
  allowed : watch Exchange.allow p result.2 = some result.1.exchange
  sound : result.1.stopped = false → result.1.Sound

theorem Kept.cons {p : Exchange} {o : Observation} {s : Coordinator}
    {obs : List Observation}
    (ho : p.Allows o) (h : Kept (p.next o) (s, obs)) :
    Kept p (s, o :: obs) := by
  refine ⟨?_, h.sound⟩
  rw [Monitor.watch_cons, Exchange.allow_of ho]
  exact h.allowed

theorem Kept.done {p : Exchange} {s : Coordinator} (hp : p = s.exchange)
    (hs : s.stopped = false → s.Sound) : Kept p (s, []) :=
  ⟨congrArg some hp, hs⟩

/-! ## Decisions and failures -/

section Steps

variable {s : Coordinator}

/-- The monitor while a model request is under way. -/
def asked (s : Coordinator) (stage : Stage) : Exchange where
  outstanding := none
  nextSeq := s.decisionSeq + 1
  line := s.queuedUpdates
  stage := stage
  stopped := false

theorem sendDecision_kept (h : s.Requests) {stage : Stage}
    {decision : UInt64 → Decision}
    {stop : Bool} (hseq : ∀ seq, (decision seq).seq = seq)
    (hstop : ∀ seq, decide ((decision seq).status = .failed) = stop)
    (hstage : stage.Decides) (hfailing : stage = .failing → stop = true) :
    Kept (s.asked stage) (s.sendDecision decision stop) := by
  have hfailed : stage = .failing →
      (decision (s.decisionSeq + 1)).status = .failed :=
    fun hlast => of_decide_eq_true ((hstop _).trans (hfailing hlast))
  refine Kept.cons ⟨rfl, rfl, hseq _, hstage, hfailed⟩ ⟨?_, fun _ => ?_⟩
  · simp [Exchange.next, asked, exchange, waiting, fresh, hseq,
      h.pending, hstop]
  · exact ⟨Nat.zero_le _, fun hne => absurd rfl hne,
      fun hnone => by cases hnone⟩

theorem onDecision_kept (cfg : CoordinatorConfig) (h : s.Requests)
    (parsed : ParsedCoordinatorDecision) {n : ℕ} :
    Kept (s.asked (.requested n)) (s.onDecision cfg parsed) := by
  have hseen :
      Requests { s with
        coordinatorTurnsSeen := satAdd32 s.coordinatorTurnsSeen 1 } :=
    ⟨h.running, h.few, h.pending, h.acked⟩
  by_cases hcap : 0 < cfg.coordinatorTurnCap ∧
      cfg.coordinatorTurnCap ≤ satAdd32 s.coordinatorTurnsSeen 1 ∧
      parsed.status = .continues
  · have hresult : s.onDecision cfg parsed = _ := if_pos hcap
    rw [hresult]
    refine sendDecision_kept hseen ?_ ?_ trivial fun _ => rfl
    · exact fun _ => rfl
    · exact fun _ => decide_eq_true rfl
  · have hresult : s.onDecision cfg parsed = _ := if_neg hcap
    rw [hresult]
    refine sendDecision_kept hseen ?_ ?_ trivial fun hfailing => by
      cases hfailing
    · exact fun _ => rfl
    · exact fun _ => rfl

theorem onFatal_kept (h : s.Requests) (stage : Stage) (hstage : stage.Decides)
    (error : Text) : Kept (s.asked stage) (s.onFatal error) :=
  sendDecision_kept h (fun _ => rfl) (fun _ => rfl) hstage fun _ => rfl

theorem onFailure_kept (h : s.Requests) (conversation : Conversation)
    (failure : DecisionFailure) :
    Kept (s.asked (.requested s.consecutiveDecisionFailures))
      (s.onFailure conversation failure) := by
  have hattempt : satAdd32 s.consecutiveDecisionFailures 1 =
      s.consecutiveDecisionFailures + 1 :=
    satAdd32_eq (le_trans (Nat.succ_le_succ h.few) (by decide))
  unfold onFailure
  split
  · refine Kept.cons ⟨rfl, trivial⟩ ⟨?_, fun hrunning => by cases hrunning⟩
    simp [Exchange.next, asked, exchange, waiting, fresh, h.pending, h.acked]
  · cases classifyRecoverableDecisionError failure.error with
    | none => exact onFatal_kept h (.requested _) trivial failure.error
    | some recoverable =>
        simp only [hattempt]
        have hnext : ∀ stage,
            Stage.reject (.requested s.consecutiveDecisionFailures) = stage →
            (s.asked (.requested s.consecutiveDecisionFailures)).next
              .rejected =
              s.asked stage := by
          rintro stage rfl
          rfl
        split
        · rename_i hfew
          have hstage := hnext _ (if_pos hfew)
          refine Kept.cons ⟨rfl, _, rfl⟩ ?_
          rw [hstage]
          refine Kept.cons trivial (Kept.cons trivial (Kept.cons trivial
            ⟨?_, fun _ => ⟨hfew, fun _ => ⟨rfl, h.acked⟩, ?_⟩⟩))
          · simp [Exchange.next, asked, exchange, waiting, fresh,
              h.running, h.acked]
          · exact fun _ hnone => by cases hnone
        · rename_i hmany
          have hstage := hnext .failing (if_neg hmany)
          refine Kept.cons ⟨rfl, _, rfl⟩ ?_
          rw [hstage]
          exact onFatal_kept h .failing trivial failure.error

theorem onOutcome_kept (cfg : CoordinatorConfig) (h : s.Requests)
    (requested : Conversation)
    (outcome : Except DecisionFailure ParsedCoordinatorDecision) :
    Kept (s.asked (.requested s.consecutiveDecisionFailures))
      (s.onOutcome cfg requested outcome) := by
  cases outcome with
  | ok parsed => exact onDecision_kept cfg h parsed
  | error failure => exact onFailure_kept h requested failure

/-- What the monitor remembers before a decision is asked for: the conversation
is at the head of the line unless it is tried again with. -/
def beforeRequest (s : Coordinator) (conversation : Conversation) :
    Exchange where
  outstanding := none
  nextSeq := s.decisionSeq + 1
  line :=
    if s.consecutiveDecisionFailures = 0 then conversation :: s.queuedUpdates
    else s.queuedUpdates
  stage :=
    if s.consecutiveDecisionFailures = 0 then .settled
    else .retrying s.consecutiveDecisionFailures
  stopped := false

theorem beforeRequest_next (s : Coordinator) (conversation : Conversation) :
    (s.beforeRequest conversation).next
        (if s.consecutiveDecisionFailures = 0 then .takenUp conversation
          else .retried conversation) =
      s.asked (.requested s.consecutiveDecisionFailures) := by
  by_cases hfresh : s.consecutiveDecisionFailures = 0 <;>
    simp [beforeRequest, asked, Exchange.next, Stage.retry, hfresh]

theorem attempt_kept (cfg : CoordinatorConfig) (h : s.Requests)
    (conversation : Conversation)
    (turn : Turn) :
    Kept (s.beforeRequest conversation) (s.attempt cfg conversation turn) := by
  have hfree : (s.beforeRequest conversation).stage.Free := by
    by_cases hfresh : s.consecutiveDecisionFailures = 0 <;>
      simp [beforeRequest, hfresh, Stage.Free]
  cases hcancelled : turn.cancelled with
  | true =>
      have hresult : s.attempt cfg conversation turn = _ := if_pos hcancelled
      rw [hresult]
      by_cases hfresh : s.consecutiveDecisionFailures = 0
      · rw [if_pos hfresh]
        refine Kept.cons ⟨rfl,
          hfree⟩ (Kept.cons ⟨rfl, rfl, ?_⟩ (Kept.done ?_ ?_))
        · simp [beforeRequest, Exchange.next, hfresh]
        · simp [beforeRequest, Exchange.next, exchange, waiting, fresh, hfresh,
            h.pending, h.acked]
        · exact fun hrunning => by cases hrunning
      · rw [if_neg hfresh]
        refine Kept.cons ⟨rfl, hfree⟩ (Kept.done ?_ ?_)
        · simp [beforeRequest, Exchange.next, exchange, waiting, fresh,
            hfresh, h.acked]
        · exact fun hrunning => by cases hrunning
  | false =>
      have hresult : s.attempt cfg conversation turn = _ :=
        if_neg (by simp [hcancelled])
      rw [hresult]
      have hrequest : ∀ requested, Kept (s.beforeRequest conversation)
          ((s.onOutcome cfg requested turn.outcome).1,
            (if s.consecutiveDecisionFailures = 0 then .takenUp conversation
              else .retried conversation) ::
              (s.onOutcome cfg requested turn.outcome).2) := by
        intro requested
        refine Kept.cons ?_ ?_
        · by_cases hfresh : s.consecutiveDecisionFailures = 0 <;>
            simp [beforeRequest, Exchange.Allows, hfresh]
        · rw [beforeRequest_next]
          exact onOutcome_kept cfg h requested turn.outcome
      cases turn.compacted with
      | none => exact hrequest _
      | some compacted => exact Kept.cons hfree (hrequest _)

/-! ## Commands -/

/-- The line of the loop where it receives a command. -/
theorem Receives.waiting_eq (h : s.Receives) : s.waiting = s.queuedUpdates := by
  simp [waiting, fresh, h.pending]

theorem Receives.exchange_eq (h : s.Receives) :
    s.exchange =
      { outstanding := s.pendingAckSeq
        nextSeq := s.decisionSeq + 1
        line := s.queuedUpdates
        stage := .settled
        stopped := false } := by
  simp [exchange, h.waiting_eq, h.settled, h.running]

theorem Receives.sound (h : s.Receives) : s.Sound :=
  ⟨h.settled.le.trans (Nat.zero_le _), fun hne => absurd h.settled hne,
    fun hack _ => h.idle hack⟩

/-- What the monitor remembers where a conversation is queued. -/
def queueing (s : Coordinator) (conversation : Conversation) : Exchange where
  outstanding := s.pendingAckSeq
  nextSeq := s.decisionSeq + 1
  line := s.queuedUpdates ++ [conversation]
  stage := .settled
  stopped := false

theorem enqueue_kept (h : s.Receives) (hack : s.pendingAckSeq ≠ none)
    (conversation : Conversation) :
    Kept (s.queueing conversation) (s.enqueue conversation) := by
  have hsound : ∀ queue : List Conversation,
      Sound { s with queuedUpdates := queue } := by
    intro queue
    exact ⟨h.settled.le.trans (Nat.zero_le _), fun hne => absurd h.settled hne,
      fun hnone => absurd hnone hack⟩
  have hline : ∀ queue : List Conversation,
      exchange { s with queuedUpdates := queue } =
        { s.queueing conversation with line := queue } := by
    intro queue
    simp [exchange, queueing, waiting, fresh, h.pending, h.settled, h.running]
  by_cases hfull : maxQueuedConversationUpdates ≤ s.queuedUpdates.length
  · cases hqueue : s.queuedUpdates with
    | nil => simp [hqueue, maxQueuedConversationUpdates] at hfull
    | cons oldest rest =>
        have hresult : s.enqueue conversation =
            ({ s with queuedUpdates := rest ++ [conversation] },
              [.dropped oldest]) := by
          rw [enqueue, hqueue,
            queueUpdateCapped_of_le conversation (hqueue ▸ hfull)]
          rfl
        rw [hresult]
        refine Kept.cons ⟨rfl, rfl, ?_, ?_⟩ (Kept.done ?_ fun _ => hsound _)
        · simp [queueing, hqueue]
        · simpa [queueing] using Nat.lt_succ_of_le hfull
        · rw [hline]
          simp [Exchange.next, queueing, hqueue]
  · have hresult : s.enqueue conversation =
        ({ s with queuedUpdates := s.queuedUpdates ++ [conversation] },
          []) := by
      rw [enqueue, queueUpdateCapped_of_lt conversation hfull]
      rfl
    rw [hresult]
    exact Kept.done (hline _).symm fun _ => hsound _

theorem onAck_kept (h : s.Receives) (seq : UInt64) :
    Kept (s.exchange.next (.received (.ackDecision seq))) (s.onAck seq,
      []) := by
  rw [h.exchange_eq]
  by_cases hack : s.pendingAckSeq = some seq
  · cases hqueue : s.queuedUpdates with
    | nil =>
        have hresult : s.onAck seq = { s with pendingAckSeq := none } := by
          simp [onAck, hack, hqueue]
        rw [hresult]
        refine Kept.done ?_ fun _ => ⟨?_, ?_, ?_⟩
        · simp [Exchange.next, exchange, waiting, fresh, hack, hqueue,
            h.pending, h.settled,
            h.running]
        · exact h.settled.le.trans (Nat.zero_le _)
        · exact fun hne => absurd h.settled hne
        · exact fun _ _ => hqueue
    | cons oldest rest =>
        have hresult : s.onAck seq = { s with
            pendingAckSeq := none
            pendingConversation := some oldest
            queuedUpdates := rest } := by
          simp [onAck, hack, hqueue]
        rw [hresult]
        refine Kept.done ?_ fun _ => ⟨?_, ?_, ?_⟩
        · simp [Exchange.next, exchange, waiting, fresh, hack,
            h.settled, h.running]
        · exact h.settled.le.trans (Nat.zero_le _)
        · exact fun hne => absurd h.settled hne
        · exact fun _ hnone => by cases hnone
  · have hresult : s.onAck seq = s := if_neg hack
    rw [hresult]
    refine Kept.done ?_ fun _ => h.sound
    rw [h.exchange_eq, Exchange.next, if_neg hack]

/-- A conversation that nothing comes before becomes the pending one. -/
theorem pending_kept (h : s.Receives) (conversation : Conversation) :
    Kept (s.queueing conversation) ({ s with
      pendingConversation := some conversation }, []) := by
  refine Kept.done ?_ fun _ => ⟨?_, ?_, ?_⟩
  · cases hack : s.pendingAckSeq with
    | none =>
        have hidle := h.idle hack
        simp [queueing, exchange, waiting, fresh, hack, hidle,
          h.settled, h.running]
    | some seq =>
        simp [queueing, exchange, waiting, fresh, hack, h.settled, h.running]
  · exact h.settled.le.trans (Nat.zero_le _)
  · exact fun hne => absurd h.settled hne
  · exact fun _ hnone => by cases hnone

theorem onUserPrompt_kept (h : s.Receives) (conversation : Conversation)
    (userTurn : UserTurn) :
    Kept ({ s.exchange with stage := .prompted conversation }.next
        (.answered conversation userTurn))
      (s.onUserPrompt conversation userTurn) := by
  rw [h.exchange_eq]
  cases userTurn with
  | ok result => exact Kept.cons trivial (pending_kept h _)
  | error error =>
      refine Kept.cons trivial (Kept.done ?_ fun _ => h.sound)
      rw [h.exchange_eq]
      simp [Exchange.next, Observation.handedIn]

theorem onUpdate_kept (h : s.Receives) (conversation : Conversation) :
    Kept (s.exchange.next (.received (.updateConversation conversation)))
      (s.onUpdate conversation) := by
  have hresult : s.onUpdate conversation =
      if s.pendingAckSeq.isSome ∨ s.pendingConversation.isSome then
        s.enqueue (prepared conversation)
      else ({ s with pendingConversation := some (prepared conversation) },
        []) := by
    rw [onUpdate, ← h.settled]
  rw [h.exchange_eq, hresult]
  by_cases hack : s.pendingAckSeq = none
  · rw [if_neg (by simp [hack, h.pending])]
    exact pending_kept h _
  · rw [if_pos (Or.inl (Option.isSome_iff_ne_none.2 hack))]
    exact enqueue_kept h hack _

/-- All that waits is left over. -/
theorem watch_discarded (p : Exchange) (hstopped : p.stopped = true)
    (hstage : p.stage = .settled) (line : List Conversation) :
    watch Exchange.allow { p with line := line } (line.map .discarded) =
      some { p with line := [] } := by
  induction line with
  | nil => rfl
  | cons conversation rest ih =>
      have ho : Exchange.Allows { p with line := conversation :: rest }
          (.discarded conversation) := ⟨hstopped, hstage, rfl⟩
      rw [List.map_cons, Monitor.watch_cons, Exchange.allow_of ho]
      exact ih

theorem onStop_kept (h : s.Receives) :
    Kept (s.exchange.next .hungUp) s.onStop := by
  rw [h.exchange_eq]
  refine Kept.cons trivial ⟨?_, fun hrunning => by cases hrunning⟩
  refine (watch_discarded { s.queueing [] with
    outstanding := none, stopped := true } rfl rfl
    s.queuedUpdates).trans ?_
  simp [queueing, exchange, waiting, fresh, h.pending]

theorem receive_kept (h : s.Receives) (turn : Turn) :
    Kept s.exchange (s.receive turn) := by
  have hreceives : s.exchange.stopped = false ∧ s.exchange.stage = .settled ∧
      (s.exchange.outstanding = none → s.exchange.line = []) := by
    rw [h.exchange_eq]
    exact ⟨rfl, rfl, h.idle⟩
  unfold receive
  cases turn.command with
  | none => exact Kept.cons hreceives (onStop_kept h)
  | some command =>
      refine Kept.cons hreceives ?_
      cases command with
      | ackDecision seq => exact onAck_kept h seq
      | updateConversation conversation => exact onUpdate_kept h conversation
      | stop => exact onStop_kept h
      | handleUserPrompt text conversation =>
          exact Kept.cons ⟨hreceives.1,
            rfl⟩ (onUserPrompt_kept h conversation turn.userTurn)

/-! ## Iterations -/

theorem select_request (hrunning : s.stopped = false) (h : s.Sound)
    {conversation : Conversation}
    (hsome : s.select.2 = some conversation) :
    s.select.1.2 = [] ∧ s.select.1.1.Requests ∧
      s.exchange = s.select.1.1.beforeRequest conversation := by
  cases hpending : s.pendingConversation with
  | some pending =>
      cases hack : s.pendingAckSeq with
      | some seq => simp [select, hpending, hack] at hsome
      | none =>
          have hselect :
              s.select = (({ s with pendingConversation := none }, []),
                some pending) := by
            simp [select, hpending, hack]
          rw [hselect] at hsome ⊢
          cases hsome
          refine ⟨rfl, ⟨hrunning, h.few, rfl, hack⟩, ?_⟩
          by_cases hfresh : s.consecutiveDecisionFailures = 0 <;>
            simp [exchange, beforeRequest, waiting, fresh, hack, hfresh,
              hpending, hrunning]
  | none =>
      cases hack : s.pendingAckSeq with
      | some seq => simp [select, hpending, hack] at hsome
      | none => simp [select, hpending, hack, h.idle hack hpending] at hsome

/-- Nothing is picked where a command is received. -/
theorem Receives.select_eq (h : s.Receives) : s.select = ((s, []), none) := by
  cases hack : s.pendingAckSeq with
  | none => simp [select, h.pending, hack, h.idle hack]
  | some seq => simp [select, h.pending, hack]

theorem select_receive (hrunning : s.stopped = false) (h : s.Sound)
    (hnone : s.select.2 = none) :
    s.select.1.1.Receives ∧
      watch Exchange.allow s.exchange s.select.1.2 =
        some s.select.1.1.exchange := by
  have hsettled : s.pendingAckSeq ≠ none →
      s.consecutiveDecisionFailures = 0 := by
    intro hack
    by_contra hne
    exact hack (h.retry hne).2
  cases hpending : s.pendingConversation with
  | some pending =>
      cases hack : s.pendingAckSeq with
      | none => simp [select, hpending, hack] at hnone
      | some seq =>
          have hack' : s.pendingAckSeq ≠ none := by simp [hack]
          have hzero := hsettled hack'
          have hreceives : Receives { s with pendingConversation := none } :=
            ⟨hrunning, hzero, rfl, fun hnone => absurd hnone hack'⟩
          have hselect : s.select =
              (({ s with pendingConversation := none }).enqueue pending,
                none) := by
            simp [select, hpending, hack]
          have hexchange : s.exchange =
              ({ s with pendingConversation := none }).queueing pending := by
            simp [exchange, queueing, waiting, fresh, hack, hzero,
              hpending, hrunning]
          rw [hselect, hexchange]
          refine ⟨⟨hrunning, hzero, rfl, fun hnone => absurd hnone hack'⟩, ?_⟩
          exact (enqueue_kept hreceives hack' pending).allowed
  | none =>
      have hzero : s.consecutiveDecisionFailures = 0 := by
        by_contra hne
        simpa [hpending] using (h.retry hne).1
      have hreceives : s.Receives :=
        ⟨hrunning, hzero, hpending, fun hack => h.idle hack hpending⟩
      rw [hreceives.select_eq]
      exact ⟨hreceives, rfl⟩

theorem select_pendingAckSeq :
    s.select.1.1.pendingAckSeq = s.pendingAckSeq := by
  unfold select
  split <;> rfl

theorem receive_stale {turn : Turn} {seq : UInt64}
    (hcommand : turn.command = some (.ackDecision seq))
    (hack : s.pendingAckSeq ≠ some seq) :
    s.receive turn = (s, [.received (.ackDecision seq)]) := by
  unfold receive
  rw [hcommand]
  exact congrArg (fun result => (result,
    [Observation.received (.ackDecision seq)])) (if_neg hack)

theorem iterate_kept (cfg : CoordinatorConfig) (h : s.stopped = false → s.Sound)
    (turn : Turn) :
    Kept s.exchange (s.iterate cfg turn) := by
  cases hstopped : s.stopped with
  | true =>
      rw [iterate_of_stopped hstopped]
      exact Kept.done rfl h
  | false =>
      cases hselect : s.select.2 with
      | some conversation =>
          obtain ⟨hsilent, hrequests, hline⟩ :=
            select_request hstopped (h hstopped) hselect
          rw [iterate_of_some hstopped hselect, hsilent, hline]
          exact attempt_kept cfg hrequests conversation turn
      | none =>
          obtain ⟨hreceives, hqueued⟩ :=
            select_receive hstopped (h hstopped) hselect
          have hkept := receive_kept hreceives turn
          rw [iterate_of_none hstopped hselect]
          refine ⟨?_, hkept.sound⟩
          rw [watch_append, hqueued]
          exact hkept.allowed

end Steps

/-! ## Runs -/

section Runs

variable (cfg : CoordinatorConfig) (initialConversation : Conversation)
    (turns : List Turn)

/-- The number of the first decision. -/
def firstSeq : UInt64 := if cfg.seed.isSome then 0 else 1

theorem start_kept :
    Kept (Exchange.initial (firstSeq cfg)) (start cfg initialConversation) := by
  unfold start firstSeq
  cases cfg.seed with
  | some seed =>
      refine Kept.cons ⟨rfl, rfl, rfl, trivial,
        fun hfailing => by cases hfailing⟩
        (Kept.done rfl fun _ => ⟨Nat.zero_le _, ?_, ?_⟩)
      · exact fun hne => absurd rfl hne
      · exact fun hnone => by cases hnone
  | none =>
      refine Kept.cons ⟨rfl,
        rfl⟩ (Kept.done rfl fun _ => ⟨Nat.zero_le _, ?_, ?_⟩)
      · exact fun hne => absurd rfl hne
      · exact fun _ hnone => by cases hnone

theorem refines :
    Monitor.Refines Exchange.allow (next cfg) (observed cfg)
      (fun s => s.stopped = false → s.Sound) exchange :=
  ⟨fun _ turn h => (iterate_kept cfg h turn).sound,
    fun _ turn h => (iterate_kept cfg h turn).allowed⟩

/-- The invariant holds after every run, and the monitor allows its trace. -/
theorem run_kept :
    Kept (Exchange.initial (firstSeq cfg))
      (runAutoLoop cfg initialConversation turns,
        trace cfg initialConversation turns) := by
  have hstart := start_kept cfg initialConversation
  obtain ⟨hsound, hrun⟩ := (refines cfg).run hstart.sound turns
  refine ⟨?_, hsound⟩
  rw [trace, watch_append, hstart.allowed]
  exact hrun

structure Promised (trace : List Observation) (s : Coordinator) : Prop where
  orderly : Orderly (firstSeq cfg) trace
  /-- fewer than 2^64 decisions have increasing numbers -/
  increasing : (decisionSeqs trace).length < 2 ^ 64 →
    (decisionSeqs trace).Pairwise (· < ·)
  /-- what was handed in has left in this order or waits -/
  arrivals : handedIn trace = departed trace ++ s.waiting
  /-- an ack with another number than that of the decision without one changes
  nothing: the loop is back where it receives a command -/
  staleAck : ∀ turn seq, s.stopped = false → s.select.2 = none →
    turn.command = some (.ackDecision seq) → unacknowledged trace ≠ some seq →
      s.iterate cfg turn =
        (s.select.1.1, s.select.1.2 ++ [.received (.ackDecision seq)]) ∧
        s.select.1.1.select = ((s.select.1.1, []), none)

/-- Whatever the commands and whatever comes of the model requests, the loop
keeps its promises. -/
theorem runAutoLoop_promised :
    Promised cfg (trace cfg initialConversation turns)
      (runAutoLoop cfg initialConversation turns) := by
  have hkept := run_kept cfg initialConversation turns
  have htracked := Tracked.of_watch hkept.allowed
  refine ⟨orderly_of_watch hkept.allowed ?_, ?_, htracked.line, ?_⟩
  · unfold exchange
    split
    · trivial
    · trivial
  · intro hlength
    obtain ⟨count, hcount, -⟩ := htracked.numbered
    rw [hcount] at hlength ⊢
    refine pairwise_seqsFrom ?_
    rw [length_seqsFrom] at hlength
    have hfirst : (firstSeq cfg).toNat ≤ 1 := by
      unfold firstSeq
      split <;> decide
    omega
  · intro turn seq hrunning hnone hcommand hother
    obtain ⟨hreceives, -⟩ :=
      select_receive hrunning (hkept.sound hrunning) hnone
    have hack :
        (runAutoLoop cfg initialConversation turns).pendingAckSeq ≠ some seq :=
      fun hack => hother ((htracked.outstanding hrunning).symm.trans hack)
    rw [iterate_of_none hrunning hnone,
      receive_stale hcommand (by rwa [select_pendingAckSeq])]
    exact ⟨rfl, hreceives.select_eq⟩

end Runs

/-! ## What a run does not promise -/

/-- A loop that begins with its conversation and has no turn cap. -/
def quietConfig : CoordinatorConfig where
  goalText := []
  deriveGoalFromHistory := false
  includeAgents := false
  gitRepoPresent := false
  coordinatorTurnCap := 0

/-- An iteration in which a model request, if there is one, yields a decision
to go on. -/
def goingOn (command : Option AutoCoordinatorCommand)
    (userTurn : UserTurn) : Turn where
  outcome := .ok
    { status := .continues
      statusTitle := none
      statusSentToUser := none
      cli := none
      agentsTiming := none
      agents := []
      goal := none
      responseItems := [] }
  command := command
  userTurn := userTurn

/-- Rounds of a decision, its ack and another conversation. -/
def rounds : ℕ → UInt64 → List Turn
  | 0, _ => []
  | count + 1, seq =>
      goingOn none (.ok (none, none)) ::
        goingOn (some (.ackDecision (seq + 1))) (.ok (none, none)) ::
        goingOn (some (.updateConversation [])) (.ok (none, none)) ::
        rounds count (seq + 1)

section Rounds

variable (seq : UInt64) (seen : ℕ)

def beforeRound : Coordinator where
  pendingConversation := some []
  decisionSeq := seq
  coordinatorTurnsSeen := seen

def roundDecision : Decision where
  seq := seq
  status := .continues
  statusTitle := none
  statusSentToUser := none
  goal := none
  cli := none
  agentsTiming := none
  agents := []
  transcript := []

theorem iterate_decision :
    (beforeRound seq seen).iterate quietConfig
      (goingOn none (.ok (none, none))) =
      ({ pendingConversation := none
         decisionSeq := seq + 1
         pendingAckSeq := some (seq + 1)
         coordinatorTurnsSeen := satAdd32 seen 1 },
        [.takenUp [], .sent (.decision (roundDecision (seq + 1)))]) :=
  rfl

theorem iterate_ack :
    Coordinator.iterate quietConfig
        { pendingConversation := none
          decisionSeq := seq
          pendingAckSeq := some seq
          coordinatorTurnsSeen := seen }
        (goingOn (some (.ackDecision seq)) (.ok (none, none))) =
      ({ pendingConversation := none
         decisionSeq := seq
         coordinatorTurnsSeen := seen }, [.received (.ackDecision seq)]) := by
  simp [iterate, select, receive, goingOn, onAck]

theorem iterate_update :
    Coordinator.iterate quietConfig
        { pendingConversation := none
          decisionSeq := seq
          coordinatorTurnsSeen := seen }
        (goingOn (some (.updateConversation [])) (.ok (none, none))) =
      (beforeRound seq seen, [.received (.updateConversation [])]) :=
  rfl

end Rounds

theorem decisionSeqs_rounds (count : ℕ) (seq : UInt64) (seen : ℕ) :
    decisionSeqs (Fifo.gather (next quietConfig) (observed quietConfig)
      (beforeRound seq seen) (rounds count seq)) =
      seqsFrom (seq + 1) count := by
  induction count generalizing seq seen with
  | zero => rfl
  | succ count ih =>
      have hround : Fifo.gather (next quietConfig) (observed quietConfig)
          (beforeRound seq seen) (rounds (count + 1) seq) =
            [.takenUp [], .sent (.decision (roundDecision (seq + 1))),
              .received (.ackDecision (seq + 1)),
              .received (.updateConversation [])] ++
            Fifo.gather (next quietConfig) (observed quietConfig)
              (beforeRound (seq + 1) (satAdd32 seen 1))
              (rounds count (seq + 1)) := by
        simp only [rounds, Fifo.gather, next, observed,
          iterate_decision, iterate_ack,
          iterate_update]
        rfl
      have hhead : ∀ later, decisionSeqs ([.takenUp [],
          .sent (.decision (roundDecision (seq + 1))),
          .received (.ackDecision (seq + 1)),
          .received (.updateConversation [])] ++ later) =
          (seq + 1) :: decisionSeqs later :=
        fun _ => rfl
      rw [hround, hhead, ih, seqsFrom_cons]

theorem decisionSeqs_trace_rounds (count : ℕ) :
    decisionSeqs (trace quietConfig [] (rounds count 0)) = seqsFrom 1 count :=
  decisionSeqs_rounds count 0 0

/-- The question of a user prompt. -/
def question : Conversation := [makeMessage "user" "what now".toList]

/-- A decision, its ack and a user prompt whose model request fails. -/
def failedPrompt : List Turn :=
  [goingOn none (.ok (none, none)),
    goingOn (some (.ackDecision 1)) (.ok (none, none)),
    goingOn (some (.handleUserPrompt [] question)) (.error "offline".toList)]

/-- After 2^64 decisions the numbers begin again, and the conversation of a
user prompt whose model request fails is neither taken up nor kept. -/
theorem promise_limits :
    ¬ (decisionSeqs (trace quietConfig [] (rounds (2 ^ 64) 0))).Pairwise
      (· < ·) ∧
      .received (.handleUserPrompt [] question) ∈
        trace quietConfig [] failedPrompt ∧
      departed (trace quietConfig [] failedPrompt) = [[]] ∧
      (runAutoLoop quietConfig [] failedPrompt).waiting = [] ∧
      (runAutoLoop quietConfig [] failedPrompt).stopped = false := by
  refine ⟨?_, ?_, by decide, by decide, by decide⟩
  · rw [decisionSeqs_trace_rounds]
    exact not_pairwise_seqsFrom le_rfl
  · -- the prompt is what the third iteration begins with
    refine List.mem_append_right _
      (List.mem_append_right _ (List.mem_append_right _ ?_))
    exact List.mem_append_left _ List.mem_cons_self

end CodeRs.AutoDrive.Coordinator
