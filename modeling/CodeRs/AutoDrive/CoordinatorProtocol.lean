import CodeRs.AutoDrive.CoordinatorLoop
import CodeRs.Lib.Monitor

/-!
# The protocol of the coordinator

What the coordinator owes to those who talk to it, as a monitor of what can be
observed: one decision at a time, numbered in order; conversations taken up in
the order in which they were handed in; few retries.  The monitor knows nothing
of the variables of the loop. A trace that it allows is `Orderly`.
-/

namespace CodeRs.AutoDrive

open Coordinator (withReply)

/-! ## Reading a trace -/

namespace Observation

/-- The conversations that an observation hands in, as the coordinator prepares
them. -/
def handedIn : Observation → List Conversation
  | .opened conversation => [conversation]
  | .received (.updateConversation conversation) => [prepared conversation]
  | .answered conversation (.ok (reply, _)) =>
      [prepared (withReply conversation reply)]
  | _ => []

/-- The conversations that no longer wait after an observation. -/
def departed : Observation → List Conversation
  | .takenUp conversation => [conversation]
  | .dropped conversation => [conversation]
  | .discarded conversation => [conversation]
  | _ => []

/-- The number of the decision that is sent. -/
def decisionSeq : Observation → Option UInt64
  | .sent (.decision decision) => some decision.seq
  | _ => none

/-- The decision without an ack after an observation, from the one before. -/
def awaited (seq : Option UInt64) : Observation → Option UInt64
  | .sent (.decision decision) => some decision.seq
  | .received (.ackDecision acked) => if seq = some acked then none else seq
  | _ => seq

/-- The retries of the conversation taken up last, from those before. -/
def retriesAfter (retries : ℕ) : Observation → ℕ
  | .takenUp _ => 0
  | .retried _ => retries + 1
  | _ => retries

/-- Whether the loop stops with an observation. -/
def Stops : Observation → Prop
  | .received .stop => True
  | .hungUp => True
  | .cancelled => True
  | .sent (.decision decision) => decision.status = .failed
  | _ => False

end Observation

/-- The conversations handed in, in their order. -/
def handedIn (trace : List Observation) : List Conversation :=
  trace.flatMap Observation.handedIn

/-- The conversations taken up, dropped or left over, in their order. -/
def departed (trace : List Observation) : List Conversation :=
  trace.flatMap Observation.departed

/-- The numbers of the decisions sent, in their order. -/
def decisionSeqs (trace : List Observation) : List UInt64 :=
  trace.filterMap Observation.decisionSeq

/-- The last decision, if no `AckDecision` with its number has been received
since. -/
def unacknowledged (trace : List Observation) : Option UInt64 :=
  trace.foldl Observation.awaited none

/-- How often the conversation taken up last has been retried. -/
def retries (trace : List Observation) : ℕ :=
  trace.foldl Observation.retriesAfter 0

def HasStopped (trace : List Observation) : Prop := ∃ o ∈ trace, o.Stops

/-- Numbers one after another, from the largest on to zero. -/
def seqsFrom (first : UInt64) (count : ℕ) : List UInt64 :=
  (List.range count).map fun i => first + UInt64.ofNat i

/-! ## The monitor -/

/-- How far the requests on the conversation taken up last have come. -/
inductive Stage where
  | settled
  | requested (failures : ℕ)
  | retrying (failures : ℕ)
  | failing
  /-- a user prompt is being answered -/
  | prompted (conversation : Conversation)

namespace Stage

/-- A request is made once more. -/
def retry : Stage → Stage
  | .retrying failures => .requested failures
  | stage => stage

/-- A request has failed, but not for good. -/
def reject : Stage → Stage
  | .requested failures =>
      if failures < maxDecisionRecoveryAttempts then
        .retrying (failures + 1) else .failing
  | stage => stage

/-- Whether no particular observation must come next. -/
def Free : Stage → Prop
  | .failing => False
  | .prompted _ => False
  | _ => True

def Decides : Stage → Prop
  | .retrying _ => False
  | .prompted _ => False
  | _ => True

/-- The retries that belong to a stage. -/
def Counts : Stage → ℕ → Prop
  | .settled, retries => retries ≤ maxDecisionRecoveryAttempts
  | .requested failures, retries =>
      retries = failures ∧ failures ≤ maxDecisionRecoveryAttempts
  | .retrying failures, retries =>
      retries + 1 = failures ∧ failures ≤ maxDecisionRecoveryAttempts
  | .failing, retries => retries = maxDecisionRecoveryAttempts
  | .prompted _, retries => retries ≤ maxDecisionRecoveryAttempts

theorem Counts.le {stage : Stage} {retries : ℕ} (h : stage.Counts retries) :
    retries ≤ maxDecisionRecoveryAttempts := by
  cases stage with
  | settled => exact h
  | requested failures => exact h.1.le.trans h.2
  | retrying failures => exact (Nat.le_succ retries).trans (h.1.le.trans h.2)
  | failing => exact Nat.le_of_eq h
  | prompted conversation => exact h

end Stage

/-- What the monitor remembers: the decision without an ack, the next number,
the conversations that wait, the oldest first, and how far the last of the
others has come. -/
structure Exchange where
  outstanding : Option UInt64
  nextSeq : UInt64
  line : List Conversation
  stage : Stage
  stopped : Bool

namespace Exchange

def Allows (p : Exchange) : Observation → Prop
  | .opened _ => p.stopped = false ∧ p.stage = .settled
  | .received _ =>
      p.stopped = false ∧ p.stage = .settled ∧
        (p.outstanding = none → p.line = [])
  | .answered conversation _ =>
      p.stopped = false ∧ p.stage = .prompted conversation
  | .hungUp =>
      p.stopped = false ∧ p.stage = .settled ∧
        (p.outstanding = none → p.line = [])
  | .cancelled => p.stopped = false ∧ p.stage.Free
  | .takenUp conversation =>
      p.stopped = false ∧ p.outstanding = none ∧ p.stage = .settled ∧
        p.line.head? = some conversation
  | .retried _ =>
      p.stopped = false ∧ p.outstanding = none ∧ ∃ n, p.stage = .retrying n
  | .rejected => p.stopped = false ∧ ∃ n, p.stage = .requested n
  | .dropped conversation =>
      p.stopped = false ∧ p.stage = .settled ∧
        p.line.head? = some conversation ∧
        maxQueuedConversationUpdates < p.line.length
  | .discarded conversation =>
      p.stopped = true ∧ p.stage = .settled ∧ p.line.head? = some conversation
  | .sent (.decision decision) =>
      p.stopped = false ∧ p.outstanding = none ∧ decision.seq = p.nextSeq ∧
        p.stage.Decides ∧ (p.stage = .failing → decision.status = .failed)
  | .sent _ => p.stage.Free

/-- What an observation changes. -/
def next (p : Exchange) : Observation → Exchange
  | .received (.ackDecision seq) =>
      { p with outstanding := if p.outstanding = some seq then none
        else p.outstanding }
  | .received (.handleUserPrompt _ conversation) =>
      { p with stage := .prompted conversation }
  | .received .stop => { p with outstanding := none, stopped := true }
  | .answered conversation userTurn =>
      { p with
          line := p.line ++
            (Observation.answered conversation userTurn).handedIn
          stage := .settled }
  | .hungUp => { p with outstanding := none, stopped := true }
  | .cancelled => { p with stage := .settled, stopped := true }
  | .takenUp _ => { p with line := p.line.tail, stage := .requested 0 }
  | .retried _ => { p with stage := p.stage.retry }
  | .rejected => { p with stage := p.stage.reject }
  | .dropped _ => { p with line := p.line.tail }
  | .discarded _ => { p with line := p.line.tail }
  | .sent (.decision decision) =>
      { outstanding := some decision.seq
        nextSeq := p.nextSeq + 1
        line := p.line
        stage := .settled
        stopped := decision.status = .failed }
  | .sent _ => p
  | o => { p with line := p.line ++ o.handedIn }

open Classical in
/-- The step of the monitor. -/
noncomputable def allow (p : Exchange) (o : Observation) : Option Exchange :=
  if p.Allows o then some (p.next o) else none

theorem allow_eq_some {p q : Exchange} {o : Observation} :
    p.allow o = some q ↔ p.Allows o ∧ p.next o = q := by
  unfold allow
  split
  · rename_i h
    exact ⟨fun hq => ⟨h, Option.some.inj hq⟩, fun hq => congrArg some hq.2⟩
  · rename_i h
    exact ⟨fun hq => (by cases hq), fun hq => absurd hq.1 h⟩

theorem allow_of {p : Exchange} {o : Observation} (h : p.Allows o) :
    p.allow o = some (p.next o) :=
  allow_eq_some.2 ⟨h, rfl⟩

/-- The line is entered at its end and left at its front. -/
theorem line_next {p : Exchange} {o : Observation} (ho : p.Allows o) :
    p.line ++ o.handedIn = o.departed ++ (p.next o).line := by
  have hleave : ∀ {conversation}, p.line.head? = some conversation →
      p.line = conversation :: p.line.tail := fun hhead =>
    (List.cons_head?_tail hhead).symm
  have hstay : p.line ++ [] = [] ++ p.line := List.append_nil _
  cases o with
  | takenUp conversation =>
      obtain ⟨-, -, -, hhead⟩ := ho
      exact (List.append_nil _).trans (hleave hhead)
  | dropped conversation =>
      obtain ⟨-, -, hhead, -⟩ := ho
      exact (List.append_nil _).trans (hleave hhead)
  | discarded conversation =>
      obtain ⟨-, -, hhead⟩ := ho
      exact (List.append_nil _).trans (hleave hhead)
  | received command =>
      cases command with
      | updateConversation conversation => rfl
      | _ => exact hstay
  | sent event => cases event <;> exact hstay
  | opened conversation => rfl
  | answered conversation userTurn => rfl
  | _ => exact hstay

/-- The monitor before the first observation. -/
def initial (first : UInt64) : Exchange :=
  { outstanding := none, nextSeq := first, line := [],
    stage := .settled, stopped := false }

end Exchange

/-! ## What the monitor remembers of a trace -/

section Snoc

variable (trace : List Observation) (o : Observation)

theorem handedIn_snoc : handedIn
    (trace ++ [o]) = handedIn trace ++ o.handedIn := by
  simp [handedIn]

theorem departed_snoc : departed
    (trace ++ [o]) = departed trace ++ o.departed := by
  simp [departed]

theorem decisionSeqs_snoc :
    decisionSeqs (trace ++ [o]) =
      decisionSeqs trace ++ o.decisionSeq.toList := by
  rw [decisionSeqs, List.filterMap_append]
  cases h : o.decisionSeq <;> simp [decisionSeqs, h]

theorem unacknowledged_snoc : unacknowledged (trace ++ [o]) = o.awaited
    (unacknowledged trace) := by
  simp [unacknowledged, List.foldl_append]

theorem retries_snoc : retries (trace ++ [o]) = o.retriesAfter
    (retries trace) := by
  simp [retries, List.foldl_append]

theorem hasStopped_snoc : HasStopped (trace ++ [o]) ↔
    HasStopped trace ∨ o.Stops := by
  simp [HasStopped, or_and_right, exists_or]

end Snoc

theorem seqsFrom_succ (first : UInt64) (count : ℕ) :
    seqsFrom first (count + 1) = seqsFrom first count ++ [first +
      UInt64.ofNat count] := by
  simp [seqsFrom, List.range_succ]

theorem seqsFrom_cons (first : UInt64) (count : ℕ) :
    first :: seqsFrom (first + 1) count = seqsFrom first (count + 1) := by
  have hshift : ∀ i,
      first + 1 + UInt64.ofNat i = first + UInt64.ofNat (i + 1) := by
    intro i
    rw [UInt64.add_assoc, UInt64.ofNat_add, UInt64.add_comm 1]
    rfl
  rw [seqsFrom, seqsFrom, List.range_succ_eq_map, List.map_cons, List.map_map]
  exact congrArg₂ _ (UInt64.add_zero first).symm (List.map_congr_left
    fun i _ => hshift i)

theorem length_seqsFrom (first : UInt64) (count : ℕ) :
    (seqsFrom first count).length = count := by
  simp [seqsFrom]

/-- Numbers that do not go beyond the largest one increase. -/
theorem pairwise_seqsFrom {first : UInt64} {count : ℕ}
    (h : first.toNat + count ≤ 2 ^ 64) :
    (seqsFrom first count).Pairwise (· < ·) := by
  have hvalue : ∀ i < count,
      (first + UInt64.ofNat i).toNat = first.toNat + i := by
    intro i hi
    rw [UInt64.toNat_add, UInt64.toNat_ofNat', Nat.add_mod_mod]
    exact Nat.mod_eq_of_lt (by omega)
  refine List.pairwise_map.2
    (List.Pairwise.imp_of_mem ?_ List.pairwise_lt_range)
  intro i j hi hj hij
  rw [UInt64.lt_iff_toNat_lt, hvalue i (List.mem_range.1 hi),
    hvalue j (List.mem_range.1 hj)]
  exact Nat.add_lt_add_left hij _

/-- As many numbers as there are do not all increase. -/
theorem not_pairwise_seqsFrom {count : ℕ} (h : 2 ^ 64 ≤ count) :
    ¬ (seqsFrom 1 count).Pairwise (· < ·) := by
  obtain ⟨last, hlast, hpos, hzero⟩ :
      ∃ last, last < count ∧ 0 < last ∧ (1 : UInt64) + UInt64.ofNat last = 0 :=
    ⟨2 ^ 64 - 1, by omega, by decide, by decide⟩
  intro hpairwise
  have hlt := List.pairwise_iff_getElem.1 hpairwise 0 last
    (by rw [length_seqsFrom]; exact hpos.trans hlast) (by
      rw [length_seqsFrom]; exact hlast) hpos
  simp only [seqsFrom, List.getElem_map, List.getElem_range, hzero] at hlt
  exact absurd hlt (by decide)

/-- What the memory of the monitor says of the trace it has watched. -/
structure Tracked (first : UInt64) (trace : List Observation)
    (p : Exchange) : Prop where
  stopped : p.stopped = true ↔ HasStopped trace
  outstanding : p.stopped = false → p.outstanding = unacknowledged trace
  line : handedIn trace = departed trace ++ p.line
  numbered : ∃ count, decisionSeqs trace = seqsFrom first count ∧
    p.nextSeq = first + UInt64.ofNat count
  stage : p.stage.Counts (retries trace)

namespace Tracked

variable {first : UInt64} {trace : List Observation} {p : Exchange}
    {o : Observation}

theorem stopped_next (h : Tracked first trace p) (ho : p.Allows o) :
    (p.next o).stopped = true ↔ HasStopped (trace ++ [o]) := by
  rw [hasStopped_snoc, ← h.stopped]
  cases o with
  | received command =>
      cases command <;> simp [Exchange.next, Observation.Stops]
  | sent event =>
      cases event with
      | decision d =>
          obtain ⟨hrunning, -⟩ := ho
          simp [Exchange.next, Observation.Stops, hrunning]
      | _ => simp [Exchange.next, Observation.Stops]
  | _ => simp [Exchange.next, Observation.Stops]

theorem outstanding_next (h : Tracked first trace p)
    (hrunning : (p.next o).stopped = false) :
    (p.next o).outstanding = unacknowledged (trace ++ [o]) := by
  rw [unacknowledged_snoc]
  cases o with
  | received command =>
      cases command with
      | stop => simp [Exchange.next] at hrunning
      | _ => simp_all [Exchange.next, Observation.awaited, h.outstanding]
  | sent event =>
      cases event with
      | decision d => rfl
      | _ => exact h.outstanding hrunning
  | hungUp => simp [Exchange.next] at hrunning
  | cancelled => simp [Exchange.next] at hrunning
  | _ => exact h.outstanding hrunning

theorem line_next (h : Tracked first trace p) (ho : p.Allows o) :
    handedIn (trace ++ [o]) = departed (trace ++ [o]) ++ (p.next o).line := by
  rw [handedIn_snoc, departed_snoc, h.line, List.append_assoc,
    List.append_assoc,
    Exchange.line_next ho]

theorem numbered_next (h : Tracked first trace p) (ho : p.Allows o) :
    ∃ count, decisionSeqs (trace ++ [o]) = seqsFrom first count ∧
      (p.next o).nextSeq = first + UInt64.ofNat count := by
  obtain ⟨count, hseqs, hnext⟩ := h.numbered
  rw [decisionSeqs_snoc, hseqs]
  cases o with
  | sent event =>
      cases event with
      | decision d =>
          obtain ⟨-, -, hseq, -⟩ := ho
          refine ⟨count + 1, ?_, ?_⟩
          · rw [seqsFrom_succ, ← hnext, ← hseq]
            rfl
          · change p.nextSeq + 1 = _
            rw [hnext, UInt64.add_assoc, UInt64.ofNat_add]
            rfl
      | _ => exact ⟨count, List.append_nil _, hnext⟩
  | received command =>
      cases command with
      | _ => exact ⟨count, List.append_nil _, hnext⟩
  | _ => exact ⟨count, List.append_nil _, hnext⟩

theorem stage_next (h : Tracked first trace p) (ho : p.Allows o) :
    (p.next o).stage.Counts (retries (trace ++ [o])) := by
  have hstage := h.stage
  rw [retries_snoc]
  cases o with
  | takenUp conversation => exact ⟨rfl, Nat.zero_le _⟩
  | retried conversation =>
      obtain ⟨-, -, n, hn⟩ := ho
      rw [hn] at hstage
      change (p.stage.retry).Counts _
      rw [hn]
      exact hstage
  | rejected =>
      obtain ⟨-, n, hn⟩ := ho
      rw [hn] at hstage
      obtain ⟨hcount, hle⟩ := hstage
      change (p.stage.reject).Counts (retries trace)
      rw [hn, Stage.reject]
      split
      · exact ⟨congrArg (· + 1) hcount, ‹_›⟩
      · exact hcount.trans (le_antisymm hle (not_lt.1 ‹_›))
  | sent event =>
      cases event with
      | decision d => exact hstage.le
      | _ => exact hstage
  | cancelled => exact hstage.le
  | received command =>
      cases command with
      | handleUserPrompt text conversation => exact hstage.le
      | _ => exact hstage
  | answered conversation userTurn => exact hstage.le
  | _ => exact hstage

theorem of_watch
    (h : Monitor.watch Exchange.allow (Exchange.initial first) trace = some p) :
    Tracked first trace p := by
  refine Monitor.watch_induction ?_ ?_ h
  · refine ⟨?_, fun _ => rfl, rfl, ⟨0, rfl, ?_⟩, Nat.zero_le _⟩
    · simp [Exchange.initial, HasStopped]
    · exact (UInt64.add_zero first).symm
  · intro trace p o q htracked hq
    obtain ⟨ho, rfl⟩ := Exchange.allow_eq_some.1 hq
    exact
      { stopped := htracked.stopped_next ho
        outstanding := htracked.outstanding_next
        line := htracked.line_next ho
        numbered := htracked.numbered_next ho
        stage := htracked.stage_next ho }

end Tracked

/-! ## Orderly traces -/

/-- What the protocol promises of a trace, said at each of its places: `before`
is what has been observed up to there. -/
structure Orderly (first : UInt64) (trace : List Observation) : Prop where
  /-- no decision is sent while another one lacks its ack -/
  acknowledged : ∀ before decision later,
    trace = before ++ .sent (.decision decision) :: later →
      unacknowledged before = none
  /-- the decisions are numbered one after another -/
  numbered : ∃ count, decisionSeqs trace = seqsFrom first count
  /-- the oldest of those that wait is taken up, and only if no decision lacks
  its ack -/
  takesOldest : ∀ before conversation later,
    trace = before ++ .takenUp conversation :: later →
      unacknowledged before = none ∧
        ∃ rest, handedIn before = departed before ++ conversation :: rest
  /-- only the oldest of more than 24 is dropped -/
  dropsOldest : ∀ before conversation later,
    trace = before ++ .dropped conversation :: later →
      ∃ rest, handedIn before = departed before ++ conversation :: rest ∧
        maxQueuedConversationUpdates < (conversation :: rest).length
  /-- nothing is left over before the loop stops -/
  discards : ∀ before conversation later,
    trace = before ++ .discarded conversation :: later → HasStopped before
  /-- a stopped loop takes nothing up, receives nothing and decides nothing -/
  ended : ∀ before o later, trace = before ++ o :: later → HasStopped before →
    (∃ conversation, o = .discarded conversation) ∨
      ∃ event, o = .sent event ∧ o.decisionSeq = none
  /-- nothing waits where the loop receives a command and no decision lacks its
  ack -/
  idle : ∀ before o later, trace = before ++ o :: later →
    o = .hungUp ∨ (∃ command, o = .received command) →
    unacknowledged before = none →
      handedIn before = departed before
  /-- no conversation is retried too often -/
  retried : ∀ before later, trace = before ++ later →
    retries before ≤ maxDecisionRecoveryAttempts
  /-- a recoverable failure after the last retry gives a failed decision -/
  exhausted : ∀ before later, trace = before ++ .rejected :: later →
    retries before = maxDecisionRecoveryAttempts →
      ∃ decision rest, later = .sent (.decision decision) :: rest ∧
        decision.status = .failed
  /-- a user prompt is answered at once -/
  prompted : ∀ before text conversation later,
    trace = before ++ .received (.handleUserPrompt text conversation) :: later →
      ∃ userTurn rest, later = .answered conversation userTurn :: rest

section Orderly

variable {first : UInt64} {trace : List Observation} {p : Exchange}

/-- What the monitor allows after too many failures. -/
theorem Exchange.Allows.failing {o : Observation} (ho : p.Allows o)
    (hp : p.stage = .failing) :
    ∃ decision, o = .sent (.decision decision) ∧ decision.status = .failed := by
  cases o with
  | sent event =>
      cases event with
      | decision d => exact ⟨d, rfl, ho.2.2.2.2 hp⟩
      | _ => simp [Exchange.Allows, hp, Stage.Free] at ho
  | _ => simp [Exchange.Allows, hp, Stage.Free] at ho

theorem Exchange.Allows.prompted {o : Observation} (ho : p.Allows o)
    {conversation : Conversation} (hp : p.stage = .prompted conversation) :
    ∃ userTurn, o = .answered conversation userTurn := by
  cases o with
  | answered answeredConversation userTurn =>
      rw [Stage.prompted.inj (hp.symm.trans ho.2)]
      exact ⟨userTurn, rfl⟩
  | sent event =>
      cases event with
      | decision d => simp [Exchange.Allows, hp, Stage.Decides] at ho
      | _ => simp [Exchange.Allows, hp, Stage.Free] at ho
  | _ => simp [Exchange.Allows, hp, Stage.Free] at ho

theorem Exchange.Allows.stopped {o : Observation} (ho : p.Allows o)
    (hp : p.stopped = true) :
    (∃ conversation, o = .discarded conversation) ∨
      ∃ event, o = .sent event ∧ o.decisionSeq = none := by
  cases o with
  | discarded conversation => exact Or.inl ⟨conversation, rfl⟩
  | sent event =>
      cases event with
      | decision d => simp [Exchange.Allows, hp] at ho
      | _ => exact Or.inr ⟨_, rfl, rfl⟩
  | _ => simp [Exchange.Allows, hp] at ho

theorem watch_place
    (h : Monitor.watch Exchange.allow (Exchange.initial first) trace = some p)
    {before later : List Observation} {o : Observation}
    (htrace : trace = before ++ o :: later) :
    ∃ m, Tracked first before m ∧ m.Allows o ∧
      Monitor.watch Exchange.allow (m.next o) later = some p := by
  rw [htrace] at h
  obtain ⟨m, q, hbefore, hq, hlater⟩ := Monitor.watch_split h
  obtain ⟨ho, rfl⟩ := Exchange.allow_eq_some.1 hq
  exact ⟨m, Tracked.of_watch hbefore, ho, hlater⟩

theorem watch_ahead {m : Exchange} {later : List Observation}
    (h : Monitor.watch Exchange.allow m later = some p) (hp : p.stage.Free)
    (hm : ¬ m.stage.Free) : ∃ o rest, later = o :: rest ∧ m.Allows o := by
  cases later with
  | nil =>
      cases h
      exact absurd hp hm
  | cons o rest =>
      rw [Monitor.watch_cons] at h
      obtain ⟨q, hq, -⟩ := Option.bind_eq_some_iff.1 h
      exact ⟨o, rest, rfl, (Exchange.allow_eq_some.1 hq).1⟩

theorem Tracked.oldest (h : Tracked first trace p) {conversation : Conversation}
    (hhead : p.line.head? = some conversation) :
    p.line = conversation :: p.line.tail ∧
      handedIn trace = departed trace ++ conversation :: p.line.tail := by
  have hline : conversation :: p.line.tail = p.line :=
    List.cons_head?_tail hhead
  exact ⟨hline.symm, hline.symm ▸ h.line⟩

theorem Tracked.failing_next (h : Tracked first trace p)
    (ho : p.Allows .rejected)
    (hretries : retries trace = maxDecisionRecoveryAttempts) :
    (p.next .rejected).stage = .failing := by
  obtain ⟨-, n, hn⟩ := ho
  have hstage := h.stage
  rw [hn, hretries] at hstage
  change p.stage.reject = _
  rw [hn, Stage.reject, if_neg (not_lt.2 hstage.1.le)]

/-- Where a command is received, nothing waits unless a decision lacks its
ack. -/
theorem Tracked.idle_of_allows {o : Observation} (h : Tracked first trace p)
    (ho : p.Allows o)
    (hreceive : o = .hungUp ∨ ∃ command, o = .received command)
    (hacked : unacknowledged trace = none) :
    handedIn trace = departed trace := by
  have hallowed : p.stopped = false ∧ (p.outstanding = none → p.line = []) := by
    obtain rfl | ⟨command, rfl⟩ := hreceive
    · exact ⟨ho.1, ho.2.2⟩
    · exact ⟨ho.1, ho.2.2⟩
  have hline := hallowed.2 ((h.outstanding hallowed.1).trans hacked)
  rw [h.line, hline, List.append_nil]

theorem orderly_of_watch
    (h : Monitor.watch Exchange.allow (Exchange.initial first) trace = some p)
    (hp : p.stage.Free) : Orderly first trace where
  acknowledged := by
    intro before decision later htrace
    obtain ⟨m, hm, ⟨hrunning, hnone, -⟩, -⟩ := watch_place h htrace
    exact (hm.outstanding hrunning).symm.trans hnone
  numbered := by
    obtain ⟨count, hcount, -⟩ := (Tracked.of_watch h).numbered
    exact ⟨count, hcount⟩
  takesOldest := by
    intro before conversation later htrace
    obtain ⟨m, hm, ⟨hrunning, hnone, -, hhead⟩, -⟩ := watch_place h htrace
    exact ⟨(hm.outstanding hrunning).symm.trans hnone, _, (hm.oldest hhead).2⟩
  dropsOldest := by
    intro before conversation later htrace
    obtain ⟨m, hm, ⟨-, -, hhead, hlong⟩, -⟩ := watch_place h htrace
    obtain ⟨hline, hbefore⟩ := hm.oldest hhead
    exact ⟨_, hbefore, hline ▸ hlong⟩
  discards := by
    intro before conversation later htrace
    obtain ⟨m, hm, ⟨hstopped, -⟩, -⟩ := watch_place h htrace
    exact hm.stopped.1 hstopped
  ended := by
    intro before o later htrace hstopped
    obtain ⟨m, hm, ho, -⟩ := watch_place h htrace
    exact ho.stopped (hm.stopped.2 hstopped)
  idle := by
    intro before o later htrace hreceive hacked
    obtain ⟨m, hm, ho, -⟩ := watch_place h htrace
    exact hm.idle_of_allows ho hreceive hacked
  retried := by
    intro before later htrace
    rw [htrace, Monitor.watch_append] at h
    obtain ⟨m, hm, -⟩ := Option.bind_eq_some_iff.1 h
    exact (Tracked.of_watch hm).stage.le
  exhausted := by
    intro before later htrace hretries
    obtain ⟨m, hm, ho, hlater⟩ := watch_place h htrace
    have hfailing := hm.failing_next ho hretries
    obtain ⟨o, rest, rfl, ho⟩ :=
      watch_ahead hlater hp (by simp [hfailing, Stage.Free])
    obtain ⟨d, rfl, hfailed⟩ := ho.failing hfailing
    exact ⟨d, rest, rfl, hfailed⟩
  prompted := by
    intro before text conversation later htrace
    obtain ⟨m, hm, -, hlater⟩ := watch_place h htrace
    obtain ⟨o, rest, rfl, ho⟩ := watch_ahead hlater hp id
    obtain ⟨userTurn, rfl⟩ := ho.prompted rfl
    exact ⟨userTurn, rest, rfl⟩

end Orderly

end CodeRs.AutoDrive
