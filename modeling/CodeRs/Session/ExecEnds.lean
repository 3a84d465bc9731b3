import CodeRs.Lib.Debts
import CodeRs.Session.RunningExecs

/-!
# The ends of execs

Every exec has one end event, as long as only execs that an abort has cancelled
are ended by others, and these do not go on.  The end event of an exec is
claimed by its own end or by the flag `end_emitted`, and whoever sets the flag
owes the event.
-/

namespace CodeRs.Session

variable {ι : Type} {calls : ι → ExecCall}

/-! ## What should hold -/

def ExecEvent.exec : ExecEvent ι → ι
  | begun e => e
  | ended e _ => e
  | synthetic e _ => e

def ExecEvent.isBegin : ExecEvent ι → Bool
  | begun _ => true
  | _ => false

/-- The call that a message ends. -/
def ExecMsg.endOf : ExecMsg → Option String
  | execCommandEnd callId _ _ _ => some callId
  | patchApplyEnd callId _ _ _ => some callId
  | _ => none

/-- The exec whose end event a call has taken and not sent yet. -/
def ExecPhase.owes (e : ι) : ExecPhase ι → Option ι
  | swapped x _ => some x
  | dropSwapped => some e
  | _ => none

/-- The exec whose end event a call is about to take. -/
def ExecPhase.takes : ExecPhase ι → Option ι
  | flagged x _ => some x
  | _ => none

/-- The execs that a call still has to end. -/
def ExecPhase.targets : ExecPhase ι → List ι
  | finalizing toEmit => toEmit
  | flagged x toEmit => x :: toEmit
  | swapped x toEmit => x :: toEmit
  | _ => []

/-- The end of the exec is taken care of. -/
def ExecPhase.settled : ExecPhase ι → Bool
  | absent | tracked | running | ended | dropped => false
  | _ => true

namespace ExecSession

section Specification

variable [DecidableEq ι] (s : ExecSession calls)

/-- The number of end events of an exec. -/
def ends (e : ι) : ℕ :=
  s.events.countP fun event => event.exec = e ∧ event.isBegin = false

/-- The future of an exec has returned or is dropped, and nobody is about to
send its end. -/
def Over (e : ι) : Prop := s.phase e = .over ∧ ∀ f, (s.phase f).owes f ≠ some e

/-- No exec has a second end, and each that is over has one, also among the
events with its call id where no other exec has that.  No end comes before a
begin, and only an exec that an abort has cancelled is said to be cancelled. -/
structure EndsOnce : Prop where
  atMostOnce : ∀ e, s.ends e ≤ 1
  once : ∀ e, s.Over e → s.ends e = 1
  onceForCallId : ∀ e, s.Over e →
    (∀ x, s.phase x ≠ .absent → (calls x).callId = (calls e).callId → x = e) →
    (s.events.countP fun event => (event.event calls).msg.endOf =
      some (calls e).callId) = 1
  ordered : s.events.Pairwise fun earlier later =>
    earlier.isBegin = false → earlier.exec = later.exec → later.isBegin = false
  cancelled : ∀ e, .synthetic e true ∈ s.events → s.aborted e = true

/-- An exec that completes finds only cancelled ones to end.  An exec whose end
another one has taken does not begin or end any more, and is not just ending. -/
def EndsOnlyCancelled : ExecTurn ι → Prop
  | .proceed e =>
      (s.phase e = .tracked → s.endEmitted e = false) ∧
        ∀ x ∈ (s.phase e).takes, s.phase x ≠ .ended
  | .finish e _ => s.phase e = .running → s.endEmitted e = false
  | .finalize e _ =>
      s.phase e = .unregistered → ∀ x ∈ s.unended (calls e).subId,
        s.aborted x = true
  | _ => True

instance EndsOnlyCancelled.instDecidable : (turn : ExecTurn ι) →
    Decidable (s.EndsOnlyCancelled turn)
  | .proceed e =>
      inferInstanceAs
        (Decidable ((s.phase e = .tracked → s.endEmitted e = false) ∧
        ∀ x ∈ (s.phase e).takes, s.phase x ≠ .ended))
  | .finish e _ =>
      inferInstanceAs (Decidable (s.phase e = .running →
        s.endEmitted e = false))
  | .finalize e _ =>
      inferInstanceAs (Decidable (s.phase e = .unregistered →
        ∀ x ∈ s.unended (calls e).subId, s.aborted x = true))
  | .enter _ | .drop _ | .abort | .mark _ => .isTrue trivial

end Specification

/-! ## What a step can do -/

section Steps

variable {s s' : ExecSession calls} [DecidableEq ι]

/-- The steps that change something. -/
inductive Step (s : ExecSession calls) :
    ExecTurn ι → ExecSession calls → Prop where
  | enter {e : ι} (h : s.phase e = .absent) :
      Step s (.enter e) ((s.trackRunningExec e).goto e .tracked)
  | begin {e : ι} (h : s.phase e = .tracked) :
      Step s (.proceed e) ((s.send (.begun e)).goto e .running)
  | finish {e : ι} {output : ExecToolCallOutput} (h : s.phase e = .running) :
      Step s (.finish e output) ((s.send (.ended e output)).goto e .ended)
  | store {e : ι} (h : s.phase e = .ended) :
      Step s (.proceed e) ((s.setEndEmitted e).goto e .endStored)
  | unregister {e : ι} (h : s.phase e = .endStored) :
      Step s (.proceed e)
        ((s.unregisterRunningExec (calls e).callId).goto e .unregistered)
  | finalize {e : ι} {toEmit : List ι} (h : s.phase e = .unregistered)
      (hperm : toEmit.Perm (s.unended (calls e).subId)) :
      Step s (.finalize e toEmit)
        ((s.takeUnended toEmit).goto e (.finalizing toEmit))
  | finalized {e : ι} (h : s.phase e = .finalizing []) :
      Step s (.proceed e) (s.goto e .completed)
  | flag {e x : ι} {toEmit : List ι} (h : s.phase e =
    .finalizing (x :: toEmit)) :
      Step s (.proceed e) ((s.setCancelFlag x).goto e (.flagged x toEmit))
  | skip {e x : ι} {toEmit : List ι} (h : s.phase e = .flagged x toEmit)
      (hend : s.endEmitted x =
        true) : Step s (.proceed e) (s.goto e (.finalizing toEmit))
  | swap {e x : ι} {toEmit : List ι} (h : s.phase e = .flagged x toEmit)
      (hend : s.endEmitted x = false) :
      Step s (.proceed e) ((s.setEndEmitted x).goto e (.swapped x toEmit))
  | emit {e x : ι} {toEmit : List ι} (h : s.phase e = .swapped x toEmit) :
      Step s (.proceed e)
        ((s.send (.synthetic x true)).goto e (.finalizing toEmit))
  | leave {e : ι} (h : s.phase e = .completed) :
      Step s (.proceed e)
        ((s.unregisterRunningExec (calls e).callId).goto e .over)
  | drop {e : ι} (h : s.phase e = .tracked ∨ s.phase e = .running) :
      Step s (.drop e)
        ((s.unregisterRunningExec (calls e).callId).goto e .dropped)
  | dropSkip {e : ι} (h : s.phase e = .dropped) (hend : s.endEmitted e = true) :
      Step s (.proceed e) (s.goto e .over)
  | dropSwap {e : ι} (h : s.phase e =
    .dropped) (hend : s.endEmitted e = false) :
      Step s (.proceed e) ((s.setEndEmitted e).goto e .dropSwapped)
  | dropEmit {e : ι} (h : s.phase e = .dropSwapped) :
      Step s (.proceed e)
        ((s.send (.synthetic e (s.cancelFlag e))).goto e .over)
  | abort :
      Step s .abort
        { s with
          subIds := s.subIds ++
            s.runningExecs.values.map fun e => (calls e).subId }
  | mark {subId : String} (h : subId ∈ s.subIds) :
      Step s (.mark subId)
        { s.markRunningExecAsCancelled subId with
          subIds := s.subIds.erase subId }

theorem step_proceed (s : ExecSession calls) (e : ι) :
    s.proceed e = s ∨ s.Step (.proceed e) (s.proceed e) := by
  cases h : s.phase e with
  | tracked => exact .inr (by simpa [proceed, h] using Step.begin h)
  | ended => exact .inr (by simpa [proceed, h] using Step.store h)
  | endStored => exact .inr (by simpa [proceed, h] using Step.unregister h)
  | finalizing toEmit =>
      cases toEmit with
      | nil => exact .inr (by simpa [proceed, h] using Step.finalized h)
      | cons x toEmit => exact .inr (by simpa [proceed, h] using Step.flag h)
  | flagged x toEmit =>
      cases hend : s.endEmitted x with
      | true => exact .inr (by simpa [proceed, h, hend] using Step.skip h hend)
      | false => exact .inr (by simpa [proceed, h, hend] using Step.swap h hend)
  | swapped x toEmit => exact .inr (by simpa [proceed, h] using Step.emit h)
  | completed => exact .inr (by simpa [proceed, h] using Step.leave h)
  | dropped =>
      cases hend : s.endEmitted e with
      | true =>
          exact .inr (by simpa [proceed, h, hend] using Step.dropSkip h hend)
      | false =>
          exact .inr (by simpa [proceed, h, hend] using Step.dropSwap h hend)
  | dropSwapped => exact .inr (by simpa [proceed, h] using Step.dropEmit h)
  | _ => exact .inl (by simp [proceed, h])

theorem step_next (s : ExecSession calls) (turn : ExecTurn ι) :
    s.next turn = s ∨ s.Step turn (s.next turn) := by
  cases turn with
  | proceed e => exact step_proceed s e
  | abort => exact .inr .abort
  | enter e =>
      by_cases h : s.phase e = .absent
      · exact .inr (by simpa [next, h] using Step.enter h)
      · exact .inl (by simp [next, h])
  | finish e output =>
      by_cases h : s.phase e = .running
      · exact .inr (by simpa [next, h] using Step.finish h)
      · exact .inl (by simp [next, h])
  | finalize e toEmit =>
      by_cases h : s.phase e = .unregistered ∧
        toEmit.Perm (s.unended (calls e).subId)
      · rw [next, if_pos h]
        exact .inr (.finalize h.1 h.2)
      · exact .inl (by rw [next, if_neg h])
  | drop e =>
      by_cases h : s.phase e = .tracked ∨ s.phase e = .running
      · rw [next, if_pos h]
        exact .inr (.drop h)
      · exact .inl (by rw [next, if_neg h])
  | mark subId =>
      by_cases h : subId ∈ s.subIds
      · rw [next, if_pos h]
        exact .inr (.mark h)
      · exact .inl (by rw [next, if_neg h])

/-! ## What a step changes -/

variable {turn : ExecTurn ι} {e x f : ι} {p : ExecPhase ι}

theorem known_goto (hp : p ≠ .absent) (hx : s.phase x ≠ .absent) :
    (s.goto e p).phase x ≠ .absent := by
  by_cases hxe : x = e
  · rw [hxe]
    simpa [goto] using hp
  · simpa [goto, hxe] using hx

theorem Step.known (h : s.Step turn s') (hx : s.phase x ≠ .absent) :
    s'.phase x ≠ .absent := by
  cases h with
  | abort => exact hx
  | mark _ => exact hx
  | _ => exact known_goto nofun hx

theorem targets_goto (hp : ∀ x ∈ p.targets, x ∈ (s.phase e).targets)
    (hx : x ∈ ((s.goto e p).phase f).targets) : x ∈ (s.phase f).targets := by
  by_cases hfe : f = e
  · subst hfe
    exact hp x (by simpa [goto] using hx)
  · simpa [goto, hfe] using hx

/-- A call ends only the execs that it has found. -/
theorem Step.targets (h : s.Step turn s') (hx : x ∈ (s'.phase f).targets) :
    x ∈ (s.phase f).targets ∨
      ∃ e toEmit, turn = .finalize e toEmit ∧ s.phase e = .unregistered ∧
        x ∈ s.unended (calls e).subId := by
  cases h with
  | abort => exact .inl hx
  | mark _ => exact .inl hx
  | @finalize e toEmit hphase hperm =>
      by_cases hfe : f = e
      · subst hfe
        refine .inr ⟨f, toEmit, rfl, hphase, hperm.mem_iff.1 ?_⟩
        simpa [goto, ExecPhase.targets] using hx
      · refine .inl ?_
        simpa [goto, takeUnended, hfe] using hx
  | flag h | skip h | swap h | emit h =>
      refine .inl (targets_goto ?_ hx)
      intro y hy
      rw [h]
      simp_all [ExecPhase.targets]
  | _ => exact .inl (targets_goto (fun y hy => absurd hy List.not_mem_nil) hx)

omit [DecidableEq ι] in
theorem mem_takeUnended {toEmit : List ι}
    (hx : x ∈ (s.takeUnended toEmit).runningExecs.values) :
    x ∈ s.runningExecs.values := by
  rw [takeUnended] at hx
  generalize s.runningExecs = execs at hx ⊢
  induction toEmit generalizing execs with
  | nil => exact hx
  | cons y toEmit ih => exact (Keyed.mem_remove.1 (ih _ hx)).1

theorem Step.registered (h : s.Step turn s') (hx : x ∈ s'.runningExecs.values) :
    x ∈ s.runningExecs.values ∨ s'.phase x ≠ .absent := by
  cases h with
  | @enter e _ =>
      obtain rfl | ⟨hx, -⟩ := Keyed.mem_insert.1 hx
      · exact .inr (by simp [goto])
      · exact .inl hx
  | finalize _ _ => exact .inl (mem_takeUnended hx)
  | unregister _ | leave _ | drop _ => exact .inl (Keyed.mem_remove.1 hx).1
  | _ => exact .inl hx

theorem Step.aborted (h : s.Step turn s') (hx : s.aborted x = true) :
    s'.aborted x = true := by
  cases h with
  | mark _ => exact Bool.or_eq_true_iff.2 (.inl hx)
  | _ => exact hx

/-- A cancel flag is set by an abort or by a call that ends the exec. -/
theorem Step.cancelFlag (h : s.Step turn s') (hx : s'.cancelFlag x = true) :
    s.cancelFlag x = true ∨ s'.aborted x = true ∨
      ∃ f, x ∈ (s.phase f).targets := by
  cases h with
  | mark _ =>
      obtain hx | hx := Bool.or_eq_true_iff.1 hx
      · exact .inl hx
      · exact .inr (.inl (Bool.or_eq_true_iff.2 (.inr hx)))
  | @flag e y toEmit hphase =>
      by_cases hxy : x = y
      · refine .inr (.inr ⟨e, ?_⟩)
        rw [hphase, hxy]
        exact List.mem_cons_self
      · refine .inl ?_
        simpa [goto, setCancelFlag, hxy] using hx
  | _ => exact .inl hx

/-- An event is sent by a call at the phase that sends it. -/
inductive Sends (s : ExecSession calls) : ExecTurn ι → ExecEvent ι → Prop where
  | begun {e : ι} (h : s.phase e = .tracked) : Sends s (.proceed e) (.begun e)
  | ended {e : ι} {output : ExecToolCallOutput} (h : s.phase e = .running) :
      Sends s (.finish e output) (.ended e output)
  | other {e x : ι} {toEmit : List ι} (h : s.phase e = .swapped x toEmit) :
      Sends s (.proceed e) (.synthetic x true)
  | dropped {e : ι} (h : s.phase e = .dropSwapped) :
      Sends s (.proceed e) (.synthetic e (s.cancelFlag e))

theorem Step.events (h : s.Step turn s') :
    s'.events = s.events ∨ ∃ event, s'.events = s.events ++ [event] ∧
      s.Sends turn event := by
  cases h with
  | begin h => exact .inr ⟨_, rfl, .begun h⟩
  | finish h => exact .inr ⟨_, rfl, .ended h⟩
  | emit h => exact .inr ⟨_, rfl, .other h⟩
  | dropEmit h => exact .inr ⟨_, rfl, .dropped h⟩
  | _ => exact .inl rfl

theorem settled_goto
    (hs : ∀ x, (s.phase x).settled = true → s.endEmitted x = true)
    (hp : p.settled = true → s.endEmitted e = true)
    (hx : ((s.goto e p).phase x).settled = true) :
    (s.goto e p).endEmitted x = true := by
  by_cases hxe : x = e
  · subst hxe
    exact hp (by simpa [goto] using hx)
  · exact hs x (by simpa [goto, hxe] using hx)

theorem settled_setEndEmitted
    (hs : ∀ x, (s.phase x).settled = true → s.endEmitted x = true)
    (y : ι) (hx : ((s.setEndEmitted y).phase x).settled = true) :
    (s.setEndEmitted y).endEmitted x = true := by
  by_cases hxy : x = y
  · simp [setEndEmitted, hxy]
  · simpa [setEndEmitted, hxy] using hs x hx

/-- Where the end of an exec is taken care of, its flag is set. -/
theorem Step.settled (h : s.Step turn s')
    (hs : ∀ x, (s.phase x).settled = true → s.endEmitted x = true)
    (hx : (s'.phase x).settled = true) : s'.endEmitted x = true := by
  cases h with
  | abort | mark _ => exact hs x hx
  | enter _ | begin _ | finish _ | drop _ => exact settled_goto hs nofun hx
  | @store e _ | @dropSwap e _ _ =>
      refine settled_goto (fun y => settled_setEndEmitted hs e) ?_ hx
      intro _
      simp [setEndEmitted]
  | @swap e y _ hphase _ =>
      refine settled_goto (fun x => settled_setEndEmitted hs y) ?_ hx
      intro _
      exact settled_setEndEmitted hs y (congrArg ExecPhase.settled hphase)
  | dropSkip _ hend => exact settled_goto hs (fun _ => hend) hx
  | unregister hphase | finalize hphase _ | finalized hphase
  | flag hphase | skip hphase _
  | emit hphase | leave hphase | dropEmit hphase =>
      exact settled_goto hs
        (fun _ => hs _ (congrArg ExecPhase.settled hphase)) hx

/-! ## The ledger -/

/-- Whose end is claimed, the ends that are sent, and who has to send one. -/
def ledger (s : ExecSession calls) : Ledger ι ι where
  claimed := {e | s.endEmitted e = true ∨ s.phase e = .ended}
  paid := s.ends
  debt f := (s.phase f).owes f

theorem ledger_goto (he : s.phase e ≠ .ended ∨ s.endEmitted e = true)
    (hp : p ≠ .ended) :
    (s.goto e p).ledger =
      { s.ledger with debt := Function.update s.ledger.debt e (p.owes e) } := by
  have hclaimed : (s.goto e p).ledger.claimed = s.ledger.claimed := by
    ext x
    change s.endEmitted x = true ∨ Function.update s.phase e p x = .ended ↔
      s.endEmitted x = true ∨ s.phase x = .ended
    by_cases hxe : x = e
    · subst hxe
      rw [Function.update_self]
      tauto
    · rw [Function.update_of_ne hxe]
  have hdebt : (s.goto e p).ledger.debt =
      Function.update s.ledger.debt e (p.owes e) := by
    funext f
    change (Function.update s.phase e p f).owes f = _
    by_cases hfe : f = e
    · subst hfe
      rw [Function.update_self, Function.update_self]
    · rw [Function.update_of_ne hfe, Function.update_of_ne hfe]
      rfl
  exact Ledger.ext hclaimed rfl hdebt

/-- A call that does not come to owe anything changes nothing. -/
theorem ledger_advance {q : ExecPhase ι} (hphase : s.phase e = q)
    (hq : q ≠ .ended ∨ s.endEmitted e = true) (hp : p ≠ .ended)
    (howes : p.owes e = q.owes e) :
    (s.goto e p).ledger = s.ledger := by
  subst hphase
  rw [ledger_goto hq hp, howes]
  exact Ledger.ext rfl rfl (Function.update_eq_self e s.ledger.debt)

theorem ledger_goto_ended (hphase : s.phase e = .running) :
    (s.goto e .ended).ledger =
      { s.ledger with claimed := insert e s.ledger.claimed } := by
  have hclaimed :
      (s.goto e .ended).ledger.claimed = insert e s.ledger.claimed := by
    ext x
    change s.endEmitted x = true ∨ Function.update s.phase e .ended x = .ended ↔
      x = e ∨ s.endEmitted x = true ∨ s.phase x = .ended
    by_cases hxe : x = e
    · simp [hxe]
    · simp [hxe]
  have hdebt : (s.goto e .ended).ledger.debt = s.ledger.debt := by
    funext f
    change (Function.update s.phase e .ended f).owes f = (s.phase f).owes f
    by_cases hfe : f = e
    · rw [hfe, Function.update_self, hphase]
      rfl
    · rw [Function.update_of_ne hfe]
  exact Ledger.ext hclaimed rfl hdebt

theorem ledger_setEndEmitted :
    (s.setEndEmitted x).ledger =
      { s.ledger with claimed := insert x s.ledger.claimed } := by
  have hclaimed :
      (s.setEndEmitted x).ledger.claimed = insert x s.ledger.claimed := by
    ext y
    change Function.update s.endEmitted x true y = true ∨ s.phase y = .ended ↔
      y = x ∨ s.endEmitted y = true ∨ s.phase y = .ended
    by_cases hyx : y = x
    · simp [hyx]
    · simp [hyx]
  exact Ledger.ext hclaimed rfl rfl

theorem ends_send (event : ExecEvent ι) :
    (s.send event).ends x =
      s.ends x + if event.exec = x ∧ event.isBegin = false then 1 else 0 := by
  rw [ends, send, List.countP_append, List.countP_singleton]
  simp [ends]

theorem ledger_send {event : ExecEvent ι} (hevent : event.isBegin = false) :
    (s.send event).ledger =
      { s.ledger with
        paid := Function.update s.ledger.paid event.exec
          (s.ledger.paid event.exec + 1) } := by
  have hpaid : (s.send event).ledger.paid =
      Function.update s.ledger.paid event.exec
        (s.ledger.paid event.exec + 1) := by
    funext x
    change (s.send event).ends x = _
    rw [ends_send]
    by_cases hx : x = event.exec
    · subst hx
      rw [Function.update_self, if_pos ⟨rfl, hevent⟩]
      rfl
    · rw [Function.update_of_ne hx, if_neg fun h => hx h.1.symm]
      rfl
  exact Ledger.ext rfl hpaid rfl

theorem ledger_send_begun : (s.send (.begun e)).ledger = s.ledger := by
  have hpaid : (s.send (.begun e)).ledger.paid = s.ledger.paid := by
    funext x
    change (s.send (.begun e)).ends x = s.ends x
    rw [ends_send, if_neg]
    · rfl
    · rintro ⟨-, h⟩
      cases h
  exact Ledger.ext rfl hpaid rfl

theorem next_owe {q : ExecPhase ι} (hphase : s.phase e = q) (hq : q ≠ .ended)
    (hp : p ≠ .ended) (hbefore : q.owes e = none) (howes : p.owes e = some x)
    (hunclaimed : x ∉ s.ledger.claimed) :
    Ledger.Next s.ledger ((s.setEndEmitted x).goto e p).ledger := by
  subst hphase
  have hgoto := ledger_goto (s := s.setEndEmitted x) (.inl hq) hp
  rw [ledger_setEndEmitted, howes] at hgoto
  rw [hgoto]
  exact .owe hunclaimed hbefore

theorem next_pay {event : ExecEvent ι} (hevent : event.isBegin = false)
    {q : ExecPhase ι}
    (hphase : s.phase e = q) (hq : q ≠ .ended) (hp : p ≠ .ended)
    (hbefore : q.owes e = some event.exec) (howes : p.owes e = none) :
    Ledger.Next s.ledger ((s.send event).goto e p).ledger := by
  subst hphase
  have hgoto := ledger_goto (s := s.send event) (.inl hq) hp
  rw [ledger_send hevent, howes] at hgoto
  rw [hgoto]
  exact .pay hbefore

/-- An admitted step claims an end and sends it, claims it and owes it, sends
what it owes, or does none of this. -/
theorem Step.ledger (h : s.Step turn s') (hok : s.EndsOnlyCancelled turn) :
    s'.ledger = s.ledger ∨ Ledger.Next s.ledger s'.ledger := by
  cases h with
  | abort | mark _ => exact .inl rfl
  | @enter e hphase =>
      exact .inl
        (ledger_advance (s := s.trackRunningExec e) hphase (.inl nofun) nofun
          rfl)
  | @begin e hphase =>
      have hgoto :=
        ledger_advance (s := s.send (.begun e)) (p := .running)
          hphase (.inl nofun)
          nofun rfl
      exact .inl (hgoto.trans ledger_send_begun)
  | @finish e output hphase =>
      have hunclaimed : e ∉ s.ledger.claimed := by
        rintro (hend | hended)
        · rw [hok hphase] at hend
          cases hend
        · rw [hphase] at hended
          cases hended
      have hgoto := ledger_goto_ended (s := s.send (.ended e output)) hphase
      rw [ledger_send rfl] at hgoto
      rw [hgoto]
      exact .inr (.settle hunclaimed)
  | @store e hphase =>
      have hend : (s.setEndEmitted e).endEmitted e = true :=
        Function.update_self ..
      have hgoto :=
        ledger_advance (s := s.setEndEmitted e) (p := .endStored)
          hphase (.inr hend)
          nofun rfl
      rw [ledger_setEndEmitted, Set.insert_eq_of_mem (.inr hphase)] at hgoto
      exact .inl hgoto
  | @unregister e hphase =>
      exact .inl
        (ledger_advance (s := s.unregisterRunningExec _) hphase
          (.inl nofun) nofun rfl)
  | @finalize e toEmit hphase _ =>
      exact .inl
        (ledger_advance (s := s.takeUnended toEmit) hphase
          (.inl nofun) nofun rfl)
  | finalized hphase =>
      exact .inl (ledger_advance hphase (.inl nofun) nofun rfl)
  | @flag e x _ hphase =>
      exact .inl
        (ledger_advance (s := s.setCancelFlag x) hphase (.inl nofun) nofun rfl)
  | skip hphase _ => exact .inl (ledger_advance hphase (.inl nofun) nofun rfl)
  | @swap e x toEmit hphase hend =>
      have hunclaimed : x ∉ s.ledger.claimed := by
        rintro (hset | hended)
        · rw [hend] at hset
          cases hset
        · exact hok.2 x (by rw [hphase]; rfl) hended
      exact .inr (next_owe hphase nofun nofun rfl rfl hunclaimed)
  | @emit e x toEmit hphase =>
      exact .inr (next_pay rfl hphase nofun nofun rfl rfl)
  | @leave e hphase =>
      exact .inl
        (ledger_advance (s := s.unregisterRunningExec _) hphase
          (.inl nofun) nofun rfl)
  | @drop e hphase =>
      obtain hphase | hphase := hphase
      · exact .inl
          (ledger_advance (s := s.unregisterRunningExec _) hphase
            (.inl nofun) nofun rfl)
      · exact .inl
          (ledger_advance (s := s.unregisterRunningExec _) hphase
            (.inl nofun) nofun rfl)
  | dropSkip hphase _ =>
      exact .inl (ledger_advance hphase (.inl nofun) nofun rfl)
  | @dropSwap e hphase hend =>
      have hunclaimed : e ∉ s.ledger.claimed := by
        rintro (hset | hended)
        · rw [hend] at hset
          cases hset
        · rw [hphase] at hended
          cases hended
      exact .inr (next_owe hphase nofun nofun rfl rfl hunclaimed)
  | @dropEmit e hphase =>
      exact .inr (next_pay rfl hphase nofun nofun rfl rfl)

/-! ## The invariant -/

/-- What only aborted execs are in, and that the ends are sent in order and
paid once. -/
structure Inv (s : ExecSession calls) : Prop where
  registered : ∀ x ∈ s.runningExecs.values, s.phase x ≠ .absent
  targets : ∀ f, ∀ x ∈ (s.phase f).targets,
    s.phase x ≠ .absent ∧ s.aborted x = true
  flags : ∀ x, s.cancelFlag x = true → s.aborted x = true
  known : ∀ event ∈ s.events, s.phase event.exec ≠ .absent
  cancelled : ∀ x, .synthetic x true ∈ s.events → s.aborted x = true
  settled : ∀ x, (s.phase x).settled = true → s.endEmitted x = true
  ordered : s.events.Pairwise fun earlier later =>
    earlier.isBegin = false → earlier.exec = later.exec → later.isBegin = false
  sound : s.ledger.Sound

theorem inv_start : (start : ExecSession calls).Inv := by
  have hunclaimed : ∀ e, e ∉ (start : ExecSession calls).ledger.claimed := by
    rintro e (h | h)
    · cases h
    · cases h
  refine ⟨?_, ?_, ?_, ?_, ?_, ?_, .nil, ⟨?_, ?_⟩⟩
  · exact fun x hx => absurd hx List.not_mem_nil
  · exact fun f x hx => absurd hx List.not_mem_nil
  · exact fun x hx => by cases hx
  · exact fun event hevent => absurd hevent List.not_mem_nil
  · exact fun x hx => absurd hx List.not_mem_nil
  · exact fun x hx => by cases hx
  · exact fun e _ => ⟨rfl, nofun⟩
  · exact fun e he => absurd he (hunclaimed e)

theorem Inv.target_of_swapped (h : s.Inv) {toEmit : List ι}
    (hphase : s.phase f = .swapped x toEmit) :
    s.phase x ≠ .absent ∧ s.aborted x = true := by
  refine h.targets f x ?_
  rw [hphase]
  exact List.mem_cons_self

/-- An event is about a call that is entered. -/
theorem Inv.known_of_sends (h : s.Inv) {event : ExecEvent ι}
    (hsends : s.Sends turn event) :
    s.phase event.exec ≠ .absent := by
  cases hsends with
  | begun hphase | ended hphase | dropped hphase => exact hphase.trans_ne nofun
  | other hphase => exact (h.target_of_swapped hphase).1

/-- Only an aborted exec is said to be cancelled. -/
theorem Inv.aborted_of_sends (h : s.Inv)
    (hsends : s.Sends turn (.synthetic x true)) :
    s.aborted x = true := by
  generalize hevent : ExecEvent.synthetic x true = event at hsends
  cases hsends with
  | begun _ => cases hevent
  | ended _ => cases hevent
  | other hphase =>
      cases hevent
      exact (h.target_of_swapped hphase).2
  | dropped _ =>
      injection hevent with hexec hcancelled
      exact h.flags x (hexec ▸ hcancelled.symm)

theorem Inv.isBegin_of_sends (h : s.Inv) (hok : s.EndsOnlyCancelled turn)
    {event earlier : ExecEvent ι} (hsends : s.Sends turn event)
    (hearlier : earlier ∈ s.events)
    (hend : earlier.isBegin = false) (hexec : earlier.exec = event.exec) :
    event.isBegin = false := by
  cases hsends with
  | ended _ | other _ | dropped _ => rfl
  | @begun e hphase =>
      have hunclaimed : e ∉ s.ledger.claimed := by
        rintro (hset | hended)
        · rw [hok.1 hphase] at hset
          cases hset
        · rw [hphase] at hended
          cases hended
      have hnone := (h.sound.unclaimed e hunclaimed).1
      exact absurd (decide_eq_true ⟨hexec, hend⟩)
        (List.countP_eq_zero.1 hnone earlier hearlier)

theorem Inv.step (h : s.Inv) (hs : s.Step turn s')
    (hok : s.EndsOnlyCancelled turn) :
    s'.Inv := by
  refine ⟨?_, ?_, ?_, ?_, ?_, ?_, ?_, ?_⟩
  · intro x hx
    obtain hx | hx := hs.registered hx
    · exact hs.known (h.registered x hx)
    · exact hx
  · intro f x hx
    obtain hx | ⟨e, toEmit, rfl, hphase, hx⟩ := hs.targets hx
    · obtain ⟨hknown, haborted⟩ := h.targets f x hx
      exact ⟨hs.known hknown, hs.aborted haborted⟩
    · have hregistered := (List.mem_filter.1 hx).1
      exact ⟨hs.known (h.registered x hregistered),
        hs.aborted (hok hphase x hx)⟩
  · intro x hx
    obtain hx | hx | ⟨f, hx⟩ := hs.cancelFlag hx
    · exact hs.aborted (h.flags x hx)
    · exact hx
    · exact hs.aborted (h.targets f x hx).2
  · intro event hevent
    obtain heq | ⟨sent, heq, hsends⟩ := hs.events
    · exact hs.known (h.known event (heq ▸ hevent))
    · rw [heq, List.mem_append, List.mem_singleton] at hevent
      obtain hevent | rfl := hevent
      · exact hs.known (h.known event hevent)
      · exact hs.known (h.known_of_sends hsends)
  · intro x hx
    obtain heq | ⟨sent, heq, hsends⟩ := hs.events
    · exact hs.aborted (h.cancelled x (heq ▸ hx))
    · rw [heq, List.mem_append, List.mem_singleton] at hx
      obtain hx | rfl := hx
      · exact hs.aborted (h.cancelled x hx)
      · exact hs.aborted (h.aborted_of_sends hsends)
  · exact fun x => hs.settled h.settled
  · obtain heq | ⟨sent, heq, hsends⟩ := hs.events
    · exact heq ▸ h.ordered
    · rw [heq, List.pairwise_append]
      refine ⟨h.ordered, List.pairwise_singleton .., ?_⟩
      intro earlier hearlier later hlater
      rw [List.mem_singleton.1 hlater]
      exact h.isBegin_of_sends hok hsends hearlier
  · obtain heq | hnext := hs.ledger hok
    · exact heq ▸ h.sound
    · exact h.sound.next hnext

theorem Inv.next (h : s.Inv) (hok : s.EndsOnlyCancelled turn) :
    (s.next turn).Inv := by
  obtain heq | hs := step_next s turn
  · rwa [heq]
  · exact h.step hs hok

end Steps

/-! ## Every run -/

section Runs

theorem endOf_event (event : ExecEvent ι) :
    (event.event calls).msg.endOf =
      if event.isBegin then none else some (calls event.exec).callId := by
  cases event with
  | begun e =>
      change (if (calls e).isApplyPatch then ExecMsg.patchApplyBegin _
        else _).endOf = none
      split
      · rfl
      · rfl
  | ended e output =>
      change (if (calls e).isApplyPatch then ExecMsg.patchApplyEnd _ _ _ _
        else _).endOf = some _
      split
      · rfl
      · rfl
  | synthetic e cancelled => rfl

variable {s : ExecSession calls} [DecidableEq ι]

theorem Inv.endsOnce (h : s.Inv) : s.EndsOnce := by
  have honce : ∀ e, s.Over e → s.ends e = 1 := by
    rintro e ⟨hover, howed⟩
    exact h.sound.paid_eq (.inl (h.settled e (by rw [hover]; rfl))) howed
  refine ⟨h.sound.paid_le, honce, ?_, h.ordered, h.cancelled⟩
  intro e hover hunique
  rw [← honce e hover]
  apply List.countP_congr
  intro event hevent
  rw [decide_eq_true_iff, decide_eq_true_iff, endOf_event]
  constructor
  · intro hend
    cases hbegin : event.isBegin with
    | true =>
        rw [hbegin] at hend
        cases hend
    | false =>
        rw [hbegin] at hend
        exact ⟨hunique _ (h.known event hevent) (Option.some.inj hend), rfl⟩
  · rintro ⟨rfl, hbegin⟩
    rw [hbegin]
    rfl

/-- In every run in which only cancelled execs are ended by others, and these
do not go on, no exec ends twice, too early, or as cancelled without an
abort. -/
theorem throughout_endsOnce (calls : ι → ExecCall) (turns : List (ExecTurn ι))
    (h : Along next EndsOnlyCancelled (start : ExecSession calls) turns) :
    Throughout next EndsOnce (start : ExecSession calls) turns := by
  have hinv := h.throughout (fun _ _ hs hok => Inv.next hs hok) inv_start
  exact hinv.mono fun _ hs => hs.endsOnce

def command (callId : String) : ExecCall :=
  ⟨"turn", callId, false, some 4, some 0, 1⟩

def twoCommands : Bool → ExecCall
  | true => command "call_1"
  | false => command "call_2"

/-- The output of `true`. -/
def noOutput : ExecToolCallOutput := ⟨[], [], 0⟩

/-- An abort cancels both commands.  One completes and ends the other, which is
dropped. -/
theorem endsOnce_twoCommands :
    Throughout next EndsOnce (start : ExecSession twoCommands)
      ([.enter true, .enter false, .proceed true, .proceed false,
        .abort, .mark "turn",
        .finish true noOutput, .proceed true, .proceed true,
        .finalize true [false]] ++
        List.replicate 5 (.proceed true) ++ [.drop false, .proceed false]) :=
  throughout_endsOnce twoCommands _ (by decide)

def commandAndHook : Bool → ExecCall
  | true => command "call_1"
  | false => hookCall (some (command "call_1")) none .toolBefore 1 0

/-- The hook ends the command, which has not begun, as cancelled by the user.
Then the command runs and ends again. -/
theorem not_endsOnce_commandAndHook :
    let last := after next (start : ExecSession commandAndHook)
      ([.enter true, .enter false, .proceed false, .finish false noOutput,
        .proceed false,
        .proceed false, .finalize false [true]] ++
        List.replicate 5 (.proceed false) ++
        [.proceed true, .finish true noOutput, .proceed true, .proceed true,
          .finalize true [],
          .proceed true, .proceed true])
    last.Over true ∧ last.Over false ∧ last.aborted true = false ∧
      last.events = [.begun false, .ended false noOutput,
        .synthetic true true, .begun true,
        .ended true noOutput] ∧
      ¬ last.EndsOnce := by
  refine ⟨⟨rfl, by decide⟩, ⟨rfl, by decide⟩, rfl, by decide, ?_⟩
  intro h
  exact absurd (h.atMostOnce true) (by decide)

end Runs

end ExecSession

end CodeRs.Session
