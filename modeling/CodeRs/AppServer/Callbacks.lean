import CodeRs.AppServer.Initialization
import CodeRs.Session.Approvals

/-!
# Requests of the server

A handler asks its own connection, and waits for what this connection answers.
Every request goes to the connection it is for, once; only an answer of this
connection reaches the handler, and only one.  So nobody else can approve a
command or a patch, and where no answer can be read, nobody has.
-/

namespace CodeRs.AppServer

open Approvals (ReviewDecision)

variable {config : ServerConfig} {labels : List Label} {s t : Server}
    {c : ConnectionId}
  {envelope : OutgoingEnvelope}

/-! ## Approvals -/

/-- `ReviewDecision` of the protocol. -/
inductive WireReviewDecision where
  | approved
  | approvedExecpolicyAmendment (proposed : List Text)
  | approvedForSession
  | denied
  | abort

def mapReviewDecisionFromWire : WireReviewDecision → ReviewDecision
  | .approved => .approved
  | .approvedExecpolicyAmendment _ => .approved
  | .approvedForSession => .approvedForSession
  | .denied => .denied
  | .abort => .abort

/-- The decision that `on_patch_approval_response` and
`on_exec_approval_response` submit for what the receiver of the callback
says. -/
def approvalDecision (parse : Json → Option WireReviewDecision) :
    Option Json → ReviewDecision
  | none => .denied
  | some value => mapReviewDecisionFromWire ((parse value).getD .denied)

/-- A handler decides for a request: it was answered, or its callback
dropped. -/
def Decides (parse : Json → Option WireReviewDecision)
    (waiters : Tickets RequestId (Option ConnectionId) Json)
    (ticket : RequestId × Option ConnectionId)
    (decision : ReviewDecision) : Prop :=
  (∃ result, (ticket, result) ∈ waiters.redeemed ∧
    decision = approvalDecision parse (some result)) ∨
  ticket ∈ waiters.cancelled ∧ decision = approvalDecision parse none

/-! ## The table of callbacks -/

namespace OutgoingMessageSender

variable {sender : OutgoingMessageSender} {id : RequestId}
  {callback : RequestId × Option ConnectionId}

/-- The callbacks are those of the requests that were neither answered nor
given up, and the requests have numbers below the next one. -/
structure Ordered (sender : OutgoingMessageSender) : Prop where
  balanced : sender.waiters.Balanced sender.requestIdToCallback.values
  numbered : ∀ ticket ∈ sender.waiters.issued, ∃ k < sender.nextRequestId,
    ticket.1 = .integer k

theorem ordered_empty : Ordered {} :=
  ⟨Tickets.balanced_empty, fun _ h => (List.not_mem_nil h).elim⟩

theorem Ordered.fresh (h : sender.Ordered)
    {ticket : RequestId × Option ConnectionId}
    (hmem : ticket ∈ sender.waiters.issued) :
    ticket.1 ≠ .integer sender.nextRequestId := by
  obtain ⟨k, hlt, hk⟩ := h.numbered ticket hmem
  intro heq
  have hvalue : (k : ℤ) = sender.nextRequestId :=
    RequestId.integer.inj (hk.symm.trans heq)
  omega

theorem Ordered.register (h : sender.Ordered) (owner : Option ConnectionId) :
    (sender.register owner).Ordered := by
  have hget :
      sender.requestIdToCallback.get (.integer sender.nextRequestId) = none :=
    Keyed.get_eq_none.2 fun callback hmem =>
      h.fresh (h.balanced.mem_issued.2 (.inl hmem))
  refine ⟨?_, fun ticket hmem => ?_⟩
  · change (sender.waiters.issue _).Balanced
      (sender.requestIdToCallback.insert _).values
    rw [Keyed.values_insert hget]
    refine h.balanced.issue fun hmem => ?_
    obtain ⟨ticket, hin, heq⟩ := List.mem_map.1 hmem
    exact h.fresh hin heq
  · rcases List.mem_cons.1 hmem with rfl | hmem
    · exact ⟨_, Nat.lt_succ_self _, rfl⟩
    · obtain ⟨k, hlt, hk⟩ := h.numbered ticket hmem
      exact ⟨k, Nat.lt_succ_of_lt hlt, hk⟩

structure Drops (sender next : OutgoingMessageSender) : Prop where
  ordered : sender.Ordered → next.Ordered
  issued : next.waiters.issued = sender.waiters.issued
  redeemed : next.waiters.redeemed = sender.waiters.redeemed

theorem drops_refl (sender : OutgoingMessageSender) : Drops sender sender :=
  ⟨id, rfl, rfl⟩

theorem drops_drop (sender : OutgoingMessageSender) (id : RequestId) :
    Drops sender (sender.drop id) := by
  rw [drop]
  split
  next callback hget =>
    refine ⟨fun h => ⟨?_, h.numbered⟩, rfl, rfl⟩
    refine (h.balanced.congr ((Keyed.perm_remove hget).trans ?_)).cancel
    exact (List.perm_append_singleton ..).symm
  next => exact drops_refl sender

theorem drops_notifyClientError (sender : OutgoingMessageSender)
    (c : Option ConnectionId)
    (id : RequestId) : Drops sender (sender.notifyClientError c id) := by
  rw [notifyClientError]
  split
  · split
    · exact drops_drop sender id
    · exact drops_refl sender
  · exact drops_refl sender

theorem drops_clearCallbacks (sender : OutgoingMessageSender)
    (c : ConnectionId) :
    Drops sender (sender.clearCallbacks c) := by
  refine ⟨fun h => ⟨?_, h.numbered⟩, rfl, rfl⟩
  exact (h.balanced.congr (List.filter_append_perm _ _).symm).cancel

theorem notifyClientResponse_cases (sender : OutgoingMessageSender)
    (c : ConnectionId)
    (id : RequestId) (result : Json) :
    sender.notifyClientResponse (some c) id result = sender ∨
      ∃ owner, sender.requestIdToCallback.get id = some (id, owner) ∧
        (∀ d, owner = some d → d = c) ∧
        sender.notifyClientResponse (some c) id result =
          { sender with
            requestIdToCallback := sender.requestIdToCallback.remove id
            waiters := sender.waiters.redeem (id, owner) result } := by
  rw [notifyClientResponse]
  split
  next callback hget =>
    obtain ⟨key, owner⟩ := callback
    obtain rfl : key = id := Keyed.key_of_get hget
    split
    next hmay =>
      refine .inr ⟨owner, hget, ?_, rfl⟩
      rintro d rfl
      simpa [mayAnswer] using hmay
    next => exact .inl rfl
  next => exact .inl rfl

end OutgoingMessageSender

/-! ## Requests on their way -/

def OutgoingMessage.requestId : OutgoingMessage → Option RequestId
  | .request id _ _ => some id
  | _ => none

def OutgoingEnvelope.requestId (envelope : OutgoingEnvelope) :
    Option RequestId :=
  envelope.message.requestId

theorem OutgoingMessage.requestId_of_answer {message : OutgoingMessage}
    (h : message.answer ≠ none) : message.requestId = none := by
  rcases message with _ | _ | _ | _
  · exact absurd rfl h
  · rfl
  · rfl
  · rfl

/-- What was not taken by the router yet. -/
def Server.undelivered (s : Server) : List OutgoingEnvelope :=
  s.unsent.map Prod.snd ++ s.outgoing

/-- The requests that are on their way to anybody, or were written to a
connection. -/
def Server.asks (s : Server) (c : ConnectionId) : List RequestId :=
  s.undelivered.filterMap OutgoingEnvelope.requestId ++
    (s.written c).filterMap OutgoingMessage.requestId

/-- An action that passes on what was said, and asks nobody. -/
def Action.Faithful (labels : List Label) : Action → Prop
  | .notifyClientResponse c id result => Said labels c (.response id result)
  | .send envelope => envelope.requestId = none
  | _ => True

/-- Requests are for the connections whose answers they wait for, and an answer
that has come was given by this connection. -/
structure Called (labels : List Label) (s : Server) : Prop where
  ordered : s.sender.Ordered
  planned : ∀ action ∈ s.todo, action.Faithful labels
  owned : ∀ ticket ∈ s.sender.waiters.issued, ∃ c, ticket.2 = some c
  redeemed : ∀ ticket result, (ticket, result) ∈ s.sender.waiters.redeemed →
    ∃ c, ticket.2 = some c ∧ Said labels c (.response ticket.1 result)
  addressed : ∀ envelope ∈ s.undelivered, ∀ id, envelope.requestId = some id →
    ∃ c message, envelope = .toConnection c message ∧
      (id, some c) ∈ s.sender.waiters.issued
  written : ∀ c, ∀ id ∈ (s.written c).filterMap OutgoingMessage.requestId,
    (id, some c) ∈ s.sender.waiters.issued
  asked : ∀ c, (s.asks c).Nodup

theorem called_start : Called labels (.start config) := by
  have hempty : ∀ s : Server, s.sender = {} → s.todo = [] → s.undelivered = [] →
      (∀ c, s.written c = []) → Called labels s := by
    intro s hsender htodo hundelivered hwritten
    refine ⟨hsender ▸ OutgoingMessageSender.ordered_empty, ?_, ?_, ?_, ?_,
      ?_, fun c => ?_⟩
    · rw [htodo]
      exact fun _ h => (List.not_mem_nil h).elim
    · rw [hsender]
      exact fun _ h => (List.not_mem_nil h).elim
    · rw [hsender]
      exact fun _ _ h => (List.not_mem_nil h).elim
    · rw [hundelivered]
      exact fun _ h => (List.not_mem_nil h).elim
    · intro c id hmem
      rw [hwritten] at hmem
      exact (List.not_mem_nil hmem).elim
    · rw [Server.asks, hundelivered, hwritten]
      exact List.nodup_nil
  rw [Server.start]
  split <;> exact hempty _ rfl rfl rfl fun _ => rfl

/-- A step after which nobody else was asked. -/
structure Unasking (s t : Server) : Prop where
  undelivered : ∀ envelope ∈ t.undelivered, envelope ∈ s.undelivered ∨
    envelope.requestId = none
  written : ∀ c, ∀ id ∈ (t.written c).filterMap OutgoingMessage.requestId,
    id ∈ (s.written c).filterMap OutgoingMessage.requestId ∨
      ∃ message, .toConnection c message ∈ s.undelivered ∧
        message.requestId = some id
  asks : ∀ c, (t.asks c).Subperm (s.asks c)

theorem Unasking.of_eq (hunsent : t.unsent = s.unsent)
    (houtgoing : t.outgoing = s.outgoing)
    (hwritten : t.written = s.written) : Unasking s t := by
  have hundelivered : t.undelivered = s.undelivered := by
    rw [Server.undelivered, hunsent, houtgoing]
    rfl
  refine ⟨hundelivered ▸ fun _ => .inl, hwritten ▸ fun _ _ => .inl, fun c => ?_⟩
  rw [Server.asks, hundelivered, hwritten]
  exact .refl _

/-- Requests, plans and answers are as they were, but for callbacks that were
dropped. -/
theorem Called.unasking (h : Called labels s)
    (hsender : s.sender.Drops t.sender)
    (htodo : t.todo ⊆ s.todo) (hunasking : Unasking s t) : Called labels t where
  ordered := hsender.ordered h.ordered
  planned action hmem := h.planned action (htodo hmem)
  owned := hsender.issued ▸ h.owned
  redeemed := hsender.redeemed ▸ h.redeemed
  addressed envelope hmem id hid := by
    rw [hsender.issued]
    rcases hunasking.undelivered envelope hmem with hmem | hnone
    · exact h.addressed envelope hmem id hid
    · exact absurd (hnone ▸ hid) (Option.some_ne_none id).symm
  written c id hmem := by
    rw [hsender.issued]
    rcases hunasking.written c id hmem with hmem | ⟨message, hmem, hid⟩
    · exact h.written c id hmem
    · obtain ⟨d, other, heq, hissued⟩ := h.addressed _ hmem id hid
      exact (OutgoingEnvelope.toConnection.inj heq).1 ▸ hissued
  asked c := nodup_of_subperm (hunasking.asks c) (h.asked c)

/-! ## The other tasks -/

theorem filterMap_cons_toList {α β : Type} (f : α → Option β) (a : α)
    (l : List α) :
    (a :: l).filterMap f = (f a).toList ++ l.filterMap f := by
  cases h : f a <;> simp [h]

theorem unasking_sendEnvelope (hplain : envelope.requestId = none)
    (hsend : s.sendEnvelope envelope = some t) : Unasking s t := by
  rw [Server.sendEnvelope] at hsend
  split at hsend
  · exact Option.some.inj hsend ▸ .of_eq rfl rfl rfl
  · split at hsend
    · obtain rfl := Option.some.inj hsend
      refine ⟨fun other hmem => ?_, fun _ _ => .inl, fun c => ?_⟩
      · rw [Server.undelivered, ← List.append_assoc] at hmem
        refine (List.mem_append.1 hmem).imp_right fun hmem => ?_
        exact List.mem_singleton.1 hmem ▸ hplain
      · rw [Server.asks, Server.undelivered, ← List.append_assoc,
          List.filterMap_append,
          filterMap_cons_toList, hplain, Option.toList_none, List.filterMap_nil,
          List.append_nil, List.append_nil]
        exact .refl _
    · cases hsend

theorem sender_sendEnvelope (hsend : s.sendEnvelope envelope = some t) :
    t.sender = s.sender ∧ t.todo = s.todo := by
  rw [Server.sendEnvelope] at hsend
  split at hsend
  · exact Option.some.inj hsend ▸ ⟨rfl, rfl⟩
  · split at hsend
    · exact Option.some.inj hsend ▸ ⟨rfl, rfl⟩
    · cases hsend

theorem Called.sendEnvelope (h : Called labels s)
    (hplain : envelope.requestId = none)
    (hsend : s.sendEnvelope envelope = some t) : Called labels t := by
  obtain ⟨hsender, htodo⟩ := sender_sendEnvelope hsend
  exact h.unasking (hsender ▸ OutgoingMessageSender.drops_refl _)
    (htodo ▸ fun _ h => h)
    (unasking_sendEnvelope hplain hsend)

/-- The loop over the connections that have failed touches the queue of events
alone. -/
theorem flushClosed_exists (s : Server) (closed : List ConnectionId) :
    ∃ events routerStopped pendingClosedConnections,
      s.flushClosed closed =
        { s with events, routerStopped, pendingClosedConnections } := by
  induction closed generalizing s with
  | nil => exact ⟨s.events, s.routerStopped, [], rfl⟩
  | cons c rest ih =>
      rw [Server.flushClosed]
      split
      · exact ⟨s.events, true, c :: rest, rfl⟩
      · split
        · exact ih _
        · exact ⟨s.events, s.routerStopped, c :: rest, rfl⟩

theorem Called.flushClosed (h : Called labels s) (closed : List ConnectionId) :
    Called labels (s.flushClosed closed) := by
  obtain ⟨events, routerStopped, pending, heq⟩ := flushClosed_exists s closed
  rw [heq]
  exact { h with }

theorem perm_shift {α : Type} (l₁ l₂ l₃ l : List α) :
    (l₁ ++ l₂ ++ (l₃ ++ l)).Perm (l₁ ++ (l ++ l₂) ++ l₃) := by
  rw [List.append_assoc, List.append_assoc, List.append_assoc,
    ← List.append_assoc l₂]
  exact List.perm_append_comm.append_left l₁

/-- A request that the router takes is written to the connection it is for. -/
theorem Called.deliver (h : Called labels s) {rest : List OutgoingEnvelope}
    (houtgoing : s.outgoing = envelope :: rest)
    (writers : ConnectionId → TrySend) :
    Called labels (Server.deliver { s with
      outgoing := rest, polled := false } writers envelope) := by
  have hundelivered :
      s.undelivered = s.unsent.map Prod.snd ++ envelope :: rest := by
    rw [Server.undelivered, houtgoing]
  have hmem : envelope ∈ s.undelivered :=
    hundelivered ▸ List.mem_append_right _ List.mem_cons_self
  have hsub : (s.unsent.map Prod.snd ++ rest).Sublist s.undelivered :=
    hundelivered ▸ (List.sublist_cons_self ..).append_left _
  have hrest : ∀ desk outboundConnections written,
      (∀ c, written c = s.written c ∨ ∃ message,
        written c = s.written c ++ [message] ∧
        (message.requestId = none ∨ envelope = .toConnection c message)) →
      Called labels { s with
        outgoing := rest, polled := false, desk, outboundConnections,
        written } := by
    intro desk outboundConnections written hwritten
    refine h.unasking (OutgoingMessageSender.drops_refl _) (fun _ h => h)
      ⟨fun other hin => .inl (hsub.subset hin), fun c id hid => ?_, fun c => ?_⟩
    · rcases hwritten c with heq | ⟨message, heq, hfor⟩
      · exact .inl (heq ▸ hid)
      · dsimp only at hid
        rw [heq, List.filterMap_append] at hid
        refine (List.mem_append.1 hid).imp_right fun hid => ?_
        obtain ⟨other, hother, hrequest⟩ := List.mem_filterMap.1 hid
        obtain rfl := List.mem_singleton.1 hother
        rcases hfor with hnone | rfl
        · exact absurd (hnone ▸ hrequest) (Option.some_ne_none id).symm
        · exact ⟨other, hmem, hrequest⟩
    · change (_ ++ (written c).filterMap _).Subperm
        (_ ++ (s.written c).filterMap _)
      rcases hwritten c with heq | ⟨message, heq, hfor⟩
      · rw [heq]
        exact ((hsub.filterMap _).append_right _).subperm
      · rw [heq, List.filterMap_append (l := s.written c)]
        rcases hfor with hnone | rfl
        · rw [filterMap_cons_toList, hnone, Option.toList_none,
            List.filterMap_nil,
            List.append_nil, List.append_nil]
          exact ((hsub.filterMap _).append_right _).subperm
        · rw [hundelivered, Server.undelivered, List.filterMap_append,
            List.filterMap_append,
            filterMap_cons_toList, filterMap_cons_toList, List.filterMap_nil,
            List.append_nil]
          exact (perm_shift ..).subperm
  rw [Server.deliver]
  dsimp only
  split
  next rewritten heq =>
    refine Called.flushClosed (hrest _ _ _ fun c => ?_) _
    let out :=
      Outbound.route s.flags writers ⟨s.outboundConnections,
        s.written, []⟩ rewritten
    have hroute : out.written c = s.written c ∨
        out.written c = s.written c ++ [rewritten.message] ∧
          Outbound.Receives s.flags rewritten c :=
            Outbound.written_route rewritten c
    rcases hroute with hsame | ⟨happended, hreceives⟩
    · exact .inl hsame
    refine .inr ⟨_, happended, ?_⟩
    rcases message_rewrite heq with rfl | hanswer
    · by_cases hnone : rewritten.requestId = none
      · exact .inl hnone
      · obtain ⟨id, hid⟩ := Option.ne_none_iff_exists'.1 hnone
        obtain ⟨d, message, rfl, -⟩ := h.addressed rewritten hmem id hid
        rcases hreceives.addressed with ⟨other, heq⟩ | ⟨⟨other, heq⟩, -⟩
        · exact .inr ((OutgoingEnvelope.toConnection.inj heq).1 ▸ rfl)
        · cases heq
    · exact .inl (OutgoingMessage.requestId_of_answer hanswer)
  next => exact hrest _ _ _ fun _ => .inl rfl

/-- A step that leaves the requests, the plan and what is written alone. -/
theorem Called.same (h : Called labels s) (hsender : t.sender = s.sender)
    (htodo : t.todo = s.todo) (hunsent : t.unsent = s.unsent)
    (houtgoing : t.outgoing = s.outgoing) (hwritten : t.written = s.written) :
    Called labels t :=
  h.unasking (hsender ▸ OutgoingMessageSender.drops_refl _)
    (htodo ▸ fun _ h => h)
    (.of_eq hunsent houtgoing hwritten)

theorem Called.sendOrWait (h : Called labels s)
    (hplain : envelope.requestId = none) :
    Called labels ((s.sendEnvelope envelope).getD s) := by
  cases hsend : s.sendEnvelope envelope with
  | none => exact h
  | some next => exact h.sendEnvelope hplain hsend

theorem Called.arrive (h : Called labels s) (c : ConnectionId)
    (message : JSONRPCMessage)
    (writer : TrySend) : Called labels (s.arrive c message writer) := by
  unfold Server.arrive
  split
  · exact h
  · split
    · exact h.same rfl rfl rfl rfl rfl
    · split
      next request =>
        have hsame : ∀ d, (Function.update s.written c
            (s.written c ++ [.error request.id overloadError]) d).filterMap
              OutgoingMessage.requestId =
              (s.written d).filterMap OutgoingMessage.requestId := by
          intro d
          by_cases heq : d = c
          · rw [heq, Function.update_self, List.filterMap_append]
            exact List.append_nil _
          · rw [Function.update_of_ne heq]
        refine h.unasking (OutgoingMessageSender.drops_refl _) (fun _ h => h)
          ⟨fun _ => .inl, fun d id hmem => .inl (hsame d ▸ hmem), fun d => ?_⟩
        rw [Server.asks, hsame]
        exact .refl _
      next => exact h

/-- A request gets the next number, and is on its way to the connection of its
handler. -/
theorem Called.ask (h : Called labels s) (k : ℕ) (method : String)
    (params : Option Json) :
    Called labels (s.ask k method params) := by
  rw [Server.ask]
  split
  next handed hhanded =>
    let id := RequestId.integer s.sender.nextRequestId
    have hnew : ∀ {d}, (id, some d) ∉ s.sender.waiters.issued :=
      fun hmem => h.ordered.fresh hmem rfl
    have hstill : ∀ {ticket}, ticket ∈ s.sender.waiters.issued →
        ticket ∈
          (s.sender.register (some handed.connectionId)).waiters.issued :=
      List.mem_cons_of_mem _
    let envelope :=
      OutgoingEnvelope.toConnection handed.connectionId
        (.request id method params)
    let next : Server := { s with
      sender := s.sender.register (some handed.connectionId)
      unsent := s.unsent ++ [(id, envelope)] }
    have hperm : next.undelivered.Perm (envelope :: s.undelivered) := by
      rw [Server.undelivered, List.map_append, List.append_assoc]
      exact List.perm_middle
    change Called labels next
    refine ⟨h.ordered.register _, h.planned, fun ticket hin => ?_, h.redeemed,
      fun envelope hin other hid => ?_, fun c other hin =>
        hstill (h.written c other hin),
      fun c => ?_⟩
    · rcases List.mem_cons.1 hin with rfl | hin
      · exact ⟨handed.connectionId, rfl⟩
      · exact h.owned ticket hin
    · rcases List.mem_cons.1 (hperm.mem_iff.1 hin) with rfl | hin
      · obtain rfl := Option.some.inj hid
        exact ⟨_, _, rfl, List.mem_cons_self⟩
      · obtain ⟨c, message, heq, hissued⟩ := h.addressed envelope hin other hid
        exact ⟨c, message, heq, hstill hissued⟩
    · refine ((hperm.filterMap OutgoingEnvelope.requestId).append_right
        _).nodup_iff.2 ?_
      refine List.nodup_cons.2 ⟨fun hin => ?_, h.asked c⟩
      rcases List.mem_append.1 hin with hin | hin
      · obtain ⟨envelope, henvelope, hid⟩ := List.mem_filterMap.1 hin
        obtain ⟨d, -, -, hissued⟩ := h.addressed envelope henvelope id hid
        exact hnew hissued
      · exact hnew (h.written c id hin)
  next => exact h

theorem Called.sendRequest (h : Called labels s) (i : ℕ) :
    Called labels (s.sendRequest i) := by
  rw [Server.sendRequest]
  split
  next id envelope hget =>
    have hsub :
        ((s.unsent.eraseIdx i).map Prod.snd).Sublist (s.unsent.map Prod.snd) :=
      (List.eraseIdx_sublist ..).map _
    split
    · refine h.unasking (OutgoingMessageSender.drops_drop _ id) (fun _ h => h)
        ⟨fun other hmem => .inl ((hsub.append_right _).subset hmem),
          fun _ _ => .inl,
          fun c => ?_⟩
      exact (((hsub.append_right _).filterMap _).append_right _).subperm
    · rw [Server.sendEnvelope]
      split
      · contradiction
      · split
        · have hperm : ({ s with
              outgoing := s.outgoing ++ [envelope]
              unsent := s.unsent.eraseIdx i } : Server).undelivered.Perm
                s.undelivered := by
            obtain ⟨hlt, hi⟩ := List.getElem?_eq_some_iff.1 hget
            have herase := (List.getElem_cons_eraseIdx_perm hlt).map Prod.snd
            rw [hi] at herase
            exact (perm_shift [] _ _ [envelope]).trans (herase.append_right _)
          refine h.unasking (OutgoingMessageSender.drops_refl _) (fun _ h => h)
            ⟨fun other hmem => .inl (hperm.subset hmem),
              fun _ _ => .inl, fun c => ?_⟩
          exact ((hperm.filterMap _).append_right _).subperm
        · exact h
  next => exact h

theorem Called.aside (h : Called labels s) {label : Label}
    (hprocess : label ≠ .process) :
    Called labels (s.step config label) := by
  cases label with
  | process => exact absurd rfl hprocess
  | connect =>
      rw [Server.step]
      split
      · exact h
      · exact h.same rfl rfl rfl rfl rfl
  | accept c =>
      rw [Server.step, Server.acceptConnection]
      split
      · exact h
      · exact h.same rfl rfl rfl rfl rfl
  | arrive c message writer => exact h.arrive c message writer
  | disconnect c =>
      rw [Server.step, Server.disconnect]
      split
      · exact h
      · split
        · exact h.same rfl rfl rfl rfl rfl
        · split
          · exact h.same rfl rfl rfl rfl rfl
          · exact h
  | pollControl =>
      rw [Server.step, Server.pollControl]
      split
      · exact h
      · split
        next event rest heq =>
          refine Called.flushClosed ?_ _
          cases event <;> exact h.same rfl rfl rfl rfl rfl
        next => split <;> exact h.same rfl rfl rfl rfl rfl
  | pollOutgoing writers =>
      rw [Server.step, Server.pollOutgoing]
      split
      · exact h
      · split
        next envelope rest heq => exact h.deliver heq writers
        next => exact h.same rfl rfl rfl rfl rfl
  | answer k answer =>
      rw [Server.step, Server.answer]
      split
      next handed hhanded =>
        cases hsend : s.sendEnvelope
          (.broadcast (.ofAnswer handed.request.id answer)) with
        | none => exact h
        | some next =>
            have hplain : (OutgoingEnvelope.broadcast
                (.ofAnswer handed.request.id answer)).requestId = none := by
              cases answer <;> rfl
            exact (h.sendEnvelope hplain hsend).same rfl rfl rfl rfl rfl
      next => exact h
  | notify k method params =>
      rw [Server.step, Server.notify]
      split
      · exact h.sendOrWait rfl
      · exact h
  | broadcast method params => exact h.sendOrWait rfl
  | ask k method params => exact h.ask k method params
  | sendRequest i => exact h.sendRequest i

/-! ## The processor -/

/-- An action of the plan is done, and the plan says less. -/
theorem Called.next (h : Called labels s) {action : Action} {rest : List Action}
    (htodo : s.todo = action :: rest) : Called labels { s with todo := rest } :=
  h.unasking (OutgoingMessageSender.drops_refl _) (fun _ hmem => htodo ▸
    List.mem_cons_of_mem _ hmem)
    (.of_eq rfl rfl rfl)

theorem Called.stop (h : Called labels s) :
    Called labels { s with stopped := true, todo := [] } :=
  h.unasking (OutgoingMessageSender.drops_refl _) (List.nil_subset _)
    (.of_eq rfl rfl rfl)

/-- A response reaches the handler that waits for it, if it is from the right
connection. -/
theorem Called.notifyClientResponse (h : Called labels s) {id : RequestId}
    {result : Json}
    (hsaid : Said labels c (.response id result)) :
    Called labels { s with
      sender := s.sender.notifyClientResponse (some c) id result } := by
  rcases s.sender.notifyClientResponse_cases c id result with
    heq | ⟨owner, hget, howner, heq⟩
  · rw [heq]
    exact h
  · rw [heq]
    have hordered : OutgoingMessageSender.Ordered { s.sender with
        requestIdToCallback := s.sender.requestIdToCallback.remove id
        waiters := s.sender.waiters.redeem (id, owner) result } :=
      ⟨(h.ordered.balanced.congr (Keyed.perm_remove hget)).redeem result,
        h.ordered.numbered⟩
    refine ⟨hordered, h.planned, h.owned,
      fun ticket other hmem => ?_, h.addressed,
      h.written, h.asked⟩
    rcases List.mem_cons.1 hmem with heq | hmem
    · obtain ⟨rfl, rfl⟩ := Prod.mk.inj heq
      have hissued :=
        h.ordered.balanced.mem_issued.2 (.inl (Keyed.get_eq_some.1 hget).1)
      obtain ⟨d, hd⟩ := h.owned _ hissued
      obtain rfl := howner d hd
      exact ⟨d, hd, hsaid⟩
    · exact h.redeemed ticket other hmem

theorem Called.act (h : Called labels s) {action : Action}
    (hfaithful : action.Faithful labels)
    (hact : Server.act config s action = some t) :
    Called labels t := by
  cases action with
  | send envelope => exact h.sendEnvelope hfaithful hact
  | notifyClientResponse c id result =>
      exact Option.some.inj hact ▸ h.notifyClientResponse hfaithful
  | notifyClientError c id =>
      exact Option.some.inj hact ▸ h.unasking
        (OutgoingMessageSender.drops_notifyClientError _ _ _) (fun _ h => h)
        (.of_eq rfl rfl rfl)
  | clearCallbacks c =>
      exact Option.some.inj hact ▸ h.unasking
        (OutgoingMessageSender.drops_clearCallbacks _ _) (fun _ h => h)
        (.of_eq rfl rfl rfl)
  | sendOpened | sendClosed =>
      rw [Server.act] at hact
      split at hact
      · exact Option.some.inj hact ▸ h.stop
      · split at hact
        · exact Option.some.inj hact ▸ h.same rfl rfl rfl rfl rfl
        · cases hact
  | waitForRequestRoutes =>
      rw [Server.act] at hact
      split at hact
      · cases hact
      · exact Option.some.inj hact ▸ h
  | stopIfEmpty =>
      rw [Server.act] at hact
      split at hact
      · exact Option.some.inj hact ▸ h.stop
      · exact Option.some.inj hact ▸ h
  | _ => exact Option.some.inj hact ▸ h.same rfl rfl rfl rfl rfl

/-- A new plan, which asks nobody and passes on what was said. -/
theorem Called.plan (h : Called labels s) (hsender : t.sender = s.sender)
    (hunsent : t.unsent = s.unsent) (houtgoing : t.outgoing = s.outgoing)
    (hwritten : t.written = s.written)
    (hplanned : ∀ action ∈ t.todo, action.Faithful labels) :
    Called labels t := by
  have hrest := h.unasking (t := { t with todo := [] })
    (hsender ▸ OutgoingMessageSender.drops_refl _) (List.nil_subset _)
    (.of_eq hunsent houtgoing hwritten)
  exact { hrest with planned := hplanned }

theorem faithful_processRequest (session : ConnectionSessionState)
    (request : JSONRPCRequest) :
    ∀ action ∈ (processRequest config c session request).2,
      action.Faithful labels := by
  have hwarnings : ∀ action ∈ initializeNotifications config c,
      action.Faithful labels := by
    intro action hmem
    obtain ⟨warning, -, rfl⟩ := List.mem_map.1 hmem
    rfl
  have hprocessed := processed_processRequest config c session request
  generalize processRequest config c session request = result at hprocessed
  rcases hprocessed with text | suffix | _ | ⟨_, _, suffix⟩
  · exact List.forall_mem_singleton.2 rfl
  · exact List.forall_mem_singleton.2 rfl
  · exact List.forall_mem_singleton.2 trivial
  · refine List.forall_mem_append.2 ⟨?_, hwarnings⟩
    exact List.forall_mem_cons.2 ⟨trivial, List.forall_mem_cons.2
      ⟨rfl, List.forall_mem_singleton.2 trivial⟩⟩

theorem faithful_closeActions (c : ConnectionId) :
    ∀ action ∈ Server.closeActions config c, action.Faithful labels := by
  rw [Server.closeActions]
  split <;> simp [Action.Faithful]

theorem Called.takeEvent (h : Called labels s) {event : TransportEvent}
    (hsaid : ∀ c message, event = .incomingMessage c message →
      Said labels c message) :
    Called labels (Server.takeEvent config s event) := by
  rcases event with ⟨c, notify⟩ | c | ⟨c, message⟩
  · exact h.plan rfl rfl rfl rfl (List.forall_mem_singleton.2 trivial)
  · exact h.plan rfl rfl rfl rfl (faithful_closeActions c)
  · rcases message with request | ⟨method, params⟩ | ⟨id, result⟩ | ⟨id, e⟩
    · rw [Server.takeEvent]
      split
      · exact h.plan rfl rfl rfl rfl (faithful_processRequest _ _)
      · exact h
    · exact h
    · exact h.plan rfl rfl rfl rfl (List.forall_mem_singleton.2 (hsaid c _ rfl))
    · exact h.plan rfl rfl rfl rfl (List.forall_mem_singleton.2 trivial)

theorem Called.step (h : Called labels s) (hgated : Gated config labels s)
    (label : Label) :
    Called labels (s.step config label) := by
  by_cases hprocess : label = .process
  · subst hprocess
    rw [Server.step, Server.process]
    split
    · exact h
    · split
      next action rest htodo =>
        cases hact : Server.act config { s with todo := rest } action with
        | none => exact h
        | some next =>
            exact (h.next htodo).act
              (h.planned action (htodo ▸ List.mem_cons_self)) hact
      next htodo =>
        split
        next event rest hevents =>
          have hrest : Called labels { s with events := rest } := { h with }
          refine hrest.takeEvent fun c message heq => ?_
          exact hgated.events c message (heq ▸ hevents ▸ List.mem_cons_self)
        next => exact h
  · exact h.aside hprocess

/-! ## Whose answers count -/

/-- What holds for the requests of the server. -/
structure CallbacksOwned (labels : List Label) (s : Server) : Prop where
  asked : ∀ c id method params, .request id method params ∈ s.written c →
    (id, some c) ∈ s.sender.waiters.issued
  askedOnce : ∀ c, ((s.written c).filterMap OutgoingMessage.requestId).Nodup
  answered : ∀ id owner result,
    ((id, owner), result) ∈ s.sender.waiters.redeemed →
    ∃ c, owner = some c ∧ Said labels c (.response id result)
  once : ∀ parse ticket decision other,
    Decides parse s.sender.waiters ticket decision →
    Decides parse s.sender.waiters ticket other → decision = other
  approved : ∀ parse ticket decision,
    Decides parse s.sender.waiters ticket decision →
    decision ≠ .denied → ∃ c result wire, ticket.2 = some c ∧
      Said labels c (.response ticket.1 result) ∧ parse result = some wire ∧
        decision = mapReviewDecisionFromWire wire

/-- Nothing is both answered and dropped, or answered twice. -/
theorem decides_unique {parse : Json → Option WireReviewDecision}
    {waiters : Tickets RequestId (Option ConnectionId) Json}
    {waiting : List (RequestId × Option ConnectionId)}
    (h : waiters.Balanced waiting)
    {ticket : RequestId × Option ConnectionId} {decision other : ReviewDecision}
    (hdecision : Decides parse waiters ticket decision)
    (hother : Decides parse waiters ticket other) :
    decision = other := by
  have hdisjoint : ∀ {result}, (ticket, result) ∈ waiters.redeemed →
      ticket ∉ waiters.cancelled :=
    fun hredeemed hcancelled => by
      have hall :=
        (List.nodup_append.1 (List.nodup_append.1 h.nodup_all).2.1).2.2
      refine hall ticket.1 ?_ ticket.1 (List.mem_map_of_mem hcancelled) rfl
      exact List.mem_map_of_mem (List.mem_map_of_mem hredeemed)
  rcases hdecision with ⟨result, hin, rfl⟩ | ⟨hin, rfl⟩
  · rcases hother with ⟨result', hin', rfl⟩ | ⟨hin', -⟩
    · have heq := List.inj_on_of_nodup_map h.nodup_redeemed hin hin' rfl
      rw [(Prod.mk.inj heq).2]
    · exact absurd hin' (hdisjoint hin)
  · rcases hother with ⟨result, hin', -⟩ | ⟨-, rfl⟩
    · exact absurd hin (hdisjoint hin')
    · rfl

/-- In every order of the steps of all tasks, a request of the server is
written only to the connection it is for, and once; the handler hears only what
this connection has answered to it, and no more than one answer.  So no two
decisions are taken for an approval, and anything but a refusal was said by the
connection that was asked. -/
theorem run_callbacksOwned (config : ServerConfig) (labels : List Label) :
    CallbacksOwned labels (Server.run config labels) := by
  have hrun := after_induction_mem
    (P := fun s => (Living s ∧ Draining config s ∧ Gated config labels s) ∧
      Called labels s)
    (fun s label hlabel ⟨⟨hliving, hdraining, hgated⟩,
      h⟩ => ⟨⟨hliving.step label,
      hdraining.step label, hgated.step hliving hdraining hlabel⟩,
      h.step hgated label⟩)
    ⟨⟨living_start, draining_start, gated_start⟩, called_start⟩
  obtain ⟨-, h⟩ := hrun
  refine ⟨fun c id method params hmem => ?_, fun c => ?_,
    fun id owner result hmem => ?_,
    fun parse ticket decision other => decides_unique h.ordered.balanced,
    fun parse ticket decision hdecision hne => ?_⟩
  · exact h.written c id (List.mem_filterMap.2 ⟨_, hmem, rfl⟩)
  · exact (List.nodup_append.1 (h.asked c)).2.1
  · exact h.redeemed (id, owner) result hmem
  · rcases hdecision with ⟨result, hin, rfl⟩ | ⟨-, rfl⟩
    · obtain ⟨c, howner, hsaid⟩ := h.redeemed ticket result hin
      rw [approvalDecision] at hne ⊢
      cases hwire : parse result with
      | none => exact absurd (by rw [hwire]; rfl) hne
      | some wire => exact ⟨c, result, wire, howner, hsaid, hwire, rfl⟩
    · exact absurd rfl hne

end CodeRs.AppServer
