import CodeRs.AppServer.Server
import Mathlib.Data.List.Perm.Subperm

/-!
# Answers reach the connection that asked

Whatever the order of the steps, an answer goes to the connection whose request
it was given to, under the id that this connection chose, and no request is
answered twice.
-/

namespace CodeRs.AppServer

/-! ## The answers that are given -/

/-- The answers that the processor gives itself. -/
inductive GateAnswer (config : ServerConfig) : Answer → Prop where
  | refused (message : String) :
      GateAnswer config (.error ⟨invalidRequestErrorCode, message, none⟩)
  | userAgent (suffix : Option String) : GateAnswer config (.ok
    (userAgentResponse config suffix))

variable {config : ServerConfig} {s t : Server} {desk : RequestDesk}
    {c : ConnectionId}
  {id : RequestId} {answer : Answer} {envelope : OutgoingEnvelope}
  {message : OutgoingMessage}

/-- An answer was given to the request of an id, which was accepted: by the
processor, or by who got this request handed. -/
def GivenTo (config : ServerConfig) (s : Server) (id : RequestId)
    (answer : Answer) : Prop :=
  ∃ route, (id, route) ∈ s.desk.requests.issued ∧
    (GateAnswer config answer ∨ ∃ handed ∈ s.handed,
      handed.connectionId = route.connectionId ∧ handed.request.id = id ∧
        answer ∈ handed.answers)

/-- What is accepted, handed on or answered stays so. -/
structure Grows (s t : Server) : Prop where
  issued : s.desk.requests.issued ⊆ t.desk.requests.issued
  handed : ∀ handed ∈ s.handed, ∃ later ∈ t.handed,
    later.connectionId = handed.connectionId ∧ later.request = handed.request ∧
      handed.answers ⊆ later.answers

theorem Grows.of_eq (hdesk : t.desk = s.desk) (hhanded : t.handed = s.handed) :
    Grows s t where
  issued := hdesk ▸ List.Subset.refl _
  handed := fun handed hmem =>
    ⟨handed, hhanded ▸ hmem, rfl, rfl, List.Subset.refl _⟩

theorem GivenTo.grows (h : GivenTo config s id answer) (hgrows : Grows s t) :
    GivenTo config t id answer := by
  obtain ⟨route, hissued, hgiven⟩ := h
  refine ⟨route, hgrows.issued hissued, hgiven.imp_right ?_⟩
  rintro ⟨handed, hmem, hconnection, hid, hanswer⟩
  obtain ⟨later, hlater, hconnection', hrequest, hanswers⟩ :=
    hgrows.handed handed hmem
  exact ⟨later, hlater, hconnection'.trans hconnection, hrequest ▸ hid,
    hanswers hanswer⟩

/-- A message is no answer, or it is on its way to everybody and was given to
the request that it names. -/
def Proper (config : ServerConfig) (s : Server) : OutgoingEnvelope → Prop
  | .toConnection _ message => message.answer = none
  | .broadcast message => ∀ id answer, message.answer = some (id, answer) →
      GivenTo config s id answer

def ProperAction (config : ServerConfig) (s : Server) : Action → Prop
  | .send envelope => Proper config s envelope
  | .handle c request => ∃ route, (request.id, route) ∈ s.desk.requests.issued ∧
      route.connectionId = c
  | _ => True

theorem Proper.grows (h : Proper config s envelope) (hgrows : Grows s t) :
    Proper config t envelope := by
  cases envelope with
  | toConnection => exact h
  | broadcast message => exact fun id answer hmessage =>
      (h id answer hmessage).grows hgrows

theorem ProperAction.grows {action : Action} (h : ProperAction config s action)
    (hgrows : Grows s t) : ProperAction config t action := by
  cases action with
  | send envelope => exact Proper.grows h hgrows
  | handle =>
      obtain ⟨route, hissued, hconnection⟩ := h
      exact ⟨route, hgrows.issued hissued, hconnection⟩
  | _ => trivial

theorem properAction_refuse {route : RequestRoute}
    (hid : (id, route) ∈ s.desk.requests.issued)
    (text : String) : ProperAction config s (refuse id text) := by
  intro id' answer heq
  cases heq
  exact ⟨route, hid, .inl (.refused text)⟩

theorem properAction_userAgent {route : RequestRoute}
    (hid : (id, route) ∈ s.desk.requests.issued) (suffix : Option String) :
    ProperAction config s
      (.send
        (.broadcast (.response id (userAgentResponse config suffix)))) := by
  intro id' answer heq
  cases heq
  exact ⟨route, hid, .inl (.userAgent suffix)⟩

/-- What the processor plans for a request is proper once it is accepted. -/
theorem properAction_processRequest {session : ConnectionSessionState}
    {request : JSONRPCRequest} {route : RequestRoute}
    (hid : (request.id, route) ∈ s.desk.requests.issued) :
    ∀ action ∈ (processRequest config route.connectionId session request).2,
      ProperAction config s action := by
  have hprocessed :=
    processed_processRequest config route.connectionId session request
  generalize processRequest config route.connectionId session request =
    result at hprocessed ⊢
  rcases hprocessed with ⟨text⟩ | ⟨suffix⟩ | _ | ⟨-, -, suffix⟩
  · exact List.forall_mem_singleton.2 (properAction_refuse hid text)
  · exact List.forall_mem_singleton.2 (properAction_userAgent hid suffix)
  · exact List.forall_mem_singleton.2 ⟨route, hid, rfl⟩
  · intro action hmem
    rcases List.mem_append.1 hmem with hmem | hmem
    · simp only [List.mem_cons, List.not_mem_nil, or_false] at hmem
      rcases hmem with rfl | rfl | rfl
      · trivial
      · exact properAction_userAgent hid suffix
      · trivial
    · obtain ⟨warning, -, rfl⟩ := List.mem_map.1 hmem
      exact (rfl : (OutgoingMessage.notification _ _).answer = none)

/-! ## What the router makes of an envelope -/

/-- An answer takes its route, one without a route is dropped, and all else
passes. -/
inductive Rewritten (desk : RequestDesk) :
    OutgoingEnvelope → Option OutgoingEnvelope × RequestDesk → Prop where
  | answered {ticket : RequestId × RequestRoute} {answer : Answer}
      (hget : desk.requestRoutes.get ticket.1 = some ticket) :
      Rewritten desk (.broadcast (.ofAnswer ticket.1 answer))
        (some (.toConnection ticket.2.connectionId
          (.ofAnswer ticket.2.originalRequestId answer)),
          { desk with
            requestRoutes := desk.requestRoutes.remove ticket.1
            requests := desk.requests.redeem ticket answer })
  | dropped {envelope : OutgoingEnvelope} : Rewritten desk envelope (none, desk)
  | passed {envelope : OutgoingEnvelope} (h : envelope.message.answer = none) :
      Rewritten desk envelope (some envelope, desk)

theorem rewritten_of_answer (hinternal : isInternalRequestId id = true)
    (answer : Answer) :
    Rewritten desk (.broadcast (.ofAnswer id answer))
      (desk.rewrite (.broadcast (.ofAnswer id answer))) := by
  have hrewrite :
      rewriteResponseRouting desk.requestRoutes
        (.broadcast (.ofAnswer id answer)) =
      rerouted desk.requestRoutes id answer := by cases answer <;> rfl
  cases hget : desk.requestRoutes.get id with
  | some ticket =>
      obtain rfl := Keyed.key_of_get hget
      simp only [RequestDesk.rewrite, hrewrite, OutgoingMessage.answer_ofAnswer,
        rerouted, hget]
      exact .answered hget
  | none =>
      simp only [RequestDesk.rewrite, hrewrite, OutgoingMessage.answer_ofAnswer,
        rerouted, hget,
        hinternal, if_true]
      exact .dropped

theorem requests_rewrite (envelope : OutgoingEnvelope) :
    (desk.rewrite envelope).2.requests = desk.requests ∨
      ∃ ticket answer, (desk.rewrite envelope).2.requests =
        desk.requests.redeem ticket answer := by
  rcases envelope with _ | message
  · exact .inl rfl
  · rw [RequestDesk.rewrite]
    dsimp only
    split
    · split
      · exact .inr ⟨_, _, rfl⟩
      · exact .inl rfl
    · exact .inl rfl

/-- Answers under the ids of the server are never sent to everybody. -/
theorem rewritten_rewrite
    (hbroadcast : ∀ message, envelope = .broadcast message →
      ∀ id answer, message.answer = some (id, answer) →
      isInternalRequestId id = true)
    (hdirect : ∀ c message, envelope = .toConnection c message →
      message.answer = none) :
    Rewritten desk envelope (desk.rewrite envelope) := by
  rcases envelope with ⟨c, message⟩ | message
  · exact .passed (hdirect c message rfl)
  · cases hanswer : message.answer with
    | none =>
        rcases message with _ | _ | _ | _
        · exact .passed rfl
        · exact .passed rfl
        · cases hanswer
        · cases hanswer
    | some pair =>
        obtain rfl := OutgoingMessage.eq_ofAnswer hanswer
        exact rewritten_of_answer (hbroadcast _ rfl _ _ hanswer) _

/-! ## The invariant -/

/-- The answers among the messages of a connection. -/
def answersOf (messages : List OutgoingMessage) : List (RequestId × Answer) :=
  messages.filterMap OutgoingMessage.answer

/-- The answers to a connection, under its own ids. -/
def answersTo (c : ConnectionId)
    (redeemed : List ((RequestId × RequestRoute) × Answer)) :
    List (RequestId × Answer) :=
  (redeemed.filter fun entry => entry.1.2.connectionId = c).map fun entry =>
    (entry.1.2.originalRequestId, entry.2)

theorem answersTo_cons_self {ticket : RequestId × RequestRoute}
    (h : ticket.2.connectionId = c)
    (answer : Answer) (redeemed : List ((RequestId × RequestRoute) × Answer)) :
    answersTo c ((ticket, answer) :: redeemed) =
      (ticket.2.originalRequestId, answer) :: answersTo c redeemed := by
  rw [answersTo, List.filter_cons_of_pos (by simpa using h)]
  rfl

theorem answersTo_cons_of_ne {ticket : RequestId × RequestRoute}
    (h : ticket.2.connectionId ≠ c)
    (answer : Answer) (redeemed : List ((RequestId × RequestRoute) × Answer)) :
    answersTo c ((ticket, answer) :: redeemed) = answersTo c redeemed := by
  rw [answersTo, List.filter_cons_of_neg (by simpa using h)]
  rfl

/-- What is due to a connection: the answers that were given to its requests,
and a refusal for each one that found the server overloaded. -/
def Server.dueTo (s : Server) (c : ConnectionId) : List (RequestId × Answer) :=
  answersTo c s.desk.requests.redeemed ++
    (s.overloaded c).map fun id => (id, .error overloadError)

/-- Routes balance with what has become of the requests, and whatever is on its
way is proper. -/
structure Routed (config : ServerConfig) (s : Server) : Prop where
  balanced : s.desk.requests.Balanced s.desk.requestRoutes.values
  numbered : ∀ ticket ∈ s.desk.requests.issued,
    ∃ k < s.desk.nextInternalRequestOrdinal,
    ticket.1 = internalRequestId ticket.2.connectionId k
  handed : ∀ handed ∈ s.handed, ∃ route,
    (handed.request.id, route) ∈ s.desk.requests.issued ∧
    route.connectionId = handed.connectionId
  queued : ∀ envelope ∈ s.outgoing, Proper config s envelope
  planned : ∀ action ∈ s.todo, ProperAction config s action
  unsent : ∀ entry ∈ s.unsent, Proper config s entry.2
  given : ∀ entry ∈ s.desk.requests.redeemed, GivenTo config s entry.1.1 entry.2
  written : ∀ c, (answersOf (s.written c)).Subperm (s.dueTo c)

/-- A step that accepts, hands on, sends and writes nothing. -/
structure Quiet (s t : Server) : Prop where
  desk : t.desk = s.desk
  handed : t.handed = s.handed
  written : t.written = s.written
  overloaded : t.overloaded = s.overloaded
  outgoing : t.outgoing ⊆ s.outgoing
  todo : t.todo ⊆ s.todo
  unsent : t.unsent ⊆ s.unsent

theorem routed_start : Routed config (.start config) := by
  have hempty : Routed config {} := by
    refine ⟨Tickets.balanced_empty, ?_, ?_, ?_, ?_, ?_, ?_,
      fun c => List.nil_subperm⟩ <;>
      exact fun _ h => (List.not_mem_nil h).elim
  rw [Server.start]
  split
  · exact { hempty with }
  · exact hempty

theorem Routed.quiet (h : Routed config s) (hquiet : Quiet s t) :
    Routed config t := by
  have hgrows : Grows s t := .of_eq hquiet.desk hquiet.handed
  have hdue : ∀ c, t.dueTo c = s.dueTo c := by
    intro c
    rw [Server.dueTo, hquiet.desk, hquiet.overloaded, Server.dueTo]
  refine ⟨hquiet.desk ▸ h.balanced, hquiet.desk ▸ h.numbered, ?_, ?_,
    ?_, ?_, ?_, ?_⟩
  · rw [hquiet.handed, hquiet.desk]
    exact h.handed
  · exact fun envelope hmem =>
      (h.queued envelope (hquiet.outgoing hmem)).grows hgrows
  · exact fun action hmem => (h.planned action (hquiet.todo hmem)).grows hgrows
  · exact fun entry hmem => (h.unsent entry (hquiet.unsent hmem)).grows hgrows
  · rw [hquiet.desk]
    exact fun entry hmem => (h.given entry hmem).grows hgrows
  · intro c
    rw [hdue, hquiet.written]
    exact h.written c

theorem Routed.plan (h : Routed config s) {todo : List Action}
    (htodo : ∀ action ∈ todo, ProperAction config s action) :
    Routed config { s with todo } :=
  { h with planned := htodo }

theorem Routed.sendEnvelope (h : Routed config s)
    (hproper : Proper config s envelope)
    (hsend : s.sendEnvelope envelope = some t) : Routed config t := by
  rw [Server.sendEnvelope] at hsend
  split at hsend
  · exact Option.some.inj hsend ▸ h
  · split at hsend
    · obtain rfl := Option.some.inj hsend
      have hqueued : ∀ e ∈ s.outgoing ++ [envelope], Proper config s e :=
        fun e hmem =>
          (List.mem_append.1 hmem).elim (h.queued e) fun hlast =>
            List.mem_singleton.1 hlast ▸ hproper
      exact { h with queued := hqueued }
    · cases hsend

/-! ## Requests -/

theorem Routed.handle (h : Routed config s) {request : JSONRPCRequest}
    {route : RequestRoute}
    (hissued : (request.id, route) ∈ s.desk.requests.issued)
    (hconnection : route.connectionId = c) :
    Routed config { s with
      handed := s.handed ++ [{ connectionId := c, request }] } := by
  have hgrows :
      Grows s { s with
        handed := s.handed ++ [{ connectionId := c, request }] } :=
    ⟨List.Subset.refl _, fun handed hmem =>
      ⟨handed, List.mem_append_left _ hmem, rfl, rfl, List.Subset.refl _⟩⟩
  refine ⟨h.balanced, h.numbered, ?_, ?_, ?_, ?_, ?_, h.written⟩
  · intro handed hmem
    rcases List.mem_append.1 hmem with hmem | hmem
    · exact h.handed handed hmem
    · obtain rfl := List.mem_singleton.1 hmem
      exact ⟨route, hissued, hconnection⟩
  · exact fun envelope hmem => (h.queued envelope hmem).grows hgrows
  · exact fun action hmem => (h.planned action hmem).grows hgrows
  · exact fun entry hmem => (h.unsent entry hmem).grows hgrows
  · exact fun entry hmem => (h.given entry hmem).grows hgrows

theorem Routed.fresh (h : Routed config s) (c : ConnectionId) :
    internalRequestId c s.desk.nextInternalRequestOrdinal ∉
      s.desk.requests.issued.map Prod.fst := by
  intro hmem
  obtain ⟨ticket, hissued, heq⟩ := List.mem_map.1 hmem
  obtain ⟨k, hk, hid⟩ := h.numbered ticket hissued
  have hordinal := (internalRequestId_inj (hid.symm.trans heq)).2
  exact hk.ne hordinal

theorem Routed.accept (h : Routed config s) (route : RequestRoute) :
    Routed config { s with desk := s.desk.accept route, todo := [] } := by
  have hfresh := h.fresh route.connectionId
  have hgrows : Grows s { s with desk := s.desk.accept route, todo := [] } :=
    ⟨List.subset_cons_self ..,
      fun handed hmem => ⟨handed, hmem, rfl, rfl, List.Subset.refl _⟩⟩
  have hfree : s.desk.requestRoutes.get
      (internalRequestId route.connectionId s.desk.nextInternalRequestOrdinal) =
      none := by
    refine Keyed.get_eq_none.2 fun entry hmem heq => hfresh ?_
    have hissued := h.balanced.mem_issued.2 (.inl hmem)
    exact heq ▸ List.mem_map_of_mem hissued
  refine ⟨?_, ?_, ?_, ?_, ?_, ?_, ?_, h.written⟩
  · change (s.desk.requests.issue _).Balanced
      (s.desk.requestRoutes.insert _).values
    rw [Keyed.values_insert hfree]
    exact h.balanced.issue hfresh
  · intro ticket hmem
    rcases List.mem_cons.1 hmem with rfl | hmem
    · exact ⟨_, Nat.lt_succ_self _, rfl⟩
    · obtain ⟨k, hk, hid⟩ := h.numbered ticket hmem
      exact ⟨k, Nat.lt_succ_of_lt hk, hid⟩
  · intro handed hmem
    obtain ⟨route', hissued, hconnection⟩ := h.handed handed hmem
    exact ⟨route', List.mem_cons_of_mem _ hissued, hconnection⟩
  · exact fun envelope hmem => (h.queued envelope hmem).grows hgrows
  · exact fun _ hmem => (List.not_mem_nil hmem).elim
  · exact fun entry hmem => (h.unsent entry hmem).grows hgrows
  · exact fun entry hmem => (h.given entry hmem).grows hgrows

theorem Routed.acceptRequest (h : Routed config s)
    (connection : ConnectionState)
    (request : JSONRPCRequest) :
    Routed config (s.acceptRequest config connection request) := by
  let route : RequestRoute := ⟨connection.id, request.id⟩
  have haccept := h.accept route
  refine haccept.quiet (t := { s with
    desk := s.desk.accept route
    connections := (s.acceptRequest config connection request).connections
    todo := [] }) ⟨rfl, rfl, rfl, rfl, fun _ h => h, fun _ h => h,
      fun _ h => h⟩ |>.plan ?_
  let id := internalRequestId connection.id s.desk.nextInternalRequestOrdinal
  have hissued : (({ request with id } : JSONRPCRequest).id, route) ∈
      ({ s with desk := s.desk.accept route } : Server).desk.requests.issued :=
    List.mem_cons_self
  exact properAction_processRequest hissued

theorem Routed.removeRoutes (h : Routed config s) (c : ConnectionId) :
    Routed config { s with
      connections := s.connections.remove c
      desk := s.desk.removeRoutes c } := by
  have hgrows : Grows s { s with
      connections := s.connections.remove c
      desk := s.desk.removeRoutes c } :=
    ⟨List.Subset.refl _,
      fun handed hmem => ⟨handed, hmem, rfl, rfl, List.Subset.refl _⟩⟩
  refine ⟨?_, h.numbered, h.handed, ?_, ?_, ?_, ?_, h.written⟩
  · exact (h.balanced.congr (List.filter_append_perm _ _).symm).cancel
  · exact fun envelope hmem => (h.queued envelope hmem).grows hgrows
  · exact fun action hmem => (h.planned action hmem).grows hgrows
  · exact fun entry hmem => (h.unsent entry hmem).grows hgrows
  · exact fun entry hmem => (h.given entry hmem).grows hgrows

/-! ## Envelopes -/

theorem isInternal_of_given (h : Routed config s)
    (hgiven : GivenTo config s id answer) :
    isInternalRequestId id = true := by
  obtain ⟨route, hissued, -⟩ := hgiven
  obtain ⟨k, -, hid⟩ := h.numbered _ hissued
  rw [show id = _ from hid]
  exact isInternalRequestId_internal ..

theorem answersOf_append (messages : List OutgoingMessage)
    (message : OutgoingMessage) :
    answersOf (messages ++ [message]) =
      answersOf messages ++ message.answer.toList := by
  rw [answersOf, List.filterMap_append]
  cases hanswer : message.answer <;> simp [answersOf, hanswer]

theorem subperm_of_no_answer {messages later : List OutgoingMessage}
    {due : List (RequestId × Answer)} (h : (answersOf messages).Subperm due)
    (hanswer : message.answer = none)
    (hlater : later = messages ∨ later = messages ++ [message]) :
    (answersOf later).Subperm due := by
  rcases hlater with rfl | rfl
  · exact h
  · rwa [answersOf_append, hanswer, Option.toList_none, List.append_nil]

theorem subperm_of_answer {messages later : List OutgoingMessage}
    {due : List (RequestId × Answer)} (h : (answersOf messages).Subperm due)
    (hlater : later = messages ∨ later = messages ++ [.ofAnswer id answer]) :
    (answersOf later).Subperm ((id, answer) :: due) := by
  rcases hlater with rfl | rfl
  · exact h.trans (List.sublist_cons_self ..).subperm
  · rw [answersOf_append, OutgoingMessage.answer_ofAnswer, Option.toList_some]
    exact (List.perm_append_singleton _ _).subperm.trans
      ((List.subperm_cons _).2 h)

theorem Routed.redeem (h : Routed config s) {ticket : RequestId × RequestRoute}
    (hgiven : GivenTo config s ticket.1 answer)
    (hget : s.desk.requestRoutes.get ticket.1 = some ticket)
    {written : ConnectionId → List OutgoingMessage}
    (hwritten : ∀ c, written c = s.written c ∨
      written c = s.written c ++ [.ofAnswer ticket.2.originalRequestId answer] ∧
        ticket.2.connectionId = c) :
    Routed config { s with
      desk := { s.desk with
        requestRoutes := s.desk.requestRoutes.remove ticket.1
        requests := s.desk.requests.redeem ticket answer }
      written } := by
  refine ⟨?_, h.numbered, h.handed, h.queued, h.planned, h.unsent,
    ?_, fun c => ?_⟩
  · exact (h.balanced.congr (Keyed.perm_remove hget)).redeem answer
  · intro entry hmem
    rcases List.mem_cons.1 hmem with rfl | hmem
    · exact hgiven
    · exact h.given entry hmem
  · change (answersOf (written c)).Subperm
      (answersTo c ((ticket, answer) :: s.desk.requests.redeemed) ++ _)
    by_cases hconnection : ticket.2.connectionId = c
    · rw [answersTo_cons_self hconnection]
      exact subperm_of_answer (h.written c) ((hwritten c).imp_right And.left)
    · have hsame : written c = s.written c :=
        (hwritten c).resolve_right fun happended => hconnection happended.2
      rw [answersTo_cons_of_ne hconnection, hsame]
      exact h.written c

theorem Routed.write (h : Routed config s)
    {written : ConnectionId → List OutgoingMessage}
    (hanswer : message.answer = none)
    (hwritten : ∀ c, written c = s.written c ∨
      written c = s.written c ++ [message]) :
    Routed config { s with written } :=
  { h with
    written := fun c =>
      subperm_of_no_answer (h.written c) hanswer (hwritten c) }

theorem flushClosed_quiet (s : Server) (closed : List ConnectionId) :
    Quiet s (s.flushClosed closed) := by
  induction closed generalizing s with
  | nil => exact ⟨rfl, rfl, rfl, rfl, fun _ h => h, fun _ h => h, fun _ h => h⟩
  | cons c rest ih =>
      rw [Server.flushClosed]
      split
      · exact ⟨rfl, rfl, rfl, rfl, fun _ h => h, fun _ h => h, fun _ h => h⟩
      · split
        · obtain ⟨hdesk, hhanded, hwritten, hoverloaded, houtgoing,
              htodo, hunsent⟩ :=
            ih { s with events := s.events ++ [.connectionClosed c] }
          exact ⟨hdesk, hhanded, hwritten, hoverloaded, houtgoing,
            htodo, hunsent⟩
        · exact ⟨rfl, rfl, rfl, rfl, fun _ h => h, fun _ h => h, fun _ h => h⟩

theorem Routed.deliver (h : Routed config s)
    (hproper : Proper config s envelope)
    (writers : ConnectionId → TrySend) :
    Routed config (s.deliver writers envelope) := by
  have hrewritten : Rewritten s.desk envelope (s.desk.rewrite envelope) := by
    refine rewritten_rewrite ?_ ?_
    · rintro message rfl id answer hanswer
      exact isInternal_of_given h (hproper id answer hanswer)
    · rintro c message rfl
      exact hproper
  rw [Server.deliver]
  generalize s.desk.rewrite envelope = result at hrewritten
  dsimp only
  rcases hrewritten with ⟨hget⟩ | _ | ⟨hanswer⟩
  · rename_i ticket answer
    have hgiven := hproper _ _ (OutgoingMessage.answer_ofAnswer _ _)
    refine Routed.quiet ?_ (flushClosed_quiet _ _)
    refine (h.redeem hgiven hget ?_).quiet
      ⟨rfl, rfl, rfl, rfl, fun _ h => h, fun _ h => h, fun _ h => h⟩
    intro c
    refine (Outbound.written_route _ c).imp_right fun hroute => ⟨hroute.1, ?_⟩
    rcases hroute.2.addressed with ⟨message, heq⟩ | ⟨⟨message, heq⟩, -⟩
    · exact (OutgoingEnvelope.toConnection.inj heq).1
    · cases heq
  · exact h
  · refine Routed.quiet ?_ (flushClosed_quiet _ _)
    refine (h.write hanswer ?_).quiet
      ⟨rfl, rfl, rfl, rfl, fun _ h => h, fun _ h => h, fun _ h => h⟩
    exact fun c => (Outbound.written_route _ c).imp_right And.left

/-! ## Steps -/

theorem Routed.act (h : Routed config s) {action : Action}
    (hproper : ProperAction config s action)
    (hact : s.act config action = some t) :
    Routed config t := by
  have hquiet : ∀ {next : Server}, some next = some t → Quiet s next →
      Routed config t :=
    fun heq hnext => Option.some.inj heq ▸ h.quiet hnext
  have hnil : ∀ {α : Type} (l : List α), [] ⊆ l := fun l => List.nil_subset l
  cases action with
  | send => exact h.sendEnvelope hproper hact
  | handle c request =>
      obtain ⟨route, hissued, hconnection⟩ := hproper
      exact Option.some.inj hact ▸ h.handle hissued hconnection
  | removeConnection c => exact Option.some.inj hact ▸ h.removeRoutes c
  | sendOpened | sendClosed =>
      rw [Server.act] at hact
      split at hact
      · exact hquiet hact ⟨rfl, rfl, rfl, rfl, fun _ h => h,
          hnil _, fun _ h => h⟩
      · split at hact
        · exact hquiet hact ⟨rfl, rfl, rfl, rfl, fun _ h => h,
            fun _ h => h, fun _ h => h⟩
        · cases hact
  | waitForRequestRoutes =>
      rw [Server.act] at hact
      split at hact
      · cases hact
      · exact Option.some.inj hact ▸ h
  | stopIfEmpty =>
      rw [Server.act] at hact
      split at hact
      · exact hquiet hact ⟨rfl, rfl, rfl, rfl, fun _ h => h,
          hnil _, fun _ h => h⟩
      · exact Option.some.inj hact ▸ h
  | _ =>
      exact hquiet hact ⟨rfl, rfl, rfl, rfl, fun _ h => h,
        fun _ h => h, fun _ h => h⟩

theorem Routed.takeEvent (h : Routed config s) (event : TransportEvent) :
    Routed config (s.takeEvent config event) := by
  have hplain : ∀ todo : List Action,
      (∀ action ∈ todo, ProperAction config s action) →
      Routed config { s with todo } := fun _ => h.plan
  rcases event with ⟨c, notify⟩ | c | ⟨c, message⟩
  · exact hplain _ (List.forall_mem_singleton.2 trivial)
  · refine hplain _ fun action hmem => ?_
    rw [Server.closeActions] at hmem
    split at hmem <;>
      · simp only [List.mem_cons, List.not_mem_nil, or_false] at hmem
        rcases hmem with rfl | rfl | rfl | rfl | rfl <;> trivial
  · cases message with
    | request request =>
        rw [Server.takeEvent]
        split
        · exact h.acceptRequest _ _
        · exact h
    | notification => exact h
    | response => exact hplain _ (List.forall_mem_singleton.2 trivial)
    | error => exact hplain _ (List.forall_mem_singleton.2 trivial)

theorem Routed.process (h : Routed config s) :
    Routed config (s.process config) := by
  rw [Server.process]
  split
  · exact h
  · split
    next action rest htodo =>
      have hrest : Routed config { s with todo := rest } :=
        h.plan fun a hmem => h.planned a (htodo ▸ List.mem_cons_of_mem _ hmem)
      have hproper : ProperAction config s action :=
        h.planned action (htodo ▸ List.mem_cons_self)
      cases hact : Server.act config { s with todo := rest } action with
      | none => exact h
      | some next =>
          have hproper' : ProperAction config { s with todo := rest } action :=
            hproper.grows (.of_eq rfl rfl)
          exact hrest.act hproper' hact
    next htodo =>
      split
      next event rest hevents =>
        have hrest : Routed config { s with events := rest } :=
          h.quiet ⟨rfl, rfl, rfl, rfl, fun _ h => h, fun _ h => h, fun _ h => h⟩
        exact hrest.takeEvent event
      next => exact h

/-- A request that finds the queue full is refused under its own id. -/
theorem Routed.refuse (h : Routed config s) (c : ConnectionId)
    (id : RequestId) :
    Routed config { s with
      written := Function.update s.written c
        (s.written c ++ [.error id overloadError])
      overloaded := Function.update s.overloaded c
        (s.overloaded c ++ [id]) } := by
  refine { h with written := fun other => ?_ }
  by_cases hother : other = c
  · subst hother
    have hdue := h.written other
    rw [Server.dueTo] at hdue ⊢
    dsimp only
    rw [Function.update_self, Function.update_self, answersOf_append,
      List.map_append,
      ← List.append_assoc]
    exact (List.subperm_append_right _).2 hdue
  · have hdue := h.written other
    rw [Server.dueTo] at hdue ⊢
    dsimp only
    rwa [Function.update_of_ne hother, Function.update_of_ne hother]

theorem Routed.arrive (h : Routed config s) (c : ConnectionId)
    (message : JSONRPCMessage)
    (writer : TrySend) : Routed config (s.arrive c message writer) := by
  unfold Server.arrive
  split
  · exact h
  · split
    · exact h.quiet ⟨rfl, rfl, rfl, rfl, fun _ h => h,
        fun _ h => h, fun _ h => h⟩
    · split
      · exact h.refuse _ _
      · exact h

theorem Routed.pollControl (h : Routed config s) :
    Routed config s.pollControl := by
  rw [Server.pollControl]
  split
  · exact h
  · split
    next event rest heq =>
      refine Routed.quiet ?_ (flushClosed_quiet _ _)
      cases event <;>
        exact h.quiet ⟨rfl, rfl, rfl, rfl, fun _ h => h,
          fun _ h => h, fun _ h => h⟩
    next =>
      split <;>
        exact h.quiet ⟨rfl, rfl, rfl, rfl, fun _ h => h,
          fun _ h => h, fun _ h => h⟩

theorem Routed.pollOutgoing (h : Routed config s)
    (writers : ConnectionId → TrySend) :
    Routed config (s.pollOutgoing writers) := by
  rw [Server.pollOutgoing]
  split
  · exact h
  · split
    next envelope rest heq =>
      have hrest : Routed config { s with outgoing := rest, polled := false } :=
        h.quiet ⟨rfl, rfl, rfl, rfl,
          fun _ hmem => heq ▸ List.mem_cons_of_mem _ hmem,
          fun _ h => h, fun _ h => h⟩
      refine hrest.deliver ?_ writers
      exact (h.queued envelope (heq ▸ List.mem_cons_self)).grows
        (.of_eq rfl rfl)
    next =>
      exact h.quiet ⟨rfl, rfl, rfl, rfl, fun _ h => h,
        fun _ h => h, fun _ h => h⟩

theorem Routed.remember (h : Routed config s) {k : ℕ} {handed : Handed}
    (hhanded : s.handed[k]? = some handed) (answer : Answer) :
    let later := { handed with answers := handed.answers ++ [answer] }
    Routed config { s with handed := s.handed.set k later } ∧
      GivenTo config { s with
        handed := s.handed.set k later } handed.request.id answer := by
  intro later
  obtain ⟨hlt, hget⟩ := List.getElem?_eq_some_iff.1 hhanded
  have hmem : handed ∈ s.handed := hget ▸ List.getElem_mem hlt
  have hlater : later ∈ s.handed.set k later := List.mem_set hlt later
  obtain ⟨route, hissued, hconnection⟩ := h.handed handed hmem
  have hgrows : Grows s { s with handed := s.handed.set k later } := by
    refine ⟨List.Subset.refl _, fun other hother => ?_⟩
    rcases mem_or_mem_set hhanded hother later with rfl | hother
    · exact ⟨later, hlater, rfl, rfl, List.subset_append_left ..⟩
    · exact ⟨other, hother, rfl, rfl, List.Subset.refl _⟩
  refine ⟨⟨h.balanced, h.numbered, ?_, ?_, ?_, ?_, ?_, h.written⟩, ?_⟩
  · intro other hother
    rcases List.mem_or_eq_of_mem_set hother with hother | rfl
    · exact h.handed other hother
    · exact ⟨route, hissued, hconnection⟩
  · exact fun envelope hmem => (h.queued envelope hmem).grows hgrows
  · exact fun action hmem => (h.planned action hmem).grows hgrows
  · exact fun entry hmem => (h.unsent entry hmem).grows hgrows
  · exact fun entry hmem => (h.given entry hmem).grows hgrows
  · refine ⟨route, hissued, .inr ⟨later, hlater, hconnection.symm, rfl, ?_⟩⟩
    exact List.mem_append_right _ (List.mem_singleton_self _)

theorem Routed.giveAnswer (h : Routed config s) (k : ℕ) (answer : Answer) :
    Routed config (s.answer k answer) := by
  rw [Server.answer]
  split
  next handed hhanded =>
    obtain ⟨hremembered, hgiven⟩ := h.remember hhanded answer
    let later := { handed with answers := handed.answers ++ [answer] }
    have hproper : Proper config { s with handed := s.handed.set k later }
        (.broadcast (.ofAnswer handed.request.id answer)) := by
      intro id answer' heq
      rw [OutgoingMessage.answer_ofAnswer] at heq
      cases heq
      exact hgiven
    rw [Server.sendEnvelope]
    split
    · exact hremembered
    · split
      · refine { hremembered with queued := fun envelope hmem => ?_ }
        rcases List.mem_append.1 hmem with hmem | hmem
        · exact hremembered.queued envelope hmem
        · exact List.mem_singleton.1 hmem ▸ hproper
      · exact h
  next => exact h

theorem Routed.sendOrWait (h : Routed config s)
    (hproper : Proper config s envelope) :
    Routed config ((s.sendEnvelope envelope).getD s) := by
  cases hsend : s.sendEnvelope envelope with
  | none => exact h
  | some next => exact h.sendEnvelope hproper hsend

theorem Routed.ask (h : Routed config s) (k : ℕ) (method : String)
    (params : Option Json) :
    Routed config (s.ask k method params) := by
  rw [Server.ask]
  split
  · refine { h with unsent := fun entry hmem => ?_ }
    rcases List.mem_append.1 hmem with hmem | hmem
    · exact h.unsent entry hmem
    · obtain rfl := List.mem_singleton.1 hmem
      exact (rfl : (OutgoingMessage.request _ _ _).answer = none)
  · exact h

theorem Routed.sendRequest (h : Routed config s) (i : ℕ) :
    Routed config (s.sendRequest i) := by
  rw [Server.sendRequest]
  split
  next id envelope hget =>
    have hproper := h.unsent _ (List.mem_of_getElem? hget)
    have herase : s.unsent.eraseIdx i ⊆ s.unsent := List.eraseIdx_subset
    split
    · exact h.quiet ⟨rfl, rfl, rfl, rfl, fun _ h => h, fun _ h => h, herase⟩
    · cases hsend : s.sendEnvelope envelope with
      | none => exact h
      | some next =>
          have hnext := h.sendEnvelope hproper hsend
          have hunsent : next.unsent = s.unsent := by
            rw [Server.sendEnvelope] at hsend
            split at hsend
            · exact Option.some.inj hsend ▸ rfl
            · split at hsend
              · exact Option.some.inj hsend ▸ rfl
              · cases hsend
          exact hnext.quiet ⟨rfl, rfl, rfl, rfl, fun _ h => h, fun _ h => h,
            hunsent ▸ herase⟩
  next => exact h

theorem Routed.step (h : Routed config s) (label : Label) :
    Routed config (s.step config label) := by
  cases label with
  | connect =>
      rw [Server.step]
      split
      · exact h
      · exact h.quiet ⟨rfl, rfl, rfl, rfl, fun _ h => h,
          fun _ h => h, fun _ h => h⟩
  | accept c =>
      rw [Server.step, Server.acceptConnection]
      split
      · exact h
      · exact h.quiet ⟨rfl, rfl, rfl, rfl, fun _ h => h,
          fun _ h => h, fun _ h => h⟩
  | arrive c message writer => exact h.arrive c message writer
  | disconnect c =>
      rw [Server.step, Server.disconnect]
      split
      · exact h
      · split
        · exact h.quiet ⟨rfl, rfl, rfl, rfl, fun _ h => h,
            fun _ h => h, fun _ h => h⟩
        · split
          · exact h.quiet ⟨rfl, rfl, rfl, rfl, fun _ h => h,
              fun _ h => h, fun _ h => h⟩
          · exact h
  | process => exact h.process
  | pollControl => exact h.pollControl
  | pollOutgoing writers => exact h.pollOutgoing writers
  | answer k answer => exact h.giveAnswer k answer
  | notify k method params =>
      rw [Server.step, Server.notify]
      split
      · exact h.sendOrWait
          (rfl : (OutgoingMessage.notification _ _).answer = none)
      · exact h
  | broadcast method params =>
      exact h.sendOrWait fun _ _ heq => by cases heq
  | ask k method params => exact h.ask k method params
  | sendRequest i => exact h.sendRequest i

theorem routed_run (config : ServerConfig) (labels : List Label) :
    Routed config (Server.run config labels) :=
  after_induction (P := Routed config) (fun _ label h => h.step label)
    routed_start labels

/-! ## No more answers than requests -/

/-- A request with some id, as a message, as an event of a connection and as a
step. -/
def JSONRPCMessage.asks (id : RequestId) : JSONRPCMessage → Bool
  | .request asked => asked.id = id
  | _ => false

def TransportEvent.asks (c : ConnectionId) (id : RequestId) :
    TransportEvent → Bool
  | .incomingMessage c' message => c' = c && message.asks id
  | _ => false

def Label.asks (c : ConnectionId) (id : RequestId) : Label → Bool
  | .arrive c' message _ => c' = c && message.asks id
  | _ => false

/-- How often a connection has asked with an id: requests that were accepted,
that were refused since the server was overloaded, or that wait to be read. -/
def Server.asked (c : ConnectionId) (id : RequestId) (s : Server) : ℕ :=
  s.desk.requests.issued.countP (fun ticket => ticket.2 = ⟨c, id⟩) +
    ((s.overloaded c).count id + s.events.countP (TransportEvent.asks c id))

/-- A step that accepts and refuses no request. -/
structure AsksNothing (c : ConnectionId) (id : RequestId)
    (s t : Server) : Prop where
  issued : t.desk.requests.issued = s.desk.requests.issued
  overloaded : t.overloaded = s.overloaded
  events : t.events.countP (TransportEvent.asks c id) ≤
    s.events.countP (TransportEvent.asks c id)

theorem AsksNothing.le (h : AsksNothing c id s t) :
    t.asked c id ≤ s.asked c id := by
  rw [Server.asked, h.issued, h.overloaded]
  exact Nat.add_le_add_left (Nat.add_le_add_left h.events _) _

theorem AsksNothing.trans {u : Server} (hfirst : AsksNothing c id s t)
    (hnext : AsksNothing c id t u) : AsksNothing c id s u :=
  ⟨hnext.issued.trans hfirst.issued, hnext.overloaded.trans hfirst.overloaded,
    hnext.events.trans hfirst.events⟩

theorem asksNothing_flushClosed (s : Server) (closed : List ConnectionId) :
    AsksNothing c id s (s.flushClosed closed) := by
  induction closed generalizing s with
  | nil => exact ⟨rfl, rfl, le_rfl⟩
  | cons d rest ih =>
      rw [Server.flushClosed]
      split
      · exact ⟨rfl, rfl, le_rfl⟩
      · split
        · obtain ⟨hissued, hoverloaded, hevents⟩ :=
            ih { s with events := s.events ++ [.connectionClosed d] }
          refine ⟨hissued, hoverloaded, hevents.trans ?_⟩
          rw [List.countP_append]
          exact le_rfl
        · exact ⟨rfl, rfl, le_rfl⟩

theorem asksNothing_sendEnvelope (h : s.sendEnvelope envelope = some t) :
    AsksNothing c id s t := by
  rw [Server.sendEnvelope] at h
  split at h
  · exact Option.some.inj h ▸ ⟨rfl, rfl, le_rfl⟩
  · split at h
    · exact Option.some.inj h ▸ ⟨rfl, rfl, le_rfl⟩
    · cases h

theorem asksNothing_act {action : Action} (h : s.act config action = some t) :
    AsksNothing c id s t := by
  cases action with
  | send => exact asksNothing_sendEnvelope h
  | sendOpened | sendClosed =>
      rw [Server.act] at h
      split at h
      · exact Option.some.inj h ▸ ⟨rfl, rfl, le_rfl⟩
      · split at h
        · exact Option.some.inj h ▸ ⟨rfl, rfl, le_rfl⟩
        · cases h
  | waitForRequestRoutes =>
      rw [Server.act] at h
      split at h
      · cases h
      · exact Option.some.inj h ▸ ⟨rfl, rfl, le_rfl⟩
  | stopIfEmpty =>
      rw [Server.act] at h
      split at h
      · exact Option.some.inj h ▸ ⟨rfl, rfl, le_rfl⟩
      · exact Option.some.inj h ▸ ⟨rfl, rfl, le_rfl⟩
  | _ => exact Option.some.inj h ▸ ⟨rfl, rfl, le_rfl⟩

/-- A request that is read was waiting before. -/
theorem asked_takeEvent_le (event : TransportEvent) :
    (s.takeEvent config event).asked c id ≤
      s.asked c id + (event.asks c id).toNat := by
  have hsame : ∀ {t : Server}, AsksNothing c id s t →
      t.asked c id ≤ s.asked c id + (event.asks c id).toNat := fun h =>
    h.le.trans (Nat.le_add_right _ _)
  rcases event with ⟨d, notify⟩ | d | ⟨d, message⟩
  · exact hsame ⟨rfl, rfl, le_rfl⟩
  · exact hsame ⟨rfl, rfl, le_rfl⟩
  · cases message with
    | request request =>
        rw [Server.takeEvent]
        split
        next connection hget =>
          obtain rfl := Keyed.key_of_get hget
          rw [Server.asked, Server.asked]
          change List.countP _ ((_, _) :: s.desk.requests.issued) +
            ((s.overloaded c).count id +
              s.events.countP (TransportEvent.asks c id)) ≤ _
          rw [List.countP_cons]
          have hroute :
              (if decide ((⟨connection.id, request.id⟩ : RequestRoute) =
                ⟨c, id⟩) = true
              then 1 else 0) = ((TransportEvent.incomingMessage connection.id
                (.request request)).asks c id).toNat := by
            simp only [TransportEvent.asks, JSONRPCMessage.asks,
              RequestRoute.mk.injEq,
              Bool.decide_and]
            cases decide (connection.id = c) && decide (request.id = id) <;> rfl
          dsimp only
          rw [hroute]
          omega
        next => exact hsame ⟨rfl, rfl, le_rfl⟩
    | notification => exact hsame ⟨rfl, rfl, le_rfl⟩
    | response => exact hsame ⟨rfl, rfl, le_rfl⟩
    | error => exact hsame ⟨rfl, rfl, le_rfl⟩

theorem asked_process_le : (s.process config).asked c id ≤ s.asked c id := by
  rw [Server.process]
  split
  · exact le_rfl
  · split
    next action rest htodo =>
      cases hact : Server.act config { s with todo := rest } action with
      | none => exact le_rfl
      | some next => exact (asksNothing_act hact).le
    next =>
      split
      next event rest hevents =>
        refine (asked_takeEvent_le event).trans ?_
        rw [Server.asked, Server.asked, hevents, List.countP_cons]
        dsimp only
        cases event.asks c id
        · rw [Bool.toNat_false, if_neg Bool.false_ne_true]
          omega
        · rw [Bool.toNat_true, if_pos rfl]
          omega
      next => exact le_rfl

theorem asked_arrive_le (d : ConnectionId) (message : JSONRPCMessage)
    (writer : TrySend) :
    (s.arrive d message writer).asked c id ≤
      s.asked c id + ((Label.arrive d message writer).asks c id).toNat := by
  unfold Server.arrive
  split
  · exact Nat.le_add_right ..
  · split
    · rw [Server.asked, Server.asked, List.countP_append, List.countP_singleton]
      rw [TransportEvent.asks, Label.asks]
      cases decide (d = c) && message.asks id with
      | false => exact Nat.le_add_right ..
      | true => exact le_rfl
    · split
      next _ _ request =>
        rw [Server.asked, Server.asked, Label.asks, JSONRPCMessage.asks]
        dsimp only
        by_cases hd : c = d
        · subst hd
          rw [Function.update_self, List.count_append, List.count_singleton]
          by_cases hid : request.id = id <;> simp [hid]
          omega
        · rw [Function.update_of_ne hd]
          exact Nat.le_add_right ..
      next => exact Nat.le_add_right ..

/-- Only a request that arrives raises the number. -/
theorem asked_step_le (s : Server) (label : Label) :
    (s.step config label).asked c id ≤
      s.asked c id + (label.asks c id).toNat := by
  have hsame : ∀ {t : Server}, AsksNothing c id s t →
      t.asked c id ≤ s.asked c id + (label.asks c id).toNat := fun h =>
    h.le.trans (Nat.le_add_right _ _)
  have hsend : ∀ envelope,
      AsksNothing c id s ((s.sendEnvelope envelope).getD s) := by
    intro envelope
    cases hsend : s.sendEnvelope envelope with
    | none => exact ⟨rfl, rfl, le_rfl⟩
    | some next => exact asksNothing_sendEnvelope hsend
  cases label with
  | connect =>
      refine hsame ?_
      rw [Server.step]
      split <;> exact ⟨rfl, rfl, le_rfl⟩
  | accept d =>
      refine hsame ?_
      rw [Server.step, Server.acceptConnection]
      split
      · exact ⟨rfl, rfl, le_rfl⟩
      · exact ⟨rfl, rfl, by rw [List.countP_append]; exact le_rfl⟩
  | arrive d message writer => exact asked_arrive_le d message writer
  | disconnect d =>
      refine hsame ?_
      rw [Server.step, Server.disconnect]
      split
      · exact ⟨rfl, rfl, le_rfl⟩
      · split
        · exact ⟨rfl, rfl, le_rfl⟩
        · split
          · exact ⟨rfl, rfl, by rw [List.countP_append]; exact le_rfl⟩
          · exact ⟨rfl, rfl, le_rfl⟩
  | process => exact asked_process_le.trans (Nat.le_add_right _ _)
  | pollControl =>
      refine hsame ?_
      rw [Server.step, Server.pollControl]
      split
      · exact ⟨rfl, rfl, le_rfl⟩
      · split
        next event rest heq =>
          refine AsksNothing.trans ?_ (asksNothing_flushClosed _ _)
          cases event <;> exact ⟨rfl, rfl, le_rfl⟩
        next => split <;> exact ⟨rfl, rfl, le_rfl⟩
  | pollOutgoing writers =>
      refine hsame ?_
      rw [Server.step, Server.pollOutgoing]
      split
      · exact ⟨rfl, rfl, le_rfl⟩
      · split
        next envelope rest heq =>
          rw [Server.deliver]
          have hissued : (s.desk.rewrite envelope).2.requests.issued =
              s.desk.requests.issued := by
            rcases @requests_rewrite s.desk envelope with
              h | ⟨ticket, answer, h⟩
            · rw [h]
            · rw [h]
              rfl
          dsimp only
          split
          next rewritten hrewritten =>
            refine AsksNothing.trans ?_ (asksNothing_flushClosed _ _)
            exact ⟨hissued, rfl, le_rfl⟩
          next => exact ⟨hissued, rfl, le_rfl⟩
        next => exact ⟨rfl, rfl, le_rfl⟩
  | answer k answer =>
      refine hsame ?_
      rw [Server.step, Server.answer]
      split
      next handed hhanded =>
        cases hsend : s.sendEnvelope
          (.broadcast (.ofAnswer handed.request.id answer)) with
        | none => exact ⟨rfl, rfl, le_rfl⟩
        | some next =>
            have hnothing :
                AsksNothing c id s next := asksNothing_sendEnvelope hsend
            exact ⟨hnothing.issued, hnothing.overloaded, hnothing.events⟩
      next => exact ⟨rfl, rfl, le_rfl⟩
  | notify k method params =>
      refine hsame ?_
      rw [Server.step, Server.notify]
      split
      · exact hsend _
      · exact ⟨rfl, rfl, le_rfl⟩
  | broadcast method params => exact hsame (hsend _)
  | ask k method params =>
      refine hsame ?_
      rw [Server.step, Server.ask]
      split <;> exact ⟨rfl, rfl, le_rfl⟩
  | sendRequest i =>
      refine hsame ?_
      rw [Server.step, Server.sendRequest]
      split
      next internal envelope hget =>
        split
        · exact ⟨rfl, rfl, le_rfl⟩
        · cases hsend : s.sendEnvelope envelope with
          | none => exact ⟨rfl, rfl, le_rfl⟩
          | some next =>
              have hnothing :
                  AsksNothing c id s next := asksNothing_sendEnvelope hsend
              exact ⟨hnothing.issued, hnothing.overloaded, hnothing.events⟩
      next => exact ⟨rfl, rfl, le_rfl⟩

/-! ## What a client sees -/

theorem countP_answersTo
    (redeemed : List ((RequestId × RequestRoute) × Answer)) :
    (answersTo c redeemed).countP (fun entry => entry.1 = id) =
      redeemed.countP fun entry => entry.1.2 = ⟨c, id⟩ := by
  rw [answersTo, List.countP_map, List.countP_filter]
  refine List.countP_congr fun entry _ => ?_
  obtain ⟨⟨internal, ⟨c', id'⟩⟩, answer⟩ := entry
  simp [and_comm]

theorem Routed.countP_answersOf_le (h : Routed config s) (c : ConnectionId)
    (id : RequestId) :
    (answersOf (s.written c)).countP (fun entry => entry.1 = id) ≤
      s.asked c id := by
  have hdue := (h.written c).countP_le fun entry => decide (entry.1 = id)
  rw [Server.dueTo, List.countP_append, countP_answersTo,
    List.countP_map] at hdue
  have hissued := h.balanced.countP_issued fun ticket =>
    decide (ticket.2 = ⟨c, id⟩)
  have hoverloaded : (s.overloaded c).countP ((fun entry : RequestId × Answer =>
      decide (entry.1 = id)) ∘ fun id => (id, .error overloadError)) =
        (s.overloaded c).count id := by
    refine List.countP_congr fun other _ => ?_
    simp
  rw [Server.asked]
  omega

/-- An answer that a connection was written is a refusal of an overloaded
server, or was given to a request of this connection with its id. -/
theorem Routed.answersOf_given (h : Routed config s) {c : ConnectionId}
    {id : RequestId}
    {answer : Answer} (hmem : (id, answer) ∈ answersOf (s.written c)) :
    (id ∈ s.overloaded c ∧ answer = .error overloadError) ∨
      ∃ internal, (internal, ⟨c, id⟩) ∈ s.desk.requests.issued ∧
        GivenTo config s internal answer := by
  rcases List.mem_append.1 ((h.written c).subset hmem) with hmem | hmem
  · obtain ⟨⟨⟨internal, route⟩, given⟩, hredeemed, heq⟩ := List.mem_map.1 hmem
    obtain ⟨hin, hconnection⟩ := List.mem_filter.1 hredeemed
    obtain ⟨rfl, rfl⟩ := Prod.mk.inj heq
    obtain rfl : route.connectionId = c := of_decide_eq_true hconnection
    have hissued : (internal, route) ∈ s.desk.requests.issued :=
      h.balanced.mem_issued.2 (.inr (.inl ⟨_, hin⟩))
    have hgiven := h.given _ hin
    exact .inr ⟨internal, hissued, hgiven⟩
  · obtain ⟨other, hother, heq⟩ := List.mem_map.1 hmem
    obtain ⟨rfl, rfl⟩ := Prod.mk.inj heq
    exact .inl ⟨hother, rfl⟩

/-- What holds for a client of the server. -/
structure AnswersRouted (config : ServerConfig)
    (labels : List Label) (s : Server)
    (c : ConnectionId) : Prop where
  bounded : ∀ id, (answersOf (s.written c)).countP (fun entry => entry.1 = id) ≤
    labels.countP (Label.asks c id)
  given : ∀ id answer, (id, answer) ∈ answersOf (s.written c) →
    (id ∈ s.overloaded c ∧ answer = .error overloadError) ∨
      ∃ internal, (internal, ⟨c, id⟩) ∈ s.desk.requests.issued ∧
        GivenTo config s internal answer
  once : (s.desk.requests.redeemed.map fun entry => entry.1.1).Nodup
  sent : (answersOf (s.written c)).Subperm (s.dueTo c)

/-- In every order of the steps of all tasks, a client gets at most as many
answers with an id as it has sent requests with it, and only answers that were
given to these requests, each to one: no answer goes to another client or to
everybody, and none is sent twice, however often a handler answers and whoever
connects or leaves meanwhile. -/
theorem run_answersRouted (config : ServerConfig) (labels : List Label)
    (c : ConnectionId) :
    AnswersRouted config labels (Server.run config labels) c := by
  have h := routed_run config labels
  refine ⟨fun id => ?_, fun _ _ => h.answersOf_given,
    h.balanced.nodup_redeemed, h.written c⟩
  have hasked : (Server.run config labels).asked c id ≤
      (Server.start config).asked c id + labels.countP (Label.asks c id) :=
    after_measure_le (fun s label => asked_step_le s label) _ labels
  have hstart : (Server.start config).asked c id = 0 := by
    rw [Server.start]
    split <;> rfl
  rw [hstart, Nat.zero_add] at hasked
  exact (h.countP_answersOf_le c id).trans hasked

end CodeRs.AppServer
