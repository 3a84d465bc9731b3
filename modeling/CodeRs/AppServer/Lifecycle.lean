import CodeRs.AppServer.Routing

/-!
# Requests of a connection that stays open are not lost

The id of a connection is used for one connection only.  So a request that was
accepted keeps its route until it is answered or its connection is removed, and
a server over stdio, which waits for the answers before it removes its
connection, has answered every request when it ends.
-/

namespace CodeRs.AppServer

variable {config : ServerConfig} {s t : Server} {c : ConnectionId}
  {envelope : OutgoingEnvelope}

/-! ## Connections that are still to be opened -/

def TransportEvent.opens : TransportEvent → Option ConnectionId
  | .connectionOpened c _ => some c
  | _ => none

def Action.opens : Action → Option ConnectionId
  | .sendOpened c _ => some c
  | _ => none

/-- The connections that have an id, but that the processor has not seen. -/
def Server.unborn (s : Server) : List ConnectionId :=
  s.handshaking ++
    (s.events.filterMap TransportEvent.opens ++ s.todo.filterMap Action.opens)

/-- Whom the processor knows, and whose requests it has given up. -/
structure Living (s : Server) : Prop where
  nodup : s.unborn.Nodup
  lt : ∀ c ∈ s.unborn, c < s.nextConnectionId
  born : ∀ connection ∈ s.connections.values,
    connection.id ∉ s.unborn ∧ connection.id < s.nextConnectionId
  routes : ∀ ticket ∈ s.desk.requestRoutes.values,
    ∃ connection ∈ s.connections.values,
    connection.id = ticket.2.connectionId
  cancelled : ∀ ticket ∈ s.desk.requests.cancelled,
    (ticket.2.connectionId ∉ s.unborn ∧
      ticket.2.connectionId < s.nextConnectionId) ∧
      ∀ connection ∈ s.connections.values, connection.id ≠ ticket.2.connectionId

/-- A step after which nobody else is known or to be opened, and no more
requests wait or were given up. -/
structure Still (s t : Server) : Prop where
  unborn : t.unborn.Subperm s.unborn
  next : s.nextConnectionId ≤ t.nextConnectionId
  connections : t.connections = s.connections
  routes : t.desk.requestRoutes.values ⊆ s.desk.requestRoutes.values
  cancelled : t.desk.requests.cancelled = s.desk.requests.cancelled

theorem Still.refl (s : Server) : Still s s :=
  ⟨.refl _, le_rfl, rfl, fun _ h => h, rfl⟩

theorem Still.trans {u : Server} (h : Still s t) (h' : Still t u) : Still s u :=
  ⟨h'.unborn.trans h.unborn, h.next.trans h'.next,
    h'.connections.trans h.connections,
    fun _ hmem => h.routes (h'.routes hmem), h'.cancelled.trans h.cancelled⟩

theorem Still.of_eq (hhandshaking : t.handshaking = s.handshaking)
    (hevents : t.events.filterMap TransportEvent.opens =
      s.events.filterMap TransportEvent.opens)
    (htodo : t.todo.filterMap Action.opens = s.todo.filterMap Action.opens)
    (hnext : t.nextConnectionId = s.nextConnectionId)
    (hconnections : t.connections = s.connections) (hdesk : t.desk = s.desk) :
    Still s t := by
  refine ⟨?_, hnext.ge, hconnections, hdesk ▸ fun _ h => h, hdesk ▸ rfl⟩
  rw [Server.unborn, hhandshaking, hevents, htodo]
  exact .refl _

theorem nodup_of_subperm {α : Type} {l l' : List α} (h : l.Subperm l')
    (hnodup : l'.Nodup) :
    l.Nodup := by
  obtain ⟨m, hperm, hsublist⟩ := h
  exact hperm.nodup_iff.1 (hnodup.sublist hsublist)

theorem Living.still (h : Living s) (hstill : Still s t) : Living t where
  nodup := nodup_of_subperm hstill.unborn h.nodup
  lt c hmem := (h.lt c (hstill.unborn.subset hmem)).trans_le hstill.next
  born := by
    rw [hstill.connections]
    intro connection hmem
    obtain ⟨hborn, hlt⟩ := h.born connection hmem
    exact ⟨fun hin => hborn (hstill.unborn.subset hin),
      hlt.trans_le hstill.next⟩
  routes := by
    rw [hstill.connections]
    exact fun ticket hmem => h.routes ticket (hstill.routes hmem)
  cancelled := by
    rw [hstill.connections, hstill.cancelled]
    intro ticket hmem
    obtain ⟨⟨hborn, hlt⟩, hgone⟩ := h.cancelled ticket hmem
    exact ⟨⟨fun hin => hborn (hstill.unborn.subset hin),
      hlt.trans_le hstill.next⟩, hgone⟩

theorem living_start : Living (.start config) := by
  rw [Server.start]
  split
  · refine ⟨List.nodup_singleton 0, ?_, ?_, ?_, ?_⟩
    · exact List.forall_mem_singleton.2 Nat.zero_lt_one
    all_goals exact fun _ h => (List.not_mem_nil h).elim
  · refine ⟨List.nodup_nil, ?_, ?_, ?_, ?_⟩ <;>
      exact fun _ h => (List.not_mem_nil h).elim

/-- What the other tasks do in a step: nothing is planned, and the router ends
only behind the processor. -/
structure Aside (s t : Server) : Prop extends Still s t where
  todo : t.todo = s.todo
  stopped : t.stopped = s.stopped
  router : t.routerStopped = true → s.routerStopped = true ∨ s.stopped = true

theorem Aside.refl (s : Server) : Aside s s := ⟨.refl s, rfl, rfl, .inl⟩

theorem Aside.trans {u : Server} (h : Aside s t) (h' : Aside t u) :
    Aside s u := by
  refine ⟨h.toStill.trans h'.toStill, h'.todo.trans h.todo,
    h'.stopped.trans h.stopped, ?_⟩
  intro hrouter
  rcases h'.router hrouter with hrouter | hstopped
  · exact h.router hrouter
  · exact .inr (h.stopped ▸ hstopped)

theorem Aside.of_eq (hhandshaking : t.handshaking = s.handshaking)
    (hevents : t.events.filterMap TransportEvent.opens =
      s.events.filterMap TransportEvent.opens)
    (htodo : t.todo = s.todo) (hnext : t.nextConnectionId = s.nextConnectionId)
    (hconnections : t.connections = s.connections) (hdesk : t.desk = s.desk)
    (hstopped : t.stopped = s.stopped)
    (hrouter : t.routerStopped = s.routerStopped) :
    Aside s t :=
  ⟨.of_eq hhandshaking hevents (htodo ▸ rfl) hnext hconnections hdesk,
    htodo, hstopped,
    fun h => .inl (hrouter ▸ h)⟩

theorem aside_sendEnvelope (h : s.sendEnvelope envelope = some t) :
    Aside s t := by
  rw [Server.sendEnvelope] at h
  split at h
  · exact Option.some.inj h ▸ .refl s
  · split at h
    · exact Option.some.inj h ▸ .of_eq rfl rfl rfl rfl rfl rfl rfl rfl
    · cases h

/-! ## The processor -/

theorem Living.open (h : Living s) (hborn : c ∉ s.unborn)
    (hlt : c < s.nextConnectionId)
    (hgone : ∀ ticket ∈ s.desk.requests.cancelled, ticket.2.connectionId ≠ c) :
    Living { s with connections := s.connections.insert { id := c } } := by
  refine ⟨h.nodup, h.lt, ?_, ?_, ?_⟩
  · intro connection hmem
    rcases Keyed.mem_insert.1 hmem with rfl | ⟨hmem, -⟩
    · exact ⟨hborn, hlt⟩
    · exact h.born connection hmem
  · intro ticket hmem
    obtain ⟨connection, hin, hid⟩ := h.routes ticket hmem
    by_cases heq : connection.id = c
    · exact ⟨_, Keyed.mem_insert.2 (.inl rfl), heq.symm.trans hid⟩
    · exact ⟨connection, Keyed.mem_insert.2 (.inr ⟨hin, heq⟩), hid⟩
  · intro ticket hmem
    obtain ⟨hticket, hother⟩ := h.cancelled ticket hmem
    refine ⟨hticket, fun connection hin => ?_⟩
    rcases Keyed.mem_insert.1 hin with rfl | ⟨hin, -⟩
    · exact (hgone ticket hmem).symm
    · exact hother connection hin

theorem Living.removeConnection (h : Living s) (c : ConnectionId) :
    Living { s with
      connections := s.connections.remove c,
      desk := s.desk.removeRoutes c } := by
  refine ⟨h.nodup, h.lt, ?_, ?_, ?_⟩
  · exact fun connection hmem => h.born connection (Keyed.mem_remove.1 hmem).1
  · intro ticket hmem
    obtain ⟨hin, hne⟩ := List.mem_filter.1 hmem
    obtain ⟨connection, hconnection, hid⟩ := h.routes ticket hin
    exact ⟨connection,
      Keyed.mem_remove.2 ⟨hconnection, hid ▸ of_decide_eq_true hne⟩, hid⟩
  · intro ticket hmem
    rcases List.mem_append.1 hmem with hmem | hmem
    · obtain ⟨hin, heq⟩ := List.mem_filter.1 hmem
      obtain ⟨connection, hconnection, hid⟩ := h.routes ticket hin
      have hc : ticket.2.connectionId = c := by simpa using heq
      refine ⟨hid ▸ h.born connection hconnection, fun other hother => ?_⟩
      exact hc ▸ (Keyed.mem_remove.1 hother).2
    · obtain ⟨hticket, hother⟩ := h.cancelled ticket hmem
      exact ⟨hticket,
        fun connection hin => hother connection (Keyed.mem_remove.1 hin).1⟩

theorem opens_processRequest (connectionId : ConnectionId)
    (session : ConnectionSessionState)
    (request : JSONRPCRequest) :
    (processRequest config connectionId session request).2.filterMap
      Action.opens = [] := by
  have hwarnings :
      (initializeNotifications config connectionId).filterMap Action.opens =
        [] :=
    List.filterMap_eq_nil_iff.2 fun action hmem => by
      obtain ⟨warning, -, rfl⟩ := List.mem_map.1 hmem
      rfl
  have hprocessed :=
    processed_processRequest config connectionId session request
  generalize processRequest config connectionId session request =
    result at hprocessed
  rcases hprocessed with _ | _ | _ | _
  · rfl
  · rfl
  · rfl
  · rw [List.filterMap_append, hwarnings]
    rfl

theorem Living.acceptRequest (h : Living s) {connection : ConnectionState}
    (hmem : connection ∈ s.connections.values) (htodo : s.todo = [])
    (request : JSONRPCRequest) :
    Living (s.acceptRequest config connection request) := by
  have hunborn :
      (s.acceptRequest config connection request).unborn = s.unborn := by
    rw [Server.unborn, Server.unborn, htodo]
    exact congrArg (fun l => s.handshaking ++ (_ ++ l))
      (opens_processRequest ..)
  have hids :
      ∀ other ∈ (s.acceptRequest config connection request).connections.values,
      ∃ before ∈ s.connections.values, before.id = other.id := by
    intro other hother
    rcases Keyed.mem_insert.1 hother with rfl | ⟨hother, -⟩
    · exact ⟨connection, hmem, rfl⟩
    · exact ⟨other, hother, rfl⟩
  have hkept : ∀ before ∈ s.connections.values,
      ∃ other ∈ (s.acceptRequest config connection request).connections.values,
        other.id = before.id := by
    intro before hbefore
    by_cases heq : before.id = connection.id
    · exact ⟨_, Keyed.mem_insert.2 (.inl rfl), heq.symm⟩
    · exact ⟨before, Keyed.mem_insert.2 (.inr ⟨hbefore, heq⟩), rfl⟩
  refine ⟨hunborn ▸ h.nodup, hunborn ▸ h.lt, ?_, ?_, ?_⟩
  · intro other hother
    obtain ⟨before, hbefore, hid⟩ := hids other hother
    rw [hunborn, ← hid]
    exact h.born before hbefore
  · intro ticket hticket
    rcases Keyed.mem_insert.1 hticket with rfl | ⟨hticket, -⟩
    · exact hkept connection hmem
    · obtain ⟨before, hbefore, hid⟩ := h.routes ticket hticket
      obtain ⟨other, hother, hsame⟩ := hkept before hbefore
      exact ⟨other, hother, hsame.trans hid⟩
  · intro ticket hticket
    obtain ⟨hborn, hgone⟩ := h.cancelled ticket hticket
    refine ⟨hunborn ▸ hborn, fun other hother => ?_⟩
    obtain ⟨before, hbefore, hid⟩ := hids other hother
    exact hid ▸ hgone before hbefore

/-- A step that forgets what is planned. -/
theorem still_stop (s : Server) :
    Still s { s with stopped := true, todo := [] } := by
  refine ⟨?_, le_rfl, rfl, fun _ h => h, rfl⟩
  rw [Server.unborn, Server.unborn, List.filterMap_nil, List.append_nil]
  exact ((List.sublist_append_left ..).append_left _).subperm

theorem Living.act (h : Living s) {action : Action}
    (hopen : ∀ c, action.opens = some c →
      (c ∉ s.unborn ∧ c < s.nextConnectionId) ∧
      ∀ ticket ∈ s.desk.requests.cancelled, ticket.2.connectionId ≠ c)
    (hact : s.act config action = some t) : Living t := by
  cases action with
  | send => exact h.still (aside_sendEnvelope hact).toStill
  | sendOpened c =>
      rw [Server.act] at hact
      split at hact
      · exact Option.some.inj hact ▸ h.still (still_stop s)
      · split at hact
        · obtain ⟨⟨hborn, hlt⟩, hgone⟩ := hopen c rfl
          exact Option.some.inj hact ▸
            (h.open hborn hlt hgone).still (.of_eq rfl rfl rfl rfl rfl rfl)
        · cases hact
  | sendClosed =>
      rw [Server.act] at hact
      split at hact
      · exact Option.some.inj hact ▸ h.still (still_stop s)
      · split at hact
        · exact Option.some.inj hact ▸ h.still (.of_eq rfl rfl rfl rfl rfl rfl)
        · cases hact
  | waitForRequestRoutes =>
      rw [Server.act] at hact
      split at hact
      · cases hact
      · exact Option.some.inj hact ▸ h
  | stopIfEmpty =>
      rw [Server.act] at hact
      split at hact
      · exact Option.some.inj hact ▸ h.still (still_stop s)
      · exact Option.some.inj hact ▸ h
  | removeConnection c => exact Option.some.inj hact ▸ h.removeConnection c
  | _ => exact Option.some.inj hact ▸ h.still (.of_eq rfl rfl rfl rfl rfl rfl)

theorem Living.next (h : Living s) {action : Action} {rest : List Action}
    (htodo : s.todo = action :: rest) :
    Living { s with todo := rest } ∧
      ∀ c, action.opens = some c →
        (c ∉ ({ s with todo := rest } : Server).unborn ∧
          c < s.nextConnectionId) ∧
          ∀ ticket ∈ s.desk.requests.cancelled, ticket.2.connectionId ≠ c := by
  have hunborn :
      s.unborn = s.handshaking ++ (s.events.filterMap TransportEvent.opens ++
      (action.opens.toList ++ rest.filterMap Action.opens)) := by
    rw [Server.unborn, htodo]
    cases hopens : action.opens <;> simp [hopens]
  have hrest : ({ s with todo := rest } : Server).unborn.Sublist s.unborn := by
    rw [hunborn]
    exact ((List.sublist_append_right ..).append_left _).append_left _
  refine ⟨h.still ⟨hrest.subperm, le_rfl, rfl, fun _ h => h, rfl⟩,
    fun c hopens => ?_⟩
  have hmem : c ∈ s.unborn := by
    rw [hunborn, hopens]
    simp
  refine ⟨⟨fun hin => ?_, h.lt c hmem⟩, fun ticket hticket heq => ?_⟩
  · have hperm :
        s.unborn.Perm (c :: ({ s with todo := rest } : Server).unborn) := by
      rw [hunborn, hopens, Option.toList_some, List.singleton_append,
        Server.unborn,
        ← List.append_assoc, ← List.append_assoc]
      exact List.perm_middle
    exact (List.nodup_cons.1 (hperm.nodup_iff.1 h.nodup)).1 hin
  · exact (h.cancelled ticket hticket).1.1 (heq ▸ hmem)

theorem opens_closeActions (c : ConnectionId) :
    (Server.closeActions config c).filterMap Action.opens = [] := by
  rw [Server.closeActions]
  split <;> rfl

theorem still_nextEvent {event : TransportEvent} {rest : List TransportEvent}
    (hevents : s.events = event :: rest) :
    Still s { s with events := rest } := by
  refine ⟨?_, le_rfl, rfl, fun _ h => h, rfl⟩
  have hrest : rest.Sublist s.events := hevents ▸ List.sublist_cons_self ..
  exact (((hrest.filterMap _).append_right _).append_left _).subperm

theorem Living.takeEvent (h : Living s) {event : TransportEvent}
    {rest : List TransportEvent}
    (htodo : s.todo = []) (hevents : s.events = event :: rest) :
    Living (Server.takeEvent config { s with events := rest } event) := by
  have hunborn : s.unborn = s.handshaking ++
      (event.opens.toList ++ rest.filterMap TransportEvent.opens) := by
    rw [Server.unborn, htodo, hevents]
    cases hopens : event.opens <;> simp [hopens]
  have hrest : Still s { s with events := rest } := still_nextEvent hevents
  have hplain : ∀ todo : List Action, todo.filterMap Action.opens = [] →
      Living { s with events := rest, todo } := fun todo hopens =>
    (h.still hrest).still
      (.of_eq rfl rfl (by rw [hopens, htodo]; rfl) rfl rfl rfl)
  rcases event with ⟨c, notify⟩ | c | ⟨c, message⟩
  · refine h.still ⟨?_, le_rfl, rfl, fun _ h => h, rfl⟩
    rw [hunborn, Server.unborn]
    exact (List.perm_append_comm.append_left _).subperm
  · exact hplain _ (opens_closeActions c)
  · cases message with
    | request request =>
        rw [Server.takeEvent]
        split
        next connection hget =>
          exact (h.still hrest).acceptRequest
            (Keyed.get_eq_some.1 hget).1 htodo request
        next => exact h.still hrest
    | notification => exact h.still hrest
    | response => exact hplain _ rfl
    | error => exact hplain _ rfl

theorem Living.process (h : Living s) : Living (s.process config) := by
  rw [Server.process]
  split
  · exact h
  · split
    next action rest htodo =>
      obtain ⟨hrest, hopen⟩ := h.next htodo
      cases hact : Server.act config { s with todo := rest } action with
      | none => exact h
      | some next => exact hrest.act hopen hact
    next htodo =>
      split
      next event rest hevents => exact h.takeEvent htodo hevents
      next => exact h

/-! ## The other tasks -/

theorem opens_concat (events : List TransportEvent) {event : TransportEvent}
    (h : event.opens = none) :
    (events ++ [event]).filterMap TransportEvent.opens =
      events.filterMap TransportEvent.opens := by
  rw [List.filterMap_append, List.filterMap_cons_none h]
  exact List.append_nil _

theorem aside_flushClosed (s : Server) (closed : List ConnectionId) :
    Aside s (s.flushClosed closed) := by
  induction closed generalizing s with
  | nil => exact .of_eq rfl rfl rfl rfl rfl rfl rfl rfl
  | cons c rest ih =>
      rw [Server.flushClosed]
      split
      next hstopped =>
        exact ⟨.of_eq rfl rfl rfl rfl rfl rfl, rfl, rfl, fun _ => .inr hstopped⟩
      · split
        · refine Aside.trans ?_ (ih _)
          exact .of_eq rfl (opens_concat _ rfl) rfl rfl rfl rfl rfl rfl
        · exact .of_eq rfl rfl rfl rfl rfl rfl rfl rfl

theorem aside_rewrite (s : Server) (envelope : OutgoingEnvelope) :
    Aside s { s with desk := (s.desk.rewrite envelope).2 } := by
  refine ⟨⟨.refl _, le_rfl, rfl, ?_, ?_⟩, rfl, rfl, .inl⟩
  · have hsubset : ∀ id answer,
        (rerouted s.desk.requestRoutes id answer).2.values ⊆
        s.desk.requestRoutes.values := by
      intro id answer
      rw [rerouted]
      split
      · exact fun _ hmem => (Keyed.mem_remove.1 hmem).1
      · split <;> exact fun _ h => h
    rcases envelope with _ | message
    · exact fun _ h => h
    · cases message with
      | response | error => exact hsubset _ _
      | _ => exact fun _ h => h
  · rcases requests_rewrite envelope with h | ⟨ticket, answer, h⟩
    · exact congrArg Tickets.cancelled h
    · exact (congrArg Tickets.cancelled h).trans rfl

theorem aside_deliver (s : Server) (writers : ConnectionId → TrySend)
    (envelope : OutgoingEnvelope) : Aside s (s.deliver writers envelope) := by
  have hrewrite := aside_rewrite s envelope
  rw [Server.deliver]
  dsimp only
  split
  · refine Aside.trans (hrewrite.trans ?_) (aside_flushClosed _ _)
    exact .of_eq rfl rfl rfl rfl rfl rfl rfl rfl
  · exact hrewrite

theorem aside_acceptConnection (s : Server) (c : ConnectionId) :
    Aside s (s.acceptConnection c) := by
  rw [Server.acceptConnection]
  split
  · exact .refl s
  next hc =>
    have hmem : c ∈ s.handshaking := by
      rw [not_or, not_not] at hc
      exact hc.1
    refine ⟨⟨?_, le_rfl, rfl, fun _ h => h, rfl⟩, rfl, rfl, .inl⟩
    rw [Server.unborn, Server.unborn, List.filterMap_append]
    refine List.Perm.subperm ?_
    change (s.handshaking.erase c ++ (_ ++ [c] ++ _)).Perm _
    rw [List.append_assoc, List.singleton_append]
    refine (List.perm_middle.append_left _).trans ?_
    refine List.perm_middle.trans ?_
    rw [← List.cons_append]
    exact (List.perm_cons_erase hmem).symm.append_right _

theorem aside_arrive (s : Server) (c : ConnectionId) (message : JSONRPCMessage)
    (writer : TrySend) : Aside s (s.arrive c message writer) := by
  unfold Server.arrive
  split
  · exact .refl s
  · split
    · exact .of_eq rfl (opens_concat _ rfl) rfl rfl rfl rfl rfl rfl
    · split
      · exact .of_eq rfl rfl rfl rfl rfl rfl rfl rfl
      · exact .refl s

/-- The steps of the other tasks, but for the one that gives a connection its
id. -/
theorem aside_step (s : Server) {label : Label} (hprocess : label ≠ .process)
    (hconnect : label ≠ .connect) : Aside s (s.step config label) := by
  have hsend : ∀ envelope, Aside s ((s.sendEnvelope envelope).getD s) := by
    intro envelope
    cases hsend : s.sendEnvelope envelope with
    | none => exact .refl s
    | some next => exact aside_sendEnvelope hsend
  cases label with
  | connect => exact absurd rfl hconnect
  | process => exact absurd rfl hprocess
  | accept c => exact aside_acceptConnection s c
  | arrive c message writer =>
      exact aside_arrive s c message writer
  | disconnect c =>
      rw [Server.step, Server.disconnect]
      split
      · exact .refl s
      · split
        · exact .of_eq rfl rfl rfl rfl rfl rfl rfl rfl
        · split
          · exact .of_eq rfl (opens_concat _ rfl) rfl rfl rfl rfl rfl rfl
          · exact .refl s
  | pollControl =>
      rw [Server.step, Server.pollControl]
      split
      · exact .refl s
      · split
        next event rest heq =>
          refine Aside.trans ?_ (aside_flushClosed _ _)
          cases event <;> exact .of_eq rfl rfl rfl rfl rfl rfl rfl rfl
        next =>
          split
          next hstopped =>
            exact ⟨.of_eq rfl rfl rfl rfl rfl rfl, rfl, rfl,
              fun _ => .inr hstopped⟩
          next => exact .of_eq rfl rfl rfl rfl rfl rfl rfl rfl
  | pollOutgoing writers =>
      rw [Server.step, Server.pollOutgoing]
      split
      · exact .refl s
      · split
        next envelope rest heq =>
          refine Aside.trans ?_ (aside_deliver _ writers envelope)
          exact .of_eq rfl rfl rfl rfl rfl rfl rfl rfl
        next => exact .of_eq rfl rfl rfl rfl rfl rfl rfl rfl
  | answer k answer =>
      rw [Server.step, Server.answer]
      split
      next handed hhanded =>
        cases hsent : s.sendEnvelope
          (.broadcast (.ofAnswer handed.request.id answer)) with
        | none => exact .refl s
        | some next =>
            exact (aside_sendEnvelope hsent).trans
              (.of_eq rfl rfl rfl rfl rfl rfl rfl rfl)
      next => exact .refl s
  | notify k method params =>
      rw [Server.step, Server.notify]
      split
      · exact hsend _
      · exact .refl s
  | broadcast method params => exact hsend _
  | ask k method params =>
      rw [Server.step, Server.ask]
      split
      · exact .of_eq rfl rfl rfl rfl rfl rfl rfl rfl
      · exact .refl s
  | sendRequest i =>
      rw [Server.step, Server.sendRequest]
      split
      next internal envelope hget =>
        split
        · exact .of_eq rfl rfl rfl rfl rfl rfl rfl rfl
        · cases hsent : s.sendEnvelope envelope with
          | none => exact .refl s
          | some next =>
              exact (aside_sendEnvelope hsent).trans
                (.of_eq rfl rfl rfl rfl rfl rfl rfl rfl)
      next => exact .refl s

theorem Living.connect (h : Living s) :
    Living { s with
      handshaking := s.handshaking ++ [s.nextConnectionId]
      nextConnectionId := s.nextConnectionId + 1 } := by
  have hperm : ({ s with
      handshaking := s.handshaking ++ [s.nextConnectionId]
      nextConnectionId := s.nextConnectionId + 1 } : Server).unborn.Perm
        (s.nextConnectionId :: s.unborn) := by
    rw [Server.unborn, List.append_assoc, List.singleton_append]
    exact List.perm_middle
  have hnew : ∀ {d}, d < s.nextConnectionId → d ≠ s.nextConnectionId :=
    fun h => h.ne
  refine ⟨hperm.nodup_iff.2
    (List.nodup_cons.2 ⟨fun hmem => hnew (h.lt _ hmem) rfl, h.nodup⟩),
    ?_, ?_, h.routes, ?_⟩
  · intro c hmem
    rcases List.mem_cons.1 (hperm.mem_iff.1 hmem) with rfl | hmem
    · exact Nat.lt_succ_self _
    · exact Nat.lt_succ_of_lt (h.lt c hmem)
  · intro connection hmem
    obtain ⟨hborn, hlt⟩ := h.born connection hmem
    refine ⟨fun hin => ?_, Nat.lt_succ_of_lt hlt⟩
    exact (List.mem_cons.1 (hperm.mem_iff.1 hin)).elim (hnew hlt) hborn
  · intro ticket hmem
    obtain ⟨⟨hborn, hlt⟩, hgone⟩ := h.cancelled ticket hmem
    refine ⟨⟨fun hin => ?_, Nat.lt_succ_of_lt hlt⟩, hgone⟩
    exact (List.mem_cons.1 (hperm.mem_iff.1 hin)).elim (hnew hlt) hborn

theorem Living.step (h : Living s) (label : Label) :
    Living (s.step config label) := by
  by_cases hprocess : label = .process
  · subst hprocess
    exact h.process
  · by_cases hconnect : label = .connect
    · subst hconnect
      rw [Server.step]
      split
      · exact h
      · exact h.connect
    · exact h.still (aside_step s hprocess hconnect).toStill

/-! ## Waiting for answers -/

/-- Over stdio the routes of a connection are gone before it is removed, so
none is given up, and the server ends without any connection. -/
structure Draining (config : ServerConfig) (s : Server) : Prop where
  stopped : s.stopped = true →
    config.shutdownWhenNoConnections = true ∧ s.connections.values = []
  router : s.routerStopped = true → s.stopped = true
  order : s.todo.Pairwise fun a b =>
    ∀ c, b = .waitForRequestRoutes c → a ≠ .removeConnection c
  drained : config.shutdownWhenNoConnections = true →
    ∀ c, .removeConnection c ∈ s.todo →
    .waitForRequestRoutes c ∉ s.todo →
      ∀ ticket ∈ s.desk.requestRoutes.values, ticket.2.connectionId ≠ c
  none : config.shutdownWhenNoConnections = true →
    s.desk.requests.cancelled = []

theorem draining_start : Draining config (.start config) := by
  have hempty : ∀ s : Server, s.stopped = false →
      s.routerStopped = false → s.todo = [] →
      s.desk.requests.cancelled = [] → Draining config s := by
    intro s hstopped hrouter htodo hcancelled
    refine ⟨fun h => ?_, fun h => ?_, htodo ▸ .nil, fun _ c h => ?_,
      fun _ => hcancelled⟩
    · exact absurd (hstopped ▸ h) Bool.false_ne_true
    · exact absurd (hrouter ▸ h) Bool.false_ne_true
    · exact absurd (htodo ▸ h) List.not_mem_nil
  rw [Server.start]
  split <;> exact hempty _ rfl rfl rfl rfl

theorem Draining.aside (h : Draining config s) (haside : Aside s t) :
    Draining config t where
  stopped := by
    rw [haside.stopped, haside.connections]
    exact h.stopped
  router hrouter := by
    rw [haside.stopped]
    exact (haside.router hrouter).elim h.router id
  order := haside.todo ▸ h.order
  drained hstdio c hremove hwait ticket hmem := by
    rw [haside.todo] at hremove hwait
    exact h.drained hstdio c hremove hwait ticket (haside.routes hmem)
  none := by
    rw [haside.cancelled]
    exact h.none

theorem Draining.plan (h : Draining config s) {todo : List Action}
    (hstopped : t.stopped = s.stopped)
    (hrouter : t.routerStopped = s.routerStopped)
    (hrunning : s.stopped = false) (htodo : t.todo = todo)
    (horder : todo.Pairwise fun a b =>
      ∀ c, b = .waitForRequestRoutes c → a ≠ .removeConnection c)
    (hwait : config.shutdownWhenNoConnections = true → ∀ c,
      .removeConnection c ∈ todo →
      .waitForRequestRoutes c ∈ todo)
    (hcancelled : t.desk.requests.cancelled = s.desk.requests.cancelled) :
    Draining config t where
  stopped h' := absurd (hrunning ▸ hstopped ▸ h') Bool.false_ne_true
  router h' := hstopped ▸ h.router (hrouter ▸ h')
  order := htodo ▸ horder
  drained hstdio c hremove hnot := by
    rw [htodo] at hremove hnot
    exact absurd (hwait hstdio c hremove) hnot
  none hstdio := hcancelled ▸ h.none hstdio

theorem Draining.next (h : Draining config s) {action : Action}
    {rest : List Action}
    (htodo : s.todo = action :: rest) (hrest : t.todo = rest)
    (hrunning : t.stopped = false)
    (hrouter : t.routerStopped = false)
    (hwait : ∀ c, action = .waitForRequestRoutes c →
      ∀ ticket ∈ s.desk.requestRoutes.values, ticket.2.connectionId ≠ c)
    (hroutes : t.desk.requestRoutes.values ⊆ s.desk.requestRoutes.values)
    (hcancelled : config.shutdownWhenNoConnections = true →
      t.desk.requests.cancelled = []) :
    Draining config t where
  stopped h' := absurd (hrunning ▸ h') Bool.false_ne_true
  router h' := absurd (hrouter ▸ h') Bool.false_ne_true
  order := hrest ▸ (List.pairwise_cons.1 (htodo ▸ h.order)).2
  drained hstdio c hremove hnot ticket hmem := by
    rw [hrest] at hremove hnot
    by_cases heq : action = .waitForRequestRoutes c
    · exact hwait c heq ticket (hroutes hmem)
    · refine h.drained hstdio c ?_ ?_ ticket (hroutes hmem)
      · exact htodo ▸ List.mem_cons_of_mem _ hremove
      · rw [htodo, List.mem_cons, not_or]
        exact ⟨Ne.symm heq, hnot⟩
  none := hcancelled

theorem Draining.act (h : Draining config s) {action : Action}
    {rest : List Action}
    (hrunning : s.stopped = false) (htodo : s.todo = action :: rest)
    (hact : Server.act config { s with todo := rest } action = some t) :
    Draining config t := by
  have hrouter : s.routerStopped = false := by
    by_contra hstopped
    exact absurd (hrunning ▸ h.router (Bool.eq_true_of_not_eq_false hstopped))
      Bool.false_ne_true
  have hdone : ∀ {next : Server}, some next = some t →
      (∀ c, action = .waitForRequestRoutes c →
        ∀ ticket ∈ s.desk.requestRoutes.values, ticket.2.connectionId ≠ c) →
      next.todo = rest → next.stopped = s.stopped →
      next.routerStopped = s.routerStopped →
      next.desk = s.desk → Draining config t := by
    intro next heq hwait hrest hsame hrouterSame hdesk
    refine Option.some.inj heq ▸ h.next htodo hrest (hsame.trans hrunning)
      (hrouterSame.trans hrouter) hwait ?_ ?_
    · exact hdesk ▸ fun _ h => h
    · exact hdesk ▸ h.none
  cases action with
  | send envelope =>
      rw [Server.act, Server.sendEnvelope] at hact
      split at hact
      · exact hdone hact (by simp) rfl rfl rfl rfl
      · split at hact
        · exact hdone hact (by simp) rfl rfl rfl rfl
        · cases hact
  | sendOpened | sendClosed =>
      rw [Server.act] at hact
      split at hact
      next hstopped => exact absurd (hrouter ▸ hstopped) Bool.false_ne_true
      next =>
        split at hact
        · exact hdone hact (by simp) rfl rfl rfl rfl
        · cases hact
  | waitForRequestRoutes c =>
      rw [Server.act] at hact
      split at hact
      · cases hact
      next hpending =>
        refine hdone hact (fun c' heq ticket hmem heq' => hpending ?_)
          rfl rfl rfl rfl
        refine List.any_eq_true.2 ⟨ticket, hmem, ?_⟩
        exact decide_eq_true
          (heq'.trans (Action.waitForRequestRoutes.inj heq).symm)
  | stopIfEmpty =>
      rw [Server.act] at hact
      split at hact
      next hempty =>
        rw [Bool.and_eq_true, List.isEmpty_iff] at hempty
        obtain rfl := Option.some.inj hact
        exact ⟨fun _ => hempty, fun _ => rfl, .nil,
          fun _ _ hmem => (List.not_mem_nil hmem).elim, h.none⟩
      next => exact hdone hact (by simp) rfl rfl rfl rfl
  | removeConnection c =>
      refine Option.some.inj hact ▸ h.next htodo rfl hrunning hrouter (by simp)
        (fun _ hmem => (List.mem_filter.1 hmem).1) fun hstdio => ?_
      have hhead := (List.pairwise_cons.1 (htodo ▸ h.order)).1
      have hroutes :=
        h.drained hstdio c (htodo ▸ List.mem_cons_self) fun hwait => by
          rcases List.mem_cons.1 (htodo ▸ hwait) with heq | hmem
          · cases heq
          · exact hhead _ hmem c rfl rfl
      change s.desk.requestRoutes.values.filter _ ++
        s.desk.requests.cancelled = []
      rw [h.none hstdio, List.append_nil]
      exact List.filter_eq_nil_iff.2 fun ticket hmem => by
        simpa using hroutes ticket hmem
  | _ => exact hdone hact (by simp) rfl rfl rfl rfl

/-- Nothing of a plan for a request is about a connection that has closed. -/
theorem removeConnection_notMem_processRequest (connectionId : ConnectionId)
    (session : ConnectionSessionState) (request : JSONRPCRequest)
    (c : ConnectionId) :
    .removeConnection c ∉
      (processRequest config connectionId session request).2 := by
  have hwarnings :
      .removeConnection c ∉ initializeNotifications config connectionId := by
    intro hmem
    obtain ⟨warning, -, heq⟩ := List.mem_map.1 hmem
    cases heq
  have hprocessed :=
    processed_processRequest config connectionId session request
  generalize processRequest config connectionId session request =
    result at hprocessed
  rcases hprocessed with _ | _ | _ | _
  · simp [refuse]
  · simp
  · simp
  · simpa using hwarnings

theorem Draining.takeEvent (h : Draining config s) {event : TransportEvent}
    (hrunning : s.stopped = false) (htodo : s.todo = []) :
    Draining config (s.takeEvent config event) := by
  have hplain : ∀ (todo : List Action), (∀ c, .removeConnection c ∉ todo) →
      ∀ {t : Server}, t.todo = todo → t.stopped = s.stopped →
        t.routerStopped = s.routerStopped →
          t.desk.requests.cancelled = s.desk.requests.cancelled →
          Draining config t := by
    intro todo hnone t ht hstopped hrouter hcancelled
    refine h.plan hstopped hrouter hrunning ht ?_
      (fun _ c hmem => absurd hmem (hnone c))
      hcancelled
    exact List.pairwise_of_forall_mem_list fun a ha b _ c _ heq =>
      hnone c (heq ▸ ha)
  have hsame : ∀ {t : Server}, t.todo = s.todo → t.stopped = s.stopped →
      t.routerStopped = s.routerStopped →
        t.desk.requests.cancelled = s.desk.requests.cancelled →
        Draining config t :=
    fun ht => hplain [] (fun _ => List.not_mem_nil) (ht.trans htodo)
  rcases event with ⟨c, notify⟩ | c | ⟨c, message⟩
  · exact hplain [.sendOpened c notify] (by simp) rfl rfl rfl rfl
  · have horder : (Server.closeActions config c).Pairwise fun a b =>
        ∀ d, b = .waitForRequestRoutes d → a ≠ .removeConnection d := by
      rw [Server.closeActions]
      split <;> simp
    have hwait : config.shutdownWhenNoConnections = true → ∀ d,
        .removeConnection d ∈ Server.closeActions config c →
          .waitForRequestRoutes d ∈ Server.closeActions config c := by
      intro hstdio d
      rw [Server.closeActions, if_pos hstdio]
      simp
    exact h.plan rfl rfl hrunning rfl horder hwait rfl
  · cases message with
    | request request =>
        rw [Server.takeEvent]
        split
        · exact hplain _ (removeConnection_notMem_processRequest _ _ _)
            rfl rfl rfl rfl
        · exact h
    | notification => exact h
    | response id result =>
        exact hplain [.notifyClientResponse c id result] (by
          simp) rfl rfl rfl rfl
    | error id e =>
        exact hplain [.notifyClientError c id] (by simp) rfl rfl rfl rfl

theorem Draining.step (h : Draining config s) (label : Label) :
    Draining config (s.step config label) := by
  by_cases hprocess : label = .process
  · subst hprocess
    rw [Server.step, Server.process]
    split
    · exact h
    next hrunning =>
      have hrunning := Bool.eq_false_of_not_eq_true hrunning
      split
      next action rest htodo =>
        cases hact : Server.act config { s with todo := rest } action with
        | none => exact h
        | some next => exact h.act hrunning htodo hact
      next htodo =>
        split
        next event rest hevents =>
          have hrest : Draining config { s with events := rest } := { h with }
          exact hrest.takeEvent hrunning htodo
        next => exact h
  · by_cases hconnect : label = .connect
    · subst hconnect
      rw [Server.step]
      split
      · exact h
      · exact { h with }
    · exact h.aside (aside_step s hprocess hconnect)

/-! ## No answer is missing -/

/-- In every order of the steps of all tasks, a request that was accepted keeps
its route until it is answered, as long as its connection is not removed.  Over
stdio no request is ever given up, and when the server ends, all that were
accepted have been answered. -/
theorem run_keepsRequests (config : ServerConfig) (labels : List Label) :
    let s := Server.run config labels
    (∀ ticket ∈ s.desk.requests.issued,
      (∃ connection ∈ s.connections.values,
        connection.id = ticket.2.connectionId) ∨
          config.shutdownWhenNoConnections = true →
        ticket ∈ s.desk.requestRoutes.values ∨
          ∃ answer, (ticket, answer) ∈ s.desk.requests.redeemed) ∧
    (s.stopped = true → config.shutdownWhenNoConnections = true ∧
      ∀ ticket ∈ s.desk.requests.issued,
        ∃ answer, (ticket, answer) ∈ s.desk.requests.redeemed) := by
  intro s
  have hrouted : Routed config s := routed_run config labels
  have hliving : Living s :=
    after_induction (P := Living) (fun _ label h => h.step label)
      living_start labels
  have hdraining : Draining config s :=
    after_induction (P := Draining config) (fun _ label h => h.step label)
      draining_start labels
  have hkept : ∀ ticket ∈ s.desk.requests.issued,
      (∃ connection ∈ s.connections.values,
        connection.id = ticket.2.connectionId) ∨
          config.shutdownWhenNoConnections = true →
        ticket ∈ s.desk.requestRoutes.values ∨
          ∃ answer, (ticket, answer) ∈ s.desk.requests.redeemed := by
    intro ticket hissued hopen
    rcases hrouted.balanced.mem_issued.1 hissued with
      hwaiting | hredeemed | hcancelled
    · exact .inl hwaiting
    · exact .inr hredeemed
    · rcases hopen with ⟨connection, hmem, hid⟩ | hstdio
      · exact absurd hid
          ((hliving.cancelled ticket hcancelled).2 connection hmem)
      · exact absurd (hdraining.none hstdio ▸ hcancelled) List.not_mem_nil
  refine ⟨hkept, fun hstopped => ?_⟩
  obtain ⟨hstdio, hempty⟩ := hdraining.stopped hstopped
  refine ⟨hstdio, fun ticket hissued => ?_⟩
  rcases hkept ticket hissued (.inr hstdio) with hwaiting | hredeemed
  · obtain ⟨connection, hmem, -⟩ := hliving.routes ticket hwaiting
    exact absurd (hempty ▸ hmem) List.not_mem_nil
  · exact hredeemed

end CodeRs.AppServer
