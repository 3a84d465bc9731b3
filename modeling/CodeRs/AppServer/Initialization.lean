import CodeRs.AppServer.Lifecycle

/-!
# Nothing but answers before `initialize`

A connection gets notifications and requests, and its own requests are handed
on, only after its `initialize` was accepted; and it never gets a notification
that it has opted out of there.
-/

namespace CodeRs.AppServer

variable {config : ServerConfig} {labels : List Label} {s t : Server}
    {c : ConnectionId}
  {envelope : OutgoingEnvelope} {message : OutgoingMessage}

/-- A connection says a message in a run. -/
def Said (labels : List Label) (c : ConnectionId)
    (message : JSONRPCMessage) : Prop :=
  ∃ writer, .arrive c message writer ∈ labels

/-- A connection asks to be initialized and opts out of some notifications. -/
def OptsOut (config : ServerConfig) (labels : List Label) (c : ConnectionId)
    (methods : List String) : Prop :=
  ∃ request id params, Said labels c (.request request) ∧
    config.parse { request with id } = some (.initializeRequest params) ∧
      methods = (initializedSession params).optedOutNotificationMethods

/-- The action sends something to a connection alone, or hands on a request of
it. -/
def Action.Addresses (c : ConnectionId) : Action → Prop
  | .send (.toConnection d _) => d = c
  | .handle d _ => d = c
  | _ => False

/-- An action that goes before another one. -/
structure Before (first later : Action) : Prop where
  initialized : ∀ c, later = .setInitialized c → ¬ first.Addresses c
  optedOut : ∀ c methods, later = .setOptedOut c methods →
    first ≠ .setInitialized c

/-- Whatever reaches a connection alone, or is done for it, comes after its
initialization. -/
structure Gated (config : ServerConfig) (labels : List Label)
    (s : Server) : Prop where
  events : ∀ c message, .incomingMessage c message ∈ s.events →
    Said labels c message
  started : ∀ connection ∈ s.connections.values,
    connection.session.initialized = true →
    (s.flags connection.id).initialized = true ∨
      .setInitialized connection.id ∈ s.todo
  waiting : ∀ connection ∈ s.connections.values,
    connection.session.initialized = false →
    (s.flags connection.id).initialized = false ∧
      .setInitialized connection.id ∉ s.todo
  fresh : ∀ c, c ∈ s.unborn ∨ s.nextConnectionId ≤ c →
    (s.flags c).initialized = false ∧ .setInitialized c ∉ s.todo
  optOut : ∀ c methods, .setOptedOut c methods ∈ s.todo →
    OptsOut config labels c methods ∧ (s.flags c).initialized = false
  pending : ∀ c, .setInitialized c ∈ s.todo →
    OptsOut config labels c (s.flags c).optedOutNotificationMethods ∨
      ∃ methods, .setOptedOut c methods ∈ s.todo
  order : s.todo.Pairwise Before
  planned : ∀ action ∈ s.todo, ∀ c, action.Addresses c →
    (s.flags c).initialized = true ∨ .setInitialized c ∈ s.todo
  known : ∀ c, (s.flags c).initialized = true →
    OptsOut config labels c (s.flags c).optedOutNotificationMethods
  queued : ∀ c message, .toConnection c message ∈ s.outgoing →
    (s.flags c).initialized = true
  unsent : ∀ c id message, (id, .toConnection c message) ∈ s.unsent →
    (s.flags c).initialized = true
  handed : ∀ handed ∈ s.handed, (s.flags handed.connectionId).initialized = true
  written : ∀ c, ∀ message ∈ s.written c, message.answer = none →
    (s.flags c).initialized = true ∧
      shouldSkipNotification (s.flags c) message = false

theorem gated_start : Gated config labels (.start config) := by
  have hempty : ∀ s : Server,
      (∀ c message, .incomingMessage c message ∉ s.events) →
      s.connections.values = [] → (∀ c, s.flags c = {}) → s.todo = [] →
      s.outgoing = [] →
      s.unsent = [] → s.handed = [] → (∀ c, s.written c = []) →
      Gated config labels s := by
    intro s hevents hconnections hflags htodo houtgoing hunsent hhanded hwritten
    have hinit : ∀ c, (s.flags c).initialized = false := fun c => by rw [hflags]
    refine ⟨fun c message h => absurd h (hevents c message), ?_, ?_, ?_, ?_, ?_,
      htodo ▸ .nil, ?_, fun c h => ?_, ?_, ?_, ?_, fun c => ?_⟩
    · rw [hconnections]
      exact fun _ h => (List.not_mem_nil h).elim
    · rw [hconnections]
      exact fun _ h => (List.not_mem_nil h).elim
    · exact fun c _ => ⟨hinit c, htodo ▸ List.not_mem_nil⟩
    · rw [htodo]
      exact fun _ _ h => (List.not_mem_nil h).elim
    · rw [htodo]
      exact fun _ h => (List.not_mem_nil h).elim
    · rw [htodo]
      exact fun _ h => (List.not_mem_nil h).elim
    · exact absurd (hinit c ▸ h) Bool.false_ne_true
    · rw [houtgoing]
      exact fun _ _ h => (List.not_mem_nil h).elim
    · rw [hunsent]
      exact fun _ _ _ h => (List.not_mem_nil h).elim
    · rw [hhanded]
      exact fun _ h => (List.not_mem_nil h).elim
    · rw [hwritten]
      exact fun _ h => (List.not_mem_nil h).elim
  rw [Server.start]
  split
  · exact hempty _ (by simp) rfl (fun _ => rfl) rfl rfl rfl
      rfl fun _ => rfl
  · exact hempty _ (fun _ _ => List.not_mem_nil) rfl (fun _ => rfl) rfl rfl rfl
      rfl fun _ => rfl

/-! ## The other tasks -/

/-- A step that plans nothing and initializes nobody: what is said is said, and
what is sent to a connection alone, done for it or written to it is for an
initialized one. -/
structure Kept (labels : List Label) (s t : Server) : Prop where
  events : ∀ c message, .incomingMessage c message ∈ t.events →
    .incomingMessage c message ∈ s.events ∨ Said labels c message
  connections : t.connections = s.connections
  flags : t.flags = s.flags
  todo : t.todo = s.todo
  unborn : ∀ c, c ∈ t.unborn ∨ t.nextConnectionId ≤ c →
    c ∈ s.unborn ∨ s.nextConnectionId ≤ c
  queued : ∀ c message, .toConnection c message ∈ t.outgoing →
    .toConnection c message ∈ s.outgoing ∨ (s.flags c).initialized = true
  unsent : ∀ c id message, (id, .toConnection c message) ∈ t.unsent →
    (id, .toConnection c message) ∈ s.unsent ∨ (s.flags c).initialized = true
  handed : ∀ handed ∈ t.handed, ∃ before ∈ s.handed,
    before.connectionId = handed.connectionId
  written : ∀ c, ∀ message ∈ t.written c, message ∈ s.written c ∨
    (message.answer = none →
      (s.flags c).initialized = true ∧
        shouldSkipNotification (s.flags c) message = false)

theorem Gated.kept (h : Gated config labels s) (hkept : Kept labels s t) :
    Gated config labels t where
  events c message hmem :=
    (hkept.events c message hmem).elim (h.events c message) id
  started := by
    rw [hkept.connections, hkept.flags, hkept.todo]
    exact h.started
  waiting := by
    rw [hkept.connections, hkept.flags, hkept.todo]
    exact h.waiting
  fresh c hc := by
    rw [hkept.flags, hkept.todo]
    exact h.fresh c (hkept.unborn c hc)
  optOut := by
    rw [hkept.flags, hkept.todo]
    exact h.optOut
  pending := by
    rw [hkept.flags, hkept.todo]
    exact h.pending
  order := hkept.todo ▸ h.order
  planned := by
    rw [hkept.flags, hkept.todo]
    exact h.planned
  known := by
    rw [hkept.flags]
    exact h.known
  queued c message hmem := by
    rw [hkept.flags]
    exact (hkept.queued c message hmem).elim (h.queued c message) id
  unsent c _ message hmem := by
    rw [hkept.flags]
    exact (hkept.unsent c _ message hmem).elim (h.unsent c _ message) id
  handed handed hmem := by
    obtain ⟨before, hbefore, hconnection⟩ := hkept.handed handed hmem
    rw [hkept.flags, ← hconnection]
    exact h.handed before hbefore
  written c message hmem hanswer := by
    rw [hkept.flags]
    exact (hkept.written c message hmem).elim
      (fun hmem => h.written c message hmem hanswer)
      fun h => h hanswer

theorem Kept.refl (s : Server) : Kept labels s s where
  events _ _ := .inl
  connections := rfl
  flags := rfl
  todo := rfl
  unborn _ := id
  queued _ _ := .inl
  unsent _ _ _ := .inl
  handed handed hmem := ⟨handed, hmem, rfl⟩
  written _ _ := .inl

/-- What concerns the connections is known of the other tasks. -/
theorem Kept.of_aside (h : Aside s t)
    (hevents : ∀ c message, .incomingMessage c message ∈ t.events →
      .incomingMessage c message ∈ s.events ∨ Said labels c message)
    (hflags : t.flags = s.flags)
    (hqueued : ∀ c message, .toConnection c message ∈ t.outgoing →
      .toConnection c message ∈ s.outgoing ∨ (s.flags c).initialized = true)
    (hunsent : ∀ c id message, (id, .toConnection c message) ∈ t.unsent →
      (id, .toConnection c message) ∈ s.unsent ∨ (s.flags c).initialized = true)
    (hhanded : ∀ handed ∈ t.handed, ∃ before ∈ s.handed,
      before.connectionId = handed.connectionId)
    (hwritten : ∀ c, ∀ message ∈ t.written c, message ∈ s.written c ∨
      (message.answer = none →
        (s.flags c).initialized = true ∧
          shouldSkipNotification (s.flags c) message = false)) :
    Kept labels s t where
  events := hevents
  connections := h.connections
  flags := hflags
  todo := h.todo
  unborn _ hc := hc.imp (fun hmem => h.unborn.subset hmem) fun hle =>
    h.next.trans hle
  queued := hqueued
  unsent := hunsent
  handed := hhanded
  written := hwritten

/-- A task that sends nothing and writes nothing. -/
theorem Kept.of_silent (h : Aside s t)
    (hevents : ∀ c message, .incomingMessage c message ∈ t.events →
      .incomingMessage c message ∈ s.events ∨ Said labels c message)
    (hflags : t.flags = s.flags) (hqueued : t.outgoing ⊆ s.outgoing)
    (hunsent : t.unsent = s.unsent) (hhanded : t.handed = s.handed)
    (hwritten : t.written = s.written) : Kept labels s t := by
  refine .of_aside h hevents hflags
    (fun _ _ hmem => .inl (hqueued hmem)) ?_ ?_ ?_
  · exact hunsent ▸ fun _ _ _ => .inl
  · exact hhanded ▸ fun handed hmem => ⟨handed, hmem, rfl⟩
  · exact hwritten ▸ fun _ _ => .inl

theorem Kept.trans {u : Server} (h : Kept labels s t) (h' : Kept labels t u) :
    Kept labels s u where
  events c message hmem :=
    (h'.events c message hmem).elim (h.events c message) .inr
  connections := h'.connections.trans h.connections
  flags := h'.flags.trans h.flags
  todo := h'.todo.trans h.todo
  unborn c hc := h.unborn c (h'.unborn c hc)
  queued c message hmem := (h'.queued c message hmem).elim (h.queued c message)
    fun hinit => .inr (h.flags ▸ hinit)
  unsent c id message hmem :=
    (h'.unsent c id message hmem).elim (h.unsent c id message)
      fun hinit => .inr (h.flags ▸ hinit)
  handed handed hmem := by
    obtain ⟨mid, hmid, hconnection⟩ := h'.handed handed hmem
    obtain ⟨before, hbefore, hsame⟩ := h.handed mid hmid
    exact ⟨before, hbefore, hsame.trans hconnection⟩
  written c message hmem :=
    (h'.written c message hmem).elim (h.written c message)
      fun hinit => .inr (h.flags ▸ hinit)

theorem kept_sendEnvelope (hsend : s.sendEnvelope envelope = some t)
    (hinit : ∀ c message, envelope = .toConnection c message →
      (s.flags c).initialized = true) :
    Kept labels s t := by
  have haside := aside_sendEnvelope hsend
  rw [Server.sendEnvelope] at hsend
  split at hsend
  · exact Option.some.inj hsend ▸ .refl s
  · split at hsend
    · obtain rfl := Option.some.inj hsend
      refine .of_aside haside (fun _ _ => .inl) rfl (fun c message hmem => ?_)
        (fun _ _ _ => .inl) (fun handed hmem => ⟨handed, hmem, rfl⟩)
        fun _ _ => .inl
      rcases List.mem_append.1 hmem with hmem | hmem
      · exact .inl hmem
      · exact .inr (hinit c message (List.mem_singleton.1 hmem).symm)
    · cases hsend

theorem incoming_flushClosed (s : Server) (closed : List ConnectionId)
    (c : ConnectionId)
    (message : JSONRPCMessage) :
    .incomingMessage c message ∈ (s.flushClosed closed).events →
      .incomingMessage c message ∈ s.events := by
  induction closed generalizing s with
  | nil => exact id
  | cons d rest ih =>
      rw [Server.flushClosed]
      split
      · exact id
      · split
        · intro hmem
          rcases List.mem_append.1 (ih _ hmem) with hmem | hmem
          · exact hmem
          · cases List.mem_singleton.1 hmem
        · exact id

theorem flags_flushClosed (s : Server) (closed : List ConnectionId) :
    (s.flushClosed closed).flags = s.flags := by
  induction closed generalizing s with
  | nil => rfl
  | cons d rest ih =>
      rw [Server.flushClosed]
      split
      · rfl
      · split
        · exact ih _
        · rfl

theorem kept_flushClosed (s : Server) (closed : List ConnectionId) :
    Kept labels s (s.flushClosed closed) := by
  have hquiet := flushClosed_quiet s closed
  refine .of_aside (aside_flushClosed s closed)
    (fun c message hmem => .inl (incoming_flushClosed s closed c message hmem))
    (flags_flushClosed s closed) (fun _ _ hmem => .inl (hquiet.outgoing hmem))
    (fun _ _ _ hmem => .inl (hquiet.unsent hmem)) ?_ ?_
  · exact hquiet.handed ▸ fun handed hmem => ⟨handed, hmem, rfl⟩
  · exact hquiet.written ▸ fun _ _ => .inl

/-- What the router sends on is what it got, or an answer. -/
theorem message_rewrite {desk : RequestDesk} {rewritten : OutgoingEnvelope}
    (h : (desk.rewrite envelope).1 = some rewritten) :
    rewritten = envelope ∨ rewritten.message.answer ≠ none := by
  have hrerouted : ∀ id answer,
      (rerouted desk.requestRoutes id answer).1 = some rewritten →
      rewritten.message.answer ≠ none := by
    intro id answer heq
    rw [rerouted] at heq
    split at heq
    · obtain rfl := Option.some.inj heq
      exact (OutgoingMessage.answer_ofAnswer _ _).trans_ne
        (Option.some_ne_none _)
    · split at heq
      · cases heq
      · obtain rfl := Option.some.inj heq
        exact (OutgoingMessage.answer_ofAnswer _ _).trans_ne
          (Option.some_ne_none _)
  rcases envelope with _ | message
  · exact .inl (Option.some.inj h).symm
  · cases message with
    | response | error => exact .inr (hrerouted _ _ h)
    | _ => exact .inl (Option.some.inj h).symm

theorem kept_deliver (writers : ConnectionId → TrySend)
    (hinit : ∀ c message, envelope = .toConnection c message →
      (s.flags c).initialized = true) :
    Kept labels s (s.deliver writers envelope) := by
  have hrewrite :
      Kept labels s { s with desk := (s.desk.rewrite envelope).2 } :=
    .of_silent (aside_rewrite s envelope) (fun _ _ => .inl) rfl
      (fun _ h => h) rfl rfl rfl
  rw [Server.deliver]
  dsimp only
  split
  next rewritten heq =>
    refine Kept.trans (hrewrite.trans ?_) (kept_flushClosed _ _)
    refine .of_aside (.of_eq rfl rfl rfl rfl rfl rfl rfl rfl)
      (fun _ _ => .inl) rfl
      (fun _ _ => .inl) (fun _ _ _ => .inl)
      (fun handed hmem => ⟨handed, hmem, rfl⟩)
      fun c message hmem => ?_
    let out :=
      Outbound.route s.flags writers ⟨s.outboundConnections,
        s.written, []⟩ rewritten
    have hroute : out.written c = s.written c ∨
        out.written c = s.written c ++ [rewritten.message] ∧
          Outbound.Receives s.flags rewritten c :=
            Outbound.written_route rewritten c
    change message ∈ out.written c at hmem
    rcases hroute with hsame | ⟨happended, hreceives⟩
    · exact .inl (hsame ▸ hmem)
    · rw [happended] at hmem
      rcases List.mem_append.1 hmem with hmem | hmem
      · exact .inl hmem
      · obtain rfl := List.mem_singleton.1 hmem
        refine .inr fun hanswer => ⟨?_, hreceives.notSkipped⟩
        obtain rfl := (message_rewrite heq).resolve_right fun hne => hne hanswer
        rcases hreceives.addressed with ⟨message, haddressed⟩ | ⟨-, hflag⟩
        · exact hinit c message haddressed
        · exact hflag
  next => exact hrewrite

theorem kept_arrive {message : JSONRPCMessage} {writer : TrySend}
    (hsaid : Said labels c message) :
    Kept labels s (s.arrive c message writer) := by
  have haside := aside_arrive s c message writer
  unfold Server.arrive at haside ⊢
  split
  · exact .refl s
  next hrunning =>
    rw [if_neg hrunning] at haside
    split
    next hroom =>
      rw [if_pos hroom] at haside
      refine .of_silent haside (fun d other hmem => ?_) rfl
        (fun _ h => h) rfl rfl rfl
      rcases List.mem_append.1 hmem with hmem | hmem
      · exact .inl hmem
      · obtain ⟨rfl, rfl⟩ :=
          TransportEvent.incomingMessage.inj (List.mem_singleton.1 hmem)
        exact .inr hsaid
    next hfull =>
      rw [if_neg hfull] at haside
      split
      next request =>
        refine .of_aside haside (fun _ _ => .inl) rfl (fun _ _ => .inl)
          (fun _ _ _ => .inl)
          (fun handed hmem => ⟨handed, hmem, rfl⟩) fun d other hmem => ?_
        by_cases hd : d = c
        · subst hd
          dsimp only at hmem
          rw [Function.update_self] at hmem
          rcases List.mem_append.1 hmem with hmem | hmem
          · exact .inl hmem
          · obtain rfl := List.mem_singleton.1 hmem
            exact .inr fun hanswer => absurd hanswer (Option.some_ne_none _)
        · dsimp only at hmem
          rw [Function.update_of_ne hd] at hmem
          exact .inl hmem
      next => exact .refl s

theorem kept_sendOrWait
    (hinit : ∀ c message, envelope = .toConnection c message →
      (s.flags c).initialized = true) :
    Kept labels s ((s.sendEnvelope envelope).getD s) := by
  cases hsend : s.sendEnvelope envelope with
  | none => exact .refl s
  | some next => exact kept_sendEnvelope hsend hinit

theorem kept_answer (k : ℕ) (answer : Answer) :
    Kept labels s (s.answer k answer) := by
  rw [Server.answer]
  split
  next handed hhanded =>
    cases hsend : s.sendEnvelope
      (.broadcast (.ofAnswer handed.request.id answer)) with
    | none => exact .refl s
    | some next =>
        have hnext : Kept labels s next := kept_sendEnvelope hsend (by simp)
        refine hnext.trans
          (.of_aside (.of_eq rfl rfl rfl rfl rfl rfl rfl rfl) (fun _ _ => .inl)
          rfl (fun _ _ => .inl) (fun _ _ _ => .inl) (fun later hmem => ?_)
            fun _ _ => .inl)
        have hsame : next.handed = s.handed := by
          rw [Server.sendEnvelope] at hsend
          split at hsend
          · exact Option.some.inj hsend ▸ rfl
          · split at hsend
            · exact Option.some.inj hsend ▸ rfl
            · cases hsend
        rw [hsame]
        rcases List.mem_or_eq_of_mem_set hmem with hmem | rfl
        · exact ⟨later, hmem, rfl⟩
        · exact ⟨handed, List.mem_of_getElem? hhanded, rfl⟩
  next => exact .refl s

theorem kept_ask (h : Gated config labels s) (k : ℕ) (method : String)
    (params : Option Json) :
    Kept labels s (s.ask k method params) := by
  rw [Server.ask]
  split
  next handed hhanded =>
    have hinit := h.handed handed (List.mem_of_getElem? hhanded)
    refine .of_aside (.of_eq rfl rfl rfl rfl rfl rfl rfl rfl)
      (fun _ _ => .inl) rfl
      (fun _ _ => .inl) (fun c id message hmem => ?_)
      (fun later hmem => ⟨later, hmem, rfl⟩)
      fun _ _ => .inl
    rcases List.mem_append.1 hmem with hmem | hmem
    · exact .inl hmem
    · obtain ⟨-, heq⟩ := Prod.mk.inj (List.mem_singleton.1 hmem)
      exact .inr ((OutgoingEnvelope.toConnection.inj heq).1 ▸ hinit)
  next => exact .refl s

theorem kept_sendRequest (h : Gated config labels s) (i : ℕ) :
    Kept labels s (s.sendRequest i) := by
  rw [Server.sendRequest]
  split
  next id envelope hget =>
    have hmem := List.mem_of_getElem? hget
    have herase : ∀ {t : Server}, Aside s t → t.events = s.events →
        t.flags = s.flags →
        t.outgoing = s.outgoing → t.unsent = s.unsent.eraseIdx i →
        t.handed = s.handed →
        t.written = s.written → Kept labels s t := by
      intro t haside hevents hflags houtgoing hunsent hhanded hwritten
      refine .of_aside haside (hevents ▸ fun _ _ => .inl) hflags (houtgoing ▸
        fun _ _ => .inl) ?_
        (hhanded ▸ fun later hmem => ⟨later, hmem, rfl⟩) (hwritten ▸
          fun _ _ => .inl)
      exact fun _ _ _ hin => .inl (List.eraseIdx_subset (hunsent ▸ hin))
    split
    · exact herase (.of_eq rfl rfl rfl rfl rfl rfl rfl rfl) rfl rfl
        rfl rfl rfl rfl
    · cases hsend : s.sendEnvelope envelope with
      | none => exact .refl s
      | some next =>
          have hnext : Kept labels s next := by
            refine kept_sendEnvelope hsend ?_
            rintro c message rfl
            exact h.unsent c id message hmem
          have hunsent : next.unsent = s.unsent := by
            rw [Server.sendEnvelope] at hsend
            split at hsend
            · exact Option.some.inj hsend ▸ rfl
            · split at hsend
              · exact Option.some.inj hsend ▸ rfl
              · cases hsend
          refine hnext.trans (.of_aside (.of_eq rfl rfl rfl rfl rfl rfl rfl rfl)
            (fun _ _ => .inl) rfl (fun _ _ => .inl) (fun _ _ _ hin => ?_)
            (fun later hmem => ⟨later, hmem, rfl⟩) fun _ _ => .inl)
          exact .inl (hunsent ▸ List.eraseIdx_subset hin)
  next => exact .refl s

theorem kept_step (h : Gated config labels s) {label : Label}
    (hlabel : label ∈ labels)
    (hprocess : label ≠ .process) : Kept labels s (s.step config label) := by
  cases label with
  | process => exact absurd rfl hprocess
  | connect =>
      rw [Server.step]
      split
      · exact .refl s
      next =>
        refine ⟨fun _ _ => .inl, rfl, rfl, rfl, fun c hc => ?_, fun _ _ => .inl,
          fun _ _ _ => .inl, fun handed hmem =>
            ⟨handed, hmem, rfl⟩, fun _ _ => .inl⟩
        rcases hc with hmem | hle
        · rw [Server.unborn, List.append_assoc, List.singleton_append] at hmem
          rcases List.mem_cons.1 (List.perm_middle.mem_iff.1 hmem) with
            rfl | hmem
          · exact .inr le_rfl
          · exact .inl hmem
        · exact .inr (Nat.le_of_succ_le hle)
  | accept c =>
      have haside := aside_acceptConnection s c
      change Kept labels s (s.acceptConnection c)
      rw [Server.acceptConnection] at haside ⊢
      split
      · exact .refl s
      next hroom =>
        rw [if_neg hroom] at haside
        refine .of_silent haside (fun d other hmem => ?_) rfl
          (fun _ h => h) rfl rfl rfl
        rcases List.mem_append.1 hmem with hmem | hmem
        · exact .inl hmem
        · cases List.mem_singleton.1 hmem
  | arrive c message writer => exact kept_arrive ⟨writer, hlabel⟩
  | disconnect c =>
      rw [Server.step, Server.disconnect]
      split
      · exact .refl s
      · split
        · exact .of_silent (.of_eq rfl rfl rfl rfl rfl rfl rfl rfl)
            (fun _ _ => .inl) rfl
            (fun _ h => h) rfl rfl rfl
        · split
          · refine .of_silent
              (.of_eq rfl (opens_concat _ rfl) rfl rfl rfl rfl rfl rfl)
              (fun d other hmem => ?_) rfl (fun _ h => h) rfl rfl rfl
            rcases List.mem_append.1 hmem with hmem | hmem
            · exact .inl hmem
            · cases List.mem_singleton.1 hmem
          · exact .refl s
  | pollControl =>
      rw [Server.step, Server.pollControl]
      split
      · exact .refl s
      · split
        next event rest heq =>
          refine Kept.trans ?_ (kept_flushClosed _ _)
          cases event <;>
            exact .of_silent (.of_eq rfl rfl rfl rfl rfl rfl rfl rfl)
            (fun _ _ => .inl) rfl (fun _ h => h) rfl rfl rfl
        next =>
          split
          next hstopped =>
            exact .of_silent ⟨.of_eq rfl rfl rfl rfl rfl rfl, rfl, rfl,
              fun _ => .inr hstopped⟩
              (fun _ _ => .inl) rfl (fun _ h => h) rfl rfl rfl
          next =>
            exact .of_silent (.of_eq rfl rfl rfl rfl rfl rfl rfl rfl)
              (fun _ _ => .inl) rfl (fun _ h => h) rfl rfl rfl
  | pollOutgoing writers =>
      rw [Server.step, Server.pollOutgoing]
      split
      · exact .refl s
      · split
        next envelope rest heq =>
          have hrest :
              Kept labels s { s with outgoing := rest, polled := false } :=
            .of_silent (.of_eq rfl rfl rfl rfl rfl rfl rfl rfl)
              (fun _ _ => .inl) rfl
              (fun _ hmem => heq ▸ List.mem_cons_of_mem _ hmem) rfl rfl rfl
          refine hrest.trans (kept_deliver writers ?_)
          rintro c message rfl
          exact h.queued c message (heq ▸ List.mem_cons_self)
        next =>
          exact .of_silent (.of_eq rfl rfl rfl rfl rfl rfl rfl rfl)
            (fun _ _ => .inl) rfl
            (fun _ h => h) rfl rfl rfl
  | answer k answer => exact kept_answer k answer
  | notify k method params =>
      rw [Server.step, Server.notify]
      split
      next handed hhanded =>
        refine kept_sendOrWait fun c message heq => ?_
        obtain ⟨rfl, -⟩ := OutgoingEnvelope.toConnection.inj heq
        exact h.handed handed (List.mem_of_getElem? hhanded)
      next => exact .refl s
  | broadcast method params => exact kept_sendOrWait (by simp)
  | ask k method params => exact kept_ask h k method params
  | sendRequest i => exact kept_sendRequest h i

/-! ## The processor -/

/-- The next action of a plan is done, after which the flags say of the
connections what they said, or what was planned. -/
theorem Gated.next (h : Gated config labels s) {action : Action}
    {rest : List Action}
    (htodo : s.todo = action :: rest) (hrest : t.todo = rest)
    (hevents : t.events = s.events)
    (hconnections : ∀ connection ∈ t.connections.values,
      connection ∈ s.connections.values ∨
      connection.session.initialized = false ∧ connection.id ∈ s.unborn)
    (hunborn : ∀ c, c ∈ t.unborn ∨ t.nextConnectionId ≤ c →
      c ∈ s.unborn ∨ s.nextConnectionId ≤ c)
    (hqueued : ∀ c message, .toConnection c message ∈ t.outgoing →
      .toConnection c message ∈ s.outgoing ∨ action.Addresses c)
    (hunsent : t.unsent = s.unsent)
    (hhanded : ∀ handed ∈ t.handed,
      handed ∈ s.handed ∨ action.Addresses handed.connectionId)
    (hwritten : t.written = s.written)
    (hsame : ∀ c, (s.flags c).initialized = true → t.flags c = s.flags c)
    (hset : ∀ c, action = .setInitialized c → (t.flags c).initialized = true)
    (hunset : ∀ c, action ≠ .setInitialized c →
      (s.flags c).initialized = false →
      (t.flags c).initialized = false)
    (hoptOut : ∀ c methods, action = .setOptedOut c methods →
      (t.flags c).optedOutNotificationMethods = methods)
    (hkeep : ∀ c, (∀ methods, action ≠ .setOptedOut c methods) →
      (t.flags c).optedOutNotificationMethods =
        (s.flags c).optedOutNotificationMethods) :
    Gated config labels t := by
  obtain ⟨hbefore, horder⟩ := List.pairwise_cons.1 (htodo ▸ h.order)
  have hhead : action ∈ s.todo := htodo ▸ List.mem_cons_self
  have hsub : ∀ {other}, other ∈ rest → other ∈ s.todo :=
    fun hmem => htodo ▸ List.mem_cons_of_mem _ hmem
  have hsplit : ∀ {other}, other ∈ s.todo → action = other ∨ other ∈ rest :=
    fun hmem => (List.mem_cons.1 (htodo ▸ hmem)).imp_left Eq.symm
  have hstill : ∀ {c}, (s.flags c).initialized = true →
      (t.flags c).initialized = true :=
    fun hc => (congrArg OutboundFlags.initialized (hsame _ hc)).trans hc
  have hyes : ∀ {c}, (s.flags c).initialized = true ∨
      .setInitialized c ∈ s.todo →
      (t.flags c).initialized = true ∨ .setInitialized c ∈ rest := by
    rintro c (hc | hmem)
    · exact .inl (hstill hc)
    · exact (hsplit hmem).imp_left (hset c)
  have hno : ∀ {c}, (s.flags c).initialized = false ∧
      .setInitialized c ∉ s.todo →
      (t.flags c).initialized = false ∧ .setInitialized c ∉ rest := by
    rintro c ⟨hc, hmem⟩
    exact ⟨hunset c (fun heq => hmem (heq ▸ hhead)) hc,
      fun hin => hmem (hsub hin)⟩
  -- An initialization that is still planned would have to come before the
  -- action.
  have haddressed : ∀ {c}, action.Addresses c →
      (t.flags c).initialized = true := by
    intro c haction
    rcases hyes (h.planned action hhead c haction) with hc | hmem
    · exact hc
    · exact absurd haction ((hbefore _ hmem).initialized c rfl)
  have hopts : ∀ {c},
      OptsOut config labels c (s.flags c).optedOutNotificationMethods ∨
      (∃ methods, .setOptedOut c methods ∈ s.todo) →
        OptsOut config labels c (t.flags c).optedOutNotificationMethods ∨
          ∃ methods, .setOptedOut c methods ∈ rest := by
    intro c hc
    by_cases haction : ∃ methods, action = .setOptedOut c methods
    · obtain ⟨methods, rfl⟩ := haction
      rw [hoptOut c methods rfl]
      exact .inl (h.optOut c methods hhead).1
    · rw [hkeep c (not_exists.1 haction)]
      refine hc.imp_right fun ⟨methods, hmem⟩ => ⟨methods, ?_⟩
      exact (hsplit hmem).resolve_left fun heq => haction ⟨methods, heq⟩
  refine ⟨hevents ▸ h.events, ?_, ?_, ?_, ?_, ?_, hrest ▸ horder, ?_, ?_,
    ?_, ?_, ?_, ?_⟩
  · rw [hrest]
    intro connection hmem hsession
    rcases hconnections connection hmem with hmem | ⟨hnew, -⟩
    · exact hyes (h.started connection hmem hsession)
    · exact absurd (hnew ▸ hsession) Bool.false_ne_true
  · rw [hrest]
    intro connection hmem hsession
    rcases hconnections connection hmem with hmem | ⟨-, hnew⟩
    · exact hno (h.waiting connection hmem hsession)
    · exact hno (h.fresh _ (.inl hnew))
  · rw [hrest]
    exact fun c hc => hno (h.fresh c (hunborn c hc))
  · rw [hrest]
    intro c methods hmem
    obtain ⟨hc, hinit⟩ := h.optOut c methods (hsub hmem)
    exact ⟨hc, hunset c ((hbefore _ hmem).optedOut c methods rfl) hinit⟩
  · rw [hrest]
    exact fun c hmem => hopts (h.pending c (hsub hmem))
  · rw [hrest]
    exact fun other hmem c hc => hyes (h.planned other (hsub hmem) c hc)
  · intro c hc
    by_cases hinit : (s.flags c).initialized = true
    · rw [hsame c hinit]
      exact h.known c hinit
    · have haction : action = .setInitialized c := by
        by_contra hne
        rw [hunset c hne (Bool.eq_false_of_not_eq_true hinit)] at hc
        exact Bool.false_ne_true hc
      rcases hopts (h.pending c (haction ▸ hhead)) with hc | ⟨methods, hmem⟩
      · exact hc
      · exact absurd haction ((hbefore _ hmem).optedOut c methods rfl)
  · intro c message hmem
    exact (hqueued c message hmem).elim
      (fun hin => hstill (h.queued c message hin)) haddressed
  · exact fun c id message hmem =>
      hstill (h.unsent c id message (hunsent ▸ hmem))
  · intro handed hmem
    exact (hhanded handed hmem).elim
      (fun hin => hstill (h.handed handed hin)) haddressed
  · intro c message hmem hanswer
    have hc := h.written c message (hwritten ▸ hmem) hanswer
    rw [hsame c hc.1]
    exact hc

theorem unborn_of_rest {action : Action} {rest : List Action}
    (htodo : s.todo = action :: rest)
    (hmem : c ∈ s.handshaking ++ (s.events.filterMap TransportEvent.opens ++
      rest.filterMap Action.opens)) : c ∈ s.unborn := by
  have hrest : rest.Sublist s.todo := htodo ▸ List.sublist_cons_self ..
  refine List.Sublist.subset (List.Sublist.append_left ?_ _) hmem
  exact (hrest.filterMap _).append_left _

theorem Gated.next_of_flags (h : Gated config labels s) {action : Action}
    {rest : List Action}
    (htodo : s.todo = action :: rest) (hinit : ∀ c, action ≠ .setInitialized c)
    (hoptOut : ∀ c methods, action ≠ .setOptedOut c methods)
    (hrest : t.todo = rest)
    (hevents : t.events = s.events)
    (hconnections : ∀ connection ∈ t.connections.values,
      connection ∈ s.connections.values ∨
      connection.session.initialized = false ∧ connection.id ∈ s.unborn)
    (hhandshaking : t.handshaking = s.handshaking)
    (hnext : t.nextConnectionId = s.nextConnectionId)
    (hqueued : ∀ c message, .toConnection c message ∈ t.outgoing →
      .toConnection c message ∈ s.outgoing ∨ action.Addresses c)
    (hunsent : t.unsent = s.unsent)
    (hhanded : ∀ handed ∈ t.handed,
      handed ∈ s.handed ∨ action.Addresses handed.connectionId)
    (hwritten : t.written = s.written) (hflags : t.flags = s.flags) :
    Gated config labels t := by
  refine h.next htodo hrest hevents hconnections (fun c hc => ?_) hqueued
    hunsent hhanded
    hwritten (fun c _ => hflags ▸ rfl) (fun c heq => absurd heq (hinit c))
    (fun c _ => hflags ▸
      id) (fun c methods heq => absurd heq (hoptOut c methods))
    fun c _ => hflags ▸ rfl
  rw [hnext] at hc
  refine hc.imp_left fun hmem => unborn_of_rest htodo ?_
  rwa [Server.unborn, hhandshaking, hevents, hrest] at hmem

theorem Gated.stop (h : Gated config labels s)
    (hempty : s.connections.values = []) :
    Gated config labels { s with stopped := true, todo := [] } where
  events := h.events
  started := hempty ▸ fun _ hmem => (List.not_mem_nil hmem).elim
  waiting := hempty ▸ fun _ hmem => (List.not_mem_nil hmem).elim
  fresh c hc := by
    refine ⟨(h.fresh c (hc.imp_left fun hmem => ?_)).1, List.not_mem_nil⟩
    exact (still_stop s).unborn.subset hmem
  optOut _ _ hmem := (List.not_mem_nil hmem).elim
  pending _ hmem := (List.not_mem_nil hmem).elim
  order := .nil
  planned _ hmem := (List.not_mem_nil hmem).elim
  known := h.known
  queued := h.queued
  unsent := h.unsent
  handed := h.handed
  written := h.written

theorem Gated.act (h : Gated config labels s)
    (hrouter : s.routerStopped = false)
    {action : Action} {rest : List Action} (htodo : s.todo = action :: rest)
    (hact : Server.act config { s with todo := rest } action = some t) :
    Gated config labels t := by
  have hdone : ∀ {next : Server}, some next = some t → next.todo = rest →
      next.events = s.events → next.handshaking = s.handshaking →
      next.nextConnectionId = s.nextConnectionId → next.unsent = s.unsent →
      next.written = s.written → next.flags = s.flags →
      (∀ c, action ≠ .setInitialized c) →
      (∀ c methods, action ≠ .setOptedOut c methods) →
      (∀ connection ∈ next.connections.values,
        connection ∈ s.connections.values ∨
        connection.session.initialized = false ∧ connection.id ∈ s.unborn) →
      (∀ c message, .toConnection c message ∈ next.outgoing →
        .toConnection c message ∈ s.outgoing ∨ action.Addresses c) →
      (∀ handed ∈ next.handed, handed ∈ s.handed ∨
        action.Addresses handed.connectionId) →
      Gated config labels t := by
    intro next heq hrest hevents hhandshaking hnext hunsent hwritten hflags
      hinit hoptOut
      hconnections hqueued hhanded
    exact Option.some.inj heq ▸
      h.next_of_flags htodo hinit hoptOut hrest hevents hconnections
      hhandshaking hnext hqueued hunsent hhanded hwritten hflags
  have hplain : ∀ {next : Server}, some next = some t → next.todo = rest →
      next.events = s.events → next.handshaking = s.handshaking →
      next.nextConnectionId = s.nextConnectionId → next.unsent = s.unsent →
      next.written = s.written → next.flags = s.flags → next.handed = s.handed →
      next.outgoing = s.outgoing →
      next.connections.values ⊆ s.connections.values →
      (∀ c, action ≠ .setInitialized c) →
      (∀ c methods, action ≠ .setOptedOut c methods) →
      Gated config labels t := by
    intro next heq hrest hevents hhandshaking hnext hunsent hwritten hflags
      hhanded houtgoing
      hconnections hinit hoptOut
    refine hdone heq hrest hevents hhandshaking hnext hunsent hwritten
      hflags hinit hoptOut
      (fun _ hmem => .inl (hconnections hmem)) ?_ ?_
    · exact houtgoing ▸ fun _ _ => .inl
    · exact hhanded ▸ fun _ => .inl
  have hrest : ∀ {d}, d ∈ ({ s with todo := rest } : Server).unborn →
      d ∈ s.unborn :=
    unborn_of_rest htodo
  cases action with
  | setOptedOut c methods =>
      have hnot := (h.optOut c methods (htodo ▸ List.mem_cons_self)).2
      refine Option.some.inj hact ▸ h.next htodo rfl rfl (fun _ => .inl)
        (fun d hd => hd.imp_left hrest) (fun _ _ => .inl) rfl
        (fun _ => .inl) rfl
        (fun d hd => Function.update_of_ne ?_ ..) (by simp) (fun d _ hd => ?_)
        (fun d others heq => ?_) fun d hd => ?_
      · rintro rfl
        exact absurd (hnot ▸ hd) Bool.false_ne_true
      · dsimp only
        by_cases heq : d = c
        · rw [heq, Function.update_self]
          exact hnot
        · rw [Function.update_of_ne heq]
          exact hd
      · obtain ⟨rfl, rfl⟩ := Action.setOptedOut.inj heq
        dsimp only
        rw [Function.update_self]
      · dsimp only
        rw [Function.update_of_ne]
        rintro rfl
        exact hd methods rfl
  | setInitialized c =>
      refine Option.some.inj hact ▸ h.next htodo rfl rfl (fun _ => .inl)
        (fun d hd => hd.imp_left hrest) (fun _ _ => .inl) rfl
        (fun _ => .inl) rfl
        (fun d hd => ?_) (fun d heq => ?_) (fun d hne hd => ?_) (by simp)
        fun d _ => ?_
      · by_cases heq : d = c
        · subst heq
          dsimp only
          rw [Function.update_self, ← hd]
        · exact Function.update_of_ne heq ..
      · rw [Action.setInitialized.inj heq]
        dsimp only
        rw [Function.update_self]
      · dsimp only
        rw [Function.update_of_ne]
        · exact hd
        · rintro rfl
          exact hne rfl
      · dsimp only
        by_cases heq : d = c
        · rw [heq, Function.update_self]
        · rw [Function.update_of_ne heq]
  | sendOpened c =>
      rw [Server.act] at hact
      split at hact
      next hstopped => exact absurd (hrouter ▸ hstopped) Bool.false_ne_true
      next =>
        split at hact
        · refine hdone hact rfl rfl rfl rfl rfl rfl rfl (by simp)
            (by simp) (fun connection hmem => ?_) (fun _ _ => .inl)
            fun _ => .inl
          rcases Keyed.mem_insert.1 hmem with rfl | ⟨hmem, -⟩
          · refine .inr ⟨rfl, ?_⟩
            rw [Server.unborn, htodo]
            exact List.mem_append_right _
              (List.mem_append_right _ List.mem_cons_self)
          · exact .inl hmem
        · cases hact
  | send envelope =>
      rw [Server.act, Server.sendEnvelope] at hact
      split at hact
      · exact hplain hact rfl rfl rfl rfl rfl rfl rfl rfl rfl (fun _ => id)
          (by simp) (by simp)
      · split at hact
        · refine hdone hact rfl rfl rfl rfl rfl rfl rfl (by simp)
            (by simp) (fun _ => .inl) (fun c message hmem => ?_) fun _ => .inl
          refine (List.mem_append.1 hmem).imp_right fun hmem => ?_
          rw [← List.mem_singleton.1 hmem]
          rfl
        · cases hact
  | handle c request =>
      refine hdone hact rfl rfl rfl rfl rfl rfl rfl (by simp)
        (by simp) (fun _ => .inl) (fun _ _ => .inl) fun handed hmem => ?_
      refine (List.mem_append.1 hmem).imp_right fun hmem => ?_
      rw [List.mem_singleton.1 hmem]
      rfl
  | sendClosed =>
      rw [Server.act] at hact
      split at hact
      next hstopped => exact absurd (hrouter ▸ hstopped) Bool.false_ne_true
      next =>
        split at hact
        · exact hplain hact rfl rfl rfl rfl rfl rfl rfl rfl rfl (fun _ => id)
            (by simp) (by simp)
        · cases hact
  | waitForRequestRoutes =>
      rw [Server.act] at hact
      split at hact
      · cases hact
      · exact hplain hact rfl rfl rfl rfl rfl rfl rfl rfl rfl (fun _ => id)
          (by simp) (by simp)
  | stopIfEmpty =>
      rw [Server.act] at hact
      split at hact
      next hempty =>
        rw [Bool.and_eq_true, List.isEmpty_iff] at hempty
        exact Option.some.inj hact ▸ h.stop hempty.2
      next =>
        exact hplain hact rfl rfl rfl rfl rfl rfl rfl rfl rfl (fun _ => id)
          (by simp) (by simp)
  | removeConnection c =>
      exact hplain hact rfl rfl rfl rfl rfl rfl rfl rfl rfl
        (fun _ hmem => (Keyed.mem_remove.1 hmem).1) (by simp)
        (by simp)
  | _ =>
      exact hplain hact rfl rfl rfl rfl rfl rfl rfl rfl rfl (fun _ => id)
        (by simp) (by simp)

/-- A new plan, in which nobody is initialized, sends to and does for
initialized connections. -/
theorem Gated.plan (h : Gated config labels s) (htodo : s.todo = [])
    (hevents : t.events ⊆ s.events)
    (hconnections : t.connections.values ⊆ s.connections.values)
    (hunborn : ∀ c, c ∈ t.unborn ∨ t.nextConnectionId ≤ c →
      c ∈ s.unborn ∨ s.nextConnectionId ≤ c)
    (hflags : t.flags = s.flags) (houtgoing : t.outgoing = s.outgoing)
    (hunsent : t.unsent = s.unsent) (hhanded : t.handed = s.handed)
    (hwritten : t.written = s.written)
    (hplan : ∀ action ∈ t.todo, (∀ c, action ≠ .setInitialized c) ∧
      (∀ c methods, action ≠ .setOptedOut c methods) ∧
        ∀ c, action.Addresses c →
        (s.flags c).initialized = true) : Gated config labels t where
  events c message hmem := h.events c message (hevents hmem)
  started connection hmem hsession := by
    rw [hflags]
    refine .inl
      ((h.started connection (hconnections hmem) hsession).resolve_right ?_)
    exact htodo ▸ List.not_mem_nil
  waiting connection hmem hsession := by
    rw [hflags]
    refine ⟨(h.waiting connection (hconnections hmem) hsession).1,
      fun hin => ?_⟩
    exact (hplan _ hin).1 _ rfl
  fresh c hc := by
    rw [hflags]
    exact ⟨(h.fresh c (hunborn c hc)).1, fun hin => (hplan _ hin).1 _ rfl⟩
  optOut c methods hmem := absurd rfl ((hplan _ hmem).2.1 c methods)
  pending c hmem := absurd rfl ((hplan _ hmem).1 c)
  order := List.pairwise_of_forall_mem_list fun first _ later hmem =>
    ⟨fun c heq => absurd heq ((hplan later hmem).1 c),
      fun c methods heq => absurd heq ((hplan later hmem).2.1 c methods)⟩
  planned action hmem c hc := by
    rw [hflags]
    exact .inl ((hplan action hmem).2.2 c hc)
  known := hflags ▸ h.known
  queued := hflags ▸ houtgoing ▸ h.queued
  unsent := hflags ▸ hunsent ▸ h.unsent
  handed := hflags ▸ hhanded ▸ h.handed
  written := hflags ▸ hwritten ▸ h.written

theorem Gated.acceptInitialize (h : Gated config labels s) (hliving : Living s)
    (htodo : s.todo = [])
    {connection : ConnectionState} (hmem : connection ∈ s.connections.values)
    (hsession : connection.session.initialized = false)
    {params : InitializeParams}
    (hopts : OptsOut config labels connection.id
      (initializedSession params).optedOutNotificationMethods)
    {message : OutgoingMessage}
    (htodo' : t.todo = [.setOptedOut connection.id
        (initializedSession params).optedOutNotificationMethods,
      .send (.broadcast message), .setInitialized connection.id] ++
        initializeNotifications config connection.id)
    (hevents : t.events = s.events)
    (hconnections : t.connections = s.connections.insert
      { connection with session := initializedSession params })
    (hunborn : ∀ c, c ∈ t.unborn → c ∈ s.unborn)
    (hnext : t.nextConnectionId = s.nextConnectionId)
    (hflags : t.flags = s.flags)
    (houtgoing : t.outgoing = s.outgoing) (hunsent : t.unsent = s.unsent)
    (hhanded : t.handed = s.handed) (hwritten : t.written = s.written) :
    Gated config labels t := by
  obtain ⟨hborn, hlt⟩ := hliving.born connection hmem
  have hinit := (h.waiting connection hmem hsession).1
  have hnone : ∀ {action : Action}, action ∉ s.todo := htodo ▸ List.not_mem_nil
  have hwarning : ∀ action ∈ initializeNotifications config connection.id,
      ∃ envelope, action = .send (.toConnection connection.id envelope) := by
    intro action hin
    obtain ⟨warning, -, rfl⟩ := List.mem_map.1 hin
    exact ⟨_, rfl⟩
  have hset : ∀ {c}, .setInitialized c ∈ t.todo ↔ c = connection.id := by
    intro c
    rw [htodo', List.mem_append, or_iff_left fun hin => ?_]
    · simp
    · obtain ⟨_, heq⟩ := hwarning _ hin
      cases heq
  have hmethods : ∀ {c methods}, .setOptedOut c methods ∈ t.todo ↔
      c = connection.id ∧
        methods = (initializedSession params).optedOutNotificationMethods := by
    intro c methods
    rw [htodo', List.mem_append, or_iff_left fun hin => ?_]
    · simp
    · obtain ⟨_, heq⟩ := hwarning _ hin
      cases heq
  refine ⟨hevents ▸ h.events, ?_, ?_, ?_, ?_, ?_, ?_, ?_, hflags ▸ h.known,
    hflags ▸ houtgoing ▸ h.queued, hflags ▸ hunsent ▸ h.unsent,
    hflags ▸ hhanded ▸ h.handed,
    hflags ▸ hwritten ▸ h.written⟩
  · rw [hconnections, hflags]
    intro other hother hstarted
    rcases Keyed.mem_insert.1 hother with rfl | ⟨hother, -⟩
    · exact .inr (hset.2 rfl)
    · exact .inl ((h.started other hother hstarted).resolve_right hnone)
  · rw [hconnections, hflags]
    intro other hother hwaiting
    rcases Keyed.mem_insert.1 hother with rfl | ⟨hother, hne⟩
    · exact absurd hwaiting.symm Bool.false_ne_true
    · exact ⟨(h.waiting other hother hwaiting).1, fun hin => hne (hset.1 hin)⟩
  · rw [hflags, hnext]
    intro c hc
    have hc := hc.imp_left (hunborn c)
    refine ⟨(h.fresh c hc).1, fun hin => ?_⟩
    obtain rfl := hset.1 hin
    exact hc.elim hborn hlt.not_ge
  · rw [hflags]
    intro c methods hin
    obtain ⟨rfl, rfl⟩ := hmethods.1 hin
    exact ⟨hopts, hinit⟩
  · intro c hin
    obtain rfl := hset.1 hin
    exact .inr ⟨_, hmethods.2 ⟨rfl, rfl⟩⟩
  · have hharmless : ∀ {first : Action}, (∀ c, ¬ first.Addresses c) →
        (∀ c, first ≠ .setInitialized c) →
        ∀ later, Before first later := fun hno hset later =>
      ⟨fun c _ => hno c, fun c _ _ => hset c⟩
    have hsend : ∀ first,
        ∀ later ∈ initializeNotifications config connection.id,
        Before first later := by
      intro first later hin
      obtain ⟨envelope, rfl⟩ := hwarning later hin
      exact ⟨by simp, by simp⟩
    rw [htodo']
    refine List.pairwise_append.2
      ⟨.cons ?_ (.cons ?_ (List.pairwise_singleton ..)),
      List.pairwise_of_forall_mem_list fun first _ =>
        hsend first, fun first _ => hsend first⟩
    all_goals
      refine fun later _ => hharmless (fun _ => id) ?_ later
      simp
  · intro action hin c hc
    refine .inr (hset.2 ?_)
    rw [htodo', List.mem_append] at hin
    rcases hin with hin | hin
    · simp only [List.mem_cons, List.not_mem_nil, or_false] at hin
      rcases hin with rfl | rfl | rfl <;> exact hc.elim
    · obtain ⟨envelope, rfl⟩ := hwarning action hin
      exact hc.symm

theorem Gated.acceptRequest (h : Gated config labels s) (hliving : Living s)
    (htodo : s.todo = []) {connection : ConnectionState}
    (hmem : connection ∈ s.connections.values) {request : JSONRPCRequest}
    (hsaid : Said labels connection.id (.request request)) :
    Gated config labels (s.acceptRequest config connection request) := by
  have hunborn : ∀ c, c ∈ (s.acceptRequest config connection request).unborn →
      c ∈ s.unborn := by
    intro c hin
    rw [Server.unborn, htodo]
    refine List.mem_append.2 ((List.mem_append.1 hin).imp_right fun hin => ?_)
    refine List.mem_append.2 ((List.mem_append.1 hin).imp_right fun hin => ?_)
    rwa [Server.acceptRequest, opens_processRequest] at hin
  let id := internalRequestId connection.id s.desk.nextInternalRequestOrdinal
  have hprocessed :=
    processed_processRequest config connection.id connection.session
      { request with id }
  -- Where the session stays, the connection is put back as it was.
  have hback : ∀ {plan : List Action},
      processRequest config connection.id connection.session
          { request with id } = (connection.session, plan) →
      (∀ action ∈ plan, (∀ c, action ≠ .setInitialized c) ∧
        (∀ c methods, action ≠ .setOptedOut c methods) ∧
          ∀ c, action.Addresses c → (s.flags c).initialized = true) →
      Gated config labels (s.acceptRequest config connection request) := by
    intro plan heq hplan
    refine h.plan htodo (fun _ h => h) (fun other hother => ?_)
      (fun c hc => hc.imp_left (hunborn c))
      rfl rfl rfl rfl rfl ?_
    · dsimp only [Server.acceptRequest] at hother
      rw [heq] at hother
      rcases Keyed.mem_insert.1 hother with rfl | ⟨hother, -⟩
      · exact hmem
      · exact hother
    · dsimp only [Server.acceptRequest]
      rw [heq]
      exact hplan
  generalize hresult : processRequest config connection.id connection.session
    { request with id } =
    result at hprocessed
  rcases hprocessed with text | suffix | hinit | ⟨hparse, hinit, suffix⟩
  · exact hback hresult
      (List.forall_mem_singleton.2 ⟨by simp [refuse], by simp [refuse],
      fun _ => False.elim⟩)
  · exact hback hresult
      (List.forall_mem_singleton.2 ⟨by simp, by simp, fun _ => False.elim⟩)
  · refine hback hresult (List.forall_mem_singleton.2 ⟨by simp, by simp, ?_⟩)
    rintro c rfl
    refine (h.started connection hmem hinit).resolve_right ?_
    exact htodo ▸ List.not_mem_nil
  · refine h.acceptInitialize hliving htodo hmem hinit ⟨request, id, _,
      hsaid, hparse, rfl⟩
      (congrArg Prod.snd hresult) rfl ?_ hunborn rfl rfl rfl rfl rfl rfl
    dsimp only [Server.acceptRequest]
    rw [hresult]

theorem addresses_closeActions (c : ConnectionId) :
    ∀ action ∈ Server.closeActions config c, (∀ d, action ≠ .setInitialized d) ∧
      (∀ d methods, action ≠ .setOptedOut d methods) ∧ ∀ d,
        ¬ action.Addresses d := by
  rw [Server.closeActions]
  split <;> simp [Action.Addresses]

theorem Gated.takeEvent (h : Gated config labels s) (hliving : Living s)
    (htodo : s.todo = [])
    {event : TransportEvent} {rest : List TransportEvent}
    (hevents : s.events = event :: rest) :
    Gated config labels (Server.takeEvent config { s with
      events := rest } event) := by
  have hsub : rest ⊆ s.events := hevents ▸ List.subset_cons_self ..
  have hnone : ∀ {action : Action}, action ∉ s.todo := htodo ▸ List.not_mem_nil
  have hplan : ∀ {todo : List Action},
      (∀ action ∈ todo, (∀ c, action ≠ .setInitialized c) ∧
      (∀ c methods, action ≠ .setOptedOut c methods) ∧ ∀ c,
        ¬ action.Addresses c) →
      (∀ c ∈ todo.filterMap Action.opens, c ∈ s.unborn) →
      Gated config labels { s with events := rest, todo } := by
    intro todo hactions hopens
    refine h.plan htodo hsub (fun _ h => h) (fun c hc => hc.imp_left
      fun hmem => ?_) rfl rfl rfl
      rfl rfl fun action hmem => ?_
    · rcases List.mem_append.1 hmem with hmem | hmem
      · exact List.mem_append_left _ hmem
      · rcases List.mem_append.1 hmem with hmem | hmem
        · refine List.mem_append_right _ (List.mem_append_left _ ?_)
          exact List.filterMap_subset _ hsub hmem
        · exact hopens c hmem
    · obtain ⟨hinit, hoptOut, haddresses⟩ := hactions action hmem
      exact ⟨hinit, hoptOut, fun c hc => absurd hc (haddresses c)⟩
  have hrest : Gated config labels { s with events := rest } := by
    have hsame : Gated config labels { s with events := rest, todo := [] } :=
      hplan (fun _ hmem => (List.not_mem_nil hmem).elim)
        fun _ hmem => (List.not_mem_nil hmem).elim
    rwa [← htodo] at hsame
  rcases event with ⟨c, notify⟩ | c | ⟨c, message⟩
  · refine hplan (List.forall_mem_singleton.2 ⟨by simp, by simp, fun _ => id⟩)
      (List.forall_mem_singleton.2 ?_)
    rw [Server.unborn, hevents]
    exact List.mem_append_right _ (List.mem_append_left _ List.mem_cons_self)
  · refine hplan (addresses_closeActions c) fun d hmem => ?_
    rw [opens_closeActions] at hmem
    exact (List.not_mem_nil hmem).elim
  · have hsaid := h.events c message (hevents ▸ List.mem_cons_self)
    rcases message with request | ⟨method, params⟩ | ⟨id, result⟩ | ⟨id, e⟩
    · rw [Server.takeEvent]
      split
      next connection hget =>
        obtain ⟨hmem, rfl⟩ := Keyed.get_eq_some.1 hget
        exact hrest.acceptRequest (hliving.still (still_nextEvent hevents))
          htodo hmem hsaid
      next => exact hrest
    · exact hrest
    · exact hplan (List.forall_mem_singleton.2 ⟨by simp, by simp, fun _ h => h⟩)
        fun _ hmem =>
        (List.not_mem_nil hmem).elim
    · exact hplan (List.forall_mem_singleton.2 ⟨by simp, by simp, fun _ h => h⟩)
        fun _ hmem =>
        (List.not_mem_nil hmem).elim

theorem Gated.step (h : Gated config labels s) (hliving : Living s)
    (hdraining : Draining config s) {label : Label} (hlabel : label ∈ labels) :
    Gated config labels (s.step config label) := by
  by_cases hprocess : label = .process
  · subst hprocess
    rw [Server.step, Server.process]
    split
    · exact h
    next hrunning =>
      split
      next action rest htodo =>
        cases hact : Server.act config { s with todo := rest } action with
        | none => exact h
        | some next =>
            refine h.act (Bool.eq_false_of_not_eq_true
              fun hrouter => ?_) htodo hact
            exact hrunning (hdraining.router hrouter)
      next htodo =>
        split
        next event rest hevents => exact h.takeEvent hliving htodo hevents
        next => exact h
  · exact h.kept (kept_step h hlabel hprocess)

/-! ## Nothing else before it -/

theorem gated_run (config : ServerConfig) (labels : List Label) :
    Gated config labels (Server.run config labels) := by
  have hrun := after_induction_mem
    (P := fun s => Living s ∧ Draining config s ∧ Gated config labels s)
    (fun s label hlabel ⟨hliving, hdraining, h⟩ => ⟨hliving.step label,
      hdraining.step label,
      h.step hliving hdraining hlabel⟩) ⟨living_start,
      draining_start, gated_start⟩
  exact hrun.2.2

/-- A connection has asked to be initialized and was accepted; what it opted
out of then is what the server keeps of it. -/
structure Accepted (config : ServerConfig) (labels : List Label) (s : Server)
    (c : ConnectionId) :
    Prop where
  initialized : (s.flags c).initialized = true
  optsOut : OptsOut config labels c (s.flags c).optedOutNotificationMethods

/-- In every order of the steps of all tasks, requests are handed on, and
anything but answers is written, only for connections that have asked to be
initialized and were accepted; and what a connection has opted out of there is
never written to it, not even by what was sent before or to everybody. -/
theorem run_initializedFirst (config : ServerConfig) (labels : List Label) :
    let s := Server.run config labels
    (∀ handed ∈ s.handed, Accepted config labels s handed.connectionId) ∧
    ∀ c, (∀ message ∈ s.written c, ∃ answer, message.answer = some answer) ∨
      Accepted config labels s c ∧ ∀ method params,
        .notification method params ∈ s.written c →
        method ∉ (s.flags c).optedOutNotificationMethods := by
  intro s
  have h : Gated config labels s := gated_run config labels
  have haccepted : ∀ c, (s.flags c).initialized = true →
      Accepted config labels s c :=
    fun c hinit => ⟨hinit, h.known c hinit⟩
  refine ⟨fun handed hmem => haccepted _ (h.handed handed hmem), fun c => ?_⟩
  by_cases hinit : (s.flags c).initialized = true
  · refine .inr ⟨haccepted c hinit, fun method params hmem hin => ?_⟩
    have hskip := (h.written c _ hmem rfl).2
    rw [shouldSkipNotification, List.contains_iff_mem.2 hin] at hskip
    exact Bool.false_ne_true hskip.symm
  · refine .inl fun message hmem =>
      Option.ne_none_iff_exists'.1 fun hnone => hinit ?_
    exact (h.written c message hmem hnone).1

end CodeRs.AppServer
