import CodeRs.AppServer.Outgoing
import CodeRs.Lib.Runs

/-!
# The app server

One task reads what the connections say and handles it, another one sends what
is to be sent, and every connection has a task of its own; they meet at queues
of bounded length.  A request that passes the first checks is handed on, and
who handles it may answer, send notifications and ask its connection back at
any time later.
-/

namespace CodeRs.AppServer

def channelCapacity : ℕ := 128

def invalidRequestErrorCode : ℤ := -32600

def overloadedErrorCode : ℤ := -32001

/-- The answer to a request that finds the queue to the processor full. -/
def overloadError : JSONRPCErrorError where
  code := overloadedErrorCode
  message := "Server overloaded; retry later."

structure JSONRPCRequest where
  id : RequestId
  method : String
  params : Option Json

inductive JSONRPCMessage where
  | request (request : JSONRPCRequest)
  | notification (method : String) (params : Option Json)
  | response (id : RequestId) (result : Json)
  | error (id : RequestId) (error : JSONRPCErrorError)

structure InitializeParams where
  name : String
  version : String
  /-- `opt_out_notification_methods` of the capabilities, if there are any. -/
  capabilities : Option (Option (List String))

/-- `ClientRequest`, as far as the processor tells its variants apart. -/
inductive ClientRequest where
  | initializeRequest (params : InitializeParams)
  | getUserAgent
  | other

structure ConnectionSessionState where
  initialized : Bool := false
  userAgentSuffix : Option String := none
  optedOutNotificationMethods : List String := []

structure ConnectionState where
  id : ConnectionId
  session : ConnectionSessionState := {}

/-- What the server is started with: whether it speaks over stdio and ends with
its connection, and how it reads a request and names itself. -/
structure ServerConfig where
  shutdownWhenNoConnections : Bool
  configWarnings : List Json
  parse : JSONRPCRequest → Option ClientRequest
  userAgent : Option String → String

/-! ## Requests under ids of the server -/

/-- The routes of the requests that were not answered, with what has become of
the others. -/
structure RequestDesk where
  nextInternalRequestOrdinal : ℕ := 0
  requestRoutes : RequestRoutes := .empty
  requests : Tickets RequestId RequestRoute Answer := {}

namespace RequestDesk

/-- A request of a connection gets an id and a route. -/
def accept (desk : RequestDesk) (route : RequestRoute) : RequestDesk :=
  let id := internalRequestId route.connectionId desk.nextInternalRequestOrdinal
  { nextInternalRequestOrdinal := desk.nextInternalRequestOrdinal + 1
    requestRoutes := desk.requestRoutes.insert (id, route)
    requests := desk.requests.issue (id, route) }

/-- The router takes an envelope. -/
def rewrite (desk : RequestDesk) (envelope : OutgoingEnvelope) :
    Option OutgoingEnvelope × RequestDesk :=
  let rewritten := rewriteResponseRouting desk.requestRoutes envelope
  (rewritten.1,
    { desk with
      requestRoutes := rewritten.2
      requests :=
        match envelope with
        | .toConnection _ _ => desk.requests
        | .broadcast message =>
            match message.answer with
            | some (id, answer) =>
                match desk.requestRoutes.get id with
                | some ticket => desk.requests.redeem ticket answer
                | none => desk.requests
            | none => desk.requests })

/-- `remove_request_routes_for_connection`. -/
def removeRoutes (desk : RequestDesk) (connectionId : ConnectionId) :
    RequestDesk :=
  { desk with
    requestRoutes := desk.requestRoutes.retain fun entry =>
      decide (entry.2.connectionId ≠ connectionId)
    requests := desk.requests.cancel (desk.requestRoutes.values.filter
      fun entry =>
      ! decide (entry.2.connectionId ≠ connectionId)) }

/-- Whether `wait_for_request_routes_for_connection` goes on waiting. -/
def hasPendingRequests (desk : RequestDesk)
    (connectionId : ConnectionId) : Bool :=
  desk.requestRoutes.values.any fun entry => entry.2.connectionId = connectionId

end RequestDesk

/-! ## The processor -/

/-- What the processor does for an event, between two points at which others
may step in. -/
inductive Action where
  | sendOpened (connectionId : ConnectionId) (disconnectNotify : Bool)
  | setOptedOut (connectionId : ConnectionId) (methods : List String)
  | setInitialized (connectionId : ConnectionId)
  | send (envelope : OutgoingEnvelope)
  | handle (connectionId : ConnectionId) (request : JSONRPCRequest)
  | notifyClientResponse (connectionId : ConnectionId) (id :
    RequestId) (result : Json)
  | notifyClientError (connectionId : ConnectionId) (id : RequestId)
  | clearCallbacks (connectionId : ConnectionId)
  | waitForRequestRoutes (connectionId : ConnectionId)
  | sendClosed (connectionId : ConnectionId)
  | removeConnection (connectionId : ConnectionId)
  | stopIfEmpty

/-- An error for a request that is not handed on. -/
def refuse (id : RequestId) (message : String) : Action :=
  .send (.broadcast (.error id ⟨invalidRequestErrorCode, message, none⟩))

/-- The methods of `try_process_v2_config_request`. -/
def v2Methods : List String :=
  ["config/read", "configRequirements/read", "config/value/write",
    "config/batchWrite",
    "externalAgentConfig/detect", "externalAgentConfig/import", "account/read",
    "account/login/start", "account/login/cancel", "account/logout",
    "account/rateLimits/read"]

/-- `InitializeResponse` and `GetUserAgentResponse`. -/
def userAgentResponse (config : ServerConfig) (suffix : Option String) : Json :=
  .object [("userAgent", .string (config.userAgent suffix))]

/-- `send_initialize_notifications`. -/
def initializeNotifications (config : ServerConfig)
    (connectionId : ConnectionId) :
    List Action :=
  config.configWarnings.map fun warning =>
    .send
      (.toConnection connectionId
        (.notification "configWarning" (some warning)))

/-- The session that `Initialize` leaves. -/
def initializedSession (params : InitializeParams) :
    ConnectionSessionState where
  initialized := true
  userAgentSuffix := some (params.name ++ "; " ++ params.version)
  optedOutNotificationMethods := (params.capabilities.bind id).getD []

/-- `process_request`, with what is sent to a connection that was initialized
by it. -/
def processRequest (config : ServerConfig) (connectionId : ConnectionId)
    (session : ConnectionSessionState) (request : JSONRPCRequest) :
    ConnectionSessionState × List Action :=
  if request.method ∈ v2Methods then
    if session.initialized then (session, [.handle connectionId request])
    else (session, [refuse request.id "Not initialized"])
  else
    match config.parse request with
    | some (.initializeRequest params) =>
        if session.initialized then
          (session, [refuse request.id "Already initialized"])
        else
          let next := initializedSession params
          (next,
            [.setOptedOut connectionId next.optedOutNotificationMethods,
              .send (.broadcast (.response request.id
                (userAgentResponse config next.userAgentSuffix))),
              .setInitialized connectionId] ++
              initializeNotifications config connectionId)
    | some .getUserAgent =>
        if session.initialized then
          (session, [.send (.broadcast (.response request.id
            (userAgentResponse config session.userAgentSuffix)))])
        else (session, [refuse request.id "Not initialized"])
    | some .other =>
        if session.initialized then (session, [.handle connectionId request])
        else (session, [refuse request.id "Not initialized"])
    | none => (session, [refuse request.id "Invalid request"])

/-- What becomes of a request: only one of an initialized connection is handed
on, and only `initialize` of another one changes the session. -/
inductive Processed (config : ServerConfig) (c : ConnectionId)
    (session : ConnectionSessionState)
    (request : JSONRPCRequest) :
    ConnectionSessionState × List Action → Prop where
  | refused (text : String) : Processed config c session request (session,
    [refuse request.id text])
  | answered (suffix : Option String) : Processed config c session request
      (session,
        [.send
          (.broadcast
            (.response request.id (userAgentResponse config suffix)))])
  | handled (h : session.initialized = true) :
      Processed config c session request (session, [.handle c request])
  | initialized {params : InitializeParams} (hparse : config.parse request =
    some (.initializeRequest params))
      (h : session.initialized = false) (suffix : Option String) :
      Processed config c session request (initializedSession params,
        [.setOptedOut c (initializedSession params).optedOutNotificationMethods,
          .send
            (.broadcast
              (.response request.id (userAgentResponse config suffix))),
          .setInitialized c] ++ initializeNotifications config c)

theorem processed_processRequest (config : ServerConfig) (c : ConnectionId)
    (session : ConnectionSessionState) (request : JSONRPCRequest) :
    Processed config c session request
      (processRequest config c session request) := by
  rw [processRequest]
  split
  · split
    next h => exact .handled h
    next => exact .refused _
  · split
    next hparse =>
      split
      next => exact .refused _
      next h => exact .initialized hparse (Bool.eq_false_of_not_eq_true h) _
    next =>
      split
      next => exact .answered _
      next => exact .refused _
    next =>
      split
      next h => exact .handled h
      next => exact .refused _
    next => exact .refused _

/-! ## The state -/

inductive TransportEvent where
  | connectionOpened (connectionId : ConnectionId) (disconnectNotify : Bool)
  | connectionClosed (connectionId : ConnectionId)
  | incomingMessage (connectionId : ConnectionId) (message : JSONRPCMessage)

inductive OutboundControlEvent where
  | opened (connectionId : ConnectionId) (disconnectNotify : Bool)
  | closed (connectionId : ConnectionId)

/-- A request that was handed on, and the answers that were given to it. -/
structure Handed where
  connectionId : ConnectionId
  request : JSONRPCRequest
  answers : List Answer := []

structure Server where
  /-- The queue to the processor, and the connections whose tasks fill it. -/
  events : List TransportEvent := []
  handshaking : List ConnectionId := []
  transports : List ConnectionId := []
  nextConnectionId : ConnectionId := 1
  /-- The processor. -/
  todo : List Action := []
  stopped : Bool := false
  connections : Keyed ConnectionState.id := .empty
  -- No two connections have one id, so the flags of a new one are as at the
  -- beginning.
  flags : ConnectionId → OutboundFlags := fun _ => {}
  desk : RequestDesk := {}
  sender : OutgoingMessageSender := {}
  /-- Who handles requests, and the requests back that were registered but not
  sent. -/
  handed : List Handed := []
  unsent : List (RequestId × OutgoingEnvelope) := []
  /-- The queues to the router, and the router. -/
  outgoing : List OutgoingEnvelope := []
  control : List OutboundControlEvent := []
  polled : Bool := false
  routerStopped : Bool := false
  outboundConnections : OutboundConnections := .empty
  written : ConnectionId → List OutgoingMessage := fun _ => []
  pendingClosedConnections : List ConnectionId := []
  /-- The requests that were refused since the server was overloaded. -/
  overloaded : ConnectionId → List RequestId := fun _ => []

/-- A server over stdio has one connection from the beginning. -/
def Server.start (config : ServerConfig) : Server :=
  if config.shutdownWhenNoConnections then
    { events := [.connectionOpened 0 false], transports := [0] }
  else {}

namespace Server

/-- `send_envelope`: it waits while the queue is full, and what is sent to a
router that has ended is lost. -/
def sendEnvelope (s : Server) (envelope : OutgoingEnvelope) : Option Server :=
  if s.routerStopped then some s
  else if s.outgoing.length < channelCapacity then
    some { s with outgoing := s.outgoing ++ [envelope] }
  else none

/-- One action, unless it has to wait. -/
def act (config : ServerConfig) (s : Server) : Action → Option Server
  | .sendOpened c disconnectNotify =>
      if s.routerStopped then some { s with stopped := true, todo := [] }
      else if s.control.length < channelCapacity then
        some { s with
          control := s.control ++ [.opened c disconnectNotify]
          connections := s.connections.insert { id := c } }
      else none
  | .setOptedOut c methods =>
      let flags := { s.flags c with optedOutNotificationMethods := methods }
      some { s with flags := Function.update s.flags c flags }
  | .setInitialized c =>
      let flags := { s.flags c with initialized := true }
      some { s with flags := Function.update s.flags c flags }
  | .send envelope => s.sendEnvelope envelope
  | .handle c request =>
      some { s with handed := s.handed ++ [{ connectionId := c, request }] }
  | .notifyClientResponse c id result =>
      some { s with sender := s.sender.notifyClientResponse (some c) id result }
  | .notifyClientError c id =>
      some { s with sender := s.sender.notifyClientError (some c) id }
  | .clearCallbacks c => some { s with sender := s.sender.clearCallbacks c }
  | .waitForRequestRoutes c =>
      if s.desk.hasPendingRequests c then none else some s
  | .sendClosed c =>
      if s.routerStopped then some { s with stopped := true, todo := [] }
      else if s.control.length < channelCapacity then
        some { s with control := s.control ++ [.closed c] }
      else none
  | .removeConnection c =>
      some { s with
        connections := s.connections.remove c, desk := s.desk.removeRoutes c }
  | .stopIfEmpty =>
      if config.shutdownWhenNoConnections && s.connections.values.isEmpty then
        some { s with stopped := true, todo := [] }
      else some s

/-- What the processor does when a connection has closed. -/
def closeActions (config : ServerConfig) (c : ConnectionId) : List Action :=
  if config.shutdownWhenNoConnections then
    [.clearCallbacks c, .waitForRequestRoutes c, .sendClosed c,
      .removeConnection c,
      .stopIfEmpty]
  else [.sendClosed c, .removeConnection c, .clearCallbacks c]

/-- A request gets its id, and is looked at under it. -/
def acceptRequest (config : ServerConfig) (s : Server)
    (connection : ConnectionState)
    (request : JSONRPCRequest) : Server :=
  let id := internalRequestId connection.id s.desk.nextInternalRequestOrdinal
  let processed :=
    processRequest config connection.id connection.session { request with id }
  { s with
    desk := s.desk.accept ⟨connection.id, request.id⟩
    connections := s.connections.insert { connection with
      session := processed.1 }
    todo := processed.2 }

/-- The processor takes the next event. -/
def takeEvent (config : ServerConfig) (s : Server) : TransportEvent → Server
  | .connectionOpened c disconnectNotify =>
  { s with todo := [.sendOpened c disconnectNotify] }
  | .connectionClosed c => { s with todo := closeActions config c }
  | .incomingMessage c (.request request) =>
      match s.connections.get c with
      | some connection => s.acceptRequest config connection request
      | none => s
  | .incomingMessage c (.response id result) =>
      { s with todo := [.notifyClientResponse c id result] }
  | .incomingMessage c (.error id _) =>
      { s with todo := [.notifyClientError c id] }
  | .incomingMessage _ (.notification _ _) => s

def process (config : ServerConfig) (s : Server) : Server :=
  if s.stopped then s
  else
    match s.todo with
    | action :: rest => (act config { s with todo := rest } action).getD s
    | [] =>
        match s.events with
        | event :: rest => takeEvent config { s with events := rest } event
        | [] => s

/-! ## The connections -/

/-- What the client of a connection has sent is read: a request that finds the
queue full is refused. -/
def arrive (s : Server) (c : ConnectionId) (message : JSONRPCMessage)
    (writer : TrySend) :
    Server :=
  if c ∉ s.transports ∨ s.stopped = true then s
  else if s.events.length < channelCapacity then
    { s with events := s.events ++ [.incomingMessage c message] }
  else
    match message, writer with
    | .request request, .sent =>
        { s with
          written := Function.update s.written c
            (s.written c ++ [.error request.id overloadError])
          overloaded := Function.update s.overloaded c
            (s.overloaded c ++ [request.id]) }
    | _, _ => s

/-- A websocket is accepted, and its handshake completed. -/
def acceptConnection (s : Server) (c : ConnectionId) : Server :=
  if c ∉ s.handshaking ∨ s.stopped = true ∨
    channelCapacity ≤ s.events.length then s
  else
    { s with
      handshaking := s.handshaking.erase c
      transports := c :: s.transports
      events := s.events ++ [.connectionOpened c true] }

/-- The task of a connection ends. -/
def disconnect (s : Server) (c : ConnectionId) : Server :=
  if c ∉ s.transports then s
  else if s.stopped then { s with transports := s.transports.erase c }
  else if s.events.length < channelCapacity then
    { s with
      transports := s.transports.erase c
      events := s.events ++ [.connectionClosed c] }
  else s

/-! ## The router -/

/-- The loop over `pending_closed_connections`. -/
def flushClosed (s : Server) : List ConnectionId → Server
  | [] => { s with pendingClosedConnections := [] }
  | c :: rest =>
      if s.stopped then
        { s with routerStopped := true, pendingClosedConnections := c :: rest }
      else if s.events.length < channelCapacity then
        flushClosed { s with events := s.events ++ [.connectionClosed c] } rest
      else { s with pendingClosedConnections := c :: rest }

/-- A control event of the processor. -/
def handleControl (s : Server) : OutboundControlEvent → Server
  | .opened c disconnectNotify =>
      { s with
        outboundConnections := s.outboundConnections.insert ⟨c,
          disconnectNotify⟩ }
  | .closed c =>
      { s with outboundConnections := s.outboundConnections.remove c }

/-- The router looks for control events first; the queue of these ends with the
processor. -/
def pollControl (s : Server) : Server :=
  if s.routerStopped || s.polled then s
  else
    match s.control with
    | event :: rest =>
        let next := handleControl { s with control := rest } event
        next.flushClosed next.pendingClosedConnections
    | [] =>
        if s.stopped then { s with routerStopped := true }
          else { s with polled := true }

/-- An envelope on its way to the connections it is for. -/
def deliver (s : Server) (writers : ConnectionId → TrySend)
    (envelope : OutgoingEnvelope) :
    Server :=
  let rewritten := s.desk.rewrite envelope
  let s := { s with desk := rewritten.2 }
  match rewritten.1 with
  | some envelope =>
      let out :=
        Outbound.route s.flags writers ⟨s.outboundConnections,
          s.written, []⟩ envelope
      let s :=
        { s with
          outboundConnections := out.connections, written := out.written }
      s.flushClosed (s.pendingClosedConnections ++ out.disconnected)
  | none => s

/-- The router, which found no control event, looks for an envelope. -/
def pollOutgoing (s : Server) (writers : ConnectionId → TrySend) : Server :=
  if s.routerStopped || ! s.polled then s
  else
    match s.outgoing with
    | envelope :: rest =>
        deliver { s with outgoing := rest, polled := false } writers envelope
    | [] => { s with polled := false }

/-! ## The handlers -/

/-- The handler of a request answers it. -/
def answer (s : Server) (k : ℕ) (answer : Answer) : Server :=
  match s.handed[k]? with
  | some handed =>
      let next := s.sendEnvelope (.broadcast
        (.ofAnswer handed.request.id answer))
      (next.map fun next =>
        { next with handed :=
            s.handed.set k { handed with
              answers := handed.answers ++ [answer] } }).getD s
  | none => s

/-- The handler of a request sends its connection a notification. -/
def notify (s : Server) (k : ℕ) (method : String)
    (params : Option Json) : Server :=
  match s.handed[k]? with
  | some handed =>
      (s.sendEnvelope
        (.toConnection handed.connectionId (.notification method params))).getD
        s
  | none => s

/-- The handler of a request registers one to its connection. -/
def ask (s : Server) (k : ℕ) (method : String)
    (params : Option Json) : Server :=
  match s.handed[k]? with
  | some handed =>
      let id := RequestId.integer s.sender.nextRequestId
      { s with
        sender := s.sender.register (some handed.connectionId)
        unsent := s.unsent ++
          [(id, .toConnection handed.connectionId (.request id method params))]
            }
  | none => s

/-- A request that was registered is sent. -/
def sendRequest (s : Server) (i : ℕ) : Server :=
  match s.unsent[i]? with
  | some (id, envelope) =>
      if s.routerStopped then
        { s with sender := s.sender.drop id, unsent := s.unsent.eraseIdx i }
      else
        ((s.sendEnvelope envelope).map fun next =>
          { next with unsent := s.unsent.eraseIdx i }).getD s
  | none => s

end Server

/-! ## Steps -/

inductive Label where
  | connect
  | accept (connectionId : ConnectionId)
  | arrive (connectionId : ConnectionId) (message :
    JSONRPCMessage) (writer : TrySend)
  | disconnect (connectionId : ConnectionId)
  | process
  | pollControl
  | pollOutgoing (writers : ConnectionId → TrySend)
  | answer (k : ℕ) (answer : Answer)
  | notify (k : ℕ) (method : String) (params : Option Json)
  | broadcast (method : String) (params : Option Json)
  | ask (k : ℕ) (method : String) (params : Option Json)
  | sendRequest (i : ℕ)

/-- One step of any of the tasks; one that has to wait changes nothing. -/
def Server.step (config : ServerConfig) (s : Server) : Label → Server
  | .connect =>
      if config.shutdownWhenNoConnections then s
      else
        { s with
          handshaking := s.handshaking ++ [s.nextConnectionId]
          nextConnectionId := s.nextConnectionId + 1 }
  | .accept c => s.acceptConnection c
  | .arrive c message writer => s.arrive c message writer
  | .disconnect c => s.disconnect c
  | .process => s.process config
  | .pollControl => s.pollControl
  | .pollOutgoing writers => s.pollOutgoing writers
  | .answer k answer => s.answer k answer
  | .notify k method params => s.notify k method params
  | .broadcast method params =>
      (s.sendEnvelope (.broadcast (.notification method params))).getD s
  | .ask k method params => s.ask k method params
  | .sendRequest i => s.sendRequest i

/-- The server after a run of steps of its tasks, in whatever order. -/
def Server.run (config : ServerConfig) (labels : List Label) : Server :=
  after (Server.step config) (Server.start config) labels

end CodeRs.AppServer
