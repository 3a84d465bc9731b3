import CodeRs.Lib.Decimal
import CodeRs.Lib.Json
import CodeRs.Lib.Lists
import CodeRs.Lib.Tickets

/-!
# What the app server sends

Answers to requests are sent to everybody, and the outbound router finds the
connection that asked in a table of routes: the requests of all connections run
under ids of the server's own. Requests of the server itself wait in a table of
callbacks until their connection answers.
-/

namespace CodeRs.AppServer

abbrev ConnectionId := ℕ

inductive RequestId where
  | string (value : Text)
  | integer (value : ℤ)
  deriving DecidableEq

structure JSONRPCErrorError where
  code : ℤ
  message : String
  data : Option Json := none

/-- The result of a request. -/
abbrev Answer := Except JSONRPCErrorError Json

inductive OutgoingMessage where
  | request (id : RequestId) (method : String) (params : Option Json)
  | notification (method : String) (params : Option Json)
  | response (id : RequestId) (result : Json)
  | error (id : RequestId) (error : JSONRPCErrorError)

def OutgoingMessage.ofAnswer (id : RequestId) : Answer → OutgoingMessage
  | .ok result => .response id result
  | .error e => .error id e

def OutgoingMessage.answer : OutgoingMessage → Option (RequestId × Answer)
  | .response id result => some (id, .ok result)
  | .error id e => some (id, .error e)
  | _ => none

theorem OutgoingMessage.answer_ofAnswer (id : RequestId) (answer : Answer) :
    (ofAnswer id answer).answer = some (id, answer) := by
  cases answer <;> rfl

theorem OutgoingMessage.eq_ofAnswer {message : OutgoingMessage} {id : RequestId}
    {answer : Answer} (h : message.answer = some (id, answer)) :
    message = ofAnswer id answer := by
  cases message <;> cases h <;> rfl

inductive OutgoingEnvelope where
  | toConnection (connectionId : ConnectionId) (message : OutgoingMessage)
  | broadcast (message : OutgoingMessage)

def OutgoingEnvelope.message : OutgoingEnvelope → OutgoingMessage
  | toConnection _ message => message
  | broadcast message => message

/-! ## Routes -/

def internalRequestIdPrefix : Text := "__code_internal_request__".toList

/-- The id that the server gives to a request. -/
def internalRequestId (connectionId : ConnectionId) (ordinal : ℕ) : RequestId :=
  .string (internalRequestIdPrefix ++
    (Text.decimal connectionId ++ ':' :: Text.decimal ordinal))

def isInternalRequestId : RequestId → Bool
  | .string value => internalRequestIdPrefix.isPrefixOf value
  | .integer _ => false

structure RequestRoute where
  connectionId : ConnectionId
  originalRequestId : RequestId
  deriving DecidableEq

abbrev RequestRoutes := Keyed (Prod.fst : RequestId × RequestRoute → RequestId)

/-- An answer that was sent to everybody, under the id of the server. -/
def rerouted (routes : RequestRoutes) (id : RequestId) (answer : Answer) :
    Option OutgoingEnvelope × RequestRoutes :=
  match routes.get id with
  | some (_, route) =>
      (some
        (.toConnection route.connectionId
          (.ofAnswer route.originalRequestId answer)),
        routes.remove id)
  | none =>
      if isInternalRequestId id then (none, routes)
      else (some (.broadcast (.ofAnswer id answer)), routes)

def rewriteResponseRouting (routes : RequestRoutes) :
    OutgoingEnvelope → Option OutgoingEnvelope × RequestRoutes
  | .broadcast (.response id result) => rerouted routes id (.ok result)
  | .broadcast (.error id e) => rerouted routes id (.error e)
  | envelope => (some envelope, routes)

theorem isInternalRequestId_internal (connectionId : ConnectionId)
    (ordinal : ℕ) :
    isInternalRequestId (internalRequestId connectionId ordinal) = true :=
  List.isPrefixOf_iff_prefix.2 (List.prefix_append ..)

/-- The ids that the server gives are different, as their ordinals are. -/
theorem internalRequestId_inj {c c' : ConnectionId} {k k' : ℕ}
    (h : internalRequestId c k = internalRequestId c' k') :
    c = c' ∧ k = k' := by
  have htail := List.append_cancel_left (RequestId.string.inj h)
  have hcolon : ∀ n, ':' ∉ Text.decimal n := fun n hmem =>
    absurd (Text.isDigit_of_mem_decimal hmem) (by decide)
  have hdecimal : ∀ {m n : ℕ}, Text.decimal m = Text.decimal n → m = n := by
    intro m n heq
    have hvalue := congrArg (Nat.ofDigitChars 10 · 0) heq
    simpa only [Text.decimal, Nat.ofDigitChars_ten_toDigits] using hvalue
  obtain ⟨hconnection, hordinal⟩ := append_cons_inj (hcolon c) (hcolon c') htail
  exact ⟨hdecimal hconnection, hdecimal hordinal⟩

/-! ## The outbound router -/

/-- What the processor and the router share about a connection. -/
structure OutboundFlags where
  initialized : Bool := false
  optedOutNotificationMethods : List String := []

/-- A connection as the router knows it; only that of a websocket can be
disconnected. -/
structure OutboundConnectionState where
  id : ConnectionId
  disconnectNotify : Bool

abbrev OutboundConnections := Keyed OutboundConnectionState.id

/-- What a writer's queue says to a message: a full one may take it later. -/
inductive TrySend where
  | sent
  | closed
  | full (isErr : Bool)

def isConnectionWriteFailed (connection : OutboundConnectionState) :
    TrySend → Bool
  | .sent => false
  | .closed => true
  | .full isErr => if connection.disconnectNotify then true else isErr

/-- `should_skip_notification_for_connection`. -/
def shouldSkipNotification (flags : OutboundFlags) : OutgoingMessage → Bool
  | .notification method _ => flags.optedOutNotificationMethods.contains method
  | _ => false

/-- The connections of the router, what their queues have taken, and the
connections that failed. -/
structure Outbound where
  connections : OutboundConnections
  written : ConnectionId → List OutgoingMessage
  disconnected : List ConnectionId

namespace Outbound

def write (writers : ConnectionId → TrySend) (message : OutgoingMessage)
    (out : Outbound)
    (connection : OutboundConnectionState) : Outbound :=
  if isConnectionWriteFailed connection (writers connection.id) then
    { out with
      connections := out.connections.remove connection.id
      disconnected := out.disconnected ++ [connection.id] }
  else
    { out with
      written := Function.update out.written connection.id
        (out.written connection.id ++ [message]) }

/-- The connections that a message to everybody is for. -/
def targets (flags : ConnectionId → OutboundFlags) (message : OutgoingMessage)
    (out : Outbound) : List ConnectionId :=
  (out.connections.values.filter fun connection =>
    (flags connection.id).initialized &&
      ! shouldSkipNotification (flags connection.id) message).map
      OutboundConnectionState.id

/-- One round of the loop over the targets. -/
def writeTo (writers : ConnectionId → TrySend) (message : OutgoingMessage)
    (out : Outbound)
    (connectionId : ConnectionId) : Outbound :=
  match out.connections.get connectionId with
  | some connection => out.write writers message connection
  | none => out

/-- `route_outgoing_envelope`. -/
def route (flags : ConnectionId → OutboundFlags)
    (writers : ConnectionId → TrySend)
    (out : Outbound) : OutgoingEnvelope → Outbound
  | .toConnection connectionId message =>
      match out.connections.get connectionId with
      | some connection =>
          if shouldSkipNotification (flags connectionId) message then out
          else out.write writers message connection
      | none => out
  | .broadcast message =>
      (out.targets flags message).foldl (writeTo writers message) out

/-! ## Who gets a message -/

/-- A connection gets a message that is not skipped for it: one of its own, or
one to everybody when it is initialized. -/
structure Receives (flags : ConnectionId → OutboundFlags)
    (envelope : OutgoingEnvelope)
    (connectionId : ConnectionId) : Prop where
  addressed : (∃ message, envelope = .toConnection connectionId message) ∨
    (∃ message, envelope = .broadcast message) ∧
      (flags connectionId).initialized = true
  notSkipped : shouldSkipNotification (flags connectionId) envelope.message =
    false

variable {flags : ConnectionId → OutboundFlags}
    {writers : ConnectionId → TrySend}
  {message : OutgoingMessage} {out : Outbound} {c : ConnectionId}

theorem written_write_of_ne {connection : OutboundConnectionState}
    (h : c ≠ connection.id) :
    (out.write writers message connection).written c = out.written c := by
  rw [write]
  split
  · rfl
  · exact Function.update_of_ne h ..

theorem written_write (connection : OutboundConnectionState) :
    (out.write writers message connection).written connection.id =
      out.written connection.id ∨
      (out.write writers message connection).written connection.id =
        out.written connection.id ++ [message] := by
  rw [write]
  split
  · exact .inl rfl
  · exact .inr (Function.update_self ..)

theorem written_writeTo_of_ne {target : ConnectionId} (h : c ≠ target) :
    (out.writeTo writers message target).written c = out.written c := by
  rw [writeTo]
  split
  next connection hget => exact written_write_of_ne (Keyed.key_of_get hget ▸ h)
  next => rfl

theorem written_writeTo (target : ConnectionId) :
    (out.writeTo writers message target).written target = out.written target ∨
      (out.writeTo writers message target).written target =
        out.written target ++ [message] := by
  rw [writeTo]
  split
  next connection hget =>
    obtain rfl := Keyed.key_of_get hget
    exact written_write connection
  next => exact .inl rfl

theorem written_foldl_of_notMem {targets : List ConnectionId}
    (h : c ∉ targets) :
    (targets.foldl (writeTo writers message) out).written c =
      out.written c := by
  induction targets generalizing out with
  | nil => rfl
  | cons target rest ih =>
      rw [List.mem_cons, not_or] at h
      rw [List.foldl_cons, ih h.2, written_writeTo_of_ne h.1]

theorem written_foldl {targets : List ConnectionId} (hnodup : targets.Nodup)
    (h : c ∈ targets) :
    (targets.foldl (writeTo writers message) out).written c = out.written c ∨
      (targets.foldl (writeTo writers message) out).written c =
        out.written c ++ [message] := by
  induction targets generalizing out with
  | nil => exact absurd h List.not_mem_nil
  | cons target rest ih =>
      obtain ⟨htarget, hrest⟩ := List.nodup_cons.1 hnodup
      rw [List.foldl_cons]
      rcases List.mem_cons.1 h with rfl | hmem
      · rw [written_foldl_of_notMem htarget]
        exact written_writeTo c
      · have hne : c ≠ target := fun heq => htarget (heq ▸ hmem)
        have hsame :
            (out.writeTo writers message target).written c = out.written c :=
          written_writeTo_of_ne hne
        rw [← hsame]
        exact ih hrest hmem

theorem written_route (envelope : OutgoingEnvelope) (c : ConnectionId) :
    (out.route flags writers envelope).written c = out.written c ∨
      (out.route flags writers envelope).written c =
        out.written c ++ [envelope.message] ∧
        Receives flags envelope c := by
  cases envelope with
  | toConnection target message =>
      rw [route]
      split
      next connection hget =>
        obtain rfl := Keyed.key_of_get hget
        split
        next => exact .inl rfl
        next hskip =>
          by_cases heq : c = connection.id
          · subst heq
            refine (written_write connection).imp_right fun h =>
              ⟨h, .inl ⟨message, rfl⟩, ?_⟩
            exact Bool.eq_false_of_not_eq_true hskip
          · exact .inl (written_write_of_ne heq)
      next => exact .inl rfl
  | broadcast message =>
      rw [route]
      by_cases hmem : c ∈ out.targets flags message
      · have hnodup : (out.targets flags message).Nodup :=
          out.connections.nodup.sublist (List.filter_sublist.map _)
        refine (written_foldl hnodup hmem).imp_right fun h => ⟨h, ?_⟩
        obtain ⟨connection, hin, rfl⟩ := List.mem_map.1 hmem
        have hfor := (List.mem_filter.1 hin).2
        rw [Bool.and_eq_true, Bool.not_eq_true'] at hfor
        exact ⟨.inr ⟨⟨message, rfl⟩, hfor.1⟩, hfor.2⟩
      · exact .inl (written_foldl_of_notMem hmem)

end Outbound

/-! ## Requests of the server -/

/-- Requests to connections wait in a table, and `waiters` says what their
receivers have seen: the result, or that the callback was dropped. -/
structure OutgoingMessageSender where
  nextRequestId : ℕ := 0
  requestIdToCallback : Keyed (Prod.fst : RequestId × Option ConnectionId →
    RequestId) := .empty
  waiters : Tickets RequestId (Option ConnectionId) Json := {}

namespace OutgoingMessageSender

/-- The first part of `send_request_impl`. -/
def register (sender : OutgoingMessageSender)
    (connectionId : Option ConnectionId) :
    OutgoingMessageSender :=
  { nextRequestId := sender.nextRequestId + 1
    requestIdToCallback :=
      sender.requestIdToCallback.insert (.integer sender.nextRequestId,
        connectionId)
    waiters := sender.waiters.issue (.integer sender.nextRequestId,
      connectionId) }

/-- Whether a connection may answer a request. -/
def mayAnswer (owner connectionId : Option ConnectionId) : Bool :=
  owner.all fun ownerConnectionId =>
    connectionId.all fun connectionId => ownerConnectionId = connectionId

/-- `notify_client_response_for_connection`. -/
def notifyClientResponse (sender : OutgoingMessageSender)
    (connectionId : Option ConnectionId)
    (id : RequestId) (result : Json) : OutgoingMessageSender :=
  match sender.requestIdToCallback.get id with
  | some callback =>
      if mayAnswer callback.2 connectionId then
        { sender with
          requestIdToCallback := sender.requestIdToCallback.remove id
          waiters := sender.waiters.redeem callback result }
      else sender
  | none => sender

/-- A callback is dropped, and its receiver told so. -/
def drop (sender : OutgoingMessageSender) (id : RequestId) :
    OutgoingMessageSender :=
  match sender.requestIdToCallback.get id with
  | some callback =>
      { sender with
        requestIdToCallback := sender.requestIdToCallback.remove id
        waiters := sender.waiters.cancel [callback] }
  | none => sender

/-- `notify_client_error_for_connection`. -/
def notifyClientError (sender : OutgoingMessageSender)
    (connectionId : Option ConnectionId)
    (id : RequestId) : OutgoingMessageSender :=
  match sender.requestIdToCallback.get id with
  | some callback =>
      if mayAnswer callback.2 connectionId then sender.drop id else sender
  | none => sender

/-- `clear_callbacks_for_connection`. -/
def clearCallbacks (sender : OutgoingMessageSender)
    (connectionId : ConnectionId) :
    OutgoingMessageSender :=
  { sender with
    requestIdToCallback := sender.requestIdToCallback.retain fun callback =>
      callback.2.all fun owner => owner ≠ connectionId
    waiters := sender.waiters.cancel (sender.requestIdToCallback.values.filter
      fun callback =>
      ! callback.2.all fun owner => owner ≠ connectionId) }

end OutgoingMessageSender

end CodeRs.AppServer
