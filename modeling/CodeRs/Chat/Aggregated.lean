import CodeRs.Chat.ToolCalls

/-!
# The aggregated stream

`AggregatedChatStream` of `core/src/chat_completions.rs` puts the deltas of a
turn together into a message.  It also passes on the message and the reasoning
that `process_chat_sse` itself sends at some ends of a turn.
-/

namespace CodeRs.Chat

open Protocol

inductive AggregateMode where
  | aggregatedOnly
  | streaming
  deriving DecidableEq

/-- `AggregatedChatStream` without the stream inside. -/
structure AggregatedChatStream where
  cumulative : Text
  cumulativeReasoning : Text
  cumulativeItemId : Option String
  pending : List ResponseEvent
  mode : AggregateMode

namespace AggregatedChatStream

def new (mode : AggregateMode) : AggregatedChatStream :=
  ⟨[], [], none, [], mode⟩

/-- Take up a finished item: an assistant message counts only if there were no
deltas. -/
def noteItem (s : AggregatedChatStream) : ResponseItem → AggregatedChatStream
  | .message id role content _ _ =>
      if role = "assistant" ∧ s.cumulative = [] then
        { s with
          cumulativeItemId := id.or s.cumulativeItemId
          cumulative := s.cumulative ++ (firstOutputText content).getD [] }
      else s
  | .reasoning id _ _ _ =>
      { s with cumulativeItemId := (nonEmpty id).or s.cumulativeItemId }
  | _ => s

/-- Take up a delta of the text. -/
def noteText (s : AggregatedChatStream) (delta : Text)
    (itemId : Option String) :
    AggregatedChatStream :=
  { s with
    cumulative := s.cumulative ++ delta
    cumulativeItemId := s.cumulativeItemId.or itemId }

/-- Take up a delta of the reasoning. -/
def noteReasoning (s : AggregatedChatStream) (delta : Text)
    (itemId : Option String) :
    AggregatedChatStream :=
  { s with
    cumulativeReasoning := s.cumulativeReasoning ++ delta
    cumulativeItemId := s.cumulativeItemId.or itemId }

/-- The items that are made of the deltas: the reasoning first, then the
message. -/
def aggregated (s : AggregatedChatStream) : List ResponseItem :=
  (if s.cumulativeReasoning ≠ [] ∧ s.mode = .aggregatedOnly then
    [reasoningItem s.cumulativeItemId s.cumulativeReasoning] else []) ++
  (if s.cumulative ≠ [] then [assistantMessage s.cumulativeItemId s.cumulative]
    else [])

/-- The end of the turn: what is returned now, and the rest of it pending. -/
def complete (s : AggregatedChatStream) (responseId : String) :
    AggregatedChatStream × ResponseEvent :=
  let s' := { s with
    cumulativeReasoning :=
      if s.mode = .aggregatedOnly then [] else s.cumulativeReasoning
    cumulative := [] }
  if s.aggregated = [] then (s', .completed responseId)
  else
    match s.pending ++ s.aggregated.map itemDone ++ [.completed responseId] with
    | event :: rest => ({ s' with pending := rest }, event)
    | [] => (s', .completed responseId)

/-- One round of the loop: what it returns, if it does not go on. -/
def react (s : AggregatedChatStream) :
    StreamItem → AggregatedChatStream × Option StreamItem
  | .error error => (s, some (.error error))
  | .ok (.outputItemDone item _ _) =>
      (s.noteItem item, some (.ok (itemDone item)))
  | .ok (.completed responseId) =>
      ((s.complete responseId).1, some (.ok (s.complete responseId).2))
  | .ok (.outputTextDelta delta itemId sequenceNumber _) =>
      (s.noteText delta itemId,
        if s.mode = .streaming then
          some (.ok (.outputTextDelta delta itemId sequenceNumber none))
            else none)
  | .ok (.reasoningContentDelta delta itemId sequenceNumber _ _) =>
      (s.noteReasoning delta itemId,
        if s.mode = .streaming then
          some
            (.ok (.reasoningContentDelta delta itemId sequenceNumber none none))
            else none)
  | .ok (.reasoningSummaryDelta _) => (s, none)
  | .ok .reasoningSummaryPartAdded => (s, none)
  | .ok (.created responseId responseModel) =>
      (s, some (.ok (.created responseId responseModel)))
  | .ok (.forwarded event) => (s, some (.ok (.forwarded event)))

/-- The loop over the stream inside: what is returned, and the stream that is
left. -/
def pollInner (s : AggregatedChatStream) :
    List StreamItem → Option StreamItem × AggregatedChatStream × List StreamItem
  | [] => (none, s, [])
  | event :: rest =>
      match s.react event with
      | (s, some event) => (some event, s, rest)
      | (s, none) => pollInner s rest

/-- `poll_next`: pending events first. -/
def pollNext (s : AggregatedChatStream) (inner : List StreamItem) :
    Option StreamItem × AggregatedChatStream × List StreamItem :=
  match s.pending with
  | event :: rest => (some (.ok event), { s with pending := rest }, inner)
  | [] => s.pollInner inner

/-- The loop leaves less of the stream inside if it returns something. -/
theorem length_pollInner {s s' : AggregatedChatStream}
    {inner rest : List StreamItem}
    {event : StreamItem} (h : s.pollInner inner = (some event, s', rest)) :
    rest.length < inner.length := by
  induction inner generalizing s with
  | nil => exact absurd h (by simp [pollInner])
  | cons first others ih =>
      rw [pollInner] at h
      split at h
      · cases h
        exact Nat.lt_succ_self _
      · exact Nat.lt_succ_of_lt (ih h)

/-- Every event that is returned leaves less of the stream inside or less
pending. -/
theorem lex_pollNext {s s' : AggregatedChatStream}
    {inner rest : List StreamItem}
    {event : StreamItem} (h : s.pollNext inner = (some event, s', rest)) :
    Prod.Lex (· < ·) (· < ·) (rest.length, s'.pending.length)
      (inner.length, s.pending.length) := by
  rw [pollNext] at h
  cases hpending : s.pending with
  | nil =>
      rw [hpending] at h
      exact Prod.Lex.left _ _ (length_pollInner h)
  | cons event pending =>
      rw [hpending] at h
      cases h
      exact Prod.Lex.right _ (Nat.lt_succ_self _)

/-- All events that the stream returns. -/
def outputs (s : AggregatedChatStream) (inner : List StreamItem) :
    List StreamItem :=
  match _ : s.pollNext inner with
  | (none, _, _) => []
  | (some event, s', rest) => event :: s'.outputs rest
termination_by (inner.length, s.pending.length)
decreasing_by exact lex_pollNext ‹_›

/-! ## The events one after the other -/

/-- Nothing pending. -/
def flushed (s : AggregatedChatStream) : AggregatedChatStream :=
  { s with pending := [] }

/-- The state and the outputs after one event of the stream inside. -/
def emit (s : AggregatedChatStream) (event : StreamItem) : List StreamItem :=
  (s.react event).2.toList ++ (s.react event).1.pending.map .ok

/-- What the events of the stream inside make the adapter return. -/
def emitted (s : AggregatedChatStream) : List StreamItem → List StreamItem
  | [] => []
  | event :: rest => s.emit event ++ (s.react event).1.flushed.emitted rest

theorem outputs_of_none {s s' : AggregatedChatStream}
    {inner rest : List StreamItem}
    (h : s.pollNext inner = (none, s', rest)) : s.outputs inner = [] := by
  rw [outputs]
  split
  · rfl
  · simp_all

theorem outputs_of_some {s s' : AggregatedChatStream}
    {inner rest : List StreamItem}
    {event : StreamItem} (h : s.pollNext inner = (some event, s', rest)) :
    s.outputs inner = event :: s'.outputs rest := by
  rw [outputs]
  split
  · simp_all
  · simp_all

/-- What is returned next decides what is returned at all. -/
theorem outputs_congr {s s' : AggregatedChatStream}
    {inner inner' : List StreamItem}
    (h : s.pollNext inner = s'.pollNext inner') :
    s.outputs inner = s'.outputs inner' := by
  cases hnext : s'.pollNext inner' with
  | mk event later =>
      cases event with
      | none => rw [outputs_of_none (h.trans hnext), outputs_of_none hnext]
      | some event =>
          rw [outputs_of_some (h.trans hnext), outputs_of_some hnext]

/-- Pending events come first. -/
theorem outputs_pending (s : AggregatedChatStream) (inner : List StreamItem) :
    s.outputs inner = s.pending.map .ok ++ s.flushed.outputs inner := by
  generalize hpending : s.pending = pending
  induction pending generalizing s with
  | nil =>
      have hflushed : s.flushed = s := by
        rw [flushed, ← hpending]
      rw [hflushed]
      rfl
  | cons event rest ih =>
      have hnext : s.pollNext inner =
          (some (.ok event), { s with pending := rest }, inner) := by
        rw [pollNext, hpending]
      rw [outputs_of_some hnext, ih { s with pending := rest } rfl]
      rfl

/-- A round that returns nothing leaves nothing more pending. -/
theorem pending_react {s : AggregatedChatStream} {event : StreamItem}
    (h : (s.react event).2 = none) : (s.react event).1.pending = s.pending := by
  cases event with
  | error error => exact absurd h (Option.some_ne_none _)
  | ok event =>
      cases event with
      | outputItemDone | completed | created
      | forwarded => exact absurd h (Option.some_ne_none _)
      | outputTextDelta | reasoningContentDelta => rfl
      | reasoningSummaryDelta | reasoningSummaryPartAdded => rfl

/-- Without pending events the stream returns what the events of the stream
inside make it return. -/
theorem outputs_eq (s : AggregatedChatStream) (inner : List StreamItem)
    (h : s.pending = []) : s.outputs inner = s.emitted inner := by
  induction inner generalizing s with
  | nil =>
      have hnext : s.pollNext [] = (none, s, []) := by
        rw [pollNext, h]
        rfl
      exact outputs_of_none hnext
  | cons event rest ih =>
      have hnext :
          s.pollNext (event :: rest) = s.pollInner (event :: rest) := by
        rw [pollNext, h]
      have hpending : (s.react event).2 = none →
          (s.react event).1.pending = [] :=
        fun hnone => (pending_react hnone).trans h
      rw [emitted, emit, ← ih _ rfl, List.append_assoc, ← outputs_pending]
      rw [pollInner] at hnext
      cases hreact : s.react event with
      | mk s' output =>
          rw [hreact] at hnext hpending
          cases output with
          | none =>
              -- The loop goes on as a new call without pending events would.
              have hsame : s.pollNext (event :: rest) = s'.pollNext rest := by
                rw [hnext, pollNext, hpending rfl]
              exact outputs_congr hsame
          | some output => exact outputs_of_some hnext

end AggregatedChatStream

end CodeRs.Chat
