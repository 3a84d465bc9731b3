import CodeRs.Chat.OncePerTurn
import CodeRs.Lib.Decimal
import CodeRs.Lib.Utf8

/-!
# The last event of a stream

`process_chat_sse` should send one last event however the stream ends, and take
no notice of a payload that is not JSON.  It cuts an excerpt of such a payload
for the logs, and where the cut is inside of a character the task panics and
sends nothing more.
-/

namespace CodeRs.Chat

open Protocol
open Text (IsBoundary byteLen truncate)

variable (fromStr : Text → Option Json) (requestId : String)

/-! ## The loop with its excerpts -/

/-- How the task of a stream ends: it returns, or it panics after what it has
sent. -/
inductive TaskEnd where
  | returned (s : ChatState)
  | panicked (s : ChatState)

/-- The excerpt of a payload for the logs: `truncate` at 600 bytes panics
inside of a character. -/
def excerptOf (raw : Text) : Option Text :=
  if 600 < byteLen raw then truncate raw 600 else some raw

/-- `process_chat_sse` from a state on. -/
def runTask (s : ChatState) : List Text → StreamEnd → TaskEnd
  | [], ending => .returned (processFrom fromStr requestId s [] ending)
  | raw :: rest, ending =>
      let data := Text.trim raw
      if data = [] then runTask s rest ending
      else if data = "[DONE]".toList ∨ data = "DONE".toList then
        .returned s.flushAndComplete
      else
        match fromStr data with
        | none =>
            match excerptOf raw with
            | none => .panicked s
            | some _ => runTask s rest ending
        | some chunk =>
            match (choiceOf chunk).bind finishReasonOf with
            | some reason => .returned ((s.handleChunk chunk).finish reason)
            | none => runTask (s.handleChunk chunk) rest ending

/-! ## Payloads -/

/-- The payload is not JSON, and is neither blank nor an end mark. -/
structure IsJunk (raw : Text) : Prop where
  notBlank : Text.trim raw ≠ []
  notDone : ¬ (Text.trim raw = "[DONE]".toList ∨ Text.trim raw = "DONE".toList)
  unread : fromStr (Text.trim raw) = none

/-- The payload ends the stream: it is an end mark, or a chunk with a finish
reason. -/
def EndsTurn (raw : Text) : Prop :=
  Text.trim raw ≠ [] ∧
    ((Text.trim raw = "[DONE]".toList ∨ Text.trim raw = "DONE".toList) ∨
    ∃ chunk reason, fromStr (Text.trim raw) = some chunk ∧
      (choiceOf chunk).bind finishReasonOf = some reason)

/-- The payload is a chunk after which the stream goes on. -/
structure IsChunk (raw : Text) (chunk : Json) : Prop where
  notBlank : Text.trim raw ≠ []
  notDone : ¬ (Text.trim raw = "[DONE]".toList ∨ Text.trim raw = "DONE".toList)
  read : fromStr (Text.trim raw) = some chunk
  goesOn : (choiceOf chunk).bind finishReasonOf = none

/-- The payload is not JSON, and the end of its excerpt is inside of a
character. -/
def IsSplit (raw : Text) : Prop :=
  IsJunk fromStr raw ∧ 600 < byteLen raw ∧ ¬ IsBoundary raw 600

/-- No payload up to the one that ends the stream is cut inside of a
character. -/
def Unsplit (datas : List Text) : Prop :=
  ∀ before raw after, datas = before ++ raw :: after →
    (∀ earlier ∈ before, ¬ EndsTurn fromStr earlier) → ¬ IsSplit fromStr raw

variable {fromStr requestId} {raw : Text} {datas rest : List Text}
    {ending : StreamEnd}

theorem unsplit_nil : Unsplit fromStr [] :=
  fun before raw after heq => absurd heq (by simp)

theorem unsplit_cons :
    Unsplit fromStr (raw :: rest) ↔
      ¬ IsSplit fromStr raw ∧
        (¬ EndsTurn fromStr raw → Unsplit fromStr rest) := by
  constructor
  · intro h
    refine ⟨h [] raw rest rfl (by simp),
      fun hends before later after heq hbefore => ?_⟩
    refine h (raw :: before) later after (by rw [heq, List.cons_append])
      fun earlier hearlier => ?_
    rcases List.mem_cons.1 hearlier with rfl | hearlier
    · exact hends
    · exact hbefore earlier hearlier
  · rintro ⟨hraw, hrest⟩ before later after heq hbefore
    cases before with
    | nil =>
        cases heq
        exact hraw
    | cons first before =>
        cases heq
        exact hrest (hbefore _ List.mem_cons_self) before later after rfl
          fun earlier hearlier =>
          hbefore earlier (List.mem_cons_of_mem _ hearlier)

/-- An excerpt panics where its end is inside of a character. -/
theorem excerptOf_eq_none :
    excerptOf raw = none ↔ 600 < byteLen raw ∧ ¬ IsBoundary raw 600 := by
  rw [excerptOf]
  split
  next hlen =>
    rw [← Text.isSome_truncate_iff hlen.le, Option.not_isSome_iff_eq_none]
    exact (and_iff_right hlen).symm
  next hlen => exact iff_of_false (Option.some_ne_none _) fun h => hlen h.1

theorem payload_cases (fromStr : Text → Option Json) (raw : Text) :
    Text.trim raw = [] ∨ IsJunk fromStr raw ∨ EndsTurn fromStr raw ∨
      ∃ chunk, IsChunk fromStr raw chunk := by
  by_cases hblank : Text.trim raw = []
  · exact .inl hblank
  by_cases hdone : Text.trim raw = "[DONE]".toList ∨
    Text.trim raw = "DONE".toList
  · exact .inr (.inr (.inl ⟨hblank, .inl hdone⟩))
  cases hread : fromStr (Text.trim raw) with
  | none => exact .inr (.inl ⟨hblank, hdone, hread⟩)
  | some chunk =>
      cases hreason : (choiceOf chunk).bind finishReasonOf with
      | none => exact .inr (.inr (.inr ⟨chunk, hblank, hdone, hread, hreason⟩))
      | some reason =>
          exact .inr
            (.inr (.inl ⟨hblank, .inr ⟨chunk, reason, hread, hreason⟩⟩))

theorem IsJunk.not_endsTurn (h : IsJunk fromStr raw) :
    ¬ EndsTurn fromStr raw := by
  rintro ⟨-, hmark | ⟨chunk, _, hread, -⟩⟩
  · exact h.notDone hmark
  · rw [h.unread] at hread
    cases hread

theorem IsChunk.not_endsTurn {chunk : Json} (h : IsChunk fromStr raw chunk) :
    ¬ EndsTurn fromStr raw := by
  rintro ⟨-, hmark | ⟨other, reason, hread, hreason⟩⟩
  · exact h.notDone hmark
  · rw [h.read] at hread
    cases hread
    rw [h.goesOn] at hreason
    cases hreason

theorem IsChunk.not_isJunk {chunk : Json} (h : IsChunk fromStr raw chunk) :
    ¬ IsJunk fromStr raw := by
  intro hjunk
  have hread := h.read
  rw [hjunk.unread] at hread
  cases hread

theorem EndsTurn.not_isJunk (h : EndsTurn fromStr raw) : ¬ IsJunk fromStr raw :=
  fun hjunk => hjunk.not_endsTurn h

/-! ## One round -/

section Round

variable (s : ChatState)

theorem processFrom_blank (h : Text.trim raw = []) :
    processFrom fromStr requestId s (raw :: rest) ending =
      processFrom fromStr requestId s rest ending := by
  rw [processFrom, if_pos h]

theorem processFrom_junk (h : IsJunk fromStr raw) :
    processFrom fromStr requestId s (raw :: rest) ending =
      processFrom fromStr requestId s rest ending := by
  rw [processFrom, if_neg h.notBlank, if_neg h.notDone, h.unread]

theorem processFrom_chunk {chunk : Json} (h : IsChunk fromStr raw chunk) :
    processFrom fromStr requestId s (raw :: rest) ending =
      processFrom fromStr requestId (s.handleChunk chunk) rest ending := by
  rw [processFrom, if_neg h.notBlank, if_neg h.notDone, h.read]
  simp only [h.goesOn]

theorem runTask_blank (h : Text.trim raw = []) :
    runTask fromStr requestId s (raw :: rest) ending =
      runTask fromStr requestId s rest ending := by
  rw [runTask, if_pos h]

theorem runTask_junk (h : IsJunk fromStr raw) :
    runTask fromStr requestId s (raw :: rest) ending =
      match excerptOf raw with
      | none => .panicked s
      | some _ => runTask fromStr requestId s rest ending := by
  rw [runTask, if_neg h.notBlank, if_neg h.notDone, h.unread]

theorem runTask_chunk {chunk : Json} (h : IsChunk fromStr raw chunk) :
    runTask fromStr requestId s (raw :: rest) ending =
      runTask fromStr requestId (s.handleChunk chunk) rest ending := by
  rw [runTask, if_neg h.notBlank, if_neg h.notDone, h.read]
  simp only [h.goesOn]

theorem runTask_ends (h : EndsTurn fromStr raw) :
    runTask fromStr requestId s (raw :: rest) ending =
      .returned (processFrom fromStr requestId s (raw :: rest) ending) := by
  obtain ⟨hblank, hends⟩ := h
  rw [runTask, processFrom, if_neg hblank, if_neg hblank]
  by_cases hdone : Text.trim raw = "[DONE]".toList ∨
    Text.trim raw = "DONE".toList
  · rw [if_pos hdone, if_pos hdone]
  · obtain ⟨chunk, reason, hread, hreason⟩ := hends.resolve_left hdone
    rw [if_neg hdone, if_neg hdone, hread]
    simp only [hreason]

end Round

/-! ## Panics -/

/-- The task panics at a payload that is cut inside of a character, and else it
does what the loop without the excerpts does. -/
theorem runTask_eq (s : ChatState) :
    (Unsplit fromStr datas → runTask fromStr requestId s datas ending =
      .returned (processFrom fromStr requestId s datas ending)) ∧
    (¬ Unsplit fromStr datas → ∃ s',
      runTask fromStr requestId s datas ending = .panicked s') := by
  induction datas generalizing s with
  | nil => exact ⟨fun _ => rfl, fun h => absurd unsplit_nil h⟩
  | cons raw rest ih =>
      rw [unsplit_cons]
      rcases payload_cases fromStr raw with
        hblank | hjunk | hends | ⟨chunk, hchunk⟩
      · have hsplit : ¬ IsSplit fromStr raw := fun h => h.1.notBlank hblank
        have hgoes : ¬ EndsTurn fromStr raw := fun h => h.1 hblank
        rw [runTask_blank s hblank, processFrom_blank s hblank,
          and_iff_right hsplit,
          imp_iff_right hgoes]
        exact ih s
      · rw [runTask_junk s hjunk, processFrom_junk s hjunk,
          imp_iff_right hjunk.not_endsTurn]
        have hsplit : IsSplit fromStr raw ↔ excerptOf raw = none := by
          rw [excerptOf_eq_none]
          exact and_iff_right hjunk
        by_cases hcut : IsSplit fromStr raw
        · rw [hsplit.1 hcut]
          exact ⟨fun h => absurd hcut h.1, fun _ => ⟨s, rfl⟩⟩
        · obtain ⟨excerpt, hexcerpt⟩ :=
            Option.ne_none_iff_exists'.1 fun h => hcut (hsplit.2 h)
          rw [hexcerpt, and_iff_right hcut]
          exact ih s
      · have hsplit : ¬ IsSplit fromStr raw := fun h => hends.not_isJunk h.1
        rw [runTask_ends s hends]
        exact ⟨fun _ => rfl,
          fun h => absurd ⟨hsplit, fun hgoes => absurd hends hgoes⟩ h⟩
      · have hsplit : ¬ IsSplit fromStr raw := fun h => hchunk.not_isJunk h.1
        rw [runTask_chunk s hchunk, processFrom_chunk s hchunk,
          and_iff_right hsplit,
          imp_iff_right hchunk.not_endsTurn]
        exact ih (s.handleChunk chunk)

/-! ## The last event -/

/-- The event is the last one of a stream. -/
def isTerminal : StreamItem → Bool
  | .error _ => true
  | event => isCompleted event

theorem isTerminal_of_isEarly {event : StreamItem} (h : IsEarly event) :
    isTerminal event = false := by
  cases event with
  | error error => cases h
  | ok event => cases event <;> first | rfl | cases h

theorem isTerminal_of_mem_dones {items : List ResponseItem} {event : StreamItem}
    (h : event ∈ dones items) : isTerminal event = false := by
  obtain ⟨item, -, rfl⟩ := List.mem_map.1 h
  rfl

/-- The turn fails if the stream breaks off before a payload ends it. -/
theorem readTurn_failed_iff :
    (∃ error, (readTurn fromStr datas ending).2 = .failed error) ↔
      ¬ ((∃ raw ∈ datas, EndsTurn fromStr raw) ∨ ending = .closed) := by
  induction datas with
  | nil => cases ending <;> simp [readTurn]
  | cons raw rest ih =>
      rw [List.exists_mem_cons_iff]
      rcases payload_cases fromStr raw with
        hblank | hjunk | hends | ⟨chunk, hchunk⟩
      · have hgoes : ¬ EndsTurn fromStr raw := fun h => h.1 hblank
        rw [readTurn, if_pos hblank, or_iff_right hgoes]
        exact ih
      · rw [readTurn, if_neg hjunk.notBlank, if_neg hjunk.notDone, hjunk.unread,
          or_iff_right hjunk.not_endsTurn]
        exact ih
      · refine iff_of_false ?_ (not_not_intro (.inl (.inl hends)))
        rintro ⟨error, herror⟩
        obtain ⟨hblank, hmark⟩ := hends
        rw [readTurn, if_neg hblank] at herror
        by_cases hdone : Text.trim raw = "[DONE]".toList ∨
          Text.trim raw = "DONE".toList
        · rw [if_pos hdone] at herror
          cases herror
        · obtain ⟨chunk, reason, hread, hreason⟩ := hmark.resolve_left hdone
          rw [if_neg hdone, hread] at herror
          simp only [hreason] at herror
          cases herror
      · rw [readTurn, if_neg hchunk.notBlank,
          if_neg hchunk.notDone, hchunk.read,
          or_iff_right hchunk.not_endsTurn]
        simp only [hchunk.goesOn]
        exact ih

/-- A stream that does not panic ends with one event that says how it ended. -/
theorem sent_processFrom :
    ∃ front last, (processFrom fromStr requestId .init datas ending).sent =
      front ++ [last] ∧
      (∀ event ∈ front, isTerminal event = false) ∧ isTerminal last = true ∧
      (isCompleted last = true ↔
        (∃ raw ∈ datas, EndsTurn fromStr raw) ∨ ending = .closed) := by
  obtain ⟨early, hsent, hearly, -, -⟩ :=
    (ChatState.progress_handleChunks .init
      (readTurn fromStr datas ending).1).sent
  have hearly' : ∀ event ∈ early, isTerminal event = false :=
    fun event hevent =>
      isTerminal_of_isEarly (hearly event hevent)
  have hfailed := @readTurn_failed_iff fromStr datas ending
  rw [processFrom_eq]
  by_cases hends : (∃ raw ∈ datas, EndsTurn fromStr raw) ∨ ending = .closed
  · have hend : ∀ error, (readTurn fromStr datas ending).2 ≠ .failed error := by
      intro error herror
      exact hfailed.1 ⟨error, herror⟩ hends
    obtain ⟨items, responseId, hlast, -, -⟩ :=
      ((readTurn fromStr datas ending).1.foldl ChatState.handleChunk
        .init).sent_endTurn
        requestId hend
    refine ⟨early ++ dones items, .ok (.completed responseId), ?_, ?_, rfl,
      iff_of_true rfl hends⟩
    · rw [hlast, hsent]
      rfl
    · intro event hevent
      rcases List.mem_append.1 hevent with hevent | hevent
      · exact hearly' event hevent
      · exact isTerminal_of_mem_dones hevent
  · obtain ⟨error, herror⟩ := hfailed.2 hends
    obtain ⟨last, hlast⟩ : ∃ last : StreamError,
        (((readTurn fromStr datas ending).1.foldl ChatState.handleChunk
          .init).endTurn requestId
          (.failed error)).sent = early ++ [.error last] := by
      cases error <;> exact ⟨_, congrArg (· ++ _) hsent⟩
    refine ⟨early, .error last, by rw [herror, hlast], hearly', rfl, ?_⟩
    exact iff_of_false Bool.false_ne_true hends

/-! ## Payloads that are not JSON -/

/-- Without the excerpts, a payload that is not JSON changes nothing. -/
theorem processFrom_skip (s : ChatState) (before : List Text)
    (h : IsJunk fromStr raw) :
    processFrom fromStr requestId s (before ++ raw :: rest) ending =
      processFrom fromStr requestId s (before ++ rest) ending := by
  induction before generalizing s with
  | nil => exact processFrom_junk s h
  | cons first before ih =>
      rw [List.cons_append, List.cons_append, processFrom, processFrom]
      simp only [ih]

theorem unsplit_skip {before : List Text} (h : IsJunk fromStr raw)
    (hunsplit : Unsplit fromStr (before ++ raw :: rest)) :
    Unsplit fromStr (before ++ rest) := by
  induction before with
  | nil => exact (unsplit_cons.1 hunsplit).2 h.not_endsTurn
  | cons first before ih =>
      obtain ⟨hfirst, hbefore⟩ := unsplit_cons.1 hunsplit
      exact unsplit_cons.2 ⟨hfirst, fun hgoes => ih (hbefore hgoes)⟩

/-! ## The property and where it holds -/

variable (fromStr requestId)

/-- The task returns, its last event is the only one that ends the stream, and
it is `Completed` if a payload or a close ended it and an error otherwise; and
a payload that is not JSON changes nothing. -/
structure EndsOnce (datas : List Text) (ending : StreamEnd) : Prop where
  last : ∃ s front last,
    runTask fromStr requestId .init datas ending = .returned s ∧
    s.sent = front ++ [last] ∧ (∀ event ∈ front, isTerminal event = false) ∧
    isTerminal last = true ∧
    (isCompleted last = true ↔
      (∃ raw ∈ datas, EndsTurn fromStr raw) ∨ ending = .closed)
  skips : ∀ before raw after, datas = before ++ raw :: after →
    IsJunk fromStr raw →
    runTask fromStr requestId .init datas ending =
      runTask fromStr requestId .init (before ++ after) ending

/-- A stream ends with one last event, and payloads that are not JSON change
nothing, if and only if no payload up to the one that ends it is cut inside of
a character. -/
theorem endsOnce_iff (datas : List Text) (ending : StreamEnd) :
    EndsOnce fromStr requestId datas ending ↔ Unsplit fromStr datas := by
  constructor
  · intro h
    obtain ⟨s, _, _, hreturned, -⟩ := h.last
    by_contra hsplit
    obtain ⟨s', hpanicked⟩ := (runTask_eq .init).2 hsplit
    rw [hpanicked] at hreturned
    cases hreturned
  · intro h
    obtain ⟨front, last, hsent, hfront, hlast, hcompleted⟩ :=
      @sent_processFrom fromStr requestId datas ending
    refine ⟨⟨_, front, last, (runTask_eq .init).1 h, hsent, hfront, hlast,
      hcompleted⟩, ?_⟩
    rintro before raw after rfl hjunk
    rw [(runTask_eq .init).1 h, (runTask_eq .init).1 (unsplit_skip hjunk h),
      processFrom_skip .init before hjunk]

/-- Cutting characters of two bytes at an odd number of bytes. -/
theorem truncate_replicate {c : Char} (hc : c.utf8Size = 2)
    {n k : ℕ} (h : n < k) :
    truncate (List.replicate k c) (2 * n + 1) = none := by
  induction n generalizing k with
  | zero =>
      obtain ⟨k, rfl⟩ := Nat.exists_eq_succ_of_ne_zero (Nat.ne_of_gt h)
      rw [List.replicate_succ, truncate, hc]
      rfl
  | succ n ih =>
      obtain ⟨k, rfl⟩ :=
        Nat.exists_eq_succ_of_ne_zero (Nat.ne_of_gt (Nat.zero_lt_of_lt h))
      have hnext : 2 * (n + 1) + 1 - c.utf8Size = 2 * n + 1 := by omega
      rw [List.replicate_succ, truncate, if_pos (by omega), hnext,
        ih (by omega)]
      rfl

/-- A letter and 300 letters with accents: the excerpt is cut inside of one. -/
theorem not_endsOnce_accents :
    ¬ ∀ (fromStr : Text → Option Json) (requestId : String) (datas : List Text)
      (ending : StreamEnd), EndsOnce fromStr requestId datas ending := by
  intro h
  obtain ⟨s, _, _, hreturned, -⟩ :=
    (h (fun _ => none) "r" ['a' :: List.replicate 300 'é'] .closed).last
  have htrim : Text.trim ('a' :: List.replicate 300 'é') =
      'a' :: List.replicate 300 'é' := by
    refine Text.trim_eq_of_no_space fun c hc => ?_
    rcases List.mem_cons.1 hc with rfl | hc
    · decide
    · rw [List.eq_of_mem_replicate hc]
      decide
  have hexcerpt : excerptOf ('a' :: List.replicate 300 'é') = none := by
    have hcut :=
      truncate_replicate (c := 'é') (by decide) (show 299 < 300 by decide)
    rw [excerptOf, Text.byteLen_cons, Text.byteLen_replicate,
      if_pos (by decide), truncate,
      if_pos (by decide)]
    exact congrArg (Option.map ('a' :: ·)) hcut
  have hjunk : IsJunk (fun _ => none) ('a' :: List.replicate 300 'é') := by
    refine ⟨?_, ?_, rfl⟩
    · rw [htrim]
      exact List.cons_ne_nil _ _
    · rw [htrim]
      rintro (hmark | hmark)
      · exact absurd (List.cons.inj hmark).1 (by decide)
      · exact absurd (List.cons.inj hmark).1 (by decide)
  rw [runTask_junk .init hjunk, hexcerpt] at hreturned
  cases hreturned

end CodeRs.Chat
