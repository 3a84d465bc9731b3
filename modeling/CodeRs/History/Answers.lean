import CodeRs.History.AssistantText

/-!
# One answer for a stream

Deltas and final answers of a stream may come in any order and more than once.
A stream id has at most one live stream and at most one message at any time,
and a final answer leaves only the message.
-/

namespace CodeRs.History

/-- The record belongs to a stream id. -/
def HistoryRecord.isOf (streamId : String) (record : HistoryRecord) : Bool :=
  record.isStream streamId || record.isMessageOf streamId

namespace HistoryState

/-- The operations are upserts of assistant streams and final answers. -/
def StreamsAnswers (_ : HistoryState) : Op → Prop
  | .applyDomainEvent _ (.upsertAssistantStream _ _ _ _) => True
  | .finalizeAssistantStreamState _ _ _ _ _ => True
  | _ => False

/-- A stream id has at most one live stream and at most one message. -/
structure AnswersOnce (s : HistoryState) (streamId : String) : Prop where
  stream : (s.records.filter (HistoryRecord.isStream streamId)).length ≤ 1
  message : (s.records.filter (HistoryRecord.isMessageOf streamId)).length ≤ 1

/-- A message is all there is of a stream id, and the records of others are
left alone. -/
structure Answered (s t : HistoryState) (streamId : String)
    (state : AssistantMessageState) :
    Prop where
  stream : t.records.filter (HistoryRecord.isStream streamId) = []
  message : t.records.filter (HistoryRecord.isMessageOf streamId) =
    [.assistantMessage state]
  others : t.records.filter (fun record => !record.isOf streamId) =
    s.records.filter fun record => !record.isOf streamId

/-! ## A final answer -/

theorem filter_of_others {s t : HistoryState} {streamId : String}
    (h : t.records.filter (fun record => !record.isOf streamId) =
      s.records.filter fun record => !record.isOf streamId)
    {p : HistoryRecord → Bool}
    (hp : ∀ record, record.isOf streamId = true → p record = false) :
    t.records.filter p = s.records.filter p := by
  have hfilter (records : List HistoryRecord) : records.filter p =
      (records.filter fun record => !record.isOf streamId).filter p := by
    rw [List.filter_filter]
    refine List.filter_congr fun record _ => ?_
    cases hof : record.isOf streamId with
    | true => rw [hp record hof, Bool.false_and]
    | false => rw [Bool.not_false, Bool.and_true]
  rw [hfilter, h, ← hfilter]

/-- The live stream of an id is gone, and nothing else is. -/
theorem takeLiveStream_filter {s : HistoryState} {streamId : String}
    (hone : (s.records.filter (HistoryRecord.isStream streamId)).length ≤ 1) :
    (s.takeLiveStream (some streamId)).1.records.filter
      (HistoryRecord.isStream streamId) = [] ∧
      ∀ p : HistoryRecord → Bool,
        (∀ state : AssistantStreamState, state.streamId = streamId →
          p (.assistantStream state) = false) →
        (s.takeLiveStream (some streamId)).1.records.filter p =
          s.records.filter p := by
  cases hidx : s.records.findIdx? (HistoryRecord.isStream streamId) with
  | none =>
      have hsame : (s.takeLiveStream (some streamId)).1 = s := by
        simp [takeLiveStream, hidx]
      rw [hsame]
      refine ⟨?_, fun _ _ => rfl⟩
      simpa [List.filter_eq_nil_iff] using List.findIdx?_eq_none_iff.1 hidx
  | some idx =>
      obtain ⟨record, hget, hstream⟩ := findIdx?_getElem? hidx
      obtain ⟨state, rfl, hid⟩ := HistoryRecord.isStream_iff.1 hstream
      have hremove : (s.takeLiveStream (some streamId)).1 =
          s.removeAt idx (.assistantStream state) := by
        simp [takeLiveStream, hidx, remove, hget, removeAt]
      rw [hremove, removeAt_records]
      obtain ⟨-, hgone, -⟩ := filter_split_of_pos hget hstream hone
      exact ⟨hgone, fun p hp => filter_eraseIdx_of_neg hget (hp state hid)⟩

theorem putMessage_filter {s : HistoryState} {streamId : String}
    {message : AssistantMessageState} (hid : message.streamId = some streamId)
    (hone : (s.records.filter (HistoryRecord.isMessageOf streamId)).length ≤
      1) :
    (s.putMessage message).2.markdown = message.markdown ∧
      (s.putMessage message).1.records.filter
        (HistoryRecord.isMessageOf streamId) =
        [.assistantMessage (s.putMessage message).2] ∧
      ∀ p : HistoryRecord → Bool,
        (∀ state : AssistantMessageState, state.streamId = some streamId →
          p (.assistantMessage state) = false) →
        (s.putMessage message).1.records.filter p = s.records.filter p := by
  cases hpos : rposition (HistoryRecord.isMessageOf streamId) s.records with
  | none =>
      have hput : s.putMessage message =
          (s.insertAt s.records.length (.assistantMessage message),
            { message with id := s.nextId }) := by
        simp [putMessage, hid, hpos, insertAt, HistoryRecord.withId,
          registerRecord,
          List.insertIdx_length_self]
      have hnone :
          s.records.filter (HistoryRecord.isMessageOf streamId) = [] := by
        simpa [List.filter_eq_nil_iff] using rposition_eq_none hpos
      have hnew : HistoryRecord.isMessageOf streamId
          ((HistoryRecord.assistantMessage message).withId s.nextId) = true :=
        beq_iff_eq.2 hid
      rw [hput, insertAt_records, List.insertIdx_length_self]
      refine ⟨rfl, ?_, fun p hp => ?_⟩
      · rw [List.filter_append, hnone, List.filter_cons_of_pos hnew]
        rfl
      · have hneg : p (.assistantMessage { message with id := s.nextId }) =
            false := hp _ hid
        rw [List.filter_append, HistoryRecord.withId,
          List.filter_cons_of_neg (by simp [hneg])]
        exact List.append_nil _
  | some idx =>
      obtain ⟨record, hget, hmessage⟩ := rposition_getElem? hpos
      obtain ⟨existing, rfl, hexisting⟩ :=
        HistoryRecord.isMessageOf_iff.1 hmessage
      have hput : s.putMessage message =
          (s.setMessage idx (s.putMessage message).2,
            (s.putMessage message).2) := by
        simp [putMessage, hid, hpos, hget, setMessage]
      have hstate : (s.putMessage message).2.streamId = some streamId := by
        simp [putMessage, hid, hpos, hget, hexisting]
      have hmarkdown :
          (s.putMessage message).2.markdown = message.markdown := by
        simp [putMessage, hid, hpos, hget]
      rw [hput]
      refine ⟨hmarkdown, ?_, fun p hp => ?_⟩
      · exact (filter_split_of_pos hget hmessage hone).2.2 _
          (beq_iff_eq.2 hstate)
      · exact filter_set_of_neg hget (hp existing hexisting) (hp _ hstate)

theorem answered_finalizeAssistantStreamState {s : HistoryState}
    {streamId : String}
    (hone : s.AnswersOnce streamId) (now : ℕ) (markdown : String)
    (metadata : Option MessageMetadata) (tokenUsage : Option TokenUsage) :
    s.Answered
        (s.finalizeAssistantStreamState now (some streamId) markdown
          metadata tokenUsage).1
        streamId
        (s.finalizeAssistantStreamState now (some streamId) markdown metadata
          tokenUsage).2 ∧
      (s.finalizeAssistantStreamState now (some streamId) markdown metadata
        tokenUsage).2.markdown = markdown := by
  obtain ⟨hgone, hkept⟩ := takeLiveStream_filter hone.stream
  have hmessages := hkept (HistoryRecord.isMessageOf streamId) fun _ _ => rfl
  have hone' := hone.message
  rw [← hmessages] at hone'
  simp only [finalizeAssistantStreamState]
  generalize hmessage : AssistantMessageState.mk _ _ _ _ _ _ _ _ = message
  have hid : message.streamId = some streamId := by rw [← hmessage]
  obtain ⟨hmarkdown, hput, hothers⟩ := putMessage_filter hid hone'
  refine ⟨⟨?_, hput, ?_⟩, ?_⟩
  · rw [hothers (HistoryRecord.isStream streamId) fun _ _ => rfl, hgone]
  · rw [hothers, hkept]
    · intro state hid
      simp [HistoryRecord.isOf, HistoryRecord.isStream, hid]
    · intro state hid
      simp [HistoryRecord.isOf, HistoryRecord.isMessageOf, hid]
  · rw [hmarkdown, ← hmessage]

/-! ## Every state -/

/-- Every stream id has at most one live stream and at most one message. -/
def AllAnswerOnce (s : HistoryState) : Prop :=
  ∀ streamId, s.AnswersOnce streamId

theorem AnswersOnce.of_filter_eq {s t : HistoryState} {streamId : String}
    (h : s.AnswersOnce streamId)
    (hfilter : ∀ p : HistoryRecord → Bool, (∀ record, p record = true →
      record.isOf streamId = true) → t.records.filter p = s.records.filter p) :
    t.AnswersOnce streamId where
  stream := by
    rw [hfilter _ fun record hrecord => by
      rw [HistoryRecord.isOf, hrecord, Bool.true_or]]
    exact h.stream
  message := by
    rw [hfilter _ fun record hrecord => by
      rw [HistoryRecord.isOf, hrecord, Bool.or_true]]
    exact h.message

theorem AllAnswerOnce.upserted {s t : HistoryState} (h : s.AllAnswerOnce)
    {streamId : String}
    {delta : Option AssistantStreamDelta}
    (hup : Upserted s streamId delta t.records) :
    t.AllAnswerOnce := by
  intro other
  constructor
  · by_cases hid : streamId = other
    · subst hid
      obtain ⟨state, hstate, -⟩ := hup.filter_isStream (h streamId).stream
      rw [hstate]
      exact le_rfl
    · rw [hup.filter_of_neg
        fun state heq => HistoryRecord.isStream_of_ne (heq.trans_ne hid)]
      exact (h other).stream
  · rw [hup.filter_of_neg fun _ _ => rfl]
    exact (h other).message

theorem AllAnswerOnce.finalized {s : HistoryState}
    (h : s.AllAnswerOnce) (now : ℕ)
    (streamId : Option String) (markdown : String)
    (metadata : Option MessageMetadata)
    (tokenUsage : Option TokenUsage) :
    (s.finalizeAssistantStreamState now streamId markdown metadata
      tokenUsage).1.AllAnswerOnce := by
  intro other
  cases streamId with
  | none =>
      -- A final answer of no stream is a message more, of no stream.
      refine (h other).of_filter_eq fun p hp => ?_
      have hneg : ∀ state : AssistantMessageState, state.streamId = none →
          p (.assistantMessage state) ≠ true := by
        intro state hnone hpos
        simpa [HistoryRecord.isOf, HistoryRecord.isStream,
          HistoryRecord.isMessageOf, hnone]
          using hp _ hpos
      simp [finalizeAssistantStreamState, takeLiveStream, putMessage,
        withRecords, bumpNextId,
        rebuildIdIndex, hneg]
  | some streamId =>
      obtain ⟨hanswered, -⟩ :=
        answered_finalizeAssistantStreamState (h streamId) now markdown
          metadata tokenUsage
      by_cases hid : streamId = other
      · subst hid
        constructor
        · rw [hanswered.stream]
          exact Nat.zero_le 1
        · rw [hanswered.message]
          exact le_rfl
      · refine (h other).of_filter_eq fun p hp =>
          filter_of_others hanswered.others ?_
        intro record hof
        by_contra hpos
        have hother := hp record (by simpa using hpos)
        cases record <;>
          simp_all [HistoryRecord.isOf, HistoryRecord.isStream,
            HistoryRecord.isMessageOf]

theorem allAnswerOnce_of_reachable {s : HistoryState}
    (h : Reachable StreamsAnswers s) :
    s.AllAnswerOnce := by
  refine System.Reachable.invariant (P := AllAnswerOnce) ?_ ?_ ?_ h
  · exact fun _ => ⟨Nat.zero_le 1, Nat.zero_le 1⟩
  · intro s op s' honce hok hstep
    cases op with
    | applyDomainEvent now event =>
        cases event with
        | upsertAssistantStream streamId previewMarkdown delta metadata =>
            obtain ⟨result, hupsert, rfl⟩ := Option.map_eq_some_iff.1 hstep
            exact honce.upserted (upserted_of_upsert hupsert)
        | _ => exact hok.elim
    | finalizeAssistantStreamState now streamId markdown metadata tokenUsage =>
        cases hstep
        exact honce.finalized now streamId markdown metadata tokenUsage
    | _ => exact hok.elim
  · intro s t _ honce streamId
    have hsub : (historySystem.combine s t).records.Sublist t.records := by
      rw [historySystem, restore_records]
      exact dedupMessages_sublist [] t.records
    exact ⟨(hsub.filter _).length_le.trans (honce streamId).stream,
      (hsub.filter _).length_le.trans (honce streamId).message⟩

/-- In any order of deltas and final answers a stream id has at most one live
stream and at most one message, and a final answer leaves one message with its
text and changes nothing else. -/
theorem answers_of_reachable {s : HistoryState}
    (h : Reachable StreamsAnswers s) :
    (∀ streamId,
      (s.records.filter (HistoryRecord.isStream streamId)).length ≤ 1 ∧
        (s.records.filter (HistoryRecord.isMessageOf streamId)).length ≤ 1) ∧
      ∀ now streamId markdown metadata tokenUsage,
        ∃ t message,
        s.finalizeAssistantStreamState now (some streamId) markdown metadata
            tokenUsage = (t, message) ∧
          message.markdown = markdown ∧
          t.records.filter (HistoryRecord.isStream streamId) = [] ∧
          t.records.filter (HistoryRecord.isMessageOf streamId) =
            [.assistantMessage message] ∧
          t.records.filter (fun record => !record.isOf streamId) =
            s.records.filter fun record => !record.isOf streamId := by
  have honce := allAnswerOnce_of_reachable h
  refine ⟨fun streamId => ⟨(honce streamId).stream, (honce streamId).message⟩,
    ?_⟩
  intro now streamId markdown metadata tokenUsage
  obtain ⟨hanswered, hmarkdown⟩ :=
    answered_finalizeAssistantStreamState (honce streamId) now
      markdown metadata tokenUsage
  exact ⟨_, _, rfl, hmarkdown, hanswered.stream, hanswered.message,
    hanswered.others⟩

/-- A second final answer takes the place of the first. -/
theorem answers_finalizedTwice :
    let s :=
      (HistoryState.new.finalizeAssistantStreamState 0 (some "answer")
        "first" none none).1
    Reachable StreamsAnswers s ∧
      ∃ t message,
        s.finalizeAssistantStreamState 1 (some "answer") "second" none none =
          (t, message) ∧
          message.markdown = "second" ∧
          t.records.filter (HistoryRecord.isMessageOf "answer") =
            [.assistantMessage message] := by
  have hreach : Reachable StreamsAnswers
      (HistoryState.new.finalizeAssistantStreamState 0 (some "answer") "first"
        none none).1 :=
    .step
      (a := .finalizeAssistantStreamState 0 (some "answer") "first" none none)
      .init
      trivial rfl
  obtain ⟨t, message, hfinal, hmarkdown, -, hmessage, -⟩ :=
    (answers_of_reachable hreach).2 1 "answer" "second" none none
  exact ⟨hreach, t, message, hfinal, hmarkdown, hmessage⟩

end HistoryState

end CodeRs.History
