import CodeRs.History.Steps
import CodeRs.Lib.Utf8

/-!
# The text of an assistant stream

A stream keeps the end of the text that its deltas have sent.  Pruning drops
whole deltas and then a part of the next one up to the end of a character, and
counts the bytes that it drops.
-/

namespace CodeRs.History

/-! ## Pruning -/

def deltaText (deltas : List AssistantStreamDelta) : Text :=
  deltas.flatMap AssistantStreamDelta.delta

theorem deltaText_append (deltas later : List AssistantStreamDelta) :
    deltaText (deltas ++ later) = deltaText deltas ++ deltaText later :=
  List.flatMap_append

theorem deltaText_singleton (delta : AssistantStreamDelta) :
    deltaText [delta] = delta.delta :=
  List.append_nil _

theorem byteLen_deltaText (deltas : List AssistantStreamDelta) :
    (deltaText deltas).byteLen = (deltas.map fun d => d.delta.byteLen).sum := by
  induction deltas with
  | nil => rfl
  | cons first rest ih =>
      rw [List.map_cons, List.sum_cons, ← ih]
      exact Text.byteLen_append _ _

/-- A number of bytes as a `usize` that stops at its maximum. -/
def saturate (n : ℕ) : ℕ := min n u64Max

theorem satAdd_saturate (n k : ℕ) :
    satAdd (saturate n) k = saturate (n + k) := by
  rw [satAdd, saturate, saturate]
  omega

/-- The count of dropped bytes is left alone where none are dropped. -/
theorem count_saturate (n k : ℕ) :
    (if 0 < saturate k then satAdd (saturate n) (saturate k) else saturate n) =
      saturate (n + k) := by
  rw [satAdd_saturate]
  by_cases hk : k = 0
  · rw [if_neg (by simp [saturate, hk]), hk, Nat.add_zero]
  · have hpos : 0 < saturate k := lt_min (Nat.pos_of_ne_zero hk) one_le_u64Max
    rw [if_pos hpos]
    simp only [saturate]
    omega

/-- The deltas that stay after a text was dropped from the front. -/
structure Kept (deltas : List AssistantStreamDelta) (maxBytes : ℕ)
    (dropped : Text)
    (kept : List AssistantStreamDelta) : Prop where
  text_eq : deltaText deltas = dropped ++ deltaText kept
  byteLen_le : (deltaText kept).byteLen ≤ maxBytes

/-- The loop never cuts a character and counts the bytes that it drops. -/
theorem pruneAssistantLoop_spec (maxBytes : ℕ)
    (deltas : List AssistantStreamDelta) (n : ℕ) :
    ∃ kept dropped,
      pruneAssistantLoop maxBytes deltas (deltaText deltas).byteLen
        (saturate n) =
        some (kept, saturate (n + dropped.byteLen)) ∧
        Kept deltas maxBytes dropped kept := by
  induction deltas generalizing n with
  | nil => exact ⟨[], [], rfl, rfl, Nat.zero_le _⟩
  | cons first rest ih =>
      have htext : deltaText (first :: rest) = first.delta ++ deltaText rest :=
        rfl
      have hrest : (deltaText (first :: rest)).byteLen - first.delta.byteLen =
          (deltaText rest).byteLen := by
        rw [htext, Text.byteLen_append, Nat.add_sub_cancel_left]
      -- What the loop does after it has dropped the first delta.
      have hdrop : ∃ kept dropped,
          pruneAssistantLoop maxBytes rest (deltaText rest).byteLen
            (satAdd (saturate n) first.delta.byteLen) =
          some (kept, saturate (n + dropped.byteLen)) ∧
            Kept (first :: rest) maxBytes dropped kept := by
        obtain ⟨kept, dropped, hloop, hkept⟩ := ih (n + first.delta.byteLen)
        refine ⟨kept, first.delta ++ dropped, ?_, ?_, hkept.byteLen_le⟩
        · rw [satAdd_saturate, hloop, Text.byteLen_append, Nat.add_assoc]
        · rw [htext, hkept.text_eq, List.append_assoc]
      rw [pruneAssistantLoop]
      simp only [hrest]
      split
      next hfits => exact ⟨first :: rest, [], rfl, rfl, hfits⟩
      next hover =>
        split
        next => exact hdrop
        next hlast =>
          split
          next => exact hdrop
          next hpart =>
            obtain ⟨head, tail, hsplit, hnext, hle⟩ := Text.nextBoundary_spec
              (Nat.min_le_right ((deltaText (first :: rest)).byteLen - maxBytes)
                first.delta.byteLen)
            rw [hnext] at hpart ⊢
            have hdrain : first.delta.drain head.byteLen = some tail := by
              rw [hsplit, Text.drain_append_byteLen]
            refine ⟨{ first with delta := tail } :: rest, head, ?_, ?_, ?_⟩
            · rw [hdrain, satAdd_saturate]
              rfl
            · rw [htext, hsplit]
              exact List.append_assoc _ _ _
            · have hfirst := congrArg Text.byteLen hsplit
              have hkept : deltaText ({ first with delta := tail } :: rest) =
                  tail ++ deltaText rest := rfl
              rw [hkept]
              rw [htext] at hle
              rw [Text.byteLen_append] at hfirst hle ⊢
              omega

theorem pruneAssistantStream_spec {maxBytes : ℕ} (hmax : maxBytes ≠ 0)
    (deltas : List AssistantStreamDelta) :
    ∃ kept dropped, pruneAssistantStream deltas maxBytes =
      some (kept, saturate dropped.byteLen) ∧
      Kept deltas maxBytes dropped kept := by
  rw [pruneAssistantStream, if_neg hmax, ← byteLen_deltaText]
  split
  next hfits => exact ⟨deltas, [], rfl, rfl, hfits⟩
  next =>
    obtain ⟨kept, dropped, hloop, hkept⟩ :=
      pruneAssistantLoop_spec maxBytes deltas 0
    rw [Nat.zero_add] at hloop
    exact ⟨kept, dropped, hloop, hkept⟩

/-! ## A delta more -/

theorem deltaText_pushAssistantDelta (deltas : List AssistantStreamDelta)
    (delta : AssistantStreamDelta) :
    deltaText (pushAssistantDelta deltas delta) =
      deltaText deltas ++ delta.delta := by
  rw [pushAssistantDelta]
  cases hlast : deltas.getLast? with
  | none => rw [deltaText_append, deltaText_singleton]
  | some last =>
      simp only
      split
      next =>
        obtain ⟨before, rfl⟩ := List.getLast?_eq_some_iff.1 hlast
        rw [List.dropLast_concat, deltaText_append, deltaText_append,
          deltaText_singleton,
          deltaText_singleton, List.append_assoc]
      next => rw [deltaText_append, deltaText_singleton]

/-- The text of an optional delta. -/
def sentDelta (delta : Option AssistantStreamDelta) : Text :=
  (delta.map AssistantStreamDelta.delta).getD []

/-- A text is within the limit of a stream. -/
def WithinLimit (t : Text) : Prop := t.byteLen ≤ maxAssistantStreamRetainedBytes

theorem appendAssistantDelta?_spec (deltas : List AssistantStreamDelta)
    (delta : Option AssistantStreamDelta) :
    ∃ kept dropped, appendAssistantDelta? deltas delta =
      some (kept, saturate dropped.byteLen) ∧
      deltaText deltas ++ sentDelta delta = dropped ++ deltaText kept ∧
      (WithinLimit (deltaText deltas) → WithinLimit (deltaText kept)) := by
  cases delta with
  | none => exact ⟨deltas, [], rfl, List.append_nil _, id⟩
  | some delta =>
      have hmax : maxAssistantStreamRetainedBytes ≠ 0 := by decide
      obtain ⟨kept, dropped, hprune, hkept⟩ :=
        pruneAssistantStream_spec hmax (pushAssistantDelta deltas delta)
      refine ⟨kept, dropped, hprune, ?_, fun _ => hkept.byteLen_le⟩
      rw [← hkept.text_eq, deltaText_pushAssistantDelta]
      rfl

/-! ## An upsert -/

namespace AssistantStreamState

/-- The stream keeps the end of the text that was sent, within its limit, and
counts the bytes before it. -/
structure Retains (state : AssistantStreamState) (sent : Text) : Prop where
  suffix : deltaText state.deltas <:+ sent
  byteLen_le : WithinLimit (deltaText state.deltas)
  counts : state.truncatedPrefixBytes =
    saturate (sent.byteLen - (deltaText state.deltas).byteLen)

theorem Retains.of_dropped {state : AssistantStreamState} {sent : Text}
    (dropped : Text)
    (hsent : sent = dropped ++ deltaText state.deltas)
    (hle : WithinLimit (deltaText state.deltas))
    (hcount : state.truncatedPrefixBytes = saturate dropped.byteLen) :
    state.Retains sent := by
  refine ⟨⟨dropped, hsent.symm⟩, hle, ?_⟩
  rw [hcount, hsent, Text.byteLen_append, Nat.add_sub_cancel]

theorem Retains.new {state : AssistantStreamState}
    {delta : Option AssistantStreamDelta}
    (happend : appendAssistantDelta? [] delta =
      some (state.deltas, state.truncatedPrefixBytes)) : state.Retains
      (sentDelta delta) := by
  obtain ⟨kept, dropped, happend', htext, hle⟩ :=
    appendAssistantDelta?_spec [] delta
  obtain ⟨rfl, hcount⟩ :=
    Prod.mk.inj (Option.some.inj (happend.symm.trans happend'))
  exact .of_dropped dropped htext (hle (Nat.zero_le _)) hcount

theorem Retains.append {state state' : AssistantStreamState} {sent : Text}
    (h : state.Retains sent) {delta : Option AssistantStreamDelta}
    {truncated : ℕ}
    (happend : appendAssistantDelta? state.deltas delta =
      some (state'.deltas, truncated))
    (hcount : state'.truncatedPrefixBytes =
      if 0 < truncated then satAdd state.truncatedPrefixBytes truncated
      else state.truncatedPrefixBytes) :
    state'.Retains (sent ++ sentDelta delta) := by
  obtain ⟨(dropped : Text), hdropped⟩ := h.suffix
  obtain ⟨kept, dropped', happend', htext, hle⟩ :=
    appendAssistantDelta?_spec state.deltas delta
  obtain ⟨rfl, rfl⟩ :=
    Prod.mk.inj (Option.some.inj (happend.symm.trans happend'))
  refine .of_dropped (dropped ++ dropped') ?_ (hle h.byteLen_le) ?_
  · rw [← hdropped, List.append_assoc, htext, List.append_assoc]
  · have hbefore : state.truncatedPrefixBytes = saturate dropped.byteLen := by
      rw [h.counts, ← hdropped, Text.byteLen_append, Nat.add_sub_cancel]
    rw [hcount, hbefore, Text.byteLen_append, count_saturate]

end AssistantStreamState

namespace HistoryState

/-- What an upsert does to the records: a new stream at the end, or a new value
for the first stream with the id. -/
inductive Upserted (s : HistoryState) (streamId : String)
    (delta : Option AssistantStreamDelta) :
    List HistoryRecord → Prop
  | insert (state : AssistantStreamState)
      (hnone : s.records.filter (HistoryRecord.isStream streamId) = [])
      (hid : state.streamId = streamId)
      (happend : appendAssistantDelta? [] delta =
        some (state.deltas, state.truncatedPrefixBytes)) :
      Upserted s streamId delta (s.records ++ [.assistantStream state])
  | update (idx : ℕ) (existing state : AssistantStreamState) (truncated : ℕ)
      (hget : s.records[idx]? = some (.assistantStream existing))
      (hexisting : existing.streamId =
        streamId) (hid : state.streamId = streamId)
      (happend : appendAssistantDelta? existing.deltas delta =
        some (state.deltas, truncated))
      (hcount : state.truncatedPrefixBytes =
        if 0 < truncated then satAdd existing.truncatedPrefixBytes truncated
        else existing.truncatedPrefixBytes) :
      Upserted s streamId delta (s.records.set idx (.assistantStream state))

theorem upserted_of_upsert {s : HistoryState} {now : ℕ}
    {streamId previewMarkdown : String}
    {delta : Option AssistantStreamDelta} {metadata : Option MessageMetadata}
    {result : HistoryState × HistoryMutation}
    (h : s.upsertAssistantStream now streamId previewMarkdown delta metadata =
      some result) :
    Upserted s streamId delta result.1.records := by
  cases hidx : s.records.findIdx? (HistoryRecord.isStream streamId) with
  | none =>
      simp only [upsertAssistantStream, replaceAssistantStream, hidx,
        insertAssistantStream,
        Option.bind_eq_bind, Option.bind_some, Option.bind_eq_some_iff,
        Option.some.injEq] at h
      obtain ⟨⟨deltas, truncated⟩, happend, rfl⟩ := h
      have hnone : s.records.filter (HistoryRecord.isStream streamId) = [] := by
        simpa [List.filter_eq_nil_iff] using List.findIdx?_eq_none_iff.1 hidx
      rw [applyEvent_insert, insertAt_records, Nat.min_self,
        List.insertIdx_length_self]
      exact .insert _ hnone rfl happend
  | some idx =>
      obtain ⟨record, hget, hstream⟩ := findIdx?_getElem? hidx
      obtain ⟨existing, rfl, hexisting⟩ := HistoryRecord.isStream_iff.1 hstream
      simp only [upsertAssistantStream, replaceAssistantStream, hidx, hget,
        Option.bind_eq_bind, Option.bind_eq_some_iff] at h
      obtain ⟨replaced, ⟨⟨deltas, truncated⟩, happend, hreplaced⟩, hresult⟩ := h
      rw [applyEvent_replace hget] at hreplaced
      simp only [reduceCtorEq, if_false, Option.some.injEq] at hreplaced
      subst hreplaced
      simp only [Option.some.injEq] at hresult
      subst hresult
      rw [replaceAt_records]
      exact .update idx existing _ truncated hget hexisting
        hexisting happend rfl

theorem exists_upsert (s : HistoryState) (now : ℕ)
    (streamId previewMarkdown : String)
    (delta : Option AssistantStreamDelta) (metadata : Option MessageMetadata) :
    ∃ result,
      s.upsertAssistantStream now streamId previewMarkdown delta metadata =
      some result := by
  cases hidx : s.records.findIdx? (HistoryRecord.isStream streamId) with
  | none =>
      obtain ⟨kept, dropped, happend, -⟩ := appendAssistantDelta?_spec [] delta
      simp [upsertAssistantStream, replaceAssistantStream, hidx,
        insertAssistantStream, happend]
  | some idx =>
      obtain ⟨record, hget, hstream⟩ := findIdx?_getElem? hidx
      obtain ⟨existing, rfl, -⟩ := HistoryRecord.isStream_iff.1 hstream
      obtain ⟨kept, dropped, happend, -⟩ :=
        appendAssistantDelta?_spec existing.deltas delta
      simp [upsertAssistantStream, replaceAssistantStream, hidx, hget, happend,
        applyEvent_replace hget]

/-! ## Every run -/

/-- The fields of `HistoryDomainEvent::UpsertAssistantStream`, and when it is
applied. -/
structure StreamUpsert where
  now : ℕ
  streamId : String
  previewMarkdown : String
  delta : Option AssistantStreamDelta
  metadata : Option MessageMetadata

/-- The text that the deltas for a stream have sent. -/
def sentText (streamId : String) (events : List StreamUpsert) : Text :=
  (events.filter fun event => event.streamId = streamId).flatMap fun event =>
    sentDelta event.delta

def applyUpserts (s : HistoryState) (events : List StreamUpsert) :
    Option HistoryState :=
  events.foldlM
    (fun s event =>
      (s.applyDomainEvent event.now (.upsertAssistantStream event.streamId
      event.previewMarkdown event.delta event.metadata)).map Prod.fst) s

/-- The only stream with an id, if there is one, retains what its deltas have
sent. -/
def StreamsRetain (s : HistoryState) (events : List StreamUpsert) : Prop :=
  ∀ streamId,
    if ∃ event ∈ events, event.streamId = streamId then
      ∃ state, s.records.filter (HistoryRecord.isStream streamId) =
        [.assistantStream state] ∧
        state.Retains (sentText streamId events)
    else s.records.filter (HistoryRecord.isStream streamId) = []

theorem sentText_concat (streamId : String) (events : List StreamUpsert)
    (event : StreamUpsert) :
    sentText streamId (events ++ [event]) =
      sentText streamId events ++
        if event.streamId = streamId then sentDelta event.delta else [] := by
  rw [sentText, List.filter_append, List.flatMap_append, ← sentText]
  by_cases hid : event.streamId = streamId <;> simp [hid]

theorem sentText_of_not_mem {streamId : String} {events : List StreamUpsert}
    (h : ¬ ∃ event ∈ events,
      event.streamId = streamId) : sentText streamId events = [] := by
  have hnone : (events.filter fun event => event.streamId = streamId) = [] := by
    rw [List.filter_eq_nil_iff]
    intro event hevent hid
    exact h ⟨event, hevent, of_decide_eq_true hid⟩
  rw [sentText, hnone, List.flatMap_nil]

theorem Upserted.filter_of_neg {s : HistoryState} {streamId : String}
    {delta : Option AssistantStreamDelta} {records : List HistoryRecord}
    (h : Upserted s streamId delta records) {p : HistoryRecord → Bool}
    (hp : ∀ state : AssistantStreamState, state.streamId = streamId →
      p (.assistantStream state) = false) :
    records.filter p = s.records.filter p := by
  cases h with
  | insert state hnone hid happend =>
      rw [List.filter_append, List.filter_cons_of_neg (by simp [hp state hid])]
      exact List.append_nil _
  | update idx existing state truncated hget hexisting hid happend hcount =>
      exact filter_set_of_neg hget (hp existing hexisting) (hp state hid)

theorem StreamsRetain.length_le_one {s : HistoryState}
    {events : List StreamUpsert}
    (h : s.StreamsRetain events) (streamId : String) :
    (s.records.filter (HistoryRecord.isStream streamId)).length ≤ 1 := by
  have hs := h streamId
  split at hs
  next =>
    obtain ⟨state, hfilter, -⟩ := hs
    rw [hfilter, List.length_singleton]
  next =>
    rw [hs]
    exact Nat.zero_le 1

/-- An upsert leaves one stream with its id: a new one, or what the delta makes
of the only one there was. -/
theorem Upserted.filter_isStream {s : HistoryState} {streamId : String}
    {delta : Option AssistantStreamDelta} {records : List HistoryRecord}
    (h : Upserted s streamId delta records)
    (hone : (s.records.filter (HistoryRecord.isStream streamId)).length ≤ 1) :
    ∃ state, records.filter (HistoryRecord.isStream streamId) =
      [.assistantStream state] ∧
      ((s.records.filter (HistoryRecord.isStream streamId) = [] ∧
          appendAssistantDelta? [] delta =
            some (state.deltas, state.truncatedPrefixBytes)) ∨
        ∃ existing truncated,
          s.records.filter (HistoryRecord.isStream streamId) =
            [.assistantStream existing] ∧
            appendAssistantDelta? existing.deltas delta =
              some (state.deltas, truncated) ∧
            state.truncatedPrefixBytes =
              if 0 < truncated then
                satAdd existing.truncatedPrefixBytes truncated
              else existing.truncatedPrefixBytes) := by
  have hstream : ∀ state : AssistantStreamState, state.streamId = streamId →
      HistoryRecord.isStream streamId (.assistantStream state) = true :=
    fun _ heq => beq_iff_eq.2 heq
  cases h with
  | insert state hnone hid happend =>
      refine ⟨state, ?_, .inl ⟨hnone, happend⟩⟩
      rw [List.filter_append, hnone,
        List.filter_cons_of_pos (hstream state hid)]
      rfl
  | update idx existing state truncated hget hexisting hid happend hcount =>
      obtain ⟨hfilter, -, hset⟩ :=
        filter_split_of_pos hget (hstream existing hexisting) hone
      exact ⟨state, hset _ (hstream state hid),
        .inr ⟨existing, truncated, hfilter, happend,
        hcount⟩⟩

theorem StreamsRetain.upserted {s t : HistoryState} {events : List StreamUpsert}
    (h : s.StreamsRetain events) (event : StreamUpsert)
    (hup : Upserted s event.streamId event.delta t.records) :
    t.StreamsRetain (events ++ [event]) := by
  intro streamId
  have hmem : (∃ e ∈ events ++ [event], e.streamId = streamId) ↔
      (∃ e ∈ events, e.streamId = streamId) ∨ event.streamId = streamId := by
    simp [or_and_right, exists_or]
  have hs := h streamId
  rw [sentText_concat]
  by_cases hid : event.streamId = streamId
  · rw [if_pos (hmem.2 (.inr hid)), if_pos hid]
    subst hid
    obtain ⟨state, hstate, hcases⟩ :=
      hup.filter_isStream (h.length_le_one event.streamId)
    refine ⟨state, hstate, ?_⟩
    rcases hcases with
      ⟨hnone, happend⟩ | ⟨existing, truncated, hexisting, happend, hcount⟩
    · have hnew : ¬ ∃ e ∈ events, e.streamId = event.streamId := by
        intro hold
        rw [if_pos hold, hnone] at hs
        obtain ⟨_, hfilter, -⟩ := hs
        cases hfilter
      rw [sentText_of_not_mem hnew]
      exact .new happend
    · rw [hexisting] at hs
      split at hs
      next =>
        obtain ⟨old, hold, hretains⟩ := hs
        cases hold
        exact hretains.append happend hcount
      next => cases hs
  · have hsame : (∃ e ∈ events ++ [event], e.streamId = streamId) ↔
        ∃ e ∈ events, e.streamId = streamId := by
      rw [hmem, or_iff_left hid]
    simp only [hsame, if_neg hid, List.append_nil]
    rw [hup.filter_of_neg
      fun state heq => HistoryRecord.isStream_of_ne (heq.trans_ne hid)]
    exact hs

/-- Whatever the deltas are, no upsert fails, and the streams retain what was
sent. -/
theorem streamsRetain_of_applyUpserts (events : List StreamUpsert) :
    ∃ s, applyUpserts .new events = some s ∧ s.StreamsRetain events := by
  induction events using List.reverseRecOn with
  | nil => exact ⟨.new, rfl, fun _ => by rw [if_neg (by simp)]; rfl⟩
  | append_singleton events event ih =>
      obtain ⟨s, hrun, hretain⟩ := ih
      obtain ⟨result, hupsert⟩ := exists_upsert s event.now event.streamId
        event.previewMarkdown event.delta event.metadata
      refine ⟨result.1, ?_, hretain.upserted event (upserted_of_upsert hupsert)⟩
      rw [applyUpserts] at hrun ⊢
      rw [List.foldlM_append, hrun]
      simp [applyDomainEvent, hupsert]

/-- Whatever the deltas of a stream are, it keeps a suffix of what they have
sent, within the limit, and its count of dropped bytes is exact up to the
maximum of a `usize`. -/
theorem retainedSuffix_of_applyUpserts (events : List StreamUpsert) :
    ∃ s, applyUpserts .new events = some s ∧
      ∀ streamId, (∃ event ∈ events, event.streamId = streamId) →
        ∃ state, s.records.filter (HistoryRecord.isStream streamId) =
          [.assistantStream state] ∧
          deltaText state.deltas <:+ sentText streamId events ∧
          (deltaText state.deltas).byteLen ≤ maxAssistantStreamRetainedBytes ∧
          state.truncatedPrefixBytes =
            min ((sentText streamId events).byteLen -
              (deltaText state.deltas).byteLen) u64Max := by
  obtain ⟨s, hrun, hretain⟩ := streamsRetain_of_applyUpserts events
  refine ⟨s, hrun, fun streamId hsent => ?_⟩
  have hstream := hretain streamId
  rw [if_pos hsent] at hstream
  obtain ⟨state, hfilter, hretains⟩ := hstream
  exact ⟨state, hfilter, hretains.suffix, hretains.byteLen_le, hretains.counts⟩

/-- The bytes that the streams have dropped and those that they hold are all
that were sent. -/
def AccountsForAll (s : HistoryState) (events : List StreamUpsert) : Prop :=
  ∀ state : AssistantStreamState, .assistantStream state ∈ s.records →
    state.truncatedPrefixBytes + (deltaText state.deltas).byteLen =
      (sentText state.streamId events).byteLen

theorem byteLen_sentText_replicate (event : StreamUpsert) (n : ℕ) :
    (sentText event.streamId (List.replicate n event)).byteLen =
      n * (sentDelta event.delta).byteLen := by
  induction n with
  | zero => exact (Nat.zero_mul _).symm
  | succ n ih =>
      have hcons : sentText event.streamId (List.replicate (n + 1) event) =
          sentDelta event.delta ++
            sentText event.streamId (List.replicate n event) := by
        rw [List.replicate_succ, sentText, List.filter_cons_of_pos (by simp),
          List.flatMap_cons]
        rfl
      rw [hcons, Text.byteLen_append, ih, Nat.succ_mul, Nat.add_comm]

/-- A delta of 1 MiB. -/
def mebibyteUpsert : StreamUpsert where
  now := 0
  streamId := "answer"
  previewMarkdown := ""
  delta :=
    some {
      delta := List.replicate (2 ^ 20) 'a', sequence := none,
      receivedAt := 0 }
  metadata := none

/-- The count stops at its maximum once more was dropped: after 2^45 deltas of
1 MiB. -/
theorem not_accountsForAll_mebibyteUpserts :
    ∃ s, applyUpserts .new (List.replicate (2 ^ 45) mebibyteUpsert) = some s ∧
      ¬ s.AccountsForAll (List.replicate (2 ^ 45) mebibyteUpsert) := by
  obtain ⟨s, hrun, hretain⟩ :=
    streamsRetain_of_applyUpserts (List.replicate (2 ^ 45) mebibyteUpsert)
  refine ⟨s, hrun, fun haccounts => ?_⟩
  have hevent : mebibyteUpsert ∈ List.replicate (2 ^ 45) mebibyteUpsert :=
    List.mem_replicate.2 ⟨Nat.ne_of_gt (Nat.two_pow_pos 45), rfl⟩
  have hstream := hretain "answer"
  rw [if_pos ⟨mebibyteUpsert, hevent, rfl⟩] at hstream
  obtain ⟨state, hfilter, hretains⟩ := hstream
  have hmem : HistoryRecord.assistantStream state ∈
      s.records.filter (HistoryRecord.isStream "answer") := by
    rw [hfilter]
    exact List.mem_singleton_self _
  obtain ⟨hrecord, hid⟩ := List.mem_filter.1 hmem
  have hstreamId : state.streamId = "answer" := beq_iff_eq.1 hid
  have hdelta : (sentDelta mebibyteUpsert.delta).byteLen = 2 ^ 20 :=
    (Text.byteLen_replicate _ _).trans (Nat.mul_one _)
  have hsent :
      (sentText "answer" (List.replicate (2 ^ 45) mebibyteUpsert)).byteLen =
      2 ^ 45 * 2 ^ 20 := by
    rw [← hdelta]
    exact byteLen_sentText_replicate mebibyteUpsert _
  have hall := haccounts state hrecord
  have hle := hretains.byteLen_le
  have hcounts := hretains.counts
  rw [hstreamId, hsent] at hall
  rw [hsent, saturate, u64Max] at hcounts
  rw [WithinLimit, maxAssistantStreamRetainedBytes] at hle
  omega

end HistoryState

end CodeRs.History
