import CodeRs.History.Steps

/-!
# The lookup maps name records that are present

Every entry of the three lookup maps of a reachable history points to the
identifier of a record of that history that carries the key.  No condition on
the steps is needed: a record takes the entries that point to it along when it
leaves, and an entry is only ever written for a record that stays.
-/

namespace CodeRs.History

/-- The three lookup maps of a history. -/
inductive LookupKind where
  | execCall
  | toolCall
  | stream

/-- The keys under which a record is entered in a lookup map. -/
def HistoryRecord.lookupKeys : LookupKind → HistoryRecord → List String
  | .execCall => execCallIds
  | .toolCall => toolCallIds
  | .stream => streamIds

namespace HistoryState

def lookupMap (s : HistoryState) : LookupKind → LookupMap
  | .execCall => s.execCallLookup
  | .toolCall => s.toolCallLookup
  | .stream => s.streamLookup

end HistoryState

/-! ## Entries after an insertion or a removal -/

theorem lookup_insertCalls (lookup : LookupMap) (keys : List String)
    (id : HistoryId) (key : String) :
    (insertCalls lookup keys id).lookup key =
      if key ∈ keys then some id else lookup.lookup key := by
  induction keys generalizing lookup with
  | nil => simp [insertCalls]
  | cons k rest ih =>
      have hfold : insertCalls lookup (k :: rest) id =
          insertCalls (lookup.insert k id) rest id := rfl
      rw [hfold, ih]
      by_cases hrest : key ∈ rest
      · simp [hrest]
      · by_cases hk : key = k
        · simp [hrest, ← hk]
        · simp [hrest, hk, Finmap.lookup_insert_of_ne]

theorem lookup_removeCalls {lookup : LookupMap} {keys : List String}
    {id id' : HistoryId} {key : String}
    (h : (removeCalls lookup keys id).lookup key = some id') :
    lookup.lookup key = some id' ∧ (key ∈ keys → id' ≠ id) := by
  induction keys generalizing lookup with
  | nil => exact ⟨h, by simp⟩
  | cons k rest ih =>
      have hfold : removeCalls lookup (k :: rest) id =
          removeCalls (if lookup.lookup k = some id then
            lookup.erase k else lookup)
            rest id := rfl
      rw [hfold] at h
      obtain ⟨hlookup, hrest⟩ := ih h
      by_cases hk : key = k
      · subst hk
        by_cases hid : lookup.lookup key = some id
        · simp [hid] at hlookup
        · rw [if_neg hid] at hlookup
          refine ⟨hlookup, fun _ heq => hid (heq ▸ hlookup)⟩
      · have hsame : lookup.lookup key = some id' := by
          by_cases hid : lookup.lookup k = some id
          · rwa [if_pos hid, Finmap.lookup_erase_ne hk] at hlookup
          · rwa [if_neg hid] at hlookup
        exact ⟨hsame, fun hmem => hrest (by simpa [hk] using hmem)⟩

/-! ## Covered maps -/

/-- Every entry of `lookup` points to a record among `records` that carries the
key. -/
def Covered (keys : HistoryRecord → List String) (records : List HistoryRecord)
    (lookup : LookupMap) : Prop :=
  ∀ key id, lookup.lookup key = some id →
    ∃ record ∈ records, record.id = id ∧ key ∈ keys record

section Covered

variable {keys : HistoryRecord → List String}
variable {records records' : List HistoryRecord} {lookup : LookupMap}

theorem Covered.empty : Covered keys records ∅ := by
  intro key id h
  simp at h

/-- A map stays covered when every record with a key keeps a representative. -/
theorem Covered.map (h : Covered keys records lookup)
    (hmap : ∀ record ∈ records, keys record ≠ [] →
      ∃ record' ∈ records', record'.id = record.id ∧
        keys record' = keys record) :
    Covered keys records' lookup := by
  intro key id hlookup
  obtain ⟨record, hmem, hid, hkey⟩ := h key id hlookup
  obtain ⟨record', hmem', hid', hkeys⟩ :=
    hmap record hmem (List.ne_nil_of_mem hkey)
  exact ⟨record', hmem', hid'.trans hid, hkeys ▸ hkey⟩

theorem Covered.mono (h : Covered keys records lookup)
    (hsub : ∀ record ∈ records,
      record ∈ records') : Covered keys records' lookup :=
  h.map fun record hmem _ => ⟨record, hsub record hmem, rfl, rfl⟩

/-- Registering a record that is present keeps the map covered. -/
theorem Covered.insertCalls (h : Covered keys records lookup)
    {record : HistoryRecord} (hmem : record ∈ records) :
    Covered keys records (insertCalls lookup (keys record) record.id) := by
  intro key id hlookup
  rw [lookup_insertCalls] at hlookup
  by_cases hkey : key ∈ keys record
  · rw [if_pos hkey] at hlookup
    exact ⟨record, hmem, by simpa using hlookup, hkey⟩
  · rw [if_neg hkey] at hlookup
    exact h key id hlookup

/-- Unregistering a record keeps the map covered by the records that are
left. -/
theorem Covered.removeCalls (h : Covered keys records lookup)
    {record : HistoryRecord} (hsub : ∀ x ∈ records, x = record ∨ x ∈ records') :
    Covered keys records' (removeCalls lookup (keys record) record.id) := by
  intro key id hlookup
  obtain ⟨hold, hne⟩ := lookup_removeCalls hlookup
  obtain ⟨x, hmem, hid, hkey⟩ := h key id hold
  rcases hsub x hmem with rfl | hmem'
  · exact absurd hid.symm (hne hkey)
  · exact ⟨x, hmem', hid, hkey⟩

end Covered

namespace HistoryState

/-- All three lookup maps are covered by the records of the history. -/
def LookupsCovered (s : HistoryState) : Prop :=
  ∀ kind, Covered (HistoryRecord.lookupKeys kind) s.records (s.lookupMap kind)

/-! ## Registration and the maps -/

theorem lookupMap_registerRecord (s : HistoryState) (record : HistoryRecord)
    (kind : LookupKind) :
    (s.registerRecord record).lookupMap kind =
      insertCalls (s.lookupMap kind) (record.lookupKeys kind) record.id := by
  cases record <;> cases kind <;> rfl

theorem lookupMap_unregisterRecord (s : HistoryState) (record : HistoryRecord)
    (kind : LookupKind) :
    (s.unregisterRecord record).lookupMap kind =
      removeCalls (s.lookupMap kind) (record.lookupKeys kind) record.id := by
  cases record <;> cases kind <;> rfl

@[simp] theorem lookupMap_withRecords (s : HistoryState)
    (records : List HistoryRecord) (kind : LookupKind) :
    (s.withRecords records).lookupMap kind = s.lookupMap kind := by
  cases kind <;> rfl

@[simp] theorem lookupMap_bumpNextId (s : HistoryState) (kind : LookupKind) :
    s.bumpNextId.lookupMap kind = s.lookupMap kind := by
  cases kind <;> rfl

@[simp] theorem lookupMap_recomputeNextId (s : HistoryState)
    (kind : LookupKind) :
    s.recomputeNextId.lookupMap kind = s.lookupMap kind := by
  cases kind <;> rfl

@[simp] theorem lookupMap_rebuildIdIndex (s : HistoryState)
    (kind : LookupKind) :
    s.rebuildIdIndex.lookupMap kind = s.lookupMap kind := by
  cases kind <;> rfl

@[simp] theorem lookupMap_storeExec (s : HistoryState) (idx : ℕ)
    (exec : ExecRecord) (kind : LookupKind) :
    (s.storeExec idx exec).lookupMap kind = s.lookupMap kind := by
  cases kind <;> rfl

theorem covered_foldl_unregister {kind : LookupKind}
    {removed records : List HistoryRecord} {s : HistoryState}
    (h : Covered (HistoryRecord.lookupKeys kind) (records ++ removed)
      (s.lookupMap kind)) :
    Covered (HistoryRecord.lookupKeys kind) records
      ((removed.foldl unregisterRecord s).lookupMap kind) := by
  induction removed generalizing s with
  | nil => simpa using h
  | cons record rest ih =>
      refine ih ?_
      rw [lookupMap_unregisterRecord]
      refine h.removeCalls fun x hx => ?_
      simp only [List.mem_append, List.mem_cons] at hx ⊢
      tauto

theorem covered_foldl_register {kind : LookupKind}
    {added records : List HistoryRecord} {s : HistoryState}
    (hsub : ∀ record ∈ added, record ∈ records)
    (h : Covered (HistoryRecord.lookupKeys kind) records (s.lookupMap kind)) :
    Covered (HistoryRecord.lookupKeys kind) records
      ((added.foldl registerRecord s).lookupMap kind) := by
  induction added generalizing s with
  | nil => exact h
  | cons record rest ih =>
      refine ih (fun x hx => hsub x (List.mem_cons_of_mem _ hx)) ?_
      rw [lookupMap_registerRecord]
      exact h.insertCalls (hsub record List.mem_cons_self)

/-- The records that `restore` leaves out carry no key. -/
theorem mem_dedupMessages {kind : LookupKind} {records : List HistoryRecord}
    {record : HistoryRecord} (hmem : record ∈ records)
    (hkeys : record.lookupKeys kind ≠ []) (seen : List String) :
    record ∈ dedupMessages seen records := by
  fun_induction dedupMessages seen records with
  | case1 => exact hmem
  | case2 seen state rest streamId hstream hseen ih =>
      rcases List.mem_cons.mp hmem with rfl | hrest
      · cases kind <;> exact absurd rfl hkeys
      · exact ih hrest
  | case3 seen state rest streamId hstream hseen ih =>
      rcases List.mem_cons.mp hmem with rfl | hrest
      · exact List.mem_cons_self
      · exact List.mem_cons_of_mem _ (ih hrest)
  | case4 seen state rest hstream ih =>
      rcases List.mem_cons.mp hmem with rfl | hrest
      · exact List.mem_cons_self
      · exact List.mem_cons_of_mem _ (ih hrest)
  | case5 seen first rest hother ih =>
      rcases List.mem_cons.mp hmem with rfl | hrest
      · exact List.mem_cons_self
      · exact List.mem_cons_of_mem _ (ih hrest)

/-! ## One lemma per edit -/

namespace LookupsCovered

variable {s : HistoryState}

theorem insertAt (h : s.LookupsCovered) {idx : ℕ}
    (hidx : idx ≤ s.records.length)
    (record : HistoryRecord) : (s.insertAt idx record).LookupsCovered := by
  intro kind
  simp only [HistoryState.insertAt, lookupMap_rebuildIdIndex,
    lookupMap_registerRecord, lookupMap_withRecords, lookupMap_bumpNextId,
    rebuildIdIndex_records, registerRecord_records, withRecords_records]
  refine Covered.insertCalls ((h kind).mono fun x hx => ?_) ?_
  · exact (List.mem_insertIdx hidx).mpr (Or.inr hx)
  · exact (List.mem_insertIdx hidx).mpr (Or.inl rfl)

theorem replaceAt (h : s.LookupsCovered) {idx : ℕ} {existing : HistoryRecord}
    (hget : s.records[idx]? = some existing) (record : HistoryRecord) :
    (s.replaceAt idx existing record).LookupsCovered := by
  intro kind
  simp only [HistoryState.replaceAt, lookupMap_rebuildIdIndex,
    lookupMap_registerRecord, lookupMap_withRecords, lookupMap_unregisterRecord,
    rebuildIdIndex_records, registerRecord_records, withRecords_records]
  obtain ⟨hlt, -⟩ := List.getElem?_eq_some_iff.mp hget
  refine Covered.insertCalls ((h kind).removeCalls fun x hx => ?_)
    (List.mem_set hlt _)
  exact mem_or_mem_set hget hx _

theorem removeAt (h : s.LookupsCovered) {idx : ℕ} {record : HistoryRecord}
    (hget : s.records[idx]? = some record) :
    (s.removeAt idx record).LookupsCovered := by
  intro kind
  simp only [HistoryState.removeAt, lookupMap_rebuildIdIndex,
    lookupMap_unregisterRecord, lookupMap_withRecords, rebuildIdIndex_records,
    unregisterRecord_records, withRecords_records]
  exact (h kind).removeCalls fun x hx => mem_or_mem_eraseIdx hget hx

theorem cutAfter (h : s.LookupsCovered) (pos : ℕ) :
    (s.cutAfter pos).LookupsCovered := by
  intro kind
  rw [cutAfter_records]
  simp only [HistoryState.cutAfter, lookupMap_rebuildIdIndex,
    lookupMap_recomputeNextId]
  refine covered_foldl_unregister ?_
  simpa using h kind

theorem clearAll (s : HistoryState) : s.clearAll.LookupsCovered := by
  intro kind
  cases kind <;> exact Covered.empty

theorem setMessage (h : s.LookupsCovered) {idx : ℕ}
    {existing : AssistantMessageState}
    (hget : s.records[idx]? = some (.assistantMessage existing))
    (state : AssistantMessageState) :
    (s.setMessage idx state).LookupsCovered := by
  intro kind
  refine Covered.map (by simpa [HistoryState.setMessage] using h kind) ?_
  intro x hx hkeys
  rcases mem_or_mem_set hget hx (.assistantMessage state) with rfl | hmem
  · cases kind <;> exact absurd rfl hkeys
  · exact ⟨x, hmem, rfl, rfl⟩

theorem storeExec (h : s.LookupsCovered) {idx : ℕ} {existing exec : ExecRecord}
    (hget : s.records[idx]? = some (.exec existing))
    (hid : exec.id = existing.id)
    (hcall : exec.callId = existing.callId) :
    (s.storeExec idx exec).LookupsCovered := by
  intro kind
  obtain ⟨hlt, -⟩ := List.getElem?_eq_some_iff.mp hget
  refine Covered.map (by simpa using h kind) ?_
  intro x hx _
  rcases mem_or_mem_set hget hx (.exec exec) with rfl | hmem
  · refine ⟨.exec exec, List.mem_set hlt _, hid, ?_⟩
    cases kind <;> simp [HistoryRecord.lookupKeys, HistoryRecord.execCallIds,
      HistoryRecord.toolCallIds, HistoryRecord.streamIds, hcall]
  · exact ⟨x, hmem, rfl, rfl⟩

theorem edit (h : s.LookupsCovered) {op : Op} {t : HistoryState}
    (hedit : Edit s op t) : t.LookupsCovered := by
  cases hedit with
  | same _ => exact h
  | insert idx record _ _ hidx => exact h.insertAt hidx record
  | replace idx existing record _ _ hget => exact h.replaceAt hget record
  | remove idx record _ hget => exact h.removeAt hget
  | cut pos _ _ => exact h.cutAfter pos
  | clear _ _ => exact clearAll s
  | message idx existing state _ hget _ => exact h.setMessage hget state
  | store idx existing exec _ hget hid hcall _ =>
      exact h.storeExec hget hid hcall
  | removeInsert idx removed record _ _ hget =>
      exact (h.removeAt hget).insertAt le_rfl record
  | removeMessage idx idx' removed existing state _ hget hget' _ =>
      exact (h.removeAt hget).setMessage hget' state

theorem enforce (h : s.LookupsCovered) {t : HistoryState}
    (henforce : s.enforceExecStreamGlobalLimit = some t) :
    t.LookupsCovered := by
  obtain ⟨records, retained, hchanged, rfl⟩ := enforce_chunksChanged henforce
  intro kind
  refine Covered.map (?_ : Covered _ s.records _) fun x hx _ => ?_
  · cases kind
    · exact h .execCall
    · exact h .toolCall
    · exact h .stream
  · obtain ⟨y, hy, hxy⟩ := exists_mem_of_forall₂ hchanged hx
    refine ⟨y, hy, hxy.id_eq, ?_⟩
    cases hxy <;> cases kind <;> rfl

theorem rebuildLookupMaps (s : HistoryState) :
    s.rebuildLookupMaps.LookupsCovered := by
  intro kind
  rw [HistoryState.rebuildLookupMaps, foldl_register_records]
  refine covered_foldl_register (fun _ h => h) ?_
  cases kind <;> exact Covered.empty

theorem restore (s : HistoryState) {t : HistoryState} (h : t.LookupsCovered) :
    (s.restore t.snapshot).LookupsCovered := by
  have hkept : LookupsCovered
      { s with
        records := dedupMessages [] t.records
        nextId := t.nextId
        execCallLookup := t.execCallLookup
        toolCallLookup := t.toolCallLookup
        streamLookup := t.streamLookup } := by
    intro kind
    refine Covered.map (?_ : Covered _ t.records _) fun x hx hkeys =>
      ⟨x, mem_dedupMessages hx hkeys [], rfl, rfl⟩
    cases kind
    · exact h .execCall
    · exact h .toolCall
    · exact h .stream
  intro kind
  simp only [HistoryState.restore]
  split
  · cases kind
    · exact rebuildLookupMaps _ .execCall
    · exact rebuildLookupMaps _ .toolCall
    · exact rebuildLookupMaps _ .stream
  · cases kind
    · exact hkept .execCall
    · exact hkept .toolCall
    · exact hkept .stream

end LookupsCovered

end HistoryState

/-! ## Every reachable history -/

/-- Every entry of the lookup maps of a reachable history points to a record
that is present and carries the key. -/
theorem lookupsCovered_of_reachable {s : HistoryState}
    (h : Reachable (fun _ _ => True) s) :
    (∀ callId id, s.execCallLookup.lookup callId = some id →
      ∃ record ∈ s.records, record.id = id ∧ callId ∈ record.execCallIds) ∧
    (∀ callId id, s.toolCallLookup.lookup callId = some id →
      ∃ record ∈ s.records, record.id = id ∧ callId ∈ record.toolCallIds) ∧
    (∀ streamId id, s.streamLookup.lookup streamId = some id →
      ∃ record ∈ s.records, record.id = id ∧ streamId ∈ record.streamIds) := by
  have hcovered : s.LookupsCovered := by
    refine HistoryState.invariant_of_edits (P := HistoryState.LookupsCovered) ?_
      (fun hs _ hedit => hs.edit hedit) (fun hs henforce => hs.enforce henforce)
      (fun {s _} _ ht => HistoryState.LookupsCovered.restore s ht) h
    intro kind
    cases kind <;> exact Covered.empty
  exact ⟨hcovered .execCall, hcovered .toolCall, hcovered .stream⟩

/-- The call identifier of a command that was just started leads to its
record. -/
theorem lookups_startExec :
    let s := (HistoryState.new.startExec
      { index := 0, callId := some "call-1", command := ["ls"], action := .run
        startedAt := 0, workingDir := none, env := [], tags := [] }).1
    ∃ record ∈ s.records, record.id = 1 ∧ "call-1" ∈ record.execCallIds :=
  (lookupsCovered_of_reachable (.step
    (a := .applyDomainEvent 0 (.startExec
      { index := 0, callId := some "call-1", command := ["ls"], action := .run
        startedAt := 0, workingDir := none, env := [], tags := [] }))
    .init trivial rfl)).1 "call-1" 1 (by decide)

end CodeRs.History
