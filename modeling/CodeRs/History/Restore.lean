import CodeRs.History.IdIndex
import CodeRs.History.Lookups
import CodeRs.History.Retained

/-!
# Restoring a snapshot

A snapshot carries the records, the next identifier and the lookup maps;
`restore` rebuilds the identifier index and the retained bytes, and the lookup
maps where all three are empty. What it rebuilds is what the operations had
kept, apart from the maps of a history that forgot the keys of its records.
-/

namespace CodeRs.History

/-! ## Messages -/

/-- At most one assistant message for a stream. -/
def MessagesDistinct (records : List HistoryRecord) : Prop :=
  ∀ streamId, (records.filter (HistoryRecord.isMessageOf streamId)).length ≤ 1

namespace HistoryState

theorem filter_dedupMessages (seen : List String) (records : List HistoryRecord)
    (streamId : String) :
    ((dedupMessages seen records).filter
      (HistoryRecord.isMessageOf streamId)).length ≤
      if streamId ∈ seen then 0 else 1 := by
  fun_induction dedupMessages seen records with
  | case1 => exact Nat.zero_le _
  | case2 seen state rest id hid hseen ih => exact ih
  | case3 seen state rest id hid hseen ih =>
      by_cases heq : id = streamId
      · subst heq
        have hmessage :
            HistoryRecord.isMessageOf id (.assistantMessage state) = true :=
          beq_iff_eq.2 hid
        rw [if_pos List.mem_cons_self] at ih
        rw [if_neg hseen, List.filter_cons_of_pos hmessage, List.length_cons]
        omega
      · have hother :
            HistoryRecord.isMessageOf streamId (.assistantMessage state) ≠
              true := by
          simp [HistoryRecord.isMessageOf, hid, heq]
        rw [List.filter_cons_of_neg hother]
        simpa [Ne.symm heq] using ih
  | case4 seen state rest hid ih =>
      have hother :
          HistoryRecord.isMessageOf streamId (.assistantMessage state) ≠
            true := by
        simp [HistoryRecord.isMessageOf, hid]
      rw [List.filter_cons_of_neg hother]
      exact ih
  | case5 seen record rest hother ih =>
      have hneg : HistoryRecord.isMessageOf streamId record ≠ true := by
        intro hmessage
        obtain ⟨state, rfl, -⟩ := HistoryRecord.isMessageOf_iff.1 hmessage
        exact hother state rfl
      rw [List.filter_cons_of_neg hneg]
      exact ih

theorem messagesDistinct_dedupMessages (records : List HistoryRecord) :
    MessagesDistinct (dedupMessages [] records) :=
  fun streamId => filter_dedupMessages [] records streamId

theorem dedupMessages_eq_self (seen : List String)
    (records : List HistoryRecord)
    (h : ∀ streamId,
      (records.filter (HistoryRecord.isMessageOf streamId)).length ≤
      if streamId ∈ seen then 0 else 1) : dedupMessages seen records =
      records := by
  fun_induction dedupMessages seen records with
  | case1 => rfl
  | case2 seen state rest id hid hseen ih =>
      have hmessage :
          HistoryRecord.isMessageOf id (.assistantMessage state) = true :=
        beq_iff_eq.2 hid
      have hnone := h id
      rw [if_pos hseen, List.filter_cons_of_pos hmessage] at hnone
      exact absurd hnone (by simp)
  | case3 seen state rest id hid hseen ih =>
      rw [ih fun streamId => ?_]
      have hone := h streamId
      by_cases heq : streamId = id
      · subst heq
        have hmessage :
            HistoryRecord.isMessageOf streamId (.assistantMessage state) =
              true :=
          beq_iff_eq.2 hid
        rw [if_neg hseen, List.filter_cons_of_pos hmessage,
          List.length_cons] at hone
        rw [if_pos List.mem_cons_self]
        omega
      · have hsub : (rest.filter (HistoryRecord.isMessageOf streamId)).length ≤
            ((HistoryRecord.assistantMessage state :: rest).filter
              (HistoryRecord.isMessageOf streamId)).length :=
          ((List.sublist_cons_self _ _).filter _).length_le
        simpa [heq] using hsub.trans hone
  | case4 seen state rest hid ih =>
      rw [ih fun streamId => ?_]
      exact (((List.sublist_cons_self _ _).filter _).length_le).trans
        (h streamId)
  | case5 seen record rest hother ih =>
      rw [ih fun streamId => ?_]
      exact (((List.sublist_cons_self _ _).filter _).length_le).trans
        (h streamId)

theorem dedupMessages_of_messagesDistinct {records : List HistoryRecord}
    (h : MessagesDistinct records) : dedupMessages [] records = records :=
  dedupMessages_eq_self [] records h

/-! ## The identifier index -/

theorem indexRecords_congr {records records' : List HistoryRecord}
    (h : records.map HistoryRecord.id = records'.map HistoryRecord.id) (k : ℕ)
    (m : Finmap fun _ : HistoryId => ℕ) :
    indexRecords records k m = indexRecords records' k m := by
  induction records generalizing records' k m with
  | nil =>
      rw [List.map_eq_nil_iff.1 h.symm]
  | cons record rest ih =>
      obtain ⟨record', rest', rfl, hid, hrest⟩ := List.map_eq_cons_iff.1 h.symm
      rw [indexRecords, indexRecords, hid, ih hrest.symm]

/-- The index is the rebuilt one, unless there are no records. -/
def IndexKept (s : HistoryState) : Prop :=
  s.records = [] ∨ s.idIndex = indexRecords s.records 0 ∅

namespace IndexKept

variable {s t : HistoryState}

theorem congr (h : s.IndexKept) (hindex : t.idIndex = s.idIndex)
    (hids : t.records.map HistoryRecord.id = s.records.map HistoryRecord.id) :
    t.IndexKept := by
  cases h with
  | inl hnil =>
      rw [hnil] at hids
      exact .inl (List.map_eq_nil_iff.1 hids)
  | inr hkept =>
      refine .inr ?_
      rw [hindex, hkept, indexRecords_congr hids]

theorem edit (h : s.IndexKept) {op : Op} (hedit : Edit s op t) :
    t.IndexKept := by
  cases hedit with
  | same _ => exact h
  | clear _ _ => exact .inl rfl
  | message idx existing state _ hget hid =>
      exact h.congr rfl (map_id_setMessage s idx hget hid)
  | store idx existing exec _ hget hid _ _ =>
      exact h.congr rfl (map_id_storeExec s idx hget hid)
  | removeMessage idx idx' removed existing state _ _ hget hid =>
      have hkept : (s.removeAt idx removed).IndexKept := .inr rfl
      exact hkept.congr rfl (map_id_setMessage _ idx' hget hid)
  | _ => exact .inr rfl

theorem enforce (h : s.IndexKept)
    (henforce : s.enforceExecStreamGlobalLimit = some t) :
    t.IndexKept := by
  obtain ⟨records, retained, hchanged, rfl⟩ := enforce_chunksChanged henforce
  exact h.congr rfl (map_id_of_chunksChanged hchanged)

end IndexKept

theorem indexKept_of_reachable {ok : HistoryState → Op → Prop}
    {s : HistoryState}
    (h : Reachable ok s) : s.IndexKept := by
  refine invariant_of_edits (P := IndexKept) (.inl rfl)
    (fun hs _ hedit => hs.edit hedit)
    IndexKept.enforce ?_ h
  intro s t _ _
  refine .inr ?_
  rw [restore_idIndex, restore_records]

end HistoryState

/-! ## The retained bytes -/

namespace ExecStreamRetained

/-- The total is a machine integer. -/
def Fits (r : ExecStreamRetained) : Prop := r.totalBytes ≤ u64Max

namespace Fits

variable {r : ExecStreamRetained}

theorem store (h : r.Fits) (id : HistoryId) (retained : ℕ) :
    (r.store id retained).Fits := by
  simp only [Fits, ExecStreamRetained.store] at h ⊢
  split
  · exact satAdd_le_max _ _
  · split
    · exact (Nat.sub_le _ _).trans h
    · exact h

theorem set (h : r.Fits) (id : HistoryId) (retained : ℕ) :
    (r.set id retained).Fits := by
  rw [ExecStreamRetained.set]
  split
  · exact h
  · exact h.store id retained

theorem remove (h : r.Fits) (id : HistoryId) : (r.remove id).Fits := by
  rw [ExecStreamRetained.remove]
  split
  · exact h
  · cases r.byId.lookup id with
    | none => exact h
    | some prev => exact (Nat.sub_le _ _).trans h

theorem register (h : r.Fits) (record : HistoryRecord) :
    (r.register record).Fits := by
  cases record with
  | exec exec => exact h.set _ _
  | _ => exact h

theorem unregister (h : r.Fits) (record : HistoryRecord) :
    (r.unregister record).Fits := by
  cases record with
  | exec exec => exact h.remove _
  | _ => exact h

theorem foldl_unregister (h : r.Fits) (records : List HistoryRecord) :
    (records.foldl ExecStreamRetained.unregister r).Fits := by
  induction records generalizing r with
  | nil => exact h
  | cons record rest ih => exact ih (h.unregister record)

theorem foldl_addRecord (h : r.Fits) (records : List HistoryRecord) :
    (records.foldl ExecStreamRetained.addRecord r).Fits := by
  induction records generalizing r with
  | nil => exact h
  | cons record rest ih =>
      refine ih ?_
      cases record with
      | exec exec =>
          rw [addRecord]
          split
          · exact h
          · exact satAdd_le_max _ _
      | _ => exact h

theorem enforceLoop (h : r.Fits) {records records' : List HistoryRecord}
    {bytesToDrop : ℕ}
    {r' : ExecStreamRetained}
    (hloop : HistoryState.enforceLoop records bytesToDrop r =
      some (records', r')) :
    r'.Fits := by
  induction records generalizing bytesToDrop r records' with
  | nil =>
      simp only [HistoryState.enforceLoop, Option.some.injEq,
        Prod.mk.injEq] at hloop
      exact hloop.2 ▸ h
  | cons record rest ih =>
      rcases HistoryState.enforceLoop_cons hloop with
        ⟨_, _, rfl⟩ | ⟨_, _, rest', hrest, _⟩ |
        ⟨_, exec, _, _, rest', _, _, _, _, hrest, _⟩
      · exact h
      · exact ih h hrest
      · exact ih (h.store _ _) hrest

end Fits

theorem foldl_addRecord_congr {r r' : ExecStreamRetained}
    (hbyId : r.byId = r'.byId)
    (htotal : r.totalBytes = r'.totalBytes) (records : List HistoryRecord) :
    (records.foldl addRecord r).byId = (records.foldl addRecord r').byId ∧
      (records.foldl addRecord r).totalBytes =
        (records.foldl addRecord r').totalBytes := by
  induction records generalizing r r' with
  | nil => exact ⟨hbyId, htotal⟩
  | cons record rest ih =>
      apply ih
      · cases record with
        | exec exec =>
            rw [addRecord, addRecord]
            split
            · exact hbyId
            · simp only [hbyId]
        | _ => exact hbyId
      · cases record with
        | exec exec =>
            rw [addRecord, addRecord]
            split
            · exact htotal
            · simp only [htotal]
        | _ => exact htotal

theorem rebuild_congr (r r' : ExecStreamRetained)
    (records : List HistoryRecord) :
    (r.rebuild records).byId = (r'.rebuild records).byId ∧
      (r.rebuild records).totalBytes = (r'.rebuild records).totalBytes := by
  have hbyId : r.clear.byId = r'.clear.byId := rfl
  exact foldl_addRecord_congr hbyId rfl records

/-- The total that is rebuilt is the sum over the records, up to the greatest
machine integer. -/
theorem totalBytes_foldl_addRecord {r : ExecStreamRetained} (h : r.Fits)
    {records : List HistoryRecord}
    (hzero : ∀ record ∈ records, record.id ≠ HistoryId.zero) :
    (records.foldl addRecord r).totalBytes =
      min (r.totalBytes + execRetainedBytes records) u64Max := by
  induction records generalizing r with
  | nil => exact (min_eq_left h).symm
  | cons record rest ih =>
      have hrest := fun x hx => hzero x (List.mem_cons_of_mem record hx)
      rw [List.foldl_cons]
      cases record with
      | exec exec =>
          have hsum : execRetainedBytes (.exec exec :: rest) =
              retainedExecRecordBytes exec + execRetainedBytes rest := by
            simp [execRetainedBytes, execRecords, HistoryRecord.asExec]
          have hid : exec.id ≠ HistoryId.zero := hzero _ List.mem_cons_self
          have hadd : (r.addRecord (.exec exec)).totalBytes =
              satAdd r.totalBytes (retainedExecRecordBytes exec) := by
            rw [addRecord, if_neg hid]
          have hfits : (r.addRecord (.exec exec)).Fits := by
            rw [Fits, hadd]
            exact satAdd_le_max _ _
          rw [ih hfits hrest, hadd, hsum, satAdd]
          omega
      | _ => exact ih h hrest

end ExecStreamRetained

namespace HistoryState

/-- The running total is a machine integer. -/
def TotalFits (s : HistoryState) : Prop := s.retained.Fits

namespace TotalFits

variable {s t : HistoryState}

theorem insertAt (h : s.TotalFits) (idx : ℕ) (record : HistoryRecord) :
    (s.insertAt idx record).TotalFits := by
  rw [TotalFits, insertAt_retained]
  exact ExecStreamRetained.Fits.register h _

theorem removeAt (h : s.TotalFits) (idx : ℕ) (record : HistoryRecord) :
    (s.removeAt idx record).TotalFits := by
  rw [TotalFits, removeAt_retained]
  exact ExecStreamRetained.Fits.unregister h _

theorem edit (h : s.TotalFits) {op : Op} (hedit : Edit s op t) :
    t.TotalFits := by
  cases hedit with
  | same _ => exact h
  | insert idx record _ _ _ => exact h.insertAt idx record
  | replace idx existing record _ _ _ =>
      rw [TotalFits, replaceAt_retained]
      exact (ExecStreamRetained.Fits.unregister h _).register _
  | remove idx record _ _ => exact h.removeAt idx record
  | cut pos _ _ =>
      rw [TotalFits, cutAfter_retained]
      exact ExecStreamRetained.Fits.foldl_unregister h _
  | clear _ _ => exact Nat.zero_le _
  | message _ _ _ _ _ _ => exact h
  | store idx existing exec _ _ _ _ _ => exact ExecStreamRetained.Fits.set h _ _
  | removeInsert idx removed record _ _ _ =>
      exact (h.removeAt idx removed).insertAt _ record
  | removeMessage idx _ removed _ _ _ _ _ _ =>
      have hremoved := h.removeAt idx removed
      exact hremoved

theorem enforce (h : s.TotalFits)
    (henforce : s.enforceExecStreamGlobalLimit = some t) :
    t.TotalFits := by
  rcases enforce_cases henforce with
    ⟨_, rfl⟩ | ⟨_, records, retained, hloop, rfl⟩
  · exact h
  · exact ExecStreamRetained.Fits.enforceLoop h hloop

end TotalFits

theorem restore_retained (s : HistoryState) (snapshot : HistorySnapshot) :
    ∃ r : ExecStreamRetained,
      (s.restore snapshot).retained =
        r.rebuild (dedupMessages [] snapshot.records) := by
  simp only [restore]
  split <;> exact ⟨_, congrArg _ (by simp [rebuildLookupMaps])⟩

theorem totalFits_of_reachable {ok : HistoryState → Op → Prop}
    {s : HistoryState}
    (h : Reachable ok s) : s.TotalFits := by
  refine invariant_of_edits (P := TotalFits) (Nat.zero_le _)
    (fun hs _ hedit => hs.edit hedit)
    TotalFits.enforce ?_ h
  intro s t _ _
  obtain ⟨r, hr⟩ := restore_retained s t.snapshot
  rw [TotalFits, hr]
  have hclear : r.clear.Fits := Nat.zero_le _
  exact hclear.foldl_addRecord _

end HistoryState

/-! ## The lookup maps -/

/-- The entries of some records in a lookup map, the later ones over the
earlier. -/
def registeredKeys (records : List HistoryRecord)
    (kind : LookupKind) : LookupMap :=
  records.foldl (fun m record =>
    insertCalls m (record.lookupKeys kind) record.id) ∅

theorem lookup_foldl_insertCalls_ne_none {kind : LookupKind}
    {records : List HistoryRecord}
    {m : LookupMap} {key : String}
    (h : m.lookup key ≠ none ∨ ∃ record ∈ records,
      key ∈ record.lookupKeys kind) :
    (records.foldl (fun m record =>
      insertCalls m (record.lookupKeys kind) record.id)
      m).lookup key ≠ none := by
  induction records generalizing m with
  | nil =>
      cases h with
      | inl hm => exact hm
      | inr hkey => simp at hkey
  | cons record rest ih =>
      refine ih ?_
      rw [lookup_insertCalls]
      by_cases hkey : key ∈ record.lookupKeys kind
      · exact .inl (by simp [hkey])
      · rw [if_neg hkey]
        refine h.imp_right ?_
        rintro ⟨other, hother, hmem⟩
        rcases List.mem_cons.1 hother with rfl | hrest
        · exact absurd hmem hkey
        · exact ⟨other, hrest, hmem⟩

/-- No entry is made exactly if no record carries a key. -/
theorem registeredKeys_eq_empty_iff (records : List HistoryRecord)
    (kind : LookupKind) :
    registeredKeys records kind = ∅ ↔
      ∀ record ∈ records, record.lookupKeys kind = [] := by
  constructor
  · intro hempty record hrecord
    cases hkeys : record.lookupKeys kind with
    | nil => rfl
    | cons key rest =>
        have hmem : key ∈ record.lookupKeys kind := hkeys ▸ List.mem_cons_self
        have hlookup : (registeredKeys records kind).lookup key ≠ none :=
          lookup_foldl_insertCalls_ne_none (.inr ⟨record, hrecord, hmem⟩)
        rw [hempty, Finmap.lookup_empty] at hlookup
        exact absurd rfl hlookup
  · intro hnone
    rw [registeredKeys]
    induction records with
    | nil => rfl
    | cons record rest ih =>
        rw [List.foldl_cons, hnone record List.mem_cons_self]
        exact ih fun x hx => hnone x (List.mem_cons_of_mem record hx)

namespace HistoryState

/-- All three lookup maps are empty. -/
def NoLookups (s : HistoryState) : Prop := ∀ kind, s.lookupMap kind = ∅

/-- No record carries a key of a lookup map. -/
def Keyless (records : List HistoryRecord) : Prop :=
  ∀ record ∈ records, ∀ kind, record.lookupKeys kind = []

theorem noLookups_iff {s : HistoryState} : s.NoLookups ↔
    s.execCallLookup = ∅ ∧ s.toolCallLookup = ∅ ∧ s.streamLookup = ∅ := by
  constructor
  · exact fun h => ⟨h .execCall, h .toolCall, h .stream⟩
  · rintro ⟨hexec, htool, hstream⟩ kind
    cases kind
    · exact hexec
    · exact htool
    · exact hstream

theorem lookupMap_foldl_registerRecord (s : HistoryState)
    (records : List HistoryRecord)
    (kind : LookupKind) :
    (records.foldl registerRecord s).lookupMap kind =
      records.foldl (fun m record =>
        insertCalls m (record.lookupKeys kind) record.id)
        (s.lookupMap kind) := by
  induction records generalizing s with
  | nil => rfl
  | cons record rest ih =>
      rw [List.foldl_cons, ih, lookupMap_registerRecord, List.foldl_cons]

/-- The maps are copied, and rebuilt where all three are empty. -/
theorem restore_lookupMap_of_noLookups (s : HistoryState) {t : HistoryState}
    (h : t.NoLookups)
    (kind : LookupKind) :
    (s.restore t.snapshot).lookupMap kind =
      registeredKeys (dedupMessages [] t.records) kind := by
  have hempty : t.snapshot.execCallLookup = ∅ ∧ t.snapshot.toolCallLookup = ∅ ∧
      t.snapshot.streamLookup = ∅ := noLookups_iff.1 h
  simp only [restore, if_pos hempty]
  have hrebuild (u : HistoryState) :
      u.rebuildLookupMaps.lookupMap kind = registeredKeys u.records kind := by
    rw [rebuildLookupMaps, lookupMap_foldl_registerRecord, registeredKeys]
    cases kind <;> rfl
  cases kind <;> exact hrebuild _

theorem restore_lookupMap_of_not (s : HistoryState) {t : HistoryState}
    (h : ¬ t.NoLookups)
    (kind : LookupKind) :
    (s.restore t.snapshot).lookupMap kind = t.lookupMap kind := by
  have hempty :
      ¬ (t.snapshot.execCallLookup = ∅ ∧ t.snapshot.toolCallLookup = ∅ ∧
      t.snapshot.streamLookup = ∅) := fun hall => h (noLookups_iff.2 hall)
  simp only [restore, if_neg hempty]
  cases kind <;> rfl

/-! ## A restored history -/

/-- Two histories have the same contents. -/
structure SameContents (s t : HistoryState) : Prop where
  records : s.records = t.records
  nextId : s.nextId = t.nextId
  lookupMap : ∀ kind, s.lookupMap kind = t.lookupMap kind
  idIndex : s.idIndex = t.idIndex
  byId : s.retained.byId = t.retained.byId
  totalBytes : s.retained.totalBytes = t.retained.totalBytes

theorem sameContents_restore_again (s t : HistoryState)
    (snapshot : HistorySnapshot) :
    SameContents (t.restore (s.restore snapshot).snapshot)
      (s.restore snapshot) := by
  have hrecords : dedupMessages [] (s.restore snapshot).records =
      (s.restore snapshot).records := by
    rw [restore_records]
    exact dedupMessages_of_messagesDistinct (messagesDistinct_dedupMessages _)
  obtain ⟨r, hr⟩ := restore_retained s snapshot
  obtain ⟨r', hr'⟩ := restore_retained t (s.restore snapshot).snapshot
  have hretained : (t.restore (s.restore snapshot).snapshot).retained =
      r'.rebuild (dedupMessages [] snapshot.records) := by
    rw [hr', ← restore_records s snapshot]
    exact congrArg _ hrecords
  obtain ⟨hbyId, htotal⟩ := ExecStreamRetained.rebuild_congr r' r
    (dedupMessages [] snapshot.records)
  constructor
  case records => exact (restore_records _ _).trans hrecords
  case nextId => exact restore_nextId _ _
  case lookupMap =>
    -- A snapshot has the contents of some history.
    let u : HistoryState :=
      { s with
        records := snapshot.records
        nextId := snapshot.nextId
        execCallLookup := snapshot.execCallLookup
        toolCallLookup := snapshot.toolCallLookup
        streamLookup := snapshot.streamLookup }
    have hu : u.snapshot = snapshot := rfl
    intro kind
    by_cases hnone : (s.restore snapshot).NoLookups
    · have hsnapshot : u.NoLookups := by
        by_contra hsome
        exact hsome fun kind =>
          (restore_lookupMap_of_not s hsome kind).symm.trans (hnone kind)
      have hfirst := restore_lookupMap_of_noLookups s hsnapshot kind
      rw [hu] at hfirst
      rw [restore_lookupMap_of_noLookups t hnone, hfirst, hrecords,
        restore_records]
    · exact restore_lookupMap_of_not t hnone kind
  case idIndex =>
    rw [restore_idIndex, restore_idIndex, ← restore_records s snapshot]
    exact congrArg (indexRecords · 0 ∅) hrecords
  case byId => rw [hretained, hr, hbyId]
  case totalBytes => rw [hretained, hr, htotal]

/-- The maps of a history are restored unless it forgot the keys of its
records. -/
theorem restore_lookupMap_iff {s : HistoryState}
    (h : MessagesDistinct s.records)
    (t : HistoryState) :
    (∀ kind, (t.restore s.snapshot).lookupMap kind = s.lookupMap kind) ↔
      (s.NoLookups → Keyless s.records) := by
  by_cases hnone : s.NoLookups
  · have hmaps : ∀ kind, (t.restore s.snapshot).lookupMap kind =
        registeredKeys s.records kind := by
      intro kind
      rw [restore_lookupMap_of_noLookups t hnone,
        dedupMessages_of_messagesDistinct h]
    constructor
    · intro hsame _ record hrecord kind
      have hempty : registeredKeys s.records kind = ∅ :=
        (hmaps kind).symm.trans ((hsame kind).trans (hnone kind))
      exact (registeredKeys_eq_empty_iff _ _).1 hempty record hrecord
    · intro hkeyless kind
      rw [hmaps, hnone kind, registeredKeys_eq_empty_iff]
      exact fun record hrecord => hkeyless hnone record hrecord kind
  · exact ⟨fun _ hall => absurd hall hnone,
      fun _ kind => restore_lookupMap_of_not t hnone kind⟩

/-- A reachable history with distinct messages is restored from its snapshot,
its lookup maps unless all three are empty although a record carries a key, and
its total unless an addition to it stopped at the greatest machine integer; and
restoring again changes nothing. -/
theorem restore_snapshot {s : HistoryState} (h : Reachable IssuesBelowMax s)
    (hmessages : MessagesDistinct s.records) (t : HistoryState) :
    ((t.restore s.snapshot).records = s.records ∧
      (t.restore s.snapshot).nextId = s.nextId ∧
      ((∀ kind, (t.restore s.snapshot).lookupMap kind = s.lookupMap kind) ↔
        (s.NoLookups → Keyless s.records)) ∧
      ((s.records = [] → s.idIndex = ∅) →
        (t.restore s.snapshot).idIndex = s.idIndex) ∧
      (t.restore s.snapshot).retained.byId = s.retained.byId ∧
      (s.retained.additionSaturated = false →
        (t.restore s.snapshot).retained.totalBytes = s.retained.totalBytes)) ∧
    ∀ (u v : HistoryState) (snapshot : HistorySnapshot),
      SameContents (v.restore (u.restore snapshot).snapshot)
        (u.restore snapshot) := by
  obtain ⟨hids, hretained⟩ := retainedExact_of_reachable h
  have hrecords : dedupMessages [] s.records = s.records :=
    dedupMessages_of_messagesDistinct hmessages
  have hzero : ∀ record ∈ s.records, record.id ≠ HistoryId.zero :=
    fun record hrecord => hids.id_ne_zero hrecord
  obtain ⟨r, hr⟩ := restore_retained t s.snapshot
  have hrebuilt : (t.restore s.snapshot).retained = r.rebuild s.records :=
    hr.trans (congrArg _ hrecords)
  refine ⟨⟨?_, restore_nextId _ _, restore_lookupMap_iff hmessages t,
    fun hempty => ?_, ?_, ?_⟩,
    fun u v snapshot => sameContents_restore_again u v snapshot⟩
  · exact (restore_records _ _).trans hrecords
  · have hindex : (t.restore s.snapshot).idIndex = indexRecords s.records 0 ∅ :=
      (restore_idIndex _ _).trans (congrArg (indexRecords · 0 ∅) hrecords)
    rw [hindex]
    cases indexKept_of_reachable h with
    | inl hnil => rw [hempty hnil, hnil, indexRecords]
    | inr hkept => exact hkept.symm
  · have hempty :
        RetainedOk s.records (ExecStreamRetained.empty.rebuild s.records) := by
      refine RetainedOk.foldl_addRecord ?_ hzero
        (⟨Tracks.nil, fun _ => ⟨sumValues_empty.symm, rfl⟩⟩ :
          RetainedOk [] ExecStreamRetained.empty.clear)
      simpa using hids.nodup
    rw [hrebuilt, (ExecStreamRetained.rebuild_congr r .empty _).1]
    refine Finmap.ext_lookup fun id => Option.ext fun n => ?_
    rw [hempty.tracks id n, hretained.tracks id n]
  · intro hflag
    have hclear : r.clear.Fits := Nat.zero_le _
    have htotal : s.retained.totalBytes = execRetainedBytes s.records :=
      (hretained.balanced hflag).1.trans
        (hretained.tracks.sumValues_eq hids.nodup)
    have hfits : s.retained.totalBytes ≤ u64Max := totalFits_of_reachable h
    rw [hrebuilt, ExecStreamRetained.rebuild,
      ExecStreamRetained.totalBytes_foldl_addRecord hclear hzero, htotal]
    have hzeroTotal : r.clear.totalBytes = 0 := rfl
    rw [hzeroTotal, Nat.zero_add]
    exact min_eq_left (htotal ▸ hfits)

/-- A history of two commands, the first of which was removed, restored into an
empty one. -/
theorem restore_snapshot_push :
    (HistoryState.new.restore removedFirst.snapshot).records =
      removedFirst.records ∧
      (HistoryState.new.restore removedFirst.snapshot).idIndex =
        removedFirst.idIndex ∧
      (HistoryState.new.restore removedFirst.snapshot).retained.byId =
        removedFirst.retained.byId ∧
      (∀ kind, (HistoryState.new.restore removedFirst.snapshot).lookupMap kind =
        removedFirst.lookupMap kind) ∧
      removedFirst.historyIdForExecCall "call" = some 2 := by
  have hmessages : MessagesDistinct removedFirst.records :=
    fun _ => Nat.zero_le 1
  have hcall : removedFirst.historyIdForExecCall "call" = some 2 := by decide
  obtain ⟨⟨hrecords, -, hlookups, hindex, hbyId, -⟩, -⟩ :=
    restore_snapshot reachable_removedFirst hmessages HistoryState.new
  refine ⟨hrecords, hindex fun h => absurd h (List.cons_ne_nil _ _), hbyId,
    hlookups.2 fun hnone => ?_, hcall⟩
  have hempty : removedFirst.execCallLookup = ∅ := hnone .execCall
  rw [historyIdForExecCall, hempty] at hcall
  cases hcall

/-- A command with a call identifier. -/
def calledRecord : ExecRecord :=
  { printedRecord [] [] with callId := some "call" }

/-- Of two commands with the same call identifier the later one was removed:
the history has no entry for the identifier, and the restored one has. -/
theorem restore_remembers_call :
    let s :=
      (((HistoryState.new.push (.exec calledRecord)).push
        (.exec calledRecord)).remove 1).1
    Reachable (fun _ _ => True) s ∧ MessagesDistinct s.records ∧
      s.historyIdForExecCall "call" = none ∧
      (HistoryState.new.restore s.snapshot).historyIdForExecCall "call" =
        some 1 ∧
      (HistoryState.new.restore s.snapshot).execCallLookup ≠
        s.execCallLookup := by
  have hbefore : (((HistoryState.new.push (.exec calledRecord)).push
      (.exec calledRecord)).remove 1).1.historyIdForExecCall "call" =
      none := by decide
  have hafter :
      (HistoryState.new.restore
        (((HistoryState.new.push (.exec calledRecord)).push
      (.exec calledRecord)).remove 1).1.snapshot).historyIdForExecCall "call" =
      some 1 := by
    decide
  refine ⟨.step (a := .remove 1)
    (.step (a := .push _) (.step (a := .push _) .init trivial rfl)
    trivial rfl) trivial rfl, fun _ => Nat.zero_le 1, hbefore, hafter,
      fun hsame => ?_⟩
  have hlookup := congrArg (fun m : LookupMap => m.lookup "call") hsame
  cases hafter.symm.trans (hlookup.trans hbefore)

end HistoryState

end CodeRs.History
