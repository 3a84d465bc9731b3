import CodeRs.History.IdIndex
import CodeRs.Lib.PartialMap

/-!
# The retained-byte bookkeeping

The map of retained bytes holds exactly the value of every exec record, and the
running total is the sum of these values, unless an addition to the total
stopped at the largest machine integer.  Every change of the bookkeeping is
registering, unregistering or overwriting one record of a list whose identifiers
are distinct.
-/

namespace CodeRs.History

namespace ExecStreamRetained

/-- The bookkeeping after `register_record`. -/
def register (r : ExecStreamRetained) : HistoryRecord → ExecStreamRetained
  | .exec exec => r.set exec.id (retainedExecRecordBytes exec)
  | _ => r

/-- The bookkeeping after `unregister_record`. -/
def unregister (r : ExecStreamRetained) : HistoryRecord → ExecStreamRetained
  | .exec exec => r.remove exec.id
  | _ => r

/-! ## The total and the map -/

/-- Unless an addition stopped short, the total is the sum of the values of the
map, and then no subtraction stopped short either. -/
def Balanced (r : ExecStreamRetained) : Prop :=
  r.additionSaturated = false →
    r.totalBytes = sumValues r.byId ∧ r.subtractionSaturated = false

namespace Balanced

variable {r : ExecStreamRetained}

theorem store (h : r.Balanced) (id : HistoryId) (retained : ℕ) :
    (r.store id retained).Balanced := by
  intro hflag
  simp only [ExecStreamRetained.store, Bool.or_eq_false_iff,
    decide_eq_false_iff_not, not_lt] at hflag ⊢
  obtain ⟨hbefore, hfits⟩ := hflag
  obtain ⟨htotal, hsub⟩ := h hbefore
  have hprev := lookup_le_sumValues r.byId id
  have hsum := sumValues_insert r.byId id retained
  refine ⟨?_, hsub, by omega⟩
  split
  · rw [satAdd_eq hfits]
    omega
  · split <;> omega

theorem set (h : r.Balanced) (id : HistoryId) (retained : ℕ) :
    (r.set id retained).Balanced := by
  rw [ExecStreamRetained.set]
  split
  · exact h
  · exact h.store id retained

theorem remove (h : r.Balanced) (id : HistoryId) : (r.remove id).Balanced := by
  rw [ExecStreamRetained.remove]
  split
  · exact h
  · cases hlookup : r.byId.lookup id with
    | none => exact h
    | some prev =>
        intro hflag
        obtain ⟨htotal, hsub⟩ := h hflag
        have hsum := sumValues_erase r.byId id
        rw [hlookup, Option.getD_some] at hsum
        simp only [Bool.or_eq_false_iff, decide_eq_false_iff_not, not_lt]
        exact ⟨by omega, hsub, by omega⟩

theorem clear (h : r.Balanced) : r.clear.Balanced := fun hflag =>
  ⟨sumValues_empty.symm, (h hflag).2⟩

theorem register (h : r.Balanced) (record : HistoryRecord) :
    (r.register record).Balanced := by
  cases record with
  | exec exec => exact h.set _ _
  | _ => exact h

theorem unregister (h : r.Balanced) (record : HistoryRecord) :
    (r.unregister record).Balanced := by
  cases record with
  | exec exec => exact h.remove _
  | _ => exact h

theorem addRecord (h : r.Balanced) {record : HistoryRecord}
    (hnew : r.byId.lookup record.id = none) :
    (r.addRecord record).Balanced := by
  cases record with
  | exec exec =>
      rw [ExecStreamRetained.addRecord]
      split
      · exact h
      · intro hflag
        simp only [Bool.or_eq_false_iff, decide_eq_false_iff_not,
          not_lt] at hflag
        obtain ⟨htotal, hsub⟩ := h hflag.1
        have hsum :=
          sumValues_insert r.byId exec.id (retainedExecRecordBytes exec)
        have hnone : r.byId.lookup exec.id = none := hnew
        rw [hnone, Option.getD_none] at hsum
        refine ⟨?_, hsub⟩
        calc satAdd r.totalBytes (retainedExecRecordBytes exec)
            = r.totalBytes + retainedExecRecordBytes exec := satAdd_eq hflag.2
          _ =
            sumValues
              (r.byId.insert exec.id (retainedExecRecordBytes exec)) := by
              omega
  | _ => exact h

end Balanced

end ExecStreamRetained

/-! ## The map and the records -/

/-- The map holds exactly the retained bytes of the exec records. -/
def Tracks (records : List HistoryRecord)
    (byId : Finmap fun _ : HistoryId => ℕ) : Prop :=
  ∀ id n, byId.lookup id = some n ↔
    ∃ exec, .exec exec ∈ records ∧ exec.id = id ∧
      retainedExecRecordBytes exec = n

namespace Tracks

variable {records records' : List HistoryRecord}
variable {byId : Finmap fun _ : HistoryId => ℕ}

theorem nil : Tracks [] ∅ := by
  intro id n
  simp

theorem perm (h : Tracks records byId) (hperm : records.Perm records') :
    Tracks records' byId := by
  intro id n
  simp only [h id n, hperm.mem_iff]

theorem cons_iff {record : HistoryRecord}
    (hrecord : ∀ exec, record ≠ .exec exec) :
    Tracks (record :: records) byId ↔ Tracks records byId := by
  have hmem (exec : ExecRecord) :
      HistoryRecord.exec exec ∈ record :: records ↔ .exec exec ∈ records := by
    rw [List.mem_cons]
    exact or_iff_right (hrecord exec).symm
  simp only [Tracks, hmem]

theorem lookup_eq_none (h : Tracks records byId) {id : HistoryId}
    (hid : id ∉ records.map HistoryRecord.id) : byId.lookup id = none := by
  cases hlookup : byId.lookup id with
  | none => rfl
  | some n =>
      obtain ⟨exec, hmem, rfl, -⟩ := (h id n).mp hlookup
      exact absurd (List.mem_map_of_mem (f := HistoryRecord.id) hmem) hid

theorem insert (h : Tracks records byId) (exec : ExecRecord)
    (hid : exec.id ∉ records.map HistoryRecord.id) :
    Tracks (.exec exec :: records)
      (byId.insert exec.id (retainedExecRecordBytes exec)) := by
  intro id n
  by_cases hne : id = exec.id
  · subst hne
    rw [Finmap.lookup_insert, Option.some.injEq]
    constructor
    · intro hn
      exact ⟨exec, List.mem_cons_self, rfl, hn⟩
    · rintro ⟨exec', hmem, hid', hn⟩
      rcases List.mem_cons.mp hmem with heq | hrest
      · exact HistoryRecord.exec.inj heq ▸ hn
      · exact absurd (hid' ▸
          List.mem_map_of_mem (f := HistoryRecord.id) hrest) hid
  · rw [Finmap.lookup_insert_of_ne _ hne, h id n]
    constructor
    · rintro ⟨exec', hmem, hid', hn⟩
      exact ⟨exec', List.mem_cons_of_mem _ hmem, hid', hn⟩
    · rintro ⟨exec', hmem, hid', hn⟩
      rcases List.mem_cons.mp hmem with heq | hrest
      · exact absurd (HistoryRecord.exec.inj heq ▸ hid'.symm) hne
      · exact ⟨exec', hrest, hid', hn⟩

theorem erase {exec : ExecRecord} (h : Tracks (.exec exec :: records) byId)
    (hid : exec.id ∉ records.map HistoryRecord.id) :
    Tracks records (byId.erase exec.id) := by
  intro id n
  by_cases hne : id = exec.id
  · subst hne
    rw [Finmap.lookup_erase]
    constructor
    · intro hn
      cases hn
    · rintro ⟨exec', hmem, hid', -⟩
      exact absurd (hid' ▸ List.mem_map_of_mem (f := HistoryRecord.id) hmem) hid
  · rw [Finmap.lookup_erase_ne hne, h id n]
    constructor
    · rintro ⟨exec', hmem, hid', hn⟩
      rcases List.mem_cons.mp hmem with heq | hrest
      · exact absurd (HistoryRecord.exec.inj heq ▸ hid'.symm) hne
      · exact ⟨exec', hrest, hid', hn⟩
    · rintro ⟨exec', hmem, hid', hn⟩
      exact ⟨exec', List.mem_cons_of_mem _ hmem, hid', hn⟩

theorem update {old new : ExecRecord} (h : Tracks (.exec old :: records) byId)
    (hid : old.id ∉ records.map HistoryRecord.id) (hnew : new.id = old.id) :
    Tracks (.exec new :: records)
      (byId.insert new.id (retainedExecRecordBytes new)) := by
  have hinsert := (h.erase hid).insert new (hnew ▸ hid)
  intro id n
  rw [← hinsert id n]
  by_cases hne : id = new.id
  · subst hne
    rw [Finmap.lookup_insert, Finmap.lookup_insert]
  · rw [Finmap.lookup_insert_of_ne _ hne, Finmap.lookup_insert_of_ne _ hne,
      Finmap.lookup_erase_ne (hnew ▸ hne)]

end Tracks

/-! ## One record at a time -/

/-- The bookkeeping `r` is right for `records`. -/
structure RetainedOk (records : List HistoryRecord) (r : ExecStreamRetained) :
    Prop where
  tracks : Tracks records r.byId
  balanced : r.Balanced

namespace RetainedOk

variable {records records' : List HistoryRecord} {r : ExecStreamRetained}
variable {record : HistoryRecord}

theorem perm (h : RetainedOk records r) (hperm : records.Perm records') :
    RetainedOk records' r :=
  ⟨h.tracks.perm hperm, h.balanced⟩

theorem register (h : RetainedOk records r) (hzero : record.id ≠ HistoryId.zero)
    (hid : record.id ∉ records.map HistoryRecord.id) :
    RetainedOk (record :: records) (r.register record) := by
  refine ⟨?_, h.balanced.register record⟩
  cases record with
  | exec exec =>
      have hne : exec.id ≠ HistoryId.zero := hzero
      rw [ExecStreamRetained.register, ExecStreamRetained.set, if_neg hne]
      exact h.tracks.insert exec hid
  | _ => exact (Tracks.cons_iff (by simp)).mpr h.tracks

theorem unregister (h : RetainedOk (record :: records) r)
    (hzero : record.id ≠ HistoryId.zero)
    (hid : record.id ∉ records.map HistoryRecord.id) :
    RetainedOk records (r.unregister record) := by
  refine ⟨?_, h.balanced.unregister record⟩
  cases record with
  | exec exec =>
      have hlookup := (h.tracks exec.id (retainedExecRecordBytes exec)).mpr
        ⟨exec, List.mem_cons_self, rfl, rfl⟩
      have hne : exec.id ≠ HistoryId.zero := hzero
      rw [ExecStreamRetained.unregister, ExecStreamRetained.remove, if_neg hne,
        hlookup]
      exact h.tracks.erase hid
  | _ => exact (Tracks.cons_iff (by simp)).mp h.tracks

theorem store {old : ExecRecord} (h : RetainedOk (.exec old :: records) r)
    (new : ExecRecord) (hid : old.id ∉ records.map HistoryRecord.id)
    (hnew : new.id = old.id) :
    RetainedOk (.exec new :: records)
      (r.store new.id (retainedExecRecordBytes new)) :=
  ⟨h.tracks.update hid hnew, h.balanced.store _ _⟩

theorem addRecord (h : RetainedOk records r)
    (hzero : record.id ≠ HistoryId.zero)
    (hid : record.id ∉ records.map HistoryRecord.id) :
    RetainedOk (record :: records) (r.addRecord record) := by
  refine ⟨?_, h.balanced.addRecord (h.tracks.lookup_eq_none hid)⟩
  cases record with
  | exec exec =>
      have hne : exec.id ≠ HistoryId.zero := hzero
      rw [ExecStreamRetained.addRecord, if_neg hne]
      exact h.tracks.insert exec hid
  | _ => exact (Tracks.cons_iff (by simp)).mpr h.tracks

/-! ### Runs of one-record changes -/

/-- The invariant of a loop over `rest` that has treated `seen`: distinct
identifiers split at the record treated next. -/
theorem split_ids {seen rest : List HistoryRecord}
    (hnodup : ((seen ++ record :: rest).map HistoryRecord.id).Nodup) :
    record.id ∉ (seen ++ rest).map HistoryRecord.id ∧
      ((record :: (seen ++ rest)).map HistoryRecord.id).Nodup := by
  have hperm : (seen ++ record :: rest).Perm (record :: (seen ++ rest)) :=
    List.perm_middle
  have hcons := (hperm.map HistoryRecord.id).nodup_iff.mp hnodup
  exact ⟨(List.nodup_cons.mp hcons).1, hcons⟩

theorem foldl_addRecord {seen rest : List HistoryRecord}
    (hnodup : ((seen ++ rest).map HistoryRecord.id).Nodup)
    (hzero : ∀ record ∈ rest, record.id ≠ HistoryId.zero)
    (h : RetainedOk seen r) :
    RetainedOk (seen ++ rest) (rest.foldl ExecStreamRetained.addRecord r) := by
  induction rest generalizing seen r with
  | nil => simpa using h
  | cons record rest ih =>
      have hid : record.id ∉ seen.map HistoryRecord.id := by
        have hnot := (split_ids hnodup).1
        rw [List.map_append, List.mem_append, not_or] at hnot
        exact hnot.1
      have hadd := (h.addRecord (hzero record List.mem_cons_self) hid).perm
        (List.perm_append_singleton record seen).symm
      have hrest : RetainedOk (seen ++ [record] ++ rest)
          (rest.foldl ExecStreamRetained.addRecord (r.addRecord record)) :=
        ih (by simpa using hnodup)
          (fun x hx => hzero x (List.mem_cons_of_mem _ hx)) hadd
      simpa using hrest

theorem foldl_unregister {kept removed : List HistoryRecord}
    (hnodup : ((kept ++ removed).map HistoryRecord.id).Nodup)
    (hzero : ∀ record ∈ removed, record.id ≠ HistoryId.zero)
    (h : RetainedOk (kept ++ removed) r) :
    RetainedOk kept (removed.foldl ExecStreamRetained.unregister r) := by
  induction removed generalizing r with
  | nil => simpa using h
  | cons record rest ih =>
      obtain ⟨hid, hcons⟩ := split_ids hnodup
      have hrest := (h.perm List.perm_middle).unregister
        (hzero record List.mem_cons_self) hid
      exact ih (List.nodup_cons.mp hcons).2
        (fun x hx => hzero x (List.mem_cons_of_mem _ hx)) hrest

/-- The loop that enforces the global limit keeps the bookkeeping right. -/
theorem enforceLoop {seen rest rest' : List HistoryRecord} {bytesToDrop : ℕ}
    {r' : ExecStreamRetained}
    (hnodup : ((seen ++ rest).map HistoryRecord.id).Nodup)
    (hloop : HistoryState.enforceLoop rest bytesToDrop r = some (rest', r'))
    (h : RetainedOk (seen ++ rest) r) : RetainedOk (seen ++ rest') r' := by
  induction rest generalizing seen rest' bytesToDrop r with
  | nil =>
      simp only [HistoryState.enforceLoop, Option.some.injEq,
        Prod.mk.injEq] at hloop
      obtain ⟨rfl, rfl⟩ := hloop
      exact h
  | cons record rest ih =>
      rcases HistoryState.enforceLoop_cons hloop with ⟨_, rfl, rfl⟩ |
        ⟨_, _, rest'', hrest, rfl⟩ |
        ⟨_, exec, stdoutChunks, stderrChunks, rest'', rfl, _, _, _, hrest, rfl⟩
      · exact h
      · have hnext : RetainedOk (seen ++ [record] ++ rest'') r' :=
          ih (by simpa using hnodup) hrest (by simpa using h)
        simpa using hnext
      · have hstore := (h.perm List.perm_middle).store
          { exec with stdoutChunks, stderrChunks } (split_ids hnodup).1 rfl
        have hnext : RetainedOk
            (seen ++ [.exec { exec with stdoutChunks, stderrChunks }] ++
              rest'') r' :=
          ih (by simpa [HistoryRecord.id] using hnodup) hrest
            (by simpa using hstore.perm List.perm_middle.symm)
        simpa using hnext

end RetainedOk

namespace HistoryState

/-! ## One lemma per edit -/

theorem registerRecord_retained (s : HistoryState) (record : HistoryRecord) :
    (s.registerRecord record).retained = s.retained.register record := by
  cases record <;> rfl

theorem unregisterRecord_retained (s : HistoryState) (record : HistoryRecord) :
    (s.unregisterRecord record).retained = s.retained.unregister record := by
  cases record <;> rfl

theorem foldl_unregister_retained (s : HistoryState) (l : List HistoryRecord) :
    (l.foldl unregisterRecord s).retained =
      l.foldl ExecStreamRetained.unregister s.retained := by
  induction l generalizing s with
  | nil => rfl
  | cons record rest ih =>
      rw [List.foldl_cons, ih, unregisterRecord_retained, List.foldl_cons]

theorem insertAt_retained (s : HistoryState) (idx : ℕ)
    (record : HistoryRecord) :
    (s.insertAt idx record).retained =
      s.retained.register (record.withId s.nextId) := by
  simp [HistoryState.insertAt, registerRecord_retained]

theorem removeAt_retained (s : HistoryState) (idx : ℕ)
    (record : HistoryRecord) :
    (s.removeAt idx record).retained = s.retained.unregister record := by
  simp [HistoryState.removeAt, unregisterRecord_retained]

theorem replaceAt_retained (s : HistoryState) (idx : ℕ)
    (existing record : HistoryRecord) :
    (s.replaceAt idx existing record).retained =
      (s.retained.unregister existing).register
        (record.withId existing.id) := by
  simp [HistoryState.replaceAt, registerRecord_retained,
    unregisterRecord_retained]

theorem cutAfter_retained (s : HistoryState) (pos : ℕ) :
    (s.cutAfter pos).retained =
      (s.records.drop (pos + 1)).foldl
        ExecStreamRetained.unregister s.retained :=
  foldl_unregister_retained _ _

/-- The bookkeeping of a history is right. -/
def RetainedExact (s : HistoryState) : Prop := RetainedOk s.records s.retained

namespace RetainedExact

variable {s t : HistoryState}

theorem insertAt (h : s.RetainedExact) {idx : ℕ} (hidx : idx ≤ s.records.length)
    {record : HistoryRecord} (hfresh : (s.insertAt idx record).IdsFresh) :
    (s.insertAt idx record).RetainedExact := by
  have hperm : (s.insertAt idx record).records.Perm
      (record.withId s.nextId :: s.records) := by
    rw [insertAt_records]
    exact List.perm_insertIdx _ _ hidx
  have hnodup := (hperm.map HistoryRecord.id).nodup_iff.mp hfresh.nodup
  have hzero := hfresh.id_ne_zero (hperm.mem_iff.mpr List.mem_cons_self)
  rw [RetainedExact, insertAt_retained]
  exact (RetainedOk.register h hzero (List.nodup_cons.mp hnodup).1).perm
    hperm.symm

theorem removeAt (h : s.RetainedExact) (hfresh : s.IdsFresh) {idx : ℕ}
    {record : HistoryRecord} (hget : s.records[idx]? = some record) :
    (s.removeAt idx record).RetainedExact := by
  have hperm := perm_cons_eraseIdx hget
  have hnodup := (hperm.map HistoryRecord.id).nodup_iff.mp hfresh.nodup
  have hzero := hfresh.id_ne_zero (List.mem_of_getElem? hget)
  rw [RetainedExact, removeAt_retained, removeAt_records]
  exact (RetainedOk.perm h hperm).unregister hzero (List.nodup_cons.mp hnodup).1

theorem replaceAt (h : s.RetainedExact) (hfresh : s.IdsFresh) {idx : ℕ}
    {existing : HistoryRecord} (hget : s.records[idx]? = some existing)
    (record : HistoryRecord) :
    (s.replaceAt idx existing record).RetainedExact := by
  have hperm := perm_cons_eraseIdx hget
  have hid := (List.nodup_cons.mp
    ((hperm.map HistoryRecord.id).nodup_iff.mp hfresh.nodup)).1
  have hzero := hfresh.id_ne_zero (List.mem_of_getElem? hget)
  rw [RetainedExact, replaceAt_retained, replaceAt_records]
  have hrest := (RetainedOk.perm h hperm).unregister hzero hid
  exact (hrest.register (by rwa [HistoryRecord.id_withId])
    (by rwa [HistoryRecord.id_withId])).perm
    (set_perm_cons_eraseIdx hget _).symm

theorem cutAfter (h : s.RetainedExact) (hfresh : s.IdsFresh) (pos : ℕ) :
    (s.cutAfter pos).RetainedExact := by
  have hsplit := List.take_append_drop (pos + 1) s.records
  rw [RetainedExact, cutAfter_retained, cutAfter_records]
  refine RetainedOk.foldl_unregister ?_ ?_ ?_
  · rw [hsplit]
    exact hfresh.nodup
  · exact fun record hmem => hfresh.id_ne_zero (List.mem_of_mem_drop hmem)
  · rw [hsplit]
    exact h

theorem clearAll (h : s.RetainedExact) : s.clearAll.RetainedExact :=
  ⟨Tracks.nil, h.balanced.clear⟩

theorem setMessage (h : s.RetainedExact) {idx : ℕ}
    {existing : AssistantMessageState}
    (hget : s.records[idx]? = some (.assistantMessage existing))
    (state : AssistantMessageState) :
    (s.setMessage idx state).RetainedExact := by
  refine ⟨?_, h.balanced⟩
  have hrest :=
    (Tracks.cons_iff (by simp)).mp (h.tracks.perm (perm_cons_eraseIdx hget))
  exact ((Tracks.cons_iff (by simp)).mpr hrest).perm
    (set_perm_cons_eraseIdx hget _).symm

theorem storeExec (h : s.RetainedExact) (hfresh : s.IdsFresh) {idx : ℕ}
    {existing exec : ExecRecord}
    (hget : s.records[idx]? = some (.exec existing))
    (hid : exec.id = existing.id) : (s.storeExec idx exec).RetainedExact := by
  have hperm := perm_cons_eraseIdx hget
  have hnot := (List.nodup_cons.mp
    ((hperm.map HistoryRecord.id).nodup_iff.mp hfresh.nodup)).1
  have hzero : exec.id ≠ HistoryId.zero := by
    rw [hid]
    exact hfresh.id_ne_zero (List.mem_of_getElem? hget)
  have hretained : (s.storeExec idx exec).retained =
      s.retained.store exec.id (retainedExecRecordBytes exec) := by
    simp [HistoryState.storeExec, ExecStreamRetained.set, hzero]
  rw [RetainedExact, hretained, storeExec_records]
  exact ((RetainedOk.perm h hperm).store exec hnot hid).perm
    (set_perm_cons_eraseIdx hget _).symm

theorem edit (h : s.RetainedExact) (hfresh : s.IdsFresh) {op : Op}
    (hissues : s.IssuesBelowMax op) (hedit : Edit s op t) :
    t.RetainedExact := by
  have hids := hfresh.edit hissues hedit
  cases hedit with
  | same _ => exact h
  | insert idx record _ _ hidx => exact h.insertAt hidx hids
  | replace idx existing record _ _ hget => exact h.replaceAt hfresh hget record
  | remove idx record _ hget => exact h.removeAt hfresh hget
  | cut pos _ _ => exact h.cutAfter hfresh pos
  | clear _ _ => exact h.clearAll
  | message idx existing state _ hget _ => exact h.setMessage hget state
  | store idx existing exec _ hget hid _ _ => exact h.storeExec hfresh hget hid
  | removeInsert idx removed record _ _ hget =>
      exact (h.removeAt hfresh hget).insertAt le_rfl hids
  | removeMessage idx idx' removed existing state _ hget hget' _ =>
      exact (h.removeAt hfresh hget).setMessage hget' state

theorem enforce (h : s.RetainedExact) (hfresh : s.IdsFresh)
    (henforce : s.enforceExecStreamGlobalLimit = some t) : t.RetainedExact := by
  rcases enforce_cases henforce with
    ⟨_, rfl⟩ | ⟨_, records, retained, hloop, rfl⟩
  · exact h
  · have hloop : RetainedOk ([] ++ records) retained :=
      RetainedOk.enforceLoop hfresh.nodup hloop h
    exact hloop

theorem foldl_register_balanced (records : List HistoryRecord)
    (h : s.retained.Balanced) :
    (records.foldl registerRecord s).retained.Balanced := by
  induction records generalizing s with
  | nil => exact h
  | cons record rest ih =>
      refine ih ?_
      rw [registerRecord_retained]
      exact h.register record

theorem restore (h : s.RetainedExact) (hfresh : t.IdsFresh) :
    (s.restore t.snapshot).RetainedExact := by
  have hids := hfresh.restore s
  have hrebuild (r : ExecStreamRetained) (hr : r.Balanced) :
      RetainedOk (dedupMessages [] t.snapshot.records)
        (r.rebuild (dedupMessages [] t.snapshot.records)) := by
    refine RetainedOk.foldl_addRecord ?_ ?_
      (⟨Tracks.nil, hr.clear⟩ : RetainedOk [] r.clear)
    · simpa using hids.nodup
    · intro record hmem
      exact hids.id_ne_zero (by simpa using hmem)
  rw [RetainedExact, restore_records]
  simp only [HistoryState.restore]
  split
  · simp only [rebuildIdIndex_records, rebuildIdIndex_retained,
      HistoryState.rebuildLookupMaps, foldl_register_records]
    exact hrebuild _ (foldl_register_balanced _ h.balanced)
  · exact hrebuild _ h.balanced

end RetainedExact

/-! ## Every reachable history -/

theorem retainedExact_of_reachable {s : HistoryState}
    (h : Reachable IssuesBelowMax s) : s.IdsFresh ∧ s.RetainedExact := by
  refine invariant_of_edits (P := fun s => s.IdsFresh ∧
    s.RetainedExact) ?_ ?_ ?_ ?_ h
  · exact ⟨new_idsFresh, Tracks.nil, fun _ => ⟨sumValues_empty.symm, rfl⟩⟩
  · intro s t op hs hissues hedit
    exact ⟨hs.1.edit hissues hedit, hs.2.edit hs.1 hissues hedit⟩
  · intro s t hs henforce
    exact ⟨hs.1.enforce henforce, hs.2.enforce hs.1 henforce⟩
  · intro s t hs ht
    exact ⟨ht.1.restore s, hs.2.restore ht.1⟩

end HistoryState

/-! ### The sum over the records -/

def HistoryRecord.asExec : HistoryRecord → Option ExecRecord
  | exec state => some state
  | _ => none

def execRecords (records : List HistoryRecord) : List ExecRecord :=
  records.filterMap HistoryRecord.asExec

theorem mem_execRecords {records : List HistoryRecord} {exec : ExecRecord} :
    exec ∈ execRecords records ↔ .exec exec ∈ records := by
  rw [execRecords, List.mem_filterMap]
  constructor
  · rintro ⟨record, hmem, hexec⟩
    cases record <;> simp_all [HistoryRecord.asExec]
  · exact fun hmem => ⟨.exec exec, hmem, rfl⟩

theorem execRecords_ids_sublist (records : List HistoryRecord) :
    ((execRecords records).map ExecRecord.id).Sublist
      (records.map HistoryRecord.id) := by
  induction records with
  | nil => exact List.Sublist.slnil
  | cons record rest ih =>
      cases record with
      | exec exec => exact ih.cons_cons _
      | _ => exact ih.cons _

/-- The bytes all exec records retain together. -/
def execRetainedBytes (records : List HistoryRecord) : ℕ :=
  ((execRecords records).map retainedExecRecordBytes).sum

theorem Tracks.sumValues_eq {records : List HistoryRecord}
    {byId : Finmap fun _ : HistoryId => ℕ} (h : Tracks records byId)
    (hnodup : (records.map HistoryRecord.id).Nodup) :
    sumValues byId = execRetainedBytes records := by
  have hkeys (id : HistoryId) :
      id ∈ byId ↔ id ∈ (execRecords records).map ExecRecord.id := by
    rw [Finmap.mem_iff, List.mem_map]
    constructor
    · rintro ⟨n, hn⟩
      obtain ⟨exec, hmem, hid, -⟩ := (h id n).mp hn
      exact ⟨exec, mem_execRecords.mpr hmem, hid⟩
    · rintro ⟨exec, hmem, hid⟩
      exact ⟨_, (h id _).mpr ⟨exec, mem_execRecords.mp hmem, hid, rfl⟩⟩
  rw [sumValues_eq_sum_map
    (hnodup.sublist (execRecords_ids_sublist records)) hkeys,
    execRetainedBytes, List.map_map]
  congr 1
  refine List.map_congr_left fun exec hmem => ?_
  have hlookup := (h exec.id _).mpr ⟨exec, mem_execRecords.mp hmem, rfl, rfl⟩
  simp [hlookup]

/-- In a reachable history that never issued the last identifier, the map holds
exactly the retained bytes of the exec records; unless an addition to the total
stopped at the largest machine integer, the total is their sum and no
subtraction from it stopped at zero. -/
theorem retained_exact {s : HistoryState}
    (h : Reachable HistoryState.IssuesBelowMax s) :
    (∀ id n, s.retained.byId.lookup id = some n ↔
      ∃ exec, .exec exec ∈ s.records ∧ exec.id = id ∧
        retainedExecRecordBytes exec = n) ∧
    (s.retained.additionSaturated = false →
      s.retained.totalBytes = execRetainedBytes s.records ∧
        s.retained.subtractionSaturated = false) := by
  obtain ⟨hids, hretained⟩ := HistoryState.retainedExact_of_reachable h
  refine ⟨hretained.tracks, fun hflag => ?_⟩
  obtain ⟨htotal, hsub⟩ := hretained.balanced hflag
  exact ⟨htotal.trans (hretained.tracks.sumValues_eq hids.nodup), hsub⟩

/-! ## Two streams that do not fit -/

/-- A command that printed the given chunks. -/
def printedRecord (stdoutChunks stderrChunks : List ExecStreamChunk) :
    ExecRecord where
  id := HistoryId.zero
  callId := none
  command := ["cat", "log"]
  action := .run
  status := .success
  stdoutChunks
  stderrChunks
  exitCode := some 0
  waitTotal := none
  waitActive := false
  waitNotes := []
  startedAt := 0
  completedAt := some 1
  workingDir := none
  env := []
  tags := []

/-- A stream that spans the whole range of offsets. -/
def fullRangeStream : List ExecStreamChunk :=
  [{ offset := 0, content := [], offset_le := Nat.zero_le _ },
   { offset := u64Max, content := [], offset_le := le_rfl }]

/-- A command that printed one line to each stream, with a call identifier. -/
def lineRecord : ExecRecord :=
  { printedRecord
    [{ offset := 0, content := ['x', 'y'], offset_le := Nat.zero_le _ }]
      [{ offset := 3, content := ['z'], offset_le := by decide }] with
    callId := some "call" }

/-- Two commands have printed, and the first one was removed. -/
def removedFirst : HistoryState :=
  (((HistoryState.new.push (.exec (printedRecord
    [{ offset := 0, content := ['x'], offset_le := Nat.zero_le _ }] []))).push
      (.exec lineRecord)).remove 0).1

theorem reachable_removedFirst :
    Reachable HistoryState.IssuesBelowMax removedFirst :=
  .step (a := .remove 0) (.step (a := .push _) (.step (a := .push _) .init
    (fun _ => by decide) rfl) (fun _ => by
  decide) rfl) (fun h => absurd h (by decide)) rfl

theorem retained_exact_push :
    removedFirst.retained.byId.lookup 1 = none ∧
      removedFirst.retained.byId.lookup 2 = some 3 ∧
      removedFirst.retained.totalBytes =
        execRetainedBytes removedFirst.records ∧
      removedFirst.retained.subtractionSaturated = false := by
  have hexact := retained_exact reachable_removedFirst
  refine ⟨?_, (hexact.1 2 3).2 ⟨_, List.mem_cons_self, rfl, by decide⟩,
    hexact.2 (by decide)⟩
  rw [Option.eq_none_iff_forall_ne_some]
  intro n hn
  obtain ⟨exec, hexec, hid, -⟩ := (hexact.1 1 n).1 hn
  have hrecords : removedFirst.records = [.exec { lineRecord with id := 2 }] :=
    rfl
  rw [hrecords] at hexec
  rw [HistoryRecord.exec.inj (List.mem_singleton.1 hexec)] at hid
  exact absurd hid (by decide)

/-- Two records that each retain `u64::MAX` bytes: the total stops at the sum of
one. -/
theorem retained_total_saturates :
    let record := HistoryRecord.exec (printedRecord fullRangeStream [])
    let s := (HistoryState.new.push record).push record
    Reachable (fun _ _ => True) s ∧ s.retained.totalBytes = u64Max ∧
      execRetainedBytes s.records = u64Max + u64Max ∧
      s.retained.totalBytes ≠ execRetainedBytes s.records := by
  refine ⟨.step (a := .push _) (.step (a := .push _) .init trivial rfl)
    trivial rfl,
    by decide, by decide, by decide⟩

end CodeRs.History
