import CodeRs.History.Steps

/-!
# Identifiers and their index

The records of a history carry distinct, non-zero identifiers below `next_id`,
as long as the counter, which saturates, has not run out.
-/

namespace CodeRs.History

/-! ## Fresh identifiers -/

/-- The identifiers are distinct, none is zero, and all are below `n`. -/
structure FreshBelow (ids : List ℕ) (n : ℕ) : Prop where
  nodup : ids.Nodup
  pos : ∀ id ∈ ids, 0 < id
  lt : ∀ id ∈ ids, id < n

namespace FreshBelow

variable {ids ids' : List ℕ} {n : ℕ}

theorem nil (n : ℕ) : FreshBelow [] n :=
  ⟨List.nodup_nil, by simp, by simp⟩

theorem sublist (h : FreshBelow ids n) (hsub : ids'.Sublist ids) :
    FreshBelow ids' n :=
  ⟨h.nodup.sublist hsub, fun id hid => h.pos id (hsub.subset hid),
    fun id hid => h.lt id (hsub.subset hid)⟩

theorem insertIdx (h : FreshBelow ids n) (hn : 0 < n) {idx : ℕ}
    (hidx : idx ≤ ids.length) : FreshBelow (ids.insertIdx idx n) (n + 1) := by
  have hperm := List.perm_insertIdx n ids hidx
  have hfresh : n ∉ ids := by
    intro hmem
    exact lt_irrefl n (h.lt n hmem)
  refine ⟨hperm.nodup_iff.mpr (List.nodup_cons.mpr ⟨hfresh, h.nodup⟩), ?_, ?_⟩
  · intro id hid
    rcases List.mem_cons.mp (hperm.mem_iff.mp hid) with rfl | hmem
    · exact hn
    · exact h.pos id hmem
  · intro id hid
    rcases List.mem_cons.mp (hperm.mem_iff.mp hid) with rfl | hmem
    · exact Nat.lt_succ_self _
    · exact Nat.lt_succ_of_lt (h.lt id hmem)

theorem foldr_max_lt (h : FreshBelow ids n) (hn : 0 < n) :
    ids.foldr max 0 < n := by
  have hle : ids.foldr max 0 ≤ n - 1 :=
    foldr_max_le fun id hid => Nat.le_pred_of_lt (h.lt id hid)
  omega

/-- The counter recomputed from the identifiers is above all of them. -/
theorem recompute (h : FreshBelow ids n) :
    FreshBelow ids (ids.foldr max 0 + 1) :=
  ⟨h.nodup, h.pos, fun _ hid => Nat.lt_succ_of_le (le_foldr_max hid)⟩

end FreshBelow

namespace HistoryState

/-! ## The invariant -/

/-- The identifiers of the records are fresh and the counter is in range. -/
structure IdsFresh (s : HistoryState) : Prop where
  fresh : FreshBelow (s.records.map HistoryRecord.id) s.nextId
  nextPos : 0 < s.nextId
  nextLe : s.nextId ≤ u64Max

/-- The operation does not issue the last identifier. -/
def IssuesBelowMax (s : HistoryState) (op : Op) : Prop :=
  s.issuesId op = true → s.nextId < u64Max

theorem new_idsFresh : HistoryState.new.IdsFresh :=
  ⟨FreshBelow.nil 1, Nat.one_pos, one_le_u64Max⟩

namespace IdsFresh

variable {s : HistoryState}

theorem nodup (h : s.IdsFresh) : (s.records.map HistoryRecord.id).Nodup :=
  h.fresh.nodup

theorem id_ne_zero (h : s.IdsFresh) {record : HistoryRecord}
    (hmem : record ∈ s.records) : record.id ≠ HistoryId.zero :=
  Nat.ne_of_gt (h.fresh.pos _ (List.mem_map_of_mem hmem))

/-- Records that lose some of their number, or change without changing their
identifiers, under the same counter. -/
theorem sublist (h : s.IdsFresh) {t : HistoryState}
    (hnext : t.nextId = s.nextId)
    (hids : (t.records.map HistoryRecord.id).Sublist
      (s.records.map HistoryRecord.id)) : t.IdsFresh :=
  ⟨by rw [hnext]; exact h.fresh.sublist hids, by rw [hnext]; exact h.nextPos,
    by rw [hnext]; exact h.nextLe⟩

theorem insertAt (h : s.IdsFresh) {idx : ℕ} (hidx : idx ≤ s.records.length)
    (record : HistoryRecord) (hnext : s.nextId < u64Max) :
    (s.insertAt idx record).IdsFresh := by
  have hsucc : satAdd s.nextId 1 = s.nextId + 1 := satAdd_eq (by omega)
  have hids : (s.insertAt idx record).records.map HistoryRecord.id =
      (s.records.map HistoryRecord.id).insertIdx idx s.nextId := by
    rw [insertAt_records, List.map_insertIdx, HistoryRecord.id_withId]
  refine ⟨?_, ?_, ?_⟩
  · rw [hids, insertAt_nextId, hsucc]
    exact h.fresh.insertIdx h.nextPos (by simpa using hidx)
  · rw [insertAt_nextId, hsucc]
    exact Nat.succ_pos _
  · rw [insertAt_nextId, hsucc]
    exact hnext

theorem replaceAt (h : s.IdsFresh) {idx : ℕ} {existing : HistoryRecord}
    (hget : s.records[idx]? = some existing) (record : HistoryRecord) :
    (s.replaceAt idx existing record).IdsFresh := by
  refine h.sublist (by simp) ?_
  rw [replaceAt_records, map_set_of_eq HistoryRecord.id hget (by simp)]

theorem removeAt (h : s.IdsFresh) (idx : ℕ) (record : HistoryRecord) :
    (s.removeAt idx record).IdsFresh := by
  refine h.sublist (by simp) ?_
  rw [removeAt_records]
  exact (List.eraseIdx_sublist _ _).map _

theorem cutAfter (h : s.IdsFresh) (pos : ℕ) : (s.cutAfter pos).IdsFresh := by
  have hfresh :
      FreshBelow ((s.cutAfter pos).records.map HistoryRecord.id) s.nextId := by
    rw [cutAfter_records]
    exact h.fresh.sublist ((List.take_sublist _ _).map _)
  have hmax := hfresh.foldr_max_lt h.nextPos
  have hle := h.nextLe
  have hnext : (s.cutAfter pos).nextId =
      ((s.cutAfter pos).records.map HistoryRecord.id).foldr max 0 + 1 := by
    rw [cutAfter_nextId, ← cutAfter_records, satAdd_eq (by omega)]
  refine ⟨?_, by omega, by omega⟩
  rw [hnext]
  exact hfresh.recompute

theorem clearAll (s : HistoryState) : s.clearAll.IdsFresh :=
  ⟨FreshBelow.nil 1, Nat.one_pos, one_le_u64Max⟩

theorem edit (h : s.IdsFresh) {op : Op} {t : HistoryState}
    (hissues : s.IssuesBelowMax op) (hedit : Edit s op t) : t.IdsFresh := by
  cases hedit with
  | same _ => exact h
  | insert idx record hop _ hidx => exact h.insertAt hidx record (hissues hop)
  | replace idx existing record _ _ hget => exact h.replaceAt hget record
  | remove idx record _ _ => exact h.removeAt idx record
  | cut pos _ _ => exact h.cutAfter pos
  | clear _ _ => exact clearAll s
  | message idx existing state _ hget hid =>
      exact h.sublist rfl (by rw [map_id_setMessage s idx hget hid])
  | store idx existing exec _ hget hid _ _ =>
      exact h.sublist rfl (by rw [map_id_storeExec s idx hget hid])
  | removeInsert idx removed record hop _ _ =>
      exact (h.removeAt idx removed).insertAt le_rfl record
        (by simpa using hissues hop)
  | removeMessage idx idx' removed existing state _ _ hget hid =>
      exact (h.removeAt idx removed).sublist rfl
        (by rw [map_id_setMessage _ idx' hget hid])

theorem enforce (h : s.IdsFresh) {t : HistoryState}
    (henforce : s.enforceExecStreamGlobalLimit = some t) : t.IdsFresh := by
  obtain ⟨records, retained, hchanged, rfl⟩ := enforce_chunksChanged henforce
  exact h.sublist rfl (by rw [map_id_of_chunksChanged hchanged])

theorem restore (s : HistoryState) {t : HistoryState} (h : t.IdsFresh) :
    (s.restore t.snapshot).IdsFresh := by
  refine h.sublist (restore_nextId s t.snapshot) ?_
  rw [restore_records]
  exact (dedupMessages_sublist _ _).map _

end IdsFresh

end HistoryState

end CodeRs.History

/-! ## The identifier index

`index_of` finds exactly the record that carries an identifier, as long as no
step clears a non-empty history by truncating after the zero identifier:
`truncate_after` returns there before it rebuilds the index.  The counter of
identifiers saturates, so issuing the last one also breaks the invariant. -/

namespace CodeRs.History

/-! ## The rebuilt index -/

theorem lookup_indexRecords_of_notMem {records : List HistoryRecord} {k : ℕ}
    {m : Finmap fun _ : HistoryId => ℕ} {id : HistoryId}
    (h : id ∉ records.map HistoryRecord.id) :
    (HistoryState.indexRecords records k m).lookup id = m.lookup id := by
  induction records generalizing k m with
  | nil => rfl
  | cons record rest ih =>
      rw [List.map_cons, List.mem_cons, not_or] at h
      rw [HistoryState.indexRecords, ih h.2]
      by_cases hzero : record.id = HistoryId.zero
      · rw [if_pos hzero]
      · rw [if_neg hzero, Finmap.lookup_insert_of_ne _ h.1]

theorem lookup_indexRecords_of_getElem? {records : List HistoryRecord} {k i : ℕ}
    {m : Finmap fun _ : HistoryId => ℕ} {id : HistoryId}
    (hid : id ≠ HistoryId.zero)
    (hnodup : (records.map HistoryRecord.id).Nodup)
    (hget : (records.map HistoryRecord.id)[i]? = some id) :
    (HistoryState.indexRecords records k m).lookup id = some (k + i) := by
  induction records generalizing k i m with
  | nil => simp at hget
  | cons record rest ih =>
      rw [List.map_cons, List.nodup_cons] at hnodup
      rw [HistoryState.indexRecords]
      cases i with
      | zero =>
          simp only [List.map_cons, List.getElem?_cons_zero,
            Option.some.injEq] at hget
          subst hget
          rw [lookup_indexRecords_of_notMem hnodup.1, if_neg hid,
            Finmap.lookup_insert,
            Nat.add_zero]
      | succ j =>
          rw [List.map_cons, List.getElem?_cons_succ] at hget
          rw [ih hnodup.2 hget, Nat.add_right_comm, Nat.add_assoc]

namespace HistoryState

/-- The index gives the position of an identifier exactly. -/
def IndexExact (s : HistoryState) : Prop :=
  ∀ id, id ≠ HistoryId.zero → ∀ i,
    s.indexOf id = some i ↔ (s.records.map HistoryRecord.id)[i]? = some id

theorem rebuildIdIndex_exact {s : HistoryState}
    (h : (s.records.map HistoryRecord.id).Nodup) :
    s.rebuildIdIndex.IndexExact := by
  intro id hid i
  rw [rebuildIdIndex_records]
  simp only [indexOf, if_neg hid, rebuildIdIndex]
  constructor
  · intro hlookup
    by_cases hmem : id ∈ s.records.map HistoryRecord.id
    · obtain ⟨j, hj⟩ := List.getElem?_of_mem hmem
      rw [lookup_indexRecords_of_getElem? hid h hj, Nat.zero_add,
        Option.some.injEq] at hlookup
      exact hlookup ▸ hj
    · rw [lookup_indexRecords_of_notMem hmem] at hlookup
      simp at hlookup
  · intro hget
    rw [lookup_indexRecords_of_getElem? hid h hget, Nat.zero_add]

theorem IndexExact.congr {s t : HistoryState} (h : s.IndexExact)
    (hindex : t.idIndex = s.idIndex)
    (hids : t.records.map HistoryRecord.id = s.records.map HistoryRecord.id) :
    t.IndexExact := by
  intro id hid i
  rw [hids, ← h id hid i, indexOf, indexOf, hindex]

/-! ## One lemma per edit -/

namespace IndexExact

variable {s t : HistoryState}

theorem edit (h : s.IndexExact) {op : Op}
    (hclear : op = .truncateAfter HistoryId.zero → s.records = [])
    (hfresh : t.IdsFresh) (hedit : Edit s op t) : t.IndexExact := by
  cases hedit with
  | same _ => exact h
  | insert _ _ _ _ _ => exact rebuildIdIndex_exact hfresh.nodup
  | replace _ _ _ _ _ _ => exact rebuildIdIndex_exact hfresh.nodup
  | remove _ _ _ _ => exact rebuildIdIndex_exact hfresh.nodup
  | cut _ _ _ => exact rebuildIdIndex_exact hfresh.nodup
  | clear _ hop => exact h.congr rfl (by rw [hclear hop]; rfl)
  | message idx existing state _ hget hid =>
      exact h.congr rfl (map_id_setMessage s idx hget hid)
  | store idx existing exec _ hget hid _ _ =>
      exact h.congr rfl (map_id_storeExec s idx hget hid)
  | removeInsert _ _ _ _ _ _ => exact rebuildIdIndex_exact hfresh.nodup
  | removeMessage idx idx' removed existing state _ _ hget hid =>
      have hids := map_id_setMessage _ idx' hget hid
      refine IndexExact.congr (s := s.removeAt idx removed) ?_ rfl hids
      exact rebuildIdIndex_exact (hids ▸ hfresh.nodup)

theorem enforce (h : s.IndexExact)
    (henforce : s.enforceExecStreamGlobalLimit = some t) :
    t.IndexExact := by
  obtain ⟨records, retained, hchanged, rfl⟩ := enforce_chunksChanged henforce
  exact h.congr rfl (map_id_of_chunksChanged hchanged)

theorem restore (s : HistoryState) (h : t.IdsFresh) :
    (s.restore t.snapshot).IndexExact := by
  have hexact :
      (s.withRecords (dedupMessages [] t.records)).rebuildIdIndex.IndexExact :=
    rebuildIdIndex_exact (h.nodup.sublist ((dedupMessages_sublist _ _).map _))
  refine hexact.congr ?_ ?_
  · rw [restore_idIndex]
    rfl
  · rw [restore_records]
    rfl

end IndexExact

/-! ## The invariant -/

/-- The identifiers are fresh and the index is exact. -/
structure IdsOk (s : HistoryState) : Prop where
  ids : s.IdsFresh
  index : s.IndexExact

/-- The operation keeps the identifiers in order: it does not clear records by
truncating after the zero identifier, and it does not issue the last
identifier. -/
def KeepsIds (s : HistoryState) (op : Op) : Prop :=
  (op = .truncateAfter HistoryId.zero → s.records = []) ∧ s.IssuesBelowMax op

theorem new_idsOk : HistoryState.new.IdsOk := by
  refine ⟨new_idsFresh, ?_⟩
  intro id hid i
  simp [indexOf, hid, HistoryState.new]

theorem IdsOk.step {s t : HistoryState} (h : s.IdsOk) {op : Op}
    (hkeeps : s.KeepsIds op) (hstep : s.step op = some t) : t.IdsOk := by
  refine holds_of_step (P := IdsOk) (fun hedit => ?_)
    (fun hok henforce => ?_) hstep
  · have hids := h.ids.edit hkeeps.2 hedit
    exact ⟨hids, h.index.edit hkeeps.1 hids hedit⟩
  · exact ⟨hok.ids.enforce henforce, hok.index.enforce henforce⟩

/-! ## When the index is exact -/

/-- For every non-zero identifier, `index_of` gives the position of the record
that carries it; the identifiers are distinct and below `next_id`. -/
def IdsExact (s : HistoryState) : Prop :=
  (∀ id, id ≠ HistoryId.zero → ∀ i,
    s.indexOf id = some i ↔
      ∃ record, s.records[i]? = some record ∧ record.id = id) ∧
  (s.records.map HistoryRecord.id).Nodup ∧ ∀ record ∈ s.records,
    record.id < s.nextId

theorem IdsOk.idsExact {s : HistoryState} (h : s.IdsOk) : s.IdsExact := by
  refine ⟨fun id hid i => ?_, h.ids.nodup, fun record hmem => ?_⟩
  · rw [h.index id hid i, List.getElem?_map, Option.map_eq_some_iff]
  · exact h.ids.fresh.lt _ (List.mem_map_of_mem hmem)

theorem idsOk_of_reachable {s : HistoryState} (h : Reachable KeepsIds s) :
    s.IdsOk := by
  refine System.Reachable.invariant (P := IdsOk) new_idsOk ?_ ?_ h
  · intro s op t hs hkeeps hstep
    exact hs.step hkeeps hstep
  · intro s t _ ht
    exact ⟨ht.ids.restore s, .restore s ht.ids⟩

/-- Clearing a history that has records leaves their index entries behind. -/
theorem not_idsExact_clearAll {s : HistoryState} (h : s.IdsOk)
    (hne : s.records ≠ []) : ¬ s.clearAll.IdsExact := by
  rintro ⟨hindex, -, -⟩
  obtain ⟨record, rest, hrecords⟩ := List.exists_cons_of_ne_nil hne
  have hget : (s.records.map HistoryRecord.id)[0]? = some record.id := by
    simp [hrecords]
  have hpos : record.id ≠ HistoryId.zero :=
    Nat.ne_of_gt (h.ids.fresh.pos _ (List.mem_of_getElem? hget))
  have hstale : s.clearAll.indexOf record.id = some 0 :=
    (h.index record.id hpos 0).mpr hget
  obtain ⟨record', hnone, -⟩ := (hindex record.id hpos 0).mp hstale
  simp [clearAll] at hnone

/-- A record that gets the last identifier is not below the counter. -/
theorem not_idsExact_insertAt {s : HistoryState} {idx : ℕ}
    (hidx : idx ≤ s.records.length) (record : HistoryRecord)
    (hnext : s.nextId = u64Max) : ¬ (s.insertAt idx record).IdsExact := by
  rintro ⟨-, -, hlt⟩
  have hbelow := hlt (record.withId s.nextId) (by
    rw [insertAt_records]
    exact (List.mem_insertIdx hidx).mpr (Or.inl rfl))
  rw [HistoryRecord.id_withId, insertAt_nextId, hnext, satAdd_max] at hbelow
  exact lt_irrefl _ hbelow

theorem keepsIds_of_idsExact {s t : HistoryState} {op : Op} (h : s.IdsOk)
    (hstep : s.step op = some t) (hexact : t.IdsExact) : s.KeepsIds op := by
  obtain ⟨stored, limit, hstored, hsettle⟩ := step_cases hstep
  constructor
  · rintro rfl
    by_contra hne
    simp only [step, truncateAfter_zero, Option.some.injEq] at hstep
    exact not_idsExact_clearAll h hne (hstep ▸ hexact)
  · intro hissues
    by_contra hmax
    have hnext : s.nextId = u64Max := le_antisymm h.ids.nextLe (not_lt.mp hmax)
    have hplain := settle_of_issuesId hissues hstored hsettle
    subst hplain
    cases stored_edit hstored with
    | insert idx record _ _ hidx =>
        exact not_idsExact_insertAt hidx record hnext hexact
    | removeInsert idx removed record _ _ _ =>
        exact not_idsExact_insertAt le_rfl record (by simpa using hnext) hexact
    | _ => simp_all

end HistoryState

/-- Along steps that keep the identifiers the index is exact, and the first step
that does not keep them leaves an index that is not. -/
theorem idsExact_iff_keepsIds {s : HistoryState}
    (h : Reachable HistoryState.KeepsIds s) :
    s.IdsExact ∧ ∀ op t, s.step op = some t → (t.IdsExact ↔ s.KeepsIds op) := by
  have hids := HistoryState.idsOk_of_reachable h
  refine ⟨hids.idsExact, fun op t hstep => ⟨fun hexact => ?_, fun hkeeps => ?_⟩⟩
  · exact HistoryState.keepsIds_of_idsExact hids hstep hexact
  · exact (hids.step hkeeps hstep).idsExact

/-- One notice, pushed into an empty history and then cleared. -/
theorem idsExact_push_then_clear :
    let s := HistoryState.new.push (.inert .notice HistoryId.zero)
    s.IdsExact ∧
      ((s.truncateAfter HistoryId.zero).1.IdsExact ↔
        s.KeepsIds (.truncateAfter HistoryId.zero)) := by
  have hreach : Reachable HistoryState.KeepsIds
      (HistoryState.new.push (.inert .notice HistoryId.zero)) :=
    .step (a := .push (.inert .notice HistoryId.zero)) .init
      ⟨nofun, fun _ => by decide⟩ rfl
  exact ⟨(idsExact_iff_keepsIds hreach).1,
    (idsExact_iff_keepsIds hreach).2 _ _ rfl⟩

/-- The index still finds the cleared notice. -/
theorem not_idsExact_push_then_clear :
    let s :=
      ((HistoryState.new.push (.inert .notice HistoryId.zero)).truncateAfter
        HistoryId.zero).1
    Reachable (fun _ _ => True) s ∧ s.records = [] ∧ s.indexOf 1 = some 0 ∧
      ¬ s.IdsExact := by
  refine ⟨.step (a := .truncateAfter HistoryId.zero)
    (.step (a := .push (.inert .notice HistoryId.zero)) .init trivial rfl)
    trivial rfl,
    rfl, by decide, fun h => ?_⟩
  obtain ⟨record, hget, -⟩ := (h.1 1 (by decide) 0).mp (by decide)
  cases hget

end CodeRs.History
