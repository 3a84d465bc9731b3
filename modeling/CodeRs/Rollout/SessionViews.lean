import CodeRs.Rollout.NewestRollouts

/-!
# Reconciling, session by session

What `reconcile` does to a session depends on what the catalog has of that
session and on the entry that is discovered of it.
-/

namespace CodeRs.Rollout

variable {catalog catalog' : SessionCatalog}
    {entry existing newest : SessionIndexEntry}
  {sessionId : Uuid}

/-! ## Sessions -/

/-- What a catalog has of a session: its entry, and how often it is under each
path of the indexes. -/
@[ext]
structure SessionView where
  entry : Option SessionIndexEntry
  byCwd : Path → ℕ
  byGitRoot : Path → ℕ

namespace SessionView

/-- The session without its entry. -/
def dropped (view : SessionView) (entry : SessionIndexEntry) : SessionView where
  entry := none
  byCwd cwd := if some entry.cwdReal = some cwd then 0 else view.byCwd cwd
  byGitRoot gitRoot :=
    if entry.gitProjectRoot = some gitRoot then 0 else view.byGitRoot gitRoot

/-- The session with another entry. -/
def indexed (view : SessionView) (entry : SessionIndexEntry) : SessionView where
  entry := some entry
  byCwd cwd := view.byCwd cwd + if some entry.cwdReal = some cwd then 1 else 0
  byGitRoot gitRoot :=
    view.byGitRoot gitRoot + if entry.gitProjectRoot = some gitRoot then
      1 else 0

/-- The session after the first loop of `reconcile`. -/
def existingOnly (view : SessionView) (discovered : Option SessionIndexEntry) :
    SessionView :=
  match discovered with
  | none => view.entry.elim view view.dropped
  | some _ => view

/-- The session after its round of the second loop. -/
def upserted (view : SessionView) (entry : SessionIndexEntry) : SessionView :=
  match view.entry with
  | some existing =>
      if shouldReplace existing entry = true then
        (view.dropped existing).indexed
          (SessionCatalog.withNickname existing entry)
      else view
  | none => view.indexed entry

/-- The session after `reconcile`. -/
def reconciled (view : SessionView) (discovered : Option SessionIndexEntry) :
    SessionView :=
  discovered.elim (view.existingOnly discovered)
    (view.existingOnly discovered).upserted

theorem existingOnly_idem (view : SessionView)
    (discovered : Option SessionIndexEntry) :
    (view.existingOnly discovered).existingOnly discovered =
      view.existingOnly discovered := by
  obtain ⟨entry, byCwd, byGitRoot⟩ := view
  cases discovered with
  | some newest => rfl
  | none => cases entry <;> rfl

theorem existingOnly_of_none {view : SessionView} (h : view.entry = none)
    (discovered : Option SessionIndexEntry) :
    view.existingOnly discovered = view := by
  cases discovered with
  | some newest => rfl
  | none => rw [existingOnly, h]; rfl

end SessionView

def SessionCatalog.view (catalog : SessionCatalog) (sessionId : Uuid) :
    SessionView where
  entry := catalog.entries.get sessionId
  byCwd cwd := (catalog.byCwdIndex cwd).count sessionId
  byGitRoot gitRoot := (catalog.byGitRootIndex gitRoot).count sessionId

theorem sameCatalog_of_view
    (h : ∀ sessionId, catalog.view sessionId = catalog'.view sessionId) :
    SameCatalog catalog catalog' where
  entries sessionId := congrArg SessionView.entry (h sessionId)
  byCwd cwd := List.perm_iff_count.2 fun sessionId =>
    congrFun (congrArg SessionView.byCwd (h sessionId)) cwd
  byGitRoot gitRoot := List.perm_iff_count.2 fun sessionId =>
    congrFun (congrArg SessionView.byGitRoot (h sessionId)) gitRoot

/-! ## Changes of one session -/

section Indexes

variable {A : Type} [DecidableEq A] (index : SecondaryIndex A Uuid)
    (a : Option A) (a' : A)

theorem count_push (k k' : Uuid) :
    (index.push a k a').count k' =
      (index a').count k' + if a = some a' ∧ k = k' then 1 else 0 := by
  rw [SecondaryIndex.push_apply]
  by_cases ha : a = some a'
  · by_cases hk : k = k'
    · subst hk
      simp [ha]
    · simp [ha, hk]
  · simp [ha]

theorem count_drop (k k' : Uuid) :
    (index.drop a k a').count k' = if a = some a' ∧ k = k' then 0
      else (index a').count k' := by
  rw [SecondaryIndex.drop_apply]
  by_cases ha : a = some a'
  · by_cases hk : k = k'
    · subst hk
      rw [if_pos ha, if_pos ⟨ha, rfl⟩]
      exact List.count_eq_zero_of_not_mem fun hmem => by
        simpa using (List.mem_filter.1 hmem).2
    · rw [if_pos ha, if_neg fun h => hk h.2]
      exact List.count_filter (by simpa using Ne.symm hk)
  · rw [if_neg ha, if_neg fun h => ha h.1]

end Indexes

namespace SessionCatalog

theorem view_indexEntry_self (catalog : SessionCatalog)
    (entry : SessionIndexEntry) :
    (catalog.indexEntry entry).view entry.sessionId =
      (catalog.view entry.sessionId).indexed entry := by
  ext1
  · exact Keyed.get_insert_self ..
  · funext cwd
    refine (count_push catalog.byCwdIndex (some entry.cwdReal) cwd _ _).trans ?_
    simp [SessionView.indexed, view]
  · funext gitRoot
    refine (count_push catalog.byGitRootIndex entry.gitProjectRoot
      gitRoot _ _).trans ?_
    simp [SessionView.indexed, view]

theorem view_indexEntry_of_ne (catalog : SessionCatalog)
    (h : entry.sessionId ≠ sessionId) :
    (catalog.indexEntry entry).view sessionId = catalog.view sessionId := by
  ext1
  · exact Keyed.get_insert_of_ne _ h.symm
  · funext cwd
    refine (count_push catalog.byCwdIndex (some entry.cwdReal) cwd _ _).trans ?_
    simp [h, view]
  · funext gitRoot
    refine (count_push catalog.byGitRootIndex entry.gitProjectRoot
      gitRoot _ _).trans ?_
    simp [h, view]

theorem view_drop_self (catalog : SessionCatalog) (sessionId : Uuid)
    (entry : SessionIndexEntry) :
    ((catalog.removeEntry sessionId).removeFromIndexes sessionId entry).view
      sessionId =
      (catalog.view sessionId).dropped entry := by
  ext1
  · exact Keyed.get_remove_self ..
  · funext cwd
    refine (count_drop catalog.byCwdIndex (some entry.cwdReal) cwd _ _).trans ?_
    simp [SessionView.dropped, view]
  · funext gitRoot
    refine (count_drop catalog.byGitRootIndex entry.gitProjectRoot
      gitRoot _ _).trans ?_
    simp [SessionView.dropped, view]

theorem view_drop_of_ne (catalog : SessionCatalog) {id : Uuid}
    (h : id ≠ sessionId)
    (entry : SessionIndexEntry) :
    ((catalog.removeEntry id).removeFromIndexes id entry).view sessionId =
      catalog.view sessionId := by
  ext1
  · exact Keyed.get_remove_of_ne _ h.symm
  · funext cwd
    refine (count_drop catalog.byCwdIndex (some entry.cwdReal) cwd _ _).trans ?_
    simp [h, view]
  · funext gitRoot
    refine (count_drop catalog.byGitRootIndex entry.gitProjectRoot
      gitRoot _ _).trans ?_
    simp [h, view]

/-- An entry takes the place of another one as if that were removed first. -/
theorem replace_eq (catalog : SessionCatalog)
    (existing entry : SessionIndexEntry) :
    (catalog.removeFromIndexes entry.sessionId existing).indexEntry entry =
      ((catalog.removeEntry entry.sessionId).removeFromIndexes entry.sessionId
        existing).indexEntry entry := by
  simp only [indexEntry, removeFromIndexes, removeEntry,
    Keyed.insert_remove_self]

theorem view_replace_self (catalog : SessionCatalog)
    (existing entry : SessionIndexEntry) :
    ((catalog.removeFromIndexes entry.sessionId existing).indexEntry entry).view
        entry.sessionId =
      ((catalog.view entry.sessionId).dropped existing).indexed entry := by
  rw [replace_eq, view_indexEntry_self, view_drop_self]

theorem view_replace_of_ne (catalog : SessionCatalog)
    (existing : SessionIndexEntry)
    (h : entry.sessionId ≠ sessionId) :
    ((catalog.removeFromIndexes entry.sessionId existing).indexEntry entry).view
      sessionId =
      catalog.view sessionId := by
  rw [replace_eq, view_indexEntry_of_ne _ h, view_drop_of_ne _ h]

/-! ## The loops -/

/-- A round of the first loop is about one session. -/
theorem view_reconcileExisting (discovered : Entries)
    (state : SessionCatalog × ReconcileResult)
    (id : Uuid) :
    (reconcileExisting discovered state id).1.view sessionId =
      if id = sessionId then
        (state.1.view sessionId).existingOnly (discovered.get sessionId)
      else state.1.view sessionId := by
  by_cases hid : id = sessionId
  · subst hid
    rw [if_pos rfl]
    cases hfound : discovered.get id with
    | some newest =>
        rw [reconcileExisting, hfound]
        rfl
    | none =>
        cases hget : state.1.entries.get id with
        | none =>
            have hview : (state.1.view id).entry = none := hget
            rw [reconcileExisting, hfound, hget,
              SessionView.existingOnly, hview]
            rfl
        | some entry =>
            have hview : (state.1.view id).entry = some entry := hget
            rw [reconcileExisting, hfound, hget,
              SessionView.existingOnly, hview]
            exact view_drop_self state.1 id entry
  · rw [if_neg hid, reconcileExisting]
    split
    · exact view_drop_of_ne state.1 hid _
    · rfl

/-- The first loop drops a session that is not discovered. -/
theorem view_foldl_reconcileExisting (discovered : Entries) (ids : List Uuid)
    (state : SessionCatalog × ReconcileResult) :
    (ids.foldl (reconcileExisting discovered) state).1.view sessionId =
      if sessionId ∈ ids then
        (state.1.view sessionId).existingOnly (discovered.get sessionId)
      else state.1.view sessionId := by
  induction ids generalizing state with
  | nil => rfl
  | cons id ids ih =>
      rw [List.foldl_cons, ih, view_reconcileExisting]
      by_cases hid : id = sessionId
      · rw [if_pos hid, SessionView.existingOnly_idem, ite_self,
          if_pos (hid ▸ List.mem_cons_self)]
      · rw [if_neg hid]
        refine if_congr ?_ rfl rfl
        rw [List.mem_cons, or_iff_right (Ne.symm hid)]

theorem view_reconcileDiscovered_of_ne
    (state : SessionCatalog × ReconcileResult)
    (h : entry.sessionId ≠ sessionId) :
    (reconcileDiscovered state entry).1.view sessionId =
      state.1.view sessionId := by
  rw [reconcileDiscovered]
  split
  next existing _ =>
    split
    · exact @view_replace_of_ne (withNickname existing entry) _
        state.1 existing h
    · rfl
  next => exact view_indexEntry_of_ne _ h

theorem view_reconcileDiscovered_self (state : SessionCatalog × ReconcileResult)
    (entry : SessionIndexEntry) :
    (reconcileDiscovered state entry).1.view entry.sessionId =
      (state.1.view entry.sessionId).upserted entry := by
  cases hget : state.1.entries.get entry.sessionId with
  | none =>
      have hview : (state.1.view entry.sessionId).entry = none := hget
      rw [reconcileDiscovered, hget, SessionView.upserted, hview]
      exact view_indexEntry_self state.1 entry
  | some existing =>
      have hview : (state.1.view entry.sessionId).entry = some existing := hget
      rw [reconcileDiscovered, hget, SessionView.upserted, hview]
      simp only
      split
      · exact view_replace_self state.1 existing (withNickname existing entry)
      · rfl

theorem view_reconcile {scan : RolloutScan} {discovered : Entries}
    (h : scan.discovered = some discovered) (catalog : SessionCatalog)
    (sessionId : Uuid) :
    (catalog.reconcile scan).1.view sessionId =
      (catalog.view sessionId).reconciled (discovered.get sessionId) := by
  rw [reconcile, h]
  simp only
  have hexisting := @view_foldl_reconcileExisting sessionId discovered
    (catalog.entries.values.map SessionIndexEntry.sessionId) (catalog,
      ⟨0, 0, 0⟩)
  have hlook := discovered.look_foldl (fun state => state.1.view sessionId)
    (fun state entry hne => view_reconcileDiscovered_of_ne state hne)
    (fun state state' entry heq => by
      by_cases hid : entry.sessionId = sessionId
      · subst hid
        rw [view_reconcileDiscovered_self, view_reconcileDiscovered_self, heq]
      · rw [view_reconcileDiscovered_of_ne _ hid,
          view_reconcileDiscovered_of_ne _ hid, heq])
    ((catalog.entries.values.map SessionIndexEntry.sessionId).foldl
      (reconcileExisting discovered) (catalog, ⟨0, 0, 0⟩))
  have honly : ((catalog.entries.values.map SessionIndexEntry.sessionId).foldl
      (reconcileExisting discovered) (catalog, ⟨0, 0, 0⟩)).1.view sessionId =
        (catalog.view sessionId).existingOnly (discovered.get sessionId) := by
    rw [hexisting]
    split
    · rfl
    next hmem =>
      refine (SessionView.existingOnly_of_none ?_ _).symm
      exact Keyed.get_eq_none.2 fun entry hentry hid =>
        hmem (hid ▸ List.mem_map_of_mem hentry)
  refine hlook.trans ?_
  rw [SessionView.reconciled]
  cases hget : discovered.get sessionId with
  | none => rw [hget] at honly; exact honly
  | some newest =>
      rw [hget] at honly
      obtain rfl := Keyed.key_of_get hget
      exact (view_reconcileDiscovered_self _ newest).trans
        (congrArg (·.upserted newest) honly)

end SessionCatalog

end CodeRs.Rollout
