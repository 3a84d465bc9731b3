import CodeRs.Rollout.Catalog

/-!
# The indexes of the session catalog

The indexes list every session once, under its own working directory and Git
root, as long as an entry is only ever added where its session has none.
`load` adds every line of the file, and `update_catalog_entry` takes an entry
out of the map but not out of the indexes before it adds it again; both list a
session twice.
-/

namespace CodeRs.Rollout

namespace SessionCatalog

/-! ## Order -/

instance : Std.Total SessionIndexEntry.Before :=
  ⟨fun entry entry' => le_total entry'.orderingKey entry.orderingKey⟩

instance : IsTrans SessionIndexEntry SessionIndexEntry.Before :=
  ⟨fun _ _ _ h h' => le_trans h' h⟩

theorem sessionId_of_before {entry entry' : SessionIndexEntry}
    (h : entry.Before entry')
    (h' : entry'.Before entry) : entry.sessionId = entry'.sessionId :=
  congrArg (fun key => (ofLex (ofLex key).2).2) (le_antisymm h' h)

/-! ## Exact indexes -/

/-- Both indexes list exactly the sessions with the path, each once and in the
order of all sessions. -/
structure IndexesExact (catalog : SessionCatalog) : Prop where
  byCwd : ∀ cwd, catalog.byCwd cwd = catalog.allOrdered.filter fun entry =>
    entry.cwdReal = cwd
  byGitRoot : ∀ gitRoot, catalog.byGitRoot gitRoot =
    catalog.allOrdered.filter fun entry => entry.gitProjectRoot = some gitRoot

/-- The lists of both indexes are right, also where no query looks. -/
structure Indexed (catalog : SessionCatalog) : Prop where
  cwd : catalog.byCwdIndex.Indexes catalog.entries fun entry =>
    some entry.cwdReal
  gitRoot : catalog.byGitRootIndex.Indexes catalog.entries
    SessionIndexEntry.gitProjectRoot

variable {catalog : SessionCatalog} {entry : SessionIndexEntry}
    {sessionId : Uuid}

theorem eq_of_before {entry entry' : SessionIndexEntry}
    (h : entry ∈ catalog.entries.values)
    (h' : entry' ∈ catalog.entries.values) (hbefore : entry.Before entry')
    (hbefore' : entry'.Before entry) : entry = entry' :=
  catalog.entries.eq_of_key_eq h h' (sessionId_of_before hbefore hbefore')

theorem finds_cwd :
    (catalog.byCwdIndex.Finds catalog.entries fun entry => some entry.cwdReal) ↔
    ∀ cwd, catalog.byCwd cwd = catalog.allOrdered.filter fun entry =>
      entry.cwdReal = cwd := by
  rw [SecondaryIndex.finds_iff_sort fun _ h _ h' => eq_of_before h h']
  simp only [Option.some.injEq]
  rfl

theorem finds_gitRoot :
    catalog.byGitRootIndex.Finds catalog.entries
      SessionIndexEntry.gitProjectRoot ↔
      ∀ gitRoot, catalog.byGitRoot gitRoot =
        catalog.allOrdered.filter fun entry =>
          entry.gitProjectRoot = some gitRoot :=
  SecondaryIndex.finds_iff_sort fun _ h _ h' => eq_of_before h h'

theorem Indexed.exact (h : Indexed catalog) : IndexesExact catalog :=
  ⟨finds_cwd.1 h.cwd.finds, finds_gitRoot.1 h.gitRoot.finds⟩

/-! ## What keeps the indexes right -/

theorem Indexed.indexEntry (h : Indexed catalog)
    (hfresh : catalog.entries.get entry.sessionId = none) :
    Indexed (catalog.indexEntry entry) :=
  ⟨h.cwd.push hfresh, h.gitRoot.push hfresh⟩

theorem Indexed.drop (h : Indexed catalog)
    (hget : catalog.entries.get sessionId = some entry) :
    Indexed
      ((catalog.removeEntry sessionId).removeFromIndexes sessionId entry) :=
  ⟨h.cwd.drop hget, h.gitRoot.drop hget⟩

/-- An entry takes the place of another one that is removed from the indexes
first. -/
theorem Indexed.replace {existing : SessionIndexEntry} (h : Indexed catalog)
    (hget : catalog.entries.get entry.sessionId = some existing) :
    Indexed
      ((catalog.removeFromIndexes entry.sessionId existing).indexEntry
        entry) := by
  have hgone :
      ((catalog.removeEntry entry.sessionId).removeFromIndexes entry.sessionId
      existing).entries.get entry.sessionId = none :=
    Keyed.get_remove_self _ _
  have hdropped := (h.drop hget).indexEntry hgone
  have hsame :
      ((catalog.removeEntry entry.sessionId).removeFromIndexes entry.sessionId
      existing).indexEntry entry =
        (catalog.removeFromIndexes entry.sessionId existing).indexEntry
          entry := by
    simp only [SessionCatalog.indexEntry, removeFromIndexes, removeEntry,
      Keyed.insert_remove_self]
  rwa [hsame] at hdropped

theorem Indexed.upsert (h : Indexed catalog) (entry : SessionIndexEntry) :
    Indexed (catalog.upsert entry) := by
  rw [SessionCatalog.upsert]
  cases hget : catalog.entries.get entry.sessionId with
  | none => exact h.indexEntry hget
  | some oldEntry => exact h.replace hget

theorem Indexed.setNickname (h : Indexed catalog) (sessionId : Uuid)
    (nickname : Option Text) :
    Indexed (catalog.setNickname sessionId nickname).2 := by
  rw [SessionCatalog.setNickname]
  cases catalog.entries.get sessionId with
  | none => exact h
  | some entry =>
      have hid : ∀ v : SessionIndexEntry,
          { v with nickname := nickname }.sessionId =
          v.sessionId := fun _ => rfl
      exact ⟨h.cwd.modify hid fun _ => rfl, h.gitRoot.modify hid fun _ => rfl⟩

theorem Indexed.remove (h : Indexed catalog) (sessionId : Uuid) :
    Indexed (catalog.remove sessionId) := by
  rw [SessionCatalog.remove]
  cases hget : catalog.entries.get sessionId with
  | none => exact h
  | some entry => exact h.drop hget

theorem Indexed.reconcileExisting {discovered : Entries}
    {state : SessionCatalog × ReconcileResult} (h : Indexed state.1)
    (sessionId : Uuid) :
    Indexed
      (SessionCatalog.reconcileExisting discovered state sessionId).1 := by
  rw [SessionCatalog.reconcileExisting]
  split
  · rename_i hget
    exact h.drop hget
  · exact h

theorem Indexed.reconcileDiscovered {state : SessionCatalog × ReconcileResult}
    (h : Indexed state.1) (entry : SessionIndexEntry) :
    Indexed (SessionCatalog.reconcileDiscovered state entry).1 := by
  rw [SessionCatalog.reconcileDiscovered]
  cases hget : state.1.entries.get entry.sessionId with
  | none => exact h.indexEntry hget
  | some existing =>
      change Indexed (if shouldReplace existing entry then _ else state).1
      split
      · exact @Indexed.replace _ (withNickname existing entry) _ h hget
      · exact h

theorem Indexed.reconcile (h : Indexed catalog) (scan : RolloutScan) :
    Indexed (catalog.reconcile scan).1 := by
  have hexisting : ∀ (discovered : Entries) (ids : List Uuid)
      (state : SessionCatalog × ReconcileResult), Indexed state.1 →
      Indexed
        (ids.foldl (SessionCatalog.reconcileExisting discovered) state).1 := by
    intro discovered ids
    induction ids with
    | nil => exact fun _ hstate => hstate
    | cons id rest ih =>
        exact fun state hstate => ih _ (hstate.reconcileExisting id)
  have hdiscovered : ∀ (entries : List SessionIndexEntry)
      (state : SessionCatalog × ReconcileResult), Indexed state.1 →
      Indexed (entries.foldl SessionCatalog.reconcileDiscovered state).1 := by
    intro entries
    induction entries with
    | nil => exact fun _ hstate => hstate
    | cons entry rest ih =>
        exact fun state hstate => ih _ (hstate.reconcileDiscovered entry)
  rw [SessionCatalog.reconcile]
  cases scan.discovered with
  | none => exact h
  | some discovered => exact hdiscovered _ _ (hexisting _ _ _ h)

/-! ## What spoils them -/

/-- The operation does not take an entry out of the map alone. -/
def Clean (catalog : SessionCatalog) : CatalogOp → Prop
  | .updateCatalogEntry sessionId _ _ => catalog.entries.get sessionId = none
  | _ => True

theorem updateCatalogEntry_of_some
    (hget : catalog.entries.get sessionId = some entry)
    (lastTimestamp : Text) (parsed : Option SessionIndexEntry) :
    catalog.updateCatalogEntry sessionId lastTimestamp parsed =
      (catalog.removeEntry sessionId).upsert
        (refresh entry lastTimestamp parsed) := by
  simp only [SessionCatalog.updateCatalogEntry, hget]

theorem updateCatalogEntry_of_none (hget : catalog.entries.get sessionId = none)
    (lastTimestamp : Text) (parsed : Option SessionIndexEntry) :
    catalog.updateCatalogEntry sessionId lastTimestamp parsed =
      parsed.elim catalog catalog.upsert := by
  simp only [SessionCatalog.updateCatalogEntry, hget]
  cases parsed <;> rfl

theorem Indexed.next (h : Indexed catalog) {op : CatalogOp}
    (hclean : Clean catalog op) :
    Indexed (catalog.next op) := by
  cases op with
  | upsert entry => exact h.upsert entry
  | remove sessionId => exact h.remove sessionId
  | setNickname sessionId nickname => exact h.setNickname sessionId nickname
  | reconcile scan => exact h.reconcile scan
  | updateCatalogEntry sessionId lastTimestamp parsed =>
      have hget : catalog.entries.get sessionId = none := hclean
      rw [SessionCatalog.next, updateCatalogEntry_of_none hget]
      cases parsed with
      | none => exact h
      | some entry => exact h.upsert entry

theorem refresh_sessionId (entry : SessionIndexEntry) (lastTimestamp : Text)
    (parsed : Option SessionIndexEntry) :
    (refresh entry lastTimestamp parsed).sessionId = entry.sessionId := by
  cases parsed <;> rfl

theorem refresh_cwdReal (entry : SessionIndexEntry) (lastTimestamp : Text)
    (parsed : Option SessionIndexEntry) :
    (refresh entry lastTimestamp parsed).cwdReal = entry.cwdReal := by
  cases parsed <;> rfl

/-- An entry that is taken out of the map alone and added again is listed
twice. -/
theorem Indexed.not_exact_updateCatalogEntry (h : Indexed catalog)
    (hget : catalog.entries.get sessionId = some entry) (lastTimestamp : Text)
    (parsed : Option SessionIndexEntry) :
    ¬IndexesExact
      (catalog.updateCatalogEntry sessionId lastTimestamp parsed) := by
  intro hexact
  obtain ⟨hentry, rfl⟩ := Keyed.get_eq_some.1 hget
  have hsessionId := refresh_sessionId entry lastTimestamp parsed
  have hcwd := refresh_cwdReal entry lastTimestamp parsed
  have hlisted : entry.sessionId ∈ catalog.byCwdIndex entry.cwdReal :=
    (h.cwd.mem _ _).2 ⟨entry, hentry, rfl, rfl⟩
  have hupsert :
      catalog.updateCatalogEntry entry.sessionId lastTimestamp parsed =
      (catalog.removeEntry entry.sessionId).indexEntry
        (refresh entry lastTimestamp parsed) := by
    have hgone : (catalog.removeEntry entry.sessionId).entries.get
        (refresh entry lastTimestamp parsed).sessionId = none := by
      rw [hsessionId]
      exact Keyed.get_remove_self _ _
    rw [updateCatalogEntry_of_some hget, SessionCatalog.upsert, hgone]
  have hmem : refresh entry lastTimestamp parsed ∈
      (catalog.updateCatalogEntry entry.sessionId lastTimestamp
        parsed).entries.values := by
    rw [hupsert]
    exact Keyed.mem_insert.2 (.inl rfl)
  have hcount := (finds_cwd.2 hexact.byCwd).count_le_one entry.cwdReal hmem
  rw [hupsert, hsessionId] at hcount
  have hindex : ((catalog.removeEntry entry.sessionId).indexEntry
      (refresh entry lastTimestamp parsed)).byCwdIndex entry.cwdReal =
        catalog.byCwdIndex entry.cwdReal ++ [entry.sessionId] := by
    change catalog.byCwdIndex.push (some _) _ entry.cwdReal = _
    rw [SecondaryIndex.push_apply, if_pos (congrArg some hcwd), hsessionId]
  have honce := List.count_pos_iff.2 hlisted
  rw [hindex, List.count_append, List.count_singleton_self] at hcount
  omega

/-! ## Runs -/

theorem load_eq_fill (fromStr : Text → Option SessionIndexEntry)
    (file : Option (List Text)) :
    load fromStr file =
      ⟨SecondaryIndex.fillMap _ (parseLines fromStr (file.getD [])),
        SecondaryIndex.fillIndex SessionIndexEntry.sessionId
          (fun entry => some entry.cwdReal) (parseLines fromStr (file.getD [])),
        SecondaryIndex.fillIndex SessionIndexEntry.sessionId
          SessionIndexEntry.gitProjectRoot
          (parseLines fromStr (file.getD []))⟩ := by
  rw [load]
  induction parseLines fromStr (file.getD []) using List.reverseRecOn with
  | nil => rfl
  | append_singleton entries entry ih =>
      rw [List.foldl_append, ih]
      simp only [SecondaryIndex.fillMap, SecondaryIndex.fillIndex,
        List.foldl_append]
      rfl

/-- The indexes are right after `load` exactly if the file has one line per
session. -/
theorem exact_load_iff {fromStr : Text → Option SessionIndexEntry}
    {file : Option (List Text)} :
    (((parseLines fromStr (file.getD [])).map
      SessionIndexEntry.sessionId).Nodup →
      Indexed (load fromStr file)) ∧
    (IndexesExact (load fromStr file) →
      ((parseLines fromStr (file.getD [])).map
        SessionIndexEntry.sessionId).Nodup) := by
  rw [load_eq_fill]
  constructor
  · intro hnodup
    exact ⟨SecondaryIndex.indexes_fill hnodup,
      SecondaryIndex.indexes_fill hnodup⟩
  · intro hexact
    exact SecondaryIndex.nodup_of_finds_fill (fun _ => rfl)
      (finds_cwd.2 hexact.byCwd)

/-- The indexes are exact throughout a run from `load` exactly if the file has
one line per session and no operation takes an entry out of the map alone. -/
theorem throughout_indexesExact_iff (fromStr : Text → Option SessionIndexEntry)
    (file : Option (List Text)) (ops : List CatalogOp) :
    Throughout SessionCatalog.next IndexesExact (load fromStr file) ops ↔
      ((parseLines fromStr (file.getD [])).map
        SessionIndexEntry.sessionId).Nodup ∧
        Along SessionCatalog.next Clean (load fromStr file) ops := by
  have hrun : ∀ {catalog : SessionCatalog}, Indexed catalog →
      (Throughout SessionCatalog.next IndexesExact catalog ops ↔
        Along SessionCatalog.next Clean catalog ops) := by
    intro catalog hindexed
    refine throughout_iff_along_of_inv ?_ ?_ ?_ hindexed ops
    · exact fun _ h => h.exact
    · exact fun _ _ h hclean => h.next hclean
    · intro catalog op h hexact
      cases op with
      | updateCatalogEntry sessionId lastTimestamp parsed =>
          cases hget : catalog.entries.get sessionId with
          | none => exact hget
          | some entry =>
              exact absurd hexact
                (h.not_exact_updateCatalogEntry hget lastTimestamp parsed)
      | _ => trivial
  obtain ⟨hload, hnodup⟩ := @exact_load_iff fromStr file
  constructor
  · intro h
    have hfirst : IndexesExact (load fromStr file) := by
      cases ops with
      | nil => exact h
      | cons op rest => exact h.1
    have hdistinct := hnodup hfirst
    exact ⟨hdistinct, (hrun (hload hdistinct)).1 h⟩
  · rintro ⟨hdistinct, hclean⟩
    exact (hrun (hload hdistinct)).2 hclean

/-! ## One session, updated -/

/-- A session in a directory. -/
def oneEntry : SessionIndexEntry where
  sessionId := 7
  rolloutPath := .relative ["sessions", "rollout-7.jsonl"]
  snapshotPath := none
  createdAt := "2025-01-01T10:00:00.000Z".toList
  lastEventAt := "2025-01-01T10:00:00.000Z".toList
  cwdReal := .absolute ["work"]
  gitProjectRoot := none
  gitBranch := none
  sessionSource := .cli
  messageCount := 1
  userMessageCount := 1
  lastUserSnippet := none
  nickname := none
  archived := false

theorem not_indexesExact_update :
    ¬∀ (fromStr : Text → Option SessionIndexEntry) (file : Option (List Text))
      (ops : List CatalogOp),
      Throughout SessionCatalog.next IndexesExact (load fromStr file) ops := by
  intro h
  have hrun := h (fun _ => none) none
    [.upsert oneEntry,
      .updateCatalogEntry 7 "2025-01-01T10:05:00.000Z".toList none]
  have hexact := hrun.2.2.byCwd (.absolute ["work"])
  exact absurd (congrArg List.length hexact) (by decide)

end SessionCatalog

end CodeRs.Rollout
