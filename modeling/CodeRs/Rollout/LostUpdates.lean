import CodeRs.Rollout.CatalogIndexes
import CodeRs.Rollout.CatalogWriters

/-!
# Writers that know the file

No change of a catalog loses a session that has a rollout, or its nickname.  So
no update of the catalog file is lost while every writer that saves knows the
sessions of the file.
-/

namespace CodeRs.Rollout

/-! ## Scans -/

/-- The entries that are discovered are parsed, and every session that is
parsed is discovered. -/
structure Discovers (discovered : Entries) (parsed : List SessionIndexEntry) :
    Prop where
  genuine : ∀ entry ∈ discovered.values, entry ∈ parsed
  found : ∀ entry ∈ parsed, ∃ newest,
    discovered.get entry.sessionId = some newest

theorem Discovers.keepNewer {discovered : Entries}
    {parsed : List SessionIndexEntry}
    (h : Discovers discovered parsed) (entry : SessionIndexEntry) :
    Discovers (Rollout.keepNewer discovered entry) (parsed ++ [entry]) := by
  have hinsert : Discovers (discovered.insert entry) (parsed ++ [entry]) := by
    constructor
    · intro e he
      obtain rfl | ⟨he, -⟩ := Keyed.mem_insert.1 he
      · exact List.mem_append_right _ List.mem_cons_self
      · exact List.mem_append_left _ (h.genuine e he)
    · intro e he
      by_cases hid : e.sessionId = entry.sessionId
      · exact ⟨entry, hid ▸ Keyed.get_insert_self ..⟩
      · rw [Keyed.get_insert_of_ne _ hid]
        obtain he | he := List.mem_append.1 he
        · exact h.found e he
        · exact absurd (congrArg _ (List.mem_singleton.1 he)) hid
  rw [Rollout.keepNewer]
  cases hget : discovered.get entry.sessionId with
  | none => exact hinsert
  | some existing =>
      change Discovers (if shouldReplace existing entry then _ else _) _
      split
      · exact hinsert
      · refine ⟨fun e he => List.mem_append_left _ (h.genuine e he), ?_⟩
        intro e he
        obtain he | he := List.mem_append.1 he
        · exact h.found e he
        · exact ⟨existing, by rw [List.mem_singleton.1 he, hget]⟩

theorem Discovers.foldl {discovered : Entries} {parsed : List SessionIndexEntry}
    (h : Discovers discovered parsed) (entries : List SessionIndexEntry) :
    Discovers (entries.foldl Rollout.keepNewer discovered)
      (parsed ++ entries) := by
  induction entries generalizing discovered parsed with
  | nil => rwa [List.append_nil]
  | cons entry rest ih =>
      have hrest := ih (h.keepNewer entry)
      rwa [List.append_assoc] at hrest

theorem discovers_scan (parsed : List SessionIndexEntry) :
    Discovers (scanRolloutFiles parsed) parsed :=
  Discovers.foldl ⟨fun _ he => absurd he List.not_mem_nil,
    fun _ he => absurd he List.not_mem_nil⟩ parsed

theorem RolloutScan.discovers {scan : RolloutScan} {discovered : Entries}
    (h : scan.discovered = some discovered) :
    Discovers discovered scan.files := by
  obtain ⟨sessions, hsessions, hdiscovered⟩ := Option.map_eq_some_iff.1 h
  rw [RolloutScan.files, hsessions]
  cases harchived : scan.archived with
  | none =>
      rw [harchived] at hdiscovered
      rw [← hdiscovered]
      simpa using discovers_scan sessions
  | some archived =>
      rw [harchived] at hdiscovered
      rw [← hdiscovered]
      have hboth :=
        (discovers_scan sessions).foldl (scanRolloutFiles archived).values
      refine ⟨?_, ?_⟩
      · intro e he
        obtain he | he := List.mem_append.1 (hboth.genuine e he)
        · exact List.mem_append_left _ he
        · exact List.mem_append_right _ ((discovers_scan archived).genuine e he)
      · intro e he
        obtain he | he := List.mem_append.1 he
        · exact hboth.found e (List.mem_append_left _ he)
        · obtain ⟨newest, hnewest⟩ := (discovers_scan archived).found e he
          obtain ⟨hmem, hid⟩ := Keyed.get_eq_some.1 hnewest
          rw [← hid]
          exact hboth.found newest (List.mem_append_right _ hmem)

/-! ## Changes keep sessions and nicknames -/

namespace SessionCatalog

variable {catalog : SessionCatalog} {sessionId : Uuid}
    {entry : SessionIndexEntry}

theorem get_reconcileExisting {discovered : Entries}
    {newest : SessionIndexEntry}
    (hfound : discovered.get sessionId = some newest) (ids : List Uuid)
    (state : SessionCatalog × ReconcileResult) :
    (ids.foldl (reconcileExisting discovered) state).1.entries.get sessionId =
      state.1.entries.get sessionId := by
  induction ids generalizing state with
  | nil => rfl
  | cons id rest ih =>
      rw [List.foldl_cons, ih, reconcileExisting]
      split
      · rename_i hnone _
        have hne : sessionId ≠ id := by
          rintro rfl
          rw [hfound] at hnone
          cases hnone
        exact Keyed.get_remove_of_ne _ hne
      · rfl

/-- A session keeps its nickname when discovered entries without one are taken
up. -/
theorem get_reconcileDiscovered {entries : List SessionIndexEntry}
    (hunnamed : ∀ e ∈ entries, e.nickname = none)
    {state : SessionCatalog × ReconcileResult}
    (hget : state.1.entries.get sessionId = some entry) :
    ∃ e, (entries.foldl reconcileDiscovered state).1.entries.get sessionId =
      some e ∧
      e.nickname = entry.nickname := by
  induction entries generalizing state entry with
  | nil => exact ⟨entry, hget, rfl⟩
  | cons first rest ih =>
      have hround : ∃ e,
          (reconcileDiscovered state first).1.entries.get sessionId = some e ∧
          e.nickname = entry.nickname := by
        rw [reconcileDiscovered]
        by_cases hid : sessionId = first.sessionId
        · rw [← hid, hget]
          change ∃ e, (if shouldReplace entry first then _ else _ :
            SessionCatalog × _).1.entries.get sessionId = some e ∧ _
          split
          · refine ⟨withNickname entry first, ?_, ?_⟩
            · exact hid ▸
                Keyed.get_insert_self state.1.entries (withNickname entry first)
            · rw [withNickname, hunnamed first List.mem_cons_self]
              rfl
          · exact ⟨entry, hget, rfl⟩
        · refine ⟨entry, ?_, rfl⟩
          rw [← hget]
          split
          · split
            · exact Keyed.get_insert_of_ne state.1.entries hid
            · rfl
          · exact Keyed.get_insert_of_ne state.1.entries hid
      obtain ⟨e, he, hnickname⟩ := hround
      obtain ⟨e', he', hnickname'⟩ :=
        ih (fun e he => hunnamed e (List.mem_cons_of_mem _ he)) he
      exact ⟨e', he', hnickname'.trans hnickname⟩

theorem get_reconcile (seen : Rollouts)
    (hget : catalog.entries.get sessionId = some entry)
    (hseen : seen.scan.has sessionId = true) :
    ∃ e, (catalog.reconcile seen.scan).1.entries.get sessionId = some e ∧
      e.nickname = entry.nickname := by
  rw [reconcile]
  cases hdiscovered : seen.scan.discovered with
  | none => exact ⟨entry, hget, rfl⟩
  | some discovered =>
      have hdiscovers := RolloutScan.discovers hdiscovered
      obtain ⟨parsed, hparsed, hid⟩ := List.any_eq_true.1 hseen
      obtain ⟨newest, hnewest⟩ := hdiscovers.found parsed hparsed
      rw [of_decide_eq_true hid] at hnewest
      refine get_reconcileDiscovered ?_
        ((get_reconcileExisting hnewest _ _).trans hget)
      intro e he
      exact seen.unnamed e (hdiscovers.genuine e he)

theorem entries_upsert (catalog : SessionCatalog) (entry : SessionIndexEntry) :
    (catalog.upsert entry).entries = catalog.entries.insert entry := by
  rw [upsert]
  split <;> rfl

/-- `update_catalog_entry` keeps the nickname of another session, unless it
takes it up from a rollout. -/
theorem get_updateCatalogEntry_of_ne {id : Uuid} {lastTimestamp : Text}
    {parsed : Option SessionIndexEntry}
    (hget : catalog.entries.get sessionId = some entry)
    (hunnamed : ∀ e ∈ parsed, e.nickname = none)
    (hspares : catalog.entries.get id = none → ∀ e ∈ parsed,
      sessionId = e.sessionId →
      entry.nickname = none)
    (hne : sessionId ≠ id) :
    ∃ e,
      (catalog.updateCatalogEntry id lastTimestamp parsed).entries.get
        sessionId = some e ∧
      e.nickname = entry.nickname := by
  cases hother : catalog.entries.get id with
  | some other =>
      refine ⟨entry, ?_, rfl⟩
      rw [updateCatalogEntry_of_some hother]
      have hid : (refresh other lastTimestamp parsed).sessionId = id := by
        rw [← Keyed.key_of_get hother]
        cases parsed <;> rfl
      rw [entries_upsert, Keyed.get_insert_of_ne _ (by rwa [hid]), ← hget]
      exact Keyed.get_remove_of_ne _ hne
  | none =>
      rw [updateCatalogEntry_of_none hother]
      cases parsed with
      | none => exact ⟨entry, hget, rfl⟩
      | some taken =>
          change ∃ e, (catalog.upsert taken).entries.get sessionId = some e ∧ _
          rw [entries_upsert]
          by_cases hid : sessionId = taken.sessionId
          · refine ⟨taken, hid ▸ Keyed.get_insert_self .., ?_⟩
            rw [hunnamed taken rfl, hspares hother taken rfl hid]
          · exact ⟨entry, (Keyed.get_insert_of_ne _ hid).trans hget, rfl⟩

theorem get_updateCatalogEntry_self {lastTimestamp : Text}
    {parsed : Option SessionIndexEntry}
    (hget : catalog.entries.get sessionId = some entry) :
    ∃ e,
      (catalog.updateCatalogEntry sessionId lastTimestamp parsed).entries.get
        sessionId =
      some e ∧ e.nickname = entry.nickname := by
  have hid : (refresh entry lastTimestamp parsed).sessionId = sessionId := by
    rw [← Keyed.key_of_get hget]
    cases parsed <;> rfl
  refine ⟨refresh entry lastTimestamp parsed, ?_, ?_⟩
  · rw [updateCatalogEntry_of_some hget, entries_upsert]
    conv_lhs => rw [← hid]
    exact Keyed.get_insert_self ..
  · cases parsed <;> rfl

/-- A change keeps every session whose rollout it has seen, with its nickname,
unless it sets the nickname or takes the session up without it. -/
theorem get_apply {change : Change}
    (hget : catalog.entries.get sessionId = some entry)
    (hseen : ∀ seen, change = .reconcile seen → seen.scan.has sessionId = true)
    (hspares : ∀ id rolloutPath lastTimestamp seen,
      change = .updateCatalogEntry id rolloutPath lastTimestamp seen →
      catalog.entries.get id = none → ∀ e ∈ seen.scan.parse rolloutPath,
        sessionId = e.sessionId → entry.nickname = none) :
    ∃ e, (catalog.apply change).2.entries.get sessionId = some e ∧
      e.nickname = (change.nickname sessionId).getD entry.nickname := by
  cases change with
  | updateCatalogEntry id rolloutPath lastTimestamp seen =>
      by_cases hne : sessionId = id
      · subst hne
        exact get_updateCatalogEntry_self hget
      · refine get_updateCatalogEntry_of_ne hget ?_
          (hspares id rolloutPath _ seen rfl) hne
        intro e he
        exact seen.unnamed e (List.mem_of_find?_eq_some he)
  | reconcile seen => exact get_reconcile seen hget (hseen seen rfl)
  | setNickname id nickname =>
      rw [apply, setNickname, Change.nickname]
      by_cases hid : id = sessionId
      · rw [if_pos hid, hid, hget]
        have hmodify := Keyed.get_modify_self catalog.entries sessionId
          (fun entry => { entry with nickname := nickname }) fun _ => rfl
        rw [hget] at hmodify
        exact ⟨{ entry with nickname := nickname }, hmodify, rfl⟩
      · rw [if_neg hid]
        refine ⟨entry, ?_, rfl⟩
        cases catalog.entries.get id with
        | none => exact hget
        | some other =>
            have hmodify := Keyed.get_modify_of_ne catalog.entries
              (fun entry => { entry with nickname := nickname })
              (fun _ => rfl) (Ne.symm hid)
            exact hmodify.trans hget
  | archive id rolloutPath snapshotPath =>
      rw [apply, archive]
      cases hother : catalog.entries.get id with
      | none => exact ⟨entry, hget, rfl⟩
      | some other =>
          change ∃ e, (catalog.upsert _).entries.get sessionId = some e ∧ _
          rw [entries_upsert]
          by_cases hid : sessionId = other.sessionId
          · have hsame : other = entry := by
              rw [Keyed.key_of_get hother] at hid
              rw [hid, hother] at hget
              exact Option.some.inj hget
            refine ⟨archivedEntry other rolloutPath snapshotPath, ?_, ?_⟩
            · conv_lhs => rw [hid]
              exact Keyed.get_insert_self catalog.entries
                (archivedEntry other rolloutPath snapshotPath)
            · rw [← hsame]
              rfl
          · have hinsert := Keyed.get_insert_of_ne catalog.entries
              (a := archivedEntry other rolloutPath snapshotPath) hid
            exact ⟨entry, hinsert.trans hget, rfl⟩

end SessionCatalog

/-! ## What is saved -/

namespace SessionCatalog

/-- A nickname is set only for a session that the copy knows. -/
theorem get_of_nickname {catalog : SessionCatalog} {change : Change}
    {sessionId : Uuid}
    {nickname : Option Text} (hsaves : (catalog.apply change).1 = true)
    (hnickname : change.nickname sessionId = some nickname) :
    ∃ entry, catalog.entries.get sessionId = some entry := by
  cases change with
  | setNickname id new =>
      obtain ⟨rfl, -⟩ := Option.ite_none_right_eq_some.1 hnickname
      cases hget : catalog.entries.get id with
      | none =>
          rw [apply, setNickname, hget] at hsaves
          cases hsaves
      | some entry => exact ⟨entry, rfl⟩
  | _ => cases hnickname

theorem entries_ofEntries (file : List SessionIndexEntry) :
    (ofEntries file).entries =
      SecondaryIndex.fillMap SessionIndexEntry.sessionId file := by
  have hfold : ∀ (file : List SessionIndexEntry) (catalog : SessionCatalog),
      (file.foldl indexEntry catalog).entries =
        file.foldl (fun m v => Keyed.insert m v) catalog.entries := by
    intro file
    induction file with
    | nil => exact fun _ => rfl
    | cons entry rest ih => exact fun catalog => ih (catalog.indexEntry entry)
  exact hfold file empty

/-- Reading a file that was saved gives its entries again. -/
theorem get_ofEntries_allOrdered (catalog : SessionCatalog) (sessionId : Uuid) :
    (ofEntries catalog.allOrdered).entries.get sessionId =
      catalog.entries.get sessionId := by
  have hperm : catalog.allOrdered.Perm catalog.entries.values :=
    List.perm_insertionSort _ _
  have hnodup : (catalog.allOrdered.map SessionIndexEntry.sessionId).Nodup :=
    (hperm.map _).nodup_iff.2 catalog.entries.nodup
  apply Option.ext
  intro entry
  rw [entries_ofEntries, Keyed.get_eq_some, Keyed.get_eq_some, ← hperm.mem_iff]
  constructor
  · rintro ⟨hmem, hid⟩
    exact ⟨SecondaryIndex.mem_of_mem_fillMap hmem, hid⟩
  · rintro ⟨hmem, hid⟩
    have hlisted :
        entry.sessionId ∈ catalog.allOrdered.map SessionIndexEntry.sessionId :=
      List.mem_map_of_mem hmem
    obtain ⟨other, hother, hsame⟩ := SecondaryIndex.get_fillMap_ne_none hlisted
    have heq : other = entry :=
      List.inj_on_of_nodup_map hnodup
        (SecondaryIndex.mem_of_mem_fillMap hother) hmem hsame
    exact ⟨heq ▸ hother, hid⟩

end SessionCatalog

/-! ## Runs -/

namespace CodeHome

variable {ι κ : Type} [DecidableEq ι] [DecidableEq κ] {writers : ι → Writer κ}
  {s s' : CodeHome ι κ}

/-- No update is lost, and what is to be kept is about sessions that have a
rollout. -/
structure Inv (s : CodeHome ι κ) : Prop extends s.KeepsUpdates where
  named_has : ∀ sessionId nickname, s.named sessionId = some nickname →
    s.rollouts.scan.has sessionId = true
  listed_has : ∀ sessionId, s.listed sessionId = true →
    s.rollouts.scan.has sessionId = true

/-- Two states that differ in the calls and the caches only. -/
structure Agrees (s s' : CodeHome ι κ) : Prop where
  file : s.file = s'.file
  rollouts : s.rollouts = s'.rollouts
  named : s.named = s'.named
  listed : s.listed = s'.listed

omit [DecidableEq ι] [DecidableEq κ] in
/-- A step that ends as a save does saves, or changes nothing but the calls and
the caches. -/
theorem agrees_of_save {writers : ι → Writer κ} {s s' : CodeHome ι κ} {p : ι}
    {copy : SessionCatalog} {change : Change}
    (hsaving : s.saving writers p = some (copy, change))
    (hs' : s'.Agrees (s.save change (copy.apply change))) :
    s'.Agrees s ∨ ∃ saved ∈ s.saving writers p,
      (saved.1.apply saved.2).1 = true ∧
      s'.Agrees (s.save saved.2 (saved.1.apply saved.2)) := by
  cases hsaves : (copy.apply change).1 with
  | false =>
      have hsame : s.save change (copy.apply change) = s := by
        rw [CodeHome.save, hsaves]
        rfl
      rw [hsame] at hs'
      exact .inl hs'
  | true => exact .inr ⟨(copy, change), hsaving, hsaves, hs'⟩

/-- A step of a call changes nothing but the calls and the caches, or saves. -/
theorem advance_cases (writers : ι → Writer κ) (s : CodeHome ι κ) (p : ι) :
    (s.advance writers p).Agrees s ∨
      ∃ saved ∈ s.saving writers p, (saved.1.apply saved.2).1 = true ∧
        (s.advance writers p).Agrees
          (s.save saved.2 (saved.1.apply saved.2)) := by
  rw [advance]
  cases hphase : s.phase p with
  | idle =>
      left
      simp only
      split
      · exact ⟨rfl, rfl, rfl, rfl⟩
      · rw [enter]
        split
        · split <;> exact ⟨rfl, rfl, rfl, rfl⟩
        · exact ⟨rfl, rfl, rfl, rfl⟩
  | uncached => exact .inl ⟨rfl, rfl, rfl, rfl⟩
  | loaded copy held => exact .inl ⟨rfl, rfl, rfl, rfl⟩
  | changing copy change held =>
      simp only
      have hsaving : s.saving writers p = some (copy, change) := by
        rw [saving, hphase]
      split
      · exact agrees_of_save hsaving ⟨rfl, rfl, rfl, rfl⟩
      · split
        · exact agrees_of_save hsaving ⟨rfl, rfl, rfl, rfl⟩
        · exact agrees_of_save hsaving ⟨rfl, rfl, rfl, rfl⟩
  | filling copy =>
      left
      simp only
      split <;> exact ⟨rfl, rfl, rfl, rfl⟩
  | loadedInner copy =>
      simp only
      cases hchange : secondChange (writers p).kind with
      | none => exact .inl ⟨rfl, rfl, rfl, rfl⟩
      | some change =>
          have hsaving : s.saving writers p = some (copy, change) := by
            rw [saving, hphase, hchange]
            rfl
          simp only
          split
          · exact agrees_of_save hsaving ⟨rfl, rfl, rfl, rfl⟩
          · exact agrees_of_save hsaving ⟨rfl, rfl, rfl, rfl⟩
  | caching copy =>
      left
      simp only
      split <;> exact ⟨rfl, rfl, rfl, rfl⟩
  | done => exact .inl ⟨rfl, rfl, rfl, rfl⟩

omit [DecidableEq ι] [DecidableEq κ] in
/-- What is kept while a session has a rollout holds after the lists are
brought up to date. -/
theorem inv_settle
    (hnamed : ∀ sessionId nickname, s.rollouts.scan.has sessionId = true →
      s.named sessionId = some nickname →
      ∃ entry, s.stored.get sessionId = some entry ∧ entry.nickname = nickname)
    (hlisted : ∀ sessionId, s.rollouts.scan.has sessionId = true →
      s.listed sessionId = true → ∃ entry,
        s.stored.get sessionId = some entry) :
    s.settle.Inv := by
  refine ⟨⟨?_, ?_⟩, ?_, ?_⟩
  · intro sessionId nickname h
    obtain ⟨hhas, h⟩ := Option.ite_none_right_eq_some.1 h
    exact hnamed sessionId nickname hhas h
  · intro sessionId h
    obtain ⟨h, hhas⟩ := Bool.and_eq_true_iff.1 h
    obtain h | h := Bool.or_eq_true_iff.1 h
    · exact hlisted sessionId hhas h
    · exact Option.isSome_iff_exists.1 h
  · intro sessionId nickname h
    exact (Option.ite_none_right_eq_some.1 h).1
  · intro sessionId h
    exact (Bool.and_eq_true_iff.1 h).2

omit [DecidableEq ι] [DecidableEq κ] in
/-- A writer that knows the sessions of the file keeps them. -/
theorem Inv.save (h : s.Inv) {copy : SessionCatalog} {change : Change}
    (hsaves : (copy.apply change).1 = true) (hknows : s.Knows copy)
    (hsees : s.Sees change)
    (hspares : s.SparesNicknames copy change)
    (hagrees : s'.Agrees (s.save change (copy.apply change))) :
    s'.settle.Inv := by
  have hstored : ∀ sessionId,
      s'.stored.get sessionId =
        (copy.apply change).2.entries.get sessionId := by
    intro sessionId
    rw [stored, hagrees.file, CodeHome.save, if_pos hsaves]
    exact SessionCatalog.get_ofEntries_allOrdered ..
  have hrollouts : s'.rollouts = s.rollouts := by
    rw [hagrees.rollouts, CodeHome.save, if_pos hsaves]
  -- What becomes of a session in the file that has a rollout.
  have hkept : ∀ sessionId entry, s.rollouts.scan.has sessionId = true →
      s.stored.get sessionId = some entry →
      ∃ e, s'.stored.get sessionId = some e ∧
        e.nickname = (change.nickname sessionId).getD entry.nickname := by
    intro sessionId entry hhas hget
    obtain ⟨hmem, rfl⟩ := Keyed.get_eq_some.1 hget
    obtain ⟨known, hknown, hnickname⟩ :=
      (Option.any_eq_true _ _).1 (hknows entry hmem hhas)
    have hsame := of_decide_eq_true hnickname
    rw [hstored, ← hsame]
    refine SessionCatalog.get_apply hknown ?_ ?_
    · rintro seen rfl
      exact hsees entry hmem hhas
    · rintro id rolloutPath lastTimestamp seen rfl hmissing parsed hparsed hid
      exact hsame.trans (hspares hmissing parsed hparsed entry hmem hhas hid)
  refine inv_settle ?_ ?_
  · intro sessionId nickname hhas hnamed
    rw [hrollouts] at hhas
    rw [hagrees.named, CodeHome.save, if_pos hsaves] at hnamed
    cases hnew : change.nickname sessionId with
    | none =>
        have hold : s.named sessionId = some nickname := by
          simpa [hnew] using hnamed
        obtain ⟨entry, hget, rfl⟩ := h.named sessionId nickname hold
        obtain ⟨e, he, hnickname⟩ := hkept sessionId entry hhas hget
        rw [hnew] at hnickname
        exact ⟨e, he, hnickname⟩
    | some new =>
        have hsame : new = nickname := by simpa [hnew] using hnamed
        obtain ⟨known, hknown⟩ := SessionCatalog.get_of_nickname hsaves hnew
        have hnot : ∀ seen, change = .reconcile seen →
            seen.scan.has sessionId = true := by
          rintro seen rfl
          cases hnew
        rw [hstored]
        obtain ⟨e, he, hnickname⟩ := SessionCatalog.get_apply hknown hnot (by
          rintro id rolloutPath lastTimestamp seen rfl
          cases hnew)
        rw [hnew] at hnickname
        exact ⟨e, he, hnickname.trans hsame⟩
  · intro sessionId hhas hlisted
    rw [hrollouts] at hhas
    rw [hagrees.listed, CodeHome.save, if_pos hsaves] at hlisted
    obtain ⟨entry, hget⟩ := h.listed sessionId hlisted
    obtain ⟨e, he, -⟩ := hkept sessionId entry hhas hget
    exact ⟨e, he⟩

/-- A step that saves nothing out of date keeps all updates. -/
theorem Inv.next (h : s.Inv) {turn : WriterTurn ι}
    (hok : s.SavesCurrent writers turn) :
    (s.next writers turn).Inv := by
  cases turn with
  | disk rollouts =>
      refine inv_settle ?_ ?_
      · exact fun sessionId nickname _ hnamed =>
          h.named sessionId nickname hnamed
      · exact fun sessionId _ hlisted => h.listed sessionId hlisted
  | step p =>
      obtain hagrees | ⟨saved, hsaved, hsaves, hagrees⟩ :=
        advance_cases writers s p
      · have hstored : (s.advance writers p).stored = s.stored := by
          rw [stored, hagrees.file, stored]
        refine inv_settle ?_ ?_
        · intro sessionId nickname _ hnamed
          rw [hagrees.named] at hnamed
          rw [hstored]
          exact h.named sessionId nickname hnamed
        · intro sessionId _ hlisted
          rw [hagrees.listed] at hlisted
          rw [hstored]
          exact h.listed sessionId hlisted
      · obtain ⟨hknows, hsees, hspares⟩ := hok saved hsaved hsaves
        exact h.save hsaves hknows hsees hspares hagrees

omit [DecidableEq ι] [DecidableEq κ] in
theorem inv_start (file : List SessionIndexEntry) (rollouts : Rollouts) :
    (start file rollouts : CodeHome ι κ).Inv := by
  refine ⟨⟨?_, ?_⟩, ?_, ?_⟩
  · intro sessionId nickname h
    cases h
  · intro sessionId h
    exact Option.isSome_iff_exists.1 (Bool.and_eq_true_iff.1 h).1
  · intro sessionId nickname h
    cases h
  · intro sessionId h
    exact (Bool.and_eq_true_iff.1 h).2

/-- In every run in which no writer saves what is out of date, no update is
lost. -/
theorem throughout_keepsUpdates (writers : ι → Writer κ)
    (file : List SessionIndexEntry)
    (rollouts : Rollouts) (turns : List (WriterTurn ι))
    (h : Along (next writers) (SavesCurrent writers)
      (start file rollouts) turns) :
    Throughout (next writers) KeepsUpdates (start file rollouts) turns := by
  have hinv :=
    h.throughout (fun _ _ hs hok => Inv.next hs hok) (inv_start file rollouts)
  exact hinv.mono fun _ hs => hs.toKeepsUpdates

/-! ## A recorder and a nickname -/

def oneRollout : Rollouts where
  scan := ⟨some [SessionCatalog.oneEntry], none⟩
  unnamed := by decide

/-- A recorder of the session and a call that names it. -/
def recorderAndNickname : Bool → Writer Unit
  | true => ⟨(), .setNickname 7 (some "launch".toList)⟩
  | false => ⟨(), .updateCatalogEntry 7 SessionCatalog.oneEntry.rolloutPath
      SessionCatalog.oneEntry.lastEventAt⟩

/-- The recorder after the nickname. -/
theorem keepsUpdates_oneByOne :
    Throughout (next recorderAndNickname) KeepsUpdates
      (start [SessionCatalog.oneEntry] oneRollout)
      (List.replicate 7 (.step true) ++ List.replicate 3 (.step false)) :=
  throughout_keepsUpdates recorderAndNickname [SessionCatalog.oneEntry]
    oneRollout _ (by decide)

/-- The recorder loads the catalog, the nickname is set, and the recorder
saves. -/
theorem not_keepsUpdates_overlapping :
    let last :=
      after (next recorderAndNickname)
        (start [SessionCatalog.oneEntry] oneRollout)
        (List.replicate 2 (.step false) ++ List.replicate 7 (.step true) ++
          [.step false])
    last.phase true = .done ∧ last.phase false = .done ∧
      ¬ last.KeepsUpdates := by
  refine ⟨rfl, rfl, ?_⟩
  intro h
  obtain ⟨entry, hget, hnickname⟩ :=
    h.named 7 (some "launch".toList) (by decide)
  have hnone :
      (after (next recorderAndNickname)
        (start [SessionCatalog.oneEntry] oneRollout)
      (List.replicate 2 (.step false) ++ List.replicate 7 (.step true) ++
        [.step false])).stored.get 7 = some SessionCatalog.oneEntry := by decide
  rw [hnone] at hget
  rw [← Option.some.inj hget] at hnickname
  exact absurd hnickname (by decide)

end CodeHome

end CodeRs.Rollout
