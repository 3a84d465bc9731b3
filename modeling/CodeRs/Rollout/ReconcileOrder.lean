import CodeRs.Rollout.DiskOrders
import CodeRs.Rollout.SessionViews

/-!
# Reconciling in any order

`reconcile` does not depend on the order of the directory entries if and only
if the last of the newest rollouts of a session is the same one in every order,
or does not matter because the catalog has a newer entry.
-/

namespace CodeRs.Rollout

variable {disk disk' : Disk} {rollout newest existing : SessionIndexEntry}
    {sessionId : Uuid}

/-! ## The entry of a session -/

namespace SessionView

theorem entry_reconciled_none (view : SessionView) :
    (view.reconciled none).entry = none := by
  obtain ⟨entry, byCwd, byGitRoot⟩ := view
  cases entry <;> rfl

theorem reconciled_of_version_lt {view : SessionView}
    (h : view.entry = some existing)
    (hversion : newest.version < existing.version) :
    view.reconciled (some newest) = view := by
  change view.upserted newest = view
  rw [upserted, h]
  exact if_neg (by
    rw [not_shouldReplace_of_version_lt hversion]; exact Bool.false_ne_true)

/-- The entry of a discovered session is up to date, and is that of the
discovered rollout unless there was a newer one. -/
theorem exists_entry_reconciled (view : SessionView)
    (newest : SessionIndexEntry) :
    ∃ entry, (view.reconciled (some newest)).entry = some entry ∧
      shouldReplace entry newest = false ∧
      ((∀ existing, view.entry = some existing →
        ¬ newest.version < existing.version) →
        entry.rolloutPath = newest.rolloutPath) := by
  change ∃ entry, (view.upserted newest).entry = some entry ∧ _
  cases hentry : view.entry with
  | none =>
      refine ⟨newest, ?_, by simp [shouldReplace], fun _ => rfl⟩
      rw [upserted, hentry]
      rfl
  | some existing =>
      rw [upserted, hentry]
      simp only
      by_cases hreplace : shouldReplace existing newest = true
      · rw [if_pos hreplace]
        exact ⟨_, rfl, not_shouldReplace_withNickname existing newest,
          fun _ => rfl⟩
      · rw [if_neg hreplace]
        refine ⟨existing, hentry, Bool.eq_false_iff.2 hreplace, fun hnot => ?_⟩
        by_contra hpath
        exact hreplace
          ((shouldReplace_iff hpath).2 (not_lt.1 (hnot existing rfl)))

end SessionView

/-! ## Nothing to do -/

/-- `reconcile` does nothing if no session is gone and every discovered one is
up to date. -/
theorem SessionCatalog.reconcile_of_settled {catalog : SessionCatalog}
    {scan : RolloutScan}
    {discovered : Entries} (h : scan.discovered = some discovered)
    (hgone : ∀ id, discovered.get id = none → catalog.entries.get id = none)
    (hsettled : ∀ id newest, discovered.get id = some newest →
      ∃ existing, catalog.entries.get id = some existing ∧
        shouldReplace existing newest = false) :
    catalog.reconcile scan = (catalog, ⟨0, 0, 0⟩) := by
  have hexisting : ∀ ids : List Uuid, ids.foldl (reconcileExisting discovered)
      (catalog, ⟨0, 0, 0⟩) = (catalog, ⟨0, 0, 0⟩) := by
    intro ids
    induction ids with
    | nil => rfl
    | cons id ids ih =>
        have hround : reconcileExisting discovered (catalog, ⟨0, 0, 0⟩) id =
            (catalog, ⟨0, 0, 0⟩) := by
          rw [reconcileExisting]
          split
          next hnone hsome =>
            rw [hgone id hnone] at hsome
            cases hsome
          next => rfl
        rw [List.foldl_cons, hround, ih]
  have hdiscovered : ∀ entries : List SessionIndexEntry,
      (∀ entry ∈ entries, discovered.get entry.sessionId = some entry) →
      entries.foldl reconcileDiscovered (catalog, ⟨0, 0, 0⟩) =
        (catalog, ⟨0, 0, 0⟩) := by
    intro entries
    induction entries with
    | nil => exact fun _ => rfl
    | cons entry entries ih =>
        intro hentries
        obtain ⟨existing, hget, hkeep⟩ :=
          hsettled _ entry (hentries entry List.mem_cons_self)
        have hround : reconcileDiscovered (catalog, ⟨0, 0, 0⟩) entry =
            (catalog, ⟨0, 0, 0⟩) := by
          rw [reconcileDiscovered, hget]
          exact if_neg (by rw [hkeep]; exact Bool.false_ne_true)
        rw [List.foldl_cons, hround]
        exact ih fun entry' hentry' =>
          hentries entry' (List.mem_cons_of_mem _ hentry')
  rw [reconcile, h]
  simp only
  rw [hexisting]
  exact hdiscovered _ fun entry hentry => Keyed.get_eq_some.2 ⟨hentry, rfl⟩

/-! ## Any order -/

variable {catalog : SessionCatalog}

/-- Every session has a newer entry or a last rollout. -/
def SettledInAnyOrder (catalog : SessionCatalog) (disk : Disk) : Prop :=
  ∀ rollout ∈ disk.rollouts,
    NewerEntry catalog disk.rollouts rollout.sessionId ∨
    LastRollout disk.rollouts rollout.sessionId

/-- Nothing is reconciled without a directory of sessions. -/
theorem reconcile_of_no_sessions (h : disk.Reordered disk')
    (hnone : disk.sessions = none)
    (catalog : SessionCatalog) :
    catalog.reconcile disk'.scan = (catalog, ⟨0, 0, 0⟩) := by
  rw [SessionCatalog.reconcile,
    Disk.discovered_of_none ((rel_none_iff h.sessions).2 hnone)]

theorem Disk.Reordered.exists_discovered (h : disk.Reordered disk')
    (hne : disk.sessions ≠ none) :
    ∃ discovered, disk'.scan.discovered = some discovered :=
  Disk.discovered_ne_none fun hnone => hne ((rel_none_iff h.sessions).1 hnone)

/-- Two orders discover the same rollout of a session, or older ones than its
entry. -/
theorem discovered_agree (h : SettledInAnyOrder catalog disk)
    (hne : disk.sessions ≠ none)
    {disk₁ disk₂ : Disk} (h₁ : disk.Reordered disk₁) (h₂ : disk.Reordered disk₂)
    {discovered₁ discovered₂ : Entries}
    (hd₁ : disk₁.scan.discovered = some discovered₁)
    (hd₂ : disk₂.scan.discovered = some discovered₂) (sessionId : Uuid) :
    (discovered₁.get sessionId = none ∧ discovered₂.get sessionId = none) ∨
      ∃ newest₁ newest₂, discovered₁.get sessionId = some newest₁ ∧
        discovered₂.get sessionId = some newest₂ ∧
          (newest₁ = newest₂ ∨ ∃ existing,
            catalog.entries.get sessionId = some existing ∧
            newest₁.version < existing.version ∧
            newest₂.version < existing.version) := by
  have hperm := h₂.files_perm.trans h₁.files_perm.symm
  cases hget₁ : discovered₁.get sessionId with
  | none =>
      refine .inl ⟨rfl, ?_⟩
      cases hget₂ : discovered₂.get sessionId with
      | none => rfl
      | some newest₂ =>
          have hnewest := Disk.isNewest_of_discovered hd₂ hget₂
          obtain ⟨other, hother⟩ :=
            Disk.exists_of_discovered hd₁ (hperm.mem_iff.1 hnewest.mem)
          rw [hnewest.1, hget₁] at hother
          cases hother
  | some newest₁ =>
      have hnewest₁ := Disk.isNewest_of_discovered hd₁ hget₁
      obtain ⟨newest₂, hget₂⟩ :=
        Disk.exists_of_discovered hd₂ (hperm.mem_iff.2 hnewest₁.mem)
      rw [hnewest₁.1] at hget₂
      have hnewest₂ := Disk.isNewest_of_discovered hd₂ hget₂
      have hmem₁ := h₁.files_perm.mem_iff.1 hnewest₁.mem
      have hmem₂ := h₂.files_perm.mem_iff.1 hnewest₂.mem
      have hcondition := h newest₁ (by rw [Disk.rollouts_eq hne]; exact hmem₁)
      rw [hnewest₁.1, NewerEntry, LastRollout,
        Disk.rollouts_eq hne] at hcondition
      refine .inr ⟨newest₁, newest₂, rfl, hget₂, ?_⟩
      rcases hcondition with
        ⟨existing, hexisting, holder⟩ | ⟨last, hlast, hid, hothers⟩
      · exact .inr ⟨existing, hexisting, holder newest₁ hmem₁ hnewest₁.1,
          holder newest₂ hmem₂ hnewest₂.1⟩
      · refine .inl ?_
        rw [hnewest₁.eq_of_lastRollout h₁ hlast hid hothers,
          hnewest₂.eq_of_lastRollout h₂ hlast hid hothers]

theorem sameCatalog_of_settled (h : SettledInAnyOrder catalog disk)
    {disk₁ disk₂ : Disk}
    (h₁ : disk.Reordered disk₁) (h₂ : disk.Reordered disk₂) :
    SameCatalog (catalog.reconcile disk₁.scan).1
      (catalog.reconcile disk₂.scan).1 := by
  by_cases hne : disk.sessions = none
  · rw [reconcile_of_no_sessions h₁ hne, reconcile_of_no_sessions h₂ hne]
    exact ⟨fun _ => rfl, fun _ => .refl _, fun _ => .refl _⟩
  · obtain ⟨discovered₁, hd₁⟩ := h₁.exists_discovered hne
    obtain ⟨discovered₂, hd₂⟩ := h₂.exists_discovered hne
    apply sameCatalog_of_view
    intro sessionId
    rw [SessionCatalog.view_reconcile hd₁, SessionCatalog.view_reconcile hd₂]
    rcases discovered_agree h hne h₁ h₂ hd₁ hd₂ sessionId with
      ⟨hnone₁, hnone₂⟩ |
      ⟨newest₁, newest₂, hget₁, hget₂, rfl | ⟨existing, hexisting, hlt₁, hlt₂⟩⟩
    · rw [hnone₁, hnone₂]
    · rw [hget₁, hget₂]
    · rw [hget₁, hget₂, SessionView.reconciled_of_version_lt hexisting hlt₁,
        SessionView.reconciled_of_version_lt hexisting hlt₂]

theorem reconcile_again_of_settled (h : SettledInAnyOrder catalog disk)
    {disk₁ disk₂ : Disk}
    (h₁ : disk.Reordered disk₁) (h₂ : disk.Reordered disk₂) :
    ((catalog.reconcile disk₁.scan).1.reconcile disk₂.scan).2 = ⟨0, 0, 0⟩ := by
  by_cases hne : disk.sessions = none
  · rw [reconcile_of_no_sessions h₁ hne, reconcile_of_no_sessions h₂ hne]
  · obtain ⟨discovered₁, hd₁⟩ := h₁.exists_discovered hne
    obtain ⟨discovered₂, hd₂⟩ := h₂.exists_discovered hne
    have hagree := discovered_agree h hne h₁ h₂ hd₁ hd₂
    have hentry : ∀ sessionId,
        (catalog.reconcile disk₁.scan).1.entries.get sessionId =
        ((catalog.view sessionId).reconciled
          (discovered₁.get sessionId)).entry :=
      fun sessionId =>
        congrArg SessionView.entry
          (SessionCatalog.view_reconcile hd₁ catalog sessionId)
    rw [SessionCatalog.reconcile_of_settled hd₂]
    · intro sessionId hnone
      rcases hagree sessionId with ⟨hnone₁, -⟩ | ⟨_, newest₂, -, hget₂, -⟩
      · rw [hentry, hnone₁, SessionView.entry_reconciled_none]
      · rw [hnone] at hget₂
        cases hget₂
    · intro sessionId newest hnewest
      rcases hagree sessionId with ⟨-, hnone₂⟩ |
        ⟨newest₁, newest₂, hget₁, hget₂,
          rfl | ⟨existing, hexisting, hlt₁, hlt₂⟩⟩
      · rw [hnewest] at hnone₂
        cases hnone₂
      · rw [hnewest] at hget₂
        obtain rfl := Option.some.inj hget₂
        obtain ⟨entry, hsome, hkeep, -⟩ :=
          (catalog.view sessionId).exists_entry_reconciled newest
        exact ⟨entry, by rw [hentry, hget₁, hsome], hkeep⟩
      · rw [hnewest] at hget₂
        obtain rfl := Option.some.inj hget₂
        refine ⟨existing, ?_, not_shouldReplace_of_version_lt hlt₂⟩
        rw [hentry, hget₁, SessionView.reconciled_of_version_lt hexisting hlt₁]
        exact hexisting

theorem exists_rolloutPath_reconcile {discovered : Entries}
    (hd : disk.scan.discovered = some discovered)
    (hget : discovered.get sessionId = some newest)
    (hnewer : ∀ existing, catalog.entries.get sessionId = some existing →
      ¬ newest.version < existing.version) :
    ∃ entry, (catalog.reconcile disk.scan).1.entries.get sessionId =
      some entry ∧
      entry.rolloutPath = newest.rolloutPath := by
  obtain ⟨entry, hentry, -, hpath⟩ :=
    (catalog.view sessionId).exists_entry_reconciled newest
  refine ⟨entry, ?_, hpath hnewer⟩
  rw [← hentry, ← hget]
  exact congrArg SessionView.entry
    (SessionCatalog.view_reconcile hd catalog sessionId)

/-- A rollout that is as new as the newest one is found before it in every
order, if the entry of the session is the same in every order. -/
theorem scannedBefore_of_same
    (h : ∀ disk', disk.Reordered disk' →
      (catalog.reconcile disk'.scan).1.entries.get sessionId =
        (catalog.reconcile disk.scan).1.entries.get sessionId)
    {discovered : Entries} (hd : disk.scan.discovered = some discovered)
    (hget : discovered.get sessionId = some newest)
    (hnewer : ∀ existing, catalog.entries.get sessionId = some existing →
      ¬ newest.version < existing.version)
    (hrollout : rollout ∈ disk.sessionFiles ++ disk.archivedFiles)
    (hid : rollout.sessionId = sessionId) (hne : rollout ≠ newest)
    (heq : rollout.version = newest.version) :
    rollout.ScannedBefore newest := by
  by_contra hbefore
  have hnewest := Disk.isNewest_of_discovered hd hget
  obtain ⟨disk', hreordered, hsublist⟩ :=
    Disk.exists_order hnewest.mem hrollout hne.symm hbefore
  have hsessions : disk.sessions ≠ none := fun hnone => by
    rw [Disk.discovered_of_none hnone] at hd
    cases hd
  obtain ⟨discovered', hd'⟩ := hreordered.exists_discovered hsessions
  have hperm := hreordered.files_perm
  obtain ⟨newest', hget'⟩ :=
    Disk.exists_of_discovered hd' (hperm.mem_iff.2 hrollout)
  rw [hid] at hget'
  have hnewest' := Disk.isNewest_of_discovered hd' hget'
  have hle := hnewest'.version_le (hperm.mem_iff.2 hnewest.mem) hnewest.1
  obtain ⟨entry, hentry, hpath⟩ := exists_rolloutPath_reconcile hd hget hnewer
  obtain ⟨entry', hentry', hpath'⟩ := exists_rolloutPath_reconcile hd' hget'
    fun existing hexisting hlt => hnewer existing hexisting (hle.trans_lt hlt)
  obtain rfl : entry' = entry :=
    Option.some.inj (hentry'.symm.trans ((h disk' hreordered).trans hentry))
  obtain rfl : newest' = newest :=
    List.inj_on_of_nodup_map disk.distinctPaths_files.nodup_map
      (hperm.mem_iff.1 hnewest'.mem) hnewest.mem (hpath'.symm.trans hpath)
  exact (hnewest'.version_lt disk'.distinctPaths_files hsublist hid).ne heq

/-- Where the entries are the same in every order, every session has a newer
entry or a last rollout. -/
theorem settledInAnyOrder_of_same
    (h : ∀ disk', disk.Reordered disk' → ∀ sessionId,
      (catalog.reconcile disk'.scan).1.entries.get sessionId =
        (catalog.reconcile disk.scan).1.entries.get sessionId) :
    SettledInAnyOrder catalog disk := by
  intro rollout hrollout
  have hne : disk.sessions ≠ none := by
    intro hnone
    rw [Disk.rollouts, hnone] at hrollout
    cases hrollout
  rw [Disk.rollouts_eq hne] at hrollout ⊢
  obtain ⟨discovered, hd⟩ := Disk.discovered_ne_none hne
  obtain ⟨newest, hget⟩ := Disk.exists_of_discovered hd hrollout
  have hnewest := Disk.isNewest_of_discovered hd hget
  by_cases hnewer : ∃ existing,
    catalog.entries.get rollout.sessionId = some existing ∧
      newest.version < existing.version
  · obtain ⟨existing, hexisting, hlt⟩ := hnewer
    exact .inl ⟨existing, hexisting, fun other hother hid =>
      (hnewest.version_le hother hid).trans_lt hlt⟩
  · refine .inr ⟨newest, hnewest.mem, hnewest.1,
      fun other hother hid hdiffers => ?_⟩
    rcases (hnewest.version_le hother hid).lt_or_eq with hlt | heq
    · exact .inl hlt
    · exact .inr ⟨heq,
        scannedBefore_of_same (fun disk' hreordered => h disk' hreordered _) hd
        hget (fun existing hexisting hlt => hnewer ⟨existing, hexisting,
          hlt⟩) hother hid
        hdiffers heq⟩

theorem nickname_reconcile (catalog : SessionCatalog) {disk disk' : Disk}
    (hreordered : disk.Reordered disk') {entry : SessionIndexEntry}
    (hget : catalog.entries.get sessionId = some entry)
    (hhas : disk.scan.has sessionId = true) :
    ∃ entry', (catalog.reconcile disk'.scan).1.entries.get sessionId =
      some entry' ∧
      entry'.nickname = entry.nickname := by
  have hunnamed : ∀ rollout ∈ disk'.scan.files, rollout.nickname = none := by
    intro rollout hrollout
    rw [Disk.files_scan] at hrollout
    rcases List.mem_append.1 hrollout with hrollout | hrollout
    · exact (of_mem_filesUnder hrollout).2.1
    · exact (of_mem_filesUnder hrollout).2.1
  refine SessionCatalog.get_reconcile ⟨disk'.scan, hunnamed⟩ hget ?_
  obtain ⟨rollout, hrollout, hid⟩ := List.any_eq_true.1 hhas
  rw [Disk.files_scan] at hrollout
  refine List.any_eq_true.2 ⟨rollout, ?_, hid⟩
  rw [Disk.files_scan]
  exact hreordered.files_perm.mem_iff.2 hrollout

/-- `reconcile` does not depend on the order of the directory entries if and
only if every session on disk has a newer entry or a rollout that is the last
of the newest ones in every order. -/
theorem reconcilesInAnyOrder_iff (catalog : SessionCatalog) (disk : Disk) :
    ReconcilesInAnyOrder catalog disk ↔ SettledInAnyOrder catalog disk := by
  constructor
  · intro h
    exact settledInAnyOrder_of_same fun disk' hreordered =>
      (h.same disk' hreordered).entries
  · intro h
    exact ⟨fun disk' h' => sameCatalog_of_settled h h' (.refl disk),
      fun disk' disk'' h' h'' => reconcile_again_of_settled h h' h'',
      fun disk' h' sessionId entry hget hhas =>
        nickname_reconcile catalog h' hget hhas⟩

/-- A session with one message. -/
def copiedContents : RolloutContents where
  sessionId := 7
  createdAt := ['1', '0', ':', '0', '0']
  lastEventAt := ['1', '0', ':', '0', '5']
  cwdReal := .absolute ["work"]
  gitProjectRoot := none
  gitBranch := none
  sessionSource := .cli
  messageCount := 1
  userMessageCount := 1
  lastUserSnippet := none
  hasSnapshot := false

/-- A rollout and a copy of it, in the order of their names. -/
def copiedRollout (first second : String) (h : first ≠ second) : Disk where
  sessions :=
    some
      (.file
        first (some copiedContents) (.file second (some copiedContents) .done))
  archived := none
  sessions_distinct _ hentries :=
    Option.some.inj hentries ▸ ⟨fun hmem => h (List.mem_singleton.1 hmem),
      List.not_mem_nil,
      trivial⟩
  archived_distinct _ hentries := absurd hentries (Option.some_ne_none _).symm

theorem rolloutNames_ne : "rollout-1.jsonl" ≠ "rollout-2.jsonl" := by decide

/-- The catalog gets the path of whichever copy comes last. -/
theorem not_reconcilesInAnyOrder :
    ¬ ∀ (catalog : SessionCatalog) (disk : Disk),
      ReconcilesInAnyOrder catalog disk := by
  intro h
  have hreordered : (copiedRollout _ _ rolloutNames_ne).Reordered
      (copiedRollout _ _ rolloutNames_ne.symm) := ⟨.some (.swapFiles ..), .none⟩
  have hsame := ((h .empty _).same _ hreordered).entries 7
  rw [Disk.scan_eq, Disk.scan_eq] at hsame
  exact absurd (congrArg (Option.map SessionIndexEntry.rolloutPath) hsame)
    (by decide)

end CodeRs.Rollout
