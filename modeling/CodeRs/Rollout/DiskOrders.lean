import CodeRs.Rollout.NewestRollouts

/-!
# The rollouts on disk in other orders

What two scans of the same disk find, and when the last of the newest rollouts
of a session is the same one in every order.
-/

namespace CodeRs.Rollout

variable {archived : Bool} {dir : List String} {entries : DirEntries}
    {disk disk' : Disk}
  {rollout newest existing : SessionIndexEntry} {sessionId : Uuid}

/-! ## The rollouts of a disk -/

theorem exists_parse_of_mem_filesBelow
    (h : rollout ∈ filesBelow archived dir entries) :
    ∃ names contents, rollout = parseRolloutFile archived names contents := by
  induction entries generalizing dir with
  | done => cases h
  | file name contents rest ih => exact ih h
  | dir name inner rest ihinner ihrest =>
      rcases List.mem_append.1 h with h | h
      · exact ihrest h
      · rcases List.mem_append.1 h with h | h
        · obtain ⟨name', -, contents, hparse⟩ := exists_parse_of_mem_filesIn h
          exact ⟨_, contents, hparse⟩
        · exact ihinner h

theorem of_mem_scanOrder (h : rollout ∈ scanOrder archived dir entries) :
    rollout.archived = archived ∧ rollout.nickname = none := by
  rcases List.mem_append.1 h with h | h
  · obtain ⟨_, -, contents, rfl⟩ := exists_parse_of_mem_filesIn h
    exact ⟨rfl, rfl⟩
  · obtain ⟨_, contents, rfl⟩ := exists_parse_of_mem_filesBelow h
    exact ⟨rfl, rfl⟩

/-- The rollouts below a directory, in the order of the scan, if it exists. -/
def filesUnder (archived : Bool) (root : String) (found : Option DirEntries) :
    List SessionIndexEntry :=
  (found.map (scanOrder archived [root])).getD []

/-- A rollout has another path than one that is found later, and the later one
can be found first in some order. -/
def Ordered (rollout later : SessionIndexEntry) : Prop :=
  rollout.rolloutPath ≠ later.rolloutPath ∧ ¬ later.ScannedBefore rollout

section FilesUnder

variable {root : String} {found found' : Option DirEntries}

theorem of_mem_filesUnder (h : rollout ∈ filesUnder archived root found) :
    rollout.archived = archived ∧ rollout.nickname = none ∧
      components [root] <+: rollout.directory := by
  cases found with
  | none => cases h
  | some entries =>
      obtain ⟨harchived, hnickname⟩ := of_mem_scanOrder h
      exact ⟨harchived, hnickname, prefix_of_mem_scanOrder h⟩

/-- Of two rollouts that are found, the later one has another path and is not
found first in every order. -/
theorem pairwise_filesUnder (h : ∀ entries ∈ found, entries.Distinct) :
    (filesUnder archived root found).Pairwise Ordered := by
  cases found with
  | none => exact .nil
  | some entries =>
      refine (pairwise_scanOrder (h entries rfl)).imp_of_mem
        fun hrollout hlater hapart => ?_
      refine ⟨hapart.1, ?_⟩
      rintro (⟨hfalse, htrue⟩ | habove)
      · rw [(of_mem_scanOrder hlater).1] at hfalse
        rw [(of_mem_scanOrder hrollout).1, hfalse] at htrue
        cases htrue
      · exact hapart.2 habove

theorem perm_filesUnder (h : Option.Rel Reordered found found') :
    (filesUnder archived root found').Perm
      (filesUnder archived root found) := by
  cases h with
  | none => exact .refl _
  | some h => exact h.perm _

theorem rel_none_iff (h : Option.Rel Reordered found found') :
    found' = none ↔ found = none := by
  cases h with
  | none => rfl
  | some h => exact iff_of_false (Option.some_ne_none _) (Option.some_ne_none _)

theorem rel_refl (found : Option DirEntries) :
    Option.Rel Reordered found found := by
  cases found with
  | none => exact .none
  | some entries => exact .some (.refl entries)

/-- A rollout that does not lie above another one is found behind it in some
order. -/
theorem exists_rel {first later : SessionIndexEntry}
    (hdistinct : ∀ entries ∈ found, entries.Distinct)
    (hfirst : first ∈ filesUnder archived root found)
    (hlater : later ∈ filesUnder archived root found) (hne : first ≠ later)
    (habove : ¬ later.Above first) :
    ∃ found', Option.Rel Reordered found found' ∧
      (∀ entries ∈ found', entries.Distinct) ∧
      [first, later].Sublist (filesUnder archived root found') := by
  cases found with
  | none => cases hfirst
  | some entries =>
      obtain ⟨entries', hreordered, hsublist⟩ :=
        exists_reordered hfirst hlater hne habove
      refine ⟨some entries', .some hreordered, ?_, hsublist⟩
      rintro _ ⟨⟩
      exact hreordered.distinct (hdistinct entries rfl)

end FilesUnder

namespace Disk

/-- The rollouts below `sessions`, in the order of the scan. -/
def sessionFiles (disk : Disk) : List SessionIndexEntry :=
  filesUnder false sessionsSubdir disk.sessions

/-- The rollouts below `archived_sessions`, in the order of the scan. -/
def archivedFiles (disk : Disk) : List SessionIndexEntry :=
  filesUnder true archivedSessionsSubdir disk.archived

theorem scan_eq (disk : Disk) :
    disk.scan = ⟨disk.sessions.map (scanOrder false [sessionsSubdir]),
      disk.archived.map (scanOrder true [archivedSessionsSubdir])⟩ := by
  simp only [scan, scanQueue_singleton]

theorem files_scan (disk : Disk) :
    disk.scan.files = disk.sessionFiles ++ disk.archivedFiles := by
  rw [scan_eq]
  rfl

theorem rollouts_eq (h : disk.sessions ≠ none) :
    disk.rollouts = disk.sessionFiles ++ disk.archivedFiles := by
  rw [rollouts]
  cases hsessions : disk.sessions with
  | none => exact absurd hsessions h
  | some entries => exact files_scan disk

/-- Rollouts below the two directories do not lie above one another. -/
theorem directory_ne {first second : SessionIndexEntry}
    (hfirst : components [sessionsSubdir] <+: first.directory)
    (hsecond : components [archivedSessionsSubdir] <+: second.directory) :
    ¬ second.directory <+: first.directory := by
  intro hbegins
  have hboth :=
    List.prefix_of_prefix_length_le hfirst (hsecond.trans hbegins) le_rfl
  have heq := hboth.eq_of_length rfl
  exact absurd heq (by decide)

/-- The archived rollouts come last. -/
theorem pairwise_files (disk : Disk) :
    (disk.sessionFiles ++ disk.archivedFiles).Pairwise Ordered := by
  rw [List.pairwise_append]
  refine ⟨pairwise_filesUnder disk.sessions_distinct,
    pairwise_filesUnder disk.archived_distinct,
    fun rollout hrollout later hlater => ?_⟩
  obtain ⟨-, -, hsessions⟩ := of_mem_filesUnder hrollout
  obtain ⟨harchived, -, hbegins⟩ := of_mem_filesUnder hlater
  have hnot := directory_ne hsessions hbegins
  refine ⟨fun heq => hnot ?_, ?_⟩
  · rw [SessionIndexEntry.directory, SessionIndexEntry.directory, heq]
  · rintro (⟨hfalse, -⟩ | habove)
    · rw [harchived] at hfalse
      cases hfalse
    · exact hnot habove.1

/-! ## Other orders -/

/-- The same rollouts are found in every order. -/
theorem Reordered.files_perm (h : disk.Reordered disk') :
    (disk'.sessionFiles ++ disk'.archivedFiles).Perm
      (disk.sessionFiles ++ disk.archivedFiles) :=
  (perm_filesUnder h.sessions).append (perm_filesUnder h.archived)

theorem Reordered.refl (disk : Disk) : disk.Reordered disk :=
  ⟨rel_refl disk.sessions, rel_refl disk.archived⟩

/-- A rollout that is not found before another one in every order is found
behind it in some order. -/
theorem exists_order {first later : SessionIndexEntry}
    (hfirst : first ∈ disk.sessionFiles ++ disk.archivedFiles)
    (hlater : later ∈ disk.sessionFiles ++ disk.archivedFiles)
    (hne : first ≠ later)
    (hbefore : ¬ later.ScannedBefore first) :
    ∃ disk', disk.Reordered disk' ∧
      [first, later].Sublist (disk'.sessionFiles ++ disk'.archivedFiles) := by
  rw [SessionIndexEntry.ScannedBefore, not_or] at hbefore
  obtain ⟨hroots, habove⟩ := hbefore
  rcases List.mem_append.1 hfirst with hfirst | hfirst
  · rcases List.mem_append.1 hlater with hlater | hlater
    · obtain ⟨sessions, hrel, hdistinct, hsublist⟩ :=
        exists_rel disk.sessions_distinct hfirst hlater hne habove
      exact ⟨⟨sessions, disk.archived, hdistinct, disk.archived_distinct⟩,
        ⟨hrel, rel_refl _⟩,
        hsublist.trans (List.sublist_append_left _ _)⟩
    · exact ⟨disk, .refl disk, sublist_append_of_mem hfirst hlater⟩
  · rcases List.mem_append.1 hlater with hlater | hlater
    · exact absurd ⟨(of_mem_filesUnder hlater).1,
        (of_mem_filesUnder hfirst).1⟩ hroots
    · obtain ⟨archived, hrel, hdistinct, hsublist⟩ :=
        exists_rel disk.archived_distinct hfirst hlater hne habove
      exact ⟨⟨disk.sessions, archived, disk.sessions_distinct, hdistinct⟩,
        ⟨rel_refl _, hrel⟩,
        hsublist.trans (List.sublist_append_right _ _)⟩

/-! ## What is discovered -/

theorem distinctPaths_files (disk : Disk) :
    DistinctPaths (disk.sessionFiles ++ disk.archivedFiles) :=
  disk.pairwise_files.imp fun h => h.1

theorem isNewest_of_discovered {discovered : Entries}
    (h : disk.scan.discovered = some discovered)
    (hget : discovered.get sessionId = some newest) :
    IsNewest (disk.sessionFiles ++ disk.archivedFiles) sessionId newest := by
  have hpaths := disk.distinctPaths_files
  rw [scan_eq] at h
  obtain ⟨sessions, hsessions, hdiscovered⟩ := Option.map_eq_some_iff.1 h
  have hfiles : disk.sessionFiles = sessions := congrArg (·.getD []) hsessions
  rw [hfiles] at hpaths ⊢
  cases harchived : disk.archived with
  | none =>
      have hnone : disk.archivedFiles = [] := by
        rw [archivedFiles, harchived]; rfl
      rw [harchived] at hdiscovered
      rw [hnone, List.append_nil] at hpaths ⊢
      rw [← hdiscovered] at hget
      exact isNewest_scan hpaths hget
  | some entries =>
      have hsome : disk.archivedFiles =
          scanOrder true [archivedSessionsSubdir] entries := by
        rw [archivedFiles, harchived]; rfl
      rw [harchived] at hdiscovered
      rw [hsome] at hpaths ⊢
      rw [← hdiscovered] at hget
      exact isNewest_merge hpaths hget

theorem exists_of_discovered {discovered : Entries}
    (h : disk.scan.discovered = some discovered)
    (hrollout : rollout ∈ disk.sessionFiles ++ disk.archivedFiles) :
    ∃ newest, discovered.get rollout.sessionId = some newest := by
  rw [← files_scan] at hrollout
  exact (RolloutScan.discovers h).found rollout hrollout

theorem discovered_ne_none (h : disk.sessions ≠ none) :
    ∃ discovered, disk.scan.discovered = some discovered := by
  cases hsessions : disk.sessions with
  | none => exact absurd hsessions h
  | some entries =>
      rw [scan_eq, hsessions]
      exact ⟨_, rfl⟩

theorem discovered_of_none (h : disk.sessions = none) :
    disk.scan.discovered = none := by
  rw [scan_eq, h]
  rfl

end Disk

/-! ## The newest rollout in other orders -/

theorem DistinctPaths.nodup_map {files : List SessionIndexEntry}
    (h : DistinctPaths files) :
    (files.map SessionIndexEntry.rolloutPath).Nodup :=
  List.pairwise_map.2 h

/-- What is found behind the newest rollout is older. -/
theorem IsNewest.version_lt {files : List SessionIndexEntry}
    (hpaths : DistinctPaths files)
    (h : IsNewest files sessionId newest)
    (hbehind : [newest, rollout].Sublist files)
    (hid : rollout.sessionId = sessionId) :
    rollout.version < newest.version := by
  have hnodup := hpaths.nodup_map.of_map
  obtain ⟨-, before, after, rfl, -, hafter⟩ := h
  refine hafter rollout ?_ hid
  obtain ⟨front, back, heq, hfront, hback⟩ := List.sublist_append_iff.1 hbehind
  cases front with
  | nil =>
      rw [List.nil_append] at heq
      rw [← heq] at hback
      exact List.singleton_sublist.1 (List.cons_sublist_cons.1 hback)
  | cons first front =>
      obtain ⟨rfl, -⟩ := List.cons.inj heq
      have hmem := hfront.subset List.mem_cons_self
      exact absurd rfl
        ((List.nodup_append.1 hnodup).2.2 _ hmem _ List.mem_cons_self)

theorem IsNewest.eq_of_lastRollout {disk disk' : Disk}
    (hreordered : disk.Reordered disk')
    (h : IsNewest (disk'.sessionFiles ++ disk'.archivedFiles) sessionId newest)
    {last : SessionIndexEntry}
    (hlast : last ∈ disk.sessionFiles ++ disk.archivedFiles)
    (hid : last.sessionId = sessionId)
    (hothers : ∀ rollout ∈ disk.sessionFiles ++ disk.archivedFiles,
      rollout.sessionId = sessionId → rollout ≠ last →
        rollout.version < last.version ∨
        (rollout.version = last.version ∧ rollout.ScannedBefore last)) :
    newest = last := by
  by_contra hne
  have hperm := hreordered.files_perm
  have hle := h.version_le (hperm.mem_iff.2 hlast) hid
  rcases hothers newest (hperm.mem_iff.1 h.mem) h.1 hne with
    hlt | ⟨heq, hbefore⟩
  · exact hlt.not_ge hle
  · have hpairwise := disk'.pairwise_files
    have hmem := hperm.mem_iff.2 hlast
    obtain ⟨-, before, after, hfiles, -, hafter⟩ := h
    rw [hfiles] at hpairwise hmem
    rcases List.mem_append.1 hmem with hmem | hmem
    · exact ((List.pairwise_append.1 hpairwise).2.2 last hmem newest
        List.mem_cons_self).2 hbefore
    · rcases List.mem_cons.1 hmem with heq' | hmem
      · exact hne heq'.symm
      · exact (hafter last hmem hid).ne heq.symm

end CodeRs.Rollout
