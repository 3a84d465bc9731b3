import CodeRs.Rollout.DirectoryScan

/-!
# The order of a scan

A scan finds the files of a directory before those of the directories in it.
Any other two files are found in both orders, as the entries of the directories
come.
-/

namespace CodeRs.Rollout

variable {archived : Bool} {dir : List String} {name : String}
    {entries entries' : DirEntries}

/-! ## The files in order -/

/-- The rollouts of a directory. -/
def filesIn (archived : Bool) (dir : List String) :
    DirEntries → List SessionIndexEntry
  | .done => []
  | .file name contents rest =>
      (rolloutAt archived dir name contents).toList ++ filesIn archived dir rest
  | .dir _ _ rest => filesIn archived dir rest

/-- The directories of a directory, the last one first. -/
def dirsIn (dir : List String) : DirEntries → ScanQueue
  | .done => []
  | .file _ _ rest => dirsIn dir rest
  | .dir name entries rest => dirsIn dir rest ++ [(dir ++ [name], entries)]

/-- The rollouts below the directories of a directory. -/
def filesBelow (archived : Bool) (dir : List String) :
    DirEntries → List SessionIndexEntry
  | .done => []
  | .file _ _ rest => filesBelow archived dir rest
  | .dir name entries rest =>
      filesBelow archived dir rest ++
        (filesIn archived (dir ++ [name]) entries ++
          filesBelow archived (dir ++ [name]) entries)

/-- The rollouts of a directory and below it, in the order of a scan. -/
def scanOrder (archived : Bool) (dir : List String) (entries : DirEntries) :
    List SessionIndexEntry :=
  filesIn archived dir entries ++ filesBelow archived dir entries

theorem scanOrder_file (contents : Option RolloutContents) (rest : DirEntries) :
    scanOrder archived dir (.file name contents rest) =
      (rolloutAt archived dir name contents).toList ++
        scanOrder archived dir rest :=
  List.append_assoc ..

theorem scanOrder_dir (entries rest : DirEntries) :
    scanOrder archived dir (.dir name entries rest) =
      scanOrder archived dir rest ++
        scanOrder archived (dir ++ [name]) entries :=
  (List.append_assoc ..).symm

theorem filesBelow_eq (archived : Bool) (dir : List String)
    (entries : DirEntries) :
    filesBelow archived dir entries =
      (dirsIn dir entries).flatMap fun below =>
        scanOrder archived below.1 below.2 := by
  induction entries with
  | done => rfl
  | file name contents rest ih => exact ih
  | dir name entries rest _ ih =>
      rw [dirsIn, List.flatMap_append, ← ih, List.flatMap_singleton]
      rfl

/-- Reading a directory finds its rollouts and queues its directories. -/
theorem readDir_eq (entries : DirEntries) (queue : ScanQueue)
    (found : List SessionIndexEntry) :
    readDir archived dir entries (queue, found) =
      (dirsIn dir entries ++ queue, found ++ filesIn archived dir entries) := by
  induction entries generalizing queue found with
  | done => rw [filesIn, List.append_nil]; rfl
  | file name contents rest ih =>
      rw [readDir, ih, filesIn, List.append_assoc]; rfl
  | dir name entries rest _ ih =>
      rw [readDir, ih, dirsIn, List.append_assoc]; rfl

/-- The loop finds the rollouts of the queued directories, one after the
other. -/
theorem scanQueue_eq (queue : ScanQueue) (found : List SessionIndexEntry) :
    scanQueue archived queue found =
      found ++ queue.flatMap fun below =>
        scanOrder archived below.1 below.2 := by
  induction queue, found using scanQueue.induct archived with
  | case1 found => rw [scanQueue, List.flatMap_nil, List.append_nil]
  | case2 found dir entries queue state ih =>
      rw [scanQueue, ih, List.flatMap_cons]
      change (readDir archived dir entries (queue, found)).2 ++ _ = _
      rw [show state = _ from readDir_eq entries queue found, readDir_eq]
      rw [List.flatMap_append, ← filesBelow_eq, scanOrder]
      simp only [List.append_assoc]

theorem scanQueue_singleton (entries : DirEntries) :
    scanQueue archived [(dir, entries)] [] =
      scanOrder archived dir entries := by
  rw [scanQueue_eq, List.flatMap_singleton, List.nil_append]

/-! ## Other orders -/

theorem Reordered.refl (entries : DirEntries) : Reordered entries entries := by
  induction entries with
  | done => exact .done
  | file name contents rest ih => exact .file name contents ih
  | dir name entries rest ih ihrest => exact .dir name ih ihrest

theorem Reordered.perm (h : Reordered entries entries') (dir : List String) :
    (scanOrder archived dir entries').Perm
      (scanOrder archived dir entries) := by
  induction h generalizing dir with
  | done => exact .refl _
  | file name contents _ ih =>
      rw [scanOrder_file, scanOrder_file]
      exact (ih dir).append_left _
  | dir name _ _ ih ihrest =>
      rw [scanOrder_dir, scanOrder_dir]
      exact (ihrest dir).append (ih (dir ++ [name]))
  | swapFiles =>
      rw [scanOrder_file, scanOrder_file, scanOrder_file, scanOrder_file]
      exact List.perm_append_comm_assoc ..
  | swapFileDir =>
      rw [scanOrder_file, scanOrder_dir, scanOrder_dir, scanOrder_file,
        List.append_assoc]
  | swapDirFile =>
      rw [scanOrder_file, scanOrder_dir, scanOrder_dir, scanOrder_file,
        List.append_assoc]
  | swapDirs =>
      rw [scanOrder_dir, scanOrder_dir, scanOrder_dir, scanOrder_dir,
        List.append_assoc,
        List.append_assoc]
      exact List.perm_append_comm.append_left _
  | trans _ _ ih ih' => exact (ih' dir).trans (ih dir)

theorem Reordered.names_perm (h : Reordered entries entries') :
    entries'.names.Perm entries.names := by
  induction h with
  | done => exact .refl _
  | file name _ _ ih => exact ih.cons name
  | dir name _ _ _ ih => exact ih.cons name
  | swapFiles | swapFileDir | swapDirFile | swapDirs => exact .swap ..
  | trans _ _ ih ih' => exact ih'.trans ih

theorem not_mem_cons_swap {name name' : String} {names : List String}
    (h : name ∉ name' :: names) (h' : name' ∉ names) :
    name' ∉ name :: names ∧ name ∉ names := by
  rw [List.mem_cons, not_or] at h ⊢
  exact ⟨⟨Ne.symm h.1, h'⟩, h.2⟩

theorem Reordered.distinct (h : Reordered entries entries')
    (hentries : entries.Distinct) :
    entries'.Distinct := by
  induction h with
  | done => trivial
  | file name contents h ih =>
      exact ⟨fun hmem => hentries.1 (h.names_perm.mem_iff.1 hmem),
        ih hentries.2⟩
  | dir name h hrest ih ihrest =>
      exact ⟨fun hmem => hentries.1 (hrest.names_perm.mem_iff.1 hmem),
        ih hentries.2.1,
        ihrest hentries.2.2⟩
  | swapFiles name name' =>
      obtain ⟨hname, hname', hrest⟩ := hentries
      obtain ⟨hname', hname⟩ := not_mem_cons_swap hname hname'
      exact ⟨hname', hname, hrest⟩
  | swapFileDir name name' =>
      obtain ⟨hname, hname', hdir, hrest⟩ := hentries
      obtain ⟨hname', hname⟩ := not_mem_cons_swap hname hname'
      exact ⟨hname', hdir, hname, hrest⟩
  | swapDirFile name name' =>
      obtain ⟨hname, hdir, hname', hrest⟩ := hentries
      obtain ⟨hname', hname⟩ := not_mem_cons_swap hname hname'
      exact ⟨hname', hname, hdir, hrest⟩
  | swapDirs name name' =>
      obtain ⟨hname, hdir, hname', hdir', hrest⟩ := hentries
      obtain ⟨hname', hname⟩ := not_mem_cons_swap hname hname'
      exact ⟨hname', hdir', hname, hdir, hrest⟩
  | trans _ _ ih ih' => exact ih' (ih hentries)

/-! ## Files that are found first -/

/-- The components of a path of names. -/
def components (dir : List String) : List Component := dir.map .normal

theorem components_append (dir : List String) (name : String) :
    components (dir ++ [name]) = components dir ++ [.normal name] :=
  List.map_append

theorem exists_parse_of_mem_filesIn {rollout : SessionIndexEntry}
    (h : rollout ∈ filesIn archived dir entries) :
    ∃ name ∈ entries.names, ∃ contents,
      rollout = parseRolloutFile archived (dir ++ [name]) contents := by
  induction entries with
  | done => cases h
  | file name contents rest ih =>
      rcases List.mem_append.1 h with h | h
      · rw [Option.mem_toList, rolloutAt] at h
        split at h
        · obtain ⟨contents, -, rfl⟩ := Option.map_eq_some_iff.1 h
          exact ⟨name, List.mem_cons_self, contents, rfl⟩
        · cases h
      · obtain ⟨name', hname', hparse⟩ := ih h
        exact ⟨name', List.mem_cons_of_mem _ hname', hparse⟩
  | dir name entries rest _ ih =>
      obtain ⟨name', hname', hparse⟩ := ih h
      exact ⟨name', List.mem_cons_of_mem _ hname', hparse⟩

theorem rolloutPath_of_mem_filesIn {rollout : SessionIndexEntry}
    (h : rollout ∈ filesIn archived dir entries) :
    ∃ name ∈ entries.names,
      rollout.rolloutPath = Path.relative (dir ++ [name]) := by
  obtain ⟨name, hname, contents, rfl⟩ := exists_parse_of_mem_filesIn h
  exact ⟨name, hname, rfl⟩

theorem directory_of_rolloutPath {rollout : SessionIndexEntry}
    (h : rollout.rolloutPath = Path.relative (dir ++ [name])) :
    rollout.directory = components dir := by
  rw [SessionIndexEntry.directory, h]
  change (components (dir ++ [name])).dropLast = _
  rw [components_append, List.dropLast_concat]

theorem prefix_of_mem_filesBelow {rollout : SessionIndexEntry}
    (h : rollout ∈ filesBelow archived dir entries) :
    ∃ name ∈ entries.names,
      components (dir ++ [name]) <+: rollout.directory := by
  induction entries generalizing dir with
  | done => cases h
  | file name contents rest ih =>
      obtain ⟨name', hname', hbegins⟩ := ih h
      exact ⟨name', List.mem_cons_of_mem _ hname', hbegins⟩
  | dir name entries rest ihentries ihrest =>
      rcases List.mem_append.1 h with h | h
      · obtain ⟨name', hname', hbegins⟩ := ihrest h
        exact ⟨name', List.mem_cons_of_mem _ hname', hbegins⟩
      · refine ⟨name, List.mem_cons_self, ?_⟩
        rcases List.mem_append.1 h with h | h
        · obtain ⟨_, -, hpath⟩ := rolloutPath_of_mem_filesIn h
          rw [directory_of_rolloutPath hpath]
        · obtain ⟨name', -, hbegins⟩ := ihentries h
          rw [components_append] at hbegins
          exact (List.prefix_append _ _).trans hbegins

theorem prefix_of_mem_scanOrder {rollout : SessionIndexEntry}
    (h : rollout ∈ scanOrder archived dir entries) :
    components dir <+: rollout.directory := by
  rcases List.mem_append.1 h with h | h
  · obtain ⟨_, -, hpath⟩ := rolloutPath_of_mem_filesIn h
    rw [directory_of_rolloutPath hpath]
  · obtain ⟨name, -, hbegins⟩ := prefix_of_mem_filesBelow h
    rw [components_append] at hbegins
    exact (List.prefix_append _ _).trans hbegins

theorem not_prefix_of_mem_scanOrder {rollout : SessionIndexEntry}
    (hname : name ∉ entries.names)
    (h : rollout ∈ scanOrder archived dir entries) :
    ¬ components (dir ++ [name]) <+: rollout.directory := by
  rw [components_append]
  intro hbegins
  rcases List.mem_append.1 h with h | h
  · obtain ⟨_, -, hpath⟩ := rolloutPath_of_mem_filesIn h
    rw [directory_of_rolloutPath hpath] at hbegins
    have hlength := hbegins.length_le
    rw [List.length_append, List.length_singleton] at hlength
    omega
  · obtain ⟨name', hname', hbelow⟩ := prefix_of_mem_filesBelow h
    rw [components_append] at hbelow
    have hsame :
        components dir ++ [.normal name] = components dir ++ [.normal name'] :=
      (List.prefix_of_prefix_length_le hbegins hbelow (by simp)).eq_of_length
        (by simp)
    obtain rfl : name = name' := by simpa using hsame
    exact hname hname'

/-- A rollout is not the same as one that is found later, which does not lie
above it. -/
def Apart (rollout later : SessionIndexEntry) : Prop :=
  rollout.rolloutPath ≠ later.rolloutPath ∧ ¬ later.Above rollout

theorem pairwise_scanOrder (h : entries.Distinct) :
    (scanOrder archived dir entries).Pairwise Apart := by
  induction entries generalizing dir with
  | done => exact .nil
  | file name contents rest ih =>
      rw [scanOrder_file, List.pairwise_append]
      refine ⟨?_, ih h.2, fun rollout hrollout later hlater => ?_⟩
      · cases rolloutAt archived dir name contents with
        | none => exact .nil
        | some rollout => exact List.pairwise_singleton _ _
      · have hfile :
            rollout ∈ filesIn archived dir (.file name contents .done) :=
          List.mem_append_left _ hrollout
        obtain ⟨name', hname', hpath⟩ := rolloutPath_of_mem_filesIn hfile
        obtain rfl : name' = name := List.mem_singleton.1 hname'
        have hdirectory := directory_of_rolloutPath hpath
        constructor
        · intro heq
          have hlater' : later.directory = components dir :=
            directory_of_rolloutPath (heq.symm.trans hpath)
          rcases List.mem_append.1 hlater with hlater | hlater
          · obtain ⟨other, hother, hpath'⟩ := rolloutPath_of_mem_filesIn hlater
            rw [hpath, hpath'] at heq
            have hnames := congrArg Path.components heq
            simp only [Path.relative, List.map_append,
              List.append_cancel_left_eq] at hnames
            obtain rfl : name' = other := by simpa using hnames
            exact h.1 hother
          · obtain ⟨other, -, hbegins⟩ := prefix_of_mem_filesBelow hlater
            rw [hlater', components_append] at hbegins
            have hlength := hbegins.length_le
            rw [List.length_append, List.length_singleton] at hlength
            omega
        · rintro ⟨hbegins, hne⟩
          rw [hdirectory] at hbegins hne
          have hlength := (prefix_of_mem_scanOrder hlater).length_le
          exact hne
            (hbegins.eq_of_length (le_antisymm hbegins.length_le hlength))
  | dir name entries rest ihentries ihrest =>
      rw [scanOrder_dir, List.pairwise_append]
      refine ⟨ihrest h.2.2, ihentries h.2.1,
        fun rollout hrollout later hlater => ?_⟩
      have hbelow := prefix_of_mem_scanOrder hlater
      have hnot := not_prefix_of_mem_scanOrder h.1 hrollout
      constructor
      · intro heq
        rw [SessionIndexEntry.directory, heq] at hnot
        exact hnot hbelow
      · rintro ⟨hbegins, -⟩
        exact hnot (hbelow.trans hbegins)

/-! ## Orders that differ -/

/-- The entries of two directories. -/
def DirEntries.append : DirEntries → DirEntries → DirEntries
  | .done, entries => entries
  | .file name contents rest, entries =>
      .file name contents (rest.append entries)
  | .dir name inner rest, entries => .dir name inner (rest.append entries)

theorem filesIn_append (entries entries' : DirEntries) :
    filesIn archived dir (entries.append entries') =
      filesIn archived dir entries ++ filesIn archived dir entries' := by
  induction entries with
  | done => rfl
  | file name contents rest ih =>
      rw [DirEntries.append, filesIn, ih, filesIn, List.append_assoc]
  | dir name inner rest _ ih => exact ih

theorem filesBelow_append (entries entries' : DirEntries) :
    filesBelow archived dir (entries.append entries') =
      filesBelow archived dir entries' ++ filesBelow archived dir entries := by
  induction entries with
  | done => exact (List.append_nil _).symm
  | file name contents rest ih => exact ih
  | dir name inner rest _ ih =>
      rw [DirEntries.append, filesBelow, ih, filesBelow, List.append_assoc]

theorem reordered_fileLast (name : String) (contents : Option RolloutContents)
    (rest : DirEntries) :
    Reordered (.file name contents rest)
      (rest.append (.file name contents .done)) := by
  induction rest with
  | done => exact .refl _
  | file name' contents' rest ih =>
      exact .trans (.swapFiles ..) (.file name' contents' ih)
  | dir name' inner rest _ ih =>
      exact .trans (.swapFileDir ..) (.dir name' (.refl inner) ih)

theorem reordered_dirLast (name : String) (entries rest : DirEntries) :
    Reordered (.dir name entries rest)
      (rest.append (.dir name entries .done)) := by
  induction rest with
  | done => exact .refl _
  | file name' contents' rest ih =>
      exact .trans (.swapDirFile ..) (.file name' contents' ih)
  | dir name' inner rest _ ih =>
      exact .trans (.swapDirs ..) (.dir name' (.refl inner) ih)

theorem above_of_mem {rollout below : SessionIndexEntry}
    (h : rollout ∈ filesIn archived dir entries)
    (hbelow : components (dir ++ [name]) <+:
      below.directory) : rollout.Above below := by
  obtain ⟨_, -, hpath⟩ := rolloutPath_of_mem_filesIn h
  rw [components_append] at hbelow
  rw [SessionIndexEntry.Above, directory_of_rolloutPath hpath]
  refine ⟨(List.prefix_append _ _).trans hbelow, fun heq => ?_⟩
  have hlength := hbelow.length_le
  rw [← heq, List.length_append, List.length_singleton] at hlength
  omega

/-- Two rollouts in this order among those that are found. -/
theorem sublist_append_of_mem {l l' : List SessionIndexEntry}
    {a b : SessionIndexEntry}
    (ha : a ∈ l) (hb : b ∈ l') : [a, b].Sublist (l ++ l') :=
  (List.singleton_sublist.2 ha).append (List.singleton_sublist.2 hb)

/-- A rollout that does not lie above another one can be found behind it. -/
theorem exists_reordered {first later : SessionIndexEntry}
    (hfirst : first ∈ scanOrder archived dir entries)
    (hlater : later ∈ scanOrder archived dir entries) (hne : first ≠ later)
    (habove : ¬ later.Above first) :
    ∃ entries', Reordered entries entries' ∧
      [first, later].Sublist (scanOrder archived dir entries') := by
  induction entries generalizing dir with
  | done => cases hfirst
  | file name contents rest ih =>
      rw [scanOrder_file, List.mem_append] at hfirst hlater
      rcases hfirst with hfirst | hfirst
      · refine ⟨_, .refl _, ?_⟩
        rw [scanOrder_file]
        rcases hlater with hlater | hlater
        · rw [Option.mem_toList] at hfirst hlater
          exact absurd (Option.some.inj (hfirst.symm.trans hlater)) hne
        · exact sublist_append_of_mem hfirst hlater
      · rcases hlater with hlater | hlater
        · refine ⟨_, reordered_fileLast name contents rest, ?_⟩
          rw [scanOrder, filesIn_append]
          refine List.Sublist.trans ?_ (List.sublist_append_left _ _)
          rcases List.mem_append.1 hfirst with hfirst | hfirst
          · refine sublist_append_of_mem hfirst ?_
            rw [filesIn, filesIn, List.append_nil]
            exact hlater
          · have hfile :
                later ∈ filesIn archived dir (.file name contents .done) :=
              List.mem_append_left _ hlater
            obtain ⟨_, -, hbelow⟩ := prefix_of_mem_filesBelow hfirst
            exact absurd (above_of_mem hfile hbelow) habove
        · obtain ⟨rest', hrest', hsublist⟩ := ih hfirst hlater
          refine ⟨_, .file name contents hrest', ?_⟩
          rw [scanOrder_file]
          exact hsublist.trans (List.sublist_append_right _ _)
  | dir name inner rest ihinner ihrest =>
      rw [scanOrder_dir, List.mem_append] at hfirst hlater
      rcases hfirst with hfirst | hfirst
      · rcases hlater with hlater | hlater
        · obtain ⟨rest', hrest', hsublist⟩ := ihrest hfirst hlater
          refine ⟨_, .dir name (.refl inner) hrest', ?_⟩
          rw [scanOrder_dir]
          exact hsublist.trans (List.sublist_append_left _ _)
        · refine ⟨_, .refl _, ?_⟩
          rw [scanOrder_dir]
          exact sublist_append_of_mem hfirst hlater
      · rcases hlater with hlater | hlater
        · refine ⟨_, reordered_dirLast name inner rest, ?_⟩
          rw [scanOrder, filesBelow_append]
          refine List.Sublist.trans ?_ (List.sublist_append_right _ _)
          rcases List.mem_append.1 hlater with hlater | hlater
          · exact absurd
              (above_of_mem hlater (prefix_of_mem_scanOrder hfirst)) habove
          · refine sublist_append_of_mem ?_ hlater
            rw [filesBelow, filesBelow, List.nil_append]
            exact hfirst
        · obtain ⟨inner', hinner', hsublist⟩ := ihinner hfirst hlater
          refine ⟨_, .dir name hinner' (.refl rest), ?_⟩
          rw [scanOrder_dir]
          exact hsublist.trans (List.sublist_append_right _ _)

end CodeRs.Rollout
