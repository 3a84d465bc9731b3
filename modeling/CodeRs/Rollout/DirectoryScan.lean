import CodeRs.Rollout.Archive
import Mathlib.Algebra.BigOperators.Group.List.Basic
import Mathlib.Algebra.GroupWithZero.Nat

/-!
# Scanning the directories of rollouts

`scan_rollout_files` of `core/src/rollout/catalog.rs` over a tree of
directories, whose entries come in any order.  What is read from a file is
data.
-/

namespace CodeRs.Rollout

/-! ## Directories -/

/-- What `parse_rollout_file` reads from a rollout file, and whether its
snapshot is beside it. -/
structure RolloutContents where
  sessionId : Uuid
  createdAt : Text
  lastEventAt : Text
  cwdReal : Path
  gitProjectRoot : Option Path
  gitBranch : Option Text
  sessionSource : SessionSource
  messageCount : ℕ
  userMessageCount : ℕ
  lastUserSnippet : Option Text
  hasSnapshot : Bool

/-- The entries of a directory, in the order in which `read_dir` gives them. -/
inductive DirEntries where
  | done
  | file (name : String) (contents : Option RolloutContents) (rest : DirEntries)
  | dir (name : String) (entries rest : DirEntries)

/-- A file or a directory of the given name is among the entries. -/
def DirEntries.names : DirEntries → List String
  | .done => []
  | .file name _ rest => name :: rest.names
  | .dir name _ rest => name :: rest.names

/-- No two entries of a directory have the same name. -/
def DirEntries.Distinct : DirEntries → Prop
  | .done => True
  | .file name _ rest => name ∉ rest.names ∧ rest.Distinct
  | .dir name entries rest =>
      name ∉ rest.names ∧ entries.Distinct ∧ rest.Distinct

/-- The same directory, with its entries and those of the directories below it
in another order. -/
inductive Reordered : DirEntries → DirEntries → Prop
  | done : Reordered .done .done
  | file (name : String) (contents : Option RolloutContents) {rest
    rest' : DirEntries}
      (h : Reordered rest rest') :
      Reordered (.file name contents rest) (.file name contents rest')
  | dir (name : String) {entries entries' rest rest' : DirEntries}
      (h : Reordered entries entries') (hrest : Reordered rest rest') :
      Reordered (.dir name entries rest) (.dir name entries' rest')
  | swapFiles (name name' : String) (contents contents' : Option
    RolloutContents)
      (rest : DirEntries) :
      Reordered (.file name contents (.file name' contents' rest))
        (.file name' contents' (.file name contents rest))
  | swapFileDir (name name' : String) (contents : Option RolloutContents)
      (entries rest : DirEntries) :
      Reordered (.file name contents (.dir name' entries rest))
        (.dir name' entries (.file name contents rest))
  | swapDirFile (name name' : String) (entries : DirEntries)
      (contents : Option RolloutContents) (rest : DirEntries) :
      Reordered (.dir name entries (.file name' contents rest))
        (.file name' contents (.dir name entries rest))
  | swapDirs (name name' : String) (entries entries' rest : DirEntries) :
      Reordered (.dir name entries (.dir name' entries' rest))
        (.dir name' entries' (.dir name entries rest))
  | trans {entries entries' entries'' : DirEntries} (h : Reordered
    entries entries')
      (h' : Reordered entries' entries'') : Reordered entries entries''

/-! ## The scan -/

def isRolloutName (name : String) : Bool :=
  ['.', 'j', 's', 'o', 'n', 'l'].isSuffixOf name.toList &&
    ['r', 'o', 'l', 'l', 'o', 'u', 't', '-'].isPrefixOf name.toList

/-- `parse_rollout_file`, from what it reads.  The names are those of the path
below the code home. -/
def parseRolloutFile (archived : Bool) (names : List String)
    (contents : RolloutContents) :
    SessionIndexEntry where
  sessionId := contents.sessionId
  rolloutPath := Path.relative names
  snapshotPath :=
    if contents.hasSnapshot = true then
      some ((Path.relative names).withExtension snapshotExtension)
    else none
  createdAt := contents.createdAt
  lastEventAt := contents.lastEventAt
  cwdReal := contents.cwdReal
  gitProjectRoot := contents.gitProjectRoot
  gitBranch := contents.gitBranch
  sessionSource := contents.sessionSource
  messageCount := contents.messageCount
  userMessageCount := contents.userMessageCount
  lastUserSnippet := contents.lastUserSnippet
  nickname := none
  archived := archived

/-- The entry that a file of a directory gives, if it is a rollout. -/
def rolloutAt (archived : Bool) (dir : List String) (name : String)
    (contents : Option RolloutContents) : Option SessionIndexEntry :=
  if isRolloutName name = true then
    contents.map (parseRolloutFile archived (dir ++ [name]))
  else none

/-- The directories that are still to be read, the next one first. -/
abbrev ScanQueue := List (List String × DirEntries)

/-- The inner loop of `scan_rollout_files`: read a directory. -/
def readDir (archived : Bool) (dir : List String) :
    DirEntries → ScanQueue × List SessionIndexEntry →
      ScanQueue × List SessionIndexEntry
  | .done, state => state
  | .file name contents rest, (queue, found) =>
      readDir archived dir rest (queue,
        found ++ (rolloutAt archived dir name contents).toList)
  | .dir name entries rest, (queue, found) =>
      readDir archived dir rest ((dir ++ [name], entries) :: queue, found)

/-- The directories below a directory. -/
def DirEntries.size : DirEntries → ℕ
  | .done => 0
  | .file _ _ rest => rest.size
  | .dir _ entries rest => entries.size + 1 + rest.size

/-- The directories that are still to be read, with those below them. -/
def queueSize (queue : ScanQueue) : ℕ :=
  (queue.map fun dir => dir.2.size + 1).sum

theorem queueSize_cons (dir : List String) (entries : DirEntries)
    (queue : ScanQueue) :
    queueSize ((dir, entries) :: queue) =
      entries.size + 1 + queueSize queue := by
  rw [queueSize, List.map_cons, List.sum_cons]
  rfl

theorem queueSize_readDir (archived : Bool) (dir : List String)
    (entries : DirEntries)
    (state : ScanQueue × List SessionIndexEntry) :
    queueSize (readDir archived dir entries state).1 =
      entries.size + queueSize state.1 := by
  induction entries generalizing state with
  | done => exact (Nat.zero_add _).symm
  | file name contents rest ih => exact ih _
  | dir name entries rest _ ih =>
      refine (ih _).trans ?_
      rw [queueSize_cons, DirEntries.size]
      omega

/-- The loop of `scan_rollout_files`: the entries of all rollouts, in the order
in which they are compared. -/
def scanQueue (archived : Bool) (queue : ScanQueue)
    (found : List SessionIndexEntry) :
    List SessionIndexEntry :=
  match queue with
  | [] => found
  | (dir, entries) :: queue =>
      let state := readDir archived dir entries (queue, found)
      scanQueue archived state.1 state.2
termination_by queueSize queue
decreasing_by
  rw [queueSize_readDir, queueSize_cons]
  exact Nat.add_lt_add_right (Nat.lt_succ_self _) _

/-! ## The disk -/

/-- The two directories of rollouts, where they exist. -/
structure Disk where
  sessions : Option DirEntries
  archived : Option DirEntries
  sessions_distinct : ∀ entries ∈ sessions, entries.Distinct
  archived_distinct : ∀ entries ∈ archived, entries.Distinct

namespace Disk

/-- What the scans of both directories find. -/
def scan (disk : Disk) : RolloutScan where
  sessions := disk.sessions.map fun entries =>
    scanQueue false [([sessionsSubdir], entries)] []
  archived := disk.archived.map fun entries =>
    scanQueue true [([archivedSessionsSubdir], entries)] []

/-- The same disk, with the entries of its directories in another order. -/
structure Reordered (disk disk' : Disk) : Prop where
  sessions : Option.Rel Rollout.Reordered disk.sessions disk'.sessions
  archived : Option.Rel Rollout.Reordered disk.archived disk'.archived

/-- The rollouts that `reconcile` takes up. -/
def rollouts (disk : Disk) : List SessionIndexEntry :=
  match disk.sessions with
  | some _ => disk.scan.files
  | none => []

end Disk

/-! ## Any order -/

/-- The same entries, and the same sessions under every path of the indexes. -/
structure SameCatalog (catalog catalog' : SessionCatalog) : Prop where
  entries : ∀ sessionId,
    catalog.entries.get sessionId = catalog'.entries.get sessionId
  byCwd : ∀ cwd, (catalog.byCwdIndex cwd).Perm (catalog'.byCwdIndex cwd)
  byGitRoot : ∀ gitRoot,
    (catalog.byGitRootIndex gitRoot).Perm (catalog'.byGitRootIndex gitRoot)

/-- `reconcile` gives the same catalog in every order of the directory entries,
has nothing to do when it is called again, and keeps the nicknames of the
sessions that are on disk. -/
structure ReconcilesInAnyOrder (catalog : SessionCatalog)
    (disk : Disk) : Prop where
  same : ∀ disk', disk.Reordered disk' →
    SameCatalog (catalog.reconcile disk'.scan).1 (catalog.reconcile disk.scan).1
  settled : ∀ disk' disk'', disk.Reordered disk' → disk.Reordered disk'' →
    ((catalog.reconcile disk'.scan).1.reconcile disk''.scan).2 = ⟨0, 0, 0⟩
  nickname : ∀ disk', disk.Reordered disk' → ∀ sessionId entry,
    catalog.entries.get sessionId = some entry →
      disk.scan.has sessionId = true →
      ∃ entry', (catalog.reconcile disk'.scan).1.entries.get sessionId =
        some entry' ∧
        entry'.nickname = entry.nickname

/-- What `should_replace` compares first. -/
def SessionIndexEntry.version (entry : SessionIndexEntry) : Text ×ₗ Text :=
  toLex (entry.lastEventAt, entry.createdAt)

def SessionIndexEntry.directory (entry : SessionIndexEntry) : List Component :=
  entry.rolloutPath.components.dropLast

/-- A rollout lies in a directory above that of another one. -/
def SessionIndexEntry.Above (entry entry' : SessionIndexEntry) : Prop :=
  entry.directory <+: entry'.directory ∧ entry.directory ≠ entry'.directory

/-- A rollout is found before another one in every order: the archived ones are
found last, and the files of a directory before those of the directories in
it. -/
def SessionIndexEntry.ScannedBefore (entry entry' : SessionIndexEntry) : Prop :=
  (entry.archived = false ∧ entry'.archived = true) ∨ entry.Above entry'

/-- A session has an entry that is newer than its rollouts. -/
def NewerEntry (catalog : SessionCatalog) (rollouts : List SessionIndexEntry)
    (sessionId : Uuid) :
    Prop :=
  ∃ existing, catalog.entries.get sessionId = some existing ∧
    ∀ rollout ∈ rollouts, rollout.sessionId = sessionId →
    rollout.version < existing.version

/-- A session has a rollout that every other one is older than, or as old as
and found before it in every order. -/
def LastRollout (rollouts : List SessionIndexEntry) (sessionId : Uuid) : Prop :=
  ∃ newest ∈ rollouts, newest.sessionId = sessionId ∧
    ∀ rollout ∈ rollouts, rollout.sessionId = sessionId → rollout ≠ newest →
      rollout.version < newest.version ∨
        (rollout.version = newest.version ∧ rollout.ScannedBefore newest)

end CodeRs.Rollout
