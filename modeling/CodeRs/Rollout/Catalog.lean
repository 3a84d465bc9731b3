import CodeRs.Lib.Path
import CodeRs.Lib.Runs
import CodeRs.Lib.Keyed
import CodeRs.Rollout.List
import Mathlib.Data.Char
import Mathlib.Data.List.Lex

/-!
# The session catalog

`SessionCatalog` of `core/src/rollout/catalog.rs` in memory: the entries of all
sessions and two secondary indexes, by working directory and by Git root.
Reading a line of the catalog file and reading a rollout file are libraries
here, so their results are data.
-/

namespace CodeRs.Rollout

/-! ## Entries -/

/-- A `Uuid`, as the number that it is. -/
abbrev Uuid := ℕ

/-- `SessionIndexEntry`, without the fields that the catalog only carries
along. -/
structure SessionIndexEntry where
  sessionId : Uuid
  rolloutPath : Path
  snapshotPath : Option Path
  createdAt : Text
  lastEventAt : Text
  cwdReal : Path
  gitProjectRoot : Option Path
  gitBranch : Option Text
  sessionSource : SessionSource
  messageCount : ℕ
  userMessageCount : ℕ
  lastUserSnippet : Option Text
  nickname : Option Text
  archived : Bool
  deriving DecidableEq

/-- `ordering_key`, without the `Reverse` of each of its parts. -/
def SessionIndexEntry.orderingKey (entry : SessionIndexEntry) :
    Text ×ₗ Text ×ₗ Uuid :=
  toLex (entry.lastEventAt, toLex (entry.createdAt, entry.sessionId))

/-- The newest session first. -/
def SessionIndexEntry.Before (entry entry' : SessionIndexEntry) : Prop :=
  entry'.orderingKey ≤ entry.orderingKey

instance : DecidableRel SessionIndexEntry.Before := fun entry entry' =>
  inferInstanceAs (Decidable (entry'.orderingKey ≤ entry.orderingKey))

/-- Entries by session id. -/
abbrev Entries := Keyed SessionIndexEntry.sessionId

def shouldReplace (existing candidate : SessionIndexEntry) : Bool :=
  if existing.lastEventAt ≠ candidate.lastEventAt then
    existing.lastEventAt < candidate.lastEventAt
  else if existing.createdAt ≠ candidate.createdAt then
    existing.createdAt < candidate.createdAt
  else
    existing.rolloutPath ≠ candidate.rolloutPath ∨
      existing.snapshotPath ≠ candidate.snapshotPath ∨
      existing.cwdReal ≠ candidate.cwdReal ∨
      existing.sessionSource ≠ candidate.sessionSource ∨
      existing.gitBranch ≠ candidate.gitBranch

/-! ## The catalog -/

structure SessionCatalog where
  entries : Entries
  byCwdIndex : SecondaryIndex Path Uuid
  byGitRootIndex : SecondaryIndex Path Uuid

namespace SessionCatalog

/-- A catalog without sessions. -/
def empty : SessionCatalog := ⟨.empty, .empty, .empty⟩

def indexEntry (catalog : SessionCatalog) (entry : SessionIndexEntry) :
    SessionCatalog where
  entries := catalog.entries.insert entry
  byCwdIndex := catalog.byCwdIndex.push (some entry.cwdReal) entry.sessionId
  byGitRootIndex :=
    catalog.byGitRootIndex.push entry.gitProjectRoot entry.sessionId

/-- The entries that a catalog file holds.  Blank lines and lines that do not
parse are skipped. -/
def parseLines (fromStr : Text → Option SessionIndexEntry) (lines : List Text) :
    List SessionIndexEntry :=
  (lines.filter fun line => !line.all Text.isWhitespace).filterMap fromStr

/-- `load`, from the lines of the file, if there is one. -/
def load (fromStr : Text → Option SessionIndexEntry)
    (file : Option (List Text)) :
    SessionCatalog :=
  (parseLines fromStr (file.getD [])).foldl indexEntry empty

def allOrdered (catalog : SessionCatalog) : List SessionIndexEntry :=
  catalog.entries.values.insertionSort SessionIndexEntry.Before

def byCwd (catalog : SessionCatalog) (cwd : Path) : List SessionIndexEntry :=
  (catalog.byCwdIndex.find catalog.entries cwd).insertionSort
    SessionIndexEntry.Before

def byGitRoot (catalog : SessionCatalog) (gitRoot : Path) :
    List SessionIndexEntry :=
  (catalog.byGitRootIndex.find catalog.entries gitRoot).insertionSort
    SessionIndexEntry.Before

def removeFromIndexes (catalog : SessionCatalog) (sessionId : Uuid)
    (entry : SessionIndexEntry) : SessionCatalog :=
  { catalog with
    byCwdIndex := catalog.byCwdIndex.drop (some entry.cwdReal) sessionId
    byGitRootIndex := catalog.byGitRootIndex.drop
      entry.gitProjectRoot sessionId }

/-- `upsert`, before it saves. -/
def upsert (catalog : SessionCatalog) (entry : SessionIndexEntry) :
    SessionCatalog :=
  match catalog.entries.get entry.sessionId with
  | some oldEntry =>
      (catalog.removeFromIndexes entry.sessionId oldEntry).indexEntry entry
  | none => catalog.indexEntry entry

/-- `set_nickname`, before it saves. -/
def setNickname (catalog : SessionCatalog) (sessionId : Uuid)
    (nickname : Option Text) :
    Bool × SessionCatalog :=
  match catalog.entries.get sessionId with
  | none => (false, catalog)
  | some _ =>
      (true,
        { catalog with
          entries := catalog.entries.modify sessionId
            (fun entry => { entry with nickname := nickname }) fun _ => rfl })

/-- `entries.remove` alone. -/
def removeEntry (catalog : SessionCatalog) (sessionId : Uuid) :
    SessionCatalog :=
  { catalog with entries := catalog.entries.remove sessionId }

/-- `remove`, before it saves. -/
def remove (catalog : SessionCatalog) (sessionId : Uuid) : SessionCatalog :=
  match catalog.entries.get sessionId with
  | some entry =>
      (catalog.removeEntry sessionId).removeFromIndexes sessionId entry
  | none => catalog

end SessionCatalog

/-! ## Reconciling -/

structure ReconcileResult where
  added : ℕ
  updated : ℕ
  removed : ℕ
  deriving DecidableEq

/-- Keep the newer of two discovered entries of a session. -/
def keepNewer (discovered : Entries) (entry : SessionIndexEntry) : Entries :=
  match discovered.get entry.sessionId with
  | some existing =>
      if shouldReplace existing entry then discovered.insert entry
        else discovered
  | none => discovered.insert entry

/-- `scan_rollout_files`, from what the rollout files parse to, in the order of
the scan. -/
def scanRolloutFiles (parsed : List SessionIndexEntry) : Entries :=
  parsed.foldl keepNewer .empty

def mergeDiscoveredEntries (primary secondary : Entries) : Entries :=
  secondary.values.foldl keepNewer primary

/-- What the two directories hold, where they exist. -/
structure RolloutScan where
  sessions : Option (List SessionIndexEntry)
  archived : Option (List SessionIndexEntry)

/-- The sessions that `reconcile` discovers, if there is a sessions
directory. -/
def RolloutScan.discovered (scan : RolloutScan) : Option Entries :=
  scan.sessions.map fun sessions =>
    match scan.archived with
    | some archived =>
        mergeDiscoveredEntries (scanRolloutFiles sessions)
          (scanRolloutFiles archived)
    | none => scanRolloutFiles sessions

namespace SessionCatalog

/-- One round of the first loop of `reconcile`: drop a session without a
rollout. -/
def reconcileExisting (discovered : Entries)
    (state : SessionCatalog × ReconcileResult)
    (sessionId : Uuid) : SessionCatalog × ReconcileResult :=
  match discovered.get sessionId, state.1.entries.get sessionId with
  | none, some entry =>
      ((state.1.removeEntry sessionId).removeFromIndexes sessionId entry,
        { state.2 with removed := state.2.removed + 1 })
  | _, _ => state

/-- The discovered entry with the nickname of the existing one, if it has
none. -/
def withNickname (existing entry : SessionIndexEntry) : SessionIndexEntry :=
  { entry with nickname := entry.nickname.or existing.nickname }

/-- One round of the second loop of `reconcile`: take up a discovered
session. -/
def reconcileDiscovered (state : SessionCatalog × ReconcileResult)
    (entry : SessionIndexEntry) : SessionCatalog × ReconcileResult :=
  match state.1.entries.get entry.sessionId with
  | some existing =>
      if shouldReplace existing entry then
        ((state.1.removeFromIndexes entry.sessionId existing).indexEntry
            (withNickname existing entry),
          { state.2 with updated := state.2.updated + 1 })
      else state
  | none =>
      (state.1.indexEntry entry, { state.2 with added := state.2.added + 1 })

/-- `reconcile`, before it saves.  Both hash maps are taken in some order. -/
def reconcile (catalog : SessionCatalog) (scan : RolloutScan) :
    SessionCatalog × ReconcileResult :=
  match scan.discovered with
  | none => (catalog, ⟨0, 0, 0⟩)
  | some discovered =>
      let existingIds := catalog.entries.values.map SessionIndexEntry.sessionId
      let kept :=
        existingIds.foldl (reconcileExisting discovered) (catalog, ⟨0, 0, 0⟩)
      discovered.values.foldl reconcileDiscovered kept

/-- The existing entry with what the rollout file says now, as far as it could
be read. -/
def refresh (entry : SessionIndexEntry) (lastTimestamp : Text)
    (parsed : Option SessionIndexEntry) : SessionIndexEntry :=
  match parsed with
  | some updated =>
      { entry with
        lastEventAt := lastTimestamp
        messageCount := updated.messageCount
        userMessageCount := updated.userMessageCount
        lastUserSnippet := updated.lastUserSnippet
        archived := updated.archived
        rolloutPath := updated.rolloutPath
        snapshotPath := updated.snapshotPath }
  | none => { entry with lastEventAt := lastTimestamp }

/-- `update_catalog_entry` on the catalog that it has loaded, before it saves.
`parsed` is what the rollout file parses to. -/
def updateCatalogEntry (catalog : SessionCatalog) (sessionId : Uuid)
    (lastTimestamp : Text)
    (parsed : Option SessionIndexEntry) : SessionCatalog :=
  match catalog.entries.get sessionId with
  | some entry =>
      (catalog.removeEntry sessionId).upsert
        (refresh entry lastTimestamp parsed)
  | none =>
      match parsed with
      | some entry => catalog.upsert entry
      | none => catalog

end SessionCatalog

/-! ## Operations on a catalog -/

/-- The operations that change a catalog. -/
inductive CatalogOp where
  | upsert (entry : SessionIndexEntry)
  | remove (sessionId : Uuid)
  | setNickname (sessionId : Uuid) (nickname : Option Text)
  | reconcile (scan : RolloutScan)
  | updateCatalogEntry (sessionId : Uuid) (lastTimestamp : Text)
      (parsed : Option SessionIndexEntry)

def SessionCatalog.next (catalog : SessionCatalog) : CatalogOp → SessionCatalog
  | .upsert entry => catalog.upsert entry
  | .remove sessionId => catalog.remove sessionId
  | .setNickname sessionId nickname =>
      (catalog.setNickname sessionId nickname).2
  | .reconcile scan => (catalog.reconcile scan).1
  | .updateCatalogEntry sessionId lastTimestamp parsed =>
      catalog.updateCatalogEntry sessionId lastTimestamp parsed

end CodeRs.Rollout
