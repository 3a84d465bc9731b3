import CodeRs.Rollout.Catalog

/-!
# Writers of the catalog file

The writers of one catalog file: `update_catalog_entry` of the rollout
recorders, which loads the file every time, and the facade of
`core/src/session_catalog.rs`, whose `load_inner` reads the file once for each
process and then keeps a cache.  Every writer saves all entries of its own
copy.
-/

namespace CodeRs.Rollout

/-! ## The rollouts on disk -/

/-- The rollout files that parse, in the order of a scan. -/
def RolloutScan.files (scan : RolloutScan) : List SessionIndexEntry :=
  scan.sessions.getD [] ++ scan.archived.getD []

def RolloutScan.has (scan : RolloutScan) (sessionId : Uuid) : Bool :=
  scan.files.any fun entry => entry.sessionId = sessionId

/-- What `parse_rollout_file` makes of the rollout of a recorder.  The session
is the one that the last `SessionMeta` in the file names, whoever the recorder
is. -/
def RolloutScan.parse (scan : RolloutScan) (rolloutPath : Path) :
    Option SessionIndexEntry :=
  scan.files.find? fun entry => entry.rolloutPath = rolloutPath

/-- The rollouts on disk.  `parse_rollout_file` gives no nicknames. -/
structure Rollouts where
  scan : RolloutScan
  unnamed : ∀ entry ∈ scan.files, entry.nickname = none

/-! ## What a writer changes -/

/-- The change that a writer makes to its copy, with the rollouts that it has
seen. -/
inductive Change where
  | updateCatalogEntry (sessionId : Uuid) (rolloutPath :
    Path) (lastTimestamp : Text)
      (seen : Rollouts)
  | reconcile (seen : Rollouts)
  | setNickname (sessionId : Uuid) (nickname : Option Text)
  | archive (sessionId : Uuid) (rolloutPath : Path) (snapshotPath : Option Path)

/-- The nickname that a change gives to a session. -/
def Change.nickname (change : Change) (sessionId : Uuid) :
    Option (Option Text) :=
  match change with
  | .setNickname sessionId' nickname =>
      if sessionId' = sessionId then some nickname else none
  | _ => none

namespace SessionCatalog

def archivedEntry (entry : SessionIndexEntry) (rolloutPath : Path)
    (snapshotPath : Option Path) : SessionIndexEntry :=
  { entry with
    archived := true, rolloutPath := rolloutPath, snapshotPath := snapshotPath }

/-- The change of the catalog entry in `archive_conversation`. -/
def archive (catalog : SessionCatalog) (sessionId : Uuid) (rolloutPath : Path)
    (snapshotPath : Option Path) : Bool × SessionCatalog :=
  match catalog.entries.get sessionId with
  | none => (false, catalog)
  | some entry =>
      (true, catalog.upsert (archivedEntry entry rolloutPath snapshotPath))

/-- The copy after a change, and whether it is saved. -/
def apply (catalog : SessionCatalog) : Change → Bool × SessionCatalog
  | .updateCatalogEntry sessionId rolloutPath lastTimestamp seen =>
      let parsed := seen.scan.parse rolloutPath
      ((catalog.entries.get sessionId).isSome || parsed.isSome,
        catalog.updateCatalogEntry sessionId lastTimestamp parsed)
  | .reconcile seen =>
      let reconciled := catalog.reconcile seen.scan
      (reconciled.2 ≠ ⟨0, 0, 0⟩, reconciled.1)
  | .setNickname sessionId nickname => catalog.setNickname sessionId nickname
  | .archive sessionId rolloutPath snapshotPath =>
      catalog.archive sessionId rolloutPath snapshotPath

/-- The catalog that `load` makes of the entries in a file. -/
def ofEntries (file : List SessionIndexEntry) : SessionCatalog :=
  file.foldl indexEntry empty

end SessionCatalog

/-! ## Writers -/

inductive WriterKind where
  | updateCatalogEntry (sessionId : Uuid) (rolloutPath :
    Path) (lastTimestamp : Text)
  | query
  | setNickname (sessionId : Uuid) (nickname : Option Text)
  | archiveConversation (sessionId : Uuid) (rolloutPath :
    Path) (snapshotPath : Option Path)
  deriving DecidableEq

/-- A call, and the process that makes it. -/
structure Writer (κ : Type) where
  process : κ
  kind : WriterKind

/-- How far a call has come.  `held` says that it holds the lock of the
cache. -/
inductive WriterPhase where
  | idle
  | uncached
  | loaded (copy : SessionCatalog) (held : Bool)
  | changing (copy : SessionCatalog) (change : Change) (held : Bool)
  | filling (copy : SessionCatalog)
  | loadedInner (copy : SessionCatalog)
  | caching (copy : SessionCatalog)
  | done

structure CodeHome (ι κ : Type) where
  file : List SessionIndexEntry
  rollouts : Rollouts
  cache : κ → Option SessionCatalog
  lock : κ → Option ι
  phase : ι → WriterPhase
  /-- The nickname that a session got last, while it has a rollout. -/
  named : Uuid → Option (Option Text)
  /-- The session has had an entry in the file, and a rollout since. -/
  listed : Uuid → Bool

/-- The next step of a call, or a change of the rollouts on disk. -/
inductive WriterTurn (ι : Type) where
  | step (p : ι)
  | disk (rollouts : Rollouts)

namespace CodeHome

variable {ι κ : Type} [DecidableEq ι] [DecidableEq κ] (writers : ι → Writer κ)
  (s : CodeHome ι κ)

/-- The entries in the file. -/
def stored : Entries := (SessionCatalog.ofEntries s.file).entries

/-- The code home before the first call. -/
def start (file : List SessionIndexEntry) (rollouts : Rollouts) :
    CodeHome ι κ where
  file := file
  rollouts := rollouts
  cache := fun _ => none
  lock := fun _ => none
  phase := fun _ => .idle
  named := fun _ => none
  listed := fun sessionId =>
    ((SessionCatalog.ofEntries file).entries.get sessionId).isSome &&
      rollouts.scan.has sessionId

def goto (p : ι) (phase : WriterPhase) : CodeHome ι κ :=
  { s with phase := Function.update s.phase p phase }

def setCache (q : κ) (catalog : SessionCatalog) : CodeHome ι κ :=
  { s with cache := Function.update s.cache q (some catalog) }

def setLock (q : κ) (owner : Option ι) : CodeHome ι κ :=
  { s with lock := Function.update s.lock q owner }

/-- `save`, after a change that asks for it. -/
def save (change : Change) (result : Bool × SessionCatalog) : CodeHome ι κ :=
  if result.1 then
    { s with
      file := result.2.allOrdered
      named := fun sessionId =>
        (change.nickname sessionId).or (s.named sessionId) }
  else s

/-- The first change that a call makes, with the rollouts that it sees. -/
def firstChange : WriterKind → Change
  | .updateCatalogEntry sessionId rolloutPath lastTimestamp =>
      .updateCatalogEntry sessionId rolloutPath lastTimestamp s.rollouts
  | _ => .reconcile s.rollouts

/-- The change that a call makes to the catalog that `load_inner` returns. -/
def secondChange : WriterKind → Option Change
  | .setNickname sessionId nickname => some (.setNickname sessionId nickname)
  | .archiveConversation sessionId rolloutPath snapshotPath =>
      some (.archive sessionId rolloutPath snapshotPath)
  | _ => none

/-- The start of `load_inner`: take the cache, once its lock is free, or go on
without it. -/
def enter (p : ι) (q : κ) : CodeHome ι κ :=
  if s.lock q = none then
    match s.cache q with
    | some catalog => (s.setLock q (some p)).goto p (.loaded catalog true)
    | none => s.goto p .uncached
  else s

/-- The next step of a call. -/
def advance (p : ι) : CodeHome ι κ :=
  let q := (writers p).process
  let kind := (writers p).kind
  match s.phase p with
  | .idle =>
      match kind with
      | .updateCatalogEntry _ _ _ =>
          s.goto p (.loaded (.ofEntries s.file) false)
      | _ => s.enter p q
  | .uncached => s.goto p (.loaded (.ofEntries s.file) false)
  | .loaded copy held => s.goto p (.changing copy (s.firstChange kind) held)
  | .changing copy change held =>
      let result := copy.apply change
      let s := s.save change result
      match kind with
      | .updateCatalogEntry _ _ _ => s.goto p .done
      | _ =>
          if held then
            ((s.setCache q result.2).setLock q none).goto p
              (.loadedInner result.2)
          else s.goto p (.filling result.2)
  | .filling copy =>
      if s.lock q = none then
        (s.setCache q copy).goto p (.loadedInner copy) else s
  | .loadedInner copy =>
      match secondChange kind with
      | some change =>
          let result := copy.apply change
          let s := s.save change result
          if result.1 then s.goto p (.caching result.2) else s.goto p .done
      | none => s.goto p .done
  | .caching copy =>
      if s.lock q = none then (s.setCache q copy).goto p .done else s
  | .done => s

/-- Bring the nicknames and the list of sessions up to date. -/
def settle : CodeHome ι κ :=
  { s with
    named := fun sessionId =>
      if s.rollouts.scan.has sessionId then s.named sessionId else none
    listed := fun sessionId =>
      (s.listed sessionId || (s.stored.get sessionId).isSome) &&
        s.rollouts.scan.has sessionId }

def next : WriterTurn ι → CodeHome ι κ
  | .step p => (s.advance writers p).settle
  | .disk rollouts => { s with rollouts := rollouts }.settle

/-! ## Lost updates -/

/-- No update is lost: a nickname that was set is kept, and so is the entry of
a session, while it has a rollout. -/
structure KeepsUpdates : Prop where
  named : ∀ sessionId nickname, s.named sessionId = some nickname →
    ∃ entry, s.stored.get sessionId = some entry ∧ entry.nickname = nickname
  listed : ∀ sessionId, s.listed sessionId = true →
    ∃ entry, s.stored.get sessionId = some entry

/-- The copy and the change that a call is about to save. -/
def saving (p : ι) : Option (SessionCatalog × Change) :=
  match s.phase p with
  | .changing copy change _ => some (copy, change)
  | .loadedInner copy => (secondChange (writers p).kind).map fun change =>
      (copy, change)
  | _ => none

/-- The copy knows every session of the file that has a rollout, and by its
nickname. -/
def Knows (copy : SessionCatalog) : Prop :=
  ∀ entry ∈ s.stored.values, s.rollouts.scan.has entry.sessionId = true →
    (copy.entries.get entry.sessionId).any (fun known => known.nickname =
      entry.nickname) = true

/-- A scan has seen the rollouts of all sessions in the file. -/
def Sees : Change → Prop
  | .reconcile seen => ∀ entry ∈ s.stored.values,
      s.rollouts.scan.has entry.sessionId = true →
        seen.scan.has entry.sessionId = true
  | _ => True

/-- A recorder whose session is not in the copy takes up no session that has a
nickname in the file. -/
def SparesNicknames (copy : SessionCatalog) : Change → Prop
  | .updateCatalogEntry sessionId rolloutPath _ seen =>
      copy.entries.get sessionId = none →
        ∀ parsed ∈ seen.scan.parse rolloutPath,
        ∀ entry ∈ s.stored.values, s.rollouts.scan.has entry.sessionId = true →
          entry.sessionId = parsed.sessionId → entry.nickname = none
  | _ => True

instance (copy : SessionCatalog) : Decidable (s.Knows copy) :=
  inferInstanceAs (Decidable (∀ entry ∈ s.stored.values,
    s.rollouts.scan.has entry.sessionId = true →
      (copy.entries.get entry.sessionId).any (fun known => known.nickname =
        entry.nickname) = true))

instance (change : Change) : Decidable (s.Sees change) :=
  match change with
  | .reconcile seen => inferInstanceAs (Decidable (∀ entry ∈ s.stored.values,
      s.rollouts.scan.has entry.sessionId = true →
        seen.scan.has entry.sessionId = true))
  | .updateCatalogEntry _ _ _ _ => .isTrue trivial
  | .setNickname _ _ => .isTrue trivial
  | .archive _ _ _ => .isTrue trivial

instance (copy : SessionCatalog) (change : Change) :
    Decidable (s.SparesNicknames copy change) :=
  match change with
  | .updateCatalogEntry sessionId rolloutPath _ seen =>
      inferInstanceAs (Decidable (copy.entries.get sessionId = none →
        ∀ parsed ∈ seen.scan.parse rolloutPath, ∀ entry ∈ s.stored.values,
          s.rollouts.scan.has entry.sessionId = true →
            entry.sessionId = parsed.sessionId → entry.nickname = none))
  | .reconcile _ => .isTrue trivial
  | .setNickname _ _ => .isTrue trivial
  | .archive _ _ _ => .isTrue trivial

/-- What a call saves is not out of date: its copy knows the sessions of the
file, and a scan has seen their rollouts.  No session is taken up without its
nickname. -/
def SavesCurrent : WriterTurn ι → Prop
  | .step p => ∀ saved ∈ s.saving writers p, (saved.1.apply saved.2).1 = true →
      s.Knows saved.1 ∧ s.Sees saved.2 ∧ s.SparesNicknames saved.1 saved.2
  | .disk _ => True

instance (turn : WriterTurn ι) : Decidable (s.SavesCurrent writers turn) :=
  match turn with
  | .step p => inferInstanceAs (Decidable (∀ saved ∈ s.saving writers p,
      (saved.1.apply saved.2).1 = true →
        s.Knows saved.1 ∧ s.Sees saved.2 ∧ s.SparesNicknames saved.1 saved.2))
  | .disk _ => .isTrue trivial

end CodeHome

end CodeRs.Rollout
