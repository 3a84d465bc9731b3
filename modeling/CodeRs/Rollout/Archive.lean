import CodeRs.Lib.Decimal
import CodeRs.Lib.Path
import CodeRs.Rollout.CatalogWriters
import Mathlib.Algebra.Order.Group.Nat

/-!
# Archiving a conversation

`archive_conversation` of `core/src/session_catalog.rs`: the checks of its
arguments, the moves of the rollout and its snapshot, and the update of the
catalog entry.  Whether an operation of the file system succeeds, and what a
failed one leaves, is data, and so is what a scan of the rollouts finds.  Paths
are followed as they are written, without links, and what is under them is a
file.
-/

namespace CodeRs.Rollout

open Function (update)
open Text (padded)

/-! ## Files -/

abbrev Files := Path → Option Text

/-- How the operations of `move_file` end.  A failed copy may leave a part of
the file. -/
structure MoveOutcome where
  rename : Bool
  copy : Except (Option Text) Unit
  removeFile : Bool

def moveFile (outcome : MoveOutcome) (files : Files) (old new : Path) :
    Except Text Unit × Files :=
  if outcome.rename = true then
    (.ok (), update (update files old none) new (files old))
  else
    match outcome.copy with
    | .error none => (.error "copy failed".toList, files)
    | .error (some part) =>
        (.error "copy failed".toList, update files new (some part))
    | .ok () =>
        let copied := update files new (files old)
        if outcome.removeFile = true then (.ok (), update copied old none)
        else (.error "remove failed".toList, copied)

/-- How `save` ends.  A failed one may leave some lines. -/
abbrev SaveOutcome := Except (Option (List Text)) Unit

/-- How the operations of `archive_conversation` on the file system end, with
what the scan of the rollouts finds. -/
structure ArchiveOutcomes where
  createDir : Bool
  moveRollout : MoveOutcome
  createSnapshotDir : Bool
  moveSnapshot : MoveOutcome
  readCatalog : Bool
  scan : Option RolloutScan
  saveReconciled : SaveOutcome
  saveEntry : SaveOutcome

/-- Every operation succeeds, and the scan finds nothing. -/
def allSucceed : ArchiveOutcomes where
  createDir := true
  moveRollout := ⟨true, .ok (), true⟩
  createSnapshotDir := true
  moveSnapshot := ⟨true, .ok (), true⟩
  readCatalog := true
  scan := some ⟨some [], none⟩
  saveReconciled := .ok ()
  saveEntry := .ok ()

/-- How ids are written and catalog entries are written and read. -/
structure CatalogFormat where
  uuid : Uuid → Text
  toString : SessionIndexEntry → Text
  fromStr : Text → Option SessionIndexEntry

/-- The code home and the cache of the process. -/
structure ArchiveState where
  files : Files
  catalogFile : Option (List Text)
  cache : Option SessionCatalog

/-! ## The arguments -/

def sessionsSubdir : String := "sessions"

def archivedSessionsSubdir : String := "archived_sessions"

def snapshotExtension : Text := "snapshot.json".toList

/-- What the name of a rollout says of its id. -/
def expectedId (rel : Path) : Option Text :=
  rel.fileStem.bind fun stem => (Text.rsplitOnce '-' stem).map Prod.snd

/-- The checks of the arguments.  They give whether the rollout is already
archived, and its path under the code home when it is. -/
def archiveTarget (format : CatalogFormat) (codeHome : Path) (sessionId : Uuid)
    (rolloutPath : Path) : Except Text (Bool × Path) :=
  match rolloutPath.stripPrefix codeHome with
  | none => .error "rollout_path must be under code_home".toList
  | some rel =>
      if (expectedId rel).any (fun id =>
          (format.uuid sessionId).toAsciiLowercase ≠ id.toAsciiLowercase) =
            true then
        .error "conversation_id does not match rollout_path".toList
      else
        let sessionsPrefix := Path.relative [sessionsSubdir]
        let archivedPrefix := Path.relative [archivedSessionsSubdir]
        let alreadyArchived := rel.startsWith archivedPrefix
        match rel.stripPrefix sessionsPrefix,
          rel.stripPrefix archivedPrefix with
        | some suffix, _ => .ok (alreadyArchived, archivedPrefix.join suffix)
        | none, some suffix => .ok (alreadyArchived, archivedPrefix.join suffix)
        | none, none =>
            .error
              ("rollout_path must be under sessions/ or ".toList ++
                "archived_sessions/".toList)

/-! ## The moves -/

/-- The moves of a rollout that is not archived yet, and of its snapshot. -/
def archiveFiles (outcomes : ArchiveOutcomes) (files : Files) (old new : Path) :
    Except Text Unit × Files :=
  if outcomes.createDir = false then
    (.error "failed to create archive directory".toList, files)
  else
    match moveFile outcomes.moveRollout files old new with
    | (.error _, files) => (.error "failed to move rollout file".toList, files)
    | (.ok (), files) =>
        let snapshotOld := old.withExtension snapshotExtension
        if (files snapshotOld).isSome = true then
          if outcomes.createSnapshotDir = false then
            (.error "failed to create archive directory".toList, files)
          else
            match moveFile outcomes.moveSnapshot files snapshotOld
              (new.withExtension snapshotExtension) with
            | (.error _, files) =>
                (.error "failed to move snapshot file".toList, files)
            | (.ok (), files) => (.ok (), files)
        else (.ok (), files)

/-! ## The catalog entry -/

/-- `save`: whether it succeeds, and the catalog file after it. -/
def saveCatalog (format : CatalogFormat) (outcome : SaveOutcome)
    (catalog : SessionCatalog)
    (file : Option (List Text)) : Bool × Option (List Text) :=
  match outcome with
  | .ok () => (true, some (catalog.allOrdered.map format.toString))
  | .error left => (false, left.or file)

/-- `reconcile` with the scan and with `save`: whether it succeeds, and the
catalog and its file after it. -/
def reconcileSaved (format : CatalogFormat) (outcomes : ArchiveOutcomes)
    (catalog : SessionCatalog) (file : Option (List Text)) :
    Bool × SessionCatalog × Option (List Text) :=
  match outcomes.scan with
  | none => (false, catalog, file)
  | some scan =>
      let reconciled := catalog.reconcile scan
      if reconciled.2 = ⟨0, 0, 0⟩ then (true, reconciled.1, file)
      else
        let saved :=
          saveCatalog format outcomes.saveReconciled reconciled.1 file
        (saved.1, reconciled.1, saved.2)

/-- `load_inner`.  A cached catalog keeps what a failed `reconcile` has done to
it. -/
def loadInner (format : CatalogFormat) (outcomes : ArchiveOutcomes)
    (s : ArchiveState) :
    Except Text SessionCatalog × ArchiveState :=
  match s.cache with
  | some existing =>
      let (saved, catalog, file) :=
        reconcileSaved format outcomes existing s.catalogFile
      (if saved = true then .ok catalog
        else .error "failed to reconcile session catalog".toList,
        { s with catalogFile := file, cache := some catalog })
  | none =>
      if outcomes.readCatalog = false then
        (.error "failed to load session catalog".toList, s)
      else
        let (saved, catalog, file) := reconcileSaved format outcomes
          (SessionCatalog.load format.fromStr s.catalogFile) s.catalogFile
        if saved = true then
          (.ok catalog, { s with catalogFile := file, cache := some catalog })
        else
          (.error "failed to reconcile session catalog".toList,
            { s with catalogFile := file })

/-- The update of the catalog entry, after the moves. -/
def updateArchivedEntry (format : CatalogFormat) (codeHome : Path)
    (outcomes : ArchiveOutcomes)
    (s : ArchiveState) (sessionId : Uuid) (newRel : Path) :
    Except Text Bool × ArchiveState :=
  match loadInner format outcomes s with
  | (.error error, s) => (.error error, s)
  | (.ok catalog, s) =>
      match catalog.entries.get sessionId with
      | none => (.ok false, s)
      | some entry =>
          let snapshotNewAbs :=
            (codeHome.join newRel).withExtension snapshotExtension
          let snapshotPath :=
            if (s.files snapshotNewAbs).isSome = true then
              snapshotNewAbs.stripPrefix codeHome
            else none
          let catalog :=
            catalog.upsert
              (SessionCatalog.archivedEntry entry newRel snapshotPath)
          let (saved, file) :=
            saveCatalog format outcomes.saveEntry catalog s.catalogFile
          if saved = true then
            (.ok true, { s with catalogFile := file, cache := some catalog })
          else
            (.error "failed to persist updated catalog entry".toList,
              { s with catalogFile := file })

def archiveConversation (format : CatalogFormat) (codeHome : Path)
    (outcomes : ArchiveOutcomes) (s : ArchiveState) (sessionId : Uuid)
    (rolloutPath : Path) :
    Except Text Bool × ArchiveState :=
  if (s.files rolloutPath).isNone = true then (.ok false, s)
  else
    match archiveTarget format codeHome sessionId rolloutPath with
    | .error error => (.error error, s)
    | .ok (true, newRel) =>
        updateArchivedEntry format codeHome outcomes s sessionId newRel
    | .ok (false, newRel) =>
        match archiveFiles outcomes s.files rolloutPath
          (codeHome.join newRel) with
        | (.error error, files) => (.error error, { s with files := files })
        | (.ok (), files) =>
            updateArchivedEntry format codeHome outcomes { s with
              files := files } sessionId
              newRel

/-! ## The names of rollouts -/

/-- The local time at which a session starts. -/
structure LocalTime where
  year : ℕ
  month : ℕ
  day : ℕ
  hour : ℕ
  minute : ℕ
  second : ℕ

/-- The time in the name of a rollout. -/
def LocalTime.dateStr (t : LocalTime) : Text :=
  padded 4 t.year ++ '-' :: padded 2 t.month ++ '-' :: padded 2 t.day ++ 'T' ::
    padded 2 t.hour ++ '-' :: padded 2 t.minute ++ '-' :: padded 2 t.second

/-- The name that `create_log_file` gives to a rollout. -/
def logFileName (format : CatalogFormat) (conversationId : Uuid)
    (t : LocalTime) : Text :=
  "rollout-".toList ++ t.dateStr ++ '-' :: format.uuid conversationId ++
    ".jsonl".toList

/-- The path of the file that `create_log_file` makes. -/
def logFilePath (format : CatalogFormat) (codeHome : Path)
    (conversationId : Uuid)
    (t : LocalTime) : Path :=
  codeHome.join (Path.relative [sessionsSubdir,
    String.ofList (Text.decimal t.year),
    String.ofList (padded 2 t.month), String.ofList (padded 2 t.day),
    String.ofList (logFileName format conversationId t)])

end CodeRs.Rollout

/-! ## The id in the name of a rollout

`archive_conversation` takes what is behind the last hyphen in the name of a
rollout for its id.  `create_log_file` writes a UUID into it, which has hyphens
itself. -/

namespace CodeRs.Rollout

open Text (padded rsplitOnce rsplitOnce_append)

def uuidDigits : Text := "0123456789abcdef".toList

/-- A UUID is written in five groups of 8, 4, 4, 4 and 12 hexadecimal digits. -/
def Hyphenated (uuid : Uuid → Text) : Prop :=
  ∀ id < 2 ^ 128, ∃ a b c d e : Text,
    uuid id = a ++ '-' :: b ++ '-' :: c ++ '-' :: d ++ '-' :: e ∧
      [a, b, c, d, e].map List.length = [8, 4, 4, 4, 12] ∧
      ∀ x ∈ a ++ b ++ c ++ d ++ e, x ∈ uuidDigits

theorem Hyphenated.exists_back {uuid : Uuid → Text}
    (h : Hyphenated uuid) {id : Uuid}
    (hid : id < 2 ^ 128) : ∃ front back : Text, uuid id = front ++ '-' :: back ∧
      front.length = 23 ∧ back.length = 12 ∧ '-' ∉ back := by
  obtain ⟨a, b, c, d, e, heq, hlengths, hdigits⟩ := h id hid
  simp only [List.map_cons, List.map_nil, List.cons.injEq, and_true] at hlengths
  obtain ⟨ha, hb, hc, hd, he⟩ := hlengths
  refine ⟨a ++ '-' :: b ++ '-' :: c ++ '-' :: d, e, heq, ?_, he, fun hmem => ?_⟩
  · simp [ha, hb, hc, hd]
  · exact absurd (hdigits '-' (List.mem_append_right _ hmem)) (by decide)

/-- The id check lets a rollout pass under the id that it was created for, and
under any other one nothing is changed. -/
structure ArchivesOnlyOwnId (format : CatalogFormat) (codeHome : Path)
    (outcomes : ArchiveOutcomes) (s : ArchiveState) (conversationId : Uuid)
    (t : LocalTime) :
    Prop where
  own : (archiveConversation format codeHome outcomes s conversationId
    (logFilePath format codeHome conversationId t)).1 ≠
      .error "conversation_id does not match rollout_path".toList
  others : ∀ sessionId < 2 ^ 128, sessionId ≠ conversationId →
    ∃ error, archiveConversation format codeHome outcomes s sessionId
      (logFilePath format codeHome conversationId t) = (.error error, s)

variable {format : CatalogFormat} {codeHome : Path} {outcomes : ArchiveOutcomes}
  {s : ArchiveState} {conversationId sessionId : Uuid} {t : LocalTime}

theorem stemOf_logFileName (format : CatalogFormat) (conversationId : Uuid)
    (t : LocalTime) :
    Path.stemOf (logFileName format conversationId t) =
      "rollout-".toList ++ t.dateStr ++ '-' :: format.uuid conversationId := by
  have hdot : '.' ∉ "jsonl".toList := by decide
  have hsplit := rsplitOnce_append ("rollout-".toList ++ t.dateStr ++ '-' ::
    format.uuid conversationId) hdot
  have hname : logFileName format conversationId t =
      ("rollout-".toList ++ t.dateStr ++ '-' ::
      format.uuid conversationId) ++ '.' :: "jsonl".toList := rfl
  rw [Path.stemOf, hname, hsplit]
  exact if_neg (by simp)

/-- The check looks at the last group of the UUID. -/
theorem expectedId_logFile {rel : Path} {front back : Text}
    (hname : rel.fileName = some (logFileName format conversationId t))
    (hid : format.uuid conversationId = front ++ '-' :: back)
    (hback : '-' ∉ back) :
    expectedId rel = some back := by
  have hstem : "rollout-".toList ++ t.dateStr ++ '-' :: (front ++ '-' :: back) =
      ("rollout-".toList ++ t.dateStr ++ '-' :: front) ++ '-' :: back := by
    simp
  rw [expectedId, Path.fileStem, hname, Option.map_some,
    stemOf_logFileName, hid, hstem,
    Option.bind_some, rsplitOnce_append _ hback]
  rfl

theorem archiveTarget_logFile (hformat : Hyphenated format.uuid)
    (hconversation : conversationId < 2 ^ 128)
    (hsession : sessionId < 2 ^ 128) :
    archiveTarget format codeHome sessionId
      (logFilePath format codeHome conversationId t) =
      .error "conversation_id does not match rollout_path".toList := by
  obtain ⟨front, back, hid, -, hlength, hback⟩ :=
    hformat.exists_back hconversation
  obtain ⟨front', back', hid', hfront', hback', -⟩ :=
    hformat.exists_back hsession
  have hstrip :
      (logFilePath format codeHome conversationId t).stripPrefix codeHome =
      some (Path.relative [sessionsSubdir, String.ofList (Text.decimal t.year),
        String.ofList (padded 2 t.month), String.ofList (padded 2 t.day),
        String.ofList (logFileName format conversationId t)]) :=
    Path.stripPrefix_eq_some
      (Path.components_join codeHome (Path.isAbsolute_relative _)
      (Path.curDir_notMem_relative _))
  have hname :
      (Path.relative [sessionsSubdir, String.ofList (Text.decimal t.year),
      String.ofList (padded 2 t.month), String.ofList (padded 2 t.day),
      String.ofList (logFileName format conversationId t)]).fileName =
        some (logFileName format conversationId t) := by
    simp [Path.fileName, Path.relative]
  have hne :
      (format.uuid sessionId).toAsciiLowercase ≠ back.toAsciiLowercase := by
    intro heq
    have hlengths := congrArg List.length heq
    rw [hid'] at hlengths
    simp [Text.toAsciiLowercase, hlength, hfront', hback'] at hlengths
  rw [archiveTarget, hstrip]
  simp only [expectedId_logFile hname hid hback]
  exact if_pos (by simpa using hne)

/-- The rollout of a session is never archived: the id check fails under its
own id.  Under every other one it does so too, and nothing is changed. -/
theorem not_archivesOnlyOwnId (hformat : Hyphenated format.uuid)
    (hconversation : conversationId < 2 ^ 128)
    (hexists : (s.files (logFilePath format codeHome conversationId t)).isSome =
      true) :
    ¬ ArchivesOnlyOwnId format codeHome outcomes s conversationId t ∧
      ∀ sessionId < 2 ^ 128,
        archiveConversation format codeHome outcomes s sessionId
        (logFilePath format codeHome conversationId t) =
          (.error "conversation_id does not match rollout_path".toList, s) := by
  have hfails : ∀ sessionId < 2 ^ 128,
      archiveConversation format codeHome outcomes s sessionId
      (logFilePath format codeHome conversationId t) =
        (.error "conversation_id does not match rollout_path".toList, s) := by
    intro sessionId hsession
    rw [archiveConversation,
      archiveTarget_logFile hformat hconversation hsession]
    exact if_neg (by
      rw [Option.isNone_eq_false_iff.2 hexists]; exact Bool.false_ne_true)
  refine ⟨fun h => h.own ?_, hfails⟩
  rw [hfails conversationId hconversation]

/-! ## A rollout -/

/-- The digits of a group of a UUID, which ends before a number of digits. -/
def uuidGroup (size after : ℕ) (id : Uuid) : Text :=
  (List.range size).map fun i =>
    uuidDigits.getD ((id >>> (4 * (after + size - 1 - i))) % 16) '0'

/-- The UUID of a number. -/
def hyphenated (id : Uuid) : Text :=
  uuidGroup 8 24 id ++ '-' :: uuidGroup 4 20 id ++
    '-' :: uuidGroup 4 16 id ++ '-' ::
    uuidGroup 4 12 id ++ '-' :: uuidGroup 12 0 id

theorem mem_uuidDigits {size after : ℕ} {id : Uuid} {c : Char}
    (h : c ∈ uuidGroup size after id) : c ∈ uuidDigits := by
  obtain ⟨i, -, rfl⟩ := List.mem_map.1 h
  have hall : ∀ n < 16, uuidDigits.getD n '0' ∈ uuidDigits := by decide
  exact hall _ (Nat.mod_lt _ (by decide))

theorem hyphenated_hyphenated : Hyphenated hyphenated := by
  intro id _
  refine ⟨_, _, _, _, _, rfl, ?_, fun c hc => ?_⟩
  · simp [uuidGroup]
  · simp only [List.mem_append, or_assoc] at hc
    rcases hc with hc | hc | hc | hc | hc <;> exact mem_uuidDigits hc

example : hyphenated 0x550e8400e29b41d4a716446655440000 =
    "550e8400-e29b-41d4-a716-446655440000".toList := by decide +kernel

/-- A format without entries. -/
def hyphenatedFormat : CatalogFormat := ⟨hyphenated, fun _ => [], fun _ => none⟩

/-- A code home with one file under every path. -/
def fullHome : ArchiveState := ⟨fun _ => some [], none, none⟩

def someTime : LocalTime := ⟨2025, 1, 2, 3, 4, 5⟩

/-- The rollout of session 1 is not archived. -/
theorem not_archivesOnlyOwnId_one :
    ¬ ArchivesOnlyOwnId hyphenatedFormat (Path.absolute ["home"])
      allSucceed fullHome 1
        someTime ∧
      ∀ sessionId < 2 ^ 128,
        archiveConversation hyphenatedFormat (Path.absolute ["home"])
        allSucceed fullHome sessionId
          (logFilePath hyphenatedFormat (Path.absolute ["home"]) 1 someTime) =
            (.error "conversation_id does not match rollout_path".toList,
              fullHome) :=
  not_archivesOnlyOwnId hyphenated_hyphenated (by decide) rfl

/-- The id check refuses a rollout under its own id. -/
theorem not_forall_archivesOnlyOwnId :
    ¬ ∀ (format : CatalogFormat) (codeHome : Path) (outcomes : ArchiveOutcomes)
      (s : ArchiveState) (conversationId : Uuid) (t : LocalTime),
      Hyphenated format.uuid → conversationId < 2 ^ 128 →
      (s.files (logFilePath format codeHome conversationId t)).isSome = true →
        ArchivesOnlyOwnId format codeHome outcomes s conversationId t := by
  intro h
  have hown :=
    (h hyphenatedFormat (Path.absolute ["home"]) allSucceed fullHome 1 someTime
      hyphenated_hyphenated (by decide) rfl).own
  refine hown ?_
  have htarget : archiveTarget hyphenatedFormat (Path.absolute ["home"]) 1
      (logFilePath hyphenatedFormat (Path.absolute ["home"]) 1 someTime) =
        .error "conversation_id does not match rollout_path".toList :=
    archiveTarget_logFile hyphenated_hyphenated (by decide) (by decide)
  simp only [archiveConversation, htarget]
  rfl

end CodeRs.Rollout
