import CodeRs.Lib.PartialMap
import CodeRs.Lib.Path
import CodeRs.Lib.Runs
import Mathlib.Data.Char
import Mathlib.Data.List.Lex
import Mathlib.Data.List.Nodup

/-!
# The turn diff tracker

During a turn the tracker gives every file that a patch touches an internal
name, keeps what was in the file at first, and follows the file through moves.
The unified diff compares, for every internal name, what was at first with what
is now at its current path.
-/

namespace CodeRs.TurnDiff

abbrev Bytes := List UInt8

inductive FileChange where
  | add (content : Text)
  | delete
  | update (unifiedDiff : Text) (movePath : Option Path) (originalContent
    newContent : Text)
deriving DecidableEq

def FileChange.movePath : FileChange → Option Path
  | .update _ movePath _ _ => movePath
  | _ => none

inductive FileMode where
  | regular
  | executable
  | symlink
deriving DecidableEq, Repr

def FileMode.asStr : FileMode → Text
  | .regular => "100644".toList
  | .executable => "100755".toList
  | .symlink => "120000".toList

def zeroOid : Text := "0000000000000000000000000000000000000000".toList

def devNull : Text := "/dev/null".toList

/-- What the tracker asks the file system and git. -/
structure Disk where
  pathExists : Path → Bool
  /-- `file_mode_for_path`. -/
  fileMode : Path → Option FileMode
  read : Path → Option Bytes
  readLink : Path → Option Bytes
  /-- `git_blob_oid_for_path`. -/
  gitBlobOid : Path → Option Text
  /-- `relative_to_git_root_str`. -/
  display : Path → Text

/-- The libraries that the tracker calls. -/
structure Tools where
  /-- `git_blob_sha1_hex_bytes`, in hexadecimal digits. -/
  blobSha1 : Bytes → Text
  /-- `std::str::from_utf8`. -/
  fromUtf8 : Bytes → Option Text
  /-- `similar::TextDiff::from_lines` of two texts, as a unified diff with two
  headers. -/
  unifiedDiff : Text → Text → Text → Text → Text

structure BaselineFileInfo where
  path : Path
  content : Bytes
  mode : FileMode
  oid : Text
deriving DecidableEq

/-- The stable internal name of a file.  A new one has never been used. -/
abbrev TempName := Nat

structure TurnDiffTracker where
  externalToTempName : PartialMap Path TempName
  baselineFileInfo : List (TempName × BaselineFileInfo)
  tempNameToCurrentPath : PartialMap TempName Path
  nextName : TempName

namespace TurnDiffTracker

def new : TurnDiffTracker := ⟨fun _ => none, [], fun _ => none, 0⟩

def blobBytes (disk : Disk) (path : Path) (mode : FileMode) : Option Bytes :=
  if disk.pathExists path then
    if mode = .symlink then disk.readLink path else disk.read path
  else none

/-- The object id of some bytes at a path. -/
def blobOid (tools : Tools) (disk : Disk) (path : Path) (isSymlink : Bool)
    (content : Bytes) :
    Text :=
  if isSymlink then tools.blobSha1 content
  else (disk.gitBlobOid path).getD (tools.blobSha1 content)

/-- The snapshot of a file that is seen for the first time. -/
def baselineFor (tools : Tools) (disk : Disk) (path : Path) :
    BaselineFileInfo :=
  if disk.pathExists path then
    let mode := disk.fileMode path
    let modeVal := mode.getD .regular
    let content := (blobBytes disk path modeVal).getD []
    ⟨path, content, modeVal,
      blobOid tools disk path (mode = some .symlink) content⟩
  else ⟨path, [], .regular, zeroOid⟩

/-- Ensure that a path has an internal name. -/
def ensureName (tools : Tools) (disk : Disk) (t : TurnDiffTracker)
    (path : Path) :
    TurnDiffTracker :=
  match t.externalToTempName path with
  | some _ => t
  | none =>
      let internal := t.nextName
      { externalToTempName := t.externalToTempName.insert path internal
        baselineFileInfo := (internal, baselineFor tools disk path) ::
          t.baselineFileInfo
        tempNameToCurrentPath := t.tempNameToCurrentPath.insert internal path
        nextName := t.nextName + 1 }

/-- Track a move of the file at `path`. -/
def trackMove (t : TurnDiffTracker) (path dest : Path) : TurnDiffTracker :=
  match t.externalToTempName path with
  | some internal =>
      { t with
        tempNameToCurrentPath := t.tempNameToCurrentPath.insert internal dest
        externalToTempName :=
          (t.externalToTempName.remove path).insert dest internal }
  | none =>
      let internal := t.nextName
      { externalToTempName :=
          (t.externalToTempName.remove path).insert dest internal
        baselineFileInfo := (internal, ⟨path, [], .regular, zeroOid⟩) ::
          t.baselineFileInfo
        tempNameToCurrentPath := t.tempNameToCurrentPath.insert internal dest
        nextName := t.nextName + 1 }

def onChange (tools : Tools) (disk : Disk) (t : TurnDiffTracker) (path : Path)
    (change : FileChange) : TurnDiffTracker :=
  let t := t.ensureName tools disk path
  match change.movePath with
  | some dest => t.trackMove path dest
  | none => t

/-- `on_patch_begin`.  The changes are a hash map, given in the order of its
iteration. -/
def onPatchBegin (tools : Tools) (t : TurnDiffTracker) (disk : Disk)
    (changes : List (Path × FileChange)) : TurnDiffTracker :=
  changes.foldl (fun t entry => t.onChange tools disk entry.1 entry.2) t

def getPathForInternal (t : TurnDiffTracker) (internal : TempName) :
    Option Path :=
  t.tempNameToCurrentPath internal <|>
    (t.baselineFileInfo.lookup internal).map (·.path)

/-- The header of one side of a file's diff. -/
def sideHeader (present : Bool) (side display : Text) : Text :=
  if present then side ++ display else devNull

def getFileDiff (tools : Tools) (disk : Disk) (t : TurnDiffTracker)
    (internal : TempName) :
    Text :=
  let info := t.baselineFileInfo.lookup internal
  let baselineMode := (info.map (·.mode)).getD .regular
  let leftOid := (info.map (·.oid)).getD zeroOid
  match t.getPathForInternal internal with
  | none => []
  | some path =>
      let currentMode := (disk.fileMode path).getD .regular
      let rightBytes := blobBytes disk path currentMode
      let leftDisplay := disk.display ((info.map (·.path)).getD Path.empty)
      let rightDisplay := disk.display path
      let rightOid := match rightBytes with
        | some b => blobOid tools disk path (currentMode = .symlink) b
        | none => zeroOid
      let leftPresent := decide (leftOid ≠ zeroOid)
      let leftBytes := if leftPresent then info.map (·.content) else none
      -- Nothing to report if the file is as it was, or missing as it was.
      if leftBytes = rightBytes then []
      else
        let isAdd := !leftPresent && rightBytes.isSome
        let isDelete := leftPresent && rightBytes.isNone
        let modes :=
          if isAdd then
            "new file mode ".toList ++ currentMode.asStr ++ "\n".toList
          else if isDelete then
            "deleted file mode ".toList ++ baselineMode.asStr ++ "\n".toList
          else if baselineMode ≠ currentMode then
            "old mode ".toList ++ baselineMode.asStr ++ "\nnew mode ".toList ++
              currentMode.asStr ++ "\n".toList
          else []
        let leftText := leftBytes.bind tools.fromUtf8
        let rightText := rightBytes.bind tools.fromUtf8
        let canTextDiff := (leftText.isSome && rightText.isSome) ||
          (rightText.isSome && isAdd) || (leftText.isSome && isDelete)
        let oldHeader := sideHeader leftPresent "a/".toList leftDisplay
        let newHeader := sideHeader rightBytes.isSome "b/".toList rightDisplay
        "diff --git a/".toList ++ leftDisplay ++ " b/".toList ++ rightDisplay ++
          "\n".toList ++
          modes ++ "index ".toList ++ leftOid ++ "..".toList ++ rightOid ++
          "\n".toList ++
          if canTextDiff then
            tools.unifiedDiff (leftText.getD []) (rightText.getD [])
              oldHeader newHeader
          else
            "--- ".toList ++ oldHeader ++ "\n+++ ".toList ++ newHeader ++
              "\nBinary files differ\n".toList

/-- The names with a baseline by the displays of their current paths.  The keys
of the hash map come in any order. -/
def sortedNames (disk : Disk) (t : TurnDiffTracker) (keys : List TempName) :
    List TempName :=
  let key := fun internal =>
    ((t.getPathForInternal internal).map disk.display).getD []
  keys.mergeSort fun a b => decide (key a ≤ key b)

def getUnifiedDiff (tools : Tools) (disk : Disk) (t : TurnDiffTracker)
    (keys : List TempName) :
    Option Text :=
  let aggregated := (t.sortedNames disk keys).foldl (fun aggregated internal =>
    let longer := aggregated ++ t.getFileDiff tools disk internal
    if longer.getLast? = some '\n' then longer else longer ++ "\n".toList) []
  if aggregated.all Text.isWhitespace then none else some aggregated

/-- The current paths of the files that the unified diff has a diff for. -/
def reportedPaths (tools : Tools) (disk : Disk) (t : TurnDiffTracker)
    (keys : List TempName) :
    List Path :=
  ((t.sortedNames disk keys).filter
    fun internal => t.getFileDiff tools disk internal ≠ []).filterMap
    t.getPathForInternal

/-- The two maps are inverse to each other, and whatever is on disk, every path
is reported at most once. -/
def Consistent (tools : Tools) (t : TurnDiffTracker) : Prop :=
  PartialMap.MutuallyInverse t.externalToTempName t.tempNameToCurrentPath ∧
    ∀ (disk : Disk) (keys : List TempName),
      keys.Perm (t.baselineFileInfo.map (·.1)) →
      (t.reportedPaths tools disk keys).Nodup

end TurnDiffTracker

end CodeRs.TurnDiff

/-! ## The maps of the turn diff tracker

The map from paths to internal names and the map from internal names to current
paths are inverse to each other until a change moves a file onto a path that
another tracked file is at.  From then on that other file keeps its current
path and is not found there, and two names can report one path. -/

namespace CodeRs.TurnDiff

namespace TurnDiffTracker

open PartialMap

/-- The names in use are those with a baseline, and they are old. -/
structure Known (t : TurnDiffTracker) : Prop where
  fresh : ∀ n, t.nextName ≤ n → t.tempNameToCurrentPath n = none
  found : ∀ path n, t.externalToTempName path = some n →
    t.tempNameToCurrentPath n ≠ none
  placed : ∀ n ∈ t.baselineFileInfo.map (·.1), t.tempNameToCurrentPath n ≠ none
  nodup : (t.baselineFileInfo.map (·.1)).Nodup

/-- The two maps are inverse to each other. -/
def Inverse (t : TurnDiffTracker) : Prop :=
  MutuallyInverse t.externalToTempName t.tempNameToCurrentPath

/-- Some name has a current path and is not found. -/
def HasLost (t : TurnDiffTracker) : Prop :=
  ∃ n, Lost t.externalToTempName t.tempNameToCurrentPath n

/-- A change that moves its file moves it onto itself or onto an untracked
path. -/
def MovesToFree (t : TurnDiffTracker) (path : Path)
    (change : FileChange) : Prop :=
  ∀ dest, change.movePath = some dest →
    dest = path ∨ t.externalToTempName dest = none

variable {t : TurnDiffTracker} {path : Path}

theorem known_new : new.Known :=
  ⟨fun _ _ => rfl, by rintro path n ⟨⟩, by rintro n ⟨⟩, List.nodup_nil⟩

theorem inverse_new : new.Inverse := by
  intro path n
  constructor
  · rintro ⟨⟩
  · rintro ⟨⟩

/-! ## An internal name for a path -/

theorem ensureName_isSome (tools : Tools) (disk : Disk) (t : TurnDiffTracker)
    (path : Path) :
    ∃ n, (t.ensureName tools disk path).externalToTempName path = some n := by
  cases h : t.externalToTempName path with
  | none => exact ⟨t.nextName, by simp [ensureName, h]⟩
  | some n => exact ⟨n, by simp [ensureName, h]⟩

theorem ensureName_of_ne (tools : Tools) (disk : Disk) (t : TurnDiffTracker)
    {other : Path}
    (hne : other ≠ path) :
    (t.ensureName tools disk path).externalToTempName other =
      t.externalToTempName other := by
  cases h : t.externalToTempName path with
  | none => simp [ensureName, h, hne]
  | some n => simp [ensureName, h]

theorem ensureName_new (tools : Tools) (disk : Disk)
    (h : t.externalToTempName path = none) :
    (t.ensureName tools disk path).externalToTempName =
        t.externalToTempName.insert path t.nextName ∧
      (t.ensureName tools disk path).tempNameToCurrentPath =
        t.tempNameToCurrentPath.insert t.nextName path ∧
      (t.ensureName tools disk path).baselineFileInfo =
        (t.nextName, baselineFor tools disk path) :: t.baselineFileInfo ∧
      (t.ensureName tools disk path).nextName = t.nextName + 1 := by
  simp [ensureName, h]

theorem ensureName_tracked (tools : Tools) (disk : Disk) {n : TempName}
    (h : t.externalToTempName path = some n) :
    t.ensureName tools disk path = t := by
  simp [ensureName, h]

theorem Known.ensureName (h : t.Known) (tools : Tools) (disk : Disk)
    (path : Path) :
    (t.ensureName tools disk path).Known := by
  cases hpath : t.externalToTempName path with
  | some n =>
      rw [ensureName_tracked tools disk hpath]
      exact h
  | none =>
      obtain ⟨hnames, hpaths, hbaseline, hnext⟩ :=
        ensureName_new tools disk hpath
      have hold : ∀ n ∈ t.baselineFileInfo.map (·.1), n ≠ t.nextName := by
        rintro n hn rfl
        exact h.placed _ hn (h.fresh _ (Nat.le_refl _))
      have hplaced : ∀ n, t.tempNameToCurrentPath n ≠ none →
          t.tempNameToCurrentPath.insert t.nextName path n ≠ none := by
        intro n hn
        have hne : n ≠ t.nextName := by
          rintro rfl
          exact hn (h.fresh _ (Nat.le_refl _))
        rw [insert_of_ne hne]
        exact hn
      refine ⟨?_, ?_, ?_, ?_⟩
      · intro n hn
        rw [hnext] at hn
        rw [hpaths, insert_of_ne (Nat.ne_of_gt hn)]
        exact h.fresh n (Nat.le_of_succ_le hn)
      · intro other n hn
        rw [hpaths]
        rw [hnames] at hn
        by_cases hother : other = path
        · subst hother
          rw [insert_self] at hn
          cases hn
          simp
        · rw [insert_of_ne hother] at hn
          exact hplaced n (h.found other n hn)
      · intro n hn
        rw [hpaths]
        rw [hbaseline] at hn
        rcases List.mem_cons.1 hn with rfl | hn
        · simp
        · exact hplaced n (h.placed n hn)
      · rw [hbaseline]
        exact List.nodup_cons.2 ⟨fun hmem => hold _ hmem rfl, h.nodup⟩

theorem Inverse.ensureName (h : t.Inverse) (hknown : t.Known)
    (tools : Tools) (disk : Disk)
    (path : Path) : (t.ensureName tools disk path).Inverse := by
  cases hpath : t.externalToTempName path with
  | some n =>
      rw [ensureName_tracked tools disk hpath]
      exact h
  | none =>
      obtain ⟨hnames, hpaths, -, -⟩ := ensureName_new tools disk hpath
      rw [Inverse, hnames, hpaths]
      exact MutuallyInverse.insert_fresh h hpath
        (hknown.fresh _ (Nat.le_refl _))

theorem HasLost.ensureName (h : t.HasLost) (hknown : t.Known)
    (tools : Tools) (disk : Disk)
    (path : Path) : (t.ensureName tools disk path).HasLost := by
  cases hpath : t.externalToTempName path with
  | some m =>
      rw [ensureName_tracked tools disk hpath]
      exact h
  | none =>
      obtain ⟨hnames, hpaths, -, -⟩ := ensureName_new tools disk hpath
      obtain ⟨n, hn⟩ := h
      refine ⟨n, ?_⟩
      rw [hnames, hpaths]
      exact hn.insert_fresh (hknown.fresh _ (Nat.le_refl _))

/-! ## A move -/

variable {n : TempName}

theorem trackMove_eq (h : t.externalToTempName path = some n) (dest : Path) :
    t.trackMove path dest =
      { t with
        tempNameToCurrentPath := t.tempNameToCurrentPath.insert n dest
        externalToTempName :=
          (t.externalToTempName.remove path).insert dest n } := by
  simp only [trackMove, h]

theorem Known.trackMove (h : t.Known)
    (hpath : t.externalToTempName path = some n)
    (dest : Path) : (t.trackMove path dest).Known := by
  have hplaced : ∀ m, t.tempNameToCurrentPath m ≠ none →
      t.tempNameToCurrentPath.insert n dest m ≠ none := by
    intro m hm
    by_cases hne : m = n
    · simp [hne]
    · rw [insert_of_ne hne]
      exact hm
  rw [trackMove_eq hpath]
  refine ⟨?_, ?_, fun m hm => hplaced m (h.placed m hm), h.nodup⟩
  · intro m hm
    change t.nextName ≤ m at hm
    change t.tempNameToCurrentPath.insert n dest m = none
    have hne : m ≠ n := by
      rintro rfl
      exact h.found _ _ hpath (h.fresh _ hm)
    rw [insert_of_ne hne]
    exact h.fresh m hm
  · intro other m hm
    change (t.externalToTempName.remove path).insert dest n other = some m at hm
    by_cases hdest : other = dest
    · subst hdest
      rw [insert_self] at hm
      cases hm
      simp
    · rw [insert_of_ne hdest] at hm
      by_cases hother : other = path
      · subst hother
        simp at hm
      · rw [remove_of_ne hother] at hm
        exact hplaced m (h.found other m hm)

theorem Inverse.trackMove (h : t.Inverse)
    (hpath : t.externalToTempName path = some n)
    {dest : Path} (hdest : dest = path ∨ t.externalToTempName dest = none) :
    (t.trackMove path dest).Inverse := by
  rw [trackMove_eq hpath]
  exact MutuallyInverse.relocate h hpath hdest

theorem Inverse.lost_trackMove (h : t.Inverse)
    (hpath : t.externalToTempName path = some n)
    {dest : Path} (hdest : ¬ (dest = path ∨ t.externalToTempName dest = none)) :
    (t.trackMove path dest).HasLost := by
  rw [not_or] at hdest
  obtain ⟨other, hother⟩ := Option.ne_none_iff_exists'.1 hdest.2
  rw [trackMove_eq hpath]
  exact ⟨other, MutuallyInverse.lost_relocate h hpath hdest.1 hother⟩

theorem HasLost.trackMove (h : t.HasLost)
    (hpath : t.externalToTempName path = some n)
    (dest : Path) : (t.trackMove path dest).HasLost := by
  obtain ⟨m, hm⟩ := h
  rw [trackMove_eq hpath]
  exact ⟨m, hm.relocate hpath⟩

/-! ## One change -/

section Change

variable (tools : Tools) (disk : Disk) (change : FileChange)

theorem movesToFree_ensureName (t : TurnDiffTracker) (path : Path) :
    (t.ensureName tools disk path).MovesToFree path change ↔
      t.MovesToFree path change := by
  refine forall_congr' fun dest => imp_congr_right fun _ => ?_
  by_cases hdest : dest = path
  · simp [hdest]
  · rw [ensureName_of_ne tools disk t hdest]

theorem Known.onChange (h : t.Known) (path : Path) :
    (t.onChange tools disk path change).Known := by
  obtain ⟨n, hn⟩ := ensureName_isSome tools disk t path
  have hnamed := h.ensureName tools disk path
  simp only [TurnDiffTracker.onChange]
  cases change.movePath with
  | none => exact hnamed
  | some dest => exact hnamed.trackMove hn dest

theorem Inverse.onChange (h : t.Inverse) (hknown : t.Known)
    (hfree : t.MovesToFree path change) :
    (t.onChange tools disk path change).Inverse := by
  obtain ⟨n, hn⟩ := ensureName_isSome tools disk t path
  have hnamed := h.ensureName hknown tools disk path
  rw [← movesToFree_ensureName tools disk] at hfree
  simp only [TurnDiffTracker.onChange]
  cases hmove : change.movePath with
  | none => exact hnamed
  | some dest => exact hnamed.trackMove hn (hfree dest hmove)

/-- A move onto the path of another tracked file loses that file. -/
theorem Inverse.lost_onChange (h : t.Inverse) (hknown : t.Known)
    (hfree : ¬ t.MovesToFree path change) :
    (t.onChange tools disk path change).HasLost := by
  obtain ⟨n, hn⟩ := ensureName_isSome tools disk t path
  have hnamed := h.ensureName hknown tools disk path
  rw [← movesToFree_ensureName tools disk] at hfree
  simp only [TurnDiffTracker.onChange]
  cases hmove : change.movePath with
  | none =>
      exact absurd (fun dest hdest => by rw [hmove] at hdest; cases hdest) hfree
  | some dest =>
      apply hnamed.lost_trackMove hn
      intro hdest
      apply hfree
      intro other hother
      rw [hmove] at hother
      cases hother
      exact hdest

theorem HasLost.onChange (h : t.HasLost) (hknown : t.Known) (path : Path) :
    (t.onChange tools disk path change).HasLost := by
  obtain ⟨n, hn⟩ := ensureName_isSome tools disk t path
  have hnamed := h.ensureName hknown tools disk path
  simp only [TurnDiffTracker.onChange]
  cases change.movePath with
  | none => exact hnamed
  | some dest => exact hnamed.trackMove hn dest

end Change

/-! ## What is reported -/

/-- Every name with a baseline has a current path, so the path of the baseline
is not used. -/
theorem Known.getPathForInternal (h : t.Known) (n : TempName) :
    t.getPathForInternal n = t.tempNameToCurrentPath n := by
  cases hn : t.tempNameToCurrentPath n with
  | some path => simp [TurnDiffTracker.getPathForInternal, hn]
  | none =>
      have hlookup : t.baselineFileInfo.lookup n = none := by
        rw [List.lookup_eq_none_iff]
        intro entry hentry
        by_contra hsame
        have hkey : n = entry.1 := by simpa using hsame
        exact h.placed n (hkey ▸ List.mem_map_of_mem hentry) hn
      simp [TurnDiffTracker.getPathForInternal, hn, hlookup]

theorem Inverse.consistent (h : t.Inverse) (hknown : t.Known) (tools : Tools) :
    t.Consistent tools := by
  refine ⟨h, ?_⟩
  intro disk keys hkeys
  apply List.Nodup.filterMap
  · intro m n path hm hn
    rw [Option.mem_def, hknown.getPathForInternal] at hm hn
    have hsame : some m = some n :=
      ((h path m).2 hm).symm.trans ((h path n).2 hn)
    exact Option.some.inj hsame
  · apply List.Nodup.filter
    have hsorted : (t.sortedNames disk keys).Perm keys := List.mergeSort_perm ..
    exact (hsorted.trans hkeys).nodup_iff.2 hknown.nodup

/-! ## Whole runs -/

/-- One call of `on_patch_begin`: the disk it finds and the changes of the
patch. -/
abbrev PatchBegin := Disk × List (Path × FileChange)

/-- The changes of some calls, one by one. -/
def changesOf (patches : List PatchBegin) : List (Disk × Path × FileChange) :=
  patches.flatMap fun patch => patch.2.map fun entry => (patch.1, entry)

theorem after_onPatchBegin (tools : Tools) (patches : List PatchBegin)
    (t : TurnDiffTracker) :
    after (fun t patch => t.onPatchBegin tools patch.1 patch.2) t patches =
      after (fun t entry => t.onChange tools entry.1 entry.2.1 entry.2.2) t
        (changesOf patches) := by
  induction patches generalizing t with
  | nil => rfl
  | cons patch patches ih =>
      have hpatch :
          ∀ (entries : List (Path × FileChange)) (t : TurnDiffTracker),
          after (fun t entry => t.onChange tools entry.1 entry.2.1 entry.2.2) t
            (entries.map fun entry => (patch.1, entry)) =
            t.onPatchBegin tools patch.1 entries := by
        intro entries
        induction entries with
        | nil => exact fun _ => rfl
        | cons entry entries ih => exact fun t => ih _
      rw [changesOf, List.flatMap_cons, after_append, hpatch]
      exact ih _

/-- After some calls of `on_patch_begin` the maps are inverse to each other and
paths are reported once exactly if no change has moved a file onto the path of
another tracked one. -/
theorem consistent_iff_movesToFree (tools : Tools) (patches : List PatchBegin) :
    (after (fun t patch => t.onPatchBegin tools patch.1 patch.2) new
      patches).Consistent tools ↔
      Along (fun t entry => t.onChange tools entry.1 entry.2.1 entry.2.2)
        (fun t entry => t.MovesToFree entry.2.1 entry.2.2) new
        (changesOf patches) := by
  rw [after_onPatchBegin]
  refine after_iff_along (P := fun t : TurnDiffTracker => t.Known ∧ t.Inverse)
    (Q := fun t : TurnDiffTracker => t.Consistent tools)
    (R := fun t : TurnDiffTracker => t.Known ∧ t.HasLost)
    ?_ ?_ ?_ ?_ ?_ ⟨known_new, inverse_new⟩ _
  · rintro t entry ⟨hknown, hinv⟩ hfree
    exact ⟨hknown.onChange .., hinv.onChange _ _ _ hknown hfree⟩
  · rintro t entry ⟨hknown, hinv⟩ hfree
    exact ⟨hknown.onChange .., hinv.lost_onChange _ _ _ hknown hfree⟩
  · rintro t entry ⟨hknown, hlost⟩
    exact ⟨hknown.onChange .., hlost.onChange _ _ _ hknown _⟩
  · rintro t ⟨hknown, hinv⟩
    exact hinv.consistent hknown tools
  · rintro t ⟨-, n, hlost⟩ hconsistent
    exact hconsistent.1.not_lost n hlost

/-- Two patches: one updates `b`, the other one moves `a` onto `b`. -/
def moveOntoTracked (disk : Disk) : List PatchBegin :=
  let a := Path.relative ["a"]
  let b := Path.relative ["b"]
  [(disk, [(b, .update [] none [] [])]),
    (disk, [(a, .update [] (some b) [] [])])]

theorem moveOntoTracked_not_consistent :
    ¬ ∀ (tools : Tools) (patches : List PatchBegin),
      (after (fun t patch => t.onPatchBegin tools patch.1 patch.2) new
        patches).Consistent
        tools := by
  intro h
  let disk : Disk :=
    ⟨fun _ => false, fun _ => none, fun _ => none, fun _ => none,
      fun _ => none, fun _ => []⟩
  let tools : Tools := ⟨fun _ => [], fun _ => none, fun _ _ _ _ => []⟩
  have hlast := h tools (moveOntoTracked disk)
  have hfound := (hlast.1 (Path.relative ["b"]) 0).2 (by decide)
  exact absurd hfound (by decide)

end TurnDiffTracker

end CodeRs.TurnDiff
