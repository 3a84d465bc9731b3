import CodeRs.Rollout.List
import Mathlib.Data.List.Perm.Basic

/-!
# Passing the cursor on

The pages of `get_conversations` are the pages behind a cursor of `Lib.Paging`:
files are scanned by day and listed by modification time, and the key of a file
is its time stamp and UUID.  Visiting all pages is right exactly when the last
file of each page splits the list.
-/

namespace CodeRs.Rollout

variable (formats : Formats)

def Cursor.key (cursor : Cursor) : ℤ ×ₗ ℕ := toLex (cursor.ts, cursor.id)

def DayEntry.cursor (entry : DayEntry) : Cursor := ⟨entry.ts, entry.sid⟩

def DayEntry.key (entry : DayEntry) : ℤ ×ₗ ℕ := entry.cursor.key

instance : Std.Total DayEntry.Before :=
  ⟨fun a b => le_total b.sortKey a.sortKey⟩

instance : IsTrans DayEntry DayEntry.Before :=
  ⟨fun _ _ _ hab hbc => le_trans hbc hab⟩

/-! ## The files of a scan -/

theorem flatMap_collectDirsDesc_perm {α β : Type*} {dirs : List (ℕ × α)}
    {f g : ℕ × α → List β} (h : ∀ dir ∈ dirs, (f dir).Perm (g dir)) :
    ((collectDirsDesc dirs).flatMap f).Perm (dirs.flatMap g) :=
  ((List.perm_insertionSort _ dirs).flatMap_right f).trans
    (List.Perm.flatMap_left dirs h)

/-- The scan reaches every file with a proper name once. -/
theorem scanOrder_perm (dir : SessionsDir) :
    (dir.scanOrder formats).Perm (dayEntries formats dir.files) := by
  have hflat : dayEntries formats dir.files =
      dir.years.flatMap fun year => year.2.flatMap fun month =>
        month.2.flatMap fun day => dayEntries formats day.2 := by
    simp only [dayEntries, SessionsDir.files, List.filterMap_flatMap]
  rw [hflat]
  exact flatMap_collectDirsDesc_perm fun year _ =>
    flatMap_collectDirsDesc_perm fun month _ =>
      flatMap_collectDirsDesc_perm fun day _ => List.perm_insertionSort _ _

theorem mem_dayEntries {files : List RolloutFile} {entry : DayEntry} :
    entry ∈ dayEntries formats files ↔
      entry.file ∈ files ∧ entry.modified = entry.file.modified ∧
        parseTimestampUuidFromFilename formats entry.file.path.fileName =
          some (entry.ts, entry.sid) := by
  rw [dayEntries, List.mem_filterMap]
  constructor
  · rintro ⟨file, hfile, hentry⟩
    obtain ⟨⟨ts, sid⟩, hparse, rfl⟩ := Option.map_eq_some_iff.1 hentry
    exact ⟨hfile, rfl, hparse⟩
  · rintro ⟨hfile, hmodified, hparse⟩
    refine ⟨entry.file, hfile, ?_⟩
    rw [hparse, Option.map_some, ← hmodified]

theorem mem_scanOrder {dir : SessionsDir} {entry : DayEntry} :
    entry ∈ dir.scanOrder formats ↔
      entry.file ∈ dir.files ∧ entry.modified = entry.file.modified ∧
        parseTimestampUuidFromFilename formats entry.file.path.fileName =
          some (entry.ts, entry.sid) :=
  (scanOrder_perm formats dir).mem_iff.trans (mem_dayEntries formats)

theorem eq_of_path_eq {dir : SessionsDir} {a b : DayEntry}
    (ha : a ∈ dir.scanOrder formats) (hb : b ∈ dir.scanOrder formats)
    (hpath : a.file.path = b.file.path) : a = b := by
  obtain ⟨hafile, hamodified, haparse⟩ := (mem_scanOrder formats).1 ha
  obtain ⟨hbfile, hbmodified, hbparse⟩ := (mem_scanOrder formats).1 hb
  have hfile : a.file = b.file :=
    List.inj_on_of_nodup_map dir.nodupPaths hafile hbfile hpath
  rw [hfile, hbparse, Option.some.injEq, Prod.mk.injEq] at haparse
  cases a
  cases b
  simp_all

theorem nodup_scanOrder (dir : SessionsDir) :
    (dir.scanOrder formats).Nodup := by
  rw [(scanOrder_perm formats dir).nodup_iff]
  refine List.Nodup.filterMap ?_ (List.Nodup.of_map _ dir.nodupPaths)
  intro file file' entry hentry hentry'
  obtain ⟨_, -, rfl⟩ := Option.map_eq_some_iff.1 (Option.mem_def.1 hentry)
  obtain ⟨_, -, heq⟩ := Option.map_eq_some_iff.1 (Option.mem_def.1 hentry')
  exact (congrArg DayEntry.file heq).symm

/-! ## The loop -/

theorem anchor_test (entry : DayEntry) (anchor : Cursor) :
    (entry.ts < anchor.ts ||
      (entry.ts = anchor.ts && entry.sid < anchor.id) : Bool) =
      decide (entry.key < anchor.key) := by
  rw [Bool.eq_iff_iff]
  simp [DayEntry.key, DayEntry.cursor, Cursor.key, Prod.Lex.toLex_lt_toLex]

/-- Below the cap, the loop collects the candidates from the anchor on. -/
theorem scanFiles_candidates (anchor : Cursor)
    (allowedSources : List SessionSource)
    (scan : Scan) (entries : List DayEntry)
    (h : scan.scannedFiles + entries.length < maxScanFiles) :
    (scanFiles anchor allowedSources scan entries).candidates =
      scan.candidates ++
        (if scan.anchorPassed then entries
          else entries.dropWhile fun entry => ¬ entry.key < anchor.key).filter
          (isCandidate allowedSources) := by
  induction entries generalizing scan with
  | nil => simp [scanFiles]
  | cons entry rest ih =>
      rw [List.length_cons] at h
      have hcap : ¬ scan.scannedFiles + 1 ≥ maxScanFiles := by omega
      -- what the loop does once the anchor is passed
      have htake : ∀ scan : Scan,
          scan.scannedFiles + (rest.length + 1) < maxScanFiles →
          (scanFiles anchor allowedSources
            { scannedFiles := scan.scannedFiles + 1, anchorPassed := true
              candidates :=
                if isCandidate allowedSources entry then
                  scan.candidates ++ [entry]
                else scan.candidates } rest).candidates =
            scan.candidates ++
              (entry :: rest).filter (isCandidate allowedSources) := by
        intro scan hscan
        rw [ih _ (by simp only; omega), List.filter_cons]
        split <;> simp
      cases hpassed : scan.anchorPassed with
      | true =>
          simp only [scanFiles, if_neg hcap, hpassed, Bool.not_true,
            Bool.false_and,
            Bool.false_eq_true, if_false, if_true]
          exact htake scan h
      | false =>
          by_cases hkey : entry.key < anchor.key
          · simp only [scanFiles, if_neg hcap, anchor_test, hpassed, hkey,
              decide_true, Bool.not_true, Bool.and_false,
              Bool.false_eq_true, if_false]
            rw [List.dropWhile_cons_of_neg (by simpa using hkey)]
            exact htake scan h
          · simp only [scanFiles, if_neg hcap, anchor_test, hpassed, hkey,
              decide_false, Bool.not_false, Bool.and_true, if_true]
            rw [ih _ (by simp only; omega),
              List.dropWhile_cons_of_pos (by simpa using hkey)]
            rfl

/-! ## The pages of the library -/

/-- A page of the library, for the scan of a directory. -/
abbrev entryPage (dir : SessionsDir) (pageSize : ℕ)
    (allowedSources : List SessionSource) (cursor : Option Cursor) :
    List DayEntry :=
  page DayEntry.Before DayEntry.key (isCandidate allowedSources)
    (dir.scanOrder formats) pageSize (cursor.map Cursor.key)

theorem buildNextCursor_map {entries : List DayEntry}
    (h : ∀ entry ∈ entries,
      parseTimestampUuidFromFilename formats entry.file.path.fileName =
        some (entry.ts, entry.sid)) :
    buildNextCursor formats (entries.map (DayEntry.toItem formats)) =
      entries.getLast?.map DayEntry.cursor := by
  rw [buildNextCursor, List.getLast?_map]
  cases hlast : entries.getLast? with
  | none => rfl
  | some last =>
      have hparse := h last (List.mem_of_getLast? hlast)
      simp [DayEntry.toItem, hparse, DayEntry.cursor]

/-- A page holds the items of the library's page, and its cursor is the key of
the last one. -/
theorem getConversations_eq {dir : SessionsDir}
    (h : (dir.scanOrder formats).length < maxScanFiles) (pageSize : ℕ)
    (cursor : Option Cursor) (allowedSources : List SessionSource) :
    let result :=
      getConversations formats (some dir) pageSize cursor allowedSources
    let entries := entryPage formats dir pageSize allowedSources cursor
    result.items = entries.map (DayEntry.toItem formats) ∧
      result.nextCursor = entries.getLast?.map DayEntry.cursor := by
  have hitems : ((scanFiles (cursor.getD ⟨0, 0⟩) allowedSources
      { scannedFiles := 0, anchorPassed := cursor.isNone, candidates := [] }
      (dir.scanOrder formats)).candidates.insertionSort DayEntry.Before).take
      pageSize =
        entryPage formats dir pageSize allowedSources cursor := by
    rw [scanFiles_candidates _ _ _ _ (by simpa using h), List.nil_append]
    cases cursor with
    | none => rfl
    | some anchor => rfl
  refine ⟨congrArg (List.map _) hitems, ?_⟩
  simp only [getConversations, traverseDirectoriesForPaths, hitems]
  refine buildNextCursor_map formats fun entry hentry => ?_
  have hlist := (List.mem_insertionSort _).1 (List.mem_of_mem_take hentry)
  exact ((mem_scanOrder formats).1
    ((scanFrom_sublist _).subset (List.mem_filter.1 hlist).1)).2.2

theorem visitConversations_eq {dir : SessionsDir}
    (h : (dir.scanOrder formats).length < maxScanFiles) (pageSize : ℕ)
    (allowedSources : List SessionSource) (fuel : ℕ) (cursor : Option Cursor) :
    visitConversations formats (some dir) pageSize allowedSources fuel cursor =
      (visit DayEntry.Before DayEntry.key (isCandidate allowedSources)
        (dir.scanOrder formats) pageSize fuel (cursor.map Cursor.key)).map
        (List.map (DayEntry.toItem formats)) := by
  induction fuel generalizing cursor with
  | zero => rfl
  | succ fuel ih =>
      obtain ⟨hitems, hnext⟩ :=
        getConversations_eq formats h pageSize cursor allowedSources
      simp only [visitConversations, visit, hitems, hnext, List.isEmpty_map, ih,
        Option.map_map]
      split
      · rfl
      · rw [Option.map_map]
        refine congrArg₂ Option.map (funext fun rest => ?_) rfl
        rw [Function.comp_apply, ← List.map_append]
        rfl

/-! ## Every conversation once -/

/-- The paths of the conversations that a caller asks for. -/
def IsConversation (dir : SessionsDir) (allowedSources : List SessionSource)
    (path : FilePath) : Prop :=
  ∃ file ∈ dir.files, file.path = path ∧
    (parseTimestampUuidFromFilename formats path.fileName).isSome ∧
    isAllowed allowedSources file.summary ∧
    file.summary.sawSessionMeta ∧ file.summary.sawUserEvent

/-- Passing on the cursor until a page is empty visits every conversation
once. -/
def VisitsOnce (dir : SessionsDir) (pageSize : ℕ)
    (allowedSources : List SessionSource) : Prop :=
  ∃ fuel visited,
    visitConversations formats (some dir) pageSize allowedSources fuel none =
      some visited ∧
    (visited.map ConversationItem.path).Nodup ∧
    ∀ path, path ∈ visited.map ConversationItem.path ↔
      IsConversation formats dir allowedSources path

/-- The cursors at the page ends agree with the order of the pages: for the last
file of every page of the list by modification time, the files after it in this
list are those scanned not before some file with a smaller name. -/
def CursorsAgree (dir : SessionsDir) (pageSize : ℕ)
    (allowedSources : List SessionSource) : Prop :=
  PagesSplit DayEntry.Before DayEntry.key (isCandidate allowedSources)
    (dir.scanOrder formats) pageSize

theorem isConversation_iff {dir : SessionsDir}
    {allowedSources : List SessionSource}
    {path : FilePath} :
    IsConversation formats dir allowedSources path ↔
      ∃ entry ∈ dir.scanOrder formats, isCandidate allowedSources entry ∧
        entry.file.path = path := by
  constructor
  · rintro ⟨file, hfile, rfl, hparse, hallowed, hmeta, huser⟩
    obtain ⟨⟨ts, sid⟩, hparse⟩ := Option.isSome_iff_exists.1 hparse
    refine ⟨⟨file.modified, ts, sid, file⟩,
      (mem_scanOrder formats).2 ⟨hfile, rfl, hparse⟩, ?_, rfl⟩
    simp [isCandidate, hallowed, hmeta, huser]
  · rintro ⟨entry, hentry, hcandidate, rfl⟩
    obtain ⟨hfile, -, hparse⟩ := (mem_scanOrder formats).1 hentry
    simp only [isCandidate, Bool.and_eq_true] at hcandidate
    exact ⟨entry.file, hfile, rfl,
      by simp [hparse], hcandidate.1.1, hcandidate.1.2,
      hcandidate.2⟩

theorem visitsOnce_iff_visit {dir : SessionsDir}
    (h : (dir.scanOrder formats).length < maxScanFiles) {pageSize : ℕ}
    {allowedSources : List SessionSource} :
    VisitsOnce formats dir pageSize allowedSources ↔
      ∃ fuel visited,
        visit DayEntry.Before DayEntry.key (isCandidate allowedSources)
          (dir.scanOrder formats) pageSize fuel none = some visited ∧
        visited.Nodup ∧
        ∀ entry, entry ∈ visited ↔
          entry ∈ dir.scanOrder formats ∧ isCandidate allowedSources entry := by
  have hpaths : ∀ entries : List DayEntry,
      (entries.map (DayEntry.toItem formats)).map ConversationItem.path =
        entries.map fun entry => entry.file.path := by
    intro entries
    rw [List.map_map]
    rfl
  constructor
  · rintro ⟨fuel, items, hvisit, hnodup, hall⟩
    rw [visitConversations_eq formats h] at hvisit
    obtain ⟨visited, hvisited, rfl⟩ := Option.map_eq_some_iff.1 hvisit
    rw [hpaths] at hnodup hall
    refine ⟨fuel, visited, hvisited, List.Nodup.of_map _ hnodup,
      fun entry => ?_⟩
    refine ⟨fun hentry => mem_files_of_mem_visit hvisited hentry, ?_⟩
    rintro ⟨hentry, hcandidate⟩
    obtain ⟨entry', hentry', hpath⟩ := List.mem_map.1 ((hall entry.file.path).2
      ((isConversation_iff formats).2 ⟨entry, hentry, hcandidate, rfl⟩))
    have hscan := (mem_files_of_mem_visit hvisited hentry').1
    exact eq_of_path_eq formats hscan hentry hpath ▸ hentry'
  · rintro ⟨fuel, visited, hvisited, hnodup, hall⟩
    refine ⟨fuel, visited.map (DayEntry.toItem formats), ?_, ?_, fun path => ?_⟩
    · rw [visitConversations_eq formats h, Option.map_none, hvisited,
        Option.map_some]
    · rw [hpaths]
      exact hnodup.map_on fun a ha b hb hpath =>
        eq_of_path_eq formats ((hall a).1 ha).1 ((hall b).1 hb).1 hpath
    · rw [hpaths, isConversation_iff, List.mem_map]
      simp only [hall, and_assoc]

/-- Every conversation is visited once if and only if the cursor of every page
agrees with the order of the pages. -/
theorem visitsOnce_iff_cursorsAgree {dir : SessionsDir} {pageSize : ℕ}
    (hcap : (dir.scanOrder formats).length < maxScanFiles)
    (hsize : 1 ≤ pageSize)
    (allowedSources : List SessionSource) :
    VisitsOnce formats dir pageSize allowedSources ↔
      CursorsAgree formats dir pageSize allowedSources :=
  (visitsOnce_iff_visit formats hcap).trans
    (visits_once_iff (nodup_scanOrder formats dir) hsize)

/-! ### Two files of one day -/

/-- The library parsers at two UUIDs and two times, one second apart. -/
def twoNames : Formats where
  parseUuid l :=
    if l = "00000000-0000-0000-0000-000000000001".toList then some 1
    else if l = "00000000-0000-0000-0000-000000000002".toList then some 2
    else none
  parseDateTime l :=
    if l = "2025-01-01T00-00-01".toList then some 1735689601000000000
    else if l = "2025-01-01T00-00-02".toList then some 1735689602000000000
    else none
  formatRfc3339 _ := none

/-- The name of a file of the first second. -/
def firstName : String :=
  "rollout-2025-01-01T00-00-01-00000000-0000-0000-0000-000000000001.jsonl"

/-- The name of a file of the next second. -/
def secondName : String :=
  "rollout-2025-01-01T00-00-02-00000000-0000-0000-0000-000000000002.jsonl"

def dayFile (name : String) (modified : ℤ) : RolloutFile where
  path := ⟨"sessions/2025/01/01", name⟩
  modified := modified
  summary := ⟨true, true, some .cli, none, none⟩

/-- The scanned first file. -/
def firstEntry (modified : ℤ) : DayEntry :=
  ⟨modified, 1735689601000000000, 1, dayFile firstName modified⟩

/-- The scanned second file. -/
def secondEntry (modified : ℤ) : DayEntry :=
  ⟨modified, 1735689602000000000, 2, dayFile secondName modified⟩

/-- A day directory with the two files, last modified at the given times. -/
def twoFiles (modified modified' : ℤ) : SessionsDir where
  years := [(2025, [(1, [(1,
    [dayFile firstName modified, dayFile secondName modified'])])])]
  nodupPaths := by
    have hne : firstName ≠ secondName := by decide
    simpa [dayFile] using hne

theorem dayEntries_twoFiles (modified modified' : ℤ) :
    dayEntries twoNames [dayFile firstName modified,
      dayFile secondName modified'] =
      [firstEntry modified, secondEntry modified'] := by
  have hfirst : parseTimestampUuidFromFilename twoNames firstName =
      some (1735689601000000000, 1) := by decide
  have hsecond : parseTimestampUuidFromFilename twoNames secondName =
      some (1735689602000000000, 2) := by decide
  simp [dayEntries, dayFile, hfirst, hsecond, firstEntry, secondEntry]

theorem scanOrder_twoFiles (modified modified' : ℤ) :
    (twoFiles modified modified').scanOrder twoNames =
      [firstEntry modified,
        secondEntry modified'].insertionSort DayEntry.Before := by
  simp [SessionsDir.scanOrder, twoFiles, collectDirsDesc, dayEntries_twoFiles]

/-- The later file is also modified later: both are visited. -/
theorem visitsOnce_two_files :
    VisitsOnce twoNames (twoFiles 1735689605000000000 1735689606000000000) 1
      [] := by
  have hscan := scanOrder_twoFiles 1735689605000000000 1735689606000000000
  refine (visitsOnce_iff_cursorsAgree twoNames (by
    rw [hscan]; decide) le_rfl []).2
    (pagesSplit_of_sorted ?_ ?_)
  · rw [hscan]
    decide
  · rw [hscan]
    decide

/-- The earlier file is modified again: the page after it is empty, and the
later file is never visited. -/
theorem not_visitsOnce_two_files :
    ¬ VisitsOnce twoNames (twoFiles 1735689610000000000 1735689605000000000) 1
      [] := by
  have hscan := scanOrder_twoFiles 1735689610000000000 1735689605000000000
  intro hvisits
  have hsplit := (visits_once_iff (nodup_scanOrder _ _) Nat.one_pos).1
    ((visitsOnce_iff_visit twoNames (by rw [hscan]; decide)).1 hvisits)
  rw [hscan] at hsplit
  have hsecond := (hsplit 0 (firstEntry 1735689610000000000) (by decide)
    (.inl (by decide)) (secondEntry 1735689605000000000) (by decide)).1 (by
    decide)
  exact absurd hsecond (by decide)

end CodeRs.Rollout
