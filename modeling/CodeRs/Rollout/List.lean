import CodeRs.Lib.Paging
import Mathlib.Data.Prod.Lex
import Mathlib.Data.Int.Order.Basic
import Mathlib.Data.List.ReduceOption

/-!
# Listing conversations

`core/src/rollout/list.rs` walks the day directories from the newest on, and
each day by modification time.  A page holds the most recently modified files;
its cursor holds the time stamp and the UUID in the name of its last file.
Reading files, UUIDs and dates are libraries: the summary of a file is data,
and the parsers are parameters.  No file changes between two pages.
-/

namespace CodeRs.Rollout

/-! ## Files and directories -/

inductive SubAgentSource where
  | review
  | compact
  | threadSpawn (parentThreadId : ℕ) (depth : ℤ)
  | memoryConsolidation
  | other (name : String)
  deriving DecidableEq

inductive SessionSource where
  | cli | vsCode | exec | mcp
  | subAgent (source : SubAgentSource)
  | unknown
  deriving DecidableEq

/-- `HeadTailSummary`, without the records that are only shown.  A file that
cannot be read has the default summary. -/
structure HeadTailSummary where
  sawSessionMeta : Bool
  sawUserEvent : Bool
  source : Option SessionSource
  createdAt : Option String
  updatedAt : Option String
  deriving DecidableEq

structure FilePath where
  parent : String
  fileName : String
  deriving DecidableEq

/-- A file in a day directory.  Times are nanoseconds since the Unix epoch. -/
structure RolloutFile where
  path : FilePath
  modified : ℤ
  summary : HeadTailSummary
  deriving DecidableEq

/-- The directories of the years, months and days, with the numbers that their
names parse to.  Every list is in the order of `read_dir`. -/
structure SessionsDir where
  years : List (ℕ × List (ℕ × List (ℕ × List RolloutFile)))
  nodupPaths : ((years.flatMap fun year => year.2.flatMap fun month =>
    month.2.flatMap fun day => day.2).map RolloutFile.path).Nodup

/-- All files of the day directories. -/
def SessionsDir.files (dir : SessionsDir) : List RolloutFile :=
  dir.years.flatMap fun year => year.2.flatMap fun month =>
    month.2.flatMap fun day => day.2

/-! ## File names -/

/-- The parsers and the formatter of the libraries. -/
structure Formats where
  parseUuid : List Char → Option ℕ
  parseDateTime : List Char → Option ℤ
  formatRfc3339 : ℤ → Option String

def stripPrefix (front : String) (l : List Char) : Option (List Char) :=
  if front.toList.isPrefixOf l then some (l.drop front.toList.length) else none

def stripSuffix (back : String) (l : List Char) : Option (List Char) :=
  if back.toList.isSuffixOf l then some (l.take (l.length - back.toList.length))
  else none

/-- The ways to cut a text at a hyphen, from the left. -/
def cutsAtHyphen : List Char → List (List Char × List Char)
  | [] => []
  | c :: rest =>
      (if c = '-' then [([], rest)] else []) ++
        (cutsAtHyphen rest).map fun (front, back) => (c :: front, back)

variable (formats : Formats)

def parseTimestampUuidFromFilename (name : String) : Option (ℤ × ℕ) := do
  let core ← (stripPrefix "rollout-" name.toList).bind (stripSuffix ".jsonl")
  let (tsStr, uuid) ← (cutsAtHyphen core).reverse.findSome? fun (front, back) =>
    (formats.parseUuid back).map (front, ·)
  let ts ← formats.parseDateTime tsStr
  return (ts, uuid)

/-! ## The scan -/

structure Cursor where
  ts : ℤ
  id : ℕ
  deriving DecidableEq

/-- A file of a day with its sort key. -/
structure DayEntry where
  modified : ℤ
  ts : ℤ
  sid : ℕ
  file : RolloutFile
  deriving DecidableEq

/-- The sort key of a file, to be sorted downwards. -/
def DayEntry.sortKey (entry : DayEntry) : ℤ ×ₗ ℤ ×ₗ ℕ :=
  toLex (entry.modified, toLex (entry.ts, entry.sid))

/-- The order of `sort_by_key` with reversed keys. -/
def DayEntry.Before (a b : DayEntry) : Prop := b.sortKey ≤ a.sortKey

instance : DecidableRel DayEntry.Before := fun a b =>
  inferInstanceAs (Decidable (b.sortKey ≤ a.sortKey))

def collectDirsDesc {α : Type*} (dirs : List (ℕ × α)) : List (ℕ × α) :=
  dirs.insertionSort fun a b => b.1 ≤ a.1

/-- `collect_files` with the modification time of each file. -/
def dayEntries (files : List RolloutFile) : List DayEntry :=
  files.filterMap fun file =>
    (parseTimestampUuidFromFilename formats file.path.fileName).map
      fun (ts, sid) =>
      { modified := file.modified, ts, sid, file }

/-- The files in the order in which the nested loops reach them. -/
def SessionsDir.scanOrder (dir : SessionsDir) : List DayEntry :=
  (collectDirsDesc dir.years).flatMap fun (_, months) =>
    (collectDirsDesc months).flatMap fun (_, days) =>
      (collectDirsDesc days).flatMap fun (_, files) =>
        (dayEntries formats files).insertionSort DayEntry.Before

def maxScanFiles : ℕ := 10000

/-- The test of the summary against `allowed_sources`. -/
def isAllowed (allowedSources : List SessionSource)
    (summary : HeadTailSummary) :
    Bool :=
  allowedSources.isEmpty ||
    match summary.source with
    | some source => allowedSources.any (· = source)
    | none => false

/-- The files that `traverse_directories_for_paths` collects. -/
def isCandidate (allowedSources : List SessionSource)
    (entry : DayEntry) : Bool :=
  isAllowed allowedSources entry.file.summary &&
    entry.file.summary.sawSessionMeta && entry.file.summary.sawUserEvent

structure Scan where
  scannedFiles : ℕ
  anchorPassed : Bool
  candidates : List DayEntry

/-- The innermost loop: it stops at the cap, skips up to the anchor, and
collects the candidates. -/
def scanFiles (anchor : Cursor) (allowedSources : List SessionSource) :
    Scan → List DayEntry → Scan
  | scan, [] => scan
  | scan, entry :: rest =>
      let scannedFiles := scan.scannedFiles + 1
      if scannedFiles ≥ maxScanFiles then { scan with scannedFiles }
      else if !scan.anchorPassed &&
          !(entry.ts < anchor.ts ||
            (entry.ts = anchor.ts && entry.sid < anchor.id))
        then scanFiles anchor allowedSources { scan with scannedFiles } rest
      else
        let candidates :=
          if isCandidate allowedSources entry then scan.candidates ++ [entry]
          else scan.candidates
        scanFiles anchor allowedSources
          { scannedFiles, anchorPassed := true, candidates } rest

/-! ## Pages -/

/-- `ConversationItem`, without the records that are only shown. -/
structure ConversationItem where
  path : FilePath
  createdAt : Option String
  updatedAt : Option String
  modifiedAt : Option String
  deriving DecidableEq

def DayEntry.toItem (entry : DayEntry) : ConversationItem :=
  let createdAt := entry.file.summary.createdAt
  let updatedAt := entry.file.summary.updatedAt.or createdAt
  { path := entry.file.path
    createdAt
    updatedAt
    modifiedAt :=
      if entry.modified = 0 then updatedAt.or createdAt
      else formats.formatRfc3339 entry.modified }

structure ConversationsPage where
  items : List ConversationItem
  nextCursor : Option Cursor
  numScannedFiles : ℕ
  reachedScanCap : Bool

def buildNextCursor (items : List ConversationItem) : Option Cursor := do
  let last ← items.getLast?
  let (ts, id) ← parseTimestampUuidFromFilename formats last.path.fileName
  return { ts, id }

def traverseDirectoriesForPaths (root : SessionsDir) (pageSize : ℕ)
    (anchor : Option Cursor) (allowedSources : List SessionSource) :
    ConversationsPage :=
  let scan := scanFiles (anchor.getD ⟨0, 0⟩) allowedSources
    { scannedFiles := 0, anchorPassed := anchor.isNone, candidates := [] }
    (root.scanOrder formats)
  let items :=
    ((scan.candidates.insertionSort DayEntry.Before).take pageSize).map
      (DayEntry.toItem formats)
  { items
    nextCursor := buildNextCursor formats items
    numScannedFiles := scan.scannedFiles
    reachedScanCap := scan.scannedFiles ≥ maxScanFiles }

/-- `get_conversations`, where `root` is the sessions directory if it exists. -/
def getConversations (root : Option SessionsDir) (pageSize : ℕ)
    (cursor : Option Cursor) (allowedSources : List SessionSource) :
    ConversationsPage :=
  match root with
  | some dir =>
      traverseDirectoriesForPaths formats dir pageSize cursor allowedSources
  | none =>
      { items := [], nextCursor := none, numScannedFiles := 0,
        reachedScanCap := false }

/-- The items of the pages from a cursor on until a page is empty. -/
def visitConversations (root : Option SessionsDir) (pageSize : ℕ)
    (allowedSources : List SessionSource) :
    ℕ → Option Cursor → Option (List ConversationItem)
  | 0, _ => none
  | fuel + 1, cursor =>
      let page := getConversations formats root pageSize cursor allowedSources
      if page.items.isEmpty then some []
      else
        (visitConversations root pageSize allowedSources fuel
          page.nextCursor).map
          (page.items ++ ·)

end CodeRs.Rollout
