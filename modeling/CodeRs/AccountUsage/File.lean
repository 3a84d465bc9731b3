import CodeRs.Lib.Runs
import CodeRs.Lib.Serial

/-!
# The usage file

`with_usage_file` of `core/src/account_usage.rs`.  Any number of calls, of one
process or of several, open the file, lock the inode that they opened, read it,
write the temporary file and rename it over the path.  A schedule says whose
step is next; a call whose lock is taken waits.
-/

namespace CodeRs.AccountUsage

variable {ι C : Type*} [DecidableEq ι]

/-- How far a call of `with_usage_file` has come. -/
inductive Phase (C : Type*) where
  | idle
  | opened (inode : ℕ)
  | locked (inode : ℕ)
  | updated (inode : ℕ) (contents : C)
  | written (inode : ℕ)
  | renamed (inode : ℕ)
  | returned
  | failed (applied : Bool)
  deriving DecidableEq

namespace Phase

/-- The inode that is locked. -/
def holds : Phase C → Option ℕ
  | locked i => some i
  | updated i _ => some i
  | written i => some i
  | renamed i => some i
  | _ => none

/-- The inode that is locked for a file that is not replaced yet. -/
def critical : Phase C → Option ℕ
  | locked i => some i
  | updated i _ => some i
  | written i => some i
  | _ => none

/-- The file has been replaced. -/
def isCommitted : Phase C → Bool
  | renamed _ => true
  | returned => true
  | failed applied => applied
  | _ => false

end Phase

/-- The usage directory and the calls on one account: the inodes at the path
and at the temporary path, what every inode contains and who has locked it. -/
structure UsageDir (ι C : Type*) where
  path : Option ℕ
  tmp : Option ℕ
  contents : ℕ → C
  owner : ℕ → Option ι
  fresh : ℕ
  phase : ι → Phase C

/-- Whose step is next, and whether an operation of the file system fails in
it; a write that fails can leave something at the temporary path. -/
inductive Turn (ι C : Type*) where
  | step (p : ι)
  | fail (p : ι) (left : Option C)

namespace UsageDir

variable (empty : C) (rewrite : ι → C → C) (s : UsageDir ι C)

/-- The directory before the first call, with what is at the path and at the
temporary path. -/
def start (file tmp : Option C) : UsageDir ι C where
  path := file.map fun _ => 0
  tmp := tmp.map fun _ => 1
  contents := fun i => if i = 0 then file.getD empty else tmp.getD empty
  owner := fun _ => none
  fresh := 2
  phase := fun _ => .idle

/-- The contents of the file; a missing file is as good as an empty one. -/
def stored : C := s.path.elim empty s.contents

/-! ## File operations -/

def goto (p : ι) (phase : Phase C) : UsageDir ι C :=
  { s with phase := Function.update s.phase p phase }

/-- Create an empty file. -/
def create : UsageDir ι C :=
  { s with
    path := some s.fresh
    contents := Function.update s.contents s.fresh empty
    fresh := s.fresh + 1 }

/-- Write the temporary file, over one that is there. -/
def putTmp (contents : C) : UsageDir ι C :=
  match s.tmp with
  | some j => { s with contents := Function.update s.contents j contents }
  | none =>
      { s with
        tmp := some s.fresh
        contents := Function.update s.contents s.fresh contents
        fresh := s.fresh + 1 }

/-- Remove the temporary file. -/
def dropTmp : UsageDir ι C := { s with tmp := none }

def setOwner (i : ℕ) (owner : Option ι) : UsageDir ι C :=
  { s with owner := Function.update s.owner i owner }

/-! ## The steps of a call -/

/-- `open`, which creates a missing file. -/
def openFile (p : ι) : UsageDir ι C :=
  match s.path with
  | some i => s.goto p (.opened i)
  | none => (s.create empty).goto p (.opened s.fresh)

/-- `lock_exclusive`: wait while someone else has locked the inode. -/
def lockExclusive (p : ι) (i : ℕ) : UsageDir ι C :=
  if s.owner i = none then (s.setOwner i (some p)).goto p (.locked i) else s

/-- `rename`; without a temporary file it fails. -/
def rename (p : ι) (i : ℕ) : UsageDir ι C :=
  match s.tmp with
  | some j => { s with path := some j, tmp := none }.goto p (.renamed i)
  | none => (s.setOwner i none).goto p (.failed false)

/-- The next step of a call. -/
def advance (p : ι) : UsageDir ι C :=
  match s.phase p with
  | .idle => s.openFile empty p
  | .opened i => s.lockExclusive p i
  | .locked i => s.goto p (.updated i (rewrite p (s.contents i)))
  | .updated i contents => (s.putTmp contents).goto p (.written i)
  | .written i => s.rename p i
  | .renamed i => (s.setOwner i none).goto p .returned
  | .returned => s
  | .failed _ => s

/-- The next step of a call when its operation fails: the call ends, and its
lock with it. -/
def abort (p : ι) (left : Option C) : UsageDir ι C :=
  match s.phase p with
  | .idle => s.goto p (.failed false)
  | .opened _ => s.goto p (.failed false)
  | .locked i => (s.setOwner i none).goto p (.failed false)
  | .updated i _ =>
      ((left.elim s s.putTmp).setOwner i none).goto p (.failed false)
  | .written i => ((s.setOwner i none).goto p (.failed false)).dropTmp
  | .renamed i => (s.setOwner i none).goto p (.failed true)
  | .returned => s
  | .failed _ => s

def next : Turn ι C → UsageDir ι C
  | .step p => s.advance empty rewrite p
  | .fail p left => s.abort p left

/-- A call that gets its lock gets it on the file that is at the path. -/
def LocksCurrent : Turn ι C → Prop
  | .step p =>
      match s.phase p with
      | .opened i => s.owner i = none → s.path = some i
      | _ => True
  | .fail _ _ => True

instance (turn : Turn ι C) : Decidable (s.LocksCurrent turn) :=
  match turn with
  | .step p =>
      match hp : s.phase p with
      | .opened i =>
          decidable_of_iff (s.owner i = none →
            s.path = some i) (by rw [LocksCurrent, hp])
      | .idle | .locked _ | .updated _ _ | .written _ | .renamed _ | .returned
      | .failed _ =>
          .isTrue (by rw [LocksCurrent, hp]; trivial)
  | .fail _ _ => .isTrue trivial

end UsageDir

end CodeRs.AccountUsage
