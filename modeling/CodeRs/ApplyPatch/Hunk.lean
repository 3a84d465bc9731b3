import CodeRs.Lib.FileSystem
import CodeRs.Lib.Path

/-!
# Hunks

The parsed hunks of `apply-patch/src/parser.rs` and the errors of applying them.
-/

namespace CodeRs.ApplyPatch

structure UpdateFileChunk where
  changeContext : Option Text
  oldLines : List Text
  newLines : List Text
  isEndOfFile : Bool
  deriving DecidableEq

inductive Hunk where
  | addFile (path : Path) (contents : Text)
  | deleteFile (path : Path)
  | updateFile (path : Path) (movePath : Option Path) (chunks : List
    UpdateFileChunk)
  deriving DecidableEq

/-- The path that a hunk names first. -/
def Hunk.path : Hunk → Path
  | addFile path _ => path
  | deleteFile path => path
  | updateFile path _ _ => path

def Hunk.movePath : Hunk → Option Path
  | updateFile _ movePath _ => movePath
  | _ => none

def Hunk.resolvePath (cwd : Path) (hunk : Hunk) : Path := cwd.join hunk.path

/-- The errors of `ApplyPatchError` that applying hunks raises, each with its
text.  The second executor gives no context where it writes an updated file. -/
inductive ApplyPatchError where
  | ioError (context : Option Text) (kind : IoErrorKind)
  | computeReplacements (message : Text)
  | noFilesModified
  deriving DecidableEq

/-- How an application stops: with an error, or by a panic. -/
inductive Failure where
  | error (error : ApplyPatchError)
  | panic
  deriving DecidableEq

/-- Where a path of a patch points to from a working directory. -/
def locate (cwd path : Path) : Loc := (cwd.join path).names

/-- The locations that a hunk writes or removes. -/
def Hunk.locations (cwd : Path) (hunk : Hunk) : List Loc :=
  locate cwd hunk.path :: (hunk.movePath.map (locate cwd)).toList

@[simp] theorem Hunk.locations_addFile {cwd path : Path} {contents : Text} :
    (addFile path contents).locations cwd = [locate cwd path] := rfl

@[simp] theorem Hunk.locations_deleteFile {cwd path : Path} :
    (deleteFile path).locations cwd = [locate cwd path] := rfl

@[simp] theorem Hunk.locations_updateFile {cwd path : Path}
    {movePath : Option Path}
    {chunks : List UpdateFileChunk} :
    (updateFile path movePath chunks).locations cwd =
      locate cwd path :: (movePath.map (locate cwd)).toList := rfl

/-- A location from an absolute path does not depend on the working
directory. -/
theorem locate_join {cwd path : Path} (h : cwd.isAbsolute) :
    locate cwd (cwd.join path) = locate cwd path := by
  have hjoin : cwd.join (cwd.join path) = cwd.join path := by
    have habsolute : (cwd.join path).isAbsolute := by
      simp only [Path.join]
      split
      · assumption
      · split
        · rename_i hnil
          simp [Path.isAbsolute, hnil] at h
        · rename_i hne
          obtain ⟨c, rest, hcons⟩ := List.exists_cons_of_ne_nil hne
          simpa [Path.isAbsolute, hcons] using h
    conv_lhs => rw [Path.join, dif_pos habsolute]
  rw [locate, hjoin, locate]

end CodeRs.ApplyPatch

/-! ## Verified patches

`ApplyPatchAction` of `apply-patch/src/lib.rs`: what a patch will do to each
path it names. -/

namespace CodeRs.ApplyPatch

/-- `ApplyPatchFileChange`, without the diff that is only shown to the user. -/
inductive ApplyPatchFileChange where
  | add (content : Text)
  | delete (content : Text)
  | update (movePath : Option Path) (newContent : Text)
  deriving DecidableEq

/-- `ApplyPatchAction`.  The changes are a hash map, given in an order in which
it may be iterated. -/
structure ApplyPatchAction where
  changes : List (Path × ApplyPatchFileChange)
  patch : Text
  cwd : Path
  nodupKeys : (changes.map Prod.fst).Nodup

def ApplyPatchAction.isEmpty (action : ApplyPatchAction) : Bool :=
  action.changes.isEmpty

/-- The paths that a change writes, deletes or moves to. -/
def touchedPaths : Path × ApplyPatchFileChange → List Path
  | (path, .update (some dest) _) => [path, dest]
  | (path, _) => [path]

end CodeRs.ApplyPatch
