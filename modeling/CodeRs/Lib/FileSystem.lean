import CodeRs.Lib.Program
import CodeRs.Lib.Text
import Mathlib.Logic.Function.Basic

/-!
# A file system

Directories and text files by location, without links.  An operation that fails
changes nothing.  `contents` forgets everything but the texts of the files, and
each operation has one lemma about it.
-/

namespace CodeRs

/-- A location: the names from the root on. -/
abbrev Loc := List String

/-- A directory or a file with its permissions. -/
inductive Node where
  | dir (writable : Bool)
  | file (text : Text) (readable writable : Bool)
  deriving DecidableEq, Repr

abbrev FileSystem := Loc → Option Node

/-- Why an operation fails. -/
inductive IoErrorKind where
  | notFound | permissionDenied | notADirectory | isADirectory
  deriving DecidableEq, Repr

namespace FileSystem

/-- Entries of the directory around `l` can be made and removed. -/
def parentWritable (fs : FileSystem) (l : Loc) : Except IoErrorKind Unit :=
  match fs l.dropLast with
  | some (.dir true) => .ok ()
  | some (.dir false) => .error .permissionDenied
  | some (.file ..) => .error .notADirectory
  | none => .error .notFound

def readToString (fs : FileSystem) (l : Loc) : Except IoErrorKind Text :=
  match fs l with
  | some (.file text true _) => .ok text
  | some (.file _ false _) => .error .permissionDenied
  | some (.dir _) => .error .isADirectory
  | none => .error .notFound

def write (fs : FileSystem) (l : Loc) (text : Text) :
    Except IoErrorKind FileSystem :=
  match fs l with
  | some (.file _ readable true) =>
      .ok (Function.update fs l (some (.file text readable true)))
  | some (.file _ _ false) => .error .permissionDenied
  | some (.dir _) => .error .isADirectory
  | none =>
      (fs.parentWritable l).map fun _ =>
        Function.update fs l (some (.file text true true))

def removeFile (fs : FileSystem) (l : Loc) : Except IoErrorKind FileSystem :=
  match fs l with
  | some (.file ..) => (fs.parentWritable l).map fun _ =>
      Function.update fs l none
  | some (.dir _) => .error .isADirectory
  | none => .error .notFound

/-- `std::fs::rename` of a file. -/
def rename (fs : FileSystem) (source target : Loc) :
    Except IoErrorKind FileSystem :=
  match fs source, fs target with
  | none, _ => .error .notFound
  | some (.dir _), _ => .error .isADirectory
  | some (.file ..), some (.dir _) => .error .isADirectory
  | some (.file text readable writable), _ => do
      fs.parentWritable source
      fs.parentWritable target
      return Function.update (Function.update fs source none) target
        (some (.file text readable writable))

def createDirAll (fs : FileSystem) (l : Loc) : Except IoErrorKind FileSystem :=
  let isMissing := fun dir : Loc => (fs dir).isNone
  let made : FileSystem := fun m =>
    if m ∈ l.inits ∧ isMissing m then some (.dir true) else fs m
  if l.inits.any fun dir => match fs dir with
    | some (.file ..) => true
    | _ => false
  then .error .notADirectory
  else
    match l.inits.find? isMissing with
    | none => .ok fs
    | some first => (fs.parentWritable first).map fun _ => made

/-! ## Contents -/

/-- The text of the file at a location. -/
def contents (fs : FileSystem) (l : Loc) : Option Text :=
  match fs l with
  | some (.file text _ _) => some text
  | _ => none

theorem contents_update (fs : FileSystem) (l : Loc) (node : Option Node) :
    contents (Function.update fs l node) =
      Function.update fs.contents l
        (match node with
          | some (.file text _ _) => some text
          | _ => none) := by
  funext m
  by_cases hm : m = l
  · subst hm
    simp [contents]
  · simp [contents, hm]

theorem contents_of_readToString {fs : FileSystem} {l : Loc} {text : Text}
    (h : fs.readToString l = .ok text) : fs.contents l = some text := by
  simp only [readToString] at h
  split at h <;> cases h
  rename_i hfile
  simp [contents, hfile]

theorem contents_write {fs fs' : FileSystem} {l : Loc} {text : Text}
    (h : fs.write l text = .ok fs') :
    fs'.contents = Function.update fs.contents l (some text) := by
  simp only [write] at h
  split at h
  · cases h
    exact contents_update ..
  · cases h
  · cases h
  · obtain ⟨_, _, rfl⟩ := map_eq_ok.1 h
    exact contents_update ..

theorem contents_removeFile {fs fs' : FileSystem} {l : Loc}
    (h : fs.removeFile l = .ok fs') :
    fs'.contents = Function.update fs.contents l none := by
  simp only [removeFile] at h
  split at h
  · obtain ⟨_, _, rfl⟩ := map_eq_ok.1 h
    exact contents_update ..
  · cases h
  · cases h

/-- A renamed file is gone from its source, unless it stays where it is. -/
theorem contents_rename {fs fs' : FileSystem} {source target : Loc}
    (h : fs.rename source target = .ok fs') :
    fs'.contents =
      Function.update (Function.update fs.contents source none) target
        (fs.contents source) := by
  simp only [rename] at h
  split at h
  · cases h
  · cases h
  · cases h
  · rename_i _ text readable writable hsource _
    have hcontents : fs.contents source = some text := by
      simp [contents, hsource]
    obtain ⟨_, -, h⟩ := bind_eq_ok.1 h
    obtain ⟨_, -, h⟩ := bind_eq_ok.1 h
    cases h
    rw [contents_update, contents_update, hcontents]

/-- New directories hold no text. -/
theorem contents_createDirAll {fs fs' : FileSystem} {l : Loc}
    (h : fs.createDirAll l = .ok fs') : fs'.contents = fs.contents := by
  simp only [createDirAll] at h
  split at h
  · cases h
  · split at h
    · cases h
      rfl
    · obtain ⟨_, -, rfl⟩ := map_eq_ok.1 h
      funext m
      by_cases hm : m ∈ l.inits ∧ (fs m).isNone
      · have hnone : fs m = none := by simpa using hm.2
        simp [contents, hnone]
      · simp only [contents, if_neg hm]

end FileSystem

end CodeRs
