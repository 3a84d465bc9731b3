import CodeRs.ApplyPatch.Hunk
import CodeRs.ApplyPatch.Derive
import CodeRs.Lib.Program
import Mathlib.Data.Finmap

/-!
# Two ways to apply a patch

`apply_hunks_to_files` of `apply-patch/src/lib.rs` applies the hunks one after
the other.  `maybe_parse_apply_patch_verified` computes a change for every path
from the files as they are, and `apply_changes_from_apply_patch` of
`core/src/apply_patch.rs` writes the changes.  What one step of each does to
the texts of the files is a lemma each.
-/

namespace CodeRs.ApplyPatch

open Program

structure AffectedPaths where
  added : List Path
  modified : List Path
  deleted : List Path
  deriving DecidableEq

def AffectedPaths.empty : AffectedPaths := ⟨[], [], []⟩

/-- A program on the files that stops with a failure. -/
abbrev Patching := Program FileSystem Failure

/-- `with_context` on an operation of the file system. -/
def withContext {α : Type} (context : Option Text)
    (result : Except IoErrorKind α) :
    Except Failure α :=
  result.mapError fun kind => .error (.ioError context kind)

/-- The message of an error about a path. -/
def aboutPath (message : String) (path : Path) : Option Text :=
  some (message.toList ++ path.display)

/-! ## The steps of both -/

variable (cwd : Path)

/-- Create the directories around a path, unless its parent is empty. -/
def createParents (path : Path) : Patching Unit :=
  match path.parent with
  | some parent =>
      if parent = .empty then pure ()
      else
        update fun fs =>
          withContext
            (aboutPath "Failed to create parent directories for " path)
            (fs.createDirAll (locate cwd parent))
  | none => pure ()

def writeFile (context : Option Text) (path : Path) (contents : Text) :
    Patching Unit :=
  update fun fs => withContext context (fs.write (locate cwd path) contents)

def removeFile (context : Option Text) (path : Path) : Patching Unit :=
  update fun fs => withContext context (fs.removeFile (locate cwd path))

def renameFile (context : Option Text) (path dest : Path) : Patching Unit :=
  update fun fs =>
    withContext context (fs.rename (locate cwd path) (locate cwd dest))

/-! ## Hunk by hunk -/

/-- The new contents of the file at `path` as it is now. -/
def newContents (fs : FileSystem) (path : Path)
    (chunks : List UpdateFileChunk) :
    Except Failure Text := do
  let originalContents ← withContext
      (aboutPath "Failed to read file to update " path)
    (fs.readToString (locate cwd path))
  deriveNewContents path originalContents chunks

/-- One round of the loop of `apply_hunks_to_files`. -/
def applyHunk (affected : AffectedPaths) : Hunk → Patching AffectedPaths
  | .addFile path contents => do
      createParents cwd path
      writeFile cwd (aboutPath "Failed to write file " path) path contents
      return { affected with added := affected.added ++ [path] }
  | .deleteFile path => do
      removeFile cwd (aboutPath "Failed to delete file " path) path
      return { affected with deleted := affected.deleted ++ [path] }
  | .updateFile path none chunks => do
      let contents ← query fun fs => newContents cwd fs path chunks
      writeFile cwd (aboutPath "Failed to write file " path) path contents
      return { affected with modified := affected.modified ++ [path] }
  | .updateFile path (some dest) chunks => do
      let contents ← query fun fs => newContents cwd fs path chunks
      createParents cwd dest
      writeFile cwd (aboutPath "Failed to write file " dest) dest contents
      removeFile cwd (aboutPath "Failed to remove original " path) path
      return { affected with modified := affected.modified ++ [dest] }

/-- The loop of `apply_hunks_to_files`. -/
def applyHunks : AffectedPaths → List Hunk → Patching AffectedPaths
  | affected, [] => pure affected
  | affected, hunk :: rest => do
      let affected ← applyHunk cwd affected hunk
      applyHunks affected rest

/-- `apply_hunks_to_files` in the working directory `cwd`. -/
def applyHunksToFiles (hunks : List Hunk) : Patching AffectedPaths :=
  if hunks = [] then throw (.error .noFilesModified)
  else applyHunks cwd .empty hunks

/-! ## By verified changes -/

/-- The change of one hunk, computed from the files as they are. -/
def verifyHunk (fs : FileSystem) (hunk : Hunk) :
    Except Failure ApplyPatchFileChange :=
  let path := hunk.resolvePath cwd
  match hunk with
  | .addFile _ contents => .ok (.add contents)
  | .deleteFile _ => do
      let content ← withContext (aboutPath "Failed to read " path)
        (fs.readToString (locate cwd path))
      return .delete content
  | .updateFile _ movePath chunks => do
      let newContent ← newContents cwd fs path chunks
      return .update (movePath.map cwd.join) newContent

abbrev Changes := Finmap fun _ : Path => ApplyPatchFileChange

/-- The loop of `maybe_parse_apply_patch_verified` over the parsed hunks, in the
effective working directory `cwd`. -/
def verifyHunks (fs : FileSystem) (hunks : List Hunk) :
    Except Failure Changes :=
  hunks.foldlM
    (fun changes hunk => do
      let change ← verifyHunk cwd fs hunk
      return changes.insert (hunk.resolvePath cwd) change)
    ∅

/-- One round of the loop of `apply_changes_from_apply_patch`. -/
def applyChange (affected : AffectedPaths) :
    Path × ApplyPatchFileChange → Patching AffectedPaths
  | (path, .add content) => do
      createParents cwd path
      writeFile cwd (aboutPath "Failed to write file " path) path content
      return { affected with added := affected.added ++ [path] }
  | (path, .delete _) => do
      removeFile cwd (aboutPath "Failed to delete file " path) path
      return { affected with deleted := affected.deleted ++ [path] }
  | (path, .update (some movePath) newContent) => do
      createParents cwd movePath
      renameFile cwd (aboutPath "Failed to rename file " path) path movePath
      writeFile cwd none movePath newContent
      return { affected with
        modified := affected.modified ++ [movePath]
        deleted := affected.deleted ++ [path] }
  | (path, .update none newContent) => do
      writeFile cwd none path newContent
      return { affected with modified := affected.modified ++ [path] }

/-- The loop of `apply_changes_from_apply_patch`. -/
def applyChanges :
    AffectedPaths → List (Path × ApplyPatchFileChange) → Patching AffectedPaths
  | affected, [] => pure affected
  | affected, change :: rest => do
      let affected ← applyChange cwd affected change
      applyChanges affected rest

def applyChangesFromApplyPatch (action : ApplyPatchAction) :
    Patching AffectedPaths :=
  applyChanges cwd .empty action.changes

/-! ## Texts -/

/-- The texts of the files by location. -/
abbrev Contents := Loc → Option Text

theorem withContext_ok {α : Type} {context : Option Text}
    {result : Except IoErrorKind α} {a : α} :
    withContext context result = .ok a ↔ result = .ok a :=
  mapError_eq_ok

theorem contents_createParents {path : Path} {fs fs' : FileSystem} {u : Unit}
    (h : exec (createParents cwd path) fs = (.ok u, fs')) :
    fs'.contents = fs.contents := by
  simp only [createParents] at h
  split at h
  · split at h
    · cases h
      rfl
    · exact FileSystem.contents_createDirAll
        (withContext_ok.1 (exec_update_ok.1 h))
  · cases h
    rfl

theorem contents_writeFile {context : Option Text} {path : Path}
    {contents : Text}
    {fs fs' : FileSystem} {u : Unit}
    (h : exec (writeFile cwd context path contents) fs = (.ok u, fs')) :
    fs'.contents =
      Function.update fs.contents (locate cwd path) (some contents) :=
  FileSystem.contents_write (withContext_ok.1 (exec_update_ok.1 h))

theorem contents_removeFile {context : Option Text} {path : Path}
    {fs fs' : FileSystem} {u : Unit}
    (h : exec (removeFile cwd context path) fs = (.ok u, fs')) :
    fs'.contents = Function.update fs.contents (locate cwd path) none :=
  FileSystem.contents_removeFile (withContext_ok.1 (exec_update_ok.1 h))

theorem contents_renameFile {context : Option Text} {path dest : Path}
    {fs fs' : FileSystem} {u : Unit}
    (h : exec (renameFile cwd context path dest) fs = (.ok u, fs')) :
    fs'.contents =
      Function.update (Function.update fs.contents (locate cwd path) none)
        (locate cwd dest) (fs.contents (locate cwd path)) :=
  FileSystem.contents_rename (withContext_ok.1 (exec_update_ok.1 h))

inductive HunkEffect : Hunk → Contents → Contents → Prop
  | addFile {path : Path} {contents : Text} {c : Contents} :
      HunkEffect (.addFile path contents) c
        (Function.update c (locate cwd path) (some contents))
  | deleteFile {path : Path} {c : Contents} :
      HunkEffect (.deleteFile path) c (Function.update c (locate cwd path) none)
  | updateFile {path : Path} {chunks : List UpdateFileChunk} {c : Contents}
      {original contents : Text} (hread : c (locate cwd path) = some original)
      (hderive : deriveNewContents path original chunks = .ok contents) :
      HunkEffect (.updateFile path none chunks) c
        (Function.update c (locate cwd path) (some contents))
  | moveFile {path dest : Path} {chunks : List UpdateFileChunk} {c : Contents}
      {original contents : Text} (hread : c (locate cwd path) = some original)
      (hderive : deriveNewContents path original chunks = .ok contents) :
      HunkEffect (.updateFile path (some dest) chunks) c
        (Function.update (Function.update c (locate cwd dest) (some contents))
          (locate cwd path) none)

def changeEffect (c : Contents) : Path × ApplyPatchFileChange → Contents
  | (path, .add content) => Function.update c (locate cwd path) (some content)
  | (path, .delete _) => Function.update c (locate cwd path) none
  | (path, .update (some movePath) newContent) =>
      Function.update (Function.update c (locate cwd path) none)
        (locate cwd movePath)
        (some newContent)
  | (path, .update none newContent) =>
      Function.update c (locate cwd path) (some newContent)

theorem newContents_ok {fs : FileSystem} {path : Path}
    {chunks : List UpdateFileChunk}
    {contents : Text} (h : newContents cwd fs path chunks = .ok contents) :
    ∃ original, fs.contents (locate cwd path) = some original ∧
      deriveNewContents path original chunks = .ok contents := by
  obtain ⟨original, hread, hderive⟩ := bind_eq_ok.1 h
  exact ⟨original, FileSystem.contents_of_readToString (withContext_ok.1 hread),
    hderive⟩

theorem hunkEffect_of_applyHunk
    {affected affected' : AffectedPaths} {hunk : Hunk}
    {fs fs' : FileSystem}
    (h : exec (applyHunk cwd affected hunk) fs = (.ok affected', fs')) :
    HunkEffect cwd hunk fs.contents fs'.contents := by
  match hunk with
  | .addFile path contents =>
      simp only [applyHunk, exec_bind_ok] at h
      obtain ⟨_, made, hparents, _, written, hwrite, hreturn⟩ := h
      cases hreturn
      rw [contents_writeFile cwd hwrite, contents_createParents cwd hparents]
      exact .addFile
  | .deleteFile path =>
      simp only [applyHunk, exec_bind_ok] at h
      obtain ⟨_, removed, hremove, hreturn⟩ := h
      cases hreturn
      rw [contents_removeFile cwd hremove]
      exact .deleteFile
  | .updateFile path none chunks =>
      simp only [applyHunk, exec_bind_ok, exec_query_ok] at h
      obtain ⟨contents, _, ⟨hnew, rfl⟩, _, written, hwrite, hreturn⟩ := h
      cases hreturn
      obtain ⟨original, hread, hderive⟩ := newContents_ok cwd hnew
      rw [contents_writeFile cwd hwrite]
      exact .updateFile hread hderive
  | .updateFile path (some dest) chunks =>
      simp only [applyHunk, exec_bind_ok, exec_query_ok] at h
      obtain ⟨contents, _, ⟨hnew, rfl⟩, _, made, hparents, _,
        written, hwrite, _,
        removed, hremove, hreturn⟩ := h
      cases hreturn
      obtain ⟨original, hread, hderive⟩ := newContents_ok cwd hnew
      rw [contents_removeFile cwd hremove, contents_writeFile cwd hwrite,
        contents_createParents cwd hparents]
      exact .moveFile hread hderive

theorem contents_applyChange {affected affected' : AffectedPaths}
    {change : Path × ApplyPatchFileChange} {fs fs' : FileSystem}
    (h : exec (applyChange cwd affected change) fs = (.ok affected', fs')) :
    fs'.contents = changeEffect cwd fs.contents change := by
  match change with
  | (path, .add content) =>
      simp only [applyChange, exec_bind_ok] at h
      obtain ⟨_, made, hparents, _, written, hwrite, hreturn⟩ := h
      cases hreturn
      rw [contents_writeFile cwd hwrite, contents_createParents cwd hparents]
      rfl
  | (path, .delete _) =>
      simp only [applyChange, exec_bind_ok] at h
      obtain ⟨_, removed, hremove, hreturn⟩ := h
      cases hreturn
      exact contents_removeFile cwd hremove
  | (path, .update (some movePath) newContent) =>
      simp only [applyChange, exec_bind_ok] at h
      obtain ⟨_, made, hparents, _, renamed, hrename, _, written,
        hwrite, hreturn⟩ := h
      cases hreturn
      rw [contents_writeFile cwd hwrite, contents_renameFile cwd hrename,
        contents_createParents cwd hparents, Function.update_idem]
      rfl
  | (path, .update none newContent) =>
      simp only [applyChange, exec_bind_ok] at h
      obtain ⟨_, written, hwrite, hreturn⟩ := h
      cases hreturn
      exact contents_writeFile cwd hwrite

end CodeRs.ApplyPatch
