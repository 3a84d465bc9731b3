import CodeRs.ApplyPatch.Execute
import CodeRs.Lib.FileEdit

/-!
# Changes as edits of files

Each change of a verified patch is one edit: a round of the loop succeeds
exactly if the edit is possible, and leaves what the edit leaves.
-/

namespace CodeRs.ApplyPatch

open Program FileSystem Commuting

variable (cwd : Path)

/-- The directory that is made around a path. -/
def parentDirs (path : Path) : Option Loc :=
  match path.parent with
  | some parent => if parent = .empty then none else some (locate cwd parent)
  | none => none

def changeEdit : Path × ApplyPatchFileChange → FileEdit
  | (path, .add content) =>
  .write (parentDirs cwd path) (locate cwd path) content
  | (path, .delete _) => .remove (locate cwd path)
  | (path, .update (some movePath) newContent) =>
      .move (parentDirs cwd movePath) (locate cwd path)
        (locate cwd movePath) newContent
  | (path, .update none newContent) => .write none (locate cwd path) newContent

/-- The affected paths with those of a change. -/
def noteChange (affected : AffectedPaths) :
    Path × ApplyPatchFileChange → AffectedPaths
  | (path, .add _) => { affected with added := affected.added ++ [path] }
  | (path, .delete _) => { affected with deleted := affected.deleted ++ [path] }
  | (path, .update (some movePath) _) =>
      { affected with
        modified := affected.modified ++ [movePath]
        deleted := affected.deleted ++ [path] }
  | (path, .update none _) =>
      { affected with modified := affected.modified ++ [path] }

variable {fs fs' : FileSystem} {affected affected' : AffectedPaths}

theorem exec_createParents_ok (htree : fs.IsTree) {path : Path} {u : Unit} :
    exec (createParents cwd path) fs = (.ok u, fs') ↔
      fs.CanMakeDirs (parentDirs cwd path) ∧
        fs' = fs.withDirs (parentDirs cwd path) := by
  have hskip : exec (pure () : Patching Unit) fs = (.ok u, fs') ↔
      fs.CanMakeDirs none ∧ fs' = fs.withDirs none := by
    rw [exec_pure, withDirs_none, Prod.mk.injEq]
    constructor
    · rintro ⟨-, rfl⟩
      exact ⟨fun m hm => absurd hm List.not_mem_nil, rfl⟩
    · rintro ⟨-, rfl⟩
      exact ⟨rfl, rfl⟩
  rw [createParents, parentDirs]
  cases path.parent with
  | none => exact hskip
  | some parent =>
      by_cases hempty : parent = .empty
      · simp only [if_pos hempty]
        exact hskip
      · simp only [if_neg hempty]
        rw [exec_update_ok, withContext_ok, createDirAll_eq_ok htree]

theorem exec_writeFile_ok {context : Option Text} {path : Path}
    {contents : Text}
    {u : Unit} :
    exec (writeFile cwd context path contents) fs = (.ok u, fs') ↔
      fs.Writable (locate cwd path) ∧
        fs' = Function.update fs (locate cwd path)
          (some (fs.fileLike (locate cwd path) contents)) := by
  rw [writeFile, exec_update_ok, withContext_ok, write_eq_ok]

theorem exec_pure_ok {α : Type} {a b : α} :
    exec (pure a : Patching α) fs = (.ok b, fs') ↔ fs' = fs ∧ b = a := by
  rw [exec_pure, Prod.mk.injEq, Except.ok.injEq]
  exact ⟨fun h => ⟨h.2.symm, h.1.symm⟩, fun h => ⟨h.2.symm, h.1.symm⟩⟩

theorem fileLike_withDirs {dirs : Option Loc} {l : Loc} {text : Text} :
    (fs.withDirs dirs).fileLike l text = fs.fileLike l text := by
  simp only [fileLike, permissions_withDirs]

theorem writable_renamed {source target : Loc} {text : Text}
    (hfile : fs.IsFile source) :
    let renamed : FileSystem :=
      Function.update (Function.update fs source none) target (fs source)
    (renamed.Writable target ↔ (fs.permissions source).2 = true) ∧
      Function.update renamed target (some (renamed.fileLike target text)) =
        Function.update (Function.update fs source none) target
          (some (fs.fileLike source text)) := by
  intro renamed
  have hnode : renamed target = fs source := Function.update_self ..
  have hpermissions : renamed.permissions target = fs.permissions source := by
    simp only [permissions, hnode]
  constructor
  · have hrenamed : renamed.IsFile target := by
      simpa only [IsFile, hnode] using hfile
    rw [Writable, hpermissions]
    exact and_iff_left (.inl hrenamed)
  · rw [Function.update_idem]
    simp only [fileLike, hpermissions]

theorem exec_applyChange_ok (htree : fs.IsTree)
    {change : Path × ApplyPatchFileChange} :
    exec (applyChange cwd affected change) fs = (.ok affected', fs') ↔
      (changeEdit cwd change).Possible fs ∧
        fs' = (changeEdit cwd change).result fs ∧
        affected' = noteChange affected change := by
  match change with
  | (path, .add content) =>
      simp only [applyChange, exec_bind_ok, exec_createParents_ok cwd htree,
        exec_writeFile_ok, exec_pure_ok]
      constructor
      · rintro ⟨_, _, ⟨hcan, rfl⟩, _, _, ⟨hwritable, rfl⟩, rfl, rfl⟩
        rw [fileLike_withDirs]
        exact ⟨⟨hcan, hwritable⟩, rfl, rfl⟩
      · rintro ⟨⟨hcan, hwritable⟩, rfl, rfl⟩
        refine ⟨(), _, ⟨hcan, rfl⟩, (), _, ⟨hwritable, rfl⟩, ?_, rfl⟩
        rw [fileLike_withDirs]
        rfl
  | (path, .delete _) =>
      simp only [applyChange, removeFile, exec_bind_ok, exec_update_ok,
        withContext_ok,
        removeFile_eq_ok, exec_pure_ok]
      constructor
      · rintro ⟨_, _, ⟨hpossible, rfl⟩, rfl, rfl⟩
        exact ⟨hpossible, rfl, rfl⟩
      · rintro ⟨hpossible, rfl, rfl⟩
        exact ⟨(), _, ⟨hpossible, rfl⟩, rfl, rfl⟩
  | (path, .update (some movePath) newContent) =>
      simp only [applyChange, renameFile, exec_bind_ok,
        exec_createParents_ok cwd htree,
        exec_writeFile_ok, exec_update_ok, withContext_ok,
        rename_eq_ok, exec_pure_ok]
      constructor
      · rintro ⟨_, _, ⟨hcan, rfl⟩, _, _,
          ⟨⟨hfile, hdir, hparent, hparent'⟩, rfl⟩, _, _,
          ⟨hwritable, rfl⟩, rfl, rfl⟩
        obtain ⟨hiff, hresult⟩ :=
          @writable_renamed _ _ (locate cwd movePath) newContent hfile
        rw [hiff, permissions_withDirs] at hwritable
        rw [hresult, fileLike_withDirs]
        exact ⟨⟨hcan, ⟨isFile_withDirs.1 hfile, hwritable⟩, hdir, hparent,
          hparent'⟩, rfl, rfl⟩
      · rintro ⟨⟨hcan, ⟨hfile, hwritable⟩, hdir, hparent, hparent'⟩, rfl, rfl⟩
        have hfile' := (@isFile_withDirs _ _ (parentDirs cwd movePath)).2 hfile
        obtain ⟨hiff, hresult⟩ :=
          @writable_renamed _ _ (locate cwd movePath) newContent hfile'
        rw [permissions_withDirs] at hiff
        refine ⟨(), _, ⟨hcan, rfl⟩, (), _,
          ⟨⟨hfile', hdir, hparent, hparent'⟩, rfl⟩, (), _,
          ⟨hiff.2 hwritable, rfl⟩, ?_, rfl⟩
        rw [hresult, fileLike_withDirs]
        rfl
  | (path, .update none newContent) =>
      simp only [applyChange, exec_bind_ok, exec_writeFile_ok, exec_pure_ok]
      rw [changeEdit, FileEdit.Possible, FileEdit.result, withDirs_none]
      constructor
      · rintro ⟨_, _, ⟨hwritable, rfl⟩, rfl, rfl⟩
        exact ⟨⟨fun m hm => absurd hm List.not_mem_nil, hwritable⟩, rfl, rfl⟩
      · rintro ⟨⟨-, hwritable⟩, rfl, rfl⟩
        exact ⟨(), _, ⟨hwritable, rfl⟩, rfl, rfl⟩

/-- Every change can be applied where those before it leave the files. -/
def AppliesInTurn (fs : FileSystem)
    (changes : List (Path × ApplyPatchFileChange)) : Prop :=
  InTurn FileEdit.Possible FileEdit.result fs (changes.map (changeEdit cwd))

def filesAfter (fs : FileSystem)
    (changes : List (Path × ApplyPatchFileChange)) :
    FileSystem :=
  runAll FileEdit.result fs (changes.map (changeEdit cwd))

theorem exec_applyChanges_ok (htree : fs.IsTree)
    {changes : List (Path × ApplyPatchFileChange)} :
    exec (applyChanges cwd affected changes) fs = (.ok affected', fs') ↔
      AppliesInTurn cwd fs changes ∧ fs' = filesAfter cwd fs changes ∧
        affected' = changes.foldl noteChange affected := by
  induction changes generalizing affected fs with
  | nil =>
      rw [applyChanges, exec_pure_ok]
      exact (and_iff_right trivial).symm
  | cons change rest ih =>
      rw [applyChanges, exec_bind_ok]
      constructor
      · rintro ⟨_, _, hfirst, hrest⟩
        obtain ⟨hpossible, rfl, rfl⟩ := (exec_applyChange_ok cwd htree).1 hfirst
        obtain ⟨hturn, hfiles, hnoted⟩ :=
          (ih (hpossible.isTree_result htree)).1 hrest
        exact ⟨⟨hpossible, hturn⟩, hfiles, hnoted⟩
      · rintro ⟨⟨hpossible, hturn⟩, hfiles, hnoted⟩
        exact ⟨_, _, (exec_applyChange_ok cwd htree).2 ⟨hpossible, rfl, rfl⟩,
          (ih (hpossible.isTree_result htree)).2 ⟨hturn, hfiles, hnoted⟩⟩

end CodeRs.ApplyPatch
