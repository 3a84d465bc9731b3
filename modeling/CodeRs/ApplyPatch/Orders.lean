import CodeRs.ApplyPatch.Agreement
import CodeRs.ApplyPatch.Edits
import Mathlib.Data.List.Nodup

/-!
# The order of the changes

`apply_changes_from_apply_patch` takes the changes of a verified patch in the
order in which the hash map is iterated.  All orders apply the patch and leave
the same files exactly if each change is possible at first and the changes do
not get in each other's way.
-/

namespace CodeRs.ApplyPatch

open Program FileSystem Commuting

variable (cwd : Path)

/-- Two runs leave the same files and both succeed or both fail. -/
def SameOutcome (run run' : Except Failure AffectedPaths × FileSystem) : Prop :=
  run.2 = run'.2 ∧ run.1.isOk = run'.1.isOk

/-- Any two orders of the changes have the same outcome. -/
def OrdersAgree (fs : FileSystem) (changes : Changes) : Prop :=
  ∀ action action' : ApplyPatchAction, action.Iterates changes →
    action'.Iterates changes →
    SameOutcome (exec (applyChangesFromApplyPatch cwd action) fs)
      (exec (applyChangesFromApplyPatch cwd action') fs)

variable {fs : FileSystem} {changes : Changes}
    {action action' : ApplyPatchAction}

theorem ApplyPatchAction.nodup (action : ApplyPatchAction) :
    action.changes.Nodup :=
  action.nodupKeys.of_map _

/-- The same map in another order. -/
def ApplyPatchAction.reorder (action : ApplyPatchAction)
    (order : List (Path × ApplyPatchFileChange))
    (hperm : order.Perm action.changes) :
    ApplyPatchAction where
  changes := order
  patch := action.patch
  cwd := action.cwd
  nodupKeys := (hperm.map Prod.fst).nodup_iff.2 action.nodupKeys

theorem iterates_reorder (h : action.Iterates changes)
    {order : List (Path × ApplyPatchFileChange)}
    (hperm : order.Perm action.changes) :
    (action.reorder order hperm).Iterates changes := by
  intro path change
  rw [← h path change]
  exact hperm.mem_iff

theorem exists_iterates (changes : Changes) :
    ∃ action : ApplyPatchAction, action.Iterates changes := by
  induction changes using Finmap.induction_on with
  | H entries =>
      have hkeys : ((entries.entries.map fun entry => (entry.1, entry.2)).map
          Prod.fst).Nodup := by
        have hnodup := entries.nodupKeys
        rw [List.NodupKeys, List.keys] at hnodup
        rwa [List.map_map]
      refine ⟨⟨_, [], .empty, hkeys⟩, ?_⟩
      intro path change
      rw [Finmap.lookup_toFinmap, AList.lookup, ← Option.mem_def,
        List.mem_dlookup_iff entries.nodupKeys, List.mem_map]
      constructor
      · rintro ⟨⟨path', change'⟩, hmem, heq⟩
        cases heq
        exact hmem
      · intro hmem
        exact ⟨_, hmem, rfl⟩

/-- The change fails and leaves the files as they are. -/
def Blocked (fs : FileSystem) (entry : Path × ApplyPatchFileChange) : Prop :=
  ∀ affected, ∃ failure,
    exec (applyChange cwd affected entry) fs = (.error failure, fs)

/-- What comes before a change that fails is left behind: if another change
alters the files, the orders disagree. -/
theorem not_ordersAgree_of_blocked {path path' : Path}
    {change change' : ApplyPatchFileChange}
    (htree : fs.IsTree) (hlookup : changes.lookup path = some change)
    (hlookup' : changes.lookup path' = some change') (hne : path ≠ path')
    (hblocked : Blocked cwd fs (path, change))
    (hpossible : (changeEdit cwd (path', change')).Possible fs)
    (hblocked' : Blocked cwd ((changeEdit cwd (path', change')).result fs)
      (path, change))
    (halters : (changeEdit cwd (path', change')).result fs ≠ fs) :
    ¬OrdersAgree cwd fs changes := by
  intro hagree
  obtain ⟨action, hiterates⟩ := exists_iterates changes
  have hsub : [(path, change), (path', change')].Subperm action.changes := by
    apply List.subperm_of_subset
    · simp [hne]
    · simp [(hiterates path change).2 hlookup,
        (hiterates path' change').2 hlookup']
  obtain ⟨pair, hpair, hsublist⟩ := hsub
  obtain ⟨rest, hrest⟩ := hsublist.exists_perm_append
  have hperm :
      action.changes.Perm ((path, change) :: (path', change') :: rest) :=
    hrest.trans (hpair.append_right rest)
  have hswap :=
    (List.Perm.swap (path, change) (path', change') rest).trans hperm.symm
  obtain ⟨hfiles, -⟩ := hagree _ _ (iterates_reorder hiterates hperm.symm)
    (iterates_reorder hiterates hswap)
  obtain ⟨failure, hfirst⟩ := hblocked .empty
  have hrun :
      exec
        (applyChanges cwd .empty ((path, change) :: (path', change') :: rest))
        fs =
      (.error failure, fs) := by
    rw [applyChanges]
    exact exec_bind_error hfirst
  obtain ⟨failure', hsecond⟩ := hblocked' (noteChange .empty (path', change'))
  have hrun' :
      exec
        (applyChanges cwd .empty ((path', change') :: (path, change) :: rest))
        fs =
      (.error failure', (changeEdit cwd (path', change')).result fs) := by
    rw [applyChanges, exec_bind_of_ok
      ((exec_applyChange_ok cwd htree).2 ⟨hpossible, rfl, rfl⟩), applyChanges]
    exact exec_bind_error hsecond
  apply halters
  exact ((congrArg Prod.snd hrun').symm.trans hfiles.symm).trans
    (congrArg Prod.snd hrun)

/-! ## A move onto a deleted file -/

theorem isTree_workFiles : workFiles.IsTree := by
  constructor
  · exact ⟨true, rfl⟩
  · intro l hl hne
    simp only [workFiles] at hl
    split at hl
    · rename_i h
      obtain h | rfl := h
      · exact absurd h hne
      · exact ⟨true, rfl⟩
    · split at hl
      · rename_i h
        subst h
        exact ⟨true, rfl⟩
      · split at hl
        · rename_i h
          subst h
          exact ⟨true, rfl⟩
        · exact absurd rfl hl

end CodeRs.ApplyPatch
