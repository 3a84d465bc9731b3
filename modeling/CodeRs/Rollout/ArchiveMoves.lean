import CodeRs.Rollout.Archive
import CodeRs.Rollout.LostUpdates

/-!
# What is left when archiving fails

The rollout and its snapshot are moved before the catalog is asked for the
entry, and nothing moves them back.  The cases are the moves, each as a whole,
and then the update of the entry.
-/

namespace CodeRs.Rollout

open Function (update)

/-! ## Moves -/

def snapshotOf (rolloutPath : Path) : Path :=
  rolloutPath.withExtension snapshotExtension

/-- The names below a code home of a rollout and of where it is archived. -/
def ArchivePaths (codeHome rolloutPath newRel : Path)
    (alreadyArchived : Bool) : Prop :=
  ∃ suffix : List Component, (∀ c ∈ suffix, c ≠ .rootDir ∧ c ≠ .curDir) ∧
    rolloutPath.components = codeHome.components ++
      .normal (if alreadyArchived then archivedSessionsSubdir
        else sessionsSubdir) :: suffix ∧
    newRel.components = .normal archivedSessionsSubdir :: suffix

theorem components_join_cons (base : Path) {p : Path} {name : String}
    {suffix : List Component} (hp : p.components = .normal name :: suffix)
    (hsuffix : ∀ c ∈ suffix, c ≠ .rootDir ∧ c ≠ .curDir) :
    (base.join p).components = base.components ++ .normal name :: suffix := by
  rw [← hp]
  refine Path.components_join base ?_ ?_
  · rw [Path.isAbsolute, hp]
    exact decide_eq_false (by simp)
  · rw [hp, List.mem_cons, not_or]
    exact ⟨Component.noConfusion, fun hmem => (hsuffix _ hmem).2 rfl⟩

/-- The names that a path and its snapshot can have at one place. -/
def namesAt (name : String) : List String :=
  [name, String.ofList (Path.nameWithExtension name.toList snapshotExtension)]

/-- A snapshot is below the same directory, if the rollout is not that
directory. -/
theorem components_snapshotOf {p : Path} {base suffix : List Component}
    {name : String}
    (h : p.components = base ++ .normal name :: suffix) :
    ∀ q ∈ [p, snapshotOf p], ∃ name' ∈ namesAt name, ∃ rest,
      q.components = base ++ .normal name' :: rest := by
  rw [List.forall_mem_cons, List.forall_mem_singleton]
  refine ⟨⟨name, List.mem_cons_self, suffix, h⟩, ?_⟩
  cases hname : p.fileName with
  | none =>
      refine ⟨name, List.mem_cons_self, suffix, ?_⟩
      rw [snapshotOf, Path.withExtension]
      simp only [hname, h]
  | some file =>
      rw [snapshotOf, Path.components_withExtension hname]
      cases suffix with
      | nil =>
          have hlast := Path.components_of_fileName hname
          rw [h, List.dropLast_concat, List.append_cancel_left_eq] at hlast
          obtain rfl : name = String.ofList file := by simpa using hlast
          refine ⟨_, List.mem_cons_of_mem _ (List.mem_singleton_self _), [], ?_⟩
          rw [h, List.dropLast_concat, String.toList_ofList]
      | cons c suffix =>
          refine ⟨name, List.mem_cons_self, (c :: suffix).dropLast ++
            [.normal
              (String.ofList (Path.nameWithExtension file snapshotExtension))],
              ?_⟩
          rw [h, List.dropLast_append_of_ne_nil (by simp),
            List.dropLast_cons_of_ne_nil (by simp)]
          simp

/-- What is under `sessions` and what is under `archived_sessions` are apart. -/
theorem ArchivePaths.apart {codeHome rolloutPath newRel : Path}
    (h : ArchivePaths codeHome rolloutPath newRel false) :
    ∀ p ∈ [rolloutPath, snapshotOf rolloutPath],
      ∀ q ∈ [codeHome.join newRel, snapshotOf (codeHome.join newRel)],
      p ≠ q := by
  obtain ⟨suffix, hplain, hrollout, hnew⟩ := h
  intro p hp q hq hpq
  obtain ⟨name, hname, rest, hp⟩ := components_snapshotOf hrollout p hp
  obtain ⟨name', hname', rest', hq⟩ :=
    components_snapshotOf (components_join_cons codeHome hnew hplain) q hq
  rw [hpq, hq, List.append_cancel_left_eq, List.cons.injEq] at hp
  obtain rfl : name' = name := by simpa using hp.1
  have hdisjoint : ∀ name ∈ namesAt archivedSessionsSubdir,
      name ∉ namesAt sessionsSubdir := by
    decide
  exact hdisjoint _ hname' hname

section Moves

variable {codeHome rolloutPath newRel : Path} {outcomes : ArchiveOutcomes}
  (hpaths : ArchivePaths codeHome rolloutPath newRel false) (files : Files)

include hpaths

end Moves

end CodeRs.Rollout
