import CodeRs.Rollout.ArchiveMoves

/-!
# Whether a conversation is archived as a whole

A call that does not succeed is to leave the rollout, its snapshot and the
catalog file, and one that succeeds is to leave all of them archived.  That
depends on what fails behind the move of the rollout.
-/

namespace CodeRs.Rollout

/-! ## The update of the entry -/

section Entry

variable (format : CatalogFormat) (outcomes : ArchiveOutcomes)
    (s : ArchiveState)
  (sessionId : Uuid)

/-- The catalog that is reconciled: the one in the cache, or else the one in
the file. -/
def ArchiveState.loaded : SessionCatalog :=
  s.cache.getD (SessionCatalog.load format.fromStr s.catalogFile)

variable (codeHome newRel : Path)

end Entry

/-! ## The whole call -/

theorem ArchivePaths.startsWith {codeHome rolloutPath newRel : Path}
    {alreadyArchived : Bool}
    (h : ArchivePaths codeHome rolloutPath newRel alreadyArchived) :
    newRel.startsWith (Path.relative [archivedSessionsSubdir]) = true := by
  obtain ⟨suffix, -, -, hnew⟩ := h
  rw [Path.startsWith, hnew]
  exact List.isPrefixOf_iff_prefix.2 ⟨suffix, rfl⟩

/-- A code home with one rollout and no catalog. -/
def oneRollout (rolloutPath : Path) : ArchiveState where
  files p := if p = rolloutPath then some [] else none
  catalogFile := none
  cache := none

end CodeRs.Rollout
