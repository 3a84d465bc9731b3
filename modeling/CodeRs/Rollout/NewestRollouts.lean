import CodeRs.Rollout.LostUpdates
import CodeRs.Rollout.ScanOrder

/-!
# The newest rollout of a session

The entry that is discovered of a session is that of its newest rollout, and of
the last one that is found if several are as new.
-/

namespace CodeRs.Rollout

variable {existing candidate rollout newest : SessionIndexEntry}
    {sessionId : Uuid}
  {files : List SessionIndexEntry}

/-! ## Comparing entries -/

theorem version_lt_iff : existing.version < candidate.version ↔
    existing.lastEventAt < candidate.lastEventAt ∨
      existing.lastEventAt = candidate.lastEventAt ∧
        existing.createdAt < candidate.createdAt :=
  Prod.Lex.lt_iff ..

/-- A newer entry takes the place of an older one. -/
theorem shouldReplace_of_version_lt (h : existing.version < candidate.version) :
    shouldReplace existing candidate = true := by
  rw [shouldReplace]
  rcases version_lt_iff.1 h with h | ⟨heq, h⟩
  · rw [if_pos h.ne]
    exact decide_eq_true h
  · rw [if_neg (not_not.2 heq), if_pos h.ne]
    exact decide_eq_true h

theorem not_shouldReplace_of_version_lt
    (h : candidate.version < existing.version) :
    shouldReplace existing candidate = false := by
  rw [shouldReplace]
  rcases version_lt_iff.1 h with h | ⟨heq, h⟩
  · rw [if_pos h.ne']
    exact decide_eq_false h.le.not_gt
  · rw [if_neg (not_not.2 heq.symm), if_pos h.ne']
    exact decide_eq_false h.le.not_gt

/-- Entries that are as new take each other's place if their paths differ. -/
theorem shouldReplace_of_version_eq (h : existing.version = candidate.version)
    (hpath : existing.rolloutPath ≠ candidate.rolloutPath) :
    shouldReplace existing candidate = true := by
  have hversion := toLex_inj.1 h
  rw [Prod.mk.injEq] at hversion
  rw [shouldReplace, if_neg (not_not.2 hversion.1),
    if_neg (not_not.2 hversion.2)]
  exact decide_eq_true (.inl hpath)

/-- Entries of different files are compared by their versions. -/
theorem shouldReplace_iff
    (hpath : existing.rolloutPath ≠ candidate.rolloutPath) :
    shouldReplace existing candidate = true ↔
      existing.version ≤ candidate.version := by
  rcases lt_trichotomy existing.version candidate.version with h | h | h
  · exact iff_of_true (shouldReplace_of_version_lt h) h.le
  · exact iff_of_true (shouldReplace_of_version_eq h hpath) h.le
  · rw [not_shouldReplace_of_version_lt h]
    exact iff_of_false Bool.false_ne_true h.not_ge

/-- An entry does not take the place of what it has become in the catalog. -/
theorem not_shouldReplace_withNickname (existing entry : SessionIndexEntry) :
    shouldReplace (SessionCatalog.withNickname existing entry) entry =
      false := by
  simp [shouldReplace, SessionCatalog.withNickname]

/-! ## The entry that is discovered -/

/-- A rollout is the last of the newest ones of its session. -/
def IsNewest (files : List SessionIndexEntry) (sessionId : Uuid)
    (newest : SessionIndexEntry) :
    Prop :=
  newest.sessionId = sessionId ∧ ∃ before after,
    files = before ++ newest :: after ∧
    (∀ rollout ∈ before, rollout.sessionId = sessionId →
      rollout.version ≤ newest.version) ∧
    ∀ rollout ∈ after, rollout.sessionId = sessionId →
    rollout.version < newest.version

theorem IsNewest.mem (h : IsNewest files sessionId newest) :
    newest ∈ files := by
  obtain ⟨-, before, after, rfl, -⟩ := h
  exact List.mem_append_right _ List.mem_cons_self

theorem IsNewest.version_le (h : IsNewest files sessionId newest)
    (hrollout : rollout ∈ files)
    (hid : rollout.sessionId = sessionId) :
    rollout.version ≤ newest.version := by
  obtain ⟨-, before, after, rfl, hbefore, hafter⟩ := h
  rcases List.mem_append.1 hrollout with hrollout | hrollout
  · exact hbefore rollout hrollout hid
  · rcases List.mem_cons.1 hrollout with rfl | hrollout
    · exact le_rfl
    · exact (hafter rollout hrollout hid).le

/-- The newest rollout, with older ones behind it. -/
theorem IsNewest.append_left (h : IsNewest files sessionId newest)
    {after : List SessionIndexEntry}
    (hold : ∀ rollout ∈ after, rollout.sessionId = sessionId →
      rollout.version < newest.version) : IsNewest (files ++ after)
      sessionId newest := by
  obtain ⟨hid, before, behind, rfl, hbefore, hbehind⟩ := h
  refine ⟨hid, before, behind ++ after,
    by simp, hbefore, fun rollout hrollout hid' => ?_⟩
  rcases List.mem_append.1 hrollout with hrollout | hrollout
  · exact hbehind rollout hrollout hid'
  · exact hold rollout hrollout hid'

theorem IsNewest.append_right (h : IsNewest files sessionId newest)
    {before : List SessionIndexEntry}
    (hold : ∀ rollout ∈ before, rollout.sessionId = sessionId →
      rollout.version ≤ newest.version) : IsNewest (before ++ files)
      sessionId newest := by
  obtain ⟨hid, front, after, rfl, hfront, hafter⟩ := h
  refine ⟨hid, before ++ front, after,
    by simp, fun rollout hrollout hid' => ?_, hafter⟩
  rcases List.mem_append.1 hrollout with hrollout | hrollout
  · exact hold rollout hrollout hid'
  · exact hfront rollout hrollout hid'

theorem isNewest_singleton (rollout : SessionIndexEntry) :
    IsNewest [rollout] rollout.sessionId rollout :=
  ⟨rfl, [], [], rfl, fun _ h => absurd h List.not_mem_nil,
    fun _ h => absurd h List.not_mem_nil⟩

theorem get_keepNewer_of_ne (discovered : Entries)
    (h : candidate.sessionId ≠ sessionId) :
    (keepNewer discovered candidate).get sessionId =
      discovered.get sessionId := by
  rw [keepNewer]
  split
  · split
    · exact Keyed.get_insert_of_ne _ h.symm
    · rfl
  · exact Keyed.get_insert_of_ne _ h.symm

theorem get_keepNewer_self (discovered : Entries)
    (candidate : SessionIndexEntry) :
    (keepNewer discovered candidate).get candidate.sessionId =
      match discovered.get candidate.sessionId with
      | some existing =>
        if shouldReplace existing candidate = true then some candidate
          else some existing
      | none => some candidate := by
  rw [keepNewer]
  cases hget : discovered.get candidate.sessionId with
  | none => exact Keyed.get_insert_self ..
  | some existing =>
      change (if shouldReplace existing candidate = true then _
        else discovered).get _ =
        if shouldReplace existing candidate = true then _ else _
      split
      · exact Keyed.get_insert_self ..
      · exact hget

/-- The files are different ones. -/
def DistinctPaths (files : List SessionIndexEntry) : Prop :=
  files.Pairwise fun rollout rollout' =>
    rollout.rolloutPath ≠ rollout'.rolloutPath

/-- The newest one of what two lists of files give. -/
theorem isNewest_keepNewer {before after : List SessionIndexEntry}
    {discovered : Entries}
    (hpaths : DistinctPaths (before ++ after))
    (hfound : ∀ rollout ∈ before, ∃ existing,
      discovered.get rollout.sessionId = some existing)
    (hbefore : ∀ existing, discovered.get candidate.sessionId = some existing →
      IsNewest before candidate.sessionId existing)
    (hafter : IsNewest after candidate.sessionId candidate)
    (h : (keepNewer discovered candidate).get candidate.sessionId =
      some newest) :
    IsNewest (before ++ after) candidate.sessionId newest := by
  rw [get_keepNewer_self] at h
  cases hget : discovered.get candidate.sessionId with
  | none =>
      rw [hget] at h
      obtain rfl := Option.some.inj h
      refine hafter.append_right fun rollout hrollout hid => ?_
      obtain ⟨existing, hexisting⟩ := hfound rollout hrollout
      rw [hid, hget] at hexisting
      cases hexisting
  | some existing =>
      rw [hget] at h
      have hexisting := hbefore existing hget
      have hpath :=
        (List.pairwise_append.1 hpaths).2.2 existing hexisting.mem candidate
          hafter.mem
      change (if shouldReplace existing candidate = true then _ else _) = _ at h
      split at h
      next hreplace =>
        obtain rfl := Option.some.inj h
        refine hafter.append_right fun rollout hrollout hid => ?_
        exact (hexisting.version_le hrollout hid).trans
          ((shouldReplace_iff hpath).1 hreplace)
      next hkeep =>
        obtain rfl := Option.some.inj h
        refine hexisting.append_left fun rollout hrollout hid => ?_
        rw [shouldReplace_iff hpath, not_le] at hkeep
        exact (hafter.version_le hrollout hid).trans_lt hkeep

theorem isNewest_scan (hpaths : DistinctPaths files)
    (h : (scanRolloutFiles files).get sessionId = some newest) :
    IsNewest files sessionId newest := by
  induction files using List.reverseRecOn generalizing newest with
  | nil => cases h
  | append_singleton files rollout ih =>
      have hfront := (List.pairwise_append.1 hpaths).1
      have hstep : scanRolloutFiles (files ++ [rollout]) =
          keepNewer (scanRolloutFiles files) rollout := by
        rw [scanRolloutFiles, List.foldl_append]
        rfl
      rw [hstep] at h
      by_cases hid : rollout.sessionId = sessionId
      · subst hid
        exact isNewest_keepNewer hpaths (discovers_scan files).found
          (fun existing hexisting => ih hfront hexisting)
          (isNewest_singleton rollout) h
      · rw [get_keepNewer_of_ne _ hid] at h
        refine (ih hfront h).append_left fun other hother hid' => ?_
        rw [List.mem_singleton.1 hother] at hid'
        exact absurd hid' hid

/-- The entries of both directories together discover the newest rollout of a
session. -/
theorem isNewest_merge {archived : List SessionIndexEntry}
    (hpaths : DistinctPaths (files ++ archived))
    (h : (mergeDiscoveredEntries (scanRolloutFiles files)
      (scanRolloutFiles archived)).get sessionId = some newest) :
    IsNewest (files ++ archived) sessionId newest := by
  obtain ⟨hfiles, harchived, -⟩ := List.pairwise_append.1 hpaths
  have hlook := (scanRolloutFiles archived).look_foldl (·.get sessionId)
    (fun discovered _ hne => get_keepNewer_of_ne discovered hne)
    (fun discovered discovered' candidate heq => by
      by_cases hid : candidate.sessionId = sessionId
      · subst hid
        rw [get_keepNewer_self, get_keepNewer_self, heq]
      · rw [get_keepNewer_of_ne _ hid, get_keepNewer_of_ne _ hid, heq])
    (scanRolloutFiles files)
  rw [mergeDiscoveredEntries, hlook] at h
  cases hget : (scanRolloutFiles archived).get sessionId with
  | none =>
      rw [hget] at h
      refine (isNewest_scan hfiles h).append_left fun rollout hrollout hid => ?_
      obtain ⟨found, hfound⟩ := (discovers_scan archived).found rollout hrollout
      rw [hid, hget] at hfound
      cases hfound
  | some candidate =>
      rw [hget] at h
      obtain rfl := Keyed.key_of_get hget
      exact isNewest_keepNewer hpaths (discovers_scan files).found
        (fun existing hexisting => isNewest_scan hfiles hexisting)
        (isNewest_scan harchived hget) h

end CodeRs.Rollout
