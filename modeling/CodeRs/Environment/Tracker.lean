import CodeRs.Environment.Timeline

/-!
# What the tracker emits

`observe` emits nothing for a snapshot with the fingerprint of the last one.
The fingerprint leaves the operating system, the shell and the common tools
out, writes an approval policy as its `Display` text and joins the writable
roots by bars.  An emission has the number after the one that the tracker
holds, and `restore` makes it hold the number that the next emission is to
have.
-/

namespace CodeRs.Environment

open Protocol

/-! ## Observing twice -/

namespace EnvironmentContextTracker

variable {digest : List (String × String) → String}
    {tracker : EnvironmentContextTracker}

/-- A tracker emits nothing exactly for a fingerprint that it holds. -/
theorem observe_eq_none_iff {snapshot : EnvironmentContextSnapshot} :
    (tracker.observe digest snapshot).2 = none ↔
      ∃ previous, tracker.lastSnapshot = some previous ∧
        snapshot.fingerprint digest = previous.fingerprint digest := by
  rw [observe]
  cases tracker.lastSnapshot with
  | none => simp
  | some previous =>
      dsimp only
      split
      next hsame => simp [hsame]
      next hother => simp [hother]

variable (digest tracker) in
theorem observe_lastSnapshot (snapshot : EnvironmentContextSnapshot) :
    ∃ previous, (tracker.observe digest snapshot).1.lastSnapshot =
      some previous ∧
      previous.fingerprint digest = snapshot.fingerprint digest := by
  rw [observe]
  cases hlast : tracker.lastSnapshot with
  | none => exact ⟨snapshot, rfl, rfl⟩
  | some previous =>
      dsimp only
      split
      next hsame => exact ⟨previous, hlast, hsame.symm⟩
      next => exact ⟨snapshot, rfl, rfl⟩

theorem observe_observe_eq_none_iff
    {first second : EnvironmentContextSnapshot} :
    ((tracker.observe digest first).1.observe digest second).2 = none ↔
      first.fingerprint digest = second.fingerprint digest := by
  obtain ⟨previous, hprevious, hfirst⟩ :=
    observe_lastSnapshot digest tracker first
  rw [observe_eq_none_iff, hprevious]
  constructor
  · rintro ⟨_, ⟨rfl⟩, hsecond⟩
    rw [← hfirst, hsecond]
  · intro hsame
    exact ⟨previous, rfl, by rw [hfirst, hsame]⟩

end EnvironmentContextTracker

/-! ## What a fingerprint tells apart -/

/-- An entry is found under its own key. -/
theorem lookup_fingerprintEntry_append (key other : String)
    (value : Option String)
    (rest : List (String × String)) :
    (fingerprintEntry other value ++ rest).lookup key =
      if key = other then value.or (rest.lookup key) else rest.lookup key := by
  cases value with
  | none => simp [fingerprintEntry]
  | some text =>
      by_cases hkey : key = other
      · simp [fingerprintEntry, hkey]
      · have hbeq : (key == other) = false := beq_false_of_ne hkey
        simp [fingerprintEntry, hkey, List.lookup_cons, hbeq]

theorem lookup_fingerprintEntry (key other : String) (value : Option String) :
    (fingerprintEntry other value).lookup key = if key = other then value
      else none := by
  have happend := lookup_fingerprintEntry_append key other value []
  rw [List.append_nil, List.lookup_nil, Option.or_none] at happend
  exact happend

theorem SandboxMode.display_inj {a b : SandboxMode}
    (h : a.display = b.display) : a = b := by
  revert h
  cases a <;> cases b <;> decide

theorem NetworkAccess.display_inj {a b : NetworkAccess}
    (h : a.display = b.display) :
    a = b := by
  revert h
  cases a <;> cases b <;> decide

/-- The payload of `reject` is all that the text of a policy leaves out. -/
theorem AskForApproval.display_inj {a b : AskForApproval}
    (ha : ∀ config, a ≠ .reject config)
    (h : a.display = b.display) : a = b := by
  cases a with
  | reject config => exact absurd rfl (ha config)
  | _ => cases b <;> first | rfl | simp [AskForApproval.display] at h

/-- Roots without a bar can be told from the text that they are joined to. -/
theorem eq_of_intercalate_eq {roots others : List String} (hroots : roots ≠ [])
    (hothers : others ≠ []) (hbar : ∀ root ∈ roots ++ others, '|' ∉ root.toList)
    (h : "|".intercalate roots = "|".intercalate others) : roots = others := by
  have hsplit : ∀ texts : List String, texts ≠ [] →
      (∀ text ∈ texts, '|' ∉ text.toList) →
      ("|".intercalate texts).toList.splitOn '|' = texts.map String.toList := by
    intro texts hne htexts
    rw [String.toList_intercalate]
    apply List.splitOn_intercalate
    · intro text htext
      obtain ⟨root, hroot, rfl⟩ := List.mem_map.1 htext
      exact htexts root hroot
    · simpa using hne
  have hmap : roots.map String.toList = others.map String.toList := by
    rw [← hsplit roots hroots
      fun root hroot => hbar root (List.mem_append_left _ hroot),
      ← hsplit others hothers fun root hroot =>
        hbar root (List.mem_append_right _ hroot), h]
  exact List.map_injective_iff.2 (fun _ _ => String.toList_inj.1) hmap

/-- Policies with the same text are equal unless they are both `reject`. -/
theorem map_display_inj {a b : Option AskForApproval}
    (ha : ∀ config, a ≠ some (.reject config))
    (h : a.map AskForApproval.display = b.map AskForApproval.display) :
    a = b := by
  cases a with
  | none => exact (Option.map_eq_none_iff.1 h.symm).symm
  | some policy =>
      obtain ⟨other, rfl, hother⟩ := Option.map_eq_some_iff.1 h.symm
      have hpolicy : ∀ config, policy ≠ .reject config := fun config hconfig =>
        ha config (congrArg some hconfig)
      rw [AskForApproval.display_inj hpolicy hother.symm]

/-- Two snapshots with the same stable fields, as far as the fingerprint shows
them. -/
structure SameStableFields (a b : EnvironmentContextSnapshot) : Prop where
  cwd : a.cwd = b.cwd
  sandboxMode : a.sandboxMode = b.sandboxMode
  networkAccess : a.networkAccess = b.networkAccess
  gitBranch : a.gitBranch = b.gitBranch
  reasoningEffort : a.reasoningEffort = b.reasoningEffort
  approvalPolicy : (∀ config, a.approvalPolicy ≠ some (.reject config)) →
    a.approvalPolicy = b.approvalPolicy
  writableRoots : (∀ root ∈ a.writableRoots ++ b.writableRoots,
    '|' ∉ root.toList) →
    a.writableRoots = b.writableRoots

namespace EnvironmentContextSnapshot

/-- What the fingerprint shows of the writable roots. -/
def joinedRoots (snapshot : EnvironmentContextSnapshot) : Option String :=
  if snapshot.writableRoots = [] then none
  else some ("|".intercalate snapshot.writableRoots)

theorem eq_of_joinedRoots_eq {a b : EnvironmentContextSnapshot}
    (hbar : ∀ root ∈ a.writableRoots ++ b.writableRoots, '|' ∉ root.toList)
    (h : a.joinedRoots = b.joinedRoots) :
    a.writableRoots = b.writableRoots := by
  rw [joinedRoots, joinedRoots] at h
  split at h
  next ha =>
    split at h
    next hb => rw [ha, hb]
    next => cases h
  next ha =>
    split at h
    next => cases h
    next hb => exact eq_of_intercalate_eq ha hb hbar (Option.some.inj h)

theorem lookup_fingerprintFields (a : EnvironmentContextSnapshot) :
    a.fingerprintFields.lookup "approval_policy" =
        a.approvalPolicy.map AskForApproval.display ∧
      a.fingerprintFields.lookup "cwd" = a.cwd ∧
      a.fingerprintFields.lookup "git_branch" = a.gitBranch ∧
      a.fingerprintFields.lookup "network_access" =
        a.networkAccess.map NetworkAccess.display ∧
      a.fingerprintFields.lookup "reasoning_effort" = a.reasoningEffort ∧
      a.fingerprintFields.lookup "sandbox_mode" =
        a.sandboxMode.map SandboxMode.display ∧
      a.fingerprintFields.lookup "writable_roots" = a.joinedRoots := by
  simp only [fingerprintFields, List.append_assoc,
    lookup_fingerprintEntry_append,
    lookup_fingerprintEntry]
  simp [joinedRoots]

theorem sameStableFields_of_fingerprintFields_eq
    {a b : EnvironmentContextSnapshot}
    (h : a.fingerprintFields = b.fingerprintFields) : SameStableFields a b := by
  obtain ⟨hpolicy, hcwd, hbranch, hnetwork, heffort, hmode, hroots⟩ :=
    a.lookup_fingerprintFields
  rw [h] at hpolicy hcwd hbranch hnetwork heffort hmode hroots
  obtain ⟨hpolicy', hcwd', hbranch', hnetwork', heffort', hmode', hroots'⟩ :=
    b.lookup_fingerprintFields
  refine ⟨hcwd.symm.trans hcwd', ?_, ?_, hbranch.symm.trans hbranch',
    heffort.symm.trans heffort', ?_, ?_⟩
  · exact Option.map_injective (fun _ _ => SandboxMode.display_inj)
      (hmode.symm.trans hmode')
  · exact Option.map_injective (fun _ _ => NetworkAccess.display_inj)
      (hnetwork.symm.trans hnetwork')
  · intro hreject
    exact map_display_inj hreject (hpolicy.symm.trans hpolicy')
  · intro hbar
    exact eq_of_joinedRoots_eq hbar (hroots.symm.trans hroots')

/-- The fingerprint map does not show the version, the operating system, the
shell and the common tools. -/
theorem fingerprintFields_ignores (a : EnvironmentContextSnapshot) (version : ℕ)
    (operatingSystem : Option OperatingSystemInfo) (commonTools : List String)
    (shell : Option Shell) :
    { a with version, operatingSystem, commonTools, shell }.fingerprintFields =
      a.fingerprintFields :=
  rfl

end EnvironmentContextSnapshot

/-- The digest does not make two different maps equal. -/
def NoCollision (digest : List (String × String) → String)
    (a b : EnvironmentContextSnapshot) : Prop :=
  a.fingerprint digest = b.fingerprint digest →
    a.fingerprintFields = b.fingerprintFields

/-- A snapshot after which nothing is emitted has the stable fields of the one
before it. What the fingerprint leaves out never makes an emission. -/
theorem observe_separates (digest : List (String × String) → String)
    (tracker : EnvironmentContextTracker)
    (first second : EnvironmentContextSnapshot)
    (hdigest : NoCollision digest first second) :
    (((tracker.observe digest first).1.observe digest second).2 = none →
        SameStableFields first second) ∧
      ∀ version operatingSystem commonTools shell,
        ((tracker.observe digest first).1.observe digest
          { first with version, operatingSystem, commonTools, shell }).2 =
          none := by
  constructor
  · intro hnone
    apply EnvironmentContextSnapshot.sameStableFields_of_fingerprintFields_eq
    exact hdigest
      (EnvironmentContextTracker.observe_observe_eq_none_iff.1 hnone)
  · intro version operatingSystem commonTools shell
    apply EnvironmentContextTracker.observe_observe_eq_none_iff.2
    rfl

/-- The SHA-1 of the maps of the snapshots in `/a` and `/b`. -/
def dirDigest (fields : List (String × String)) : String :=
  if fields = [("cwd", "/a")] then "732ac6a4f586bb886c2ddb446d7d9215304d1a94"
  else "845cd2b484e18e3686eb2924e9e87b1e3703cb66"

/-- A snapshot of a shell in a directory. -/
def shellIn (cwd : String) (shell : Shell) : EnvironmentContextSnapshot :=
  .fromContext ⟨some cwd, none, none, none, none, none, none, some shell⟩

theorem observe_separates_shells :
    let first := shellIn "/a" .unknown
    let second := shellIn "/a" (.powerShell "pwsh" none)
    NoCollision dirDigest first second ∧ SameStableFields first second := by
  intro first second
  have hdigest : NoCollision dirDigest first second := fun _ => rfl
  have hnone :
      ((EnvironmentContextTracker.new.observe dirDigest first).1.observe
        dirDigest
      second).2 = none :=
    EnvironmentContextTracker.observe_observe_eq_none_iff.2 rfl
  exact ⟨hdigest,
    (observe_separates dirDigest .new first second hdigest).1 hnone⟩

/-- Another shell alone makes no emission. -/
theorem not_observe_separates_shells :
    ¬ ∀ digest tracker first second, NoCollision digest first second →
      ((EnvironmentContextTracker.observe digest tracker first).1.observe digest
        second).2 = none →
      first.shell = second.shell := by
  intro h
  have hsame : (shellIn "/a" .unknown).fingerprint dirDigest =
      (shellIn "/a" (.powerShell "pwsh" none)).fingerprint dirDigest := rfl
  have hshell : some Shell.unknown = some (.powerShell "pwsh" none) :=
    h dirDigest .new (shellIn "/a" .unknown)
      (shellIn "/a" (.powerShell "pwsh" none))
      (fun _ => rfl)
      (EnvironmentContextTracker.observe_observe_eq_none_iff.2 hsame)
  cases hshell

/-! ## A restored tracker -/

namespace EnvironmentContextTracker

variable {digest : List (String × String) → String}

/-- The first emission of a tracker that observes snapshots one after
another. -/
def firstEmission (digest : List (String × String) → String) :
    EnvironmentContextTracker → List EnvironmentContextSnapshot →
      Option EnvironmentContextEmission
  | _, [] => none
  | tracker, snapshot :: rest =>
      match (tracker.observe digest snapshot).2 with
      | some emission => some emission
      | none => firstEmission digest (tracker.observe digest snapshot).1 rest

variable (digest) in
/-- An emission has the next number, and without one the tracker stays as it
is. -/
theorem observe_cases (tracker : EnvironmentContextTracker)
    (snapshot : EnvironmentContextSnapshot) :
    (tracker.observe digest snapshot = (tracker, none)) ∨
      ∃ emission, (tracker.observe digest snapshot).2 = some emission ∧
        emission.sequence = tracker.nextSequence + 1 := by
  rw [observe]
  cases tracker.lastSnapshot with
  | none => exact Or.inr ⟨_, rfl, rfl⟩
  | some previous =>
      dsimp only
      split
      · exact Or.inl rfl
      · exact Or.inr ⟨_, rfl, rfl⟩

theorem sequence_firstEmission {tracker : EnvironmentContextTracker}
    {observed : List EnvironmentContextSnapshot}
    {emission : EnvironmentContextEmission}
    (h : tracker.firstEmission digest observed = some emission) :
    emission.sequence = tracker.nextSequence + 1 := by
  induction observed with
  | nil => cases h
  | cons snapshot rest ih =>
      rw [firstEmission] at h
      obtain hnone | ⟨first, hfirst, hsequence⟩ :=
        observe_cases digest tracker snapshot
      · rw [hnone] at h
        exact ih h
      · rw [hfirst] at h
        cases h
        exact hsequence

/-- Whatever it observes, the next emission of the tracker has this number. -/
def ContinuesAt (digest : List (String × String) → String)
    (tracker : EnvironmentContextTracker) (sequence : ℕ) : Prop :=
  ∀ observed emission, tracker.firstEmission digest observed = some emission →
    emission.sequence = sequence

/-- A tracker that emits continues at no other number than the one after its
own. -/
theorem continuesAt_iff {tracker : EnvironmentContextTracker} {sequence : ℕ}
    (hemits : ∃ observed emission,
      tracker.firstEmission digest observed = some emission) :
    tracker.ContinuesAt digest sequence ↔
      sequence = tracker.nextSequence + 1 := by
  constructor
  · intro h
    obtain ⟨observed, emission, hemission⟩ := hemits
    rw [← h observed emission hemission, sequence_firstEmission hemission]
  · rintro rfl observed emission hemission
    exact sequence_firstEmission hemission

/-- After `restore` the next emission never has the number that it is to have,
but the one after it.  There is a next emission if the digest is not the same
for all snapshots. -/
theorem restore_not_continuesAt (digest : List (String × String) → String)
    (lastSnapshot : EnvironmentContextSnapshot) (nextSequence : ℕ)
    (hdigest : ∃ other : EnvironmentContextSnapshot,
      other.fingerprint digest ≠ lastSnapshot.fingerprint digest) :
    (restore lastSnapshot nextSequence).ContinuesAt digest
      (max nextSequence 1 + 1) ∧
      ¬ (restore lastSnapshot nextSequence).ContinuesAt digest
        nextSequence := by
  obtain ⟨other, hother⟩ := hdigest
  have hemits : ∃ observed emission,
      (restore lastSnapshot nextSequence).firstEmission digest observed =
        some emission := by
    refine ⟨[other], .delta (max nextSequence 1 + 1) other
      (other.diffFrom digest lastSnapshot), ?_⟩
    have hobserve :
        ((restore lastSnapshot nextSequence).observe digest other).2 =
        some
          (.delta (max nextSequence 1 + 1) other
            (other.diffFrom digest lastSnapshot)) := by
      simp only [observe, restore, if_neg hother]
    rw [firstEmission, hobserve]
  rw [continuesAt_iff hemits, continuesAt_iff hemits]
  refine ⟨rfl, ?_⟩
  change nextSequence ≠ max nextSequence 1 + 1
  omega

theorem restore_not_continuesAt_dirs :
    ¬ (restore (shellIn "/a" .unknown) 4).ContinuesAt dirDigest 4 :=
  (restore_not_continuesAt dirDigest (shellIn "/a" .unknown) 4
    ⟨shellIn "/b" .unknown, by decide⟩).2

/-- A tracker that is restored to go on with four emits a delta numbered
five. -/
theorem not_forall_restore_continuesAt :
    ¬ ∀ digest lastSnapshot nextSequence,
      (restore lastSnapshot nextSequence).ContinuesAt digest nextSequence := by
  intro h
  have hother : (shellIn "/b" .unknown).fingerprint dirDigest ≠
      (shellIn "/a" .unknown).fingerprint dirDigest := by decide
  have hsequence :=
    h dirDigest (shellIn "/a" .unknown) 4 [shellIn "/b" .unknown]
      (.delta 5 (shellIn "/b" .unknown)
        ((shellIn "/b" .unknown).diffFrom dirDigest (shellIn "/a" .unknown)))
      (by simp only [firstEmission, observe, restore, if_neg hother]; rfl)
  exact absurd hsequence (by decide)

end EnvironmentContextTracker

end CodeRs.Environment
