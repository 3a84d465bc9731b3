import CodeRs.ApplyPatch.Hunk
import CodeRs.Protocol.Policies

/-!
# When a patch is applied without asking

`assess_patch_safety` of `core/src/safety.rs`.  The patch is then written by the
process itself, outside any sandbox, so an approval without a check of the paths
lets it write anywhere.
-/

namespace CodeRs.Safety

open Protocol ApplyPatch

/-- The absolute, normalised form of a path of a patch. -/
def absolutePath (cwd path : Path) : Path :=
  (if path.isAbsolute then path else cwd.join path).normalize

/-- The path is inside some writable root. -/
def isPathWritable (writableRoots : List WritableRoot)
    (cwd path : Path) : Bool :=
  writableRoots.any fun writableRoot =>
    writableRoot.isPathWritable (absolutePath cwd path)

def isWritePatchConstrainedToWritablePaths (host : Host)
    (action : ApplyPatchAction)
    (sandboxPolicy : SandboxPolicy) (cwd : Path) : Bool :=
  match sandboxPolicy with
  | .readOnly => false
  | .dangerFullAccess => true
  | .workspaceWrite .. =>
      let writableRoots := sandboxPolicy.getWritableRootsWithCwd host cwd
      action.changes.all fun
        | (path, .add _) => isPathWritable writableRoots cwd path
        | (path, .delete _) => isPathWritable writableRoots cwd path
        | (path, .update movePath _) =>
            isPathWritable writableRoots cwd path &&
              match movePath with
              | some dest => isPathWritable writableRoots cwd dest
              | none => true

/-- The answer of `assess_patch_safety` to a patch in read-only mode. -/
def assessReadOnlyPatch : AskForApproval → SafetyCheck
  | .never =>
      .reject
        "write operations require approval but approval policy is set to never"
  | .reject config =>
      if config.sandboxApproval || config.rules then
        .reject
          ("write operations require approval but approval policy is " ++
            "set to reject")
      else .askUser
  | _ => .askUser

def assessPatchSafety (host : Host) (action : ApplyPatchAction)
    (policy : AskForApproval) (sandboxPolicy : SandboxPolicy) (cwd : Path) :
    SafetyCheck :=
  if action.isEmpty then .reject "empty patch"
  else if sandboxPolicy = .readOnly then assessReadOnlyPatch policy
  else if policy = .unlessTrusted then .askUser
  else if isWritePatchConstrainedToWritablePaths host action sandboxPolicy cwd ∨
      policy = .onFailure then
    match getPlatformSandbox host with
    | some sandboxType => .autoApprove sandboxType false
    | Option.none =>
        if sandboxPolicy = .dangerFullAccess then .autoApprove .none false
        else .askUser
  else if policy = .never then
    .reject "writing outside of the project; rejected by user approval settings"
  else .askUser

/-! ## What an automatic approval says -/

/-- The normalised path starts with a writable root of the policy. -/
def LiesUnderWritableRoot (host : Host) (sandboxPolicy : SandboxPolicy)
    (cwd path : Path) : Prop :=
  ∃ writableRoot ∈ sandboxPolicy.getWritableRootsWithCwd host cwd,
    (absolutePath cwd path).startsWith writableRoot.root

/-- Every path the patch writes, deletes or moves to lies under a writable
root. -/
def Confined (host : Host) (action : ApplyPatchAction)
    (sandboxPolicy : SandboxPolicy) (cwd : Path) : Prop :=
  ∀ change ∈ action.changes, ∀ path ∈ touchedPaths change,
    LiesUnderWritableRoot host sandboxPolicy cwd path

theorem liesUnderWritableRoot_of_isPathWritable {host : Host}
    {sandboxPolicy : SandboxPolicy} {cwd path : Path}
    (h : isPathWritable (sandboxPolicy.getWritableRootsWithCwd host cwd)
      cwd path) :
    LiesUnderWritableRoot host sandboxPolicy cwd path := by
  obtain ⟨writableRoot, hmem, hwritable⟩ := List.any_eq_true.1 h
  rw [WritableRoot.isPathWritable, Bool.and_eq_true] at hwritable
  exact ⟨writableRoot, hmem, hwritable.1⟩

/-- The check of the paths covers every kind of change. -/
theorem confined_of_constrained {host : Host} {action : ApplyPatchAction}
    {sandboxPolicy : SandboxPolicy} {cwd : Path}
    (hfull : sandboxPolicy ≠ .dangerFullAccess)
    (h : isWritePatchConstrainedToWritablePaths host action sandboxPolicy cwd) :
    Confined host action sandboxPolicy cwd := by
  cases sandboxPolicy with
  | dangerFullAccess => exact absurd rfl hfull
  | readOnly => cases h
  | workspaceWrite writableRoots network noTmpdir noTmp gitWrites =>
      rintro ⟨path, change⟩ hchange touched htouched
      have hall := List.all_eq_true.1 h _ hchange
      apply liesUnderWritableRoot_of_isPathWritable
      cases change with
      | add content =>
          cases List.mem_singleton.1 htouched
          exact hall
      | delete content =>
          cases List.mem_singleton.1 htouched
          exact hall
      | update movePath newContent =>
          rw [Bool.and_eq_true] at hall
          cases movePath with
          | none =>
              cases List.mem_singleton.1 htouched
              exact hall.1
          | some dest =>
              obtain rfl | hdest := List.mem_cons.1 htouched
              · exact hall.1
              · cases List.mem_singleton.1 hdest
                exact hall.2

/-- Outside full access, a patch is approved only where a platform sandbox
exists, because its paths were checked or because the policy is `onFailure`. -/
theorem assessPatchSafety_eq_autoApprove {host : Host}
    {action : ApplyPatchAction}
    {policy : AskForApproval} {sandboxPolicy : SandboxPolicy} {cwd : Path}
    {sandboxType : SandboxType} {explicit : Bool}
    (hfull : sandboxPolicy ≠ .dangerFullAccess)
    (h : assessPatchSafety host action policy sandboxPolicy cwd =
      .autoApprove sandboxType explicit) :
    sandboxPolicy ≠ .readOnly ∧ getPlatformSandbox host = some sandboxType ∧
      (isWritePatchConstrainedToWritablePaths host action sandboxPolicy cwd ∨
        policy = .onFailure) := by
  rw [assessPatchSafety] at h
  split at h
  · cases h
  split at h
  · cases policy with
    | reject config =>
        simp only [assessReadOnlyPatch] at h
        split at h <;> cases h
    | _ => cases h
  rename_i hreadOnly
  split at h
  · cases h
  split at h
  · rename_i hchecked
    split at h
    · rename_i platform hplatform
      cases h
      exact ⟨hreadOnly, hplatform, hchecked⟩
    · cases h
  · split at h <;> cases h

/-- A patch is approved only within the writable roots, with full access or by
the user, except that `onFailure` approves every patch to a writable workspace
where a platform sandbox exists. -/
theorem autoApprove_confined_iff (host : Host) (action : ApplyPatchAction)
    (policy : AskForApproval) (sandboxPolicy : SandboxPolicy) (cwd : Path) :
    (∀ sandboxType explicit,
        assessPatchSafety host action policy sandboxPolicy cwd =
          .autoApprove sandboxType explicit →
        sandboxPolicy = .dangerFullAccess ∨ explicit = true ∨
          Confined host action sandboxPolicy cwd) ↔
      policy ≠ .onFailure ∨ sandboxPolicy = .dangerFullAccess ∨
        sandboxPolicy = .readOnly ∨ getPlatformSandbox host = none ∨
        Confined host action sandboxPolicy cwd := by
  constructor
  · intro hsafe
    by_contra! hnot
    obtain ⟨honFailure, hfull, hreadOnly, hplatform, hconfined⟩ := hnot
    obtain ⟨sandboxType, hsandbox⟩ := Option.ne_none_iff_exists'.1 hplatform
    have hnonempty : action.isEmpty = false := by
      rw [Bool.eq_false_iff]
      intro hempty
      apply hconfined
      intro change hchange
      rw [List.isEmpty_iff.1 hempty] at hchange
      cases hchange
    have happrove : assessPatchSafety host action policy sandboxPolicy cwd =
        .autoApprove sandboxType false := by
      simp [assessPatchSafety, hnonempty, hreadOnly, honFailure, hsandbox]
    obtain h | h | h := hsafe _ _ happrove
    · exact hfull h
    · cases h
    · exact hconfined h
  · intro hcond sandboxType explicit happrove
    by_cases hfull : sandboxPolicy = .dangerFullAccess
    · exact .inl hfull
    obtain ⟨hreadOnly, hplatform, hchecked⟩ :=
      assessPatchSafety_eq_autoApprove hfull happrove
    refine .inr (.inr ?_)
    obtain honFailure | h | h | h | h := hcond
    · exact confined_of_constrained hfull (hchecked.resolve_right honFailure)
    · exact absurd h hfull
    · exact absurd h hreadOnly
    · rw [h] at hplatform
      cases hplatform
    · exact h

/-- `onFailure` approves a patch of `/etc/passwd` in the workspace `/work`. -/
theorem not_autoApprove_confined_etc_passwd :
    let host : Host := ⟨.linux, fun _ => false, none⟩
    let action : ApplyPatchAction :=
      ⟨[(.absolute ["etc", "passwd"], .add [])], [],
        .absolute ["work"], by decide⟩
    let sandboxPolicy : SandboxPolicy := .workspaceWrite [] false true true true
    ¬ ∀ sandboxType explicit,
        assessPatchSafety host action .onFailure sandboxPolicy
          (.absolute ["work"]) =
          .autoApprove sandboxType explicit →
        sandboxPolicy = .dangerFullAccess ∨ explicit = true ∨
          Confined host action sandboxPolicy (.absolute ["work"]) := by
  intro host action sandboxPolicy hsafe
  obtain h | h | h := hsafe .linuxSeccomp false (by decide)
  · exact absurd h (by decide)
  · cases h
  · obtain ⟨writableRoot, hmem, hstarts⟩ := h _ (List.mem_singleton.2 rfl) _
      (List.mem_singleton.2 rfl)
    cases List.mem_singleton.1 hmem
    exact absurd hstarts (by decide)

end CodeRs.Safety
