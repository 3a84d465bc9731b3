import CodeRs.Lib.FileTree
import CodeRs.Protocol.Policies

/-!
# The enforcers of a sandbox policy

Three places consume the writable roots of a policy: the check of a patch, the
arguments for `sandbox-exec` of `core/src/seatbelt.rs`, and the Landlock rules
of `linux-sandbox/src/landlock.rs`.
-/

namespace CodeRs.Safety

open Protocol

/-! ## Seatbelt -/

/-- What the seatbelt code asks of the files. -/
structure MacFiles where
  canonicalize : Path → Option Path
  isFile : Path → Bool

/-- The canonical path, or else the path. -/
def MacFiles.canonical (files : MacFiles) (path : Path) : Path :=
  (files.canonicalize path).getD path

/-- A part of the write policy, with the paths of its parameters. -/
inductive SeatbeltRule where
  | literal (root : Path)
  | subpath (root : Path) (readOnly : List Path)

/-- The rule for a writable root: a file is writable alone, a directory without
its read-only parts. -/
def seatbeltRule (files : MacFiles) (writableRoot : WritableRoot) :
    SeatbeltRule :=
  let canonicalRoot := files.canonical writableRoot.root
  if files.isFile canonicalRoot then .literal canonicalRoot
  else
    .subpath canonicalRoot (writableRoot.readOnlySubpaths.map files.canonical)

namespace SeatbeltRule

/-- What a rule allows to write. -/
def Allows (path : Path) : SeatbeltRule → Prop
  | literal root => path = root
  | subpath root readOnly =>
      path.startsWith root = true ∧ ∀ sub ∈ readOnly,
        path.startsWith sub = false

def rootParam (index : ℕ) : String := "WRITABLE_ROOT_" ++ toString index

/-- The name of the parameter of a read-only part. -/
def readOnlyParam (index subpathIndex : ℕ) : String :=
  rootParam index ++ "_RO_" ++ toString subpathIndex

def text (index : ℕ) : SeatbeltRule → String
  | literal _ => "(literal (param \"" ++ rootParam index ++ "\"))"
  | subpath _ [] => "(subpath (param \"" ++ rootParam index ++ "\"))"
  | subpath _ readOnly =>
      let parts := readOnly.mapIdx fun subpathIndex _ =>
        "(require-not (subpath (param \"" ++
          readOnlyParam index subpathIndex ++ "\")))"
      "(require-all " ++
        " ".intercalate (("(subpath (param \"" ++ rootParam index ++ "\"))") ::
          parts) ++ " )"

/-- A parameter on the command line. -/
def define (param : String) (path : Path) : String :=
  "-D" ++ param ++ "=" ++ String.ofList path.display

/-- The parameters of a rule. -/
def cliArgs (index : ℕ) : SeatbeltRule → List String
  | literal root => [define (rootParam index) root]
  | subpath root readOnly =>
      define (rootParam index) root ::
        readOnly.mapIdx fun subpathIndex sub =>
          define (readOnlyParam index subpathIndex) sub

end SeatbeltRule

/-- The rules of the write policy. -/
def seatbeltRules (host : Host) (files : MacFiles)
    (sandboxPolicy : SandboxPolicy)
    (cwd : Path) : List SeatbeltRule :=
  (sandboxPolicy.getWritableRootsWithCwd host cwd).map (seatbeltRule files)

/-- The policy for writing and the parameters that it uses. -/
def fileWritePolicy (host : Host) (files : MacFiles)
    (sandboxPolicy : SandboxPolicy)
    (cwd : Path) : String × List String :=
  match sandboxPolicy with
  | .dangerFullAccess => ("(allow file-write* (regex #\"^/\"))", [])
  | _ =>
      let rules := seatbeltRules host files sandboxPolicy cwd
      if rules.isEmpty then ("", [])
      else
        ("(allow file-write*\n" ++
          " ".intercalate (rules.mapIdx SeatbeltRule.text) ++ "\n)",
          (rules.mapIdx SeatbeltRule.cliArgs).flatten)

def hasFullNetworkAccess : SandboxPolicy → Bool
  | .dangerFullAccess => true
  | .readOnly => false
  | .workspaceWrite _ networkAccess _ _ _ => networkAccess

/-- `create_seatbelt_command_args`, with the text of the base policy. -/
def createSeatbeltCommandArgs (host : Host) (files : MacFiles)
    (basePolicy : String)
    (command : List String) (sandboxPolicy : SandboxPolicy) (cwd : Path) :
    List String :=
  let write := fileWritePolicy host files sandboxPolicy cwd
  let read := "; allow read-only file operations\n(allow file-read*)"
  let network :=
    if hasFullNetworkAccess sandboxPolicy then
      "(allow network-outbound)\n(allow network-inbound)\n(allow system-socket)"
    else ""
  ["-p", "\n".intercalate [basePolicy, read, write.1, network]] ++ write.2 ++
    ["--"] ++ command

/-! ## Landlock -/

/-- The devices of the machine: whether `/dev/dri` and `/dev/kfd` are there,
and the names in `/dev`. -/
structure Devices where
  dri : Bool
  kfd : Bool
  names : List String

/-- `gpu_device_paths`, in an order of its own, which does not matter for a set
of rules. -/
def gpuDevicePaths (devices : Devices) : List Path :=
  (if devices.dri then [.absolute ["dev", "dri"]] else []) ++
  (if devices.kfd then [.absolute ["dev", "kfd"]] else []) ++
  (devices.names.filter fun name => name.startsWith "nvidia").map fun name =>
    .absolute ["dev", name]

/-- The paths that `install_filesystem_landlock_rules_on_current_thread` makes
writable. -/
def landlockReadWrite (devices : Devices) (writableRoots : List Path) :
    List Path :=
  .absolute ["dev", "null"] :: gpuDevicePaths devices ++ writableRoots

/-- The paths that `apply_sandbox_policy_to_current_thread` makes writable,
where it restricts writing at all. -/
def landlockPaths (host : Host) (devices : Devices)
    (sandboxPolicy : SandboxPolicy)
    (cwd : Path) : List Path :=
  landlockReadWrite devices
    ((sandboxPolicy.getWritableRootsWithCwd host cwd).map WritableRoot.root)

end CodeRs.Safety

/-! ## Protected Git directories

A policy without Git writes makes the `.git` directory of every writable root
read-only. The check of a patch and the seatbelt policy attach this to each
root alone, so another root can reach into the directory; Landlock gets the
roots without it. -/

namespace CodeRs.Safety

open Protocol

/-! ## Paths as a tree -/

theorem isNesting_startsWith :
    IsNesting fun p base : Path => p.startsWith base = true := by
  have hbelow : ∀ p base : Path,
      p.startsWith base = true ↔ base.components.IsPrefix p.components :=
    fun p base => List.isPrefixOf_iff_prefix
  constructor
  · intro a
    exact (hbelow a a).2 List.prefix_rfl
  · intro a b c hab hbc
    exact (hbelow a c).2 (((hbelow b c).1 hbc).trans ((hbelow a b).1 hab))
  · intro p a b ha hb
    rw [hbelow] at ha hb
    obtain h | h := List.prefix_or_prefix_of_prefix ha hb
    · exact .inr ((hbelow b a).2 h)
    · exact .inl ((hbelow a b).2 h)

/-- The top-level `.git` directory of a root. -/
def gitDir (root : Path) : Path := root.join (.relative [".git"])

theorem components_gitDir (root : Path) :
    (gitDir root).components = root.components ++ [.normal ".git"] := by
  rw [gitDir, Path.join, dif_neg (by decide)]
  split
  · rename_i hempty
    rw [hempty]
    rfl
  · rfl

theorem gitDir_startsWith (root : Path) :
    (gitDir root).startsWith root = true := by
  rw [Path.startsWith, components_gitDir]
  exact List.isPrefixOf_iff_prefix.2 (List.prefix_append _ _)

/-- Where a `.git` directory lies in another one, its root is the same or lies
there too. -/
theorem eq_or_startsWith_gitDir {root other : Path}
    (h : (gitDir root).startsWith (gitDir other) = true) :
    root = other ∨ root.startsWith (gitDir other) = true := by
  rw [Path.startsWith, List.isPrefixOf_iff_prefix, components_gitDir root,
    List.prefix_concat_iff] at h
  obtain heq | hle := h
  · rw [components_gitDir] at heq
    refine .inl ?_
    cases root
    cases other
    simpa using (List.append_left_injective _ heq).symm
  · exact .inr (List.isPrefixOf_iff_prefix.2 hle)

/-- What lies around a `.git` directory is the directory itself or around its
root. -/
theorem eq_or_startsWith_of_gitDir {root other : Path}
    (h : (gitDir root).startsWith other = true) :
    other = gitDir root ∨ root.startsWith other = true := by
  rw [Path.startsWith, List.isPrefixOf_iff_prefix, components_gitDir root,
    List.prefix_concat_iff, ← components_gitDir] at h
  obtain heq | hle := h
  · refine .inl ?_
    cases hgit : gitDir root
    cases other
    simp_all
  · exact .inr (List.isPrefixOf_iff_prefix.2 hle)

/-! ## What the enforcers should protect -/

section Policy

variable (host : Host) (files : MacFiles) (devices : Devices)
    (sandboxPolicy : SandboxPolicy)
  (cwd : Path)

/-- A writable root with a `.git` directory. -/
def HasGitDir (writableRoot : WritableRoot) : Prop :=
  writableRoot ∈ sandboxPolicy.getWritableRootsWithCwd host cwd ∧
    host.isDir (gitDir writableRoot.root) = true

/-- No path in a `.git` directory is writable for the check of a patch. -/
def PatchProtects : Prop :=
  ∀ root, HasGitDir host sandboxPolicy cwd root → ∀ path : Path,
    path.startsWith (gitDir root.root) = true →
    ∀ writableRoot ∈ sandboxPolicy.getWritableRootsWithCwd host cwd,
      writableRoot.isPathWritable path = false

/-- No path in a `.git` directory is writable under seatbelt, which sees
canonical paths. -/
def SeatbeltProtects : Prop :=
  ∀ root, HasGitDir host sandboxPolicy cwd root → ∀ path : Path,
    path.startsWith (files.canonical (gitDir root.root)) = true →
    ∀ rule ∈ seatbeltRules host files sandboxPolicy cwd, ¬ rule.Allows path

/-- No path in a `.git` directory is beneath a path that is writable for
Landlock. -/
def LandlockProtects : Prop :=
  ∀ root, HasGitDir host sandboxPolicy cwd root → ∀ path : Path,
    path.startsWith (gitDir root.root) = true →
    ∀ beneath ∈ landlockPaths host devices sandboxPolicy cwd,
      path.startsWith beneath = false

/-- No path in a `.git` directory is writable anywhere. -/
structure GitProtected : Prop where
  patch : PatchProtects host sandboxPolicy cwd
  seatbelt : SeatbeltProtects host files sandboxPolicy cwd
  landlock : LandlockProtects host devices sandboxPolicy cwd

end Policy

/-! ## The check of a patch -/

def WritableRoot.grant (writableRoot : WritableRoot) : Grant Path :=
  ⟨writableRoot.root, writableRoot.readOnlySubpaths⟩

/-- To lie within a path. -/
abbrev Within (p base : Path) : Prop := p.startsWith base = true

variable {host : Host} {files : MacFiles} {devices : Devices}
    {sandboxPolicy : SandboxPolicy}
  {cwd : Path}

theorem isPathWritable_iff {writableRoot : WritableRoot} {path : Path} :
    writableRoot.isPathWritable path = true ↔
      (WritableRoot.grant writableRoot).Allows Within path := by
  simp [WritableRoot.isPathWritable, Grant.Allows, WritableRoot.grant]

theorem patchProtects_iff_reaches :
    PatchProtects host sandboxPolicy cwd ↔
      ∀ root, HasGitDir host sandboxPolicy cwd root →
        ∀ other ∈ sandboxPolicy.getWritableRootsWithCwd host cwd,
          ¬ (WritableRoot.grant other).Reaches Within (gitDir root.root) := by
  constructor
  · intro h root hroot other hother hreaches
    obtain ⟨p, hp, hallows⟩ :=
      (Grant.exists_allows_iff isNesting_startsWith).2 hreaches
    have hnot := h root hroot p hp other hother
    rw [isPathWritable_iff.2 hallows] at hnot
    cases hnot
  · intro h root hroot path hpath other hother
    rw [Bool.eq_false_iff]
    intro hwritable
    exact h root hroot other hother
      ((Grant.exists_allows_iff isNesting_startsWith).1
      ⟨path, hpath, isPathWritable_iff.1 hwritable⟩)

section WorkspaceWrite

/-- The policy for the workspace without Git writes. -/
abbrev withoutGitWrites (writableRoots : List Path)
    (networkAccess excludeTmpdirEnvVar excludeSlashTmp : Bool) :
    SandboxPolicy :=
  .workspaceWrite writableRoots networkAccess excludeTmpdirEnvVar
    excludeSlashTmp false

/-- No writable root lies in the `.git` directory of another one. -/
def RootsOutsideGitDirs (host : Host) (sandboxPolicy : SandboxPolicy)
    (cwd : Path) : Prop :=
  ∀ root ∈ sandboxPolicy.getWritableRootsWithCwd host cwd,
    ∀ other ∈ sandboxPolicy.getWritableRootsWithCwd host cwd,
      other.root.startsWith (gitDir root.root) = false

variable {writableRoots : List Path}
  {networkAccess excludeTmpdirEnvVar excludeSlashTmp : Bool}

/-- Without Git writes the read-only part of a root is its `.git` directory. -/
theorem readOnlySubpaths_eq {writableRoot : WritableRoot}
    (h : writableRoot ∈
      (withoutGitWrites writableRoots networkAccess excludeTmpdirEnvVar
      excludeSlashTmp).getWritableRootsWithCwd host cwd) :
    writableRoot.readOnlySubpaths =
      if host.isDir (gitDir writableRoot.root) then [gitDir writableRoot.root]
        else [] := by
  obtain ⟨root, -, rfl⟩ := List.mem_map.1 h
  simp [Host.writableRoot, gitDir]

/-- The patch check protects the `.git` directory of a root exactly if no other
root lies around it. -/
theorem patchProtects_iff
    (hpolicy : sandboxPolicy = withoutGitWrites writableRoots networkAccess
      excludeTmpdirEnvVar excludeSlashTmp)
    (hout : RootsOutsideGitDirs host sandboxPolicy cwd) :
    PatchProtects host sandboxPolicy cwd ↔
      ∀ root, HasGitDir host sandboxPolicy cwd root →
        ∀ other ∈ sandboxPolicy.getWritableRootsWithCwd host cwd,
          root.root.startsWith other.root = true → root.root = other.root := by
  subst hpolicy
  rw [patchProtects_iff_reaches]
  constructor
  · intro h root hroot other hother hwithin
    by_contra hne
    refine h root hroot other hother (.inl ⟨?_, ?_⟩)
    · exact isNesting_startsWith.trans (gitDir_startsWith root.root) hwithin
    · intro c hc hin
      have hsub : c ∈ other.readOnlySubpaths := hc
      rw [readOnlySubpaths_eq hother] at hsub
      split at hsub
      · cases List.mem_singleton.1 hsub
        obtain heq | hlies := eq_or_startsWith_gitDir hin
        · exact hne heq
        · rw [hout other hother root hroot.1] at hlies
          cases hlies
      · cases hsub
  · intro h root hroot other hother hreaches
    have houtside : ¬ other.root.startsWith (gitDir root.root) = true := by
      rw [hout root hroot.1 other hother]
      decide
    have haround : (gitDir root.root).startsWith other.root = true := by
      obtain hallows | hlies := hreaches
      · exact hallows.1
      · exact absurd hlies.1 houtside
    obtain heq | hwithin := eq_or_startsWith_of_gitDir haround
    · rw [heq] at houtside
      exact houtside (isNesting_startsWith.refl _)
    · have heq := h root hroot other hother hwithin
      refine Grant.not_reaches_of_mem isNesting_startsWith ?_ hreaches
      change gitDir root.root ∈ other.readOnlySubpaths
      rw [readOnlySubpaths_eq hother, ← heq, if_pos hroot.2]
      exact List.mem_singleton_self _

end WorkspaceWrite

/-! ## The seatbelt policy -/

def SeatbeltRule.Reaches (a : Path) : SeatbeltRule → Prop
  | literal root => root.startsWith a = true
  | subpath root readOnly => (⟨root, readOnly⟩ : Grant Path).Reaches Within a

theorem SeatbeltRule.exists_allows_iff {rule : SeatbeltRule} {a : Path} :
    (∃ p : Path, p.startsWith a = true ∧ rule.Allows p) ↔ rule.Reaches a := by
  cases rule with
  | literal root =>
      constructor
      · rintro ⟨p, hp, rfl⟩
        exact hp
      · intro h
        exact ⟨root, h, rfl⟩
  | subpath root readOnly =>
      simp only [Reaches, ← Grant.exists_allows_iff isNesting_startsWith]
      simp [Allows, Grant.Allows]

theorem seatbeltProtects_iff :
    SeatbeltProtects host files sandboxPolicy cwd ↔
      ∀ root, HasGitDir host sandboxPolicy cwd root →
        ∀ rule ∈ seatbeltRules host files sandboxPolicy cwd,
          ¬ rule.Reaches (files.canonical (gitDir root.root)) := by
  constructor
  · intro h root hroot rule hrule hreaches
    obtain ⟨p, hp, hallows⟩ := SeatbeltRule.exists_allows_iff.2 hreaches
    exact h root hroot p hp rule hrule hallows
  · intro h root hroot path hpath rule hrule hallows
    exact h root hroot rule hrule (SeatbeltRule.exists_allows_iff.1 ⟨path,
      hpath, hallows⟩)

/-! ## Landlock and all together -/

/-- Landlock makes a root writable with its `.git` directory. -/
theorem landlockProtects_iff :
    LandlockProtects host devices sandboxPolicy cwd ↔
      ∀ root, ¬ HasGitDir host sandboxPolicy cwd root := by
  constructor
  · intro h root hroot
    have hbeneath : root.root ∈ landlockPaths host devices sandboxPolicy cwd :=
      List.mem_append_right _ (List.mem_map_of_mem hroot.1)
    have hnot := h root hroot _ (isNesting_startsWith.refl _) root.root hbeneath
    rw [gitDir_startsWith] at hnot
    cases hnot
  · intro h root hroot
    exact absurd hroot (h root)

/-- All enforcers together protect the Git directories only where there are
none. -/
theorem gitProtected_iff (host : Host) (files : MacFiles) (devices : Devices)
    (writableRoots : List Path)
    (networkAccess excludeTmpdirEnvVar excludeSlashTmp : Bool)
    (cwd : Path) :
    GitProtected host files devices
        (.workspaceWrite writableRoots networkAccess excludeTmpdirEnvVar
          excludeSlashTmp false)
        cwd ↔
      ∀ root ∈ SandboxPolicy.getWritableRootsWithCwd host cwd
          (.workspaceWrite writableRoots networkAccess excludeTmpdirEnvVar
            excludeSlashTmp
            false),
        host.isDir (gitDir root.root) = false := by
  constructor
  · intro h root hroot
    rw [Bool.eq_false_iff]
    intro hdir
    exact landlockProtects_iff.1 h.landlock root ⟨hroot, hdir⟩
  · intro h
    have hnone : ∀ root, ¬ HasGitDir host
        (.workspaceWrite writableRoots networkAccess excludeTmpdirEnvVar
          excludeSlashTmp false)
        cwd root := by
      rintro root ⟨hroot, hdir⟩
      rw [h root hroot] at hdir
      cases hdir
    exact ⟨fun root hroot => absurd hroot (hnone root),
      fun root hroot => absurd hroot (hnone root), landlockProtects_iff.2 hnone⟩

/-- The machine of the example: `/work/project/.git` is its only directory. -/
def projectHost : Host where
  targetOs := .linux
  isDir p := p = .absolute ["work", "project", ".git"]
  tmpdir := none

/-- The project in `/work`, which is writable too. -/
def nestedRoots : SandboxPolicy :=
  .workspaceWrite [.absolute ["work"]] false false false false

/-- No root lies in a `.git` directory, but the one around the project opens
the one of the project for every enforcer. -/
theorem not_gitProtected_nestedRoots :
    RootsOutsideGitDirs projectHost nestedRoots
      (.absolute ["work", "project"]) ∧
    ¬ PatchProtects projectHost nestedRoots (.absolute ["work", "project"]) ∧
    ¬ SeatbeltProtects projectHost ⟨some, fun _ => false⟩ nestedRoots
      (.absolute ["work", "project"]) ∧
    ¬ LandlockProtects projectHost ⟨false, false, []⟩ nestedRoots
      (.absolute ["work", "project"]) := by
  have hgit : HasGitDir projectHost nestedRoots (.absolute ["work", "project"])
      (projectHost.writableRoot false (.absolute ["work", "project"])) :=
    ⟨List.mem_map_of_mem (by decide), by decide⟩
  have hwork : projectHost.writableRoot false (.absolute ["work"]) ∈
      nestedRoots.getWritableRootsWithCwd projectHost
        (.absolute ["work", "project"]) :=
    List.mem_map_of_mem (by decide)
  refine ⟨by unfold RootsOutsideGitDirs; decide, ?_, ?_, ?_⟩
  · intro h
    have hnot := h _ hgit _ (isNesting_startsWith.refl _) _ hwork
    revert hnot
    decide
  · intro h
    refine h _ hgit _ (isNesting_startsWith.refl _) _
      (List.mem_map_of_mem hwork) ⟨?_, ?_⟩
    · decide
    · decide
  · intro h
    exact landlockProtects_iff.1 h _ hgit

end CodeRs.Safety
