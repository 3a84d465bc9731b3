import CodeRs.Lib.Path

/-!
# Sandbox and approval policies

`SandboxPolicy` of `core/src/protocol.rs` and the roots it makes writable,
approval policies, and the answers of a safety check.  What the code asks of
the machine it runs on is a parameter.
-/

namespace CodeRs.Protocol

/-- The operating systems that the code tells apart. -/
inductive TargetOs where
  | macos | linux | otherUnix | nonUnix
  deriving DecidableEq, Repr

/-- The machine: its system, its directories, and `TMPDIR` where it is set. -/
structure Host where
  targetOs : TargetOs
  isDir : Path → Bool
  tmpdir : Option Path

inductive SandboxPolicy where
  | dangerFullAccess
  | readOnly
  | workspaceWrite (writableRoots : List Path) (networkAccess : Bool)
      (excludeTmpdirEnvVar excludeSlashTmp allowGitWrites : Bool)
  deriving DecidableEq

structure WritableRoot where
  root : Path
  readOnlySubpaths : List Path

def WritableRoot.isPathWritable (writableRoot : WritableRoot)
    (path : Path) : Bool :=
  path.startsWith writableRoot.root &&
    writableRoot.readOnlySubpaths.all fun sub => !path.startsWith sub

/-- The folders that are writable by default besides the working directory. -/
def Host.tempRoots (host : Host) (excludeTmpdirEnvVar excludeSlashTmp : Bool) :
    List Path :=
  (if host.targetOs ≠ .nonUnix ∧ excludeSlashTmp = false ∧
      host.isDir (.absolute ["tmp"]) then
    [.absolute ["tmp"]]
  else []) ++
  (if excludeTmpdirEnvVar = false then
    host.tmpdir.toList.filter (·.components ≠ [])
  else [])

/-- A root with its `.git` folder read-only, unless Git writes are allowed. -/
def Host.writableRoot (host : Host) (allowGitWrites : Bool) (root : Path) :
    WritableRoot where
  root := root
  readOnlySubpaths :=
    let topLevelGit := root.join (.relative [".git"])
    if allowGitWrites = false ∧ host.isDir topLevelGit then
      [topLevelGit] else []

def SandboxPolicy.getWritableRootsWithCwd (host : Host) (cwd : Path) :
    SandboxPolicy → List WritableRoot
  | dangerFullAccess => []
  | readOnly => []
  | workspaceWrite writableRoots _ excludeTmpdirEnvVar excludeSlashTmp
      allowGitWrites =>
      (writableRoots ++ [cwd] ++
        host.tempRoots excludeTmpdirEnvVar excludeSlashTmp).map
        (host.writableRoot allowGitWrites)

end CodeRs.Protocol

/-! ## Approval policies

`AskForApproval` of `core/src/protocol.rs`. -/

namespace CodeRs.Protocol

structure RejectConfig where
  sandboxApproval : Bool
  rules : Bool
  skillApproval : Bool
  requestPermissions : Bool
  mcpElicitations : Bool
  deriving DecidableEq, Repr

inductive AskForApproval where
  | unlessTrusted
  | onFailure
  | onRequest
  | reject (config : RejectConfig)
  | never
  deriving DecidableEq, Repr

/-- The `Display` text, which leaves out the payload of `reject`. -/
def AskForApproval.display : AskForApproval → String
  | unlessTrusted => "untrusted"
  | onFailure => "on-failure"
  | onRequest => "on-request"
  | reject _ => "reject"
  | never => "never"

end CodeRs.Protocol

/-! ## Safety checks

The answers of `core/src/safety.rs` and the sandbox of the platform. -/

namespace CodeRs.Safety

open Protocol

inductive SandboxType where
  | none | macosSeatbelt | linuxSeccomp
  deriving DecidableEq, Repr

inductive SafetyCheck where
  | autoApprove (sandboxType : SandboxType) (userExplicitlyApproved : Bool)
  | askUser
  | reject (reason : String)
  deriving DecidableEq, Repr

def getPlatformSandbox (host : Host) : Option SandboxType :=
  match host.targetOs with
  | .macos => some .macosSeatbelt
  | .linux => some .linuxSeccomp
  | .otherUnix | .nonUnix => Option.none

end CodeRs.Safety
