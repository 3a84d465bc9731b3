import CodeRs.Protocol.Policies
import Mathlib.Data.List.Basic

/-!
# Environment context snapshots

The snapshot, its fingerprint and its deltas, from
`core/src/environment_context.rs`.  A `PathBuf` is the text that `display` gives
for it.  Hashing and decoding JSON are libraries, so the SHA-1 digest of the
fingerprint fields and the decoders of the change values are parameters.
-/

namespace CodeRs.Environment

open Protocol

/-! ## Contexts -/

inductive SandboxMode where
  | readOnly | workspaceWrite | dangerFullAccess
  deriving DecidableEq, Repr

/-- The `Display` text. -/
def SandboxMode.display : SandboxMode → String
  | readOnly => "read-only"
  | workspaceWrite => "workspace-write"
  | dangerFullAccess => "danger-full-access"

inductive NetworkAccess where
  | restricted | enabled
  deriving DecidableEq, Repr

/-- The `Display` text. -/
def NetworkAccess.display : NetworkAccess → String
  | restricted => "restricted"
  | enabled => "enabled"

structure OperatingSystemInfo where
  family : Option String
  version : Option String
  architecture : Option String
  deriving DecidableEq, Repr

inductive Shell where
  | zsh (shellPath zshrcPath : String)
  | bash (shellPath bashrcPath : String)
  | powerShell (exe : String) (bashExeFallback : Option String)
  | unknown
  deriving DecidableEq, Repr

/-- `EnvironmentContext`, without the date that no snapshot reads. -/
structure EnvironmentContext where
  cwd : Option String
  approvalPolicy : Option AskForApproval
  sandboxMode : Option SandboxMode
  networkAccess : Option NetworkAccess
  writableRoots : Option (List String)
  operatingSystem : Option OperatingSystemInfo
  commonTools : Option (List String)
  shell : Option Shell
  deriving DecidableEq, Repr

structure EnvironmentContextSnapshot where
  version : ℕ
  cwd : Option String
  approvalPolicy : Option AskForApproval
  sandboxMode : Option SandboxMode
  networkAccess : Option NetworkAccess
  writableRoots : List String
  operatingSystem : Option OperatingSystemInfo
  commonTools : List String
  shell : Option Shell
  gitBranch : Option String
  reasoningEffort : Option String
  deriving DecidableEq, Repr

/-- `EnvironmentContextSnapshot::VERSION`. -/
def snapshotVersion : ℕ := 1

def EnvironmentContextSnapshot.fromContext (ctx : EnvironmentContext) :
    EnvironmentContextSnapshot where
  version := snapshotVersion
  cwd := ctx.cwd
  approvalPolicy := ctx.approvalPolicy
  sandboxMode := ctx.sandboxMode
  networkAccess := ctx.networkAccess
  writableRoots := ctx.writableRoots.getD []
  operatingSystem := ctx.operatingSystem
  commonTools := ctx.commonTools.getD []
  shell := ctx.shell
  gitBranch := none
  reasoningEffort := none

def EnvironmentContextSnapshot.withMetadata
    (snapshot : EnvironmentContextSnapshot)
    (gitBranch reasoningEffort : Option String) : EnvironmentContextSnapshot :=
  { snapshot with gitBranch, reasoningEffort }

/-! ## Fingerprints -/

/-- An entry of the fingerprint map for a field that is present. -/
def fingerprintEntry (key : String) (value : Option String) :
    List (String × String) :=
  (value.map fun v => (key, v)).toList

/-- The fingerprint map in the key order of a `BTreeMap`. -/
def EnvironmentContextSnapshot.fingerprintFields
    (snapshot : EnvironmentContextSnapshot) : List (String × String) :=
  fingerprintEntry "approval_policy"
    (snapshot.approvalPolicy.map AskForApproval.display) ++
  fingerprintEntry "cwd" snapshot.cwd ++
  fingerprintEntry "git_branch" snapshot.gitBranch ++
  fingerprintEntry "network_access"
    (snapshot.networkAccess.map NetworkAccess.display) ++
  fingerprintEntry "reasoning_effort" snapshot.reasoningEffort ++
  fingerprintEntry "sandbox_mode"
    (snapshot.sandboxMode.map SandboxMode.display) ++
  fingerprintEntry "writable_roots"
    (if snapshot.writableRoots = [] then none
      else some ("|".intercalate snapshot.writableRoots))

/-- `fingerprint`, for the hexadecimal digest of the encoded map. -/
def EnvironmentContextSnapshot.fingerprint
    (digest : List (String × String) → String)
    (snapshot : EnvironmentContextSnapshot) : String :=
  digest snapshot.fingerprintFields

/-! ## Deltas -/

/-- The JSON values that a delta carries. -/
inductive JsonValue where
  | null
  | bool (value : Bool)
  | string (value : String)
  | array (values : List JsonValue)
  | object (fields : List (String × JsonValue))
  deriving Repr

def optionStringToJson : Option String → JsonValue
  | some value => .string value
  | none => .null

/-- `serde_json::to_value` of an approval policy. -/
def AskForApproval.toJson : AskForApproval → JsonValue
  | .reject config => .object [("reject", .object
      [("sandbox_approval", .bool config.sandboxApproval),
       ("rules", .bool config.rules),
       ("skill_approval", .bool config.skillApproval),
       ("request_permissions", .bool config.requestPermissions),
       ("mcp_elicitations", .bool config.mcpElicitations)])]
  | policy => .string policy.display

/-- `serde_json::to_value` of the operating system. -/
def OperatingSystemInfo.toJson (os : OperatingSystemInfo) : JsonValue :=
  .object
    [("family", optionStringToJson os.family),
     ("version", optionStringToJson os.version),
     ("architecture", optionStringToJson os.architecture)]

/-- `serde_json::to_value` of a shell. -/
def Shell.toJson : Shell → JsonValue
  | .zsh shellPath zshrcPath => .object [("Zsh", .object
      [("shell_path", .string shellPath), ("zshrc_path", .string zshrcPath)])]
  | .bash shellPath bashrcPath => .object [("Bash", .object
      [("shell_path", .string shellPath), ("bashrc_path", .string bashrcPath)])]
  | .powerShell exe bashExeFallback => .object [("PowerShell", .object
      [("exe", .string exe),
       ("bash_exe_fallback", optionStringToJson bashExeFallback)])]
  | .unknown => .string "Unknown"

structure EnvironmentContextDelta where
  version : ℕ
  baseFingerprint : String
  changes : List (String × JsonValue)
  deriving Repr

/-- The entry of `diff_from` for one field. -/
def changedField {α : Type} [DecidableEq α] (key : String)
    (toJson : α → JsonValue)
    (value previous : α) : List (String × JsonValue) :=
  if value = previous then [] else [(key, toJson value)]

/-- The entry of `diff_from` for an optional field. -/
def changedOption {α : Type} [DecidableEq α] (key : String)
    (toJson : α → JsonValue)
    (value previous : Option α) : List (String × JsonValue) :=
  changedField key (fun v => (v.map toJson).getD .null) value previous

/-- `diff_from`, with the changes in the key order of a `BTreeMap`. -/
def EnvironmentContextSnapshot.diffFrom
    (digest : List (String × String) → String)
    (snapshot previous : EnvironmentContextSnapshot) :
    EnvironmentContextDelta where
  version := snapshotVersion
  baseFingerprint := previous.fingerprint digest
  changes :=
    changedOption "approval_policy" AskForApproval.toJson
      snapshot.approvalPolicy previous.approvalPolicy ++
    changedField "common_tools" (fun tools => .array (tools.map .string))
      snapshot.commonTools previous.commonTools ++
    changedOption "cwd" .string snapshot.cwd previous.cwd ++
    changedOption "git_branch" .string snapshot.gitBranch previous.gitBranch ++
    changedOption "network_access" (fun access => .string access.display)
      snapshot.networkAccess previous.networkAccess ++
    changedOption "operating_system" OperatingSystemInfo.toJson
      snapshot.operatingSystem previous.operatingSystem ++
    changedOption "reasoning_effort" .string
      snapshot.reasoningEffort previous.reasoningEffort ++
    changedOption "sandbox_mode" (fun mode => .string mode.display)
      snapshot.sandboxMode previous.sandboxMode ++
    changedOption "shell" Shell.toJson snapshot.shell previous.shell ++
    changedField "writable_roots" (fun roots => .array (roots.map .string))
      snapshot.writableRoots previous.writableRoots

/-- The decoders `serde_json::from_value` of the types in a delta. -/
structure Decoders where
  approvalPolicy : JsonValue → Option AskForApproval
  sandboxMode : JsonValue → Option SandboxMode
  networkAccess : JsonValue → Option NetworkAccess
  strings : JsonValue → Option (List String)
  operatingSystem : JsonValue → Option OperatingSystemInfo
  shell : JsonValue → Option Shell

/-- How `apply_delta` reads `git_branch` and `reasoning_effort`. -/
def applyText (old : Option String) : JsonValue → Option String
  | .null => none
  | .string value => some value
  | _ => old

/-- One change of `apply_delta`. -/
def EnvironmentContextSnapshot.applyChange (decode : Decoders)
    (updated : EnvironmentContextSnapshot) :
    String × JsonValue → EnvironmentContextSnapshot
  | ("cwd", value) =>
      { updated with
        cwd := match value with
          | .string text => some text
          | _ => none }
  | ("approval_policy", value) =>
      { updated with
        approvalPolicy := (decode.approvalPolicy value).or
          updated.approvalPolicy }
  | ("sandbox_mode", value) =>
      { updated with
        sandboxMode := (decode.sandboxMode value).or updated.sandboxMode }
  | ("network_access", value) =>
      { updated with
        networkAccess := (decode.networkAccess value).or updated.networkAccess }
  | ("writable_roots", value) =>
      { updated with
        writableRoots := (decode.strings value).getD updated.writableRoots }
  | ("operating_system", value) =>
      { updated with
        operatingSystem :=
          (decode.operatingSystem value).or updated.operatingSystem }
  | ("common_tools", value) =>
      { updated with
        commonTools := (decode.strings value).getD updated.commonTools }
  | ("shell", value) =>
      { updated with shell := (decode.shell value).or updated.shell }
  | ("git_branch", value) =>
      { updated with gitBranch := applyText updated.gitBranch value }
  | ("reasoning_effort", value) =>
      { updated with
        reasoningEffort := applyText updated.reasoningEffort value }
  | _ => updated

def EnvironmentContextSnapshot.applyDelta (decode : Decoders)
    (snapshot : EnvironmentContextSnapshot) (delta : EnvironmentContextDelta) :
    EnvironmentContextSnapshot :=
  delta.changes.foldl (applyChange decode) snapshot

end CodeRs.Environment
