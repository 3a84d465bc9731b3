import CodeRs.Environment.Snapshot

/-!
# Replaying a delta

What `apply_delta` makes of the delta that `diff_from` computes, for decoders
that read back what `serde_json::to_value` writes.
-/

namespace CodeRs.Environment

open Protocol

/-! ## Lawful decoders -/

/-- What `apply_delta` relies on in `serde_json::from_value`: each decoder
reads back the JSON of its type, and no decoder of an enum or a struct accepts
`null`. -/
structure Decoders.Lawful (decode : Decoders) : Prop where
  approvalPolicy : ∀ policy : AskForApproval,
    decode.approvalPolicy (AskForApproval.toJson policy) = some policy
  sandboxMode : ∀ mode : SandboxMode,
    decode.sandboxMode (.string mode.display) = some mode
  networkAccess : ∀ access : NetworkAccess,
    decode.networkAccess (.string access.display) = some access
  strings : ∀ texts : List String,
    decode.strings (.array (texts.map .string)) = some texts
  operatingSystem : ∀ os : OperatingSystemInfo,
    decode.operatingSystem os.toJson = some os
  shell : ∀ shell : Shell, decode.shell shell.toJson = some shell
  approvalPolicy_null : decode.approvalPolicy .null = none
  sandboxMode_null : decode.sandboxMode .null = none
  networkAccess_null : decode.networkAccess .null = none
  operatingSystem_null : decode.operatingSystem .null = none
  shell_null : decode.shell .null = none

/-- Decoding of an optional text. -/
def optionStringFromJson : JsonValue → Option (Option String)
  | .null => some none
  | .string value => some (some value)
  | _ => none

/-- Decoding of an approval policy. -/
def AskForApproval.fromJson : JsonValue → Option AskForApproval
  | .string "untrusted" => some .unlessTrusted
  | .string "on-failure" => some .onFailure
  | .string "on-request" => some .onRequest
  | .string "never" => some .never
  | .object [("reject", .object
      [("sandbox_approval", .bool sandboxApproval),
       ("rules", .bool rules),
       ("skill_approval", .bool skillApproval),
       ("request_permissions", .bool requestPermissions),
       ("mcp_elicitations", .bool mcpElicitations)])] =>
      some (.reject
        ⟨sandboxApproval, rules, skillApproval, requestPermissions,
          mcpElicitations⟩)
  | _ => none

def SandboxMode.fromJson : JsonValue → Option SandboxMode
  | .string "read-only" => some .readOnly
  | .string "workspace-write" => some .workspaceWrite
  | .string "danger-full-access" => some .dangerFullAccess
  | _ => none

def NetworkAccess.fromJson : JsonValue → Option NetworkAccess
  | .string "restricted" => some .restricted
  | .string "enabled" => some .enabled
  | _ => none

/-- Decoding of one text. -/
def stringFromJson : JsonValue → Option String
  | .string value => some value
  | _ => none

/-- Decoding of a list of texts. -/
def stringsFromJson : JsonValue → Option (List String)
  | .array values => values.mapM stringFromJson
  | _ => none

def OperatingSystemInfo.fromJson : JsonValue → Option OperatingSystemInfo
  | .object [("family", family), ("version", version),
    ("architecture", architecture)] => do
      return ⟨← optionStringFromJson family, ← optionStringFromJson version,
        ← optionStringFromJson architecture⟩
  | _ => none

def Shell.fromJson : JsonValue → Option Shell
  | .object [("Zsh", .object
      [("shell_path", .string shellPath),
        ("zshrc_path", .string zshrcPath)])] =>
      some (.zsh shellPath zshrcPath)
  | .object [("Bash", .object
      [("shell_path", .string shellPath),
        ("bashrc_path", .string bashrcPath)])] =>
      some (.bash shellPath bashrcPath)
  | .object [("PowerShell", .object
      [("exe", .string exe), ("bash_exe_fallback", fallback)])] =>
      (optionStringFromJson fallback).map (.powerShell exe)
  | .string "Unknown" => some .unknown
  | _ => none

/-- Decoders that accept what the encoders of this development write. -/
def Decoders.ofEncoders : Decoders where
  approvalPolicy := AskForApproval.fromJson
  sandboxMode := SandboxMode.fromJson
  networkAccess := NetworkAccess.fromJson
  strings := stringsFromJson
  operatingSystem := OperatingSystemInfo.fromJson
  shell := Shell.fromJson

@[simp] theorem optionStringFromJson_toJson (text : Option String) :
    optionStringFromJson (optionStringToJson text) = some text := by
  cases text with
  | none => rfl
  | some value => rfl

@[simp] theorem stringsFromJson_map (texts : List String) :
    stringsFromJson (.array (texts.map .string)) = some texts := by
  rw [stringsFromJson, List.mapM_map]
  induction texts with
  | nil => rfl
  | cons text texts ih =>
      rw [List.mapM_cons, ih]
      rfl

theorem Decoders.ofEncoders_lawful : Decoders.ofEncoders.Lawful where
  approvalPolicy policy := by cases policy <;> rfl
  sandboxMode mode := by cases mode <;> rfl
  networkAccess access := by cases access <;> rfl
  strings := stringsFromJson_map
  operatingSystem os := by
    simp [Decoders.ofEncoders, OperatingSystemInfo.toJson,
      OperatingSystemInfo.fromJson]
  shell shell := by
    cases shell with
    | powerShell exe fallback =>
        simp [Decoders.ofEncoders, Shell.toJson, Shell.fromJson]
    | _ => rfl
  approvalPolicy_null := rfl
  sandboxMode_null := rfl
  networkAccess_null := rfl
  operatingSystem_null := rfl
  shell_null := rfl

/-! ## The delta of two snapshots -/

namespace EnvironmentContextSnapshot

variable {digest : List (String × String) → String} {decode : Decoders}
variable {snapshot cur prev : EnvironmentContextSnapshot}

/-- The current snapshot lacks a value that the previous one has, in a field
that `apply_delta` leaves alone when it reads `null`. -/
def Clears (cur prev : EnvironmentContextSnapshot) : Prop :=
  (prev.approvalPolicy.isSome ∧ cur.approvalPolicy = none) ∨
  (prev.sandboxMode.isSome ∧ cur.sandboxMode = none) ∨
  (prev.networkAccess.isSome ∧ cur.networkAccess = none) ∨
  (prev.operatingSystem.isSome ∧ cur.operatingSystem = none) ∨
  (prev.shell.isSome ∧ cur.shell = none)

instance : Decidable (Clears cur prev) :=
  inferInstanceAs (Decidable (_ ∨ _ ∨ _ ∨ _ ∨ _))

theorem foldl_changedField {α : Type} [DecidableEq α] {key : String}
    {toJson : α → JsonValue} {value previous : α} :
    (changedField key toJson value previous).foldl
      (applyChange decode) snapshot =
      if value = previous then snapshot
      else snapshot.applyChange decode (key, toJson value) := by
  rw [changedField]
  split <;> rfl

/-- A field that `apply_delta` clears on `null` is replaced. -/
theorem replace_clearable {α : Type} [DecidableEq α] (toJson : α → JsonValue)
    (fromJson : JsonValue → Option α) (value previous : Option α)
    (hread : ∀ v, fromJson (toJson v) = some v)
    (hnull : fromJson .null = none) :
    (if value = previous then previous
      else fromJson ((value.map toJson).getD .null)) = value := by
  split
  · rename_i h
    exact h.symm
  · cases value with
    | none => exact hnull
    | some v => exact hread v

/-- A field that `apply_delta` keeps on `null` is only ever overwritten. -/
theorem replace_sticky {α : Type} [DecidableEq α] {toJson : α → JsonValue}
    {fromJson : JsonValue → Option α} {value previous : Option α}
    (hread : ∀ v, fromJson (toJson v) = some v)
    (hnull : fromJson .null = none) :
    (if value = previous then previous
      else (fromJson ((value.map toJson).getD .null)).or previous) =
      value.or previous := by
  split
  · rename_i h
    rw [h, Option.or_self]
  · cases value with
    | none => simp [hnull]
    | some v => simp [hread]

/-! ### One field at a time -/

section Fields

variable {value : Option String} {texts : List String}

theorem foldl_approvalPolicy (h : decode.Lawful)
    {value previous : Option AskForApproval}
    (hprev : snapshot.approvalPolicy = previous) :
    (changedOption "approval_policy" AskForApproval.toJson
        value previous).foldl (applyChange decode) snapshot =
      { snapshot with approvalPolicy := value.or previous } := by
  subst hprev
  rw [changedOption, foldl_changedField,
    ← replace_sticky h.approvalPolicy h.approvalPolicy_null]
  split <;> rfl

theorem foldl_networkAccess (h : decode.Lawful)
    {value previous : Option NetworkAccess}
    (hprev : snapshot.networkAccess = previous) :
    (changedOption "network_access" (fun access => .string access.display)
        value previous).foldl (applyChange decode) snapshot =
      { snapshot with networkAccess := value.or previous } := by
  subst hprev
  rw [changedOption, foldl_changedField,
    ← replace_sticky h.networkAccess h.networkAccess_null]
  split <;> rfl

theorem foldl_operatingSystem (h : decode.Lawful)
    {value previous : Option OperatingSystemInfo}
    (hprev : snapshot.operatingSystem = previous) :
    (changedOption "operating_system" OperatingSystemInfo.toJson
        value previous).foldl (applyChange decode) snapshot =
      { snapshot with operatingSystem := value.or previous } := by
  subst hprev
  rw [changedOption, foldl_changedField,
    ← replace_sticky h.operatingSystem h.operatingSystem_null]
  split <;> rfl

theorem foldl_sandboxMode (h : decode.Lawful)
    {value previous : Option SandboxMode}
    (hprev : snapshot.sandboxMode = previous) :
    (changedOption "sandbox_mode" (fun mode => .string mode.display)
        value previous).foldl (applyChange decode) snapshot =
      { snapshot with sandboxMode := value.or previous } := by
  subst hprev
  rw [changedOption, foldl_changedField,
    ← replace_sticky h.sandboxMode h.sandboxMode_null]
  split <;> rfl

theorem foldl_shell (h : decode.Lawful) {value previous : Option Shell}
    (hprev : snapshot.shell = previous) :
    (changedOption "shell" Shell.toJson
        value previous).foldl (applyChange decode) snapshot =
      { snapshot with shell := value.or previous } := by
  subst hprev
  rw [changedOption, foldl_changedField,
    ← replace_sticky h.shell h.shell_null]
  split <;> rfl

theorem foldl_cwd {previous : Option String} (hprev : snapshot.cwd = previous) :
    (changedOption "cwd" .string value previous).foldl
        (applyChange decode) snapshot = { snapshot with cwd := value } := by
  subst hprev
  have hreplace := replace_clearable .string stringFromJson value snapshot.cwd
    (fun _ => rfl) rfl
  rw [changedOption, foldl_changedField]
  conv_rhs => rw [← hreplace]
  split <;> rfl

theorem foldl_gitBranch {previous : Option String}
    (hprev : snapshot.gitBranch = previous) :
    (changedOption "git_branch" .string value previous).foldl
        (applyChange decode) snapshot =
        { snapshot with gitBranch := value } := by
  subst hprev
  have hreplace :=
    replace_clearable .string (applyText snapshot.gitBranch) value
      snapshot.gitBranch (fun _ => rfl) rfl
  rw [changedOption, foldl_changedField]
  conv_rhs => rw [← hreplace]
  split <;> rfl

theorem foldl_reasoningEffort {previous : Option String}
    (hprev : snapshot.reasoningEffort = previous) :
    (changedOption "reasoning_effort" .string value previous).foldl
        (applyChange decode) snapshot =
        { snapshot with reasoningEffort := value } := by
  subst hprev
  have hreplace :=
    replace_clearable .string (applyText snapshot.reasoningEffort) value
      snapshot.reasoningEffort (fun _ => rfl) rfl
  rw [changedOption, foldl_changedField]
  conv_rhs => rw [← hreplace]
  split <;> rfl

theorem foldl_commonTools (h : decode.Lawful) {previous : List String}
    (hprev : snapshot.commonTools = previous) :
    (changedField "common_tools" (fun texts => .array (texts.map .string))
        texts previous).foldl (applyChange decode) snapshot =
      { snapshot with commonTools := texts } := by
  subst hprev
  rw [foldl_changedField]
  split
  · rename_i heq
    rw [heq]
  · simp only [applyChange, h.strings, Option.getD_some]

theorem foldl_writableRoots (h : decode.Lawful) {previous : List String}
    (hprev : snapshot.writableRoots = previous) :
    (changedField "writable_roots" (fun texts => .array (texts.map .string))
        texts previous).foldl (applyChange decode) snapshot =
      { snapshot with writableRoots := texts } := by
  subst hprev
  rw [foldl_changedField]
  split
  · rename_i heq
    rw [heq]
  · simp only [applyChange, h.strings, Option.getD_some]

end Fields

/-! ### All fields -/

/-- The replayed snapshot: the current one, except that the five sticky fields
fall back to the previous value. -/
theorem applyDelta_diffFrom (h : decode.Lawful) :
    prev.applyDelta decode (cur.diffFrom digest prev) =
      { cur with
        version := prev.version
        approvalPolicy := cur.approvalPolicy.or prev.approvalPolicy
        sandboxMode := cur.sandboxMode.or prev.sandboxMode
        networkAccess := cur.networkAccess.or prev.networkAccess
        operatingSystem := cur.operatingSystem.or prev.operatingSystem
        shell := cur.shell.or prev.shell } := by
  simp only [applyDelta, diffFrom, List.foldl_append]
  rw [foldl_approvalPolicy h rfl, foldl_commonTools h rfl, foldl_cwd rfl,
    foldl_gitBranch rfl, foldl_networkAccess h rfl, foldl_operatingSystem h rfl,
    foldl_reasoningEffort rfl, foldl_sandboxMode h rfl, foldl_shell h rfl,
    foldl_writableRoots h rfl]

theorem or_eq_left_iff {α : Type} {value previous : Option α} :
    value.or previous = value ↔ ¬(previous.isSome ∧ value = none) := by
  cases value <;> cases previous <;> simp

/-- Replaying the delta of two snapshots gives the current one exactly when no
sticky field went from present to absent. -/
theorem applyDelta_diffFrom_eq_iff (digest : List (String × String) → String)
    {decode : Decoders} (h : decode.Lawful)
    (prev cur : EnvironmentContextSnapshot) :
    prev.applyDelta decode (cur.diffFrom digest prev) =
        { cur with version := prev.version } ↔
      ¬Clears cur prev := by
  rw [applyDelta_diffFrom h]
  simp only [Clears, not_or, ← or_eq_left_iff,
    EnvironmentContextSnapshot.mk.injEq]
  tauto

/-- A context that knows only that the network is open. -/
def networkOpen : EnvironmentContextSnapshot :=
  .fromContext ⟨none, none, none, some .enabled, none, none, none, none⟩

/-- A context that knows nothing. -/
def blank : EnvironmentContextSnapshot :=
  .fromContext ⟨none, none, none, none, none, none, none, none⟩

theorem applyDelta_diffFrom_eq_of_known :
    blank.applyDelta .ofEncoders (networkOpen.diffFrom (fun _ => "") blank) =
      networkOpen := by
  refine (applyDelta_diffFrom_eq_iff _ Decoders.ofEncoders_lawful blank
    networkOpen).2 ?_
  decide

/-- An open network that is no longer reported stays open in the replay. -/
theorem applyDelta_diffFrom_ne :
    ¬∀ prev cur : EnvironmentContextSnapshot,
      prev.applyDelta .ofEncoders (cur.diffFrom (fun _ => "") prev) =
        { cur with version := prev.version } := by
  intro hall
  have hopen := congrArg (·.networkAccess) (hall networkOpen blank)
  exact absurd hopen (by decide)

end EnvironmentContextSnapshot

end CodeRs.Environment
