import CodeRs.ApplyPatch.Orders
import CodeRs.Safety.PatchSafety
import CodeRs.Session.Approvals

/-!
# The report of a patch

`apply_patch` of `core/src/apply_patch.rs` asks for approval, applies the
changes and reports a run.  `apply_changes_from_apply_patch_and_report` writes
the summary or the error to buffers in memory and returns only whether that
writing went well, and the run takes this answer for its `success`.
-/

namespace CodeRs.ApplyPatch

open Program FileSystem Approvals Protocol Safety

/-! ## Texts -/

def ioErrorText : IoErrorKind → Text
  | .notFound => "No such file or directory (os error 2)".toList
  | .permissionDenied => "Permission denied (os error 13)".toList
  | .notADirectory => "Not a directory (os error 20)".toList
  | .isADirectory => "Is a directory (os error 21)".toList

/-- The text of an error with its context.  The loop over changes never
panics. -/
def Failure.display : Failure → Text
  | .error (.ioError (some context) kind) =>
  context ++ ": ".toList ++ ioErrorText kind
  | .error (.ioError none kind) => ioErrorText kind
  | .error (.computeReplacements message) => message
  | .error .noFilesModified => "No files were modified.".toList
  | .panic => []

/-- `print_summary`, line by line. -/
def summaryLines (affected : AffectedPaths) : List Text :=
  "Success. Updated the following files:".toList ::
    (affected.added.map (fun path => "A ".toList ++ path.display) ++
      affected.modified.map (fun path => "M ".toList ++ path.display) ++
      affected.deleted.map (fun path => "D ".toList ++ path.display))

/-! ## Writing the report -/

/-- `std::io::Write`: what becomes of the text written so far. -/
abbrev Writer := Text → Text → Except IoErrorKind Text

/-- A `Vec<u8>`, which takes everything. -/
def vecWriter : Writer := fun written text => .ok (written ++ text)

def writeln (writer : Writer) (line : Text) : Program Text IoErrorKind Unit :=
  update fun written => writer written (line ++ ['\n'])

/-- `print_summary`, and the single line of an error. -/
def writeLines (writer : Writer) : List Text → Program Text IoErrorKind Unit
  | [] => pure ()
  | line :: rest => do
      writeln writer line
      writeLines writer rest

/-- What a run leaves. -/
structure Reported where
  result : Except IoErrorKind Unit
  stdout : Text
  stderr : Text
  fs : FileSystem

variable (cwd : Path)

/-- `apply_changes_from_apply_patch_and_report` with empty buffers. -/
def applyChangesFromApplyPatchAndReport (stdout stderr : Writer)
    (action : ApplyPatchAction)
    (fs : FileSystem) : Reported :=
  match exec (applyChangesFromApplyPatch cwd action) fs with
  | (.ok affected, fs') =>
      let written := exec (writeLines stdout (summaryLines affected)) []
      ⟨written.1, written.2, [], fs'⟩
  | (.error failure, fs') =>
      let written := exec (writeLines stderr [failure.display]) []
      ⟨written.1, [], written.2, fs'⟩

/-! ## Applying a patch -/

structure ApplyPatchRun where
  autoApproved : Bool
  stdout : Text
  stderr : Text
  success : Bool
  harnessSummaryJson : Option Text

/-- `ApplyPatchResult`, with the output of a reply for the call. -/
inductive ApplyPatchResult where
  | applied (run : ApplyPatchRun)
  | reply (callId body : Text) (success : Option Bool)

/-- Whether the patch is approved, without asking or by the user, or why it is
rejected. A channel that is closed before the user decides counts as a
denial. -/
def approvePatch (decision : Option ReviewDecision) :
    SafetyCheck → Except Text Bool
  | .autoApprove .. => .ok true
  | .askUser =>
      match decision.getD .denied with
      | .approved | .approvedForSession => .ok false
      | .denied | .abort => .error "patch rejected by user".toList
  | .reject reason => .error ("patch rejected: ".toList ++ reason.toList)

/-- What a call of `apply_patch` depends on besides the patch and the files:
the session, the call, the answer of the user and the summary of the harness. -/
structure PatchCall where
  host : Host
  approvalPolicy : AskForApproval
  sandboxPolicy : SandboxPolicy
  cwd : Path
  callId : Text
  decision : Option ReviewDecision
  harnessSummaryJson : Option Text

def PatchCall.approval (call : PatchCall) (action : ApplyPatchAction) :
    Except Text Bool :=
  approvePatch call.decision
    (assessPatchSafety call.host action call.approvalPolicy
      call.sandboxPolicy call.cwd)

def applyPatch (call : PatchCall) (action : ApplyPatchAction)
    (fs : FileSystem) :
    ApplyPatchResult × FileSystem :=
  match call.approval action with
  | .error body => (.reply call.callId body (some false), fs)
  | .ok autoApproved =>
      let reported :=
        applyChangesFromApplyPatchAndReport call.cwd vecWriter
          vecWriter action fs
      (.applied
        { autoApproved
          stdout := reported.stdout
          stderr := reported.stderr
          success := reported.result.isOk
          harnessSummaryJson := call.harnessSummaryJson },
        reported.fs)

/-! ## What the report says -/

/-- Writing to a buffer in memory does not fail. -/
theorem isOk_writeLines (lines : List Text) (written : Text) :
    (exec (writeLines vecWriter lines) written).1 = .ok () := by
  induction lines generalizing written with
  | nil => rfl
  | cons line rest ih =>
      have hline : exec (writeln vecWriter line) written =
          (.ok (), written ++ (line ++ ['\n'])) :=
        exec_update_ok.2 rfl
      rw [writeLines, exec_bind_of_ok hline]
      exact ih _

/-- The result says nothing about the changes. -/
theorem result_report (action : ApplyPatchAction) (fs : FileSystem) :
    (applyChangesFromApplyPatchAndReport cwd vecWriter vecWriter
      action fs).result =
      .ok () := by
  rw [applyChangesFromApplyPatchAndReport]
  split
  · exact isOk_writeLines _ _
  · exact isOk_writeLines _ _

theorem fs_report (stdout stderr : Writer) (action : ApplyPatchAction)
    (fs : FileSystem) :
    (applyChangesFromApplyPatchAndReport cwd stdout stderr action fs).fs =
      (exec (applyChangesFromApplyPatch cwd action) fs).2 := by
  rw [applyChangesFromApplyPatchAndReport]
  split
  · rename_i affected fs' hrun
    rw [hrun]
  · rename_i failure fs' hrun
    rw [hrun]

/-- An approved patch is always reported as a success. -/
theorem success_applyPatch {call : PatchCall} {action : ApplyPatchAction}
    {fs fs' : FileSystem} {run : ApplyPatchRun}
    (h : applyPatch call action fs = (.applied run, fs')) :
    run.success = true ∧
      fs' = (exec (applyChangesFromApplyPatch call.cwd action) fs).2 := by
  rw [applyPatch] at h
  cases happroval : call.approval action with
  | error body =>
      rw [happroval] at h
      cases h
  | ok autoApproved =>
      rw [happroval] at h
      cases h
      refine ⟨?_, fs_report ..⟩
      rw [result_report]
      rfl

theorem exists_run {call : PatchCall} {action : ApplyPatchAction}
    {autoApproved : Bool}
    (h : call.approval action = .ok autoApproved) (fs : FileSystem) :
    ∃ run fs', applyPatch call action fs = (.applied run, fs') := by
  rw [applyPatch, h]
  exact ⟨_, _, rfl⟩

/-- The run reports a failure if some change cannot be applied, and a success
only if every change was. -/
def ReportsTruly (call : PatchCall) (action : ApplyPatchAction)
    (fs : FileSystem) : Prop :=
  ∀ run fs', applyPatch call action fs = (.applied run, fs') →
    (¬AppliesInTurn call.cwd fs action.changes → run.success = false) ∧
      (run.success = true → AppliesInTurn call.cwd fs action.changes ∧
        fs' = filesAfter call.cwd fs action.changes)

/-- The report is right exactly if the patch is rejected before, or every
change can be applied. -/
theorem reportsTruly_iff {call : PatchCall} {action : ApplyPatchAction}
    {fs : FileSystem}
    (htree : fs.IsTree) :
    ReportsTruly call action fs ↔
      (∃ body, call.approval action = .error body) ∨
        AppliesInTurn call.cwd fs action.changes := by
  constructor
  · intro htruly
    cases happroval : call.approval action with
    | error body => exact .inl ⟨body, rfl⟩
    | ok autoApproved =>
        obtain ⟨run, fs', hrun⟩ := exists_run happroval fs
        obtain ⟨hsuccess, -⟩ := success_applyPatch hrun
        exact .inr ((htruly _ _ hrun).2 hsuccess).1
  · rintro (⟨body, hrejected⟩ | hturn) run fs' hrun
    · rw [applyPatch, hrejected] at hrun
      cases hrun
    · refine ⟨fun hnot => absurd hturn hnot, fun _ => ⟨hturn, ?_⟩⟩
      have hok : exec (applyChangesFromApplyPatch call.cwd action) fs = _ :=
        (exec_applyChanges_ok call.cwd htree).2 ⟨hturn, rfl, rfl⟩
      rw [(success_applyPatch hrun).2, hok]

/-! ## A file that is not there -/

/-- A call on a machine without a sandbox policy. -/
def openCall : PatchCall where
  host := { targetOs := .linux, isDir := fun _ => false, tmpdir := none }
  approvalPolicy := .never
  sandboxPolicy := .dangerFullAccess
  cwd := .absolute ["work"]
  callId := "call".toList
  decision := none
  harnessSummaryJson := none

/-- Delete a file of the working directory. -/
def deleteAction (name : String) : ApplyPatchAction where
  changes := [(.absolute ["work", name], .delete [])]
  patch := []
  cwd := .absolute ["work"]
  nodupKeys := by simp

theorem reportsTruly_deleteAction :
    ReportsTruly openCall (deleteAction "a") workFiles :=
  (reportsTruly_iff isTree_workFiles).2 (.inr ⟨by decide, trivial⟩)

theorem not_reportsTruly_missing :
    ¬∀ (call : PatchCall) (action : ApplyPatchAction) (fs : FileSystem),
      ReportsTruly call action fs := by
  intro h
  obtain ⟨run, fs', hrun⟩ :=
    @exists_run openCall (deleteAction "missing") true rfl workFiles
  obtain ⟨hfailure, -⟩ := h _ _ _ run fs' hrun
  have hnot :
      ¬AppliesInTurn openCall.cwd workFiles
        (deleteAction "missing").changes := by
    rintro ⟨hpossible, -⟩
    exact absurd hpossible (by decide)
  rw [(success_applyPatch hrun).1] at hfailure
  cases hfailure hnot

end CodeRs.ApplyPatch
