import CodeRs.Lib.Lines
import CodeRs.Lib.Runs
import CodeRs.Lib.Saturating
import CodeRs.Lib.Text

/-!
# When a turn is probed

What `tui/src/probe_review.rs` records of a turn, and whether a probe of its
final answer is triggered.
-/

namespace CodeRs.Probe

inductive ProbeProfile where
  | general | security | debugging
  deriving DecidableEq

inductive ProbeRiskLevel where
  | low | medium | high
  deriving DecidableEq

def ProbeRiskLevel.rank : ProbeRiskLevel → ℕ
  | low => 0
  | medium => 1
  | high => 2

structure ProbeTrigger where
  profile : ProbeProfile
  riskLevel : ProbeRiskLevel
  reasons : List String
  force : Bool
  deriving DecidableEq

structure ProbeTurnState where
  finalAnswer : Option Text := none
  toolCalls : ℕ := 0
  failedToolCalls : ℕ := 0
  validationSignals : ℕ := 0
  fileChangeEvents : ℕ := 0
  agentEvents : ℕ := 0
  forceRequested : Bool := false
  deriving DecidableEq

def containsAny (t : Text) (needles : List String) : Bool :=
  needles.any t.contains

/-- The terms with which a probe is asked for. -/
def forceTerms : List String :=
  ["force probe", "probe this", "review my reasoning"]

/-! ## What is recorded -/

def validationCommands : List String :=
  ["cargo test", "cargo check", "cargo clippy", "npm test", "pnpm test",
    "yarn test", "pytest",
    "go test", "swift test", "gradle test", "mvn test", "test ", "check ",
    "lint", "tsc",
    "build"]

/-- The calls with which a turn is recorded. -/
inductive TurnEvent where
  | resetForTurn
  | finalAnswer (message : Text)
  | execBegin (command : List Text)
  | execEnd (exitCode : ℤ)
  | customToolBegin (toolName : Text)
  | fileChange
  | agentEvent

namespace ProbeTurnState

def recordFinalAnswer (s : ProbeTurnState) (message : Text) : ProbeTurnState :=
  let trimmed := message.trim
  if trimmed = [] then s
  else
    { s with
      finalAnswer := some trimmed
      forceRequested := s.forceRequested ||
        containsAny trimmed.toAsciiLowercase forceTerms }

/-- A tool call, and whether it is one that validates. -/
def recordToolCall (s : ProbeTurnState) (validates : Bool) : ProbeTurnState :=
  { s with
    toolCalls := satAdd s.toolCalls 1
    validationSignals :=
      if validates then satAdd s.validationSignals 1 else s.validationSignals }

def recordExecBegin (s : ProbeTurnState) (command : List Text) :
    ProbeTurnState :=
  s.recordToolCall
    (containsAny (Text.toAsciiLowercase ([' '].intercalate command))
      validationCommands)

def recordExecEnd (s : ProbeTurnState) (exitCode : ℤ) : ProbeTurnState :=
  if exitCode ≠ 0 then
    { s with failedToolCalls := satAdd s.failedToolCalls 1 } else s

def recordCustomToolBegin (s : ProbeTurnState) (toolName : Text) :
    ProbeTurnState :=
  s.recordToolCall (containsAny toolName.toAsciiLowercase ["test", "lint",
    "validation"])

/-- The state after a call. -/
def record (s : ProbeTurnState) : TurnEvent → ProbeTurnState
  | .resetForTurn => {}
  | .finalAnswer message => s.recordFinalAnswer message
  | .execBegin command => s.recordExecBegin command
  | .execEnd exitCode => s.recordExecEnd exitCode
  | .customToolBegin toolName => s.recordCustomToolBegin toolName
  | .fileChange => { s with fileChangeEvents := satAdd s.fileChangeEvents 1 }
  | .agentEvent => { s with agentEvents := satAdd s.agentEvents 1 }

end ProbeTurnState

/-! ## The trigger -/

def securityTerms : List String :=
  ["n/a", "not exploitable", "exploitable", "critical", "high severity", "cvss",
    "report ready", "submit", "bounty", "impact", "scope"]

def securityClosureTerms : List String :=
  ["confirmed", "refuted", "safe", "all vectors", "not exploitable",
    "report ready", "n/a"]

/-- The terms of a conclusion that should not follow failed tool calls. -/
def resolvedTerms : List String :=
  ["fixed", "root cause", "verified", "complete", "resolved"]

/-- The terms of a strong general claim. -/
def strongTerms : List String :=
  ["complete", "ready", "verified", "all", "comprehensive", "impossible",
    "safe", "no issue"]

namespace ProbeTurnState

def HasProcessRisk (s : ProbeTurnState) : Prop :=
  0 < s.failedToolCalls ∨ 0 < s.agentEvents ∨ 0 < s.fileChangeEvents ∨
    s.validationSignals = 0

instance (s : ProbeTurnState) : Decidable s.HasProcessRisk :=
  inferInstanceAs (Decidable (_ ∨ _ ∨ _ ∨ _))

/-- A reason that is given when nothing has been validated. -/
def unvalidated (s : ProbeTurnState) (reason : String) : List String :=
  if s.validationSignals = 0 then [reason] else []

end ProbeTurnState

def detectProbeTrigger (state : ProbeTurnState) : Option ProbeTrigger :=
  state.finalAnswer.bind fun answer =>
    let finalAnswer := answer.trim
    if finalAnswer = [] then none
    else
      let lower := finalAnswer.toAsciiLowercase
      let manualForce := state.forceRequested || containsAny lower forceTerms
      let reasons := if manualForce then ["manual probe request"] else []
      if containsAny lower securityTerms &&
        containsAny lower securityClosureTerms then
        some
          { profile := .security
            riskLevel := .high
            reasons := reasons ++
              ["strong security conclusion needs adversarial review"] ++
              state.unvalidated "security conclusion has no validation signal"
            force := manualForce }
      else if 0 < state.failedToolCalls ∧ containsAny lower resolvedTerms then
        some
          { profile := .debugging
            riskLevel := .high
            reasons := reasons ++
              ["final conclusion followed failed tool calls"] ++
              state.unvalidated "fix/root-cause claim has no validation signal"
            force := manualForce }
      else
        let strongGeneralClaim := containsAny lower strongTerms
        if manualForce ∨ (strongGeneralClaim ∧ state.HasProcessRisk) then
          some
            { profile := .general
              riskLevel :=
                if manualForce ∨ 0 < state.failedToolCalls then
                  .high else .medium
              reasons := reasons ++
                (if strongGeneralClaim then
                  ["strong conclusion needs process review"]
                else []) ++
                (if 0 < state.failedToolCalls then
                  ["failed tool calls were observed"]
                else []) ++
                state.unvalidated "no validation signal was observed"
              force := manualForce }
        else none

/-! ## More risk -/

/-- The second state has at least the failures, agent runs and changed files of
the first and at most its validation signals, and the rest is the same. -/
structure ProbeTurnState.RiskLe (s t : ProbeTurnState) : Prop where
  finalAnswer : s.finalAnswer = t.finalAnswer
  toolCalls : s.toolCalls = t.toolCalls
  forceRequested : s.forceRequested = t.forceRequested
  failedToolCalls : s.failedToolCalls ≤ t.failedToolCalls
  agentEvents : s.agentEvents ≤ t.agentEvents
  fileChangeEvents : s.fileChangeEvents ≤ t.fileChangeEvents
  validationSignals : t.validationSignals ≤ s.validationSignals

variable {s t : ProbeTurnState}

theorem ProbeTurnState.RiskLe.hasProcessRisk (h : s.RiskLe t)
    (hs : s.HasProcessRisk) :
    t.HasProcessRisk := by
  obtain ⟨-, -, -, hfailed, hagents, hfiles, hvalidation⟩ := h
  unfold HasProcessRisk at hs ⊢
  omega

/-- An answer that is not blank leaves three ways to a trigger. -/
theorem map_detectProbeTrigger {answer : Text}
    (hanswer : s.finalAnswer = some answer)
    (hblank : answer.trim ≠ []) :
    let lower := answer.trim.toAsciiLowercase
    let manualForce := s.forceRequested || containsAny lower forceTerms
    (detectProbeTrigger s).map (fun trigger => (trigger.riskLevel,
      trigger.force)) =
      if containsAny lower securityTerms &&
        containsAny lower securityClosureTerms then
        some (.high, manualForce)
      else if 0 < s.failedToolCalls ∧ containsAny lower resolvedTerms then
        some (.high, manualForce)
      else if manualForce ∨
        (containsAny lower strongTerms ∧ s.HasProcessRisk) then
        some (if manualForce ∨ 0 < s.failedToolCalls then .high
          else .medium, manualForce)
      else none := by
  simp only [detectProbeTrigger, hanswer, Option.bind_some, if_neg hblank,
    apply_ite (Option.map _), Option.map_some, Option.map_none]

theorem exists_answer_of_detectProbeTrigger {trigger : ProbeTrigger}
    (h : detectProbeTrigger s = some trigger) :
    ∃ answer, s.finalAnswer = some answer ∧ answer.trim ≠ [] := by
  obtain ⟨answer, hanswer, htrigger⟩ := Option.bind_eq_some_iff.1 h
  refine ⟨answer, hanswer, fun hblank => ?_⟩
  simp only [if_pos hblank] at htrigger
  cases htrigger

theorem ProbeRiskLevel.rank_le_high (level : ProbeRiskLevel) :
    level.rank ≤ ProbeRiskLevel.high.rank := by
  cases level <;> decide

theorem detectProbeTrigger_mono (h : s.RiskLe t) {trigger : ProbeTrigger}
    (hs : detectProbeTrigger s = some trigger) :
    ∃ trigger', detectProbeTrigger t = some trigger' ∧
      trigger.riskLevel.rank ≤ trigger'.riskLevel.rank := by
  obtain ⟨answer, hanswer, hblank⟩ := exists_answer_of_detectProbeTrigger hs
  have hfirst := map_detectProbeTrigger hanswer hblank
  have hsecond :=
    map_detectProbeTrigger (h.finalAnswer.symm.trans hanswer) hblank
  simp only [hs, Option.map_some, ← h.forceRequested] at hfirst hsecond
  -- It is enough to find the level of the second trigger.
  suffices hlevel : ∃ level force, (detectProbeTrigger t).map
      (fun trigger => (trigger.riskLevel, trigger.force)) =
      some (level, force) ∧
        trigger.riskLevel.rank ≤ level.rank by
    obtain ⟨level, force, hmap, hle⟩ := hlevel
    obtain ⟨trigger', htrigger', heq⟩ := Option.map_eq_some_iff.1 hmap
    cases heq
    exact ⟨trigger', htrigger', hle⟩
  rw [hsecond]
  split at hfirst
  next hsecurity =>
    rw [if_pos hsecurity]
    exact ⟨_, _, rfl, ProbeRiskLevel.rank_le_high _⟩
  next hsecurity =>
    rw [if_neg hsecurity]
    have hfailed := h.failedToolCalls
    split at hfirst
    next hresolved =>
      rw [if_pos ⟨by omega, hresolved.2⟩]
      exact ⟨_, _, rfl, ProbeRiskLevel.rank_le_high _⟩
    next =>
      split
      next => exact ⟨_, _, rfl, ProbeRiskLevel.rank_le_high _⟩
      next =>
        split at hfirst
        next hgeneral =>
          rw [if_pos (hgeneral.imp_right
            fun hstrong => ⟨hstrong.1, h.hasProcessRisk hstrong.2⟩)]
          refine ⟨_, _, rfl, ?_⟩
          have hlevel := congrArg Prod.fst (Option.some.inj hfirst)
          dsimp only at hlevel
          rw [hlevel]
          split
          next hhigh => rw [if_pos (hhigh.imp_right fun hpos => by omega)]
          next =>
            split
            · decide
            · decide
        next => cases hfirst

theorem detectProbeTrigger_force {answer : Text}
    (hforce : s.forceRequested = true)
    (hanswer : s.finalAnswer = some answer) (hblank : answer.trim ≠ []) :
    ∃ trigger, detectProbeTrigger s = some trigger ∧ trigger.riskLevel = .high ∧
      trigger.force = true := by
  have hmap := map_detectProbeTrigger hanswer hblank
  simp only [hforce, Bool.true_or, true_or, if_true] at hmap
  have hhigh : (detectProbeTrigger s).map
      (fun trigger => (trigger.riskLevel, trigger.force)) =
      some (.high, true) := by
    rw [hmap]
    split
    · rfl
    · split <;> rfl
  obtain ⟨trigger, htrigger, heq⟩ := Option.map_eq_some_iff.1 hhigh
  exact ⟨trigger, htrigger, congrArg Prod.fst heq, congrArg Prod.snd heq⟩

theorem finalAnswer_after (events : List TurnEvent) (answer : Text) :
    (after ProbeTurnState.record {} events).finalAnswer = some answer →
      answer.trim ≠ [] := by
  refine after_induction
    (P := fun s : ProbeTurnState => s.finalAnswer = some answer →
      answer.trim ≠ [])
    (fun s event hs => ?_) (fun h => by cases h) events
  cases event with
  | resetForTurn => exact fun h => by cases h
  | finalAnswer message =>
      simp only [ProbeTurnState.record, ProbeTurnState.recordFinalAnswer]
      split
      next => exact hs
      next hblank =>
        rintro h
        cases h
        exact Text.trim_trim_ne_nil hblank
  | execEnd exitCode =>
      simp only [ProbeTurnState.record, ProbeTurnState.recordExecEnd]
      split <;> exact hs
  | execBegin _ => exact hs
  | customToolBegin _ => exact hs
  | fileChange => exact hs
  | agentEvent => exact hs

/-- More risk triggers a probe wherever less does, at a level that is not
lower, and a forced request triggers one for every answer that is not blank, as
all that are recorded are. -/
theorem detectProbeTrigger_monotone :
    (∀ s t : ProbeTurnState, s.RiskLe t → ∀ trigger,
      detectProbeTrigger s = some trigger →
        ∃ trigger', detectProbeTrigger t = some trigger' ∧
          trigger.riskLevel.rank ≤ trigger'.riskLevel.rank) ∧
      (∀ (s : ProbeTurnState) (answer : Text), s.forceRequested = true →
        s.finalAnswer = some answer → answer.trim ≠ [] →
        ∃ trigger, detectProbeTrigger s = some trigger ∧
          trigger.riskLevel = .high ∧
          trigger.force = true) ∧
      ∀ events : List TurnEvent,
        let s := after ProbeTurnState.record {} events
        s.forceRequested = true → s.finalAnswer.isSome = true →
          (detectProbeTrigger s).isSome = true := by
  refine ⟨fun s t h trigger => detectProbeTrigger_mono h,
    fun s answer => detectProbeTrigger_force, ?_⟩
  intro events s hforce hsome
  obtain ⟨answer, hanswer⟩ := Option.isSome_iff_exists.1 hsome
  obtain ⟨trigger, htrigger, -⟩ :=
    detectProbeTrigger_force hforce hanswer
      (finalAnswer_after events answer hanswer)
  rw [htrigger]
  rfl

end CodeRs.Probe
