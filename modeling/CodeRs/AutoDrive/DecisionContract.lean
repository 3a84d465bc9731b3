import CodeRs.AutoDrive.DecisionParsing
import CodeRs.Lib.Program

/-!
# The contract of an accepted decision

What `parse_decision` lets through in the current schema is what the
coordinator may send.  In the legacy schema the length of the prompt is not
looked at.
-/

namespace CodeRs.AutoDrive

/-! ## The contract -/

def PromptFits (prompt : Text) : Prop :=
  cliPromptMinChars ≤ prompt.length ∧ prompt.length ≤ cliPromptMaxChars

instance (prompt : Text) : Decidable (PromptFits prompt) :=
  inferInstanceAs (Decidable (_ ∧ _))

/-- Something is left of the text after cleaning. -/
def Filled (value : Text) : Prop :=
  ∃ cleaned, cleanOptional (some value) = some cleaned

/-- The model is allowed, and so is the effort for this model. -/
def Routed (options : DecisionParseOptions) (model : Option Text)
    (effort : Option ReasoningEffort) : Prop :=
  ∃ entry ∈ options.allowedCliRoutingEntries, model = some entry.model ∧
    ∃ level ∈ entry.reasoningLevels, effort = some level

/-- The evidence has an outcome and at least one validation check. -/
def EvidenceGiven (evidence : FinishEvidencePayload) : Prop :=
  (∃ outcome, evidence.primaryOutcomeAchieved = some outcome ∧ Filled outcome) ∧
    ∃ checks, evidence.validationChecksPassed = some checks ∧ checks ≠ [] ∧
      ∀ check ∈ checks, Filled check

/-- The coordinator's contract for a decision and the value that it is read
from. -/
structure MeetsContract (options : DecisionParseOptions)
    (decision : ParsedCoordinatorDecision)
    (value : Json) : Prop where
  continues : decision.status = .continues →
    ∃ action, decision.cli = some action ∧
    PromptFits action.prompt ∧ (options.requireCliModelRouting = true →
      Routed options action.modelOverride action.reasoningEffortOverride)
  finishes : decision.status ≠ .continues →
    decision.cli = none ∧ ∃ written evidence,
    CoordinatorDecisionNew.decode value = some written ∧
      written.finishEvidence = some evidence ∧ EvidenceGiven evidence

/-! ## Checks -/

theorem filled_of_cleanRequired {value field cleaned : Text}
    (h : cleanRequired value field = .ok cleaned) : Filled value := by
  simp only [cleanRequired] at h
  split at h
  next => cases h
  next htrim =>
    split at h
    next => cases h
    next hfinal =>
      refine ⟨(stripRolePrefix value.trim).trim, ?_⟩
      simp only [cleanOptional, Option.bind_some, if_neg htrim, if_neg hfinal]

theorem filled_of_cleanRequiredList {values : Option (List Text)} {field : Text}
    {cleaned : List Text} (h : cleanRequiredList values field = .ok cleaned) :
    ∃ given, values = some given ∧ given.length = cleaned.length ∧
      ∀ value ∈ given, Filled value := by
  cases values with
  | none => cases h
  | some given =>
      refine ⟨given, rfl, ?_⟩
      rw [cleanRequiredList] at h
      generalize hk : 0 = k at h
      clear hk
      induction given generalizing k cleaned with
      | nil =>
          cases h
          exact ⟨rfl, fun _ hmem => absurd hmem List.not_mem_nil⟩
      | cons value rest ih =>
          rw [List.zipIdx_cons, List.mapM_cons] at h
          obtain ⟨head, hhead, h⟩ := bind_eq_ok.1 h
          obtain ⟨tail, htail, h⟩ := bind_eq_ok.1 h
          cases h
          obtain ⟨hlength, hfilled⟩ := ih (k + 1) htail
          exact ⟨congrArg Nat.succ hlength,
            List.forall_mem_cons.2 ⟨filled_of_cleanRequired hhead, hfilled⟩⟩

theorem evidenceGiven_of_validate {evidence : FinishEvidencePayload}
    (h : validateFinishEvidence evidence = .ok ()) :
    EvidenceGiven evidence := by
  rw [validateFinishEvidence] at h
  split at h
  next => cases h
  next outcome houtcome =>
    obtain ⟨_, hclean, h⟩ := bind_eq_ok.1 h
    obtain ⟨cleaned, hchecks, h⟩ := bind_eq_ok.1 h
    obtain ⟨checks, hgiven, hlength, hfilled⟩ :=
      filled_of_cleanRequiredList hchecks
    refine ⟨⟨outcome, houtcome, filled_of_cleanRequired hclean⟩, checks,
      hgiven, ?_, hfilled⟩
    rintro rfl
    obtain rfl := List.length_eq_zero_iff.1 hlength.symm
    cases h

theorem routed_of_validate {status : AutoCoordinatorStatus}
    {cliModel cliEffort : Option Text}
    {options : DecisionParseOptions} {model : Option Text}
    {effort : Option ReasoningEffort}
    (h : validateCliModelSelection status cliModel cliEffort options =
      .ok (model, effort))
    (hstatus : status = .continues)
    (hrouting : options.requireCliModelRouting = true) :
    Routed options model effort := by
  unfold validateCliModelSelection at h
  rw [if_neg (by rw [hrouting]; exact Bool.noConfusion), if_pos hstatus] at h
  split at h
  next => cases h
  next => cases h
  next name raw =>
    obtain ⟨entry, hentry, h⟩ := bind_eq_ok.1 h
    obtain ⟨level, -, h⟩ := bind_eq_ok.1 h
    simp only [normalizeCliModel] at hentry
    split at hentry
    next found hfound =>
      cases hentry
      split at h
      next hlevel =>
        cases h
        exact ⟨entry, List.mem_of_find?_eq_some hfound, rfl, level, hlevel, rfl⟩
      next => cases h
    next => cases hentry

theorem promptFits_of_ensure {prompt : Text}
    (h : ensureCliPromptLength prompt = .ok ()) :
    PromptFits prompt := by
  rw [ensureCliPromptLength] at h
  split at h
  next => cases h
  next hmin =>
    split at h
    next => cases h
    next hmax => exact ⟨Nat.le_of_not_lt hmin, Nat.le_of_not_lt hmax⟩

/-- The action of the current schema: one that fits to continue, none to
finish. -/
theorem cliActionNew_spec {status : AutoCoordinatorStatus}
    {cliPrompt model : Option Text}
    {effort : Option ReasoningEffort} {cli : Option CliAction}
    (h : cliActionNew status cliPrompt model effort = .ok cli) :
    (status = .continues → ∃ action,
      cli = some action ∧ PromptFits action.prompt ∧
      action.modelOverride = model ∧ action.reasoningEffortOverride = effort) ∧
    (status ≠ .continues → cli = none) := by
  unfold cliActionNew at h
  split at h
  next prompt =>
    split at h
    next hstatus =>
      obtain ⟨cleaned, -, h⟩ := bind_eq_ok.1 h
      obtain ⟨_, hlength, h⟩ := bind_eq_ok.1 h
      cases h
      exact ⟨fun _ => ⟨_, rfl, promptFits_of_ensure hlength, rfl, rfl⟩,
        fun hne => absurd hstatus hne⟩
    next => cases h
  next =>
    split at h
    next => cases h
    next hstatus =>
      cases h
      exact ⟨fun heq => absurd heq hstatus, fun _ => rfl⟩

/-! ## The two schemas -/

/-- What the current schema lets through meets the contract. -/
theorem meetsContract_new {written : CoordinatorDecisionNew}
    {status : AutoCoordinatorStatus}
    {options : DecisionParseOptions} {decision : ParsedCoordinatorDecision}
    {value : Json}
    (hdecode : CoordinatorDecisionNew.decode value = some written)
    (h : convertDecisionNew written status options = .ok decision) :
    MeetsContract options decision value := by
  obtain ⟨_, -, h⟩ := bind_eq_ok.1 h
  obtain ⟨_, hevidence, h⟩ := bind_eq_ok.1 h
  obtain ⟨⟨model, effort⟩, hrouting, h⟩ := bind_eq_ok.1 h
  obtain ⟨cli, hcli, h⟩ := bind_eq_ok.1 h
  obtain ⟨agents, -, h⟩ := bind_eq_ok.1 h
  cases h
  obtain ⟨hcontinues, hfinishes⟩ := cliActionNew_spec hcli
  refine ⟨fun hstatus => ?_, fun hstatus => ⟨hfinishes hstatus, ?_⟩⟩
  · obtain ⟨action, haction, hfits, hmodel, heffort⟩ := hcontinues hstatus
    refine ⟨action, haction, hfits, fun hrequire => ?_⟩
    rw [hmodel, heffort]
    exact routed_of_validate hrouting hstatus hrequire
  · unfold validateFinishEvidenceForStatus at hevidence
    rw [if_neg hstatus] at hevidence
    split at hevidence
    next => cases hevidence
    next evidence hgiven =>
      exact ⟨written, evidence, hdecode, hgiven,
        evidenceGiven_of_validate hevidence⟩

/-- The legacy schema lets through what continues without routing, with any
prompt. -/
theorem convertDecisionLegacy_eq_ok {legacy : CoordinatorDecisionLegacy}
    {status : AutoCoordinatorStatus} {options : DecisionParseOptions}
    {decision : ParsedCoordinatorDecision}
    (h : convertDecisionLegacy legacy status options = .ok decision) :
    status = .continues ∧ options.requireCliModelRouting = false ∧
      decision.status = .continues ∧
      ∃ prompt cleaned action, legacy.cliPrompt = some prompt ∧
        cleanRequired prompt "cli_prompt".toList = .ok cleaned ∧
        decision.cli = some action ∧ action.prompt = cleaned := by
  rw [convertDecisionLegacy] at h
  split at h
  next => cases h
  next hstatus =>
    have hcontinues : status = .continues := by
      cases status with
      | continues => rfl
      | success => exact absurd (Or.inl rfl) hstatus
      | failed => exact absurd (Or.inr rfl) hstatus
    split at h
    next => cases h
    next hrouting =>
      split at h
      next => cases h
      next prompt hprompt =>
        obtain ⟨cleaned, hcleaned, h⟩ := bind_eq_ok.1 h
        cases h
        exact ⟨hcontinues, Bool.eq_false_iff.2 hrouting, hcontinues,
          prompt, cleaned, _,
          hprompt, hcleaned, rfl, rfl⟩

/-- Every prompt of the legacy schema that continues without routing fits. -/
def LegacyPromptFits (options : DecisionParseOptions) (value : Json) : Prop :=
  ∀ legacy prompt cleaned, CoordinatorDecisionNew.decode value = none →
    CoordinatorDecisionLegacy.decode value = some legacy →
    parseFinishStatus legacy.finishStatus = .ok .continues →
    options.requireCliModelRouting = false → legacy.cliPrompt = some prompt →
    cleanRequired prompt "cli_prompt".toList = .ok cleaned → PromptFits cleaned

/-- A decision is read from the value of the output, in the first schema that
it fits. -/
theorem parseDecision_eq_ok {serde : SerdeJson} {raw : Text}
    {options : DecisionParseOptions}
    {decision : ParsedCoordinatorDecision} {value : Json}
    (h : parseDecision serde raw options = some (.ok (decision, value))) :
    readValue serde raw = some (.ok value) ∧
      ((∃ written status, CoordinatorDecisionNew.decode value = some written ∧
          convertDecisionNew written status options = .ok decision) ∨
        ∃ legacy status, CoordinatorDecisionNew.decode value = none ∧
          CoordinatorDecisionLegacy.decode value = some legacy ∧
          parseFinishStatus legacy.finishStatus = .ok status ∧
          convertDecisionLegacy legacy status options = .ok decision) := by
  obtain ⟨result, hread, h⟩ := Option.bind_eq_some_iff.1 h
  cases result with
  | error error => cases h
  | ok found =>
      simp only at h
      split at h
      next written hwritten =>
        obtain ⟨status, -, h⟩ := bind_eq_ok.1 (Option.some.inj h)
        obtain ⟨parsed, hparsed, h⟩ := bind_eq_ok.1 h
        cases h
        exact ⟨hread, .inl ⟨written, status, hwritten, hparsed⟩⟩
      next hnew =>
        split at h
        next =>
          obtain ⟨error, -, h⟩ := Option.bind_eq_some_iff.1 h
          cases h
        next legacy hlegacy =>
          obtain ⟨status, hstatus, h⟩ := bind_eq_ok.1 (Option.some.inj h)
          obtain ⟨parsed, hparsed, h⟩ := bind_eq_ok.1 h
          cases h
          exact ⟨hread, .inr ⟨legacy, status, hnew, hlegacy, hstatus, hparsed⟩⟩

theorem parseDecision_of_legacy {serde : SerdeJson} {raw : Text}
    {options : DecisionParseOptions} {value : Json}
    {legacy : CoordinatorDecisionLegacy}
    {prompt cleaned : Text} (hread : readValue serde raw = some (.ok value))
    (hnew : CoordinatorDecisionNew.decode value = none)
    (hlegacy : CoordinatorDecisionLegacy.decode value = some legacy)
    (hstatus : parseFinishStatus legacy.finishStatus = .ok .continues)
    (hrouting : options.requireCliModelRouting = false)
    (hprompt : legacy.cliPrompt = some prompt)
    (hcleaned : cleanRequired prompt "cli_prompt".toList = .ok cleaned) :
    ∃ decision action,
      parseDecision serde raw options = some (.ok (decision, value)) ∧
      decision.status = .continues ∧ decision.cli = some action ∧
      action.prompt = cleaned := by
  have hconvert : ∃ decision,
      convertDecisionLegacy legacy .continues options = .ok decision := by
    simp only [convertDecisionLegacy, hrouting, hprompt, hcleaned,
      reduceCtorEq, or_self,
      Bool.false_eq_true, if_false]
    exact ⟨_, rfl⟩
  obtain ⟨decision, hdecision⟩ := hconvert
  obtain ⟨-, -, hcontinues, prompt', cleaned', action, hprompt', hcleaned',
      haction, hsame⟩ :=
    convertDecisionLegacy_eq_ok hdecision
  obtain rfl := Option.some.inj (hprompt.symm.trans hprompt')
  obtain rfl := Except.ok.inj (hcleaned.symm.trans hcleaned')
  refine ⟨decision, action, ?_, hcontinues, haction, hsame⟩
  simp only [parseDecision, hread, hnew, hlegacy, hstatus, Option.bind_eq_bind,
    Option.bind_some, Option.pure_def]
  exact congrArg some (bind_eq_ok.2 ⟨_, rfl,
    bind_eq_ok.2 ⟨decision, hdecision, rfl⟩⟩)

/-- The decisions that are accepted meet the contract exactly if the prompts of
the legacy schema fit. -/
theorem parseDecision_meetsContract_iff (serde : SerdeJson) (raw : Text)
    (options : DecisionParseOptions) :
    (∀ decision value,
      parseDecision serde raw options = some (.ok (decision, value)) →
      MeetsContract options decision value) ↔
    ∀ value, readValue serde raw = some (.ok value) →
      LegacyPromptFits options value := by
  constructor
  · intro h value hread legacy prompt cleaned hnew hlegacy hstatus hrouting
      hprompt hcleaned
    obtain ⟨decision, action, haccepted, hcontinues, haction, rfl⟩ :=
      parseDecision_of_legacy hread hnew hlegacy hstatus hrouting
        hprompt hcleaned
    obtain ⟨action', haction', hfits, -⟩ :=
      (h decision value haccepted).continues hcontinues
    obtain rfl := Option.some.inj (haction.symm.trans haction')
    exact hfits
  · intro h decision value haccepted
    obtain ⟨hread, ⟨written, status, hdecode, hconvert⟩ |
      ⟨legacy, status, hnew, hlegacy, hstatus, hconvert⟩⟩ :=
      parseDecision_eq_ok haccepted
    · exact meetsContract_new hdecode hconvert
    · obtain ⟨rfl, hrouting, hcontinues, prompt, cleaned, action, hprompt,
        hcleaned, haction,
        rfl⟩ := convertDecisionLegacy_eq_ok hconvert
      have hfits :=
        h value hread legacy prompt _ hnew hlegacy hstatus hrouting
          hprompt hcleaned
      refine ⟨fun _ => ⟨action, haction, hfits, fun hrequire => ?_⟩,
        fun hne => absurd hcontinues hne⟩
      rw [hrouting] at hrequire
      cases hrequire

/-- An output that only the legacy schema reads: `agents` is a number. -/
def legacyOutput : Text :=
  "\x7b\"finish_status\":\"continue\",\"agents\":0,".toList ++
    "\"cli_prompt\":\"go\"\x7d".toList

def legacyValue : Json :=
  .object [("finish_status", .string "continue"), ("agents", .natural 0),
    ("cli_prompt", .string "go")]

/-- A prompt of two characters is accepted. -/
theorem not_meetsContract_legacyOutput :
    ¬ ∀ (serde : SerdeJson) (raw : Text) (options : DecisionParseOptions)
      (decision : ParsedCoordinatorDecision) (value : Json),
      parseDecision serde raw options = some (.ok (decision, value)) →
        MeetsContract options decision value := by
  intro h
  have hread :
      readValue ⟨fun t => if t = legacyOutput then some legacyValue else none,
      fun _ => none, fun _ => [], fun _ => []⟩ legacyOutput =
      some (.ok legacyValue) := by
    simp only [readValue, if_pos]
  have hlegacy : CoordinatorDecisionLegacy.decode legacyValue =
      some ⟨"continue".toList, none, none, none, some "go".toList, none⟩ := rfl
  have hrouting :
      (⟨false, []⟩ : DecisionParseOptions).requireCliModelRouting = false := rfl
  have hcleaned : cleanRequired "go".toList "cli_prompt".toList =
      .ok "go".toList := by decide
  obtain ⟨decision, action, haccepted, hcontinues, haction, hprompt⟩ :=
    parseDecision_of_legacy hread rfl hlegacy (by decide) hrouting rfl hcleaned
  obtain ⟨action', haction', hfits, -⟩ :=
    (h _ _ _ _ _ haccepted).continues hcontinues
  obtain rfl := Option.some.inj (haction.symm.trans haction')
  rw [hprompt] at hfits
  exact absurd hfits (by decide)

end CodeRs.AutoDrive
