import CodeRs.Compaction.Task
import CodeRs.Lib.Prefixes
import Mathlib.Algebra.GroupWithZero.Nat

/-!
# Compacted histories

What the two compaction paths of `core/src/codex/compact.rs` make of the
history when their loop has ended: the summary with the last exchanges, the
emergency history, and the results of `perform_compaction` and
`run_compact_task_inner_inline`.
-/

namespace CodeRs.Compaction

open Protocol TurnQueues

/-! ## Snippets -/

def compactUserMessageMaxTokens : ℕ := 20000

def maxCompactionSnippets : ℕ := 12

structure CompactionSnippet where
  role : String
  text : Text
  deriving DecidableEq

/-- The text of an item of content that is not empty. -/
def contentText : ContentItem → Option Text
  | .inputText text => if text = [] then none else some text
  | .outputText text => if text = [] then none else some text
  | .inputImage _ => none

def contentItemsToText (content : List ContentItem) : Option Text :=
  let pieces := content.filterMap contentText
  if pieces = [] then none else some (['\n'].intercalate pieces)

/-- `is_session_prefix_message`, which asks for two kinds of
`InputMessageKind`. -/
def isSessionPrefixMessage (text : Text) : Bool :=
  text.contains "<user_instructions>" ||
    text.contains "<environment_context>" ||
    text.contains "<environment_context_delta>"

/-- The snippet of an item, if it has one. -/
def snippetOf : ResponseItem → Option CompactionSnippet
  | .message _ role content _ _ =>
      if role ≠ "user" ∧ role ≠ "assistant" then none
      else
        match contentItemsToText content with
        | none => none
        | some text =>
            if role = "user" ∧ isSessionPrefixMessage text then none
            else
              let truncated :=
                truncateForCompact text compactTextContentMaxBytes
              if truncated.trim = [] then none else some ⟨role, truncated⟩
  | _ => none

/-- The loop over the items from the newest on, with the snippets it has and
their bytes. -/
def collectSnippets :
    List CompactionSnippet → ℕ → List ResponseItem → List CompactionSnippet
  | snippets, _, [] => snippets
  | snippets, totalBytes, item :: older =>
      match snippetOf item with
      | none => collectSnippets snippets totalBytes older
      | some snippet =>
          let bytes := totalBytes + snippet.text.byteLen
          if snippets.length ≥ maxCompactionSnippets then snippets
          else if snippets ≠ [] ∧ bytes > compactUserMessageMaxTokens * 4 then
            snippets
          else collectSnippets (snippet :: snippets) bytes older

def collectCompactionSnippets (items : List ResponseItem) :
    List CompactionSnippet :=
  collectSnippets [] 0 items.reverse

/-! ## Summaries -/

def lastOutputText (content : List ContentItem) : Option Text :=
  content.reverse.findSome? fun item =>
    match item with
    | .outputText text => some text
    | _ => none

/-- The text that an item gives to `get_last_assistant_message_from_turn`. -/
def assistantText : ResponseItem → Option Text
  | .message _ role content _ _ =>
  if role = "assistant" then lastOutputText content else none
  | _ => none

def getLastAssistantMessageFromTurn (responses : List ResponseItem) :
    Option Text :=
  responses.reverse.findSome? assistantText

/-- `render_compaction_summary`, with the template
`compact/history_bridge.md`. -/
def renderCompactionSummary (snippets : List CompactionSnippet)
    (summaryText : Text) :
    Text :=
  let normalizedSummary :=
    if summaryText.trim = [] then "(no summary available)".toList
      else summaryText
  let exchanges :=
    if snippets = [] then "- (no user or assistant messages recorded)\n".toList
    else snippets.flatMap fun snippet =>
      "- (".toList ++ snippet.role.toList ++ ") ".toList ++
        snippet.text ++ ['\n']
  "[Compaction Summary]\n\nRecent exchanges (newest last):\n".toList ++
    exchanges ++
    "\n\nKey takeaways:\n".toList ++ normalizedSummary

def makeCompactionSummaryMessage (snippets : List CompactionSnippet)
    (summaryText : Text) :
    ResponseItem :=
  .ofText "user" (.inputText (renderCompactionSummary snippets summaryText))

def buildCompactedHistory (initialContext : List ResponseItem)
    (snippets : List CompactionSnippet) (summaryText : Text) :
    List ResponseItem :=
  initialContext ++ [makeCompactionSummaryMessage snippets summaryText]

def compactionEmergencyMessage : Text :=
  "⚠️ Compaction failed: The conversation history is too large to ".toList ++
    "compact within the model's context limits. The history has been ".toList ++
    "reset to prevent further errors. Please start a new session or ".toList ++
    "manually reduce context by clearing history.".toList

def buildEmergencyCompactedHistory (initialContext : List ResponseItem)
    (warningMessage : Text) : List ResponseItem :=
  initialContext ++ [.ofText "user" (.inputText warningMessage)]

/-- The history of `apply_emergency_compaction_fallback`. -/
def emergencyHistory (sess : Session) (reason : Text) : List ResponseItem :=
  buildEmergencyCompactedHistory sess.initialContext
    (if reason.trim = [] then compactionEmergencyMessage
    else reason ++ ' ' :: compactionEmergencyMessage)

/-! ## The two paths -/

/-- What `perform_compaction` has done: the history of the session, the
snapshot and the text that it has summarised, and its result, if it has
returned. -/
structure PerformRun where
  history : List ResponseItem
  summary : Option (List ResponseItem × Text)
  result : Option (Except CodexErr Unit)

variable (sess : Session) (turnContext : TurnContext) (outside : Outside)
  (input : List InputItem)

def performCompaction (attempts : List Attempt) : PerformRun :=
  let run := performCompactionLoop sess turnContext outside input attempts
  match run.ending with
  | none => ⟨run.state.history, none, none⟩
  | some .completed =>
      let historySnapshot := run.state.history
      let summaryText :=
        (getLastAssistantMessageFromTurn historySnapshot).getD []
      let snippets := collectCompactionSnippets historySnapshot
      ⟨buildCompactedHistory sess.initialContext snippets summaryText,
        some (historySnapshot, summaryText), some (.ok ())⟩
  | some .interrupted => ⟨run.state.history, none, some (.error .interrupted)⟩
  | some (.usageLimit reason) =>
      ⟨emergencyHistory sess reason, none, some (.error .usageLimitReached)⟩
  | some (.overflow e reason) =>
      ⟨emergencyHistory sess reason, none, some (.error e)⟩
  | some (.failed e) => ⟨run.state.history, none, some (.error e)⟩

/-- `run_compact_task_inner_inline`: the history of the session, and the
history that is returned, if it has returned. -/
def runCompactTaskInnerInline (attempts : List Attempt) :
    List ResponseItem × Option (List ResponseItem) :=
  let run :=
    runCompactTaskInnerInlineLoop sess turnContext outside input attempts
  match run.ending with
  | none => (run.state.history, none)
  | some .completed =>
      let historySnapshot := run.state.history
      let newHistory := buildCompactedHistory sess.initialContext
        (collectCompactionSnippets historySnapshot)
        ((getLastAssistantMessageFromTurn historySnapshot).getD [])
      (recordItems [] newHistory, some newHistory)
  | some .interrupted => (run.state.history, some [])
  | some (.usageLimit reason) =>
      (emergencyHistory sess reason, some (emergencyHistory sess reason))
  | some (.overflow _ reason) =>
      (emergencyHistory sess reason, some (emergencyHistory sess reason))
  | some (.failed _) => (run.state.history, some [])

end CodeRs.Compaction

/-! ## The snippets of a compaction

`collect_compaction_snippets` of `core/src/codex/compact.rs` scans the history
from its end with two budgets, of which the first snippet is free. -/

namespace CodeRs.Compaction

open Protocol (ResponseItem)
open Suffixes

/-- The snippets that the history has, the oldest first. -/
def eligibleSnippets (items : List ResponseItem) : List CompactionSnippet :=
  items.filterMap snippetOf

def snippetBytes (snippets : List CompactionSnippet) : ℕ :=
  (snippets.map fun snippet => snippet.text.byteLen).sum

/-- The two budgets.  One snippet may have any size. -/
def FitsBudgets (snippets : List CompactionSnippet) : Prop :=
  snippets.length ≤ maxCompactionSnippets ∧
    (snippets.length ≤ 1 ∨
      snippetBytes snippets ≤ compactUserMessageMaxTokens * 4)

instance : DecidablePred FitsBudgets := fun snippets =>
  inferInstanceAs (Decidable (snippets.length ≤ maxCompactionSnippets ∧
    (snippets.length ≤ 1 ∨
      snippetBytes snippets ≤ compactUserMessageMaxTokens * 4)))

theorem FitsBudgets.of_suffix {s t : List CompactionSnippet}
    (ht : FitsBudgets t)
    (hst : s <:+ t) : FitsBudgets s := by
  obtain ⟨older, rfl⟩ := hst
  obtain ⟨hlength, hbytes⟩ := ht
  rw [List.length_append] at hlength hbytes
  rw [snippetBytes, List.map_append, List.sum_append] at hbytes
  refine ⟨by omega, hbytes.imp (fun hone => by omega) fun hle => ?_⟩
  exact (Nat.le_add_left _ _).trans hle

/-- The loop takes snippets for as long as they fit. -/
theorem collectSnippets_eq_grow (snippets : List CompactionSnippet)
    (items : List ResponseItem) :
    collectSnippets snippets (snippetBytes snippets) items =
      grow FitsBudgets snippets (items.filterMap snippetOf) := by
  induction items generalizing snippets with
  | nil => rfl
  | cons item items ih =>
      rw [collectSnippets]
      cases hsnippet : snippetOf item with
      | none =>
          rw [List.filterMap_cons_none hsnippet]
          exact ih snippets
      | some snippet =>
          have hbytes : snippetBytes snippets + snippet.text.byteLen =
              snippetBytes (snippet :: snippets) := Nat.add_comm _ _
          rw [List.filterMap_cons_some hsnippet, grow]
          simp only [hbytes, ih]
          by_cases hfits : FitsBudgets (snippet :: snippets)
          · have hcount : ¬ maxCompactionSnippets ≤ snippets.length :=
              Nat.not_le.2 hfits.1
            rw [if_pos hfits, if_neg hcount, if_neg]
            rintro ⟨hne, hlt⟩
            rcases hfits.2 with hone | hle
            · have hzero : snippets.length = 0 :=
                Nat.le_zero.1 (Nat.le_of_succ_le_succ hone)
              exact hne (List.eq_nil_of_length_eq_zero hzero)
            · exact Nat.not_lt.2 hle hlt
          · rw [if_neg hfits]
            by_cases hcount : maxCompactionSnippets ≤ snippets.length
            · exact if_pos hcount
            · rw [if_neg hcount, if_pos]
              refine ⟨fun hnil => hfits ?_, Nat.not_le.1 fun hle => hfits ?_⟩
              · subst hnil
                exact ⟨Nat.not_le.1 hcount, .inl (Nat.le_refl 1)⟩
              · exact ⟨Nat.not_le.1 hcount, .inr hle⟩

/-- What is collected is, in the order of the history, the longest run of its
last snippets that fits the budgets, and the last snippet is always
collected. -/
theorem collectCompactionSnippets_longest (items : List ResponseItem) :
    IsLongestSuffix FitsBudgets (eligibleSnippets items)
      (collectCompactionSnippets items) ∧
      (collectCompactionSnippets items).getLast? =
        (eligibleSnippets items).getLast? := by
  have hlongest : IsLongestSuffix FitsBudgets (eligibleSnippets items)
      (collectCompactionSnippets items) := by
    have hgrow : IsLongestSuffix FitsBudgets
        ((items.reverse.filterMap snippetOf).reverse ++ [])
        (grow FitsBudgets [] (items.reverse.filterMap snippetOf)) :=
      grow_isLongestSuffix (fun s t => FitsBudgets.of_suffix)
        ⟨Nat.zero_le _, .inl (Nat.zero_le _)⟩
    rw [← collectSnippets_eq_grow, List.filterMap_reverse, List.reverse_reverse,
      List.append_nil] at hgrow
    exact hgrow
  exact ⟨hlongest, hlongest.getLast?_eq fun snippet =>
    ⟨Nat.succ_le_of_lt (by decide), .inl (Nat.le_refl 1)⟩⟩

end CodeRs.Compaction
