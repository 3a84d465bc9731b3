import CodeRs.Compaction.Atomicity
import CodeRs.Compaction.Persistence

/-!
# The history after a replay

A replay of the rollout gives the live history, but for what the clean-ups have
pruned, and builds the live bridge messages, exactly as long as the streams of
the compactions record nothing that counts, no compaction ends in the emergency
fallback or with a history from the service, nothing is put behind a compacted
history, and the clean-ups prune nothing but items about the status and the
environment.
-/

namespace CodeRs.Compaction

open Protocol TurnQueues Retention

namespace LiveSession

variable (context : InitialContext) (s : LiveSession)

/-! ## What should hold -/

/-- An item that is not about the status or the environment. -/
def isKept (item : ResponseItem) : Bool := isMessage (categorizeItem item)

/-- A replay of the rollout gives the live history, with the initial context
and what the clean-ups have pruned, which are only items about the status and
the environment, and it builds the live bridge messages. -/
structure SameOnReplay : Prop where
  rebuilt : reconstructHistoryFromRollout context s.rollout =
    s.withContext context
  pruned : s.history.filter isKept = s.unpruned.history.filter isKept

/-- A message that is persisted, but not kept in a history. -/
def isSystemMessage : ResponseItem → Bool
  | .message _ role _ _ _ => role = "system"
  | _ => false

/-- A history of an emergency fallback and what is put behind it are there
already. -/
def FallbackKeeps (sess : Session) (behind : List ResponseItem)
    (reason : Text) : Prop :=
  emergencyHistory (s.session context sess) reason ++ behind =
    (s.withContext context).history

/-- A local compaction records nothing that counts: none of the snippets that
it collects, when it succeeds, and nothing at all, when it fails.  Nothing is
put behind the compacted history, and the fallback changes nothing. -/
def LoopKeeps (call : LocalCompaction) (run : LoopRun)
    (behind : List ResponseItem) : Prop :=
  match run.ending with
  | some .completed =>
      collectCompactionSnippets (s.history ++
        recordedBy (run.made call.attempts)) =
        collectCompactionSnippets (s.withContext context).history ∧ behind = []
  | some (.usageLimit reason) => s.FallbackKeeps context call.sess behind reason
  | some (.overflow _ reason) => s.FallbackKeeps context call.sess behind reason
  | _ => recordedBy (run.made call.attempts) = []

/-- A step that a replay gets right. -/
def KeepsReplay : SessionTurn → Prop
  | .record items => ∀ item ∈ items, isSystemMessage item = false
  | .cleanup (some policy) => BudgetSpares isMessage policy s.history
  | .cleanup none => True
  | .perform call => s.LoopKeeps context call (s.performLoop context call) []
  | .inline call pending =>
      s.LoopKeeps context call (s.inlineLoop context call)
        (pending.behind context.items)
  | .remote _ (.compacted _) _ => False
  | .remote sess ending pending =>
      ∀ reason ∈ ending.reason,
        s.FallbackKeeps context sess (pending.behind context.items) reason

variable {context} {s}

/-! ## Recorded items -/

theorem shouldPersistResponseItem_eq (item : ResponseItem) :
    shouldPersistResponseItem item =
      (isApiMessage item || isSystemMessage item) := by
  cases item with
  | message id role content endTurn phase =>
      simp [shouldPersistResponseItem, isApiMessage, isSystemMessage]
  | _ => rfl

theorem isApiMessage_of_isSystemMessage {item : ResponseItem}
    (h : isSystemMessage item = true) :
    isApiMessage item = false := by
  cases item with
  | message id role content endTurn phase =>
      have hrole : role = "system" := of_decide_eq_true h
      simp [isApiMessage, hrole]
  | _ => cases h

theorem filter_shouldPersist_eq_iff (items : List ResponseItem) :
    items.filter shouldPersistResponseItem = items.filter isApiMessage ↔
      ∀ item ∈ items, isSystemMessage item = false := by
  constructor
  · intro h item hitem
    rw [Bool.eq_false_iff]
    intro hsystem
    have hmem : item ∈ items.filter shouldPersistResponseItem := by
      rw [List.mem_filter, shouldPersistResponseItem_eq, hsystem, Bool.or_true]
      exact ⟨hitem, rfl⟩
    rw [h] at hmem
    have hapi := (List.mem_filter.1 hmem).2
    rw [isApiMessage_of_isSystemMessage hsystem] at hapi
    cases hapi
  · intro h
    apply List.filter_congr
    intro item hitem
    rw [shouldPersistResponseItem_eq, h item hitem, Bool.or_false]

theorem foldl_replayItem (items : List ResponseItem)
    (replayed : BridgedHistory) :
    ((items.map .responseItem).foldl (replayItem context) replayed) =
      { replayed with history := replayed.history ++ items } := by
  induction items generalizing replayed with
  | nil =>
      simp
  | cons item rest ih =>
      rw [List.map_cons, List.foldl_cons, ih]
      simp [replayItem]

/-! ## One step -/

theorem extend_iff (h : s.SameOnReplay context)
    (items persisted : List ResponseItem) :
    SameOnReplay context
        { s.extend items with
          rollout := s.rollout ++ persisted.map RolloutItem.responseItem } ↔
      persisted = items := by
  have hview : (s.extend items).withContext context =
      ⟨(s.withContext context).history ++ items, s.unpruned.bridges⟩ := by
    change BridgedHistory.mk (s.missingContext context ++
      (s.unpruned.history ++ items)) _ = _
    rw [← List.append_assoc]
    rfl
  have hrebuilt : reconstructHistoryFromRollout context
        (s.rollout ++ persisted.map RolloutItem.responseItem) =
          (s.extend items).withContext context ↔ persisted = items := by
    refine (Rebuilt.append_iff h.rebuilt _).trans ?_
    rw [foldl_replayItem, hview]
    constructor
    · intro heq
      exact List.append_cancel_left (congrArg BridgedHistory.history heq)
    · rintro rfl
      rfl
  constructor
  · intro hnext
    exact hrebuilt.1 hnext.rebuilt
  · intro heq
    refine ⟨hrebuilt.2 heq, ?_⟩
    change (s.history ++ items).filter isKept =
      (s.unpruned.history ++ items).filter isKept
    rw [List.filter_append, List.filter_append, h.pruned]

theorem record_iff (h : s.SameOnReplay context) (items : List ResponseItem) :
    (s.recordConversationItems items).SameOnReplay context ↔
      ∀ item ∈ items, isSystemMessage item = false := by
  rw [← filter_shouldPersist_eq_iff]
  exact extend_iff h _ _

theorem extend_unrecorded_iff (h : s.SameOnReplay context)
    (items : List ResponseItem) :
    (s.extend items).SameOnReplay context ↔ items = [] := by
  have hextend := extend_iff h items []
  rw [List.map_nil, List.append_nil] at hextend
  exact hextend.trans eq_comm

theorem cleanup_iff (h : s.SameOnReplay context)
    (hapi : ∀ item ∈ s.history, isApiMessage item)
    (policy : Option RetentionPolicy) :
    (s.cleanupOldStatusItems policy).SameOnReplay context ↔
      s.KeepsReplay context (.cleanup policy) := by
  have hpruned : (s.cleanupOldStatusItems policy).SameOnReplay context ↔
      (s.cleanupOldStatusItems policy).history.filter isKept =
        s.history.filter isKept := by
    rw [h.pruned]
    constructor
    · intro hnext
      exact hnext.pruned
    · intro heq
      exact ⟨h.rebuilt, heq⟩
  have hrecord : ∀ items, items ⊆ s.history → recordItems [] items = items :=
    fun items hitems => List.filter_eq_self.2 fun item hitem =>
      hapi item (hitems hitem)
  rw [hpruned]
  cases policy with
  | some policy =>
      rw [cleanupOldStatusItems, hrecord _ out_sublist.subset]
      exact messages_iff
  | none =>
      rw [cleanupOldStatusItems,
        hrecord _ (pruneHistoryItemsOwned_sublist _).subset]
      exact iff_of_true (messages_pruneHistoryItemsOwned _) trivial

theorem fallback_iff (h : s.SameOnReplay context)
    (newHistory : List ResponseItem) :
    (s.fallback newHistory).SameOnReplay context ↔
      newHistory = (s.withContext context).history := by
  constructor
  · intro hnext
    have hview := (Rebuilt.iff_eq h.rebuilt).1 hnext.rebuilt
    exact (congrArg BridgedHistory.history hview).symm
  · rintro rfl
    exact ⟨h.rebuilt, rfl⟩

/-- Both build the same bridge message from the same snippets, and only the
live session has something behind it. -/
theorem compacted_iff (h : s.SameOnReplay context)
    {historySnapshot newHistory behind : List ResponseItem}
    (hnew : newHistory = buildCompactedHistory context.items
      (collectCompactionSnippets historySnapshot)
      ((getLastAssistantMessageFromTurn historySnapshot).getD [])) :
    ((s.compacted historySnapshot newHistory).extend behind).SameOnReplay
      context ↔
      collectCompactionSnippets historySnapshot =
        collectCompactionSnippets (s.withContext context).history ∧
        behind = [] := by
  subst hnew
  constructor
  · intro hnext
    have hview := (Rebuilt.append_iff h.rebuilt _).1 hnext.rebuilt
    have hbridges := congrArg BridgedHistory.bridges hview
    have hlast := List.append_cancel_left hbridges
    have hsnippets : collectCompactionSnippets historySnapshot =
        collectCompactionSnippets (s.withContext context).history :=
      (congrArg Prod.fst (List.singleton_injective hlast)).symm
    have hhistory : buildCompactedHistory context.items
          (collectCompactionSnippets (s.withContext context).history) _ =
        buildCompactedHistory context.items
          (collectCompactionSnippets historySnapshot) _ ++
          behind := congrArg BridgedHistory.history hview
    rw [← hsnippets] at hhistory
    exact ⟨hsnippets, List.self_eq_append_right.1 hhistory⟩
  · rintro ⟨heq, rfl⟩
    refine ⟨(Rebuilt.append_iff h.rebuilt _).2 ?_, rfl⟩
    change BridgedHistory.mk _ _ = BridgedHistory.mk (_ ++ []) _
    rw [← heq, List.append_nil]
    rfl

/-! ## Pending outputs -/

theorem rebuild_rollout (pending : PendingTurn)
    (compactedHistory : List ResponseItem) :
    (s.rebuild pending compactedHistory).rollout = s.rollout := by
  rw [rebuild]
  split <;> rfl

theorem rebuild_bridges (pending : PendingTurn)
    (compactedHistory : List ResponseItem) :
    (s.rebuild pending compactedHistory).unpruned.bridges =
      s.unpruned.bridges := by
  rw [rebuild]
  split <;> rfl

/-- The message behind the initial context is no call. -/
theorem behind_append_ofText (pending : PendingTurn) (content : ContentItem) :
    pending.behind (context.items ++ [.ofText "user" content]) =
      pending.behind context.items := by
  have hids :
      Agent.collectToolCallIds (context.items ++ [.ofText "user" content]) =
      Agent.collectToolCallIds context.items := by
    rw [Agent.collectToolCallIds, List.filterMap_append]
    exact List.append_nil _
  rw [PendingTurn.behind, Agent.reconcilePendingToolOutputs, hids]
  rfl

theorem rebuild_append_ofText (pending : PendingTurn) (content : ContentItem) :
    s.rebuild pending (context.items ++ [.ofText "user" content]) =
      { s with
        history := context.items ++ [.ofText "user" content] ++
          pending.behind context.items
        unpruned :=
          ⟨context.items ++ [.ofText "user" content] ++
            pending.behind context.items,
            s.unpruned.bridges⟩ } := by
  rw [rebuild, behind_append_ofText, if_neg (by simp)]

theorem fallback_rebuild (sess : Session) (reason : Text)
    (pending : PendingTurn) :
    (s.fallback (emergencyHistory (s.session context sess) reason)).rebuild
      pending
        (emergencyHistory (s.session context sess) reason) =
      s.fallback (emergencyHistory (s.session context sess) reason ++
        pending.behind context.items) :=
  rebuild_append_ofText pending _

/-- A history from the service comes without a bridge message. -/
theorem not_sameOnReplay_remote (h : s.SameOnReplay context) (sess : Session)
    (newHistory : List ResponseItem) (pending : PendingTurn) :
    ¬ (s.next context
      (.remote sess (.compacted newHistory) pending)).SameOnReplay context := by
  intro hnext
  have hrebuilt := hnext.rebuilt
  simp only [next, rebuild_rollout] at hrebuilt
  have hview := (Rebuilt.append_iff h.rebuilt _).1 hrebuilt
  have hbridges := congrArg BridgedHistory.bridges hview
  simp only [withContext, rebuild_bridges] at hbridges
  exact absurd (List.self_eq_append_right.1 hbridges.symm)
    (List.cons_ne_nil _ _)

/-! ## Compactions -/

theorem api_recordItems (items : List ResponseItem) :
    ∀ item ∈ recordItems [] items, isApiMessage item :=
  fun _ hitem => (List.mem_filter.1 hitem).2

theorem api_append_ofText (content : ContentItem) :
    ∀ item ∈ context.items ++ [.ofText "user" content], isApiMessage item := by
  intro item hitem
  obtain hitem | hitem := List.mem_append.1 hitem
  · exact context.api item hitem
  · rw [List.mem_singleton.1 hitem]
    rfl

theorem api_buildCompactedHistory (snippets : List CompactionSnippet)
    (summary : Text) :
    ∀ item ∈ buildCompactedHistory context.items snippets summary,
      isApiMessage item :=
  api_append_ofText _

theorem api_emergencyHistory (sess : Session) (reason : Text) :
    ∀ item ∈ emergencyHistory (s.session context sess) reason,
      isApiMessage item :=
  api_append_ofText _

/-- The bridge message is kept by `record_items`. -/
theorem recordItems_buildCompactedHistory (snippets : List CompactionSnippet)
    (summary : Text) :
    recordItems [] (buildCompactedHistory context.items snippets summary) =
      buildCompactedHistory context.items snippets summary :=
  List.filter_eq_self.2 (api_buildCompactedHistory snippets summary)

theorem performLoop_history (call : LocalCompaction) :
    (s.performLoop context call).state.history =
      s.history ++
        recordedBy ((s.performLoop context call).made call.attempts) :=
  compactLoop_made ..

theorem inlineLoop_history (call : LocalCompaction) :
    (s.inlineLoop context call).state.history =
      s.history ++
        recordedBy ((s.inlineLoop context call).made call.attempts) :=
  compactLoop_made ..

variable (context) (s) in
/-- The history that both paths leave at the end of their loop. -/
def settledHistory (sess : Session) (run : LoopRun) : List ResponseItem :=
  match run.ending with
  | some .completed => buildCompactedHistory context.items
      (collectCompactionSnippets run.state.history)
      ((getLastAssistantMessageFromTurn run.state.history).getD [])
  | some (.usageLimit reason) =>
      emergencyHistory (s.session context sess) reason
  | some (.overflow _ reason) =>
      emergencyHistory (s.session context sess) reason
  | _ => run.state.history

theorem performCompaction_history (call : LocalCompaction) :
    (performCompaction (s.session context call.sess) call.turnContext
      call.outside call.input
      call.attempts).history =
      s.settledHistory context call.sess (s.performLoop context call) := by
  simp only [performCompaction, performLoop, settledHistory]
  cases (performCompactionLoop (s.session context call.sess)
    call.turnContext call.outside
      call.input call.attempts).ending with
  | none => rfl
  | some ending => cases ending <;> rfl

theorem runCompactTaskInnerInline_history (call : LocalCompaction) :
    (runCompactTaskInnerInline (s.session context call.sess)
      call.turnContext call.outside
      call.input call.attempts).1 =
      s.settledHistory context call.sess (s.inlineLoop context call) := by
  simp only [runCompactTaskInnerInline, inlineLoop, settledHistory]
  cases (runCompactTaskInnerInlineLoop (s.session context call.sess)
    call.turnContext call.outside
      call.input call.attempts).ending with
  | none => rfl
  | some ending =>
      cases ending with
      | completed => exact recordItems_buildCompactedHistory _ _
      | _ => rfl

variable (context) (s) in
/-- The history that is returned at the end of an inline loop. -/
def returnedHistory (sess : Session) (run : LoopRun) : List ResponseItem :=
  match run.ending with
  | some .completed => buildCompactedHistory context.items
      (collectCompactionSnippets run.state.history)
      ((getLastAssistantMessageFromTurn run.state.history).getD [])
  | some (.usageLimit reason) =>
      emergencyHistory (s.session context sess) reason
  | some (.overflow _ reason) =>
      emergencyHistory (s.session context sess) reason
  | _ => []

theorem runCompactTaskInnerInline_returned (call : LocalCompaction) :
    (runCompactTaskInnerInline (s.session context call.sess)
      call.turnContext call.outside
      call.input call.attempts).2.getD [] =
      s.returnedHistory context call.sess (s.inlineLoop context call) := by
  simp only [runCompactTaskInnerInline, inlineLoop, returnedHistory]
  cases (runCompactTaskInnerInlineLoop (s.session context call.sess)
    call.turnContext call.outside
      call.input call.attempts).ending with
  | none => rfl
  | some ending => cases ending <;> rfl

variable (context) (s) in
/-- The session after a local compaction, with the pending outputs behind its
history. -/
def settled (call : LocalCompaction) (run : LoopRun) (pending : PendingTurn) :
    LiveSession :=
  (s.afterLoop run (s.settledHistory context call.sess run)).rebuild pending
    (s.returnedHistory context call.sess run)

theorem next_inline (call : LocalCompaction) (pending : PendingTurn) :
    s.next context (.inline call pending) =
      s.settled context call (s.inlineLoop context call) pending := by
  rw [settled, ← runCompactTaskInnerInline_history,
    ← runCompactTaskInnerInline_returned]
  rfl

theorem extend_nil : s.extend [] = s := by
  simp [extend]

theorem settled_eq {call : LocalCompaction} {run : LoopRun}
    (hrun : run.state.history =
      s.history ++ recordedBy (run.made call.attempts))
    (pending : PendingTurn) :
    s.settled context call run pending =
      match run.ending with
      | some .completed =>
          (s.compacted run.state.history
            (s.settledHistory context call.sess run)).extend
            (pending.behind context.items)
      | some (.usageLimit reason) =>
          s.fallback (emergencyHistory (s.session context call.sess) reason ++
            pending.behind context.items)
      | some (.overflow _ reason) =>
          s.fallback (emergencyHistory (s.session context call.sess) reason ++
            pending.behind context.items)
      | _ => s.extend (recordedBy (run.made call.attempts)) := by
  have hdrop : run.state.history.drop s.history.length =
      recordedBy (run.made call.attempts) := by
    rw [hrun, List.drop_left]
  rw [settled, afterLoop, returnedHistory]
  cases hend : run.ending with
  | none =>
      simp only [settledHistory, hend, hdrop]
      rfl
  | some ending =>
      cases ending with
      | completed =>
          simp only [settledHistory, hend]
          exact rebuild_append_ofText pending _
      | usageLimit reason | overflow e reason =>
          simp only [settledHistory, hend]
          exact fallback_rebuild call.sess reason pending
      | interrupted | failed e =>
          simp only [settledHistory, hend, hdrop]
          rfl

/-- Nothing is put behind the history of `perform_compaction`. -/
theorem next_perform (call : LocalCompaction) :
    s.next context (.perform call) =
      s.settled context call (s.performLoop context call) ⟨[], []⟩ := by
  have hrun : (s.performLoop context call).state.history =
      s.history ++
        recordedBy ((s.performLoop context call).made call.attempts) :=
    performLoop_history call
  have hdrop :
      (s.performLoop context call).state.history.drop s.history.length =
      recordedBy ((s.performLoop context call).made call.attempts) := by
    rw [hrun, List.drop_left]
  rw [next, performCompaction_history, settled_eq hrun, afterLoop]
  cases hend : (s.performLoop context call).ending with
  | none =>
      simp only [settledHistory, hend]
      rw [hdrop]
  | some ending =>
      cases ending with
      | completed => exact extend_nil.symm
      | usageLimit reason | overflow e reason =>
          simp only [settledHistory, hend]
          exact congrArg s.fallback (List.append_nil _).symm
      | interrupted | failed e =>
          simp only [settledHistory, hend]
          rw [hdrop]

theorem settled_iff (h : s.SameOnReplay context) {call : LocalCompaction}
    {run : LoopRun}
    (hrun : run.state.history =
      s.history ++ recordedBy (run.made call.attempts))
    (pending : PendingTurn) :
    (s.settled context call run pending).SameOnReplay context ↔
      s.LoopKeeps context call run (pending.behind context.items) := by
  rw [settled_eq hrun, LoopKeeps]
  cases hend : run.ending with
  | none => exact extend_unrecorded_iff h _
  | some ending =>
      cases ending with
      | completed =>
          rw [← hrun]
          refine compacted_iff h ?_
          simp only [settledHistory, hend]
      | usageLimit reason => exact fallback_iff h _
      | overflow e reason => exact fallback_iff h _
      | interrupted | failed e => exact extend_unrecorded_iff h _

theorem remoteFallback_iff (h : s.SameOnReplay context) {sess : Session}
    {found : Option Text}
    {reason : Text} (hreason : found = some reason) (pending : PendingTurn) :
    ((s.fallback (emergencyHistory (s.session context sess) reason)).rebuild
      pending
        (emergencyHistory (s.session context sess) reason)).SameOnReplay
        context ↔
      ∀ reason ∈ found,
        s.FallbackKeeps context sess (pending.behind context.items) reason := by
  subst hreason
  rw [fallback_rebuild, fallback_iff h]
  constructor
  · intro heq r hr
    cases hr
    exact heq
  · intro hall
    exact hall reason rfl

/-- The histories have nothing but messages for the model. -/
structure OnlyApi (s : LiveSession) : Prop where
  history : ∀ item ∈ s.history, isApiMessage item
  unpruned : ∀ item ∈ s.unpruned.history, isApiMessage item

variable (hapi : s.OnlyApi)
include hapi

/-- A step keeps the agreement exactly if a replay gets it right. -/
theorem sameOnReplay_next_iff (h : s.SameOnReplay context)
    (turn : SessionTurn) :
    (s.next context turn).SameOnReplay context ↔
      s.KeepsReplay context turn := by
  cases turn with
  | record items => exact record_iff h items
  | cleanup policy => exact cleanup_iff h hapi.history policy
  | perform call =>
      rw [next_perform]
      exact settled_iff h (performLoop_history call) _
  | inline call pending =>
      rw [next_inline]
      exact settled_iff h (inlineLoop_history call) pending
  | remote sess ending pending =>
      cases ending with
      | compacted newHistory =>
          exact iff_of_false
            (not_sameOnReplay_remote h sess newHistory pending) id
      | usageLimit => exact remoteFallback_iff h rfl pending
      | overflow truncatedCount => exact remoteFallback_iff h rfl pending
      | failed => exact iff_of_true h nofun

theorem api_withContext :
    ∀ item ∈ (s.withContext context).history, isApiMessage item := by
  intro item hitem
  obtain hitem | hitem := List.mem_append.1 hitem
  · rw [missingContext] at hitem
    split at hitem
    · cases hitem
    · exact context.api item hitem
  · exact hapi.unpruned item hitem

theorem onlyApi_extend {items : List ResponseItem}
    (hitems : ∀ item ∈ items, isApiMessage item) :
    (s.extend items).OnlyApi where
  history item hitem :=
    (List.mem_append.1 hitem).elim (hapi.history item) (hitems item)
  unpruned item hitem :=
    (List.mem_append.1 hitem).elim (hapi.unpruned item) (hitems item)

theorem onlyApi_fallback {newHistory : List ResponseItem}
    (hnew : newHistory = (s.withContext context).history) :
    (s.fallback newHistory).OnlyApi := by
  subst hnew
  exact ⟨api_withContext hapi, api_withContext hapi⟩

theorem onlyApi_settled {call : LocalCompaction} {run : LoopRun}
    {pending : PendingTurn}
    (hrun : run.state.history =
      s.history ++ recordedBy (run.made call.attempts))
    (hkeeps : s.LoopKeeps context call run (pending.behind context.items)) :
    (s.settled context call run pending).OnlyApi := by
  have hunrecorded : recordedBy (run.made call.attempts) = [] →
      (s.extend (recordedBy (run.made call.attempts))).OnlyApi := by
    intro hnone
    rw [hnone, extend_nil]
    exact hapi
  rw [settled_eq hrun]
  rw [LoopKeeps] at hkeeps
  cases hend : run.ending with
  | none =>
      rw [hend] at hkeeps
      exact hunrecorded hkeeps
  | some ending =>
      rw [hend] at hkeeps
      cases ending with
      | completed =>
          simp only [settledHistory, hend]
          rw [hkeeps.2, extend_nil]
          exact ⟨api_buildCompactedHistory _ _, api_buildCompactedHistory _ _⟩
      | usageLimit reason => exact onlyApi_fallback hapi hkeeps
      | overflow e reason => exact onlyApi_fallback hapi hkeeps
      | interrupted | failed e => exact hunrecorded hkeeps

/-- A step that a replay gets right leaves nothing but messages for the
model. -/
theorem onlyApi_next {turn : SessionTurn}
    (hkeeps : s.KeepsReplay context turn) :
    (s.next context turn).OnlyApi := by
  cases turn with
  | record items =>
      have hextend := onlyApi_extend hapi (api_recordItems items)
      exact ⟨hextend.history, hextend.unpruned⟩
  | cleanup policy => exact ⟨api_recordItems _, hapi.unpruned⟩
  | perform call =>
      rw [next_perform]
      exact onlyApi_settled hapi (performLoop_history call) hkeeps
  | inline call pending =>
      rw [next_inline]
      exact onlyApi_settled hapi (inlineLoop_history call) hkeeps
  | remote sess ending pending =>
      cases ending with
      | compacted newHistory => exact hkeeps.elim
      | usageLimit =>
          simp only [next, RemoteEnd.reason, fallback_rebuild]
          exact onlyApi_fallback hapi (hkeeps _ rfl)
      | overflow truncatedCount =>
          simp only [next, RemoteEnd.reason, fallback_rebuild]
          exact onlyApi_fallback hapi (hkeeps _ rfl)
      | failed => exact hapi

omit hapi

/-! ## Every run -/

theorem sameOnReplay_start (contextual : Bool) :
    (start context contextual).SameOnReplay context := by
  refine ⟨?_, rfl⟩
  cases contextual with
  | true => rfl
  | false => exact congrArg (BridgedHistory.mk · []) (List.append_nil _).symm

theorem onlyApi_start (contextual : Bool) :
    (start context contextual).OnlyApi := by
  cases contextual with
  | true => exact ⟨context.api, context.api⟩
  | false => exact ⟨List.forall_mem_nil _, List.forall_mem_nil _⟩

/-- In a run of a session a replay gives the live history throughout exactly if
it gets every step right. -/
theorem throughout_sameOnReplay_iff (context : InitialContext)
    (contextual : Bool)
    (turns : List SessionTurn) :
    Throughout (next context) (SameOnReplay context)
      (start context contextual) turns ↔
      Along (next context) (KeepsReplay context)
        (start context contextual) turns := by
  let inv : LiveSession → Prop := fun s => s.SameOnReplay context ∧ s.OnlyApi
  have hstart : inv (start context contextual) :=
    ⟨sameOnReplay_start contextual, onlyApi_start contextual⟩
  have hstep : ∀ s turn, inv s → s.KeepsReplay context turn →
      inv (s.next context turn) :=
    fun s turn h hkeeps =>
      ⟨(sameOnReplay_next_iff h.2 h.1 turn).2 hkeeps, onlyApi_next h.2 hkeeps⟩
  have hadmitted : ∀ s turn, inv s →
      (s.next context turn).SameOnReplay context →
      s.KeepsReplay context turn :=
    fun s turn h => (sameOnReplay_next_iff h.2 h.1 turn).1
  exact throughout_iff_along_of_inv (fun _ h => h.1) hstep
    hadmitted hstart turns

def noContext : InitialContext := ⟨[], nofun⟩

def oneSummary : LocalCompaction :=
  ⟨freshSession, oneRetry, nothingOutside, [], [fullAttempt]⟩

/-- The user says "hi" and the session is compacted.  The live bridge message
has the summary among its snippets. -/
theorem not_sameOnReplay_oneSummary :
    let last := CodeRs.after (next noContext) (start noContext false)
      [.record [.ofText "user" (.inputText ['h', 'i'])], .perform oneSummary]
    last.unpruned.bridges =
        [([⟨"user", ['h', 'i']⟩, ⟨"assistant", ['a', 'l', 'l']⟩],
          ['a', 'l', 'l'])] ∧
      (reconstructHistoryFromRollout noContext last.rollout).bridges =
        [([⟨"user", ['h', 'i']⟩], ['a', 'l', 'l'])] ∧
      ¬ last.SameOnReplay noContext := by
  refine ⟨by decide, by decide, ?_⟩
  intro h
  exact absurd (congrArg BridgedHistory.bridges h.rebuilt) (by decide)

end LiveSession

end CodeRs.Compaction
