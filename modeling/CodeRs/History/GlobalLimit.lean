import CodeRs.History.Retained
import CodeRs.History.StreamCuts
import Mathlib.Algebra.Order.BigOperators.Group.List
import Mathlib.Algebra.Order.Group.Nat

/-!
# The global cap on exec output

Enforcing the cap prunes the oldest records to `EXEC_STREAM_PRUNE_TARGET_BYTES`
per stream and never below, so one pass reaches the cap exactly when pruning
every stream would.
-/

namespace CodeRs.History

def HistoryDomainEvent.isExecOutput : HistoryDomainEvent → Bool
  | updateExecStream _ _ _ => true
  | finishExec _ => true
  | _ => false

/-! ## Records with their output in order -/

/-- Both streams of the command are in order. -/
def ExecRecord.Ordered (exec : ExecRecord) : Prop :=
  History.Ordered exec.stdoutChunks ∧ History.Ordered exec.stderrChunks

/-- The output of the record, if it has any, is in order. -/
def HistoryRecord.OutputOrdered : HistoryRecord → Prop
  | exec state => state.Ordered
  | _ => True

theorem HistoryRecord.outputOrdered_withId (record : HistoryRecord)
    (id : HistoryId) :
    (record.withId id).OutputOrdered ↔ record.OutputOrdered := by
  cases record <;> rfl

theorem HistoryRecord.outputOrdered_of_not_exec {record : HistoryRecord}
    (h : ∀ exec, record ≠ .exec exec) : record.OutputOrdered := by
  cases record with
  | exec exec => exact absurd rfl (h exec)
  | _ => trivial

namespace HistoryState

theorem AppendedTo.ordered {old new : ExecRecord} (h : AppendedTo old new)
    (hold : old.Ordered) : new.Ordered := by
  obtain ⟨⟨_, hout⟩, ⟨_, herr⟩⟩ := h
  exact ⟨appendExecChunk?_ordered hold.1 hout,
    appendExecChunk?_ordered hold.2 herr⟩

theorem ChunksChanged.ordered {old new : HistoryRecord}
    (h : ChunksChanged old new)
    (hold : old.OutputOrdered) : new.OutputOrdered := by
  cases h with
  | same _ => exact hold
  | exec exec _ _ hout herr =>
      exact ⟨pruneExecStream_ordered hold.1 hout,
        pruneExecStream_ordered hold.2 herr⟩

/-- All output in the history is in order. -/
def OutputsOrdered (s : HistoryState) : Prop :=
  ∀ record ∈ s.records, record.OutputOrdered

/-- The operation issues an identifier below the last one, and the record it
carries has its output in order. -/
def KeepsOrder (s : HistoryState) (op : Op) : Prop :=
  s.IssuesBelowMax op ∧ ∀ record, op.record? = some record →
    record.OutputOrdered

theorem Written.ordered {s : HistoryState} {op : Op} {record : HistoryRecord}
    (h : s.Written op record) (hs : s.OutputsOrdered)
    (hkeeps : s.KeepsOrder op) :
    record.OutputOrdered := by
  cases h with
  | given _ hrecord => exact hkeeps.2 record hrecord
  | plain _ hplain => exact HistoryRecord.outputOrdered_of_not_exec hplain
  | started event => exact ⟨.nil, .nil⟩
  | appended old new hold happended => exact happended.ordered (hs _ hold)

namespace OutputsOrdered

variable {s t : HistoryState}

theorem insertAt (h : s.OutputsOrdered) {idx : ℕ}
    (hidx : idx ≤ s.records.length)
    {record : HistoryRecord} (hrecord : record.OutputOrdered) :
    (s.insertAt idx record).OutputsOrdered := by
  intro x hx
  rw [insertAt_records, List.mem_insertIdx hidx] at hx
  rcases hx with rfl | hx
  · exact (HistoryRecord.outputOrdered_withId _ _).mpr hrecord
  · exact h x hx

theorem removeAt (h : s.OutputsOrdered) (idx : ℕ) (record : HistoryRecord) :
    (s.removeAt idx record).OutputsOrdered := by
  intro x hx
  rw [removeAt_records] at hx
  exact h x (List.mem_of_mem_eraseIdx hx)

theorem set (h : s.OutputsOrdered) {idx : ℕ} {record : HistoryRecord}
    (ht : t.records = s.records.set idx record)
    (hrecord : record.OutputOrdered) :
    t.OutputsOrdered := by
  intro x hx
  rw [ht] at hx
  rcases List.mem_or_eq_of_mem_set hx with hx | rfl
  · exact h x hx
  · exact hrecord

theorem edit (h : s.OutputsOrdered) {op : Op} (hkeeps : s.KeepsOrder op)
    (hedit : Edit s op t) : t.OutputsOrdered := by
  cases hedit with
  | same _ => exact h
  | insert idx record _ hwritten hidx =>
      exact h.insertAt hidx (hwritten.ordered h hkeeps)
  | replace idx existing record _ hwritten _ =>
      exact h.set (replaceAt_records s idx existing record)
        ((HistoryRecord.outputOrdered_withId _ _).mpr
          (hwritten.ordered h hkeeps))
  | remove idx record _ _ => exact h.removeAt idx record
  | cut pos _ _ =>
      intro x hx
      rw [cutAfter_records] at hx
      exact h x (List.mem_of_mem_take hx)
  | clear _ _ =>
      intro x hx
      cases hx
  | message idx existing state _ _ _ =>
      exact h.set (setMessage_records s idx state) trivial
  | store idx existing exec _ hget _ _ happended =>
      exact h.set (storeExec_records s idx exec)
        (happended.ordered (h _ (List.mem_of_getElem? hget)))
  | removeInsert idx removed record _ hplain _ =>
      exact (h.removeAt idx removed).insertAt le_rfl
        (HistoryRecord.outputOrdered_of_not_exec hplain)
  | removeMessage idx idx' removed existing state _ _ _ _ =>
      exact (h.removeAt idx removed).set
        (setMessage_records _ idx' state) trivial

theorem enforce (h : s.OutputsOrdered)
    (henforce : s.enforceExecStreamGlobalLimit = some t) :
    t.OutputsOrdered := by
  obtain ⟨records, retained, hchanged, rfl⟩ := enforce_chunksChanged henforce
  intro x hx
  obtain ⟨y, hy, hxy⟩ := exists_mem_of_forall₂ hchanged.flip hx
  exact hxy.ordered (h y hy)

theorem restore (s : HistoryState) (h : t.OutputsOrdered) :
    (s.restore t.snapshot).OutputsOrdered := by
  intro x hx
  rw [restore_records] at hx
  exact h x ((dedupMessages_sublist _ _).subset hx)

end OutputsOrdered

end HistoryState

/-! ## What pruning every stream would leave -/

/-- The record with both streams pruned to `EXEC_STREAM_PRUNE_TARGET_BYTES`. -/
def prunedRecord (exec : ExecRecord) : Option ExecRecord := do
  let stdoutChunks ← pruneExecStream exec.stdoutChunks
      execStreamPruneTargetBytes
  let stderrChunks ← pruneExecStream exec.stderrChunks
      execStreamPruneTargetBytes
  some { exec with stdoutChunks, stderrChunks }

/-- The bytes the record retains once its streams are pruned. -/
def prunedBytes (exec : ExecRecord) : ℕ :=
  ((prunedRecord exec).map retainedExecRecordBytes).getD 0

/-- The bytes all exec records would retain with every stream pruned. -/
def prunedTotal (records : List HistoryRecord) : ℕ :=
  ((execRecords records).map prunedBytes).sum

theorem prunedBytes_eq {exec : ExecRecord} {stdoutChunks stderrChunks}
    (hout : pruneExecStream exec.stdoutChunks execStreamPruneTargetBytes =
      some stdoutChunks)
    (herr : pruneExecStream exec.stderrChunks execStreamPruneTargetBytes =
      some stderrChunks) :
    prunedBytes exec = retainedExecRecordBytes { exec with
      stdoutChunks, stderrChunks } := by
  simp [prunedBytes, prunedRecord, hout, herr]

theorem prunedBytes_le {exec : ExecRecord} (h : exec.Ordered) :
    prunedBytes exec ≤ retainedExecRecordBytes exec := by
  rw [prunedBytes, prunedRecord]
  cases hout : pruneExecStream exec.stdoutChunks execStreamPruneTargetBytes with
  | none => exact Nat.zero_le _
  | some stdoutChunks =>
      cases herr : pruneExecStream exec.stderrChunks
        execStreamPruneTargetBytes with
      | none => exact Nat.zero_le _
      | some stderrChunks =>
          have houtLe := retainedStreamLen_prune_le h.1 hout
          have herrLe := retainedStreamLen_prune_le h.2 herr
          exact min_le_min_right _ (Nat.add_le_add houtLe herrLe)

theorem prunedBytes_of_small {exec : ExecRecord}
    (hout : retainedStreamLen exec.stdoutChunks ≤ execStreamPruneTargetBytes)
    (herr : retainedStreamLen exec.stderrChunks ≤ execStreamPruneTargetBytes) :
    prunedBytes exec = retainedExecRecordBytes exec := by
  rw [prunedBytes_eq (by rw [pruneExecStream, if_pos hout])
    (by rw [pruneExecStream, if_pos herr])]

theorem execRetainedBytes_cons (exec : ExecRecord) (rest : List HistoryRecord) :
    execRetainedBytes (.exec exec :: rest) =
      retainedExecRecordBytes exec + execRetainedBytes rest := rfl

theorem prunedTotal_cons (exec : ExecRecord) (rest : List HistoryRecord) :
    prunedTotal (.exec exec :: rest) = prunedBytes exec + prunedTotal rest :=
  rfl

theorem execRecords_cons_of_not_exec {record : HistoryRecord}
    (h : ∀ exec, record ≠ .exec exec) (rest : List HistoryRecord) :
    execRecords (record :: rest) = execRecords rest := by
  cases record with
  | exec exec => exact absurd rfl (h exec)
  | _ => rfl

theorem prunedTotal_le {records : List HistoryRecord}
    (h : ∀ record ∈ records, record.OutputOrdered) :
    prunedTotal records ≤ execRetainedBytes records :=
  List.sum_le_sum fun _ hmem => prunedBytes_le (h _ (mem_execRecords.mp hmem))

theorem prunedBytes_of_retained_zero {exec : ExecRecord}
    (h : retainedExecRecordBytes exec = 0) : prunedBytes exec = 0 := by
  have hzero : retainedStreamLen exec.stdoutChunks = 0 ∧
      retainedStreamLen exec.stderrChunks = 0 := by
    have hmax := one_le_u64Max
    rw [retainedExecRecordBytes, satAdd] at h
    omega
  rw [prunedBytes_of_small (by rw [hzero.1]; exact Nat.zero_le _)
    (by rw [hzero.2]; exact Nat.zero_le _), h]

namespace HistoryState

/-! ## The loop against the full prune -/

/-- The loop either prunes every stream or stops once it has dropped enough, and
it never drops more than pruning every stream would. -/
theorem enforceLoop_bytes {records records' : List HistoryRecord}
    {bytesToDrop : ℕ}
    {r r' : ExecStreamRetained}
    (hnodup : (records.map HistoryRecord.id).Nodup)
    (hord : ∀ record ∈ records, record.OutputOrdered)
    (hbefore : ∀ exec, .exec exec ∈ records →
      r.byId.lookup exec.id = some (retainedExecRecordBytes exec))
    (h : enforceLoop records bytesToDrop r = some (records', r')) :
    (execRetainedBytes records' = prunedTotal records ∨
      execRetainedBytes records' + bytesToDrop ≤ execRetainedBytes records) ∧
    prunedTotal records ≤ execRetainedBytes records' := by
  induction records generalizing records' bytesToDrop r with
  | nil =>
      simp only [enforceLoop, Option.some.injEq, Prod.mk.injEq] at h
      rw [← h.1]
      exact ⟨Or.inl rfl, le_rfl⟩
  | cons record rest ih =>
      obtain ⟨hid, hrest⟩ := List.nodup_cons.mp hnodup
      have hord' : ∀ x ∈ rest, x.OutputOrdered := by
        intro x hx
        exact hord x (List.mem_cons_of_mem _ hx)
      rcases enforceLoop_cons h with
        ⟨rfl, rfl, _⟩ | ⟨_, hskip, rest', hloop, rfl⟩ |
        ⟨_, exec, stdoutChunks, stderrChunks, rest', rfl, _, hout,
          herr, hloop, rfl⟩
      · exact ⟨Or.inr le_rfl, prunedTotal_le hord⟩
      · have hnext := ih hrest hord'
          (fun e he => hbefore e (List.mem_cons_of_mem _ he)) hloop
        by_cases hexec : ∃ exec, record = .exec exec
        · obtain ⟨exec, rfl⟩ := hexec
          have hzero : retainedExecRecordBytes exec = 0 := by
            have hrecorded := hskip exec rfl
            rwa [recordedBytes, hbefore exec List.mem_cons_self] at hrecorded
          simpa only [execRetainedBytes_cons, prunedTotal_cons, hzero,
            prunedBytes_of_retained_zero hzero, Nat.zero_add] using hnext
        · have hnot : ∀ exec, record ≠ .exec exec := by
            intro exec heq
            exact hexec ⟨exec, heq⟩
          simpa only [execRetainedBytes, prunedTotal,
            execRecords_cons_of_not_exec hnot] using hnext
      · have hlookup := hbefore exec List.mem_cons_self
        have hkept : ∀ e, .exec e ∈ rest →
            (r.store exec.id (retainedExecRecordBytes
              { exec with stdoutChunks, stderrChunks })).byId.lookup e.id =
              some (retainedExecRecordBytes e) := by
          intro e he
          have hne : e.id ≠ exec.id := by
            intro heq
            exact hid (List.mem_map.mpr ⟨.exec e, he, heq⟩)
          rw [ExecStreamRetained.store, Finmap.lookup_insert_of_ne _ hne]
          exact hbefore e (List.mem_cons_of_mem _ he)
        have hnext := ih hrest hord' hkept hloop
        have hafter := prunedBytes_eq hout herr
        have hle := prunedBytes_le (hord _ List.mem_cons_self)
        rw [recordedBytes, hlookup, Option.getD_some, ← hafter] at hnext
        rw [execRetainedBytes_cons, execRetainedBytes_cons,
          prunedTotal_cons, ← hafter]
        omega

/-- One pass of enforcement reaches the cap exactly when pruning every stream
would. -/
theorem enforce_le_cap_iff {u t : HistoryState} (hids : u.IdsFresh)
    (hretained : u.RetainedExact) (hord : u.OutputsOrdered)
    (hfits : u.retained.additionSaturated = false)
    (h : u.enforceExecStreamGlobalLimit = some t) :
    execRetainedBytes t.records ≤ globalExecStreamRetainedBytes ↔
      prunedTotal u.records ≤ globalExecStreamRetainedBytes := by
  have htotal : u.retained.totalBytes = execRetainedBytes u.records :=
    (hretained.balanced hfits).1.trans
      (hretained.tracks.sumValues_eq hids.nodup)
  rcases enforce_cases h with ⟨hle, rfl⟩ | ⟨hgt, records, retained, hloop, rfl⟩
  · have hpruned := prunedTotal_le hord
    omega
  · have hbytes := enforceLoop_bytes hids.nodup hord
      (fun exec hmem => (hretained.tracks exec.id _).mpr ⟨exec, hmem,
        rfl, rfl⟩) hloop
    rw [htotal] at hbytes hgt
    constructor
    · exact hbytes.2.trans
    · intro hpruned
      rcases hbytes.1 with heq | hdropped
      · exact heq.trans_le hpruned
      · simp only
        omega

/-! ## Exec output events -/

theorem enforce_of_report {u t : HistoryState} {index : ℕ} {id : HistoryId}
    {mutation : HistoryMutation}
    (h : u.enforceAndReport index id = some (t, mutation)) :
    u.enforceExecStreamGlobalLimit = some t := by
  rw [← enforceAndReport_fst u index id, h]
  rfl

theorem stored_of_execOutput {s t : HistoryState} {now : ℕ}
    {event : HistoryDomainEvent} {mutation : HistoryMutation}
    (hexec : event.isExecOutput = true)
    (happly : s.applyDomainEvent now event = some (t, mutation))
    (hmutation : mutation ≠ .noop) :
    ∃ u, s.stored (.applyDomainEvent now event) = some (u, true) ∧
      u.enforceExecStreamGlobalLimit = some t := by
  cases event with
  | updateExecStream index stdoutChunk stderrChunk =>
      rcases exec_or_not (s.records[index]?) with ⟨existing, hget⟩ | hnot
      · simp only [applyDomainEvent, updateExecStream, hget,
          Option.bind_eq_bind,
          Option.bind_eq_some_iff] at happly
        obtain ⟨u, hu, hreport⟩ := happly
        exact ⟨u, by simp [stored, hget, hu], enforce_of_report hreport⟩
      · simp only [applyDomainEvent, updateExecStream, Option.some.injEq,
          Prod.mk.injEq] at happly
        exact absurd happly.2.symm hmutation
  | finishExec event =>
      cases htarget : s.finishTarget event with
      | none =>
          simp only [applyDomainEvent, finishExec, htarget, Option.some.injEq,
            Prod.mk.injEq] at happly
          exact absurd happly.2.symm hmutation
      | some idx =>
          rcases exec_or_not (s.records[idx]?) with ⟨existing, hget⟩ | hnot
          · simp only [applyDomainEvent, finishExec, htarget, hget,
              Option.bind_eq_bind, Option.bind_eq_some_iff] at happly
            obtain ⟨updated, hupdated, hreport⟩ := happly
            rw [applyEvent_replace hget, if_neg (by simp)] at hreport
            exact ⟨s.replaceAt idx (.exec existing) (.exec updated),
              by
              simp [stored, htarget, hget, hupdated], enforce_of_report hreport⟩
          · simp only [applyDomainEvent, finishExec, htarget, Option.some.injEq,
              Prod.mk.injEq] at happly
            exact absurd happly.2.symm hmutation
  | _ => cases hexec

/-! ## Runs -/

/-- The operation keeps the output in order; and when it enforces the cap, the
total is exact and pruning every stream of the records it has stored reaches the
cap. -/
def KeepsCap (s : HistoryState) (op : Op) : Prop :=
  s.KeepsOrder op ∧ ∀ u, s.stored op = some (u, true) →
    u.retained.additionSaturated = false ∧
      prunedTotal u.records ≤ globalExecStreamRetainedBytes

theorem ordered_of_reachable {s : HistoryState} (h : Reachable KeepsOrder s) :
    s.OutputsOrdered := by
  refine invariant_of_edits (P := OutputsOrdered) ?_
    (fun hs hkeeps hedit => hs.edit hkeeps hedit) OutputsOrdered.enforce
    (fun {s _} _ ht => ht.restore s) h
  intro record hmem
  cases hmem

/-- The state an exec output event stores in a run that keeps the order. -/
theorem stored_of_reachable {s u : HistoryState} {op : Op} {limit : Bool}
    (h : Reachable KeepsOrder s) (hkeeps : s.KeepsOrder op)
    (hstored : s.stored op = some (u, limit)) :
    u.IdsFresh ∧ u.RetainedExact ∧ u.OutputsOrdered := by
  obtain ⟨hids, hretained⟩ :=
    retainedExact_of_reachable (h.mono fun _ _ hop => hop.1)
  have hedit := stored_edit hstored
  exact ⟨hids.edit hkeeps.1 hedit, hretained.edit hids hkeeps.1 hedit,
    (ordered_of_reachable h).edit hkeeps hedit⟩

theorem keepsOrder_of_execOutput {s : HistoryState} {now : ℕ}
    {event : HistoryDomainEvent} (hexec : event.isExecOutput = true) :
    s.KeepsOrder (.applyDomainEvent now event) := by
  cases event with
  | updateExecStream _ _ _ =>
      exact ⟨fun h => (by cases h), fun _ h => (by cases h)⟩
  | finishExec _ => exact ⟨fun h => (by cases h), fun _ h => (by cases h)⟩
  | _ => cases hexec

end HistoryState

/-- After every exec output event that is not a no-op the cap holds, in every
run whose steps keep the order of the output and leave enough to prune; where
the order is kept, a step that does not leave enough to prune exceeds the
cap. -/
theorem execOutput_le_cap {s t : HistoryState} {now : ℕ}
    {event : HistoryDomainEvent}
    {mutation : HistoryMutation} (hexec : event.isExecOutput = true)
    (happly : s.applyDomainEvent now event = some (t, mutation))
    (hmutation : mutation ≠ .noop) :
    (Reachable HistoryState.KeepsCap s →
      s.KeepsCap (.applyDomainEvent now event) →
      execRetainedBytes t.records ≤ globalExecStreamRetainedBytes) ∧
    (Reachable HistoryState.KeepsOrder s →
      ∃ u, s.stored (.applyDomainEvent now event) = some (u, true) ∧
        (u.retained.additionSaturated = false →
          (execRetainedBytes t.records ≤ globalExecStreamRetainedBytes ↔
            prunedTotal u.records ≤ globalExecStreamRetainedBytes))) := by
  obtain ⟨u, hstored, henforce⟩ :=
    HistoryState.stored_of_execOutput hexec happly hmutation
  constructor
  · intro hreach hkeeps
    obtain ⟨hids, hretained, hord⟩ := HistoryState.stored_of_reachable
      (hreach.mono fun _ _ hop => hop.1) hkeeps.1 hstored
    obtain ⟨hfits, hpruned⟩ := hkeeps.2 u hstored
    exact (HistoryState.enforce_le_cap_iff hids hretained hord hfits
      henforce).mpr hpruned
  · intro hreach
    obtain ⟨hids, hretained, hord⟩ := HistoryState.stored_of_reachable hreach
      (HistoryState.keepsOrder_of_execOutput hexec) hstored
    exact ⟨u, hstored, fun hfits =>
      HistoryState.enforce_le_cap_iff hids hretained hord hfits henforce⟩

/-! ## Many records at the floor -/

/-- `n` copies of a command, pushed one after the other. -/
def pushTimes (exec : ExecRecord) : ℕ → HistoryState
  | 0 => .new
  | n + 1 => (pushTimes exec n).push (.exec exec)

theorem pushTimes_reachable (exec : ExecRecord) (n : ℕ) :
    Reachable (fun _ _ => True) (pushTimes exec n) := by
  induction n with
  | zero => exact .init
  | succ n ih => exact .step (a := .push (.exec exec)) ih trivial rfl

theorem pushTimes_records_succ (exec : ExecRecord) (n : ℕ) :
    (pushTimes exec (n + 1)).records = (pushTimes exec n).records ++
      [.exec { exec with id := (pushTimes exec n).nextId }] := by
  simp [pushTimes, HistoryState.push, HistoryRecord.withId]

theorem execRetainedBytes_append (l l' : List HistoryRecord) :
    execRetainedBytes (l ++ l') =
      execRetainedBytes l + execRetainedBytes l' := by
  simp [execRetainedBytes, execRecords]

theorem pushTimes_bytes (exec : ExecRecord) (n : ℕ) :
    execRetainedBytes (pushTimes exec n).records =
      n * retainedExecRecordBytes exec := by
  induction n with
  | zero => rw [Nat.zero_mul]; rfl
  | succ n ih =>
      rw [pushTimes_records_succ, execRetainedBytes_append, ih, Nat.succ_mul]
      rfl

theorem pushTimes_length (exec : ExecRecord) (n : ℕ) :
    (pushTimes exec n).records.length = n := by
  induction n with
  | zero => rfl
  | succ n ih => simp [pushTimes_records_succ, ih]

theorem mem_pushTimes {exec : ExecRecord} {n : ℕ} {record : HistoryRecord}
    (h : record ∈ (pushTimes exec n).records) :
    ∃ id, record = .exec { exec with id } := by
  induction n with
  | zero => cases h
  | succ n ih =>
      rw [pushTimes_records_succ, List.mem_append, List.mem_singleton] at h
      rcases h with h | rfl
      · exact ih h
      · exact ⟨_, rfl⟩

/-- Both streams of the command are at most at the floor. -/
def ExecRecord.AtFloor (exec : ExecRecord) : Prop :=
  retainedStreamLen exec.stdoutChunks ≤ execStreamPruneTargetBytes ∧
    retainedStreamLen exec.stderrChunks ≤ execStreamPruneTargetBytes

namespace HistoryState

theorem enforceLoop_of_atFloor {records : List HistoryRecord}
    (h : ∀ exec, .exec exec ∈ records → exec.AtFloor) (bytesToDrop : ℕ)
    (r : ExecStreamRetained) :
    ∃ r', enforceLoop records bytesToDrop r = some (records, r') := by
  induction records generalizing bytesToDrop r with
  | nil => exact ⟨r, rfl⟩
  | cons record rest ih =>
      have hrest := ih fun exec hmem => h exec (List.mem_cons_of_mem _ hmem)
      by_cases hn : bytesToDrop = 0
      · exact ⟨r, by cases record <;> simp [enforceLoop, hn]⟩
      · cases record with
        | exec exec =>
            obtain ⟨hout, herr⟩ := h exec List.mem_cons_self
            by_cases hzero : recordedBytes r exec = 0
            · obtain ⟨r', hr'⟩ := hrest bytesToDrop r
              exact ⟨r', by simp [enforceLoop, hn, hzero, hr']⟩
            · obtain ⟨r', hr'⟩ := hrest
                (bytesToDrop -
                  (recordedBytes r exec - retainedExecRecordBytes exec))
                (r.store exec.id (retainedExecRecordBytes exec))
              exact ⟨r',
                by
                simp [enforceLoop, hn, hzero, pruneExecStream, hout, herr, hr']⟩
        | _ =>
            obtain ⟨r', hr'⟩ := hrest bytesToDrop r
            exact ⟨r', by simp [enforceLoop, hn, hr']⟩

theorem enforce_of_atFloor {s : HistoryState}
    (h : ∀ exec, .exec exec ∈ s.records → exec.AtFloor) :
    ∃ t, s.enforceExecStreamGlobalLimit = some t ∧ t.records = s.records := by
  rw [enforceExecStreamGlobalLimit]
  split
  · exact ⟨s, rfl, rfl⟩
  · obtain ⟨r', hr'⟩ := enforceLoop_of_atFloor h
      (s.retained.totalBytes - globalExecStreamRetainedBytes) s.retained
    exact ⟨{ s with retained := r' }, by simp [hr'], rfl⟩

/-- An update without new output changes no record when all are at the floor. -/
theorem updateExecStream_of_atFloor {s : HistoryState} {index : ℕ}
    {existing : ExecRecord} (hget : s.records[index]? = some (.exec existing))
    (h : ∀ exec, .exec exec ∈ s.records → exec.AtFloor) (now : ℕ) :
    ∃ t mutation,
      s.applyDomainEvent now (.updateExecStream index none none) =
        some (t, mutation) ∧
        mutation ≠ .noop ∧ t.records = s.records := by
  have hset : s.records.set index (.exec existing) = s.records := by
    obtain ⟨hlt, hself⟩ := List.getElem?_eq_some_iff.mp hget
    rw [← hself, List.set_getElem_self]
  obtain ⟨t, henforce, hrecords⟩ := enforce_of_atFloor
    (s := s.storeExec index existing) (by simpa [hset] using h)
  have hstore : s.storeExecStream index existing none none =
      some (s.storeExec index existing) := rfl
  rw [storeExec_records, hset] at hrecords
  exact ⟨t, .replaced index existing.id (.exec existing),
    by simp [applyDomainEvent, updateExecStream, hget, hstore, enforceAndReport,
      henforce, hrecords], by simp, hrecords⟩

end HistoryState

/-- An update in a history of copies at the floor keeps all their bytes. -/
theorem pushTimes_update {exec : ExecRecord} (h : exec.AtFloor) (n : ℕ) :
    ∃ t mutation,
      (pushTimes exec (n + 1)).applyDomainEvent 0
        (.updateExecStream 0 none none) =
          some (t, mutation) ∧
        mutation ≠ .noop ∧
        execRetainedBytes t.records =
          (n + 1) * retainedExecRecordBytes exec := by
  obtain ⟨record, hget⟩ : ∃ record,
      (pushTimes exec (n + 1)).records[0]? = some record :=
    ⟨_,
      List.getElem?_eq_getElem (by rw [pushTimes_length]; exact Nat.succ_pos n)⟩
  obtain ⟨id, rfl⟩ := mem_pushTimes (List.mem_of_getElem? hget)
  have hfloor : ∀ exec', .exec exec' ∈ (pushTimes exec (n + 1)).records →
      exec'.AtFloor := by
    intro exec' hmem
    obtain ⟨id', hexec⟩ := mem_pushTimes hmem
    rw [HistoryRecord.exec.inj hexec]
    exact h
  obtain ⟨t, mutation, happly, hmutation, hrecords⟩ :=
    HistoryState.updateExecStream_of_atFloor hget hfloor 0
  exact ⟨t, mutation, happly, hmutation, by rw [hrecords, pushTimes_bytes]⟩

theorem retainedStreamLen_singleton {content : Text}
    (h : content.byteLen ≤ u64Max) :
    retainedStreamLen [{ offset := 0, content, offset_le := Nat.zero_le _ }] =
      content.byteLen := by
  simp [retainedStreamLen, streamLen, ExecStreamChunk.endOffset,
    ExecStreamChunk.len,
    satAdd, h]

/-- A stream of exactly `EXEC_STREAM_PRUNE_TARGET_BYTES`. -/
def floorStream : List ExecStreamChunk :=
  [{ offset := 0
     content := List.replicate execStreamPruneTargetBytes 'x'
     offset_le := Nat.zero_le _ }]

theorem retainedStreamLen_floorStream :
    retainedStreamLen floorStream = execStreamPruneTargetBytes := by
  have hsize : Text.byteLen (List.replicate execStreamPruneTargetBytes 'x') =
      execStreamPruneTargetBytes := by
    rw [Text.byteLen_replicate]
    rfl
  rw [floorStream, retainedStreamLen_singleton (by rw [hsize]; decide), hsize]

/-- 257 commands at the floor: the cap is exceeded after an update. -/
theorem execOutput_exceeds_cap :
    let s := pushTimes (printedRecord floorStream floorStream) 257
    Reachable (fun _ _ => True) s ∧ ∃ t mutation,
      s.applyDomainEvent 0 (.updateExecStream 0 none none) =
        some (t, mutation) ∧
        mutation ≠ .noop ∧
        globalExecStreamRetainedBytes < execRetainedBytes t.records := by
  have hfloor : (printedRecord floorStream floorStream).AtFloor :=
    ⟨retainedStreamLen_floorStream.le, retainedStreamLen_floorStream.le⟩
  have hbytes :
      retainedExecRecordBytes (printedRecord floorStream floorStream) =
      1024 * 1024 := by
    rw [retainedExecRecordBytes, printedRecord, retainedStreamLen_floorStream]
    decide
  obtain ⟨t, mutation, happly, hmutation, htotal⟩ := pushTimes_update hfloor 256
  refine ⟨pushTimes_reachable _ _, t, mutation, happly, hmutation, ?_⟩
  rw [htotal, hbytes]
  decide

/-- A stream whose chunks are 512 MiB apart. -/
def gapStream : List ExecStreamChunk :=
  [{ offset := 0, content := ['a'], offset_le := Nat.zero_le _ },
   { offset := 512 * 1024 * 1024, content := ['b'], offset_le := by decide }]

/-- A command above the cap prints one letter, and its output is pruned. -/
theorem execOutput_le_cap_one_letter :
    let s := HistoryState.new.push (.exec (printedRecord gapStream []))
    globalExecStreamRetainedBytes < execRetainedBytes s.records ∧ ∃ t mutation,
      s.applyDomainEvent 0 (.updateExecStream 0
          (some {
            offset := 512 * 1024 * 1024 + 1, content := ['c'],
            offset_le := by decide }) none) =
        some (t, mutation) ∧
      execRetainedBytes t.records ≤ globalExecStreamRetainedBytes := by
  let s := HistoryState.new.push (.exec (printedRecord gapStream []))
  let event : HistoryDomainEvent := .updateExecStream 0
    (some {
      offset := 512 * 1024 * 1024 + 1, content := ['c'],
      offset_le := by decide }) none
  have hreach : Reachable HistoryState.KeepsCap s := by
    refine .step (a := .push _) .init ⟨⟨fun _ => by decide, ?_⟩, ?_⟩ rfl
    · intro record hrecord
      cases hrecord
      exact ⟨List.pairwise_pair.2 (by decide), .nil⟩
    · intro u hu
      cases hu
  have hkeeps : s.KeepsCap (.applyDomainEvent 0 event) := by
    refine ⟨HistoryState.keepsOrder_of_execOutput rfl, fun u hu => ?_⟩
    have hall : ((s.stored (.applyDomainEvent 0 event)).all
        fun p => decide (p.1.retained.additionSaturated = false ∧
          prunedTotal p.1.records ≤ globalExecStreamRetainedBytes)) = true := by
      decide
    rw [hu] at hall
    simpa using hall
  have hstored :
      ((s.applyDomainEvent 0 event).any fun p => decide (p.2 ≠ .noop)) =
        true := by
    decide
  obtain ⟨⟨t, mutation⟩, happly, hmutation⟩ :=
    (Option.any_eq_true _ _).1 hstored
  exact ⟨by decide, t, mutation, happly,
    (execOutput_le_cap rfl happly (of_decide_eq_true hmutation)).1
      hreach hkeeps⟩

end CodeRs.History
