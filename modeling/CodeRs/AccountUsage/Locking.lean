import CodeRs.AccountUsage.Data
import CodeRs.AccountUsage.File

/-!
# Calls that lock the current file

While every call that gets its lock gets it on the file at the path, at most
one call is between its lock and its rename.  So the file always comes from the
first one by the updates of the calls that have renamed, one after the other.
-/

namespace CodeRs.AccountUsage

variable {ι C : Type*}

theorem Phase.holds_of_critical {phase : Phase C} {i : ℕ}
    (h : phase.critical = some i) :
    phase.holds = some i := by
  cases phase <;> first | exact h | cases h

namespace UsageDir

variable {empty initial : C} {rewrite : ι → C → C} {s : UsageDir ι C}

/-- What holds while every lock is on the current file. -/
structure Inv (empty initial : C) (rewrite : ι → C → C)
    (s : UsageDir ι C) : Prop where
  holds : ∀ p i, (s.phase p).holds = some i → s.owner i = some p
  current : ∀ p i, (s.phase p).critical = some i → s.path = some i
  updated : ∀ p i c, s.phase p = .updated i c → c = rewrite p (s.stored empty)
  written : ∀ p i, s.phase p = .written i →
    ∃ j, s.tmp = some j ∧ s.contents j = rewrite p (s.stored empty)
  apart : ∀ i, s.path = some i → s.tmp ≠ some i
  path_lt : ∀ i, s.path = some i → i < s.fresh
  tmp_lt : ∀ i, s.tmp = some i → i < s.fresh
  serial : Serial rewrite initial (fun p => (s.phase p).isCommitted)
    (s.stored empty)

/-- At most one call is between its lock and its rename. -/
theorem Inv.unique (h : s.Inv empty initial rewrite) {p q : ι} {i j : ℕ}
    (hp : (s.phase p).critical = some i) (hq : (s.phase q).critical = some j) :
    p = q := by
  have hij : some i = some j := (h.current p i hp).symm.trans (h.current q j hq)
  have howner : some p = some q := by
    rw [← h.holds p i (Phase.holds_of_critical hp),
      ← h.holds q j (Phase.holds_of_critical hq),
      Option.some.inj hij]
  exact Option.some.inj howner

/-- No two calls have locked one inode. -/
theorem Inv.not_holds (h : s.Inv empty initial rewrite) {p q : ι} {i : ℕ}
    (hp : (s.phase p).holds = some i) (hqp : q ≠ p) :
    (s.phase q).holds ≠ some i := by
  intro hq
  exact hqp (Option.some.inj ((h.holds q i hq).symm.trans (h.holds p i hp)))

/-- Only one call can be about to rename. -/
theorem Inv.not_written (h : s.Inv empty initial rewrite) {p : ι} {i : ℕ}
    (hp : (s.phase p).critical = some i) (hnot : ∀ j, s.phase p ≠ .written j)
    (q : ι) (j : ℕ) :
    s.phase q ≠ .written j := by
  intro hq
  have hcritical : (s.phase q).critical = some j := by
    rw [hq, Phase.critical]
  have hqp := h.unique hcritical hp
  rw [hqp] at hq
  exact hnot j hq

/-- The directory before the first call. -/
theorem inv_start (empty : C) (rewrite : ι → C → C) (file tmp : Option C) :
    (start empty file tmp : UsageDir ι C).Inv empty
      (file.getD empty) rewrite := by
  have hstored :
      (start empty file tmp : UsageDir ι C).stored empty = file.getD empty := by
    cases file <;> rfl
  refine ⟨?_, ?_, ?_, ?_, ?_, ?_, ?_, ?_⟩
  · intro p i hp
    cases hp
  · intro p i hp
    cases hp
  · intro p i c hp
    cases hp
  · intro p i hp
    cases hp
  · intro i hi htmp
    obtain ⟨-, -, rfl⟩ := Option.map_eq_some_iff.1 hi
    obtain ⟨-, -, hone⟩ := Option.map_eq_some_iff.1 htmp
    exact Nat.one_ne_zero hone
  · intro i hi
    obtain ⟨-, -, rfl⟩ := Option.map_eq_some_iff.1 hi
    exact Nat.two_pos
  · intro i hi
    obtain ⟨-, -, rfl⟩ := Option.map_eq_some_iff.1 hi
    exact Nat.one_lt_two
  · rw [hstored]
    exact .refl fun _ => Bool.false_ne_true

/-! ## The file operations -/

/-- Creating the file changes nothing that is stored. -/
theorem Inv.create (h : s.Inv empty initial rewrite) (hpath : s.path = none) :
    (s.create empty).Inv empty initial rewrite := by
  have hidle : ∀ p i, (s.phase p).critical ≠ some i := by
    intro p i hp
    rw [h.current p i hp] at hpath
    exact Option.some_ne_none i hpath
  have hstored : (s.create empty).stored empty = s.stored empty := by
    simp [stored, UsageDir.create, hpath]
  refine ⟨h.holds, fun p i hp => absurd hp (hidle p i), ?_, ?_, ?_, ?_, ?_, ?_⟩
  · intro p i c hp
    have hcritical : (s.phase p).critical = some i := by
      rw [show s.phase p = _ from hp, Phase.critical]
    exact absurd hcritical (hidle p i)
  · intro p i hp
    have hcritical : (s.phase p).critical = some i := by
      rw [show s.phase p = _ from hp, Phase.critical]
    exact absurd hcritical (hidle p i)
  · intro i hi htmp
    have hlt := h.tmp_lt i htmp
    rw [← Option.some.inj hi] at hlt
    exact Nat.lt_irrefl _ hlt
  · intro i hi
    rw [← Option.some.inj hi]
    exact Nat.lt_succ_self _
  · intro i hi
    exact Nat.lt_succ_of_lt (h.tmp_lt i hi)
  · rw [hstored]
    exact h.serial

/-- Where the temporary file is after it has been written. -/
theorem putTmp_spec (s : UsageDir ι C) (c : C)
    (hlt : ∀ i, s.tmp = some i → i < s.fresh) :
    ∃ j, (s.putTmp c).tmp = some j ∧ j < (s.putTmp c).fresh ∧
      (s.tmp = some j ∨ s.fresh = j) ∧ s.fresh ≤ (s.putTmp c).fresh ∧
      (s.putTmp c).contents = Function.update s.contents j c := by
  rw [putTmp]
  cases htmp : s.tmp with
  | some j => exact ⟨j, rfl, hlt j htmp, .inl rfl, Nat.le_refl _, rfl⟩
  | none =>
      exact ⟨s.fresh, rfl, Nat.lt_succ_self _, .inr rfl, Nat.le_succ _, rfl⟩

theorem phase_putTmp (s : UsageDir ι C) (c : C) :
    (s.putTmp c).phase = s.phase := by
  rw [putTmp]
  split <;> rfl

theorem owner_putTmp (s : UsageDir ι C) (c : C) :
    (s.putTmp c).owner = s.owner := by
  rw [putTmp]
  split <;> rfl

theorem path_putTmp (s : UsageDir ι C) (c : C) :
    (s.putTmp c).path = s.path := by
  rw [putTmp]
  split <;> rfl

/-- Writing the temporary file changes nothing that is stored. -/
theorem Inv.stored_putTmp (h : s.Inv empty initial rewrite) (c : C) :
    (s.putTmp c).stored empty = s.stored empty := by
  obtain ⟨j, -, -, hj, -, hcontents⟩ := s.putTmp_spec c h.tmp_lt
  rw [stored, stored, path_putTmp, hcontents]
  cases hpath : s.path with
  | none => rfl
  | some i =>
      have hij : i ≠ j := by
        rintro rfl
        obtain htmp | hfresh := hj
        · exact h.apart i hpath htmp
        · exact Nat.ne_of_lt (h.path_lt i hpath) hfresh.symm
      exact Function.update_of_ne hij c s.contents

/-- Nobody is about to rename: the temporary file can be written. -/
theorem Inv.putTmp (h : s.Inv empty initial rewrite)
    (hnone : ∀ p i, s.phase p ≠ .written i)
    (c : C) : (s.putTmp c).Inv empty initial rewrite := by
  obtain ⟨j, htmp, hlt, hj, hle, -⟩ := s.putTmp_spec c h.tmp_lt
  have hstored := h.stored_putTmp c
  refine ⟨?_, ?_, ?_, ?_, ?_, ?_, ?_, ?_⟩
  · rw [phase_putTmp, owner_putTmp]
    exact h.holds
  · rw [phase_putTmp, path_putTmp]
    exact h.current
  · rw [phase_putTmp, hstored]
    exact h.updated
  · rw [phase_putTmp]
    intro p i hp
    exact absurd hp (hnone p i)
  · rw [path_putTmp, htmp]
    intro i hi hij
    rw [Option.some.inj hij] at hj
    obtain hs | hfresh := hj
    · exact h.apart i hi hs
    · exact Nat.ne_of_lt (h.path_lt i hi) hfresh.symm
  · rw [path_putTmp]
    intro i hi
    exact Nat.lt_of_lt_of_le (h.path_lt i hi) hle
  · intro i hi
    rw [htmp] at hi
    rw [← Option.some.inj hi]
    exact hlt
  · rw [phase_putTmp, hstored]
    exact h.serial

/-- Nobody is about to rename: the temporary file can be removed. -/
theorem Inv.dropTmp (h : s.Inv empty initial rewrite)
    (hnone : ∀ p i,
      s.phase p ≠ .written i) : s.dropTmp.Inv empty initial rewrite where
  holds := h.holds
  current := h.current
  updated := h.updated
  written := fun p i hp => absurd hp (hnone p i)
  apart := fun _ _ htmp => absurd htmp.symm (Option.some_ne_none _)
  path_lt := h.path_lt
  tmp_lt := fun _ htmp => absurd htmp.symm (Option.some_ne_none _)
  serial := h.serial

/-! ## The steps -/

variable [DecidableEq ι]

/-- A call goes on, with the owner of an inode changed, while no file
changes. -/
theorem Inv.goto (h : s.Inv empty initial rewrite) {p : ι} {i : ℕ}
    {owner : Option ι}
    {phase : Phase C}
    (howner : ∀ q, q ≠ p → (s.phase q).holds = some i → owner = some q)
    (hholds : ∀ j, phase.holds = some j →
      Function.update s.owner i owner j = some p)
    (hcurrent : ∀ j, phase.critical = some j → s.path = some j)
    (hupdated : ∀ j c, phase = .updated j c → c = rewrite p (s.stored empty))
    (hwritten : ∀ j, phase = .written j →
      ∃ k, s.tmp = some k ∧ s.contents k = rewrite p (s.stored empty))
    (hcommitted : phase.isCommitted = (s.phase p).isCommitted) :
    ((s.setOwner i owner).goto p phase).Inv empty initial rewrite := by
  have hphase : ∀ q, ((s.setOwner i owner).goto p phase).phase q =
      if q = p then phase else s.phase q := by
    intro q
    exact Function.update_apply s.phase p phase q
  refine ⟨?_, ?_, ?_, ?_, h.apart, h.path_lt, h.tmp_lt, ?_⟩
  · intro q j hq
    rw [hphase] at hq
    by_cases hqp : q = p
    · rw [if_pos hqp] at hq
      rw [hqp]
      exact hholds j hq
    · rw [if_neg hqp] at hq
      by_cases hji : j = i
      · rw [hji] at hq ⊢
        exact (Function.update_self ..).trans (howner q hqp hq)
      · exact (Function.update_of_ne hji ..).trans (h.holds q j hq)
  · intro q j hq
    rw [hphase] at hq
    split at hq
    · exact hcurrent j hq
    · exact h.current q j hq
  · intro q j c hq
    rw [hphase] at hq
    split at hq
    · rename_i hqp
      rw [hqp]
      exact hupdated j c hq
    · exact h.updated q j c hq
  · intro q j hq
    rw [hphase] at hq
    split at hq
    · rename_i hqp
      rw [hqp]
      exact hwritten j hq
    · exact h.written q j hq
  · refine h.serial.congr ?_
    intro q
    rw [hphase]
    split
    · rename_i hqp
      rw [hqp, hcommitted]
    · exact Iff.rfl

/-- A call that holds a lock ends without a rename. -/
theorem Inv.leave (h : s.Inv empty initial rewrite) {p : ι} {i : ℕ}
    {phase : Phase C}
    (hp : (s.phase p).holds = some i) (hphase : phase.holds = none)
    (hcommitted : phase.isCommitted = (s.phase p).isCommitted) :
    ((s.setOwner i none).goto p phase).Inv empty initial rewrite := by
  refine h.goto ?_ ?_ ?_ ?_ ?_ hcommitted
  · intro q hqp hq
    exact absurd hq (h.not_holds hp hqp)
  · intro j hj
    rw [hphase] at hj
    cases hj
  · intro j hj
    rw [Phase.holds_of_critical hj] at hphase
    cases hphase
  · intro j c hj
    rw [hj] at hphase
    cases hphase
  · intro j hj
    rw [hj] at hphase
    cases hphase

/-- A call goes on without a change to a lock or a file. -/
theorem Inv.proceed (h : s.Inv empty initial rewrite) {p : ι} {phase : Phase C}
    (hholds : ∀ j, phase.holds = some j → (s.phase p).holds = some j)
    (hcurrent : ∀ j, phase.critical = some j → (s.phase p).critical = some j)
    (hupdated : ∀ j c, phase = .updated j c → c = rewrite p (s.stored empty))
    (hwritten : ∀ j, phase = .written j →
      ∃ k, s.tmp = some k ∧ s.contents k = rewrite p (s.stored empty))
    (hcommitted : phase.isCommitted = (s.phase p).isCommitted) :
    (s.goto p phase).Inv empty initial rewrite := by
  have hsame : s.setOwner 0 (s.owner 0) = s := by
    rw [setOwner, Function.update_eq_self]
  have hmoved :
      ((s.setOwner 0 (s.owner 0)).goto p phase).Inv empty initial rewrite := by
    refine h.goto ?_ ?_ ?_ hupdated hwritten hcommitted
    · intro q _ hq
      exact h.holds q 0 hq
    · intro j hj
      rw [Function.update_eq_self]
      exact h.holds p j (hholds j hj)
    · intro j hj
      exact h.current p j (hcurrent j hj)
  rwa [hsame] at hmoved

/-- A call goes to a phase without a lock from one without a lock. -/
theorem Inv.free (h : s.Inv empty initial rewrite) {p : ι} {phase : Phase C}
    (hphase : phase.holds = none)
    (hcommitted : phase.isCommitted = (s.phase p).isCommitted) :
    (s.goto p phase).Inv empty initial rewrite := by
  refine h.proceed ?_ ?_ ?_ ?_ hcommitted
  · intro j hj
    rw [hphase] at hj
    cases hj
  · intro j hj
    rw [Phase.holds_of_critical hj] at hphase
    cases hphase
  · intro j c hj
    rw [hj] at hphase
    cases hphase
  · intro j hj
    rw [hj] at hphase
    cases hphase

/-- A rename lets the file come from one more update. -/
theorem Inv.rename (h : s.Inv empty initial rewrite) {p : ι} {i : ℕ}
    (hp : s.phase p = .written i) :
    (s.rename p i).Inv empty initial rewrite := by
  have hcritical : (s.phase p).critical = some i := by
    rw [hp, Phase.critical]
  obtain ⟨j, htmp, hcontents⟩ := h.written p i hp
  have hphase : ∀ q, (s.rename p i).phase q = if q = p then .renamed i
      else s.phase q := by
    intro q
    rw [UsageDir.rename, htmp]
    exact Function.update_apply s.phase p _ q
  have howner : (s.rename p i).owner = s.owner := by
    rw [UsageDir.rename, htmp]
    rfl
  have hstored : (s.rename p i).stored empty = rewrite p (s.stored empty) := by
    rw [← hcontents, UsageDir.rename, htmp]
    rfl
  -- Nobody else is between a lock and a rename.
  have hnone : ∀ q k, ((s.rename p i).phase q).critical ≠ some k := by
    intro q k hq
    rw [hphase] at hq
    split at hq
    · cases hq
    · rename_i hqp
      exact hqp (h.unique hq hcritical)
  refine ⟨?_, fun q k hq => absurd hq (hnone q k), ?_, ?_, ?_, ?_, ?_, ?_⟩
  · intro q k hq
    rw [hphase] at hq
    rw [howner]
    split at hq
    · rename_i hqp
      rw [hqp]
      exact h.holds p k (by rw [hp]; exact hq)
    · exact h.holds q k hq
  · intro q k c hq
    exact absurd (by rw [hq, Phase.critical]) (hnone q k)
  · intro q k hq
    exact absurd (by rw [hq, Phase.critical]) (hnone q k)
  · intro k _
    rw [UsageDir.rename, htmp]
    exact (Option.some_ne_none k).symm
  · intro k hk
    rw [UsageDir.rename, htmp] at hk ⊢
    exact h.tmp_lt k (htmp.trans hk)
  · intro k hk
    rw [UsageDir.rename, htmp] at hk
    cases hk
  · rw [hstored]
    refine h.serial.commit (i := p) ?_ ?_
    · rw [hp]
      exact Bool.false_ne_true
    · intro q
      rw [hphase]
      by_cases hqp : q = p
      · rw [if_pos hqp]
        exact ⟨fun _ => .inr hqp, fun _ => rfl⟩
      · rw [if_neg hqp]
        exact ⟨.inl, fun hq => hq.resolve_right hqp⟩

/-- Locking the current file keeps the invariant. -/
theorem Inv.lockExclusive (h : s.Inv empty initial rewrite) {p : ι} {i : ℕ}
    (hp : s.phase p = .opened i) (hok : s.LocksCurrent (.step p)) :
    (s.lockExclusive p i).Inv empty initial rewrite := by
  rw [UsageDir.lockExclusive]
  split
  · rename_i hfree
    rw [LocksCurrent, hp] at hok
    have hpath := hok hfree
    refine h.goto ?_ ?_ ?_ ?_ ?_ (by rw [hp]; rfl)
    · intro q _ hq
      rw [h.holds q i hq] at hfree
      cases hfree
    · intro j hj
      rw [← Option.some.inj hj]
      exact Function.update_self ..
    · intro j hj
      rw [← Option.some.inj hj]
      exact hpath
    · intro j c hj
      cases hj
    · intro j hj
      cases hj
  · exact h

/-- Updating what is stored keeps the invariant. -/
theorem Inv.update (h : s.Inv empty initial rewrite) {p : ι} {i : ℕ}
    (hp : s.phase p = .locked i) :
    (s.goto p (.updated i (rewrite p (s.contents i)))).Inv empty
      initial rewrite := by
  have hcritical : (s.phase p).critical = some i := by
    rw [hp, Phase.critical]
  refine h.proceed ?_ ?_ ?_ ?_ (by rw [hp]; rfl)
  · intro j hj
    rw [hp]
    exact hj
  · intro j hj
    rw [hp]
    exact hj
  · intro j c hj
    cases hj
    rw [stored, h.current p i hcritical]
    rfl
  · intro j hj
    cases hj

/-- Writing the temporary file keeps the invariant. -/
theorem Inv.write (h : s.Inv empty initial rewrite) {p : ι} {i : ℕ} {c : C}
    (hp : s.phase p = .updated i c) :
    ((s.putTmp c).goto p (.written i)).Inv empty initial rewrite := by
  have hcritical : (s.phase p).critical = some i := by
    rw [hp, Phase.critical]
  have hnone := h.not_written hcritical fun j hj => by rw [hp] at hj; cases hj
  have hstored := h.stored_putTmp c
  have hsame : (s.putTmp c).phase p = .updated i c := by
    rw [phase_putTmp, hp]
  refine (h.putTmp hnone c).proceed ?_ ?_ ?_ ?_ (by rw [hsame]; rfl)
  · intro j hj
    rw [hsame]
    exact hj
  · intro j hj
    rw [hsame]
    exact hj
  · intro j c hj
    cases hj
  · intro j _
    obtain ⟨k, htmp, -, -, -, hcontents⟩ := s.putTmp_spec c h.tmp_lt
    refine ⟨k, htmp, ?_⟩
    rw [hcontents, Function.update_self, hstored]
    exact h.updated p i c hp

/-- A step that locks the current file, if it locks any, keeps the invariant. -/
theorem Inv.advance (h : s.Inv empty initial rewrite) {p : ι}
    (hok : s.LocksCurrent (.step p)) :
    (s.advance empty rewrite p).Inv empty initial rewrite := by
  rw [UsageDir.advance]
  cases hp : s.phase p with
  | idle =>
      change (s.openFile empty p).Inv empty initial rewrite
      rw [openFile]
      cases hpath : s.path with
      | some i => exact h.free rfl (by rw [hp]; rfl)
      | none =>
          exact (h.create hpath).free rfl (by
            rw [show (s.create empty).phase p = _ from hp]; rfl)
  | opened i => exact h.lockExclusive hp hok
  | locked i => exact h.update hp
  | updated i c => exact h.write hp
  | written i => exact h.rename hp
  | renamed i => exact h.leave (by rw [hp, Phase.holds]) rfl (by rw [hp]; rfl)
  | returned => exact h
  | failed applied => exact h

/-- A step that fails keeps the invariant. -/
theorem Inv.abort (h : s.Inv empty initial rewrite) (p : ι) (left : Option C) :
    (s.abort p left).Inv empty initial rewrite := by
  rw [UsageDir.abort]
  cases hp : s.phase p with
  | idle => exact h.free rfl (by rw [hp]; rfl)
  | opened i => exact h.free rfl (by rw [hp]; rfl)
  | locked i => exact h.leave (by rw [hp, Phase.holds]) rfl (by rw [hp]; rfl)
  | updated i c =>
      cases left with
      | none => exact h.leave (by rw [hp, Phase.holds]) rfl (by rw [hp]; rfl)
      | some junk =>
          have hcritical : (s.phase p).critical = some i := by
            rw [hp, Phase.critical]
          have hnone := h.not_written hcritical fun j hj => by
            rw [hp] at hj; cases hj
          have hsame : (s.putTmp junk).phase p = .updated i c := by
            rw [phase_putTmp, hp]
          exact (h.putTmp hnone junk).leave (by rw [hsame, Phase.holds]) rfl (by
            rw [hsame]; rfl)
  | written i =>
      have hcritical : (s.phase p).critical = some i := by
        rw [hp, Phase.critical]
      have hleft :
          ((s.setOwner i none).goto p (.failed false)).Inv empty
            initial rewrite :=
        h.leave (by rw [hp, Phase.holds]) rfl (by rw [hp]; rfl)
      refine hleft.dropTmp ?_
      intro q j hq
      have hphase : ((s.setOwner i none).goto p (.failed false)).phase q =
          if q = p then .failed false else s.phase q :=
        Function.update_apply s.phase p _ q
      rw [hphase] at hq
      split at hq
      · cases hq
      · rename_i hqp
        exact hqp (h.unique (by rw [hq, Phase.critical]) hcritical)
  | renamed i => exact h.leave (by rw [hp, Phase.holds]) rfl (by rw [hp]; rfl)
  | returned => exact h
  | failed applied => exact h

/-- A step that locks the current file, if it locks any, keeps the invariant. -/
theorem Inv.next (h : s.Inv empty initial rewrite) {turn : Turn ι C}
    (hok : s.LocksCurrent turn) :
    (s.next empty rewrite turn).Inv empty initial rewrite := by
  cases turn with
  | step p => exact h.advance hok
  | fail p left => exact h.abort p left

/-- Along calls that lock the current file, the file always comes from the
first one by the updates of the calls that have renamed, one after the other. -/
theorem throughout_serial {file tmp : Option C} {schedule : List (Turn ι C)}
    (h : Along (next empty rewrite) LocksCurrent
      (start empty file tmp) schedule) :
    Throughout (next empty rewrite)
      (fun s => Serial rewrite (file.getD empty)
        (fun p => (s.phase p).isCommitted)
        (s.stored empty)) (start empty file tmp) schedule := by
  have hinv := h.throughout (P := Inv empty (file.getD empty) rewrite)
    (fun _ _ hs hok => hs.next hok) (inv_start empty rewrite file tmp)
  exact hinv.mono fun _ hs => hs.serial

end UsageDir

end CodeRs.AccountUsage

/-! ## Totals of concurrent calls

The recording functions of `core/src/account_usage.rs` as calls of
`with_usage_file`.  The recorded usages all add up in the file, if every call
that gets its lock gets it on the file that is at the path. -/

namespace CodeRs.AccountUsage

open scoped BigOperators

/-- What the JSON parser makes of the file. -/
inductive UsageContents where
  | blank
  | invalid
  | json (data : AccountUsageData)
  deriving DecidableEq

/-- The data that `with_usage_file` starts with. -/
def UsageContents.load (accountId : String) (now : DateTime) :
    UsageContents → AccountUsageData
  | blank => .new accountId now
  | invalid => .new accountId now
  | json data => { data with version := usageVersion }

def UsageContents.totals : UsageContents → TokenTotals
  | json data => data.totals
  | _ => 0

/-- The functions that record something. -/
inductive RecordCall where
  | tokenUsage (usage : TokenUsage)
  | rateLimitSnapshot (snapshot : RateLimitSnapshot)
  | usageLimitHint (resetsInSeconds : Option ℕ)
  | rateLimitWarning (scope : RateLimitWarningScope) (threshold : ℚ)
      (resetAt : Option DateTime)

/-- A call with its arguments, and the time at which it makes new data if it
has to. -/
structure UsageCall where
  accountId : String
  plan : Option String
  observedAt : DateTime
  now : DateTime
  record : RecordCall

namespace UsageCall

variable (call : UsageCall)

/-- The `update` that the call passes to `with_usage_file`. -/
def update (data : AccountUsageData) : AccountUsageData :=
  match call.record with
  | .tokenUsage usage => data.recordTokenUsage usage call.observedAt
  | .rateLimitSnapshot snapshot =>
      data.recordRateLimitSnapshot snapshot call.observedAt
  | .usageLimitHint resets => data.recordUsageLimitHint resets call.observedAt
  | .rateLimitWarning scope threshold resetAt =>
      data.recordRateLimitWarning scope threshold resetAt call.observedAt

/-- The file that the call writes for the one it has read. -/
def rewrite (contents : UsageContents) : UsageContents :=
  .json
    (call.update ((contents.load call.accountId call.now).applyPlan call.plan))

/-- The usage that the call records. -/
def recorded : TokenTotals :=
  match call.record with
  | .tokenUsage usage => .fromUsage usage
  | _ => 0

theorem totals_update (data : AccountUsageData) :
    (call.update data).totals = data.totals + call.recorded := by
  rw [update, recorded]
  cases call.record with
  | tokenUsage usage => exact TokenTotals.addUsage_eq data.totals usage
  | rateLimitSnapshot snapshot => exact (add_zero _).symm
  | usageLimitHint resets => exact (add_zero _).symm
  | rateLimitWarning scope threshold resetAt => exact (add_zero _).symm

theorem totals_rewrite (contents : UsageContents) :
    (call.rewrite contents).totals = contents.totals + call.recorded := by
  refine (call.totals_update _).trans ?_
  cases contents <;> rfl

end UsageCall

/-! ## No update is lost -/

variable {ι : Type*} [DecidableEq ι] [Fintype ι]

/-- The step function for some calls. -/
def nextUsage (calls : ι → UsageCall) :
    UsageDir ι UsageContents → Turn ι UsageContents →
      UsageDir ι UsageContents :=
  UsageDir.next .blank fun p => (calls p).rewrite

/-- The stored totals are those of the first file and all that the calls have
recorded that have replaced the file; at the end these are all calls. -/
structure Lossless (calls : ι → UsageCall) (initial : UsageContents)
    (s : UsageDir ι UsageContents) : Prop where
  committed : (s.stored .blank).totals =
    initial.totals + ∑ p with (s.phase p).isCommitted, (calls p).recorded
  returned : (∀ p, s.phase p = .returned) →
    (s.stored .blank).totals = initial.totals + ∑ p, (calls p).recorded

/-- In every run in which a call that gets its lock gets it on the file that is
at the path, no recorded usage is lost. -/
theorem throughout_lossless (calls : ι → UsageCall)
    (file tmp : Option UsageContents)
    (schedule : List (Turn ι UsageContents))
    (h : Along (nextUsage calls) UsageDir.LocksCurrent
      (.start .blank file tmp) schedule) :
    Throughout (nextUsage calls) (Lossless calls (file.getD .blank))
      (.start .blank file tmp)
      schedule := by
  have hserial := UsageDir.throughout_serial h
  refine hserial.mono ?_
  intro s hs
  have hcommitted :=
    hs.measure_eq UsageContents.totals (fun p => (calls p).recorded)
      fun p => (calls p).totals_rewrite
  refine ⟨hcommitted, ?_⟩
  intro hreturned
  rw [hcommitted]
  congr 1
  refine Finset.sum_congr ?_ fun _ _ => rfl
  rw [Finset.filter_eq_self]
  intro p _
  rw [hreturned p]
  rfl

/-! ## Two calls -/

/-- A call that records one token. -/
def oneToken : UsageCall where
  accountId := "a"
  plan := none
  observedAt := 0
  now := 0
  record := .tokenUsage ⟨⟨1, by decide⟩, 0, 0, 0, ⟨1, by decide⟩⟩

/-- All steps of a call, from its lock on. -/
def fromLock (p : Bool) : List (Turn Bool UsageContents) :=
  List.replicate 5 (.step p)

/-- Two calls one after the other. -/
theorem lossless_oneByOne :
    Throughout (nextUsage
      fun _ : Bool => oneToken) (Lossless (fun _ => oneToken) .blank)
      (.start .blank none none)
      (.step true :: fromLock true ++ .step false :: fromLock false) :=
  throughout_lossless (fun _ => oneToken) none none _ (by decide)

/-- A call that opens the file while another one has it locked loses the usage
of the other. -/
theorem not_lossless_overlapping :
    let last :=
      after (nextUsage fun _ : Bool => oneToken) (.start .blank none none)
        (.step true :: .step false :: fromLock true ++ fromLock false)
    (∀ p, last.phase p = .returned) ∧
      (last.stored .blank).totals ≠ UsageContents.blank.totals + ∑ _ : Bool,
        oneToken.recorded := by
  decide

end CodeRs.AccountUsage
