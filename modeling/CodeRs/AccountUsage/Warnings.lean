import CodeRs.AccountUsage.Data
import CodeRs.Lib.Runs
import Mathlib.Data.List.Chain

/-!
# Relogging of rate limit warnings

A run of polls of `record_threshold_log` in `core/src/account_usage.rs` for one
threshold, and the rules for when a poll may warn again.  The poll of a stored
reset already counts as late five seconds before it, but a warning that is
given then does not count as one that is given after it, so it may be given
again.
-/

namespace CodeRs.AccountUsage

/-! ## One poll -/

/-- A poll: the reset time that is reported, and the time of the poll. -/
structure Poll where
  resetAt : DateTime
  observedAt : DateTime
  deriving DecidableEq

/-- The poll of a record with a reset time and a warning time, where the
reported reset is not much earlier. -/
theorem RateLimitWarningRecord.poll_eq {threshold : ℚ}
    {prev logged next observedAt : DateTime}
    (hnext : prev ≤ next + resetPassedTolerance) :
    (RateLimitWarningRecord.mk threshold (some prev) (some logged)).poll
      (some next) observedAt =
      if prev ≤ observedAt + resetPassedTolerance ∧ logged < prev then
        (⟨threshold, some next, some observedAt⟩, true)
      else (⟨threshold, some next, some logged⟩, false) := by
  have hmoved : ¬ next + resetPassedTolerance < prev := not_lt.2 hnext
  by_cases helapsed : prev ≤ observedAt + resetPassedTolerance
  · by_cases hlogged : logged < prev
    · simp [poll, helapsed, hlogged]
    · simp [poll, hmoved, helapsed, hlogged, not_lt.1 hlogged]
  · simp [poll, hmoved, helapsed]

theorem RateLimitWarningRecord.poll_threshold (record : RateLimitWarningRecord)
    (resetAt : Option DateTime) (observedAt : DateTime) :
    (record.poll resetAt observedAt).1.threshold = record.threshold := by
  unfold poll
  simp only
  split <;> rfl

variable {threshold : ℚ} {logs : List RateLimitWarningRecord}

theorem RateLimitWarningRecord.isAbout_self
    (resetAt loggedAt : Option DateTime) :
    (RateLimitWarningRecord.mk threshold resetAt loggedAt).isAbout
      threshold := by
  simp [isAbout]

theorem find?_isAbout_cons (existing : RateLimitWarningRecord)
    (rest : List RateLimitWarningRecord) :
    (existing :: rest).find? (·.isAbout threshold) =
      if existing.isAbout threshold then some existing
      else rest.find? (·.isAbout threshold) := by
  rw [List.find?_cons]
  cases existing.isAbout threshold <;> rfl

theorem recordThresholdLog_of_find {record : RateLimitWarningRecord}
    (h : logs.find? (·.isAbout threshold) = some record)
    (resetAt : Option DateTime)
    (observedAt : DateTime) :
    (recordThresholdLog threshold resetAt observedAt logs).2 =
        (record.poll resetAt observedAt).2 ∧
      (recordThresholdLog threshold resetAt observedAt logs).1.find?
        (·.isAbout threshold) =
        some (record.poll resetAt observedAt).1 := by
  induction logs with
  | nil => cases h
  | cons existing rest ih =>
      rw [find?_isAbout_cons] at h
      rw [recordThresholdLog]
      by_cases habout : existing.isAbout threshold
      · rw [if_pos habout] at h ⊢
        have hrecord := Option.some.inj h
        subst hrecord
        have hkept :
            (existing.poll resetAt observedAt).1.isAbout threshold := by
          rw [RateLimitWarningRecord.isAbout,
            RateLimitWarningRecord.poll_threshold]
          exact habout
        rw [find?_isAbout_cons, if_pos hkept]
        exact ⟨rfl, rfl⟩
      · rw [if_neg habout] at h ⊢
        rw [find?_isAbout_cons, if_neg habout]
        exact ih h

/-- Without a record about the threshold, a poll warns and adds one. -/
theorem recordThresholdLog_of_find_none
    (h : logs.find? (·.isAbout threshold) = none)
    (resetAt : Option DateTime) (observedAt : DateTime) :
    (recordThresholdLog threshold resetAt observedAt logs).2 = true ∧
      (recordThresholdLog threshold resetAt observedAt logs).1.find?
        (·.isAbout threshold) =
        some ⟨threshold, resetAt, some observedAt⟩ := by
  induction logs with
  | nil =>
      rw [recordThresholdLog, find?_isAbout_cons,
        if_pos (RateLimitWarningRecord.isAbout_self resetAt (some observedAt))]
      exact ⟨rfl, rfl⟩
  | cons existing rest ih =>
      have habout : ¬ existing.isAbout threshold :=
        List.find?_eq_none.1 h existing List.mem_cons_self
      rw [find?_isAbout_cons, if_neg habout] at h
      rw [recordThresholdLog, if_neg habout, find?_isAbout_cons, if_neg habout]
      exact ih h

/-! ## Runs of polls -/

variable (threshold) (logs)

def logsAfterPoll (logs : List RateLimitWarningRecord) (poll : Poll) :
    List RateLimitWarningRecord :=
  (recordThresholdLog threshold (some poll.resetAt) poll.observedAt logs).1

/-- The record about the threshold after some polls. -/
def storedRecord (before : List Poll) : Option RateLimitWarningRecord :=
  (after (logsAfterPoll threshold) logs before).find? (·.isAbout threshold)

/-- The reset time that is stored after some polls. -/
def storedReset (before : List Poll) : Option DateTime :=
  (storedRecord threshold logs before).bind (·.resetAt)

/-- The time that is stored for the last warning. -/
def storedLogged (before : List Poll) : Option DateTime :=
  (storedRecord threshold logs before).bind (·.loggedAt)

/-- The poll after some others warns. -/
def Warns (before : List Poll) (poll : Poll) : Prop :=
  (recordThresholdLog threshold (some poll.resetAt) poll.observedAt
    (after (logsAfterPoll threshold) logs before)).2 = true

/-- The times of the warnings that some polls give. -/
def warnings : List RateLimitWarningRecord → List Poll → List DateTime
  | _, [] => []
  | logs, poll :: rest =>
      let later := warnings (logsAfterPoll threshold logs poll) rest
      if (recordThresholdLog threshold (some poll.resetAt)
        poll.observedAt logs).2 then
        poll.observedAt :: later
      else later

/-- Polls at later and later times, whose reset times move to earlier ones by
no more than the tolerance. -/
structure SteadyPolls (polls : List Poll) : Prop where
  times : polls.Pairwise (·.observedAt < ·.observedAt)
  resets : polls.IsChain fun poll next =>
    poll.resetAt ≤ next.resetAt + resetPassedTolerance

/-- The rules of relogging.  The first poll warns.  A stored reset unlocks at
most one warning. After a warning every poll before the stored reset stays
silent, whatever resets were reported in between.  The poll at or after the
stored reset warns, unless a warning was given at or after it. -/
structure RelogRules (polls : List Poll) : Prop where
  first : ∀ poll later, polls = poll :: later → Warns threshold logs [] poll
  once : ∀ before poll between other later reset,
    polls = before ++ poll :: (between ++ other :: later) →
    storedReset threshold logs before = some reset →
    storedReset threshold logs (before ++ poll :: between) = some reset →
    Warns threshold logs before poll →
    ¬ Warns threshold logs (before ++ poll :: between) other
  silent : ∀ before poll between other later reset,
    polls = before ++ poll :: (between ++ other :: later) →
    Warns threshold logs before poll →
    storedReset threshold logs (before ++ poll :: between) = some reset →
    other.observedAt < reset →
    ¬ Warns threshold logs (before ++ poll :: between) other
  passed : ∀ before poll later reset, polls = before ++ poll :: later →
    storedReset threshold logs before = some reset → reset ≤ poll.observedAt →
    (∀ time ∈ warnings threshold logs before, time < reset) →
    Warns threshold logs before poll

/-- No poll is made in the last five seconds before the reset that is stored at
it. -/
def NoEarlyPoll (polls : List Poll) : Prop :=
  ∀ before poll later reset, polls = before ++ poll :: later →
    storedReset threshold logs before = some reset →
    reset ≤ poll.observedAt + resetPassedTolerance → reset ≤ poll.observedAt

/-! ## What is stored -/

variable {threshold} {logs}

theorem after_concat_poll (before : List Poll) (poll : Poll) :
    after (logsAfterPoll threshold) logs (before ++ [poll]) =
      logsAfterPoll threshold (after (logsAfterPoll threshold) logs before)
        poll := by
  rw [after_append]
  rfl

theorem warnings_append (before later : List Poll) :
    warnings threshold logs (before ++ later) =
      warnings threshold logs before ++
      warnings threshold (after (logsAfterPoll threshold) logs before)
        later := by
  induction before generalizing logs with
  | nil => rfl
  | cons poll rest ih =>
      rw [List.cons_append, warnings, warnings, after, ih]
      split
      · rfl
      · rfl

theorem warnings_concat_of_warns {before : List Poll} {poll : Poll}
    (h : Warns threshold logs before poll) :
    warnings threshold logs (before ++ [poll]) =
      warnings threshold logs before ++ [poll.observedAt] := by
  rw [Warns] at h
  rw [warnings_append, warnings, if_pos h, warnings]

theorem warnings_concat_of_not_warns {before : List Poll} {poll : Poll}
    (h : ¬ Warns threshold logs before poll) :
    warnings threshold logs (before ++ [poll]) =
      warnings threshold logs before := by
  rw [Warns] at h
  rw [warnings_append, warnings, if_neg h, warnings, List.append_nil]

theorem mem_warnings_of_warns {before : List Poll} {poll : Poll}
    (h : Warns threshold logs before poll) (between : List Poll) :
    poll.observedAt ∈ warnings threshold logs (before ++ poll :: between) := by
  rw [List.append_cons, warnings_append, warnings_concat_of_warns h]
  exact List.mem_append_left _ (List.mem_append_right _ List.mem_cons_self)

theorem warnings_sublist (polls : List Poll) :
    (warnings threshold logs polls).Sublist (polls.map (·.observedAt)) := by
  induction polls generalizing logs with
  | nil => exact .slnil
  | cons poll rest ih =>
      rw [warnings, List.map_cons]
      split
      · exact ih.cons_cons _
      · exact ih.cons _

/-- After at least one poll the reset time of the last one and the time of the
last warning are stored. -/
structure Stored (threshold : ℚ) (logs : List RateLimitWarningRecord)
    (before : List Poll)
    (last : Poll) (logged : DateTime) : Prop where
  record : ∃ about : ℚ, storedRecord threshold logs (before ++ [last]) =
    some ⟨about, some last.resetAt, some logged⟩
  warned : (warnings threshold logs (before ++ [last])).getLast? = some logged

namespace Stored

variable {before : List Poll} {last poll : Poll} {logged : DateTime}

theorem reset_eq (h : Stored threshold logs before last logged) :
    storedReset threshold logs (before ++ [last]) = some last.resetAt := by
  obtain ⟨about, hrecord⟩ := h.record
  rw [storedReset, hrecord]
  rfl

theorem logged_eq (h : Stored threshold logs before last logged) :
    storedLogged threshold logs (before ++ [last]) = some logged := by
  obtain ⟨about, hrecord⟩ := h.record
  rw [storedLogged, hrecord]
  rfl

theorem warns_iff (h : Stored threshold logs before last logged)
    (hnext : last.resetAt ≤ poll.resetAt + resetPassedTolerance) :
    Warns threshold logs (before ++ [last]) poll ↔
      last.resetAt ≤ poll.observedAt + resetPassedTolerance ∧
        logged < last.resetAt := by
  obtain ⟨about, hrecord⟩ := h.record
  obtain ⟨hanswer, -⟩ :=
    recordThresholdLog_of_find hrecord (some poll.resetAt) poll.observedAt
  rw [Warns, hanswer, RateLimitWarningRecord.poll_eq hnext]
  split
  next hwarns => exact iff_of_true rfl hwarns
  next hwarns => exact iff_of_false Bool.false_ne_true hwarns

theorem storedRecord_next (h : Stored threshold logs before last logged)
    (hnext : last.resetAt ≤ poll.resetAt + resetPassedTolerance) :
    ∃ about : ℚ, storedRecord threshold logs (before ++ [last] ++ [poll]) =
      if last.resetAt ≤ poll.observedAt + resetPassedTolerance ∧
      logged < last.resetAt then
        some ⟨about, some poll.resetAt, some poll.observedAt⟩
      else some ⟨about, some poll.resetAt, some logged⟩ := by
  obtain ⟨about, hrecord⟩ := h.record
  obtain ⟨-, hstored⟩ :=
    recordThresholdLog_of_find hrecord (some poll.resetAt) poll.observedAt
  rw [RateLimitWarningRecord.poll_eq hnext] at hstored
  refine ⟨about, ?_⟩
  rw [storedRecord, after_concat_poll, logsAfterPoll, hstored]
  split
  · rfl
  · rfl

theorem next_of_warns (h : Stored threshold logs before last logged)
    (hnext : last.resetAt ≤ poll.resetAt + resetPassedTolerance)
    (hwarns : Warns threshold logs (before ++ [last]) poll) :
    Stored threshold logs (before ++ [last]) poll poll.observedAt := by
  obtain ⟨about, hrecord⟩ := h.storedRecord_next hnext
  rw [if_pos ((h.warns_iff hnext).1 hwarns)] at hrecord
  refine ⟨⟨about, hrecord⟩, ?_⟩
  rw [warnings_concat_of_warns hwarns, List.getLast?_concat]

theorem next_of_not_warns (h : Stored threshold logs before last logged)
    (hnext : last.resetAt ≤ poll.resetAt + resetPassedTolerance)
    (hsilent : ¬ Warns threshold logs (before ++ [last]) poll) :
    Stored threshold logs (before ++ [last]) poll logged := by
  obtain ⟨about, hrecord⟩ := h.storedRecord_next hnext
  rw [if_neg fun hcond => hsilent ((h.warns_iff hnext).2 hcond)] at hrecord
  refine ⟨⟨about, hrecord⟩, ?_⟩
  rw [warnings_concat_of_not_warns hsilent]
  exact h.warned

end Stored

namespace SteadyPolls

variable {polls before later : List Poll} {last poll : Poll}

theorem left (h : SteadyPolls (before ++ later)) : SteadyPolls before :=
  ⟨(List.pairwise_append.1 h.times).1, h.resets.left_of_append⟩

theorem reset_le (h : SteadyPolls (before ++ [last] ++ poll :: later)) :
    last.resetAt ≤ poll.resetAt + resetPassedTolerance := by
  have hresets := h.resets
  rw [List.append_assoc] at hresets
  exact (List.isChain_append_cons_cons.1 hresets).2.1

theorem warnings_lt (h : SteadyPolls (before ++ poll :: later)) :
    ∀ time ∈ warnings threshold logs before, time < poll.observedAt := by
  intro time htime
  obtain ⟨earlier, hmem, rfl⟩ :=
    List.mem_map.1 ((warnings_sublist before).subset htime)
  exact (List.pairwise_append.1 h.times).2.2 earlier hmem poll
    List.mem_cons_self

theorem time_lt {between : List Poll} {other : Poll}
    (h : SteadyPolls (before ++ poll :: (between ++ other :: later))) :
    poll.observedAt < other.observedAt := by
  have htail := (List.pairwise_append.1 h.times).2.1
  exact (List.pairwise_cons.1 htail).1 other
    (List.mem_append_right _ List.mem_cons_self)

theorem le_last_warning (h : SteadyPolls polls) {time logged : DateTime}
    (hlast : (warnings threshold logs polls).getLast? = some logged)
    (htime : time ∈ warnings threshold logs polls) : time ≤ logged := by
  have htimes : (warnings threshold logs polls).Pairwise (· < ·) :=
    (List.pairwise_map.2 h.times).sublist (warnings_sublist polls)
  obtain ⟨earlier, heq⟩ := List.getLast?_eq_some_iff.1 hlast
  rw [heq] at htimes htime
  rcases List.mem_append.1 htime with hmem | hmem
  · exact le_of_lt
      ((List.pairwise_append.1 htimes).2.2 time hmem logged List.mem_cons_self)
  · exact le_of_eq (List.mem_singleton.1 hmem)

end SteadyPolls

/-! ## The rules -/

section Rules

variable (hlogs : ∀ record ∈ logs, ¬ record.isAbout threshold)

include hlogs

theorem storedRecord_nil : storedRecord threshold logs [] = none :=
  List.find?_eq_none.2 hlogs

theorem warns_first (poll : Poll) : Warns threshold logs [] poll :=
  (recordThresholdLog_of_find_none (storedRecord_nil hlogs) _ _).1

theorem stored_first (poll : Poll) :
    Stored threshold logs [] poll poll.observedAt := by
  obtain ⟨-, hstored⟩ :=
    recordThresholdLog_of_find_none (storedRecord_nil hlogs)
      (some poll.resetAt) poll.observedAt
  refine ⟨⟨threshold, hstored⟩, ?_⟩
  rw [warnings_concat_of_warns (warns_first hlogs poll), List.getLast?_concat]

theorem exists_stored {before : List Poll} {last : Poll}
    (h : SteadyPolls (before ++ [last])) :
    ∃ logged, Stored threshold logs before last logged := by
  induction before using List.reverseRecOn generalizing last with
  | nil => exact ⟨last.observedAt, stored_first hlogs last⟩
  | append_singleton before prev ih =>
      obtain ⟨logged, hstored⟩ := ih h.left
      by_cases hwarns : Warns threshold logs (before ++ [prev]) last
      · exact ⟨last.observedAt, hstored.next_of_warns h.reset_le hwarns⟩
      · exact ⟨logged, hstored.next_of_not_warns h.reset_le hwarns⟩

theorem exists_last {before : List Poll} {reset : DateTime}
    (h : storedReset threshold logs before = some reset)
    (hsteady : SteadyPolls before) :
    ∃ earlier last logged, before = earlier ++ [last] ∧ last.resetAt = reset ∧
      Stored threshold logs earlier last logged := by
  rcases List.eq_nil_or_concat' before with rfl | ⟨earlier, last, rfl⟩
  · rw [storedReset, storedRecord_nil hlogs] at h
    cases h
  · obtain ⟨logged, hstored⟩ := exists_stored hlogs hsteady
    rw [hstored.reset_eq] at h
    exact ⟨earlier, last, logged, rfl, Option.some.inj h, hstored⟩

theorem warns_iff_of_storedReset {before later : List Poll} {poll : Poll}
    {reset : DateTime}
    (hsteady : SteadyPolls (before ++ poll :: later))
    (h : storedReset threshold logs before = some reset) :
    ∃ logged, storedLogged threshold logs before = some logged ∧
      (warnings threshold logs before).getLast? = some logged ∧
      (Warns threshold logs before poll ↔
        reset ≤ poll.observedAt + resetPassedTolerance ∧ logged < reset) := by
  obtain ⟨earlier, last, logged, rfl, rfl, hstored⟩ :=
    exists_last hlogs h hsteady.left
  exact ⟨logged, hstored.logged_eq, hstored.warned,
    hstored.warns_iff hsteady.reset_le⟩

/-- The rules hold of a run of polls exactly if no poll is made in the last
five seconds before the reset that is stored at it. -/
theorem relogRules_iff {polls : List Poll} (hsteady : SteadyPolls polls) :
    RelogRules threshold logs polls ↔ NoEarlyPoll threshold logs polls := by
  constructor
  · rintro hrules before poll later reset rfl hreset hlate
    obtain ⟨logged, -, hlast, hwarns⟩ :=
      warns_iff_of_storedReset hlogs hsteady hreset
    have hbefore : logged < poll.observedAt :=
      hsteady.warnings_lt logged (List.mem_of_getLast? hlast)
    by_contra hearly
    have hwarned := hwarns.2 ⟨hlate, hbefore.trans (not_le.1 hearly)⟩
    cases before with
    | nil =>
        rw [storedReset, storedRecord_nil hlogs] at hreset
        cases hreset
    | cons first between =>
        exact hrules.silent []
          first between poll later reset rfl (hrules.first first _ rfl) hreset
          (not_le.1 hearly) hwarned
  · intro hcond
    constructor
    · rintro poll later -
      exact warns_first hlogs poll
    · rintro before poll between other later reset rfl hreset hreset'
        hwarned hagain
      have hpassed :=
        hcond before poll (between ++ other :: later) reset rfl hreset
      obtain ⟨logged, -, -, hwarns⟩ :=
        warns_iff_of_storedReset hlogs hsteady hreset
      have hreached := hpassed (hwarns.1 hwarned).1
      rw [← List.cons_append, ← List.append_assoc] at hsteady
      obtain ⟨logged', -, hlast', hwarns'⟩ :=
        warns_iff_of_storedReset hlogs hsteady hreset'
      have hle : poll.observedAt ≤ logged' :=
        hsteady.left.le_last_warning hlast'
          (mem_warnings_of_warns hwarned between)
      exact absurd (hwarns'.1 hagain).2 (not_lt.2 (hreached.trans hle))
    · rintro before poll between other later reset rfl - hreset hearly hagain
      rw [← List.cons_append, ← List.append_assoc] at hsteady hcond
      have hpassed :=
        hcond (before ++ poll :: between) other later reset rfl hreset
      obtain ⟨logged, -, -, hwarns⟩ :=
        warns_iff_of_storedReset hlogs hsteady hreset
      exact absurd (hpassed (hwarns.1 hagain).1) (not_le.2 hearly)
    · rintro before poll later reset rfl hreset hpassed hnone
      obtain ⟨logged, -, hlast, hwarns⟩ :=
        warns_iff_of_storedReset hlogs hsteady hreset
      have htolerance : (0 : ℤ) ≤ resetPassedTolerance := by decide
      have hlate : reset ≤ poll.observedAt + resetPassedTolerance :=
        hpassed.trans (Int.le_add_of_nonneg_right htolerance)
      exact hwarns.2 ⟨hlate, hnone logged (List.mem_of_getLast? hlast)⟩

end Rules

/-- A poll four seconds before the stored reset warns, and the next one a
second later does so again. -/
theorem not_relogRules_early :
    let polls :=
      [Poll.mk (seconds 100) 0, ⟨seconds 100, seconds 96⟩,
        ⟨seconds 100, seconds 97⟩]
    SteadyPolls polls ∧ ¬ RelogRules 75 [] polls := by
  refine ⟨⟨by decide, by decide⟩, fun h => ?_⟩
  have hfirst : Stored 75 [] [] ⟨seconds 100, 0⟩ 0 := stored_first (by simp) _
  have hwarned : Warns 75 [] [⟨seconds 100, 0⟩] ⟨seconds 100, seconds 96⟩ :=
    (hfirst.warns_iff (by decide)).2 (by decide)
  have hsecond := hfirst.next_of_warns (by decide) hwarned
  have hagain : Warns 75 [] ([⟨seconds 100, 0⟩] ++ [⟨seconds 100, seconds 96⟩])
      ⟨seconds 100, seconds 97⟩ :=
    (hsecond.warns_iff (by decide)).2 (by decide)
  exact h.once [⟨seconds 100, 0⟩] ⟨seconds 100, seconds 96⟩ [] ⟨seconds 100,
    seconds 97⟩ []
    (seconds 100) rfl hfirst.reset_eq hsecond.reset_eq hwarned hagain

/-- Polls well before a reset and at it. -/
theorem relogRules_atReset :
    RelogRules 75 []
      [Poll.mk (seconds 100) 0, ⟨seconds 100, seconds 50⟩,
        ⟨seconds 100, seconds 100⟩] := by
  refine (relogRules_iff (by simp) ⟨by decide, by decide⟩).2 ?_
  rintro before poll later reset hsplit hreset hlate
  have hsteady : SteadyPolls (before ++ poll :: later) := by
    rw [← hsplit]
    exact ⟨by decide, by decide⟩
  obtain ⟨earlier, last, logged, rfl, rfl, -⟩ :=
    exists_last (by simp) hreset hsteady.left
  have hall : ∀ p ∈ [Poll.mk (seconds 100) 0, ⟨seconds 100, seconds 50⟩,
      ⟨seconds 100, seconds 100⟩], p.resetAt = seconds 100 ∧
        (p.observedAt + resetPassedTolerance < seconds 100 ∨
          seconds 100 ≤ p.observedAt) := by
    decide
  rw [hsplit] at hall
  have hlast := (hall last (by simp)).1
  rw [hlast] at hlate ⊢
  exact (hall poll (by simp)).2.resolve_left (not_lt.2 hlate)

end CodeRs.AccountUsage
