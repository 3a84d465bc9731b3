import CodeRs.AccountUsage.Locking
import CodeRs.Lib.Runs

/-!
# Attempts to refresh the rate limits

`mark_rate_limit_refresh_attempt_if_due` of `core/src/account_usage.rs`, and
runs of it on the file of an account.  A snapshot of the last five seconds
before a reset counts as one that is taken after it.  A call may already be due
in these seconds, but an attempt that is made then does not count as one that
is made after the reset.
-/

namespace CodeRs.AccountUsage

/-! ## One call -/

/-- The last attempt is as long ago as the interval, or there is none. -/
def staleAttempt (lastAttempt : Option DateTime) (now : DateTime)
    (staleInterval : ℤ) : Bool :=
  match lastAttempt with
  | some attempt => staleInterval ≤ now - attempt
  | none => true

/-- `refresh_due` of `mark_rate_limit_refresh_attempt_if_due`. -/
def RateLimitInfo.refreshDue (info : RateLimitInfo) (resetAt : Option DateTime)
    (now : DateTime) (staleInterval : ℤ) : Bool :=
  let lastAttempt := info.lastRefreshAttemptAt
  let lastObserved := info.observedAt
  match resetAt with
  | some resetAt =>
      if now + resetPassedTolerance < resetAt then false
      else if lastObserved.any (resetAt ≤ · + resetPassedTolerance) then
        -- A snapshot is stored at or after this reset.
        false
      else
        let attemptedAfterReset := lastAttempt.any (resetAt ≤ ·)
        if !attemptedAfterReset then true
        else staleAttempt lastAttempt now staleInterval
  | none => staleAttempt lastAttempt now staleInterval

/-- What `mark_rate_limit_refresh_attempt_if_due` does to the data, and what it
returns. -/
def AccountUsageData.markRefreshAttemptIfDue (data : AccountUsageData)
    (resetAt : Option DateTime) (now : DateTime) (staleInterval : ℤ) :
    AccountUsageData × Bool :=
  let hadInfo := data.rateLimit.isSome
  let info := data.rateLimitInfo
  let refreshDue := info.refreshDue resetAt now staleInterval
  let info := if refreshDue then { info with lastRefreshAttemptAt := some now }
    else info
  ({ data with rateLimit := if refreshDue || hadInfo then some info else none },
    refreshDue)

/-- A call with its arguments, and the time at which it makes new data if it
has to. -/
structure RefreshCall where
  accountId : String
  plan : Option String
  resetAt : Option DateTime
  now : DateTime
  clock : DateTime

variable (staleInterval : ℤ)

/-- `mark_rate_limit_refresh_attempt_if_due` on the file of an account. -/
def RefreshCall.run (call : RefreshCall) (contents : UsageContents) :
    UsageContents × Bool :=
  let data := (contents.load call.accountId call.clock).applyPlan call.plan
  let marked := data.markRefreshAttemptIfDue call.resetAt call.now staleInterval
  (.json marked.1, marked.2)

/-- The rate limit data in a file. -/
def UsageContents.rateLimit : UsageContents → Option RateLimitInfo
  | json data => data.rateLimit
  | _ => none

def UsageContents.lastAttempt (contents : UsageContents) : Option DateTime :=
  contents.rateLimit.bind (·.lastRefreshAttemptAt)

/-- The time of the snapshot that a file has. -/
def UsageContents.observedAt (contents : UsageContents) : Option DateTime :=
  contents.rateLimit.bind (·.observedAt)

section OneCall

variable {staleInterval} (call : RefreshCall) (contents : UsageContents)

theorem rateLimit_load (accountId : String) (now : DateTime) :
    (contents.load accountId now).rateLimit = contents.rateLimit := by
  cases contents with
  | blank => rfl
  | invalid => rfl
  | json data => rfl

theorem run_snd : (call.run staleInterval contents).2 =
    (contents.rateLimit.getD .default).refreshDue call.resetAt call.now
      staleInterval := by
  rw [← rateLimit_load contents call.accountId call.clock]
  rfl

theorem rateLimit_mark (data : AccountUsageData) (resetAt : Option DateTime)
    (now : DateTime) :
    (data.markRefreshAttemptIfDue resetAt now staleInterval).1.rateLimit =
      if data.rateLimitInfo.refreshDue resetAt now staleInterval then
        some { data.rateLimitInfo with lastRefreshAttemptAt := some now }
      else data.rateLimit := by
  rw [AccountUsageData.markRefreshAttemptIfDue]
  simp only
  cases data.rateLimitInfo.refreshDue resetAt now staleInterval with
  | true => rfl
  | false =>
      rw [AccountUsageData.rateLimitInfo]
      cases data.rateLimit with
      | none => rfl
      | some info => rfl

theorem rateLimit_run : (call.run staleInterval contents).1.rateLimit =
    if (call.run staleInterval contents).2 then
      some { contents.rateLimit.getD .default with
        lastRefreshAttemptAt := some call.now }
    else contents.rateLimit := by
  rw [run_snd, ← rateLimit_load contents call.accountId call.clock]
  exact rateLimit_mark
    ((contents.load call.accountId call.clock).applyPlan call.plan)
    call.resetAt call.now

theorem lastAttempt_run : (call.run staleInterval contents).1.lastAttempt =
    if (call.run staleInterval contents).2 then some call.now
      else contents.lastAttempt := by
  rw [UsageContents.lastAttempt, rateLimit_run]
  split
  · rfl
  · rfl

/-- When a call without a reset time returns true. -/
theorem run_snd_of_none (hreset : call.resetAt = none) :
    (call.run staleInterval contents).2 =
      staleAttempt contents.lastAttempt call.now staleInterval := by
  rw [run_snd, hreset, RateLimitInfo.refreshDue, UsageContents.lastAttempt]
  cases contents.rateLimit with
  | none => rfl
  | some info => rfl

theorem not_any_le_iff {time : Option DateTime} {bound shift : ℤ} :
    ¬ time.any (bound ≤ · + shift) = true ↔
      ∀ t, time = some t → t + shift < bound := by
  cases time with
  | none => simp
  | some t => simp

theorem run_snd_of_some {reset : DateTime}
    (hreset : call.resetAt = some reset) :
    (call.run staleInterval contents).2 = true ↔
      reset ≤ call.now + resetPassedTolerance ∧
        (∀ observed, contents.observedAt = some observed →
          observed + resetPassedTolerance < reset) ∧
        ((∀ attempt, contents.lastAttempt = some attempt → attempt < reset) ∨
          staleAttempt contents.lastAttempt call.now staleInterval = true) := by
  have hattempt : (contents.rateLimit.getD .default).lastRefreshAttemptAt =
      contents.lastAttempt := by
    rw [UsageContents.lastAttempt]
    cases contents.rateLimit with
    | none => rfl
    | some info => rfl
  have hobserved :
      (contents.rateLimit.getD .default).observedAt = contents.observedAt := by
    rw [UsageContents.observedAt]
    cases contents.rateLimit with
    | none => rfl
    | some info => rfl
  have hbefore := @not_any_le_iff contents.lastAttempt reset 0
  simp only [add_zero] at hbefore
  rw [run_snd, hreset, RateLimitInfo.refreshDue, hattempt, hobserved,
    ← not_any_le_iff, ← hbefore]
  simp only
  split
  next hearly =>
    exact iff_of_false Bool.false_ne_true fun h => absurd h.1 (not_le.2 hearly)
  next hlate =>
    rw [and_iff_right (not_lt.1 hlate)]
    split
    next hstored => exact iff_of_false Bool.false_ne_true fun h => h.1 hstored
    next hfresh =>
      rw [and_iff_right hfresh]
      cases contents.lastAttempt.any (reset ≤ ·) with
      | true => simp
      | false => simp

end OneCall

/-! ## Runs of calls -/

def fileAfterCall (contents : UsageContents) (call : RefreshCall) :
    UsageContents :=
  (call.run staleInterval contents).1

abbrev fileAfter (contents : UsageContents) (before : List RefreshCall) :
    UsageContents :=
  after (fileAfterCall staleInterval) contents before

/-- The call after some others returns true. -/
def IsDue (contents : UsageContents) (before : List RefreshCall)
    (call : RefreshCall) : Prop :=
  (call.run staleInterval (fileAfter staleInterval contents before)).2 = true

/-- A call that returns false leaves the rate limit data as they are. -/
def FalseKeeps (contents : UsageContents) (calls : List RefreshCall) : Prop :=
  ∀ before call later, calls = before ++ call :: later →
    ¬ IsDue staleInterval contents before call →
    (fileAfter staleInterval contents (before ++ [call])).rateLimit =
      (fileAfter staleInterval contents before).rateLimit

/-- Calls one after the other, whose reset times, where they have one, do not
go back. -/
structure SteadyCalls (calls : List RefreshCall) : Prop where
  times : calls.Pairwise (·.now ≤ ·.now)
  resets : (calls.filterMap (·.resetAt)).Pairwise (· ≤ ·)

/-- Two calls for the same reset time, or for none, that return true are at
least the interval apart.  A call at or after its reset time returns true if
neither an attempt nor a snapshot is stored at or after that reset. -/
structure RefreshRules (contents : UsageContents) (calls : List RefreshCall) :
    Prop where
  spaced : ∀ before call between other later,
    calls = before ++ call :: (between ++ other :: later) →
      call.resetAt = other.resetAt →
    IsDue staleInterval contents before call →
    IsDue staleInterval contents (before ++ call :: between) other →
    staleInterval ≤ other.now - call.now
  keeps : FalseKeeps staleInterval contents calls
  passed : ∀ before call later reset, calls = before ++ call :: later →
    call.resetAt = some reset → reset ≤ call.now →
    (∀ attempt, (fileAfter staleInterval contents before).lastAttempt =
      some attempt →
      attempt < reset) →
    (∀ observed, (fileAfter staleInterval contents before).observedAt =
      some observed →
      observed < reset) →
    IsDue staleInterval contents before call

/-- The rules where a snapshot of the last five seconds before a reset counts
as one after it, and of two calls for the same reset time the later one finds
an attempt at or after it. -/
structure RefreshRulesAfterReset (contents : UsageContents)
    (calls : List RefreshCall) : Prop where
  spaced : ∀ before call between other later,
    calls = before ++ call :: (between ++ other :: later) →
      call.resetAt = other.resetAt →
    (∀ reset, other.resetAt = some reset → ∃ attempt,
      (fileAfter staleInterval contents
        (before ++ call :: between)).lastAttempt = some attempt ∧
        reset ≤ attempt) →
    IsDue staleInterval contents before call →
    IsDue staleInterval contents (before ++ call :: between) other →
    staleInterval ≤ other.now - call.now
  keeps : FalseKeeps staleInterval contents calls
  passed : ∀ before call later reset, calls = before ++ call :: later →
    call.resetAt = some reset → reset ≤ call.now →
    (∀ attempt, (fileAfter staleInterval contents before).lastAttempt =
      some attempt →
      attempt < reset) →
    (∀ observed, (fileAfter staleInterval contents before).observedAt =
      some observed →
      observed + resetPassedTolerance < reset) →
    IsDue staleInterval contents before call

section Rules

variable {staleInterval} {contents : UsageContents}
    {calls before between : List RefreshCall}
  {call other : RefreshCall}

theorem fileAfter_concat : fileAfter staleInterval contents (before ++ [call]) =
    (call.run staleInterval (fileAfter staleInterval contents before)).1 := by
  rw [fileAfter, after_append]
  rfl

theorem falseKeeps (contents : UsageContents) (calls : List RefreshCall) :
    FalseKeeps staleInterval contents calls := by
  intro before call later _ hfalse
  rw [IsDue] at hfalse
  rw [fileAfter_concat, rateLimit_run, if_neg hfalse]

/-- After a call that returned true the stored attempt is not earlier than
it. -/
theorem exists_lastAttempt (hdue : IsDue staleInterval contents before call)
    (htimes : ∀ later ∈ between, call.now ≤ later.now) :
    ∃ attempt,
      (fileAfter staleInterval contents
        (before ++ call :: between)).lastAttempt =
      some attempt ∧ call.now ≤ attempt := by
  induction between using List.reverseRecOn with
  | nil =>
      refine ⟨call.now, ?_, le_refl _⟩
      rw [IsDue] at hdue
      rw [fileAfter_concat, lastAttempt_run, if_pos hdue]
  | append_singleton between last ih =>
      obtain ⟨attempt, hattempt, hle⟩ :=
        ih fun later hmem => htimes later (List.mem_append_left _ hmem)
      rw [← List.cons_append, ← List.append_assoc, fileAfter_concat,
        lastAttempt_run]
      split
      · exact ⟨last.now, rfl,
          htimes last (List.mem_append_right _ List.mem_cons_self)⟩
      · exact ⟨attempt, hattempt, hle⟩

theorem le_sub_of_staleAttempt {attempt now : DateTime}
    (h : staleAttempt (some attempt) now staleInterval = true) :
    staleInterval ≤ now - attempt :=
  of_decide_eq_true h

/-- The rules hold of every run whose calls are made one after the other. -/
theorem refreshRulesAfterReset_of_times (contents : UsageContents)
    (calls : List RefreshCall)
    (htimes : calls.Pairwise (·.now ≤ ·.now)) :
    RefreshRulesAfterReset staleInterval contents calls where
  spaced := by
    rintro before call between other later rfl hsame hattempted hdue hdue'
    obtain ⟨-, htail, -⟩ := List.pairwise_append.1 htimes
    have hlater := (List.pairwise_cons.1 htail).1
    obtain ⟨attempt, hattempt, hle⟩ :=
      exists_lastAttempt hdue fun later hmem =>
        hlater later (List.mem_append_left _ hmem)
    have hstale :
        staleAttempt (some attempt) other.now staleInterval = true := by
      rw [← hattempt]
      cases hreset : other.resetAt with
      | none =>
          rw [← run_snd_of_none other _ hreset]
          exact hdue'
      | some reset =>
          obtain ⟨-, -, hbefore | hstale⟩ :=
            (run_snd_of_some other _ hreset).1 hdue'
          · obtain ⟨stored, hstored, hafter⟩ := hattempted reset hreset
            exact absurd (hbefore stored hstored) (not_lt.2 hafter)
          · exact hstale
    exact (le_sub_of_staleAttempt hstale).trans (sub_le_sub_left hle other.now)
  keeps := falseKeeps contents calls
  passed := by
    rintro before call later reset rfl hreset hpassed hattempt hobserved
    have htolerance : 0 ≤ resetPassedTolerance := by decide
    exact (run_snd_of_some call _ hreset).2
      ⟨hpassed.trans (le_add_of_nonneg_right htolerance), hobserved,
        Or.inl hattempt⟩

end Rules

/-- A call for a reset time. -/
def refreshAt (resetAt now : DateTime) : RefreshCall :=
  ⟨"a", none, some resetAt, now, now⟩

/-- Calls for one reset time, before it and at it. -/
theorem refreshRulesAfterReset_atReset :
    RefreshRulesAfterReset (seconds 1800) .blank
      [refreshAt (seconds 100) (seconds 97),
        refreshAt (seconds 100) (seconds 100),
        refreshAt (seconds 100) (seconds 1900)] :=
  refreshRulesAfterReset_of_times .blank _ (by decide)

/-- The file of an account that has a snapshot. -/
def snapshotAt (observedAt : DateTime) : UsageContents :=
  .json
    (((AccountUsageData.new "a" observedAt).recordRateLimitSnapshot ⟨none,
      none⟩) observedAt)

theorem not_refreshRules_snapshot :
    ¬ RefreshRules (seconds 1800) (snapshotAt (seconds 97))
      [refreshAt (seconds 100) (seconds 110)] := by
  intro h
  have hdue := h.passed [] _ [] (seconds 100) rfl rfl (by decide)
    (fun attempt hattempt => by cases hattempt)
    (fun observed hobserved => by
      cases hobserved
      decide)
  exact absurd hdue (by rw [IsDue]; decide)

theorem not_refreshRules_early :
    ¬ RefreshRules (seconds 1800) .blank
      [refreshAt (seconds 100) (seconds 97),
        refreshAt (seconds 100) (seconds 98)] := by
  intro h
  have hspaced :=
    h.spaced [] _ [] _ [] rfl rfl (by rw [IsDue]; decide) (by
      rw [IsDue]; decide)
  exact absurd hspaced (by decide)

/-- A snapshot shortly before a reset keeps a call after it from being due, and
two calls shortly before a reset are both due. -/
theorem not_refreshRules_nearReset :
    (¬ ∀ (staleInterval : ℤ) (contents : UsageContents)
      (calls : List RefreshCall),
      resetPassedTolerance < staleInterval → SteadyCalls calls →
        RefreshRules staleInterval contents calls) ∧
      ¬ RefreshRules (seconds 1800) (snapshotAt (seconds 97))
          [refreshAt (seconds 100) (seconds 110)] ∧
      ¬ RefreshRules (seconds 1800) .blank
          [refreshAt (seconds 100) (seconds 97),
            refreshAt (seconds 100) (seconds 98)] := by
  refine ⟨fun h => ?_, not_refreshRules_snapshot, not_refreshRules_early⟩
  exact not_refreshRules_snapshot
    (h (seconds 1800) (snapshotAt (seconds 97)) _ (by decide)
    ⟨List.pairwise_singleton _ _, List.pairwise_singleton _ _⟩)

end CodeRs.AccountUsage
