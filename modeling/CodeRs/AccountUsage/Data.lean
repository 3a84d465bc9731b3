import CodeRs.Lib.Search
import CodeRs.Lib.Saturating
import Mathlib.Algebra.Order.Field.Rat
import Mathlib.Data.List.Sort

/-!
# Usage data

`AccountUsageData` of `core/src/account_usage.rs` and what the recording
functions do to it. A time is its number of nanoseconds since 1970 in UTC.
-/

namespace CodeRs.AccountUsage

/-! ## Totals -/

structure TokenUsage where
  inputTokens : U64
  cachedInputTokens : U64
  outputTokens : U64
  reasoningOutputTokens : U64
  totalTokens : U64
  deriving DecidableEq

@[ext]
structure TokenTotals where
  inputTokens : U64
  cachedInputTokens : U64
  outputTokens : U64
  reasoningOutputTokens : U64
  totalTokens : U64
  deriving DecidableEq

namespace TokenTotals

instance : Zero TokenTotals := ⟨⟨0, 0, 0, 0, 0⟩⟩

/-- `add_totals`. -/
instance : Add TokenTotals where
  add a b :=
    { inputTokens := a.inputTokens + b.inputTokens
      cachedInputTokens := a.cachedInputTokens + b.cachedInputTokens
      outputTokens := a.outputTokens + b.outputTokens
      reasoningOutputTokens := a.reasoningOutputTokens + b.reasoningOutputTokens
      totalTokens := a.totalTokens + b.totalTokens }

instance : AddCommMonoid TokenTotals where
  add_assoc a b c :=
    TokenTotals.ext (add_assoc ..) (add_assoc ..) (add_assoc ..)
      (add_assoc ..) (add_assoc ..)
  zero_add a :=
    TokenTotals.ext (zero_add _) (zero_add _) (zero_add _)
      (zero_add _) (zero_add _)
  add_zero a :=
    TokenTotals.ext (add_zero _) (add_zero _) (add_zero _)
      (add_zero _) (add_zero _)
  add_comm a b :=
    TokenTotals.ext (add_comm ..) (add_comm ..) (add_comm ..) (add_comm ..)
      (add_comm ..)
  nsmul := nsmulRec

def addUsage (totals : TokenTotals) (usage : TokenUsage) : TokenTotals where
  inputTokens := totals.inputTokens + usage.inputTokens
  cachedInputTokens := totals.cachedInputTokens + usage.cachedInputTokens
  outputTokens := totals.outputTokens + usage.outputTokens
  reasoningOutputTokens :=
    totals.reasoningOutputTokens + usage.reasoningOutputTokens
  totalTokens := totals.totalTokens + usage.totalTokens

def fromUsage (usage : TokenUsage) : TokenTotals :=
  (0 : TokenTotals).addUsage usage

theorem addUsage_eq (totals : TokenTotals) (usage : TokenUsage) :
    totals.addUsage usage = totals + fromUsage usage := by
  have hzero : fromUsage usage =
      ⟨usage.inputTokens, usage.cachedInputTokens, usage.outputTokens,
      usage.reasoningOutputTokens, usage.totalTokens⟩ :=
    TokenTotals.ext (zero_add _) (zero_add _) (zero_add _)
      (zero_add _) (zero_add _)
  rw [hzero]
  rfl

end TokenTotals

/-! ## Times -/

/-- `DateTime<Utc>`. -/
abbrev DateTime := ℤ

def seconds (n : ℤ) : ℤ := n * 1000000000

def hours (n : ℤ) : ℤ := seconds (n * 3600)

def days (n : ℤ) : ℤ := hours (n * 24)

def hourlyHistoryDays : ℤ := 183

def unknownResetRelogInterval : ℤ := hours 24

def resetPassedTolerance : ℤ := seconds 5

def truncateToHour (ts : DateTime) : DateTime := ts - ts % hours 1

def truncateToDay (ts : DateTime) : DateTime := ts - ts % days 1

/-- The day of its month, from 0, of a day counted from 1970-01-01.  The
calendar repeats after 146097 days, and a year is counted from March. -/
def dayOfMonth (day : ℤ) : ℤ :=
  let dayOfEra := (day + 719468) % 146097
  let year :=
    (dayOfEra - dayOfEra / 1460 + dayOfEra / 36524 - dayOfEra / 146096) / 365
  let dayOfYear := dayOfEra - (365 * year + year / 4 - year / 100)
  let month := (5 * dayOfYear + 2) / 153
  dayOfYear - (153 * month + 2) / 5

def truncateToMonth (ts : DateTime) : DateTime :=
  truncateToDay ts - days (dayOfMonth (ts / days 1))

-- 2024-02-29 is the last day of its month, 2024-03-01 the first.
example : dayOfMonth 19782 = 28 ∧ dayOfMonth 19783 = 0 := by decide

/-! ## The data of an account -/

structure TokenWindowEntry where
  timestamp : DateTime
  tokens : TokenTotals
  deriving DecidableEq

structure AggregatedUsageEntry where
  periodStart : DateTime
  tokens : TokenTotals
  deriving DecidableEq

/-- `RateLimitWarningRecord`.  The difference of two floating point thresholds
is exact where it is small. -/
structure RateLimitWarningRecord where
  threshold : ℚ
  resetAt : Option DateTime
  loggedAt : Option DateTime
  deriving DecidableEq

/-- The reset times of `RateLimitSnapshotEvent`. -/
structure RateLimitSnapshot where
  primaryResetAfterSeconds : Option ℕ
  secondaryResetAfterSeconds : Option ℕ
  deriving DecidableEq

structure RateLimitInfo where
  snapshot : Option RateLimitSnapshot
  observedAt : Option DateTime
  primaryNextResetAt : Option DateTime
  secondaryNextResetAt : Option DateTime
  lastRefreshAttemptAt : Option DateTime
  lastUsageLimitHitAt : Option DateTime
  primaryThresholdLogs : List RateLimitWarningRecord
  secondaryThresholdLogs : List RateLimitWarningRecord
  deriving DecidableEq

def RateLimitInfo.default : RateLimitInfo :=
  ⟨none, none, none, none, none, none, [], []⟩

structure AccountUsageData where
  version : ℕ
  accountId : String
  plan : Option String
  lastUpdated : DateTime
  totals : TokenTotals
  hourlyEntries : List TokenWindowEntry
  hourlyBuckets : List AggregatedUsageEntry
  dailyBuckets : List AggregatedUsageEntry
  monthlyBuckets : List AggregatedUsageEntry
  tokensLastHour : TokenTotals
  rateLimit : Option RateLimitInfo
  deriving DecidableEq

def usageVersion : ℕ := 1

/-- `entry(…).or_insert_with(…).add_totals(…)` on the entries of a `BTreeMap`,
which are in the order of their periods. -/
def addToRollover (periodStart : DateTime) (tokens : TokenTotals) :
    List AggregatedUsageEntry → List AggregatedUsageEntry
  | [] => [⟨periodStart, tokens⟩]
  | entry :: rest =>
      if entry.periodStart < periodStart then
        entry :: addToRollover periodStart tokens rest
      else if entry.periodStart = periodStart then
        { entry with tokens := entry.tokens + tokens } :: rest
      else ⟨periodStart, tokens⟩ :: entry :: rest

/-- The rollover of some entries, each under the period that it gets. -/
def rollUp (periodOf : DateTime → DateTime)
    (entries : List AggregatedUsageEntry) :
    List AggregatedUsageEntry :=
  entries.foldl
    (fun rollover entry =>
      addToRollover (periodOf entry.periodStart) entry.tokens rollover) []

def addToBucket (periodStart : DateTime) (tokens : TokenTotals)
    (buckets : List AggregatedUsageEntry) : List AggregatedUsageEntry :=
  match binarySearchBy (fun entry => compare entry.periodStart periodStart)
    buckets with
  | .ok idx => buckets.modify idx fun entry =>
      { entry with tokens := entry.tokens + tokens }
  | .error idx => buckets.insertIdx idx ⟨periodStart, tokens⟩

/-- `add_to_bucket` for every entry, under the period that it gets. -/
def addAll (periodOf : DateTime → DateTime)
    (entries buckets : List AggregatedUsageEntry) :
    List AggregatedUsageEntry :=
  entries.foldl
    (fun buckets entry =>
      addToBucket (periodOf entry.periodStart) entry.tokens buckets) buckets

/-- `sort_by_key` with the period. -/
def sortBuckets (buckets : List AggregatedUsageEntry) :
    List AggregatedUsageEntry :=
  buckets.mergeSort fun a b => a.periodStart ≤ b.periodStart

namespace AccountUsageData

def new (accountId : String) (now : DateTime) : AccountUsageData where
  version := usageVersion
  accountId := accountId
  plan := none
  lastUpdated := now
  totals := 0
  hourlyEntries := []
  hourlyBuckets := []
  dailyBuckets := []
  monthlyBuckets := []
  tokensLastHour := 0
  rateLimit := none

variable (data : AccountUsageData)

def applyPlan (plan : Option String) : AccountUsageData :=
  { data with plan := plan.or data.plan }

def compactHourlyBuckets (now : DateTime) : AccountUsageData :=
  let cutoff := truncateToHour now - hours 24
  { data with
    hourlyBuckets :=
      sortBuckets (data.hourlyBuckets.filter (cutoff ≤ ·.periodStart)) }

def compactDailyBuckets (now : DateTime) : AccountUsageData :=
  let cutoff := truncateToDay now - days 30
  let old := data.dailyBuckets.filter (·.periodStart < cutoff)
  let rollover := rollUp truncateToMonth old
  { data with
    dailyBuckets :=
      sortBuckets (data.dailyBuckets.filter (cutoff ≤ ·.periodStart))
    monthlyBuckets := addAll id rollover data.monthlyBuckets }

def compactUsage (now : DateTime) : AccountUsageData :=
  let cutoff := now - hours 1
  let old := data.hourlyEntries.filter (·.timestamp < cutoff)
  let rollover := rollUp truncateToHour
    (old.map fun entry => ⟨entry.timestamp, entry.tokens⟩)
  let data :=
    { data with
      hourlyEntries := data.hourlyEntries.filter (cutoff ≤ ·.timestamp)
      dailyBuckets := addAll truncateToDay rollover data.dailyBuckets
      hourlyBuckets := addAll id rollover data.hourlyBuckets }
  (data.compactHourlyBuckets now).compactDailyBuckets now

def updateLastHour (now : DateTime) : AccountUsageData :=
  let data := data.compactUsage now
  let entries :=
    data.hourlyEntries.filter (now - days hourlyHistoryDays ≤ ·.timestamp)
  { data with
    hourlyEntries := entries
    tokensLastHour := entries.foldl
      (fun totals entry =>
        if entry.timestamp < now - hours 1 then totals
          else totals + entry.tokens) 0 }

/-! ## The recording functions -/

/-- The rate limit data, or those of an account without any. -/
def rateLimitInfo : RateLimitInfo := data.rateLimit.getD .default

/-- What `record_token_usage` does to the data. -/
def recordTokenUsage (usage : TokenUsage) (observedAt : DateTime) :
    AccountUsageData :=
  let data :=
    { data with
      lastUpdated := observedAt
      totals := data.totals.addUsage usage
      hourlyEntries := data.hourlyEntries ++
        [TokenWindowEntry.mk observedAt (.fromUsage usage)] }
  data.updateLastHour observedAt

/-- What `record_rate_limit_snapshot` does to the data. -/
def recordRateLimitSnapshot (snapshot : RateLimitSnapshot)
    (observedAt : DateTime) :
    AccountUsageData :=
  { data with
    lastUpdated := observedAt
    rateLimit := some
      { data.rateLimitInfo with
        snapshot := some snapshot
        observedAt := some observedAt
        primaryNextResetAt :=
          snapshot.primaryResetAfterSeconds.map fun n => observedAt + seconds n
        secondaryNextResetAt :=
          snapshot.secondaryResetAfterSeconds.map fun n =>
            observedAt + seconds n } }

/-- What `record_usage_limit_hint` does to the data. -/
def recordUsageLimitHint (resetsInSeconds : Option ℕ) (observedAt : DateTime) :
    AccountUsageData :=
  let info := { data.rateLimitInfo with lastUsageLimitHitAt := some observedAt }
  let info :=
    match resetsInSeconds with
    | some n =>
        { info with
          primaryNextResetAt := some (observedAt + seconds n)
          secondaryNextResetAt := some (observedAt + seconds n) }
    | none => info
  { data with
    lastUpdated := observedAt
    rateLimit := some info }

end AccountUsageData

/-! ## Warnings -/

inductive RateLimitWarningScope where
  | primary
  | secondary
  deriving DecidableEq

/-- A record is about a threshold: they differ by less than `f64::EPSILON`. -/
def RateLimitWarningRecord.isAbout (record : RateLimitWarningRecord)
    (threshold : ℚ) : Bool :=
  |record.threshold - threshold| < 1 / 2 ^ 52

/-- The part of `record_threshold_log` for a record that is there: the record
after it, and whether to warn. -/
def RateLimitWarningRecord.poll (existing : RateLimitWarningRecord)
    (resetAt : Option DateTime)
    (observedAt : DateTime) : RateLimitWarningRecord × Bool :=
  let resetMovedEarlier := match existing.resetAt, resetAt with
    | some prev, some next => decide (next + resetPassedTolerance < prev)
    | _, _ => false
  let loggedAfterPrevReset := match existing.loggedAt, existing.resetAt with
    | some logged, some prev => decide (prev ≤ logged)
    | _, _ => false
  let prevResetElapsed :=
    existing.resetAt.any (· ≤ observedAt + resetPassedTolerance)
  let unknownResetElapsed := (existing.resetAt.isNone || resetAt.isNone) &&
    existing.loggedAt.any (unknownResetRelogInterval ≤ observedAt - ·)
  let shouldClear :=
    resetMovedEarlier || (prevResetElapsed && !loggedAfterPrevReset) ||
      unknownResetElapsed
  let loggedAt := if shouldClear then none else existing.loggedAt
  match loggedAt with
  | none =>
      ({ existing with resetAt := resetAt, loggedAt := some observedAt }, true)
  | some logged =>
      ({ existing with resetAt := resetAt, loggedAt := some logged }, false)

/-- `record_threshold_log`: the first record about the threshold is polled, or
a new one is added. -/
def recordThresholdLog (threshold : ℚ) (resetAt : Option DateTime)
    (observedAt : DateTime) :
    List RateLimitWarningRecord → List RateLimitWarningRecord × Bool
  | [] => ([⟨threshold, resetAt, some observedAt⟩], true)
  | existing :: rest =>
      if existing.isAbout threshold then
        ((existing.poll resetAt observedAt).1 :: rest,
          (existing.poll resetAt observedAt).2)
      else
        let later := recordThresholdLog threshold resetAt observedAt rest
        (existing :: later.1, later.2)

def AccountUsageData.recordRateLimitWarning (data : AccountUsageData)
    (scope : RateLimitWarningScope) (threshold : ℚ) (resetAt : Option DateTime)
    (observedAt : DateTime) : AccountUsageData :=
  let info := data.rateLimitInfo
  { data with
    lastUpdated := observedAt
    rateLimit := some (match scope with
      | .primary =>
          { info with
            primaryThresholdLogs :=
              (recordThresholdLog threshold resetAt observedAt
                info.primaryThresholdLogs).1 }
      | .secondary =>
          { info with
            secondaryThresholdLogs :=
              (recordThresholdLog threshold resetAt observedAt
                info.secondaryThresholdLogs).1 }) }

end CodeRs.AccountUsage
