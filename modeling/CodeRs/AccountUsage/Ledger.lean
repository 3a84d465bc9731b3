import CodeRs.AccountUsage.Buckets
import CodeRs.AccountUsage.Locking
import Mathlib.Algebra.Order.BigOperators.Group.List

/-!
# The books of an account

Runs of `record_token_usage` of `core/src/account_usage.rs` on the file of a
fresh account. Every call rolls old entries over into daily and hourly buckets
and old days into months, and what has been recorded stays in exactly one of
the entries, the days and the months.
-/

namespace CodeRs.AccountUsage

/-! ## Compaction -/

section Data

variable {component : TokenComponent} {data : AccountUsageData}

/-- The sum of a counter over some entries. -/
def entryAmount (component : TokenComponent)
    (entries : List TokenWindowEntry) : ℕ :=
  amountOf component (entries.map (·.tokens))

/-- What the entries, the days and the months hold. -/
def AccountUsageData.held (component : TokenComponent)
    (data : AccountUsageData) : ℕ :=
  entryAmount component data.hourlyEntries +
    bucketAmount component data.dailyBuckets +
    bucketAmount component data.monthlyBuckets

/-- The buckets of an account are in the order of their periods. -/
structure BucketsInOrder (data : AccountUsageData) : Prop where
  hourly : InOrder data.hourlyBuckets
  daily : InOrder data.dailyBuckets
  monthly : InOrder data.monthlyBuckets

theorem BucketsInOrder.compactHourlyBuckets (h : BucketsInOrder data)
    (now : DateTime) :
    BucketsInOrder (data.compactHourlyBuckets now) where
  hourly := by
    rw [AccountUsageData.compactHourlyBuckets, (h.hourly.filter _).sortBuckets]
    exact h.hourly.filter _
  daily := h.daily
  monthly := h.monthly

theorem BucketsInOrder.compactDailyBuckets (h : BucketsInOrder data)
    (now : DateTime) :
    BucketsInOrder (data.compactDailyBuckets now) where
  hourly := h.hourly
  daily := by
    rw [AccountUsageData.compactDailyBuckets, (h.daily.filter _).sortBuckets]
    exact h.daily.filter _
  monthly := h.monthly.addAll id _

variable (component) in
theorem bucketAmount_split (cutoff : DateTime)
    (buckets : List AggregatedUsageEntry) :
    bucketAmount component (buckets.filter (·.periodStart < cutoff)) +
        bucketAmount component (buckets.filter (cutoff ≤ ·.periodStart)) =
      bucketAmount component buckets :=
  amountOf_filter _ _ _ (fun _ => by simp only [← not_lt, decide_not]) buckets

variable (component) in
theorem entryAmount_split (cutoff : DateTime)
    (entries : List TokenWindowEntry) :
    entryAmount component (entries.filter (·.timestamp < cutoff)) +
        entryAmount component (entries.filter (cutoff ≤ ·.timestamp)) =
      entryAmount component entries :=
  amountOf_filter _ _ _ (fun _ => by simp only [← not_lt, decide_not]) entries

/-- What is old moves from the days to the months. -/
theorem held_compactDailyBuckets (h : BucketsInOrder data) (now : DateTime)
    (hmax : data.held component ≤ u64Max) :
    (data.compactDailyBuckets now).held component = data.held component := by
  have hsplit :=
    bucketAmount_split component (truncateToDay now - days 30) data.dailyBuckets
  simp only [AccountUsageData.held,
    AccountUsageData.compactDailyBuckets] at hmax ⊢
  rw [(h.daily.filter _).sortBuckets]
  obtain ⟨old, hold⟩ : ∃ old, old = data.dailyBuckets.filter
      (·.periodStart < truncateToDay now - days 30) := ⟨_, rfl⟩
  rw [← hold] at hsplit ⊢
  have hrollover : bucketAmount component (rollUp truncateToMonth old) =
      bucketAmount component old := bucketAmount_rollUp (by omega)
  rw [bucketAmount_addAll h.monthly (by omega), hrollover]
  omega

/-- The data with the entries that are left and a rollover that is added to
days and hours. -/
def AccountUsageData.withRollover (data : AccountUsageData)
    (recent : List TokenWindowEntry)
    (rollover : List AggregatedUsageEntry) : AccountUsageData :=
  { data with
    hourlyEntries := recent
    dailyBuckets := addAll truncateToDay rollover data.dailyBuckets
    hourlyBuckets := addAll id rollover data.hourlyBuckets }

/-- The rollover of the entries that are older than an hour. -/
def AccountUsageData.hourRollover (data : AccountUsageData) (now : DateTime) :
    List AggregatedUsageEntry :=
  rollUp truncateToHour
    ((data.hourlyEntries.filter (·.timestamp < now - hours 1)).map
    fun entry => ⟨entry.timestamp, entry.tokens⟩)

theorem compactUsage_eq (data : AccountUsageData) (now : DateTime) :
    data.compactUsage now =
      ((data.withRollover
        (data.hourlyEntries.filter (now - hours 1 ≤ ·.timestamp))
        (data.hourRollover now)).compactHourlyBuckets now).compactDailyBuckets
        now :=
  rfl

theorem BucketsInOrder.withRollover (h : BucketsInOrder data)
    (recent : List TokenWindowEntry)
    (rollover : List AggregatedUsageEntry) :
    BucketsInOrder (data.withRollover recent rollover) where
  hourly := h.hourly.addAll id rollover
  daily := h.daily.addAll truncateToDay rollover
  monthly := h.monthly

theorem BucketsInOrder.compactUsage (h : BucketsInOrder data) (now : DateTime) :
    BucketsInOrder (data.compactUsage now) := by
  rw [compactUsage_eq]
  exact ((h.withRollover _ _).compactHourlyBuckets now).compactDailyBuckets now

/-- What is old moves from the entries to the days. -/
theorem held_compactUsage (h : BucketsInOrder data) (now : DateTime)
    (hmax : data.held component ≤ u64Max) :
    (data.compactUsage now).held component = data.held component := by
  have hsplit := entryAmount_split component (now - hours 1) data.hourlyEntries
  have hheld : data.held component = entryAmount component data.hourlyEntries +
      bucketAmount component data.dailyBuckets +
        bucketAmount component data.monthlyBuckets := rfl
  have hrollover : bucketAmount component (data.hourRollover now) =
      entryAmount component
        (data.hourlyEntries.filter (·.timestamp < now - hours 1)) := by
    have hmap : bucketAmount component ((data.hourlyEntries.filter
        (·.timestamp < now - hours 1)).map
        fun entry => ⟨entry.timestamp, entry.tokens⟩) =
          entryAmount component
            (data.hourlyEntries.filter (·.timestamp < now - hours 1)) := by
      rw [bucketAmount, List.map_map]
      rfl
    rw [AccountUsageData.hourRollover, bucketAmount_rollUp (by omega), hmap]
  have hmoved :
      ((data.withRollover
        (data.hourlyEntries.filter (now - hours 1 ≤ ·.timestamp))
      (data.hourRollover now)).compactHourlyBuckets now).held component =
        data.held component := by
    simp only [AccountUsageData.held, AccountUsageData.compactHourlyBuckets,
      AccountUsageData.withRollover]
    rw [bucketAmount_addAll h.daily (by omega)]
    omega
  rw [compactUsage_eq, held_compactDailyBuckets
    ((h.withRollover _ _).compactHourlyBuckets now) now (by omega), hmoved]

/-! ## One call -/

/-- Half a year is more than an hour, so the second filter takes all that the
first one left. -/
theorem hourlyEntries_updateLastHour (data : AccountUsageData)
    (now : DateTime) :
    (data.updateLastHour now).hourlyEntries =
      data.hourlyEntries.filter (now - hours 1 ≤ ·.timestamp) := by
  have hcutoff : now - days hourlyHistoryDays ≤ now - hours 1 :=
    Int.sub_le_sub_left (by decide) now
  refine List.filter_eq_self.2 fun entry hentry => ?_
  have hrecent := of_decide_eq_true (List.mem_filter.1 hentry).2
  exact decide_eq_true (hcutoff.trans hrecent)

/-- The sum over entries that are not too old. -/
theorem amount_foldl_recent {cutoff : DateTime}
    {entries : List TokenWindowEntry}
    (hrecent : ∀ entry ∈ entries, cutoff ≤ entry.timestamp)
    {totals : TokenTotals}
    (hmax : totals.amount component + entryAmount component entries ≤ u64Max) :
    (entries.foldl (fun totals entry =>
        if entry.timestamp < cutoff then totals
          else totals + entry.tokens) totals).amount
          component =
      totals.amount component + entryAmount component entries := by
  induction entries generalizing totals with
  | nil => rfl
  | cons entry rest ih =>
      obtain ⟨hentry, hrest⟩ := List.forall_mem_cons.1 hrecent
      have hcons : entryAmount component (entry :: rest) =
        entry.tokens.amount component + entryAmount component rest :=
        amountOf_cons _ _
      have hadd : (totals + entry.tokens).amount component =
        totals.amount component + entry.tokens.amount component :=
          TokenTotals.amount_add (by omega)
      rw [List.foldl_cons, if_neg (not_lt.2 hentry),
        ih hrest (by omega), hadd, hcons]
      omega

theorem amount_tokensLastHour (data : AccountUsageData) (now : DateTime)
    (hmax : entryAmount component (data.updateLastHour now).hourlyEntries ≤
      u64Max) :
    (data.updateLastHour now).tokensLastHour.amount component =
      entryAmount component (data.updateLastHour now).hourlyEntries := by
  have hrecent : ∀ entry ∈ (data.updateLastHour now).hourlyEntries,
      now - hours 1 ≤ entry.timestamp := by
    rw [hourlyEntries_updateLastHour]
    intro entry hentry
    exact of_decide_eq_true (List.mem_filter.1 hentry).2
  have hzero : (0 : TokenTotals).amount component = 0 := TokenTotals.amount_zero
  have hbound : (0 : TokenTotals).amount component +
      entryAmount component (data.updateLastHour now).hourlyEntries ≤
      u64Max := by omega
  have hfold := amount_foldl_recent hrecent hbound
  rw [hzero, Nat.zero_add] at hfold
  exact hfold

def AccountUsageData.withEntry (data : AccountUsageData) (usage : TokenUsage)
    (observedAt : DateTime) : AccountUsageData :=
  { data with
    lastUpdated := observedAt
    totals := data.totals.addUsage usage
    hourlyEntries := data.hourlyEntries ++ [⟨observedAt, .fromUsage usage⟩] }

theorem recordTokenUsage_eq (data : AccountUsageData) (usage : TokenUsage)
    (observedAt : DateTime) :
    data.recordTokenUsage usage observedAt =
      (data.withEntry usage observedAt).updateLastHour observedAt :=
  rfl

theorem BucketsInOrder.recordTokenUsage (h : BucketsInOrder data)
    (usage : TokenUsage)
    (observedAt : DateTime) :
    BucketsInOrder (data.recordTokenUsage usage observedAt) := by
  have hentry : BucketsInOrder (data.withEntry usage observedAt) :=
    ⟨h.hourly, h.daily, h.monthly⟩
  have hcompact := hentry.compactUsage observedAt
  exact ⟨hcompact.hourly, hcompact.daily, hcompact.monthly⟩

theorem held_updateLastHour (h : BucketsInOrder data) (now : DateTime)
    (hmax : data.held component ≤ u64Max) :
    (data.updateLastHour now).held component = data.held component := by
  have hentries : (data.updateLastHour now).hourlyEntries =
      (data.compactUsage now).hourlyEntries :=
    hourlyEntries_updateLastHour data now
  have hsame : (data.updateLastHour now).held component =
      (data.compactUsage now).held component := by
    rw [AccountUsageData.held, hentries]
    rfl
  rw [hsame, held_compactUsage h now hmax]

theorem held_recordTokenUsage (h : BucketsInOrder data) (usage : TokenUsage)
    (observedAt : DateTime)
    (hmax : data.held component + usage.amount component ≤ u64Max) :
    (data.recordTokenUsage usage observedAt).held component =
      data.held component + usage.amount component := by
  have hentry : BucketsInOrder (data.withEntry usage observedAt) :=
    ⟨h.hourly, h.daily, h.monthly⟩
  have hheld : (data.withEntry usage observedAt).held component =
      data.held component + usage.amount component := by
    simp only [AccountUsageData.held, AccountUsageData.withEntry, entryAmount,
      List.map_append,
      List.map_cons, List.map_nil, amountOf_append, amountOf_cons, amountOf_nil,
      TokenTotals.amount_fromUsage]
    omega
  rw [recordTokenUsage_eq,
    held_updateLastHour hentry observedAt (by omega), hheld]

theorem totals_recordTokenUsage (data : AccountUsageData) (usage : TokenUsage)
    (observedAt : DateTime)
    (hmax : data.totals.amount component + usage.amount component ≤ u64Max) :
    (data.recordTokenUsage usage observedAt).totals.amount component =
      data.totals.amount component + usage.amount component := by
  have htotals : (data.recordTokenUsage usage observedAt).totals =
    data.totals + .fromUsage usage := TokenTotals.addUsage_eq data.totals usage
  have hamount :
      (TokenTotals.fromUsage usage).amount component = usage.amount component :=
    TokenTotals.amount_fromUsage usage
  rw [htotals, TokenTotals.amount_add (by omega), hamount]

end Data

/-! ## Runs -/

/-- A call of `record_token_usage`, with the time at which it makes new data if
it has to. -/
structure TokenRecord where
  plan : Option String
  usage : TokenUsage
  observedAt : DateTime
  now : DateTime

/-- The entry that a call pushes. -/
def TokenRecord.entry (record : TokenRecord) : TokenWindowEntry :=
  ⟨record.observedAt, .fromUsage record.usage⟩

variable (accountId : String)

/-- `record_token_usage` as a call of `with_usage_file`. -/
def TokenRecord.call (record : TokenRecord) : UsageCall where
  accountId := accountId
  plan := record.plan
  observedAt := record.observedAt
  now := record.now
  record := .tokenUsage record.usage

/-- The file of a fresh account after some calls. -/
def usageFileAfter (records : List TokenRecord) : UsageContents :=
  after (fun contents record => (record.call accountId).rewrite contents)
    .blank records

/-- What some calls record, in one counter. -/
def recordedAmount (component : TokenComponent)
    (records : List TokenRecord) : ℕ :=
  (records.map (·.usage.amount component)).sum

/-- The usages of the last hour before the last call. -/
def lastHour (last : TokenRecord) (records : List TokenRecord) :
    List TokenRecord :=
  records.filter (last.observedAt - hours 1 ≤ ·.observedAt)

/-- The books of an account after some calls.  The buckets are in order; a
counter that has not saturated has in its total all that was recorded, and so
have the entries, the days and the months together; and where time does not go
back, the last hour is what was recorded in it. -/
structure BooksBalance (records : List TokenRecord) (data : AccountUsageData) :
    Prop where
  order : BucketsInOrder data
  totals : ∀ component, recordedAmount component records ≤ u64Max →
    data.totals.amount component = recordedAmount component records
  held : ∀ component, recordedAmount component records ≤ u64Max →
    entryAmount component data.hourlyEntries +
      bucketAmount component data.dailyBuckets +
        bucketAmount component data.monthlyBuckets =
      recordedAmount component records
  lastHour : ∀ earlier last, records = earlier ++ [last] →
    records.Pairwise (·.observedAt ≤ ·.observedAt) →
    ∀ component, recordedAmount component records ≤ u64Max →
      data.tokensLastHour.amount component =
        recordedAmount component (lastHour last records)

/-- The invariant of the runs: with the books, which entries are left, and that
they are the last hour. -/
structure Booked (records : List TokenRecord) (data : AccountUsageData) :
    Prop where
  order : BucketsInOrder data
  totals : ∀ component, recordedAmount component records ≤ u64Max →
    data.totals.amount component = recordedAmount component records
  held : ∀ component, recordedAmount component records ≤ u64Max →
    data.held component = recordedAmount component records
  start : records = [] → data.hourlyEntries = []
  recent : ∀ earlier last, records = earlier ++ [last] →
    records.Pairwise (·.observedAt ≤ ·.observedAt) →
    data.hourlyEntries = (lastHour last records).map TokenRecord.entry
  summed : records ≠ [] → ∀ component,
    entryAmount component data.hourlyEntries ≤ u64Max →
    data.tokensLastHour.amount component =
      entryAmount component data.hourlyEntries

theorem recordedAmount_concat (component : TokenComponent)
    (records : List TokenRecord)
    (last : TokenRecord) :
    recordedAmount component (records ++ [last]) =
      recordedAmount component records + last.usage.amount component := by
  simp [recordedAmount]

theorem entryAmount_entries (component : TokenComponent)
    (records : List TokenRecord) :
    entryAmount component (records.map TokenRecord.entry) =
      recordedAmount component records := by
  rw [entryAmount, amountOf, List.map_map, List.map_map, recordedAmount]
  congr 1
  refine List.map_congr_left fun record _ => ?_
  exact TokenTotals.amount_fromUsage record.usage

theorem booked_new (now : DateTime) : Booked [] (.new accountId now) where
  order := ⟨.nil, .nil, .nil⟩
  totals component _ := TokenTotals.amount_zero
  held _ _ := rfl
  start _ := rfl
  recent earlier last h := absurd h.symm (by simp)
  summed h := absurd rfl h

/-- The entries after one more call, where time does not go back. -/
theorem Booked.recent_next {records : List TokenRecord}
    {data : AccountUsageData}
    (h : Booked records data) {last : TokenRecord}
    (htimes : (records ++ [last]).Pairwise (·.observedAt ≤ ·.observedAt)) :
    (data.recordTokenUsage last.usage last.observedAt).hourlyEntries =
      (lastHour last (records ++ [last])).map TokenRecord.entry := by
  obtain ⟨hrecords, -, hbefore⟩ := List.pairwise_append.1 htimes
  have hentries :
      (data.recordTokenUsage last.usage last.observedAt).hourlyEntries =
      (data.hourlyEntries ++ [last.entry]).filter
        (last.observedAt - hours 1 ≤ ·.timestamp) := by
    rw [recordTokenUsage_eq, hourlyEntries_updateLastHour]
    rfl
  have hmap : ∀ (cutoff : DateTime) (calls : List TokenRecord),
      (calls.map TokenRecord.entry).filter (cutoff ≤ ·.timestamp) =
        (calls.filter (cutoff ≤ ·.observedAt)).map TokenRecord.entry := by
    intro cutoff calls
    rw [List.filter_map]
    rfl
  have hold :
      data.hourlyEntries.filter (last.observedAt - hours 1 ≤ ·.timestamp) =
      (records.map TokenRecord.entry).filter (last.observedAt - hours 1 ≤
        ·.timestamp) := by
    rcases List.eq_nil_or_concat' records with rfl | ⟨earlier, prev, rfl⟩
    · rw [h.start rfl]
      rfl
    · have hle : prev.observedAt ≤ last.observedAt :=
        hbefore prev (by simp) last (by simp)
      rw [h.recent earlier prev rfl hrecords, hmap, hmap, lastHour,
        List.filter_filter]
      congr 1
      refine List.filter_congr fun record _ => ?_
      have himp : last.observedAt - hours 1 ≤ record.observedAt →
          prev.observedAt - hours 1 ≤ record.observedAt :=
        fun hrecent => (Int.sub_le_sub_right hle _).trans hrecent
      simpa using himp
  rw [hentries, List.filter_append, hold, ← List.filter_append,
    lastHour, ← hmap,
    List.map_append]
  rfl

/-- A call keeps the invariant. -/
theorem Booked.next {records : List TokenRecord} {data : AccountUsageData}
    (h : Booked records data) (last : TokenRecord) :
    Booked (records ++ [last])
      (data.recordTokenUsage last.usage last.observedAt) where
  order := h.order.recordTokenUsage last.usage last.observedAt
  totals component hmax := by
    rw [recordedAmount_concat] at hmax ⊢
    have htotals := h.totals component (by omega)
    rw [totals_recordTokenUsage _ _ _ (by omega), htotals]
  held component hmax := by
    rw [recordedAmount_concat] at hmax ⊢
    have hheld := h.held component (by omega)
    rw [held_recordTokenUsage h.order _ _ (by omega), hheld]
  start hnil := absurd hnil (by simp)
  recent earlier other hsplit htimes := by
    obtain ⟨rfl, hlast⟩ := List.append_inj' hsplit rfl
    cases hlast
    exact h.recent_next htimes
  summed _ component hmax := amount_tokensLastHour _ _ hmax

/-- Loading the file and applying a plan change nothing that is booked. -/
theorem Booked.withPlan {records : List TokenRecord} {data : AccountUsageData}
    (h : Booked records data) (version : ℕ) (plan : Option String) :
    Booked records { data with version := version, plan := plan } :=
  ⟨⟨h.order.hourly, h.order.daily, h.order.monthly⟩, h.totals, h.held, h.start,
    h.recent, h.summed⟩

theorem booked_usageFileAfter (records : List TokenRecord) (now : DateTime) :
    Booked records ((usageFileAfter accountId records).load accountId now) := by
  induction records using List.reverseRecOn generalizing now with
  | nil => exact booked_new accountId now
  | append_singleton records last ih =>
      have hfile : usageFileAfter accountId (records ++ [last]) =
          (last.call accountId).rewrite (usageFileAfter accountId records) := by
        rw [usageFileAfter, after_append]
        rfl
      have hbefore := ih last.now
      have hplanned := hbefore.withPlan
        ((usageFileAfter accountId records).load accountId last.now).version
        (last.plan.or
          ((usageFileAfter accountId records).load accountId last.now).plan)
      have hnext := hplanned.next last
      rw [hfile]
      exact hnext.withPlan usageVersion _

theorem recordedAmount_lastHour_le (component : TokenComponent)
    (last : TokenRecord)
    (records : List TokenRecord) :
    recordedAmount component (lastHour last records) ≤
      recordedAmount component records :=
  List.Sublist.sum_le_sum (List.filter_sublist.map _) fun _ _ => Nat.zero_le _

/-- After every run of `record_token_usage` on a fresh account the books
balance. -/
theorem booksBalance_usageFileAfter (records : List TokenRecord)
    (now : DateTime) :
    BooksBalance records
      ((usageFileAfter accountId records).load accountId now) := by
  have hbooked := booked_usageFileAfter accountId records now
  refine ⟨hbooked.order, hbooked.totals, hbooked.held, ?_⟩
  intro earlier last hsplit htimes component hmax
  have hentries := hbooked.recent earlier last hsplit htimes
  have hamount : entryAmount component
      ((usageFileAfter accountId records).load accountId now).hourlyEntries =
        recordedAmount component (lastHour last records) := by
    rw [hentries, entryAmount_entries]
  have hle := recordedAmount_lastHour_le component last records
  have hne : records ≠ [] := by
    rw [hsplit]
    simp
  rw [hbooked.summed hne component (by omega), hamount]

end CodeRs.AccountUsage
