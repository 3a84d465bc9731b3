import CodeRs.AccountUsage.Data
import CodeRs.Lib.PartialMap
import CodeRs.Lib.Program
import CodeRs.Lib.Runs
import CodeRs.Lib.Text
import Mathlib.Data.Finset.Insert
import Mathlib.Data.List.Sort

/-!
# Switching accounts on a rate limit

`core/src/account_switching.rs`: the account that takes over when the current
one has hit a limit.  What a call reads from the code home and whether the
account can be activated are given with the call.
-/

namespace CodeRs.AccountUsage

inductive AuthMode where
  | apiKey | chatgpt | chatgptAuthTokens
  deriving DecidableEq

def AuthMode.isChatgpt : AuthMode → Bool
  | chatgpt | chatgptAuthTokens => true
  | apiKey => false

/-- The fields of `StoredAccount` that are read; of the tokens only whether
they are there. -/
structure StoredAccount where
  id : String
  mode : AuthMode
  openaiApiKey : Option String
  hasTokens : Bool
  deriving DecidableEq

/-- The percentages of `RateLimitSnapshotEvent`. -/
structure UsedPercents where
  primaryUsedPercent : Float
  secondaryUsedPercent : Float

/-- The fields of `StoredRateLimitSnapshot` that are read. -/
structure StoredRateLimitSnapshot where
  accountId : String
  snapshot : Option UsedPercents
  primaryNextResetAt : Option DateTime
  secondaryNextResetAt : Option DateTime

structure CodeHome where
  activeAccountId : Except Text (Option String)
  accounts : Except Text (List StoredAccount)
  snapshots : Except Text (List StoredRateLimitSnapshot)

/-! ## The state of a run -/

structure RateLimitSwitchState where
  triedAccounts : Finset String := ∅
  limitedChatgptAccounts : Finset String := ∅
  blockedUntil : PartialMap String DateTime := fun _ => none

namespace RateLimitSwitchState

def markLimited (s : RateLimitSwitchState) (accountId : String)
    (mode : AuthMode)
    (blockedUntil : Option DateTime) : RateLimitSwitchState :=
  { triedAccounts := insert accountId s.triedAccounts
    limitedChatgptAccounts :=
      if mode.isChatgpt then insert accountId s.limitedChatgptAccounts
      else s.limitedChatgptAccounts
    blockedUntil :=
      match blockedUntil with
      | none => s.blockedUntil
      | some resetAt =>
          match s.blockedUntil accountId with
          | none => s.blockedUntil.insert accountId resetAt
          | some existing =>
              if existing < resetAt then s.blockedUntil.insert accountId resetAt
              else s.blockedUntil }

end RateLimitSwitchState

/-! ## Selecting an account -/

def accountHasCredentials (account : StoredAccount) : Bool :=
  match account.mode with
  | .chatgpt | .chatgptAuthTokens => account.hasTokens
  | .apiKey => account.openaiApiKey.isSome

/-- `Iterator::max` of what two options hold. -/
def latest (a b : Option DateTime) : Option DateTime :=
  (a.toList ++ b.toList).max?

def usageResetBlockedUntil (snapshot : StoredRateLimitSnapshot) :
    Option DateTime :=
  latest snapshot.primaryNextResetAt snapshot.secondaryNextResetAt

/-- `f64::max`. -/
def f64Max (a b : Float) : Float :=
  if a.isNaN then b else if b.isNaN then a else if a < b then b else a

def usageUsedPercent (snapshot : StoredRateLimitSnapshot) : Option Float :=
  snapshot.snapshot.bind fun percents =>
    let used := f64Max percents.primaryUsedPercent percents.secondaryUsedPercent
    if used.isFinite then some used else none

def isBlocked (now : DateTime) (blockedUntil : Option DateTime) : Bool :=
  blockedUntil.any fun resetAt => now < resetAt

/-- The snapshots by their accounts: the last one of an account counts. -/
def snapshotMap (snapshots : List StoredRateLimitSnapshot) :
    PartialMap String StoredRateLimitSnapshot :=
  fun id => snapshots.reverse.find? fun snapshot => snapshot.accountId = id

/-- The snapshots of a home, none if they cannot be read. -/
def CodeHome.snapshotMap (home : CodeHome) :
    PartialMap String StoredRateLimitSnapshot :=
  AccountUsage.snapshotMap (home.snapshots.toOption.getD [])

/-- The time until which an account is blocked, by the state or its snapshot. -/
def accountBlockedUntil (state : RateLimitSwitchState)
    (snapshots : PartialMap String StoredRateLimitSnapshot) (id : String) :
    Option DateTime :=
  latest (state.blockedUntil id) ((snapshots id).bind usageResetBlockedUntil)

/-- The accounts of some modes that have credentials, in the order of their
ids. -/
def sortedAccounts (mode : AuthMode → Bool) (accounts : List StoredAccount) :
    List StoredAccount :=
  (accounts.filter fun account => mode account.mode &&
    accountHasCredentials account).mergeSort
    fun a b => a.id ≤ b.id

section Select

variable (state : RateLimitSwitchState)
    (snapshots : PartialMap String StoredRateLimitSnapshot)
  (now : DateTime) (current : Option String)

/-- The body of the loop over the ChatGPT accounts. -/
def considerAccount (best : Option (StoredAccount × Float))
    (account : StoredAccount) :
    Option (StoredAccount × Float) :=
  if current = some account.id then best
  else if account.id ∈ state.triedAccounts then best
  else if isBlocked now (accountBlockedUntil state snapshots account.id) then
    best
  else
    let usedPercent := ((snapshots account.id).bind usageUsedPercent).getD 0.0
    match best with
    | none => some (account, usedPercent)
    | some (_, bestPercent) =>
        if usedPercent < bestPercent then some (account, usedPercent) else best

/-- An account is blocked, or has been tried and is limited. -/
def isUnavailable (account : StoredAccount) : Bool :=
  isBlocked now (accountBlockedUntil state snapshots account.id) ||
    (decide (account.id ∈ state.triedAccounts) &&
      decide (account.id ∈ state.limitedChatgptAccounts))

end Select

def selectNextAccountId (home : CodeHome) (state : RateLimitSwitchState)
    (allowApiKeyFallback : Bool) (now : DateTime)
    (currentAccountId : Option String) :
    Except Text (Option String) := do
  let current ← match currentAccountId with
    | some id => pure (some id)
    | none => home.activeAccountId
  let accounts ← home.accounts
  let chatgptAccounts := sortedAccounts AuthMode.isChatgpt accounts
  let apiKeyAccounts := sortedAccounts (· = .apiKey) accounts
  match chatgptAccounts.foldl
    (considerAccount state home.snapshotMap now current) none with
  | some (account, _) => pure (some account.id)
  | none =>
      if !allowApiKeyFallback then pure none
      else if !chatgptAccounts.isEmpty &&
          !chatgptAccounts.all (isUnavailable state home.snapshotMap now) then
            pure none
      else
        pure ((apiKeyAccounts.find? fun account =>
          current ≠ some account.id &&
            account.id ∉ state.triedAccounts).map StoredAccount.id)

/-- A call of `switch_active_account_on_rate_limit`, less the account it is
made for. -/
structure SwitchCall where
  home : CodeHome
  allowApiKeyFallback : Bool
  now : DateTime
  currentMode : AuthMode
  blockedUntil : Option DateTime
  /-- What `activate_account` returns. -/
  activation : Except Text Unit

def switchActiveAccountOnRateLimit (state : RateLimitSwitchState)
    (currentAccountId : String)
    (call : SwitchCall) : RateLimitSwitchState × Except Text (Option String) :=
  let state :=
    state.markLimited currentAccountId call.currentMode call.blockedUntil
  (state, do
    let nextAccountId ← selectNextAccountId call.home state
        call.allowApiKeyFallback call.now
      (some currentAccountId)
    match nextAccountId with
    | some id => call.activation.map fun _ => some id
    | none => pure none)

/-! ## The account that is selected -/

/-- An account may be used again only later than now. -/
def BlockedAt (state : RateLimitSwitchState)
    (snapshots : PartialMap String StoredRateLimitSnapshot) (now : DateTime)
    (id : String) :
    Prop :=
  ∃ resetAt, now < resetAt ∧
    (state.blockedUntil id = some resetAt ∨
      ∃ snapshot, snapshots id = some snapshot ∧
        (snapshot.primaryNextResetAt = some resetAt ∨
          snapshot.secondaryNextResetAt = some resetAt))

variable {state : RateLimitSwitchState}
    {snapshots : PartialMap String StoredRateLimitSnapshot}
  {now : DateTime} {home : CodeHome} {id : String}

theorem isBlocked_latest (now : DateTime) (a b : Option DateTime) :
    isBlocked now (latest a b) = (isBlocked now a || isBlocked now b) := by
  cases a <;> cases b <;> simp [isBlocked, latest, List.max?]

theorem isBlocked_iff :
    isBlocked now (accountBlockedUntil state snapshots id) = true ↔
      BlockedAt state snapshots now id := by
  have hsome : ∀ time : Option DateTime,
      isBlocked now time = true ↔
        ∃ resetAt, now < resetAt ∧ time = some resetAt := by
    intro time
    cases time <;> simp [isBlocked]
  cases hsnapshot : snapshots id with
  | none =>
      rw [accountBlockedUntil, isBlocked_latest, hsnapshot, Option.bind_none,
        Bool.or_eq_true,
        hsome, hsome, BlockedAt]
      simp [hsnapshot]
  | some snapshot =>
      rw [accountBlockedUntil, isBlocked_latest, hsnapshot, Option.bind_some,
        usageResetBlockedUntil, isBlocked_latest, Bool.or_eq_true,
        Bool.or_eq_true, hsome,
        hsome, hsome, BlockedAt]
      simp only [hsnapshot, Option.some.injEq, exists_eq_left',
        and_or_left, exists_or]

/-- The best account of the loop is one that it does not pass over. -/
theorem foldl_considerAccount {current : Option String}
    {accounts : List StoredAccount}
    {best : Option (StoredAccount × Float)} {account : StoredAccount}
    {percent : Float}
    (h : accounts.foldl (considerAccount state snapshots now current) best =
      some (account, percent)) :
    best = some (account, percent) ∨
      account ∈ accounts ∧ current ≠ some account.id ∧
        account.id ∉ state.triedAccounts ∧
        ¬ BlockedAt state snapshots now account.id := by
  induction accounts generalizing best with
  | nil => exact .inl h
  | cons first rest ih =>
      rcases ih h with hbest | ⟨hmem, hrest⟩
      · rw [considerAccount] at hbest
        split at hbest
        next => exact .inl hbest
        next hcurrent =>
          split at hbest
          next => exact .inl hbest
          next htried =>
            split at hbest
            next => exact .inl hbest
            next hblocked =>
              have hfirst : account = first → account ∈ first :: rest ∧
                  current ≠ some account.id ∧ account.id ∉ state.triedAccounts ∧
                  ¬ BlockedAt state snapshots now account.id := by
                rintro rfl
                exact ⟨List.mem_cons_self, hcurrent, htried,
                  fun h => hblocked (isBlocked_iff.2 h)⟩
              dsimp only at hbest
              split at hbest
              next =>
                cases hbest
                exact .inr (hfirst rfl)
              next =>
                split at hbest
                next =>
                  cases hbest
                  exact .inr (hfirst rfl)
                next => exact .inl hbest
      · exact .inr ⟨List.mem_cons_of_mem first hmem, hrest⟩

theorem mem_sortedAccounts {mode : AuthMode → Bool}
    {accounts : List StoredAccount}
    {account : StoredAccount} :
    account ∈ sortedAccounts mode accounts ↔
      account ∈ accounts ∧ mode account.mode = true ∧
        accountHasCredentials account = true := by
  rw [sortedAccounts, List.mem_mergeSort, List.mem_filter, Bool.and_eq_true]

/-- A ChatGPT account that is not blocked, or an API key where fallback is
allowed and no ChatGPT account is left. -/
def IsChoice (accounts : List StoredAccount) (state : RateLimitSwitchState)
    (snapshots : PartialMap String StoredRateLimitSnapshot)
    (allowApiKeyFallback : Bool)
    (now : DateTime) (account : StoredAccount) : Prop :=
  account.mode.isChatgpt = true ∧ ¬ BlockedAt state snapshots now account.id ∨
    account.mode = .apiKey ∧ allowApiKeyFallback = true ∧
      ∀ other ∈ accounts, other.mode.isChatgpt = true →
      accountHasCredentials other = true →
        BlockedAt state snapshots now other.id ∨
          other.id ∈ state.triedAccounts ∧
            other.id ∈ state.limitedChatgptAccounts

theorem selectNextAccountId_eq_some {allowApiKeyFallback : Bool}
    {current : String}
    (h : selectNextAccountId home state allowApiKeyFallback now (some current) =
      .ok (some id)) :
    ∃ accounts account, home.accounts = .ok accounts ∧ account ∈ accounts ∧
      account.id = id ∧ id ≠ current ∧ id ∉ state.triedAccounts ∧
      accountHasCredentials account = true ∧
      IsChoice accounts state home.snapshotMap allowApiKeyFallback
        now account := by
  obtain ⟨_, hcurrent, h⟩ := bind_eq_ok.1 h
  cases hcurrent
  obtain ⟨accounts, haccounts, h⟩ := bind_eq_ok.1 h
  dsimp only at h
  split at h
  next account percent hbest =>
    cases h
    rcases foldl_considerAccount hbest with
      hnone | ⟨hmem, hne, htried, hblocked⟩
    · cases hnone
    · obtain ⟨hmem, hmode, hcredentials⟩ := mem_sortedAccounts.1 hmem
      exact ⟨accounts, account, haccounts, hmem, rfl,
        fun heq => hne (congrArg some heq.symm),
        htried, hcredentials, .inl ⟨hmode, hblocked⟩⟩
  next =>
    split at h
    next => cases h
    next hallow =>
      split at h
      next => cases h
      next hunavailable =>
        obtain ⟨account, hfind, rfl⟩ :=
          Option.map_eq_some_iff.1 (Except.ok.inj h)
        have hskip := List.find?_some hfind
        obtain ⟨hmem, hmode, hcredentials⟩ :=
          mem_sortedAccounts.1 (List.mem_of_find?_eq_some hfind)
        simp only [Bool.and_eq_true, decide_eq_true_eq] at hskip hmode
        refine ⟨accounts, account, haccounts, hmem, rfl,
          fun heq => hskip.1 (congrArg some heq.symm), hskip.2, hcredentials,
          .inr ⟨hmode,
            by simpa using hallow, fun other hother hchatgpt hother' => ?_⟩⟩
        have hsorted := mem_sortedAccounts.2 ⟨hother, hchatgpt, hother'⟩
        have hall : (sortedAccounts AuthMode.isChatgpt accounts).all
            (isUnavailable state home.snapshotMap now) = true := by
          by_contra hnot
          refine hunavailable ?_
          rw [Bool.and_eq_true, Bool.not_eq_true', Bool.not_eq_true',
            List.isEmpty_eq_false_iff]
          exact ⟨List.ne_nil_of_mem hsorted, Bool.eq_false_iff.2 hnot⟩
        have hother := List.all_eq_true.1 hall other hsorted
        simpa only [isUnavailable, Bool.or_eq_true, Bool.and_eq_true,
          decide_eq_true_eq,
          isBlocked_iff] using hother

/-! ## Runs -/

/-- A run of calls: the account of the next call is the one that was returned
last. -/
structure SwitchRun where
  state : RateLimitSwitchState
  current : String
  returned : List String

namespace SwitchRun

/-- A run before its first call. -/
def start (first : String) : SwitchRun := ⟨{}, first, []⟩

/-- What the next call returns. -/
def result (r : SwitchRun) (call : SwitchCall) :
    RateLimitSwitchState × Except Text (Option String) :=
  switchActiveAccountOnRateLimit r.state r.current call

/-- The run after a call. -/
def next (r : SwitchRun) (call : SwitchCall) : SwitchRun :=
  match r.result call with
  | (state, .ok (some id)) => ⟨state, id, r.returned ++ [id]⟩
  | (state, _) => { r with state := state }

/-- The state in which the next call selects. -/
def marked (r : SwitchRun) (call : SwitchCall) : RateLimitSwitchState :=
  r.state.markLimited r.current call.currentMode call.blockedUntil

variable {r : SwitchRun} {call : SwitchCall} {id : String}

theorem selectNextAccountId_of_result (h : (r.result call).2 = .ok (some id)) :
    selectNextAccountId call.home (r.marked call)
      call.allowApiKeyFallback call.now
      (some r.current) = .ok (some id) := by
  obtain ⟨nextAccountId, hselect, h⟩ := bind_eq_ok.1 h
  cases nextAccountId with
  | none => cases h
  | some id' =>
      obtain ⟨_, -, hid⟩ := map_eq_ok.1 h
      cases hid
      exact hselect

/-- A call marks the current account, and returns nothing or an account that
has not been tried. -/
theorem next_cases (r : SwitchRun) (call : SwitchCall) :
    (r.next call).state = r.marked call ∧
      ((r.next call).current = r.current ∧ (r.next call).returned = r.returned ∨
        ∃ id, (r.result call).2 = .ok (some id) ∧ (r.next call).current = id ∧
          (r.next call).returned = r.returned ++ [id]) := by
  have hstate : (r.result call).1 = r.marked call := rfl
  unfold next
  split
  next state id hresult =>
    rw [hresult] at hstate
    exact ⟨hstate, .inr ⟨id, by rw [hresult], rfl, rfl⟩⟩
  next state _ _ hresult =>
    rw [hresult] at hstate
    exact ⟨hstate, .inl ⟨rfl, rfl⟩⟩

theorem mem_triedAccounts_marked {other : String} :
    other ∈ (r.marked call).triedAccounts ↔
      other = r.current ∨ other ∈ r.state.triedAccounts :=
  Finset.mem_insert

/-- No account is current twice, and all but the current one have been tried. -/
structure Inv (first : String) (r : SwitchRun) : Prop where
  nodup : (first :: r.returned).Nodup
  tried : ∀ id ∈ first :: r.returned, id = r.current ∨
    id ∈ r.state.triedAccounts

theorem inv_next {first : String} (h : Inv first r) (call : SwitchCall) :
    Inv first (r.next call) := by
  have htried : ∀ id ∈ first :: r.returned,
      id ∈ (r.marked call).triedAccounts := fun id hid =>
    mem_triedAccounts_marked.2 (h.tried id hid)
  obtain ⟨hstate, ⟨hcurrent, hreturned⟩ | ⟨id, hresult, hcurrent, hreturned⟩⟩ :=
    r.next_cases call
  · constructor
    · rw [hreturned]
      exact h.nodup
    · rw [hreturned, hstate]
      exact fun id hid => .inr (htried id hid)
  · obtain ⟨_, _, _, _, _, -, hnew, -, -⟩ :=
      selectNextAccountId_eq_some (selectNextAccountId_of_result hresult)
    constructor
    · rw [hreturned, ← List.cons_append, List.nodup_append]
      refine ⟨h.nodup, List.nodup_singleton id, fun a ha b hb => ?_⟩
      rw [List.mem_singleton.1 hb]
      exact fun heq => hnew (heq ▸ htried a ha)
    · rw [hreturned, hstate, hcurrent, ← List.cons_append]
      intro other hother
      rcases List.mem_append.1 hother with hold | hnewest
      · exact .inr (htried other hold)
      · exact .inl (List.mem_singleton.1 hnewest)

theorem returned_subset {ids : List String} {calls : List SwitchCall}
    (hids : ∀ call ∈ calls, ∀ accounts, call.home.accounts = .ok accounts →
      ∀ account ∈ accounts, account.id ∈ ids) (h : ∀ id ∈ r.returned,
        id ∈ ids) :
    ∀ id ∈ (after next r calls).returned, id ∈ ids := by
  induction calls generalizing r with
  | nil => exact h
  | cons call rest ih =>
      rw [List.forall_mem_cons] at hids
      refine ih hids.2 ?_
      obtain ⟨-, ⟨-, hreturned⟩ | ⟨id, hresult, -, hreturned⟩⟩ :=
        r.next_cases call
      · rwa [hreturned]
      · obtain ⟨accounts, account, haccounts, hmem, hid, -⟩ :=
          selectNextAccountId_eq_some (selectNextAccountId_of_result hresult)
        rw [hreturned]
        intro other hother
        rcases List.mem_append.1 hother with hold | hnewest
        · exact h other hold
        · rw [List.mem_singleton.1 hnewest, ← hid]
          exact hids.1 accounts haccounts account hmem

end SwitchRun

/-- In a run from one account, the accounts that are returned are different
from it and from each other, so that there are no more of them than accounts.
Each has credentials, and is a ChatGPT account that is not blocked, or an API
key that is allowed when every ChatGPT account with credentials is blocked or
has been tried and is limited. -/
theorem switchRun_returned (first : String) (calls : List SwitchCall) :
    let run := after SwitchRun.next (SwitchRun.start first)
    (first :: (run calls).returned).Nodup ∧
      (∀ accounts, (∀ call ∈ calls, call.home.accounts = .ok accounts) →
        (run calls).returned.length ≤ accounts.length ∧
          (first ∈ accounts.map StoredAccount.id →
            (run calls).returned.length < accounts.length)) ∧
      ∀ before call later, calls = before ++ call :: later →
        ∀ id, ((run before).result call).2 = .ok (some id) →
          ∃ accounts account, call.home.accounts = .ok accounts ∧
            account ∈ accounts ∧
            account.id = id ∧ id ∉ first :: (run before).returned ∧
            accountHasCredentials account = true ∧
            IsChoice accounts ((run before).marked call) call.home.snapshotMap
              call.allowApiKeyFallback call.now account := by
  intro run
  have hinv : ∀ calls, SwitchRun.Inv first (run calls) := fun calls => by
    refine after_induction (P := SwitchRun.Inv first)
      (fun r call h => SwitchRun.inv_next h call) ?_ calls
    exact ⟨List.nodup_singleton first,
      fun id hid => .inl (List.mem_singleton.1 hid)⟩
  refine ⟨(hinv calls).nodup, fun accounts haccounts => ?_, ?_⟩
  · have hsubset : ∀ id ∈ (run calls).returned,
        id ∈ accounts.map StoredAccount.id :=
      SwitchRun.returned_subset
        (fun call hcall accounts' haccounts' account hmem => by
          cases (haccounts call hcall).symm.trans haccounts'
          exact List.mem_map_of_mem hmem)
        (fun id hid => absurd hid List.not_mem_nil)
    have hnodup := (hinv calls).nodup
    have hlength : (accounts.map StoredAccount.id).length = accounts.length :=
      List.length_map _
    rw [← hlength]
    refine ⟨(List.nodup_cons.1 hnodup).2.subperm hsubset |>.length_le,
      fun hfirst => ?_⟩
    exact (hnodup.subperm (List.cons_subset.2 ⟨hfirst, hsubset⟩)).length_le
  · rintro before call later - id hresult
    obtain ⟨accounts, account, haccounts, hmem, hid, -, hnew,
        hcredentials, hchoice⟩ :=
      selectNextAccountId_eq_some
        (SwitchRun.selectNextAccountId_of_result hresult)
    refine ⟨accounts, account, haccounts, hmem, hid, fun hold => hnew ?_,
      hcredentials, hchoice⟩
    exact SwitchRun.mem_triedAccounts_marked.2 ((hinv before).tried id hold)

end CodeRs.AccountUsage
