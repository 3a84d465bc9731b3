import CodeRs.AccountUsage.Switching
import CodeRs.Lib.Runs
import CodeRs.Lib.Text

/-!
# Stored accounts

The accounts file of `core/src/auth_accounts.rs`.  A call reads the file,
changes it and writes it, or it fails and leaves the file as it is.
-/

namespace CodeRs.Auth

open AccountUsage (AuthMode DateTime)

/-! ## Accounts -/

/-- `TokenData`, with the email of its id token. -/
structure TokenData where
  email : Option Text
  accessToken : String
  refreshToken : String
  accountId : Option String
  deriving DecidableEq

structure StoredAccount where
  id : String
  mode : AuthMode
  label : Option String
  openaiApiKey : Option String
  tokens : Option TokenData
  lastRefresh : Option DateTime
  createdAt : Option DateTime
  lastUsedAt : Option DateTime
  deriving DecidableEq

structure AccountsFile where
  version : ℕ
  activeAccountId : Option String
  accounts : List StoredAccount
  deriving DecidableEq

def AccountsFile.default : AccountsFile := ⟨1, none, []⟩

def normalizeEmail (email : Text) : Text := email.trim.toAsciiLowercase

def matchChatgptAccount (existing : StoredAccount)
    (tokens : TokenData) : Bool :=
  existing.mode.isChatgpt &&
    match existing.tokens with
    | none => false
    | some existingTokens =>
        let accountIdMatches :=
          match existingTokens.accountId, tokens.accountId with
          | some a, some b => a = b
          | _, _ => false
        let emailMatches := match existingTokens.email, tokens.email with
          | some a, some b => normalizeEmail a = normalizeEmail b
          | _, _ => false
        accountIdMatches && emailMatches

def matchApiKeyAccount (existing : StoredAccount) (apiKey : String) : Bool :=
  existing.mode = .apiKey && existing.openaiApiKey.any (· = apiKey)

def touchAccount (now : DateTime) (account : StoredAccount) (used : Bool) :
    StoredAccount :=
  { account with
    createdAt := account.createdAt.or (some now)
    lastUsedAt := if used then some now else account.lastUsedAt }

/-- The account that `upsert_account` finds. -/
def existingIdx (accounts : List StoredAccount) (newAccount : StoredAccount) :
    Option ℕ :=
  match newAccount.mode with
  | .chatgpt | .chatgptAuthTokens =>
      newAccount.tokens.bind fun tokens =>
        accounts.findIdx? (matchChatgptAccount · tokens)
  | .apiKey =>
      newAccount.openaiApiKey.bind fun apiKey =>
        accounts.findIdx? (matchApiKeyAccount · apiKey)

/-- The account that is found with what is new of the other one. -/
def mergeAccount (account newAccount : StoredAccount) : StoredAccount :=
  { account with
    label := newAccount.label.or account.label
    lastRefresh := newAccount.lastRefresh.or account.lastRefresh
    tokens := newAccount.tokens.or account.tokens
    openaiApiKey := newAccount.openaiApiKey.or account.openaiApiKey
    lastUsedAt := newAccount.lastUsedAt.or account.lastUsedAt }

/-- `upsert_account`.  The clock is read once. -/
def upsertAccount (now : DateTime) (data : AccountsFile)
    (newAccount : StoredAccount) :
    AccountsFile × StoredAccount :=
  match (existingIdx data.accounts newAccount).bind fun idx =>
      data.accounts[idx]?.map fun account => (idx, account) with
  | some (idx, existing) =>
      let account := mergeAccount existing newAccount
      ({ data with accounts := data.accounts.set idx account }, account)
  | none =>
      let newAccount :=
        { newAccount with createdAt := newAccount.createdAt.or (some now) }
      ({ data with accounts := data.accounts ++ [newAccount] }, newAccount)

/-- Touch the first account with an id, as `find` and `touch_account` do. -/
def touchFirst (now : DateTime) (id : String) :
    List StoredAccount → List StoredAccount
  | [] => []
  | account :: rest =>
      if account.id = id then touchAccount now account true :: rest
      else account :: touchFirst now id rest

/-- What the two upserts do with `make_active`. -/
def makeActive (now : DateTime) (upserted : AccountsFile × StoredAccount) :
    AccountsFile × StoredAccount :=
  let data := upserted.1
  let accounts := touchFirst now upserted.2.id data.accounts
  ({ data with activeAccountId := some upserted.2.id, accounts := accounts },
    (accounts.find? (·.id = upserted.2.id)).getD upserted.2)

/-- `upsert_api_key_account`, with the new id. -/
def upsertApiKeyAccount (now : DateTime) (nextId : String) (data : AccountsFile)
    (apiKey : String) (label : Option String) (active : Bool) :
    AccountsFile × StoredAccount :=
  let newAccount :=
    StoredAccount.mk nextId .apiKey label (some apiKey) none none none none
  let upserted := upsertAccount now data newAccount
  if active then makeActive now upserted else upserted

/-- `upsert_chatgpt_account`, with the new id. -/
def upsertChatgptAccount (now : DateTime) (nextId : String)
    (data : AccountsFile)
    (tokens : TokenData) (lastRefresh : DateTime) (label : Option String)
    (active : Bool) :
    AccountsFile × StoredAccount :=
  let newAccount :=
    StoredAccount.mk nextId .chatgpt label none (some tokens)
      (some lastRefresh) none none
  let upserted := upsertAccount now data newAccount
  if active then makeActive now upserted else upserted

def setActiveAccountId (now : DateTime) (data : AccountsFile)
    (accountId : Option String) :
    AccountsFile × Option StoredAccount :=
  let data := { data with activeAccountId := accountId }
  match accountId with
  | none => (data, none)
  | some id =>
      let accounts := touchFirst now id data.accounts
      ({ data with accounts := accounts }, accounts.find? (·.id = id))

def removeAccount (data : AccountsFile) (accountId : String) :
    AccountsFile × Option StoredAccount :=
  ({ data with
      accounts := data.accounts.eraseP (·.id = accountId)
      activeAccountId :=
        if data.activeAccountId = some accountId then none
          else data.activeAccountId },
    data.accounts.find? (·.id = accountId))

/-! ## Calls -/

/-- The functions that change the file, with their arguments and the id that an
upsert draws. -/
inductive AccountsOp where
  | upsertApiKey (nextId : String) (apiKey : String) (label : Option
    String) (active : Bool)
  | upsertChatgpt (nextId : String) (tokens :
    TokenData) (lastRefresh : DateTime)
      (label : Option String) (active : Bool)
  | setActive (accountId : Option String)
  | remove (accountId : String)

/-- A call: what it does, its time, and whether the file is read and written. -/
structure AccountsCall where
  op : AccountsOp
  now : DateTime
  written : Bool

/-- The file that an operation writes. -/
def AccountsOp.apply (now : DateTime) (data : AccountsFile) :
    AccountsOp → AccountsFile
  | upsertApiKey nextId apiKey label active =>
      (upsertApiKeyAccount now nextId data apiKey label active).1
  | upsertChatgpt nextId tokens lastRefresh label active =>
      (upsertChatgptAccount now nextId data tokens lastRefresh label active).1
  | setActive accountId => (setActiveAccountId now data accountId).1
  | remove accountId => (removeAccount data accountId).1

def AccountsFile.next (data : AccountsFile) (call : AccountsCall) :
    AccountsFile :=
  if call.written then call.op.apply call.now data else data

/-! ## Who an account stands for -/

def StoredAccount.key (account : StoredAccount) : Option String :=
  if account.mode = .apiKey then account.openaiApiKey else none

/-- The account id and the normalised email, if there are both. -/
def TokenData.person (tokens : TokenData) : Option (String × Text) :=
  tokens.accountId.bind fun accountId =>
    tokens.email.map fun email => (accountId, normalizeEmail email)

/-- The person behind a ChatGPT account. -/
def StoredAccount.person (account : StoredAccount) : Option (String × Text) :=
  if account.mode.isChatgpt then account.tokens.bind TokenData.person else none

theorem matchApiKeyAccount_iff (account : StoredAccount) (apiKey : String) :
    matchApiKeyAccount account apiKey ↔ account.key = some apiKey := by
  rw [matchApiKeyAccount, StoredAccount.key]
  by_cases hmode : account.mode = .apiKey
  · cases hkey : account.openaiApiKey with
    | none => simp [hmode]
    | some key => simp [hmode]
  · simp [hmode]

theorem matchChatgptAccount_iff (account : StoredAccount) (tokens : TokenData) :
    matchChatgptAccount account tokens ↔
      ∃ person, account.person = some person ∧ tokens.person = some person := by
  rw [matchChatgptAccount, StoredAccount.person, TokenData.person]
  by_cases hmode : account.mode.isChatgpt
  · cases htokens : account.tokens with
    | none => simp [hmode]
    | some existing =>
        obtain ⟨email, -, -, accountId⟩ := existing
        obtain ⟨email', access, refresh, accountId'⟩ := tokens
        rw [Option.bind_some, TokenData.person]
        cases accountId with
        | none => simp [hmode]
        | some a =>
            cases accountId' with
            | none => simp [hmode]
            | some b =>
                cases email with
                | none => simp [hmode]
                | some c =>
                    cases email' with
                    | none => simp [hmode]
                    | some d =>
                        simp only [hmode, Bool.true_and, Bool.and_eq_true,
                          decide_eq_true_eq,
                          Option.bind_some, Option.map_some,
                          Option.some.injEq, if_true]
                        constructor
                        · rintro ⟨rfl, hemail⟩
                          exact ⟨_, rfl, by rw [hemail]⟩
                        · rintro ⟨person, rfl, hperson⟩
                          obtain ⟨ha, hd⟩ := Prod.mk.inj hperson
                          exact ⟨ha.symm, hd.symm⟩
  · simp [hmode]

/-- Two accounts that have the same id and stand for the same. -/
structure SameAs (account other : StoredAccount) : Prop where
  id : account.id = other.id
  key : account.key = other.key
  person : account.person = other.person

/-- An account stands for the same as a new one. -/
def Matches (account newAccount : StoredAccount) : Prop :=
  (∃ key, account.key = some key ∧ newAccount.key = some key) ∨
    ∃ person, account.person = some person ∧ newAccount.person = some person

theorem touchAccount_sameAs (now : DateTime) (account : StoredAccount)
    (used : Bool) :
    SameAs (touchAccount now account used) account :=
  ⟨rfl, rfl, rfl⟩

/-- Merging keeps the id, the key and the person. -/
theorem mergeAccount_sameAs {account newAccount : StoredAccount}
    (h : Matches account newAccount) :
    SameAs (mergeAccount account newAccount) account := by
  refine ⟨rfl, ?_, ?_⟩
  · rw [StoredAccount.key, StoredAccount.key, mergeAccount]
    by_cases hmode : account.mode = .apiKey
    · rcases h with ⟨key, hkey, hnew⟩ | ⟨person, hperson, -⟩
      · rw [StoredAccount.key, if_pos hmode] at hkey
        rw [StoredAccount.key] at hnew
        split at hnew
        · simp only [if_pos hmode, hnew, hkey, Option.some_or]
        · cases hnew
      · simp [StoredAccount.person, hmode, AuthMode.isChatgpt] at hperson
    · simp only [if_neg hmode]
  · rw [StoredAccount.person, StoredAccount.person, mergeAccount]
    by_cases hmode : account.mode.isChatgpt
    · rcases h with ⟨key, hkey, -⟩ | ⟨person, hperson, hnew⟩
      · rw [StoredAccount.key] at hkey
        split at hkey
        next hapi => simp [hapi, AuthMode.isChatgpt] at hmode
        next => cases hkey
      · rw [StoredAccount.person, if_pos hmode] at hperson
        rw [StoredAccount.person] at hnew
        split at hnew
        · obtain ⟨tokens, htokens, -⟩ := Option.bind_eq_some_iff.1 hnew
          rw [htokens] at hnew
          simp only [if_pos hmode, htokens, Option.some_or, hnew, hperson]
        · cases hnew
    · simp only [if_neg hmode]

/-! ## Upserts -/

theorem exists_split_of_findIdx? {α : Type*} {p : α → Bool} {l : List α} {i : ℕ}
    (h : l.findIdx? p = some i) :
    ∃ front x back, l = front ++ x :: back ∧ p x ∧ i = front.length := by
  induction l generalizing i with
  | nil => cases h
  | cons y rest ih =>
      rw [List.findIdx?_cons] at h
      split at h
      next hy =>
        cases h
        exact ⟨[], y, rest, rfl, hy, rfl⟩
      next =>
        obtain ⟨j, hj, rfl⟩ := Option.map_eq_some_iff.1 h
        obtain ⟨front, x, back, rfl, hx, rfl⟩ := ih hj
        exact ⟨y :: front, x, back, rfl, hx, rfl⟩

section Found

variable {accounts : List StoredAccount} {newAccount : StoredAccount}

theorem existingIdx_chatgpt (h : newAccount.mode.isChatgpt) :
    existingIdx accounts newAccount =
      newAccount.tokens.bind fun tokens =>
        accounts.findIdx? (matchChatgptAccount · tokens) := by
  cases hmode : newAccount.mode with
  | apiKey => simp [hmode, AuthMode.isChatgpt] at h
  | chatgpt => simp only [existingIdx, hmode]
  | chatgptAuthTokens => simp only [existingIdx, hmode]

theorem existingIdx_apiKey (h : newAccount.mode = .apiKey) :
    existingIdx accounts newAccount =
      newAccount.openaiApiKey.bind fun apiKey =>
        accounts.findIdx? (matchApiKeyAccount · apiKey) := by
  simp only [existingIdx, h]

theorem isChatgpt_or_apiKey (mode : AuthMode) :
    mode.isChatgpt ∨ mode = .apiKey := by
  cases mode with
  | apiKey => exact Or.inr rfl
  | chatgpt => exact Or.inl rfl
  | chatgptAuthTokens => exact Or.inl rfl

theorem exists_split_of_existingIdx {idx : ℕ}
    (h : existingIdx accounts newAccount = some idx) :
    ∃ front account back, accounts = front ++ account :: back ∧
      idx = front.length ∧
      Matches account newAccount := by
  rcases isChatgpt_or_apiKey newAccount.mode with hmode | hmode
  · rw [existingIdx_chatgpt hmode] at h
    obtain ⟨tokens, htokens, hfind⟩ := Option.bind_eq_some_iff.1 h
    obtain ⟨front, account, back, rfl, hmatch, hidx⟩ :=
      exists_split_of_findIdx? hfind
    obtain ⟨person, haccount, hperson⟩ :=
      (matchChatgptAccount_iff account tokens).1 hmatch
    have hnew : newAccount.person = some person := by
      rw [StoredAccount.person, if_pos hmode, htokens]
      exact hperson
    exact ⟨front, account, back, rfl, hidx, Or.inr ⟨person, haccount, hnew⟩⟩
  · rw [existingIdx_apiKey hmode] at h
    obtain ⟨apiKey, hkey, hfind⟩ := Option.bind_eq_some_iff.1 h
    obtain ⟨front, account, back, rfl, hmatch, hidx⟩ :=
      exists_split_of_findIdx? hfind
    have haccount := (matchApiKeyAccount_iff account apiKey).1 hmatch
    have hnew : newAccount.key = some apiKey := by
      rw [StoredAccount.key, if_pos hmode, hkey]
    exact ⟨front, account, back, rfl, hidx, Or.inl ⟨apiKey, haccount, hnew⟩⟩

theorem not_matches_of_existingIdx
    (h : existingIdx accounts newAccount = none) :
    ∀ account ∈ accounts, ¬ Matches account newAccount := by
  intro account hmem hmatches
  rcases hmatches with ⟨key, hkey, hnew⟩ | ⟨person, hperson, hnew⟩
  · rw [StoredAccount.key] at hnew
    split at hnew
    next hmode =>
      rw [existingIdx_apiKey hmode, hnew, Option.bind_some] at h
      have hnone := List.findIdx?_eq_none_iff.1 h account hmem
      rw [(matchApiKeyAccount_iff account key).2 hkey] at hnone
      cases hnone
    next => cases hnew
  · rw [StoredAccount.person] at hnew
    split at hnew
    next hmode =>
      obtain ⟨tokens, htokens, hperson'⟩ := Option.bind_eq_some_iff.1 hnew
      rw [existingIdx_chatgpt hmode, htokens, Option.bind_some] at h
      have hnone := List.findIdx?_eq_none_iff.1 h account hmem
      rw [(matchChatgptAccount_iff account tokens).2 ⟨person, hperson,
        hperson'⟩] at hnone
      cases hnone
    next => cases hnew

end Found

theorem upsertAccount_cases (now : DateTime) (data : AccountsFile)
    (newAccount : StoredAccount) :
    (∃ front account back, data.accounts = front ++ account :: back ∧
      Matches account newAccount ∧
      upsertAccount now data newAccount =
        ({ data with
          accounts := front ++ mergeAccount account newAccount :: back },
          mergeAccount account newAccount)) ∨
    ((∀ account ∈ data.accounts, ¬ Matches account newAccount) ∧
      ∃ added, SameAs added newAccount ∧ upsertAccount now data newAccount =
        ({ data with accounts := data.accounts ++ [added] }, added)) := by
  rw [upsertAccount]
  cases hidx : existingIdx data.accounts newAccount with
  | none =>
      refine Or.inr ⟨not_matches_of_existingIdx hidx,
        { newAccount with createdAt := newAccount.createdAt.or (some now) },
        ⟨rfl, rfl, rfl⟩, ?_⟩
      rfl
  | some idx =>
      obtain ⟨front, account, back, hsplit, rfl, hmatches⟩ :=
        exists_split_of_existingIdx hidx
      have hget : data.accounts[front.length]? = some account := by
        simp [hsplit]
      refine Or.inl ⟨front, account, back, hsplit, hmatches, ?_⟩
      simp only [Option.bind_some, hget, Option.map_some]
      rw [hsplit, List.set_append_right _ _ (Nat.le_refl _), Nat.sub_self,
        List.set_cons_zero]

end CodeRs.Auth
