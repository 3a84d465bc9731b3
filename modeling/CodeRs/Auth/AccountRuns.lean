import CodeRs.Auth.Accounts

/-!
# Runs on the accounts file

API keys and the people behind ChatGPT accounts are stored once, whatever calls
the functions of `core/src/auth_accounts.rs` get.  The active account is a
stored one as long as no call makes one active that is not stored.
-/

namespace CodeRs.Auth

open AccountUsage (DateTime)

/-! ## Distinct accounts -/

def AccountsFile.ids (data : AccountsFile) : List String :=
  data.accounts.map (·.id)

/-- No two accounts have the same id, key or person. -/
structure Distinct (data : AccountsFile) : Prop where
  ids : data.ids.Nodup
  keys : (data.accounts.filterMap StoredAccount.key).Nodup
  people : (data.accounts.filterMap StoredAccount.person).Nodup

def ActiveStored (data : AccountsFile) : Prop :=
  ∀ id, data.activeAccountId = some id → id ∈ data.ids

/-- A list of accounts is as another one for all that has to be distinct. -/
structure AccountsAs (accounts others : List StoredAccount) : Prop where
  ids : accounts.map (·.id) = others.map (·.id)
  keys : accounts.filterMap StoredAccount.key =
    others.filterMap StoredAccount.key
  people : accounts.filterMap StoredAccount.person =
    others.filterMap StoredAccount.person

theorem AccountsAs.distinct {data other : AccountsFile}
    (h : AccountsAs data.accounts other.accounts) (hother : Distinct other) :
    Distinct data where
  ids := by
    rw [AccountsFile.ids, h.ids]
    exact hother.ids
  keys := h.keys ▸ hother.keys
  people := h.people ▸ hother.people

theorem accountsAs_replace (front back : List StoredAccount)
    {account other : StoredAccount}
    (h : SameAs account other) :
    AccountsAs (front ++ account :: back) (front ++ other :: back) where
  ids := by simp [h.id]
  keys := by simp [List.filterMap_cons, h.key]
  people := by simp [List.filterMap_cons, h.person]

theorem accountsAs_touchFirst (now : DateTime) (id : String)
    (accounts : List StoredAccount) :
    AccountsAs (touchFirst now id accounts) accounts := by
  induction accounts with
  | nil => exact ⟨rfl, rfl, rfl⟩
  | cons account rest ih =>
      rw [touchFirst]
      split
      · exact accountsAs_replace [] rest (touchAccount_sameAs now account true)
      · exact ⟨congrArg (account.id :: ·) ih.ids,
          by simp [List.filterMap_cons, ih.keys],
          by simp [List.filterMap_cons, ih.people]⟩

theorem Distinct.add {data : AccountsFile} (h : Distinct data)
    {added : StoredAccount}
    (hid : added.id ∉ data.ids)
    (hnew : ∀ account ∈ data.accounts, ¬ Matches account added) :
    Distinct { data with accounts := data.accounts ++ [added] } where
  ids := by
    rw [AccountsFile.ids, List.map_append, List.map_singleton]
    exact List.nodup_append.2 ⟨h.ids, List.nodup_singleton _, by
      rintro id hmem other hother rfl
      exact hid (List.mem_singleton.1 hother ▸ hmem)⟩
  keys := by
    rw [List.filterMap_append]
    cases hkey : added.key with
    | none => simpa [List.filterMap_cons, hkey] using h.keys
    | some key =>
        simp only [List.filterMap_cons, hkey, List.filterMap_nil]
        refine List.nodup_append.2 ⟨h.keys, List.nodup_singleton _, ?_⟩
        rintro key' hmem other hother rfl
        obtain ⟨account, haccount, hsame⟩ := List.mem_filterMap.1 hmem
        rw [List.mem_singleton.1 hother] at hsame
        exact hnew account haccount (Or.inl ⟨key, hsame, hkey⟩)
  people := by
    rw [List.filterMap_append]
    cases hperson : added.person with
    | none => simpa [List.filterMap_cons, hperson] using h.people
    | some person =>
        simp only [List.filterMap_cons, hperson, List.filterMap_nil]
        refine List.nodup_append.2 ⟨h.people, List.nodup_singleton _, ?_⟩
        rintro person' hmem other hother rfl
        obtain ⟨account, haccount, hsame⟩ := List.mem_filterMap.1 hmem
        rw [List.mem_singleton.1 hother] at hsame
        exact hnew account haccount (Or.inr ⟨person, hsame, hperson⟩)

/-- What is found for a new account is one account. -/
theorem eq_of_mem_filterMap {α β : Type*} {f : α → Option β} {l : List α}
    (h : (l.filterMap f).Nodup) {a b : α} {k : β} (ha : a ∈ l) (hb : b ∈ l)
    (hfa : f a = some k) (hfb : f b = some k) : a = b := by
  induction l with
  | nil => cases ha
  | cons x rest ih =>
      have hrest : (rest.filterMap f).Nodup :=
        h.sublist ((List.sublist_cons_self x rest).filterMap f)
      have hx : ∀ y ∈ rest, f x = some k → f y ≠ some k := by
        intro y hy hfx hfy
        rw [List.filterMap_cons_some hfx] at h
        exact (List.nodup_cons.1 h).1 (List.mem_filterMap.2 ⟨y, hy, hfy⟩)
      rcases List.mem_cons.1 ha with hax | harest
      · rcases List.mem_cons.1 hb with hbx | hbrest
        · exact hax.trans hbx.symm
        · exact absurd hfb (hx b hbrest (hax ▸ hfa))
      · rcases List.mem_cons.1 hb with hbx | hbrest
        · exact absurd hfa (hx a harest (hbx ▸ hfb))
        · exact ih hrest harest hbrest

theorem not_key_and_person {account : StoredAccount} {key : String}
    {person : String × Text}
    (hkey : account.key = some key) : account.person ≠ some person := by
  intro hperson
  rw [StoredAccount.key] at hkey
  split at hkey
  next hmode =>
    simp [StoredAccount.person, hmode,
      AccountUsage.AuthMode.isChatgpt] at hperson
  next => cases hkey

theorem Distinct.eq_of_matches {data : AccountsFile} (h : Distinct data)
    {a b newAccount : StoredAccount} (ha : a ∈ data.accounts)
    (hb : b ∈ data.accounts)
    (hma : Matches a newAccount) (hmb : Matches b newAccount) : a = b := by
  rcases hma with ⟨key, hka, hkey⟩ | ⟨person, hpa, hperson⟩
  · rcases hmb with ⟨key', hkb, hkey'⟩ | ⟨person, -, hperson⟩
    · cases hkey.symm.trans hkey'
      exact eq_of_mem_filterMap h.keys ha hb hka hkb
    · exact absurd hperson (not_key_and_person hkey)
  · rcases hmb with ⟨key, -, hkey⟩ | ⟨person', hpb, hperson'⟩
    · exact absurd hperson (not_key_and_person hkey)
    · cases hperson.symm.trans hperson'
      exact eq_of_mem_filterMap h.people ha hb hpa hpb

/-! ## One operation -/

/-- Both upserts: upsert an account, and make it active if that is asked for. -/
def upsertActive (now : DateTime) (data : AccountsFile)
    (newAccount : StoredAccount)
    (active : Bool) : AccountsFile × StoredAccount :=
  let upserted := upsertAccount now data newAccount
  if active then makeActive now upserted else upserted

/-- What an upsert does to the file, where the id of the new account is a new
one. -/
structure Upserted (data : AccountsFile) (newAccount : StoredAccount)
    (result : AccountsFile × StoredAccount) : Prop where
  distinct : Distinct result.1
  returned : result.2.id ∈ result.1.ids
  kept : ∀ id ∈ data.ids, id ∈ result.1.ids
  ids : ∀ id ∈ result.1.ids, id ∈ data.ids ∨ id = newAccount.id
  known : ∀ account ∈ data.accounts, Matches account newAccount →
    result.2.id = account.id ∧ result.1.ids = data.ids

variable {data : AccountsFile} {newAccount : StoredAccount}

theorem upserted_upsertAccount (h : Distinct data)
    (hid : newAccount.id ∉ data.ids)
    (now : DateTime) :
    Upserted data newAccount (upsertAccount now data newAccount) := by
  rcases upsertAccount_cases now data newAccount with
    ⟨front, account, back, hsplit, hmatches, heq⟩ | ⟨hnone, added, hsame, heq⟩
  · have hmem : account ∈ data.accounts := by simp [hsplit]
    have hmerged := mergeAccount_sameAs hmatches
    have has :
        AccountsAs (front ++ mergeAccount account newAccount :: back)
          data.accounts := by
      rw [hsplit]
      exact accountsAs_replace front back hmerged
    rw [heq]
    refine ⟨has.distinct h, ?_, ?_, ?_, ?_⟩
    · simp [AccountsFile.ids]
    · intro id hid'
      rw [AccountsFile.ids, has.ids]
      exact hid'
    · intro id hid'
      rw [AccountsFile.ids, has.ids] at hid'
      exact Or.inl hid'
    · intro other hother hmatches'
      have hone : account = other :=
        h.eq_of_matches hmem hother hmatches hmatches'
      exact ⟨hmerged.id.trans (congrArg StoredAccount.id hone), has.ids⟩
  · have hadded : added.id ∉ data.ids := hsame.id.symm ▸ hid
    have hnew : ∀ account ∈ data.accounts, ¬ Matches account added := by
      intro account hmem hmatches
      refine hnone account hmem ?_
      rw [Matches, hsame.key, hsame.person] at hmatches
      exact hmatches
    rw [heq]
    refine ⟨h.add hadded hnew, ?_, ?_, ?_, ?_⟩
    · simp [AccountsFile.ids]
    · intro id hid'
      simp only [AccountsFile.ids, List.map_append]
      exact List.mem_append_left _ hid'
    · intro id hid'
      simp only [AccountsFile.ids, List.map_append] at hid'
      rcases List.mem_append.1 hid' with hold | hnew
      · exact Or.inl hold
      · exact Or.inr ((List.mem_singleton.1 hnew).trans hsame.id)
    · intro account hmem hmatches
      exact absurd hmatches (hnone account hmem)

theorem id_makeActive (now : DateTime) (result : AccountsFile × StoredAccount) :
    (makeActive now result).2.id = result.2.id := by
  have hgetD : (makeActive now result).2 =
      ((touchFirst now result.2.id result.1.accounts).find? (·.id =
        result.2.id)).getD
        result.2 := rfl
  rw [hgetD]
  cases hfind : (touchFirst now result.2.id result.1.accounts).find?
      (·.id = result.2.id) with
  | none => rfl
  | some account =>
      have hid := List.find?_some hfind
      exact of_decide_eq_true hid

theorem Upserted.makeActive {result : AccountsFile × StoredAccount}
    (h : Upserted data newAccount result) (now : DateTime) :
    Upserted data newAccount (makeActive now result) := by
  have has := accountsAs_touchFirst now result.2.id result.1.accounts
  have hids : (CodeRs.Auth.makeActive now result).1.ids = result.1.ids :=
    has.ids
  have hreturned := id_makeActive now result
  refine ⟨has.distinct h.distinct, ?_, ?_, ?_, ?_⟩
  · rw [hids, hreturned]
    exact h.returned
  · rw [hids]
    exact h.kept
  · rw [hids]
    exact h.ids
  · rw [hids, hreturned]
    exact h.known

theorem upserted_upsertActive (h : Distinct data)
    (hid : newAccount.id ∉ data.ids)
    (now : DateTime) (active : Bool) :
    Upserted data newAccount (upsertActive now data newAccount active) := by
  have hupserted := upserted_upsertAccount h hid now
  rw [upsertActive]
  cases active with
  | true => exact hupserted.makeActive now
  | false => exact hupserted

variable {now : DateTime} {active : Bool}

theorem accountsAs_setActive (now : DateTime) (data : AccountsFile)
    (accountId : Option String) :
    AccountsAs (setActiveAccountId now data accountId).1.accounts
      data.accounts := by
  cases accountId with
  | none => exact ⟨rfl, rfl, rfl⟩
  | some id => exact accountsAs_touchFirst now id data.accounts

@[simp] theorem activeAccountId_setActive (now : DateTime) (data : AccountsFile)
    (accountId : Option String) :
    (setActiveAccountId now data accountId).1.activeAccountId = accountId := by
  cases accountId with
  | none => rfl
  | some id => rfl

theorem Distinct.remove (h : Distinct data) (accountId : String) :
    Distinct (removeAccount data accountId).1 where
  ids := h.ids.sublist (List.eraseP_sublist.map _)
  keys := h.keys.sublist (List.eraseP_sublist.filterMap _)
  people := h.people.sublist (List.eraseP_sublist.filterMap _)

theorem mem_ids_remove {accountId id : String} (hid : id ∈ data.ids)
    (hne : id ≠ accountId) :
    id ∈ (removeAccount data accountId).1.ids := by
  obtain ⟨account, hmem, rfl⟩ := List.mem_map.1 hid
  refine List.mem_map.2 ⟨account, ?_, rfl⟩
  refine (List.mem_eraseP_of_neg ?_).2 hmem
  simpa using hne

theorem ActiveStored.remove (h : ActiveStored data) (accountId : String) :
    ActiveStored (removeAccount data accountId).1 := by
  intro id hid
  rw [removeAccount] at hid
  simp only at hid
  split at hid
  · cases hid
  next hactive =>
    refine mem_ids_remove (h id hid) ?_
    rintro rfl
    exact hactive hid

theorem activeStored_upsertActive (h : ActiveStored data)
    (hid : Upserted data newAccount (upsertActive now data newAccount active)) :
    ActiveStored (upsertActive now data newAccount active).1 := by
  have hactive : (upsertAccount now data newAccount).1.activeAccountId =
      data.activeAccountId := by
    rcases upsertAccount_cases now data newAccount with
      ⟨_, _, _, -, -, heq⟩ | ⟨-, _, -, heq⟩
    · rw [heq]
    · rw [heq]
  intro id hsome
  cases active with
  | true =>
      have hreturned := id_makeActive now (upsertAccount now data newAccount)
      have hmade : some (upsertAccount now data newAccount).2.id = some id :=
        hsome
      have hone : (upsertActive now data newAccount true).2.id = id :=
        hreturned.trans (Option.some.inj hmade)
      rw [← hone]
      exact hid.returned
  | false =>
      have hold : data.activeAccountId = some id := hactive.symm.trans hsome
      exact hid.kept id (h id hold)

/-! ## Every operation -/

/-- The id that an operation draws for a new account. -/
def AccountsOp.nextId : AccountsOp → Option String
  | upsertApiKey nextId _ _ _ => some nextId
  | upsertChatgpt nextId _ _ _ _ => some nextId
  | setActive _ => none
  | remove _ => none

/-- The ids that some calls draw. -/
def drawn (calls : List AccountsCall) : List String :=
  calls.filterMap (·.op.nextId)

/-- What holds of the file in every state. -/
structure Sound (data : AccountsFile) : Prop where
  distinct : Distinct data
  active : ActiveStored data

/-- The account that an upsert returns, and the ids in the file that it
writes. -/
def AccountsOp.upserted (now : DateTime) (data : AccountsFile) :
    AccountsOp → Option (AccountsFile × StoredAccount)
  | upsertApiKey nextId apiKey label active =>
      some (upsertApiKeyAccount now nextId data apiKey label active)
  | upsertChatgpt nextId tokens lastRefresh label active =>
      some
        (upsertChatgptAccount now nextId data tokens lastRefresh label active)
  | setActive _ => none
  | remove _ => none

/-- A stored account is the one that an upsert names. -/
def AccountsOp.knows (op : AccountsOp) (account : StoredAccount) : Bool :=
  match op with
  | upsertApiKey _ apiKey _ _ => matchApiKeyAccount account apiKey
  | upsertChatgpt _ tokens _ _ _ => matchChatgptAccount account tokens
  | setActive _ => false
  | remove _ => false

/-- An upsert of an account that is known keeps its id, and adds none. -/
def KeepsKnown (data : AccountsFile) (call : AccountsCall) : Prop :=
  ∀ account ∈ data.accounts, call.op.knows account →
    ∀ result, call.op.upserted call.now data = some result →
      result.2.id = account.id ∧ result.1.ids = data.ids

/-- A call makes an account active only if it is stored. -/
def NamesStored (data : AccountsFile) (call : AccountsCall) : Prop :=
  call.written → ∀ id, call.op = .setActive (some id) → id ∈ data.ids

/-- The account that an upsert stores if it finds none. -/
def AccountsOp.stores : AccountsOp → Option (StoredAccount × Bool)
  | upsertApiKey nextId apiKey label active =>
      some (⟨nextId, .apiKey, label, some apiKey, none, none, none, none⟩,
        active)
  | upsertChatgpt nextId tokens lastRefresh label active =>
      some (⟨nextId, .chatgpt, label, none, some tokens, some lastRefresh, none,
        none⟩, active)
  | setActive _ => none
  | remove _ => none

theorem upserted_eq (now : DateTime) (data : AccountsFile) (op : AccountsOp) :
    op.upserted now data =
      op.stores.map fun stored => upsertActive now data stored.1 stored.2 := by
  cases op with
  | upsertApiKey nextId apiKey label active => rfl
  | upsertChatgpt nextId tokens lastRefresh label active => rfl
  | setActive accountId => rfl
  | remove accountId => rfl

theorem nextId_eq (op : AccountsOp) : op.nextId = op.stores.map (·.1.id) := by
  cases op with
  | upsertApiKey nextId apiKey label active => rfl
  | upsertChatgpt nextId tokens lastRefresh label active => rfl
  | setActive accountId => rfl
  | remove accountId => rfl

/-- An account is known to an upsert if it stands for the same as the one it
would store. -/
theorem matches_of_knows {op : AccountsOp} {account stored : StoredAccount}
    {active : Bool}
    (hstored : op.stores = some (stored, active)) (h : op.knows account) :
    Matches account stored := by
  cases op with
  | upsertApiKey nextId apiKey label active' =>
      cases hstored
      exact Or.inl ⟨apiKey, (matchApiKeyAccount_iff account apiKey).1 h, rfl⟩
  | upsertChatgpt nextId tokens lastRefresh label active' =>
      cases hstored
      obtain ⟨person, haccount, hperson⟩ :=
        (matchChatgptAccount_iff account tokens).1 h
      exact Or.inr ⟨person, haccount, hperson⟩
  | setActive accountId => cases hstored
  | remove accountId => cases hstored

theorem upserted_of_stores {op : AccountsOp} {stored : StoredAccount}
    {active : Bool}
    (h : Distinct data) (hfresh : ∀ id, op.nextId = some id → id ∉ data.ids)
    (hstored : op.stores = some (stored, active)) (now : DateTime) :
    Upserted data stored (upsertActive now data stored active) := by
  refine upserted_upsertActive h (hfresh stored.id ?_) now active
  rw [nextId_eq, hstored, Option.map_some]

/-- An operation that draws no id of a stored account keeps the accounts
distinct. -/
theorem distinct_apply {op : AccountsOp} (h : Distinct data)
    (hfresh : ∀ id, op.nextId = some id → id ∉ data.ids) (now : DateTime) :
    Distinct (op.apply now data) := by
  cases op with
  | upsertApiKey nextId apiKey label active =>
      exact (upserted_of_stores h hfresh rfl now).distinct
  | upsertChatgpt nextId tokens lastRefresh label active =>
      exact (upserted_of_stores h hfresh rfl now).distinct
  | setActive accountId =>
      exact (accountsAs_setActive now data accountId).distinct h
  | remove accountId => exact h.remove accountId

/-- The ids in the file afterwards are old ones and the one that was drawn. -/
theorem mem_ids_apply {op : AccountsOp} (h : Distinct data)
    (hfresh : ∀ id, op.nextId = some id → id ∉ data.ids) {id : String}
    (hid : id ∈ (op.apply now data).ids) :
    id ∈ data.ids ∨ op.nextId = some id := by
  cases op with
  | upsertApiKey nextId apiKey label active =>
      have hupserted := upserted_of_stores h hfresh rfl now
      exact (hupserted.ids id hid).imp_right fun heq => congrArg some heq.symm
  | upsertChatgpt nextId tokens lastRefresh label active =>
      have hupserted := upserted_of_stores h hfresh rfl now
      exact (hupserted.ids id hid).imp_right fun heq => congrArg some heq.symm
  | setActive accountId =>
      rw [AccountsOp.apply, AccountsFile.ids,
        (accountsAs_setActive now data accountId).ids] at hid
      exact Or.inl hid
  | remove accountId => exact Or.inl ((List.eraseP_sublist.map _).subset hid)

/-- An operation leaves a stored account active exactly if it makes none active
that is not stored. -/
theorem activeStored_apply {op : AccountsOp} (h : Sound data)
    (hfresh : ∀ id, op.nextId = some id → id ∉ data.ids) (now : DateTime) :
    ActiveStored (op.apply now data) ↔
      ∀ id, op = .setActive (some id) → id ∈ data.ids := by
  cases op with
  | upsertApiKey nextId apiKey label active =>
      have hupserted := upserted_of_stores h.distinct hfresh rfl now
      refine iff_of_true (activeStored_upsertActive h.active hupserted) ?_
      intro id heq
      cases heq
  | upsertChatgpt nextId tokens lastRefresh label active =>
      have hupserted := upserted_of_stores h.distinct hfresh rfl now
      refine iff_of_true (activeStored_upsertActive h.active hupserted) ?_
      intro id heq
      cases heq
  | setActive accountId =>
      rw [ActiveStored, AccountsOp.apply, activeAccountId_setActive,
        AccountsFile.ids,
        (accountsAs_setActive now data accountId).ids]
      constructor
      · rintro hstored id ⟨⟩
        exact hstored id rfl
      · rintro hstored id rfl
        exact hstored id rfl
  | remove accountId =>
      refine iff_of_true (h.active.remove accountId) ?_
      intro id heq
      cases heq

theorem keepsKnown (h : Distinct data) {call : AccountsCall}
    (hfresh : ∀ id, call.op.nextId = some id →
      id ∉ data.ids) : KeepsKnown data call := by
  intro account hmem hknows result hresult
  rw [upserted_eq] at hresult
  obtain ⟨⟨stored, active⟩, hstored, rfl⟩ := Option.map_eq_some_iff.1 hresult
  have hupserted := upserted_of_stores h hfresh hstored call.now
  exact hupserted.known account hmem (matches_of_knows hstored hknows)

/-! ## Runs -/

theorem sound_next {call : AccountsCall} (h : Sound data)
    (hfresh : ∀ id, call.op.nextId = some id → id ∉ data.ids) :
    Sound (data.next call) ↔ NamesStored data call := by
  rw [AccountsFile.next, NamesStored]
  cases call.written with
  | false => exact iff_of_true h (by simp)
  | true =>
      simp only [if_true, true_imp_iff]
      rw [← activeStored_apply h hfresh call.now]
      exact ⟨fun hsound => hsound.active,
        fun hactive => ⟨distinct_apply h.distinct hfresh call.now, hactive⟩⟩

theorem mem_ids_next {call : AccountsCall} (h : Distinct data)
    (hfresh : ∀ id, call.op.nextId = some id → id ∉ data.ids) {id : String}
    (hid : id ∈ (data.next call).ids) :
    id ∈ data.ids ∨ call.op.nextId = some id := by
  rw [AccountsFile.next] at hid
  split at hid
  · exact mem_ids_apply h hfresh hid
  · exact Or.inl hid

theorem drawn_next {call : AccountsCall} {rest : List AccountsCall}
    (h : Distinct data)
    (hdrawn : (drawn (call :: rest)).Nodup)
    (hfresh : ∀ id ∈ drawn (call :: rest), id ∉ data.ids) :
    (∀ id, call.op.nextId = some id → id ∉ data.ids) ∧ (drawn rest).Nodup ∧
      ∀ id ∈ drawn rest, id ∉ (data.next call).ids := by
  have hsub : (drawn rest).Sublist (drawn (call :: rest)) :=
    (List.sublist_cons_self call rest).filterMap _
  have hhead : ∀ id, call.op.nextId = some id → id ∉ data.ids := by
    intro id hid
    refine hfresh id ?_
    exact List.mem_filterMap.2 ⟨call, List.mem_cons_self, hid⟩
  refine ⟨hhead, hdrawn.sublist hsub, ?_⟩
  intro id hid hmem
  rcases mem_ids_next h hhead hmem with hold | hnew
  · exact hfresh id (hsub.subset hid) hold
  · have hcons : drawn (call :: rest) = id :: drawn rest :=
      List.filterMap_cons_some hnew
    rw [hcons] at hdrawn
    exact (List.nodup_cons.1 hdrawn).1 hid

/-- The accounts stay distinct and known ones keep their ids, whatever the
calls name. -/
theorem throughout_distinct {calls : List AccountsCall} (h : Distinct data)
    (hdrawn : (drawn calls).Nodup)
    (hfresh : ∀ id ∈ drawn calls, id ∉ data.ids) :
    Throughout AccountsFile.next Distinct data calls ∧
      Along AccountsFile.next KeepsKnown data calls := by
  induction calls generalizing data with
  | nil => exact ⟨h, trivial⟩
  | cons call rest ih =>
      obtain ⟨hhead, hrest, hlater⟩ := drawn_next h hdrawn hfresh
      have hnext : Distinct (data.next call) := by
        rw [AccountsFile.next]
        split
        · exact distinct_apply h hhead call.now
        · exact h
      obtain ⟨hthrough, halong⟩ := ih hnext hrest hlater
      exact ⟨⟨h, hthrough⟩, keepsKnown h hhead, halong⟩

/-- A run from any sound file that draws new ids. -/
theorem throughout_sound_iff {calls : List AccountsCall} (h : Sound data)
    (hdrawn : (drawn calls).Nodup)
    (hfresh : ∀ id ∈ drawn calls, id ∉ data.ids) :
    Throughout AccountsFile.next Sound data calls ↔
      Along AccountsFile.next NamesStored data calls := by
  induction calls generalizing data with
  | nil => exact ⟨fun _ => trivial, fun _ => h⟩
  | cons call rest ih =>
      obtain ⟨hhead, hrest, hlater⟩ := drawn_next h.distinct hdrawn hfresh
      rw [Throughout, Along]
      constructor
      · rintro ⟨-, hthrough⟩
        have hsound := hthrough.head
        exact ⟨(sound_next h hhead).1 hsound,
          (ih hsound hrest hlater).1 hthrough⟩
      · rintro ⟨hnames, halong⟩
        have hsound := (sound_next h hhead).2 hnames
        exact ⟨h, (ih hsound hrest hlater).2 halong⟩

theorem sound_default : Sound AccountsFile.default where
  distinct := ⟨List.nodup_nil, List.nodup_nil, List.nodup_nil⟩
  active := by
    rintro id ⟨⟩

/-- Accounts, keys and people stay distinct and an upsert keeps the id of a
known account, and a stored account is active in every state, exactly if every
call that makes an account active names a stored one. -/
theorem accountRuns_sound_iff (calls : List AccountsCall)
    (hdrawn : (drawn calls).Nodup) :
    (Throughout AccountsFile.next Sound .default calls ∧
      Along AccountsFile.next KeepsKnown .default calls) ↔
      Along AccountsFile.next NamesStored .default calls := by
  have hfresh : ∀ id ∈ drawn calls, id ∉ AccountsFile.default.ids := by
    rintro id - ⟨⟩
  rw [throughout_sound_iff sound_default hdrawn hfresh]
  exact and_iff_left
    (throughout_distinct sound_default.distinct hdrawn hfresh).2

/-- A key is stored, stored again and made active by its id. -/
def keyCalls : List AccountsCall :=
  [⟨.upsertApiKey "a" "sk-1" none false, 0, true⟩,
    ⟨.upsertApiKey "b" "sk-1" none true, 1, true⟩,
    ⟨.setActive (some "a"), 2, true⟩, ⟨.remove "a", 3, true⟩]

theorem accountRuns_sound_keyCalls :
    (drawn keyCalls).Nodup ∧
      (Throughout AccountsFile.next Sound .default keyCalls ∧
        Along AccountsFile.next KeepsKnown .default keyCalls ↔
        Along AccountsFile.next NamesStored .default keyCalls) :=
  ⟨by decide, accountRuns_sound_iff keyCalls (by decide)⟩

/-- An account that is not stored is made active. -/
theorem not_activeStored_unknown :
    ¬ ∀ calls : List AccountsCall, (drawn calls).Nodup →
      Throughout AccountsFile.next Sound .default calls ∧
        Along AccountsFile.next KeepsKnown .default calls := by
  intro h
  obtain ⟨⟨-, hsound⟩, -⟩ := h [⟨.setActive (some "x"), 0, true⟩] (by decide)
  have hstored := hsound.active "x" rfl
  cases hstored

end CodeRs.Auth
