import CodeRs.FileSearch.Search

/-!
# When to search

`FileSearchManager` of `tui/src/file_search.rs`: what the user types is
searched for after a pause, and a search that is of no more use is cancelled.
The threads that wait, search and pass on the results take their steps in any
order; what a search sends, and whether a thread can be started, is decided
elsewhere.
-/

namespace CodeRs.FileSearch

/-- `ActiveSearch`; a token is the place of its search among all searches. -/
structure ActiveSearch where
  query : Text
  cancellationToken : ℕ
  deriving DecidableEq

/-- A `file-search-debounce` thread: it waits until no search is active, and
starts one. -/
inductive Debounce where
  | polling
  | ready
  deriving DecidableEq

/-- How far a `file-search-runner` thread is. -/
inductive Runner where
  | searching
  | returned
  | finished
  deriving DecidableEq

/-- What a `file-search-forwarder` thread has got, and whether it has looked at
the token. -/
inductive Forwarder where
  | waiting
  | received (batch : List FileMatch)
  | passing (batch : List FileMatch)
  | done

/-- A search that was started, with the batch that its forwarder has got from
it. -/
structure Search where
  query : Text
  cancelled : Bool := false
  spawned : Bool
  runner : Runner := .searching
  sent : Option (List FileMatch) := none
  forwarder : Forwarder := .waiting

structure Manager where
  latestQuery : Text := []
  isSearchScheduled : Bool := false
  activeSearch : Option ActiveSearch := none
  debouncers : List Debounce := []
  searches : List Search := []
  /-- The results that the application was told. -/
  results : List (Text × List FileMatch) := []

namespace Manager

/-- The active search is cancelled if it is not for a prefix of the query. -/
def cancelObsolete (s : Manager) (query : Text) : Manager :=
  match s.activeSearch with
  | some active =>
      if active.query.isPrefixOf query then s
      else
        { s with
          searches := s.searches.modify active.cancellationToken fun search =>
            { search with cancelled := true }
          activeSearch := none }
  | none => s

/-- A thread that waits is started unless there is one, and may fail to
start. -/
def schedule (s : Manager) (spawned : Bool) : Manager :=
  if s.isSearchScheduled then s
  else
    { s with
      isSearchScheduled := true
      debouncers := if spawned then s.debouncers ++ [.polling]
        else s.debouncers }

def onUserQuery (s : Manager) (query : Text) (spawned : Bool) : Manager :=
  if query = s.latestQuery then s
  else ({ s with latestQuery := query }.cancelObsolete query).schedule spawned

/-- A thread that waits looks for an active search. -/
def poll (s : Manager) (i : ℕ) : Manager :=
  match s.debouncers[i]? with
  | some .polling =>
      if s.activeSearch.isNone then
        { s with debouncers := s.debouncers.set i .ready } else s
  | _ => s

/-- A thread that has waited starts a search for the latest query. -/
def fire (s : Manager) (i : ℕ) (spawned : Bool) : Manager :=
  match s.debouncers[i]? with
  | some .ready =>
      { s with
        isSearchScheduled := false
        activeSearch := some ⟨s.latestQuery, s.searches.length⟩
        debouncers := s.debouncers.eraseIdx i
        searches := s.searches ++ [{ query := s.latestQuery, spawned }] }
  | _ => s

/-- `run_streaming` comes to its end, with what it has sent. -/
def runStreaming (s : Manager) (k : ℕ) (sent : Option (List FileMatch)) :
    Manager :=
  match s.searches[k]? with
  | some search =>
      if search.spawned && search.runner = .searching then
        { s with
          searches := s.searches.set k
            { search with
              runner := .returned
              sent := sent
              forwarder := sent.elim .waiting .received } }
      else s
  | none => s

/-- The thread of a search clears the active search, if it is this one. -/
def reset (s : Manager) (k : ℕ) : Manager :=
  match s.searches[k]? with
  | some search =>
      if search.runner = .returned then
        { s with
          searches := s.searches.set k { search with runner := .finished }
          activeSearch := s.activeSearch.filter fun active =>
            active.cancellationToken ≠ k }
      else s
  | none => s

/-- A batch is dropped if its search was cancelled, and passed on otherwise. -/
def forward (s : Manager) (k : ℕ) : Manager :=
  match s.searches[k]? with
  | some search =>
      match search.forwarder with
      | .received batch =>
          { s with
            searches := s.searches.set k
              { search with forwarder := if search.cancelled then .done
                else .passing batch } }
      | .passing batch =>
          { s with
            searches := s.searches.set k { search with forwarder := .done }
            results := s.results ++ [(search.query, batch)] }
      | _ => s
  | none => s

end Manager

inductive ManagerStep where
  | userQuery (query : Text) (spawned : Bool)
  | poll (i : ℕ)
  | fire (i : ℕ) (spawned : Bool)
  | runStreaming (k : ℕ) (sent : Option (List FileMatch))
  | reset (k : ℕ)
  | forward (k : ℕ)

def Manager.step (s : Manager) : ManagerStep → Manager
  | .userQuery query spawned => s.onUserQuery query spawned
  | .poll i => s.poll i
  | .fire i spawned => s.fire i spawned
  | .runStreaming k sent => s.runStreaming k sent
  | .reset k => s.reset k
  | .forward k => s.forward k

def Manager.run (steps : List ManagerStep) : Manager :=
  after Manager.step {} steps

/-! ## One search at a time -/

variable {s t : Manager} {k : ℕ} {search : Search}

/-- A search is under way and of use. -/
def Search.InFlight (search : Search) : Prop :=
  search.cancelled = false ∧ search.runner ≠ .finished

/-- One thread waits at most, one search is under way at most, and it is the
active one. -/
structure Orderly (s : Manager) : Prop where
  scheduled : s.isSearchScheduled = false → s.debouncers = []
  single : s.debouncers.length ≤ 1
  ready : .ready ∈ s.debouncers → s.activeSearch = none
  active : ∀ active, s.activeSearch = some active →
    ∃ search, s.searches[active.cancellationToken]? = some search ∧
      search.query = active.query ∧ search.InFlight
  inFlight : ∀ k search, s.searches[k]? = some search → search.InFlight →
    s.activeSearch = some ⟨search.query, k⟩

/-- Where nobody waits, the last search is for what was typed last; and what a
search of use has found is with its forwarder, or was passed on. -/
structure Answered (s : Manager) : Prop where
  last : s.isSearchScheduled = false → s.latestQuery = [] ∧ s.searches = [] ∨
    ∃ search, s.searches.getLast? = some search ∧ search.query = s.latestQuery ∧
      search.cancelled = false
  delivered : ∀ search ∈ s.searches, search.cancelled = false → ∀ batch,
    search.sent = some batch → search.forwarder = .received batch ∨
      search.forwarder = .passing batch ∨ (search.query, batch) ∈ s.results

theorem orderly_start : Orderly {} where
  scheduled _ := rfl
  single := Nat.zero_le 1
  ready h := (List.not_mem_nil h).elim
  active _ h := (Option.some_ne_none _ h.symm).elim
  inFlight _ _ h := (Option.some_ne_none _ h.symm).elim

theorem answered_start : Answered {} where
  last _ := .inl ⟨rfl, rfl⟩
  delivered _ h := (List.not_mem_nil h).elim

theorem getElem?_set_search (hget : s.searches[k]? = some search)
    (next : Search) (j : ℕ) :
    (s.searches.set k next)[j]? = if k = j then
      some next else s.searches[j]? := by
  by_cases heq : k = j
  · subst heq
    rw [if_pos rfl, List.getElem?_set_self (List.getElem?_eq_some_iff.1 hget).1]
  · rw [if_neg heq, List.getElem?_set_ne heq]

/-- A search goes on, and stays under way if it is. -/
theorem Orderly.update (h : Orderly s) (hget : s.searches[k]? = some search)
    {next : Search}
    (results : List (Text × List FileMatch))
    (hquery : next.query = search.query)
    (hin : next.InFlight ↔ search.InFlight) :
    Orderly { s with searches := s.searches.set k next, results } := by
  refine ⟨h.scheduled, h.single, h.ready, fun active hactive => ?_,
    fun j other hother hnow => ?_⟩
  · obtain ⟨other, hother, hsame, hnow⟩ := h.active active hactive
    rw [getElem?_set_search hget]
    by_cases heq : k = active.cancellationToken
    · subst heq
      obtain rfl := Option.some.inj (hget.symm.trans hother)
      exact ⟨next, if_pos rfl, hquery.trans hsame, hin.2 hnow⟩
    · exact ⟨other, (if_neg heq).trans hother, hsame, hnow⟩
  · rw [getElem?_set_search hget] at hother
    by_cases heq : k = j
    · subst heq
      obtain rfl := Option.some.inj ((if_pos rfl).symm.trans hother)
      rw [hquery]
      exact h.inFlight k search hget (hin.1 hnow)
    · exact h.inFlight j other ((if_neg heq).symm.trans hother) hnow

theorem Answered.update (h : Answered s) (hget : s.searches[k]? = some search)
    {next : Search}
    {results : List (Text × List FileMatch)} (active : Option ActiveSearch)
    (hquery : next.query = search.query)
    (hcancelled : next.cancelled = search.cancelled)
    (hresults : s.results ⊆ results)
    (hdelivered : next.cancelled = false → ∀ batch, next.sent = some batch →
      next.forwarder = .received batch ∨ next.forwarder = .passing batch ∨
        (next.query, batch) ∈ results) :
    Answered { s with
      searches := s.searches.set k next
      activeSearch := active
      results } := by
  refine ⟨fun hidle => ?_, fun other hother hnot batch hsent => ?_⟩
  · rcases h.last hidle with ⟨-, hnone⟩ | ⟨last, hlast, hsame, hnot⟩
    · rw [hnone] at hget
      exact absurd hget (Option.some_ne_none search).symm
    · right
      rw [List.getLast?_eq_getElem?] at hlast
      rw [List.getLast?_eq_getElem?, List.length_set, getElem?_set_search hget]
      by_cases heq : k = s.searches.length - 1
      · subst heq
        obtain rfl := Option.some.inj (hget.symm.trans hlast)
        exact ⟨next, if_pos rfl, hquery.trans hsame, hcancelled.trans hnot⟩
      · exact ⟨last, (if_neg heq).trans hlast, hsame, hnot⟩
  · rcases List.mem_or_eq_of_mem_set hother with hother | rfl
    · exact (h.delivered other hother hnot batch hsent).imp_right fun hrest =>
        hrest.imp_right fun hmem => hresults hmem
    · exact hdelivered hnot batch hsent

theorem cancelObsolete_cases (s : Manager) (query : Text) :
    s.cancelObsolete query = s ∧
        (∀ active, s.activeSearch = some active → active.query <+: query) ∨
      ∃ active, s.activeSearch = some active ∧ s.cancelObsolete query = { s with
        searches := s.searches.modify active.cancellationToken fun search =>
          { search with cancelled := true }
        activeSearch := none } := by
  rw [Manager.cancelObsolete]
  cases hactive : s.activeSearch with
  | none =>
      exact .inl ⟨rfl, fun _ hnone => (Option.some_ne_none _ hnone.symm).elim⟩
  | some active =>
      by_cases hstarts : active.query.isPrefixOf query = true
      · refine .inl ⟨if_pos hstarts, fun other hother => ?_⟩
        obtain rfl := Option.some.inj hother
        exact List.isPrefixOf_iff_prefix.1 hstarts
      · exact .inr ⟨active, rfl, if_neg hstarts⟩

theorem getElem?_cancelled {j : ℕ} (h : (s.searches.modify k fun search =>
      { search with cancelled := true })[j]? = some search) :
    ∃ old, s.searches[j]? = some old ∧ search.spawned = old.spawned ∧
      (search.cancelled = false → k ≠ j ∧ search = old) := by
  rw [List.getElem?_modify] at h
  obtain ⟨old, hold, rfl⟩ := Option.map_eq_some_iff.1 h
  refine ⟨old, hold, ?_⟩
  by_cases heq : k = j
  · rw [if_pos heq]
    exact ⟨rfl, fun hfalse => Bool.noConfusion hfalse⟩
  · rw [if_neg heq]
    exact ⟨rfl, fun _ => ⟨heq, rfl⟩⟩

/-- A step that leaves to the debounce threads what is theirs. -/
structure Frame (s t : Manager) : Prop where
  latestQuery : t.latestQuery = s.latestQuery
  isSearchScheduled : t.isSearchScheduled = s.isSearchScheduled
  debouncers : t.debouncers = s.debouncers
  length : t.searches.length = s.searches.length
  spawned : ∀ search ∈ t.searches, ∃ old ∈ s.searches,
    old.spawned = search.spawned
  active : ∀ active, t.activeSearch = some active → s.activeSearch = some active
  results : s.results ⊆ t.results

theorem Frame.refl (s : Manager) : Frame s s :=
  ⟨rfl, rfl, rfl, rfl, fun search hmem => ⟨search, hmem, rfl⟩,
    fun _ h => h, fun _ h => h⟩

theorem frame_cancelObsolete (s : Manager) (query : Text) :
    Frame s (s.cancelObsolete query) := by
  rcases cancelObsolete_cases s query with ⟨hsame, -⟩ | ⟨active, -, hnext⟩
  · rw [hsame]
    exact .refl s
  · rw [hnext]
    refine ⟨rfl, rfl, rfl, List.length_modify .., fun search hmem => ?_,
      fun _ hnone => (Option.some_ne_none _ hnone.symm).elim, fun _ h => h⟩
    obtain ⟨j, hj⟩ := List.mem_iff_getElem?.1 hmem
    obtain ⟨old, hold, hspawned, -⟩ := getElem?_cancelled hj
    exact ⟨old, List.mem_of_getElem? hold, hspawned.symm⟩

theorem exists_spawned (hget : s.searches[k]? = some search) {next : Search}
    (hnext : search.spawned = next.spawned) :
    ∀ other ∈ s.searches.set k next, ∃ old ∈ s.searches,
      old.spawned = other.spawned := by
  intro other hother
  rcases List.mem_or_eq_of_mem_set hother with hother | rfl
  · exact ⟨other, hother, rfl⟩
  · exact ⟨search, List.mem_of_getElem? hget, hnext⟩

theorem frame_runStreaming (s : Manager) (k : ℕ)
    (sent : Option (List FileMatch)) :
    Frame s (s.runStreaming k sent) := by
  rw [Manager.runStreaming]
  split
  next search hget =>
    split
    next =>
      exact ⟨rfl, rfl, rfl, List.length_set ..,
        exists_spawned hget rfl, fun _ h => h,
        fun _ hmem => hmem⟩
    next => exact .refl s
  next => exact .refl s

theorem frame_reset (s : Manager) (k : ℕ) : Frame s (s.reset k) := by
  rw [Manager.reset]
  split
  next search hget =>
    split
    next =>
      exact ⟨rfl, rfl, rfl, List.length_set .., exists_spawned hget rfl,
        fun _ hactive => (Option.filter_eq_some_iff.1 hactive).1,
        fun _ hmem => hmem⟩
    next => exact .refl s
  next => exact .refl s

theorem frame_forward (s : Manager) (k : ℕ) : Frame s (s.forward k) := by
  rw [Manager.forward]
  split
  next search hget =>
    split
    next =>
      exact ⟨rfl, rfl, rfl, List.length_set ..,
        exists_spawned hget rfl, fun _ h => h,
        fun _ hmem => hmem⟩
    next =>
      exact ⟨rfl, rfl, rfl, List.length_set ..,
        exists_spawned hget rfl, fun _ h => h,
        List.subset_append_left ..⟩
    next => exact .refl s
  next => exact .refl s

/-- The active search is for a part of what was typed last. -/
def Current (s : Manager) : Prop :=
  ∀ active, s.activeSearch = some active → active.query <+: s.latestQuery

theorem Current.frame (h : Current s) (hframe : Frame s t) : Current t := by
  intro active hactive
  rw [hframe.latestQuery]
  exact h active (hframe.active active hactive)

theorem current_cancelObsolete (s : Manager) (query : Text) :
    Current ({ s with latestQuery := query }.cancelObsolete query) := by
  have hcases := cancelObsolete_cases { s with latestQuery := query } query
  rcases hcases with ⟨hsame, hstarts⟩ | ⟨active, -, hnext⟩
  · rw [hsame]
    exact hstarts
  · rw [hnext]
    exact fun _ hnone => (Option.some_ne_none _ hnone.symm).elim

theorem Current.step (h : Current s) (a : ManagerStep) :
    Current (s.step a) := by
  cases a with
  | userQuery query spawned =>
      change Current (s.onUserQuery query spawned)
      rw [Manager.onUserQuery]
      split
      next => exact h
      next =>
        have hnext := current_cancelObsolete s query
        rw [Manager.schedule]
        split
        next => exact hnext
        next => exact hnext
  | poll i =>
      change Current (s.poll i)
      rw [Manager.poll]
      split
      next =>
        split
        next => exact h
        next => exact h
      next => exact h
  | fire i spawned =>
      change Current (s.fire i spawned)
      rw [Manager.fire]
      split
      next =>
        intro active hactive
        obtain rfl := Option.some.inj hactive
        exact List.prefix_rfl
      next => exact h
  | runStreaming k sent => exact h.frame (frame_runStreaming s k sent)
  | reset k => exact h.frame (frame_reset s k)
  | forward k => exact h.frame (frame_forward s k)

/-! ## What is typed -/

theorem Orderly.cancelObsolete (h : Orderly s) (query : Text) :
    Orderly (s.cancelObsolete query) := by
  rcases cancelObsolete_cases s query with ⟨hsame, -⟩ | ⟨active, hactive, hnext⟩
  · rw [hsame]
    exact h
  · rw [hnext]
    refine ⟨h.scheduled, h.single, fun _ => rfl,
      fun _ hnone => (Option.some_ne_none _ hnone.symm).elim,
      fun j search hsearch hin => ?_⟩
    obtain ⟨old, hold, -, hkept⟩ := getElem?_cancelled hsearch
    obtain ⟨hne, rfl⟩ := hkept hin.1
    have hother := (h.inFlight j search hold hin).symm.trans hactive
    exact absurd
      (congrArg ActiveSearch.cancellationToken (Option.some.inj hother)).symm
      hne

theorem mem_of_cancelObsolete {query : Text}
    (hmem : search ∈ (s.cancelObsolete query).searches)
    (hnot : search.cancelled = false) : search ∈ s.searches := by
  rcases cancelObsolete_cases s query with ⟨hsame, -⟩ | ⟨active, -, hnext⟩
  · rwa [hsame] at hmem
  · rw [hnext] at hmem
    obtain ⟨j, hj⟩ := List.mem_iff_getElem?.1 hmem
    obtain ⟨old, hold, -, hkept⟩ := getElem?_cancelled hj
    rw [(hkept hnot).2]
    exact List.mem_of_getElem? hold

theorem Orderly.schedule (h : Orderly s) (spawned : Bool) :
    Orderly (s.schedule spawned) := by
  rw [Manager.schedule]
  split
  next => exact h
  next hidle =>
    have hnil := h.scheduled (Bool.not_eq_true _ ▸ hidle)
    rw [hnil]
    refine ⟨fun hfalse => Bool.noConfusion hfalse, ?_, fun hready => ?_,
      h.active, h.inFlight⟩
    · cases spawned with
      | false => exact Nat.zero_le 1
      | true => exact Nat.le_refl 1
    · cases spawned with
      | false => exact absurd hready List.not_mem_nil
      | true => exact Debounce.noConfusion (List.mem_singleton.1 hready)

theorem Orderly.onUserQuery (h : Orderly s) (query : Text) (spawned : Bool) :
    Orderly (s.onUserQuery query spawned) := by
  rw [Manager.onUserQuery]
  split
  next => exact h
  next =>
    have hlatest : Orderly { s with latestQuery := query } :=
      ⟨h.scheduled, h.single, h.ready, h.active, h.inFlight⟩
    exact (hlatest.cancelObsolete query).schedule spawned

theorem Answered.onUserQuery (h : Answered s) (query : Text) (spawned : Bool) :
    Answered (s.onUserQuery query spawned) := by
  rw [Manager.onUserQuery]
  split
  next => exact h
  next =>
    generalize hnext : ({ s with
      latestQuery := query } : Manager).cancelObsolete query = next
    have hdelivered : ∀ search ∈ next.searches, search.cancelled = false →
        ∀ batch,
        search.sent = some batch → search.forwarder = .received batch ∨
          search.forwarder = .passing batch ∨
          (search.query, batch) ∈ next.results := by
      subst hnext
      intro search hmem hnot batch hsent
      have hframe := frame_cancelObsolete { s with latestQuery := query } query
      have hold :=
        mem_of_cancelObsolete (s := { s with latestQuery := query }) hmem hnot
      exact (h.delivered search hold hnot batch hsent).imp_right
        fun hrest => hrest.imp_right fun hresult => hframe.results hresult
    rw [Manager.schedule]
    split
    next hbusy =>
      exact ⟨fun hidle => Bool.noConfusion (hbusy.symm.trans hidle), hdelivered⟩
    next => exact ⟨fun hidle => Bool.noConfusion hidle, hdelivered⟩

/-! ## Waiting and searching -/

theorem Orderly.poll (h : Orderly s) (i : ℕ) : Orderly (s.poll i) := by
  rw [Manager.poll]
  split
  next hget =>
    split
    next hnone =>
      refine ⟨fun hidle => ?_, (List.length_set ..).trans_le h.single,
        fun _ => Option.isNone_iff_eq_none.1 hnone, h.active, h.inFlight⟩
      exact (List.set_eq_nil_iff ..).2 (h.scheduled hidle)
    next => exact h
  next => exact h

theorem Answered.poll (h : Answered s) (i : ℕ) : Answered (s.poll i) := by
  rw [Manager.poll]
  split
  next =>
    split
    next => exact ⟨h.last, h.delivered⟩
    next => exact h
  next => exact h

theorem Orderly.fire (h : Orderly s) (i : ℕ) (spawned : Bool) :
    Orderly (s.fire i spawned) := by
  rw [Manager.fire]
  split
  next hget =>
    have hnone := h.ready (List.mem_of_getElem? hget)
    have hlt := (List.getElem?_eq_some_iff.1 hget).1
    have hnil : s.debouncers.eraseIdx i = [] := by
      apply List.length_eq_zero_iff.1
      rw [List.length_eraseIdx_of_lt hlt]
      have := h.single
      omega
    refine ⟨fun _ => hnil, by rw [hnil]; exact Nat.zero_le 1,
      fun hready => absurd hready (by rw [hnil]; exact List.not_mem_nil),
      fun active hactive => ?_,
      fun j search hsearch hin => ?_⟩
    · obtain rfl := Option.some.inj hactive
      exact ⟨_, List.getElem?_concat_length .., rfl, rfl,
        fun hfinished => Runner.noConfusion hfinished⟩
    · rcases Nat.lt_or_ge j s.searches.length with hold | hnew
      · rw [List.getElem?_append_left hold] at hsearch
        exact absurd ((h.inFlight j search hsearch hin).symm.trans hnone)
          (Option.some_ne_none _)
      · rw [List.getElem?_append_right hnew] at hsearch
        obtain ⟨hj, rfl⟩ := List.getElem?_eq_some_iff.1 hsearch
        have hj' : j = s.searches.length := by
          rw [List.length_singleton] at hj
          omega
        rw [List.getElem_singleton, hj']
  next => exact h

theorem Answered.fire (h : Answered s) (i : ℕ) (spawned : Bool) :
    Answered (s.fire i spawned) := by
  rw [Manager.fire]
  split
  next =>
    refine ⟨fun _ => .inr ⟨_, List.getLast?_concat .., rfl, rfl⟩,
      fun search hmem hnot batch hsent => ?_⟩
    rcases List.mem_append.1 hmem with hold | hnew
    · exact h.delivered search hold hnot batch hsent
    · obtain rfl := List.mem_singleton.1 hnew
      exact absurd hsent.symm (Option.some_ne_none batch)
  next => exact h

theorem Orderly.runStreaming (h : Orderly s) (k : ℕ)
    (sent : Option (List FileMatch)) :
    Orderly (s.runStreaming k sent) := by
  rw [Manager.runStreaming]
  split
  next search hget =>
    split
    next hbusy =>
      refine h.update hget s.results rfl (and_congr_right' (iff_of_true ?_ ?_))
      · exact fun hreturned => Runner.noConfusion hreturned
      · have hsearching := of_decide_eq_true (Bool.and_eq_true_iff.1 hbusy).2
        exact fun hfinished =>
          Runner.noConfusion (hsearching.symm.trans hfinished)
    next => exact h
  next => exact h

theorem Answered.runStreaming (h : Answered s) (k : ℕ)
    (sent : Option (List FileMatch)) :
    Answered (s.runStreaming k sent) := by
  rw [Manager.runStreaming]
  split
  next search hget =>
    split
    next =>
      refine h.update hget s.activeSearch rfl rfl (fun _ hmem => hmem)
        fun _ batch hsent => .inl ?_
      change sent = some batch at hsent
      subst hsent
      rfl
    next => exact h
  next => exact h

theorem Orderly.reset (h : Orderly s) (k : ℕ) : Orderly (s.reset k) := by
  rw [Manager.reset]
  split
  next search hget =>
    split
    next hreturned =>
      have hfinished :
          ¬ ({ search with runner := .finished } : Search).InFlight :=
        fun hin => hin.2 rfl
      refine ⟨h.scheduled, h.single, fun hready => ?_, fun active hactive => ?_,
        fun j other hother hin => ?_⟩
      · dsimp only
        rw [h.ready hready]
        rfl
      · obtain ⟨hactive, hne⟩ := Option.filter_eq_some_iff.1 hactive
        obtain ⟨other, hother, hrest⟩ := h.active active hactive
        rw [getElem?_set_search hget,
          if_neg fun heq => of_decide_eq_true hne heq.symm]
        exact ⟨other, hother, hrest⟩
      · rw [getElem?_set_search hget] at hother
        by_cases heq : k = j
        · rw [if_pos heq] at hother
          obtain rfl := Option.some.inj hother
          exact absurd hin hfinished
        · rw [if_neg heq] at hother
          refine Option.filter_eq_some_iff.2 ⟨h.inFlight j other hother hin, ?_⟩
          exact decide_eq_true fun hsame => heq hsame.symm
    next => exact h
  next => exact h

theorem Answered.reset (h : Answered s) (k : ℕ) : Answered (s.reset k) := by
  rw [Manager.reset]
  split
  next search hget =>
    split
    next =>
      exact h.update hget _ rfl rfl (fun _ hmem => hmem)
        fun hnot => h.delivered search (List.mem_of_getElem? hget) hnot
    next => exact h
  next => exact h

theorem Orderly.forward (h : Orderly s) (k : ℕ) : Orderly (s.forward k) := by
  rw [Manager.forward]
  split
  next search hget =>
    split
    next => exact h.update hget _ rfl Iff.rfl
    next => exact h.update hget _ rfl Iff.rfl
    next => exact h
  next => exact h

theorem Answered.forward (h : Answered s) (k : ℕ) : Answered (s.forward k) := by
  rw [Manager.forward]
  split
  next search hget =>
    have hsearch := h.delivered search (List.mem_of_getElem? hget)
    split
    next batch hreceived =>
      refine h.update hget _ rfl rfl (fun _ hmem => hmem)
        fun hnot other hsent => ?_
      change search.cancelled = false at hnot
      rw [hnot]
      rcases hsearch hnot other hsent with hheld | hheld | hmem
      · exact .inr
          (.inl (by
            rw [← Forwarder.received.inj (hreceived.symm.trans hheld)]; rfl))
      · exact Forwarder.noConfusion (hreceived.symm.trans hheld)
      · exact .inr (.inr hmem)
    next batch hpassing =>
      refine h.update hget _ rfl rfl (List.subset_append_left ..)
        fun hnot other hsent => ?_
      rcases hsearch hnot other hsent with hheld | hheld | hmem
      · exact Forwarder.noConfusion (hpassing.symm.trans hheld)
      · rw [← Forwarder.passing.inj (hpassing.symm.trans hheld)]
        exact .inr (.inr (List.mem_append_right _ List.mem_cons_self))
      · exact .inr (.inr (List.mem_append_left _ hmem))
    next => exact h
  next => exact h

theorem Orderly.step (h : Orderly s) (a : ManagerStep) :
    Orderly (s.step a) := by
  cases a with
  | userQuery query spawned => exact h.onUserQuery query spawned
  | poll i => exact h.poll i
  | fire i spawned => exact h.fire i spawned
  | runStreaming k sent => exact h.runStreaming k sent
  | reset k => exact h.reset k
  | forward k => exact h.forward k

theorem Answered.step (h : Answered s) (a : ManagerStep) :
    Answered (s.step a) := by
  cases a with
  | userQuery query spawned => exact h.onUserQuery query spawned
  | poll i => exact h.poll i
  | fire i spawned => exact h.fire i spawned
  | runStreaming k sent => exact h.runStreaming k sent
  | reset k => exact h.reset k
  | forward k => exact h.forward k

/-! ## What is lost with a thread -/

/-- A search is scheduled, but the thread that was to start it is not there. -/
structure Stuck (n : ℕ) (s : Manager) : Prop where
  isSearchScheduled : s.isSearchScheduled = true
  debouncers : s.debouncers = []
  length : s.searches.length = n

theorem Stuck.frame {n : ℕ} (h : Stuck n s) (hframe : Frame s t) :
    Stuck n t where
  isSearchScheduled := hframe.isSearchScheduled.trans h.isSearchScheduled
  debouncers := hframe.debouncers.trans h.debouncers
  length := hframe.length.trans h.length

theorem Stuck.step {n : ℕ} (h : Stuck n s) (a : ManagerStep) :
    Stuck n (s.step a) := by
  have hnone : ∀ i : ℕ, s.debouncers[i]? = none :=
    fun i => by rw [h.debouncers]; rfl
  cases a with
  | userQuery query spawned =>
      change Stuck n (s.onUserQuery query spawned)
      rw [Manager.onUserQuery]
      split
      next => exact h
      next =>
        have hlatest : Stuck n { s with latestQuery := query } :=
          ⟨h.isSearchScheduled, h.debouncers, h.length⟩
        have hnext := hlatest.frame (frame_cancelObsolete _ query)
        rw [Manager.schedule, if_pos hnext.isSearchScheduled]
        exact hnext
  | poll i =>
      change Stuck n (s.poll i)
      rw [Manager.poll, hnone]
      exact h
  | fire i spawned =>
      change Stuck n (s.fire i spawned)
      rw [Manager.fire, hnone]
      exact h
  | runStreaming k sent => exact h.frame (frame_runStreaming s k sent)
  | reset k => exact h.frame (frame_reset s k)
  | forward k => exact h.frame (frame_forward s k)

/-- Where a search is scheduled, a thread waits, or one has failed to start. -/
def Waits (steps : List ManagerStep) (s : Manager) : Prop :=
  s.isSearchScheduled = true → s.debouncers = [] →
    ∃ query, .userQuery query false ∈ steps

variable {steps : List ManagerStep}

theorem Waits.frame (h : Waits steps s) (hframe : Frame s t) :
    Waits steps t := by
  rw [Waits, hframe.isSearchScheduled, hframe.debouncers]
  exact h

theorem Waits.step (h : Waits steps s) {a : ManagerStep} (hmem : a ∈ steps) :
    Waits steps (s.step a) := by
  cases a with
  | userQuery query spawned =>
      change Waits steps (s.onUserQuery query spawned)
      rw [Manager.onUserQuery]
      split
      next => exact h
      next =>
        have hlatest : Waits steps { s with latestQuery := query } := h
        have hnext := hlatest.frame (frame_cancelObsolete _ query)
        rw [Manager.schedule]
        split
        next => exact hnext
        next =>
          cases spawned with
          | false => exact fun _ _ => ⟨query, hmem⟩
          | true =>
              exact fun _ hnil =>
                absurd hnil (List.append_ne_nil_of_right_ne_nil _ (by simp))
  | poll i =>
      change Waits steps (s.poll i)
      rw [Manager.poll]
      split
      next =>
        split
        next =>
          exact fun hbusy hnil => h hbusy ((List.set_eq_nil_iff ..).1 hnil)
        next => exact h
      next => exact h
  | fire i spawned =>
      change Waits steps (s.fire i spawned)
      rw [Manager.fire]
      split
      next => exact fun hbusy => Bool.noConfusion hbusy
      next => exact h
  | runStreaming k sent => exact h.frame (frame_runStreaming s k sent)
  | reset k => exact h.frame (frame_reset s k)
  | forward k => exact h.frame (frame_forward s k)

/-! ## Coming to rest -/

/-- Every search that was started has its thread. -/
def Spawned (s : Manager) : Prop := ∀ search ∈ s.searches, search.spawned = true

theorem Spawned.frame (h : Spawned s) (hframe : Frame s t) : Spawned t := by
  intro search hmem
  obtain ⟨old, hold, hsame⟩ := hframe.spawned search hmem
  exact hsame.symm.trans (h old hold)

theorem Spawned.step (h : Spawned s) {a : ManagerStep}
    (hstarts : ∀ i, a ≠ .fire i false) :
    Spawned (s.step a) := by
  cases a with
  | userQuery query spawned =>
      change Spawned (s.onUserQuery query spawned)
      rw [Manager.onUserQuery]
      split
      next => exact h
      next =>
        have hlatest : Spawned { s with latestQuery := query } := h
        have hnext := hlatest.frame (frame_cancelObsolete _ query)
        rw [Manager.schedule]
        split
        next => exact hnext
        next => exact hnext
  | poll i =>
      change Spawned (s.poll i)
      rw [Manager.poll]
      split
      next =>
        split
        next => exact h
        next => exact h
      next => exact h
  | fire i spawned =>
      change Spawned (s.fire i spawned)
      rw [Manager.fire]
      split
      next =>
        intro search hmem
        rcases List.mem_append.1 hmem with hold | hnew
        · exact h search hold
        · obtain rfl := List.mem_singleton.1 hnew
          exact eq_true_of_ne_false fun hfalse =>
            hstarts i (congrArg (ManagerStep.fire i) hfalse)
      next => exact h
  | runStreaming k sent => exact h.frame (frame_runStreaming s k sent)
  | reset k => exact h.frame (frame_reset s k)
  | forward k => exact h.frame (frame_forward s k)

/-- What a thread that waits has to do, with the search that it starts. -/
def Debounce.weight : Debounce → ℕ
  | .polling => 6
  | .ready => 5

def Search.weight (search : Search) : ℕ :=
  (match search.runner with
    | .searching => 4
    | .returned => 1
    | .finished => 0) +
  match search.forwarder with
  | .received _ => 2
  | .passing _ => 1
  | _ => 0

/-- The steps that are left if nothing more is typed. -/
def Manager.todo (s : Manager) : ℕ :=
  (s.debouncers.map Debounce.weight).sum + (s.searches.map Search.weight).sum

/-- A step that is not the user's. -/
def ManagerStep.ofThread : ManagerStep → Bool
  | .userQuery .. => false
  | _ => true

theorem sum_map_set {α : Type*} (w : α → ℕ) {l : List α} {i : ℕ} {a : α}
    (h : l[i]? = some a)
    (b : α) : ((l.set i b).map w).sum + w a = (l.map w).sum + w b := by
  obtain ⟨hlt, rfl⟩ := List.getElem?_eq_some_iff.1 h
  have hset := ((List.set_perm_cons_eraseIdx hlt b).map w).sum_eq
  have hold := ((List.getElem_cons_eraseIdx_perm hlt).map w).sum_eq
  rw [List.map_cons, List.sum_cons] at hset hold
  omega

theorem sum_map_eraseIdx {α : Type*} (w : α → ℕ) {l : List α} {i : ℕ} {a : α}
    (h : l[i]? = some a) :
    ((l.eraseIdx i).map w).sum + w a = (l.map w).sum := by
  obtain ⟨hlt, rfl⟩ := List.getElem?_eq_some_iff.1 h
  have hold := ((List.getElem_cons_eraseIdx_perm hlt).map w).sum_eq
  rw [List.map_cons, List.sum_cons] at hold
  omega

theorem todo_set_lt (hget : s.searches[k]? = some search) {next : Search}
    (hlt : next.weight < search.weight) (active : Option ActiveSearch)
    (results : List (Text × List FileMatch)) :
    Manager.todo { s with
      searches := s.searches.set k next
      activeSearch := active
      results } < s.todo := by
  have hsum := sum_map_set Search.weight hget next
  change (s.debouncers.map Debounce.weight).sum +
    ((s.searches.set k next).map Search.weight).sum <
    (s.debouncers.map Debounce.weight).sum + (s.searches.map Search.weight).sum
  omega

theorem poll_lt {i : ℕ} (hget : s.debouncers[i]? = some .polling)
    (hnone : s.activeSearch = none) : (s.poll i).todo < s.todo := by
  have hsum := sum_map_set Debounce.weight hget .ready
  simp only [Manager.poll, hget, hnone, Option.isNone_none, if_true]
  change ((s.debouncers.set i .ready).map Debounce.weight).sum +
      (s.searches.map Search.weight).sum <
    (s.debouncers.map Debounce.weight).sum + (s.searches.map Search.weight).sum
  simp only [Debounce.weight] at hsum
  omega

theorem fire_lt {i : ℕ} (hget : s.debouncers[i]? = some .ready)
    (spawned : Bool) :
    (s.fire i spawned).todo < s.todo := by
  have hsum := sum_map_eraseIdx Debounce.weight hget
  simp only [Manager.fire, hget]
  change ((s.debouncers.eraseIdx i).map Debounce.weight).sum +
    ((s.searches ++ [_]).map Search.weight).sum < _
  rw [Manager.todo, List.map_append, List.sum_append]
  simp only [Debounce.weight] at hsum
  change _ + (_ + 4) < _
  omega

theorem runStreaming_lt (hget : s.searches[k]? = some search)
    (hspawned : search.spawned = true)
    (hsearching : search.runner = .searching) (sent : Option (List FileMatch)) :
    (s.runStreaming k sent).todo < s.todo := by
  simp only [Manager.runStreaming, hget, hspawned, hsearching, Bool.true_and,
    decide_true, if_true]
  refine todo_set_lt hget ?_ s.activeSearch s.results
  rw [Search.weight, Search.weight, hsearching]
  cases sent with
  | none =>
      exact Nat.lt_of_lt_of_le (show 1 + 0 < 4 by decide) (Nat.le_add_right 4 _)
  | some batch =>
      exact Nat.lt_of_lt_of_le (show 1 + 2 < 4 by decide) (Nat.le_add_right 4 _)

theorem reset_lt (hget : s.searches[k]? = some search)
    (hreturned : search.runner = .returned) :
    (s.reset k).todo < s.todo := by
  simp only [Manager.reset, hget, hreturned, if_true]
  refine todo_set_lt hget ?_ _ s.results
  rw [Search.weight, Search.weight, hreturned]
  exact Nat.add_lt_add_right Nat.zero_lt_one _

theorem forward_lt_of_received (hget : s.searches[k]? = some search)
    {batch : List FileMatch}
    (hheld : search.forwarder = .received batch) :
    (s.forward k).todo < s.todo := by
  simp only [Manager.forward, hget, hheld]
  refine todo_set_lt hget ?_ s.activeSearch s.results
  rw [Search.weight, Search.weight, hheld]
  refine Nat.add_lt_add_left ?_ _
  cases search.cancelled with
  | false => exact Nat.one_lt_two
  | true => exact Nat.zero_lt_two

theorem forward_lt_of_passing (hget : s.searches[k]? = some search)
    {batch : List FileMatch}
    (hheld : search.forwarder = .passing batch) :
    (s.forward k).todo < s.todo := by
  simp only [Manager.forward, hget, hheld]
  refine todo_set_lt hget ?_ s.activeSearch _
  rw [Search.weight, Search.weight, hheld]
  exact Nat.add_lt_add_left Nat.zero_lt_one _

/-- A step of a thread changes nothing, or leaves less to do. -/
theorem step_todo (s : Manager) {a : ManagerStep}
    (hthread : a.ofThread = true) :
    s.step a = s ∨ (s.step a).todo < s.todo := by
  cases a with
  | userQuery query spawned => exact Bool.noConfusion hthread
  | poll i =>
      change s.poll i = s ∨ (s.poll i).todo < s.todo
      rcases hget : s.debouncers[i]? with _ | _ | _
      · exact .inl (by rw [Manager.poll, hget])
      · cases hactive : s.activeSearch with
        | none => exact .inr (poll_lt hget hactive)
        | some active =>
            exact .inl (by simp only [Manager.poll, hget, hactive]; rfl)
      · exact .inl (by rw [Manager.poll, hget])
  | fire i spawned =>
      change s.fire i spawned = s ∨ (s.fire i spawned).todo < s.todo
      rcases hget : s.debouncers[i]? with _ | _ | _
      · exact .inl (by rw [Manager.fire, hget])
      · exact .inl (by rw [Manager.fire, hget])
      · exact .inr (fire_lt hget spawned)
  | runStreaming k sent =>
      change s.runStreaming k sent = s ∨ (s.runStreaming k sent).todo < s.todo
      cases hget : s.searches[k]? with
      | none => exact .inl (by rw [Manager.runStreaming, hget])
      | some search =>
          by_cases hbusy : (search.spawned && search.runner = .searching) = true
          · obtain ⟨hspawned, hsearching⟩ := Bool.and_eq_true_iff.1 hbusy
            exact .inr
              (runStreaming_lt hget hspawned
                (of_decide_eq_true hsearching) sent)
          · exact .inl (by simp only [Manager.runStreaming, hget, hbusy]; rfl)
  | reset k =>
      change s.reset k = s ∨ (s.reset k).todo < s.todo
      cases hget : s.searches[k]? with
      | none => exact .inl (by rw [Manager.reset, hget])
      | some search =>
          by_cases hreturned : search.runner = .returned
          · exact .inr (reset_lt hget hreturned)
          · exact .inl (by simp only [Manager.reset, hget, hreturned, if_false])
  | forward k =>
      change s.forward k = s ∨ (s.forward k).todo < s.todo
      cases hget : s.searches[k]? with
      | none => exact .inl (by rw [Manager.forward, hget])
      | some search =>
          cases hheld : search.forwarder with
          | waiting => exact .inl (by simp only [Manager.forward, hget, hheld])
          | received batch => exact .inr (forward_lt_of_received hget hheld)
          | passing batch => exact .inr (forward_lt_of_passing hget hheld)
          | done => exact .inl (by simp only [Manager.forward, hget, hheld])

/-- No thread waits, and none has a batch to pass on. -/
structure Manager.Settled (s : Manager) : Prop where
  debouncers : s.debouncers = []
  forwarder : ∀ search ∈ s.searches, ∀ batch,
    search.forwarder ≠ .received batch ∧ search.forwarder ≠ .passing batch

/-- A thread that waits goes on once the active search has ended, and that
ends. -/
theorem Orderly.settled (h : Orderly s) (hspawned : Spawned s)
    (hrest : ∀ a : ManagerStep, a.ofThread = true →
      s.step a = s) : s.Settled := by
  have hfixed : ∀ a : ManagerStep, a.ofThread = true →
      ¬ (s.step a).todo < s.todo := by
    intro a hthread hlt
    rw [hrest a hthread] at hlt
    exact Nat.lt_irrefl _ hlt
  refine ⟨?_, fun search hmem batch => ?_⟩
  · by_contra hne
    obtain ⟨d, rest, hcons⟩ := List.exists_cons_of_ne_nil hne
    have hget : s.debouncers[0]? = some d := by rw [hcons]; rfl
    cases d with
    | ready => exact hfixed (.fire 0 true) rfl (fire_lt hget true)
    | polling =>
        cases hactive : s.activeSearch with
        | none => exact hfixed (.poll 0) rfl (poll_lt hget hactive)
        | some active =>
            obtain ⟨search, hsearch, -, hin⟩ := h.active active hactive
            have hstarted := hspawned search (List.mem_of_getElem? hsearch)
            cases hrunner : search.runner with
            | searching =>
                exact hfixed (.runStreaming active.cancellationToken none) rfl
                  (runStreaming_lt hsearch hstarted hrunner none)
            | returned =>
                exact hfixed (.reset active.cancellationToken) rfl
                  (reset_lt hsearch hrunner)
            | finished => exact hin.2 hrunner
  · obtain ⟨k, hk⟩ := List.mem_iff_getElem?.1 hmem
    refine ⟨fun hheld => ?_, fun hheld => ?_⟩
    · exact hfixed (.forward k) rfl (forward_lt_of_received hk hheld)
    · exact hfixed (.forward k) rfl (forward_lt_of_passing hk hheld)

/-! ## Every order of the steps -/

/-- At most one search is in flight, for a part of what was typed last, and
none while a thread is about to start one.  The cancelled ones may still be
running, as many as there are. -/
theorem run_oneSearch (steps : List ManagerStep) :
    (Manager.run steps).debouncers.length ≤ 1 ∧
      (∀ (i j : ℕ) (search other : Search),
        (Manager.run steps).searches[i]? = some search →
        (Manager.run steps).searches[j]? = some other →
        search.InFlight → other.InFlight → i = j) ∧
      (∀ search ∈ (Manager.run steps).searches, search.InFlight →
        search.query <+: (Manager.run steps).latestQuery) ∧
      (.ready ∈ (Manager.run steps).debouncers →
        ∀ search ∈ (Manager.run steps).searches, ¬ search.InFlight) := by
  have h : Orderly (Manager.run steps) :=
    after_induction (P := Orderly) (fun _ a hs => hs.step a) orderly_start steps
  have hcurrent : Current (Manager.run steps) :=
    after_induction (P := Current) (fun _ a hs => hs.step a)
      (fun _ hnone => (Option.some_ne_none _ hnone.symm).elim) steps
  refine ⟨h.single, fun i j search other hsearch hother hin hin' => ?_,
    fun search hmem hin => ?_,
    fun hready search hmem hin => ?_⟩
  · have hi := h.inFlight i search hsearch hin
    have hj := h.inFlight j other hother hin'
    exact congrArg ActiveSearch.cancellationToken
      (Option.some.inj (hi.symm.trans hj))
  · obtain ⟨k, hk⟩ := List.mem_iff_getElem?.1 hmem
    exact hcurrent _ (h.inFlight k search hk hin)
  · obtain ⟨k, hk⟩ := List.mem_iff_getElem?.1 hmem
    have hactive := h.inFlight k search hk hin
    exact Option.some_ne_none _ (hactive.symm.trans (h.ready hready))

/-- What was typed last has been searched for, and the application was told
what was found; unless a thread failed to start, and then nothing is searched
for any more. -/
theorem run_latestSearched (steps : List ManagerStep)
    (hsettled : (Manager.run steps).Settled) :
    ((Manager.run steps).latestQuery = [] ∧ (Manager.run steps).searches = []) ∨
      (∃ search, (Manager.run steps).searches.getLast? = some search ∧
        search.query = (Manager.run steps).latestQuery ∧
        search.cancelled = false ∧
        ∀ batch, search.sent = some batch →
        (search.query, batch) ∈ (Manager.run steps).results) ∨
      (∃ query, .userQuery query false ∈ steps) ∧ ∀ later,
        (Manager.run (steps ++ later)).searches.length =
          (Manager.run steps).searches.length := by
  have hanswered : Answered (Manager.run steps) :=
    after_induction (P := Answered) (fun _ a hs => hs.step a)
      answered_start steps
  have hwaits : Waits steps (Manager.run steps) :=
    after_induction_mem (fun _ _ hmem hs => Waits.step hs hmem) fun hbusy =>
      Bool.noConfusion hbusy
  cases hscheduled : (Manager.run steps).isSearchScheduled with
  | false =>
      refine (hanswered.last hscheduled).imp_right fun h => .inl ?_
      obtain ⟨search, hlast, hquery, hnot⟩ := h
      refine ⟨search, hlast, hquery, hnot, fun batch hsent => ?_⟩
      have hmem := List.mem_of_getLast? hlast
      have hfree := hsettled.forwarder search hmem batch
      rcases hanswered.delivered search hmem hnot batch hsent with
        hheld | hheld | hresult
      · exact absurd hheld hfree.1
      · exact absurd hheld hfree.2
      · exact hresult
  | true =>
      refine .inr (.inr ⟨hwaits hscheduled hsettled.debouncers,
        fun later => ?_⟩)
      rw [Manager.run, after_append]
      have hstuck :
          Stuck (Manager.run steps).searches.length (Manager.run steps) :=
        ⟨hscheduled, hsettled.debouncers, rfl⟩
      exact (after_induction (P := Stuck (Manager.run steps).searches.length)
        (fun _ a hs => hs.step a) hstuck later).length

/-- The first search is cancelled when the second query is typed, and ends
later. -/
def exampleSteps : List ManagerStep :=
  [.userQuery ['a'] true, .poll 0, .fire 0 true, .userQuery ['b'] true,
    .poll 0, .fire 0 true,
    .runStreaming 1 (some []), .forward 1, .reset 1,
    .runStreaming 0 (some []), .forward 1,
    .forward 0, .reset 0]

theorem run_latestSearched_example : ∃ search,
    (Manager.run exampleSteps).searches.getLast? = some search ∧
      search.query = ['b'] ∧
      (['b'], []) ∈ (Manager.run exampleSteps).results := by
  have hsettled : (Manager.run exampleSteps).Settled := by
    refine ⟨rfl, fun search hmem batch => ?_⟩
    have hdone : search.forwarder = .done := by
      rcases List.mem_cons.1 hmem with rfl | hmem
      · rfl
      · obtain rfl := List.mem_singleton.1 hmem
        rfl
    rw [hdone]
    exact ⟨by simp, by simp⟩
  rcases run_latestSearched exampleSteps hsettled with
    ⟨-, hnone⟩ | h | ⟨⟨query, hmem⟩, -⟩
  · exact (List.cons_ne_nil _ _ hnone).elim
  · obtain ⟨search, hlast, hquery, -, hresults⟩ := h
    refine ⟨search, hlast, hquery, ?_⟩
    rw [← show search.query = ['b'] from hquery]
    obtain rfl := Option.some.inj hlast
    exact hresults [] rfl
  · simp [exampleSteps] at hmem

/-- The threads come to rest: while nothing is typed, only so many steps change
anything, and when none does any more, nobody waits and nothing is to be passed
on. -/
theorem run_comesToRest (steps : List ManagerStep) :
    (∀ later, Along Manager.step (fun s a => a.ofThread = true ∧ s.step a ≠ s)
      (Manager.run steps) later → later.length ≤ (Manager.run steps).todo) ∧
    ((∀ i, .fire i false ∉ steps) →
      (∀ a : ManagerStep, a.ofThread = true →
        (Manager.run steps).step a = Manager.run steps) →
      (Manager.run steps).Settled) := by
  refine ⟨fun later hlater => ?_, fun hstarted hrest => ?_⟩
  · refine Along.length_le (fun s a hchange => ?_) hlater
    exact (step_todo s hchange.1).resolve_left hchange.2
  · have horderly : Orderly (Manager.run steps) :=
      after_induction (P := Orderly) (fun _ a hs => hs.step a)
        orderly_start steps
    have hspawned : Spawned (Manager.run steps) := by
      refine after_induction_mem (P := Spawned) (fun s a hmem hs => ?_)
        fun _ hnone => absurd hnone List.not_mem_nil
      exact hs.step fun i heq => hstarted i (heq ▸ hmem)
    exact horderly.settled hspawned hrest

theorem run_comesToRest_example :
    (Manager.run exampleSteps).todo = 0 ∧
      (Manager.run exampleSteps).Settled := by
  have htodo : (Manager.run exampleSteps).todo = 0 := rfl
  have hstarted : ∀ i, .fire i false ∉ exampleSteps :=
    fun i hmem => by simp [exampleSteps] at hmem
  refine ⟨htodo, (run_comesToRest exampleSteps).2 hstarted fun a hthread => ?_⟩
  refine (step_todo _ hthread).resolve_right fun hlt => ?_
  rw [htodo] at hlt
  exact Nat.not_lt_zero _ hlt

end CodeRs.FileSearch
