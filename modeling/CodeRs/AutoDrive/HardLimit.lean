import CodeRs.AutoDrive.CoordinatorMessages

/-!
# The hard limit of a conversation

`enforce_hard_message_limit` of `code-auto-drive-core/src/auto_coordinator.rs`
puts the goal in front of the newest items.  It is described by the positions
of the items that are kept.
-/

namespace CodeRs.AutoDrive

variable {items : Conversation}

/-- The newest items begin here, if there is a goal. -/
def newestStart (items : Conversation) : ℕ :=
  items.length - (hardMessageLimit - 1)

/-- What the limit is to leave of a conversation: all of a short one, else the
goal and the newest items in their order. -/
structure KeepsGoalAndNewest (items limited : Conversation) : Prop where
  short : items.length ≤ hardMessageLimit → limited = items
  length_le : limited.length ≤ hardMessageLimit
  positions : ∃ positions : List ℕ, positions.Pairwise (· < ·) ∧
    limited.map some = positions.map (items[·]?) ∧
    (∀ goal, items.findIdx? isUserMessage = some goal → goal ∈ positions) ∧
    ∀ i, newestStart items ≤ i → i < items.length → i ∈ positions

/-! ## Positions -/

/-- The positions of the goal and of the newest items, in the order in which
they are kept. -/
def keptPositions (items : Conversation) : List ℕ :=
  let goalIndex := items.findIdx? isUserMessage
  let tailStart := items.length - (hardMessageLimit - goalIndex.toList.length)
  goalIndex.toList ++
    (List.range' tailStart (items.length - tailStart)).filter fun i =>
      goalIndex ≠ some i

/-- The items that a filter of the numbered items keeps stand at the numbers it
keeps. -/
theorem map_fst_filter_zipIdx {α : Type*} (l : List α) (n : ℕ)
    (keep : ℕ → Bool) :
    (((l.zipIdx.drop n).filter fun item => keep item.2).map Prod.fst).map some =
      ((List.range' n (l.length - n)).filter keep).map (l[·]?) := by
  have hnumbers :
      (l.zipIdx.drop n).map Prod.snd = List.range' n (l.length - n) := by
    rw [List.map_drop, List.zipIdx_map_snd, List.drop_range',
      Nat.zero_add, Nat.mul_one]
  rw [← hnumbers, List.filter_map, List.map_map, List.map_map]
  refine List.map_congr_left fun item hitem => ?_
  have hmem : item ∈ l.zipIdx :=
    List.mem_of_mem_drop (List.mem_of_mem_filter hitem)
  exact (List.mem_zipIdx_iff_getElem?.1 hmem).symm

theorem findIdx?_lt {i : ℕ} (h : items.findIdx? isUserMessage = some i) :
    i < items.length :=
  (List.findIdx?_eq_some_iff_getElem.1 h).1

theorem length_keptPositions_le (items : Conversation) :
    (keptPositions items).length ≤ hardMessageLimit := by
  have hfilter : ∀ (keep : ℕ → Bool) (start count : ℕ),
      ((List.range' start count).filter keep).length ≤ count :=
    fun keep start count =>
    (List.length_filter_le _ _).trans (by rw [List.length_range'])
  rw [keptPositions, List.length_append]
  cases items.findIdx? isUserMessage with
  | none =>
      refine (Nat.add_le_add_left (hfilter ..) _).trans ?_
      simp only [Option.toList, List.length_nil]
      omega
  | some goal =>
      refine (Nat.add_le_add_left (hfilter ..) _).trans ?_
      simp only [Option.toList, List.length_singleton, hardMessageLimit]
      omega

/-- A long conversation keeps the items at the positions. -/
theorem enforceHardMessageLimit_positions
    (h : hardMessageLimit < items.length) :
    (enforceHardMessageLimit items).map some =
      (keptPositions items).map (items[·]?) := by
  have hgoal :
      (((items.findIdx? isUserMessage).bind
        fun index => items[index]?).toList).map
      some = (items.findIdx? isUserMessage).toList.map (items[·]?) := by
    cases hfind : items.findIdx? isUserMessage with
    | none => rfl
    | some goal =>
        simp only [Option.bind_some,
          List.getElem?_eq_getElem (findIdx?_lt hfind),
          Option.toList, List.map_cons, List.map_nil]
  have hlength := congrArg List.length hgoal
  rw [List.length_map, List.length_map] at hlength
  rw [enforceHardMessageLimit, if_neg (Nat.not_le.2 h)]
  simp only [hlength]
  have htrimmed :
      ((((items.findIdx? isUserMessage).bind
        fun index => items[index]?).toList ++
      (((items.zipIdx.drop (items.length - (hardMessageLimit -
        (items.findIdx? isUserMessage).toList.length))).filter fun item =>
          items.findIdx? isUserMessage ≠ some item.2).map Prod.fst)).map some) =
      (keptPositions items).map (items[·]?) := by
    rw [List.map_append, hgoal, keptPositions, List.map_append]
    exact congrArg _ (map_fst_filter_zipIdx items _ fun i =>
      decide (items.findIdx? isUserMessage ≠ some i))
  have hshort := congrArg List.length htrimmed
  rw [List.length_map, List.length_map] at hshort
  rw [hshort, Nat.sub_eq_zero_of_le (length_keptPositions_le items),
    List.drop_zero]
  exact htrimmed

theorem length_enforceHardMessageLimit_le (items : Conversation) :
    (enforceHardMessageLimit items).length ≤ hardMessageLimit := by
  by_cases h : items.length ≤ hardMessageLimit
  · rwa [enforceHardMessageLimit, if_pos h]
  · have hpositions := congrArg List.length
      (enforceHardMessageLimit_positions (Nat.not_le.1 h))
    rw [List.length_map, List.length_map] at hpositions
    rw [hpositions]
    exact length_keptPositions_le items

/-- What the limit leaves it leaves again. -/
theorem enforceHardMessageLimit_idem (items : Conversation) :
    enforceHardMessageLimit (enforceHardMessageLimit items) =
      enforceHardMessageLimit items := by
  rw [enforceHardMessageLimit.eq_1 (enforceHardMessageLimit items),
    if_pos (length_enforceHardMessageLimit_le items)]

/-! ## Where the goal stands -/

/-- A goal that is not behind the first of the newest items stays in order. -/
theorem pairwise_keptPositions
    (hgoal : ∀ goal, items.findIdx? isUserMessage = some goal →
    goal ≤ newestStart items) : (keptPositions items).Pairwise (· < ·) := by
  have hrange : ∀ (start count : ℕ) (keep : ℕ → Bool),
      ((List.range' start count).filter keep).Pairwise (· < ·) :=
    fun start count keep => List.Pairwise.filter keep List.pairwise_lt_range'
  rw [keptPositions]
  cases hfind : items.findIdx? isUserMessage with
  | none => apply hrange
  | some goal =>
      refine List.pairwise_cons.2 ⟨fun i hi => ?_, by apply hrange⟩
      obtain ⟨hmem, hne⟩ := List.mem_filter.1 hi
      have hle : newestStart items ≤ i := (List.mem_range'_1.1 hmem).1
      have hne' : goal ≠ i := fun heq => by
        rw [heq] at hne
        exact absurd hne (by simp)
      exact Nat.lt_of_le_of_ne ((hgoal goal hfind).trans hle) hne'

theorem mem_keptPositions {i : ℕ} (h : items.findIdx? isUserMessage = some i ∨
    newestStart items ≤ i ∧ i < items.length) : i ∈ keptPositions items := by
  rw [keptPositions]
  rcases h with h | ⟨hle, hlt⟩
  · rw [h]
    exact List.mem_append_left _ (List.mem_singleton_self i)
  · by_cases hgoal : items.findIdx? isUserMessage = some i
    · rw [hgoal]
      exact List.mem_append_left _ (List.mem_singleton_self i)
    · refine List.mem_append_right _
        (List.mem_filter.2 ⟨List.mem_range'_1.2 ?_, by simpa⟩)
      rw [newestStart] at hle
      cases items.findIdx? isUserMessage with
      | none => simp only [Option.toList, List.length_nil]; omega
      | some goal => simp only [Option.toList, List.length_singleton]; omega

/-- A goal behind the first of the newest items comes to stand before it. -/
theorem not_pairwise_of_goal {goal : ℕ}
    (hlong : hardMessageLimit < items.length)
    (hfind : items.findIdx? isUserMessage = some goal)
    (hgoal : newestStart items < goal) :
    ¬ KeepsGoalAndNewest items (enforceHardMessageLimit items) := by
  rintro ⟨-, -, positions, hpairwise, hitems, -, hnewest⟩
  have hstart : newestStart items ∈ positions :=
    hnewest _ (Nat.le_refl _) (hgoal.trans (findIdx?_lt hfind))
  rw [enforceHardMessageLimit_positions hlong, keptPositions, hfind] at hitems
  cases positions with
  | nil => cases hstart
  | cons first positions =>
      obtain ⟨hfirst, -⟩ := List.cons.inj hitems
      obtain ⟨hlt, huser, hbefore⟩ := List.findIdx?_eq_some_iff_getElem.1 hfind
      have hle : first ≤ newestStart items := by
        rcases List.mem_cons.1 hstart with heq | hmem
        · exact Nat.le_of_eq heq.symm
        · exact Nat.le_of_lt ((List.pairwise_cons.1 hpairwise).1 _ hmem)
      have hfirstlt : first < goal := Nat.lt_of_le_of_lt hle hgoal
      change items[goal]? = items[first]? at hfirst
      rw [List.getElem?_eq_getElem hlt,
        List.getElem?_eq_getElem (hfirstlt.trans hlt)] at hfirst
      refine absurd huser ?_
      rw [Option.some.inj hfirst]
      exact hbefore first hfirstlt

/-- The limit keeps the goal and the newest items in order, and leaves what it
has left, exactly if the conversation is short, has no goal, or its goal is not
behind the first of the newest items. -/
theorem enforceHardMessageLimit_keeps_iff (items : Conversation) :
    (KeepsGoalAndNewest items (enforceHardMessageLimit items) ∧
        enforceHardMessageLimit (enforceHardMessageLimit items) =
          enforceHardMessageLimit items) ↔
      (items.length ≤ hardMessageLimit ∨
        ∀ goal, items.findIdx? isUserMessage = some goal →
        goal ≤ newestStart items) := by
  constructor
  · rintro ⟨hkeeps, -⟩
    by_cases hshort : items.length ≤ hardMessageLimit
    · exact .inl hshort
    · refine .inr fun goal hfind => Nat.not_lt.1 fun hlt => ?_
      exact not_pairwise_of_goal (Nat.not_le.1 hshort) hfind hlt hkeeps
  · intro h
    refine ⟨⟨fun hshort => if_pos hshort,
      length_enforceHardMessageLimit_le items, ?_⟩,
      enforceHardMessageLimit_idem items⟩
    by_cases hshort : items.length ≤ hardMessageLimit
    · rw [show enforceHardMessageLimit items = items from if_pos hshort]
      refine ⟨List.range items.length, List.pairwise_lt_range, ?_,
        fun goal hfind => List.mem_range.2 (findIdx?_lt hfind),
        fun i _ hlt => List.mem_range.2 hlt⟩
      refine List.ext_getElem (by simp) fun i hi _ => ?_
      rw [List.length_map] at hi
      simp [List.getElem?_eq_getElem hi]
    · exact ⟨keptPositions items,
        pairwise_keptPositions (h.resolve_left hshort),
        enforceHardMessageLimit_positions (Nat.not_le.1 hshort),
        fun goal hfind => mem_keptPositions (.inl hfind),
        fun i hle hlt => mem_keptPositions (.inr ⟨hle, hlt⟩)⟩

/-! ## A goal at the end -/

/-- The user speaks behind messages of the assistant. -/
def lateGoal (n : ℕ) : Conversation :=
  List.replicate n (makeMessage "assistant" "Hello.".toList) ++
    [makeMessage "user" "Fix it.".toList]

theorem findIdx?_lateGoal (n : ℕ) :
    (lateGoal n).findIdx? isUserMessage = some n := by
  have hassistant :
      isUserMessage (makeMessage "assistant" "Hello.".toList) = false := rfl
  have huser : isUserMessage (makeMessage "user" "Fix it.".toList) = true := rfl
  rw [lateGoal, List.findIdx?_append, List.findIdx?_replicate, hassistant,
    List.length_replicate]
  simp only [List.findIdx?_singleton, huser]
  simp

/-- The goal is put in front of what came before it. -/
theorem not_enforceHardMessageLimit_keeps :
    ¬ ∀ items : Conversation,
      KeepsGoalAndNewest items (enforceHardMessageLimit items) ∧
      enforceHardMessageLimit (enforceHardMessageLimit items) =
        enforceHardMessageLimit items := by
  intro h
  have hlength : (lateGoal hardMessageLimit).length = hardMessageLimit + 1 := by
    rw [lateGoal, List.length_append, List.length_replicate,
      List.length_singleton]
  refine not_pairwise_of_goal ?_ (findIdx?_lateGoal hardMessageLimit) ?_
    (h (lateGoal hardMessageLimit)).1
  · rw [hlength]
    exact Nat.lt_succ_self _
  · rw [newestStart, hlength]
    decide

end CodeRs.AutoDrive
