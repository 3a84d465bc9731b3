import CodeRs.Lib.Runs
import CodeRs.Lib.Saturating
import CodeRs.Lib.Text
import Mathlib.Data.List.Nodup

/-!
# Sequence numbers of background events

`next_background_sequence` numbers the background events of each sub id from
zero.  The counters are kept in a hash map that is trimmed to a capacity before
a call uses it, and the trim removes whichever entries the map yields first.  A
sub id whose counter has been removed starts again at zero.
-/

namespace CodeRs.Sequences

def maxBackgroundSeqSubIds : Nat := 1024

/-- `background_seq_by_sub_id`: the entries in some order. -/
abbrev SeqMap := List (Text × Nat)

/-- The choices of a hash map: which of its keys comes first, by its number of
keys. -/
abbrev Pick := Nat → Nat

/-- Remove the entry of the first key a number of times. -/
def removeFirst (pick : Pick) : Nat → SeqMap → SeqMap
  | 0, map => map
  | n + 1, map =>
      removeFirst pick n (map.eraseIdx (pick map.length % map.length))

def trimSubIdSequenceMap (pick : Pick) (map : SeqMap) (cap : Nat) : SeqMap :=
  removeFirst pick (map.length - cap) map

/-- The map after the trim at the head of `next_background_sequence`. -/
def trimmed (pick : Pick) (map : SeqMap) : SeqMap :=
  if maxBackgroundSeqSubIds < map.length then
    trimSubIdSequenceMap pick map maxBackgroundSeqSubIds
  else map

/-- Put a value under a key. -/
def insert (map : SeqMap) (subId : Text) (value : Nat) : SeqMap :=
  (subId, value) :: map.filter fun entry => entry.1 ≠ subId

/-- `next_background_sequence`: the new map and the number. -/
def nextBackgroundSequence (pick : Pick) (map : SeqMap) (subId : Text) :
    SeqMap × Nat :=
  let map := trimmed pick map
  let current := (map.lookup subId).getD 0
  (insert map subId (satAdd current 1), current)

/-! ## Runs -/

/-- The counters, and the numbers handed out so far, the newest first. -/
structure State where
  map : SeqMap
  handed : List (Text × Nat)

def State.init : State := ⟨[], []⟩

/-- A call for a sub id, with the choices of the map. -/
abbrev Call := Text × Pick

def next (s : State) (call : Call) : State :=
  let (map, number) := nextBackgroundSequence call.2 s.map call.1
  ⟨map, (call.1, number) :: s.handed⟩

/-- The numbers that a sub id has been given, the newest first. -/
def State.numbersOf (s : State) (subId : Text) : List Nat :=
  (s.handed.filter fun entry => entry.1 = subId).map (·.2)

/-- The numbers of a sub id are strictly increasing in time. -/
def State.Increasing (s : State) (subId : Text) : Prop :=
  (s.numbersOf subId).Pairwise (· > ·)

/-- If the call is for the sub id and not its first one, the counter is still
in the map after the trim, and there have been fewer calls for it than `u64`
has numbers. -/
def Continues (subId : Text) (s : State) (call : Call) : Prop :=
  call.1 = subId → s.numbersOf subId ≠ [] →
    subId ∈ (trimmed call.2 s.map).map (·.1) ∧
      (s.numbersOf subId).length ≤ u64Max

/-! ## The map -/

theorem removeFirst_subset (pick : Pick) (n : Nat) (map : SeqMap) :
    removeFirst pick n map ⊆ map := by
  induction n generalizing map with
  | zero => exact List.Subset.refl map
  | succ n ih => exact List.Subset.trans (ih _) (List.eraseIdx_subset ..)

theorem trimmed_subset (pick : Pick) (map : SeqMap) :
    trimmed pick map ⊆ map := by
  unfold trimmed
  split
  · exact removeFirst_subset _ _ map
  · exact List.Subset.refl map

theorem mem_of_lookup {map : SeqMap} {subId : Text} {v : Nat}
    (h : map.lookup subId = some v) :
    (subId, v) ∈ map := by
  induction map with
  | nil => cases h
  | cons entry rest ih =>
      rw [List.lookup_cons] at h
      split at h
      next hkey =>
        cases h
        rw [beq_iff_eq.1 hkey]
        exact List.mem_cons_self ..
      next => exact List.mem_cons_of_mem _ (ih h)

theorem lookup_ne_none {map : SeqMap} {subId : Text}
    (h : subId ∈ map.map (·.1)) :
    ∃ v, map.lookup subId = some v := by
  apply Option.ne_none_iff_exists'.1
  intro hnone
  obtain ⟨entry, hentry, hkey⟩ := List.mem_map.1 h
  have hne := List.lookup_eq_none_iff.1 hnone entry hentry
  rw [hkey] at hne
  exact absurd hne (by simp)

theorem length_removeFirst (pick : Pick) (n : Nat) (map : SeqMap) :
    (removeFirst pick n map).length ≤ map.length - n := by
  induction n generalizing map with
  | zero => exact Nat.le_refl _
  | succ n ih =>
      refine Nat.le_trans (ih _) ?_
      cases map with
      | nil => simp
      | cons entry rest =>
          have hlt :
              pick (rest.length + 1) % (rest.length + 1) < rest.length + 1 :=
            Nat.mod_lt _ (Nat.succ_pos _)
          rw [List.length_eraseIdx]
          simp only [List.length_cons, hlt, if_true]
          omega

theorem length_trimmed (pick : Pick) (map : SeqMap) :
    (trimmed pick map).length ≤ maxBackgroundSeqSubIds := by
  unfold trimmed
  split
  · refine Nat.le_trans (length_removeFirst _ _ map) ?_
    omega
  · omega

/-- The map never has more than one entry above its capacity. -/
theorem length_next_le (s : State) (call : Call) :
    (next s call).map.length ≤ maxBackgroundSeqSubIds + 1 := by
  have hfilter :
      ((trimmed call.2 s.map).filter fun entry => entry.1 ≠ call.1).length ≤
      (trimmed call.2 s.map).length := List.length_filter_le ..
  have htrim := length_trimmed call.2 s.map
  simp only [next, nextBackgroundSequence, insert, List.length_cons]
  omega

/-! ## The numbers of one sub id -/

variable {subId : Text} {s : State}

/-- The number that a call gives. -/
def number (s : State) (call : Call) : Nat :=
  ((trimmed call.2 s.map).lookup call.1).getD 0

theorem numbersOf_next_self (s : State) (pick : Pick) :
    (next s (subId, pick)).numbersOf subId =
      number s (subId, pick) :: s.numbersOf subId := by
  simp [next, nextBackgroundSequence, State.numbersOf, number]

theorem numbersOf_next_of_ne {call : Call} (h : call.1 ≠ subId) :
    (next s call).numbersOf subId = s.numbersOf subId := by
  simp [next, nextBackgroundSequence, State.numbersOf, h]

theorem mem_map_next_of_ne {call : Call} (h : call.1 ≠ subId) {v : Nat}
    (hv : (subId, v) ∈ (next s call).map) :
    (subId, v) ∈ trimmed call.2 s.map := by
  simp only [next, nextBackgroundSequence, insert, List.mem_cons, Prod.mk.injEq,
    List.mem_filter] at hv
  rcases hv with ⟨hsame, -⟩ | ⟨hold, -⟩
  · exact absurd hsame.symm h
  · exact hold

theorem mem_map_next_self {pick : Pick} {v : Nat}
    (hv : (subId, v) ∈ (next s (subId, pick)).map) :
    v = satAdd (number s (subId, pick)) 1 := by
  simpa [next, nextBackgroundSequence, insert, number] using hv

/-- The numbers given are the first ones, and the counter, where it has
survived, is the next one. -/
structure Sound (subId : Text) (s : State) : Prop where
  numbers : s.numbersOf subId = (List.range (s.numbersOf subId).length).reverse
  few : (s.numbersOf subId).length ≤ u64Max + 1
  counter : ∀ v, (subId, v) ∈ s.map →
    v = min (s.numbersOf subId).length u64Max ∧ s.numbersOf subId ≠ []

theorem sound_init (subId : Text) : Sound subId State.init :=
  ⟨rfl, Nat.zero_le _, by rintro v ⟨⟩⟩

theorem Sound.increasing (h : Sound subId s) : s.Increasing subId := by
  rw [State.Increasing, h.numbers, List.pairwise_reverse]
  exact List.pairwise_lt_range

/-- The counter of a sub id that goes on is the number of its calls. -/
theorem Sound.number_eq (h : Sound subId s) {pick : Pick}
    (hcont : Continues subId s (subId, pick)) :
    number s (subId, pick) = (s.numbersOf subId).length ∧
      (s.numbersOf subId).length ≤ u64Max := by
  by_cases hfirst : s.numbersOf subId = []
  · have hnone : (trimmed pick s.map).lookup subId = none := by
      cases hlookup : (trimmed pick s.map).lookup subId with
      | none => rfl
      | some v =>
          have hmem := trimmed_subset _ _ (mem_of_lookup hlookup)
          exact absurd hfirst (h.counter v hmem).2
    simp [number, hnone, hfirst]
  · obtain ⟨hkey, hfew⟩ := hcont rfl hfirst
    obtain ⟨v, hv⟩ := lookup_ne_none hkey
    have hcounter := (h.counter v (trimmed_subset _ _ (mem_of_lookup hv))).1
    rw [Nat.min_eq_left hfew] at hcounter
    exact ⟨by rw [number, hv]; exact hcounter, hfew⟩

theorem Sound.step (h : Sound subId s) {call : Call}
    (hcont : Continues subId s call) :
    Sound subId (next s call) := by
  obtain ⟨other, pick⟩ := call
  by_cases hself : other = subId
  · subst hself
    obtain ⟨hnumber, hfew⟩ := h.number_eq hcont
    have hnumbers : (next s (other, pick)).numbersOf other =
        number s (other, pick) :: s.numbersOf other :=
      numbersOf_next_self s pick
    have hlength : ((next s (other, pick)).numbersOf other).length =
        (s.numbersOf other).length + 1 := by
      rw [hnumbers, List.length_cons]
    refine ⟨?_, ?_, ?_⟩
    · rw [hlength, hnumbers, hnumber, List.range_succ,
        List.reverse_append, ← h.numbers]
      rfl
    · rw [hlength]
      exact Nat.succ_le_succ hfew
    · intro v hv
      rw [hlength, mem_map_next_self hv, hnumber, hnumbers]
      exact ⟨rfl, List.cons_ne_nil _ _⟩
  · have hnumbers :
        (next s (other, pick)).numbersOf subId = s.numbersOf subId :=
      numbersOf_next_of_ne hself
    refine ⟨hnumbers.symm ▸ h.numbers, hnumbers.symm ▸ h.few, ?_⟩
    intro v hv
    rw [hnumbers]
    exact h.counter v (trimmed_subset _ _ (mem_map_next_of_ne hself hv))

/-- A number that has been given before ends the increase. -/
theorem Sound.repeats (h : Sound subId s) {call : Call}
    (hcont : ¬ Continues subId s call) :
    ¬ (next s call).Increasing subId := by
  obtain ⟨other, pick⟩ := call
  simp only [Continues, Classical.not_imp] at hcont
  obtain ⟨rfl, hnonempty, hbreak⟩ := hcont
  have hpos : 0 < (s.numbersOf other).length := List.length_pos_iff.2 hnonempty
  have hold : number s (other, pick) < (s.numbersOf other).length := by
    cases hlookup : (trimmed pick s.map).lookup other with
    | none => simpa [number, hlookup] using hpos
    | some v =>
        have hmem := mem_of_lookup hlookup
        have hkey : other ∈ (trimmed pick s.map).map (·.1) :=
          List.mem_map_of_mem hmem
        -- The counter is still there, so it has stopped at the largest number.
        have hmany : ¬ (s.numbersOf other).length ≤ u64Max :=
          fun hfew => hbreak ⟨hkey, hfew⟩
        have hcounter := (h.counter v (trimmed_subset _ _ hmem)).1
        simp only [number, hlookup, Option.getD_some]
        omega
  intro hincreasing
  rw [State.Increasing, numbersOf_next_self, List.pairwise_cons] at hincreasing
  have hmem : number s (other, pick) ∈ s.numbersOf other := by
    rw [h.numbers]
    simpa using hold
  exact Nat.lt_irrefl _ (hincreasing.1 _ hmem)

theorem not_increasing_next {call : Call} (h : ¬ s.Increasing subId) :
    ¬ (next s call).Increasing subId := by
  intro hincreasing
  apply h
  obtain ⟨other, pick⟩ := call
  by_cases hself : other = subId
  · subst hself
    rw [State.Increasing, numbersOf_next_self,
      List.pairwise_cons] at hincreasing
    exact hincreasing.2
  · rwa [State.Increasing, numbersOf_next_of_ne hself] at hincreasing

/-- The numbers of a sub id are strictly increasing exactly if its counter is
still in the map at each of its calls after the first one. -/
theorem increasing_iff_continues (subId : Text) (calls : List Call) :
    (after next State.init calls).Increasing subId ↔
      Along next (Continues subId) State.init calls := by
  refine after_iff_along (P := Sound subId)
    (Q := fun s : State => s.Increasing subId)
    (R := fun s : State => ¬ s.Increasing subId) ?_ ?_ ?_ ?_ ?_
    (sound_init subId) calls
  · exact fun s call h hcont => h.step hcont
  · exact fun s call h hcont => h.repeats hcont
  · exact fun s call h => not_increasing_next h
  · exact fun s h => h.increasing
  · exact fun s h => h

/-! ## Too many sub ids -/

/-- The counters of sub ids that have been called once each, the newest
first. -/
def calledOnce (names : List Text) : SeqMap := names.map fun name => (name, 1)

theorem after_newNames (pick : Pick) (names : List Text) (s : State)
    (hnew : ∀ name ∈ names, name ∉ s.map.map (·.1)) (hnodup : names.Nodup)
    (hroom : s.map.length + names.length ≤ maxBackgroundSeqSubIds + 1) :
    (after next s (names.map fun name => (name, pick))).map =
      calledOnce names.reverse ++ s.map := by
  induction names generalizing s with
  | nil => rfl
  | cons name rest ih =>
      rw [List.nodup_cons] at hnodup
      have hname := hnew name (List.mem_cons_self ..)
      have htrim : trimmed pick s.map = s.map := by
        rw [List.length_cons] at hroom
        rw [trimmed, if_neg (by omega)]
      have hlookup : s.map.lookup name = none := by
        rw [List.lookup_eq_none_iff]
        intro entry hentry
        by_contra hsame
        exact hname ((by simpa using hsame : name = entry.1) ▸
          List.mem_map_of_mem hentry)
      have hfilter : (s.map.filter fun entry => entry.1 ≠ name) = s.map := by
        rw [List.filter_eq_self]
        intro entry hentry
        apply decide_eq_true
        rintro rfl
        exact hname (List.mem_map_of_mem hentry)
      have hnext : (next s (name, pick)).map = (name, 1) :: s.map := by
        simp only [next, nextBackgroundSequence, htrim, hlookup,
          insert, hfilter]
        rfl
      have hrest := ih (next s (name, pick)) ?_ hnodup.2 ?_
      · rw [List.map_cons, after, hrest, hnext]
        simp [calledOnce]
      · intro other hother
        rw [hnext, List.map_cons, List.mem_cons, not_or]
        refine ⟨?_, hnew other (List.mem_cons_of_mem _ hother)⟩
        rintro rfl
        exact hnodup.1 hother
      · rw [hnext]
        simp only [List.length_cons] at hroom ⊢
        omega

/-- Names of nothing but the letter a. -/
def manyNames : List Text := (List.range 1024).map fun n => List.replicate n 'a'

theorem nodup_manyNames : manyNames.Nodup := by
  apply List.Nodup.map _ List.nodup_range
  intro m n h
  simpa using congrArg List.length h

theorem turn_notMem_manyNames : "turn".toList ∉ manyNames := by
  intro h
  obtain ⟨n, -, hn⟩ := List.mem_map.1 h
  have hletter : 't' ∈ List.replicate n 'a' := by
    rw [hn]
    exact List.mem_cons_self ..
  exact absurd (List.eq_of_mem_replicate hletter) (by decide)

/-- The map always yields its oldest entry first, where it is over its capacity
by one. -/
def oldest : Pick := fun _ => 1024

/-- The trim that comes after 1025 sub ids removes the counter of the first
one. -/
theorem trimmed_crowded :
    trimmed oldest (calledOnce manyNames.reverse ++ [("turn".toList, 1)]) =
      calledOnce manyNames.reverse := by
  have hlength : (calledOnce manyNames.reverse).length = 1024 := by
    simp [calledOnce, manyNames]
  have hover : maxBackgroundSeqSubIds <
      (calledOnce manyNames.reverse ++ [("turn".toList, 1)]).length := by
    rw [List.length_append, hlength]
    decide
  have hlast :
      (calledOnce manyNames.reverse ++ [("turn".toList, 1)]).length = 1025 := by
    rw [List.length_append, hlength, List.length_singleton]
  have hindex : oldest 1025 % 1025 = 1024 := rfl
  have hone : 1025 - maxBackgroundSeqSubIds = 1 := rfl
  rw [trimmed, if_pos hover, trimSubIdSequenceMap, hlast, hone, removeFirst,
    removeFirst, hlast,
    hindex, List.eraseIdx_append_of_length_le (Nat.le_of_eq hlength),
    hlength, Nat.sub_self,
    List.eraseIdx_cons_zero, List.append_nil]

theorem numbersOf_ne_nil {s : State} (h : s.numbersOf subId ≠ [])
    (calls : List Call) :
    (after next s calls).numbersOf subId ≠ [] := by
  refine after_induction
    (P := fun reached : State => reached.numbersOf subId ≠ [])
    (fun reached call hreached => ?_) h calls
  obtain ⟨other, pick⟩ := call
  by_cases hself : other = subId
  · subst hself
    rw [numbersOf_next_self]
    exact List.cons_ne_nil _ _
  · rwa [numbersOf_next_of_ne hself]

/-- One call for a turn, one for each of 1024 other sub ids, one for another
one, and one for the turn again. -/
def crowded : List Call :=
  ("turn".toList, oldest) :: manyNames.map (fun name => (name, oldest)) ++
    [("other".toList, oldest), ("turn".toList, oldest)]

theorem crowded_not_increasing :
    ¬ ∀ (subId : Text) (calls : List Call),
      (after next State.init calls).Increasing subId := by
  intro h
  have hrun := h "turn".toList crowded
  rw [crowded, List.cons_append, after, after_append] at hrun
  have hfirst : (next State.init ("turn".toList, oldest)).map =
      [("turn".toList, 1)] := by decide
  have hmany : (after next (next State.init ("turn".toList, oldest))
      (manyNames.map fun name => (name, oldest))).map =
        calledOnce manyNames.reverse ++ [("turn".toList, 1)] := by
    rw [← hfirst]
    refine after_newNames oldest manyNames _ ?_ nodup_manyNames ?_
    · intro name hname hturn
      rw [hfirst, List.map_singleton, List.mem_singleton] at hturn
      subst hturn
      exact turn_notMem_manyNames hname
    · rw [hfirst]
      simp [manyNames, maxBackgroundSeqSubIds]
  have hgiven : (after next (next State.init ("turn".toList, oldest))
      (manyNames.map fun name => (name, oldest))).numbersOf "turn".toList ≠
      [] :=
    numbersOf_ne_nil (by decide) _
  generalize after next (next State.init ("turn".toList, oldest))
    (manyNames.map fun name => (name, oldest)) = many at hrun hmany hgiven
  have hgone :
      ∀ v, ("turn".toList, v) ∉ (next many ("other".toList, oldest)).map := by
    intro v hv
    have hold := mem_map_next_of_ne (by decide) hv
    rw [hmany, trimmed_crowded] at hold
    obtain ⟨name, hname, heq⟩ := List.mem_map.1 hold
    cases heq
    exact turn_notMem_manyNames (List.mem_reverse.1 hname)
  have hzero :
      number (next many ("other".toList, oldest)) ("turn".toList,
        oldest) = 0 := by
    cases hlookup : (trimmed oldest (next many ("other".toList,
      oldest)).map).lookup
        "turn".toList with
    | none => rw [number, hlookup, Option.getD_none]
    | some v =>
        exact absurd (trimmed_subset _ _ (mem_of_lookup hlookup)) (hgone v)
  rw [after, after, after, State.Increasing, numbersOf_next_self,
    List.pairwise_cons, hzero,
    numbersOf_next_of_ne (by decide)] at hrun
  obtain ⟨last, rest, hlast⟩ := List.exists_cons_of_ne_nil hgiven
  rw [hlast] at hrun
  exact Nat.not_lt_zero last (hrun.1 last (List.mem_cons_self ..))

end CodeRs.Sequences
