import Mathlib.Data.List.Nodup
import Mathlib.Data.List.Perm.Subperm
import Mathlib.Data.List.Sort

/-!
# Places in a stable sort

A stable sort puts an element before another one if it has to come first, or if
either may come first and it stands first already.  So the place of an element
is told by the list that is sorted, and so is which elements are among the
first ones afterwards.
-/

namespace CodeRs.Ranking

variable {α : Type*} {x y : α} {l : List α}

/-! ## The order of a list -/

/-- Of two elements of a list one is first. -/
theorem pair_sublist_or (hx : x ∈ l) (hy : y ∈ l) (hne : x ≠ y) :
    [x, y].Sublist l ∨ [y, x].Sublist l := by
  induction l with
  | nil => cases hx
  | cons a rest ih =>
      rcases List.mem_cons.1 hx with hxa | hxrest
      · rcases List.mem_cons.1 hy with hya | hyrest
        · exact absurd (hxa.trans hya.symm) hne
        · subst hxa
          exact Or.inl ((List.singleton_sublist.2 hyrest).cons_cons x)
      · rcases List.mem_cons.1 hy with hya | hyrest
        · subst hya
          exact Or.inr ((List.singleton_sublist.2 hxrest).cons_cons y)
        · exact (ih hxrest hyrest).imp (fun h => h.cons a) fun h => h.cons a

theorem not_pair_sublist (hnodup : l.Nodup) (h : [x, y].Sublist l) :
    ¬ [y, x].Sublist l := by
  intro hrev
  induction l with
  | nil => cases h
  | cons a rest ih =>
      obtain ⟨hfirst, hrest⟩ := List.nodup_cons.1 hnodup
      cases h with
      | cons _ h =>
          cases hrev with
          | cons _ hrev => exact ih hrest h hrev
          | cons_cons _ hrev =>
              exact hfirst
                (h.subset (List.mem_cons_of_mem x List.mem_cons_self))
      | cons_cons _ h =>
          cases hrev with
          | cons _ hrev =>
              exact hfirst
                (hrev.subset (List.mem_cons_of_mem y List.mem_cons_self))
          | cons_cons _ hrev => exact hfirst (h.subset List.mem_cons_self)

/-- An element is among the first ones if few enough are before it. -/
theorem mem_take_iff [DecidableEq α] (hnodup : l.Nodup) (hx : x ∈ l) (n : ℕ) :
    x ∈ l.take n ↔ (l.filter fun y => [y, x].Sublist l).length < n := by
  obtain ⟨front, back, rfl⟩ := List.append_of_mem hx
  have hdisjoint := List.nodup_append.1 hnodup
  have hfront : x ∉ front := fun h => hdisjoint.2.2 x h x List.mem_cons_self rfl
  have hbefore : ∀ y ∈ front, [y, x].Sublist (front ++ x :: back) := by
    intro y hy
    exact (List.singleton_sublist.2 hy).append
      (List.singleton_sublist.2 List.mem_cons_self)
  have hafter : ∀ y ∈ x :: back, ¬ [y, x].Sublist (front ++ x :: back) := by
    intro y hy hsub
    rcases List.mem_cons.1 hy with rfl | hback
    · exact not_pair_sublist hnodup hsub hsub
    · have hpair : [x, y].Sublist (x :: back) :=
        (List.singleton_sublist.2 hback).cons_cons x
      exact not_pair_sublist hnodup hsub
        (hpair.trans (List.sublist_append_right front _))
  have hfilter :
      ((front ++ x :: back).filter
        fun y => [y, x].Sublist (front ++ x :: back)) =
      front := by
    rw [List.filter_append, List.filter_eq_self.2 (by simpa using hbefore),
      List.filter_eq_nil_iff.2 (by simpa using hafter), List.append_nil]
  rw [hfilter]
  constructor
  · intro hmem
    rw [List.take_append] at hmem
    rcases List.mem_append.1 hmem with hin | hin
    · exact absurd (List.mem_of_mem_take hin) hfront
    · have hne : (x :: back).take (n - front.length) ≠ [] :=
        List.ne_nil_of_mem hin
      by_contra hle
      rw [Nat.sub_eq_zero_of_le (not_lt.1 hle)] at hne
      exact hne rfl
  · intro hlt
    have hsub : (front ++ [x]).Sublist ((front ++ x :: back).take n) := by
      have hlength : (front ++ [x]).length ≤ n := by
        rw [List.length_append, List.length_singleton]
        exact hlt
      have happend : front ++ x :: back = (front ++ [x]) ++ back := by simp
      rw [happend, List.take_append, List.take_of_length_le hlength]
      exact List.sublist_append_left _ _
    exact hsub.subset (List.mem_append_right _ List.mem_cons_self)

/-! ## Sorting -/

variable (r : α → α → Prop)

/-- An element comes before another one when a list is sorted. -/
def Ahead (l : List α) (y x : α) : Prop := r y x ∧ (r x y → [y, x].Sublist l)

instance [DecidableEq α] [DecidableRel r] : Decidable (Ahead r l y x) :=
  inferInstanceAs (Decidable (r y x ∧ (r x y → [y, x].Sublist l)))

/-- How many elements come before one when a list is sorted. -/
def place [DecidableEq α] [DecidableRel r] (l : List α) (x : α) : ℕ :=
  (l.filter fun y => Ahead r l y x).length

variable {r} [DecidableRel r] [Std.Total r] [IsTrans α r]

theorem pair_sublist_insertionSort_iff (hnodup : l.Nodup) (hx : x ∈ l)
    (hy : y ∈ l) :
    [y, x].Sublist (l.insertionSort r) ↔ Ahead r l y x := by
  have hsorted := List.pairwise_insertionSort r l
  have hnodup' : (l.insertionSort r).Nodup :=
    (List.perm_insertionSort r l).nodup_iff.2 hnodup
  constructor
  · intro hsub
    refine ⟨(List.pairwise_pair.1 (hsorted.sublist hsub)), fun hxy => ?_⟩
    have hne : y ≠ x := by
      rintro rfl
      exact not_pair_sublist hnodup' hsub hsub
    rcases pair_sublist_or hy hx hne with h | h
    · exact h
    · exact absurd hsub
        (not_pair_sublist hnodup' (List.pair_sublist_insertionSort hxy h))
  · rintro ⟨hyx, htie⟩
    by_cases hxy : r x y
    · exact List.pair_sublist_insertionSort hyx (htie hxy)
    · have hne : y ≠ x := by
        rintro rfl
        exact hxy hyx
      have hy' := (List.mem_insertionSort r).2 hy
      have hx' := (List.mem_insertionSort r).2 hx
      rcases pair_sublist_or hy' hx' hne with h | h
      · exact h
      · exact absurd (List.pairwise_pair.1 (hsorted.sublist h)) hxy

/-- An element is among the first ones of the sorted list if its place is. -/
theorem mem_take_insertionSort_iff [DecidableEq α] (hnodup : l.Nodup)
    (hx : x ∈ l) (n : ℕ) :
    x ∈ (l.insertionSort r).take n ↔ place r l x < n := by
  have hperm := List.perm_insertionSort r l
  have hplace :
      ((l.insertionSort r).filter
        fun y => [y, x].Sublist (l.insertionSort r)).length =
      place r l x := by
    rw [(hperm.filter _).length_eq, place]
    refine congrArg List.length (List.filter_congr fun y hy => ?_)
    rw [decide_eq_decide]
    exact pair_sublist_insertionSort_iff hnodup hx hy
  rw [mem_take_iff (hperm.nodup_iff.2 hnodup) ((List.mem_insertionSort r).2 hx),
    hplace]

theorem mem_drop_insertionSort_iff [DecidableEq α] (hnodup : l.Nodup)
    (hx : x ∈ l) (n : ℕ) :
    x ∈ (l.insertionSort r).drop n ↔ n ≤ place r l x := by
  have hsorted : (l.insertionSort r).Nodup :=
    (List.perm_insertionSort r l).nodup_iff.2 hnodup
  have hmem := (List.mem_insertionSort r).2 hx
  rw [← List.take_append_drop n (l.insertionSort r)] at hsorted hmem
  rw [← not_lt, ← mem_take_insertionSort_iff hnodup hx n]
  constructor
  · intro hdrop htake
    exact (List.nodup_append.1 hsorted).2.2 x htake x hdrop rfl
  · exact fun htake => (List.mem_append.1 hmem).resolve_left htake

omit [Std.Total r] [IsTrans α r] in
/-- Two lists, one of which comes first, are sorted one by one. -/
theorem insertionSort_append {s p : List α} (h : ∀ a ∈ s, ∀ b ∈ p, r a b) :
    (s ++ p).insertionSort r = s.insertionSort r ++ p.insertionSort r := by
  have hinsert : ∀ (a : α) (t u : List α), (∀ b ∈ u, r a b) →
      (t ++ u).orderedInsert r a = t.orderedInsert r a ++ u := by
    intro a t u hu
    induction t with
    | nil =>
        cases u with
        | nil => rfl
        | cons b u => exact if_pos (hu b List.mem_cons_self)
    | cons c t ih =>
        rw [List.cons_append, List.orderedInsert_cons, List.orderedInsert_cons]
        split
        · rfl
        · rw [ih, List.cons_append]
  induction s with
  | nil => rfl
  | cons a s ih =>
      rw [List.cons_append, List.insertionSort_cons,
        ih fun c hc => h c (List.mem_cons_of_mem a hc), List.insertionSort_cons]
      refine hinsert a _ _ fun b hb => ?_
      exact h a List.mem_cons_self b ((List.mem_insertionSort r).1 hb)

/-- What is put first stays among the first ones if nothing else has to come
before it. -/
theorem forall_mem_take_insertionSort_append_iff {s p : List α}
    (hnodup : (s ++ p).Nodup) :
    (∀ a ∈ s, a ∈ ((s ++ p).insertionSort r).take s.length) ↔
      ∀ a ∈ s, ∀ b ∈ p, r a b := by
  obtain ⟨hs, -, hdisjoint⟩ := List.nodup_append.1 hnodup
  constructor
  · intro hall a ha b hb
    have hperm : s.Subperm (((s ++ p).insertionSort r).take s.length) :=
      hs.subperm hall
    have hlength :
        (((s ++ p).insertionSort r).take s.length).length ≤ s.length :=
      List.length_take_le _ _
    have hback : b ∉ ((s ++ p).insertionSort r).take s.length := by
      intro hmem
      exact hdisjoint b ((hperm.perm_of_length_le hlength).symm.subset hmem)
        b hb rfl
    have hmem : b ∈ (s ++ p).insertionSort r :=
      (List.mem_insertionSort r).2 (List.mem_append_right _ hb)
    rw [← List.take_append_drop s.length ((s ++ p).insertionSort r)] at hmem
    have hdrop := (List.mem_append.1 hmem).resolve_left hback
    have hsorted := List.pairwise_insertionSort r (s ++ p)
    rw [← List.take_append_drop s.length ((s ++ p).insertionSort r)] at hsorted
    exact (List.pairwise_append.1 hsorted).2.2 a (hall a ha) b hdrop
  · intro h a ha
    rw [insertionSort_append h, ← List.length_insertionSort r s, List.take_left]
    exact (List.mem_insertionSort r).2 ha

end CodeRs.Ranking
