import Mathlib.Data.List.Sort
import Mathlib.Data.List.Nodup
import Mathlib.Algebra.BigOperators.Group.List.Basic
import Mathlib.Algebra.GroupWithZero.Nat

/-!
# Keeping the newest items of a log

Three ways of thinning out a log whose newest items come last: keep a number of
items per class, keep what still fits in a capacity when the log is walked from
its newest end, and put parts that were taken out of it back in their order.
-/

namespace CodeRs.Eviction

/-! ## Sorting by a key -/

section SortByKey

variable {α : Type*} {key : α → ℕ}

def sortByKey (key : α → ℕ) (l : List α) : List α :=
  l.insertionSort fun a b => key a ≤ key b

theorem sortByKey_perm (l : List α) : (sortByKey key l).Perm l :=
  List.perm_insertionSort _ l

/-- Sorting restores the only arrangement in which the keys increase. -/
theorem sortByKey_eq {l ordered : List α} (hperm : l.Perm ordered)
    (hordered : ordered.Pairwise fun a b => key a < key b) :
    sortByKey key l = ordered := by
  have htotal : Std.Total fun a b : α => key a ≤ key b :=
    ⟨fun a b => Nat.le_total (key a) (key b)⟩
  have htrans : IsTrans α fun a b => key a ≤ key b :=
    ⟨fun _ _ _ => Nat.le_trans⟩
  have hnodup : (ordered.map key).Nodup :=
    List.pairwise_map.2 (hordered.imp Nat.ne_of_lt)
  refine List.Perm.eq_of_pairwise ?_ (List.pairwise_insertionSort _ l)
    (hordered.imp Nat.le_of_lt) ((sortByKey_perm l).trans hperm)
  intro a b ha hb hab hba
  have haord : a ∈ ordered := hperm.mem_iff.1 ((sortByKey_perm l).mem_iff.1 ha)
  exact List.inj_on_of_nodup_map hnodup haord hb (Nat.le_antisymm hab hba)

end SortByKey

/-! ## The newest of each class -/

section Newest

variable {α κ : Type*} [DecidableEq κ] {cls : α → κ} {limit : κ → Option ℕ}

def ofClass (cls : α → κ) (c : κ) (l : List α) : List α :=
  l.filter fun x => cls x = c

/-- The last items of a list, at most as many as the limit. -/
def lastOf (limit : Option ℕ) (l : List α) : List α :=
  match limit with
  | none => l
  | some m => l.drop (l.length - m)

/-- The items that are in the way of the last ones. -/
def overflow (limit : Option ℕ) (l : List α) : List α :=
  match limit with
  | none => []
  | some m => l.take (l.length - m)

theorem overflow_append_lastOf (limit : Option ℕ) (l : List α) :
    overflow limit l ++ lastOf limit l = l := by
  cases limit with
  | none => rfl
  | some m => exact List.take_append_drop _ l

@[simp] theorem lastOf_zero (l : List α) : lastOf (some 0) l = [] := by
  simp [lastOf]

/-- What was dropped before more items came is dropped with them too. -/
theorem lastOf_lastOf_append (m : ℕ) (older newer : List α) :
    lastOf (some m) (lastOf (some m) older ++ newer) =
      lastOf (some m) (older ++ newer) := by
  have hlen : (lastOf (some m) older ++ newer).length =
      older.length - (older.length - m) + newer.length := by
    rw [List.length_append, lastOf, List.length_drop]
  have hdrop : lastOf (some m) older ++ newer =
      (older ++ newer).drop (older.length - m) :=
    (List.drop_append_of_le_length (Nat.sub_le _ _)).symm
  change (lastOf (some m) older ++ newer).drop _ = (older ++ newer).drop _
  rw [hlen, hdrop, List.drop_drop, List.length_append]
  congr 1
  omega

/-- What is in the way of the last items is what was before more items came,
and then some of those that were the last ones. -/
theorem overflow_append (m : ℕ) (older newer : List α) :
    overflow (some m) (older ++ newer) =
      overflow (some m) older ++
        overflow (some m) (lastOf (some m) older ++ newer) := by
  have hlast := lastOf_lastOf_append m older newer
  have hinner :=
    overflow_append_lastOf (some m) (lastOf (some m) older ++ newer)
  rw [hlast] at hinner
  have hwhole :
      overflow (some m) (older ++ newer) ++ lastOf (some m) (older ++ newer) =
      overflow (some m) older ++
        overflow (some m) (lastOf (some m) older ++ newer) ++
        lastOf (some m) (older ++ newer) := by
    rw [overflow_append_lastOf, List.append_assoc, hinner, ← List.append_assoc,
      overflow_append_lastOf]
  exact List.append_cancel_right hwhole

/-- The last items are a suffix, of as many items as there are up to the
limit. -/
theorem lastOf_spec (m : ℕ) (l : List α) :
    lastOf (some m) l <:+ l ∧ (lastOf (some m) l).length = min m l.length := by
  refine ⟨List.drop_suffix _ l, ?_⟩
  rw [lastOf, List.length_drop]
  omega

/-- Keep an item exactly when fewer items of its class than the limit follow. -/
def keepNewest (cls : α → κ) (limit : κ → Option ℕ) : List α → List α
  | [] => []
  | x :: newer =>
      if (limit (cls x)).all ((ofClass cls (cls x) newer).length < ·) then
        x :: keepNewest cls limit newer
      else keepNewest cls limit newer

theorem keepNewest_sublist (l : List α) :
    (keepNewest cls limit l).Sublist l := by
  induction l with
  | nil => exact List.Sublist.slnil
  | cons x newer ih =>
      rw [keepNewest]
      split
      · exact ih.cons_cons x
      · exact ih.cons x

theorem ofClass_cons_self {x : α} {c : κ} {l : List α} (h : cls x = c) :
    ofClass cls c (x :: l) = x :: ofClass cls c l :=
  List.filter_cons_of_pos (by simpa using h)

theorem ofClass_cons_ne {x : α} {c : κ} {l : List α} (h : cls x ≠ c) :
    ofClass cls c (x :: l) = ofClass cls c l :=
  List.filter_cons_of_neg (by simpa using h)

theorem ofClass_keepNewest (c : κ) (l : List α) :
    ofClass cls c (keepNewest cls limit l) =
      lastOf (limit c) (ofClass cls c l) := by
  induction l with
  | nil =>
      cases h : limit c with
      | none => rfl
      | some m => simp [lastOf, keepNewest, ofClass]
  | cons x newer ih =>
      rw [keepNewest]
      by_cases hx : cls x = c
      · subst hx
        rw [ofClass_cons_self rfl]
        cases h : limit (cls x) with
        | none =>
            rw [if_pos (by simp), ofClass_cons_self rfl, ih, h]
            rfl
        | some m =>
            rw [h] at ih
            by_cases hm : (ofClass cls (cls x) newer).length < m
            · rw [if_pos (by simpa using hm), ofClass_cons_self rfl, ih]
              simp only [lastOf, List.length_cons]
              rw [Nat.sub_eq_zero_of_le (by omega),
                Nat.sub_eq_zero_of_le (by omega)]
              rfl
            · rw [if_neg (by simpa using hm), ih]
              simp only [lastOf, List.length_cons]
              rw [show (ofClass cls (cls x) newer).length + 1 - m =
                (ofClass cls (cls x) newer).length - m + 1 by omega]
              rfl
      · rw [ofClass_cons_ne hx, ← ih]
        split
        · exact ofClass_cons_ne hx
        · rfl

/-- A list is its classes side by side, and what belongs to none of them. -/
theorem flatMap_ofClass_perm {cs : List κ} (hnodup : cs.Nodup) (l : List α) :
    (cs.flatMap (fun c => ofClass cls c l) ++ l.filter
      fun x => cls x ∉ cs).Perm l := by
  induction cs with
  | nil => simp
  | cons c cs ih =>
      obtain ⟨hc, hcs⟩ := List.nodup_cons.1 hnodup
      have hclass : (l.filter fun x => cls x ∉ cs).filter (fun x => cls x = c) =
          ofClass cls c l := by
        rw [List.filter_filter, ofClass]
        refine List.filter_congr fun x _ => ?_
        by_cases hx : cls x = c
        · simp [hx, hc]
        · simp [hx]
      have hrest :
          ((l.filter fun x => cls x ∉ cs).filter fun x => !decide (cls x = c)) =
          l.filter fun x => cls x ∉ c :: cs := by
        rw [List.filter_filter]
        refine List.filter_congr fun x _ => ?_
        simp [not_or]
      have hsplit := List.filter_append_perm (fun x => decide (cls x = c))
        (l.filter fun x => cls x ∉ cs)
      rw [hclass, hrest] at hsplit
      rw [List.flatMap_cons, List.append_assoc]
      refine List.Perm.trans ?_ (ih hcs)
      refine List.Perm.trans ?_ (hsplit.append_left _)
      rw [← List.append_assoc, ← List.append_assoc]
      exact List.perm_append_comm.append_right _

end Newest

/-! ## What fits in a capacity -/

section Greedy

variable {α : Type*} (add : ℕ → ℕ → ℕ) (weight : α → ℕ) (cap : ℕ)

/-- Keep an item exactly when it still fits on top of what was kept before
it. -/
def greedy : ℕ → List α → List α
  | _, [] => []
  | used, x :: older =>
      if add used (weight x) ≤ cap then
        x :: greedy (add used (weight x)) older
      else greedy used older

/-- On the walk of `greedy`, every item that does not fit fails `p`. -/
def Spares (p : α → Bool) : ℕ → List α → Prop
  | _, [] => True
  | used, x :: older =>
      if add used (weight x) ≤ cap then
        Spares p (add used (weight x)) older
      else p x = false ∧ Spares p used older

instance decidableSpares (p : α → Bool) :
    (used : ℕ) → (l : List α) → Decidable (Spares add weight cap p used l)
  | _, [] => inferInstanceAs (Decidable True)
  | used, x :: older =>
      have := decidableSpares p (add used (weight x)) older
      have := decidableSpares p used older
      inferInstanceAs (Decidable (if add used (weight x) ≤ cap then
          Spares add weight cap p (add used (weight x)) older
        else p x = false ∧ Spares add weight cap p used older))

/-- What `greedy` leaves out. -/
def misfits : ℕ → List α → List α
  | _, [] => []
  | used, x :: older =>
      if add used (weight x) ≤ cap then
        misfits (add used (weight x)) older
      else x :: misfits used older

theorem length_greedy_add_misfits (used : ℕ) (l : List α) :
    (greedy add weight cap used l).length +
      (misfits add weight cap used l).length =
      l.length := by
  induction l generalizing used with
  | nil => rfl
  | cons x older ih =>
      rw [greedy, misfits]
      split
      · have hrest := ih (add used (weight x))
        simp only [List.length_cons]
        omega
      · have hrest := ih used
        simp only [List.length_cons]
        omega

theorem sum_greedy_add_misfits (used : ℕ) (l : List α) :
    ((greedy add weight cap used l).map weight).sum +
      ((misfits add weight cap used l).map weight).sum =
      (l.map weight).sum := by
  induction l generalizing used with
  | nil => rfl
  | cons x older ih =>
      rw [greedy, misfits]
      split
      · have hrest := ih (add used (weight x))
        simp only [List.map_cons, List.sum_cons]
        omega
      · have hrest := ih used
        simp only [List.map_cons, List.sum_cons]
        omega

theorem greedy_sublist (used : ℕ) (l : List α) :
    (greedy add weight cap used l).Sublist l := by
  induction l generalizing used with
  | nil => exact List.Sublist.slnil
  | cons x older ih =>
      rw [greedy]
      split
      · exact (ih _).cons_cons x
      · exact (ih used).cons x

/-- The items with `p` all survive exactly when the walk spares them. -/
theorem filter_greedy_eq_iff {p : α → Bool} (used : ℕ) (l : List α) :
    (greedy add weight cap used l).filter p = l.filter p ↔
      Spares add weight cap p used l := by
  induction l generalizing used with
  | nil => simp [greedy, Spares]
  | cons x older ih =>
      rw [greedy, Spares]
      by_cases hfits : add used (weight x) ≤ cap
      · rw [if_pos hfits, if_pos hfits, ← ih]
        cases hx : p x with
        | true => simp [hx]
        | false => simp [hx]
      · rw [if_neg hfits, if_neg hfits, ← ih]
        cases hx : p x with
        | true =>
            have hle :=
              ((greedy_sublist add weight cap used older).filter p).length_le
            rw [List.filter_cons_of_pos hx]
            refine ⟨fun heq => ?_, fun h => absurd h.1 (by simp)⟩
            rw [heq, List.length_cons] at hle
            omega
        | false => simp [hx]

/-- Whatever fits as a whole is kept as a whole. -/
theorem greedy_eq_self (hadd : ∀ a b, add a b ≤ a + b) {used : ℕ} {l : List α}
    (h : used + (l.map weight).sum ≤ cap) :
    greedy add weight cap used l = l := by
  induction l generalizing used with
  | nil => rfl
  | cons x older ih =>
      rw [List.map_cons, List.sum_cons] at h
      have hx := hadd used (weight x)
      rw [greedy, if_pos (by omega), ih (by omega)]

/-- What is kept stays within the capacity. -/
theorem sum_greedy_le {used : ℕ} (h : used ≤ cap) (l : List α) :
    used + ((greedy (· + ·) weight cap used l).map weight).sum ≤ cap := by
  induction l generalizing used with
  | nil => simpa [greedy] using h
  | cons x older ih =>
      rw [greedy]
      split
      · rename_i hfits
        have hrest := ih hfits
        rw [List.map_cons, List.sum_cons]
        omega
      · exact ih h

/-- Another addition keeps the same items while it agrees with the exact one. -/
theorem greedy_congr {bound : ℕ} (hadd : ∀ a b, a + b ≤ bound → add a b = a + b)
    {used : ℕ} {l : List α} (h : used + (l.map weight).sum ≤ bound) :
    greedy add weight cap used l = greedy (· + ·) weight cap used l := by
  induction l generalizing used with
  | nil => rfl
  | cons x older ih =>
      rw [List.map_cons, List.sum_cons] at h
      have hx := hadd used (weight x) (by omega)
      simp only [greedy, hx]
      split
      · rw [ih (by omega)]
      · exact ih (by omega)

end Greedy

end CodeRs.Eviction
