import Mathlib.Algebra.BigOperators.Group.Finset.Basic
import Mathlib.Algebra.GroupWithZero.Nat
import Mathlib.Data.Finmap
import Mathlib.Logic.Function.Basic

/-!
# Partial and finite maps

Two tables that should be inverse, and a finite map with numbers as values.
-/

/-! ## Two partial maps that should be inverse

A table from places to names and a table from names to the places they are at.
A name is given to a place, and a name moves to another place.  The tables stay
inverse to each other until a name moves onto the place of another one.  That
one is then at a place but cannot be found there, and it stays lost. -/

namespace CodeRs

abbrev PartialMap (α β : Type*) := α → Option β

namespace PartialMap

variable {α β : Type*}

section Update

variable [DecidableEq α]

def insert (f : PartialMap α β) (a : α) (b : β) : PartialMap α β :=
  Function.update f a (some b)

def remove (f : PartialMap α β) (a : α) : PartialMap α β :=
  Function.update f a none

@[simp] theorem insert_self (f : PartialMap α β) (a : α) (b : β) :
    f.insert a b a = some b :=
  Function.update_self ..

@[simp] theorem insert_of_ne {a x : α} (h : x ≠ a)
    (f : PartialMap α β) (b : β) :
    f.insert a b x = f x :=
  Function.update_of_ne h ..

@[simp] theorem remove_self (f : PartialMap α β) (a : α) :
    f.remove a a = none :=
  Function.update_self ..

@[simp] theorem remove_of_ne {a x : α} (h : x ≠ a) (f : PartialMap α β) :
    f.remove a x = f x :=
  Function.update_of_ne h ..

variable {τ : Type*} {key : τ → α} {value : τ → β}

def insertAll (key : τ → α) (value : τ → β) (f : PartialMap α β) :
    List τ → PartialMap α β
  | [] => f
  | t :: rest => insertAll key value (f.insert (key t) (value t)) rest

theorem insertAll_of_notMem {a : α} {ts : List τ} (h : a ∉ ts.map key)
    (f : PartialMap α β) :
    insertAll key value f ts a = f a := by
  induction ts generalizing f with
  | nil => rfl
  | cons t rest ih =>
      rw [List.map_cons, List.mem_cons, not_or] at h
      rw [insertAll, ih h.2, insert_of_ne h.1]

theorem insertAll_of_mem {t : τ} {ts : List τ}
    (hnodup : (ts.map key).Nodup) (ht : t ∈ ts)
    (f : PartialMap α β) :
    insertAll key value f ts (key t) = some (value t) := by
  induction ts generalizing f with
  | nil => cases ht
  | cons s rest ih =>
      obtain ⟨hs, hrest⟩ := List.nodup_cons.1 hnodup
      rcases List.mem_cons.1 ht with rfl | hin
      · rw [insertAll, insertAll_of_notMem hs, insert_self]
      · exact ih hrest hin _

end Update

/-! ## Places and names -/

variable {place : PartialMap α β} {name : PartialMap β α} {a dest : α} {b : β}

/-- The name is at some place and cannot be found anywhere. -/
def Lost (place : PartialMap α β) (name : PartialMap β α) (b : β) : Prop :=
  name b ≠ none ∧ ∀ a, place a ≠ some b

/-- The two maps are inverse to each other. -/
def MutuallyInverse (place : PartialMap α β) (name : PartialMap β α) : Prop :=
  ∀ a b, place a = some b ↔ name b = some a

theorem MutuallyInverse.not_lost (h : MutuallyInverse place name) (b : β) :
    ¬ Lost place name b := by
  rintro ⟨hsome, hnowhere⟩
  obtain ⟨a, ha⟩ := Option.ne_none_iff_exists'.1 hsome
  exact hnowhere a ((h a b).2 ha)

variable [DecidableEq α] [DecidableEq β]

theorem MutuallyInverse.insert_fresh (h : MutuallyInverse place name)
    (ha : place a = none)
    (hb : name b = none) :
    MutuallyInverse (place.insert a b) (name.insert b a) := by
  intro x y
  by_cases hx : x = a
  · subst hx
    by_cases hy : y = b
    · subst hy
      simp
    · have hne : name y ≠ some x := by
        intro hyx
        rw [(h x y).2 hyx] at ha
        cases ha
      simp [hy, hne, Ne.symm hy]
  · by_cases hy : y = b
    · subst hy
      have hne : place x ≠ some y := by
        intro hxy
        rw [(h x y).1 hxy] at hb
        cases hb
      simp [hx, hne, Ne.symm hx]
    · simpa [hx, hy] using h x y

/-- A name that moves onto a free place, or onto its own. -/
theorem MutuallyInverse.relocate (h : MutuallyInverse place name)
    (ha : place a = some b)
    (hdest : dest = a ∨ place dest = none) :
    MutuallyInverse ((place.remove a).insert dest b) (name.insert b dest) := by
  intro x y
  by_cases hx : x = dest
  · subst hx
    by_cases hy : y = b
    · subst hy
      simp
    · have hne : name y ≠ some x := by
        intro hyx
        have hxy := (h x y).2 hyx
        rcases hdest with rfl | hfree
        · rw [ha] at hxy
          exact hy (Option.some.inj hxy).symm
        · rw [hfree] at hxy
          cases hxy
      simp [hy, hne, Ne.symm hy]
  · by_cases hy : y = b
    · subst hy
      have hne : place.remove a x ≠ some y := by
        by_cases hxa : x = a
        · subst hxa
          simp
        · rw [remove_of_ne hxa]
          intro hxy
          have hsame : some a = some x :=
            ((h a y).1 ha).symm.trans ((h x y).1 hxy)
          exact hxa (Option.some.inj hsame).symm
      simp [hx, hne, Ne.symm hx]
    · by_cases hxa : x = a
      · subst hxa
        have hne : name y ≠ some x := by
          intro hyx
          have hxy := (h x y).2 hyx
          rw [ha] at hxy
          exact hy (Option.some.inj hxy).symm
        simp [hx, hy, hne]
      · simpa [hx, hy, hxa] using h x y

/-- A name that moves onto the place of another one makes that one lost. -/
theorem MutuallyInverse.lost_relocate (h : MutuallyInverse place name)
    (ha : place a = some b)
    (hdest : dest ≠ a) {other : β} (hother : place dest = some other) :
    Lost ((place.remove a).insert dest b) (name.insert b dest) other := by
  have hne : other ≠ b := by
    rintro rfl
    have hsame : some a = some dest :=
      ((h a other).1 ha).symm.trans ((h dest other).1 hother)
    exact hdest (Option.some.inj hsame).symm
  refine ⟨?_, ?_⟩
  · rw [insert_of_ne hne, (h dest other).1 hother]
    simp
  · intro x hx
    by_cases hxd : x = dest
    · subst hxd
      rw [insert_self] at hx
      exact hne (Option.some.inj hx).symm
    · rw [insert_of_ne hxd] at hx
      by_cases hxa : x = a
      · subst hxa
        simp at hx
      · rw [remove_of_ne hxa] at hx
        have hsame : some x = some dest :=
          ((h x other).1 hx).symm.trans ((h dest other).1 hother)
        exact hxd (Option.some.inj hsame)

theorem Lost.insert_fresh {other : β} (h : Lost place name other)
    (hb : name b = none) :
    Lost (place.insert a b) (name.insert b a) other := by
  have hne : other ≠ b := by
    rintro rfl
    exact h.1 hb
  refine ⟨by rw [insert_of_ne hne]; exact h.1, ?_⟩
  intro x hx
  by_cases hxa : x = a
  · subst hxa
    rw [insert_self] at hx
    exact hne (Option.some.inj hx).symm
  · rw [insert_of_ne hxa] at hx
    exact h.2 x hx

theorem Lost.relocate {other : β} (h : Lost place name other)
    (ha : place a = some b) :
    Lost ((place.remove a).insert dest b) (name.insert b dest) other := by
  have hne : other ≠ b := by
    rintro rfl
    exact h.2 a ha
  refine ⟨by rw [insert_of_ne hne]; exact h.1, ?_⟩
  intro x hx
  by_cases hxd : x = dest
  · subst hxd
    rw [insert_self] at hx
    exact hne (Option.some.inj hx).symm
  · rw [insert_of_ne hxd] at hx
    by_cases hxa : x = a
    · subst hxa
      simp at hx
    · rw [remove_of_ne hxa] at hx
      exact h.2 x hx

end PartialMap

end CodeRs

/-! ## The sum of the values of a finite map

Inserting or erasing a key moves the sum by the value put in and the value taken
out. -/

namespace CodeRs

open scoped BigOperators

variable {α : Type*} [DecidableEq α]

/-- The sum of the values of a finite map. -/
def sumValues (m : Finmap fun _ : α => ℕ) : ℕ :=
  ∑ k ∈ m.keys, (m.lookup k).getD 0

@[simp] theorem sumValues_empty :
    sumValues (∅ : Finmap fun _ : α => ℕ) = 0 := by
  simp [sumValues]

theorem sumValues_eq_add (m : Finmap fun _ : α => ℕ) (k : α) :
    sumValues m =
      (m.lookup k).getD 0 + ∑ j ∈ m.keys.erase k, (m.lookup j).getD 0 := by
  by_cases hk : k ∈ m.keys
  · rw [sumValues,
      Finset.add_sum_erase m.keys (fun j => (m.lookup j).getD 0) hk]
  · have hnone : m.lookup k = none :=
      Finmap.lookup_eq_none.mpr fun hmem => hk (Finmap.mem_keys.mpr hmem)
    rw [sumValues, Finset.erase_eq_of_notMem hk, hnone,
      Option.getD_none, Nat.zero_add]

/-- Two maps that agree outside `k` differ by their values at `k`. -/
theorem sumValues_add_of_agree {m m' : Finmap fun _ : α => ℕ} {k : α}
    (h : ∀ j, j ≠ k → m'.lookup j = m.lookup j) :
    sumValues m' + (m.lookup k).getD 0 =
      sumValues m + (m'.lookup k).getD 0 := by
  have hkeys : m'.keys.erase k = m.keys.erase k := by
    ext j
    by_cases hj : j = k
    · simp [hj]
    · simp [hj, Finmap.mem_keys, ← Finmap.lookup_isSome, h j hj]
  have hrest : ∑ j ∈ m'.keys.erase k, (m'.lookup j).getD 0 =
      ∑ j ∈ m.keys.erase k, (m.lookup j).getD 0 := by
    rw [hkeys]
    exact Finset.sum_congr rfl fun j hj => by
      rw [h j (Finset.ne_of_mem_erase hj)]
  rw [sumValues_eq_add m' k, sumValues_eq_add m k, hrest]
  omega

theorem sumValues_insert (m : Finmap fun _ : α => ℕ) (k : α) (n : ℕ) :
    sumValues (m.insert k n) + (m.lookup k).getD 0 = sumValues m + n := by
  have hsame : ∀ j, j ≠ k → (m.insert k n).lookup j = m.lookup j :=
    fun j hj => Finmap.lookup_insert_of_ne m hj
  have hagree := sumValues_add_of_agree hsame
  rwa [Finmap.lookup_insert, Option.getD_some] at hagree

theorem sumValues_erase (m : Finmap fun _ : α => ℕ) (k : α) :
    sumValues (m.erase k) + (m.lookup k).getD 0 = sumValues m := by
  have hsame : ∀ j, j ≠ k → (m.erase k).lookup j = m.lookup j :=
    fun j hj => Finmap.lookup_erase_ne hj
  have hagree := sumValues_add_of_agree hsame
  rwa [Finmap.lookup_erase, Option.getD_none, Nat.add_zero] at hagree

theorem lookup_le_sumValues (m : Finmap fun _ : α => ℕ) (k : α) :
    (m.lookup k).getD 0 ≤ sumValues m := by
  have herase := sumValues_erase m k
  omega

theorem sumValues_eq_sum_map {m : Finmap fun _ : α => ℕ} {keys : List α}
    (hnodup : keys.Nodup) (hkeys : ∀ k, k ∈ m ↔ k ∈ keys) :
    sumValues m = (keys.map fun k => (m.lookup k).getD 0).sum := by
  have hfinset : m.keys = keys.toFinset := by
    ext k
    rw [Finmap.mem_keys, List.mem_toFinset, hkeys]
  rw [sumValues, hfinset, List.sum_toFinset _ hnodup]

end CodeRs
