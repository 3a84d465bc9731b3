import Mathlib.Algebra.GroupWithZero.Nat
import Mathlib.Order.Basic
import Mathlib.Order.Lattice

/-!
# Saturating 64-bit arithmetic

`u64` and 64-bit `usize` counters are natural numbers whose additions stop at
the largest representable value.  Saturating subtraction is the subtraction of
natural numbers.
-/

namespace CodeRs

/-- `u64::MAX`, which is also `usize::MAX` on 64-bit targets. -/
def u64Max : ℕ := 2 ^ 64 - 1

theorem one_le_u64Max : 1 ≤ u64Max := by decide

/-- `saturating_add` on `u64` and `usize`. -/
def satAdd (a b : ℕ) : ℕ := min (a + b) u64Max

theorem satAdd_eq {a b : ℕ} (h : a + b ≤ u64Max) : satAdd a b = a + b :=
  min_eq_left h

theorem satAdd_le (a b : ℕ) : satAdd a b ≤ a + b := min_le_left _ _

theorem satAdd_le_max (a b : ℕ) : satAdd a b ≤ u64Max := min_le_right _ _

theorem satAdd_max (b : ℕ) : satAdd u64Max b = u64Max :=
  min_eq_right (Nat.le_add_right _ _)

@[simp] theorem satAdd_zero_of_le {a : ℕ} (h : a ≤ u64Max) :
    satAdd a 0 = a := by
  simpa [satAdd] using h

/-- `u32::MAX`. -/
def u32Max : ℕ := 2 ^ 32 - 1

/-- `saturating_add` on `u32`. -/
def satAdd32 (a b : ℕ) : ℕ := min (a + b) u32Max

theorem satAdd32_eq {a b : ℕ} (h : a + b ≤ u32Max) : satAdd32 a b = a + b :=
  min_eq_left h

/-! ## Counters -/

@[ext]
structure U64 where
  val : ℕ
  lt_size : val < 2 ^ 64
  deriving DecidableEq

namespace U64

/-- `saturating_add`. -/
instance : Add U64 :=
  ⟨fun a b => ⟨satAdd a.val b.val,
    Nat.lt_of_le_of_lt (satAdd_le_max a.val b.val) (by decide)⟩⟩

instance : Zero U64 := ⟨⟨0, by decide⟩⟩

theorem le_max (a : U64) : a.val ≤ u64Max := Nat.le_pred_of_lt a.lt_size

theorem val_add (a b : U64) : (a + b).val = min (a.val + b.val) u64Max := rfl

theorem val_zero : (0 : U64).val = 0 := rfl

/-- Saturating counters can be added up in any order. -/
instance : AddCommMonoid U64 where
  add_assoc a b c := by
    ext
    simp only [val_add]
    omega
  zero_add a := by
    ext
    rw [val_add, val_zero, Nat.zero_add]
    exact min_eq_left a.le_max
  add_zero a := by
    ext
    rw [val_add, val_zero, Nat.add_zero]
    exact min_eq_left a.le_max
  add_comm a b := by
    ext
    rw [val_add, val_add, Nat.add_comm]
  nsmul := nsmulRec

end U64

end CodeRs
