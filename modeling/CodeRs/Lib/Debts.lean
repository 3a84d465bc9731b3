import Mathlib.Algebra.Order.Group.Nat
import Mathlib.Data.Nat.Basic
import Mathlib.Data.Set.Insert

/-!
# Debts, claims and budgets

Ledgers of who owes what, who claims what, and what may still be spent.

## Debts that are paid once

An item is claimed at most once.  Who claims it pays for it at once, or owes
the payment and makes it later.  So nothing is paid for twice, and what is
claimed is paid for unless one debtor still owes it.
-/

namespace CodeRs

/-- What is claimed, how often it has been paid for, and who owes what. -/
@[ext]
structure Ledger (ι δ : Type*) where
  claimed : Set ι
  paid : ι → ℕ
  debt : δ → Option ι

namespace Ledger

variable {ι δ : Type*} {l l' : Ledger ι δ} {e : ι} {d : δ}

/-- An item is paid for if it is claimed, but not twice, and only one debtor
may owe it. -/
structure Sound (l : Ledger ι δ) : Prop where
  unclaimed : ∀ e ∉ l.claimed, l.paid e = 0 ∧ ∀ d, l.debt d ≠ some e
  claimed : ∀ e ∈ l.claimed, l.paid e = 1 ∧ (∀ d, l.debt d ≠ some e) ∨
    l.paid e = 0 ∧ ∃ debtor, ∀ d, l.debt d = some e ↔ d = debtor

theorem Sound.paid_le (h : l.Sound) (e : ι) : l.paid e ≤ 1 := by
  by_cases he : e ∈ l.claimed
  · obtain ⟨hpaid, -⟩ | ⟨hpaid, -⟩ := h.claimed e he
    · exact hpaid.le
    · exact hpaid.le.trans (Nat.zero_le 1)
  · exact (h.unclaimed e he).1.le.trans (Nat.zero_le 1)

theorem Sound.paid_eq (h : l.Sound) (he : e ∈ l.claimed)
    (howed : ∀ d, l.debt d ≠ some e) :
    l.paid e = 1 := by
  obtain ⟨hpaid, -⟩ | ⟨-, debtor, hdebtor⟩ := h.claimed e he
  · exact hpaid
  · exact absurd ((hdebtor debtor).2 rfl) (howed debtor)

variable [DecidableEq ι] [DecidableEq δ]

/-- Claim an item and pay for it at once. -/
def settle (l : Ledger ι δ) (e : ι) : Ledger ι δ :=
  { l with
    claimed := insert e l.claimed
    paid := Function.update l.paid e (l.paid e + 1) }

/-- Claim an item and owe the payment. -/
def owe (l : Ledger ι δ) (d : δ) (e : ι) : Ledger ι δ :=
  { l with
    claimed := insert e l.claimed
    debt := Function.update l.debt d (some e) }

def pay (l : Ledger ι δ) (d : δ) (e : ι) : Ledger ι δ :=
  { l with
    paid := Function.update l.paid e (l.paid e + 1)
    debt := Function.update l.debt d none }

inductive Next : Ledger ι δ → Ledger ι δ → Prop where
  | settle {l : Ledger ι δ} {e : ι} (h : e ∉ l.claimed) : Next l (l.settle e)
  | owe {l : Ledger ι δ} {d : δ} {e : ι} (h : e ∉
    l.claimed) (hd : l.debt d = none) :
      Next l (l.owe d e)
  | pay {l : Ledger ι δ} {d : δ} {e : ι} (h : l.debt d =
    some e) : Next l (l.pay d e)

omit [DecidableEq δ] in
theorem Sound.settle (h : l.Sound) (he : e ∉ l.claimed) :
    (l.settle e).Sound := by
  obtain ⟨hpaid, howed⟩ := h.unclaimed e he
  constructor
  · intro x hx
    obtain ⟨hne, hx⟩ := not_or.1 hx
    change Function.update l.paid e _ x = 0 ∧ _
    rw [Function.update_of_ne hne]
    exact h.unclaimed x hx
  · rintro x (rfl | hx)
    · refine .inl ⟨?_, howed⟩
      change Function.update l.paid x _ x = 1
      rw [Function.update_self, hpaid]
    · have hne : x ≠ e := fun heq => he (heq ▸ hx)
      change Function.update l.paid e _ x = 1 ∧ _ ∨
        Function.update l.paid e _ x = 0 ∧ _
      rw [Function.update_of_ne hne]
      exact h.claimed x hx

omit [DecidableEq ι] in
theorem Sound.owe (h : l.Sound) (he : e ∉ l.claimed) (hd : l.debt d = none) :
    (l.owe d e).Sound := by
  obtain ⟨hpaid, howed⟩ := h.unclaimed e he
  have hother : ∀ {x : ι}, x ≠ e → ∀ d', (l.owe d e).debt d' = some x ↔
      l.debt d' = some x := by
    intro x hne d'
    change Function.update l.debt d (some e) d' = some x ↔ _
    by_cases hd' : d' = d
    · rw [hd', Function.update_self, hd]
      exact ⟨fun hex => absurd (Option.some.inj hex).symm hne,
        fun hno => by cases hno⟩
    · rw [Function.update_of_ne hd']
  constructor
  · intro x hx
    obtain ⟨hne, hx⟩ := not_or.1 hx
    exact ⟨(h.unclaimed x hx).1,
      fun d' hd' => (h.unclaimed x hx).2 d' ((hother hne d').1 hd')⟩
  · rintro x (rfl | hx)
    · refine .inr ⟨hpaid, d, fun d' => ?_⟩
      change Function.update l.debt d (some x) d' = some x ↔ _
      by_cases hd' : d' = d
      · rw [hd', Function.update_self]
        exact ⟨fun _ => rfl, fun _ => rfl⟩
      · rw [Function.update_of_ne hd']
        exact ⟨fun hx => absurd hx (howed d'), fun heq => absurd heq hd'⟩
    · have hne : x ≠ e := fun heq => he (heq ▸ hx)
      obtain ⟨hone, hnobody⟩ | ⟨hzero, debtor, hdebtor⟩ := h.claimed x hx
      · exact .inl ⟨hone, fun d' hd' => hnobody d' ((hother hne d').1 hd')⟩
      · exact .inr ⟨hzero, debtor, fun d' => (hother hne d').trans (hdebtor d')⟩

theorem Sound.pay (h : l.Sound) (hd : l.debt d = some e) :
    (l.pay d e).Sound := by
  have hclaimed : e ∈ l.claimed := by
    by_contra he
    exact (h.unclaimed e he).2 d hd
  obtain ⟨-, hnobody⟩ | ⟨hzero, debtor, hdebtor⟩ := h.claimed e hclaimed
  · exact absurd hd (hnobody d)
  have hsole : ∀ d', l.debt d' = some e → d' = d :=
    fun d' hd' => ((hdebtor d').1 hd').trans ((hdebtor d).1 hd).symm
  have hother : ∀ {x : ι}, x ≠ e → ∀ d', (l.pay d e).debt d' = some x ↔
      l.debt d' = some x := by
    intro x hne d'
    change Function.update l.debt d none d' = some x ↔ _
    by_cases hd' : d' = d
    · rw [hd', Function.update_self, hd]
      exact ⟨(fun hno => by cases hno),
        fun hex => absurd (Option.some.inj hex).symm hne⟩
    · rw [Function.update_of_ne hd']
  have hpaid : ∀ {x : ι}, x ≠ e → (l.pay d e).paid x = l.paid x :=
    fun hne => Function.update_of_ne hne _ _
  constructor
  · intro x hx
    have hne : x ≠ e := fun heq => hx (heq ▸ hclaimed)
    rw [hpaid hne]
    exact ⟨(h.unclaimed x hx).1,
      fun d' hd' => (h.unclaimed x hx).2 d' ((hother hne d').1 hd')⟩
  · intro x hx
    by_cases hxe : x = e
    · subst hxe
      refine .inl ⟨?_, fun d' hd' => ?_⟩
      · change Function.update l.paid x _ x = 1
        rw [Function.update_self, hzero]
      · change Function.update l.debt d none d' = some x at hd'
        by_cases hdd : d' = d
        · rw [hdd, Function.update_self] at hd'
          cases hd'
        · rw [Function.update_of_ne hdd] at hd'
          exact hdd (hsole d' hd')
    · rw [hpaid hxe]
      obtain ⟨hone, hnobody⟩ | ⟨hnone, debtor', hdebtor'⟩ := h.claimed x hx
      · exact .inl ⟨hone, fun d' hd' => hnobody d' ((hother hxe d').1 hd')⟩
      · exact .inr ⟨hnone, debtor',
          fun d' => (hother hxe d').trans (hdebtor' d')⟩

/-- Nothing that may happen makes a ledger unsound. -/
theorem Sound.next (h : l.Sound) (hnext : Next l l') : l'.Sound := by
  cases hnext with
  | settle he => exact h.settle he
  | owe he hd => exact h.owe he hd
  | pay hd => exact h.pay hd

end Ledger

end CodeRs

/-! ## One token and its claims

Parties count the claims they have on one token, and the token records at most
one owner. While every party with a claim is the owner, no two parties have
claims.  The steps below preserve this; the only delicate one takes the token
away from its owner. -/

namespace CodeRs

variable {ι : Type*}

/-- Whoever has a claim has one claim and is the owner. -/
def Owned (claims : ι → ℕ) (owner : Option ι) : Prop :=
  ∀ i, 0 < claims i → claims i = 1 ∧ owner = some i

variable {claims : ι → ℕ} {owner : Option ι}

theorem Owned.unique (h : Owned claims owner) {i j : ι} (hi : 0 < claims i)
    (hj : 0 < claims j) : i = j := by
  have howner : some i = some j := (h i hi).2.symm.trans (h j hj).2
  exact Option.some.inj howner

/-- A step on the claims and the owner. -/
inductive TokenStep (claims : ι → ℕ) (owner : Option ι) :
    (ι → ℕ) → Option ι → Prop
  /-- The owner stays, and claims can only be lost. -/
  | keeps {claims'} (hle : ∀ j,
    claims' j ≤ claims j) : TokenStep claims owner claims' owner
  /-- The token is free and a party takes it. -/
  | takes {claims'} (i : ι) (hfree : owner =
    none) (hi : claims' i = claims i + 1)
      (hothers : ∀ j, j ≠ i → claims' j = claims j) :
      TokenStep claims owner claims' (some i)
  /-- A party gives up a claim and frees the token. -/
  | drops {claims'} (i : ι) (hpos : 0 <
    claims i) (hi : claims' i = claims i - 1)
      (hothers : ∀ j, j ≠ i →
        claims' j = claims j) : TokenStep claims owner claims' none
  /-- The token is taken away from an owner without claims. -/
  | clears {claims'} (hle : ∀ j, claims' j ≤ claims j)
      (howner : ∀ i, owner = some i →
        claims i = 0) : TokenStep claims owner claims' none

variable {claims' : ι → ℕ} {owner' : Option ι}

/-- Losing claims keeps what each claim says. -/
theorem Owned.of_le (h : Owned claims owner) (hle : ∀ j, claims' j ≤ claims j) :
    Owned claims' owner := by
  intro j hj
  have hpos : 0 < claims j := Nat.lt_of_lt_of_le hj (hle j)
  obtain ⟨hone, howner⟩ := h j hpos
  refine ⟨?_, howner⟩
  have := hle j
  omega

/-- With a free token nobody has a claim. -/
theorem Owned.eq_zero (h : Owned claims none) (j : ι) : claims j = 0 := by
  by_contra hne
  obtain ⟨-, howner⟩ := h j (Nat.pos_of_ne_zero hne)
  cases howner

theorem TokenStep.owned (hstep : TokenStep claims owner claims' owner')
    (h : Owned claims owner) : Owned claims' owner' := by
  cases hstep with
  | keeps hle => exact h.of_le hle
  | takes i hfree hi hothers =>
      subst hfree
      intro j hj
      by_cases hji : j = i
      · subst hji
        rw [hi, h.eq_zero j]
        exact ⟨rfl, rfl⟩
      · rw [hothers j hji, h.eq_zero j] at hj
        exact absurd hj (Nat.lt_irrefl 0)
  | drops i hpos hi hothers =>
      obtain ⟨hone, -⟩ := h i hpos
      intro j hj
      exfalso
      by_cases hji : j = i
      · subst hji
        rw [hi, hone] at hj
        exact Nat.lt_irrefl 0 hj
      · rw [hothers j hji] at hj
        exact hji (h.unique hj hpos)
  | clears hle howner =>
      intro j hj
      have hpos : 0 < claims j := Nat.lt_of_lt_of_le hj (hle j)
      have hzero := howner j (h j hpos).2
      omega

end CodeRs

/-! ## Nested budgets

Counters with limits, the outermost one first.  Whoever counts one of them up
may set all the inner ones back, so no counter alone says how long this goes
on; the rank, with the counters as the digits of a number, does. -/

namespace CodeRs

/-- A counter, and the value at which it may not be counted up any more. -/
structure Counter where
  limit : ℕ
  used : ℕ

namespace Counter

/-- The numbers of values that the counters have together. -/
def capacity : List Counter → ℕ
  | [] => 1
  | counter :: inner => (counter.limit + 1) * capacity inner

/-- How often the counters can still be counted up. -/
def rank : List Counter → ℕ
  | [] => 0
  | counter :: inner =>
      (counter.limit - counter.used) * capacity inner + rank inner

theorem capacity_congr {counters others : List Counter}
    (h : counters.map limit = others.map limit) :
    capacity counters = capacity others := by
  induction counters generalizing others with
  | nil =>
      cases others with
      | nil => rfl
      | cons other rest => cases h
  | cons counter inner ih =>
      cases others with
      | nil => cases h
      | cons other rest =>
          obtain ⟨hlimit, hrest⟩ := List.cons.inj h
          rw [capacity, capacity, hlimit, ih hrest]

theorem rank_lt_capacity (counters : List Counter) :
    rank counters < capacity counters := by
  induction counters with
  | nil => exact Nat.one_pos
  | cons counter inner ih =>
      have hdigit : (counter.limit - counter.used) * capacity inner ≤
          counter.limit * capacity inner :=
        Nat.mul_le_mul_right _ (Nat.sub_le _ _)
      rw [rank, capacity, Nat.add_mul, Nat.one_mul]
      exact Nat.add_lt_add_of_le_of_lt hdigit ih

/-- Counting a counter up lowers the rank, whatever happens to the inner
ones. -/
theorem rank_count_up {limit used : ℕ} (h : used < limit)
    {inner inner' : List Counter}
    (hlimits : inner'.map Counter.limit = inner.map Counter.limit) :
    rank (⟨limit, used + 1⟩ :: inner') < rank (⟨limit, used⟩ :: inner) := by
  have hcapacity := capacity_congr hlimits
  have hinner := rank_lt_capacity inner'
  obtain ⟨left, hleft⟩ := Nat.exists_eq_add_of_lt h
  have hnew : limit - (used + 1) = left := by omega
  have hold : limit - used = left + 1 := by omega
  rw [rank, rank, hnew, hold, ← hcapacity, Nat.add_mul, Nat.one_mul]
  omega

/-- An inner change that lowers the rank lowers that of all counters. -/
theorem rank_cons_lt {counter : Counter} {inner inner' : List Counter}
    (hlimits : inner'.map Counter.limit = inner.map Counter.limit)
    (h : rank inner' < rank inner) :
    rank (counter :: inner') < rank (counter :: inner) := by
  rw [rank, rank, capacity_congr hlimits]
  exact Nat.add_lt_add_left h _

end Counter

end CodeRs
