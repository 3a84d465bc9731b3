import Mathlib.Algebra.BigOperators.Group.Finset.Basic
import Mathlib.Data.Finset.Filter
import Mathlib.Data.Fintype.Defs
import Mathlib.Data.List.Perm.Basic

/-!
# Serial and commuting updates

Updates of one value in some order, and in any order.
-/

/-! ## Serial updates

Parties rewrite a value, each at most once.  What they leave is serial if it
comes from the first value by the rewrites of the parties that are done, one
after the other in some order.  Where a rewrite adds an amount, the amounts of
all that are done have been added. -/

namespace CodeRs

open scoped BigOperators

variable {ι C : Type*}

/-- The rewrites of some parties, one after the other. -/
def rewrites (rewrite : ι → C → C) (order : List ι) (initial : C) : C :=
  order.foldl (fun c i => rewrite i c) initial

/-- A value comes from the first one by the rewrites of the parties that are
done. -/
def Serial (rewrite : ι → C → C) (initial : C) (done : ι → Prop)
    (current : C) : Prop :=
  ∃ order : List ι, order.Nodup ∧ (∀ i, i ∈ order ↔ done i) ∧
    rewrites rewrite order initial = current

namespace Serial

variable {rewrite : ι → C → C} {initial current : C} {done done' : ι → Prop}

theorem refl (h : ∀ i, ¬ done i) : Serial rewrite initial done initial := by
  refine ⟨[], List.nodup_nil, ?_, rfl⟩
  intro i
  exact ⟨fun hi => absurd hi List.not_mem_nil, fun hi => absurd hi (h i)⟩

theorem congr (h : Serial rewrite initial done current)
    (hdone : ∀ i, done' i ↔ done i) :
    Serial rewrite initial done' current := by
  obtain ⟨order, hnodup, hmem, hcurrent⟩ := h
  exact ⟨order, hnodup, fun i => (hmem i).trans (hdone i).symm, hcurrent⟩

theorem commit (h : Serial rewrite initial done current) {i : ι} (hi : ¬ done i)
    (hdone : ∀ j, done' j ↔ done j ∨ j = i) :
    Serial rewrite initial done' (rewrite i current) := by
  obtain ⟨order, hnodup, hmem, rfl⟩ := h
  refine ⟨order ++ [i], ?_, ?_, ?_⟩
  · rw [List.nodup_append]
    refine ⟨hnodup, List.nodup_singleton i, ?_⟩
    intro j hj k hk
    rw [List.mem_singleton.1 hk]
    rintro rfl
    exact hi ((hmem j).1 hj)
  · intro j
    rw [List.mem_append, List.mem_singleton, hmem, hdone]
  · rw [rewrites, List.foldl_append]
    rfl

variable {M : Type*} [AddCommMonoid M] (measure : C → M) (amount : ι → M)

theorem measure_rewrites
    (hadd : ∀ i c, measure (rewrite i c) = measure c + amount i)
    (order : List ι) (c : C) :
    measure (rewrites rewrite order c) =
      measure c + (order.map amount).sum := by
  induction order generalizing c with
  | nil => exact (add_zero _).symm
  | cons i rest ih =>
      rw [List.map_cons, List.sum_cons, ← add_assoc, ← hadd]
      exact ih (rewrite i c)

theorem measure_eq [Fintype ι] [DecidablePred done]
    (hadd : ∀ i c, measure (rewrite i c) = measure c + amount i)
    (h : Serial rewrite initial done current) :
    measure current = measure initial + ∑ i with done i, amount i := by
  classical
  obtain ⟨order, hnodup, hmem, rfl⟩ := h
  have horder : (Finset.univ.filter done) = order.toFinset := by
    ext i
    simp [hmem]
  rw [measure_rewrites measure amount hadd, horder,
    List.sum_toFinset amount hnodup]

end Serial

end CodeRs

/-! ## Operations that can be done in any order

An operation can be done in some states only.  If two compatible operations can
both be done, then doing one leaves the other possible, and the order does not
matter; and compatible operations stay compatible while others are done.  So a
list of operations that are pairwise compatible can be done in every order,
with one result. -/

namespace CodeRs.Commuting

variable {σ α : Type} (Enabled : σ → α → Prop) (result : α → σ → σ)

/-- Every operation can be done where those before it leave the state. -/
def InTurn : σ → List α → Prop
  | _, [] => True
  | s, a :: rest => Enabled s a ∧ InTurn (result a s) rest

/-- The state after all operations. -/
def runAll (s : σ) (ops : List α) : σ :=
  ops.foldl (fun s a => result a s) s

@[simp] theorem runAll_nil (s : σ) : runAll result s [] = s := rfl

@[simp] theorem runAll_cons (s : σ) (a : α) (rest : List α) :
    runAll result s (a :: rest) = runAll result (result a s) rest := rfl

theorem runAll_append (s : σ) (first second : List α) :
    runAll result s (first ++ second) =
      runAll result (runAll result s first) second :=
  List.foldl_append

theorem inTurn_append {s : σ} {first second : List α} :
    InTurn Enabled result s (first ++ second) ↔
      InTurn Enabled result s first ∧
        InTurn Enabled result (runAll result s first) second := by
  induction first generalizing s with
  | nil => simp [InTurn]
  | cons a rest ih =>
      simp only [List.cons_append, InTurn, runAll_cons, ih, and_assoc]

/-- What compatible operations owe each other, in states with an invariant. -/
structure Diamond (Inv : σ → Prop) (Compatible : σ → α → α → Prop) : Prop where
  /-- Operations keep the invariant. -/
  keeps : ∀ {s a}, Inv s → Enabled s a → Inv (result a s)
  /-- Compatibility is mutual. -/
  symm : ∀ {s a b}, Compatible s a b → Compatible s b a
  /-- An operation leaves compatible ones possible. -/
  enabled : ∀ {s a b}, Inv s → Compatible s a b → Enabled s a → Enabled s b →
    Enabled (result a s) b
  /-- The order of two compatible operations does not matter. -/
  comm : ∀ {s a b}, Inv s → Compatible s a b → Enabled s a → Enabled s b →
    result b (result a s) = result a (result b s)
  /-- Compatible operations stay compatible. -/
  stable : ∀ {s a b c}, Inv s → Compatible s a b → Compatible s a c →
    Compatible s b c →
    Enabled s a → Enabled s b → Enabled s c → Compatible (result a s) b c

/-- All operations can be done at once, as far as the state and they themselves
go. -/
structure Free (Compatible : σ → α → α → Prop) (s : σ)
    (ops : List α) : Prop where
  enabled : ∀ a ∈ ops, Enabled s a
  compatible : ops.Pairwise (Compatible s)

variable {Enabled result} {Inv : σ → Prop} {Compatible : σ → α → α → Prop}

/-- Operations that are free stay so when one of them is done. -/
theorem Diamond.free_tail (d : Diamond Enabled result Inv Compatible)
    {s : σ} {a : α}
    {rest : List α} (hinv : Inv s)
    (hfree : Free Enabled Compatible s (a :: rest)) :
    Free Enabled Compatible (result a s) rest := by
  obtain ⟨henabled, hcompatible⟩ := hfree
  rw [List.forall_mem_cons] at henabled
  rw [List.pairwise_cons] at hcompatible
  constructor
  · intro b hb
    exact d.enabled hinv (hcompatible.1 b hb) henabled.1 (henabled.2 b hb)
  · apply hcompatible.2.imp_of_mem
    intro b c hb hc hbc
    exact d.stable hinv (hcompatible.1 b hb) (hcompatible.1 c hc) hbc henabled.1
      (henabled.2 b hb) (henabled.2 c hc)

theorem Diamond.inTurn (d : Diamond Enabled result Inv Compatible) {s : σ}
    {ops : List α}
    (hinv : Inv s) (hfree : Free Enabled Compatible s ops) :
    InTurn Enabled result s ops := by
  induction ops generalizing s with
  | nil => trivial
  | cons a rest ih =>
      have ha : Enabled s a := hfree.enabled a List.mem_cons_self
      exact ⟨ha, ih (d.keeps hinv ha) (d.free_tail hinv hfree)⟩

end CodeRs.Commuting
