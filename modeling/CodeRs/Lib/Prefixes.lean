import Mathlib.Algebra.BigOperators.Group.List.Basic
import Mathlib.Algebra.Order.Monoid.Canonical.Defs
import Mathlib.Data.List.Infix

/-!
# Prefixes and suffixes of a list

What a scan from one end of a list keeps.
-/

/-! ## The first prefix to reach a weight

A scan that adds up weights and stops at the first one with which the running
sum reaches a target.  The prefixes that end behind the place where it stops
are the ones whose own sum reaches the target. -/

namespace CodeRs.Prefixes

variable {ω : Type*} [AddCommMonoid ω] [LinearOrder ω]

/-- The position at which a running sum reaches the target. -/
def firstReaching (target : ω) : ω → List ω → Option ℕ
  | _, [] => none
  | running, weight :: rest =>
      if target ≤ running + weight then some 0
      else (firstReaching target (running + weight) rest).map (· + 1)

variable {target running : ω} {weights : List ω} {i : ℕ}

theorem firstReaching_lt_length
    (h : firstReaching target running weights = some i) :
    i < weights.length := by
  induction weights generalizing running i with
  | nil => cases h
  | cons weight rest ih =>
      rw [firstReaching] at h
      split at h
      · cases h
        exact Nat.succ_pos _
      · obtain ⟨offset, hoffset, rfl⟩ := Option.map_eq_some_iff.1 h
        exact Nat.succ_lt_succ (ih hoffset)

/-- The scan stops if the whole list reaches the target. -/
theorem exists_firstReaching (hlt : running < target)
    (h : target ≤ running + weights.sum) :
    ∃ i, firstReaching target running weights = some i := by
  induction weights generalizing running with
  | nil =>
      rw [List.sum_nil, add_zero] at h
      exact absurd h hlt.not_ge
  | cons weight rest ih =>
      rw [firstReaching]
      by_cases hreached : target ≤ running + weight
      · exact ⟨0, if_pos hreached⟩
      · rw [List.sum_cons, ← add_assoc] at h
        obtain ⟨offset, hoffset⟩ := ih (not_le.1 hreached) h
        exact ⟨offset + 1, by rw [if_neg hreached, hoffset, Option.map_some]⟩

/-- A prefix ends behind the place where the scan stops exactly if it reaches
the target. -/
theorem firstReaching_lt_iff [CanonicallyOrderedAdd ω] (hlt : running < target)
    (h : firstReaching target running weights = some i) (j : ℕ) :
    i < j ↔ target ≤ running + (weights.take j).sum := by
  induction weights generalizing running i j with
  | nil => cases h
  | cons weight rest ih =>
      rw [firstReaching] at h
      cases j with
      | zero =>
          rw [List.take_zero, List.sum_nil, add_zero]
          exact iff_of_false (Nat.not_lt_zero i) hlt.not_ge
      | succ j =>
          rw [List.take_succ_cons, List.sum_cons, ← add_assoc]
          split at h
          · rename_i hreached
            cases h
            exact iff_of_true (Nat.succ_pos j) (hreached.trans le_self_add)
          · rename_i hshort
            obtain ⟨offset, hoffset, rfl⟩ := Option.map_eq_some_iff.1 h
            exact Nat.succ_lt_succ_iff.trans (ih (not_le.1 hshort) hoffset j)

end CodeRs.Prefixes

/-! ## The longest suffix that fits

A scan from the end of a list takes elements for as long as what it has fits.
Where every suffix of a list that fits does so too, what the scan takes is the
longest one. -/

namespace CodeRs.Suffixes

variable {α : Type*} {fits : List α → Prop} {run older l : List α}

/-- Take elements in front of what fits, the nearest ones first. -/
def grow (fits : List α → Prop) [DecidablePred fits] (run : List α) :
    List α → List α
  | [] => run
  | x :: older => if fits (x :: run) then grow fits (x :: run) older else run

/-- The longest suffix of a list that fits. -/
structure IsLongestSuffix (fits : List α → Prop) (l run : List α) : Prop where
  suffix : run <:+ l
  holds : fits run
  longest : ∀ other, other <:+ l → fits other → other <:+ run

/-- What the scan has taken and could not take more of is the longest suffix. -/
theorem grow_isLongestSuffix [DecidablePred fits]
    (hmono : ∀ s t, fits t → s <:+ t → fits s) (hrun : fits run) :
    IsLongestSuffix fits (older.reverse ++ run) (grow fits run older) := by
  induction older generalizing run with
  | nil => exact ⟨List.suffix_refl run, hrun, fun other hother _ => hother⟩
  | cons x older ih =>
      rw [List.reverse_cons, List.append_assoc, List.singleton_append, grow]
      by_cases hfits : fits (x :: run)
      · rw [if_pos hfits]
        exact ih hfits
      · rw [if_neg hfits]
        have hnext : x :: run <:+ older.reverse ++ x :: run :=
          List.suffix_append _ _
        refine ⟨(List.suffix_cons x run).trans hnext, hrun,
          fun other hother hfits' => ?_⟩
        -- a longer suffix has the element that did not fit
        rcases List.suffix_or_suffix_of_suffix hother hnext with hle | hle
        · rcases List.suffix_cons_iff.1 hle with rfl | hle
          · exact absurd hfits' hfits
          · exact hle
        · exact absurd (hmono _ _ hfits' hle) hfits

/-- The last element is taken if it fits alone. -/
theorem IsLongestSuffix.getLast?_eq (h : IsLongestSuffix fits l run)
    (hone : ∀ x, fits [x]) : run.getLast? = l.getLast? := by
  cases hl : l.getLast? with
  | none =>
      rw [List.getLast?_eq_none_iff] at hl
      subst hl
      rw [List.suffix_nil.1 h.suffix]
      rfl
  | some last =>
      obtain ⟨front, rfl⟩ := List.getLast?_eq_some_iff.1 hl
      obtain ⟨taken, rfl⟩ :=
        h.longest [last] (List.suffix_append _ _) (hone last)
      rw [List.getLast?_append, List.getLast?_singleton, Option.some_or]

end CodeRs.Suffixes

/-! ## Input in fragments

A consumer takes its input in fragments.  Where it ends depends on the whole
input alone if it does not matter for any beginning of the input where this is
cut in two. -/

namespace CodeRs

variable {σ α : Type*} (push : σ → List α → σ) (s : σ)

/-- It does not matter where the input is cut in two. -/
def Cuttable (input : List α) : Prop :=
  ∀ x y, input = x ++ y → push (push s x) y = push s input

/-- It does not matter how the input is cut. -/
def FragmentInvariant (input : List α) : Prop :=
  ∀ fragments others : List (List α), fragments.flatten = input →
    others.flatten = input →
    fragments.foldl push s = others.foldl push s

variable {push s}

/-- Fragments of a list whose beginnings can be cut have the effect of the
list. -/
theorem foldl_push_eq (hnil : push s [] = s) {fragments : List (List α)}
    (h : ∀ u, u <+: fragments.flatten → Cuttable push s u) :
    fragments.foldl push s = push s fragments.flatten := by
  induction fragments using List.reverseRecOn with
  | nil => exact hnil.symm
  | append_singleton fragments fragment ih =>
      rw [List.flatten_append, List.flatten_singleton] at h ⊢
      rw [List.foldl_append, List.foldl_cons, List.foldl_nil,
        ih fun u hu => h u (hu.trans (List.prefix_append _ _))]
      exact h _ (List.prefix_refl _) _ _ rfl

theorem FragmentInvariant.of_cuttable (hnil : push s [] = s) {input : List α}
    (h : ∀ u, u <+: input →
      Cuttable push s u) : FragmentInvariant push s input := by
  rintro fragments others rfl hothers
  rw [foldl_push_eq hnil h, foldl_push_eq hnil (hothers.symm ▸ h), hothers]

theorem FragmentInvariant.cuttable {input : List α}
    (h : FragmentInvariant push s input) :
    Cuttable push s input := by
  rintro x y rfl
  exact h [x, y] [x ++ y] (by simp) (by simp)

end CodeRs
