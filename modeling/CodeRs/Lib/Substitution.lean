import CodeRs.Lib.Lists
import Mathlib.Data.List.Sort
import Mathlib.Logic.Function.Iterate

/-!
# Replacing ranges of a list

Ranges of a list are replaced one after the other, the last one first, so that
the positions of the earlier ones stay what they were.  Where the ranges do not
overlap this is the simultaneous substitution, and an element that is in no
range stays behind what becomes of the elements before it.
-/

namespace CodeRs

variable {α β : Type*}

/-! ## A position between two parts -/

/-- Removing the element at a position again and again. -/
theorem iterate_eraseIdx_append_length (before after : List α) (k : ℕ) :
    (fun l : List α => l.eraseIdx before.length)^[k] (before ++ after) =
      before ++ after.drop k := by
  induction k generalizing after with
  | zero => rfl
  | succ k ih =>
      have herase : (before ++ after).eraseIdx before.length =
          before ++ after.drop 1 := by
        rw [List.eraseIdx_append_of_length_le le_rfl, Nat.sub_self,
          List.eraseIdx_zero,
          List.drop_one]
      rw [Function.iterate_succ_apply, herase, ih, List.drop_drop, Nat.add_comm]

/-- A range of a list and what comes in its place. -/
structure Splice (α : Type*) where
  start : ℕ
  len : ℕ
  items : List α

namespace Splice

/-- The position behind the range. -/
def stop (s : Splice α) : ℕ := s.start + s.len

/-- The list with the range replaced. -/
def apply (s : Splice α) (l : List α) : List α :=
  l.take s.start ++ s.items ++ l.drop s.stop

/-- The list with all ranges replaced, the last one first. -/
def applyAll (splices : List (Splice α)) (l : List α) : List α :=
  splices.foldr apply l

/-- The list from a position on with ranges from there on replaced at once. -/
def substitute (l : List α) : ℕ → List (Splice α) → List α
  | pos, [] => l.drop pos
  | pos, s :: rest =>
      (l.drop pos).take (s.start - pos) ++ s.items ++ substitute l s.stop rest

/-- A range ends before another one begins. -/
def Before (a b : Splice α) : Prop := a.stop ≤ b.start

variable {s : Splice α} {splices : List (Splice α)} {l : List α} {n : ℕ}

theorem start_le_stop (s : Splice α) : s.start ≤ s.stop := Nat.le_add_right _ _

@[simp] theorem applyAll_nil (l : List α) : applyAll [] l = l := rfl

@[simp] theorem applyAll_cons (s : Splice α) (splices : List (Splice α))
    (l : List α) :
    applyAll (s :: splices) l = s.apply (applyAll splices l) := rfl

/-! ## What is before the ranges -/

theorem take_apply (hn : n ≤ s.start) (hl : n ≤ l.length) :
    (s.apply l).take n = l.take n ∧ n ≤ (s.apply l).length := by
  have hlen : n ≤ (l.take s.start).length := by
    rw [List.length_take]
    omega
  constructor
  · rw [apply, List.append_assoc, List.take_append_of_le_length hlen,
      List.take_take,
      min_eq_left hn]
  · rw [apply, List.append_assoc, List.length_append]
    omega

theorem take_applyAll (hn : ∀ s ∈ splices, n ≤ s.start) (hl : n ≤ l.length) :
    (applyAll splices l).take n = l.take n ∧
      n ≤ (applyAll splices l).length := by
  induction splices with
  | nil => exact ⟨rfl, hl⟩
  | cons s rest ih =>
      obtain ⟨htake, hlen⟩ := ih fun x hx => hn x (List.mem_cons_of_mem s hx)
      obtain ⟨htake', hlen'⟩ := take_apply (hn s List.mem_cons_self) hlen
      exact ⟨htake'.trans htake, hlen'⟩

/-! ## The simultaneous substitution -/

/-- Ranges that do not overlap are replaced as if at once. -/
theorem applyAll_eq_substitute (hsep : splices.Pairwise Before)
    (hbound : ∀ s ∈ splices, s.stop ≤ l.length) : applyAll splices l =
    substitute l 0 splices := by
  have hfrom : ∀ pos, (∀ s ∈ splices, pos ≤ s.start) →
      applyAll splices l = l.take pos ++ substitute l pos splices := by
    induction splices with
    | nil => exact fun pos _ => (List.take_append_drop pos l).symm
    | cons s rest ih =>
        intro pos hpos
        obtain ⟨hfirst, hrest⟩ := List.pairwise_cons.1 hsep
        have hstop : s.stop ≤ l.length := hbound s List.mem_cons_self
        have hstart : s.start ≤ s.stop := s.start_le_stop
        have hlen : (l.take s.stop).length = s.stop := by
          rw [List.length_take, min_eq_left hstop]
        rw [applyAll_cons,
          ih hrest (fun x hx => hbound x (List.mem_cons_of_mem s hx)) s.stop
          hfirst, apply, substitute]
        have htake : (l.take s.stop ++ substitute l s.stop rest).take s.start =
            l.take s.start := by
          rw [List.take_append_of_le_length (by omega), List.take_take,
            min_eq_left hstart]
        have hdrop : (l.take s.stop ++ substitute l s.stop rest).drop s.stop =
            substitute l s.stop rest := List.drop_left' hlen
        have hpos' : pos ≤ s.start := hpos s List.mem_cons_self
        have hsplit : l.take s.start =
            l.take pos ++ (l.drop pos).take (s.start - pos) := by
          rw [← List.take_add, Nat.add_sub_cancel' hpos']
        rw [htake, hdrop, hsplit, List.append_assoc, List.append_assoc,
          List.append_assoc]
  exact hfrom 0 fun _ _ => Nat.zero_le _

/-- What comes in the place of a range is in the result. -/
theorem items_infix_substitute (hs : s ∈ splices) (pos : ℕ) :
    s.items <:+: substitute l pos splices := by
  induction splices generalizing pos with
  | nil => cases hs
  | cons first rest ih =>
      rw [substitute]
      rcases List.mem_cons.1 hs with rfl | hs
      · exact ⟨_, _, rfl⟩
      · exact (ih hs first.stop).trans (List.suffix_append _ _).isInfix

/-! ## An element in no range -/

theorem apply_append (hs : s.stop ≤ l.length) (later : List α) :
    s.apply (l ++ later) = s.apply l ++ later := by
  have hstart := s.start_le_stop
  rw [apply, apply, List.take_append_of_le_length (by omega),
    List.drop_append_of_le_length hs,
    List.append_assoc, List.append_assoc, List.append_assoc]

/-- An element that is in no range stays behind what the ranges before it make
of the elements before it, if these ranges do not overlap. -/
theorem applyAll_at {before : List α} (x : α) (later : List α)
    (hsorted : splices.Pairwise fun a b => a.start ≤ b.start)
    (hoff : ∀ s ∈ splices, s.stop ≤ before.length ∨ before.length < s.start)
    (hsep : (splices.filter fun s => s.stop ≤ before.length).Pairwise Before) :
    ∃ back, applyAll splices (before ++ x :: later) =
      applyAll (splices.filter fun s => s.stop ≤ before.length) before ++
        x :: back := by
  induction splices with
  | nil => exact ⟨later, rfl⟩
  | cons s rest ih =>
      obtain ⟨hfirst, hrest⟩ := List.pairwise_cons.1 hsorted
      have hoff' := fun a ha => hoff a (List.mem_cons_of_mem s ha)
      rw [applyAll_cons]
      cases hoff s List.mem_cons_self with
      | inl hstop =>
          rw [List.filter_cons_of_pos (by simpa using hstop)] at hsep ⊢
          obtain ⟨hnext, hsep'⟩ := List.pairwise_cons.1 hsep
          obtain ⟨back, hback⟩ := ih hrest hoff' hsep'
          obtain ⟨-, hlen⟩ := take_applyAll hnext hstop
          rw [hback, apply_append hlen]
          exact ⟨back, rfl⟩
      | inr hstart =>
          have hnone : ∀ a ∈ rest,
              ¬ (decide (a.stop ≤ before.length)) = true := by
            intro a ha
            have hle := hfirst a ha
            have hstop := a.start_le_stop
            simp only [decide_eq_true_eq]
            omega
          have hneg : ¬ s.stop ≤ before.length := by
            have hstop := s.start_le_stop
            omega
          rw [List.filter_cons_of_neg (by simpa using hneg),
            List.filter_eq_nil_iff.2 hnone]
          obtain ⟨back, hback⟩ := ih hrest hoff' <| by
            rw [List.filter_eq_nil_iff.2 hnone]
            exact .nil
          rw [List.filter_eq_nil_iff.2 hnone] at hback
          obtain ⟨k, hk⟩ := Nat.exists_eq_add_of_lt hstart
          have htake : (before ++ x :: back).take s.start =
              before ++ x :: back.take k := by
            rw [hk, Nat.add_assoc, List.take_length_add_append,
              List.take_succ_cons]
          refine ⟨back.take k ++ s.items ++ (before ++ x :: back).drop s.stop,
            ?_⟩
          rw [hback, applyAll_nil, apply, htake]
          simp

end Splice

/-! ## Sorting by the start -/

/-- Ranges of a kind that do not overlap, whatever their order is, are in order
when they are sorted by where they begin, where one that is empty comes before
one that begins at its place. -/
theorem pairwise_insertionSort_start {start stop : β → ℕ}
    (hle : ∀ a, start a ≤ stop a)
    {Q : β → Prop} {l : List β}
    (h : l.Pairwise fun a b => Q a → Q b →
      stop a ≤ start b ∨ (stop b ≤ start a ∧ start b < start a)) :
    (l.insertionSort fun a b => start a ≤ start b).Pairwise fun a b =>
      Q a → Q b → stop a ≤ start b := by
  induction l with
  | nil => exact .nil
  | cons a l ih =>
      obtain ⟨ha, hl⟩ := List.pairwise_cons.1 h
      have hmem : ∀ b ∈ l.insertionSort fun a b => start a ≤ start b,
          Q a → Q b → stop a ≤ start b ∨
            (stop b ≤ start a ∧ start b < start a) :=
        fun b hb => ha b ((List.mem_insertionSort _).1 hb)
      have hsorted : (l.insertionSort fun a b => start a ≤ start b).Pairwise
          fun a b => start a ≤ start b := List.pairwise_insertionSort _ l
      rw [List.insertionSort_cons]
      have hrest := ih hl
      generalize (l.insertionSort fun a b => start a ≤ start b) =
        sorted at hmem hsorted hrest
      induction sorted with
      | nil => exact List.pairwise_singleton _ _
      | cons b sorted ih =>
          obtain ⟨hb, hsorted'⟩ := List.pairwise_cons.1 hsorted
          obtain ⟨hb', hrest'⟩ := List.pairwise_cons.1 hrest
          rw [List.orderedInsert_cons]
          split
          next hab =>
            refine List.pairwise_cons.2 ⟨fun c hc hQa hQc => ?_, hrest⟩
            have hac : start a ≤ start c := by
              rcases List.mem_cons.1 hc with rfl | hc
              · exact hab
              · exact hab.trans (hb c hc)
            rcases hmem c hc hQa hQc with hstop | ⟨-, hlt⟩
            · exact hstop
            · omega
          next hab =>
            refine List.pairwise_cons.2 ⟨fun c hc hQb hQc => ?_,
              ih (fun c hc => hmem c (List.mem_cons_of_mem b hc))
                hsorted' hrest'⟩
            rcases (List.mem_orderedInsert (fun a b => start a ≤
              start b)).1 hc with rfl | hc
            · rcases hmem b List.mem_cons_self hQc hQb with hstop | ⟨hstop, -⟩
              · have hstart := hle c
                omega
              · exact hstop
            · exact hb' c hc hQb hQc

end CodeRs
