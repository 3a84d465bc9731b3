import Mathlib.Algebra.Order.Group.Nat
import Mathlib.Data.List.Basic
import Mathlib.Data.List.Infix

/-!
# Searching

## A pattern in a text that comes in pieces

`find` gives the first position of a pattern.  A search over a text that is not
complete holds back the longest end of it that may be the beginning of the
pattern, its overlap, and releases what is before.  Searching what was held
back together with the next piece then finds what a search of the whole text
finds.
-/

namespace CodeRs.Search

variable {α : Type*} [DecidableEq α]

/-- `str::find`: the first position of a pattern. -/
def find (pattern : List α) : List α → Option ℕ
  | [] => if pattern = [] then some 0 else none
  | c :: rest =>
      if pattern.isPrefixOf (c :: rest) then some 0
        else (find pattern rest).map (· + 1)

/-- The numbers up to a bound from the largest to one. -/
def downFrom (bound : ℕ) : List ℕ := ((List.range bound).map (· + 1)).reverse

theorem mem_downFrom {bound m : ℕ} :
    m ∈ downFrom bound ↔ 0 < m ∧ m ≤ bound := by
  rw [downFrom, List.mem_reverse, List.mem_map]
  constructor
  · rintro ⟨n, hn, rfl⟩
    exact ⟨Nat.succ_pos n, List.mem_range.1 hn⟩
  · rintro ⟨hpos, hle⟩
    exact ⟨m - 1, List.mem_range.2 (by omega), by omega⟩

theorem pairwise_downFrom (bound : ℕ) : (downFrom bound).Pairwise (· > ·) := by
  rw [downFrom, List.pairwise_reverse]
  exact List.Pairwise.map _ (fun _ _ => Nat.succ_lt_succ) List.pairwise_lt_range

/-- The length of the longest end of `input` that is a proper beginning of
`pattern`. -/
def overlap (input pattern : List α) : ℕ :=
  ((downFrom (min input.length (pattern.length - 1))).find? fun len =>
    (pattern.take len).isSuffixOf input).getD 0

variable {pattern : List α}

/-! ## The first position -/

/-- Skipping positions at which the pattern does not begin. -/
theorem find_drop (hne : pattern ≠ []) {t : List α} {n : ℕ}
    (h : ∀ j < n, ¬ pattern <+: t.drop j) :
    find pattern t = (find pattern (t.drop n)).map (· + n) := by
  induction n generalizing t with
  | zero => simp
  | succ n ih =>
      cases t with
      | nil => simp [find, hne]
      | cons c rest =>
          have hhead : ¬ pattern <+: c :: rest := h 0 (Nat.succ_pos n)
          have htail := ih (t := rest) fun j hj =>
            h (j + 1) (Nat.succ_lt_succ hj)
          rw [find, if_neg (by simpa using hhead), htail, List.drop_succ_cons,
            Option.map_map]
          rfl

theorem find_eq_none (hne : pattern ≠ []) {t : List α} :
    find pattern t = none ↔ ∀ j, ¬ pattern <+: t.drop j := by
  induction t with
  | nil => simp [find, hne]
  | cons c rest ih =>
      by_cases hhead : pattern <+: c :: rest
      · rw [find, if_pos (by simpa using hhead)]
        exact ⟨fun h => (by cases h), fun h => absurd hhead (h 0)⟩
      · rw [find, if_neg (by simpa using hhead), Option.map_eq_none_iff, ih]
        constructor
        · intro h j
          cases j with
          | zero => exact hhead
          | succ j => exact h j
        · exact fun h j => h (j + 1)

theorem find_eq_some (hne : pattern ≠ []) {t : List α} {i : ℕ} :
    find pattern t = some i ↔
      pattern <+: t.drop i ∧ ∀ j < i, ¬ pattern <+: t.drop j := by
  constructor
  · intro h
    induction t generalizing i with
    | nil => simp [find, hne] at h
    | cons c rest ih =>
        by_cases hhead : pattern <+: c :: rest
        · rw [find, if_pos (by simpa using hhead)] at h
          cases h
          exact ⟨hhead, fun j hj => absurd hj (Nat.not_lt_zero j)⟩
        · rw [find, if_neg (by simpa using hhead)] at h
          obtain ⟨i, hi, rfl⟩ := Option.map_eq_some_iff.1 h
          obtain ⟨hfound, hfirst⟩ := ih hi
          refine ⟨hfound, fun j hj => ?_⟩
          cases j with
          | zero => exact hhead
          | succ j => exact hfirst j (Nat.lt_of_succ_lt_succ hj)
  · rintro ⟨hfound, hfirst⟩
    rw [find_drop hne hfirst]
    cases hdrop : t.drop i with
    | nil =>
        rw [hdrop, List.prefix_nil] at hfound
        exact absurd hfound hne
    | cons c rest =>
        rw [hdrop] at hfound
        rw [find, if_pos (by simpa using hfound), Option.map_some, Nat.zero_add]

/-- A text that the pattern is found in, cut there. -/
theorem eq_append_of_find (hne : pattern ≠ []) {t : List α} {i : ℕ}
    (h : find pattern t = some i) :
    t = t.take i ++ (pattern ++ t.drop (i + pattern.length)) := by
  obtain ⟨after, hafter⟩ := ((find_eq_some hne).1 h).1
  have hdrop : t.drop (i + pattern.length) = after := by
    rw [← List.drop_drop, ← hafter, List.drop_left]
  rw [hdrop, hafter, List.take_append_drop]

/-- What is found stays found when the text goes on. -/
theorem find_append (hne : pattern ≠ []) {a : List α} {i : ℕ}
    (h : find pattern a = some i)
    (b : List α) : find pattern (a ++ b) = some i := by
  obtain ⟨hfound, hfirst⟩ := (find_eq_some hne).1 h
  have hlength : pattern.length ≤ a.length - i := by
    simpa using hfound.length_le
  have hpos : 0 < pattern.length := List.length_pos_iff.2 hne
  have hdrop : ∀ j ≤ i, (a ++ b).drop j = a.drop j ++ b := fun j hj =>
    List.drop_append_of_le_length (by omega)
  refine (find_eq_some hne).2 ⟨?_, fun j hj hbegins => hfirst j hj ?_⟩
  · rw [hdrop i (Nat.le_refl i)]
    exact List.prefix_append_of_prefix hfound
  · rw [hdrop j (Nat.le_of_lt hj)] at hbegins
    exact (List.isPrefix_append_of_length (by rw [List.length_drop]; omega)).1
      hbegins

/-! ## The overlap -/

/-- The longest end of `input` that is a proper beginning of `pattern` has
length `k`. -/
structure IsOverlap (input pattern : List α) (k : ℕ) : Prop where
  suffix : pattern.take k <:+ input
  proper : k < pattern.length
  longest : ∀ m < pattern.length, pattern.take m <:+ input → m ≤ k

omit [DecidableEq α] in
theorem IsOverlap.le_length {input : List α} {k : ℕ}
    (h : IsOverlap input pattern k) :
    k ≤ input.length := by
  have hlength := h.suffix.length_le
  rwa [List.length_take_of_le (Nat.le_of_lt h.proper)] at hlength

omit [DecidableEq α] in
theorem IsOverlap.unique {input : List α} {k m : ℕ}
    (hk : IsOverlap input pattern k)
    (hm : IsOverlap input pattern m) : k = m :=
  Nat.le_antisymm (hm.longest k hk.proper hk.suffix)
    (hk.longest m hm.proper hm.suffix)

/-- The search from the longest candidate finds the overlap. -/
theorem isOverlap_overlap (hne : pattern ≠ []) (input : List α) :
    IsOverlap input pattern (overlap input pattern) := by
  have hpos : 0 < pattern.length := List.length_pos_iff.2 hne
  have hcandidate : ∀ m, 0 < m → m < pattern.length → pattern.take m <:+ input →
      m ∈ downFrom (min input.length (pattern.length - 1)) := by
    intro m hm hproper hsuffix
    have hlength := hsuffix.length_le
    rw [List.length_take_of_le (Nat.le_of_lt hproper)] at hlength
    exact mem_downFrom.2 ⟨hm, by omega⟩
  have hsorted := pairwise_downFrom (min input.length (pattern.length - 1))
  cases hfind : (downFrom (min input.length (pattern.length - 1))).find?
      (fun len => (pattern.take len).isSuffixOf input) with
  | none =>
      have hzero : overlap input pattern = 0 := by
        rw [overlap, hfind, Option.getD_none]
      rw [hzero]
      refine ⟨by simp, hpos, fun m hproper hsuffix => ?_⟩
      by_contra hm
      have hmem := hcandidate m (Nat.pos_of_ne_zero (by omega)) hproper hsuffix
      exact List.find?_eq_none.1 hfind m hmem (by simpa using hsuffix)
  | some k =>
      have hk : overlap input pattern = k := by
        rw [overlap, hfind, Option.getD_some]
      obtain ⟨hsuffix, before, after, hsplit, hbefore⟩ :=
        List.find?_eq_some_iff_append.1 hfind
      have hkmem :=
        mem_downFrom.1 (hsplit ▸
          List.mem_append_right before (List.mem_cons_self ..))
      rw [hk]
      refine ⟨by simpa using hsuffix, by omega, fun m hproper hm => ?_⟩
      by_contra hless
      -- A longer candidate would come before `k` and would have been taken.
      have hmem := hcandidate m (by omega) hproper hm
      rw [hsplit, List.mem_append, List.mem_cons] at hmem
      rw [hsplit, List.pairwise_append] at hsorted
      rcases hmem with hmem | rfl | hmem
      · have hnot := hbefore m hmem
        rw [List.isSuffixOf_iff_suffix.2 hm] at hnot
        cases hnot
      · exact hless (Nat.le_refl _)
      · have hgt := (List.pairwise_cons.1 hsorted.2.1).1 m hmem
        omega

/-! ## Searching on -/

omit [DecidableEq α] in
theorem IsOverlap.le_of_begins {a : List α} {k : ℕ}
    (h : IsOverlap a pattern k) {b : List α}
    {j : ℕ} (hshort : a.length - j < pattern.length)
    (hbegins : pattern <+: a.drop j ++ b) : a.length - j ≤ k := by
  apply h.longest _ hshort
  have hend : a.drop j <+: pattern := by
    refine List.prefix_of_prefix_length_le (List.prefix_append _ b) hbegins ?_
    rw [List.length_drop]
    exact Nat.le_of_lt hshort
  have hlength : (a.drop j).length = a.length - j := List.length_drop ..
  rw [← hlength, ← List.prefix_iff_eq_take.1 hend]
  exact List.drop_suffix j a

/-- Where nothing is found, the search goes on with what the overlap holds
back. -/
theorem find_append_of_none (hne : pattern ≠ []) {a : List α}
    (hnone : find pattern a = none)
    {k : ℕ} (hk : IsOverlap a pattern k) (b : List α) :
    find pattern (a ++ b) =
      (find pattern (a.drop (a.length - k) ++ b)).map (· + (a.length - k)) := by
  have hdrop : ∀ j ≤ a.length, (a ++ b).drop j = a.drop j ++ b := fun j hj =>
    List.drop_append_of_le_length hj
  rw [find_drop hne (n := a.length - k), hdrop _ (Nat.sub_le _ _)]
  intro j hj hbegins
  rw [hdrop j (by omega)] at hbegins
  by_cases hshort : a.length - j < pattern.length
  · have hle := hk.le_of_begins hshort hbegins
    omega
  · have hinside : pattern <+: a.drop j :=
      (List.isPrefix_append_of_length (by rw [List.length_drop]; omega)).1
        hbegins
    exact (find_eq_none hne).1 hnone j hinside

omit [DecidableEq α] in
/-- The overlap of a longer text is the overlap of what was held back and the
rest. -/
theorem IsOverlap.append {a b : List α} {k m : ℕ} (hk : IsOverlap a pattern k)
    (hm : IsOverlap (a.drop (a.length - k) ++ b) pattern m) :
    IsOverlap (a ++ b) pattern m := by
  have hkle := hk.le_length
  have hsuffix : a.drop (a.length - k) ++ b <:+ a ++ b :=
    List.suffix_append_self_iff.2 (List.drop_suffix _ a)
  refine ⟨hm.suffix.trans hsuffix, hm.proper, fun n hn hend => ?_⟩
  have hlength : (pattern.take n).length = n :=
    List.length_take_of_le (Nat.le_of_lt hn)
  by_cases hshort : n ≤ k + b.length
  · apply hm.longest n hn
    refine List.suffix_of_suffix_length_le hend hsuffix ?_
    rw [hlength, List.length_append, List.length_drop]
    omega
  · -- The end would begin in `a` before the overlap.
    exfalso
    have hb : b <:+ pattern.take n := by
      refine List.suffix_of_suffix_length_le (List.suffix_append a b) hend ?_
      rw [hlength]
      omega
    obtain ⟨s, hs⟩ := hb
    have hslength : s.length = n - b.length := by
      rw [← hlength, ← hs, List.length_append, Nat.add_sub_cancel]
    have hsa : s <:+ a := by
      rw [← hs] at hend
      exact List.suffix_append_self_iff.1 hend
    have hbegins : s = pattern.take (n - b.length) := by
      have hbeginning : s <+: pattern.take n := ⟨b, hs⟩
      rw [← hslength]
      exact List.prefix_iff_eq_take.1
        (hbeginning.trans (List.take_prefix n pattern))
    have hle := hk.longest (n - b.length) (by omega) (hbegins ▸ hsa)
    omega

end CodeRs.Search

/-! ## Binary search

`slice::binary_search_by`: a search that halves a range and looks at one
element of it at a time.  On a list whose elements compare as smaller first,
then at most once as equal, then as greater, it finds the element or the place
for it. -/

namespace CodeRs

variable {α : Type*} (cmp : α → Ordering) (l : List α)

/-- The loop of `binary_search_by`: it narrows a range down to one place. -/
def searchBase (base size : ℕ) : ℕ :=
  if 1 < size then
    let half := size / 2
    let mid := base + half
    let base := match l[mid]? with
      | some x => if cmp x = .gt then base else mid
      | none => base
    searchBase base (size - half)
  else base
termination_by size
decreasing_by omega

/-- `binary_search_by`: the place of an element that is equal, or the place for
one. -/
def binarySearchBy : Except ℕ ℕ :=
  let base := searchBase cmp l 0 l.length
  match l[base]? with
  | none => .error 0
  | some x =>
      match cmp x with
      | .eq => .ok base
      | .lt => .error (base + 1)
      | .gt => .error base

variable {cmp} {front back : List α}

/-- The loop comes to the last element that is not greater, if there is one. -/
theorem searchBase_eq (hfront : ∀ x ∈ front, cmp x ≠ .gt)
    (hback : ∀ x ∈ back, cmp x = .gt)
    {base size : ℕ} (hsize : 0 < size)
    (hend : base + size ≤ (front ++ back).length)
    (hbase : base < front.length ∨ base = 0)
    (hlast : front.length ≤ base + size) :
    searchBase cmp (front ++ back) base size = front.length - 1 := by
  induction size using Nat.strong_induction_on generalizing base with
  | _ size ih =>
      rw [searchBase]
      split
      next hlarge =>
        have hmid : base + size / 2 < (front ++ back).length := by omega
        simp only
        rw [List.getElem?_eq_getElem hmid]
        simp only
        rcases Nat.lt_or_ge (base + size / 2) front.length with hlt | hge
        · have hnot : cmp (front ++ back)[base + size / 2] ≠ .gt := by
            rw [List.getElem_append_left hlt]
            exact hfront _ (List.getElem_mem _)
          rw [if_neg hnot]
          exact ih (size - size / 2) (by omega) (by omega) (by
            omega) (Or.inl hlt) (by omega)
        · have hgt : cmp (front ++ back)[base + size / 2] = .gt := by
            rw [List.getElem_append_right hge]
            exact hback _ (List.getElem_mem _)
          rw [if_pos hgt]
          exact ih (size - size / 2) (by omega) (by omega) (by
            omega) hbase (by omega)
      next hsmall => omega

theorem searchBase_whole (hfront : ∀ x ∈ front, cmp x ≠ .gt)
    (hback : ∀ x ∈ back, cmp x = .gt)
    (h : front ++ back ≠ []) :
    searchBase cmp (front ++ back) 0 (front ++ back).length =
      front.length - 1 := by
  have hpos := List.length_pos_iff.2 h
  refine searchBase_eq hfront hback hpos (by omega) (Or.inr rfl) ?_
  rw [List.length_append]
  omega

theorem binarySearchBy_found {x : α} (hfront : ∀ y ∈ front, cmp y = .lt)
    (hx : cmp x = .eq)
    (hback : ∀ y ∈ back, cmp y = .gt) :
    binarySearchBy cmp (front ++ x :: back) = .ok front.length := by
  have hupto : ∀ y ∈ front ++ [x], cmp y ≠ .gt := by
    intro y hy
    rcases List.mem_append.1 hy with hmem | hmem
    · rw [hfront y hmem]
      exact Ordering.noConfusion
    · rw [List.mem_singleton.1 hmem, hx]
      exact Ordering.noConfusion
  have hlength : (front ++ [x]).length - 1 = front.length := by simp
  have hbase := searchBase_whole hupto hback (by simp)
  rw [hlength, List.append_assoc, List.singleton_append] at hbase
  simp only [binarySearchBy, hbase,
    List.getElem?_append_right (Nat.le_refl _), Nat.sub_self,
    List.getElem?_cons_zero, hx]

/-- Without an element that is equal, the place behind the smaller ones is
found. -/
theorem binarySearchBy_missing (hfront : ∀ y ∈ front, cmp y = .lt)
    (hback : ∀ y ∈ back, cmp y = .gt) :
    binarySearchBy cmp (front ++ back) = .error front.length := by
  have hupto : ∀ y ∈ front, cmp y ≠ .gt := by
    intro y hy
    rw [hfront y hy]
    exact Ordering.noConfusion
  rcases List.eq_nil_or_concat' front with rfl | ⟨init, last, rfl⟩
  · cases back with
    | nil => simp [binarySearchBy]
    | cons y rest =>
        have hbase := searchBase_whole hupto hback (by simp)
        have hy := hback y List.mem_cons_self
        simp only [List.nil_append, List.length_nil] at hbase ⊢
        simp only [binarySearchBy, hbase, Nat.zero_sub,
          List.getElem?_cons_zero, hy]
  · have hlength : (init ++ [last]).length - 1 = init.length := by simp
    have hbase := searchBase_whole hupto hback (by simp)
    have hlast := hfront last (by simp)
    rw [hlength] at hbase
    have hget : (init ++ [last] ++ back)[init.length]? = some last := by simp
    simp only [binarySearchBy, hbase, hget, hlast]
    rw [List.length_append, List.length_singleton]

/-! ## At the place that is found -/

/-- An element behind some others is changed. -/
theorem modify_append_cons (front back : List α) (x : α) (f : α → α) :
    (front ++ x :: back).modify front.length f = front ++ f x :: back := by
  induction front with
  | nil => rfl
  | cons y rest ih => exact congrArg (y :: ·) ih

end CodeRs
