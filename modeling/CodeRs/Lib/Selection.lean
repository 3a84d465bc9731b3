import CodeRs.Lib.Ranking
import Mathlib.Order.Lattice

/-!
# The best few of many

Of a stream of items the best `k` are kept, and everything else is forgotten: a
new item is taken while there is room, and afterwards only in the place of a
worst one.  What is kept then has the `k` best scores, in whatever order the
items come, and the best of the best of several parts are the best of the
whole.
-/

namespace CodeRs

variable {α β : Type} [LinearOrder β] {score : α → β} {k : ℕ}
    {items kept : List α} {a x y : α}

/-- What is kept of the items: `k` of them at most, and all of them while there
is room; nothing that was left out is better than anything that was kept. -/
structure Selects (score : α → β) (k : ℕ) (items kept : List α) : Prop where
  length_le : kept.length ≤ k
  exists_rest : ∃ rest, items.Perm (kept ++ rest) ∧
    (rest ≠ [] → kept.length = k) ∧
    ∀ x ∈ kept, ∀ y ∈ rest, score y ≤ score x

theorem selects_nil (score : α → β) (k : ℕ) : Selects score k [] [] :=
  ⟨Nat.zero_le k, [], .nil, fun h => absurd rfl h,
    fun _ h => (List.not_mem_nil h).elim⟩

theorem Selects.congr {items' kept' : List α} (h : Selects score k items kept)
    (hitems : items.Perm items') (hkept : kept.Perm kept') :
    Selects score k items' kept' := by
  obtain ⟨rest, hperm, hfull, hbest⟩ := h.exists_rest
  refine ⟨hkept.length_eq ▸ h.length_le, rest, ?_,
    fun hne => hkept.length_eq ▸ hfull hne, ?_⟩
  · exact hitems.symm.trans (hperm.trans (hkept.append_right rest))
  · exact fun x hx => hbest x (hkept.symm.subset hx)

theorem Selects.subperm (h : Selects score k items kept) :
    kept.Subperm items := by
  obtain ⟨rest, hperm, -, -⟩ := h.exists_rest
  exact (List.sublist_append_left kept rest).subperm.trans hperm.symm.subperm

/-! ## One more item -/

theorem Selects.push (h : Selects score k items kept)
    (hroom : kept.length < k) :
    Selects score k (a :: items) (a :: kept) := by
  obtain ⟨rest, hperm, hfull, -⟩ := h.exists_rest
  have hnil : rest = [] := by
    by_contra hne
    exact hroom.ne (hfull hne)
  refine ⟨hroom, [], ?_, fun hne => absurd rfl hne,
    fun _ _ _ hy => (List.not_mem_nil hy).elim⟩
  rw [hnil] at hperm
  exact hperm.cons a

theorem Selects.skip (h : Selects score k items kept) (hfull : kept.length = k)
    (hworse : ∀ x ∈ kept,
      score a ≤ score x) : Selects score k (a :: items) kept := by
  obtain ⟨rest, hperm, -, hbest⟩ := h.exists_rest
  refine ⟨h.length_le, a :: rest, (hperm.cons a).trans List.perm_middle.symm,
    fun _ => hfull, ?_⟩
  intro x hx y hy
  rcases List.mem_cons.1 hy with rfl | hy
  · exact hworse x hx
  · exact hbest x hx y hy

theorem Selects.replace {worst : α} {others : List α}
    (h : Selects score k items kept)
    (hfull : kept.length = k) (hkept : kept.Perm (worst :: others))
    (hworst : ∀ x ∈ kept, score worst ≤ score x)
    (hbetter : score worst ≤ score a) :
    Selects score k (a :: items) (a :: others) := by
  obtain ⟨rest, hperm, -, hbest⟩ := h.exists_rest
  have hmem : ∀ {x}, x ∈ others → x ∈ kept :=
    fun hx => hkept.symm.subset (List.mem_cons_of_mem _ hx)
  have hlast : ∀ y ∈ rest, score y ≤ score worst :=
    hbest worst (hkept.symm.subset List.mem_cons_self)
  have hlength : (a :: others).length = k := hkept.length_eq.symm.trans hfull
  refine ⟨hlength.le, worst :: rest, ?_, fun _ => hlength, fun x hx y hy => ?_⟩
  · refine (hperm.trans (hkept.append_right rest)).cons a |>.trans (.cons a ?_)
    exact List.perm_middle.symm
  · rcases List.mem_cons.1 hx with rfl | hx
    · rcases List.mem_cons.1 hy with rfl | hy
      · exact hbetter
      · exact (hlast y hy).trans hbetter
    · rcases List.mem_cons.1 hy with rfl | hy
      · exact hworst x (hmem hx)
      · exact hbest x (hmem hx) y hy

/-! ## The best of the best -/

/-- Instead of the items of a part, its best ones may be looked at. -/
theorem Selects.of_part {part best others : List α}
    (hpart : Selects score k part best)
    (h : Selects score k (best ++ others) kept) :
    Selects score k (part ++ others) kept := by
  obtain ⟨left, hperm, hfull, hbest⟩ := hpart.exists_rest
  obtain ⟨rest, hall, hrest, hbetter⟩ := h.exists_rest
  -- With something left out of the part, its best ones alone would fill what is
  -- kept.
  have hlength : left ≠ [] → kept.length = k := by
    intro hne
    by_cases hnil : rest = []
    · have hsum := hall.length_eq
      rw [hnil, List.append_nil, List.length_append, hfull hne] at hsum
      exact le_antisymm h.length_le (by omega)
    · exact hrest hnil
  refine ⟨h.length_le, left ++ rest, ?_, fun hne => ?_, fun x hx y hy => ?_⟩
  · calc (part ++ others).Perm (best ++ left ++
      others) := hperm.append_right others
      _ |>.Perm (left ++ (best ++ others)) := by
          rw [← List.append_assoc]
          exact List.perm_append_comm.append_right others
      _ |>.Perm (left ++ (kept ++ rest)) := hall.append_left left
      _ |>.Perm (kept ++ (left ++ rest)) := by
          rw [← List.append_assoc, ← List.append_assoc]
          exact List.perm_append_comm.append_right rest
  · by_cases hnil : left = []
    · exact hrest fun heq => hne (by rw [hnil, heq, List.append_nil])
    · exact hlength hnil
  · rcases List.mem_append.1 hy with hy | hy
    · by_contra hlt
      rw [not_le] at hlt
      have hmany :
          best.countP (fun z => decide (score x < score z)) = best.length :=
        List.countP_eq_length.2 fun z hz =>
          decide_eq_true (hlt.trans_le (hbest z hz y hy))
      have hnone : rest.countP (fun z => decide (score x < score z)) = 0 :=
        List.countP_eq_zero.2 fun z hz => by simpa using hbetter x hx z hz
      have hfew :
          kept.countP (fun z => decide (score x < score z)) < kept.length := by
        refine lt_of_le_of_ne List.countP_le_length fun heq => ?_
        have hself := List.countP_eq_length.1 heq x hx
        simp at hself
      have hcount := hall.countP_eq fun z => decide (score x < score z)
      rw [List.countP_append, List.countP_append, hmany, hnone,
        hfull (List.ne_nil_of_mem hy)] at hcount
      have hle := h.length_le
      omega
    · exact hbetter x hx y hy

theorem Selects.of_parts {ι : Type} {part best : ι → List α} {parts : List ι}
    (hparts : ∀ i ∈ parts, Selects score k (part i) (best i))
    (h : Selects score k (parts.flatMap best) kept) :
    Selects score k (parts.flatMap part) kept := by
  have hgeneral : ∀ done : List α,
      Selects score k (parts.flatMap best ++ done) kept →
      Selects score k (parts.flatMap part ++ done) kept := by
    clear h
    induction parts with
    | nil => exact fun _ h => h
    | cons i rest ih =>
        intro done h
        obtain ⟨hi, hrest⟩ := List.forall_mem_cons.1 hparts
        rw [List.flatMap_cons, List.append_assoc] at h ⊢
        have hfirst := (hi.of_part h).congr List.perm_append_comm (.refl _)
        rw [List.append_assoc] at hfirst
        refine (ih hrest _ hfirst).congr ?_ (.refl _)
        rw [← List.append_assoc]
        exact List.perm_append_comm
  have hdone := hgeneral [] (by rwa [List.append_nil])
  rwa [List.append_nil] at hdone

/-! ## What is kept -/

theorem Selects.scores (h : Selects score k items kept) :
    (kept.map score).insertionSort (· ≥ ·) =
      ((items.map score).insertionSort (· ≥ ·)).take k := by
  obtain ⟨rest, hperm, hfull, hbest⟩ := h.exists_rest
  have hsame : (items.map score).insertionSort (· ≥ ·) =
      ((kept ++ rest).map score).insertionSort (· ≥ ·) := by
    refine List.Perm.eq_of_pairwise (fun a b _ _ hab hba => le_antisymm hba hab)
      (List.pairwise_insertionSort _ _) (List.pairwise_insertionSort _ _) ?_
    refine (List.perm_insertionSort _ _).trans ((hperm.map score).trans ?_)
    exact (List.perm_insertionSort _ _).symm
  have hsplit : ∀ b ∈ kept.map score, ∀ c ∈ rest.map score, b ≥ c := by
    intro b hb c hc
    obtain ⟨x, hx, rfl⟩ := List.mem_map.1 hb
    obtain ⟨y, hy, rfl⟩ := List.mem_map.1 hc
    exact hbest x hx y hy
  have hlength :
      ((kept.map score).insertionSort (· ≥ ·)).length = kept.length := by
    rw [List.length_insertionSort, List.length_map]
  rw [hsame, List.map_append, Ranking.insertionSort_append hsplit]
  by_cases hnil : rest = []
  · rw [hnil, List.map_nil, List.insertionSort_nil, List.append_nil]
    exact (List.take_of_length_le (hlength.trans_le h.length_le)).symm
  · rw [← hfull hnil, ← hlength, List.take_left]

/-- Where no two items have one score, it is told which ones are kept. -/
theorem Selects.unique {kept' : List α} (h : Selects score k items kept)
    (h' : Selects score k items kept')
    (hinj : ∀ x ∈ items, ∀ y ∈ items,
      score x = score y → x = y) : kept.Perm kept' := by
  have hscores : (kept.map score).Perm (kept'.map score) := by
    refine (List.perm_insertionSort (· ≥ ·) _).symm.trans ?_
    rw [h.scores, ← h'.scores]
    exact List.perm_insertionSort _ _
  classical
  have hback : ∀ {l : List α}, l ⊆ items →
      (l.map score).filterMap (fun b => items.find? fun x => score x = b) =
        l := by
    intro l hl
    rw [List.filterMap_map]
    refine (List.filterMap_congr fun x hx => ?_).trans List.filterMap_some
    rw [Function.comp_apply]
    cases hfind : items.find? fun y => score y = score x with
    | none =>
        have hnone := List.find?_eq_none.1 hfind x (hl hx)
        simp at hnone
    | some y =>
        have hscore : score y = score x := by simpa using List.find?_some hfind
        rw [hinj y (List.mem_of_find?_eq_some hfind) x (hl hx) hscore]
  rw [← hback h.subperm.subset, ← hback h'.subperm.subset]
  exact hscores.filterMap _

end CodeRs
