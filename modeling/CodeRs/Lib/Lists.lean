import Mathlib.Data.List.Basic
import Mathlib.Data.List.Forall2
import Mathlib.Data.List.Perm.Basic
import Mathlib.Data.List.SplitBy

/-!
# Searching and editing lists

Facts about the first and the last position of an element, about the elements
that stay when one position of a list is overwritten or removed, and about the
parts of two lists put together.
-/

namespace CodeRs

variable {α β : Type*}

/-! ## Positions -/

/-- `Iterator::rposition`: the last index whose element satisfies `p`. -/
def rposition (p : α → Bool) : List α → Option ℕ
  | [] => none
  | a :: rest =>
      match rposition p rest with
      | some i => some (i + 1)
      | none => if p a then some 0 else none

theorem findIdx?_getElem? {p : α → Bool} {l : List α} {i : ℕ}
    (h : l.findIdx? p = some i) : ∃ a, l[i]? = some a ∧ p a = true := by
  obtain ⟨hi, hp, _⟩ := List.findIdx?_eq_some_iff_getElem.mp h
  exact ⟨l[i], List.getElem?_eq_getElem hi, hp⟩

theorem rposition_getElem? {p : α → Bool} {l : List α} {i : ℕ}
    (h : rposition p l = some i) : ∃ a, l[i]? = some a ∧ p a = true := by
  induction l generalizing i with
  | nil => simp [rposition] at h
  | cons a rest ih =>
      cases hrest : rposition p rest with
      | some j =>
          simp only [rposition, hrest, Option.some.injEq] at h
          subst h
          simpa using ih hrest
      | none =>
          by_cases ha : p a = true
          · simp only [rposition, hrest, ha, if_true, Option.some.injEq] at h
            subst h
            exact ⟨a, rfl, ha⟩
          · simp [rposition, hrest, ha] at h

theorem rposition_eq_none {p : α → Bool} {l : List α}
    (h : rposition p l = none) : l.any p = false := by
  induction l with
  | nil => rfl
  | cons a rest ih =>
      cases hrest : rposition p rest with
      | some j => simp [rposition, hrest] at h
      | none =>
          by_cases ha : p a = true
          · simp [rposition, hrest, ha] at h
          · simp [ha, ih hrest]

/-- The first position from `m` on that satisfies `p` is at most `k` if one of
them is. -/
theorem add_findIdx_drop_le_iff {p : α → Bool} {l : List α} {m k : ℕ}
    (hk : k < l.length) :
    m + (l.drop m).findIdx p ≤ k ↔ ∃ j, m ≤ j ∧ j ≤ k ∧ l[j]?.any p = true := by
  constructor
  · intro hle
    refine ⟨m + (l.drop m).findIdx p, Nat.le_add_right _ _, hle, ?_⟩
    have hlt : m + (l.drop m).findIdx p < l.length := Nat.lt_of_le_of_lt hle hk
    have hget := List.getElem?_eq_getElem hlt
    rw [hget, Option.any_some]
    rw [← List.getElem?_drop] at hget
    exact List.findIdx_of_getElem?_eq_some hget
  · rintro ⟨j, hm, hjk, hj⟩
    by_contra hlt
    have hbefore : j - m < (l.drop m).findIdx p := by omega
    have hp := List.not_of_lt_findIdx hbefore
    rw [List.getElem?_eq_getElem (Nat.lt_of_le_of_lt hjk hk),
      Option.any_some] at hj
    simp only [List.getElem_drop, Nat.add_sub_cancel' hm, hj] at hp
    cases hp

/-! ## Elements that stay -/

theorem mem_or_mem_eraseIdx {l : List α} {i : ℕ} {a x : α}
    (hget : l[i]? = some a) (hx : x ∈ l) : x = a ∨ x ∈ l.eraseIdx i := by
  obtain ⟨j, hj⟩ := List.getElem?_of_mem hx
  by_cases hij : j = i
  · subst hij
    exact Or.inl (Option.some.inj (hj.symm.trans hget))
  · exact Or.inr (List.mem_eraseIdx_iff_getElem?.mpr ⟨j, hij, hj⟩)

theorem mem_or_mem_set {l : List α} {i : ℕ} {a x : α}
    (hget : l[i]? = some a) (hx : x ∈ l) (b : α) : x = a ∨ x ∈ l.set i b := by
  obtain ⟨j, hj⟩ := List.getElem?_of_mem hx
  by_cases hij : i = j
  · subst hij
    exact Or.inl (Option.some.inj (hj.symm.trans hget))
  · refine Or.inr (List.mem_of_getElem? (i := j) ?_)
    rwa [List.getElem?_set_ne hij]

theorem perm_cons_eraseIdx {l : List α} {i : ℕ} {a : α}
    (hget : l[i]? = some a) :
    l.Perm (a :: l.eraseIdx i) := by
  obtain ⟨hlt, rfl⟩ := List.getElem?_eq_some_iff.mp hget
  exact (List.getElem_cons_eraseIdx_perm hlt).symm

theorem set_perm_cons_eraseIdx {l : List α} {i : ℕ} {a : α}
    (hget : l[i]? = some a) (b : α) : (l.set i b).Perm (b :: l.eraseIdx i) := by
  obtain ⟨hlt, -⟩ := List.getElem?_eq_some_iff.mp hget
  exact List.set_perm_cons_eraseIdx hlt b

theorem exists_mem_of_forall₂ {R : α → β → Prop} {l : List α} {l' : List β}
    (h : List.Forall₂ R l l') {a : α} (ha : a ∈ l) : ∃ b ∈ l', R a b := by
  induction h with
  | nil => cases ha
  | cons hab _ ih =>
      rcases List.mem_cons.mp ha with rfl | ha'
      · exact ⟨_, List.mem_cons_self, hab⟩
      · obtain ⟨b, hb, hR⟩ := ih ha'
        exact ⟨b, List.mem_cons_of_mem _ hb, hR⟩

/-- Overwriting a position by an element with the same image changes no
image. -/
theorem map_set_of_eq (f : α → β) {l : List α} {i : ℕ} {a b : α}
    (hget : l[i]? = some a) (hf : f b = f a) : (l.set i b).map f = l.map f := by
  refine List.ext_getElem? fun j => ?_
  rw [List.getElem?_map, List.getElem?_map]
  by_cases hij : i = j
  · subst hij
    obtain ⟨hlt, rfl⟩ := List.getElem?_eq_some_iff.mp hget
    simp [hf, hlt]
  · rw [List.getElem?_set_ne hij]

/-! ## Filters -/

/-- What is before and after a position, when it is overwritten or removed. -/
theorem exists_split_of_getElem? {l : List α} {i : ℕ} {a : α}
    (hget : l[i]? = some a) :
    ∃ before after, l = before ++ a :: after ∧
      (∀ b, l.set i b = before ++ b :: after) ∧
      l.eraseIdx i = before ++ after := by
  obtain ⟨hlt, rfl⟩ := List.getElem?_eq_some_iff.mp hget
  refine ⟨l.take i, l.drop (i + 1), ?_, fun b => ?_,
    List.eraseIdx_eq_take_drop_succ l i⟩
  · rw [← List.drop_eq_getElem_cons hlt, List.take_append_drop]
  · rw [List.set_eq_take_append_cons_drop, if_pos hlt]

section Filters

variable {p : α → Bool} {l : List α} {i : ℕ} {a b : α}

theorem filter_set_of_neg (hget : l[i]? = some a) (ha : p a = false)
    (hb : p b = false) :
    (l.set i b).filter p = l.filter p := by
  obtain ⟨before, after, rfl, hset, -⟩ := exists_split_of_getElem? hget
  simp [hset, ha, hb]

theorem filter_eraseIdx_of_neg (hget : l[i]? = some a) (ha : p a = false) :
    (l.eraseIdx i).filter p = l.filter p := by
  obtain ⟨before, after, rfl, -, herase⟩ := exists_split_of_getElem? hget
  simp [herase, ha]

theorem filter_split_of_pos (hget : l[i]? = some a) (ha : p a = true)
    (hone : (l.filter p).length ≤ 1) :
    l.filter p = [a] ∧ (l.eraseIdx i).filter p = [] ∧
      ∀ b, p b = true → (l.set i b).filter p = [b] := by
  obtain ⟨before, after, rfl, hset, herase⟩ := exists_split_of_getElem? hget
  rw [List.filter_append, List.filter_cons_of_pos ha, List.length_append,
    List.length_cons]
    at hone
  have hbefore : before.filter p = [] := List.length_eq_zero_iff.1 (by omega)
  have hafter : after.filter p = [] := List.length_eq_zero_iff.1 (by omega)
  refine ⟨?_, ?_, fun b hb => ?_⟩
  · rw [List.filter_append, List.filter_cons_of_pos ha, hbefore, hafter,
      List.nil_append]
  · rw [herase, List.filter_append, hbefore, hafter, List.nil_append]
  · rw [hset, List.filter_append, List.filter_cons_of_pos hb, hbefore, hafter,
      List.nil_append]

end Filters

/-! ## Parts of a list -/

/-- An element is put in behind some others. -/
theorem insertIdx_append_length (front back : List α) (x : α) :
    (front ++ back).insertIdx front.length x = front ++ x :: back := by
  induction front with
  | nil => rfl
  | cons a front ih =>
      rw [List.cons_append, List.length_cons, List.insertIdx_succ_cons, ih,
        List.cons_append]

/-- What stands before the first `a` is told by the whole, and what stands
behind it too. -/
theorem append_cons_inj {x y s t : List α} {a : α} (hx : a ∉ x) (hy : a ∉ y)
    (h : x ++ a :: s = y ++ a :: t) : x = y ∧ s = t := by
  rcases List.append_eq_append_iff.1 h with ⟨mid, rfl, hmid⟩ | ⟨mid, rfl, hmid⟩
  · cases mid with
    | nil => exact ⟨(List.append_nil x).symm, (List.cons.inj hmid).2⟩
    | cons c mid =>
        cases (List.cons.inj hmid).1
        exact absurd (List.mem_append_right x List.mem_cons_self) hy
  · cases mid with
    | nil => exact ⟨List.append_nil y, (List.cons.inj hmid).2.symm⟩
    | cons c mid =>
        cases (List.cons.inj hmid).1
        exact absurd (List.mem_append_right y List.mem_cons_self) hx

theorem concat_eq_append_cons {l before after : List α} {a b : α} :
    l ++ [b] = before ++ a :: after ↔
      (before = l ∧ a = b ∧ after = []) ∨
        ∃ between, after = between ++ [b] ∧ l = before ++ a :: between := by
  constructor
  · intro h
    rcases List.eq_nil_or_concat after with rfl | ⟨between, c, rfl⟩
    · obtain ⟨rfl, hlast⟩ := List.append_inj' h rfl
      cases hlast
      exact Or.inl ⟨rfl, rfl, rfl⟩
    · rw [List.concat_eq_append, ← List.cons_append, ← List.append_assoc] at h
      obtain ⟨rfl, hlast⟩ := List.append_inj' h rfl
      cases hlast
      exact Or.inr ⟨between, List.concat_eq_append .., rfl⟩
  · rintro (⟨rfl, rfl, rfl⟩ | ⟨between, rfl, rfl⟩)
    · rfl
    · rw [List.append_assoc, List.cons_append]

/-- The beginning of two lists that goes beyond a part of the first one. -/
theorem take_append_add {l l' : List α} {n : ℕ} (hn : n ≤ l.length) (i : ℕ) :
    (l ++ l').take (i + n) = l.take n ++ (l.drop n ++ l').take i := by
  rw [Nat.add_comm, List.take_add, List.take_append_of_le_length hn,
    List.drop_append_of_le_length hn]

theorem drop_append_add {l l' : List α} {n : ℕ} (hn : n ≤ l.length) (i : ℕ) :
    (l ++ l').drop (i + n) = (l.drop n ++ l').drop i := by
  rw [Nat.add_comm, ← List.drop_drop, List.drop_append_of_le_length hn]

/-! ## Values found by their keys -/

section FoundByKey

variable {α κ : Type*} {find : κ → Option α} {key : α → κ}

/-- Values that are all found by their own keys come in the order of the
keys. -/
theorem map_filterMap_of_found {keys : List κ}
    (h : ∀ k ∈ keys, ∃ a, find k = some a ∧ key a = k) :
    (keys.filterMap find).map key = keys := by
  induction keys with
  | nil => rfl
  | cons k keys ih =>
      obtain ⟨a, ha, hkey⟩ := h k List.mem_cons_self
      rw [List.filterMap_cons_some ha, List.map_cons, hkey,
        ih fun k' hk' => h k' (List.mem_cons_of_mem k hk')]

theorem find_of_mem_filterMap {keys : List κ}
    (h : ∀ k ∈ keys, ∃ a, find k = some a ∧ key a = k) {a : α}
    (ha : a ∈ keys.filterMap find) : find (key a) = some a := by
  obtain ⟨k, hk, hfind⟩ := List.mem_filterMap.1 ha
  obtain ⟨a', ha', rfl⟩ := h k hk
  obtain rfl : a' = a := Option.some.inj (ha'.symm.trans hfind)
  exact hfind

end FoundByKey

/-! ## Updating the elements that are picked -/

/-- The picked elements are updated.  If there are none, a new one goes to the
end. -/
def upsertBy (pick : α → Bool) (update : α → α) (new : α)
    (l : List α) : List α :=
  if l.any pick then l.map fun a => if pick a then update a else a
    else l ++ [new]

section Upsert

variable {pick : α → Bool} {update : α → α} {new : α} {l : List α}

/-- The elements that are not picked stay in their order. -/
theorem filter_upsertBy (hupdate : ∀ a, pick a → pick (update a))
    (hnew : pick new) :
    (upsertBy pick update new l).filter (fun a => !pick a) = l.filter fun a =>
      !pick a := by
  rw [upsertBy]
  split
  · clear * - hupdate
    induction l with
    | nil => rfl
    | cons a rest ih =>
        rw [List.map_cons, List.filter_cons, List.filter_cons, ih]
        by_cases ha : pick a = true
        · rw [if_pos ha, hupdate a ha, ha]
          rfl
        · rw [if_neg ha]
  · rw [List.filter_append, List.filter_singleton, hnew]
    exact List.append_nil _

theorem countP_upsertBy (hupdate : ∀ a, pick a → pick (update a))
    (hnew : pick new)
    (hone : l.countP pick ≤ 1) :
    (upsertBy pick update new l).countP pick = 1 := by
  rw [upsertBy]
  split
  next hany =>
    have hkept : pick ∘ (fun a => if pick a then update a else a) = pick := by
      funext a
      rw [Function.comp_apply]
      split
      next ha => rw [hupdate a ha, ha]
      · rfl
    rw [List.countP_map, hkept]
    have hpos : 0 < l.countP pick := List.countP_pos_iff.2 (by simpa using hany)
    exact Nat.le_antisymm hone hpos
  next hnone =>
    have hzero : l.countP pick = 0 := by
      rw [List.countP_eq_zero]
      simpa using hnone
    rw [List.countP_append, hzero, List.countP_singleton, if_pos hnew]

end Upsert

/-! ## Maxima and minima -/

theorem le_foldr_max {l : List ℕ} {n : ℕ} (h : n ∈ l) : n ≤ l.foldr max 0 := by
  induction l with
  | nil => cases h
  | cons a rest ih =>
      rcases List.mem_cons.mp h with rfl | hrest
      · exact Nat.le_max_left _ _
      · exact Nat.le_trans (ih hrest) (Nat.le_max_right _ _)

theorem foldr_max_le {l : List ℕ} {n : ℕ} (h : ∀ a ∈ l, a ≤ n) :
    l.foldr max 0 ≤ n := by
  induction l with
  | nil => exact Nat.zero_le n
  | cons a rest ih =>
      exact Nat.max_le.mpr ⟨h a List.mem_cons_self,
        ih fun b hb => h b (List.mem_cons_of_mem _ hb)⟩

theorem le_foldr_min {l : List ℕ} {k n : ℕ} (h : ∀ a ∈ l, k ≤ a) (hn : k ≤ n) :
    k ≤ l.foldr min n := by
  induction l with
  | nil => exact hn
  | cons a l ih =>
      exact Nat.le_min.mpr ⟨h a List.mem_cons_self,
        ih fun b hb => h b (List.mem_cons_of_mem a hb)⟩

end CodeRs

/-! ## Runs of a list

The longest runs of elements with a property, and every other element alone, as
a program finds them that looks only at the last run it has. -/

namespace CodeRs.Grouping

variable {α : Type*} {p : α → Bool} {l : List α} {x y : α} {run : List α}

/-- The runs of the elements with a property, and the other elements, each
alone. -/
def runs (p : α → Bool) (l : List α) : List (List α) :=
  l.splitBy fun a b => p a && p b

theorem flatten_runs (p : α → Bool) (l : List α) : (runs p l).flatten = l :=
  List.flatten_splitBy _ l

/-- A run of more than one element has only elements with the property. -/
theorem all_of_isChain (h : run.IsChain fun a b => (p a && p b) = true)
    (hlong : 2 ≤ run.length) :
    ∀ z ∈ run, p z = true := by
  induction run with
  | nil => exact absurd hlong (by simp)
  | cons a rest ih =>
      cases rest with
      | nil => exact absurd hlong (by simp)
      | cons b rest =>
          rw [List.isChain_cons_cons, Bool.and_eq_true] at h
          obtain ⟨⟨ha, hb⟩, hrest⟩ := h
          refine List.forall_mem_cons.2 ⟨ha, ?_⟩
          cases rest with
          | nil => exact List.forall_mem_singleton.2 hb
          | cons c rest => exact ih hrest (by simp)

/-- A run has only elements with the property, or is one element without it. -/
theorem mem_runs (h : run ∈ runs p l) :
    run ≠ [] ∧ ((∀ z ∈ run, p z = true) ∨ ∃ y, run = [y] ∧ p y = false) := by
  have hne := List.ne_nil_of_mem_splitBy h
  refine ⟨hne, ?_⟩
  cases run with
  | nil => exact absurd rfl hne
  | cons a rest =>
      cases rest with
      | nil =>
          cases ha : p a with
          | true => exact .inl (List.forall_mem_singleton.2 ha)
          | false => exact .inr ⟨a, rfl, ha⟩
      | cons b rest =>
          exact .inl (all_of_isChain (List.isChain_of_mem_splitBy h) (by simp))

theorem exists_last_run (h : l.getLast? = some y) :
    ∃ before last, runs p l = before ++ [last] ∧ last.getLast? = some y := by
  have hne : runs p l ≠ [] := by
    intro hnil
    rw [runs, List.splitBy_eq_nil] at hnil
    rw [hnil] at h
    cases h
  obtain ⟨before, last, hruns⟩ : ∃ before last, runs p l = before ++ [last] :=
    ⟨_, _, (List.dropLast_append_getLast hne).symm⟩
  refine ⟨before, last, hruns, ?_⟩
  have hflatten := flatten_runs p l
  rw [hruns, List.flatten_append, List.flatten_singleton] at hflatten
  have hlast : last ≠ [] := (mem_runs (l := l) (p := p) (by rw [hruns]; simp)).1
  rw [← h, ← hflatten, List.getLast?_append_of_ne_nil _ hlast]

/-- An element that does not go with the last one begins a run. -/
theorem runs_concat_new
    (h : p x = false ∨ ∀ y, l.getLast? = some y → p y = false) :
    runs p (l ++ [x]) = runs p l ++ [[x]] := by
  refine List.splitBy_append fun y hy z hz => ?_
  obtain rfl : x = z := by simpa using hz
  rcases h with hx | hlast
  · rw [hx, Bool.and_false]
  · rw [hlast y hy, Bool.false_and]

/-- An element without the property divides the runs. -/
theorem runs_append_cons (hx : p x = false) (l l' : List α) :
    runs p (l ++ x :: l') = runs p l ++ [x] :: runs p l' := by
  have hback : runs p ([x] ++ l') = [x] :: runs p l' :=
    List.splitBy_append fun y hy z _ => by
      obtain rfl : x = y := by simpa using hy
      rw [hx, Bool.false_and]
  rw [← hback]
  refine List.splitBy_append fun y _ z hz => ?_
  obtain rfl : x = z := by simpa using hz
  rw [hx, Bool.and_false]

theorem runs_concat_join {before : List (List α)} {last : List α}
    (hruns : runs p l = before ++ [last]) (hlast : last.getLast? = some y)
    (hy : p y = true)
    (hx : p x = true) : runs p (l ++ [x]) = before ++ [last ++ [x]] := by
  obtain ⟨hflatten, hnil, hchain, hapart⟩ := List.splitBy_eq_iff.1 hruns
  refine List.splitBy_eq_iff.2 ⟨?_, ?_, ?_, ?_⟩
  · rw [hflatten]
    simp
  · simp only [List.mem_append, List.mem_singleton, not_or] at hnil ⊢
    exact ⟨hnil.1, by simp⟩
  · intro run hrun
    rcases List.mem_append.1 hrun with hrun | hrun
    · exact hchain run (List.mem_append_left _ hrun)
    · rw [List.mem_singleton.1 hrun]
      refine List.isChain_append.2
        ⟨hchain last (by simp), List.isChain_singleton x, fun a ha b hb => ?_⟩
      obtain rfl : y = a := Option.some.inj (hlast.symm.trans ha)
      obtain rfl : x = b := by simpa using hb
      rw [hy, hx, Bool.and_true]
  · rw [List.isChain_append] at hapart ⊢
    refine ⟨hapart.1, List.isChain_singleton _, fun run hrun run' hrun' => ?_⟩
    obtain rfl : last ++ [x] = run' := by simpa using hrun'
    obtain ⟨ha, hb, hr⟩ := hapart.2.2 run hrun last (by simp)
    refine ⟨ha, by simp, ?_⟩
    rwa [List.head_append_of_ne_nil hb]

end CodeRs.Grouping
