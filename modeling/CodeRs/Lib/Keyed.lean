import Mathlib.Data.List.Induction
import Mathlib.Data.List.Nodup
import Mathlib.Data.List.Sort
import Mathlib.Logic.Function.Basic

/-!
# Values with distinct keys

A map whose values hold their own keys, as the list of its values in the order
in which it happens to be iterated, and the indexes that are kept beside it.
-/

namespace CodeRs

/-- Values of which no two have the same key. -/
structure Keyed {α κ : Type} (key : α → κ) where
  values : List α
  nodup : (values.map key).Nodup

namespace Keyed

variable {α κ : Type} {key : α → κ}

def empty : Keyed key := ⟨[], List.nodup_nil⟩

@[simp] theorem values_empty : (empty : Keyed key).values = [] := rfl

theorem values_nodup (m : Keyed key) : m.values.Nodup := m.nodup.of_map _

theorem eq_of_key_eq (m : Keyed key) {a b : α} (ha : a ∈ m.values)
    (hb : b ∈ m.values)
    (h : key a = key b) : a = b :=
  List.inj_on_of_nodup_map m.nodup ha hb h

variable [DecidableEq κ]

/-- The value with a key. -/
def get (m : Keyed key) (k : κ) : Option α := m.values.find? fun a => key a = k

/-- All values but the one with a key. -/
def remove (m : Keyed key) (k : κ) : Keyed key where
  values := m.values.filter fun a => key a ≠ k
  nodup := m.nodup.sublist (List.filter_sublist.map key)

/-- Add a value, in the place of the one with its key. -/
def insert (m : Keyed key) (a : α) : Keyed key where
  values := a :: (m.remove (key a)).values
  nodup := by
    rw [List.map_cons, List.nodup_cons]
    refine ⟨?_, (m.remove (key a)).nodup⟩
    intro hmem
    obtain ⟨b, hb, hkey⟩ := List.mem_map.1 hmem
    simpa [hkey] using (List.mem_filter.1 hb).2

/-- Change the value with a key, but not its key. -/
def modify (m : Keyed key) (k : κ) (f : α → α)
    (hf : ∀ a, key (f a) = key a) : Keyed key where
  values := m.values.map fun a => if key a = k then f a else a
  nodup := by
    have hkeys : (m.values.map fun a => if key a = k then f a else a).map key =
        m.values.map key := by
      rw [List.map_map]
      apply List.map_congr_left
      intro a _
      change key (if key a = k then f a else a) = key a
      split
      · exact hf a
      · rfl
    rw [hkeys]
    exact m.nodup

@[simp] theorem mem_remove {m : Keyed key} {k : κ} {a : α} :
    a ∈ (m.remove k).values ↔ a ∈ m.values ∧ key a ≠ k := by
  simp [remove, List.mem_filter]

@[simp] theorem mem_insert {m : Keyed key} {a b : α} :
    b ∈ (m.insert a).values ↔ b = a ∨ b ∈ m.values ∧ key b ≠ key a := by
  rw [insert, List.mem_cons, mem_remove]

@[simp] theorem mem_modify {m : Keyed key} {k : κ} {f : α → α}
    {hf : ∀ a, key (f a) = key a} {b : α} :
    b ∈ (m.modify k f hf).values ↔
      ∃ a ∈ m.values, (if key a = k then f a else a) = b :=
  List.mem_map

theorem get_eq_some {m : Keyed key} {k : κ} {a : α} :
    m.get k = some a ↔ a ∈ m.values ∧ key a = k := by
  constructor
  · intro h
    exact ⟨List.mem_of_find?_eq_some h, by simpa using List.find?_some h⟩
  · rintro ⟨ha, rfl⟩
    cases hget : m.get (key a) with
    | none =>
        have hnone := List.find?_eq_none.1 hget a ha
        simp at hnone
    | some b =>
        have hb := List.mem_of_find?_eq_some hget
        have hkey : key b = key a := by simpa using List.find?_some hget
        rw [m.eq_of_key_eq hb ha hkey]

theorem get_eq_none {m : Keyed key} {k : κ} :
    m.get k = none ↔ ∀ a ∈ m.values, key a ≠ k := by
  rw [get, List.find?_eq_none]
  simp

theorem key_of_get {m : Keyed key} {k : κ} {a : α}
    (h : m.get k = some a) : key a = k :=
  (get_eq_some.1 h).2

@[simp] theorem get_insert_self (m : Keyed key) (a : α) :
    (m.insert a).get (key a) = some a :=
  get_eq_some.2 ⟨mem_insert.2 (.inl rfl), rfl⟩

theorem get_insert_of_ne (m : Keyed key) {a : α} {k : κ} (h : k ≠ key a) :
    (m.insert a).get k = m.get k := by
  apply Option.ext
  intro b
  rw [get_eq_some, get_eq_some, mem_insert]
  constructor
  · rintro ⟨rfl | ⟨hb, -⟩, hkey⟩
    · exact absurd hkey.symm h
    · exact ⟨hb, hkey⟩
  · rintro ⟨hb, rfl⟩
    exact ⟨.inr ⟨hb, h⟩, rfl⟩

@[simp] theorem get_remove_self (m : Keyed key) (k : κ) :
    (m.remove k).get k = none := by
  rw [get_eq_none]
  intro a ha
  exact (mem_remove.1 ha).2

theorem get_remove_of_ne (m : Keyed key) {k k' : κ} (h : k' ≠ k) :
    (m.remove k).get k' = m.get k' := by
  apply Option.ext
  intro b
  rw [get_eq_some, get_eq_some, mem_remove]
  constructor
  · rintro ⟨⟨hb, -⟩, hkey⟩
    exact ⟨hb, hkey⟩
  · rintro ⟨hb, rfl⟩
    exact ⟨⟨hb, h⟩, rfl⟩

/-- Removing a value before another takes its place changes nothing. -/
theorem insert_remove_self (m : Keyed key) (a : α) :
    (m.remove (key a)).insert a = m.insert a := by
  simp [insert, remove, List.filter_filter]

theorem get_modify_self (m : Keyed key) (k : κ) (f : α → α)
    (hf : ∀ a, key (f a) = key a) :
    (m.modify k f hf).get k = (m.get k).map f := by
  apply Option.ext
  intro b
  rw [get_eq_some, mem_modify, Option.map_eq_some_iff]
  constructor
  · rintro ⟨⟨a, ha, rfl⟩, hkey⟩
    by_cases h : key a = k
    · rw [if_pos h]
      exact ⟨a, get_eq_some.2 ⟨ha, h⟩, rfl⟩
    · rw [if_neg h] at hkey
      exact absurd hkey h
  · rintro ⟨a, hget, rfl⟩
    obtain ⟨ha, hkey⟩ := get_eq_some.1 hget
    exact ⟨⟨a, ha, if_pos hkey⟩, (hf a).trans hkey⟩

theorem get_modify_of_ne (m : Keyed key) {k k' : κ} (f : α → α)
    (hf : ∀ a, key (f a) = key a)
    (h : k' ≠ k) : (m.modify k f hf).get k' = m.get k' := by
  apply Option.ext
  intro b
  rw [get_eq_some, get_eq_some, mem_modify]
  constructor
  · rintro ⟨⟨a, ha, rfl⟩, hkey⟩
    by_cases hak : key a = k
    · rw [if_pos hak, hf a, hak] at hkey
      exact absurd hkey.symm h
    · rw [if_neg hak] at hkey ⊢
      exact ⟨ha, hkey⟩
  · rintro ⟨hb, rfl⟩
    exact ⟨⟨b, hb, if_neg h⟩, rfl⟩

/-- Keep the values with a property. -/
def retain (m : Keyed key) (p : α → Bool) : Keyed key where
  values := m.values.filter p
  nodup := m.nodup.sublist (List.filter_sublist.map key)

/-- A value with a new key is added to the others. -/
theorem values_insert {m : Keyed key} {a : α} (h : m.get (key a) = none) :
    (m.insert a).values = a :: m.values := by
  have hne := get_eq_none.1 h
  change a :: m.values.filter _ = a :: m.values
  rw [List.filter_eq_self.2 fun b hb => by simpa using hne b hb]

/-- Without the value of a key, the others are left. -/
theorem perm_remove {m : Keyed key} {k : κ} {a : α} (h : m.get k = some a) :
    m.values.Perm (a :: (m.remove k).values) := by
  obtain ⟨ha, rfl⟩ := get_eq_some.1 h
  refine (List.perm_ext_iff_of_nodup m.values_nodup ?_).2 fun b => ?_
  · refine List.nodup_cons.2 ⟨fun hmem => (mem_remove.1 hmem).2 rfl, ?_⟩
    exact (m.remove (key a)).values_nodup
  · rw [List.mem_cons, mem_remove]
    constructor
    · intro hb
      by_cases hkey : key b = key a
      · exact .inl (m.eq_of_key_eq hb ha hkey)
      · exact .inr ⟨hb, hkey⟩
    · rintro (rfl | ⟨hb, -⟩)
      · exact ha
      · exact hb

/-- What a fold over the values does for one key, if every round is about the
key of its value. -/
theorem look_foldl {σ τ : Type} (m : Keyed key) (look : σ → τ) {k : κ}
    {f : σ → α → σ}
    (hother : ∀ s a, key a ≠ k → look (f s a) = look s)
    (hsame : ∀ s s' a, look s = look s' → look (f s a) = look (f s' a))
    (s : σ) :
    look (m.values.foldl f s) = (m.get k).elim (look s) fun a =>
      look (f s a) := by
  have hothers : ∀ (values : List α) (s : σ), (∀ a ∈ values, key a ≠ k) →
      look (values.foldl f s) = look s := by
    intro values
    induction values with
    | nil => exact fun _ _ => rfl
    | cons a values ih =>
        intro s h
        rw [List.foldl_cons, ih _ fun b hb => h b (List.mem_cons_of_mem _ hb)]
        exact hother s a (h a List.mem_cons_self)
  cases hget : m.get k with
  | none => exact hothers _ s (get_eq_none.1 hget)
  | some a =>
      obtain ⟨ha, rfl⟩ := get_eq_some.1 hget
      obtain ⟨before, after, hsplit⟩ := List.append_of_mem ha
      have hnodup := m.nodup
      rw [hsplit, List.map_append, List.map_cons, List.nodup_append,
        List.nodup_cons] at hnodup
      obtain ⟨-, ⟨hafter, -⟩, hbefore⟩ := hnodup
      rw [hsplit, List.foldl_append, List.foldl_cons,
        hothers after _ fun b hb heq =>
        hafter (heq ▸ List.mem_map_of_mem hb)]
      exact hsame _ _ a (hothers before s fun b hb =>
        hbefore _ (List.mem_map_of_mem hb) _ List.mem_cons_self)

end Keyed

end CodeRs

/-! ## Secondary indexes

A secondary index lists, for every value of an attribute, the keys of the
values that have it.  It is filled and emptied one key at a time, beside the
map of the values.  A query follows the keys of the list, so it is right if the
list has every key that the map has, once and under the right attribute. -/

namespace CodeRs

/-- The keys under every value of an attribute. -/
abbrev SecondaryIndex (A κ : Type) := A → List κ

namespace SecondaryIndex

variable {α κ A : Type} [DecidableEq A]

def empty : SecondaryIndex A κ := fun _ => []

/-- Add a key at the end of a list, if the value has the attribute. -/
def push (index : SecondaryIndex A κ) (a : Option A) (k : κ) :
    SecondaryIndex A κ :=
  match a with
  | some a => Function.update index a (index a ++ [k])
  | none => index

/-- Remove a key from a list. -/
def drop [DecidableEq κ] (index : SecondaryIndex A κ) (a : Option A) (k : κ) :
    SecondaryIndex A κ :=
  match a with
  | some a => Function.update index a ((index a).filter (· ≠ k))
  | none => index

/-- The values whose keys are in the list of an attribute. -/
def find [DecidableEq κ] {key : α → κ} (index : SecondaryIndex A κ)
    (m : Keyed key) (a : A) :
    List α :=
  (index a).filterMap m.get

theorem push_apply (index : SecondaryIndex A κ) (a : Option A)
    (k : κ) (a' : A) :
    index.push a k a' = if a = some a' then index a' ++ [k] else index a' := by
  cases a with
  | none => rfl
  | some a =>
      by_cases h : a' = a
      · subst h
        simp [push]
      · rw [if_neg (by simpa using Ne.symm h), push, Function.update_of_ne h]

variable [DecidableEq κ]

theorem drop_apply (index : SecondaryIndex A κ) (a : Option A)
    (k : κ) (a' : A) :
    index.drop a k a' = if a = some a' then (index a').filter (· ≠ k)
      else index a' := by
  cases a with
  | none => rfl
  | some a =>
      by_cases h : a' = a
      · subst h
        simp [drop]
      · rw [if_neg (by simpa using Ne.symm h), drop, Function.update_of_ne h]

/-! ## Right indexes -/

variable {key : α → κ} {index : SecondaryIndex A κ} {m : Keyed key}
    {column : α → Option A}

/-- Every list has the keys of exactly the values with the attribute, each
once. -/
structure Indexes (index : SecondaryIndex A κ) (m : Keyed key)
    (column : α → Option A) :
    Prop where
  nodup : ∀ a, (index a).Nodup
  mem : ∀ a k, k ∈ index a ↔ ∃ v ∈ m.values, key v = k ∧ column v = some a

/-- Every query finds exactly the values with the attribute, each once. -/
def Finds (index : SecondaryIndex A κ) (m : Keyed key)
    (column : α → Option A) : Prop :=
  ∀ a, (index.find m a).Perm (m.values.filter fun v => column v = some a)

omit [DecidableEq A] [DecidableEq κ] in
theorem indexes_empty : (empty : SecondaryIndex A κ).Indexes
    (Keyed.empty : Keyed key) column :=
  ⟨fun _ => List.nodup_nil, fun a k => by simp [empty]⟩

/-- A value with a new key is added to both. -/
theorem Indexes.push (h : index.Indexes m column) {v : α}
    (hfresh : m.get (key v) = none) :
    (index.push (column v) (key v)).Indexes (m.insert v) column := by
  have hnew := Keyed.get_eq_none.1 hfresh
  have hnot : ∀ a, key v ∉ index a := by
    intro a hmem
    obtain ⟨w, hw, hkey, -⟩ := (h.mem a _).1 hmem
    exact hnew w hw hkey
  constructor
  · intro a
    rw [push_apply]
    split
    · rw [List.nodup_append]
      refine ⟨h.nodup a, List.nodup_singleton _, ?_⟩
      rintro k hk _ hk' rfl
      rw [List.mem_singleton] at hk'
      exact hnot a (hk' ▸ hk)
    · exact h.nodup a
  · intro a k
    have hother : ∀ w ∈ m.values, key w ≠ key v := hnew
    have hmem : (∃ w ∈ (m.insert v).values, key w = k ∧ column w = some a) ↔
        (key v = k ∧ column v = some a) ∨ k ∈ index a := by
      rw [h.mem]
      constructor
      · rintro ⟨w, hw, hkey, ha⟩
        obtain rfl | ⟨hw, -⟩ := Keyed.mem_insert.1 hw
        · exact .inl ⟨hkey, ha⟩
        · exact .inr ⟨w, hw, hkey, ha⟩
      · rintro (⟨hkey, ha⟩ | ⟨w, hw, hkey, ha⟩)
        · exact ⟨v, Keyed.mem_insert.2 (.inl rfl), hkey, ha⟩
        · exact ⟨w, Keyed.mem_insert.2 (.inr ⟨hw, hother w hw⟩), hkey, ha⟩
    rw [hmem, push_apply]
    split
    · rename_i ha
      rw [List.mem_append, List.mem_singleton]
      constructor
      · rintro (hk | rfl)
        · exact .inr hk
        · exact .inl ⟨rfl, ha⟩
      · rintro (⟨rfl, -⟩ | hk)
        · exact .inr rfl
        · exact .inl hk
    · rename_i ha
      exact ⟨.inr, fun hk => hk.resolve_left fun hv => ha hv.2⟩

theorem Indexes.drop (h : index.Indexes m column) {v : α} {k : κ}
    (hget : m.get k = some v) :
    (index.drop (column v) k).Indexes (m.remove k) column := by
  obtain ⟨hv, rfl⟩ := Keyed.get_eq_some.1 hget
  constructor
  · intro a
    rw [drop_apply]
    split
    · exact (h.nodup a).filter _
    · exact h.nodup a
  · intro a k
    have hmem :
        (∃ w ∈ (m.remove (key v)).values, key w = k ∧ column w = some a) ↔
        k ∈ index a ∧ k ≠ key v := by
      rw [h.mem]
      constructor
      · rintro ⟨w, hw, rfl, ha⟩
        exact ⟨⟨w, (Keyed.mem_remove.1 hw).1, rfl, ha⟩,
          (Keyed.mem_remove.1 hw).2⟩
      · rintro ⟨⟨w, hw, rfl, ha⟩, hne⟩
        exact ⟨w, Keyed.mem_remove.2 ⟨hw, hne⟩, rfl, ha⟩
    rw [hmem, drop_apply]
    split
    · simp [List.mem_filter]
    · rename_i ha
      refine ⟨fun hk => ⟨hk, ?_⟩, fun hk => hk.1⟩
      rintro rfl
      obtain ⟨w, hw, hkey, hcolumn⟩ := (h.mem a _).1 hk
      rw [m.eq_of_key_eq hw hv hkey] at hcolumn
      exact ha hcolumn

omit [DecidableEq A] in
/-- A value changes, but not its attribute. -/
theorem Indexes.modify (h : index.Indexes m column) {k : κ} {f : α → α}
    (hf : ∀ v, key (f v) = key v) (hcolumn : ∀ v, column (f v) = column v) :
    index.Indexes (m.modify k f hf) column := by
  refine ⟨h.nodup, fun a k' => (h.mem a k').trans ?_⟩
  constructor
  · rintro ⟨v, hv, hkey, ha⟩
    refine ⟨_, Keyed.mem_modify.2 ⟨v, hv, rfl⟩, ?_⟩
    split
    · exact ⟨(hf v).trans hkey, (hcolumn v).trans ha⟩
    · exact ⟨hkey, ha⟩
  · rintro ⟨_, hw, hkey, ha⟩
    obtain ⟨v, hv, rfl⟩ := Keyed.mem_modify.1 hw
    split at hkey
    · rename_i hk
      rw [if_pos hk, hcolumn] at ha
      exact ⟨v, hv, (hf v).symm.trans hkey, ha⟩
    · rename_i hk
      rw [if_neg hk] at ha
      exact ⟨v, hv, hkey, ha⟩

/-! ## Queries -/

omit [DecidableEq A] in
theorem mem_find {a : A} {v : α} :
    v ∈ index.find m a ↔ key v ∈ index a ∧ v ∈ m.values := by
  rw [find, List.mem_filterMap]
  constructor
  · rintro ⟨k, hk, hget⟩
    obtain ⟨hv, rfl⟩ := Keyed.get_eq_some.1 hget
    exact ⟨hk, hv⟩
  · rintro ⟨hk, hv⟩
    exact ⟨key v, hk, Keyed.get_eq_some.2 ⟨hv, rfl⟩⟩

/-- A right index answers every query rightly. -/
theorem Indexes.finds (h : index.Indexes m column) : index.Finds m column := by
  intro a
  have hfind : (index.find m a).Nodup := by
    apply (h.nodup a).filterMap
    intro k k' v hk hk'
    exact (Keyed.key_of_get hk).symm.trans (Keyed.key_of_get hk')
  rw [List.perm_ext_iff_of_nodup hfind ((m.values_nodup).filter _)]
  intro v
  rw [mem_find, List.mem_filter, h.mem, decide_eq_true_eq]
  constructor
  · rintro ⟨⟨w, hw, hkey, ha⟩, hv⟩
    rw [m.eq_of_key_eq hw hv hkey] at ha
    exact ⟨hv, ha⟩
  · rintro ⟨hv, ha⟩
    exact ⟨⟨v, hv, rfl, ha⟩, hv⟩

/-- Where queries are right, a key is listed under the attribute of its value
only. -/
theorem Finds.column_eq (h : index.Finds m column) {a : A} {v : α}
    (hk : key v ∈ index a)
    (hv : v ∈ m.values) : column v = some a := by
  have hmem := (h a).mem_iff.1 (mem_find.2 ⟨hk, hv⟩)
  simpa using (List.mem_filter.1 hmem).2

/-- Where queries are right, a key is listed once. -/
theorem Finds.count_le_one (h : index.Finds m column) (a : A) {v : α}
    (hv : v ∈ m.values) :
    (index a).count (key v) ≤ 1 := by
  by_contra hcount
  have hpair : (List.replicate 2 (key v)).Sublist (index a) :=
    List.replicate_sublist_iff.2 (by omega)
  have hfind := hpair.filterMap m.get
  rw [List.filterMap_replicate, Keyed.get_eq_some.2 ⟨hv, rfl⟩] at hfind
  have hnodup : (index.find m a).Nodup :=
    (h a).nodup_iff.2 ((m.values_nodup).filter _)
  have htwo := hnodup.sublist hfind
  simp at htwo

/-- Where queries are right, the answer in order is that part of all values in
order. -/
theorem finds_iff_sort {r : α → α → Prop} [DecidableRel r]
    [Std.Total r] [IsTrans α r]
    (hanti : ∀ v ∈ m.values, ∀ w ∈ m.values, r v w → r w v → v = w) :
    index.Finds m column ↔ ∀ a, (index.find m a).insertionSort r =
      (m.values.insertionSort r).filter fun v => column v = some a := by
  have hfilter : ∀ a,
      ((m.values.insertionSort r).filter fun v => column v = some a).Perm
      (m.values.filter fun v => column v = some a) :=
    fun a => (List.perm_insertionSort r _).filter _
  constructor
  · intro h a
    apply List.Perm.eq_of_pairwise
    · intro v w hv hw
      have hv' := (mem_find.1 ((List.mem_insertionSort r).1 hv)).2
      have hw' := (List.mem_filter.1 ((hfilter a).mem_iff.1 hw)).1
      exact hanti v hv' w hw'
    · exact List.pairwise_insertionSort r _
    · exact (List.pairwise_insertionSort r _).sublist List.filter_sublist
    · exact (List.perm_insertionSort r _).trans ((h a).trans (hfilter a).symm)
  · intro h a
    have hsorted := (List.perm_insertionSort r (index.find m a)).symm
    rw [h a] at hsorted
    exact hsorted.trans (hfilter a)

/-! ## Filling a map and its index -/

/-- A map filled value by value. -/
def fillMap (key : α → κ) (values : List α) : Keyed key :=
  values.foldl (fun m v => m.insert v) .empty

/-- An index filled beside it, without a look at what is there. -/
def fillIndex (key : α → κ) (column : α → Option A) (values : List α) :
    SecondaryIndex A κ :=
  values.foldl (fun index v => index.push (column v) (key v)) empty

variable {values : List α}

omit [DecidableEq κ] in
theorem fillIndex_apply (a : A) :
    fillIndex key column values a =
      (values.filter fun v => column v = some a).map key := by
  induction values using List.reverseRecOn with
  | nil => rfl
  | append_singleton values v ih =>
      rw [fillIndex, List.foldl_append, List.filter_append,
        List.map_append, ← ih]
      change (fillIndex key column values).push (column v) (key v) a = _
      rw [push_apply]
      split
      · rename_i h
        simp [h]
      · rename_i h
        simp [h]

omit [DecidableEq A] in
theorem get_fillMap_ne_none {k : κ} (h : k ∈ values.map key) :
    ∃ v ∈ (fillMap key values).values, key v = k := by
  induction values using List.reverseRecOn with
  | nil => exact absurd h List.not_mem_nil
  | append_singleton values v ih =>
      rw [fillMap, List.foldl_append]
      by_cases hk : k = key v
      · exact ⟨v, Keyed.mem_insert.2 (.inl rfl), hk.symm⟩
      · rw [List.map_append, List.mem_append, List.map_singleton,
          List.mem_singleton] at h
        obtain ⟨w, hw, rfl⟩ := ih (h.resolve_right hk)
        exact ⟨w, Keyed.mem_insert.2 (.inr ⟨hw, hk⟩), rfl⟩

omit [DecidableEq A] in
theorem mem_of_mem_fillMap {v : α} (h : v ∈ (fillMap key values).values) :
    v ∈ values := by
  induction values using List.reverseRecOn with
  | nil => exact absurd h List.not_mem_nil
  | append_singleton values w ih =>
      rw [fillMap, List.foldl_append] at h
      rw [List.mem_append, List.mem_singleton]
      obtain rfl | ⟨hv, -⟩ := Keyed.mem_insert.1 h
      · exact .inr rfl
      · exact .inl (ih hv)

theorem indexes_fill (h : (values.map key).Nodup) :
    (fillIndex key column values).Indexes (fillMap key values) column := by
  induction values using List.reverseRecOn with
  | nil => exact indexes_empty
  | append_singleton values v ih =>
      rw [List.map_append, List.nodup_append, List.map_singleton] at h
      obtain ⟨hvalues, -, hdisjoint⟩ := h
      rw [fillIndex, fillMap, List.foldl_append, List.foldl_append]
      apply (ih hvalues).push
      rw [Keyed.get_eq_none]
      intro w hw
      exact hdisjoint (key w)
        (List.mem_map_of_mem (mem_of_mem_fillMap hw)) (key v)
        List.mem_cons_self

/-- If every value has the attribute, queries are right only if the keys are
distinct. -/
theorem nodup_of_finds_fill (htotal : ∀ v, (column v).isSome)
    (h : (fillIndex key column values).Finds (fillMap key values) column) :
    (values.map key).Nodup := by
  rw [List.nodup_iff_count_le_one]
  intro k
  by_cases hk : k ∈ values.map key
  · obtain ⟨v, hv, rfl⟩ := get_fillMap_ne_none hk
    obtain ⟨a, ha⟩ := Option.isSome_iff_exists.1 (htotal v)
    have hsame : ∀ w ∈ values, key w = key v → column w = some a := by
      intro w hw hkey
      obtain ⟨b, hb⟩ := Option.isSome_iff_exists.1 (htotal w)
      have hlisted : key v ∈ fillIndex key column values b := by
        rw [fillIndex_apply, ← hkey]
        exact List.mem_map_of_mem (List.mem_filter.2 ⟨hw, by simpa using hb⟩)
      rw [hb, ← h.column_eq hlisted hv, ha]
    have hcount : (values.map key).count (key v) =
        (fillIndex key column values a).count (key v) := by
      rw [fillIndex_apply, List.count_eq_countP, List.count_eq_countP,
        List.countP_map,
        List.countP_map, List.countP_filter]
      apply List.countP_congr
      intro w hw
      simp only [Function.comp_apply, beq_iff_eq, Bool.and_eq_true,
        decide_eq_true_eq]
      exact ⟨fun hkey => ⟨hkey, hsame w hw hkey⟩, fun hkey => hkey.1⟩
    rw [hcount]
    exact h.count_le_one a hv
  · rw [List.count_eq_zero_of_not_mem hk]
    omega

end SecondaryIndex

end CodeRs
