import CodeRs.Lib.Text
import Mathlib.Data.List.Basic

/-!
# TOML documents

A document is a tree of tables.  A table is written under a header of its own
or inline; one without a header of its own is implicit, and is in the file only
with what is in it.  A key path goes through tables of both kinds.
-/

namespace CodeRs.Toml

/-- What a key stands for.  Numbers and times are kept as they are written. -/
inductive Item where
  | string (value : Text)
  | boolean (value : Bool)
  | other (raw : Text)
  | array (items : List Item)
  | inlineTable (entries : List (Text × Item))
  | table (implicit : Bool) (entries : List (Text × Item))
  | arrayOfTables (tables : List (List (Text × Item)))

/-- The keys of a table with their items. -/
abbrev Entries := List (Text × Item)

abbrev KeyPath := List Text

/-! ## Entries -/

/-- `get`. -/
def lookup (key : Text) : Entries → Option Item
  | [] => none
  | (k, item) :: rest => if k = key then some item else lookup key rest

/-- `insert`: in the place of the item with the key, or at the end. -/
def insert (key : Text) (item : Item) : Entries → Entries
  | [] => [(key, item)]
  | (k, old) :: rest =>
      if k = key then (key, item) :: rest else (k, old) :: insert key item rest

/-- `remove`. -/
def erase (key : Text) (entries : Entries) : Entries :=
  entries.filter (·.1 ≠ key)

variable {key other : Text} {item : Item} {entries : Entries}

@[simp] theorem lookup_nil : lookup key [] = none := rfl

@[simp] theorem lookup_insert_self :
    lookup key (insert key item entries) = some item := by
  induction entries with
  | nil => exact if_pos rfl
  | cons entry rest ih =>
      rw [insert]
      split
      · exact if_pos rfl
      next hne =>
        rw [lookup, if_neg hne]
        exact ih

@[simp] theorem lookup_insert_of_ne (h : other ≠ key) :
    lookup other (insert key item entries) = lookup other entries := by
  induction entries with
  | nil => exact if_neg h.symm
  | cons entry rest ih =>
      rw [insert]
      split
      next heq =>
        rw [lookup, lookup, if_neg h.symm, heq, if_neg h.symm]
      next hne =>
        rw [lookup, lookup, ih]

@[simp] theorem lookup_erase_self : lookup key (erase key entries) = none := by
  induction entries with
  | nil => rfl
  | cons entry rest ih =>
      obtain ⟨k, old⟩ := entry
      rw [erase, List.filter_cons]
      by_cases h : k = key
      · rw [if_neg (by simpa using h)]
        exact ih
      · rw [if_pos (by simpa using h), lookup, if_neg h]
        exact ih

@[simp] theorem lookup_erase_of_ne (h : other ≠ key) :
    lookup other (erase key entries) = lookup other entries := by
  induction entries with
  | nil => rfl
  | cons entry rest ih =>
      obtain ⟨k, old⟩ := entry
      rw [erase, List.filter_cons, lookup]
      by_cases hkey : k = key
      · rw [if_neg (by simpa using hkey), if_neg (by rw [hkey]; exact h.symm)]
        exact ih
      · rw [if_pos (by simpa using hkey), lookup]
        split
        · rfl
        · exact ih

/-! ## Key paths -/

namespace Item

/-- The item of a key in a table of either kind. -/
def child (key : Text) : Item → Option Item
  | inlineTable entries => lookup key entries
  | table _ entries => lookup key entries
  | _ => none

/-- The item at a key path. -/
def descend : KeyPath → Item → Option Item
  | [], item => some item
  | key :: rest, item => (item.child key).bind (descend rest)

/-- A string or a boolean. -/
inductive IsLeaf : Item → Prop
  | string (value : Text) : IsLeaf (.string value)
  | boolean (value : Bool) : IsLeaf (.boolean value)

/-- An item that is in the file by itself. -/
def Solid (item : Item) : Prop := ∀ entries, item ≠ .table true entries

theorem IsLeaf.solid {item : Item} (h : item.IsLeaf) : item.Solid := by
  intro entries heq
  rw [heq] at h
  cases h

theorem IsLeaf.descend_eq {item : Item} (h : item.IsLeaf) (path : KeyPath) :
    item.descend path = if path = [] then some item else none := by
  cases path with
  | nil => rfl
  | cons key rest =>
      rw [if_neg (List.cons_ne_nil key rest)]
      cases h with
      | string value => rfl
      | boolean value => rfl

end Item

/-- The item at a key path of a document. -/
def find (path : KeyPath) (doc : Entries) : Option Item :=
  (Item.table false doc).descend path

/-- There is an inline table at a key path. -/
def IsInline (path : KeyPath) (doc : Entries) : Prop :=
  ∃ entries, find path doc = some (.inlineTable entries)

/-- There is something of a key path in the file. -/
def InFile (path : KeyPath) (doc : Entries) : Prop :=
  ∃ below item, path <+: below ∧ find below doc = some item ∧ item.Solid

/-- Of two key paths one goes on where the other one ends. -/
def Comparable (p q : KeyPath) : Prop := p <+: q ∨ q <+: p

variable {path rest : KeyPath} {doc : Entries}

theorem find_cons : find (key :: rest) doc = (lookup key doc).bind
    (Item.descend rest) := rfl

/-- Below a table it does not matter how it is written. -/
theorem descend_table (implicit : Bool) (h : path ≠ []) :
    (Item.table implicit entries).descend path = find path entries := by
  cases path with
  | nil => exact absurd rfl h
  | cons key rest => rfl

/-- Nothing is below an item that is no table. -/
theorem find_cons_of_no_table (h : rest ≠ [])
    (htable : ∀ implicit entries,
      lookup key doc ≠ some (.table implicit entries))
    (hinline : ∀ entries, lookup key doc ≠ some (.inlineTable entries)) :
    find (key :: rest) doc = none := by
  obtain ⟨first, rest, rfl⟩ := List.exists_cons_of_ne_nil h
  rw [find_cons]
  cases hlookup : lookup key doc with
  | none => rfl
  | some item =>
      cases item with
      | string value => rfl
      | boolean value => rfl
      | other raw => rfl
      | array items => rfl
      | inlineTable entries => exact absurd hlookup (hinline entries)
      | table implicit entries => exact absurd hlookup (htable implicit entries)
      | arrayOfTables tables => rfl

/-- Nothing is in an empty document. -/
theorem find_nil (h : path ≠ []) : find path [] = none := by
  obtain ⟨first, rest, rfl⟩ := List.exists_cons_of_ne_nil h
  rfl

theorem find_cons_table {implicit : Bool}
    (hlookup : lookup key doc = some (.table implicit entries))
    (h : rest ≠ []) : find (key :: rest) doc = find rest entries := by
  rw [find_cons, hlookup, Option.bind_some, descend_table implicit h]

theorem find_singleton : find [key] doc = lookup key doc := by
  rw [find_cons]
  cases lookup key doc with
  | none => rfl
  | some item => rfl

/-- An inline table on the way along a key path is the item of its first key,
or it is on the way along the rest in a table. -/
theorem exists_inline_cons {p : KeyPath} {P : KeyPath → Prop}
    (hfirst : P [key]) :
    (∃ r, r ≠ [] ∧ r <+: key :: p ∧ P r ∧ IsInline r doc) ↔
      (∃ entries, lookup key doc = some (.inlineTable entries)) ∨
        ∃ implicit entries, lookup key doc = some (.table implicit entries) ∧
          ∃ r, r ≠ [] ∧ r <+: p ∧ P (key :: r) ∧ IsInline r entries := by
  constructor
  · rintro ⟨r, hr, hp, hP, entries, hfind⟩
    obtain ⟨first, r, rfl⟩ := List.exists_cons_of_ne_nil hr
    obtain ⟨rfl, hp'⟩ := List.cons_prefix_cons.1 hp
    by_cases hnil : r = []
    · rw [hnil, find_singleton] at hfind
      exact Or.inl ⟨entries, hfind⟩
    · by_cases hinline : ∃ entries,
        lookup first doc = some (.inlineTable entries)
      · exact Or.inl hinline
      · by_cases htable : ∃ implicit entries,
          lookup first doc = some (.table implicit entries)
        · obtain ⟨implicit, sub, hlookup⟩ := htable
          rw [find_cons_table hlookup hnil] at hfind
          exact Or.inr ⟨implicit, sub, hlookup, r, hnil, hp', hP,
            entries, hfind⟩
        · have hnone : find (first :: r) doc = none :=
            find_cons_of_no_table hnil
              (fun implicit sub h => htable ⟨implicit, sub, h⟩)
              fun sub h => hinline ⟨sub, h⟩
          rw [hnone] at hfind
          cases hfind
  · rintro (⟨entries, hlookup⟩ | ⟨implicit, sub, hlookup, r, hr, hp, hP,
      entries, hfind⟩)
    · refine ⟨[key], List.cons_ne_nil key [],
        List.cons_prefix_cons.2 ⟨rfl, List.nil_prefix⟩, hfirst, entries, ?_⟩
      rw [find_singleton]
      exact hlookup
    · refine ⟨key :: r, List.cons_ne_nil key r,
        List.cons_prefix_cons.2 ⟨rfl, hp⟩, hP, entries, ?_⟩
      rw [find_cons_table hlookup hr]
      exact hfind

/-- Two key paths have an inline table in common. -/
def SharesInline (p q : KeyPath) (doc : Entries) : Prop :=
  ∃ r, r ≠ [] ∧ r <+: p ∧ r <+: q ∧ IsInline r doc

theorem sharesInline_cons {p q : KeyPath} :
    SharesInline (key :: p) (key :: q) doc ↔
      (∃ entries, lookup key doc = some (.inlineTable entries)) ∨
        ∃ implicit entries, lookup key doc = some (.table implicit entries) ∧
          SharesInline p q entries := by
  have hcons : ∀ r, key :: r <+: key :: q ↔ r <+: q := by
    intro r
    rw [List.cons_prefix_cons]
    exact and_iff_right rfl
  rw [SharesInline, exists_inline_cons ((hcons []).2 List.nil_prefix)]
  simp only [hcons, SharesInline]

/-- A key path goes on below an inline table. -/
def Beyond (p : KeyPath) (doc : Entries) : Prop :=
  ∃ r, r ≠ [] ∧ r <+: p ∧ r ≠ p ∧ IsInline r doc

theorem beyond_cons {p : KeyPath} (hp : p ≠ []) :
    Beyond (key :: p) doc ↔
      (∃ entries, lookup key doc = some (.inlineTable entries)) ∨
        ∃ implicit entries, lookup key doc = some (.table implicit entries) ∧
          Beyond p entries := by
  have hcons : ∀ r, key :: r ≠ key :: p ↔ r ≠ p :=
    fun r => not_congr (List.cons_inj_right key)
  rw [Beyond, exists_inline_cons ((hcons []).2 hp.symm)]
  simp only [hcons, Beyond]

/-- Key paths with different first keys have nothing in common. -/
theorem not_sharesInline_of_ne {p q : KeyPath} (h : key ≠ other) :
    ¬ SharesInline (key :: p) (other :: q) doc := by
  rintro ⟨r, hr, hp, hq, -⟩
  obtain ⟨first, r, rfl⟩ := List.exists_cons_of_ne_nil hr
  exact h
    ((List.cons_prefix_cons.1 hp).1.symm.trans (List.cons_prefix_cons.1 hq).1)

theorem comparable_cons_iff {p q : KeyPath} :
    Comparable (key :: p) (other :: q) ↔ key = other ∧ Comparable p q := by
  rw [Comparable, Comparable, List.cons_prefix_cons, List.cons_prefix_cons]
  constructor
  · rintro (⟨rfl, h⟩ | ⟨rfl, h⟩)
    · exact ⟨rfl, Or.inl h⟩
    · exact ⟨rfl, Or.inr h⟩
  · rintro ⟨rfl, h | h⟩
    · exact Or.inl ⟨rfl, h⟩
    · exact Or.inr ⟨rfl, h⟩

/-- An inline table that is in no other one. -/
structure Outermost (r : KeyPath) (doc : Entries) : Prop where
  inline : IsInline r doc
  plain : ∀ t, t ≠ [] → t <+: r → t ≠ r → ¬ IsInline t doc

theorem IsInline.ne_nil {r : KeyPath} (h : IsInline r doc) : r ≠ [] := by
  rintro rfl
  obtain ⟨entries, hfind⟩ := h
  cases hfind

theorem exists_outermost {t : KeyPath} (h : IsInline t doc) :
    ∃ r, Outermost r doc ∧ r <+: t := by
  induction hlength : t.length using Nat.strong_induction_on generalizing t with
  | _ n ih =>
      by_cases hinner : ∃ s, s ≠ [] ∧ s <+: t ∧ s ≠ t ∧ IsInline s doc
      · obtain ⟨s, -, hpre, hne, hinline⟩ := hinner
        have hlt : s.length < n := by
          rw [← hlength]
          exact lt_of_le_of_ne hpre.length_le fun heq =>
            hne (hpre.eq_of_length heq)
        obtain ⟨r, hr, hrs⟩ := ih s.length hlt hinline rfl
        exact ⟨r, hr, hrs.trans hpre⟩
      · refine ⟨t, ⟨h, fun s hs hpre hne hinline => ?_⟩, List.prefix_refl t⟩
        exact hinner ⟨s, hs, hpre, hne, hinline⟩

theorem ne_nil_of_not_comparable {p q : KeyPath} (h : ¬ Comparable p q) :
    p ≠ [] ∧ q ≠ [] := by
  constructor
  · rintro rfl
    exact h (Or.inl List.nil_prefix)
  · rintro rfl
    exact h (Or.inr List.nil_prefix)

end CodeRs.Toml
