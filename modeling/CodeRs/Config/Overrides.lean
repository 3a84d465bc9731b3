import CodeRs.Lib.Toml

/-!
# Overrides of the configuration

`persist_overrides` and `persist_overrides_and_clear_if_none` of
`core/src/config_edit.rs`.  The setter goes through tables that are not inline
and puts an empty one in the place of everything else.  The remover stops
there.  A file is the document that is read from it.
-/

namespace CodeRs.Config

open Toml

/-! ## One override -/

/-- The table that the setter goes on in: one that is there, or an empty
implicit one. -/
def subtable : Option Item → Bool × Entries
  | some (.table implicit entries) => (implicit, entries)
  | _ => (true, [])

def applyTomlEditOverrideSegments : KeyPath → Item → Entries → Entries
  | [], _, doc => doc
  | seg :: rest, value, doc =>
      if rest = [] then insert seg value doc
      else
        let sub := subtable (lookup seg doc)
        insert seg
          (.table sub.1 (applyTomlEditOverrideSegments rest value sub.2)) doc

/-- `remove_toml_edit_segments`: the document without the item, if there is
one. -/
def removeTomlEditSegments : KeyPath → Entries → Option Entries
  | [], _ => none
  | seg :: rest, doc =>
      if rest = [] then
        if (lookup seg doc).isSome then some (erase seg doc) else none
      else match lookup seg doc with
        | some (.table implicit entries) =>
            (removeTomlEditSegments rest entries).map fun entries =>
              insert seg (.table implicit entries) doc
        | _ => none

def removed (path : KeyPath) (doc : Entries) : Entries :=
  (removeTomlEditSegments path doc).getD doc

/-! ## What the setter does -/

section Setter

variable {p q : KeyPath} {value : Item} {doc : Entries}

theorem find_apply_below (hleaf : value.IsLeaf) (hp : p ≠ []) (h : p <+: q) :
    find q (applyTomlEditOverrideSegments p value doc) = if q = p then
      some value else none := by
  induction p generalizing q doc with
  | nil => exact absurd rfl hp
  | cons seg rest ih =>
      obtain ⟨q, rfl⟩ : ∃ q', q = seg :: q' := by
        obtain ⟨tail, rfl⟩ := h
        exact ⟨rest ++ tail, rfl⟩
      have hrest := (List.cons_prefix_cons.1 h).2
      rw [applyTomlEditOverrideSegments, find_cons]
      by_cases hnil : rest = []
      · rw [if_pos hnil, lookup_insert_self, Option.bind_some,
          hleaf.descend_eq, hnil]
        simp
      · have hq : q ≠ [] := by
          rintro rfl
          exact hnil (List.prefix_nil.1 hrest)
        rw [if_neg hnil]
        simp only [lookup_insert_self, Option.bind_some]
        rw [descend_table _ hq, ih hnil hrest]
        simp

theorem subtable_table {implicit : Bool} {entries : Entries} :
    subtable (some (.table implicit entries)) = (implicit, entries) := rfl

/-- Where there is no table, the setter goes on in an empty one. -/
theorem subtable_of_no_table {item : Option Item}
    (h : ∀ implicit entries, item ≠ some (.table implicit entries)) :
    subtable item = (true, []) := by
  cases item with
  | none => rfl
  | some item =>
      cases item with
      | table implicit entries => exact absurd rfl (h implicit entries)
      | string text => rfl
      | boolean bool => rfl
      | other raw => rfl
      | array items => rfl
      | inlineTable entries => rfl
      | arrayOfTables tables => rfl

theorem find_apply_cons {seg : Text} {rest : KeyPath} (hrest : rest ≠ [])
    (hq : q ≠ []) :
    find (seg :: q) (applyTomlEditOverrideSegments (seg :: rest) value doc) =
      find q
        (applyTomlEditOverrideSegments rest value
          (subtable (lookup seg doc)).2) := by
  rw [applyTomlEditOverrideSegments, if_neg hrest]
  exact find_cons_table lookup_insert_self hq

/-- The setter leaves what is at another key path, or it replaces an inline
table on the way there. -/
theorem find_apply_of_not_comparable (h : ¬ Comparable p q) :
    SharesInline p q doc ∧
      find q (applyTomlEditOverrideSegments p value doc) = none ∨
      ¬ SharesInline p q doc ∧
        find q (applyTomlEditOverrideSegments p value doc) = find q doc := by
  induction p generalizing q doc with
  | nil => exact absurd (Or.inl List.nil_prefix) h
  | cons seg rest ih =>
      obtain ⟨key, q, rfl⟩ :=
        List.exists_cons_of_ne_nil (ne_nil_of_not_comparable h).2
      by_cases hkey : seg = key
      · subst hkey
        have hrest : ¬ Comparable rest q :=
          fun hc => h (comparable_cons_iff.2 ⟨rfl, hc⟩)
        obtain ⟨hne, hq⟩ := ne_nil_of_not_comparable hrest
        rw [find_apply_cons hne hq]
        by_cases htable : ∃ implicit entries,
          lookup seg doc = some (.table implicit entries)
        · obtain ⟨implicit, entries, hlookup⟩ := htable
          have hshares : SharesInline (seg :: rest) (seg :: q) doc ↔
              SharesInline rest q entries := by
            rw [sharesInline_cons, hlookup]
            simp
          rw [hshares, hlookup, subtable_table, find_cons_table hlookup hq]
          exact ih hrest
        · have hsub := subtable_of_no_table fun implicit entries hlookup =>
            htable ⟨implicit, entries, hlookup⟩
          have hnone :
              find q (applyTomlEditOverrideSegments rest value []) = none := by
            rcases ih hrest with ⟨-, hfind⟩ | ⟨-, hfind⟩
            · exact hfind
            · rw [hfind, find_nil hq]
          rw [hsub, hnone]
          by_cases hinline : ∃ entries,
            lookup seg doc = some (.inlineTable entries)
          · exact Or.inl ⟨sharesInline_cons.2 (Or.inl hinline), rfl⟩
          · refine Or.inr ⟨?_, ?_⟩
            · rw [sharesInline_cons]
              rintro (hin | ⟨implicit, entries, hlookup, -⟩)
              · exact hinline hin
              · exact htable ⟨implicit, entries, hlookup⟩
            · exact (find_cons_of_no_table hq (fun implicit entries hlookup =>
                htable ⟨implicit, entries, hlookup⟩) fun entries hlookup =>
                  hinline ⟨entries, hlookup⟩).symm
      · refine Or.inr ⟨not_sharesInline_of_ne hkey, ?_⟩
        rw [applyTomlEditOverrideSegments, find_cons, find_cons]
        split
        · rw [lookup_insert_of_ne (Ne.symm hkey)]
        · simp only [lookup_insert_of_ne (Ne.symm hkey)]

theorem exists_cons_of_above {seg : Text} {rest q : KeyPath} (hq : q ≠ [])
    (h : q <+: seg :: rest) (hne : q ≠ seg :: rest) :
    ∃ q', q = seg :: q' ∧ q' <+: rest ∧ q' ≠ rest ∧ rest ≠ [] := by
  obtain ⟨key, q', rfl⟩ := List.exists_cons_of_ne_nil hq
  obtain ⟨rfl, hpre⟩ := List.cons_prefix_cons.1 h
  have hneRest : q' ≠ rest := fun heq => hne (congrArg (key :: ·) heq)
  refine ⟨q', rfl, hpre, hneRest, ?_⟩
  rintro rfl
  exact hneRest (List.prefix_nil.1 hpre)

theorem find_apply_of_above (hq : q ≠ []) (h : q <+: p) (hne : q ≠ p) :
    ∃ implicit entries, find q (applyTomlEditOverrideSegments p value doc) =
        some (.table implicit entries) ∧
      (implicit = true ∨ (∃ old, find q doc = some (.table implicit old)) ∧
        ¬ SharesInline q q doc) := by
  induction p generalizing q doc with
  | nil => exact absurd (List.prefix_nil.1 h) hq
  | cons seg rest ih =>
      obtain ⟨q, rfl, hpre, hneRest, hrest⟩ := exists_cons_of_above hq h hne
      by_cases hnil : q = []
      · subst hnil
        rw [applyTomlEditOverrideSegments, if_neg hrest, find_singleton,
          find_singleton]
        refine ⟨_, _, lookup_insert_self, ?_⟩
        by_cases htable : ∃ implicit entries,
          lookup seg doc = some (.table implicit entries)
        · obtain ⟨implicit, entries, hlookup⟩ := htable
          refine Or.inr ⟨⟨entries, ?_⟩, ?_⟩
          · rw [hlookup, subtable_table]
          · rw [sharesInline_cons, hlookup]
            rintro (⟨sub, heq⟩ | ⟨_, _, -, r, hr, hrnil, -⟩)
            · cases heq
            · exact hr (List.prefix_nil.1 hrnil)
        · have hsub := subtable_of_no_table fun implicit entries hlookup =>
            htable ⟨implicit, entries, hlookup⟩
          exact Or.inl (congrArg Prod.fst hsub)
      · rw [find_apply_cons hrest hnil]
        obtain ⟨implicit, entries, hfind, hold⟩ := ih hnil hpre hneRest
        refine ⟨implicit, entries, hfind, ?_⟩
        by_cases htable : ∃ implicit entries,
          lookup seg doc = some (.table implicit entries)
        · obtain ⟨own, sub, hlookup⟩ := htable
          rw [hlookup, subtable_table] at hold
          refine hold.imp_right fun ⟨⟨old, hfindOld⟩, hshares⟩ =>
            ⟨⟨old, ?_⟩, ?_⟩
          · rw [find_cons_table hlookup hnil]
            exact hfindOld
          · rw [sharesInline_cons, hlookup]
            rintro (⟨other, heq⟩ | ⟨_, other, heq, hother⟩)
            · cases heq
            · cases heq
              exact hshares hother
        · have hsub := subtable_of_no_table fun implicit entries hlookup =>
            htable ⟨implicit, entries, hlookup⟩
          rw [hsub] at hold
          refine hold.imp_right fun ⟨⟨old, hfindOld⟩, _⟩ => ?_
          rw [find_nil hnil] at hfindOld
          cases hfindOld

/-- The setter makes no inline table. -/
theorem isInline_of_apply (hleaf : value.IsLeaf) (hp : p ≠ [])
    (h : IsInline q (applyTomlEditOverrideSegments p value doc)) :
    ¬ Comparable p q ∧ ¬ SharesInline p q doc ∧ IsInline q doc := by
  obtain ⟨entries, hfind⟩ := h
  have hcomparable : ¬ Comparable p q := by
    rintro (hpre | hpre)
    · rw [find_apply_below hleaf hp hpre] at hfind
      split at hfind
      · cases hfind
        cases hleaf
      · cases hfind
    · by_cases hq : q = []
      · rw [hq] at hfind
        cases hfind
      · by_cases hne : q = p
        · rw [hne, find_apply_below hleaf hp (List.prefix_refl p),
            if_pos rfl] at hfind
          cases hfind
          cases hleaf
        · obtain ⟨implicit, sub, htable, -⟩ := @find_apply_of_above p q value
            doc hq hpre hne
          rw [htable] at hfind
          cases hfind
  rcases @find_apply_of_not_comparable p q value doc hcomparable with
    ⟨-, hnone⟩ | ⟨hshares, hsame⟩
  · rw [hnone] at hfind
    cases hfind
  · rw [hsame] at hfind
    exact ⟨hcomparable, hshares, entries, hfind⟩

end Setter

/-! ## What the remover does -/

section Remover

variable {p q : KeyPath} {doc : Entries}

theorem removed_singleton {seg : Text} :
    find (seg :: q) (removed [seg] doc) = none := by
  rw [removed, removeTomlEditSegments, if_pos rfl]
  cases hlookup : lookup seg doc with
  | none =>
      rw [if_neg (by simp), Option.getD_none, find_cons, hlookup]
      rfl
  | some item =>
      rw [if_pos (by simp), Option.getD_some, find_cons, lookup_erase_self]
      rfl

theorem remove_of_no_table {seg : Text} {rest : KeyPath} (hrest : rest ≠ [])
    (htable : ∀ implicit entries,
      lookup seg doc ≠ some (.table implicit entries)) :
    removeTomlEditSegments (seg :: rest) doc = none := by
  rw [removeTomlEditSegments, if_neg hrest]
  split
  next implicit entries hlookup =>
    exact absurd hlookup (htable implicit entries)
  · rfl

theorem remove_table {seg : Text} {rest : KeyPath} {implicit : Bool}
    {entries : Entries}
    (hrest : rest ≠ [])
    (hlookup : lookup seg doc = some (.table implicit entries)) :
    removeTomlEditSegments (seg :: rest) doc =
      (removeTomlEditSegments rest entries).map fun entries =>
        insert seg (.table implicit entries) doc := by
  rw [removeTomlEditSegments, if_neg hrest, hlookup]

theorem removed_table {seg : Text} {rest : KeyPath} {implicit : Bool}
    {entries : Entries}
    (hrest : rest ≠ [])
    (hlookup : lookup seg doc = some (.table implicit entries)) :
    removed (seg :: rest) doc = doc ∧ removed rest entries = entries ∨
      removed (seg :: rest) doc =
        insert seg (.table implicit (removed rest entries)) doc := by
  rw [removed, removed, remove_table hrest hlookup]
  cases removeTomlEditSegments rest entries with
  | none => exact Or.inl ⟨rfl, rfl⟩
  | some after => exact Or.inr rfl

theorem find_removed_table {seg : Text} {rest : KeyPath} {implicit : Bool}
    {entries : Entries}
    (hrest : rest ≠ [])
    (hlookup : lookup seg doc = some (.table implicit entries))
    (hq : q ≠ []) : find (seg :: q) (removed (seg :: rest) doc) =
    find q (removed rest entries) := by
  rcases removed_table hrest hlookup with ⟨hsame, hsub⟩ | hchanged
  · rw [hsame, hsub, find_cons_table hlookup hq]
  · rw [hchanged, find_cons_table lookup_insert_self hq]

/-- The remover stops before an inline table. -/
theorem remove_of_beyond (h : Beyond p doc) :
    removeTomlEditSegments p doc = none := by
  induction p generalizing doc with
  | nil => rfl
  | cons seg rest ih =>
      have hrest : rest ≠ [] := by
        rintro rfl
        obtain ⟨r, hr, hpre, hne, -⟩ := h
        obtain ⟨first, r, rfl⟩ := List.exists_cons_of_ne_nil hr
        obtain ⟨rfl, hnil⟩ := List.cons_prefix_cons.1 hpre
        rw [List.prefix_nil.1 hnil] at hne
        exact hne rfl
      rcases (beyond_cons hrest).1 h with
        ⟨entries, hlookup⟩ | ⟨implicit, entries, hlookup, hsub⟩
      · refine remove_of_no_table hrest fun implicit sub hlookup' => ?_
        rw [hlookup] at hlookup'
        cases hlookup'
      · rw [remove_table hrest hlookup, ih hsub, Option.map_none]

theorem removed_of_beyond (h : Beyond p doc) : removed p doc = doc := by
  rw [removed, remove_of_beyond h, Option.getD_none]

theorem find_removed_below (hp : p ≠ []) (hbeyond : ¬ Beyond p doc)
    (h : p <+: q) :
    find q (removed p doc) = none := by
  induction p generalizing q doc with
  | nil => exact absurd rfl hp
  | cons seg rest ih =>
      obtain ⟨q, rfl⟩ : ∃ q', q = seg :: q' := by
        obtain ⟨tail, rfl⟩ := h
        exact ⟨rest ++ tail, rfl⟩
      have hpre := (List.cons_prefix_cons.1 h).2
      by_cases hrest : rest = []
      · rw [hrest]
        exact removed_singleton
      · have hq : q ≠ [] := by
          rintro rfl
          exact hrest (List.prefix_nil.1 hpre)
        rw [beyond_cons hrest, not_or] at hbeyond
        by_cases htable : ∃ implicit entries,
          lookup seg doc = some (.table implicit entries)
        · obtain ⟨implicit, entries, hlookup⟩ := htable
          rw [find_removed_table hrest hlookup hq]
          exact ih hrest (fun hsub => hbeyond.2 ⟨implicit, entries,
            hlookup, hsub⟩) hpre
        · have hno : ∀ implicit entries,
              lookup seg doc ≠ some (.table implicit entries) :=
            fun implicit entries hlookup => htable ⟨implicit, entries, hlookup⟩
          rw [removed, remove_of_no_table hrest hno, Option.getD_none]
          exact find_cons_of_no_table hq hno fun entries hlookup =>
            hbeyond.1 ⟨entries, hlookup⟩

/-- What is at another key path stays. -/
theorem find_removed_of_not_comparable (h : ¬ Comparable p q) :
    find q (removed p doc) = find q doc := by
  induction p generalizing q doc with
  | nil => exact absurd (Or.inl List.nil_prefix) h
  | cons seg rest ih =>
      obtain ⟨key, q, rfl⟩ :=
        List.exists_cons_of_ne_nil (ne_nil_of_not_comparable h).2
      by_cases hkey : seg = key
      · subst hkey
        have hsub : ¬ Comparable rest q :=
          fun hc => h (comparable_cons_iff.2 ⟨rfl, hc⟩)
        obtain ⟨hrest, hq⟩ := ne_nil_of_not_comparable hsub
        by_cases htable : ∃ implicit entries,
          lookup seg doc = some (.table implicit entries)
        · obtain ⟨implicit, entries, hlookup⟩ := htable
          rw [find_removed_table hrest hlookup hq, find_cons_table hlookup hq]
          exact ih hsub
        · have hno : ∀ implicit entries,
              lookup seg doc ≠ some (.table implicit entries) :=
            fun implicit entries hlookup => htable ⟨implicit, entries, hlookup⟩
          rw [removed, remove_of_no_table hrest hno, Option.getD_none]
      · have hlookup :
            lookup key (removed (seg :: rest) doc) = lookup key doc := by
          by_cases hrest : rest = []
          · rw [removed, removeTomlEditSegments, if_pos hrest]
            split
            · exact lookup_erase_of_ne (Ne.symm hkey)
            · rfl
          · by_cases htable : ∃ implicit entries,
              lookup seg doc = some (.table implicit entries)
            · obtain ⟨implicit, entries, hlookup⟩ := htable
              rcases removed_table hrest hlookup with ⟨hsame, -⟩ | hchanged
              · rw [hsame]
              · rw [hchanged, lookup_insert_of_ne (Ne.symm hkey)]
            · have hno : ∀ implicit entries,
                  lookup seg doc ≠ some (.table implicit entries) :=
                fun implicit entries hlookup =>
                  htable ⟨implicit, entries, hlookup⟩
              rw [removed, remove_of_no_table hrest hno, Option.getD_none]
        rw [find_cons, find_cons, hlookup]

theorem find_removed_of_above (hq : q ≠ []) (h : q <+: p) (hne : q ≠ p) :
    find q (removed p doc) = find q doc ∨ ∃ implicit old entries,
      find q doc = some (.table implicit old) ∧
        find q (removed p doc) = some (.table implicit entries) := by
  induction p generalizing q doc with
  | nil => exact absurd (List.prefix_nil.1 h) hq
  | cons seg rest ih =>
      obtain ⟨q, rfl, hpre, hneRest, hrest⟩ := exists_cons_of_above hq h hne
      by_cases htable : ∃ implicit entries,
        lookup seg doc = some (.table implicit entries)
      · obtain ⟨implicit, entries, hlookup⟩ := htable
        by_cases hnil : q = []
        · subst hnil
          rw [find_singleton, find_singleton]
          rcases removed_table hrest hlookup with ⟨hsame, -⟩ | hchanged
          · exact Or.inl (by rw [hsame])
          · exact Or.inr ⟨implicit, entries, _, hlookup,
              by rw [hchanged, lookup_insert_self]⟩
        · rw [find_removed_table hrest hlookup hnil,
            find_cons_table hlookup hnil]
          exact ih hnil hpre hneRest
      · have hno : ∀ implicit entries,
            lookup seg doc ≠ some (.table implicit entries) :=
          fun implicit entries hlookup => htable ⟨implicit, entries, hlookup⟩
        rw [removed, remove_of_no_table hrest hno, Option.getD_none]
        exact Or.inl rfl

theorem isInline_of_removed (h : IsInline q (removed p doc)) :
    IsInline q doc := by
  by_cases hp : p = []
  · rw [hp] at h
    exact h
  · by_cases hbeyond : Beyond p doc
    · rw [removed_of_beyond hbeyond] at h
      exact h
    · obtain ⟨entries, hfind⟩ := h
      by_cases hpre : p <+: q
      · rw [find_removed_below hp hbeyond hpre] at hfind
        cases hfind
      · by_cases habove : q <+: p
        · by_cases hq : q = []
          · rw [hq] at hfind
            cases hfind
          · have hne : q ≠ p := by
              rintro rfl
              exact hpre (List.prefix_refl q)
            rcases @find_removed_of_above p q doc hq habove hne with
              hsame | ⟨implicit, old, sub, -, htable⟩
            · rw [hsame] at hfind
              exact ⟨entries, hfind⟩
            · rw [htable] at hfind
              cases hfind
        · rw [find_removed_of_not_comparable (not_or.2 ⟨hpre, habove⟩)] at hfind
          exact ⟨entries, hfind⟩

end Remover

/-! ## A list of overrides -/

inductive NoneBehavior where
  | skip
  | remove
  deriving DecidableEq

/-- An override: its key segments and its value. -/
abbrev Override := List Text × Option Text

/-- The item for a value: a boolean where it reads as one. -/
def itemValue (value : Text) : Item :=
  if value.trim = "true".toList then .boolean true
  else if value.trim = "false".toList then .boolean false
  else .string value

/-- The key path that an override is applied to. -/
def segmentsToApply (effectiveProfile : Option Text)
    (segments : List Text) : KeyPath :=
  match effectiveProfile with
  | none => segments
  | some name =>
      if segments.head? = some "profiles".toList then segments
      else "profiles".toList :: name :: segments

/-- The profile that is given, or the active one of the document. -/
def effectiveProfile (profile : Option Text) (doc : Entries) : Option Text :=
  profile.or <| match lookup "profile".toList doc with
    | some (.string name) => some name
    | _ => none

/-- The loop over the overrides, with the document and whether it was
changed. -/
def applyOverrides (profile : Option Text) (noneBehavior : NoneBehavior) :
    List Override → Entries × Bool → Entries × Bool
  | [], state => state
  | (segments, some value) :: rest, (doc, _) =>
      applyOverrides profile noneBehavior rest
        (applyTomlEditOverrideSegments (segmentsToApply profile segments)
          (itemValue value) doc,
          true)
  | (segments, none) :: rest, (doc, mutated) =>
      applyOverrides profile noneBehavior rest <|
        if noneBehavior = .remove then
          match removeTomlEditSegments (segmentsToApply profile segments)
            doc with
          | some doc => (doc, true)
          | none => (doc, mutated)
        else (doc, mutated)

/-- `persist_overrides_with_behavior`: the file after it.  Without a file there
is `none`. -/
def persistOverridesWithBehavior (file : Option Entries) (profile : Option Text)
    (overrides : List Override) (noneBehavior : NoneBehavior) :
    Option Entries :=
  if overrides = [] then file
  else if noneBehavior = .skip ∧ overrides.all (·.2.isNone) then file
  else if file.isNone ∧ noneBehavior = .remove ∧
    overrides.all (·.2.isNone) then file
  else
    let doc := file.getD []
    let result :=
      applyOverrides (effectiveProfile profile doc) noneBehavior overrides (doc,
        false)
    if result.2 then some result.1 else file

def persistOverrides (file : Option Entries) (profile : Option Text)
    (overrides : List (List Text × Text)) : Option Entries :=
  persistOverridesWithBehavior file profile
    (overrides.map fun override => (override.1, some override.2)) .skip

def persistOverridesAndClearIfNone (file : Option Entries)
    (profile : Option Text)
    (overrides : List Override) : Option Entries :=
  persistOverridesWithBehavior file profile overrides .remove

end CodeRs.Config
