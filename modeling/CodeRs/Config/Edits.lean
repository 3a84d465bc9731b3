import CodeRs.Config.Overrides

/-!
# Edits of a document

What a run of edits does at one key path: at those that are not edited, at
those that are set last and at those that are cleared last.
-/

namespace CodeRs.Config

open Toml

/-- An edit of a document: set an item at a key path or clear it. -/
abbrev Edit := KeyPath × Option Item

def Edit.apply (doc : Entries) : Edit → Entries
  | (path, some value) => applyTomlEditOverrideSegments path value doc
  | (path, none) => removed path doc

def applyEdits : List Edit → Entries → Entries
  | [], doc => doc
  | edit :: rest, doc => applyEdits rest (edit.apply doc)

/-- The last value that is given for a key path. -/
def LastGiven (edits : List Edit) (path : KeyPath)
    (value : Option Item) : Prop :=
  ∃ before later, edits = before ++ (path, value) :: later ∧
    path ∉ later.map Prod.fst

/-- The key paths are not empty, and what is set is a leaf. -/
def Proper (edits : List Edit) : Prop :=
  ∀ edit ∈ edits, edit.1 ≠ [] ∧ ∀ value, edit.2 = some value → value.IsLeaf

variable {edits later : List Edit} {edit : Edit} {p q : KeyPath} {doc : Entries}
    {value : Item}

theorem applyEdits_append (edits later : List Edit) (doc : Entries) :
    applyEdits (edits ++ later) doc =
      applyEdits later (applyEdits edits doc) := by
  induction edits generalizing doc with
  | nil => rfl
  | cons edit rest ih => exact ih _

theorem Proper.of_append (h : Proper (edits ++ later)) :
    Proper edits ∧ Proper later :=
  ⟨fun edit hmem => h edit (List.mem_append_left _ hmem),
    fun edit hmem => h edit (List.mem_append_right _ hmem)⟩

theorem Proper.head (h : Proper (edit :: edits)) :
    edit.1 ≠ [] ∧ ∀ value, edit.2 = some value → value.IsLeaf :=
  h edit List.mem_cons_self

theorem Proper.tail (h : Proper (edit :: edits)) : Proper edits :=
  fun other hmem => h other (List.mem_cons_of_mem edit hmem)

/-! ## Inline tables -/

theorem isInline_of_edit
    (hproper : edit.1 ≠ [] ∧ ∀ value, edit.2 = some value → value.IsLeaf)
    (h : IsInline q (edit.apply doc)) : IsInline q doc := by
  obtain ⟨path, value⟩ := edit
  cases value with
  | none => exact isInline_of_removed h
  | some value =>
      exact (isInline_of_apply (hproper.2 value rfl) hproper.1 h).2.2

theorem isInline_of_edits (hproper : Proper edits)
    (h : IsInline q (applyEdits edits doc)) :
    IsInline q doc := by
  induction edits generalizing doc with
  | nil => exact h
  | cons edit rest ih => exact isInline_of_edit hproper.head (ih hproper.tail h)

/-! ## Other key paths -/

theorem find_edit_of_not_comparable (doc : Entries)
    (h : ¬ Comparable edit.1 q) :
    edit.2.isSome ∧ SharesInline edit.1 q doc ∧ find q (edit.apply doc) = none ∨
      (edit.2.isSome → ¬ SharesInline edit.1 q doc) ∧
        find q (edit.apply doc) = find q doc := by
  obtain ⟨path, value⟩ := edit
  cases value with
  | none =>
      refine Or.inr ⟨?_, find_removed_of_not_comparable h⟩
      intro hsome
      cases hsome
  | some value =>
      rcases @find_apply_of_not_comparable path q value doc h with
        ⟨hshares, hnone⟩ | ⟨hshares, hsame⟩
      · exact Or.inl ⟨rfl, hshares, hnone⟩
      · exact Or.inr ⟨fun _ => hshares, hsame⟩

/-- What an edit does at a key path: nothing, or nothing is there afterwards,
or it holds what is set, or a table above what is set or cleared. -/
theorem find_edit_cases (doc : Entries)
    (hproper : edit.1 ≠ [] ∧ ∀ value, edit.2 = some value → value.IsLeaf)
    (hq : q ≠ []) :
    find q (edit.apply doc) = find q doc ∨ find q (edit.apply doc) = none ∨
      edit.1 = q ∧ find q (edit.apply doc) = edit.2 ∨
        ∃ implicit sub, find q (edit.apply doc) = some (.table implicit sub) ∧
          (implicit = true ∨ ∃ old,
            find q doc = some (.table implicit old)) := by
  by_cases hcomparable : Comparable edit.1 q
  · obtain ⟨path, value⟩ := edit
    by_cases hne : q = path
    · subst hne
      cases value with
      | some value =>
          refine Or.inr (Or.inr (Or.inl ⟨rfl, ?_⟩))
          rw [Edit.apply,
            find_apply_below (hproper.2 value rfl) hq (List.prefix_refl q),
            if_pos rfl]
      | none =>
          by_cases hbeyond : Beyond q doc
          · rw [Edit.apply, removed_of_beyond hbeyond]
            exact Or.inl rfl
          · exact Or.inr
              (Or.inl (find_removed_below hq hbeyond (List.prefix_refl q)))
    · rcases hcomparable with hpre | habove
      · cases value with
        | some value =>
            refine Or.inr (Or.inl ?_)
            rw [Edit.apply,
              find_apply_below (hproper.2 value rfl) hproper.1 hpre, if_neg hne]
        | none =>
            by_cases hbeyond : Beyond path doc
            · rw [Edit.apply, removed_of_beyond hbeyond]
              exact Or.inl rfl
            · exact Or.inr (Or.inl (find_removed_below hproper.1 hbeyond hpre))
      · cases value with
        | some value =>
            obtain ⟨implicit, sub, htable, himplicit⟩ :=
              @find_apply_of_above path q value doc hq habove hne
            exact Or.inr
              (Or.inr (Or.inr ⟨implicit, sub, htable,
                himplicit.imp_right And.left⟩))
        | none =>
            rcases @find_removed_of_above path q doc hq habove hne with
              hsame | ⟨implicit, old, sub, hold, htable⟩
            · exact Or.inl hsame
            · exact Or.inr
                (Or.inr (Or.inr ⟨implicit, sub, htable, Or.inr ⟨old, hold⟩⟩))
  · rcases find_edit_of_not_comparable doc hcomparable with
      ⟨-, -, hnone⟩ | ⟨-, hsame⟩
    · exact Or.inr (Or.inl hnone)
    · exact Or.inl hsame

/-- The inline tables on the way to another key path stay. -/
theorem isInline_edit_of_prefix {r : KeyPath} (hr : r <+: q)
    (h : ¬ Comparable edit.1 q)
    (hshares : edit.2.isSome → ¬ SharesInline edit.1 q doc) (hnil : r ≠ [])
    (hinline : IsInline r doc) : IsInline r (edit.apply doc) := by
  by_cases hcomparable : Comparable edit.1 r
  · rcases hcomparable with hbelow | habove
    · exact absurd (Or.inl (hbelow.trans hr)) h
    · obtain ⟨path, value⟩ := edit
      obtain ⟨entries, hfind⟩ := hinline
      cases value with
      | none =>
          have hne : r ≠ path := by
            rintro rfl
            exact h (Or.inl hr)
          rcases @find_removed_of_above path r doc hnil habove hne with
            hsame | ⟨implicit, old, sub, htable, -⟩
          · exact ⟨entries, hsame.trans hfind⟩
          · rw [htable] at hfind
            cases hfind
      | some value =>
          exact absurd ⟨r, hnil, habove, hr, entries, hfind⟩ (hshares rfl)
  · rcases find_edit_of_not_comparable doc hcomparable with
      ⟨hsome, ⟨t, ht, hpath, htr, hinline'⟩, -⟩ | ⟨-, hsame⟩
    · exact absurd ⟨t, ht, hpath, htr.trans hr, hinline'⟩ (hshares hsome)
    · obtain ⟨entries, hfind⟩ := hinline
      exact ⟨entries, hsame.trans hfind⟩

/-- What is not there is not made by edits at other key paths. -/
theorem find_applyEdits_none (hother : ∀ edit ∈ edits, ¬ Comparable edit.1 q)
    (hfind : find q doc = none) : find q (applyEdits edits doc) = none := by
  induction edits generalizing doc with
  | nil => exact hfind
  | cons edit rest ih =>
      refine ih
        (fun other hmem => hother other (List.mem_cons_of_mem edit hmem)) ?_
      rcases find_edit_of_not_comparable doc (hother edit
        List.mem_cons_self) with
        ⟨-, -, hnone⟩ | ⟨-, hsame⟩
      · exact hnone
      · exact hsame.trans hfind

/-- A key path that nothing is set or cleared at keeps what it has, unless
something is set through an inline table on the way to it. -/
theorem find_applyEdits_iff (hproper : Proper edits)
    (hother : ∀ edit ∈ edits, ¬ Comparable edit.1 q)
    (hfind : find q doc ≠ none) :
    find q (applyEdits edits doc) = find q doc ↔
      ∀ edit ∈ edits, edit.2.isSome → ¬ SharesInline edit.1 q doc := by
  induction edits generalizing doc with
  | nil => exact iff_of_true rfl (by simp)
  | cons edit rest ih =>
      have hhead := hother edit List.mem_cons_self
      have hrest : ∀ other ∈ rest, ¬ Comparable other.1 q :=
        fun other hmem => hother other (List.mem_cons_of_mem edit hmem)
      rw [List.forall_mem_cons]
      rcases find_edit_of_not_comparable doc hhead with
        ⟨hsome, hshares, hnone⟩ | ⟨hshares, hsame⟩
      · refine iff_of_false ?_ fun hall => hall.1 hsome hshares
        rw [applyEdits, find_applyEdits_none hrest hnone]
        exact hfind.symm
      · have hinline : ∀ other : Edit, SharesInline other.1 q (edit.apply doc) ↔
            SharesInline other.1 q doc := by
          intro other
          constructor
          · rintro ⟨r, hr, hother, hq, hin⟩
            exact ⟨r, hr, hother, hq, isInline_of_edit hproper.head hin⟩
          · rintro ⟨r, hr, hother, hq, hin⟩
            exact ⟨r, hr, hother, hq,
              isInline_edit_of_prefix hq hhead hshares hr hin⟩
        have hnext := ih hproper.tail hrest (hsame.symm ▸ hfind)
        rw [applyEdits, ← hsame, hnext]
        simp only [hinline]
        exact (and_iff_right hshares).symm

/-! ## Key paths that are set -/

/-- A key path holds a value, and no inline table is on the way to it. -/
structure Held (p : KeyPath) (value : Item) (doc : Entries) : Prop where
  found : find p doc = some value
  plain : ∀ r, r ≠ [] → r <+: p → ¬ IsInline r doc

/-- An edit at another key path spares what is held at one. -/
def Spares (edit : Edit) (p : KeyPath) : Prop :=
  if edit.2.isSome then ¬ Comparable edit.1 p else ¬ edit.1 <+: p

theorem held_apply (hleaf : value.IsLeaf) (hp : p ≠ []) :
    Held p value (applyTomlEditOverrideSegments p value doc) := by
  have hfound :
      find p (applyTomlEditOverrideSegments p value doc) = some value := by
    rw [find_apply_below hleaf hp (List.prefix_refl p), if_pos rfl]
  refine ⟨hfound, ?_⟩
  intro r _ hpre hinline
  exact (isInline_of_apply hleaf hp hinline).1 (Or.inr hpre)

/-- An edit that spares a key path leaves what is held there. -/
theorem Held.next (h : Held p value doc) (hleaf : value.IsLeaf)
    (hproper : edit.1 ≠ [] ∧ ∀ value, edit.2 = some value → value.IsLeaf)
    (hne : edit.1 ≠ p) (hp : p ≠ []) (hspares : Spares edit p) :
    Held p value (edit.apply doc) := by
  refine ⟨?_,
    fun r hr hpre hinline =>
      h.plain r hr hpre (isInline_of_edit hproper hinline)⟩
  have hshares : ¬ SharesInline edit.1 p doc := by
    rintro ⟨r, hr, -, hpre, hinline⟩
    exact h.plain r hr hpre hinline
  by_cases hcomparable : Comparable edit.1 p
  · obtain ⟨path, other⟩ := edit
    cases other with
    | some other => exact absurd hcomparable hspares
    | none =>
        have habove : p <+: path := hcomparable.resolve_left hspares
        rcases @find_removed_of_above path p doc hp habove (Ne.symm hne) with
          hsame | ⟨implicit, old, sub, htable, -⟩
        · exact hsame.trans h.found
        · rw [h.found] at htable
          cases htable
          cases hleaf
  · rcases find_edit_of_not_comparable doc hcomparable with
      ⟨-, hin, -⟩ | ⟨-, hsame⟩
    · exact absurd hin hshares
    · exact hsame.trans h.found

/-- There is no leaf at a key path. -/
def NoLeaf (p : KeyPath) (doc : Entries) : Prop :=
  ∀ value, value.IsLeaf → find p doc ≠ some value

/-- An edit that does not spare a key path takes what is held there. -/
theorem Held.noLeaf (h : Held p value doc)
    (hproper : edit.1 ≠ [] ∧ ∀ value, edit.2 = some value → value.IsLeaf)
    (hne : edit.1 ≠ p) (hp : p ≠ []) (hspares : ¬ Spares edit p) :
    NoLeaf p (edit.apply doc) := by
  obtain ⟨path, other⟩ := edit
  intro leaf hother hfind
  cases other with
  | some other =>
      rcases not_not.1 hspares with hpre | habove
      · rw [Edit.apply, find_apply_below (hproper.2 other rfl) hproper.1 hpre,
          if_neg (Ne.symm hne)] at hfind
        cases hfind
      · obtain ⟨implicit, sub, htable, -⟩ :=
          @find_apply_of_above path p other doc hp habove (Ne.symm hne)
        rw [Edit.apply, htable] at hfind
        cases hfind
        cases hother
  | none =>
      have hpre : path <+: p := not_not.1 hspares
      have hbeyond : ¬ Beyond path doc := by
        rintro ⟨r, hr, hpath, -, hinline⟩
        exact h.plain r hr (hpath.trans hpre) hinline
      rw [Edit.apply, find_removed_below hproper.1 hbeyond hpre] at hfind
      cases hfind

/-- No edit at another key path makes a leaf. -/
theorem NoLeaf.next (h : NoLeaf p doc)
    (hproper : edit.1 ≠ [] ∧ ∀ value, edit.2 = some value → value.IsLeaf)
    (hne : edit.1 ≠ p) (hp : p ≠ []) : NoLeaf p (edit.apply doc) := by
  intro leaf hother hfind
  rcases find_edit_cases doc hproper hp with
    hsame | hnone | ⟨heq, -⟩ | ⟨implicit, sub, htable, -⟩
  · exact h leaf hother (hsame.symm.trans hfind)
  · cases hnone.symm.trans hfind
  · exact hne heq
  · cases htable.symm.trans hfind
    cases hother

theorem NoLeaf.applyEdits (h : NoLeaf p doc) (hproper : Proper edits)
    (hother : p ∉ edits.map Prod.fst) (hp : p ≠ []) :
    NoLeaf p (CodeRs.Config.applyEdits edits doc) := by
  induction edits generalizing doc with
  | nil => exact h
  | cons edit rest ih =>
      rw [List.map_cons, List.mem_cons, not_or] at hother
      exact ih (h.next hproper.head (Ne.symm hother.1) hp) hproper.tail hother.2

/-- What was set last at a key path is there in the end exactly if every later
edit spares it. -/
theorem Held.find_applyEdits_iff (h : Held p value doc) (hleaf : value.IsLeaf)
    (hproper : Proper edits) (hother : p ∉ edits.map Prod.fst) (hp : p ≠ []) :
    find p (applyEdits edits doc) = some value ↔
      ∀ edit ∈ edits, Spares edit p := by
  induction edits generalizing doc with
  | nil => exact iff_of_true h.found (by simp)
  | cons edit rest ih =>
      rw [List.map_cons, List.mem_cons, not_or] at hother
      rw [List.forall_mem_cons, applyEdits]
      by_cases hspares : Spares edit p
      · rw [ih (h.next hleaf hproper.head (Ne.symm hother.1) hp hspares)
          hproper.tail hother.2]
        exact (and_iff_right hspares).symm
      · refine iff_of_false ?_ fun hall => hspares hall.1
        have hno := h.noLeaf hproper.head (Ne.symm hother.1) hp hspares
        exact hno.applyEdits hproper.tail hother.2 hp value hleaf

/-! ## Key paths that are cleared -/

/-- What is in an outermost inline table stays if an edit spares the table. -/
theorem find_edit_of_outermost {r : KeyPath} (h : Outermost r doc)
    (hspares : Spares edit r)
    (hq : r <+: q) : find q (edit.apply doc) = find q doc := by
  obtain ⟨path, value⟩ := edit
  by_cases hpath : r <+: path
  · cases value with
    | some value => exact absurd (Or.inr hpath) hspares
    | none =>
        have hne : r ≠ path := by
          rintro rfl
          exact hspares (List.prefix_refl r)
        have hbeyond : Beyond path doc :=
          ⟨r, h.inline.ne_nil, hpath, hne, h.inline⟩
        rw [Edit.apply, removed_of_beyond hbeyond]
  · have hother : ¬ path <+: r := by
      cases value with
      | some value => exact fun hpre => hspares (Or.inl hpre)
      | none => exact hspares
    have hcomparable : ¬ Comparable path q := by
      rintro (hpre | hpre)
      · rcases List.prefix_or_prefix_of_prefix hpre hq with hpr | hrp
        · exact hother hpr
        · exact hpath hrp
      · exact hpath (hq.trans hpre)
    rcases @find_edit_of_not_comparable (path, value) q doc hcomparable with
      ⟨-, ⟨t, ht, htpath, htq, hinline⟩, -⟩ | ⟨-, hsame⟩
    · rcases List.prefix_or_prefix_of_prefix htq hq with htr | hrt
      · by_cases hne : t = r
        · exact absurd (hne ▸ htpath) hpath
        · exact absurd hinline (h.plain t ht htr hne)
      · exact absurd (hrt.trans htpath) hpath
    · exact hsame

theorem find_applyEdits_of_outermost {r : KeyPath} (h : Outermost r doc)
    (hproper : Proper edits)
    (hspares : ∀ edit ∈ edits, Spares edit r) (hq : r <+: q) :
    Outermost r (applyEdits edits doc) ∧
      find q (applyEdits edits doc) = find q doc := by
  induction edits generalizing doc with
  | nil => exact ⟨h, rfl⟩
  | cons edit rest ih =>
      obtain ⟨hhead, hrest⟩ := List.forall_mem_cons.1 hspares
      have hnext : Outermost r (edit.apply doc) := by
        obtain ⟨entries, hfind⟩ := h.inline
        refine ⟨⟨entries, ?_⟩, ?_⟩
        · rw [find_edit_of_outermost h hhead (List.prefix_refl r), hfind]
        · intro t ht hpre hne hinline
          exact h.plain t ht hpre hne (isInline_of_edit hproper.head hinline)
      obtain ⟨hlast, hsame⟩ := ih hnext hproper.tail hrest
      exact ⟨hlast, hsame.trans (find_edit_of_outermost h hhead hq)⟩

/-- All that is in the file at a key path was set by the edits, and no inline
table is on the way to it. -/
structure Fresh (p : KeyPath) (done : List Edit) (doc : Entries) : Prop where
  plain : ∀ r, r ≠ [] → r <+: p → ¬ IsInline r doc
  given : ∀ q item, p <+: q → find q doc = some item → item.Solid →
    LastGiven done q (some item)

theorem fresh_removed (hp : p ≠ []) (hbeyond : ¬ Beyond p doc) :
    Fresh p [] (removed p doc) where
  plain := by
    intro r hr hpre hinline
    by_cases hne : r = p
    · subst hne
      obtain ⟨entries, hfind⟩ := hinline
      rw [find_removed_below hp hbeyond (List.prefix_refl r)] at hfind
      cases hfind
    · exact hbeyond ⟨r, hr, hpre, hne, isInline_of_removed hinline⟩
  given := by
    intro q item hq hfind
    rw [find_removed_below hp hbeyond hq] at hfind
    cases hfind

theorem lastGiven_singleton (p : KeyPath) (value : Option Item) :
    LastGiven [(p, value)] p value :=
  ⟨[], [], rfl, List.not_mem_nil⟩

section Outermost

variable {r path : KeyPath}

/-- A key path in an inline table is one that the setter reaches, or it shares
the table. -/
theorem sharesInline_of_outermost (h : Outermost r doc)
    (hcomparable : Comparable path r)
    (hq : r <+: q) (hother : ¬ Comparable path q) :
    SharesInline path q doc := by
  rcases hcomparable with hpre | hpre
  · exact absurd (Or.inl (hpre.trans hq)) hother
  · exact ⟨r, h.inline.ne_nil, hpre, hq, h.inline⟩

/-- Setting at, above or below an inline table takes all that is in it. -/
theorem fresh_apply (h : Outermost r doc) (hleaf : value.IsLeaf)
    (hpath : path ≠ [])
    (hcomparable : Comparable path r) (hp : r <+: p) :
    Fresh p [(path, some value)]
      (applyTomlEditOverrideSegments path value doc) := by
  refine ⟨?_, ?_⟩
  · intro t ht hpre hinline
    obtain ⟨hother, hno, hold⟩ := isInline_of_apply hleaf hpath hinline
    rcases List.prefix_or_prefix_of_prefix hpre hp with htr | hrt
    · by_cases hne : t = r
      · exact hother (hne ▸ hcomparable)
      · exact h.plain t ht htr hne hold
    · exact hno (sharesInline_of_outermost h hcomparable hrt hother)
  · intro q item hq hfind hsolid
    by_cases hne : q = path
    · rw [hne, find_apply_below hleaf hpath (List.prefix_refl path),
        if_pos rfl] at hfind
      cases hfind
      rw [hne]
      exact lastGiven_singleton path _
    · by_cases hother : Comparable path q
      · rcases hother with hpre | habove
        · rw [find_apply_below hleaf hpath hpre, if_neg hne] at hfind
          cases hfind
        · have hnil : q ≠ [] := by
            rintro rfl
            exact h.inline.ne_nil (List.prefix_nil.1 (hp.trans hq))
          obtain ⟨implicit, sub, htable, himplicit | ⟨-, hno⟩⟩ :=
            @find_apply_of_above path q value doc hnil habove hne
          · rw [htable, himplicit] at hfind
            cases hfind
            exact absurd rfl (hsolid sub)
          · exact absurd ⟨r, h.inline.ne_nil, hp.trans hq,
              hp.trans hq, h.inline⟩ hno
      · rcases @find_apply_of_not_comparable path q value doc hother with
          ⟨-, hnone⟩ | ⟨hno, -⟩
        · cases hnone.symm.trans hfind
        · exact absurd
            (sharesInline_of_outermost h hcomparable (hp.trans hq) hother) hno

/-- Clearing at or above an inline table takes all that is in it. -/
theorem fresh_removed_above (h : Outermost r doc) (hpath : path ≠ [])
    (hpre : path <+: r)
    (hp : r <+: p) : Fresh p [(path, none)] (removed path doc) := by
  have hbeyond : ¬ Beyond path doc := by
    rintro ⟨t, ht, htpath, hne, hinline⟩
    refine h.plain t ht (htpath.trans hpre) ?_ hinline
    rintro rfl
    exact hne (htpath.eq_of_length_le hpre.length_le)
  refine ⟨?_, ?_⟩
  · intro t ht htp hinline
    rcases List.prefix_or_prefix_of_prefix htp (hpre.trans hp) with
      htpath | hbelow
    · exact (fresh_removed hpath hbeyond).plain t ht htpath hinline
    · obtain ⟨entries, hfind⟩ := hinline
      cases (find_removed_below hpath hbeyond hbelow).symm.trans hfind
  · intro q item hq hfind
    cases (find_removed_below hpath hbeyond
      (hpre.trans (hp.trans hq))).symm.trans hfind

/-- An edit that does not spare an inline table takes all that is in it. -/
theorem fresh_of_not_spares (h : Outermost r doc)
    (hproper : edit.1 ≠ [] ∧ ∀ value, edit.2 = some value → value.IsLeaf)
    (hspares : ¬ Spares edit r) (hp : r <+: p) :
    Fresh p [edit] (edit.apply doc) := by
  obtain ⟨path, value⟩ := edit
  cases value with
  | some value =>
      exact fresh_apply h (hproper.2 value rfl) hproper.1 (not_not.1 hspares) hp
  | none => exact fresh_removed_above h hproper.1 (not_not.1 hspares) hp

end Outermost

/-! ### Last values -/

theorem LastGiven.concat_self (done : List Edit) (p : KeyPath)
    (value : Option Item) :
    LastGiven (done ++ [(p, value)]) p value :=
  ⟨done, [], rfl, List.not_mem_nil⟩

theorem LastGiven.concat {done : List Edit} {value : Option Item}
    (h : LastGiven done p value)
    (hne : edit.1 ≠ p) : LastGiven (done ++ [edit]) p value := by
  obtain ⟨before, later, rfl, hlater⟩ := h
  refine ⟨before, later ++ [edit], ?_, ?_⟩
  · rw [List.append_assoc, List.cons_append]
  · rw [List.map_append, List.mem_append, not_or]
    exact ⟨hlater, fun hmem => hne (List.mem_singleton.1 hmem).symm⟩

theorem LastGiven.of_suffix {done : List Edit} {value : Option Item}
    (h : LastGiven done p value)
    (before : List Edit) : LastGiven (before ++ done) p value := by
  obtain ⟨first, later, rfl, hlater⟩ := h
  exact ⟨before ++ first, later, (List.append_assoc _ _ _).symm, hlater⟩

theorem LastGiven.isLeaf {done : List Edit} (h : LastGiven done p (some value))
    (hproper : Proper done) : value.IsLeaf := by
  obtain ⟨before, later, rfl, -⟩ := h
  exact (hproper (p, some value) (List.mem_append_right _ List.mem_cons_self)).2
    value rfl

theorem exists_lastGiven (h : p ∈ edits.map Prod.fst) :
    ∃ value, LastGiven edits p value := by
  induction edits with
  | nil => cases h
  | cons edit rest ih =>
      by_cases hrest : p ∈ rest.map Prod.fst
      · obtain ⟨value, hlast⟩ := ih hrest
        exact ⟨value, hlast.of_suffix [edit]⟩
      · obtain ⟨path, value⟩ := edit
        have hhead : p = path := (List.mem_cons.1 h).resolve_right hrest
        exact ⟨value, [], rest, by rw [hhead]; rfl, hrest⟩

/-! ### After a clearing -/

/-- No inline table is on the way to something below the key path. -/
theorem Fresh.plain_below {done : List Edit} (h : Fresh p done doc)
    (hdone : Proper done)
    {r : KeyPath} (hr : r ≠ []) (hq : p <+: q) (hpre : r <+: q) :
    ¬ IsInline r doc := by
  intro hinline
  rcases List.prefix_or_prefix_of_prefix hpre hq with hrp | hpr
  · exact h.plain r hr hrp hinline
  · obtain ⟨entries, hfind⟩ := hinline
    have hsolid : (Item.inlineTable entries).Solid := by
      intro sub heq
      cases heq
    cases (h.given r _ hpr hfind hsolid).isLeaf hdone

/-- A table below the key path is an implicit one. -/
theorem Fresh.implicit {done : List Edit} (h : Fresh p done doc)
    (hdone : Proper done)
    {implicit : Bool} {sub : Entries} (hq : p <+: q)
    (hfind : find q doc = some (.table implicit sub)) : implicit = true := by
  by_contra hexplicit
  have hsolid : (Item.table implicit sub).Solid := by
    intro other heq
    cases heq
    exact hexplicit rfl
  cases (h.given q _ hq hfind hsolid).isLeaf hdone

theorem Fresh.ne_nil {done : List Edit} (h : Fresh p done doc)
    (hdone : Proper done)
    (hq : p <+: q) : q ≠ [] := by
  rintro rfl
  cases h.implicit hdone hq (rfl : find [] doc = some (.table false doc))

/-- An edit adds nothing to the file at a key path but what it sets. -/
theorem Fresh.next {done : List Edit} (h : Fresh p done doc)
    (hdone : Proper done)
    (hproper : edit.1 ≠ [] ∧ ∀ value, edit.2 = some value → value.IsLeaf) :
    Fresh p (done ++ [edit]) (edit.apply doc) := by
  refine ⟨fun r hr hpre hinline =>
    h.plain r hr hpre (isInline_of_edit hproper hinline), ?_⟩
  intro q item hq hfind hsolid
  by_cases hne : edit.1 = q
  · obtain ⟨path, value⟩ := edit
    subst hne
    cases value with
    | some value =>
        rw [Edit.apply, find_apply_below (hproper.2 value rfl) hproper.1
          (List.prefix_refl path), if_pos rfl] at hfind
        cases hfind
        exact LastGiven.concat_self done path _
    | none =>
        have hbeyond : ¬ Beyond path doc := by
          rintro ⟨r, hr, hpre, -, hinline⟩
          exact h.plain_below hdone hr hq hpre hinline
        rw [Edit.apply,
          find_removed_below hproper.1 hbeyond (List.prefix_refl path)] at hfind
        cases hfind
  · rcases find_edit_cases doc hproper (h.ne_nil hdone hq) with
      hsame | hnone | ⟨heq, -⟩ | ⟨implicit, sub, htable, himplicit⟩
    · -- What was there already was set before.
      exact (h.given q item hq (hsame.symm.trans hfind) hsolid).concat hne
    · cases hnone.symm.trans hfind
    · exact absurd heq hne
    · have htrue : implicit = true := by
        rcases himplicit with htrue | ⟨old, hold⟩
        · exact htrue
        · exact h.implicit hdone hq hold
      rw [htable, htrue] at hfind
      cases hfind
      exact absurd rfl (hsolid sub)

theorem Fresh.applyEdits {done : List Edit} (h : Fresh p done doc)
    (hdone : Proper done)
    (hproper : Proper edits) :
    Fresh p (done ++ edits) (CodeRs.Config.applyEdits edits doc) := by
  induction edits generalizing done doc with
  | nil =>
      rw [List.append_nil]
      exact h
  | cons edit rest ih =>
      have hnext : Proper (done ++ [edit]) := by
        intro other hmem
        rcases List.mem_append.1 hmem with hold | hnew
        · exact hdone other hold
        · rw [List.mem_singleton.1 hnew]
          exact hproper.head
      have hlast := ih (h.next hdone hproper.head) hnext hproper.tail
      rw [List.append_assoc, List.singleton_append] at hlast
      exact hlast

theorem exists_first_not {α : Type*} {P : α → Prop} {l : List α}
    (h : ¬ ∀ a ∈ l, P a) :
    ∃ before a later, l = before ++ a :: later ∧
      (∀ b ∈ before, P b) ∧ ¬ P a := by
  induction l with
  | nil => exact absurd (by simp) h
  | cons a rest ih =>
      by_cases ha : P a
      · have hrest : ¬ ∀ b ∈ rest, P b :=
          fun hall => h (List.forall_mem_cons.2 ⟨ha, hall⟩)
        obtain ⟨before, b, later, rfl, hbefore, hb⟩ := ih hrest
        exact ⟨a :: before, b, later, rfl,
          List.forall_mem_cons.2 ⟨ha, hbefore⟩, hb⟩
      · exact ⟨[], a, rest, rfl, by simp, ha⟩

/-- What is in an inline table that every edit spares stays in the file. -/
theorem inFile_applyEdits_iff {r : KeyPath} (h : Outermost r doc)
    (hproper : Proper edits)
    (hspares : ∀ edit ∈ edits, Spares edit r) (hp : r <+: p) :
    InFile p (applyEdits edits doc) ↔ InFile p doc := by
  have hsame : ∀ q, p <+: q → find q (applyEdits edits doc) = find q doc :=
    fun q hq => (find_applyEdits_of_outermost h hproper hspares (hp.trans hq)).2
  constructor
  · rintro ⟨q, item, hq, hfind, hsolid⟩
    exact ⟨q, item, hq, (hsame q hq).symm.trans hfind, hsolid⟩
  · rintro ⟨q, item, hq, hfind, hsolid⟩
    exact ⟨q, item, hq, (hsame q hq).trans hfind, hsolid⟩

/-- An edit that does not spare an inline table leaves only what the edits set
from there on. -/
theorem fresh_applyEdits_of_hit {r : KeyPath} (h : Outermost r doc)
    (hproper : Proper edits)
    (hhit : ¬ ∀ edit ∈ edits, Spares edit r) (hp : r <+: p) :
    ∃ before done, edits = before ++ done ∧
      Fresh p done (applyEdits edits doc) := by
  obtain ⟨before, edit, later, rfl, hbefore, hfirst⟩ := exists_first_not hhit
  obtain ⟨hproperBefore, hproperRest⟩ := hproper.of_append
  have htable := (find_applyEdits_of_outermost h hproperBefore hbefore hp).1
  have hhead : Proper [edit] := by
    intro other hmem
    rw [List.mem_singleton.1 hmem]
    exact hproperRest.head
  refine ⟨before, edit :: later, rfl, ?_⟩
  rw [applyEdits_append]
  exact (fresh_of_not_spares htable hproperRest.head hfirst hp).applyEdits hhead
    hproperRest.tail

/-- So does a clearing that no inline table is in the way of. -/
theorem fresh_applyEdits_of_clear {before later : List Edit}
    (hproper : Proper (before ++ (p, none) :: later))
    (hinline : ¬ ∃ r, Outermost r doc ∧ r <+: p ∧ r ≠ p) :
    Fresh p later (applyEdits (before ++ (p, none) :: later) doc) := by
  obtain ⟨hproperBefore, hproperRest⟩ := hproper.of_append
  have hbeyond : ¬ Beyond p (applyEdits before doc) := by
    rintro ⟨t, -, htp, hne, hin⟩
    obtain ⟨r, hr, hrt⟩ :=
      exists_outermost (isInline_of_edits hproperBefore hin)
    refine hinline ⟨r, hr, hrt.trans htp, ?_⟩
    rintro rfl
    exact hne (htp.eq_of_length_le hrt.length_le)
  rw [applyEdits_append]
  exact (fresh_removed hproperRest.head.1 hbeyond).applyEdits (by
    simp [Proper]) hproperRest.tail

/-- A key path that is cleared last is not in the file exactly if it was not in
an inline table that every edit spares. -/
theorem not_inFile_applyEdits_iff (doc : Entries) (hproper : Proper edits)
    (hlast : LastGiven edits p none)
    (happart : ∀ q value, p <+: q → ¬ LastGiven edits q (some value)) :
    ¬ InFile p (applyEdits edits doc) ↔
      ∀ r, Outermost r doc → r <+: p → r ≠ p → InFile p doc →
        ∃ edit ∈ edits, ¬ Spares edit r := by
  have hfresh : ∀ {before done : List Edit}, edits = before ++ done →
      Fresh p done (applyEdits edits doc) →
      ¬ InFile p (applyEdits edits doc) := by
    rintro before done hsplit h ⟨q, item, hq, hfind, hsolid⟩
    have hgiven := (h.given q item hq hfind hsolid).of_suffix before
    rw [← hsplit] at hgiven
    exact happart q item hq hgiven
  constructor
  · intro hnot r hr hpre _ hold
    by_contra hnone
    have hspares : ∀ edit ∈ edits, Spares edit r := by
      intro edit hmem
      by_contra hhit
      exact hnone ⟨edit, hmem, hhit⟩
    exact hnot ((inFile_applyEdits_iff hr hproper hspares hpre).2 hold)
  · intro hreached
    by_cases hinline : ∃ r, Outermost r doc ∧ r <+: p ∧ r ≠ p
    · obtain ⟨r, hr, hpre, hne⟩ := hinline
      by_cases hspares : ∀ edit ∈ edits, Spares edit r
      · intro hin
        have hold := (inFile_applyEdits_iff hr hproper hspares hpre).1 hin
        obtain ⟨edit, hmem, hhit⟩ := hreached r hr hpre hne hold
        exact hhit (hspares edit hmem)
      · obtain ⟨before, done, hsplit, h⟩ :=
          fresh_applyEdits_of_hit hr hproper hspares hpre
        exact hfresh hsplit h
    · obtain ⟨before, later, hsplit, -⟩ := hlast
      have hsplit' : edits = (before ++ [(p, none)]) ++ later := by
        rw [hsplit, List.append_assoc, List.singleton_append]
      refine hfresh hsplit' ?_
      subst hsplit
      exact fresh_applyEdits_of_clear hproper hinline

end CodeRs.Config
