import CodeRs.Config.Edits

/-!
# Runs of overrides

When every key path that is overridden has its last value, and every other one
keeps what it had.
-/

namespace CodeRs.Config

open Toml

variable {edits : List Edit} {doc : Entries}

/-! ## What is persisted -/

/-- Every key path that is edited has its last value, or is not in the file if
that is none. Every key path of the document that is neither above nor below
one of them keeps what it has. -/
structure Persisted (doc : Entries) (edits : List Edit)
    (after : Entries) : Prop where
  set : ∀ p value, LastGiven edits p (some value) → find p after = some value
  cleared : ∀ p, LastGiven edits p none → ¬ InFile p after
  kept : ∀ q, find q doc ≠ none → (∀ edit ∈ edits, ¬ Comparable edit.1 q) →
    find q after = find q doc

structure Compatible (doc : Entries) (edits : List Edit) : Prop where
  /-- No key path is empty. -/
  nonempty : ∀ edit ∈ edits, edit.1 ≠ []
  /-- Nothing is set above or below what is set last, or cleared above it,
  later on. -/
  spared : ∀ before p value later, edits = before ++ (p, some value) :: later →
    p ∉ later.map Prod.fst → ∀ edit ∈ later, Spares edit p
  /-- Nothing that is cleared last is above what is set last. -/
  apart : ∀ p q value, LastGiven edits p none →
    LastGiven edits q (some value) → ¬ p <+: q
  /-- An inline table with something that is cleared last is replaced or
  cleared. -/
  reached : ∀ p r, LastGiven edits p none → Outermost r doc → r <+: p → r ≠ p →
    InFile p doc →
    ∃ edit ∈ edits, ¬ Spares edit r
  /-- Nothing is set through an inline table with something else in it. -/
  whole : ∀ q, find q doc ≠ none → (∀ edit ∈ edits, ¬ Comparable edit.1 q) →
    ∀ edit ∈ edits, edit.2.isSome → ¬ SharesInline edit.1 q doc

theorem Persisted.nonempty {after : Entries} (h : Persisted doc edits after)
    (hleaf : ∀ edit ∈ edits, ∀ value, edit.2 = some value → value.IsLeaf) :
    ∀ edit ∈ edits, edit.1 ≠ [] := by
  intro edit hmem hnil
  have hroot : find [] after = some (.table false after) := rfl
  obtain ⟨value, hlast⟩ := exists_lastGiven (List.mem_map_of_mem hmem)
  rw [hnil] at hlast
  cases value with
  | some value =>
      have hvalue : value.IsLeaf := by
        obtain ⟨before, later, rfl, -⟩ := hlast
        exact hleaf ([],
          some value) (List.mem_append_right _ List.mem_cons_self) value rfl
      rw [h.set [] value hlast, Option.some.injEq] at hroot
      rw [hroot] at hvalue
      cases hvalue
  | none =>
      refine h.cleared [] hlast ⟨[], _, List.prefix_refl [], hroot, ?_⟩
      intro entries heq
      cases heq

theorem persisted_applyEdits_iff
    (hleaf : ∀ edit ∈ edits, ∀ value, edit.2 = some value → value.IsLeaf) :
    Persisted doc edits (applyEdits edits doc) ↔ Compatible doc edits := by
  constructor
  · intro h
    have hnonempty := h.nonempty hleaf
    have hproper : Proper edits :=
      fun edit hmem => ⟨hnonempty edit hmem, hleaf edit hmem⟩
    have happart : ∀ p q value, LastGiven edits p none →
        LastGiven edits q (some value) →
        ¬ p <+: q := by
      intro p q value hp hq hpre
      exact h.cleared p hp ⟨q, value, hpre, h.set q value hq,
        (hq.isLeaf hproper).solid⟩
    refine ⟨hnonempty, ?_, happart, ?_, ?_⟩
    · rintro before p value later rfl hlater
      have hset := h.set p value ⟨before, later, rfl, hlater⟩
      have hrest := hproper.of_append.2
      have hheld :
          Held p value
            (applyTomlEditOverrideSegments p value (applyEdits before doc)) :=
        held_apply (hrest.head.2 value rfl) hrest.head.1
      rw [applyEdits_append] at hset
      exact (hheld.find_applyEdits_iff (hrest.head.2 value rfl)
        hrest.tail hlater
        hrest.head.1).1 hset
    · intro p r hp hr hpre hne hold
      have hiff := not_inFile_applyEdits_iff doc hproper hp
        fun q value hpre hq => happart p q value hp hq hpre
      exact hiff.1 (h.cleared p hp) r hr hpre hne hold
    · intro q hfind hother
      exact (find_applyEdits_iff hproper hother hfind).1 (h.kept q hfind hother)
  · intro h
    have hproper : Proper edits :=
      fun edit hmem => ⟨h.nonempty edit hmem, hleaf edit hmem⟩
    refine ⟨?_, ?_, ?_⟩
    · rintro p value ⟨before, later, hsplit, hlater⟩
      have hspares := h.spared before p value later hsplit hlater
      rw [hsplit] at hproper ⊢
      have hrest := hproper.of_append.2
      have hheld :
          Held p value
            (applyTomlEditOverrideSegments p value (applyEdits before doc)) :=
        held_apply (hrest.head.2 value rfl) hrest.head.1
      rw [applyEdits_append]
      exact (hheld.find_applyEdits_iff (hrest.head.2 value rfl)
        hrest.tail hlater
        hrest.head.1).2 hspares
    · intro p hp
      refine (not_inFile_applyEdits_iff doc hproper hp ?_).2 ?_
      · exact fun q value hpre hq => h.apart p q value hp hq hpre
      · exact fun r hr hpre hne hold => h.reached p r hp hr hpre hne hold
    · intro q hfind hother
      exact (find_applyEdits_iff hproper hother hfind).2
        (h.whole q hfind hother)

/-! ## The file -/

def editsOf (profile : Option Text) (overrides : List Override) : List Edit :=
  overrides.map fun override =>
    (segmentsToApply profile override.1, override.2.map itemValue)

theorem itemValue_isLeaf (value : Text) : (itemValue value).IsLeaf := by
  rw [itemValue]
  split
  · exact .boolean true
  · split
    · exact .boolean false
    · exact .string value

theorem isLeaf_of_mem_editsOf {profile : Option Text}
    {overrides : List Override} :
    ∀ edit ∈ editsOf profile overrides, ∀ value, edit.2 = some value →
      value.IsLeaf := by
  intro edit hmem value hvalue
  obtain ⟨override, -, rfl⟩ := List.mem_map.1 hmem
  obtain ⟨text, -, rfl⟩ := Option.map_eq_some_iff.1 hvalue
  exact itemValue_isLeaf text

/-- The loop makes the edits, and where it changes nothing they change
nothing. -/
theorem applyOverrides_eq {profile : Option Text} {noneBehavior : NoneBehavior}
    {overrides : List Override}
    (h : noneBehavior = .remove ∨ ∀ override ∈ overrides, override.2.isSome)
    (doc : Entries)
    (mutated : Bool) :
    (applyOverrides profile noneBehavior overrides (doc, mutated)).1 =
        applyEdits (editsOf profile overrides) doc ∧
      ((applyOverrides profile noneBehavior overrides (doc, mutated)).2 =
        false →
        mutated = false ∧ applyEdits (editsOf profile overrides) doc =
          doc) := by
  induction overrides generalizing doc mutated with
  | nil => exact ⟨rfl, fun hmutated => ⟨hmutated, rfl⟩⟩
  | cons override rest ih =>
      have hrest : noneBehavior = .remove ∨
          ∀ override ∈ rest, override.2.isSome :=
        h.imp_right fun hall => (List.forall_mem_cons.1 hall).2
      obtain ⟨segments, value⟩ := override
      cases value with
      | some value =>
          obtain ⟨hdoc, hmutated⟩ := ih hrest
            (applyTomlEditOverrideSegments (segmentsToApply profile segments)
              (itemValue value)
              doc) true
          rw [applyOverrides]
          refine ⟨hdoc, fun hfalse => ?_⟩
          cases (hmutated hfalse).1
      | none =>
          have hremove : noneBehavior = .remove := by
            rcases h with hremove | hall
            · exact hremove
            · cases (List.forall_mem_cons.1 hall).1
          rw [applyOverrides, if_pos hremove]
          cases hcleared : removeTomlEditSegments
            (segmentsToApply profile segments) doc with
          | some after =>
              have hdoc :
                  removed (segmentsToApply profile segments) doc = after := by
                rw [removed, hcleared, Option.getD_some]
              obtain ⟨hafter, hmutated⟩ := ih hrest after true
              refine ⟨?_, fun hfalse => ?_⟩
              · rw [← hdoc] at hafter ⊢
                exact hafter
              · cases (hmutated hfalse).1
          | none =>
              have hdoc :
                  removed (segmentsToApply profile segments) doc = doc := by
                rw [removed, hcleared, Option.getD_none]
              obtain ⟨hafter, hmutated⟩ := ih hrest doc mutated
              have hedits :
                  applyEdits (editsOf profile ((segments, none) :: rest)) doc =
                  applyEdits (editsOf profile rest) doc :=
                congrArg (applyEdits (editsOf profile rest)) hdoc
              rw [hedits]
              exact ⟨hafter, hmutated⟩

/-- Without a file there is nothing to clear. -/
theorem applyEdits_clear_nil (hclear : ∀ edit ∈ edits, edit.2 = none) :
    applyEdits edits [] = [] := by
  induction edits with
  | nil => rfl
  | cons edit rest ih =>
      obtain ⟨hhead, hrest⟩ := List.forall_mem_cons.1 hclear
      obtain ⟨path, value⟩ := edit
      cases hhead
      have hnone : removeTomlEditSegments path [] = none := by
        cases path with
        | nil => rfl
        | cons seg path =>
            rw [removeTomlEditSegments]
            split
            · rfl
            · rfl
      have hremoved : removed path [] = [] := by
        rw [removed, hnone, Option.getD_none]
      have hnext : applyEdits ((path, none) :: rest) [] = applyEdits rest [] :=
        congrArg (applyEdits rest) hremoved
      rw [hnext]
      exact ih hrest

/-- The document that is read afterwards is the one with the edits. -/
theorem getD_persistOverridesWithBehavior {noneBehavior : NoneBehavior}
    {overrides : List Override}
    (h : noneBehavior = .remove ∨ ∀ override ∈ overrides, override.2.isSome)
    (file : Option Entries) (profile : Option Text) :
    (persistOverridesWithBehavior file profile overrides noneBehavior).getD [] =
      applyEdits (editsOf (effectiveProfile profile (file.getD [])) overrides)
        (file.getD []) := by
  rw [persistOverridesWithBehavior]
  by_cases hnil : overrides = []
  · rw [if_pos hnil, hnil]
    rfl
  · rw [if_neg hnil]
    have hskip :
        ¬ (noneBehavior = .skip ∧ overrides.all (·.2.isNone) = true) := by
      rintro ⟨hskip, hnone⟩
      obtain ⟨override, rest, rfl⟩ := List.exists_cons_of_ne_nil hnil
      rcases h with hremove | hall
      · rw [hskip] at hremove
        cases hremove
      · have hsome := (List.forall_mem_cons.1 hall).1
        have hhead := List.all_eq_true.1 hnone override List.mem_cons_self
        rw [Option.isNone_iff_eq_none] at hhead
        rw [hhead] at hsome
        cases hsome
    rw [if_neg hskip]
    split
    next hmissing =>
      obtain ⟨hfile, -, hnone⟩ := hmissing
      rw [Option.isNone_iff_eq_none] at hfile
      rw [hfile, Option.getD_none, applyEdits_clear_nil]
      intro edit hmem
      obtain ⟨override, hoverride, rfl⟩ := List.mem_map.1 hmem
      have hhead := List.all_eq_true.1 hnone override hoverride
      rw [Option.isNone_iff_eq_none] at hhead
      simp only [hhead, Option.map_none]
    · obtain ⟨hdoc, hmutated⟩ :=
        @applyOverrides_eq (effectiveProfile profile (file.getD []))
          noneBehavior overrides h
          (file.getD []) false
      simp only
      split
      · rw [Option.getD_some]
        exact hdoc
      next hfalse => exact (hmutated (Bool.eq_false_iff.2 hfalse)).2.symm

/-- Overrides do what they are for exactly if they are compatible with each
other and with the inline tables of the document. -/
theorem persisted_persistOverrides_iff (file : Option Entries)
    (profile : Option Text) :
    (∀ overrides : List (List Text × Text),
      let edits := editsOf (effectiveProfile profile (file.getD []))
        (overrides.map fun override => (override.1, some override.2))
      Persisted (file.getD []) edits
      ((persistOverrides file profile overrides).getD []) ↔
        Compatible (file.getD []) edits) ∧
    ∀ overrides : List Override,
      let edits := editsOf (effectiveProfile profile (file.getD [])) overrides
      Persisted (file.getD []) edits
          ((persistOverridesAndClearIfNone file profile overrides).getD []) ↔
        Compatible (file.getD []) edits := by
  constructor
  · intro overrides
    have hsome : ∀ override ∈ overrides.map fun override =>
        (override.1, some override.2),
        override.2.isSome := by
      intro override hmem
      obtain ⟨given, -, rfl⟩ := List.mem_map.1 hmem
      rfl
    simp only
    rw [persistOverrides, getD_persistOverridesWithBehavior (Or.inr hsome)]
    exact persisted_applyEdits_iff isLeaf_of_mem_editsOf
  · intro overrides
    simp only
    rw [persistOverridesAndClearIfNone,
      getD_persistOverridesWithBehavior (Or.inl rfl)]
    exact persisted_applyEdits_iff isLeaf_of_mem_editsOf

/-- A document with an inline table. -/
def inlineDoc : Entries :=
  [("tui".toList, .inlineTable [("theme".toList, .string "dark".toList),
    ("notifications".toList, .boolean true)])]

/-- Setting one key of an inline table takes the others. -/
theorem not_persisted_inlineDoc :
    ¬ ∀ (file : Option Entries) (profile : Option Text)
      (overrides : List (List Text × Text)),
      Persisted (file.getD [])
        (editsOf (effectiveProfile profile (file.getD []))
          (overrides.map fun override => (override.1, some override.2)))
        ((persistOverrides file profile overrides).getD []) := by
  intro h
  have hpersisted :=
    h (some inlineDoc) none [(["tui".toList, "theme".toList], "light".toList)]
  have hother : ∀ edit ∈ editsOf (effectiveProfile none inlineDoc)
      [(["tui".toList, "theme".toList], some "light".toList)],
      ¬ Comparable edit.1 ["tui".toList, "notifications".toList] := by
    intro edit hmem
    have hedit :
        edit = (["tui".toList, "theme".toList],
          some (itemValue "light".toList)) :=
      List.mem_singleton.1 hmem
    rw [hedit, Comparable]
    decide
  have hfound : find ["tui".toList, "notifications".toList] inlineDoc =
      some (.boolean true) := rfl
  have hkept := hpersisted.kept ["tui".toList, "notifications".toList]
    (fun hnone => by cases hfound.symm.trans hnone) hother
  have hlost : find ["tui".toList, "notifications".toList]
      ((persistOverrides (some inlineDoc) none
        [(["tui".toList, "theme".toList], "light".toList)]).getD []) =
        none := rfl
  rw [hlost] at hkept
  cases hkept.trans hfound

end CodeRs.Config
