import CodeRs.Lib.Text
import Mathlib.Data.List.Forall2
import Mathlib.Order.Interval.Set.Basic

/-!
# Finding lines

`seek_sequence` of `apply-patch/src/seek_sequence.rs`.
-/

namespace CodeRs.ApplyPatch

/-- The dashes that count as `-`. -/
def dashes : List ℕ := [0x2010, 0x2011, 0x2012, 0x2013, 0x2014, 0x2015, 0x2212]

/-- The single quotes that count as the ASCII one. -/
def singleQuotes : List ℕ := [0x2018, 0x2019, 0x201a, 0x201b]

/-- The double quotes that count as the ASCII one. -/
def doubleQuotes : List ℕ := [0x201c, 0x201d, 0x201e, 0x201f]

/-- The spaces that count as the ASCII one. -/
def oddSpaces : List ℕ :=
  [0xa0, 0x2002, 0x2003, 0x2004, 0x2005, 0x2006, 0x2007, 0x2008, 0x2009,
    0x200a, 0x202f,
    0x205f, 0x3000]

def normalise (s : Text) : Text :=
  s.trim.map fun c =>
    if c.toNat ∈ dashes then '-'
    else if c.toNat ∈ singleQuotes then Char.ofNat 39
    else if c.toNat ∈ doubleQuotes then Char.ofNat 34
    else if c.toNat ∈ oddSpaces then ' '
    else c

/-- The lines start with the pattern, compared after `view`. -/
def startsLike (view : Text → Text) : List Text → List Text → Bool
  | _, [] => true
  | [], _ :: _ => false
  | line :: lines, pat :: pattern =>
      view line = view pat && startsLike view lines pattern

/-- One search loop over the positions from `searchStart` on. -/
def seekBy (view : Text → Text) (lines pattern : List Text) (searchStart : ℕ) :
    Option ℕ :=
  (List.range' searchStart (lines.length - pattern.length +
    1 - searchStart)).find?
    fun i => startsLike view (lines.drop i) pattern

def seekSequence (lines pattern : List Text) (start : ℕ)
    (eof : Bool) : Option ℕ :=
  if pattern = [] then some start
  else if pattern.length > lines.length then none
  else
    let searchStart :=
      if eof && lines.length ≥ pattern.length then lines.length - pattern.length
      else start
    [id, Text.trimEnd, Text.trim, normalise].findSome? fun view =>
      seekBy view lines pattern searchStart

end CodeRs.ApplyPatch

/-! ## What a search for lines should find

`seek_sequence` compares the lines at four levels, each looser than the one
before.  It should find a match at the strictest level that there is, and
prefer the one at the end of the file where it is told to.  It does not fall
back to the other positions then, and it takes the end of the file for a match
that lies before its start. -/

namespace CodeRs.ApplyPatch

/-! ## Levels -/

/-- What the lines are compared by, from the strictest level on. -/
def levels : List (Text → Text) := [id, Text.trimEnd, Text.trim, normalise]

/-- The lines from `i` on are those of the pattern. -/
def MatchesAt (view : Text → Text) (lines pattern : List Text) (i : ℕ) : Prop :=
  ((lines.drop i).take pattern.length).map view = pattern.map view

instance (view : Text → Text) (lines pattern : List Text) :
    DecidablePred (MatchesAt view lines pattern) := fun i =>
  inferInstanceAs (Decidable (((lines.drop i).take pattern.length).map view =
    pattern.map view))

variable {view : Text → Text} {lines pattern : List Text}
    {start i : ℕ} {eof : Bool}

theorem startsLike_iff (rest : List Text) :
    startsLike view rest pattern = true ↔
      (rest.take pattern.length).map view = pattern.map view := by
  induction pattern generalizing rest with
  | nil => simp [startsLike]
  | cons pat pattern ih =>
      cases rest with
      | nil => simp [startsLike]
      | cons line rest => simp [startsLike, ih]

/-- A pattern with lines ends within the text. -/
theorem MatchesAt.add_length_le (h : MatchesAt view lines pattern i)
    (hne : pattern ≠ []) :
    i + pattern.length ≤ lines.length := by
  have hlength := congrArg List.length h
  rw [List.length_map, List.length_map, List.length_take,
    List.length_drop] at hlength
  have hpos : 0 < pattern.length := List.length_pos_of_ne_nil hne
  omega

/-- A looser level matches where a stricter one does. -/
theorem MatchesAt.mono {view' : Text → Text}
    (hview : ∀ s t, view s = view t → view' s = view' t)
    (h : MatchesAt view lines pattern i) : MatchesAt view' lines pattern i := by
  rw [MatchesAt, ← List.forall₂_eq_eq_eq, List.forall₂_map_left_iff,
    List.forall₂_map_right_iff] at h ⊢
  exact h.imp fun s t => hview s t

/-! ## White space -/

theorem trimEnd_cons (c : Char) (t : Text) :
    Text.trimEnd (c :: t) =
      if Text.isWhitespace c ∧ Text.trimEnd t = [] then []
        else c :: Text.trimEnd t := by
  rw [Text.trimEnd, Text.trimEnd, List.reverse_cons, List.dropWhile_append]
  cases hrest : t.reverse.dropWhile Text.isWhitespace with
  | nil => cases hc : Text.isWhitespace c <;> simp [hc]
  | cons d rest => simp

/-- The white space at both ends goes in any order. -/
theorem trim_eq (t : Text) :
    t.trim = (t.trimEnd).dropWhile Text.isWhitespace := by
  induction t with
  | nil => rfl
  | cons c t ih =>
      rw [Text.trim] at ih ⊢
      rw [trimEnd_cons]
      cases hc : Text.isWhitespace c with
      | true =>
          rw [List.dropWhile_cons_of_pos hc, ih]
          split
          next hempty => rw [hempty.2]
          next => rw [List.dropWhile_cons_of_pos hc]
      | false =>
          have hnot : ¬ Text.isWhitespace c = true := by rw [hc]; decide
          rw [List.dropWhile_cons_of_neg hnot, trimEnd_cons, hc,
            if_neg (by simp),
            List.dropWhile_cons_of_neg hnot]

theorem MatchesAt.normalise (hview : view ∈ levels)
    (h : MatchesAt view lines pattern i) :
    MatchesAt normalise lines pattern i := by
  have htrim : ∀ s t : Text, s.trim = t.trim →
      ApplyPatch.normalise s = ApplyPatch.normalise t := by
    intro s t heq
    rw [ApplyPatch.normalise, heq, ApplyPatch.normalise]
  have htrimEnd : ∀ s t : Text, s.trimEnd = t.trimEnd → s.trim = t.trim := by
    intro s t heq
    rw [trim_eq, trim_eq, heq]
  simp only [levels, List.mem_cons, List.not_mem_nil, or_false] at hview
  obtain rfl | rfl | rfl | rfl := hview
  · exact h.mono fun s t heq => congrArg ApplyPatch.normalise heq
  · exact h.mono fun s t heq => htrim s t (htrimEnd s t heq)
  · exact h.mono htrim
  · exact h

/-! ## What should be found -/

/-- The pattern matches at a position that is allowed, at the strictest level
at which it matches at any of these. -/
def BestMatch (lines pattern : List Text) (allowed : Set ℕ) (i : ℕ) : Prop :=
  i ∈ allowed ∧ ∃ stricter view looser, levels = stricter ++ view :: looser ∧
    MatchesAt view lines pattern i ∧
    ∀ view ∈ stricter, ∀ j ∈ allowed, ¬ MatchesAt view lines pattern j

/-- The pattern matches at the end of the text, which is not before the start.
A pattern without lines has no such match. -/
def MatchesEnd (lines pattern : List Text) (start : ℕ) : Prop :=
  pattern ≠ [] ∧ start ≤ lines.length - pattern.length ∧
    ∃ view ∈ levels,
      MatchesAt view lines pattern (lines.length - pattern.length)

open Classical in
/-- The positions where the pattern is looked for: the end of the text, if it
is preferred and matches, or else all from the start on. -/
noncomputable def allowedPositions (lines pattern : List Text) (start : ℕ)
    (eof : Bool) :
    Set ℕ :=
  if eof = true ∧ MatchesEnd lines pattern start then
    {lines.length - pattern.length}
  else Set.Ici start

/-- What a search should give. -/
structure Seeks (lines pattern : List Text) (start : ℕ) (eof : Bool)
    (found : Option ℕ) :
    Prop where
  best : ∀ i ∈ found,
    start ≤ i ∧
      BestMatch lines pattern (allowedPositions lines pattern start eof) i
  nowhere : found = none → ∀ i, start ≤ i →
    ∀ view ∈ levels, ¬ MatchesAt view lines pattern i

/-! ## What is found -/

theorem seekBy_eq_some (h : seekBy view lines pattern start = some i) :
    start ≤ i ∧ MatchesAt view lines pattern i := by
  obtain ⟨hlike, hmem, -⟩ := List.find?_range'_eq_some.1 h
  exact ⟨(List.mem_range'_1.1 hmem).1, (startsLike_iff _).1 hlike⟩

theorem seekBy_eq_none (hne : pattern ≠ [])
    (h : seekBy view lines pattern start = none) :
    ∀ i, start ≤ i → ¬ MatchesAt view lines pattern i := by
  intro i hi hmatch
  have hle := hmatch.add_length_le hne
  have hnot := List.find?_range'_eq_none.1 h i hi (by omega)
  rw [(startsLike_iff _).2 hmatch] at hnot
  cases hnot

/-- The four passes from a position on. -/
def seekLevels (lines pattern : List Text) (searchStart : ℕ) : Option ℕ :=
  levels.findSome? fun view => seekBy view lines pattern searchStart

theorem seekLevels_eq_some (hne : pattern ≠ [])
    (h : seekLevels lines pattern start = some i) :
    start ≤ i ∧ BestMatch lines pattern (Set.Ici start) i := by
  obtain ⟨stricter, view, looser, hlevels, hview, hstricter⟩ :=
    List.findSome?_eq_some_iff.1 h
  obtain ⟨hi, hmatch⟩ := seekBy_eq_some hview
  exact ⟨hi, hi, stricter, view, looser, hlevels, hmatch,
    fun view hmem j hj => seekBy_eq_none hne (hstricter view hmem) j hj⟩

theorem seekLevels_eq_none (hne : pattern ≠ [])
    (h : seekLevels lines pattern start = none) :
    ∀ i, start ≤ i → ∀ view ∈ levels, ¬ MatchesAt view lines pattern i :=
  fun i hi view hview =>
    seekBy_eq_none hne (List.findSome?_eq_none_iff.1 h view hview) i hi

theorem seekSequence_eq (hne : pattern ≠ [])
    (hle : pattern.length ≤ lines.length) :
    seekSequence lines pattern start eof =
      seekLevels lines pattern (if eof then lines.length - pattern.length
        else start) := by
  rw [seekSequence, if_neg hne, if_neg (Nat.not_lt_of_le hle)]
  cases eof <;> simp [seekLevels, levels, hle]

/-! ## When both agree -/

/-- A search that prefers the end of the text is right there: the pattern
matches at the end, and this is not before the start, or it matches nowhere
from the start on. -/
def EndDecides (lines pattern : List Text) (start : ℕ) : Prop :=
  if MatchesAt normalise lines pattern (lines.length - pattern.length) then
    start ≤ lines.length - pattern.length
  else ∀ i, start ≤ i → ¬ MatchesAt normalise lines pattern i

/-- A search that does not look at the end of the text is right. -/
theorem seeks_of_start (hne : pattern ≠ []) :
    Seeks lines pattern start false (seekLevels lines pattern start) := by
  constructor
  · intro i hi
    rw [allowedPositions, if_neg (by simp)]
    exact seekLevels_eq_some hne hi
  · exact seekLevels_eq_none hne

/-- A search that only looks at the end of the text is right if the end
decides. -/
theorem seeks_of_end_iff (hne : pattern ≠ []) :
    Seeks lines pattern start true
        (seekLevels lines pattern (lines.length - pattern.length)) ↔
      EndDecides lines pattern start := by
  cases hfound : seekLevels lines pattern (lines.length - pattern.length) with
  | none =>
      have hnowhere := seekLevels_eq_none hne hfound _ le_rfl
      have hend := hnowhere normalise (by simp [levels])
      rw [EndDecides, if_neg hend]
      constructor
      · intro h i hi
        exact h.nowhere rfl i hi _ (by simp [levels])
      · intro h
        refine ⟨nofun,
          fun _ i hi view hview hmatch => h i hi (hmatch.normalise hview)⟩
  | some i =>
      obtain ⟨hi, -, stricter, view, looser, hlevels, hmatch, hstricter⟩ :=
        seekLevels_eq_some hne hfound
      have hview : view ∈ levels := by
        rw [hlevels]
        exact List.mem_append_right _ List.mem_cons_self
      have heq : i = lines.length - pattern.length := by
        have hle := hmatch.add_length_le hne
        omega
      subst heq
      rw [EndDecides, if_pos (hmatch.normalise hview)]
      constructor
      · intro h
        exact (h.best _ rfl).1
      · intro hstart
        have hend : MatchesEnd lines pattern start :=
          ⟨hne, hstart, view, hview, hmatch⟩
        refine ⟨?_, nofun⟩
        rintro _ ⟨⟩
        refine ⟨hstart, ?_⟩
        rw [allowedPositions, if_pos ⟨rfl, hend⟩]
        refine ⟨rfl, stricter, view, looser, hlevels, hmatch, ?_⟩
        rintro view hmem _ rfl
        exact hstricter view hmem _ (Set.self_mem_Ici)

/-- A search gives what it should exactly if it does not prefer the end of the
text, or the pattern has no lines, or the end decides. -/
theorem seeks_iff (lines pattern : List Text) (start : ℕ) (eof : Bool) :
    Seeks lines pattern start eof (seekSequence lines pattern start eof) ↔
      (eof = true → pattern ≠ [] → EndDecides lines pattern start) := by
  by_cases hne : pattern = []
  · subst hne
    refine iff_of_true ?_ (fun _ h => absurd rfl h)
    rw [seekSequence, if_pos rfl]
    refine ⟨?_, nofun⟩
    rintro _ ⟨⟩
    rw [allowedPositions, if_neg fun h => h.2.1 rfl]
    exact ⟨le_rfl, Set.self_mem_Ici, [], id, _, rfl, rfl, nofun⟩
  by_cases hle : pattern.length ≤ lines.length
  · rw [seekSequence_eq hne hle]
    cases eof with
    | false => exact iff_of_true (seeks_of_start hne) nofun
    | true =>
        exact (seeks_of_end_iff hne).trans ⟨fun h _ _ => h, fun h => h rfl hne⟩
  · have hnowhere : ∀ (view : Text → Text) (i : ℕ),
        ¬ MatchesAt view lines pattern i := by
      intro view i hmatch
      have hlength := hmatch.add_length_le hne
      omega
    rw [seekSequence, if_neg hne, if_pos (Nat.lt_of_not_le hle)]
    refine iff_of_true ⟨nofun, fun _ i _ view _ => hnowhere view i⟩ fun _ _ =>
      ?_
    rw [EndDecides, if_neg (hnowhere _ _)]
    exact fun i _ => hnowhere _ i

/-- A match that is not at the end of the file is not found when the end is
preferred. -/
theorem not_seeks_beforeEnd :
    seekSequence ["a".toList, "b".toList] ["a".toList] 0 true = none ∧
      MatchesAt id ["a".toList, "b".toList] ["a".toList] 0 ∧
      ¬ Seeks ["a".toList, "b".toList] ["a".toList] 0 true
        (seekSequence ["a".toList, "b".toList] ["a".toList] 0 true) := by
  refine ⟨by decide, by decide, ?_⟩
  intro h
  exact h.nowhere (by decide) 0 le_rfl id (by simp [levels]) (by decide)

end CodeRs.ApplyPatch
