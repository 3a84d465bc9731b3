import CodeRs.GitApply.Output
import Mathlib.Data.List.Infix

/-!
# Paths and their own lines

What the parser reports of a path should come from the lines about this path.
The code takes the last path of a set for the one that it has just added, so
where a greater path is in the set it moves that one, and blames it when a
three-way merge fails next.  The abstract state has what the lines of each path
make of it, and the code keeps to it as long as what it moves is the path of
the line, or stands in no other set.
-/

namespace CodeRs.GitApply

/-! ## The lines of a path -/

/-- The text that the pattern of a line matches as a path. -/
def OutputLine.raw : OutputLine → Option Text
  | .checking raw | .status _ raw | .failed raw => some raw
  | .threeWayFailed => none

def OutputLine.path (line : OutputLine) : Option Text := line.raw.bind namedPath

/-- The line names the path, or says that the three-way merge failed and the
closest line before it that names a path names this one. -/
def OutputLine.IsAbout (line : OutputLine) (seen : Option Text)
    (path : Text) : Prop :=
  line.path = some path ∨ (line = .threeWayFailed ∧ seen = some path)

instance (line : OutputLine) (seen : Option Text) (path : Text) :
    Decidable (line.IsAbout seen path) :=
  inferInstanceAs (Decidable (_ ∨ _))

theorem OutputLine.IsAbout.path_eq {line : OutputLine}
    {seen : Option Text} {path : Text}
    (h : line.IsAbout seen path) (hline : line ≠ .threeWayFailed) :
    line.path = some path :=
  h.resolve_right fun hfailed => hline hfailed.1

theorem OutputLine.IsAbout.seen_eq {line : OutputLine}
    {seen : Option Text} {path : Text}
    (h : line.IsAbout seen path) (hline : line.path = none) :
    seen = some path := by
  rcases h with hpath | hfailed
  · rw [hline] at hpath
    cases hpath
  · exact hfailed.2

/-- The lines about a path, of those that follow lines of which the last named
path is given. -/
def ownLinesFrom (path : Text) : Option Text → List OutputLine → List OutputLine
  | _, [] => []
  | seen, line :: rest =>
      if line.IsAbout seen path then
        line :: ownLinesFrom path (line.path.or seen) rest
      else ownLinesFrom path (line.path.or seen) rest

/-- The lines about a path. -/
def ownLines (path : Text) (lines : List OutputLine) : List OutputLine :=
  ownLinesFrom path none lines

/-- The sets have each path where its own lines put it. -/
def KeepsOwnLines (lines : List OutputLine) : Prop :=
  ∀ path outcome, path ∈ (parsed lines).sets outcome ↔
    path ∈ (parsed (ownLines path lines)).sets outcome

/-- Each path is reported as it is for its own lines only, and no path is
reported twice. -/
def ReportsOwnLines (lines : List OutputLine) : Prop :=
  (∀ path outcome, path ∈ report lines outcome ↔
    path ∈ report (ownLines path lines) outcome) ∧
    ∀ outcome other, outcome ≠ other →
    (report lines outcome).Disjoint (report lines other)

/-! ## Where the own lines put each path -/

/-- Where each path stands by its own lines, the path that the last of the
lines names and the text that it is remembered by, and the text that the code
remembers. -/
structure Standings extends Parsing where
  owner : Option (Text × Text)

namespace Standings

/-- Before the first line. -/
def start : Standings := ⟨Parsing.start, none⟩

/-- Where a line puts its path. -/
def ownSets (t : Standings) : OutputLine → PathSets
  | .checking _ => t.sets
  | .status outcome raw =>
      match namedPath raw with
      | some path =>
          (t.sets.insertPath outcome path).removeFromOthers outcome path
      | none => t.sets
  | .failed raw => t.sets.add .skipped raw
  | .threeWayFailed =>
      match t.owner with
      | some (path, text) =>
          if text = path then
            (t.sets.insertPath .skipped path).removeFromOthers .skipped path
          else t.sets.insertPath .skipped path
      | none => t.sets

/-- The path that a line names, and the text that its own lines remember it
by. -/
def ownerOf : OutputLine → Option (Text × Text)
  | .checking raw | .failed raw => (namedPath raw).map fun path => (path, raw)
  | .status _ raw => (namedPath raw).map fun path => (path, path)
  | .threeWayFailed => none

/-- What a line makes of the standings. -/
def step (t : Standings) (line : OutputLine) : Standings where
  sets := t.ownSets line
  lastSeenPath := (t.toParsing.step line).lastSeenPath
  owner := (ownerOf line).or t.owner

/-- The path is skipped, and nothing else. -/
def SkippedOnly (t : Standings) (path : Text) : Prop :=
  path ∈ t.sets .skipped ∧ ∀ outcome ≠ .skipped, path ∉ t.sets outcome

/-- What the code moves for a status line is the path of the line, or neither
that path nor the one moved stands in another set.  The path that it blames for
a three-way merge that failed is the one that the last line names, or both are
skipped already; where no line has named one, it is none, or a text that names
none either. -/
def Fair (t : Standings) : OutputLine → Prop
  | .checking _ | .failed _ => True
  | .status outcome raw =>
      ∀ moved, nextBack (t.sets.add outcome raw outcome) = some moved →
        namedPath raw = some moved ∨ ∀ other ≠ outcome,
          moved ∉ t.sets other ∧ ∀ path, namedPath raw = some path →
            path ∉ t.sets other
  | .threeWayFailed =>
      match t.owner with
      | none => ∀ text ∈ t.lastSeenPath, namedPath text = none ∧
          ∀ outcome ≠ .skipped, text ∉ t.sets outcome
      | some (path, text) =>
          namedPath text = some path ∧
            ((t.lastSeenPath = some text ∧
                (text = path ∨ ∀ outcome ≠ .skipped, text ∉ t.sets outcome)) ∨
              ∃ blamed, t.lastSeenPath = some blamed ∧
                namedPath blamed = some blamed ∧
                t.SkippedOnly blamed ∧ t.SkippedOnly path)

end Standings

def standings (lines : List OutputLine) : Standings :=
  lines.foldl Standings.step .start

/-- No line moves or blames another path than its own to any effect. -/
def Undisturbed (lines : List OutputLine) : Prop :=
  ∀ before line, before ++ [line] <+: lines → (standings before).Fair line

@[simp] theorem parsed_concat (lines : List OutputLine) (line : OutputLine) :
    parsed (lines ++ [line]) = (parsed lines).step line :=
  List.foldl_concat ..

@[simp] theorem standings_concat (lines : List OutputLine) (line : OutputLine) :
    standings (lines ++ [line]) = (standings lines).step line :=
  List.foldl_concat ..

theorem undisturbed_concat {lines : List OutputLine} {line : OutputLine} :
    Undisturbed (lines ++ [line]) ↔
      Undisturbed lines ∧ (standings lines).Fair line := by
  constructor
  · intro h
    exact ⟨fun before other hpre =>
      h before other (hpre.trans (List.prefix_append _ _)),
        h lines line List.prefix_rfl⟩
  · rintro ⟨hlines, hline⟩ before other hpre
    rcases List.prefix_concat_iff.1 hpre with heq | hpre
    · obtain ⟨hbefore, hother⟩ := List.append_inj' heq rfl
      cases hother
      rwa [hbefore]
    · exact hlines before other hpre

/-! ## The code keeps to the standings -/

namespace Standings

variable {t : Standings} {line : OutputLine} {outcome : Outcome}
    {path raw text : Text}

theorem exists_nextBack_insertPath (sets : PathSets) (outcome : Outcome)
    (path : Text) :
    ∃ moved, nextBack (sets.insertPath outcome path outcome) = some moved :=
  Finset.max_of_mem (PathSets.mem_insertPath.2 (.inl ⟨rfl, rfl⟩))

theorem sets_status (hfair : t.Fair (.status outcome raw)) :
    (t.toParsing.step (.status outcome raw)).sets =
      t.ownSets (.status outcome raw) := by
  rw [Fair] at hfair
  simp only [Parsing.step, ownSets]
  cases hpath : namedPath raw with
  | none =>
      rw [PathSets.add_of_none hpath] at hfair ⊢
      cases hnext : nextBack (t.sets outcome) with
      | none => rfl
      | some moved =>
          refine PathSets.removeFromOthers_of_notMem fun other hne => ?_
          rcases hfair moved hnext with hmoved | hothers
          · rw [hpath] at hmoved
            cases hmoved
          · exact (hothers other hne).1
  | some path =>
      rw [PathSets.add_of_some hpath] at hfair ⊢
      obtain ⟨moved, hnext⟩ := exists_nextBack_insertPath t.sets outcome path
      rw [hnext]
      dsimp only
      rcases hfair moved hnext with hmoved | hothers
      · rw [hpath] at hmoved
        cases hmoved
        rfl
      · have hmoved : ∀ other ≠ outcome, moved ∉ t.sets other :=
          fun other hne => (hothers other hne).1
        have hadded : ∀ other ≠ outcome, path ∉ t.sets other :=
          fun other hne => (hothers other hne).2 path hpath
        rw [PathSets.removeFromOthers_insertPath hmoved,
          PathSets.removeFromOthers_insertPath hadded]

theorem fair_of_last
    (h : nextBack (t.sets.add outcome raw outcome) = namedPath raw) :
    t.Fair (.status outcome raw) :=
  fun _ hmoved => .inl (h.symm.trans hmoved)

theorem blame_of_skippedOnly (h : t.SkippedOnly path) :
    (t.sets.insertPath .skipped path).removeFromOthers .skipped path =
      t.sets := by
  rw [PathSets.insertPath_of_mem h.1, PathSets.removeFromOthers_of_notMem h.2]

theorem sets_threeWayFailed (hfair : t.Fair .threeWayFailed) :
    (t.toParsing.step .threeWayFailed).sets = t.ownSets .threeWayFailed := by
  simp only [Fair] at hfair
  simp only [Parsing.step, ownSets]
  cases howner : t.owner with
  | none =>
      rw [howner] at hfair
      cases hlast : t.lastSeenPath with
      | none => rfl
      | some text =>
          obtain ⟨hnone, hothers⟩ := hfair text hlast
          dsimp only
          rw [PathSets.add_of_none hnone,
            PathSets.removeFromOthers_of_notMem hothers]
  | some owner =>
      rw [howner] at hfair
      obtain ⟨hnamed,
        ⟨hlast, htext⟩ | ⟨blamed, hlast, hblamed, hskipped, hskipped'⟩⟩ := hfair
      · rw [hlast]
        dsimp only
        rw [PathSets.add_of_some hnamed]
        by_cases heq : owner.2 = owner.1
        · rw [if_pos heq, heq]
        · rw [if_neg heq,
            PathSets.removeFromOthers_insertPath (htext.resolve_left heq)]
      · rw [hlast]
        dsimp only
        rw [PathSets.add_of_some hblamed, blame_of_skippedOnly hskipped,
          blame_of_skippedOnly hskipped',
          PathSets.insertPath_of_mem hskipped'.1, ite_self]

/-- A line that moves and blames no other path puts its path where it should
be. -/
theorem step_toParsing (hfair : t.Fair line) :
    (t.step line).toParsing = t.toParsing.step line := by
  have hsets : (t.toParsing.step line).sets = t.ownSets line := by
    cases line with
    | checking raw => rfl
    | status outcome raw => exact sets_status hfair
    | failed raw => rfl
    | threeWayFailed => exact sets_threeWayFailed hfair
  rw [step, ← hsets]

end Standings

/-- The code keeps to the standings while no line moves or blames another
path. -/
theorem parsed_of_undisturbed {lines : List OutputLine}
    (h : Undisturbed lines) :
    parsed lines = (standings lines).toParsing := by
  induction lines using List.reverseRecOn with
  | nil => rfl
  | append_singleton lines line ih =>
      obtain ⟨hlines, hline⟩ := undisturbed_concat.1 h
      rw [parsed_concat, standings_concat, ih hlines,
        Standings.step_toParsing hline]

/-! ## The lines of one path alone -/

/-- The last path that lines name, if there is one. -/
def seenPath (seen : Option Text) (lines : List OutputLine) : Option Text :=
  lines.foldl (fun seen line => line.path.or seen) seen

theorem ownLinesFrom_concat (path : Text) (seen : Option Text)
    (lines : List OutputLine)
    (line : OutputLine) :
    ownLinesFrom path seen (lines ++ [line]) =
      ownLinesFrom path seen lines ++
        if line.IsAbout (seenPath seen lines) path then [line] else [] := by
  induction lines generalizing seen with
  | nil =>
      rw [List.nil_append, ownLinesFrom, ownLinesFrom, ownLinesFrom]
      rfl
  | cons first rest ih =>
      rw [List.cons_append, ownLinesFrom, ownLinesFrom, ih]
      split
      · rfl
      · rfl

namespace Standings

theorem ownerOf_fst (line : OutputLine) :
    (ownerOf line).map Prod.fst = line.path := by
  cases line with
  | threeWayFailed => rfl
  | checking raw | status outcome raw | failed raw =>
      rw [ownerOf, Option.map_map]
      exact Option.map_id'

end Standings

theorem standings_owner (lines : List OutputLine) :
    (standings lines).owner.map Prod.fst = seenPath none lines := by
  induction lines using List.reverseRecOn with
  | nil => rfl
  | append_singleton lines line ih =>
      rw [standings_concat, seenPath, List.foldl_concat, ← seenPath, ← ih,
        ← Standings.ownerOf_fst, Standings.step, Option.map_or]

/-- Of the sets that the own lines of a path leave: they have this path only,
and have it where the others have it. -/
structure PathSets.Follow (path : Text) (sets own : PathSets) : Prop where
  mem : ∀ outcome, path ∈ own outcome ↔ path ∈ sets outcome
  only : ∀ outcome, ∀ q ∈ own outcome, q = path

namespace PathSets.Follow

variable {path : Text} {sets own : PathSets}

theorem insertPath (h : Follow path sets own) (outcome : Outcome) :
    Follow path (sets.insertPath outcome path)
      (own.insertPath outcome path) where
  mem other := by rw [mem_insertPath, mem_insertPath, h.mem]
  only other q hq := (mem_insertPath.1 hq).elim And.right (h.only other q)

theorem removeFromOthers (h : Follow path sets own) (outcome : Outcome) :
    Follow path (sets.removeFromOthers outcome path)
      (own.removeFromOthers outcome path) where
  mem other := by rw [mem_removeFromOthers, mem_removeFromOthers, h.mem]
  only other q hq := h.only other q (mem_removeFromOthers.1 hq).1

/-- The path just added is the last one of the set. -/
theorem nextBack_insertPath (h : Follow path sets own) (outcome : Outcome) :
    nextBack (own.insertPath outcome path outcome) = some path :=
  nextBack_eq_some.2 ⟨mem_insertPath.2 (.inl ⟨rfl, rfl⟩), fun q hq =>
    ((h.insertPath outcome).only outcome q hq).le⟩

end PathSets.Follow

namespace Standings

variable {t : Standings} {own : Parsing} {line : OutputLine} {path text : Text}

/-- The lines of a path alone leave it where it stands, and remember it by its
own text. -/
structure Follows (path : Text) (t : Standings) (own : Parsing) : Prop where
  sets : PathSets.Follow path t.sets own.sets
  last : ∀ text, t.owner = some (path, text) → own.lastSeenPath = some text

theorem mem_ownSets_of_not {outcome : Outcome}
    (h : ¬ line.IsAbout (t.owner.map Prod.fst) path) :
    path ∈ t.ownSets line outcome ↔ path ∈ t.sets outcome := by
  obtain ⟨hpath, hfailed⟩ := not_or.1 h
  cases line with
  | checking raw => exact Iff.rfl
  | status other raw =>
      rw [ownSets]
      cases hraw : namedPath raw with
      | none => exact Iff.rfl
      | some q =>
          have hne : path ≠ q := by
            rintro rfl
            exact hpath hraw
          rw [PathSets.mem_removeFromOthers, PathSets.mem_insertPath]
          simp [hne]
  | failed raw =>
      rw [ownSets]
      cases hraw : namedPath raw with
      | none => rw [PathSets.add_of_none hraw]
      | some q =>
          have hne : path ≠ q := by
            rintro rfl
            exact hpath hraw
          rw [PathSets.add_of_some hraw, PathSets.mem_insertPath]
          simp [hne]
  | threeWayFailed =>
      rw [ownSets]
      cases howner : t.owner with
      | none => exact Iff.rfl
      | some owner =>
          have hne : path ≠ owner.1 := by
            rintro rfl
            exact hfailed ⟨rfl, by rw [howner, Option.map_some]⟩
          dsimp only
          split
          · rw [PathSets.mem_removeFromOthers, PathSets.mem_insertPath]
            simp [hne]
          · rw [PathSets.mem_insertPath]
            simp [hne]

/-- A line about something else changes nothing for the path. -/
theorem Follows.step_other (h : Follows path t own)
    (hother : ¬ line.IsAbout (t.owner.map Prod.fst) path) :
    Follows path (t.step line) own where
  sets :=
    { mem := fun outcome =>
        (h.sets.mem outcome).trans (mem_ownSets_of_not hother).symm
      only := h.sets.only }
  last text howner := by
    rcases Option.or_eq_some_iff.1 howner with hline | ⟨-, howner⟩
    · have hpath : line.path = some path := by
        rw [← ownerOf_fst, hline, Option.map_some]
      exact absurd (.inl hpath) hother
    · exact h.last text howner

theorem Follows.step_own (h : Follows path t own)
    (habout : line.IsAbout (t.owner.map Prod.fst) path)
    (hnamed : line = .threeWayFailed → ∀ text, t.owner = some (path, text) →
      namedPath text = some path) : Follows path (t.step line)
      (own.step line) := by
  cases line with
  | checking raw =>
      have hraw : namedPath raw = some path := habout.path_eq (by simp)
      refine ⟨h.sets, fun text howner => ?_⟩
      rw [step, ownerOf, hraw] at howner
      cases howner
      rfl
  | status outcome raw =>
      have hraw : namedPath raw = some path := habout.path_eq (by simp)
      have hstep :=
        Parsing.step_status hraw (h.sets.nextBack_insertPath outcome)
      refine ⟨?_, fun text howner => ?_⟩
      · rw [hstep, step, ownSets, hraw]
        exact (h.sets.insertPath outcome).removeFromOthers outcome
      · rw [step, ownerOf, hraw] at howner
        cases howner
        rw [hstep]
  | failed raw =>
      have hraw : namedPath raw = some path := habout.path_eq (by simp)
      refine ⟨?_, fun text howner => ?_⟩
      · simp only [step, ownSets, Parsing.step, PathSets.add_of_some hraw]
        exact h.sets.insertPath .skipped
      · rw [step, ownerOf, hraw] at howner
        cases howner
        rfl
  | threeWayFailed =>
      have hseen : t.owner.map Prod.fst = some path := habout.seen_eq rfl
      obtain ⟨⟨owner, text⟩, howner, hfst⟩ := Option.map_eq_some_iff.1 hseen
      cases hfst
      have hlast := h.last text howner
      have hinsert := h.sets.insertPath .skipped
      have hstep := Parsing.step_threeWayFailed hlast
      rw [PathSets.add_of_some (hnamed rfl text howner)] at hstep
      refine ⟨?_, fun text' howner' => ?_⟩
      · rw [hstep, step, ownSets, howner]
        dsimp only
        split
        next heq =>
          rw [heq]
          exact hinsert.removeFromOthers .skipped
        next hne =>
          rw [PathSets.removeFromOthers_of_notMem fun other _ hmem =>
            hne (hinsert.only other text hmem)]
          exact hinsert
      · have hsame : t.owner = some (owner, text') := howner'
        rw [hstep, ← hlast]
        exact h.last text' hsame

end Standings

/-- At every failed three-way merge, the text that the last named path is
remembered by names this path. -/
def RemembersByName (lines : List OutputLine) : Prop :=
  ∀ before, before ++ [.threeWayFailed] <+: lines → ∀ path text,
    (standings before).owner = some (path, text) → namedPath text = some path

/-- The own lines of each path leave it where it stands, unless a path that is
blamed is not the one that its text names. -/
theorem follows_ownLines {lines : List OutputLine} (h : RemembersByName lines)
    (path : Text) :
    (standings lines).Follows path (parsed (ownLines path lines)) := by
  induction lines using List.reverseRecOn with
  | nil =>
      exact ⟨⟨fun _ => Iff.rfl,
        fun _ _ hq => absurd hq (Finset.notMem_empty _)⟩, nofun⟩
  | append_singleton lines line ih =>
      have hfollows := ih fun before hpre =>
        h before (hpre.trans (List.prefix_append _ _))
      rw [standings_concat, ownLines, ownLinesFrom_concat, ← standings_owner]
      split
      next habout =>
        rw [parsed_concat]
        refine hfollows.step_own habout fun heq text howner => ?_
        exact h lines (by rw [heq]) path text howner
      next hother =>
        rw [List.append_nil]
        exact hfollows.step_other hother

/-! ## Outputs of which the code reports each path by its own lines -/

theorem remembersByName_of_undisturbed {lines : List OutputLine}
    (h : Undisturbed lines) :
    RemembersByName lines := by
  intro before hpre path text howner
  have hfair := h before .threeWayFailed hpre
  simp only [Standings.Fair, howner] at hfair
  exact hfair.1

theorem keepsOwnLines_of_undisturbed {lines : List OutputLine}
    (h : Undisturbed lines) :
    KeepsOwnLines lines := by
  intro path outcome
  rw [parsed_of_undisturbed h,
    (follows_ownLines (remembersByName_of_undisturbed h) path).sets.mem]

theorem reportsOwnLines_of_keepsOwnLines {lines : List OutputLine}
    (h : KeepsOwnLines lines) :
    ReportsOwnLines lines := by
  refine ⟨fun path outcome => ?_, fun _ _ hne => disjoint_report lines hne⟩
  rw [mem_report, mem_report]
  have hsets := h path
  cases outcome <;> simp only [PathSets.settled, Finset.mem_sdiff, hsets]

/-! ## Outputs without nested quotes -/

/-- The text of the line names a path, and so does that path as a text. -/
def OutputLine.Tidy (line : OutputLine) : Prop :=
  ∀ raw, line.raw = some raw → ∃ path, namedPath raw = some path ∧
    namedPath path = some path

namespace PathSets

variable {sets : PathSets} {outcome other : Outcome}
    {path q blamed added : Text}

theorem mem_blame_of_ne (hne : other ≠ outcome) :
    q ∈ (sets.insertPath outcome path).removeFromOthers outcome blamed other ↔
      q ∈ sets other ∧ q ≠ blamed := by
  rw [mem_removeFromOthers, mem_insertPath]
  simp [hne]

theorem mem_blame_self :
    q ∈ (sets.insertPath outcome path).removeFromOthers outcome blamed outcome ↔
      q = path ∨ q ∈ sets outcome := by
  rw [mem_removeFromOthers, mem_insertPath]
  simp

/-- Removing one of two paths from the other sets is removing the other one
only where neither is in them. -/
theorem notMem_of_blame_eq (hne : blamed ≠ path)
    (h : (sets.insertPath outcome added).removeFromOthers outcome blamed =
      (sets.insertPath outcome path).removeFromOthers outcome path)
    (hother : other ≠ outcome) : blamed ∉ sets other ∧ path ∉ sets other := by
  have hmem : ∀ q, (q ∈ sets other ∧ q ≠ blamed) ↔
      (q ∈ sets other ∧ q ≠ path) := by
    intro q
    rw [← mem_blame_of_ne hother, h, mem_blame_of_ne hother]
  constructor
  · exact fun hblamed => ((hmem blamed).2 ⟨hblamed, hne⟩).2 rfl
  · exact fun hpath => ((hmem path).1 ⟨hpath, hne.symm⟩).2 rfl

end PathSets

namespace Standings

variable {t : Standings} {line : OutputLine}

/-- No path in the standings is in quotes, and what the code remembers is the
text of the last line with a path, or a path that stands in its set. -/
structure Neat (t : Standings) : Prop where
  sets : ∀ outcome, ∀ q ∈ t.sets outcome, namedPath q = some q
  owner : ∀ path text, t.owner = some (path, text) →
    namedPath text = some path ∧ namedPath path = some path
  last_none : t.owner = none → t.lastSeenPath = none
  last : ∀ path text, t.owner = some (path, text) →
    ∃ blamed, t.lastSeenPath = some blamed ∧
    (blamed = text ∨ (text = path ∧ namedPath blamed = some blamed))

theorem Neat.namedPath_insertPath {path q : Text}
    {outcome other : Outcome} (h : t.Neat)
    (hpath : namedPath path = some path)
    (hq : q ∈ t.sets.insertPath other path outcome) :
    namedPath q = some q := by
  rcases PathSets.mem_insertPath.1 hq with ⟨-, rfl⟩ | hmem
  · exact hpath
  · exact h.sets outcome q hmem

theorem Neat.sets_step (h : t.Neat) (hline : line.Tidy) (outcome : Outcome) :
    ∀ q ∈ (t.step line).sets outcome, namedPath q = some q := by
  intro q hq
  simp only [step] at hq
  cases line with
  | checking raw => exact h.sets outcome q hq
  | status other raw =>
      obtain ⟨path, hraw, hpath⟩ := hline raw rfl
      rw [ownSets, hraw] at hq
      exact h.namedPath_insertPath hpath (PathSets.mem_removeFromOthers.1 hq).1
  | failed raw =>
      obtain ⟨path, hraw, hpath⟩ := hline raw rfl
      rw [ownSets, PathSets.add_of_some hraw] at hq
      exact h.namedPath_insertPath hpath hq
  | threeWayFailed =>
      rw [ownSets] at hq
      cases howner : t.owner with
      | none =>
          rw [howner] at hq
          exact h.sets outcome q hq
      | some owner =>
          rw [howner] at hq
          dsimp only at hq
          have hpath := (h.owner owner.1 owner.2 howner).2
          split at hq
          next =>
            exact h.namedPath_insertPath hpath
              (PathSets.mem_removeFromOthers.1 hq).1
          next => exact h.namedPath_insertPath hpath hq

theorem Neat.step (h : t.Neat) (hline : line.Tidy) : (t.step line).Neat := by
  have hsets := h.sets_step hline
  cases line with
  | checking raw | failed raw =>
      obtain ⟨path, hraw, hpath⟩ := hline raw rfl
      refine ⟨hsets, fun path' text howner => ?_, fun howner => ?_,
        fun path' text howner => ?_⟩
      · rw [Standings.step, ownerOf, hraw] at howner
        cases howner
        exact ⟨hraw, hpath⟩
      · rw [Standings.step, ownerOf, hraw] at howner
        cases howner
      · rw [Standings.step, ownerOf, hraw] at howner
        cases howner
        exact ⟨raw, rfl, .inl rfl⟩
  | status outcome raw =>
      obtain ⟨path, hraw, hpath⟩ := hline raw rfl
      obtain ⟨moved, hnext⟩ := exists_nextBack_insertPath t.sets outcome path
      have hmoved : namedPath moved = some moved :=
        h.namedPath_insertPath hpath (nextBack_eq_some.1 hnext).1
      refine ⟨hsets, fun path' text howner => ?_, fun howner => ?_,
        fun path' text howner => ?_⟩
      · rw [Standings.step, ownerOf, hraw] at howner
        cases howner
        exact ⟨hpath, hpath⟩
      · rw [Standings.step, ownerOf, hraw] at howner
        cases howner
      · rw [Standings.step, ownerOf, hraw] at howner
        cases howner
        refine ⟨moved, ?_, .inr ⟨rfl, hmoved⟩⟩
        rw [Standings.step, Parsing.step_status hraw hnext]
  | threeWayFailed =>
      have hlast : (t.step .threeWayFailed).lastSeenPath = t.lastSeenPath := by
        rw [Standings.step]
        cases hlast : t.lastSeenPath with
        | none => rw [Parsing.step, hlast, hlast]
        | some text => rw [Parsing.step_threeWayFailed hlast]
      refine ⟨hsets, h.owner, fun howner => ?_, fun path text howner => ?_⟩
      · rw [hlast]
        exact h.last_none howner
      · rw [hlast]
        exact h.last path text howner

/-- A line that puts its path where it should be moves and blames no other path
to any effect. -/
theorem Neat.fair_of_sets (h : t.Neat) (hline : line.Tidy)
    (hsets : (t.toParsing.step line).sets = t.ownSets line) : t.Fair line := by
  cases line with
  | checking raw | failed raw => trivial
  | status outcome raw =>
      obtain ⟨path, hraw, -⟩ := hline raw rfl
      intro moved hnext
      rw [PathSets.add_of_some hraw] at hnext
      by_cases heq : moved = path
      · exact .inl (by rw [hraw, heq])
      · rw [Parsing.step_status hraw hnext, ownSets, hraw] at hsets
        refine .inr fun other hne => ?_
        obtain ⟨hmoved, hpath⟩ := PathSets.notMem_of_blame_eq heq hsets hne
        refine ⟨hmoved, fun path' hraw' => ?_⟩
        rw [hraw] at hraw'
        cases hraw'
        exact hpath
  | threeWayFailed =>
      rw [Fair]
      cases howner : t.owner with
      | none =>
          intro text htext
          rw [h.last_none howner] at htext
          cases htext
      | some owner =>
          obtain ⟨hnamed, hpath⟩ := h.owner owner.1 owner.2 howner
          obtain ⟨blamed, hlast, hblamed⟩ := h.last owner.1 owner.2 howner
          refine ⟨hnamed, ?_⟩
          by_cases heq : blamed = owner.2
          · refine .inl ⟨by rw [hlast, heq], ?_⟩
            by_cases htext : owner.2 = owner.1
            · exact .inl htext
            · refine .inr fun outcome _ hmem => htext ?_
              have hself := h.sets outcome owner.2 hmem
              rw [hnamed] at hself
              exact (Option.some.inj hself).symm
          · obtain ⟨htext, hself⟩ := hblamed.resolve_left heq
            rw [htext] at heq
            rw [Parsing.step_threeWayFailed hlast, PathSets.add_of_some hself,
              ownSets, howner]
              at hsets
            dsimp only at hsets
            rw [if_pos htext] at hsets
            have hnot : ∀ outcome ≠ Outcome.skipped,
                blamed ∉ t.sets outcome ∧ owner.1 ∉ t.sets outcome :=
              fun outcome hne =>
              PathSets.notMem_of_blame_eq heq hsets hne
            have hskipped : ∀ q, (q = blamed ∨ q ∈ t.sets .skipped) ↔
                (q = owner.1 ∨ q ∈ t.sets .skipped) := by
              intro q
              rw [← PathSets.mem_blame_self, hsets, PathSets.mem_blame_self]
            have hmem := ((hskipped blamed).1 (.inl rfl)).resolve_left heq
            have hmem' :=
              ((hskipped owner.1).2 (.inl rfl)).resolve_left (Ne.symm heq)
            exact .inr ⟨blamed, hlast, hself,
              ⟨hmem, fun outcome hne => (hnot outcome hne).1⟩,
              ⟨hmem', fun outcome hne => (hnot outcome hne).2⟩⟩

end Standings

theorem neat_standings {lines : List OutputLine}
    (h : ∀ line ∈ lines, line.Tidy) :
    (standings lines).Neat := by
  induction lines using List.reverseRecOn with
  | nil =>
      exact ⟨fun _ q hq => absurd hq (Finset.notMem_empty q), nofun,
        fun _ => rfl, nofun⟩
  | append_singleton lines line ih =>
      rw [standings_concat]
      exact (ih
        fun other hother => h other (List.mem_append_left _ hother)).step
        (h line (List.mem_append_right _ List.mem_cons_self))

theorem remembersByName_of_tidy {lines : List OutputLine}
    (h : ∀ line ∈ lines, line.Tidy) :
    RemembersByName lines := by
  intro before hpre path text howner
  have hbefore : ∀ line ∈ before, line.Tidy := fun line hmem =>
    h line (hpre.subset (List.mem_append_left _ hmem))
  exact ((neat_standings hbefore).owner path text howner).1

/-- Where the sets have each path where its own lines put it after every line,
no line moved or blamed another path. -/
theorem undisturbed_of_keepsOwnLines {lines : List OutputLine}
    (htidy : ∀ line ∈ lines, line.Tidy)
    (h : ∀ before, before <+: lines →
      KeepsOwnLines before) : Undisturbed lines := by
  induction lines using List.reverseRecOn with
  | nil =>
      intro before line hpre
      exact absurd (List.prefix_nil.1 hpre) (by simp)
  | append_singleton lines line ih =>
      have htidy' := fun other hother =>
        htidy other (List.mem_append_left _ hother)
      have hlines := ih htidy' fun before hpre =>
        h before (hpre.trans (List.prefix_append _ _))
      have hneat := neat_standings htidy'
      refine undisturbed_concat.2 ⟨hlines, hneat.fair_of_sets
        (htidy line (List.mem_append_right _ List.mem_cons_self)) ?_⟩
      have hkeeps := h (lines ++ [line]) List.prefix_rfl
      funext outcome
      ext path
      have hmem := hkeeps path outcome
      rw [(follows_ownLines (remembersByName_of_tidy htidy) path).sets.mem,
        parsed_concat,
        standings_concat, parsed_of_undisturbed hlines] at hmem
      exact hmem

/-- Each path is reported by its own lines only, where every status line moves
its own path, or one that with it stands in no other set, and every failed
three-way merge is blamed on the path of the line before it, or both are
skipped already.  For outputs without nested quotes these are the ones of which
the sets have each path where its own lines put it after every line. -/
theorem reportsOwnLines_of_undisturbed (lines : List OutputLine) :
    (Undisturbed lines → ReportsOwnLines lines) ∧
      ((∀ line ∈ lines, line.Tidy) →
        ((∀ before, before <+: lines → KeepsOwnLines before) ↔
          Undisturbed lines)) := by
  refine ⟨fun h => reportsOwnLines_of_keepsOwnLines
    (keepsOwnLines_of_undisturbed h),
    fun htidy => ⟨undisturbed_of_keepsOwnLines htidy, fun h before hpre => ?_⟩⟩
  exact keepsOwnLines_of_undisturbed fun front line hfront =>
    h front line (hfront.trans hpre)

/-- Two files in order, and a merge that fails. -/
theorem reportsOwnLines_inOrder :
    ReportsOwnLines [.status .applied "a".toList,
      .status .conflicted "b".toList,
      .checking "c".toList, .threeWayFailed] := by
  refine (reportsOwnLines_of_undisturbed _).1 ?_
  have hnone : Undisturbed [] := fun before line hpre =>
    absurd (List.prefix_nil.1 hpre) (by simp)
  have happlied : Undisturbed ([] ++ [.status .applied "a".toList]) :=
    undisturbed_concat.2 ⟨hnone, Standings.fair_of_last (by decide)⟩
  have hconflicted : Undisturbed (_ ++ [.status .conflicted "b".toList]) :=
    undisturbed_concat.2 ⟨happlied, Standings.fair_of_last (by decide)⟩
  have hchecking : Undisturbed (_ ++ [.checking "c".toList]) :=
    undisturbed_concat.2 ⟨hconflicted, trivial⟩
  have hfailed : Undisturbed (_ ++ [.threeWayFailed]) :=
    undisturbed_concat.2 ⟨hchecking, by decide, .inl ⟨by decide, .inl rfl⟩⟩
  exact hfailed

/-- A file is applied, and then another one, after its conflicts: it is
reported as conflicted, and by its own lines it is applied. -/
theorem not_reportsOwnLines_greater : ¬ ∀ lines, ReportsOwnLines lines := by
  intro h
  obtain ⟨hsame, -⟩ :=
    h [.status .applied "z".toList, .status .conflicted "a".toList,
      .status .applied "a".toList]
  have happlied := hsame "a".toList .applied
  rw [mem_report, mem_report] at happlied
  exact absurd happlied (by decide)

end CodeRs.GitApply
