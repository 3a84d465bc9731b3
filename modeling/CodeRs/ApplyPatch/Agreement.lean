import CodeRs.ApplyPatch.Execute
import CodeRs.Lib.Stamps

/-!
# When the two ways agree

Both ways are runs of steps that write to a few locations each.  The map keeps
only the last hunk of every path, each computed from the files as they are, and
its order is not the order of the patch.  So the texts agree if every location
is left to one change, that of the last hunk that touches it, and this hunk
does not read what an earlier one wrote.
-/

namespace CodeRs.ApplyPatch

open Program

variable (cwd : Path)

/-! ## Both ways as steps -/

/-- The loop over the hunks has the effects of the hunks in turn. -/
theorem steps_of_applyHunks {hunks : List Hunk}
    {affected affected' : AffectedPaths}
    {fs fs' : FileSystem}
    (h : exec (applyHunks cwd affected hunks) fs = (.ok affected', fs')) :
    Steps (HunkEffect cwd) hunks fs.contents fs'.contents := by
  induction hunks generalizing affected fs with
  | nil =>
      cases h
      rfl
  | cons hunk rest ih =>
      rw [applyHunks, exec_bind_ok] at h
      obtain ⟨next, mid, hhunk, hrest⟩ := h
      exact ⟨mid.contents, hunkEffect_of_applyHunk cwd hhunk, ih hrest⟩

theorem steps_of_applyHunksToFiles {hunks : List Hunk}
    {affected : AffectedPaths}
    {fs fs' : FileSystem}
    (h : exec (applyHunksToFiles cwd hunks) fs = (.ok affected, fs')) :
    Steps (HunkEffect cwd) hunks fs.contents fs'.contents := by
  rw [applyHunksToFiles] at h
  split at h
  · cases h
  · exact steps_of_applyHunks cwd h

/-- The loop over the changes has the effects of the changes in turn. -/
theorem steps_of_applyChanges {changes : List (Path × ApplyPatchFileChange)}
    {affected affected' : AffectedPaths} {fs fs' : FileSystem}
    (h : exec (applyChanges cwd affected changes) fs = (.ok affected', fs')) :
    Steps (fun change c c' => c' =
      changeEffect cwd c change) changes fs.contents
      fs'.contents := by
  induction changes generalizing affected fs with
  | nil =>
      cases h
      rfl
  | cons change rest ih =>
      rw [applyChanges, exec_bind_ok] at h
      obtain ⟨next, mid, hchange, hrest⟩ := h
      exact ⟨mid.contents, contents_applyChange cwd hchange, ih hrest⟩

theorem HunkEffect.frame {hunk : Hunk} {c c' : Contents} {l : Loc}
    (h : HunkEffect cwd hunk c c') (hl : l ∉ hunk.locations cwd) :
    c' l = c l := by
  cases h <;>
    simp_all [Hunk.locations, Hunk.path, Hunk.movePath, Function.update_of_ne]

/-- The locations that a change writes or removes. -/
def changeLocations (change : Path × ApplyPatchFileChange) : List Loc :=
  (touchedPaths change).map (locate cwd)

theorem changeEffect_frame {change : Path × ApplyPatchFileChange} {c : Contents}
    {l : Loc} (hl : l ∉ changeLocations cwd change) :
    changeEffect cwd c change l = c l := by
  match change with
  | (path, .add content) | (path, .delete content)
  | (path, .update none content)
  | (path, .update (some dest) content) =>
      simp_all [changeLocations, touchedPaths, changeEffect,
        Function.update_of_ne]

/-! ## What the map holds -/

theorem verifyHunks_eq_fill (fs : FileSystem) (hunks : List Hunk) :
    verifyHunks cwd fs hunks =
      fill (Hunk.resolvePath cwd) (verifyHunk cwd fs) hunks := rfl

theorem changeLocations_of_verifyHunk {fs : FileSystem} {hunk : Hunk}
    {change : ApplyPatchFileChange} (hcwd : cwd.isAbsolute)
    (h : verifyHunk cwd fs hunk = .ok change) :
    changeLocations cwd (hunk.resolvePath cwd, change) =
      hunk.locations cwd := by
  match hunk with
  | .addFile path contents =>
      cases h
      simp [changeLocations, touchedPaths, Hunk.locations,
        Hunk.resolvePath, Hunk.path,
        Hunk.movePath, locate_join hcwd]
  | .deleteFile path =>
      obtain ⟨content, -, h⟩ := bind_eq_ok.1 h
      cases h
      simp [changeLocations, touchedPaths, Hunk.locations,
        Hunk.resolvePath, Hunk.path,
        Hunk.movePath, locate_join hcwd]
  | .updateFile path movePath chunks =>
      obtain ⟨content, -, h⟩ := bind_eq_ok.1 h
      cases h
      cases movePath <;>
        simp [changeLocations, touchedPaths, Hunk.locations,
          Hunk.resolvePath, Hunk.path,
          Hunk.movePath, locate_join hcwd]

/-! ## Hunks that do not get in each other's way -/

/-- The location that a hunk writes a text to that it derives from its file. -/
def Hunk.derivedAt : Hunk → Option Loc
  | .updateFile path none _ => some (locate cwd path)
  | .updateFile _ (some dest) _ => some (locate cwd dest)
  | _ => none

/-- The last hunk that touches a location. -/
abbrev IsLastAt (hunks : List Hunk) (l : Loc) :=
  IsLast (fun hunk => l ∈ hunk.locations cwd) hunks

/-- Every location is left to the last hunk that touches it. -/
structure Untangled (hunks : List Hunk) : Prop where
  /-- No later hunk has the path of the last hunk at a location. -/
  kept : ∀ {l pre hunk post}, IsLastAt cwd hunks l pre hunk post →
    ∀ later ∈ post, later.resolvePath cwd ≠ hunk.resolvePath cwd
  /-- An earlier hunk at the location is followed by one with the same path. -/
  alone : ∀ {l pre hunk post between earlier before},
    IsLastAt cwd hunks l pre hunk post →
    pre = before ++ earlier :: between → l ∈ earlier.locations cwd →
    ∃ later ∈ between ++ hunk :: post,
      later.resolvePath cwd = earlier.resolvePath cwd
  /-- The last hunk at a location does not move the file there onto itself. -/
  staysPut : ∀ {l pre hunk post}, IsLastAt cwd hunks l pre hunk post →
    hunk.movePath.map (locate cwd) = some l → locate cwd hunk.path ≠ l
  /-- If it derives a text, then from a file that no earlier hunk touches. -/
  fresh : ∀ {l pre hunk post}, IsLastAt cwd hunks l pre hunk post →
    hunk.derivedAt cwd = some l →
    ∀ earlier ∈ pre, locate cwd hunk.path ∉ earlier.locations cwd

/-- Hunks at separate locations, none of which moves a file onto itself, are
untangled. -/
theorem untangled_of_disjoint {hunks : List Hunk}
    (hdisjoint : hunks.Pairwise fun x y => ∀ l ∈ x.locations cwd,
      l ∉ y.locations cwd)
    (hmoves : ∀ hunk ∈ hunks, hunk.movePath.map (locate cwd) ≠
      some (locate cwd hunk.path)) : Untangled cwd hunks := by
  have hpath : ∀ hunk : Hunk, locate cwd hunk.path ∈ hunk.locations cwd := by
    intro hunk
    exact List.mem_cons_self
  have hbefore : ∀ {l pre hunk post}, IsLastAt cwd hunks l pre hunk post →
      ∀ earlier ∈ pre, ∀ m ∈ earlier.locations cwd, m ∉ hunk.locations cwd := by
    intro l pre hunk post hlast earlier hearlier
    rw [hlast.eq, List.pairwise_append] at hdisjoint
    exact hdisjoint.2.2 earlier hearlier hunk List.mem_cons_self
  constructor
  · intro l pre hunk post hlast later hlater heq
    rw [hlast.eq, List.pairwise_append, List.pairwise_cons] at hdisjoint
    have hlocate : locate cwd later.path = locate cwd hunk.path := by
      simp only [locate]
      exact congrArg Path.names heq
    exact hdisjoint.2.1.1 later hlater _ (hpath hunk) (hlocate ▸ hpath later)
  · intro l pre hunk post between earlier before hlast hpre hl
    have hearlier : earlier ∈ pre := by simp [hpre]
    exact absurd hlast.holds (hbefore hlast earlier hearlier l hl)
  · intro l pre hunk post hlast hmove heq
    exact hmoves hunk hlast.mem (heq ▸ hmove)
  · intro l pre hunk post hlast _ earlier hearlier hmem
    exact hbefore hlast earlier hearlier _ hmem (hpath hunk)

theorem derived_eq {fs : FileSystem} {path : Path}
    {chunks : List UpdateFileChunk}
    {original contents verified : Text} (hcwd : cwd.isAbsolute)
    (hderive : deriveNewContents path original chunks = .ok contents)
    (hsame : fs.contents (locate cwd path) = some original)
    (hnew : newContents cwd fs (cwd.join path) chunks = .ok verified) :
    verified = contents := by
  obtain ⟨original', hread, hverified⟩ := newContents_ok cwd hnew
  rw [locate_join hcwd, hsame] at hread
  cases hread
  rw [deriveNewContents_path hderive] at hverified
  cases hverified
  rfl

/-- The last hunk at a location and its change leave the same text there. -/
theorem changeEffect_of_verifyHunk {fs : FileSystem} {hunk : Hunk}
    {change : ApplyPatchFileChange} {c before after : Contents} {l : Loc}
    (hcwd : cwd.isAbsolute) (hverify : verifyHunk cwd fs hunk = .ok change)
    (heffect : HunkEffect cwd hunk before after) (hl : l ∈ hunk.locations cwd)
    (hplace : hunk.movePath.map (locate cwd) = some l →
      locate cwd hunk.path ≠ l)
    (hfresh : hunk.derivedAt cwd = some l →
      before (locate cwd hunk.path) = fs.contents (locate cwd hunk.path)) :
    changeEffect cwd c (hunk.resolvePath cwd, change) l = after l := by
  cases heffect with
  | @addFile path contents =>
      cases hverify
      obtain rfl : l = locate cwd path := by simpa using hl
      simp [changeEffect, Hunk.resolvePath, Hunk.path, locate_join hcwd]
  | @deleteFile path =>
      obtain ⟨content, -, h⟩ := bind_eq_ok.1 hverify
      cases h
      obtain rfl : l = locate cwd path := by simpa using hl
      simp [changeEffect, Hunk.resolvePath, Hunk.path, locate_join hcwd]
  | @updateFile path chunks _ original contents hread hderive =>
      obtain ⟨verified, hnew, h⟩ := bind_eq_ok.1 hverify
      cases h
      obtain rfl : l = locate cwd path := by simpa using hl
      have hsame : fs.contents (locate cwd path) = some original :=
        (hfresh rfl).symm.trans hread
      have htext := derived_eq cwd hcwd hderive hsame hnew
      simp [changeEffect, Hunk.resolvePath, Hunk.path, locate_join hcwd, htext]
  | @moveFile path dest chunks _ original contents hread hderive =>
      obtain ⟨verified, hnew, h⟩ := bind_eq_ok.1 hverify
      cases h
      by_cases hdest : l = locate cwd dest
      · subst hdest
        have hsource : locate cwd path ≠ locate cwd dest := hplace rfl
        have hsame : fs.contents (locate cwd path) = some original :=
          (hfresh rfl).symm.trans hread
        have htext := derived_eq cwd hcwd hderive hsame hnew
        simp [changeEffect, Hunk.resolvePath, Hunk.path,
          locate_join hcwd, htext,
          Function.update_of_ne hsource.symm]
      · obtain rfl : l = locate cwd path := by simpa [hdest] using hl
        simp [changeEffect, Hunk.resolvePath, Hunk.path, locate_join hcwd,
          Function.update_of_ne hdest]

/-! ## Agreement -/

/-- The changes of an action are those of the map, in some order. -/
def ApplyPatchAction.Iterates (action : ApplyPatchAction)
    (changes : Changes) : Prop :=
  ∀ path change, (path, change) ∈ action.changes ↔
    changes.lookup path = some change

/-- Wherever both ways succeed, they leave the same texts, in whatever order
the map is iterated. -/
def WaysAgree (hunks : List Hunk) : Prop :=
  ∀ (fs : FileSystem) (changes : Changes) (action : ApplyPatchAction),
    verifyHunks cwd fs hunks = .ok changes → action.Iterates changes →
    ∀ (affected affected' : AffectedPaths) (applied written : FileSystem),
      exec (applyHunksToFiles cwd hunks) fs = (.ok affected, applied) →
      exec (applyChangesFromApplyPatch cwd action) fs =
        (.ok affected', written) →
      written.contents = applied.contents

theorem exists_isLast_of_mem {fs : FileSystem} {hunks : List Hunk}
    {changes : Changes}
    {action : ApplyPatchAction}
    (hverify : verifyHunks cwd fs hunks = .ok changes)
    (hiterates : action.Iterates changes) {path : Path}
    {change : ApplyPatchFileChange} :
    (path, change) ∈ action.changes ↔
      ∃ pre hunk post,
        IsLast (fun hunk => hunk.resolvePath cwd = path) hunks pre hunk post ∧
        verifyHunk cwd fs hunk = .ok change :=
  (hiterates path change).trans
    (lookup_fill ((verifyHunks_eq_fill cwd fs hunks).symm.trans hverify))

theorem eq_of_mem_changeLocations {fs : FileSystem} {hunks pre post : List Hunk}
    {hunk : Hunk} {changes : Changes} {action : ApplyPatchAction} {l : Loc}
    (hcwd : cwd.isAbsolute) (huntangled : Untangled cwd hunks)
    (hverify : verifyHunks cwd fs hunks = .ok changes)
    (hiterates : action.Iterates changes)
    (hlast : IsLastAt cwd hunks l pre hunk post)
    {entry : Path × ApplyPatchFileChange} (hentry : entry ∈ action.changes)
    (hl : l ∈ changeLocations cwd entry) :
    entry.1 = hunk.resolvePath cwd ∧ verifyHunk cwd fs hunk = .ok entry.2 := by
  obtain ⟨path, change⟩ := entry
  obtain ⟨pre', hunk', post', hkept, hchange⟩ :=
    (exists_isLast_of_mem cwd hverify hiterates).1 hentry
  have hpath : hunk'.resolvePath cwd = path := hkept.holds
  have htouch : l ∈ hunk'.locations cwd := by
    rwa [← changeLocations_of_verifyHunk cwd hcwd hchange, hpath]
  obtain ⟨between, hpre', hpost⟩ | ⟨between, hpre, hpost'⟩ :=
    List.append_eq_append_iff.1 (hlast.eq.symm.trans hkept.eq)
  · cases between with
    | nil =>
        cases hpost
        exact ⟨hpath.symm, hchange⟩
    | cons first rest =>
        cases hpost
        exact absurd htouch (hlast.notLater hunk' (by simp))
  · cases between with
    | nil =>
        cases hpost'
        exact ⟨hpath.symm, hchange⟩
    | cons first rest =>
        cases hpost'
        obtain ⟨later, hlater, heq⟩ := huntangled.alone hlast hpre htouch
        exact absurd (heq.trans hpath) (hkept.notLater later hlater)

/-- Untangled hunks leave the same texts either way. -/
theorem waysAgree_of_untangled {hunks : List Hunk} (hcwd : cwd.isAbsolute)
    (huntangled : Untangled cwd hunks) : WaysAgree cwd hunks := by
  intro fs changes action hverify hiterates affected affected' applied written
    happlied hwritten
  have hsteps := steps_of_applyHunksToFiles cwd happlied
  have hsteps' := steps_of_applyChanges cwd hwritten
  have hframe : ∀ hunk c c' l, HunkEffect cwd hunk c c' →
      l ∉ hunk.locations cwd →
      c' l = c l := by
    intro hunk c c' l heffect hl
    exact heffect.frame cwd hl
  have hframe' : ∀ entry c c' l, c' = changeEffect cwd c entry →
      l ∉ changeLocations cwd entry → c' l = c l := by
    rintro entry c _ l rfl hl
    exact changeEffect_frame cwd hl
  funext l
  by_cases htouched : ∃ hunk ∈ hunks, l ∈ hunk.locations cwd
  · obtain ⟨pre, hunk, post, hlast⟩ := exists_isLast htouched
    obtain ⟨change, hchange⟩ :=
      exists_value_of_fill
        ((verifyHunks_eq_fill cwd fs hunks).symm.trans hverify)
        hlast.mem
    have hentry : (hunk.resolvePath cwd, change) ∈ action.changes :=
      (exists_isLast_of_mem cwd hverify hiterates).2
        ⟨pre, hunk, post, ⟨hlast.eq, rfl, huntangled.kept hlast⟩, hchange⟩
    have hl : l ∈ changeLocations cwd (hunk.resolvePath cwd, change) := by
      rw [changeLocations_of_verifyHunk cwd hcwd hchange]
      exact hlast.holds
    obtain ⟨pre', entry, post', hlast'⟩ :=
      exists_isLast (p := fun entry => l ∈ changeLocations cwd entry) ⟨_,
        hentry, hl⟩
    obtain ⟨hpath, hverified⟩ :=
      eq_of_mem_changeLocations cwd hcwd huntangled hverify
        hiterates hlast hlast'.mem hlast'.holds
    obtain ⟨before, after, hpre, heffect, happlied⟩ :=
      hsteps.at_last hframe hlast
    obtain ⟨before', _, -, rfl, hwritten⟩ := hsteps'.at_last hframe' hlast'
    have hfresh : hunk.derivedAt cwd = some l →
        before (locate cwd hunk.path) = fs.contents (locate cwd hunk.path) := by
      intro hderived
      exact hpre.frame hframe (huntangled.fresh hlast hderived)
    rw [happlied, hwritten,
      ← changeEffect_of_verifyHunk cwd hcwd hverified heffect
      hlast.holds (huntangled.staysPut hlast) hfresh, ← hpath]
  · have hsame : applied.contents l = fs.contents l := by
      apply hsteps.frame hframe
      intro hunk hhunk hl
      exact htouched ⟨hunk, hhunk, hl⟩
    rw [hsame]
    apply hsteps'.frame hframe'
    intro entry hentry hl
    apply htouched
    obtain ⟨pre, hunk, post, hkept, hchange⟩ :=
      (exists_isLast_of_mem cwd hverify hiterates).1 hentry
    have hpath : hunk.resolvePath cwd = entry.1 := hkept.holds
    refine ⟨hunk, hkept.mem, ?_⟩
    rwa [← changeLocations_of_verifyHunk cwd hcwd hchange, hpath]

/-! ## Edits apart and edits of one file -/

/-- A working directory with two files. -/
def workFiles : FileSystem := fun l =>
  if l = [] ∨ l = ["work"] then some (.dir true)
  else if l = ["work", "a"] then some (.file "a\nb\n".toList true true)
  else if l = ["work", "b"] then some (.file "b\n".toList true true)
  else none

def replaceLine (name : String) (movePath : Option Path)
    (old new : String) : Hunk :=
  .updateFile (.relative [name]) movePath
    [{  changeContext := none
        oldLines := [old.toList]
        newLines := [new.toList]
        isEndOfFile := false }]

/-- A new file, an edit and a move. -/
def editApart : List Hunk :=
  [.addFile (.relative ["c"]) "c\n".toList, replaceLine "a" none "a" "x",
    replaceLine "b" (some (.relative ["d"])) "b" "y"]

/-- The changes of `editApart`, in another order. -/
def editApartAction : ApplyPatchAction where
  changes :=
    [(.absolute ["work", "b"],
      .update (some (.absolute ["work", "d"])) "y\n".toList),
      (.absolute ["work", "a"], .update none "x\nb\n".toList),
      (.absolute ["work", "c"], .add "c\n".toList)]
  patch := []
  cwd := .absolute ["work"]
  nodupKeys := by decide

/-- Two edits of the same file. -/
def editTwice : List Hunk :=
  [replaceLine "a" none "a" "x", replaceLine "a" none "b" "y"]

/-- The change of `editTwice`, which is that of the second edit. -/
def editTwiceAction : ApplyPatchAction where
  changes := [(.absolute ["work", "a"], .update none "a\ny\n".toList)]
  patch := []
  cwd := .absolute ["work"]
  nodupKeys := by decide

theorem iterates_toFinmap (action : ApplyPatchAction) :
    action.Iterates (action.changes.map
      fun entry => ⟨entry.1, entry.2⟩).toFinmap := by
  intro path change
  have hnodup : (action.changes.map
      fun entry =>
      (⟨entry.1, entry.2⟩ : (_ : Path) × ApplyPatchFileChange)).NodupKeys := by
    simpa [List.NodupKeys, List.keys, Function.comp_def] using action.nodupKeys
  rw [Finmap.dlookup_list_toFinmap, ← Option.mem_def,
    List.mem_dlookup_iff hnodup]
  simp

theorem waysAgree_editApart :
    (∃ changes,
      verifyHunks (.absolute ["work"]) workFiles editApart = .ok changes ∧
      editApartAction.Iterates changes) ∧
    (∃ affected applied,
      exec (applyHunksToFiles (.absolute ["work"]) editApart) workFiles =
        (.ok affected, applied)) ∧
    (∃ affected written,
      exec (applyChangesFromApplyPatch (.absolute ["work"]) editApartAction)
        workFiles =
        (.ok affected, written)) ∧
    WaysAgree (.absolute ["work"]) editApart :=
  ⟨⟨_, rfl, iterates_toFinmap _⟩, ⟨_, _, rfl⟩, ⟨_, _, rfl⟩,
    waysAgree_of_untangled (.absolute ["work"]) rfl
      (untangled_of_disjoint _ (by decide) (by decide))⟩

theorem not_waysAgree_editTwice :
    ¬∀ (cwd : Path) (hunks : List Hunk), cwd.isAbsolute →
      WaysAgree cwd hunks := by
  intro h
  have hsame := h (.absolute ["work"]) editTwice rfl workFiles _ editTwiceAction
    (by decide) (iterates_toFinmap _) _ _ _ _ rfl rfl
  exact absurd (congrFun hsame ["work", "a"]) (by decide)

end CodeRs.ApplyPatch

/-! ## The last update of a file

`apply_hunks_to_files` writes the new contents of an updated file and, where
the update moves the file, removes the source afterwards.  So the file of the
last hunk that touches it holds the new contents exactly if this hunk does not
move a file onto itself. -/

namespace CodeRs.ApplyPatch

open Program

variable {cwd path : Path} {movePath : Option Path}
    {chunks : List UpdateFileChunk}
  {pre post : List Hunk} {affected affected' : AffectedPaths}
  {fs fs' : FileSystem}

/-! ## One update -/

/-- Where an update leaves the new contents. -/
def updatedLoc (cwd path : Path) (movePath : Option Path) : Loc :=
  locate cwd (movePath.getD path)

/-- An update that succeeds has derived new contents, and leaves them at its
place unless this is the place that a move clears. -/
theorem contents_of_applyHunk
    (h : exec (applyHunk cwd affected (.updateFile path movePath chunks)) fs =
      (.ok affected', fs')) :
    ∃ contents, newContents cwd fs path chunks = .ok contents ∧
      fs'.contents (updatedLoc cwd path movePath) =
        if ∃ dest ∈ movePath, locate cwd dest = locate cwd path then none
        else some contents := by
  cases movePath with
  | none =>
      simp only [applyHunk, exec_bind_ok, exec_query_ok] at h
      obtain ⟨contents, _, ⟨hnew, rfl⟩, _, written, hwrite, hreturn⟩ := h
      cases hreturn
      refine ⟨contents, hnew, ?_⟩
      rw [contents_writeFile cwd hwrite, if_neg (by simp)]
      exact Function.update_self ..
  | some dest =>
      simp only [applyHunk, exec_bind_ok, exec_query_ok] at h
      obtain ⟨contents, _, ⟨hnew, rfl⟩, _, made, -, _, written, hwrite, _,
        removed, hremove,
        hreturn⟩ := h
      cases hreturn
      refine ⟨contents, hnew, ?_⟩
      rw [contents_removeFile cwd hremove, contents_writeFile cwd hwrite]
      by_cases hsame : locate cwd dest = locate cwd path
      · rw [if_pos ⟨dest, rfl, hsame⟩, updatedLoc, Option.getD_some, hsame]
        exact Function.update_self ..
      · rw [if_neg (by simpa using hsame), updatedLoc, Option.getD_some,
          Function.update_of_ne hsame]
        exact Function.update_self ..

/-! ## The last one -/

theorem exec_applyHunks_append {hunks : List Hunk}
    (h : exec (applyHunks cwd affected (pre ++ hunks)) fs =
      (.ok affected', fs')) :
    ∃ between mid, exec (applyHunks cwd affected pre) fs = (.ok between, mid) ∧
      exec (applyHunks cwd between hunks) mid = (.ok affected', fs') := by
  induction pre generalizing affected fs with
  | nil => exact ⟨affected, fs, rfl, h⟩
  | cons hunk rest ih =>
      rw [List.cons_append, applyHunks, exec_bind_ok] at h
      obtain ⟨next, mid, hhunk, hrest⟩ := h
      obtain ⟨between, last, hpre, hlast⟩ := ih hrest
      exact ⟨between, last, exec_bind_ok.2 ⟨next, mid, hhunk, hpre⟩, hlast⟩

/-- Hunks leave a file alone that none of them touches. -/
theorem frame_of_applyHunks {hunks : List Hunk}
    (h : exec (applyHunks cwd affected hunks) fs = (.ok affected', fs'))
    {l : Loc}
    (hl : ∀ hunk ∈ hunks, l ∉ hunk.locations cwd) : fs'.contents l =
    fs.contents l := by
  have hframe : ∀ (hunk : Hunk) (c c' : Contents) (l : Loc),
      HunkEffect cwd hunk c c' →
      l ∉ hunk.locations cwd → c' l = c l :=
    fun _ _ _ _ heffect hl => heffect.frame cwd hl
  exact (steps_of_applyHunks cwd h).frame hframe hl

/-- The file of an update holds what is derived from its chunks and the files
that the hunks before it leave. -/
def HoldsNewContents (cwd : Path) (fs : FileSystem)
    (pre : List Hunk) (path : Path)
    (movePath : Option Path) (chunks : List UpdateFileChunk)
    (fs' : FileSystem) : Prop :=
  ∃ between mid contents,
    exec (applyHunks cwd .empty pre) fs = (.ok between, mid) ∧
    newContents cwd mid path chunks = .ok contents ∧
    fs'.contents (updatedLoc cwd path movePath) = some contents

/-- After a patch that succeeds, the file of the last hunk that touches it, an
update, holds the new contents exactly if the update does not move the file
onto itself. -/
theorem holdsNewContents_iff
    (hrun : exec
      (applyHunksToFiles cwd (pre ++ .updateFile path movePath chunks :: post))
      fs =
      (.ok affected, fs'))
    (hlast : ∀ hunk ∈ post, updatedLoc cwd path movePath ∉ hunk.locations cwd) :
    HoldsNewContents cwd fs pre path movePath chunks fs' ↔
      ∀ dest ∈ movePath, locate cwd dest ≠ locate cwd path := by
  rw [applyHunksToFiles, if_neg (by simp)] at hrun
  obtain ⟨between, mid, hpre, hrest⟩ := exec_applyHunks_append hrun
  rw [applyHunks, exec_bind_ok] at hrest
  obtain ⟨next, updated, hupdate, hpost⟩ := hrest
  obtain ⟨contents, hnew, hcontents⟩ := contents_of_applyHunk hupdate
  have hframe : fs'.contents (updatedLoc cwd path movePath) =
      updated.contents (updatedLoc cwd path movePath) :=
    frame_of_applyHunks hpost hlast
  rw [hcontents] at hframe
  constructor
  · rintro ⟨_, _, _, _, _, hholds⟩ dest hdest hsame
    rw [hholds, if_pos ⟨dest, hdest, hsame⟩] at hframe
    cases hframe
  · intro hmove
    refine ⟨between, mid, contents, hpre, hnew, ?_⟩
    rw [hframe, if_neg]
    rintro ⟨dest, hdest, hsame⟩
    exact hmove dest hdest hsame

/-- An edit, a move and a new file. -/
theorem holdsNewContents_moved :
    ∃ affected fs',
      exec
        (applyHunksToFiles (.absolute ["work"])
          ([replaceLine "a" none "a" "x"] ++
        replaceLine "b" (some (.relative ["d"])) "b" "y" ::
          [.addFile (.relative ["c"]) "c\n".toList])) workFiles =
          (.ok affected, fs') ∧
      HoldsNewContents (.absolute ["work"]) workFiles
        [replaceLine "a" none "a" "x"]
        (.relative ["b"]) (some (.relative ["d"]))
        [⟨none, ["b".toList], ["y".toList], false⟩]
        fs' := by
  have hlast : ∀ hunk ∈ [Hunk.addFile (.relative ["c"]) "c\n".toList],
      updatedLoc (.absolute ["work"]) (.relative ["b"])
        (some (.relative ["d"])) ∉
        hunk.locations (.absolute ["work"]) := by
    decide
  exact ⟨_, _, rfl, (holdsNewContents_iff rfl hlast).2 (by decide)⟩

/-- A file that is moved onto itself is gone. -/
theorem not_holdsNewContents_ontoItself :
    ∃ affected fs',
      exec (applyHunksToFiles (.absolute ["work"])
        [replaceLine "b" (some (.relative ["b"])) "b" "y"]) workFiles =
        (.ok affected, fs') ∧
      fs' ["work", "b"] = none ∧
      ¬ HoldsNewContents (.absolute ["work"]) workFiles [] (.relative ["b"])
        (some (.relative ["b"]))
        [⟨none, ["b".toList], ["y".toList], false⟩] fs' := by
  refine ⟨_, _, rfl, rfl, ?_⟩
  rintro ⟨_, _, contents, _, _, hholds⟩
  exact absurd hholds nofun

end CodeRs.ApplyPatch
