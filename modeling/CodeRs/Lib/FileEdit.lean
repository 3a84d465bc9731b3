import CodeRs.Lib.Serial
import CodeRs.Lib.FileTree

/-!
# Edits of files

Writing, removing and moving files, where the directories for a file may be
made first: when such an edit is possible, what it leaves, and when two edits
get in each other's way.
-/

namespace CodeRs

/-- An edit of one file.  A file that is moved gets a new text. -/
inductive FileEdit where
  | write (dirs : Option Loc) (target : Loc) (text : Text)
  | remove (source : Loc)
  | move (dirs : Option Loc) (source target : Loc) (text : Text)

namespace FileEdit

open FileSystem

/-- The file that is edited. -/
def source : FileEdit → Loc
  | write _ target _ => target
  | remove source => source
  | move _ source _ _ => source

/-- The file that is there afterwards. -/
def leaves : FileEdit → Option (Loc × Text)
  | write _ target text => some (target, text)
  | remove _ => none
  | move _ _ target text => some (target, text)

/-- The file that is no longer there afterwards. -/
def drops : FileEdit → Option Loc
  | write .. => none
  | remove source => some source
  | move _ source target _ => if source = target then none else some source

/-- The directory that is made for the file. -/
def dirs : FileEdit → Option Loc
  | write dirs .. => dirs
  | remove _ => none
  | move dirs .. => dirs

/-- The edit concerns the file at a location. -/
def Touches (e : FileEdit) (l : Loc) : Prop :=
  e.source = l ∨ ∃ text, e.leaves = some (l, text)

/-- The edit can be done. -/
def Possible (fs : FileSystem) : FileEdit → Prop
  | write dirs target _ =>
  fs.CanMakeDirs dirs ∧ (fs.withDirs dirs).Writable target
  | remove source => fs.IsFile source ∧ fs.HasWritableParent source
  | move dirs source target _ =>
      fs.CanMakeDirs dirs ∧
        (fs.IsFile source ∧ (fs.permissions source).2 = true) ∧
        (∀ writable, fs.withDirs dirs target ≠ some (.dir writable)) ∧
        (fs.withDirs dirs).HasWritableParent source ∧
        (fs.withDirs dirs).HasWritableParent target

/-- What the edit leaves. -/
def result : FileEdit → FileSystem → FileSystem
  | write dirs target text, fs =>
      Function.update (fs.withDirs dirs) target (some (fs.fileLike target text))
  | remove source, fs => Function.update fs source none
  | move dirs source target text, fs =>
      Function.update (Function.update (fs.withDirs dirs) source none) target
        (some (fs.fileLike source text))

instance (fs : FileSystem) : DecidablePred (Possible fs)
  | write dirs target _ =>
      inferInstanceAs (Decidable (fs.CanMakeDirs dirs ∧
        (fs.withDirs dirs).Writable target))
  | remove source =>
      inferInstanceAs (Decidable (fs.IsFile source ∧
        fs.HasWritableParent source))
  | move dirs source target _ =>
      inferInstanceAs (Decidable (fs.CanMakeDirs dirs ∧
        (fs.IsFile source ∧ (fs.permissions source).2 = true) ∧
        (∀ writable, fs.withDirs dirs target ≠ some (.dir writable)) ∧
        (fs.withDirs dirs).HasWritableParent source ∧
        (fs.withDirs dirs).HasWritableParent target))

instance (e : FileEdit) (l : Loc) : Decidable (e.Touches l) :=
  decidable_of_iff (e.source = l ∨ e.leaves.map Prod.fst = some l) <| by
    rw [Touches, Option.map_eq_some_iff]
    simp

/-! ## One edit -/

variable {fs : FileSystem} {e : FileEdit} {l m : Loc} {text : Text}

theorem result_of_leaves (h : e.leaves = some (m, text)) :
    e.result fs m = some (fs.fileLike e.source text) := by
  cases e with
  | write dirs target text' =>
      cases h
      exact Function.update_self ..
  | remove source => cases h
  | move dirs source target text' =>
      cases h
      exact Function.update_self ..

theorem source_of_drops (h : e.drops = some m) : e.source = m := by
  cases e with
  | write dirs target text' => cases h
  | remove source => exact Option.some.inj h
  | move dirs source target text' =>
      rw [drops] at h
      split at h
      · cases h
      · exact Option.some.inj h

theorem result_of_drops (h : e.drops = some m) : e.result fs m = none := by
  cases e with
  | write dirs target text' => cases h
  | remove source =>
      cases h
      exact Function.update_self ..
  | move dirs source target text' =>
      rw [drops] at h
      split at h
      · cases h
      · rename_i hne
        cases h
        rw [result, Function.update_of_ne hne, Function.update_self]

/-- Elsewhere the edit only makes directories. -/
theorem result_of_not_touched (hleaves : ∀ text, e.leaves ≠ some (m, text))
    (hdrops : e.drops ≠ some m) : e.result fs m = fs.withDirs e.dirs m := by
  cases e with
  | write dirs target text' =>
      apply Function.update_of_ne
      rintro rfl
      exact hleaves text' rfl
  | remove source =>
      rw [result, dirs, withDirs_none]
      apply Function.update_of_ne
      rintro rfl
      exact hdrops rfl
  | move dirs source target text' =>
      have htarget : m ≠ target := by
        rintro rfl
        exact hleaves text' rfl
      have hsource : m ≠ source := by
        rintro rfl
        exact hdrops (if_neg htarget)
      rw [result, Function.update_of_ne htarget, Function.update_of_ne hsource]
      rfl

theorem Possible.canMakeDirs (h : e.Possible fs) : fs.CanMakeDirs e.dirs := by
  cases e with
  | write dirs target text' => exact h.1
  | remove source => exact fun m hm => absurd hm List.not_mem_nil
  | move dirs source target text' => exact h.1

theorem Possible.isFile_of_drops (h : e.Possible fs)
    (hdrops : e.drops = some m) :
    fs.IsFile m := by
  rw [← source_of_drops hdrops]
  cases e with
  | write dirs target text' => cases hdrops
  | remove source => exact h.1
  | move dirs source target text' => exact h.2.1.1

/-- A file is left where there is no directory, old or new. -/
theorem Possible.ne_dir_of_leaves (h : e.Possible fs)
    (hleaves : e.leaves = some (m, text))
    (writable : Bool) : fs.withDirs e.dirs m ≠ some (.dir writable) := by
  cases e with
  | write dirs target text' =>
      cases hleaves
      intro hdir
      obtain ⟨-, -, hfile | ⟨hnone, -⟩⟩ := h
      · exact not_isFile_of_dir hdir hfile
      · cases hnone.symm.trans hdir
  | remove source => cases hleaves
  | move dirs source target text' =>
      cases hleaves
      exact h.2.2.1 writable

/-- The file that is left can be written again. -/
theorem Possible.permissions_of_leaves (h : e.Possible fs)
    (hleaves : e.leaves = some (m, text)) :
    (fs.permissions e.source).2 = true := by
  cases e with
  | write dirs target text' =>
      have hwritable := h.2.1
      rwa [permissions_withDirs] at hwritable
  | remove source => cases hleaves
  | move dirs source target text' => exact h.2.1.2

/-- A directory stays, an old one or a new one. -/
theorem Possible.result_of_dir (h : e.Possible fs) {writable : Bool}
    (hdir : fs.withDirs e.dirs m = some (.dir writable)) :
    e.result fs m = some (.dir writable) := by
  rw [result_of_not_touched, hdir]
  · intro text hleaves
    exact h.ne_dir_of_leaves hleaves writable hdir
  · intro hdrops
    exact not_isFile_of_dir hdir (isFile_withDirs.2 (h.isFile_of_drops hdrops))

/-- A file that the edit does not concern stays as it is. -/
theorem result_of_isFile (htouches : ¬e.Touches m) (hfile : fs.IsFile m) :
    e.result fs m = fs m := by
  rw [result_of_not_touched, withDirs_of_ne_none hfile.ne_none]
  · intro text hleaves
    exact htouches (.inr ⟨text, hleaves⟩)
  · intro hdrops
    exact htouches (.inl (source_of_drops hdrops))

theorem permissions_result_of_leaves (hleaves : e.leaves = some (m, text)) :
    (e.result fs).permissions m = fs.permissions e.source := by
  simp only [permissions, result_of_leaves hleaves, fileLike]

/-- Files stay in directories. -/
theorem Possible.isTree_result (h : e.Possible fs) (htree : fs.IsTree) :
    (e.result fs).IsTree := by
  have hdirs := isTree_withDirs htree h.canMakeDirs
  constructor
  · obtain ⟨writable, hroot⟩ := hdirs.root
    exact ⟨writable, h.result_of_dir hroot⟩
  · intro m hm hne
    suffices hparent :
        ∃ writable, fs.withDirs e.dirs m.dropLast = some (.dir writable) by
      obtain ⟨writable, hdir⟩ := hparent
      exact ⟨writable, h.result_of_dir hdir⟩
    by_cases hleaves : ∃ text, e.leaves = some (m, text)
    · obtain ⟨text, hleaves⟩ := hleaves
      cases e with
      | write dirs target text' =>
          cases hleaves
          obtain ⟨-, -, hfile | ⟨-, hparent⟩⟩ := h
          · exact hdirs.parent m hfile.ne_none hne
          · exact ⟨true, hparent⟩
      | remove source => cases hleaves
      | move dirs source target text' =>
          cases hleaves
          exact ⟨true, h.2.2.2.2⟩
    · have hdrops : e.drops ≠ some m :=
        fun hdrops => hm (result_of_drops hdrops)
      rw [result_of_not_touched (fun text htext => hleaves ⟨text,
        htext⟩) hdrops] at hm
      exact hdirs.parent m hm hne

/-! ## Two edits -/

/-- `a` takes no file away that `b` is about, and leaves none where `b` makes a
directory. -/
structure Spares (a b : FileEdit) : Prop where
  drops : ∀ {l}, a.drops = some l → ¬b.Touches l
  leaves : ∀ {l text}, a.leaves = some (l, text) → l ∉ b.dirs.elim [] List.inits

/-- What two edits leave in one place is the same. -/
structure Agree (fs : FileSystem) (a b : FileEdit) : Prop where
  text : ∀ {l text text'}, a.leaves = some (l, text) →
    b.leaves = some (l, text') →
    text = text'
  permissions : ∀ {l text text'}, a.leaves = some (l, text) →
    b.leaves = some (l, text') →
    a.source ≠ l → b.source ≠ l →
    fs.permissions a.source = fs.permissions b.source

/-- Two edits do not get in each other's way. -/
structure Compatible (fs : FileSystem) (a b : FileEdit) : Prop where
  spares : a.Spares b
  spared : b.Spares a
  agree : Agree fs a b

variable {a b c : FileEdit}

instance (a b : FileEdit) : Decidable (a.Spares b) :=
  decidable_of_iff
    ((∀ l ∈ a.drops.toList, ¬b.Touches l) ∧
      ∀ left ∈ a.leaves.toList, left.1 ∉ b.dirs.elim [] List.inits) <| by
    constructor
    · rintro ⟨hdrops, hleaves⟩
      constructor
      · intro l h
        exact hdrops l (Option.mem_toList.2 h)
      · intro l text h
        exact hleaves (l, text) (Option.mem_toList.2 h)
    · rintro ⟨hdrops, hleaves⟩
      constructor
      · intro l h
        exact hdrops (Option.mem_toList.1 h)
      · rintro ⟨l, text⟩ h
        exact hleaves (Option.mem_toList.1 h)

instance (fs : FileSystem) (a b : FileEdit) : Decidable (Agree fs a b) :=
  decidable_of_iff
    (∀ left ∈ a.leaves.toList, ∀ left' ∈ b.leaves.toList, left.1 = left'.1 →
      left.2 = left'.2 ∧ (a.source ≠ left.1 → b.source ≠ left.1 →
        fs.permissions a.source = fs.permissions b.source)) <| by
    constructor
    · intro h
      constructor
      · intro l text text' ha hb
        exact (h _ (Option.mem_toList.2 ha) _ (Option.mem_toList.2 hb) rfl).1
      · intro l text text' ha hb
        exact (h _ (Option.mem_toList.2 ha) _ (Option.mem_toList.2 hb) rfl).2
    · rintro ⟨htext, hpermissions⟩ ⟨l, text⟩ ha ⟨l', text'⟩ hb heq
      cases heq
      exact ⟨htext (Option.mem_toList.1 ha) (Option.mem_toList.1 hb),
        hpermissions (Option.mem_toList.1 ha) (Option.mem_toList.1 hb)⟩

instance (fs : FileSystem) (a b : FileEdit) : Decidable (Compatible fs a b) :=
  decidable_of_iff (a.Spares b ∧ b.Spares a ∧ Agree fs a b)
    ⟨fun h => ⟨h.1, h.2.1, h.2.2⟩, fun h => ⟨h.spares, h.spared, h.agree⟩⟩

theorem Agree.symm (h : Agree fs a b) : Agree fs b a :=
  ⟨fun hb ha => (h.text ha hb).symm,
    fun hb ha hsource hsource' => (h.permissions ha hb hsource' hsource).symm⟩

theorem Compatible.symm (h : Compatible fs a b) : Compatible fs b a :=
  ⟨h.spared, h.spares, h.agree.symm⟩

/-- What is missing after an edit was missing before it, or is the file it
drops. -/
theorem eq_none_of_result (h : e.result fs m = none)
    (hdrops : e.drops ≠ some m) :
    fs m = none ∧ m ∉ e.dirs.elim [] List.inits := by
  have hleaves : ∀ text, e.leaves ≠ some (m, text) := by
    intro text hleaves
    rw [result_of_leaves hleaves] at h
    cases h
  rwa [result_of_not_touched hleaves hdrops, withDirs_eq_none] at h

/-- At a file the other edit is about, an edit leaves a file or changes nothing
but directories. -/
theorem Spares.result_of_touches (fs : FileSystem) (h : a.Spares b)
    (htouches : b.Touches l) :
    (∃ text, a.leaves = some (l, text)) ∨
      a.result fs l = fs.withDirs a.dirs l := by
  by_cases hleaves : ∃ text, a.leaves = some (l, text)
  · exact .inl hleaves
  · right
    apply result_of_not_touched
    · exact fun text htext => hleaves ⟨text, htext⟩
    · exact fun hdrops => h.drops hdrops htouches

/-- The directories of the other edit can still be made. -/
theorem Possible.canMakeDirs_result (ha : a.Possible fs) (hspares : a.Spares b)
    (hb : fs.CanMakeDirs b.dirs) : (a.result fs).CanMakeDirs b.dirs := by
  have hplain : ∀ {m : Loc}, m ∈ b.dirs.elim [] List.inits → a.drops ≠ some m ∧
      a.result fs m = fs.withDirs a.dirs m := by
    intro m hm
    have hdrops : a.drops ≠ some m := fun hdrops =>
      (hb m hm).1 (ha.isFile_of_drops hdrops)
    refine ⟨hdrops, result_of_not_touched ?_ hdrops⟩
    exact fun text hleaves => hspares.leaves hleaves hm
  intro m hm
  constructor
  · intro hfile
    apply (hb m hm).1
    rw [← isFile_withDirs]
    exact IsFile.congr (hplain hm).2.symm hfile
  · intro hnone hparent
    have hm' := dropLast_mem_dirs hm
    rw [(hplain hm').2] at hparent
    apply ha.result_of_dir
    by_cases hmissing : fs m.dropLast = none
    · refine if_pos ⟨?_, hmissing⟩
      by_contra hnot
      exact hparent (withDirs_eq_none.2 ⟨hmissing, hnot⟩)
    · rw [withDirs_of_ne_none hmissing]
      exact (hb m hm).2 (eq_none_of_result hnone (hplain hm).1).1 hmissing

/-- The directories of the other edit are still there once they are made. -/
theorem Possible.withDirs_result_of_dir (ha : a.Possible fs)
    (hspares : a.Spares b)
    (hdir : fs.withDirs b.dirs m = some (.dir true)) :
    (a.result fs).withDirs b.dirs m = some (.dir true) := by
  by_cases hnone : fs m = none
  · have hmem : m ∈ b.dirs.elim [] List.inits := by
      by_contra hmem
      rw [withDirs_eq_none.2 ⟨hnone, hmem⟩] at hdir
      cases hdir
    have hresult : a.result fs m = fs.withDirs a.dirs m := by
      apply result_of_not_touched
      · exact fun text hleaves => hspares.leaves hleaves hmem
      · exact fun hdrops => (ha.isFile_of_drops hdrops).ne_none hnone
    by_cases hmade : m ∈ a.dirs.elim [] List.inits
    · have hresult' : a.result fs m = some (.dir true) :=
        hresult.trans (if_pos ⟨hmade, hnone⟩)
      rw [withDirs_of_ne_none (by simp [hresult']), hresult']
    · exact if_pos ⟨hmem, hresult.trans (withDirs_eq_none.2 ⟨hnone, hmade⟩)⟩
  · rw [withDirs_of_ne_none hnone] at hdir
    have hresult : a.result fs m = some (.dir true) :=
      ha.result_of_dir (by rw [withDirs_of_ne_none hnone, hdir])
    rw [withDirs_of_ne_none (by simp [hresult]), hresult]

/-- A file to write to stays one: it is as before, or the other edit left it. -/
theorem Possible.file_result (ha : a.Possible fs) (hspares : a.Spares b)
    (htouches : b.Touches l) (hfile : fs.IsFile l)
    (hwritable : (fs.permissions l).2 = true) :
    (a.result fs).IsFile l ∧ ((a.result fs).permissions l).2 = true := by
  obtain ⟨text, hleaves⟩ | hsame := hspares.result_of_touches fs htouches
  · refine ⟨⟨_, _, _, result_of_leaves hleaves⟩, ?_⟩
    rw [permissions_result_of_leaves hleaves]
    exact ha.permissions_of_leaves hleaves
  · rw [withDirs_of_ne_none hfile.ne_none] at hsame
    exact ⟨IsFile.congr hsame hfile, by rwa [permissions_congr hsame]⟩

/-- A place without a directory stays one. -/
theorem Compatible.not_dir_result (h : Compatible fs a b)
    (hleaves : b.leaves = some (l, text))
    (hdir : ∀ writable, fs.withDirs b.dirs l ≠ some (.dir writable))
    (writable : Bool) :
    (a.result fs).withDirs b.dirs l ≠ some (.dir writable) := by
  intro hdir'
  obtain ⟨text', hleaves'⟩ | hsame := h.spares.result_of_touches fs
    (.inr ⟨text, hleaves⟩)
  · have hnode : a.result fs l = some (fs.fileLike a.source text') :=
      result_of_leaves hleaves'
    rw [withDirs_of_ne_none (by simp [hnode]), hnode] at hdir'
    cases hdir'
  · apply hdir writable
    by_cases hnone : fs l = none
    · rw [withDirs_eq_none.2 ⟨hnone, h.spared.leaves hleaves⟩] at hsame
      simpa only [withDirs, hsame, hnone] using hdir'
    · rw [withDirs_of_ne_none hnone] at hsame
      simpa only [withDirs, hsame] using hdir'

/-- An edit leaves compatible ones possible. -/
theorem Compatible.possible (h : Compatible fs a b) (ha : a.Possible fs)
    (hb : b.Possible fs) : b.Possible (a.result fs) := by
  have hdirs := ha.canMakeDirs_result h.spares hb.canMakeDirs
  cases b with
  | write dirs target text =>
      have htouches : (write dirs target text).Touches target := .inl rfl
      refine ⟨hdirs, ?_⟩
      obtain ⟨-, hwritable, hfile | ⟨hnone, hparent⟩⟩ := hb
      · rw [permissions_withDirs] at hwritable
        obtain ⟨hfile, hwritable⟩ :=
          ha.file_result h.spares htouches (isFile_withDirs.1 hfile) hwritable
        exact ⟨by rwa [permissions_withDirs], .inl (isFile_withDirs.2 hfile)⟩
      · obtain ⟨text', hleaves⟩ | hsame :=
          h.spares.result_of_touches fs htouches
        · refine ⟨?_,
            .inl (isFile_withDirs.2 ⟨_, _, _, result_of_leaves hleaves⟩)⟩
          rw [permissions_withDirs, permissions_result_of_leaves hleaves]
          exact ha.permissions_of_leaves hleaves
        · obtain ⟨hmissing, hnotMade⟩ := withDirs_eq_none.1 hnone
          rw [withDirs_eq_none.2 ⟨hmissing, h.spared.leaves rfl⟩] at hsame
          have hnone' : (a.result fs).withDirs dirs target = none :=
            withDirs_eq_none.2 ⟨hsame, hnotMade⟩
          refine ⟨?_, .inr ⟨hnone', ha.withDirs_result_of_dir h.spares hparent⟩⟩
          simp only [permissions, hnone']
  | remove source =>
      have hsame : a.result fs source = fs source :=
        result_of_isFile (h.spared.drops rfl) hb.1
      have hparent : fs source.dropLast = some (.dir true) := hb.2
      refine ⟨IsFile.congr hsame hb.1, ?_⟩
      apply ha.result_of_dir
      rw [withDirs_of_ne_none (by simp [hparent]), hparent]
  | move dirs source target text =>
      obtain ⟨-, ⟨hfile, hwritable⟩, hdir, hparent, hparent'⟩ := hb
      refine ⟨hdirs, ha.file_result h.spares (.inl rfl) hfile hwritable,
        h.not_dir_result rfl hdir, ?_, ?_⟩
      · exact ha.withDirs_result_of_dir h.spares hparent
      · exact ha.withDirs_result_of_dir h.spares hparent'

/-! ## Either order -/

/-- An edit that leaves its file elsewhere, or leaves none, drops it. -/
theorem drops_source (h : ∀ text, e.leaves ≠ some (e.source, text)) :
    e.drops = some e.source := by
  cases e with
  | write dirs target text => exact absurd rfl (h text)
  | remove source => rfl
  | move dirs source target text =>
      apply if_neg
      rintro rfl
      exact h text rfl

theorem Possible.isFile_source (h : e.Possible fs)
    (hleaves : e.leaves = some (l, text))
    (hne : e.source ≠ l) : fs.IsFile e.source := by
  apply h.isFile_of_drops
  apply drops_source
  intro text' hleaves'
  rw [hleaves] at hleaves'
  cases hleaves'
  exact hne rfl

/-- Unless an edit leaves a file there, the permissions of the file that the
other edit starts from stay. -/
theorem Spares.permissions_source (h : a.Spares b)
    (hleaves : ∀ text, a.leaves ≠ some (b.source, text)) :
    (a.result fs).permissions b.source = fs.permissions b.source := by
  obtain ⟨text, htext⟩ | hsame := h.result_of_touches fs (.inl rfl)
  · exact absurd htext (hleaves text)
  · exact (permissions_congr hsame).trans (permissions_withDirs a.dirs)

/-- What both edits leave has the permissions of the same file in either
order. -/
theorem Compatible.permissions_comm (h : Compatible fs a b) {text' : Text}
    (ha : a.leaves = some (l, text)) (hb : b.leaves = some (l, text')) :
    (a.result fs).permissions b.source =
      (b.result fs).permissions a.source := by
  have hmoved : ∀ {e e' : FileEdit} {text text' : Text},
      e.leaves = some (l, text) →
      e'.leaves = some (l, text') → e.Spares e' → e'.source ≠ l →
      (e.result fs).permissions e'.source = fs.permissions e'.source := by
    intro e e' text text' he he' hspares hne
    apply hspares.permissions_source
    intro text'' hleaves
    rw [he] at hleaves
    cases hleaves
    exact hne rfl
  by_cases hsourceB : b.source = l <;> by_cases hsourceA : a.source = l
  · rw [hsourceB, hsourceA, permissions_result_of_leaves ha,
      permissions_result_of_leaves hb,
      hsourceA, hsourceB]
  · rw [hmoved hb ha h.spared hsourceA, hsourceB,
      permissions_result_of_leaves ha]
  · rw [hmoved ha hb h.spares hsourceB, hsourceA,
      permissions_result_of_leaves hb]
  · rw [hmoved ha hb h.spares hsourceB, hmoved hb ha h.spared hsourceA]
    exact (h.agree.permissions ha hb hsourceA hsourceB).symm

/-- A file that only one of the edits leaves is the same in either order. -/
theorem Compatible.result_of_left (h : Compatible fs a b)
    (ha : a.leaves = some (l, text))
    (hb : ∀ text', b.leaves ≠ some (l, text')) :
    b.result (a.result fs) l = a.result (b.result fs) l := by
  have hnode : a.result fs l = some (fs.fileLike a.source text) :=
    result_of_leaves ha
  have hdrops : b.drops ≠ some l :=
    fun hdrops => h.spared.drops hdrops (.inr ⟨text, ha⟩)
  rw [result_of_not_touched hb hdrops,
    withDirs_of_ne_none (by simp [hnode]), hnode,
    result_of_leaves ha]
  have hsource : ∀ text', b.leaves ≠ some (a.source, text') := by
    intro text' hleaves
    by_cases hsame : a.source = l
    · exact hb text' (hsame ▸ hleaves)
    · have hdropped : a.drops = some a.source := by
        apply drops_source
        intro text'' ha'
        rw [ha] at ha'
        cases ha'
        exact hsame rfl
      exact h.spares.drops hdropped (.inr ⟨text', hleaves⟩)
  simp only [fileLike, h.spared.permissions_source hsource]

/-- The order of two compatible edits does not matter. -/
theorem Compatible.comm (h : Compatible fs a b) (ha : a.Possible fs)
    (hb : b.Possible fs) :
    b.result (a.result fs) = a.result (b.result fs) := by
  have hmissing : ∀ {e e' : FileEdit}, e.Possible fs →
      e'.Possible fs → e.Spares e' →
      ∀ {m : Loc}, e.drops = some m → (∀ text, e'.leaves ≠ some (m, text)) →
      e'.result (e.result fs) m = none := by
    intro e e' he he' hspares m hdrops hleaves
    by_cases hdrops' : e'.drops = some m
    · exact result_of_drops hdrops'
    · rw [result_of_not_touched hleaves hdrops', withDirs_eq_none]
      refine ⟨result_of_drops hdrops, fun hm => ?_⟩
      exact (he'.canMakeDirs m hm).1 (he.isFile_of_drops hdrops)
  funext m
  by_cases hleavesA : ∃ text, a.leaves = some (m, text)
  · obtain ⟨text, hleavesA⟩ := hleavesA
    by_cases hleavesB : ∃ text, b.leaves = some (m, text)
    · obtain ⟨text', hleavesB⟩ := hleavesB
      rw [result_of_leaves hleavesA, result_of_leaves hleavesB]
      simp only [fileLike, h.permissions_comm hleavesA hleavesB,
        h.agree.text hleavesA hleavesB]
    · exact h.result_of_left hleavesA fun text' hleaves =>
        hleavesB ⟨text', hleaves⟩
  · have hnotA : ∀ text, a.leaves ≠ some (m, text) := fun text hleaves =>
      hleavesA ⟨text, hleaves⟩
    by_cases hleavesB : ∃ text, b.leaves = some (m, text)
    · obtain ⟨text', hleavesB⟩ := hleavesB
      exact (h.symm.result_of_left hleavesB hnotA).symm
    · have hnotB : ∀ text, b.leaves ≠ some (m, text) := fun text hleaves =>
        hleavesB ⟨text, hleaves⟩
      by_cases hdropsA : a.drops = some m
      · rw [hmissing ha hb h.spares hdropsA hnotB, result_of_drops hdropsA]
      · by_cases hdropsB : b.drops = some m
        · rw [result_of_drops hdropsB, hmissing hb ha h.spared hdropsB hnotA]
        · rw [result_of_not_touched hnotB hdropsB,
            result_of_not_touched hnotA hdropsA]
          simp only [withDirs, result_of_not_touched hnotA hdropsA,
            result_of_not_touched hnotB hdropsB]
          by_cases hmadeA : m ∈ a.dirs.elim [] List.inits <;>
            by_cases hmadeB : m ∈ b.dirs.elim [] List.inits <;>
            by_cases hnone : fs m = none <;> simp [hmadeA, hmadeB, hnone]

/-- Compatible edits stay compatible while others are done. -/
theorem Compatible.after (hab : Compatible fs a b) (hac : Compatible fs a c)
    (hbc : Compatible fs b c) (hb : b.Possible fs) (hc : c.Possible fs) :
    Compatible (a.result fs) b c := by
  have hkept : ∀ {e : FileEdit} {l : Loc} {text : Text}, e.Possible fs →
      e.leaves = some (l, text) → e.source ≠ l → e.Spares a →
      (a.result fs).permissions e.source = fs.permissions e.source := by
    intro e l text he hleaves hne hspares
    apply permissions_congr
    apply result_of_isFile
    · apply hspares.drops
      apply drops_source
      intro text' hleaves'
      rw [hleaves] at hleaves'
      cases hleaves'
      exact hne rfl
    · exact he.isFile_source hleaves hne
  refine ⟨hbc.spares, hbc.spared, ⟨hbc.agree.text, ?_⟩⟩
  intro l text text' hleaves hleaves' hne hne'
  rw [hkept hb hleaves hne hab.spared, hkept hc hleaves' hne' hac.spared]
  exact hbc.agree.permissions hleaves hleaves' hne hne'

open Commuting

theorem runAll_of_not_touched {edits : List FileEdit} (hfile : fs.IsFile m)
    (h : ∀ e ∈ edits, ¬e.Touches m) : runAll result fs edits m = fs m := by
  induction edits generalizing fs with
  | nil => rfl
  | cons e rest ih =>
      rw [List.forall_mem_cons] at h
      have hsame : e.result fs m = fs m := result_of_isFile h.1 hfile
      exact (ih (IsFile.congr hsame hfile) h.2).trans hsame

/-- Edits that can be done in every order, always with the same files at the
end. -/
structure Interchangeable {α : Type} (edit : α → FileEdit) (fs fs' : FileSystem)
    (items : List α) : Prop where
  inTurn : ∀ order : List α, order.Perm items →
    InTurn Possible result fs (order.map edit)
  same : ∀ order : List α, order.Perm items →
    runAll result fs (order.map edit) = fs'

namespace Interchangeable

variable {α : Type} {edit : α → FileEdit} {fs' : FileSystem}
    {items rest : List α} {x y : α}

theorem last_two (h : Interchangeable edit fs fs' items)
    (hperm : (rest ++ [x, y]).Perm items) :
    ∃ s, (edit x).Possible s ∧ (edit y).Possible ((edit x).result s) ∧
      (edit y).result ((edit x).result s) = fs' := by
  have hturn := h.inTurn _ hperm
  have hsame := h.same _ hperm
  rw [List.map_append, inTurn_append] at hturn
  rw [List.map_append, runAll_append] at hsame
  exact ⟨_, hturn.2.1, hturn.2.2.1, hsame⟩

theorem possible (h : Interchangeable edit fs fs' items) (hx : x ∈ items) :
    (edit x).Possible fs := by
  obtain ⟨before, after, rfl⟩ := List.append_of_mem hx
  exact (h.inTurn _ List.perm_middle.symm).1

theorem spares (h : Interchangeable edit fs fs' items)
    (hperm : (rest ++ [x, y]).Perm items) :
    (edit x).Spares (edit y) := by
  have hswap : (rest ++ [y, x]).Perm items :=
    ((List.Perm.swap x y []).append_left rest).trans hperm
  constructor
  · intro l hdrops htouches
    obtain ⟨s, -, -, hend⟩ := h.last_two hswap
    obtain ⟨s', -, hpossible, hend'⟩ := h.last_two hperm
    have hnone : fs' l = none := by rw [← hend, result_of_drops hdrops]
    have hgone : (edit x).result s' l = none := result_of_drops hdrops
    by_cases hleaves : ∃ text, (edit y).leaves = some (l, text)
    · obtain ⟨text, hleaves⟩ := hleaves
      rw [← hend', result_of_leaves hleaves] at hnone
      cases hnone
    · obtain hsource | hleft := htouches
      · have hdrops' : (edit y).drops = some l := by
          subst hsource
          exact drops_source fun text htext => hleaves ⟨text, htext⟩
        exact (hpossible.isFile_of_drops hdrops').ne_none hgone
      · exact hleaves hleft
  · intro l text hleaves hmem
    obtain ⟨s, hfirst, hsecond, -⟩ := h.last_two hswap
    have hdir : ∃ writable,
        s.withDirs (edit y).dirs l = some (.dir writable) := by
      by_cases hnone : s l = none
      · exact ⟨true, if_pos ⟨hmem, hnone⟩⟩
      · rw [withDirs_of_ne_none hnone]
        cases hnode : s l with
        | none => exact absurd hnode hnone
        | some node =>
            cases node with
            | dir writable => exact ⟨writable, rfl⟩
            | file text' readable writable =>
                exact absurd ⟨text', readable, writable, hnode⟩
                  (hfirst.canMakeDirs l hmem).1
    obtain ⟨writable, hdir⟩ := hdir
    have hkept := hfirst.result_of_dir hdir
    apply hsecond.ne_dir_of_leaves hleaves writable
    rw [withDirs_of_ne_none (by simp [hkept]), hkept]

/-- A moved file is as at first when its turn comes. -/
theorem permissions_source (h : Interchangeable edit fs fs' items)
    (hperm : (rest ++ [x, y]).Perm items) {l : Loc} {text : Text}
    (hleaves : (edit y).leaves = some (l, text))
    (hsource : (edit y).source ≠ l) :
    ∃ text', fs' l = some (fs.fileLike (edit y).source text') := by
  have hdrops : (edit y).drops = some (edit y).source := by
    apply drops_source
    intro text' hleaves'
    rw [hleaves] at hleaves'
    cases hleaves'
    exact hsource rfl
  have hy : y ∈ items := hperm.mem_iff.1 (by simp)
  have hfile := (h.possible hy).isFile_source hleaves hsource
  have hkept : runAll result fs ((rest ++ [x]).map edit) (edit y).source =
      fs (edit y).source := by
    apply runAll_of_not_touched hfile
    intro e he
    obtain ⟨z, hz, rfl⟩ := List.mem_map.1 he
    obtain ⟨before, after, hsplit⟩ := List.append_of_mem hz
    have hfront : ((before ++ after) ++ [y, z]).Perm items := by
      refine List.Perm.trans ?_ hperm
      have hall : rest ++ [x, y] = before ++ z :: after ++ [y] := by
        rw [← hsplit, List.append_assoc, List.singleton_append]
      rw [hall, List.append_assoc, List.append_assoc]
      apply List.Perm.append_left
      simpa using List.perm_append_singleton z (after ++ [y])
    exact (h.spares hfront).drops hdrops
  have hend := h.same _ hperm
  have hsplit : rest ++ [x, y] = (rest ++ [x]) ++ [y] := by simp
  rw [hsplit, List.map_append, runAll_append] at hend
  refine ⟨text, ?_⟩
  rw [← hend, List.map_singleton, runAll_cons, runAll_nil,
    result_of_leaves hleaves]
  simp only [fileLike, permissions_congr hkept]

theorem compatible (h : Interchangeable edit fs fs' items)
    (hperm : (rest ++ [x, y]).Perm items) :
    Compatible fs (edit x) (edit y) := by
  have hswap : (rest ++ [y, x]).Perm items :=
    ((List.Perm.swap x y []).append_left rest).trans hperm
  refine ⟨h.spares hperm, h.spares hswap, ?_, ?_⟩
  · intro l text text' hx hy
    obtain ⟨s, -, -, hend⟩ := h.last_two hswap
    obtain ⟨s', -, -, hend'⟩ := h.last_two hperm
    have hnode := congrFun (hend.trans hend'.symm) l
    rw [result_of_leaves hx, result_of_leaves hy] at hnode
    simp only [fileLike, Option.some.injEq, Node.file.injEq] at hnode
    exact hnode.1
  · intro l text text' hx hy hsourceX hsourceY
    obtain ⟨_, hnode⟩ := h.permissions_source hswap hx hsourceX
    obtain ⟨_, hnode'⟩ := h.permissions_source hperm hy hsourceY
    have hsame := hnode.symm.trans hnode'
    simp only [fileLike, Option.some.injEq, Node.file.injEq] at hsame
    exact Prod.ext hsame.2.1 hsame.2.2

end Interchangeable

end FileEdit

end CodeRs
