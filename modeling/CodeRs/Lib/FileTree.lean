import CodeRs.Lib.FileSystem
import Mathlib.Data.List.Infix
import Mathlib.Order.Defs.PartialOrder
import Mathlib.Tactic.TypeStar

/-!
# Operations on a file tree

When an operation of the file system succeeds and what it leaves, node by node,
in a file system where what exists lies in a directory.
-/

namespace CodeRs

namespace FileSystem

/-! ## Nodes -/

/-- A file can be made or removed in the directory around `l`. -/
def HasWritableParent (fs : FileSystem) (l : Loc) : Prop :=
  fs l.dropLast = some (.dir true)

/-- Whether the file at a location can be read and written; a new file can. -/
def permissions (fs : FileSystem) (l : Loc) : Bool × Bool :=
  match fs l with
  | some (.file _ readable writable) => (readable, writable)
  | _ => (true, true)

/-- A file with a text and the permissions of another. -/
def fileLike (fs : FileSystem) (l : Loc) (text : Text) : Node :=
  .file text (fs.permissions l).1 (fs.permissions l).2

def IsFile (fs : FileSystem) (l : Loc) : Prop :=
  ∃ text readable writable, fs l = some (.file text readable writable)

/-- A text can be written to a location. -/
def Writable (fs : FileSystem) (l : Loc) : Prop :=
  (fs.permissions l).2 = true ∧
    (fs.IsFile l ∨ fs l = none ∧ fs.HasWritableParent l)

instance (dirs : Option Loc) (m : Loc) :
    Decidable (m ∈ dirs.elim [] List.inits) :=
  decidable_of_iff ((dirs.elim [] List.inits).any (fun d => decide (d = m)) =
    true) (by simp)

/-- The files with the directories down to a location. -/
def withDirs (fs : FileSystem) (dirs : Option Loc) : FileSystem := fun m =>
  if m ∈ dirs.elim [] List.inits ∧ fs m = none then some (.dir true) else fs m

/-- The directories down to a location can be made. -/
def CanMakeDirs (fs : FileSystem) (dirs : Option Loc) : Prop :=
  ∀ m ∈ dirs.elim [] List.inits, ¬fs.IsFile m ∧
    (fs m = none → fs m.dropLast ≠ none → fs.HasWritableParent m)

instance (fs : FileSystem) (l : Loc) : Decidable (fs.IsFile l) :=
  decidable_of_iff ((fs.contents l).isSome = true) <| by
    rw [contents, IsFile]
    split
    · rename_i text readable writable hfile
      exact iff_of_true rfl ⟨text, readable, writable, hfile⟩
    · rename_i hother
      refine iff_of_false (by simp) ?_
      rintro ⟨text, readable, writable, hfile⟩
      exact hother text readable writable hfile

instance (fs : FileSystem) (l : Loc) : Decidable (fs.HasWritableParent l) :=
  inferInstanceAs (Decidable (fs l.dropLast = some (.dir true)))

instance (fs : FileSystem) (l : Loc) : Decidable (fs.Writable l) :=
  inferInstanceAs (Decidable ((fs.permissions l).2 = true ∧
    (fs.IsFile l ∨ fs l = none ∧ fs.HasWritableParent l)))

instance (fs : FileSystem) (dirs : Option Loc) :
    Decidable (fs.CanMakeDirs dirs) :=
  inferInstanceAs (Decidable (∀ m ∈ dirs.elim [] List.inits, ¬fs.IsFile m ∧
    (fs m = none → fs m.dropLast ≠ none → fs.HasWritableParent m)))

/-- The root is a directory, and what exists lies in a directory. -/
structure IsTree (fs : FileSystem) : Prop where
  root : ∃ writable, fs [] = some (.dir writable)
  parent : ∀ l, fs l ≠ none → l ≠ [] →
    ∃ writable, fs l.dropLast = some (.dir writable)

variable {fs fs' : FileSystem}

theorem not_isFile_of_dir {l : Loc} {writable : Bool}
    (h : fs l = some (.dir writable)) :
    ¬fs.IsFile l := by
  rintro ⟨text, readable, writable', hfile⟩
  cases h.symm.trans hfile

theorem IsFile.ne_none {l : Loc} (h : fs.IsFile l) : fs l ≠ none := by
  obtain ⟨text, readable, writable, hfile⟩ := h
  rw [hfile]
  simp

theorem parentWritable_eq_ok {l : Loc} {u : Unit} :
    fs.parentWritable l = .ok u ↔ fs.HasWritableParent l := by
  rw [parentWritable, HasWritableParent]
  split <;> simp_all

theorem write_eq_ok {l : Loc} {text : Text} :
    fs.write l text = .ok fs' ↔
      fs.Writable l ∧ fs' =
        Function.update fs l (some (fs.fileLike l text)) := by
  rw [write]
  split
  · rename_i readable hfile
    simp [Writable, IsFile, fileLike, permissions, hfile, eq_comm]
  · rename_i readable hfile
    simp [Writable, IsFile, permissions, hfile]
  · rename_i writable hdir
    simp [Writable, IsFile, hdir]
  · rename_i hnone
    rw [map_eq_ok]
    simp only [parentWritable_eq_ok, Writable, IsFile, fileLike,
      permissions, hnone]
    simp [eq_comm]

theorem removeFile_eq_ok {l : Loc} :
    fs.removeFile l = .ok fs' ↔
      (fs.IsFile l ∧ fs.HasWritableParent l) ∧
        fs' = Function.update fs l none := by
  rw [removeFile]
  split
  · rename_i text readable writable hfile
    rw [map_eq_ok]
    simp only [parentWritable_eq_ok, IsFile, hfile]
    simp [eq_comm]
  · rename_i writable hdir
    simp [IsFile, hdir]
  · rename_i hnone
    simp [IsFile, hnone]

theorem rename_eq_ok {source target : Loc} :
    fs.rename source target = .ok fs' ↔
      (fs.IsFile source ∧ (∀ writable, fs target ≠ some (.dir writable)) ∧
        fs.HasWritableParent source ∧ fs.HasWritableParent target) ∧
      fs' =
        Function.update (Function.update fs source none) target
          (fs source) := by
  rw [rename]
  split
  · rename_i hnone
    simp [IsFile, hnone]
  · rename_i writable hdir
    simp [IsFile, hdir]
  · rename_i writable hdir
    simp [hdir]
  · rename_i text readable writable hsource htarget
    simp only [bind_eq_ok, parentWritable_eq_ok, IsFile, hsource]
    constructor
    · rintro ⟨_, hparent, _, hparent', h⟩
      cases h
      refine ⟨⟨⟨text, readable, writable, rfl⟩, ?_, hparent, hparent'⟩, rfl⟩
      intro writable' hdir
      exact htarget writable' hdir
    · rintro ⟨⟨-, -, hparent, hparent'⟩, rfl⟩
      exact ⟨(), hparent, (), hparent', rfl⟩

/-! ## Making directories -/

theorem pairwise_inits {α : Type} (l : List α) :
    l.inits.Pairwise fun m m' => m.length < m'.length := by
  induction l with
  | nil => simp
  | cons a rest ih =>
      rw [List.inits_cons, List.pairwise_cons, List.pairwise_map]
      refine ⟨?_, ih.imp ?_⟩
      · intro m hm
        obtain ⟨m', -, rfl⟩ := List.mem_map.1 hm
        simp
      · intro m m' hlength
        simpa using hlength

/-- The first beginning of a list with a property has no shorter one. -/
theorem find?_inits {α : Type} {p : List α → Bool} {l m : List α}
    (h : l.inits.find? p = some m) :
    m <+: l ∧ p m = true ∧ ∀ m', m' <+: m → m' ≠ m → p m' = false := by
  obtain ⟨hp, before, after, heq, hbefore⟩ := List.find?_eq_some_iff_append.1 h
  have hmem : m ∈ l.inits := by simp [heq]
  have hbeginning : m <+: l := (List.mem_inits _ _).1 hmem
  refine ⟨hbeginning, hp, ?_⟩
  intro m' hm' hne
  have hmem' : m' ∈ l.inits := (List.mem_inits _ _).2 (hm'.trans hbeginning)
  have hsorted := pairwise_inits l
  rw [heq, List.pairwise_append, List.pairwise_cons] at hsorted
  rw [heq, List.mem_append, List.mem_cons] at hmem'
  obtain hearlier | rfl | hlater := hmem'
  · simpa using hbefore m' hearlier
  · exact absurd rfl hne
  · have hlonger := hsorted.2.1.1 m' hlater
    have hshorter := hm'.length_le
    omega

/-- Nothing exists below what does not. -/
theorem IsTree.none_of_isPrefix (htree : fs.IsTree) {l m : Loc}
    (h : fs l = none)
    (hlm : l <+: m) : fs m = none := by
  obtain ⟨names, rfl⟩ := hlm
  induction names using List.reverseRecOn with
  | nil => simpa using h
  | append_singleton names name ih =>
      by_contra hne
      rw [← List.append_assoc] at hne
      obtain ⟨writable, hdir⟩ := htree.parent _ hne (by simp)
      rw [List.dropLast_concat, ih] at hdir
      cases hdir

theorem prefix_dropLast {α : Type} {l m : List α} (h : l <+: m) (hne : l ≠ m) :
    l <+: m.dropLast := by
  obtain ⟨rest, rfl⟩ := h
  have hrest : rest ≠ [] := by
    rintro rfl
    simp at hne
  rw [List.dropLast_append_of_ne_nil hrest]
  exact List.prefix_append ..

theorem IsTree.canMakeDirs_iff_of_missing (htree : fs.IsTree) {l first : Loc}
    (hnoFile : ∀ m ∈ l.inits, ¬fs.IsFile m)
    (hfind : l.inits.find? (fun m => (fs m).isNone) = some first) :
    fs.CanMakeDirs (some l) ↔ fs.HasWritableParent first := by
  obtain ⟨hbeginning, hmissing, hearlier⟩ := find?_inits hfind
  have hnone : fs first = none := Option.isNone_iff_eq_none.1 hmissing
  have hne : first ≠ [] := by
    rintro rfl
    obtain ⟨writable, hroot⟩ := htree.root
    cases hnone.symm.trans hroot
  have hparent : fs first.dropLast ≠ none := by
    have hshorter : first.dropLast ≠ first := by
      intro heq
      have hlength := congrArg List.length heq
      have hpos := List.length_pos_iff.2 hne
      rw [List.length_dropLast] at hlength
      omega
    have hexists :=
      hearlier first.dropLast (List.dropLast_prefix first) hshorter
    intro hmissing'
    simp [hmissing'] at hexists
  constructor
  · intro hcan
    exact (hcan first ((List.mem_inits _ _).2 hbeginning)).2 hnone hparent
  · intro hwritable m hm
    refine ⟨hnoFile m hm, fun hm' hparent' => ?_⟩
    have hsame : m = first := by
      by_contra hdiff
      have hml : m <+: l := (List.mem_inits _ _).1 hm
      obtain hshort | hlong := List.prefix_or_prefix_of_prefix hml hbeginning
      · have hexists := hearlier m hshort hdiff
        simp [hm'] at hexists
      · exact hparent' (htree.none_of_isPrefix hnone
          (prefix_dropLast hlong (Ne.symm hdiff)))
    rwa [hsame]

/-- No directory has to be made if none is missing. -/
theorem canMakeDirs_of_exists {l : Loc} (hnoFile : ∀ m ∈ l.inits, ¬fs.IsFile m)
    (hexists : ∀ m ∈ l.inits, fs m ≠ none) :
    fs.CanMakeDirs (some l) ∧ fs.withDirs (some l) = fs := by
  constructor
  · exact fun m hm => ⟨hnoFile m hm, fun hnone => absurd hnone (hexists m hm)⟩
  · funext m
    exact if_neg fun h => hexists m h.1 h.2

theorem createDirAll_eq_ok (htree : fs.IsTree) {l : Loc} :
    fs.createDirAll l = .ok fs' ↔
      fs.CanMakeDirs (some l) ∧ fs' = fs.withDirs (some l) := by
  rw [createDirAll]
  split
  · rename_i hany
    obtain ⟨m, hm, hfile⟩ := List.any_eq_true.1 hany
    have hisFile : fs.IsFile m := by
      split at hfile
      · rename_i text readable writable hnode
        exact ⟨text, readable, writable, hnode⟩
      · cases hfile
    refine iff_of_false (by simp) ?_
    rintro ⟨hcan, -⟩
    exact (hcan m hm).1 hisFile
  · rename_i hany
    have hnoFile : ∀ m ∈ l.inits, ¬fs.IsFile m := by
      rintro m hm ⟨text, readable, writable, hfile⟩
      exact hany (List.any_eq_true.2 ⟨m, hm, by rw [hfile]⟩)
    split
    · rename_i hfind
      have hexists : ∀ m ∈ l.inits, fs m ≠ none := by
        intro m hm hnone
        have hsome := List.find?_eq_none.1 hfind m hm
        rw [hnone] at hsome
        exact hsome rfl
      obtain ⟨hcan, hsame⟩ := canMakeDirs_of_exists hnoFile hexists
      rw [hsame, Except.ok.injEq]
      exact ⟨fun h => ⟨hcan, h.symm⟩, fun h => h.2.symm⟩
    · rename_i first hfind
      rw [map_eq_ok, htree.canMakeDirs_iff_of_missing hnoFile hfind]
      simp only [parentWritable_eq_ok]
      have hmade :
          (fun m => if m ∈ l.inits ∧ (fs m).isNone then some (.dir true)
          else fs m) = fs.withDirs (some l) := by
        funext m
        simp [withDirs]
      rw [← hmade]
      constructor
      · rintro ⟨_, hwritable, rfl⟩
        exact ⟨hwritable, rfl⟩
      · rintro ⟨hwritable, rfl⟩
        exact ⟨(), hwritable, rfl⟩

/-! ## Made directories -/

variable {l m : Loc} {dirs : Option Loc}

theorem withDirs_none : fs.withDirs none = fs := by
  funext m
  exact if_neg fun h => List.not_mem_nil h.1

theorem withDirs_of_ne_none (h : fs m ≠ none) :
    fs.withDirs dirs m = fs m :=
  if_neg fun hm => h hm.2

theorem withDirs_eq_none :
    fs.withDirs dirs m = none ↔ fs m = none ∧ m ∉ dirs.elim [] List.inits := by
  rw [withDirs]
  split
  · rename_i h
    simp [h.1]
  · rename_i h
    constructor
    · exact fun hnone => ⟨hnone, fun hm => h ⟨hm, hnone⟩⟩
    · exact fun hnone => hnone.1

/-- New directories change no permissions. -/
theorem permissions_withDirs (dirs : Option Loc) :
    (fs.withDirs dirs).permissions l = fs.permissions l := by
  by_cases h : fs l = none
  · simp only [permissions, withDirs, h]
    split <;> simp_all
  · simp only [permissions, withDirs_of_ne_none h]

theorem isFile_withDirs :
    (fs.withDirs dirs).IsFile l ↔ fs.IsFile l := by
  by_cases h : fs l = none
  · simp only [IsFile, withDirs, h]
    split <;> simp_all
  · simp only [IsFile, withDirs_of_ne_none h]

theorem permissions_congr (h : fs' m = fs m) :
    fs'.permissions m = fs.permissions m := by
  simp only [permissions, h]

theorem IsFile.congr (h : fs' m = fs m) (hfile : fs.IsFile m) :
    fs'.IsFile m := by
  simpa only [IsFile, h] using hfile

theorem dropLast_mem_dirs (h : m ∈ dirs.elim [] List.inits) :
    m.dropLast ∈ dirs.elim [] List.inits := by
  cases dirs with
  | none => exact absurd h List.not_mem_nil
  | some l =>
      have hbeginning : m <+: l := (List.mem_inits _ _).1 h
      exact (List.mem_inits _ _).2 ((List.dropLast_prefix m).trans hbeginning)

/-- New directories lie in directories. -/
theorem isTree_withDirs (htree : fs.IsTree)
    (hcan : fs.CanMakeDirs dirs) : (fs.withDirs dirs).IsTree := by
  have hkept : ∀ {m : Loc} {writable : Bool}, fs m = some (.dir writable) →
      fs.withDirs dirs m = some (.dir writable) := by
    intro m writable hdir
    rw [withDirs_of_ne_none (by simp [hdir]), hdir]
  constructor
  · obtain ⟨writable, hroot⟩ := htree.root
    exact ⟨writable, hkept hroot⟩
  · intro m hm hne
    by_cases hnone : fs m = none
    · have hmem : m ∈ dirs.elim [] List.inits := by
        by_contra hmem
        exact hm (withDirs_eq_none.2 ⟨hnone, hmem⟩)
      by_cases hparent : fs m.dropLast = none
      · exact ⟨true, if_pos ⟨dropLast_mem_dirs hmem, hparent⟩⟩
      · exact ⟨true, hkept ((hcan m hmem).2 hnone hparent)⟩
    · obtain ⟨writable, hdir⟩ := htree.parent m hnone hne
      exact ⟨writable, hkept hdir⟩

end FileSystem

end CodeRs

/-! ## Grants for subtrees

Places lie within others as in a tree.  A grant allows what lies within its
root but not within its exceptions.  It reaches into the subtree of a place if
it allows something there, and then it allows the place itself or its own
root. -/

namespace CodeRs

variable {α : Type*}

/-- A place lies within itself, and two places around a third one are one
within the other. -/
structure IsNesting (within : α → α → Prop) : Prop where
  refl : ∀ a, within a a
  trans : ∀ {a b c}, within a b → within b c → within a c
  chain : ∀ {p a b}, within p a → within p b → within a b ∨ within b a

/-- A grant for a subtree without some subtrees. -/
structure Grant (α : Type*) where
  root : α
  exceptions : List α

namespace Grant

variable (within : α → α → Prop) (grant : Grant α)

def Allows (p : α) : Prop :=
  within p grant.root ∧ ∀ c ∈ grant.exceptions, ¬ within p c

/-- A grant reaches into a subtree: it allows the place where the subtree
begins, or its root lies in the subtree and is allowed. -/
def Reaches (a : α) : Prop :=
  grant.Allows within a ∨ within grant.root a ∧ grant.Allows within grant.root

variable {within} {grant} {a : α}

/-- A grant allows something in a subtree exactly if it reaches into it. -/
theorem exists_allows_iff (h : IsNesting within) :
    (∃ p, within p a ∧ grant.Allows within p) ↔ grant.Reaches within a := by
  constructor
  · rintro ⟨p, hp, hroot, hexceptions⟩
    obtain hle | hle := h.chain hp hroot
    · refine .inl ⟨hle, ?_⟩
      intro c hc hwithin
      exact hexceptions c hc (h.trans hp hwithin)
    · refine .inr ⟨hle, h.refl _, ?_⟩
      intro c hc hwithin
      exact hexceptions c hc (h.trans hroot hwithin)
  · rintro (hallows | ⟨hle, hallows⟩)
    · exact ⟨a, h.refl a, hallows⟩
    · exact ⟨grant.root, hle, hallows⟩

theorem not_reaches_of_mem (h : IsNesting within) (ha : a ∈ grant.exceptions) :
    ¬ grant.Reaches within a := by
  rw [← exists_allows_iff h]
  rintro ⟨p, hp, -, hexceptions⟩
  exact hexceptions a ha hp

end Grant

end CodeRs
