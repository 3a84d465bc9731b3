import CodeRs.Lib.Text
import Mathlib.Data.List.Basic

/-!
# Unix paths

Paths as their components, as `std::path::Path` compares, joins and walks them:
repeated and trailing separators and inner `.` components are gone, and `..` is
kept.
-/

namespace CodeRs

inductive Component where
  | rootDir
  | curDir
  | parentDir
  | normal (name : String)
  deriving DecidableEq, Repr

/-- A path.  Only its first component can be the root or `.`. -/
structure Path where
  components : List Component
  wellFormed : ∀ c ∈ components.tail, c ≠ .rootDir ∧ c ≠ .curDir
  deriving DecidableEq

namespace Path

def ofComponent (c : Component) : Path := ⟨[c], by simp⟩

def empty : Path := ⟨[], by simp⟩

/-- The path `/` followed by names. -/
def absolute (names : List String) : Path :=
  ⟨.rootDir :: names.map .normal, by simp⟩

/-- The path of some names. -/
def relative (names : List String) : Path :=
  ⟨names.map .normal, fun c hc => by
    obtain ⟨name, -, rfl⟩ := List.mem_map.1 (List.mem_of_mem_tail hc)
    simp⟩

def isAbsolute (p : Path) : Bool := p.components.head? = some .rootDir

theorem rootDir_notMem {p : Path} (h : p.isAbsolute = false) :
    .rootDir ∉ p.components := by
  intro hmem
  cases hc : p.components with
  | nil => simp [hc] at hmem
  | cons c rest =>
      rw [hc, List.mem_cons] at hmem
      obtain rfl | hrest := hmem
      · simp [isAbsolute, hc] at h
      · exact (p.wellFormed _ (by rw [hc]; exact hrest)).1 rfl

def join (base p : Path) : Path :=
  if h : p.isAbsolute then p
  else if hbase : base.components = [] then p
  else
    ⟨base.components ++ p.components.filter (· ≠ .curDir), fun c hc => by
      rw [List.tail_append_of_ne_nil hbase, List.mem_append,
        List.mem_filter] at hc
      obtain hc | ⟨hc, hcur⟩ := hc
      · exact base.wellFormed c hc
      · refine ⟨?_, by simpa using hcur⟩
        rintro rfl
        exact rootDir_notMem (by simpa using h) hc⟩

def parent (p : Path) : Option Path :=
  match p.components.getLast? with
  | none | some .rootDir => none
  | some _ =>
      some ⟨p.components.dropLast, fun c hc =>
        p.wellFormed c ((List.dropLast_sublist p.components).tail.subset hc)⟩

def pop (p : Path) : Path := p.parent.getD p

def startsWith (p base : Path) : Bool := base.components.isPrefixOf p.components

/-- Remove `.` and resolve `..` without the file system. -/
def normalize (p : Path) : Path :=
  p.components.foldl
    (fun out comp =>
      match comp with
      | .parentDir => out.pop
      | .curDir => out
      | other => out.join (ofComponent other))
    empty

/-- The names of the normalised path, from the root on. -/
def names (p : Path) : List String :=
  p.normalize.components.filterMap fun
    | .normal name => some name
    | _ => none

/-- `as_os_str` of a component. -/
def componentText : Component → Text
  | .rootDir => []
  | .curDir => ['.']
  | .parentDir => ['.', '.']
  | .normal name => name.toList

def display (p : Path) : Text :=
  if p.components = [.rootDir] then ['/']
  else ['/'].intercalate (p.components.map componentText)

example : ((absolute ["work"]).join
    ⟨[.curDir, .parentDir, .normal "etc"], by decide⟩).normalize =
    absolute ["etc"] := by
  decide

end Path

end CodeRs

/-! ## The last component of a path

The name, the stem and the extension of a file, as `std::path::Path` finds and
sets them, and what a path is below another one. -/

namespace CodeRs

namespace Text

/-- `str::rsplit_once` with a character. -/
def rsplitOnce (c : Char) (t : Text) : Option (Text × Text) :=
  if c ∈ t then
    some ((t.reverse.dropWhile (· ≠ c)).tail.reverse,
      (t.reverse.takeWhile (· ≠ c)).reverse)
  else none

theorem rsplitOnce_append {c : Char} (s : Text) {t : Text} (h : c ∉ t) :
    rsplitOnce c (s ++ c :: t) = some (s, t) := by
  have hall : ∀ d ∈ t.reverse, decide (d ≠ c) = true := fun d hd =>
    decide_eq_true fun hdc => h (hdc ▸ List.mem_reverse.1 hd)
  rw [rsplitOnce, if_pos (by simp), List.reverse_append, List.reverse_cons,
    List.append_assoc,
    List.dropWhile_append_of_pos hall, List.takeWhile_append_of_pos hall]
  simp

end Text

namespace Path

variable {p base rel : Path}

def stripPrefix (p base : Path) : Option Path :=
  if base.components <+: p.components then
    some ⟨p.components.drop base.components.length, fun c hc =>
      p.wellFormed c ((List.drop_sublist _ _).tail.subset hc)⟩
  else none

/-- A relative path without `.` comes behind the other one. -/
theorem components_join (base : Path) {p : Path} (habs : p.isAbsolute = false)
    (hcur : .curDir ∉ p.components) :
    (base.join p).components = base.components ++ p.components := by
  rw [join, dif_neg (by rw [habs]; exact Bool.false_ne_true)]
  split
  next hbase => rw [hbase, List.nil_append]
  next =>
    refine congrArg _ (List.filter_eq_self.2 fun c hc => decide_eq_true ?_)
    rintro rfl
    exact hcur hc

theorem stripPrefix_eq_some
    (h : p.components = base.components ++ rel.components) :
    p.stripPrefix base = some rel := by
  obtain ⟨components, wellFormed⟩ := rel
  simp only at h
  rw [stripPrefix, if_pos (h ▸ List.prefix_append _ _)]
  simp only [h, List.drop_left]

theorem isAbsolute_relative (names : List String) :
    (relative names).isAbsolute = false := by
  cases names with
  | nil => rfl
  | cons name names => exact decide_eq_false (by simp [relative])

theorem curDir_notMem_relative (names : List String) :
    .curDir ∉ (relative names).components := by
  simp [relative]

def fileName (p : Path) : Option Text :=
  match p.components.getLast? with
  | some (.normal name) => some name.toList
  | _ => none

/-- A name up to its last dot, if something is before that. -/
def stemOf (name : Text) : Text :=
  match Text.rsplitOnce '.' name with
  | some (front, _) => if front = [] then name else front
  | none => name

def fileStem (p : Path) : Option Text := p.fileName.map stemOf

def nameWithExtension (name extension : Text) : Text :=
  stemOf name ++ '.' :: extension

/-- `with_extension`, with an extension that is not empty. -/
def withExtension (p : Path) (extension : Text) : Path :=
  match p.fileName with
  | some name =>
      ⟨p.components.dropLast ++
        [.normal (String.ofList (nameWithExtension name extension))],
        fun c hc => by
          cases hfront : p.components.dropLast with
          | nil =>
              rw [hfront] at hc
              cases hc
          | cons first front =>
              rw [hfront, List.cons_append, List.tail_cons,
                List.mem_append] at hc
              rcases hc with hc | hc
              · refine p.wellFormed c
                  ((List.dropLast_sublist p.components).tail.subset ?_)
                rw [hfront]
                exact hc
              · rw [List.mem_singleton.1 hc]
                exact ⟨Component.noConfusion, Component.noConfusion⟩⟩
  | none => p

theorem components_of_fileName {name : Text} (h : p.fileName = some name) :
    p.components = p.components.dropLast ++ [.normal (String.ofList name)] := by
  rw [fileName] at h
  split at h
  next name' hlast =>
    obtain ⟨front, hfront⟩ := List.getLast?_eq_some_iff.1 hlast
    cases h
    rw [hfront, List.dropLast_concat, String.ofList_toList]
  next => cases h

theorem components_withExtension {name : Text} (h : p.fileName = some name)
    (extension : Text) :
    (p.withExtension extension).components =
      p.components.dropLast ++
        [.normal (String.ofList (nameWithExtension name extension))] := by
  rw [withExtension]
  simp only [h]

end Path

end CodeRs
