import CodeRs.Lib.Text
import Mathlib.Data.List.DropRight
import Mathlib.Data.List.TakeWhile

/-!
# Lines of a text

`str::lines` with its treatment of carriage returns, its inverse on lines
without line breaks, the lines with their ends, and what `str::trim` leaves
alone.
-/

namespace CodeRs.Text

/-! ## Splitting -/

/-- A line without one carriage return at its end. -/
def stripCarriageReturn (line : Text) : Text :=
  if line.getLast? = some '\r' then line.dropLast else line

/-- The lines of a text that follows the beginning of a line. -/
def linesFrom : Text → Text → List Text
  | current, [] => if current = [] then [] else [current]
  | current, c :: rest =>
      if c = '\n' then stripCarriageReturn current :: linesFrom [] rest
      else linesFrom (current ++ [c]) rest

def lines (t : Text) : List Text := linesFrom [] t

/-- The text of some lines, each ended by a line feed. -/
def unlines (ls : List Text) : Text := ls.flatMap (· ++ ['\n'])

/-- A line that `lines` gives back as it is. -/
structure IsLine (line : Text) : Prop where
  noLineFeed : '\n' ∉ line
  noCarriageReturn : line.getLast? ≠ some '\r'

theorem linesFrom_append {line : Text} (h : '\n' ∉ line) (current rest : Text) :
    linesFrom current (line ++ rest) = linesFrom (current ++ line) rest := by
  induction line generalizing current with
  | nil => simp
  | cons c line ih =>
      have hc : c ≠ '\n' := by
        rintro rfl
        exact h List.mem_cons_self
      have hline : '\n' ∉ line := fun hmem => h (List.mem_cons_of_mem _ hmem)
      rw [List.cons_append, linesFrom, if_neg hc, ih hline, List.append_assoc]
      rfl

/-- Reading lines back, up to the start of the last one. -/
theorem lines_unlines_append {ls : List Text} (h : ∀ line ∈ ls, IsLine line)
    (rest : Text) : lines (unlines ls ++ rest) = ls ++ lines rest := by
  induction ls with
  | nil => rfl
  | cons line ls ih =>
      have hline := h line List.mem_cons_self
      have hls := ih fun other hother => h other (List.mem_cons_of_mem _ hother)
      have hsplit : unlines (line :: ls) ++ rest =
          line ++ '\n' :: (unlines ls ++ rest) := by
        simp [unlines]
      rw [lines, hsplit, linesFrom_append hline.noLineFeed,
        List.nil_append, linesFrom,
        if_pos rfl, stripCarriageReturn,
        if_neg hline.noCarriageReturn, ← lines, hls]
      rfl

/-- Lines with a separator between them, by their last line. -/
theorem intercalate_concat (sep : Text) (ls : List Text) (last : Text) :
    sep.intercalate (ls ++ [last]) = ls.flatMap (· ++ sep) ++ last := by
  induction ls with
  | nil => simp
  | cons line ls ih =>
      have hne : ls ++ [last] ≠ [] :=
        List.append_ne_nil_of_right_ne_nil ls (List.cons_ne_nil last [])
      rw [List.cons_append, List.intercalate_cons_of_ne_nil hne, ih]
      simp

theorem lines_last {line : Text} (hfeed : '\n' ∉ line) (hne : line ≠ []) :
    lines line = [line] := by
  have hlines := linesFrom_append hfeed [] []
  rw [List.append_nil, List.nil_append] at hlines
  rw [lines, hlines, linesFrom, if_neg hne]

/-! ## Lines with their ends -/

/-- The lines of a text with their line feeds, as `str::split_inclusive` gives
them. -/
def rawLines (t : Text) : List Text :=
  let segments := t.splitOn '\n'
  segments.dropLast.map (· ++ ['\n']) ++
    segments.getLast?.toList.filter (· ≠ [])

/-- A line without its end: a line feed, a carriage return before it, or
both. -/
def lineText (raw : Text) : Text :=
  stripCarriageReturn (if raw.getLast? = some '\n' then raw.dropLast else raw)

theorem lineText_concat (segment : Text) :
    lineText (segment ++ ['\n']) = stripCarriageReturn segment := by
  rw [lineText, List.getLast?_concat, if_pos rfl, List.dropLast_concat]

theorem lineText_of_notMem {segment : Text} (h : '\n' ∉ segment) :
    lineText segment = stripCarriageReturn segment := by
  rw [lineText, if_neg fun hlast => h (List.mem_of_getLast? hlast)]

theorem stripCarriageReturn_concat (line : Text) :
    stripCarriageReturn (line ++ ['\r']) = line := by
  rw [stripCarriageReturn, List.getLast?_concat, if_pos rfl,
    List.dropLast_concat]

theorem notMem_of_mem_splitOn {t segment : Text} {c : Char}
    (h : segment ∈ t.splitOn c) :
    c ∉ segment := by
  induction t generalizing segment with
  | nil =>
      rw [List.splitOn_nil, List.mem_singleton] at h
      rw [h]
      exact List.not_mem_nil
  | cons d t ih =>
      rw [List.splitOn_cons_eq_if_modifyHead] at h
      obtain ⟨first, rest, hsplit⟩ :=
        List.exists_cons_of_ne_nil (List.splitOn_ne_nil c t)
      rw [hsplit] at ih h
      split at h
      next =>
        rcases List.mem_cons.1 h with rfl | h
        · exact List.not_mem_nil
        · exact ih h
      next hd =>
        rw [beq_iff_eq] at hd
        rcases List.mem_cons.1 h with rfl | h
        · rintro hmem
          rcases List.mem_cons.1 hmem with rfl | hmem
          · exact hd rfl
          · exact ih List.mem_cons_self hmem
        · exact ih (List.mem_cons_of_mem first h)

/-- A text is its lines with line feeds and what comes behind the last of
them. -/
theorem exists_segments (t : Text) :
    ∃ (segments : List Text) (last : Text),
      t.splitOn '\n' = segments ++ [last] ∧ '\n' ∉ last ∧
      t = unlines segments ++ last ∧
      rawLines t = segments.map (· ++ ['\n']) ++ if last = [] then []
        else [last] := by
  have hne := List.splitOn_ne_nil '\n' t
  have hsplit := (List.dropLast_append_getLast hne).symm
  refine ⟨_, _, hsplit, notMem_of_mem_splitOn (List.getLast_mem hne), ?_, ?_⟩
  · have hjoin : ['\n'].intercalate (t.splitOn '\n') = t :=
      List.intercalate_splitOn '\n'
    rw [hsplit, intercalate_concat] at hjoin
    exact hjoin.symm
  · rw [rawLines, List.getLast?_eq_some_getLast hne]
    by_cases hlast : (t.splitOn '\n').getLast hne = []
    · simp [hlast]
    · simp [hlast]

theorem flatten_rawLines (t : Text) : (rawLines t).flatten = t := by
  obtain ⟨segments, last, -, -, ht, hraw⟩ := exists_segments t
  rw [hraw, List.flatten_append, ← List.flatMap_def, ← unlines]
  split
  next hlast => rw [List.flatten_nil, ← hlast, ← ht]
  next => rw [List.flatten_singleton, ← ht]

/-! ## Trimming -/

/-- Nothing is trimmed from a text whose ends are not white space. -/
theorem trim_eq_self {t : Text} {first last : Char}
    (hfirst : t.head? = some first)
    (hfirstws : isWhitespace first = false) (hlast : t.getLast? = some last)
    (hlastws : isWhitespace last = false) : trim t = t := by
  have hdrop : t.dropWhile isWhitespace = t := by
    cases t with
    | nil => rfl
    | cons c rest =>
        rw [List.head?_cons, Option.some.injEq] at hfirst
        rw [List.dropWhile_cons_of_neg]
        rw [hfirst, hfirstws]
        exact Bool.false_ne_true
  have hend : List.rdropWhile isWhitespace t = t := by
    rw [List.rdropWhile_eq_self_iff]
    intro hne
    rw [List.getLast?_eq_some_getLast hne, Option.some.injEq] at hlast
    rw [hlast, hlastws]
    exact Bool.false_ne_true
  rw [trim, hdrop]
  exact hend

theorem trim_ne_nil {t : Text} {c : Char} (hc : c ∈ t)
    (hws : isWhitespace c = false) :
    trim t ≠ [] := by
  intro htrim
  have hall := List.rdropWhile_eq_nil_iff.1 htrim
  have hmem : c ∈ t.dropWhile isWhitespace := by
    have hsplit := List.takeWhile_append_dropWhile (p := isWhitespace) (l := t)
    rw [← hsplit, List.mem_append] at hc
    refine hc.resolve_left ?_
    intro htake
    have htrue := List.mem_takeWhile_imp htake
    rw [hws] at htrue
    cases htrue
  have htrue := hall c hmem
  rw [hws] at htrue
  cases htrue

/-- What is left by a trim has a character that is not white space. -/
theorem exists_mem_trim {t : Text} (h : trim t ≠ []) :
    ∃ c ∈ trim t, isWhitespace c = false := by
  have hne : (t.dropWhile isWhitespace).reverse.dropWhile isWhitespace ≠ [] :=
    fun hnil =>
      h (by rw [trim, trimEnd, hnil, List.reverse_nil])
  refine ⟨_, List.mem_reverse.2 (List.head_mem hne), ?_⟩
  exact List.head_dropWhile_not isWhitespace hne

theorem trim_trim_ne_nil {t : Text} (h : trim t ≠ []) : trim (trim t) ≠ [] := by
  obtain ⟨c, hc, hws⟩ := exists_mem_trim h
  exact trim_ne_nil hc hws

theorem trim_append_whitespace {t : Text} {c : Char} (ht : t ≠ [])
    (hfirst : ∀ first, t.head? = some first → isWhitespace first = false)
    (hc : isWhitespace c = true) : trim (t ++ [c]) = trim t := by
  have hdrop : ∀ s : Text, (t ++ s).dropWhile isWhitespace = t ++ s := by
    intro s
    obtain ⟨first, rest, rfl⟩ := List.exists_cons_of_ne_nil ht
    rw [List.cons_append, List.dropWhile_cons_of_neg]
    rw [hfirst first rfl]
    exact Bool.false_ne_true
  have hnil := hdrop []
  rw [List.append_nil] at hnil
  rw [trim, trim, hdrop, hnil]
  exact List.rdropWhile_concat_pos isWhitespace t c hc

/-- A text without white space around it ends in something else. -/
theorem getLast_of_trim_eq {t : Text} (h : trim t = t) {last : Char}
    (hlast : t.getLast? = some last) : isWhitespace last = false := by
  have heq : List.rdropWhile isWhitespace (t.dropWhile isWhitespace) = t := h
  have hne : List.rdropWhile isWhitespace (t.dropWhile isWhitespace) ≠ [] := by
    rw [heq]
    rintro rfl
    exact absurd hlast (by simp)
  have hnot := List.rdropWhile_last_not isWhitespace _ hne
  rw [← heq, List.getLast?_eq_some_getLast hne, Option.some.injEq] at hlast
  rw [hlast] at hnot
  simpa using hnot

end CodeRs.Text
