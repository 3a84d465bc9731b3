import CodeRs.Lib.Prefixes
import CodeRs.Lib.Text
import Mathlib.Algebra.GroupWithZero.Nat
import Mathlib.Algebra.Order.Group.Nat

/-!
# Wrapping as text arrives

`RowBuilder` of `tui/src/live_wrap.rs`.  The widths of characters and of texts
come from a table that is not part of the repository.  No text in memory is as
wide as the largest number of cells.
-/

namespace CodeRs.Display

/-- `UnicodeWidthChar::width` and `UnicodeWidthStr::width`. -/
structure Widths where
  char : Char → Option ℕ
  str : Text → ℕ

/-- The width of a character, none for a control character. -/
def Widths.cells (w : Widths) (c : Char) : ℕ := (w.char c).getD 0

structure Row where
  text : Text
  explicitBreak : Bool
  width : ℕ
  deriving DecidableEq

structure RowBuilder where
  targetWidth : ℕ
  currentLine : Text
  rows : List Row
  deriving DecidableEq

def makeRow (w : Widths) (text : Text) (explicitBreak : Bool) : Row :=
  ⟨text, explicitBreak, w.str text⟩

/-! ## Prefixes of a width -/

section Line

variable (cells : Char → ℕ) (maxCols : ℕ)

/-- The loop of `take_prefix_by_width`: the prefix, the suffix and the
columns. -/
def takeCols (cols : ℕ) : Text → Text × Text × ℕ
  | [] => ([], [], cols)
  | c :: t =>
      if maxCols < cols + cells c then ([], c :: t, cols)
      else if cols + cells c = maxCols then ([c], t, maxCols)
      else
        let (head, suffix, taken) := takeCols (cols + cells c) t
        (c :: head, suffix, taken)

def takePrefixByWidth (text : Text) : Text × Text × ℕ :=
  if maxCols = 0 ∨ text = [] then ([], text, 0)
    else takeCols cells maxCols 0 text

variable {cells maxCols}

variable {cols taken : ℕ} {c : Char} {t head suffix : Text}

theorem takeCols_over (h : maxCols < cols + cells c) :
    takeCols cells maxCols cols (c :: t) = ([], c :: t, cols) := by
  rw [takeCols, if_pos h]

theorem takeCols_full (h : cols + cells c = maxCols) :
    takeCols cells maxCols cols (c :: t) = ([c], t, maxCols) := by
  rw [takeCols, if_neg (by omega), if_pos h]

theorem takeCols_step (h : cols + cells c < maxCols) :
    takeCols cells maxCols cols (c :: t) =
      (c :: (takeCols cells maxCols (cols + cells c) t).1,
        (takeCols cells maxCols (cols + cells c) t).2.1,
        (takeCols cells maxCols (cols + cells c) t).2.2) := by
  rw [takeCols, if_neg (by omega), if_neg (by omega)]

/-- The prefix and the suffix make up the text, and the columns are those of
the prefix. -/
theorem takeCols_spec
    (h : takeCols cells maxCols cols t = (head, suffix, taken)) :
    head ++ suffix = t ∧ taken = cols + (head.map cells).sum := by
  induction t generalizing cols head with
  | nil =>
      cases h
      exact ⟨rfl, rfl⟩
  | cons c t ih =>
      rcases Nat.lt_trichotomy (cols + cells c) maxCols with hlt | heq | hgt
      · rw [takeCols_step hlt] at h
        cases h
        obtain ⟨happend, htaken⟩ := ih rfl
        refine ⟨congrArg (c :: ·) happend, ?_⟩
        rw [htaken, List.map_cons, List.sum_cons, Nat.add_assoc]
      · rw [takeCols_full heq] at h
        cases h
        exact ⟨rfl, by rw [List.map_singleton, List.sum_singleton, heq]⟩
      · rw [takeCols_over hgt] at h
        cases h
        exact ⟨rfl, rfl⟩

theorem takePrefixByWidth_suffix_lt
    (h : (takePrefixByWidth cells maxCols t).2.2 ≠ 0) :
    (takePrefixByWidth cells maxCols t).2.1.length < t.length := by
  unfold takePrefixByWidth at h ⊢
  split at h
  next => exact absurd rfl h
  next hne =>
    rw [if_neg hne]
    cases htake : takeCols cells maxCols 0 t with
    | mk head rest =>
        obtain ⟨suffix, taken⟩ := rest
        rw [htake] at h
        have hhead : head ≠ [] := fun hnil => by
          rw [(takeCols_spec htake).2, hnil] at h
          exact h rfl
        have hpos := List.length_pos_iff.2 hhead
        rw [← (takeCols_spec htake).1, List.length_append]
        dsimp only
        omega

variable (cells maxCols)

/-- The loop of `wrap_current_line`: the texts of the rows it pushes, and the
line it leaves. -/
def wrapLine (text : Text) : List Text × Text :=
  match text with
  | [] => ([], [])
  | c :: rest =>
      if _h : (takePrefixByWidth cells maxCols (c :: rest)).2.2 = 0 then
        -- One character alone.
        ([c] :: (wrapLine rest).1, (wrapLine rest).2)
      else if (takePrefixByWidth cells maxCols (c :: rest)).2.1 = [] then
        ([], c :: rest)
      else
        ((takePrefixByWidth cells maxCols (c :: rest)).1 ::
            (wrapLine (takePrefixByWidth cells maxCols (c :: rest)).2.1).1,
          (wrapLine (takePrefixByWidth cells maxCols (c :: rest)).2.1).2)
termination_by text.length
decreasing_by
  all_goals first
    | exact takePrefixByWidth_suffix_lt ‹_›
    | exact Nat.lt_succ_self _

end Line

namespace RowBuilder

def new (targetWidth : ℕ) : RowBuilder := ⟨max targetWidth 1, [], []⟩

variable (w : Widths)

def wrapCurrentLine (b : RowBuilder) : RowBuilder :=
  { b with
    rows := b.rows ++
      (wrapLine w.cells b.targetWidth b.currentLine).1.map (makeRow w · false)
    currentLine := (wrapLine w.cells b.targetWidth b.currentLine).2 }

/-- `flush_current_line`.  An explicit break after a boundary is an empty
row. -/
def flushCurrentLine (b : RowBuilder) (explicitBreak : Bool) : RowBuilder :=
  let b := b.wrapCurrentLine w
  { b with
    rows := if explicitBreak then b.rows ++ [makeRow w b.currentLine true]
      else b.rows
    currentLine := [] }

/-- The loop of `push_fragment`, and what follows it: `pending` is the part of
the fragment from the last line feed on. -/
def pushFrom (b : RowBuilder) (pending : Text) : Text → RowBuilder
  | [] =>
      if pending = [] then b
      else { b with currentLine := b.currentLine ++ pending }.wrapCurrentLine w
  | c :: rest =>
      if c = '\n' then
        ({ b with
          currentLine := b.currentLine ++ pending }.flushCurrentLine w
          true).pushFrom
          [] rest
      else b.pushFrom (pending ++ [c]) rest

def pushFragment (b : RowBuilder) (fragment : Text) : RowBuilder :=
  if fragment = [] then b else b.pushFrom w [] fragment

def endLine (b : RowBuilder) : RowBuilder := b.flushCurrentLine w true

end RowBuilder

end CodeRs.Display

/-! ## Rows of a text that arrives in fragments

The rows do not depend on how a text is cut, unless a character without a width
opens a row that goes on with one that has a width.  Cut behind it, the text
leaves the character in a row of its own. -/

namespace CodeRs.Display

section Line

variable {cells : Char → ℕ} {m : ℕ} {c : Char}
    {t head suffix : Text} {taken : ℕ}

/-! ## What one round of the loop does -/

theorem wrapLine_nil (cells : Char → ℕ) (m : ℕ) :
    wrapLine cells m [] = ([], []) := by
  rw [wrapLine]

theorem takePrefixByWidth_cons (hm : 0 < m) (c : Char) (t : Text) :
    takePrefixByWidth cells m (c :: t) = takeCols cells m 0 (c :: t) :=
  if_neg fun h =>
    h.elim (fun hzero => absurd hm (by omega)) (List.cons_ne_nil c t)

/-- Without a column the first character is a row. -/
theorem wrapLine_alone (hm : 0 < m)
    (h : takeCols cells m 0 (c :: t) = (head, suffix, 0)) :
    wrapLine cells m (c :: t) =
      ([c] :: (wrapLine cells m t).1, (wrapLine cells m t).2) := by
  rw [wrapLine, takePrefixByWidth_cons hm, h]
  exact dif_pos rfl

theorem exists_cons_of_takeCols
    (h : takeCols cells m 0 t = (head, suffix, taken))
    (htaken : taken ≠ 0) : ∃ c rest, t = c :: rest := by
  refine List.exists_cons_of_ne_nil fun hnil => htaken ?_
  rw [hnil] at h
  cases h
  rfl

theorem length_suffix_lt (h : takeCols cells m 0 t = (head, suffix, taken))
    (htaken : taken ≠ 0) : suffix.length < t.length := by
  obtain ⟨happend, hsum⟩ := takeCols_spec h
  have hhead : head ≠ [] := fun hnil => by
    rw [hnil] at hsum
    exact htaken hsum
  have hpos := List.length_pos_iff.2 hhead
  rw [← happend, List.length_append]
  omega

theorem wrapLine_fits (hm : 0 < m)
    (h : takeCols cells m 0 t = (head, [], taken))
    (htaken : taken ≠ 0) : wrapLine cells m t = ([], t) := by
  obtain ⟨c, rest, rfl⟩ := exists_cons_of_takeCols h htaken
  rw [wrapLine, takePrefixByWidth_cons hm, h]
  simp only [dif_neg htaken, if_pos]

theorem wrapLine_cut (hm : 0 < m)
    (h : takeCols cells m 0 t = (head, suffix, taken))
    (htaken : taken ≠ 0) (hsuffix : suffix ≠ []) :
    wrapLine cells m t =
      (head :: (wrapLine cells m suffix).1, (wrapLine cells m suffix).2) := by
  obtain ⟨c, rest, rfl⟩ := exists_cons_of_takeCols h htaken
  rw [wrapLine, takePrefixByWidth_cons hm, h]
  simp only [dif_neg htaken, if_neg hsuffix]

theorem takeCols_prefix {cols : ℕ} {x y : Text}
    (h : takeCols cells m cols (x ++ y) = (head, suffix, taken)) :
    (∃ z, head = x ++ z ∧
        takeCols cells m cols x = (x, [], cols + (x.map cells).sum)) ∨
      ∃ z, z ≠ [] ∧ x = head ++ z ∧ suffix = z ++ y ∧
        takeCols cells m cols x = (head, z, taken) := by
  induction x generalizing cols head with
  | nil => exact .inl ⟨head, rfl, rfl⟩
  | cons c x ih =>
      rw [List.cons_append] at h
      rcases Nat.lt_trichotomy (cols + cells c) m with hlt | heq | hgt
      · rw [takeCols_step hlt] at h ⊢
        cases h
        rcases ih rfl with ⟨z, hhead, hx⟩ | ⟨z, hz, hx, hsuffix, htake⟩
        · refine .inl ⟨z, congrArg (c :: ·) hhead, ?_⟩
          rw [hx, List.map_cons, List.sum_cons, Nat.add_assoc]
        · refine .inr ⟨z, hz, congrArg (c :: ·) hx, hsuffix, ?_⟩
          rw [htake]
      · rw [takeCols_full heq] at h ⊢
        cases h
        cases x with
        | nil =>
            exact .inl ⟨[], rfl,
              by rw [List.map_singleton, List.sum_singleton, heq]⟩
        | cons d x => exact .inr ⟨d :: x, List.cons_ne_nil d x, rfl, rfl, rfl⟩
      · rw [takeCols_over hgt] at h ⊢
        cases h
        exact .inr ⟨c :: x, List.cons_ne_nil c x, rfl, rfl, rfl⟩

/-! ## Where a line can be cut -/

/-- Wrapping the beginning of a line first, and then what it leaves with the
rest. -/
def wrapTwice (cells : Char → ℕ) (m : ℕ) (x y : Text) : List Text × Text :=
  ((wrapLine cells m x).1 ++ (wrapLine cells m ((wrapLine cells m x).2 ++ y)).1,
    (wrapLine cells m ((wrapLine cells m x).2 ++ y)).2)

/-- It does not matter where the line is cut in two. -/
def LineCuttable (cells : Char → ℕ) (m : ℕ) (t : Text) : Prop :=
  ∀ x y, t = x ++ y → wrapTwice cells m x y = wrapLine cells m t

theorem wrapTwice_nil (y : Text) :
    wrapTwice cells m [] y = wrapLine cells m y := by
  rw [wrapTwice, wrapLine_nil]
  rfl

theorem wrapTwice_of_kept {x y : Text} (h : wrapLine cells m x = ([], x)) :
    wrapTwice cells m x y = wrapLine cells m (x ++ y) := by
  rw [wrapTwice, h]
  rfl

theorem wrapTwice_of_row {x x' y row : Text}
    (h : wrapLine cells m x =
      (row :: (wrapLine cells m x').1, (wrapLine cells m x').2)) :
    wrapTwice cells m x y =
      (row :: (wrapTwice cells m x' y).1, (wrapTwice cells m x' y).2) := by
  rw [wrapTwice, wrapTwice, h]
  rfl

theorem lineCuttable_nil : LineCuttable cells m [] := by
  intro x y h
  obtain ⟨rfl, rfl⟩ := List.append_eq_nil_iff.1 h.symm
  exact wrapTwice_nil []

theorem lineCuttable_alone (hm : 0 < m)
    (h : takeCols cells m 0 (c :: t) = (head, suffix, 0)) :
    LineCuttable cells m (c :: t) ↔ LineCuttable cells m t := by
  -- A beginning of the line is wrapped as the line is.
  have hx : ∀ x y, t = x ++ y →
      wrapTwice cells m (c :: x) y =
        ([c] :: (wrapTwice cells m x y).1, (wrapTwice cells m x y).2) := by
    rintro x y rfl
    have hzero : ∃ head' suffix',
        takeCols cells m 0 (c :: x) = (head', suffix', 0) := by
      rcases takeCols_prefix (x := c :: x) h with
        ⟨z, rfl, htake⟩ | ⟨z, -, -, -, htake⟩
      · have hsum := (takeCols_spec h).2
        rw [List.map_append, List.sum_append] at hsum
        rw [htake]
        exact ⟨_, _, by rw [show 0 + ((c :: x).map cells).sum = 0 by omega]⟩
      · exact ⟨_, _, htake⟩
    obtain ⟨head', suffix', htake⟩ := hzero
    exact wrapTwice_of_row (wrapLine_alone hm htake)
  constructor
  · rintro hcut x y rfl
    have heq := hcut (c :: x) y rfl
    rw [hx x y rfl, wrapLine_alone hm h, Prod.mk.injEq, List.cons.injEq] at heq
    exact Prod.ext heq.1.2 heq.2
  · intro hcut x y hsplit
    cases x with
    | nil => rw [wrapTwice_nil, hsplit, List.nil_append]
    | cons d x =>
        rw [List.cons_append, List.cons.injEq] at hsplit
        obtain ⟨rfl, hsplit⟩ := hsplit
        rw [hx x y hsplit, wrapLine_alone hm h, hcut x y hsplit]

/-- A row that opens with a width is cut off in the same way whatever is behind
it. -/
theorem lineCuttable_fits (hm : 0 < m)
    (h : takeCols cells m 0 (c :: t) = (head, suffix, taken))
    (hc : cells c ≠ 0) (htaken : taken ≠ 0) :
    LineCuttable cells m (c :: t) ↔ LineCuttable cells m suffix := by
  have happend := (takeCols_spec h).1
  constructor
  · intro hcut x y hsplit
    cases x with
    | nil => rw [wrapTwice_nil, hsplit, List.nil_append]
    | cons d x =>
        subst hsplit
        have hwhole : c :: t = (head ++ d :: x) ++ y := by
          rw [List.append_assoc, List.cons_append]
          exact happend.symm
        have htake :
            takeCols cells m 0 (head ++ d :: x) = (head, d :: x, taken) := by
          rcases takeCols_prefix (x := head ++
            d :: x) (y := y) (hwhole ▸ h) with
            ⟨z, hz, -⟩ | ⟨z, -, hz, -, htake⟩
          · have hlength := congrArg List.length hz
            simp only [List.length_append, List.length_cons] at hlength
            omega
          · cases List.append_cancel_left hz
            exact htake
        have hrow := wrapTwice_of_row (y := y)
          (wrapLine_cut hm htake htaken (List.cons_ne_nil d x))
        have heq := hcut _ y hwhole
        rw [hrow, wrapLine_cut hm h htaken (List.cons_ne_nil d _),
          Prod.mk.injEq,
          List.cons.injEq] at heq
        exact Prod.ext heq.1.2 heq.2
  · intro hcut x y hsplit
    cases x with
    | nil => rw [wrapTwice_nil, hsplit, List.nil_append]
    | cons d x =>
        rw [List.cons_append, List.cons.injEq] at hsplit
        obtain ⟨rfl, rfl⟩ := hsplit
        rcases takeCols_prefix (x := c :: x) h with
          ⟨z, -, htake⟩ | ⟨z, hz, -, hsuffix, htake⟩
        · refine wrapTwice_of_kept (wrapLine_fits hm htake ?_)
          rw [List.map_cons, List.sum_cons]
          omega
        · have hne : suffix ≠ [] := by
            rw [hsuffix]
            exact List.append_ne_nil_of_left_ne_nil hz y
          rw [wrapTwice_of_row (wrapLine_cut hm htake htaken hz),
            hcut z y hsuffix,
            wrapLine_cut hm h htaken hne]

/-- A character without a width that opens a row of some width can be cut
off. -/
theorem not_lineCuttable (hm : 0 < m)
    (h : takeCols cells m 0 (c :: t) = (head, suffix, taken))
    (hc : cells c = 0) (htaken : taken ≠ 0) :
    ¬ LineCuttable cells m (c :: t) := by
  intro hcut
  have halone : takeCols cells m 0 [c] = ([c], [], 0) := by
    rw [takeCols_step (by omega), hc]
    rfl
  have htwice := hcut [c] t rfl
  rw [wrapTwice, wrapLine_alone hm halone, wrapLine_nil] at htwice
  by_cases hsuffix : suffix = []
  · rw [hsuffix] at h
    rw [wrapLine_fits hm h htaken] at htwice
    cases htwice
  · rw [wrapLine_cut hm h htaken hsuffix, Prod.mk.injEq, List.cons_append,
      List.cons.injEq] at htwice
    have hsum := (takeCols_spec h).2
    rw [← htwice.1.1, List.map_singleton, List.sum_singleton, hc] at hsum
    exact htaken hsum

/-! ## The rows of a line, counted in columns -/

/-- The column behind a character: a row begins again where one is full, and
before a character that does not fit into it. -/
def nextColumn (cells : Char → ℕ) (m col : ℕ) (c : Char) : ℕ :=
  if col + cells c = m then 0
  else if col + cells c < m then col + cells c
  else if cells c < m then cells c
  else 0

/-- A character without a width is at the beginning of a row, and the next one
in its line that has a width fits. -/
def OpensRow (cells : Char → ℕ) (m col : ℕ) (c : Char) (t : Text) : Prop :=
  col = 0 ∧ cells c = 0 ∧ ∃ d, t.find? (cells · ≠ 0) = some d ∧ cells d ≤ m

/-- From a column on, no character without a width opens a row. -/
def Steady (cells : Char → ℕ) (m : ℕ) : ℕ → Text → Prop
  | _, [] => True
  | col, c :: t =>
      ¬ OpensRow cells m col c t ∧ Steady cells m (nextColumn cells m col c) t

theorem nextColumn_zero (c : Char) :
    nextColumn cells m 0 c = if cells c < m then cells c else 0 := by
  rw [nextColumn, Nat.zero_add]
  split
  next heq => rw [if_neg (Nat.not_lt.2 (Nat.le_of_eq heq.symm))]
  next =>
    split
    next => rfl
    next => rfl

/-- A character that does not fit is where a new row begins. -/
theorem nextColumn_over {col : ℕ} (h : m < col + cells c) :
    nextColumn cells m col c = nextColumn cells m 0 c := by
  rw [nextColumn_zero, nextColumn, if_neg (by omega), if_neg (by omega)]

theorem steady_cons_of_pos {col : ℕ} (hcol : 0 < col) :
    Steady cells m col (c :: t) ↔ Steady cells m (nextColumn cells m col c) t :=
  ⟨fun h => h.2,
    fun h => ⟨fun hopens => absurd hopens.1 (Nat.ne_of_gt hcol), h⟩⟩

theorem steady_cons_of_width {col : ℕ} (hc : cells c ≠ 0) :
    Steady cells m col (c :: t) ↔ Steady cells m (nextColumn cells m col c) t :=
  ⟨fun h => h.2, fun h => ⟨fun hopens => hc hopens.2.1, h⟩⟩

/-- From within a row on, only the rows behind it count. -/
theorem steady_takeCols {col : ℕ} (hcol : 0 < col) (hlt : col < m)
    (h : takeCols cells m col t = (head, suffix, taken)) :
    Steady cells m col t ↔ Steady cells m 0 suffix := by
  induction t generalizing col head with
  | nil =>
      cases h
      exact Iff.rfl
  | cons c t ih =>
      rw [steady_cons_of_pos hcol]
      rcases Nat.lt_trichotomy (col + cells c) m with hstep | heq | hgt
      · rw [takeCols_step hstep] at h
        cases h
        rw [nextColumn, if_neg (Nat.ne_of_lt hstep), if_pos hstep]
        exact ih (by omega) hstep rfl
      · rw [takeCols_full heq] at h
        cases h
        rw [nextColumn, if_pos heq]
      · rw [takeCols_over hgt] at h
        cases h
        rw [nextColumn_over hgt, steady_cons_of_width (by omega)]

/-- A first character that has a width and fits opens a row, and only the rows
behind it count. -/
theorem steady_fits (hc : cells c ≠ 0)
    (h : takeCols cells m 0 (c :: t) = (head, suffix, taken))
    (htaken : taken ≠ 0) : Steady cells m 0 (c :: t) ↔
    Steady cells m 0 suffix := by
  rw [steady_cons_of_width hc, nextColumn_zero]
  rcases Nat.lt_trichotomy (0 + cells c) m with hstep | heq | hgt
  · rw [takeCols_step hstep] at h
    cases h
    rw [Nat.zero_add] at hstep
    rw [if_pos hstep]
    exact steady_takeCols (Nat.pos_of_ne_zero hc) hstep (by rw [Nat.zero_add])
  · rw [takeCols_full heq] at h
    cases h
    rw [if_neg (by omega)]
  · rw [takeCols_over hgt] at h
    cases h
    exact absurd rfl htaken

/-- Characters without a width take no column if and only if the next one that
has a width does not fit. -/
theorem taken_ne_zero_iff (hm : 0 < m)
    (h : takeCols cells m 0 t = (head, suffix, taken)) :
    taken ≠ 0 ↔ ∃ d, t.find? (cells · ≠ 0) = some d ∧ cells d ≤ m := by
  induction t generalizing head with
  | nil =>
      cases h
      simp
  | cons c t ih =>
      by_cases hc : cells c = 0
      · have hstep : 0 + cells c < m := by omega
        rw [takeCols_step hstep, hc] at h
        cases h
        rw [List.find?_cons_of_neg (by simpa using hc)]
        exact ih rfl
      · rw [List.find?_cons_of_pos (by simpa using hc)]
        have hsum := (takeCols_spec h).2
        rcases Nat.lt_or_ge m (0 + cells c) with hgt | hle
        · rw [takeCols_over hgt] at h
          cases h
          simp
          omega
        · refine iff_of_true ?_ ⟨c, rfl, by omega⟩
          rcases Nat.lt_or_eq_of_le hle with hlt | heq
          · rw [takeCols_step hlt] at h
            cases h
            rw [List.map_cons, List.sum_cons] at hsum
            omega
          · rw [takeCols_full heq] at h
            cases h
            exact Nat.ne_of_gt hm

/-- A line can be cut anywhere exactly if no character without a width opens a
row. -/
theorem lineCuttable_iff (hm : 0 < m) (t : Text) :
    LineCuttable cells m t ↔ Steady cells m 0 t := by
  induction hlength : t.length using Nat.strong_induction_on generalizing t with
  | _ length ih =>
      subst hlength
      cases t with
      | nil => exact iff_of_true lineCuttable_nil trivial
      | cons c t =>
          cases htake : takeCols cells m 0 (c :: t) with
          | mk head rest =>
              obtain ⟨suffix, taken⟩ := rest
              have htaken := taken_ne_zero_iff hm htake
              by_cases hzero : taken = 0
              · subst hzero
                rw [lineCuttable_alone hm htake,
                  ih t.length (Nat.lt_succ_self _) t rfl]
                have hnone : ¬ ∃ d, (c :: t).find? (cells · ≠ 0) = some d ∧
                    cells d ≤ m :=
                  fun hsome => htaken.2 hsome rfl
                rw [Steady, nextColumn_zero]
                by_cases hc : cells c = 0
                · rw [List.find?_cons_of_neg (by simpa using hc)] at hnone
                  rw [if_pos (by omega), hc]
                  exact ⟨fun h => ⟨fun hopens => hnone hopens.2.2, h⟩,
                    fun h => h.2⟩
                · have hwide : ¬ cells c ≤ m := fun hle =>
                    hnone ⟨c, List.find?_cons_of_pos (by simpa using hc), hle⟩
                  rw [if_neg (by omega)]
                  exact ⟨fun h => ⟨fun hopens => hc hopens.2.1, h⟩,
                    fun h => h.2⟩
              · by_cases hc : cells c = 0
                · refine iff_of_false (not_lineCuttable hm htake hc hzero)
                    fun hsteady => ?_
                  have hsome := htaken.1 hzero
                  rw [List.find?_cons_of_neg (by simpa using hc)] at hsome
                  exact hsteady.1 ⟨rfl, hc, hsome⟩
                · rw [lineCuttable_fits hm htake hc hzero,
                    steady_fits hc htake hzero]
                  exact ih suffix.length (length_suffix_lt htake hzero)
                    suffix rfl

/-- The beginning of a line that can be cut anywhere can be. -/
theorem Steady.of_append {col : ℕ} {x y : Text}
    (h : Steady cells m col (x ++ y)) :
    Steady cells m col x := by
  induction x generalizing col with
  | nil => trivial
  | cons c x ih =>
      refine ⟨fun ⟨hcol, hc, d, hd, hle⟩ => ?_, ih h.2⟩
      have hfind : (x ++ y).find? (cells · ≠ 0) = some d := by
        rw [List.find?_append, hd]
        rfl
      exact h.1 ⟨hcol, hc, d, hfind, hle⟩

theorem wrapLine_kept (hm : 0 < m) (t : Text) :
    wrapLine cells m (wrapLine cells m t).2 = ([], (wrapLine cells m t).2) := by
  induction hlength : t.length using Nat.strong_induction_on generalizing t with
  | _ length ih =>
      subst hlength
      cases t with
      | nil => rw [wrapLine_nil, wrapLine_nil]
      | cons c t =>
          cases htake : takeCols cells m 0 (c :: t) with
          | mk head rest =>
              obtain ⟨suffix, taken⟩ := rest
              by_cases hzero : taken = 0
              · subst hzero
                rw [wrapLine_alone hm htake]
                exact ih t.length (Nat.lt_succ_self _) t rfl
              · by_cases hsuffix : suffix = []
                · subst hsuffix
                  rw [wrapLine_fits hm htake hzero,
                    wrapLine_fits hm htake hzero]
                · rw [wrapLine_cut hm htake hzero hsuffix]
                  exact ih suffix.length (length_suffix_lt htake hzero)
                    suffix rfl

end Line

/-! ## Lines of a text -/

namespace RowBuilder

variable {w : Widths} {m : ℕ} {rows : List Row} {cur l t : Text}

/-- The rows of a wrapped line that goes on. -/
def softRows (w : Widths) (texts : List Text) : List Row :=
  texts.map (makeRow w · false)

/-- The rows of a wrapped line that has ended. -/
def lineRows (w : Widths) (wrapped : List Text × Text) : List Row :=
  softRows w wrapped.1 ++ [makeRow w wrapped.2 true]

theorem softRows_injective : Function.Injective (softRows w) :=
  List.map_injective_iff.2 fun _ _ h => congrArg Row.text h

theorem lineRows_injective : Function.Injective (lineRows w) := by
  intro a b h
  obtain ⟨hinit, hlast⟩ := List.append_inj' h rfl
  exact Prod.ext (softRows_injective hinit)
    (congrArg Row.text (List.singleton_inj.1 hlast))

theorem pushFragment_eq (b : RowBuilder) (t : Text) :
    b.pushFragment w t = b.pushFrom w [] t := by
  cases t with
  | nil => rfl
  | cons c t => exact if_neg (List.cons_ne_nil c t)

theorem pushFrom_append (b : RowBuilder) (pending : Text)
    (hl : '\n' ∉ l) (t : Text) :
    b.pushFrom w pending (l ++ t) = b.pushFrom w (pending ++ l) t := by
  induction l generalizing pending with
  | nil => rw [List.nil_append, List.append_nil]
  | cons c l ih =>
      rw [List.mem_cons, not_or] at hl
      rw [List.cons_append, pushFrom, if_neg (Ne.symm hl.1), ih _ hl.2,
        List.append_assoc,
        List.singleton_append]

/-- A fragment without a line feed goes on with the line. -/
theorem pushFragment_line (hkept : wrapLine w.cells m cur = ([], cur))
    (hl : '\n' ∉ l) :
    pushFragment w ⟨m, cur, rows⟩ l =
      ⟨m, (wrapLine w.cells m (cur ++ l)).2,
        rows ++ softRows w (wrapLine w.cells m (cur ++ l)).1⟩ := by
  have happend := pushFrom_append (w := w) ⟨m, cur, rows⟩ [] hl []
  rw [List.append_nil, List.nil_append] at happend
  rw [pushFragment_eq, happend, pushFrom]
  split
  next hnil =>
    rw [hnil, List.append_nil, hkept]
    simp [softRows]
  next => rfl

theorem pushFragment_feed (hl : '\n' ∉ l) (t : Text) :
    pushFragment w ⟨m, cur, rows⟩ (l ++ '\n' :: t) =
      pushFragment w ⟨m, [],
        rows ++ lineRows w (wrapLine w.cells m (cur ++ l))⟩ t := by
  rw [pushFragment_eq, pushFragment_eq, pushFrom_append _ _ hl,
    pushFrom, if_pos rfl,
    List.nil_append]
  simp [flushCurrentLine, wrapCurrentLine, lineRows, softRows]

theorem pushFrom_rows (b : RowBuilder) (pending t : Text) (rows : List Row) :
    pushFrom w { b with rows := rows ++ b.rows } pending t =
      { pushFrom w b pending t with
        rows := rows ++ (pushFrom w b pending t).rows } := by
  induction t generalizing b pending with
  | nil =>
      rw [pushFrom, pushFrom]
      split
      next => rfl
      next => simp [wrapCurrentLine]
  | cons c t ih =>
      rw [pushFrom, pushFrom]
      split
      next =>
        rw [← ih]
        simp [flushCurrentLine, wrapCurrentLine]
      next => exact ih b _

/-- The rows that were there can be told from the builder at the end. -/
theorem rows_eq_of_pushFragment {rows' : List Row}
    (h : pushFragment w ⟨m, cur, rows⟩ t = pushFragment w ⟨m, cur, rows'⟩ t) :
    rows = rows' := by
  have hrows : ∀ r : List Row, pushFragment w ⟨m, cur, r⟩ t =
      { pushFragment w ⟨m, cur, []⟩ t with
        rows := r ++ (pushFragment w ⟨m, cur, []⟩ t).rows } := fun r => by
    have hpush := pushFrom_rows (w := w) ⟨m, cur, []⟩ [] t r
    rw [List.append_nil] at hpush
    rw [pushFragment_eq, pushFragment_eq, hpush]
  rw [hrows rows, hrows rows'] at h
  exact List.append_cancel_right (congrArg RowBuilder.rows h)

theorem cuttable_of_lines (hm : 0 < m) {x y : Text}
    (h : ∀ line ∈ (x ++ y).splitOn '\n', LineCuttable w.cells m line) :
    pushFragment w (pushFragment w ⟨m, [], rows⟩ x) y =
      pushFragment w ⟨m, [], rows⟩ (x ++ y) := by
  induction hlength : x.length using
    Nat.strong_induction_on generalizing x rows with
  | _ length ih =>
      subst hlength
      by_cases hx : '\n' ∈ x
      · obtain ⟨l, x, rfl, hl⟩ := List.eq_append_cons_of_mem hx
        rw [List.append_assoc, List.cons_append, pushFragment_feed hl,
          pushFragment_feed hl]
        rw [List.append_assoc, List.cons_append,
          List.splitOn_append_cons_self_of_not_mem hl] at h
        refine ih x.length ?_
          (fun line hline => h line (List.mem_cons_of_mem l hline)) rfl
        rw [List.length_append, List.length_cons]
        omega
      · rw [pushFragment_line (wrapLine_nil _ _) hx, List.nil_append]
        have hkept : wrapLine w.cells m (wrapLine w.cells m x).2 =
            ([], (wrapLine w.cells m x).2) := wrapLine_kept hm x
        by_cases hy : '\n' ∈ y
        · obtain ⟨l, y, rfl, hl⟩ := List.eq_append_cons_of_mem hy
          have hxl : '\n' ∉ x ++ l :=
            fun hmem => (List.mem_append.1 hmem).elim hx hl
          rw [← List.append_assoc,
            List.splitOn_append_cons_self_of_not_mem hxl] at h
          have hcut := h _ List.mem_cons_self x l rfl
          rw [pushFragment_feed hl, ← List.append_assoc, pushFragment_feed hxl,
            List.nil_append,
            ← hcut]
          simp [wrapTwice, lineRows, softRows]
        · have hxy : '\n' ∉ x ++ y :=
            fun hmem => (List.mem_append.1 hmem).elim hx hy
          rw [List.splitOn_eq_singleton hxy] at h
          have hcut := h _ List.mem_cons_self x y rfl
          rw [pushFragment_line hkept hy,
            pushFragment_line (wrapLine_nil _ _) hxy,
            List.nil_append, ← hcut]
          simp [wrapTwice, softRows]

/-- The lines of a text that can be cut can be cut. -/
theorem lines_of_cuttable (hm : 0 < m)
    (h : Cuttable (pushFragment w) ⟨m, [], rows⟩ t) :
    ∀ line ∈ t.splitOn '\n', LineCuttable w.cells m line := by
  induction hlength : t.length using
    Nat.strong_induction_on generalizing t rows with
  | _ length ih =>
      subst hlength
      by_cases ht : '\n' ∈ t
      · obtain ⟨l, t, rfl, hl⟩ := List.eq_append_cons_of_mem ht
        rw [List.splitOn_append_cons_self_of_not_mem hl, List.forall_mem_cons]
        constructor
        · rintro x y rfl
          rw [List.mem_append, not_or] at hl
          have hcut := h x (y ++ '\n' :: t) (List.append_assoc _ _ _)
          have hxy : '\n' ∉ x ++ y :=
            fun hmem => (List.mem_append.1 hmem).elim hl.1 hl.2
          rw [pushFragment_line (wrapLine_nil _ _) hl.1, pushFragment_feed hl.2,
            pushFragment_feed hxy, List.nil_append] at hcut
          have hrows := rows_eq_of_pushFragment hcut
          rw [List.append_assoc, List.nil_append] at hrows
          have hlines : rows ++ lineRows w (wrapTwice w.cells m x y) =
              rows ++ lineRows w (wrapLine w.cells m (x ++ y)) := by
            rw [← hrows]
            simp [lineRows, softRows, wrapTwice]
          exact lineRows_injective (List.append_cancel_left hlines)
        · refine @ih t.length ?_ (rows ++
            lineRows w (wrapLine w.cells m l)) t ?_ rfl
          · rw [List.length_append, List.length_cons]
            omega
          · rintro x y rfl
            have hcut := h (l ++ '\n' :: x) y (by simp)
            rwa [pushFragment_feed hl, pushFragment_feed hl,
              List.nil_append] at hcut
      · rw [List.splitOn_eq_singleton ht, List.forall_mem_singleton]
        rintro x y rfl
        rw [List.mem_append, not_or] at ht
        have hxy : '\n' ∉ x ++ y :=
          fun hmem => (List.mem_append.1 hmem).elim ht.1 ht.2
        have hcut := h x y rfl
        rw [pushFragment_line (wrapLine_nil _ _) ht.1, List.nil_append,
          pushFragment_line (wrapLine_kept hm x) ht.2,
          pushFragment_line (wrapLine_nil _ _) hxy, List.nil_append,
          RowBuilder.mk.injEq, List.append_assoc] at hcut
        refine Prod.ext (softRows_injective (w := w) ?_) hcut.2.1
        have hrows := List.append_cancel_left hcut.2.2
        rw [← hrows]
        simp [softRows, wrapTwice]

end RowBuilder

/-! ## Fragments -/

/-- No character without a width opens a row that goes on with one that has a
width. -/
def SteadyText (w : Widths) (targetWidth : ℕ) (t : Text) : Prop :=
  ∀ line ∈ t.splitOn '\n', Steady w.cells (max targetWidth 1) 0 line

theorem SteadyText.of_append {w : Widths} {targetWidth : ℕ} {x y : Text}
    (h : SteadyText w targetWidth (x ++ y)) : SteadyText w targetWidth x := by
  induction hlength : x.length using Nat.strong_induction_on generalizing x with
  | _ length ih =>
      subst hlength
      by_cases hx : '\n' ∈ x
      · obtain ⟨l, x, rfl, hl⟩ := List.eq_append_cons_of_mem hx
        rw [SteadyText, List.append_assoc, List.cons_append,
          List.splitOn_append_cons_self_of_not_mem hl,
          List.forall_mem_cons] at h
        rw [SteadyText, List.splitOn_append_cons_self_of_not_mem hl,
          List.forall_mem_cons]
        refine ⟨h.1, ih x.length ?_ h.2 rfl⟩
        rw [List.length_append, List.length_cons]
        omega
      · rw [SteadyText, List.splitOn_eq_singleton hx, List.forall_mem_singleton]
        by_cases hy : '\n' ∈ y
        · obtain ⟨l, y, rfl, hl⟩ := List.eq_append_cons_of_mem hy
          have hxl : '\n' ∉ x ++ l :=
            fun hmem => (List.mem_append.1 hmem).elim hx hl
          rw [SteadyText, ← List.append_assoc,
            List.splitOn_append_cons_self_of_not_mem hxl] at h
          exact (h _ List.mem_cons_self).of_append
        · have hxy : '\n' ∉ x ++ y :=
            fun hmem => (List.mem_append.1 hmem).elim hx hy
          rw [SteadyText, List.splitOn_eq_singleton hxy] at h
          exact (h _ List.mem_cons_self).of_append

/-- The rows and the current line of a text are the same however it is cut,
exactly if in no line a character without a width is at the beginning of a row
that goes on with one that has a width. -/
theorem fragmentInvariant_iff (w : Widths) (targetWidth : ℕ) (t : Text) :
    FragmentInvariant (RowBuilder.pushFragment w)
      (RowBuilder.new targetWidth) t ↔
      SteadyText w targetWidth t := by
  have hm : 0 < max targetWidth 1 := by omega
  have hlines : ∀ u,
      Cuttable (RowBuilder.pushFragment w) (RowBuilder.new targetWidth) u ↔
      SteadyText w targetWidth u := by
    intro u
    constructor
    · intro h line hline
      exact (lineCuttable_iff hm line).1
        (RowBuilder.lines_of_cuttable hm h line hline)
    · rintro h x y rfl
      exact RowBuilder.cuttable_of_lines hm fun line hline =>
        (lineCuttable_iff hm line).2 (h line hline)
  constructor
  · exact fun h => (hlines t).1 h.cuttable
  · intro h
    refine FragmentInvariant.of_cuttable rfl fun u hu => (hlines u).2 ?_
    obtain ⟨rest, rfl⟩ := hu
    exact h.of_append

def combiningWidths : Widths where
  char c := some (if c = '\u0301' then 0 else 1)
  str t := (t.map fun c => if c = '\u0301' then 0 else 1).sum

/-- An accent that comes before its letter is a row of its own if it comes
alone. -/
theorem not_fragmentInvariant :
    ¬ ∀ (w : Widths) (targetWidth : ℕ) (t : Text),
      FragmentInvariant (RowBuilder.pushFragment w)
        (RowBuilder.new targetWidth) t := by
  intro h
  have hcut := RowBuilder.lines_of_cuttable (by decide)
    (h combiningWidths 3 ['\u0301', 'a']).cuttable ['\u0301', 'a'] (by decide)
  have htake : takeCols combiningWidths.cells 3 0 ['\u0301', 'a'] =
      (['\u0301', 'a'], [], 1) := by
    decide
  exact not_lineCuttable (by decide) htake (by decide) (by decide) hcut

end CodeRs.Display
