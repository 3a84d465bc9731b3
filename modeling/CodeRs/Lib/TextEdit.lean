import CodeRs.Lib.Utf8

/-!
# Editing a text at byte positions

What is replaced in a text lies between two character boundaries.  The
boundaries in front of it stay where they are, and those behind it move by the
difference of the lengths.
-/

namespace CodeRs.Text

/-! ## Finding by a property -/

/-- `str::find` for a property of characters. -/
def find (p : Char → Bool) (t : Text) : Option ℕ :=
  if t.any p then some (byteLen (t.takeWhile fun c => !p c)) else none

/-- `str::rfind` for a property of characters. -/
def rfind (p : Char → Bool) (t : Text) : Option ℕ :=
  match t.reverse.dropWhile fun c => !p c with
  | [] => none
  | _ :: before => some (byteLen before.reverse)

variable {p : Char → Bool} {t : Text} {n : ℕ}

theorem find_spec (h : find p t = some n) :
    ∃ (before : Text) (c : Char) (after : Text),
      t = before ++ c :: after ∧ p c = true ∧
      n = before.byteLen := by
  rw [find] at h
  split at h
  next hany =>
    cases h
    cases hrest : t.dropWhile fun c => !p c with
    | nil =>
        obtain ⟨c, hc, hp⟩ := List.any_eq_true.1 hany
        have hnot := List.dropWhile_eq_nil_iff.1 hrest c hc
        rw [hp] at hnot
        cases hnot
    | cons c rest =>
        have hhead := List.head?_dropWhile_not (fun c => !p c) t
        rw [hrest] at hhead
        refine ⟨t.takeWhile fun c => !p c, c, rest, ?_,
          by simpa using hhead, rfl⟩
        rw [← hrest, List.takeWhile_append_dropWhile]
  next => cases h

theorem rfind_spec (h : rfind p t = some n) :
    ∃ (before : Text) (c : Char) (after : Text),
      t = before ++ c :: after ∧ p c = true ∧
      n = before.byteLen := by
  rw [rfind] at h
  split at h
  next => cases h
  next c before hrest =>
    cases h
    have hhead := List.head?_dropWhile_not (fun c => !p c) t.reverse
    rw [hrest] at hhead
    refine ⟨before.reverse, c, (t.reverse.takeWhile fun c => !p c).reverse, ?_,
      by simpa using hhead, rfl⟩
    have hsplit :=
      List.takeWhile_append_dropWhile (p := fun c => !p c) (l := t.reverse)
    rw [hrest] at hsplit
    have hrev := congrArg List.reverse hsplit
    rw [List.reverse_reverse, List.reverse_append, List.reverse_cons,
      List.append_assoc,
      List.singleton_append] at hrev
    exact hrev.symm

/-! ## Boundaries of the parts of a text -/

/-- Two boundaries in their order cut a text into three parts. -/
theorem IsBoundary.exists_parts {start stop : ℕ} (hstart : t.IsBoundary start)
    (hstop : t.IsBoundary stop) (hle : start ≤ stop) :
    ∃ head old tail : Text, t = head ++ old ++ tail ∧ start = head.byteLen ∧
      stop = head.byteLen + old.byteLen := by
  obtain ⟨head, rest, rfl, rfl⟩ := hstart
  obtain ⟨old, tail, rfl, hlen⟩ := hstop.exists_split hle
  exact ⟨head, old, tail, (List.append_assoc head old tail).symm, rfl, hlen⟩

theorem IsBoundary.append_left {s : Text} (h : s.IsBoundary n) (t : Text) :
    (s ++ t : Text).IsBoundary n :=
  (isBoundary_append_left t h.le_byteLen).2 h

theorem IsBoundary.append_right (h : t.IsBoundary n) (s : Text) :
    (s ++ t : Text).IsBoundary (s.byteLen + n) :=
  (isBoundary_append_right s t n).2 h

theorem isBoundary_length_append (s t : Text) :
    (s ++ t : Text).IsBoundary s.byteLen :=
  ⟨s, t, rfl, rfl⟩

theorem IsBoundary.getTo_eq (h : t.IsBoundary n) :
    ∃ head tail : Text, t = head ++ tail ∧ n = head.byteLen ∧
      getTo t n = some head ∧
      drain t n = some tail := by
  obtain ⟨head, tail, rfl, rfl⟩ := h
  exact ⟨head, tail, rfl, rfl, getTo_append_byteLen head tail,
    drain_append_byteLen head tail⟩

theorem slice_of_boundaries {start stop : ℕ} (hstart : t.IsBoundary start)
    (hstop : t.IsBoundary stop) (hle : start ≤ stop) :
    ∃ head part tail : Text, t = head ++ part ++ tail ∧ start = head.byteLen ∧
      stop = head.byteLen + part.byteLen ∧ slice t start stop = some part := by
  obtain ⟨head, part, tail, rfl, rfl, rfl⟩ := hstart.exists_parts hstop hle
  exact ⟨head, part, tail, rfl, rfl, rfl, slice_append head part tail⟩

/-! ## Replacing -/

/-- `String::replace_range`: it panics unless the range lies between character
boundaries. -/
def replaceRange (t : Text) (start stop : ℕ) (new : Text) : Option Text :=
  if start ≤ stop then
    (getTo t start).bind fun head => (drain t stop).map fun tail =>
      head ++ new ++ tail
  else none

def insertStr (t : Text) (pos : ℕ) (new : Text) : Option Text :=
  t.replaceRange pos pos new

theorem replaceRange_append (head old tail new : Text) :
    replaceRange (head ++ old ++ tail) head.byteLen
      (head.byteLen + old.byteLen) new =
      some (head ++ new ++ tail) := by
  have hdrain :
      drain (head ++ old ++ tail) (head.byteLen + old.byteLen) = some tail := by
    rw [← byteLen_append]
    exact drain_append_byteLen _ tail
  have hgetTo : getTo (head ++ old ++ tail) head.byteLen = some head := by
    rw [List.append_assoc]
    exact getTo_append_byteLen head _
  rw [replaceRange, if_pos (Nat.le_add_right _ _), hgetTo, hdrain]
  rfl

/-- Only what lies between two boundaries is replaced. -/
theorem boundaries_of_replaceRange {start stop : ℕ} {new edited : Text}
    (h : replaceRange t start stop new = some edited) :
    t.IsBoundary start ∧ t.IsBoundary stop := by
  rw [replaceRange] at h
  split at h
  next =>
    obtain ⟨head, hhead, htail⟩ := Option.bind_eq_some_iff.1 h
    obtain ⟨tail, htail, -⟩ := Option.map_eq_some_iff.1 htail
    exact ⟨isSome_getTo_iff.1 (Option.isSome_of_eq_some hhead),
      isSome_drain_iff.1 (Option.isSome_of_eq_some htail)⟩
  next => cases h

end CodeRs.Text
