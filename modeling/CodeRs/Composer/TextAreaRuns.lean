import CodeRs.Composer.TextAreaCursor

/-!
# Runs of the text area

The cursor is on a character boundary after every call of a run exactly if each
call is given positions on boundaries, and each new text has one where the
cursor was.
-/

namespace CodeRs.Composer

open Text

namespace TextArea

/-- The positions that a call is given, and the cursor that it keeps, are on
character boundaries of the text that they are for. -/
def Meets (u : Unicode) (s : TextArea) : TextAreaOp → Prop
  | .setText text => text.IsBoundary (min s.cursorPos text.byteLen)
  | .setCursor pos => s.text.IsBoundary (min pos s.text.byteLen)
  | .insertStrAt pos _ => s.text.IsBoundary pos
  | .replaceRange start stop text => start ≤ stop ∧
      ((min stop s.text.byteLen - min start s.text.byteLen = 0 ∧
        text.byteLen = 0) ∨
        (s.text.IsBoundary start ∧ s.text.IsBoundary stop))
  | .desiredHeight width => Wraps u s width
  | .cursorPosWithState width => Wraps u s width
  | _ => True

instance (u : Unicode) (s : TextArea) (width : ℕ) :
    Decidable (Wraps u s width) :=
  inferInstanceAs (Decidable (_ ∨ _))

instance (u : Unicode) (s : TextArea) (op : TextAreaOp) :
    Decidable (Meets u s op) := by
  cases op <;> (dsimp only [Meets]; infer_instance)

variable {u : Unicode} {s t : TextArea}

/-- Nothing is replaced by nothing, wherever this is. -/
theorem stays_replaceRange_of_meets (h : s.OnBoundaries)
    {start stop : ℕ} {text : Text}
    (hmeets : Meets u s (.replaceRange start stop text)) :
    Stays (s.replaceRange start stop text) := by
  obtain ⟨hle, hnothing | ⟨hstart, hstop⟩⟩ := hmeets
  · simp only [TextArea.replaceRange, if_pos hle, if_pos hnothing]
    exact h.pushUndoSnapshot.stays
  · exact stays_replaceRange h hstart hstop hle text

/-- A call that meets the condition does not panic, and leaves all on
boundaries. -/
theorem stays_call (hu : u.Lawful) (h : s.OnBoundaries) {op : TextAreaOp}
    (hmeets : Meets u s op) : Stays (s.call u op) := by
  cases op with
  | setText text => exact (h.edit hmeets).stays
  | setCursor pos => exact (h.setCursor hmeets).stays
  | insertStr text => exact h.insertStrAt h.cursor text
  | insertStrAt pos text => exact h.insertStrAt hmeets text
  | replaceRange start stop text => exact stays_replaceRange_of_meets h hmeets
  | deleteBackward n => exact stays_deleteBackward hu h n
  | deleteForward n => exact stays_deleteForward hu h n
  | deleteBackwardWord => exact stays_deleteBackwardWord h
  | deleteForwardWord => exact stays_deleteForwardWord h
  | killToEndOfLine => exact stays_killToEndOfLine h
  | killToBeginningOfLine => exact stays_killToBeginningOfLine h
  | deleteEntireLine => exact stays_deleteEntireLine h
  | undo => exact h.undo.stays
  | moveCursorLeft =>
      exact (h.move (prevAtomicBoundary_spec hu h.cursor).1 none).stays
  | moveCursorRight =>
      exact (h.move (nextAtomicBoundary_spec hu h.cursor).1 none).stays
  | moveCursorUp => exact stays_moveCursorUp hu h
  | moveCursorDown => exact stays_moveCursorDown hu h
  | moveCursorToBeginningOfLine up =>
      exact stays_moveCursorToBeginningOfLine h up
  | moveCursorToEndOfLine down => exact stays_moveCursorToEndOfLine h down
  | moveToPreviousWord =>
      obtain ⟨start, hstart, hb, -⟩ := beginningOfPreviousWord_spec h.cursor
      rw [call, hstart]
      exact stays_setCursor h hb
  | moveToNextWord =>
      obtain ⟨stop, hstop, hb, -⟩ := endOfNextWord_spec h.cursor
      rw [call, hstop]
      exact stays_setCursor h hb
  | desiredHeight width => exact stays_desiredHeight hu h hmeets
  | cursorPosWithState width => exact stays_cursorPosWithState hu h hmeets

/-! ## Calls that do not meet the condition -/

theorem ne_owned_of_mapM {text : Text} {wrapped : List WrappedLine}
    {lines : List LineRange}
    (h : wrapped.mapM (lineRange text) = some lines) :
    ∀ line ∈ wrapped, line ≠ .owned := by
  induction wrapped generalizing lines with
  | nil => exact fun _ hline => absurd hline List.not_mem_nil
  | cons line rest ih =>
      rw [List.mapM_cons] at h
      obtain ⟨range, hrange, hrest⟩ := Option.bind_eq_some_iff.1 h
      obtain ⟨ranges, hranges, -⟩ := Option.bind_eq_some_iff.1 hrest
      refine List.forall_mem_cons.2 ⟨fun howned => ?_, ih hranges⟩
      rw [howned] at hrange
      cases hrange

theorem wraps_of_wrappedLines {width : ℕ} {result : TextArea × List LineRange}
    (h : s.wrappedLines u width = some result) : Wraps u s width := by
  rw [wrappedLines] at h
  split at h
  next cache hcache => exact .inl (by rw [hcache]; exact Option.some_ne_none _)
  next =>
    obtain ⟨lines, hlines, -⟩ := Option.bind_eq_some_iff.1 h
    exact .inr (ne_owned_of_mapM hlines)

theorem meets_of_call {op : TextAreaOp} (hcall : s.call u op = some t)
    (ht : t.text.IsBoundary t.cursorPos) : Meets u s op := by
  cases op with
  | setText text =>
      obtain rfl := Option.some.inj hcall
      exact ht
  | setCursor pos =>
      obtain rfl := Option.some.inj hcall
      exact ht
  | insertStrAt pos text =>
      obtain ⟨edited, hedited, -⟩ := Option.map_eq_some_iff.1 hcall
      exact (boundaries_of_replaceRange hedited).1
  | replaceRange start stop text =>
      simp only [call, TextArea.replaceRange] at hcall
      split at hcall
      next hle =>
        refine ⟨hle, ?_⟩
        split at hcall
        next hnothing => exact .inl hnothing
        next =>
          obtain ⟨edited, hedited, -⟩ := Option.map_eq_some_iff.1 hcall
          exact .inr (boundaries_of_replaceRange hedited)
      next => cases hcall
  | desiredHeight width =>
      obtain ⟨result, hresult, -⟩ := Option.map_eq_some_iff.1 hcall
      obtain ⟨lines, hlines, -⟩ := Option.map_eq_some_iff.1 hresult
      exact wraps_of_wrappedLines hlines
  | cursorPosWithState width =>
      obtain ⟨result, hresult, -⟩ := Option.map_eq_some_iff.1 hcall
      obtain ⟨lines, hlines, -⟩ := Option.bind_eq_some_iff.1 hresult
      exact wraps_of_wrappedLines hlines
  | _ => trivial

end TextArea

/-! ## Runs -/

/-- A call in a run.  Nothing is called after a panic. -/
def nextTextArea (u : Unicode) (s : Option TextArea) (op : TextAreaOp) :
    Option TextArea :=
  s.bind fun s => s.call u op

/-- No call has panicked, and the cursor is on a character boundary within the
text. -/
def CursorOnBoundary (s : Option TextArea) : Prop :=
  ∃ t, s = some t ∧ t.cursorPos ≤ t.text.byteLen ∧ t.text.IsBoundary t.cursorPos

/-- The next call, if there is one, meets the condition. -/
def MeetsNext (u : Unicode) : Option TextArea → TextAreaOp → Prop
  | none, _ => True
  | some s, op => s.Meets u op

instance (u : Unicode) : (s : Option TextArea) → (op : TextAreaOp) →
    Decidable (MeetsNext u s op)
  | none, _ => inferInstanceAs (Decidable True)
  | some s, op => inferInstanceAs (Decidable (s.Meets u op))

theorem cursorOnBoundary_of_stays {s : Option TextArea} (h : TextArea.Stays s) :
    CursorOnBoundary s := by
  obtain ⟨t, rfl, ht⟩ := h
  exact ⟨t, rfl, ht.cursor.le_byteLen, ht.cursor⟩

/-- In every state of a run the cursor is on a character boundary exactly if
each call meets the condition in the state before it. -/
theorem throughout_cursorOnBoundary_iff {u : Unicode} (hu : u.Lawful)
    (ops : List TextAreaOp) :
    Throughout (nextTextArea u) CursorOnBoundary (some {}) ops ↔
      Along (nextTextArea u) (MeetsNext u) (some {}) ops := by
  refine throughout_iff_along_of_inv (P := TextArea.Stays)
    (fun s hs => cursorOnBoundary_of_stays hs) ?_ ?_
    TextArea.OnBoundaries.new.stays ops
  · rintro s op ⟨t, rfl, ht⟩ hmeets
    exact TextArea.stays_call hu ht hmeets
  · rintro s op ⟨t, rfl, -⟩ ⟨t', hcall, -, ht'⟩
    exact TextArea.meets_of_call hcall ht'

/-- Every character is a grapheme of one column, and no line is too long. -/
def Unicode.charwise : Unicode where
  graphemes text := text.map fun c => [c]
  width := List.length
  prevBoundary text pos := .ok (some (Text.floorBoundary text (pos - 1)))
  nextBoundary text pos :=
    .ok (if pos < text.byteLen then some (Text.nextBoundary text (pos + 1))
      else none)
  wrap _ text := [.borrowed 0 text.byteLen]

theorem Unicode.charwise_lawful : Unicode.charwise.Lawful where
  graphemes_flatten text := by simp [charwise, ← List.flatMap_def]
  prevBoundary_ok text pos _ := by
    obtain ⟨head, tail, ht, hfloor, hle⟩ := floorBoundary_spec text (pos - 1)
    refine ⟨_, rfl, fun b hb => ?_⟩
    obtain rfl := Option.some.inj hb
    exact ⟨⟨head, tail, ht, hfloor.symm⟩, by omega⟩
  nextBoundary_ok text pos _ := by
    refine ⟨_, rfl, fun b hb => ?_⟩
    split at hb
    next hlt =>
      obtain rfl := Option.some.inj hb
      obtain ⟨head, tail, ht, hnext, hle⟩ :=
        nextBoundary_spec (t := text) (n := pos + 1) hlt
      exact ⟨⟨head, tail, ht, hnext.symm⟩, by omega⟩
    next => cases hb
  wrap_borrowed _ text start stop h := by
    obtain ⟨rfl, rfl⟩ := WrappedLine.borrowed.inj (List.mem_singleton.1 h)
    exact ⟨isBoundary_zero _, isBoundary_byteLen _, Nat.zero_le _⟩

/-- Moving and deleting in a text with wide characters. -/
theorem throughout_cursorOnBoundary_charwise :
    Throughout (nextTextArea .charwise) CursorOnBoundary (some {})
      [.insertStr "aé b".toList, .desiredHeight 20, .moveCursorUp,
        .moveCursorRight,
        .moveCursorRight, .deleteBackward 1, .undo, .setText "éa".toList] :=
  (throughout_cursorOnBoundary_iff Unicode.charwise_lawful _).2 (by decide)

/-- `set_text` leaves the cursor behind the first byte of a character, and the
next insertion panics. -/
theorem not_cursorOnBoundary_after_setText :
    ¬ Throughout (nextTextArea .charwise) CursorOnBoundary (some {})
        [.insertStr "a".toList, .setText "é".toList] ∧
      after (nextTextArea .charwise) (some {})
        [.insertStr "a".toList, .setText "é".toList, .insertStr "b".toList] =
        none := by
  refine ⟨?_, rfl⟩
  rintro ⟨-, -, t, ht, -, hboundary⟩
  obtain rfl := Option.some.inj ht
  exact absurd hboundary (by decide)

end CodeRs.Composer
