import CodeRs.Compaction.Prompt
import CodeRs.Lib.Decimal
import CodeRs.Lib.Utf8

/-!
# The length of a truncated text

`truncate_middle` keeps the bytes that its cap leaves beside the note, and puts
a line feed after the note for which there is no room.  So the result is within
the cap exactly if one of the two parts stops short of its share.
-/

namespace CodeRs.Compaction

/-! ## Where the cuts are -/

/-- The end of the first part depends on the first bytes only. -/
theorem pickPrefixEnd_append {s : Text} (t : Text) {leftBudget : ℕ}
    (h : leftBudget ≤ s.byteLen) :
    pickPrefixEnd (s ++ t) leftBudget = pickPrefixEnd s leftBudget := by
  rw [pickPrefixEnd, pickPrefixEnd, Text.getTo_append t h,
    Text.floorBoundary_append t h]

/-- The first part ends between two characters. -/
theorem pickPrefixEnd_spec (s : Text) (leftBudget : ℕ) :
    ∃ head tail : Text, s = head ++ tail ∧
      pickPrefixEnd s leftBudget = head.byteLen ∧
      head.byteLen ≤ leftBudget := by
  rw [pickPrefixEnd]
  cases hget : (s.getTo leftBudget).bind Text.afterLastFeed with
  | none => exact Text.floorBoundary_spec s leftBudget
  | some stop =>
      obtain ⟨before, hbefore, hstop⟩ := Option.bind_eq_some_iff.1 hget
      obtain ⟨rest, rfl, rfl⟩ := Text.exists_of_getTo hbefore
      obtain ⟨head, tail, rfl, rfl⟩ := Text.afterLastFeed_spec hstop
      refine ⟨head, tail ++ rest, List.append_assoc _ _ _, rfl, ?_⟩
      rw [Text.byteLen_append]
      exact Nat.le_add_right _ _

/-- The beginning of the last part depends on the last bytes only. -/
theorem pickSuffixStart_append (s : Text) {t : Text} {rightBudget : ℕ}
    (h : rightBudget ≤ t.byteLen) :
    pickSuffixStart (s ++ t) rightBudget =
      s.byteLen + pickSuffixStart t rightBudget := by
  have htail : Text.byteLen (s ++ t) - rightBudget =
      s.byteLen + (t.byteLen - rightBudget) := by
    rw [Text.byteLen_append]
    omega
  simp only [pickSuffixStart, htail, Text.drain_append,
    Text.nextBoundary_append]
  cases (t.drain (t.byteLen - rightBudget)).bind Text.firstFeed with
  | none => rfl
  | some i => simp [Nat.add_assoc]

/-- The last part begins between two characters. -/
theorem pickSuffixStart_spec {t : Text} {rightBudget : ℕ}
    (h : rightBudget ≤ t.byteLen) :
    ∃ head tail : Text, t = head ++ tail ∧
      pickSuffixStart t rightBudget = head.byteLen ∧
      tail.byteLen ≤ rightBudget := by
  rw [pickSuffixStart]
  cases hget : (t.drain (t.byteLen - rightBudget)).bind Text.firstFeed with
  | none =>
      obtain ⟨head, tail, rfl, hnext, hle⟩ :=
        Text.nextBoundary_spec (Nat.sub_le t.byteLen rightBudget)
      refine ⟨head, tail, rfl, hnext, ?_⟩
      rw [Text.byteLen_append] at hle
      omega
  | some i =>
      obtain ⟨after, hafter, hi⟩ := Option.bind_eq_some_iff.1 hget
      obtain ⟨before, rfl, hbefore⟩ := Text.exists_of_drain hafter
      obtain ⟨head, tail, rfl, hhead⟩ := Text.firstFeed_spec hi
      refine ⟨before ++ head, tail, (List.append_assoc _ _ _).symm, ?_, ?_⟩
      · change Text.byteLen (before ++ (head ++ tail)) - rightBudget + i + 1 = _
        rw [hbefore, Nat.add_assoc, hhead, Text.byteLen_append]
      · rw [Text.byteLen_append, Text.byteLen_append] at hbefore
        rw [Text.byteLen_append, Text.byteLen_append] at h
        omega

/-! ## Notes -/

/-- A note is longer than what is missing of a character. -/
theorem four_le_truncationNote (tokens : ℕ) :
    4 ≤ (truncationNote tokens).byteLen := by
  have hafter : 4 ≤ Text.byteLen " tokens truncated…".toList := by decide
  rw [truncationNote, Text.byteLen_append]
  exact Nat.le_trans hafter (Nat.le_add_left _ _)

/-- What a cap leaves beside a note. -/
def keepBudget (maxBytes tokens : ℕ) : ℕ :=
  maxBytes - (truncationNote tokens).byteLen

variable {s : Text} {maxBytes tokens stop start : ℕ}

theorem cutFor_eq_none : cutFor s maxBytes tokens = none ↔
    keepBudget maxBytes tokens = 0 := by
  rw [cutFor, keepBudget]
  simp

theorem keepBudget_ne_zero
    (hcut : cutFor s maxBytes tokens = some (stop, start)) :
    keepBudget maxBytes tokens ≠ 0 := by
  intro hnone
  rw [cutFor_eq_none.2 hnone] at hcut
  cases hcut

/-! ## One cut -/

/-- A cut leaves two parts of the text, each within its share. -/
structure IsCut (s : Text) (keepBudget stop start : ℕ) : Prop where
  stop_le : stop ≤ keepBudget / 2
  start_le : start ≤ s.byteLen
  rest_le : s.byteLen - start ≤ keepBudget - keepBudget / 2
  truncate_eq : ∃ head, s.truncate stop = some head ∧ head.byteLen = stop
  drain_eq : ∃ tail, s.drain start = some tail ∧
    tail.byteLen = s.byteLen - start

/-- `truncate_middle` never cuts a character. -/
theorem isCut_of_cutFor (hlong : maxBytes < s.byteLen)
    (h : cutFor s maxBytes tokens = some (stop, start)) :
    IsCut s (keepBudget maxBytes tokens) stop start := by
  rw [cutFor] at h
  split at h
  next => cases h
  next =>
    change some (pickPrefixEnd s (keepBudget maxBytes tokens / 2),
      pickSuffixStart s (keepBudget maxBytes tokens -
        keepBudget maxBytes tokens / 2)) = _ at h
    have hright : keepBudget maxBytes tokens - keepBudget maxBytes tokens / 2 ≤
        s.byteLen := by
      rw [keepBudget]
      omega
    obtain ⟨head, rest, hs, hend, hhead⟩ :=
      pickPrefixEnd_spec s (keepBudget maxBytes tokens / 2)
    obtain ⟨rest', tail, hs', hstart, htail⟩ := pickSuffixStart_spec hright
    obtain ⟨rfl, rfl⟩ := Prod.mk.inj (Option.some.inj h)
    have hlength : s.byteLen = rest'.byteLen + tail.byteLen := by
      rw [hs', Text.byteLen_append]
    rw [hend, hstart]
    constructor
    · exact hhead
    · omega
    · omega
    · refine ⟨head, ?_, rfl⟩
      rw [hs, Text.truncate_append_byteLen]
    · refine ⟨tail, ?_, by omega⟩
      rw [hs', Text.drain_append_byteLen]

theorem IsCut.stop_le_start
    (h : IsCut s (keepBudget maxBytes tokens) stop start)
    (hlong : maxBytes < s.byteLen) : stop ≤ start := by
  have hstop := h.stop_le
  have hrest := h.rest_le
  have hstart := h.start_le
  rw [keepBudget] at hstop hrest
  omega

theorem IsCut.byteLen_joinCut {budget : ℕ} (h : IsCut s budget stop start)
    (tokens : ℕ) :
    (joinCut s tokens stop start).byteLen =
      stop + (truncationNote tokens).byteLen + (1 + (s.byteLen - start)) := by
  obtain ⟨head, hhead, hstop⟩ := h.truncate_eq
  obtain ⟨tail, htail, hrest⟩ := h.drain_eq
  have hfeed : Char.utf8Size '\n' = 1 := by decide
  rw [joinCut, hhead, htail, Option.getD_some, Option.getD_some,
    Text.byteLen_append,
    Text.byteLen_append, Text.byteLen_cons, hstop, hrest, hfeed]

/-! ## The note in the end -/

/-- The tokens that are cut off to make room for a note, if there is room
beside it. -/
def cutTokens (s : Text) (maxBytes tokens : ℕ) : ℕ :=
  match cutFor s maxBytes tokens with
  | none => tokens
  | some (stop, start) => tokensOf (s.byteLen - (stop + (s.byteLen - start)))

/-- The tokens of the note: a number that is as many as are cut off for it, or
the last one that is tried. -/
def notedTokens (s : Text) (maxBytes : ℕ) : ℕ → ℕ → ℕ
  | 0, guessTokens => guessTokens
  | rounds + 1, guessTokens =>
      if cutTokens s maxBytes guessTokens = guessTokens then guessTokens
      else notedTokens s maxBytes rounds (cutTokens s maxBytes guessTokens)

theorem truncateMiddleLoop_eq (hlong : maxBytes < s.byteLen)
    (rounds guessTokens : ℕ) :
    truncateMiddleLoop s maxBytes rounds guessTokens =
      match cutFor s maxBytes (notedTokens s maxBytes rounds guessTokens) with
      | none => truncationNote (tokensOf s.byteLen)
      | some (stop, start) =>
          joinCut s (notedTokens s maxBytes rounds guessTokens) stop start := by
  induction rounds generalizing guessTokens with
  | zero =>
      cases hcut : cutFor s maxBytes guessTokens <;>
        simp only [truncateMiddleLoop, notedTokens, hcut]
  | succ rounds ih =>
      rw [truncateMiddleLoop, notedTokens]
      cases hcut : cutFor s maxBytes guessTokens with
      | none => simp only [cutTokens, hcut, if_true]
      | some cut =>
          obtain ⟨stop, start⟩ := cut
          have hmax : max start stop = start :=
            max_eq_left ((isCut_of_cutFor hlong hcut).stop_le_start hlong)
          have htokens : cutTokens s maxBytes guessTokens =
              tokensOf (s.byteLen - (stop + (s.byteLen - start))) := by
            rw [cutTokens, hcut]
          simp only [hmax, htokens]
          split
          next hsame => rw [hcut]
          next => exact ih _

/-! ## Within the cap -/

/-- Both parts of the text use their shares up: there is no line feed to end or
begin a part earlier, and no character across the end of a share. -/
def UsesBudgetUp (s : Text) (keepBudget : ℕ) : Prop :=
  0 < keepBudget ∧ pickPrefixEnd s (keepBudget / 2) = keepBudget / 2 ∧
    pickSuffixStart s (keepBudget - keepBudget / 2) =
      s.byteLen - (keepBudget - keepBudget / 2)

instance (s : Text) (keepBudget : ℕ) : Decidable (UsesBudgetUp s keepBudget) :=
  inferInstanceAs (Decidable (_ ∧ _ ∧ _))

/-- What is cut for the note uses up all that the cap leaves beside it. -/
def Overflows (s : Text) (maxBytes : ℕ) : Prop :=
  maxBytes < s.byteLen ∧
    UsesBudgetUp s (keepBudget maxBytes
      (notedTokens s maxBytes 4 (tokensOf s.byteLen)))

instance (s : Text) (maxBytes : ℕ) : Decidable (Overflows s maxBytes) :=
  inferInstanceAs (Decidable (_ ∧ _))

theorem usesBudgetUp_iff
    (hcut : cutFor s maxBytes tokens = some (stop, start)) :
    UsesBudgetUp s (keepBudget maxBytes tokens) ↔
      stop = keepBudget maxBytes tokens / 2 ∧
        start = s.byteLen -
          (keepBudget maxBytes tokens - keepBudget maxBytes tokens / 2) := by
  have hroom := keepBudget_ne_zero hcut
  have hcut' : cutFor s maxBytes tokens =
      some (pickPrefixEnd s (keepBudget maxBytes tokens / 2),
        pickSuffixStart s (keepBudget maxBytes tokens -
          keepBudget maxBytes tokens / 2)) :=
    if_neg hroom
  obtain ⟨rfl, rfl⟩ := Prod.mk.inj (Option.some.inj (hcut.symm.trans hcut'))
  rw [UsesBudgetUp, and_iff_right (Nat.pos_of_ne_zero hroom)]

/-- Two parts and a note are longer than the cap only if both parts use their
shares up. -/
theorem byteLen_joinCut_le_iff (hlong : maxBytes < s.byteLen)
    (hcut : cutFor s maxBytes tokens = some (stop, start)) :
    (joinCut s tokens stop start).byteLen ≤ maxBytes ↔
      ¬ UsesBudgetUp s (keepBudget maxBytes tokens) := by
  have hroom := keepBudget_ne_zero hcut
  have hiscut := isCut_of_cutFor hlong hcut
  have hstop := hiscut.stop_le
  have hstart := hiscut.start_le
  have hrest := hiscut.rest_le
  rw [hiscut.byteLen_joinCut, usesBudgetUp_iff hcut]
  rw [keepBudget] at hroom hstop hrest ⊢
  omega

/-- A note that leaves no room is not tried again. -/
theorem keepBudget_ne_zero_of_noted {rounds guessTokens : ℕ}
    (h : keepBudget maxBytes (notedTokens s maxBytes rounds guessTokens) ≠ 0) :
    keepBudget maxBytes guessTokens ≠ 0 := by
  intro hnone
  have hcut : cutTokens s maxBytes guessTokens = guessTokens := by
    rw [cutTokens, cutFor_eq_none.2 hnone]
  cases rounds with
  | zero => exact h hnone
  | succ rounds =>
      rw [notedTokens, if_pos hcut] at h
      exact h hnone

/-- With a cap that a note alone is within, the result is within the cap
exactly if what is cut for the note leaves a byte of the cap for the line
feed. -/
theorem truncateMiddle_le_iff (s : Text) (maxBytes : ℕ) :
    ((truncationNote (tokensOf s.byteLen)).byteLen ≤ maxBytes →
      (truncateMiddle s maxBytes).1.byteLen ≤ maxBytes) ↔
      ¬ Overflows s maxBytes := by
  rw [truncateMiddle]
  by_cases hshort : s.byteLen ≤ maxBytes
  · simp only [if_pos hshort]
    exact iff_of_true (fun _ => hshort) fun h =>
      absurd h.1 (Nat.not_lt_of_le hshort)
  have hlong : maxBytes < s.byteLen := Nat.lt_of_not_le hshort
  have hbare :
      keepBudget maxBytes (notedTokens s maxBytes 4 (tokensOf s.byteLen)) = 0 →
      ¬ Overflows s maxBytes := by
    intro hnone h
    exact absurd hnone (Nat.ne_of_gt h.2.1)
  by_cases hzero : maxBytes = 0
  · have hnone :
        keepBudget maxBytes (notedTokens s maxBytes 4 (tokensOf s.byteLen)) =
          0 := by
      rw [keepBudget, hzero, Nat.zero_sub]
    simp only [if_neg hshort, if_pos hzero]
    exact iff_of_true id (hbare hnone)
  · simp only [if_neg hshort, if_neg hzero, truncateMiddleLoop_eq hlong]
    cases hcut : cutFor s maxBytes
      (notedTokens s maxBytes 4 (tokensOf s.byteLen)) with
    | none => exact iff_of_true id (hbare (cutFor_eq_none.1 hcut))
    | some cut =>
        obtain ⟨stop, start⟩ := cut
        have hroom := keepBudget_ne_zero_of_noted (keepBudget_ne_zero hcut)
        have hnote :
            (truncationNote (tokensOf s.byteLen)).byteLen ≤ maxBytes := by
          rw [keepBudget] at hroom
          omega
        rw [Overflows, and_iff_right hlong, ← byteLen_joinCut_le_iff hlong hcut]
        exact ⟨fun h => h hnote, fun h _ => h⟩

/-- Forty letters with a cap of thirty bytes. -/
theorem not_truncateMiddle_le_fortyLetters :
    (truncationNote (tokensOf (Text.byteLen (List.replicate 40 'a')))).byteLen ≤
      30 ∧
      (truncateMiddle (List.replicate 40 'a') 30).1.byteLen = 31 := by
  decide

end CodeRs.Compaction

/-! ## The parts of a truncated text

What `truncate_middle` returns for a text that is too long is the note alone,
or the beginning of the text, the note, a line feed and the end of the text.
The note is about as many tokens as are cut off if one of the guesses at this
number is right for its own cut: the loop stops at such a guess, and after its
last round no other one is tried. -/

namespace CodeRs.Compaction

variable {s : Text} {maxBytes : ℕ}

/-! ## The guesses -/

/-- The `i`-th guess: the tokens that make room for the guess before it. -/
def guess (s : Text) (maxBytes i : ℕ) : ℕ :=
  (cutTokens s maxBytes)^[i] (tokensOf s.byteLen)

/-- One of the guesses that are tried is right for its own cut. -/
def Settles (s : Text) (maxBytes : ℕ) : Prop :=
  ∃ i ≤ 4, cutTokens s maxBytes (guess s maxBytes i) = guess s maxBytes i

/-- The loop ends with a guess that is right, if it comes upon one. -/
theorem cutTokens_notedTokens {rounds i guessTokens : ℕ} (hi : i ≤ rounds)
    (h : cutTokens s maxBytes ((cutTokens s maxBytes)^[i] guessTokens) =
      (cutTokens s maxBytes)^[i] guessTokens) :
    cutTokens s maxBytes (notedTokens s maxBytes rounds guessTokens) =
      notedTokens s maxBytes rounds guessTokens := by
  induction rounds generalizing i guessTokens with
  | zero =>
      obtain rfl : i = 0 := Nat.eq_zero_of_le_zero hi
      exact h
  | succ rounds ih =>
      rw [notedTokens]
      split
      next hright => exact hright
      next hwrong =>
        cases i with
        | zero => exact absurd h hwrong
        | succ i =>
            apply ih (Nat.le_of_succ_le_succ hi)
            exact h

theorem cutTokens_le {tokens : ℕ} (h : tokens ≤ tokensOf s.byteLen) :
    cutTokens s maxBytes tokens ≤ tokensOf s.byteLen := by
  rw [cutTokens]
  split
  next => exact h
  next stop start _ =>
    simp only [tokensOf]
    omega

theorem notedTokens_le {rounds guessTokens : ℕ}
    (h : guessTokens ≤ tokensOf s.byteLen) :
    notedTokens s maxBytes rounds guessTokens ≤ tokensOf s.byteLen := by
  induction rounds generalizing guessTokens with
  | zero => exact h
  | succ rounds ih =>
      rw [notedTokens]
      split
      · exact h
      · exact ih (cutTokens_le h)

/-- A note about fewer tokens leaves at least as much room. -/
theorem keepBudget_anti (maxBytes : ℕ) {fewer more : ℕ} (h : fewer ≤ more) :
    keepBudget maxBytes more ≤ keepBudget maxBytes fewer := by
  have hdigits := Text.byteLen_decimal_mono h
  simp only [keepBudget, truncationNote, Text.byteLen_append,
    Text.toList_toString]
  omega

/-! ## The parts -/

/-- `truncate_on_boundary` slices between two characters. -/
theorem isSome_getTo_floorBoundary (s : Text) (maxLen : ℕ) :
    (s.getTo (s.floorBoundary maxLen)).isSome := by
  obtain ⟨head, tail, rfl, hfloor, -⟩ := Text.floorBoundary_spec s maxLen
  rw [hfloor, Text.getTo_append_byteLen]
  rfl

/-- A result with the two parts of the text that a note about `tokens` leaves,
and `middle` that is cut off.  The two slices that are copied do not panic. -/
structure Parts (s result : Text) (head middle tail : Text)
    (tokens : ℕ) : Prop where
  text_eq : s = head ++ middle ++ tail
  result_eq : result = head ++ truncationNote tokens ++ '\n' :: tail
  head_slice : s.getTo head.byteLen = some head
  tail_slice : s.drain (head ++ middle).byteLen = some tail

theorem exists_parts {tokens stop start : ℕ} (hlong : maxBytes < s.byteLen)
    (hcut : cutFor s maxBytes tokens = some (stop, start)) :
    ∃ head middle tail,
      Parts s (joinCut s tokens stop start) head middle tail tokens ∧
      cutTokens s maxBytes tokens = tokensOf middle.byteLen := by
  have hiscut := isCut_of_cutFor hlong hcut
  have hle := hiscut.stop_le_start hlong
  obtain ⟨head, hhead, rfl⟩ := hiscut.truncate_eq
  obtain ⟨tail, htail, -⟩ := hiscut.drain_eq
  obtain ⟨rest, hrest⟩ := Text.exists_of_truncate hhead
  obtain ⟨front, hfront, rfl⟩ := Text.exists_of_drain htail
  -- The end begins after the beginning, so the beginning is a part of what is
  -- before it.
  have hmiddle : ∃ middle, front = head ++ middle := by
    obtain ⟨middle, hmiddle, -⟩ | ⟨extra, hextra, -⟩ :=
      List.append_eq_append_iff.1 (hrest.symm.trans hfront)
    · exact ⟨middle, hmiddle⟩
    · refine ⟨[], ?_⟩
      rw [hextra, Text.byteLen_append] at hle
      have hnil : extra = [] := Text.byteLen_eq_zero.1 (by omega)
      rw [hextra, hnil, List.append_nil, List.append_nil]
  obtain ⟨middle, rfl⟩ := hmiddle
  refine ⟨head, middle, tail, ⟨hfront, ?_, ?_, htail⟩, ?_⟩
  · rw [joinCut, hhead, htail]
    rfl
  · rw [hfront, List.append_assoc, Text.getTo_append_byteLen]
  · rw [cutTokens, hcut, hfront]
    simp only [Text.byteLen_append]
    exact congrArg tokensOf (by omega)

/-- A text that is too long is replaced by the note alone where the first note
leaves no room.  Otherwise a beginning and an end of it stay, cut between
characters, and the note is about as many tokens as are cut off in between if
one of the guesses is right. -/
theorem truncateMiddle_parts (s : Text) (maxBytes : ℕ)
    (hlong : maxBytes < s.byteLen) :
    (∀ maxLen, (s.getTo (s.floorBoundary maxLen)).isSome) ∧
      if keepBudget maxBytes (tokensOf s.byteLen) = 0 then
        (truncateMiddle s maxBytes).1 = truncationNote (tokensOf s.byteLen)
      else
        ∃ head middle tail tokens,
          Parts s (truncateMiddle s maxBytes).1 head middle tail tokens ∧
            (Settles s maxBytes → tokens = tokensOf middle.byteLen) := by
  refine ⟨isSome_getTo_floorBoundary s, ?_⟩
  rw [truncateMiddle]
  simp only [if_neg (Nat.not_le_of_lt hlong)]
  split
  next hnone =>
    have hcut : cutFor s maxBytes (tokensOf s.byteLen) = none :=
      cutFor_eq_none.2 hnone
    split
    · rfl
    · simp only [truncateMiddleLoop, hcut]
  next hroom =>
    have hzero : maxBytes ≠ 0 := by
      rintro rfl
      exact hroom (Nat.zero_sub _)
    rw [if_neg hzero]
    -- No later note is longer than the first one.
    have hnoted :
        keepBudget maxBytes (notedTokens s maxBytes 4 (tokensOf s.byteLen)) ≠
          0 := by
      have hnotes :
          notedTokens s maxBytes 4 (tokensOf s.byteLen) ≤ tokensOf s.byteLen :=
        notedTokens_le (Nat.le_refl _)
      have hle := keepBudget_anti maxBytes hnotes
      omega
    rw [truncateMiddleLoop_eq hlong]
    cases hcut : cutFor s maxBytes
      (notedTokens s maxBytes 4 (tokensOf s.byteLen)) with
    | none => exact absurd (cutFor_eq_none.1 hcut) hnoted
    | some cut =>
        obtain ⟨stop, start⟩ := cut
        obtain ⟨head, middle, tail, hparts, hcutTokens⟩ :=
          exists_parts hlong hcut
        refine ⟨head, middle, tail, _, hparts, ?_⟩
        rintro ⟨i, hi, hright⟩
        rw [← hcutTokens, cutTokens_notedTokens hi hright]

/-- Of forty letters and a cap of thirty bytes, three letters stay on each
side. -/
theorem truncateMiddle_parts_fortyLetters :
    ∃ head middle tail tokens,
      Parts (List.replicate 40 'a')
        (truncateMiddle (List.replicate 40 'a') 30).1 head middle
        tail tokens ∧ tokens = tokensOf middle.byteLen := by
  have hparts := (truncateMiddle_parts (List.replicate 40 'a') 30 (by decide)).2
  rw [if_neg (by decide)] at hparts
  obtain ⟨head, middle, tail, tokens, hparts, htokens⟩ := hparts
  exact ⟨head, middle, tail, tokens, hparts, htokens ⟨1, by decide, by decide⟩⟩

/-- Where a note leaves no room, there is no line feed and nothing else beside
it. -/
theorem not_parts_of_no_room :
    ¬ ∀ (s : Text) (maxBytes : ℕ), maxBytes < s.byteLen →
      ∃ head middle tail tokens,
        Parts s (truncateMiddle s maxBytes).1 head middle tail tokens ∧
        tokens = tokensOf middle.byteLen := by
  intro h
  obtain ⟨head, middle, tail, tokens, hparts, -⟩ :=
    h (List.replicate 40 'a') 20 (by decide)
  have hfeed : '\n' ∈ (truncateMiddle (List.replicate 40 'a') 20).1 := by
    rw [hparts.result_eq]
    exact List.mem_append_right _ List.mem_cons_self
  revert hfeed
  decide

end CodeRs.Compaction
