import CodeRs.Compaction.Prompt
import CodeRs.Compaction.TruncatedLength
import CodeRs.Lib.Saturating
import CodeRs.Lib.Utf8

/-!
# The collector of command output

`TruncatingCollector` of `core/src/exec_command/session_manager.rs` keeps the
first and the last bytes of an output and the number of all of them.  At the
end it makes of these what `truncate_middle` makes of the whole text.  A slice
that is not cut between characters panics: it is `none`.
-/

namespace CodeRs.ExecCommand

open Compaction (tokensOf truncationNote)

structure TruncatingCollector where
  capBytes : ℕ
  totalBytes : ℕ
  prefixBytes : List UInt8
  suffixBytes : List UInt8
deriving DecidableEq, Repr

def pickPrefixSlice (input : Text) (leftBudget : ℕ) : Option Text :=
  if input.byteLen ≤ leftBudget then some input
  else
    match (input.getTo leftBudget).bind Text.afterLastFeed with
    | some stop => input.getTo stop
    | none => input.getTo (input.floorBoundary leftBudget)

def pickSuffixSlice (input : Text) (rightBudget : ℕ) : Option Text :=
  if input.byteLen ≤ rightBudget then some input
  else
    let tailStart := input.byteLen - rightBudget
    match (input.drain tailStart).bind Text.firstFeed with
    | some idx => input.drain (tailStart + idx + 1)
    | none => input.drain (input.nextBoundary tailStart)

namespace TruncatingCollector

def new (capBytes : ℕ) : TruncatingCollector := ⟨capBytes, 0, [], []⟩

/-- One byte more at the end of the suffix, one less at its front when it is
full. -/
def pushBack (capBytes : ℕ) (suffixBytes : List UInt8)
    (byte : UInt8) : List UInt8 :=
  let suffixBytes := suffixBytes ++ [byte]
  if capBytes < suffixBytes.length then suffixBytes.tail else suffixBytes

def push (c : TruncatingCollector) (chunk : List UInt8) : TruncatingCollector :=
  if chunk = [] then c
  else
    { c with
      totalBytes := satAdd c.totalBytes chunk.length
      prefixBytes :=
        if c.prefixBytes.length < c.capBytes then
          c.prefixBytes ++
            chunk.take (min (c.capBytes - c.prefixBytes.length) chunk.length)
        else c.prefixBytes
      suffixBytes :=
        if 0 < c.capBytes then chunk.foldl (pushBack c.capBytes) c.suffixBytes
        else c.suffixBytes }

/-- The loop of `finalize` that looks for a note about as many tokens as are
cut, with the rounds it has left. -/
def finalizeLoop (c : TruncatingCollector) (prefixStr suffixStr : Text) :
    ℕ → ℕ → Option Text
  | rounds, guessTokens =>
      let marker := truncationNote guessTokens
      let keepBudget := c.capBytes - marker.byteLen
      if keepBudget = 0 then some (truncationNote (tokensOf c.totalBytes))
      else do
        let leftBudget := keepBudget / 2
        let rightBudget := keepBudget - leftBudget
        let prefixSlice ← pickPrefixSlice prefixStr leftBudget
        let suffixSlice ← pickSuffixSlice suffixStr rightBudget
        let out := prefixSlice ++ marker ++ '\n' :: suffixSlice
        match rounds with
        | 0 => return out
        | rounds + 1 =>
            let keptContentBytes := prefixSlice.byteLen + suffixSlice.byteLen
            let newTokens := tokensOf (c.totalBytes - keptContentBytes)
            if newTokens = guessTokens then return out
            else c.finalizeLoop prefixStr suffixStr rounds newTokens

def finalize (c : TruncatingCollector) : Option (Text × Option ℕ) :=
  let estTokens := tokensOf c.totalBytes
  if c.capBytes = 0 then
    if c.totalBytes = 0 then some ([], none)
    else some (truncationNote estTokens, some estTokens)
  else if c.totalBytes ≤ c.capBytes then
    some (Text.fromUtf8Lossy c.prefixBytes, none)
  else do
    let prefixStr := Text.fromUtf8Lossy c.prefixBytes
    let suffixStr := Text.fromUtf8Lossy c.suffixBytes
    let out ← c.finalizeLoop prefixStr suffixStr 4 estTokens
    return (out, some estTokens)

/-- A collector that has got the chunks of a text one after another. -/
def collect (capBytes : ℕ) (chunks : List Text) : TruncatingCollector :=
  (chunks.map Text.utf8).foldl push (new capBytes)

/-! ## What has been kept -/

/-- A collector after some bytes. -/
structure Holds (bytes : List UInt8) (c : TruncatingCollector) : Prop where
  totalBytes_eq : c.totalBytes = bytes.length
  prefixBytes_eq : c.prefixBytes = bytes.take c.capBytes
  suffixBytes_eq : c.suffixBytes = bytes.drop (bytes.length - c.capBytes)

theorem new_holds (capBytes : ℕ) : (new capBytes).Holds [] :=
  ⟨rfl, List.take_nil.symm, List.drop_nil.symm⟩

/-- The suffix stays the last bytes. -/
theorem pushBack_eq (capBytes : ℕ) (bytes : List UInt8) (byte : UInt8) :
    pushBack capBytes (bytes.drop (bytes.length - capBytes)) byte =
      (bytes ++ [byte]).drop ((bytes ++ [byte]).length - capBytes) := by
  have happend : bytes.drop (bytes.length - capBytes) ++ [byte] =
      (bytes ++ [byte]).drop (bytes.length - capBytes) :=
    (List.drop_append_of_le_length (Nat.sub_le _ _)).symm
  rw [pushBack, happend]
  simp only [List.length_drop, List.length_append, List.length_singleton]
  split
  next hfull =>
    rw [List.tail_drop]
    congr 1
    omega
  next hroom =>
    congr 1
    omega

theorem foldl_pushBack_eq (capBytes : ℕ) (bytes chunk : List UInt8) :
    chunk.foldl (pushBack capBytes) (bytes.drop (bytes.length - capBytes)) =
      (bytes ++ chunk).drop ((bytes ++ chunk).length - capBytes) := by
  induction chunk generalizing bytes with
  | nil => rw [List.append_nil, List.foldl_nil]
  | cons byte chunk ih =>
      rw [List.foldl_cons, pushBack_eq, ih, List.append_assoc,
        List.singleton_append]

theorem push_capBytes (c : TruncatingCollector) (chunk : List UInt8) :
    (c.push chunk).capBytes = c.capBytes := by
  rw [push]
  split <;> rfl

theorem Holds.push {bytes : List UInt8} {c : TruncatingCollector}
    (h : c.Holds bytes)
    (chunk : List UInt8) (hfits : (bytes ++ chunk).length ≤ u64Max) :
    (c.push chunk).Holds (bytes ++ chunk) := by
  rw [TruncatingCollector.push]
  split
  next hempty => rwa [hempty, List.append_nil]
  next =>
    refine ⟨?_, ?_, ?_⟩
    · change satAdd c.totalBytes chunk.length = _
      rw [List.length_append] at hfits
      rw [h.totalBytes_eq, List.length_append]
      exact satAdd_eq hfits
    · dsimp only
      rw [h.prefixBytes_eq, List.take_append, List.length_take]
      split
      next hroom =>
        have hlength : min c.capBytes bytes.length = bytes.length := by omega
        rw [hlength, ← List.take_take, List.take_length]
      next hfull =>
        have hnone : c.capBytes - bytes.length = 0 := by omega
        rw [hnone, List.take_zero, List.append_nil]
    · dsimp only
      rw [h.suffixBytes_eq]
      split
      next => exact foldl_pushBack_eq c.capBytes bytes chunk
      next hzero =>
        rw [Nat.eq_zero_of_not_pos hzero, Nat.sub_zero, Nat.sub_zero,
          List.drop_length,
          List.drop_length]

theorem collect_holds (capBytes : ℕ) {chunks : List Text}
    (hfits : Text.byteLen chunks.flatten ≤ u64Max) :
    (collect capBytes chunks).capBytes = capBytes ∧
      (collect capBytes chunks).Holds (Text.utf8 chunks.flatten) := by
  induction chunks using List.reverseRecOn with
  | nil => exact ⟨rfl, new_holds capBytes⟩
  | append_singleton chunks chunk ih =>
      rw [List.flatten_append, List.flatten_singleton] at hfits ⊢
      have hbefore : Text.byteLen chunks.flatten ≤ u64Max := by
        rw [Text.byteLen_append] at hfits
        omega
      obtain ⟨hcap, hholds⟩ := ih hbefore
      have hcollect : collect capBytes (chunks ++ [chunk]) =
          (collect capBytes chunks).push (Text.utf8 chunk) := by
        rw [collect, List.map_append, List.foldl_append]
        rfl
      rw [hcollect, push_capBytes, Text.utf8_append]
      refine ⟨hcap, hholds.push _ ?_⟩
      rwa [← Text.utf8_append, Text.length_utf8]

end TruncatingCollector

end CodeRs.ExecCommand

/-! ## The collector truncates as `truncate_middle` does

The windows that the collector keeps are longer than what is kept of them
beside the note about the cut.  So both cut the same characters off, and none
of the slices panics. -/

namespace CodeRs.ExecCommand

open Compaction
    (tokensOf truncationNote pickPrefixEnd pickSuffixStart cutFor joinCut
  truncateMiddleLoop truncateMiddle pickPrefixEnd_append pickPrefixEnd_spec
  pickSuffixStart_append pickSuffixStart_spec four_le_truncationNote)

/-! ## The slices -/

theorem pickPrefixSlice_eq {input : Text} {leftBudget : ℕ}
    (h : leftBudget < input.byteLen) :
    pickPrefixSlice input leftBudget =
      input.getTo (pickPrefixEnd input leftBudget) := by
  rw [pickPrefixSlice, if_neg (Nat.not_le_of_lt h), pickPrefixEnd]
  cases (input.getTo leftBudget).bind Text.afterLastFeed <;> rfl

theorem pickSuffixSlice_eq {input : Text} {rightBudget : ℕ}
    (h : rightBudget < input.byteLen) :
    pickSuffixSlice input rightBudget =
      input.drain (pickSuffixStart input rightBudget) := by
  simp only [pickSuffixSlice, if_neg (Nat.not_le_of_lt h), pickSuffixStart]
  cases (input.drain (input.byteLen - rightBudget)).bind Text.firstFeed <;> rfl

/-- The first part, found in the whole text and in a window at its beginning. -/
theorem pickPrefixSlice_window {whole rest cut : Text} {leftBudget : ℕ}
    (h : leftBudget < whole.byteLen) :
    ∃ head, pickPrefixSlice (whole ++ cut) leftBudget = some head ∧
      pickPrefixEnd (whole ++ rest) leftBudget = head.byteLen ∧
      (whole ++ rest).truncate head.byteLen = some head ∧
      head.byteLen ≤ leftBudget := by
  have hwindow : leftBudget < Text.byteLen (whole ++ cut) := by
    rw [Text.byteLen_append]
    omega
  obtain ⟨head, tail, rfl, hend, hle⟩ := pickPrefixEnd_spec whole leftBudget
  refine ⟨head, ?_, ?_, ?_, hle⟩
  · rw [pickPrefixSlice_eq hwindow,
      pickPrefixEnd_append cut (Nat.le_of_lt h), hend,
      List.append_assoc, Text.getTo_append_byteLen]
  · rw [pickPrefixEnd_append rest (Nat.le_of_lt h), hend]
  · rw [List.append_assoc, Text.truncate_append_byteLen]

/-- The last part, found in the whole text and in a window at its end. -/
theorem pickSuffixSlice_window {whole rest cut : Text} {rightBudget : ℕ}
    (h : rightBudget < whole.byteLen) :
    ∃ start tail, pickSuffixSlice (cut ++ whole) rightBudget = some tail ∧
      pickSuffixStart (rest ++ whole) rightBudget = start ∧
      (rest ++ whole).drain start = some tail ∧
      start + tail.byteLen = Text.byteLen (rest ++ whole) ∧
      tail.byteLen ≤ rightBudget := by
  have hwindow : rightBudget < Text.byteLen (cut ++ whole) := by
    rw [Text.byteLen_append]
    omega
  obtain ⟨head, tail, rfl, hstart, hle⟩ := pickSuffixStart_spec (Nat.le_of_lt h)
  refine ⟨rest.byteLen + head.byteLen, tail, ?_, ?_, ?_, ?_, hle⟩
  · rw [pickSuffixSlice_eq hwindow,
      pickSuffixStart_append cut (Nat.le_of_lt h), hstart,
      Text.drain_append, Text.drain_append_byteLen]
  · rw [pickSuffixStart_append rest (Nat.le_of_lt h), hstart]
  · rw [Text.drain_append, Text.drain_append_byteLen]
  · rw [Text.byteLen_append, Text.byteLen_append, Nat.add_assoc]

/-! ## The loop -/

/-- Windows of a text that are at most three bytes shorter than the cap. -/
structure Windows (capBytes : ℕ) (t prefixStr suffixStr : Text) : Prop where
  prefix_eq : ∃ whole rest cut, t = whole ++ rest ∧ prefixStr = whole ++ cut ∧
    capBytes < whole.byteLen + 4
  suffix_eq : ∃ rest whole cut, t = rest ++ whole ∧ suffixStr = cut ++ whole ∧
    capBytes < whole.byteLen + 4

/-- Both cut the same characters off for a note, if there is room beside it. -/
theorem Windows.cut {capBytes : ℕ} {t prefixStr suffixStr : Text}
    (h : Windows capBytes t prefixStr suffixStr)
    (hlong : capBytes < t.byteLen) {tokens : ℕ}
    (hroom : capBytes - (truncationNote tokens).byteLen ≠ 0) :
    let keepBudget := capBytes - (truncationNote tokens).byteLen
    ∃ head tail stop start,
      pickPrefixSlice prefixStr (keepBudget / 2) = some head ∧
      pickSuffixSlice suffixStr (keepBudget - keepBudget / 2) = some tail ∧
      cutFor t capBytes tokens = some (stop, start) ∧
      joinCut t tokens stop start =
        head ++ truncationNote tokens ++ '\n' :: tail ∧
      stop = head.byteLen ∧ start + tail.byteLen = t.byteLen ∧
      stop ≤ start := by
  have hnote := four_le_truncationNote tokens
  intro keepBudget
  have hkeep : keepBudget = capBytes - (truncationNote tokens).byteLen := rfl
  obtain ⟨whole, rest, cut, ht, hbeginning, hwhole⟩ := h.prefix_eq
  obtain ⟨rest', whole', cut', ht', hsuffix, hwhole'⟩ := h.suffix_eq
  obtain ⟨head, hhead, hend, htruncate, hheadLe⟩ :=
    @pickPrefixSlice_window whole rest cut (keepBudget / 2) (by omega)
  obtain ⟨start, tail, htail, hstart, hdrain, hlength, htailLe⟩ :=
    @pickSuffixSlice_window whole' rest' cut'
      (keepBudget - keepBudget / 2) (by omega)
  rw [← hbeginning] at hhead
  rw [← hsuffix] at htail
  rw [← ht] at hend htruncate
  rw [← ht'] at hstart hdrain hlength
  refine ⟨head, tail, head.byteLen, start, hhead, htail, ?_, ?_, rfl,
    hlength, by omega⟩
  · simp only [cutFor, if_neg hroom]
    rw [← hkeep, hend, hstart]
  · rw [joinCut, htruncate, hdrain]
    rfl

namespace TruncatingCollector

theorem finalizeLoop_eq {c : TruncatingCollector} {t prefixStr suffixStr : Text}
    (h : Windows c.capBytes t prefixStr suffixStr)
    (htotal : c.totalBytes = t.byteLen)
    (hlong : c.capBytes < t.byteLen) (rounds guessTokens : ℕ) :
    c.finalizeLoop prefixStr suffixStr rounds guessTokens =
      some (truncateMiddleLoop t c.capBytes rounds guessTokens) := by
  induction rounds generalizing guessTokens with
  | zero =>
      rw [finalizeLoop, truncateMiddleLoop]
      by_cases hroom : c.capBytes - (truncationNote guessTokens).byteLen = 0
      · have hnone : cutFor t c.capBytes guessTokens = none := if_pos hroom
        rw [hnone, if_pos hroom, htotal]
      · obtain ⟨head, tail, stop, start, hhead, htail, hcut, hjoin, -⟩ :=
          h.cut hlong hroom
        simp only [if_neg hroom, hhead, htail, hcut, hjoin]
        rfl
  | succ rounds ih =>
      rw [finalizeLoop, truncateMiddleLoop]
      by_cases hroom : c.capBytes - (truncationNote guessTokens).byteLen = 0
      · have hnone : cutFor t c.capBytes guessTokens = none := if_pos hroom
        rw [hnone, if_pos hroom, htotal]
      · obtain ⟨head, tail, stop, start, hhead, htail, hcut, hjoin, hstop,
            hlength, hle⟩ :=
          h.cut hlong hroom
        have hmax : max start stop = start := max_eq_left hle
        have hkept : c.totalBytes - (head.byteLen + tail.byteLen) =
            t.byteLen - (stop + (t.byteLen - start)) := by omega
        simp only [if_neg hroom, hhead, htail, hcut, hmax, hkept, ih, hjoin,
          Option.bind_eq_bind,
          Option.bind_some]
        split <;> rfl

theorem finalize_eq {c : TruncatingCollector} {t : Text}
    (hholds : c.Holds t.utf8) :
    c.finalize = some (truncateMiddle t c.capBytes) := by
  have htotal : c.totalBytes = t.byteLen := by
    rw [hholds.totalBytes_eq, Text.length_utf8]
  rw [finalize, htotal]
  by_cases hshort : t.byteLen ≤ c.capBytes
  · have hbatch : truncateMiddle t c.capBytes = (t, none) := if_pos hshort
    rw [hbatch]
    by_cases hzero : c.capBytes = 0
    · have hempty : t.byteLen = 0 := Nat.eq_zero_of_le_zero (hzero ▸ hshort)
      rw [if_pos hzero, if_pos hempty, Text.byteLen_eq_zero.1 hempty]
    · have hwhole : c.prefixBytes = t.utf8 := by
        rw [hholds.prefixBytes_eq, List.take_of_length_le]
        rwa [Text.length_utf8]
      rw [if_neg hzero, if_pos hshort, hwhole, Text.fromUtf8Lossy_utf8]
  · have hlong : c.capBytes < t.byteLen := Nat.lt_of_not_le hshort
    rw [truncateMiddle]
    by_cases hzero : c.capBytes = 0
    · have hne : t.byteLen ≠ 0 := by omega
      simp only [if_neg hshort, if_pos hzero, if_neg hne]
    · have hdropped : t.byteLen - c.capBytes < t.byteLen := by omega
      obtain ⟨whole, rest, cut, ht, hbeginning, hwhole⟩ :=
        Text.fromUtf8Lossy_take hlong
      obtain ⟨rest', whole', cut', ht', hsuffix, hwhole'⟩ :=
        Text.fromUtf8Lossy_drop hdropped
      have hsuffixBytes := hholds.suffixBytes_eq
      rw [Text.length_utf8] at hsuffixBytes
      rw [← hholds.prefixBytes_eq] at hbeginning
      rw [← hsuffixBytes] at hsuffix
      have hwindows : Windows c.capBytes t (Text.fromUtf8Lossy c.prefixBytes)
          (Text.fromUtf8Lossy c.suffixBytes) :=
        ⟨⟨whole, rest, cut, ht, hbeginning, hwhole⟩,
          rest', whole', cut', ht', hsuffix, by omega⟩
      simp only [if_neg hzero, if_neg hshort,
        finalizeLoop_eq hwindows htotal hlong]
      rfl

end TruncatingCollector

/-- Whatever the chunks of a text are, the collector ends with what
`truncate_middle` makes of the text. -/
theorem finalize_collect (capBytes : ℕ) (chunks : List Text)
    (hfits : Text.byteLen chunks.flatten ≤ u64Max) :
    (TruncatingCollector.collect capBytes chunks).finalize =
      some (truncateMiddle chunks.flatten capBytes) := by
  obtain ⟨hcap, hholds⟩ := TruncatingCollector.collect_holds capBytes hfits
  rw [TruncatingCollector.finalize_eq hholds, hcap]

/-- A text in three chunks that is longer than the cap. -/
theorem finalize_collect_chunks :
    (TruncatingCollector.collect 40 ["äöü".toList, List.replicate 50 'x',
      "€\n".toList]).finalize =
      some (truncateMiddle ["äöü".toList, List.replicate 50 'x',
        "€\n".toList].flatten 40) :=
  finalize_collect 40 _ (by decide)

end CodeRs.ExecCommand
