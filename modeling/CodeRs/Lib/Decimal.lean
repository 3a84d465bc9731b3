import CodeRs.Lib.Saturating
import CodeRs.Lib.Utf8

/-!
# Numbers as decimal text

`u64::to_string` writes the decimal digits of a number and `str::parse::<u64>`
reads them back.  The reader also takes a leading plus and leading zeros; it
refuses an empty text, any other character and a number beyond the largest one.
-/

namespace CodeRs.Text

/-- `u64::to_string`. -/
def decimal (n : ℕ) : Text := Nat.toDigits 10 n

/-- The digits that `parse` reads: all of the text, or what comes after a
plus. -/
def unsigned : Text → Text
  | '+' :: digits => digits
  | digits => digits

/-- `str::parse::<u64>`. -/
def parseU64 (t : Text) : Option ℕ :=
  let digits := unsigned t
  if digits ≠ [] ∧ digits.all Char.isDigit = true ∧
    Nat.ofDigitChars 10 digits 0 ≤ u64Max then
    some (Nat.ofDigitChars 10 digits 0)
  else none

theorem isDigit_of_mem_decimal {n : ℕ} {c : Char} (h : c ∈ decimal n) :
    c.isDigit = true :=
  Nat.isDigit_of_mem_toDigits (by decide) (by decide) h

theorem decimal_ne_nil (n : ℕ) : decimal n ≠ [] := Nat.toDigits_ne_nil

theorem unsigned_eq {t : Text} (h : t.all Char.isDigit = true) :
    unsigned t = t := by
  unfold unsigned
  split
  · simp only [List.all_cons, Bool.and_eq_true] at h
    exact absurd h.1 (by decide)
  · rfl

/-- A number is read back from what was written for it. -/
theorem parseU64_decimal {n : ℕ} (h : n ≤ u64Max) :
    parseU64 (decimal n) = some n := by
  have hdigits : (decimal n).all Char.isDigit = true :=
    List.all_eq_true.2 fun c hc => isDigit_of_mem_decimal hc
  have hvalue : Nat.ofDigitChars 10 (decimal n) 0 = n :=
    Nat.ofDigitChars_ten_toDigits
  simp only [parseU64, unsigned_eq hdigits, hvalue]
  rw [if_pos ⟨decimal_ne_nil n, hdigits, h⟩]

/-! ## The length of a number -/

theorem decimal_isAscii (n : ℕ) : (decimal n).IsAscii := by
  intro c hc
  have hbounds : 48 ≤ c.toNat ∧ c.toNat ≤ 57 := by
    simpa [Char.isDigit, UInt32.le_iff_toNat_le] using isDigit_of_mem_decimal hc
  omega

theorem toList_toString (n : ℕ) : (toString n).toList = decimal n :=
  Nat.toList_repr

/-- A greater number has at least as many digits. -/
theorem byteLen_decimal_mono {m n : ℕ} (h : m ≤ n) :
    (decimal m).byteLen ≤ (decimal n).byteLen := by
  rw [(decimal_isAscii m).byteLen_eq, (decimal_isAscii n).byteLen_eq]
  have hpos : 0 < (decimal n).length := Nat.length_toDigits_pos
  have hn : n < 10 ^ (decimal n).length :=
    (Nat.length_toDigits_le_iff (by decide) hpos).1 (Nat.le_refl _)
  exact (Nat.length_toDigits_le_iff (by decide) hpos).2
    (Nat.lt_of_le_of_lt h hn)

/-! ## White space around a number -/

theorem isWhitespace_of_isDigit {c : Char} (h : c.isDigit = true) :
    isWhitespace c = false := by
  have hbounds : 48 ≤ c.toNat ∧ c.toNat ≤ 57 := by
    simpa [Char.isDigit, UInt32.le_iff_toNat_le] using h
  simp only [isWhitespace]
  obtain ⟨hlow, hhigh⟩ := hbounds
  generalize c.toNat = n at hlow hhigh ⊢
  simp
  omega

/-- A text without white space at its ends is its own `trim`. -/
theorem trim_eq_of_no_space {t : Text}
    (h : ∀ c ∈ t, isWhitespace c = false) : trim t = t := by
  have hdrop : ∀ u : Text, (∀ c ∈ u, isWhitespace c = false) →
      u.dropWhile isWhitespace = u := by
    intro u hu
    cases u with
    | nil => rfl
    | cons c cs =>
        rw [List.dropWhile_cons_of_neg (by simp [hu c (List.mem_cons_self ..)])]
  rw [trim, trimEnd, hdrop t h, hdrop t.reverse (by simpa using h),
    List.reverse_reverse]

theorem trim_decimal (n : ℕ) : trim (decimal n) = decimal n :=
  trim_eq_of_no_space fun _ hc =>
    isWhitespace_of_isDigit (isDigit_of_mem_decimal hc)

/-! ## Numbers of a fixed width -/

/-- A number in at least as many digits. -/
def padded (width n : ℕ) : Text :=
  List.replicate (width - (decimal n).length) '0' ++ decimal n

theorem isDigit_of_mem_padded {width n : ℕ} {c : Char}
    (h : c ∈ padded width n) :
    c.isDigit = true := by
  rcases List.mem_append.1 h with hzero | hdigit
  · rw [List.eq_of_mem_replicate hzero]
    rfl
  · exact isDigit_of_mem_decimal hdigit

/-- Leading zeros do not change what is read. -/
theorem ofDigitChars_padded (width n : ℕ) :
    Nat.ofDigitChars 10 (padded width n) 0 = n := by
  rw [padded, Nat.ofDigitChars_append,
    Nat.ofDigitChars_replicate_zero, Nat.mul_zero]
  exact Nat.ofDigitChars_ten_toDigits

theorem padded_injective (width : ℕ) : Function.Injective (padded width) := by
  intro m n h
  rw [← ofDigitChars_padded width m, h, ofDigitChars_padded]

/-- A number that is small enough has exactly as many digits. -/
theorem length_padded {width n : ℕ} (hwidth : 0 < width) (hn : n < 10 ^ width) :
    (padded width n).length = width := by
  have hle : (decimal n).length ≤ width :=
    (Nat.length_toDigits_le_iff (by decide) hwidth).2 hn
  rw [padded, List.length_append, List.length_replicate]
  exact Nat.sub_add_cancel hle

end CodeRs.Text
