import CodeRs.Lib.Decimal
import CodeRs.Lib.Lists
import Mathlib.Algebra.Group.Int.Defs
import Mathlib.Data.List.Basic
import Mathlib.Order.Basic

/-!
# Dates

Days are counted from 1970-01-01, and a date is one of the proleptic Gregorian
calendar. Different days have different dates, and different seconds are
written differently.
-/

namespace CodeRs.Calendar

open Text (padded padded_injective length_padded isDigit_of_mem_padded)

/-- A year, a month and a day, both from 1. -/
structure Date where
  year : ℤ
  month : ℕ
  day : ℕ
  deriving DecidableEq

/-- The position of a day in the calendar, which repeats after 146097 days.  A
year is counted from March, so that a leap day is the last day of its year,
century and era. -/
structure Position where
  era : ℤ
  century : ℤ
  quad : ℤ
  year : ℤ
  day : ℤ

def position (day : ℤ) : Position :=
  let dayOfEra := (day + 719468) % 146097
  let century := min (dayOfEra / 36524) 3
  let dayOfCentury := dayOfEra - 36524 * century
  let quad := dayOfCentury / 1461
  let dayOfQuad := dayOfCentury - 1461 * quad
  let year := min (dayOfQuad / 365) 3
  ⟨(day + 719468) / 146097, century, quad, year, dayOfQuad - 365 * year⟩

structure Position.InRange (p : Position) : Prop where
  century : 0 ≤ p.century ∧ p.century ≤ 3
  quad : 0 ≤ p.quad ∧ p.quad ≤ 24
  year : 0 ≤ p.year ∧ p.year ≤ 3
  day : 0 ≤ p.day ∧ p.day ≤ 365

theorem position_inRange (day : ℤ) : (position day).InRange := by
  have hera := Int.emod_nonneg (day + 719468) (b := 146097) (by decide)
  have hlt := Int.emod_lt_of_pos (day + 719468) (b := 146097) (by decide)
  simp only [position]
  generalize (day + 719468) % 146097 = d at hera hlt
  have hcentury : 0 ≤ min (d / 36524) 3 ∧ min (d / 36524) 3 ≤ 3 := by omega
  have hday : 0 ≤ d - 36524 * min (d / 36524) 3 ∧
      d - 36524 * min (d / 36524) 3 ≤ 36524 := by
    omega
  generalize d - 36524 * min (d / 36524) 3 = r at hday
  have hquad : 0 ≤ r / 1461 ∧ r / 1461 ≤ 24 := by omega
  have hrest : 0 ≤ r - 1461 * (r / 1461) ∧ r - 1461 * (r / 1461) ≤ 1460 := by
    omega
  refine ⟨hcentury, hquad, ?_, ?_⟩
  · generalize r - 1461 * (r / 1461) = s at hrest
    simp only
    omega
  · generalize r - 1461 * (r / 1461) = s at hrest
    simp only
    omega

theorem eq_of_position (day : ℤ) :
    day + 719468 = 146097 * (position day).era +
      36524 * (position day).century +
      1461 * (position day).quad + 365 * (position day).year +
      (position day).day := by
  have hera := Int.mul_ediv_add_emod (day + 719468) 146097
  simp only [position]
  omega

/-- The date of a day. -/
def civil (day : ℤ) : Date :=
  let p := position day
  let month := (5 * p.day + 2) / 153
  { year := 400 * p.era + 100 * p.century + 4 * p.quad + p.year +
      if 10 ≤ month then 1 else 0
    month := (if 10 ≤ month then month - 9 else month + 3).toNat
    day := (p.day - (153 * month + 2) / 5 + 1).toNat }

-- The last day of a February in a leap year, and the day after it.
example : civil 19782 = ⟨2024, 2, 29⟩ ∧ civil 19783 = ⟨2024, 3, 1⟩ := by decide

theorem civil_lt (day : ℤ) :
    (civil day).month < 100 ∧ (civil day).day < 100 := by
  obtain ⟨hlow, hhigh⟩ := (position_inRange day).day
  simp only [civil]
  generalize (position day).day = d at hlow hhigh
  constructor
  · split
    · omega
    · omega
  · omega

/-- Different days have different dates. -/
theorem civil_injective : Function.Injective civil := by
  intro a b h
  have ha := position_inRange a
  have hb := position_inRange b
  have hpa := eq_of_position a
  have hpb := eq_of_position b
  obtain ⟨hyear, hmonth, hday⟩ : (civil a).year = (civil b).year ∧
      (civil a).month = (civil b).month ∧ (civil a).day = (civil b).day := by
    rw [h]
    exact ⟨rfl, rfl, rfl⟩
  simp only [civil] at hyear hmonth hday
  generalize position a = p at ha hpa hyear hmonth hday
  generalize position b = q at hb hpb hyear hmonth hday
  obtain ⟨hca, hqa, hya, hda⟩ := ha
  obtain ⟨hcb, hqb, hyb, hdb⟩ := hb
  -- The month tells its position in the year, so the years from March are
  -- equal.
  have hm : (5 * p.day + 2) / 153 = (5 * q.day + 2) / 153 := by
    split at hmonth <;> split at hmonth <;> omega
  have hdays : p.day = q.day := by
    rw [hm] at hday
    omega
  have hyears : 400 * p.era + 100 * p.century + 4 * p.quad + p.year =
      400 * q.era + 100 * q.century + 4 * q.quad + q.year := by
    rw [hm] at hyear
    exact add_right_cancel hyear
  have hera : p.era = q.era := by omega
  have hcentury : p.century = q.century := by omega
  have hquad : p.quad = q.quad := by omega
  have hone : p.year = q.year := by omega
  omega

/-! ## Text -/

def yearSign (year : ℤ) : Char := if 0 ≤ year then '+' else '-'

/-- `%Y`: four digits, and a sign where these are not enough. -/
def yearText (year : ℤ) : Text :=
  if 0 ≤ year ∧ year < 10000 then padded 4 year.toNat
    else yearSign year :: padded 4 year.natAbs

theorem yearSign_eq_iff {a b : ℤ} :
    yearSign a = yearSign b ↔ (0 ≤ a ↔ 0 ≤ b) := by
  rw [yearSign, yearSign]
  by_cases ha : 0 ≤ a
  · by_cases hb : 0 ≤ b
    · simp [ha, hb]
    · simp [ha, hb]
  · by_cases hb : 0 ≤ b
    · simp [ha, hb]
    · simp [ha, hb]

theorem padded_ne_signed (width n : ℕ) (year : ℤ) (rest : Text) :
    padded width n ≠ yearSign year :: rest := by
  intro h
  have hdigit : (yearSign year).isDigit = true :=
    isDigit_of_mem_padded (h ▸ List.mem_cons_self)
  rw [yearSign] at hdigit
  split at hdigit
  · cases hdigit
  · cases hdigit

theorem yearText_injective : Function.Injective yearText := by
  intro a b h
  rw [yearText, yearText] at h
  by_cases ha : 0 ≤ a ∧ a < 10000
  · rw [if_pos ha] at h
    by_cases hb : 0 ≤ b ∧ b < 10000
    · rw [if_pos hb] at h
      have heq := padded_injective 4 h
      omega
    · rw [if_neg hb] at h
      exact absurd h (padded_ne_signed 4 _ _ _)
  · rw [if_neg ha] at h
    by_cases hb : 0 ≤ b ∧ b < 10000
    · rw [if_pos hb] at h
      exact absurd h.symm (padded_ne_signed 4 _ _ _)
    · rw [if_neg hb] at h
      obtain ⟨hsign, hrest⟩ := List.cons.inj h
      have heq := padded_injective 4 hrest
      have hiff := yearSign_eq_iff.1 hsign
      omega

/-- `%Y-%m-%d`. -/
def dateText (date : Date) : Text :=
  yearText date.year ++ ('-' :: padded 2 date.month ++ '-' :: padded 2 date.day)

/-- `%H-%M-%S`, of a number of seconds. -/
def clockText (second : ℕ) : Text :=
  padded 2 (second / 3600) ++
    ('-' :: padded 2 (second / 60 % 60) ++ '-' :: padded 2 (second % 60))

/-- `%Y-%m-%dT%H-%M-%S`, of the seconds since 1970. -/
def stampText (second : ℤ) : Text :=
  dateText (civil (second / 86400)) ++ 'T' :: clockText (second % 86400).toNat

/-- The characters of a date: digits and signs. -/
theorem notMem_dateText (date : Date) : 'T' ∉ dateText date := by
  have hpadded : ∀ width n : ℕ, 'T' ∉ padded width n := by
    intro width n h
    cases isDigit_of_mem_padded h
  have hyear : 'T' ∉ yearText date.year := by
    rw [yearText, yearSign]
    split
    · exact hpadded 4 _
    · intro h
      rcases List.mem_cons.1 h with hsign | hrest
      · split at hsign
        · cases hsign
        · cases hsign
      · exact hpadded 4 _ hrest
  simp [dateText, hyear, hpadded]

theorem dateText_inj {a b : Date} (ha : a.month < 100 ∧ a.day < 100)
    (hb : b.month < 100 ∧ b.day < 100) (h : dateText a = dateText b) :
    a = b := by
  have hlength : ∀ {m d : ℕ}, m < 100 → d < 100 →
      ('-' :: padded 2 m ++ '-' :: padded 2 d).length = 6 := by
    intro m d hm hd
    simp [length_padded (by decide : 0 < 2) hm,
      length_padded (by decide : 0 < 2) hd]
  obtain ⟨hyear, hrest⟩ :=
    List.append_inj' h ((hlength ha.1 ha.2).trans (hlength hb.1 hb.2).symm)
  have hmonths : (padded 2 a.month).length = (padded 2 b.month).length := by
    rw [length_padded (by decide) ha.1, length_padded (by decide) hb.1]
  obtain ⟨hmonth, hday⟩ := List.append_inj (List.cons.inj hrest).2 hmonths
  have hy := yearText_injective hyear
  have hm := padded_injective 2 hmonth
  have hd := padded_injective 2 (List.cons.inj hday).2
  cases a
  cases b
  simp only at hy hm hd
  rw [hy, hm, hd]

theorem length_clockText {second : ℕ} (h : second < 86400) :
    (clockText second).length = 8 := by
  have hhour : second / 3600 < 10 ^ 2 := by omega
  have hminute : second / 60 % 60 < 10 ^ 2 := by omega
  have hsecond : second % 60 < 10 ^ 2 := by omega
  simp [clockText, length_padded (by decide : 0 < 2) hhour,
    length_padded (by decide : 0 < 2) hminute,
    length_padded (by decide : 0 < 2) hsecond]

theorem clockText_inj {a b : ℕ} (ha : a < 86400) (hb : b < 86400)
    (h : clockText a = clockText b) : a = b := by
  have hlength : ∀ {n : ℕ}, n < 100 → (padded 2 n).length = 2 :=
    fun hn => length_padded (by decide) hn
  obtain ⟨hhour, hrest⟩ := List.append_inj h
    ((hlength (by omega)).trans (hlength (by omega)).symm)
  obtain ⟨hminute, hlast⟩ := List.append_inj (List.cons.inj hrest).2
    ((hlength (by omega)).trans (hlength (by omega)).symm)
  have hh := padded_injective 2 hhour
  have hm := padded_injective 2 hminute
  have hs := padded_injective 2 (List.cons.inj hlast).2
  omega

/-- Different seconds are written differently, whatever is written behind
them. -/
theorem stampText_append_inj {a b : ℤ} {s t : Text}
    (h : stampText a ++ s = stampText b ++ t) : a = b ∧ s = t := by
  have hclock : ∀ n : ℤ, (n % 86400).toNat < 86400 := by
    intro n
    omega
  simp only [stampText, List.append_assoc, List.cons_append] at h
  obtain ⟨hdate, hrest⟩ :=
    append_cons_inj (notMem_dateText _) (notMem_dateText _) h
  obtain ⟨hseconds, htail⟩ := List.append_inj hrest
    ((length_clockText (hclock a)).trans (length_clockText (hclock b)).symm)
  have hdays := civil_injective (dateText_inj (civil_lt _) (civil_lt _) hdate)
  have hsecond := clockText_inj (hclock a) (hclock b) hseconds
  exact ⟨by omega, htail⟩

-- The time of 1767268805 seconds after 1970.
example : stampText 1767268805 = "2026-01-01T12-00-05".toList := by decide

end CodeRs.Calendar
