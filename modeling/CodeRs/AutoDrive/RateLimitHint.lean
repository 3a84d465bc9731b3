import CodeRs.Lib.Json
import CodeRs.Lib.Utf8
import Mathlib.Algebra.Field.Rat
import Mathlib.Data.NNRat.Floor

/-!
# The hint of a rate limit

`parse_rate_limit_hint` of `code-auto-drive-core/src/auto_coordinator.rs`: how
long to wait, as the body of a response says it.  A number is an extended
rational with a sign.  What `serde_json` and `chrono` read, and which `f64` is
nearest to a rational, are parameters, and so are the clock and the jitter.  A
conversion or a sum that is out of range panics and has no result.
-/

namespace CodeRs.AutoDrive

/-! ## Numbers -/

/-- An `f64` without its sign. -/
inductive Magnitude where
  | finite (value : ℚ≥0)
  | infinite
  | nan
  deriving DecidableEq

/-- An `f64`.  Zero and what is not a number have a sign too. -/
structure F64 where
  isSignNegative : Bool
  magnitude : Magnitude
  deriving DecidableEq

def splitSign : Text → Bool × Text
  | '-' :: rest => (true, rest)
  | '+' :: rest => (false, rest)
  | rest => (false, rest)

/-- An exponent in lower case, or nothing. -/
def parseExponent : Text → Option ℤ
  | [] => some 0
  | 'e' :: rest =>
      let (negative, digits) := splitSign rest
      if digits ≠ [] ∧ digits.all Char.isDigit = true then
        let size : ℤ := Nat.ofDigitChars 10 digits 0
        some (if negative then -size else size)
      else none
  | _ => none

/-- Digits with a point in or around them, and an exponent. -/
def parseDecimal (text : Text) : Option ℚ≥0 :=
  let int := text.takeWhile Char.isDigit
  let (frac, rest) := match text.dropWhile Char.isDigit with
    | '.' :: rest => (rest.takeWhile Char.isDigit, rest.dropWhile Char.isDigit)
    | rest => ([], rest)
  if int = [] ∧ frac = [] then none
  else (parseExponent rest).map fun exponent : ℤ =>
    (Nat.ofDigitChars 10 (int ++ frac) 0 : ℚ≥0) *
      10 ^ (exponent - (frac.length : ℤ))

/-- `str::parse::<f64>`. -/
def parseF64 (nearest : ℚ≥0 → Magnitude) (text : Text) : Option F64 :=
  let (negative, rest) := splitSign text
  let lower := Text.toAsciiLowercase rest
  if lower = "inf".toList ∨ lower = "infinity".toList then
    some ⟨negative, .infinite⟩
  else if lower = "nan".toList then some ⟨negative, .nan⟩
  else (parseDecimal lower).map fun value => ⟨negative, nearest value⟩

def asF64 (nearest : ℚ≥0 → Magnitude) : Json → Option F64
  | .natural n => some ⟨false, nearest n⟩
  | .number text => parseF64 nearest text.toList
  | _ => none

/-! ## Durations -/

def nanosPerSec : ℕ := 1000000000

/-- The number of seconds from which on a `Duration` overflows. -/
def secondsBound : ℕ := 18446744073709551616

/-- `Duration::MAX`, in nanoseconds as all durations. -/
def durationMax : ℕ := secondsBound * nanosPerSec - 1

/-- The natural number that is nearest to a rational, an even one if there are
two. -/
def roundHalfEven (q : ℚ≥0) : ℕ :=
  let below := ⌊q⌋₊
  if q - below < 1 / 2 then below
  else if q - below = 1 / 2 ∧ below % 2 = 0 then below
  else below + 1

/-- `Duration::from_secs_f64`, for a number without a negative sign. -/
def fromSecsF64 (seconds : F64) : Option ℕ :=
  match seconds.magnitude with
  | .finite value =>
      if value < secondsBound then some (roundHalfEven (value * nanosPerSec))
        else none
  | .infinite | .nan => none

def addDuration (d d' : ℕ) : Option ℕ :=
  if d + d' ≤ durationMax then some (d + d') else none

def rateLimitBuffer : ℕ := 5 * nanosPerSec

def rateLimitJitterMax : ℕ := 3 * nanosPerSec

/-- The present instant, the last one there is, and the jitter that
`random_jitter` gives. -/
structure WaitClock where
  now : ℕ
  last : ℕ
  jitter : ℕ
  jitter_lt : jitter < rateLimitJitterMax

def computeRateLimitWait (clock : WaitClock) (base : ℕ) : Option ℕ := do
  let wait := if 0 < base then base else 0
  let wait ← addDuration wait rateLimitBuffer
  let wait ← addDuration wait clock.jitter
  if clock.now + wait ≤ clock.last then some (clock.now + wait) else none

/-! ## The hint -/

/-- What the libraries read and round.  A date is given by the time to it,
which is zero for one that has passed. -/
structure HintLibraries where
  fromStr : Text → Option Json
  nearest : ℚ≥0 → Magnitude
  untilDate : Text → Option ℕ

variable (libraries : HintLibraries)

/-- The fields of `extract_seconds`. -/
def secondsFields : List String :=
  ["reset_seconds", "reset_in_seconds", "resets_in_seconds",
    "x-ratelimit-reset",
    "x-ratelimit-reset-requests"]

/-- The number of a field, or the one that its text says. -/
def secondsOf (value : Json) : Option F64 :=
  match asF64 libraries.nearest value with
  | some num => some num
  | none => value.asStr.bind fun text => parseF64 libraries.nearest text.toList

/-- The loop of `extract_seconds`. -/
def extractSecondsFrom (value : Json) : List String → Option (Option ℕ)
  | [] => some none
  | key :: rest =>
      match (value.get key).bind (secondsOf libraries) with
      | none => extractSecondsFrom value rest
      | some num =>
          if num.isSignNegative = true then extractSecondsFrom value rest
          else (fromSecsF64 num).map some

def extractSeconds (value : Json) : Option (Option ℕ) :=
  extractSecondsFrom libraries value secondsFields

/-- The duration of `extract_reset_at`. -/
def untilReset (value : Json) : Option ℕ :=
  (value.getStr "reset_at").bind fun resetAt =>
    libraries.untilDate resetAt.toList

/-- The value that is looked into: the error, or else all of the body. -/
def errorObject (value : Json) : Json := (value.get "error").getD value

def parseRateLimitHint (clock : WaitClock) (body : Text) : Option (Option ℕ) :=
  match libraries.fromStr body with
  | none => some none
  | some value =>
      match extractSeconds libraries (errorObject value) with
      | none => none
      | some (some seconds) => (computeRateLimitWait clock seconds).map some
      | some none =>
          match untilReset libraries (errorObject value) with
          | some duration => (computeRateLimitWait clock duration).map some
          | none => some none

/-! ## What is in range -/

/-- A wait of a duration, the buffer and the jitter ends at an instant. -/
def WaitFits (clock : WaitClock) (base : ℕ) : Prop :=
  base + rateLimitBuffer + clock.jitter ≤ durationMax ∧
    clock.now + (base + rateLimitBuffer + clock.jitter) ≤ clock.last

/-- Two sums with one bound and a third with another one. -/
theorem sums_isSome_iff (base buffer jitter max now last : ℕ) :
    ((if base + buffer ≤ max then some (base + buffer) else none).bind
      fun wait =>
      (if wait + jitter ≤ max then some (wait + jitter) else none).bind
        fun wait =>
        if now + wait ≤ last then some (now + wait) else none).isSome = true ↔
      base + buffer + jitter ≤ max ∧ now + (base + buffer + jitter) ≤ last := by
  by_cases hbuffer : base + buffer ≤ max
  · by_cases hjitter : base + buffer + jitter ≤ max
    · simp [hbuffer, hjitter]
    · simp [hbuffer, hjitter]
  · have hjitter : ¬ base + buffer + jitter ≤ max := by omega
    simp [hbuffer, hjitter]

theorem computeRateLimitWait_isSome_iff (clock : WaitClock) (base : ℕ) :
    (computeRateLimitWait clock base).isSome = true ↔ WaitFits clock base := by
  have hbase : (if 0 < base then base else 0) = base := by
    split <;> omega
  have hwait : computeRateLimitWait clock base =
      (addDuration (if 0 < base then base else 0) rateLimitBuffer).bind
        fun wait =>
        (addDuration wait clock.jitter).bind fun wait =>
          if clock.now + wait ≤ clock.last then some (clock.now + wait)
            else none := rfl
  rw [hwait, hbase]
  exact sums_isSome_iff ..

/-- A number of seconds is one that can be waited. -/
def SecondsFit (clock : WaitClock) (seconds : F64) : Prop :=
  ∃ value, seconds.magnitude = .finite value ∧ value < secondsBound ∧
    WaitFits clock (roundHalfEven (value * nanosPerSec))

theorem fromSecsF64_wait_iff (clock : WaitClock) (seconds : F64) :
    (∃ base, fromSecsF64 seconds = some base ∧ WaitFits clock base) ↔
      SecondsFit clock seconds := by
  rw [fromSecsF64, SecondsFit]
  cases hmagnitude : seconds.magnitude with
  | finite value =>
      by_cases hlt : value < secondsBound
      · simp [hlt]
      · simp [hlt]
  | infinite => simp
  | nan => simp

/-- The first number of the fields that is not negative. -/
def firstSeconds (value : Json) : Option F64 :=
  secondsFields.findSome? fun key =>
    ((value.get key).bind (secondsOf libraries)).filter fun num =>
      !num.isSignNegative

/-- The first number that is not negative is converted. -/
theorem extractSeconds_eq (value : Json) :
    extractSeconds libraries value =
      match firstSeconds libraries value with
      | some num => (fromSecsF64 num).map some
      | none => some none := by
  rw [extractSeconds, firstSeconds]
  induction secondsFields with
  | nil => rfl
  | cons key rest ih =>
      rw [extractSecondsFrom, List.findSome?_cons]
      cases (value.get key).bind (secondsOf libraries) with
      | none => exact ih
      | some num =>
          cases hsign : num.isSignNegative with
          | true => simpa [Option.filter, hsign] using ih
          | false => simp [Option.filter, hsign]

/-- The hint of a body is found, or there is none, exactly if the first number
that is not negative is one that can be waited, or else, without such a number,
so is the time to the date. -/
theorem parseRateLimitHint_returns_iff (clock : WaitClock) (body : Text) :
    (parseRateLimitHint libraries clock body).isSome = true ↔
      ∀ value, libraries.fromStr body = some value →
        match firstSeconds libraries (errorObject value) with
        | some seconds => SecondsFit clock seconds
        | none =>
            ∀ duration, untilReset libraries (errorObject value) =
              some duration →
              WaitFits clock duration := by
  rw [parseRateLimitHint]
  cases hbody : libraries.fromStr body with
  | none => simp
  | some value =>
      simp only [Option.some.injEq, forall_eq', extractSeconds_eq]
      cases hfirst : firstSeconds libraries (errorObject value) with
      | some seconds =>
          simp only [← fromSecsF64_wait_iff, ← computeRateLimitWait_isSome_iff]
          cases fromSecsF64 seconds <;> simp
      | none =>
          simp only [← computeRateLimitWait_isSome_iff]
          cases untilReset libraries (errorObject value) <;> simp

/-! ## An infinite number -/

/-- A body that says to wait forever. -/
def infiniteBody : Text := "\x7b\"reset_seconds\":\"inf\"\x7d".toList

/-- Libraries that read the body and round nothing. -/
def infiniteLibraries : HintLibraries where
  fromStr text :=
    if text = infiniteBody then
      some (.object [("reset_seconds", .string "inf")]) else none
  nearest := .finite
  untilDate _ := none

/-- An hour after the start of a clock of 292 years. -/
def startClock : WaitClock where
  now := 3600 * nanosPerSec
  last := 9223372036854775807 * nanosPerSec
  jitter := 0
  jitter_lt := by decide

/-- The conversion of an infinite number panics. -/
theorem not_parseRateLimitHint_returns :
    ¬ ∀ (libraries : HintLibraries) (clock : WaitClock) (body : Text),
      (parseRateLimitHint libraries clock body).isSome = true := by
  intro h
  have hsome := h infiniteLibraries startClock infiniteBody
  have hnone :
      parseRateLimitHint infiniteLibraries startClock infiniteBody = none := by
    rfl
  rw [hnone] at hsome
  cases hsome

end CodeRs.AutoDrive
