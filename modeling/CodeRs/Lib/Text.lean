import Mathlib.Data.List.Infix

/-!
# Text as a sequence of Unicode scalar values

A Rust `String` is a sequence of Unicode scalar values that is measured and cut
in UTF-8 bytes.  This module keeps the characters and defines the byte-indexed
operations on top of them.  An operation that panics when its index is not a
character boundary returns `none` there, so a cut inside a code point is
visible to every caller.
-/

namespace CodeRs

/-- A Rust `String` or `&str`. -/
abbrev Text := List Char

instance Text.instLawfulBEq : LawfulBEq Text := inferInstance

namespace Text

/-- `str::len`: the number of UTF-8 bytes. -/
def byteLen : Text → ℕ
  | [] => 0
  | c :: cs => c.utf8Size + byteLen cs

@[simp] theorem byteLen_nil : byteLen [] = 0 := rfl

@[simp] theorem byteLen_cons (c : Char) (cs : Text) :
    byteLen (c :: cs) = c.utf8Size + byteLen cs := rfl

@[simp] theorem byteLen_append (s t : Text) :
    byteLen (s ++ t) = byteLen s + byteLen t := by
  induction s with
  | nil => simp
  | cons c cs ih => simp [ih, Nat.add_assoc]

theorem byteLen_replicate (n : ℕ) (c : Char) :
    byteLen (List.replicate n c) = n * c.utf8Size := by
  induction n with
  | zero => simp
  | succ n ih =>
      rw [List.replicate_succ, byteLen_cons, ih, Nat.succ_mul, Nat.add_comm]

/-- `String::truncate`: keep the first `n` bytes.  A length beyond the end keeps
everything, and an index inside a character panics. -/
def truncate : Text → ℕ → Option Text
  | _, 0 => some []
  | [], _ + 1 => some []
  | c :: cs, n + 1 =>
      if c.utf8Size ≤ n + 1 then (truncate cs (n + 1 - c.utf8Size)).map (c :: ·)
      else none

/-- `String::drain(..n)`: remove the first `n` bytes.  An index beyond the end
or inside a character panics. -/
def drain : Text → ℕ → Option Text
  | t, 0 => some t
  | [], _ + 1 => none
  | c :: cs, n + 1 =>
      if c.utf8Size ≤ n + 1 then drain cs (n + 1 - c.utf8Size) else none

theorem byteLen_truncate {t kept : Text} {n : ℕ}
    (h : truncate t n = some kept) : byteLen kept = min n (byteLen t) := by
  induction t generalizing n kept with
  | nil =>
      cases n with
      | zero => simp_all [truncate]
      | succ n => simp_all [truncate]
  | cons c cs ih =>
      cases n with
      | zero => simp_all [truncate]
      | succ n =>
          by_cases hc : c.utf8Size ≤ n + 1
          · rw [truncate, if_pos hc, Option.map_eq_some_iff] at h
            obtain ⟨rest, hrest, rfl⟩ := h
            rw [byteLen_cons, byteLen_cons, ih hrest]
            omega
          · rw [truncate, if_neg hc] at h
            cases h

theorem byteLen_drain {t rest : Text} {n : ℕ}
    (h : drain t n = some rest) : byteLen rest + n = byteLen t := by
  induction t generalizing n with
  | nil =>
      cases n with
      | zero => simp_all [drain]
      | succ n => simp [drain] at h
  | cons c cs ih =>
      cases n with
      | zero => simp_all [drain]
      | succ n =>
          by_cases hc : c.utf8Size ≤ n + 1
          · rw [drain, if_pos hc] at h
            have hrest := ih h
            rw [byteLen_cons]
            omega
          · rw [drain, if_neg hc] at h
            cases h

/-- The least character boundary at or after byte `n`, or `n` past the end. -/
def nextBoundary : Text → ℕ → ℕ
  | _, 0 => 0
  | [], n + 1 => n + 1
  | c :: cs, n + 1 => c.utf8Size + nextBoundary cs (n + 1 - c.utf8Size)

/-- The greatest character boundary at or before byte `n`. -/
def floorBoundary : Text → ℕ → ℕ
  | [], _ => 0
  | c :: cs, n =>
      if c.utf8Size ≤ n then
        c.utf8Size + floorBoundary cs (n - c.utf8Size) else 0

/-- `str::get(..n)`: nothing beyond the end and inside a character. -/
def getTo (t : Text) (n : ℕ) : Option Text :=
  if (drain t n).isSome then truncate t n else none

/-- The bytes up to the last line feed and with it. -/
def afterLastFeed (t : Text) : Option ℕ :=
  if '\n' ∈ t then some (byteLen (t.reverse.dropWhile (· ≠ '\n')).reverse)
    else none

/-- The bytes up to the first line feed. -/
def firstFeed (t : Text) : Option ℕ :=
  if '\n' ∈ t then some (byteLen (t.takeWhile (· ≠ '\n'))) else none

/-! ## White space -/

/-- `char::is_whitespace`, the Unicode property `White_Space`. -/
def isWhitespace (c : Char) : Bool :=
  let n := c.toNat
  (0x9 ≤ n && n ≤ 0xd) || n = 0x20 || n = 0x85 || n = 0xa0 || n = 0x1680 ||
    (0x2000 ≤ n && n ≤ 0x200a) || n = 0x2028 || n = 0x2029 || n = 0x202f ||
    n = 0x205f || n = 0x3000

def trimEnd (t : Text) : Text := (t.reverse.dropWhile isWhitespace).reverse

def trim (t : Text) : Text := trimEnd (t.dropWhile isWhitespace)

def toAsciiLowercase (t : Text) : Text := t.map Char.toLower

/-- `str::starts_with` for a string pattern. -/
def startsWith (t : Text) (pattern : String) : Bool :=
  pattern.toList.isPrefixOf t

/-- `str::contains` for a string pattern. -/
def contains (t : Text) (pattern : String) : Bool :=
  decide (pattern.toList <:+: t)

end Text

end CodeRs
