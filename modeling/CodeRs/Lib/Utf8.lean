import CodeRs.Lib.Text
import Mathlib.Data.List.TakeWhile

/-!
# Texts as bytes

The bytes of a text, and the text that is read from any bytes when what is not
a character is replaced.  A window of the bytes of a text cuts at most one
character at each of its ends; the characters that are whole in it are read
back.
-/

namespace CodeRs.Text

/-- `str::as_bytes`. -/
def utf8 (t : Text) : List UInt8 := t.flatMap String.utf8EncodeChar

/-- The character that the bytes begin with. -/
def decodeChar? (bytes : List UInt8) : Option Char :=
  bytes.toByteArray.utf8DecodeChar? 0

/-- The second byte may follow the first one of a character of three or four
bytes. -/
def follows (first second : UInt8) : Bool :=
  (first == 0xe0 && 0xa0 ≤ second && second ≤ 0xbf) ||
  (0xe1 ≤ first && first ≤ 0xec && 0x80 ≤ second && second ≤ 0xbf) ||
  (first == 0xed && 0x80 ≤ second && second ≤ 0x9f) ||
  (0xee ≤ first && first ≤ 0xef && 0x80 ≤ second && second ≤ 0xbf) ||
  (first == 0xf0 && 0x90 ≤ second && second ≤ 0xbf) ||
  (0xf1 ≤ first && first ≤ 0xf3 && 0x80 ≤ second && second ≤ 0xbf) ||
  (first == 0xf4 && 0x80 ≤ second && second ≤ 0x8f)

/-- The bytes that are replaced together where no character begins: the
beginning of one as far as it goes. -/
def invalidLen : List UInt8 → ℕ
  | first :: second :: rest =>
      if follows first second then
        match rest with
        | third :: _ =>
            if 0xf0 ≤ first ∧ 0x80 ≤ third ∧ third ≤ 0xbf then 3 else 2
        | [] => 2
      else 1
  | _ => 1

theorem invalidLen_pos (bytes : List UInt8) : 0 < invalidLen bytes := by
  unfold invalidLen
  repeat' split
  all_goals decide

def fromUtf8Lossy : List UInt8 → Text
  | [] => []
  | byte :: bytes =>
      match decodeChar? (byte :: bytes) with
      | some c => c :: fromUtf8Lossy ((byte :: bytes).drop c.utf8Size)
      | none =>
          '\uFFFD' ::
            fromUtf8Lossy ((byte :: bytes).drop (invalidLen (byte :: bytes)))
termination_by bytes => bytes.length
decreasing_by
  · have hpos := c.utf8Size_pos
    simp only [List.length_drop, List.length_cons]
    omega
  · have hpos := invalidLen_pos (byte :: bytes)
    simp only [List.length_drop, List.length_cons]
    omega

/-! ## The bytes of a text -/

@[simp] theorem utf8_nil : utf8 [] = [] := rfl

@[simp] theorem utf8_cons (c : Char) (t : Text) :
    utf8 (c :: t) = String.utf8EncodeChar c ++ utf8 t := rfl

@[simp] theorem utf8_append (s t : Text) : utf8 (s ++ t) = utf8 s ++ utf8 t :=
  List.flatMap_append

@[simp] theorem length_utf8 (t : Text) : (utf8 t).length = t.byteLen := by
  induction t with
  | nil => rfl
  | cons c t ih =>
      rw [utf8_cons, List.length_append, ih,
        String.length_utf8EncodeChar, byteLen_cons]

/-- A byte whose highest bits are set is beyond ASCII. -/
theorem le_toNat_ofNat {base k : ℕ} (n : ℕ) (hbase : 128 ≤ base) (hk : 0 < k)
    (hsum : base + k ≤ 256) : 128 ≤ (UInt8.ofNat (n % k + base)).toNat := by
  have hmod := Nat.mod_lt n hk
  rw [UInt8.toNat_ofNat', Nat.mod_eq_of_lt (by omega)]
  omega

/-- The byte of an ASCII character is the character, and the bytes of another
one are beyond ASCII. -/
theorem mem_utf8EncodeChar {c : Char} {byte : UInt8}
    (h : byte ∈ String.utf8EncodeChar c) :
    (c.toNat < 128 ∧ byte.toNat = c.toNat) ∨
      (128 ≤ c.toNat ∧ 128 ≤ byte.toNat) := by
  have hval : c.toNat = c.val.toNat := rfl
  rw [String.utf8EncodeChar] at h
  split at h
  next hle =>
    rw [List.mem_singleton.1 h, UInt8.toNat_ofNat']
    omega
  next hgt =>
    refine .inr ⟨by omega, ?_⟩
    split at h
    next =>
      rcases List.mem_pair.1 h with rfl | rfl
      · exact le_toNat_ofNat _ (by decide) (by decide) (by decide)
      · exact le_toNat_ofNat _ (by decide) (by decide) (by decide)
    next =>
      split at h
      next =>
        rcases List.mem_cons.1 h with rfl | h
        · exact le_toNat_ofNat _ (by decide) (by decide) (by decide)
        rcases List.mem_pair.1 h with rfl | rfl
        · exact le_toNat_ofNat _ (by decide) (by decide) (by decide)
        · exact le_toNat_ofNat _ (by decide) (by decide) (by decide)
      next =>
        rcases List.mem_cons.1 h with rfl | h
        · exact le_toNat_ofNat _ (by decide) (by decide) (by decide)
        rcases List.mem_cons.1 h with rfl | h
        · exact le_toNat_ofNat _ (by decide) (by decide) (by decide)
        rcases List.mem_pair.1 h with rfl | rfl
        · exact le_toNat_ofNat _ (by decide) (by decide) (by decide)
        · exact le_toNat_ofNat _ (by decide) (by decide) (by decide)

/-- The first byte of a text is its first character, or both are beyond
ASCII. -/
theorem exists_utf8_cons (c : Char) (t : Text) :
    ∃ byte bytes, utf8 (c :: t) = byte :: bytes ∧
      ((c.toNat < 128 ∧ byte.toNat = c.toNat) ∨
        (128 ≤ c.toNat ∧ 128 ≤ byte.toNat)) := by
  obtain ⟨byte, bytes, hbytes⟩ := List.exists_cons_of_ne_nil
    (String.utf8EncodeChar_ne_nil (c := c))
  refine ⟨byte, bytes ++ utf8 t,
    by rw [utf8_cons, hbytes, List.cons_append], ?_⟩
  exact mem_utf8EncodeChar (by rw [hbytes]; exact List.mem_cons_self)

theorem byteLen_eq_zero {t : Text} : t.byteLen = 0 ↔ t = [] := by
  cases t with
  | nil => exact ⟨fun _ => rfl, fun _ => rfl⟩
  | cons c t =>
      have hpos := c.utf8Size_pos
      rw [byteLen_cons]
      exact ⟨fun h => absurd h (by omega), fun h => (by cases h)⟩

/-- A byte position in a text is inside one of its characters or at its
beginning. -/
theorem exists_split {t : Text} {n : ℕ} (h : n < t.byteLen) :
    ∃ (before : Text) (c : Char) (after : Text) (k : ℕ),
      t = before ++ c :: after ∧
      k < c.utf8Size ∧ n = before.byteLen + k := by
  induction t generalizing n with
  | nil => exact absurd h (Nat.not_lt_zero n)
  | cons c t ih =>
      by_cases hc : n < c.utf8Size
      · exact ⟨[], c, t, n, rfl, hc, (Nat.zero_add n).symm⟩
      · rw [byteLen_cons] at h
        have hrest : n - c.utf8Size < byteLen t := by omega
        obtain ⟨before, d, after, k, rfl, hk, hn⟩ := ih hrest
        refine ⟨c :: before, d, after, k, rfl, hk, ?_⟩
        rw [byteLen_cons]
        omega

/-! ## Reading bytes -/

theorem decodeChar?_encode (c : Char) (bytes : List UInt8) :
    decodeChar? (String.utf8EncodeChar c ++ bytes) = some c := by
  rw [decodeChar?, List.toByteArray_append]
  exact ByteArray.utf8DecodeChar?_utf8EncodeChar_append

theorem fromUtf8Lossy_encode (c : Char) (bytes : List UInt8) :
    fromUtf8Lossy (String.utf8EncodeChar c ++ bytes) =
      c :: fromUtf8Lossy bytes := by
  have hdecode := decodeChar?_encode c bytes
  have hdrop : (String.utf8EncodeChar c ++ bytes).drop c.utf8Size = bytes := by
    rw [← String.length_utf8EncodeChar, List.drop_left]
  cases hbytes : String.utf8EncodeChar c ++ bytes with
  | nil =>
      rw [List.append_eq_nil_iff] at hbytes
      exact absurd hbytes.1 String.utf8EncodeChar_ne_nil
  | cons byte rest =>
      rw [hbytes] at hdecode hdrop
      rw [fromUtf8Lossy, hdecode]
      simp only [hdrop]

/-- A text is read back, whatever comes behind its bytes. -/
theorem fromUtf8Lossy_append (t : Text) (bytes : List UInt8) :
    fromUtf8Lossy (utf8 t ++ bytes) = t ++ fromUtf8Lossy bytes := by
  induction t with
  | nil => rfl
  | cons c t ih =>
      rw [utf8_cons, List.append_assoc, fromUtf8Lossy_encode, ih]
      rfl

theorem fromUtf8Lossy_utf8 (t : Text) : fromUtf8Lossy (utf8 t) = t := by
  have h := fromUtf8Lossy_append t []
  rwa [List.append_nil, fromUtf8Lossy, List.append_nil] at h

theorem isUTF8FirstByte_of_decodeChar? {byte : UInt8}
    {bytes : List UInt8} {c : Char}
    (h : decodeChar? (byte :: bytes) = some c) : byte.IsUTF8FirstByte := by
  have hsome :=
    ByteArray.isUTF8FirstByte_of_isSome_utf8DecodeChar?
      (Option.isSome_of_eq_some h)
  rwa [List.getElem_toByteArray] at hsome

theorem isUTF8FirstByte_of_range :
    ∀ n < 21, (UInt8.ofNat (0xe0 + n)).IsUTF8FirstByte := by decide

theorem isUTF8FirstByte_of_follows {first second : UInt8}
    (h : follows first second = true) :
    first.IsUTF8FirstByte := by
  have hrange : 0xe0 ≤ first.toNat ∧ first.toNat ≤ 0xf4 := by
    simp only [follows, Bool.or_eq_true, Bool.and_eq_true, beq_iff_eq,
      decide_eq_true_eq,
      UInt8.le_iff_toNat_le, ← UInt8.toNat_inj, UInt8.toNat_ofNat] at h
    omega
  have hbyte := isUTF8FirstByte_of_range (first.toNat - 0xe0) (by omega)
  rwa [Nat.add_sub_cancel' hrange.1, UInt8.ofNat_toNat] at hbyte

/-- A byte that no character begins with is replaced by itself. -/
theorem fromUtf8Lossy_continuation {byte : UInt8} (h : ¬ byte.IsUTF8FirstByte)
    (bytes : List UInt8) :
    fromUtf8Lossy (byte :: bytes) = '\uFFFD' :: fromUtf8Lossy bytes := by
  have hdecode : decodeChar? (byte :: bytes) = none := by
    cases hdecode : decodeChar? (byte :: bytes) with
    | none => rfl
    | some c => exact absurd (isUTF8FirstByte_of_decodeChar? hdecode) h
  have hlen : invalidLen (byte :: bytes) = 1 := by
    cases bytes with
    | nil => rfl
    | cons second rest =>
        have hfollows : ¬ follows byte second = true :=
          fun hfollows => h (isUTF8FirstByte_of_follows hfollows)
        simp only [invalidLen, if_neg hfollows]
  rw [fromUtf8Lossy, hdecode, hlen]
  rfl

/-! ## Windows -/

theorem fromUtf8Lossy_middle {middle : List UInt8}
    (h : ∀ byte ∈ middle, ¬ byte.IsUTF8FirstByte) (bytes : List UInt8) :
    fromUtf8Lossy (middle ++ bytes) =
      List.replicate middle.length '\uFFFD' ++ fromUtf8Lossy bytes := by
  induction middle with
  | nil => rfl
  | cons byte rest ih =>
      rw [List.forall_mem_cons] at h
      rw [List.cons_append, fromUtf8Lossy_continuation h.1, ih h.2]
      rfl

theorem not_isUTF8FirstByte_of_mem_drop {c : Char} {k : ℕ} (hk : k ≠ 0)
    {byte : UInt8}
    (h : byte ∈ (String.utf8EncodeChar c).drop k) : ¬ byte.IsUTF8FirstByte := by
  obtain ⟨i, hi, rfl⟩ := List.getElem_of_mem h
  rw [List.getElem_drop, UInt8.isUTF8FirstByte_getElem_utf8EncodeChar]
  omega

/-- The first bytes of a text are read as its first characters, up to the one
that is cut. -/
theorem fromUtf8Lossy_take {t : Text} {n : ℕ} (h : n < t.byteLen) :
    ∃ whole rest cut : Text, t = whole ++ rest ∧
      fromUtf8Lossy ((utf8 t).take n) = whole ++ cut ∧
      n < whole.byteLen + 4 := by
  obtain ⟨before, c, after, k, rfl, hk, rfl⟩ := exists_split h
  refine ⟨before, c :: after, fromUtf8Lossy ((utf8 (c :: after)).take k),
    rfl, ?_,
    Nat.add_lt_add_left (Nat.lt_of_lt_of_le hk c.utf8Size_le_four) _⟩
  rw [utf8_append, ← length_utf8 before, List.take_length_add_append,
    fromUtf8Lossy_append]

/-- The last bytes of a text are read as its last characters, from the one that
is cut on. -/
theorem fromUtf8Lossy_drop {t : Text} {n : ℕ} (h : n < t.byteLen) :
    ∃ rest whole cut : Text, t = rest ++ whole ∧
      fromUtf8Lossy ((utf8 t).drop n) = cut ++ whole ∧
      t.byteLen < n + whole.byteLen + 4 := by
  obtain ⟨before, c, after, k, rfl, hk, rfl⟩ := exists_split h
  have hc := c.utf8Size_le_four
  have hdrop : (utf8 (before ++ c :: after)).drop (before.byteLen + k) =
      (String.utf8EncodeChar c).drop k ++ utf8 after := by
    rw [utf8_append, ← length_utf8 before,
      List.drop_length_add_append, utf8_cons,
      List.drop_append_of_le_length]
    rw [String.length_utf8EncodeChar]
    exact Nat.le_of_lt hk
  rw [hdrop]
  cases k with
  | zero =>
      refine ⟨before, c :: after, [], rfl, ?_, ?_⟩
      · rw [List.drop_zero, ← utf8_cons, fromUtf8Lossy_utf8, List.nil_append]
      · rw [byteLen_append]
        omega
  | succ k =>
      refine ⟨before ++ [c], after,
        List.replicate ((String.utf8EncodeChar c).drop (k + 1)).length '\uFFFD',
        by rw [List.append_assoc, List.singleton_append], ?_, ?_⟩
      · rw [fromUtf8Lossy_middle fun byte hbyte =>
          not_isUTF8FirstByte_of_mem_drop (Nat.succ_ne_zero k) hbyte,
            fromUtf8Lossy_utf8]
      · rw [byteLen_append, byteLen_cons]
        omega

/-! ## Cuts -/

@[simp] theorem drain_zero (t : Text) : drain t 0 = some t := by
  cases t <;> rfl

/-- A text without its first characters. -/
theorem drain_append (s t : Text) (n : ℕ) :
    drain (s ++ t) (s.byteLen + n) = drain t n := by
  induction s with
  | nil => rw [List.nil_append, byteLen_nil, Nat.zero_add]
  | cons c s ih =>
      have hpos := c.utf8Size_pos
      have hsum :
          byteLen (c :: s) + n = (c.utf8Size + (byteLen s + n) - 1) + 1 := by
        rw [byteLen_cons]
        omega
      rw [hsum, List.cons_append, drain, if_pos (by omega)]
      rw [show c.utf8Size + (byteLen s + n) - 1 + 1 - c.utf8Size =
        byteLen s + n by omega, ih]

theorem drain_append_byteLen (s t : Text) :
    drain (s ++ t) s.byteLen = some t := by
  have h := drain_append s t 0
  rwa [Nat.add_zero, drain_zero] at h

theorem truncate_append_byteLen (s t : Text) :
    truncate (s ++ t) s.byteLen = some s := by
  induction s with
  | nil => cases t <;> rfl
  | cons c s ih =>
      have hpos := c.utf8Size_pos
      have hsum : byteLen (c :: s) = (c.utf8Size + byteLen s - 1) + 1 := by
        rw [byteLen_cons]
        omega
      rw [hsum, List.cons_append, truncate, if_pos (by omega)]
      rw [show c.utf8Size + byteLen s - 1 + 1 - c.utf8Size =
        byteLen s by omega, ih]
      rfl

theorem getTo_append_byteLen (s t : Text) :
    getTo (s ++ t) s.byteLen = some s := by
  rw [getTo, drain_append_byteLen, truncate_append_byteLen]
  rfl

/-- A cut between two characters divides the text. -/
theorem exists_of_drain {t rest : Text} {n : ℕ} (h : drain t n = some rest) :
    ∃ s : Text, t = s ++ rest ∧ n = s.byteLen := by
  induction t generalizing n with
  | nil =>
      cases n with
      | zero =>
          rw [drain_zero] at h
          cases h
          exact ⟨[], rfl, rfl⟩
      | succ n => cases h
  | cons c t ih =>
      cases n with
      | zero =>
          rw [drain_zero] at h
          cases h
          exact ⟨[], rfl, rfl⟩
      | succ n =>
          rw [drain] at h
          split at h
          next hc =>
            obtain ⟨s, rfl, hs⟩ := ih h
            refine ⟨c :: s, rfl, ?_⟩
            rw [byteLen_cons]
            omega
          next => cases h

theorem exists_of_getTo {t head : Text} {n : ℕ} (h : getTo t n = some head) :
    ∃ rest, t = head ++ rest ∧ n = head.byteLen := by
  rw [getTo] at h
  split at h
  next hsome =>
    obtain ⟨rest, hrest⟩ := Option.isSome_iff_exists.1 hsome
    obtain ⟨s, rfl, rfl⟩ := exists_of_drain hrest
    rw [truncate_append_byteLen] at h
    cases h
    exact ⟨rest, rfl, rfl⟩
  next => cases h

theorem exists_of_truncate {t head : Text} {n : ℕ}
    (h : truncate t n = some head) :
    ∃ rest, t = head ++ rest := by
  induction t generalizing n head with
  | nil =>
      cases n with
      | zero =>
          cases h
          exact ⟨[], rfl⟩
      | succ n =>
          cases h
          exact ⟨[], rfl⟩
  | cons c t ih =>
      cases n with
      | zero =>
          cases h
          exact ⟨c :: t, rfl⟩
      | succ n =>
          rw [truncate] at h
          split at h
          next hc =>
            obtain ⟨kept, hkept, rfl⟩ := Option.map_eq_some_iff.1 h
            obtain ⟨rest, rfl⟩ := ih hkept
            exact ⟨rest, rfl⟩
          next => cases h

theorem getTo_cons (c : Char) (t : Text) {n : ℕ} (hn : 0 < n) :
    getTo (c :: t) n =
      if c.utf8Size ≤ n then (getTo t (n - c.utf8Size)).map (c :: ·)
        else none := by
  cases n with
  | zero => exact absurd hn (Nat.lt_irrefl 0)
  | succ n =>
      by_cases hc : c.utf8Size ≤ n + 1
      · rw [getTo, drain, truncate, if_pos hc, if_pos hc, if_pos hc, getTo]
        split <;> rfl
      · rw [getTo, drain, if_neg hc, if_neg hc]
        rfl

@[simp] theorem getTo_zero (t : Text) : getTo t 0 = some [] := by
  cases t <;> rfl

/-- What begins a text does not depend on what comes later. -/
theorem getTo_append {s : Text} (t : Text) {n : ℕ} (h : n ≤ s.byteLen) :
    getTo (s ++ t) n = getTo s n := by
  induction s generalizing n with
  | nil =>
      rw [Nat.eq_zero_of_le_zero h, getTo_zero, getTo_zero]
  | cons c s ih =>
      cases Nat.eq_zero_or_pos n with
      | inl hzero => rw [hzero, getTo_zero, getTo_zero]
      | inr hpos =>
          rw [byteLen_cons] at h
          rw [List.cons_append, getTo_cons c _ hpos, getTo_cons c s hpos,
            ih (by omega)]

theorem floorBoundary_append {s : Text} (t : Text) {n : ℕ} (h : n ≤ s.byteLen) :
    floorBoundary (s ++ t) n = floorBoundary s n := by
  induction s generalizing n with
  | nil =>
      rw [Nat.eq_zero_of_le_zero h]
      cases t with
      | nil => rfl
      | cons c t =>
          have hpos := c.utf8Size_pos
          exact if_neg (by omega)
  | cons c s ih =>
      rw [byteLen_cons] at h
      rw [List.cons_append, floorBoundary, floorBoundary, ih (by omega)]

theorem floorBoundary_spec (t : Text) (n : ℕ) :
    ∃ head tail : Text, t = head ++ tail ∧ floorBoundary t n = head.byteLen ∧
      head.byteLen ≤ n := by
  induction t generalizing n with
  | nil => exact ⟨[], [], rfl, rfl, Nat.zero_le n⟩
  | cons c t ih =>
      rw [floorBoundary]
      split
      next hc =>
        obtain ⟨head, tail, rfl, hfloor, hle⟩ := ih (n - c.utf8Size)
        refine ⟨c :: head, tail, rfl, by rw [hfloor, byteLen_cons], ?_⟩
        rw [byteLen_cons]
        omega
      next => exact ⟨[], c :: t, rfl, rfl, Nat.zero_le n⟩

theorem nextBoundary_append (s t : Text) (n : ℕ) :
    nextBoundary (s ++ t) (s.byteLen + n) = s.byteLen + nextBoundary t n := by
  induction s with
  | nil => rw [List.nil_append, byteLen_nil, Nat.zero_add, Nat.zero_add]
  | cons c s ih =>
      have hpos := c.utf8Size_pos
      have hsum :
          byteLen (c :: s) + n = (c.utf8Size + (byteLen s + n) - 1) + 1 := by
        rw [byteLen_cons]
        omega
      rw [hsum, List.cons_append, nextBoundary,
        show c.utf8Size + (byteLen s + n) - 1 + 1 - c.utf8Size =
          byteLen s + n by omega, ih,
        byteLen_cons, Nat.add_assoc]

theorem nextBoundary_spec {t : Text} {n : ℕ} (h : n ≤ t.byteLen) :
    ∃ head tail : Text, t = head ++ tail ∧ nextBoundary t n = head.byteLen ∧
      n ≤ head.byteLen := by
  induction t generalizing n with
  | nil =>
      rw [Nat.eq_zero_of_le_zero h]
      exact ⟨[], [], rfl, rfl, Nat.le_refl 0⟩
  | cons c t ih =>
      cases n with
      | zero => exact ⟨[], c :: t, rfl, rfl, Nat.le_refl 0⟩
      | succ n =>
          have hpos := c.utf8Size_pos
          rw [byteLen_cons] at h
          obtain ⟨head, tail, rfl, hnext, hle⟩ :=
            @ih (n + 1 - c.utf8Size) (by omega)
          refine ⟨c :: head, tail, rfl,
            by rw [nextBoundary, hnext, byteLen_cons], ?_⟩
          rw [byteLen_cons]
          omega

/-- The last line feed ends a part of the text. -/
theorem afterLastFeed_spec {t : Text} {n : ℕ} (h : afterLastFeed t = some n) :
    ∃ head tail : Text, t = head ++ tail ∧ n = head.byteLen := by
  rw [afterLastFeed] at h
  split at h
  next =>
    refine ⟨(t.reverse.dropWhile (· ≠ '\n')).reverse,
      (t.reverse.takeWhile (· ≠ '\n')).reverse,
      ?_, (Option.some.inj h).symm⟩
    rw [← List.reverse_append, List.takeWhile_append_dropWhile,
      List.reverse_reverse]
  next => cases h

theorem firstFeed_spec {t : Text} {n : ℕ} (h : firstFeed t = some n) :
    ∃ head tail : Text, t = head ++ tail ∧ n + 1 = head.byteLen := by
  rw [firstFeed] at h
  split at h
  next hmem =>
    cases h
    cases hrest : t.dropWhile (· ≠ '\n') with
    | nil =>
        have hall := List.dropWhile_eq_nil_iff.1 hrest '\n' hmem
        exact absurd hall (by decide)
    | cons c rest =>
        have hhead := List.head?_dropWhile_not (· ≠ '\n') t
        rw [hrest] at hhead
        have hc : c = '\n' := by simpa using hhead
        refine ⟨t.takeWhile (· ≠ '\n') ++ ['\n'], rest, ?_, ?_⟩
        · subst hc
          rw [List.append_assoc, List.singleton_append, ← hrest,
            List.takeWhile_append_dropWhile]
        · rw [byteLen_append]
          rfl
  next => cases h

/-! ## Character boundaries -/

/-- `str::is_char_boundary`. -/
def IsBoundary (t : Text) (n : ℕ) : Prop :=
  ∃ head tail : Text, t = head ++ tail ∧ head.byteLen = n

theorem isSome_drain_iff {t : Text} {n : ℕ} :
    (drain t n).isSome ↔ t.IsBoundary n := by
  constructor
  · intro h
    obtain ⟨rest, hrest⟩ := Option.isSome_iff_exists.1 h
    obtain ⟨head, ht, hlen⟩ := exists_of_drain hrest
    exact ⟨head, rest, ht, hlen.symm⟩
  · rintro ⟨head, tail, rfl, rfl⟩
    rw [drain_append_byteLen]
    rfl

theorem isSome_getTo_iff {t : Text} {n : ℕ} :
    (getTo t n).isSome ↔ t.IsBoundary n := by
  constructor
  · intro h
    obtain ⟨head, hhead⟩ := Option.isSome_iff_exists.1 h
    obtain ⟨rest, ht, hlen⟩ := exists_of_getTo hhead
    exact ⟨head, rest, ht, hlen.symm⟩
  · rintro ⟨head, tail, rfl, rfl⟩
    rw [getTo_append_byteLen]
    rfl

/-- Within a text, cutting off its end fails where dropping its start does. -/
theorem isSome_truncate_iff {t : Text} {n : ℕ} (h : n ≤ t.byteLen) :
    (truncate t n).isSome ↔ t.IsBoundary n := by
  rw [← isSome_drain_iff]
  induction t generalizing n with
  | nil =>
      rw [Nat.eq_zero_of_le_zero h]
      simp [truncate]
  | cons c t ih =>
      cases n with
      | zero => simp [truncate]
      | succ n =>
          rw [byteLen_cons] at h
          rw [truncate, drain]
          split
          next hc => rw [Option.isSome_map, ih (by omega)]
          next => rfl

theorem isBoundary_append_right (s t : Text) (n : ℕ) :
    (s ++ t : Text).IsBoundary (s.byteLen + n) ↔ t.IsBoundary n := by
  rw [← isSome_drain_iff, drain_append, isSome_drain_iff]

theorem isBoundary_append_left {s : Text} (t : Text) {n : ℕ}
    (h : n ≤ s.byteLen) :
    (s ++ t : Text).IsBoundary n ↔ s.IsBoundary n := by
  rw [← isSome_getTo_iff, getTo_append t h, isSome_getTo_iff]

instance (t : Text) (n : ℕ) : Decidable (t.IsBoundary n) :=
  decidable_of_iff _ isSome_drain_iff

theorem isBoundary_zero (t : Text) : t.IsBoundary 0 := ⟨[], t, rfl, rfl⟩

theorem isBoundary_byteLen (t : Text) : t.IsBoundary t.byteLen :=
  ⟨t, [], (List.append_nil t).symm, rfl⟩

theorem IsBoundary.le_byteLen {t : Text} {n : ℕ} (h : t.IsBoundary n) :
    n ≤ t.byteLen := by
  obtain ⟨head, tail, rfl, rfl⟩ := h
  rw [byteLen_append]
  exact Nat.le_add_right _ _

/-- A boundary behind the beginning of a text divides the rest of it. -/
theorem IsBoundary.exists_split {s t : Text} {n : ℕ}
    (h : (s ++ t : Text).IsBoundary n)
    (hle : s.byteLen ≤ n) :
    ∃ head tail : Text, t = head ++ tail ∧ n = s.byteLen + head.byteLen := by
  obtain ⟨k, rfl⟩ := Nat.exists_eq_add_of_le hle
  obtain ⟨head, tail, ht, hlen⟩ := (isBoundary_append_right s t k).1 h
  exact ⟨head, tail, ht, by rw [hlen]⟩

/-- `&text[start..stop]`: it panics unless its ends are character boundaries in
their order. -/
def slice (t : Text) (start stop : ℕ) : Option Text :=
  if start ≤ stop then (drain t start).bind fun rest =>
    getTo rest (stop - start) else none

theorem slice_append (s t u : Text) :
    slice (s ++ t ++ u) s.byteLen (s.byteLen + t.byteLen) = some t := by
  rw [slice, if_pos (Nat.le_add_right _ _), List.append_assoc,
    drain_append_byteLen,
    Option.bind_some, Nat.add_sub_cancel_left, getTo_append_byteLen]

/-! ## Finding a character -/

/-- `str::find` for a character. -/
def findChar (c : Char) (t : Text) : Option ℕ :=
  if c ∈ t then some (byteLen (t.takeWhile (· ≠ c))) else none

theorem findChar_append {c : Char} {s : Text} (h : c ∉ s) (t : Text) :
    findChar c (s ++ c :: t) = some s.byteLen := by
  have hmem : c ∈ s ++ c :: t := List.mem_append_right _ List.mem_cons_self
  have hs : ∀ d ∈ s, decide (d ≠ c) = true := fun d hd =>
    decide_eq_true fun heq => h (heq ▸ hd)
  rw [findChar, if_pos hmem, List.takeWhile_append_of_pos hs,
    List.takeWhile_cons_of_neg (by simp), List.append_nil]

theorem findChar_eq_none {c : Char} {t : Text} :
    findChar c t = none ↔ c ∉ t := by
  rw [findChar]
  split
  next h => exact iff_of_false (Option.some_ne_none _) (not_not_intro h)
  next h => exact iff_of_true rfl h

/-- The character that is found is the first of its kind. -/
theorem findChar_spec {c : Char} {t : Text} {n : ℕ}
    (h : findChar c t = some n) :
    ∃ before after : Text, t = before ++ c :: after ∧ c ∉ before ∧
      n = before.byteLen := by
  have hmem : c ∈ t := by
    by_contra hnot
    rw [findChar_eq_none.2 hnot] at h
    cases h
  obtain ⟨before, after, rfl, hbefore⟩ := List.eq_append_cons_of_mem hmem
  rw [findChar_append hbefore] at h
  exact ⟨before, after, rfl, hbefore, (Option.some.inj h).symm⟩

/-! ## ASCII -/

/-- `str::is_ascii`: every character is one byte. -/
def IsAscii (t : Text) : Prop := ∀ c ∈ t, c.toNat < 128

instance (t : Text) : Decidable t.IsAscii :=
  List.decidableBAll (fun c : Char => c.toNat < 128) t

theorem utf8Size_of_lt {c : Char} (h : c.toNat < 128) : c.utf8Size = 1 :=
  Char.utf8Size_eq_one_iff.2 (UInt32.le_iff_toNat_le.2 (Nat.le_of_lt_succ h))

namespace IsAscii

variable {t : Text}

theorem of_cons {c : Char} (h : IsAscii (c :: t)) :
    c.utf8Size = 1 ∧ t.IsAscii :=
  ⟨utf8Size_of_lt (h c List.mem_cons_self),
    fun d hd => h d (List.mem_cons_of_mem c hd)⟩

theorem byteLen_eq (h : t.IsAscii) : t.byteLen = t.length := by
  induction t with
  | nil => rfl
  | cons c t ih =>
      obtain ⟨hc, ht⟩ := h.of_cons
      rw [byteLen_cons, hc, ih ht, List.length_cons, Nat.add_comm]

theorem truncate_eq (h : t.IsAscii) (n : ℕ) :
    truncate t n = some (t.take n) := by
  induction t generalizing n with
  | nil => cases n <;> rfl
  | cons c t ih =>
      obtain ⟨hc, ht⟩ := h.of_cons
      cases n with
      | zero => rfl
      | succ n =>
          rw [truncate, hc, if_pos (Nat.le_add_left 1 n),
            Nat.add_sub_cancel, ih ht]
          rfl

theorem drain_eq (h : t.IsAscii) {n : ℕ} (hn : n ≤ t.length) :
    drain t n = some (t.drop n) := by
  induction t generalizing n with
  | nil =>
      rw [Nat.eq_zero_of_le_zero hn]
      rfl
  | cons c t ih =>
      obtain ⟨hc, ht⟩ := h.of_cons
      cases n with
      | zero => rfl
      | succ n =>
          rw [drain, hc, if_pos (Nat.le_add_left 1 n), Nat.add_sub_cancel,
            ih ht (Nat.le_of_succ_le_succ hn), List.drop_succ_cons]

end IsAscii

end CodeRs.Text
