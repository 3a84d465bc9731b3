import CodeRs.Lib.Text
import Mathlib.Algebra.GroupWithZero.Nat
import Mathlib.Data.List.Basic

/-!
# JSON values

Values as a JSON library gives them, and how code looks into them: every lookup
that does not fit the value gives nothing.
-/

namespace CodeRs

/-- A JSON value.  A number that is not a natural number is kept as its text. -/
inductive Json where
  | null
  | bool (value : Bool)
  | natural (n : ℕ)
  | number (text : String)
  | string (value : String)
  | array (items : List Json)
  | object (fields : List (String × Json))

namespace Json

/-- `get` with a key. -/
def get (key : String) : Json → Option Json
  | object fields => (fields.find? fun field => field.1 = key).map Prod.snd
  | _ => none

def getIndex (i : ℕ) : Json → Option Json
  | array items => items[i]?
  | _ => none

def asStr : Json → Option String
  | string value => some value
  | _ => none

def asU64 : Json → Option ℕ
  | natural n => if n < 2 ^ 64 then some n else none
  | _ => none

def asArray : Json → Option (List Json)
  | array items => some items
  | _ => none

def isObject : Json → Bool
  | object _ => true
  | _ => false

/-- The string under a key. -/
def getStr (key : String) (value : Json) : Option String :=
  (value.get key).bind asStr

end Json

end CodeRs

/-! ## JSON texts

The grammar of JSON as a predicate of texts: what derives a value, the elements
of an array and the members of an object.  A coarser grammar tells only strings
and braces from other characters.  Every JSON text is balanced in its sense. -/

namespace CodeRs.JsonText

/-! ## Braces outside strings -/

/-- The inside of a string literal: a quotation mark in it is escaped. -/
inductive StringBody : Text → Prop
  | nil : StringBody []
  | plain {c : Char} {t : Text} : c ≠ '"' → c ≠ '\\' → StringBody t →
    StringBody (c :: t)
  | escape (c : Char) {t : Text} : StringBody t → StringBody ('\\' :: c :: t)

/-- The braces outside string literals match. -/
inductive Balanced : Text → Prop
  | nil : Balanced []
  | plain {c : Char} {t : Text} : c ≠ '"' → c ≠ '\x7b' →
    c ≠ '\x7d' → Balanced t →
      Balanced (c :: t)
  | string {body t : Text} : StringBody body → Balanced t →
    Balanced ('"' :: body ++ '"' :: t)
  | braces {inner t : Text} : Balanced inner → Balanced t →
      Balanced ('\x7b' :: inner ++ '\x7d' :: t)

theorem Balanced.append {s t : Text} (hs : Balanced s) (ht : Balanced t) :
    Balanced (s ++ t) := by
  induction hs with
  | nil => exact ht
  | plain hquote hopen hclose _ ih => exact .plain hquote hopen hclose ih
  | string hbody _ ih =>
      rw [List.append_assoc, List.cons_append]
      exact .string hbody ih
  | braces hinner _ _ ih =>
      rw [List.append_assoc, List.cons_append]
      exact .braces hinner ih

/-- A character that is not a quotation mark or a brace. -/
def IsPlain (c : Char) : Prop := c ≠ '"' ∧ c ≠ '\x7b' ∧ c ≠ '\x7d'

instance (c : Char) : Decidable (IsPlain c) :=
  inferInstanceAs (Decidable (c ≠ '"' ∧ c ≠ '\x7b' ∧ c ≠ '\x7d'))

theorem Balanced.of_plain {t : Text} (h : ∀ c ∈ t, IsPlain c) : Balanced t := by
  induction t with
  | nil => exact .nil
  | cons c t ih =>
      rw [List.forall_mem_cons] at h
      obtain ⟨⟨hquote, hopen, hclose⟩, ht⟩ := h
      exact .plain hquote hopen hclose (ih ht)

theorem Balanced.literal {body : Text} (h : StringBody body) :
    Balanced ('"' :: body ++ ['"']) := .string h .nil

/-- What is left of a text in which some braces are closed that it does not
open. -/
inductive Closes : ℕ → Text → Prop
  | balanced {t : Text} : Balanced t → Closes 0 t
  | close {n : ℕ} {s t : Text} : Balanced s → Closes n t →
    Closes (n + 1) (s ++ '\x7d' :: t)

theorem Closes.append {n : ℕ} {s t : Text} (hs : Balanced s) (ht : Closes n t) :
    Closes n (s ++ t) := by
  cases ht with
  | balanced ht => exact .balanced (hs.append ht)
  | close hinner hrest =>
      rw [← List.append_assoc]
      exact .close (hs.append hinner) hrest

/-- An opening brace takes one of the closing ones. -/
theorem Closes.open {n : ℕ} {t : Text} (h : Closes (n + 1) t) :
    Closes n ('\x7b' :: t) := by
  cases h with
  | @close _ inner rest hinner hrest =>
      have hbraces : Closes n ('\x7b' :: inner ++ ['\x7d'] ++ rest) :=
        .append (.braces hinner .nil) hrest
      rwa [List.append_assoc] at hbraces

/-! ## Texts that open no brace -/

/-- String literals are closed, and no brace opens outside them. -/
inductive Unopened : Text → Prop
  | nil : Unopened []
  | plain {c : Char} {t : Text} : c ≠ '"' → c ≠ '\x7b' → Unopened t →
    Unopened (c :: t)
  | string {body t : Text} : StringBody body → Unopened t →
    Unopened ('"' :: body ++ '"' :: t)

/-! ## JSON -/

/-- White space. -/
def IsBlank (c : Char) : Prop := c = ' ' ∨ c = '\t' ∨ c = '\n' ∨ c = '\r'

/-- Nothing but white space. -/
def Blank (t : Text) : Prop := ∀ c ∈ t, IsBlank c

/-- A text of digits, and there is one. -/
def Digits (t : Text) : Prop := t ≠ [] ∧ ∀ c ∈ t, c.isDigit = true

/-- A number: its sign, its integer, its fraction and its exponent. -/
inductive Number : Text → Prop
  | mk {sign int frac exp : Text} : sign ∈ [[], ['-']] →
      (int = ['0'] ∨ Digits int ∧ int.head? ≠ some '0') →
      (frac = [] ∨ ∃ digits, Digits digits ∧ frac = '.' :: digits) →
      (exp = [] ∨ ∃ e ∈ ['e', 'E'], ∃ expSign ∈ [[], ['+'], ['-']], ∃ digits,
        Digits digits ∧
        exp = e :: (expSign ++ digits)) →
      Number (sign ++ int ++ frac ++ exp)

/-- A hexadecimal digit. -/
def IsHex (c : Char) : Prop := c.isDigit = true ∨ c ∈ "abcdefABCDEF".toList

inductive Chars : Text → Prop
  | nil : Chars []
  | plain {c : Char} {t : Text} : c ≠ '"' → c ≠ '\\' →
    0x20 ≤ c.toNat → Chars t →
      Chars (c :: t)
  | escape {c : Char} {t : Text} : c ∈
    ['"', '\\', '/', 'b', 'f', 'n', 'r', 't'] → Chars t →
      Chars ('\\' :: c :: t)
  | unicode {a b c d : Char} {t : Text} : IsHex a → IsHex b → IsHex c →
    IsHex d → Chars t →
      Chars ('\\' :: 'u' :: a :: b :: c :: d :: t)

inductive Part where
  | value | object | element | elements | member | members

inductive Derives : Part → Text → Prop
  | literal {t : Text} :
  t ∈ ["null".toList, "true".toList, "false".toList] → Derives .value t
  | number {t : Text} : Number t → Derives .value t
  | string {t : Text} : Chars t → Derives .value ('"' :: t ++ ['"'])
  | emptyArray {t : Text} : Blank t → Derives .value ('[' :: t ++ [']'])
  | array {t : Text} : Derives .elements t → Derives .value ('[' :: t ++ [']'])
  | object {t : Text} : Derives .object t → Derives .value t
  | emptyBraces {t : Text} : Blank t → Derives .object ('\x7b' :: t ++ ['\x7d'])
  | braces {t : Text} : Derives .members t →
    Derives .object ('\x7b' :: t ++ ['\x7d'])
  | element {before t after : Text} : Blank before →
    Derives .value t → Blank after →
      Derives .element (before ++ t ++ after)
  | oneElement {t : Text} : Derives .element t → Derives .elements t
  | moreElements {t rest : Text} : Derives .element t → Derives .elements rest →
      Derives .elements (t ++ ',' :: rest)
  | member {before key after t : Text} : Blank before →
    Chars key → Blank after →
      Derives .element t →
      Derives .member (before ++ ('"' :: key ++ ['"']) ++ after ++ ':' :: t)
  | oneMember {t : Text} : Derives .member t → Derives .members t
  | moreMembers {t rest : Text} : Derives .member t → Derives .members rest →
      Derives .members (t ++ ',' :: rest)

/-! ## JSON texts are balanced -/

theorem Blank.balanced {t : Text} (h : Blank t) : Balanced t := by
  refine .of_plain fun c hc => ?_
  rcases h c hc with rfl | rfl | rfl | rfl <;> decide

theorem isPlain_of_isDigit {c : Char} (h : c.isDigit = true) : IsPlain c := by
  refine ⟨?_, ?_, ?_⟩ <;>
  · rintro rfl
    exact absurd h (by decide)

theorem Digits.balanced {t : Text} (h : Digits t) : Balanced t :=
  .of_plain fun c hc => isPlain_of_isDigit (h.2 c hc)

theorem Number.balanced {t : Text} (h : Number t) : Balanced t := by
  obtain ⟨hsign, hint, hfrac, hexp⟩ := h
  have hone : ∀ c : Char, IsPlain c → ∀ t : Text, Balanced t →
      Balanced (c :: t) :=
    fun c hc t ht => .plain hc.1 hc.2.1 hc.2.2 ht
  refine .append (.append (.append ?_ ?_) ?_) ?_
  · refine .of_plain fun c hc => ?_
    simp only [List.mem_cons, List.not_mem_nil, or_false] at hsign
    rcases hsign with rfl | rfl
    · cases hc
    · rw [List.mem_singleton.1 hc]
      decide
  · rcases hint with rfl | ⟨hdigits, -⟩
    · exact hone _ (by decide) _ .nil
    · exact hdigits.balanced
  · rcases hfrac with rfl | ⟨digits, hdigits, rfl⟩
    · exact .nil
    · exact hone _ (by decide) _ hdigits.balanced
  · rcases hexp with rfl | ⟨e, he, expSign, hexpSign, digits, hdigits, rfl⟩
    · exact .nil
    · simp only [List.mem_cons, List.not_mem_nil, or_false] at he hexpSign
      have hplain : IsPlain e := by rcases he with rfl | rfl <;> decide
      refine hone e hplain _ (.append ?_ hdigits.balanced)
      rcases hexpSign with rfl | rfl | rfl
      · exact .nil
      · exact hone _ (by decide) _ .nil
      · exact hone _ (by decide) _ .nil

theorem IsHex.ne {c : Char} (h : IsHex c) : c ≠ '"' ∧ c ≠ '\\' := by
  refine ⟨?_, ?_⟩ <;>
  · rintro rfl
    exact absurd h (by unfold IsHex; decide)

theorem Chars.stringBody {t : Text} (h : Chars t) : StringBody t := by
  induction h with
  | nil => exact .nil
  | plain hquote hslash _ _ ih => exact .plain hquote hslash ih
  | escape _ _ ih => exact .escape _ ih
  | unicode ha hb hc hd _ ih =>
      exact .escape 'u' (.plain ha.ne.1 ha.ne.2 (.plain hb.ne.1 hb.ne.2
        (.plain hc.ne.1 hc.ne.2 (.plain hd.ne.1 hd.ne.2 ih))))

/-- A character outside strings that is not a brace, between two texts. -/
theorem Balanced.join {s t : Text} {c : Char} (hc : IsPlain c) (hs : Balanced s)
    (ht : Balanced t) : Balanced (s ++ c :: t) :=
  hs.append (.plain hc.1 hc.2.1 hc.2.2 ht)

theorem Balanced.bracketed {t : Text} (h : Balanced t) :
    Balanced ('[' :: t ++ [']']) :=
  .plain (by decide) (by decide) (by decide) (h.join (by decide) .nil)

theorem Derives.balanced {part : Part} {t : Text} (h : Derives part t) :
    Balanced t := by
  induction h with
  | literal h =>
      simp only [List.mem_cons, List.not_mem_nil, or_false] at h
      refine .of_plain ?_
      rcases h with rfl | rfl | rfl <;> simp [IsPlain]
  | number h => exact h.balanced
  | string h => exact .literal h.stringBody
  | emptyArray h => exact h.balanced.bracketed
  | array _ ih => exact ih.bracketed
  | object _ ih => exact ih
  | emptyBraces h => exact .braces h.balanced .nil
  | braces _ ih => exact .braces ih .nil
  | element hbefore _ hafter ih =>
      exact (hbefore.balanced.append ih).append hafter.balanced
  | oneElement _ ih => exact ih
  | moreElements _ _ ih ihrest => exact ih.join (by decide) ihrest
  | member hbefore hkey hafter _ ih =>
      have hname := hbefore.balanced.append (.literal hkey.stringBody)
      exact (hname.append hafter.balanced).join (by decide) ih
  | oneMember _ ih => exact ih
  | moreMembers _ _ ih ihrest => exact ih.join (by decide) ihrest

theorem Derives.exists_inner {t : Text} (h : Derives .object t) :
    ∃ inner, t = '\x7b' :: inner ++ ['\x7d'] ∧ Balanced inner := by
  cases h with
  | emptyBraces h => exact ⟨_, rfl, h.balanced⟩
  | braces h => exact ⟨_, rfl, h.balanced⟩

end CodeRs.JsonText
