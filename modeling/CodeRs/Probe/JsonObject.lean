import CodeRs.Lib.Decimal
import CodeRs.Lib.Json
import CodeRs.Lib.Utf8
import Mathlib.Data.List.Infix

/-!
# The JSON object in the output of a probe

`extract_first_json_object` of `tui/src/probe_review.rs`.  It scans from the
first opening brace to the one that closes it, and skips what is in a string
literal.  A text in memory is too short for the depth to saturate.
-/

namespace CodeRs.Probe

open JsonText

/-- The loop of `extract_first_json_object`: where the object ends, in bytes
after its beginning. -/
def objectEnd (depth : ℕ) (inString escaped : Bool) (offset : ℕ) :
    Text → Option ℕ
  | [] => none
  | c :: t =>
      let next := offset + c.utf8Size
      if inString then
        if escaped then objectEnd depth true false next t
        else if c = '\\' then objectEnd depth true true next t
        else if c = '"' then objectEnd depth false false next t
        else objectEnd depth true false next t
      else if c = '"' then objectEnd depth true escaped next t
      else if c = '\x7b' then objectEnd (depth + 1) false escaped next t
      else if c = '\x7d' then
        if depth - 1 = 0 then
          some next else objectEnd (depth - 1) false escaped next t
      else objectEnd depth false escaped next t

/-- `extract_first_json_object`; a slice that panics gives nothing. -/
def extractFirstJsonObject (text : Text) : Option (Except Text Text) :=
  match Text.findChar '\x7b' text with
  | none => some (.error "no JSON object found".toList)
  | some start =>
      (text.drain start).bind fun rest =>
        match objectEnd 0 false false 0 rest with
        | some stop => (text.slice start (start + stop)).map .ok
        | none =>
            some (.error ("unterminated JSON object starting at byte ".toList ++
              Text.decimal start))

/-! ## Steps of the scan -/

variable {depth offset : ℕ} {t : Text}

theorem objectEnd_quote :
    objectEnd depth false false offset ('"' :: t) =
      objectEnd depth true false (offset + 1) t :=
  rfl

theorem objectEnd_unquote :
    objectEnd depth true false offset ('"' :: t) =
      objectEnd depth false false (offset + 1) t :=
  rfl

theorem objectEnd_escape (c : Char) :
    objectEnd depth true false offset ('\\' :: c :: t) =
      objectEnd depth true false (offset + 1 + c.utf8Size) t := rfl

theorem objectEnd_open :
    objectEnd depth false false offset ('\x7b' :: t) =
      objectEnd (depth + 1) false false (offset + 1) t := rfl

theorem objectEnd_close :
    objectEnd (depth + 2) false false offset ('\x7d' :: t) =
      objectEnd (depth + 1) false false (offset + 1) t := rfl

theorem objectEnd_last :
    objectEnd 1 false false offset ('\x7d' :: t) = some (offset + 1) := rfl

theorem objectEnd_inString {c : Char} (hquote : c ≠ '"') (hslash : c ≠ '\\') :
    objectEnd depth true false offset (c :: t) =
      objectEnd depth true false (offset + c.utf8Size) t := by
  rw [objectEnd, if_pos rfl, if_neg Bool.false_ne_true, if_neg hslash,
    if_neg hquote]

theorem objectEnd_plain {c : Char} (hc : IsPlain c) :
    objectEnd depth false false offset (c :: t) =
      objectEnd depth false false (offset + c.utf8Size) t := by
  rw [objectEnd, if_neg Bool.false_ne_true, if_neg hc.1, if_neg hc.2.1,
    if_neg hc.2.2]

/-! ## Balanced texts are passed over -/

theorem objectEnd_stringBody {body : Text} (h : StringBody body) :
    objectEnd depth true false offset (body ++ '"' :: t) =
      objectEnd depth false false (offset + (body.byteLen + 1)) t := by
  induction h generalizing offset with
  | nil =>
      rw [List.nil_append, objectEnd_unquote, Text.byteLen_nil, Nat.zero_add]
  | plain hquote hslash _ ih =>
      rw [List.cons_append, objectEnd_inString hquote hslash, ih,
        Text.byteLen_cons]
      simp only [Nat.add_assoc]
  | escape c _ ih =>
      rw [List.cons_append, List.cons_append, objectEnd_escape, ih,
        Text.byteLen_cons,
        Text.byteLen_cons, show ('\\').utf8Size = 1 from rfl]
      simp only [Nat.add_assoc]

theorem objectEnd_balanced {inner : Text} (h : Balanced inner) :
    objectEnd (depth + 1) false false offset (inner ++ t) =
      objectEnd (depth + 1) false false (offset + inner.byteLen) t := by
  induction h generalizing depth offset t with
  | nil => rfl
  | plain hquote hopen hclose _ ih =>
      rw [List.cons_append, objectEnd_plain ⟨hquote, hopen, hclose⟩, ih,
        Text.byteLen_cons,
        Nat.add_assoc]
  | @string body rest hbody _ ih =>
      rw [List.cons_append, List.cons_append, List.append_assoc,
        objectEnd_quote,
        List.cons_append, objectEnd_stringBody hbody, ih, Text.byteLen_cons,
        Text.byteLen_append, Text.byteLen_cons,
        show ('"').utf8Size = 1 from rfl]
      simp only [Nat.add_assoc]
  | @braces inner rest _ _ ih ihrest =>
      rw [List.cons_append, List.cons_append, List.append_assoc, objectEnd_open,
        List.cons_append, ih, objectEnd_close, ihrest, Text.byteLen_cons,
        Text.byteLen_append, Text.byteLen_cons,
        show ('\x7b').utf8Size = 1 from rfl,
        show ('\x7d').utf8Size = 1 from rfl]
      simp only [Nat.add_assoc]

theorem objectEnd_braces {inner : Text} (h : Balanced inner) :
    objectEnd 0 false false 0 ('\x7b' :: (inner ++ '\x7d' :: t)) =
      some (Text.byteLen ('\x7b' :: inner ++ ['\x7d'])) := by
  rw [objectEnd_open, objectEnd_balanced h, objectEnd_last,
    List.cons_append, Text.byteLen_cons, Text.byteLen_append]
  simp only [Text.byteLen_cons, Text.byteLen_nil,
    show ('\x7b').utf8Size = 1 from rfl,
    show ('\x7d').utf8Size = 1 from rfl, Nat.zero_add, Nat.add_zero]
  rw [Nat.add_assoc]

/-! ## What the scan ends at -/

/-- The rest of a string literal in which the scan stands. -/
def StringRest (escaped : Bool) (body : Text) : Prop :=
  if escaped then ∃ c rest, body = c :: rest ∧ StringBody rest
    else StringBody body

/-- The scan ends behind a brace that closes one more than the text before it
does. -/
theorem exists_of_objectEnd {stop : ℕ} :
    (∀ depth offset, objectEnd (depth + 1) false false offset t = some stop →
      ∃ inner rest : Text, t = inner ++ '\x7d' :: rest ∧ Closes depth inner ∧
        stop = offset + inner.byteLen + 1) ∧
    ∀ depth offset escaped,
      objectEnd (depth + 1) true escaped offset t = some stop →
      ∃ body inner rest : Text, t = body ++ '"' :: (inner ++ '\x7d' :: rest) ∧
        StringRest escaped body ∧ Closes depth inner ∧
        stop = offset + body.byteLen + 1 + inner.byteLen + 1 := by
  induction t with
  | nil =>
      exact ⟨fun depth offset h => (by cases h),
        fun depth offset escaped h => (by cases h)⟩
  | cons c t ih =>
      obtain ⟨ihout, ihin⟩ := ih
      refine ⟨fun depth offset h => ?_, fun depth offset escaped h => ?_⟩
      · by_cases hquote : c = '"'
        · subst hquote
          obtain ⟨body, inner, rest, rfl, hbody, hinner, rfl⟩ := ihin _ _ _ h
          refine ⟨'"' :: body ++ ['"'] ++ inner, rest, by simp,
            .append (.literal hbody) hinner, ?_⟩
          simp only [Text.byteLen_append, Text.byteLen_cons, Text.byteLen_nil,
            show ('"').utf8Size = 1 from rfl]
          omega
        by_cases hopen : c = '\x7b'
        · subst hopen
          obtain ⟨inner, rest, rfl, hinner, rfl⟩ := ihout _ _ h
          refine ⟨'\x7b' :: inner, rest, rfl, hinner.open, ?_⟩
          rw [Text.byteLen_cons, show ('\x7b').utf8Size = 1 from rfl]
          omega
        by_cases hclose : c = '\x7d'
        · subst hclose
          cases depth with
          | zero =>
              rw [objectEnd_last] at h
              exact ⟨[], t, rfl, .balanced .nil, (Option.some.inj h).symm⟩
          | succ depth =>
              obtain ⟨inner, rest, rfl, hinner, rfl⟩ := ihout _ _ h
              refine ⟨'\x7d' :: inner, rest, rfl, .close .nil hinner, ?_⟩
              rw [Text.byteLen_cons, show ('\x7d').utf8Size = 1 from rfl]
              omega
        · rw [objectEnd_plain ⟨hquote, hopen, hclose⟩] at h
          obtain ⟨inner, rest, rfl, hinner, rfl⟩ := ihout _ _ h
          refine ⟨c :: inner, rest, rfl,
            .append (.plain hquote hopen hclose .nil) hinner, ?_⟩
          rw [Text.byteLen_cons]
          omega
      · cases escaped with
        | true =>
            obtain ⟨body, inner, rest, rfl, hbody, hinner, rfl⟩ :=
              ihin _ _ false h
            refine ⟨c :: body, inner, rest, rfl,
              ⟨c, body, rfl, hbody⟩, hinner, ?_⟩
            rw [Text.byteLen_cons]
            omega
        | false =>
            by_cases hslash : c = '\\'
            · subst hslash
              obtain ⟨_, inner, rest, rfl, ⟨d, body, rfl, hbody⟩, hinner,
                rfl⟩ := ihin _ _ true h
              refine ⟨'\\' :: d :: body, inner, rest, rfl,
                .escape d hbody, hinner, ?_⟩
              simp only [Text.byteLen_cons, show ('\\').utf8Size = 1 from rfl]
              omega
            by_cases hquote : c = '"'
            · subst hquote
              obtain ⟨inner, rest, rfl, hinner, rfl⟩ := ihout _ _ h
              exact ⟨[], inner, rest, rfl, .nil, hinner, rfl⟩
            · rw [objectEnd_inString hquote hslash] at h
              obtain ⟨body, inner, rest, rfl, hbody, hinner, rfl⟩ :=
                ihin _ _ false h
              refine ⟨c :: body, inner, rest, rfl,
                .plain hquote hslash hbody, hinner, ?_⟩
              rw [Text.byteLen_cons]
              omega

/-! ## The object that is extracted -/

/-- A text from a brace to the one that closes it. -/
def IsBraced (t : Text) : Prop :=
  ∃ inner : Text, t = '\x7b' :: inner ++ ['\x7d'] ∧ Balanced inner

/-- Where the scan behind a brace ends, the text from this brace to the one
that closes it ends. -/
theorem exists_braced_of_objectEnd {offset stop : ℕ}
    (h : objectEnd 1 false false offset t = some stop) :
    ∃ object after, '\x7b' :: t = object ++ after ∧ IsBraced object := by
  obtain ⟨inner, after, rfl, hinner, -⟩ := exists_of_objectEnd.1 0 _ h
  cases hinner with
  | balanced hinner =>
      exact ⟨'\x7b' :: inner ++ ['\x7d'], after, by simp, inner, rfl, hinner⟩

theorem extractFirstJsonObject_eq {before object : Text}
    (hbefore : '\x7b' ∉ before)
    (hobject : IsBraced object) (after : Text) :
    extractFirstJsonObject (before ++ object ++ after) = some (.ok object) := by
  obtain ⟨inner, rfl, hinner⟩ := hobject
  have hsplit : before ++ ('\x7b' :: inner ++ ['\x7d']) ++ after =
      before ++ '\x7b' :: (inner ++ '\x7d' :: after) := by simp
  have hslice := Text.slice_append before ('\x7b' :: inner ++ ['\x7d']) after
  rw [hsplit] at hslice ⊢
  simp only [extractFirstJsonObject, Text.findChar_append hbefore,
    Text.drain_append_byteLen,
    Option.bind_some, objectEnd_braces hinner, hslice, Option.map_some]

/-- A text without an object is an error, and what is extracted from another is
from its first brace to the one that closes it. -/
theorem extractFirstJsonObject_cases (text : Text) :
    (∃ error, extractFirstJsonObject text = some (.error error)) ∨
      ∃ before object after, text = before ++ object ++ after ∧
        '\x7b' ∉ before ∧
        IsBraced object ∧ extractFirstJsonObject text = some (.ok object) := by
  cases hfind : Text.findChar '\x7b' text with
  | none => exact .inl ⟨_, by rw [extractFirstJsonObject, hfind]⟩
  | some start =>
      obtain ⟨before, rest, rfl, hbefore, rfl⟩ := Text.findChar_spec hfind
      cases hend : objectEnd 0 false false 0 ('\x7b' :: rest) with
      | none =>
          refine .inl ⟨"unterminated JSON object starting at byte ".toList ++
            Text.decimal before.byteLen, ?_⟩
          simp only [extractFirstJsonObject, hfind, Text.drain_append_byteLen,
            Option.bind_some, hend]
      | some stop =>
          rw [objectEnd_open] at hend
          obtain ⟨object, after, hsplit, hobject⟩ :=
            exists_braced_of_objectEnd hend
          rw [hsplit, ← List.append_assoc]
          exact .inr ⟨before, object, after, rfl, hbefore, hobject,
            extractFirstJsonObject_eq hbefore hobject after⟩

/-- An object of JSON behind a text without an opening brace is extracted as it
is, and all that is ever extracted is a part of the text from an opening brace
to the one that closes it. -/
theorem extractFirstJsonObject_spec :
    (∀ before object after : Text, '\x7b' ∉ before → Derives .object object →
        extractFirstJsonObject (before ++ object ++ after) =
          some (.ok object)) ∧
      ∀ text : Text,
        (∃ error, extractFirstJsonObject text = some (.error error)) ∨
        ∃ before object after, extractFirstJsonObject text = some (.ok object) ∧
          text = before ++ object ++ after ∧
          ∃ inner, object = '\x7b' :: inner ++ ['\x7d'] ∧ Balanced inner := by
  constructor
  · intro before object after hbefore hobject
    exact extractFirstJsonObject_eq hbefore hobject.exists_inner after
  · intro text
    rcases extractFirstJsonObject_cases text with
      herror | ⟨before, object, after, hsplit, -,
      hobject, hok⟩
    · exact .inl herror
    · exact .inr ⟨before, object, after, hok, hsplit, hobject⟩

end CodeRs.Probe
