import CodeRs.AutoDrive.DecisionParsing
import CodeRs.Probe.JsonObject

/-!
# The JSON object in the output of the coordinator's model

`extract_first_json_object` of the coordinator reads string literals also in
front of the object.  From the first brace outside them it scans as the
extraction from a probe does.
-/

namespace CodeRs.AutoDrive

open JsonText
open Probe
    (objectEnd objectEnd_braces exists_braced_of_objectEnd StringRest IsBraced)

section Scan

variable {input rest : Text} {idx depth : ℕ}

/-! ## Behind the first brace -/

/-- Behind a brace the scan is the one of a probe's output. -/
theorem firstJsonObjectFrom_open (input : Text) (base depth offset s : ℕ)
    (inStr escape : Bool)
    (rest : Text) :
    firstJsonObjectFrom input (base + offset) (depth + 1) inStr escape
      (some s) rest =
      match objectEnd (depth + 1) inStr escape offset rest with
      | some stop => (input.slice s (base + stop)).map some
      | none => some none := by
  induction rest generalizing depth offset inStr escape with
  | nil => rfl
  | cons c rest ih =>
      have hbase : base + offset + c.utf8Size = base + (offset + c.utf8Size) :=
        Nat.add_assoc ..
      simp only [firstJsonObjectFrom, objectEnd, hbase]
      cases inStr with
      | true =>
          simp only [if_true]
          cases escape with
          | true => exact ih ..
          | false =>
              by_cases hquote : c = '"'
              · subst hquote
                exact ih ..
              · by_cases hslash : c = '\\'
                · subst hslash
                  exact ih ..
                · simp only [Bool.false_eq_true, if_false, if_neg hquote,
                    if_neg hslash]
                  exact ih ..
      | false =>
          simp only [Bool.false_eq_true, if_false]
          split
          next => exact ih ..
          next =>
            split
            next =>
              rw [if_neg (Nat.succ_ne_zero depth)]
              exact ih ..
            next =>
              split
              next =>
                rw [if_neg (Nat.succ_ne_zero depth)]
                cases depth with
                | zero => rfl
                | succ depth => exact ih ..
              next => exact ih ..

/-! ## In front of it -/

theorem firstJsonObjectFrom_inString {c : Char} (hquote : c ≠ '"')
    (hslash : c ≠ '\\') :
    firstJsonObjectFrom input idx depth true false none (c :: rest) =
      firstJsonObjectFrom input (idx + c.utf8Size) depth true false
        none rest := by
  rw [firstJsonObjectFrom, if_pos rfl, if_neg Bool.false_ne_true, if_neg hquote,
    if_neg hslash]

theorem firstJsonObjectFrom_escape (c : Char) :
    firstJsonObjectFrom input idx depth true false none ('\\' :: c :: rest) =
      firstJsonObjectFrom input (idx + 1 + c.utf8Size) depth true false
        none rest := rfl

/-- Outside strings only a quotation mark and an opening brace are told from
the others. -/
theorem firstJsonObjectFrom_plain {c : Char} (hquote : c ≠ '"')
    (hopen : c ≠ '\x7b') :
    firstJsonObjectFrom input idx 0 false false none (c :: rest) =
      firstJsonObjectFrom input (idx + c.utf8Size) 0 false false none rest := by
  rw [firstJsonObjectFrom, if_neg Bool.false_ne_true, if_neg hquote,
    if_neg hopen, if_pos rfl,
    ite_self]

/-- A string literal in front of the object is passed over. -/
theorem firstJsonObjectFrom_stringBody {body : Text} (h : StringBody body) :
    firstJsonObjectFrom input idx depth true false none (body ++ '"' :: rest) =
      firstJsonObjectFrom input (idx + (body.byteLen + 1)) depth false false
        none rest := by
  induction h generalizing idx with
  | nil => rfl
  | plain hquote hslash _ ih =>
      rw [List.cons_append, firstJsonObjectFrom_inString hquote hslash, ih,
        Text.byteLen_cons]
      simp only [Nat.add_assoc]
  | escape c _ ih =>
      rw [List.cons_append, List.cons_append, firstJsonObjectFrom_escape, ih,
        Text.byteLen_cons, Text.byteLen_cons, show ('\\').utf8Size = 1 from rfl]
      simp only [Nat.add_assoc]

/-- A text that opens no brace is passed over. -/
theorem firstJsonObjectFrom_unopened {before : Text} (h : Unopened before) :
    firstJsonObjectFrom input idx 0 false false none (before ++ rest) =
      firstJsonObjectFrom input (idx + before.byteLen) 0 false false
        none rest := by
  induction h generalizing idx with
  | nil => rfl
  | plain hquote hopen _ ih =>
      rw [List.cons_append, firstJsonObjectFrom_plain hquote hopen, ih,
        Text.byteLen_cons,
        Nat.add_assoc]
  | @string body t hbody _ ih =>
      have hquote : firstJsonObjectFrom input idx 0 false false none
          ('"' :: (body ++ '"' :: (t ++ rest))) =
          firstJsonObjectFrom input (idx + 1) 0 true false none
            (body ++ '"' :: (t ++ rest)) := rfl
      rw [List.cons_append, List.cons_append, List.append_assoc,
        List.cons_append, hquote,
        firstJsonObjectFrom_stringBody hbody, ih, Text.byteLen_cons,
        Text.byteLen_append,
        Text.byteLen_cons, show ('"').utf8Size = 1 from rfl]
      congr 1
      omega

/-- Where the scan finds a brace, no other opens in front of it. -/
theorem exists_open (text : Text) :
    ((∀ idx,
      firstJsonObjectFrom input idx 0 false false none text = some none) ∨
      ∃ before rest : Text, text = before ++ '\x7b' :: rest ∧ Unopened before) ∧
    ∀ escape,
      (∀ idx,
        firstJsonObjectFrom input idx 0 true escape none text = some none) ∨
      ∃ body before rest : Text,
        text = body ++ '"' :: (before ++ '\x7b' :: rest) ∧
        StringRest escape body ∧ Unopened before := by
  induction text with
  | nil => exact ⟨.inl fun idx => rfl, fun escape => .inl fun idx => rfl⟩
  | cons c text ih =>
      obtain ⟨ihout, ihin⟩ := ih
      refine ⟨?_, fun escape => ?_⟩
      · by_cases hquote : c = '"'
        · subst hquote
          rcases ihin false with
            hnone | ⟨body, before, rest, rfl, hbody, hbefore⟩
          · exact .inl fun idx => hnone (idx + 1)
          · exact .inr ⟨'"' :: body ++ '"' :: before, rest,
              by simp, .string hbody hbefore⟩
        by_cases hopen : c = '\x7b'
        · subst hopen
          exact .inr ⟨[], text, rfl, .nil⟩
        rcases ihout with hnone | ⟨before, rest, rfl, hbefore⟩
        · refine .inl fun idx => ?_
          rw [firstJsonObjectFrom_plain hquote hopen]
          exact hnone _
        · exact .inr ⟨c :: before, rest, rfl, .plain hquote hopen hbefore⟩
      · cases escape with
        | true =>
            rcases ihin false with
              hnone | ⟨body, before, rest, rfl, hbody, hbefore⟩
            · exact .inl fun idx => hnone (idx + c.utf8Size)
            · exact .inr ⟨c :: body, before, rest, rfl,
                ⟨c, body, rfl, hbody⟩, hbefore⟩
        | false =>
            by_cases hslash : c = '\\'
            · subst hslash
              rcases ihin true with
                hnone | ⟨_, before, rest, rfl, ⟨d, body, rfl, hbody⟩,
                hbefore⟩
              · exact .inl fun idx => hnone (idx + 1)
              · exact .inr ⟨'\\' :: d :: body, before, rest, rfl,
                  .escape d hbody, hbefore⟩
            by_cases hquote : c = '"'
            · subst hquote
              rcases ihout with hnone | ⟨before, rest, rfl, hbefore⟩
              · exact .inl fun idx => hnone (idx + 1)
              · exact .inr ⟨[], before, rest, rfl, .nil, hbefore⟩
            rcases ihin false with
              hnone | ⟨body, before, rest, rfl, hbody, hbefore⟩
            · refine .inl fun idx => ?_
              rw [firstJsonObjectFrom_inString hquote hslash]
              exact hnone _
            · exact .inr ⟨c :: body, before, rest, rfl,
                .plain hquote hslash hbody, hbefore⟩

end Scan

/-! ## What is extracted -/

/-- Behind a text that opens no brace the extraction is the one from a probe's
output. -/
theorem extractFirstJsonObject_open {before : Text} (hbefore : Unopened before)
    (rest : Text) :
    extractFirstJsonObject (before ++ '\x7b' :: rest) =
      match objectEnd 1 false false 1 rest with
      | some stop => ((before ++ '\x7b' :: rest : Text).slice before.byteLen
          (before.byteLen + stop)).map some
      | none => some none := by
  rw [extractFirstJsonObject, firstJsonObjectFrom_unopened hbefore,
    Nat.zero_add]
  exact firstJsonObjectFrom_open _ _ 0 1 _ false false rest

/-- The text from the first brace outside strings to the one that closes it is
extracted. -/
theorem extractFirstJsonObject_eq {before object : Text}
    (hbefore : Unopened before)
    (hobject : IsBraced object) (after : Text) :
    extractFirstJsonObject (before ++ object ++ after) =
      some (some object) := by
  obtain ⟨inner, rfl, hinner⟩ := hobject
  have hsplit : before ++ ('\x7b' :: inner ++ ['\x7d']) ++ after =
      before ++ '\x7b' :: (inner ++ '\x7d' :: after) := by simp
  have hslice := Text.slice_append before ('\x7b' :: inner ++ ['\x7d']) after
  have hend : objectEnd 1 false false 1 (inner ++ '\x7d' :: after) =
      some (Text.byteLen ('\x7b' :: inner ++ ['\x7d'])) :=
    objectEnd_braces hinner
  rw [hsplit] at hslice ⊢
  simp only [extractFirstJsonObject_open hbefore, hend, hslice, Option.map_some]

/-- Nothing is extracted, or the text from the first brace outside strings to
the one that closes it.  The scan cuts no character. -/
theorem extractFirstJsonObject_cases (text : Text) :
    extractFirstJsonObject text = some none ∨
      ∃ before object after, text = before ++ object ++ after ∧
        Unopened before ∧
        IsBraced object ∧ extractFirstJsonObject text = some (some object) := by
  rcases (@exists_open text text).1 with hnone | ⟨before, rest, rfl, hbefore⟩
  · exact .inl (hnone 0)
  · cases hend : objectEnd 1 false false 1 rest with
    | none =>
        refine .inl ?_
        simp only [extractFirstJsonObject_open hbefore, hend]
    | some stop =>
        obtain ⟨object, after, hsplit, hobject⟩ :=
          exists_braced_of_objectEnd hend
        rw [hsplit, ← List.append_assoc]
        exact .inr ⟨before, object, after, rfl, hbefore, hobject,
          extractFirstJsonObject_eq hbefore hobject after⟩

theorem extractFirstJsonObject_eq_some_iff {text object : Text} :
    extractFirstJsonObject text = some (some object) ↔
      ∃ before after, text = before ++ object ++ after ∧ Unopened before ∧
        IsBraced object := by
  constructor
  · intro h
    rcases extractFirstJsonObject_cases text with
      hnone | ⟨before, object', after, hsplit,
      hbefore, hobject, hsome⟩
    · rw [hnone] at h
      cases h
    · rw [hsome] at h
      cases h
      exact ⟨before, after, hsplit, hbefore, hobject⟩
  · rintro ⟨before, after, rfl, hbefore, hobject⟩
    exact extractFirstJsonObject_eq hbefore hobject after

theorem extractFirstJsonObject_ne_none (text : Text) :
    extractFirstJsonObject text ≠ none := by
  rcases extractFirstJsonObject_cases text with
    hnone | ⟨_, _, _, -, -, -, hsome⟩
  · rw [hnone]
    exact Option.some_ne_none _
  · rw [hsome]
    exact Option.some_ne_none _

/-! ## What the coordinator and a probe extract -/

/-- Behind a text without an opening brace, the coordinator extracts an object
of JSON, as a probe does, exactly if some copy of the object stands behind a
text that opens no brace and whose string literals are closed. -/
theorem extractFirstJsonObject_agrees_iff {before object : Text}
    (hbefore : '\x7b' ∉ before)
    (hobject : Derives .object object) (after : Text) :
    (extractFirstJsonObject (before ++ object ++ after) = some (some object) ∧
        Probe.extractFirstJsonObject (before ++ object ++ after) =
          some (.ok object)) ↔
      ∃ before' after', before ++ object ++ after =
        before' ++ object ++ after' ∧
        Unopened before' := by
  have hbraced : IsBraced object := hobject.exists_inner
  constructor
  · rintro ⟨hsome, -⟩
    obtain ⟨before', after', hsplit, hbefore', -⟩ :=
      extractFirstJsonObject_eq_some_iff.1 hsome
    exact ⟨before', after', hsplit, hbefore'⟩
  · rintro ⟨before', after', hsplit, hbefore'⟩
    refine ⟨?_, Probe.extractFirstJsonObject_eq hbefore hbraced after⟩
    rw [hsplit]
    exact extractFirstJsonObject_eq hbefore' hbraced after'

def answer : Text := "\x7b\"a\":1\x7d".toList

theorem derives_answer : Derives .object answer := by
  have hblank : Blank [] := fun c hc => by cases hc
  have hnumber : Number ([] ++ ['1'] ++ [] ++ []) :=
    .mk (by simp) (.inr ⟨⟨by simp, List.forall_mem_singleton.2 rfl⟩,
      by simp⟩) (.inl rfl)
      (.inl rfl)
  have hmember :
      Derives .member ([] ++ ('"' :: ['a'] ++ ['"']) ++ [] ++ ':' :: ['1']) :=
    .member hblank (.plain (by decide) (by decide) (by decide) .nil) hblank
      (.element hblank (.number hnumber) hblank)
  exact .braces (.oneMember hmember)

/-- Behind an introduction both extract the answer. -/
theorem extractFirstJsonObject_agrees_answer :
    extractFirstJsonObject ("It's: ".toList ++ answer ++ []) =
      some (some answer) ∧
      Probe.extractFirstJsonObject ("It's: ".toList ++ answer ++ []) =
        some (.ok answer) := by
  refine (extractFirstJsonObject_agrees_iff (by decide) derives_answer []).2 ⟨_,
    [], rfl, ?_⟩
  repeat first
    | exact .nil
    | refine .plain (by decide) (by decide) ?_

/-- Behind a quotation mark that nothing closes the coordinator extracts
nothing. -/
theorem not_extractFirstJsonObject_agrees :
    ¬ ∀ before object after : Text, '\x7b' ∉ before → Derives .object object →
      extractFirstJsonObject (before ++ object ++ after) = some (some object) ∧
        Probe.extractFirstJsonObject (before ++ object ++ after) =
          some (.ok object) := by
  intro h
  obtain ⟨hsome, -⟩ :=
    h "A 5\" screen: ".toList answer [] (by decide) derives_answer
  exact absurd hsome (by decide)

/-! ## The slices of `parse_decision` -/

/-- What is written of a value that fits no schema. -/
def payloadOf (serde : SerdeJson) (value : Json) : Text :=
  (serde.toString value).getD "<unprintable json>".toList

/-- The value of an output: of all of it, or else of its first object. -/
def Reads (serde : SerdeJson) (raw : Text) (value : Json) : Prop :=
  serde.fromStr raw = some value ∨ serde.fromStr raw = none ∧
    ∃ before object after, raw = before ++ object ++ after ∧ Unopened before ∧
      IsBraced object ∧ serde.fromStr object = some value

theorem readValue_eq_ok_iff {serde : SerdeJson} {raw : Text} {value : Json} :
    readValue serde raw = some (.ok value) ↔ Reads serde raw value := by
  rw [readValue, Reads]
  cases hwhole : serde.fromStr raw with
  | some whole => simp
  | none =>
      rcases extractFirstJsonObject_cases raw with
        hnone | ⟨before, object, after, hsplit,
        hbefore, hobject, hsome⟩
      · have hno : ¬ ∃ before object after, raw = before ++ object ++ after ∧
            Unopened before ∧ IsBraced object ∧
            serde.fromStr object = some value := by
          rintro ⟨before, object, after, hsplit, hbefore, hobject, -⟩
          have hsome := extractFirstJsonObject_eq_some_iff.2
            ⟨before, after, hsplit, hbefore, hobject⟩
          rw [hnone] at hsome
          cases hsome
        refine ⟨fun h => by simp [hnone] at h, ?_⟩
        rintro (h | ⟨-, h⟩)
        · cases h
        · exact absurd h hno
      · have hiff : (∃ before object after, raw = before ++ object ++ after ∧
            Unopened before ∧ IsBraced object ∧
            serde.fromStr object = some value) ↔
            serde.fromStr object = some value := by
          constructor
          · rintro ⟨before', object', after', hsplit', hbefore',
              hobject', hvalue⟩
            have hsome' := extractFirstJsonObject_eq_some_iff.2
              ⟨before', after', hsplit', hbefore', hobject'⟩
            obtain rfl :=
              Option.some.inj (Option.some.inj (hsome.symm.trans hsome'))
            exact hvalue
          · exact fun hvalue =>
              ⟨before, object, after, hsplit, hbefore, hobject, hvalue⟩
        rw [hiff]
        cases hobject : serde.fromStr object <;> simp [hsome, hobject]

theorem readValue_ne_none (serde : SerdeJson) (raw : Text) :
    readValue serde raw ≠ none := by
  rw [readValue]
  cases serde.fromStr raw with
  | some value => exact Option.some_ne_none _
  | none =>
      obtain ⟨extracted, hextracted⟩ :=
        Option.ne_none_iff_exists'.1 (extractFirstJsonObject_ne_none raw)
      cases extracted with
      | none => simp [hextracted]
      | some object => cases h : serde.fromStr object <;> simp [hextracted, h]

theorem schemaMismatch_isSome_iff (serde : SerdeJson) (value : Json) :
    (schemaMismatch serde value).isSome ↔
      (2000 < (payloadOf serde value).byteLen →
        (payloadOf serde value).IsBoundary 2000) := by
  rw [← Text.isSome_getTo_iff, schemaMismatch, ← payloadOf]
  by_cases hlong : 2000 < (payloadOf serde value).byteLen
  · rw [if_pos hlong, imp_iff_right hlong]
    cases (payloadOf serde value).getTo 2000 with
    | none => rfl
    | some snippet => exact iff_of_true rfl rfl
  · rw [if_neg hlong]
    exact iff_of_true rfl fun h => absurd h hlong

/-- The extraction always returns.  `parse_decision` returns exactly if the
value of the output fits a schema, or is written in 2000 bytes, or else a
character of what is written begins at byte 2000. -/
theorem parseDecision_returns_iff (serde : SerdeJson) (raw : Text)
    (options : DecisionParseOptions) :
    (extractFirstJsonObject raw).isSome = true ∧
    ((parseDecision serde raw options).isSome = true ↔
      ∀ value, Reads serde raw value →
        CoordinatorDecisionNew.decode value = none →
        CoordinatorDecisionLegacy.decode value = none →
        2000 < (payloadOf serde value).byteLen →
          (payloadOf serde value).IsBoundary 2000) := by
  refine ⟨Option.isSome_iff_ne_none.2 (extractFirstJsonObject_ne_none raw), ?_⟩
  simp only [← readValue_eq_ok_iff, parseDecision]
  obtain ⟨result, hread⟩ :=
    Option.ne_none_iff_exists'.1 (readValue_ne_none serde raw)
  cases result with
  | error error => simp [hread]
  | ok value =>
      have hvalue : ∀ value',
          some (Except.ok value) = some (Except.ok (ε := Text) value') ↔
          value = value' := by simp
      simp only [hread, hvalue, forall_eq', Option.bind_eq_bind,
        Option.bind_some]
      cases hnew : CoordinatorDecisionNew.decode value with
      | some decision => simp
      | none =>
          cases hlegacy : CoordinatorDecisionLegacy.decode value with
          | some decision => simp
          | none =>
              have hmismatch := schemaMismatch_isSome_iff serde value
              cases h : schemaMismatch serde value <;>
                simp [h] at hmismatch ⊢ <;> exact hmismatch

/-! ## A slice inside a character -/

/-- At an odd byte no character begins among those of two bytes. -/
theorem not_isBoundary_replicate (t : Text) {n k : ℕ} (h : k < n) :
    ¬ Text.IsBoundary (List.replicate n 'é' ++ t) (2 * k + 1) := by
  induction k generalizing n with
  | zero =>
      obtain ⟨n, rfl⟩ : ∃ m, n = m + 1 := ⟨n - 1, by omega⟩
      rw [← Text.isSome_drain_iff, Nat.mul_zero, Nat.zero_add,
        List.replicate_succ]
      exact Bool.false_ne_true
  | succ k ih =>
      obtain ⟨n, rfl⟩ : ∃ m, n = m + 1 := ⟨n - 1, by omega⟩
      have hstep :=
        Text.isBoundary_append_right ['é']
          (List.replicate n 'é' ++ t) (2 * k + 1)
      have hbytes : Text.byteLen ['é'] + (2 * k + 1) = 2 * (k + 1) + 1 := by
        rw [show Text.byteLen ['é'] = 2 from rfl]
        omega
      rw [hbytes] at hstep
      exact fun hboundary => ih (by omega) (hstep.1 hboundary)

/-- A string of many characters of two bytes behind one of one. -/
def longAnswer (n : ℕ) : Text := 'a' :: List.replicate n 'é'

/-- An object with one string in it. -/
def oneMember (key value : Text) : Text :=
  '\x7b' :: '"' :: key ++ '"' :: ':' :: '"' :: value ++ ['"', '\x7d']

/-- An output that fits no schema. -/
def longOutput (n : ℕ) : Text := oneMember ['x'] (longAnswer n)

def longValue (n : ℕ) : Json :=
  .object [("x", .string (String.ofList (longAnswer n)))]

/-- What is read and written of the output. -/
def longSerde (n : ℕ) : SerdeJson where
  fromStr text := if text = longOutput n then some (longValue n) else none
  toString
    | .object [(key, .string text)] => some (oneMember key.toList text.toList)
    | _ => none
  newErr _ := "missing field `finish_status`".toList
  legacyErr _ := "missing field `finish_status`".toList

theorem payloadOf_longValue (n : ℕ) :
    payloadOf (longSerde n) (longValue n) = longOutput n := by
  simp [payloadOf, longSerde, longValue, longOutput]

theorem not_isBoundary_longOutput {n : ℕ} (h : 1000 ≤ n) :
    2000 < (longOutput n).byteLen ∧ ¬ (longOutput n).IsBoundary 2000 := by
  have hsplit : longOutput n =
      "\x7b\"x\":\"a".toList ++ (List.replicate n 'é' ++ ['"', '\x7d']) := rfl
  have hhead : Text.byteLen "\x7b\"x\":\"a".toList + (2 * 996 + 1) = 2000 := by
    decide
  have hlen : 2 * n ≤ Text.byteLen (List.replicate n 'é') := by
    rw [Text.byteLen_replicate]
    exact Nat.le_of_eq (Nat.mul_comm ..)
  refine ⟨?_, ?_⟩
  · rw [hsplit, Text.byteLen_append, Text.byteLen_append]
    have hpos : Text.byteLen "\x7b\"x\":\"a".toList = 7 := by decide
    omega
  · rw [hsplit, ← hhead, Text.isBoundary_append_right]
    exact not_isBoundary_replicate _ (by omega)

/-- A slice of the payload ends inside a character. -/
theorem parseDecision_longOutput {n : ℕ} (h : 1000 ≤ n)
    (options : DecisionParseOptions) :
    parseDecision (longSerde n) (longOutput n) options = none := by
  obtain ⟨hlong, hcut⟩ := not_isBoundary_longOutput h
  have hread :
      readValue (longSerde n) (longOutput n) = some (.ok (longValue n)) := by
    simp [readValue, longSerde]
  have hnew : CoordinatorDecisionNew.decode (longValue n) = none := rfl
  have hlegacy : CoordinatorDecisionLegacy.decode (longValue n) = none := rfl
  have hmismatch : schemaMismatch (longSerde n) (longValue n) = none := by
    rw [← Option.not_isSome_iff_eq_none, schemaMismatch_isSome_iff,
      payloadOf_longValue]
    exact fun hboundary => hcut (hboundary hlong)
  simp only [parseDecision, hread, hnew, hlegacy, hmismatch,
    Option.bind_eq_bind,
    Option.bind_some, Option.bind_none]

/-- On an output of 2009 bytes `parse_decision` panics. -/
theorem not_parseDecision_returns :
    ¬ ∀ (serde : SerdeJson) (raw : Text) (options : DecisionParseOptions),
      (parseDecision serde raw options).isSome = true := by
  intro h
  have hsome := h (longSerde 1000) (longOutput 1000) ⟨false, []⟩
  rw [parseDecision_longOutput (Nat.le_refl 1000)] at hsome
  cases hsome

end CodeRs.AutoDrive
