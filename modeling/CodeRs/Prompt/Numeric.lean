import CodeRs.Prompt.PromptArgs
import Mathlib.Data.List.Infix

/-!
# Numeric placeholders

What `expand_numeric_placeholders` does is to cut the content into pairs of
dollar signs, placeholders and other characters, once from left to right, and
to put the arguments in the place of the placeholders.
`prompt_has_numeric_placeholders` looks for placeholders in the text, so it
finds those behind a pair of dollar signs too, which the expansion leaves
alone.
-/

namespace CodeRs.Prompt

open Text

/-! ## The reference -/

inductive Piece where
  | pair
  | position (digit : Char)
  | arguments
  | char (c : Char)
  deriving DecidableEq

/-- The digits of placeholders. -/
def isPosition (c : Char) : Bool := 49 ≤ c.toNat && c.toNat ≤ 57

def argumentsName : Text := "ARGUMENTS".toList

/-- The pieces of a content, from left to right. -/
def pieces : Text → List Piece
  | [] => []
  | c :: t =>
      if c = '$' then
        match t with
        | [] => [.char c]
        | d :: rest =>
            if d = '$' then .pair :: pieces rest
            else if isPosition d then .position d :: pieces rest
            else if argumentsName.isPrefixOf (d :: rest) then
              .arguments :: pieces ((d :: rest).drop argumentsName.length)
            else .char c :: pieces (d :: rest)
      else .char c :: pieces t
termination_by t => t.length
decreasing_by
  all_goals
    simp only [List.length_cons, List.length_drop]
    omega

namespace Piece

/-- The piece as it stands in the content. -/
def source : Piece → Text
  | pair => ['$', '$']
  | position digit => ['$', digit]
  | arguments => '$' :: argumentsName
  | char c => [c]

/-- What comes in the place of the piece. -/
def render (args : List Text) : Piece → Text
  | position digit => (args[digit.toNat - 49]?).getD []
  | arguments => [' '].intercalate args
  | piece => piece.source

def isPlaceholder : Piece → Bool
  | position _ | arguments => true
  | pair | char _ => false

theorem source_ne_nil (piece : Piece) : piece.source ≠ [] := by
  cases piece <;> exact List.cons_ne_nil _ _

/-- The digit of a placeholder is one. -/
def IsValid : Piece → Prop
  | position digit => isPosition digit = true
  | pair | arguments | char _ => True

end Piece

/-- The arguments in the places of the placeholders. -/
def substituted (content : Text) (args : List Text) : Text :=
  (pieces content).flatMap (Piece.render args)

/-! ## Pieces -/

theorem pieces_of_ne {c : Char} (h : c ≠ '$') (t : Text) :
    pieces (c :: t) = .char c :: pieces t := by
  rw [pieces.eq_def]
  dsimp only
  rw [if_neg h]

theorem pieces_pair (t : Text) :
    pieces ('$' :: '$' :: t) = .pair :: pieces t := by
  rw [pieces.eq_def]
  rfl

theorem pieces_position {d : Char} (h : isPosition d = true) (t : Text) :
    pieces ('$' :: d :: t) = .position d :: pieces t := by
  have hd : d ≠ '$' := by
    rintro rfl
    exact absurd h (by decide)
  rw [pieces.eq_def]
  dsimp only
  rw [if_pos rfl, if_neg hd, if_pos h]

theorem pieces_append {before : Text} (h : '$' ∉ before) (t : Text) :
    pieces (before ++ t) = before.map .char ++ pieces t := by
  induction before with
  | nil => rfl
  | cons c before ih =>
      have hc : c ≠ '$' := fun heq => h (heq ▸ List.mem_cons_self)
      rw [List.cons_append, pieces_of_ne hc,
        ih fun hmem => h (List.mem_cons_of_mem c hmem),
        List.map_cons, List.cons_append]

theorem flatMap_render_char (args : List Text) (t : Text) :
    (t.map Piece.char).flatMap (Piece.render args) = t := by
  rw [List.flatMap_map]
  exact List.flatMap_singleton' t

/-! ## One round of the expansion -/

/-- The byte behind a dollar sign says what the character there is. -/
theorem exists_second_byte (d : Char) (rest : Text) :
    ∃ byte, (utf8 ('$' :: d :: rest))[1]? = some byte ∧ (byte = 36 ↔ d = '$') ∧
      isPositionByte byte = isPosition d ∧
      (isPosition d = true → byte.toNat = d.toNat) := by
  obtain ⟨byte, bytes, hutf8, hbyte⟩ := exists_utf8_cons d rest
  have hsecond : (utf8 ('$' :: d :: rest))[1]? = some byte := by
    rw [utf8_cons, hutf8]
    rfl
  have hdollar : byte = 36 ↔ byte.toNat = 36 := UInt8.toNat_inj.symm
  have hchar : d = '$' ↔ d.toNat = 36 := Char.toNat_inj.symm
  refine ⟨byte, hsecond, ?_, ?_, ?_⟩
  · rw [hdollar, hchar]
    omega
  · rw [isPositionByte, isPosition]
    rcases hbyte with ⟨-, hbyte⟩ | ⟨hd, hbyte⟩
    · rw [hbyte]
    · have hlarge : ¬ byte.toNat ≤ 57 ∧ ¬ d.toNat ≤ 57 := by omega
      simp [hlarge]
  · intro hposition
    have hrange : 49 ≤ d.toNat ∧ d.toNat ≤ 57 := by
      simpa [isPosition] using hposition
    omega

/-- What is added for a dollar sign with a character behind it. -/
theorem expandDollar_cons (args : List Text) (d : Char) (rest : Text) :
    expandDollar args ('$' :: d :: rest) =
      if d = '$' then some (['$', '$'], 2)
      else if isPosition d then some ((args[d.toNat - 49]?).getD [], 2)
      else if argumentsName.isPrefixOf (d :: rest) then
      some ([' '].intercalate args, 10)
      else some (['$'], 1) := by
  obtain ⟨byte, hbyte, hdollar, hposition, hvalue⟩ := exists_second_byte d rest
  rw [expandDollar, hbyte]
  by_cases hpair : d = '$'
  · rw [if_pos hpair, if_pos (by rw [hdollar.2 hpair])]
  · rw [if_neg hpair, if_neg fun h => hpair (hdollar.1 (Option.some.inj h)),
      Option.filter_some,
      hposition]
    by_cases hd : isPosition d = true
    · rw [if_pos hd, if_pos hd]
      dsimp only
      rw [hvalue hd]
    · rw [if_neg hd, if_neg hd]
      have hdrain : drain ('$' :: d :: rest) 1 = some (d :: rest) := rfl
      dsimp only
      rw [hdrain, Option.map_some]
      by_cases hname : argumentsName.isPrefixOf (d :: rest) = true
      · have hstarts : startsWith (d :: rest) "ARGUMENTS" = true := hname
        obtain ⟨tail, htail⟩ := List.isPrefixOf_iff_prefix.1 hname
        have hlen :
            byteLen "ARGUMENTS".toList < byteLen ('$' :: d :: rest) := by
          rw [← htail, byteLen_cons, byteLen_append]
          exact Nat.lt_of_lt_of_le (Nat.lt_add_of_pos_left (by decide))
            (Nat.add_le_add_left (Nat.le_add_right _ _) _)
        rw [if_pos hlen, if_pos hstarts, if_pos hname]
        cases args with
        | nil => rfl
        | cons arg args => rfl
      · have hstarts : ¬ startsWith (d :: rest) "ARGUMENTS" = true := hname
        rw [if_neg hstarts, if_neg hname, ite_self]

/-- The first piece of a text that begins with a dollar sign is what the code
expands. -/
theorem pieces_dollar (args : List Text) (t : Text) :
    ∃ piece rest, pieces ('$' :: t) = piece :: pieces rest ∧
      '$' :: t = piece.source ++ rest ∧
      piece.IsValid ∧
      expandDollar args ('$' :: t) =
        some (piece.render args, byteLen piece.source) := by
  rw [pieces.eq_def]
  dsimp only
  rw [if_pos rfl]
  cases t with
  | nil => exact ⟨.char '$', [], by rw [pieces], rfl, trivial, rfl⟩
  | cons d rest =>
      rw [expandDollar_cons]
      dsimp only
      split
      next hd => exact ⟨.pair, rest, rfl, by rw [hd]; rfl, trivial, rfl⟩
      next =>
        split
        next hd =>
          have hrange : 49 ≤ d.toNat ∧ d.toNat ≤ 57 := by
            simpa [isPosition] using hd
          have hlen : byteLen (Piece.position d).source = 2 := by
            rw [Piece.source, byteLen_cons, byteLen_cons,
              utf8Size_of_lt (c := d) (by omega)]
            rfl
          exact ⟨.position d, rest, rfl, rfl, hd, by rw [hlen]; rfl⟩
        next =>
          split
          next hname =>
            obtain ⟨tail, htail⟩ := List.isPrefixOf_iff_prefix.1 hname
            refine ⟨.arguments, tail, ?_, ?_, trivial, rfl⟩
            · rw [← htail, List.drop_left]
            · rw [← htail]
              rfl
          next => exact ⟨.char '$', d :: rest, rfl, rfl, trivial, rfl⟩

theorem pieces_induction {P : Text → Prop} (hnil : P [])
    (hpiece : ∀ (piece : Piece) (rest : Text), piece.IsValid →
      pieces (piece.source ++ rest) = piece :: pieces rest → P rest →
      P (piece.source ++ rest))
    (content : Text) : P content := by
  induction hlen : content.length using
    Nat.strong_induction_on generalizing content with
  | _ n ih =>
      cases content with
      | nil => exact hnil
      | cons c t =>
          by_cases hc : c = '$'
          · rw [hc] at hlen ⊢
            obtain ⟨piece, rest, hpieces, hsplit, hvalid, -⟩ :=
              pieces_dollar [] t
            have hshort : rest.length < n := by
              have hsource : 0 < piece.source.length :=
                List.length_pos_of_ne_nil piece.source_ne_nil
              rw [← hlen, hsplit, List.length_append]
              omega
            rw [hsplit] at hpieces ⊢
            exact hpiece piece rest hvalid hpieces (ih _ hshort rest rfl)
          · have hshort : t.length < n := by
              rw [← hlen]
              exact Nat.lt_succ_self _
            exact hpiece (.char c) t trivial (pieces_of_ne hc t)
              (ih _ hshort t rfl)

/-! ## The expansion is the substitution -/

theorem expandFrom_eq (args : List Text) (rounds : ℕ) (before t out : Text)
    (h : byteLen t < rounds) :
    expandFrom (before ++ t) args rounds before.byteLen out =
      some (out ++ substituted t args) := by
  induction rounds generalizing before t out with
  | zero => exact absurd h (Nat.not_lt_zero _)
  | succ rounds ih =>
      rw [expandFrom, drain_append_byteLen, Option.bind_some]
      cases hfind : findChar '$' t with
      | none =>
          have hpieces := pieces_append (findChar_eq_none.1 hfind) []
          rw [List.append_nil] at hpieces
          rw [substituted, hpieces, pieces, List.append_nil,
            flatMap_render_char]
      | some off =>
          obtain ⟨gap, after, rfl, hgap, rfl⟩ := findChar_spec hfind
          obtain ⟨piece, rest, hpieces, hsplit, -, hexpand⟩ :=
            pieces_dollar args after
          have hdrain :
              drain (before ++ (gap ++ '$' :: after))
                (before.byteLen + gap.byteLen) =
              some ('$' :: after) := by
            rw [← List.append_assoc, ← byteLen_append, drain_append_byteLen]
          have hslice : slice (before ++ (gap ++ '$' :: after)) before.byteLen
              (before.byteLen + gap.byteLen) = some gap := by
            rw [← List.append_assoc, slice_append]
          have hnext : before ++ (gap ++ '$' :: after) =
              (before ++ gap ++ piece.source) ++ rest := by
            rw [hsplit, List.append_assoc, List.append_assoc]
          have hpos : before.byteLen + gap.byteLen + byteLen piece.source =
              byteLen (before ++ gap ++ piece.source) := by
            rw [byteLen_append, byteLen_append]
          have hlen : byteLen rest < rounds := by
            have hsource : 0 < byteLen piece.source :=
              Nat.pos_of_ne_zero fun hzero =>
                piece.source_ne_nil (byteLen_eq_zero.1 hzero)
            rw [hsplit, byteLen_append, byteLen_append] at h
            omega
          dsimp only
          rw [hslice, Option.bind_some, hdrain, Option.bind_some, hexpand,
            Option.bind_some]
          dsimp only
          rw [hpos, hnext, ih (before ++ gap ++ piece.source) rest _ hlen,
            substituted,
            substituted, pieces_append hgap, hpieces, List.flatMap_append,
            flatMap_render_char,
            List.flatMap_cons]
          simp only [List.append_assoc]

/-- `expand_numeric_placeholders` returns, and puts the arguments in the places
of the placeholders. -/
theorem expandNumericPlaceholders_eq (content : Text) (args : List Text) :
    expandNumericPlaceholders content args = some (substituted content args) :=
  expandFrom_eq args (content.byteLen + 1) [] content [] (Nat.lt_succ_self _)

/-! ## What the detector sees -/

/-- A placeholder is in the text, wherever it is. -/
def HasPlaceholderText (content : Text) : Prop :=
  '$' :: argumentsName <:+: content ∨
    ∃ d, isPosition d = true ∧ ['$', d] <:+: content

theorem hasPositionBytes_cons {b : UInt8} (h : b ≠ 36) (bytes : List UInt8) :
    hasPositionBytes (b :: bytes) = hasPositionBytes bytes := by
  cases bytes with
  | nil => rfl
  | cons b1 bytes => simp [hasPositionBytes, h]

theorem hasPositionBytes_append {front : List UInt8} (h : ∀ b ∈ front, b ≠ 36)
    (bytes : List UInt8) :
    hasPositionBytes (front ++ bytes) = hasPositionBytes bytes := by
  induction front with
  | nil => rfl
  | cons b front ih =>
      rw [List.cons_append, hasPositionBytes_cons (h b List.mem_cons_self),
        ih fun b hb => h b (List.mem_cons_of_mem _ hb)]

/-- The bytes have a dollar sign with a digit behind it where the text has. -/
theorem hasPositionBytes_utf8 (content : Text) :
    hasPositionBytes (utf8 content) = true ↔
      ∃ d, isPosition d = true ∧ ['$', d] <:+: content := by
  induction content with
  | nil => simp [hasPositionBytes]
  | cons c t ih =>
      by_cases hc : c = '$'
      · rw [hc]
        cases t with
        | nil =>
            have hshort : ∀ d, ¬ ['$', d] <:+: ['$'] := fun d h =>
              absurd h.length_le (by simp)
            exact iff_of_false (by decide) fun ⟨d, _, h⟩ => hshort d h
        | cons d rest =>
            obtain ⟨byte, bytes, hutf8, -⟩ := exists_utf8_cons d rest
            obtain ⟨second, hsecond, -, hposition, -⟩ :=
              exists_second_byte d rest
            have hbytes : utf8 ('$' :: d :: rest) = 36 :: byte :: bytes := by
              rw [utf8_cons, hutf8]
              rfl
            rw [hbytes] at hsecond
            cases hsecond
            rw [hbytes, hasPositionBytes, Bool.or_eq_true, ← hutf8,
              ih, hposition]
            simp only [List.infix_cons_iff (a := '$'),
              List.cons_prefix_cons, true_and]
            simp only [decide_true, Bool.true_and]
            constructor
            · rintro (hd | ⟨e, he, hmem⟩)
              · exact ⟨d, hd, .inl ⟨rfl, List.nil_prefix⟩⟩
              · exact ⟨e, he, .inr hmem⟩
            · rintro ⟨e, he, ⟨rfl, -⟩ | hmem⟩
              · exact .inl he
              · exact .inr ⟨e, he, hmem⟩
      · have hskip : ∀ b ∈ String.utf8EncodeChar c, b ≠ 36 := by
          rintro b hb rfl
          rcases mem_utf8EncodeChar hb with ⟨-, hvalue⟩ | ⟨-, hlarge⟩
          · exact hc (Char.toNat_inj.1 hvalue.symm)
          · exact absurd hlarge (by decide)
        rw [utf8_cons, hasPositionBytes_append hskip, ih]
        refine exists_congr fun d => and_congr_right fun _ => ?_
        rw [List.infix_cons_iff (a := c), List.cons_prefix_cons]
        simp [Ne.symm hc]

theorem promptHasNumericPlaceholders_iff (content : Text) :
    promptHasNumericPlaceholders content = true ↔
      HasPlaceholderText content := by
  rw [promptHasNumericPlaceholders, Bool.or_eq_true, hasPositionBytes_utf8,
    HasPlaceholderText]
  exact or_congr decide_eq_true_iff Iff.rfl

/-! ## What the arguments change -/

theorem flatMap_source (content : Text) :
    (pieces content).flatMap Piece.source = content := by
  induction content using pieces_induction with
  | hnil => rw [pieces, List.flatMap_nil]
  | hpiece piece rest hvalid hpieces ih => rw [hpieces, List.flatMap_cons, ih]

theorem hasPlaceholderText_of_mem {content : Text} {piece : Piece}
    (hmem : piece ∈ pieces content)
    (hplace : piece.isPlaceholder = true) : HasPlaceholderText content := by
  have hsource : piece.source <:+: content ∧ piece.IsValid := by
    induction content using pieces_induction with
    | hnil =>
        rw [pieces] at hmem
        cases hmem
    | hpiece first rest hvalid hpieces ih =>
        rw [hpieces] at hmem
        rcases List.mem_cons.1 hmem with rfl | hmem
        · exact ⟨(List.prefix_append _ _).isInfix, hvalid⟩
        · obtain ⟨hin, hpiece⟩ := ih hmem
          exact ⟨hin.trans (List.suffix_append _ _).isInfix, hpiece⟩
  cases piece with
  | position digit => exact .inr ⟨digit, hsource.2, hsource.1⟩
  | arguments => exact .inl hsource.1
  | pair | char c => cases hplace

theorem length_render_nil (ps : List Piece) :
    (ps.flatMap (Piece.render [])).length + ps.countP Piece.isPlaceholder ≤
      (ps.flatMap Piece.source).length := by
  induction ps with
  | nil => exact le_rfl
  | cons piece ps ih =>
      have hpiece :
          (piece.render []).length + (if piece.isPlaceholder then 1 else 0) ≤
          piece.source.length := by
        cases piece with
        | position digit => exact Nat.le_succ 1
        | arguments => exact Nat.succ_le_succ (Nat.zero_le argumentsName.length)
        | pair | char c => exact le_rfl
      rw [List.flatMap_cons, List.flatMap_cons, List.length_append,
        List.length_append,
        List.countP_cons]
      omega

/-- Some arguments change the content if and only if it has a placeholder
outside of the pairs. -/
theorem exists_substituted_ne_iff (content : Text) :
    (∃ args, substituted content args ≠ content) ↔
      ∃ piece ∈ pieces content, piece.isPlaceholder = true := by
  constructor
  · rintro ⟨args, hne⟩
    by_contra hnone
    push Not at hnone
    refine hne ?_
    have hrender : ∀ piece ∈ pieces content,
        piece.render args = piece.source := by
      intro piece hpiece
      have hplace := hnone piece hpiece
      cases piece with
      | pair | char c => rfl
      | position digit | arguments => exact absurd rfl hplace
    rw [substituted, List.flatMap_congr hrender, flatMap_source]
  · rintro ⟨piece, hpiece, hplace⟩
    refine ⟨[], fun heq => ?_⟩
    have hlen := length_render_nil (pieces content)
    rw [flatMap_source, ← substituted, heq] at hlen
    have hcount : 0 < (pieces content).countP Piece.isPlaceholder :=
      List.countP_pos_iff.2 ⟨piece, hpiece, hplace⟩
    omega

/-! ## The property and where it holds -/

/-- The expansion puts the arguments in the places of the placeholders, the
detector sees whether any arguments change the content, and where none do the
arguments of a command are kept behind the content. -/
structure KeepsArguments (content : Text) : Prop where
  expands : ∀ args, expandNumericPlaceholders content args =
    some (substituted content args)
  detects : promptHasNumericPlaceholders content = true ↔
    ∃ args expanded, expandNumericPlaceholders content args = some expanded ∧
      expanded ≠ content
  keeps : (∀ args, expandNumericPlaceholders content args = some content) →
    ∀ shlex builtins text customPrompts name rest prompt,
      findPrompt builtins text customPrompts = some (name, rest, prompt) →
      prompt.content = content → rest.trim ≠ [] →
      expandCustomPrompt shlex builtins text customPrompts =
        some (.ok (some (appendArgs content rest)))

/-- Without named placeholders, the arguments are kept if and only if the
content has a placeholder outside of the pairs of dollar signs, or has none in
its text at all. -/
theorem keepsArguments_iff {content : Text}
    (hnamed : promptArgumentNames content = []) :
    KeepsArguments content ↔
      (∃ piece ∈ pieces content, piece.isPlaceholder = true) ∨
        ¬ HasPlaceholderText content := by
  have hchange :
      (∃ args expanded, expandNumericPlaceholders content args = some expanded ∧
      expanded ≠ content) ↔ ∃ piece ∈ pieces content,
      piece.isPlaceholder = true := by
    rw [← exists_substituted_ne_iff]
    refine exists_congr fun args => ?_
    rw [expandNumericPlaceholders_eq]
    constructor
    · rintro ⟨expanded, heq, hne⟩
      cases heq
      exact hne
    · exact fun hne => ⟨_, rfl, hne⟩
  constructor
  · intro h
    by_cases htext : HasPlaceholderText content
    · exact .inl
        (hchange.1
          (h.detects.1 ((promptHasNumericPlaceholders_iff content).2 htext)))
    · exact .inr htext
  · intro h
    have hdetects : promptHasNumericPlaceholders content = true ↔
        ∃ piece ∈ pieces content, piece.isPlaceholder = true := by
      rw [promptHasNumericPlaceholders_iff]
      constructor
      · exact fun htext => h.resolve_right fun hnone => hnone htext
      · rintro ⟨piece, hpiece, hplace⟩
        exact hasPlaceholderText_of_mem hpiece hplace
    refine ⟨expandNumericPlaceholders_eq content,
      hdetects.trans hchange.symm, ?_⟩
    intro hsame shlex builtins text customPrompts name rest prompt hfind
      hcontent hrest
    have hnot : ¬ promptHasNumericPlaceholders content = true := by
      rw [hdetects, ← hchange]
      rintro ⟨args, expanded, hexpand, hne⟩
      rw [hsame args] at hexpand
      cases hexpand
      exact hne rfl
    rw [expandCustomPrompt, hfind]
    dsimp only
    rw [hcontent, hnamed, if_neg (not_not_intro rfl), if_neg hnot, if_pos hrest]

/-- A content with a digit behind a pair and a placeholder outside of the
pairs. -/
theorem keepsArguments_pair_position :
    KeepsArguments ['$', '$', '1', '$', '2'] := by
  have hpieces : pieces ['$', '$', '1', '$', '2'] =
      .pair :: .char '1' :: .position '2' :: pieces [] := by
    rw [pieces_pair, pieces_of_ne (by decide), pieces_position rfl]
  refine (keepsArguments_iff (promptArgumentNames_of_noUpper rfl)).2
    (.inl ⟨.position '2', ?_, rfl⟩)
  rw [hpieces]
  exact List.mem_cons_of_mem _ (List.mem_cons_of_mem _ List.mem_cons_self)

/-- A dollar sign that is escaped, and a digit: the detector sees a
placeholder, and no arguments change the content. -/
theorem not_keepsArguments_pair :
    ¬ ∀ content, promptArgumentNames content = [] → KeepsArguments content := by
  intro h
  have hpieces : pieces ['$', '$', '1'] = .pair :: .char '1' :: pieces [] := by
    rw [pieces_pair, pieces_of_ne (by decide)]
  have hkeeps := h ['$', '$', '1'] (promptArgumentNames_of_noUpper rfl)
  have hdetects : promptHasNumericPlaceholders ['$', '$', '1'] = true := by
    decide
  obtain ⟨args, expanded, hexpand, hne⟩ := hkeeps.detects.1 hdetects
  rw [expandNumericPlaceholders_eq, substituted, hpieces, pieces] at hexpand
  cases hexpand
  exact hne rfl

end CodeRs.Prompt
