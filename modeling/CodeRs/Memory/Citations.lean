import CodeRs.Lib.Lines
import CodeRs.Lib.Lists
import CodeRs.Lib.Search

/-!
# Memory citations

The model wraps citations of its memory in tags.  The terminal user interface
takes them out of a message while it comes in; the core takes them out of a
whole text and keeps the rollout ids in them.  The tags are ASCII, so positions
of tags are counted in characters.
-/

namespace CodeRs.Memory

open Search

def citationOpen : Text := "<oai-mem-citation>".toList

def citationClose : Text := "</oai-mem-citation>".toList

theorem citationOpen_ne_nil : citationOpen ≠ [] := List.cons_ne_nil _ _

theorem citationClose_ne_nil : citationClose ≠ [] := List.cons_ne_nil _ _

theorem length_drop_tag_lt {rest tag : Text} (hrest : rest ≠ [])
    (htag : tag ≠ []) (idx : Nat) :
    (rest.drop (idx + tag.length)).length < rest.length := by
  have hpos : 0 < rest.length := List.length_pos_iff.2 hrest
  have hlen : 0 < tag.length := List.length_pos_iff.2 htag
  rw [List.length_drop]
  omega

/-! ## The parser of the user interface -/

structure MemoryCitationChunk where
  visibleText : Text := []
  citations : List Text := []
deriving DecidableEq, Repr

structure MemoryCitationParser where
  pending : Text := []
  activeCitation : Text := []
  insideCitation : Bool := false
deriving DecidableEq, Repr

def longestSuffixPrefix (input pattern : Text) : Nat := overlap input pattern

/-- The loop of `push_str` on what is left of the input. -/
def scan (p : MemoryCitationParser) (out : MemoryCitationChunk) (rest : Text) :
    MemoryCitationParser × MemoryCitationChunk :=
  if rest = [] then (p, out)
  else if p.insideCitation then
    match find citationClose rest with
    | some closeIdx =>
        scan { p with activeCitation := [], insideCitation := false }
          { out with
            citations := out.citations ++
              [p.activeCitation ++ rest.take closeIdx] }
          (rest.drop (closeIdx + citationClose.length))
    | none =>
        let splitAt := rest.length - longestSuffixPrefix rest citationClose
        ({ p with
            activeCitation := p.activeCitation ++ rest.take splitAt
            pending := p.pending ++ rest.drop splitAt }, out)
  else
    match find citationOpen rest with
    | some openIdx =>
        scan { p with insideCitation := true }
          { out with visibleText := out.visibleText ++ rest.take openIdx }
          (rest.drop (openIdx + citationOpen.length))
    | none =>
        let splitAt := rest.length - longestSuffixPrefix rest citationOpen
        ({ p with pending := p.pending ++ rest.drop splitAt },
          { out with visibleText := out.visibleText ++ rest.take splitAt })
termination_by rest.length
decreasing_by
  · exact length_drop_tag_lt ‹_› citationClose_ne_nil closeIdx
  · exact length_drop_tag_lt ‹_› citationOpen_ne_nil openIdx

namespace MemoryCitationParser

def pushStr (p : MemoryCitationParser) (chunk : Text) :
    MemoryCitationParser × MemoryCitationChunk :=
  scan { p with pending := [] } {} (p.pending ++ chunk)

def finish (p : MemoryCitationParser) :
    MemoryCitationParser × MemoryCitationChunk :=
  let (p, out) := p.pushStr []
  if p.insideCitation then
    -- A citation that is not closed ends with the message.
    ({ pending := [], activeCitation := [], insideCitation := false },
      { out with
        citations := out.citations ++ [p.activeCitation ++ p.pending] })
  else if p.pending ≠ [] then
    ({ p with pending := [] },
      { out with visibleText := out.visibleText ++ p.pending })
  else (p, out)

end MemoryCitationParser

def MemoryCitationChunk.append (a b : MemoryCitationChunk) :
    MemoryCitationChunk :=
  ⟨a.visibleText ++ b.visibleText, a.citations ++ b.citations⟩

/-- `strip_memory_citations` of the user interface. -/
def stripMemoryCitations (text : Text) : MemoryCitationChunk :=
  let (p, out) := ({} : MemoryCitationParser).pushStr text
  out.append p.finish.2

/-- Feed chunks to a new parser and finish: what all calls yield, one after the
other. -/
def feed (chunks : List Text) : MemoryCitationChunk :=
  let (p, out) := chunks.foldl (fun (p, out) chunk =>
    let (p, next) := p.pushStr chunk
    (p, out.append next)) (({} : MemoryCitationParser),
      ({} : MemoryCitationChunk))
  out.append p.finish.2

/-! ## The function of the core -/

namespace Core

variable {Uuid : Type} [DecidableEq Uuid] (parseStr : Text → Option Uuid)

def rolloutIdsOpen : Text := "<rollout_ids>".toList

def rolloutIdsClose : Text := "</rollout_ids>".toList

/-- `parse_rollout_ids`, with the parser of UUIDs as a parameter. -/
def parseRolloutIds (inner : Text) : List Uuid :=
  match find rolloutIdsOpen inner with
  | none => []
  | some openRel =>
      let ids := inner.drop (openRel + rolloutIdsOpen.length)
      match find rolloutIdsClose ids with
      | none => []
      | some closeRel =>
          (Text.lines (ids.take closeRel)).filterMap fun line =>
            parseStr (Text.trim line)

/-- Push the ids that have not been seen. -/
def pushUnseen (rolloutIds ids : List Uuid) : List Uuid :=
  ids.foldl (fun seen id => if id ∈ seen then seen else seen ++ [id]) rolloutIds

/-- The loop of `strip_memory_citations` from a cursor on. -/
def stripFrom (cleaned : Text) (rolloutIds : List Uuid) (rest : Text) :
    Text × List Uuid :=
  match _hopen : find citationOpen rest with
  | none => (cleaned ++ rest, rolloutIds)
  | some openRel =>
      let inner := rest.drop (openRel + citationOpen.length)
      match find citationClose inner with
      | none => (cleaned ++ rest.take openRel, rolloutIds)
      | some closeRel =>
          stripFrom (cleaned ++ rest.take openRel)
            (pushUnseen rolloutIds
              (parseRolloutIds parseStr (inner.take closeRel)))
            (inner.drop (closeRel + citationClose.length))
termination_by rest.length
decreasing_by
  have hrest : rest ≠ [] := by
    rintro rfl
    cases ‹find citationOpen [] = some openRel›
  rw [List.length_drop]
  exact Nat.lt_of_le_of_lt (Nat.sub_le _ _)
    (length_drop_tag_lt hrest citationOpen_ne_nil openRel)

/-- `strip_memory_citations` of the core. -/
def stripMemoryCitations (text : Text) : Text × List Uuid :=
  stripFrom parseStr [] [] text

end Core

end CodeRs.Memory

/-! ## Citations in a text that comes in chunks

A text falls into visible parts and cited bodies in one way: the leftmost
opening tag, the first closing tag after it, and so on.  However the text is
cut into chunks, the parser yields these parts, and the core keeps the same
visible parts. -/

namespace CodeRs.Memory

open Search

/-! ## The parts of a text -/

/-- `tag` begins nowhere in `before ++ tag` before its end. -/
def Leftmost (tag before : Text) : Prop :=
  ∀ j < before.length, ¬ tag <+: (before ++ tag).drop j

/-- A text, its visible part and the bodies of its citations.  A citation that
is not closed goes on to the end of the text. -/
inductive Cited : Text → Text → List Text → Prop
  | plain {text : Text} (h : ¬ citationOpen <:+: text) : Cited text text []
  | closed {before body rest visible : Text} {citations : List Text}
      (hopen : Leftmost citationOpen before)
      (hclose : Leftmost citationClose body)
      (h : Cited rest visible citations) :
      Cited (before ++ (citationOpen ++ (body ++ (citationClose ++ rest))))
        (before ++ visible)
        (body :: citations)
  | unclosed {before body : Text} (hopen : Leftmost citationOpen before)
      (h : ¬ citationClose <:+: body) :
      Cited (before ++ (citationOpen ++ body)) before [body]

section

variable {tag : Text}

theorem find_leftmost (hne : tag ≠ []) {before : Text} (h : Leftmost tag before)
    (rest : Text) :
    find tag (before ++ (tag ++ rest)) = some before.length := by
  rw [← List.append_assoc]
  apply find_append hne
  refine (find_eq_some hne).2 ⟨?_, h⟩
  rw [List.drop_left]

theorem find_eq_none_iff (hne : tag ≠ []) {text : Text} :
    find tag text = none ↔ ¬ tag <:+: text := by
  rw [find_eq_none hne]
  constructor
  · rintro h ⟨before, after, rfl⟩
    apply h before.length
    rw [List.append_assoc, List.drop_left]
    exact List.prefix_append ..
  · intro h j hbegins
    exact h (hbegins.isInfix.trans (List.drop_suffix j text).isInfix)

theorem leftmost_of_find (hne : tag ≠ []) {text : Text} {i : Nat}
    (h : find tag text = some i) : Leftmost tag (text.take i) := by
  have htext := eq_append_of_find hne h
  have hfirst := ((find_eq_some hne).1 h).2
  have hlength : (text.take i).length ≤ i := List.length_take_le ..
  intro j hj hbegins
  apply hfirst j (by omega)
  rw [htext, ← List.append_assoc, List.drop_append_of_le_length]
  · exact List.prefix_append_of_prefix hbegins
  · rw [List.length_append]
    omega

theorem leftmost_cases (hne : tag ≠ []) (text : Text) :
    ¬ tag <:+: text ∨ ∃ before rest,
      Leftmost tag before ∧ text = before ++ (tag ++ rest) := by
  cases h : find tag text with
  | none => exact .inl ((find_eq_none_iff hne).1 h)
  | some i => exact .inr ⟨_, _, leftmost_of_find hne h, eq_append_of_find hne h⟩

end

theorem exists_cited (text : Text) :
    ∃ visible citations, Cited text visible citations := by
  induction hn : text.length using
    Nat.strong_induction_on generalizing text with
  | _ n ih =>
      rcases leftmost_cases citationOpen_ne_nil text with
        hplain | ⟨before, inner, hopen, rfl⟩
      · exact ⟨text, [], .plain hplain⟩
      rcases leftmost_cases citationClose_ne_nil inner with
        hbody | ⟨body, rest, hclose, rfl⟩
      · exact ⟨before, [inner], .unclosed hopen hbody⟩
      have hshort : rest.length < n := by
        have hpos := List.length_pos_iff.2 citationOpen_ne_nil
        simp only [List.length_append] at hn
        omega
      obtain ⟨visible, citations, hrest⟩ := ih _ hshort rest rfl
      exact ⟨before ++ visible, body :: citations, .closed hopen hclose hrest⟩

/-! ## The loop of the parser -/

/-- The parser and what a call has yielded so far. -/
abbrev ScanState := MemoryCitationParser × MemoryCitationChunk

def MemoryCitationParser.tag (p : MemoryCitationParser) : Text :=
  if p.insideCitation then citationClose else citationOpen

/-- Text without a tag goes to the citation or to the visible text. -/
def emit (s : ScanState) (text : Text) : ScanState :=
  if s.1.insideCitation then
    ({ s.1 with activeCitation := s.1.activeCitation ++ text }, s.2)
  else (s.1, { s.2 with visibleText := s.2.visibleText ++ text })

/-- A tag opens a citation, or closes it and yields it. -/
def passTag (s : ScanState) : ScanState :=
  if s.1.insideCitation then
    ({ s.1 with activeCitation := [], insideCitation := false },
      { s.2 with citations := s.2.citations ++ [s.1.activeCitation] })
  else ({ s.1 with insideCitation := true }, s.2)

/-- Keep text for the next chunk. -/
def keep (s : ScanState) (text : Text) : ScanState :=
  ({ s.1 with pending := s.1.pending ++ text }, s.2)

/-- Go on with what was kept. -/
def release (s : ScanState) : ScanState := ({ s.1 with pending := [] }, s.2)

theorem tag_ne_nil (p : MemoryCitationParser) : p.tag ≠ [] := by
  rw [MemoryCitationParser.tag]
  split
  · exact citationClose_ne_nil
  · exact citationOpen_ne_nil

theorem emit_emit (s : ScanState) (a b : Text) :
    emit (emit s a) b = emit s (a ++ b) := by
  obtain ⟨⟨pending, active, inside⟩, out⟩ := s
  cases inside <;> simp [emit]

theorem emit_nil (s : ScanState) : emit s [] = s := by
  obtain ⟨⟨pending, active, inside⟩, out⟩ := s
  cases inside <;> simp [emit]

@[simp] theorem tag_emit (s : ScanState) (text : Text) :
    (emit s text).1.tag = s.1.tag := by
  obtain ⟨⟨pending, active, inside⟩, out⟩ := s
  cases inside <;> rfl

@[simp] theorem pending_emit (s : ScanState) (text : Text) :
    (emit s text).1.pending = s.1.pending := by
  obtain ⟨⟨pending, active, inside⟩, out⟩ := s
  cases inside <;> rfl

@[simp] theorem pending_passTag (s : ScanState) :
    (passTag s).1.pending = s.1.pending := by
  obtain ⟨⟨pending, active, inside⟩, out⟩ := s
  cases inside <;> rfl

theorem release_keep {s : ScanState} (h : s.1.pending = []) (text : Text) :
    release (keep s text) = s := by
  obtain ⟨⟨pending, active, inside⟩, out⟩ := s
  cases h
  rfl

/-- The loop passes the first tag that it looks for. -/
theorem scan_some {s : ScanState} {rest : Text} {i : Nat}
    (h : find s.1.tag rest = some i) :
    scan s.1 s.2 rest =
      scan (passTag (emit s (rest.take i))).1 (passTag (emit s (rest.take i))).2
        (rest.drop (i + s.1.tag.length)) := by
  obtain ⟨⟨pending, active, inside⟩, out⟩ := s
  have hne : rest ≠ [] := by
    rintro rfl
    rw [(find_eq_none_iff (tag_ne_nil _)).2 (by simpa using tag_ne_nil _)] at h
    cases h
  cases inside with
  | false =>
      have hopen : find citationOpen rest = some i := h
      rw [scan, if_neg hne]
      simp [hopen, emit, passTag, MemoryCitationParser.tag]
  | true =>
      have hclose : find citationClose rest = some i := h
      rw [scan, if_neg hne]
      simp [hclose, emit, passTag, MemoryCitationParser.tag]

theorem scan_none {s : ScanState} {rest : Text}
    (h : find s.1.tag rest = none) {k : Nat}
    (hk : IsOverlap rest s.1.tag k) :
    scan s.1 s.2 rest =
      keep (emit s (rest.take (rest.length - k)))
        (rest.drop (rest.length - k)) := by
  obtain rfl := hk.unique (isOverlap_overlap (tag_ne_nil s.1) rest)
  by_cases hne : rest = []
  · subst hne
    rw [scan, if_pos rfl]
    simp [emit_nil, keep]
  · obtain ⟨⟨pending, active, inside⟩, out⟩ := s
    cases inside with
    | false =>
        have hopen : find citationOpen rest = none := h
        rw [scan, if_neg hne]
        simp [hopen, emit, keep, longestSuffixPrefix, MemoryCitationParser.tag]
    | true =>
        have hclose : find citationClose rest = none := h
        rw [scan, if_neg hne]
        simp [hclose, emit, keep, longestSuffixPrefix, MemoryCitationParser.tag]

/-! ## Chunks -/

/-- Without a tag in the first text, the tag begins in what is kept of it, if
it comes. -/
theorem scan_append_of_none (s : ScanState) (hs : s.1.pending = []) {a : Text}
    (hfind : find s.1.tag a = none) (b : Text) :
    scan s.1 s.2 (a ++ b) =
      scan (release (scan s.1 s.2 a)).1 (release (scan s.1 s.2 a)).2
        ((scan s.1 s.2 a).1.pending ++ b) := by
  have htag := tag_ne_nil s.1
  have hk := isOverlap_overlap htag a
  generalize overlap a s.1.tag = k at hk
  have hkle := hk.le_length
  have hkept : a.length - k ≤ a.length := Nat.sub_le _ _
  rw [scan_none hfind hk]
  have hrelease : release (keep (emit s (a.take (a.length - k)))
      (a.drop (a.length - k))) = emit s (a.take (a.length - k)) :=
    release_keep (by simpa using hs) _
  have hpending : (keep (emit s (a.take (a.length - k)))
      (a.drop (a.length - k))).1.pending = a.drop (a.length - k) := by
    simp [keep, hs]
  rw [hrelease, hpending]
  have hnext := find_append_of_none htag hfind hk b
  have hsame : (emit s (a.take (a.length - k))).1.tag = s.1.tag := tag_emit ..
  cases hlater : find s.1.tag (a.drop (a.length - k) ++ b) with
  | some i =>
      rw [hlater, Option.map_some] at hnext
      rw [← hsame] at hlater
      rw [scan_some hnext, scan_some hlater, hsame, emit_emit,
        take_append_add hkept,
        Nat.add_right_comm, drop_append_add hkept]
  | none =>
      rw [hlater, Option.map_none] at hnext
      rw [← hsame] at hlater
      have hm := isOverlap_overlap htag (a.drop (a.length - k) ++ b)
      generalize overlap (a.drop (a.length - k) ++ b) s.1.tag = m at hm
      have hmle := hm.le_length
      have hlen : (a ++ b).length - m =
          (a.drop (a.length - k) ++ b).length - m + (a.length - k) := by
        simp only [List.length_append, List.length_drop] at hmle ⊢
        omega
      rw [scan_none hnext (hk.append hm), hlen, take_append_add hkept,
        drop_append_add hkept,
        scan_none hlater (hsame.symm ▸ hm), emit_emit]

theorem scan_append (s : ScanState) (hs : s.1.pending = []) (a b : Text) :
    scan s.1 s.2 (a ++ b) =
      scan (release (scan s.1 s.2 a)).1 (release (scan s.1 s.2 a)).2
        ((scan s.1 s.2 a).1.pending ++ b) := by
  induction hn : a.length using Nat.strong_induction_on generalizing s a with
  | _ n ih =>
      have htag := tag_ne_nil s.1
      cases hfind : find s.1.tag a with
      | some i =>
          have hfound := ((find_eq_some htag).1 hfind).1.length_le
          have hpos := List.length_pos_iff.2 htag
          rw [List.length_drop] at hfound
          have hshort : (a.drop (i + s.1.tag.length)).length < n := by
            rw [← hn, List.length_drop]
            omega
          rw [scan_some hfind, scan_some (find_append htag hfind b),
            List.take_append_of_le_length (by omega),
            List.drop_append_of_le_length (by omega)]
          exact ih _ hshort _ (by simpa using hs) _ rfl
      | none => exact scan_append_of_none s hs hfind b

/-! ## What the calls yield together -/

/-- Put what earlier calls have yielded in front. -/
def after (out : MemoryCitationChunk) (s : ScanState) : ScanState :=
  (s.1, out.append s.2)

theorem emit_after (out : MemoryCitationChunk) (s : ScanState) (text : Text) :
    emit (after out s) text = after out (emit s text) := by
  obtain ⟨⟨pending, active, inside⟩, next⟩ := s
  cases inside <;> simp [emit, after, MemoryCitationChunk.append]

theorem passTag_after (out : MemoryCitationChunk) (s : ScanState) :
    passTag (after out s) = after out (passTag s) := by
  obtain ⟨⟨pending, active, inside⟩, next⟩ := s
  cases inside <;> simp [passTag, after, MemoryCitationChunk.append]

/-- The loop only adds to what has been yielded. -/
theorem scan_after (out : MemoryCitationChunk) (s : ScanState) (rest : Text) :
    scan (after out s).1 (after out s).2 rest =
      after out (scan s.1 s.2 rest) := by
  induction hn : rest.length using
    Nat.strong_induction_on generalizing s rest with
  | _ n ih =>
      cases hfind : find s.1.tag rest with
      | none =>
          have hk := isOverlap_overlap (tag_ne_nil s.1) rest
          rw [scan_none hfind hk, scan_none (s := after out s) hfind hk,
            emit_after]
          rfl
      | some i =>
          have hne : rest ≠ [] := by
            rintro rfl
            have hbegins := ((find_eq_some (tag_ne_nil s.1)).1 hfind).1
            exact tag_ne_nil s.1 (by simpa using hbegins)
          have hshort := hn ▸ length_drop_tag_lt hne (tag_ne_nil s.1) i
          rw [scan_some hfind, scan_some (s := after out s) hfind, emit_after,
            passTag_after]
          exact ih _ hshort _ _ rfl

/-- A new parser that has been given a text. -/
def scanned (text : Text) : ScanState := scan {} {} text

/-- What `finish` adds. -/
def flush (s : ScanState) : MemoryCitationChunk :=
  if s.1.insideCitation then
    { s.2 with
      citations := s.2.citations ++ [s.1.activeCitation ++ s.1.pending] }
  else { s.2 with visibleText := s.2.visibleText ++ s.1.pending }

theorem flush_after (out : MemoryCitationChunk) (s : ScanState) :
    flush (after out s) = out.append (flush s) := by
  obtain ⟨⟨pending, active, inside⟩, next⟩ := s
  cases inside <;> simp [flush, after, MemoryCitationChunk.append]

theorem scanned_append (text chunk : Text) :
    scanned (text ++ chunk) =
      after (scanned text).2 ((scanned text).1.pushStr chunk) := by
  have hboth := scan_append ({}, {}) rfl text chunk
  have hyield :=
    scan_after (scanned text).2 ({ (scanned text).1 with pending := [] }, {})
      ((scanned text).1.pending ++ chunk)
  have hempty : (scanned text).2.append {} = (scanned text).2 := by
    simp [MemoryCitationChunk.append]
  rw [after, hempty] at hyield
  exact hboth.trans hyield

theorem finish_eq_flush (p : MemoryCitationParser) :
    p.finish.2 = flush (p.pushStr []) := by
  simp only [MemoryCitationParser.finish, flush]
  split
  · rfl
  · split
    · rfl
    next hpending =>
      rw [not_not.1 hpending, List.append_nil]

theorem append_finish (text : Text) :
    (scanned text).2.append (scanned text).1.finish.2 =
      flush (scanned text) := by
  have hsame := scanned_append text []
  rw [List.append_nil] at hsame
  rw [finish_eq_flush, ← flush_after, ← hsame]

theorem stripMemoryCitations_eq (text : Text) :
    stripMemoryCitations text = flush (scanned text) := by
  rw [← append_finish]
  rfl

theorem foldl_pushStr (chunks : List Text) (text : Text) :
    chunks.foldl (fun (p, out) chunk =>
      let (p, next) := p.pushStr chunk
      (p, out.append next)) (scanned text) =
      scanned (text ++ chunks.flatten) := by
  induction chunks generalizing text with
  | nil => simp
  | cons chunk rest ih =>
      rw [List.foldl_cons, List.flatten_cons, ← List.append_assoc, ← ih,
        scanned_append]
      rfl

theorem feed_eq (chunks : List Text) :
    feed chunks = flush (scanned chunks.flatten) := by
  have hfold := foldl_pushStr chunks []
  have hstart : scanned [] = ({}, {}) := by
    rw [scanned, scan, if_pos rfl]
  rw [hstart, List.nil_append] at hfold
  rw [← append_finish, feed, hfold]

/-! ## The parts are what is yielded -/

theorem scan_tag {s : ScanState} {before : Text} (h : Leftmost s.1.tag before)
    (rest : Text) :
    scan s.1 s.2 (before ++ (s.1.tag ++ rest)) =
      scan (passTag (emit s before)).1 (passTag (emit s before)).2 rest := by
  rw [scan_some (find_leftmost (tag_ne_nil s.1) h rest), List.take_left,
    ← List.append_assoc,
    ← List.length_append, List.drop_left]

theorem scan_open {before : Text} (h : Leftmost citationOpen before)
    (out : MemoryCitationChunk) (rest : Text) :
    scan {} out (before ++ (citationOpen ++ rest)) =
      scan { insideCitation := true } { out with
        visibleText := out.visibleText ++ before } rest :=
  scan_tag (s := ({}, out)) h rest

theorem scan_close {body : Text} (h : Leftmost citationClose body)
    (out : MemoryCitationChunk) (rest : Text) :
    scan { insideCitation := true } out (body ++ (citationClose ++ rest)) =
      scan {} { out with citations := out.citations ++ [body] } rest :=
  scan_tag (s := ({ insideCitation := true }, out)) h rest

/-- Text without a tag ends up where the parser is. -/
theorem flush_scan_plain {s : ScanState} (hs : s.1.pending = []) {text : Text}
    (h : ¬ s.1.tag <:+: text) :
    flush (scan s.1 s.2 text) = flush (emit s text) := by
  have hfind := (find_eq_none_iff (tag_ne_nil s.1)).2 h
  rw [scan_none hfind (isOverlap_overlap (tag_ne_nil s.1) text)]
  generalize text.length - overlap text s.1.tag = n
  obtain ⟨⟨pending, active, inside⟩, out⟩ := s
  cases hs
  cases inside <;> simp [flush, keep, emit]

/-- From outside a citation, the parser yields the parts of a text. -/
theorem Cited.flush_scan {text visible : Text} {citations : List Text}
    (h : Cited text visible citations) (out : MemoryCitationChunk) :
    flush (scan {} out text) = out.append ⟨visible, citations⟩ := by
  induction h generalizing out with
  | plain h =>
      rw [flush_scan_plain (s := ({}, out)) rfl h]
      simp [flush, emit, MemoryCitationChunk.append]
  | closed hopen hclose h ih =>
      rw [scan_open hopen, scan_close hclose, ih]
      simp [MemoryCitationChunk.append]
  | unclosed hopen h =>
      rw [scan_open hopen,
        flush_scan_plain (s := ({ insideCitation := true }, _)) rfl h]
      simp [flush, emit, MemoryCitationChunk.append]

section Core

variable {Uuid : Type} [DecidableEq Uuid] (parseStr : Text → Option Uuid)

theorem stripFrom_plain {text : Text} (h : ¬ citationOpen <:+: text)
    (cleaned : Text)
    (rolloutIds : List Uuid) :
    Core.stripFrom parseStr cleaned rolloutIds text =
      (cleaned ++ text, rolloutIds) := by
  have hfind := (find_eq_none_iff citationOpen_ne_nil).2 h
  rw [Core.stripFrom]
  split
  next => rfl
  next i hi =>
    rw [hfind] at hi
    cases hi

/-- The text after a tag, at the index the loop computes. -/
theorem drop_tag (before tag rest : Text) :
    (before ++ (tag ++ rest)).drop (before.length + tag.length) = rest := by
  rw [← List.append_assoc, ← List.length_append, List.drop_left]

theorem stripFrom_closed {before body : Text}
    (hopen : Leftmost citationOpen before)
    (hclose : Leftmost citationClose body) (rest cleaned : Text)
    (rolloutIds : List Uuid) :
    Core.stripFrom parseStr cleaned rolloutIds
        (before ++ (citationOpen ++ (body ++ (citationClose ++ rest)))) =
      Core.stripFrom parseStr (cleaned ++ before)
        (Core.pushUnseen rolloutIds (Core.parseRolloutIds parseStr body))
        rest := by
  have hfind :=
    find_leftmost citationOpen_ne_nil hopen (body ++ (citationClose ++ rest))
  rw [Core.stripFrom]
  split
  next hnone =>
    rw [hfind] at hnone
    cases hnone
  next i hi =>
    rw [hfind] at hi
    cases hi
    simp only [drop_tag, find_leftmost citationClose_ne_nil hclose rest,
      List.take_left]

theorem stripFrom_unclosed {before body : Text}
    (hopen : Leftmost citationOpen before)
    (h : ¬ citationClose <:+: body) (cleaned : Text) (rolloutIds : List Uuid) :
    Core.stripFrom parseStr cleaned rolloutIds
      (before ++ (citationOpen ++ body)) =
      (cleaned ++ before, rolloutIds) := by
  have hfind := find_leftmost citationOpen_ne_nil hopen body
  rw [Core.stripFrom]
  split
  next hnone =>
    rw [hfind] at hnone
    cases hnone
  next i hi =>
    rw [hfind] at hi
    cases hi
    simp only [drop_tag, (find_eq_none_iff citationClose_ne_nil).2 h,
      List.take_left]

theorem Cited.stripFrom {text visible : Text} {citations : List Text}
    (h : Cited text visible citations) (cleaned : Text)
    (rolloutIds : List Uuid) :
    (Core.stripFrom parseStr cleaned rolloutIds text).1 =
      cleaned ++ visible := by
  induction h generalizing cleaned rolloutIds with
  | plain h => rw [stripFrom_plain parseStr h]
  | closed hopen hclose h ih =>
      rw [stripFrom_closed parseStr hopen hclose, ih, List.append_assoc]
  | unclosed hopen h => rw [stripFrom_unclosed parseStr hopen h]

end Core

/-- However a text is cut into chunks, the parser yields what it yields for the
whole text. These are the parts of the text, and the core keeps the same
visible ones. -/
theorem feed_chunks {Uuid : Type} [DecidableEq Uuid]
    (parseStr : Text → Option Uuid)
    (chunks : List Text) :
    feed chunks = stripMemoryCitations chunks.flatten ∧
      (feed chunks).visibleText =
        (Core.stripMemoryCitations parseStr chunks.flatten).1 ∧
      Cited chunks.flatten (feed chunks).visibleText
        (feed chunks).citations := by
  obtain ⟨visible, citations, hcited⟩ := exists_cited chunks.flatten
  have hfeed : feed chunks = ⟨visible, citations⟩ := by
    rw [feed_eq, scanned, hcited.flush_scan]
    rfl
  refine ⟨?_, ?_, ?_⟩
  · rw [feed_eq, stripMemoryCitations_eq]
  · rw [hfeed, Core.stripMemoryCitations, hcited.stripFrom]
    rfl
  · rw [hfeed]
    exact hcited

end CodeRs.Memory
