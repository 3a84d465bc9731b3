import CodeRs.Protocol.Models

/-!
# User messages

How a session makes a message of the input of a user:
`response_input_from_core_items` of `core/src/codex.rs` and
`enforce_user_message_limits` of `core/src/codex/session.rs`, with
`truncate_middle_bytes` of `core/src/codex/streaming.rs`.
-/

namespace CodeRs.TurnQueues

open Protocol

/-! ## Inputs -/

inductive InputItem where
  | text (text : Text)
  | image (imageUrl : Text)
  | localImage (path : Text)
  | ephemeralImage (path : Text) (metadata : Option Text)
  deriving DecidableEq

/-- What the session finds outside at a call: the data URL of an image file
that can be read, and the path of the file that the full text of a submission
was saved to, or why it was not. -/
structure Outside where
  imageUrl : Text → Option Text
  save : Text → Text → Except Text Text

/-- The image of a file, if it can be read. -/
def Outside.image (outside : Outside) (path : Text) : List ContentItem :=
  ((outside.imageUrl path).map ContentItem.inputImage).toList

def contentOf (outside : Outside) : InputItem → List ContentItem
  | .text text => [.inputText text]
  | .image imageUrl => [.inputImage imageUrl]
  | .localImage path => outside.image path
  | .ephemeralImage path metadata =>
      (metadata.map fun data =>
        ContentItem.inputText ("[EPHEMERAL:".toList ++ data ++
          "]".toList)).toList ++
        outside.image path

def responseInputFromCoreItems (outside : Outside) (items : List InputItem) :
    ResponseInputItem :=
  .message "user" (items.flatMap (contentOf outside))

/-! ## Truncation -/

def truncationMarker : Text := "…truncated…\n".toList

/-- The end of the text that stays in front, after a line feed where there is
one. -/
def prefixEnd (s : Text) (leftBudget : ℕ) : ℕ :=
  let stop := min leftBudget s.byteLen
  s.floorBoundary (((s.getTo stop).bind Text.afterLastFeed).getD stop)

/-- The start of the text that stays behind, after a line feed where there is
one. -/
def suffixStart (s : Text) (rightBudget : ℕ) : ℕ :=
  let start := s.byteLen - rightBudget
  s.nextBoundary
    (((s.drain start).bind Text.firstFeed).elim start fun i => start + i + 1)

/-- `truncate_middle_bytes`: the text, whether it was cut, and where.  Both
ends of the cut are character boundaries. -/
def truncateMiddleBytes (s : Text) (maxBytes : ℕ) : Text × Bool × ℕ × ℕ :=
  if s.byteLen ≤ maxBytes then (s, false, s.byteLen, s.byteLen)
  else if maxBytes = 0 then (truncationMarker.trimEnd, true, 0, s.byteLen)
  else
    let keep := maxBytes - truncationMarker.byteLen
    let leftBudget := keep / 2
    let stop := prefixEnd s leftBudget
    let start := suffixStart s (keep - leftBudget)
    ((s.truncate stop).getD [] ++ truncationMarker ++ (s.drain start).getD [],
      true, stop,
      start)

/-! ## Limits -/

def inputTexts (content : List ContentItem) : List Text :=
  content.filterMap fun item =>
    match item with
    | .inputText text => some text
    | _ => none

/-- What stays of a text that starts at byte `start` of all texts, and whether
the marker is in by then. -/
def cutText (stop resume start : ℕ) (inserted : Bool) (text : Text) :
    Text × Bool :=
  let finish := start + text.byteLen
  let head := if start < stop then
    (text.getTo (min finish stop - start)).getD [] else []
  let mark := !inserted && decide (finish > stop) && decide (start < resume)
  let tail :=
    if finish > resume then
      (text.drain (max start resume - start)).getD [] else []
  (head ++ (if mark then truncationMarker else []) ++ tail, inserted || mark)

/-- The loop over the content of a message that is too long. -/
def cutContent (stop resume : ℕ) :
    ℕ → Bool → List ContentItem → List ContentItem × Bool
  | _, inserted, [] => ([], inserted)
  | start, inserted, .inputText text :: rest =>
      let (kept, inserted) := cutText stop resume start inserted text
      let (content, inserted) :=
        cutContent stop resume (start + text.byteLen) inserted rest
      (.inputText kept :: content, inserted)
  | start, inserted, item :: rest =>
      let (content, inserted) := cutContent stop resume start inserted rest
      (item :: content, inserted)

/-- A note at the end of the last text, if there is a text. -/
def appendToLastText (note : Text) :
    List ContentItem → Option (List ContentItem)
  | [] => none
  | item :: rest =>
      match appendToLastText note rest with
      | some found => some (item :: found)
      | none =>
          match item with
          | .inputText text => some (.inputText (text ++ note) :: rest)
          | _ => none

/-- A note at the end of the last text or as a text of its own. -/
def appendNote (note : Text) (content : List ContentItem) : List ContentItem :=
  (appendToLastText note content).getD (content ++ [.inputText note])

/-- The note about the file with the full text. -/
def fileNote : Except Text Text → Text
  | .ok path => "\n\n[Full output saved to: ".toList ++ path ++ "]".toList
  | .error e =>
      "\n\n[Full output was too large and truncation applied; failed ".toList ++
        "to save file: ".toList ++ e ++ "]".toList

def enforceUserMessageLimits (outside : Outside) (maxBytes : ℕ) (subId : Text)
    (item : ResponseInputItem) : ResponseInputItem :=
  match item with
  | .message role content =>
      let texts := inputTexts content
      let (_, wasTruncated, stop, resume) :=
        truncateMiddleBytes texts.flatten maxBytes
      if role ≠ "user" ∨ texts = [] ∨ wasTruncated = false then item
      else
        let (newContent, inserted) := cutContent stop resume 0 false content
        let newContent :=
          if inserted then newContent
            else appendNote truncationMarker newContent
        .message role
          (appendNote (fileNote (outside.save subId texts.flatten)) newContent)
  | _ => item

/-- A message whose texts are not too long stays as it is. -/
theorem enforceUserMessageLimits_of_le {outside : Outside} {maxBytes : ℕ}
    {subId : Text}
    {role : String} {content : List ContentItem}
    (h : Text.byteLen (inputTexts content).flatten ≤ maxBytes) :
    enforceUserMessageLimits outside maxBytes subId (.message role content) =
      .message role content := by
  rw [enforceUserMessageLimits, truncateMiddleBytes, if_pos h]
  exact if_pos (.inr (.inr rfl))

/-! ## What the limits keep -/

def otherContent (content : List ContentItem) : List ContentItem :=
  content.filter fun item =>
    match item with
    | .inputText _ => false
    | _ => true

theorem otherContent_cutContent (stop resume start : ℕ) (inserted : Bool)
    (content : List ContentItem) :
    otherContent (cutContent stop resume start inserted content).1 =
      otherContent content := by
  induction content generalizing start inserted with
  | nil => rfl
  | cons item rest ih =>
      cases item with
      | inputText text => exact ih _ _
      | inputImage imageUrl =>
          exact congrArg (ContentItem.inputImage imageUrl :: ·) (ih _ _)
      | outputText text =>
          exact congrArg (ContentItem.outputText text :: ·) (ih _ _)

theorem otherContent_cons (item : ContentItem) (rest : List ContentItem) :
    otherContent (item :: rest) = otherContent [item] ++ otherContent rest := by
  rw [otherContent, otherContent, otherContent, ← List.filter_append]
  rfl

theorem otherContent_appendToLastText {note : Text}
    {content result : List ContentItem}
    (h : appendToLastText note content = some result) :
    otherContent result = otherContent content := by
  induction content generalizing result with
  | nil => cases h
  | cons item rest ih =>
      unfold appendToLastText at h
      cases hrest : appendToLastText note rest with
      | some found =>
          rw [hrest] at h
          cases h
          rw [otherContent_cons, ih hrest, ← otherContent_cons]
      | none =>
          rw [hrest] at h
          cases item with
          | inputText text =>
              cases h
              rfl
          | inputImage imageUrl => cases h
          | outputText text => cases h

theorem otherContent_appendNote (note : Text) (content : List ContentItem) :
    otherContent (appendNote note content) = otherContent content := by
  rw [appendNote]
  cases hresult : appendToLastText note content with
  | some result => exact otherContent_appendToLastText hresult
  | none =>
      rw [Option.getD_none, otherContent, otherContent, List.filter_append]
      exact List.append_nil _

theorem enforceUserMessageLimits_message (outside : Outside) (maxBytes : ℕ)
    (subId : Text)
    (role : String) (content : List ContentItem) :
    ∃ kept,
      enforceUserMessageLimits outside maxBytes subId (.message role content) =
        .message role kept ∧ otherContent kept = otherContent content := by
  simp only [enforceUserMessageLimits]
  split
  next => exact ⟨content, rfl, rfl⟩
  next =>
    refine ⟨_, rfl, ?_⟩
    rw [otherContent_appendNote]
    split
    · exact otherContent_cutContent _ _ _ _ _
    · rw [otherContent_appendNote]
      exact otherContent_cutContent _ _ _ _ _

end CodeRs.TurnQueues
