import CodeRs.Lib.PartialMap
import CodeRs.Lib.Runs
import CodeRs.Lib.Text
import Mathlib.Logic.Function.Iterate

/-!
# Browsing the history of the composer

`ChatComposerHistory` of `tui/src/bottom_pane/chat_composer_history.rs`.  The
entries of the log come first and those of the session behind them.  There are
fewer of both than the numbers of an `isize`.
-/

namespace CodeRs.Composer

structure ChatComposerHistory where
  historyLogId : Option ℕ := none
  historyEntryCount : ℕ := 0
  localHistory : List Text := []
  fetchedHistory : PartialMap ℕ Text := fun _ => none
  historyCursor : Option ℕ := none
  lastHistoryText : Option Text := none
  originalText : Option Text := none

/-- The `GetHistoryEntryRequest` that is sent for an entry of the log. -/
structure GetHistoryEntryRequest where
  offset : ℕ
  logId : ℕ
  deriving DecidableEq

/-- What a method leaves, the text it returns and the request it sends. -/
structure Shown where
  history : ChatComposerHistory
  text : Option Text := none
  request : Option GetHistoryEntryRequest := none

namespace ChatComposerHistory

def resetNavigation (h : ChatComposerHistory) : ChatComposerHistory :=
  { h with
    historyCursor := none, lastHistoryText := none, originalText := none }

def setMetadata (h : ChatComposerHistory) (logId entryCount : ℕ) :
    ChatComposerHistory :=
  { h.resetNavigation with
    historyLogId := some logId
    historyEntryCount := entryCount
    fetchedHistory := fun _ => none
    localHistory := [] }

def recordLocalSubmission (h : ChatComposerHistory) (text : Text) :
    ChatComposerHistory :=
  if text = [] then h
  else if h.localHistory.getLast? = some text then h
  else { h.resetNavigation with localHistory := h.localHistory ++ [text] }

def isBrowsing (h : ChatComposerHistory) : Bool := h.historyCursor.isSome

def totalEntries (h : ChatComposerHistory) : ℕ :=
  h.historyEntryCount + h.localHistory.length

def shouldHandleNavigation (h : ChatComposerHistory) (text : Text)
    (cursor : ℕ) : Bool :=
  if h.historyEntryCount = 0 ∧ h.localHistory = [] then false
  else if text = [] then true
  else if h.historyCursor.isSome ∧ h.lastHistoryText = some text then true
  else decide (cursor = 0 ∧
    (h.originalText = some text ∨ h.lastHistoryText = some text))

def populateHistoryAtIndex (h : ChatComposerHistory) (globalIdx : ℕ) : Shown :=
  if h.historyEntryCount ≤ globalIdx then
    match h.localHistory[globalIdx - h.historyEntryCount]? with
    | some text =>
        { history := { h with
          lastHistoryText := some text }, text := some text }
    | none => { history := h }
  else
    match h.fetchedHistory globalIdx with
    | some text =>
        { history := { h with
          lastHistoryText := some text }, text := some text }
    | none =>
        { history := h
          request := h.historyLogId.map fun logId => ⟨globalIdx, logId⟩ }

def navigateUp (h : ChatComposerHistory) (currentText : Text) : Shown :=
  if h.totalEntries = 0 then { history := h }
  else
    let h' :=
      if h.historyCursor = none ∧ h.originalText = none then
        { h with originalText := some currentText }
      else h
    match h.historyCursor with
    | none =>
        { h' with
          historyCursor := some (h.totalEntries - 1) }.populateHistoryAtIndex
          (h.totalEntries - 1)
    | some 0 => { history := h' }
    | some (idx + 1) =>
        { h' with historyCursor := some idx }.populateHistoryAtIndex idx

def navigateDown (h : ChatComposerHistory) : Shown :=
  if h.totalEntries = 0 then { history := h }
  else
    match h.historyCursor with
    | none => { history := h }
    | some idx =>
        if h.totalEntries ≤ idx + 1 then
          { history := h.resetNavigation
            text := some (h.originalText.getD []) }
        else
          { h with
            historyCursor := some (idx + 1) }.populateHistoryAtIndex (idx + 1)

def onEntryResponse (h : ChatComposerHistory) (logId offset : ℕ)
    (entry : Option Text) : Shown :=
  if h.historyLogId ≠ some logId then { history := h }
  else
    match entry with
    | none => { history := h }
    | some text =>
        let h' :=
          { h with fetchedHistory := h.fetchedHistory.insert offset text }
        if h.historyCursor = some offset then
          { history := { h' with
            lastHistoryText := some text }, text := some text }
        else { history := h' }

end ChatComposerHistory

inductive HistoryCall where
  | setMetadata (logId entryCount : ℕ)
  | recordLocalSubmission (text : Text)
  | resetNavigation
  | navigateUp (currentText : Text)
  | navigateDown
  | onEntryResponse (logId offset : ℕ) (entry : Option Text)

namespace ChatComposerHistory

/-- The history after a call. -/
def next (h : ChatComposerHistory) : HistoryCall → ChatComposerHistory
  | .setMetadata logId entryCount => h.setMetadata logId entryCount
  | .recordLocalSubmission text => h.recordLocalSubmission text
  | .resetNavigation => h.resetNavigation
  | .navigateUp currentText => (h.navigateUp currentText).history
  | .navigateDown => h.navigateDown.history
  | .onEntryResponse logId offset entry =>
      (h.onEntryResponse logId offset entry).history

/-! ## What is saved while browsing -/

/-- Nothing is saved unless the history is browsed, and the cursor is at an
entry. -/
structure Inv (h : ChatComposerHistory) : Prop where
  original : h.historyCursor = none → h.originalText = none
  saved : h.historyCursor ≠ none → h.originalText ≠ none
  inside : ∀ idx, h.historyCursor = some idx → idx < h.totalEntries

variable {h : ChatComposerHistory}

theorem inv_resetNavigation : h.resetNavigation.Inv :=
  ⟨fun _ => rfl, fun hne => absurd rfl hne, fun _ hidx => by cases hidx⟩

/-- All that looking up an entry changes is the text that was shown last. -/
theorem populateHistoryAtIndex_history (h : ChatComposerHistory) (idx : ℕ) :
    ∃ last, (h.populateHistoryAtIndex idx).history =
      { h with lastHistoryText := last } := by
  unfold populateHistoryAtIndex
  split
  · split
    · exact ⟨_, rfl⟩
    · exact ⟨h.lastHistoryText, rfl⟩
  · split
    · exact ⟨_, rfl⟩
    · exact ⟨h.lastHistoryText, rfl⟩

theorem inv_populateHistoryAtIndex (hinv : h.Inv) (idx : ℕ) :
    (h.populateHistoryAtIndex idx).history.Inv := by
  obtain ⟨last, hlast⟩ := h.populateHistoryAtIndex_history idx
  rw [hlast]
  exact ⟨hinv.original, hinv.saved, hinv.inside⟩

/-- Showing an entry keeps the invariant if a text is saved. -/
theorem inv_showEntry {idx : ℕ} (hcursor : h.historyCursor = some idx)
    (hsaved : h.originalText ≠ none) (hlt : idx < h.totalEntries) :
    (h.populateHistoryAtIndex idx).history.Inv := by
  refine inv_populateHistoryAtIndex ⟨fun hnone => ?_, fun _ => hsaved,
    fun idx' hidx => ?_⟩ idx
  · rw [hcursor] at hnone
    cases hnone
  · rw [hcursor] at hidx
    cases hidx
    exact hlt

theorem navigateUp_of_zero (hzero : h.totalEntries = 0) (currentText : Text) :
    h.navigateUp currentText = { history := h } := by
  rw [navigateUp, if_pos hzero]

/-- The first `Up` saves the current text and goes to the newest entry. -/
theorem navigateUp_of_none (hinv : h.Inv) (hcursor : h.historyCursor = none)
    (hpos : h.totalEntries ≠ 0) (currentText : Text) :
    h.navigateUp currentText =
      { h with
        originalText := some currentText
        historyCursor := some (h.totalEntries - 1) }.populateHistoryAtIndex
          (h.totalEntries - 1) := by
  rw [navigateUp, if_neg hpos, if_pos ⟨hcursor, hinv.original hcursor⟩, hcursor]

theorem navigateUp_of_some {idx : ℕ} (hinv : h.Inv)
    (hcursor : h.historyCursor = some idx)
    (currentText : Text) :
    h.navigateUp currentText =
      if idx = 0 then { history := h }
      else { h with
        historyCursor := some (idx - 1) }.populateHistoryAtIndex (idx - 1) := by
  have hlt := hinv.inside idx hcursor
  have hbrowsing : ¬ (h.historyCursor = none ∧ h.originalText = none) :=
    fun hnone => by
      rw [hcursor] at hnone
      cases hnone.1
  rw [navigateUp, if_neg (by omega), if_neg hbrowsing, hcursor]
  cases idx with
  | zero => rfl
  | succ idx => rfl

theorem inv_next (hinv : h.Inv) (call : HistoryCall) : (h.next call).Inv := by
  cases call with
  | setMetadata logId entryCount =>
      exact ⟨fun _ => rfl, fun hne => absurd rfl hne,
        fun _ hidx => by cases hidx⟩
  | recordLocalSubmission text =>
      rw [next, recordLocalSubmission]
      split
      next => exact hinv
      next =>
        split
        next => exact hinv
        next =>
          exact ⟨fun _ => rfl, fun hne => absurd rfl hne,
            fun _ hidx => by cases hidx⟩
  | resetNavigation => exact inv_resetNavigation
  | navigateUp currentText =>
      rw [next]
      by_cases hzero : h.totalEntries = 0
      · rwa [navigateUp_of_zero hzero]
      · cases hcursor : h.historyCursor with
        | none =>
            rw [navigateUp_of_none hinv hcursor hzero]
            exact inv_showEntry rfl (Option.some_ne_none currentText)
              (Nat.sub_one_lt hzero)
        | some idx =>
            rw [navigateUp_of_some hinv hcursor]
            split
            next => exact hinv
            next =>
              have hsaved := hinv.saved (hcursor ▸ Option.some_ne_none idx)
              exact inv_showEntry rfl hsaved
                (Nat.lt_of_le_of_lt (Nat.sub_le idx 1)
                  (hinv.inside idx hcursor))
  | navigateDown =>
      rw [next, navigateDown]
      split
      next => exact hinv
      next =>
        split
        next => exact hinv
        next idx hcursor =>
          split
          next => exact inv_resetNavigation
          next hlt =>
            have hsaved := hinv.saved (hcursor ▸ Option.some_ne_none idx)
            exact inv_showEntry rfl hsaved (Nat.lt_of_not_le hlt)
  | onEntryResponse logId offset entry =>
      simp only [next, onEntryResponse]
      split
      next => exact hinv
      next =>
        split
        next => exact hinv
        next => split <;> exact ⟨hinv.original, hinv.saved, hinv.inside⟩

theorem inv_after (calls : List HistoryCall) : (after next {} calls).Inv :=
  after_induction (P := Inv) (fun _ call hinv => inv_next hinv call)
    ⟨fun _ => rfl, fun hne => absurd rfl hne, fun _ hidx => by cases hidx⟩ calls

/-! ## Up and down again -/

/-- The entry at an index, if it is at hand. -/
def entryAt (h : ChatComposerHistory) (idx : ℕ) : Option Text :=
  if h.historyEntryCount ≤ idx then h.localHistory[idx - h.historyEntryCount]?
  else h.fetchedHistory idx

/-- The history while an entry is shown. -/
def browsing (h : ChatComposerHistory) (original : Text) (idx : ℕ)
    (entry : Text) :
    ChatComposerHistory :=
  { h with
    historyCursor := some idx
    lastHistoryText := some entry
    originalText := some original }

/-- An entry that is at hand is shown, wherever the cursor is and whatever is
saved. -/
theorem populateHistoryAtIndex_eq {idx : ℕ} {entry : Text}
    (hentry : h.entryAt idx = some entry)
    (cursor : Option ℕ) (last original : Option Text) :
    { h with
      historyCursor := cursor
      lastHistoryText := last
      originalText := original }.populateHistoryAtIndex idx =
        { history :=
            { h with
              historyCursor := cursor
              lastHistoryText := some entry
              originalText := original }
          text := some entry } := by
  rw [entryAt] at hentry
  unfold populateHistoryAtIndex
  split at hentry
  next hlocal => rw [if_pos hlocal, hentry]
  next hlog => rw [if_neg hlog, hentry]

end ChatComposerHistory

/-- The history and the text of the composer. -/
structure ChatComposer where
  history : ChatComposerHistory
  text : Text

namespace ChatComposer

def up (c : ChatComposer) : ChatComposer :=
  let shown := c.history.navigateUp c.text
  ⟨shown.history, shown.text.getD c.text⟩

def down (c : ChatComposer) : ChatComposer :=
  let shown := c.history.navigateDown
  ⟨shown.history, shown.text.getD c.text⟩

/-- The entries that are at hand, all of them. -/
def Available (h : ChatComposerHistory) (entries : List Text) : Prop :=
  entries.length = h.totalEntries ∧ ∀ idx < entries.length,
    h.entryAt idx = entries[idx]?

/-- The composer while an entry is shown. -/
def shownAt (h : ChatComposerHistory) (original : Text)
    (entries : List Text) (idx : ℕ) :
    ChatComposer :=
  ⟨h.browsing original idx (entries[idx]?.getD []), entries[idx]?.getD []⟩

variable {h : ChatComposerHistory} {t : Text} {entries : List Text} {idx : ℕ}

theorem Available.entryAt (ha : Available h entries)
    (hidx : idx < entries.length) :
    h.entryAt idx = some (entries[idx]?.getD []) := by
  rw [ha.2 idx hidx, List.getElem?_eq_getElem hidx, Option.getD_some]

theorem up_start (ha : Available h entries) (hinv : h.Inv)
    (hcursor : h.historyCursor = none)
    (hpos : 0 < entries.length) (t : Text) :
    up ⟨h, t⟩ = shownAt h t entries (entries.length - 1) := by
  have hentry : h.entryAt (entries.length - 1) =
      some (entries[entries.length - 1]?.getD []) := ha.entryAt (by omega)
  rw [up,
    ChatComposerHistory.navigateUp_of_none hinv hcursor (by rw [← ha.1]; omega),
    ← ha.1,
    ChatComposerHistory.populateHistoryAtIndex_eq hentry]
  rfl

theorem up_shownAt (ha : Available h entries)
    (hidx : idx + 1 < entries.length) :
    (shownAt h t entries (idx + 1)).up = shownAt h t entries idx := by
  have hentry : h.entryAt idx = some (entries[idx]?.getD []) :=
    ha.entryAt (by omega)
  have hinv : (shownAt h t entries (idx + 1)).history.Inv := by
    refine ⟨fun hnone => ?_, fun _ => Option.some_ne_none t,
      fun idx' hidx' => ?_⟩
    · cases hnone
    · cases hidx'
      exact ha.1 ▸ hidx
  rw [up, ChatComposerHistory.navigateUp_of_some hinv rfl,
    if_neg (Nat.succ_ne_zero idx)]
  simp only [shownAt, ChatComposerHistory.browsing, Nat.add_sub_cancel]
  rw [ChatComposerHistory.populateHistoryAtIndex_eq hentry]
  rfl

theorem down_shownAt (ha : Available h entries)
    (hidx : idx + 1 < entries.length) :
    (shownAt h t entries idx).down = shownAt h t entries (idx + 1) := by
  have hentry := ha.entryAt hidx
  have htotal : (shownAt h t entries idx).history.totalEntries =
      entries.length := ha.1.symm
  rw [down, ChatComposerHistory.navigateDown, htotal, if_neg (by omega)]
  simp only [shownAt, ChatComposerHistory.browsing, if_neg (Nat.not_le.2 hidx)]
  rw [ChatComposerHistory.populateHistoryAtIndex_eq hentry]
  rfl

/-- `Down` from the newest entry restores the text that was saved. -/
theorem down_newest (ha : Available h entries)
    (hidx : idx + 1 = entries.length) :
    (shownAt h t entries idx).down = ⟨h.resetNavigation, t⟩ := by
  have htotal : (shownAt h t entries idx).history.totalEntries =
      entries.length := ha.1.symm
  rw [down, ChatComposerHistory.navigateDown, htotal, if_neg (by omega)]
  simp only [shownAt, ChatComposerHistory.browsing,
    if_pos (Nat.le_of_eq hidx.symm)]
  rfl

/-- `Up` goes from the newest entry to the older ones. -/
theorem up_iterate (ha : Available h entries) (hinv : h.Inv)
    (hcursor : h.historyCursor = none)
    (t : Text) {i : ℕ} (hi : i < entries.length) :
    up^[i + 1] ⟨h, t⟩ = shownAt h t entries (entries.length - 1 - i) := by
  induction i with
  | zero => exact up_start ha hinv hcursor hi t
  | succ i ih =>
      have hstep :
          entries.length - 1 - i = entries.length - 1 - (i + 1) + 1 := by omega
      rw [Function.iterate_succ_apply', ih (by omega), hstep,
        up_shownAt ha (by omega)]

/-- `Down` goes back to the newer ones. -/
theorem down_iterate (ha : Available h entries) {j : ℕ}
    (hj : idx + j < entries.length) :
    down^[j] (shownAt h t entries idx) = shownAt h t entries (idx + j) := by
  induction j with
  | zero => rfl
  | succ j ih =>
      rw [Function.iterate_succ_apply', ih (by omega),
        down_shownAt ha (by omega)]
      rfl

theorem some_text_shownAt (hidx : idx < entries.length) :
    some (shownAt h t entries idx).text = entries[idx]? := by
  rw [List.getElem?_eq_getElem hidx]
  simp [shownAt, hidx]

theorem shouldHandleNavigation_shownAt (hlen : entries.length = h.totalEntries)
    (hidx : idx < entries.length) (cursor : ℕ) :
    (shownAt h t entries idx).history.shouldHandleNavigation
      (shownAt h t entries idx).text
      cursor = true := by
  have hentries : ¬ (h.historyEntryCount = 0 ∧ h.localHistory = []) :=
    fun hnone => by
      rw [hlen, ChatComposerHistory.totalEntries, hnone.1, hnone.2] at hidx
      exact Nat.not_lt_zero _ hidx
  simp [ChatComposerHistory.shouldHandleNavigation, shownAt,
    ChatComposerHistory.browsing,
    hentries]

/-- `Up` shows the entries from the newest on, `Down` shows them again, and the
`Down` past the newest one restores the text. -/
theorem up_down (ha : Available h entries) (hinv : h.Inv)
    (hcursor : h.historyCursor = none)
    (t : Text) {k : ℕ} (hk : k ≤ entries.length) :
    (∀ i < k, some (up^[i + 1] ⟨h, t⟩).text = entries[entries.length - 1 - i]? ∧
      (up^[i + 1] ⟨h, t⟩).history.shouldHandleNavigation
        (up^[i + 1] ⟨h, t⟩).text 0 = true) ∧
    (∀ j < k,
      some (down^[j] (up^[k] ⟨h, t⟩)).text = entries[entries.length - k + j]?) ∧
    (0 < k → down^[k] (up^[k] ⟨h, t⟩) = ⟨h.resetNavigation, t⟩) := by
  have hup : 0 < k → up^[k] ⟨h, t⟩ = shownAt h t entries (entries.length - k) :=
    fun hpos => by
      have hiterate := up_iterate ha hinv hcursor t (i := k - 1) (by omega)
      rwa [Nat.sub_add_cancel hpos,
        show entries.length - 1 - (k - 1) = entries.length - k by omega]
        at hiterate
  refine ⟨fun i hi => ?_, fun j hj => ?_, fun hpos => ?_⟩
  · rw [up_iterate ha hinv hcursor t (by omega)]
    exact ⟨some_text_shownAt (by omega),
      shouldHandleNavigation_shownAt ha.1 (by omega) 0⟩
  · rw [hup (by omega), down_iterate ha (by omega)]
    exact some_text_shownAt (by omega)
  · obtain ⟨j, rfl⟩ := Nat.exists_eq_succ_of_ne_zero (Nat.ne_of_gt hpos)
    rw [hup hpos, Function.iterate_succ_apply', down_iterate ha (by omega),
      down_newest ha (by omega)]

end ChatComposer

/-! ## After a submission -/

/-- The next `Up` shows the submission as the newest entry and saves the text
it finds. -/
def Restarts (h : ChatComposerHistory) (text : Text) : Prop :=
  ∀ currentText, ((h.recordLocalSubmission text).navigateUp currentText).text =
    some text ∧
    ((h.recordLocalSubmission text).navigateUp
      currentText).history.historyCursor =
      some ((h.recordLocalSubmission text).totalEntries - 1) ∧
    ((h.recordLocalSubmission text).navigateUp
      currentText).history.originalText =
      some currentText

/-- The text is not the last one that was submitted, or the history is not
browsed. -/
def Fresh (h : ChatComposerHistory) (text : Text) : Prop :=
  h.localHistory.getLast? ≠ some text ∨ h.isBrowsing = false

variable {h : ChatComposerHistory} {text : Text}

/-- From a state that is not browsed, with a submission as its last entry, `Up`
shows it. -/
theorem navigateUp_newest (hinv : h.Inv) (hcursor : h.historyCursor = none)
    (hlast : h.localHistory.getLast? = some text) (currentText : Text) :
    (h.navigateUp currentText).text = some text ∧
      (h.navigateUp currentText).history.historyCursor =
        some (h.totalEntries - 1) ∧
      (h.navigateUp currentText).history.originalText = some currentText := by
  have hne : h.localHistory ≠ [] := fun hnil => by
    rw [hnil] at hlast
    cases hlast
  have hlen := List.length_pos_iff.2 hne
  have hentry : h.entryAt (h.totalEntries - 1) = some text := by
    rw [ChatComposerHistory.entryAt, ChatComposerHistory.totalEntries,
      if_pos (by omega),
      ← hlast, List.getLast?_eq_getElem?]
    congr 1
    omega
  rw [ChatComposerHistory.navigateUp_of_none hinv hcursor
      (by rw [ChatComposerHistory.totalEntries]; omega),
    ChatComposerHistory.populateHistoryAtIndex_eq hentry]
  exact ⟨rfl, rfl, rfl⟩

/-- Browsing starts again after a submission exactly if it is a fresh one. -/
theorem restarts_iff (hinv : h.Inv) (htext : text ≠ []) :
    Restarts h text ↔ Fresh h text := by
  by_cases hlast : h.localHistory.getLast? = some text
  · have hsame : h.recordLocalSubmission text = h := by
      rw [ChatComposerHistory.recordLocalSubmission, if_neg htext, if_pos hlast]
    rw [Restarts, hsame]
    cases hcursor : h.historyCursor with
    | none =>
        refine iff_of_true (fun currentText => ?_)
          (.inr (by rw [ChatComposerHistory.isBrowsing,
          hcursor, Option.isSome_none]))
        exact navigateUp_newest hinv hcursor hlast currentText
    | some idx =>
        have hfresh : ¬ Fresh h text := by
          rintro (hne | hbrowsing)
          · exact hne hlast
          · rw [ChatComposerHistory.isBrowsing, hcursor] at hbrowsing
            cases hbrowsing
        refine iff_of_false (fun hrestarts => ?_) hfresh
        -- The text that was saved before stays, whatever the current one is.
        have hkept : ∀ currentText,
            (h.navigateUp currentText).history.originalText =
              h.originalText := by
          intro currentText
          rw [ChatComposerHistory.navigateUp_of_some hinv hcursor]
          split
          next => rfl
          next =>
            obtain ⟨last, hpopulate⟩ :=
              ChatComposerHistory.populateHistoryAtIndex_history
                { h with historyCursor := some (idx - 1) } (idx - 1)
            rw [hpopulate]
        have hnil := (hkept []).symm.trans (hrestarts []).2.2
        have hspace := (hkept [' ']).symm.trans (hrestarts [' ']).2.2
        cases hnil.symm.trans hspace
  · have hrecord : h.recordLocalSubmission text =
        { h.resetNavigation with
          localHistory := h.localHistory ++ [text] } := by
      rw [ChatComposerHistory.recordLocalSubmission, if_neg htext, if_neg hlast]
    refine iff_of_true (fun currentText => ?_) (.inl hlast)
    have hrecorded : (h.recordLocalSubmission text).Inv :=
      ChatComposerHistory.inv_next hinv (.recordLocalSubmission text)
    refine navigateUp_newest hrecorded ?_ ?_ currentText
    · rw [hrecord]
      rfl
    · rw [hrecord]
      exact List.getLast?_concat

def RecordsFresh (h : ChatComposerHistory) (call : HistoryCall) : Prop :=
  ∀ text, call = .recordLocalSubmission text → text ≠ [] → Fresh h text

open ChatComposer in
/-- In every state of a run that is not browsed, `Up` and `Down` go through the
entries and back to the text; and browsing starts again after every submission
of a run exactly if each of them is a fresh one. -/
theorem history_browses (calls : List HistoryCall) :
    (∀ entries t, (after ChatComposerHistory.next {} calls).isBrowsing = false →
      Available (after ChatComposerHistory.next {} calls) entries →
      ∀ k ≤ entries.length,
        let start : ChatComposer := ⟨after ChatComposerHistory.next {} calls, t⟩
        (∀ i < k,
          some (up^[i + 1] start).text = entries[entries.length - 1 - i]? ∧
          (up^[i + 1] start).history.shouldHandleNavigation
            (up^[i + 1] start).text 0 = true) ∧
        (∀ j < k, some (down^[j] (up^[k] start)).text =
          entries[entries.length - k + j]?) ∧
        (0 < k → (down^[k] (up^[k] start)).text = t ∧
          (down^[k] (up^[k] start)).history.isBrowsing = false)) ∧
      ((∀ before text later,
        calls = before ++ .recordLocalSubmission text :: later →
          text ≠ [] →
          Restarts (after ChatComposerHistory.next {} before) text) ↔
        Along ChatComposerHistory.next RecordsFresh {} calls) := by
  constructor
  · intro entries t hbrowsing ha k hk start
    have hcursor := Option.isSome_eq_false_iff.1 hbrowsing
    obtain ⟨hup, hdown, hlast⟩ :=
      up_down ha (ChatComposerHistory.inv_after calls)
        (Option.isNone_iff_eq_none.1 hcursor) t hk
    refine ⟨hup, hdown, fun hpos => ?_⟩
    rw [hlast hpos]
    exact ⟨rfl, rfl⟩
  · rw [along_iff_forall_split]
    constructor
    · rintro h before call later hsplit text rfl htext
      exact (restarts_iff (ChatComposerHistory.inv_after before) htext).1
        (h before text later hsplit htext)
    · intro h before text later hsplit htext
      exact (restarts_iff (ChatComposerHistory.inv_after before) htext).2
        (h before _ later hsplit text rfl htext)

/-- A recalled entry that is submitted once more leaves the history browsed. -/
theorem not_restarts_after_resubmission :
    ¬ ∀ calls text, text ≠ [] →
      Restarts (after ChatComposerHistory.next {} calls) text := by
  intro h
  have hshown := (h [.recordLocalSubmission "cargo test".toList, .navigateUp []]
    "cargo test".toList (by decide) []).1
  exact absurd hshown (by decide)

end CodeRs.Composer
