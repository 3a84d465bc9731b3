import CodeRs.Lib.Runs
import CodeRs.Lib.Decimal

/-!
# The snapshot epoch

A bump of the snapshot epoch reads the epoch file and writes one more.  The
file has no lock, and `fs::write` empties it before it writes.  So bumps of
several processes can come between each other's steps, and a late one puts back
an epoch that others have passed. While bumps keep apart, the epoch only grows
and every bump is noticed.
-/

namespace CodeRs.Review

/-- Where a call of `bump_snapshot_epoch_for` is. -/
inductive BumpPc
  /-- `read_epoch` has returned. -/
  | hasRead (current : Nat)
  /-- `fs::write` has opened the file and emptied it. -/
  | truncated (current : Nat)
  /-- The call has returned, and this is the epoch it has left. -/
  | done (left : Nat)
deriving DecidableEq, Repr

structure Bump where
  /-- The largest epoch that anyone had read before the call. -/
  floor : Nat
  pc : BumpPc
deriving DecidableEq, Repr

/-- The epoch file, the bumps, and what has been seen of the epoch. -/
structure EpochState where
  /-- The text of the file.  It is missing if there is no file or no UTF-8 text
  in it. -/
  file : Option Text
  bumps : List Bump
  /-- The largest epoch that anyone has read. -/
  seen : Nat
  /-- The largest epoch that the file has held between two writes. -/
  high : Nat
deriving DecidableEq, Repr

inductive EpochEvent
  /-- A bump begins and reads the epoch. -/
  | start
  /-- `fs::write` opens the file for the bump at `i`. -/
  | truncate (i : Nat) (ok : Bool)
  /-- `fs::write` writes for the bump at `i`, and the bump returns. -/
  | write (i : Nat) (ok : Bool)
  /-- A reviewer reads the epoch. -/
  | observe
deriving DecidableEq, Repr

/-- `read_epoch` on the text of the file. -/
def readEpoch (file : Option Text) : Nat :=
  match file with
  | some text => (Text.parseU64 (Text.trim text)).getD 0
  | none => 0

/-- Writing at the start of a file leaves what is behind the written text. -/
def overwrite (old new : Text) : Text := new ++ old.drop new.length

def BumpPc.isTruncated : BumpPc → Bool
  | .truncated _ => true
  | _ => false

namespace EpochState

def epoch (s : EpochState) : Nat := readEpoch s.file

/-- No write is between its two steps. -/
def settled (s : EpochState) : Bool := s.bumps.all fun b => !b.pc.isTruncated

/-- A file with nothing but its text. -/
def init (file : Option Text) : EpochState := ⟨file, [], 0, readEpoch file⟩

def setPc (s : EpochState) (i : Nat) (b : Bump) (pc : BumpPc) : EpochState :=
  { s with bumps := s.bumps.set i { b with pc } }

/-- Keep account of the largest epoch between two writes. -/
def note (s : EpochState) : EpochState :=
  if s.settled then { s with high := max s.high s.epoch } else s

/-- One step of a bump or a reader. -/
def act (s : EpochState) : EpochEvent → EpochState
  | .start =>
      { s with
        bumps := s.bumps ++ [⟨s.seen, .hasRead s.epoch⟩],
        seen := max s.seen s.epoch }
  | .truncate i ok =>
      match s.bumps[i]? with
      | some ⟨floor, .hasRead current⟩ =>
          if ok then
            { s with file := some [] }.setPc i ⟨floor,
              .hasRead current⟩ (.truncated current)
          -- An error of `write_epoch` is ignored.
          else s.setPc i ⟨floor, .hasRead current⟩ (.done s.epoch)
      | _ => s
  | .write i ok =>
      match s.bumps[i]? with
      | some ⟨floor, .truncated current⟩ =>
          let file :=
            if ok then
              some
                (overwrite (s.file.getD []) (Text.decimal (satAdd current 1)))
            else s.file
          { s with file }.setPc i ⟨floor,
            .truncated current⟩ (.done (readEpoch file))
      | _ => s
  | .observe => { s with seen := max s.seen s.epoch }

def next (s : EpochState) (e : EpochEvent) : EpochState := (s.act e).note

/-- Between two writes the epoch is at least what it has ever been between two
writes, and every bump that has returned has left more than anyone had read
before it, so that these readers find another epoch. -/
structure Fresh (s : EpochState) : Prop where
  grows : s.settled = true → s.high ≤ s.epoch
  leaves : ∀ (i floor left : Nat), s.bumps[i]? = some ⟨floor, .done left⟩ →
    floor < left
  noticed : s.settled = true →
    ∀ (i floor left : Nat), s.bumps[i]? = some ⟨floor, .done left⟩ →
    floor < s.epoch

/-- A bump that begins finds no write under way and an epoch that can grow.  A
write succeeds, is the only one, and finds an epoch that has grown by at most
one since its bump has read it. -/
def Apart (s : EpochState) : EpochEvent → Bool
  | .start => s.settled && decide (s.epoch < u64Max)
  | .truncate i ok =>
      match s.bumps[i]? with
      | some ⟨_, .hasRead current⟩ =>
          ok && s.settled && decide (s.epoch ≤ current + 1)
      | _ => true
  | .write i ok =>
      match s.bumps[i]? with
      | some ⟨_, .truncated _⟩ => ok
      | _ => true
  | .observe => true

/-! ## The invariant -/

/-- What is known of a bump at each of its places. -/
def Good (s : EpochState) (floor : Nat) : BumpPc → Prop
  | .hasRead current => floor ≤ current ∧ current < u64Max
  | .truncated current =>
      s.file = some [] ∧ floor ≤ current ∧ current < u64Max ∧
        s.high ≤ current + 1
  | .done left => floor < left ∧ left ≤ s.high

/-- At most one write is under way, and nobody has read more than the file has
held. -/
structure Sound (s : EpochState) : Prop where
  single : ∀ (i j : Nat) (b c : Bump), s.bumps[i]? = some b →
    s.bumps[j]? = some c →
    b.pc.isTruncated = true → c.pc.isTruncated = true → i = j
  high : s.settled = true → s.high = s.epoch
  seen : s.seen ≤ s.high
  good : ∀ (i : Nat) (b : Bump), s.bumps[i]? = some b → s.Good b.floor b.pc

theorem settled_iff {s : EpochState} :
    s.settled = true ↔ ∀ (i : Nat) (b : Bump), s.bumps[i]? = some b →
      b.pc.isTruncated = false := by
  simp only [settled, List.all_eq_true, Bool.not_eq_true']
  constructor
  · intro h i b hb
    exact h b (List.mem_of_getElem? hb)
  · intro h b hb
    obtain ⟨i, hi⟩ := List.getElem?_of_mem hb
    exact h i b hi

theorem exists_truncated {s : EpochState} (h : s.settled = false) :
    ∃ (i : Nat) (floor current : Nat),
      s.bumps[i]? = some (⟨floor, .truncated current⟩ : Bump) := by
  by_contra hnone
  have hsettled : s.settled = true := by
    apply settled_iff.2
    intro i b hb
    cases hpc : b.pc with
    | truncated current =>
        exact absurd ⟨i, b.floor, current, by rw [hb, ← hpc]⟩ hnone
    | _ => rfl
  rw [h] at hsettled
  cases hsettled

theorem readEpoch_nil : readEpoch (some []) = 0 := rfl

theorem readEpoch_decimal {n : Nat} (h : n ≤ u64Max) :
    readEpoch (some (Text.decimal n)) = n := by
  simp [readEpoch, Text.trim_decimal, Text.parseU64_decimal h]

theorem Sound.epoch_le_high {s : EpochState} (h : s.Sound) :
    s.epoch ≤ s.high := by
  cases hsettled : s.settled with
  | true => exact Nat.le_of_eq (h.high hsettled).symm
  | false =>
      obtain ⟨i, floor, current, hb⟩ := exists_truncated hsettled
      have hempty : s.file = some [] := (h.good i _ hb).1
      rw [epoch, hempty, readEpoch_nil]
      exact Nat.zero_le _

theorem Sound.note {s : EpochState} (h : s.Sound) : s.note.Sound := by
  have hsame : s.note = s := by
    simp only [EpochState.note]
    split
    next =>
      have hmax : max s.high s.epoch = s.high := Nat.max_eq_left h.epoch_le_high
      rw [hmax]
    next => rfl
  rw [hsame]
  exact h

theorem Sound.fresh {s : EpochState} (h : s.Sound) : s.Fresh where
  grows hsettled := Nat.le_of_eq (h.high hsettled)
  leaves i floor left hb := (h.good i _ hb).1
  noticed hsettled i floor left hb := by
    rw [← h.high hsettled]
    exact Nat.lt_of_lt_of_le (h.good i _ hb).1 (h.good i _ hb).2

/-- A bump that has not emptied the file only needs the largest epoch not to
fall. -/
theorem Good.mono {s t : EpochState} {floor : Nat} {pc : BumpPc}
    (h : s.Good floor pc)
    (hpc : pc.isTruncated = false) (hhigh : s.high ≤ t.high) :
    t.Good floor pc := by
  cases pc with
  | hasRead current => exact h
  | truncated current => cases hpc
  | done left => exact ⟨h.1, Nat.le_trans h.2 hhigh⟩

/-! ## Steps of bumps that keep apart -/

variable {s : EpochState} {i : Nat}

theorem getElem?_setPc {b : Bump} (hb : s.bumps[i]? = some b) (pc : BumpPc) :
    (s.setPc i b pc).bumps[i]? = some { b with pc } := by
  have hlt : i < s.bumps.length := (List.getElem?_eq_some_iff.1 hb).1
  simp [setPc, hlt]

theorem getElem?_setPc_ne {j : Nat} (h : j ≠ i) (b : Bump) (pc : BumpPc) :
    (s.setPc i b pc).bumps[j]? = s.bumps[j]? :=
  List.getElem?_set_ne (Ne.symm h)

theorem Sound.observe (h : s.Sound) : (s.next .observe).Sound := by
  have hsound : (s.act .observe).Sound :=
    ⟨h.single, h.high, Nat.max_le.2 ⟨h.seen, h.epoch_le_high⟩, h.good⟩
  exact hsound.note

theorem Sound.start (h : s.Sound) (hapart : s.Apart .start = true) :
    (s.next .start).Sound := by
  simp only [Apart, Bool.and_eq_true, decide_eq_true_eq] at hapart
  obtain ⟨hsettled, hroom⟩ := hapart
  have hbumps : ∀ (j : Nat) (b : Bump), (s.act .start).bumps[j]? = some b →
      s.bumps[j]? = some b ∨ b = ⟨s.seen, .hasRead s.epoch⟩ := by
    intro j b hb
    simp only [act, List.getElem?_append] at hb
    split at hb
    · exact .inl hb
    · exact .inr (List.mem_singleton.1 (List.mem_of_getElem? hb))
  have hstill : ∀ (j : Nat) (b : Bump), (s.act .start).bumps[j]? = some b →
      b.pc.isTruncated = false := by
    intro j b hb
    rcases hbumps j b hb with hold | rfl
    · exact settled_iff.1 hsettled j b hold
    · rfl
  have hsound : (s.act .start).Sound := by
    refine ⟨?_, fun _ => h.high hsettled,
      Nat.max_le.2 ⟨h.seen, h.epoch_le_high⟩, ?_⟩
    · intro j k b c hb _ hbt
      rw [hstill j b hb] at hbt
      cases hbt
    · intro j b hb
      rcases hbumps j b hb with hold | rfl
      · exact (h.good j b hold).mono (hstill j b hb) (Nat.le_refl _)
      · exact ⟨(h.high hsettled) ▸ h.seen, hroom⟩
  exact hsound.note

/-- The file is emptied for a bump that will write at least what the file
held. -/
theorem Sound.truncated (h : s.Sound) {floor current : Nat}
    (hb : s.bumps[i]? = some ⟨floor, .hasRead current⟩)
    (hsettled : s.settled = true)
    (hepoch : s.epoch ≤ current + 1) :
    ({ s with file := some [] }.setPc i ⟨floor,
      .hasRead current⟩ (.truncated current)).Sound := by
  have hlow := h.good i _ hb
  have hself :=
    getElem?_setPc (s := { s with file := some [] }) hb (.truncated current)
  refine ⟨?_, ?_, h.seen, ?_⟩
  · intro j k b c hj hk hbt hct
    have honly : ∀ (l : Nat) (d : Bump), ({ s with file := some [] }.setPc i
        ⟨floor, .hasRead current⟩ (.truncated current)).bumps[l]? = some d →
        d.pc.isTruncated = true → l = i := by
      intro l d hd hdt
      by_contra hne
      rw [getElem?_setPc_ne hne] at hd
      rw [settled_iff.1 hsettled l d hd] at hdt
      cases hdt
    rw [honly j b hj hbt, honly k c hk hct]
  · intro hafter
    have hstill := settled_iff.1 hafter i _ hself
    cases hstill
  · intro j b hj
    by_cases hji : j = i
    · subst hji
      cases hself.symm.trans hj
      exact ⟨rfl, hlow.1, hlow.2, (h.high hsettled) ▸ hepoch⟩
    · rw [getElem?_setPc_ne hji] at hj
      exact (h.good j b hj).mono (settled_iff.1 hsettled j b hj) (Nat.le_refl _)

/-- The write ends the only bump under way, and the epoch is one more than it
has read. -/
theorem Sound.written (h : s.Sound) {floor current : Nat}
    (hb : s.bumps[i]? = some ⟨floor, .truncated current⟩) :
    ({ s with file := some (Text.decimal (current + 1)) }.setPc i ⟨floor,
      .truncated current⟩
      (.done (current + 1))).note.Sound := by
  obtain ⟨hempty, hfloor, hroom, hhigh⟩ := h.good i _ hb
  have hepoch : readEpoch (some (Text.decimal (current + 1))) = current + 1 :=
    readEpoch_decimal hroom
  generalize ht : ({ s with
    file := some (Text.decimal (current + 1)) } : EpochState).setPc i
    ⟨floor, .truncated current⟩ (.done (current + 1)) = t
  have hself : t.bumps[i]? = some ⟨floor, .done (current + 1)⟩ := by
    rw [← ht]
    exact getElem?_setPc (s := { s with
      file := some (Text.decimal (current + 1)) }) hb _
  have hothers : ∀ (j : Nat) (b : Bump), j ≠ i → t.bumps[j]? = some b →
      s.bumps[j]? = some b := by
    intro j b hji hj
    rw [← ht, getElem?_setPc_ne hji] at hj
    exact hj
  have hstill : ∀ (j : Nat) (b : Bump), t.bumps[j]? = some b →
      b.pc.isTruncated = false := by
    intro j b hj
    by_cases hji : j = i
    · subst hji
      cases hself.symm.trans hj
      rfl
    · cases hbt : b.pc.isTruncated with
      | false => rfl
      | true =>
          exact absurd (h.single j i b _ (hothers j b hji hj) hb hbt rfl) hji
  have hnote : t.note = { t with high := current + 1 } := by
    have htepoch : t.epoch = current + 1 := by rw [← ht]; exact hepoch
    have hthigh : t.high ≤ current + 1 := by rw [← ht]; exact hhigh
    rw [EpochState.note, if_pos (settled_iff.2 hstill), htepoch,
      Nat.max_eq_right hthigh]
  rw [hnote]
  refine ⟨?_, ?_, ?_, ?_⟩
  · intro j k b c hj _ hbt
    rw [hstill j b hj] at hbt
    cases hbt
  · intro _
    rw [← ht]
    exact hepoch.symm
  · rw [← ht]
    exact Nat.le_trans h.seen hhigh
  · intro j b hj
    by_cases hji : j = i
    · subst hji
      cases hself.symm.trans hj
      exact ⟨Nat.lt_succ_of_le hfloor, Nat.le_refl _⟩
    · exact (h.good j b (hothers j b hji hj)).mono (hstill j b hj) hhigh

theorem Sound.next (h : s.Sound) {e : EpochEvent} (hapart : s.Apart e = true) :
    (s.next e).Sound := by
  cases e with
  | start => exact h.start hapart
  | observe => exact h.observe
  | truncate i ok =>
      simp only [EpochState.next, act]
      split
      next floor current hb =>
        simp only [Apart, hb, Bool.and_eq_true, decide_eq_true_eq] at hapart
        obtain ⟨⟨rfl, hsettled⟩, hepoch⟩ := hapart
        have hsound := h.truncated hb hsettled hepoch
        exact hsound.note
      next => exact h.note
  | write i ok =>
      simp only [EpochState.next, act]
      split
      next floor current hb =>
        simp only [Apart, hb] at hapart
        subst hapart
        obtain ⟨hempty, -, hroom, -⟩ := h.good i _ hb
        have hfile :
            overwrite (s.file.getD []) (Text.decimal (satAdd current 1)) =
            Text.decimal (current + 1) := by
          rw [hempty, satAdd_eq hroom]
          simp [overwrite]
        simp only [if_true, hfile, readEpoch_decimal hroom]
        exact h.written hb
      next => exact h.note

theorem sound_init (file : Option Text) : (init file).Sound := by
  refine ⟨?_, fun _ => rfl, Nat.zero_le _, ?_⟩
  · intro i j b c hb
    cases hb
  · intro i b hb
    cases hb

end EpochState

/-! ## Whole runs -/

/-- While bumps keep apart, the epoch never falls and every bump is noticed. -/
theorem fresh_of_apart (file : Option Text) (events : List EpochEvent)
    (h : Along EpochState.next (fun s e => s.Apart e =
      true) (EpochState.init file) events) :
    Throughout EpochState.next EpochState.Fresh
      (EpochState.init file) events := by
  have hsound :
      Throughout EpochState.next EpochState.Sound
        (EpochState.init file) events :=
    h.throughout (fun _ _ hs hapart => hs.next hapart)
      (EpochState.sound_init file)
  exact hsound.mono fun _ hs => hs.fresh

/-- The steps of a bump that nobody comes between. -/
def bumpSnapshotEpochFor (i : Nat) : List EpochEvent :=
  [.start, .truncate i true, .write i true]

/-- Two bumps read the same epoch, and a third one comes after them. -/
theorem fresh_of_apart_overlap :
    Throughout EpochState.next EpochState.Fresh
      (EpochState.init (some "41\n".toList))
      ([.observe, .start, .start, .truncate 0 true, .write 0 true,
        .truncate 1 true,
        .write 1 true] ++ bumpSnapshotEpochFor 2 ++ [.observe]) :=
  fresh_of_apart _ _ (by decide)

/-- A bump that has read the epoch is overtaken by two others and then
writes. -/
def overtaken : List EpochEvent :=
  .start :: bumpSnapshotEpochFor 1 ++ bumpSnapshotEpochFor 2 ++
    [.truncate 0 true, .write 0 true]

theorem overtaken_not_fresh :
    ¬ ∀ (file : Option Text) (events : List EpochEvent),
      Throughout EpochState.next EpochState.Fresh
        (EpochState.init file) events := by
  intro h
  have hlast := (h none overtaken).after
  have hgrows : (2 : Nat) ≤ 1 := hlast.grows (by decide)
  exact absurd hgrows (by decide)

end CodeRs.Review
