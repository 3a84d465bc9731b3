import CodeRs.Lib.Runs
import CodeRs.Lib.Saturating
import CodeRs.Memory.Summaries

/-!
# The use of memories

`note_memory_usage` and `refresh_memories` of `core/src/memories/mod.rs`.  A
refresh works on a copy that it loaded, and each of its two saves takes the
greater count of the copy and the file. Loads, saves and notes hold one lock,
so each of them is one step.  The operations on the file succeed.
-/

namespace CodeRs.Memory

open AccountUsage (DateTime)
open Rollout (Uuid)

/-! ## Outputs -/

def upsertStage1Output (outputs : List Stage1Output) (next : Stage1Output) :
    List Stage1Output :=
  let next := match outputs.find? (·.sessionId = next.sessionId) with
    | some existing =>
        { next with
          usageCount := existing.usageCount, lastUsage := existing.lastUsage }
    | none => next
  (outputs.filter fun output => output.sessionId ≠ next.sessionId) ++ [next]

def maxOptionalDatetime : Option DateTime → Option DateTime → Option DateTime
  | some left, some right => some (max left right)
  | some value, none => some value
  | none, some value => some value
  | none, none => none

/-- The last entry for a session, as `collect` leaves it in a map. -/
def usageBySession (existingOutputs : List Stage1Output) (sessionId : Uuid) :
    Option (ℕ × Option DateTime) :=
  (existingOutputs.reverse.find? (·.sessionId = sessionId)).map fun output =>
    (output.usageCount, output.lastUsage)

/-- The greater use of an output and the persisted one. -/
def mergeUsage (existingOutputs : List Stage1Output) (output : Stage1Output) :
    Stage1Output :=
  match usageBySession existingOutputs output.sessionId with
  | none => output
  | some (usageCount, lastUsage) =>
      { output with
        usageCount := max output.usageCount usageCount
        lastUsage := maxOptionalDatetime output.lastUsage lastUsage }

/-- `merge_usage_metadata_from_persisted`. -/
def mergeUsageMetadata (persisted : Option (List Stage1Output))
    (outputs : List Stage1Output) :
    List Stage1Output :=
  match persisted with
  | none => outputs
  | some existingOutputs => outputs.map (mergeUsage existingOutputs)

/-- What `note_memory_usage` does to an output. -/
def noteOutput (rolloutIds : List Uuid) (now : DateTime)
    (output : Stage1Output) :
    Stage1Output :=
  if output.sessionId ∈ rolloutIds then
    { output with
      usageCount := satAdd output.usageCount 1, lastUsage := some now }
  else output

/-- What `summarize_entry` gives: an output that was of no use yet. -/
def Stage1Output.unused (output : Stage1Output) : Stage1Output :=
  { output with usageCount := 0, lastUsage := none }

/-! ## Steps -/

/-- The persisted outputs, if there are any, and the copy of each refresh. -/
structure Memories where
  persisted : Option (List Stage1Output)
  copies : ℕ → List Stage1Output

/-- What is read from the file. -/
def Memories.stored (m : Memories) : List Stage1Output := m.persisted.getD []

/-- The steps of notes and refreshes.  A refresh is named by a number. -/
inductive MemoryStep where
  /-- `note_memory_usage`. -/
  | note (rolloutIds : List Uuid) (now : DateTime)
  /-- `load_stage1_outputs`. -/
  | load (refresh : ℕ)
  /-- `prune_stage1_outputs`, with what it keeps. -/
  | prune (refresh : ℕ) (allowed : Stage1Output → Bool)
  /-- `upsert_stage1_output`, with what `summarize_entry` has found. -/
  | upsert (refresh : ℕ) (found : Stage1Output)
  /-- `save_stage1_outputs`. -/
  | save (refresh : ℕ)

/-- Change the copy of a refresh. -/
def Memories.setCopy (m : Memories) (refresh : ℕ) (copy : List Stage1Output) :
    Memories :=
  { m with copies := Function.update m.copies refresh copy }

/-- The state after a step. -/
def Memories.next (m : Memories) : MemoryStep → Memories
  | .note rolloutIds now =>
      -- Without an output of the sessions nothing is written.
      if m.stored.any (·.sessionId ∈ rolloutIds) then
        { m with persisted := some (m.stored.map (noteOutput rolloutIds now)) }
      else m
  | .load refresh => m.setCopy refresh m.stored
  | .prune refresh allowed =>
      m.setCopy refresh ((m.copies refresh).filter allowed)
  | .upsert refresh found =>
      m.setCopy refresh (upsertStage1Output (m.copies refresh) found.unused)
  | .save refresh =>
      { m with
        persisted := some (mergeUsageMetadata m.persisted (m.copies refresh)) }

/-- A process starts with what is in the file. -/
def Memories.start (persisted : Option (List Stage1Output)) : Memories :=
  ⟨persisted, fun _ => []⟩

/-- The steps of `refresh_memories`.  The second stage does not change the
outputs. -/
def refreshMemories (refresh : ℕ) (allowed : Stage1Output → Bool)
    (found : List Stage1Output) :
    List MemoryStep :=
  [.load refresh, .prune refresh allowed] ++ found.map (.upsert refresh) ++
    [.save refresh, .save refresh]

/-- A file that processes have written, one after the other. -/
inductive Written : Option (List Stage1Output) → Prop
  | absent : Written none
  | run {persisted} (h : Written persisted) (steps : List MemoryStep) :
      Written (CodeRs.after Memories.next (.start persisted) steps).persisted

/-! ## One output a session -/

/-- Outputs of different sessions with counts of 64 bits. -/
structure Sound (outputs : List Stage1Output) : Prop where
  distinct : (outputs.map (·.sessionId)).Nodup
  bounded : ∀ output ∈ outputs, output.usageCount ≤ u64Max

theorem sound_nil : Sound [] := ⟨List.nodup_nil, by simp⟩

section Outputs

variable {outputs : List Stage1Output}

theorem Sound.sublist {kept : List Stage1Output} (h : Sound outputs)
    (hkept : kept.Sublist outputs) : Sound kept where
  distinct := h.distinct.sublist (hkept.map _)
  bounded := fun output hmem => h.bounded output (hkept.subset hmem)

theorem Sound.map {f : Stage1Output → Stage1Output} (h : Sound outputs)
    (hsession : ∀ output, (f output).sessionId = output.sessionId)
    (hbounded : ∀ output ∈ outputs, (f output).usageCount ≤ u64Max) :
    Sound (outputs.map f) where
  distinct := by
    have hsame :
        (outputs.map f).map (·.sessionId) = outputs.map (·.sessionId) := by
      rw [List.map_map]
      exact List.map_congr_left fun output _ => hsession output
    rw [hsame]
    exact h.distinct
  bounded := by
    intro output hmem
    obtain ⟨old, hold, rfl⟩ := List.mem_map.1 hmem
    exact hbounded old hold

theorem Sound.eq_of_sessionId {a b : Stage1Output} (h : Sound outputs)
    (ha : a ∈ outputs)
    (hb : b ∈ outputs) (hab : a.sessionId = b.sessionId) : a = b :=
  List.inj_on_of_nodup_map h.distinct ha hb hab

theorem of_find_sessionId {output : Stage1Output} {sessionId : Uuid}
    (h : outputs.find? (·.sessionId = sessionId) = some output) :
    output ∈ outputs ∧ output.sessionId = sessionId := by
  have hsession := List.find?_some h
  exact ⟨List.mem_of_find?_eq_some h, of_decide_eq_true hsession⟩

theorem exists_upsert (outputs : List Stage1Output) (next : Stage1Output) :
    ∃ pushed : Stage1Output, pushed.sessionId = next.sessionId ∧
      upsertStage1Output outputs next =
        (outputs.filter fun output => output.sessionId ≠ next.sessionId) ++
          [pushed] ∧
      (pushed.usageCount = next.usageCount ∨ ∃ existing ∈ outputs,
        existing.sessionId = next.sessionId ∧
          pushed.usageCount = existing.usageCount) := by
  rw [upsertStage1Output]
  cases hfind : outputs.find? (·.sessionId = next.sessionId) with
  | none => exact ⟨next, rfl, rfl, Or.inl rfl⟩
  | some existing =>
      obtain ⟨hmem, hsession⟩ := of_find_sessionId hfind
      exact ⟨{ next with
        usageCount := existing.usageCount, lastUsage := existing.lastUsage },
        rfl, rfl, Or.inr ⟨existing, hmem, hsession, rfl⟩⟩

theorem Sound.upsert (h : Sound outputs) (found : Stage1Output) :
    Sound (upsertStage1Output outputs found.unused) := by
  obtain ⟨pushed, hsession, heq, husage⟩ := exists_upsert outputs found.unused
  have hfilter := h.sublist
    (List.filter_sublist (p := fun output => output.sessionId ≠
      found.unused.sessionId))
  rw [heq]
  refine ⟨?_, ?_⟩
  · rw [List.map_append, List.map_singleton]
    refine List.nodup_append.2 ⟨hfilter.distinct, List.nodup_singleton _, ?_⟩
    rintro id hid other hother rfl
    obtain ⟨output, hmem, hsame⟩ := List.mem_map.1 hid
    have hne := of_decide_eq_true (List.mem_filter.1 hmem).2
    exact hne (hsame.trans ((List.mem_singleton.1 hother).trans hsession))
  · intro output hmem
    rcases List.mem_append.1 hmem with hold | hnew
    · exact hfilter.bounded output hold
    · rw [List.mem_singleton.1 hnew]
      rcases husage with hzero | ⟨existing, hexisting, -, hcount⟩
      · rw [hzero]
        exact Nat.zero_le _
      · rw [hcount]
        exact h.bounded existing hexisting

theorem exists_merge (persisted : Option (List Stage1Output))
    (outputs : List Stage1Output) :
    ∃ f : Stage1Output → Stage1Output,
      mergeUsageMetadata persisted outputs = outputs.map f ∧
      ∀ output, (f output).sessionId = output.sessionId ∧
        ((f output).usageCount = output.usageCount ∧
            (∀ existing ∈ persisted.getD [],
              existing.sessionId ≠ output.sessionId) ∨
          ∃ existing ∈ persisted.getD [],
            existing.sessionId = output.sessionId ∧
            (f output).usageCount =
              max output.usageCount existing.usageCount) := by
  cases persisted with
  | none =>
      refine ⟨id, (List.map_id outputs).symm,
        fun output => ⟨rfl, Or.inl ⟨rfl, ?_⟩⟩⟩
      intro existing hmem
      cases hmem
  | some existingOutputs =>
      refine ⟨mergeUsage existingOutputs, rfl, fun output => ?_⟩
      rw [mergeUsage, usageBySession]
      cases hfind : existingOutputs.reverse.find? (·.sessionId =
        output.sessionId) with
      | none =>
          refine ⟨rfl, Or.inl ⟨rfl, fun existing hmem hsession => ?_⟩⟩
          have hnone :=
            List.find?_eq_none.1 hfind existing (List.mem_reverse.2 hmem)
          exact hnone (decide_eq_true hsession)
      | some existing =>
          obtain ⟨hmem, hsession⟩ := of_find_sessionId hfind
          exact ⟨rfl, Or.inr ⟨existing, List.mem_reverse.1 hmem, hsession, rfl⟩⟩

theorem Sound.merge (h : Sound outputs) {persisted : Option (List Stage1Output)}
    (hpersisted : Sound (persisted.getD [])) :
    Sound (mergeUsageMetadata persisted outputs) := by
  obtain ⟨f, heq, hf⟩ := exists_merge persisted outputs
  rw [heq]
  refine h.map (fun output => (hf output).1) fun output hmem => ?_
  rcases (hf output).2 with ⟨hcount, -⟩ | ⟨existing, hexisting, -, hcount⟩
  · rw [hcount]
    exact h.bounded output hmem
  · rw [hcount]
    exact max_le (h.bounded output hmem) (hpersisted.bounded existing hexisting)

theorem Sound.note (h : Sound outputs) (rolloutIds : List Uuid)
    (now : DateTime) :
    Sound (outputs.map (noteOutput rolloutIds now)) := by
  refine h.map (fun output => ?_) fun output hmem => ?_
  · rw [noteOutput]
    split
    · rfl
    · rfl
  · rw [noteOutput]
    split
    · exact satAdd_le_max _ 1
    · exact h.bounded output hmem

end Outputs

/-! ## What a step does to the use of a session -/

/-- The file and all copies have one output a session. -/
structure Memories.Sound (m : Memories) : Prop where
  stored : Memory.Sound m.stored
  copies : ∀ refresh, Memory.Sound (m.copies refresh)

/-- What holds of all copies and of a new one holds of all copies afterwards. -/
theorem forall_copies_setCopy {m : Memories} {P : List Stage1Output → Prop}
    (h : ∀ refresh, P (m.copies refresh)) {copy : List Stage1Output}
    (hcopy : P copy)
    (refresh : ℕ) : ∀ other, P ((m.setCopy refresh copy).copies other) := by
  intro other
  rw [Memories.setCopy]
  by_cases hother : other = refresh
  · simp only [hother, Function.update_self]
    exact hcopy
  · simp only [Function.update_of_ne hother]
    exact h other

theorem Memories.Sound.setCopy {m : Memories} (h : m.Sound)
    {copy : List Stage1Output}
    (hcopy : Memory.Sound copy) (refresh : ℕ) :
    (m.setCopy refresh copy).Sound where
  stored := h.stored
  copies := forall_copies_setCopy h.copies hcopy refresh

theorem Memories.Sound.next {m : Memories} (h : m.Sound) (step : MemoryStep) :
    (m.next step).Sound := by
  cases step with
  | note rolloutIds now =>
      rw [Memories.next]
      split
      · exact ⟨h.stored.note rolloutIds now, h.copies⟩
      · exact h
  | load refresh => exact h.setCopy h.stored refresh
  | prune refresh allowed =>
      exact h.setCopy ((h.copies refresh).sublist List.filter_sublist) refresh
  | upsert refresh found =>
      exact h.setCopy ((h.copies refresh).upsert found) refresh
  | save refresh => exact ⟨(h.copies refresh).merge h.stored, h.copies⟩

theorem sound_start {persisted : Option (List Stage1Output)}
    (h : Sound (persisted.getD [])) :
    (Memories.start persisted).Sound :=
  ⟨h, fun _ => sound_nil⟩

theorem Written.sound {persisted : Option (List Stage1Output)}
    (h : Written persisted) :
    Sound (persisted.getD []) := by
  induction h with
  | absent => exact sound_nil
  | run _ steps ih =>
      have hlast :=
        after_induction (P := Memories.Sound) (fun _ step hm => hm.next step)
          (sound_start ih) steps
      exact hlast.stored

/-- The session has an output with a count in the file, and no copy has a
greater one. -/
structure Counted (sessionId : Uuid) (count : ℕ) (m : Memories) : Prop where
  stored : ∃ output ∈ m.stored, output.sessionId = sessionId ∧
    output.usageCount = count
  copies : ∀ refresh, ∀ output ∈ m.copies refresh,
    output.sessionId = sessionId →
    output.usageCount ≤ count

/-- A step notes the use of a session. -/
def MemoryStep.names (sessionId : Uuid) : MemoryStep → Bool
  | .note rolloutIds _ => sessionId ∈ rolloutIds
  | _ => false

/-- How often the use of a session is noted. -/
def notes (sessionId : Uuid) (steps : List MemoryStep) : ℕ :=
  steps.countP (MemoryStep.names sessionId)

/-- The file has an output of a session. -/
def Keeps (sessionId : Uuid) (m : Memories) : Prop :=
  ∃ output ∈ m.stored, output.sessionId = sessionId

instance (sessionId : Uuid) : DecidablePred (Keeps sessionId) := fun m =>
  inferInstanceAs (Decidable (∃ output ∈ m.stored,
    output.sessionId = sessionId))

section Step

variable {m : Memories} {sessionId : Uuid} {count : ℕ}

theorem Counted.setCopy (h : Counted sessionId count m)
    {copy : List Stage1Output}
    (hcopy : ∀ output ∈ copy, output.sessionId = sessionId →
      output.usageCount ≤ count)
    (refresh : ℕ) : Counted sessionId count (m.setCopy refresh copy) where
  stored := h.stored
  copies := forall_copies_setCopy
    (P := fun copy => ∀ output ∈ copy, output.sessionId = sessionId →
      output.usageCount ≤ count)
    h.copies hcopy refresh

def countAfter (sessionId : Uuid) (count : ℕ) (step : MemoryStep) : ℕ :=
  if step.names sessionId then satAdd count 1 else count

theorem le_countAfter (hcount : count ≤ u64Max) (step : MemoryStep) :
    count ≤ countAfter sessionId count step := by
  rw [countAfter]
  split
  · exact le_min (Nat.le_succ count) hcount
  · exact le_refl count

theorem Counted.next_note (h : Counted sessionId count m)
    (hcount : count ≤ u64Max)
    (rolloutIds : List Uuid) (now : DateTime) :
    Counted sessionId (countAfter sessionId count (.note rolloutIds now))
      (m.next (.note rolloutIds now)) := by
  obtain ⟨output, hmem, hsession, husage⟩ := h.stored
  have hcopies : ∀ refresh, ∀ other ∈ m.copies refresh,
      other.sessionId = sessionId →
      other.usageCount ≤ countAfter sessionId count (.note rolloutIds now) :=
    fun refresh other hother hsame =>
      (h.copies refresh other hother hsame).trans (le_countAfter hcount _)
  by_cases hnamed : sessionId ∈ rolloutIds
  · have hany : m.stored.any (·.sessionId ∈ rolloutIds) = true := by
      refine List.any_eq_true.2 ⟨output, hmem, ?_⟩
      rw [hsession]
      exact decide_eq_true hnamed
    rw [Memories.next, if_pos hany]
    refine ⟨⟨noteOutput rolloutIds now output, List.mem_map_of_mem hmem,
      ?_, ?_⟩, hcopies⟩
    · rw [noteOutput, if_pos (hsession ▸ hnamed)]
      exact hsession
    · rw [noteOutput, if_pos (hsession ▸ hnamed), countAfter, MemoryStep.names,
        if_pos (decide_eq_true hnamed), ← husage]
  · have hsame : noteOutput rolloutIds now output = output := by
      rw [noteOutput, if_neg (hsession ▸ hnamed)]
    have hcountAfter :
        countAfter sessionId count (.note rolloutIds now) = count := by
      rw [countAfter, MemoryStep.names, if_neg (by simpa using hnamed)]
    rw [Memories.next]
    split
    · refine ⟨⟨output, ?_, hsession, husage.trans hcountAfter.symm⟩, hcopies⟩
      exact List.mem_map.2 ⟨output, hmem, hsame⟩
    · exact ⟨⟨output, hmem, hsession, husage.trans hcountAfter.symm⟩, hcopies⟩

/-- An output that a refresh finds takes the count of the one it replaces, or
none. -/
theorem Counted.next_upsert (h : Counted sessionId count m) (refresh : ℕ)
    (found : Stage1Output) :
    Counted sessionId count (m.next (.upsert refresh found)) := by
  refine h.setCopy (fun other hother hsame => ?_) refresh
  obtain ⟨pushed, hpushed, heq, hpushedUsage⟩ :=
    exists_upsert (m.copies refresh) found.unused
  rw [heq] at hother
  rcases List.mem_append.1 hother with hold | hnew
  · exact h.copies refresh other (List.mem_of_mem_filter hold) hsame
  · rw [List.mem_singleton.1 hnew] at hsame ⊢
    rcases hpushedUsage with hzero | ⟨existing, hexisting, hold, hsameUsage⟩
    · rw [hzero]
      exact Nat.zero_le _
    · rw [hsameUsage]
      exact h.copies refresh existing hexisting
        (hold.trans (hpushed.symm.trans hsame))

/-- A copy is saved with the greater one of its count and the count in the
file. -/
theorem Counted.next_save (h : Counted sessionId count m)
    (hsound : m.Sound) {refresh : ℕ}
    (hkeeps : Keeps sessionId (m.next (.save refresh))) :
    Counted sessionId count (m.next (.save refresh)) := by
  obtain ⟨output, hmem, hsession, husage⟩ := h.stored
  obtain ⟨f, hstored, hf⟩ := exists_merge m.persisted (m.copies refresh)
  change (m.next (.save refresh)).stored = (m.copies refresh).map f at hstored
  obtain ⟨saved, hsaved, hsavedSession⟩ := hkeeps
  rw [hstored] at hsaved
  obtain ⟨copy, hcopy, rfl⟩ := List.mem_map.1 hsaved
  obtain ⟨hfsession, hfusage⟩ := hf copy
  have hcopySession : copy.sessionId = sessionId :=
    hfsession.symm.trans hsavedSession
  have hle := h.copies refresh copy hcopy hcopySession
  refine ⟨⟨f copy, hstored ▸ List.mem_map_of_mem hcopy, hsavedSession, ?_⟩,
    h.copies⟩
  rcases hfusage with ⟨-, hnone⟩ | ⟨existing, hexisting, hsame, hmax⟩
  · exact absurd (hsession.trans hcopySession.symm) (hnone output hmem)
  · have hone := hsound.stored.eq_of_sessionId hexisting hmem
      (hsame.trans (hcopySession.trans hsession.symm))
    rw [hmax, hone, husage, max_eq_right hle]

/-- A step that leaves an output of the session in the file counts a note and
nothing else. -/
theorem Counted.next (h : Counted sessionId count m) (hsound : m.Sound)
    (hcount : count ≤ u64Max)
    {step : MemoryStep} (hkeeps : Keeps sessionId (m.next step)) :
    Counted sessionId (countAfter sessionId count step) (m.next step) := by
  cases step with
  | note rolloutIds now => exact h.next_note hcount rolloutIds now
  | load refresh =>
      obtain ⟨output, hmem, hsession, husage⟩ := h.stored
      refine h.setCopy (fun other hother hsame => ?_) refresh
      rw [hsound.stored.eq_of_sessionId hother hmem (hsame.trans hsession.symm),
        husage]
  | prune refresh allowed =>
      refine h.setCopy (fun other hother hsame => ?_) refresh
      exact h.copies refresh other (List.mem_of_mem_filter hother) hsame
  | upsert refresh found => exact h.next_upsert refresh found
  | save refresh => exact h.next_save hsound hkeeps

theorem countAfter_le_max (h : count ≤ u64Max) (step : MemoryStep) :
    countAfter sessionId count step ≤ u64Max := by
  rw [countAfter]
  split
  · exact satAdd_le_max count 1
  · exact h

theorem satAdd_countAfter (step : MemoryStep) (steps : List MemoryStep) :
    satAdd (countAfter sessionId count step) (notes sessionId steps) =
      satAdd count (notes sessionId (step :: steps)) := by
  rw [countAfter, notes, notes, List.countP_cons, satAdd, satAdd]
  split
  · rw [satAdd]
    omega
  · rw [Nat.add_zero, satAdd]

end Step

/-! ## Runs -/

/-- The count of a session in the file. -/
def usageOf (m : Memories) (sessionId : Uuid) : Option ℕ :=
  (m.stored.find? (·.sessionId = sessionId)).map (·.usageCount)

theorem usageOf_eq {m : Memories} {sessionId : Uuid} {count : ℕ}
    (hsound : m.Sound)
    (h : Counted sessionId count m) : usageOf m sessionId = some count := by
  obtain ⟨output, hmem, hsession, rfl⟩ := h.stored
  rw [usageOf]
  cases hfind : m.stored.find? (·.sessionId = sessionId) with
  | none =>
      have hnone := List.find?_eq_none.1 hfind output hmem
      exact absurd (decide_eq_true hsession) hnone
  | some other =>
      obtain ⟨hotherMem, hother⟩ := of_find_sessionId hfind
      have hone :=
        hsound.stored.eq_of_sessionId hotherMem hmem
          (hother.trans hsession.symm)
      rw [hone, Option.map_some]

/-- The use of a session is counted in every run that keeps its output in the
file. -/
theorem counted_after {m : Memories} {sessionId : Uuid} {count : ℕ}
    {steps : List MemoryStep}
    (hsound : m.Sound) (hcount : count ≤ u64Max) (h : Counted sessionId count m)
    (hkeeps : Throughout Memories.next (Keeps sessionId) m steps) :
    (CodeRs.after Memories.next m steps).Sound ∧
      Counted sessionId (satAdd count (notes sessionId steps))
        (CodeRs.after Memories.next m steps) := by
  induction steps generalizing m count with
  | nil => exact ⟨hsound, (satAdd_zero_of_le hcount).symm ▸ h⟩
  | cons step rest ih =>
      have hnext := h.next hsound hcount hkeeps.2.head
      have hlast :=
        ih (hsound.next step) (countAfter_le_max hcount step) hnext hkeeps.2
      rw [satAdd_countAfter] at hlast
      exact hlast

/-- No use of a session is lost: its count never falls, and in the end it is
what it was at first and one more for every note. -/
structure NoUsageLost (sessionId : Uuid) (count : ℕ) (m : Memories)
    (steps : List MemoryStep) :
    Prop where
  grows : ∀ before step later, steps = before ++ step :: later →
    ∃ n n', usageOf (CodeRs.after Memories.next m before) sessionId = some n ∧
      usageOf (CodeRs.after Memories.next m (before ++ [step])) sessionId =
        some n' ∧ n ≤ n'
  ends : usageOf (CodeRs.after Memories.next m steps) sessionId =
    some (min (count + notes sessionId steps) u64Max)

/-- Whatever the order of the notes and of the steps of all refreshes. -/
theorem noUsageLost_of_keeps {persisted : Option (List Stage1Output)}
    (hwritten : Written persisted)
    (steps : List MemoryStep) (sessionId : Uuid) (count : ℕ)
    (hcount : usageOf (.start persisted) sessionId = some count)
    (hkeeps : Throughout Memories.next (Keeps sessionId)
      (.start persisted) steps) :
    NoUsageLost sessionId count (.start persisted) steps := by
  have hsound := sound_start hwritten.sound
  obtain ⟨output, hfind, husage⟩ := Option.map_eq_some_iff.1 hcount
  obtain ⟨hmem, hsession⟩ := of_find_sessionId hfind
  have hmax : count ≤ u64Max := husage ▸ hsound.stored.bounded output hmem
  have hcounted : Counted sessionId count (.start persisted) := by
    refine ⟨⟨output, hmem, hsession, husage⟩, fun refresh other hother => ?_⟩
    cases hother
  refine ⟨?_, ?_⟩
  · intro before step later hsteps
    have hsplit : steps = (before ++ [step]) ++ later := by
      rw [hsteps, List.append_assoc, List.singleton_append]
    rw [hsplit] at hkeeps
    obtain ⟨hbefore, hcountedBefore⟩ :=
      counted_after hsound hmax hcounted hkeeps.take.take
    obtain ⟨hthen, hcountedThen⟩ :=
      counted_after hsound hmax hcounted hkeeps.take
    refine ⟨_, _, usageOf_eq hbefore hcountedBefore,
      usageOf_eq hthen hcountedThen, ?_⟩
    rw [notes, notes, List.countP_append]
    exact min_le_min_right u64Max
      (Nat.add_le_add_left (Nat.le_add_right _ _) count)
  · obtain ⟨hlast, hends⟩ := counted_after hsound hmax hcounted hkeeps
    exact usageOf_eq hlast hends

/-! ### One session -/

def someOutput : Stage1Output := ⟨1, [], [], none, 0, 0, [], [], none, 0, none⟩

/-- A process that finds session 1 and stores it. -/
def firstProcess : List MemoryStep :=
  refreshMemories 0 (fun _ => true) [someOutput]

def firstFile : Option (List Stage1Output) :=
  (CodeRs.after Memories.next (.start none) firstProcess).persisted

theorem written_firstFile : Written firstFile := .run .absent firstProcess

/-- Notes between the steps of two refreshes. -/
def overlapping : List MemoryStep :=
  [.load 0, .note [1] 1, .load 1, .save 0, .note [1, 2] 2, .upsert 0 someOutput,
    .save 1, .save 0,
    .save 1]

theorem noUsageLost_overlapping :
    NoUsageLost 1 0 (.start firstFile) overlapping :=
  noUsageLost_of_keeps written_firstFile overlapping 1 0 (by decide) (by decide)

theorem keeps_note {m : Memories} {sessionId : Uuid} (h : Keeps sessionId m)
    (rolloutIds : List Uuid) (now : DateTime) :
    Keeps sessionId (m.next (.note rolloutIds now)) := by
  obtain ⟨output, hmem, hsession⟩ := h
  rw [Memories.next]
  split
  · refine ⟨noteOutput rolloutIds now output, List.mem_map_of_mem hmem, ?_⟩
    rw [noteOutput]
    split
    · exact hsession
    · exact hsession
  · exact ⟨output, hmem, hsession⟩

theorem throughout_keeps_notes {m : Memories} {sessionId : Uuid}
    (h : Keeps sessionId m)
    (rolloutIds : List Uuid) (now : DateTime) (k : ℕ) :
    Throughout Memories.next (Keeps sessionId) m
      (List.replicate k (.note rolloutIds now)) := by
  induction k generalizing m with
  | zero => exact h
  | succ k ih => exact ⟨h, ih (keeps_note h rolloutIds now)⟩

/-- The count stops at the largest one. -/
theorem not_usageOf_eq_add_notes :
    ¬ ∀ (persisted : Option (List Stage1Output)) (steps : List MemoryStep)
      (sessionId : Uuid)
        (count : ℕ), Written persisted →
        usageOf (.start persisted) sessionId = some count →
      Throughout Memories.next (Keeps sessionId) (.start persisted) steps →
        usageOf (CodeRs.after Memories.next (.start persisted) steps)
          sessionId =
          some (count + notes sessionId steps) := by
  intro h
  have hkeeps : Throughout Memories.next (Keeps 1) (.start firstFile)
      (List.replicate (u64Max + 1) (.note [1] 0)) :=
    throughout_keeps_notes (by decide) [1] 0 _
  have hcounted : Counted 1 0 (.start firstFile) := by
    refine ⟨by decide, fun refresh other hother => ?_⟩
    cases hother
  have hnotes :
      notes 1 (List.replicate (u64Max + 1) (.note [1] 0)) = u64Max + 1 := by
    rw [notes, List.countP_replicate]
    exact if_pos rfl
  obtain ⟨hsound, hends⟩ := counted_after (sound_start written_firstFile.sound)
    (Nat.zero_le u64Max) hcounted hkeeps
  have hexact := h firstFile _ 1 0 written_firstFile (by decide) hkeeps
  rw [usageOf_eq hsound hends, hnotes, satAdd, Nat.zero_add] at hexact
  have hle := min_le_right (u64Max + 1) u64Max
  rw [Option.some.inj hexact] at hle
  exact absurd hle (Nat.not_succ_le_self u64Max)

end CodeRs.Memory
