import CodeRs.Lib.Ranking
import CodeRs.Memory.Summaries
import Mathlib.Data.List.Destutter
import Mathlib.Data.Prod.Lex
import Mathlib.Order.Lattice.Nat

/-!
# The selection of memories

`build_phase2_selection` of `core/src/memories/mod.rs` and the raw memories
file of `storage.rs`. The outputs that are used most are selected, and those
that were selected before are kept while they are fresh.  Both are put in the
order of their sessions, and the file takes the first of them.
-/

namespace CodeRs.Memory

open AccountUsage (DateTime days seconds)
open Ranking (place)
open Rollout (hyphenated)

/-! ## Selecting -/

namespace Stage1Output

/-- When an output was last of use. -/
def anchor (item : Stage1Output) : DateTime :=
  item.lastUsage.getD item.generatedAt

/-- What the outputs are ranked by. -/
def usageKey (item : Stage1Output) : ℕ ×ₗ DateTime ×ₗ DateTime :=
  toLex (item.usageCount, toLex (item.anchor, item.sourceUpdatedAt))

/-- The output that is used most first. -/
def UsedMore (a b : Stage1Output) : Prop := b.usageKey ≤ a.usageKey

/-- The newest session first. -/
def Newer (a b : Stage1Output) : Prop := b.sourceUpdatedAt ≤ a.sourceUpdatedAt

instance : DecidableRel UsedMore := fun a b =>
  inferInstanceAs (Decidable (b.usageKey ≤ a.usageKey))

instance : DecidableRel Newer := fun a b =>
  inferInstanceAs (Decidable (b.sourceUpdatedAt ≤ a.sourceUpdatedAt))

instance : Std.Total UsedMore := ⟨fun a b => le_total b.usageKey a.usageKey⟩

instance : IsTrans Stage1Output UsedMore :=
  ⟨fun _ _ _ hab hbc => le_trans hbc hab⟩

instance : Std.Total Newer :=
  ⟨fun a b => le_total b.sourceUpdatedAt a.sourceUpdatedAt⟩

instance : IsTrans Stage1Output Newer := ⟨fun _ _ _ hab hbc => le_trans hbc hab⟩

/-- The test of `dedup_by`. -/
def Repeats (a b : Stage1Output) : Prop :=
  b.sessionId = a.sessionId ∧ a.sourceUpdatedAt = b.sourceUpdatedAt

instance : DecidableRel Repeats := fun a b =>
  inferInstanceAs (Decidable (b.sessionId = a.sessionId ∧
    a.sourceUpdatedAt = b.sourceUpdatedAt))

end Stage1Output

open Stage1Output (UsedMore Newer Repeats)

/-- The outputs that were of use lately.  The clock is read for each of them,
and `MemoriesConfig` keeps the number of days below 366. -/
def retainFresh (maxUnusedDays : ℤ) (now : ℕ → DateTime) :
    List Stage1Output → List Stage1Output
  | [] => []
  | item :: rest =>
      let kept := retainFresh maxUnusedDays (fun i => now (i + 1)) rest
      if now 0 - item.anchor ≤ days (max maxUnusedDays 0) then
        item :: kept else kept

structure Phase2Selection where
  selected : List Stage1Output
  retainedArtifacts : List Stage1Output
  removed : List Stage1OutputRef
  deriving DecidableEq

def buildPhase2Selection (now : ℕ → DateTime) (outputs : List Stage1Output)
    (maxRawMemories : ℕ) (maxUnusedDays : ℤ)
    (previousSelection : List Stage1OutputRef) :
    Phase2Selection :=
  let sorted := (retainFresh maxUnusedDays now outputs).insertionSort UsedMore
  let selected := sorted.take maxRawMemories
  let selectedRefs := selected.map Stage1Output.ref
  let retainedArtifacts := selected ++
    sorted.filter fun output =>
      output.ref ∈ previousSelection ∧ output.ref ∉ selectedRefs
  { selected := selected
    retainedArtifacts :=
      (retainedArtifacts.insertionSort Newer).destutter fun b a => ¬ Repeats a b
    removed := previousSelection.filter fun item => item ∉ selectedRefs }

/-! ## The raw memories file -/

/-- The outputs that `rebuild_raw_memories_file` writes. -/
def rawMemories (memories : List Stage1Output) (maxRawMemories : ℕ) :
    List Stage1Output :=
  memories.take (min memories.length maxRawMemories)

/-- What is written for an output. -/
def rawMemorySection (memory : Stage1Output) : Text :=
  writeln "## Session `" (hyphenated memory.sessionId ++ "`".toList) ++
    writeln "updated_at: " (toRfc3339 memory.sourceUpdatedAt) ++
    writeln "cwd: " memory.cwd ++
    writeln "rollout_path: " memory.rolloutPath ++
    writeln "rollout_summary_file: " (rolloutSummaryFileStem memory ++
      ".md".toList) ++
    writeln "" [] ++ memory.rawMemory.trim ++ "\n\n".toList

/-- The text that `rebuild_raw_memories_file` writes. -/
def rawMemoriesFile (memories : List Stage1Output)
    (maxRawMemories : ℕ) : Text :=
  let retained := rawMemories memories maxRawMemories
  "# Raw Memories\n\n".toList ++
    if retained.isEmpty then "No raw memories yet.\n".toList
    else "Merged stage-1 raw memories (latest first):\n\n".toList ++
      retained.flatMap rawMemorySection

theorem sections_split {α : Type*} (title order instead : Text)
    (text : α → Text)
    (front back : List α) (a : α) :
    (title ++ if (front ++ a :: back).isEmpty then instead
      else order ++ (front ++ a :: back).flatMap text) =
      title ++ (order ++ front.flatMap text) ++ text a ++
        back.flatMap text := by
  rw [if_neg (by simp), List.flatMap_append, List.flatMap_cons]
  simp only [List.append_assoc]

theorem rawMemoriesFile_holds {memories : List Stage1Output}
    {maxRawMemories : ℕ}
    {memory : Stage1Output} (h : memory ∈ rawMemories memories maxRawMemories) :
    ∃ before later : Text, rawMemoriesFile memories maxRawMemories =
      before ++ rawMemorySection memory ++ later := by
  obtain ⟨front, back, hsplit⟩ := List.append_of_mem h
  have hsections := sections_split "# Raw Memories\n\n".toList
    "Merged stage-1 raw memories (latest first):\n\n".toList
    "No raw memories yet.\n".toList
    rawMemorySection front back memory
  rw [← hsplit] at hsections
  exact ⟨_, _, hsections⟩

/-! ## What is selected and what is kept -/

theorem retainFresh_sublist (maxUnusedDays : ℤ) (now : ℕ → DateTime)
    (outputs : List Stage1Output) :
    (retainFresh maxUnusedDays now outputs).Sublist outputs := by
  induction outputs generalizing now with
  | nil => exact List.Sublist.refl []
  | cons item rest ih =>
      rw [retainFresh]
      split
      · exact (ih _).cons_cons item
      · exact (ih _).cons item

section Sorted

variable {sorted : List Stage1Output} {n : ℕ} {previous : List Stage1OutputRef}

/-- The selected outputs and those that are kept with them. -/
def keptWith (sorted : List Stage1Output) (n : ℕ)
    (previous : List Stage1OutputRef) :
    List Stage1Output :=
  sorted.take n ++ (sorted.drop n).filter fun output => output.ref ∈ previous

theorem keptWith_sublist : (keptWith sorted n previous).Sublist sorted := by
  have h :
      (keptWith sorted n previous).Sublist (sorted.take n ++ sorted.drop n) :=
    (List.Sublist.refl _).append List.filter_sublist
  rwa [List.take_append_drop] at h

/-- Of the outputs behind the selected ones none is selected. -/
theorem filter_left_out (hdistinct : (sorted.map (·.sessionId)).Nodup) :
    (sorted.filter fun output => output.ref ∈ previous ∧
        output.ref ∉ (sorted.take n).map Stage1Output.ref) =
      (sorted.drop n).filter fun output => output.ref ∈ previous := by
  have hrefs : ∀ output ∈ sorted.drop n,
      output.ref ∉ (sorted.take n).map Stage1Output.ref := by
    intro output hdrop hmem
    obtain ⟨other, htake, href⟩ := List.mem_map.1 hmem
    rw [← List.take_append_drop n sorted, List.map_append] at hdistinct
    exact (List.nodup_append.1 hdistinct).2.2 other.sessionId
      (List.mem_map_of_mem htake)
      output.sessionId (List.mem_map_of_mem hdrop) (sessionId_eq_of_ref_eq href)
  have htake : (sorted.take n).filter (fun output => output.ref ∈ previous ∧
      output.ref ∉ (sorted.take n).map Stage1Output.ref) = [] := by
    refine List.filter_eq_nil_iff.2 fun output hmem => ?_
    simp only [decide_eq_true_eq, not_and, not_not]
    exact fun _ => List.mem_map_of_mem hmem
  calc sorted.filter (fun output => output.ref ∈ previous ∧
        output.ref ∉ (sorted.take n).map Stage1Output.ref)
      =
      (sorted.take n ++ sorted.drop n).filter
        (fun output => output.ref ∈ previous ∧
          output.ref ∉ (sorted.take n).map Stage1Output.ref) := by
        rw [List.take_append_drop]
    _ = (sorted.drop n).filter fun output => output.ref ∈ previous := by
        rw [List.filter_append, htake, List.nil_append]
        refine List.filter_congr fun output hmem => ?_
        rw [decide_eq_decide]
        exact and_iff_left (hrefs output hmem)

theorem destutter_sorted (hdistinct : (sorted.map (·.sessionId)).Nodup) :
    ((keptWith sorted n previous).insertionSort Newer).destutter
      (fun b a => ¬ Repeats a b) =
      (keptWith sorted n previous).insertionSort Newer := by
  have hkept : ((keptWith sorted n previous).map (·.sessionId)).Nodup :=
    hdistinct.sublist (keptWith_sublist.map _)
  have hperm :=
    (List.perm_insertionSort Newer (keptWith sorted n previous)).map
      (·.sessionId)
  have hchain : ((keptWith sorted n previous).insertionSort Newer).Pairwise
      fun b a => ¬ Repeats a b := by
    refine (List.pairwise_map.1 (hperm.nodup_iff.2 hkept)).imp
      fun hne hrepeats => ?_
    exact hne hrepeats.1
  exact List.destutter_of_isChain _ _ hchain.isChain

/-- The file has every selected output if no output that is kept with them is
newer. -/
theorem forall_mem_rawMemories_iff (hnodup : sorted.Nodup) (n : ℕ)
    (previous : List Stage1OutputRef) :
    (∀ output ∈ sorted.take n,
        output ∈
          rawMemories ((keptWith sorted n previous).insertionSort Newer) n) ↔
      ∀ a ∈ sorted.take n, ∀ b ∈ sorted.drop n, b.ref ∈ previous →
        Newer a b := by
  have hkept : (keptWith sorted n previous).Nodup :=
    hnodup.sublist keptWith_sublist
  have hiff :=
    Ranking.forall_mem_take_insertionSort_append_iff (r := Newer) hkept
  have hfile : ∀ output ∈ sorted.take n,
      (output ∈
        rawMemories ((keptWith sorted n previous).insertionSort Newer) n ↔
        output ∈ ((keptWith sorted n previous).insertionSort Newer).take
          (sorted.take n).length) := by
    intro output hmem
    have hraw :
        rawMemories ((keptWith sorted n previous).insertionSort Newer) n =
        ((keptWith sorted n previous).insertionSort Newer).take n := by
      rw [rawMemories, Nat.min_comm]
      exact List.take_eq_take_min.symm
    rw [hraw]
    by_cases hn : n ≤ sorted.length
    · rw [List.length_take, Nat.min_eq_left hn]
    · have hall : keptWith sorted n previous = sorted.take n := by
        rw [keptWith, List.drop_of_length_le (Nat.le_of_not_le hn)]
        exact List.append_nil _
      have hlength : ((sorted.take n).insertionSort Newer).length =
          (sorted.take n).length :=
        List.length_insertionSort _ _
      rw [hall, List.take_of_length_le hlength.le, List.take_of_length_le]
      rw [hlength]
      exact List.length_take_le n sorted
  rw [forall₂_congr hfile]
  refine hiff.trans ?_
  simp only [List.mem_filter, decide_eq_true_eq, and_imp]

end Sorted

/-! ## The selection -/

section Selection

variable {now : ℕ → DateTime} {outputs : List Stage1Output} {maxRawMemories : ℕ}
  {maxUnusedDays : ℤ} {previous : List Stage1OutputRef}

theorem distinct_sorted (h : (outputs.map (·.sessionId)).Nodup) :
    (((retainFresh maxUnusedDays now outputs).insertionSort UsedMore).map
      (·.sessionId)).Nodup := by
  have hperm :=
    List.perm_insertionSort UsedMore (retainFresh maxUnusedDays now outputs)
  rw [(hperm.map (·.sessionId)).nodup_iff]
  exact h.sublist ((retainFresh_sublist maxUnusedDays now outputs).map _)

theorem retainedArtifacts_eq (h : (outputs.map (·.sessionId)).Nodup) :
    (buildPhase2Selection now outputs maxRawMemories maxUnusedDays
      previous).retainedArtifacts =
      (keptWith ((retainFresh maxUnusedDays now outputs).insertionSort UsedMore)
        maxRawMemories
        previous).insertionSort Newer := by
  rw [buildPhase2Selection]
  simp only
  rw [filter_left_out (distinct_sorted h)]
  exact destutter_sorted (distinct_sorted h)

/-- What a selection and the file made from it are to be. -/
structure SelectionRight (now : ℕ → DateTime) (outputs : List Stage1Output)
    (maxRawMemories : ℕ) (maxUnusedDays : ℤ) (previous : List Stage1OutputRef)
    (selection : Phase2Selection) : Prop where
  written : ∀ output ∈ selection.selected,
    output ∈ rawMemories selection.retainedArtifacts maxRawMemories
  sessions : (selection.retainedArtifacts.map (·.sessionId)).Nodup
  retained : ∀ output, output ∈ selection.retainedArtifacts ↔
    output ∈ selection.selected ∨
      output ∈ retainFresh maxUnusedDays now outputs ∧ output.ref ∈ previous
  removed : selection.removed =
    previous.filter fun item => item ∉ selection.selected.map Stage1Output.ref

/-- Of the fresh outputs, none that was selected before and is ranked behind
the limit is newer than one that is ranked within it. -/
def NoneLeftOutNewer (fresh : List Stage1Output) (maxRawMemories : ℕ)
    (previous : List Stage1OutputRef) : Prop :=
  ∀ a ∈ fresh, ∀ b ∈ fresh, place UsedMore fresh a < maxRawMemories →
    maxRawMemories ≤ place UsedMore fresh b → b.ref ∈ previous →
      b.sourceUpdatedAt ≤ a.sourceUpdatedAt

theorem mem_retainedArtifacts (h : (outputs.map (·.sessionId)).Nodup)
    (output : Stage1Output) :
    output ∈ (buildPhase2Selection now outputs maxRawMemories maxUnusedDays
        previous).retainedArtifacts ↔
      output ∈ (buildPhase2Selection now outputs maxRawMemories maxUnusedDays
        previous).selected ∨
        output ∈ retainFresh maxUnusedDays now outputs ∧
          output.ref ∈ previous := by
  have hsplit : output ∈ retainFresh maxUnusedDays now outputs ↔
      output ∈
        ((retainFresh maxUnusedDays now outputs).insertionSort UsedMore).take
        maxRawMemories ∨
      output ∈
        ((retainFresh maxUnusedDays now outputs).insertionSort UsedMore).drop
        maxRawMemories := by
    rw [← List.mem_append, List.take_append_drop, List.mem_insertionSort]
  have hselected :
      (buildPhase2Selection now outputs maxRawMemories maxUnusedDays
      previous).selected =
      ((retainFresh maxUnusedDays now outputs).insertionSort UsedMore).take
        maxRawMemories := rfl
  rw [retainedArtifacts_eq h, List.mem_insertionSort, keptWith, List.mem_append,
    List.mem_filter,
    decide_eq_true_eq, hselected, hsplit]
  tauto

theorem sessions_retainedArtifacts (h : (outputs.map (·.sessionId)).Nodup) :
    ((buildPhase2Selection now outputs maxRawMemories maxUnusedDays
      previous).retainedArtifacts.map (·.sessionId)).Nodup := by
  rw [retainedArtifacts_eq h,
    ((List.perm_insertionSort Newer _).map (·.sessionId)).nodup_iff]
  exact (distinct_sorted h).sublist (keptWith_sublist.map _)

/-- The selection is right exactly if no output that is only kept is newer than
a selected one. -/
theorem selectionRight_iff (now : ℕ → DateTime) (maxRawMemories : ℕ)
    (maxUnusedDays : ℤ)
    (previous : List Stage1OutputRef) (h : (outputs.map (·.sessionId)).Nodup) :
    SelectionRight now outputs maxRawMemories maxUnusedDays previous
        (buildPhase2Selection now outputs maxRawMemories
          maxUnusedDays previous) ↔
      NoneLeftOutNewer (retainFresh maxUnusedDays now outputs) maxRawMemories
        previous := by
  have hfresh : (retainFresh maxUnusedDays now outputs).Nodup :=
    (h.of_map _).sublist (retainFresh_sublist maxUnusedDays now outputs)
  have hsorted :
      ((retainFresh maxUnusedDays now outputs).insertionSort UsedMore).Nodup :=
    (distinct_sorted h).of_map _
  have hwritten := forall_mem_rawMemories_iff hsorted maxRawMemories previous
  rw [← retainedArtifacts_eq h] at hwritten
  have hrank :
      (∀ a ∈
        ((retainFresh maxUnusedDays now outputs).insertionSort UsedMore).take
      maxRawMemories, ∀ b ∈
      ((retainFresh maxUnusedDays now outputs).insertionSort UsedMore).drop
        maxRawMemories, b.ref ∈ previous → Newer a b) ↔
      NoneLeftOutNewer (retainFresh maxUnusedDays now outputs) maxRawMemories
        previous := by
    constructor
    · intro hall a ha b hb htake hdrop
      exact hall a ((Ranking.mem_take_insertionSort_iff hfresh ha _).2 htake) b
        ((Ranking.mem_drop_insertionSort_iff hfresh hb _).2 hdrop)
    · intro hnone a htake b hdrop
      have ha :=
        (List.mem_insertionSort UsedMore).1 (List.mem_of_mem_take htake)
      have hb :=
        (List.mem_insertionSort UsedMore).1 (List.mem_of_mem_drop hdrop)
      exact hnone a ha b hb
        ((Ranking.mem_take_insertionSort_iff hfresh ha _).1 htake)
        ((Ranking.mem_drop_insertionSort_iff hfresh hb _).1 hdrop)
  constructor
  · intro hright
    exact hrank.1 (hwritten.1 hright.written)
  · intro hnone
    exact ⟨hwritten.2 (hrank.2 hnone), sessions_retainedArtifacts h,
      mem_retainedArtifacts h, rfl⟩

/-- An output of a session, with its use and its day. -/
def usedOutput (sessionId usageCount : ℕ) (day : ℤ) : Stage1Output :=
  ⟨sessionId, [], [], none, days day, days day, [], [], none, usageCount, none⟩

/-- The output that was selected before is kept behind the newer one that is
used more, and one that is gone is reported. -/
theorem selectionRight_two :
    SelectionRight (fun _ => days 20) [usedOutput 1 2 11,
      usedOutput 2 1 10] 1 30
      [(usedOutput 2 1 10).ref, (usedOutput 3 0 9).ref]
      (buildPhase2Selection (fun _ => days 20) [usedOutput 1 2 11,
        usedOutput 2 1 10] 1 30
        [(usedOutput 2 1 10).ref, (usedOutput 3 0 9).ref]) :=
  (selectionRight_iff _ 1 30 _ (by decide)).2 (by
    unfold NoneLeftOutNewer; decide)

/-- The output that was selected before is newer than the one that is used
more, and takes its place in the file. -/
theorem not_selectionRight_newer :
    ¬ ∀ (now : ℕ → DateTime) (outputs : List Stage1Output) (maxRawMemories : ℕ)
        (maxUnusedDays : ℤ) (previous : List Stage1OutputRef),
      (outputs.map (·.sessionId)).Nodup →
        SelectionRight now outputs maxRawMemories maxUnusedDays previous
          (buildPhase2Selection now outputs maxRawMemories maxUnusedDays
            previous) := by
  intro h
  have hright :=
    h (fun _ => days 20) [usedOutput 1 2 10, usedOutput 2 1 11] 1 30
      [(usedOutput 2 1 11).ref] (by decide)
  have hmem := hright.written (usedOutput 1 2 10) (by decide)
  exact absurd hmem (by decide)

end Selection

end CodeRs.Memory
