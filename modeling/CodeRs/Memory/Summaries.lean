import CodeRs.AccountUsage.Data
import CodeRs.Lib.Calendar
import CodeRs.Lib.PartialMap
import CodeRs.Rollout.Archive

/-!
# Stage-1 outputs and their summaries

What the first stage of `core/src/memories` extracts from a session, and the
files that `storage.rs` writes for it.  A time has no leap seconds, and a path
is its text.
-/

namespace CodeRs.Memory

open AccountUsage (DateTime seconds)
open Calendar (civil dateText stampText)
open Rollout (Uuid hyphenated uuidGroup)
open Text (padded)

structure Stage1Output where
  sessionId : Uuid
  rolloutPath : Text
  cwd : Text
  gitBranch : Option Text
  sourceUpdatedAt : DateTime
  generatedAt : DateTime
  rawMemory : Text
  rolloutSummary : Text
  rolloutSlug : Option Text
  usageCount : ℕ
  lastUsage : Option DateTime
  deriving DecidableEq

structure Stage1OutputRef where
  sessionId : Uuid
  sourceUpdatedAt : DateTime
  rolloutSlug : Option Text
  deriving DecidableEq

/-- `Stage1OutputRef::from`. -/
def Stage1Output.ref (output : Stage1Output) : Stage1OutputRef :=
  ⟨output.sessionId, output.sourceUpdatedAt, output.rolloutSlug⟩

/-- Different sessions have different references. -/
theorem sessionId_eq_of_ref_eq {a b : Stage1Output} (h : a.ref = b.ref) :
    a.sessionId = b.sessionId :=
  congrArg Stage1OutputRef.sessionId h

/-! ## Names of files -/

def secondOf (time : DateTime) : ℤ := time / seconds 1

/-- The first four digits of a session id. -/
def shortId (sessionId : Uuid) : Text := (uuidGroup 32 0 sessionId).take 4

/-- `trim_matches`, of one character. -/
def trimMatches (c : Char) (t : Text) : Text :=
  ((t.dropWhile (· = c)).reverse.dropWhile (· = c)).reverse

/-- What a file name has of a slug. -/
def slugText (slug : Text) : Text :=
  trimMatches '_' ((slug.take 60).map fun ch => if ch.isAlphanum then
    ch.toLower else '_')

def rolloutSummaryFileStemParts (sessionId : Uuid) (sourceUpdatedAt : DateTime)
    (rolloutSlug : Option Text) : Text :=
  let front := stampText (secondOf sourceUpdatedAt) ++ '-' :: shortId sessionId
  match rolloutSlug with
  | none => front
  | some slug =>
      let slug := slugText slug
      if slug = [] then front else front ++ '-' :: slug

def rolloutSummaryFileStem (memory : Stage1Output) : Text :=
  rolloutSummaryFileStemParts memory.sessionId memory.sourceUpdatedAt
    memory.rolloutSlug

example : rolloutSummaryFileStemParts 0 (seconds 1772928000)
    (some "My Summary!".toList) =
    "2026-03-08T00-00-00-0000-my_summary".toList := by decide +kernel

/-! ## Texts -/

/-- `to_rfc3339`, with as many digits of the second as are needed. -/
def toRfc3339 (time : DateTime) : Text :=
  let second := (secondOf time % 86400).toNat
  let nanos := (time % seconds 1).toNat
  let fraction :=
    if nanos = 0 then []
    else if nanos % 1000000 = 0 then '.' :: padded 3 (nanos / 1000000)
    else if nanos % 1000 = 0 then '.' :: padded 6 (nanos / 1000)
    else '.' :: padded 9 nanos
  dateText (civil (secondOf time / 86400)) ++ 'T' :: padded 2 (second / 3600) ++
    ':' :: padded 2 (second / 60 % 60) ++
    ':' :: padded 2 (second % 60) ++ fraction ++
    "+00:00".toList

/-- A line of a file. -/
def writeln (label : String) (value : Text) : Text :=
  label.toList ++ value ++ ['\n']

end CodeRs.Memory

/-! ## The directory of summaries

`sync_rollout_summaries` of `core/src/memories/storage.rs` removes the
summaries that are not kept and writes one file for every output.  The name of
a file has the second of the session, four digits of its id and a part of its
slug.  Where these agree, two outputs have one file. -/

namespace CodeRs.Memory

open Calendar (stampText stampText_append_inj)
open Rollout (Uuid hyphenated uuidGroup)

/-! ## Writing the summaries -/

/-- What a file name ends in. -/
def summaryExtension : Text := ".md".toList

/-- The name of the file of an output. -/
def summaryFile (memory : Stage1Output) : Text :=
  rolloutSummaryFileStem memory ++ summaryExtension

/-- The text that `write_rollout_summary` writes. -/
def rolloutSummaryText (memory : Stage1Output) : Text :=
  writeln "session_id: " (hyphenated memory.sessionId) ++
    writeln "updated_at: " (toRfc3339 memory.sourceUpdatedAt) ++
    writeln "rollout_path: " memory.rolloutPath ++
    writeln "cwd: " memory.cwd ++
    (memory.gitBranch.map (writeln "git_branch: ")).getD [] ++
    writeln "" [] ++ memory.rolloutSummary.trim ++ ['\n']

/-- The summaries by file name, and the consolidated memory. -/
structure MemoryRoot where
  summaries : PartialMap Text Text
  memoryMd : Option Text

def stripSuffix (ending name : Text) : Option Text :=
  if ending.isSuffixOf name then some (name.take (name.length - ending.length))
    else none

/-- `prune_rollout_summaries`, with the files that can be removed.  That one
cannot be is ignored. -/
def pruneRolloutSummaries (removable : Text → Bool) (keep : List Text)
    (summaries : PartialMap Text Text) : PartialMap Text Text := fun fileName =>
  match stripSuffix summaryExtension fileName with
  | none => summaries fileName
  | some stem =>
      if stem ∉ keep ∧ removable fileName then none else summaries fileName

/-- `sync_rollout_summaries`, where reading the directory and writing
succeed. -/
def syncRolloutSummaries (removable : Text → Bool)
    (memories : List Stage1Output)
    (root : MemoryRoot) : MemoryRoot where
  summaries :=
    (pruneRolloutSummaries removable (memories.map rolloutSummaryFileStem)
      root.summaries).insertAll summaryFile rolloutSummaryText memories
  memoryMd := if memories.isEmpty then none else root.memoryMd

/-! ## Stems -/

/-- What a stem has of the slug of an output. -/
def slugPart (memory : Stage1Output) : Text :=
  (memory.rolloutSlug.map slugText).getD []

def slugEnd (slug : Text) : Text := if slug = [] then [] else '-' :: slug

theorem slugEnd_injective : Function.Injective slugEnd := by
  intro a b h
  rw [slugEnd, slugEnd] at h
  by_cases ha : a = []
  · by_cases hb : b = []
    · rw [ha, hb]
    · rw [if_pos ha, if_neg hb] at h
      cases h
  · by_cases hb : b = []
    · rw [if_neg ha, if_pos hb] at h
      cases h
    · rw [if_neg ha, if_neg hb] at h
      exact (List.cons.inj h).2

theorem rolloutSummaryFileStem_eq (memory : Stage1Output) :
    rolloutSummaryFileStem memory =
      stampText (secondOf memory.sourceUpdatedAt) ++
      '-' :: (shortId memory.sessionId ++ slugEnd (slugPart memory)) := by
  unfold rolloutSummaryFileStem rolloutSummaryFileStemParts slugPart
  cases memory.rolloutSlug with
  | none => simp [slugEnd]
  | some slug =>
      by_cases h : slugText slug = []
      · simp [slugEnd, h]
      · simp [slugEnd, h]

theorem length_shortId (sessionId : Uuid) : (shortId sessionId).length = 4 := by
  simp [shortId, uuidGroup]

/-- Two outputs have one file exactly if the second, the digits and the slug
agree. -/
theorem rolloutSummaryFileStem_eq_iff (a b : Stage1Output) :
    rolloutSummaryFileStem a = rolloutSummaryFileStem b ↔
      secondOf a.sourceUpdatedAt = secondOf b.sourceUpdatedAt ∧
        shortId a.sessionId = shortId b.sessionId ∧
        slugPart a = slugPart b := by
  rw [rolloutSummaryFileStem_eq, rolloutSummaryFileStem_eq]
  constructor
  · intro h
    obtain ⟨hsecond, hrest⟩ := stampText_append_inj h
    obtain ⟨hid, hslug⟩ := List.append_inj (List.cons.inj hrest).2
      ((length_shortId _).trans (length_shortId _).symm)
    exact ⟨hsecond, hid, slugEnd_injective hslug⟩
  · rintro ⟨hsecond, hid, hslug⟩
    rw [hsecond, hid, hslug]

theorem stripSuffix_append (stem : Text) :
    stripSuffix summaryExtension (stem ++ summaryExtension) = some stem := by
  have hsuffix :
      summaryExtension.isSuffixOf (stem ++ summaryExtension) = true :=
    List.isSuffixOf_iff_suffix.2 (List.suffix_append _ _)
  rw [stripSuffix, if_pos hsuffix, List.length_append, Nat.add_sub_cancel,
    List.take_left]

/-! ## One file for every output -/

/-- Every output has a file of its own with its summary, and no other summary
is there. -/
structure OneFileEach (memories : List Stage1Output)
    (summaries : PartialMap Text Text) :
    Prop where
  stems : (memories.map rolloutSummaryFileStem).Nodup
  written : ∀ memory ∈ memories,
    summaries (summaryFile memory) = some (rolloutSummaryText memory)
  others : ∀ stem, summaries (stem ++ summaryExtension) ≠ none →
    stem ∈ memories.map rolloutSummaryFileStem

/-- No two outputs agree in the second, the digits of the id and the slug. -/
def ToldApart (memories : List Stage1Output) : Prop :=
  memories.Pairwise fun a b =>
    ¬ (secondOf a.sourceUpdatedAt = secondOf b.sourceUpdatedAt ∧
      shortId a.sessionId = shortId b.sessionId ∧ slugPart a = slugPart b)

/-- Every summary that is not kept can be removed. -/
def StaleRemovable (removable : Text → Bool) (memories : List Stage1Output)
    (summaries : PartialMap Text Text) : Prop :=
  ∀ stem ∉ memories.map rolloutSummaryFileStem,
    summaries (stem ++ summaryExtension) ≠ none →
    removable (stem ++ summaryExtension) = true

theorem nodup_stems_iff (memories : List Stage1Output) :
    (memories.map rolloutSummaryFileStem).Nodup ↔ ToldApart memories := by
  rw [List.Nodup, List.pairwise_map, ToldApart]
  refine List.Pairwise.iff fun a b => ?_
  rw [Ne, rolloutSummaryFileStem_eq_iff]

theorem map_summaryFile (memories : List Stage1Output) :
    memories.map summaryFile =
      (memories.map rolloutSummaryFileStem).map (· ++ summaryExtension) := by
  rw [List.map_map]
  rfl

theorem mem_map_summaryFile {memories : List Stage1Output} {stem : Text} :
    stem ++ summaryExtension ∈ memories.map summaryFile ↔
      stem ∈ memories.map rolloutSummaryFileStem := by
  rw [map_summaryFile]
  exact List.mem_map_of_injective fun _ _ h => List.append_cancel_right h

theorem summaries_stale {removable : Text → Bool} {memories : List Stage1Output}
    {root : MemoryRoot} {stem : Text}
    (h : stem ∉ memories.map rolloutSummaryFileStem) :
    (syncRolloutSummaries removable memories root).summaries
      (stem ++ summaryExtension) =
      if removable (stem ++ summaryExtension) then none
      else root.summaries (stem ++ summaryExtension) := by
  have hfile : stem ++ summaryExtension ∉ memories.map summaryFile :=
    fun hmem => h (mem_map_summaryFile.1 hmem)
  rw [syncRolloutSummaries]
  simp only
  rw [PartialMap.insertAll_of_notMem hfile, pruneRolloutSummaries,
    stripSuffix_append]
  simp only [h, not_false_eq_true, true_and]

/-- There is one file for every output exactly if the outputs are told apart by
what their names have, and what is not kept can be removed. -/
theorem oneFileEach_syncRolloutSummaries_iff (removable : Text → Bool)
    (memories : List Stage1Output) (root : MemoryRoot) :
    OneFileEach memories
      (syncRolloutSummaries removable memories root).summaries ↔
      ToldApart memories ∧
        StaleRemovable removable memories root.summaries := by
  constructor
  · intro h
    refine ⟨(nodup_stems_iff memories).1 h.stems, ?_⟩
    intro stem hstem hold
    have hgone : (syncRolloutSummaries removable memories root).summaries
        (stem ++ summaryExtension) = none := by
      by_contra hne
      exact hstem (h.others stem hne)
    rw [summaries_stale hstem] at hgone
    by_contra hkept
    rw [if_neg hkept] at hgone
    exact hold hgone
  · rintro ⟨hapart, hstale⟩
    have hnodup := (nodup_stems_iff memories).2 hapart
    have hfiles : (memories.map summaryFile).Nodup := by
      rw [map_summaryFile]
      exact hnodup.map fun _ _ h => List.append_cancel_right h
    refine ⟨hnodup, ?_, ?_⟩
    · intro memory hmem
      exact PartialMap.insertAll_of_mem hfiles hmem _
    · intro stem hne
      by_contra hstem
      rw [summaries_stale hstem] at hne
      split at hne
      · exact hne rfl
      next hkept => exact hkept (hstale stem hstem hne)

/-- The output of a session that has been idle since a second. -/
def idleOutput (sessionId : Uuid) (second : ℤ) : Stage1Output :=
  ⟨sessionId, [], [], none, AccountUsage.seconds second, 0, [], [],
    none, 0, none⟩

/-- Two sessions with ids in the order of their times, of one second. -/
theorem not_oneFileEach_sameSecond :
    ¬ ∀ (removable : Text →
      Bool) (memories : List Stage1Output) (root : MemoryRoot),
      (∀ fileName, removable fileName = true) →
        (memories.map (·.sessionId)).Nodup →
        OneFileEach memories
          (syncRolloutSummaries removable memories root).summaries := by
  intro h
  have hone := h (fun _ => true)
    [idleOutput 0x0199f0b2c3d47a118a3b5c6d7e8f9012 1767268805,
      idleOutput 0x0199f0b2c9077b43944e0d2f6a1b3c5d 1767268805] ⟨fun _ =>
        none, none⟩
    (fun _ => rfl) (by decide)
  have hstem : rolloutSummaryFileStem
        (idleOutput 0x0199f0b2c3d47a118a3b5c6d7e8f9012 1767268805) =
      rolloutSummaryFileStem
        (idleOutput 0x0199f0b2c9077b43944e0d2f6a1b3c5d 1767268805) := by
    rw [rolloutSummaryFileStem_eq_iff]
    exact ⟨rfl, by decide +kernel, rfl⟩
  exact (List.nodup_cons.1 hone.stems).1 (List.mem_singleton.2 hstem)

end CodeRs.Memory
