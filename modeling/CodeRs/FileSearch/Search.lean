import CodeRs.Lib.Eviction
import CodeRs.Lib.Runs
import CodeRs.Lib.Selection
import CodeRs.Lib.Text
import Mathlib.Data.Char
import Mathlib.Data.List.Lex

/-!
# The file search

`run` of `file-search/src/lib.rs`: every worker of the walk keeps its best
matches, and the best ones of all workers are merged when the walk has ended.
What matches a pattern, and how well, is decided by the matcher, and a heap is
gone through in whatever order it is laid out.
-/

namespace CodeRs.FileSearch

open Eviction (ofClass ofClass_cons_self ofClass_cons_ne flatMap_ofClass_perm)

/-- `Pattern::score` and `Pattern::indices`. -/
structure Pattern where
  score : Text → Option ℕ
  indices : Text → List ℕ

structure FileMatch where
  score : ℕ
  path : Text
  indices : Option (List ℕ)

structure FileSearchResults where
  fileMatches : List FileMatch
  totalMatchCount : ℕ

/-! ## The heap -/

/-- The order of `(u32, String)`. -/
def EntryLe (a b : ℕ × Text) : Prop := a.1 < b.1 ∨ a.1 = b.1 ∧ a.2 ≤ b.2

instance : DecidableRel EntryLe :=
  fun _ _ => inferInstanceAs (Decidable (_ ∨ _))

/-- `BinaryHeap::peek` of a heap of reversed entries: the least one. -/
def peek : List (ℕ × Text) → Option (ℕ × Text)
  | [] => none
  | entry :: rest =>
      match peek rest with
      | some least => if EntryLe entry least then some entry else some least
      | none => some entry

def pop (heap : List (ℕ × Text)) : List (ℕ × Text) :=
  match peek heap with
  | some least => heap.erase least
  | none => heap

/-- An entry is pushed while there is room, and later if it has a better score
than the least one, which it replaces. -/
def offer (limit : ℕ) (heap : List (ℕ × Text)) (entry : ℕ × Text) :
    List (ℕ × Text) :=
  if heap.length < limit then entry :: heap
  else
    match peek heap with
    | some least => if least.1 < entry.1 then entry :: pop heap else heap
    | none => heap

/-! ## The workers -/

structure BestMatchesList where
  maxCount : ℕ
  numMatches : ℕ := 0
  binaryHeap : List (ℕ × Text) := []

def BestMatchesList.insert (pattern : Pattern) (list : BestMatchesList)
    (line : Text) :
    BestMatchesList :=
  match pattern.score line with
  | some score =>
      { list with
        numMatches := list.numMatches + 1
        binaryHeap := offer list.maxCount list.binaryHeap (score, line) }
  | none => list

/-- An entry of the walk, with its path below the search directory if it has
one that is text. -/
structure DirEntry where
  isDir : Bool
  relPath : Option Text

def getFilePath : Except Unit DirEntry → Option Text
  | .error _ => none
  | .ok entry => if entry.isDir then none else entry.relPath

def checkInterval : ℕ := 1024

/-- The walk, where some workers may have quit. -/
structure Walk (n : ℕ) where
  lists : Fin n → BestMatchesList
  processed : Fin n → ℕ := fun _ => 0
  quit : Fin n → Bool := fun _ => false
  cancelFlag : Bool := false

def Walk.start (n limit : ℕ) : Walk n where
  lists := fun _ => { maxCount := limit }

inductive WalkStep (n : ℕ) where
  | visit (worker : Fin n) (entry : Except Unit DirEntry)
  | cancel

/-- A worker gets an entry, or somebody cancels the search. -/
def Walk.step {n : ℕ} (pattern : Pattern) (walk : Walk n) : WalkStep n → Walk n
  | .visit worker entry =>
      if walk.quit worker then walk
      else
        let list := walk.lists worker
        let processed := walk.processed worker + 1
        { walk with
          lists := Function.update walk.lists worker
            (((getFilePath entry).map (list.insert pattern)).getD list)
          processed := Function.update walk.processed worker processed
          quit := Function.update walk.quit worker
            (decide (processed % checkInterval = 0) && walk.cancelFlag) }
  | .cancel => { walk with cancelFlag := true }

/-! ## The results -/

/-- `cmp_by_score_desc_then_path_asc`: what is not greater. -/
def RanksBefore (a b : ℕ × Text) : Prop := b.1 < a.1 ∨ a.1 = b.1 ∧ a.2 ≤ b.2

instance : DecidableRel RanksBefore :=
  fun _ _ => inferInstanceAs (Decidable (_ ∨ _))

def sortMatches (found : List (ℕ × Text)) : List (ℕ × Text) :=
  found.insertionSort RanksBefore

/-- `Vec::dedup`. -/
def dedupRepeated : List ℕ → List ℕ
  | a :: b :: rest =>
  if a = b then dedupRepeated (b :: rest) else a :: dedupRepeated (b :: rest)
  | l => l

def toFileMatch (pattern : Pattern) (computeIndices : Bool) (entry : ℕ × Text) :
    FileMatch where
  score := entry.1
  path := entry.2
  indices :=
    if computeIndices then
      some (dedupRepeated ((pattern.indices entry.2).insertionSort (· ≤ ·)))
    else none

def mergeHeaps {n : ℕ} (order : List (ℕ × Text) → List (ℕ × Text)) (limit : ℕ)
    (walk : Walk n) :
    List (ℕ × Text) :=
  ((List.finRange n).flatMap
    fun worker => order (walk.lists worker).binaryHeap).foldl
    (offer limit) []

/-- `run`, where a pool of `threads` has a worker more. -/
def run (pattern : Pattern) (order : List (ℕ × Text) → List (ℕ × Text))
    (limit threads : ℕ)
    (computeIndices : Bool) (steps : List (WalkStep (threads + 1))) :
    FileSearchResults :=
  let walk := after (Walk.step pattern) (.start (threads + 1) limit) steps
  if walk.cancelFlag then { fileMatches := [], totalMatchCount := 0 }
  else
    { fileMatches := (sortMatches (order (mergeHeaps order limit walk))).map
        (toFileMatch pattern computeIndices)
      totalMatchCount := ((List.finRange (threads + 1)).map fun worker =>
        (walk.lists worker).numMatches).sum }

/-! ## The least entry -/

variable {pattern : Pattern} {limit : ℕ} {heap : List (ℕ × Text)}
    {entry least : ℕ × Text}

theorem entryLe_refl (a : ℕ × Text) : EntryLe a a := .inr ⟨rfl, le_rfl⟩

theorem EntryLe.score_le {a b : ℕ × Text} (h : EntryLe a b) : a.1 ≤ b.1 :=
  h.elim le_of_lt fun h => h.1.le

theorem EntryLe.trans {a b c : ℕ × Text} (h : EntryLe a b) (h' : EntryLe b c) :
    EntryLe a c := by
  rcases h with hlt | ⟨heq, hle⟩
  · exact .inl (hlt.trans_le h'.score_le)
  · rcases h' with hlt | ⟨heq', hle'⟩
    · exact .inl (heq.trans_lt hlt)
    · exact .inr ⟨heq.trans heq', hle.trans hle'⟩

theorem entryLe_of_not {a b : ℕ × Text} (h : ¬ EntryLe a b) : EntryLe b a := by
  rcases lt_trichotomy a.1 b.1 with hlt | heq | hlt
  · exact absurd (.inl hlt) h
  · refine .inr ⟨heq.symm, le_of_not_ge fun hle => h (.inr ⟨heq, hle⟩)⟩
  · exact .inl hlt

theorem peek_eq_none (h : peek heap = none) : heap = [] := by
  cases heap with
  | nil => rfl
  | cons a rest =>
      rw [peek] at h
      split at h
      · split at h <;> cases h
      · cases h

theorem peek_eq_some (h : peek heap = some least) :
    least ∈ heap ∧ ∀ other ∈ heap, EntryLe least other := by
  induction heap generalizing least with
  | nil => cases h
  | cons a rest ih =>
      rw [peek] at h
      split at h
      next b hb =>
        obtain ⟨hmem, hleast⟩ := ih hb
        split at h
        next hab =>
          obtain rfl := Option.some.inj h
          refine ⟨List.mem_cons_self,
            List.forall_mem_cons.2 ⟨entryLe_refl _, ?_⟩⟩
          exact fun other hother => hab.trans (hleast other hother)
        next hab =>
          obtain rfl := Option.some.inj h
          exact ⟨List.mem_cons_of_mem a hmem,
            List.forall_mem_cons.2 ⟨entryLe_of_not hab, hleast⟩⟩
      next hnone =>
        obtain rfl := Option.some.inj h
        obtain rfl := peek_eq_none hnone
        exact ⟨List.mem_cons_self, List.forall_mem_singleton.2 (entryLe_refl _)⟩

/-- What is offered to a heap that has the best entries leaves it with the best
ones. -/
theorem selects_offer {items : List (ℕ × Text)}
    (h : Selects Prod.fst limit items heap)
    (entry : ℕ × Text) :
    Selects Prod.fst limit (entry :: items) (offer limit heap entry) := by
  rw [offer]
  split
  next hroom => exact h.push hroom
  next hroom =>
    have hfull : heap.length = limit :=
      le_antisymm h.length_le (Nat.le_of_not_lt hroom)
    split
    next least hpeek =>
      obtain ⟨hmem, hleast⟩ := peek_eq_some hpeek
      split
      next hbetter =>
        rw [pop, hpeek]
        exact h.replace hfull (List.perm_cons_erase hmem)
          (fun other hother => (hleast other hother).score_le) hbetter.le
      next hworse =>
        refine h.skip hfull fun other hother => ?_
        exact (Nat.le_of_not_lt hworse).trans (hleast other hother).score_le
    next hpeek =>
      refine h.skip hfull fun other hother => ?_
      rw [peek_eq_none hpeek] at hother
      exact (List.not_mem_nil hother).elim

theorem selects_foldl_offer {items : List (ℕ × Text)}
    (h : Selects Prod.fst limit items heap)
    (entries : List (ℕ × Text)) :
    Selects Prod.fst limit (entries.reverse ++ items)
      (entries.foldl (offer limit) heap) := by
  induction entries generalizing items heap with
  | nil => exact h
  | cons entry rest ih =>
      rw [List.reverse_cons, List.append_assoc]
      exact ih (selects_offer h entry)

/-! ## What the workers find -/

variable {n : ℕ}

/-- What a step of the walk finds, and the worker that finds it. -/
def WalkStep.found (pattern : Pattern) :
    WalkStep n → Option (Fin n × (ℕ × Text))
  | .visit worker entry =>
      (getFilePath entry).bind fun path =>
        (pattern.score path).map fun score => (worker, (score, path))
  | .cancel => none

/-- What a walk finds. -/
def found (pattern : Pattern) (steps : List (WalkStep n)) :
    List (Fin n × (ℕ × Text)) :=
  steps.filterMap (WalkStep.found pattern)

/-- Nobody has quit, and every worker has the best of what it has found. -/
structure Searched (limit : ℕ) (walk : Walk n)
    (done : List (Fin n × (ℕ × Text))) : Prop where
  cancelFlag : walk.cancelFlag = false
  quit : ∀ worker, walk.quit worker = false
  maxCount : ∀ worker, (walk.lists worker).maxCount = limit
  best : ∀ worker,
    Selects Prod.fst limit ((ofClass Prod.fst worker done).map Prod.snd)
    (walk.lists worker).binaryHeap
  count : ∀ worker, (walk.lists worker).numMatches =
    (ofClass Prod.fst worker done).length

theorem searched_start (limit : ℕ) : Searched limit (.start n limit) [] :=
  ⟨rfl, fun _ => rfl, fun _ => rfl,
    fun _ => selects_nil Prod.fst limit, fun _ => rfl⟩

/-- An entry that matches is told to the list of its worker, any other one to
nobody. -/
theorem Searched.list {walk : Walk n} {done : List (Fin n × (ℕ × Text))}
    (h : Searched limit walk done) (pattern : Pattern) (worker : Fin n)
    (entry : Except Unit DirEntry) :
    let list := walk.lists worker
    let next := ((getFilePath entry).map (list.insert pattern)).getD list
    let found := (WalkStep.visit worker entry).found pattern
    next.maxCount = limit ∧
    Selects Prod.fst limit
      ((ofClass Prod.fst worker (found.toList ++ done)).map Prod.snd)
      next.binaryHeap ∧
    next.numMatches =
      (ofClass Prod.fst worker (found.toList ++ done)).length := by
  intro list next found
  have hsame : found = none → next = list → next.maxCount = limit ∧
      Selects Prod.fst limit
        ((ofClass Prod.fst worker (found.toList ++ done)).map Prod.snd)
        next.binaryHeap ∧
      next.numMatches =
        (ofClass Prod.fst worker (found.toList ++ done)).length := by
    intro hfound hnext
    rw [hfound, hnext]
    exact ⟨h.maxCount worker, h.best worker, h.count worker⟩
  cases hpath : getFilePath entry with
  | none =>
      refine hsame ?_ ?_
      · simp only [found, WalkStep.found, hpath, Option.bind_none]
      · simp only [next, hpath, Option.map_none, Option.getD_none]
  | some path =>
      have hnext : next = list.insert pattern path := by
        simp only [next, hpath, Option.map_some, Option.getD_some]
      cases hscore : pattern.score path with
      | none =>
          refine hsame ?_ ?_
          · simp only [found, WalkStep.found, hpath, Option.bind_some, hscore,
              Option.map_none]
          · rw [hnext, BestMatchesList.insert, hscore]
      | some score =>
          have hfound : found = some (worker, (score, path)) := by
            simp only [found, WalkStep.found, hpath, Option.bind_some, hscore,
              Option.map_some]
          have hclass :
              ofClass Prod.fst worker ((worker, (score, path)) :: done) =
              (worker, (score, path)) :: ofClass Prod.fst worker done :=
            ofClass_cons_self rfl
          rw [hfound, hnext, BestMatchesList.insert, hscore, Option.toList_some,
            List.singleton_append, hclass, List.map_cons, List.length_cons]
          refine ⟨h.maxCount worker, ?_, congrArg (· + 1) (h.count worker)⟩
          dsimp only [list]
          rw [h.maxCount worker]
          exact selects_offer (h.best worker) (score, path)

theorem Searched.visit {walk : Walk n} {done : List (Fin n × (ℕ × Text))}
    (h : Searched limit walk done) (pattern : Pattern) (worker : Fin n)
    (entry : Except Unit DirEntry) :
    Searched limit (walk.step pattern (.visit worker entry))
      (((WalkStep.visit worker entry).found pattern).toList ++ done) := by
  obtain ⟨hcount, hbest, hnum⟩ := h.list pattern worker entry
  have hother : ∀ other, other ≠ worker →
      ofClass Prod.fst other
        (((WalkStep.visit worker entry).found pattern).toList ++ done) =
        ofClass Prod.fst other done := by
    intro other hne
    cases hfound : (WalkStep.visit worker entry).found pattern with
    | none => rfl
    | some entry' =>
        refine ofClass_cons_ne fun heq => hne ?_
        rw [WalkStep.found, Option.bind_eq_some_iff] at hfound
        obtain ⟨path, -, hfound⟩ := hfound
        obtain ⟨score, -, rfl⟩ := Option.map_eq_some_iff.1 hfound
        exact heq.symm
  rw [Walk.step, if_neg (h.quit worker ▸ Bool.false_ne_true)]
  refine ⟨h.cancelFlag, fun other => ?_, fun other => ?_, fun other => ?_,
    fun other => ?_⟩
  all_goals
    by_cases heq : other = worker
    · subst heq
      dsimp only
      rw [Function.update_self]
      first
        | rw [h.cancelFlag, Bool.and_false]
        | assumption
    · dsimp only
      rw [Function.update_of_ne heq]
      first
        | exact h.quit other
        | exact h.maxCount other
        | exact hother other heq ▸ h.best other
        | exact hother other heq ▸ h.count other

theorem filterMap_cons_reverse {α β : Type} (f : α → Option β) (a : α)
    (l : List α) :
    ((a :: l).filterMap f).reverse =
      (l.filterMap f).reverse ++ (f a).toList := by
  cases h : f a <;> simp [h]

/-- Without a cancellation every worker has the best of what it has found. -/
theorem searched_after (pattern : Pattern) {steps : List (WalkStep n)}
    (hcancel : .cancel ∉ steps) (limit : ℕ) :
    Searched limit (after (Walk.step pattern) (.start n limit) steps)
      (found pattern steps).reverse := by
  have hgeneral : ∀ {walk done}, Searched limit walk done →
      Searched limit (after (Walk.step pattern) walk steps)
        ((found pattern steps).reverse ++ done) := by
    induction steps with
    | nil => exact id
    | cons a rest ih =>
        intro walk done h
        rw [List.mem_cons, not_or] at hcancel
        rcases a with ⟨worker, entry⟩ | _
        · have hrest := ih hcancel.2 (h.visit pattern worker entry)
          rw [← List.append_assoc] at hrest
          rwa [found, filterMap_cons_reverse]
        · exact absurd rfl hcancel.1
  simpa using hgeneral (searched_start limit)

theorem cancelFlag_after {steps : List (WalkStep n)} (hcancel : .cancel ∈ steps)
    (walk : Walk n) :
    (after (Walk.step pattern) walk steps).cancelFlag = true := by
  have hstill : ∀ (steps : List (WalkStep n)) {walk : Walk n},
      walk.cancelFlag = true →
      (after (Walk.step pattern) walk steps).cancelFlag = true := by
    intro steps walk h
    refine after_induction (P := fun walk : Walk n => walk.cancelFlag = true)
      (fun walk a h => ?_) h steps
    rcases a with ⟨worker, entry⟩ | _
    · rw [Walk.step]
      split
      · exact h
      · exact h
    · rfl
  obtain ⟨before, later, rfl⟩ := List.append_of_mem hcancel
  rw [after_append]
  exact hstill later rfl

/-! ## What the search reports -/

theorem ranksBefore_trans {a b c : ℕ × Text} (h : RanksBefore a b)
    (h' : RanksBefore b c) :
    RanksBefore a c := by
  rcases h with hlt | ⟨heq, hle⟩
  · rcases h' with hlt' | ⟨heq', -⟩
    · exact .inl (hlt'.trans hlt)
    · exact .inl (heq' ▸ hlt)
  · rcases h' with hlt' | ⟨heq', hle'⟩
    · exact .inl (heq ▸ hlt')
    · exact .inr ⟨heq.trans heq', hle.trans hle'⟩

theorem ranksBefore_total (a b : ℕ × Text) :
    RanksBefore a b ∨ RanksBefore b a := by
  rcases lt_trichotomy a.1 b.1 with hlt | heq | hlt
  · exact .inr (.inl hlt)
  · exact (le_total a.2 b.2).imp (fun h => .inr ⟨heq, h⟩) fun h =>
      .inr ⟨heq.symm, h⟩
  · exact .inl (.inl hlt)

theorem ranksBefore_antisymm {a b : ℕ × Text} (h : RanksBefore a b)
    (h' : RanksBefore b a) :
    a = b := by
  rcases h with hlt | ⟨heq, hle⟩
  · rcases h' with hlt' | ⟨heq', -⟩
    · exact absurd hlt' hlt.asymm
    · exact absurd heq' hlt.ne
  · rcases h' with hlt' | ⟨-, hle'⟩
    · exact absurd heq hlt'.ne
    · exact Prod.ext heq (le_antisymm hle hle')

instance : Std.Total RanksBefore := ⟨ranksBefore_total⟩

instance : IsTrans (ℕ × Text) RanksBefore := ⟨fun _ _ _ => ranksBefore_trans⟩

theorem dedupRepeated_spec {l : List ℕ} (h : l.Pairwise (· ≤ ·)) :
    (dedupRepeated l).Pairwise (· < ·) ∧ ∀ i, i ∈ dedupRepeated l ↔ i ∈ l := by
  induction l using dedupRepeated.induct with
  | case1 a rest ih =>
      rw [dedupRepeated, if_pos rfl]
      obtain ⟨hpairwise, hmem⟩ := ih (List.pairwise_cons.1 h).2
      refine ⟨hpairwise, fun i => ?_⟩
      refine (hmem i).trans ⟨List.mem_cons_of_mem a, fun hi => ?_⟩
      rcases List.mem_cons.1 hi with rfl | hi
      · exact List.mem_cons_self
      · exact hi
  | case2 a b rest hne ih =>
      rw [dedupRepeated, if_neg hne]
      obtain ⟨hfirst, hrest⟩ := List.pairwise_cons.1 h
      obtain ⟨hpairwise, hmem⟩ := ih hrest
      refine ⟨List.pairwise_cons.2 ⟨fun i hi => ?_, hpairwise⟩, fun i => ?_⟩
      · have hb := lt_of_le_of_ne (hfirst b List.mem_cons_self) hne
        rcases List.mem_cons.1 ((hmem i).1 hi) with rfl | hi
        · exact hb
        · exact hb.trans_le ((List.pairwise_cons.1 hrest).1 i hi)
      · rw [List.mem_cons, hmem, ← List.mem_cons]
  | case3 l hshort =>
      rw [dedupRepeated]
      · refine ⟨?_, fun i => .rfl⟩
        cases l with
        | nil => exact .nil
        | cons a rest =>
            cases rest with
            | nil => exact List.pairwise_singleton ..
            | cons b rest => exact (hshort a b rest rfl).elim
      · exact hshort

/-- What a search reports of all that it has found. -/
structure Reports (pattern : Pattern) (limit : ℕ) (computeIndices : Bool)
    (all : List (ℕ × Text)) (results : FileSearchResults) : Prop where
  total : results.totalMatchCount = all.length
  best : Selects Prod.fst limit all (results.fileMatches.map
    fun file => (file.score, file.path))
  scores : results.fileMatches.map FileMatch.score =
    ((all.map Prod.fst).insertionSort (· ≥ ·)).take limit
  sorted : results.fileMatches.Pairwise fun a b =>
    RanksBefore (a.score, a.path) (b.score, b.path)
  indices : ∀ file ∈ results.fileMatches,
    if computeIndices then ∃ l, file.indices = some l ∧ l.Pairwise (· < ·) ∧
      ∀ i, i ∈ l ↔ i ∈ pattern.indices file.path
    else file.indices = none

variable {order : List (ℕ × Text) → List (ℕ × Text)} {threads : ℕ}
    {computeIndices : Bool}

theorem flatMap_ofWorker_perm (done : List (Fin n × (ℕ × Text))) :
    ((List.finRange n).flatMap
      fun worker => ofClass Prod.fst worker done).Perm done := by
  have hall : (done.filter fun entry => entry.1 ∉ List.finRange n) = [] :=
    List.filter_eq_nil_iff.2 fun entry _ => by simp
  have hclasses :
      (((List.finRange n).flatMap fun worker => ofClass Prod.fst worker done) ++
      done.filter fun entry => entry.1 ∉ List.finRange n).Perm done :=
    flatMap_ofClass_perm (List.nodup_finRange n) done
  rwa [hall, List.append_nil] at hclasses

theorem selects_mergeHeaps (horder : ∀ l, (order l).Perm l) {walk : Walk n}
    {done : List (Fin n × (ℕ × Text))} (h : Searched limit walk done) :
    Selects Prod.fst limit (done.map Prod.snd)
      (mergeHeaps order limit walk) := by
  have hmerged := selects_foldl_offer (selects_nil Prod.fst limit)
    ((List.finRange n).flatMap
      fun worker => order (walk.lists worker).binaryHeap)
  rw [List.append_nil] at hmerged
  have hparts :=
    (hmerged.congr (List.reverse_perm _) (.refl _)).of_parts fun worker _ =>
      (h.best worker).congr (.refl _) (horder _).symm
  refine hparts.congr ?_ (.refl _)
  rw [← List.map_flatMap]
  exact (flatMap_ofWorker_perm done).map Prod.snd

/-- A search that was not cancelled reports the best matches in their order. -/
theorem run_of_not_cancelled (pattern : Pattern)
    (horder : ∀ l, (order l).Perm l)
    {steps : List (WalkStep (threads + 1))} (hcancel : .cancel ∉ steps) :
    ∃ best, run pattern order limit threads computeIndices steps =
        ⟨best.map (toFileMatch pattern computeIndices),
          (found pattern steps).length⟩ ∧
      Selects Prod.fst limit ((found pattern steps).map Prod.snd) best ∧
      best.Pairwise RanksBefore := by
  have h := searched_after pattern hcancel limit
  let walk := after (Walk.step pattern) (.start (threads + 1) limit) steps
  let heap := mergeHeaps order limit walk
  refine ⟨sortMatches (order heap), ?_, ?_, List.pairwise_insertionSort _ _⟩
  · have hsum : ((List.finRange (threads + 1)).map fun worker =>
        (walk.lists worker).numMatches).sum = (found pattern steps).length := by
      rw [← List.length_reverse, ← (flatMap_ofWorker_perm _).length_eq,
        List.length_flatMap]
      exact congrArg List.sum (List.map_congr_left
        fun worker _ => h.count worker)
    rw [run, if_neg (h.cancelFlag ▸ Bool.false_ne_true)]
    exact congrArg (FileSearchResults.mk _) hsum
  · refine (selects_mergeHeaps horder h).congr
      ((List.reverse_perm _).map Prod.snd) ?_
    exact (horder heap).symm.trans (List.perm_insertionSort _ _).symm

theorem reports_run (horder : ∀ l, (order l).Perm l)
    {steps : List (WalkStep (threads + 1))}
    (hcancel : .cancel ∉ steps) :
    Reports pattern limit computeIndices ((found pattern steps).map Prod.snd)
      (run pattern order limit threads computeIndices steps) := by
  obtain ⟨best, hrun, hbest, hsorted⟩ :=
    run_of_not_cancelled pattern horder hcancel
  have hpairs : (best.map (toFileMatch pattern computeIndices)).map
      (fun file => (file.score, file.path)) = best := by
    rw [List.map_map]
    exact List.map_id _
  have hscores :
      (best.map (toFileMatch pattern computeIndices)).map FileMatch.score =
      best.map Prod.fst := List.map_map
  have hdone :
      (best.map Prod.fst).insertionSort (· ≥ ·) = best.map Prod.fst := by
    refine List.Pairwise.insertionSort_eq
      (List.pairwise_map.2 (hsorted.imp fun h => ?_))
    exact h.elim le_of_lt fun h => h.1.ge
  rw [hrun]
  refine ⟨(List.length_map _).symm, hpairs.symm ▸ hbest, ?_,
    List.pairwise_map.2 hsorted,
    fun file hfile => ?_⟩
  · exact hscores.trans (hdone.symm.trans hbest.scores)
  · obtain ⟨entry, -, rfl⟩ := List.mem_map.1 hfile
    rw [toFileMatch]
    split
    · obtain ⟨hpairwise, hmem⟩ :=
        dedupRepeated_spec
          (List.pairwise_insertionSort (· ≤ ·) (pattern.indices entry.2))
      exact ⟨_, rfl, hpairwise,
        fun i => (hmem i).trans (List.mem_insertionSort _)⟩
    · rfl

/-- However the walk deals its entries to the workers, and however their heaps
are laid out: a search that was cancelled reports nothing, and any other one
counts all matches and reports the best of them, sorted by score and path.  So
the scores it reports are the best ones. -/
theorem run_reports (pattern : Pattern)
    {order : List (ℕ × Text) → List (ℕ × Text)}
    (horder : ∀ l, (order l).Perm l) (limit threads : ℕ) (computeIndices : Bool)
    (steps : List (WalkStep (threads + 1))) :
    (.cancel ∈ steps →
      run pattern order limit threads computeIndices steps = ⟨[], 0⟩) ∧
    (.cancel ∉ steps →
      Reports pattern limit computeIndices ((found pattern steps).map Prod.snd)
        (run pattern order limit threads computeIndices steps)) := by
  refine ⟨fun hcancel => ?_, reports_run horder⟩
  rw [run, if_pos (cancelFlag_after hcancel _)]

/-- A matcher that prefers short names, and finds nothing in long ones. -/
def examplePattern : Pattern where
  score path := if path.length < 4 then some (4 - path.length) else none
  indices _ := [1, 0, 1]

/-- Two workers walk over three files and a directory. -/
def exampleWalk : List (WalkStep 2) :=
  [.visit 0 (.ok ⟨false, some "lib".toList⟩),
    .visit 1 (.ok ⟨false, some "a".toList⟩),
    .visit 0 (.ok ⟨true, some "b".toList⟩),
    .visit 1 (.ok ⟨false, some "long".toList⟩)]

theorem run_reports_example :
    Reports examplePattern 1 true [(1, "lib".toList), (3, "a".toList)]
      (run examplePattern List.reverse 1 1 true exampleWalk) :=
  (run_reports examplePattern List.reverse_perm 1 1 true exampleWalk).2 (by
    simp [exampleWalk])

/-- The number of threads, the order of the walk and the layout of the heaps do
not matter: two searches that find the same report the same number of matches
and the same scores, and where no two matches have one score, the same files. -/
theorem run_independent (pattern : Pattern)
    {order order' : List (ℕ × Text) → List (ℕ × Text)}
    (horder : ∀ l, (order l).Perm l) (horder' : ∀ l, (order' l).Perm l)
    (limit : ℕ) {threads threads' : ℕ} (computeIndices : Bool)
    {steps : List (WalkStep (threads + 1))}
    {steps' : List (WalkStep (threads' + 1))}
    (hcancel : .cancel ∉ steps) (hcancel' : .cancel ∉ steps')
    (hfound : ((found pattern steps).map Prod.snd).Perm
      ((found pattern steps').map Prod.snd)) :
    let results := run pattern order limit threads computeIndices steps
    let results' := run pattern order' limit threads' computeIndices steps'
    results.totalMatchCount = results'.totalMatchCount ∧
    results.fileMatches.map FileMatch.score =
      results'.fileMatches.map FileMatch.score ∧
    ((∀ a ∈ (found pattern steps).map Prod.snd,
      ∀ b ∈ (found pattern steps).map Prod.snd,
      a.1 = b.1 → a = b) → results = results') := by
  intro results results'
  obtain ⟨best, hrun, hbest, hsorted⟩ :=
    run_of_not_cancelled pattern horder hcancel
  obtain ⟨best', hrun', hbest', hsorted'⟩ :=
    run_of_not_cancelled pattern horder' hcancel'
  have hscores : results.fileMatches.map FileMatch.score =
      results'.fileMatches.map FileMatch.score := by
    refine (reports_run horder hcancel).scores.trans ?_
    refine Eq.trans ?_ (reports_run horder' hcancel').scores.symm
    refine congrArg (List.take limit) (List.Perm.eq_of_pairwise
      (fun a b _ _ hab hba => le_antisymm hba hab)
      (List.pairwise_insertionSort _ _) (List.pairwise_insertionSort _ _) ?_)
    refine (List.perm_insertionSort _ _).trans ((hfound.map Prod.fst).trans ?_)
    exact (List.perm_insertionSort _ _).symm
  have htotal :
      (found pattern steps).length = (found pattern steps').length := by
    simpa using hfound.length_eq
  refine ⟨?_, hscores, fun hinj => ?_⟩
  · change (run ..).totalMatchCount = (run ..).totalMatchCount
    rw [hrun, hrun']
    exact htotal
  · have hsame := hbest.unique (hbest'.congr hfound.symm (.refl _)) hinj
    have heq : best = best' := List.Perm.eq_of_pairwise
      (fun a b _ _ hab hba => ranksBefore_antisymm hab hba) hsorted
      hsorted' hsame
    change run .. = run ..
    rw [hrun, hrun', heq, htotal]

theorem run_independent_example :
    (run examplePattern List.reverse 2 1 false exampleWalk).fileMatches.map
      FileMatch.score =
      (run examplePattern id 2 0 false
        [.visit 0 (.ok ⟨false, some "a".toList⟩), .visit 0 (.error ()),
          .visit 0 (.ok ⟨false, some "lib".toList⟩)]).fileMatches.map
          FileMatch.score :=
  (run_independent examplePattern List.reverse_perm (fun l => .refl l) 2 false
    (by simp [exampleWalk]) (by simp) (by decide)).2.1

end CodeRs.FileSearch
