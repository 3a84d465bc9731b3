import Mathlib.Data.List.Basic
import Mathlib.Logic.Basic

/-!
# Runs of a step function

A run of a guarded step function is the list of its steps, the newest first.
So the earlier part of a run is a suffix, and an induction over a run is an
induction over a list.  A run of a total step function is the list of its
steps, the first one first, and so are the steps that are to be taken with a
step function that may fail.
-/

namespace CodeRs

variable {σ α : Type*} (step : σ → α → Option σ) (init : σ)

/-- The state a run ends in, if every step of it is enabled. -/
def runOf : List α → Option σ
  | [] => some init
  | a :: earlier => (runOf earlier).bind fun s => step s a

variable {step init}

theorem runOf_cons {a : α} {earlier : List α} {s : σ}
    (h : runOf step init (a :: earlier) = some s) :
    ∃ mid, runOf step init earlier = some mid ∧ step mid a = some s :=
  Option.bind_eq_some_iff.1 h

theorem runOf_earlier {later earlier : List α} {s : σ}
    (h : runOf step init (later ++ earlier) = some s) :
    ∃ mid, runOf step init earlier = some mid := by
  induction later generalizing s with
  | nil => exact ⟨s, h⟩
  | cons a later ih =>
      obtain ⟨mid, hmid, -⟩ := runOf_cons h
      exact ih hmid

/-- A relation between a run and its state holds if every step preserves it. -/
theorem runOf_induction {P : List α → σ → Prop} (hinit : P [] init)
    (hstep : ∀ earlier mid a s, P earlier mid → step mid a = some s →
      P (a :: earlier) s) {run : List α} {s : σ}
    (h : runOf step init run = some s) : P run s := by
  induction run generalizing s with
  | nil =>
      cases h
      exact hinit
  | cons a earlier ih =>
      obtain ⟨mid, hmid, hs⟩ := runOf_cons h
      exact hstep earlier mid a s (ih hmid) hs

/-- A property that every step of the run preserves stays true to its end. -/
theorem runOf_stable {P : σ → Prop}
    (hstep : ∀ run mid a s, runOf step init run = some mid → P mid →
      step mid a = some s → P s)
    {later earlier : List α} {mid s : σ}
    (hearlier : runOf step init earlier = some mid) (hmid : P mid)
    (h : runOf step init (later ++ earlier) = some s) : P s := by
  induction later generalizing s with
  | nil =>
      rw [List.nil_append, hearlier] at h
      cases h
      exact hmid
  | cons a later ih =>
      obtain ⟨mid', hmid', hs⟩ := runOf_cons h
      exact hstep _ mid' a s hmid' (ih hmid') hs

/-! ## Total step functions -/

section Total

variable (next : σ → α → σ)

/-- The state after some steps, the first one first. -/
def after : σ → List α → σ
  | s, [] => s
  | s, a :: rest => after (next s a) rest

/-- Every step of a run meets a condition on the state before it. -/
def Along (ok : σ → α → Prop) : σ → List α → Prop
  | _, [] => True
  | s, a :: rest => ok s a ∧ Along ok (next s a) rest

/-- Every state of a run has a property. -/
def Throughout (P : σ → Prop) : σ → List α → Prop
  | s, [] => P s
  | s, a :: rest => P s ∧ Throughout P (next s a) rest

variable {next} {ok : σ → α → Prop} {P Q : σ → Prop}

/-- The first state of a run is one of its states. -/
theorem Throughout.head {s : σ} {steps : List α}
    (h : Throughout next P s steps) : P s := by
  cases steps with
  | nil => exact h
  | cons a rest => exact h.1

/-- What holds throughout a run holds throughout its beginning. -/
theorem Throughout.take {s : σ} {steps later : List α}
    (h : Throughout next P s (steps ++ later)) : Throughout next P s steps := by
  induction steps generalizing s with
  | nil => exact h.head
  | cons a rest ih => exact ⟨h.1, ih h.2⟩

theorem after_append (s : σ) (steps later : List α) :
    after next s (steps ++ later) = after next (after next s steps) later := by
  induction steps generalizing s with
  | nil => rfl
  | cons a rest ih => exact ih _

/-- A property that every step keeps holds after a run. -/
theorem after_induction (hstep : ∀ s a, P s → P (next s a)) {s : σ} (h : P s)
    (steps : List α) : P (after next s steps) := by
  induction steps generalizing s with
  | nil => exact h
  | cons a rest ih => exact ih (hstep s a h)

/-- Only the steps that are taken have to keep the property. -/
theorem after_induction_mem {s : σ} {steps : List α}
    (hstep : ∀ s, ∀ a ∈ steps, P s → P (next s a))
    (h : P s) : P (after next s steps) := by
  induction steps generalizing s with
  | nil => exact h
  | cons a rest ih =>
      refine ih (fun s b hb => hstep s b (List.mem_cons_of_mem a hb)) ?_
      exact hstep s a List.mem_cons_self h

/-- A relation between the states of two step functions that the same steps
keep holds after the same run of both. -/
theorem after_relation {τ : Type*} {other : τ → α → τ} {R : σ → τ → Prop}
    (hstep : ∀ s t a, R s t → R (next s a) (other t a)) {s : σ}
    {t : τ} (h : R s t)
    (steps : List α) : R (after next s steps) (after other t steps) := by
  induction steps generalizing s t with
  | nil => exact h
  | cons a rest ih => exact ih (hstep s t a h)

/-- Where only steps of one kind raise a measure, each by one at most, a run
raises it by at most the number of its steps of that kind. -/
theorem after_measure_le {measure : σ → ℕ} {p : α → Bool}
    (hstep : ∀ s a, measure (next s a) ≤ measure s + (p a).toNat) (s : σ)
    (steps : List α) :
    measure (after next s steps) ≤ measure s + steps.countP p := by
  induction steps generalizing s with
  | nil => exact Nat.le_refl _
  | cons a rest ih =>
      have hrest := ih (next s a)
      have hhead := hstep s a
      rw [after]
      cases h : p a with
      | false =>
          rw [List.countP_cons_of_neg (by simp [h])]
          rw [h, Bool.toNat_false] at hhead
          omega
      | true =>
          rw [List.countP_cons_of_pos h]
          rw [h, Bool.toNat_true] at hhead
          omega

/-- Every step of a run is admitted where it is taken. -/
theorem along_iff_forall_split {s : σ} {steps : List α} :
    Along next ok s steps ↔
      ∀ before a later, steps = before ++ a :: later →
        ok (after next s before) a := by
  induction steps generalizing s with
  | nil =>
      refine iff_of_true trivial fun before a later h => ?_
      cases before <;> cases h
  | cons b rest ih =>
      rw [Along, ih]
      constructor
      · rintro ⟨hb, hrest⟩ before a later h
        cases before with
        | nil =>
            cases h
            exact hb
        | cons c before =>
            cases h
            exact hrest before a later rfl
      · intro h
        exact ⟨h [] b rest rfl,
          fun before a later hsplit => h (b :: before) a later
          (by rw [hsplit, List.cons_append])⟩

/-- Whether a run is admitted can be decided if this is so for a step. -/
instance Along.instDecidable [∀ s a, Decidable (ok s a)] (s : σ) :
    (steps : List α) → Decidable (Along next ok s steps)
  | [] => inferInstanceAs (Decidable True)
  | a :: rest =>
      have := Along.instDecidable (next s a) rest
      inferInstanceAs (Decidable (ok s a ∧ Along next ok (next s a) rest))

instance Throughout.instDecidable [DecidablePred P] (s : σ) (steps : List α) :
    Decidable (Throughout next P s steps) :=
  match steps with
  | [] => inferInstanceAs (Decidable (P s))
  | a :: rest =>
      have := Throughout.instDecidable (next s a) rest
      inferInstanceAs (Decidable (P s ∧ Throughout next P (next s a) rest))

/-- A property that admitted steps preserve holds throughout an admitted run. -/
theorem Along.throughout (hstep : ∀ s a, P s → ok s a → P (next s a)) {s : σ}
    {steps : List α} (h : Along next ok s steps) (hs : P s) :
    Throughout next P s steps := by
  induction steps generalizing s with
  | nil => exact hs
  | cons a rest ih => exact ⟨hs, ih h.2 (hstep s a hs h.1)⟩

/-- Where a step preserves a property exactly if it is admitted, the property
holds throughout a run exactly if every step is. -/
theorem throughout_iff_along
    (hstep : ∀ s a, P s → (P (next s a) ↔ ok s a)) {s : σ}
    (hs : P s) (steps : List α) :
    Throughout next P s steps ↔ Along next ok s steps := by
  refine ⟨fun h => ?_,
    fun h => h.throughout (fun s a hs hok => (hstep s a hs).2 hok) hs⟩
  induction steps generalizing s with
  | nil => trivial
  | cons a rest ih =>
      have hnext : P (next s a) := h.2.head
      exact ⟨(hstep s a hs).1 hnext, ih hnext h.2⟩

/-- Where admitted steps keep an invariant that gives a property, and the
others lose the property, it holds throughout a run exactly if every step is
admitted. -/
theorem throughout_iff_along_of_inv (hP : ∀ s, P s → Q s)
    (hstep : ∀ s a, P s → ok s a → P (next s a))
    (hadmitted : ∀ s a, P s → Q (next s a) → ok s a) {s : σ} (hs : P s)
    (steps : List α) :
    Throughout next Q s steps ↔ Along next ok s steps := by
  induction steps generalizing s with
  | nil => exact ⟨fun _ => trivial, fun _ => hP s hs⟩
  | cons a rest ih =>
      constructor
      · rintro ⟨-, hrest⟩
        have hnext : Q (next s a) := hrest.head
        have hok := hadmitted s a hs hnext
        exact ⟨hok, (ih (hstep s a hs hok)).1 hrest⟩
      · rintro ⟨hok, hrest⟩
        exact ⟨hP s hs, (ih (hstep s a hs hok)).2 hrest⟩

/-- Where a step that is not admitted spoils a property for good, the last
state has it exactly if every step of the run is admitted. -/
theorem after_iff_along {R : σ → Prop}
    (hstep : ∀ s a, P s → ok s a → P (next s a))
    (hspoil : ∀ s a, P s → ¬ ok s a → R (next s a))
    (hspoilt : ∀ s a, R s → R (next s a)) (hP : ∀ s, P s → Q s)
    (hQ : ∀ s, R s → ¬ Q s) {s : σ} (hs : P s) (steps : List α) :
    Q (after next s steps) ↔ Along next ok s steps := by
  have hrest : ∀ (steps : List α) (s : σ), R s → R (after next s steps) := by
    intro steps
    induction steps with
    | nil => exact fun _ h => h
    | cons a rest ih => exact fun s h => ih _ (hspoilt s a h)
  induction steps generalizing s with
  | nil => exact ⟨fun _ => trivial, fun _ => hP s hs⟩
  | cons a rest ih =>
      by_cases hok : ok s a
      · refine (ih (hstep s a hs hok)).trans ?_
        exact ⟨fun h => ⟨hok, h⟩, fun h => h.2⟩
      · refine ⟨fun h => ?_, fun h => absurd h.1 hok⟩
        exact absurd h (hQ _ (hrest rest _ (hspoil s a hs hok)))

/-- A property of every state holds of the last one. -/
theorem Throughout.after {s : σ} {steps : List α}
    (h : Throughout next P s steps) :
    P (after next s steps) := by
  induction steps generalizing s with
  | nil => exact h
  | cons a rest ih => exact ih h.2

/-- A state that no step changes is the last one of every run from it. -/
theorem after_eq_of_fixed {s : σ} (h : ∀ a, next s a = s) (steps : List α) :
    after next s steps = s := by
  induction steps with
  | nil => rfl
  | cons a rest ih => exact (congrArg (after next · rest) (h a)).trans ih

/-- Where every admitted step of an active state lowers a measure and the
others stay as they are, an admitted run that is as long as the measure ends at
rest. -/
theorem Along.settled {Active : σ → Prop} (measure : σ → ℕ)
    (hpos : ∀ s, Active s → 0 < measure s)
    (hfall : ∀ s a, Active s → ok s a → measure (next s a) < measure s)
    (hrest : ∀ s a, ¬ Active s → next s a = s) {s : σ} {steps : List α}
    (h : Along next ok s steps) (hlength : measure s ≤ steps.length) :
    ¬ Active (CodeRs.after next s steps) := by
  induction steps generalizing s with
  | nil =>
      intro hactive
      have hzero := hpos s hactive
      exact absurd hlength (Nat.not_le.2 hzero)
  | cons a rest ih =>
      by_cases hactive : Active s
      · have hlt := hfall s a hactive h.1
        rw [List.length_cons] at hlength
        exact ih h.2 (by omega)
      · rwa [after_eq_of_fixed fun a => hrest s a hactive]

/-- An admitted run is no longer than a measure that every step of it lowers. -/
theorem Along.length_le {measure : σ → ℕ}
    (hfall : ∀ s a, ok s a → measure (next s a) < measure s) {s : σ}
    {steps : List α}
    (h : Along next ok s steps) : steps.length ≤ measure s := by
  induction steps generalizing s with
  | nil => exact Nat.zero_le _
  | cons a rest ih =>
      have hlt := hfall s a h.1
      exact Nat.lt_of_le_of_lt (ih h.2) hlt

theorem Throughout.mono (himp : ∀ s, P s → Q s) {s : σ} {steps : List α}
    (h : Throughout next P s steps) : Throughout next Q s steps := by
  induction steps generalizing s with
  | nil => exact himp s h
  | cons a rest ih => exact ⟨himp s h.1, ih h.2⟩

end Total

/-! ## Steps that may fail -/

section Partial

variable (step)

/-- No step of a run fails, and each one relates the states before and after
it. -/
def EveryStep (R : σ → α → σ → Prop) : σ → List α → Prop
  | _, [] => True
  | s, a :: rest => ∃ t, step s a = some t ∧ R s a t ∧ EveryStep R t rest

/-- Every step of a run that is reached meets a condition on the state before
it. -/
def Admits (ok : σ → α → Prop) : σ → List α → Prop
  | _, [] => True
  | s, a :: rest => ok s a ∧ ∀ t, step s a = some t → Admits ok t rest

variable {step} {R : σ → α → σ → Prop} {ok : σ → α → Prop} {P : σ → Prop}

/-- Admitted steps that keep an invariant do what they do from the states with
it. -/
theorem Admits.everyStep
    (hstep : ∀ s a, P s → ok s a → ∃ t, step s a = some t ∧ R s a t ∧ P t)
    {s : σ}
    {steps : List α} (h : Admits step ok s steps) (hs : P s) :
    EveryStep step R s steps := by
  induction steps generalizing s with
  | nil => trivial
  | cons a rest ih =>
      obtain ⟨t, hnext, hR, ht⟩ := hstep s a hs h.1
      exact ⟨t, hnext, hR, ih (h.2 t hnext) ht⟩

/-- Where a step of a kind does what it does only if it is admitted, so is
every step of a run of that kind. -/
theorem EveryStep.admits {Q : α → Prop}
    (hstep : ∀ s a t, P s → Q a → step s a = some t → R s a t → ok s a ∧ P t)
    {s : σ}
    {steps : List α} (h : EveryStep step R s steps) (hs : P s)
    (hQ : ∀ a ∈ steps, Q a) :
    Admits step ok s steps := by
  induction steps generalizing s with
  | nil => trivial
  | cons a rest ih =>
      obtain ⟨t, hnext, hR, hrest⟩ := h
      obtain ⟨hok, ht⟩ := hstep s a t hs (hQ a List.mem_cons_self) hnext hR
      refine ⟨hok, fun t' hnext' => ?_⟩
      cases hnext.symm.trans hnext'
      exact ih hrest ht fun b hb => hQ b (List.mem_cons_of_mem a hb)

/-- A run fails at no step exactly if each one is admitted, where this is so
for a step. -/
theorem isSome_foldlM_iff_admits
    (hstep : ∀ s a, (step s a).isSome ↔ ok s a) (s : σ)
    (steps : List α) : (steps.foldlM step s).isSome ↔
    Admits step ok s steps := by
  induction steps generalizing s with
  | nil => exact ⟨fun _ => trivial, fun _ => rfl⟩
  | cons a rest ih =>
      rw [List.foldlM_cons, Admits, ← hstep]
      cases hnext : step s a with
      | none => simp
      | some t => simp [ih t]

end Partial

end CodeRs

/-! ## Reachable states of a guarded step function

A system has an initial state, a step function that is undefined where the
program panics, and a binary operation that combines two states the program can
be in (a state that restores the snapshot of another one).  Reachability is
relative to a condition on the steps taken, so an invariant that needs the
condition and one that does not are two instances of the same induction. -/

namespace CodeRs

/-- An initial state, a partial step function and a way to combine states. -/
structure System (σ α : Type*) where
  init : σ
  step : σ → α → Option σ
  combine : σ → σ → σ

namespace System

variable {σ α : Type*}

/-- States reached by steps that all meet `ok`. -/
inductive Reachable (sys : System σ α) (ok : σ → α → Prop) : σ → Prop
  | init : Reachable sys ok sys.init
  | step {s s' : σ} {a : α} :
      Reachable sys ok s → ok s a → sys.step s a = some s' → Reachable sys ok s'
  | combine {s t : σ} :
      Reachable sys ok s → Reachable sys ok t →
        Reachable sys ok (sys.combine s t)

variable {sys : System σ α} {ok : σ → α → Prop}

/-- A property of the initial state that admitted steps and combinations
preserve holds in every reachable state. -/
theorem Reachable.invariant {P : σ → Prop}
    (hinit : P sys.init)
    (hstep : ∀ s a s', P s → ok s a → sys.step s a = some s' → P s')
    (hcombine : ∀ s t, P s → P t → P (sys.combine s t))
    {s : σ} (h : Reachable sys ok s) : P s := by
  induction h with
  | init => exact hinit
  | step _ hok hs ih => exact hstep _ _ _ ih hok hs
  | combine _ _ ihs iht => exact hcombine _ _ ihs iht

/-- A weaker condition on the steps reaches at least as many states. -/
theorem Reachable.mono {ok' : σ → α → Prop} (himp : ∀ s a, ok s a → ok' s a)
    {s : σ} (h : Reachable sys ok s) : Reachable sys ok' s := by
  induction h with
  | init => exact .init
  | step _ hok hs ih => exact .step ih (himp _ _ hok) hs
  | combine _ _ ihs iht => exact .combine ihs iht

end System

end CodeRs

/-! ## Replayed logs

A system writes records to a log, and a replay makes a view of the system from
them.  Where the view of a state is the one that a replay of its log makes, a
step keeps this exactly if its own records, applied to the view, make the new
one. -/

namespace CodeRs

variable {ρ V : Type*} (apply : V → ρ → V) (initial : V)

/-- What a replay makes of a log. -/
def replay (log : List ρ) : V := log.foldl apply initial

/-- A view is the one that a replay of the log makes. -/
def Rebuilt (log : List ρ) (view : V) : Prop := replay apply initial log = view

variable {apply initial} {log : List ρ} {view view' : V}

theorem Rebuilt.append_iff (h : Rebuilt apply initial log view)
    (written : List ρ) :
    Rebuilt apply initial (log ++ written) view' ↔
      written.foldl apply view = view' := by
  rw [Rebuilt, replay, List.foldl_append]
  exact (congrArg (written.foldl apply · = view') h).to_iff

/-- A step that writes nothing. -/
theorem Rebuilt.iff_eq (h : Rebuilt apply initial log view) :
    Rebuilt apply initial log view' ↔ view = view' := by
  rw [Rebuilt, h]

end CodeRs
