import CodeRs.Lib.Runs
import Mathlib.Algebra.Order.Group.Multiset
import Mathlib.Data.List.Induction

/-!
# Queues and monitors

What a machine hands on, and what it may be seen to do.
-/

/-! ## First in, first out

A machine whose steps put values into queues and take values out of them.  A
queue that each step enters at its end and leaves at its front hands its values
on in the order in which they came, over any run; and what is counted in every
step is counted over the run. -/

namespace CodeRs.Fifo

variable {σ κ α β : Type*} (next : σ → κ → σ)

/-- What the steps of a run yield, in their order. -/
def gather (yield : σ → κ → List α) : σ → List κ → List α
  | _, [] => []
  | s, k :: rest => yield s k ++ gather yield (next s k) rest

/-- A queue that every step of the machine enters at the end and leaves at the
front. -/
def Ordered (queue : σ → List α) (enter leave : σ → κ → List α) : Prop :=
  ∀ s k, leave s k ++ queue (next s k) = queue s ++ enter s k

variable {next}

/-- What has left a queue and what is in it are what was in it and what has
entered, in this order. -/
theorem Ordered.run {queue : σ → List α} {enter leave : σ → κ → List α}
    (h : Ordered next queue enter leave) (s : σ) (steps : List κ) :
    gather next leave s steps ++ queue (after next s steps) =
      queue s ++ gather next enter s steps := by
  induction steps generalizing s with
  | nil => rw [gather, gather, after, List.nil_append, List.append_nil]
  | cons k rest ih =>
      rw [gather, gather, after, List.append_assoc, ih, ← List.append_assoc, h,
        List.append_assoc]

theorem coe_gather_add {held : σ → Multiset α} {enter leave : σ → κ → List α}
    (h : ∀ s k, ↑(leave s k) + held (next s k) = held s + ↑(enter s k)) (s : σ)
    (steps : List κ) :
    ↑(gather next leave s steps) + held (after next s steps) =
      held s + ↑(gather next enter s steps) := by
  induction steps generalizing s with
  | nil => exact add_comm _ _
  | cons k rest ih =>
      rw [gather, gather, after, ← Multiset.coe_add, ← Multiset.coe_add,
        add_assoc, ih,
        ← add_assoc, h, add_assoc]

end CodeRs.Fifo

/-! ## Monitors

A monitor watches what a machine does, one observation at a time, and is
stopped by an observation that it does not allow.  Whatever it demands at an
observation then holds at every place of a trace that it has watched.  A
machine refines a monitor under a mapping of states if the monitor allows every
step of the machine and comes to the mapped state; it then allows every run. -/

namespace CodeRs.Monitor

variable {σ τ κ ο : Type*} {allow : τ → ο → Option τ}

/-- Where a monitor comes to with a trace, if it allows all of it. -/
def watch (allow : τ → ο → Option τ) (m : τ) (trace : List ο) : Option τ :=
  trace.foldlM allow m

@[simp] theorem watch_nil (m : τ) : watch allow m [] = some m := rfl

@[simp] theorem watch_cons (m : τ) (o : ο) (trace : List ο) :
    watch allow m (o :: trace) = (allow m o).bind fun m' =>
      watch allow m' trace :=
  List.foldlM_cons

theorem watch_append (m : τ) (trace later : List ο) :
    watch allow m (trace ++ later) =
      (watch allow m trace).bind fun m' => watch allow m' later :=
  List.foldlM_append

/-- The monitor at one observation of a trace that it has watched. -/
theorem watch_split {m m' : τ} {before later : List ο} {o : ο}
    (h : watch allow m (before ++ o :: later) = some m') :
    ∃ p q, watch allow m before = some p ∧ allow p o = some q ∧
      watch allow q later = some m' := by
  rw [watch_append] at h
  obtain ⟨p, hp, h⟩ := Option.bind_eq_some_iff.1 h
  rw [watch_cons] at h
  obtain ⟨q, hq, h⟩ := Option.bind_eq_some_iff.1 h
  exact ⟨p, q, hp, hq, h⟩

/-- A relation between a trace and the monitor's state holds if every
observation keeps it. -/
theorem watch_induction {P : List ο → τ → Prop} {m m' : τ} {trace : List ο}
    (hnil : P [] m)
    (hsnoc : ∀ trace p o q, P trace p → allow p o = some q → P (trace ++ [o]) q)
    (h : watch allow m trace = some m') : P trace m' := by
  induction trace using List.reverseRecOn generalizing m' with
  | nil =>
      cases h
      exact hnil
  | append_singleton trace o ih =>
      obtain ⟨p, q, hp, hq, hlast⟩ := watch_split h
      cases hlast
      exact hsnoc trace p o _ (ih hp) hq

/-! ## Refinement -/

/-- A monitor allows every step of a machine from the states of an invariant,
and the states of the machine stand for the monitor's. -/
structure Refines (allow : τ → ο → Option τ) (next : σ → κ → σ)
    (observed : σ → κ → List ο) (inv : σ → Prop)
    (toMonitor : σ → τ) : Prop where
  keeps : ∀ s k, inv s → inv (next s k)
  allowed : ∀ s k, inv s →
    watch allow (toMonitor s) (observed s k) = some (toMonitor (next s k))

variable {next : σ → κ → σ} {observed : σ → κ → List ο} {inv : σ → Prop}
    {toMonitor : σ → τ}

theorem Refines.run (h : Refines allow next observed inv toMonitor)
    {s : σ} (hs : inv s)
    (steps : List κ) :
    inv (after next s steps) ∧
      watch allow (toMonitor s) (Fifo.gather next observed s steps) =
        some (toMonitor (after next s steps)) := by
  induction steps generalizing s with
  | nil => exact ⟨hs, rfl⟩
  | cons k rest ih =>
      obtain ⟨hinv, hrest⟩ := ih (h.keeps s k hs)
      refine ⟨hinv, ?_⟩
      rw [Fifo.gather, watch_append, h.allowed s k hs]
      exact hrest

end CodeRs.Monitor
