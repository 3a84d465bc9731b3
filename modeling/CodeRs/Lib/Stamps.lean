import CodeRs.Lib.Lists
import CodeRs.Lib.Program
import Mathlib.Data.Finmap
import Mathlib.Data.List.Basic

/-!
# Stamps on asynchronous events

A component that starts asynchronous work gives it a stamp, and takes an event
of the work only if the event has the stamp that is current.  This tells a late
event from a timely one as long as no stamp comes back.  The record here has
the stamps given out, the oldest first, and the place in it where the current
epoch began.
-/

namespace CodeRs

variable {κ : Type*}

/-- The current stamp, the stamps given out and how many of these are of an
earlier epoch. -/
structure Stamps (κ : Type*) where
  current : κ
  issued : List κ
  epochStart : ℕ

inductive Stamps.Move (κ : Type*) where
  /-- Nothing. -/
  | keep
  /-- There is another current stamp, and it may be given out. -/
  | renew (stamp : κ) (issues : Bool)
  /-- A new epoch begins at a stamp. -/
  | restart (stamp : κ)

namespace Stamps

def move (s : Stamps κ) : Move κ → Stamps κ
  | .keep => s
  | .renew stamp issues =>
      { s with
        current := stamp
        issued := if issues then s.issued ++ [stamp] else s.issued }
  | .restart stamp => { s with current := stamp, epochStart := s.issued.length }

/-- The `i`-th stamp given out is the last one, and of the current epoch. -/
def IsLatest (s : Stamps κ) (i : ℕ) : Prop :=
  i + 1 = s.issued.length ∧ s.epochStart ≤ i

instance (s : Stamps κ) (i : ℕ) : Decidable (s.IsLatest i) :=
  inferInstanceAs (Decidable (_ ∧ _))

/-- The move makes no stamp current that was given out before. -/
def Move.Fresh (issued : List κ) : Move κ → Prop
  | .keep => True
  | .renew stamp _ => stamp ∉ issued
  | .restart stamp => stamp ∉ issued

instance Move.instDecidableFresh [DecidableEq κ] (issued : List κ) :
    (m : Move κ) → Decidable (m.Fresh issued)
  | .keep => inferInstanceAs (Decidable True)
  | .renew stamp _ => inferInstanceAs (Decidable (stamp ∉ issued))
  | .restart stamp => inferInstanceAs (Decidable (stamp ∉ issued))

/-- The current stamp was given out last if at all, and in the current epoch. -/
structure Sound (s : Stamps κ) : Prop where
  epochStart_le : s.epochStart ≤ s.issued.length
  isLatest : ∀ i, s.issued[i]? = some s.current → s.IsLatest i

theorem Sound.initial (stamp : κ) : Sound ⟨stamp, [], 0⟩ := by
  refine ⟨Nat.le_refl 0, ?_⟩
  intro i hi
  rw [List.getElem?_nil] at hi
  cases hi

/-- A stamp that was not given out is at no place among those that were. -/
theorem getElem?_ne_of_not_mem {l : List κ} {k : κ} (h : k ∉ l) (i : ℕ) :
    l[i]? ≠ some k := by
  intro hi
  exact h (List.mem_of_getElem? hi)

/-- A stamp that was not given out is at the end once it is. -/
theorem eq_length_of_getElem?_append {l : List κ} {k : κ} (h : k ∉ l) {i : ℕ}
    (hi : (l ++ [k])[i]? = some k) : i = l.length := by
  rcases Nat.lt_trichotomy i l.length with hlt | heq | hgt
  · rw [List.getElem?_append_left hlt] at hi
    exact absurd hi (getElem?_ne_of_not_mem h i)
  · exact heq
  · have hlen : (l ++ [k]).length ≤ i := by
      rw [List.length_append]
      exact hgt
    rw [List.getElem?_eq_none hlen] at hi
    cases hi

theorem Sound.move {s : Stamps κ} (hs : s.Sound) {m : Move κ}
    (hm : m.Fresh s.issued) :
    (s.move m).Sound := by
  cases m with
  | keep => exact hs
  | restart stamp =>
      refine ⟨Nat.le_refl _, ?_⟩
      intro i hi
      exact absurd hi (getElem?_ne_of_not_mem hm i)
  | renew stamp issues =>
      cases issues with
      | false =>
          refine ⟨hs.epochStart_le, ?_⟩
          intro i hi
          exact absurd hi (getElem?_ne_of_not_mem hm i)
      | true =>
          refine ⟨?_, ?_⟩
          · change s.epochStart ≤ (s.issued ++ [stamp]).length
            rw [List.length_append]
            exact Nat.le_add_right_of_le hs.epochStart_le
          · intro i hi
            obtain rfl : i = s.issued.length :=
              eq_length_of_getElem?_append hm hi
            refine ⟨?_, hs.epochStart_le⟩
            change s.issued.length + 1 = (s.issued ++ [stamp]).length
            rw [List.length_append]
            rfl

end Stamps

end CodeRs

/-! ## The last writer wins

The last element of a list with a property, and what it decides: the value of a
key in a map that is filled element by element, and the value of a place that a
run of steps overwrites. -/

namespace CodeRs

variable {α β ι κ σ : Type*}

/-! ## The last element with a property -/

/-- `x` is the last element of `l` with the property, after `pre` and before
`post`. -/
structure IsLast (p : α → Prop) (l pre : List α) (x : α)
    (post : List α) : Prop where
  eq : l = pre ++ x :: post
  holds : p x
  notLater : ∀ y ∈ post, ¬p y

variable {p : α → Prop} {l pre post : List α} {x : α}

theorem IsLast.mem (h : IsLast p l pre x post) : x ∈ l := by
  rw [h.eq]
  exact List.mem_append_right _ List.mem_cons_self

/-- One more element is the last with the property, or leaves the last where it
is. -/
theorem isLast_concat {a : α} :
    IsLast p (l ++ [a]) pre x post ↔
      (p a ∧ pre = l ∧ x = a ∧ post = []) ∨
        ¬p a ∧ ∃ between, post = between ++ [a] ∧ IsLast p l pre x between := by
  constructor
  · rintro ⟨heq, hx, hpost⟩
    rcases concat_eq_append_cons.1 heq with
      ⟨rfl, rfl, rfl⟩ | ⟨between, rfl, rfl⟩
    · exact .inl ⟨hx, rfl, rfl, rfl⟩
    · exact .inr ⟨hpost a (by simp), between, rfl, rfl, hx,
        fun y hy => hpost y (by simp [hy])⟩
  · rintro (⟨ha, rfl, rfl, rfl⟩ | ⟨ha, between, rfl, hlast⟩)
    · exact ⟨rfl, ha, by simp⟩
    · refine ⟨by rw [hlast.eq]; simp, hlast.holds, fun y hy => ?_⟩
      obtain hy | hy := List.mem_append.1 hy
      · exact hlast.notLater y hy
      · rwa [List.mem_singleton.1 hy]

theorem exists_isLast
    (h : ∃ a ∈ l, p a) : ∃ pre x post, IsLast p l pre x post := by
  induction l using List.reverseRecOn with
  | nil =>
      obtain ⟨a, ha, -⟩ := h
      cases ha
  | append_singleton rest a ih =>
      by_cases ha : p a
      · exact ⟨rest, a, [], isLast_concat.2 (.inl ⟨ha, rfl, rfl, rfl⟩)⟩
      · obtain ⟨b, hb, hpb⟩ := h
        obtain hb | hb := List.mem_append.1 hb
        · obtain ⟨pre, x, between, hlast⟩ := ih ⟨b, hb, hpb⟩
          exact ⟨pre, x, between ++ [a],
            isLast_concat.2 (.inr ⟨ha, between, rfl, hlast⟩)⟩
        · rw [List.mem_singleton.1 hb] at hpb
          exact absurd hpb ha

/-! ## A map filled element by element -/

section Filled

variable [DecidableEq κ] {ε : Type*} (key : α → κ) (value : α → Except ε β)

/-- Insert the value of each element at its key. -/
def fill (l : List α) : Except ε (Finmap fun _ : κ => β) :=
  l.foldlM (fun m a => (value a).map (m.insert (key a))) ∅

variable {key value}

theorem fill_concat {a : α} {m : Finmap fun _ : κ => β} :
    fill key value (l ++ [a]) = .ok m ↔
      ∃ m' b, fill key value l = .ok m' ∧ value a = .ok b ∧
        m = m'.insert (key a) b := by
  have hfold : fill key value (l ++ [a]) =
      fill key value l >>= fun m' => (value a).map (m'.insert (key a)) := by
    simp only [fill, List.foldlM_append, List.foldlM_cons,
      List.foldlM_nil, bind_pure]
  rw [hfold, bind_eq_ok]
  simp only [map_eq_ok]
  constructor
  · rintro ⟨m', hm', b, hb, rfl⟩
    exact ⟨m', b, hm', hb, rfl⟩
  · rintro ⟨m', b, hm', hb, rfl⟩
    exact ⟨m', hm', b, hb, rfl⟩

theorem lookup_fill {m : Finmap fun _ : κ => β}
    (h : fill key value l = .ok m) {k : κ}
    {b : β} :
    m.lookup k = some b ↔
      ∃ pre x post, IsLast (fun a => key a = k) l pre x post ∧
        value x = .ok b := by
  induction l using List.reverseRecOn generalizing m with
  | nil =>
      cases h
      refine ⟨fun hb => ?_, fun ⟨pre, x, post, hlast, _⟩ => ?_⟩
      · cases hb
      · cases hlast.mem
  | append_singleton rest a ih =>
      obtain ⟨m', c, hm', hc, rfl⟩ := fill_concat.1 h
      by_cases hk : key a = k
      · subst hk
        rw [Finmap.lookup_insert]
        constructor
        · rintro ⟨⟩
          exact ⟨rest, a, [], isLast_concat.2 (.inl ⟨rfl, rfl, rfl, rfl⟩), hc⟩
        · rintro ⟨pre, x, post, hlast, hx⟩
          obtain ⟨-, -, rfl, -⟩ | ⟨hne, -⟩ := isLast_concat.1 hlast
          · rw [hc] at hx
            cases hx
            rfl
          · exact absurd rfl hne
      · rw [Finmap.lookup_insert_of_ne _ (Ne.symm hk), ih hm']
        constructor
        · rintro ⟨pre, x, between, hlast, hx⟩
          exact ⟨pre, x, between ++ [a],
            isLast_concat.2 (.inr ⟨hk, between, rfl, hlast⟩),
            hx⟩
        · rintro ⟨pre, x, post, hlast, hx⟩
          obtain ⟨ha, -⟩ | ⟨-, between, -, hlast⟩ := isLast_concat.1 hlast
          · exact absurd ha hk
          · exact ⟨pre, x, between, hlast, hx⟩

theorem exists_value_of_fill {m : Finmap fun _ : κ => β}
    (h : fill key value l = .ok m)
    {a : α} (ha : a ∈ l) : ∃ b, value a = .ok b := by
  induction l using List.reverseRecOn generalizing m with
  | nil => cases ha
  | append_singleton rest last ih =>
      obtain ⟨m', b, hm', hb, -⟩ := fill_concat.1 h
      obtain ha | ha := List.mem_append.1 ha
      · exact ih hm' ha
      · rw [List.mem_singleton.1 ha]
        exact ⟨b, hb⟩

end Filled

/-! ## Places overwritten by steps -/

section Steps

variable (R : α → σ → σ → Prop)

/-- The states that a list of steps connects. -/
def Steps : List α → σ → σ → Prop
  | [], s, s' => s = s'
  | a :: rest, s, s' => ∃ mid, R a s mid ∧ Steps rest mid s'

variable {R}

theorem steps_append {l' : List α} {s s' : σ} :
    Steps R (l ++ l') s s' ↔ ∃ mid, Steps R l s mid ∧ Steps R l' mid s' := by
  induction l generalizing s with
  | nil => simp [Steps]
  | cons a rest ih =>
      simp only [List.cons_append, Steps, ih]
      constructor
      · rintro ⟨mid, ha, mid', hrest, hl'⟩
        exact ⟨mid', ⟨mid, ha, hrest⟩, hl'⟩
      · rintro ⟨mid', ⟨mid, ha, hrest⟩, hl'⟩
        exact ⟨mid, ha, mid', hrest, hl'⟩

end Steps

section Places

variable {R : α → (ι → β) → (ι → β) → Prop} {places : α → List ι}

/-- Steps leave a place alone that none of them writes to. -/
theorem Steps.frame
    (hframe : ∀ a c c' i, R a c c' → i ∉ places a → c' i = c i)
    {c c' : ι → β} (h : Steps R l c c') {i : ι} (hi : ∀ a ∈ l, i ∉ places a) :
    c' i = c i := by
  induction l generalizing c with
  | nil => rw [show c = c' from h]
  | cons a rest ih =>
      obtain ⟨mid, ha, hrest⟩ := h
      rw [ih hrest fun b hb => hi b (List.mem_cons_of_mem _ hb),
        hframe a c mid i ha (hi a List.mem_cons_self)]

/-- The last step that writes to a place decides what it holds. -/
theorem Steps.at_last
    (hframe : ∀ a c c' i, R a c c' → i ∉ places a → c' i = c i)
    {c c' : ι → β} (h : Steps R l c c') {i : ι}
    (hlast : IsLast (fun a => i ∈ places a) l pre x post) :
    ∃ before after, Steps R pre c before ∧ R x before after ∧
      c' i = after i := by
  rw [hlast.eq, steps_append] at h
  obtain ⟨before, hpre, after, hx, hpost⟩ := h
  exact ⟨before, after, hpre, hx, hpost.frame hframe hlast.notLater⟩

end Places

end CodeRs
