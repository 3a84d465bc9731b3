import Mathlib.Logic.Basic

/-!
# Programs that keep their state when they fail

A program changes a state and returns a value or an error; the changes made
before an error stay.  First, what it takes for a plain result to be a value;
last, triples with one postcondition for values and one for errors.
-/

namespace CodeRs

/-! ## Results -/

section Results

universe u v w

variable {ε : Type u} {α β : Type v}

theorem bind_eq_ok {x : Except ε α} {f : α → Except ε β} {b : β} :
    (x >>= f) = .ok b ↔ ∃ a, x = .ok a ∧ f a = .ok b := by
  cases x <;> simp [bind, Except.bind]

theorem map_eq_ok {γ : Type w} {x : Except ε α} {f : α → γ} {b : γ} :
    x.map f = .ok b ↔ ∃ a, x = .ok a ∧ f a = b := by
  cases x <;> simp [Except.map]

theorem mapError_eq_ok {ε' : Type u} {x : Except ε α} {f : ε → ε'} {a : α} :
    x.mapError f = .ok a ↔ x = .ok a := by
  cases x with
  | error e => exact ⟨fun h => (by cases h), fun h => (by cases h)⟩
  | ok b =>
      change (Except.ok b : Except ε' α) = .ok a ↔ _
      rw [Except.ok.injEq, Except.ok.injEq]

/-- A computation fails with an error only if one of its parts does. -/
theorem bind_ne_error {x : Except ε α} {f : α → Except ε β} {e : ε}
    (hx : x ≠ .error e)
    (hf : ∀ a, x = .ok a → f a ≠ .error e) : (x >>= f) ≠ .error e := by
  cases x with
  | error e' => exact fun h => hx (congrArg Except.error (Except.error.inj h))
  | ok a => exact hf a rfl

end Results

/-! ## Programs -/

/-- A program over the state `σ` with errors in `ε`. -/
abbrev Program (σ ε α : Type) := ExceptT ε (StateM σ) α

namespace Program

variable {σ ε α β : Type}

/-- The result of a program and the state it leaves. -/
def exec (p : Program σ ε α) (s : σ) : Except ε α × σ := p.run.run s

/-- An operation that changes nothing when it fails. -/
def update (op : σ → Except ε σ) : Program σ ε Unit := fun s =>
  match op s with
  | .ok s' => (.ok (), s')
  | .error e => (.error e, s)

/-- An operation that only reads. -/
def query (op : σ → Except ε α) : Program σ ε α := fun s => (op s, s)

@[simp] theorem exec_pure (a : α) (s : σ) :
    exec (pure a : Program σ ε α) s = (.ok a, s) := rfl

theorem exec_bind_ok {p : Program σ ε α} {f : α → Program σ ε β}
    {s s' : σ} {b : β} :
    exec (p >>= f) s = (.ok b, s') ↔
      ∃ a mid, exec p s = (.ok a, mid) ∧ exec (f a) mid = (.ok b, s') := by
  have hbind : exec (p >>= f) s =
      match exec p s with
      | (.ok a, mid) => exec (f a) mid
      | (.error e, mid) => (.error e, mid) := by
    change (match exec p s with
      | (a, mid) => exec (ExceptT.bindCont f a : ExceptT ε (StateM σ) β) mid) =
        _
    cases hp : exec p s with
    | mk result mid => cases result <;> rfl
  rw [hbind]
  cases hp : exec p s with
  | mk result mid =>
      cases result with
      | error e => simp
      | ok a =>
          constructor
          · exact fun h => ⟨a, mid, rfl, h⟩
          · rintro ⟨_, _, heq, h⟩
            cases heq
            exact h

theorem exec_bind_error {p : Program σ ε α} {f : α → Program σ ε β}
    {s s' : σ} {e : ε}
    (h : exec p s = (.error e, s')) : exec (p >>= f) s = (.error e, s') := by
  change (match exec p s with
    | (a, mid) => exec (ExceptT.bindCont f a : ExceptT ε (StateM σ) β) mid) = _
  rw [h]
  rfl

theorem exec_bind_of_ok {p : Program σ ε α} {f : α → Program σ ε β}
    {s s' : σ} {a : α}
    (h : exec p s = (.ok a, s')) : exec (p >>= f) s = exec (f a) s' := by
  change (match exec p s with
    | (a, mid) => exec (ExceptT.bindCont f a : ExceptT ε (StateM σ) β) mid) = _
  rw [h]
  rfl

theorem exec_update_ok {op : σ → Except ε σ} {s s' : σ} {u : Unit} :
    exec (update op) s = (.ok u, s') ↔ op s = .ok s' := by
  change (match op s with
    | .ok s' => (.ok (), s')
    | .error e => (.error e, s) : Except ε Unit × σ) = (.ok u, s') ↔ _
  cases hop : op s <;> simp

theorem exec_query_ok {op : σ → Except ε α} {s s' : σ} {a : α} :
    exec (query op) s = (.ok a, s') ↔ op s = .ok a ∧ s = s' :=
  Prod.mk.injEq _ _ _ _ ▸ Iff.rfl

/-! ## Triples -/

/-- The value comes with `Q`, the error with `E`. -/
def EndsIn (Q : α → σ → Prop) (E : ε → σ → Prop) : Except ε α × σ → Prop
  | (.ok a, s) => Q a s
  | (.error e, s) => E e s

/-- From every state with `P` the program ends with `Q` or fails with `E`. -/
def Triple (P : σ → Prop) (p : Program σ ε α) (Q : α → σ → Prop)
    (E : ε → σ → Prop) : Prop :=
  ∀ s, P s → EndsIn Q E (exec p s)

namespace Triple

variable {P P' : σ → Prop} {Q Q' : α → σ → Prop} {E E' : ε → σ → Prop}

theorem of_pure {a : α} (h : ∀ s, P s → Q a s) :
    Triple P (pure a : Program σ ε α) Q E := h

theorem of_throw {e : ε} (h : ∀ s, P s → E e s) :
    Triple P (throw e : Program σ ε α) Q E := h

theorem of_modify {f : σ → σ} {Q : Unit → σ → Prop}
    (h : ∀ s, P s → Q () (f s)) :
    Triple P (modify f : Program σ ε Unit) Q E := h

theorem of_get {Q : σ → σ → Prop} (h : ∀ s, P s → Q s s) :
    Triple P (get : Program σ ε σ) Q E := h

theorem mono {p : Program σ ε α} (h : Triple P p Q E) (hP : ∀ s, P' s → P s)
    (hQ : ∀ a s, Q a s → Q' a s)
    (hE : ∀ e s, E e s → E' e s) : Triple P' p Q' E' := by
  intro s hs
  have hend := h s (hP s hs)
  revert hend
  generalize exec p s = result
  obtain ⟨value | value, s'⟩ := result
  · exact hE value s'
  · exact hQ value s'

theorem bind {p : Program σ ε α} {f : α → Program σ ε β} {R : β → σ → Prop}
    (hp : Triple P p Q E)
    (hf : ∀ a, Triple (Q a) (f a) R E) : Triple P (p >>= f) R E := by
  intro s hs
  have hend := hp s hs
  cases hrun : exec p s with
  | mk result s' =>
      rw [hrun] at hend
      cases result with
      | error e =>
          rw [exec_bind_error hrun]
          exact hend
      | ok a =>
          rw [exec_bind_of_ok hrun]
          exact hf a s' hend

/-- A loop over a list keeps an invariant that speaks of the elements that were
visited. -/
theorem forM {γ : Type} {body : γ → Program σ ε PUnit} {I : List γ → σ → Prop}
    (all : List γ)
    (hbody : ∀ visited c rest, visited ++ c :: rest = all →
      Triple (I visited) (body c) (fun _ => I (visited ++ [c])) E) :
    Triple (I []) (all.forM body) (fun _ => I all) E := by
  have hrest : ∀ visited rest, visited ++ rest = all →
      Triple (I visited) (rest.forM body) (fun _ => I all) E := by
    intro visited rest
    induction rest generalizing visited with
    | nil =>
        intro h
        rw [← h, List.append_nil]
        exact of_pure fun _ hs => hs
    | cons c rest ih =>
        intro h
        refine bind (hbody visited c rest h) fun _ => ih _ ?_
        rw [← h, List.append_assoc, List.singleton_append]
  exact hrest [] all rfl

end Triple

end Program

end CodeRs
