import CodeRs.Lib.Lists
import Mathlib.Data.List.Induction
import Mathlib.Data.List.Nodup
import Mathlib.Data.List.Perm.Basic

/-!
# Names with a substitute

Things get names one after another.  Each of them asks for its first name and,
if that is used already, for its second one.  If both are used, it gets none.
-/

namespace CodeRs.Naming

section Claims

variable {τ ν : Type*} (first second : τ → ν)

/-- A name that one of the things asks for. -/
inductive Claimed : List τ → ν → Prop
  | first {ts t} (h : t ∈ ts) : Claimed ts (first t)
  | second {before t after} (h : Claimed before (first t)) :
      Claimed (before ++ t :: after) (second t)

variable {first second}

theorem Claimed.append {ts : List τ} {n : ν} (h : Claimed first second ts n)
    (ts' : List τ) :
    Claimed first second (ts ++ ts') n := by
  cases h with
  | first h => exact .first (List.mem_append_left _ h)
  | @second before t after h =>
      rw [List.append_assoc, List.cons_append]
      exact .second h

/-- The names that are asked for with one more thing. -/
theorem claimed_concat {ts : List τ} {t : τ} {n : ν} :
    Claimed first second (ts ++ [t]) n ↔
      Claimed first second ts n ∨ n = first t ∨
        n = second t ∧ Claimed first second ts (first t) := by
  constructor
  · intro h
    generalize hts : ts ++ [t] = all at h
    cases h with
    | @first _ u hu =>
        rw [← hts, List.mem_append, List.mem_singleton] at hu
        rcases hu with hu | rfl
        · exact .inl (.first hu)
        · exact .inr (.inl rfl)
    | @second before u after h =>
        rcases concat_eq_append_cons.1 hts with
          ⟨rfl, rfl, rfl⟩ | ⟨between, rfl, rfl⟩
        · exact .inr (.inr ⟨rfl, h⟩)
        · exact .inl (.second h)
  · rintro (h | rfl | ⟨rfl, h⟩)
    · exact h.append [t]
    · exact .first (List.mem_append_right _ (List.mem_singleton_self t))
    · exact .second h

end Claims

variable {τ ν : Type*} [DecidableEq ν] (first second : τ → ν)

/-- The name that a thing gets when some names are used. -/
def name? (used : List ν) (t : τ) : Option ν :=
  if first t ∈ used then if second t ∈ used then none else some (second
    t) else some (first t)

/-- The names that things get one after another. -/
def assign (ts : List τ) : List (ν × τ) :=
  ts.foldl (fun named t =>
    named ++ ((name? first second (named.map (·.1)) t).map (·, t)).toList) []

variable {first second} {used : List ν} {ts : List τ} {t : τ} {n : ν}

theorem name?_eq_some :
    name? first second used t = some n ↔
      (first t ∉ used ∧ n = first t) ∨
        (first t ∈ used ∧ second t ∉ used ∧ n = second t) := by
  rw [name?]
  split
  next hfirst =>
    split
    next hsecond => simp [hfirst, hsecond]
    next hsecond => simp [hfirst, hsecond, eq_comm]
  next hfirst => simp [hfirst, eq_comm]

theorem name?_eq_none :
    name? first second used t = none ↔ first t ∈ used ∧ second t ∈ used := by
  rw [name?]
  split
  next hfirst =>
    split
    next hsecond => simp [hfirst, hsecond]
    next hsecond => simp [hfirst, hsecond]
  next hfirst => simp [hfirst]

theorem assign_concat (ts : List τ) (t : τ) :
    assign first second (ts ++ [t]) =
      assign first second ts ++
        ((name? first second ((assign first second ts).map (·.1)) t).map (·,
          t)).toList :=
  List.foldl_concat ..

theorem mem_assign_concat {ts : List τ} {t : τ} {e : ν × τ} :
    e ∈ assign first second (ts ++ [t]) ↔
      e ∈ assign first second ts ∨
        name?
          first second ((assign first second ts).map
            (·.1)) t = some e.1 ∧ e.2 = t := by
  rw [assign_concat, List.mem_append, Option.mem_toList, Option.map_eq_some_iff]
  refine or_congr_right ⟨?_, ?_⟩
  · rintro ⟨n, hn, rfl⟩
    exact ⟨hn, rfl⟩
  · rintro ⟨hn, rfl⟩
    exact ⟨e.1, hn, rfl⟩

/-! ## Who gets a name -/

/-- Only things get names, and only those that they ask for. -/
theorem of_mem_assign {ts : List τ} {n : ν} {t : τ}
    (h : (n, t) ∈ assign first second ts) :
    t ∈ ts ∧ (n = first t ∨ n = second t) := by
  induction ts using List.reverseRecOn with
  | nil => cases h
  | append_singleton ts u ih =>
      rcases mem_assign_concat.1 h with hbefore | ⟨hname, rfl⟩
      · exact ⟨List.mem_append_left _ (ih hbefore).1, (ih hbefore).2⟩
      · refine ⟨List.mem_append_right _ (List.mem_singleton_self _), ?_⟩
        rcases name?_eq_some.1 hname with ⟨-, hn⟩ | ⟨-, -, hn⟩
        · exact .inl hn
        · exact .inr hn

/-- No name is given twice. -/
theorem nodup_assign (ts : List τ) :
    ((assign first second ts).map (·.1)).Nodup := by
  induction ts using List.reverseRecOn with
  | nil => exact List.nodup_nil
  | append_singleton ts t ih =>
      rw [assign_concat]
      cases hname : name?
        first second ((assign first second ts).map (·.1)) t with
      | none => simpa using ih
      | some n =>
          have hfresh : n ∉ (assign first second ts).map (·.1) := by
            rcases name?_eq_some.1 hname with ⟨hn, rfl⟩ | ⟨-, hn, rfl⟩
            · exact hn
            · exact hn
          rw [List.map_append, List.nodup_append]
          refine ⟨ih, List.pairwise_singleton _ _, ?_⟩
          rintro m hm _ hn rfl
          rw [Option.map_some, Option.toList_some, List.map_singleton,
            List.mem_singleton] at hn
          subst hn
          exact hfresh hm

/-- Different things get different names. -/
theorem assign_unique_thing {ts : List τ} {n : ν} {t u : τ}
    (ht : (n, t) ∈ assign first second ts)
    (hu : (n, u) ∈ assign first second ts) : t = u :=
  congrArg Prod.snd (List.inj_on_of_nodup_map (nodup_assign ts) ht hu rfl)

theorem assign_unique_name {ts : List τ} (hnodup : ts.Nodup) {n m : ν} {t : τ}
    (hn : (n, t) ∈ assign first second ts)
    (hm : (m, t) ∈ assign first second ts) : n = m := by
  induction ts using List.reverseRecOn with
  | nil => cases hn
  | append_singleton ts u ih =>
      obtain ⟨hts, -, hdisjoint⟩ := List.nodup_append.1 hnodup
      have hnot {k : ν} : (k, u) ∉ assign first second ts := fun hk =>
        hdisjoint u (of_mem_assign hk).1 u (List.mem_singleton_self u) rfl
      rcases mem_assign_concat.1 hn with hn' | ⟨hn', hu⟩
      · rcases mem_assign_concat.1 hm with hm' | ⟨-, hu⟩
        · exact ih hts hn' hm'
        · cases hu
          exact absurd hn' hnot
      · cases hu
        rcases mem_assign_concat.1 hm with hm' | ⟨hm', -⟩
        · exact absurd hm' hnot
        · exact Option.some.inj (hn'.symm.trans hm')

/-! ## Which names are used -/

/-- The names that are used are those that are asked for. -/
theorem mem_assign_keys {ts : List τ} {n : ν} :
    n ∈ (assign first second ts).map (·.1) ↔ Claimed first second ts n := by
  induction ts using List.reverseRecOn generalizing n with
  | nil =>
      constructor
      · intro h
        cases h
      · intro h
        generalize hts : ([] : List τ) = all at h
        cases h with
        | first h =>
            rw [← hts] at h
            cases h
        | second h => exact absurd hts.symm (by simp)
  | append_singleton ts t ih =>
      rw [assign_concat, List.map_append, List.mem_append, claimed_concat, ih]
      by_cases hfirst : first t ∈ (assign first second ts).map (·.1)
      · have hclaimed := ih.1 hfirst
        by_cases hsecond : second t ∈ (assign first second ts).map (·.1)
        · rw [name?_eq_none.2 ⟨hfirst, hsecond⟩]
          constructor
          · rintro (h | h)
            · exact .inl h
            · cases h
          · rintro (h | rfl | ⟨rfl, -⟩)
            · exact .inl h
            · exact .inl hclaimed
            · exact .inl (ih.1 hsecond)
        · rw [name?_eq_some.2 (.inr ⟨hfirst, hsecond, rfl⟩)]
          constructor
          · rintro (h | h)
            · exact .inl h
            · exact .inr (.inr ⟨List.mem_singleton.1 h, hclaimed⟩)
          · rintro (h | rfl | ⟨rfl, -⟩)
            · exact .inl h
            · exact .inl hclaimed
            · exact .inr (List.mem_singleton_self _)
      · rw [name?_eq_some.2 (.inl ⟨hfirst, rfl⟩)]
        constructor
        · rintro (h | h)
          · exact .inl h
          · exact .inr (.inl (List.mem_singleton.1 h))
        · rintro (h | rfl | ⟨-, hclaimed⟩)
          · exact .inl h
          · exact .inr (List.mem_singleton_self _)
          · exact absurd (ih.2 hclaimed) hfirst

/-- A thing for which both names are used already. -/
def Blocked (first second : τ → ν) (ts : List τ) : Prop :=
  ∃ before t after, ts = before ++ t :: after ∧
    Claimed
      first second before (first t) ∧ Claimed first second before (second t)

/-- What the earlier things got stays. -/
theorem mem_assign_append {ts : List τ} {e : ν × τ}
    (h : e ∈ assign first second ts)
    (ts' : List τ) : e ∈ assign first second (ts ++ ts') := by
  induction ts' using List.reverseRecOn with
  | nil => rwa [List.append_nil]
  | append_singleton ts' t ih =>
      rw [← List.append_assoc]
      exact mem_assign_concat.2 (.inl ih)

/-- What later things get is not for the earlier ones. -/
theorem mem_assign_of_append {ts ts' : List τ} {n : ν} {t : τ} (hnot : t ∉ ts')
    (h : (n, t) ∈ assign first second (ts ++ ts')) :
    (n, t) ∈ assign first second ts := by
  induction ts' using List.reverseRecOn with
  | nil => rwa [List.append_nil] at h
  | append_singleton ts' u ih =>
      rw [← List.append_assoc] at h
      rw [List.mem_append, List.mem_singleton, not_or] at hnot
      rcases mem_assign_concat.1 h with h | ⟨-, hu⟩
      · exact ih hnot.1 h
      · exact absurd hu hnot.2

/-- Everything gets a name exactly if nothing is blocked. -/
theorem forall_mem_assign_iff {ts : List τ} (hnodup : ts.Nodup) :
    (∀ t ∈ ts, ∃ n, (n, t) ∈ assign first second ts) ↔
      ¬ Blocked first second ts := by
  constructor
  · rintro h ⟨before, t, after, rfl, hfirst, hsecond⟩
    obtain ⟨hbefore, hafter, hdisjoint⟩ := List.nodup_append.1 hnodup
    obtain ⟨n, hn⟩ := h t (List.mem_append_right _ (List.mem_cons_self ..))
    rw [← List.singleton_append, ← List.append_assoc] at hn
    rcases mem_assign_concat.1 (mem_assign_of_append
      (List.nodup_cons.1 hafter).1 hn) with
      hearlier | ⟨hname, -⟩
    · exact hdisjoint t (of_mem_assign hearlier).1 t (List.mem_cons_self ..) rfl
    · rw [name?_eq_none.2 ⟨mem_assign_keys.2 hfirst,
        mem_assign_keys.2 hsecond⟩] at hname
      cases hname
  · intro hfree t ht
    obtain ⟨before, after, rfl⟩ := List.append_of_mem ht
    cases hname : name?
      first second ((assign first second before).map (·.1)) t with
    | none =>
        obtain ⟨hfirst, hsecond⟩ := name?_eq_none.1 hname
        exact absurd ⟨before, t, after, rfl, mem_assign_keys.1 hfirst,
          mem_assign_keys.1 hsecond⟩ hfree
    | some n =>
        refine ⟨n, ?_⟩
        rw [← List.singleton_append, ← List.append_assoc]
        exact mem_assign_append (mem_assign_concat.2 (.inr ⟨hname, rfl⟩)) after

/-! ## The order -/

/-- If no two things ask for the same first name, everything gets its first
name. -/
theorem mem_assign_of_nodup_first {ts : List τ} (h : (ts.map first).Nodup)
    {n : ν} {t : τ} :
    (n, t) ∈ assign first second ts ↔ t ∈ ts ∧ n = first t := by
  induction ts using List.reverseRecOn generalizing n t with
  | nil => exact ⟨fun hmem => (by cases hmem), fun hmem => (by cases hmem.1)⟩
  | append_singleton ts u ih =>
      rw [List.map_append, List.map_singleton, List.nodup_append] at h
      obtain ⟨hts, -, hdisjoint⟩ := h
      have hfree : first u ∉ (assign first second ts).map (·.1) := by
        intro hmem
        obtain ⟨⟨m, v⟩, hv, hm⟩ := List.mem_map.1 hmem
        obtain ⟨hvts, hmv⟩ := (ih hts).1 hv
        exact hdisjoint (first v) (List.mem_map_of_mem hvts) (first u)
          (List.mem_singleton_self _) (hmv.symm.trans hm)
      rw [mem_assign_concat, ih hts, name?_eq_some.2 (.inl ⟨hfree, rfl⟩),
        Option.some.injEq,
        List.mem_append, List.mem_singleton]
      constructor
      · rintro (⟨hmem, hn⟩ | ⟨hn, hu⟩)
        · exact ⟨.inl hmem, hn⟩
        · cases hu
          exact ⟨.inr rfl, hn.symm⟩
      · rintro ⟨hmem | rfl, rfl⟩
        · exact .inl ⟨hmem, rfl⟩
        · exact .inr ⟨rfl, rfl⟩

/-- What comes first gets its first name. -/
theorem head_mem_assign (t : τ) (ts : List τ) :
    (first t, t) ∈ assign first second (t :: ts) := by
  have hname : name? first second [] t = some (first t) :=
    name?_eq_some.2 (.inl ⟨List.not_mem_nil, rfl⟩)
  have halone : (first t, t) ∈ assign first second ([] ++ [t]) :=
    mem_assign_concat.2 (.inr ⟨hname, rfl⟩)
  exact mem_assign_append halone ts

/-- The names do not depend on the order exactly if no two things ask for the
same first name. -/
theorem assign_perm_iff {ts : List τ} (hnodup : ts.Nodup) :
    (∀ ps qs : List τ, ps.Perm ts → qs.Perm ts →
      ∀ e, e ∈ assign first second ps ↔ e ∈ assign first second qs) ↔
        (ts.map first).Nodup := by
  constructor
  · intro h
    refine (List.nodup_map_iff_inj_on hnodup).2 fun t ht u hu hfirst => ?_
    obtain ⟨before, after, hts⟩ := List.append_of_mem ht
    obtain ⟨before', after', hts'⟩ := List.append_of_mem hu
    have hps : (t :: (before ++ after)).Perm ts := hts ▸ List.perm_middle.symm
    have hqs : (u :: (before' ++ after')).Perm ts :=
      hts' ▸ List.perm_middle.symm
    have ht' := (h _ _ hps hqs _).1 (head_mem_assign t _)
    rw [hfirst] at ht'
    exact assign_unique_thing ht' (head_mem_assign u _)
  · rintro h ps qs hps hqs ⟨n, t⟩
    rw [mem_assign_of_nodup_first ((hps.map first).nodup_iff.2 h),
      mem_assign_of_nodup_first ((hqs.map first).nodup_iff.2 h),
      hps.mem_iff, hqs.mem_iff]

end CodeRs.Naming
