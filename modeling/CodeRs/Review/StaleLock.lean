import CodeRs.Review.Lock

/-!
# Clearing the file that was read

The process that `clear_stale_lock_if_dead` finds dead is the creator of the
file it read. So a removal is harmless if the file at the path is still that
one.  The invariant says what a process knows between the steps of its calls;
files are told apart by their inodes, and a new file has a new inode.
-/

namespace CodeRs.Review

namespace Coord

/-- The process at `i` has the pid, whether it runs or not. -/
def HasPid (s : Coord) (i pid : Nat) : Prop :=
  ∃ q, s.procs[i]? = some q ∧ q.pid = pid

/-- The process at `i` has ended. -/
def Ended (s : Coord) (i : Nat) : Prop :=
  ∃ q, s.procs[i]? = some q ∧ q.status ≠ .running

/-- If the file with the inode is still at the path, its creator has the
property. -/
def IfStill (s : Coord) (inode : Nat) (P : Nat → Prop) : Prop :=
  inode < s.nextInode ∧ ∀ f, s.lock = some f → f.inode = inode → P f.creator

/-- What the process at `i` knows at a point of a call. -/
def Knows (s : Coord) (i : Nat) : Pc → Prop
  | .idle => True
  | .hasRead inode info => s.IfStill inode fun c => s.HasPid c info.pid
  | .foundDead inode => s.IfStill inode s.Ended
  | .created inode _ => s.IfStill inode fun c => c = i

/-- Every process knows what its place in a call says, and the body of the lock
file names its creator. -/
structure Informed (s : Coord) : Prop where
  fresh : ∀ f, s.lock = some f → f.inode < s.nextInode
  body : ∀ f info, s.lock = some f → f.body = some info →
    s.HasPid f.creator info.pid
  knows : ∀ (i : Nat) (p : Proc), s.procs[i]? = some p → s.Knows i p.pc

/-- The lock file to be removed as stale is the one that was read, if there is
one. -/
def Unreplaced (s : Coord) : Event → Prop
  | .run i (.removeStale _) =>
  ∀ p inode, s.procs[i]? = some p → p.pc = .foundDead inode →
      ∀ f, s.lock = some f → f.inode = inode
  | _ => True

theorem Ended.creatorRuns {s : Coord} {f : LockFile} (h : s.Ended f.creator)
    (hlock : s.lock = some f) : s.creatorRuns = false := by
  obtain ⟨q, hq, hdead⟩ := h
  simp [Coord.creatorRuns, hlock, hq, hdead]

/-- In an informed state, removing the file that was read spares running
processes. -/
theorem Informed.spares {s : Coord} (h : s.Informed) {e : Event}
    (hun : s.Unreplaced e) :
    s.Spares e := by
  intro hremoves
  cases hlock : s.lock with
  | none => simp [creatorRuns, hlock]
  | some f =>
      cases e with
      | run i a =>
          cases a with
          | removeStale ok =>
              cases hp : s.procs[i]? with
              | none => simp [removesStale, hp] at hremoves
              | some p =>
                  cases hpc : p.pc with
                  | foundDead inode =>
                      have hinode := hun p inode hp hpc f hlock
                      have hknows := h.knows i p hp
                      rw [hpc] at hknows
                      exact (hknows.2 f hlock hinode).creatorRuns hlock
                  | _ =>
                      simp [removesStale, hp, hpc, Pc.isFoundDead] at hremoves
          | _ => cases hremoves
      | _ => cases hremoves

/-! ## What survives a step -/

/-- A later state: nobody changes his pid or comes back, and a file at the path
is new or was there. -/
structure Later (s s' : Coord) : Prop where
  inode : s.nextInode ≤ s'.nextInode
  lock : ∀ f', s'.lock = some f' → s.nextInode ≤ f'.inode ∨
    ∃ f, s.lock = some f ∧ f.inode = f'.inode ∧ f.creator = f'.creator
  hasPid : ∀ i pid, s.HasPid i pid → s'.HasPid i pid
  ended : ∀ i, s.Ended i → s'.Ended i

theorem IfStill.later {s s' : Coord} (h : s.Later s') {inode : Nat}
    {P Q : Nat → Prop}
    (hPQ : ∀ c, P c → Q c) (hP : s.IfStill inode P) : s'.IfStill inode Q := by
  obtain ⟨hlt, hP⟩ := hP
  refine ⟨Nat.lt_of_lt_of_le hlt h.inode, ?_⟩
  intro f' hf' hinode
  rcases h.lock f' hf' with hnew | ⟨f, hf, hsame, hcreator⟩
  · omega
  · rw [← hcreator]
    exact hPQ _ (hP f hf (hsame.trans hinode))

/-- What a process knows stays true. -/
theorem Knows.later {s s' : Coord} (h : s.Later s') {i : Nat} {pc : Pc}
    (hknows : s.Knows i pc) : s'.Knows i pc := by
  cases pc with
  | idle => trivial
  | hasRead inode info =>
      exact IfStill.later h (fun c => h.hasPid c info.pid) hknows
  | foundDead inode => exact IfStill.later h h.ended hknows
  | created inode intent =>
      have hcreator : s.IfStill inode fun c => c = i := hknows
      exact hcreator.later h fun _ hc => hc

theorem Later.refl (s : Coord) : s.Later s :=
  ⟨Nat.le_refl _, fun f' hf' => .inr ⟨f', hf', rfl, rfl⟩,
    fun _ _ h => h, fun _ h => h⟩

theorem Later.trans {s t u : Coord} (h : s.Later t) (h' : t.Later u) :
    s.Later u where
  inode := Nat.le_trans h.inode h'.inode
  lock := by
    intro f' hf'
    rcases h'.lock f' hf' with hnew | ⟨f, hf, hinode, hcreator⟩
    · exact .inl (Nat.le_trans h.inode hnew)
    · rw [← hinode, ← hcreator]
      exact h.lock f hf
  hasPid i pid hs := h'.hasPid i pid (h.hasPid i pid hs)
  ended i hs := h'.ended i (h.ended i hs)

theorem Later.setProc {s : Coord} {i : Nat} {p p' : Proc}
    (hp : s.procs[i]? = some p)
    (hpid : p'.pid = p.pid)
    (hstatus : p.status ≠ .running → p'.status ≠ .running) :
    s.Later (s.setProc i p') where
  inode := Nat.le_refl _
  lock f' hf' := .inr ⟨f', hf', rfl, rfl⟩
  hasPid := by
    rintro j pid ⟨q, hq, hqpid⟩
    by_cases hji : j = i
    · subst hji
      cases hp.symm.trans hq
      exact ⟨p', getElem?_setProc hp p', hpid.trans hqpid⟩
    · exact ⟨q, by rw [← hq]; exact List.getElem?_set_ne (Ne.symm hji), hqpid⟩
  ended := by
    rintro j ⟨q, hq, hdead⟩
    by_cases hji : j = i
    · subst hji
      cases hp.symm.trans hq
      exact ⟨p', getElem?_setProc hp p', hstatus hdead⟩
    · exact ⟨q, by rw [← hq]; exact List.getElem?_set_ne (Ne.symm hji), hdead⟩

theorem Later.removeFile (s : Coord) (ok : Bool) :
    s.Later (s.removeFile ok) := by
  cases ok with
  | false => exact Later.refl s
  | true => exact ⟨Nat.le_refl _, by rintro f' ⟨⟩, fun _ _ h => h, fun _ h => h⟩

theorem Later.createNew (s : Coord) (i : Nat) : s.Later (s.createNew i) where
  inode := Nat.le_succ _
  lock := by
    rintro f' ⟨⟩
    exact .inl (Nat.le_refl _)
  hasPid _ _ h := h
  ended _ h := h

theorem Later.writeBody (s : Coord) (inode : Nat) (info : ReviewLockInfo) :
    s.Later (s.writeBody inode info) where
  inode := Nat.le_refl _
  lock := by
    intro f' hf'
    obtain ⟨f, hf, rfl⟩ := Option.map_eq_some_iff.1 hf'
    refine .inr ⟨f, hf, ?_⟩
    split <;> exact ⟨rfl, rfl⟩
  hasPid _ _ h := h
  ended _ h := h

theorem Later.spawn (s : Coord) (q : Proc) :
    s.Later { s with procs := s.procs ++ [q] } where
  inode := Nat.le_refl _
  lock f' hf' := .inr ⟨f', hf', rfl, rfl⟩
  hasPid := by
    rintro j pid ⟨p, hp, hpid⟩
    have hlt : j < s.procs.length := (List.getElem?_eq_some_iff.1 hp).1
    exact ⟨p, (List.getElem?_append_left hlt).trans hp, hpid⟩
  ended := by
    rintro j ⟨p, hp, hdead⟩
    have hlt : j < s.procs.length := (List.getElem?_eq_some_iff.1 hp).1
    exact ⟨p, (List.getElem?_append_left hlt).trans hp, hdead⟩

/-! ## Each step keeps processes informed -/

variable {s : Coord} {i : Nat} {p : Proc}

/-- A process may go to a place where it knows what that place says. -/
theorem Informed.setProc (h : s.Informed)
    (hp : s.procs[i]? = some p) {p' : Proc}
    (hpid : p'.pid = p.pid)
    (hstatus : p.status ≠ .running → p'.status ≠ .running)
    (hknows : s.Knows i p'.pc) : (s.setProc i p').Informed := by
  have hlater := Later.setProc hp hpid hstatus
  refine ⟨h.fresh, ?_, ?_⟩
  · intro f info hf hbody
    exact hlater.hasPid _ _ (h.body f info hf hbody)
  · intro j q hq
    by_cases hji : j = i
    · subst hji
      cases (getElem?_setProc hp p').symm.trans hq
      exact hknows.later hlater
    · have hold : s.procs[j]? = some q := by
        rw [← hq]
        exact (List.getElem?_set_ne (Ne.symm hji)).symm
      exact (h.knows j q hold).later hlater

/-- A process that is back between two calls knows nothing. -/
theorem Informed.setProc_idle (h : s.Informed) (hp : s.procs[i]? = some p)
    (guards : Nat) :
    (s.setProc i { p with pc := .idle, guards }).Informed :=
  h.setProc hp rfl (fun hdead => hdead) trivial

theorem Informed.removeFile (h : s.Informed) (ok : Bool) :
    (s.removeFile ok).Informed := by
  cases ok with
  | false => exact h
  | true =>
      refine ⟨by rintro f ⟨⟩, by rintro f info ⟨⟩, ?_⟩
      intro j q hq
      exact (h.knows j q hq).later (Later.removeFile s true)

theorem Informed.createNew (h : s.Informed) (i : Nat) :
    (s.createNew i).Informed := by
  refine ⟨?_, ?_, ?_⟩
  · rintro f ⟨⟩
    exact Nat.lt_succ_self _
  · rintro f info ⟨⟩ hbody
    cases hbody
  · intro j q hq
    exact (h.knows j q hq).later (Later.createNew s i)

/-- Only the creator of a file writes to it, so the body names him. -/
theorem Informed.writeBody (h : s.Informed) {inode : Nat}
    {info : ReviewLockInfo}
    (hinfo : s.IfStill inode fun c => s.HasPid c info.pid) :
    (s.writeBody inode info).Informed := by
  have hlater := Later.writeBody s inode info
  refine ⟨?_, ?_, ?_⟩
  · intro f' hf'
    obtain ⟨f, hf, rfl⟩ := Option.map_eq_some_iff.1 hf'
    split <;> exact h.fresh f hf
  · intro f' info' hf' hbody
    obtain ⟨f, hf, rfl⟩ := Option.map_eq_some_iff.1 hf'
    split at hbody
    next hinode =>
      cases hbody
      rw [if_pos hinode]
      exact hinfo.2 f hf hinode
    next hinode =>
      rw [if_neg hinode]
      exact h.body f info' hf hbody
  · intro j q hq
    exact (h.knows j q hq).later hlater

theorem Informed.readLockInfo (h : s.Informed) (hp : s.procs[i]? = some p) :
    (s.runProc i p .readLockInfo).Informed := by
  simp only [Coord.runProc]
  split
  next inode creator info hpc hlock =>
    refine h.setProc hp rfl (fun hdead => hdead) ⟨h.fresh _ hlock, ?_⟩
    intro f hf _
    cases hlock.symm.trans hf
    exact h.body _ info hlock rfl
  next => exact h

/-- Nobody that has not been collected has the pid, so the creator has ended. -/
theorem Informed.checkPid (h : s.Informed) (hp : s.procs[i]? = some p) :
    (s.runProc i p .checkPid).Informed := by
  simp only [Coord.runProc]
  split
  next inode info hpc =>
    split
    next => exact h.setProc_idle hp p.guards
    next hdead =>
      have hknows := h.knows i p hp
      rw [hpc] at hknows
      refine h.setProc hp rfl (fun hdead => hdead) ⟨hknows.1, ?_⟩
      intro f hf hinode
      obtain ⟨q, hq, hpid⟩ := hknows.2 f hf hinode
      refine ⟨q, hq, ?_⟩
      intro hrun
      apply hdead
      simp only [Coord.pidAlive, List.any_eq_true, decide_eq_true_eq]
      exact ⟨q, List.mem_of_getElem? hq, hpid, by rw [hrun]; decide⟩
  next => exact h

theorem Informed.writeInfo (h : s.Informed) (hp : s.procs[i]? = some p)
    (startedAt : Nat)
    (gitHead : Option Text) (snapshotEpoch : Nat) (ok : Bool) :
    (s.runProc i p
      (.writeInfo startedAt gitHead snapshotEpoch ok)).Informed := by
  simp only [Coord.runProc]
  split
  next inode intent hpc =>
    have hknows := h.knows i p hp
    rw [hpc] at hknows
    cases ok with
    | false => exact h.setProc_idle hp _
    | true =>
        have hinfo : s.IfStill inode fun c => s.HasPid c p.pid := by
          refine ⟨hknows.1, fun f hf hinode => ⟨p, ?_, rfl⟩⟩
          rw [show f.creator = i from hknows.2 f hf hinode]
          exact hp
        exact (h.writeBody hinfo).setProc_idle hp _
  next => exact h

theorem Informed.runProc (h : s.Informed) (hp : s.procs[i]? = some p)
    (a : Action) :
    (s.runProc i p a).Informed := by
  have hremoved : ∀ ok, (s.removeFile ok).procs[i]? = some p := by
    intro ok
    cases ok <;> exact hp
  cases a with
  | readLockInfo => exact h.readLockInfo hp
  | checkPid => exact h.checkPid hp
  | removeStale ok =>
      simp only [Coord.runProc]
      split
      next => exact (h.removeFile ok).setProc_idle (hremoved ok) p.guards
      next => exact h
  | createNew intent =>
      simp only [Coord.runProc]
      split
      next hpc hlock =>
        refine (h.createNew i).setProc hp rfl (fun hdead => hdead)
          ⟨Nat.lt_succ_self _, ?_⟩
        rintro f ⟨⟩ _
        rfl
      next => exact h
  | writeInfo startedAt gitHead snapshotEpoch ok =>
      exact h.writeInfo hp startedAt gitHead snapshotEpoch ok
  | dropGuard ok =>
      simp only [Coord.runProc]
      split
      next hpc =>
        split
        · refine (h.removeFile ok).setProc (hremoved ok) rfl
            (fun hdead => hdead) ?_
          rw [hpc]
          trivial
        · exact h
      next => exact h

theorem Informed.next (h : s.Informed) (e : Event) : (s.next e).Informed := by
  have hends : ∀ {i p} (status : Status), s.procs[i]? = some p →
      status ≠ .running →
      (s.setProc i { p with status }).Informed := fun status hp hdead =>
    h.setProc hp rfl (fun _ => hdead) (h.knows _ _ hp :)
  cases e with
  | spawn pid =>
      simp only [Coord.next]
      split
      · exact h
      · have hlater := Later.spawn s ⟨pid, .running, .idle, 0⟩
        refine ⟨h.fresh,
          fun f info hf hbody => hlater.hasPid _ _ (h.body f info hf hbody), ?_⟩
        intro j q hq
        by_cases hlt : j < s.procs.length
        · rw [List.getElem?_append_left hlt] at hq
          exact (h.knows j q hq).later hlater
        · rw [List.getElem?_append_right (Nat.le_of_not_lt hlt)] at hq
          obtain rfl := List.mem_singleton.1 (List.mem_of_getElem? hq)
          trivial
  | crash i =>
      cases hp : s.procs[i]? with
      | none => simpa only [Coord.next, hp] using h
      | some p =>
          simp only [Coord.next, hp]
          split
          · exact hends .zombie hp (by decide)
          · exact h
  | reap i =>
      cases hp : s.procs[i]? with
      | none => simpa only [Coord.next, hp] using h
      | some p =>
          simp only [Coord.next, hp]
          split
          · exact hends .gone hp (by decide)
          · exact h
  | run i a =>
      cases hp : s.procs[i]? with
      | none => simpa only [Coord.next, hp] using h
      | some p =>
          simp only [Coord.next, hp]
          split
          · exact h.runProc hp a
          · exact h

theorem informed_init : Coord.init.Informed :=
  ⟨by rintro f ⟨⟩, by rintro f info ⟨⟩, fun i p hp => by cases i <;> cases hp⟩

/-- A run that removes only lock files that were read spares running
processes. -/
theorem along_spares_of_unreplaced {events : List Event}
    (h : Along Coord.next Unreplaced Coord.init events) :
    Along Coord.next Spares Coord.init events := by
  suffices ∀ s : Coord, s.Informed → Along Coord.next Unreplaced s events →
      Along Coord.next Spares s events from this _ informed_init h
  clear h
  induction events with
  | nil => exact fun _ _ _ => trivial
  | cons e rest ih =>
      intro s hs h
      exact ⟨hs.spares h.1, ih _ (hs.next e) h.2⟩

end Coord

/-- While every removal of a stale lock hits the file that was read, or none,
at most one live process holds a guard. -/
theorem exclusive_of_unreplaced {events : List Event}
    (h : Along Coord.next Coord.Unreplaced Coord.init events) :
    Throughout Coord.next Exclusive Coord.init events := by
  have howned := owned_of_spares (Coord.along_spares_of_unreplaced h)
  exact howned.mono fun s hs => exclusive_of_owned hs

end CodeRs.Review
