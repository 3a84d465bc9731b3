import CodeRs.Lib.Debts
import CodeRs.Lib.Runs
import CodeRs.Lib.Text

/-!
# The review lock file and its holder

Processes of one machine share a lock file.  `try_acquire_lock` creates it and
then writes who holds it, `clear_stale_lock_if_dead` reads it, looks for the
recorded process and removes it, and dropping the guard removes it.  Each call
is cut into the steps that another process can come between.  Files are removed
by their path, so a step removes whatever file is there at that moment.
-/

namespace CodeRs.Review

/-- What a holder writes into the lock file. -/
structure ReviewLockInfo where
  pid : Nat
  startedAt : Nat
  intent : Text
  gitHead : Option Text
  snapshotEpoch : Nat
deriving DecidableEq, Repr

/-- A lock file.  The body is missing until it has been written whole; a
shorter text is not a JSON object. -/
structure LockFile where
  inode : Nat
  /-- The process that created the file, by its place in the process table. -/
  creator : Nat
  body : Option ReviewLockInfo
deriving DecidableEq, Repr

/-- Where a process is in the calls. -/
inductive Pc
  /-- Between two calls. -/
  | idle
  /-- `clear_stale_lock_if_dead` has read the file. -/
  | hasRead (inode : Nat) (info : ReviewLockInfo)
  /-- `clear_stale_lock_if_dead` has found no process with the recorded pid. -/
  | foundDead (inode : Nat)
  /-- `try_acquire_lock` has created the file and not written it. -/
  | created (inode : Nat) (intent : Text)
deriving DecidableEq, Repr

/-- A process that has ended keeps its pid until its parent has collected it. -/
inductive Status
  | running
  | zombie
  | gone
deriving DecidableEq, Repr

structure Proc where
  pid : Nat
  status : Status
  pc : Pc
  /-- The guards it has been given and has not dropped. -/
  guards : Nat
deriving DecidableEq, Repr

/-- The processes and the file at the lock path. -/
structure Coord where
  procs : List Proc
  lock : Option LockFile
  nextInode : Nat
deriving DecidableEq, Repr

/-- No process and no lock file. -/
def Coord.init : Coord := ⟨[], none, 0⟩

/-- The steps of the calls.  A flag says whether the file operation succeeds. -/
inductive Action
  /-- The first step of `clear_stale_lock_if_dead`. -/
  | readLockInfo
  | checkPid
  | removeStale (ok : Bool)
  /-- The first step of `try_acquire_lock`. -/
  | createNew (intent : Text)
  | writeInfo (startedAt : Nat) (gitHead : Option Text) (snapshotEpoch :
    Nat) (ok : Bool)
  | dropGuard (ok : Bool)
deriving DecidableEq, Repr

/-- A process starts, ends, is collected, or takes a step of a call. -/
inductive Event
  | spawn (pid : Nat)
  | crash (i : Nat)
  | reap (i : Nat)
  | run (i : Nat) (a : Action)
deriving DecidableEq, Repr

namespace Coord

/-- `kill(pid, 0)` fails with `ESRCH` only if no process has the pid. -/
def pidAlive (s : Coord) (pid : Nat) : Bool :=
  s.procs.any fun p => p.pid = pid ∧ p.status ≠ .gone

def setProc (s : Coord) (i : Nat) (p : Proc) : Coord :=
  { s with procs := s.procs.set i p }

/-- Remove the file at the lock path, if that succeeds. -/
def removeFile (s : Coord) (ok : Bool) : Coord :=
  if ok then { s with lock := none } else s

/-- Create the lock file, which must not exist, for the process at `i`. -/
def createNew (s : Coord) (i : Nat) : Coord :=
  { s with lock := some ⟨s.nextInode, i, none⟩, nextInode := s.nextInode + 1 }

/-- Write through an open file.  The file may have been removed from the path
since. -/
def writeBody (s : Coord) (inode : Nat) (info : ReviewLockInfo) : Coord :=
  { s with lock := s.lock.map fun f => if f.inode = inode then
    { f with body := some info } else f }

/-- A step of a call by the process `p` at `i`.  A step that does not come next
in the call it is in changes nothing. -/
def runProc (s : Coord) (i : Nat) (p : Proc) : Action → Coord
  | .readLockInfo =>
      match p.pc, s.lock with
      | .idle, some ⟨inode, _, some info⟩ =>
          s.setProc i { p with pc := .hasRead inode info }
      -- No file, or one that does not parse: the call returns `false`.
      | _, _ => s
  | .checkPid =>
      match p.pc with
      | .hasRead inode info =>
          if s.pidAlive info.pid then s.setProc i { p with pc := .idle }
          else s.setProc i { p with pc := .foundDead inode }
      | _ => s
  | .removeStale ok =>
      match p.pc with
      | .foundDead _ => (s.removeFile ok).setProc i { p with pc := .idle }
      | _ => s
  | .createNew intent =>
      match p.pc, s.lock with
      | .idle, none =>
          (s.createNew i).setProc i { p with pc := .created s.nextInode intent }
      -- `AlreadyExists`: the call returns no guard.
      | _, _ => s
  | .writeInfo startedAt gitHead snapshotEpoch ok =>
      match p.pc with
      | .created inode intent =>
          let info : ReviewLockInfo :=
            ⟨p.pid, startedAt, intent, gitHead, snapshotEpoch⟩
          -- The guard is returned also if the write has failed.
          (if ok then s.writeBody inode info else s).setProc i
            { p with pc := .idle, guards := p.guards + 1 }
      | _ => s
  | .dropGuard ok =>
      match p.pc with
      | .idle =>
          if 0 < p.guards then
            (s.removeFile ok).setProc i { p with guards := p.guards - 1 }
          else s
      | _ => s

/-- The next state of the machine. -/
def next (s : Coord) : Event → Coord
  | .spawn pid =>
      if s.pidAlive pid then s
      else { s with procs := s.procs ++ [⟨pid, .running, .idle, 0⟩] }
  | .crash i =>
      match s.procs[i]? with
      | some p =>
          if p.status = .running then
            s.setProc i { p with status := .zombie } else s
      | none => s
  | .reap i =>
      match s.procs[i]? with
      | some p =>
          if p.status = .zombie then
            s.setProc i { p with status := .gone } else s
      | none => s
  | .run i a =>
      match s.procs[i]? with
      | some p => if p.status = .running then s.runProc i p a else s
      | none => s

end Coord

def Proc.HoldsGuard (p : Proc) : Prop := p.status = .running ∧ 0 < p.guards

instance (p : Proc) : Decidable p.HoldsGuard :=
  inferInstanceAs (Decidable (p.status = .running ∧ 0 < p.guards))

/-- At most one live process holds a guard. -/
def Exclusive (s : Coord) : Prop :=
  ∀ (i j : Nat) (p q : Proc), s.procs[i]? = some p → s.procs[j]? = some q →
    p.HoldsGuard → q.HoldsGuard → i = j

end CodeRs.Review

/-! ## Who holds the review lock

The lock file is a token.  Its owner is the process that created it, and a
process has a claim on it for each guard and for the call that is about to
return one.  Every step is a step of the token, except that
`clear_stale_lock_if_dead` can remove the file of a process that is running:
between its check and its removal the stale file may have been removed and the
lock taken again. -/

namespace CodeRs.Review

/-- `clear_stale_lock_if_dead` is about to remove the file. -/
def Pc.isFoundDead : Pc → Bool
  | .foundDead _ => true
  | _ => false

/-- The guards of a process and the one that the call it is in will return. -/
def Proc.claims (p : Proc) : Nat :=
  if p.status = .running then
    match p.pc with
    | .created _ _ => p.guards + 1
    | _ => p.guards
  else 0

namespace Coord

def claims (s : Coord) (i : Nat) : Nat :=
  match s.procs[i]? with
  | some p => p.claims
  | none => 0

def owner (s : Coord) : Option Nat := s.lock.map LockFile.creator

/-- The file at the lock path was created by a process that is still running. -/
def creatorRuns (s : Coord) : Bool :=
  match s.lock with
  | none => false
  | some f => s.procs[f.creator]?.any fun p => p.status = .running

/-- The step is a removal by `clear_stale_lock_if_dead`. -/
def removesStale (s : Coord) : Event → Bool
  | .run i (.removeStale ok) =>
      ok && s.procs[i]?.any fun p =>
        p.status = .running ∧ p.pc.isFoundDead = true
  | _ => false

/-- A removal by `clear_stale_lock_if_dead` does not hit the file of a running
process. -/
def Spares (s : Coord) (e : Event) : Prop :=
  s.removesStale e = true → s.creatorRuns = false

instance (s : Coord) (e : Event) : Decidable (s.Spares e) :=
  inferInstanceAs (Decidable (s.removesStale e = true → s.creatorRuns = false))

/-! ## Claims and owner after a step -/

theorem claims_eq {s : Coord} {i : Nat} {p : Proc} (hp : s.procs[i]? = some p) :
    s.claims i = p.claims := by
  simp only [claims, hp]

theorem getElem?_setProc {s : Coord} {i : Nat} {p : Proc}
    (hp : s.procs[i]? = some p)
    (p' : Proc) : (s.setProc i p').procs[i]? = some p' := by
  have hlt : i < s.procs.length := (List.getElem?_eq_some_iff.1 hp).1
  simp [setProc, hlt]

theorem claims_setProc {s : Coord} {i : Nat} {p : Proc}
    (hp : s.procs[i]? = some p)
    (p' : Proc) : (s.setProc i p').claims i = p'.claims :=
  claims_eq (getElem?_setProc hp p')

theorem claims_setProc_ne (s : Coord) {i j : Nat} (h : j ≠ i) (p' : Proc) :
    (s.setProc i p').claims j = s.claims j := by
  simp only [claims, setProc, List.getElem?_set_ne (Ne.symm h)]

/-- A process that gets no claims leaves nobody with more claims. -/
theorem claims_setProc_le {s : Coord} {i : Nat} {p p' : Proc}
    (hp : s.procs[i]? = some p)
    (hle : p'.claims ≤ p.claims) (j : Nat) :
    (s.setProc i p').claims j ≤ s.claims j := by
  by_cases h : j = i
  · subst h
    rw [claims_setProc hp, claims_eq hp]
    exact hle
  · rw [claims_setProc_ne s h]

theorem owner_writeBody (s : Coord) (inode : Nat) (info : ReviewLockInfo) :
    (s.writeBody inode info).owner = s.owner := by
  cases h : s.lock with
  | none => simp [owner, writeBody, h]
  | some f =>
      by_cases hf : f.inode = inode
      · simp [owner, writeBody, h, hf]
      · simp [owner, writeBody, h, hf]

theorem claims_owner_eq_zero {s : Coord} (h : s.creatorRuns = false) (i : Nat)
    (howner : s.owner = some i) : s.claims i = 0 := by
  cases hlock : s.lock with
  | none => simp [owner, hlock] at howner
  | some f =>
      have hcreator : f.creator = i := by simpa [owner, hlock] using howner
      cases hp : s.procs[i]? with
      | none => simp [claims, hp]
      | some p =>
          have hdead : p.status ≠ .running := by
            simpa [creatorRuns, hlock, hcreator, hp] using h
          rw [claims_eq hp, Proc.claims, if_neg hdead]

/-- A change of one process that leaves the file and gives no claim. -/
theorem tokenStep_setProc {s : Coord} {i : Nat} {p p' : Proc}
    (hp : s.procs[i]? = some p)
    (hle : p'.claims ≤ p.claims) :
    TokenStep s.claims s.owner (s.setProc i p').claims (s.setProc i p').owner :=
  .keeps (claims_setProc_le hp hle)

theorem tokenStep_refl (s : Coord) :
    TokenStep s.claims s.owner s.claims s.owner :=
  .keeps fun _ => Nat.le_refl _

/-! ## Each step is a step of the token -/

variable {s : Coord} {i : Nat} {p : Proc}

theorem tokenStep_readLockInfo (hp : s.procs[i]? = some p) :
    TokenStep s.claims s.owner (s.runProc i p .readLockInfo).claims
      (s.runProc i p .readLockInfo).owner := by
  simp only [runProc]
  split
  next inode _ info hpc _ =>
    apply tokenStep_setProc hp
    simp [Proc.claims, hpc]
  next => exact tokenStep_refl s

theorem tokenStep_checkPid (hp : s.procs[i]? = some p) :
    TokenStep s.claims s.owner (s.runProc i p .checkPid).claims
      (s.runProc i p .checkPid).owner := by
  simp only [runProc]
  split
  next inode info hpc =>
    split
    · apply tokenStep_setProc hp
      simp [Proc.claims, hpc]
    · apply tokenStep_setProc hp
      simp [Proc.claims, hpc]
  next => exact tokenStep_refl s

/-- Only here the token can be taken away from another process. -/
theorem tokenStep_removeStale (hp : s.procs[i]? = some p)
    (hrun : p.status = .running)
    (ok : Bool) (hspares : s.Spares (.run i (.removeStale ok))) :
    TokenStep s.claims s.owner (s.runProc i p (.removeStale ok)).claims
      (s.runProc i p (.removeStale ok)).owner := by
  simp only [runProc]
  split
  next inode hpc =>
    have hle : ({ p with pc := .idle } : Proc).claims ≤ p.claims := by
      simp [Proc.claims, hpc]
    cases ok with
    | false => exact tokenStep_setProc hp hle
    | true =>
        have hcreator : s.creatorRuns = false := by
          apply hspares
          simp [removesStale, hp, hrun, hpc, Pc.isFoundDead]
        exact .clears (claims_setProc_le hp hle) (claims_owner_eq_zero hcreator)
  next => exact tokenStep_refl s

theorem tokenStep_createNew (hp : s.procs[i]? = some p)
    (hrun : p.status = .running)
    (intent : Text) :
    TokenStep s.claims s.owner (s.runProc i p (.createNew intent)).claims
      (s.runProc i p (.createNew intent)).owner := by
  simp only [runProc]
  split
  next hpc hlock =>
    refine .takes i (by simp [owner, hlock]) ?_ fun j hj =>
      claims_setProc_ne _ hj _
    rw [claims_setProc (s := s.createNew i) hp, claims_eq hp]
    simp [Proc.claims, hrun, hpc]
  next => exact tokenStep_refl s

/-- The claim of the call becomes the claim of the guard it returns. -/
theorem tokenStep_writeInfo (hp : s.procs[i]? = some p) (startedAt : Nat)
    (gitHead : Option Text) (snapshotEpoch : Nat) (ok : Bool) :
    TokenStep s.claims s.owner
      (s.runProc i p (.writeInfo startedAt gitHead snapshotEpoch ok)).claims
      (s.runProc i p
        (.writeInfo startedAt gitHead snapshotEpoch ok)).owner := by
  simp only [runProc]
  split
  next inode intent hpc =>
    have hle : ({ p with pc := .idle, guards := p.guards + 1 } : Proc).claims ≤
        p.claims := by
      simp [Proc.claims, hpc]
    cases ok with
    | false => exact tokenStep_setProc hp hle
    | true =>
        have howner := owner_writeBody s inode
          ⟨p.pid, startedAt, intent, gitHead, snapshotEpoch⟩
        refine howner ▸ ?_
        exact .keeps (claims_setProc_le hp hle)
  next => exact tokenStep_refl s

/-- A guard frees the token as it goes, whoever owns the file. -/
theorem tokenStep_dropGuard (hp : s.procs[i]? = some p)
    (hrun : p.status = .running)
    (ok : Bool) :
    TokenStep s.claims s.owner (s.runProc i p (.dropGuard ok)).claims
      (s.runProc i p (.dropGuard ok)).owner := by
  simp only [runProc]
  split
  next hpc =>
    split
    next hpos =>
      cases ok with
      | false =>
          apply tokenStep_setProc hp
          simp [Proc.claims, hrun, hpc]
      | true =>
          have hclaims : p.claims = p.guards := by simp [Proc.claims, hrun, hpc]
          refine .drops i (by rw [claims_eq hp, hclaims]; exact hpos) ?_
            fun j hj => claims_setProc_ne _ hj _
          rw [claims_setProc (s := s.removeFile true) hp, claims_eq hp, hclaims]
          simp [Proc.claims, hrun, hpc]
    next => exact tokenStep_refl s
  next => exact tokenStep_refl s

theorem tokenStep_runProc (hp : s.procs[i]? = some p)
    (hrun : p.status = .running)
    (a : Action) (hspares : s.Spares (.run i a)) :
    TokenStep s.claims s.owner (s.runProc i p a).claims
      (s.runProc i p a).owner := by
  cases a with
  | readLockInfo => exact tokenStep_readLockInfo hp
  | checkPid => exact tokenStep_checkPid hp
  | removeStale ok => exact tokenStep_removeStale hp hrun ok hspares
  | createNew intent => exact tokenStep_createNew hp hrun intent
  | writeInfo startedAt gitHead snapshotEpoch ok =>
      exact tokenStep_writeInfo hp startedAt gitHead snapshotEpoch ok
  | dropGuard ok => exact tokenStep_dropGuard hp hrun ok

theorem claims_spawn (s : Coord) (pid j : Nat) :
    ({ s with
      procs := s.procs ++ [⟨pid, .running, .idle, 0⟩] } : Coord).claims j =
      s.claims j := by
  rcases Nat.lt_trichotomy j s.procs.length with hlt | heq | hgt
  · simp [claims, List.getElem?_append_left hlt]
  · subst heq
    simp [claims, Proc.claims]
  · have hone : ¬ j - s.procs.length = 0 := by omega
    simp [claims, List.getElem?_append_right (Nat.le_of_lt hgt), hone,
      List.getElem?_eq_none (Nat.le_of_lt hgt)]

theorem claims_of_not_running {p : Proc} (h : p.status ≠ .running) :
    p.claims = 0 := by
  rw [Proc.claims, if_neg h]

theorem tokenStep_next (s : Coord) (e : Event) (hspares : s.Spares e) :
    TokenStep s.claims s.owner (s.next e).claims (s.next e).owner := by
  have hends : ∀ {i p} (status : Status), s.procs[i]? = some p →
      status ≠ .running →
      TokenStep s.claims s.owner (s.setProc i { p with status }).claims
        (s.setProc i { p with status }).owner := by
    intro i p status hp hdead
    apply tokenStep_setProc hp
    rw [claims_of_not_running (p := { p with status }) hdead]
    exact Nat.zero_le _
  cases e with
  | spawn pid =>
      simp only [next]
      split
      · exact tokenStep_refl s
      · exact .keeps fun j => Nat.le_of_eq (claims_spawn s pid j)
  | crash i =>
      cases hp : s.procs[i]? with
      | none => simpa only [next, hp] using tokenStep_refl s
      | some p =>
          simp only [next, hp]
          split
          · exact hends .zombie hp (by decide)
          · exact tokenStep_refl s
  | reap i =>
      cases hp : s.procs[i]? with
      | none => simpa only [next, hp] using tokenStep_refl s
      | some p =>
          simp only [next, hp]
          split
          · exact hends .gone hp (by decide)
          · exact tokenStep_refl s
  | run i a =>
      cases hp : s.procs[i]? with
      | none => simpa only [next, hp] using tokenStep_refl s
      | some p =>
          simp only [next, hp]
          split
          next hrun => exact tokenStep_runProc hp hrun a hspares
          next => exact tokenStep_refl s

end Coord

/-! ## Whole runs -/

theorem owned_init : Owned Coord.init.claims Coord.init.owner := by
  intro i hi
  simp [Coord.claims, Coord.init] at hi

theorem Proc.HoldsGuard.claims_pos {p : Proc} (h : p.HoldsGuard) :
    0 < p.claims := by
  obtain ⟨hrun, hpos⟩ := h
  rw [Proc.claims, if_pos hrun]
  cases p.pc with
  | created inode intent => exact Nat.succ_pos _
  | _ => exact hpos

theorem exclusive_of_owned {s : Coord} (h : Owned s.claims s.owner) :
    Exclusive s := by
  intro i j p q hp hq hpg hqg
  apply h.unique
  · rw [Coord.claims_eq hp]
    exact hpg.claims_pos
  · rw [Coord.claims_eq hq]
    exact hqg.claims_pos

theorem owned_of_spares {events : List Event}
    (h : Along Coord.next Coord.Spares Coord.init events) :
    Throughout Coord.next (fun s => Owned s.claims s.owner) Coord.init events :=
  h.throughout (fun s e hs hspares => (s.tokenStep_next e hspares).owned hs)
    owned_init

/-- While no removal of a stale lock hits the file of a running process, at
most one live process holds a guard. -/
theorem exclusive_of_spares (events : List Event)
    (h : Along Coord.next Coord.Spares Coord.init events) :
    Throughout Coord.next Exclusive Coord.init events :=
  (owned_of_spares h).mono fun _ hs => exclusive_of_owned hs

/-- What a process does to take the lock. -/
def acquire (i : Nat) : List Event :=
  [.run i (.createNew "review".toList), .run i (.writeInfo 1 none 0 true)]

/-- A holder crashes, and a second process clears its lock and takes it. -/
theorem exclusive_of_spares_takeover :
    Throughout Coord.next Exclusive Coord.init
      (.spawn 7 :: acquire 0 ++ [.crash 0, .reap 0, .spawn 8,
        .run 1 .readLockInfo,
        .run 1 .checkPid, .run 1 (.removeStale true)] ++ acquire 1) :=
  exclusive_of_spares _ (by decide)

/-- Two processes find the lock of a crashed holder stale.  One clears it and
takes the lock, then the other one removes the new file and takes the lock
too. -/
def doubleClear : List Event :=
  .spawn 7 :: acquire 0 ++ [.crash 0, .reap 0, .spawn 8, .spawn 9,
    .run 1 .readLockInfo, .run 1 .checkPid, .run 2 .readLockInfo,
    .run 2 .checkPid,
    .run 1 (.removeStale true)] ++ acquire 1 ++
    [.run 2 (.removeStale true)] ++ acquire 2

theorem doubleClear_not_exclusive :
    ¬ ∀ events : List Event,
      Throughout Coord.next Exclusive Coord.init events := by
  intro h
  have hlast : Exclusive (after Coord.next Coord.init doubleClear) :=
    (h doubleClear).after
  have hsame : (1 : Nat) = 2 := by
    apply hlast 1 2 ⟨8, .running, .idle, 1⟩ ⟨9, .running, .idle, 1⟩
    · decide
    · decide
    · decide
    · decide
  exact absurd hsame (by decide)

end CodeRs.Review
