import CodeRs.Lib.Keyed
import Mathlib.Data.List.Perm.Basic

/-!
# Tickets that are redeemed once

Somebody asks for something and gets a ticket; whoever comes with the ticket
later redeems it with an answer, or it is cancelled.  A table holds the tickets
that are waiting.  What was issued, redeemed and cancelled is the history of
the table, and the two balance: every ticket is in one place.  So no ticket is
redeemed twice, and none is redeemed for somebody else than it was issued to.
-/

namespace CodeRs

/-- What has become of the tickets of a table. -/
structure Tickets (κ ω α : Type) where
  issued : List (κ × ω) := []
  redeemed : List ((κ × ω) × α) := []
  cancelled : List (κ × ω) := []

namespace Tickets

variable {κ ω α : Type}

def issue (t : Tickets κ ω α) (ticket : κ × ω) : Tickets κ ω α :=
  { t with issued := ticket :: t.issued }

def redeem (t : Tickets κ ω α) (ticket : κ × ω) (answer : α) : Tickets κ ω α :=
  { t with redeemed := (ticket, answer) :: t.redeemed }

def cancel (t : Tickets κ ω α) (tickets : List (κ × ω)) : Tickets κ ω α :=
  { t with cancelled := tickets ++ t.cancelled }

/-- The tickets that wait, and those that do not wait any more, are the ones
issued, and no two of these have one number. -/
structure Balanced (t : Tickets κ ω α) (waiting : List (κ × ω)) : Prop where
  nodup : (t.issued.map Prod.fst).Nodup
  balance : t.issued.Perm (waiting ++ (t.redeemed.map Prod.fst ++ t.cancelled))

variable {t : Tickets κ ω α} {waiting : List (κ × ω)}
    {ticket : κ × ω} {answer : α}

theorem balanced_empty : Balanced ({} : Tickets κ ω α) [] :=
  ⟨List.nodup_nil, .nil⟩

/-! ## What the balance says -/

theorem Balanced.nodup_all (h : t.Balanced waiting) :
    (waiting.map Prod.fst ++ ((t.redeemed.map Prod.fst).map Prod.fst ++
      t.cancelled.map Prod.fst)).Nodup := by
  have hperm := h.balance.map Prod.fst
  rw [List.map_append, List.map_append] at hperm
  exact hperm.nodup_iff.1 h.nodup

theorem Balanced.mem_issued (h : t.Balanced waiting) :
    ticket ∈ t.issued ↔
      ticket ∈ waiting ∨ (∃ answer, (ticket, answer) ∈ t.redeemed) ∨
        ticket ∈ t.cancelled := by
  rw [h.balance.mem_iff, List.mem_append, List.mem_append, List.mem_map]
  simp

theorem Balanced.nodup_redeemed (h : t.Balanced waiting) :
    (t.redeemed.map fun entry => entry.1.1).Nodup := by
  have hall := h.nodup_all
  rw [List.map_map] at hall
  exact (List.nodup_append.1 (List.nodup_append.1 hall).2.1).1

/-- Of the tickets of one kind, as many were redeemed as do not wait and were
not cancelled. -/
theorem Balanced.countP_issued (h : t.Balanced waiting) (p : κ × ω → Bool) :
    t.issued.countP p =
      waiting.countP p +
        (t.redeemed.countP (fun entry => p entry.1) +
          t.cancelled.countP p) := by
  rw [h.balance.countP_eq, List.countP_append, List.countP_append,
    List.countP_map]
  rfl

/-! ## What happens at the table -/

theorem Balanced.issue (h : t.Balanced waiting)
    (hfresh : ticket.1 ∉ t.issued.map Prod.fst) :
    (t.issue ticket).Balanced (ticket :: waiting) where
  nodup := List.nodup_cons.2 ⟨hfresh, h.nodup⟩
  balance := h.balance.cons ticket

theorem Balanced.congr {other : List (κ × ω)} (h : t.Balanced waiting)
    (hperm : waiting.Perm other) : t.Balanced other :=
  ⟨h.nodup, h.balance.trans (hperm.append_right _)⟩

theorem Balanced.redeem (h : t.Balanced (ticket :: waiting)) (answer : α) :
    (t.redeem ticket answer).Balanced waiting where
  nodup := h.nodup
  balance := h.balance.trans List.perm_middle.symm

theorem Balanced.cancel {tickets : List (κ × ω)}
    (h : t.Balanced (waiting ++ tickets)) :
    (t.cancel tickets).Balanced waiting := by
  refine ⟨h.nodup, h.balance.trans ?_⟩
  rw [List.append_assoc]
  refine List.Perm.append_left waiting ?_
  rw [← List.append_assoc]
  refine (List.perm_append_comm.append_right _).trans ?_
  rw [List.append_assoc]
  exact .rfl

end Tickets

end CodeRs
