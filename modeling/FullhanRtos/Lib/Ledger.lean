import Mathlib.Data.List.Count
import Mathlib.Tactic.Common
import Mathlib.Order.Basic

/-!
# Blocks that a call requests and frees

The requests for memory are numbered, and `room` says which of them succeed; the number of a request
is the block that it returns. `Owes` says which of the blocks since a start are still to be freed: a
call that ends with none of them has freed each of its blocks once.
-/

namespace Ledgers

open List

/-- The number of the next request, and the blocks that were freed. -/
structure Ledger where
  requests : Nat
  freed : List Nat

variable {room : Nat → Bool} {first p : Nat} {l : Ledger} {kept : List Nat}

/-- What a request returns. -/
def malloc (room : Nat → Bool) (l : Ledger) : Option Nat × Ledger :=
  (if room l.requests then some l.requests else none, { l with requests := l.requests + 1 })

/-- Nothing is done for `NULL`. -/
def free : Option Nat → Ledger → Ledger
  | none, l => l
  | some p, l => { l with freed := p :: l.freed }

/-- Of the blocks returned since the request `first`, those in `kept` are not freed, each of the
others is freed once. -/
structure Owes (room : Nat → Bool) (first : Nat) (l : Ledger) (kept : List Nat) : Prop where
  first_le : first ≤ l.requests
  once : ∀ p, first ≤ p →
    l.freed.count p + kept.count p = if p < l.requests ∧ room p = true then 1 else 0

theorem owes_start (room : Nat → Bool) (first : Nat) : Owes room first ⟨first, []⟩ [] := by
  refine ⟨Nat.le_refl first, fun p hp => ?_⟩
  rw [if_neg fun h => absurd hp (Nat.not_le_of_lt h.1)]
  rfl

/-- A block that was returned is owed. -/
theorem Owes.malloc (h : Owes room first l kept) :
    Owes room first (malloc room l).2 ((malloc room l).1.toList ++ kept) := by
  refine ⟨Nat.le_succ_of_le h.first_le, fun p hp => ?_⟩
  have honce := h.once p hp
  have hcount : ((Ledgers.malloc room l).1.toList ++ kept).count p =
      (if p = l.requests ∧ room p = true then 1 else 0) + kept.count p := by
    unfold Ledgers.malloc
    by_cases hroom : room l.requests = true
    · rw [if_pos hroom, count_append, Option.toList_some, count_singleton]
      by_cases heq : p = l.requests
      · subst heq
        simp [hroom]
      · simp [heq, Ne.symm heq]
    · rw [if_neg hroom, if_neg]
      · simp
      · rintro ⟨rfl, hpos⟩
        exact hroom hpos
  have hfreed : (Ledgers.malloc room l).2.freed = l.freed := rfl
  have hrequests : (Ledgers.malloc room l).2.requests = l.requests + 1 := rfl
  rw [hcount, hfreed, hrequests]
  by_cases hroom : room p = true
  · simp only [hroom, and_true] at honce ⊢
    split_ifs at honce ⊢ <;> omega
  · simp only [hroom, and_false, if_false, Bool.false_eq_true] at honce ⊢
    omega

theorem Owes.free (h : Owes room first l (p :: kept)) : Owes room first (free (some p) l) kept := by
  refine ⟨h.first_le, fun q hq => ?_⟩
  have honce := h.once q hq
  rw [count_cons] at honce
  refine Eq.trans ?_ honce
  show (p :: l.freed).count q + kept.count q = _
  rw [count_cons]
  omega

/-- A block from before the start does not count. -/
theorem Owes.free_earlier (h : Owes room first l kept) (hp : p < first) :
    Owes room first (Ledgers.free (some p) l) kept := by
  refine ⟨h.first_le, fun q hq => ?_⟩
  have hne : p ≠ q := Nat.ne_of_lt (Nat.lt_of_lt_of_le hp hq)
  refine Eq.trans ?_ (h.once q hq)
  show (p :: l.freed).count q + kept.count q = _
  rw [count_cons_of_ne hne]

theorem Owes.perm {others : List Nat} (h : Owes room first l kept) (hperm : kept.Perm others) :
    Owes room first l others :=
  ⟨h.first_le, fun p hp => by rw [← hperm.count_eq]; exact h.once p hp⟩

end Ledgers
