import FullhanRtos.Lib.Bytes
import FullhanRtos.Lib.Word

/-!
# Output through a pointer

A sink stores bytes one after another through a 32-bit pointer. Each byte has a limit: it is stored
where the pointer is below it, and the pointer goes on in any case, also over the top of the address
space.
-/

namespace Output

open Bytes Word List

/-- The pointer, and what has been stored where, the latest first. -/
structure Sink where
  ptr : Nat
  writes : List (Nat × Byte)
  deriving DecidableEq

def Sink.put (s : Sink) (lim : Nat) (c : Byte) : Sink where
  ptr := add32 s.ptr 1
  writes := if s.ptr < lim then (s.ptr, c) :: s.writes else s.writes

/-- Bytes with one limit for all of them. -/
def Sink.puts (s : Sink) (lim : Nat) (cs : List Byte) : Sink :=
  cs.foldl (fun s c => s.put lim c) s

def Sink.run (s : Sink) (es : List (Nat × Byte)) : Sink := es.foldl (fun s e => s.put e.1 e.2) s

variable {s : Sink} {lim a i : Nat} {cs cs' : List Byte} {es es' : List (Nat × Byte)}
  {e w : Nat × Byte}

theorem puts_append : s.puts lim (cs ++ cs') = (s.puts lim cs).puts lim cs' := foldl_append

theorem puts_eq_run : s.puts lim cs = s.run (cs.map (Prod.mk lim)) := by
  rw [Sink.run, foldl_map]
  rfl

theorem run_append : s.run (es ++ es') = (s.run es).run es' := foldl_append

theorem run_cons : s.run (e :: es) = (s.put e.1 e.2).run es := rfl

theorem run_ptr (hs : s.ptr < 2 ^ 32) (es : List (Nat × Byte)) :
    (s.run es).ptr = add32 s.ptr es.length := by
  induction es generalizing s with
  | nil => exact (add32_eq (show s.ptr + 0 < 2 ^ 32 from hs)).symm
  | cons e es ih =>
    have hnext : (s.put e.1 e.2).ptr < 2 ^ 32 := Nat.mod_lt _ (by omega)
    rw [run_cons, ih hnext, length_cons, add_comm]
    exact add32_assoc _ _ _

/-- What a run stores: every byte whose place is below its limit. -/
theorem mem_run (hs : s.ptr < 2 ^ 32) :
    w ∈ (s.run es).writes ↔ w ∈ s.writes ∨
      ∃ i e, es[i]? = some e ∧ add32 s.ptr i < e.1 ∧ w = (add32 s.ptr i, e.2) := by
  induction es generalizing s with
  | nil =>
    constructor
    · exact Or.inl
    · rintro (h | ⟨i, e, he, -⟩)
      · exact h
      · exact absurd he nofun
  | cons e es ih =>
    have hnext : (s.put e.1 e.2).ptr < 2 ^ 32 := Nat.mod_lt _ (by omega)
    have hplace : ∀ i, add32 (s.put e.1 e.2).ptr i = add32 s.ptr (i + 1) := fun i => by
      rw [add_comm i 1]
      exact add32_assoc _ _ _
    have hzero : add32 s.ptr 0 = s.ptr := add32_eq hs
    have hput : w ∈ (s.put e.1 e.2).writes ↔
        w ∈ s.writes ∨ s.ptr < e.1 ∧ w = (s.ptr, e.2) := by
      show w ∈ (if s.ptr < e.1 then (s.ptr, e.2) :: s.writes else s.writes) ↔ _
      by_cases hlt : s.ptr < e.1
      · rw [if_pos hlt, mem_cons, or_comm]
        exact or_congr_right (and_iff_right hlt).symm
      · rw [if_neg hlt]
        exact (or_iff_left fun h => hlt h.1).symm
    rw [run_cons, ih hnext, hput, or_assoc]
    refine or_congr_right ⟨?_, ?_⟩
    · rintro (⟨hlt, rfl⟩ | ⟨i, e', he, hlt, rfl⟩)
      · exact ⟨0, e, rfl, by rw [hzero]; exact hlt, by rw [hzero]⟩
      · exact ⟨i + 1, e', he, by rw [← hplace]; exact hlt, by rw [hplace]⟩
    · rintro ⟨i, e', he, hlt, rfl⟩
      cases i with
      | zero =>
        obtain rfl : e = e' := Option.some.inj he
        rw [hzero] at hlt ⊢
        exact Or.inl ⟨hlt, rfl⟩
      | succ i => exact Or.inr ⟨i, e', he, by rw [hplace]; exact hlt, by rw [hplace]⟩

/-- Where a run does not come by, it stores nothing. -/
theorem lookup_run_other (hroom : s.ptr + es.length ≤ 2 ^ 32)
    (ha : a < s.ptr ∨ s.ptr + es.length ≤ a) :
    (s.run es).writes.lookup a = s.writes.lookup a := by
  induction es generalizing s with
  | nil => rfl
  | cons e es ih =>
    rw [length_cons] at hroom ha
    have hptr : (s.put e.1 e.2).ptr = (s.ptr + 1) % 2 ^ 32 := rfl
    have hne : a ≠ s.ptr := by omega
    have hput : (s.put e.1 e.2).writes.lookup a = s.writes.lookup a := by
      show (if s.ptr < e.1 then (s.ptr, e.2) :: s.writes else s.writes).lookup a = _
      split
      · rw [lookup_cons, beq_false_of_ne hne]
      · rfl
    rw [run_cons, ih (by omega) (by omega), hput]

/-- A byte below its limit is found where the pointer was. -/
theorem lookup_run (hroom : s.ptr + es.length ≤ 2 ^ 32) (he : es[i]? = some e)
    (hlt : s.ptr + i < e.1) : (s.run es).writes.lookup (s.ptr + i) = some e.2 := by
  induction es generalizing s i with
  | nil => exact absurd he nofun
  | cons e' es ih =>
    rw [length_cons] at hroom
    have hptr : (s.put e'.1 e'.2).ptr = (s.ptr + 1) % 2 ^ 32 := rfl
    cases i with
    | zero =>
      obtain rfl : e' = e := Option.some.inj he
      rw [run_cons, lookup_run_other (by omega) (by omega)]
      show (if s.ptr < e'.1 then (s.ptr, e'.2) :: s.writes else s.writes).lookup s.ptr = _
      rw [if_pos (show s.ptr < e'.1 from hlt)]
      exact lookup_cons_self
    | succ i =>
      have hi : i < es.length := Nat.lt_of_succ_lt_succ (List.getElem?_eq_some_iff.mp he).1
      have hnext : (s.put e'.1 e'.2).ptr = s.ptr + 1 := by omega
      have hrest := ih (by omega) he (show (s.put e'.1 e'.2).ptr + i < e.1 by omega)
      rw [hnext] at hrest
      rw [run_cons, add_comm i 1, ← add_assoc]
      exact hrest

end Output
