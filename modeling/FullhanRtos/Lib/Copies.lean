import Mathlib.Data.List.Basic
import Mathlib.Logic.Function.Basic
import Mathlib.Tactic.Common

/-!
# Sequences of copies

Assignments between two arrays that do not overlap, made in order: what an element of the target
is once they are made.
-/

namespace Copies

variable {α : Type*} {src src' dst : Nat → α} {l l' : List (Nat × Nat)} {p s : Nat}

/-- The target after the copies; a copy is its target and its source. -/
def run (src dst : Nat → α) (l : List (Nat × Nat)) : Nat → α :=
  l.foldl (fun dst c => Function.update dst c.1 (src c.2)) dst

theorem run_cons (src dst : Nat → α) (c : Nat × Nat) (l : List (Nat × Nat)) :
    run src dst (c :: l) = run src (Function.update dst c.1 (src c.2)) l := rfl

theorem run_congr_source (h : ∀ c ∈ l, src c.2 = src' c.2) : run src dst l = run src' dst l := by
  induction l generalizing dst with
  | nil => rfl
  | cons c l ih =>
    rw [run_cons, run_cons, h c List.mem_cons_self]
    exact ih fun c' hc' => h c' (List.mem_cons_of_mem c hc')

end Copies
