import Mathlib.Data.List.Basic
import Mathlib.Tactic.Common

/-!
# Faulting array programs

A program over arrays of fixed size that stops at the first index outside of an array, or when its
fuel is used up. `Outcome` states under which conditions either happens.
-/

namespace Faults

open List

variable {α β : Type} {f : α → Except Fault β} {l : List α}

/-- How a run goes wrong: an index outside of an array, or no end. -/
inductive Fault where
  | outside
  | endless
deriving DecidableEq

/-- An index into an array of `size` entries. -/
def check (size i : Nat) : Except Fault Unit :=
  if i < size then .ok () else .error .outside

/-- An array element that is read. -/
def fetch (l : List α) (i : Nat) : Except Fault α :=
  match l[i]? with
  | some a => .ok a
  | none => .error .outside

/-- An array element that is written. -/
def store (l : List α) (i : Nat) (a : α) : Except Fault (List α) :=
  if i < l.length then .ok (l.set i a) else .error .outside

/-- The next element of an array of `size` entries. -/
def push (size : Nat) (l : List α) (a : α) : Except Fault (List α) :=
  if l.length < size then .ok (l ++ [a]) else .error .outside

theorem check_lt {size i : Nat} (h : i < size) : check size i = .ok () := if_pos h

theorem fetch_lt {i : Nat} (h : i < l.length) : fetch l i = .ok l[i] := by
  rw [fetch, getElem?_eq_getElem h]

theorem fetch_append (p s : List α) (x : α) : fetch (p ++ x :: s) p.length = .ok x := by
  rw [fetch, getElem?_append_right (Nat.le_refl _), Nat.sub_self, getElem?_cons_zero]

theorem store_append (p s : List α) (x a : α) :
    store (p ++ x :: s) p.length a = .ok (p ++ a :: s) := by
  rw [store, if_pos (by rw [length_append, length_cons]; omega),
    set_append_right _ _ (Nat.le_refl _), Nat.sub_self, set_cons_zero]

/-- A loop all of whose steps succeed. -/
theorem mapM_ok {g : α → β} (h : ∀ a ∈ l, f a = .ok (g a)) :
    l.mapM f = .ok (l.map g) := by
  induction l with
  | nil => rfl
  | cons a l ih =>
    rw [mapM_cons, h a mem_cons_self, ih fun b hb => h b (mem_cons_of_mem a hb)]
    rfl

/-- The run stays inside its arrays exactly if `fits`, it ends if `live`, and then with `P`. -/
def Outcome (live fits : Prop) (P : α → Prop) : Except Fault α → Prop
  | .ok a => fits ∧ P a
  | .error .endless => ¬ live
  | .error .outside => ¬ fits

variable {live fits first : Prop} {P : α → Prop} {Q : β → Prop} {m : Except Fault α}

theorem Outcome.bind (hm : Outcome live first P m) (hfirst : fits → first)
    (hf : ∀ a, first → P a → Outcome live fits Q (f a)) : Outcome live fits Q (m.bind f) := by
  match m, hm with
  | .ok a, h => exact hf a h.1 h.2
  | .error .endless, h => exact h
  | .error .outside, h => exact fun hfits => h (hfirst hfits)

theorem Outcome.map {f : α → β} (hm : Outcome live fits P m) (hf : ∀ a, P a → Q (f a)) :
    Outcome live fits Q (m.map f) := by
  match m, hm with
  | .ok a, h => exact ⟨h.1, hf a h.2⟩
  | .error .endless, h => exact h
  | .error .outside, h => exact h

/-- A run under stronger conditions. -/
theorem Outcome.weaken {live' : Prop} (hm : Outcome live fits P m) (h : live' → live) :
    Outcome live' fits P m := by
  match m, hm with
  | .ok a, hok => exact hok
  | .error .endless, hend => exact fun hl => hend (h hl)
  | .error .outside, hout => exact hout

theorem Outcome.imp_fits (hm : Outcome live first P m) (hfirst : first) (hfits : fits) :
    Outcome live fits P m := by
  match m, hm with
  | .ok a, hok => exact ⟨hfits, hok.2⟩
  | .error .endless, hend => exact hend
  | .error .outside, hout => exact absurd hfirst hout

theorem Outcome.eq_ok {a : α} (hm : Outcome live fits (· = a) m) (hlive : live) (hfits : fits) :
    m = .ok a := by
  match m, hm with
  | .ok b, h => exact congrArg Except.ok h.2
  | .error .endless, h => exact absurd hlive h
  | .error .outside, h => exact absurd hfits h

theorem Outcome.mono {P' : α → Prop} (hm : Outcome live fits P m) (h : ∀ a, P a → P' a) :
    Outcome live fits P' m := by
  match m, hm with
  | .ok a, hok => exact ⟨hok.1, h a hok.2⟩
  | .error .endless, hend => exact hend
  | .error .outside, hout => exact hout

/-- A run that meets its conditions neither leaves its arrays nor goes on for ever. -/
theorem Outcome.inside (hm : Outcome live fits P m) (hfits : fits) : m ≠ .error .outside := by
  rintro rfl
  exact hm hfits

theorem Outcome.fits_of_live (hm : Outcome live fits P m) (hlive : live)
    (hinside : m ≠ .error .outside) : fits := by
  match m, hm with
  | .ok a, h => exact h.1
  | .error .endless, h => exact absurd hlive h
  | .error .outside, _ => exact absurd rfl hinside

end Faults
