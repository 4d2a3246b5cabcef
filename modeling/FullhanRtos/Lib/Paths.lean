import Mathlib.Data.List.Infix
import Mathlib.Data.List.TakeWhile

/-!
# Paths

A path is a list of names; as a string, each name stands behind a separator. `join_append_eq` says
when the string of one path in front of another one is a path in front of it: the next character is
a separator. `namesFrom` reads the names of any string, whatever the number of separators is.
-/

namespace Paths

open List

variable {α : Type*} {sep : α} {cs : List (List α)}

/-- A name has a character, and no separator. -/
def Names (sep : α) (cs : List (List α)) : Prop := ∀ c ∈ cs, c ≠ [] ∧ sep ∉ c

/-- Each name behind a separator. -/
def join (sep : α) : List (List α) → List α
  | [] => []
  | c :: cs => sep :: (c ++ join sep cs)

/-- An absolute path. The root is a separator. -/
def absolute (sep : α) : List (List α) → List α
  | [] => [sep]
  | c :: cs => join sep (c :: cs)

/-- Nothing, or a separator first. -/
def Begins (sep : α) (s : List α) : Prop := s = [] ∨ s.head? = some sep

theorem join_begins (sep : α) (cs : List (List α)) : Begins sep (join sep cs) := by
  cases cs with
  | nil => exact .inl rfl
  | cons c cs => exact .inr rfl

theorem Begins.behind_join {s : List α} (h : Begins sep s) (cs : List (List α)) :
    Begins sep (join sep cs ++ s) := by
  cases cs with
  | nil => exact h
  | cons c cs => exact .inr rfl

theorem join_append (sep : α) (cs ds : List (List α)) :
    join sep (cs ++ ds) = join sep cs ++ join sep ds := by
  induction cs with
  | nil => rfl
  | cons c cs ih =>
    show sep :: (c ++ join sep (cs ++ ds)) = sep :: (c ++ join sep cs) ++ join sep ds
    rw [ih, cons_append, append_assoc]

theorem join_snoc (sep : α) (cs : List (List α)) (c : List α) :
    join sep (cs ++ [c]) = join sep cs ++ [sep] ++ c := by
  rw [join_append, append_assoc]
  show _ ++ sep :: (c ++ []) = _
  rw [append_nil]
  rfl

theorem absolute_of_ne_nil (hne : cs ≠ []) : absolute sep cs = join sep cs := by
  cases cs with
  | nil => exact absurd rfl hne
  | cons c cs => rfl

theorem Names.snoc {c : List α} (h : Names sep cs) (hne : c ≠ []) (hsep : sep ∉ c) :
    Names sep (cs ++ [c]) := by
  intro d hd
  rcases mem_append.mp hd with hd | hd
  · exact h d hd
  · rw [mem_singleton.mp hd]
    exact ⟨hne, hsep⟩

theorem Names.init {cs ds : List (List α)} (h : Names sep (cs ++ ds)) : Names sep cs :=
  fun c hc => h c (mem_append_left ds hc)

variable [DecidableEq α] {rest : List α}

/-- The first name of a string ends at a separator. -/
theorem name_inj {c d s t : List α} (hc : sep ∉ c) (hd : sep ∉ d) (hs : Begins sep s)
    (ht : Begins sep t) (heq : c ++ s = d ++ t) : c = d ∧ s = t := by
  have htake : ∀ e u : List α, sep ∉ e → Begins sep u →
      (e ++ u).takeWhile (fun x => decide (x ≠ sep)) = e := by
    intro e u he hu
    have hall : ∀ x ∈ e, decide (x ≠ sep) = true := by
      intro x hx
      refine decide_eq_true ?_
      rintro rfl
      exact he hx
    rw [takeWhile_append_of_pos hall]
    rcases hu with rfl | hhead
    · rw [takeWhile_nil, append_nil]
    · obtain ⟨u, rfl⟩ := head?_eq_some_iff.mp hhead
      rw [takeWhile_cons_of_neg (by simp), append_nil]
  have hfirst : c = d := by
    rw [← htake c s hc hs, heq, htake d t hd ht]
  subst hfirst
  exact ⟨rfl, append_cancel_left heq⟩

/-- A path in front of another one, as strings, is one as a list of names exactly if what follows is
nothing or begins with a separator. -/
theorem join_append_eq {cs ds : List (List α)} (hcs : Names sep cs) (hds : Names sep ds)
    (hrest : Begins sep rest) (heq : join sep cs ++ rest = join sep ds) :
    ∃ es, ds = cs ++ es ∧ rest = join sep es := by
  induction cs generalizing ds with
  | nil => exact ⟨ds, rfl, heq⟩
  | cons c cs ih =>
    cases ds with
    | nil => cases heq
    | cons d ds =>
      have htail : (c ++ join sep cs) ++ rest = d ++ join sep ds := (List.cons.inj heq).2
      rw [append_assoc] at htail
      obtain ⟨rfl, hjoin⟩ := name_inj (hcs c mem_cons_self).2 (hds d mem_cons_self).2
        (hrest.behind_join cs) (join_begins sep ds) htail
      obtain ⟨es, rfl, hes⟩ := ih (fun x hx => hcs x (mem_cons_of_mem _ hx))
        (fun x hx => hds x (mem_cons_of_mem _ hx)) hjoin
      exact ⟨es, rfl, hes⟩

/-! ## The names of a string -/

/-- The names of a string behind the characters `c` of a name that is not over. -/
def namesFrom (sep : α) : List α → List α → List (List α)
  | c, [] => if c = [] then [] else [c]
  | c, x :: s =>
    if x = sep then if c = [] then namesFrom sep [] s else c :: namesFrom sep [] s
    else namesFrom sep (c ++ [x]) s

/-- A separator in front says nothing. -/
theorem names_from_sep (s : List α) : namesFrom sep [] (sep :: s) = namesFrom sep [] s := by
  rw [namesFrom, if_pos rfl, if_pos rfl]

theorem names_from_name {c d s : List α} (hd : sep ∉ d) :
    namesFrom sep c (d ++ s) = namesFrom sep (c ++ d) s := by
  induction d generalizing c with
  | nil => rw [nil_append, append_nil]
  | cons x d ih =>
    have hx : x ≠ sep := by
      rintro rfl
      exact hd mem_cons_self
    rw [cons_append, namesFrom, if_neg hx, ih (fun hmem => hd (mem_cons_of_mem _ hmem)),
      append_assoc]
    rfl

theorem names_from_end {c s : List α} (hne : c ≠ []) (hs : Begins sep s) :
    namesFrom sep c s = c :: namesFrom sep [] s := by
  rcases hs with rfl | hhead
  · rw [namesFrom, if_neg hne]
    rfl
  · obtain ⟨s, rfl⟩ := head?_eq_some_iff.mp hhead
    rw [namesFrom, if_pos rfl, if_neg hne, names_from_sep]

theorem names_from_join (hcs : Names sep cs) (hrest : Begins sep rest) :
    namesFrom sep [] (join sep cs ++ rest) = cs ++ namesFrom sep [] rest := by
  induction cs with
  | nil => rfl
  | cons c cs ih =>
    obtain ⟨hne, hsep⟩ := hcs c mem_cons_self
    have hih := ih fun x hx => hcs x (mem_cons_of_mem _ hx)
    show namesFrom sep [] (sep :: (c ++ join sep cs) ++ rest) = c :: (cs ++ _)
    rw [cons_append, names_from_sep, append_assoc, names_from_name hsep, nil_append, ← hih]
    exact names_from_end hne (hrest.behind_join cs)

end Paths
