import Mathlib.Data.List.Basic
import Mathlib.Data.List.Nodup
import Mathlib.Data.List.TakeWhile
import Mathlib.Tactic.Common

/-!
# Skip lists

Rows of one set of nodes, from the top row to the bottom row. A search walks along each row and goes
on in the row below from where it stopped; `heads` are the nodes at which it stops, where `none` is
the head of the list. A new node is linked in behind these nodes in the lowest rows.

`Nested` says that a node of a row is in all rows below, which every edit keeps. If in each row the
nodes that a search passes come first, the new node goes between them and the others
(`insert_rows_eq_place`), and each row remains a sublist of the rows below (`place_rows_layered`).
-/

namespace SkipList

open List

set_option linter.unusedSectionVars false

variable {α : Type*} [DecidableEq α] {row' : List α}

/-- The nodes behind a position. -/
def behind (row : List α) : Option α → List α
  | none => row
  | some p => (row.dropWhile (· ≠ p)).tail

/-- Walk on while the next node is passed. -/
def walkFrom (passes : α → Bool) (pos : Option α) : List α → Option α
  | [] => pos
  | x :: xs => if passes x then walkFrom passes (some x) xs else pos

def walk (passes : α → Bool) (row : List α) (pos : Option α) : Option α :=
  walkFrom passes pos (behind row pos)

/-- The positions at which the search stops, from a position in the first row. -/
def heads (passes : α → Bool) : List (List α) → Option α → List (Option α)
  | [], _ => []
  | row :: rows, pos => walk passes row pos :: heads passes rows (walk passes row pos)

/-- Link a node in behind another one. -/
def insertAfter (t p : α) : List α → List α
  | [] => []
  | x :: xs => if x = p then x :: t :: xs else x :: insertAfter t p xs

/-- Link a node in behind a position. -/
def insertBehind (t : α) (row : List α) : Option α → List α
  | none => t :: row
  | some p => insertAfter t p row

/-- Link a node in behind these positions, in the lowest `height` rows. -/
def insertRows (height : Nat) (t : α) : List (List α) → List (Option α) → List (List α)
  | row :: rows, pos :: poss =>
    (if rows.length < height then insertBehind t row pos else row) ::
      insertRows height t rows poss
  | rows, _ => rows

def bottom (rows : List (List α)) : List α := rows.getLastD []

/-- Unlink a node from all rows. -/
def eraseRows (t : α) (rows : List (List α)) : List (List α) := rows.map (·.erase t)

/-! ## Nested rows -/

/-- No node is twice in a row, and the nodes of a row are in all rows below. -/
structure Nested (rows : List (List α)) : Prop where
  subset : rows.Pairwise (· ⊆ ·)
  nodup : ∀ row ∈ rows, row.Nodup

section

variable {rows : List (List α)} {row : List α} {passes : α → Bool} {pos : Option α} {t p x : α}
  {height : Nat} {poss : List (Option α)}

theorem walk_from_mem (h : walkFrom passes pos row = some p) : pos = some p ∨ p ∈ row := by
  induction row generalizing pos with
  | nil => exact .inl h
  | cons x xs ih =>
    rw [walkFrom] at h
    split at h
    · rcases ih h with heq | hmem
      · cases heq
        exact .inr mem_cons_self
      · exact .inr (mem_cons_of_mem x hmem)
    · exact .inl h

theorem behind_subset : behind row pos ⊆ row := by
  cases pos with
  | none => exact fun _ h => h
  | some p => exact fun _ h => (dropWhile_sublist _).subset (mem_of_mem_tail h)

theorem heads_mem (h : rows.Pairwise (· ⊆ ·)) (hpos : ∀ p, pos = some p → ∀ row ∈ rows, p ∈ row) :
    Forall₂ (fun row pos => ∀ p, pos = some p → p ∈ row) rows (heads passes rows pos) := by
  induction rows generalizing pos with
  | nil => exact .nil
  | cons row rows ih =>
    obtain ⟨hsub, hrows⟩ := pairwise_cons.mp h
    have hwalk : ∀ p, walk passes row pos = some p → p ∈ row := by
      intro p hp
      rcases walk_from_mem hp with heq | hmem
      · exact hpos p heq row mem_cons_self
      · exact behind_subset hmem
    exact .cons hwalk (ih hrows fun p hp r hr => hsub r hr (hwalk p hp))

theorem eq_or_mem_of_insert_after (h : x ∈ insertAfter t p row) : x = t ∨ x ∈ row := by
  induction row with
  | nil => cases h
  | cons y ys ih =>
    rw [insertAfter] at h
    split at h
    · rcases mem_cons.mp h with rfl | h
      · exact .inr mem_cons_self
      · exact (mem_cons.mp h).imp_right (mem_cons_of_mem y)
    · rcases mem_cons.mp h with rfl | h
      · exact .inr mem_cons_self
      · exact (ih h).imp_right (mem_cons_of_mem y)

theorem mem_insert_after (hp : p ∈ row) : x ∈ insertAfter t p row ↔ x = t ∨ x ∈ row := by
  refine ⟨eq_or_mem_of_insert_after, fun h => ?_⟩
  induction row with
  | nil => cases hp
  | cons y ys ih =>
    rw [insertAfter]
    split
    · rcases h with rfl | h
      · exact mem_cons_of_mem y mem_cons_self
      · rcases mem_cons.mp h with rfl | h
        · exact mem_cons_self
        · exact mem_cons_of_mem y (mem_cons_of_mem t h)
    · rename_i hne
      have hmem := ih ((mem_cons.mp hp).resolve_left (Ne.symm hne))
      rcases h with rfl | h
      · exact mem_cons_of_mem y (hmem (.inl rfl))
      · rcases mem_cons.mp h with rfl | h
        · exact mem_cons_self
        · exact mem_cons_of_mem y (hmem (.inr h))

theorem insert_after_nodup (h : row.Nodup) (ht : t ∉ row) : (insertAfter t p row).Nodup := by
  induction row with
  | nil => exact h
  | cons y ys ih =>
    obtain ⟨hy, hys⟩ := nodup_cons.mp h
    have hty : t ≠ y := ne_of_not_mem_cons ht
    have htys : t ∉ ys := not_mem_of_not_mem_cons ht
    rw [insertAfter]
    split
    · refine nodup_cons.mpr ⟨fun hmem => ?_, nodup_cons.mpr ⟨htys, hys⟩⟩
      exact (mem_cons.mp hmem).elim hty.symm hy
    · refine nodup_cons.mpr ⟨fun hmem => ?_, ih hys htys⟩
      exact (eq_or_mem_of_insert_after hmem).elim hty.symm hy

theorem mem_insert_behind (hp : ∀ p, pos = some p → p ∈ row) :
    x ∈ insertBehind t row pos ↔ x = t ∨ x ∈ row := by
  cases pos with
  | none => exact mem_cons
  | some p => exact mem_insert_after (hp p rfl)

theorem insert_behind_nodup (h : row.Nodup) (ht : t ∉ row) : (insertBehind t row pos).Nodup := by
  cases pos with
  | none => exact nodup_cons.mpr ⟨ht, h⟩
  | some p => exact insert_after_nodup h ht

theorem insert_rows_row (h : row' ∈ insertRows height t rows poss)
    (hposs : Forall₂ (fun row pos => ∀ p, pos = some p → p ∈ row) rows poss) :
    ∃ row ∈ rows, row ⊆ row' ∧ ∀ x ∈ row', x = t ∨ x ∈ row := by
  induction hposs with
  | nil => cases h
  | @cons row pos rows poss hpos hposs ih =>
    rcases mem_cons.mp h with rfl | h
    · refine ⟨row, mem_cons_self, ?_⟩
      split
      · exact ⟨fun x hx => (mem_insert_behind hpos).mpr (.inr hx),
          fun x hx => (mem_insert_behind hpos).mp hx⟩
      · exact ⟨fun x hx => hx, fun x hx => .inr hx⟩
    · obtain ⟨r, hr, hrow⟩ := ih h
      exact ⟨r, mem_cons_of_mem row hr, hrow⟩

theorem mem_insert_rows (hheight : rows.length ≤ height) (h : row' ∈ insertRows height t rows poss)
    (hposs : Forall₂ (fun row pos => ∀ p, pos = some p → p ∈ row) rows poss) : t ∈ row' := by
  induction hposs with
  | nil => cases h
  | @cons row pos rows poss hpos hposs ih =>
    rw [length_cons] at hheight
    rw [insertRows, if_pos (by omega)] at h
    rcases mem_cons.mp h with rfl | h
    · exact (mem_insert_behind hpos).mpr (.inl rfl)
    · exact ih (by omega) h

theorem insert_rows_nested (h : Nested rows) (ht : ∀ row ∈ rows, t ∉ row)
    (hposs : Forall₂ (fun row pos => ∀ p, pos = some p → p ∈ row) rows poss) :
    Nested (insertRows height t rows poss) := by
  induction hposs with
  | nil => exact h
  | @cons row pos rows poss hpos hposs ih =>
    obtain ⟨hsub, hpair⟩ := pairwise_cons.mp h.subset
    have hrest := ih ⟨hpair, fun r hr => h.nodup r (mem_cons_of_mem row hr)⟩
      fun r hr => ht r (mem_cons_of_mem row hr)
    have hkept : ∀ row' ∈ insertRows height t rows poss, row ⊆ row' := by
      intro row' hrow'
      obtain ⟨r, hr, hr', -⟩ := insert_rows_row hrow' hposs
      exact fun x hx => hr' (hsub r hr hx)
    refine ⟨pairwise_cons.mpr ⟨fun row' hrow' => ?_, hrest.subset⟩, fun row' hrow' => ?_⟩
    · split
      · rename_i hlt
        intro x hx
        rcases (mem_insert_behind hpos).mp hx with rfl | hx
        · exact mem_insert_rows (by omega) hrow' hposs
        · exact hkept row' hrow' hx
      · exact hkept row' hrow'
    · rcases mem_cons.mp hrow' with rfl | hrow'
      · split
        · exact insert_behind_nodup (h.nodup row mem_cons_self) (ht row mem_cons_self)
        · exact h.nodup row mem_cons_self
      · exact hrest.nodup row' hrow'

theorem erase_rows_nested (h : Nested rows) : Nested (eraseRows t rows) := by
  refine ⟨pairwise_map.mpr (h.subset.imp_of_mem ?_), fun row' hrow' => ?_⟩
  · intro r r' hr hr' hsub x hx
    obtain ⟨hne, hmem⟩ := (h.nodup r hr).mem_erase_iff.mp hx
    exact (h.nodup r' hr').mem_erase_iff.mpr ⟨hne, hsub hmem⟩
  · obtain ⟨row, hrow, rfl⟩ := mem_map.mp hrow'
    exact (h.nodup row hrow).erase t

theorem not_mem_erase_rows (h : Nested rows) : ∀ row' ∈ eraseRows t rows, t ∉ row' := by
  intro row' hrow'
  obtain ⟨row, hrow, rfl⟩ := mem_map.mp hrow'
  exact (h.nodup row hrow).not_mem_erase

/-! ### The bottom row -/

theorem bottom_mem (h : rows ≠ []) : bottom rows ∈ rows := by
  induction rows with
  | nil => exact absurd rfl h
  | cons row rows ih =>
    cases rows with
    | nil => exact mem_cons_self
    | cons row' rows => exact mem_cons_of_mem row (ih (by simp))

theorem bottom_erase : bottom (eraseRows t rows) = (bottom rows).erase t := by
  induction rows with
  | nil => rfl
  | cons row rows ih =>
    cases rows with
    | nil => rfl
    | cons row' rows => exact ih

theorem Nested.subset_bottom (h : Nested rows) (hrow : row ∈ rows) : row ⊆ bottom rows := by
  induction rows with
  | nil => cases hrow
  | cons r rows ih =>
    obtain ⟨hsub, hpair⟩ := pairwise_cons.mp h.subset
    cases rows with
    | nil =>
      rw [mem_singleton.mp hrow]
      exact fun x hx => hx
    | cons r' rows =>
      rcases mem_cons.mp hrow with rfl | hrow
      · exact hsub _ (bottom_mem (by simp))
      · exact ih ⟨hpair, fun q hq => h.nodup q (mem_cons_of_mem r hq)⟩ hrow

theorem insert_rows_length : (insertRows height t rows poss).length = rows.length := by
  induction rows generalizing poss with
  | nil => rfl
  | cons row rows ih =>
    cases poss with
    | nil => rfl
    | cons pos poss => rw [insertRows, length_cons, length_cons, ih]

theorem mem_bottom_insert_rows (hheight : 0 < height) (hrows : rows ≠ [])
    (hposs : Forall₂ (fun row pos => ∀ p, pos = some p → p ∈ row) rows poss) :
    x ∈ bottom (insertRows height t rows poss) ↔ x = t ∨ x ∈ bottom rows := by
  induction hposs with
  | nil => exact absurd rfl hrows
  | @cons row pos rows poss hpos hposs ih =>
    cases hposs with
    | nil =>
      have hlowest : ([] : List (List α)).length < height := hheight
      rw [insertRows, if_pos hlowest]
      exact mem_insert_behind hpos
    | @cons row' pos' rows poss hpos' hposs =>
      exact ih (by simp)

end

/-! ## Sorted rows -/

/-- The nodes that a search passes come first. -/
def PassedFirst (passes : α → Bool) (row : List α) : Prop :=
  row.Pairwise fun x y => passes y = true → passes x = true

/-- The row with a new node between the passed nodes and the others. -/
def place (passes : α → Bool) (t : α) (row : List α) : List α :=
  row.takeWhile passes ++ t :: row.dropWhile passes

def placeRows (passes : α → Bool) (height : Nat) (t : α) : List (List α) → List (List α)
  | [] => []
  | row :: rows =>
    (if rows.length < height then place passes t row else row) :: placeRows passes height t rows

def Layered (rows : List (List α)) : Prop := rows.Pairwise Sublist

section

variable {rows : List (List α)} {row r : List α} {passes : α → Bool} {pos : Option α} {t p x : α}
  {height : Nat} {xs ys : List α}

theorem walk_from_eq : walkFrom passes pos row = (row.takeWhile passes).getLast?.or pos := by
  induction row generalizing pos with
  | nil => rfl
  | cons x xs ih =>
    rw [walkFrom]
    split
    · rename_i hx
      rw [ih, takeWhile_cons_of_pos hx, getLast?_cons]
      cases (xs.takeWhile passes).getLast? <;> rfl
    · rename_i hx
      rw [takeWhile_cons_of_neg hx]
      rfl

theorem PassedFirst.tail (h : PassedFirst passes (x :: row)) : PassedFirst passes row :=
  (pairwise_cons.mp h).2

theorem PassedFirst.sublist (h : PassedFirst passes row) (hsub : r.Sublist row) :
    PassedFirst passes r :=
  List.Pairwise.sublist hsub h

theorem PassedFirst.drop_while (h : PassedFirst passes row) :
    ∀ x ∈ row.dropWhile passes, passes x = false := by
  induction row with
  | nil => exact fun x hx => nomatch hx
  | cons y ys ih =>
    obtain ⟨hy, hys⟩ := pairwise_cons.mp h
    intro x hx
    by_cases hpass : passes y = true
    · rw [dropWhile_cons_of_pos hpass] at hx
      exact ih hys x hx
    · rw [dropWhile_cons_of_neg hpass] at hx
      rcases mem_cons.mp hx with rfl | hx
      · exact Bool.eq_false_iff.mpr hpass
      · exact Bool.eq_false_iff.mpr fun hxp => hpass (hy x hx hxp)

theorem PassedFirst.take_while (h : PassedFirst passes row) :
    row.takeWhile passes = row.filter passes := by
  induction row with
  | nil => rfl
  | cons y ys ih =>
    by_cases hpass : passes y = true
    · rw [takeWhile_cons_of_pos hpass, filter_cons_of_pos hpass, ih h.tail]
    · have hnone := h.drop_while
      rw [dropWhile_cons_of_neg hpass] at hnone
      rw [takeWhile_cons_of_neg hpass, filter_cons_of_neg hpass]
      refine (filter_eq_nil_iff.mpr fun x hx => ?_).symm
      rw [hnone x (mem_cons_of_mem y hx)]
      exact Bool.false_ne_true

theorem PassedFirst.drop_while_eq (h : PassedFirst passes row) :
    row.dropWhile passes = row.filter fun x => !passes x := by
  induction row with
  | nil => rfl
  | cons y ys ih =>
    by_cases hpass : passes y = true
    · rw [dropWhile_cons_of_pos hpass, filter_cons_of_neg (by simp [hpass]), ih h.tail]
    · have hnone := h.drop_while
      rw [dropWhile_cons_of_neg hpass] at hnone ⊢
      refine (filter_eq_self.mpr fun x hx => ?_).symm
      rw [hnone x hx]
      rfl

theorem PassedFirst.take_while_split (h : PassedFirst passes (xs ++ p :: ys))
    (hp : passes p = true) :
    (xs ++ p :: ys).takeWhile passes = xs ++ p :: ys.takeWhile passes := by
  induction xs with
  | nil => exact takeWhile_cons_of_pos hp
  | cons x xs ih =>
    have hx : passes x = true := (pairwise_cons.mp h).1 p (by simp) hp
    rw [cons_append, takeWhile_cons_of_pos hx, ih h.tail]
    rfl

theorem behind_split (hp : p ∉ xs) : behind (xs ++ p :: ys) (some p) = ys := by
  induction xs with
  | nil => simp [behind]
  | cons x xs ih =>
    have hne : x ≠ p := (ne_of_not_mem_cons hp).symm
    have hdrop : ((x :: (xs ++ p :: ys)).dropWhile fun y => decide (y ≠ p)) =
        (xs ++ p :: ys).dropWhile fun y => decide (y ≠ p) :=
      dropWhile_cons_of_pos (decide_eq_true hne)
    rw [behind, cons_append, hdrop]
    exact ih (not_mem_of_not_mem_cons hp)

theorem walk_eq (h : PassedFirst passes row) (hnodup : row.Nodup)
    (hpos : ∀ p, pos = some p → passes p = true ∧ p ∈ row) :
    walk passes row pos = (row.takeWhile passes).getLast? := by
  cases pos with
  | none =>
    rw [walk, walk_from_eq, Option.or_none]
    rfl
  | some p =>
    obtain ⟨hp, hmem⟩ := hpos p rfl
    obtain ⟨xs, ys, rfl⟩ := append_of_mem hmem
    have hxs : p ∉ xs := fun hx =>
      (nodup_append.mp hnodup).2.2 p hx p mem_cons_self rfl
    rw [walk, walk_from_eq, behind_split hxs, h.take_while_split hp,
      getLast?_append_of_ne_nil xs (by simp), getLast?_cons]
    cases (ys.takeWhile passes).getLast? <;> rfl

theorem insert_after_split (hp : p ∉ xs) :
    insertAfter t p (xs ++ p :: ys) = xs ++ p :: t :: ys := by
  induction xs with
  | nil => simp [insertAfter]
  | cons x xs ih =>
    have hne : x ≠ p := (ne_of_not_mem_cons hp).symm
    rw [cons_append, insertAfter, if_neg hne, ih (not_mem_of_not_mem_cons hp)]
    rfl

theorem insert_behind_eq_place (hnodup : row.Nodup) :
    insertBehind t row (row.takeWhile passes).getLast? = place passes t row := by
  have hsplit := takeWhile_append_dropWhile (p := passes) (l := row)
  rcases eq_nil_or_concat (row.takeWhile passes) with hnil | ⟨xs, p, hlast⟩
  · rw [hnil, nil_append] at hsplit
    rw [place, hnil, hsplit]
    rfl
  · rw [concat_eq_append] at hlast
    rw [hlast, append_assoc, singleton_append] at hsplit
    have hxs : p ∉ xs := fun hx => by
      rw [← hsplit] at hnodup
      exact (nodup_append.mp hnodup).2.2 p hx p mem_cons_self rfl
    have hgoal : insertAfter t p (xs ++ p :: row.dropWhile passes) =
        xs ++ p :: t :: row.dropWhile passes := insert_after_split hxs
    rw [hsplit] at hgoal
    rw [place, hlast, getLast?_concat, append_assoc]
    exact hgoal

/-- In sorted rows the new node goes between the passed nodes and the others. -/
theorem insert_rows_eq_place (h : Nested rows) (hpassed : ∀ row ∈ rows, PassedFirst passes row)
    (hpos : ∀ p, pos = some p → passes p = true ∧ ∀ row ∈ rows, p ∈ row) :
    insertRows height t rows (heads passes rows pos) = placeRows passes height t rows := by
  induction rows generalizing pos with
  | nil => rfl
  | cons row rows ih =>
    obtain ⟨hsub, hpair⟩ := pairwise_cons.mp h.subset
    have hnodup := h.nodup row mem_cons_self
    have hwalk : walk passes row pos = (row.takeWhile passes).getLast? :=
      walk_eq (hpassed row mem_cons_self) hnodup fun p hp =>
        ⟨(hpos p hp).1, (hpos p hp).2 row mem_cons_self⟩
    have hstop : ∀ p, walk passes row pos = some p →
        passes p = true ∧ ∀ r ∈ rows, p ∈ r := by
      intro p hp
      rw [hwalk] at hp
      have hmem := mem_of_getLast? hp
      exact ⟨mem_takeWhile_imp hmem, fun r hr => hsub r hr ((takeWhile_sublist _).subset hmem)⟩
    rw [heads, insertRows, placeRows, ih ⟨hpair, fun r hr =>
      h.nodup r (mem_cons_of_mem row hr)⟩
      (fun r hr => hpassed r (mem_cons_of_mem row hr)) hstop, hwalk,
      insert_behind_eq_place hnodup]

/-! ### Edits of sorted rows -/

theorem sublist_place : row.Sublist (place passes t row) := by
  have hsplit := takeWhile_append_dropWhile (p := passes) (l := row)
  refine Sublist.trans ?_ (Sublist.append_left (sublist_cons_self t _) _)
  rw [hsplit]

theorem place_sublist_place (hsub : row.Sublist r) (hr : PassedFirst passes r) :
    (place passes t row).Sublist (place passes t r) := by
  have hrow := hr.sublist hsub
  rw [place, place, hrow.take_while, hrow.drop_while_eq, hr.take_while, hr.drop_while_eq]
  exact (hsub.filter _).append ((hsub.filter _).cons_cons t)

theorem place_rows_row (h : row' ∈ placeRows passes height t rows) :
    ∃ row ∈ rows, row.Sublist row' ∧ (rows.length ≤ height → row' = place passes t row) := by
  induction rows with
  | nil => cases h
  | cons row rows ih =>
    rcases mem_cons.mp h with rfl | h
    · refine ⟨row, mem_cons_self, ?_, fun hheight => ?_⟩
      · split
        · exact sublist_place
        · exact Sublist.refl _
      · rw [length_cons] at hheight
        rw [if_pos (by omega)]
    · obtain ⟨r, hr, hsub, hplaced⟩ := ih h
      refine ⟨r, mem_cons_of_mem row hr, hsub, fun hheight => hplaced ?_⟩
      rw [length_cons] at hheight
      omega

theorem place_rows_layered (h : Layered rows) (hpassed : ∀ row ∈ rows, PassedFirst passes row) :
    Layered (placeRows passes height t rows) := by
  induction rows with
  | nil => exact h
  | cons row rows ih =>
    obtain ⟨hsub, hrows⟩ := pairwise_cons.mp h
    have hpassed' : ∀ r ∈ rows, PassedFirst passes r := fun r hr =>
      hpassed r (mem_cons_of_mem row hr)
    refine pairwise_cons.mpr ⟨fun row' hrow' => ?_, ih hrows hpassed'⟩
    obtain ⟨r, hr, hkept, hplaced⟩ := place_rows_row hrow'
    split
    · rename_i hheight
      rw [hplaced (by omega)]
      exact place_sublist_place (hsub r hr) (hpassed' r hr)
    · exact (hsub r hr).trans hkept

theorem erase_rows_layered (h : Layered rows) : Layered (eraseRows t rows) :=
  pairwise_map.mpr (h.imp fun hsub => hsub.erase t)

theorem Layered.sublist_bottom (h : Layered rows) (hrow : row ∈ rows) :
    row.Sublist (bottom rows) := by
  induction rows with
  | nil => cases hrow
  | cons r rows ih =>
    obtain ⟨hsub, hpair⟩ := pairwise_cons.mp h
    cases rows with
    | nil =>
      rw [mem_singleton.mp hrow]
      exact Sublist.refl _
    | cons r' rows =>
      rcases mem_cons.mp hrow with rfl | hrow
      · exact hsub _ (bottom_mem (by simp))
      · exact ih hpair hrow

theorem bottom_place_rows (hheight : 0 < height) (hrows : rows ≠ []) :
    bottom (placeRows passes height t rows) = place passes t (bottom rows) := by
  induction rows with
  | nil => exact absurd rfl hrows
  | cons row rows ih =>
    cases rows with
    | nil =>
      have hlowest : ([] : List (List α)).length < height := hheight
      rw [placeRows, if_pos hlowest]
      rfl
    | cons row' rows => exact ih (by simp)

/-- An order of the row that fits the new node. -/
theorem place_pairwise {R : α → α → Prop} (h : row.Pairwise R) (hpassed : PassedFirst passes row)
    (hbefore : ∀ x ∈ row, passes x = true → R x t)
    (hafter : ∀ x ∈ row, passes x = false → R t x) : (place passes t row).Pairwise R := by
  have hsplit := takeWhile_append_dropWhile (p := passes) (l := row)
  have hmem : ∀ x ∈ row.takeWhile passes, x ∈ row := fun x hx =>
    (takeWhile_sublist _).subset hx
  have hmem' : ∀ x ∈ row.dropWhile passes, x ∈ row := fun x hx =>
    (dropWhile_sublist _).subset hx
  rw [← hsplit] at h
  obtain ⟨hfirst, hlast, hcross⟩ := pairwise_append.mp h
  refine pairwise_append.mpr ⟨hfirst, pairwise_cons.mpr ⟨fun x hx => ?_, hlast⟩, ?_⟩
  · exact hafter x (hmem' x hx) (hpassed.drop_while x hx)
  · intro x hx y hy
    rcases mem_cons.mp hy with rfl | hy
    · exact hbefore x (hmem x hx) (mem_takeWhile_imp hx)
    · exact hcross x hx y hy

end

end SkipList
