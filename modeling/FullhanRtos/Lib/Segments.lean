import FullhanRtos.Lib.Classes
import Mathlib.Order.Bounds.Basic

/-!
# A picture as segments of its rows

The foreground cells of a picture fall into components of cells next to each other, diagonals
included. `Decomposes` says that segments cover exactly the foreground and that two segments of a
row have a gap between them; `connected_iff_joined` is why an algorithm may join segments of
neighbouring rows in place of cells. `IsBox` is the bounding box of a set of segments.
-/

namespace Segments

open Classes Relation Set

/-- The cells of a row from `head` to `tail`. -/
structure Segment where
  row : Nat
  head : Nat
  tail : Nat
deriving DecidableEq

/-- A row and a column. -/
abbrev Cell := Nat × Nat

def Segment.Covers (s : Segment) (p : Cell) : Prop := p.1 = s.row ∧ s.head ≤ p.2 ∧ p.2 ≤ s.tail

/-- The segment of the row below has a cell next to a cell of the segment. -/
def Segment.Touches (s below : Segment) : Prop :=
  s.row + 1 = below.row ∧ s.head ≤ below.tail + 1 ∧ below.head ≤ s.tail + 1

/-- A column without a cell lies between two segments of a row. -/
def Segment.Apart (s s' : Segment) : Prop := s.tail + 1 < s'.head ∨ s'.tail + 1 < s.head

/-- The same cell, or one of the eight around it. -/
def Near (p q : Cell) : Prop :=
  p.1 ≤ q.1 + 1 ∧ q.1 ≤ p.1 + 1 ∧ p.2 ≤ q.2 + 1 ∧ q.2 ≤ p.2 + 1

theorem Near.symm {p q : Cell} (h : Near p q) : Near q p := ⟨h.2.1, h.1, h.2.2.2, h.2.2.1⟩

/-- A path of foreground cells, each near the one before it. -/
def Connected (fg : Cell → Prop) : Cell → Cell → Prop :=
  ReflTransGen fun p q => fg p ∧ fg q ∧ Near p q

/-- The 8-connected components of the foreground. -/
def components (fg : Cell → Prop) : Set (Set Cell) := {C | ∃ p, fg p ∧ C = {q | Connected fg p q}}

/-- The least and the greatest column and row of a set of cells. -/
structure IsBoundingBox (C : Set Cell) (x1 x2 y1 y2 : Nat) : Prop where
  left : IsLeast (Prod.snd '' C) x1
  right : IsGreatest (Prod.snd '' C) x2
  top : IsLeast (Prod.fst '' C) y1
  bottom : IsGreatest (Prod.fst '' C) y2

section

variable {fg : Cell → Prop} {p q r : Cell}

theorem connected_of_near (hp : fg p) (hq : fg q) (h : Near p q) : Connected fg p q :=
  .single ⟨hp, hq, h⟩

theorem Connected.trans (h : Connected fg p q) (h' : Connected fg q r) : Connected fg p r :=
  ReflTransGen.trans h h'

theorem Connected.symm (h : Connected fg p q) : Connected fg q p := by
  induction h with
  | refl => exact .refl
  | tail _ hstep ih => exact (connected_of_near hstep.2.1 hstep.1 hstep.2.2.symm).trans ih

theorem Connected.foreground (hp : fg p) (h : Connected fg p q) : fg q := by
  induction h with
  | refl => exact hp
  | tail _ hstep _ => exact hstep.2.1

/-- From a column to a later one along foreground cells of the row. -/
theorem connected_right {i j j' : Nat} (hle : j ≤ j') (hfg : ∀ c, j ≤ c → c ≤ j' → fg (i, c)) :
    Connected fg (i, j) (i, j') := by
  induction j', hle using Nat.le_induction with
  | base => exact .refl
  | succ c hc ih =>
    have hbefore : Connected fg (i, j) (i, c) := ih fun d hd hd' => hfg d hd (by omega)
    have hnear : Near (i, c) (i, c + 1) := by simp only [Near]; omega
    exact hbefore.trans (connected_of_near (hfg c hc (by omega)) (hfg _ (by omega) le_rfl) hnear)

end

/-- The segments of `V` cover exactly the foreground, and those of a row are apart. -/
structure Decomposes {ν : Type*} (fg : Cell → Prop) (V : Set ν) (seg : ν → Segment) : Prop where
  covered : ∀ p, fg p → ∃ a ∈ V, (seg a).Covers p
  foreground : ∀ a ∈ V, ∀ p, (seg a).Covers p → fg p
  head_le : ∀ a ∈ V, (seg a).head ≤ (seg a).tail
  apart : ∀ a ∈ V, ∀ b ∈ V, (seg a).row = (seg b).row → a = b ∨ (seg a).Apart (seg b)

namespace Decomposes

variable {ν : Type*} {fg : Cell → Prop} {V : Set ν} {seg : ν → Segment} {a b : ν} {p q : Cell}
  {edges : List (ν × ν)}

section

variable (h : Decomposes fg V seg)

include h

/-- A segment has a cell. -/
theorem covers_head (ha : a ∈ V) :
    (seg a).Covers ((seg a).row, (seg a).head) :=
  ⟨rfl, le_rfl, h.head_le a ha⟩

theorem near_cases (ha : a ∈ V) (hb : b ∈ V) (hpa : (seg a).Covers p) (hqb : (seg b).Covers q)
    (hnear : Near p q) : a = b ∨ (seg a).Touches (seg b) ∨ (seg b).Touches (seg a) := by
  obtain ⟨hp, hap, hpa⟩ := hpa
  obtain ⟨hq, hbq, hqb⟩ := hqb
  obtain ⟨hpq, hqp, hcol, hcol'⟩ := hnear
  have hrows : (seg a).row = (seg b).row ∨ (seg a).row + 1 = (seg b).row ∨
      (seg b).row + 1 = (seg a).row := by omega
  rcases hrows with hrow | hrow | hrow
  · rcases h.apart a ha b hb hrow with heq | hapart | hapart
    · exact .inl heq
    · omega
    · omega
  · exact .inr (.inl ⟨hrow, by omega, by omega⟩)
  · exact .inr (.inr ⟨hrow, by omega, by omega⟩)

/-- A cell is in one segment only. -/
theorem covers_unique (ha : a ∈ V) (hb : b ∈ V) (hpa : (seg a).Covers p) (hpb : (seg b).Covers p) :
    a = b := by
  have hrow : (seg a).row = (seg b).row := hpa.1.symm.trans hpb.1
  rcases h.apart a ha b hb hrow with heq | hapart | hapart
  · exact heq
  · have := hpa.2
    have := hpb.2
    omega
  · have := hpa.2
    have := hpb.2
    omega

theorem connected_within (ha : a ∈ V) (hp : (seg a).Covers p) (hq : (seg a).Covers q) :
    Connected fg p q := by
  have hright : ∀ {p q : Cell}, (seg a).Covers p → (seg a).Covers q → p.2 ≤ q.2 →
      Connected fg p q := by
    intro p q hp hq hle
    have hcells : ∀ c, p.2 ≤ c → c ≤ q.2 → fg (p.1, c) := fun c hc hc' =>
      h.foreground a ha _ ⟨hp.1, hp.2.1.trans hc, hc'.trans hq.2.2⟩
    have hrow : q = (p.1, q.2) := Prod.ext (hq.1.trans hp.1.symm) rfl
    rw [hrow]
    exact connected_right hle hcells
  rcases le_total p.2 q.2 with hle | hle
  · exact hright hp hq hle
  · exact (hright hq hp hle).symm

/-- Segments that touch have a cell each that are near. -/
theorem connected_of_touches (ha : a ∈ V) (hb : b ∈ V) (ht : (seg a).Touches (seg b))
    (hp : (seg a).Covers p) (hq : (seg b).Covers q) : Connected fg p q := by
  have hla := h.head_le a ha
  have hlb := h.head_le b hb
  obtain ⟨hrow, hle, hle'⟩ := ht
  -- the last column of the upper segment that is at most one behind the lower one
  have hca : (seg a).Covers ((seg a).row, min (seg a).tail ((seg b).tail + 1)) :=
    ⟨rfl, by simp only; omega, by simp only; omega⟩
  have hcb : (seg b).Covers ((seg b).row, min (seg b).tail ((seg a).tail + 1)) :=
    ⟨rfl, by simp only; omega, by simp only; omega⟩
  have hnear : Near ((seg a).row, min (seg a).tail ((seg b).tail + 1))
      ((seg b).row, min (seg b).tail ((seg a).tail + 1)) := by
    simp only [Near]
    omega
  have hbridge := connected_of_near (h.foreground a ha _ hca) (h.foreground b hb _ hcb) hnear
  exact ((h.connected_within ha hp hca).trans hbridge).trans (h.connected_within hb hcb hq)

theorem connected_of_joined (hedges : ∀ e ∈ edges, e.1 ∈ V ∧ e.2 ∈ V ∧ (seg e.1).Touches (seg e.2))
    (hj : Joined edges a b) : a = b ∨ (a ∈ V ∧ b ∈ V ∧
      ∀ p q, (seg a).Covers p → (seg b).Covers q → Connected fg p q) := by
  induction hj with
  | rel a b hab =>
    obtain ⟨ha, hb, ht⟩ := hedges _ hab
    exact .inr ⟨ha, hb, fun p q hp hq => h.connected_of_touches ha hb ht hp hq⟩
  | refl a => exact .inl rfl
  | symm a b _ ih =>
    rcases ih with rfl | ⟨ha, hb, hpath⟩
    · exact .inl rfl
    · exact .inr ⟨hb, ha, fun p q hp hq => (hpath q p hq hp).symm⟩
  | trans a b c _ _ ihab ihbc =>
    rcases ihab with rfl | ⟨ha, hb, hpath⟩
    · exact ihbc
    rcases ihbc with rfl | ⟨_, hc, hpath'⟩
    · exact .inr ⟨ha, hb, hpath⟩
    have hmid := h.covers_head hb
    exact .inr ⟨ha, hc, fun p q hp hq => (hpath p _ hp hmid).trans (hpath' _ q hmid hq)⟩

/-- A path from a cell of a segment ends in a segment that is joined to it. -/
theorem joined_of_connected (hedges : ∀ a ∈ V, ∀ b ∈ V, (seg a).Touches (seg b) → (a, b) ∈ edges)
    (ha : a ∈ V) (hp : (seg a).Covers p) (hpath : Connected fg p q) :
    ∀ b ∈ V, (seg b).Covers q → Joined edges a b := by
  induction hpath with
  | refl =>
    intro b hb hq
    obtain rfl := h.covers_unique ha hb hp hq
    exact joined_refl _ _
  | tail _ hstep ih =>
    intro c hc hq
    obtain ⟨hfg, _, hnear⟩ := hstep
    obtain ⟨b, hb, hcover⟩ := h.covered _ hfg
    have hab := ih b hb hcover
    rcases h.near_cases hb hc hcover hq hnear with rfl | ht | ht
    · exact hab
    · exact hab.trans (joined_of_mem (hedges b hb c hc ht))
    · exact hab.trans (joined_of_mem (hedges c hc b hb ht)).symm

theorem connected_iff_joined
    (hedges : ∀ a b, (a, b) ∈ edges ↔ a ∈ V ∧ b ∈ V ∧ (seg a).Touches (seg b)) (ha : a ∈ V)
    (hb : b ∈ V) (hp : (seg a).Covers p) (hq : (seg b).Covers q) :
    Connected fg p q ↔ Joined edges a b := by
  constructor
  · intro hpath
    exact h.joined_of_connected (fun a ha b hb ht => (hedges a b).mpr ⟨ha, hb, ht⟩) ha hp hpath b
      hb hq
  · intro hj
    rcases h.connected_of_joined (fun e he => (hedges e.1 e.2).mp he) hj with rfl | ⟨_, _, hpath⟩
    · exact h.connected_within ha hp hq
    · exact hpath p q hp hq

end

end Decomposes

/-- The least and the greatest column and row of a set of segments. -/
structure IsBox (S : Set Segment) (x1 x2 y1 y2 : Nat) : Prop where
  left : IsLeast (Segment.head '' S) x1
  right : IsGreatest (Segment.tail '' S) x2
  top : IsLeast (Segment.row '' S) y1
  bottom : IsGreatest (Segment.row '' S) y2

namespace IsBox

variable {S T : Set Segment} {s : Segment} {x1 x2 y1 y2 x1' x2' y1' y2' : Nat}

theorem singleton (s : Segment) : IsBox {s} s.head s.tail s.row s.row where
  left := by rw [image_singleton]; exact isLeast_singleton
  right := by rw [image_singleton]; exact isGreatest_singleton
  top := by rw [image_singleton]; exact isLeast_singleton
  bottom := by rw [image_singleton]; exact isGreatest_singleton

theorem union (h : IsBox S x1 x2 y1 y2) (h' : IsBox T x1' x2' y1' y2') :
    IsBox (S ∪ T) (min x1 x1') (max x2 x2') (min y1 y1') (max y2 y2') where
  left := by rw [image_union]; exact h.left.union h'.left
  right := by rw [image_union]; exact h.right.union h'.right
  top := by rw [image_union]; exact h.top.union h'.top
  bottom := by rw [image_union]; exact h.bottom.union h'.bottom

theorem cells {C : Set Cell} (h : IsBox S x1 x2 y1 y2)
    (hS : ∀ s ∈ S, s.head ≤ s.tail) (hC : ∀ p, p ∈ C ↔ ∃ s ∈ S, s.Covers p) :
    IsBoundingBox C x1 x2 y1 y2 := by
  have hhead : ∀ s ∈ S, (s.row, s.head) ∈ C := fun s hs => (hC _).mpr ⟨s, hs, rfl, le_rfl, hS s hs⟩
  have htail : ∀ s ∈ S, (s.row, s.tail) ∈ C := fun s hs => (hC _).mpr ⟨s, hs, rfl, hS s hs, le_rfl⟩
  refine ⟨⟨?_, ?_⟩, ⟨?_, ?_⟩, ⟨?_, ?_⟩, ⟨?_, ?_⟩⟩
  · obtain ⟨s, hs, hx⟩ := h.left.1
    exact ⟨_, hhead s hs, hx⟩
  · intro _ ⟨p, hp, hx⟩
    obtain ⟨s, hs, hcover⟩ := (hC p).mp hp
    exact hx ▸ (h.left.2 ⟨s, hs, rfl⟩).trans hcover.2.1
  · obtain ⟨s, hs, hx⟩ := h.right.1
    exact ⟨_, htail s hs, hx⟩
  · intro _ ⟨p, hp, hx⟩
    obtain ⟨s, hs, hcover⟩ := (hC p).mp hp
    exact hx ▸ hcover.2.2.trans (h.right.2 ⟨s, hs, rfl⟩)
  · obtain ⟨s, hs, hy⟩ := h.top.1
    exact ⟨_, hhead s hs, hy⟩
  · intro _ ⟨p, hp, hy⟩
    obtain ⟨s, hs, hcover⟩ := (hC p).mp hp
    exact hy ▸ (h.top.2 ⟨s, hs, rfl⟩).trans_eq hcover.1.symm
  · obtain ⟨s, hs, hy⟩ := h.bottom.1
    exact ⟨_, hhead s hs, hy⟩
  · intro _ ⟨p, hp, hy⟩
    obtain ⟨s, hs, hcover⟩ := (hC p).mp hp
    exact hy ▸ hcover.1.trans_le (h.bottom.2 ⟨s, hs, rfl⟩)

end IsBox

end Segments
