import FullhanRtos.Lib.LinkedRing

/-!
# Two intrusive lists

Links `next` and `prev` in the nodes of circular lists, with the operations of such lists as they
write them: `init`, `insertAfter`, `insertBefore` and `remove`. `Pair links a b xs ys` says that two
lists with the heads `a` and `b` hold the nodes `xs` and `ys`, and share none. Every operation on
one list keeps the other; `Pair.symm` gives the lemmas about the second list.

`Shared` adds the nodes that are in no list: every node is in one list or out of both. Nodes are
taken out from the front and put back at the end.
-/

namespace ListPair

open LinkedRing Function List

variable {ι : Type*}

/-! ## Operations -/

/-- The links of all nodes. -/
structure Links (ι : Type*) where
  next : ι → ι
  prev : ι → ι

namespace Links

variable [DecidableEq ι] (links : Links ι) (l n q : ι)

def setNext (p : ι) : Links ι := { links with next := update links.next n p }

def setPrev (p : ι) : Links ι := { links with prev := update links.prev n p }

/-- An empty list. -/
def init : Links ι := (links.setPrev l l).setNext l l

/-- Link a node behind another one. -/
def insertAfter : Links ι :=
  let links := links.setPrev (links.next l) n
  let links := links.setNext n (links.next l)
  (links.setNext l n).setPrev n l

def insertBefore : Links ι :=
  let links := links.setNext (links.prev l) n
  let links := links.setPrev n (links.prev l)
  (links.setPrev l n).setNext n l

/-- Unlink a node, which points at itself afterwards. -/
def remove : Links ι :=
  let links := links.setPrev (links.next n) (links.prev n)
  let links := links.setNext (links.prev n) (links.next n)
  (links.setPrev n n).setNext n n

/-- Empty lists with the heads `l` and `n`, and nodes linked into the first one after the other. -/
def rebuild (nodes : List ι) : Links ι :=
  nodes.foldl (fun links p => links.insertAfter l p) ((links.init l).init n)

/-- The list with the head `l` is empty. -/
def isEmpty : Bool := decide (links.next l = l)

/-- The nodes behind `p`, up to the head `l`, when a walk over at most `fuel` nodes gets there. -/
def lenFrom (l : ι) : Nat → ι → Option Nat
  | 0, _ => none
  | fuel + 1, p =>
    if links.next p = l then some 0 else (lenFrom l fuel (links.next p)).map (· + 1)

/-- The length of the list with the head `l`. -/
def len (fuel : Nat) : Option Nat := links.lenFrom l fuel l

theorem init_next : (links.init l).next q = if q = l then l else links.next q :=
  update_apply ..

theorem init_prev : (links.init l).prev q = if q = l then l else links.prev q :=
  update_apply ..

theorem insert_after_next : (links.insertAfter l n).next q =
    if q = l then n else if q = n then links.next l else links.next q := by
  simp only [insertAfter, setNext, setPrev, update_apply]

theorem insert_after_prev : (links.insertAfter l n).prev q =
    if q = n then l else if q = links.next l then n else links.prev q := by
  simp only [insertAfter, setNext, setPrev, update_apply]

theorem insert_before_next : (links.insertBefore l n).next q =
    if q = n then l else if q = links.prev l then n else links.next q := by
  simp only [insertBefore, setNext, setPrev, update_apply]

theorem insert_before_prev : (links.insertBefore l n).prev q =
    if q = l then n else if q = n then links.prev l else links.prev q := by
  simp only [insertBefore, setNext, setPrev, update_apply]

theorem remove_next : (links.remove n).next q =
    if q = n then n else if q = links.prev n then links.next n else links.next q := by
  simp only [remove, setNext, setPrev, update_apply, ite_self]

theorem remove_prev : (links.remove n).prev q =
    if q = n then n else if q = links.next n then links.prev n else links.prev q := by
  simp only [remove, setNext, setPrev, update_apply]

end Links

/-! ## Two lists -/

structure Pair (links : Links ι) (a b : ι) (xs ys : List ι) : Prop where
  first : IsRing links.next links.prev (a :: xs)
  second : IsRing links.next links.prev (b :: ys)
  nodup : ((a :: xs) ++ (b :: ys)).Nodup

variable {links : Links ι} {a b p : ι} {xs ys : List ι}

/-- The lists the other way round. -/
theorem Pair.symm (h : Pair links a b xs ys) : Pair links b a ys xs :=
  ⟨h.second, h.first, nodup_append_comm.mp h.nodup⟩

theorem Pair.first_nodup (h : Pair links a b xs ys) : (a :: xs).Nodup :=
  (nodup_append'.mp h.nodup).1

/-- A node of the first list is not in the second one. -/
theorem Pair.ne (h : Pair links a b xs ys) {p q : ι} (hp : p ∈ a :: xs) (hq : q ∈ b :: ys) :
    q ≠ p := by
  rintro rfl
  exact (nodup_append'.mp h.nodup).2.2 hp hq

/-- The first node of a list that is not empty. -/
theorem Pair.next_head (h : Pair links a b (p :: xs) ys) : links.next a = p :=
  h.first.next_head

/-- A write that keeps the links of the second list's nodes keeps that list. -/
theorem Pair.second_kept (h : Pair links a b xs ys) {links' : Links ι}
    (hnext : ∀ q ∈ b :: ys, links'.next q = links.next q)
    (hprev : ∀ q ∈ b :: ys, links'.prev q = links.prev q) :
    IsRing links'.next links'.prev (b :: ys) :=
  h.second.congr hnext hprev

/-- The nodes of two lists: each one once, and not the heads. -/
structure Members (a b : ι) (nodes : List ι) : Prop where
  ne : a ≠ b
  nodup : nodes.Nodup
  first : a ∉ nodes
  second : b ∉ nodes

structure Shared (links : Links ι) (a b : ι) (nodes xs ys out : List ι) : Prop where
  pair : Pair links a b xs ys
  all : (xs ++ (ys ++ out)).Perm nodes

theorem Members.symm {nodes : List ι} (h : Members a b nodes) : Members b a nodes :=
  ⟨h.ne.symm, h.nodup, h.second, h.first⟩

theorem Shared.symm {nodes out : List ι} (h : Shared links a b nodes xs ys out) :
    Shared links b a nodes ys xs out :=
  ⟨h.pair.symm, (perm_append_comm_assoc ys xs out).trans h.all⟩

theorem Shared.perm {nodes out out' : List ι} (h : Shared links a b nodes xs ys out)
    (hout : out'.Perm out) : Shared links a b nodes xs ys out' :=
  ⟨h.pair, ((hout.append_left ys).append_left xs).trans h.all⟩

variable [DecidableEq ι] {fuel : Nat}

theorem Pair.is_empty_iff (h : Pair links a b xs ys) : links.isEmpty a = true ↔ xs = [] := by
  unfold Links.isEmpty
  rw [decide_eq_true_iff, h.first.next_eq_self_iff h.first_nodup mem_cons_self, List.cons.injEq]
  exact and_iff_right rfl

open Links

/-- The walk along a path counts its nodes. -/
theorem len_from_eq (hpath : Path links.next links.prev p xs a) (hnot : a ∉ xs)
    (hfuel : xs.length < fuel) : links.lenFrom a fuel p = some xs.length := by
  induction xs generalizing p fuel with
  | nil =>
    obtain ⟨fuel, rfl⟩ := Nat.exists_eq_add_one_of_ne_zero (Nat.ne_of_gt hfuel)
    rw [lenFrom, if_pos hpath.1]
    rfl
  | cons q xs ih =>
    obtain ⟨fuel, rfl⟩ := Nat.exists_eq_add_one_of_ne_zero (Nat.ne_zero_of_lt hfuel)
    obtain ⟨⟨hnext, -⟩, hrest⟩ := hpath
    have hne : q ≠ a := fun heq => hnot (heq ▸ mem_cons_self)
    have hwalk := ih hrest (fun hmem => hnot (mem_cons_of_mem _ hmem))
      (Nat.lt_of_succ_lt_succ hfuel)
    rw [lenFrom, hnext, if_neg hne, hwalk]
    rfl

/-- The length of a list, found by a walk that is long enough. -/
theorem Pair.len_eq (h : Pair links a b xs ys) (hfuel : xs.length < fuel) :
    links.len a fuel = some xs.length :=
  len_from_eq h.first (nodup_cons.mp h.first_nodup).1 hfuel

/-- New empty lists. -/
theorem Pair.init (links : Links ι) (hne : a ≠ b) :
    Pair ((links.init a).init b) a b [] [] := by
  refine ⟨?_, ?_, ?_⟩
  · refine isRing_singleton.mpr ⟨?_, ?_⟩
    · rw [init_next, if_neg hne, init_next, if_pos rfl]
    · rw [init_prev, if_neg hne, init_prev, if_pos rfl]
  · refine isRing_singleton.mpr ⟨?_, ?_⟩
    · rw [init_next, if_pos rfl]
    · rw [init_prev, if_pos rfl]
  · simpa using hne

/-- A node in no list becomes the last one of the first list. -/
theorem Pair.insert_before (h : Pair links a b xs ys) (hp : p ∉ (a :: xs) ++ (b :: ys)) :
    Pair (links.insertBefore a p) a b (xs ++ [p]) ys := by
  have hfresh : ∀ q ∈ (a :: xs) ++ (b :: ys), q ≠ p := fun q hq heq => hp (heq ▸ hq)
  have hlast : links.prev a ∈ a :: xs := h.first.prev_mem mem_cons_self
  have hin : ∀ q ∈ a :: xs, q ≠ p := fun q hq => hfresh q (mem_append_left _ hq)
  refine ⟨?_, ?_, ?_⟩
  · refine h.first.insert_last h.first_nodup ?_ ?_ ?_ ?_ ?_ ?_
    · rw [insert_before_next, if_pos rfl]
    · rw [insert_before_prev, if_neg (hin a mem_cons_self).symm, if_pos rfl]
    · rw [insert_before_next, if_neg (hin _ hlast), if_pos rfl]
    · rw [insert_before_prev, if_pos rfl]
    · intro q hq hne
      rw [insert_before_next, if_neg (hin q hq), if_neg hne]
    · intro q hq
      have hqa : q ≠ a := fun heq => (nodup_cons.mp h.first_nodup).1 (heq ▸ hq)
      rw [insert_before_prev, if_neg hqa, if_neg (hin q (mem_cons_of_mem _ hq))]
  · refine h.second_kept (fun q hq => ?_) fun q hq => ?_
    · rw [insert_before_next, if_neg (hfresh q (mem_append_right _ hq)),
        if_neg (h.ne hlast hq)]
    · rw [insert_before_prev, if_neg (h.ne mem_cons_self hq),
        if_neg (hfresh q (mem_append_right _ hq))]
  · have hperm : ((a :: (xs ++ [p])) ++ (b :: ys)).Perm (p :: ((a :: xs) ++ (b :: ys))) := by
      have hmove : ((a :: xs) ++ [p] ++ (b :: ys)).Perm (p :: ((a :: xs) ++ (b :: ys))) := by
        rw [append_assoc, singleton_append]
        exact perm_middle
      exact hmove
    exact hperm.nodup_iff.mpr (nodup_cons.mpr ⟨hp, h.nodup⟩)

/-- A node in no list becomes the first one of the first list. -/
theorem Pair.insert_after (h : Pair links a b xs ys) (hp : p ∉ (a :: xs) ++ (b :: ys)) :
    Pair (links.insertAfter a p) a b (p :: xs) ys := by
  have hfresh : ∀ q ∈ (a :: xs) ++ (b :: ys), q ≠ p := fun q hq heq => hp (heq ▸ hq)
  have hnext : links.next a ∈ a :: xs := h.first.next_mem mem_cons_self
  have hin : ∀ q ∈ a :: xs, q ≠ p := fun q hq => hfresh q (mem_append_left _ hq)
  refine ⟨?_, ?_, ?_⟩
  · refine h.first.insert_second h.first_nodup ?_ ?_ ?_ ?_ ?_ ?_
    · rw [insert_after_next, if_pos rfl]
    · rw [insert_after_prev, if_pos rfl]
    · rw [insert_after_next, if_neg (hin a mem_cons_self).symm, if_pos rfl]
    · rw [insert_after_prev, if_neg (hin _ hnext), if_pos rfl]
    · intro q hq
      have hqa : q ≠ a := fun heq => (nodup_cons.mp h.first_nodup).1 (heq ▸ hq)
      rw [insert_after_next, if_neg hqa, if_neg (hin q (mem_cons_of_mem _ hq))]
    · intro q hq hne
      rw [insert_after_prev, if_neg (hin q hq), if_neg hne]
  · refine h.second_kept (fun q hq => ?_) fun q hq => ?_
    · rw [insert_after_next, if_neg (h.ne mem_cons_self hq),
        if_neg (hfresh q (mem_append_right _ hq))]
    · rw [insert_after_prev, if_neg (hfresh q (mem_append_right _ hq)),
        if_neg (h.ne hnext hq)]
  · have hperm : ((a :: p :: xs) ++ (b :: ys)).Perm (p :: ((a :: xs) ++ (b :: ys))) := Perm.swap ..
    exact hperm.nodup_iff.mpr (nodup_cons.mpr ⟨hp, h.nodup⟩)

/-- Unlinking a node of the first list. -/
theorem Pair.remove (h : Pair links a b xs ys) (hp : p ∈ xs) :
    Pair (links.remove p) a b (xs.erase p) ys := by
  have hmem : p ∈ a :: xs := mem_cons_of_mem _ hp
  have hprev : links.prev p ∈ a :: xs := h.first.prev_mem hmem
  have hnext : links.next p ∈ a :: xs := h.first.next_mem hmem
  have hpa : a ≠ p := fun heq => (nodup_cons.mp h.first_nodup).1 (heq ▸ hp)
  -- a list that is not empty has a node beside `p`
  have hbeside : links.next p ≠ p ∧ links.prev p ≠ p := by
    have hnot : ¬ (a :: xs) = [p] := fun heq => hpa (List.cons.inj heq).1
    refine ⟨fun heq => hnot ((h.first.next_eq_self_iff h.first_nodup hmem).mp heq), fun heq => ?_⟩
    have hself := h.first.next_prev hmem
    rw [heq] at hself
    exact hnot ((h.first.next_eq_self_iff h.first_nodup hmem).mp hself)
  refine ⟨?_, ?_, ?_⟩
  · have hring : IsRing (links.remove p).next (links.remove p).prev ((a :: xs).erase p) := by
      refine h.first.erase h.first_nodup hmem ?_ ?_ ?_ ?_
      · rw [remove_next, if_neg hbeside.2, if_pos rfl]
      · rw [remove_prev, if_neg hbeside.1, if_pos rfl]
      · intro q _ hqp hqprev
        rw [remove_next, if_neg hqp, if_neg hqprev]
      · intro q _ hqp hqnext
        rw [remove_prev, if_neg hqp, if_neg hqnext]
    rwa [erase_cons_tail (by simpa using hpa)] at hring
  · refine h.second_kept (fun q hq => ?_) fun q hq => ?_
    · rw [remove_next, if_neg (h.ne hmem hq), if_neg (h.ne hprev hq)]
    · rw [remove_prev, if_neg (h.ne hmem hq), if_neg (h.ne hnext hq)]
  · have hsub : ((a :: xs.erase p) ++ (b :: ys)).Sublist ((a :: xs) ++ (b :: ys)) :=
      (erase_sublist.cons_cons a).append_right _
    exact h.nodup.sublist hsub

/-- Unlinking the first node. -/
theorem Pair.remove_head (h : Pair links a b (p :: xs) ys) : Pair (links.remove p) a b xs ys := by
  have herase := h.remove mem_cons_self
  rwa [erase_cons_head] at herase

/-! ## Nodes in and out of the lists -/

section

variable {nodes out out' : List ι}

omit [DecidableEq ι] in
theorem Shared.not_linked (hnodes : Members a b nodes) (h : Shared links a b nodes xs ys out)
    (hp : p ∈ out) : p ∉ (a :: xs) ++ (b :: ys) := by
  have hnodup := h.all.nodup_iff.mpr hnodes.nodup
  rw [nodup_append', nodup_append'] at hnodup
  obtain ⟨-, ⟨-, -, hys⟩, hxs⟩ := hnodup
  have hmem : p ∈ nodes := h.all.subset (mem_append_right _ (mem_append_right _ hp))
  simp only [cons_append, mem_cons, mem_append, not_or]
  refine ⟨fun heq => hnodes.first (heq ▸ hmem), fun hx => ?_, fun heq => hnodes.second (heq ▸ hmem),
    fun hy => hys hy hp⟩
  exact hxs hx (mem_append_right _ hp)

theorem Shared.take (h : Shared links a b nodes (p :: xs) ys out) :
    Shared (links.remove p) a b nodes xs ys (p :: out) := by
  refine ⟨h.pair.remove_head, ?_⟩
  have hmove : (xs ++ (ys ++ p :: out)).Perm (p :: xs ++ (ys ++ out)) := by
    rw [← append_assoc, ← append_assoc, cons_append, cons_append]
    exact perm_middle
  exact hmove.trans h.all

theorem Shared.put (hnodes : Members a b nodes) (h : Shared links a b nodes xs ys out)
    (hout : out.Perm (p :: out')) :
    Shared (links.insertBefore a p) a b nodes (xs ++ [p]) ys out' := by
  have hp : p ∈ out := hout.symm.subset mem_cons_self
  refine ⟨h.pair.insert_before (h.not_linked hnodes hp), ?_⟩
  have hmove : (xs ++ [p] ++ (ys ++ out')).Perm (xs ++ (ys ++ p :: out')) := by
    rw [append_assoc, singleton_append]
    exact (perm_middle.symm).append_left xs
  exact hmove.trans (((hout.symm.append_left ys).append_left xs).trans h.all)

theorem Pair.insert_all {more : List ι} (h : Pair links a b xs ys) (hmore : more.Nodup)
    (hfresh : ∀ p ∈ more, p ∉ (a :: xs) ++ (b :: ys)) :
    Pair (more.foldl (fun links p => links.insertAfter a p) links) a b (more.reverse ++ xs) ys := by
  induction more generalizing links xs with
  | nil => exact h
  | cons p more ih =>
    obtain ⟨hnot, hmore⟩ := nodup_cons.mp hmore
    have hstep := h.insert_after (hfresh p mem_cons_self)
    have hfresh' : ∀ q ∈ more, q ∉ (a :: p :: xs) ++ (b :: ys) := by
      intro q hq hmem
      have hne : q ≠ p := fun heq => hnot (heq ▸ hq)
      refine hfresh q (mem_cons_of_mem _ hq) ?_
      simp only [cons_append, mem_cons, mem_append] at hmem ⊢
      tauto
    have hall := ih hstep hmore hfresh'
    rw [foldl_cons, reverse_cons, append_assoc, singleton_append]
    exact hall

theorem Shared.push (hnodes : Members a b nodes) (h : Shared links a b nodes xs ys out)
    (hout : out.Perm (p :: out')) :
    Shared (links.insertAfter a p) a b nodes (p :: xs) ys out' := by
  have hp : p ∈ out := hout.symm.subset mem_cons_self
  refine ⟨h.pair.insert_after (h.not_linked hnodes hp), ?_⟩
  have hmove : (p :: xs ++ (ys ++ out')).Perm (xs ++ (ys ++ p :: out')) :=
    perm_middle.symm.trans (perm_middle.symm.append_left xs)
  exact hmove.trans (((hout.symm.append_left ys).append_left xs).trans h.all)

theorem Shared.init (hnodes : Members a b nodes) (links : Links ι) :
    Shared ((links.init a).init b) a b nodes [] [] nodes :=
  ⟨Pair.init links hnodes.ne, Perm.refl _⟩

omit [DecidableEq ι] in
theorem Shared.length_le (h : Shared links a b nodes xs ys out) : xs.length ≤ nodes.length := by
  rw [← h.all.length_eq, length_append]
  exact Nat.le_add_right ..

/-- Rebuilt lists: all nodes are in the first one. -/
theorem Shared.rebuild (hnodes : Members a b nodes) (links : Links ι) :
    Shared (links.rebuild a b nodes) a b nodes nodes.reverse [] [] := by
  have hfresh : ∀ p ∈ nodes, p ∉ ([a] : List ι) ++ [b] := by
    intro p hp hmem
    simp only [singleton_append, mem_cons, not_mem_nil, or_false] at hmem
    rcases hmem with rfl | rfl
    · exact hnodes.first hp
    · exact hnodes.second hp
  have hpair := (Pair.init links hnodes.ne).insert_all hnodes.nodup hfresh
  rw [append_nil] at hpair
  exact ⟨hpair, by rw [append_nil, append_nil]; exact reverse_perm nodes⟩

end

end ListPair
