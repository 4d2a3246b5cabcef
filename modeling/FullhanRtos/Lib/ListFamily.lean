import FullhanRtos.Lib.ListPair
import Mathlib.Data.Set.Insert

/-!
# Many intrusive lists

The lists with the heads `head k`, for the `k` of a set, whose nodes are linked like those of
`ListPair`. `Family links head live lists` says that the list of each `k` of `live` is linked and
holds `lists k`, and that no node is on two lists. Nodes are put behind the last one and unlinked.

`forEachSafe` is the walk that reads the next node before it visits one, so that the visit may move
the node. `for_each_rule` is its induction rule.
-/

namespace ListFamily

open LinkedRing ListPair Function List Links

variable {ι κ : Type*}

structure Family (links : Links ι) (head : κ → ι) (live : Set κ) (lists : κ → List ι) : Prop where
  ring : ∀ k ∈ live, IsRing links.next links.prev (head k :: lists k)
  nodup : ∀ k ∈ live, (head k :: lists k).Nodup
  apart : ∀ k ∈ live, ∀ k' ∈ live, k ≠ k' → List.Disjoint (head k :: lists k) (head k' :: lists k')

/-- A node is in none of the lists. -/
def Loose (head : κ → ι) (live : Set κ) (lists : κ → List ι) (p : ι) : Prop :=
  ∀ k ∈ live, p ∉ head k :: lists k

variable {links links' : Links ι} {head : κ → ι} {live live' : Set κ} {lists : κ → List ι}
  {k k' : κ} {p : ι} {xs : List ι}

section

variable (h : Family links head live lists)

include h

theorem Family.mono (hsub : live' ⊆ live) :
    Family links head live' lists :=
  ⟨fun k hk => h.ring k (hsub hk), fun k hk => h.nodup k (hsub hk),
    fun k hk k' hk' => h.apart k (hsub hk) k' (hsub hk')⟩

theorem Family.congr (hnext : ∀ q, ¬ Loose head live lists q → links'.next q = links.next q)
    (hprev : ∀ q, ¬ Loose head live lists q → links'.prev q = links.prev q) :
    Family links' head live lists := by
  have hmember : ∀ k ∈ live, ∀ q ∈ head k :: lists k, ¬ Loose head live lists q :=
    fun k hk q hq hloose => hloose k hk hq
  refine ⟨fun k hk => ?_, h.nodup, h.apart⟩
  exact (h.ring k hk).congr (fun q hq => hnext q (hmember k hk q hq))
    fun q hq => hprev q (hmember k hk q hq)

theorem Family.ne (hk : k ∈ live) (hk' : k' ∈ live) (hne : k ≠ k') {p q : ι}
    (hp : p ∈ head k :: lists k) (hq : q ∈ head k' :: lists k') : q ≠ p := by
  rintro rfl
  exact h.apart k hk k' hk' hne hp hq

/-- The first node. -/
theorem Family.next_head (hk : k ∈ live) (hlist : lists k = p :: xs) : links.next (head k) = p := by
  have hring := h.ring k hk
  rw [hlist] at hring
  exact hring.next_head

end

variable [DecidableEq ι]

theorem Family.is_empty_iff (h : Family links head live lists) (hk : k ∈ live) :
    links.isEmpty (head k) = true ↔ lists k = [] := by
  unfold Links.isEmpty
  rw [decide_eq_true_iff,
    (h.ring k hk).next_eq_self_iff (h.nodup k hk) mem_cons_self, List.cons.injEq]
  exact and_iff_right rfl

/-- Unlink a node, whose own links stay as they are. -/
def unlink (links : Links ι) (p : ι) : Links ι :=
  (links.setPrev (links.next p) (links.prev p)).setNext (links.prev p) (links.next p)

theorem unlink_next (links : Links ι) (p q : ι) :
    (unlink links p).next q = if q = links.prev p then links.next p else links.next q := by
  simp only [unlink, setNext, setPrev, update_apply]

theorem unlink_prev (links : Links ι) (p q : ι) :
    (unlink links p).prev q = if q = links.next p then links.prev p else links.prev q := by
  simp only [unlink, setNext, setPrev, update_apply]

variable [DecidableEq κ]

theorem Family.init (h : Family links head live lists)
    (hfresh : ∀ k' ∈ live, k' ≠ k → head k ∉ head k' :: lists k') :
    Family (links.init (head k)) head (insert k live) (update lists k []) := by
  have hcase : ∀ k' ∈ insert k live, k' = k ∨ k' ≠ k ∧ k' ∈ live := by
    intro k' hk'
    by_cases heq : k' = k
    · exact .inl heq
    · exact .inr ⟨heq, Set.mem_of_mem_insert_of_ne hk' heq⟩
  have hself : ∀ k', k' = k → head k' :: update lists k [] k' = [head k] := by
    rintro k' rfl
    rw [update_self]
  have hother : ∀ k', k' ≠ k → head k' :: update lists k [] k' = head k' :: lists k' :=
    fun k' hne => by rw [update_of_ne hne]
  refine ⟨?ring, ?nodup, ?apart⟩
  case ring =>
    intro k' hk'
    rcases hcase k' hk' with heq | ⟨hne, hlive⟩
    · rw [hself k' heq, isRing_singleton, init_next, init_prev]
      exact ⟨if_pos rfl, if_pos rfl⟩
    · rw [hother k' hne]
      have hnot : ∀ q ∈ head k' :: lists k', q ≠ head k :=
        fun q hq heq => hfresh k' hlive hne (heq ▸ hq)
      refine (h.ring k' hlive).congr (fun q hq => ?_) fun q hq => ?_
      · rw [init_next, if_neg (hnot q hq)]
      · rw [init_prev, if_neg (hnot q hq)]
  case nodup =>
    intro k' hk'
    rcases hcase k' hk' with heq | ⟨hne, hlive⟩
    · rw [hself k' heq]
      exact nodup_singleton _
    · rw [hother k' hne]
      exact h.nodup k' hlive
  case apart =>
    intro k1 hk1 k2 hk2 hne
    rcases hcase k1 hk1 with heq1 | ⟨hne1, hlive1⟩ <;>
      rcases hcase k2 hk2 with heq2 | ⟨hne2, hlive2⟩
    · exact absurd (heq1.trans heq2.symm) hne
    · rw [hself k1 heq1, hother k2 hne2, singleton_disjoint]
      exact hfresh k2 hlive2 hne2
    · rw [hself k2 heq2, hother k1 hne1, disjoint_singleton]
      exact hfresh k1 hlive1 hne1
    · rw [hother k1 hne1, hother k2 hne2]
      exact h.apart k1 hlive1 k2 hlive2 hne

theorem Family.insert_before (h : Family links head live lists) (hk : k ∈ live)
    (hp : Loose head live lists p) :
    Family (links.insertBefore (head k) p) head live
      (update lists k (lists k ++ [p])) := by
  have hlast : links.prev (head k) ∈ head k :: lists k := (h.ring k hk).prev_mem mem_cons_self
  have hin : ∀ k' ∈ live, ∀ q ∈ head k' :: lists k', q ≠ p :=
    fun k' hk' q hq heq => hp k' hk' (heq ▸ hq)
  refine ⟨?ring, ?nodup, ?apart⟩
  case ring =>
    intro k' hk'
    by_cases hne : k' = k
    · subst hne
      rw [update_self]
      refine (h.ring k' hk).insert_last (h.nodup k' hk) ?_ ?_ ?_ ?_ ?_ ?_
      · rw [insert_before_next, if_pos rfl]
      · rw [insert_before_prev, if_neg (hin k' hk _ mem_cons_self).symm, if_pos rfl]
      · rw [insert_before_next, if_neg (hin k' hk _ hlast), if_pos rfl]
      · rw [insert_before_prev, if_pos rfl]
      · intro q hq hne
        rw [insert_before_next, if_neg (hin k' hk q hq), if_neg hne]
      · intro q hq
        have hqa : q ≠ head k' := fun heq => (nodup_cons.mp (h.nodup k' hk)).1 (heq ▸ hq)
        rw [insert_before_prev, if_neg hqa, if_neg (hin k' hk q (mem_cons_of_mem _ hq))]
    · rw [update_of_ne hne]
      have hother : ∀ q ∈ head k' :: lists k', ∀ r ∈ head k :: lists k, q ≠ r :=
        fun q hq r hr => h.ne hk hk' (Ne.symm hne) hr hq
      refine (h.ring k' hk').congr (fun q hq => ?_) fun q hq => ?_
      · rw [insert_before_next, if_neg (hin k' hk' q hq), if_neg (hother q hq _ hlast)]
      · rw [insert_before_prev, if_neg (hother q hq _ mem_cons_self),
          if_neg (hin k' hk' q hq)]
  case nodup =>
    intro k' hk'
    by_cases hne : k' = k
    · subst hne
      rw [update_self, ← cons_append, nodup_append_comm]
      exact nodup_cons.mpr ⟨hp k' hk, h.nodup k' hk⟩
    · rw [update_of_ne hne]
      exact h.nodup k' hk'
  case apart =>
    have hmem : ∀ k' q, q ∈ head k' :: update lists k (lists k ++ [p]) k' →
        q ∈ head k' :: lists k' ∨ k' = k ∧ q = p := by
      intro k' q hq
      by_cases hne : k' = k
      · subst hne
        rw [update_self, ← cons_append, mem_append, mem_singleton] at hq
        exact hq.imp_right fun heq => ⟨rfl, heq⟩
      · rw [update_of_ne hne] at hq
        exact .inl hq
    intro k1 hk1 k2 hk2 hne q hq1 hq2
    rcases hmem k1 q hq1 with hold1 | ⟨heq1, rfl⟩ <;> rcases hmem k2 q hq2 with hold2 | ⟨heq2, hq⟩
    · exact h.apart k1 hk1 k2 hk2 hne hold1 hold2
    · exact hp k1 hk1 (hq ▸ hold1)
    · exact hp k2 hk2 hold2
    · exact hne (heq1.trans heq2.symm)

theorem Family.unlink (h : Family links head live lists) (hk : k ∈ live)
    (hlist : lists k = p :: xs) :
    Family (unlink links p) head live (update lists k xs) := by
  have hnodup : (head k :: p :: xs).Nodup := hlist ▸ h.nodup k hk
  have hring : IsRing links.next links.prev (head k :: p :: xs) := hlist ▸ h.ring k hk
  have hmem : p ∈ head k :: p :: xs := mem_cons_of_mem _ mem_cons_self
  have hprev : links.prev p ∈ head k :: lists k := by rw [hlist]; exact hring.prev_mem hmem
  have hnext : links.next p ∈ head k :: lists k := by rw [hlist]; exact hring.next_mem hmem
  have hsub : ∀ k', (head k' :: update lists k xs k').Sublist (head k' :: lists k') := by
    intro k'
    by_cases hne : k' = k
    · subst hne
      rw [update_self, hlist]
      exact (sublist_cons_self p xs).cons_cons _
    · rw [update_of_ne hne]
  refine ⟨?ring, fun k' hk' => (h.nodup k' hk').sublist (hsub k'), ?apart⟩
  case ring =>
    intro k' hk'
    by_cases hne : k' = k
    · subst hne
      have herase : (head k' :: p :: xs).erase p = head k' :: xs := by
        have hpk : head k' ≠ p := fun heq =>
          (nodup_cons.mp hnodup).1 (heq ▸ mem_cons_self)
        rw [erase_cons_tail (by simpa using hpk), erase_cons_head]
      rw [update_self, ← herase]
      refine hring.erase hnodup hmem ?_ ?_ ?_ ?_
      · rw [unlink_next, if_pos rfl]
      · rw [unlink_prev, if_pos rfl]
      · intro q _ _ hqprev
        rw [unlink_next, if_neg hqprev]
      · intro q _ _ hqnext
        rw [unlink_prev, if_neg hqnext]
    · rw [update_of_ne hne]
      refine (h.ring k' hk').congr (fun q hq => ?_) fun q hq => ?_
      · rw [unlink_next, if_neg (h.ne hk hk' (Ne.symm hne) hprev hq)]
      · rw [unlink_prev, if_neg (h.ne hk hk' (Ne.symm hne) hnext hq)]
  case apart =>
    intro k1 hk1 k2 hk2 hne q hq1 hq2
    exact h.apart k1 hk1 k2 hk2 hne ((hsub k1).subset hq1) ((hsub k2).subset hq2)

omit [DecidableEq ι] in
theorem Family.unlink_loose (h : Family links head live lists) (hk : k ∈ live)
    (hlist : lists k = p :: xs) : Loose head live (update lists k xs) p := by
  have hmem : p ∈ head k :: lists k := by
    rw [hlist]
    exact mem_cons_of_mem _ mem_cons_self
  intro k' hk' hp
  by_cases hne : k' = k
  · subst hne
    have hnodup := h.nodup k' hk
    rw [hlist, nodup_cons, nodup_cons, mem_cons, not_or] at hnodup
    rw [update_self, mem_cons] at hp
    exact hp.elim (fun heq => hnodup.1.1 heq.symm) hnodup.2.1
  · rw [update_of_ne hne] at hp
    exact h.apart k' hk' k hk hne hp hmem

/-! ## Walks -/

variable {σ : Type*}

/-- Visit the nodes from `p` up to the head `l`. The next node is read before the visit. -/
def forEachSafe (links : σ → Links ι) (l : ι) (visit : ι → σ → Option σ) : Nat → ι → σ → Option σ
  | fuel, p, s =>
    if p = l then some s
    else match fuel with
      | 0 => none
      | fuel + 1 =>
        let n := (links s).next p
        (visit p s).bind (forEachSafe links l visit fuel n)

/-- The node to visit next. -/
def current (l : ι) (rest : List ι) : ι := rest.headD l

/-- Each node of `rest` leads to the next one, and the last to `l`. -/
def Chain (next : ι → ι) (l : ι) : List ι → Prop
  | [] => True
  | p :: rest => next p = current l rest ∧ Chain next l rest

omit [DecidableEq ι] [DecidableEq κ] in
theorem Chain.congr {next next' : ι → ι} {l : ι} {rest : List ι} (h : Chain next l rest)
    (hnext : ∀ q ∈ rest, next' q = next q) : Chain next' l rest := by
  induction rest with
  | nil => trivial
  | cons p rest ih =>
    refine ⟨(hnext p mem_cons_self).trans h.1, ih h.2 fun q hq => ?_⟩
    exact hnext q (mem_cons_of_mem _ hq)

omit [DecidableEq ι] [DecidableEq κ] in
theorem chain_of_path {next prev : ι → ι} {l p : ι} {rest : List ι}
    (h : Path next prev p rest l) : next p = current l rest ∧ Chain next l rest := by
  induction rest generalizing p with
  | nil => exact ⟨h.1, trivial⟩
  | cons q rest ih => exact ⟨h.1.1, ih h.2⟩

omit [DecidableEq ι] [DecidableEq κ] in
theorem Family.chain (h : Family links head live lists) (hk : k ∈ live) :
    links.next (head k) = current (head k) (lists k) ∧ Chain links.next (head k) (lists k) :=
  chain_of_path (h.ring k hk)

omit [DecidableEq κ] in
/-- The nodes of a list are visited one after the other. `I rest` holds before the nodes `rest` are
visited. -/
theorem for_each_rule (links : σ → Links ι) (l : ι) (visit : ι → σ → Option σ)
    (I : List ι → σ → Prop)
    (hvisit : ∀ p rest s, I (p :: rest) s → p ≠ l ∧ (links s).next p = current l rest ∧
      ∃ s', visit p s = some s' ∧ I rest s')
    {rest : List ι} {s : σ} (hstart : I rest s) {fuel : Nat} (hfuel : rest.length ≤ fuel) :
    ∃ s', forEachSafe links l visit fuel (current l rest) s = some s' ∧ I [] s' := by
  induction rest generalizing s fuel with
  | nil =>
    refine ⟨s, ?_, hstart⟩
    unfold forEachSafe
    exact if_pos rfl
  | cons p rest ih =>
    obtain ⟨fuel, rfl⟩ := Nat.exists_eq_add_one_of_ne_zero (Nat.ne_zero_of_lt hfuel)
    obtain ⟨hne, hnext, s1, hs1, hrest⟩ := hvisit p rest s hstart
    obtain ⟨s', hrun, hend⟩ := ih hrest (Nat.le_of_succ_le_succ hfuel)
    refine ⟨s', ?_, hend⟩
    rw [forEachSafe, show current l (p :: rest) = p from rfl, if_neg hne]
    show (visit p s).bind (forEachSafe links l visit fuel ((links s).next p)) = some s'
    rw [hs1, hnext]
    exact hrun

end ListFamily
