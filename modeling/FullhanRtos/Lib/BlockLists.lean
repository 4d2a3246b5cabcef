import FullhanRtos.Lib.ListFamily
import Mathlib.Data.List.Perm.Subperm

/-!
# Allocated blocks on intrusive lists

Blocks that `malloc` gives out are linked into lists through nodes of their own. `Tracked` says that
the lists of a set are linked, and that every allocated block is on one of them or in a set `loose`
of blocks that are held outside of the lists. Each operation moves a block from one place to
another; `Tracked.drain` is the rule for a walk that takes all blocks off a list.
-/

namespace BlockLists

open LinkedRing ListPair ListFamily Function List

variable {ι κ β : Type*}

/-- The nodes of the heads and of the blocks. -/
structure Nodes (ι κ β : Type*) where
  head : κ → ι
  block : β → ι
  head_injective : Function.Injective head
  block_injective : Function.Injective block
  head_ne : ∀ k b, head k ≠ block b

def Nodes.of (N : Nodes ι κ β) (lists : κ → List β) (k : κ) : List ι := (lists k).map N.block

structure Tracked (N : Nodes ι κ β) (links : Links ι) (blocks : List β) (live : Set κ)
    (lists : κ → List β) (loose : Set β) : Prop where
  family : Family links N.head live (N.of lists)
  loose_out : ∀ b ∈ loose, ∀ k ∈ live, b ∉ lists k
  used : ∀ b, b ∈ blocks ↔ b ∈ loose ∨ ∃ k ∈ live, b ∈ lists k
  blocks_nodup : blocks.Nodup

variable {N : Nodes ι κ β} {links links' : Links ι} {blocks : List β} {live live' : Set κ}
  {lists : κ → List β} {loose : Set β} {k k' : κ} {b b' : β} {bs : List β}

theorem block_mem : N.block b ∈ N.head k :: bs.map N.block ↔ b ∈ bs := by
  rw [mem_cons, mem_map_of_injective N.block_injective]
  exact or_iff_right (N.head_ne k b).symm

theorem loose_block_iff :
    Loose N.head live (N.of lists) (N.block b) ↔ ∀ k ∈ live, b ∉ lists k :=
  forall₂_congr fun _ _ => not_congr block_mem

section

variable (h : Tracked N links blocks live lists loose)

include h

theorem Tracked.nodup (hlive : k ∈ live) :
    (lists k).Nodup :=
  Nodup.of_map _ (nodup_cons.mp (h.family.nodup k hlive)).2

theorem Tracked.apart (hlive : k ∈ live) (hlive' : k' ∈ live) (hne : k ≠ k') :
    List.Disjoint (lists k) (lists k') := by
  intro b hb hb'
  exact h.family.apart k hlive k' hlive' hne (block_mem.mpr hb) (block_mem.mpr hb')

theorem Tracked.length_le (hlive : k ∈ live) :
    (lists k).length ≤ blocks.length :=
  ((h.nodup hlive).subperm fun b hb => (h.used b).mpr (.inr ⟨k, hlive, hb⟩)).length_le

theorem Tracked.next_head (hlive : k ∈ live) (hlist : lists k = b :: bs) :
    links.next (N.head k) = N.block b := by
  have hnode : N.of lists k = N.block b :: bs.map N.block := by
    rw [Nodes.of, hlist]
    rfl
  exact h.family.next_head hlive hnode

theorem Tracked.is_empty_iff [DecidableEq ι] (hlive : k ∈ live) :
    links.isEmpty (N.head k) = true ↔ lists k = [] := by
  rw [h.family.is_empty_iff hlive]
  exact map_eq_nil_iff

/-- A block that `malloc` gives out is held. -/
theorem Tracked.new_block (hnew : b ∉ blocks) :
    Tracked N links (b :: blocks) live lists (insert b loose) ∧ b ∉ loose := by
  refine ⟨⟨h.family, ?out, ?used, nodup_cons.mpr ⟨hnew, h.blocks_nodup⟩⟩,
    fun hin => hnew ((h.used b).mpr (.inl hin))⟩
  case out =>
    intro b' hb' p hp hmem
    rcases Set.mem_insert_iff.mp hb' with rfl | hb'
    · exact hnew ((h.used b').mpr (.inr ⟨p, hp, hmem⟩))
    · exact h.loose_out b' hb' p hp hmem
  case used =>
    intro b'
    rw [mem_cons, h.used b', Set.mem_insert_iff, or_assoc]

end

theorem Tracked.free_block [DecidableEq β]
    (h : Tracked N links blocks live lists (insert b loose)) (hout : b ∉ loose) :
    Tracked N links (blocks.erase b) live lists loose := by
  refine ⟨h.family, fun b' hb' => h.loose_out b' (Set.mem_insert_of_mem b hb'), ?used,
    h.blocks_nodup.erase b⟩
  intro b'
  rw [h.blocks_nodup.mem_erase_iff, h.used b', Set.mem_insert_iff]
  constructor
  · rintro ⟨hne, (heq | hin) | hin⟩
    · exact absurd heq hne
    · exact .inl hin
    · exact .inr hin
  · rintro (hin | ⟨p, hp, hmem⟩)
    · exact ⟨fun heq => hout (heq ▸ hin), .inl (.inr hin)⟩
    · refine ⟨?_, .inr ⟨p, hp, hmem⟩⟩
      rintro rfl
      exact h.loose_out b' (Set.mem_insert b' loose) p hp hmem

theorem Tracked.mono (h : Tracked N links blocks live lists loose) (hsub : live' ⊆ live)
    (hempty : ∀ k ∈ live, k ∉ live' → lists k = []) :
    Tracked N links blocks live' lists loose := by
  refine ⟨h.family.mono hsub, fun b hb k hk => h.loose_out b hb k (hsub hk), fun b => ?_,
    h.blocks_nodup⟩
  rw [h.used b]
  refine or_congr_right ⟨?_, fun ⟨k, hk, hmem⟩ => ⟨k, hsub hk, hmem⟩⟩
  rintro ⟨k, hk, hmem⟩
  by_cases hk' : k ∈ live'
  · exact ⟨k, hk', hmem⟩
  · rw [hempty k hk hk'] at hmem
    cases hmem

variable [DecidableEq κ]

theorem nodes_update (N : Nodes ι κ β) (lists : κ → List β) (k : κ) (bs : List β) :
    N.of (update lists k bs) = update (N.of lists) k (bs.map N.block) := by
  funext k'
  by_cases hne : k' = k
  · subst hne
    rw [Nodes.of, update_self, update_self]
  · rw [Nodes.of, update_of_ne hne, update_of_ne hne]
    rfl

theorem mem_update_append (lists : κ → List β) (hlive : k ∈ live) (b b' : β) :
    (∃ p ∈ live, b' ∈ update lists k (lists k ++ [b]) p) ↔ b' = b ∨ ∃ p ∈ live, b' ∈ lists p := by
  constructor
  · rintro ⟨p, hp, hmem⟩
    by_cases hne : p = k
    · subst hne
      rw [update_self, mem_append, mem_singleton] at hmem
      exact hmem.symm.imp_right fun hmem => ⟨p, hp, hmem⟩
    · rw [update_of_ne hne] at hmem
      exact .inr ⟨p, hp, hmem⟩
  · rintro (rfl | ⟨p, hp, hmem⟩)
    · refine ⟨k, hlive, ?_⟩
      rw [update_self]
      exact mem_append_right _ mem_cons_self
    · refine ⟨p, hp, ?_⟩
      by_cases hne : p = k
      · subst hne
        rw [update_self]
        exact mem_append_left _ hmem
      · rwa [update_of_ne hne]

variable [DecidableEq ι]

theorem Tracked.add_tail (h : Tracked N links blocks live lists (insert b loose))
    (hlive : k ∈ live) (hout : b ∉ loose) :
    Tracked N (links.insertBefore (N.head k) (N.block b)) blocks live
      (update lists k (lists k ++ [b])) loose := by
  have hb := h.loose_out b (Set.mem_insert b loose)
  refine ⟨?family, ?out, ?used, h.blocks_nodup⟩
  case family =>
    rw [nodes_update, map_append]
    exact h.family.insert_before hlive (loose_block_iff.mpr hb)
  case out =>
    intro b' hb' p hp hmem
    have hcase := (mem_update_append lists hlive b b').mp ⟨p, hp, hmem⟩
    rcases hcase with rfl | ⟨p', hp', hmem'⟩
    · exact hout hb'
    · exact h.loose_out b' (Set.mem_insert_of_mem b hb') p' hp' hmem'
  case used =>
    intro b'
    rw [mem_update_append lists hlive, h.used b', Set.mem_insert_iff]
    tauto

theorem Tracked.take_out (h : Tracked N links blocks live lists loose) (hlive : k ∈ live)
    (hlist : lists k = b :: bs)
    (hnext : ∀ q, q ≠ N.block b → links'.next q = (unlink links (N.block b)).next q)
    (hprev : ∀ q, q ≠ N.block b → links'.prev q = (unlink links (N.block b)).prev q) :
    Tracked N links' blocks live (update lists k bs) (insert b loose) ∧ b ∉ loose := by
  have hnode : N.of lists k = N.block b :: bs.map N.block := by
    rw [Nodes.of, hlist]
    rfl
  have hmem : b ∈ lists k := by
    rw [hlist]
    exact mem_cons_self
  have hloose := h.family.unlink_loose hlive hnode
  have hsplit : ∀ b', (∃ p ∈ live, b' ∈ lists p) ↔
      b' = b ∨ ∃ p ∈ live, b' ∈ update lists k bs p := by
    intro b'
    have hback := mem_update_append (update lists k bs) hlive b b'
    rw [← hback]
    refine exists_congr fun p => and_congr_right fun _ => ?_
    by_cases hne : p = k
    · subst hne
      rw [update_self, update_self, hlist, mem_append, mem_singleton, mem_cons, or_comm]
    · rw [update_of_ne hne, update_of_ne hne]
  have hout : ∀ p ∈ live, b ∉ update lists k bs p := by
    rw [← nodes_update] at hloose
    exact loose_block_iff.mp hloose
  refine ⟨⟨?family, ?out, ?used, h.blocks_nodup⟩, fun hin => h.loose_out b hin k hlive hmem⟩
  case family =>
    rw [nodes_update]
    refine (h.family.unlink hlive hnode).congr (fun q hq => ?_) fun q hq => ?_
    · exact hnext q fun heq => hq (heq ▸ hloose)
    · exact hprev q fun heq => hq (heq ▸ hloose)
  case out =>
    intro b' hb' p hp hmem'
    rcases Set.mem_insert_iff.mp hb' with rfl | hb'
    · exact hout p hp hmem'
    · obtain ⟨p', hp', hold⟩ := (hsplit b').mpr (.inr ⟨p, hp, hmem'⟩)
      exact h.loose_out b' hb' p' hp' hold
  case used =>
    intro b'
    rw [h.used b', hsplit b', Set.mem_insert_iff]
    tauto

theorem Tracked.init (h : Tracked N links blocks live lists loose)
    (hempty : k ∈ live → lists k = []) :
    Tracked N (links.init (N.head k)) blocks (insert k live) (update lists k [])
      loose := by
  have hsame : ∀ p ∈ live, update lists k [] p = lists p := by
    intro p hp
    by_cases hne : p = k
    · subst hne
      rw [update_self, hempty hp]
    · rw [update_of_ne hne]
  have hcase : ∀ {b p}, p ∈ insert k live → b ∈ update lists k [] p →
      p ∈ live ∧ b ∈ lists p := by
    intro b p hp hmem
    by_cases hne : p = k
    · subst hne
      rw [update_self] at hmem
      exact absurd hmem not_mem_nil
    · rw [update_of_ne hne] at hmem
      exact ⟨Set.mem_of_mem_insert_of_ne hp hne, hmem⟩
  refine ⟨?family, ?out, ?used, h.blocks_nodup⟩
  case family =>
    rw [nodes_update]
    refine h.family.init fun p _ hne hmem => ?_
    rw [mem_cons, Nodes.of, mem_map] at hmem
    rcases hmem with heq | ⟨b, _, heq⟩
    · exact hne (N.head_injective heq).symm
    · exact N.head_ne k b heq.symm
  case out =>
    intro b hb p hp hmem
    exact h.loose_out b hb p (hcase hp hmem).1 (hcase hp hmem).2
  case used =>
    intro b
    rw [h.used b]
    refine or_congr_right ⟨?_, ?_⟩
    · rintro ⟨p, hp, hmem⟩
      exact ⟨p, Set.mem_insert_of_mem k hp, (hsame p hp).symm ▸ hmem⟩
    · rintro ⟨p, hp, hmem⟩
      exact ⟨p, hcase hp hmem⟩

/-! ## Walks -/

variable {σ : Type*}

omit [DecidableEq κ] in
theorem drain (links : σ → Links ι) (blocks : σ → List β) (visitNode : ι → σ → Option σ)
    (visit : β → σ → σ) (J : σ → (κ → List β) → Prop)
    (hnode : ∀ b s, visitNode (N.block b) s = some (visit b s)) (hlive : k ∈ live)
    (hvisit : ∀ s lists b bs, Tracked N (links s) (blocks s) live lists loose → J s lists →
      lists k = b :: bs → ∃ lists', Tracked N (links (visit b s)) (blocks (visit b s)) live lists'
        loose ∧ J (visit b s) lists' ∧ lists' k = bs)
    {s : σ} (h : Tracked N (links s) (blocks s) live lists loose) (hstart : J s lists) :
    ∃ s' lists', forEachSafe links (N.head k) visitNode (blocks s).length
        ((links s).next (N.head k)) s = some s' ∧
      Tracked N (links s') (blocks s') live lists' loose ∧ J s' lists' ∧ lists' k = [] := by
  have hfuel : (N.of lists k).length ≤ (blocks s).length := by
    rw [Nodes.of, length_map]
    exact h.length_le hlive
  have hrule := for_each_rule links (N.head k) visitNode
    (fun rest s => ∃ lists, rest = N.of lists k ∧
      Tracked N (links s) (blocks s) live lists loose ∧ J s lists)
    ?_ ⟨lists, rfl, h, hstart⟩ hfuel
  · obtain ⟨s', hrun, lists', hnil, htracked, hkept⟩ := hrule
    refine ⟨s', lists', ?_, htracked, hkept, map_eq_nil_iff.mp hnil.symm⟩
    rw [(h.family.chain hlive).1]
    exact hrun
  · rintro p rest s ⟨lists, hrest, htracked, hkept⟩
    cases hlist : lists k with
    | nil =>
      rw [Nodes.of, hlist] at hrest
      exact absurd hrest (cons_ne_nil _ _)
    | cons b bs =>
      have hnodes : N.of lists k = N.block b :: bs.map N.block := by
        rw [Nodes.of, hlist]
        rfl
      rw [hnodes] at hrest
      obtain ⟨rfl, rfl⟩ := List.cons.inj hrest
      have hchain := (htracked.family.chain hlive).2
      rw [hnodes] at hchain
      obtain ⟨lists', htracked', hkept', hlist'⟩ := hvisit s lists b bs htracked hkept hlist
      exact ⟨(N.head_ne k b).symm, hchain.1, _, hnode b s, lists', by rw [Nodes.of, hlist'],
        htracked', hkept'⟩

end BlockLists
