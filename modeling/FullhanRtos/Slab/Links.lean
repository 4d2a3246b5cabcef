import FullhanRtos.Slab.Layout

/-!
# Moving pages between the page lists

The writes of `alloc_trunk` and `free_r` to the page links, read as operations on rings: a page
leaves its list (`Wf.unlink`), becomes the only page of an empty list (`Wf.link_only`), or is put
between two neighbours, behind the head of an alloc list (`Wf.link_second`) or at the end of the
cache list (`Wf.link_last`). The page that moves is held meanwhile.
-/

namespace FullhanRtos.Slab

open RunList LinkedRing Function List MemPool

/-- The page entries after the neighbours `a` and `b` of a page were linked with each other. -/
def bypassed (pgman : Nat → PageMan) (a b q : Nat) : PageMan :=
  { pgman q with
    pageNext := if q = a then b else (pgman q).pageNext
    pagePrev := if q = b then a else (pgman q).pagePrev }

/-- The page entries after `p` was linked in between `a` and `b`. -/
def spliced (pgman : Nat → PageMan) (a p b q : Nat) : PageMan :=
  { pgman q with
    pageNext := if q = p then b else if q = a then p else (pgman q).pageNext
    pagePrev := if q = p then a else if q = b then p else (pgman q).pagePrev }

/-- Two pools that differ in the page entries and list heads only. -/
def SameButLists (pool pool' : MemPool) : Prop :=
  ∃ pgman lists cache,
    pool' = { pool with pgmanArray := pgman, zoneAllocList := lists, zoneCacheList := cache }

theorem held_one {p q : Nat} : Held p 1 q ↔ q = p := by
  unfold Held
  omega

theorem u20_of_lt {n : Nat} (h : n < 65536) : u20 n = n :=
  Nat.mod_eq_of_lt (by omega)

@[simp] theorem list_head_with (pool : MemPool) (list : PageList) (head : Int) :
    (pool.withListHead list head).listHead list = head := by
  cases list <;> simp [withListHead, listHead]

theorem list_head_with_other (pool : MemPool) {list list' : PageList} (hne : list' ≠ list)
    (head : Int) : (pool.withListHead list head).listHead list' = pool.listHead list' := by
  cases list <;> cases list' <;> simp_all [withListHead, listHead]

theorem SameButLists.with_list_head (pool : MemPool) (list : PageList) (head : Int) :
    SameButLists pool (pool.withListHead list head) := by
  cases list <;> exact ⟨_, _, _, rfl⟩

theorem SameButLists.set_pgman (pool : MemPool) (pgman : Nat → PageMan) :
    SameButLists pool { pool with pgmanArray := pgman } := ⟨_, _, _, rfl⟩

theorem SameButLists.trans {pool pool' pool'' : MemPool} (h : SameButLists pool pool')
    (h' : SameButLists pool' pool'') : SameButLists pool pool'' := by
  obtain ⟨_, _, _, rfl⟩ := h
  obtain ⟨_, _, _, rfl⟩ := h'
  exact ⟨_, _, _, rfl⟩

@[simp] theorem pgman_with_list_head (pool : MemPool) (list : PageList) (head : Int) :
    (pool.withListHead list head).pgmanArray = pool.pgmanArray := by
  cases list <;> rfl

theorem bypass_run (pool : MemPool) {a b : Nat} (ha : a < 65536) (hb : b < 65536) :
    (bypass a b).run pool = .ok () { pool with pgmanArray := bypassed pool.pgmanArray a b } := by
  have hentries : update (update pool.pgmanArray a
      { pool.pgmanArray a with pageNext := u20 b }) b
      { update pool.pgmanArray a { pool.pgmanArray a with pageNext := u20 b } b with
        pagePrev := u20 a } = bypassed pool.pgmanArray a b := by
    funext q
    rw [u20_of_lt ha, u20_of_lt hb]
    by_cases hqb : q = b
    · subst hqb
      by_cases hqa : q = a
      · subst hqa
        simp [bypassed]
      · simp [bypassed, hqa]
    · by_cases hqa : q = a
      · subst hqa
        simp [bypassed, hqb]
      · simp [bypassed, hqa, hqb]
  simp only [bypass, EStateM.run_bind, modify_pgm_run, hentries]

section

variable {pool pool' : MemPool} {runs : List (Nat × Nat)} {ring : PageList → List Nat} {p : Nat}
  {list : PageList} {xs : List Nat}

theorem Wf.set_ring (h : Wf pool runs ring p 1) (hsame : SameButLists pool pool')
    (hdata : ∀ q, q ≠ p → SameData (pool'.pgmanArray q) (pool.pgmanArray q))
    (hlinks : ∀ q, q ≠ p → q ∉ ring list → pool'.next q = pool.next q ∧ pool'.prev q = pool.prev q)
    (hheads : ∀ list', list' ≠ list → pool'.listHead list' = pool.listHead list')
    (hother : ∀ list', list' ≠ list → p ∉ ring list') (htype : pool'.type p ≠ .page)
    (hring : RingOk pool' list xs) (hmember : ∀ q, q ≠ p → (q ∈ xs ↔ q ∈ ring list)) :
    Wf pool' runs (update ring list xs) p 1 := by
  obtain ⟨pgman, lists, cache, rfl⟩ := hsame
  have hne : ∀ q, ¬ Held p 1 q → q ≠ p := fun q hq heq => hq (held_one.mpr heq)
  have hupdate : ∀ list', list' ≠ list → update ring list xs list' = ring list' :=
    fun list' hl => update_of_ne hl _ _
  -- A page of another list is not held and not on this list.
  have hapart : ∀ list' q, list' ≠ list → q ∈ ring list' → q ≠ p ∧ q ∉ ring list := by
    intro list' q hl hq
    constructor
    · intro heq
      subst heq
      exact hother list' hl hq
    · exact fun hq' => hl (h.disjoint list' list q hq hq')
  refine h.frame rfl rfl rfl rfl (h.free.congr rfl rfl rfl) (fun list' => ?_) ?_
    (fun q hq => hdata q (hne q hq)) (fun q hq hnone => hlinks q (hne q hq) (hnone list))
    (fun q _ => Iff.rfl) (fun list' q hq => ?_) ?_
  · by_cases hl : list' = list
    · subst hl
      rw [update_self]
      exact hring
    · rw [hupdate list' hl]
      exact (h.rings list').congr rfl (hheads list' hl) fun q hq =>
        hlinks q (hapart list' q hl hq).1 (hapart list' q hl hq).2
  · -- No page is on this list and on another one.
    have hone : ∀ list' q, list' ≠ list → q ∈ xs → q ∉ ring list' := by
      intro list' q hl hq hq'
      obtain ⟨hqp, hnot⟩ := hapart list' q hl hq'
      exact hnot ((hmember q hqp).mp hq)
    intro list1 list2 q h1 h2
    by_cases hl1 : list1 = list <;> by_cases hl2 : list2 = list
    · rw [hl1, hl2]
    · subst hl1
      rw [update_self] at h1
      rw [hupdate list2 hl2] at h2
      exact absurd h2 (hone list2 q hl2 h1)
    · subst hl2
      rw [update_self] at h2
      rw [hupdate list1 hl1] at h1
      exact absurd h1 (hone list1 q hl1 h2)
    · rw [hupdate list1 hl1] at h1
      rw [hupdate list2 hl2] at h2
      exact h.disjoint list1 list2 q h1 h2
  · by_cases hl : list' = list
    · subst hl
      rw [update_self]
      exact hmember q (hne q hq)
    · rw [hupdate list' hl]
  · intro h' q _ hheld hpage
    rw [held_one.mp hheld] at hpage
    exact absurd hpage htype

theorem RingOk.head_erase (h : RingOk pool list xs) (hp : p ∈ xs) :
    headField (xs.erase p) =
      if pool.next p = p then -1
      else if pool.listHead list = p then (pool.next p : Int) else pool.listHead list := by
  have hself := h.ring.next_eq_self_iff h.nodup hp
  split
  · rename_i hnext
    rw [hself.mp hnext]
    simp [headField]
  · rename_i hnext
    cases xs with
    | nil => simp at hp
    | cons x xs =>
      rw [h.head]
      simp only [headField, Nat.cast_inj]
      by_cases hx : x = p
      · subst hx
        cases xs with
        | nil => exact absurd (hself.mpr rfl) hnext
        | cons y ys =>
          have hy : pool.next x = y := h.ring.next_head
          simp [hy]
      · rw [erase_cons_tail (by simpa using hx), if_neg hx]

section

variable (h : Wf pool runs ring p 1)

include h

theorem Wf.unlink (hp : p ∈ ring list) (hsame : SameButLists pool pool')
    (hentries : ∀ q, q ≠ p → pool'.pgmanArray q =
      bypassed pool.pgmanArray (pool.prev p) (pool.next p) q)
    (hheads : ∀ list', list' ≠ list → pool'.listHead list' = pool.listHead list')
    (hhead : pool'.listHead list = headField ((ring list).erase p)) (htype : pool'.type p ≠ .page) :
    Wf pool' runs (update ring list ((ring list).erase p)) p 1 := by
  have hring := h.rings list
  have hnum : pool'.pageNum = pool.pageNum := by
    obtain ⟨_, _, _, rfl⟩ := hsame
    rfl
  have hnext : ∀ q, q ≠ p → q ≠ pool.prev p → pool'.next q = pool.next q := by
    intro q hq hq'
    simp [MemPool.next, hentries q hq, bypassed, hq']
  have hprev : ∀ q, q ≠ p → q ≠ pool.next p → pool'.prev q = pool.prev q := by
    intro q hq hq'
    simp [MemPool.prev, hentries q hq, bypassed, hq']
  refine h.set_ring hsame (fun q hq => ?_) (fun q hq hout => ?_) hheads (fun list' hl hmem => ?_)
    htype ?_ (fun q hq => mem_erase_of_ne hq)
  · rw [hentries q hq]
    exact ⟨rfl, rfl, rfl, rfl⟩
  · refine ⟨hnext q hq ?_, hprev q hq ?_⟩
    · intro heq
      exact hout (heq ▸ hring.ring.prev_mem hp)
    · intro heq
      exact hout (heq ▸ hring.ring.next_mem hp)
  · exact hl (h.disjoint list' list p hmem hp)
  · refine ⟨hring.nodup.erase p, fun q hq => ?_, hhead, ?_⟩
    · rw [hnum]
      exact hring.bound q (mem_of_mem_erase hq)
    · by_cases hself : pool.next p = p
      · rw [(hring.ring.next_eq_self_iff hring.nodup hp).mp hself]
        simp [IsRing]
      · have hself' : pool.prev p ≠ p := by
          intro heq
          have := hring.ring.next_prev hp
          rw [heq] at this
          exact hself this
        refine hring.ring.erase hring.nodup hp ?_ ?_ (fun q _ => hnext q) (fun q _ => hprev q)
        · simp [MemPool.next, hentries _ hself', bypassed]
        · simp [MemPool.prev, hentries _ hself, bypassed]

theorem Wf.link_only (hbound : p < pool.pageNum) (hempty : ring list = [])
    (hnone : ∀ list', p ∉ ring list') (hsame : SameButLists pool pool')
    (hentries : ∀ q, q ≠ p → pool'.pgmanArray q = pool.pgmanArray q)
    (hself : pool'.next p = p ∧ pool'.prev p = p)
    (hheads : ∀ list', list' ≠ list → pool'.listHead list' = pool.listHead list')
    (hhead : pool'.listHead list = p) (htype : pool'.type p ≠ .page) :
    Wf pool' runs (update ring list [p]) p 1 := by
  have hnum : pool'.pageNum = pool.pageNum := by
    obtain ⟨_, _, _, rfl⟩ := hsame
    rfl
  refine h.set_ring hsame (fun q hq => ?_) (fun q hq _ => ?_) hheads (fun list' _ => hnone list')
    htype ⟨by simp, by simpa [hnum] using hbound, hhead, isRing_singleton.mpr hself⟩ fun q hq => ?_
  · rw [hentries q hq]
    exact SameData.refl _
  · simp [MemPool.next, MemPool.prev, hentries q hq]
  · simp [hempty, hq]

theorem Wf.link_between {a b x : Nat} {xs ys : List Nat} (hlist : ring list = x :: xs)
    (hnone : ∀ list', p ∉ ring list') (ha : a ∈ ring list) (hb : b ∈ ring list)
    (hpgman : pool'.pgmanArray = spliced pool.pgmanArray a p b) (hsame : SameButLists pool pool')
    (hheads : ∀ list', pool'.listHead list' = pool.listHead list') (htype : pool.type p ≠ .page)
    (hperm : (x :: ys).Perm (p :: x :: xs)) (hbound : p < pool.pageNum)
    (hring : IsRing pool'.next pool'.prev (x :: ys)) :
    Wf pool' runs (update ring list (x :: ys)) p 1 := by
  have hnum : pool'.pageNum = pool.pageNum := by
    obtain ⟨_, _, _, rfl⟩ := hsame
    rfl
  have hok := h.rings list
  rw [hlist] at hok
  have hnot : p ∉ x :: xs := hlist ▸ hnone list
  refine h.set_ring hsame (fun q _ => ?_) (fun q hq hout => ?_) (fun list' _ => hheads list')
    (fun list' _ => hnone list') (by simpa [type, hpgman, spliced] using htype)
    ⟨hperm.nodup_iff.mpr (nodup_cons.mpr ⟨hnot, hok.nodup⟩), fun q hq => ?_,
      (hheads list).trans hok.head, hring⟩ fun q hq => ?_
  · rw [hpgman]
    exact ⟨rfl, rfl, rfl, rfl⟩
  · have hqa : q ≠ a := fun heq => hout (heq ▸ ha)
    have hqb : q ≠ b := fun heq => hout (heq ▸ hb)
    simp [MemPool.next, MemPool.prev, hpgman, spliced, hq, hqa, hqb]
  · rw [hnum]
    rcases mem_cons.mp (hperm.mem_iff.mp hq) with rfl | hq
    · exact hbound
    · exact hok.bound q hq
  · rw [hperm.mem_iff, hlist]
    simp [hq]

theorem Wf.link_second {x : Nat} (hlist : ring list = x :: xs) (hnone : ∀ list', p ∉ ring list')
    (hpgman : pool'.pgmanArray = spliced pool.pgmanArray x p (pool.next x))
    (hsame : SameButLists pool pool') (hheads : ∀ list', pool'.listHead list' = pool.listHead list')
    (htype : pool.type p ≠ .page) (hbound : p < pool.pageNum) :
    Wf pool' runs (update ring list (x :: p :: xs)) p 1 := by
  have hok := h.rings list
  have hx : x ∈ ring list := by simp [hlist]
  have hnot : ∀ q ∈ ring list, q ≠ p := fun q hq heq => hnone list (heq ▸ hq)
  have hnext : pool.next x ∈ ring list := hok.ring.next_mem hx
  refine h.link_between hlist hnone hx hnext hpgman hsame hheads htype
    (Perm.swap p x xs) hbound ?_
  rw [hlist] at hok
  have hnot' : ∀ q ∈ x :: xs, q ≠ p := hlist ▸ hnot
  refine hok.ring.insert_second hok.nodup ?_ ?_ ?_ ?_ (fun q hq => ?_) (fun q hq hne => ?_)
  · simp [MemPool.next, hpgman, spliced, hnot x hx]
  · simp [MemPool.prev, hpgman, spliced]
  · simp [MemPool.next, hpgman, spliced]
  · simp [MemPool.prev, hpgman, spliced, hnot _ hnext]
  · have hqx : q ≠ x := fun heq => (nodup_cons.mp hok.nodup).1 (heq ▸ hq)
    simp [MemPool.next, hpgman, spliced, hqx, hnot' q (mem_cons_of_mem _ hq)]
  · simp [MemPool.prev, hpgman, spliced, hne, hnot' q hq]

theorem Wf.link_last {x : Nat} (hlist : ring list = x :: xs) (hnone : ∀ list', p ∉ ring list')
    (hpgman : pool'.pgmanArray = spliced pool.pgmanArray (pool.prev x) p x)
    (hsame : SameButLists pool pool') (hheads : ∀ list', pool'.listHead list' = pool.listHead list')
    (htype : pool.type p ≠ .page) (hbound : p < pool.pageNum) :
    Wf pool' runs (update ring list (x :: (xs ++ [p]))) p 1 := by
  have hok := h.rings list
  have hx : x ∈ ring list := by simp [hlist]
  have hnot : ∀ q ∈ ring list, q ≠ p := fun q hq heq => hnone list (heq ▸ hq)
  have hprev : pool.prev x ∈ ring list := hok.ring.prev_mem hx
  refine h.link_between hlist hnone hprev hx hpgman hsame hheads htype
    (perm_append_singleton p (x :: xs)) hbound ?_
  rw [hlist] at hok
  have hnot' : ∀ q ∈ x :: xs, q ≠ p := hlist ▸ hnot
  refine hok.ring.insert_last hok.nodup ?_ ?_ ?_ ?_ (fun q hq hne => ?_) (fun q hq => ?_)
  · simp [MemPool.next, hpgman, spliced]
  · simp [MemPool.prev, hpgman, spliced]
  · simp [MemPool.next, hpgman, spliced, hnot _ hprev]
  · simp [MemPool.prev, hpgman, spliced, hnot x hx]
  · simp [MemPool.next, hpgman, spliced, hne, hnot' q hq]
  · have hqx : q ≠ x := fun heq => (nodup_cons.mp hok.nodup).1 (heq ▸ hq)
    simp [MemPool.prev, hpgman, spliced, hqx, hnot' q (mem_cons_of_mem _ hq)]

end

end

end FullhanRtos.Slab
