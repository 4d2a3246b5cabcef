import FullhanRtos.Slab.Alloc

/-!
# Release keeps the pool consistent

`free_r` on a consistent pool: at the address of a used slot it passes every assertion and takes
the slot back (`free_r_run`), and at any other address of the heap it stops at an assertion before
its first write (`free_r_rejects`). Pages go back to the free page list when a block is freed, or
when a zone page gets empty and the cache list is full; `FreeSafe` says that these pages do not
end at `END_FLAG` right behind a free run.
-/

namespace FullhanRtos.Slab

open RunList LinkedRing Function List EStateM Finset MemPool

/-- The pages that freeing `ptr` gives back to the free page list. -/
def freedRun (pool : MemPool) (ptr : Nat) : Option (Nat × Nat) :=
  let pgidx := addr2Pgidx pool ptr
  let pgm := pool.pgmanArray pgidx
  match pgm.pageType with
  | .page => some (pgidx, pgm.pagePrev)
  | .zone =>
    if pgm.freeTrunks + 1 = trunksPerPage pgm.zoneIndex ∧
        (zoneReleaseThresh : Int) ≤ pool.zoneCacheCount then some (pgidx, 1)
    else none
  | _ => none

/-- Freeing `ptr` gives no pages back that end at `END_FLAG` right behind a free run. -/
def FreeSafe (pool : MemPool) (ptr : Nat) : Prop :=
  ∀ f n, freedRun pool ptr = some (f, n) → ¬ TailMerge f n pool.freeRuns

instance (pool : MemPool) (ptr : Nat) : Decidable (FreeSafe pool ptr) :=
  match h : freedRun pool ptr with
  | none => .isTrue fun f n hrun => by simp [h] at hrun
  | some (f, n) => decidable_of_iff (¬ TailMerge f n pool.freeRuns) (by simp [FreeSafe, h])

section

variable {pool pool' : MemPool} {runs : List (Nat × Nat)} {ring : PageList → List Nat}
  {p zi a b : Nat} {list : PageList}

/-- Three link writes put a page in between two neighbours, in either order. -/
theorem splice_entries (pgman : Nat → PageMan) (ha : a ≠ p) (hb : b ≠ p) :
    let m := update pgman p { pgman p with pagePrev := a, pageNext := b }
    update (update m a { m a with pageNext := p }) b
        { update m a { m a with pageNext := p } b with pagePrev := p } =
      spliced pgman a p b ∧
    update (update m b { m b with pagePrev := p }) a
        { update m b { m b with pagePrev := p } a with pageNext := p } =
      spliced pgman a p b := by
  constructor
  · funext q
    by_cases hqp : q = p
    · subst hqp
      simp [spliced, Ne.symm ha, Ne.symm hb]
    · by_cases hqb : q = b
      · subst hqb
        by_cases hqa : q = a
        · subst hqa
          simp [spliced, ha]
        · simp [spliced, hqa, hb]
      · by_cases hqa : q = a
        · subst hqa
          simp [spliced, ha, hqb]
        · simp [spliced, hqa, hqb, hqp]
  · funext q
    by_cases hqp : q = p
    · subst hqp
      simp [spliced, Ne.symm ha, Ne.symm hb]
    · by_cases hqa : q = a
      · subst hqa
        by_cases hqb : q = b
        · subst hqb
          simp [spliced, ha]
        · simp [spliced, hqb, ha]
      · by_cases hqb : q = b
        · subst hqb
          simp [spliced, hb, hqa]
        · simp [spliced, hqa, hqb, hqp]

theorem Wf.spliced_kept (h : Wf pool runs ring p 1) (hb : b ∈ ring list)
    (hpgman : pool'.pgmanArray = spliced pool.pgmanArray a p b) : PagesKept pool pool' p 1 := by
  refine h.pages_kept (fun q _ => ?_) (fun q hq hnone => ?_)
  · rw [hpgman]
    exact ⟨rfl, rfl, rfl, rfl⟩
  · have hqp : q ≠ p := fun heq => hq (held_one.mpr heq)
    have hqb : q ≠ b := fun heq => hnone list (heq ▸ hb)
    simp [MemPool.prev, hpgman, spliced, hqp, hqb]

theorem relink_page_run (zi : Nat) (h : Wf pool runs ring p 1) (hbound : p < pool.pageNum)
    (hself : pool.prev p = p ∧ pool.next p = p) (hnone : ∀ list, p ∉ ring list)
    (htype : pool.type p = .zone) :
    ∃ pool' ring', (relinkPage zi p).run pool = .ok () pool' ∧ SameButLists pool pool' ∧
      Wf pool' runs ring' p 1 ∧ PagesKept pool pool' p 1 ∧
      SameData (pool'.pgmanArray p) (pool.pgmanArray p) ∧ ring' .cache = ring .cache ∧
      (∀ list, p ∈ ring' list → list = .zone zi) ∧ p ∈ ring' (.zone zi) := by
  have hhead : pool.zoneAllocList zi = headField (ring (.zone zi)) := (h.rings (.zone zi)).head
  have hring := h.rings (.zone zi)
  have hpages := h.geometry.pages
  have hpage : pool.type p ≠ .page := by simp [htype]
  have hcheck : ¬ ¬ ((pool.pgmanArray p).pagePrev = p ∧ (pool.pgmanArray p).pageNext = p) :=
    not_not.mpr hself
  have honly : ∀ xs, p ∈ xs → ∀ list, p ∈ update ring (.zone zi) xs list →
      list = .zone zi := by
    intro xs _ list hmem
    by_contra hl
    rw [update_of_ne hl] at hmem
    exact hnone list hmem
  cases hlist : ring (.zone zi) with
  | nil =>
    rw [hlist] at hhead
    refine ⟨pool.withListHead (.zone zi) p, update ring (.zone zi) [p], ?_,
      .with_list_head .., ?_, PagesKept.of_entries fun _ _ => by rw [pgman_with_list_head], ?_,
      by simp, honly [p] (by simp), by simp⟩
    · simp only [relinkPage, run_bind, run_get, bug_if_run_of_not hcheck, hhead,
        if_pos (show headField [] < 0 by decide), set_list_head_run]
    · refine h.link_only hbound hlist hnone (.with_list_head ..) (fun q _ => by simp) ?_
        (fun list' hl => list_head_with_other _ hl _) (list_head_with ..) ?_
      · simp [MemPool.next, MemPool.prev, hself]
      · simpa [type] using hpage
    · rw [pgman_with_list_head]
      exact SameData.refl _
  | cons x xs =>
    rw [hlist] at hhead
    have hx : x ∈ ring (.zone zi) := by simp [hlist]
    have hnext := hring.ring.next_mem hx
    have hxp : x ≠ p := fun heq => hnone _ (heq ▸ hx)
    have hnp : pool.next x ≠ p := fun heq => hnone _ (heq ▸ hnext)
    have hxlt := hring.bound x hx
    have hnlt := hring.bound _ hnext
    let pool1 : MemPool := { pool with pgmanArray := spliced pool.pgmanArray x p (pool.next x) }
    obtain ⟨hxtype, hxzone, _⟩ := (h.pages x hxlt fun hheld => hxp (held_one.mp hheld)).member _ hx
    refine ⟨pool1, update ring (.zone zi) (x :: p :: xs), ?_, .set_pgman .., ?_,
      h.spliced_kept hnext rfl, ⟨rfl, rfl, rfl, rfl⟩, by simp, honly _ (by simp), by simp⟩
    · have hx' : (headField (x :: xs)).toNat = x := rfl
      have hpos : ¬ headField (x :: xs) < 0 := by simp [headField]
      have hentries := (splice_entries pool.pgmanArray hxp hnp).2
      have hwords : u20 x = x ∧ u20 (pool.pgmanArray x).pageNext = pool.next x ∧ u20 p = p :=
        ⟨u20_of_lt (by omega), u20_of_lt (show pool.next x < 65536 by omega), u20_of_lt (by omega)⟩
      simp only [relinkPage, run_bind, run_get, bug_if_run_of_not hcheck, hhead,
        if_neg hpos, hx', verify_pglist_run h hx hxtype hxzone, modify_pgm_run, hwords]
      rw [hentries]
    · exact h.link_second hlist hnone rfl (.set_pgman ..)
        (fun list => by cases list <;> rfl) hpage hbound

theorem unlink_zone_page_run (h : Wf pool runs ring p 1) (hp : p ∈ ring (.zone zi))
    (htype : pool.type p ≠ .page) :
    ∃ pool', (unlinkZonePage zi p).run pool = .ok () pool' ∧ SameButLists pool pool' ∧
      Wf pool' runs (update ring (.zone zi) ((ring (.zone zi)).erase p)) p 1 ∧
      PagesKept pool pool' p 1 ∧ pool'.pgmanArray p = pool.pgmanArray p := by
  have hring := h.rings (.zone zi)
  have hpages := h.geometry.pages
  have hprev := hring.bound _ (hring.ring.prev_mem hp)
  have hnext := hring.bound _ (hring.ring.next_mem hp)
  have hback := hring.ring.next_prev hp
  have hforth := hring.ring.prev_next hp
  have herase := hring.head_erase hp
  have hheadPos : (0 : Int) ≤ pool.zoneAllocList zi := by
    have : pool.zoneAllocList zi = headField (ring (.zone zi)) := hring.head
    rw [this]
    cases hlist : ring (.zone zi) with
    | nil => simp [hlist] at hp
    | cons x xs => exact Int.natCast_nonneg x
  have hcheck : ¬ (pool.zoneAllocList zi < 0 ∨ pool.pageNum ≤ (pool.pgmanArray p).pagePrev ∨
      pool.pageNum ≤ (pool.pgmanArray p).pageNext ∨
      (pool.pgmanArray (pool.pgmanArray p).pagePrev).pageNext ≠ p ∨
      (pool.pgmanArray (pool.pgmanArray p).pageNext).pagePrev ≠ p) := by
    simp only [not_or, not_not]
    exact ⟨by omega, not_le.mpr hprev, not_le.mpr hnext, hback, hforth⟩
  by_cases hself : p = pool.next p
  · -- The page is alone on its list.
    have halone := (hring.ring.next_eq_self_iff hring.nodup hp).mp hself.symm
    have hfirst : pool.zoneAllocList zi = p := by
      have : pool.zoneAllocList zi = headField (ring (.zone zi)) := hring.head
      rw [this, halone]
      rfl
    rw [if_pos hself.symm] at herase
    refine ⟨pool.withListHead (.zone zi) (-1), ?_, .with_list_head .., ?_,
      PagesKept.of_entries fun _ _ => by rw [pgman_with_list_head], by simp⟩
    · simp only [unlinkZonePage, run_bind, run_get, bug_if_run_of_not hcheck,
        if_pos hself, bug_if_run_of_not (not_not.mpr hfirst), set_list_head_run]
    · have hprevSelf : pool.prev p = p := by
        rw [← hself] at hforth
        exact hforth
      refine h.unlink hp (.with_list_head ..) (fun q hq => ?_)
        (fun list' hl => list_head_with_other _ hl _) ((list_head_with ..).trans herase.symm)
        (by simpa [type] using htype)
      rw [hprevSelf, ← hself]
      simp [bypassed, hq]
  · rw [if_neg (Ne.symm hself)] at herase
    have hprevNe : pool.prev p ≠ p := by
      intro heq
      rw [heq] at hback
      exact hself hback.symm
    let pool1 : MemPool :=
      { pool with pgmanArray := bypassed pool.pgmanArray (pool.prev p) (pool.next p) }
    have hentry : pool1.pgmanArray p = pool.pgmanArray p := by
      simp [pool1, bypassed, Ne.symm hprevNe, hself]
    have hkept : PagesKept pool pool1 p 1 := by
      refine h.pages_kept (fun q _ => ⟨rfl, rfl, rfl, rfl⟩) (fun q _ hnone => ?_)
      have hqn : q ≠ pool.next p := fun heq => hnone _ (heq ▸ hring.ring.next_mem hp)
      simp [MemPool.prev, pool1, bypassed, hqn]
    by_cases hfirst : pool.zoneAllocList zi = p
    · rw [if_pos (show pool.listHead (.zone zi) = p from hfirst)] at herase
      refine ⟨pool1.withListHead (.zone zi) (pool.next p), ?_,
        (SameButLists.set_pgman _ _).trans (.with_list_head ..), ?_, fun q hq hnot => ?_, ?_⟩
      · simp only [unlinkZonePage, run_bind, run_get, bug_if_run_of_not hcheck, if_neg hself,
          bypass_run pool (show pool.prev p < 65536 by omega) (show pool.next p < 65536 by omega),
          if_pos hfirst, set_list_head_run]
        rfl
      · refine h.unlink hp ((SameButLists.set_pgman _ _).trans (.with_list_head ..))
          (fun q hq => by simp [pool1]) (fun list' hl => ?_)
          ((list_head_with ..).trans herase.symm) (by simpa [type, hentry] using htype)
        rw [list_head_with_other _ hl]
        cases list' <;> rfl
      · rw [MemPool.prev, pgman_with_list_head]
        exact hkept q hq hnot
      · rw [pgman_with_list_head]
        exact hentry
    · rw [if_neg (show ¬ pool.listHead (.zone zi) = p from hfirst)] at herase
      refine ⟨pool1, ?_, .set_pgman .., ?_, hkept, hentry⟩
      · simp only [unlinkZonePage, run_bind, run_get, bug_if_run_of_not hcheck, if_neg hself,
          bypass_run pool (show pool.prev p < 65536 by omega) (show pool.next p < 65536 by omega),
          if_neg hfirst, run_pure]
        rfl
      · exact h.unlink hp (.set_pgman ..) (fun q _ => rfl) (fun list' _ => by cases list' <;> rfl)
          herase.symm (by rw [type, hentry]; exact htype)

theorem insert_cache_page_run (h : Wf pool runs ring p 1) (hbound : p < pool.pageNum)
    (hnone : ∀ list, p ∉ ring list) (htype : pool.type p = .zone) :
    ∃ pool', (insertCachePage p).run pool = .ok () pool' ∧ SameButLists pool pool' ∧
      Wf pool' runs (update ring .cache (ring .cache ++ [p])) p 1 ∧
      PagesKept pool pool' p 1 := by
  have hhead : pool.zoneCacheList = headField (ring .cache) := (h.rings .cache).head
  have hring := h.rings .cache
  have hpages := h.geometry.pages
  have hpage : pool.type p ≠ .page := by simp [htype]
  cases hlist : ring .cache with
  | nil =>
    rw [hlist] at hhead
    have hneg : ¬ (0 : Int) ≤ headField [] := by decide
    let m : PageMan := { pool.pgmanArray p with pagePrev := u20 p, pageNext := u20 p }
    have hword : u20 p = p := u20_of_lt (by omega)
    refine ⟨({ pool with pgmanArray := update pool.pgmanArray p m } : MemPool).withListHead
        .cache p, ?_, (SameButLists.set_pgman _ _).trans (.with_list_head ..), ?_,
      PagesKept.of_entries fun q hq => ?_⟩
    · simp only [insertCachePage, run_bind, run_get, hhead, if_neg hneg,
        modify_pgm_run, set_list_head_run]
      rfl
    · refine h.link_only hbound hlist hnone
        ((SameButLists.set_pgman _ _).trans (.with_list_head ..)) (fun q hq => ?_) ?_
        (fun list' hl => ?_) (list_head_with ..) ?_
      · simp [hq]
      · simp [MemPool.next, MemPool.prev, m, hword]
      · rw [list_head_with_other _ hl]
        cases list' <;> rfl
      · simpa [type, m] using hpage
    · have hqp : q ≠ p := fun heq => hq (held_one.mpr heq)
      simp [hqp]
  | cons x xs =>
    rw [hlist] at hhead
    have hx : x ∈ ring .cache := by simp [hlist]
    have hprev := hring.ring.prev_mem hx
    have hxp : x ≠ p := fun heq => hnone _ (heq ▸ hx)
    have hpp : pool.prev x ≠ p := fun heq => hnone _ (heq ▸ hprev)
    have hxlt := hring.bound x hx
    have hplt := hring.bound _ hprev
    have hxok := h.pages x hxlt fun hheld => hxp (held_one.mp hheld)
    have hxtype : pool.type x = .cache := hxok.member _ hx
    refine ⟨{ pool with pgmanArray := spliced pool.pgmanArray (pool.prev x) p x }, ?_,
      .set_pgman .., ?_, h.spliced_kept hx rfl⟩
    · have hx' : (headField (x :: xs)).toNat = x := rfl
      have hpos : (0 : Int) ≤ headField (x :: xs) := Int.natCast_nonneg x
      have hentries := (splice_entries pool.pgmanArray hpp hxp).1
      have hwords : u20 x = x ∧ u20 (pool.pgmanArray x).pagePrev = pool.prev x ∧ u20 p = p :=
        ⟨u20_of_lt (by omega), u20_of_lt (show pool.prev x < 65536 by omega), u20_of_lt (by omega)⟩
      simp only [insertCachePage, run_bind, run_get, hhead, if_pos hpos, hx',
        verify_pglist_run h hx hxtype (hxok.cache hxtype).1, modify_pgm_run, hwords]
      rw [hentries]
    · exact h.link_last hlist hnone rfl (.set_pgman ..) (fun list => by cases list <;> rfl) hpage
        hbound

end

section

variable {pool pool' : MemPool} {runs : List (Nat × Nat)} {ring : PageList → List Nat} {p : Nat}

theorem PagesKept.symm {f n : Nat} (h : PagesKept pool pool' f n)
    (hnum : pool'.pageNum = pool.pageNum) : PagesKept pool' pool f n := by
  intro q hq hnot
  obtain ⟨hdata, hprev⟩ := h q (hnum ▸ hq) hnot
  refine ⟨⟨hdata.type.symm, hdata.zone.symm, hdata.trunks.symm, hdata.bitmap.symm⟩, fun htype => ?_⟩
  exact (hprev (hdata.type.symm.trans htype)).symm

/-- The bookkeeping of a freed block at page `p`. -/
def removeBlock (pool : MemPool) (p n : Nat) : MemPool :=
  { pool with
    pgmanArray := update pool.pgmanArray p { pool.pgmanArray p with pageType := .free }
    blockUsedBytes := pool.blockUsedBytes - (n <<< mmPageBits : Nat)
    usedMem := pool.usedMem - (n <<< mmPageBits : Nat) }

theorem PoolInv.remove_block {pool1 : MemPool} {n : Nat} (h : PoolInv pool runs ring)
    (hp : p < pool.pageNum) (htype : pool.type p = .page) (hn : pool.prev p = n)
    (hsame : SameButFreeList pool pool1) (hfree : FreeListOk pool1 (insertRun p n runs)) :
    PoolInv (removeBlock pool1 p n) (insertRun p n runs) ring ∧
      BlockAdded (removeBlock pool1 p n) pool (pool.pageAddr p) (4096 * n) ∧
      (removeBlock pool1 p n).usedMem = pool.usedMem - (4096 * n : Nat) := by
  have hok := h.wf.ok_at hp
  obtain ⟨hpos, hinside, hbody⟩ := hok.page htype
  rw [hn] at hpos hinside hbody
  have hcov : ∀ q, Held p n q → ¬ Covers runs q := by
    intro q hq hc
    by_cases hqp : q = p
    · subst hqp
      have := hok.covered hc
      simp [htype] at this
    · exact (hbody q (lt_of_le_of_ne hq.1 (Ne.symm hqp)) hq.2).2 hc
  obtain ⟨_, hcovers⟩ := insert_run_covers h.wf.free.separated (Nat.zero_le p) hpos hinside
    fun q h1 h2 => hcov q ⟨h1, h2⟩
  have hheld : Held p n p := ⟨le_rfl, by omega⟩
  -- The pages of the block are held: no other block shares a page with it.
  have hwf : Wf pool runs ring p n := by
    refine h.wf.hold p n fun h' q hpage hlt hq hbound => ?_
    by_cases hhp : h' = p
    · subst hhp
      rw [hn] at hq
      exact ⟨fun _ => hheld, fun _ => ⟨by omega, hq⟩⟩
    · have hfreeq := (((h.wf.ok_at hbound).page hpage).body q hlt hq).1
      have hnotHead : ¬ Held p n h' := by
        intro hin
        have := (hbody h' (lt_of_le_of_ne hin.1 (Ne.symm hhp)) hin.2).1
        simp [hpage] at this
      refine iff_of_false (fun hin => ?_) hnotHead
      -- `h' < p` would put the head `p` behind `h'`.
      have hlt' : h' < p := by
        by_contra hge
        exact hnotHead ⟨by omega, by have := hin.2; omega⟩
      by_cases hqp : q = p
      · subst hqp
        simp [htype] at hfreeq
      · have hpin := (((h.wf.ok_at hbound).page hpage).body p hlt' (by have := hin.1; omega)).1
        simp [htype] at hpin
  have hwf1 : Wf pool1 (insertRun p n runs) ring p n := by
    refine hwf.of_free_list hsame hfree fun q hq => ?_
    rw [hcovers]
    exact ⟨fun hc => hc.resolve_right hq, .inl⟩
  have hshift : n <<< mmPageBits = 4096 * n := by
    rw [mm_page_bits_eq, Nat.shiftLeft_eq]
    omega
  obtain ⟨alloctor, first, rfl⟩ := hsame
  generalize hpool' :
    removeBlock { pool with pageAlloctor := alloctor, alloctorList := first } p n =
    pool'
  have hentry : ∀ q, q ≠ p → pool'.pgmanArray q = pool.pgmanArray q := by
    intro q hq
    subst hpool'
    exact update_of_ne hq _ _
  have hhead : pool'.pgmanArray p = { pool.pgmanArray p with pageType := .free } := by
    subst hpool'
    exact update_self ..
  have hnum : pool'.pageNum = pool.pageNum := by
    subst hpool'
    rfl
  have hallFree : ∀ q, Held p n q → pool'.type q = .free := by
    intro q hq
    by_cases hqp : q = p
    · subst hqp
      rw [type, hhead]
    · rw [type, hentry q hqp]
      exact (hbody q (lt_of_le_of_ne hq.1 (Ne.symm hqp)) hq.2).1
  have hnone : ∀ q, q < pool.pageNum → Held p n q → ∀ list, q ∉ ring list := by
    intro q hq hin
    refine (h.wf.ok_at hq).not_on_list ?_
    by_cases hqp : q = p
    · subst hqp
      exact .inl htype
    · exact .inr (.inl (hbody q (lt_of_le_of_ne hin.1 (Ne.symm hqp)) hin.2).1)
  have hwf' : Wf pool' (insertRun p n runs) ring 0 0 := by
    have hlayout : SameLayout { pool with
        pageAlloctor := alloctor, alloctorList := first,
        pgmanArray := update pool.pgmanArray p
          { pool.pgmanArray p with pageType := .free } } pool' := by
      subst hpool'
      exact ⟨rfl, rfl, rfl, rfl, rfl, rfl, rfl, fun list => by cases list <;> rfl⟩
    have hset := (hwf1.set_page hheld { pool.pgmanArray p with pageType := .free }
      (.inr ⟨rfl, rfl⟩) (by simp)).of_same_layout hlayout
    refine hset.close fun q hq hin => ?_
    have hfreeq := hallFree q hin
    refine ⟨fun _ => .inl ((hcovers q).mpr (.inr hin)), fun _ => hfreeq, fun hc => ?_, fun hz => ?_,
      fun hb => ?_, fun list hmem => absurd hmem (hnone q (hnum ▸ hq) hin list)⟩
    · simp [hfreeq] at hc
    · simp [hfreeq] at hz
    · simp [hfreeq] at hb
  have hkept : PagesKept pool pool' p n := PagesKept.of_entries fun q hq =>
    hentry q fun heq => hq (heq ▸ hheld)
  have hnotUsed : ∀ q, Held p n q → ∀ j, ¬ Used pool' q j := by
    intro q hq j hu
    have := hallFree q hq
    rcases hu.2 with ⟨hu, _⟩ | ⟨hu, _⟩ <;> simp [this] at hu
  refine ⟨⟨⟨?_, h.count_le, fun zi => ?_, ?_⟩, hwf'⟩, ⟨hnum.symm, ?_, ?_, p, 0, ?_, ?_, ?_⟩, ?_⟩
  · subst hpool'
    exact h.count
  · have hpages : zonePages pool' zi = zonePages pool zi := by
      ext q
      by_cases hq : Held p n q
      · have h1 : pool'.type q ≠ .zone := by simp [hallFree q hq]
        have h2 : pool.type q ≠ .zone := by
          by_cases hqp : q = p
          · subst hqp
            simp [htype]
          · simp [(hbody q (lt_of_le_of_ne hq.1 (Ne.symm hqp)) hq.2).1]
        simp [zonePages, h1, h2]
      · exact hkept.zone_pages hnum hq
    rw [hpages, ← h.zone_num]
    subst hpool'
    rfl
  · have := h.used_mem
    subst hpool'
    simp only [removeBlock]
    omega
  · subst hpool'
    rfl
  · subst hpool'
    rfl
  · refine SlotAdded.of_pages hnum.symm (by subst hpool'; rfl) hpos (hkept.symm hnum)
      (fun q h1 h2 j => ⟨hnotUsed q ⟨by omega, h2⟩ j, fun hu => ?_⟩) (hnotUsed p hheld 0)
      (fun j => ?_) (fun j hu => absurd hu (hnotUsed p hheld j))
    · have := (hbody q h1 h2).1
      rcases hu.2 with ⟨hu, _⟩ | ⟨hu, _⟩ <;> simp [this] at hu
    · rw [iff_false_intro (hnotUsed p hheld j), false_or]
      simp [Used, hp, htype]
  · simp [slotAddr]
  · rw [slotLen, if_pos htype]
    exact congrArg (4096 * ·) hn
  · rw [← hshift]
    subst hpool'
    rfl

theorem free_block_run (h : PoolInv pool runs ring) (hp : p < pool.pageNum)
    (htype : pool.type p = .page) :
    ∃ pool', (freeBlock (pool.pageAddr p) p).run pool = .ok () pool' ∧
      (¬ TailMerge p (pool.prev p) runs →
        PoolInv pool' (insertRun p (pool.prev p) runs) ring ∧
        BlockAdded pool' pool (pool.pageAddr p) (slotLen (pool.pgmanArray p)) ∧
        pool'.usedMem = pool.usedMem - slotLen (pool.pgmanArray p)) := by
  have hg := h.wf.geometry
  have hok := h.wf.ok_at hp
  have hblock := hok.page htype
  have hpages := hg.pages
  have haligned := hg.aligned
  have hinside := hblock.inside
  have hpos := hblock.pos
  generalize hn : pool.prev p = n at hinside hpos
  have hcov : ∀ q, p ≤ q → q < p + n → ¬ Covers runs q := by
    intro q h1 h2 hc
    by_cases hqp : q = p
    · subst hqp
      have := hok.covered hc
      simp [htype] at this
    · exact (hblock.body q (by omega) (by omega)).2 hc
  obtain ⟨pool1, hrun, hsame, hfree⟩ := rt_page_free_nolock_run hg h.wf.free hpos hinside hcov
  refine ⟨removeBlock pool1 p n, ?_, fun htail => ?_⟩
  · have hcheck : ¬ (pool.pageAddr p &&& mmPageMask ≠ 0 ∨ (pool.pgmanArray p).pagePrev = 0 ∨
        sub32 pool.pageNum p < (pool.pgmanArray p).pagePrev) := by
      rw [mm_page_mask_eq, and_mask_eq_mod, sub32_of_le (by omega) (by omega),
        show (pool.pgmanArray p).pagePrev = n from hn]
      unfold pageAddr
      omega
    simp only [freeBlock, run_bind, run_get, bug_if_run_of_not hcheck,
      show (pool.pgmanArray p).pagePrev = n from hn, hrun, modify_pgm_run, run_modify]
    rfl
  · have hlen : slotLen (pool.pgmanArray p) = 4096 * n := by
      rw [slotLen, if_pos htype]
      exact congrArg (4096 * ·) hn
    rw [hlen]
    exact h.remove_block hp htype hn hsame (hfree htail)

end

section

variable {pool pool' : MemPool} {runs : List (Nat × Nat)} {ring : PageList → List Nat}
  {p zi : Nat}

structure PageRetired (pool pool' : MemPool) (runs : List (Nat × Nat))
    (ring : PageList → List Nat) (p : Nat) : Prop where
  wf : Wf pool' runs ring p 1
  counters : Counters pool' ring
  role : (pool'.type p = .cache ∧ (pool'.pgmanArray p).zoneIndex = 0 ∧ p ∈ ring .cache ∧
      (∀ list, p ∈ ring list → list = .cache) ∧ ¬ Covers runs p) ∨
    (pool'.type p = .free ∧ Covers runs p ∧ ∀ list, p ∉ ring list)
  kept : PagesKept pool pool' p 1
  num : pool'.pageNum = pool.pageNum
  start : pool'.heapStart = pool.heapStart
  top : pool'.heapEnd = pool.heapEnd
  used_mem : pool'.usedMem = pool.usedMem

theorem PagesKept.zone_num_retired (h : PagesKept pool pool' p 1)
    (hnum : pool'.pageNum = pool.pageNum) (hp : p < pool.pageNum) (htype : pool.type p = .zone)
    (hzi : (pool.pgmanArray p).zoneIndex = zi) (htype' : pool'.type p ≠ .zone)
    (hzone : ∀ z, pool.zoneNum z = (zonePages pool z).card) (z : Nat) :
    update pool.zoneNum zi (pool.zoneNum zi - 1) z = (zonePages pool' z).card := by
  have hpages : zonePages pool' z = (zonePages pool z).erase p := by
    ext q
    by_cases hq : q = p
    · subst hq
      simp [zonePages, htype']
    · rw [mem_erase, h.zone_pages hnum fun hheld => hq (held_one.mp hheld)]
      simp [hq]
  rw [hpages]
  by_cases hz : z = zi
  · subst hz
    have hmem : p ∈ zonePages pool z := by simp [zonePages, hp, htype, hzi]
    have hpos : 0 < (zonePages pool z).card := card_pos.mpr ⟨p, hmem⟩
    rw [update_self, card_erase_of_mem hmem, hzone]
    omega
  · have hmem : p ∉ zonePages pool z := by simp [zonePages, hzi, Ne.symm hz]
    rw [update_of_ne hz, erase_eq_of_notMem hmem, hzone]

theorem retire_page_run (h : PoolInv pool runs ring) (hp : p < pool.pageNum)
    (htype : pool.type p = .zone) (hzi : (pool.pgmanArray p).zoneIndex = zi)
    (hmem : p ∈ ring (.zone zi)) {o : Nat} (ho : o < 4096) :
    ∃ pool', (retirePage zi (pool.pageAddr p + o) p).run pool = .ok () pool' ∧
      (((zoneReleaseThresh : Int) ≤ pool.zoneCacheCount → ¬ TailMerge p 1 runs) →
        ∃ runs' ring', PageRetired pool pool' runs' ring' p) := by
  have hg := h.wf.geometry
  have hcov : ¬ Covers runs p := by
    intro hc
    have := (h.wf.ok_at hp).covered hc
    simp [htype] at this
  obtain ⟨pool1, hunlink, hsame1, hwf1, hkept1, hentry1⟩ := unlink_zone_page_run
    (h.wf.hold_page hp (.inl htype)) hmem (by simp [htype])
  generalize hring1 : update ring (.zone zi) ((ring (.zone zi)).erase p) = ring1 at hwf1
  have hcache1 : ring1 .cache = ring .cache := by
    rw [← hring1, update_of_ne (by simp)]
  have hnone1 : ∀ list, p ∉ ring1 list := by
    intro list hin
    rw [← hring1] at hin
    by_cases hl : list = .zone zi
    · subst hl
      rw [update_self] at hin
      exact (h.wf.rings _).nodup.not_mem_erase hin
    · rw [update_of_ne hl] at hin
      exact hl (h.wf.disjoint _ _ p hin hmem)
  obtain ⟨pgman, lists, cache, rfl⟩ := hsame1
  -- The zone has one page less.
  generalize hnum1 : update pool.zoneNum zi (pool.zoneNum zi - 1) = zoneNum'
  let pool2 : MemPool := { pool with
    pgmanArray := pgman, zoneAllocList := lists, zoneCacheList := cache, zoneNum := zoneNum' }
  have hwf2 : Wf pool2 runs ring1 p 1 := hwf1.of_same_layout
    ⟨rfl, rfl, rfl, rfl, rfl, rfl, rfl, fun list => by cases list <;> rfl⟩
  have htype2 : pool2.type p = .zone := (congrArg PageMan.pageType hentry1).trans htype
  by_cases hroom : pool.zoneCacheCount < (zoneReleaseThresh : Int)
  · obtain ⟨pool3, hinsert, hsame3, hwf3, hkept3⟩ := insert_cache_page_run hwf2 hp hnone1 htype2
    obtain ⟨pgman3, lists3, cache3, rfl⟩ := hsame3
    let m : PageMan := { pgman3 p with zoneIndex := 0, pageType := .cache }
    have hset := hwf3.set_page (held_one.mpr rfl) m (.inr ⟨rfl, rfl⟩) (by simp [m])
    let pool' : MemPool := { pool with
      pgmanArray := update pgman3 p m, zoneAllocList := lists3, zoneCacheList := cache3,
      zoneNum := zoneNum', zoneCacheCount := pool.zoneCacheCount + 1 }
    have hkept : PagesKept pool pool' p 1 := by
      intro q hq hnot
      have hqp : q ≠ p := fun heq => hnot (held_one.mpr heq)
      obtain ⟨hdata1, hprev1⟩ := hkept1 q hq hnot
      obtain ⟨hdata3, hprev3⟩ := hkept3 q hq hnot
      have hq' : pool'.pgmanArray q = pgman3 q := update_of_ne hqp _ _
      rw [MemPool.prev, hq']
      refine ⟨⟨hdata3.type.trans hdata1.type, hdata3.zone.trans hdata1.zone,
        hdata3.trunks.trans hdata1.trunks, hdata3.bitmap.trans hdata1.bitmap⟩, fun hpage => ?_⟩
      exact (hprev3 (hdata1.type.trans hpage)).trans (hprev1 hpage)
    have hentry : pool'.pgmanArray p = m := update_self ..
    refine ⟨pool', ?_, fun _ => ⟨runs, update ring1 .cache (ring1 .cache ++ [p]), ?_⟩⟩
    · simp only [retirePage, run_bind, hunlink, run_modify, run_get, hnum1, if_pos hroom]
      rw [show (insertCachePage p).run pool2 = _ from hinsert]
      rfl
    · refine ⟨hset.of_same_layout ?_, ⟨?_, ?_, fun z => ?_, h.used_mem⟩,
        .inl ⟨?_, ?_, ?_, ?_, hcov⟩,
        hkept, rfl, rfl, rfl, rfl⟩
      · exact ⟨rfl, rfl, rfl, rfl, rfl, rfl, rfl, fun list => by cases list <;> rfl⟩
      · have := h.count
        simp only [update_self, length_append, hcache1, length_singleton, pool']
        omega
      · have := h.count
        simp only [update_self, length_append, hcache1, length_singleton]
        omega
      · rw [← hkept.zone_num_retired rfl hp htype hzi (by rw [type, hentry]; simp [m])
          h.zone_num z, hnum1]
      · rw [type, hentry]
      · rw [hentry]
      · simp
      · intro list hin
        by_contra hl
        rw [update_of_ne hl] at hin
        exact hnone1 list hin
  · have hpageAddr : rtAlignDown (pool.pageAddr p + o) mmPageSize = pool2.pageAddr p := by
      have hdown := rt_align_down_eq (pool.pageAddr p + o) 12
      have haligned := hg.aligned
      show rtAlignDown _ (2 ^ 12) = pool.pageAddr p
      rw [hdown]
      unfold pageAddr
      omega
    obtain ⟨pool3, hfreeRun, hsame3, hfree3⟩ := rt_page_free_nolock_run hwf2.geometry hwf2.free
      (show 0 < 1 by omega) (show p + 1 ≤ pool2.pageNum from hp)
      (fun q h1 h2 => by rw [show q = p by omega]; exact hcov)
    obtain ⟨alloctor, first, rfl⟩ := hsame3
    let m : PageMan := { pgman p with pageType := .free }
    let pool' : MemPool := { pool2 with
      pageAlloctor := alloctor, alloctorList := first, pgmanArray := update pgman p m }
    have hentry : pool'.pgmanArray p = m := update_self ..
    have hkept : PagesKept pool pool' p 1 := by
      intro q hq hnot
      have hqp : q ≠ p := fun heq => hnot (held_one.mpr heq)
      have hq' : pool'.pgmanArray q = pgman q := update_of_ne hqp _ _
      rw [MemPool.prev, hq']
      exact hkept1 q hq hnot
    refine ⟨pool', ?_, fun htail => ⟨insertRun p 1 runs, ring1, ?_⟩⟩
    · simp only [retirePage, run_bind, hunlink, run_modify, run_get, hnum1, if_neg hroom, hpageAddr]
      rw [show (rtPageFreeNolock (pool2.pageAddr p) 1).run pool2 = _ from hfreeRun]
      rfl
    · obtain ⟨_, hcovers⟩ := insert_run_covers h.wf.free.separated (Nat.zero_le p)
        (show 0 < 1 by omega) (show p + 1 ≤ pool.pageNum from hp)
        (fun q h1 h2 => by rw [show q = p by omega]; exact hcov)
      have hwf3 := hwf2.of_free_list ⟨alloctor, first, rfl⟩ (hfree3 (htail (by omega)))
        fun q hq => by
          rw [hcovers]
          exact ⟨fun hc => hc.resolve_right hq, .inl⟩
      refine ⟨hwf3.set_page (held_one.mpr rfl) m (.inr ⟨rfl, rfl⟩) (by simp [m]),
        ⟨?_, ?_, fun z => ?_, h.used_mem⟩, .inr ⟨?_, ?_, hnone1⟩, hkept, rfl, rfl, rfl, rfl⟩
      · rw [hcache1]
        exact h.count
      · rw [hcache1]
        exact h.count_le
      · rw [← hkept.zone_num_retired rfl hp htype hzi (by rw [type, hentry]; simp [m])
          h.zone_num z, hnum1]
      · rw [type, hentry]
      · exact (hcovers p).mpr (.inr ⟨le_rfl, by omega⟩)

theorem keep_page_run (h : PoolInv pool runs ring) (hp : p < pool.pageNum)
    (htype : pool.type p = .zone) (hzi : (pool.pgmanArray p).zoneIndex = zi) (ptr : Nat)
    (hstay : (pool.pgmanArray p).freeTrunks + 1 ≠ trunksPerPage zi) :
    ∃ pool1 ring', (movePage zi ptr p (pool.pgmanArray p).freeTrunks).run pool = .ok () pool1 ∧
      SameButLists pool pool1 ∧ Wf pool1 runs ring' p 1 ∧ PagesKept pool pool1 p 1 ∧
      SameData (pool1.pgmanArray p) (pool.pgmanArray p) ∧ ring' .cache = ring .cache ∧
      (∀ list, p ∈ ring' list → list = .zone zi) ∧ p ∈ ring' (.zone zi) := by
  have hok := h.wf.ok_at hp
  have hzone := hok.zone htype
  have hheld := h.wf.hold_page hp (.inl htype)
  by_cases hfull : (pool.pgmanArray p).freeTrunks = 0
  · obtain ⟨pool1, ring', hrun, hrest⟩ := relink_page_run zi hheld hp (hzone.full hfull)
      (hok.not_on_list (.inr (.inr ⟨hfull, htype⟩))) htype
    refine ⟨pool1, ring', ?_, hrest⟩
    rw [movePage, if_pos hfull]
    exact hrun
  · have hmem : p ∈ ring (.zone zi) := hzi ▸ hzone.linked (by omega)
    refine ⟨pool, ring, ?_, ⟨_, _, _, rfl⟩, hheld, PagesKept.of_entries fun _ _ => rfl,
      SameData.refl _, rfl, fun list hin => h.wf.disjoint _ _ p hin hmem, hmem⟩
    rw [movePage, if_neg hfull, if_neg hstay, run_pure]

theorem ZoneOk.clear {ring' : PageList → List Nat} {k : Nat} (h : ZoneOk pool ring p)
    (hset : (pool.pgmanArray p).trunkBitmap.getLsbD k = true)
    (hbm : ∀ i, (pool'.pgmanArray p).trunkBitmap.getLsbD i =
      ((pool.pgmanArray p).trunkBitmap.getLsbD i && !decide (i = k)))
    (htrunks : (pool'.pgmanArray p).freeTrunks = (pool.pgmanArray p).freeTrunks + 1)
    (hzone : (pool'.pgmanArray p).zoneIndex = (pool.pgmanArray p).zoneIndex)
    (hstay : (pool.pgmanArray p).freeTrunks + 1 ≠ trunksPerPage (pool.pgmanArray p).zoneIndex)
    (hlinked : p ∈ ring' (.zone (pool.pgmanArray p).zoneIndex)) : ZoneOk pool' ring' p := by
  obtain ⟨_, hle⟩ := trunks_bounds h.zone
  have hk := h.bits k hset
  have hcount := h.count
  have hpop := Bits.popcount_clear (pool.pgmanArray p).trunkBitmap (show k < 64 by omega) hset hbm
  refine ⟨by rw [hzone]; exact h.zone, fun i hi => ?_, ?_, ?_, ?_, ?_⟩
  · rw [hbm, Bool.and_eq_true] at hi
    rw [hzone]
    exact h.bits i hi.1
  · rw [htrunks, hzone]
    omega
  · omega
  · rw [hzone]
    exact fun _ => hlinked
  · rw [htrunks]
    omega

theorem SlotAdded.of_same_layout_left {pool1 : MemPool} {k : Nat} (h : SlotAdded pool1 pool p k)
    (hsame : SameLayout pool1 pool') : SlotAdded pool' pool p k := by
  obtain ⟨_, hnum, hstart, _, _, _, hpgman, _⟩ := hsame
  obtain ⟨hfresh, hused, haddr, hlen⟩ := h
  have hiff : ∀ q j, Used pool' q j ↔ Used pool1 q j := fun q j => by
    simp only [Used, type, hnum, hpgman]
  refine ⟨by rw [hiff]; exact hfresh, fun q j => by rw [hiff]; exact hused q j, fun q j hu => ?_,
    fun q j hu => ?_⟩
  · rw [haddr q j ((hiff q j).mp hu)]
    simp only [slotAddr, pageAddr, hstart, hpgman]
  · rw [hlen q j ((hiff q j).mp hu), hpgman]

def clearedEntry (pgm : PageMan) (freeTrunks k : Nat) : PageMan :=
  { pgm with freeTrunks := u12 (freeTrunks + 1), trunkBitmap := clearTrunk pgm.trunkBitmap k }

theorem PoolInv.clear_trunk {pool1 : MemPool} {ring' : PageList → List Nat} {k : Nat}
    (h : PoolInv pool runs ring) (hp : p < pool.pageNum) (htype : pool.type p = .zone)
    (hzi : (pool.pgmanArray p).zoneIndex = zi)
    (hset : (pool.pgmanArray p).trunkBitmap.getLsbD k = true)
    (hstay : (pool.pgmanArray p).freeTrunks + 1 ≠ trunksPerPage zi)
    (hsame : SameButLists pool pool1) (hwf : Wf pool1 runs ring' p 1)
    (hkept : PagesKept pool pool1 p 1)
    (hdata : SameData (pool1.pgmanArray p) (pool.pgmanArray p))
    (hcache : ring' .cache = ring .cache) (hmember : ∀ list, p ∈ ring' list → list = .zone zi)
    (hlinked : p ∈ ring' (.zone zi)) :
    let pool2 : MemPool := { pool1 with
      pgmanArray := update pool1.pgmanArray p
        (clearedEntry (pool1.pgmanArray p) (pool.pgmanArray p).freeTrunks k) }
    PoolInv pool2 runs ring' ∧ SlotAdded pool2 pool p k := by
  intro pool2
  have hok := h.wf.ok_at hp
  have hzone := hok.zone htype
  have hk := hzone.bits k hset
  obtain ⟨_, htpp⟩ := trunks_bounds hzone.zone
  have hcount := hzone.count
  have hcov : ¬ Covers runs p := by
    intro hc
    have := hok.covered hc
    simp [htype] at this
  have hentry : pool2.pgmanArray p =
      clearedEntry (pool1.pgmanArray p) (pool.pgmanArray p).freeTrunks k := update_self ..
  have htrunks : (pool2.pgmanArray p).freeTrunks = (pool.pgmanArray p).freeTrunks + 1 := by
    rw [hentry]
    exact Nat.mod_eq_of_lt (by omega)
  have htype2 : pool2.type p = .zone := by
    rw [type, hentry]
    exact hdata.type.trans htype
  have hzone2 : (pool2.pgmanArray p).zoneIndex = (pool.pgmanArray p).zoneIndex := by
    rw [hentry]
    exact hdata.zone
  have hbits : ∀ i, (pool2.pgmanArray p).trunkBitmap.getLsbD i =
      ((pool.pgmanArray p).trunkBitmap.getLsbD i && !decide (i = k)) := by
    intro i
    rw [hentry]
    simp only [clearedEntry, hdata.bitmap]
    exact clear_trunk_get _ (by omega) i
  have hnum : pool2.pageNum = pool.pageNum := by
    obtain ⟨_, _, _, rfl⟩ := hsame
    rfl
  have hstart : pool2.heapStart = pool.heapStart := by
    obtain ⟨_, _, _, rfl⟩ := hsame
    rfl
  have hkept2 : PagesKept pool pool2 p 1 := by
    intro q hq hnot
    have hqp : q ≠ p := fun heq => hnot (held_one.mpr heq)
    have hq2 : pool2.pgmanArray q = pool1.pgmanArray q := update_of_ne hqp _ _
    rw [MemPool.prev, hq2]
    exact hkept q hq hnot
  have hwf2 : Wf pool2 runs ring' p 1 := by
    refine hwf.set_page (held_one.mpr rfl) _ (.inr ⟨rfl, rfl⟩) fun hpage => ?_
    rw [show (clearedEntry (pool1.pgmanArray p) (pool.pgmanArray p).freeTrunks k).pageType = .zone
      from hdata.type.trans htype] at hpage
    simp at hpage
  have hzoneOk : ZoneOk pool2 ring' p := hzone.clear hset hbits htrunks hzone2 (hzi ▸ hstay)
    (hzi ▸ hlinked)
  refine ⟨h.of_lists (hsame.trans (.set_pgman _ _)) (hwf2.close fun q _ hq => ?_) hcache
    (hkept2.zone_pages_eq hnum (htype2.trans htype.symm) hzone2), ?_⟩
  · rw [held_one.mp hq]
    refine .of_zone htype2 hzoneOk hcov fun list hmem => ⟨?_, by omega⟩
    rw [hzone2, hzi]
    exact hmember list hmem
  · refine SlotAdded.of_pages hnum.symm hstart.symm (by omega) (hkept2.symm hnum) (by omega) ?_
      (fun j => ?_) (fun j hu => ⟨hzone2.symm, ?_⟩)
    · simp [Used, htype2, hbits]
    · by_cases hj : j = k
      · subst hj
        simp [Used, hp, htype, hset]
      · simp [Used, hnum, htype, htype2, hbits, hj]
    · rw [slot_len_zone htype, slot_len_zone htype2, hzone2]

theorem PoolInv.clear_last_trunk {pool1 : MemPool} {runs' : List (Nat × Nat)}
    {ring' : PageList → List Nat} {k : Nat} (h : PoolInv pool runs ring) (hp : p < pool.pageNum)
    (htype : pool.type p = .zone) (hset : (pool.pgmanArray p).trunkBitmap.getLsbD k = true)
    (hlast : (pool.pgmanArray p).freeTrunks + 1 = trunksPerPage (pool.pgmanArray p).zoneIndex)
    (hret : PageRetired pool pool1 runs' ring' p) :
    let pool2 : MemPool := { pool1 with
      pgmanArray := update pool1.pgmanArray p
        (clearedEntry (pool1.pgmanArray p) (pool.pgmanArray p).freeTrunks k) }
    PoolInv pool2 runs' ring' ∧ SlotAdded pool2 pool p k := by
  intro pool2
  have hzone := (h.wf.ok_at hp).zone htype
  have hcount := hzone.count
  have hone : ∀ j, (pool.pgmanArray p).trunkBitmap.getLsbD j = true → j = k := fun j hj =>
    Bits.eq_of_popcount_one _ (by omega) hj hset
  have hentry : pool2.pgmanArray p =
      clearedEntry (pool1.pgmanArray p) (pool.pgmanArray p).freeTrunks k := update_self ..
  have htype2 : pool2.type p = pool1.type p := by
    rw [type, hentry]
    rfl
  have hzone2 : (pool2.pgmanArray p).zoneIndex = (pool1.pgmanArray p).zoneIndex := by
    rw [hentry]
    rfl
  have hnotZone : pool1.type p ≠ .zone ∧ pool1.type p ≠ .page := by
    rcases hret.role with ⟨hrole, _⟩ | ⟨hrole, _⟩ <;> simp [hrole]
  have hkept2 : PagesKept pool pool2 p 1 := by
    intro q hq hnot
    have hqp : q ≠ p := fun heq => hnot (held_one.mpr heq)
    have hq2 : pool2.pgmanArray q = pool1.pgmanArray q := update_of_ne hqp _ _
    rw [MemPool.prev, hq2]
    exact hret.kept q hq hnot
  have hwf2 : Wf pool2 runs' ring' p 1 := by
    refine hret.wf.set_page (held_one.mpr rfl) _ (.inr ⟨rfl, rfl⟩) fun hpage => ?_
    exact absurd hpage hnotZone.2
  refine ⟨⟨⟨hret.counters.count, hret.counters.count_le, fun z => ?_, hret.counters.used_mem⟩,
    hwf2.close fun q _ hq => ?_⟩, ?_⟩
  · have hpages : zonePages pool2 z = zonePages pool1 z := by
      ext q
      by_cases hq : q = p
      · subst hq
        simp [zonePages, htype2, hnotZone.1]
      · simp [zonePages, type, pool2, hq]
    rw [hpages]
    exact hret.counters.zone_num z
  · rw [held_one.mp hq]
    refine ⟨fun hf => ?_, fun hc => ?_, fun hc => ?_, fun hz => ?_, fun hb => ?_,
      fun list hmem => ?_⟩
    · rw [htype2] at hf
      rcases hret.role with ⟨hrole, _⟩ | ⟨_, hcov, _⟩
      · simp [hrole] at hf
      · exact .inl hcov
    · rw [htype2]
      rcases hret.role with ⟨_, _, _, _, hcov⟩ | ⟨hrole, _⟩
      · exact absurd hc hcov
      · exact hrole
    · rw [htype2] at hc
      rcases hret.role with ⟨_, hindex, hmem, _⟩ | ⟨hrole, _⟩
      · exact ⟨hzone2.trans hindex, hmem⟩
      · simp [hrole] at hc
    · exact absurd (htype2.symm.trans hz) hnotZone.1
    · exact absurd (htype2.symm.trans hb) hnotZone.2
    · rcases hret.role with ⟨hrole, _, _, honly, _⟩ | ⟨_, _, hnone⟩
      · rw [honly list hmem]
        exact htype2.trans hrole
      · exact absurd hmem (hnone list)
  · have hnotUsed : ∀ j, ¬ Used pool2 p j := by
      intro j hu
      rcases hu.2 with ⟨hu, _⟩ | ⟨hu, _⟩
      · exact hnotZone.2 (htype2.symm.trans hu)
      · exact hnotZone.1 (htype2.symm.trans hu)
    refine SlotAdded.of_pages hret.num.symm hret.start.symm (by omega) (hkept2.symm hret.num)
      (by omega) (hnotUsed k) (fun j => ?_) (fun j hu => absurd hu (hnotUsed j))
    rw [iff_false_intro (hnotUsed j), false_or]
    constructor
    · intro hu
      rcases hu.2 with ⟨hu, _⟩ | ⟨_, hbit⟩
      · simp [htype] at hu
      · exact hone j hbit
    · intro hj
      subst hj
      exact ⟨hp, .inr ⟨htype, hset⟩⟩

/-- The statistics of a trunk given back. -/
def unaccountTrunk (pool : MemPool) (zi : Nat) : MemPool :=
  { pool with
    zoneUsedBytes := update pool.zoneUsedBytes zi (pool.zoneUsedBytes zi - zoneSize zi)
    usedMem := pool.usedMem - zoneSize zi }

theorem trunk_offset (h : Geometry pool) (p : Nat) {o : Nat} (ho : o < 4096) :
    (pool.pageAddr p + o) &&& mmPageMask = o := by
  have := h.aligned
  rw [mm_page_mask_eq, and_mask_eq_mod]
  unfold pageAddr
  omega

theorem free_trunk_eq {k : Nat} (h : PoolInv pool runs ring) (hp : p < pool.pageNum)
    (htype : pool.type p = .zone) (hzi : (pool.pgmanArray p).zoneIndex = zi)
    (hset : (pool.pgmanArray p).trunkBitmap.getLsbD k = true) {pool1 : MemPool}
    (hmove : (movePage zi (slotAddr pool p k) p (pool.pgmanArray p).freeTrunks).run pool =
      .ok () pool1) :
    (freeTrunk (slotAddr pool p k) p).run pool = .ok () (unaccountTrunk { pool1 with
      pgmanArray := update pool1.pgmanArray p
        (clearedEntry (pool1.pgmanArray p) (pool.pgmanArray p).freeTrunks k) } zi) := by
  have hzone := (h.wf.ok_at hp).zone htype
  have hk := hzone.bits k hset
  have hnz := hzone.zone
  have hcount := hzone.count
  have hused := hzone.used
  rw [hzi] at hk hnz hcount
  have hpos := zone_size_pos hnz
  have htrunk := trunk_inside hnz hk
  have haddr : slotAddr pool p k = pool.pageAddr p + k * zoneSize zi := by rw [slotAddr, hzi]
  have hoffset : slotAddr pool p k &&& mmPageMask = k * zoneSize zi := by
    rw [haddr]
    exact trunk_offset h.wf.geometry p (by omega)
  have hindex : k * zoneSize zi / zoneSize zi = k := Nat.mul_div_cancel k hpos
  have hknown : ¬ nzones ≤ (pool.pgmanArray p).zoneIndex := by
    omega
  have hcheck : ¬ (trunksPerPage (pool.pgmanArray p).zoneIndex ≤ (pool.pgmanArray p).freeTrunks ∨
      (slotAddr pool p k &&& mmPageMask) / zoneSize (pool.pgmanArray p).zoneIndex *
        zoneSize (pool.pgmanArray p).zoneIndex ≠ slotAddr pool p k &&& mmPageMask ∨
      trunkUsed (pool.pgmanArray p).trunkBitmap
        ((slotAddr pool p k &&& mmPageMask) / zoneSize (pool.pgmanArray p).zoneIndex) = false) := by
    rw [hzi, hoffset, hindex, trunk_used_iff, hset]
    simp only [ne_eq, not_true_eq_false, Bool.true_eq_false, or_false]
    omega
  simp only [freeTrunk, run_bind, run_get, bug_if_run_of_not hknown, bug_if_run_of_not hcheck]
  rw [hzi, hmove, hoffset, hindex]
  rfl

theorem PoolInv.unaccount_trunk (h : PoolInv pool runs ring) (hzi : zi < nzones) :
    PoolInv (unaccountTrunk pool zi) runs ring ∧ SameLayout pool (unaccountTrunk pool zi) := by
  have hsame : SameLayout pool (unaccountTrunk pool zi) :=
    ⟨rfl, rfl, rfl, rfl, rfl, rfl, rfl, fun list => by cases list <;> rfl⟩
  exact ⟨h.of_stats (d := -(zoneSize zi : Int)) hsame rfl rfl rfl hzi rfl rfl, hsame⟩

theorem free_trunk_run {k : Nat} (h : PoolInv pool runs ring) (hp : p < pool.pageNum)
    (htype : pool.type p = .zone) (hset : (pool.pgmanArray p).trunkBitmap.getLsbD k = true) :
    ∃ pool', (freeTrunk (slotAddr pool p k) p).run pool = .ok () pool' ∧
      (((pool.pgmanArray p).freeTrunks + 1 = trunksPerPage (pool.pgmanArray p).zoneIndex →
          (zoneReleaseThresh : Int) ≤ pool.zoneCacheCount → ¬ TailMerge p 1 runs) →
        ∃ runs' ring', PoolInv pool' runs' ring' ∧
          BlockAdded pool' pool (slotAddr pool p k) (slotLen (pool.pgmanArray p)) ∧
          pool'.usedMem = pool.usedMem - slotLen (pool.pgmanArray p)) := by
  have hzone := (h.wf.ok_at hp).zone htype
  generalize hzi : (pool.pgmanArray p).zoneIndex = zi
  have hnz := hzi ▸ hzone.zone
  have hlen : slotLen (pool.pgmanArray p) = zoneSize zi := by rw [slot_len_zone htype, hzi]
  by_cases hlast : (pool.pgmanArray p).freeTrunks + 1 = trunksPerPage zi
  · -- The page gets empty and leaves the zone.
    have hk := hzone.bits k hset
    have hcount := hzone.count
    obtain ⟨htpp, _⟩ := trunks_bounds hnz
    rw [hzi] at hk hcount
    have htrunk := trunk_inside hnz hk
    have hmem : p ∈ ring (.zone zi) := hzi ▸ hzone.linked (by omega)
    obtain ⟨pool1, hretire, hretired⟩ := retire_page_run h hp htype hzi hmem
      (show k * zoneSize zi < 4096 by have := zone_size_pos hnz; omega)
    have hmove : (movePage zi (slotAddr pool p k) p (pool.pgmanArray p).freeTrunks).run pool =
        .ok () pool1 := by
      rw [movePage, if_neg (by omega), if_pos hlast, slotAddr, hzi]
      exact hretire
    refine ⟨_, free_trunk_eq h hp htype hzi hset hmove, fun htail => ?_⟩
    obtain ⟨runs', ring', hret⟩ := hretired (htail hlast)
    obtain ⟨hinv, hslot⟩ := h.clear_last_trunk hp htype hset (hzi ▸ hlast) hret
    obtain ⟨hinv', hsame⟩ := hinv.unaccount_trunk hnz
    refine ⟨runs', ring', hinv', ⟨hret.num.symm, hret.start.symm, hret.top.symm, p, k,
      hslot.of_same_layout_left hsame, rfl, rfl⟩, ?_⟩
    rw [hlen]
    exact congrArg (· - (zoneSize zi : Int)) hret.used_mem
  · obtain ⟨pool1, ring', hmove, hlists, hwf, hkept, hdata, hcache, hmember, hlinked⟩ :=
      keep_page_run h hp htype hzi (slotAddr pool p k) hlast
    refine ⟨_, free_trunk_eq h hp htype hzi hset hmove, fun _ => ?_⟩
    obtain ⟨hinv, hslot⟩ := h.clear_trunk hp htype hzi hset hlast hlists hwf hkept hdata hcache
      hmember hlinked
    obtain ⟨hinv', hsame⟩ := hinv.unaccount_trunk hnz
    rw [hlen]
    obtain ⟨pgman, lists, cache, rfl⟩ := hlists
    exact ⟨runs, ring', hinv', ⟨rfl, rfl, rfl, p, k, hslot.of_same_layout_left hsame, rfl, hlen⟩,
      rfl⟩

end

section

variable {pool : MemPool} {runs : List (Nat × Nat)} {ring : PageList → List Nat} {p k a : Nat}

theorem Wf.slot_pgidx (h : Wf pool runs ring 0 0) (hu : Used pool p k) :
    addr2Pgidx pool (slotAddr pool p k) = p := by
  rcases h.slot_cases hu with ⟨_, haddr, _⟩ | ⟨_, _, hzone, hk⟩
  · rw [haddr]
    exact addr2pgidx_eq h.geometry (o := 0) hu.1 (by omega)
  · have htrunk := trunk_inside hzone.zone hk
    have hpos := zone_size_pos hzone.zone
    exact addr2pgidx_eq h.geometry hu.1 (by omega)

theorem free_r_at {ptr : Nat} (hp : addr2Pgidx pool ptr = p) :
    (freeR ptr).run pool = match pool.type p with
      | .page => (freeBlock ptr p).run pool
      | .zone => (freeTrunk ptr p).run pool
      | _ => .error ⟨1349⟩ pool := by
  subst hp
  rw [freeR, run_bind, run_get]
  dsimp only [type]
  cases (pool.pgmanArray (addr2Pgidx pool ptr)).pageType <;> rfl

/-- `free_r` at a used slot passes its assertions, and takes the slot back unless the pages that
it frees end at `END_FLAG` right behind a free run. -/
theorem free_r_run (h : PoolInv pool runs ring) (hu : Used pool p k) :
    ∃ pool', (freeR (slotAddr pool p k)).run pool = .ok () pool' ∧
      (FreeSafe pool (slotAddr pool p k) → ∃ runs' ring', PoolInv pool' runs' ring' ∧
        BlockAdded pool' pool (slotAddr pool p k) (slotLen (pool.pgmanArray p)) ∧
        pool'.usedMem = pool.usedMem - slotLen (pool.pgmanArray p)) := by
  have hpgidx := h.wf.slot_pgidx hu
  have hruns := h.wf.free.free_runs_eq h.wf.geometry
  obtain ⟨hp, ⟨htype, hk⟩ | ⟨htype, hset⟩⟩ := id hu
  · subst hk
    have haddr : slotAddr pool p 0 = pool.pageAddr p := by simp [slotAddr]
    obtain ⟨pool', hrun, hrest⟩ := free_block_run h hp htype
    refine ⟨pool', ?_, fun hsafe => ?_⟩
    · rw [free_r_at hpgidx, htype, haddr]
      exact hrun
    · have hfreed : freedRun pool (slotAddr pool p 0) = some (p, pool.prev p) := by
        simp only [freedRun]
        rw [hpgidx, show (pool.pgmanArray p).pageType = .page from htype]
      have htail := hsafe p _ hfreed
      rw [hruns] at htail
      obtain ⟨hinv, hadded, hmem⟩ := hrest htail
      rw [haddr]
      exact ⟨_, ring, hinv, hadded, hmem⟩
  · obtain ⟨pool', hrun, hrest⟩ := free_trunk_run h hp htype hset
    refine ⟨pool', ?_, fun hsafe => hrest fun hlast hfull => ?_⟩
    · rw [free_r_at hpgidx, htype]
      exact hrun
    · have hfreed : freedRun pool (slotAddr pool p k) = some (p, 1) := by
        simp only [freedRun]
        rw [hpgidx, show (pool.pgmanArray p).pageType = .zone from htype]
        exact if_pos ⟨hlast, hfull⟩
      have htail := hsafe p 1 hfreed
      rwa [hruns] at htail

theorem free_r_rejects (h : PoolInv pool runs ring) (hlo : pool.heapStart ≤ a)
    (hhi : a < pool.heapEnd) (hnot : ∀ p k, Used pool p k → slotAddr pool p k ≠ a) :
    ∃ bug, (freeR a).run pool = .error bug pool := by
  have hg := h.wf.geometry
  have hend := hg.heap_end
  obtain ⟨p, o, rfl, hp, ho⟩ : ∃ p o, a = pool.pageAddr p + o ∧ p < pool.pageNum ∧ o < 4096 := by
    refine ⟨(a - pool.heapStart) / 4096, (a - pool.heapStart) % 4096, ?_, by omega, by omega⟩
    unfold pageAddr
    omega
  have hpgidx : addr2Pgidx pool (pool.pageAddr p + o) = p := addr2pgidx_eq hg hp ho
  have hoffset := trunk_offset hg p ho
  rw [free_r_at hpgidx]
  cases htype : pool.type p with
  | free => exact ⟨⟨1349⟩, rfl⟩
  | cache => exact ⟨⟨1349⟩, rfl⟩
  | page =>
    have hne : o ≠ 0 := by
      intro heq
      subst heq
      exact hnot p 0 ⟨hp, .inl ⟨htype, rfl⟩⟩ (by simp [slotAddr])
    refine ⟨⟨1210⟩, ?_⟩
    have hcheck : (pool.pageAddr p + o) &&& mmPageMask ≠ 0 ∨ (pool.pgmanArray p).pagePrev = 0 ∨
        sub32 pool.pageNum p < (pool.pgmanArray p).pagePrev := .inl (by rw [hoffset]; exact hne)
    simp only [freeBlock, run_bind, run_get, bug_if_run_of hcheck]
  | zone =>
    have hknown := not_le.mpr ((h.wf.ok_at hp).zone htype).zone
    refine ⟨⟨1244⟩, ?_⟩
    have hcheck : trunksPerPage (pool.pgmanArray p).zoneIndex ≤ (pool.pgmanArray p).freeTrunks ∨
        ((pool.pageAddr p + o) &&& mmPageMask) / zoneSize (pool.pgmanArray p).zoneIndex *
          zoneSize (pool.pgmanArray p).zoneIndex ≠ (pool.pageAddr p + o) &&& mmPageMask ∨
        trunkUsed (pool.pgmanArray p).trunkBitmap
          (((pool.pageAddr p + o) &&& mmPageMask) / zoneSize (pool.pgmanArray p).zoneIndex) =
          false := by
      rw [hoffset]
      by_contra hcon
      simp only [not_or, not_not, Bool.not_eq_false, trunk_used_iff] at hcon
      refine hnot p (o / zoneSize (pool.pgmanArray p).zoneIndex) ⟨hp, .inr ⟨htype, hcon.2.2⟩⟩ ?_
      rw [slotAddr, hcon.2.1]
    simp only [freeTrunk, run_bind, run_get, bug_if_run_of_not hknown, bug_if_run_of hcheck]

theorem fhkfree_at (h : PoolInv pool runs ring) {moduleId : Nat} (hmodule : moduleId < fhmemTypeMax)
    (hlo : pool.heapStart ≤ a) (hhi : a < pool.heapEnd) (hword : a % 4 = 0) :
    (fhkfree moduleId a).run pool = (freeR a).run pool := by
  have hpos := h.wf.geometry.start_pos
  have hnull : a ≠ rtNull := by
    simp only [rt_null_eq]
    omega
  have hmask : a &&& 3 = a % 4 := Nat.and_two_pow_sub_one_eq_mod a 2
  have hcheck : ¬ (fhmemTypeMax ≤ moduleId ∨ pool.inited = false) := by
    simp only [h.wf.inited, Bool.true_eq_false, or_false]
    omega
  have hrange : ¬ (a &&& 3 ≠ 0 ∨ a < pool.heapStart ∨ pool.heapEnd ≤ a) := by
    omega
  rw [fhkfree, if_neg hnull, run_bind, run_get]
  dsimp only
  rw [run_bind, bug_if_run_of_not hcheck]
  dsimp only
  rw [run_bind, bug_if_run_of_not hrange]

/-- `fhkfree` of a null pointer does nothing. -/
theorem fhkfree_null (pool : MemPool) (moduleId : Nat) :
    (fhkfree moduleId rtNull).run pool = .ok () pool := rfl

end

end FullhanRtos.Slab
