import FullhanRtos.Slab.Slots

/-!
# Allocation keeps the pool consistent

Every branch of `malloc_r` on a pool with `PoolInv` passes its assertions, and either returns
`RT_NULL` and leaves the pool as it was, or hands out one slot more (`BlockAdded`) of the length
that the request is rounded to. The branches are the multi-page block (`malloc_pages_run`), a
trunk of the first page of the alloc list (`alloc_trunk_from_list_run`), and a new zone page that
comes from the cache list or from the free page list (`start_zone_page_run`).
-/

namespace FullhanRtos.Slab

open RunList LinkedRing Function List Nat EStateM Finset MemPool

/-- `pool'` has handed out the block of `len` bytes at `a` in addition. -/
structure BlockAdded (pool pool' : MemPool) (a len : Nat) : Prop where
  num : pool'.pageNum = pool.pageNum
  start : pool'.heapStart = pool.heapStart
  top : pool'.heapEnd = pool.heapEnd
  slot : ∃ p k, SlotAdded pool pool' p k ∧ slotAddr pool' p k = a ∧
    slotLen (pool'.pgmanArray p) = len

section

theorem rt_align_down_eq (x b : Nat) : rtAlignDown x (2 ^ b) = 2 ^ b * (x / 2 ^ b) := by
  unfold rtAlignDown
  rw [and_two_pow_sub_one_eq_mod]
  have := div_add_mod x (2 ^ b)
  omega

theorem rt_align_page {x : Nat} (h : x + 4095 < 4294967296) :
    rtAlign x mmPageSize = 4096 * ((x + 4095) / 4096) := by
  have := rt_align_down_eq (x + 4095) 12
  rw [rtAlign, mm_page_size_eq, Nat.add_sub_assoc (by omega), u32_of_lt h]
  exact this

theorem rt_align_word {x : Nat} (h : x + 3 < 4294967296) :
    rtAlign x 4 = 4 * ((x + 3) / 4) := by
  have := rt_align_down_eq (x + 3) 2
  rw [rtAlign, Nat.add_sub_assoc (by omega), u32_of_lt h]
  exact this

end

section

variable {pool : MemPool} {runs : List (Nat × Nat)} {ring : PageList → List Nat}

theorem page_addr_ne_null (hg : Geometry pool) (p : Nat) : pool.pageAddr p ≠ rtNull := by
  have := hg.start_pos
  unfold pageAddr
  simp only [rt_null_eq]
  omega

/-- The bookkeeping of a new block of `n` pages at page `i`. -/
def addBlock (pool : MemPool) (i n : Nat) : MemPool :=
  { pool with
    pgmanArray := update pool.pgmanArray i
      { pool.pgmanArray i with pageType := .page, pagePrev := n }
    blockUsedBytes := pool.blockUsedBytes + (4096 * n : Nat)
    blockUsedBytesMax := max pool.blockUsedBytesMax (pool.blockUsedBytes + (4096 * n : Nat))
    usedMem := pool.usedMem + (4096 * n : Nat)
    maxMem := max pool.maxMem (pool.usedMem + (4096 * n : Nat)) }

theorem PoolInv.add_block {pool1 : MemPool} {runs' : List (Nat × Nat)} {i n : Nat}
    (h : PoolInv pool runs ring) (hn : 0 < n) (hfit : firstFit n runs = some (i, runs'))
    (hsame : SameButFreeList pool pool1) (hfree : FreeListOk pool1 runs') :
    PoolInv (addBlock pool1 i n) runs' ring ∧
      BlockAdded pool (addBlock pool1 i n) (pool.pageAddr i) (4096 * n) ∧
      (addBlock pool1 i n).usedMem = pool.usedMem + (4096 * n : Nat) := by
  obtain ⟨hwf, hin, hheld⟩ := h.wf.take hn hfit hsame hfree
  obtain ⟨alloctor, first, rfl⟩ := hsame
  have hi : Held i n i := ⟨le_rfl, by omega⟩
  have hentry : ∀ q, q ≠ i → (addBlock { pool with pageAlloctor := alloctor, alloctorList := first }
      i n).pgmanArray q = pool.pgmanArray q := fun q hq => update_of_ne hq _ _
  have hhead : (addBlock { pool with pageAlloctor := alloctor, alloctorList := first }
      i n).pgmanArray i = { pool.pgmanArray i with pageType := .page, pagePrev := n } :=
    update_self ..
  have hfreeType : ∀ q, Held i n q → pool.type q = .free := fun q hq => (hheld q hq).1
  generalize hpool' : addBlock { pool with pageAlloctor := alloctor, alloctorList := first } i n =
    pool' at hentry hhead
  have hwf' : Wf pool' runs' ring i n := by
    refine (hwf.set_page hi { pool.pgmanArray i with pageType := .page, pagePrev := n }
      (.inl (hheld i hi).2.2) fun _ q h1 h2 => ⟨by omega, h2⟩).of_same_layout ?_
    subst hpool'
    exact ⟨rfl, rfl, rfl, rfl, rfl, rfl, rfl, fun list => by cases list <;> rfl⟩
  have hnum : pool'.pageNum = pool.pageNum := by
    subst hpool'
    rfl
  have hbody : ∀ q, i < q → q < i + n → pool'.type q = .free := by
    intro q h1 h2
    rw [type, hentry q (by omega)]
    exact hfreeType q ⟨by omega, h2⟩
  have hkept : PagesKept pool pool' i n := PagesKept.of_entries fun q hq =>
    hentry q fun heq => hq (heq ▸ hi)
  have hclosed : Wf pool' runs' ring 0 0 := by
    refine hwf'.close fun p hp hp' => ?_
    obtain ⟨_, hcov, hnone⟩ := hheld p hp'
    by_cases hpi : p = i
    · subst hpi
      have htype : pool'.type p = .page := by rw [type, hhead]
      have hlen : pool'.prev p = n := by rw [MemPool.prev, hhead]
      refine ⟨fun hf => ?_, fun hc => absurd hc hcov, fun hc => ?_, fun hz => ?_, fun _ => ?_,
        fun list hmem => absurd hmem (hnone list)⟩
      · simp [htype] at hf
      · simp [htype] at hc
      · simp [htype] at hz
      · refine ⟨hlen ▸ hn, by rw [hlen, hnum]; exact hin, fun q h1 h2 => ?_⟩
        rw [hlen] at h2
        exact ⟨hbody q h1 h2, (hheld q ⟨by omega, h2⟩).2.1⟩
    · have hlt : i < p := lt_of_le_of_ne hp'.1 (Ne.symm hpi)
      have htype := hbody p hlt hp'.2
      refine ⟨fun _ => .inr ⟨i, hlt, ?_, ?_⟩, fun _ => htype, fun hc => ?_, fun hz => ?_,
        fun hb => ?_, fun list hmem => absurd hmem (hnone list)⟩
      · rw [type, hhead]
      · rw [MemPool.prev, hhead]
        exact hp'.2
      · simp [htype] at hc
      · simp [htype] at hz
      · simp [htype] at hb
  refine ⟨⟨⟨?_, h.count_le, fun zi => ?_, ?_⟩, hclosed⟩, ?_, ?_⟩
  · subst hpool'
    exact h.count
  · have hpages : zonePages pool' zi = zonePages pool zi := by
      ext q
      by_cases hq : Held i n q
      · have h1 : pool.type q ≠ .zone := by simp [hfreeType q hq]
        have h2 : pool'.type q ≠ .zone := by
          by_cases hqi : q = i
          · subst hqi
            simp [type, hhead]
          · have := hbody q (lt_of_le_of_ne hq.1 (Ne.symm hqi)) hq.2
            simp [this]
        simp [zonePages, h1, h2]
      · exact hkept.zone_pages hnum hq
    rw [hpages, ← h.zone_num]
    subst hpool'
    rfl
  · have := h.used_mem
    subst hpool'
    simp only [addBlock]
    omega
  · have hnotUsed : ∀ q, Held i n q → ∀ j, ¬ Used pool q j := by
      intro q hq j hu
      have := hfreeType q hq
      rcases hu.2 with ⟨htype, _⟩ | ⟨htype, _⟩ <;> simp [this] at htype
    refine ⟨hnum, by subst hpool'; rfl, by subst hpool'; rfl, ⟨i, 0, ?_, ?_, ?_⟩⟩
    · refine SlotAdded.of_pages hnum (by subst hpool'; rfl) hn hkept (fun q h1 h2 j => ?_)
        (hnotUsed i hi 0) (fun j => ?_) (fun j hu => absurd hu (hnotUsed i hi j))
      · refine ⟨hnotUsed q ⟨by omega, h2⟩ j, fun hu => ?_⟩
        have := hbody q h1 h2
        rcases hu.2 with ⟨htype, _⟩ | ⟨htype, _⟩ <;> simp [this] at htype
      · have hlt : i < pool'.pageNum := by omega
        simp [Used, hlt, type, hhead, hfreeType i hi]
    · subst hpool'
      simp [slotAddr, pageAddr, addBlock]
    · rw [slotLen, hhead]
      simp
  · subst hpool'
    rfl

theorem malloc_pages_run (h : PoolInv pool runs ring) {size : Nat} (hpos : 0 < size)
    (hsize : size ≤ 4096 * pool.pageNum) :
    (mallocPages size).run pool = .ok rtNull pool ∧ firstFit ((size + 4095) / 4096) runs = none ∨
      ∃ pool' a runs', (mallocPages size).run pool = .ok a pool' ∧ a ≠ rtNull ∧
        PoolInv pool' runs' ring ∧ BlockAdded pool pool' a (rtAlign size mmPageSize) ∧
        pool'.usedMem = pool.usedMem + rtAlign size mmPageSize := by
  have hg := h.wf.geometry
  have hpages := hg.pages
  have halign := rt_align_page (x := size) (by omega)
  generalize hn : (size + 4095) / 4096 = n at halign
  have hnpos : 0 < n := by omega
  have hshift : (4096 * n) >>> mmPageBits = n := by
    rw [mm_page_bits_eq, shiftRight_eq_div_pow]
    omega
  have halloc := rt_page_alloc_nolock_run hg h.wf.free hnpos
  cases hfit : firstFit n runs with
  | none =>
    rw [hfit] at halloc
    refine .inl ⟨?_, rfl⟩
    simp only [mallocPages, halign, hshift, run_bind, halloc, if_true, run_pure]
  | some found =>
    obtain ⟨i, runs'⟩ := found
    rw [hfit] at halloc
    obtain ⟨pool1, hrun, hsame, hfree⟩ := halloc
    obtain ⟨_, hin, hheld⟩ := h.wf.take hnpos hfit hsame hfree
    have htype := (hheld i ⟨le_rfl, by omega⟩).1
    obtain ⟨hinv, hadded, hmem⟩ := h.add_block hnpos hfit hsame hfree
    right
    refine ⟨_, _, runs', ?_, page_addr_ne_null hg i, hinv, halign ▸ hadded, halign ▸ hmem⟩
    have hpgidx := hsame.addr2pgidx hg (show i < pool.pageNum by omega)
    have hcheck : ¬ (pool1.pgmanArray (addr2Pgidx pool1 (pool.pageAddr i))).pageType ≠ .free := by
      rw [hpgidx]
      simpa using htype
    have hword : u20 n = n := u20_of_lt (by omega)
    simp only [mallocPages, halign, hshift, run_bind, hrun, if_neg (page_addr_ne_null hg i),
      run_get, bug_if_run_of_not hcheck, modify_pgm_run, run_modify, run_pure, hword]
    rw [hpgidx]
    rfl

end

section

variable {pool : MemPool} {runs : List (Nat × Nat)} {ring : PageList → List Nat} {p zi : Nat}
  {list : PageList}

theorem verify_pglist_run {f n : Nat} (h : Wf pool runs ring f n) (hp : p ∈ ring list)
    {type : PageType} (htype : pool.type p = type)
    (hzone : (pool.pgmanArray p).zoneIndex = zi) :
    (verifyPglist p type zi).run pool = .ok () pool := by
  have hring := h.rings list
  have hbound := hring.bound p hp
  have hprev := hring.bound _ (hring.ring.prev_mem hp)
  have hnext := hring.bound _ (hring.ring.next_mem hp)
  have hback := hring.ring.next_prev hp
  have hforth := hring.ring.prev_next hp
  have hlinks : ¬ (pool.pageNum ≤ pool.prev p ∨ pool.pageNum ≤ pool.next p ∨
      pool.next (pool.prev p) ≠ p ∨ pool.prev (pool.next p) ≠ p ∨
      pool.type p ≠ type ∨ (pool.pgmanArray p).zoneIndex ≠ zi) := by
    simp only [not_or, not_not]
    exact ⟨by omega, by omega, hback, hforth, htype, hzone⟩
  simp only [verifyPglist, run_bind, run_get,
    bug_if_run_of_not (show ¬ pool.pageNum ≤ p by omega), bug_if_run_of_not hlinks]

theorem unlink_head_run (pool : MemPool) (list : PageList) {a b : Nat} (ha : a < 65536)
    (hb : b < 65536) (hself : b = p ↔ a = p) :
    ∃ pool', (unlinkHead list p a b).run pool = .ok () pool' ∧ SameButLists pool pool' ∧
      (∀ q, q ≠ p → pool'.pgmanArray q = bypassed pool.pgmanArray a b q) ∧
      pool'.pgmanArray p = pool.pgmanArray p ∧
      (∀ list', list' ≠ list → pool'.listHead list' = pool.listHead list') ∧
      pool'.listHead list = if b = p then -1 else (b : Int) := by
  by_cases hbp : p = b
  · refine ⟨pool.withListHead list (-1), ?_, .with_list_head pool list _, fun q hq => ?_, by simp,
      fun list' hl => list_head_with_other pool hl _, by simp [hbp]⟩
    · simp only [unlinkHead, if_pos hbp, set_list_head_run]
    · have hap : a = p := hself.mp hbp.symm
      have hqb : q ≠ b := hbp ▸ hq
      simp [bypassed, hap, hq, hqb]
  · have hap : a ≠ p := fun heq => hbp (hself.mpr heq).symm
    refine ⟨({ pool with pgmanArray := bypassed pool.pgmanArray a b } : MemPool).withListHead list
      b,
      ?_, (SameButLists.set_pgman pool _).trans (.with_list_head _ list _), fun q hq => ?_, ?_,
      fun list' hl => ?_, ?_⟩
    · simp only [unlinkHead, if_neg hbp, run_bind, bypass_run pool ha hb, set_list_head_run]
    · simp
    · simp [bypassed, Ne.symm hap, hbp]
    · rw [list_head_with_other _ hl]
      cases list' <;> rfl
    · rw [list_head_with, if_neg (Ne.symm hbp)]

theorem Wf.unlink_head {xs : List Nat} (h : Wf pool runs ring p 1) (hlist : ring list = p :: xs)
    {m : PageMan} (htype : m.pageType ≠ .page) :
    ∃ pool', (unlinkHead list p (pool.prev p) (pool.next p)).run
        { pool with pgmanArray := update pool.pgmanArray p m } = .ok () pool' ∧
      SameButLists pool pool' ∧ Wf pool' runs (update ring list xs) p 1 ∧
      PagesKept pool pool' p 1 ∧ pool'.pgmanArray p = m := by
  have hp : p ∈ ring list := by simp [hlist]
  have hring := h.rings list
  have hpages := h.geometry.pages
  have hprev := hring.bound _ (hring.ring.prev_mem hp)
  have hnext := hring.bound _ (hring.ring.next_mem hp)
  have hself : pool.next p = p ↔ pool.prev p = p := by
    constructor
    · intro heq
      have := hring.ring.prev_next hp
      rwa [heq] at this
    · intro heq
      have := hring.ring.next_prev hp
      rwa [heq] at this
  obtain ⟨pool', hrun, hsame, hentries, hentry, hheads, hhead⟩ := unlink_head_run
    { pool with pgmanArray := update pool.pgmanArray p m } list
    (show pool.prev p < 65536 by omega) (show pool.next p < 65536 by omega) hself
  have hsame' : SameButLists pool pool' := (SameButLists.set_pgman pool _).trans hsame
  have hbypassed : ∀ q, q ≠ p →
      pool'.pgmanArray q = bypassed pool.pgmanArray (pool.prev p) (pool.next p) q := by
    intro q hq
    rw [hentries q hq]
    simp [bypassed, hq]
  have hm : pool'.pgmanArray p = m := by
    rw [hentry]
    simp
  refine ⟨pool', hrun, hsame', ?_, h.pages_kept (fun q hq => ?_) (fun q hq hnone => ?_), hm⟩
  · have herase : (ring list).erase p = xs := by simp [hlist]
    rw [← herase]
    refine h.unlink hp hsame' hbypassed (fun list' hl => ?_) ?_ (by rwa [type, hm])
    · rw [hheads list' hl]
      cases list' <;> rfl
    · have hfirst : pool.listHead list = p := by
        rw [hring.head, hlist]
        rfl
      rw [hhead, hring.head_erase hp, if_pos hfirst]
  · rw [hbypassed q fun heq => hq (held_one.mpr heq)]
    exact ⟨rfl, rfl, rfl, rfl⟩
  · have hqp : q ≠ p := fun heq => hq (held_one.mpr heq)
    have hqn : q ≠ pool.next p := fun heq => hnone list (heq ▸ hring.ring.next_mem hp)
    simp [MemPool.prev, hbypassed q hqp, bypassed, hqn]

end

section

variable {pool pool' : MemPool} {runs : List (Nat × Nat)} {ring : PageList → List Nat} {p zi : Nat}
  {xs : List Nat} {ring' : PageList → List Nat} {pool1 : MemPool}

theorem PageOk.of_zone (htype : pool.type p = .zone) (hzone : ZoneOk pool ring p)
    (hcov : ¬ Covers runs p) (hmember : ∀ list, p ∈ ring list →
      list = .zone (pool.pgmanArray p).zoneIndex ∧ 0 < (pool.pgmanArray p).freeTrunks) :
    PageOk pool runs ring p := by
  refine ⟨fun hf => ?_, fun hc => absurd hc hcov, fun hc => ?_, fun _ => hzone, fun hb => ?_,
    fun list hmem => ?_⟩
  · simp [htype] at hf
  · simp [htype] at hc
  · simp [htype] at hb
  · obtain ⟨rfl, hpos⟩ := hmember list hmem
    exact ⟨htype, rfl, hpos⟩

/-- A zone page is held by itself: no block crosses it. -/
theorem Wf.hold_page (h : Wf pool runs ring 0 0) (hp : p < pool.pageNum)
    (htype : pool.type p = .zone ∨ pool.type p = .cache) : Wf pool runs ring p 1 := by
  refine h.hold p 1 fun h' q hpage hlt hq hbound => ?_
  rw [held_one, held_one]
  constructor
  · intro heq
    subst heq
    have := (((h.ok_at hbound).page hpage).body q hlt hq).1
    simp [this] at htype
  · intro heq
    subst heq
    simp [hpage] at htype

theorem PagesKept.zone_pages_eq (h : PagesKept pool pool' p 1)
    (hnum : pool'.pageNum = pool.pageNum) (htype : pool'.type p = pool.type p)
    (hzone : (pool'.pgmanArray p).zoneIndex = (pool.pgmanArray p).zoneIndex) (zi : Nat) :
    zonePages pool' zi = zonePages pool zi := by
  ext q
  by_cases hq : q = p
  · subst hq
    simp [zonePages, hnum, htype, hzone]
  · exact h.zone_pages hnum fun hheld => hq (held_one.mp hheld)

theorem PoolInv.of_lists (h : PoolInv pool runs ring) (hsame : SameButLists pool pool')
    (hwf : Wf pool' runs ring' 0 0) (hcache : ring' .cache = ring .cache)
    (hpages : ∀ zi, zonePages pool' zi = zonePages pool zi) :
    PoolInv pool' runs ring' := by
  refine ⟨⟨?_, by rw [hcache]; exact h.count_le, fun zi => ?_, ?_⟩, hwf⟩
  · obtain ⟨_, _, _, rfl⟩ := hsame
    rw [hcache]
    exact h.count
  · rw [hpages, ← h.zone_num]
    obtain ⟨_, _, _, rfl⟩ := hsame
    rfl
  · obtain ⟨_, _, _, rfl⟩ := hsame
    exact h.used_mem

theorem drop_full_page_run (h : Wf pool runs ring p 1) (ft : Nat)
    (hlist : ring (.zone zi) = p :: xs) (htype : pool.type p = .zone) :
    ∃ pool' ring', (dropFullPage zi p (pool.prev p) (pool.next p) ft).run pool = .ok () pool' ∧
      SameButLists pool pool' ∧ Wf pool' runs ring' p 1 ∧ PagesKept pool pool' p 1 ∧
      SameData (pool'.pgmanArray p) (pool.pgmanArray p) ∧ ring' .cache = ring .cache ∧
      (∀ list, p ∈ ring' list → list = .zone zi ∧ 0 < ft) ∧ (0 < ft → p ∈ ring' (.zone zi)) ∧
      (ft = 0 → pool'.prev p = p ∧ pool'.next p = p) := by
  have hp : p ∈ ring (.zone zi) := by simp [hlist]
  have hbound := (h.rings _).bound p hp
  have hpages := h.geometry.pages
  by_cases hft : ft = 0
  · obtain ⟨pool', hrun, hsame, hwf, hkept, hentry⟩ := h.unlink_head hlist
      (m := { pool.pgmanArray p with pagePrev := u20 p, pageNext := u20 p })
      (by simp only; rw [show (pool.pgmanArray p).pageType = .zone from htype]; simp)
    have hnot : p ∉ xs := by
      have := (h.rings (.zone zi)).nodup
      rw [hlist] at this
      exact (nodup_cons.mp this).1
    refine ⟨pool', _, ?_, hsame, hwf, hkept, ?_, by simp, fun list hmem => ?_, by omega,
      fun _ => ?_⟩
    · simp only [dropFullPage, if_pos hft, run_bind, modify_pgm_run, hrun]
    · rw [hentry]
      exact ⟨rfl, rfl, rfl, rfl⟩
    · by_cases hl : list = .zone zi
      · subst hl
        rw [update_self] at hmem
        exact absurd hmem hnot
      · rw [update_of_ne hl] at hmem
        exact absurd (h.disjoint _ _ p hmem hp) hl
    · simp only [MemPool.prev, MemPool.next, hentry]
      exact ⟨u20_of_lt (by omega), u20_of_lt (by omega)⟩
  · refine ⟨pool, ring, ?_, ⟨_, _, _, rfl⟩, h, PagesKept.of_entries fun _ _ => rfl, SameData.refl _,
      rfl, fun list hmem => ⟨h.disjoint _ _ p hmem hp, by omega⟩, fun _ => hp, by omega⟩
    simp only [dropFullPage, if_neg hft, run_pure]

theorem ZoneOk.find_trunk (h : ZoneOk pool ring p) (hfree : 0 < (pool.pgmanArray p).freeTrunks) :
    let found := findTrunk (pool.pgmanArray p).trunkBitmap
    found.1 < 8 ∧ found.2 < 8 ∧ (found.1 <<< 3) + found.2 = 8 * found.1 + found.2 ∧
      8 * found.1 + found.2 < trunksPerPage (pool.pgmanArray p).zoneIndex ∧
      (pool.pgmanArray p).trunkBitmap.getLsbD (8 * found.1 + found.2) = false := by
  have hcount := h.count
  obtain ⟨_, hle⟩ := trunks_bounds h.zone
  obtain ⟨j, hj, hclear⟩ := Bits.exists_clear (pool.pgmanArray p).trunkBitmap hle (by omega)
  obtain ⟨hx, hy, hmin, hbit⟩ := find_trunk_spec _ (show j < 64 by omega) hclear
  refine ⟨hx, hy, ?_, by omega, hbit⟩
  omega

theorem ZoneOk.mark {k ft : Nat} {bm : BitVec 64} (h : ZoneOk pool ring p)
    (hk : k < trunksPerPage (pool.pgmanArray p).zoneIndex)
    (hclear : (pool.pgmanArray p).trunkBitmap.getLsbD k = false)
    (hbm : ∀ i, bm.getLsbD i = ((pool.pgmanArray p).trunkBitmap.getLsbD i || decide (i = k)))
    (hft : ft + 1 = (pool.pgmanArray p).freeTrunks) (hbits : (pool'.pgmanArray p).trunkBitmap = bm)
    (htrunks : (pool'.pgmanArray p).freeTrunks = ft)
    (hzone : (pool'.pgmanArray p).zoneIndex = (pool.pgmanArray p).zoneIndex)
    (hlinked : 0 < ft → p ∈ ring' (.zone (pool.pgmanArray p).zoneIndex))
    (hfull : ft = 0 → pool'.prev p = p ∧ pool'.next p = p) : ZoneOk pool' ring' p := by
  obtain ⟨_, hle⟩ := trunks_bounds h.zone
  have hcount := h.count
  have hpop := Bits.popcount_set (pool.pgmanArray p).trunkBitmap (show k < 64 by omega) hclear hbm
  refine ⟨by rw [hzone]; exact h.zone, fun i hi => ?_, ?_, ?_, ?_, ?_⟩
  · rw [hbits, hbm, Bool.or_eq_true, decide_eq_true_eq] at hi
    rw [hzone]
    rcases hi with hi | rfl
    · exact h.bits i hi
    · exact hk
  · rw [hbits, htrunks, hzone, hpop]
    omega
  · rw [hbits, hpop]
    omega
  · rw [htrunks, hzone]
    exact hlinked
  · rw [htrunks]
    exact hfull

theorem alloc_trunk_from_list_run (h : PoolInv pool runs ring) (hlist : ring (.zone zi) = p :: xs) :
    ∃ pool' ring' a, (allocTrunkFromList zi p).run pool = .ok a pool' ∧ a ≠ rtNull ∧
      PoolInv pool' runs ring' ∧ BlockAdded pool pool' a (zoneSize zi) ∧
      pool'.usedMem = pool.usedMem := by
  have hp : p ∈ ring (.zone zi) := by simp [hlist]
  have hbound := (h.wf.rings _).bound p hp
  have hg := h.wf.geometry
  obtain ⟨htype, hzi, hfree⟩ := (h.wf.ok_at hbound).member _ hp
  have hzone := (h.wf.ok_at hbound).zone htype
  have hcov : ¬ Covers runs p := by
    intro hc
    have := (h.wf.ok_at hbound).covered hc
    simp [htype] at this
  obtain ⟨hx, hy, hshift, hk, hclear⟩ := hzone.find_trunk hfree
  obtain ⟨_, htpp⟩ := trunks_bounds hzone.zone
  have hcount := hzone.count
  have hused := hzone.used
  have hnz := hzone.zone
  rw [hzi] at hcount hk htpp hnz
  generalize hfound : findTrunk (pool.pgmanArray p).trunkBitmap = found at hx hy hshift hk hclear
  generalize hft : (pool.pgmanArray p).freeTrunks - 1 = ft
  obtain ⟨pool1, ring', hdrop, hsame, hwf, hkept, hdata, hcache, hmember, hlinked, hself⟩ :=
    drop_full_page_run (h.wf.hold_page hbound (.inl htype)) ft hlist htype
  -- The entry of the page gets its new bitmap and count.
  let m : PageMan := { pool1.pgmanArray p with
    trunkBitmap := markTrunk (pool1.pgmanArray p).trunkBitmap found.1 found.2
    freeTrunks := u12 ft }
  let pool2 : MemPool := { pool1 with pgmanArray := update pool1.pgmanArray p m }
  have hentry : pool2.pgmanArray p = m := update_self ..
  have hnum : pool2.pageNum = pool.pageNum := by
    obtain ⟨_, _, _, rfl⟩ := hsame
    rfl
  have hstart : pool2.heapStart = pool.heapStart := by
    obtain ⟨_, _, _, rfl⟩ := hsame
    rfl
  have htype2 : pool2.type p = .zone := by
    rw [type, hentry]
    exact hdata.type.trans htype
  have hzone2 : (pool2.pgmanArray p).zoneIndex = (pool.pgmanArray p).zoneIndex := by
    rw [hentry]
    exact hdata.zone
  have hword : u12 ft = ft := mod_eq_of_lt (by omega)
  have hmark : ∀ i, (pool2.pgmanArray p).trunkBitmap.getLsbD i =
      ((pool.pgmanArray p).trunkBitmap.getLsbD i || decide (i = 8 * found.1 + found.2)) := by
    intro i
    rw [hentry]
    simp only [m, hdata.bitmap]
    exact mark_trunk_get _ hx hy i
  have hwf2 : Wf pool2 runs ring' p 1 := by
    refine hwf.set_page (held_one.mpr rfl) m (.inr ⟨rfl, rfl⟩) fun hpage => ?_
    rw [show m.pageType = .zone from hdata.type.trans htype] at hpage
    simp at hpage
  have hlinks : pool2.prev p = pool1.prev p ∧ pool2.next p = pool1.next p := by
    simp only [MemPool.prev, MemPool.next, hentry]
    exact ⟨rfl, rfl⟩
  have hzoneOk : ZoneOk pool2 ring' p := by
    refine hzone.mark (by rw [hzi]; exact hk) hclear hmark (show ft + 1 = _ by omega) rfl
      (by rw [hentry]; exact hword) hzone2 ?_ ?_
    · rw [hzi]
      exact hlinked
    · rw [hlinks.1, hlinks.2]
      exact hself
  have hsame2 : SameButLists pool pool2 := hsame.trans (.set_pgman _ _)
  have hkept2 : PagesKept pool pool2 p 1 := by
    intro q hq hnot
    have hqp : q ≠ p := fun heq => hnot (held_one.mpr heq)
    have hq2 : pool2.pgmanArray q = pool1.pgmanArray q := update_of_ne hqp _ _
    rw [MemPool.prev, hq2]
    exact hkept q hq hnot
  have hslot : SlotAdded pool pool2 p (8 * found.1 + found.2) := by
    refine SlotAdded.of_pages hnum hstart (by omega) hkept2 (by omega) ?_ (fun j => ?_)
      (fun j hu => ⟨hzone2, ?_⟩)
    · simp [Used, htype, hclear]
    · simp [Used, hnum, hbound, htype, htype2, hmark]
    · rw [slot_len_zone htype, slot_len_zone htype2, hzone2]
  have haddr : pool2.pageAddr p = pool.pageAddr p := by
    rw [pageAddr, hstart, pageAddr]
  have htrunk := trunk_inside hnz hk
  have htop := hg.top
  have hend := hg.heap_end
  refine ⟨pool2, ring', pool.pageAddr p + (8 * found.1 + found.2) * zoneSize zi, ?_, ?_, ?_, ?_, ?_⟩
  · have hcheck : ¬ (trunksPerPage zi ≤ ((findTrunk (pool.pgmanArray p).trunkBitmap).1 <<< 3) +
        (findTrunk (pool.pgmanArray p).trunkBitmap).2 ∨ (pool.pgmanArray p).freeTrunks = 0 ∨
        trunksPerPage zi ≤ (pool.pgmanArray p).freeTrunks) := by
      rw [hfound, hshift]
      omega
    have hret : u32 (pool.pageAddr p + (8 * found.1 + found.2) * zoneSize zi) =
        pool.pageAddr p + (8 * found.1 + found.2) * zoneSize zi := by
      apply u32_of_lt
      unfold pageAddr
      omega
    simp only [allocTrunkFromList, run_bind, verify_pglist_run h.wf hp htype hzi,
      run_get, bug_if_run_of_not hcheck, hfound, hft, hdrop, modify_pgm_run,
      run_pure, pgidx2addr_eq hg hbound, hshift, hret]
    rfl
  · have := page_addr_ne_null hg p
    simp only [rt_null_eq] at this ⊢
    omega
  · refine h.of_lists hsame2 (hwf2.close fun q _ hq => ?_) hcache
      (hkept2.zone_pages_eq hnum (htype2.trans htype.symm) hzone2)
    rw [held_one.mp hq]
    refine .of_zone htype2 hzoneOk hcov fun list hmem => ?_
    obtain ⟨hl, hpos⟩ := hmember list hmem
    refine ⟨by rw [hzone2, hzi]; exact hl, ?_⟩
    rw [hentry]
    simpa [m, hword] using hpos
  · refine ⟨hnum, hstart, ?_, p, _, hslot, ?_, ?_⟩
    · obtain ⟨_, _, _, rfl⟩ := hsame
      rfl
    · rw [slotAddr, haddr, hzone2, hzi]
    · rw [slot_len_zone htype2, hzone2, hzi]
  · obtain ⟨_, _, _, rfl⟩ := hsame
    rfl

theorem PoolInv.of_stats (h : PoolInv pool runs ring) (hsame : SameLayout pool pool') {d : Int}
    (hcount : pool'.zoneCacheCount = pool.zoneCacheCount) (hnum : pool'.zoneNum = pool.zoneNum)
    (hblock : pool'.blockUsedBytes = pool.blockUsedBytes) (hzi : zi < nzones)
    (hzone : pool'.zoneUsedBytes = update pool.zoneUsedBytes zi (pool.zoneUsedBytes zi + d))
    (hused : pool'.usedMem = pool.usedMem + d) : PoolInv pool' runs ring := by
  refine ⟨⟨hcount.trans h.count, h.count_le, fun z => ?_, ?_⟩, h.wf.of_same_layout hsame⟩
  · obtain ⟨_, hpages, _, _, _, _, hpgman, _⟩ := hsame
    rw [hnum, h.zone_num]
    simp only [zonePages, type, hpages, hpgman]
  · have hsum := sum_update_of_mem (Finset.mem_range.mpr hzi) pool.zoneUsedBytes
      (pool.zoneUsedBytes zi + d)
    have hsplit := sum_sdiff (singleton_subset_iff.mpr (Finset.mem_range.mpr hzi))
      (f := pool.zoneUsedBytes)
    have hmem := h.used_mem
    rw [Finset.sum_singleton] at hsplit
    rw [hused, hblock, hzone, hsum]
    omega

theorem SlotAdded.of_same_layout {k : Nat} (h : SlotAdded pool pool1 p k)
    (hsame : SameLayout pool1 pool') : SlotAdded pool pool' p k := by
  obtain ⟨_, hnum, hstart, _, _, _, hpgman, _⟩ := hsame
  obtain ⟨hfresh, hused, haddr, hlen⟩ := h
  refine ⟨hfresh, fun q j => ?_, fun q j hu => ?_, fun q j hu => ?_⟩
  · rw [← hused]
    simp only [Used, type, hnum, hpgman]
  · rw [← haddr q j hu]
    simp only [slotAddr, pageAddr, hstart, hpgman]
  · rw [← hlen q j hu, hpgman]

theorem account_trunk_run (h : PoolInv pool runs ring) (hzi : zi < nzones) :
    ∃ pool', (accountTrunk zi).run pool = .ok () pool' ∧ SameLayout pool pool' ∧
      PoolInv pool' runs ring ∧ pool'.usedMem = pool.usedMem + zoneSize zi := by
  refine ⟨_, rfl, ?_, h.of_stats (d := zoneSize zi) ?_ rfl rfl rfl hzi rfl rfl, rfl⟩
  · exact ⟨rfl, rfl, rfl, rfl, rfl, rfl, rfl, fun list => by cases list <;> rfl⟩
  · exact ⟨rfl, rfl, rfl, rfl, rfl, rfl, rfl, fun list => by cases list <;> rfl⟩

def newZoneEntry (zi p : Nat) : PageMan where
  pageType := .zone
  zoneIndex := zi
  freeTrunks := trunksPerPage zi - 1
  trunkBitmap := 1#64
  pagePrev := p
  pageNext := p

theorem new_zone_bit (k : Nat) : (1#64).getLsbD k = decide (k = 0) := by
  simp

theorem link_zone_page_run (h : Wf pool runs ring p 1) (hc : Counters pool ring)
    (hbound : p < pool.pageNum) (hzi : zi < nzones) (hempty : ring (.zone zi) = [])
    (hnone : ∀ list, p ∉ ring list) (hcov : ¬ Covers runs p) (htype : pool.type p ≠ .zone) :
    ∃ pool', (linkZonePage zi p).run pool = .ok () pool' ∧
      PoolInv pool' runs (update ring (.zone zi) [p]) ∧
      pool'.pgmanArray = update pool.pgmanArray p (newZoneEntry zi p) ∧
      pool'.pageNum = pool.pageNum ∧ pool'.heapStart = pool.heapStart ∧
      pool'.heapEnd = pool.heapEnd ∧ pool'.usedMem = pool.usedMem := by
  have hpages := h.geometry.pages
  obtain ⟨htpp, htpp'⟩ := trunks_bounds hzi
  let pool1 : MemPool := ({ pool with
    pgmanArray := update pool.pgmanArray p (newZoneEntry zi p) } : MemPool).withListHead
      (.zone zi) p
  have hentry : pool1.pgmanArray p = newZoneEntry zi p := by simp [pool1]
  have hother : ∀ q, q ≠ p → pool1.pgmanArray q = pool.pgmanArray q := fun q hq => by
    simp [pool1, hq]
  have hwf : Wf pool1 runs (update ring (.zone zi) [p]) p 1 := by
    refine h.link_only hbound hempty hnone
      ((SameButLists.set_pgman pool _).trans (.with_list_head _ _ _)) hother ?_
      (fun list' hl => ?_) (list_head_with ..) ?_
    · simp [MemPool.next, MemPool.prev, hentry, newZoneEntry]
    · rw [list_head_with_other _ hl]
      cases list' <;> rfl
    · simp [type, hentry, newZoneEntry]
  have hzone : ZoneOk pool1 (update ring (.zone zi) [p]) p := by
    have hpop : Bits.popcount (1#64) = 1 := by
      simp [Bits.popcount]
    refine ⟨?_, fun k hk => ?_, ?_, ?_, fun _ => ?_, fun hfull => ?_⟩
    · rw [hentry]
      exact hzi
    · rw [hentry] at hk ⊢
      simp only [newZoneEntry, new_zone_bit, decide_eq_true_eq] at hk ⊢
      omega
    · rw [hentry]
      simp only [newZoneEntry, hpop]
      omega
    · rw [hentry]
      simp [newZoneEntry, hpop]
    · rw [hentry]
      simp [newZoneEntry]
    · rw [hentry] at hfull
      simp only [newZoneEntry] at hfull
      omega
  have hclosed : Wf pool1 runs (update ring (.zone zi) [p]) 0 0 := by
    refine hwf.close fun q _ hq => ?_
    rw [held_one.mp hq]
    refine .of_zone (by rw [type, hentry]; rfl) hzone hcov fun list hmem => ?_
    rw [hentry]
    by_cases hl : list = .zone zi
    · exact ⟨hl, by simp only [newZoneEntry]; omega⟩
    · rw [update_of_ne hl] at hmem
      exact absurd hmem (hnone list)
  let num := pool.zoneNum zi + 1
  let pool2 : MemPool := { pool1 with
    zoneNum := update pool.zoneNum zi num
    zoneNumMax := update pool.zoneNumMax zi (max (pool.zoneNumMax zi) num) }
  have hpgman2 : pool2.pgmanArray = update pool.pgmanArray p (newZoneEntry zi p) := rfl
  refine ⟨pool2, ?_, ⟨⟨?_, ?_, fun z => ?_, hc.used_mem⟩, hclosed.of_same_layout ?_⟩, hpgman2, rfl,
    rfl, rfl, rfl⟩
  · have hbitmap : setBitmapByte 0#64 0 1#8 = 1#64 := by decide
    have hword : u12 (trunksPerPage zi - 1) = trunksPerPage zi - 1 := mod_eq_of_lt (by omega)
    have hword' : u20 p = p := u20_of_lt (by omega)
    simp only [linkZonePage, run_bind, modify_pgm_run, set_list_head_run,
      run_modify, hbitmap, hword, hword']
    rfl
  · rw [update_of_ne (by simp)]
    exact hc.count
  · rw [update_of_ne (by simp)]
    exact hc.count_le
  · show update pool.zoneNum zi num z = _
    have hkept : PagesKept pool pool2 p 1 := PagesKept.of_entries fun q hq =>
      hother q fun heq => hq (held_one.mpr heq)
    have hstay : ∀ q, q ≠ p → (q ∈ zonePages pool2 z ↔ q ∈ zonePages pool z) := fun q hq =>
      hkept.zone_pages rfl fun hheld => hq (held_one.mp hheld)
    have hbefore : p ∉ zonePages pool z := by simp [zonePages, htype]
    by_cases hz : z = zi
    · subst hz
      have hpages2 : zonePages pool2 z = insert p (zonePages pool z) := by
        ext q
        by_cases hq : q = p
        · subst hq
          simp [zonePages, pool2, type, newZoneEntry, pool1, hbound, withListHead]
        · simp [hstay q hq, hq]
      rw [hpages2, card_insert_of_notMem hbefore, update_self]
      simp [num, hc.zone_num]
    · have hpages2 : zonePages pool2 z = zonePages pool z := by
        ext q
        by_cases hq : q = p
        · subst hq
          simp only [hbefore, iff_false]
          simp [zonePages, hpgman2, newZoneEntry, Ne.symm hz]
        · exact hstay q hq
      rw [hpages2, update_of_ne hz, hc.zone_num]
  · exact ⟨rfl, rfl, rfl, rfl, rfl, rfl, rfl, fun list => by cases list <;> rfl⟩

structure PageTaken (pool pool1 : MemPool) (runs : List (Nat × Nat)) (ring : PageList → List Nat)
    (p : Nat) : Prop where
  wf : Wf pool1 runs ring p 1
  counters : Counters pool1 ring
  bound : p < pool.pageNum
  none : ∀ list, p ∉ ring list
  uncovered : ¬ Covers runs p
  before : pool.type p = .free ∨ pool.type p = .cache
  type : pool1.type p = pool.type p
  kept : PagesKept pool pool1 p 1
  num : pool1.pageNum = pool.pageNum
  start : pool1.heapStart = pool.heapStart
  top : pool1.heapEnd = pool.heapEnd
  used_mem : pool1.usedMem = pool.usedMem

theorem start_zone_page_run (h : PageTaken pool pool1 runs ring p) (hzi : zi < nzones)
    (hempty : ring (.zone zi) = []) :
    ∃ pool' ring', (startZonePage zi (pool.pageAddr p)).run pool1 = .ok (pool.pageAddr p) pool' ∧
      pool.pageAddr p ≠ rtNull ∧ PoolInv pool' runs ring' ∧
      BlockAdded pool pool' (pool.pageAddr p) (zoneSize zi) ∧
      pool'.usedMem = pool.usedMem + zoneSize zi := by
  have hbefore := h.before
  have hg := h.wf.geometry
  have hbound1 : p < pool1.pageNum := h.num ▸ h.bound
  have haddr : pool1.pageAddr p = pool.pageAddr p := by
    rw [pageAddr, h.start, pageAddr]
  have hpgidx : addr2Pgidx pool1 (pool.pageAddr p) = p := by
    rw [← haddr]
    exact addr2pgidx_eq hg (o := 0) hbound1 (by omega)
  have hnull : pool.pageAddr p ≠ rtNull := by
    rw [← haddr]
    exact page_addr_ne_null hg p
  have htype : pool1.type p ≠ .zone := by
    rw [h.type]
    rcases hbefore with hb | hb <;> simp [hb]
  obtain ⟨pool2, hlink, hinv, hpgman, hnum, hstart, hend, hmem⟩ := link_zone_page_run h.wf
    h.counters hbound1 hzi hempty h.none h.uncovered htype
  obtain ⟨pool', haccount, hsame, hinv', hmem'⟩ := account_trunk_run hinv hzi
  refine ⟨pool', _, ?_, hnull, hinv', ?_, ?_⟩
  · simp only [startZonePage, if_neg hnull, run_bind, run_get]
    rw [hpgidx, hlink]
    simp only [haccount, run_pure]
  · have hnotUsed : ∀ j, ¬ Used pool p j := by
      intro j hu
      rcases hu.2 with ⟨hu, _⟩ | ⟨hu, _⟩ <;> rcases hbefore with hb | hb <;> simp [hb] at hu
    have hentry : pool2.pgmanArray p = newZoneEntry zi p := by
      rw [hpgman, update_self]
    have hkept : PagesKept pool pool2 p 1 := by
      intro q hq hnot
      have hq2 : pool2.pgmanArray q = pool1.pgmanArray q := by
        rw [hpgman, update_of_ne fun heq => hnot (held_one.mpr heq)]
      rw [MemPool.prev, hq2]
      exact h.kept q hq hnot
    have hslot : SlotAdded pool pool2 p 0 := by
      refine SlotAdded.of_pages (hnum.trans h.num) (hstart.trans h.start) (by omega) hkept
        (by omega) (hnotUsed 0) (fun j => ?_) (fun j hu => absurd hu (hnotUsed j))
      simp [Used, hnum, h.num, h.bound, type, hentry, newZoneEntry]
      intro hu
      exact absurd hu (by rcases hbefore with hb | hb <;> simp [type] at hb <;> simp [hb])
    obtain ⟨_, hnum', hstart', hend', _, _, hpgman', _⟩ := id hsame
    refine ⟨hnum'.trans (hnum.trans h.num), hstart'.trans (hstart.trans h.start),
      hend'.trans (hend.trans h.top), p, 0, hslot.of_same_layout hsame, ?_, ?_⟩
    · rw [slotAddr, pageAddr, hstart', hstart, h.start, Nat.zero_mul]
      rfl
    · rw [hpgman', hentry]
      simp [slotLen, newZoneEntry]
  · rw [hmem', hmem, h.used_mem]

theorem take_cache_page_run (h : PoolInv pool runs ring) (hlist : ring .cache = p :: xs) :
    ∃ pool1, (takeCachePage p).run pool = .ok (pool.pageAddr p) pool1 ∧
      PageTaken pool pool1 runs (update ring .cache xs) p := by
  have hp : p ∈ ring .cache := by simp [hlist]
  have hbound := (h.wf.rings _).bound p hp
  have hok := h.wf.ok_at hbound
  have htype : pool.type p = .cache := hok.member _ hp
  have hzone := (hok.cache htype).1
  have hnot : p ∉ xs := by
    have := (h.wf.rings .cache).nodup
    rw [hlist] at this
    exact (nodup_cons.mp this).1
  have hcov : ¬ Covers runs p := by
    intro hc
    have := hok.covered hc
    simp [htype] at this
  obtain ⟨pool1, hrun, hsame, hwf, hkept, hentry⟩ :=
    (h.wf.hold_page hbound (.inr htype)).unlink_head hlist (m := pool.pgmanArray p)
      (by rw [show (pool.pgmanArray p).pageType = .cache from htype]; simp)
  rw [update_eq_self] at hrun
  obtain ⟨pgman, lists, cache, rfl⟩ := hsame
  have hlen : (ring .cache).length = xs.length + 1 := by simp [hlist]
  refine ⟨{ pool with
      pgmanArray := pgman, zoneAllocList := lists, zoneCacheList := cache,
      zoneCacheCount := pool.zoneCacheCount - 1 }, ?_, hwf.of_same_layout ?_,
    ⟨?_, ?_, fun z => ?_, h.used_mem⟩, hbound, fun list => ?_, hcov, .inr htype, ?_,
    fun q hq hnot => hkept q hq hnot, rfl, rfl, rfl, rfl⟩
  · simp only [takeCachePage, run_bind, verify_pglist_run h.wf hp htype hzone,
      run_get, hrun, run_modify, run_pure, pgidx2addr_eq h.wf.geometry hbound]
  · exact ⟨rfl, rfl, rfl, rfl, rfl, rfl, rfl, fun list => by cases list <;> rfl⟩
  · have := h.count
    simp only [update_self]
    omega
  · have := h.count_le
    simp only [update_self]
    omega
  · have hpages := hkept.zone_pages_eq rfl
      (congrArg PageMan.pageType hentry) (congrArg PageMan.zoneIndex hentry) z
    exact (h.zone_num z).trans (by rw [← hpages]; rfl)
  · by_cases hl : list = .cache
    · subst hl
      exact hnot
    · rw [update_of_ne hl]
      exact fun hmem => hl (h.wf.disjoint _ _ p hmem hp)
  · exact congrArg PageMan.pageType hentry

/-- A page is taken from the free page list. The cache list is empty there, so the count that the
code resets is 0 before. -/
theorem take_new_page_run (h : PoolInv pool runs ring) (hcache : ring .cache = []) :
    takeNewPage.run pool = .ok rtNull pool ∨
      ∃ pool1 p runs', takeNewPage.run pool = .ok (pool.pageAddr p) pool1 ∧
        PageTaken pool pool1 runs' ring p := by
  have hg := h.wf.geometry
  have hreset : ({ pool with zoneCacheCount := 0 } : MemPool) = pool := by
    have hcount : (0 : Int) = pool.zoneCacheCount := by
      rw [h.count, hcache]
      rfl
    rw [hcount]
  have halloc := rt_page_alloc_nolock_run hg h.wf.free (n := 1) (by omega)
  cases hfit : firstFit 1 runs with
  | none =>
    rw [hfit] at halloc
    left
    simp only [takeNewPage, run_bind, run_modify, hreset, halloc, if_true, run_pure]
  | some found =>
    obtain ⟨i, runs'⟩ := found
    rw [hfit] at halloc
    obtain ⟨pool1, hrun, hsame, hfree⟩ := halloc
    obtain ⟨hwf, hin, hheld⟩ := h.wf.take (by omega) hfit hsame hfree
    obtain ⟨htype, hcov, hnone⟩ := hheld i (held_one.mpr rfl)
    have hpgidx := hsame.addr2pgidx hg (show i < pool.pageNum by omega)
    have hcheck : ¬ (pool1.pgmanArray (addr2Pgidx pool1 (pool.pageAddr i))).pageType ≠ .free := by
      rw [hpgidx]
      simpa using htype
    right
    refine ⟨pool1, i, runs', ?_, ?_⟩
    · simp only [takeNewPage, run_bind, run_modify, hreset, hrun, if_neg (page_addr_ne_null hg i),
        run_get, bug_if_run_of_not hcheck, run_pure]
    · obtain ⟨alloctor, first, rfl⟩ := hsame
      exact ⟨hwf, ⟨h.count, h.count_le, h.zone_num, h.used_mem⟩, by omega, hnone, hcov,
        .inl htype, rfl, PagesKept.of_entries fun _ _ => rfl, rfl, rfl, rfl, rfl⟩

theorem alloc_trunk_run (h : PoolInv pool runs ring) (hzi : zi < nzones) :
    (allocTrunk zi).run pool = .ok rtNull pool ∨
      ∃ pool' a runs' ring', (allocTrunk zi).run pool = .ok a pool' ∧ a ≠ rtNull ∧
        PoolInv pool' runs' ring' ∧ BlockAdded pool pool' a (zoneSize zi) ∧
        pool'.usedMem = pool.usedMem + zoneSize zi := by
  have hhead : pool.zoneAllocList zi = headField (ring (.zone zi)) := (h.wf.rings (.zone zi)).head
  have hcache : pool.zoneCacheList = headField (ring .cache) := (h.wf.rings .cache).head
  cases hlist : ring (.zone zi) with
  | cons p xs =>
    rw [hlist] at hhead
    right
    obtain ⟨pool1, ring', a, hrun, hnull, hinv, hadded, hmem⟩ := alloc_trunk_from_list_run h hlist
    obtain ⟨pool', haccount, hsame, hinv', hmem'⟩ := account_trunk_run hinv hzi
    refine ⟨pool', a, runs, ring', ?_, hnull, hinv', ?_, by rw [hmem', hmem]⟩
    · have hp : (0 : Int) ≤ headField (p :: xs) := Int.natCast_nonneg p
      have hp' : (headField (p :: xs)).toNat = p := rfl
      simp only [allocTrunk, run_bind, run_get, hhead, if_pos hp, hp', hrun, haccount, run_pure]
    · obtain ⟨hnum, hstart, htop, q, k, hslot, haddr, hlen⟩ := hadded
      obtain ⟨_, hnum', hstart', htop', _, _, hpgman', _⟩ := id hsame
      refine ⟨hnum'.trans hnum, hstart'.trans hstart, htop'.trans htop, q, k,
        hslot.of_same_layout hsame, ?_, by rw [hpgman']; exact hlen⟩
      rw [← haddr]
      simp only [slotAddr, pageAddr, hstart', hpgman']
  | nil =>
    rw [hlist] at hhead
    have hneg : ¬ (0 : Int) ≤ headField [] := by decide
    cases hclist : ring .cache with
    | cons p xs =>
      rw [hclist] at hcache
      right
      obtain ⟨pool1, hrun, htaken⟩ := take_cache_page_run h hclist
      obtain ⟨pool', ring', hrun', hnull, hinv, hadded, hmem⟩ := start_zone_page_run htaken hzi
        (by rw [update_of_ne (by simp)]; exact hlist)
      refine ⟨pool', _, runs, ring', ?_, hnull, hinv, hadded, hmem⟩
      have hp : (0 : Int) ≤ headField (p :: xs) := Int.natCast_nonneg p
      have hp' : (headField (p :: xs)).toNat = p := rfl
      simp only [allocTrunk, run_bind, run_get, hhead, if_neg hneg, hcache,
        if_pos hp, hp', hrun, hrun']
    | nil =>
      rw [hclist] at hcache
      rcases take_new_page_run h hclist with hrun | ⟨pool1, p, runs', hrun, htaken⟩
      · left
        simp only [allocTrunk, run_bind, run_get, hhead, if_neg hneg, hcache,
          hrun, startZonePage, if_true, run_pure]
      · right
        obtain ⟨pool', ring', hrun', hnull, hinv, hadded, hmem⟩ :=
          start_zone_page_run htaken hzi hlist
        refine ⟨pool', _, runs', ring', ?_, hnull, hinv, hadded, hmem⟩
        simp only [allocTrunk, run_bind, run_get, hhead, if_neg hneg, hcache, hrun, hrun']

end

/-! ## Requests -/

/-- The length that `fhkmalloc` rounds a request to: the trunk size of its zone, or whole pages. -/
def grantedLen (size alignBits : Nat) : Nat :=
  let bytes := rtAlign size 4
  let bits := if alignBits < mmAlign4 then mmAlign4 else alignBits
  if zoneSize (nzones - 1) < bytes ∨ bits = mmPageBits then rtAlign bytes mmPageSize
  else zoneSize (zoneIndex bytes (1 <<< bits))

section

variable {pool : MemPool} {runs : List (Nat × Nat)} {ring : PageList → List Nat}
  {size alignBits moduleId : Nat}

theorem zone_index_from_spec (bytes align : Nat) (sizes : List Nat) (zi : Nat)
    (hlt : zoneIndexFrom bytes align sizes zi < zi + sizes.length) :
    zi ≤ zoneIndexFrom bytes align sizes zi ∧
      bytes ≤ sizes.getD (zoneIndexFrom bytes align sizes zi - zi) 0 ∧
      sizes.getD (zoneIndexFrom bytes align sizes zi - zi) 0 &&& (align - 1) = 0 := by
  induction sizes generalizing zi with
  | nil => simp [zoneIndexFrom] at hlt
  | cons zonesize rest ih =>
    rw [zoneIndexFrom] at hlt ⊢
    by_cases hfit : bytes ≤ zonesize ∧ zonesize &&& (align - 1) = 0
    · simp [hfit]
    · rw [if_neg hfit] at hlt ⊢
      obtain ⟨hle, hbytes, halign⟩ := ih (zi + 1) (by simp only [length_cons] at hlt; omega)
      obtain ⟨d, hd⟩ : ∃ d, zoneIndexFrom bytes align rest (zi + 1) - zi = d + 1 :=
        ⟨zoneIndexFrom bytes align rest (zi + 1) - zi - 1, by omega⟩
      rw [show zoneIndexFrom bytes align rest (zi + 1) - (zi + 1) = d by omega] at hbytes halign
      rw [hd, getD_cons_succ]
      exact ⟨by omega, hbytes, halign⟩

theorem zone_index_spec {bytes align : Nat} (h : zoneIndex bytes align < nzones) :
    bytes ≤ zoneSize (zoneIndex bytes align) ∧
      zoneSize (zoneIndex bytes align) &&& (align - 1) = 0 := by
  obtain ⟨_, hbytes, halign⟩ := zone_index_from_spec bytes align gZoneSizes 0
    (by rw [zero_add]; exact h)
  exact ⟨hbytes, halign⟩

/-- A request that `malloc_r` serves gets a slot of the length it is rounded to, which is long
enough and a multiple of the alignment. -/
theorem malloc_r_run (h : PoolInv pool runs ring) (size : Nat) {bits : Nat} (hpos : 0 < size)
    (hsize : size ≤ 4096 * pool.pageNum) (hbits : bits ≤ mmPageBits) :
    (mallocR size bits).run pool = .ok rtNull pool ∨
      ∃ pool' a runs' ring' len, (mallocR size bits).run pool = .ok a pool' ∧ a ≠ rtNull ∧
        PoolInv pool' runs' ring' ∧ BlockAdded pool pool' a len ∧
        pool'.usedMem = pool.usedMem + len ∧ size ≤ len ∧ len % 2 ^ bits = 0 ∧
        len = if zoneSize (nzones - 1) < size ∨ bits = mmPageBits then rtAlign size mmPageSize
          else zoneSize (zoneIndex size (1 <<< bits)) := by
  have hpages := h.wf.geometry.pages
  by_cases hlarge : zoneSize (nzones - 1) < size ∨ bits = mmPageBits
  · have hrun : mallocR size bits = mallocPages size := by rw [mallocR, if_pos hlarge]
    rw [hrun]
    rcases malloc_pages_run h hpos hsize with
      ⟨hnone, -⟩ | ⟨pool', a, runs', hok, hnull, hinv, hadded, hmem⟩
    · exact .inl hnone
    · refine .inr ⟨pool', a, runs', ring, _, hok, hnull, hinv, hadded, hmem, ?_, ?_, ?_⟩
      · rw [rt_align_page (by omega)]
        omega
      · rw [rt_align_page (by omega)]
        have hdvd : 2 ^ bits ∣ 2 ^ 12 := Nat.pow_dvd_pow 2 hbits
        exact mod_eq_zero_of_dvd (Nat.dvd_mul_right_of_dvd hdvd _)
      · rw [if_pos hlarge]
  · by_cases hzi : zoneIndex size (1 <<< bits) < nzones
    · have hrun : mallocR size bits = allocTrunk (zoneIndex size (1 <<< bits)) := by
        rw [mallocR, if_neg hlarge]
        exact if_neg (by omega)
      rw [hrun]
      rcases alloc_trunk_run h hzi with hnone |
        ⟨pool', a, runs', ring', hok, hnull, hinv, hadded, hmem⟩
      · exact .inl hnone
      · obtain ⟨hfit, halign⟩ := zone_index_spec hzi
        refine .inr ⟨pool', a, runs', ring', _, hok, hnull, hinv, hadded, hmem, hfit, ?_, ?_⟩
        · rw [shiftLeft_eq, one_mul, and_two_pow_sub_one_eq_mod] at halign
          rw [shiftLeft_eq, one_mul]
          exact halign
        · rw [if_neg hlarge]
    · left
      rw [mallocR, if_neg hlarge]
      simp only [if_pos (show nzones ≤ zoneIndex size (1 <<< bits) by omega), run_pure]

/-- A slot whose length is a multiple of the alignment starts at a multiple of it. -/
theorem Wf.slot_aligned (h : Wf pool runs ring 0 0) {p k bits : Nat} (hu : Used pool p k)
    (hbits : bits ≤ 12) (hlen : slotLen (pool.pgmanArray p) % 2 ^ bits = 0) :
    slotAddr pool p k % 2 ^ bits = 0 := by
  have hpage : 2 ^ bits ∣ pool.pageAddr p := by
    have hdvd : 2 ^ bits ∣ 4096 := Nat.pow_dvd_pow 2 hbits
    have hstart : 4096 ∣ pool.heapStart := dvd_of_mod_eq_zero h.geometry.aligned
    exact Nat.dvd_add (hdvd.trans hstart) (hdvd.mul_right p)
  rcases h.slot_cases hu with ⟨_, haddr, _⟩ | ⟨_, hzone, _⟩
  · rw [haddr]
    exact mod_eq_zero_of_dvd hpage
  · rw [hzone] at hlen
    exact mod_eq_zero_of_dvd (Nat.dvd_add hpage ((dvd_of_mod_eq_zero hlen).mul_left k))

theorem fhkmalloc_at (h : PoolInv pool runs ring) (hmodule : moduleId < fhmemTypeMax)
    (halign : alignBits ≤ mmPageBits) :
    (fhkmalloc moduleId size alignBits).run pool =
      if size = 0 ∨ 4096 * pool.pageNum < size then .ok rtNull pool
      else (mallocR (rtAlign size 4)
        (if alignBits < mmAlign4 then mmAlign4 else alignBits)).run pool := by
  have hpages := h.wf.geometry.pages
  have hcheck : ¬ (fhmemTypeMax ≤ moduleId ∨ pool.inited = false ∨ mmPageBits < alignBits) := by
    simp only [h.wf.inited, Bool.true_eq_false, false_or]
    omega
  have hbytes : u32 (pool.pageNum <<< mmPageBits) = 4096 * pool.pageNum := by
    rw [mm_page_bits_eq, shiftLeft_eq, u32_of_lt (by omega)]
    omega
  simp only [fhkmalloc, run_bind, run_get, bug_if_run_of_not hcheck, hbytes]
  split
  · rw [run_pure]
  · rfl

theorem fhkmalloc_run (h : PoolInv pool runs ring) (hmodule : moduleId < fhmemTypeMax)
    (halign : alignBits ≤ mmPageBits) :
    (fhkmalloc moduleId size alignBits).run pool = .ok rtNull pool ∨
      ∃ pool' a runs' ring', (fhkmalloc moduleId size alignBits).run pool = .ok a pool' ∧
        a ≠ rtNull ∧ PoolInv pool' runs' ring' ∧
        BlockAdded pool pool' a (grantedLen size alignBits) ∧
        pool'.usedMem = pool.usedMem + grantedLen size alignBits ∧
        size ≤ grantedLen size alignBits ∧ a % 2 ^ alignBits = 0 := by
  have hpages := h.wf.geometry.pages
  rw [fhkmalloc_at h hmodule halign]
  split
  · exact .inl rfl
  · rename_i hnone
    have hword := rt_align_word (x := size) (by omega)
    generalize hbits : (if alignBits < mmAlign4 then mmAlign4 else alignBits) = bits
    have hle : alignBits ≤ bits ∧ bits ≤ mmPageBits := by
      rw [mm_page_bits_eq] at halign ⊢
      rw [mm_align4_eq] at hbits
      split at hbits <;> omega
    rcases malloc_r_run h (rtAlign size 4) (by omega) (by omega) hle.2 with
      hnull | ⟨pool', a, runs', ring', len, hok, hnull, hinv, hadded, hmem, hsize, hlen, hgranted⟩
    · exact .inl hnull
    · have hlenEq : grantedLen size alignBits = len := by
        simp only [grantedLen, hbits]
        exact hgranted.symm
      right
      rw [hlenEq]
      refine ⟨pool', a, runs', ring', hok, hnull, hinv, hadded, hmem, by omega, ?_⟩
      obtain ⟨_, _, _, p, k, hslot, rfl, rfl⟩ := hadded
      have hu : Used pool' p k := (hslot.used p k).mpr (.inr ⟨rfl, rfl⟩)
      have haddr := hinv.wf.slot_aligned hu hle.2 hlen
      exact mod_eq_zero_of_dvd ((Nat.pow_dvd_pow 2 hle.1).trans (dvd_of_mod_eq_zero haddr))

end

end FullhanRtos.Slab
