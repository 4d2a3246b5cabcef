import FullhanRtos.Slab.Links
import Mathlib.Algebra.BigOperators.Group.Finset.Basic
import Mathlib.Algebra.BigOperators.Group.Finset.Piecewise
import Mathlib.Algebra.Order.BigOperators.Group.Finset

/-!
# The memory a pool has handed out

A slot is a trunk of a zone page or a whole multi-page block, which is slot 0 of its first page.
`Used` reads from the page table which slots are handed out, and `slot_ranges_disjoint` says that
their byte ranges do not overlap. `PoolInv` is the invariant of a pool between two calls: its
layout and its counters. `SlotAdded pool pool' p k` says that `pool'` has handed out one slot more
than `pool`, so it describes an allocation from left to right and a release from right to left.
-/

namespace FullhanRtos.Slab

open RunList LinkedRing

/-- Slot `k` of page `p` is handed out. -/
def Used (pool : MemPool) (p k : Nat) : Prop :=
  p < pool.pageNum ∧
    (pool.type p = .page ∧ k = 0 ∨
      pool.type p = .zone ∧ (pool.pgmanArray p).trunkBitmap.getLsbD k = true)

def slotAddr (pool : MemPool) (p k : Nat) : Nat :=
  pool.pageAddr p + k * zoneSize (pool.pgmanArray p).zoneIndex

def slotLen (pgm : PageMan) : Nat :=
  if pgm.pageType = .page then 4096 * pgm.pagePrev else zoneSize pgm.zoneIndex

theorem slot_len_zone {pgm : PageMan} (h : pgm.pageType = .zone) :
    slotLen pgm = zoneSize pgm.zoneIndex := by
  rw [slotLen, if_neg (by simp [h])]

def zonePages (pool : MemPool) (zi : Nat) : Finset Nat :=
  (Finset.range pool.pageNum).filter fun p =>
    pool.type p = .zone ∧ (pool.pgmanArray p).zoneIndex = zi

structure Counters (pool : MemPool) (ring : PageList → List Nat) : Prop where
  count : pool.zoneCacheCount = (ring .cache).length
  count_le : (ring .cache).length ≤ zoneReleaseThresh
  zone_num : ∀ zi, pool.zoneNum zi = (zonePages pool zi).card
  used_mem : pool.usedMem = pool.blockUsedBytes + ∑ zi ∈ Finset.range nzones, pool.zoneUsedBytes zi

/-- The invariant of a pool between two calls. -/
structure PoolInv (pool : MemPool) (runs : List (Nat × Nat)) (ring : PageList → List Nat) : Prop
    extends Counters pool ring where
  wf : Wf pool runs ring 0 0

structure SlotAdded (pool pool' : MemPool) (p k : Nat) : Prop where
  fresh : ¬ Used pool p k
  used : ∀ q j, Used pool' q j ↔ Used pool q j ∨ q = p ∧ j = k
  addr : ∀ q j, Used pool q j → slotAddr pool' q j = slotAddr pool q j
  len : ∀ q j, Used pool q j → slotLen (pool'.pgmanArray q) = slotLen (pool.pgmanArray q)

/-! ## Zone sizes -/

section

variable {zi : Nat}

theorem zone_facts : ∀ zi : Fin nzones, 64 ≤ zoneSize zi ∧ zoneSize zi ≤ 2048 ∧
    zoneSize zi % 4 = 0 ∧ 2 ≤ trunksPerPage zi ∧ trunksPerPage zi ≤ 64 ∧
    trunksPerPage zi * zoneSize zi ≤ 4096 := by
  decide

theorem zone_size_pos (h : zi < nzones) : 0 < zoneSize zi :=
  lt_of_lt_of_le (by omega) (zone_facts ⟨zi, h⟩).1

theorem trunks_bounds (h : zi < nzones) : 2 ≤ trunksPerPage zi ∧ trunksPerPage zi ≤ 64 :=
  ⟨(zone_facts ⟨zi, h⟩).2.2.2.1, (zone_facts ⟨zi, h⟩).2.2.2.2.1⟩

theorem trunk_inside (h : zi < nzones) {k : Nat} (hk : k < trunksPerPage zi) :
    k * zoneSize zi + zoneSize zi ≤ 4096 := by
  have hle := Nat.mul_le_mul_right (zoneSize zi) (show k + 1 ≤ trunksPerPage zi from hk)
  have := (zone_facts ⟨zi, h⟩).2.2.2.2.2
  rw [Nat.succ_mul] at hle
  simp only at this
  omega

/-- Two different trunks of a page do not overlap. -/
theorem trunks_apart (zi : Nat) {j k : Nat} (h : j ≠ k) :
    j * zoneSize zi + zoneSize zi ≤ k * zoneSize zi ∨
      k * zoneSize zi + zoneSize zi ≤ j * zoneSize zi := by
  rcases Nat.lt_or_gt_of_ne h with hlt | hlt
  · left
    rw [← Nat.succ_mul]
    exact Nat.mul_le_mul_right _ hlt
  · right
    rw [← Nat.succ_mul]
    exact Nat.mul_le_mul_right _ hlt

end

section

variable {pool : MemPool} {runs : List (Nat × Nat)} {ring : PageList → List Nat} {p q k j : Nat}

section

variable (h : Wf pool runs ring 0 0)

include h

theorem Wf.ok_at (hp : p < pool.pageNum) : PageOk pool runs ring p :=
  h.pages p hp (not_held_zero 0 p)

theorem Wf.slot_cases (hu : Used pool p k) :
    (pool.type p = .page ∧ slotAddr pool p k = pool.pageAddr p ∧
      slotLen (pool.pgmanArray p) = 4096 * pool.prev p ∧ BlockOk pool runs p ∧ k = 0) ∨
    (pool.type p = .zone ∧ slotLen (pool.pgmanArray p) = zoneSize (pool.pgmanArray p).zoneIndex ∧
      ZoneOk pool ring p ∧ k < trunksPerPage (pool.pgmanArray p).zoneIndex) := by
  obtain ⟨hp, ⟨htype, rfl⟩ | ⟨htype, hbit⟩⟩ := hu
  · refine .inl ⟨htype, ?_, ?_, (h.ok_at hp).page htype, rfl⟩
    · simp [slotAddr]
    · rw [slotLen, if_pos htype]
  · have hzone := (h.ok_at hp).zone htype
    exact .inr ⟨htype, slot_len_zone htype, hzone, hzone.bits k hbit⟩

theorem Wf.slot_inside (hu : Used pool p k) :
    pool.heapStart ≤ slotAddr pool p k ∧
      slotAddr pool p k + slotLen (pool.pgmanArray p) ≤ pool.heapEnd ∧
      0 < slotLen (pool.pgmanArray p) ∧ slotAddr pool p k % 4 = 0 := by
  have hend := h.geometry.heap_end
  have haligned := h.geometry.aligned
  have hp := hu.1
  rcases h.slot_cases hu with ⟨_, haddr, hlen, hblock, _⟩ | ⟨_, hlen, hzone, hk⟩
  · have hpos := hblock.pos
    have hinside := hblock.inside
    rw [haddr, hlen]
    unfold MemPool.pageAddr
    omega
  · have htrunk := trunk_inside hzone.zone hk
    have hpos := zone_size_pos hzone.zone
    have hfour : k * zoneSize (pool.pgmanArray p).zoneIndex % 4 = 0 := by
      have := (zone_facts ⟨_, hzone.zone⟩).2.2.1
      rw [Nat.mul_mod, this]
      simp
    unfold slotAddr MemPool.pageAddr
    omega

theorem Wf.slot_pages (hu : Used pool p k) :
    ∃ n, 0 < n ∧ pool.pageAddr p ≤ slotAddr pool p k ∧
      slotAddr pool p k + slotLen (pool.pgmanArray p) ≤ pool.pageAddr p + 4096 * n ∧
      ∀ q, p < q → q < p + n → pool.type q = .free := by
  rcases h.slot_cases hu with ⟨_, haddr, hlen, hblock, _⟩ | ⟨_, hlen, hzone, hk⟩
  · refine ⟨pool.prev p, hblock.pos, by rw [haddr], by rw [haddr, hlen], fun q h1 h2 => ?_⟩
    exact (hblock.body q h1 h2).1
  · have htrunk := trunk_inside hzone.zone hk
    refine ⟨1, by omega, ?_, ?_, by omega⟩
    · unfold slotAddr
      omega
    · rw [hlen]
      unfold slotAddr
      omega

theorem slot_ranges_disjoint (hu : Used pool p k) (hu' : Used pool q j) (hne : ¬ (q = p ∧ j = k)) :
    slotAddr pool p k + slotLen (pool.pgmanArray p) ≤ slotAddr pool q j ∨
      slotAddr pool q j + slotLen (pool.pgmanArray q) ≤ slotAddr pool p k := by
  have husedType : ∀ {p k}, Used pool p k → pool.type p ≠ .free := by
    intro p k hu hfree
    rcases hu.2 with ⟨htype, _⟩ | ⟨htype, _⟩ <;> simp [hfree] at htype
  by_cases hpq : q = p
  · -- Two slots of one page are trunks of it.
    subst hpq
    have hkj : j ≠ k := fun heq => hne ⟨rfl, heq⟩
    rcases h.slot_cases hu with ⟨htype, _, _, _, rfl⟩ | ⟨htype, hlen, _, _⟩
    · rcases h.slot_cases hu' with ⟨_, _, _, _, rfl⟩ | ⟨htype', _⟩
      · exact absurd rfl hkj
      · simp [htype] at htype'
    · rw [hlen]
      unfold slotAddr
      rcases trunks_apart (pool.pgmanArray q).zoneIndex hkj with h1 | h1
      · right
        omega
      · left
        omega
  · obtain ⟨n, hn, hlo, hhi, hfree⟩ := h.slot_pages hu
    obtain ⟨m, hm, hlo', hhi', hfree'⟩ := h.slot_pages hu'
    have hout : ¬ (p < q ∧ q < p + n) := fun hin => husedType hu' (hfree q hin.1 hin.2)
    have hout' : ¬ (q < p ∧ p < q + m) := fun hin => husedType hu (hfree' p hin.1 hin.2)
    unfold MemPool.pageAddr at hlo hhi hlo' hhi'
    rcases Nat.lt_or_gt_of_ne hpq with hlt | hlt
    · right
      omega
    · left
      omega

theorem slot_addr_injective (hu : Used pool p k) (hu' : Used pool q j)
    (haddr : slotAddr pool q j = slotAddr pool p k) : q = p ∧ j = k := by
  by_contra hne
  have hpos := (h.slot_inside hu).2.2.1
  have hpos' := (h.slot_inside hu').2.2.1
  rcases slot_ranges_disjoint h hu hu' hne with h1 | h1 <;> omega

end

end

section

variable {pool pool' : MemPool} {runs : List (Nat × Nat)} {ring : PageList → List Nat}
  {p k : Nat} {f n : Nat}

def PagesKept (pool pool' : MemPool) (f n : Nat) : Prop :=
  ∀ q, q < pool.pageNum → ¬ Held f n q → SameData (pool'.pgmanArray q) (pool.pgmanArray q) ∧
    (pool.type q = .page → pool'.prev q = pool.prev q)

theorem PagesKept.of_entries (h : ∀ q, ¬ Held f n q → pool'.pgmanArray q = pool.pgmanArray q) :
    PagesKept pool pool' f n := by
  intro q _ hq
  refine ⟨?_, fun _ => ?_⟩
  · rw [h q hq]
    exact SameData.refl _
  · simp only [MemPool.prev, h q hq]

theorem Wf.pages_kept (h : Wf pool runs ring f n)
    (hdata : ∀ q, ¬ Held f n q → SameData (pool'.pgmanArray q) (pool.pgmanArray q))
    (hprev : ∀ q, ¬ Held f n q → (∀ list, q ∉ ring list) → pool'.prev q = pool.prev q) :
    PagesKept pool pool' f n := fun q hq hnot =>
  ⟨hdata q hnot, fun htype => hprev q hnot ((h.pages q hq hnot).not_on_list (.inl htype))⟩

theorem PagesKept.used_iff {f n q : Nat} (h : PagesKept pool pool' f n)
    (hnum : pool'.pageNum = pool.pageNum) (hq : ¬ Held f n q) (j : Nat) :
    Used pool' q j ↔ Used pool q j := by
  unfold Used
  rw [hnum]
  by_cases hlt : q < pool.pageNum
  · obtain ⟨hdata, _⟩ := h q hlt hq
    simp only [MemPool.type, hdata.type, hdata.bitmap]
  · simp [hlt]

/-- A step that hands out slot `k` of page `p` and changes nothing else. The pages behind `p` that
it may change have no slots before and after it. -/
theorem SlotAdded.of_pages {n : Nat} (hnum : pool'.pageNum = pool.pageNum)
    (hstart : pool'.heapStart = pool.heapStart) (hn : 0 < n) (hkept : PagesKept pool pool' p n)
    (hbody : ∀ q, p < q → q < p + n → ∀ j, ¬ Used pool q j ∧ ¬ Used pool' q j)
    (hfresh : ¬ Used pool p k) (hused : ∀ j, Used pool' p j ↔ Used pool p j ∨ j = k)
    (hzone : ∀ j, Used pool p j → (pool'.pgmanArray p).zoneIndex = (pool.pgmanArray p).zoneIndex ∧
      slotLen (pool'.pgmanArray p) = slotLen (pool.pgmanArray p)) :
    SlotAdded pool pool' p k := by
  have hcases : ∀ q, q = p ∨ (p < q ∧ q < p + n) ∨ ¬ Held p n q := by
    intro q
    unfold Held
    omega
  have haddr : ∀ q, pool'.pageAddr q = pool.pageAddr q := fun q => by
    rw [MemPool.pageAddr, hstart, MemPool.pageAddr]
  refine ⟨hfresh, fun q j => ?_, fun q j hu => ?_, fun q j hu => ?_⟩
  · rcases hcases q with rfl | ⟨h1, h2⟩ | hq
    · simpa using hused j
    · obtain ⟨h3, h4⟩ := hbody q h1 h2 j
      simp [h3, h4, Nat.ne_of_gt h1]
    · have hqp : q ≠ p := fun heq => hq ⟨by omega, by omega⟩
      simp [hkept.used_iff hnum hq, hqp]
  · rcases hcases q with rfl | ⟨h1, h2⟩ | hq
    · rw [slotAddr, slotAddr, haddr, (hzone j hu).1]
    · exact absurd hu (hbody q h1 h2 j).1
    · rw [slotAddr, slotAddr, haddr, (hkept q hu.1 hq).1.zone]
  · rcases hcases q with rfl | ⟨h1, h2⟩ | hq
    · exact (hzone j hu).2
    · exact absurd hu (hbody q h1 h2 j).1
    · obtain ⟨hdata, hprev⟩ := hkept q hu.1 hq
      by_cases htype : pool.type q = .page
      · rw [slotLen, slotLen, hdata.type, if_pos htype, if_pos htype]
        exact congrArg (4096 * ·) (hprev htype)
      · rw [slotLen, slotLen, hdata.type, if_neg htype, if_neg htype, hdata.zone]

theorem PagesKept.zone_pages {f n q zi : Nat} (h : PagesKept pool pool' f n)
    (hnum : pool'.pageNum = pool.pageNum) (hq : ¬ Held f n q) :
    q ∈ zonePages pool' zi ↔ q ∈ zonePages pool zi := by
  simp only [zonePages, Finset.mem_filter, Finset.mem_range, hnum]
  refine and_congr_right fun hlt => ?_
  obtain ⟨hdata, _⟩ := h q hlt hq
  simp only [MemPool.type, hdata.type, hdata.zone]

end

end FullhanRtos.Slab
