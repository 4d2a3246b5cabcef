import FullhanRtos.Lib.LinkedRing
import FullhanRtos.Slab.Heap

/-!
# The layout of a pool

`Wf pool runs ring f n` relates the metadata of a pool to the structures it stands for: the runs
of the free page list, and for each circular page list the pages on it. Every page outside
`[f, f + n)` is in a consistent role (`PageOk`); the pages of `[f, f + n)` are *held* by the
operation that is running, which has taken them out of one structure and not yet put them into
another. Between operations no page is held.

An operation opens the layout at the pages it works on (`Wf.hold`), takes steps that change only
held pages, list links and the free list (`Wf.frame` and its instances), and closes it again when
the held pages are in a consistent role (`Wf.close`).
-/

namespace FullhanRtos.Slab

open RunList LinkedRing Function MemPool

/-! ## Structures of the pool -/

/-- `page_next` of a page. -/
abbrev MemPool.next (pool : MemPool) (p : Nat) : Nat := (pool.pgmanArray p).pageNext

/-- `page_prev` of a page, which is the length of the block at its first page. -/
abbrev MemPool.prev (pool : MemPool) (p : Nat) : Nat := (pool.pgmanArray p).pagePrev

abbrev MemPool.type (pool : MemPool) (p : Nat) : PageType := (pool.pgmanArray p).pageType

def headField : List Nat → Int
  | [] => -1
  | p :: _ => p

structure RingOk (pool : MemPool) (list : PageList) (xs : List Nat) : Prop where
  nodup : xs.Nodup
  bound : ∀ p ∈ xs, p < pool.pageNum
  head : pool.listHead list = headField xs
  ring : IsRing pool.next pool.prev xs

/-- The page lies behind the first page of a multi-page block. -/
def InBlock (pool : MemPool) (p : Nat) : Prop :=
  ∃ h, h < p ∧ pool.type h = .page ∧ p < h + pool.prev h

/-- The first page of a multi-page block: the pages behind it are its own. -/
structure BlockOk (pool : MemPool) (runs : List (Nat × Nat)) (h : Nat) : Prop where
  pos : 0 < pool.prev h
  inside : h + pool.prev h ≤ pool.pageNum
  body : ∀ q, h < q → q < h + pool.prev h → pool.type q = .free ∧ ¬ Covers runs q

/-- A zone page: its bitmap marks the used trunks, at least one, and it is on the alloc list of
its zone unless it is full. -/
structure ZoneOk (pool : MemPool) (ring : PageList → List Nat) (p : Nat) : Prop where
  zone : (pool.pgmanArray p).zoneIndex < nzones
  bits : ∀ k, (pool.pgmanArray p).trunkBitmap.getLsbD k = true →
    k < trunksPerPage (pool.pgmanArray p).zoneIndex
  count : (pool.pgmanArray p).freeTrunks + Bits.popcount (pool.pgmanArray p).trunkBitmap =
    trunksPerPage (pool.pgmanArray p).zoneIndex
  used : 0 < Bits.popcount (pool.pgmanArray p).trunkBitmap
  linked : 0 < (pool.pgmanArray p).freeTrunks → p ∈ ring (.zone (pool.pgmanArray p).zoneIndex)
  full : (pool.pgmanArray p).freeTrunks = 0 → pool.prev p = p ∧ pool.next p = p

def OnList (pool : MemPool) (p : Nat) : PageList → Prop
  | .cache => pool.type p = .cache
  | .zone zi => pool.type p = .zone ∧ (pool.pgmanArray p).zoneIndex = zi ∧
      0 < (pool.pgmanArray p).freeTrunks

/-- The page is in a consistent role. -/
structure PageOk (pool : MemPool) (runs : List (Nat × Nat)) (ring : PageList → List Nat)
    (p : Nat) : Prop where
  free : pool.type p = .free → Covers runs p ∨ InBlock pool p
  covered : Covers runs p → pool.type p = .free
  cache : pool.type p = .cache → (pool.pgmanArray p).zoneIndex = 0 ∧ p ∈ ring .cache
  zone : pool.type p = .zone → ZoneOk pool ring p
  page : pool.type p = .page → BlockOk pool runs p
  member : ∀ list, p ∈ ring list → OnList pool p list

def Held (f n p : Nat) : Prop := f ≤ p ∧ p < f + n

structure Wf (pool : MemPool) (runs : List (Nat × Nat)) (ring : PageList → List Nat)
    (f n : Nat) : Prop where
  inited : pool.inited = true
  geometry : Geometry pool
  free : FreeListOk pool runs
  rings : ∀ list, RingOk pool list (ring list)
  disjoint : ∀ list list' p, p ∈ ring list → p ∈ ring list' → list = list'
  closed : ∀ h q, pool.type h = .page → h < q → q < h + pool.prev h → h < pool.pageNum →
    (Held f n q ↔ Held f n h)
  pages : ∀ p, p < pool.pageNum → ¬ Held f n p → PageOk pool runs ring p

/-- Two page entries that agree but for the links. -/
structure SameData (a b : PageMan) : Prop where
  type : a.pageType = b.pageType
  zone : a.zoneIndex = b.zoneIndex
  trunks : a.freeTrunks = b.freeTrunks
  bitmap : a.trunkBitmap = b.trunkBitmap

theorem SameData.refl (a : PageMan) : SameData a a := ⟨rfl, rfl, rfl, rfl⟩

theorem not_held_zero (f p : Nat) : ¬ Held f 0 p := by
  unfold Held
  omega

section

variable {pool pool' : MemPool} {runs : List (Nat × Nat)} {list : PageList} {xs : List Nat}

theorem Geometry.congr (h : Geometry pool) (hnum : pool'.pageNum = pool.pageNum)
    (hstart : pool'.heapStart = pool.heapStart) (hend : pool'.heapEnd = pool.heapEnd) :
    Geometry pool' := by
  obtain ⟨h1, h2, h3, h4, h5⟩ := h
  exact ⟨hnum ▸ h1, hstart ▸ h2, hstart ▸ h3, by rw [hend, hstart, hnum]; exact h4, hend ▸ h5⟩

theorem SameButFreeList.addr2pgidx (hsame : SameButFreeList pool pool') (hg : Geometry pool)
    {i : Nat} (hi : i < pool.pageNum) : addr2Pgidx pool' (pool.pageAddr i) = i := by
  obtain ⟨alloctor, first, rfl⟩ := hsame
  have hpool := addr2pgidx_eq hg (o := 0) hi (by omega)
  unfold addr2Pgidx at hpool ⊢
  exact hpool

theorem FreeListOk.congr (h : FreeListOk pool runs) (hnum : pool'.pageNum = pool.pageNum)
    (halloctor : pool'.pageAlloctor = pool.pageAlloctor)
    (hlist : pool'.alloctorList = pool.alloctorList) : FreeListOk pool' runs := by
  obtain ⟨h1, h2⟩ := h
  exact ⟨hnum ▸ h1, by rw [halloctor, hlist]; exact h2⟩

theorem RingOk.congr (h : RingOk pool list xs) (hnum : pool'.pageNum = pool.pageNum)
    (hhead : pool'.listHead list = pool.listHead list)
    (hlinks : ∀ q ∈ xs, pool'.next q = pool.next q ∧ pool'.prev q = pool.prev q) :
    RingOk pool' list xs := by
  refine ⟨h.nodup, fun p hp => hnum ▸ h.bound p hp, hhead.trans h.head, ?_⟩
  exact h.ring.congr (fun q hq => (hlinks q hq).1) (fun q hq => (hlinks q hq).2)

end

section

variable {pool pool' : MemPool} {runs runs' : List (Nat × Nat)}
  {ring ring' : PageList → List Nat} {f n : Nat}

theorem PageOk.not_on_list {p : Nat} (h : PageOk pool runs ring p)
    (htype : pool.type p = .page ∨ pool.type p = .free ∨ (pool.pgmanArray p).freeTrunks = 0 ∧
      pool.type p = .zone) (list : PageList) : p ∉ ring list := by
  intro hmem
  have hon := h.member list hmem
  cases list with
  | cache =>
    have hcache : pool.type p = .cache := hon
    simp [hcache] at htype
  | zone zi =>
    obtain ⟨hzone, -, hpos⟩ := hon
    rcases htype with htype | htype | htype
    · simp [hzone] at htype
    · simp [hzone] at htype
    · omega

theorem Wf.frame (h : Wf pool runs ring f n) (hinited : pool'.inited = pool.inited)
    (hnum : pool'.pageNum = pool.pageNum) (hstart : pool'.heapStart = pool.heapStart)
    (hend : pool'.heapEnd = pool.heapEnd) (hfree : FreeListOk pool' runs')
    (hrings : ∀ list, RingOk pool' list (ring' list))
    (hdisjoint : ∀ list list' p, p ∈ ring' list → p ∈ ring' list' → list = list')
    (hdata : ∀ q, ¬ Held f n q → SameData (pool'.pgmanArray q) (pool.pgmanArray q))
    (hlinks : ∀ q, ¬ Held f n q → (∀ list, q ∉ ring list) →
      pool'.next q = pool.next q ∧ pool'.prev q = pool.prev q)
    (hcovers : ∀ q, ¬ Held f n q → (Covers runs' q ↔ Covers runs q))
    (hmember : ∀ list q, ¬ Held f n q → (q ∈ ring' list ↔ q ∈ ring list))
    (hclosed : ∀ h q, h < pool.pageNum → Held f n h → pool'.type h = .page → h < q →
      q < h + pool'.prev h → Held f n q) :
    Wf pool' runs' ring' f n := by
  -- The head of a block that is not held keeps its length, as it is on no list.
  have hhead : ∀ h, h < pool.pageNum → ¬ Held f n h → pool.type h = .page →
      pool'.prev h = pool.prev h := by
    intro h' hlt hnot htype
    exact (hlinks h' hnot ((h.pages h' hlt hnot).not_on_list (.inl htype))).2
  refine ⟨hinited.trans h.inited, h.geometry.congr hnum hstart hend, hfree, hrings, hdisjoint,
    ?_, ?_⟩
  · intro h' q htype hlt hq hbound
    rw [hnum] at hbound
    by_cases hheld : Held f n h'
    · exact ⟨fun _ => hheld, fun _ => hclosed h' q hbound hheld htype hlt hq⟩
    · have htype' : pool.type h' = .page := (hdata h' hheld).type.symm.trans htype
      rw [hhead h' hbound hheld htype'] at hq
      exact h.closed h' q htype' hlt hq hbound
  · intro p hp hnot
    rw [hnum] at hp
    have hok := h.pages p hp hnot
    have hsame := hdata p hnot
    have htype : pool'.type p = pool.type p := hsame.type
    refine ⟨fun hf => ?_, fun hcov => ?_, fun hc => ?_, fun hz => ?_, fun hb => ?_,
      fun list hmem => ?_⟩
    · rcases hok.free (htype.symm.trans hf) with hcov | ⟨h', hlt, hpage, hq⟩
      · exact .inl ((hcovers p hnot).mpr hcov)
      · have hnot' : ¬ Held f n h' := fun hheld =>
          hnot ((h.closed h' p hpage hlt hq (hlt.trans hp)).mpr hheld)
        refine .inr ⟨h', hlt, (hdata h' hnot').type.trans hpage, ?_⟩
        rw [hhead h' (hlt.trans hp) hnot' hpage]
        exact hq
    · exact htype.trans (hok.covered ((hcovers p hnot).mp hcov))
    · obtain ⟨hzone, hmem⟩ := hok.cache (htype.symm.trans hc)
      exact ⟨hsame.zone.trans hzone, (hmember .cache p hnot).mpr hmem⟩
    · have hzone := hok.zone (htype.symm.trans hz)
      refine ⟨by rw [hsame.zone]; exact hzone.zone, ?_, ?_, ?_, ?_, ?_⟩
      · rw [hsame.bitmap, hsame.zone]
        exact hzone.bits
      · rw [hsame.bitmap, hsame.zone, hsame.trunks]
        exact hzone.count
      · rw [hsame.bitmap]
        exact hzone.used
      · rw [hsame.trunks, hsame.zone]
        exact fun hpos => (hmember _ p hnot).mpr (hzone.linked hpos)
      · rw [hsame.trunks]
        intro hfull
        obtain ⟨h1, h2⟩ := hlinks p hnot
          (hok.not_on_list (.inr (.inr ⟨hfull, htype.symm.trans hz⟩)))
        rw [h1, h2]
        exact hzone.full hfull
    · have htype' := htype.symm.trans hb
      obtain ⟨hpos, hinside, hbody⟩ := hok.page htype'
      have hlen := hhead p hp hnot htype'
      refine ⟨hlen ▸ hpos, by rw [hlen, hnum]; exact hinside, fun q hlt hq => ?_⟩
      rw [hlen] at hq
      have hnot' : ¬ Held f n q := fun hheld =>
        hnot ((h.closed p q htype' hlt hq hp).mp hheld)
      obtain ⟨hfreeq, hcovq⟩ := hbody q hlt hq
      exact ⟨(hdata q hnot').type.trans hfreeq, fun hcov => hcovq ((hcovers q hnot').mp hcov)⟩
    · have hon := hok.member list ((hmember list p hnot).mp hmem)
      cases list with
      | cache => exact htype.trans hon
      | zone zi => exact ⟨htype.trans hon.1, hsame.zone.trans hon.2.1, hsame.trunks ▸ hon.2.2⟩

theorem Wf.hold (h : Wf pool runs ring 0 0) (f n : Nat)
    (hclosed : ∀ h q, pool.type h = .page → h < q → q < h + pool.prev h → h < pool.pageNum →
      (Held f n q ↔ Held f n h)) : Wf pool runs ring f n :=
  ⟨h.inited, h.geometry, h.free, h.rings, h.disjoint, hclosed,
    fun p hp _ => h.pages p hp (not_held_zero 0 p)⟩

theorem Wf.close (h : Wf pool runs ring f n)
    (hheld : ∀ p, p < pool.pageNum → Held f n p → PageOk pool runs ring p) :
    Wf pool runs ring 0 0 := by
  refine ⟨h.inited, h.geometry, h.free, h.rings, h.disjoint, fun h' q _ _ _ _ => ?_,
    fun p hp _ => ?_⟩
  · simp [not_held_zero]
  · by_cases hp' : Held f n p
    · exact hheld p hp hp'
    · exact h.pages p hp hp'

/-- The metadata of the pages and lists is the same; the counters may differ. -/
def SameLayout (pool pool' : MemPool) : Prop :=
  pool'.inited = pool.inited ∧ pool'.pageNum = pool.pageNum ∧
    pool'.heapStart = pool.heapStart ∧ pool'.heapEnd = pool.heapEnd ∧
    pool'.pageAlloctor = pool.pageAlloctor ∧ pool'.alloctorList = pool.alloctorList ∧
    pool'.pgmanArray = pool.pgmanArray ∧ ∀ list, pool'.listHead list = pool.listHead list

theorem Wf.of_same_layout (h : Wf pool runs ring f n) (hsame : SameLayout pool pool') :
    Wf pool' runs ring f n := by
  obtain ⟨hinited, hnum, hstart, hend, halloctor, hlist, hpgman, hheads⟩ := hsame
  refine h.frame hinited hnum hstart hend (h.free.congr hnum halloctor hlist)
    (fun list => (h.rings list).congr hnum (hheads list) fun q _ => ?_) h.disjoint
    (fun q _ => ?_) (fun q _ _ => ?_) (fun q _ => Iff.rfl) (fun list q _ => Iff.rfl) ?_
  · simp [MemPool.next, MemPool.prev, hpgman]
  · rw [hpgman]
    exact SameData.refl _
  · simp [MemPool.next, MemPool.prev, hpgman]
  · simp only [type, MemPool.prev, hpgman]
    exact fun h' q hbound hheld htype hlt hq => (h.closed h' q htype hlt hq hbound).mpr hheld

theorem Wf.of_free_list (h : Wf pool runs ring f n) (hsame : SameButFreeList pool pool')
    (hfree : FreeListOk pool' runs')
    (hcovers : ∀ q, ¬ Held f n q → (Covers runs' q ↔ Covers runs q)) :
    Wf pool' runs' ring f n := by
  obtain ⟨alloctor, first, rfl⟩ := hsame
  refine h.frame rfl rfl rfl rfl hfree (fun list => (h.rings list).congr rfl ?_ ?_) h.disjoint
    (fun q _ => SameData.refl _) (fun q _ _ => ⟨rfl, rfl⟩) hcovers (fun list q _ => Iff.rfl)
    fun h' q hbound hheld htype hlt hq => (h.closed h' q htype hlt hq hbound).mpr hheld
  · cases list <;> rfl
  · exact fun q _ => ⟨rfl, rfl⟩

theorem Wf.take {i : Nat} (h : Wf pool runs ring 0 0) (hn : 0 < n)
    (hfit : firstFit n runs = some (i, runs')) (hsame : SameButFreeList pool pool')
    (hfree : FreeListOk pool' runs') :
    Wf pool' runs' ring i n ∧ i + n ≤ pool.pageNum ∧
      ∀ p, Held i n p → pool'.type p = .free ∧ ¬ Covers runs' p ∧ ∀ list, p ∉ ring list := by
  obtain ⟨-, hin, hcov⟩ := first_fit_covers h.free.separated hn hfit
  have hbound : ∀ p, Held i n p → p < pool.pageNum := fun p hp =>
    (h.free.separated.covers_bounds (hin p hp.1 hp.2)).2
  have hok : ∀ p, Held i n p → PageOk pool runs ring p := fun p hp =>
    h.pages p (hbound p hp) (not_held_zero 0 p)
  have htype : ∀ p, Held i n p → pool.type p = .free := fun p hp =>
    (hok p hp).covered (hin p hp.1 hp.2)
  -- A page of a free run is neither the head of a block nor behind one.
  have hclosed : ∀ h q, pool.type h = .page → h < q → q < h + pool.prev h → h < pool.pageNum →
      (Held i n q ↔ Held i n h) := by
    intro h' q hpage hlt hq hlt'
    constructor
    · intro hheld
      have hbody := ((h.pages h' hlt' (not_held_zero 0 h')).page hpage).body q hlt hq
      exact absurd (hin q hheld.1 hheld.2) hbody.2
    · intro hheld
      have := (htype h' hheld).symm.trans hpage
      simp at this
  refine ⟨(h.hold i n hclosed).of_free_list hsame hfree fun q hq => ?_, ?_, fun p hp => ?_⟩
  · rw [hcov]
    exact ⟨fun hc => hc.1, fun hc => ⟨hc, hq⟩⟩
  · have := hbound (i + n - 1) ⟨by omega, by omega⟩
    omega
  · refine ⟨?_, fun hc => ((hcov p).mp hc).2 hp, (hok p hp).not_on_list (.inr (.inl (htype p hp)))⟩
    obtain ⟨alloctor, first, rfl⟩ := hsame
    exact htype p hp

theorem Wf.set_page {p : Nat} (h : Wf pool runs ring f n) (hp : Held f n p) (m : PageMan)
    (hlinks : (∀ list, p ∉ ring list) ∨ m.pagePrev = pool.prev p ∧ m.pageNext = pool.next p)
    (hclosed : m.pageType = .page → ∀ q, p < q → q < p + m.pagePrev → Held f n q) :
    Wf { pool with pgmanArray := update pool.pgmanArray p m } runs ring f n := by
  have hother : ∀ q, q ≠ p → update pool.pgmanArray p m q = pool.pgmanArray q :=
    fun q hq => update_of_ne hq _ _
  have hne : ∀ q, ¬ Held f n q → q ≠ p := by
    intro q hq heq
    subst heq
    exact hq hp
  refine h.frame rfl rfl rfl rfl (h.free.congr rfl rfl rfl)
    (fun list => (h.rings list).congr rfl ?_ fun q hq => ?_) h.disjoint (fun q hq => ?_)
    (fun q hq _ => ?_) (fun q _ => Iff.rfl) (fun list q _ => Iff.rfl) ?_
  · cases list <;> rfl
  · by_cases hqp : q = p
    · subst hqp
      rcases hlinks with hlinks | hlinks
      · exact absurd hq (hlinks list)
      · simp [MemPool.next, MemPool.prev, hlinks]
    · simp [MemPool.next, MemPool.prev, hother q hqp]
  · simp only [hother q (hne q hq)]
    exact SameData.refl _
  · simp [MemPool.next, MemPool.prev, hother q (hne q hq)]
  · intro h' q hbound hheld htype hlt hq
    by_cases hhp : h' = p
    · subst hhp
      simp only [type, MemPool.prev, update_self] at htype hq
      exact hclosed htype q hlt hq
    · simp only [type, MemPool.prev, hother h' hhp] at htype hq
      exact (h.closed h' q htype hlt hq hbound).mpr hheld

end

end FullhanRtos.Slab
