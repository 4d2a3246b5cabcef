import FullhanRtos.Lib.RunList
import FullhanRtos.Slab.Pool

/-!
# The free page list

`rt_page_alloc_nolock` and `rt_page_free_nolock` walk a singly linked list of free runs whose
links are 16-bit page indices inside the `page_alloctor` array. `FreeChain` reads such a list as
the runs it stands for, and `FreeListOk` adds that these are separated and inside the pool.

The two results are `rt_page_alloc_nolock_run` and `rt_page_free_nolock_run`: on a well-formed
list no assertion of the walk fails, allocation is `RunList.firstFit` and freeing is
`RunList.insertRun`, and nothing outside the list's own fields changes.
-/

namespace FullhanRtos.Slab

open RunList Function Nat EStateM

/-! ## The code -/

/-- What the `prev` pointer of a walk points at: `alloctor_list` or the `next` of an entry. -/
inductive LinkRef where
  | list
  | entry (i : Nat)

/-- `*prev`. -/
def LinkRef.read (pool : MemPool) : LinkRef → Nat
  | .list => pool.alloctorList
  | .entry i => (pool.pageAlloctor i).next

def LinkRef.write (ref : LinkRef) (v : Nat) : M Unit :=
  modify fun pool =>
    match ref with
    | .list => { pool with alloctorList := u16 v }
    | .entry i =>
      { pool with
        pageAlloctor := update pool.pageAlloctor i
          { pool.pageAlloctor i with next := u16 v } }

def checkAllocNext (pool : MemPool) (index : Nat) (b : PageAllocator) : M Unit :=
  if b.next < pool.pageNum then bugIf (b.next ≤ index + b.page) 621
  else bugIf (b.next ≠ endFlag) 626

/-- The loop of `rt_page_alloc_nolock` from the link `prev` on; it returns the index of the run
found. Every round moves to a larger index, so `page_num + 1` rounds are enough. -/
def pageAllocWalk (npages : Nat) : Nat → LinkRef → Int → M (Option Nat)
  | 0, _, _ => throw ⟨0⟩
  | fuel + 1, prev, prevend => do
      let pool ← get
      let index := prev.read pool
      if index < pool.pageNum then
        let b := pool.pageAlloctor index
        bugIf ((index : Int) ≤ prevend ∨ b.page = 0) 602
        if b.page < npages then
          pageAllocWalk npages fuel (.entry index) (index + b.page)
        else
          bugIf (pool.pageNum - index < b.page) 613
          checkAllocNext pool index b
          if npages < b.page then
            -- split: the rest of the run stays in the list
            setAlloctor (index + npages) ⟨u16 (b.page - npages), b.next⟩
            prev.write (index + npages)
            pure (some index)
          else
            prev.write b.next
            pure (some index)
      else
        bugIf (index ≠ endFlag) 645
        pure none

def rtPageAllocNolock (npages : Nat) : M Nat := do
  if npages = 0 then pure rtNull
  else
    let pool ← get
    match ← pageAllocWalk npages (pool.pageNum + 1) .list (-1) with
    | none => pure rtNull
    | some index => pure (pgidx2Addr pool index)

def checkFreeNext (pool : MemPool) (freend : Nat) (b : PageAllocator) : M Unit :=
  let next := pool.pageAlloctor b.next
  if b.next < pool.pageNum then
    bugIf (next.page = 0 ∨ pool.pageNum - b.next < next.page ∨ b.next < freend) 709
  else bugIf (b.next ≠ endFlag) 714

/-- Put the freed pages into the list as a run of their own. -/
def linkFreeRun (freindex npages index : Nat) (prev : LinkRef) : M Unit := do
  setAlloctor freindex ⟨u16 npages, u16 index⟩
  prev.write freindex

/-- The loop of `rt_page_free_nolock` from the link `prev` on. -/
def pageFreeWalk (freindex npages : Nat) : Nat → LinkRef → Int → M Unit
  | 0, _, _ => throw ⟨0⟩
  | fuel + 1, prev, bend => do
      let pool ← get
      let freend := freindex + npages
      let index := prev.read pool
      if index < pool.pageNum then
        let b := pool.pageAlloctor index
        bugIf ((index : Int) ≤ bend ∨ b.page = 0) 685
        if index + b.page < freindex then
          pageFreeWalk freindex npages fuel (.entry index) (index + b.page)
        else
          bugIf (pool.pageNum < index + b.page) 696
          if freindex = index + b.page then
            checkFreeNext pool freend b
            let next := pool.pageAlloctor b.next
            if freend = b.next then
              setAlloctor index ⟨u16 (u16 (b.page + npages) + next.page), next.next⟩
            else
              setAlloctor index ⟨u16 (b.page + npages), b.next⟩
          else if freend < index then
            linkFreeRun freindex npages index prev
          else if freend = index then
            setAlloctor freindex ⟨u16 (b.page + npages), b.next⟩
            prev.write freindex
          else throw ⟨737⟩
      else
        bugIf (index ≠ endFlag) 742
        linkFreeRun freindex npages index prev

def rtPageFreeNolock (addr npages : Nat) : M Unit := do
  let pool ← get
  let freindex := addr2Pgidx pool addr
  bugIf (addr &&& mmPageMask ≠ 0 ∨ addr < pool.heapStart ∨ pool.heapEnd ≤ addr ∨
    sub32 pool.pageNum freindex < npages) 675
  pageFreeWalk freindex npages (pool.pageNum + 1) .list (-1)

/-! ## What the list stands for -/

/-- The entries linked from `index` on are the runs `rs`, and the last link is `END_FLAG`. -/
def FreeChain (alloctor : Nat → PageAllocator) : Nat → List (Nat × Nat) → Prop
  | index, [] => index = endFlag
  | index, (i, k) :: rs =>
    index = i ∧ (alloctor i).page = k ∧ FreeChain alloctor (alloctor i).next rs

/-- The free page list of the pool is well formed and holds the runs `rs`. -/
structure FreeListOk (pool : MemPool) (rs : List (Nat × Nat)) : Prop where
  separated : Separated 0 pool.pageNum rs
  chain : FreeChain pool.pageAlloctor pool.alloctorList rs

/-- The runs met along the links from `index` on, in at most `fuel` steps. -/
def freeRunsFrom (alloctor : Nat → PageAllocator) (pageNum : Nat) :
    Nat → Nat → List (Nat × Nat)
  | 0, _ => []
  | fuel + 1, index =>
    if index < pageNum then
      (index, (alloctor index).page) ::
        freeRunsFrom alloctor pageNum fuel (alloctor index).next
    else []

/-- The runs of the free page list as the walks of the code meet them. -/
def MemPool.freeRuns (pool : MemPool) : List (Nat × Nat) :=
  freeRunsFrom pool.pageAlloctor pool.pageNum (pool.pageNum + 1) pool.alloctorList

def SameButFreeList (pool pool' : MemPool) : Prop :=
  ∃ alloctor list, pool' = { pool with pageAlloctor := alloctor, alloctorList := list }

/-- What a walk from `ref` may change: fields of the list only, no entry below `lo`, but the link
it started from. -/
structure WalkUpdate (ref : LinkRef) (lo : Nat) (pool pool' : MemPool) : Prop where
  same : SameButFreeList pool pool'
  list : ∀ i, ref = .entry i → pool'.alloctorList = pool.alloctorList
  page : ∀ j, j < lo → (pool'.pageAlloctor j).page = (pool.pageAlloctor j).page
  next : ∀ j, j < lo → (∀ i, ref = .entry i → j ≠ i) →
    (pool'.pageAlloctor j).next = (pool.pageAlloctor j).next

/-- The heap range of an initialised pool: whole pages, none of them with index `END_FLAG`. -/
structure Geometry (pool : MemPool) : Prop where
  pages : pool.pageNum ≤ 65535
  start_pos : 0 < pool.heapStart
  aligned : pool.heapStart % 4096 = 0
  heap_end : pool.heapEnd = pool.heapStart + 4096 * pool.pageNum
  top : pool.heapEnd < 4294967296

def MemPool.pageAddr (pool : MemPool) (i : Nat) : Nat := pool.heapStart + 4096 * i

section

theorem u16_of_lt {n : Nat} (h : n < 65536) : u16 n = n := mod_eq_of_lt h

theorem u32_of_lt {n : Nat} (h : n < 4294967296) : u32 n = n := by
  unfold u32
  exact mod_eq_of_lt h

theorem sub32_of_le {a b : Nat} (hle : b ≤ a) (ha : a < 4294967296) : sub32 a b = a - b := by
  unfold sub32 u32
  omega

theorem and_mask_eq_mod (n : Nat) : n &&& 4095 = n % 4096 :=
  and_two_pow_sub_one_eq_mod n 12

theorem pgidx2addr_eq {pool : MemPool} (hg : Geometry pool) {i : Nat} (hi : i < pool.pageNum) :
    pgidx2Addr pool i = pool.pageAddr i := by
  have h1 := hg.heap_end
  have h2 := hg.top
  rw [pgidx2Addr, mm_page_bits_eq, shiftLeft_eq, MemPool.pageAddr, u32_of_lt (by omega)]
  omega

theorem addr2pgidx_eq {pool : MemPool} (hg : Geometry pool) {i o : Nat} (hi : i < pool.pageNum)
    (ho : o < 4096) : addr2Pgidx pool (pool.pageAddr i + o) = i := by
  have h1 := hg.heap_end
  have h2 := hg.top
  unfold addr2Pgidx MemPool.pageAddr
  rw [sub32_of_le (by omega) (by omega), mm_page_bits_eq, shiftRight_eq_div_pow]
  omega

end

section

variable {alloctor alloctor' : Nat → PageAllocator} {rs : List (Nat × Nat)}

/-- A chain survives writes to entries that are not its own. -/
theorem FreeChain.congr {index : Nat} (h : FreeChain alloctor index rs)
    (heq : ∀ r ∈ rs, alloctor' r.1 = alloctor r.1) : FreeChain alloctor' index rs := by
  induction rs generalizing index with
  | nil => exact h
  | cons r rs ih =>
    obtain ⟨i, k⟩ := r
    obtain ⟨hindex, hpage, hrest⟩ := h
    have hi : alloctor' i = alloctor i := heq (i, k) (by simp)
    refine ⟨hindex, by rw [hi]; exact hpage, ?_⟩
    rw [hi]
    exact ih hrest fun s hs => heq s (by simp [hs])

theorem separated_start {lo hi : Nat} (h : Separated lo hi rs) {r : Nat × Nat} (hr : r ∈ rs) :
    lo ≤ r.1 := by
  induction rs generalizing lo with
  | nil => simp at hr
  | cons s rs ih =>
    obtain ⟨i, k⟩ := s
    rcases List.mem_cons.mp hr with rfl | hr
    · exact h.1
    · have := ih h.2.2.2 hr
      have := h.1
      omega

/-- The link to the runs `rs` of a pool is a page index or `END_FLAG`. -/
theorem FreeChain.index_cases {lo hi index : Nat} (h : FreeChain alloctor index rs)
    (hsep : Separated lo hi rs) :
    (lo ≤ index ∧ index < hi ∧ rs ≠ []) ∨ (index = 65535 ∧ rs = []) := by
  cases rs with
  | nil => exact .inr ⟨h, rfl⟩
  | cons r rs =>
    obtain ⟨i, k⟩ := r
    obtain ⟨rfl, _, _⟩ := h
    obtain ⟨hlo, hk, hi', _⟩ := hsep
    exact .inl ⟨hlo, by omega, by simp⟩

end

section

variable {pool : MemPool} {ref : LinkRef} {lo n : Nat} {rs : List (Nat × Nat)} {fuel i k : Nat}
  {pool' : MemPool} {prevend : Int}

theorem LinkRef.read_of_entries {alloctor : Nat → PageAllocator}
    (href : ∀ i, ref = .entry i → i < lo)
    (hlow : ∀ j, j < lo → alloctor j = pool.pageAlloctor j) :
    ref.read { pool with pageAlloctor := alloctor } = ref.read pool := by
  cases ref with
  | list => rfl
  | entry i => simp only [LinkRef.read, hlow i (href i rfl)]

theorem LinkRef.write_run (pool : MemPool) (alloctor : Nat → PageAllocator) {v : Nat}
    (hv : v < 65536) (href : ∀ i, ref = .entry i → i < lo)
    (hlow : ∀ j, j < lo → alloctor j = pool.pageAlloctor j) :
    ∃ pool', (ref.write v).run { pool with pageAlloctor := alloctor } = .ok () pool' ∧
      WalkUpdate ref lo pool pool' ∧ ref.read pool' = v ∧
      ∀ j, lo ≤ j → pool'.pageAlloctor j = alloctor j := by
  cases ref with
  | list =>
    refine ⟨{ pool with pageAlloctor := alloctor, alloctorList := u16 v }, rfl,
      ⟨⟨_, _, rfl⟩, by simp, fun j hj => ?_, fun j hj _ => ?_⟩, u16_of_lt hv, fun j _ => rfl⟩
    · simp only [hlow j hj]
    · simp only [hlow j hj]
  | entry i =>
    have hi := href i rfl
    refine ⟨{ pool with
        pageAlloctor := update alloctor i { alloctor i with next := u16 v } }, rfl,
      ⟨⟨_, _, rfl⟩, fun _ _ => rfl, fun j hj => ?_, fun j hj hne => ?_⟩, ?_, fun j hj => ?_⟩
    · by_cases hji : j = i
      · subst hji
        simp [hlow j hj]
      · simp [update_of_ne hji, hlow j hj]
    · simp [update_of_ne (hne i rfl), hlow j hj]
    · simp [LinkRef.read, u16_of_lt hv]
    · exact update_of_ne (by omega) _ _

theorem WalkUpdate.of_entry {i k : Nat} (h : WalkUpdate (.entry i) (i + k + 1) pool pool')
    (hi : lo ≤ i) (href : ∀ j, ref = .entry j → j < lo) :
    WalkUpdate ref lo pool pool' ∧ ref.read pool' = ref.read pool := by
  have hnext : ∀ j, j < lo → (pool'.pageAlloctor j).next = (pool.pageAlloctor j).next := by
    intro j hj
    refine h.next j (by omega) ?_
    rintro i' heq rfl
    cases heq
    omega
  refine ⟨⟨h.same, fun _ _ => h.list i rfl, fun j hj => h.page j (by omega),
    fun j hj _ => hnext j hj⟩, ?_⟩
  cases ref with
  | list => exact h.list i rfl
  | entry j => exact hnext j (href j rfl)

/-- Extending a chain by the run in front of it, whose entry a walk has kept. -/
theorem chain_cons_of_walk {i k : Nat} {rest : List (Nat × Nat)}
    (h : WalkUpdate (.entry i) (i + k + 1) pool pool') (hread : ref.read pool' = i)
    (hpage : (pool.pageAlloctor i).page = k)
    (hchain : FreeChain pool'.pageAlloctor ((LinkRef.entry i).read pool') rest) :
    FreeChain pool'.pageAlloctor (ref.read pool') ((i, k) :: rest) :=
  ⟨hread, by rw [h.page i (by omega), hpage], hchain⟩

theorem page_alloc_walk_skip (hread : ref.read pool = i) (hlt : i < pool.pageNum)
    (horder : prevend < i) (hk : 0 < k) (hpage : (pool.pageAlloctor i).page = k) (hshort : k < n) :
    (pageAllocWalk n (fuel + 1) ref prevend).run pool =
      (pageAllocWalk n fuel (.entry i) (i + k)).run pool := by
  have hcheck : ¬ ((i : Int) ≤ prevend ∨ k = 0) := by
    omega
  simp only [pageAllocWalk, run_bind, run_get, hread, if_pos hlt, hpage,
    ↓bug_if_def, if_neg hcheck, run_pure, if_pos hshort]

theorem page_alloc_walk_found (hpages : pool.pageNum ≤ 65535) (hread : ref.read pool = i)
    (horder : prevend < i) (hpage : (pool.pageAlloctor i).page = k) (hk : 0 < k)
    (hhi : i + k ≤ pool.pageNum) (hrest : FreeChain pool.pageAlloctor (pool.pageAlloctor i).next rs)
    (hsep : Separated (i + k + 1) pool.pageNum rs) (hfits : ¬ k < n) :
    (pageAllocWalk n (fuel + 1) ref prevend).run pool =
      (if n < k then do
        setAlloctor (i + n) ⟨u16 (k - n), (pool.pageAlloctor i).next⟩
        ref.write (i + n)
        pure (some i)
      else do
        ref.write (pool.pageAlloctor i).next
        pure (some i) : M (Option Nat)).run pool := by
  have hlt : i < pool.pageNum := by omega
  have horder' : ¬ ((i : Int) ≤ prevend ∨ k = 0) := by
    omega
  have hinside : ¬ (pool.pageNum - i < k) := by
    omega
  have hcheck : (checkAllocNext pool i (pool.pageAlloctor i)).run pool = .ok () pool := by
    unfold checkAllocNext
    rcases hrest.index_cases hsep with ⟨h1, h2, -⟩ | ⟨h1, -⟩
    · have hbehind : ¬ (pool.pageAlloctor i).next ≤ i + (pool.pageAlloctor i).page := by omega
      simp [↓bug_if_def, h2, hbehind]
    · have hend : ¬ 65535 < pool.pageNum := by omega
      simp [↓bug_if_def, hend, h1]
  simp only [pageAllocWalk, run_bind, run_get, hread, if_pos hlt, hpage,
    ↓bug_if_def, if_neg horder', run_pure, if_neg hfits, if_neg hinside, hcheck]

/-- The allocation walk on a well-formed rest of the list is first fit. -/
theorem page_alloc_walk_run (ref : LinkRef) (lo fuel : Nat) (prevend : Int)
    (hpages : pool.pageNum ≤ 65535) (hn : 0 < n) (hsep : Separated lo pool.pageNum rs)
    (hchain : FreeChain pool.pageAlloctor (ref.read pool) rs)
    (href : ∀ i, ref = .entry i → i < lo) (hprev : prevend < lo) (hfuel : rs.length < fuel) :
    match firstFit n rs with
    | none => (pageAllocWalk n fuel ref prevend).run pool = .ok none pool
    | some (i, rs') => ∃ pool', (pageAllocWalk n fuel ref prevend).run pool = .ok (some i) pool' ∧
        WalkUpdate ref lo pool pool' ∧ FreeChain pool'.pageAlloctor (ref.read pool') rs' := by
  induction rs generalizing ref lo fuel prevend with
  | nil =>
    obtain ⟨fuel, rfl⟩ : ∃ f, fuel = f + 1 := ⟨fuel - 1, by simp at hfuel; omega⟩
    have hread : ref.read pool = 65535 := hchain
    have hend : ¬ 65535 < pool.pageNum := by omega
    simp only [firstFit, pageAllocWalk, run_bind, run_get, hread, if_neg hend,
      ↓bug_if_def, end_flag_eq, ne_eq, not_true_eq_false, if_false, run_pure]
  | cons r rs ih =>
    obtain ⟨i, k⟩ := r
    obtain ⟨fuel, rfl⟩ : ∃ f, fuel = f + 1 := ⟨fuel - 1, by simp at hfuel; omega⟩
    obtain ⟨hread, hpage, hrest⟩ := hchain
    obtain ⟨hlo, hk, hhi, hseprest⟩ := hsep
    by_cases hshort : k < n
    · -- The walk goes on behind this run.
      have := ih (.entry i) (i + k + 1) fuel (i + k) hseprest hrest
        (by rintro j ⟨⟩; omega) (by push_cast; omega) (by simpa using hfuel)
      rw [page_alloc_walk_skip hread (by omega) (by omega) hk hpage hshort]
      simp only [firstFit, if_pos hshort]
      cases hfit : firstFit n rs with
      | none =>
        rw [hfit] at this
        exact this
      | some found =>
        obtain ⟨i', rs'⟩ := found
        rw [hfit] at this
        obtain ⟨pool', hrun, hupd, hchain'⟩ := this
        obtain ⟨hupd', hread'⟩ := hupd.of_entry hlo href
        exact ⟨pool', hrun, hupd', chain_cons_of_walk hupd (hread'.trans hread) hpage hchain'⟩
    · rw [page_alloc_walk_found hpages hread (by omega) hpage hk hhi hrest hseprest hshort]
      have hstarts : ∀ s ∈ rs, i + k + 1 ≤ s.1 := fun s hs => separated_start hseprest hs
      simp only [firstFit, if_neg hshort]
      by_cases hsplit : n < k
      · -- Split: the entry `i + n` takes the rest of the run.
        obtain ⟨pool', hwrite, hupd, hread', hhigh⟩ := LinkRef.write_run pool
          (update pool.pageAlloctor (i + n)
            ⟨u16 (k - n), (pool.pageAlloctor i).next⟩) (v := i + n) (by omega) href
          (fun j hj => update_of_ne (by omega) _ _)
        simp only [if_pos hsplit]
        refine ⟨pool', ?_, hupd, ?_⟩
        · simp only [run_bind, set_alloctor_run, hwrite, run_pure]
        · have hentry := hhigh (i + n) (by omega)
          rw [update_self] at hentry
          refine ⟨hread', by rw [hentry, u16_of_lt (by omega)], ?_⟩
          rw [hentry]
          refine hrest.congr fun s hs => ?_
          have := hstarts s hs
          rw [hhigh s.1 (by omega), update_of_ne (by omega)]
      · have hnext : (pool.pageAlloctor i).next < 65536 := by
          rcases hrest.index_cases hseprest with ⟨_, h2, _⟩ | ⟨h1, _⟩ <;> omega
        obtain ⟨pool', hwrite, hupd, hread', hhigh⟩ := LinkRef.write_run pool
          pool.pageAlloctor (v := (pool.pageAlloctor i).next) hnext href (fun _ _ => rfl)
        simp only [if_neg hsplit]
        refine ⟨pool', ?_, hupd, ?_⟩
        · simp only [run_bind, hwrite, run_pure]
        · rw [hread']
          refine hrest.congr fun s hs => hhigh s.1 ?_
          have := hstarts s hs
          omega

variable {f : Nat}

theorem page_free_walk_at {bend : Int} (hread : ref.read pool = i) (hlt : i < pool.pageNum)
    (horder : bend < i) (hk : 0 < k) (hpage : (pool.pageAlloctor i).page = k)
    (hhi : i + k ≤ pool.pageNum) :
    (pageFreeWalk f n (fuel + 1) ref bend).run pool =
      (if i + k < f then pageFreeWalk f n fuel (.entry i) (i + k)
      else if f = i + k then do
        checkFreeNext pool (f + n) (pool.pageAlloctor i)
        if f + n = (pool.pageAlloctor i).next then
          setAlloctor i ⟨u16 (u16 (k + n) + (pool.pageAlloctor (pool.pageAlloctor i).next).page),
            (pool.pageAlloctor (pool.pageAlloctor i).next).next⟩
        else setAlloctor i ⟨u16 (k + n), (pool.pageAlloctor i).next⟩
      else if f + n < i then linkFreeRun f n i ref
      else if f + n = i then do
        setAlloctor f ⟨u16 (k + n), (pool.pageAlloctor i).next⟩
        ref.write f
      else throw ⟨737⟩ : M Unit).run pool := by
  have hcheck : ¬ ((i : Int) ≤ bend ∨ k = 0) := by
    omega
  have hinside : ¬ (pool.pageNum < i + k) := by
    omega
  simp only [pageFreeWalk, run_bind, run_get, hread, if_pos hlt, hpage,
    ↓bug_if_def, if_neg hcheck, run_pure]
  by_cases hskip : i + k < f
  · simp only [if_pos hskip]
  · simp only [if_neg hskip, run_bind, if_neg hinside, run_pure]

theorem link_free_run_run (rs : List (Nat × Nat)) (index : Nat) (hpages : pool.pageNum ≤ 65535)
    (hlo : lo ≤ f) (hhi : f + n ≤ pool.pageNum)
    (href : ∀ i, ref = .entry i → i < lo) (hsep : Separated (f + n + 1) pool.pageNum rs)
    (hchain : FreeChain pool.pageAlloctor index rs) :
    ∃ pool', (linkFreeRun f n index ref).run pool = .ok () pool' ∧
      WalkUpdate ref lo pool pool' ∧
      FreeChain pool'.pageAlloctor (ref.read pool') ((f, n) :: rs) := by
  have hindex : index < 65536 := by
    rcases hchain.index_cases hsep with ⟨_, h2, _⟩ | ⟨h1, _⟩ <;> omega
  obtain ⟨pool', hwrite, hupd, hread', hhigh⟩ := LinkRef.write_run pool
    (update pool.pageAlloctor f ⟨u16 n, u16 index⟩) (v := f) (by omega) href
    (fun j hj => update_of_ne (by omega) _ _)
  refine ⟨pool', ?_, hupd, hread', ?_, ?_⟩
  · simp only [linkFreeRun, run_bind, set_alloctor_run, hwrite]
  · rw [hhigh f hlo, update_self, u16_of_lt (by omega)]
  · rw [hhigh f hlo, update_self, u16_of_lt hindex]
    refine hchain.congr fun s hs => ?_
    have := separated_start hsep hs
    rw [hhigh s.1 (by omega), update_of_ne (by omega)]

/-- Freed pages that follow the run `(i, k)` are joined to it, and to the next run if they
reach it. Pages that end at index `END_FLAG` are also taken to reach a next run. -/
theorem page_free_walk_join {i k : Nat} (hpages : pool.pageNum ≤ 65535) (hlo : lo ≤ i)
    (hread : ref.read pool = i) (href : ∀ j, ref = .entry j → j < lo)
    (hhi : f + n ≤ pool.pageNum) (hf : f = i + k)
    (hrest : FreeChain pool.pageAlloctor (pool.pageAlloctor i).next rs)
    (hsep : Separated (i + k + 1) pool.pageNum rs)
    (hfree : ∀ p, f ≤ p → p < f + n → ¬ Covers rs p) :
    ∃ pool', (do
        checkFreeNext pool (f + n) (pool.pageAlloctor i)
        if f + n = (pool.pageAlloctor i).next then
          setAlloctor i ⟨u16 (u16 (k + n) + (pool.pageAlloctor (pool.pageAlloctor i).next).page),
            (pool.pageAlloctor (pool.pageAlloctor i).next).next⟩
        else setAlloctor i ⟨u16 (k + n), (pool.pageAlloctor i).next⟩ : M Unit).run pool =
        .ok () pool' ∧ WalkUpdate ref lo pool pool' ∧
      (f + n ≠ endFlag →
        FreeChain pool'.pageAlloctor (ref.read pool') (insertRun f n ((i, k) :: rs))) := by
  -- Only entry `i` is written, so the link to it and the entries behind it are read back.
  have hupdate : ∀ entry, WalkUpdate ref lo pool
      { pool with pageAlloctor := update pool.pageAlloctor i entry } := by
    intro entry
    have hne : ∀ j, j < lo → update pool.pageAlloctor i entry j = pool.pageAlloctor j :=
      fun j hj => update_of_ne (by omega) _ _
    exact ⟨⟨_, _, rfl⟩, fun _ _ => rfl, fun j hj => by simp only [hne j hj],
      fun j hj _ => by simp only [hne j hj]⟩
  have hback : ∀ entry, ref.read
      { pool with pageAlloctor := update pool.pageAlloctor i entry } = i := fun entry =>
    (LinkRef.read_of_entries href fun j hj => update_of_ne (by omega) _ _).trans hread
  have hkeep : ∀ entry, ∀ rest : List (Nat × Nat), (∀ s ∈ rest, i < s.1) → ∀ s ∈ rest,
      update pool.pageAlloctor i entry s.1 = pool.pageAlloctor s.1 :=
    fun entry rest hrest s hs => update_of_ne (Nat.ne_of_gt (hrest s hs)) _ _
  simp only [insertRun, if_neg (show ¬ i + k < f by omega), if_pos hf.symm]
  cases rs with
  | nil =>
    have hnext : (pool.pageAlloctor i).next = 65535 := hrest
    have hcheck : (checkFreeNext pool (f + n) (pool.pageAlloctor i)).run pool = .ok () pool := by
      simp [checkFreeNext, ↓bug_if_def, hnext, show ¬ 65535 < pool.pageNum by omega]
    by_cases hlast : f + n = 65535
    · refine ⟨_, ?_, hupdate ⟨u16 (u16 (k + n) + (pool.pageAlloctor 65535).page),
        (pool.pageAlloctor 65535).next⟩, fun hne => absurd hlast hne⟩
      simp only [run_bind, hcheck, hnext, if_pos hlast, set_alloctor_run]
    · refine ⟨_, ?_, hupdate ⟨u16 (k + n), 65535⟩, fun _ => ⟨hback _, ?_, ?_⟩⟩
      · simp only [run_bind, hcheck, hnext, if_neg hlast, set_alloctor_run]
      · simp only [update_self]
        exact u16_of_lt (by omega)
      · simp [FreeChain]
  | cons s rest =>
    obtain ⟨j, l⟩ := s
    obtain ⟨hnext, hpage', hrest'⟩ := hrest
    obtain ⟨hj1, hl, hj2, hsep'⟩ := hsep
    have hafter : f + n ≤ j := by
      by_contra hcon
      have := hfree (max f j) (by omega) (by omega)
      exact this ((covers_cons _ _ _).mpr (.inl (by simp only; omega)))
    have hcheck : (checkFreeNext pool (f + n) (pool.pageAlloctor i)).run pool = .ok () pool := by
      have h1 : j < pool.pageNum := by omega
      have h2 : ¬ pool.pageNum - j < l := by omega
      have h3 : ¬ j < f + n := by omega
      simp [checkFreeNext, ↓bug_if_def, hnext, h1, hpage', h2, h3, Nat.ne_of_gt hl]
    have hstarts : ∀ s ∈ rest, i < s.1 := fun s hs => by
      have := separated_start hsep' hs
      omega
    by_cases hjoin : f + n = j
    · simp only [if_pos hjoin]
      refine ⟨_, ?_, hupdate ⟨u16 (u16 (k + n) + l), (pool.pageAlloctor j).next⟩,
        fun _ => ⟨hback _, ?_, ?_⟩⟩
      · simp only [run_bind, hcheck, hnext, if_pos hjoin, set_alloctor_run, hpage']
      · simp only [update_self]
        rw [u16_of_lt (n := k + n) (by omega), u16_of_lt (by omega)]
      · simp only [update_self]
        exact hrest'.congr (hkeep _ _ hstarts)
    · simp only [if_neg hjoin]
      refine ⟨_, ?_, hupdate ⟨u16 (k + n), (pool.pageAlloctor i).next⟩,
        fun _ => ⟨hback _, ?_, ?_⟩⟩
      · simp only [run_bind, hcheck, hnext, if_neg hjoin, set_alloctor_run]
      · simp only [update_self]
        exact u16_of_lt (by omega)
      · have hchain : FreeChain pool.pageAlloctor (pool.pageAlloctor i).next ((j, l) :: rest) :=
          ⟨hnext, hpage', hrest'⟩
        simp only [update_self]
        refine hchain.congr (hkeep _ _ fun s hs => ?_)
        rcases List.mem_cons.mp hs with rfl | hs
        · simp only
          omega
        · exact hstarts s hs

/-- The freed pages end at the index that also stands for the end of the list, right behind a
free run. -/
def TailMerge (f n : Nat) (rs : List (Nat × Nat)) : Prop :=
  f + n = endFlag ∧ ∃ r ∈ rs, r.1 + r.2 = f

instance (f n : Nat) (rs : List (Nat × Nat)) : Decidable (TailMerge f n rs) :=
  inferInstanceAs (Decidable (_ ∧ _))

/-- The freeing walk on a well-formed rest of the list meets no assertion, and it is the
insertion of a run unless it takes `END_FLAG` for the next run. -/
theorem page_free_walk_run (ref : LinkRef) (lo fuel : Nat) (bend : Int)
    (hpages : pool.pageNum ≤ 65535) (hn : 0 < n) (hsep : Separated lo pool.pageNum rs)
    (hchain : FreeChain pool.pageAlloctor (ref.read pool) rs)
    (href : ∀ i, ref = .entry i → i < lo) (hbend : bend < lo) (hfuel : rs.length < fuel)
    (hlo : lo ≤ f) (hhi : f + n ≤ pool.pageNum)
    (hfree : ∀ p, f ≤ p → p < f + n → ¬ Covers rs p) :
    ∃ pool', (pageFreeWalk f n fuel ref bend).run pool = .ok () pool' ∧
      WalkUpdate ref lo pool pool' ∧
      (¬ TailMerge f n rs → FreeChain pool'.pageAlloctor (ref.read pool') (insertRun f n rs)) := by
  induction rs generalizing ref lo fuel bend with
  | nil =>
    obtain ⟨fuel, rfl⟩ : ∃ g, fuel = g + 1 := ⟨fuel - 1, by simp at hfuel; omega⟩
    have hread : ref.read pool = 65535 := hchain
    obtain ⟨pool', hrun, hupd, hchain'⟩ := link_free_run_run [] 65535 hpages
      hlo hhi href trivial rfl
    refine ⟨pool', ?_, hupd, fun _ => hchain'⟩
    simp only [pageFreeWalk, run_bind, run_get, hread,
      if_neg (show ¬ 65535 < pool.pageNum by omega),
      ↓bug_if_def, end_flag_eq, ne_eq, not_true_eq_false, if_false, run_pure, hrun]
  | cons r rs ih =>
    obtain ⟨i, k⟩ := r
    obtain ⟨fuel, rfl⟩ : ∃ g, fuel = g + 1 := ⟨fuel - 1, by simp at hfuel; omega⟩
    have hchainAll := hchain
    obtain ⟨hread, hpage, hrest⟩ := hchain
    have hsepAll := hsep
    obtain ⟨hlo', hk, hhi', hseprest⟩ := hsep
    have hfree' : ∀ p, f ≤ p → p < f + n → ¬ Covers rs p := fun p h1 h2 hp =>
      hfree p h1 h2 ((covers_cons _ _ _).mpr (.inr hp))
    have hout : f + n ≤ i ∨ i + k ≤ f := by
      by_contra hcon
      have := hfree (max f i) (by omega) (by omega)
      exact this ((covers_cons _ _ _).mpr (.inl (by simp only; omega)))
    rw [page_free_walk_at hread (by omega) (by omega) hk hpage hhi']
    by_cases hskip : i + k < f
    · -- The walk goes on behind this run.
      obtain ⟨pool', hrun, hupd, hchain'⟩ := ih (.entry i) (i + k + 1) fuel
        (i + k) hseprest hrest (by rintro j ⟨⟩; omega)
        (by push_cast; omega) (by simpa using hfuel) (by omega) hfree'
      obtain ⟨hupd', hread'⟩ := hupd.of_entry hlo' href
      refine ⟨pool', by rw [if_pos hskip]; exact hrun, hupd', fun hmerge => ?_⟩
      simp only [insertRun, if_pos hskip]
      refine chain_cons_of_walk hupd (hread'.trans hread) hpage (hchain' fun htail => hmerge ?_)
      exact ⟨htail.1, htail.2.imp fun r hr => ⟨List.mem_cons_of_mem _ hr.1, hr.2⟩⟩
    · rw [if_neg hskip]
      by_cases htouch : f = i + k
      · obtain ⟨pool', hrun, hupd, hchain'⟩ := page_free_walk_join hpages hlo' hread href hhi
          htouch hrest hseprest hfree'
        refine ⟨pool', by rw [if_pos htouch]; exact hrun, hupd, fun hmerge => hchain' ?_⟩
        exact fun hend => hmerge ⟨hend, (i, k), by simp, htouch.symm⟩
      · rw [if_neg htouch]
        simp only [insertRun, if_neg hskip, if_neg (Ne.symm htouch)]
        by_cases hbefore : f + n < i
        · obtain ⟨pool', hrun, hupd, hchain'⟩ := link_free_run_run ((i, k) :: rs) i hpages
            hlo hhi href ⟨by omega, hsepAll.2⟩ (hread ▸ hchainAll)
          refine ⟨pool', by rw [if_pos hbefore]; exact hrun, hupd, fun _ => ?_⟩
          rw [if_pos hbefore]
          exact hchain'
        · -- The freed pages end where the run starts: entry `f` takes the run over.
          have hfront : f + n = i := by omega
          obtain ⟨pool', hwrite, hupd, hread', hhigh⟩ := LinkRef.write_run pool
            (update pool.pageAlloctor f
              ⟨u16 (k + n), (pool.pageAlloctor i).next⟩) (v := f) (by omega) href
            (fun j hj => update_of_ne (by omega) _ _)
          refine ⟨pool', ?_, hupd, fun _ => ?_⟩
          · simp only [if_neg hbefore, if_pos hfront, run_bind, set_alloctor_run, hwrite]
          · rw [if_neg hbefore]
            have hentry := hhigh f hlo
            rw [update_self] at hentry
            refine ⟨hread', by rw [hentry, u16_of_lt (by omega)], ?_⟩
            rw [hentry]
            refine hrest.congr fun s hs => ?_
            have := separated_start hseprest hs
            rw [hhigh s.1 (by omega), update_of_ne (by omega)]

end

section

variable {pool pool' : MemPool} {rs : List (Nat × Nat)}

theorem FreeChain.free_runs_from {alloctor : Nat → PageAllocator} {lo pageNum fuel index : Nat}
    (h : FreeChain alloctor index rs) (hpages : pageNum ≤ 65535) (hsep : Separated lo pageNum rs)
    (hfuel : rs.length < fuel) : freeRunsFrom alloctor pageNum fuel index = rs := by
  induction rs generalizing lo fuel index with
  | nil =>
    obtain ⟨fuel, rfl⟩ : ∃ f, fuel = f + 1 := ⟨fuel - 1, by simp at hfuel; omega⟩
    have hindex : index = 65535 := h
    rw [freeRunsFrom, if_neg (by omega)]
  | cons r rs ih =>
    obtain ⟨i, k⟩ := r
    obtain ⟨fuel, rfl⟩ : ∃ f, fuel = f + 1 := ⟨fuel - 1, by simp at hfuel; omega⟩
    obtain ⟨rfl, hpage, hrest⟩ := h
    obtain ⟨hlo, hk, hhi, hsep'⟩ := hsep
    rw [freeRunsFrom, if_pos (by omega), hpage, ih hrest hsep' (by simpa using hfuel)]

theorem FreeListOk.free_runs_eq (h : FreeListOk pool rs) (hg : Geometry pool) :
    pool.freeRuns = rs := by
  have := h.separated.length_le
  exact h.chain.free_runs_from hg.pages h.separated (by omega)

theorem FreeListOk.of_walk (hupd : WalkUpdate .list 0 pool pool')
    (hsep : Separated 0 pool.pageNum rs)
    (hchain : FreeChain pool'.pageAlloctor (LinkRef.list.read pool') rs) :
    FreeListOk pool' rs := by
  obtain ⟨alloctor, list, rfl⟩ := hupd.same
  exact ⟨hsep, hchain⟩

theorem rt_page_alloc_nolock_run {n : Nat} (hg : Geometry pool) (hlist : FreeListOk pool rs)
    (hn : 0 < n) :
    match firstFit n rs with
    | none => (rtPageAllocNolock n).run pool = .ok rtNull pool
    | some (i, rs') => ∃ pool', (rtPageAllocNolock n).run pool = .ok (pool.pageAddr i) pool' ∧
        SameButFreeList pool pool' ∧ FreeListOk pool' rs' := by
  have hlen := hlist.separated.length_le
  have hwalk := page_alloc_walk_run .list 0 (pool.pageNum + 1) (-1)
    hg.pages hn hlist.separated hlist.chain (by simp) (by simp) (by omega)
  have hbody : (rtPageAllocNolock n).run pool =
      match (pageAllocWalk n (pool.pageNum + 1) .list (-1)).run pool with
      | .ok none s => .ok rtNull s
      | .ok (some index) s => .ok (pgidx2Addr pool index) s
      | .error e s => .error e s := by
    simp only [rtPageAllocNolock, if_neg (Nat.ne_of_gt hn), run_bind, run_get]
    split <;> rename_i h <;> rw [h]
    rename_i found _
    cases found <;> rfl
  cases hfit : firstFit n rs with
  | none =>
    rw [hfit] at hwalk
    simp only [hbody, hwalk]
  | some found =>
    obtain ⟨i, rs'⟩ := found
    rw [hfit] at hwalk
    obtain ⟨pool', hrun, hupd, hchain⟩ := hwalk
    obtain ⟨hsep, hin, _⟩ := first_fit_covers hlist.separated hn hfit
    have hi := (hlist.separated.covers_bounds (hin i le_rfl (by omega))).2
    refine ⟨pool', ?_, hupd.same, .of_walk hupd hsep hchain⟩
    rw [hbody, hrun]
    simp only [pgidx2addr_eq hg hi]

/-- `rt_page_free_nolock` meets no assertion when the pages it is given are not free, and gives
them back to the list unless they end at `END_FLAG` right behind a free run. -/
theorem rt_page_free_nolock_run {f n : Nat} (hg : Geometry pool) (hlist : FreeListOk pool rs)
    (hn : 0 < n) (hhi : f + n ≤ pool.pageNum)
    (hfree : ∀ p, f ≤ p → p < f + n → ¬ Covers rs p) :
    ∃ pool', (rtPageFreeNolock (pool.pageAddr f) n).run pool = .ok () pool' ∧
      SameButFreeList pool pool' ∧
      (¬ TailMerge f n rs → FreeListOk pool' (insertRun f n rs)) := by
  have hlen := hlist.separated.length_le
  obtain ⟨pool', hrun, hupd, hchain⟩ := page_free_walk_run .list 0
    (pool.pageNum + 1) (-1) hg.pages hn hlist.separated hlist.chain (by simp)
    (by simp) (by omega) (Nat.zero_le f) hhi hfree
  refine ⟨pool', ?_, hupd.same, fun hmerge => ?_⟩
  · have hf : addr2Pgidx pool (pool.pageAddr f) = f := addr2pgidx_eq hg (o := 0) (by omega)
      (by omega)
    have h1 := hg.aligned
    have h2 := hg.heap_end
    have h3 := hg.pages
    have hcheck : ¬ (pool.pageAddr f &&& mmPageMask ≠ 0 ∨ pool.pageAddr f < pool.heapStart ∨
        pool.heapEnd ≤ pool.pageAddr f ∨
        sub32 pool.pageNum (addr2Pgidx pool (pool.pageAddr f)) < n) := by
      rw [hf, mm_page_mask_eq, and_mask_eq_mod, sub32_of_le (by omega) (by omega)]
      unfold MemPool.pageAddr
      omega
    simp only [rtPageFreeNolock, run_bind, run_get]
    rw [bug_if_run_of_not hcheck]
    simp only [hf, hrun]
  · exact .of_walk hupd (insert_run_covers hlist.separated (Nat.zero_le f) hn hhi hfree).1
      (hchain hmerge)

end

end FullhanRtos.Slab
