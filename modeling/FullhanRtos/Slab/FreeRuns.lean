import FullhanRtos.Slab.Roles

/-!
# The runs of the free page list

The free page list as its users see it: the maximal runs of unused pages, from which
`rt_page_alloc_nolock` takes the lowest pages that suffice. Giving them back restores the list.
-/

namespace RunList

variable {lo hi n : Nat} {rs : List (Nat × Nat)}

def Fits (rs : List (Nat × Nat)) (n p : Nat) : Prop := ∀ q, p ≤ q → q < p + n → Covers rs q

/-- The runs are in order, with a gap between any two. -/
theorem Separated.pairwise (h : Separated lo hi rs) :
    rs.Pairwise (fun r q => r.1 + r.2 < q.1) ∧ ∀ r ∈ rs, lo ≤ r.1 ∧ 0 < r.2 := by
  induction rs generalizing lo with
  | nil => exact ⟨.nil, fun _ hr => absurd hr List.not_mem_nil⟩
  | cons r rs ih =>
    obtain ⟨hlo, hk, -, hrest⟩ := h
    obtain ⟨hpairwise, hstart⟩ := ih hrest
    refine ⟨List.pairwise_cons.mpr ⟨fun q hq => (hstart q hq).1, hpairwise⟩, fun q hq => ?_⟩
    rcases List.mem_cons.mp hq with rfl | hq
    · exact ⟨hlo, hk⟩
    · have := hstart q hq
      exact ⟨by omega, this.2⟩

/-- Numbers in a row are in one run. -/
theorem Separated.fits_cons {i k p : Nat} (h : Separated lo hi ((i, k) :: rs)) (hn : 0 < n)
    (hfits : Fits ((i, k) :: rs) n p) : Fits rs n p ∨ i ≤ p ∧ p + n ≤ i + k := by
  have hcov := fun q h1 h2 => (covers_cons _ _ _).mp (hfits q h1 h2)
  have hbehind : ∀ q, Covers rs q → i + k + 1 ≤ q := fun q hq => (h.2.2.2.covers_bounds hq).1
  by_cases hp : p < i + k
  · have hgap : p + n ≤ i + k := by
      by_contra hlong
      rcases hcov (i + k) (by omega) (by omega) with hin | hrest
      · exact absurd hin.2 (Nat.lt_irrefl _)
      · have := hbehind _ hrest
        omega
    rcases hcov p (Nat.le_refl p) (by omega) with hin | hrest
    · exact .inr ⟨hin.1, hgap⟩
    · have := hbehind _ hrest
      omega
  · refine .inl fun q h1 h2 => (hcov q h1 h2).resolve_left fun hin => ?_
    omega

theorem first_fit_lowest (h : Separated lo hi rs) (hn : 0 < n) :
    match firstFit n rs with
    | none => ∀ p, ¬ Fits rs n p
    | some (i, rs') => (∀ p, Fits rs n p → i ≤ p) ∧ insertRun i n rs' = rs := by
  induction rs generalizing lo with
  | nil => exact fun p hp => covers_nil p (hp p (Nat.le_refl p) (Nat.lt_add_of_pos_right hn))
  | cons r rs ih =>
    obtain ⟨i, k⟩ := r
    have hin := fun p (hp : Fits ((i, k) :: rs) n p) => h.fits_cons hn hp
    obtain ⟨-, hk, -, hrest⟩ := h
    have hstart := hrest.pairwise.2
    have hbehind : ∀ p, Fits rs n p → i + k + 1 ≤ p := fun p hp =>
      (hrest.covers_bounds (hp p (Nat.le_refl p) (Nat.lt_add_of_pos_right hn))).1
    have hih := ih hrest
    unfold firstFit
    by_cases hshort : k < n
    · rw [if_pos hshort]
      have hnot : ∀ p, Fits ((i, k) :: rs) n p → Fits rs n p := fun p hp =>
        (hin p hp).resolve_right (by omega)
      cases hfit : firstFit n rs with
      | none =>
        rw [hfit] at hih
        exact fun p hp => hih p (hnot p hp)
      | some found =>
        rw [hfit] at hih
        refine ⟨fun p hp => hih.1 p (hnot p hp), ?_⟩
        have hlow := (first_fit_covers hrest hn hfit).2.1
        have hfound := (hrest.covers_bounds (hlow found.1 (Nat.le_refl _) (by omega))).1
        show insertRun found.1 n ((i, k) :: found.2) = (i, k) :: rs
        unfold insertRun
        rw [if_pos (by omega), hih.2]
    · rw [if_neg hshort]
      have hlow : ∀ p, Fits ((i, k) :: rs) n p → i ≤ p := fun p hp => by
        rcases hin p hp with hp | hp
        · have := hbehind p hp
          omega
        · exact hp.1
      by_cases hlong : n < k
      · rw [if_pos hlong]
        refine ⟨hlow, ?_⟩
        show insertRun i n ((i + n, k - n) :: rs) = (i, k) :: rs
        unfold insertRun
        rw [if_neg (by omega), if_neg (by omega), if_neg (by omega),
          Nat.sub_add_cancel (Nat.le_of_lt hlong)]
      · rw [if_neg hlong]
        refine ⟨hlow, ?_⟩
        obtain rfl : k = n := by omega
        cases rs with
        | nil => rfl
        | cons q rs =>
          have hq := (hstart q List.mem_cons_self).1
          show insertRun i k (q :: rs) = (i, k) :: q :: rs
          unfold insertRun
          rw [if_neg (by omega), if_neg (by omega), if_pos (by omega)]

end RunList

namespace FullhanRtos.Slab

open RunList Transition List

/-- The page is marked free, and not because it is inside of a block. -/
def Unused (pool : MemPool) (p : Nat) : Prop :=
  p < pool.pageNum ∧ pool.type p = .free ∧ ¬ InBlock pool p

def UnusedRun (pool : MemPool) (n p : Nat) : Prop := ∀ q, p ≤ q → q < p + n → Unused pool q

/-- The list is in order, without neighbours, and holds the unused pages; the lowest `n` of them in
a row are allocated, and giving them back restores the list. -/
structure FreeListRight (pool : MemPool) : Prop where
  sorted : pool.freeRuns.Pairwise fun r q => r.1 + r.2 < q.1
  nonempty : ∀ r ∈ pool.freeRuns, 0 < r.2
  unused : ∀ p, Covers pool.freeRuns p ↔ Unused pool p
  alloc : ∀ n, 0 < n →
    ((rtPageAllocNolock n).run pool = .ok rtNull pool ∧ ∀ p, ¬ UnusedRun pool n p) ∨
      ∃ i pool', (rtPageAllocNolock n).run pool = .ok (pool.pageAddr i) pool' ∧
        pool.pageAddr i ≠ rtNull ∧ UnusedRun pool n i ∧ (∀ p, UnusedRun pool n p → i ≤ p) ∧
        ∃ pool'', (rtPageFreeNolock (pool.pageAddr i) n).run pool' = .ok () pool'' ∧
          pool''.freeRuns = pool.freeRuns

theorem Wf.unused_iff {pool : MemPool} {runs : List (Nat × Nat)} {ring : PageList → List Nat}
    (h : Wf pool runs ring 0 0) (p : Nat) : Covers runs p ↔ Unused pool p := by
  constructor
  · intro hcov
    have hp := (h.free.separated.covers_bounds hcov).2
    refine ⟨hp, (h.ok_at hp).covered hcov, ?_⟩
    rintro ⟨b, hlt, htype, hin⟩
    exact (((h.ok_at (by omega)).page htype).body p hlt hin).2 hcov
  · rintro ⟨hp, hfree, hnot⟩
    exact ((h.ok_at hp).free hfree).resolve_right hnot

theorem Wf.free_list_right {pool : MemPool} {runs : List (Nat × Nat)} {ring : PageList → List Nat}
    (h : Wf pool runs ring 0 0) : FreeListRight pool := by
  have hg := h.geometry
  have hruns := h.free.free_runs_eq hg
  have hsep := h.free.separated
  have hfits : ∀ n p, UnusedRun pool n p ↔ Fits runs n p := fun n p =>
    forall₃_congr fun q _ _ => (h.unused_iff q).symm
  refine ⟨hruns ▸ hsep.pairwise.1, hruns ▸ fun r hr => (hsep.pairwise.2 r hr).2,
    hruns ▸ h.unused_iff, fun n hn => ?_⟩
  simp only [hfits, hruns]
  have hrun := rt_page_alloc_nolock_run hg h.free hn
  have hlowest := first_fit_lowest hsep hn
  cases hfit : firstFit n runs with
  | none =>
    rw [hfit] at hrun hlowest
    exact .inl ⟨hrun, hlowest⟩
  | some found =>
    obtain ⟨i, rest⟩ := found
    rw [hfit] at hrun hlowest
    obtain ⟨pool', halloc, ⟨alloctor, list, rfl⟩, hlist⟩ := hrun
    obtain ⟨hsep', hin, hcov⟩ := first_fit_covers hsep hn hfit
    have hend := (hsep.covers_bounds (hin (i + n - 1) (by omega) (by omega))).2
    have hg' : Geometry { pool with pageAlloctor := alloctor, alloctorList := list } :=
      ⟨hg.pages, hg.start_pos, hg.aligned, hg.heap_end, hg.top⟩
    obtain ⟨pool'', hfree, ⟨alloctor', list', rfl⟩, hback⟩ :=
      rt_page_free_nolock_run hg' hlist hn (show i + n ≤ pool.pageNum by omega)
        fun q h1 h2 hq => ((hcov q).mp hq).2 ⟨h1, h2⟩
    -- nothing free ends where the pages begin, or they would have been taken from there
    have hmerge : ¬ TailMerge i n rest := by
      rintro ⟨-, r, hr, hr'⟩
      have hpos := (hsep'.pairwise.2 r hr).2
      have hcovered : Covers runs (i - 1) := ((hcov (i - 1)).mp ⟨r, hr, by omega, by omega⟩).1
      have := hlowest.1 (i - 1) fun q h1 h2 => by
        by_cases hq : q = i - 1
        · rw [hq]
          exact hcovered
        · exact hin q (by omega) (by omega)
      omega
    have hstart := hg.start_pos
    refine .inr ⟨i, _, halloc, ?_, hin, hlowest.1, _, hfree, ?_⟩
    · rw [MemPool.pageAddr, rt_null_eq]
      omega
    · rw [(hback hmerge).free_runs_eq ⟨hg.pages, hg.start_pos, hg.aligned, hg.heap_end, hg.top⟩]
      exact hlowest.2

/-- After safe calls on a new pool the free page list is as it should be. -/
theorem safe_calls_keep_free_runs {raw : RawMemory} {beginAddr endAddr : Nat} {init : MemPool}
    {calls : List Call} {s : State} (hbegin : beginAddr < 4294967296) (hend : endAddr < 4294967296)
    (haccept : Accepted raw beginAddr endAddr init)
    (hsafe : AllSteps step SafeCall ⟨init, []⟩ calls)
    (hrun : exec step ⟨init, []⟩ calls = some s) : FreeListRight s.pool := by
  obtain ⟨runs, ring, hpool⟩ := (safe_run_inv hbegin hend haccept hsafe hrun).pool
  exact hpool.wf.free_list_right

theorem some_calls_keep_free_runs : ∃ init s, Accepted clearedMemory 1048576 1069056 init ∧
    exec step ⟨init, []⟩ someCalls = some s ∧ FreeListRight s.pool := by
  obtain ⟨init, s, haccept, hsafe, hrun⟩ := some_calls_served
  exact ⟨init, s, haccept, hrun,
    safe_calls_keep_free_runs (by decide) (by decide) haccept hsafe hrun⟩

/-- After `twoBlockCalls` page 4 is unused, but in no run. -/
theorem two_block_calls_lose_runs : ∃ init s,
    Accepted (usedMemory ⟨5, 65535⟩) 1048576 270798848 init ∧
      AllSteps step ValidCall ⟨init, []⟩ twoBlockCalls ∧
      exec step ⟨init, []⟩ twoBlockCalls = some s ∧ ¬ FreeListRight s.pool := by
  have htest : testPool (usedMemory ⟨5, 65535⟩) 1048576 270798848 (fun pool =>
      AllSteps step ValidCall ⟨pool, []⟩ twoBlockCalls ∧
        (exec step ⟨pool, []⟩ twoBlockCalls).any fun s =>
          4 < s.pool.pageNum ∧ s.pool.freeRuns = [(0, 4)] ∧ s.pool.type 4 = .free ∧
            ∀ h < 5, s.pool.type h ≠ .page) = true := by decide +kernel
  obtain ⟨init, haccept, hcalls⟩ := of_test_pool htest
  obtain ⟨hvalid, hany⟩ := of_decide_eq_true hcalls
  obtain ⟨s, hrun, hs⟩ := (Option.any_eq_true _ _).mp hany
  obtain ⟨hfour, hruns, htype, hpage⟩ := of_decide_eq_true hs
  refine ⟨init, s, haccept, hvalid, hrun, fun hright => ?_⟩
  have hcov : Covers s.pool.freeRuns 4 := by
    refine (hright.unused 4).mpr ⟨hfour, htype, ?_⟩
    rintro ⟨h, hlt, hhead, -⟩
    exact hpage h (by omega) hhead
  rw [hruns] at hcov
  obtain ⟨r, hr, -, hlt⟩ := hcov
  cases mem_singleton.mp hr
  exact absurd hlt (by decide)

end FullhanRtos.Slab
