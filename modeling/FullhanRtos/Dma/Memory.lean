import FullhanRtos.Lib.Transition
import Mathlib.Data.Nat.Bitwise

/-!
# DMA memory

`dma_mem_malloc_with_name` hands out a region from its beginning to its end and takes nothing back.
All addresses are 32 bits wide. `dma_mem_ok` says that they do not wrap.
-/

namespace FullhanRtos.DmaMem

open Transition List Nat
open BitVec hiding not_or

/-! ## The allocator -/

structure DmaMemNode where
  baseAddr : BitVec 32
  size : BitVec 32
  align : BitVec 32
  deriving DecidableEq

/-- `struct dma_mem_control`. The last address belongs to the region. -/
structure DmaMemControl where
  nodeList : List DmaMemNode
  align : BitVec 32
  beginAddr : BitVec 32
  endAddr : BitVec 32
  allocAddr : BitVec 32
  deriving DecidableEq

def dcacheLineSize : BitVec 32 := 64

/-- The loop of `align_check`. -/
def countBits (align bits : Nat) : Nat :=
  if _h : align = 0 then bits
  else countBits (align / 2) (if align % 2 ≠ 0 then bits + 1 else bits)
termination_by align
decreasing_by exact Nat.div_lt_self (Nat.pos_of_ne_zero _h) (by decide)

def alignCheck (align : BitVec 32) : Bool :=
  if align >>> 28 ≠ 0 then false else countBits align.toNat 0 = 1

def dmaMemInit (beginAddr bufSize bufAllign : BitVec 32) : Option DmaMemControl :=
  let bufAllign := if bufAllign < dcacheLineSize then dcacheLineSize else bufAllign
  let maxsz := -beginAddr
  if bufSize = 0 ∨ maxsz ≤ bufSize ∨ alignCheck bufAllign = false then none
  else
    some
      { nodeList := []
        align := bufAllign
        beginAddr
        endAddr := beginAddr + (bufSize - 1)
        allocAddr := beginAddr }

/-- The arguments of an allocation, and whether there is memory for its node. -/
structure DmaRequest where
  size : BitVec 32
  align : BitVec 32
  node : Bool

/-- `align`, at least that of the region. -/
def effectiveAlign (m : DmaMemControl) (align : BitVec 32) : BitVec 32 :=
  if align < m.align then m.align else align

def extra (m : DmaMemControl) (align : BitVec 32) : BitVec 32 :=
  (align - (m.allocAddr &&& (align - 1))) &&& (align - 1)

def dmaMemMalloc (m : DmaMemControl) (request : DmaRequest) : DmaMemControl × Option (BitVec 32) :=
  let size := request.size
  let align := effectiveAlign m request.align
  if request.node = false then (m, none)
  else
    let extra := extra m align
    if alignCheck align = false ∨ m.allocAddr = 0 ∨ size.toInt ≤ 0 ∨
        m.endAddr + 1 - m.allocAddr < size + extra then
      (m, none)
    else
      let node : DmaMemNode := ⟨m.allocAddr + extra, size, align⟩
      ({ m with nodeList := m.nodeList ++ [node], allocAddr := m.allocAddr + (extra + size) },
        some node.baseAddr)

def dmaMemStep (m : DmaMemControl) (request : DmaRequest) : Option DmaMemControl :=
  some (dmaMemMalloc m request).1

/-! ## What the callers rely on -/

/-- The first address behind a block. -/
def DmaMemNode.behind (node : DmaMemNode) : Nat := node.baseAddr.toNat + node.size.toNat

/-- The blocks are apart from each other and in the region. -/
structure DmaMemOk (m : DmaMemControl) : Prop where
  disjoint : m.nodeList.Pairwise fun a b =>
    a.behind ≤ b.baseAddr.toNat ∨ b.behind ≤ a.baseAddr.toNat
  inside : ∀ node ∈ m.nodeList,
    m.beginAddr.toNat ≤ node.baseAddr.toNat ∧ node.behind ≤ m.endAddr.toNat + 1
  /-- The address behind the region is an address. -/
  endAddr : m.endAddr.toNat + 1 < 2 ^ 32

/-- A call: no sum or difference of it wraps, and it gives what is asked for or changes nothing. -/
structure DmaCallOk (m : DmaMemControl) (request : DmaRequest) : Prop where
  left : (m.endAddr + 1 - m.allocAddr).toNat + m.allocAddr.toNat = m.endAddr.toNat + 1
  needed : alignCheck (effectiveAlign m request.align) = true → 0 < request.size.toInt →
    (request.size + extra m (effectiveAlign m request.align)).toNat =
      request.size.toNat + (extra m (effectiveAlign m request.align)).toNat
  fails : (dmaMemMalloc m request).2 = none → (dmaMemMalloc m request).1 = m
  block : ∀ base, (dmaMemMalloc m request).2 = some base →
    base.toNat = m.allocAddr.toNat + (extra m (effectiveAlign m request.align)).toNat ∧
      (dmaMemMalloc m request).1.allocAddr.toNat = base.toNat + request.size.toNat ∧
      (alignCheck request.align = true → request.align.toNat ∣ base.toNat) ∧
      (dmaMemMalloc m request).1.nodeList =
        m.nodeList ++ [⟨base, request.size, effectiveAlign m request.align⟩]

/-! ## Alignments -/

variable {m m' : DmaMemControl} {request : DmaRequest} {align : BitVec 32}

theorem count_bits_ge (n bits : Nat) :
    bits ≤ countBits n bits ∧ (countBits n bits = bits → n = 0) := by
  induction n using Nat.strongRecOn generalizing bits with
  | ind n ih =>
    rw [countBits]
    by_cases hn : n = 0
    · rw [dif_pos hn]
      exact ⟨Nat.le_refl bits, fun _ => hn⟩
    · rw [dif_neg hn]
      have hless := Nat.div_lt_self (Nat.pos_of_ne_zero hn) Nat.one_lt_two
      by_cases hodd : n % 2 ≠ 0
      · rw [if_pos hodd]
        obtain ⟨hle, -⟩ := ih (n / 2) hless (bits + 1)
        exact ⟨by omega, by omega⟩
      · rw [if_neg hodd]
        obtain ⟨hle, heq⟩ := ih (n / 2) hless bits
        exact ⟨hle, fun h => by have hhalf := heq h; omega⟩

theorem count_bits_one {n bits : Nat} (h : countBits n bits = bits + 1) : ∃ k, n = 2 ^ k := by
  induction n using Nat.strongRecOn generalizing bits with
  | ind n ih =>
    rw [countBits] at h
    by_cases hn : n = 0
    · rw [dif_pos hn] at h
      omega
    · rw [dif_neg hn] at h
      by_cases hodd : n % 2 ≠ 0
      · rw [if_pos hodd] at h
        have hhalf := (count_bits_ge (n / 2) (bits + 1)).2 h
        exact ⟨0, by omega⟩
      · rw [if_neg hodd] at h
        obtain ⟨k, hk⟩ := ih (n / 2) (Nat.div_lt_self (Nat.pos_of_ne_zero hn) Nat.one_lt_two) h
        exact ⟨k + 1, by rw [Nat.pow_succ]; omega⟩

theorem count_bits_pow (k bits : Nat) : countBits (2 ^ k) bits = bits + 1 := by
  induction k generalizing bits with
  | zero =>
    rw [countBits, dif_neg (by decide), if_pos (by decide), countBits, dif_pos (by decide)]
  | succ k ih =>
    have hpos := Nat.two_pow_pos k
    have hhalf : 2 ^ (k + 1) / 2 = 2 ^ k := by omega
    rw [countBits, dif_neg (by omega), if_neg (by omega), hhalf]
    exact ih bits

/-- The alignments that are accepted. -/
theorem align_check_pow (h : alignCheck align = true) : ∃ k, k < 28 ∧ align.toNat = 2 ^ k := by
  unfold alignCheck at h
  by_cases hlarge : align >>> 28 ≠ 0
  · rw [if_pos hlarge] at h
    exact absurd h Bool.false_ne_true
  · rw [if_neg hlarge] at h
    obtain ⟨k, hk⟩ := count_bits_one (of_decide_eq_true h)
    have hzero : align.toNat / 2 ^ 28 = 0 := by
      have hshift := congrArg BitVec.toNat (not_not.mp hlarge)
      rwa [toNat_ushiftRight, shiftRight_eq_div_pow] at hshift
    have hlt : (2 : Nat) ^ k < 2 ^ 28 := by
      omega
    exact ⟨k, (Nat.pow_lt_pow_iff_right Nat.one_lt_two).mp hlt, hk⟩

/-- `extra` fills up to the next multiple. -/
theorem extra_spec (h : alignCheck align = true) :
    (extra m align).toNat < align.toNat ∧
      align.toNat ∣ m.allocAddr.toNat + (extra m align).toNat := by
  obtain ⟨k, hk, hpow⟩ := align_check_pow h
  have hpos : 0 < (2 : Nat) ^ k := Nat.two_pow_pos k
  have hmask : (align - 1).toNat = 2 ^ k - 1 := by
    rw [toNat_sub, hpow]
    show (2 ^ 32 - 1 + 2 ^ k) % 2 ^ 32 = _
    omega
  have hlow : (m.allocAddr &&& (align - 1)).toNat = m.allocAddr.toNat % 2 ^ k := by
    rw [toNat_and, hmask, and_two_pow_sub_one_eq_mod]
  have hmod := mod_lt m.allocAddr.toNat hpos
  have hextra : (extra m align).toNat = (2 ^ k - m.allocAddr.toNat % 2 ^ k) % 2 ^ k := by
    unfold extra
    rw [toNat_and, hmask, and_two_pow_sub_one_eq_mod, toNat_sub, hlow, hpow]
    congr 1
    omega
  rw [hextra, hpow]
  refine ⟨mod_lt _ hpos, dvd_of_mod_eq_zero ?_⟩
  rw [add_mod, mod_mod, ← add_mod, ← mod_add_mod, Nat.add_sub_cancel' (Nat.le_of_lt hmod), mod_self]

/-! ## Runs -/

/-- Everything behind `alloc_addr` is free. -/
structure DmaMemInv (m : DmaMemControl) : Prop extends DmaMemOk m where
  align : alignCheck m.align = true
  begin_le : m.beginAddr.toNat ≤ m.allocAddr.toNat
  le_end : m.allocAddr.toNat ≤ m.endAddr.toNat + 1
  used : ∀ node ∈ m.nodeList, node.behind ≤ m.allocAddr.toNat

theorem DmaMemInv.left (h : DmaMemInv m) :
    (m.endAddr + 1 - m.allocAddr).toNat + m.allocAddr.toNat = m.endAddr.toNat + 1 := by
  have hend := h.endAddr
  have hle := h.le_end
  have hnext : (m.endAddr + 1).toNat = m.endAddr.toNat + 1 := by
    exact mod_eq_of_lt hend
  rw [toNat_sub, hnext]
  omega

/-- A small alignment divides the one that is used. -/
theorem dvd_effective_align (h : alignCheck m.align = true) (halign : alignCheck align = true) :
    align.toNat ∣ (effectiveAlign m align).toNat := by
  unfold effectiveAlign
  by_cases hless : align < m.align
  · obtain ⟨k, -, hk⟩ := align_check_pow halign
    obtain ⟨j, -, hj⟩ := align_check_pow h
    have hlt : (2 : Nat) ^ k < 2 ^ j := by
      rw [← hk, ← hj]
      exact lt_def.mp hless
    rw [if_pos hless, hk, hj]
    exact pow_dvd_pow 2 (Nat.le_of_lt ((Nat.pow_lt_pow_iff_right Nat.one_lt_two).mp hlt))
  · rw [if_neg hless]

theorem needed_eq (halign : alignCheck align = true) {size : BitVec 32} (hsize : 0 < size.toInt) :
    (size + extra m align).toNat = size.toNat + (extra m align).toNat := by
  have hextra := (extra_spec (m := m) halign).1
  obtain ⟨k, hk, hpow⟩ := align_check_pow halign
  have hmax : (2 : Nat) ^ k < 2 ^ 28 := Nat.pow_lt_pow_right Nat.one_lt_two hk
  have hsmall : size.toNat < 2 ^ 31 := by
    rw [toInt_eq_toNat_cond] at hsize
    split at hsize <;> omega
  rw [toNat_add]
  omega

theorem dma_mem_malloc_ok (h : DmaMemInv m) (request : DmaRequest) :
    DmaCallOk m request ∧ DmaMemInv (dmaMemMalloc m request).1 := by
  have hleft := h.left
  have hneeded : alignCheck (effectiveAlign m request.align) = true → 0 < request.size.toInt →
      (request.size + extra m (effectiveAlign m request.align)).toNat =
        request.size.toNat + (extra m (effectiveAlign m request.align)).toNat :=
    fun halign hsize => needed_eq halign hsize
  have hfails : dmaMemMalloc m request = (m, none) →
      DmaCallOk m request ∧ DmaMemInv (dmaMemMalloc m request).1 := by
    intro heq
    rw [heq]
    exact ⟨⟨hleft, hneeded, fun _ => by rw [heq], by rw [heq]; exact nofun⟩, h⟩
  by_cases hnode : request.node = false
  · exact hfails (if_pos hnode)
  by_cases hcheck : alignCheck (effectiveAlign m request.align) = false ∨ m.allocAddr = 0 ∨
      request.size.toInt ≤ 0 ∨
      m.endAddr + 1 - m.allocAddr < request.size + extra m (effectiveAlign m request.align)
  · exact hfails ((if_neg hnode).trans (if_pos hcheck))
  · have heq : dmaMemMalloc m request =
        ({ m with
            nodeList := m.nodeList ++ [⟨m.allocAddr + extra m (effectiveAlign m request.align),
              request.size, effectiveAlign m request.align⟩]
            allocAddr := m.allocAddr + (extra m (effectiveAlign m request.align) + request.size) },
          some (m.allocAddr + extra m (effectiveAlign m request.align))) :=
      (if_neg hnode).trans (if_neg hcheck)
    obtain ⟨halign, -, hsize, hroom⟩ : _ ∧ _ ∧ _ ∧ _ := by
      simpa only [not_or, Bool.not_eq_false, Int.not_le] using hcheck
    have hsum := hneeded halign hsize
    obtain ⟨-, hdvd⟩ := extra_spec (m := m) halign
    have hend := h.endAddr
    have hfits : request.size.toNat + (extra m (effectiveAlign m request.align)).toNat ≤
        (m.endAddr + 1 - m.allocAddr).toNat := by
      rw [← hsum]
      exact le_def.mp (BitVec.not_lt.mp hroom)
    have hbase : (m.allocAddr + extra m (effectiveAlign m request.align)).toNat =
        m.allocAddr.toNat + (extra m (effectiveAlign m request.align)).toNat := by
      rw [toNat_add]
      omega
    have hnext : (m.allocAddr + (extra m (effectiveAlign m request.align) + request.size)).toNat =
        m.allocAddr.toNat + (extra m (effectiveAlign m request.align)).toNat +
          request.size.toNat := by
      rw [toNat_add, BitVec.add_comm (extra _ _), hsum]
      omega
    have hnew : ∀ node ∈ m.nodeList, node.behind ≤
        (m.allocAddr + extra m (effectiveAlign m request.align)).toNat := fun node hmem => by
      have hused := h.used node hmem
      omega
    rw [heq]
    refine ⟨⟨hleft, hneeded, fun hnone => ?_, fun base hsome => ?_⟩, ?_⟩
    · rw [heq] at hnone
      cases hnone
    · rw [heq] at hsome ⊢
      obtain rfl := Option.some.inj hsome
      refine ⟨hbase, by rw [hnext, hbase], fun hrequest => ?_, rfl⟩
      rw [hbase]
      exact (dvd_effective_align h.align hrequest).trans hdvd
    · refine { h with disjoint := ?_, inside := ?_, begin_le := ?_, le_end := ?_, used := ?_ }
      · refine pairwise_append.mpr ⟨h.disjoint, pairwise_singleton _ _, ?_⟩
        intro a ha b hb
        rw [mem_singleton.mp hb]
        exact Or.inl (hnew a ha)
      · intro node hmem
        rcases mem_append.mp hmem with hold | hmem
        · exact h.inside node hold
        · rw [mem_singleton.mp hmem]
          have hbegin := h.begin_le
          refine ⟨?_, ?_⟩
          · show m.beginAddr.toNat ≤ (m.allocAddr + extra m _).toNat
            omega
          · show (m.allocAddr + extra m _).toNat + request.size.toNat ≤ m.endAddr.toNat + 1
            omega
      · show m.beginAddr.toNat ≤ (m.allocAddr + (extra m _ + request.size)).toNat
        have hbegin := h.begin_le
        omega
      · show (m.allocAddr + (extra m _ + request.size)).toNat ≤ m.endAddr.toNat + 1
        omega
      · intro node hmem
        show node.behind ≤ (m.allocAddr + (extra m _ + request.size)).toNat
        rcases mem_append.mp hmem with hold | hmem
        · have hbefore := hnew node hold
          omega
        · rw [mem_singleton.mp hmem]
          show (m.allocAddr + extra m _).toNat + request.size.toNat ≤ _
          omega

theorem dma_mem_init_ok {beginAddr bufSize bufAllign : BitVec 32}
    (hinit : dmaMemInit beginAddr bufSize bufAllign = some m) : DmaMemInv m := by
  unfold dmaMemInit at hinit
  generalize (if bufAllign < dcacheLineSize then dcacheLineSize else bufAllign) = align at hinit
  by_cases hcheck : bufSize = 0 ∨ -beginAddr ≤ bufSize ∨ alignCheck align = false
  · rw [if_pos hcheck] at hinit
    cases hinit
  · rw [if_neg hcheck] at hinit
    obtain rfl := Option.some.inj hinit
    obtain ⟨hsize, hmax, halign⟩ := (not_or.trans (and_congr_right' not_or)).mp hcheck
    have hlt := lt_def.mp (BitVec.not_le.mp hmax)
    rw [toNat_neg] at hlt
    have hend : (beginAddr + (bufSize - 1)).toNat = beginAddr.toNat + bufSize.toNat - 1 := by
      show (beginAddr.toNat + (2 ^ 32 - 1 + bufSize.toNat) % 2 ^ 32) % 2 ^ 32 = _
      omega
    refine ⟨⟨List.Pairwise.nil, nofun, ?_⟩, Bool.eq_true_of_not_eq_false halign, Nat.le_refl _, ?_,
      nofun⟩
    · show (beginAddr + (bufSize - 1)).toNat + 1 < 2 ^ 32
      omega
    · show beginAddr.toNat ≤ (beginAddr + (bufSize - 1)).toNat + 1
      omega

/-- In every state, whatever was asked for before. -/
theorem dma_mem_ok {beginAddr bufSize bufAllign : BitVec 32} {requests : List DmaRequest}
    (hinit : dmaMemInit beginAddr bufSize bufAllign = some m)
    (hrun : exec dmaMemStep m requests = some m') :
    DmaMemOk m' ∧ ∀ request, DmaCallOk m' request := by
  have hinv : DmaMemInv m' := exec_keeps (fun m request m'' h hstep => by
    obtain rfl := Option.some.inj hstep
    exact (dma_mem_malloc_ok h request).2) (dma_mem_init_ok hinit) hrun
  exact ⟨hinv.toDmaMemOk, fun request => (dma_mem_malloc_ok hinv request).1⟩

/-- A region of one megabyte, of which two blocks are taken. -/
theorem dma_mem_ok_blocks :
    ∃ m m', dmaMemInit 0xa1000000 0x100000 64 = some m ∧
      exec dmaMemStep m [⟨100, 4, true⟩, ⟨0x1000, 0x10000, true⟩] = some m' ∧
      DmaMemOk m' ∧ DmaCallOk m' ⟨0x100000, 4, true⟩ := by
  have hcheck : ¬ ((0x100000 : BitVec 32) = 0 ∨ -(0xa1000000 : BitVec 32) ≤ 0x100000 ∨
      alignCheck dcacheLineSize = false) := by
    have halign : alignCheck dcacheLineSize = true := decide_eq_true (count_bits_pow 6 0)
    rw [halign]
    decide
  have hinit : dmaMemInit 0xa1000000 0x100000 64 =
      some ⟨[], 64, 0xa1000000, 0xa10fffff, 0xa1000000⟩ := if_neg hcheck
  obtain ⟨hok, hcall⟩ := dma_mem_ok hinit (show exec dmaMemStep _
    [⟨100, 4, true⟩, ⟨0x1000, 0x10000, true⟩] = some _ from rfl)
  exact ⟨_, _, hinit, rfl, hok, hcall _⟩

end FullhanRtos.DmaMem
