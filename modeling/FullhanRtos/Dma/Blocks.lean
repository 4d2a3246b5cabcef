import FullhanRtos.Dma.Descriptors
import Mathlib.Data.List.Flatten

/-!
# The blocks of a transfer

The descriptors that `handle_single_transfer` and `rt_fh_axi_dma_cyclic_prep` fill, and what the
controller moves when it follows them. A length counts items of the source width. The single builder
puts the blocks at multiples of this width, the cyclic one puts their destinations at multiples of
the destination width.
-/

namespace FullhanRtos.Dma

open List Option Nat Nat

/-! ## The controller -/

/-- `struct axi_dma_lli`: `llpLo` is the entry that it points at, `srcWidth`, `srcFixed` and
`dstFixed` are fields of `ctl_lo`, and `lliLast` is a flag of `ctl_hi`. -/
structure AxiDmaLli where
  sarLo : BitVec 32
  darLo : BitVec 32
  blockTsLo : BitVec 32
  llpLo : Option Nat
  srcWidth : Nat
  srcFixed : Bool
  dstFixed : Bool
  lliLast : Bool

/-- An item on its way. -/
structure Move where
  src : BitVec 32
  dst : BitVec 32
  width : Nat
  deriving DecidableEq

def itemAddress (fixed : Bool) (start : BitVec 32) (width k : Nat) : BitVec 32 :=
  if fixed then start else start + BitVec.ofNat 32 k * 1#32 <<< width

/-- The items of a block. -/
def AxiDmaLli.moves (lli : AxiDmaLli) : List Move :=
  (List.range (lli.blockTsLo.toNat + 1)).map fun k =>
    ⟨itemAddress lli.srcFixed lli.sarLo lli.srcWidth k,
      itemAddress lli.dstFixed lli.darLo lli.srcWidth k, lli.srcWidth⟩

/-- The blocks that are moved from entry `index` to one at which the walk ends. -/
def follow (ends : AxiDmaLli → Bool) (table : List AxiDmaLli) :
    Nat → Nat → Option (List (List Move))
  | 0, _ => none
  | fuel + 1, index =>
    table[index]?.bind fun lli =>
      if ends lli then some [lli.moves]
      else lli.llpLo.bind fun next => (follow ends table fuel next).map (lli.moves :: ·)

/-! ## The builders -/

/-- `DW_DMA_SLAVE_INC`, `DW_DMA_SLAVE_DEC` and `DW_DMA_SLAVE_FIX`. -/
inductive IncMode where
  | inc
  | dec
  | fix
  deriving DecidableEq

/-- What the blocks depend on in `struct dma_transfer`. A reload flag is set at `ADDR_RELOAD`. -/
structure BlockTransfer extends DmaTransfer where
  srcAdd : BitVec 32
  dstAdd : BitVec 32
  srcWidth : Nat
  dstWidth : Nat
  srcIncMode : IncMode
  dstIncMode : IncMode
  srcReloadFlag : Bool
  dstReloadFlag : Bool

def blockAddress (mode : IncMode) (start : BitVec 32) (i : Nat) (len : BitVec 32) (width : Nat) :
    BitVec 32 :=
  match mode with
  | .inc => start + BitVec.ofNat 32 i * len * 1#32 <<< width
  | .dec => start - BitVec.ofNat 32 i * len * 1#32 <<< width
  | .fix => start

def maxTransSize (p : BlockTransfer) : BitVec 32 :=
  if p.periodLen ≠ 0 then if descTransSize < p.periodLen then descTransSize else p.periodLen
  else descTransSize

def singleBlocks (p desc : BlockTransfer) : Nat → Nat → BitVec 32 → List AxiDmaLli
  | 0, _, _ => []
  | rounds + 1, i, transTotalLen =>
    let max := maxTransSize p
    let transSize := if transTotalLen / max ≠ 0 then max else transTotalLen % max
    let rest := transTotalLen - transSize
    { sarLo :=
        if p.srcReloadFlag then desc.srcAdd
        else blockAddress desc.srcIncMode desc.srcAdd i max desc.srcWidth
      darLo :=
        if p.dstReloadFlag then desc.dstAdd
        else blockAddress desc.dstIncMode desc.dstAdd i max desc.srcWidth
      blockTsLo := transSize - 1
      llpLo := if 0 < rest then some (i + 1) else none
      srcWidth := desc.srcWidth
      srcFixed := desc.srcIncMode ≠ .inc
      dstFixed := desc.dstIncMode ≠ .inc
      lliLast := ¬ 0 < rest } :: singleBlocks p desc rounds (i + 1) rest

/-- The descriptors that `handle_single_transfer` fills for the queued transfer `desc`. All of them
take lengths and reload flags of the new transfer. -/
def singleTable (p desc : BlockTransfer) : List AxiDmaLli :=
  singleBlocks p desc (calLliSize desc.toDmaTransfer).toNat 0 p.transLen

/-- A descriptor of the ring of `rt_fh_axi_dma_cyclic_prep`. -/
def cyclicBlock (p : BlockTransfer) (periods i : Nat) : AxiDmaLli where
  sarLo := blockAddress p.srcIncMode p.srcAdd i p.periodLen p.srcWidth
  darLo := blockAddress p.dstIncMode p.dstAdd i p.periodLen p.dstWidth
  blockTsLo := p.periodLen - 1
  llpLo := if i + 1 = periods then some 0 else some (i + 1)
  srcWidth := p.srcWidth
  srcFixed := p.srcIncMode ≠ .inc
  dstFixed := p.dstIncMode ≠ .inc
  lliLast := false

def cyclicTable (p : BlockTransfer) : List AxiDmaLli :=
  let periods := (p.transLen / p.periodLen).toNat
  (List.range periods).map (cyclicBlock p periods)

/-! ## What should be moved -/

def BlockTransfer.item (p : BlockTransfer) (k : Nat) : Move :=
  ⟨itemAddress (p.srcIncMode ≠ .inc) p.srcAdd p.srcWidth k,
    itemAddress (p.dstIncMode ≠ .inc) p.dstAdd p.srcWidth k, p.srcWidth⟩

/-- The blocks are the items in order, and none is longer than a descriptor allows. -/
structure MovesAll (p : BlockTransfer) (blocks : List (List Move)) : Prop where
  items : blocks.flatten = (List.range p.transLen.toNat).map p.item
  sizes : ∀ block ∈ blocks, block.length ≤ descTransSize.toNat

def ChainMoves (p desc : BlockTransfer) : Prop :=
  ∃ blocks, follow (·.lliLast) (singleTable p desc) (singleTable p desc).length 0 = some blocks ∧
    MovesAll desc blocks

/-- The chains of a new transfer and of those that are queued before it move the transfers, and so
does one lap of the ring when the lengths pass the assertion of `rt_fh_axi_dma_cyclic_prep`. -/
structure BlocksOk (queue : List BlockTransfer) (p : BlockTransfer) : Prop where
  single : ∀ desc ∈ queue ++ [p], ChainMoves p desc
  cyclic : p.periodLen ≠ 0 → p.transLen % p.periodLen = 0 →
    ∃ blocks, follow (·.llpLo = some 0) (cyclicTable p) (cyclicTable p).length 0 = some blocks ∧
      MovesAll p blocks

/-! ## Addresses and sizes -/

variable {p desc : BlockTransfer} {before : List AxiDmaLli} {total : BitVec 32} {lli : AxiDmaLli}
  {i fuel : Nat}

theorem item_address_block {mode : IncMode} (hmode : mode ≠ .dec) (start len : BitVec 32)
    (i width k : Nat) :
    itemAddress (mode ≠ .inc) (blockAddress mode start i len width) width k =
      itemAddress (mode ≠ .inc) start width (i * len.toNat + k) := by
  cases mode with
  | inc =>
    show start + BitVec.ofNat 32 i * len * 1#32 <<< width + BitVec.ofNat 32 k * 1#32 <<< width =
      start + BitVec.ofNat 32 (i * len.toNat + k) * 1#32 <<< width
    rw [BitVec.ofNat_add, BitVec.ofNat_mul, BitVec.ofNat_toNat, BitVec.setWidth_eq]
    rw [BitVec.add_mul, BitVec.add_assoc]
  | dec => exact absurd rfl hmode
  | fix => rfl

theorem max_trans_size_bounds (p : BlockTransfer) :
    0 < (maxTransSize p).toNat ∧ (maxTransSize p).toNat ≤ descTransSize.toNat := by
  unfold maxTransSize
  split_ifs with hperiod hless
  · decide
  · have hpos : (p.periodLen).toNat ≠ 0 := fun hzero => hperiod (BitVec.eq_of_toNat_eq hzero)
    rw [BitVec.lt_def] at hless
    omega
  · decide

theorem cal_lli_size_enough (p : BlockTransfer) :
    p.transLen.toNat ≤ (calLliSize p.toDmaTransfer).toNat * (maxTransSize p).toNat := by
  have hper : calLliSize p.toDmaTransfer =
      (if p.transLen % maxTransSize p ≠ 0 then 1#32 else 0#32) + p.transLen / maxTransSize p := by
    have hsame : (if p.periodLen ≠ 0 ∧ p.periodLen < descTransSize then p.periodLen
        else descTransSize) = maxTransSize p := by
      unfold maxTransSize
      by_cases hperiod : p.periodLen = 0
      · rw [if_neg fun h => h.1 hperiod, if_neg (not_not_intro hperiod)]
      · rw [if_pos hperiod]
        by_cases hless : p.periodLen < descTransSize
        · rw [if_pos ⟨hperiod, hless⟩, if_neg (BitVec.not_lt.mpr (BitVec.le_of_lt hless))]
        · rw [if_neg fun h => hless h.2]
          by_cases hmore : descTransSize < p.periodLen
          · rw [if_pos hmore]
          · rw [if_neg hmore]
            exact BitVec.le_antisymm (BitVec.not_lt.mp hless) (BitVec.not_lt.mp hmore)
    unfold calLliSize
    rw [hsame]
  obtain ⟨hpos, -⟩ := max_trans_size_bounds p
  rw [hper]
  generalize maxTransSize p = max at hpos
  have hdiv : (p.transLen / max).toNat = p.transLen.toNat / max.toNat := BitVec.toNat_udiv
  have hmod : (p.transLen % max).toNat = p.transLen.toNat % max.toNat := BitVec.toNat_umod
  have hsum := div_add_mod p.transLen.toNat max.toNat
  have hless := mod_lt p.transLen.toNat hpos
  by_cases hrest : p.transLen % max = 0
  · rw [if_neg (not_not_intro hrest), BitVec.zero_add, hdiv]
    rw [hrest] at hmod
    rw [mul_comm]
    have hzero : p.transLen.toNat % max.toNat = 0 := hmod.symm
    omega
  · have hne : p.transLen.toNat % max.toNat ≠ 0 := by
      exact fun hzero => hrest (BitVec.eq_of_toNat_eq hzero)
    -- a block that is not full has at least two items in a full one
    have hquot : p.transLen.toNat / max.toNat ≤ p.transLen.toNat / 2 :=
      div_le_div_left (by omega) (by decide)
    have hadd : (1#32 + p.transLen / max).toNat = p.transLen.toNat / max.toNat + 1 := by
      show (1 + _) % 2 ^ 32 = _
      omega
    rw [if_pos hrest, hadd, add_mul, one_mul, mul_comm]
    omega

/-! ## The chain -/

/-- A transfer of at least one item with addresses that go up or stay. -/
structure Admitted (p : BlockTransfer) : Prop where
  transLen : p.transLen ≠ 0
  srcIncMode : p.srcIncMode ≠ .dec
  dstIncMode : p.dstIncMode ≠ .dec
  srcReloadFlag : p.srcReloadFlag = false
  dstReloadFlag : p.dstReloadFlag = false
  srcWidth : p.srcWidth ≤ 2
  dstWidth : p.dstWidth ≤ 2

theorem block_moves (h : Admitted p) {i : Nat} {max len : BitVec 32} (hlen : len ≠ 0)
    (hts : lli.blockTsLo = len - 1)
    (hsar : lli.sarLo = blockAddress p.srcIncMode p.srcAdd i max p.srcWidth)
    (hdar : lli.darLo = blockAddress p.dstIncMode p.dstAdd i max p.srcWidth)
    (hsrc : lli.srcWidth = p.srcWidth) (hsrcFixed : lli.srcFixed = decide (p.srcIncMode ≠ .inc))
    (hdstFixed : lli.dstFixed = decide (p.dstIncMode ≠ .inc)) :
    lli.moves = (List.range len.toNat).map fun k => p.item (i * max.toNat + k) := by
  have hcount : lli.blockTsLo.toNat + 1 = len.toNat := by
    have hpos : len.toNat ≠ 0 := fun hzero => hlen (BitVec.eq_of_toNat_eq hzero)
    rw [hts, BitVec.toNat_sub]
    show (2 ^ 32 - 1 + len.toNat) % 2 ^ 32 + 1 = _
    omega
  unfold AxiDmaLli.moves BlockTransfer.item
  rw [hcount, hsar, hdar, hsrc, hsrcFixed, hdstFixed]
  refine map_congr_left fun k _ => ?_
  rw [item_address_block h.srcIncMode, item_address_block h.dstIncMode]

theorem single_block (hp : Admitted p) (h : Admitted desc) (rounds i : Nat) (htotal : total ≠ 0) :
    ∃ lli rest,
      singleBlocks p desc (rounds + 1) i total = lli :: singleBlocks p desc rounds (i + 1) rest ∧
      rest.toNat = total.toNat - (maxTransSize p).toNat ∧
      lli.moves = (List.range (min total.toNat (maxTransSize p).toNat)).map (fun k =>
        desc.item (i * (maxTransSize p).toNat + k)) ∧
      lli.lliLast = decide (total.toNat ≤ (maxTransSize p).toNat) ∧
      ((maxTransSize p).toNat < total.toNat → lli.llpLo = some (i + 1)) := by
  obtain ⟨hpos, -⟩ := max_trans_size_bounds p
  have hne : total.toNat ≠ 0 := fun hzero => htotal (BitVec.eq_of_toNat_eq hzero)
  rw [singleBlocks]
  have hsize : (if total / maxTransSize p ≠ 0 then maxTransSize p
      else total % maxTransSize p).toNat = min total.toNat (maxTransSize p).toNat := by
    have hdiv : (total / maxTransSize p).toNat = total.toNat / (maxTransSize p).toNat :=
      BitVec.toNat_udiv
    by_cases hfull : total / maxTransSize p = 0
    · rw [if_neg (not_not_intro hfull), BitVec.toNat_umod]
      rw [hfull] at hdiv
      have hless := (div_eq_zero_iff_lt hpos).mp hdiv.symm
      rw [mod_eq_of_lt hless]
      omega
    · have hmore : total.toNat / (maxTransSize p).toNat ≠ 0 := by
        exact fun hzero => hfull (BitVec.eq_of_toNat_eq hzero)
      have hge : (maxTransSize p).toNat ≤ total.toNat :=
        Nat.le_of_not_lt fun hlt => hmore (div_eq_of_lt hlt)
      rw [if_pos hfull]
      omega
  generalize (if total / maxTransSize p ≠ 0 then maxTransSize p
    else total % maxTransSize p) = size at hsize ⊢
  have hrest : (total - size).toNat = total.toNat - size.toNat := by
    refine BitVec.toNat_sub_of_le ?_
    rw [BitVec.le_def]
    omega
  have hsizePos : size.toNat ≠ 0 := by omega
  have hsome : size ≠ 0 := fun hzero => hsizePos (congrArg BitVec.toNat hzero)
  have hmore : 0 < total - size ↔ (maxTransSize p).toNat < total.toNat := by
    rw [BitVec.lt_def, hrest]
    show 0 < _ ↔ _
    omega
  rw [hp.srcReloadFlag, hp.dstReloadFlag]
  refine ⟨_, _, rfl, ?_, ?_, ?_, ?_⟩
  · rw [hrest]
    omega
  · rw [← hsize]
    exact block_moves h hsome rfl rfl rfl rfl rfl rfl
  · simp only [hmore, not_lt]
  · intro hless
    exact if_pos (hmore.mpr hless)

theorem follow_entry {ends : AxiDmaLli → Bool} {before after : List AxiDmaLli} {i : Nat}
    (hbefore : before.length = i) (fuel : Nat) :
    follow ends (before ++ lli :: after) (fuel + 1) i =
      if ends lli then some [lli.moves]
      else lli.llpLo.bind fun next =>
        (follow ends ((before ++ [lli]) ++ after) fuel next).map (lli.moves :: ·) := by
  have hget : (before ++ lli :: after)[i]? = some lli := by
    rw [getElem?_append_right (Nat.le_of_eq hbefore), hbefore, Nat.sub_self]
    rfl
  rw [follow, hget, append_assoc]
  rfl

theorem length_append_singleton {i : Nat} (hbefore : before.length = i) (lli : AxiDmaLli) :
    (before ++ [lli]).length = i + 1 := by
  rw [length_append, hbefore]
  rfl

/-- From block `i` on the chain moves what is left of the transfer, if there are enough
descriptors. -/
theorem single_follow (hp : Admitted p) (h : Admitted desc) (rounds : Nat)
    (hbefore : before.length = i) (htotal : total ≠ 0)
    (hrounds : total.toNat ≤ rounds * (maxTransSize p).toNat) (hfuel : rounds ≤ fuel) :
    ∃ blocks,
      follow (·.lliLast) (before ++ singleBlocks p desc rounds i total) fuel i = some blocks ∧
      blocks.flatten =
        (List.range total.toNat).map (fun k => desc.item (i * (maxTransSize p).toNat + k)) ∧
      ∀ block ∈ blocks, block.length ≤ descTransSize.toNat := by
  obtain ⟨hpos, hmax⟩ := max_trans_size_bounds p
  induction rounds generalizing i fuel total before with
  | zero =>
    rw [zero_mul] at hrounds
    exact absurd (BitVec.eq_of_toNat_eq (le_zero.mp hrounds)) htotal
  | succ rounds ih =>
    obtain ⟨fuel, rfl⟩ := exists_eq_add_one_of_ne_zero (Nat.ne_zero_of_lt hfuel)
    obtain ⟨lli, rest, hblocks, hrest, hmoves, hlast, hllp⟩ := single_block hp h rounds i htotal
    have hlength : lli.moves.length ≤ descTransSize.toNat := by
      rw [hmoves, length_map, length_range]
      omega
    rw [hblocks, follow_entry hbefore, hlast]
    by_cases hmore : (maxTransSize p).toNat < total.toNat
    · have hrestNe : rest ≠ 0 := by
        intro hzero
        have htoNat : rest.toNat = 0 := congrArg BitVec.toNat hzero
        omega
      have henough : rest.toNat ≤ rounds * (maxTransSize p).toNat := by
        rw [add_mul, one_mul] at hrounds
        omega
      obtain ⟨blocks, hfollow, hitems, hsizes⟩ :=
        ih (length_append_singleton hbefore lli) hrestNe henough (le_of_succ_le_succ hfuel)
      rw [decide_eq_false (Nat.not_le_of_lt hmore), if_neg Bool.false_ne_true, hllp hmore,
        bind_some, hfollow]
      refine ⟨_, rfl, ?_, forall_mem_cons.mpr ⟨hlength, hsizes⟩⟩
      have hmin : min total.toNat (maxTransSize p).toNat = (maxTransSize p).toNat := by omega
      have hsplit : total.toNat = (maxTransSize p).toNat + rest.toNat := by omega
      rw [flatten_cons, hitems, hmoves, hmin, hsplit, range_add, map_append, List.map_map]
      congr 1
      refine map_congr_left fun k _ => congrArg desc.item ?_
      rw [add_mul, one_mul, add_assoc]
    · have hmin : min total.toNat (maxTransSize p).toNat = total.toNat := by omega
      rw [decide_eq_true (Nat.le_of_not_lt hmore), if_pos rfl]
      refine ⟨_, rfl, ?_, fun block hblock => ?_⟩
      · rw [flatten_singleton, hmoves, hmin]
      · rw [mem_singleton.mp hblock]
        exact hlength

/-- With too few descriptors the last one points behind them. -/
theorem single_follow_none (hp : Admitted p) (h : Admitted desc) (rounds : Nat)
    (hbefore : before.length = i) (hrounds : rounds * (maxTransSize p).toNat < total.toNat) :
    follow (·.lliLast) (before ++ singleBlocks p desc rounds i total) fuel i = none := by
  cases fuel with
  | zero => rfl
  | succ fuel =>
    induction rounds generalizing i fuel total before with
    | zero =>
      rw [singleBlocks, append_nil, follow, getElem?_eq_none (le_of_eq hbefore)]
      rfl
    | succ rounds ih =>
      have htotal : total ≠ 0 := by
        rintro rfl
        exact absurd hrounds (not_lt_zero _)
      obtain ⟨lli, rest, hblocks, hrest, -, hlast, hllp⟩ := single_block hp h rounds i htotal
      rw [add_mul, one_mul] at hrounds
      have hmore : (maxTransSize p).toNat < total.toNat := by omega
      rw [hblocks, follow_entry hbefore, hlast, decide_eq_false (Nat.not_le_of_lt hmore),
        if_neg Bool.false_ne_true, hllp hmore, bind_some]
      cases fuel with
      | zero => rfl
      | succ fuel =>
        rw [ih (length_append_singleton hbefore lli) (by omega)]
        rfl

theorem single_blocks_length (p desc : BlockTransfer) (rounds i : Nat) (total : BitVec 32) :
    (singleBlocks p desc rounds i total).length = rounds := by
  induction rounds generalizing i total with
  | zero => rfl
  | succ rounds ih => exact congrArg (· + 1) (ih (i + 1) _)

/-- The chain of a transfer in the queue moves it exactly if it is as long as the new one, and has
descriptors for the blocks of the new one. -/
theorem chain_moves_iff (hp : Admitted p) (h : Admitted desc) :
    ChainMoves p desc ↔ desc.transLen = p.transLen ∧
      p.transLen.toNat ≤ (calLliSize desc.toDmaTransfer).toNat * (maxTransSize p).toNat := by
  have hstart : ([] : List AxiDmaLli).length = 0 := rfl
  have hfuel := single_blocks_length p desc (calLliSize desc.toDmaTransfer).toNat 0 p.transLen
  have hitem : (fun k => desc.item (0 * (maxTransSize p).toNat + k)) = desc.item := by
    funext k
    rw [zero_mul, zero_add]
  by_cases henough :
      p.transLen.toNat ≤ (calLliSize desc.toDmaTransfer).toNat * (maxTransSize p).toNat
  · obtain ⟨blocks, hblocks, hitems, hsizes⟩ :=
      single_follow hp h _ hstart hp.transLen henough (le_of_eq hfuel.symm)
    rw [hitem] at hitems
    constructor
    · rintro ⟨blocks', hblocks', hmoves⟩
      obtain rfl := some.inj (hblocks.symm.trans hblocks')
      have hlengths := congrArg List.length (hitems.symm.trans hmoves.items)
      rw [length_map, length_map, length_range, length_range] at hlengths
      exact ⟨BitVec.eq_of_toNat_eq hlengths.symm, henough⟩
    · rintro ⟨hsame, -⟩
      refine ⟨blocks, hblocks, ?_, hsizes⟩
      rw [hitems, hsame]
  · refine ⟨?_, fun hcond => absurd hcond.2 henough⟩
    rintro ⟨blocks, hblocks, -⟩
    have hnone : follow (·.lliLast) (singleTable p desc) (singleTable p desc).length 0 = none :=
      single_follow_none hp h _ hstart (Nat.lt_of_not_le henough)
    exact absurd (hnone.symm.trans hblocks) (some_ne_none blocks).symm

/-! ## The ring -/

theorem cyclic_follow (p : BlockTransfer) (n : Nat) {periods i fuel : Nat}
    (hperiods : i + n = periods) (hn : 0 < n) (hfuel : n ≤ fuel) :
    follow (·.llpLo = some 0) ((List.range periods).map (cyclicBlock p periods)) fuel i =
      some ((List.range n).map fun k => (cyclicBlock p periods (i + k)).moves) := by
  induction n generalizing i fuel with
  | zero => exact absurd hn (lt_irrefl 0)
  | succ n ih =>
    obtain ⟨fuel, rfl⟩ := exists_eq_add_one_of_ne_zero (Nat.ne_zero_of_lt hfuel)
    have hget : ((List.range periods).map (cyclicBlock p periods))[i]? =
        some (cyclicBlock p periods i) := by
      rw [getElem?_map, getElem?_range (by omega)]
      rfl
    unfold follow
    rw [hget, bind_some]
    by_cases hlast : i + 1 = periods
    · have hllp : (cyclicBlock p periods i).llpLo = some 0 := if_pos hlast
      have hzero : n = 0 := by omega
      subst hzero
      rw [if_pos (decide_eq_true hllp)]
      rfl
    · have hllp : (cyclicBlock p periods i).llpLo = some (i + 1) := if_neg hlast
      have hne : decide ((cyclicBlock p periods i).llpLo = some 0) = false := by
        rw [hllp]
        rfl
      rw [if_neg (Bool.eq_false_iff.mp hne), hllp, bind_some,
        ih (i := i + 1) (by omega) (by omega) (le_of_succ_le_succ hfuel), map_some,
        range_succ_eq_map, map_cons, List.map_map]
      congr 3
      funext k
      show (cyclicBlock p periods (i + 1 + k)).moves = (cyclicBlock p periods (i + (k + 1))).moves
      rw [add_right_comm, add_assoc]

theorem items_flatten (f : Nat → Move) (size periods : Nat) :
    ((List.range periods).map fun i =>
        (List.range size).map fun k => f (i * size + k)).flatten =
      (List.range (periods * size)).map f := by
  induction periods with
  | zero =>
    rw [zero_mul]
    rfl
  | succ periods ih =>
    rw [range_succ, map_append, flatten_append, ih, add_mul, one_mul,
      range_add, map_append, List.map_map]
    congr 1
    exact append_nil _

theorem width_eq_of_address {start len : BitVec 32} (hlen : len ≠ 0) (hshort : len ≤ descTransSize)
    {srcWidth dstWidth : Nat} (hsrc : srcWidth ≤ 2) (hdst : dstWidth ≤ 2)
    (heq : itemAddress false (blockAddress .inc start 1 len dstWidth) srcWidth 0 =
      itemAddress false start srcWidth len.toNat) : dstWidth = srcWidth := by
  have hpos : len.toNat ≠ 0 := fun hzero => hlen (BitVec.eq_of_toNat_eq hzero)
  have hle : len.toNat ≤ 2048 := hshort
  have hsame : len * 1#32 <<< dstWidth = len * 1#32 <<< srcWidth := by
    have hadd : start + 1#32 * len * 1#32 <<< dstWidth + 0#32 * 1#32 <<< srcWidth =
        start + BitVec.ofNat 32 len.toNat * 1#32 <<< srcWidth := heq
    rw [BitVec.ofNat_toNat, BitVec.setWidth_eq, BitVec.one_mul, BitVec.zero_mul,
      BitVec.add_zero] at hadd
    exact (BitVec.add_right_inj start).mp hadd
  have hnat := congrArg BitVec.toNat hsame
  rw [BitVec.toNat_mul, BitVec.toNat_mul] at hnat
  have hshift : ∀ width ≤ 2, (1#32 <<< width).toNat = 2 ^ width := by decide
  rw [hshift _ hsrc, hshift _ hdst] at hnat
  have hsmall : ∀ width ≤ 2, len.toNat * 2 ^ width < 2 ^ 32 := by
    intro width hwidth
    have hpow : 2 ^ width ≤ 2 ^ 2 := Nat.pow_le_pow_right (by decide) hwidth
    have hmul := Nat.mul_le_mul hle hpow
    omega
  rw [mod_eq_of_lt (hsmall _ hsrc), mod_eq_of_lt (hsmall _ hdst)] at hnat
  exact Nat.pow_right_injective (Nat.le_refl 2)
    (Nat.eq_of_mul_eq_mul_left (Nat.pos_of_ne_zero hpos) hnat)

/-- A lap of the ring moves the transfer exactly if a block is not too long for a descriptor, and
the blocks are of the width of the items or all at one place. -/
theorem cyclic_moves_iff (h : Admitted p) (hperiod : p.periodLen ≠ 0)
    (hmod : p.transLen % p.periodLen = 0) :
    (∃ blocks, follow (·.llpLo = some 0) (cyclicTable p) (cyclicTable p).length 0 = some blocks ∧
      MovesAll p blocks) ↔
    p.periodLen ≤ descTransSize ∧
      (p.periodLen = p.transLen ∨ p.dstIncMode = .fix ∨ p.dstWidth = p.srcWidth) := by
  have hdiv : (p.transLen / p.periodLen).toNat = p.transLen.toNat / p.periodLen.toNat :=
    BitVec.toNat_udiv
  have hrest : p.transLen.toNat % p.periodLen.toNat = 0 := by
    rw [← BitVec.toNat_umod, hmod]
    rfl
  have hsize : p.periodLen.toNat ≠ 0 := fun hzero => hperiod (BitVec.eq_of_toNat_eq hzero)
  have hlen : p.transLen.toNat ≠ 0 := fun hzero => h.transLen (BitVec.eq_of_toNat_eq hzero)
  obtain ⟨periods, hperiods⟩ := dvd_of_mod_eq_zero hrest
  have hcount : (p.transLen / p.periodLen).toNat = periods := by
    rw [hdiv, hperiods, Nat.mul_div_cancel_left _ (Nat.pos_of_ne_zero hsize)]
  have hpos : 0 < periods := by
    rw [Nat.pos_iff_ne_zero]
    rintro rfl
    exact hlen hperiods
  have htable : cyclicTable p = (List.range periods).map (cyclicBlock p periods) := by
    unfold cyclicTable
    rw [hcount]
  have hlength : (cyclicTable p).length = periods := by
    rw [htable, length_map, length_range]
  have hfollow := cyclic_follow p periods (zero_add periods) hpos (le_refl periods)
  have hblock : ∀ i, (cyclicBlock p periods (0 + i)).moves.length = p.periodLen.toNat := by
    intro i
    have hts : (p.periodLen - 1).toNat + 1 = p.periodLen.toNat := by
      show (2 ^ 32 - 1 + p.periodLen.toNat) % 2 ^ 32 + 1 = _
      omega
    rw [AxiDmaLli.moves, length_map, length_range]
    exact hts
  rw [hlength, htable, hfollow]
  constructor
  · rintro ⟨blocks, hblocks, hmoves⟩
    obtain rfl := some.inj hblocks
    have hshort : p.periodLen ≤ descTransSize := by
      have hle := hmoves.sizes (cyclicBlock p periods (0 + 0)).moves
        (List.mem_map.mpr ⟨0, mem_range.mpr hpos, rfl⟩)
      rw [hblock] at hle
      exact hle
    refine ⟨hshort, ?_⟩
    by_contra hother
    rw [not_or, not_or] at hother
    obtain ⟨hmany, hdst, hwidth⟩ := hother
    have hinc : p.dstIncMode = .inc := by
      cases hmode : p.dstIncMode with
      | inc => rfl
      | dec => exact absurd hmode h.dstIncMode
      | fix => exact absurd hmode hdst
    obtain ⟨more, rfl⟩ : ∃ more, periods = more + 2 := by
      refine ⟨periods - 2, ?_⟩
      have hone : periods ≠ 1 := by
        rintro rfl
        rw [mul_one] at hperiods
        exact hmany (BitVec.eq_of_toNat_eq hperiods.symm)
      omega
    -- the first item of the second block
    have hitems := congrArg (·[p.periodLen.toNat]?) hmoves.items
    have hright : ((List.range p.transLen.toNat).map p.item)[p.periodLen.toNat]? =
        some (p.item p.periodLen.toNat) := by
      have hin : p.periodLen.toNat < p.transLen.toNat := by
        rw [hperiods, mul_add]
        omega
      rw [getElem?_map, getElem?_range hin]
      rfl
    rw [hright, range_succ_eq_map, range_succ_eq_map, map_cons, map_cons, map_cons, flatten_cons,
      flatten_cons, getElem?_append_right (Nat.le_of_eq (hblock 0)), hblock, Nat.sub_self,
      getElem?_append_left (Nat.lt_of_lt_of_eq (Nat.pos_of_ne_zero hsize) (hblock 1).symm),
      AxiDmaLli.moves, getElem?_map, getElem?_range (succ_pos _)] at hitems
    have hitem := some.inj hitems
    have haddress : itemAddress (p.dstIncMode ≠ .inc)
        (blockAddress p.dstIncMode p.dstAdd 1 p.periodLen p.dstWidth) p.srcWidth 0 =
        itemAddress (p.dstIncMode ≠ .inc) p.dstAdd p.srcWidth p.periodLen.toNat :=
      congrArg Move.dst hitem
    rw [hinc] at haddress
    exact hwidth (width_eq_of_address hperiod hshort h.srcWidth h.dstWidth haddress)
  · rintro ⟨hshort, hways⟩
    refine ⟨_, rfl, ?_, fun block hmem => ?_⟩
    · rw [hperiods, mul_comm, ← items_flatten]
      congr 1
      refine map_congr_left fun i hi => ?_
      refine block_moves h hperiod rfl ?_ ?_ rfl rfl rfl
      · rw [zero_add]
        rfl
      · show blockAddress p.dstIncMode p.dstAdd (0 + i) p.periodLen p.dstWidth = _
        rw [zero_add]
        rcases hways with hall | hfix | hsame
        · -- there is one block only
          rw [hall] at hperiods
          have hone : periods = 1 := by
            have hmul : p.transLen.toNat * periods = p.transLen.toNat * 1 := by omega
            exact Nat.eq_of_mul_eq_mul_left (Nat.pos_of_ne_zero hlen) hmul
          have hzero : i = 0 := by
            have hlt := mem_range.mp hi
            omega
          subst hzero
          unfold blockAddress
          rw [BitVec.zero_mul, BitVec.zero_mul, BitVec.zero_mul]
        · rw [hfix]
          rfl
        · rw [hsame]
    · obtain ⟨i, -, rfl⟩ := List.mem_map.mp hmem
      rw [hblock]
      exact hshort

/-- What the controller moves are the transfers, in the single chains and in one lap of the ring,
exactly if every queued transfer is as long as the new one with enough descriptors for its blocks,
and a ring that the assertion admits has blocks of the width of the items, or only one block, or one
destination, and no block is too long for a descriptor. -/
theorem blocks_ok_iff {queue : List BlockTransfer} (hqueue : ∀ desc ∈ queue, Admitted desc)
    (h : Admitted p) :
    BlocksOk queue p ↔
      (∀ desc ∈ queue, desc.transLen = p.transLen ∧
        p.transLen.toNat ≤ (calLliSize desc.toDmaTransfer).toNat * (maxTransSize p).toNat) ∧
      (p.periodLen ≠ 0 → p.transLen % p.periodLen = 0 →
        p.periodLen ≤ descTransSize ∧
          (p.periodLen = p.transLen ∨ p.dstIncMode = .fix ∨ p.dstWidth = p.srcWidth)) := by
  constructor
  · intro hok
    refine ⟨fun desc hdesc => ?_, fun hperiod hmod => ?_⟩
    · have hmoves := hok.single desc (mem_append_left _ hdesc)
      exact (chain_moves_iff h (hqueue desc hdesc)).mp hmoves
    · exact (cyclic_moves_iff h hperiod hmod).mp (hok.cyclic hperiod hmod)
  · rintro ⟨hlengths, hring⟩
    refine ⟨fun desc hdesc => ?_, fun hperiod hmod => ?_⟩
    · rcases mem_append.mp hdesc with hqueued | hnew
      · exact (chain_moves_iff h (hqueue desc hqueued)).mpr (hlengths desc hqueued)
      · obtain rfl := mem_singleton.mp hnew
        exact (chain_moves_iff h h).mpr ⟨rfl, cal_lli_size_enough desc⟩
    · exact (cyclic_moves_iff h hperiod hmod).mpr (hring hperiod hmod)

/-- 8 items in two periods. -/
def someBlocks (srcWidth dstWidth : Nat) : BlockTransfer where
  channelNumber := 0
  transLen := 8
  periodLen := 4
  lliSize := 0
  actualLliSize := 0
  firstLli := none
  srcAdd := 0x1000
  dstAdd := 0x2000
  srcWidth := srcWidth
  dstWidth := dstWidth
  srcIncMode := .inc
  dstIncMode := .inc
  srcReloadFlag := false
  dstReloadFlag := false

theorem some_blocks_ok : BlocksOk [someBlocks 1 2] (someBlocks 2 2) := by
  have hadmitted : ∀ width ≤ 2, Admitted (someBlocks width 2) := fun width hwidth =>
    ⟨(by decide : (8#32) ≠ 0), nofun, nofun, rfl, rfl, hwidth, le_refl 2⟩
  refine (blocks_ok_iff ?_ (hadmitted 2 (le_refl 2))).mpr ⟨?_, fun _ _ => ?_⟩
  · exact forall_mem_singleton.mpr (hadmitted 1 (by decide))
  · exact forall_mem_singleton.mpr ⟨rfl, by decide⟩
  · exact ⟨by decide, .inr (.inr rfl)⟩

/-- Bytes that are written as words leave a gap between the periods. -/
theorem narrow_source_gap : ¬ BlocksOk [] (someBlocks 0 2) := by
  intro hok
  obtain ⟨blocks, hblocks, hmoves⟩ := hok.cyclic (by decide) (by decide)
  have hwritten : (follow (·.llpLo = some 0) (cyclicTable (someBlocks 0 2))
      (cyclicTable (someBlocks 0 2)).length 0).map (fun blocks => blocks.flatten.map Move.dst) =
        some [0x2000, 0x2001, 0x2002, 0x2003, 0x2010, 0x2011, 0x2012, 0x2013] := by
    decide +kernel
  rw [hblocks, map_some, hmoves.items] at hwritten
  exact absurd hwritten (by decide +kernel)

end FullhanRtos.Dma
