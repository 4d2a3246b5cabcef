import FullhanRtos.Loader.FlashLoad

/-!
# The room for a code image

How much `load_code` writes at the code base, for an image that is copied, and for one that `unlzo`
or `inflate` decompresses. The capacity is in `ram_size`. The thread that copies or decompresses
passes the address of `ram_size` for the length of the output, and a copied image has no
`code_size`, so what is compared in the end says something about `inflate` and `unlzo` only.

`lzo1x_decompress_safe` and `inflate` are parameters. `error` of `unlzo` is `gunzip_report`, which
does not return.
-/

namespace FullhanRtos.Loader

open List Option

/-! ## The decompressors -/

/-- `lzo1x_decompress_safe` with the input, its length and the room of a block: the code that it
returns and what it has written. `inflateInit2`, and one call of `inflate` with the room that is
left. -/
structure Decompressors (ζ : Type) where
  lzo1xDecompressSafe : (Nat → UInt8) → Nat → Nat → Int × List UInt8
  inflateInit2 : (Nat → UInt8) → Nat → Option ζ
  inflate : ζ → Nat → Int × List UInt8 × ζ

/-- `inflate` writes no more than there is room for. -/
def Decompressors.Safe {ζ : Type} (lib : Decompressors ζ) : Prop :=
  ∀ strm room, (lib.inflate strm room).2.1.length ≤ room

def lzoEOk : Int := 0
def zOk : Int := 0
def zStreamEnd : Int := 1

def lzoBlockSize : Nat := 256 * 1024
def headerSizeMin : Int := 9 + 7 + 4 + 8 + 1 + 4

def lzopMagic : List UInt8 := [0x89, 0x4c, 0x5a, 0x4f, 0x00, 0x0d, 0x0a, 0x1a, 0x0a]

def getBe16 (input : Nat → UInt8) (p : Nat) : Nat := (input p).toNat * 2 ^ 8 + (input (p + 1)).toNat

def getBe32 (input : Nat → UInt8) (p : Nat) : Nat :=
  getBe16 input p * 2 ^ 16 + getBe16 input (p + 2)

def parseHeader (input : Nat → UInt8) (inLen : Int) : Option Nat :=
  if inLen < headerSizeMin then none
  else if (List.range 9).map input ≠ lzopMagic then none
  else
    let version := getBe16 input 9
    let parse := if 0x0940 ≤ version then 17 else 16
    let parse := if getBe32 input parse / 0x800 % 2 = 1 then parse + 8 else parse + 4
    if inLen - parse < 8 + 1 + 4 then none
    else
      let parse := if 0x0940 ≤ version then parse + 12 else parse + 8
      let l := (input parse).toNat
      let parse := parse + 1
      if inLen - parse < l + 4 then none else some (parse + l + 4)

def bytesAt (input : Nat → UInt8) (p n : Nat) : List UInt8 :=
  (List.range n).map fun k => input (p + k)

variable {ζ : Type} (lib : Decompressors ζ)

def unlzoBlock (input : Nat → UInt8) (p srcLen dstLen : Nat) : Option (List UInt8) :=
  if dstLen = srcLen then some (bytesAt input p srcLen)
  else
    let (r, block) := lib.lzo1xDecompressSafe (fun k => input (p + k)) srcLen dstLen
    if r % 256 ≠ lzoEOk ∨ dstLen ≠ block.length then none else some block

/-- A round of the loop of `unlzo`, with at least 4 bytes left: the last block, or the length of the
next one with what it holds, which is `dst_len` bytes. -/
def unlzoRound (input : Nat → UInt8) (inLen p : Nat) : Option (Option (Nat × List UInt8)) :=
  let dstLen := getBe32 input p
  if dstLen = 0 then some none
  else if lzoBlockSize < dstLen then none
  else if inLen - 4 < 8 then none
  else
    let srcLen := getBe32 input (p + 4)
    if srcLen = 0 ∨ dstLen < srcLen then none
    else if inLen - 12 < srcLen then none
    else (unlzoBlock lib input (p + 12) srcLen dstLen).map fun block => some (srcLen, block)

def unlzoLoop (round : Nat → Nat → Option (Option (Nat × List UInt8))) (inLen p : Nat)
    (out : List UInt8) (lento : BitVec 32) : Option (List UInt8 × BitVec 32) :=
  if _hleft : inLen < 4 then none
  else
    match round inLen p with
    | none => none
    | some none => some (out, lento)
    | some (some (srcLen, block)) =>
      unlzoLoop round (inLen - 12 - srcLen) (p + 12 + srcLen) (out ++ block)
        (lento + BitVec.ofNat 32 block.length)
termination_by inLen
decreasing_by omega

/-- `unlzo` from memory to memory; `none` when it halts in `error`. -/
def unlzo (input : Nat → UInt8) (inLen : BitVec 32) : Option (List UInt8 × BitVec 32) :=
  (parseHeader input inLen.toInt).bind fun skip =>
    unlzoLoop (unlzoRound lib input) (inLen.toNat - skip) skip [] 0

/-- The loop of `fh_unzip`, for a number of calls. It halts at an error. -/
def inflateLoop : Nat → ζ → Nat → List UInt8 → Option (List UInt8)
  | 0, _, _, _ => none
  | calls + 1, strm, availOut, out =>
    let (ret, more, strm) := lib.inflate strm availOut
    if ret ≠ zOk ∧ ret ≠ zStreamEnd then none
    else if ret = zStreamEnd then some (out ++ more)
    else inflateLoop calls strm (availOut - more.length) (out ++ more)

/-! ## The thread -/

/-- What `fbv_decompress` leaves: `ram_size`, `code_size` and what is at `ram_addr`. -/
structure Decompressed where
  ramSize : BitVec 32
  codeSize : BitVec 32
  code : List UInt8

/-- What is read from flash, what `__get_code_part_idx`, `rt_memalign` and `rt_thread_create`
return, and what is in the RAM buffer when the thread runs: `loadedSize` when it starts, and whether
the loop of `copy_mem_code` ends. -/
structure LoadInput where
  partIdx : Option Nat
  headerMem : Bool
  header : CodeHeader
  sflOffset : BitVec 32
  bufferMem : Bool
  thread : Bool
  buffer : Nat → UInt8
  loadedSize : Nat
  copyEnds : Bool

/-- `fbv_dec_thrd`; `none` when it does not come to an end. -/
def fbvDecompress (load : LoadInput) (info : CodeLoader) (ramSize : BitVec 32) (calls : Nat) :
    Option Decompressed :=
  if info.compressed = cryptoNone then
    if load.copyEnds then
      some ⟨BitVec.ofNat 32 info.ldsize, 0, bytesAt load.buffer 0 info.ldsize⟩
    else none
  else if info.compressed = cryptoLzo then
    (unlzo lib load.buffer (BitVec.ofNat 32 info.ldsize)).map fun (code, codeSize) =>
      ⟨ramSize, codeSize, code⟩
  else if info.compressed = cryptoGzip then
    match lib.inflateInit2 load.buffer load.loadedSize with
    | none => some ⟨ramSize, 0, []⟩
    | some strm =>
      (inflateLoop lib calls strm ramSize.toNat []).map fun code =>
        ⟨ramSize, BitVec.ofNat 32 code.length, code⟩
  else some ⟨ramSize, 0, []⟩

/-- The end of `load_code`, with `RT_EFULL`. -/
def finish (result : Decompressed) : Int × List UInt8 :=
  if result.ramSize < result.codeSize then (-3, result.code) else (0, result.code)

def loadCode (load : LoadInput) (csize : BitVec 32) (calls : Nat) : Option (Int × List UInt8) :=
  if load.partIdx = none then some (-6, [])
  else if load.headerMem = false then some (-6, [])
  else
    match getCodePartInfo load.sflOffset load.header with
    | .error _ => some (-6, [])
    | .ok info =>
      if info.ldsize = 0 then some (0, [])
      else if load.bufferMem = false then some (-12, [])
      else if load.thread = false then none
      else
        (fbvDecompress lib load info csize calls).map finish

/-! ## What should hold -/

/-- When `load_code` returns 0 it has written no more than the capacity. -/
def WithinCapacity (load : LoadInput) (csize : BitVec 32) : Prop :=
  ∀ calls code, loadCode lib load csize calls = some (0, code) → code.length ≤ csize.toNat

/-- The image that the thread works on. -/
def LoadInput.image (load : LoadInput) : Option CodeLoader :=
  if load.partIdx ≠ none ∧ load.headerMem ∧ load.bufferMem ∧ load.thread then
    (getCodePartInfo load.sflOffset load.header).toOption.filter fun info => info.ldsize ≠ 0
  else none

def blockLengths (input : Nat → UInt8) (inLen p : Nat) : List Nat :=
  if _hend : inLen < 12 ∨ getBe32 input p = 0 then []
  else
    let srcLen := getBe32 input (p + 4)
    getBe32 input p :: blockLengths input (inLen - 12 - srcLen) (p + 12 + srcLen)
termination_by inLen
decreasing_by omega

def lzoLength (input : Nat → UInt8) (inLen : BitVec 32) : Nat :=
  ((parseHeader input inLen.toInt).elim [] fun skip =>
    blockLengths input (inLen.toNat - skip) skip).sum

/-- A copied image is not longer than the capacity, and the length of an LZO stream that is in order
does not wrap to one that is. -/
structure Fits (load : LoadInput) (csize : BitVec 32) (info : CodeLoader) : Prop where
  copied : info.compressed = cryptoNone → load.copyEnds = true → info.ldsize ≤ csize.toNat
  lzo : info.compressed = cryptoLzo →
    (unlzo lib load.buffer (BitVec.ofNat 32 info.ldsize)).isSome →
    lzoLength load.buffer (BitVec.ofNat 32 info.ldsize) < 2 ^ 32 ∨
      csize.toNat < lzoLength load.buffer (BitVec.ofNat 32 info.ldsize) % 2 ^ 32

/-! ## The decompressors keep to their lengths -/

variable {lib} {input : Nat → UInt8} {load : LoadInput} {csize : BitVec 32} {info : CodeLoader}
  {block : List UInt8} {code : List UInt8} {inLen p : Nat} {calls : Nat}

theorem unlzo_block_length {p srcLen dstLen : Nat}
    (h : unlzoBlock lib input p srcLen dstLen = some block) : block.length = dstLen := by
  unfold unlzoBlock at h
  by_cases hstored : dstLen = srcLen
  · rw [if_pos hstored] at h
    obtain rfl := some.inj h
    rw [bytesAt, length_map, length_range, hstored]
  · rw [if_neg hstored] at h
    obtain ⟨hchecked, hblock⟩ := ite_none_left_eq_some.mp h
    obtain rfl := some.inj hblock
    exact (not_ne_iff.mp (not_or.mp hchecked).2).symm

theorem unlzo_round_more {inLen p srcLen : Nat}
    (h : unlzoRound lib input inLen p = some (some (srcLen, block))) :
    getBe32 input p ≠ 0 ∧ 12 ≤ inLen ∧ srcLen = getBe32 input (p + 4) ∧
      block.length = getBe32 input p := by
  unfold unlzoRound at h
  by_cases hlast : getBe32 input p = 0
  · rw [if_pos hlast] at h
    cases h
  · rw [if_neg hlast] at h
    obtain ⟨-, h⟩ := ite_none_left_eq_some.mp h
    obtain ⟨hsecond, h⟩ := ite_none_left_eq_some.mp h
    obtain ⟨-, h⟩ := ite_none_left_eq_some.mp h
    obtain ⟨-, h⟩ := ite_none_left_eq_some.mp h
    obtain ⟨block', hblock, heq⟩ := map_eq_some_iff.mp h
    obtain ⟨rfl, rfl⟩ := Prod.mk.inj (some.inj heq)
    exact ⟨hlast, by omega, rfl, unlzo_block_length hblock⟩

theorem unlzo_round_last (h : unlzoRound lib input inLen p = some none) :
    getBe32 input p = 0 := by
  by_contra hmore
  unfold unlzoRound at h
  rw [if_neg hmore] at h
  obtain ⟨-, h⟩ := ite_none_left_eq_some.mp h
  obtain ⟨-, h⟩ := ite_none_left_eq_some.mp h
  obtain ⟨-, h⟩ := ite_none_left_eq_some.mp h
  obtain ⟨-, h⟩ := ite_none_left_eq_some.mp h
  obtain ⟨block, -, heq⟩ := map_eq_some_iff.mp h
  cases heq

theorem unlzo_loop_length {out out' : List UInt8} {lento lento' : BitVec 32}
    (h : unlzoLoop (unlzoRound lib input) inLen p out lento = some (out', lento')) :
    out'.length = out.length + (blockLengths input inLen p).sum ∧
      lento' = lento + BitVec.ofNat 32 (blockLengths input inLen p).sum := by
  induction inLen using Nat.strongRecOn generalizing p out lento with
  | ind inLen ih =>
    rw [unlzoLoop] at h
    obtain ⟨hleft, h⟩ := dite_none_left_eq_some.mp h
    cases hround : unlzoRound lib input inLen p with
    | none =>
      rw [hround] at h
      cases h
    | some more =>
      rw [hround] at h
      cases more with
      | none =>
        obtain ⟨rfl, rfl⟩ := Prod.mk.inj (some.inj h)
        rw [blockLengths, dif_pos (.inr (unlzo_round_last hround))]
        exact ⟨rfl, (BitVec.add_zero lento).symm⟩
      | some next =>
        obtain ⟨srcLen, block⟩ := next
        obtain ⟨hmore, hheader, rfl, hblock⟩ := unlzo_round_more hround
        obtain ⟨hlen, hlento⟩ := ih _ (by omega) h
        rw [blockLengths, dif_neg (not_or.mpr ⟨Nat.not_lt.mpr hheader, hmore⟩), sum_cons]
        constructor
        · rw [hlen, length_append, hblock, Nat.add_assoc]
        · rw [hlento, hblock, BitVec.ofNat_add, BitVec.add_assoc]

theorem unlzo_length {inLen codeSize : BitVec 32}
    (h : unlzo lib input inLen = some (code, codeSize)) :
    code.length = lzoLength input inLen ∧ codeSize = BitVec.ofNat 32 (lzoLength input inLen) := by
  obtain ⟨skip, hskip, hloop⟩ := bind_eq_some_iff.mp h
  obtain ⟨hlen, hlento⟩ := unlzo_loop_length hloop
  unfold lzoLength
  rw [hskip, elim_some]
  refine ⟨?_, ?_⟩
  · rw [hlen, length_nil, Nat.zero_add]
  · rw [hlento]
    exact BitVec.zero_add _

theorem inflate_loop_succ (calls : Nat) (strm : ζ) (availOut : Nat) (out : List UInt8) :
    inflateLoop lib (calls + 1) strm availOut out =
      let call := lib.inflate strm availOut
      if call.1 ≠ zOk ∧ call.1 ≠ zStreamEnd then none
      else if call.1 = zStreamEnd then some (out ++ call.2.1)
      else inflateLoop lib calls call.2.2 (availOut - call.2.1.length) (out ++ call.2.1) :=
  rfl

/-- `inflate` writes into the room that is left. -/
theorem inflate_loop_length (hsafe : lib.Safe) {strm : ζ} {availOut : Nat} {out code : List UInt8}
    (h : inflateLoop lib calls strm availOut out = some code) :
    code.length ≤ out.length + availOut := by
  induction calls generalizing strm availOut out with
  | zero => cases h
  | succ calls ih =>
    have hroom := hsafe strm availOut
    rw [inflate_loop_succ] at h
    obtain ⟨-, h⟩ := ite_none_left_eq_some.mp h
    by_cases hend : (lib.inflate strm availOut).1 = zStreamEnd
    · rw [if_pos hend] at h
      obtain rfl := some.inj h
      rw [length_append]
      omega
    · rw [if_neg hend] at h
      have hrest := ih h
      rw [length_append] at hrest
      omega

/-! ## The capacity -/

theorem load_code_cases (lib : Decompressors ζ) (load : LoadInput) (csize : BitVec 32)
    (calls : Nat) : (∃ info, load.image = some info ∧
      loadCode lib load csize calls = (fbvDecompress lib load info csize calls).map finish) ∨
    load.image = none ∧
      ∀ ret code, loadCode lib load csize calls = some (ret, code) → code = [] := by
  have hnothing : ∀ (ret ret' : Int) (code : List UInt8), some (ret, ([] : List UInt8)) =
      some (ret', code) → code = [] := by
    intro ret ret' code heq
    exact (Prod.mk.inj (some.inj heq)).2.symm
  unfold loadCode LoadInput.image
  by_cases hpart : load.partIdx = none
  · rw [if_pos hpart, if_neg fun hok => hok.1 hpart]
    exact .inr ⟨rfl, hnothing _⟩
  rw [if_neg hpart]
  by_cases hheader : load.headerMem = false
  · rw [if_pos hheader, if_neg fun hok => Bool.false_ne_true (hheader.symm.trans hok.2.1)]
    exact .inr ⟨rfl, hnothing _⟩
  rw [if_neg hheader]
  cases hinfo : getCodePartInfo load.sflOffset load.header with
  | error code =>
    refine .inr ⟨?_, hnothing _⟩
    split_ifs <;> rfl
  | ok info =>
    dsimp only [Except.toOption]
    by_cases hempty : info.ldsize = 0
    · rw [if_pos hempty]
      refine .inr ⟨?_, hnothing _⟩
      have hnone : (some info).filter (fun info => info.ldsize ≠ 0) = none := by
        rw [filter_some, hempty]
        rfl
      rw [hnone, ite_self]
    rw [if_neg hempty]
    by_cases hbuffer : load.bufferMem = false
    · rw [if_pos hbuffer, if_neg fun hok => Bool.false_ne_true (hbuffer.symm.trans hok.2.2.1)]
      exact .inr ⟨rfl, hnothing _⟩
    rw [if_neg hbuffer]
    by_cases hthread : load.thread = false
    · rw [if_pos hthread, if_neg fun hok => Bool.false_ne_true (hthread.symm.trans hok.2.2.2)]
      exact .inr ⟨rfl, nofun⟩
    rw [if_neg hthread, if_pos ⟨hpart, Bool.not_eq_false _ ▸ hheader,
      Bool.not_eq_false _ ▸ hbuffer, Bool.not_eq_false _ ▸ hthread⟩]
    refine .inl ⟨info, ?_, rfl⟩
    rw [filter_some, if_pos (decide_eq_true hempty)]

/-- The paths of the thread: a copied image is as long as `szcode`, an LZO stream as long as its
blocks say, and the others fit. -/
theorem copied_finish (hcopy : info.compressed = cryptoNone) (calls : Nat) :
    (fbvDecompress lib load info csize calls).map finish =
      if load.copyEnds then some (0, bytesAt load.buffer 0 info.ldsize) else none := by
  unfold fbvDecompress
  rw [if_pos hcopy]
  by_cases hends : load.copyEnds = true
  · rw [if_pos hends, if_pos hends, map_some]
    exact congrArg some (if_neg (BitVec.not_lt_zero))
  · rw [if_neg hends, if_neg hends]
    rfl

theorem lzo_finish (hlzo : info.compressed = cryptoLzo) (calls : Nat) :
    (fbvDecompress lib load info csize calls).map finish =
      (unlzo lib load.buffer (BitVec.ofNat 32 info.ldsize)).map fun (code, codeSize) =>
        finish ⟨csize, codeSize, code⟩ := by
  unfold fbvDecompress
  rw [if_neg (by rw [hlzo]; decide), if_pos hlzo, Option.map_map]
  rfl

theorem other_finish (hsafe : lib.Safe) (hcopy : info.compressed ≠ cryptoNone)
    (hlzo : info.compressed ≠ cryptoLzo) {ret : Int}
    (h : (fbvDecompress lib load info csize calls).map finish = some (ret, code)) :
    code.length ≤ csize.toNat := by
  have hcode : ∀ result, finish result = (ret, code) → code = result.code := by
    intro result hresult
    unfold finish at hresult
    split_ifs at hresult
    · exact (Prod.mk.inj hresult).2.symm
    · exact (Prod.mk.inj hresult).2.symm
  unfold fbvDecompress at h
  rw [if_neg hcopy, if_neg hlzo] at h
  by_cases hgzip : info.compressed = cryptoGzip
  · rw [if_pos hgzip] at h
    cases hinit : lib.inflateInit2 load.buffer load.loadedSize with
    | none =>
      rw [hinit] at h
      rw [hcode _ (some.inj h)]
      exact Nat.zero_le _
    | some strm =>
      rw [hinit] at h
      rw [Option.map_map] at h
      obtain ⟨out, hout, hresult⟩ := map_eq_some_iff.mp h
      have hlen := inflate_loop_length hsafe hout
      rw [length_nil, Nat.zero_add] at hlen
      rw [hcode _ hresult]
      exact hlen
  · rw [if_neg hgzip] at h
    rw [hcode _ (some.inj h)]
    exact Nat.zero_le _

/-- What is written for an image fits exactly if a copied image does and the length of an LZO stream
does not wrap. -/
theorem finish_within_iff (hsafe : lib.Safe) :
    (∀ calls code, (fbvDecompress lib load info csize calls).map finish = some (0, code) →
      code.length ≤ csize.toNat) ↔ Fits lib load csize info := by
  by_cases hcopy : info.compressed = cryptoNone
  · have hother : info.compressed ≠ cryptoLzo := by
      rw [hcopy]
      decide
    simp only [copied_finish hcopy]
    constructor
    · intro hwithin
      refine ⟨fun _ hends => ?_, fun hlzo => absurd hlzo hother⟩
      have hfits := hwithin 0 _ (if_pos hends)
      rw [bytesAt, length_map, length_range] at hfits
      exact hfits
    · intro hfits _ code hcode
      obtain ⟨hends, hcode⟩ := ite_none_right_eq_some.mp hcode
      rw [← (Prod.mk.inj (some.inj hcode)).2, bytesAt, length_map, length_range]
      exact hfits.copied hcopy hends
  by_cases hlzo : info.compressed = cryptoLzo
  · simp only [lzo_finish hlzo]
    cases hunlzo : unlzo lib load.buffer (BitVec.ofNat 32 info.ldsize) with
    | none =>
      refine ⟨fun _ => ⟨fun hcopied => absurd hcopied hcopy, fun _ hsome => ?_⟩, fun _ => nofun⟩
      rw [hunlzo] at hsome
      cases hsome
    | some result =>
      obtain ⟨code, codeSize⟩ := result
      obtain ⟨hlen, hsize⟩ := unlzo_length hunlzo
      have htoNat : codeSize.toNat =
          lzoLength load.buffer (BitVec.ofNat 32 info.ldsize) % 2 ^ 32 := by
        rw [hsize]
        rfl
      rw [map_some]
      constructor
      · intro hwithin
        refine ⟨fun hcopied => absurd hcopied hcopy, fun _ _ => ?_⟩
        by_cases hless : csize < codeSize
        · right
          rw [← htoNat]
          exact hless
        · left
          have hfits := hwithin 0 code (congrArg some (if_neg hless))
          omega
      · intro hfits _ code' hcode
        have hless : ¬ csize < codeSize := by
          intro hless
          have hfull := some.inj hcode
          rw [finish, if_pos hless] at hfull
          exact absurd (Prod.mk.inj hfull).1 (by decide)
        have hsame := some.inj hcode
        rw [finish, if_neg hless] at hsame
        have hroom := hfits.lzo hlzo (by rw [hunlzo]; rfl)
        rw [BitVec.lt_def, htoNat] at hless
        rw [← (Prod.mk.inj hsame).2, hlen]
        rcases hroom with hsmall | hlarge
        · rw [Nat.mod_eq_of_lt hsmall] at hless
          omega
        · exact absurd hlarge hless
  · have hfits : Fits lib load csize info :=
      ⟨fun hcopied => absurd hcopied hcopy, fun hcompressed => absurd hcompressed hlzo⟩
    exact ⟨fun _ => hfits, fun _ _ _ => other_finish hsafe hcopy hlzo⟩

/-- `load_code` keeps to the capacity exactly if an image that it works on fits. -/
theorem load_within_iff (hsafe : lib.Safe) (load : LoadInput) (csize : BitVec 32) :
    WithinCapacity lib load csize ↔ ∀ info, load.image = some info → Fits lib load csize info := by
  constructor
  · intro hwithin info hinfo
    refine (finish_within_iff hsafe).mp fun calls code hcode => hwithin calls code ?_
    rcases load_code_cases lib load csize calls with ⟨info', himage, heq⟩ | ⟨hnone, -⟩
    · obtain rfl := some.inj (hinfo.symm.trans himage)
      exact heq.trans hcode
    · exact absurd (hinfo.symm.trans hnone) (some_ne_none info)
  · intro hfits calls code hcode
    rcases load_code_cases lib load csize calls with ⟨info, himage, heq⟩ | ⟨-, hnothing⟩
    · exact (finish_within_iff hsafe).mpr (hfits info himage) calls code (heq.symm.trans hcode)
    · rw [hnothing 0 code hcode]
      exact Nat.zero_le _

/-- An image of 8 bytes that is not compressed. -/
def plainImage : LoadInput where
  partIdx := some 0
  headerMem := true
  header := ⟨0xa7b4c9f8, 64, 8, 0⟩
  sflOffset := 0x1000
  bufferMem := true
  thread := true
  buffer _ := 0
  loadedSize := 8
  copyEnds := true

def corrupt : Decompressors Unit where
  lzo1xDecompressSafe _ _ _ := (-4, [])
  inflateInit2 _ _ := some ()
  inflate strm _ := (-3, [], strm)

theorem plain_image_within : WithinCapacity corrupt plainImage 8 := by
  refine (load_within_iff (fun _ _ => Nat.zero_le _) plainImage 8).mpr fun info hinfo => ?_
  obtain rfl := some.inj hinfo
  exact ⟨fun _ _ => Nat.le_refl 8, nofun⟩

/-- 8 bytes are copied to a memory of 4. -/
theorem plain_image_too_long : ¬ WithinCapacity corrupt plainImage 4 := by
  intro hwithin
  exact absurd (hwithin 0 (replicate 8 0) rfl) (by decide)

end FullhanRtos.Loader
