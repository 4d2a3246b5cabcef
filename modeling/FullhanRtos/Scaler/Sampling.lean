import FullhanRtos.Scaler.Resize

/-!
# What a resized plane samples

`resize_plane_ok`: every byte of the result is the blend at the positions that the 32-bit shift
gives, whichever lines the buffer holds when it is made. `resize_exact_iff` compares these positions
with the exact ones: they agree as long as the crop has less than 8192 columns and lines, where
sizes up to 65535 are accepted.
-/

namespace FullhanRtos.Scaler

open Bytes Faults Resample Word List Nat Option

variable {c i j p : Nat} {a : ResizeArgs} {crop : Crop} {dst : Nat → Byte} {size dstSize : Nat}

/-! ## Positions -/

theorem resize_scale_eq (size dstSize : Nat) :
    resizeScale size dstSize = step (2 ^ 19) (size % 8192) dstSize := by
  rw [resizeScale, step]
  congr 1
  omega

theorem resize_pos_eq (hi : i < dstSize) :
    resizePos size dstSize i = i * step (2 ^ 19) (size % 8192) dstSize := by
  rw [resizePos, resize_scale_eq]
  refine mul32_eq ?_
  rcases Nat.eq_zero_or_pos (size % 8192) with hzero | hpos
  · rw [hzero, step, Nat.zero_mul, Nat.zero_div, Nat.mul_zero]
    omega
  · have hlt := @mul_step_lt (2 ^ 19) _ _ _ (by omega) hpos hi
    omega

/-- The positions of a result with `c` samples together lie before the end of the crop. -/
theorem position_lt {size full dstSize : Nat} (hc : 0 < c) (hfull : 0 < full)
    (hle : size ≤ c * full) (hdst : dstSize % c = 0) (hi : i < dstSize / c) :
    i * step (2 ^ 19) size dstSize / 2 ^ 19 < full := by
  have hcount : dstSize = c * (dstSize / c) := (Nat.mul_div_cancel' (dvd_of_mod_eq_zero hdst)).symm
  have hstep : step (2 ^ 19) size dstSize ≤ step (2 ^ 19) full (dstSize / c) := by
    calc step (2 ^ 19) size dstSize ≤ step (2 ^ 19) (c * full) dstSize := step_le hle
      _ = c * (full * 2 ^ 19) / (c * (dstSize / c)) := by rw [step, mul_assoc, ← hcount]
      _ = step (2 ^ 19) full (dstSize / c) := Nat.mul_div_mul_left _ _ hc
  rw [Nat.div_lt_iff_lt_mul (by omega)]
  exact (Nat.mul_le_mul_left i hstep).trans_lt (mul_step_lt (by omega) hfull hi)

theorem fraction_lt (pos : Nat) : fraction pos < 64 := mod_lt _ (by omega)

/-- The sum of the products fits 32 bits and its quotient a byte. -/
theorem resize_sample_eq {fx fy : Nat} (hx : fx ≤ 64) (hy : fy ≤ 64) (p00 p10 p01 p11 : Byte) :
    (resizeSample (64 - fy) fy (64 - fx) fx p00 p10 p01 p11).toNat =
      blend 64 fx fy p00.toNat p10.toNat p01.toNat p11.toNat := by
  have hbyte : ∀ p : Byte, p.toNat ≤ 255 := fun p => le_of_lt_succ p.isLt
  have hle := sum_le hx hy (hbyte p00) (hbyte p10) (hbyte p01) (hbyte p11)
  rw [resizeSample, blend, BitVec.toNat_ofNat, mod_eq_of_lt (b := 2 ^ 32) (by omega)]
  exact mod_eq_of_lt (by omega)

/-! ## Lines -/

/-- The lines that are written to a plane, `row j` from `j * stride` on. -/
def written (row : Nat → List Byte) (stride : Nat) (dst : Nat → Byte) (n : Nat) : Nat → Byte :=
  (List.range n).foldl (fun dst j => writeLine dst (j * stride) (row j)) dst

theorem written_succ (row : Nat → List Byte) (stride : Nat) (dst : Nat → Byte) (n : Nat) :
    written row stride dst (n + 1) = writeLine (written row stride dst n) (n * stride) (row n) := by
  rw [written, range_succ, foldl_append]
  rfl

theorem written_at {row : Nat → List Byte} {stride n : Nat}
    (hrow : ∀ j < n, (row j).length ≤ stride) (hj : j < n) (hp : p < (row j).length) :
    written row stride dst n (j * stride + p) = (row j)[p] := by
  induction n with
  | zero => exact absurd hj (Nat.not_lt_zero j)
  | succ n ih =>
    rw [written_succ, writeLine]
    rcases Nat.lt_succ_iff_lt_or_eq.mp hj with hlt | rfl
    · have hnext : (j + 1) * stride ≤ n * stride := Nat.mul_le_mul_right stride hlt
      have hlen := hrow j hj
      rw [succ_mul] at hnext
      rw [if_neg (by omega)]
      exact ih (fun k hk => hrow k (lt_succ_of_lt hk)) hlt
    · rw [if_pos (Nat.le_add_right _ _), Nat.add_sub_cancel_left, getElem?_eq_getElem hp]
      rfl

theorem length_line (y : Nat) : (crop.line y).length = crop.width := by
  rw [Crop.line, length_map, length_range]

theorem fetch_line {y x : Nat} (hx : x < crop.width) :
    fetch (crop.line y) x = .ok (crop.at y x) := by
  rw [fetch_lt (by rwa [length_line])]
  congr 1
  rw [getElem_of_eq (Crop.line.eq_1 crop y), getElem_map, getElem_range]

theorem load_ok {y : Nat} (hy : y < crop.rows) : crop.load y = .ok (crop.line y) := by
  rw [Crop.load, check_lt hy]
  rfl

/-- The line behind `y`, or the last one. -/
def Crop.next (crop : Crop) (y : Nat) : Nat := min (y + 1) (crop.rows - 1)

def SwapBuf.holding (crop : Crop) (y : Nat) : SwapBuf :=
  ⟨some y, some (crop.next y), crop.line y, crop.line (crop.next y)⟩

/-- The buffer holds two lines that follow each other, or it is not used yet. -/
def SwapBuf.Loaded (crop : Crop) (buf : SwapBuf) : Prop :=
  (buf.nline0 = none ∧ buf.nline1 = none) ∨ ∃ y, buf = .holding crop y

/-- Both lines are there, whether they are read, moved or kept. -/
theorem need_ok {buf : SwapBuf} {y : Nat} (h : buf.Loaded crop) (hy : y < crop.rows) :
    buf.need crop y (crop.next y) = .ok (.holding crop y) := by
  have hnext : crop.next y < crop.rows := by
    rw [Crop.next]
    omega
  rw [SwapBuf.need, load_ok hy, load_ok hnext]
  rcases h with ⟨h0, h1⟩ | ⟨y', rfl⟩
  · rw [h0, h1, if_neg (Option.some_ne_none y).symm, if_pos (Option.some_ne_none y).symm]
    rfl
  · by_cases hmove : crop.next y' = y
    · subst hmove
      exact if_pos rfl
    · have hother : (SwapBuf.holding crop y').nline1 ≠ some y := fun heq =>
        hmove (some.inj heq)
      rw [if_neg hother]
      by_cases hkeep : y' = y
      · subst hkeep
        rw [if_neg fun hne => hne rfl]
      · have hfirst : (SwapBuf.holding crop y').nline0 ≠ some y := fun heq =>
          hkeep (some.inj heq)
        rw [if_pos hfirst]
        rfl

/-! ## The result -/

/-- The arguments with their defaults, as the checks leave them. -/
structure Usable (a : ResizeArgs) : Prop where
  width : a.dstWidth % 4 = 0 ∧ 0 < a.dstWidth ∧ a.dstWidth < 65536
  height : a.dstHeight % 4 = 0 ∧ 0 < a.dstHeight ∧ a.dstHeight < 65536
  stride : a.dstWidth ≤ a.dstStride
  cropW : a.srcCropW % 4 = 0 ∧ 0 < a.srcCropW ∧ a.srcCropW < 65536
  cropH : a.srcCropH % 4 = 0 ∧ 0 < a.srcCropH ∧ a.srcCropH < 65536
  source : a.srcCropW ≤ a.srcStride

theorem usable_of_checks (h : a.withStrides.checks) : Usable a.withStrides.withCrop := by
  generalize a.withStrides = b at h
  simp only [ResizeArgs.checks, wellSized, decide_eq_true_eq] at h
  obtain ⟨⟨hdw, hdh, hds, hsw, hsh, hss, hcx, hcy, hcw, hch⟩,
    hdwpos, hdhpos, hdst, hswpos, hshpos, hsrc, hx, hy, hxlt, hylt⟩ := h
  have hcropW : (if b.srcCropW = 0 then b.srcWidth - b.srcCropX else b.srcCropW) % 4 = 0 ∧
      0 < (if b.srcCropW = 0 then b.srcWidth - b.srcCropX else b.srcCropW) ∧
      (if b.srcCropW = 0 then b.srcWidth - b.srcCropX else b.srcCropW) ≤ b.srcWidth := by
    split <;> omega
  have hcropH : (if b.srcCropH = 0 then b.srcHeight - b.srcCropY else b.srcCropH) % 4 = 0 ∧
      0 < (if b.srcCropH = 0 then b.srcHeight - b.srcCropY else b.srcCropH) ∧
      (if b.srcCropH = 0 then b.srcHeight - b.srcCropY else b.srcCropH) ≤ b.srcHeight := by
    split <;> omega
  exact ⟨⟨hdw.2, hdwpos, hdw.1⟩, ⟨hdh.2, hdhpos, hdh.1⟩, hdst,
    ⟨hcropW.1, hcropW.2.1, hcropW.2.2.trans_lt hsw.1⟩,
    ⟨hcropH.1, hcropH.2.1, hcropH.2.2.trans_lt hsh.1⟩, hcropW.2.2.trans hsrc⟩

/-- A function of the four samples for byte `p` of a line at the positions `X` and `Y`. -/
def corners (f : Nat → Nat → Nat → Nat → Nat) (c : Nat) (crop : Crop) (X Y p : Nat) : Nat :=
  let x0 := X / 2 ^ 19
  let x1 := min (x0 + 1) (crop.width / c - 1)
  let y0 := Y / 2 ^ 19
  let sample (y x : Nat) : Nat := (crop.at y (x * c + p % c)).toNat
  f (sample y0 x0) (sample (crop.next y0) x0) (sample y0 x1) (sample (crop.next y0) x1)

def blendAt (c : Nat) (crop : Crop) (X Y p : Nat) : Nat :=
  corners (blend 64 (fraction X) (fraction Y)) c crop X Y p

variable {src : Nat → Byte}

theorem column_ok {x : Nat} (hc : c = 1 ∨ c = 2) (h : Usable a) (hx : x < a.srcCropW / c)
    (p : Nat) :
    ushort (ushort x * c) = x * c ∧ x * c + p % c < a.srcCropW := by
  obtain ⟨hmod, -, hlt⟩ := h.cropW
  rcases hc with rfl | rfl
  · rw [ushort, ushort]
    omega
  · rw [ushort, ushort]
    omega

/-- The exact position of sample `i`, in units of 2^-19. -/
def exactPos (size dstSize i : Nat) : Nat := i * step (2 ^ 19) size dstSize

theorem resize_byte_ok (hc : c = 1 ∨ c = 2) (h : Usable a) (Y : Nat) (hp : p < a.dstWidth) :
    ∃ b, resizeByte c a (.holding (a.crop c src) (Y / 2 ^ 19)) (fraction Y) p = .ok b ∧
      b.toNat = blendAt c (a.crop c src) (exactPos (a.srcCropW % 8192) a.dstWidth (p / c)) Y p := by
  obtain ⟨hwmod, hwpos, -⟩ := h.width
  obtain ⟨hcmod, hcpos, -⟩ := h.cropW
  have hcol : p / c < a.dstWidth / c ∧ 0 < c ∧ a.dstWidth % c = 0 ∧ 0 < a.srcCropW / c ∧
      a.srcCropW % 8192 ≤ c * (a.srcCropW / c) ∧ p / c < a.dstWidth := by
    rcases hc with rfl | rfl <;> omega
  obtain ⟨hi, hcpos', hdvd, hfull, hle, hi'⟩ := hcol
  have hx0 := position_lt hcpos' hfull hle hdvd hi
  rw [resizeByte, exactPos]
  simp only [resize_pos_eq hi']
  generalize p / c * step (2 ^ 19) (a.srcCropW % 8192) a.dstWidth = X at hx0 ⊢
  have hx1 : min (X / 2 ^ 19 + 1) (a.srcCropW / c - 1) < a.srcCropW / c := by omega
  obtain ⟨h0, hlt0⟩ := column_ok hc h hx0 p
  obtain ⟨h1, hlt1⟩ := column_ok hc h hx1 p
  have hwidth : (a.crop c src).width = a.srcCropW := rfl
  simp only [h0, h1, SwapBuf.holding]
  rw [fetch_line (hwidth ▸ hlt0), fetch_line (hwidth ▸ hlt0), fetch_line (hwidth ▸ hlt1),
    fetch_line (hwidth ▸ hlt1)]
  exact ⟨_, rfl, resize_sample_eq (fraction_lt X).le (fraction_lt Y).le _ _ _ _⟩

theorem resize_line_ok (hc : c = 1 ∨ c = 2) (h : Usable a) (hj : j < a.dstHeight / c) :
    ∃ row : List Byte, row.length = a.dstWidth ∧
      (∀ p (hp : p < row.length), row[p].toNat = blendAt c (a.crop c src)
        (exactPos (a.srcCropW % 8192) a.dstWidth (p / c))
        (exactPos (a.srcCropH % 8192) a.dstHeight j) p) ∧
      ∀ buf dst, buf.Loaded (a.crop c src) → ∃ buf', buf'.Loaded (a.crop c src) ∧
        resizeLine c a (a.crop c src) (buf, dst) j =
          .ok (buf', writeLine dst (j * a.dstStride) row) := by
  obtain ⟨hhmod, hhpos, -⟩ := h.height
  obtain ⟨hcmod, hcpos, -⟩ := h.cropH
  have hline : 0 < c ∧ a.dstHeight % c = 0 ∧ 0 < a.srcCropH / c ∧
      a.srcCropH % 8192 ≤ c * (a.srcCropH / c) ∧ j < a.dstHeight := by
    rcases hc with rfl | rfl <;> omega
  obtain ⟨hcpos', hdvd, hfull, hle, hj'⟩ := hline
  have hy := position_lt hcpos' hfull hle hdvd hj
  have hbyte := fun p (hp : p < a.dstWidth) =>
    @resize_byte_ok c p a src hc h (exactPos (a.srcCropH % 8192) a.dstHeight j) hp
  choose! f hf hval using hbyte
  have hmap : (List.range a.dstWidth).mapM (resizeByte c a
      (.holding (a.crop c src) (exactPos (a.srcCropH % 8192) a.dstHeight j / 2 ^ 19))
      (fraction (exactPos (a.srcCropH % 8192) a.dstHeight j))) =
      .ok ((List.range a.dstWidth).map f) :=
    mapM_ok fun p hp => hf p (mem_range.mp hp)
  refine ⟨(List.range a.dstWidth).map f, by rw [length_map, length_range], fun p hp => ?_,
    fun buf dst hbuf => ?_⟩
  · rw [length_map, length_range] at hp
    rw [getElem_map, getElem_range]
    exact hval p hp
  · have hneed := need_ok hbuf (y := exactPos (a.srcCropH % 8192) a.dstHeight j / 2 ^ 19) hy
    refine ⟨.holding (a.crop c src) (exactPos (a.srcCropH % 8192) a.dstHeight j / 2 ^ 19),
      .inr ⟨_, rfl⟩, ?_⟩
    rw [resizeLine, resize_pos_eq hj']
    change ((buf.need (a.crop c src) _ ((a.crop c src).next _)).bind _) = _
    rw [← exactPos, hneed]
    dsimp only [Except.bind]
    rw [hmap]
    rfl

theorem resize_lines_ok {row : Nat → List Byte} {n : Nat} {buf : SwapBuf}
    (hrow : ∀ j < n, ∀ buf dst, buf.Loaded (a.crop c src) → ∃ buf', buf'.Loaded (a.crop c src) ∧
      resizeLine c a (a.crop c src) (buf, dst) j =
        .ok (buf', writeLine dst (j * a.dstStride) (row j)))
    (hbuf : buf.Loaded (a.crop c src)) :
    ∃ buf', buf'.Loaded (a.crop c src) ∧
      (List.range n).foldlM (resizeLine c a (a.crop c src)) (buf, dst) =
        .ok (buf', written row a.dstStride dst n) := by
  induction n with
  | zero => exact ⟨buf, hbuf, rfl⟩
  | succ n ih =>
    obtain ⟨buf', hbuf', hrun⟩ := ih fun j hj => hrow j (lt_succ_of_lt hj)
    obtain ⟨buf'', hbuf'', hline⟩ := hrow n (lt_succ_self n) buf'
      (written row a.dstStride dst n) hbuf'
    refine ⟨buf'', hbuf'', ?_⟩
    rw [range_succ, foldlM_append, hrun, written_succ]
    change (resizeLine c a (a.crop c src) (buf', written row a.dstStride dst n) n).bind pure = _
    rw [hline]
    rfl

theorem copy_lines_ok {n : Nat} (hn : n ≤ crop.rows) :
    (List.range n).foldlM (fun dst j =>
      (crop.load j).map fun line => writeLine dst (j * a.dstStride) line) dst =
      .ok (written crop.line a.dstStride dst n) := by
  induction n with
  | zero => rfl
  | succ n ih =>
    rw [range_succ, foldlM_append, ih (le_of_succ_le hn), written_succ]
    change ((crop.load n).map _).bind pure = _
    rw [load_ok hn]
    rfl

/-- Every call that passes the checks returns, and what it returns. -/
theorem resize_plane_ok (hc : c = 1 ∨ c = 2) (h : a.withStrides.checks) (src dst : Nat → Byte)
    (bufSwap : List Byte × List Byte) :
    ∃ out, resizePlane c a src dst bufSwap = .ok (some out) ∧
      ∀ j p, j < a.withStrides.withCrop.dstHeight / c → p < a.withStrides.withCrop.dstWidth →
        (out (j * a.withStrides.withCrop.dstStride + p)).toNat =
          if SameSize a.withStrides.withCrop then
            ((a.withStrides.withCrop.crop c src).at j p).toNat
          else blendAt c (a.withStrides.withCrop.crop c src)
            (exactPos (a.withStrides.withCrop.srcCropW % 8192) a.withStrides.withCrop.dstWidth
              (p / c))
            (exactPos (a.withStrides.withCrop.srcCropH % 8192) a.withStrides.withCrop.dstHeight j)
            p := by
  have husable := usable_of_checks h
  rw [resizePlane]
  rw [if_pos h]
  generalize a.withStrides.withCrop = b at husable ⊢
  by_cases hsame : SameSize b
  · have hcopy : copyLines c b (b.crop c src) dst =
        .ok (written (b.crop c src).line b.dstStride dst (b.srcCropH / c)) :=
      copy_lines_ok (le_refl _)
    rw [if_pos hsame, hcopy]
    refine ⟨_, rfl, fun j p hj hp => ?_⟩
    have hlen : ∀ y, ((b.crop c src).line y).length = b.srcCropW := fun y => length_line y
    have hp' : p < ((b.crop c src).line j).length := by
      rw [hlen, ← hsame.1]
      exact hp
    have hle : ∀ y < b.srcCropH / c, ((b.crop c src).line y).length ≤ b.dstStride := fun y _ => by
      rw [hlen, ← hsame.1]
      exact husable.stride
    rw [if_pos hsame, written_at hle (by rwa [← hsame.2]) hp',
      getElem_of_eq (Crop.line.eq_1 (b.crop c src) j), getElem_map, getElem_range]
  · have hlines := fun j (hj : j < b.dstHeight / c) => @resize_line_ok c j b src hc husable hj
    choose! row hlen hval hrow using hlines
    have hstart : SwapBuf.Loaded (b.crop c src) ⟨none, none, bufSwap.1, bufSwap.2⟩ :=
      .inl ⟨rfl, rfl⟩
    obtain ⟨buf', -, hrun⟩ := @resize_lines_ok c b dst src row _ _ hrow hstart
    rw [if_neg hsame, hrun]
    refine ⟨written row b.dstStride dst (b.dstHeight / c), rfl, fun j p hj hp => ?_⟩
    have hp' : p < (row j).length := by rwa [hlen j hj]
    rw [if_neg hsame, written_at (fun k hk => (hlen k hk).trans_le husable.stride) hj hp']
    exact hval j hj p hp'

/-! ## Exact positions -/

/-- Byte `p` of line `j` is the blend at its exact positions, and between its samples. -/
structure Sampled (c : Nat) (a : ResizeArgs) (crop : Crop) (j p out : Nat) : Prop where
  column_lt : exactPos a.srcCropW a.dstWidth (p / c) / 2 ^ 19 < a.srcCropW / c
  line_lt : exactPos a.srcCropH a.dstHeight j / 2 ^ 19 < a.srcCropH / c
  exact : out = blendAt c crop (exactPos a.srcCropW a.dstWidth (p / c))
    (exactPos a.srcCropH a.dstHeight j) p
  least : corners (fun s00 s10 s01 s11 => min (min s00 s10) (min s01 s11)) c crop
    (exactPos a.srcCropW a.dstWidth (p / c)) (exactPos a.srcCropH a.dstHeight j) p ≤ out
  greatest : out ≤ corners (fun s00 s10 s01 s11 => max (max s00 s10) (max s01 s11)) c crop
    (exactPos a.srcCropW a.dstWidth (p / c)) (exactPos a.srcCropH a.dstHeight j) p

/-- Every run of a function on these arguments stays inside the crop and samples exactly. -/
def Resizes (c : Nat) (resize : ResizeArgs → (Nat → Byte) → (Nat → Byte) → List Byte × List Byte →
    Except Fault (Option (Nat → Byte))) (a : ResizeArgs) : Prop :=
  ∀ src dst bufSwap, ∃ out, resize a src dst bufSwap = .ok (some out) ∧
    ∀ j p, j < a.withStrides.withCrop.dstHeight / c → p < a.withStrides.withCrop.dstWidth →
      Sampled c a.withStrides.withCrop (a.withStrides.withCrop.crop c src) j p
        (out (j * a.withStrides.withCrop.dstStride + p)).toNat

/-- The crop is copied, or its size fits the shift. -/
def FitsShift (a : ResizeArgs) : Prop := SameSize a ∨ (a.srcCropW < 8192 ∧ a.srcCropH < 8192)

theorem sampled_of_blend (hc : c = 1 ∨ c = 2) (h : Usable a) (hj : j < a.dstHeight / c)
    (hp : p < a.dstWidth) {out : Nat}
    (hout : out = blendAt c (a.crop c src) (exactPos a.srcCropW a.dstWidth (p / c))
      (exactPos a.srcCropH a.dstHeight j) p) : Sampled c a (a.crop c src) j p out := by
  obtain ⟨hwmod, -, -⟩ := h.width
  obtain ⟨hhmod, -, -⟩ := h.height
  obtain ⟨hcw, hcwpos, -⟩ := h.cropW
  obtain ⟨hch, hchpos, -⟩ := h.cropH
  have hsizes : 0 < c ∧ 0 < a.srcCropW / c ∧ a.srcCropW ≤ c * (a.srcCropW / c) ∧
      a.dstWidth % c = 0 ∧ p / c < a.dstWidth / c ∧ 0 < a.srcCropH / c ∧
      a.srcCropH ≤ c * (a.srcCropH / c) ∧ a.dstHeight % c = 0 := by
    rcases hc with rfl | rfl <;> omega
  obtain ⟨hcpos, hw, hwle, hwdvd, hi, hh, hhle, hhdvd⟩ := hsizes
  have hbounds := fun s00 s10 s01 s11 => @blend_bounds 64 s00 s10 s01 s11
    (fraction (exactPos a.srcCropW a.dstWidth (p / c)))
    (fraction (exactPos a.srcCropH a.dstHeight j)) (by omega) (fraction_lt _).le (fraction_lt _).le
  exact ⟨position_lt hcpos hw hwle hwdvd hi, position_lt hcpos hh hhle hhdvd hj, hout,
    hout ▸ (hbounds _ _ _ _).1, hout ▸ (hbounds _ _ _ _).2⟩

/-- In a crop of the size of the result the positions are whole. -/
theorem exact_pos_same {size : Nat} (hpos : 0 < size) (i : Nat) :
    exactPos size size i / 2 ^ 19 = i ∧ fraction (exactPos size size i) = 0 := by
  rw [exactPos, step, Nat.mul_div_cancel_left _ hpos, fraction]
  omega

theorem blend_same (hc : c = 1 ∨ c = 2) (h : Usable a) (hsame : SameSize a) :
    blendAt c (a.crop c src) (exactPos a.srcCropW a.dstWidth (p / c))
      (exactPos a.srcCropH a.dstHeight j) p = ((a.crop c src).at j p).toNat := by
  have hcpos : 0 < c := by omega
  obtain ⟨hx, hfx⟩ := exact_pos_same h.cropW.2.1 (p / c)
  obtain ⟨hy, hfy⟩ := exact_pos_same h.cropH.2.1 j
  rw [hsame.1, hsame.2, blendAt, hfx, hfy]
  simp only [corners, hx, hy]
  rw [blend_first (by omega), mul_comm, div_add_mod]

theorem resizes_of_fits (hc : c = 1 ∨ c = 2) (h : a.withStrides.checks)
    (hfits : FitsShift a.withStrides.withCrop) : Resizes c (resizePlane c) a := by
  intro src dst bufSwap
  have husable := usable_of_checks h
  obtain ⟨out, hrun, hout⟩ := resize_plane_ok hc h src dst bufSwap
  refine ⟨out, hrun, fun j p hj hp => sampled_of_blend hc husable hj hp ?_⟩
  rw [hout j p hj hp]
  by_cases hsame : SameSize a.withStrides.withCrop
  · rw [if_pos hsame, blend_same hc husable hsame]
  · obtain ⟨hw, hh⟩ := hfits.resolve_left hsame
    rw [if_neg hsame, mod_eq_of_lt hw, mod_eq_of_lt hh]

/-! ## Larger sizes -/

/-- The blend of two samples of a line of `n`. -/
def linear (n : Nat) (v : Nat → Nat) (X : Nat) : Nat :=
  (v (X / 2 ^ 19) * (64 - fraction X) + v (min (X / 2 ^ 19 + 1) (n - 1)) * fraction X + 32) / 64

/-- An edge tells positions apart that differ by an eighth. -/
theorem linear_differs {X X' n : Nat} (hX : X' / 2 ^ 13 + 8 ≤ X / 2 ^ 13)
    (hn : X / 2 ^ 19 + 1 < n) :
    ∃ T, linear n (fun x => if T ≤ x then 255 else 0) X ≠
      linear n (fun x => if T ≤ x then 255 else 0) X' := by
  have hfx := fraction_lt X
  have hfx' := fraction_lt X'
  rcases lt_or_ge (X' / 2 ^ 19) (X / 2 ^ 19) with hlt | hge
  · refine ⟨X / 2 ^ 19, ?_⟩
    have hfull : linear n (fun x => if X / 2 ^ 19 ≤ x then 255 else 0) X = 255 := by
      simp only [linear]
      rw [if_pos le_rfl, if_pos (by omega)]
      omega
    have hpart : linear n (fun x => if X / 2 ^ 19 ≤ x then 255 else 0) X' < 255 := by
      simp only [linear]
      rw [if_neg (not_le.mpr hlt)]
      split <;> omega
    rw [hfull]
    exact hpart.ne'
  · have heq : X' / 2 ^ 19 = X / 2 ^ 19 := by omega
    have hfrac : fraction X' + 8 ≤ fraction X := by
      rw [fraction, fraction]
      omega
    refine ⟨X / 2 ^ 19 + 1, ?_⟩
    simp only [linear, heq]
    rw [if_neg (not_succ_le_self _), if_pos (by omega)]
    omega

/-- A size from 8192 on loses an eighth of a sample or more with every step. -/
theorem exact_pos_differs (hsize : 8192 ≤ size) (hpos : 0 < dstSize) (hdst : dstSize < 65536) :
    exactPos (size % 8192) dstSize 1 / 2 ^ 13 + 8 ≤ exactPos size dstSize 1 / 2 ^ 13 := by
  have hlost : 65536 ≤ step (2 ^ 19) (size - size % 8192) dstSize := by
    rw [step, Nat.le_div_iff_mul_le hpos]
    omega
  have hadd := step_add_le (2 ^ 19) (size % 8192) (size - size % 8192) hpos
  rw [Nat.add_sub_cancel' (mod_le size 8192)] at hadd
  rw [exactPos, exactPos, one_mul, one_mul]
  omega

theorem exact_pos_lt (hc : c = 1 ∨ c = 2) (hsize : 8192 ≤ size) (hdst : 4 ≤ dstSize) :
    exactPos size dstSize 1 / 2 ^ 19 + 1 < size / c := by
  have hstep : step (2 ^ 19) size dstSize ≤ size * 2 ^ 19 / 4 := div_le_div_left hdst (by omega)
  rw [exactPos, one_mul]
  rcases hc with rfl | rfl <;> omega

theorem blend_line (fx p00 p10 p01 p11 : Nat) :
    blend 64 fx 0 p00 p10 p01 p11 = (p00 * (64 - fx) + p01 * fx + 32) / 64 := by
  have hsum : p00 * (64 - 0) * (64 - fx) + p10 * 0 * (64 - fx) + p01 * (64 - 0) * fx +
      p11 * 0 * fx = 64 * (p00 * (64 - fx) + p01 * fx) := by ring
  rw [blend, hsum]
  omega

theorem blend_column (fy p00 p10 p01 p11 : Nat) :
    blend 64 0 fy p00 p10 p01 p11 = (p00 * (64 - fy) + p10 * fy + 32) / 64 := by
  have hsum : p00 * (64 - fy) * (64 - 0) + p10 * fy * (64 - 0) + p01 * (64 - fy) * 0 +
      p11 * fy * 0 = 64 * (p00 * (64 - fy) + p10 * fy) := by ring
  rw [blend, hsum]
  omega

/-- A picture with an edge between columns, or between lines. -/
def edge (start : Nat) (pos : Nat) : Byte := if start ≤ pos then 255 else 0

theorem edge_value (start pos : Nat) : (edge start pos).toNat = if start ≤ pos then 255 else 0 := by
  rw [edge]
  split <;> rfl

theorem blend_at_columns (hc : c = 1 ∨ c = 2) (b : ResizeArgs) (T X : Nat) :
    blendAt c (b.crop c (edge (b.srcCropY / c * b.srcStride + b.srcCropX + T * c))) X 0 c =
      linear (b.srcCropW / c) (fun x => if T ≤ x then 255 else 0) X := by
  have hzero : fraction 0 = 0 := rfl
  have hsample : ∀ x, ((b.crop c (edge (b.srcCropY / c * b.srcStride + b.srcCropX + T * c))).at 0
      (x * c + c % c)).toNat = if T ≤ x then 255 else 0 := by
    intro x
    simp only [Crop.at, ResizeArgs.crop, edge_value]
    refine if_congr ?_ rfl rfl
    rcases hc with rfl | rfl <;> omega
  rw [blendAt, hzero]
  simp only [corners, blend_line, Nat.zero_div, hsample, linear]
  rfl

theorem blend_at_lines {b : ResizeArgs} (hstride : 0 < b.srcStride) (T Y : Nat) :
    blendAt c (b.crop c (edge (b.srcCropY / c * b.srcStride + b.srcCropX + T * b.srcStride))) 0 Y
      0 = linear (b.srcCropH / c) (fun y => if T ≤ y then 255 else 0) Y := by
  have hzero : fraction 0 = 0 := rfl
  have hsample : ∀ y, ((b.crop c (edge (b.srcCropY / c * b.srcStride + b.srcCropX +
      T * b.srcStride))).at y (0 * c + 0 % c)).toNat = if T ≤ y then 255 else 0 := by
    intro y
    simp only [Crop.at, ResizeArgs.crop, edge_value, zero_mod, Nat.zero_mul, add_zero]
    refine if_congr ?_ rfl rfl
    rw [Nat.add_le_add_iff_left]
    exact Nat.mul_le_mul_right_iff hstride
  rw [blendAt, hzero]
  simp only [corners, blend_column, Nat.zero_div, hsample, linear, Crop.next]
  rfl

theorem fits_of_resizes (hc : c = 1 ∨ c = 2) (h : a.withStrides.checks)
    (hall : Resizes c (resizePlane c) a) : FitsShift a.withStrides.withCrop := by
  have husable := usable_of_checks h
  -- the value that is made against the one that is promised
  have hvalue : ∀ src j p, j < a.withStrides.withCrop.dstHeight / c →
      p < a.withStrides.withCrop.dstWidth → ¬ SameSize a.withStrides.withCrop →
      blendAt c (a.withStrides.withCrop.crop c src)
        (exactPos a.withStrides.withCrop.srcCropW a.withStrides.withCrop.dstWidth (p / c))
        (exactPos a.withStrides.withCrop.srcCropH a.withStrides.withCrop.dstHeight j) p =
      blendAt c (a.withStrides.withCrop.crop c src)
        (exactPos (a.withStrides.withCrop.srcCropW % 8192) a.withStrides.withCrop.dstWidth (p / c))
        (exactPos (a.withStrides.withCrop.srcCropH % 8192) a.withStrides.withCrop.dstHeight j)
        p := by
    intro src j p hj hp hsame
    obtain ⟨out, hrun, hout⟩ := resize_plane_ok hc h src (fun _ => 0) ([], [])
    obtain ⟨out', hrun', hout'⟩ := hall src (fun _ => 0) ([], [])
    obtain rfl := some.inj (Except.ok.inj (hrun.symm.trans hrun'))
    rw [← (hout' j p hj hp).exact, hout j p hj hp, if_neg hsame]
  generalize a.withStrides.withCrop = b at husable hvalue ⊢
  have hzero : ∀ size dstSize, exactPos size dstSize 0 = 0 := fun size dstSize => Nat.zero_mul _
  obtain ⟨hwmod, hwpos, hwlt⟩ := husable.width
  obtain ⟨hhmod, hhpos, hhlt⟩ := husable.height
  by_contra hnot
  rw [FitsShift, not_or, not_and_or, not_lt, not_lt] at hnot
  obtain ⟨hsame, hwide | htall⟩ := hnot
  · obtain ⟨T, hT⟩ := linear_differs (exact_pos_differs hwide hwpos hwlt)
      (exact_pos_lt hc hwide (by omega))
    have heq := hvalue (edge (b.srcCropY / c * b.srcStride + b.srcCropX + T * c)) 0 c
      (by rcases hc with rfl | rfl <;> omega) (by omega) hsame
    rw [hzero, hzero, Nat.div_self (by omega), blend_at_columns hc, blend_at_columns hc] at heq
    exact hT heq
  · obtain ⟨T, hT⟩ := linear_differs (exact_pos_differs htall hhpos hhlt)
      (exact_pos_lt hc htall (by omega))
    have hstride : 0 < b.srcStride := husable.cropW.2.1.trans_le husable.source
    have heq := hvalue (edge (b.srcCropY / c * b.srcStride + b.srcCropX + T * b.srcStride)) 1 0
      (by rcases hc with rfl | rfl <;> omega) hwpos hsame
    rw [Nat.zero_div, hzero, hzero, blend_at_lines hstride, blend_at_lines hstride] at heq
    exact hT heq

/-- Both functions sample exactly, if and only if the crop has the size of the result or less than
8192 columns and lines. -/
theorem resize_exact_iff (a : ResizeArgs) (h : a.withStrides.checks) :
    (Resizes 1 lumaResize a ↔ FitsShift a.withStrides.withCrop) ∧
      (Resizes 2 chromaResize a ↔ FitsShift a.withStrides.withCrop) :=
  ⟨⟨fits_of_resizes (.inl rfl) h, resizes_of_fits (.inl rfl) h⟩,
    ⟨fits_of_resizes (.inr rfl) h, resizes_of_fits (.inr rfl) h⟩⟩

theorem resize_exact_double :
    (ResizeArgs.withStrides ⟨8, 8, 0, 4, 4, 0, 0, 0, 0, 0⟩).checks ∧
      Resizes 1 lumaResize ⟨8, 8, 0, 4, 4, 0, 0, 0, 0, 0⟩ ∧
      Resizes 2 chromaResize ⟨8, 8, 0, 4, 4, 0, 0, 0, 0, 0⟩ := by
  have hchecks : (ResizeArgs.withStrides ⟨8, 8, 0, 4, 4, 0, 0, 0, 0, 0⟩).checks = true := by decide
  have hboth := resize_exact_iff ⟨8, 8, 0, 4, 4, 0, 0, 0, 0, 0⟩ hchecks
  exact ⟨hchecks, hboth.1.mpr (.inr (by decide)), hboth.2.mpr (.inr (by decide))⟩

/-- 8192 columns shrink to four that are all the first one. -/
theorem wide_crop_not_resized : ¬ Resizes 1 lumaResize ⟨4, 4, 0, 8192, 4, 0, 0, 0, 0, 0⟩ := by
  intro hall
  rcases fits_of_resizes (.inl rfl) (by decide) hall with hsame | hlt
  · exact absurd hsame.1 (by decide)
  · exact absurd hlt.1 (by decide)

end FullhanRtos.Scaler
