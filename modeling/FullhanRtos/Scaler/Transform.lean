import FullhanRtos.Lib.Bytes
import FullhanRtos.Lib.Copies
import FullhanRtos.Lib.Word
import Mathlib.Data.Set.Function
import Mathlib.Tactic.Ring

/-!
# From macroblocks to lines

`luma_transform` and `chroma_transform` of `libscaler` as the bytes they copy, each with its target
and its source relative to the images. The chroma copies read the first line of every macroblock
eight times (`transform_loses_chroma`).
-/

namespace FullhanRtos.Scaler

open Bytes Copies Word List

/-! ## Kernels -/

/-- An assignment between `unsigned int` pointers. -/
def word (dst src : Nat) : List (Nat × Nat) := (List.range 4).map fun b => (dst + b, src + b)

/-- A line of a macroblock: the words `t + k`, `t + k + 1`, `t + k + 16` and `t + k + 17`. -/
def lumaLine (dst src : Nat) : List (Nat × Nat) :=
  word dst src ++ word (dst + 4) (src + 4) ++ word (dst + 8) (src + 64) ++
    word (dst + 12) (src + 68)

/-- The kernels for `lines` lines; `map` tells the first word of such a part of a macroblock. -/
def lumaTransformLines (lines : Nat) (map : List Nat) (dst dstStride srcWidth x y w : Nat) :
    List (Nat × Nat) :=
  let t := map.getD (y % 16 / lines) 0
  let srcCurr := mul32 (y / 16) (mul32 (srcWidth / 16) 256) + mul32 (x / 16) 256
  (List.range (w / 16)).flatMap fun i => (List.range lines).flatMap fun n =>
    lumaLine (dst + 16 * i + n * dstStride) (srcCurr + 256 * i + 4 * (t + 2 * n))

def lumaTransform4lines : Nat → Nat → Nat → Nat → Nat → Nat → List (Nat × Nat) :=
  lumaTransformLines 4 [0, 8, 32, 40]

def lumaTransform8lines : Nat → Nat → Nat → Nat → Nat → Nat → List (Nat × Nat) :=
  lumaTransformLines 8 [0, 32]

def onelineMap : List Nat := [0, 64, 1, 65, 2, 66, 3, 67, 4, 68, 5, 69, 6, 70, 7, 71]

def chromaTransformBlock (dst dstStride srcWidth x y w : Nat) : List (Nat × Nat) :=
  let srcCurr := mul32 (y / 16) (mul32 (srcWidth / 16) 128) + mul32 (x / 16) 128
  (List.range (w / 16)).flatMap fun i => (List.range 8).flatMap fun k =>
    (List.range 16).map fun t =>
      (dst + 16 * i + k * dstStride + t, srcCurr + 128 * i + onelineMap.getD t 0)

/-! ## Images -/

def strideOf (width dstStride : Nat) : Nat := if dstStride = 0 then width else dstStride

/-- What both functions check first. -/
def accepts (dstImg srcImg width height dstStride : Nat) : Bool :=
  width % 16 = 0 ∧ height % 16 = 0 ∧ strideOf width dstStride % 4 = 0 ∧
    width ≤ strideOf width dstStride ∧ 0 < width ∧ 0 < height ∧ srcImg % 4 = 0 ∧ dstImg % 4 = 0

def lumaTransform (dstImg srcImg width height dstStride : Nat) : Option (List (Nat × Nat)) :=
  let stride := strideOf width dstStride
  if accepts dstImg srcImg width height dstStride then
    some ((List.range ((height + 7) / 8)).flatMap fun n =>
      lumaTransform8lines (mul32 (8 * n) stride) stride width 0 (8 * n) width)
  else none

/-- The copies of `chroma_transform`; `uDst` moves on by `dstJump` for each row of macroblocks. -/
def chromaTransform (dstImg srcImg width height dstStride : Nat) : Option (List (Nat × Nat)) :=
  let stride := strideOf width dstStride
  let dstJump := mul32 (stride / 16) 128
  if accepts dstImg srcImg width height dstStride then
    some ((List.range ((height + 15) / 16)).flatMap fun n =>
      chromaTransformBlock (n * dstJump) stride width 0 (16 * n) width)
  else none

/-! ## Re-orderings -/

/-- Every sample of the picture is one of the source, and every one of the source is there once. -/
def Reorders (copies : List (Nat × Nat)) (width rows stride : Nat) : Prop :=
  ∃ source : Nat × Nat → Nat,
    Set.BijOn source {p | p.1 < rows ∧ p.2 < width} {s | s < rows * width} ∧
      ∀ (src dst : Nat → Byte) (p : Nat × Nat), p.1 < rows → p.2 < width →
        run src dst copies (p.1 * stride + p.2) = src (source p)

/-- Eight lines at once and four lines twice are the same image. -/
def KernelsAgree (width stride : Nat) : Prop :=
  ∀ (src img : Nat → Byte) (dst y : Nat), y % 8 = 0 →
    run src img (lumaTransform8lines dst stride width 0 y width) =
      run src img (lumaTransform4lines dst stride width 0 y width ++
        lumaTransform4lines (dst + 4 * stride) stride width 0 (y + 4) width)

/-- Both transforms are re-orderings, and the kernels of the first agree. -/
def Lossless (dstImg srcImg width height dstStride : Nat) : Prop :=
  (∃ luma, lumaTransform dstImg srcImg width height dstStride = some luma ∧
    Reorders luma width height (strideOf width dstStride)) ∧
  (∃ chroma, chromaTransform dstImg srcImg width height dstStride = some chroma ∧
    Reorders chroma width (height / 2) (strideOf width dstStride)) ∧
  KernelsAgree width (strideOf width dstStride)

variable {dst src d s stride width height lines : Nat}

/-! ## Chroma -/

variable {dstImg srcImg dstStride : Nat} {chroma : List (Nat × Nat)}

/-- Only the first eight bytes of each half of a macroblock are read. -/
theorem chroma_source (hchroma : chromaTransform dstImg srcImg width height dstStride = some chroma)
    {c : Nat × Nat} (hc : c ∈ chroma) : c.2 % 64 < 8 := by
  rw [chromaTransform] at hchroma
  split at hchroma
  next =>
    obtain rfl := Option.some.inj hchroma
    obtain ⟨n, -, hblock⟩ := mem_flatMap.mp hc
    obtain ⟨i, -, hlines⟩ := mem_flatMap.mp hblock
    obtain ⟨k, -, hline⟩ := mem_flatMap.mp hlines
    obtain ⟨t, ht, rfl⟩ := mem_map.mp hline
    have hmap : ∀ t < 16, onelineMap.getD t 0 % 64 < 8 := by decide
    have hbase : ∀ a b, mul32 a b % 64 = a * b % 64 := fun a b => by
      rw [mul32]
      omega
    have hword : ∀ a b, mul32 a (mul32 b 128) % 64 = 0 := fun a b => by
      have hzero : mul32 b 128 % 64 = 0 := by
        rw [hbase]
        omega
      rw [hbase, Nat.mul_mod, hzero, Nat.mul_zero]
    have hfirst := hmap t (mem_range.mp ht)
    have hrow := hword (16 * n / 16) (width / 16)
    rw [Nat.zero_div, show mul32 0 128 = 0 from rfl]
    omega
  next => cases hchroma

theorem chroma_not_reordered (h : accepts dstImg srcImg width height dstStride)
    (hchroma : chromaTransform dstImg srcImg width height dstStride = some chroma) :
    ¬ Reorders chroma width (height / 2) stride := by
  rintro ⟨source, hbij, hcopies⟩
  obtain ⟨hw, hh, -, -, hwpos, hhpos, -⟩ := of_decide_eq_true h
  have hsize : 8 < height / 2 * width := by
    calc 8 < 8 * 16 := by omega
      _ ≤ height / 2 * width := Nat.mul_le_mul (by omega) (by omega)
  obtain ⟨p, ⟨hr, hc⟩, hp⟩ := hbij.surjOn hsize
  have hread : ∀ src : Nat → Byte, run src (fun _ => 0) chroma (p.1 * stride + p.2) = src 8 :=
    fun src => (hcopies src (fun _ => 0) p hr hc).trans (congrArg src hp)
  have hsame : run (fun s => if s = 8 then (1 : Byte) else 0) (fun _ => 0) chroma =
      run (fun _ => 0) (fun _ => 0) chroma := by
    refine run_congr_source fun c hc' => if_neg fun heq => ?_
    have hlt := chroma_source hchroma hc'
    omega
  have hone := hread fun s => if s = 8 then 1 else 0
  rw [hsame, hread, if_pos rfl] at hone
  cases hone

/-- For no image: byte 8 of a macroblock is not read. -/
theorem transform_loses_chroma (dstImg srcImg width height dstStride : Nat)
    (h : accepts dstImg srcImg width height dstStride) :
    ¬ Lossless dstImg srcImg width height dstStride := by
  rintro ⟨-, ⟨chroma, hchroma, hreorders⟩, -⟩
  exact chroma_not_reordered h hchroma hreorders

theorem transform_loses_chroma_block : accepts 0 0 16 16 0 ∧ ¬ Lossless 0 0 16 16 0 :=
  ⟨by decide, transform_loses_chroma 0 0 16 16 0 (by decide)⟩

/-- One macroblock: eight lines of the picture have the 16 bytes of one. -/
theorem macroblock_not_lossless : ¬ Lossless 0 0 16 16 0 :=
  fun ⟨_, ⟨_, hchroma, hreorders⟩, _⟩ => chroma_not_reordered (by decide) hchroma hreorders

end FullhanRtos.Scaler
