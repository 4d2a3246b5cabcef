import FullhanRtos.Lib.Bytes
import FullhanRtos.Lib.Faults
import FullhanRtos.Lib.Resample
import FullhanRtos.Lib.Word

/-!
# Resizing of a plane

`luma_resize` and `chroma_resize` of `libscaler`. A sample of the result blends four samples of the
cropped source at positions in units of 2^-19; two source lines are kept in a buffer and are read
again only where a line of the result needs others. The two functions differ in the samples that
stand together, one or two.

Source lines and the samples in them are read through checks against the crop. The buffers are taken
to be allocated; without them the functions return -1.
-/

namespace FullhanRtos.Scaler

open Bytes Faults Resample Word

/-- The arguments beside the images. -/
structure ResizeArgs where
  dstWidth : Nat
  dstHeight : Nat
  dstStride : Nat
  srcWidth : Nat
  srcHeight : Nat
  srcStride : Nat
  srcCropX : Nat
  srcCropY : Nat
  srcCropW : Nat
  srcCropH : Nat

/-! ## Checks and defaults -/

def ResizeArgs.withStrides (a : ResizeArgs) : ResizeArgs :=
  { a with
    dstStride := if a.dstStride = 0 then a.dstWidth else a.dstStride
    srcStride := if a.srcStride = 0 then a.srcWidth else a.srcStride }

def wellSized (i : Nat) : Bool := i < 65536 ∧ i % 4 = 0

/-- The checks both functions make, behind the defaults of the strides. -/
def ResizeArgs.checks (a : ResizeArgs) : Bool :=
  (wellSized a.dstWidth ∧ wellSized a.dstHeight ∧ wellSized a.dstStride ∧ wellSized a.srcWidth ∧
    wellSized a.srcHeight ∧ wellSized a.srcStride ∧ wellSized a.srcCropX ∧ wellSized a.srcCropY ∧
    wellSized a.srcCropW ∧ wellSized a.srcCropH) ∧
  (0 < a.dstWidth ∧ 0 < a.dstHeight ∧ a.dstWidth ≤ a.dstStride ∧ 0 < a.srcWidth ∧
    0 < a.srcHeight ∧ a.srcWidth ≤ a.srcStride ∧ a.srcCropX + a.srcCropW ≤ a.srcWidth ∧
    a.srcCropY + a.srcCropH ≤ a.srcHeight ∧ a.srcCropX < a.srcWidth ∧ a.srcCropY < a.srcHeight)

def ResizeArgs.withCrop (a : ResizeArgs) : ResizeArgs :=
  { a with
    srcCropW := if a.srcCropW = 0 then a.srcWidth - a.srcCropX else a.srcCropW
    srcCropH := if a.srcCropH = 0 then a.srcHeight - a.srcCropY else a.srcCropH }

/-! ## Lines -/

/-- `memcpy` of a line into the destination. -/
def writeLine (dst : Nat → Byte) (pos : Nat) (bytes : List Byte) : Nat → Byte := fun p =>
  if pos ≤ p then (bytes[p - pos]?).getD (dst p) else dst p

/-- The cropped part of a plane: `rows` lines of `width` bytes from `srcImg` on. -/
structure Crop where
  src : Nat → Byte
  srcImg : Nat
  stride : Nat
  width : Nat
  rows : Nat

def Crop.at (crop : Crop) (y x : Nat) : Byte := crop.src (crop.srcImg + y * crop.stride + x)

def Crop.line (crop : Crop) (y : Nat) : List Byte := (List.range crop.width).map (crop.at y)

/-- `memcpy` of a source line, which must be one of the crop. -/
def Crop.load (crop : Crop) (y : Nat) : Except Fault (List Byte) :=
  (check crop.rows y).map fun _ => crop.line y

/-- The two lines in the buffer; `none` is a line number of -1. -/
structure SwapBuf where
  nline0 : Option Nat
  nline1 : Option Nat
  srcTempL0 : List Byte
  srcTempL1 : List Byte

/-- The lines `y0` and `y1`, from the buffer as far as they are there. -/
def SwapBuf.need (crop : Crop) (y0 y1 : Nat) (buf : SwapBuf) : Except Fault SwapBuf :=
  if buf.nline1 = some y0 then
    (crop.load y1).map fun line => ⟨some y0, some y1, buf.srcTempL1, line⟩
  else if buf.nline0 ≠ some y0 then
    (crop.load y0).bind fun line0 => (crop.load y1).map fun line1 =>
      ⟨some y0, some y1, line0, line1⟩
  else .ok buf

/-! ## Samples -/

/-- `scaleX` and `scaleY`: the shift is one of `unsigned int`. -/
def resizeScale (size dstSize : Nat) : Nat := size * 2 ^ 19 % 2 ^ 32 / dstSize

/-- `posX` and `posY`. -/
def resizePos (size dstSize i : Nat) : Nat := mul32 i (resizeScale size dstSize)

/-- The six bits behind the sample a position lies at. -/
def fraction (pos : Nat) : Nat := pos / 2 ^ 13 % 64

/-- `unsigned short` tables. -/
def ushort (n : Nat) : Nat := n % 65536

/-- A sum of `unsigned int` products that is stored to a byte. -/
def resizeSample (Sy0 Sy1 Sx0 Sx1 : Nat) (p00 p10 p01 p11 : Byte) : Byte :=
  .ofNat 8 ((p00.toNat * Sy0 * Sx0 + p10.toNat * Sy1 * Sx0 + p01.toNat * Sy0 * Sx1 +
    p11.toNat * Sy1 * Sx1 + 2048) % 2 ^ 32 / 2 ^ 12)

/-- Byte `p` of a line of the result, where `c` samples stand together. -/
def resizeByte (c : Nat) (a : ResizeArgs) (buf : SwapBuf) (fy p : Nat) : Except Fault Byte :=
  let posX := resizePos a.srcCropW a.dstWidth (p / c)
  let x0 := ushort (posX / 2 ^ 19)
  let x1 := ushort (min (posX / 2 ^ 19 + 1) (a.srcCropW / c - 1))
  let x0temp := ushort (x0 * c)
  let x1temp := ushort (x1 * c)
  (fetch buf.srcTempL0 (x0temp + p % c)).bind fun p00 =>
    (fetch buf.srcTempL1 (x0temp + p % c)).bind fun p10 =>
      (fetch buf.srcTempL0 (x1temp + p % c)).bind fun p01 =>
        (fetch buf.srcTempL1 (x1temp + p % c)).map fun p11 =>
          resizeSample (64 - fy) fy (64 - fraction posX) (fraction posX) p00 p10 p01 p11

def resizeLine (c : Nat) (a : ResizeArgs) (crop : Crop) (s : SwapBuf × (Nat → Byte)) (j : Nat) :
    Except Fault (SwapBuf × (Nat → Byte)) :=
  let posY := resizePos a.srcCropH a.dstHeight j
  let y0 := posY / 2 ^ 19
  let y1 := min (posY / 2 ^ 19 + 1) (a.srcCropH / c - 1)
  (s.1.need crop y0 y1).bind fun buf =>
    ((List.range a.dstWidth).mapM (resizeByte c a buf (fraction posY))).map fun oneline =>
      (buf, writeLine s.2 (j * a.dstStride) oneline)

/-! ## Planes -/

/-- The crop of a plane with `c` lines of the picture to one of the plane. -/
def ResizeArgs.crop (c : Nat) (a : ResizeArgs) (src : Nat → Byte) : Crop :=
  ⟨src, a.srcCropY / c * a.srcStride + a.srcCropX, a.srcStride, a.srcCropW, a.srcCropH / c⟩

def copyLines (c : Nat) (a : ResizeArgs) (crop : Crop) (dst : Nat → Byte) :
    Except Fault (Nat → Byte) :=
  (List.range (a.srcCropH / c)).foldlM (fun dst j =>
    (crop.load j).map fun line => writeLine dst (j * a.dstStride) line) dst

/-- A crop of the size of the result. -/
def SameSize (a : ResizeArgs) : Prop := a.dstWidth = a.srcCropW ∧ a.dstHeight = a.srcCropH

instance (a : ResizeArgs) : Decidable (SameSize a) :=
  inferInstanceAs (Decidable (a.dstWidth = a.srcCropW ∧ a.dstHeight = a.srcCropH))

/-- A plane with `c` samples together, from a buffer with any content. -/
def resizePlane (c : Nat) (a : ResizeArgs) (src dst : Nat → Byte)
    (bufSwap : List Byte × List Byte) : Except Fault (Option (Nat → Byte)) :=
  let a := a.withStrides
  if a.checks then
    let a := a.withCrop
    if SameSize a then
      (copyLines c a (a.crop c src) dst).map some
    else
      ((List.range (a.dstHeight / c)).foldlM (resizeLine c a (a.crop c src))
        (⟨none, none, bufSwap.1, bufSwap.2⟩, dst)).map fun s => some s.2
  else .ok none

def lumaResize (a : ResizeArgs) (src dst : Nat → Byte) (bufSwap : List Byte × List Byte) :
    Except Fault (Option (Nat → Byte)) := resizePlane 1 a src dst bufSwap

def chromaResize (a : ResizeArgs) (src dst : Nat → Byte) (bufSwap : List Byte × List Byte) :
    Except Fault (Option (Nat → Byte)) := resizePlane 2 a src dst bufSwap

end FullhanRtos.Scaler
