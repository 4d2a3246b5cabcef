import FullhanRtos.Pes.PackHeader

/-!
# The program stream map

The checksum of `PSMUX_fill_PSM`. `PSMUX_CTX` is the table of the polynomial with the bytes of each
entry in reverse, so `PSMUX_mpeg2_crc` returns the remainder in reverse; its bytes are stored as if
it were not.
-/

namespace FullhanRtos.Pes

open Bytes Crc ProgramStream BitVec

/-- The entries of the table, by computation. -/
theorem psmux_ctx_entry (b : Byte) :
    BitVec.ofNat 32 (psmuxCtx.getD b.toNat 0) =
      crcSwap ((crcBit mpegPoly)^[8] (b.setWidth 32 <<< 24)) := by
  have hall : ∀ i < 256, BitVec.ofNat 32 (psmuxCtx.getD i 0) =
      crcSwap ((crcBit mpegPoly)^[8] ((BitVec.ofNat 8 i).setWidth 32 <<< 24)) := by decide +kernel
  have hentry := hall b.toNat b.isLt
  rw [ofNat_toNat, setWidth_eq] at hentry
  exact hentry

theorem psmux_mpeg2_crc_eq (buffer : List Byte) :
    psmuxMpeg2Crc buffer = crcSwap (crc mpegPoly 0xffffffff buffer) :=
  crc_swap_table psmux_ctx_entry 0xffffffff buffer

theorem map_remainder_iff (param : ProcessParam) :
    crc mpegPoly 0xffffffff (fillPsm param) = 0 ↔
      crcSwap (crc mpegPoly 0xffffffff (psmFields param)) =
        crc mpegPoly 0xffffffff (psmFields param) := by
  have hpoly : mpegPoly.getLsbD 0 = true := rfl
  unfold fillPsm
  dsimp only
  rw [crc_eq_zero_iff hpoly, psmux_mpeg2_crc_eq]
  exact ⟨fun h => crc_bytes_inj h, fun h => congrArg crcBytes h⟩

/-- No map is accepted: its remainder is not the same from both ends. -/
theorem map_not_accepted (param : ProcessParam) : ¬ MapAccepted (fillPsm param) := by
  intro haccepted
  have hsame := (map_remainder_iff param).mp haccepted.remainder
  have hall : ∀ i < 256,
      let r := crc mpegPoly 0xffffffff [0x00, 0x00, 0x01, 0xbc, 0x00, 0x0e, 0xe0, 0xff, 0x00, 0x00,
        0x00, 0x04, BitVec.ofNat 8 i, pesVideoBase, 0x00, 0x00]
      crcSwap r ≠ r := by decide +kernel
  refine hall param.encType.toNat param.encType.isLt ?_
  rw [ofNat_toNat, setWidth_eq]
  exact hsame

/-- The map of an H.264 stream. -/
theorem h264_map_remainder :
    crc mpegPoly 0xffffffff (fillPsm (firstPacket 0x1b 0)) ≠ 0 := by
  decide +kernel

end FullhanRtos.Pes
