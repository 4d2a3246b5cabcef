import FullhanRtos.Uvc.Info
import FullhanRtos.Lib.Crc

/-!
# Damage to the device record

The table of the CRC is linear, and the top byte of an entry tells its index, so the CRC finds any
change of up to four neighbouring bytes (`Crc.burst_detected`). A restart then takes the other copy
of the record.
-/

namespace FullhanRtos.InfoRecord

open Bytes UsbUpdate List Option Memory

/-! ## The table -/

def tableEntry (i : Byte) : BitVec 32 := (crcBit CRC_SEED)^[8] (i.setWidth 32)

theorem crc_bit_xor (seed a b : BitVec 32) :
    crcBit seed (a ^^^ b) = crcBit seed a ^^^ crcBit seed b := by
  have hbit : ∀ c : BitVec 32, c &&& 1 ≠ 0 ↔ c.getLsbD 0 = true := fun c => by
    rw [ne_eq, ← BitVec.toNat_inj, BitVec.toNat_and]
    simp [Nat.and_one_is_mod, BitVec.getLsbD, Nat.testBit_zero]
  have hcancel : ∀ x y z : BitVec 32, x ^^^ z ^^^ (y ^^^ z) = x ^^^ y := fun x y z => by
    rw [BitVec.xor_comm y z, ← BitVec.xor_assoc, BitVec.xor_assoc x z z, BitVec.xor_self,
      BitVec.xor_zero]
  simp only [crcBit, hbit, BitVec.getLsbD_xor, BitVec.ushiftRight_xor_distrib]
  cases a.getLsbD 0 <;> cases b.getLsbD 0
  · rfl
  · simp [BitVec.xor_assoc]
  · simp only [Bool.xor_false, if_true, Bool.false_eq_true, if_false]
    ac_rfl
  · simp [hcancel]

theorem crc_bits_xor (seed : BitVec 32) (n : Nat) (a b : BitVec 32) :
    (crcBit seed)^[n] (a ^^^ b) = (crcBit seed)^[n] a ^^^ (crcBit seed)^[n] b := by
  induction n generalizing a b with
  | zero => rfl
  | succ n ih => rw [Function.iterate_succ_apply, crc_bit_xor, ih]; rfl

theorem entry_top_zero : ∀ i : Byte, tableEntry i >>> 24 = 0 → i = 0 := by decide +kernel

theorem entry_top_inj (i j : Byte) (h : tableEntry i >>> 24 = tableEntry j >>> 24) : i = j := by
  have hxor : tableEntry (i ^^^ j) = tableEntry i ^^^ tableEntry j := by
    rw [tableEntry, BitVec.setWidth_xor, crc_bits_xor]
    rfl
  have hzero := entry_top_zero (i ^^^ j) (by
    rw [hxor, BitVec.ushiftRight_xor_distrib, h, BitVec.xor_self]
    rfl)
  exact BitVec.xor_eq_zero_iff.mp hzero

theorem crc_index_eq (c : BitVec 32) (b : Byte) : crcIndex c b = (c.setWidth 8 ^^^ b).toNat := by
  have hlow : c.setWidth 8 ^^^ b = (c ^^^ b.setWidth 32).setWidth 8 := by
    rw [BitVec.setWidth_xor, BitVec.setWidth_setWidth_of_le _ (by decide), BitVec.setWidth_eq]
  rw [crcIndex, hlow, BitVec.toNat_setWidth, BitVec.toNat_and]
  exact Nat.and_two_pow_sub_one_eq_mod _ 8

theorem calc_crc_eq (buf : List Byte) : calcCRC (makeCRCTable CRC_SEED) buf =
    buf.foldl (Crc.tableStep tableEntry) 0xffffffff := by
  have hstep : (fun (c : BitVec 32) b => c >>> 8 ^^^ (makeCRCTable CRC_SEED).getD (crcIndex c b) 0)
      = Crc.tableStep tableEntry := by
    funext c b
    have hindex : crcIndex c b < 256 := crc_index_eq c b ▸ BitVec.isLt _
    rw [Crc.tableStep, makeCRCTable, getD_eq_getElem?_getD, getElem?_map,
      getElem?_range hindex, crc_index_eq]
    show c >>> 8 ^^^ (crcBit CRC_SEED)^[8] (BitVec.ofNat 32 _) = _
    rw [BitVec.ofNat_toNat]
    rfl
  rw [calcCRC, hstep]

/-! ## Records with other bytes -/

variable {arch : Arch} {info r : UvcInfo} {base : FlashBase} {flash : Nat → Byte} {addr i p : Nat}
  {bytes pre old new post : List Byte}

theorem bytes_of_bytes (h : bytes.length = infoSize) : (UvcInfo.ofBytes bytes h).bytes = bytes := by
  have hword : ∀ k, k + 4 ≤ bytes.length →
      leBytes 4 (BitVec.ofNat 32 (leValue ((bytes.drop k).take 4))).toNat =
        (bytes.drop k).take 4 := fun k hk => by
    have hlen : ((bytes.drop k).take 4).length = 4 := by
      rw [length_take, length_drop]
      omega
    have hlt : leValue ((bytes.drop k).take 4) < 2 ^ 32 := by
      have hlt := le_value_lt ((bytes.drop k).take 4)
      rwa [hlen] at hlt
    rw [BitVec.toNat_ofNat, Nat.mod_eq_of_lt hlt]
    have hvalue := le_bytes_value ((bytes.drop k).take 4)
    rwa [hlen] at hvalue
  have hsplit : ∀ k, (bytes.drop k).take 4 ++ bytes.drop (k + 4) = bytes.drop k := fun k => by
    rw [← drop_drop, take_append_drop]
  rw [infoSize] at h
  have h0 := hword 0 (by omega)
  rw [drop_zero] at h0
  simp only [UvcInfo.bytes, UvcInfo.payload, UvcInfo.ofBytes, h0, hword 4 (by omega),
    hword 8 (by omega)]
  rw [hsplit 8, hsplit 4]
  exact hsplit 0

theorem info_eq_of_bytes (h : r.bytes = info.bytes) : r = info := by
  rw [← of_bytes_bytes r, ← of_bytes_bytes info]
  simp only [h]

/-- The two words in front of the payload. -/
def UvcInfo.header (info : UvcInfo) : List Byte :=
  leBytes 4 info.size.toNat ++ leBytes 4 info.crc.toNat

theorem bytes_eq (info : UvcInfo) : info.bytes = info.header ++ info.payload := by
  rw [UvcInfo.bytes, UvcInfo.header, append_assoc]

theorem length_header (info : UvcInfo) : info.header.length = 8 := by
  rw [UvcInfo.header, length_append, length_le_bytes, length_le_bytes]

/-- Two records that pass and differ in at most four neighbouring bytes, all in front of the
payload or all in it, are the same. -/
theorem good_of_burst (hinfo : Good info) (hr : Good r) (hold : info.bytes = pre ++ (old ++ post))
    (hnew : r.bytes = pre ++ (new ++ post)) (hlen : old.length = new.length)
    (hshort : old.length ≤ 4) (hplace : pre.length + old.length ≤ 8 ∨ 8 ≤ pre.length) :
    r = info := by
  rw [bytes_eq] at hold hnew
  apply info_eq_of_bytes
  rcases hplace with hplace | hplace
  · -- The payload is the same, so the CRC of both is the one of the payload.
    have hpayload : r.payload = info.payload := by
      have hdrop : ∀ bs, bs.length = old.length → (pre ++ (bs ++ post)).drop 8 =
          post.drop (8 - pre.length - old.length) := fun bs hbs => by
        rw [drop_append, drop_of_length_le (by omega), nil_append, drop_append,
          drop_of_length_le (by omega), nil_append, hbs]
      calc r.payload = (r.header ++ r.payload).drop 8 := (drop_left' (length_header r)).symm
        _ = (info.header ++ info.payload).drop 8 := by
          rw [hnew, hold, hdrop new hlen.symm, hdrop old rfl]
        _ = info.payload := drop_left' (length_header info)
    have hcrc : r.crc = info.crc := by
      rw [hr.2, hinfo.2, infoCRC, infoCRC, hpayload]
    rw [UvcInfo.bytes, UvcInfo.bytes, hr.1, hinfo.1, hcrc, hpayload]
  · -- The stored CRC is the same, so the change in the payload is none.
    obtain ⟨rest, rfl⟩ : ∃ rest, pre = r.header ++ rest := by
      refine ⟨pre.drop 8, ?_⟩
      have htake := congrArg (take 8) hnew
      rw [take_left' (length_header r), take_append_of_le_length hplace] at htake
      rw [htake, take_append_drop]
    rw [append_assoc] at hold hnew
    obtain ⟨hheader, hpayload⟩ := append_inj hold
      ((length_header info).trans (length_header r).symm)
    have hcrc : r.crc = info.crc := by
      have hwords := (append_inj hheader (by rw [length_le_bytes, length_le_bytes])).2
      rw [← word_of_bytes r.crc, ← hwords, word_of_bytes]
    have hchange : infoCRC info = infoCRC r := by rw [← hinfo.2, ← hr.2, hcrc]
    rw [infoCRC, infoCRC, calc_crc_eq, calc_crc_eq, hpayload, append_cancel_left hnew] at hchange
    obtain rfl := Crc.burst_detected entry_top_inj hlen hshort hchange
    rw [bytes_eq, bytes_eq, ← hheader, hpayload, append_cancel_left hnew]

/-! ## Damaged copies -/

/-- A write next to a copy. -/
theorem copy_write_outside (h : addr + infoSize ≤ p ∨ p + bytes.length ≤ addr) :
    copyAt (write flash p bytes) addr = copyAt flash addr := by
  have hrecord : recordAt (write flash p bytes) addr = recordAt flash addr := by
    unfold recordAt
    simp only [read_write_disjoint h]
  rw [copyAt, hrecord, ← copyAt]

/-- A copy with other bytes is none, unless they are the bytes that it had. -/
theorem copy_write_inside (hcopy : copyAt flash addr = some info) (hshort : bytes.length ≤ 4)
    (hplace : i + bytes.length ≤ 8 ∨ 8 ≤ i ∧ i + bytes.length ≤ infoSize) :
    copyAt (write flash (addr + i) bytes) addr = none ∨
      copyAt (write flash (addr + i) bytes) addr = some info := by
  obtain ⟨hgood, hrecord⟩ := ite_none_right_eq_some.mp hcopy
  by_cases hr : Good (recordAt (write flash (addr + i) bytes) addr)
  swap
  · exact Or.inl (if_neg hr)
  refine Or.inr (copy_of_record ?_ (some.inj hrecord ▸ hgood))
  rw [← some.inj hrecord]
  obtain ⟨rest, hrest⟩ : ∃ rest, infoSize = i + (bytes.length + rest) :=
    ⟨infoSize - i - bytes.length, by rw [infoSize] at hplace ⊢; omega⟩
  have hold : (recordAt flash addr).bytes = read flash addr i ++
      (read flash (addr + i) bytes.length ++ read flash (addr + i + bytes.length) rest) := by
    rw [recordAt, bytes_of_bytes, hrest, read_add, read_add]
  have hnew : (recordAt (write flash (addr + i) bytes) addr).bytes = read flash addr i ++
      (bytes ++ read flash (addr + i + bytes.length) rest) := by
    rw [recordAt, bytes_of_bytes, hrest, read_add, read_add, read_write_same,
      read_write_disjoint (Or.inl (Nat.le_refl _)), read_write_disjoint (Or.inr (Nat.le_refl _))]
  refine good_of_burst hgood hr hold hnew length_read (length_read.le.trans hshort) ?_
  rw [length_read, length_read]
  omega

/-- A save leaves both copies. -/
theorem store_copies (arch : Arch) (base : FlashBase) (hgood : Good info) :
    copyAt (storeCopies arch base info).flash (uvcInfoAddr arch) = some info ∧
      copyAt (storeCopies arch base info).flash (uvcInfoBakAddr arch) = some info := by
  rw [storeCopies, flash_store, copy_write_same hgood,
    copy_write_other (length_bytes _) (Or.inl (copies_apart arch)), flash_store,
    copy_write_same hgood]
  exact ⟨rfl, rfl⟩

/-- The record is loaded when one of two copies was changed in up to four neighbouring bytes. -/
theorem loaded_damaged (hmain : copyAt flash (uvcInfoAddr arch) = some info)
    (hbak : copyAt flash (uvcInfoBakAddr arch) = some info)
    (haddr : addr = uvcInfoAddr arch ∨ addr = uvcInfoBakAddr arch) (hshort : bytes.length ≤ 4)
    (hplace : i + bytes.length ≤ 8 ∨ 8 ≤ i ∧ i + bytes.length ≤ infoSize) :
    loaded arch (write flash (addr + i) bytes) = some info := by
  have hapart := copies_apart arch
  have hin : i + bytes.length ≤ infoSize := by
    rw [infoSize] at hplace ⊢
    omega
  rcases haddr with rfl | rfl
  · have hother : copyAt (write flash (uvcInfoAddr arch + i) bytes) (uvcInfoBakAddr arch) =
        some info :=
      (copy_write_outside (Or.inr (by omega))).trans hbak
    rcases copy_write_inside hmain hshort hplace with hcopy | hcopy
    · rw [loaded, hcopy, hother, none_or]
    · rw [loaded, hcopy, some_or]
  · have hother : copyAt (write flash (uvcInfoBakAddr arch + i) bytes) (uvcInfoAddr arch) =
        some info :=
      (copy_write_outside (Or.inl (by omega))).trans hmain
    rw [loaded, hother, some_or]

/-- When up to four neighbouring bytes of one copy are changed in any way behind a save, in front of
its payload or in it, a restart loads the record that was saved. -/
theorem damaged_copy_recovered (hinit : base.sFlashBaseInited = true) (info other : UvcInfo)
    (haddr : addr = uvcInfoAddr arch ∨ addr = uvcInfoBakAddr arch) (hshort : bytes.length ≤ 4)
    (hplace : i + bytes.length ≤ 8 ∨ 8 ≤ i ∧ i + bytes.length ≤ infoSize) :
    (uvcInfoOption arch ((uvcInfoSaveData arch base info).1.store (addr + i) bytes) other).2 =
      stamp info := by
  obtain ⟨hmain, hbak⟩ := store_copies arch base (stamp_good info)
  rw [uvc_info_save_data_eq arch hinit, uvc_info_option_eq]
  dsimp only
  rw [flash_store, loaded_damaged hmain hbak haddr hshort hplace, getD_some]

theorem damaged_zero_recovered :
    (uvcInfoOption .other ((uvcInfoSaveData .other ⟨true, fun _ => 0⟩ UvcInfo.zero).1.store
      (uvcInfoAddr .other + 10) [1, 2]) UvcInfo.zero).2 = stamp UvcInfo.zero :=
  damaged_copy_recovered rfl _ _ (Or.inl rfl) (by decide) (Or.inr ⟨by decide, by decide⟩)

end FullhanRtos.InfoRecord
