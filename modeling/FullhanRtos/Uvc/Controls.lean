import FullhanRtos.Uvc.Frame

/-!
# The control tables

`uvc_control_ct`, `uvc_control_pu` and `uvc_msxu_face` of `drivers/usb/device/class/libuvc_ctrl.c`:
the values of the camera terminal, processing unit and extension unit controls, and the functions
that read and store them. Those of one kind are one function of the type the source reads the data
with; a control without a value has functions that only print. A store posts a message for
`uvc_event_proc`.
-/

namespace FullhanRtos.Uvc

open List Nat

/-! ## Numbers in requests -/

def byteAt (data : List Byte) (i : Nat) : Nat := (data.getD i 0#8).toNat

/-- The number in the first `n` bytes, the lowest one first. -/
def leNat (data : List Byte) : Nat → Nat
  | 0 => 0
  | n + 1 => leNat data n ||| byteAt data n <<< (8 * n)

def leBytes (n : Nat) (value : Int) : List Byte :=
  (List.range n).map fun i => BitVec.ofInt 8 (value / 256 ^ i)

/-- Conversions to `int`, `short` and `int8_t`. -/
def toInt32 (value : Int) : Int := value.bmod (2 ^ 32)

def toInt16 (value : Int) : Int := value.bmod (2 ^ 16)

def toInt8 (value : Int) : Int := value.bmod (2 ^ 8)

/-- How `fdata` reads the data: as an `unsigned char` from one byte or the low one of two, as a
number of two bytes without or with a sign, and as one of four bytes. -/
def ucharData (data : List Byte) : Int := byteAt data 0

def ushortData (data : List Byte) : Int := leNat data 2

def shortData (data : List Byte) : Int := toInt16 (leNat data 2)

def intData (data : List Byte) : Int := toInt32 (leNat data 4)

section

variable {data data' : List Byte} {n k : Nat}

theorem byte_at_lt (data : List Byte) (i : Nat) : byteAt data i < 256 := (data.getD i 0#8).isLt

theorem byte_at_of_le (h : data.length ≤ n) : byteAt data n = 0 := by
  rw [byteAt, getD_eq_getElem?_getD, getElem?_eq_none h]
  rfl

theorem byte_at_drop (data : List Byte) (pos k : Nat) :
    byteAt (data.drop pos) k = byteAt data (pos + k) := by
  rw [byteAt, byteAt, getD_eq_getElem?_getD, getD_eq_getElem?_getD, getElem?_drop]

theorem le_nat_congr (h : ∀ i < n, byteAt data i = byteAt data' i) :
    leNat data n = leNat data' n := by
  induction n with
  | zero => rfl
  | succ n ih =>
    have hlow : leNat data n = leNat data' n := ih fun i hi => h i (lt_succ_of_lt hi)
    rw [leNat, leNat, hlow, h n (lt_succ_self n)]

theorem le_nat_lt (data : List Byte) (n : Nat) : leNat data n < 2 ^ (8 * n) := by
  induction n with
  | zero => exact Nat.one_pos
  | succ n ih =>
    refine or_lt_two_pow (lt_of_lt_of_le ih ?_) ?_
    · exact Nat.pow_le_pow_right (succ_pos 1) (by omega)
    · have hbyte := byte_at_lt data n
      rw [shiftLeft_eq, mul_succ, Nat.pow_add, mul_comm (2 ^ (8 * n))]
      exact Nat.mul_lt_mul_of_pos_right hbyte (Nat.two_pow_pos _)

theorem le_nat_succ (data : List Byte) (n : Nat) :
    leNat data (n + 1) = leNat data n + 2 ^ (8 * n) * byteAt data n := by
  have hor := shiftLeft_add_eq_or_of_lt (le_nat_lt data n) (byteAt data n)
  rw [leNat, Nat.or_comm, ← hor, shiftLeft_eq, add_comm, mul_comm]

/-- Bytes that are not there are 0. -/
theorem le_nat_of_length (hlen : data.length = n) (hle : n ≤ k) : leNat data k = leNat data n := by
  induction k, hle using le_induction with
  | base => rfl
  | succ k hle ih =>
    rw [le_nat_succ, byte_at_of_le (hlen ▸ hle), ih]
    rfl

/-- The number in the lowest bytes of a number. -/
theorem le_nat_bytes (value : Nat) (hk : k ≤ n) : leNat (leBytes n value) k = value % 256 ^ k := by
  induction k with
  | zero => rw [pow_zero, mod_one]; rfl
  | succ k ih =>
    have hbyte : byteAt (leBytes n value) k = value / 256 ^ k % 256 := by
      have hin : k < n := hk
      rw [byteAt, leBytes, getD_eq_getElem?_getD, getElem?_map,
        getElem?_range hin, Option.map_some, Option.getD_some]
      norm_cast
    have hpow : (256 : Nat) ^ k = 2 ^ (8 * k) := by rw [Nat.pow_mul]
    rw [le_nat_succ, ih (le_of_succ_le hk), hbyte, ← hpow, mod_pow_succ]

theorem le_nat_take (hk : k ≤ n) : leNat (data.take n) k = leNat data k := by
  induction k with
  | zero => rfl
  | succ k ih =>
    have hbyte : byteAt (data.take n) k = byteAt data k := by
      rw [byteAt, byteAt, getD_eq_getElem?_getD, getD_eq_getElem?_getD, getElem?_take_of_lt hk]
    rw [leNat, leNat, hbyte, ih (le_of_succ_le hk)]

end

/-! ## Pan and tilt -/

def bufPan (data : List Byte) : Int := toInt8 ((toInt32 (leNat data 4)).tdiv 3600)

def bufTilt (data : List Byte) : Int :=
  toInt8 ((toInt32 ((byteAt data 0 + 4) ||| byteAt data 5 <<< 8 ||| byteAt data 6 <<< 16 |||
    byteAt data 7 <<< 24 : Nat)).tdiv 3600)

def pantilt2u16 (pan tilt : Int) : Int := pan % 256 + tilt % 256 * 256

def pantilt2Buf (value : Int) : List Byte :=
  leBytes 4 (toInt8 value * 3600) ++ leBytes 4 (toInt8 (value / 256) * 3600)

/-! ## The controls -/

/-- The `func_num` of the messages that a control posts. -/
inductive EventFunc where
  | setAeMode
  | setExposure
  | setGain
  | setBrightness
  | setContrast
  | setSaturation
  | setSharpeness
  | setAwbGain
  | setAwbMode
  | setGammaCfg
  | setBacklight
  | hueAuto
  | hueGain
  | powerLine
  | aePriority
  | focusMode
  | focusAbs
  | zoomAbs
  | panTiltAbs
  | rollAbs
  | setIris
  deriving DecidableEq

/-- `struct uvc_ctrl_event`, with the parameter that `uvc_event_proc` reads. -/
structure CtrlEvent where
  funcNum : EventFunc
  parm1 : Int
  deriving DecidableEq

/-- A `fdata` that stores a value: the selector whose `val.cur` it writes, the value and the
parameter it takes from the data, and whether it ignores the value that the control has already. -/
structure ControlSetter where
  cs : Nat
  value : List Byte → Int
  parm1 : List Byte → Int
  ignoresRepeat : Bool
  funcNum : EventFunc

/-- `fsetup`, which writes bytes of the value, and `fdata`. Without a setter it only prints. -/
structure ControlHandler where
  fsetup : Int → List Byte
  fdata : Option ControlSetter

/-- `struct uvc_control_ops` with the values of `struct uvc_control_value` that do not change, and
the first `cur`. -/
structure ControlOps where
  len : Nat
  max : Int
  min : Int
  cur : Int
  default : Int
  res : Int
  handler : Option ControlHandler

/-- Functions that only print. -/
def debugHandler : ControlHandler := ⟨fun _ => [], none⟩

/-- Functions that write `n` bytes of the value, and store what they read from the data. -/
def valueHandler (n cs : Nat) (value : List Byte → Int) (funcNum : EventFunc) : ControlHandler where
  fsetup := leBytes n
  fdata := some { cs, value, parm1 := value, ignoresRepeat := false, funcNum }

/-- The selectors of the camera terminal with a value. -/
abbrev Ct.aeModeControl : Nat := 0x02
abbrev Ct.aePriorityControl : Nat := 0x03
abbrev Ct.exposureTimeAbsoluteControl : Nat := 0x04
abbrev Ct.focusAbsoluteControl : Nat := 0x06
abbrev Ct.focusAutoControl : Nat := 0x08
abbrev Ct.irisAbsoluteControl : Nat := 0x09
abbrev Ct.zoomAbsoluteControl : Nat := 0x0b
abbrev Ct.pantiltAbsoluteControl : Nat := 0x0d
abbrev Ct.rollAbsoluteControl : Nat := 0x0f

/-- The selectors of the processing unit with a value. -/
abbrev Pu.backlightCompensationControl : Nat := 0x01
abbrev Pu.brightnessControl : Nat := 0x02
abbrev Pu.contrastControl : Nat := 0x03
abbrev Pu.gainControl : Nat := 0x04
abbrev Pu.powerLineFrequencyControl : Nat := 0x05
abbrev Pu.hueControl : Nat := 0x06
abbrev Pu.saturationControl : Nat := 0x07
abbrev Pu.sharpnessControl : Nat := 0x08
abbrev Pu.gammaControl : Nat := 0x09
abbrev Pu.whiteBalanceTemperatureControl : Nat := 0x0a
abbrev Pu.whiteBalanceTemperatureAutoControl : Nat := 0x0b
abbrev Pu.hueAutoControl : Nat := 0x10

def ctAeMode : ControlHandler where
  fsetup := leBytes 1
  fdata := some
    { cs := Ct.aeModeControl
      value := ucharData
      parm1 := ucharData
      ignoresRepeat := true
      funcNum := .setAeMode }

/-- The other functions of the camera terminal. -/
def ctAePriority : ControlHandler := valueHandler 1 Ct.aePriorityControl ucharData .aePriority

def ctExposureAbsolute : ControlHandler :=
  valueHandler 4 Ct.exposureTimeAbsoluteControl intData .setExposure

def ctFocusAbsolute : ControlHandler := valueHandler 2 Ct.focusAbsoluteControl ushortData .focusAbs

def ctFocusAuto : ControlHandler := valueHandler 1 Ct.focusAutoControl ucharData .focusMode

def ctIrisAbsolute : ControlHandler := valueHandler 2 Ct.irisAbsoluteControl ucharData .setIris

def ctZoomAbsolute : ControlHandler := valueHandler 4 Ct.zoomAbsoluteControl ushortData .zoomAbs

def ctRollAbsolute : ControlHandler := valueHandler 2 Ct.rollAbsoluteControl shortData .rollAbs

def ctPantiltAbsolute : ControlHandler where
  fsetup := pantilt2Buf
  fdata := some
    { cs := Ct.pantiltAbsoluteControl
      value := fun data => pantilt2u16 (bufPan data) (bufTilt data)
      parm1 := bufPan
      ignoresRepeat := false
      funcNum := .panTiltAbs }

/-- The functions of the processing unit. -/
def puBacklight : ControlHandler :=
  valueHandler 2 Pu.backlightCompensationControl ucharData .setBacklight

def puBrightness : ControlHandler := valueHandler 2 Pu.brightnessControl ucharData .setBrightness

def puContrast : ControlHandler := valueHandler 2 Pu.contrastControl ucharData .setContrast

def puGain : ControlHandler := valueHandler 2 Pu.gainControl ushortData .setGain

def puPowerFreq : ControlHandler :=
  valueHandler 1 Pu.powerLineFrequencyControl ucharData .powerLine

def puHue : ControlHandler := valueHandler 2 Pu.hueControl ucharData .hueGain

def puSaturation : ControlHandler := valueHandler 2 Pu.saturationControl ucharData .setSaturation

def puSharpness : ControlHandler := valueHandler 2 Pu.sharpnessControl ucharData .setSharpeness

def puGamma : ControlHandler := valueHandler 2 Pu.gammaControl ucharData .setGammaCfg

def puWbTemperature : ControlHandler :=
  valueHandler 4 Pu.whiteBalanceTemperatureControl intData .setAwbGain

def puWbTemperatureAuto : ControlHandler :=
  valueHandler 1 Pu.whiteBalanceTemperatureAutoControl ucharData .setAwbMode

def puHueAuto : ControlHandler := valueHandler 1 Pu.hueAutoControl ucharData .hueAuto

/-! ## The tables -/

def uvcControlCt : List ControlOps :=
  [⟨0, 0, 0, 0, 0, 0, none⟩,
    -- UVC_CT_SCANNING_MODE_CONTROL
    ⟨1, 255, 0, 128, 128, 1, some debugHandler⟩,
    ⟨1, 8, 1, 2, 2, 0x0f, some ctAeMode⟩,
    ⟨1, 1, 0, 0, 0, 1, some ctAePriority⟩,
    ⟨4, 1047, 3, 250, 250, 1, some ctExposureAbsolute⟩,
    -- UVC_CT_EXPOSURE_TIME_RELATIVE_CONTROL
    ⟨1, 255, 0, 128, 128, 1, some debugHandler⟩,
    ⟨2, 255, 0, 0, 255, 5, some ctFocusAbsolute⟩,
    -- UVC_CT_FOCUS_RELATIVE_CONTROL
    ⟨2, 255, 0, 128, 128, 1, some debugHandler⟩,
    ⟨1, 1, 0, 0, 0, 1, some ctFocusAuto⟩,
    ⟨2, 100, 0, 50, 50, 1, some ctIrisAbsolute⟩,
    -- UVC_CT_IRIS_RELATIVE_CONTROL
    ⟨1, 255, 0, 128, 128, 1, some debugHandler⟩,
    ⟨2, 500, 100, 100, 100, 1, some ctZoomAbsolute⟩,
    -- UVC_CT_ZOOM_RELATIVE_CONTROL
    ⟨2, 0x1f4, 0x64, 0x64, 0x64, 1, some debugHandler⟩,
    ⟨8, pantilt2u16 10 10, pantilt2u16 (-10) (-10), pantilt2u16 0 0, pantilt2u16 0 0,
      pantilt2u16 1 1, some ctPantiltAbsolute⟩,
    -- UVC_CT_PANTILT_RELATIVE_CONTROL
    ⟨4, 255, 0, 128, 128, 1, some debugHandler⟩,
    ⟨2, 180, -180, 0, 0, 1, some ctRollAbsolute⟩,
    -- UVC_CT_ROLL_RELATIVE_CONTROL
    ⟨2, 255, 0, 128, 128, 1, some debugHandler⟩,
    -- UVC_CT_PRIVACY_CONTROL
    ⟨1, 255, 0, 128, 128, 1, some debugHandler⟩,
    -- UVC_CT_FOCUS_SIMPLE_CONTROL
    ⟨1, 255, 0, 128, 128, 1, some debugHandler⟩,
    -- UVC_CT_WINDOW_CONTROL
    ⟨1, 255, 0, 128, 128, 1, some debugHandler⟩,
    -- UVC_CT_REGION_OF_INTEREST_CONTROL
    ⟨10, 255, 0, 128, 128, 1, some debugHandler⟩]

def uvcControlPu : List ControlOps :=
  [⟨0, 0, 0, 0, 0, 0, none⟩,
    ⟨2, 1, 0, 1, 1, 1, some puBacklight⟩,
    ⟨2, 255, 0, 128, 128, 1, some puBrightness⟩,
    ⟨2, 255, 0, 128, 128, 1, some puContrast⟩,
    ⟨2, 255, 0, 0, 0, 1, some puGain⟩,
    ⟨1, 2, 1, 1, 2, 1, some puPowerFreq⟩,
    ⟨2, 0, 0, 0, 0, 1, some puHue⟩,
    ⟨2, 255, 0, 128, 128, 1, some puSaturation⟩,
    ⟨2, 255, 0, 128, 128, 1, some puSharpness⟩,
    ⟨2, 255, 0, 128, 128, 1, some puGamma⟩,
    ⟨2, 7500, 2000, 4000, 4000, 10, some puWbTemperature⟩,
    ⟨1, 1, 0, 1, 1, 1, some puWbTemperatureAuto⟩,
    -- UVC_PU_WHITE_BALANCE_COMPONENT_CONTROL
    ⟨4, 255, 0, 128, 128, 1, some debugHandler⟩,
    -- UVC_PU_WHITE_BALANCE_COMPONENT_AUTO_CONTROL
    ⟨1, 255, 0, 128, 128, 1, some debugHandler⟩,
    -- UVC_PU_DIGITAL_MULTIPLIER_CONTROL
    ⟨2, 255, 0, 128, 128, 1, some debugHandler⟩,
    -- UVC_PU_DIGITAL_MULTIPLIER_LIMIT_CONTROL
    ⟨2, 255, 0, 128, 128, 1, some debugHandler⟩,
    ⟨1, 1, 0, 1, 1, 1, some puHueAuto⟩,
    -- UVC_PU_ANALOG_VIDEO_STANDARD_CONTROL
    ⟨1, 255, 0, 128, 128, 1, some debugHandler⟩,
    -- UVC_PU_ANALOG_LOCK_STATUS_CONTROL
    ⟨1, 255, 0, 128, 128, 1, some debugHandler⟩]

/-- `uvc_msxu_face`. Its values do not change, and its `fdata` functions only print. -/
def uvcMsxuFace : List ControlOps :=
  [⟨0, 0, 0, 0, 0, 0, none⟩,
    ⟨0, 0, 0, 0, 0, 0, none⟩,
    ⟨0, 0, 0, 0, 0, 0, none⟩,
    ⟨0, 0, 0, 0, 0, 0, none⟩,
    ⟨0, 0, 0, 0, 0, 0, none⟩,
    ⟨0, 0, 0, 0, 0, 0, none⟩,
    -- MSXU_CONTROL_FACE_AUTHENTICATION
    ⟨9, 0x020201, 0x020200, 0x020201, 0x020201, 0x020200, some ⟨leBytes 3, none⟩⟩,
    ⟨0, 0, 0, 0, 0, 0, none⟩,
    ⟨0, 0, 0, 0, 0, 0, none⟩,
    -- MSXU_CONTROL_METADATA
    ⟨4, 0x10, 0, 0x10, 0, 1, some ⟨leBytes 1, none⟩⟩,
    ⟨0, 0, 0, 0, 0, 0, none⟩,
    ⟨0, 0, 0, 0, 0, 0, none⟩,
    ⟨0, 0, 0, 0, 0, 0, none⟩,
    ⟨0, 0, 0, 0, 0, 0, none⟩]

end FullhanRtos.Uvc
