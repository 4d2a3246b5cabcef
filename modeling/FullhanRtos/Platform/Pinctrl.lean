import FullhanRtos.Lib.Bits
import FullhanRtos.Lib.CString
import FullhanRtos.Lib.Transition
import Mathlib.Data.List.ReduceOption

/-!
# Pin control

A device is a list of muxes, and a mux selects one of its pins. `fh_pinctrl_device_switch` throws
away what its mux switches return, so that selecting a device succeeds although a pad belongs to
another pin, and `fh_pinctrl_smux` moves the current pin of a mux before a switch that may fail.
`selected_or_unchanged_iff` says for which calls neither shows.

The functions for the always-on pads are the same as those for the other pads, on their own
registers, pin list and devices.
-/

namespace FullhanRtos.Pinctrl

open Bits Bytes CString Transition Function List Option

/-! ## Tables -/

/-- A string of a table, without its terminator. -/
abbrev Name := List Byte

structure Pin where
  funcName : Name
  padId : Nat
  funcSel : BitVec 4
  outputEnable : BitVec 1
  pullupPulldown : BitVec 2
  drivingCurr : BitVec 3

/-- `reg_offset`, as `PINCTRL_FUNC` sets it. -/
def Pin.regOffset (pin : Pin) : Nat := pin.padId * 4

/-- `PinCtrl_Device`, whose last member is the first of its muxes. -/
structure Device where
  devName : Name
  muxes : List Nat
  muxes_ne_nil : muxes ≠ []

/-- The pads and the always-on pads. -/
inductive Bank where
  | pad
  | aon
  deriving DecidableEq

/-- The constants of the chip, the pins and the pins of the muxes by number, and the two lists of
devices. -/
structure Table where
  muxNum : Nat
  pupdDisable : BitVec 1
  pupdEnable : BitVec 1
  pmuSd1FuncSel : Bool
  pins : Nat → Pin
  muxPin : Nat → Nat → Option Nat
  devices : Bank → List Device

def pupdUp : BitVec 2 := 1
def pupdDown : BitVec 2 := 2
def pupdZero : BitVec 1 := 0

def needCheckPinlist : BitVec 32 := 1
def pinBackup : BitVec 32 := 2
def pinRestore : BitVec 32 := 4

/-! ## State -/

/-- `pinctrl_obj`: the pad registers by offset, and the pin of each pad. -/
structure PinctrlObj where
  regs : Nat → BitVec 32
  pinlist : Nat → Option Nat

/-- `pinctrl_obj` and `aon_pinctrl_obj`, `cur_pin` of the muxes, and the function of the second SD
controller. -/
structure PinctrlState where
  obj : Bank → PinctrlObj
  curPin : Nat → Nat
  sdc1Funcsel : Option Nat

/-- The start, with no pin on the lists. -/
def initial (regs : Bank → Nat → BitVec 32) (curPin : Nat → Nat) : PinctrlState where
  obj bank := ⟨regs bank, fun _ => none⟩
  curPin := curPin
  sdc1Funcsel := none

def PinctrlState.setObj (s : PinctrlState) (bank : Bank) (obj : PinctrlObj) : PinctrlState :=
  { s with obj := update s.obj bank obj }

/-- The empty pin list. -/
def PinctrlObj.clear (obj : PinctrlObj) : PinctrlObj := ⟨obj.regs, fun _ => none⟩

/-- A mux with another current pin. -/
def PinctrlState.move (s : PinctrlState) (mux muxsel : Nat) : PinctrlState :=
  { s with curPin := update s.curPin mux muxsel }

/-! ## Switches -/

/-- The register of a pad with the settings of a pin. -/
def selectReg (t : Table) (pin : Pin) (reg : BitVec 32) : BitVec 32 :=
  let pupd : BitVec 1 × BitVec 1 :=
    if pin.pullupPulldown = pupdDown then (t.pupdEnable, t.pupdDisable)
    else if pin.pullupPulldown = pupdUp then (t.pupdDisable, t.pupdEnable)
    else (pupdZero, pupdZero)
  let mfs := setField reg 24 pin.funcSel
  let pdn := setField mfs 16 pupd.1
  let pun := setField pdn 20 pupd.2
  let ds := setField pun 4 pin.drivingCurr
  let st := setField ds 8 1#1
  let ie := setField st 12 1#1
  setField ie 28 pin.outputEnable

/-- A pad with the settings of a pin, which is put on the pin list. -/
def PinctrlObj.select (t : Table) (obj : PinctrlObj) (p : Nat) : PinctrlObj where
  regs := update obj.regs (t.pins p).regOffset
    (selectReg t (t.pins p) (obj.regs (t.pins p).regOffset))
  pinlist := update obj.pinlist (t.pins p).padId (some p)

def funcSelect (t : Table) (obj : PinctrlObj) (pin : Option Nat) (flag : BitVec 32) :
    PinctrlObj × Int :=
  match pin with
  | none => (obj, -1)
  | some p =>
    if flag &&& needCheckPinlist ≠ 0 ∧ (obj.pinlist (t.pins p).padId).isSome then (obj, -2)
    else (obj.select t p, 0)

def muxSwitch (t : Table) (curPin : Nat → Nat) (flag : BitVec 32) (obj : PinctrlObj) (mux : Nat) :
    PinctrlObj × Int :=
  if t.muxNum ≤ curPin mux then (obj, -3)
  else
    match t.muxPin mux (curPin mux) with
    | none => (obj, -4)
    | some pin => funcSelect t obj (some pin) flag

/-- The loop of `fh_pinctrl_device_switch`, which does not look at what a switch returns. -/
def switchMuxes (t : Table) (curPin : Nat → Nat) (flag : BitVec 32) (obj : PinctrlObj)
    (muxes : List Nat) : PinctrlObj :=
  muxes.foldl (fun obj mux => (muxSwitch t curPin flag obj mux).1) obj

def deviceSwitch (t : Table) (s : PinctrlState) (bank : Bank) (dev : Device) (flag : BitVec 32) :
    PinctrlState × Int :=
  let s := s.setObj bank (switchMuxes t s.curPin flag (s.obj bank) dev.muxes)
  if t.pmuSd1FuncSel ∧ dev.devName.take 3 = ascii "SD1" then
    ({ s with sdc1Funcsel := some (s.curPin (dev.muxes.head dev.muxes_ne_nil)) }, 0)
  else (s, 0)

/-! ## Calls -/

def getDeviceByName (t : Table) (bank : Bank) (name : Name) : Option Device :=
  (t.devices bank).find? fun dev => name = dev.devName

/-- A device of either list. -/
def findDevice (t : Table) (name : Name) : Option (Bank × Device) :=
  match getDeviceByName t .pad name with
  | some dev => some (.pad, dev)
  | none => (getDeviceByName t .aon name).map fun dev => (.aon, dev)

/-- The search for a mux by the name of its first pin. There is no result when a mux has none. -/
def getMuxByName (t : Table) (name : Name) : List Nat → Option (Option Nat)
  | [] => some none
  | mux :: muxes =>
    match t.muxPin mux 0 with
    | none => none
    | some pin =>
      if name = (t.pins pin).funcName then some (some mux) else getMuxByName t name muxes

/-- A mux of the devices of either list. -/
def findMux (t : Table) (name : Name) : Option (Option (Bank × Nat)) :=
  match getMuxByName t name ((t.devices .pad).flatMap Device.muxes) with
  | none => none
  | some (some mux) => some (some (.pad, mux))
  | some none =>
    (getMuxByName t name ((t.devices .aon).flatMap Device.muxes)).map fun found =>
      found.map fun mux => (.aon, mux)

/-- What a call returns: a number, or the address of the name of a function. -/
inductive Ret where
  | code (ret : Int)
  | oldfunc (name : Name)
  deriving DecidableEq

def initDevicesLoop (t : Table) (bank : Bank) (flag : BitVec 32) :
    PinctrlState → List (Option Name) → PinctrlState × Int
  | s, [] => (s, 0)
  | s, none :: devlist => initDevicesLoop t bank flag s devlist
  | s, some name :: devlist =>
    match getDeviceByName t bank name with
    | none => (s, -5)
    | some dev =>
      let (s', ret) := deviceSwitch t s bank dev flag
      if ret ≠ 0 then (s', ret) else initDevicesLoop t bank flag s' devlist

def initDevices (t : Table) (s : PinctrlState) (bank : Bank) (devlist : List (Option Name))
    (flag : BitVec 32) : PinctrlState × Int :=
  initDevicesLoop t bank flag (s.setObj bank (s.obj bank).clear) devlist

def sdev (t : Table) (s : PinctrlState) (devname : Name) (flag : BitVec 32) :
    PinctrlState × Int :=
  match findDevice t devname with
  | none => (s, -7)
  | some (bank, dev) =>
    let (s', ret) := deviceSwitch t s bank dev flag
    if ret ≠ 0 then (s', ret) else (s', 0)

/-- The part of `fh_pinctrl_smux` from `mux_switch` on. A backup reads the current pin of the mux
without a check, and there is no result when the mux has none. -/
def smuxSwitch (t : Table) (s : PinctrlState) (bank : Bank) (mux : Nat) (flag : BitVec 32) :
    Option (PinctrlState × Ret) :=
  let (obj, ret) := muxSwitch t s.curPin flag (s.obj bank) mux
  if flag &&& pinBackup ≠ 0 then
    if s.curPin mux < t.muxNum then
      match t.muxPin mux (s.curPin mux) with
      | none => none
      | some pin =>
        match (s.obj bank).pinlist (t.pins pin).padId with
        | none => some (s, .code 0)
        | some old => some (s.setObj bank obj, .oldfunc (t.pins old).funcName)
    else none
  else some (s.setObj bank obj, .code ret)

/-- `fh_pinctrl_smux`. There is no result for a negative number, which reads in front of the pins of
the mux. -/
def smux (t : Table) (s : PinctrlState) (devname muxname : Name) (muxsel : Int)
    (flag : BitVec 32) : Option (PinctrlState × Ret) :=
  if flag &&& pinRestore ≠ 0 then
    match findMux t muxname with
    | none => none
    | some none => some (s, .code (-10))
    | some (some (bank, mux)) => smuxSwitch t s bank mux flag
  else
    match findDevice t devname with
    | none => some (s, .code (-4))
    | some (bank, dev) =>
      match getMuxByName t muxname dev.muxes with
      | none => none
      | some none => some (s, .code (-6))
      | some (some mux) =>
        if 0 ≤ muxsel then smuxSwitch t (s.move mux muxsel.toNat) bank mux flag else none

/-- The calls. -/
inductive Request where
  | initDevices (bank : Bank) (devlist : List (Option Name)) (flag : BitVec 32)
  | sdev (devname : Name) (flag : BitVec 32)
  | smux (devname muxname : Name) (muxsel : Int) (flag : BitVec 32)

def call (t : Table) (s : PinctrlState) : Request → Option (PinctrlState × Ret)
  | .initDevices bank devlist flag =>
    let (s', ret) := initDevices t s bank devlist flag
    some (s', .code ret)
  | .sdev devname flag =>
    let (s', ret) := sdev t s devname flag
    some (s', .code ret)
  | .smux devname muxname muxsel flag => smux t s devname muxname muxsel flag

def pinctrlStep (t : Table) (s : PinctrlState) (request : Request) : Option PinctrlState :=
  (call t s request).map Prod.fst

/-! ## The property and its condition -/

def currentPin (t : Table) (curPin : Nat → Nat) (mux : Nat) : Option Nat :=
  if curPin mux < t.muxNum then t.muxPin mux (curPin mux) else none

/-- The pin list has the current pin of the mux at its pad, whose register selects its function. -/
def Selected (t : Table) (curPin : Nat → Nat) (obj : PinctrlObj) (mux : Nat) : Prop :=
  ∃ pin, currentPin t curPin mux = some pin ∧ obj.pinlist (t.pins pin).padId = some pin ∧
    (obj.regs (t.pins pin).regOffset).extractLsb' 24 4 = (t.pins pin).funcSel

def Unchanged (s s' : PinctrlState) : Prop := s'.curPin = s.curPin ∧ s'.obj = s.obj

def Ret.IsError : Ret → Prop
  | .code ret => ret ≠ 0
  | .oldfunc _ => False

/-- The devices that an initialisation asks for. -/
def requestedDevices (t : Table) (bank : Bank) (devlist : List (Option Name)) : List Device :=
  devlist.reduceOption.filterMap (getDeviceByName t bank)

/-- A call that selects devices and returns 0 has selected all their muxes, and a call for a device
or a mux that returns an error has changed nothing. -/
def CallOk (t : Table) (s : PinctrlState) (request : Request) : Prop :=
  ∀ s' ret, call t s request = some (s', ret) →
    match request with
    | .initDevices bank devlist _ =>
      ret = .code 0 → ∀ dev ∈ requestedDevices t bank devlist, ∀ mux ∈ dev.muxes,
        Selected t s'.curPin (s'.obj bank) mux
    | .sdev devname _ =>
      (ret = .code 0 → ∀ bank dev, findDevice t devname = some (bank, dev) →
        ∀ mux ∈ dev.muxes, Selected t s'.curPin (s'.obj bank) mux) ∧
      (ret.IsError → Unchanged s s')
    | .smux _ _ _ _ => ret.IsError → Unchanged s s'

structure Agree (t : Table) (curPin : Nat → Nat) (muxes : List Nat) : Prop where
  chosen : ∀ mux ∈ muxes, ∃ pin, currentPin t curPin mux = some pin
  same : ∀ mux ∈ muxes, ∀ mux' ∈ muxes, ∀ pin pin', currentPin t curPin mux = some pin →
    currentPin t curPin mux' = some pin' → (t.pins pin').padId = (t.pins pin).padId → pin' = pin

def PadsFree (t : Table) (curPin : Nat → Nat) (flag : BitVec 32) (obj : PinctrlObj)
    (muxes : List Nat) : Prop :=
  flag &&& needCheckPinlist ≠ 0 → ∀ mux ∈ muxes, ∀ pin, currentPin t curPin mux = some pin →
    ∀ old, obj.pinlist (t.pins pin).padId = some old → old = pin

/-- The mux has a pin of this number, and with the check its pad is free. -/
def CanSelect (t : Table) (flag : BitVec 32) (obj : PinctrlObj) (mux muxsel : Nat) : Prop :=
  muxsel < t.muxNum ∧ ∃ pin, t.muxPin mux muxsel = some pin ∧
    (flag &&& needCheckPinlist ≠ 0 → obj.pinlist (t.pins pin).padId = none)

/-- The condition on the calls: what is selected agrees, and without a backup or a restore a mux is
moved only to a pin that it can select. -/
def CallCond (t : Table) (s : PinctrlState) : Request → Prop
  | .initDevices bank devlist _ =>
    (∀ name ∈ devlist.reduceOption, ∃ dev, getDeviceByName t bank name = some dev) →
      Agree t s.curPin ((requestedDevices t bank devlist).flatMap Device.muxes)
  | .sdev devname flag =>
    ∀ bank dev, findDevice t devname = some (bank, dev) →
      Agree t s.curPin dev.muxes ∧ PadsFree t s.curPin flag (s.obj bank) dev.muxes
  | .smux devname muxname muxsel flag =>
    flag &&& pinRestore = 0 → flag &&& pinBackup = 0 →
      ∀ bank dev mux, findDevice t devname = some (bank, dev) →
        getMuxByName t muxname dev.muxes = some (some mux) → 0 ≤ muxsel →
          muxsel.toNat = s.curPin mux ∨ CanSelect t flag (s.obj bank) mux muxsel.toNat

/-- A pin on the list is at its pad, whose register selects its function. -/
def ObjInv (t : Table) (obj : PinctrlObj) : Prop :=
  ∀ pad pin, obj.pinlist pad = some pin → (t.pins pin).padId = pad ∧
    (obj.regs (t.pins pin).regOffset).extractLsb' 24 4 = (t.pins pin).funcSel

def PinctrlInv (t : Table) (s : PinctrlState) : Prop := ∀ bank, ObjInv t (s.obj bank)

variable {t : Table} {s s' : PinctrlState} {obj : PinctrlObj} {curPin : Nat → Nat}
  {flag : BitVec 32} {bank : Bank} {mux pad pin p : Nat} {muxes : List Nat} {dev : Device}
  {devlist : List (Option Name)} {ret : Ret}

/-! ## Selecting a pin -/

/-- The settings of the pad leave the function that was put first. -/
theorem select_reg_mfs (t : Table) (pin : Pin) (reg : BitVec 32) :
    (selectReg t pin reg).extractLsb' 24 4 = pin.funcSel := by
  unfold selectReg
  rw [set_field_apart _ _ (by omega) (by omega), set_field_apart _ _ (by omega) (by omega),
    set_field_apart _ _ (by omega) (by omega), set_field_apart _ _ (by omega) (by omega),
    set_field_apart _ _ (by omega) (by omega), set_field_apart _ _ (by omega) (by omega),
    set_field_same _ _ (by omega)]

theorem select_pinlist_self (t : Table) (obj : PinctrlObj) (p : Nat) :
    (obj.select t p).pinlist (t.pins p).padId = some p :=
  update_self _ _ _

theorem select_pinlist_of_ne (h : pad ≠ (t.pins p).padId) :
    (obj.select t p).pinlist pad = obj.pinlist pad :=
  update_of_ne h _ _

theorem select_regs_self (t : Table) (obj : PinctrlObj) (p : Nat) :
    (obj.select t p).regs (t.pins p).regOffset =
      selectReg t (t.pins p) (obj.regs (t.pins p).regOffset) :=
  update_self _ _ _

theorem select_regs_of_ne (h : (t.pins pin).padId ≠ (t.pins p).padId) :
    (obj.select t p).regs (t.pins pin).regOffset = obj.regs (t.pins pin).regOffset := by
  refine update_of_ne (fun heq => h ?_) _ _
  unfold Pin.regOffset at heq
  omega

theorem select_inv (hinv : ObjInv t obj) (p : Nat) : ObjInv t (obj.select t p) := by
  intro pad pin hpin
  by_cases hpad : pad = (t.pins p).padId
  · subst hpad
    rw [select_pinlist_self] at hpin
    obtain rfl := some.inj hpin
    rw [select_regs_self]
    exact ⟨rfl, select_reg_mfs t _ _⟩
  · rw [select_pinlist_of_ne hpad] at hpin
    obtain ⟨hid, hmfs⟩ := hinv pad pin hpin
    rw [select_regs_of_ne (hid ▸ hpad)]
    exact ⟨hid, hmfs⟩

/-! ## Switching muxes -/

/-- A switch changes nothing and returns an error, or selects the current pin. With the check it
does so only on a free pad. -/
theorem mux_switch_cases (t : Table) (curPin : Nat → Nat) (flag : BitVec 32) (obj : PinctrlObj)
    (mux : Nat) :
    ((muxSwitch t curPin flag obj mux).1 = obj ∧ (muxSwitch t curPin flag obj mux).2 ≠ 0 ∧
      ∀ pin, currentPin t curPin mux = some pin → flag &&& needCheckPinlist ≠ 0 ∧
        ∃ old, obj.pinlist (t.pins pin).padId = some old) ∨
    ∃ pin, currentPin t curPin mux = some pin ∧
      muxSwitch t curPin flag obj mux = (obj.select t pin, 0) ∧
      (flag &&& needCheckPinlist ≠ 0 → obj.pinlist (t.pins pin).padId = none) := by
  unfold muxSwitch currentPin
  by_cases hnum : t.muxNum ≤ curPin mux
  · rw [if_pos hnum, if_neg (by omega)]
    exact .inl ⟨rfl, (by decide : (-3 : Int) ≠ 0), nofun⟩
  · rw [if_neg hnum, if_pos (by omega)]
    cases hpin : t.muxPin mux (curPin mux) with
    | none => exact .inl ⟨rfl, (by decide : (-4 : Int) ≠ 0), nofun⟩
    | some pin =>
      show (funcSelect t obj (some pin) flag).1 = obj ∧ _ ∨ _
      unfold funcSelect
      dsimp only
      by_cases htaken : flag &&& needCheckPinlist ≠ 0 ∧ (obj.pinlist (t.pins pin).padId).isSome
      · rw [if_pos htaken]
        refine .inl ⟨rfl, (by decide : (-2 : Int) ≠ 0), fun pin' hpin' => ?_⟩
        obtain rfl := some.inj hpin'
        exact ⟨htaken.1, isSome_iff_exists.mp htaken.2⟩
      · rw [if_neg htaken]
        refine .inr ⟨pin, rfl, rfl, fun hcheck => ?_⟩
        exact not_isSome_iff_eq_none.mp fun hsome => htaken ⟨hcheck, hsome⟩

theorem mux_switch_inv (hinv : ObjInv t obj) : ObjInv t (muxSwitch t curPin flag obj mux).1 := by
  rcases mux_switch_cases t curPin flag obj mux with ⟨hsame, -, -⟩ | ⟨pin, -, hselect, -⟩
  · rw [hsame]
    exact hinv
  · rw [hselect]
    exact select_inv hinv pin

theorem switch_muxes_cons (t : Table) (curPin : Nat → Nat) (flag : BitVec 32) (obj : PinctrlObj)
    (mux : Nat) (muxes : List Nat) :
    switchMuxes t curPin flag obj (mux :: muxes) =
      switchMuxes t curPin flag (muxSwitch t curPin flag obj mux).1 muxes :=
  rfl

theorem switch_muxes_append (t : Table) (curPin : Nat → Nat) (flag : BitVec 32) (obj : PinctrlObj)
    (muxes rest : List Nat) :
    switchMuxes t curPin flag obj (muxes ++ rest) =
      switchMuxes t curPin flag (switchMuxes t curPin flag obj muxes) rest :=
  foldl_append

theorem switch_muxes_inv (hinv : ObjInv t obj) (muxes : List Nat) :
    ObjInv t (switchMuxes t curPin flag obj muxes) := by
  induction muxes generalizing obj with
  | nil => exact hinv
  | cons mux muxes ih =>
    exact ih (mux_switch_inv hinv)

theorem mux_switch_entry (t : Table) (curPin : Nat → Nat) (flag : BitVec 32) (obj : PinctrlObj)
    (mux pad : Nat) :
    (muxSwitch t curPin flag obj mux).1.pinlist pad = obj.pinlist pad ∨
    ∃ pin, currentPin t curPin mux = some pin ∧ (t.pins pin).padId = pad ∧
      (muxSwitch t curPin flag obj mux).1.pinlist pad = some pin ∧
      (flag &&& needCheckPinlist ≠ 0 → obj.pinlist pad = none) := by
  rcases mux_switch_cases t curPin flag obj mux with ⟨hsame, -, -⟩ | ⟨pin, hpin, hselect, hfree⟩
  · exact .inl (by rw [hsame])
  · rw [hselect]
    by_cases hpad : pad = (t.pins pin).padId
    · subst hpad
      exact .inr ⟨pin, hpin, rfl, select_pinlist_self t obj pin, hfree⟩
    · exact .inl (select_pinlist_of_ne hpad)

theorem switch_muxes_keeps (hpad : obj.pinlist pad = some p)
    (hsame : ∀ mux ∈ muxes, ∀ pin, currentPin t curPin mux = some pin → (t.pins pin).padId = pad →
      flag &&& needCheckPinlist ≠ 0 ∨ pin = p) :
    (switchMuxes t curPin flag obj muxes).pinlist pad = some p := by
  induction muxes generalizing obj with
  | nil => exact hpad
  | cons mux muxes ih =>
    refine ih ?_ fun mux' hmux' => hsame mux' (mem_cons_of_mem mux hmux')
    rcases mux_switch_entry t curPin flag obj mux pad with
      hentry | ⟨pin, hpin, hid, hentry, hfree⟩
    · rw [hentry, hpad]
    · rcases hsame mux mem_cons_self pin hpin hid with hcheck | rfl
      · have hnone := hfree hcheck
        rw [hpad] at hnone
        cases hnone
      · exact hentry

/-- The current pin of a mux is on the list in the end when no other pin is wanted at its pad, and
with the check no other pin was there before. -/
theorem switch_muxes_selects (hmux : mux ∈ muxes) (hp : currentPin t curPin mux = some p)
    (hsame : ∀ mux ∈ muxes, ∀ pin, currentPin t curPin mux = some pin →
      (t.pins pin).padId = (t.pins p).padId → pin = p)
    (hfree : flag &&& needCheckPinlist ≠ 0 →
      ∀ old, obj.pinlist (t.pins p).padId = some old → old = p) :
    (switchMuxes t curPin flag obj muxes).pinlist (t.pins p).padId = some p := by
  induction muxes generalizing obj with
  | nil => cases hmux
  | cons first muxes ih =>
    rw [switch_muxes_cons]
    have hrest : ∀ mux ∈ muxes, ∀ pin, currentPin t curPin mux = some pin →
        (t.pins pin).padId = (t.pins p).padId → pin = p :=
      fun mux' hmux' => hsame mux' (mem_cons_of_mem first hmux')
    rcases mem_cons.mp hmux with rfl | hmem
    · refine switch_muxes_keeps ?_ fun mux' hmux' pin hpin hid =>
        .inr (hrest mux' hmux' pin hpin hid)
      rcases mux_switch_cases t curPin flag obj mux with
        ⟨hsame', -, htaken⟩ | ⟨pin, hpin, hselect, -⟩
      · -- the pad was taken, but only its own pin could be there
        obtain ⟨hcheck, old, hold⟩ := htaken p hp
        rw [hsame', hold, hfree hcheck old hold]
      · obtain rfl := some.inj (hp.symm.trans hpin)
        rw [hselect]
        exact select_pinlist_self t obj p
    · refine ih hmem hrest fun hcheck old hold => ?_
      rcases mux_switch_entry t curPin flag obj first (t.pins p).padId with
        hentry | ⟨pin, hpin, hid, hentry, -⟩
      · exact hfree hcheck old (hentry ▸ hold)
      · rw [hentry] at hold
        obtain rfl := some.inj hold
        exact hsame first mem_cons_self pin hpin hid

/-- The muxes are all selected exactly if their pins agree with each other, and with the check also
with the pins on the list. -/
theorem switch_muxes_iff (hinv : ObjInv t obj) :
    (∀ mux ∈ muxes, Selected t curPin (switchMuxes t curPin flag obj muxes) mux) ↔
      Agree t curPin muxes ∧ PadsFree t curPin flag obj muxes := by
  constructor
  · intro hall
    have hentry : ∀ mux ∈ muxes, ∀ pin, currentPin t curPin mux = some pin →
        (switchMuxes t curPin flag obj muxes).pinlist (t.pins pin).padId = some pin := by
      intro mux hmux pin hpin
      obtain ⟨pin', hpin', hlist, -⟩ := hall mux hmux
      obtain rfl := some.inj (hpin.symm.trans hpin')
      exact hlist
    refine ⟨⟨fun mux hmux => ?_, fun mux hmux mux' hmux' pin pin' hpin hpin' hid => ?_⟩,
      fun hcheck mux hmux pin hpin old hold => ?_⟩
    · obtain ⟨pin, hpin, -⟩ := hall mux hmux
      exact ⟨pin, hpin⟩
    · have hother := hentry mux' hmux' pin' hpin'
      rw [hid, hentry mux hmux pin hpin] at hother
      exact (some.inj hother).symm
    · have hkept := switch_muxes_keeps hold fun mux' (_ : mux' ∈ muxes) pin'
        (_ : currentPin t curPin mux' = some pin') _ => .inl hcheck
      rw [hentry mux hmux pin hpin] at hkept
      exact (some.inj hkept).symm
  · rintro ⟨hagree, hfree⟩ mux hmux
    obtain ⟨pin, hpin⟩ := hagree.chosen mux hmux
    have hlist := switch_muxes_selects hmux hpin
      (fun mux' hmux' pin' hpin' => hagree.same mux hmux mux' hmux' pin pin' hpin hpin')
      fun hcheck => hfree hcheck mux hmux pin hpin
    exact ⟨pin, hpin, hlist, (switch_muxes_inv hinv muxes _ _ hlist).2⟩

/-! ## Devices -/

@[simp] theorem set_obj_self (s : PinctrlState) (bank : Bank) (obj : PinctrlObj) :
    (s.setObj bank obj).obj bank = obj :=
  update_self _ _ _

theorem set_obj_inv (hinv : PinctrlInv t s) (hobj : ObjInv t obj) :
    PinctrlInv t (s.setObj bank obj) := by
  intro other
  by_cases hother : other = bank
  · subst hother
    rw [set_obj_self]
    exact hobj
  · show ObjInv t (update s.obj bank obj other)
    rw [update_of_ne hother]
    exact hinv other

theorem device_switch_spec (t : Table) (s : PinctrlState) (bank : Bank) (dev : Device)
    (flag : BitVec 32) :
    (deviceSwitch t s bank dev flag).2 = 0 ∧
      (deviceSwitch t s bank dev flag).1.curPin = s.curPin ∧
      (deviceSwitch t s bank dev flag).1.obj =
        (s.setObj bank (switchMuxes t s.curPin flag (s.obj bank) dev.muxes)).obj := by
  unfold deviceSwitch
  by_cases hsd : t.pmuSd1FuncSel ∧ dev.devName.take 3 = ascii "SD1"
  · rw [if_pos hsd]
    exact ⟨rfl, rfl, rfl⟩
  · rw [if_neg hsd]
    exact ⟨rfl, rfl, rfl⟩

theorem device_switch_ret (t : Table) (s : PinctrlState) (bank : Bank) (dev : Device)
    (flag : BitVec 32) : (deviceSwitch t s bank dev flag).2 = 0 :=
  (device_switch_spec t s bank dev flag).1

theorem device_switch_obj (t : Table) (s : PinctrlState) (bank : Bank) (dev : Device)
    (flag : BitVec 32) :
    (deviceSwitch t s bank dev flag).1.obj bank =
      switchMuxes t s.curPin flag (s.obj bank) dev.muxes := by
  rw [(device_switch_spec t s bank dev flag).2.2, set_obj_self]

theorem device_switch_inv (hinv : PinctrlInv t s) :
    PinctrlInv t (deviceSwitch t s bank dev flag).1 := by
  intro other
  rw [(device_switch_spec t s bank dev flag).2.2]
  exact set_obj_inv hinv (switch_muxes_inv (hinv bank) dev.muxes) other

theorem init_devices_loop_cons (t : Table) (s : PinctrlState) (bank : Bank) (flag : BitVec 32)
    (name : Name) (devlist : List (Option Name)) (hdev : getDeviceByName t bank name = some dev) :
    initDevicesLoop t bank flag s (some name :: devlist) =
      initDevicesLoop t bank flag (deviceSwitch t s bank dev flag).1 devlist := by
  rw [initDevicesLoop, hdev]
  dsimp only
  rw [if_neg (not_not_intro (device_switch_ret t s bank dev flag))]

theorem init_devices_loop_inv (hinv : PinctrlInv t s) (devlist : List (Option Name)) :
    PinctrlInv t (initDevicesLoop t bank flag s devlist).1 := by
  induction devlist generalizing s with
  | nil => exact hinv
  | cons entry devlist ih =>
    cases entry with
    | none => exact ih hinv
    | some name =>
      cases hdev : getDeviceByName t bank name with
      | none =>
        rw [initDevicesLoop, hdev]
        exact hinv
      | some dev =>
        rw [init_devices_loop_cons t s bank flag name devlist hdev]
        exact ih (device_switch_inv hinv)

theorem init_devices_loop_found
    (hfound : ∀ name ∈ devlist.reduceOption, ∃ dev, getDeviceByName t bank name = some dev) :
    (initDevicesLoop t bank flag s devlist).2 = 0 ∧
      (initDevicesLoop t bank flag s devlist).1.curPin = s.curPin ∧
      (initDevicesLoop t bank flag s devlist).1.obj bank =
        switchMuxes t s.curPin flag (s.obj bank)
          ((requestedDevices t bank devlist).flatMap Device.muxes) := by
  induction devlist generalizing s with
  | nil => exact ⟨rfl, rfl, rfl⟩
  | cons entry devlist ih =>
    cases entry with
    | none => exact ih hfound
    | some name =>
      obtain ⟨⟨dev, hdev⟩, hrest⟩ := forall_mem_cons.mp hfound
      obtain ⟨hret, hcur, hobj⟩ := ih (s := (deviceSwitch t s bank dev flag).1) hrest
      have hdevices : requestedDevices t bank (some name :: devlist) =
          dev :: requestedDevices t bank devlist := by
        unfold requestedDevices
        rw [reduceOption_cons_of_some, filterMap_cons_some hdev]
      have hsame := (device_switch_spec t s bank dev flag).2.1
      rw [init_devices_loop_cons t s bank flag name devlist hdev, hdevices,
        flatMap_cons, switch_muxes_append, ← device_switch_obj, ← hsame]
      exact ⟨hret, hcur, hobj⟩

theorem init_devices_loop_missing {name : Name} (hname : name ∈ devlist.reduceOption)
    (hmissing : getDeviceByName t bank name = none) :
    (initDevicesLoop t bank flag s devlist).2 = -5 := by
  induction devlist generalizing s with
  | nil => cases hname
  | cons entry devlist ih =>
    cases entry with
    | none => exact ih hname
    | some first =>
      cases hdev : getDeviceByName t bank first with
      | none => rw [initDevicesLoop, hdev]
      | some dev =>
        rw [init_devices_loop_cons t s bank flag first devlist hdev]
        rcases mem_cons.mp hname with rfl | hmem
        · rw [hmissing] at hdev
          cases hdev
        · exact ih hmem

/-! ## Calls -/

theorem clear_obj_inv (obj : PinctrlObj) : ObjInv t obj.clear := nofun

theorem clear_inv (hinv : PinctrlInv t s) (bank : Bank) :
    PinctrlInv t (s.setObj bank (s.obj bank).clear) :=
  set_obj_inv hinv (clear_obj_inv (s.obj bank))

theorem smux_switch_cases (h : smuxSwitch t s bank mux flag = some (s', ret)) :
    (s' = s ∧ ret = .code 0) ∨
      s' = s.setObj bank (muxSwitch t s.curPin flag (s.obj bank) mux).1 ∧
        ((flag &&& pinBackup = 0 ∧ ret = .code (muxSwitch t s.curPin flag (s.obj bank) mux).2) ∨
          ∃ name, ret = .oldfunc name) := by
  unfold smuxSwitch at h
  dsimp only at h
  by_cases hbackup : flag &&& pinBackup ≠ 0
  · rw [if_pos hbackup] at h
    by_cases hnum : s.curPin mux < t.muxNum
    · rw [if_pos hnum] at h
      cases hpin : t.muxPin mux (s.curPin mux) with
      | none =>
        rw [hpin] at h
        cases h
      | some pin =>
        cases hold : (s.obj bank).pinlist (t.pins pin).padId with
        | none =>
          rw [hpin] at h
          dsimp only at h
          rw [hold] at h
          cases h
          exact .inl ⟨rfl, rfl⟩
        | some old =>
          rw [hpin] at h
          dsimp only at h
          rw [hold] at h
          cases h
          exact .inr ⟨rfl, .inr ⟨_, rfl⟩⟩
    · rw [if_neg hnum] at h
      cases h
  · rw [if_neg hbackup] at h
    cases h
    exact .inr ⟨rfl, .inl ⟨not_not.mp hbackup, rfl⟩⟩

theorem smux_switch_inv (hinv : PinctrlInv t s)
    (h : smuxSwitch t s bank mux flag = some (s', ret)) :
    PinctrlInv t s' := by
  rcases smux_switch_cases h with ⟨rfl, -⟩ | ⟨rfl, -⟩
  · exact hinv
  · exact set_obj_inv hinv (mux_switch_inv (hinv bank))

theorem smux_switch_error (h : smuxSwitch t s bank mux flag = some (s', ret))
    (herror : ret.IsError) :
    flag &&& pinBackup = 0 ∧ s' = s ∧ (muxSwitch t s.curPin flag (s.obj bank) mux).2 ≠ 0 := by
  rcases smux_switch_cases h with ⟨-, rfl⟩ | ⟨rfl, ⟨hbackup, rfl⟩ | ⟨name, rfl⟩⟩
  · exact absurd rfl herror
  · rcases mux_switch_cases t s.curPin flag (s.obj bank) mux with
      ⟨hsame, -, -⟩ | ⟨pin, -, hselect, -⟩
    · refine ⟨hbackup, ?_, herror⟩
      rw [hsame]
      show { s with obj := update s.obj bank (s.obj bank) } = s
      rw [update_eq_self]
    · rw [hselect] at herror
      exact absurd rfl herror
  · cases herror

/-- `fh_pinctrl_smux` does nothing, or switches a mux: with a restore one of any device as it is,
and otherwise one of the device after it moved. -/
theorem smux_cases {devname muxname : Name} {muxsel : Int}
    (h : smux t s devname muxname muxsel flag = some (s', ret)) :
    s' = s ∨
    (flag &&& pinRestore ≠ 0 ∧ ∃ bank mux, smuxSwitch t s bank mux flag = some (s', ret)) ∨
    (flag &&& pinRestore = 0 ∧ ∃ bank dev mux, findDevice t devname = some (bank, dev) ∧
      getMuxByName t muxname dev.muxes = some (some mux) ∧ 0 ≤ muxsel ∧
      smuxSwitch t (s.move mux muxsel.toNat) bank mux flag = some (s', ret)) := by
  unfold smux at h
  by_cases hrestore : flag &&& pinRestore ≠ 0
  · rw [if_pos hrestore] at h
    rcases hmux : findMux t muxname with _ | _ | ⟨bank, mux⟩
    · rw [hmux] at h
      cases h
    · rw [hmux] at h
      cases h
      exact .inl rfl
    · rw [hmux] at h
      exact .inr (.inl ⟨hrestore, bank, mux, h⟩)
  · rw [if_neg hrestore] at h
    rcases hdev : findDevice t devname with _ | ⟨bank, dev⟩
    · rw [hdev] at h
      cases h
      exact .inl rfl
    · rw [hdev] at h
      dsimp only at h
      rcases hmux : getMuxByName t muxname dev.muxes with _ | _ | mux
      · rw [hmux] at h
        cases h
      · rw [hmux] at h
        cases h
        exact .inl rfl
      · rw [hmux] at h
        obtain ⟨hsel, h⟩ := ite_none_right_eq_some.mp h
        exact .inr (.inr ⟨not_not.mp hrestore, bank, dev, mux, rfl, hmux, hsel, h⟩)

/-- Every call keeps what the list says about the registers. -/
theorem pinctrl_step_inv {request : Request} (hinv : PinctrlInv t s)
    (hstep : pinctrlStep t s request = some s') : PinctrlInv t s' := by
  obtain ⟨⟨s1, ret⟩, hcall, rfl⟩ := map_eq_some_iff.mp hstep
  cases request with
  | initDevices bank devlist flag =>
    cases hcall
    exact init_devices_loop_inv (clear_inv hinv bank) devlist
  | sdev devname flag =>
    cases hcall
    show PinctrlInv t (sdev t s devname flag).1
    unfold sdev
    cases findDevice t devname with
    | none => exact hinv
    | some found =>
      dsimp only
      rw [if_neg (not_not_intro (device_switch_ret t s found.1 found.2 flag))]
      exact device_switch_inv hinv
  | smux devname muxname muxsel flag =>
    rcases smux_cases hcall with hsame | ⟨-, bank, mux, h⟩ | ⟨-, bank, dev, mux, -, -, -, h⟩
    · rw [hsame]
      exact hinv
    · exact smux_switch_inv hinv h
    · exact smux_switch_inv (s := s.move mux muxsel.toNat) hinv h

/-! ## One call -/

theorem init_devices_found (s : PinctrlState) (flag : BitVec 32)
    (hfound : ∀ name ∈ devlist.reduceOption, ∃ dev, getDeviceByName t bank name = some dev) :
    (initDevices t s bank devlist flag).2 = 0 ∧
      (initDevices t s bank devlist flag).1.curPin = s.curPin ∧
      (initDevices t s bank devlist flag).1.obj bank =
        switchMuxes t s.curPin flag (s.obj bank).clear
          ((requestedDevices t bank devlist).flatMap Device.muxes) := by
  obtain ⟨hret, hcur, hobj⟩ := init_devices_loop_found hfound
  rw [set_obj_self] at hobj
  exact ⟨hret, hcur, hobj⟩

/-- An initialisation is right exactly if it misses a device or the muxes agree. -/
theorem init_devices_ok_iff (s : PinctrlState) (bank : Bank) (devlist : List (Option Name))
    (flag : BitVec 32) :
    CallOk t s (.initDevices bank devlist flag) ↔
      CallCond t s (.initDevices bank devlist flag) := by
  have hok : CallOk t s (.initDevices bank devlist flag) ↔
      ((initDevices t s bank devlist flag).2 = 0 →
        ∀ dev ∈ requestedDevices t bank devlist, ∀ mux ∈ dev.muxes,
          Selected t (initDevices t s bank devlist flag).1.curPin
            ((initDevices t s bank devlist flag).1.obj bank) mux) := by
    constructor
    · intro h hret
      exact h _ _ rfl (congrArg Ret.code hret)
    · intro h s' ret hcall hret
      cases hcall
      exact h (Ret.code.inj hret)
  rw [hok]
  unfold CallCond
  dsimp only
  by_cases hfound : ∀ name ∈ devlist.reduceOption, ∃ dev, getDeviceByName t bank name = some dev
  · obtain ⟨hret, hcur, hobj⟩ := init_devices_found s flag hfound
    have hempty : ObjInv t (s.obj bank).clear := clear_obj_inv (s.obj bank)
    have hfree : PadsFree t s.curPin flag (s.obj bank).clear
        ((requestedDevices t bank devlist).flatMap Device.muxes) :=
      fun _ _ _ _ _ _ hold => by cases hold
    rw [hcur, hobj, forall_prop_of_true hret, forall_prop_of_true hfound]
    constructor
    · intro hall
      have hmuxes : ∀ mux ∈ (requestedDevices t bank devlist).flatMap Device.muxes,
          Selected t s.curPin (switchMuxes t s.curPin flag (s.obj bank).clear
            ((requestedDevices t bank devlist).flatMap Device.muxes)) mux := by
        intro mux hmux
        obtain ⟨dev, hdev, hmem⟩ := mem_flatMap.mp hmux
        exact hall dev hdev mux hmem
      exact ((switch_muxes_iff hempty).mp hmuxes).1
    · intro hagree dev hdev mux hmux
      exact (switch_muxes_iff hempty).mpr ⟨hagree, hfree⟩ mux
        (mem_flatMap.mpr ⟨dev, hdev, hmux⟩)
  · refine iff_of_true (fun hret => ?_) fun hall => absurd hall hfound
    push Not at hfound
    obtain ⟨name, hname, hnone⟩ := hfound
    have hmissing := eq_none_iff_forall_ne_some.mpr hnone
    have hret' : (initDevices t s bank devlist flag).2 = -5 :=
      init_devices_loop_missing hname hmissing
    rw [hret'] at hret
    cases hret

/-- Selecting a device is right exactly if its muxes agree with each other, and with the check also
with the pin list. -/
theorem sdev_ok_iff (hinv : PinctrlInv t s) (devname : Name) (flag : BitVec 32) :
    CallOk t s (.sdev devname flag) ↔ CallCond t s (.sdev devname flag) := by
  have hcall : call t s (.sdev devname flag) =
      some ((sdev t s devname flag).1, .code (sdev t s devname flag).2) :=
    rfl
  unfold CallOk CallCond
  rw [hcall]
  unfold sdev
  dsimp only
  rcases hdev : findDevice t devname with _ | ⟨bank, dev⟩
  · refine iff_of_true (fun s' ret heq => ?_) nofun
    cases heq
    exact ⟨nofun, fun _ => ⟨rfl, rfl⟩⟩
  · have hspec := device_switch_spec t s bank dev flag
    have hobj := device_switch_obj t s bank dev flag
    dsimp only
    rw [if_neg (not_not_intro hspec.1)]
    constructor
    · intro h bank' dev' heq
      cases heq
      have hall := (h _ _ rfl).1 rfl bank dev rfl
      rw [hspec.2.1, hobj] at hall
      exact (switch_muxes_iff (hinv bank)).mp hall
    · intro h s' ret heq
      cases heq
      refine ⟨fun _ bank' dev' heq => ?_, fun herror => absurd rfl herror⟩
      cases heq
      rw [hspec.2.1, hobj]
      exact (switch_muxes_iff (hinv bank)).mpr (h bank dev rfl)

/-- Switching a mux is right exactly if it does not move, or moves to a pin that it can select. -/
theorem smux_ok_iff (s : PinctrlState) (devname muxname : Name) (muxsel : Int)
    (flag : BitVec 32) :
    CallOk t s (.smux devname muxname muxsel flag) ↔
      CallCond t s (.smux devname muxname muxsel flag) := by
  constructor
  · intro h hrestore hbackup bank dev mux hdev hmux hsel
    have hsmux : smux t s devname muxname muxsel flag =
        smuxSwitch t (s.move mux muxsel.toNat) bank mux flag := by
      unfold smux
      rw [if_neg (not_not_intro hrestore), hdev]
      dsimp only
      rw [hmux]
      exact if_pos hsel
    have hcall : call t s (.smux devname muxname muxsel flag) = some
        ((s.move mux muxsel.toNat).setObj bank
          (muxSwitch t (s.move mux muxsel.toNat).curPin flag (s.obj bank) mux).1,
        .code (muxSwitch t (s.move mux muxsel.toNat).curPin flag (s.obj bank) mux).2) :=
      hsmux.trans (if_neg (not_not_intro hbackup))
    have hmoved : (s.move mux muxsel.toNat).curPin mux = muxsel.toNat := update_self _ _ _
    rcases mux_switch_cases t (s.move mux muxsel.toNat).curPin flag (s.obj bank) mux with
      ⟨-, herror, -⟩ | ⟨pin, hpin, -, hfree⟩
    · have hcur : (s.move mux muxsel.toNat).curPin = s.curPin := (h _ _ hcall herror).1
      exact .inl (hmoved.symm.trans (congrFun hcur mux))
    · unfold currentPin at hpin
      rw [hmoved] at hpin
      obtain ⟨hnum, hpin⟩ := ite_none_right_eq_some.mp hpin
      exact .inr ⟨hnum, pin, hpin, hfree⟩
  · intro h s' ret hcall herror
    rcases smux_cases hcall with rfl | ⟨-, bank, mux, hswitch⟩ |
      ⟨hrestore, bank, dev, mux, hdev, hmux, hsel, hswitch⟩
    · exact ⟨rfl, rfl⟩
    · obtain ⟨-, rfl, -⟩ := smux_switch_error hswitch herror
      exact ⟨rfl, rfl⟩
    · obtain ⟨hbackup, rfl, hfailed⟩ := smux_switch_error hswitch herror
      rcases h hrestore hbackup bank dev mux hdev hmux hsel with hsame | ⟨hnum, pin, hpin, hfree⟩
      · refine ⟨?_, rfl⟩
        show update s.curPin mux muxsel.toNat = s.curPin
        rw [hsame, update_eq_self]
      · have hcurrent : currentPin t (s.move mux muxsel.toNat).curPin mux = some pin := by
          unfold currentPin
          rw [show (s.move mux muxsel.toNat).curPin mux = muxsel.toNat from
            update_self _ _ _]
          exact (if_pos hnum).trans hpin
        rcases mux_switch_cases t (s.move mux muxsel.toNat).curPin flag (s.obj bank) mux with
          ⟨-, -, htaken⟩ | ⟨_, -, hselect, -⟩
        · -- the pad would be taken although the condition has it free
          obtain ⟨hcheck, old, hold⟩ := htaken pin hcurrent
          rw [hfree hcheck] at hold
          cases hold
        · exact absurd (congrArg Prod.snd hselect) hfailed

/-! ## Runs -/

theorem initial_inv (regs : Bank → Nat → BitVec 32) (curPin : Nat → Nat) :
    PinctrlInv t (initial regs curPin) := fun _ => nofun

/-- In every run the calls are all right exactly if the condition holds at every call. -/
theorem selected_or_unchanged_iff (t : Table) (regs : Bank → Nat → BitVec 32) (curPin : Nat → Nat)
    (requests : List Request) :
    AllSteps (pinctrlStep t) (CallOk t) (initial regs curPin) requests ↔
      AllSteps (pinctrlStep t) (CallCond t) (initial regs curPin) requests := by
  refine all_steps_iff (fun s request s' => pinctrl_step_inv) (fun s request hinv => ?_)
    (initial_inv regs curPin)
  cases request with
  | initDevices bank devlist flag => exact init_devices_ok_iff s bank devlist flag
  | sdev devname flag => exact sdev_ok_iff hinv devname flag
  | smux devname muxname muxsel flag => exact smux_ok_iff s devname muxname muxsel flag

/-- Two devices with a mux each, whose pins share pad 0. -/
def sharedPadTable : Table where
  muxNum := 6
  pupdDisable := 0
  pupdEnable := 1
  pmuSd1FuncSel := false
  pins p := ⟨[BitVec.ofNat 8 p], 0, BitVec.ofNat 4 p, 1, 0, 0⟩
  muxPin mux i := if i = 0 then some mux else none
  devices
    | .pad => [⟨ascii "A", [1], by decide⟩, ⟨ascii "B", [2], by decide⟩]
    | .aon => []

/-- The second device is selected with a result of 0 while the pad keeps the pin of the first. -/
theorem second_not_selected :
    ¬ AllSteps (pinctrlStep sharedPadTable) (CallOk sharedPadTable)
      (initial (fun _ _ => 0) fun _ => 0)
      [.sdev (ascii "A") 0, .sdev (ascii "B") needCheckPinlist] := by
  intro hall
  have hsecond := (hall.2 _ rfl).1
  obtain ⟨pin, hpin, hlist, -⟩ := (hsecond _ _ rfl).1 rfl .pad ⟨ascii "B", [2], by decide⟩ rfl 2
    mem_cons_self
  obtain rfl : 2 = pin := some.inj hpin
  have hfirst : some 1 = some 2 := hlist
  cases hfirst

end FullhanRtos.Pinctrl
