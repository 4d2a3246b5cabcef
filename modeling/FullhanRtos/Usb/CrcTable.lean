import FullhanRtos.Lib.Transition
import FullhanRtos.Usb.FlashBase

/-!
# The CRC table and its flag

`crc32_table_init` is set before `makeCRCTable` fills the table, and only `uvc_update_proc` and
`fh_uvc_ispara_load` test it. `crc_table_ready_iff` says when no thread is in `calcCRC` before the
table is complete.
-/

namespace FullhanRtos.UsbUpdate

open Bytes Transition Function

/-- The functions whose threads share the table. -/
inductive CrcUser where
  | uvcUpdateProc
  | fhUvcIsparaLoad
  | uvcInfoOption
  | uvcInfoSaveData
  | uvcParaWrite
  deriving DecidableEq

/-- It makes the table unless the flag is set. -/
def CrcUser.testsFlag : CrcUser → Bool
  | .uvcUpdateProc | .fhUvcIsparaLoad => true
  | .uvcInfoOption | .uvcInfoSaveData | .uvcParaWrite => false

/-- How often it calls `calcCRC` at most. -/
def CrcUser.checks : CrcUser → Nat
  | .uvcUpdateProc => 0
  | .fhUvcIsparaLoad | .uvcInfoSaveData | .uvcParaWrite => 1
  | .uvcInfoOption => 2

/-- Where a thread is, with the calls of `calcCRC` that it may still make; `fill` has the index of
the next entry. -/
inductive CrcPlace where
  | idle
  | test (left : Nat)
  | setFlag (left : Nat)
  | fill (left i : Nat)
  | ready (left : Nat)
  | inCalcCRC (left : Nat)
  deriving DecidableEq

/-- `made` says that a call of `makeCRCTable` has returned. -/
structure CrcSys (τ : Type) where
  crc32TableInit : Bool
  crc32Table : Nat → BitVec 32
  place : τ → CrcPlace
  made : Bool

/-- The steps of a thread: into a function, on in it, into `calcCRC`, and out of the function. -/
inductive CrcOp (τ : Type) where
  | call (t : τ) (user : CrcUser)
  | step (t : τ)
  | calcCRC (t : τ)
  | leave (t : τ)

/-- An entry of the complete table. -/
def crcEntry (i : Nat) : BitVec 32 := (makeCRCTable CRC_SEED).getD i 0

section

variable {τ : Type} [DecidableEq τ]

def CrcSys.goto (s : CrcSys τ) (t : τ) (place : CrcPlace) : CrcSys τ :=
  { s with place := update s.place t place }

/-- The store of an entry by `makeCRCTable`, which returns behind the last one. -/
def storeEntry (s : CrcSys τ) (t : τ) (left i : Nat) : CrcSys τ :=
  { s with
    crc32Table := update s.crc32Table i (crcEntry i)
    made := s.made || i + 1 = 256 }.goto t (if i + 1 < 256 then .fill left (i + 1) else .ready left)

def crcStep (s : CrcSys τ) : CrcOp τ → Option (CrcSys τ)
  | .call t user =>
    match s.place t with
    | .idle => some (s.goto t (if user.testsFlag then .test user.checks else .ready user.checks))
    | _ => none
  | .step t =>
    match s.place t with
    | .test left => some (s.goto t (if s.crc32TableInit then .ready left else .setFlag left))
    | .setFlag left => some ({ s with crc32TableInit := true }.goto t (.fill left 0))
    | .fill left i => some (storeEntry s t left i)
    | .inCalcCRC left => some (s.goto t (.ready left))
    | _ => none
  | .calcCRC t =>
    match s.place t with
    | .ready (left + 1) => some (s.goto t (.inCalcCRC left))
    | _ => none
  | .leave t =>
    match s.place t with
    | .ready _ => some (s.goto t .idle)
    | _ => none

/-- No thread has begun. -/
def crcStart : CrcSys τ where
  crc32TableInit := false
  crc32Table := fun _ => 0
  place := fun _ => .idle
  made := false

/-- All entries are made. -/
def TableComplete (table : Nat → BitVec 32) : Prop := ∀ i < 256, table i = crcEntry i

/-- Threads in `calcCRC` use the complete table. -/
def CrcSafe (s : CrcSys τ) : Prop :=
  ∀ t left, s.place t = .inCalcCRC left → TableComplete s.crc32Table

/-- `calcCRC` is called only when a call of `makeCRCTable` has returned. -/
def MadeBefore (s : CrcSys τ) : CrcOp τ → Prop
  | .calcCRC _ => s.made = true
  | _ => True

/-- The entries in front of the next one of a thread are made, and the last entry is made when the
first call returns. -/
structure CrcInv (s : CrcSys τ) : Prop where
  filled : ∀ t left i, s.place t = .fill left i → i < 256 ∧ ∀ j < i, s.crc32Table j = crcEntry j
  complete : s.made = true → TableComplete s.crc32Table
  last : s.made = false → s.crc32Table 255 = 0

variable {s s' : CrcSys τ} {t : τ} {place : CrcPlace} {left i : Nat}

omit [DecidableEq τ] in
theorem CrcInv.complete_iff (h : CrcInv s) : TableComplete s.crc32Table ↔ s.made = true := by
  refine ⟨fun hcomplete => ?_, h.complete⟩
  by_contra hnot
  have hzero := h.last (Bool.eq_false_iff.mpr hnot)
  rw [hcomplete 255 (by decide)] at hzero
  exact absurd hzero (by decide +kernel)

/-- A thread goes on without a store. -/
theorem CrcInv.goto (h : CrcInv s)
    (hplace : ∀ left i, place = .fill left i → i < 256 ∧ ∀ j < i, s.crc32Table j = crcEntry j) :
    CrcInv (s.goto t place) := by
  refine ⟨fun u left i hu => ?_, h.complete, h.last⟩
  by_cases hut : u = t
  · rw [hut] at hu
    exact hplace left i ((update_self ..).symm.trans hu)
  · exact h.filled u left i ((update_of_ne hut ..).symm.trans hu)

theorem safe_goto (hplace : ∀ left, place ≠ .inCalcCRC left) (hsafe : CrcSafe s) :
    CrcSafe (s.goto t place) := by
  intro u left hu
  by_cases hut : u = t
  · rw [hut] at hu
    exact absurd ((update_self ..).symm.trans hu) (hplace left)
  · exact hsafe u left ((update_of_ne hut ..).symm.trans hu)

/-- What is made stays made. -/
theorem stored_entry {table : Nat → BitVec 32} {j : Nat} (h : table j = crcEntry j) :
    update table i (crcEntry i) j = crcEntry j := by
  by_cases hj : j = i
  · rw [hj, update_self]
  · rw [update_of_ne hj, h]

theorem store_entry_ok (h : CrcInv s) (hsafe : CrcSafe s) (hplace : s.place t = .fill left i) :
    CrcInv (storeEntry s t left i) ∧ CrcSafe (storeEntry s t left i) := by
  obtain ⟨hi, hfilled⟩ := h.filled t left i hplace
  have hnext : ∀ j < i + 1, update s.crc32Table i (crcEntry i) j = crcEntry j := by
    intro j hj
    rcases Nat.lt_succ_iff_lt_or_eq.mp hj with hless | rfl
    · exact stored_entry (hfilled j hless)
    · exact update_self ..
  have hstored : CrcInv { s with
      crc32Table := update s.crc32Table i (crcEntry i), made := s.made || i + 1 = 256 } := by
    refine ⟨fun u left' k hu => ?_, fun hmade j hj => ?_, fun hmade => ?_⟩
    · obtain ⟨hk, hbefore⟩ := h.filled u left' k hu
      exact ⟨hk, fun j hj => stored_entry (hbefore j hj)⟩
    · rcases Bool.or_eq_true_iff.mp hmade with hmade | hlast
      · exact stored_entry (h.complete hmade j hj)
      · exact hnext j (by rw [of_decide_eq_true hlast]; exact hj)
    · obtain ⟨hmade, hlast⟩ := Bool.or_eq_false_iff.mp hmade
      have hne : 255 ≠ i := fun heq => of_decide_eq_false hlast (by rw [← heq])
      exact (update_of_ne hne ..).trans (h.last hmade)
  refine ⟨hstored.goto fun left' k hk => ?_, safe_goto (fun left' => ?_) fun u left' hu j hj => ?_⟩
  · split at hk
    · rename_i hless
      cases hk
      exact ⟨hless, hnext⟩
    · cases hk
  · split <;> exact nofun
  · exact stored_entry (hsafe u left' hu j hj)

theorem crc_step_iff {op : CrcOp τ} (h : CrcInv s) (hsafe : CrcSafe s)
    (hstep : crcStep s op = some s') : CrcInv s' ∧ (CrcSafe s' ↔ MadeBefore s op) := by
  cases op with dsimp only [crcStep] at hstep
  | call t user =>
    split at hstep
    · cases hstep
      refine ⟨h.goto fun _ _ heq => ?_, fun _ => trivial, fun _ => safe_goto (fun _ => ?_) hsafe⟩
      · split at heq <;> cases heq
      · split <;> exact nofun
    · cases hstep
  | step t =>
    split at hstep
    · cases hstep
      refine ⟨h.goto fun _ _ heq => ?_, fun _ => trivial, fun _ => safe_goto (fun _ => ?_) hsafe⟩
      · split at heq <;> cases heq
      · split <;> exact nofun
    · cases hstep
      have hset : CrcInv { s with crc32TableInit := true } := ⟨h.filled, h.complete, h.last⟩
      refine ⟨hset.goto fun _ _ heq => ?_, fun _ => trivial, fun _ =>
        safe_goto (fun _ => nofun) hsafe⟩
      cases heq
      exact ⟨by decide, nofun⟩
    · rename_i left i hplace
      cases hstep
      obtain ⟨hinv, hkept⟩ := store_entry_ok h hsafe hplace
      exact ⟨hinv, fun _ => trivial, fun _ => hkept⟩
    · cases hstep
      exact ⟨h.goto nofun, fun _ => trivial, fun _ => safe_goto nofun hsafe⟩
    · cases hstep
  | calcCRC t =>
    split at hstep
    · rename_i left hplace
      cases hstep
      refine ⟨h.goto nofun, fun hall => ?_, fun hmade _ _ _ => h.complete hmade⟩
      exact h.complete_iff.mp (hall t left (update_self ..))
    · cases hstep
  | leave t =>
    split at hstep
    · cases hstep
      exact ⟨h.goto nofun, fun _ => trivial, fun _ => safe_goto nofun hsafe⟩
    · cases hstep

end

/-- In a run the threads in `calcCRC` always use the complete table, exactly if `calcCRC` is called
only behind the return of a call of `makeCRCTable`. -/
theorem crc_table_ready_iff {τ : Type} [DecidableEq τ] {ops : List (CrcOp τ)} {s : CrcSys τ}
    (hrun : exec crcStep crcStart ops = some s) :
    Always crcStep CrcSafe crcStart ops ↔ AllSteps crcStep MadeBefore crcStart ops :=
  always_iff (A := fun _ => True) (fun _ _ _ _ h hsafe hstep => crc_step_iff h hsafe hstep)
    (fun _ _ => trivial) ⟨nofun, nofun, fun _ => rfl⟩ nofun hrun

instance {τ : Type} (s : CrcSys τ) (op : CrcOp τ) : Decidable (MadeBefore s op) :=
  match op with
  | .calcCRC _ => inferInstanceAs (Decidable (s.made = true))
  | .call _ _ | .step _ | .leave _ => .isTrue trivial

/-- A load makes the table, and a save follows it. -/
def someCrcOps : List (CrcOp Bool) :=
  .call false .fhUvcIsparaLoad :: List.replicate 258 (.step false) ++
    [.calcCRC false, .call true .uvcInfoSaveData, .calcCRC true]

theorem table_made_first : Always crcStep CrcSafe crcStart someCrcOps := by
  have hrun : (exec crcStep crcStart someCrcOps).isSome = true := by decide +kernel
  obtain ⟨s, hs⟩ := Option.isSome_iff_exists.mp hrun
  exact (crc_table_ready_iff hs).mpr (by decide +kernel)

/-- While the update thread fills the table, a load finds the flag set and checks a record. -/
theorem table_half_made : ¬ Always crcStep CrcSafe crcStart
    [.call false .uvcUpdateProc, .step false, .step false, .step false,
      .call true .fhUvcIsparaLoad, .step true, .calcCRC true] := by
  intro halways
  have hlast := halways.last rfl true 0 rfl 255 (by decide)
  exact absurd hlast (by decide +kernel)

end FullhanRtos.UsbUpdate
