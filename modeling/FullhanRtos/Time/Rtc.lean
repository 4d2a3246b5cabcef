import Mathlib.Data.BitVec
import Mathlib.Tactic.Common

/-!
# The counter of the RTC

`fh_rtc_settime` splits seconds into the fields of a counter word, and `fh_rtc_gettime_sync` puts
the fields together again, as an `int` whose negative values are errors. `time_kept_iff` says which
times are read back.
-/

namespace FullhanRtos.Rtc

open BitVec

/-! ## The functions -/

/-- The registers of the core that the functions access. -/
structure Regs where
  wrData : BitVec 32
  cmd : BitVec 32
  rdData : BitVec 32

def rtcRead : BitVec 32 := 1

def rtcWrite : BitVec 32 := 2

/-- One of `n` calls of `fh_rtc_core_idle` finds the core idle, from the call `first` on. -/
def becomesIdle (idle : Nat → Bool) (first n : Nat) : Bool :=
  (List.range n).any fun count => idle (first + count)

/-- The word that `fh_rtc_set_counter` writes. -/
def counterWord (secs : BitVec 32) : BitVec 32 :=
  let days := secs / 86400
  let tmp := secs % 86400
  let hours := tmp / 3600
  let tmp := tmp % 3600
  let minutes := tmp / 60
  let seconds := tmp % 60
  days <<< 17 ||| hours <<< 12 ||| minutes <<< 6 ||| seconds

/-- The seconds that `fh_rtc_get_counter` makes of a word. -/
def wordSeconds (tmp : BitVec 32) : BitVec 32 :=
  let seconds := tmp &&& 0x3f
  let minutes := tmp >>> 6 &&& 0x3f
  let hours := tmp >>> 12 &&& 0x1f
  let days := tmp >>> 17 &&& 0x7fff
  seconds + minutes * 60 + hours * 3600 + days * 86400

def fhRtcSetCounter (idle : Nat → Bool) (rtc : Regs) (secs : BitVec 32) : BitVec 32 × Regs :=
  if idle 0 = false then (-1, rtc)
  else
    let rtc := { rtc with wrData := counterWord secs, cmd := rtcWrite }
    if becomesIdle idle 1 15 then (0, rtc) else (-1, rtc)

def fhRtcGetCounter (idle : Nat → Bool) (rtc : Regs) : BitVec 32 :=
  if idle 0 = false then -1
  else if becomesIdle idle 1 25 then wordSeconds rtc.rdData else -1

def fhRtcGettimeNosync (idle : Nat → Bool) (rtc : Regs) (time : BitVec 32) :
    BitVec 32 × BitVec 32 :=
  let t := fhRtcGetCounter idle rtc
  if t.toInt < 0 then (t, time) else (0, t)

def fhRtcGettimeSync (idle : Nat → Bool) (rtc : Regs) (time : BitVec 32) : BitVec 32 × BitVec 32 :=
  fhRtcGettimeNosync idle rtc time

def fhRtcSettime (idle : Nat → Bool) (rtc : Regs) (time : BitVec 32) : BitVec 32 × Regs :=
  fhRtcSetCounter idle rtc time

/-- A time that is set is read back from the word that was written, when the core is idle. -/
def TimeKept (secs : BitVec 32) : Prop :=
  ∀ idle rtc rtc' time, fhRtcSettime idle rtc secs = (0, rtc') →
    fhRtcGettimeSync (fun _ => true) { rtc' with rdData := rtc'.wrData } time = (0, secs)

/-! ## The fields -/

theorem or_fields {a b : Nat} (n : Nat) (h : b < 2 ^ n) : 2 ^ n * a ||| b = 2 ^ n * a + b :=
  (Nat.two_pow_add_eq_or_of_lt h a).symm

theorem counter_word_fields (secs : BitVec 32) :
    (counterWord secs).toNat =
      2 ^ 17 * (secs.toNat / 86400 % 2 ^ 15) + 2 ^ 12 * (secs.toNat % 86400 / 3600) +
        2 ^ 6 * (secs.toNat % 86400 % 3600 / 60) + secs.toNat % 86400 % 3600 % 60 := by
  have hsecs := secs.isLt
  have hdays : ((secs / 86400) <<< 17).toNat = 2 ^ 17 * (secs.toNat / 86400 % 2 ^ 15) := by
    simp [toNat_udiv, Nat.shiftLeft_eq]
    omega
  have hhours : ((secs % 86400 / 3600) <<< 12).toNat = 2 ^ 12 * (secs.toNat % 86400 / 3600) := by
    simp [toNat_udiv, Nat.shiftLeft_eq]
    omega
  have hminutes : ((secs % 86400 % 3600 / 60) <<< 6).toNat =
      2 ^ 6 * (secs.toNat % 86400 % 3600 / 60) := by
    simp [toNat_udiv, Nat.shiftLeft_eq]
    omega
  have hseconds : (secs % 86400 % 3600 % 60).toNat = secs.toNat % 86400 % 3600 % 60 := rfl
  simp only [counterWord, toNat_or, hdays, hhours, hminutes, hseconds]
  rw [or_fields 17 (by omega)]
  have hupper : 2 ^ 17 * (secs.toNat / 86400 % 2 ^ 15) + 2 ^ 12 * (secs.toNat % 86400 / 3600) =
      2 ^ 12 * (2 ^ 5 * (secs.toNat / 86400 % 2 ^ 15) + secs.toNat % 86400 / 3600) := by omega
  rw [hupper, or_fields 12 (by omega)]
  have hmiddle : ∀ a b : Nat, 2 ^ 12 * a + 2 ^ 6 * b = 2 ^ 6 * (2 ^ 6 * a + b) := by omega
  rw [hmiddle, or_fields 6 (by omega)]

theorem word_seconds_to_nat (tmp : BitVec 32) {days hours minutes seconds : Nat}
    (hdays : days < 2 ^ 15) (hhours : hours < 24) (hminutes : minutes < 60)
      (hseconds : seconds < 60)
    (h : tmp.toNat = 2 ^ 17 * days + 2 ^ 12 * hours + 2 ^ 6 * minutes + seconds) :
    (wordSeconds tmp).toNat = days * 86400 + (hours * 3600 + minutes * 60 + seconds) := by
  have hfield : ∀ n k, tmp.toNat >>> n &&& (2 ^ k - 1) = tmp.toNat / 2 ^ n % 2 ^ k := fun n k => by
    rw [Nat.and_two_pow_sub_one_eq_mod, Nat.shiftRight_eq_div_pow]
  have hseconds' : (tmp &&& 0x3f).toNat = seconds := (hfield 0 6).trans (by omega)
  have hminutes' : (tmp >>> 6 &&& 0x3f).toNat = minutes := (hfield 6 6).trans (by omega)
  have hhours' : (tmp >>> 12 &&& 0x1f).toNat = hours := (hfield 12 5).trans (by omega)
  have hdays' : (tmp >>> 17 &&& 0x7fff).toNat = days := (hfield 17 15).trans (by omega)
  have hunits : (60 : BitVec 32).toNat = 60 ∧ (3600 : BitVec 32).toNat = 3600 ∧
      (86400 : BitVec 32).toNat = 86400 := by decide
  simp only [wordSeconds, toNat_add, toNat_mul, hseconds', hminutes', hhours', hdays', hunits]
  omega

/-- Only the days can be lost. -/
theorem read_back (secs : BitVec 32) :
    (wordSeconds (counterWord secs)).toNat =
      secs.toNat / 86400 % 2 ^ 15 * 86400 + secs.toNat % 86400 := by
  rw [word_seconds_to_nat _ (Nat.mod_lt _ (by decide)) (by omega) (by omega) (by omega)
    (counter_word_fields secs)]
  omega

/-! ## The times that are kept -/

/-- A time is read back when it is not negative as an `int`. -/
theorem time_kept_iff (secs : BitVec 32) : TimeKept secs ↔ secs.toNat < 2 ^ 31 := by
  have hread := read_back secs
  have hsecs := secs.isLt
  constructor
  · intro hkept
    have hresult := hkept (fun _ => true) ⟨0, 0, 0⟩ _ 0 rfl
    have hword : fhRtcGettimeSync (fun _ => true) ⟨counterWord secs, rtcWrite, counterWord secs⟩ 0 =
        if (wordSeconds (counterWord secs)).toInt < 0 then (wordSeconds (counterWord secs), 0)
        else (0, wordSeconds (counterWord secs)) := rfl
    rw [hword] at hresult
    split at hresult
    · rename_i hneg
      rw [(Prod.mk.inj hresult).1] at hneg
      exact absurd hneg (by decide)
    · rename_i hpos
      rw [(Prod.mk.inj hresult).2, toInt_eq_toNat_cond] at hpos
      split at hpos <;> omega
  · intro hless idle rtc rtc' time hset
    have hdata : rtc'.wrData = counterWord secs := by
      unfold fhRtcSettime fhRtcSetCounter at hset
      split at hset
      · exact absurd (Prod.mk.inj hset).1 (by decide)
      dsimp only at hset
      split at hset
      · rw [← (Prod.mk.inj hset).2]
      · exact absurd (Prod.mk.inj hset).1 (by decide)
    have hsame : wordSeconds (counterWord secs) = secs := eq_of_toNat_eq (by omega)
    show (if (wordSeconds rtc'.wrData).toInt < 0 then _ else _) = _
    rw [hdata, hsame, if_neg]
    · exact congrArg (Prod.mk 0) hsame
    · rw [toInt_eq_toNat_of_lt (by omega)]
      omega

/-- The first second behind 2038 is read back as an error. -/
theorem time_lost : ¬ ∀ secs, TimeKept secs := by
  intro hkept
  have hresult := hkept 0x80000000 (fun _ => true) ⟨0, 0, 0⟩ _ 0 rfl
  exact absurd (congrArg Prod.fst hresult) (by decide)

end FullhanRtos.Rtc
