import Mathlib.Data.Finset.Basic
import Mathlib.Data.Nat.Find
import Mathlib.Tactic.Common

/-!
# `poll`

The loop of `poll_do`: a scan of the descriptors, then a wait until a wake-up or the timeout. A
wake-up sets `triggered`, which nothing clears: from then on `poll_wait_timeout` returns at once.
-/

namespace FullhanRtos.Dfs

inductive PollEvent where
  | pollin | pollout | pollerr | pollhup | pollnval
  deriving DecidableEq

abbrev PollMask := Finset PollEvent

/-- `struct pollfd`. -/
structure PollFd where
  fd : Int
  events : PollMask
  revents : PollMask

/-- What the files and sockets report in each scan (`none` without a file), the ticks that a scan
takes, and when the first wake-up comes in the wait behind it. -/
structure PollWorld where
  report : Nat → Int → Option PollMask
  busy : Nat → Nat
  wake : Nat → Option Nat

def doPollfd (report : Int → Option PollMask) (p : PollFd) : PollMask :=
  if 0 ≤ p.fd then
    match report p.fd with
    | none => {.pollnval}
    | some mask => mask ∩ (p.events ∪ {.pollerr, .pollhup})
  else ∅

/-- The loop over the descriptors; `none` is the result -1. -/
def scan (report : Int → Option PollMask) : List PollFd → Option (Nat × List PollFd)
  | [] => some (0, [])
  | p :: fds =>
    let mask := doPollfd report p
    if mask = {.pollnval} then none
    else (scan report fds).map fun (num, fds) =>
      (if mask = ∅ then num else num + 1, { p with revents := mask } :: fds)

def pollWaitTimeout (triggered : Bool) (timeout wake : Option Nat) : Option (Bool × Nat) :=
  if timeout ≠ some 0 ∧ triggered = false then
    match timeout, wake with
    | none, none => none
    | none, some ticks => some (true, ticks)
    | some limit, none => some (false, limit)
    | some limit, some ticks => if ticks < limit then some (true, ticks) else some (false, limit)
  else some (triggered, 0)

structure PollState where
  triggered : Bool
  istimeout : Bool
  clock : Nat

variable (w : PollWorld) (timeout : Option Nat) (fds : List PollFd)

/-- The result, if the loop is left at its turn `n`. -/
def pollExit (n : Nat) (s : PollState) : Option (Option (Nat × List PollFd)) :=
  match scan (w.report n) fds with
  | none => some none
  | some (num, fds) => if num ≠ 0 ∨ s.istimeout then some (some (num, fds)) else none

/-- The state before turn `n` of `poll_do`, if there is one. -/
def pollDo : Nat → Option PollState
  | 0 => some ⟨false, timeout = some 0, 0⟩
  | n + 1 => (pollDo n).bind fun s =>
    if (pollExit w fds n s).isSome then none
    else (pollWaitTimeout s.triggered timeout (w.wake n)).map fun (triggered, ticks) =>
      ⟨triggered, !triggered, s.clock + w.busy n + ticks⟩

def PollReturns (n : Nat) (s : PollState) (result : Option (Nat × List PollFd)) : Prop :=
  pollDo w timeout fds n = some s ∧ pollExit w fds n s = some result

/-- `poll` returns after the first scan that finds something, or that comes after the timeout. -/
def PollRight (limit : Nat) : Prop :=
  ∃ n s result, PollReturns w (some limit) fds n s result ∧
    (∀ k < n, ∀ s', pollDo w (some limit) fds k = some s' → s'.clock < limit) ∧
    ∀ num fds', result = some (num, fds') →
      (num ≠ 0 ↔ ∃ p ∈ fds, doPollfd (w.report n) p ≠ ∅) ∧ (num = 0 → limit ≤ s.clock)

/-- Scan `n` finds an event, or a descriptor without file. -/
def Finds (n : Nat) : Prop := ∀ fds', scan (w.report n) fds ≠ some (0, fds')

/-- When scan `n` begins if there is no wait after the first. -/
def spinClock : Nat → Nat
  | 0 => 0
  | n + 1 => spinClock n + w.busy n + if n = 0 then (w.wake 0).getD 0 else 0

variable {w timeout fds} {limit n : Nat} {report : Int → Option PollMask}

theorem scan_eq {num : Nat} {fds' : List PollFd} (h : scan report fds = some (num, fds')) :
    fds' = fds.map (fun p => { p with revents := doPollfd report p }) ∧
      (num = fds'.countP fun p => p.revents ≠ ∅) ∧ ∀ p ∈ fds, doPollfd report p ≠ {.pollnval} := by
  induction fds generalizing num fds' with
  | nil =>
    cases h
    exact ⟨rfl, rfl, nofun⟩
  | cons p fds ih =>
    unfold scan at h
    dsimp only at h
    split at h
    · cases h
    · rename_i hvalid
      obtain ⟨⟨rest, fds'⟩, hrest, heq⟩ := Option.map_eq_some_iff.mp h
      obtain ⟨rfl, rfl, hfiles⟩ := ih hrest
      cases heq
      refine ⟨rfl, ?_, List.forall_mem_cons.mpr ⟨hvalid, hfiles⟩⟩
      by_cases hmask : doPollfd report p = ∅ <;> simp [hmask]

theorem found_iff_exit {s : PollState} (h : s.istimeout = false) :
    Finds w fds n ↔ (pollExit w fds n s).isSome := by
  unfold Finds pollExit
  rw [h]
  cases scan (w.report n) fds with
  | none => simp
  | some result =>
    obtain ⟨num, fds'⟩ := result
    by_cases hnum : num = 0 <;> simp [hnum]

section

variable {ticks : Nat} (hwake : w.wake 0 = some ticks) (hlt : ticks < limit)

include hwake hlt

theorem wait_spins (n : Nat) : pollWaitTimeout (n ≠ 0) (some limit) (w.wake n) =
    some (true, if n = 0 then (w.wake 0).getD 0 else 0) := by
  have hlimit : limit ≠ 0 := by omega
  cases n with
  | zero => simp [pollWaitTimeout, hlimit, hwake, hlt]
  | succ n => simp [pollWaitTimeout]

/-- After a wake-up the loop goes on without a wait until a scan finds something. -/
theorem poll_spins (n : Nat) (s : PollState) : pollDo w (some limit) fds n = some s ↔
    (∀ k < n, ¬ Finds w fds k) ∧ s = ⟨n ≠ 0, false, spinClock w n⟩ := by
  induction n generalizing s with
  | zero =>
    have hlimit : limit ≠ 0 := by omega
    simp [pollDo, spinClock, hlimit, eq_comm]
  | succ n ih =>
    unfold pollDo
    rw [Option.bind_eq_some_iff]
    constructor
    · rintro ⟨s, hs, hnext⟩
      obtain ⟨hnone, rfl⟩ := (ih s).mp hs
      obtain ⟨hexit, hnext⟩ := Option.ite_none_left_eq_some.mp hnext
      rw [wait_spins hwake hlt n] at hnext
      cases hnext
      refine ⟨fun k hk hfound => ?_, by simp [spinClock]⟩
      rcases Nat.lt_succ_iff_lt_or_eq.mp hk with hk | rfl
      · exact hnone k hk hfound
      · exact hexit ((found_iff_exit rfl).mp hfound)
    · rintro ⟨hnone, rfl⟩
      refine ⟨_, (ih _).mpr ⟨fun k hk => hnone k (by omega), rfl⟩, ?_⟩
      rw [if_neg fun hexit => hnone n (by omega) ((found_iff_exit rfl).mpr hexit),
        wait_spins hwake hlt n]
      simp [spinClock]

end

theorem exit_scan {s : PollState} {num : Nat} {fds' : List PollFd}
    (h : pollExit w fds n s = some (some (num, fds'))) :
    scan (w.report n) fds = some (num, fds') ∧ (num = 0 → s.istimeout = true) := by
  unfold pollExit at h
  split at h
  · cases h
  · rename_i hscan
    obtain ⟨hleft, heq⟩ := Option.ite_none_right_eq_some.mp h
    cases heq
    exact ⟨hscan, hleft.neg_resolve_left⟩

theorem exit_of_timeout {s : PollState} (h : s.istimeout = true) : (pollExit w fds n s).isSome := by
  unfold pollExit
  split
  · rfl
  · rw [if_pos (.inr h)]
    rfl

theorem right_of_exit {s : PollState} (hdo : pollDo w (some limit) fds n = some s)
    (hexit : (pollExit w fds n s).isSome)
    (hbefore : ∀ k < n, ∀ s', pollDo w (some limit) fds k = some s' → s'.clock < limit)
    (hclock : s.istimeout = true → limit ≤ s.clock) : PollRight w fds limit := by
  obtain ⟨result, hresult⟩ := Option.isSome_iff_exists.mp hexit
  refine ⟨n, s, result, ⟨hdo, hresult⟩, hbefore, fun num fds' heq => ?_⟩
  obtain ⟨hscan, htimeout⟩ := exit_scan (heq ▸ hresult)
  obtain ⟨rfl, rfl, -⟩ := scan_eq hscan
  exact ⟨by simp, fun hnum => hclock (htimeout hnum)⟩

/-- `poll` is right exactly if it does not wait, no wake-up comes within the timeout, or something
is found no later than by the first scan after the timeout. -/
theorem poll_right_iff (w : PollWorld) (fds : List PollFd) (limit : Nat) :
    PollRight w fds limit ↔ limit = 0 ∨ (∀ ticks, w.wake 0 = some ticks → limit ≤ ticks) ∨
      ∃ n, Finds w fds n ∧ ∀ k < n, spinClock w k < limit := by
  constructor
  · rintro ⟨n, s, result, ⟨hdo, hexit⟩, hbefore, -⟩
    by_contra hnot
    push Not at hnot
    obtain ⟨-, ⟨ticks, hwake, hlt⟩, hlate⟩ := hnot
    obtain ⟨hnone, rfl⟩ := (poll_spins hwake hlt n s).mp hdo
    have hfound : Finds w fds n := (found_iff_exit rfl).mpr (by rw [hexit]; rfl)
    obtain ⟨k, hk, hclock⟩ := hlate n hfound
    have hspin := (poll_spins hwake hlt k _).mpr ⟨fun j hj => hnone j (hj.trans hk), rfl⟩
    exact absurd (hbefore k hk _ hspin) (Nat.not_lt.mpr hclock)
  · intro hcond
    by_cases hlimit : limit = 0
    · subst hlimit
      exact right_of_exit (n := 0) rfl (exit_of_timeout rfl) (fun k hk => absurd hk (by omega))
        fun _ => Nat.zero_le _
    have hstart : pollDo w (some limit) fds 0 = some ⟨false, false, 0⟩ := by
      simp [pollDo, hlimit]
    by_cases hfound : Finds w fds 0
    · exact right_of_exit hstart ((found_iff_exit rfl).mp hfound)
        (fun k hk => absurd hk (by omega)) nofun
    by_cases hwake : ∃ ticks, w.wake 0 = some ticks ∧ ticks < limit
    · obtain ⟨ticks, hwake, hlt⟩ := hwake
      obtain ⟨n, hn, hclock⟩ :=
        (hcond.resolve_left hlimit).resolve_left fun h => absurd hlt (Nat.not_lt.mpr (h _ hwake))
      classical
      have hex : ∃ n, Finds w fds n := ⟨n, hn⟩
      have hdo := (poll_spins hwake hlt (Nat.find hex) _).mpr ⟨fun k hk => Nat.find_min hex hk, rfl⟩
      refine right_of_exit hdo ((found_iff_exit rfl).mp (Nat.find_spec hex))
        (fun k hk s' hs' => ?_) nofun
      obtain ⟨-, rfl⟩ := (poll_spins hwake hlt k s').mp hs'
      exact hclock k (hk.trans_le (Nat.find_min' hex hn))
    · -- the wait takes the whole timeout
      have hnext : pollDo w (some limit) fds 1 = some ⟨false, true, w.busy 0 + limit⟩ := by
        have hwait : pollWaitTimeout false (some limit) (w.wake 0) = some (false, limit) := by
          cases h : w.wake 0 with
          | none => simp [pollWaitTimeout, hlimit]
          | some ticks =>
            have hle : limit ≤ ticks := Nat.not_lt.mp fun hlt => hwake ⟨ticks, h, hlt⟩
            simp [pollWaitTimeout, hlimit, Nat.not_lt.mpr hle]
        rw [pollDo, hstart, Option.bind_some, hwait,
          if_neg fun hexit => hfound ((found_iff_exit rfl).mpr hexit)]
        simp
      refine right_of_exit hnext (exit_of_timeout rfl) (fun k hk s' hs' => ?_)
        fun _ => Nat.le_add_left ..
      obtain rfl : k = 0 := by omega
      cases hstart.symm.trans hs'
      exact Nat.pos_of_ne_zero hlimit

/-- An interrupt wakes the thread up at once, but the file has nothing to report. -/
def wokenWorld : PollWorld where
  report := fun _ _ => some ∅
  busy := fun _ => 1
  wake := fun _ => some 0

theorem woken_poll_spins : (∀ n s result,
    ¬ PollReturns wokenWorld (some 10) [⟨0, {.pollin}, ∅⟩] n s result) ∧
      ¬ PollRight wokenWorld [⟨0, {.pollin}, ∅⟩] 10 := by
  have hnever : ∀ n s result,
      ¬ PollReturns wokenWorld (some 10) [⟨0, {.pollin}, ∅⟩] n s result := by
    rintro n s result ⟨hdo, hexit⟩
    obtain ⟨-, rfl⟩ := (poll_spins rfl (by decide) n s).mp hdo
    have hfound := (found_iff_exit rfl).mpr (by rw [hexit]; rfl)
    exact hfound _ rfl
  exact ⟨hnever, fun ⟨n, s, result, hreturns, _⟩ => hnever n s result hreturns⟩

end FullhanRtos.Dfs
