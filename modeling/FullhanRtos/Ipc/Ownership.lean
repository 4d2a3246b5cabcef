import FullhanRtos.Ipc.Mutex
import FullhanRtos.Sched.Waiters

/-!
# Who owns a mutex

`Counted` adds to a state how often each thread has taken each mutex and not given it back, counted
from what the calls return: a take succeeds at once, or later, when the waiting thread is woken and
finds `RT_EOK` in its error number. The code counts in the 8-bit field `hold`, and `ownership_iff`
says exactly in which runs that is enough.
-/

namespace FullhanRtos.Ipc

open Sched Transition List Option

set_option linter.unusedSectionVars false

variable {τ μ ι : Type} [DecidableEq τ] [DecidableEq μ] [DecidableEq ι]

/-! ## Counting takes and releases -/

/-- A state with the number of takes of each mutex by each thread that were not given back. -/
structure Counted (τ μ ι : Type) where
  sys : Sys τ μ ι
  depth : μ → τ → Nat

/-- What the call returns to the running thread. -/
def outcome (s : Sys τ μ ι) : Op τ μ ι → Option Outcome
  | .take m time => s.caller.bind fun t => (rtMutexTake s t m time).map Prod.fst
  | .release m => s.caller.bind fun t => (rtMutexRelease s t m).map Prod.fst
  | .kernel _ => none

/-- The call is a take of the mutex. -/
def Op.Takes (m : μ) : Op τ μ ι → Prop
  | .take m' _ => m' = m
  | _ => False

/-- The call is a release of the mutex. -/
def Op.Releases (m : μ) : Op τ μ ι → Prop
  | .release m' => m' = m
  | _ => False

instance (m : μ) (op : Op τ μ ι) : Decidable (op.Takes m) :=
  match op with
  | .take m' _ => inferInstanceAs (Decidable (m' = m))
  | .kernel _ | .release _ => .isFalse id

instance (m : μ) (op : Op τ μ ι) : Decidable (op.Releases m) :=
  match op with
  | .release m' => inferInstanceAs (Decidable (m' = m))
  | .kernel _ | .take _ _ => .isFalse id

/-- The call makes a take of `m` by `t` succeed: its own take, or one for which `t` was waiting. -/
def Succeeds (s s' : Sys τ μ ι) (op : Op τ μ ι) (m : μ) (t : τ) : Prop :=
  op.Takes m ∧ s.caller = some t ∧ outcome s op = some .ok ∨
    t ∈ s.kernel.queue (.wait (.mutex m)) ∧ t ∉ s'.kernel.queue (.wait (.mutex m)) ∧
      (s'.kernel.thread t).error = .eok

/-- The call is a release of `m` by `t` that succeeds. -/
def GivesBack (s : Sys τ μ ι) (op : Op τ μ ι) (m : μ) (t : τ) : Prop :=
  op.Releases m ∧ s.caller = some t ∧ outcome s op = some .ok

instance (s s' : Sys τ μ ι) (op : Op τ μ ι) (m : μ) (t : τ) : Decidable (Succeeds s s' op m t) :=
  inferInstanceAs (Decidable (_ ∨ _))

instance (s : Sys τ μ ι) (op : Op τ μ ι) (m : μ) (t : τ) : Decidable (GivesBack s op m t) :=
  inferInstanceAs (Decidable (_ ∧ _))

def Counted.after (x : Counted τ μ ι) (op : Op τ μ ι) (s' : Sys τ μ ι) : Counted τ μ ι where
  sys := s'
  depth := fun m t => x.depth m t + (if Succeeds x.sys s' op m t then 1 else 0) -
    if GivesBack x.sys op m t then 1 else 0

/-- One call. -/
def countedStep (x : Counted τ μ ι) (op : Op τ μ ι) : Option (Counted τ μ ι) :=
  (step x.sys op).map (x.after op)

/-- The state before the first thread is created. -/
def countedStart : Counted τ μ ι where
  sys := start
  depth := fun _ _ => 0

/-- The calls are takes and releases and calls that are not about a mutex. -/
def Op.Gentle : Op τ μ ι → Prop
  | .kernel op => ForeignTo μ op ∧ ∀ m : μ, op.Spares (.mutex m)
  | _ => True

/-- A thread that has a mutex owns it, and no other thread has it. -/
structure Owned (x : Counted τ μ ι) : Prop where
  owner : ∀ m t, 0 < x.depth m t → (x.sys.mutex m).owner = some t
  alone : ∀ m t u, 0 < x.depth m t → 0 < x.depth m u → t = u

/-- The last release passes the mutex to its first waiter, or leaves it free. -/
def LastReleasePasses (x : Counted τ μ ι) (op : Op τ μ ι) : Prop :=
  ∀ m t x', GivesBack x.sys op m t → x.depth m t = 1 → countedStep x op = some x' →
    match x.sys.kernel.queue (.wait (.mutex m)) with
    | w :: _ => (x'.sys.mutex m).owner = some w ∧ (x'.sys.mutex m).hold = 1
    | [] => (x'.sys.mutex m).owner = none ∧ (x'.sys.mutex m).value = 1

/-- No thread gives back a mutex that it has 257, 513, ... times. -/
def HoldFits (x : Counted τ μ ι) : Op τ μ ι → Prop
  | .release m => ∀ t, x.sys.caller = some t → 1 < x.depth m t → x.depth m t % 256 ≠ 1
  | _ => True

/-- The invariant of all runs. -/
structure CountedInv (x : Counted τ μ ι) : Prop where
  mutex : MutexInv x.sys
  held : ∀ m t, (x.sys.mutex m).owner = some t →
    (x.sys.mutex m).hold = x.depth m t % 256 ∧ 0 < x.depth m t
  free : ∀ m, (x.sys.mutex m).owner = none → (x.sys.mutex m).hold = 0
  error : ∀ m, ∀ w ∈ x.sys.kernel.queue (.wait (.mutex m)), (x.sys.kernel.thread w).error = .eok

section

variable {x : Counted τ μ ι} {s' : Sys τ μ ι} {t : τ} {m : μ} {time : WaitTime} {r : Outcome}
  {op : Op τ μ ι}

theorem owned_of_owner (h : ∀ m t, 0 < x.depth m t → (x.sys.mutex m).owner = some t) : Owned x :=
  ⟨h, fun m t u ht hu => some.inj ((h m t ht).symm.trans (h m u hu))⟩

theorem Owned.depth_eq_zero (h : Owned x) (howner : (x.sys.mutex m).owner ≠ some t) :
    x.depth m t = 0 :=
  Nat.eq_zero_of_not_pos fun hpos => howner (h.owner m t hpos)

/-- Nobody that waits is woken with `RT_EOK`. -/
def WakesNone (s s' : Sys τ μ ι) : Prop :=
  ∀ m, ∀ w ∈ s.kernel.queue (.wait (.mutex m)), w ∉ s'.kernel.queue (.wait (.mutex m)) →
    (s'.kernel.thread w).error ≠ .eok

theorem wakes_none_of_subset {s s' : Sys τ μ ι}
    (h : ∀ m, ∀ w ∈ s.kernel.queue (.wait (.mutex m)), w ∈ s'.kernel.queue (.wait (.mutex m))) :
    WakesNone s s' :=
  fun m w hw hnot => absurd (h m w hw) hnot

theorem succeeds_iff_of_wakes_none {s s' : Sys τ μ ι} (h : WakesNone s s') :
    Succeeds s s' op m t ↔ op.Takes m ∧ s.caller = some t ∧ outcome s op = some .ok := by
  refine ⟨fun hs => hs.resolve_right fun hwoken => ?_, .inl⟩
  exact h m t hwoken.1 hwoken.2.1 hwoken.2.2

/-! ### The counts after each kind of call -/

theorem after_quiet (op : Op τ μ ι) (hwakes : WakesNone x.sys s')
    (hout : outcome x.sys op ≠ some .ok) : (x.after op s').depth = x.depth := by
  funext m t
  have hs : ¬ Succeeds x.sys s' op m t := fun hs =>
    hout ((succeeds_iff_of_wakes_none hwakes).mp hs).2.2
  have hg : ¬ GivesBack x.sys op m t := fun hg => hout hg.2.2
  simp only [Counted.after, if_neg hs, if_neg hg]
  omega

theorem after_take (hwakes : WakesNone x.sys s') (hcaller : x.sys.caller = some t)
    (hout : outcome x.sys (.take m time) = some .ok) (m' : μ) (u : τ) :
    (x.after (.take m time) s').depth m' u = x.depth m' u + if m' = m ∧ u = t then 1 else 0 := by
  have hs : Succeeds x.sys s' (.take m time) m' u ↔ m' = m ∧ u = t := by
    rw [succeeds_iff_of_wakes_none hwakes, hcaller, some.injEq]
    exact ⟨fun h => ⟨h.1.symm, h.2.1.symm⟩, fun h => ⟨h.1.symm, h.2.symm, hout⟩⟩
  have hg : ¬ GivesBack x.sys (.take m time) m' u := fun hg => hg.1
  simp only [Counted.after, hs, if_neg hg]
  omega

theorem after_release {woken : Option τ} (hcaller : x.sys.caller = some t)
    (hout : outcome x.sys (.release m) = some .ok)
    (hwoken : ∀ m' u, (u ∈ x.sys.kernel.queue (.wait (.mutex m')) ∧
      u ∉ s'.kernel.queue (.wait (.mutex m')) ∧ (s'.kernel.thread u).error = .eok) ↔
      m' = m ∧ woken = some u) (m' : μ) (u : τ) :
    (x.after (.release m) s').depth m' u =
      x.depth m' u + (if m' = m ∧ woken = some u then 1 else 0) -
        if m' = m ∧ u = t then 1 else 0 := by
  have hs : Succeeds x.sys s' (.release m) m' u ↔ m' = m ∧ woken = some u := by
    rw [← hwoken]
    exact ⟨fun h => h.resolve_left fun htakes => htakes.1, .inr⟩
  have hg : GivesBack x.sys (.release m) m' u ↔ m' = m ∧ u = t := by
    unfold GivesBack
    rw [hcaller, some.injEq]
    exact ⟨fun h => ⟨h.1.symm, h.2.1.symm⟩, fun h => ⟨h.1.symm, h.2.symm, hout⟩⟩
  simp only [Counted.after, hs, hg]

theorem kernel_step_counted {k : Kernel τ (Obj μ ι)} {op : KernelOp τ (Obj μ ι)}
    (hop : Op.Gentle (.kernel op : Op τ μ ι)) (h : CountedInv x)
    (hrun : kernelStep x.sys.kernel op = some k) :
    CountedInv (x.after (.kernel op) { x.sys with kernel := k }) ∧
      (x.after (.kernel op) { x.sys with kernel := k }).depth = x.depth := by
  have hcases := fun m => kernel_step_waiters_cases (hop.2 m) h.mutex.kernel hrun
  have hwakes : WakesNone x.sys { x.sys with kernel := k } := by
    intro m w hw hnot
    cases hcases m with
    | same _ hwait herror =>
      refine absurd ?_ hnot
      show w ∈ k.queue (.wait (.mutex m))
      rwa [hwait]
    | timeout t hmem hwait hstat herror hother =>
      obtain rfl : w = t := by
        by_contra hne
        refine hnot ?_
        show w ∈ k.queue (.wait (.mutex m))
        rw [hwait]
        exact (mem_erase_of_ne hne).mpr hw
      show (k.thread w).error ≠ .eok
      rw [herror]
      exact fun heq => by cases heq
  have hdepth := after_quiet (.kernel op) hwakes (fun heq => by cases heq)
  have hproper : Op.Proper (.kernel op : Op τ μ ι) := hop.1
  refine ⟨⟨mutex_step_inv hproper h.mutex (map_eq_some_iff.mpr ⟨k, hrun, rfl⟩), ?_, h.free,
    ?_⟩, hdepth⟩
  · rw [hdepth]
    exact h.held
  · intro m w hw
    show (k.thread w).error = .eok
    replace hw : w ∈ k.queue (.wait (.mutex m)) := hw
    cases hcases m with
    | same _ hwait herror =>
      rw [hwait] at hw
      rw [herror w hw]
      exact h.error m w hw
    | timeout t hmem hwait hstat herror hother =>
      rw [hwait] at hw
      have hne : w ≠ t := fun heq => (h.mutex.kernel.consistent.nodup _).not_mem_erase (heq ▸ hw)
      rw [hother w hne]
      exact h.error m w (mem_of_mem_erase hw)

theorem counted_of_one (op : Op τ μ ι) (h : CountedInv x) (hgood : Owned x) (hinv : MutexInv s')
    (hmutex : ∀ m', m' ≠ m → s'.mutex m' = x.sys.mutex m')
    (hdepth : ∀ m', m' ≠ m → ∀ u, (x.after op s').depth m' u = x.depth m' u)
    (hheld : ∀ u, (s'.mutex m).owner = some u →
      (s'.mutex m).hold = (x.after op s').depth m u % 256 ∧ 0 < (x.after op s').depth m u)
    (hfree : (s'.mutex m).owner = none → (s'.mutex m).hold = 0)
    (herror : ∀ m', ∀ w ∈ s'.kernel.queue (.wait (.mutex m')), (s'.kernel.thread w).error = .eok) :
    CountedInv (x.after op s') ∧ (Owned (x.after op s') ↔
      ∀ u, 0 < (x.after op s').depth m u → (s'.mutex m).owner = some u) := by
  refine ⟨⟨hinv, fun m' u hu => ?_, fun m' hnone => ?_, herror⟩, fun howned u => howned.owner m u,
    fun hm => owned_of_owner fun m' u hu => ?_⟩
  all_goals
    by_cases hmm : m' = m
    · subst hmm
      first | exact hheld u hu | exact hfree hnone | exact hm u hu
  · replace hu : (s'.mutex m').owner = some u := hu
    rw [hmutex m' hmm] at hu
    show (s'.mutex m').hold = _ ∧ _
    rw [hmutex m' hmm, hdepth m' hmm]
    exact h.held m' u hu
  · replace hnone : (s'.mutex m').owner = none := hnone
    rw [hmutex m' hmm] at hnone
    show (s'.mutex m').hold = 0
    rw [hmutex m' hmm]
    exact h.free m' hnone
  · rw [hdepth m' hmm] at hu
    show (s'.mutex m').owner = some u
    rw [hmutex m' hmm]
    exact hgood.owner m' u hu

theorem counted_of_quiet (op : Op τ μ ι) (h : CountedInv x) (hgood : Owned x) (hinv : MutexInv s')
    (hmutex : s'.mutex = x.sys.mutex) (hdepth : (x.after op s').depth = x.depth)
    (herror : ∀ m', ∀ w ∈ s'.kernel.queue (.wait (.mutex m')), (s'.kernel.thread w).error = .eok) :
    CountedInv (x.after op s') ∧ Owned (x.after op s') := by
  have hsame : (x.after op s').sys.mutex = x.sys.mutex := hmutex
  refine ⟨⟨hinv, ?_, ?_, herror⟩, owned_of_owner ?_⟩
  · rw [hsame, hdepth]
    exact h.held
  · rw [hsame]
    exact h.free
  · rw [hsame, hdepth]
    exact hgood.owner

theorem take_ok_counted (h : CountedInv x) (hgood : Owned x) (hinv : MutexInv s')
    (hcaller : x.sys.caller = some t) (hout : outcome x.sys (.take m time) = some .ok)
    (hwait : s'.kernel.queue = x.sys.kernel.queue)
    (hmutex : ∀ m', m' ≠ m → s'.mutex m' = x.sys.mutex m')
    (hbefore : (x.sys.mutex m).owner = some t ∨ (x.sys.mutex m).owner = none)
    (howner : (s'.mutex m).owner = some t)
    (hhold : (s'.mutex m).hold = ((x.sys.mutex m).hold + 1) % 256)
    (herror : ∀ m', ∀ w ∈ s'.kernel.queue (.wait (.mutex m')), (s'.kernel.thread w).error = .eok) :
    CountedInv (x.after (.take m time) s') ∧ Owned (x.after (.take m time) s') := by
  have hwakes : WakesNone x.sys s' := wakes_none_of_subset fun m' w hw => by rwa [hwait]
  have hdepth := after_take hwakes hcaller hout
  have hzero : ∀ u, u ≠ t → x.depth m u = 0 := fun u hu => by
    refine hgood.depth_eq_zero fun heq => ?_
    rcases hbefore with hbefore | hbefore
    · exact hu (some.inj (heq.symm.trans hbefore))
    · cases hbefore.symm.trans heq
  -- The field counts modulo 256 before the take, so it does so after it.
  have hcount : (x.sys.mutex m).hold = x.depth m t % 256 := by
    rcases hbefore with hbefore | hbefore
    · exact (h.held m t hbefore).1
    · rw [h.free m hbefore, hgood.depth_eq_zero fun heq => by cases hbefore.symm.trans heq]
  obtain ⟨hcounted, howned⟩ := counted_of_one (.take m time) h hgood hinv hmutex
    (fun m' hm u => by rw [hdepth, if_neg fun hand => hm hand.1, add_zero])
    (fun u hu => by
      obtain rfl : t = u := some.inj (howner.symm.trans hu)
      rw [hdepth, if_pos ⟨rfl, rfl⟩, hhold, hcount]
      omega)
    (fun hnone => by cases howner.symm.trans hnone) herror
  refine ⟨hcounted, howned.mpr fun u hu => ?_⟩
  by_cases hut : u = t
  · rw [hut]
    exact howner
  · rw [hdepth, if_neg fun hand => hut hand.2, hzero u hut] at hu
    cases hu

theorem take_counted (h : CountedInv x) (hgood : Owned x) (hcaller : x.sys.caller = some t)
    (hrun : rtMutexTake x.sys t m time = some (r, s')) :
    CountedInv (x.after (.take m time) s') ∧ Owned (x.after (.take m time) s') := by
  obtain ⟨hcurrent, hready⟩ := caller_eq_some.mp hcaller
  have hinv := mutex_inv_take h.mutex hcaller hrun
  have hout : outcome x.sys (.take m time) = some r := by
    simp only [outcome, hcaller, bind_some, hrun, map_some]
  have hnot := h.mutex.kernel.consistent.not_waiting hready
  have herror : ∀ e m', ∀ w ∈ x.sys.kernel.queue (.wait (.mutex m')),
      ((x.sys.withError t e).kernel.thread w).error = .eok := fun e m' w hw => by
    rw [with_error_thread, if_neg fun heq : w = t => hnot (.mutex m') (heq ▸ hw)]
    exact h.error m' w hw
  cases take_cases hrun with
  | again howner =>
    refine take_ok_counted h hgood hinv hcaller hout rfl (fun m' hm => with_mutex_of_ne hm)
      (.inl howner) ?_ ?_ (herror .eok)
    · rw [with_mutex_self]
      exact howner
    · rw [with_mutex_self]
  | acquires howner hvalue =>
    refine take_ok_counted h hgood hinv hcaller hout rfl (fun m' hm => with_mutex_of_ne hm)
      (.inr ((h.mutex.mutex m).owner_of_pos hvalue)) ?_ ?_ (herror .eok)
    · rw [with_mutex_self]
    · rw [with_mutex_self]
  | refused e howner hvalue hno =>
    refine counted_of_quiet _ h hgood hinv rfl ?_ (herror e)
    refine after_quiet _ (wakes_none_of_subset fun m' w hw => hw) ?_
    rw [hout]
    exact fun heq => by cases heq
  | blocks o k howner hne hvalue htime hblock =>
    have hlends := take_lends h.mutex.kernel hne hcurrent hblock
    have hwaits : ∀ m', ∀ w, w ∈ k.queue (.wait (.mutex m')) ↔
        m' = m ∧ w = t ∨ w ∈ x.sys.kernel.queue (.wait (.mutex m')) := fun m' w =>
      hlends.waiting
    refine counted_of_quiet _ h hgood hinv rfl (after_quiet _ ?_ ?_) fun m' w hw => ?_
    · exact wakes_none_of_subset fun m' w hw => (hwaits m' w).mpr (.inr hw)
    · rw [hout]
      exact fun heq => by cases heq
    · show (k.thread w).error = .eok
      rcases (hwaits m' w).mp hw with ⟨-, rfl⟩ | hold
      · exact hlends.err
      · have hwt : w ≠ t := fun heq => hnot _ (heq ▸ hold)
        rw [(hlends.other w hwt).2]
        exact h.error m' w hold

theorem release_last_counted (next : Option τ) (h : CountedInv x) (hgood : Owned x)
    (hinv : MutexInv s') (hcaller : x.sys.caller = some t)
    (hout : outcome x.sys (.release m) = some .ok) (howner : (x.sys.mutex m).owner = some t)
    (hhold : (x.sys.mutex m).hold = 1) (hnext : next ≠ some t)
    (hmutex : ∀ m', m' ≠ m → s'.mutex m' = x.sys.mutex m')
    (howner' : (s'.mutex m).owner = next)
    (hhold' : (s'.mutex m).hold = if next = none then 0 else 1)
    (hwoken : ∀ m' u, (u ∈ x.sys.kernel.queue (.wait (.mutex m')) ∧
      u ∉ s'.kernel.queue (.wait (.mutex m')) ∧ (s'.kernel.thread u).error = .eok) ↔
      m' = m ∧ next = some u)
    (herror : ∀ m', ∀ w ∈ s'.kernel.queue (.wait (.mutex m')), (s'.kernel.thread w).error = .eok) :
    CountedInv (x.after (.release m) s') ∧
      (Owned (x.after (.release m) s') ↔ HoldFits x (.release m)) := by
  have hdepth := after_release hcaller hout hwoken
  obtain ⟨hcount, hpos⟩ := h.held m t howner
  have hzero : ∀ u, u ≠ t → x.depth m u = 0 := fun u hu =>
    hgood.depth_eq_zero fun heq => hu (some.inj (heq.symm.trans howner))
  obtain ⟨hcounted, howned⟩ := counted_of_one (.release m) h hgood hinv hmutex
    (fun m' hm u => by
      rw [hdepth, if_neg fun hand => hm hand.1, if_neg fun hand => hm hand.1]
      rfl)
    (fun u hu => by
      rw [howner'] at hu
      have hut : u ≠ t := fun heq => hnext (heq ▸ hu)
      rw [hdepth, if_pos ⟨rfl, hu⟩, if_neg fun hand => hut hand.2, hzero u hut, hhold', hu]
      exact ⟨rfl, Nat.one_pos⟩)
    (fun hnone => by
      rw [howner'] at hnone
      rw [hhold', if_pos hnone]) herror
  refine ⟨hcounted, howned.trans ⟨fun hall t' ht' hmany hmod => ?_, fun hfits u hu => ?_⟩⟩
  · obtain rfl : t = t' := some.inj (hcaller.symm.trans ht')
    have hstill : 0 < (x.after (.release m) s').depth m t := by
      rw [hdepth, if_neg fun hand => hnext hand.2, if_pos ⟨rfl, rfl⟩]
      omega
    exact hnext (howner'.symm.trans (hall t hstill))
  · by_cases hut : u = t
    · -- A count of 1 modulo 256 is 1.
      subst hut
      rw [hdepth, if_neg fun hand => hnext hand.2, if_pos ⟨rfl, rfl⟩] at hu
      exact absurd (hcount.symm.trans hhold) (hfits u hcaller (by omega))
    · rw [hdepth, if_neg (fun hand : m = m ∧ u = t => hut hand.2), hzero u hut] at hu
      rw [howner']
      by_contra hne
      rw [if_neg fun hand : m = m ∧ next = some u => hne hand.2] at hu
      cases hu

theorem release_keeps_counted (h : CountedInv x) (hgood : Owned x) (hinv : MutexInv s')
    (hcaller : x.sys.caller = some t) (hout : outcome x.sys (.release m) = some .ok)
    (hwait : s'.kernel.queue = x.sys.kernel.queue)
    (hmutex : ∀ m', m' ≠ m → s'.mutex m' = x.sys.mutex m')
    (howner : (x.sys.mutex m).owner = some t) (hhold : ((x.sys.mutex m).hold + 255) % 256 ≠ 0)
    (howner' : (s'.mutex m).owner = some t)
    (hhold' : (s'.mutex m).hold = ((x.sys.mutex m).hold + 255) % 256)
    (herror : ∀ m', ∀ w ∈ s'.kernel.queue (.wait (.mutex m')), (s'.kernel.thread w).error = .eok) :
    CountedInv (x.after (.release m) s') ∧
      (Owned (x.after (.release m) s') ↔ HoldFits x (.release m)) := by
  have hwoken : ∀ m' u, (u ∈ x.sys.kernel.queue (.wait (.mutex m')) ∧
      u ∉ s'.kernel.queue (.wait (.mutex m')) ∧ (s'.kernel.thread u).error = .eok) ↔
      m' = m ∧ none = some u := by
    intro m' u
    rw [hwait]
    exact ⟨fun hwoken => absurd hwoken.1 hwoken.2.1, fun hwoken => by cases hwoken.2⟩
  have hdepth := after_release hcaller hout hwoken
  obtain ⟨hcount, hpos⟩ := h.held m t howner
  have hnobody : ∀ m' u, ¬ (m' = m ∧ (none : Option τ) = some u) := fun m' u hand => by
    cases hand.2
  have hself : (x.after (.release m) s').depth m t = x.depth m t - 1 := by
    rw [hdepth, if_neg (hnobody m t), if_pos ⟨rfl, rfl⟩, add_zero]
  have hother : ∀ m' u, ¬ (m' = m ∧ u = t) →
      (x.after (.release m) s').depth m' u = x.depth m' u := fun m' u hne => by
    rw [hdepth, if_neg (hnobody m' u), if_neg hne]
    rfl
  obtain ⟨hcounted, howned⟩ := counted_of_one (.release m) h hgood hinv hmutex
    (fun m' hm u => hother m' u fun hand => hm hand.1)
    (fun u hu => by
      obtain rfl : t = u := some.inj (howner'.symm.trans hu)
      omega)
    (fun hnone => by cases howner'.symm.trans hnone) herror
  refine ⟨hcounted, fun _ t' ht' hmany hmod => ?_, fun _ => howned.mpr fun u hu => ?_⟩
  · obtain rfl : t = t' := some.inj (hcaller.symm.trans ht')
    rw [hcount, hmod] at hhold
    exact hhold rfl
  · by_cases hut : u = t
    · rw [hut]
      exact howner'
    · rw [hother m u fun hand => hut hand.2] at hu
      exact absurd (some.inj ((hgood.owner m u hu).symm.trans howner)) hut

theorem release_counted_iff (h : CountedInv x) (hgood : Owned x) (hcaller : x.sys.caller = some t)
    (hrun : rtMutexRelease x.sys t m = some (r, s')) :
    CountedInv (x.after (.release m) s') ∧
      (Owned (x.after (.release m) s') ↔ HoldFits x (.release m)) := by
  obtain ⟨hcurrent, hready⟩ := caller_eq_some.mp hcaller
  have hinv := mutex_inv_release h.mutex hcaller hrun
  have hout : outcome x.sys (.release m) = some r := by
    simp only [outcome, hcaller, bind_some, hrun, map_some]
  have hc := h.mutex.kernel.consistent
  have hnot := hc.not_waiting hready
  have hlt := (h.mutex.mutex m).hold
  cases release_cases h.mutex.kernel hrun with
  | refused howner =>
    have hquiet := counted_of_quiet (.release m) h hgood hinv rfl
      (after_quiet _ (wakes_none_of_subset fun m' w hw => hw)
        (by rw [hout]; exact fun heq => by cases heq))
      fun m' w hw => by
        rw [with_error_thread, if_neg fun heq : w = t => hnot (.mutex m') (heq ▸ hw)]
        exact h.error m' w hw
    refine ⟨hquiet.1, fun _ t' ht' hmany => ?_, fun _ => hquiet.2⟩
    obtain rfl : t = t' := some.inj (hcaller.symm.trans ht')
    exact absurd (hgood.owner m t (by omega)) howner
  | keeps howner hhold =>
    refine release_keeps_counted h hgood hinv hcaller hout rfl (fun m' hm => with_mutex_of_ne hm)
      howner hhold ?_ ?_ h.error
    · rw [with_mutex_self]
      exact howner
    · rw [with_mutex_self]
  | passes w rest k howner hhold hlist hpass =>
    have hpassed := schedule_passed h.mutex.kernel hready hlist hpass
    have hmem : w ∈ x.sys.kernel.queue (.wait (.mutex m)) := hlist ▸ mem_cons_self
    refine release_last_counted (some w) h hgood hinv hcaller hout howner (by omega)
      (fun heq => hpassed.ne (some.inj heq)) (fun m' hm => with_mutex_of_ne hm) ?_ ?_
      (fun m' u => ⟨fun hwoken => ?_, fun hwoken => ?_⟩) fun m' u hu => ?_
    · rw [with_mutex_self]
    · rw [with_mutex_self]
      rfl
    · obtain ⟨hu, hleft, -⟩ := hwoken
      rw [with_mutex_kernel, hpassed.wait] at hleft
      obtain rfl : u = w := by
        by_contra hne
        exact hleft ((mem_erase_of_ne hne).mpr hu)
      exact ⟨Obj.mutex.inj (Queue.wait.inj (hc.unique u _ _ hu hmem)), rfl⟩
    · obtain ⟨rfl, hu⟩ := hwoken
      obtain rfl : w = u := some.inj hu
      refine ⟨hmem, ?_, ?_⟩
      · rw [with_mutex_kernel, hpassed.wait]
        exact (hc.nodup _).not_mem_erase
      · rw [with_mutex_kernel, hpassed.err]
        exact h.error m' w hmem
    · rw [with_mutex_kernel] at hu ⊢
      rw [hpassed.wait] at hu
      rw [hpassed.err]
      exact h.error m' u (mem_of_mem_erase hu)
  | frees howner hhold hlist =>
    have hrestored := restore_priority_changed hc t (x.sys.mutex m).originalPriority
    refine release_last_counted none h hgood hinv hcaller hout howner (by omega)
      (fun heq => by cases heq) (fun m' hm => with_mutex_of_ne hm) ?_ ?_
      (fun m' u => ⟨fun hwoken => ?_, fun hwoken => ?_⟩) fun m' u hu => ?_
    · rw [with_mutex_self]
    · rw [with_mutex_self]
      rfl
    · obtain ⟨hu, hleft, -⟩ := hwoken
      rw [with_mutex_kernel, hrestored.wait] at hleft
      exact absurd hu hleft
    · cases hwoken.2
    · rw [with_mutex_kernel] at hu ⊢
      rw [hrestored.wait] at hu
      rw [hrestored.err]
      exact h.error m' u hu

theorem last_release_passes (h : CountedInv x) (hgood : Owned x) :
    LastReleasePasses x op := by
  rintro m t x' ⟨hreleases, hcaller, hout⟩ hone hrun
  cases op with
  | kernel op => exact hreleases.elim
  | take m' time => exact hreleases.elim
  | release m' =>
    obtain rfl : m' = m := hreleases
    have howner := hgood.owner m' t (by omega)
    have hhold : (x.sys.mutex m').hold = 1 := by rw [(h.held m' t howner).1, hone]
    obtain ⟨s', hs', rfl⟩ := map_eq_some_iff.mp hrun
    obtain ⟨t', hcaller', hs'⟩ := bind_eq_some_iff.mp hs'
    obtain rfl : t = t' := some.inj (hcaller.symm.trans hcaller')
    obtain ⟨⟨r, s1⟩, hrelease, rfl⟩ := map_eq_some_iff.mp hs'
    cases release_cases h.mutex.kernel hrelease with
    | refused howner' => exact absurd howner howner'
    | keeps _ hhold' => exact absurd (by omega) hhold'
    | passes w rest k _ _ hlist _ =>
      rw [hlist]
      simp [Counted.after]
    | frees _ _ hlist =>
      rw [hlist]
      simp [Counted.after, ((h.mutex.mutex m').taken t howner).1]

theorem step_owned_iff {x' : Counted τ μ ι} (hop : op.Gentle) (h : CountedInv x) (hgood : Owned x)
    (hrun : countedStep x op = some x') :
    CountedInv x' ∧ (Owned x' ↔ HoldFits x op) := by
  obtain ⟨s', hs', rfl⟩ := map_eq_some_iff.mp hrun
  cases op with
  | kernel op =>
    obtain ⟨k, hk, rfl⟩ := map_eq_some_iff.mp hs'
    obtain ⟨hcounted, hdepth⟩ := kernel_step_counted hop h hk
    refine ⟨hcounted, fun _ => trivial, fun _ => owned_of_owner fun m t ht => ?_⟩
    rw [hdepth] at ht
    exact hgood.owner m t ht
  | take m time =>
    obtain ⟨t, hcaller, hs'⟩ := bind_eq_some_iff.mp hs'
    obtain ⟨⟨r, s1⟩, htake, rfl⟩ := map_eq_some_iff.mp hs'
    obtain ⟨hcounted, howned⟩ := take_counted h hgood hcaller htake
    exact ⟨hcounted, fun _ => trivial, fun _ => howned⟩
  | release m =>
    obtain ⟨t, hcaller, hs'⟩ := bind_eq_some_iff.mp hs'
    obtain ⟨⟨r, s1⟩, hrelease, rfl⟩ := map_eq_some_iff.mp hs'
    exact release_counted_iff h hgood hcaller hrelease

theorem counted_inv_start : CountedInv (countedStart : Counted τ μ ι) :=
  ⟨mutex_inv_start, fun _ _ ht => (by cases ht), fun _ _ => rfl, fun _ _ hw => (by cases hw)⟩

theorem owned_start : Owned (countedStart : Counted τ μ ι) :=
  owned_of_owner fun _ _ ht => absurd ht (lt_irrefl 0)

end

/-- In a run of takes and releases, threads that have a mutex always own it alone and a last release
passes it on, exactly if no thread gives back a mutex that it has 257, 513, ... times. -/
theorem ownership_iff {ops : List (Op τ μ ι)} {x : Counted τ μ ι} (hops : ∀ op ∈ ops, op.Gentle)
    (hrun : exec countedStep countedStart ops = some x) :
    (Always countedStep Owned countedStart ops ∧
      AllSteps countedStep LastReleasePasses countedStart ops) ↔
      AllSteps countedStep HoldFits countedStart ops := by
  have hiff := always_iff (P := Owned) (C := HoldFits)
    (fun _ _ _ hop h hgood hstep => step_owned_iff hop h hgood hstep) hops counted_inv_start
    owned_start hrun
  refine ⟨fun hboth => hiff.mp hboth.1, fun hfits => ⟨hiff.mpr hfits, ?_⟩⟩
  exact (hiff.mpr hfits).all_steps
    (fun _ _ _ hop h hgood hstep => (step_owned_iff hop h hgood hstep).1)
    (fun _ _ _ h hgood => last_release_passes h hgood) hops counted_inv_start

instance [Fintype τ] (x : Counted τ μ ι) (op : Op τ μ ι) : Decidable (HoldFits x op) :=
  match op with
  | .release m => inferInstanceAs (Decidable (∀ t, x.sys.caller = some t →
      1 < x.depth m t → x.depth m t % 256 ≠ 1))
  | .kernel _ | .take _ _ => .isTrue trivial

def oneThreadOps : List (Op (Fin 3) Unit Unit) :=
  [.kernel (.init 0 255 none true false), .kernel (.init 1 10 none true false),
   .kernel (.startup 0), .kernel .schedule, .kernel (.startup 1)]

theorem one_thread_ops_gentle : ∀ op ∈ oneThreadOps, op.Gentle := by
  simp [oneThreadOps, Op.Gentle, ForeignTo, KernelOp.Spares]

/-- Thread 1 takes the mutex twice, and thread 2 waits for it until it is released twice. -/
def twiceOps : List (Op (Fin 3) Unit Unit) :=
  oneThreadOps ++ [.take () .no, .take () .forever, .kernel (.init 2 5 none true false),
    .kernel (.startup 2), .take () .ticks, .release (), .release (), .release ()]

theorem twice_ops_owned : ∃ x, exec countedStep countedStart twiceOps = some x ∧
    Always countedStep Owned countedStart twiceOps ∧
      AllSteps countedStep LastReleasePasses countedStart twiceOps := by
  have hrun : (exec countedStep countedStart twiceOps).isSome = true := by decide +kernel
  obtain ⟨x, hx⟩ := isSome_iff_exists.mp hrun
  refine ⟨x, hx, (ownership_iff ?_ hx).mpr (by decide +kernel)⟩
  simp [twiceOps, oneThreadOps, Op.Gentle, ForeignTo, KernelOp.Spares]

/-- Thread 1 takes the mutex 257 times and releases it once. -/
def overflowOps : List (Op (Fin 3) Unit Unit) :=
  oneThreadOps ++ replicate 257 (.take () .no) ++ [.release ()]

/-- After `overflowOps` the mutex is free, though thread 1 has it 256 times. -/
theorem overflow_ops_not_owned : (∀ op ∈ overflowOps, op.Gentle) ∧
    ∃ x, exec countedStep countedStart overflowOps = some x ∧ ¬ Owned x := by
  refine ⟨fun op hop => ?_, ?_⟩
  · rcases mem_append.mp hop with hop | hop
    · rcases mem_append.mp hop with hop | hop
      · exact one_thread_ops_gentle op hop
      · rw [eq_of_mem_replicate hop]
        trivial
    · rw [mem_singleton.mp hop]
      trivial
  have hend : (exec countedStep countedStart overflowOps).any (fun x =>
      decide (0 < x.depth () 1 ∧ (x.sys.mutex ()).owner = none)) = true := by decide +kernel
  obtain ⟨x, hx, hlost⟩ := (Option.any_eq_true _ _).mp hend
  obtain ⟨hpos, hnone⟩ := of_decide_eq_true hlost
  refine ⟨x, hx, fun howned => ?_⟩
  cases hnone.symm.trans (howned.owner () 1 hpos)

end FullhanRtos.Ipc
