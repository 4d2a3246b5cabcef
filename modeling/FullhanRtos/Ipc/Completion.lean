import FullhanRtos.Sched.Waiters

/-!
# Completions

`rt_completion_wait` and `rt_completion_done` of `kernel/utilities/completion.c` on one completion.
A done adds to the counter `flag` and wakes the first waiter; that waiter looks at the counter only
when it runs again (`again`). `CompRun` counts the dones, the waits that returned `RT_EOK` and the
waits that returned an error and took from the counter. As long as the counter stays below the
value that means "completed for all", `completion_ok_iff` says in which runs the counts are right.
-/

namespace FullhanRtos.Ipc

open Sched Transition Function Option

set_option linter.unusedSectionVars false

variable {τ ι : Type} [DecidableEq τ] [DecidableEq ι]

/-! ## The functions -/

/-- The counter that `rt_completion_all` leaves. -/
def uintMax : BitVec 32 := ~~~0#32

/-- The threads and a completion. `waiting` are the threads behind the `rt_schedule` of a wait. -/
structure CompSys (τ ι : Type) where
  kernel : Kernel τ ι
  flag : BitVec 32
  waiting : τ → Bool

/-- A call of a kernel function, or a call or a step of the functions on the completion. -/
inductive CompOp (τ ι : Type) where
  | kernel (op : KernelOp τ ι)
  | wait (caller : Agent τ) (timeout : WaitTime)
  | again (t : τ)
  | done (caller : Agent τ)

/-- The counter after a wait took from it. -/
def cleanFlag (flag : BitVec 32) : BitVec 32 := if flag ≠ uintMax then flag - 1#32 else flag

/-- The counter after a done. -/
def doneFlag (flag : BitVec 32) : BitVec 32 := if flag ≠ uintMax then flag + 1#32 else flag

section

variable (comp : ι) (s : CompSys τ ι)

/-- `rt_completion_wait` up to its `rt_schedule`; interrupts must not wait. A thread that waits has
no result yet. -/
def rtCompletionWait (caller : Agent τ) (timeout : WaitTime) : Option (Option Err × CompSys τ ι) :=
  if s.flag = 0#32 then
    if timeout = .no then some (some .etimeout, s)
    else
      match caller with
      | .isr _ => none
      | .thread t =>
        (blockCurrent s.kernel comp .fifo (timeout = .ticks)).map fun k =>
          (none, { s with kernel := k, waiting := update s.waiting t true })
  else some (some .eok, { s with flag := cleanFlag s.flag })

/-- `rt_completion_wait` behind its `rt_schedule`. -/
def completionAgain (t : τ) : Option Err × CompSys τ ι :=
  let result := (s.kernel.thread t).error
  let s := { s with waiting := update s.waiting t false }
  if s.flag = 0#32 then (some result, s) else (some result, { s with flag := cleanFlag s.flag })

def rtCompletionDone : Option (CompSys τ ι) :=
  (resumeFirst s.kernel comp).map fun k => { s with kernel := k, flag := doneFlag s.flag }

/-- A thread that waits calls nothing else. -/
def CompSys.Free : Agent τ → Prop
  | .thread t => s.waiting t = false
  | .isr _ => True

instance CompSys.decidableFree (a : Agent τ) : Decidable (s.Free a) :=
  match a with
  | .thread t => inferInstanceAs (Decidable (s.waiting t = false))
  | .isr _ => .isTrue trivial

/-- What a step returns from a wait, and the state that it leaves. -/
def compCall : CompOp τ ι → Option (Option Err × CompSys τ ι)
  | .kernel op => (kernelStep s.kernel op).map fun k => (none, { s with kernel := k })
  | .wait a timeout =>
    if s.kernel.Acts a ∧ s.Free a then rtCompletionWait comp s a timeout else none
  | .again t =>
    if s.kernel.Acts (.thread t) ∧ s.waiting t = true then some (completionAgain s t) else none
  | .done a =>
    if s.kernel.Acts a ∧ s.Free a then (rtCompletionDone comp s).map fun s => (none, s) else none

end

/-! ## Runs -/

/-- A state with the number of dones, of waits that returned `RT_EOK`, and of waits that returned an
error and changed the counter. -/
structure CompRun (τ ι : Type) where
  sys : CompSys τ ι
  dones : Nat
  returned : Nat
  wasted : Nat

/-- The calls of `rt_completion_done`. -/
def CompOp.dones : CompOp τ ι → Nat
  | .done _ => 1
  | _ => 0

/-- A wait returned `RT_EOK`. -/
def okResult : Option Err → Nat
  | some .eok => 1
  | _ => 0

/-- A wait returned an error, and the counter changed. -/
def wastedResult (flag flag' : BitVec 32) : Option Err → Nat
  | none => 0
  | some e => if e = .eok ∨ flag = flag' then 0 else 1

def compStep (comp : ι) (x : CompRun τ ι) (op : CompOp τ ι) : Option (CompRun τ ι) :=
  (compCall comp x.sys op).map fun (r, s) =>
    { sys := s
      dones := x.dones + op.dones
      returned := x.returned + okResult r
      wasted := x.wasted + wastedResult x.sys.flag s.flag r }

/-- The state after `rt_completion_init`, before the first thread is created. -/
def compStart : CompRun τ ι where
  sys := { kernel := boot, flag := 0#32, waiting := fun _ => false }
  dones := 0
  returned := 0
  wasted := 0

/-- No more waits succeeded than dones were made, and no wait that failed took a done. -/
structure DonesKept (x : CompRun τ ι) : Prop where
  returned : x.returned ≤ x.dones
  wasted : x.wasted = 0

/-- A done does not make the counter the one of `rt_completion_all`. -/
def StaysCounting (x : CompRun τ ι) : CompOp τ ι → Prop
  | .done _ => x.sys.flag + 1#32 ≠ uintMax
  | _ => True

/-- A waiter that was woken by a done still finds one when it runs, and one that timed out finds
none. -/
def WakesFit (x : CompRun τ ι) : CompOp τ ι → Prop
  | .again t => (x.sys.kernel.thread t).error = .eok ↔ x.sys.flag ≠ 0#32
  | _ => True

/-- The counter counts the dones that no wait has taken. -/
structure CompInv (x : CompRun τ ι) : Prop where
  count : x.dones = x.returned + x.sys.flag.toNat
  counting : x.sys.flag ≠ uintMax

section

variable {comp : ι} {x x' : CompRun τ ι} {flag : BitVec 32} {s : CompSys τ ι} {a : Agent τ}

theorem clean_flag_spec (hmax : flag ≠ uintMax) (hflag : flag ≠ 0#32) :
    cleanFlag flag ≠ uintMax ∧ flag ≠ cleanFlag flag ∧ flag.toNat = (cleanFlag flag).toNat + 1 := by
  rw [cleanFlag, if_pos hmax]
  unfold uintMax at hmax ⊢
  refine ⟨?_, ?_, ?_⟩
  all_goals bv_omega

theorem done_flag_spec (hmax : flag ≠ uintMax) : (doneFlag flag).toNat = flag.toNat + 1 := by
  rw [doneFlag, if_pos hmax]
  unfold uintMax at hmax
  bv_omega

/-- The counts after a wait that returns. -/
def waited (x : CompRun τ ι) (s : CompSys τ ι) (e : Err) : CompRun τ ι where
  sys := s
  dones := x.dones
  returned := x.returned + okResult (some e)
  wasted := x.wasted + wastedResult x.sys.flag s.flag (some e)

theorem clean_counts_iff {e : Err} (h : CompInv x) (hgood : DonesKept x) (hflag : x.sys.flag ≠ 0#32)
    (hclean : s.flag = cleanFlag x.sys.flag) :
    (e = .eok → CompInv (waited x s e)) ∧ (DonesKept (waited x s e) ↔ e = .eok) := by
  obtain ⟨hmax, hne, hcount⟩ := clean_flag_spec h.counting hflag
  have htotal := h.count
  rw [← hclean] at hmax hne hcount
  have hok : e = .eok → okResult (some e) = 1 ∧
      wastedResult x.sys.flag s.flag (some e) = 0 := by
    rintro rfl
    exact ⟨rfl, by rw [wastedResult, if_pos (.inl rfl)]⟩
  refine ⟨fun he => ⟨?_, hmax⟩, fun hkept => ?_, fun he => ⟨?_, ?_⟩⟩
  · show x.dones = x.returned + okResult (some e) + s.flag.toNat
    rw [(hok he).1]
    omega
  · by_contra he
    have hwasted : x.wasted + wastedResult x.sys.flag s.flag (some e) = 0 := hkept.wasted
    rw [wastedResult, if_neg (not_or.mpr ⟨he, hne⟩)] at hwasted
    omega
  · show x.returned + okResult (some e) ≤ x.dones
    rw [(hok he).1]
    omega
  · show x.wasted + wastedResult x.sys.flag s.flag (some e) = 0
    rw [(hok he).2]
    exact hgood.wasted

theorem none_counts_iff {e : Err} (h : CompInv x) (hgood : DonesKept x) (hflag : x.sys.flag = 0#32)
    (hsame : s.flag = x.sys.flag) :
    (e ≠ .eok → CompInv (waited x s e)) ∧ (DonesKept (waited x s e) ↔ e ≠ .eok) := by
  have htotal := h.count
  rw [hflag, BitVec.toNat_zero] at htotal
  have herror : e ≠ .eok → okResult (some e) = 0 := by
    intro he
    cases e with
    | eok => exact absurd rfl he
    | error | etimeout => rfl
  refine ⟨fun he => ⟨?_, ?_⟩, fun hkept he => ?_, fun he => ⟨?_, ?_⟩⟩
  · show x.dones = x.returned + okResult (some e) + s.flag.toNat
    rw [herror he, hsame, hflag, BitVec.toNat_zero]
    omega
  · show s.flag ≠ uintMax
    rw [hsame]
    exact h.counting
  · subst he
    have hreturned : x.returned + 1 ≤ x.dones := hkept.returned
    omega
  · show x.returned + okResult (some e) ≤ x.dones
    rw [herror he]
    omega
  · show x.wasted + wastedResult x.sys.flag s.flag (some e) = 0
    rw [wastedResult, if_pos (.inr hsame.symm)]
    exact hgood.wasted

/-- A step that returns from no wait and makes no done. -/
theorem quiet_counts (h : CompInv x) (hgood : DonesKept x) (hsame : s.flag = x.sys.flag) :
    CompInv { x with sys := s } ∧ DonesKept { x with sys := s } := by
  refine ⟨⟨?_, ?_⟩, hgood.returned, hgood.wasted⟩
  · show x.dones = x.returned + s.flag.toNat
    rw [hsame]
    exact h.count
  · show s.flag ≠ uintMax
    rw [hsame]
    exact h.counting

theorem wait_counts {timeout : WaitTime} (h : CompInv x) (hgood : DonesKept x)
    (hrun : compStep comp x (.wait a timeout) = some x') : CompInv x' ∧ DonesKept x' := by
  obtain ⟨⟨r, s⟩, hcall, rfl⟩ := map_eq_some_iff.mp hrun
  obtain ⟨-, hcall⟩ := ite_none_right_eq_some.mp hcall
  unfold rtCompletionWait at hcall
  split at hcall
  · rename_i hflag
    split at hcall
    · cases hcall
      obtain ⟨hinv, hiff⟩ := none_counts_iff (s := x.sys) (e := .etimeout) h hgood hflag rfl
      exact ⟨hinv nofun, hiff.mpr nofun⟩
    · cases a with
      | isr n => cases hcall
      | thread t =>
        obtain ⟨k, -, heq⟩ := map_eq_some_iff.mp hcall
        cases heq
        exact quiet_counts h hgood rfl
  · rename_i hflag
    cases hcall
    obtain ⟨hinv, hiff⟩ := clean_counts_iff
      (s := { x.sys with flag := cleanFlag x.sys.flag }) (e := .eok) h hgood hflag rfl
    exact ⟨hinv rfl, hiff.mpr rfl⟩

/-- A waiter that runs again is right exactly if it finds what it was woken for. -/
theorem again_counts_iff {t : τ} (h : CompInv x) (hgood : DonesKept x)
    (hrun : compStep comp x (.again t) = some x') :
    (WakesFit x (.again t) → CompInv x') ∧ (DonesKept x' ↔ WakesFit x (.again t)) := by
  obtain ⟨⟨r, s⟩, hcall, rfl⟩ := map_eq_some_iff.mp hrun
  obtain ⟨-, hcall⟩ := ite_none_right_eq_some.mp hcall
  unfold completionAgain at hcall
  by_cases hflag : x.sys.flag = 0#32
  · rw [if_pos hflag] at hcall
    cases hcall
    have hfit : WakesFit x (.again t) ↔ (x.sys.kernel.thread t).error ≠ .eok := by
      simp [WakesFit, hflag]
    rw [hfit]
    exact none_counts_iff
      (s := { x.sys with waiting := update x.sys.waiting t false }) h hgood hflag rfl
  · rw [if_neg hflag] at hcall
    cases hcall
    have hfit : WakesFit x (.again t) ↔ (x.sys.kernel.thread t).error = .eok := by
      simp [WakesFit, hflag]
    rw [hfit]
    exact clean_counts_iff
      (s := { x.sys with waiting := update x.sys.waiting t false
                         flag := cleanFlag x.sys.flag }) h hgood hflag rfl

theorem done_counts (hstays : StaysCounting x (.done a)) (h : CompInv x) (hgood : DonesKept x)
    (hrun : compStep comp x (.done a) = some x') :
    CompInv x' ∧ DonesKept x' := by
  obtain ⟨⟨r, s⟩, hcall, rfl⟩ := map_eq_some_iff.mp hrun
  obtain ⟨-, hcall⟩ := ite_none_right_eq_some.mp hcall
  obtain ⟨s1, hdone, heq⟩ := map_eq_some_iff.mp hcall
  cases heq
  obtain ⟨k, -, rfl⟩ := map_eq_some_iff.mp hdone
  have hcount := done_flag_spec h.counting
  have htotal := h.count
  refine ⟨⟨?_, ?_⟩, Nat.le_succ_of_le hgood.returned, hgood.wasted⟩
  · show x.dones + 1 = x.returned + 0 + (doneFlag x.sys.flag).toNat
    omega
  · show doneFlag x.sys.flag ≠ uintMax
    rw [doneFlag, if_pos h.counting]
    exact hstays

theorem comp_step_iff {op : CompOp τ ι} (hstays : StaysCounting x op) (h : CompInv x)
    (hgood : DonesKept x) (hrun : compStep comp x op = some x') :
    (WakesFit x op → CompInv x') ∧ (DonesKept x' ↔ WakesFit x op) := by
  cases op with
  | kernel op =>
    obtain ⟨⟨r, s⟩, hcall, rfl⟩ := map_eq_some_iff.mp hrun
    obtain ⟨k, -, heq⟩ := map_eq_some_iff.mp hcall
    cases heq
    obtain ⟨hinv, hkept⟩ := quiet_counts (s := { x.sys with kernel := k }) h hgood rfl
    exact ⟨fun _ => hinv, fun _ => trivial, fun _ => hkept⟩
  | wait a timeout =>
    obtain ⟨hinv, hkept⟩ := wait_counts h hgood hrun
    exact ⟨fun _ => hinv, fun _ => trivial, fun _ => hkept⟩
  | again t => exact again_counts_iff h hgood hrun
  | done a =>
    obtain ⟨hinv, hkept⟩ := done_counts hstays h hgood hrun
    exact ⟨fun _ => hinv, fun _ => trivial, fun _ => hkept⟩

end

/-- While the counter stays below the one of `rt_completion_all`, no more waits succeed than dones
were made and no failed wait takes a done, in all states of a run, exactly if each waiter that runs
again finds what it was woken for. -/
theorem completion_ok_iff {comp : ι} {ops : List (CompOp τ ι)} {x : CompRun τ ι}
    (hstays : AllSteps (compStep comp) StaysCounting compStart ops)
    (hrun : exec (compStep comp) compStart ops = some x) :
    Always (compStep comp) DonesKept compStart ops ↔
      AllSteps (compStep comp) WakesFit compStart ops := by
  refine always_iff_under (fun _ _ _ hstays h hgood hstep => comp_step_iff hstays h hgood hstep)
    hstays ⟨rfl, ?_⟩ ⟨le_refl 0, rfl⟩ hrun
  show 0#32 ≠ uintMax
  decide

instance (x : CompRun τ ι) (op : CompOp τ ι) : Decidable (StaysCounting x op) :=
  match op with
  | .done _ => inferInstanceAs (Decidable (x.sys.flag + 1#32 ≠ uintMax))
  | .kernel _ | .wait _ _ | .again _ => .isTrue trivial

instance (x : CompRun τ ι) (op : CompOp τ ι) : Decidable (WakesFit x op) :=
  match op with
  | .again t =>
    inferInstanceAs (Decidable ((x.sys.kernel.thread t).error = .eok ↔ x.sys.flag ≠ 0#32))
  | .kernel _ | .wait _ _ | .done _ => .isTrue trivial

/-- Thread 1 waits, with a timeout. -/
def someCompOps : List (CompOp (Fin 3) Unit) :=
  [.kernel (.init 0 255 none true false), .kernel (.init 1 10 none true false),
   .kernel (.init 2 5 none true false), .kernel (.startup 0), .kernel .schedule,
   .kernel (.startup 1), .wait (.thread 1) .ticks]

/-- A done wakes thread 1, which takes it. -/
theorem some_comp_ops_ok : ∃ x, exec (compStep ()) compStart
      (someCompOps ++ [.done (.isr 0), .again 1]) = some x ∧
    Always (compStep ()) DonesKept compStart (someCompOps ++ [.done (.isr 0), .again 1]) := by
  have hrun : (exec (compStep ()) compStart
      (someCompOps ++ [.done (.isr 0), .again 1])).isSome = true := by decide +kernel
  obtain ⟨x, hx⟩ := isSome_iff_exists.mp hrun
  exact ⟨x, hx, (completion_ok_iff (by decide +kernel) hx).mpr (by decide +kernel)⟩

/-- A done wakes thread 1, but thread 2 takes it first: two waits succeed with one done. -/
theorem one_done_returns_twice : ∃ x : CompRun (Fin 3) Unit, exec (compStep ()) compStart
      (someCompOps ++ [.done (.isr 0), .kernel (.startup 2), .wait (.thread 2) .forever,
        .kernel .sleep, .again 1]) = some x ∧ ¬ DonesKept x := by
  have hrun : (exec (compStep ()) compStart
      (someCompOps ++ [.done (.isr 0), .kernel (.startup 2), .wait (.thread 2) .forever,
        .kernel .sleep, .again 1])).any (fun x : CompRun (Fin 3) Unit =>
      x.dones < x.returned) = true := by decide +kernel
  obtain ⟨x, hx, htwice⟩ := (any_eq_true _ _).mp hrun
  exact ⟨x, hx, fun hkept => Nat.not_le_of_lt (of_decide_eq_true htwice) hkept.returned⟩

end FullhanRtos.Ipc
