import FullhanRtos.Sched.Waiters

/-!
# Semaphores

`rt_sem_take`, `rt_sem_trytake` and `rt_sem_release` of `kernel/src/ipc.c` on one semaphore. A
release hands its token to the first waiter, or adds it to the 16-bit field `value`. `SemRun` counts
the releases and takes that succeed, and `tokens_iff` says exactly in which runs no token is lost
or made.
-/

namespace FullhanRtos.Ipc

open Sched Transition List Option

variable {τ ι : Type} [DecidableEq τ] [DecidableEq ι]

/-! ## The functions -/

/-- The threads and a semaphore. -/
structure SemSys (τ ι : Type) where
  kernel : Kernel τ ι
  value : Nat

section

variable (sem : ι) (flag : IpcFlag)

/-- `rt_sem_take`. With the time 0 it is also called from interrupts, and uses no thread. -/
def rtSemTake (s : SemSys τ ι) (time : WaitTime) : Option (Outcome × SemSys τ ι) :=
  if 0 < s.value then some (.ok, { s with value := s.value - 1 })
  else if time = .no then some (.failed, s)
  else (blockCurrent s.kernel sem flag (time = .ticks)).map fun k =>
    (.blocked, { s with kernel := k })

def rtSemTrytake (s : SemSys τ ι) : Option (Outcome × SemSys τ ι) := rtSemTake sem flag s .no

def rtSemRelease (s : SemSys τ ι) : Option (SemSys τ ι) :=
  match s.kernel.queue (.wait sem) with
  | _ :: _ => (rtSchedule (rtIpcListResume s.kernel sem)).map fun k => { s with kernel := k }
  | [] => some { s with value := (s.value + 1) % 65536 }

def rtSemReset (s : SemSys τ ι) (value : Nat) : Option (SemSys τ ι) :=
  (rtSchedule (rtIpcListResumeAll s.kernel sem)).map fun k =>
    { kernel := k, value := value % 65536 }

end

/-! ## Runs -/

/-- A call of a kernel function or on the semaphore. -/
inductive SemOp (τ ι : Type) where
  | kernel (op : KernelOp τ ι)
  | take (time : WaitTime)
  | trytake
  | release

/-- What a call returns, and the state that it leaves. -/
def semCall (sem : ι) (flag : IpcFlag) (s : SemSys τ ι) :
    SemOp τ ι → Option (Outcome × SemSys τ ι)
  | .kernel op => (kernelStep s.kernel op).map fun k => (.ok, { s with kernel := k })
  | .take time => rtSemTake sem flag s time
  | .trytake => rtSemTrytake sem flag s
  | .release => (rtSemRelease sem s).map fun s => (.ok, s)

/-- A state with the number of releases and takes that succeeded. -/
structure SemRun (τ ι : Type) where
  sys : SemSys τ ι
  released : Nat
  taken : Nat

/-- The takes that a call makes succeed at once. -/
def SemOp.takes : SemOp τ ι → Outcome → Nat
  | .take _, .ok | .trytake, .ok => 1
  | _, _ => 0

/-- The releases that a call makes succeed. -/
def SemOp.releases : SemOp τ ι → Nat
  | .release => 1
  | _ => 0

/-- One call. A waiter that is woken with `RT_EOK` has taken the semaphore. -/
def semStep (sem : ι) (flag : IpcFlag) (x : SemRun τ ι) (op : SemOp τ ι) :
    Option (SemRun τ ι) :=
  (semCall sem flag x.sys op).map fun (r, s) =>
    { sys := s
      released := x.released + op.releases
      taken := x.taken + op.takes r + (woken x.sys.kernel s.kernel sem).length }

/-- The state that `rt_sem_init` leaves, before the first thread is created. -/
def semStart (value : Nat) : SemRun τ ι where
  sys := { kernel := boot, value }
  released := 0
  taken := 0

/-- The kernel calls are not about the semaphore. -/
def SemOp.Gentle (sem : ι) : SemOp τ ι → Prop
  | .kernel op => op.Spares sem
  | _ => True

/-- Threads wait only while the value is 0, and no token is lost or made. -/
structure TokensKept (sem : ι) (value : Nat) (x : SemRun τ ι) : Prop where
  waits : x.sys.kernel.queue (.wait sem) ≠ [] → x.sys.value = 0
  tokens : value + x.released = x.taken + x.sys.value

/-- A release without a waiter does not overflow the value. -/
def ValueFits (sem : ι) (x : SemRun τ ι) : SemOp τ ι → Prop
  | .release => x.sys.kernel.queue (.wait sem) = [] → x.sys.value ≠ 65535
  | _ => True

/-- The invariant of all runs. -/
structure SemInv (sem : ι) (x : SemRun τ ι) : Prop where
  kernel : KernelInv x.sys.kernel
  eok : WaitersEok x.sys.kernel sem
  value : x.sys.value < 65536

section

variable {sem : ι} {flag : IpcFlag} {value : Nat} {x x' : SemRun τ ι} {time : WaitTime}

theorem kernel_step_tokens {op : KernelOp τ ι} (hop : op.Spares sem) (h : SemInv sem x)
    (hgood : TokensKept sem value x) (hrun : semStep sem flag x (.kernel op) = some x') :
    SemInv sem x' ∧ TokensKept sem value x' := by
  obtain ⟨⟨r, s⟩, hcall, rfl⟩ := map_eq_some_iff.mp hrun
  obtain ⟨k, hk, heq⟩ := map_eq_some_iff.mp hcall
  cases heq
  have hcase := kernel_step_waiters_cases hop h.kernel hk
  refine ⟨⟨kernel_step_inv op h.kernel hk, hcase.waiters_eok h.kernel.consistent h.eok, h.value⟩,
    fun hwaits => hgood.waits fun hnil => hwaits ?_, ?_⟩
  · show k.queue (.wait sem) = []
    cases hcase with
    | same _ hwait _ => rw [hwait, hnil]
    | timeout t _ hwait _ _ _ => rw [hwait, hnil, erase_nil]
  · simpa [hcase.woken_eq_nil, SemOp.takes, SemOp.releases] using hgood.tokens

theorem take_tokens (h : SemInv sem x) (hgood : TokensKept sem value x)
    (hrun : semStep sem flag x (.take time) = some x') :
    SemInv sem x' ∧ TokensKept sem value x' := by
  obtain ⟨⟨r, s⟩, hcall, rfl⟩ := map_eq_some_iff.mp hrun
  have htokens := hgood.tokens
  have hvalue := h.value
  have hstays : woken x.sys.kernel x.sys.kernel sem = [] := woken_eq_nil fun _ hw => hw
  simp only [semCall, rtSemTake] at hcall
  split at hcall
  · rename_i hpos
    cases hcall
    refine ⟨⟨h.kernel, h.eok, ?_⟩, fun hwaits => ?_, ?_⟩
    · show x.sys.value - 1 < 65536
      omega
    · exact absurd (hgood.waits hwaits) (by omega)
    · show value + (x.released + 0) = x.taken + 1 + (woken x.sys.kernel x.sys.kernel sem).length +
        (x.sys.value - 1)
      rw [hstays, length_nil]
      omega
  · rename_i hzero
    split at hcall
    · cases hcall
      refine ⟨⟨h.kernel, h.eok, h.value⟩, hgood.waits, ?_⟩
      show value + (x.released + 0) = x.taken + 0 + (woken x.sys.kernel x.sys.kernel sem).length +
        x.sys.value
      rw [hstays, length_nil]
      omega
    · obtain ⟨k, hblock, heq⟩ := map_eq_some_iff.mp hcall
      cases heq
      obtain ⟨t, hblocked⟩ := block_blocked h.kernel.consistent hblock
      refine ⟨⟨kernel_inv_block h.kernel hblock, hblocked.waiters_eok h.kernel.consistent h.eok,
        h.value⟩, fun _ => ?_, ?_⟩
      · show x.sys.value = 0
        omega
      · show value + (x.released + 0) = x.taken + 0 + (woken x.sys.kernel k sem).length +
          x.sys.value
        rw [hblocked.woken_eq_nil, length_nil]
        omega

theorem trytake_eq_take : semStep sem flag x .trytake = semStep sem flag x (.take .no) := by
  refine congrArg (fun f => Option.map f _) (funext fun p => ?_)
  obtain ⟨r, s⟩ := p
  cases r <;> rfl

theorem release_tokens_iff (h : SemInv sem x) (hgood : TokensKept sem value x)
    (hrun : semStep sem flag x .release = some x') :
    SemInv sem x' ∧ (TokensKept sem value x' ↔ ValueFits sem x .release) := by
  obtain ⟨⟨r, s⟩, hcall, rfl⟩ := map_eq_some_iff.mp hrun
  obtain ⟨s1, hrelease, heq⟩ := map_eq_some_iff.mp hcall
  cases heq
  have htokens := hgood.tokens
  have hvalue := h.value
  simp only [rtSemRelease] at hrelease
  split at hrelease
  · rename_i t rest hlist
    -- The token goes to the first waiter.
    obtain ⟨k, hschedule, rfl⟩ := map_eq_some_iff.mp hrelease
    have hresumed := ipc_list_resume_resumed h.kernel.consistent hlist
    obtain ⟨v, -, rfl⟩ := map_eq_some_iff.mp hschedule
    have hinv := kernel_inv_schedule (consistent_ipc_list_resume h.kernel.consistent sem) hschedule
    have hwoken : woken x.sys.kernel (rtIpcListResume x.sys.kernel sem) sem = [t] :=
      hresumed.woken_eq h.kernel.consistent hlist h.eok
    refine ⟨⟨hinv, hresumed.waiters_eok h.eok, h.value⟩, fun _ hnil => ?_, fun _ =>
      ⟨fun _ => ?_, ?_⟩⟩
    · rw [hlist] at hnil
      cases hnil
    · exact hgood.waits (by rw [hlist]; exact cons_ne_nil t rest)
    · show value + (x.released + 1) = x.taken + 0 +
        (woken x.sys.kernel (rtIpcListResume x.sys.kernel sem) sem).length + x.sys.value
      rw [hwoken, length_singleton]
      omega
  · rename_i hlist
    cases hrelease
    have hstays : woken x.sys.kernel x.sys.kernel sem = [] := woken_eq_nil fun _ hw => hw
    refine ⟨⟨h.kernel, h.eok, Nat.mod_lt _ (by decide)⟩, fun hkept _ => ?_, fun hfits =>
      ⟨fun hwaits => absurd hlist hwaits, ?_⟩⟩
    · have htokens' : value + (x.released + 1) = x.taken + 0 +
          (woken x.sys.kernel x.sys.kernel sem).length + (x.sys.value + 1) % 65536 := hkept.tokens
      rw [hstays, length_nil] at htokens'
      omega
    · have hsmall : x.sys.value ≠ 65535 := hfits hlist
      show value + (x.released + 1) = x.taken + 0 +
        (woken x.sys.kernel x.sys.kernel sem).length + (x.sys.value + 1) % 65536
      rw [hstays, length_nil]
      omega

theorem sem_step_iff {op : SemOp τ ι} (hop : op.Gentle sem) (h : SemInv sem x)
    (hgood : TokensKept sem value x) (hrun : semStep sem flag x op = some x') :
    SemInv sem x' ∧ (TokensKept sem value x' ↔ ValueFits sem x op) := by
  cases op with
  | kernel op =>
    obtain ⟨hinv, hkept⟩ := kernel_step_tokens hop h hgood hrun
    exact ⟨hinv, fun _ => trivial, fun _ => hkept⟩
  | take time =>
    obtain ⟨hinv, hkept⟩ := take_tokens h hgood hrun
    exact ⟨hinv, fun _ => trivial, fun _ => hkept⟩
  | trytake =>
    rw [trytake_eq_take] at hrun
    obtain ⟨hinv, hkept⟩ := take_tokens h hgood hrun
    exact ⟨hinv, fun _ => trivial, fun _ => hkept⟩
  | release => exact release_tokens_iff h hgood hrun

end

/-- From any initial value that `rt_sem_init` accepts, tokens are kept in every state of a run
exactly if no release without a waiter finds the value 65535. -/
theorem tokens_iff {sem : ι} {flag : IpcFlag} {value : Nat} {ops : List (SemOp τ ι)}
    {x : SemRun τ ι} (hvalue : value < 65536) (hops : ∀ op ∈ ops, op.Gentle sem)
    (hrun : exec (semStep sem flag) (semStart value) ops = some x) :
    Always (semStep sem flag) (TokensKept sem value) (semStart value) ops ↔
      AllSteps (semStep sem flag) (ValueFits sem) (semStart value) ops := by
  refine always_iff (fun _ _ _ hop h hgood hstep => sem_step_iff hop h hgood hstep) hops
    ⟨kernel_inv_boot, fun _ hw => (by cases hw), hvalue⟩ ⟨fun hwaits => absurd rfl hwaits, ?_⟩ hrun
  show value + 0 = 0 + value
  omega

instance (sem : ι) (x : SemRun τ ι) (op : SemOp τ ι) : Decidable (ValueFits sem x op) :=
  match op with
  | .release => inferInstanceAs (Decidable (x.sys.kernel.queue (.wait sem) = [] →
      x.sys.value ≠ 65535))
  | .kernel _ | .take _ | .trytake => .isTrue trivial

/-- Threads 1 and 2 wait for the semaphore; thread 1 gets the token of an interrupt, thread 2 times
out, and one more token is left. -/
def someSemOps : List (SemOp (Fin 3) Unit) :=
  [.kernel (.init 0 255 none true false), .kernel (.init 1 10 none true false),
   .kernel (.init 2 20 none true false), .kernel (.startup 0), .kernel .schedule,
   .kernel (.startup 1), .take .forever, .kernel (.startup 2), .take .ticks, .release,
   .kernel (.timeout 2), .trytake, .release]

theorem some_sem_ops_tokens : ∃ x, exec (semStep () .fifo) (semStart 0) someSemOps = some x ∧
    Always (semStep () .fifo) (TokensKept () 0) (semStart 0) someSemOps := by
  have hrun : (exec (semStep () .fifo) (semStart 0) someSemOps).isSome = true := by decide +kernel
  obtain ⟨x, hx⟩ := isSome_iff_exists.mp hrun
  refine ⟨x, hx, (tokens_iff (by decide) ?_ hx).mpr (by decide +kernel)⟩
  simp [someSemOps, SemOp.Gentle, KernelOp.Spares]

/-- A semaphore of the initial value 65535 loses all tokens with one release. -/
theorem full_sem_loses_tokens : ∃ x : SemRun (Fin 3) Unit,
    exec (semStep () .fifo) (semStart 65535) [.release] = some x ∧ ¬ TokensKept () 65535 x := by
  refine ⟨_, rfl, fun hkept => ?_⟩
  have htokens : 65535 + 1 = 0 + 0 := hkept.tokens
  omega

end FullhanRtos.Ipc
