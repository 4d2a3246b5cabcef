import FullhanRtos.Lib.Sizes
import Mathlib.Logic.Function.Basic
import Mathlib.Tactic.Common

/-!
# Threads and the ready queue

Data and functions of `kernel/src/scheduler.c`, `kernel/src/thread.c` and the list functions of
`kernel/src/ipc.c` in the configuration of `out/rtconfig/rtconfig.h`: one processor, 256
priorities, no signals. Interrupts are disabled inside the functions, so each call is one step of
the kernel.

The node `tlist` links a thread into at most one list: a priority list, the suspend list of an IPC
object or the list of defunct threads. `Kernel.queue` holds all of them, and `rtListRemove` takes
a thread off the list that it is on. `none` is the result of a call that stops at an `RT_ASSERT`
or schedules without a ready thread. The stack, entry, tick and name fields, the hooks and the
`cleanup` callbacks are left out; what a thread does behind the `rt_schedule` of a blocking call is
part of its next call.
-/

namespace FullhanRtos.Sched

open Function

/-! ## Data -/

/-- The thread states of `rtdef.h`. -/
inductive Stat where
  | init
  | ready
  | suspend
  | running
  | close
  deriving DecidableEq

/-- The error codes that the modelled functions store in a thread. -/
inductive Err where
  | eok
  | error
  | etimeout
  deriving DecidableEq

/-- `struct rt_thread`. `timerActive` says that `thread_timer` runs, and `lock` is the semaphore of
`RT_USING_THREAD_LOCK`. -/
structure Thread (ι : Type) where
  stat : Stat
  error : Err
  currentPriority : Fin 256
  initPriority : Fin 256
  number : Fin 32
  numberMask : BitVec 32
  highMask : BitVec 8
  timerActive : Bool
  systemObject : Bool
  cleanup : Bool
  lock : Option ι

/-- The lists that a thread can be on. -/
inductive Queue (ι : Type) where
  | ready (priority : Fin 256)
  | wait (object : ι)
  | defunct
  deriving DecidableEq

/-- The scheduler and the threads, for any set `τ` of threads and `ι` of IPC objects. -/
structure Kernel (τ ι : Type) where
  thread : τ → Thread ι
  queue : Queue ι → List τ
  readyTable : Fin 32 → BitVec 8
  group : BitVec 32
  current : Option τ

inductive IpcFlag where
  | fifo
  | prio
  deriving DecidableEq

/-- `number`, the row of a priority in the ready table. -/
def prioNumber (p : Fin 256) : Fin 32 := ⟨p.val >>> 3, by
  have := p.isLt
  rw [Nat.shiftRight_eq_div_pow]
  omega⟩

/-- The bit of a priority in its row. -/
def prioBit (p : Fin 256) : Nat := p.val &&& 7

/-- Store a priority and recompute its masks. -/
def Thread.withPriority {ι : Type} (th : Thread ι) (p : Fin 256) : Thread ι :=
  { th with
    currentPriority := p
    number := prioNumber p
    numberMask := 1#32 <<< (prioNumber p).val
    highMask := 1#8 <<< prioBit p }

variable {τ ι : Type} [DecidableEq τ] [DecidableEq ι]

/-- Change the record of a thread. -/
def Kernel.updateThread (k : Kernel τ ι) (t : τ) (f : Thread ι → Thread ι) : Kernel τ ι :=
  { k with thread := update k.thread t (f (k.thread t)) }

/-! ## Lists -/

def rtListRemove (k : Kernel τ ι) (t : τ) : Kernel τ ι :=
  { k with queue := fun q => (k.queue q).erase t }

/-- Link a thread into a list that becomes `l`. -/
def Kernel.withQueue (k : Kernel τ ι) (q : Queue ι) (l : List τ) : Kernel τ ι :=
  { k with queue := update k.queue q l }

def rtListInsertBefore (k : Kernel τ ι) (q : Queue ι) (t : τ) : Kernel τ ι :=
  k.withQueue q (k.queue q ++ [t])

/-! ## The ready queue -/

def lowestBitBitmap : List Nat :=
  [0, 0, 1, 0, 2, 0, 1, 0, 3, 0, 1, 0, 2, 0, 1, 0,
   4, 0, 1, 0, 2, 0, 1, 0, 3, 0, 1, 0, 2, 0, 1, 0,
   5, 0, 1, 0, 2, 0, 1, 0, 3, 0, 1, 0, 2, 0, 1, 0,
   4, 0, 1, 0, 2, 0, 1, 0, 3, 0, 1, 0, 2, 0, 1, 0,
   6, 0, 1, 0, 2, 0, 1, 0, 3, 0, 1, 0, 2, 0, 1, 0,
   4, 0, 1, 0, 2, 0, 1, 0, 3, 0, 1, 0, 2, 0, 1, 0,
   5, 0, 1, 0, 2, 0, 1, 0, 3, 0, 1, 0, 2, 0, 1, 0,
   4, 0, 1, 0, 2, 0, 1, 0, 3, 0, 1, 0, 2, 0, 1, 0,
   7, 0, 1, 0, 2, 0, 1, 0, 3, 0, 1, 0, 2, 0, 1, 0,
   4, 0, 1, 0, 2, 0, 1, 0, 3, 0, 1, 0, 2, 0, 1, 0,
   5, 0, 1, 0, 2, 0, 1, 0, 3, 0, 1, 0, 2, 0, 1, 0,
   4, 0, 1, 0, 2, 0, 1, 0, 3, 0, 1, 0, 2, 0, 1, 0,
   6, 0, 1, 0, 2, 0, 1, 0, 3, 0, 1, 0, 2, 0, 1, 0,
   4, 0, 1, 0, 2, 0, 1, 0, 3, 0, 1, 0, 2, 0, 1, 0,
   5, 0, 1, 0, 2, 0, 1, 0, 3, 0, 1, 0, 2, 0, 1, 0,
   4, 0, 1, 0, 2, 0, 1, 0, 3, 0, 1, 0, 2, 0, 1, 0]

/-- `__rt_ffs`: the number of the lowest set bit, counted from 1, or 0. -/
def rtFfs (value : BitVec 32) : Nat :=
  if value = 0#32 then 0
  else if value &&& 0xff#32 ≠ 0#32 then lowestBitBitmap.getD (value &&& 0xff#32).toNat 0 + 1
  else if value &&& 0xff00#32 ≠ 0#32 then
    lowestBitBitmap.getD ((value &&& 0xff00#32) >>> 8).toNat 0 + 9
  else if value &&& 0xff0000#32 ≠ 0#32 then
    lowestBitBitmap.getD ((value &&& 0xff0000#32) >>> 16).toNat 0 + 17
  else lowestBitBitmap.getD ((value &&& 0xff000000#32) >>> 24).toNat 0 + 25

def highestReadyPriority (k : Kernel τ ι) : Fin 256 :=
  let number := rtFfs k.group - 1
  Fin.ofNat 256 ((number <<< 3) + rtFfs ((k.readyTable (Fin.ofNat 32 number)).setWidth 32) - 1)

/-- The thread that `rt_schedule` picks. -/
def highestPriorityThread (k : Kernel τ ι) : Option τ :=
  (k.queue (.ready (highestReadyPriority k))).head?

def rtSchedule (k : Kernel τ ι) : Option (Kernel τ ι) :=
  (highestPriorityThread k).map fun t => { k with current := some t }

def rtScheduleInsertThread (k : Kernel τ ι) (t : τ) : Kernel τ ι :=
  let k := k.updateThread t fun th => { th with stat := .ready }
  let th := k.thread t
  let k := rtListInsertBefore k (.ready th.currentPriority) t
  { k with
    readyTable := update k.readyTable th.number (k.readyTable th.number ||| th.highMask)
    group := k.group ||| th.numberMask }

/-- Clear the bits of a priority whose list became empty. -/
def clearReadyBits (k : Kernel τ ι) (th : Thread ι) : Kernel τ ι :=
  let row := k.readyTable th.number &&& ~~~th.highMask
  { k with
    readyTable := update k.readyTable th.number row
    group := if row = 0#8 then k.group &&& ~~~th.numberMask else k.group }

def rtScheduleRemoveThread (k : Kernel τ ι) (t : τ) : Kernel τ ι :=
  let k := rtListRemove k t
  let th := k.thread t
  if k.queue (.ready th.currentPriority) = [] then clearReadyBits k th else k

/-! ## Threads -/

def rtThreadInit (k : Kernel τ ι) (t : τ) (priority : Fin 256) (lock : Option ι)
    (systemObject cleanup : Bool) : Option (Kernel τ ι) :=
  if (k.thread t).stat = .close ∧ t ∉ k.queue .defunct ∧ k.current ≠ some t then
    some (k.updateThread t fun _ =>
      { stat := .init, error := .eok, currentPriority := priority, initPriority := priority
        number := 0, numberMask := 0#32, highMask := 0#8, timerActive := false
        systemObject, cleanup, lock })
  else none

def rtThreadSuspend (k : Kernel τ ι) (t : τ) : Option (Kernel τ ι) :=
  match (k.thread t).stat with
  | .ready => some (suspended k t)
  | .running => if k.current = some t then some (suspended k t) else none
  | _ => some k
where
  /-- The branch that suspends. -/
  suspended (k : Kernel τ ι) (t : τ) : Kernel τ ι :=
    (rtScheduleRemoveThread k t).updateThread t fun th =>
      { th with stat := .suspend, timerActive := false }

def rtThreadResume (k : Kernel τ ι) (t : τ) : Kernel τ ι :=
  if (k.thread t).stat = .suspend then
    rtScheduleInsertThread
      ((rtListRemove k t).updateThread t fun th => { th with timerActive := false }) t
  else k

def rtThreadStartup (k : Kernel τ ι) (t : τ) : Option (Kernel τ ι) :=
  if (k.thread t).stat = .init then
    let k := k.updateThread t fun th => { th.withPriority th.initPriority with stat := .suspend }
    let k := rtThreadResume k t
    if k.current = none then some k else rtSchedule k
  else none

/-- `rt_thread_yield`. The node has different neighbours when another thread is on its list. -/
def rtThreadYield (k : Kernel τ ι) : Option (Kernel τ ι) := do
  let t ← k.current
  let q := Queue.ready (k.thread t).currentPriority
  if (k.thread t).stat = .ready ∧ 2 ≤ (k.queue q).length then
    rtSchedule (rtListInsertBefore (rtListRemove k t) q t)
  else pure k

def startTimer (k : Kernel τ ι) (t : τ) : Kernel τ ι :=
  k.updateThread t fun th => { th with timerActive := true }

def rtThreadSleep (k : Kernel τ ι) : Option (Kernel τ ι) := do
  let t ← k.current
  let k ← rtThreadSuspend k t
  rtSchedule (startTimer k t)

def rtThreadTimeout (k : Kernel τ ι) (t : τ) : Option (Kernel τ ι) :=
  if (k.thread t).timerActive = true ∧ (k.thread t).stat = .suspend then
    let k := k.updateThread t fun th => { th with timerActive := false, error := .etimeout }
    rtSchedule (rtScheduleInsertThread (rtListRemove k t) t)
  else none

def rtThreadChangePriority (k : Kernel τ ι) (t : τ) (p : Fin 256) : Kernel τ ι :=
  if (k.thread t).stat = .ready then
    rtScheduleInsertThread
      ((rtScheduleRemoveThread k t).updateThread t fun th => th.withPriority p) t
  else k.updateThread t fun th => th.withPriority p

/-! ## Suspend lists of IPC objects -/

/-- The position that `rt_ipc_list_suspend` finds in a list of flag `RT_IPC_FLAG_PRIO`: before the
first thread with a larger priority value. -/
def insertByPriority (prio : τ → Fin 256) (t : τ) : List τ → List τ
  | [] => [t]
  | u :: us => if prio t < prio u then t :: u :: us else u :: insertByPriority prio t us

def rtIpcListSuspend (k : Kernel τ ι) (o : ι) (t : τ) (flag : IpcFlag) : Option (Kernel τ ι) := do
  let k ← rtThreadSuspend k t
  match flag with
  | .fifo => pure (rtListInsertBefore k (.wait o) t)
  | .prio =>
    pure (k.withQueue (.wait o)
      (insertByPriority (fun u => (k.thread u).currentPriority) t (k.queue (.wait o))))

def rtIpcListResume (k : Kernel τ ι) (o : ι) : Kernel τ ι :=
  match k.queue (.wait o) with
  | [] => k
  | t :: _ => rtThreadResume k t

/-- The loop of `rt_ipc_list_resume_all`, for as many rounds as there are threads on the list. -/
def resumeAllLoop (o : ι) : Nat → Kernel τ ι → Kernel τ ι
  | 0, k => k
  | n + 1, k =>
    match k.queue (.wait o) with
    | [] => k
    | t :: _ =>
      resumeAllLoop o n
        (rtThreadResume (k.updateThread t fun th => { th with error := .error }) t)

def rtIpcListResumeAll (k : Kernel τ ι) (o : ι) : Kernel τ ι :=
  resumeAllLoop o (k.queue (.wait o)).length k

/-! ## The end of a thread -/

/-- Take the semaphore of `RT_USING_THREAD_LOCK` from a thread and delete it. -/
def deleteLock (k : Kernel τ ι) (t : τ) : Kernel τ ι :=
  match (k.thread t).lock with
  | none => k
  | some o => rtIpcListResumeAll (k.updateThread t fun th => { th with lock := none }) o

/-- Set the state `RT_THREAD_CLOSE` and put the thread on the list of defunct threads, unless its
object is detached at once. -/
def closeThread (k : Kernel τ ι) (t : τ) (defunct : Bool) : Kernel τ ι :=
  let k := k.updateThread t fun th => { th with stat := .close, timerActive := false }
  if defunct then k.withQueue .defunct (t :: k.queue .defunct) else k

/-- The common part of `rt_thread_detach` and `rt_thread_delete`. -/
def retireThread (k : Kernel τ ι) (t : τ) (defunct : Bool) : Kernel τ ι :=
  if (k.thread t).stat = .close then k
  else
    let k := if (k.thread t).stat = .init then k else rtScheduleRemoveThread k t
    let k := k.updateThread t fun th => { th with timerActive := false }
    closeThread (deleteLock k t) t defunct

def rtThreadDetach (k : Kernel τ ι) (t : τ) : Option (Kernel τ ι) :=
  if (k.thread t).systemObject then some (retireThread k t (k.thread t).cleanup) else none

def rtThreadDelete (k : Kernel τ ι) (t : τ) : Option (Kernel τ ι) :=
  if (k.thread t).systemObject then none else some (retireThread k t true)

def rtThreadExit (k : Kernel τ ι) : Option (Kernel τ ι) := do
  let t ← k.current
  let k := rtScheduleRemoveThread (deleteLock k t) t
  rtSchedule (closeThread k t (¬ ((k.thread t).systemObject ∧ ¬ (k.thread t).cleanup)))

def rtThreadDefunctDequeue (k : Kernel τ ι) : Kernel τ ι :=
  match k.queue .defunct with
  | [] => k
  | t :: _ => rtListRemove k t

end FullhanRtos.Sched
