import Mathlib.Data.Fintype.Sum
import FullhanRtos.Ipc.Mutex

/-!
# The order of suspend lists

A list with `RT_IPC_FLAG_PRIO` is sorted when a thread joins it: by priority, and threads of one
priority by arrival. A thread whose priority changes while it waits keeps its place. `Timed` adds to
a state the time at which each thread began to wait, which the code does not store, and
`wait_ordered_iff` says exactly which changes of a priority keep all lists sorted.
-/

namespace FullhanRtos.Ipc

open Sched Transition Function List Option

set_option linter.unusedSectionVars false

/-! ## Sorted lists -/

section

variable {τ : Type} [DecidableEq τ] {prio prio' : τ → Fin 256} {arrival arrival' : τ → Nat}
  {t u : τ} {l : List τ} {p : Fin 256}

/-- `a` is to be woken before `b`. -/
def Ahead (prio : τ → Fin 256) (arrival : τ → Nat) (a b : τ) : Prop :=
  prio a < prio b ∨ prio a = prio b ∧ arrival a < arrival b

/-- The threads of a list before and behind a thread. -/
def threadsBefore (u : τ) (l : List τ) : List τ := l.takeWhile (· ≠ u)

@[inherit_doc threadsBefore]
def threadsBehind (u : τ) (l : List τ) : List τ := (l.dropWhile (· ≠ u)).tail

def KeepsPlace (prio : τ → Fin 256) (arrival : τ → Nat) (l : List τ) (u : τ) (p : Fin 256) :
    Prop :=
  (∀ a ∈ threadsBefore u l, prio a < p ∨ prio a = p ∧ arrival a < arrival u) ∧
    ∀ b ∈ threadsBehind u l, p < prio b ∨ p = prio b ∧ arrival u < arrival b

theorem threads_around (hu : u ∈ l) : l = threadsBefore u l ++ u :: threadsBehind u l := by
  induction l with
  | nil => cases hu
  | cons v vs ih =>
    by_cases hv : v = u
    · simp [threadsBefore, threadsBehind, hv]
    · have hmem : u ∈ vs := (mem_cons.mp hu).resolve_left (Ne.symm hv)
      simpa [threadsBefore, threadsBehind, hv] using ih hmem

theorem ordered_congr (hprio : ∀ u ∈ l, prio' u = prio u)
    (harrival : ∀ u ∈ l, arrival' u = arrival u) :
    l.Pairwise (Ahead prio' arrival') ↔ l.Pairwise (Ahead prio arrival) := by
  refine List.Pairwise.iff_of_mem fun {a b} ha hb => ?_
  simp only [Ahead, hprio a ha, hprio b hb, harrival a ha, harrival b hb]

/-- A thread that joins a sorted list after all others takes its place in it. -/
theorem ordered_insert (h : l.Pairwise (Ahead prio arrival))
    (hlast : ∀ u ∈ l, arrival u < arrival t) :
    (insertByPriority prio t l).Pairwise (Ahead prio arrival) := by
  induction l with
  | nil => exact pairwise_singleton _ t
  | cons u us ih =>
    obtain ⟨hu, hus⟩ := pairwise_cons.mp h
    rw [insertByPriority]
    split
    · rename_i hlt
      refine pairwise_cons.mpr ⟨fun v hv => .inl ?_, h⟩
      rcases mem_cons.mp hv with rfl | hv
      · exact hlt
      · rcases hu v hv with hlt' | ⟨heq, -⟩
        · exact hlt.trans hlt'
        · exact heq ▸ hlt
    · rename_i hle
      refine pairwise_cons.mpr ⟨fun v hv => ?_, ih hus fun v hv => ?_⟩
      · rcases mem_cons.mp ((insert_by_priority_perm _ _ _).mem_iff.mp hv) with rfl | hv
        · rcases (not_lt.mp hle).lt_or_eq with hlt | heq
          · exact .inl hlt
          · exact .inr ⟨heq, hlast u mem_cons_self⟩
        · exact hu v hv
      · exact hlast v (mem_cons_of_mem u hv)

theorem sublist_insert (prio : τ → Fin 256) (t : τ) (l : List τ) :
    l.Sublist (insertByPriority prio t l) := by
  induction l with
  | nil => exact nil_sublist _
  | cons u us ih =>
    rw [insertByPriority]
    split
    · exact sublist_cons_self t _
    · exact ih.cons_cons u

/-- A thread that waits gets the priority `p`: the list stays sorted exactly if it may keep its
place. -/
theorem ordered_change_iff (hnodup : l.Nodup) (h : l.Pairwise (Ahead prio arrival)) (hu : u ∈ l)
    (hp : prio' u = p) (hother : ∀ v, v ≠ u → prio' v = prio v) :
    l.Pairwise (Ahead prio' arrival) ↔ KeepsPlace prio arrival l u p := by
  have hsplit := threads_around hu
  unfold KeepsPlace
  generalize threadsBefore u l = before, threadsBehind u l = behind at hsplit ⊢
  subst hsplit
  obtain ⟨hbefore, htail, hcross⟩ := pairwise_append.mp h
  obtain ⟨-, hbehind⟩ := pairwise_cons.mp htail
  have hne : ∀ v, v ∈ before ∨ v ∈ behind → prio' v = prio v := by
    intro v hv
    refine hother v fun heq => ?_
    subst heq
    simp only [nodup_append, nodup_cons, mem_cons] at hnodup
    rcases hv with hv | hv
    · exact hnodup.2.2 v hv v (.inl rfl) rfl
    · exact hnodup.2.1.1 hv
  rw [pairwise_append, pairwise_cons, ordered_congr (fun v hv => hne v (.inl hv)) fun _ _ => rfl,
    ordered_congr (fun v hv => hne v (.inr hv)) fun _ _ => rfl]
  constructor
  · rintro ⟨-, ⟨hafter, -⟩, hcross'⟩
    refine ⟨fun a ha => ?_, fun b hb => ?_⟩
    · have hahead := hcross' a ha u mem_cons_self
      rwa [Ahead, hp, hne a (.inl ha)] at hahead
    · have hahead := hafter b hb
      rwa [Ahead, hp, hne b (.inr hb)] at hahead
  · rintro ⟨hahead, hafter⟩
    refine ⟨hbefore, ⟨fun b hb => ?_, hbehind⟩, fun a ha b hb => ?_⟩
    · rw [Ahead, hp, hne b (.inr hb)]
      exact hafter b hb
    · rcases mem_cons.mp hb with rfl | hb
      · rw [Ahead, hp, hne a (.inl ha)]
        exact hahead a ha
      · rw [Ahead, hne a (.inl ha), hne b (.inr hb)]
        exact hcross a ha b (mem_cons_of_mem u hb)

end

/-! ## Runs with arrival times -/

variable {τ μ ι : Type} [DecidableEq τ] [DecidableEq μ] [DecidableEq ι]

/-- A state with the number of the call at which each thread began to wait last. -/
structure Timed (τ μ ι : Type) where
  sys : Sys τ μ ι
  clock : Nat
  arrival : τ → Nat

/-- The object that a call may wait for. -/
def Op.object : Op τ μ ι → Option (Obj μ ι)
  | .kernel (.block o _ _) => some o
  | .take m _ => some (.mutex m)
  | _ => none

/-- The arrival times after a call: the running thread has joined the list of the object or not. -/
def arrivals (x : Timed τ μ ι) (s' : Sys τ μ ι) (op : Op τ μ ι) : τ → Nat :=
  match op.object, x.sys.kernel.current with
  | some o, some t =>
    if t ∈ s'.kernel.queue (.wait o) then update x.arrival t x.clock else x.arrival
  | _, _ => x.arrival

/-- One call. -/
def timedStep (x : Timed τ μ ι) (op : Op τ μ ι) : Option (Timed τ μ ι) :=
  (step x.sys op).map fun s' => { sys := s', clock := x.clock + 1, arrival := arrivals x s' op }

/-- The state before the first thread is created. -/
def timedStart : Timed τ μ ι where
  sys := start
  clock := 1
  arrival := fun _ => 0

/-- The object sorts its waiters by priority. Mutexes do, of the others those with that flag. -/
def ByPriority (flag : ι → IpcFlag) : Obj μ ι → Prop
  | .mutex _ => True
  | .other o => flag o = .prio

/-- The call handles mutexes as mutexes, and waits for an object with the flag of that object. -/
def Op.Suits (flag : ι → IpcFlag) (op : Op τ μ ι) : Prop :=
  op.Proper ∧ match op with
    | .kernel (.block (.other o) f _) => f = flag o
    | _ => True

/-- The priorities of the threads. -/
def Timed.prio (x : Timed τ μ ι) (t : τ) : Fin 256 := (x.sys.kernel.thread t).currentPriority

/-- Every list of an object with `RT_IPC_FLAG_PRIO` is sorted, so its first thread, which
`rt_ipc_list_resume` wakes, has the smallest priority value. -/
structure WaitOrdered (flag : ι → IpcFlag) (x : Timed τ μ ι) : Prop where
  order : ∀ o, ByPriority flag o →
    (x.sys.kernel.queue (.wait o)).Pairwise (Ahead x.prio x.arrival)
  first : ∀ o, ByPriority flag o → ∀ t, (x.sys.kernel.queue (.wait o)).head? = some t →
    ∀ u ∈ x.sys.kernel.queue (.wait o), x.prio t ≤ x.prio u

/-- With the priority `p` the thread `u` may keep its place where it waits. -/
def PlaceKept (flag : ι → IpcFlag) (x : Timed τ μ ι) (u : τ) (p : Fin 256) : Prop :=
  ∀ o, ByPriority flag o → u ∈ x.sys.kernel.queue (.wait o) →
    KeepsPlace x.prio x.arrival (x.sys.kernel.queue (.wait o)) u p

def LoanKeepsPlace (flag : ι → IpcFlag) (x : Timed τ μ ι) (m : μ) (t o : τ) : Prop :=
  x.sys.caller = some t → (x.sys.mutex m).owner = some o → o ≠ t → x.prio t < x.prio o →
    PlaceKept flag x o (x.prio t)

/-- A thread whose priority is changed, by a call or by a loan, may keep its place. -/
def ChangesKeepPlace (flag : ι → IpcFlag) (x : Timed τ μ ι) : Op τ μ ι → Prop
  | .kernel (.changePriority u p) => PlaceKept flag x u p
  | .take m time => time ≠ .no → ∀ t o, LoanKeepsPlace flag x m t o
  | _ => True

/-- The invariant of all runs: nobody arrives in the future. -/
structure TimedInv (x : Timed τ μ ι) : Prop where
  mutex : MutexInv x.sys
  past : ∀ t, x.arrival t < x.clock

section

variable {flag : ι → IpcFlag} {x : Timed τ μ ι} {s' : Sys τ μ ι} {t : τ} {m : μ}
  {time : WaitTime} {r : Outcome} {op : Op τ μ ι} {k : Kernel τ (Obj μ ι)} {o : Obj μ ι}

/-- A sorted list begins with its smallest priority. -/
theorem wait_ordered_of_order (h : ∀ o, ByPriority flag o →
    (x.sys.kernel.queue (.wait o)).Pairwise (Ahead x.prio x.arrival)) : WaitOrdered flag x := by
  refine ⟨h, fun o ho t ht u hu => ?_⟩
  have hsorted := h o ho
  cases hlist : x.sys.kernel.queue (.wait o) with
  | nil =>
    rw [hlist] at hu
    cases hu
  | cons v vs =>
    rw [hlist] at ht hu hsorted
    cases ht
    rcases mem_cons.mp hu with rfl | hu
    · exact le_rfl
    · rcases (pairwise_cons.mp hsorted).1 u hu with hlt | ⟨heq, -⟩
      · exact hlt.le
      · exact heq.le

theorem arrivals_of_not_waits (hobject : op.object = some o)
    (hcurrent : x.sys.kernel.current = some t) (hnot : t ∉ s'.kernel.queue (.wait o)) :
    arrivals x s' op = x.arrival := by
  simp only [arrivals, hobject, hcurrent, if_neg hnot]

theorem arrivals_of_waits (hobject : op.object = some o) (hcurrent : x.sys.kernel.current = some t)
    (hwaits : t ∈ s'.kernel.queue (.wait o)) :
    arrivals x s' op = update x.arrival t x.clock := by
  simp only [arrivals, hobject, hcurrent, if_pos hwaits]

theorem arrivals_past (h : TimedInv x) (u : τ) :
    arrivals x s' op u < x.clock + 1 := by
  have hpast := Nat.lt_succ_of_lt (h.past u)
  cases hobject : op.object with
  | none => simpa only [arrivals, hobject] using hpast
  | some o =>
    cases hcurrent : x.sys.kernel.current with
    | none => simpa only [arrivals, hobject, hcurrent] using hpast
    | some t =>
      by_cases hwaits : t ∈ s'.kernel.queue (.wait o)
      · rw [arrivals_of_waits hobject hcurrent hwaits]
        by_cases hu : u = t
        · rw [hu, update_self]
          exact Nat.lt_succ_self _
        · rw [update_of_ne hu]
          exact hpast
      · rw [arrivals_of_not_waits hobject hcurrent hwaits]
        exact hpast

theorem timed_step_inv {x' : Timed τ μ ι} (hop : op.Suits flag) (h : TimedInv x)
    (hrun : timedStep x op = some x') : TimedInv x' := by
  obtain ⟨s', hs', rfl⟩ := map_eq_some_iff.mp hrun
  exact ⟨mutex_step_inv hop.1 h.mutex hs', fun u => arrivals_past h u⟩

/-- Lists that lose threads stay sorted when the priorities of the waiters do not change. -/
theorem ordered_of_sublist (hgood : WaitOrdered flag x) {arrival : τ → Nat} {clock : Nat}
    (harrival : arrival = x.arrival)
    (hwait : ∀ o, (s'.kernel.queue (.wait o)).Sublist (x.sys.kernel.queue (.wait o)))
    (hprio : ∀ o, ∀ u ∈ x.sys.kernel.queue (.wait o),
      (s'.kernel.thread u).currentPriority = x.prio u) :
    WaitOrdered flag { sys := s', clock, arrival } := by
  refine wait_ordered_of_order fun o ho => ?_
  refine (ordered_congr (fun u hu => hprio o u ((hwait o).subset hu))
    fun u _ => congrFun harrival u).mpr ?_
  exact (hgood.order o ho).sublist (hwait o)

/-- The running thread `t` joins the list of `o`: the lists are sorted by the priorities of `k`
exactly if they were before. -/
theorem ordered_join_iff {clock : Nat} {arrival : τ → Nat}
    (harrival : arrival = update x.arrival t x.clock) (hpast : ∀ u, x.arrival u < x.clock)
    (hnot : ∀ o', t ∉ x.sys.kernel.queue (.wait o'))
    (hjoin : ByPriority flag o → k.queue (.wait o) =
      insertByPriority (fun u => (k.thread u).currentPriority) t (x.sys.kernel.queue (.wait o)))
    (hother : ∀ o', o' ≠ o → k.queue (.wait o') = x.sys.kernel.queue (.wait o')) :
    WaitOrdered flag { sys := { x.sys with kernel := k }, clock, arrival } ↔
      ∀ o', ByPriority flag o' → (x.sys.kernel.queue (.wait o')).Pairwise
        (Ahead (fun u => (k.thread u).currentPriority) x.arrival) := by
  subst harrival
  have hsame : ∀ o', ∀ u ∈ x.sys.kernel.queue (.wait o'),
      update x.arrival t x.clock u = x.arrival u := fun o' u hu =>
    update_of_ne (fun heq : u = t => hnot o' (heq ▸ hu)) _ _
  constructor
  · intro hordered o' ho'
    have hsorted : (k.queue (.wait o')).Pairwise (Ahead (fun u => (k.thread u).currentPriority)
      (update x.arrival t x.clock)) := hordered.order o' ho'
    refine (ordered_congr (fun _ _ => rfl) (hsame o')).mp ?_
    by_cases hoo : o' = o
    · subst hoo
      rw [hjoin ho'] at hsorted
      exact hsorted.sublist (sublist_insert _ _ _)
    · rwa [hother o' hoo] at hsorted
  · intro hlists
    refine wait_ordered_of_order fun o' ho' => ?_
    have hsorted := (ordered_congr (fun _ _ => rfl) (hsame o')).mpr (hlists o' ho')
    show (k.queue (.wait o')).Pairwise (Ahead (fun u => (k.thread u).currentPriority) _)
    by_cases hoo : o' = o
    · subst hoo
      rw [hjoin ho']
      refine ordered_insert hsorted fun u hu => ?_
      show update x.arrival t x.clock u < update x.arrival t x.clock t
      rw [hsame o' u hu, update_self]
      exact hpast u
    · rw [hother o' hoo]
      exact hsorted

theorem place_kept_iff {u : τ} {p : Fin 256} (h : TimedInv x) (hgood : WaitOrdered flag x)
    (hp : (k.thread u).currentPriority = p)
    (hother : ∀ v, v ≠ u → (k.thread v).currentPriority = x.prio v) :
    (∀ o, ByPriority flag o → (x.sys.kernel.queue (.wait o)).Pairwise
      (Ahead (fun v => (k.thread v).currentPriority) x.arrival)) ↔ PlaceKept flag x u p := by
  refine forall_congr' fun o => forall_congr' fun ho => ?_
  by_cases hu : u ∈ x.sys.kernel.queue (.wait o)
  · rw [ordered_change_iff (h.mutex.kernel.consistent.nodup _) (hgood.order o ho) hu hp hother]
    exact ⟨fun hkeeps _ => hkeeps, fun hkeeps => hkeeps hu⟩
  · refine ⟨fun _ hmem => absurd hmem hu, fun _ => ?_⟩
    refine (ordered_congr (fun v hv => hother v fun heq => hu (heq ▸ hv)) fun _ _ => rfl).mpr ?_
    exact hgood.order o ho

/-- The other calls neither change a priority nor wait. -/
theorem quiet_keeps (flag : ι → IpcFlag) (x : Timed τ μ ι) {op : KernelOp τ (Obj μ ι)}
    (hop : op.IsCalm ∨ op.IsStart) :
    Op.object (.kernel op : Op τ μ ι) = none ∧ ChangesKeepPlace flag x (.kernel op) := by
  cases op with
  | changePriority | block => exact (hop.elim id id).elim
  | _ => exact ⟨rfl, trivial⟩

theorem arrivals_of_quiet (hobject : op.object = none) :
    arrivals x s' op = x.arrival := by
  simp only [arrivals, hobject]

theorem kernel_step_ordered_iff {op : KernelOp τ (Obj μ ι)}
    (hop : Op.Suits flag (.kernel op : Op τ μ ι)) (h : TimedInv x) (hgood : WaitOrdered flag x)
    (hrun : kernelStep x.sys.kernel op = some k) :
    WaitOrdered flag { sys := { x.sys with kernel := k }, clock := x.clock + 1,
                       arrival := arrivals x { x.sys with kernel := k } (.kernel op) } ↔
      ChangesKeepPlace flag x (.kernel op) := by
  cases kernel_step_cases h.mutex.kernel.consistent hrun with
  | calm _ hquiet hcalm =>
    obtain ⟨hobject, hkeep⟩ := quiet_keeps flag x (.inl hquiet)
    refine ⟨fun _ => hkeep, fun _ => ?_⟩
    exact ordered_of_sublist hgood (arrivals_of_quiet hobject) hcalm.wait
      fun o u _ => hcalm.prio u
  | starts _ hquiet u hstarts =>
    obtain ⟨hobject, hkeep⟩ := quiet_keeps flag x (.inr hquiet)
    refine ⟨fun _ => hkeep, fun _ => ?_⟩
    refine ordered_of_sublist hgood (arrivals_of_quiet hobject) (fun o => ?_) fun o v hv => ?_
    · show (k.queue (.wait o)).Sublist _
      rw [hstarts.wait]
    · exact (hstarts.other v fun heq => hstarts.waits o (heq ▸ hv)).1
  | changes u p hchanged =>
    have hlists := place_kept_iff h hgood hchanged.prio hchanged.other
    refine Iff.trans ⟨fun hordered o ho => ?_, fun hsorted => ?_⟩ hlists
    · have hsorted := hordered.order o ho
      rwa [show ({ x.sys with kernel := k } : Sys τ μ ι).kernel.queue (.wait o) =
        x.sys.kernel.queue (.wait o) from hchanged.wait o] at hsorted
    · refine wait_ordered_of_order fun o ho => ?_
      rw [show ({ x.sys with kernel := k } : Sys τ μ ι).kernel.queue (.wait o) =
        x.sys.kernel.queue (.wait o) from hchanged.wait o]
      exact hsorted o ho
  | blocks o f timed u hblocked =>
    have hnot := h.mutex.kernel.consistent.not_waiting hblocked.ready
    have hprio : (fun v => (k.thread v).currentPriority) = x.prio := funext hblocked.prio
    have hwaits : u ∈ k.queue (.wait o) := by
      rw [hblocked.join]
      cases f with
      | fifo => exact mem_append_right _ (mem_singleton_self u)
      | prio => exact (insert_by_priority_perm _ _ _).mem_iff.mpr mem_cons_self
    refine (ordered_join_iff (arrivals_of_waits rfl hblocked.current hwaits) h.past hnot
      (fun ho => ?_) hblocked.wait).trans ⟨fun _ => trivial, fun _ o' ho' => ?_⟩
    · -- An object with the flag is joined by priority.
      cases o with
      | mutex m => exact absurd rfl (hop.1 m)
      | other o =>
        have hflag : f = .prio := hop.2.trans ho
        rw [hblocked.join, hflag, hprio]
        rfl
    · rw [hprio]
      exact hgood.order o' ho'

theorem take_ordered_iff (h : TimedInv x) (hgood : WaitOrdered flag x)
    (hcaller : x.sys.caller = some t) (hrun : rtMutexTake x.sys t m time = some (r, s')) :
    WaitOrdered flag { sys := s', clock := x.clock + 1, arrival := arrivals x s' (.take m time) } ↔
      ChangesKeepPlace flag x (.take m time) := by
  obtain ⟨hcurrent, hready⟩ := caller_eq_some.mp hcaller
  have hnot := h.mutex.kernel.consistent.not_waiting hready
  have hstays : ∀ s1 : Sys τ μ ι, s1.kernel.queue = x.sys.kernel.queue →
      arrivals x s1 (.take m time) = x.arrival := fun s1 hqueue =>
    arrivals_of_not_waits rfl hcurrent (by rw [hqueue]; exact hnot _)
  cases take_cases hrun with
  | again howner =>
    refine ⟨fun _ _ t' o ht' ho hne => ?_, fun _ => ?_⟩
    · obtain rfl : t = t' := some.inj (hcaller.symm.trans ht')
      exact absurd (some.inj (ho.symm.trans howner)) hne
    · refine ordered_of_sublist hgood (hstays _ rfl) (fun o => Sublist.refl _) fun o u _ => ?_
      rw [with_mutex_kernel, with_error_thread]
      rfl
  | acquires howner hvalue =>
    refine ⟨fun _ _ t' o ht' ho => ?_, fun _ => ?_⟩
    · rw [(h.mutex.mutex m).owner_of_pos hvalue] at ho
      cases ho
    · refine ordered_of_sublist hgood (hstays _ rfl) (fun o => Sublist.refl _) fun o u _ => ?_
      rw [with_mutex_kernel, with_error_thread]
      rfl
  | refused e howner hvalue hno =>
    refine ⟨fun _ htime t' o ht' ho => ?_, fun _ => ?_⟩
    · rcases hno with hno | hno
      · exact absurd hno htime
      · rw [hno] at ho
        cases ho
    · refine ordered_of_sublist hgood (hstays _ rfl) (fun o => Sublist.refl _) fun o u _ => ?_
      rw [with_error_thread]
      rfl
  | blocks o k howner hne hvalue htime hblock =>
    have hlends := take_lends h.mutex.kernel hne hcurrent hblock
    have hwaits : t ∈ k.queue (.wait (.mutex m)) := by
      rw [hlends.join]
      exact (insert_by_priority_perm _ _ _).mem_iff.mpr mem_cons_self
    refine (ordered_join_iff (arrivals_of_waits rfl hcurrent hwaits) h.past hnot
      (fun _ => hlends.join) hlends.wait).trans ?_
    have hcond : ChangesKeepPlace flag x (.take m time) ↔
        (x.prio t < x.prio o → PlaceKept flag x o (x.prio t)) := by
      refine ⟨fun hkeep => hkeep htime t o hcaller howner hne, fun hkeep _ t' o' ht' ho' _ => ?_⟩
      obtain rfl : t = t' := some.inj (hcaller.symm.trans ht')
      obtain rfl : o = o' := some.inj (howner.symm.trans ho')
      exact hkeep
    rw [hcond]
    by_cases hlt : x.prio t < x.prio o
    · have hother : ∀ v, v ≠ o → (k.thread v).currentPriority = x.prio v := fun v hv => by
        rw [hlends.prio, if_neg fun hand => hv hand.1]
        rfl
      rw [place_kept_iff h hgood (p := x.prio t) ?_ hother]
      · exact ⟨fun hkeep _ => hkeep, fun hkeep => hkeep hlt⟩
      · rw [hlends.prio, if_pos ⟨rfl, hlt⟩]
        rfl
    · have hprio : (fun v => (k.thread v).currentPriority) = x.prio := funext fun v => by
        rw [hlends.prio, if_neg fun hand => hlt hand.2]
        rfl
      refine ⟨fun _ hlt' => absurd hlt' hlt, fun _ o' ho' => ?_⟩
      rw [hprio]
      exact hgood.order o' ho'

theorem release_ordered (h : TimedInv x) (hgood : WaitOrdered flag x)
    (hcaller : x.sys.caller = some t) (hrun : rtMutexRelease x.sys t m = some (r, s')) :
    WaitOrdered flag
      { sys := s', clock := x.clock + 1, arrival := arrivals x s' (.release m) } := by
  obtain ⟨hcurrent, hready⟩ := caller_eq_some.mp hcaller
  have hnot := h.mutex.kernel.consistent.not_waiting hready
  cases release_cases h.mutex.kernel hrun with
  | refused howner =>
    refine ordered_of_sublist hgood rfl (fun o => Sublist.refl _) fun o u _ => ?_
    rw [with_error_thread]
    rfl
  | keeps howner hhold =>
    exact ordered_of_sublist hgood rfl (fun o => Sublist.refl _) fun o u _ => rfl
  | passes w rest k howner hhold hlist hpass =>
    have hpassed := schedule_passed h.mutex.kernel hready hlist hpass
    refine ordered_of_sublist hgood rfl (fun o => ?_) fun o u hu => ?_
    · rw [with_mutex_kernel, hpassed.wait]
      exact erase_sublist
    · rw [with_mutex_kernel, hpassed.prio, if_neg fun heq : u = t => hnot o (heq ▸ hu)]
      rfl
  | frees howner hhold hlist =>
    have hrestored := restore_priority_changed h.mutex.kernel.consistent t
      (x.sys.mutex m).originalPriority
    refine ordered_of_sublist hgood rfl (fun o => ?_) fun o u hu => ?_
    · rw [with_mutex_kernel, hrestored.wait]
    · exact hrestored.other u fun heq => hnot o (heq ▸ hu)

theorem step_ordered_iff {x' : Timed τ μ ι} (hop : op.Suits flag) (h : TimedInv x)
    (hgood : WaitOrdered flag x) (hrun : timedStep x op = some x') :
    TimedInv x' ∧ (WaitOrdered flag x' ↔ ChangesKeepPlace flag x op) := by
  refine ⟨timed_step_inv hop h hrun, ?_⟩
  obtain ⟨s', hs', rfl⟩ := map_eq_some_iff.mp hrun
  cases op with
  | kernel op =>
    obtain ⟨k, hk, rfl⟩ := map_eq_some_iff.mp hs'
    exact kernel_step_ordered_iff hop h hgood hk
  | take m time =>
    obtain ⟨t, hcaller, hs'⟩ := bind_eq_some_iff.mp hs'
    obtain ⟨⟨r, s1⟩, htake, rfl⟩ := map_eq_some_iff.mp hs'
    exact take_ordered_iff h hgood hcaller htake
  | release m =>
    obtain ⟨t, hcaller, hs'⟩ := bind_eq_some_iff.mp hs'
    obtain ⟨⟨r, s1⟩, hrelease, rfl⟩ := map_eq_some_iff.mp hs'
    exact ⟨fun _ => trivial, fun _ => release_ordered h hgood hcaller hrelease⟩

end

/-- In every run, all lists with `RT_IPC_FLAG_PRIO` are always sorted exactly if every thread whose
priority changes while it waits may keep its place. -/
theorem wait_ordered_iff {flag : ι → IpcFlag} {ops : List (Op τ μ ι)} {x : Timed τ μ ι}
    (hops : ∀ op ∈ ops, op.Suits flag) (hrun : exec timedStep timedStart ops = some x) :
    Always timedStep (WaitOrdered flag) timedStart ops ↔
      AllSteps timedStep (ChangesKeepPlace flag) timedStart ops := by
  refine always_iff (fun _ _ _ hop h hgood hstep => step_ordered_iff hop h hgood hstep) hops
    ⟨mutex_inv_start, fun _ => Nat.zero_lt_one⟩ ?_ hrun
  exact wait_ordered_of_order fun o _ => List.Pairwise.nil

/-! ## A run that keeps the order, and one that does not -/

instance [Fintype μ] [Fintype ι] : Fintype (Obj μ ι) :=
  Fintype.ofEquiv (μ ⊕ ι)
    { toFun := Sum.elim .mutex .other
      invFun := fun
        | .mutex m => .inl m
        | .other o => .inr o
      left_inv := by rintro (m | o) <;> rfl
      right_inv := by rintro (m | o) <;> rfl }

instance (flag : ι → IpcFlag) (o : Obj μ ι) : Decidable (ByPriority flag o) :=
  match o with
  | .mutex _ => .isTrue trivial
  | .other o => inferInstanceAs (Decidable (flag o = .prio))

instance [Fintype μ] [Fintype ι] (flag : ι → IpcFlag) (x : Timed τ μ ι) (u : τ) (p : Fin 256) :
    Decidable (PlaceKept flag x u p) := by
  unfold PlaceKept KeepsPlace
  infer_instance

instance [Fintype μ] [Fintype ι] (flag : ι → IpcFlag) (x : Timed τ μ ι) (m : μ) (t o : τ) :
    Decidable (LoanKeepsPlace flag x m t o) := by
  unfold LoanKeepsPlace
  infer_instance

instance [Fintype τ] [Fintype μ] [Fintype ι] (flag : ι → IpcFlag) (x : Timed τ μ ι)
    (op : Op τ μ ι) : Decidable (ChangesKeepPlace flag x op) :=
  match op with
  | .kernel op => match op with
      | .changePriority u p => inferInstanceAs (Decidable (PlaceKept flag x u p))
      | .init .. | .startup _ | .schedule | .suspend _ | .resume _ | .sleep | .timeout _ | .yield
      | .detach _ | .delete _ | .exit | .reap | .block .. | .wake _ | .wakeAll _ => .isTrue trivial
  | .take m time => inferInstanceAs (Decidable (time ≠ .no → ∀ t o, LoanKeepsPlace flag x m t o))
  | .release _ => .isTrue trivial

/-- Threads 1 and 2, of priorities 10 and 20, wait for a semaphore with `RT_IPC_FLAG_PRIO`. Then
thread 2 gets the priority `p`. -/
def changeOps (p : Fin 256) : List (Op (Fin 3) Unit Unit) :=
  [.kernel (.init 0 255 none true false), .kernel (.init 1 10 none true false),
   .kernel (.init 2 20 none true false), .kernel (.startup 0), .kernel .schedule,
   .kernel (.startup 1), .kernel (.block (.other ()) .prio false), .kernel (.startup 2),
   .kernel (.block (.other ()) .prio true), .kernel (.changePriority 2 p)]

theorem change_ops_suit (p : Fin 256) : ∀ op ∈ changeOps p, op.Suits fun _ => .prio := by
  simp [changeOps, Op.Suits, Op.Proper, ForeignTo]

/-- The priority 15 keeps thread 2 behind thread 1. -/
theorem change_ops_ordered : ∃ x, exec timedStep timedStart (changeOps 15) = some x ∧
    Always timedStep (WaitOrdered fun _ => .prio) timedStart (changeOps 15) := by
  have hrun : (exec timedStep timedStart (changeOps 15)).isSome = true := by decide +kernel
  obtain ⟨x, hx⟩ := isSome_iff_exists.mp hrun
  exact ⟨x, hx, (wait_ordered_iff (change_ops_suit 15) hx).mpr (by decide +kernel)⟩

/-- With the priority 5 thread 2 stays behind thread 1 all the same, and thread 1 is woken first. -/
theorem change_ops_not_ordered :
    (∀ op ∈ changeOps 5, op.Suits fun _ => .prio) ∧
      ∃ x, exec timedStep timedStart (changeOps 5) = some x ∧ ¬ WaitOrdered (fun _ => .prio) x := by
  refine ⟨change_ops_suit 5, ?_⟩
  have hend : (exec timedStep timedStart (changeOps 5)).any (fun x =>
      decide (x.sys.kernel.queue (.wait (.other ())) = [1, 2] ∧ ¬ x.prio 1 ≤ x.prio 2)) = true := by
    decide +kernel
  obtain ⟨x, hx, hlost⟩ := (Option.any_eq_true _ _).mp hend
  obtain ⟨hlist, hgt⟩ := of_decide_eq_true hlost
  refine ⟨x, hx, fun hordered => hgt (hordered.first (.other ()) rfl 1 ?_ 2 ?_)⟩
  · rw [hlist]
    rfl
  · rw [hlist]
    exact mem_cons_of_mem 1 (mem_singleton_self 2)

end FullhanRtos.Ipc
