import FullhanRtos.Lib.Bits
import FullhanRtos.Sched.Kernel
import Mathlib.Data.List.Nodup

/-!
# The ready queue is consistent

`Consistent k held` ties the lists, the two levels of bits and the thread records of a kernel
together. The threads of `held` are in the hands of the operation that is running: they are on no
list, and their states may say otherwise. Between operations no thread is held.

`hold_ready` and `hold_waiting` take a thread off its list, `update_record` changes its record, and
`insert_ready`, `link` and `release` put it back. The functions of the scheduler are sequences of
these steps.
-/

namespace FullhanRtos.Sched

open Function List Nat Kernel
open BitVec hiding or_comm not_or shiftLeft_eq

set_option linter.unusedSectionVars false

variable {τ ι : Type} [DecidableEq τ] [DecidableEq ι] {p : Fin 256}

/-! ## Rows and bits of the ready table -/

section

theorem prio_number_val (p : Fin 256) : (prioNumber p).val = p.val / 8 := by
  show p.val >>> 3 = _
  rw [shiftRight_eq_div_pow]

theorem prio_bit_eq (p : Fin 256) : prioBit p = p.val % 8 :=
  and_two_pow_sub_one_eq_mod p.val 3

theorem prio_bit_lt (p : Fin 256) : prioBit p < 8 := by
  rw [prio_bit_eq]
  exact mod_lt _ (by omega)

theorem prio_ext {p q : Fin 256} (hnumber : prioNumber p = prioNumber q)
    (hbit : prioBit p = prioBit q) : p = q := by
  have hval := congrArg Fin.val hnumber
  rw [prio_number_val, prio_number_val] at hval
  rw [prio_bit_eq, prio_bit_eq] at hbit
  exact Fin.ext (by omega)

theorem exists_prio (n : Fin 32) {b : Nat} (hb : b < 8) :
    ∃ p : Fin 256, prioNumber p = n ∧ prioBit p = b ∧ p.val = 8 * n.val + b := by
  refine ⟨⟨8 * n.val + b, by omega⟩, Fin.ext ?_, ?_, rfl⟩
  · rw [prio_number_val]
    simp only
    omega
  · rw [prio_bit_eq]
    simp only
    omega

end

/-! ## The invariant -/

def readyBit (k : Kernel τ ι) (p : Fin 256) : Bool :=
  (k.readyTable (prioNumber p)).getLsbD (prioBit p)

structure HasMasks (th : Thread ι) : Prop where
  number : th.number = prioNumber th.currentPriority
  numberMask : th.numberMask = 1#32 <<< (prioNumber th.currentPriority).val
  highMask : th.highMask = 1#8 <<< prioBit th.currentPriority

/-- A thread is on the list that its state says. -/
def Located (k : Kernel τ ι) (t : τ) : Prop :=
  match (k.thread t).stat with
  | .init => ∀ q, t ∉ k.queue q
  | .ready | .running => ∀ q, t ∈ k.queue q ↔ q = .ready (k.thread t).currentPriority
  | .suspend => ∀ q, t ∈ k.queue q → ∃ o, q = .wait o
  | .close => ∀ q, t ∈ k.queue q → q = .defunct

/-- The lists, bits and thread records agree, while the threads of `held` are on no list. The state
`RT_THREAD_RUNNING` is not used on one processor. -/
structure Consistent (k : Kernel τ ι) (held : List τ) : Prop where
  bits : ∀ p, readyBit k p = true ↔ k.queue (.ready p) ≠ []
  group : ∀ n : Fin 32, k.group.getLsbD n = true ↔ k.readyTable n ≠ 0#8
  nodup : ∀ q, (k.queue q).Nodup
  unique : ∀ t q q', t ∈ k.queue q → t ∈ k.queue q' → q = q'
  located : ∀ t, t ∉ held → Located k t
  unlinked : ∀ t ∈ held, ∀ q, t ∉ k.queue q
  not_running : ∀ t, (k.thread t).stat ≠ .running
  masks : ∀ t, (k.thread t).stat ≠ .init → (k.thread t).stat ≠ .close → HasMasks (k.thread t)

/-- The running thread has been started and waits for nothing. -/
def CurrentOk (k : Kernel τ ι) : Prop :=
  ∀ t, k.current = some t → HasMasks (k.thread t) ∧ (k.thread t).stat ≠ .init ∧
    ∀ o, t ∉ k.queue (.wait o)

section

variable {k k' : Kernel τ ι} {t u : τ} {held : List τ} {q : Queue ι} {f : Thread ι → Thread ι}
  {th : Thread ι}

@[simp] theorem update_thread_self : (k.updateThread t f).thread t = f (k.thread t) := by
  simp [updateThread]

theorem update_thread_of_ne (h : u ≠ t) : (k.updateThread t f).thread u = k.thread u := by
  simp [updateThread, h]

@[simp] theorem update_thread_queue : (k.updateThread t f).queue = k.queue := rfl

@[simp] theorem update_thread_current : (k.updateThread t f).current = k.current := rfl

@[simp] theorem list_remove_thread : (rtListRemove k t).thread = k.thread := rfl

@[simp] theorem remove_thread_thread : (rtScheduleRemoveThread k t).thread = k.thread := by
  unfold rtScheduleRemoveThread
  dsimp only
  split <;> rfl

@[simp] theorem remove_thread_queue (q : Queue ι) :
    (rtScheduleRemoveThread k t).queue q = (k.queue q).erase t := by
  unfold rtScheduleRemoveThread
  dsimp only
  split <;> rfl

@[simp] theorem remove_thread_current : (rtScheduleRemoveThread k t).current = k.current := by
  unfold rtScheduleRemoveThread
  dsimp only
  split <;> rfl

@[simp] theorem insert_thread_self :
    (rtScheduleInsertThread k t).thread t = { k.thread t with stat := .ready } := by
  simp [rtScheduleInsertThread, rtListInsertBefore, withQueue]

theorem insert_thread_of_ne (h : u ≠ t) : (rtScheduleInsertThread k t).thread u = k.thread u := by
  simp [rtScheduleInsertThread, rtListInsertBefore, withQueue, update_thread_of_ne h]

theorem insert_thread_queue (q : Queue ι) : (rtScheduleInsertThread k t).queue q =
    if q = .ready (k.thread t).currentPriority then k.queue q ++ [t] else k.queue q := by
  simp only [rtScheduleInsertThread, rtListInsertBefore, withQueue, update_thread_self,
    update_thread_queue]
  by_cases hq : q = .ready (k.thread t).currentPriority
  · simp [hq]
  · simp [hq]

@[simp] theorem insert_thread_current : (rtScheduleInsertThread k t).current = k.current := rfl

theorem with_priority_masks (th : Thread ι) (p : Fin 256) : HasMasks (th.withPriority p) :=
  ⟨rfl, rfl, rfl⟩

theorem Located.congr (h : Located k t) (hqueue : ∀ q, t ∈ k'.queue q ↔ t ∈ k.queue q)
    (hstat : (k'.thread t).stat = (k.thread t).stat)
    (hprio : (k'.thread t).currentPriority = (k.thread t).currentPriority) : Located k' t := by
  unfold Located at h ⊢
  rw [hstat, hprio]
  simp only [hqueue]
  exact h

theorem Located.not_ready (h : Located k t) (hready : (k.thread t).stat ≠ .ready)
    (hrunning : (k.thread t).stat ≠ .running) (p : Fin 256) : t ∉ k.queue (.ready p) := by
  intro hmem
  unfold Located at h
  cases hstat : (k.thread t).stat with
  | init =>
    rw [hstat] at h
    exact h _ hmem
  | ready => exact hready hstat
  | running => exact hrunning hstat
  | suspend =>
    rw [hstat] at h
    obtain ⟨o, ho⟩ := h _ hmem
    cases ho
  | close =>
    rw [hstat] at h
    cases h _ hmem

theorem Located.ready_prio (h : Located k t) (hmem : t ∈ k.queue (.ready p)) :
    p = (k.thread t).currentPriority ∧
      ((k.thread t).stat = .ready ∨ (k.thread t).stat = .running) := by
  by_cases hready : (k.thread t).stat = .ready ∨ (k.thread t).stat = .running
  · refine ⟨?_, hready⟩
    unfold Located at h
    rcases hready with hstat | hstat
    · rw [hstat] at h
      exact Queue.ready.inj ((h _).mp hmem)
    · rw [hstat] at h
      exact Queue.ready.inj ((h _).mp hmem)
  · rw [not_or] at hready
    exact absurd hmem (h.not_ready hready.1 hready.2 p)

theorem Located.waiting (h : Located k t) {o : ι} (hmem : t ∈ k.queue (.wait o)) :
    (k.thread t).stat = .suspend := by
  unfold Located at h
  cases hstat : (k.thread t).stat with
  | init =>
    rw [hstat] at h
    exact absurd hmem (h _)
  | ready | running =>
    rw [hstat] at h
    cases (h _).mp hmem
  | suspend => rfl
  | close =>
    rw [hstat] at h
    cases h _ hmem

/-- The record of a thread may change where the lists do not depend on it: for a held thread, they
do not depend on its state and its priority. -/
theorem Consistent.update_record (h : Consistent k held)
    (hkept : t ∉ held → (f (k.thread t)).stat = (k.thread t).stat ∧
      (f (k.thread t)).currentPriority = (k.thread t).currentPriority)
    (hrunning : (f (k.thread t)).stat ≠ .running)
    (hmasks : (f (k.thread t)).stat ≠ .init → (f (k.thread t)).stat ≠ .close →
      HasMasks (f (k.thread t))) : Consistent (k.updateThread t f) held := by
  refine ⟨h.bits, h.group, h.nodup, h.unique, fun u hu => ?_, h.unlinked, fun u => ?_,
    fun u hinit hclose => ?_⟩
  · by_cases hut : u = t
    · subst hut
      exact (h.located u hu).congr (fun q => Iff.rfl) (by rw [update_thread_self, (hkept hu).1])
        (by rw [update_thread_self, (hkept hu).2])
    · exact (h.located u hu).congr (fun q => Iff.rfl) (by rw [update_thread_of_ne hut])
        (by rw [update_thread_of_ne hut])
  · by_cases hut : u = t
    · rw [hut, update_thread_self]
      exact hrunning
    · rw [update_thread_of_ne hut]
      exact h.not_running u
  · by_cases hut : u = t
    · subst hut
      rw [update_thread_self] at hinit hclose ⊢
      exact hmasks hinit hclose
    · rw [update_thread_of_ne hut] at hinit hclose ⊢
      exact h.masks u hinit hclose

theorem Consistent.update_keep (h : Consistent k held)
    (hstat : (f (k.thread t)).stat = (k.thread t).stat)
    (hprio : (f (k.thread t)).currentPriority = (k.thread t).currentPriority)
    (hmasks : HasMasks (k.thread t) → HasMasks (f (k.thread t))) :
    Consistent (k.updateThread t f) held := by
  refine h.update_record (fun _ => ⟨hstat, hprio⟩) ?_ ?_
  · rw [hstat]
    exact h.not_running t
  · rw [hstat]
    exact fun hinit hclose => hmasks (h.masks t hinit hclose)

/-- A held thread whose state allows it to be on no list is let go. -/
theorem Consistent.release (h : Consistent k (t :: held)) (hready : (k.thread t).stat ≠ .ready) :
    Consistent k held := by
  refine ⟨h.bits, h.group, h.nodup, h.unique, fun u hu => ?_,
    fun u hu => h.unlinked u (mem_cons_of_mem t hu), h.not_running, h.masks⟩
  by_cases hut : u = t
  · subst hut
    have hnone := h.unlinked u mem_cons_self
    unfold Located
    cases hstat : (k.thread u).stat with
    | init => exact hnone
    | ready => exact absurd hstat hready
    | running => exact absurd hstat (h.not_running u)
    | suspend => exact fun q hq => absurd hq (hnone q)
    | close => exact fun q hq => absurd hq (hnone q)
  · exact h.located u (not_mem_cons_of_ne_of_not_mem hut hu)

theorem Consistent.link (h : Consistent k (t :: held)) (ht : t ∉ held) {l : List τ}
    (hl : l.Perm (t :: k.queue q)) (hlist : ((k.thread t).stat = .suspend ∧ ∃ o, q = .wait o) ∨
      ((k.thread t).stat = .close ∧ q = .defunct)) : Consistent (k.withQueue q l) held := by
  have hself : ∀ q', t ∉ k.queue q' := h.unlinked t mem_cons_self
  have hmem : ∀ u q', u ∈ (k.withQueue q l).queue q' ↔ u ∈ k.queue q' ∨ u = t ∧ q' = q := by
    intro u q'
    by_cases hq : q' = q
    · subst hq
      simp [withQueue, hl.mem_iff, or_comm]
    · simp [withQueue, hq]
  have hready : ∀ p, (k.withQueue q l).queue (.ready p) = k.queue (.ready p) := by
    intro p
    have hne : Queue.ready p ≠ q := by
      rcases hlist with ⟨-, o, rfl⟩ | ⟨-, rfl⟩ <;> simp
    simp [withQueue, hne]
  refine ⟨fun p => by rw [hready]; exact h.bits p, h.group, fun q' => ?_, ?_, fun u hu => ?_,
    fun u hu q' => ?_, h.not_running, h.masks⟩
  · by_cases hq : q' = q
    · subst hq
      simp only [withQueue, update_self]
      exact hl.nodup_iff.mpr (nodup_cons.mpr ⟨hself q', h.nodup q'⟩)
    · simp only [withQueue, update_of_ne hq]
      exact h.nodup q'
  · intro u q1 q2 h1 h2
    rcases (hmem u q1).mp h1 with hold1 | ⟨rfl, rfl⟩
    · rcases (hmem u q2).mp h2 with hold2 | ⟨rfl, rfl⟩
      · exact h.unique u q1 q2 hold1 hold2
      · exact absurd hold1 (hself q1)
    · rcases (hmem u q2).mp h2 with hold2 | ⟨-, rfl⟩
      · exact absurd hold2 (hself q2)
      · rfl
  · by_cases hut : u = t
    · subst hut
      have honly : ∀ q', u ∈ (k.withQueue q l).queue q' → q' = q := fun q' hq' =>
        ((hmem u q').mp hq').elim (fun hq' => absurd hq' (hself q')) And.right
      unfold Located
      rcases hlist with ⟨hstat, o, rfl⟩ | ⟨hstat, rfl⟩
      · rw [show ((k.withQueue (.wait o) l).thread u).stat = .suspend from hstat]
        exact fun q' hq' => ⟨o, honly q' hq'⟩
      · rw [show ((k.withQueue .defunct l).thread u).stat = .close from hstat]
        exact honly
    · refine (h.located u (not_mem_cons_of_ne_of_not_mem hut hu)).congr (fun q' => ?_) rfl rfl
      simp [hmem, hut]
  · have hut : u ≠ t := fun heq => ht (heq ▸ hu)
    rw [hmem]
    simp [hut, h.unlinked u (mem_cons_of_mem t hu) q']

/-- A thread that is taken off its list is held, whatever happens to the bits. -/
theorem Consistent.hold (h : Consistent k held) (hthread : k'.thread = k.thread)
    (hqueue : ∀ q, k'.queue q = (k.queue q).erase t)
    (hbits : ∀ p, readyBit k' p = true ↔ k'.queue (.ready p) ≠ [])
    (hgroup : ∀ n : Fin 32, k'.group.getLsbD n = true ↔ k'.readyTable n ≠ 0#8) :
    Consistent k' (t :: held) := by
  have hmem : ∀ u q, u ∈ k'.queue q ↔ u ≠ t ∧ u ∈ k.queue q := fun u q => by
    rw [hqueue]
    exact (h.nodup q).mem_erase_iff
  refine ⟨hbits, hgroup, fun q => ?_, fun u q q' hq hq' => ?_, fun u hu => ?_, fun u hu q => ?_,
    by rw [hthread]; exact h.not_running, by rw [hthread]; exact h.masks⟩
  · rw [hqueue]
    exact (h.nodup q).erase t
  · exact h.unique u q q' ((hmem u q).mp hq).2 ((hmem u q').mp hq').2
  · rw [mem_cons, not_or] at hu
    exact (h.located u hu.2).congr (fun q => by simp [hmem, hu.1]) (by rw [hthread])
      (by rw [hthread])
  · rw [hmem]
    rcases mem_cons.mp hu with rfl | hu
    · simp
    · simp [h.unlinked u hu q]

/-- A thread that is on no priority list is taken off its list; the bits stay. -/
theorem Consistent.hold_waiting (h : Consistent k held) (hnot : ∀ p, t ∉ k.queue (.ready p)) :
    Consistent (rtListRemove k t) (t :: held) := by
  refine h.hold rfl (fun q => rfl) (fun p => ?_) h.group
  rw [show (rtListRemove k t).queue (.ready p) = (k.queue (.ready p)).erase t from rfl,
    erase_of_not_mem (hnot p)]
  exact h.bits p

theorem clear_ready_bits_get (hmasks : HasMasks th) (p : Fin 256) :
    readyBit (clearReadyBits k th) p = (decide (p ≠ th.currentPriority) && readyBit k p) := by
  unfold readyBit clearReadyBits
  by_cases hrow : prioNumber p = th.number
  · rw [hrow]
    simp only [update_self]
    rw [hmasks.highMask, Bits.and_not_one_shift_get _ (prio_bit_lt _)]
    by_cases hp : p = th.currentPriority
    · simp [hp]
    · have hbit : prioBit p ≠ prioBit th.currentPriority := fun heq =>
        hp (prio_ext (hrow.trans hmasks.number) heq)
      simp [hp, hbit]
  · have hp : p ≠ th.currentPriority := fun heq => hrow (heq ▸ hmasks.number.symm)
    simp [update_of_ne hrow, hp]

theorem clear_ready_bits_group (hmasks : HasMasks th)
    (hgroup : ∀ n : Fin 32, k.group.getLsbD n = true ↔ k.readyTable n ≠ 0#8) (n : Fin 32) :
    (clearReadyBits k th).group.getLsbD n = true ↔ (clearReadyBits k th).readyTable n ≠ 0#8 := by
  unfold clearReadyBits
  dsimp only
  have hnumber : th.numberMask = 1#32 <<< th.number.val := by rw [hmasks.numberMask, hmasks.number]
  by_cases hrow : n = th.number
  · subst hrow
    rw [update_self]
    split
    · rename_i hzero
      rw [hnumber, Bits.and_not_one_shift_get _ th.number.isLt]
      simp [hzero]
    · rename_i hrow
      -- A row that keeps a bit had one before.
      have hold : k.readyTable th.number ≠ 0#8 := by
        intro heq
        simp [heq] at hrow
      simp only [ne_eq, hrow, not_false_eq_true, iff_true]
      exact (hgroup th.number).mpr hold
  · rw [update_of_ne hrow]
    have hval : n.val ≠ th.number.val := fun heq => hrow (Fin.ext heq)
    split
    · rw [hnumber, Bits.and_not_one_shift_get _ th.number.isLt]
      simpa [hval] using hgroup n
    · exact hgroup n

theorem Consistent.hold_ready (h : Consistent k held) (ht : t ∉ held)
    (hmasks : HasMasks (k.thread t)) : Consistent (rtScheduleRemoveThread k t) (t :: held) := by
  have hother : ∀ p, p ≠ (k.thread t).currentPriority →
      (rtListRemove k t).queue (.ready p) = k.queue (.ready p) := by
    intro p hp
    refine erase_of_not_mem fun hmem => hp ?_
    exact ((h.located t ht).ready_prio hmem).1
  unfold rtScheduleRemoveThread
  dsimp only
  split
  · rename_i hempty
    have hempty' : (rtListRemove k t).queue (.ready (k.thread t).currentPriority) = [] := hempty
    refine h.hold rfl (fun q => rfl) (fun p => ?_) (clear_ready_bits_group hmasks h.group)
    rw [show (rtListRemove k t).thread t = k.thread t from rfl, clear_ready_bits_get hmasks,
      show (clearReadyBits (rtListRemove k t) (k.thread t)).queue (.ready p) =
        (rtListRemove k t).queue (.ready p) from rfl]
    by_cases hp : p = (k.thread t).currentPriority
    · rw [hp, hempty']
      simp [rtListRemove]
    · rw [hother p hp]
      have hbit := h.bits p
      simp only [rtListRemove, hp, ne_eq, not_false_eq_true, decide_true, Bool.true_and]
      exact hbit
  · rename_i hkept
    refine h.hold rfl (fun q => rfl) (fun p => ?_) h.group
    by_cases hp : p = (k.thread t).currentPriority
    · subst hp
      refine ⟨fun _ => hkept, fun _ => (h.bits _).mpr fun hnil => hkept ?_⟩
      show (k.queue (.ready (k.thread t).currentPriority)).erase t = []
      rw [hnil, erase_nil]
    · rw [hother p hp]
      exact h.bits p

theorem Consistent.insert_ready (h : Consistent k (t :: held)) (ht : t ∉ held)
    (hmasks : HasMasks (k.thread t)) : Consistent (rtScheduleInsertThread k t) held := by
  generalize hp0 : (k.thread t).currentPriority = p0
  have hself : ∀ q, t ∉ k.queue q := h.unlinked t mem_cons_self
  have hnumber : (k.thread t).numberMask = 1#32 <<< (k.thread t).number.val := by
    rw [hmasks.numberMask, hmasks.number]
  have hqueue : ∀ q, (rtScheduleInsertThread k t).queue q =
      if q = .ready p0 then k.queue q ++ [t] else k.queue q := hp0 ▸ insert_thread_queue
  have hmem : ∀ u q, u ∈ (rtScheduleInsertThread k t).queue q ↔
      u ∈ k.queue q ∨ u = t ∧ q = .ready p0 := by
    intro u q
    rw [hqueue]
    split
    · rename_i hq
      simp [hq]
    · rename_i hq
      simp [hq]
  have htable : (rtScheduleInsertThread k t).readyTable =
      update k.readyTable (k.thread t).number
        (k.readyTable (k.thread t).number ||| (k.thread t).highMask) := by
    simp [rtScheduleInsertThread, rtListInsertBefore, withQueue, updateThread]
  have hgroup : (rtScheduleInsertThread k t).group = k.group ||| (k.thread t).numberMask := by
    simp [rtScheduleInsertThread, rtListInsertBefore, withQueue, updateThread]
  refine ⟨fun p => ?_, fun n => ?_, fun q => ?_, fun u q q' hq hq' => ?_, fun u hu => ?_,
    fun u hu q => ?_, fun u => ?_, fun u hinit hclose => ?_⟩
  · have hbit : readyBit (rtScheduleInsertThread k t) p = (readyBit k p || decide (p = p0)) := by
      unfold readyBit
      rw [htable]
      by_cases hrow : prioNumber p = (k.thread t).number
      · rw [hrow, update_self, hmasks.highMask, Bits.or_one_shift_get _ (prio_bit_lt _), hp0]
        congr 1
        have hiff : prioBit p = prioBit p0 ↔ p = p0 := by
          refine ⟨fun hbit => prio_ext ?_ hbit, fun heq => heq ▸ rfl⟩
          rw [hrow, hmasks.number, hp0]
        simp [hiff]
      · rw [update_of_ne hrow]
        have hne : p ≠ p0 := fun heq => hrow (by rw [heq, hmasks.number, hp0])
        simp [hne]
    rw [hbit, hqueue]
    by_cases hp : p = p0
    · simp [hp]
    · simpa [hp] using h.bits p
  · rw [hgroup, htable, hnumber, Bits.or_one_shift_get _ (k.thread t).number.isLt]
    by_cases hn : n = (k.thread t).number
    · subst hn
      have hset : k.readyTable (k.thread t).number ||| (k.thread t).highMask ≠ 0#8 := by
        intro heq
        have hbit := congrArg (getLsbD · (prioBit p0)) heq
        rw [hmasks.highMask, hp0] at hbit
        simp only [Bits.or_one_shift_get _ (prio_bit_lt p0)] at hbit
        simp at hbit
      simp [hset]
    · have hval : n.val ≠ (k.thread t).number.val := fun heq => hn (Fin.ext heq)
      rw [update_of_ne hn]
      simpa [hval] using h.group n
  · rw [hqueue]
    split
    · exact Nodup.append (h.nodup q) (nodup_singleton t)
        (by simpa using hself q)
    · exact h.nodup q
  · rcases (hmem u q).mp hq with hold | ⟨rfl, rfl⟩
    · rcases (hmem u q').mp hq' with hold' | ⟨rfl, rfl⟩
      · exact h.unique u q q' hold hold'
      · exact absurd hold (hself q)
    · rcases (hmem u q').mp hq' with hold' | ⟨-, rfl⟩
      · exact absurd hold' (hself q')
      · rfl
  · by_cases hut : u = t
    · subst hut
      unfold Located
      rw [insert_thread_self]
      intro q
      rw [hmem, hp0]
      simp [hself q]
    · refine (h.located u (not_mem_cons_of_ne_of_not_mem hut hu)).congr (fun q => ?_)
        (by rw [insert_thread_of_ne hut]) (by rw [insert_thread_of_ne hut])
      simp [hmem, hut]
  · have hut : u ≠ t := fun heq => ht (heq ▸ hu)
    rw [hmem]
    simp [hut, h.unlinked u (mem_cons_of_mem t hu) q]
  · by_cases hut : u = t
    · rw [hut, insert_thread_self]
      simp
    · rw [insert_thread_of_ne hut]
      exact h.not_running u
  · by_cases hut : u = t
    · subst hut
      rw [insert_thread_self]
      exact ⟨hmasks.number, hmasks.numberMask, hmasks.highMask⟩
    · rw [insert_thread_of_ne hut] at hinit hclose ⊢
      exact h.masks u hinit hclose

end

/-! ## The thread that is picked -/

section

theorem lowest_bit_bitmap_spec : ∀ b : Fin 256, b ≠ 0 →
    lowestBitBitmap.getD b.val 0 < 8 ∧ b.val.testBit (lowestBitBitmap.getD b.val 0) = true ∧
      ∀ j : Fin 8, j.val < lowestBitBitmap.getD b.val 0 → b.val.testBit j = false := by
  decide +kernel

theorem byte_get (value : BitVec 32) {s j : Nat} (hs : s + 8 ≤ 32) (hj : j < 8) :
    ((value &&& (0xff#32 <<< s)) >>> s).toNat.testBit j = value.getLsbD (s + j) := by
  have hff : (0xff#32).getLsbD j = true := by
    have hall : ∀ j : Fin 8, (0xff#32).getLsbD j = true := by decide
    exact hall ⟨j, hj⟩
  rw [testBit_toNat, getLsbD_ushiftRight, getLsbD_and, getLsbD_shiftLeft,
    Nat.add_sub_cancel_left, hff]
  simp [show s + j < 32 by omega]

theorem byte_lt (value : BitVec 32) (s : Nat) :
    ((value &&& (0xff#32 <<< s)) >>> s).toNat < 256 := by
  show _ < 2 ^ 8
  refine lt_pow_two_of_testBit _ fun j hj => ?_
  rw [testBit_toNat, getLsbD_ushiftRight, getLsbD_and, getLsbD_shiftLeft, Nat.add_sub_cancel_left]
  have hff : (0xff#32).getLsbD j = false := by
    by_cases hj32 : j < 32
    · have hall : ∀ j : Fin 32, 8 ≤ j.val → (0xff#32).getLsbD j = false := by decide
      exact hall ⟨j, hj32⟩ hj
    · exact getLsbD_of_ge _ _ (by omega)
  simp [hff]

theorem byte_eq_zero_iff (value : BitVec 32) {s : Nat} (hs : s + 8 ≤ 32) :
    value &&& (0xff#32 <<< s) = 0#32 ↔ ∀ j, j < 8 → value.getLsbD (s + j) = false := by
  constructor
  · intro hzero j hj
    rw [← byte_get value hs hj, hzero]
    simp
  · intro hbits
    refine eq_of_getLsbD_eq fun i hi => ?_
    by_cases hlo : i < s
    · simp [hlo]
    · by_cases hhi : i - s < 8
      · have := hbits (i - s) hhi
        rw [Nat.add_sub_cancel' (by omega)] at this
        simp [this]
      · have hall : ∀ j : Fin 32, 8 ≤ j.val → (0xff#32).getLsbD j = false := by decide
        simp [hall ⟨i - s, by omega⟩ (by simp only; omega)]

theorem byte_lowest (value : BitVec 32) {s : Nat} (hs : s + 8 ≤ 32)
    (hbyte : value &&& (0xff#32 <<< s) ≠ 0#32) :
    let i := s + lowestBitBitmap.getD ((value &&& (0xff#32 <<< s)) >>> s).toNat 0
    i < s + 8 ∧ value.getLsbD i = true ∧ ∀ j, s ≤ j → j < i → value.getLsbD j = false := by
  generalize hb : ((value &&& (0xff#32 <<< s)) >>> s).toNat = b
  have hlt := byte_lt value s
  rw [hb] at hlt
  have hget : ∀ j, j < 8 → b.testBit j = value.getLsbD (s + j) := fun j hj => by
    rw [← hb]
    exact byte_get value hs hj
  have hne : (⟨b, hlt⟩ : Fin 256) ≠ 0 := by
    intro heq
    have hzero : b = 0 := congrArg Fin.val heq
    refine hbyte ((byte_eq_zero_iff value hs).mpr fun j hj => ?_)
    rw [← hget j hj, hzero]
    simp
  obtain ⟨hlow, hset, hbelow⟩ := lowest_bit_bitmap_spec ⟨b, hlt⟩ hne
  dsimp only at hlow hset hbelow ⊢
  refine ⟨by omega, ?_, fun j hsj hji => ?_⟩
  · rw [← hget _ hlow]
    exact hset
  · have := hbelow ⟨j - s, by omega⟩ (by simp only; omega)
    rw [hget _ (by simp only; omega)] at this
    rwa [show s + (j - s) = j by omega] at this

theorem rt_ffs_spec {value : BitVec 32} (hvalue : value ≠ 0#32) :
    ∃ i, rtFfs value = i + 1 ∧ i < 32 ∧ value.getLsbD i = true ∧
      ∀ j, j < i → value.getLsbD j = false := by
  have hzero : ∀ {s}, s + 8 ≤ 32 → value &&& (0xff#32 <<< s) = 0#32 →
      ∀ j, s ≤ j → j < s + 8 → value.getLsbD j = false := by
    intro s hs hbyte j hlo hhi
    have := (byte_eq_zero_iff value hs).mp hbyte (j - s) (by omega)
    rwa [show s + (j - s) = j by omega] at this
  -- The first byte with a set bit decides; the bytes below it are zero.
  have hfound : ∀ {s}, s + 8 ≤ 32 → value &&& (0xff#32 <<< s) ≠ 0#32 →
      (∀ j, j < s → value.getLsbD j = false) →
      ∃ i, lowestBitBitmap.getD ((value &&& (0xff#32 <<< s)) >>> s).toNat 0 + (s + 1) = i + 1 ∧
        i < 32 ∧ value.getLsbD i = true ∧ ∀ j, j < i → value.getLsbD j = false := by
    intro s hs hbyte hbelow
    obtain ⟨hlt, hset, hlow⟩ := byte_lowest value hs hbyte
    refine ⟨_, by omega, by omega, hset, fun j hj => ?_⟩
    by_cases hjs : j < s
    · exact hbelow j hjs
    · exact hlow j (by omega) hj
  rw [rtFfs, if_neg hvalue]
  by_cases h0 : value &&& 0xff#32 ≠ 0#32
  · rw [if_pos h0]
    exact hfound (s := 0) (by omega) h0 (by omega)
  rw [if_neg h0]
  have hlow0 := hzero (s := 0) (by omega) (not_not.mp h0)
  by_cases h1 : value &&& 0xff00#32 ≠ 0#32
  · rw [if_pos h1]
    exact hfound (s := 8) (by omega) h1 fun j hj => hlow0 j (by omega) (by omega)
  rw [if_neg h1]
  have hlow1 := hzero (s := 8) (by omega) (not_not.mp h1)
  have hbelow1 : ∀ j, j < 16 → value.getLsbD j = false := fun j hj =>
    if h : j < 8 then hlow0 j (by omega) (by omega) else hlow1 j (by omega) (by omega)
  by_cases h2 : value &&& 0xff0000#32 ≠ 0#32
  · rw [if_pos h2]
    exact hfound (s := 16) (by omega) h2 hbelow1
  rw [if_neg h2]
  have hlow2 := hzero (s := 16) (by omega) (not_not.mp h2)
  have hbelow2 : ∀ j, j < 24 → value.getLsbD j = false := fun j hj =>
    if h : j < 16 then hbelow1 j h else hlow2 j (by omega) (by omega)
  refine hfound (s := 24) (by omega) (fun h3 => hvalue ?_) hbelow2
  rw [Bits.eq_zero_iff]
  intro j
  by_cases hj : j < 24
  · exact hbelow2 j hj
  · by_cases hj' : j < 32
    · exact hzero (s := 24) (by omega) h3 j (by omega) (by omega)
    · exact getLsbD_of_ge _ _ (by omega)

variable {k : Kernel τ ι} {held : List τ}

/-- `rt_schedule` finds the first non-empty list. -/
theorem Consistent.highest_ready (h : Consistent k held) (hp : k.queue (.ready p) ≠ []) :
    k.queue (.ready (highestReadyPriority k)) ≠ [] ∧ highestReadyPriority k ≤ p := by
  have hrow : ∀ {p}, k.queue (.ready p) ≠ [] → k.readyTable (prioNumber p) ≠ 0#8 := by
    intro p hp heq
    have hbit := (h.bits p).mpr hp
    rw [readyBit, heq] at hbit
    simp at hbit
  have hgroup : k.group ≠ 0#32 := by
    intro heq
    have := (h.group (prioNumber p)).mpr (hrow hp)
    rw [heq] at this
    simp at this
  obtain ⟨n, hffs, hn, hset, hbelow⟩ := rt_ffs_spec hgroup
  have hnrow : k.readyTable ⟨n, hn⟩ ≠ 0#8 := (h.group ⟨n, hn⟩).mp hset
  have hbitGet : ∀ j, j < 8 → ((k.readyTable ⟨n, hn⟩).setWidth 32).getLsbD j =
      (k.readyTable ⟨n, hn⟩).getLsbD j := by
    intro j hj
    simp [show j < 32 by omega]
  have hwide : (k.readyTable ⟨n, hn⟩).setWidth 32 ≠ 0#32 := by
    intro heq
    refine hnrow ((Bits.eq_zero_iff _).mpr fun j => ?_)
    by_cases hj : j < 8
    · rw [← hbitGet j hj, heq]
      simp
    · exact getLsbD_of_ge _ _ (by omega)
  obtain ⟨b, hffs', -, hset', hbelow'⟩ := rt_ffs_spec hwide
  have hb : b < 8 := by
    by_contra hge
    rw [getLsbD_setWidth, getLsbD_of_ge _ b (by omega)] at hset'
    simp at hset'
  obtain ⟨p0, hnumber, hbit, hval⟩ := exists_prio ⟨n, hn⟩ hb
  have hhighest : highestReadyPriority k = p0 := by
    have hindex : Fin.ofNat 32 n = ⟨n, hn⟩ := Fin.ext (mod_eq_of_lt hn)
    unfold highestReadyPriority
    dsimp only
    rw [hffs, Nat.add_sub_cancel, hindex, hffs', shiftLeft_eq]
    refine Fin.ext ?_
    rw [Fin.val_ofNat, hval]
    simp only
    omega
  rw [hhighest]
  constructor
  · rw [← h.bits, readyBit, hnumber, hbit, ← hbitGet b hb]
    exact hset'
  · -- A smaller priority would have a lower row, or a lower bit in this row.
    have hpbit := (h.bits p).mpr hp
    have hprow := (h.group (prioNumber p)).mpr (hrow hp)
    rw [Fin.le_def, hval]
    have hle : n ≤ (prioNumber p).val := by
      by_contra hlt
      rw [hbelow _ (by omega)] at hprow
      cases hprow
    rw [prio_number_val] at hle
    by_cases hsame : prioNumber p = ⟨n, hn⟩
    · have hlow : b ≤ prioBit p := by
        by_contra hlt
        have hclear := hbelow' (prioBit p) (by omega)
        rw [hbitGet _ (prio_bit_lt p), ← hsame] at hclear
        rw [readyBit, hclear] at hpbit
        cases hpbit
      have hnval := congrArg Fin.val hsame
      rw [prio_number_val] at hnval
      rw [prio_bit_eq] at hlow
      omega
    · have hne : p.val / 8 ≠ n := fun heq => hsame (Fin.ext (by rw [prio_number_val]; exact heq))
      simp only
      omega

/-- The thread that `rt_schedule` picks is ready and has the smallest priority value of all ready
threads. -/
theorem Consistent.picked (h : Consistent k []) {t : τ} (hpick : highestPriorityThread k = some t) :
    ((k.thread t).stat = .ready ∨ (k.thread t).stat = .running) ∧
      (∀ q, t ∈ k.queue q ↔ q = .ready (k.thread t).currentPriority) ∧
      ∀ u, (k.thread u).stat = .ready ∨ (k.thread u).stat = .running →
        (k.thread t).currentPriority ≤ (k.thread u).currentPriority := by
  have hlist : ∀ u, (k.thread u).stat = .ready ∨ (k.thread u).stat = .running →
      ∀ q, u ∈ k.queue q ↔ q = .ready (k.thread u).currentPriority := by
    intro u hu
    have hloc := h.located u (by simp)
    unfold Located at hloc
    rcases hu with hu | hu
    · rwa [hu] at hloc
    · rwa [hu] at hloc
  have hmem : t ∈ k.queue (.ready (highestReadyPriority k)) := mem_of_mem_head? hpick
  obtain ⟨hprio, hready⟩ := (h.located t (by simp)).ready_prio hmem
  refine ⟨hready, hlist t hready, fun u hu => ?_⟩
  rw [← hprio]
  exact (h.highest_ready (ne_nil_of_mem ((hlist u hu _).mpr rfl))).2

theorem Consistent.picks (h : Consistent k []) {u : τ} (hu : (k.thread u).stat = .ready) :
    ∃ t, highestPriorityThread k = some t := by
  have hloc := h.located u (by simp)
  unfold Located at hloc
  rw [hu] at hloc
  have hne := (h.highest_ready (ne_nil_of_mem ((hloc _).mpr rfl))).1
  exact ⟨_, head?_eq_some_head hne⟩

end

end FullhanRtos.Sched
