import Mathlib.Tactic.Common

/-!
# Runs of a partial transition function

A machine takes a step `step s a` on a request `a`, or gets stuck (`none`). `exec` runs a list of
requests. `AllSteps C s as` says that every step of the run from `s` meets the condition `C` on the
state before the step and the request, and `Always P s as` that every state of the run meets `P`.

`exec_progress`, `exec_invariant` and `exec_keeps` are the induction rules for safety: the first
also shows that the run does not get stuck, the last is for invariants without a condition, and
`exec_keeps_allowed` for runs in which some requests do not occur.
`exec_to_end` and `exec_reaches` are the rules for termination with a measure.
`always_iff` turns an exact condition of one step into an exact condition of whole runs of allowed
requests, and `Always.all_steps` reads a property of the steps off the states. `exec_simulation` is
forward simulation: the events that the steps emit are a run of an abstract machine.
-/

namespace Transition

open List Option

variable {σ α : Type*}

/-- The state after a list of requests. -/
def exec (step : σ → α → Option σ) : σ → List α → Option σ
  | s, [] => some s
  | s, a :: as => (step s a).bind fun s' => exec step s' as

def AllSteps (step : σ → α → Option σ) (C : σ → α → Prop) : σ → List α → Prop
  | _, [] => True
  | s, a :: as => C s a ∧ ∀ s', step s a = some s' → AllSteps step C s' as

def decidableAllSteps (step : σ → α → Option σ) (C : σ → α → Prop) [∀ s a, Decidable (C s a)] :
    ∀ s as, Decidable (AllSteps step C s as)
  | _, [] => .isTrue trivial
  | s, a :: as =>
    match h : step s a with
    | none => decidable_of_iff (C s a) (by simp [AllSteps, h])
    | some s' =>
      have := decidableAllSteps step C s' as
      decidable_of_iff (C s a ∧ AllSteps step C s' as) (by simp [AllSteps, h])

instance (step : σ → α → Option σ) (C : σ → α → Prop) [∀ s a, Decidable (C s a)] (s : σ)
    (as : List α) : Decidable (AllSteps step C s as) :=
  decidableAllSteps step C s as

/-- Every state of the run meets `P`. -/
def Always (step : σ → α → Option σ) (P : σ → Prop) : σ → List α → Prop
  | s, [] => P s
  | s, a :: as => P s ∧ ∀ s', step s a = some s' → Always step P s' as

variable {step : σ → α → Option σ} {C : σ → α → Prop} {I P : σ → Prop} {s s' : σ} {a : α}
  {as : List α} {D : σ → α → Prop} {A : α → Prop} {E : σ → Prop} {β δ : Type*}

theorem exec_cons_eq_some :
    exec step s (a :: as) = some s' ↔ ∃ s1, step s a = some s1 ∧ exec step s1 as = some s' := by
  simp [exec, bind_eq_some_iff]

/-- The first state of a run meets what every state meets. -/
theorem Always.head (h : Always step P s as) : P s := by
  cases as with
  | nil => exact h
  | cons a as => exact h.1

/-- The state after a run meets what every state meets. -/
theorem Always.last (h : Always step P s as) (hrun : exec step s as = some s') : P s' := by
  induction as generalizing s with
  | nil =>
    cases hrun
    exact h
  | cons a as ih =>
    obtain ⟨s1, hs1, hrest⟩ := exec_cons_eq_some.mp hrun
    exact ih (h.2 s1 hs1) hrest

theorem AllSteps.last (h : AllSteps step C s (as ++ [a])) (hrun : exec step s as = some s') :
    C s' a := by
  induction as generalizing s with
  | nil =>
    cases hrun
    exact h.1
  | cons b as ih =>
    obtain ⟨s1, hs1, hrest⟩ := exec_cons_eq_some.mp hrun
    exact ih (h.2 s1 hs1) hrest

theorem AllSteps.cons (hcond : C s a) (hstep : step s a = some s') (h : AllSteps step C s' as) :
    AllSteps step C s (a :: as) := by
  refine ⟨hcond, fun s1 hs1 => ?_⟩
  obtain rfl := some.inj (hstep.symm.trans hs1)
  exact h

/-- A condition that the requests of the run meet in every state. -/
theorem all_steps_of_mem (h : ∀ a ∈ as, ∀ s, C s a) (s : σ) : AllSteps step C s as := by
  induction as generalizing s with
  | nil => trivial
  | cons a as ih =>
    obtain ⟨ha, hrest⟩ := forall_mem_cons.mp h
    exact ⟨ha s, fun s' _ => ih hrest s'⟩

theorem all_steps_of_forall (h : ∀ s a, C s a) (s : σ) (as : List α) : AllSteps step C s as :=
  all_steps_of_mem (fun a _ s => h s a) s

/-- A weaker condition. -/
theorem AllSteps.imp (h : AllSteps step C s as) (hweaker : ∀ s a, C s a → D s a) :
    AllSteps step D s as := by
  induction as generalizing s with
  | nil => trivial
  | cons a as ih => exact ⟨hweaker s a h.1, fun s' hs' => ih (h.2 s' hs')⟩

/-- A weaker property. -/
theorem Always.imp {Q : σ → Prop} (h : Always step P s as) (hweaker : ∀ s, P s → Q s) :
    Always step Q s as := by
  induction as generalizing s with
  | nil => exact hweaker s h
  | cons a as ih =>
    refine ⟨hweaker s h.1, ?_⟩
    intro s' hs'
    exact ih (h.2 s' hs')

/-- A step that meets the condition is taken and keeps the invariant, so the whole run is. -/
theorem exec_progress (hstep : ∀ s a, I s → C s a → ∃ s', step s a = some s' ∧ I s') (hinit : I s)
    (hsteps : AllSteps step C s as) : ∃ s', exec step s as = some s' ∧ I s' := by
  induction as generalizing s with
  | nil => exact ⟨s, rfl, hinit⟩
  | cons a as ih =>
    obtain ⟨s1, hs1, hinv⟩ := hstep s a hinit hsteps.1
    obtain ⟨s', hrun, hinv'⟩ := ih hinv (hsteps.2 s1 hs1)
    exact ⟨s', exec_cons_eq_some.mpr ⟨s1, hs1, hrun⟩, hinv'⟩

/-- An invariant that every step taken under the condition keeps holds after a run. -/
theorem exec_invariant (hstep : ∀ s a s', I s → C s a → step s a = some s' → I s') (hinit : I s)
    (hsteps : AllSteps step C s as) (hrun : exec step s as = some s') : I s' := by
  induction as generalizing s with
  | nil =>
    cases hrun
    exact hinit
  | cons a as ih =>
    obtain ⟨s1, hs1, hrest⟩ := exec_cons_eq_some.mp hrun
    exact ih (hstep s a s1 hinit hsteps.1 hs1) (hsteps.2 s1 hs1) hrest

/-- The same in every state of the run. -/
theorem always_of_invariant (hstep : ∀ s a s', I s → C s a → step s a = some s' → I s')
    (hgood : ∀ s, I s → P s) (hinit : I s) (hsteps : AllSteps step C s as) :
    Always step P s as := by
  induction as generalizing s with
  | nil => exact hgood s hinit
  | cons a as ih =>
    refine ⟨hgood s hinit, ?_⟩
    intro s' hs'
    exact ih (hstep s a s' hinit hsteps.1 hs') (hsteps.2 s' hs')

/-- Under an invariant that every step taken under the condition keeps, a weaker condition holds at
every step. -/
theorem AllSteps.of_invariant (hstep : ∀ s a s', I s → C s a → step s a = some s' → I s')
    (hgood : ∀ s a, I s → C s a → D s a) (hinit : I s) (hsteps : AllSteps step C s as) :
    AllSteps step D s as := by
  induction as generalizing s with
  | nil => trivial
  | cons a as ih =>
    refine ⟨hgood s a hinit hsteps.1, fun s' hs' => ?_⟩
    exact ih (hstep s a s' hinit hsteps.1 hs') (hsteps.2 s' hs')

/-- Two conditions that agree under an invariant hold at every step of the same runs. -/
theorem all_steps_iff (hstep : ∀ s a s', I s → step s a = some s' → I s')
    (hiff : ∀ s a, I s → (C s a ↔ D s a)) (hinit : I s) :
    AllSteps step C s as ↔ AllSteps step D s as := by
  constructor
  · exact AllSteps.of_invariant (fun s a s' hinv _ => hstep s a s' hinv)
      (fun s a hinv => (hiff s a hinv).mp) hinit
  · exact AllSteps.of_invariant (fun s a s' hinv _ => hstep s a s' hinv)
      (fun s a hinv => (hiff s a hinv).mpr) hinit

theorem exec_keeps (hstep : ∀ s a s', I s → step s a = some s' → I s') (hinit : I s)
    (hrun : exec step s as = some s') : I s' := by
  induction as generalizing s with
  | nil =>
    cases hrun
    exact hinit
  | cons a as ih =>
    obtain ⟨s1, hs1, hrest⟩ := exec_cons_eq_some.mp hrun
    exact ih (hstep s a s1 hinit hs1) hrest

theorem exec_keeps_allowed (hstep : ∀ s a s', A a → I s → step s a = some s' → I s')
    (hallowed : ∀ a ∈ as, A a) (hinit : I s) (hrun : exec step s as = some s') : I s' := by
  induction as generalizing s with
  | nil =>
    cases hrun
    exact hinit
  | cons a as ih =>
    obtain ⟨s1, hs1, hrest⟩ := exec_cons_eq_some.mp hrun
    exact ih (fun b hb => hallowed b (mem_cons_of_mem a hb))
      (hstep s a s1 (hallowed a mem_cons_self) hinit hs1) hrest

/-- When an allowed step from a good state leads to a good state exactly if it meets the condition,
the states of a run of allowed steps are all good exactly if all its steps meet the condition. The
invariant has to be kept only by the steps that meet it. -/
theorem always_iff_under
    (hstep : ∀ s a s', D s a → I s → P s → step s a = some s' → (C s a → I s') ∧ (P s' ↔ C s a))
    (hallowed : AllSteps step D s as) (hinit : I s) (hgood : P s)
    (hrun : exec step s as = some s') :
    Always step P s as ↔ AllSteps step C s as := by
  induction as generalizing s with
  | nil => exact ⟨fun _ => trivial, fun _ => hgood⟩
  | cons a as ih =>
    obtain ⟨s1, hs1, hrest⟩ := exec_cons_eq_some.mp hrun
    have hallowed' := hallowed.2 s1 hs1
    obtain ⟨hinv, hiff⟩ := hstep s a s1 hallowed.1 hinit hgood hs1
    constructor
    · rintro ⟨-, halways⟩
      have hall := halways s1 hs1
      have hcond := hiff.mp hall.head
      refine ⟨hcond, fun s2 hs2 => ?_⟩
      obtain rfl := some.inj (hs1.symm.trans hs2)
      exact (ih hallowed' (hinv hcond) hall.head hrest).mp hall
    · rintro ⟨hcond, hsteps⟩
      refine ⟨hgood, fun s2 hs2 => ?_⟩
      obtain rfl := some.inj (hs1.symm.trans hs2)
      exact (ih hallowed' (hinv hcond) (hiff.mpr hcond) hrest).mpr (hsteps s1 hs1)

/-- The same when only the request decides whether a step is allowed. -/
theorem always_iff_of_kept
    (hstep : ∀ s a s', A a → I s → P s → step s a = some s' → (C s a → I s') ∧ (P s' ↔ C s a))
    (hallowed : ∀ a ∈ as, A a) (hinit : I s) (hgood : P s) (hrun : exec step s as = some s') :
    Always step P s as ↔ AllSteps step C s as :=
  always_iff_under (D := fun _ a => A a) hstep (all_steps_of_mem (fun a ha _ => hallowed a ha) s)
    hinit hgood hrun

theorem always_iff (hstep : ∀ s a s', A a → I s → P s → step s a = some s' → I s' ∧ (P s' ↔ C s a))
    (hallowed : ∀ a ∈ as, A a) (hinit : I s) (hgood : P s) (hrun : exec step s as = some s') :
    Always step P s as ↔ AllSteps step C s as := by
  refine always_iff_of_kept (fun s a s' ha hinv hgood hs => ?_) hallowed hinit hgood hrun
  obtain ⟨hinv', hiff⟩ := hstep s a s' ha hinv hgood hs
  exact ⟨fun _ => hinv', hiff⟩

/-- In a run of good states every step has a property that the steps from good states have. -/
theorem Always.all_steps (hstep : ∀ s a s', A a → I s → P s → step s a = some s' → I s')
    (hgood : ∀ s a, A a → I s → P s → D s a) (hallowed : ∀ a ∈ as, A a) (hinit : I s)
    (halways : Always step P s as) : AllSteps step D s as := by
  induction as generalizing s with
  | nil => trivial
  | cons a as ih =>
    have ha : A a := hallowed a mem_cons_self
    refine ⟨hgood s a ha hinit halways.1, fun s' hs' => ?_⟩
    exact ih (fun b hb => hallowed b (mem_cons_of_mem a hb))
      (hstep s a s' ha hinit halways.1 hs') (halways.2 s' hs')

/-- The same when each step may be another one of the allowed requests. -/
theorem exec_reaches (m : σ → Nat)
    (hstep : ∀ s, I s → ¬ E s → ∃ a s', A a ∧ step s a = some s' ∧ I s' ∧ m s' < m s)
    (hinit : I s) :
    ∃ as s', (∀ a ∈ as, A a) ∧ exec step s as = some s' ∧ I s' ∧ E s' := by
  induction hm : m s using Nat.strongRecOn generalizing s with
  | ind k ih =>
    by_cases hend : E s
    · exact ⟨[], s, nofun, rfl, hinit, hend⟩
    · obtain ⟨a, s1, ha, hs1, hinv, hless⟩ := hstep s hinit hend
      obtain ⟨as, s', hall, hrun, hinv', hend'⟩ := ih (m s1) (hm ▸ hless) hinv rfl
      exact ⟨a :: as, s', forall_mem_cons.mpr ⟨ha, hall⟩,
        exec_cons_eq_some.mpr ⟨s1, hs1, hrun⟩, hinv', hend'⟩

/-! ## Simulation -/

def trace {β : Type*} (step : σ → α → Option σ) (event : σ → α → σ → List β) : σ → List α → List β
  | _, [] => []
  | s, a :: as =>
    match step s a with
    | none => []
    | some s' => event s a s' ++ trace step event s' as

/-- What no allowed request emits is not in the events. -/
theorem mem_trace {β : Type*} {event : σ → α → σ → List β} {B : β → Prop}
    (hevent : ∀ s a s', A a → ∀ b ∈ event s a s', B b) (has : ∀ a ∈ as, A a) :
    ∀ b ∈ trace step event s as, B b := by
  induction as generalizing s with
  | nil => exact nofun
  | cons a as ih =>
    obtain ⟨ha, hrest⟩ := forall_mem_cons.mp has
    intro b hb
    rw [trace] at hb
    cases hs : step s a with
    | none =>
      rw [hs] at hb
      cases hb
    | some s' =>
      rw [hs] at hb
      rcases mem_append.mp hb with hb | hb
      · exact hevent s a s' ha b hb
      · exact ih hrest b hb

theorem exec_append {as bs : List α} :
    exec step s (as ++ bs) = (exec step s as).bind fun s' => exec step s' bs := by
  induction as generalizing s with
  | nil => rfl
  | cons a as ih =>
    simp only [cons_append, exec]
    cases step s a with
    | none => rfl
    | some s1 => exact ih

/-- The events of the second part of a run follow those of the first. -/
theorem trace_append {β : Type*} {event : σ → α → σ → List β} {as bs : List α}
    (hrun : exec step s as = some s') :
    trace step event s (as ++ bs) = trace step event s as ++ trace step event s' bs := by
  induction as generalizing s with
  | nil =>
    cases hrun
    rfl
  | cons a as ih =>
    obtain ⟨s1, hs1, hrest⟩ := exec_cons_eq_some.mp hrun
    rw [cons_append, trace, hs1]
    show event s a s1 ++ trace step event s1 (as ++ bs) = _
    rw [ih hrest, trace, hs1, append_assoc]

/-- When every step that meets the condition is matched by the events that it emits, the events of a
run of such steps are a run of the abstract machine. -/
theorem exec_simulation_under {spec : δ → β → Option δ} {event : σ → α → σ → List β}
    {R : σ → δ → Prop}
    (hstep : ∀ s a s' d, R s d → C s a → step s a = some s' → ∃ d', exec spec d (event s a s') =
      some d' ∧ R s' d')
    {d : δ} (hinit : R s d) (hsteps : AllSteps step C s as) (hrun : exec step s as = some s') :
    ∃ d', exec spec d (trace step event s as) = some d' ∧ R s' d' := by
  induction as generalizing s d with
  | nil =>
    cases hrun
    exact ⟨d, rfl, hinit⟩
  | cons a as ih =>
    obtain ⟨s1, hs1, hrest⟩ := exec_cons_eq_some.mp hrun
    obtain ⟨d1, hd1, hrel⟩ := hstep s a s1 d hinit hsteps.1 hs1
    obtain ⟨d', hd', hrel'⟩ := ih hrel (hsteps.2 s1 hs1) hrest
    refine ⟨d', ?_, hrel'⟩
    rw [trace, hs1]
    exact (exec_append.trans (by rw [hd1]; rfl)).trans hd'

/-- The same without a condition. -/
theorem exec_simulation {spec : δ → β → Option δ} {event : σ → α → σ → List β} {R : σ → δ → Prop}
    (hstep : ∀ s a s' d, R s d → step s a = some s' → ∃ d', exec spec d (event s a s') = some d' ∧
      R s' d')
    {d : δ} (hinit : R s d) (hrun : exec step s as = some s') :
    ∃ d', exec spec d (trace step event s as) = some d' ∧ R s' d' :=
  exec_simulation_under (C := fun _ _ => True) (fun s a s' d hrel _ => hstep s a s' d hrel) hinit
    (all_steps_of_forall (fun _ _ => trivial) s as) hrun

end Transition
