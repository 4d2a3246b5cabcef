import FullhanRtos.Timers.Check

/-!
# A call of `rt_timer_check`

The hard check when the timeout functions do nothing to timers. The list has one row, as
`RT_TIMER_SKIP_LIST_LEVEL` is 1, and the tick stands still while interrupts are disabled.
-/

namespace FullhanRtos.Timers

open SkipList List

set_option linter.unusedSectionVars false

variable {τ : Type} [DecidableEq τ]

def oneRow (mask : BitVec 32) : TimerConfig := ⟨1, Nat.one_pos, mask⟩

def rtTimerCheck (mask : BitVec 32) : Nat → TimerSys τ → Option (List τ)
  | 0, _ => none
  | fuel + 1, s =>
    let x := hardNext ⟨s, .idle, .idle⟩ s.tick
    match x.hard with
    | .calling t => (exitTimer (oneRow mask) x.sys t).bind fun s =>
      (rtTimerCheck mask fuel s).map (t :: ·)
    | _ => some []

def hardList (s : TimerSys τ) : List τ := bottom (s.rows false)

/-- The deadline is still to come. -/
def Ahead (s : TimerSys τ) (t : τ) : Prop := remaining s t ≠ 0#32 ∧ remaining s t < tickMaxHalf

/-- The check starts the timer again. -/
abbrev Restarts (s : TimerSys τ) (t : τ) : Prop :=
  (s.timer t).periodic = true ∧ (s.timer t).activated = true

def GoesBehind (s : TimerSys τ) (t u : τ) : Prop :=
  (s.tick - (s.timer u).timeoutTick).toNat + (s.timer t).initTick.toNat ≤ 2147483649

/-- Of these timers, one that is started again goes behind the others, and has a period. -/
def PeriodsOk (s : TimerSys τ) (ps : List τ) : Prop :=
  ps.Pairwise (fun t u => Restarts s t → GoesBehind s t u) ∧
    ∀ t ∈ ps, Restarts s t → (s.timer t).initTick ≠ 0#32 ∧ (s.timer t).initTick < tickMaxHalf

variable {mask : BitVec 32} {s s' : TimerSys τ} {t u : τ} {ps qs : List τ}

structure Pass (mask : BitVec 32) (s s' : TimerSys τ) (t : τ) (rest : List τ) : Prop where
  ok : RowsOk (oneRow mask) s'
  tick : s'.tick = s.tick
  other : ∀ u, u ≠ t → s'.timer u = s.timer u
  list : ¬ Restarts s t ∧ hardList s' = rest ∨
    (Restarts s t ∧ (s.timer t).initTick < tickMaxHalf) ∧ s'.timer t =
      { s.timer t with activated := true, timeoutTick := s.tick + (s.timer t).initTick } ∧
      hardList s' = place (passes s' t) t rest

theorem start_list (h : RowsOk (oneRow mask) s) (hsoft : (s.timer t).soft = false)
    (ht : t ∉ hardList s) (hrun : rtTimerStart (oneRow mask) s t = some s') :
    hardList s' = place (passes s' t) t (hardList s) := by
  obtain ⟨row, hrow⟩ := length_eq_one_iff.mp (h.length false)
  have hlist : hardList s = row := by
    rw [hardList, hrow]
    rfl
  have hnodup : row.Nodup := (h.nested false).nodup row (by simp [hrow])
  rw [hlist] at ht ⊢
  obtain ⟨-, hrun⟩ := Option.ite_none_right_eq_some.mp hrun
  cases hrun
  obtain ⟨-, -, hself, -⟩ := prepared_ok (t := t) h
  generalize hp : setTimeout (deactivate s t) t = p at hself ⊢
  have hrows : p.rows false = [row] := by
    rw [← hp]
    show eraseRows t (s.rows false) = _
    rw [hrow, eraseRows, map_singleton, erase_of_not_mem ht]
  have hpsoft : (p.timer t).soft = false := by rw [hself, hsoft]
  have hpasses : passes ((insertTimer (oneRow mask) p t).update t
      fun timer => { timer with activated := true }) t = passes p t := by
    funext u
    unfold passes
    by_cases hu : u = t
    · rw [hu]
      simp
    · rw [update_self, update_other hu]
      rfl
  rw [hpasses, ← insert_behind_eq_place hnodup]
  simp [hardList, insertTimer, hpsoft, hrows, heads, insertRows, walk, behind, walk_from_eq, bottom]

/-- What a pass does: it fails only on a period that is too long. -/
theorem exit_pass {rest : List τ} (h : RowsOk (oneRow mask) s) (hlist : hardList s = t :: rest) :
    (exitTimer (oneRow mask) (rtTimerRemove s t) t = none →
      Restarts s t ∧ ¬ (s.timer t).initTick < tickMaxHalf) ∧
    ∀ s', exitTimer (oneRow mask) (rtTimerRemove s t) t = some s' → Pass mask s s' t rest := by
  have hmem : t ∈ hardList s := by simp [hlist]
  have hnodup : (hardList s).Nodup := (h.nested false).nodup _ (bottom_mem h.ne_nil)
  have hrest : hardList (deactivate s t) = rest := by
    show bottom (eraseRows t (s.rows false)) = rest
    rw [bottom_erase, show bottom (s.rows false) = t :: rest from hlist, erase_cons_head]
  have hother : ∀ u, u ≠ t → (deactivate s t).timer u = s.timer u := fun u hu => update_other hu
  have hself : (deactivate s t).timer t = { s.timer t with activated := false } := update_self
  have hexit : exitTimer (oneRow mask) (rtTimerRemove s t) t =
      if Restarts s t then rtTimerStart (oneRow mask) (deactivate s t) t
      else some (deactivate s t) := rfl
  rw [hexit]
  by_cases hrestarts : Restarts s t
  · rw [if_pos hrestarts]
    refine ⟨fun hnone => ⟨hrestarts, fun htime => ?_⟩, fun s' hrun => ?_⟩
    · unfold rtTimerStart at hnone
      rw [hself, if_pos htime] at hnone
      cases hnone
    · have hspec := start_spec h.deactivate hrun
      have htime := hspec.time
      have hnew := hspec.self
      rw [hself] at htime hnew
      refine ⟨hspec.ok, hspec.tick, fun u hu => (hspec.other u hu).trans (hother u hu),
        .inr ⟨⟨hrestarts, htime⟩, hnew, ?_⟩⟩
      rw [start_list h.deactivate ?_ ?_ hrun, hrest]
      · rw [hself]
        exact h.kind false t hmem
      · rw [hrest]
        exact (nodup_cons.mp (hlist ▸ hnodup)).1
  · rw [if_neg hrestarts]
    refine ⟨nofun, fun s' hrun => ?_⟩
    cases hrun
    exact ⟨h.deactivate, rfl, hother, .inl ⟨hrestarts, hrest⟩⟩

theorem check_stop {fuel : Nat} (h : ∀ t ∈ (hardList s).head?, due s s.tick t = false) :
    rtTimerCheck mask (fuel + 1) s = some [] := by
  unfold rtTimerCheck hardNext
  cases hhead : (bottom (s.rows false)).head? with
  | none => rfl
  | some t => simp [h t hhead]

theorem check_pass {fuel : Nat} {rest : List τ} (hlist : hardList s = t :: rest)
    (hdue : due s s.tick t = true) : rtTimerCheck mask (fuel + 1) s =
      (exitTimer (oneRow mask) (rtTimerRemove s t) t).bind fun s' =>
        (rtTimerCheck mask fuel s').map (t :: ·) := by
  have hhead : (bottom (s.rows false)).head? = some t := by
    rw [show bottom (s.rows false) = t :: rest from hlist]
    rfl
  simp [rtTimerCheck, hardNext, hhead, hdue]

/-- The timers that are due are in front of those ahead. -/
structure Split (mask : BitVec 32) (s : TimerSys τ) (ps qs : List τ) : Prop where
  ok : RowsOk (oneRow mask) s
  list : hardList s = ps ++ qs
  now : ∀ t ∈ ps, due s s.tick t = true
  ahead : ∀ t ∈ qs, Ahead s t

theorem due_congr (htick : s'.tick = s.tick) (hu : s'.timer u = s.timer u) :
    due s' s'.tick u = due s s.tick u ∧ (Ahead s' u ↔ Ahead s u) := by
  unfold due Ahead remaining
  rw [htick, hu]
  exact ⟨rfl, Iff.rfl⟩

theorem not_due_of_ahead (h : Ahead s t) : due s s.tick t = false := by
  obtain ⟨h1, h2⟩ := h
  unfold remaining tickMaxHalf at *
  unfold due tickMaxHalf
  rw [decide_eq_false_iff_not]
  bv_omega

/-- A timer that was just started again goes past the timers that it goes behind, and past no timer
that is ahead if it has no period. -/
theorem passes_due {rest : List τ} (h : Pass mask s s' t rest) (hnew : (s'.timer t).timeoutTick =
    s.tick + (s.timer t).initTick) (htime : (s.timer t).initTick < tickMaxHalf) (hu : u ≠ t) :
    (due s s.tick u = true → (passes s' t u = true ↔ GoesBehind s t u)) ∧
      (Ahead s u → (s.timer t).initTick = 0#32 → passes s' t u = false) := by
  unfold passes
  rw [hnew, h.other u hu]
  unfold Ahead remaining GoesBehind due
  unfold tickMaxHalf at *
  dsimp only
  generalize (s.timer u).timeoutTick = d
  generalize (s.timer t).initTick = i at *
  generalize s.tick = k
  constructor
  · intro hdue
    have hdue := of_decide_eq_true hdue
    split
    · simp
      bv_omega
    · split <;> simp <;> bv_omega
  · rintro ⟨h1, h2⟩ rfl
    rw [BitVec.add_zero, if_neg h1, if_pos h2]

theorem ahead_of_period {rest : List τ} (h : Pass mask s s' t rest)
    (hnew : (s'.timer t).timeoutTick = s.tick + (s.timer t).initTick)
    (htime : (s.timer t).initTick < tickMaxHalf) (hzero : (s.timer t).initTick ≠ 0#32) :
    Ahead s' t := by
  unfold Ahead remaining
  rw [hnew, h.tick]
  exact ⟨by bv_omega, by bv_omega⟩

theorem mem_place {passes : τ → Bool} {row : List τ} (h : u ∈ place passes t row) :
    u = t ∨ u ∈ row := by
  rw [← takeWhile_append_dropWhile (p := passes) (l := row)]
  simp only [place, mem_append, mem_cons] at h ⊢
  tauto

theorem Split.nodup (h : Split mask s ps qs) : (ps ++ qs).Nodup :=
  h.list ▸ (h.ok.nested false).nodup _ (bottom_mem h.ok.ne_nil)

theorem Split.pass (h : Split mask s (t :: ps) qs)
    (htime : Restarts s t → (s.timer t).initTick < tickMaxHalf)
    (hbehind : Restarts s t → ∀ u ∈ ps, GoesBehind s t u) :
    ∃ s' qs', exitTimer (oneRow mask) (rtTimerRemove s t) t = some s' ∧
      Pass mask s s' t (ps ++ qs) ∧
      Split mask s' (if Restarts s t ∧ (s.timer t).initTick = 0#32 then ps ++ [t] else ps) qs' := by
  obtain ⟨hfail, hpass⟩ := exit_pass h.ok (h.list.trans (cons_append ..))
  have hne : ∀ u ∈ ps ++ qs, u ≠ t := fun u hu heq => (nodup_cons.mp h.nodup).1 (heq ▸ hu)
  cases hexit : exitTimer (oneRow mask) (rtTimerRemove s t) t with
  | none => exact absurd (htime (hfail hexit).1) (hfail hexit).2
  | some s' =>
    have hp := hpass s' hexit
    have hdue : ∀ u ∈ ps, due s' s'.tick u = true := fun u hu => by
      rw [(due_congr hp.tick (hp.other u (hne u (mem_append_left _ hu)))).1]
      exact h.now u (mem_cons_of_mem _ hu)
    have hahead : ∀ u ∈ qs, Ahead s' u := fun u hu =>
      (due_congr hp.tick (hp.other u (hne u (mem_append_right _ hu)))).2.mpr (h.ahead u hu)
    rcases hp.list with ⟨hnot, hlist⟩ | ⟨⟨hrestarts, hlt⟩, hself, hlist⟩
    · rw [if_neg fun hzero => hnot hzero.1]
      exact ⟨s', qs, rfl, hp, hp.ok, hlist, hdue, hahead⟩
    · have hnew : (s'.timer t).timeoutTick = s.tick + (s.timer t).initTick := by rw [hself]
      have hpassed : ∀ u ∈ ps, passes s' t u = true := fun u hu =>
        ((passes_due hp hnew hlt (hne u (mem_append_left _ hu))).1
          (h.now u (mem_cons_of_mem _ hu))).mpr (hbehind hrestarts u hu)
      have hplace : place (passes s' t) t (ps ++ qs) = ps ++ place (passes s' t) t qs := by
        rw [place, takeWhile_append_of_pos hpassed, dropWhile_append_of_pos hpassed, place,
          append_assoc]
      rw [hplace] at hlist
      by_cases hzero : (s.timer t).initTick = 0#32
      · rw [if_pos ⟨hrestarts, hzero⟩]
        have hnone : ∀ u ∈ qs, passes s' t u = false := fun u hu =>
          (passes_due hp hnew hlt (hne u (mem_append_right _ hu))).2 (h.ahead u hu) hzero
        refine ⟨s', qs, rfl, hp, hp.ok, ?_, fun u hu => ?_, hahead⟩
        · have hlast : place (passes s' t) t qs = t :: qs := by
            cases qs with
            | nil => rfl
            | cons q qs => simp [place, hnone q mem_cons_self]
          rw [hlist, hlast, append_assoc, singleton_append]
        · rcases mem_append.mp hu with hu | hu
          · exact hdue u hu
          · cases mem_singleton.mp hu
            unfold due
            rw [hnew, hzero, hp.tick, BitVec.add_zero, BitVec.sub_self]
            rfl
      · rw [if_neg fun h => hzero h.2]
        refine ⟨s', _, rfl, hp, hp.ok, hlist, hdue, fun u hu => ?_⟩
        rcases mem_place hu with rfl | hu
        · exact ahead_of_period hp hnew hlt hzero
        · exact hahead u hu

theorem Split.stop (h : Split mask s [] qs) {fuel : Nat} :
    rtTimerCheck mask (fuel + 1) s = some [] :=
  check_stop fun t ht => not_due_of_ahead (h.ahead t (by
    have := mem_of_head? ht
    rwa [h.list, nil_append] at this))

theorem PeriodsOk.congr (htick : s'.tick = s.tick) (hsame : ∀ u ∈ ps, s'.timer u = s.timer u) :
    PeriodsOk s' ps ↔ PeriodsOk s ps := by
  unfold PeriodsOk Restarts GoesBehind
  rw [htick]
  exact and_congr (Pairwise.iff_of_mem fun ht hu => by rw [hsame _ ht, hsame _ hu])
    (forall₂_congr fun u hu => by rw [hsame u hu])

/-- With good periods the call ends and fires all timers that are due. -/
theorem Split.right (h : Split mask s ps qs) (hgood : PeriodsOk s ps) :
    ∃ fuel fired, rtTimerCheck mask fuel s = some fired ∧ ∀ t ∈ ps, t ∈ fired := by
  induction ps generalizing s qs with
  | nil => exact ⟨1, [], h.stop, nofun⟩
  | cons t ps ih =>
    obtain ⟨hpair, hperiod⟩ := hgood
    obtain ⟨hbehind, hpair⟩ := pairwise_cons.mp hpair
    obtain ⟨ht, hperiod⟩ := forall_mem_cons.mp hperiod
    obtain ⟨s', qs', hexit, hp, hsplit⟩ := h.pass (fun hr => (ht hr).2) fun hr u hu =>
      hbehind u hu hr
    rw [if_neg fun hzero => (ht hzero.1).1 hzero.2] at hsplit
    have hsame : ∀ u ∈ ps, s'.timer u = s.timer u := fun u hu =>
      hp.other u fun heq => (nodup_cons.mp h.nodup).1 (heq ▸ mem_append_left _ hu)
    obtain ⟨fuel, fired, hrun, hall⟩ :=
      ih hsplit ((PeriodsOk.congr hp.tick hsame).mpr ⟨hpair, hperiod⟩)
    refine ⟨fuel + 1, t :: fired, ?_, forall_mem_cons.mpr ⟨mem_cons_self, fun u hu =>
      mem_cons_of_mem _ (hall u hu)⟩⟩
    rw [check_pass (h.list.trans (cons_append ..)) (h.now t mem_cons_self), hexit, Option.bind_some,
      hrun]
    rfl

end FullhanRtos.Timers
