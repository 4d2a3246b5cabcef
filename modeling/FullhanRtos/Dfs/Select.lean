import FullhanRtos.Dfs.Poll
import Mathlib.Data.Finset.Card
import Mathlib.Data.List.ProdSigma

/-!
# `select`

The three sets become one list for `poll`, and its results are split into the sets again.
-/

namespace FullhanRtos.Dfs

open List

inductive SelectSet where
  | readfds | writefds | exceptfds
  deriving DecidableEq

/-- The arguments; a set may be `NULL`. -/
abbrev SelectSets := SelectSet → Option (Finset Nat)

def SelectSets.bits (sets : SelectSets) (k : SelectSet) : Finset Nat := (sets k).getD ∅

def SelectSets.total (sets : SelectSets) : Nat :=
  (sets.bits .readfds).card + (sets.bits .writefds).card + (sets.bits .exceptfds).card

theorem SelectSets.card_le_total (sets : SelectSets) (k : SelectSet) :
    (sets.bits k).card ≤ sets.total := by
  unfold total
  cases k <;> omega

def SelectSet.asked : SelectSet → List PollEvent
  | .readfds => [.pollin]
  | .writefds => [.pollout]
  | .exceptfds => []

/-- The events that are reported unasked and put a descriptor into the set, too. -/
def SelectSet.unasked : SelectSet → List PollEvent
  | .readfds => [.pollhup]
  | .writefds => []
  | .exceptfds => [.pollerr]

/-- An event of a set, as `pollset[ndx].revents & (POLLIN | POLLHUP)`. -/
abbrev SelectSet.Ready (k : SelectSet) (mask : PollMask) : Prop :=
  ∃ e ∈ k.asked ++ k.unasked, e ∈ mask

/-- Sets are cleared by words. -/
def fdszero (nfds : Nat) (sets : SelectSets) : SelectSets := fun k =>
  (sets k).map fun s => s.filter fun fd => (nfds + 31) / 32 * 32 ≤ fd

def pollFd (sets : SelectSets) (fd : Nat) : PollFd where
  fd := fd
  events := (if fd ∈ sets.bits .readfds then {.pollin} else ∅) ∪
    if fd ∈ sets.bits .writefds then {.pollout} else ∅
  revents := ∅

def pollset (nfds : Nat) (sets : SelectSets) : List PollFd :=
  ((range nfds).filter fun fd => fd ∈ sets.bits .readfds ∨ fd ∈ sets.bits .writefds ∨
    fd ∈ sets.bits .exceptfds).map (pollFd sets)

/-- Put a descriptor into one of the sets if it is ready, and count it. -/
def markReady (o : SelectSets × Nat) (pk : PollFd × SelectSet) : SelectSets × Nat :=
  if (o.1 pk.2).isSome ∧ pk.2.Ready pk.1.revents then
    (Function.update o.1 pk.2 (some (insert pk.1.fd.toNat (o.1.bits pk.2))), o.2 + 1)
  else o

def selectResult (nfds : Nat) (sets : SelectSets) :
    Option (Nat × List PollFd) → SelectSets × Int
  | none => (fdszero nfds sets, -1)
  | some (num, fds) =>
    if 0 < num then
      let o := (fds ×ˢ [.readfds, .writefds, .exceptfds]).foldl markReady (fdszero nfds sets, 0)
      (o.1, o.2)
    else (fdszero nfds sets, num)

inductive SelectReturns (w : PollWorld) (timeout : Option Nat) (nfds : Nat) (sets : SelectSets) :
    Nat → SelectSets × Int → Prop
  | noMemory (h : pollset nfds sets ≠ []) : SelectReturns w timeout nfds sets 0 (sets, -1)
  | poll {n : Nat} {s : PollState} {result : Option (Nat × List PollFd)}
      (h : PollReturns w timeout (pollset nfds sets) n s result) :
      SelectReturns w timeout nfds sets n (selectResult nfds sets result)

/-- Only what was asked for is in the sets, all of it is counted, and the result is 0 only if
nothing that was asked for is ready. -/
structure SelectRight (report : Int → Option PollMask) (nfds : Nat) (sets : SelectSets)
    (o : SelectSets × Int) : Prop where
  subset : ∀ k, o.1.bits k ⊆ sets.bits k
  total : o.2 = o.1.total
  zero : o.2 = 0 → ∀ k, ∀ fd < nfds, fd ∈ sets.bits k → ∀ mask, report fd = some mask →
    ¬ k.Ready mask

variable {w : PollWorld} {timeout : Option Nat} {nfds n : Nat} {sets : SelectSets}
  {report : Int → Option PollMask}

theorem mem_mark (o : SelectSets × Nat) (pk : PollFd × SelectSet) (k : SelectSet) (fd : Nat) :
    (((markReady o pk).1 k).isSome = (o.1 k).isSome) ∧
    (fd ∈ (markReady o pk).1.bits k ↔ fd ∈ o.1.bits k ∨
      ((o.1 k).isSome ∧ k.Ready pk.1.revents) ∧ (fd, k) = (pk.1.fd.toNat, pk.2)) := by
  unfold markReady SelectSets.bits
  split
  · rename_i h
    by_cases hk : k = pk.2
    · subst hk
      simp [h, or_comm]
    · simp [hk]
  · rename_i h
    refine ⟨rfl, (or_iff_left ?_).symm⟩
    rintro ⟨hready, heq⟩
    cases heq
    exact h hready

theorem mark_total {o : SelectSets × Nat} {pk : PollFd × SelectSet}
    (h : pk.1.fd.toNat ∉ o.1.bits pk.2) :
    (markReady o pk).1.total + o.2 = o.1.total + (markReady o pk).2 ∧ o.2 ≤ (markReady o pk).2 ∧
      ((markReady o pk).2 = o.2 → ¬ ((o.1 pk.2).isSome ∧ pk.2.Ready pk.1.revents)) := by
  unfold markReady
  split
  · rename_i hready
    have hcard := Finset.card_insert_of_notMem h
    refine ⟨?_, Nat.le_succ _, fun hsame => absurd hsame (Nat.succ_ne_self _)⟩
    obtain ⟨p, k⟩ := pk
    cases k <;> simp [SelectSets.total, SelectSets.bits] at hcard ⊢ <;> omega
  · rename_i hready
    exact ⟨rfl, Nat.le_refl _, fun _ => hready⟩

theorem mark_loop (l : List (PollFd × SelectSet)) (o : SelectSets × Nat)
    (hnodup : (l.map fun pk => (pk.1.fd.toNat, pk.2)).Nodup)
    (hfresh : ∀ pk ∈ l, pk.1.fd.toNat ∉ o.1.bits pk.2) :
    (∀ k fd, fd ∈ (l.foldl markReady o).1.bits k ↔ fd ∈ o.1.bits k ∨
      ∃ p, (p, k) ∈ l ∧ ((o.1 k).isSome ∧ k.Ready p.revents) ∧ fd = p.fd.toNat) ∧
    (l.foldl markReady o).1.total + o.2 = o.1.total + (l.foldl markReady o).2 ∧
    o.2 ≤ (l.foldl markReady o).2 ∧
    ((l.foldl markReady o).2 = o.2 → ∀ pk ∈ l,
      ¬ ((o.1 pk.2).isSome ∧ pk.2.Ready pk.1.revents)) := by
  induction l generalizing o with
  | nil => simp
  | cons pk l ih =>
    obtain ⟨hnot, hnodup⟩ := nodup_cons.mp hnodup
    have hmem := mem_mark o pk
    obtain ⟨htotal, hle, hcount⟩ := mark_total (hfresh pk mem_cons_self)
    obtain ⟨ih1, ih2, ih3, ih4⟩ := ih (markReady o pk) hnodup fun q hq hin => by
      rcases (hmem q.2 q.1.fd.toNat).2.mp hin with hin | ⟨-, heq⟩
      · exact hfresh q (mem_cons_of_mem _ hq) hin
      · exact hnot (mem_map.mpr ⟨q, hq, heq⟩)
    rw [foldl_cons]
    refine ⟨fun k fd => ?_, by omega, by omega, fun hsame q hq => ?_⟩
    · rw [ih1, (hmem k fd).2, (hmem k fd).1]
      refine or_assoc.trans (or_congr_right ⟨?_, ?_⟩)
      · rintro (⟨hready, heq⟩ | ⟨p, hp, hrest⟩)
        · cases heq
          exact ⟨pk.1, mem_cons_self, hready, rfl⟩
        · exact ⟨p, mem_cons_of_mem _ hp, hrest⟩
      · rintro ⟨p, hp, hready, rfl⟩
        rcases mem_cons.mp hp with rfl | hp
        · exact .inl ⟨hready, rfl⟩
        · exact .inr ⟨p, hp, hready, rfl⟩
    · rcases mem_cons.mp hq with rfl | hq
      · exact hcount (by omega)
      · rw [← (hmem q.2 0).1]
        exact ih4 (by omega) q hq

/-- Where every report is there, the scan finds of a descriptor what its sets asked for, and what is
reported unasked. -/
theorem ready_iff {mask : PollMask} {fd : Nat} (h : report fd = some mask) (k : SelectSet) :
    k.Ready (doPollfd report (pollFd sets fd)) ↔
      fd ∈ sets.bits k ∧ (∃ e ∈ k.asked, e ∈ mask) ∨ ∃ e ∈ k.unasked, e ∈ mask := by
  have hin : ∀ e : PollEvent, e ∈ (pollFd sets fd).events ↔
      fd ∈ sets.bits .readfds ∧ e = .pollin ∨ fd ∈ sets.bits .writefds ∧ e = .pollout := by
    intro e
    unfold pollFd
    split <;> split <;> simp [*]
  have hfd : 0 ≤ (pollFd sets fd).fd := Int.natCast_nonneg fd
  have hmask : report (pollFd sets fd).fd = some mask := h
  cases k <;> simp [doPollfd, hmask, hfd, hin, SelectSet.Ready, SelectSet.asked, SelectSet.unasked,
    and_comm]

theorem mem_fdszero {k : SelectSet} {fd : Nat} : fd ∈ (fdszero nfds sets).bits k ↔
    fd ∈ sets.bits k ∧ (nfds + 31) / 32 * 32 ≤ fd := by
  unfold SelectSets.bits fdszero
  cases sets k <;> simp

theorem mark_none {l : List (PollFd × SelectSet)} {o : SelectSets × Nat}
    (h : ∀ pk ∈ l, pk.1.revents = ∅) : l.foldl markReady o = o := by
  induction l with
  | nil => rfl
  | cons pk l ih =>
    obtain ⟨hnone, hrest⟩ := forall_mem_cons.mp h
    have hsame : markReady o pk = o := by simp [markReady, SelectSet.Ready, hnone]
    rw [foldl_cons, hsame, ih hrest]

/-- No set has bits in the words behind the descriptors, and a descriptor of any set that reports an
event which another set does not ask for is in that set, if it is given. -/
def SelectCond (report : Int → Option PollMask) (nfds : Nat) (sets : SelectSets) : Prop :=
  (∀ k, ∀ fd ∈ sets.bits k, fd < (nfds + 31) / 32 * 32) ∧
    ∀ k, (sets k).isSome → ∀ fd < nfds, (∃ j, fd ∈ sets.bits j) → ∀ mask, report fd = some mask →
      (∃ e ∈ k.unasked, e ∈ mask) → fd ∈ sets.bits k

section

variable (nfds sets report)

def scanned : List (PollFd × SelectSet) :=
  ((pollset nfds sets).map fun p => { p with revents := doPollfd report p }) ×ˢ
    [.readfds, .writefds, .exceptfds]

variable {nfds sets report}

theorem mem_pollset {p : PollFd} : p ∈ pollset nfds sets ↔
    ∃ fd < nfds, (∃ k, fd ∈ sets.bits k) ∧ pollFd sets fd = p := by
  have hany : ∀ fd, (∃ k, fd ∈ sets.bits k) ↔ fd ∈ sets.bits .readfds ∨ fd ∈ sets.bits .writefds ∨
      fd ∈ sets.bits .exceptfds := by
    refine fun fd => ⟨?_, ?_⟩
    · rintro ⟨_ | _ | _, h⟩ <;> simp [h]
    · rintro (h | h | h) <;> exact ⟨_, h⟩
  simp [pollset, hany, and_assoc]

theorem mem_scanned {p : PollFd} {k : SelectSet} : (p, k) ∈ scanned nfds sets report ↔
    ∃ fd < nfds, (∃ j, fd ∈ sets.bits j) ∧
      { pollFd sets fd with revents := doPollfd report (pollFd sets fd) } = p := by
  have hk : k ∈ [SelectSet.readfds, .writefds, .exceptfds] := by cases k <;> decide
  simp only [scanned, mem_product, hk, and_true, mem_map, mem_pollset]
  constructor
  · rintro ⟨_, ⟨fd, hlt, hany, rfl⟩, rfl⟩
    exact ⟨fd, hlt, hany, rfl⟩
  · rintro ⟨fd, hlt, hany, rfl⟩
    exact ⟨_, ⟨fd, hlt, hany, rfl⟩, rfl⟩

theorem scanned_nodup : ((scanned nfds sets report).map fun pk => (pk.1.fd.toNat, pk.2)).Nodup := by
  refine Nodup.map_on ?_ (Nodup.product ?_ (by decide))
  · rintro ⟨p, k⟩ hp ⟨q, j⟩ hq heq
    obtain ⟨fd, -, -, rfl⟩ := mem_scanned.mp hp
    obtain ⟨fd', -, -, rfl⟩ := mem_scanned.mp hq
    obtain ⟨rfl, rfl⟩ : fd = fd' ∧ k = j := by simpa [pollFd] using heq
    rfl
  · rw [pollset, map_map]
    refine (nodup_range.filter _).map fun fd fd' heq => ?_
    exact Int.natCast_inj.mp (congrArg PollFd.fd heq)

end

theorem loop_right_iff (hfiles : ∀ p ∈ pollset nfds sets, doPollfd report p ≠ {.pollnval})
    {o : SelectSets × Nat}
    (ho : (scanned nfds sets report).foldl markReady (fdszero nfds sets, 0) = o) :
    SelectRight report nfds sets (o.1, o.2) ↔ SelectCond report nfds sets := by
  obtain ⟨hmem, htotal, -, hcount⟩ := mark_loop (scanned nfds sets report) (fdszero nfds sets, 0)
    scanned_nodup fun pk hpk hin => by
      obtain ⟨fd, hlt, -, heq⟩ := mem_scanned.mp hpk
      have hle := (mem_fdszero.mp hin).2
      rw [← heq] at hle
      simp only [pollFd, Int.toNat_natCast] at hle
      omega
  rw [ho] at hmem htotal hcount
  have hsome : ∀ k, (fdszero nfds sets k).isSome = (sets k).isSome := fun k => by
    simp [fdszero]
  -- what the loop adds to the sets
  have hadd : ∀ k fd, (∃ p, (p, k) ∈ scanned nfds sets report ∧
      ((sets k).isSome ∧ k.Ready p.revents) ∧ fd = p.fd.toNat) ↔
      fd < nfds ∧ (∃ j, fd ∈ sets.bits j) ∧ (sets k).isSome ∧ ∃ mask, report fd = some mask ∧
        (fd ∈ sets.bits k ∧ (∃ e ∈ k.asked, e ∈ mask) ∨ ∃ e ∈ k.unasked, e ∈ mask) := by
    intro k fd
    constructor
    · rintro ⟨p, hp, ⟨hk, hready⟩, rfl⟩
      obtain ⟨fd, hlt, hany, rfl⟩ := mem_scanned.mp hp
      obtain ⟨mask, hmask⟩ : ∃ mask, report fd = some mask := by
        have hfile := hfiles _ (mem_pollset.mpr ⟨fd, hlt, hany, rfl⟩)
        cases h : report fd with
        | none => simp [doPollfd, pollFd, h] at hfile
        | some mask => exact ⟨mask, rfl⟩
      exact ⟨hlt, hany, hk, mask, hmask, (ready_iff hmask k).mp hready⟩
    · rintro ⟨hlt, hany, hk, mask, hmask, hready⟩
      exact ⟨_, mem_scanned.mpr ⟨fd, hlt, hany, rfl⟩, ⟨hk, (ready_iff hmask k).mpr hready⟩, rfl⟩
  simp only [hsome, hadd, mem_fdszero] at hmem
  constructor
  · rintro ⟨hsub, hret, -⟩
    refine ⟨fun k fd hfd => ?_, fun k hk fd hlt hany mask hmask hun =>
      hsub k ((hmem k fd).mpr (.inr ⟨hlt, hany, hk, mask, hmask, .inr hun⟩))⟩
    by_contra hle
    have hin : fd ∈ (fdszero nfds sets).bits k := mem_fdszero.mpr ⟨hfd, by omega⟩
    have hpos := Finset.card_pos.mpr ⟨fd, hin⟩
    have hcard := (fdszero nfds sets).card_le_total k
    dsimp only at hret htotal
    omega
  · rintro ⟨hwords, hun⟩
    refine ⟨fun k fd hfd => ?_, ?_, fun hzero k fd hlt hfd mask hmask hready => ?_⟩
    · rcases (hmem k fd).mp hfd with h | ⟨hlt, hany, hk, mask, hmask, h | h⟩
      · exact h.1
      · exact h.1
      · exact hun k hk fd hlt hany mask hmask h
    · have hnone : ∀ k, (fdszero nfds sets).bits k = ∅ := fun k =>
        Finset.eq_empty_of_forall_notMem fun fd hin => by
          obtain ⟨hfd, hle⟩ := mem_fdszero.mp hin
          exact absurd (hwords k fd hfd) (Nat.not_lt.mpr hle)
      simp only [SelectSets.total, hnone, Finset.card_empty] at htotal ⊢
      omega
    · have hk : (sets k).isSome := by
        unfold SelectSets.bits at hfd
        cases h : sets k with
        | none => simp [h] at hfd
        | some s => rfl
      obtain ⟨e, he, hin⟩ := hready
      obtain ⟨p, hp, hmarked, -⟩ := (hadd k fd).mpr ⟨hlt, ⟨k, hfd⟩, hk, mask, hmask,
        (mem_append.mp he).imp (fun he => ⟨hfd, e, he, hin⟩) fun he => ⟨e, he, hin⟩⟩
      exact hcount (Int.natCast_inj.mp hzero) (p, k) hp ((hsome k).symm ▸ hmarked)

/-- `select` is right exactly if the sets have no bits behind the descriptors, and a descriptor that
reports `POLLHUP` is in `readfds`, and one that reports `POLLERR` in `exceptfds`. -/
theorem select_right_iff {o : SelectSets × Int} (h : SelectReturns w timeout nfds sets n o)
    (hret : 0 ≤ o.2) :
    SelectRight (w.report n) nfds sets o ↔ SelectCond (w.report n) nfds sets := by
  cases h with
  | noMemory => exact absurd hret (by simp)
  | @poll n s result h =>
    cases result with
    | none => exact absurd hret (by simp [selectResult])
    | some result =>
      obtain ⟨num, fds⟩ := result
      obtain ⟨rfl, hnum, hfiles⟩ := scan_eq (exit_scan h.2).1
      unfold selectResult
      dsimp only
      split
      · exact loop_right_iff hfiles rfl
      · rename_i hzero
        have hnum : num = 0 := by omega
        subst hnum
        refine loop_right_iff (o := (fdszero nfds sets, 0)) hfiles (mark_none ?_)
        rintro ⟨p, k⟩ hp
        have hnone := countP_eq_zero.mp hnum.symm p (mem_product.mp hp).1
        simpa using hnone

def maskWorld (mask : PollMask) : PollWorld where
  report := fun _ _ => some mask
  busy := fun _ => 1
  wake := fun _ => none

def twoSets (readfds writefds : Finset Nat) : SelectSets
  | .readfds => some readfds
  | .writefds => some writefds
  | .exceptfds => none

theorem readable_selected : ∃ o, SelectReturns (maskWorld {.pollin}) none 4 (twoSets {3} ∅) 0 o ∧
    (SelectRight (fun _ => some {.pollin}) 4 (twoSets {3} ∅) o ↔
      SelectCond (fun _ => some {.pollin}) 4 (twoSets {3} ∅)) := by
  have h := @SelectReturns.poll (maskWorld {.pollin}) none 4 (twoSets {3} ∅) 0 ⟨false, false, 0⟩ _
    ⟨rfl, rfl⟩
  exact ⟨_, h, select_right_iff h (by decide)⟩

/-- A descriptor that only `writefds` has is put into `readfds` when it hangs up. -/
theorem hung_up_selected : ∃ o, SelectReturns (maskWorld {.pollhup}) none 4 (twoSets ∅ {3}) 0 o ∧
    o.2 = 1 ∧ ¬ SelectRight (fun _ => some {.pollhup}) 4 (twoSets ∅ {3}) o := by
  refine ⟨_, .poll (s := ⟨false, false, 0⟩) ⟨rfl, rfl⟩, rfl, fun h => ?_⟩
  exact absurd (h.subset .readfds (x := 3) (by decide)) (by decide)

end FullhanRtos.Dfs
