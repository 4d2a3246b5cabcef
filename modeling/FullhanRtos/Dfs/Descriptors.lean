import FullhanRtos.Lib.Holders
import FullhanRtos.Lib.Transition
import Mathlib.Data.List.Nodup

/-!
# The descriptor table

`fd_new`, `fd_get` and `fd_put` of `fs/src/dfs.c`, and `open`, `close` and the calls on an open file
of `fs/src/dfs_posix.c`, which are made of them. Each critical section under the lock of the file
systems is one step of a thread. The structures are numbered in the order of `rt_calloc`.

`ref_count` counts the calls that work on a structure, and one more while the descriptor is open.
`descriptors_sound` says that the structures are released as they should when each `close` meets an
open descriptor that no other `close` works on.
-/

namespace FullhanRtos.Dfs

open Transition Holders Function Option Nat
open List hiding set

/-! ## The structures and the threads -/

def dfsFdMax : Nat := 256
def dfsFdOffset : Nat := 3
def maxfd : Nat := dfsFdMax - dfsFdOffset

/-- The fields of a `dfs_fd` that are read here; `fops` is whether the pointer is set. -/
structure FdStruct where
  refCount : Int
  magic : Bool
  fops : Bool

/-- Where a thread stands, with the structure that it works on. At `new` it has the number `idx` of
the descriptor, whose structure is `d`. `failing` and `putting` are in front of the first `fd_put`
at the end of a call, `failed` and `leaving` in front of the second one. -/
inductive Place where
  | idle
  | stopped
  | new (idx d : Nat)
  | opening (d : Nat)
  | failing (d : Nat)
  | failed (d : Nat)
  | opened (d : Nat)
  | inUse (d : Nat)
  | closing (d : Nat)
  | closed (d : Nat) (result : Int)
  | putting (d : Nat) (result : Int)
  | leaving (d : Nat)
  deriving DecidableEq

variable {τ : Type} [DecidableEq τ]

/-- The table with the structures, `g_current_fd`, and the threads. `released` are the structures
passed to `rt_free`, `misused` those that were used afterwards; `opened` are those whose file was
opened, `closes` those whose file `close` has closed. -/
structure FdSys (τ : Type) where
  current : Option Nat
  slots : Nat → Option Nat
  fds : Nat → FdStruct
  next : Nat
  place : τ → Place
  released : List Nat
  misused : List Nat
  opened : List Nat
  closes : List Nat

/-- What a thread does next. `room` says whether `rt_calloc` returns memory, `set` whether
`dfs_file_open` has come to set `fops` when it fails, `result` is what the file system returns, and
`console` the descriptor of the console. -/
inductive FdOp where
  | fdNew (room : Bool)
  | fdGet
  | fileOpen (ok set : Bool)
  | useGet (fd console : Int)
  | use
  | closeGet (fd console : Int)
  | fileClose (result : Int)
  | freePath
  | put

/-! ## The steps -/

/-- A thread reads or writes the structure. -/
def FdSys.touch (d : Nat) (s : FdSys τ) : FdSys τ :=
  if d ∈ s.released then { s with misused := d :: s.misused } else s

def FdSys.count (d : Nat) (refCount : Int) (s : FdSys τ) : FdSys τ :=
  { s with fds := update s.fds d { s.fds d with refCount := refCount } }

def FdSys.goto (t : τ) (p : Place) (s : FdSys τ) : FdSys τ :=
  { s with place := update s.place t p }

/-- The descriptors that `fd_alloc` looks at, in their order. -/
def candidates : Option Nat → List Nat
  | none => List.range maxfd
  | some current => range' (current + 1) (maxfd - (current + 1)) ++ List.range current

def fdSearch (s : FdSys τ) : Option Nat :=
  (candidates s.current).find? fun idx =>
    match s.slots idx with
    | none => true
    | some d => decide ((s.fds d).refCount = 0)

/-- The end of `fd_new` with a descriptor. -/
def fdFill (s : FdSys τ) (t : τ) (idx d : Nat) : FdSys τ :=
  { s with
    fds := update s.fds d { s.fds d with refCount := 1, magic := true }
    current := some idx }.goto t (.new idx d)

/-- `fd_new`; without a descriptor the call of `open` is over. -/
def fdNew (s : FdSys τ) (t : τ) (room : Bool) : FdSys τ :=
  match fdSearch s with
  | none => s
  | some idx =>
    match s.slots idx with
    | some d => fdFill s t idx d
    | none =>
      if room then
        fdFill
          { s with
            slots := update s.slots idx (some s.next)
            fds := update s.fds s.next ⟨0, false, false⟩
            next := s.next + 1 } t idx s.next
      else s

/-- The place in the table that a descriptor stands for; 0, 1 and 2 are the console. -/
def fdIndex (fd console : Int) : Option Nat :=
  let idx := (if 0 ≤ fd ∧ fd ≤ 2 then console else fd) - dfsFdOffset
  if idx < 0 ∨ maxfd ≤ idx then none else some idx.toNat

def fdFind (s : FdSys τ) (idx : Nat) : Option Nat :=
  (s.slots idx).filter fun d => (s.fds d).magic

def fdGet (s : FdSys τ) (t : τ) (found : Option Nat) (p : Nat → Place) (missed : Place) :
    FdSys τ :=
  match found with
  | none => s.goto t missed
  | some d => (s.count d ((s.fds d).refCount + 1)).goto t (p d)

/-- The end of `fd_put` for the last reference. -/
def fdRelease (s : FdSys τ) (d : Nat) : FdSys τ :=
  match (List.range dfsFdMax).find? fun idx => decide (s.slots idx = some d) with
  | none => s
  | some idx =>
    { s with released := d :: s.released, slots := update s.slots idx none }

def fdPut (s : FdSys τ) (t : τ) (d : Nat) (p : Place) : FdSys τ :=
  let s := ((s.touch d).count d ((s.fds d).refCount - 1)).goto t p
  if (s.fds d).refCount = 0 then fdRelease s d else s

/-- The structure for the next `fd_put` of a thread, and where it stands afterwards; `close` with an
error calls it only once. -/
def Place.afterPut : Place → Option (Nat × Place)
  | .failing d => some (d, .failed d)
  | .failed d | .opened d | .inUse d | .leaving d => some (d, .idle)
  | .putting d result => some (d, if result < 0 then .idle else .leaving d)
  | _ => none

/-- A step of the thread `t`. -/
def stepFd (s : FdSys τ) (op : τ × FdOp) : Option (FdSys τ) :=
  let t := op.1
  match s.place t, op.2 with
  | .idle, .fdNew room => some (fdNew s t room)
  | .new idx _, .fdGet => some (fdGet s t (fdFind s idx) .opening .stopped)
  | .opening d, .fileOpen true _ =>
    let s := s.touch d
    some ({ s with
      fds := update s.fds d { s.fds d with fops := true }
      opened := d :: s.opened }.goto t (.opened d))
  | .opening d, .fileOpen false set =>
    let s := s.touch d
    some ({ s with
      fds := update s.fds d { s.fds d with fops := (s.fds d).fops || set } }.goto t
        (.failing d))
  | .idle, .useGet fd console =>
    some (fdGet s t ((fdIndex fd console).bind (fdFind s)) .inUse .idle)
  | .inUse d, .use => some (s.touch d)
  | .idle, .closeGet fd console =>
    some (fdGet s t ((fdIndex fd console).bind (fdFind s)) .closing .idle)
  | .closing d, .fileClose returned =>
    let result := if (s.fds d).fops then returned else 0
    let s := s.touch d
    some ({ s with closes := if result < 0 then s.closes else d :: s.closes }.goto t
      (.closed d result))
  | .closed d result, .freePath => some ((s.touch d).goto t (.putting d result))
  | p, .put => p.afterPut.map fun next => fdPut s t next.1 next.2
  | _, _ => none

/-- No descriptor, and no thread in a call. -/
def noFds (τ : Type) : FdSys τ where
  current := none
  slots := fun _ => none
  fds := fun _ => ⟨0, false, false⟩
  next := 0
  place := fun _ => .idle
  released := []
  misused := []
  opened := []
  closes := []

/-! ## What is to hold -/

/-- The structure that a thread works on. -/
def Place.fd : Place → Option Nat
  | .idle | .stopped => none
  | .new _ d | .opening d | .failing d | .failed d | .opened d | .inUse d | .closing d
  | .closed d _ | .putting d _ | .leaving d => some d

/-- The structure that a thread is closing. -/
def Place.closes : Place → Option Nat
  | .closing d | .closed d _ | .putting d _ | .leaving d => some d
  | _ => none

/-- The file was opened and not closed. -/
def FdSys.IsOpen (s : FdSys τ) (d : Nat) : Prop := d ∈ s.opened ∧ d ∉ s.closes

/-- The structures are released once each, behind the last use, and a file is closed once. -/
structure Sound (s : FdSys τ) : Prop where
  released_once : s.released.Nodup
  released_last : ∀ d ∈ s.released, ∀ t, (s.place t).fd ≠ some d
  released_at_end : ∀ d < s.next, ¬ s.IsOpen d → (∀ t, (s.place t).fd ≠ some d) → d ∈ s.released
  not_misused : s.misused = []
  closed_once : s.closes.Nodup

def ClosesOpen (s : FdSys τ) : τ × FdOp → Prop
  | (_, .closeGet fd console) => ∀ d ∈ (fdIndex fd console).bind (fdFind s),
      s.IsOpen d ∧ ∀ u, (s.place u).closes ≠ some d
  | _ => True

/-! ## References -/

/-- How many references a thread has; while it opens or closes a file it has the one of the open
descriptor, too. -/
def Place.count : Place → Nat
  | .idle | .stopped => 0
  | .opening _ | .failing _ => 2
  | .closed _ result | .putting _ result => if result < 0 then 1 else 2
  | _ => 1

def Place.refs (d : Nat) (p : Place) : Nat := if p.fd = some d then p.count else 0

/-- The structure that a thread is opening. -/
def Place.opens : Place → Option Nat
  | .new _ d | .opening d | .failing d | .failed d => some d
  | _ => none

instance (s : FdSys τ) (d : Nat) : Decidable (s.IsOpen d) := inferInstanceAs (Decidable (_ ∧ _))

/-- The reference of the open descriptor. -/
def FdSys.mark (s : FdSys τ) (d : Nat) : Nat := if s.IsOpen d then 1 else 0

/-- What a thread relies on at its place. -/
def PlaceOk (s : FdSys τ) : Place → Prop
  | .new idx d => s.slots idx = some d ∧ d ∉ s.opened
  | .opening d | .failing d | .failed d => d ∉ s.opened
  | .closing d => s.IsOpen d
  | .closed d result | .putting d result => d ∈ s.opened ∧ (result < 0 → d ∉ s.closes)
  | .leaving d => d ∈ s.opened
  | _ => True

/-- The structure exists. -/
def FdSys.Live (s : FdSys τ) (d : Nat) : Prop := d < s.next ∧ d ∉ s.released

variable [Fintype τ]

def FdSys.users (s : FdSys τ) (d : Nat) : Nat := holders (Place.refs d) s.place

/-- `ref_count` counts the references, the structures in the table are those that exist, and no two
threads open or close the same one. -/
structure Counted (s : FdSys τ) : Prop where
  current_lt : ∀ idx, s.current = some idx → idx < maxfd
  slots_ok : ∀ idx d, s.slots idx = some d → s.Live d ∧ idx < maxfd ∧ (s.fds d).magic = true
  slots_inj : ∀ idx other d, s.slots idx = some d → s.slots other = some d → idx = other
  in_table : ∀ d, s.Live d → ∃ idx, s.slots idx = some d
  counted : ∀ d, s.Live d → (s.fds d).refCount = ((s.mark d + s.users d : Nat) : Int)
  live : ∀ t d, (s.place t).fd = some d → s.Live d
  places_ok : ∀ t, PlaceOk s (s.place t)
  one_opens : ∀ t u d, (s.place t).opens = some d → (s.place u).opens = some d → t = u
  one_closes : ∀ t u d, (s.place t).closes = some d → (s.place u).closes = some d → t = u
  opened_lt : ∀ d ∈ s.opened, d < s.next
  closes_opened : ∀ d ∈ s.closes, d ∈ s.opened
  closes_nodup : s.closes.Nodup
  released_lt : ∀ d ∈ s.released, d < s.next
  released_nodup : s.released.Nodup
  not_misused : s.misused = []

/-- Between two steps, every structure that exists has a reference. -/
structure FdInv (s : FdSys τ) : Prop extends Counted s where
  referenced : ∀ d, s.Live d → 0 < s.mark d + s.users d

theorem refs_eq {p : Place} {d : Nat} (h : p.fd = some d) : p.refs d = p.count := if_pos h

theorem refs_of_ne {p : Place} {d : Nat} (h : p.fd ≠ some d) : p.refs d = 0 := if_neg h

theorem count_pos {p : Place} {d : Nat} (h : p.fd = some d) : 0 < p.count := by
  cases p with
  | idle => cases h
  | stopped => cases h
  | opening _ => exact Nat.two_pos
  | failing _ => exact Nat.two_pos
  | closed _ result =>
    show 0 < if result < 0 then 1 else 2
    split <;> decide
  | putting _ result =>
    show 0 < if result < 0 then 1 else 2
    split <;> decide
  | _ => exact Nat.one_pos

theorem opens_fd {p : Place} {d : Nat} (h : p.opens = some d) : p.fd = some d := by
  cases p with
  | new _ _ | opening _ | failing _ | failed _ => exact h
  | _ => cases h

omit [DecidableEq τ] in
/-- What follows for the structures. -/
theorem FdInv.sound {s : FdSys τ} (h : FdInv s) : Sound s where
  released_once := h.released_nodup
  released_last := fun d hd t hfd => (h.live t d hfd).2 hd
  released_at_end := by
    intro d hlt hclosed hfree
    by_contra hlive
    have hpos := h.referenced d ⟨hlt, hlive⟩
    have husers : s.users d = 0 := holders_eq_zero.mpr fun t => refs_of_ne (hfree t)
    rw [FdSys.mark, if_neg hclosed, husers] at hpos
    exact absurd hpos (lt_irrefl 0)
  not_misused := h.not_misused
  closed_once := h.closes_nodup

/-! ## A step of a thread on its structure -/

/-- The thread `t` goes on to `p`; of the structures only `d` changes. -/
structure Moved (s s' : FdSys τ) (t : τ) (d : Nat) (p : Place) : Prop where
  current : s'.current = s.current
  slots : s'.slots = s.slots
  next : s'.next = s.next
  released : s'.released = s.released
  misused : s'.misused = s.misused
  place : s'.place = update s.place t p
  fds : ∀ e, e ≠ d → s'.fds e = s.fds e
  magic : (s'.fds d).magic = (s.fds d).magic
  opened : ∀ e, e ≠ d → (e ∈ s'.opened ↔ e ∈ s.opened)
  closes : ∀ e, e ≠ d → (e ∈ s'.closes ↔ e ∈ s.closes)

variable {s s' : FdSys τ} {t : τ} {d e : Nat} {p : Place}

omit [Fintype τ] in
theorem Moved.live (hm : Moved s s' t d p) (e : Nat) : s'.Live e ↔ s.Live e := by
  unfold FdSys.Live
  rw [hm.next, hm.released]

omit [Fintype τ] in
theorem Moved.mark (hm : Moved s s' t d p) (hne : e ≠ d) : s'.mark e = s.mark e := by
  have hiff : s'.IsOpen e ↔ s.IsOpen e := and_congr (hm.opened e hne) (not_congr (hm.closes e hne))
  exact if_congr hiff rfl rfl

open Place

theorem Moved.users (hm : Moved s s' t d p) (e : Nat) :
    s'.users e + (s.place t).refs e = s.users e + p.refs e := by
  unfold FdSys.users
  rw [hm.place]
  exact holders_update (refs e) s.place t p

omit [Fintype τ] in
theorem Moved.place_self (hm : Moved s s' t d p) : s'.place t = p := by
  rw [hm.place, update_self]

omit [Fintype τ] in
theorem Moved.place_of_ne (hm : Moved s s' t d p) {u : τ} (hu : u ≠ t) :
    s'.place u = s.place u := by
  rw [hm.place, update_of_ne hu]

/-- The references are counted behind a step, if `ref_count` and the references of `d` change by the
same number. -/
theorem Counted.moved (h : Counted s) (hm : Moved s s' t d p) (hlive : s.Live d)
    (hfrom : ∀ e, (s.place t).fd = some e → e = d) (hto : ∀ e, p.fd = some e → e = d)
    (hcount : (s'.fds d).refCount + ((s.mark d + (s.place t).refs d : Nat) : Int) =
      (s.fds d).refCount + ((s'.mark d + p.refs d : Nat) : Int))
    (hown : PlaceOk s' p) (hothers : ∀ u, u ≠ t → PlaceOk s (s.place u) → PlaceOk s' (s.place u))
    (hopens : ∀ e, p.opens = some e → (s.place t).opens = some e)
    (hcloses : ∀ e, p.closes = some e →
      (s.place t).closes = some e ∨ ∀ u, (s.place u).closes ≠ some e)
    (hopened : d ∈ s'.closes → d ∈ s'.opened) (hnodup : s'.closes.Nodup) : Counted s' where
  current_lt := by
    rw [hm.current]
    exact h.current_lt
  slots_ok := by
    intro idx e hslot
    rw [hm.slots] at hslot
    obtain ⟨helive, hidx, hmagic⟩ := h.slots_ok idx e hslot
    refine ⟨(hm.live e).mpr helive, hidx, ?_⟩
    by_cases he : e = d
    · rw [he, hm.magic, ← he]
      exact hmagic
    · rw [hm.fds e he]
      exact hmagic
  slots_inj := by
    rw [hm.slots]
    exact h.slots_inj
  in_table := by
    intro e he
    rw [hm.slots]
    exact h.in_table e ((hm.live e).mp he)
  counted := by
    intro e he
    have hold := h.counted e ((hm.live e).mp he)
    have husers := hm.users e
    by_cases heq : e = d
    · subst heq
      omega
    · have hfromE : (s.place t).refs e = 0 := refs_of_ne fun hfd => heq (hfrom e hfd)
      have htoE : p.refs e = 0 := refs_of_ne fun hfd => heq (hto e hfd)
      rw [hm.fds e heq, hold, hm.mark heq]
      omega
  live := by
    intro u e hfd
    by_cases hu : u = t
    · subst hu
      rw [hm.place_self] at hfd
      rw [hto e hfd]
      exact (hm.live d).mpr hlive
    · rw [hm.place_of_ne hu] at hfd
      exact (hm.live e).mpr (h.live u e hfd)
  places_ok := by
    intro u
    by_cases hu : u = t
    · subst hu
      rw [hm.place_self]
      exact hown
    · rw [hm.place_of_ne hu]
      exact hothers u hu (h.places_ok u)
  one_opens := by
    have hback : ∀ u e, (s'.place u).opens = some e → (s.place u).opens = some e := by
      intro u e hu
      by_cases heq : u = t
      · subst heq
        rw [hm.place_self] at hu
        exact hopens e hu
      · rwa [hm.place_of_ne heq] at hu
    exact fun u v e hu hv => h.one_opens u v e (hback u e hu) (hback v e hv)
  one_closes := by
    have hback : ∀ u e, u ≠ t → (s'.place u).closes = some e → p.closes = some e → False := by
      intro u e hu hcloseU hcloseT
      rw [hm.place_of_ne hu] at hcloseU
      rcases hcloses e hcloseT with hsame | hnone
      · exact hu (h.one_closes u t e hcloseU hsame)
      · exact hnone u hcloseU
    intro u v e hu hv
    by_cases hut : u = t
    · by_cases hvt : v = t
      · rw [hut, hvt]
      · rw [hut, hm.place_self] at hu
        exact (hback v e hvt hv hu).elim
    · by_cases hvt : v = t
      · rw [hvt, hm.place_self] at hv
        exact (hback u e hut hu hv).elim
      · rw [hm.place_of_ne hut] at hu
        rw [hm.place_of_ne hvt] at hv
        exact h.one_closes u v e hu hv
  opened_lt := by
    intro e he
    rw [hm.next]
    by_cases heq : e = d
    · rw [heq]
      exact hlive.1
    · exact h.opened_lt e ((hm.opened e heq).mp he)
  closes_opened := by
    intro e he
    by_cases heq : e = d
    · subst heq
      exact hopened he
    · exact (hm.opened e heq).mpr (h.closes_opened e ((hm.closes e heq).mp he))
  closes_nodup := hnodup
  released_lt := by
    rw [hm.released, hm.next]
    exact h.released_lt
  released_nodup := by
    rw [hm.released]
    exact h.released_nodup
  not_misused := hm.misused.trans h.not_misused

/-- The same with a reference of `d` left. -/
theorem FdInv.of_counted (h : FdInv s) (hm : Moved s s' t d p) (hcounted : Counted s')
    (hfrom : ∀ e, (s.place t).fd = some e → e = d) (hpos : 0 < s'.mark d + p.refs d) :
    FdInv s' := by
  refine { hcounted with referenced := fun e he => ?_ }
  have husers := hm.users e
  by_cases heq : e = d
  · subst heq
    have hle : p.refs e ≤ s'.users e := by
      have hplace := weight_le_holders (refs e) s'.place t
      rw [hm.place_self] at hplace
      exact hplace
    omega
  · have hold := h.referenced e ((hm.live e).mp he)
    have hfromE : (s.place t).refs e = 0 := refs_of_ne fun hfd => heq (hfrom e hfd)
    rw [hm.mark heq]
    omega

/-! ## The steps keep the invariant -/

omit [DecidableEq τ] [Fintype τ] in
theorem touch_live (h : s.Live d) : s.touch d = s := if_neg h.2

omit [Fintype τ] in
theorem moved_count (s : FdSys τ) (t : τ) (d : Nat) (r : Int) (p : Place) :
    Moved s ((s.count d r).goto t p) t d p where
  current := rfl
  slots := rfl
  next := rfl
  released := rfl
  misused := rfl
  place := rfl
  fds := fun _ he => update_of_ne he _ _
  magic := by
    show (update s.fds d { s.fds d with refCount := r } d).magic = _
    rw [update_self]
  opened := fun _ _ => Iff.rfl
  closes := fun _ _ => Iff.rfl

omit [Fintype τ] in
theorem count_ref_count (s : FdSys τ) (t : τ) (d : Nat) (r : Int) (p : Place) :
    (((s.count d r).goto t p).fds d).refCount = r :=
  congrArg FdStruct.refCount (update_self d _ s.fds)

omit [Fintype τ] in
theorem goto_self (h : s.place t = p) : s.goto t p = s := by
  have hplace : update s.place t p = s.place := by rw [← h, update_eq_self]
  unfold FdSys.goto
  rw [hplace]

omit [DecidableEq τ] in
theorem fd_find_live (h : FdInv s) {idx : Nat} (hfind : fdFind s idx = some d) :
    s.Live d ∧ s.slots idx = some d := by
  obtain ⟨hslot, -⟩ := filter_eq_some_iff.mp hfind
  exact ⟨(h.slots_ok idx d hslot).1, hslot⟩

theorem fd_get_ok (h : FdInv s) (hlive : s.Live d) {next : Nat → Place} (missed : Place)
    (hfrom : ∀ e, (s.place t).fd = some e → e = d) (hto : (next d).fd = some d)
    (hrefs : (next d).count = (s.place t).refs d + 1) (hown : PlaceOk s (next d))
    (hopens : ∀ e, (next d).opens = some e → (s.place t).opens = some e)
    (hcloses : ∀ e, (next d).closes = some e →
      (s.place t).closes = some e ∨ ∀ u, (s.place u).closes ≠ some e) :
    FdInv (fdGet s t (some d) next missed) := by
  have hm := moved_count s t d ((s.fds d).refCount + 1) (next d)
  have hcount := count_ref_count s t d ((s.fds d).refCount + 1) (next d)
  have hnext : (next d).refs d = (s.place t).refs d + 1 := (refs_eq hto).trans hrefs
  have hmark : ((s.count d ((s.fds d).refCount + 1)).goto t (next d)).mark d = s.mark d := rfl
  have hcounted := h.toCounted.moved hm hlive hfrom
    (fun e he => some.inj (he.symm.trans hto))
    (by rw [hcount, hnext, hmark]; omega) hown (fun u _ hu => hu) hopens hcloses
    (h.closes_opened d) h.closes_nodup
  exact h.of_counted hm hcounted hfrom (by rw [hnext]; exact Nat.add_pos_right _ (succ_pos _))

theorem file_opened_ok (h : FdInv s) (hplace : s.place t = .opening d) :
    FdInv ({ s with
      fds := update s.fds d { s.fds d with fops := true }
      opened := d :: s.opened }.goto t (.opened d)) := by
  have hlive := h.live t d (by rw [hplace]; rfl)
  have hnew : d ∉ s.opened := by
    have hok := h.places_ok t
    rw [hplace] at hok
    exact hok
  have hnotClosed : d ∉ s.closes := fun hmem => hnew (h.closes_opened d hmem)
  have hm : Moved s ({ s with
      fds := update s.fds d { s.fds d with fops := true }
      opened := d :: s.opened }.goto t (.opened d)) t d (.opened d) :=
    { current := rfl, slots := rfl, next := rfl, released := rfl, misused := rfl, place := rfl
      fds := fun _ he => update_of_ne he _ _
      magic := by
        show (update s.fds d { s.fds d with fops := true } d).magic = _
        rw [update_self]
      opened := fun e he => mem_cons.trans (or_iff_right he)
      closes := fun _ _ => Iff.rfl }
  have hmark : s.mark d = 0 := if_neg fun hopen => hnew hopen.1
  have hmark' : ({ s with
      fds := update s.fds d { s.fds d with fops := true }
      opened := d :: s.opened }.goto t (.opened d)).mark d = 1 :=
    if_pos ⟨mem_cons_self, hnotClosed⟩
  have hfrom : ∀ e, (s.place t).fd = some e → e = d := by
    intro e he
    rw [hplace] at he
    exact (some.inj he).symm
  have hrefs : (s.place t).refs d = 2 := by
    rw [hplace]
    exact refs_eq rfl
  have hrefs' : (opened d).refs d = 1 := refs_eq rfl
  have hcount : (update s.fds d { s.fds d with fops := true } d).refCount =
      (s.fds d).refCount := by rw [update_self]
  refine h.of_counted hm (h.toCounted.moved hm hlive hfrom
    (fun e he => (some.inj he).symm) ?_ trivial ?_ nofun nofun ?_ h.closes_nodup) hfrom ?_
  · rw [hmark, hmark', hrefs, hrefs']
    exact congrArg (· + _) hcount
  · -- no other thread opens the structure
    have hother : ∀ u, u ≠ t → ∀ e, (s.place u).opens = some e → e ≠ d := by
      rintro u hu e hopens rfl
      exact hu (h.one_opens u t e hopens (by rw [hplace]; rfl))
    intro u hu hok
    have hopens := hother u hu
    cases hp : s.place u with
    | new idx e =>
      rw [hp] at hok hopens
      exact ⟨hok.1, not_mem_cons_of_ne_of_not_mem (hopens e rfl) hok.2⟩
    | opening e | failing e | failed e =>
      rw [hp] at hok hopens
      exact not_mem_cons_of_ne_of_not_mem (hopens e rfl) hok
    | closing e | closed e result | putting e result =>
      rw [hp] at hok
      exact ⟨mem_cons_of_mem d hok.1, hok.2⟩
    | leaving e =>
      rw [hp] at hok
      exact mem_cons_of_mem d hok
    | idle | stopped | opened e | inUse e => trivial
  · exact fun _ => mem_cons_self
  · rw [hmark']
    exact Nat.add_pos_left Nat.one_pos _

/-- A step that changes nothing but the place, and no reference. -/
theorem goto_ok (h : FdInv s) {fops : Bool} (hfd : (s.place t).fd = some d) (hto : p.fd = some d)
    (hrefs : p.count = (s.place t).count) (hown : PlaceOk s p)
    (hopens : p.opens = (s.place t).opens) (hcloses : p.closes = (s.place t).closes) :
    FdInv ({ s with fds := update s.fds d { s.fds d with fops := fops } }.goto t p) := by
  have hlive := h.live t d hfd
  have hm : Moved s
      ({ s with fds := update s.fds d { s.fds d with fops := fops } }.goto t p) t d p :=
    { current := rfl, slots := rfl, next := rfl, released := rfl, misused := rfl, place := rfl
      fds := fun _ he => update_of_ne he _ _
      magic := by
        show (update s.fds d { s.fds d with fops := fops } d).magic = _
        rw [update_self]
      opened := fun _ _ => Iff.rfl
      closes := fun _ _ => Iff.rfl }
  have hfrom : ∀ e, (s.place t).fd = some e → e = d := fun e he =>
    some.inj (he.symm.trans hfd)
  have hsame : p.refs d = (s.place t).refs d := by
    rw [refs_eq hto, refs_eq hfd, hrefs]
  have hcount : (update s.fds d { s.fds d with fops := fops } d).refCount =
      (s.fds d).refCount := by rw [update_self]
  refine h.of_counted hm (h.toCounted.moved hm hlive hfrom
    (fun e he => some.inj (he.symm.trans hto)) ?_ hown (fun u _ hu => hu)
    (fun e he => hopens ▸ he) (fun e he => .inl (hcloses ▸ he)) (h.closes_opened d)
    h.closes_nodup) hfrom ?_
  · rw [hsame]
    exact congrArg (· + _) hcount
  · rw [refs_eq hto]
    exact Nat.add_pos_right _ (count_pos hto)

/-- The call of the file system in `dfs_file_close`: with success, the thread takes over the
reference of the open descriptor. -/
theorem file_close_ok (h : FdInv s) (hplace : s.place t = .closing d) (result : Int) :
    FdInv ({ s with closes := if result < 0 then s.closes else d :: s.closes }.goto t
      (.closed d result)) := by
  have hlive := h.live t d (by rw [hplace]; rfl)
  have hopen : s.IsOpen d := by
    have hok := h.places_ok t
    rw [hplace] at hok
    exact hok
  have hfrom : ∀ e, (s.place t).fd = some e → e = d := by
    intro e he
    rw [hplace] at he
    exact (some.inj he).symm
  have hto : ∀ e, (closed d result).fd = some e → e = d := fun e he => (some.inj he).symm
  have hrefs : (s.place t).refs d = 1 := by
    rw [hplace]
    exact refs_eq rfl
  have hcloses : ∀ e, (closed d result).closes = some e →
      (s.place t).closes = some e ∨ ∀ u, (s.place u).closes ≠ some e := by
    intro e he
    rw [hplace]
    exact .inl he
  have hm : Moved s ({ s with closes := if result < 0 then s.closes else d :: s.closes }.goto t
      (.closed d result)) t d (.closed d result) :=
    { current := rfl, slots := rfl, next := rfl, released := rfl, misused := rfl, place := rfl
      fds := fun _ _ => rfl
      magic := rfl
      opened := fun _ _ => Iff.rfl
      closes := by
        intro e he
        show e ∈ (if result < 0 then s.closes else d :: s.closes) ↔ _
        split
        · exact Iff.rfl
        · exact mem_cons.trans (or_iff_right he) }
  have hmark : s.mark d = 1 := if_pos hopen
  by_cases hresult : result < 0
  · have hrefs' : (closed d result).refs d = 1 := (refs_eq rfl).trans (if_pos hresult)
    simp only [if_pos hresult] at hm ⊢
    refine h.of_counted hm (h.toCounted.moved hm hlive hfrom hto ?_ ⟨hopen.1, fun _ => hopen.2⟩
      (fun u _ hu => hu) nofun hcloses (h.closes_opened d) h.closes_nodup) hfrom ?_
    · rw [hrefs, hrefs']
      rfl
    · rw [hrefs']
      exact succ_pos _
  · have hrefs' : (closed d result).refs d = 2 := (refs_eq rfl).trans (if_neg hresult)
    simp only [if_neg hresult] at hm ⊢
    have hmark' : ({ s with closes := d :: s.closes }.goto t (.closed d result)).mark d = 0 :=
      if_neg fun hstill => hstill.2 mem_cons_self
    refine h.of_counted hm (h.toCounted.moved hm hlive hfrom hto ?_
      ⟨hopen.1, fun hlt => absurd hlt hresult⟩ ?_ nofun hcloses (fun _ => hopen.1)
      (nodup_cons.mpr ⟨hopen.2, h.closes_nodup⟩)) hfrom ?_
    · rw [hmark, hmark', hrefs, hrefs']
      rfl
    · -- no other thread closes the structure
      have hother : ∀ u, u ≠ t → ∀ e, (s.place u).closes = some e → e ≠ d := by
        rintro u hu e hclosing rfl
        exact hu (h.one_closes u t e hclosing (by rw [hplace]; rfl))
      intro u hu hok
      have hclosing := hother u hu
      cases hp : s.place u with
      | closing e =>
        rw [hp] at hok hclosing
        exact ⟨hok.1, not_mem_cons_of_ne_of_not_mem (hclosing e rfl) hok.2⟩
      | closed e result | putting e result =>
        rw [hp] at hok hclosing
        exact ⟨hok.1, fun hlt => not_mem_cons_of_ne_of_not_mem (hclosing e rfl) (hok.2 hlt)⟩
      | new idx e | opening e | failing e | failed e | leaving e =>
        rw [hp] at hok
        exact hok
      | idle | stopped | opened e | inUse e => trivial
    · rw [hrefs']
      exact succ_pos _

omit [DecidableEq τ] in
theorem release_ok (h : Counted s) (hlive : s.Live d) (hzero : (s.fds d).refCount = 0)
    (hrest : ∀ e, e ≠ d → s.Live e → 0 < s.mark e + s.users e) : FdInv (fdRelease s d) := by
  have hnone : s.mark d + s.users d = 0 := by
    have hcount := h.counted d hlive
    omega
  have hfree : ∀ u, (s.place u).fd ≠ some d := by
    intro u hfd
    have hle := weight_le_holders (refs d) s.place u
    have hpos := count_pos hfd
    rw [refs_eq hfd] at hle
    have husers : s.users d = holders (refs d) s.place := rfl
    omega
  obtain ⟨idx, hidx⟩ := h.in_table d hlive
  have hfound : (List.range dfsFdMax).find? (fun i => decide (s.slots i = some d)) = some idx := by
    have hmem : idx ∈ List.range dfsFdMax :=
      mem_range.mpr ((h.slots_ok idx d hidx).2.1.trans_le (sub_le _ _))
    cases hfind : (List.range dfsFdMax).find? (fun i => decide (s.slots i = some d)) with
    | none =>
      have hnot := find?_eq_none.mp hfind idx hmem
      exact absurd (decide_eq_true hidx) hnot
    | some other =>
      have hother : s.slots other = some d := by simpa using find?_some hfind
      rw [h.slots_inj idx other d hidx hother]
  have heq : fdRelease s d =
      { s with released := d :: s.released, slots := update s.slots idx none } := by
    unfold fdRelease
    rw [hfound]
  rw [heq]
  have hback : ∀ e, FdSys.Live
      { s with released := d :: s.released, slots := update s.slots idx none } e →
      e ≠ d ∧ s.Live e := by
    intro e he
    exact ⟨fun hd => he.2 (hd ▸ mem_cons_self), he.1, fun hmem => he.2 (mem_cons_of_mem d hmem)⟩
  have hkept : ∀ e, e ≠ d → s.Live e → FdSys.Live
      { s with released := d :: s.released, slots := update s.slots idx none } e :=
    fun e hne he => ⟨he.1, not_mem_cons_of_ne_of_not_mem hne he.2⟩
  have hslots : ∀ i e, update s.slots idx none i = some e → e ≠ d ∧ s.slots i = some e := by
    intro i e hslot
    by_cases hi : i = idx
    · rw [hi, update_self] at hslot
      cases hslot
    · rw [update_of_ne hi] at hslot
      refine ⟨?_, hslot⟩
      rintro rfl
      exact hi (h.slots_inj i idx e hslot hidx)
  refine {
    current_lt := h.current_lt
    slots_ok := ?_
    slots_inj := fun i j e hi hj => h.slots_inj i j e (hslots i e hi).2 (hslots j e hj).2
    in_table := ?_
    counted := fun e he => h.counted e (hback e he).2
    live := ?_
    places_ok := ?_
    one_opens := h.one_opens
    one_closes := h.one_closes
    opened_lt := h.opened_lt
    closes_opened := h.closes_opened
    closes_nodup := h.closes_nodup
    released_lt := forall_mem_cons.mpr ⟨hlive.1, h.released_lt⟩
    released_nodup := nodup_cons.mpr ⟨hlive.2, h.released_nodup⟩
    not_misused := h.not_misused
    referenced := fun e he => hrest e (hback e he).1 (hback e he).2 }
  · intro i e hslot
    obtain ⟨hne, hold⟩ := hslots i e hslot
    obtain ⟨helive, hi, hmagic⟩ := h.slots_ok i e hold
    exact ⟨hkept e hne helive, hi, hmagic⟩
  · intro e he
    obtain ⟨hne, helive⟩ := hback e he
    obtain ⟨i, hi⟩ := h.in_table e helive
    refine ⟨i, ?_⟩
    have hdiff : i ≠ idx := by
      rintro rfl
      exact hne (some.inj (hi.symm.trans hidx))
    exact (update_of_ne hdiff _ _).trans hi
  · intro u e hfd
    have hne : e ≠ d := by
      rintro rfl
      exact hfree u hfd
    exact hkept e hne (h.live u e hfd)
  · intro u
    have hok := h.places_ok u
    have hfd := hfree u
    cases hp : s.place u with
    | new i e =>
      rw [hp] at hok hfd
      have hdiff : i ≠ idx := by
        rintro rfl
        exact hfd (hok.1.symm.trans hidx)
      exact ⟨(update_of_ne hdiff _ _).trans hok.1, hok.2⟩
    | _ =>
      rw [hp] at hok
      exact hok

omit [DecidableEq τ] [Fintype τ] in
theorem after_put_ok {q : Place} (h : p.afterPut = some (d, q)) :
    p.fd = some d ∧ (∀ e, q.fd = some e → e = d) ∧ p.refs d = q.refs d + 1 ∧
      (∀ e, q.opens = some e → p.opens = some e) ∧ (∀ e, q.closes = some e → p.closes = some e) ∧
      (PlaceOk s p → PlaceOk s q) := by
  have hone : ∀ r : Place, r.fd = some d → r.count = 1 → r.refs d = idle.refs d + 1 :=
    fun r hfd hcount => (refs_eq hfd).trans hcount
  cases p with
  | failing e =>
    cases h
    refine ⟨rfl, fun _ he => (some.inj he).symm, ?_, fun _ he => he, nofun, fun hok => hok⟩
    rw [refs_eq rfl, refs_eq rfl]
    rfl
  | failed e | opened e | inUse e | leaving e =>
    cases h
    exact ⟨rfl, nofun, hone _ rfl rfl, nofun, nofun, fun _ => trivial⟩
  | putting e result =>
    by_cases hresult : result < 0
    · have heq : (putting e result).afterPut = some (e, .idle) := by
        simp only [afterPut, if_pos hresult]
      cases heq.symm.trans h
      exact ⟨rfl, nofun, hone _ rfl (if_pos hresult), nofun, nofun, fun _ => trivial⟩
    · have heq : (putting e result).afterPut = some (e, .leaving e) := by
        simp only [afterPut, if_neg hresult]
      cases heq.symm.trans h
      refine ⟨rfl, fun _ he => (some.inj he).symm, ?_, nofun, fun _ he => he, fun hok => hok.1⟩
      rw [refs_eq rfl, refs_eq rfl]
      exact if_neg hresult
  | idle | stopped | new _ _ | opening _ | closing _ | closed _ _ => cases h

theorem fd_put_ok (h : FdInv s) {q : Place} (hput : (s.place t).afterPut = some (d, q)) :
    FdInv (fdPut s t d q) := by
  obtain ⟨hfd, hto, hrefs, hopens, hcloses, hok⟩ := after_put_ok hput (s := s)
  have hlive := h.live t d hfd
  have hfrom : ∀ e, (s.place t).fd = some e → e = d := fun e he =>
    some.inj (he.symm.trans hfd)
  unfold fdPut
  rw [touch_live hlive]
  have hm := moved_count s t d ((s.fds d).refCount - 1) q
  have hcount := count_ref_count s t d ((s.fds d).refCount - 1) q
  have hmark : ((s.count d ((s.fds d).refCount - 1)).goto t q).mark d = s.mark d := rfl
  have hcounted := h.toCounted.moved hm hlive hfrom hto (by rw [hcount, hmark, hrefs]; omega)
    (hok (h.places_ok t)) (fun u _ hu => hu) hopens (fun e he => .inl (hcloses e he))
    (h.closes_opened d) h.closes_nodup
  have hothers : ∀ e, e ≠ d → s.Live e →
      0 < ((s.count d ((s.fds d).refCount - 1)).goto t q).mark e +
        ((s.count d ((s.fds d).refCount - 1)).goto t q).users e := by
    intro e hne helive
    have hold := h.referenced e helive
    have husers := hm.users e
    rw [refs_of_ne fun he => hne (hfrom e he)] at husers
    rw [hm.mark hne]
    omega
  dsimp only
  split
  case isTrue hzero => exact release_ok hcounted hlive hzero hothers
  case isFalse hne =>
    refine { hcounted with referenced := fun e he => ?_ }
    by_cases heq : e = d
    · subst heq
      have hsum := hcounted.counted e he
      omega
    · exact hothers e heq he

omit [DecidableEq τ] in
theorem fd_search_ok (h : FdInv s) {idx : Nat} (hsearch : fdSearch s = some idx) :
    idx < maxfd ∧ s.slots idx = none := by
  have hmem := mem_of_find?_eq_some hsearch
  have hfree := find?_some hsearch
  constructor
  · cases hcurrent : s.current with
    | none =>
      rw [hcurrent] at hmem
      exact mem_range.mp hmem
    | some current =>
      rw [hcurrent] at hmem
      have hlt := h.current_lt current hcurrent
      rcases mem_append.mp hmem with hmem | hmem
      · have hrange := mem_range'_1.mp hmem
        omega
      · exact (mem_range.mp hmem).trans hlt
  · cases hslot : s.slots idx with
    | none => rfl
    | some d =>
      have hlive := (h.slots_ok idx d hslot).1
      have hpos := h.referenced d hlive
      have hcount := h.counted d hlive
      simp only [hslot, decide_eq_true_eq] at hfree
      omega

theorem fd_fill_ok (h : FdInv s) (hplace : s.place t = .idle) {idx : Nat} (hidx : idx < maxfd)
    (hslot : s.slots idx = none) :
    FdInv (fdFill { s with
      slots := update s.slots idx (some s.next)
      fds := update s.fds s.next ⟨0, false, false⟩
      next := s.next + 1 } t idx s.next) := by
  let s' := fdFill { s with
    slots := update s.slots idx (some s.next)
    fds := update s.fds s.next ⟨0, false, false⟩
    next := s.next + 1 } t idx s.next
  have hunreleased : s.next ∉ s.released := fun hmem => lt_irrefl _ (h.released_lt _ hmem)
  have hunopened : s.next ∉ s.opened := fun hmem => lt_irrefl _ (h.opened_lt _ hmem)
  have hunused : ∀ u, (s.place u).fd ≠ some s.next := fun u hfd =>
    lt_irrefl _ (h.live u s.next hfd).1
  have hself : s'.Live s.next := ⟨lt_succ_self _, hunreleased⟩
  have hkept : ∀ e, s.Live e → s'.Live e := fun e he => ⟨lt_succ_of_lt he.1, he.2⟩
  have hback : ∀ e, e ≠ s.next → s'.Live e → s.Live e := fun e hne he =>
    ⟨lt_of_le_of_ne (le_of_lt_succ he.1) hne, he.2⟩
  have hslotsEq : s'.slots = update s.slots idx (some s.next) := rfl
  have hslots : ∀ i e, s'.slots i = some e → (i = idx ∧ e = s.next) ∨ s.slots i = some e := by
    intro i e hi
    rw [hslotsEq] at hi
    by_cases heq : i = idx
    · rw [heq, update_self] at hi
      exact .inl ⟨heq, (some.inj hi).symm⟩
    · rw [update_of_ne heq] at hi
      exact .inr hi
  have hslots' : ∀ i e, s.slots i = some e → s'.slots i = some e := by
    intro i e hi
    have hne : i ≠ idx := by
      rintro rfl
      cases hslot.symm.trans hi
    exact (update_of_ne hne _ _).trans hi
  have hfd : s'.fds s.next = ⟨1, true, false⟩ := by
    show update (update s.fds s.next ⟨0, false, false⟩) s.next _ s.next = _
    rw [update_self]
    show FdStruct.mk 1 true (update s.fds s.next ⟨0, false, false⟩ s.next).fops = _
    rw [update_self]
  have hfds : ∀ e, e ≠ s.next → s'.fds e = s.fds e := by
    intro e hne
    show update (update s.fds s.next ⟨0, false, false⟩) s.next _ e = _
    rw [update_of_ne hne, update_of_ne hne]
  have husers : ∀ e, s'.users e = s.users e + (new idx s.next).refs e := by
    intro e
    have hupdate := holders_update (refs e) s.place t (.new idx s.next)
    rw [hplace, refs_of_ne (p := .idle) nofun] at hupdate
    exact hupdate
  have hother : ∀ e, e ≠ s.next → (new idx s.next).refs e = 0 := fun e hne =>
    refs_of_ne fun he => hne (some.inj he).symm
  have hfirst : s.users s.next = 0 := holders_eq_zero.mpr fun u => refs_of_ne (hunused u)
  have hmark : s'.mark s.next = 0 := if_neg fun hopen => hunopened hopen.1
  have honce : (new idx s.next).refs s.next = 1 := refs_eq rfl
  have hplaces : ∀ u, u ≠ t → s'.place u = s.place u := fun u hu => update_of_ne hu _ _
  have hplaceT : s'.place t = .new idx s.next := update_self _ _ _
  show FdInv s'
  refine {
    current_lt := fun i hi => some.inj hi ▸ hidx
    slots_ok := ?_
    slots_inj := ?_
    in_table := ?_
    counted := ?_
    live := ?_
    places_ok := ?_
    one_opens := ?_
    one_closes := ?_
    opened_lt := fun e he => lt_succ_of_lt (h.opened_lt e he)
    closes_opened := h.closes_opened
    closes_nodup := h.closes_nodup
    released_lt := fun e he => lt_succ_of_lt (h.released_lt e he)
    released_nodup := h.released_nodup
    not_misused := h.not_misused
    referenced := ?_ }
  · intro i e hi
    rcases hslots i e hi with ⟨rfl, rfl⟩ | hold
    · refine ⟨hself, hidx, ?_⟩
      rw [hfd]
    · obtain ⟨helive, hlt, hmagic⟩ := h.slots_ok i e hold
      refine ⟨hkept e helive, hlt, ?_⟩
      rw [hfds e (Nat.ne_of_lt helive.1)]
      exact hmagic
  · intro i j e hi hj
    rcases hslots i e hi with ⟨rfl, rfl⟩ | holdI
    · rcases hslots j s.next hj with ⟨rfl, -⟩ | holdJ
      · rfl
      · exact absurd (h.slots_ok j s.next holdJ).1.1 (lt_irrefl _)
    · rcases hslots j e hj with ⟨rfl, rfl⟩ | holdJ
      · exact absurd (h.slots_ok i s.next holdI).1.1 (lt_irrefl _)
      · exact h.slots_inj i j e holdI holdJ
  · intro e he
    by_cases hne : e = s.next
    · exact ⟨idx, hne ▸ update_self _ _ _⟩
    · obtain ⟨i, hi⟩ := h.in_table e (hback e hne he)
      exact ⟨i, hslots' i e hi⟩
  · intro e he
    by_cases hne : e = s.next
    · rw [hne, hfd, hmark, husers, hfirst, honce]
      rfl
    · have hmarkE : s'.mark e = s.mark e := rfl
      rw [hfds e hne, h.counted e (hback e hne he), husers, hother e hne, hmarkE]
      rfl
  · intro u e he
    by_cases hu : u = t
    · rw [hu, hplaceT] at he
      exact some.inj he ▸ hself
    · rw [hplaces u hu] at he
      exact hkept e (h.live u e he)
  · intro u
    by_cases hu : u = t
    · rw [hu, hplaceT]
      exact ⟨update_self _ _ _, hunopened⟩
    · rw [hplaces u hu]
      have hok := h.places_ok u
      cases hp : s.place u with
      | new i e =>
        rw [hp] at hok
        exact ⟨hslots' i e hok.1, hok.2⟩
      | _ =>
        rw [hp] at hok
        exact hok
  · have hold : ∀ u, u ≠ t → ∀ e, (s'.place u).opens = some e → e ≠ s.next := by
      rintro u hu e he rfl
      rw [hplaces u hu] at he
      exact hunused u (opens_fd he)
    intro u v e hu hv
    by_cases hut : u = t <;> by_cases hvt : v = t
    · rw [hut, hvt]
    · rw [hut, hplaceT] at hu
      exact absurd (some.inj hu).symm (hold v hvt e hv)
    · rw [hvt, hplaceT] at hv
      exact absurd (some.inj hv).symm (hold u hut e hu)
    · rw [hplaces u hut] at hu
      rw [hplaces v hvt] at hv
      exact h.one_opens u v e hu hv
  · have hold : ∀ u e, (s'.place u).closes = some e → (s.place u).closes = some e := by
      intro u e he
      by_cases hu : u = t
      · rw [hu, hplaceT] at he
        cases he
      · rwa [hplaces u hu] at he
    exact fun u v e hu hv => h.one_closes u v e (hold u e hu) (hold v e hv)
  · intro e he
    by_cases hne : e = s.next
    · rw [hne, husers, honce]
      omega
    · have hpos := h.referenced e (hback e hne he)
      have hmarkE : s'.mark e = s.mark e := rfl
      rw [husers, hmarkE]
      omega

theorem fd_new_ok (h : FdInv s) (hplace : s.place t = .idle) (room : Bool) :
    FdInv (fdNew s t room) := by
  unfold fdNew
  cases hsearch : fdSearch s with
  | none => exact h
  | some idx =>
    obtain ⟨hidx, hslot⟩ := fd_search_ok h hsearch
    dsimp only
    rw [hslot]
    dsimp only
    split
    case isFalse => exact h
    case isTrue => exact fd_fill_ok h hplace hidx hslot

omit [DecidableEq τ] [Fintype τ] in
theorem same_fops (s : FdSys τ) (d : Nat) :
    { s with fds := update s.fds d { s.fds d with fops := (s.fds d).fops } } = s := by
  have hsame : update s.fds d { s.fds d with fops := (s.fds d).fops } = s.fds :=
    update_eq_self d s.fds
  rw [hsame]

omit [DecidableEq τ] in
theorem fd_find_new (h : FdInv s) {idx : Nat} (hslot : s.slots idx = some d) :
    fdFind s idx = some d :=
  filter_eq_some_iff.mpr ⟨hslot, (h.slots_ok idx d hslot).2.2⟩

theorem step_fd_ok {op : τ × FdOp} (h : FdInv s) (hopen : ClosesOpen s op)
    (hstep : stepFd s op = some s') : FdInv s' := by
  obtain ⟨t, op⟩ := op
  have hok := h.places_ok t
  unfold stepFd at hstep
  dsimp only at hstep
  split at hstep
  case h_1 room hplace =>
    cases hstep
    exact fd_new_ok h hplace room
  case h_2 idx d hplace =>
    cases hstep
    rw [hplace] at hok
    rw [fd_find_new h hok.1]
    refine fd_get_ok h (h.live t d (by rw [hplace]; rfl)) .stopped ?_ rfl ?_ hok.2 ?_ nofun
    · rw [hplace]
      exact fun e he => (some.inj he).symm
    · rw [hplace, refs_eq rfl]
      rfl
    · rw [hplace]
      exact fun e he => he
  case h_3 d set hplace =>
    cases hstep
    rw [touch_live (h.live t d (by rw [hplace]; rfl))]
    exact file_opened_ok h hplace
  case h_4 d set hplace =>
    cases hstep
    rw [hplace] at hok
    rw [touch_live (h.live t d (by rw [hplace]; rfl))]
    exact goto_ok h (by rw [hplace]; rfl) rfl (by rw [hplace]; rfl) hok (by rw [hplace]; rfl)
      (by rw [hplace]; rfl)
  case h_5 fd console hplace =>
    cases hstep
    cases hfound : (fdIndex fd console).bind (fdFind s) with
    | none =>
      have hsame : fdGet s t none .inUse .idle = s := goto_self hplace
      rw [hsame]
      exact h
    | some d =>
      obtain ⟨idx, -, hfind⟩ := bind_eq_some_iff.mp hfound
      refine fd_get_ok h (fd_find_live h hfind).1 .idle ?_ rfl ?_ trivial nofun nofun
      · rw [hplace]
        exact nofun
      · rw [hplace]
        rfl
  case h_6 d hplace =>
    cases hstep
    rw [touch_live (h.live t d (by rw [hplace]; rfl))]
    exact h
  case h_7 fd console hplace =>
    cases hstep
    cases hfound : (fdIndex fd console).bind (fdFind s) with
    | none =>
      have hsame : fdGet s t none .closing .idle = s := goto_self hplace
      rw [hsame]
      exact h
    | some d =>
      obtain ⟨idx, -, hfind⟩ := bind_eq_some_iff.mp hfound
      obtain ⟨hisOpen, hnone⟩ := hopen d hfound
      refine fd_get_ok h (fd_find_live h hfind).1 .idle ?_ rfl ?_ hisOpen nofun ?_
      · rw [hplace]
        exact nofun
      · rw [hplace]
        rfl
      · rintro e he
        cases he
        exact .inr hnone
  case h_8 d returned hplace =>
    cases hstep
    rw [touch_live (h.live t d (by rw [hplace]; rfl))]
    exact file_close_ok h hplace _
  case h_9 d result hplace =>
    cases hstep
    rw [hplace] at hok
    rw [touch_live (h.live t d (by rw [hplace]; rfl)), ← same_fops s d]
    exact goto_ok h (by rw [hplace]; rfl) rfl (by rw [hplace]; rfl) hok (by rw [hplace]; rfl)
      (by rw [hplace]; rfl)
  case h_10 p hplace =>
    obtain ⟨⟨d, q⟩, hput, rfl⟩ := map_eq_some_iff.mp hstep
    exact fd_put_ok h hput
  case h_11 => cases hstep

/-! ## Runs -/

omit [DecidableEq τ] in
theorem fd_inv_start : FdInv (noFds τ) := by
  have hlive : ∀ d, ¬ (noFds τ).Live d := fun d hd => absurd hd.1 (Nat.not_lt_zero d)
  exact {
    current_lt := nofun
    slots_ok := nofun
    slots_inj := nofun
    in_table := fun d hd => absurd hd (hlive d)
    counted := fun d hd => absurd hd (hlive d)
    live := nofun
    places_ok := fun _ => trivial
    one_opens := nofun
    one_closes := nofun
    opened_lt := nofun
    closes_opened := nofun
    closes_nodup := nodup_nil
    released_lt := nofun
    released_nodup := nodup_nil
    not_misused := rfl
    referenced := fun d hd => absurd hd (hlive d) }

/-- In every run of any number of threads in which `close` meets open descriptors that no other
`close` works on, the structures are released as they should. -/
theorem descriptors_sound {ops : List (τ × FdOp)} (h : AllSteps stepFd ClosesOpen (noFds τ) ops) :
    Always stepFd Sound (noFds τ) ops :=
  always_of_invariant (fun _ _ _ hinv hopen hstep => step_fd_ok hinv hopen hstep)
    (fun _ hinv => hinv.sound) fd_inv_start h

instance (s : FdSys τ) : ∀ op : τ × FdOp, Decidable (ClosesOpen s op)
  | (_, .closeGet fd console) =>
    inferInstanceAs (Decidable (∀ d ∈ (fdIndex fd console).bind (fdFind s),
      s.IsOpen d ∧ ∀ u, (s.place u).closes ≠ some d))
  | (_, .fdNew _) | (_, .fdGet) | (_, .fileOpen _ _) | (_, .useGet _ _) | (_, .use)
  | (_, .fileClose _) | (_, .freePath) | (_, .put) => .isTrue trivial

def openRun : List (Bool × FdOp) :=
  [(false, .fdNew true), (false, .fdGet), (false, .fileOpen true true), (false, .put)]

/-- A thread closes the file while another one reads it. -/
theorem descriptors_sound_read :
    Always stepFd Sound (noFds Bool)
      (openRun ++ [(true, .useGet 3 0), (false, .closeGet 3 0), (false, .fileClose 0),
        (false, .freePath), (false, .put), (true, .use), (false, .put), (true, .put)]) :=
  descriptors_sound (by decide +kernel)

/-- Two threads close the descriptor: the second one finds the structure, closes the file again, and
calls `fd_put` after the structure was released. -/
theorem closed_twice :
    ¬ Always stepFd Sound (noFds Bool)
      (openRun ++ [(false, .closeGet 3 0), (true, .closeGet 3 0), (false, .fileClose 0),
        (true, .fileClose 0), (false, .freePath), (true, .freePath), (false, .put), (false, .put),
        (true, .put), (true, .put)]) := by
  intro h
  have hlast : (exec stepFd (noFds Bool)
      (openRun ++ [(false, .closeGet 3 0), (true, .closeGet 3 0), (false, .fileClose 0),
        (true, .fileClose 0), (false, .freePath), (true, .freePath), (false, .put), (false, .put),
        (true, .put), (true, .put)])).map (fun s => (s.misused, s.closes)) =
      some ([0], [0, 0]) := by decide +kernel
  obtain ⟨s, hrun, hs⟩ := map_eq_some_iff.mp hlast
  have hmisused := (h.last hrun).not_misused
  rw [(Prod.mk.inj hs).1] at hmisused
  cases hmisused

end FullhanRtos.Dfs
