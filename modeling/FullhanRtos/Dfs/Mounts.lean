import FullhanRtos.Dfs.Lookup
import FullhanRtos.Lib.Transition

/-!
# Mounting and unmounting

`dfs_mount` and `dfs_unmount` of `fs/src/dfs_fs.c`, with `check_uninstall_fs_valid`,
`dfs_file_open` and `dfs_file_close`, of any number of threads. Each critical section under the lock
of the file systems is one step.

`serial` counts how often an entry of the table was cleared. A descriptor keeps the entry with the
number that it was opened at, so that `MountsSound` can say that no open descriptor refers to an
entry that was unmounted or used again. `mounts_sound` says in which runs this holds, and that no
path is mounted twice.
-/

namespace FullhanRtos.Dfs

open Bytes Transition Function List Option AllSteps

/-! ## The table and the threads -/

/-- A `dfs_fd`: whether it is in the descriptor table, whether its file is open, and its `fs` with
the number of the entry. -/
structure FsFd where
  inTable : Bool
  opened : Bool
  fs : Option (Nat × Nat)
  deriving DecidableEq

/-- Where a thread stands in `dfs_mount` or `dfs_unmount`. `probing` is in front of the call of
`dfs_file_open` for the directory, `probed` behind it with the local descriptor, `registering` in
front of the search of the table; at `mounting` the entry is in the table and the callback is not
called yet. At `unmounting` the check is done. -/
inductive MountPlace where
  | idle
  | probing (path fullpath : List Byte)
  | probed (path fullpath : List Byte) (fs : Nat × Nat)
  | registering (path fullpath : List Byte)
  | mounting (i : Nat)
  | unmounting (fullpath : List Byte)
  deriving DecidableEq

variable {τ : Type}

/-- `filesystem_table` and the descriptors, those outside the descriptor table, too. -/
structure MountSys (τ : Type) where
  table : List (DfsFilesystem Unit)
  serial : Nat → Nat
  fds : List FsFd
  place : τ → MountPlace

/-- A step. `directory` is the working directory, `ok` what the functions of the device and of the
file system return; for `fileOpen` it is missing where `dfs_file_open` returns before them. -/
inductive MountOp (τ : Type) where
  | mount (t : τ) (directory path : List Byte)
  | probe (t : τ) (directory : List Byte) (ok : Bool)
  | probeClose (t : τ)
  | register (t : τ) (rwflag : Nat)
  | mounted (t : τ) (ok : Bool)
  | unmount (t : τ) (directory specialfile : List Byte)
  | remove (t : τ) (ok : Bool)
  | fdNew (d : Nat)
  | fdFree (d : Nat)
  | fileOpen (d : Nat) (directory path : List Byte) (ok : Option Bool)
  | fileClose (d : Nat)

/-- A cleared entry. -/
def emptyFs : DfsFilesystem Unit := ⟨0, none, none⟩

def devPath : List Byte := [slash, 0x64, 0x65, 0x76]

variable [DecidableEq τ]

def MountSys.goto (t : τ) (p : MountPlace) (s : MountSys τ) : MountSys τ :=
  { s with place := update s.place t p }

/-- `memset` of an entry. -/
def MountSys.clear (i : Nat) (s : MountSys τ) : MountSys τ :=
  { s with
    table := s.table.set i emptyFs
    serial := update s.serial i (s.serial i + 1) }

/-- The mount point of the entry `i`, if it is in use. -/
def MountSys.pathAt (s : MountSys τ) (i : Nat) : Option (List Byte) := s.table[i]?.bind mountPath

/-- The entry that `dfs_file_open` finds. -/
def MountSys.find (s : MountSys τ) (directory path : List Byte) : Option Nat :=
  (dfsNormalizePath directory path).bind (dfsFilesystemLookup s.table)

/-! ## The steps -/

def emptyEntry (s : MountSys τ) (path : List Byte) : Option Nat :=
  if s.table.any fun iter => iter.ops.isSome && decide (iter.path = some path) then none
  else s.table.findIdx? fun iter => iter.ops.isNone

def checkUninstallFsValid (s : MountSys τ) (fsPath : List Byte) : Bool :=
  s.fds.all fun fd => !(fd.inTable && fd.fs.any fun r => decide (s.pathAt r.1 = some fsPath))

/-- A step of `dfs_mount`, `dfs_unmount`, `dfs_file_open` or `dfs_file_close`. -/
def stepMount (s : MountSys τ) : MountOp τ → Option (MountSys τ)
  | .mount t directory path =>
    match s.place t with
    | .idle =>
      match dfsNormalizePath directory path with
      | none => some s
      | some fullpath =>
        if fullpath = [slash] ∨ fullpath = devPath then
          some (s.goto t (.registering path fullpath))
        else some (s.goto t (.probing path fullpath))
    | _ => none
  | .probe t directory ok =>
    match s.place t with
    | .probing path fullpath =>
      match s.find directory fullpath with
      | none => some (s.goto t .idle)
      | some i =>
        if ok then some (s.goto t (.probed path fullpath (i, s.serial i)))
        else some (s.goto t .idle)
    | _ => none
  | .probeClose t =>
    match s.place t with
    | .probed path fullpath _ => some (s.goto t (.registering path fullpath))
    | _ => none
  | .register t rwflag =>
    match s.place t with
    | .registering path fullpath =>
      match emptyEntry s path with
      | none => some (s.goto t .idle)
      | some i =>
        some ({ s with table := s.table.set i ⟨rwflag, some fullpath, some ()⟩ }.goto t
          (.mounting i))
    | _ => none
  | .mounted t ok =>
    match s.place t with
    | .mounting i => if ok then some (s.goto t .idle) else some ((s.clear i).goto t .idle)
    | _ => none
  | .unmount t directory specialfile =>
    match s.place t with
    | .idle =>
      match dfsNormalizePath directory specialfile with
      | none => some s
      | some fullpath =>
        if checkUninstallFsValid s fullpath then some (s.goto t (.unmounting fullpath))
        else some s
    | _ => none
  | .remove t ok =>
    match s.place t with
    | .unmounting fullpath =>
      match s.table.findIdx? fun iter => decide (iter.path = some fullpath) with
      | none => some (s.goto t .idle)
      | some i => if ok then some ((s.clear i).goto t .idle) else some (s.goto t .idle)
    | _ => none
  | .fdNew d =>
    match s.fds[d]? with
    | some ⟨false, false, _⟩ => some { s with fds := s.fds.set d ⟨true, false, none⟩ }
    | _ => none
  | .fdFree d =>
    match s.fds[d]? with
    | some ⟨true, false, _⟩ => some { s with fds := s.fds.set d ⟨false, false, none⟩ }
    | _ => none
  | .fileOpen d directory path ok =>
    match s.fds[d]? with
    | some ⟨inTable, false, _⟩ =>
      match s.find directory path, ok with
      | some i, some ok =>
        some { s with fds := s.fds.set d ⟨inTable, ok, some (i, s.serial i)⟩ }
      | _, _ => some s
    | _ => none
  | .fileClose d =>
    match s.fds[d]? with
    | some ⟨inTable, true, fs⟩ => some { s with fds := s.fds.set d ⟨inTable, false, fs⟩ }
    | _ => none

def noMounts (τ : Type) (filesystems descriptors : Nat) : MountSys τ where
  table := replicate filesystems emptyFs
  serial := fun _ => 0
  fds := replicate descriptors ⟨false, false, none⟩
  place := fun _ => .idle

/-! ## What is to hold -/

/-- An open descriptor refers to an entry; the local one of `dfs_mount` is one of them. -/
def Refers (s : MountSys τ) (r : Nat × Nat) : Prop :=
  (∃ fd ∈ s.fds, fd.opened = true ∧ fd.fs = some r) ∨
    ∃ t path fullpath, s.place t = .probed path fullpath r

/-- The same for the descriptors that are not in the descriptor table. -/
def RefersOutside (s : MountSys τ) (r : Nat × Nat) : Prop :=
  (∃ fd ∈ s.fds, fd.inTable = false ∧ fd.opened = true ∧ fd.fs = some r) ∨
    ∃ t path fullpath, s.place t = .probed path fullpath r

/-- No path is mounted twice, and open descriptors refer to entries that are mounted as they were
when the file was opened. -/
structure MountsSound (s : MountSys τ) : Prop where
  distinct : ∀ i j path, s.pathAt i = some path → s.pathAt j = some path → i = j
  alive : ∀ r, Refers s r → (s.pathAt r.1).isSome ∧ s.serial r.1 = r.2

/-- Files may be opened on an entry: it is not between the two halves of a `dfs_unmount`, and its
`dfs_mount` has come back. -/
def MayOpen (s : MountSys τ) (i : Nat) : Prop :=
  ∀ u, s.place u ≠ .mounting i ∧ ∀ path, s.pathAt i = some path → s.place u ≠ .unmounting path

/-- What the callers have to see to. -/
def MountAllowed (s : MountSys τ) : MountOp τ → Prop
  | .register t _ => ∀ path fullpath, s.place t = .registering path fullpath →
      path = fullpath ∨ ∀ i, s.pathAt i ≠ some fullpath
  | .probe t directory true => ∀ path fullpath, s.place t = .probing path fullpath →
      ∀ i, s.find directory fullpath = some i → MayOpen s i
  | .fileOpen _ directory path (some true) =>
    ∀ i, s.find directory path = some i → MayOpen s i
  | .unmount _ directory specialfile => ∀ fullpath,
      dfsNormalizePath directory specialfile = some fullpath →
      checkUninstallFsValid s fullpath = true →
      ∀ r, RefersOutside s r → s.pathAt r.1 ≠ some fullpath
  | .remove t true => ∀ fullpath, s.place t = .unmounting fullpath →
      ∀ u i, s.place u = .mounting i → s.pathAt i ≠ some fullpath
  | _ => True

/-! ## The invariant -/

/-- Nothing refers to an entry that is being mounted, nor to one that `dfs_unmount` has checked. -/
structure MountInv (s : MountSys τ) : Prop extends MountsSound s where
  paths_ok : ∀ iter ∈ s.table, iter.ops = none → iter.path = none
  mounting_ok : ∀ t i, s.place t = .mounting i → (s.pathAt i).isSome ∧ ∀ n, ¬ Refers s (i, n)
  mounting_inj : ∀ t u i, s.place t = .mounting i → s.place u = .mounting i → t = u
  unmounting_ok : ∀ t path, s.place t = .unmounting path → ∀ r, Refers s r →
    s.pathAt r.1 ≠ some path

variable {s s' : MountSys τ} {t : τ} {i : Nat} {p : MountPlace}

omit [DecidableEq τ] in
theorem path_at_clear (s : MountSys τ) (i j : Nat) :
    (s.clear i).pathAt j = if j = i then none else s.pathAt j := by
  unfold MountSys.clear MountSys.pathAt
  rw [getElem?_set]
  by_cases hij : i = j
  · rw [if_pos hij, if_pos hij.symm]
    split <;> rfl
  · rw [if_neg hij, if_neg (Ne.symm hij)]

omit [DecidableEq τ] in
/-- An entry in use is what its mount point says. -/
theorem path_at_eq_some {path : List Byte} (h : s.pathAt i = some path) :
    ∃ iter, s.table[i]? = some iter ∧ mountPath iter = some path :=
  bind_eq_some_iff.mp h

omit [DecidableEq τ] in
/-- `dfs_file_open` finds an entry in use. -/
theorem find_used {directory path : List Byte} (h : s.find directory path = some i) :
    (s.pathAt i).isSome := by
  obtain ⟨fullpath, -, hlookup⟩ := bind_eq_some_iff.mp h
  obtain ⟨iter, mount, hiter, hmount, -⟩ := (filesystem_lookup_ok s.table fullpath).fs_ok i hlookup
  unfold MountSys.pathAt
  rw [hiter, bind_some, hmount]
  rfl

omit [DecidableEq τ] in
/-- A step that leaves the table alone keeps the invariant, if what is opened may be opened and what
is checked is not referred to. -/
theorem MountInv.of_table (h : MountInv s) (htable : s'.table = s.table)
    (hserial : s'.serial = s.serial)
    (hrefers : ∀ r, Refers s' r → Refers s r ∨ ∃ i, r = (i, s.serial i) ∧ (s.pathAt i).isSome ∧
      MayOpen s i)
    (hmounting : ∀ t i, s'.place t = .mounting i → s.place t = .mounting i)
    (hunmounting : ∀ t path, s'.place t = .unmounting path → s.place t = .unmounting path ∨
      ∀ r, Refers s' r → s.pathAt r.1 ≠ some path) : MountInv s' := by
  have hpath : ∀ j, s'.pathAt j = s.pathAt j := by
    intro j
    unfold MountSys.pathAt
    rw [htable]
  refine {
    distinct := fun i j path hi hj => h.distinct i j path (hpath i ▸ hi) (hpath j ▸ hj)
    alive := ?_
    paths_ok := by rw [htable]; exact h.paths_ok
    mounting_ok := ?_
    mounting_inj := fun t u i ht hu => h.mounting_inj t u i (hmounting t i ht) (hmounting u i hu)
    unmounting_ok := ?_ }
  · intro r hr
    rw [hpath, hserial]
    rcases hrefers r hr with hold | ⟨i, rfl, hused, -⟩
    · exact h.alive r hold
    · exact ⟨hused, rfl⟩
  · intro u i hu
    obtain ⟨hused, hfree⟩ := h.mounting_ok u i (hmounting u i hu)
    rw [hpath]
    refine ⟨hused, fun n hr => ?_⟩
    rcases hrefers (i, n) hr with hold | ⟨j, heq, -, hmay⟩
    · exact hfree n hold
    · cases heq
      exact (hmay u).1 (hmounting u i hu)
  · intro u path hu r hr
    rw [hpath]
    rcases hunmounting u path hu with hold | hnone
    · rcases hrefers r hr with holdr | ⟨i, rfl, -, hmay⟩
      · exact h.unmounting_ok u path hold r holdr
      · exact fun hpathI => (hmay u).2 path hpathI hold
    · exact hnone r hr

theorem place_goto (s : MountSys τ) (t u : τ) (p : MountPlace) :
    (s.goto t p).place u = if u = t then p else s.place u := update_apply _ _ _ _

/-- The references behind a step of one thread. -/
theorem refers_goto {r : Nat × Nat} (h : Refers (s.goto t p) r) :
    Refers s r ∨ ∃ path fullpath, p = .probed path fullpath r := by
  rcases h with hfd | ⟨u, path, fullpath, hu⟩
  · exact .inl (.inl hfd)
  · rw [place_goto] at hu
    split at hu
    · exact .inr ⟨path, fullpath, hu⟩
    · exact .inl (.inr ⟨u, path, fullpath, hu⟩)

/-- A thread goes to a place without a descriptor or an entry of its own. -/
theorem MountInv.goto (h : MountInv s) (hprobed : ∀ path fullpath r, p ≠ .probed path fullpath r)
    (hmounting : ∀ i, p ≠ .mounting i)
    (hunmounting : ∀ path, p = .unmounting path → ∀ r, Refers s r → s.pathAt r.1 ≠ some path) :
    MountInv (s.goto t p) := by
  have hback : ∀ r, Refers (s.goto t p) r → Refers s r := by
    intro r hr
    rcases refers_goto hr with hold | ⟨path, fullpath, hp⟩
    · exact hold
    · exact absurd hp (hprobed path fullpath r)
  refine h.of_table rfl rfl (fun r hr => .inl (hback r hr)) ?_ ?_
  · intro u i hu
    rw [place_goto] at hu
    split at hu
    · exact absurd hu (hmounting i)
    · exact hu
  · intro u path hu
    rw [place_goto] at hu
    split at hu
    · exact .inr fun r hr => hunmounting path hu r (hback r hr)
    · exact .inl hu

theorem clear_ok (h : MountInv s) (hfree : ∀ n, ¬ Refers s (i, n))
    (hothers : ∀ u, s.place u = .mounting i → u = t) : MountInv ((s.clear i).goto t .idle) := by
  have hpath : ∀ j, ((s.clear i).goto t .idle).pathAt j = if j = i then none else s.pathAt j :=
    path_at_clear s i
  have hback : ∀ r, Refers ((s.clear i).goto t .idle) r → Refers s r := by
    intro r hr
    rcases refers_goto hr with hold | ⟨path, fullpath, hp⟩
    · exact hold
    · cases hp
  have hne : ∀ r, Refers s r → r.1 ≠ i := by
    rintro ⟨j, n⟩ hr rfl
    exact hfree n hr
  have hplace : ∀ u q, ((s.clear i).goto t .idle).place u = q → q ≠ .idle → s.place u = q ∧
    u ≠ t := by
    intro u q hu hq
    rw [place_goto] at hu
    split at hu
    · exact absurd hu.symm hq
    case isFalse hut => exact ⟨hu, hut⟩
  refine {
    distinct := ?_
    alive := ?_
    paths_ok := ?_
    mounting_ok := ?_
    mounting_inj := fun u v j hu hv =>
      h.mounting_inj u v j (hplace u _ hu nofun).1 (hplace v _ hv nofun).1
    unmounting_ok := ?_ }
  · intro j k path hj hk
    rw [hpath] at hj hk
    split at hj
    · cases hj
    · split at hk
      · cases hk
      · exact h.distinct j k path hj hk
  · intro r hr
    have hold := hback r hr
    obtain ⟨hused, hserial⟩ := h.alive r hold
    rw [hpath, if_neg (hne r hold)]
    exact ⟨hused, (update_of_ne (hne r hold) _ _).trans hserial⟩
  · intro iter hmem hops
    rcases mem_or_eq_of_mem_set hmem with hold | rfl
    · exact h.paths_ok iter hold hops
    · rfl
  · intro u j hu
    obtain ⟨hold, hut⟩ := hplace u _ hu nofun
    obtain ⟨hused, hnone⟩ := h.mounting_ok u j hold
    have hji : j ≠ i := by
      rintro rfl
      exact hut (hothers u hold)
    rw [hpath, if_neg hji]
    exact ⟨hused, fun n hr => hnone n (hback _ hr)⟩
  · intro u path hu r hr
    have hold := hback r hr
    rw [hpath, if_neg (hne r hold)]
    exact h.unmounting_ok u path (hplace u _ hu nofun).1 r hold

omit [DecidableEq τ] in
theorem empty_entry_ok {path : List Byte} (hentry : emptyEntry s path = some i) :
    i < s.table.length ∧ s.pathAt i = none ∧ ∀ j, s.pathAt j ≠ some path := by
  obtain ⟨hnone, hfind⟩ := ite_none_left_eq_some.mp hentry
  obtain ⟨hlt, hempty, -⟩ := findIdx?_eq_some_iff_getElem.mp hfind
  refine ⟨hlt, ?_, fun j hj => hnone ?_⟩
  · unfold MountSys.pathAt mountPath
    rw [getElem?_eq_getElem hlt, bind_some, isNone_iff_eq_none.mp hempty]
    rfl
  · obtain ⟨iter, hget, hmount⟩ := path_at_eq_some hj
    obtain ⟨ops, hops, hpath⟩ := bind_eq_some_iff.mp hmount
    refine List.any_eq_true.mpr ⟨iter, mem_of_getElem? hget, ?_⟩
    rw [hops, hpath]
    simp

theorem register_ok (h : MountInv s) {path fullpath : List Byte}
    (hentry : emptyEntry s path = some i)
    (hspelling : path = fullpath ∨ ∀ j, s.pathAt j ≠ some fullpath) (rwflag : Nat) :
    MountInv ({ s with table := s.table.set i ⟨rwflag, some fullpath, some ()⟩ }.goto t
      (.mounting i)) := by
  obtain ⟨hlt, hempty, hpathNone⟩ := empty_entry_ok hentry
  have hnone : ∀ j, s.pathAt j ≠ some fullpath := by
    rcases hspelling with rfl | hnone
    · exact hpathNone
    · exact hnone
  let s' := { s with table := s.table.set i ⟨rwflag, some fullpath, some ()⟩ }.goto t (.mounting i)
  have hpath : ∀ j, s'.pathAt j = if j = i then some fullpath else s.pathAt j := by
    intro j
    show ((s.table.set i ⟨rwflag, some fullpath, some ()⟩)[j]?).bind mountPath = _
    rw [getElem?_set]
    by_cases hij : i = j
    · rw [if_pos hij, if_pos hij.symm, if_pos (hij ▸ hlt)]
      rfl
    · rw [if_neg hij, if_neg (Ne.symm hij)]
      rfl
  have hback : ∀ r, Refers s' r → Refers s r := by
    intro r hr
    rcases refers_goto hr with hold | ⟨_, _, hp⟩
    · exact hold
    · cases hp
  have hne : ∀ r, Refers s r → r.1 ≠ i := by
    rintro ⟨j, n⟩ hr rfl
    have hused := (h.alive _ hr).1
    rw [hempty] at hused
    cases hused
  have hplace : ∀ u q, s'.place u = q → s.place u = q ∧ u ≠ t ∨ u = t ∧ q = .mounting i := by
    intro u q hu
    rw [place_goto] at hu
    split at hu
    case isTrue hut => exact .inr ⟨hut, hu.symm⟩
    case isFalse hut => exact .inl ⟨hu, hut⟩
  have hmounting : ∀ u, s.place u ≠ .mounting i := by
    intro u hu
    have hused := (h.mounting_ok u i hu).1
    rw [hempty] at hused
    cases hused
  show MountInv s'
  refine {
    distinct := ?_
    alive := ?_
    paths_ok := ?_
    mounting_ok := ?_
    mounting_inj := ?_
    unmounting_ok := ?_ }
  · intro j k q hj hk
    rw [hpath] at hj hk
    split at hj
    case isTrue hji =>
      split at hk
      case isTrue hki => rw [hji, hki]
      case isFalse =>
        cases hj
        exact absurd hk (hnone k)
    case isFalse =>
      split at hk
      case isTrue =>
        cases hk
        exact absurd hj (hnone j)
      case isFalse => exact h.distinct j k q hj hk
  · intro r hr
    have hold := hback r hr
    rw [hpath, if_neg (hne r hold)]
    exact h.alive r hold
  · intro iter hmem hops
    rcases mem_or_eq_of_mem_set hmem with hold | rfl
    · exact h.paths_ok iter hold hops
    · cases hops
  · intro u j hu
    rcases hplace u _ hu with ⟨hold, -⟩ | ⟨-, hq⟩
    · obtain ⟨hused, hfree⟩ := h.mounting_ok u j hold
      have hji : j ≠ i := by
        rintro rfl
        exact hmounting u hold
      rw [hpath, if_neg hji]
      exact ⟨hused, fun n hr => hfree n (hback _ hr)⟩
    · cases hq
      rw [hpath, if_pos rfl]
      exact ⟨rfl, fun n hr => hne _ (hback _ hr) rfl⟩
  · intro u v j hu hv
    rcases hplace u _ hu with ⟨holdU, -⟩ | ⟨hut, hqU⟩
    · rcases hplace v _ hv with ⟨holdV, -⟩ | ⟨-, hqV⟩
      · exact h.mounting_inj u v j holdU holdV
      · cases hqV
        exact absurd holdU (hmounting u)
    · cases hqU
      rcases hplace v _ hv with ⟨holdV, -⟩ | ⟨hvt, -⟩
      · exact absurd holdV (hmounting v)
      · rw [hut, hvt]
  · intro u q hu r hr
    have hold := hback r hr
    rw [hpath, if_neg (hne r hold)]
    rcases hplace u _ hu with ⟨holdU, -⟩ | ⟨-, hq⟩
    · exact h.unmounting_ok u q holdU r hold
    · cases hq

omit [DecidableEq τ] in
/-- A descriptor changes; it is open afterwards only on an entry that files may be opened on. -/
theorem MountInv.set_fd (h : MountInv s) (d : Nat) (fd : FsFd)
    (hfd : ∀ r, fd.opened = true → fd.fs = some r → ∃ i, r = (i, s.serial i) ∧
      (s.pathAt i).isSome ∧ MayOpen s i) : MountInv { s with fds := s.fds.set d fd } := by
  refine h.of_table rfl rfl ?_ (fun _ _ hu => hu) (fun _ _ hu => .inl hu)
  rintro r (⟨other, hmem, hopened, hfs⟩ | hplace)
  · rcases mem_or_eq_of_mem_set hmem with hold | rfl
    · exact .inl (.inl ⟨other, hold, hopened, hfs⟩)
    · exact .inr (hfd r hopened hfs)
  · exact .inl (.inr hplace)

/-! ## The steps keep the invariant -/

theorem MountInv.goto_idle (h : MountInv s) : MountInv (s.goto t .idle) :=
  h.goto nofun nofun nofun

omit [DecidableEq τ] in
/-- What the check of `dfs_unmount` leaves: no open descriptor on a file system mounted on `path`,
if those outside the descriptor table are seen to. -/
theorem check_ok {path : List Byte} (hcheck : checkUninstallFsValid s path = true)
    (houtside : ∀ r, RefersOutside s r → s.pathAt r.1 ≠ some path) (r : Nat × Nat)
    (hr : Refers s r) : s.pathAt r.1 ≠ some path := by
  rcases hr with ⟨fd, hmem, hopened, hfs⟩ | hplace
  · by_cases htable : fd.inTable = true
    · intro hpath
      have hfd := List.all_eq_true.mp hcheck fd hmem
      rw [htable, hfs] at hfd
      simp [hpath] at hfd
    · exact houtside r (.inl ⟨fd, hmem, Bool.not_eq_true _ ▸ htable, hopened, hfs⟩)
  · exact houtside r (.inr hplace)

omit [DecidableEq τ] in
/-- The entry that `dfs_unmount` removes is in use. -/
theorem remove_found (h : MountInv s) {path : List Byte}
    (hfind : s.table.findIdx? (fun iter => decide (iter.path = some path)) = some i) :
    s.pathAt i = some path := by
  obtain ⟨hlt, hpath, -⟩ := findIdx?_eq_some_iff_getElem.mp hfind
  have hiter := of_decide_eq_true hpath
  have hmem : s.table[i] ∈ s.table := getElem_mem hlt
  unfold MountSys.pathAt mountPath
  rw [getElem?_eq_getElem hlt, bind_some]
  cases hops : s.table[i].ops with
  | none =>
    rw [h.paths_ok _ hmem hops] at hiter
    cases hiter
  | some ops => exact hiter

theorem step_mount_ok {op : MountOp τ} (h : MountInv s) (hallowed : MountAllowed s op)
    (hstep : stepMount s op = some s') : MountInv s' := by
  cases op with simp only [stepMount] at hstep
  | mount t directory path =>
    split at hstep
    · split at hstep
      · cases hstep
        exact h
      · split at hstep
        · cases hstep
          exact h.goto nofun nofun nofun
        · cases hstep
          exact h.goto nofun nofun nofun
    · cases hstep
  | probe t directory ok =>
    split at hstep
    case h_1 path fullpath hplace =>
      split at hstep
      · cases hstep
        exact h.goto_idle
      case h_2 i hfind =>
        cases ok with
        | false =>
          cases hstep
          exact h.goto_idle
        | true =>
          cases hstep
          refine h.of_table rfl rfl ?_ ?_ ?_
          · intro r hr
            rcases refers_goto hr with hold | ⟨q, fullq, hq⟩
            · exact .inl hold
            · cases hq
              exact .inr ⟨i, rfl, find_used hfind, hallowed path fullpath hplace i hfind⟩
          · intro u j hu
            rw [place_goto] at hu
            split at hu
            · cases hu
            · exact hu
          · intro u q hu
            rw [place_goto] at hu
            split at hu
            · cases hu
            · exact .inl hu
    case h_2 => cases hstep
  | probeClose t =>
    split at hstep
    · cases hstep
      exact h.goto nofun nofun nofun
    · cases hstep
  | register t rwflag =>
    split at hstep
    case h_1 path fullpath hplace =>
      split at hstep
      · cases hstep
        exact h.goto_idle
      case h_2 i hentry =>
        cases hstep
        exact register_ok h hentry (hallowed path fullpath hplace) rwflag
    case h_2 => cases hstep
  | mounted t ok =>
    split at hstep
    case h_1 i hplace =>
      cases ok with
      | true =>
        cases hstep
        exact h.goto_idle
      | false =>
        cases hstep
        exact clear_ok h (h.mounting_ok t i hplace).2
          fun u hu => h.mounting_inj u t i hu hplace
    case h_2 => cases hstep
  | unmount t directory specialfile =>
    split at hstep
    · split at hstep
      · cases hstep
        exact h
      case h_2 fullpath hnormal =>
        split at hstep
        case isTrue hcheck =>
          cases hstep
          refine h.goto nofun nofun fun path hpath => ?_
          cases hpath
          exact check_ok hcheck (hallowed fullpath hnormal hcheck)
        case isFalse =>
          cases hstep
          exact h
    · cases hstep
  | remove t ok =>
    split at hstep
    case h_1 fullpath hplace =>
      split at hstep
      · cases hstep
        exact h.goto_idle
      case h_2 i hfind =>
        have hpath := remove_found h hfind
        cases ok with
        | false =>
          cases hstep
          exact h.goto_idle
        | true =>
          cases hstep
          refine clear_ok h (fun n hr => h.unmounting_ok t fullpath hplace (i, n) hr hpath) ?_
          exact fun u hu => absurd hpath (hallowed fullpath hplace u i hu)
    case h_2 => cases hstep
  | fdNew d =>
    split at hstep
    · cases hstep
      exact h.set_fd d _ nofun
    · cases hstep
  | fdFree d =>
    split at hstep
    · cases hstep
      exact h.set_fd d _ nofun
    · cases hstep
  | fileOpen d directory path ok =>
    split at hstep
    · split at hstep
      case h_1 i ok hfind =>
        cases hstep
        refine h.set_fd d _ fun r hopened hr => ?_
        cases ok with
        | false => cases hopened
        | true =>
          cases hr
          exact ⟨i, rfl, find_used hfind, hallowed i hfind⟩
      · cases hstep
        exact h
    · cases hstep
  | fileClose d =>
    split at hstep
    · cases hstep
      exact h.set_fd d _ nofun
    · cases hstep

/-! ## Runs -/

omit [DecidableEq τ] in
theorem mount_inv_start (filesystems descriptors : Nat) :
    MountInv (noMounts τ filesystems descriptors) := by
  have hentry : ∀ iter ∈ (noMounts τ filesystems descriptors).table, iter = emptyFs :=
    fun iter hmem => eq_of_mem_replicate hmem
  have hpath : ∀ i, (noMounts τ filesystems descriptors).pathAt i = none := by
    intro i
    cases hget : (noMounts τ filesystems descriptors).table[i]? with
    | none => exact bind_eq_none_iff.mpr fun iter hiter => nomatch hget.symm.trans hiter
    | some iter =>
      unfold MountSys.pathAt
      rw [hget, hentry iter (mem_of_getElem? hget)]
      rfl
  have hrefers : ∀ r, ¬ Refers (noMounts τ filesystems descriptors) r := by
    rintro r (⟨fd, hmem, hopened, -⟩ | ⟨t, path, fullpath, hplace⟩)
    · rw [eq_of_mem_replicate hmem] at hopened
      cases hopened
    · cases hplace
  exact {
    distinct := fun i j path hi _ => nomatch (hpath i).symm.trans hi
    alive := fun r hr => absurd hr (hrefers r)
    paths_ok := fun iter hmem _ => by rw [hentry iter hmem]; rfl
    mounting_ok := nofun
    mounting_inj := nofun
    unmounting_ok := nofun }

/-- In every run of any number of threads that keeps to `MountAllowed`, no path is mounted twice,
and no open descriptor refers to an entry that was unmounted or used again. -/
theorem mounts_sound {ops : List (MountOp τ)} (filesystems descriptors : Nat)
    (h : AllSteps stepMount MountAllowed (noMounts τ filesystems descriptors) ops) :
    Always stepMount MountsSound (noMounts τ filesystems descriptors) ops :=
  always_of_invariant (fun _ _ _ hinv hallowed hstep => step_mount_ok hinv hallowed hstep)
    (fun _ hinv => hinv.toMountsSound) (mount_inv_start filesystems descriptors) h

/-- Mount a file system on `/`. -/
def mountRoot : List (MountOp Bool) :=
  [.mount false [slash] [slash], .register false 0, .mounted false true]

theorem normalize_root : dfsNormalizePath [slash] [slash] = some [slash] := by decide +kernel

/-- A file is opened and closed between mounting and unmounting. -/
theorem mounts_sound_file :
    Always stepMount MountsSound (noMounts Bool 1 1) (mountRoot ++
      [.fdNew 0, .fileOpen 0 [slash] [slash] (some true), .fileClose 0, .fdFree 0,
        .unmount true [slash] [slash], .remove true true]) := by
  refine mounts_sound 1 1 ?_
  refine cons trivial (by simp only [stepMount, normalize_root]; rfl) ?_
  refine cons ?_ rfl ?_
  · intro path fullpath hplace
    cases hplace
    exact .inl rfl
  refine cons trivial rfl (cons trivial rfl ?_)
  refine cons ?_ (by simp only [stepMount, MountSys.find, normalize_root]; rfl) ?_
  · intro i _ u
    cases u <;> exact ⟨nofun, nofun⟩
  refine cons trivial rfl (cons trivial rfl ?_)
  refine cons ?_ (by simp only [stepMount, normalize_root]; rfl) ?_
  · rintro fullpath - - r (⟨fd, hmem, -, hopened, -⟩ | ⟨u, path, full, hplace⟩)
    · cases mem_singleton.mp hmem
      cases hopened
    · cases u <;> cases hplace
  refine cons ?_ rfl trivial
  intro fullpath _ u i hplace
  cases u <;> cases hplace

/-- A file is opened between the two halves of `dfs_unmount`, and `/dev` is mounted again as
`/dev/`. -/
theorem removed_and_mounted_twice :
    ¬ Always stepMount MountsSound (noMounts Bool 1 1) (mountRoot ++
      [.fdNew 0, .unmount true [slash] [slash], .fileOpen 0 [slash] [slash] (some true),
        .remove true true]) ∧
    ¬ Always stepMount MountsSound (noMounts Bool 2 0)
      [.mount false [slash] devPath, .register false 0, .mounted false true,
        .mount false [slash] (devPath ++ [slash]), .register false 0] := by
  constructor
  · intro h
    have hlast : (exec stepMount (noMounts Bool 1 1) (mountRoot ++
        [.fdNew 0, .unmount true [slash] [slash], .fileOpen 0 [slash] [slash] (some true),
          .remove true true])).map (fun s => (s.fds, s.pathAt 0)) =
        some ([⟨true, true, some (0, 0)⟩], none) := by decide +kernel
    obtain ⟨s, hrun, hs⟩ := map_eq_some_iff.mp hlast
    obtain ⟨hfds, hpath⟩ := Prod.mk.inj hs
    have hrefers : Refers s (0, 0) := .inl ⟨_, hfds ▸ mem_singleton.mpr rfl, rfl, rfl⟩
    have halive := ((h.last hrun).alive (0, 0) hrefers).1
    rw [hpath] at halive
    cases halive
  · intro h
    have hlast : (exec stepMount (noMounts Bool 2 0)
        [.mount false [slash] devPath, .register false 0, .mounted false true,
          .mount false [slash] (devPath ++ [slash]), .register false 0]).map
          (fun s => (s.pathAt 0, s.pathAt 1)) = some (some devPath, some devPath) := by
      decide +kernel
    obtain ⟨s, hrun, hs⟩ := map_eq_some_iff.mp hlast
    obtain ⟨hfirst, hsecond⟩ := Prod.mk.inj hs
    cases (h.last hrun).distinct 0 1 devPath hfirst hsecond

end FullhanRtos.Dfs
