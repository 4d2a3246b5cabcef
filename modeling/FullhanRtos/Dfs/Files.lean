import FullhanRtos.Dfs.Lookup
import FullhanRtos.Lib.Ledger

/-!
# File operations

`dfs_file_open`, `dfs_file_close`, `dfs_file_unlink`, `dfs_file_stat` and `dfs_file_rename` of
`fs/src/dfs_file.c`, as far as the lock of the file systems, the strings of the paths and the
callbacks of a file system go. An operation returns nothing where it reads through `NULL`.
`balanced_iff` says which calls give back the lock and the strings.
-/

namespace FullhanRtos.Dfs

open Bytes Ledgers List

/-! ## Descriptors and callbacks -/

/-- A string in a block of memory. -/
structure Str where
  block : Nat
  text : List Byte

def ftRegular : Nat := 0
def ftDirectory : Nat := 2

structure DfsFd (φ : Type*) where
  type : Nat
  path : Option Str
  fs : Option Nat
  fops : Option φ
  flags : Nat
  size : Nat
  pos : Nat
  data : Option Nat
  size64 : Nat
  pos64 : Nat

/-- A callback on a descriptor; it leaves the path alone. -/
abbrev FdCallback (φ : Type*) := { f : DfsFd φ → Int × DfsFd φ // ∀ fd, (f fd).2.path = fd.path }

structure DfsFileOps (φ : Type*) where
  openFile : Option (FdCallback φ)
  close : Option (FdCallback φ)

/-- What `dfs_file_stat` writes. -/
structure Stat where
  stDev : Nat
  stMode : Nat
  stSize : Nat
  stMtime : Nat

structure DfsFilesystemOps (φ : Type*) where
  flags : Nat
  fops : φ
  unlink : Option (List Byte → Int)
  stat : Option (List Byte → Stat → Int × Stat)
  rename : Option (Option (List Byte) → Option (List Byte) → Int)

variable {φ : Type*}

/-- What an operation finds: the working directory, the tables, the functions behind a pointer, and
which requests for memory succeed. -/
structure Env (φ : Type*) where
  directory : List Byte
  table : List (DfsFilesystem (DfsFilesystemOps φ))
  fds : List (Option (DfsFd φ))
  fileOps : φ → DfsFileOps φ
  room : Nat → Bool

def dfsMsRdonly : Nat := 1

def dfsFsFlagFullpath : Nat := 1

/-- `O_ACCMODE|O_CREAT|O_TRUNC|O_APPEND` -/
def writeFlags : Nat := 3 ||| 0x200 ||| 0x400 ||| 8

def oDirectory : Nat := 0x200000
def dfsFOpen : Nat := 0x01000000
def dfsFDirectory : Nat := 0x02000000

def enoent : Int := 2
def enxio : Int := 6
def enomem : Int := 12
def ebusy : Int := 16
def exdev : Int := 18
def einval : Int := 22
def erofs : Int := 30
def enosys : Int := 88

/-! ## The lock and the strings -/

/-- The calling thread: how often it holds `fslock`, and its blocks. -/
structure Caller where
  hold : Nat
  ledger : Ledger

def dfsLock (s : Caller) : Caller := { s with hold := s.hold + 1 }

def dfsUnlock (s : Caller) : Caller := { s with hold := s.hold - 1 }

def rtFree (str : Option Str) (s : Caller) : Caller :=
  { s with ledger := free (str.map Str.block) s.ledger }

/-- A block with the string `text`, or `NULL` without memory. -/
def rtStrdup (room : Nat → Bool) (text : List Byte) (s : Caller) : Option Str × Caller :=
  ((malloc room s.ledger).1.map fun block => { block := block, text := text },
    { s with ledger := (malloc room s.ledger).2 })

/-- `dfs_normalize_path(NULL, filename)`: one block, which is freed where `..` leads too far. -/
def normalizePath (env : Env φ) (filename : List Byte) (s : Caller) : Option Str × Caller :=
  match rtStrdup env.room filename s with
  | (none, s) => (none, s)
  | (some fullpath, s) =>
    match dfsNormalizePath env.directory filename with
    | none => (none, rtFree (some fullpath) s)
    | some path => (some { fullpath with text := path }, s)

/-- The entry that `dfs_filesystem_lookup` returns, with its place in the table. -/
def findFs (env : Env φ) (path : List Byte) :
    Option (Nat × DfsFilesystem (DfsFilesystemOps φ)) :=
  (dfsFilesystemLookup env.table path).bind fun i => env.table[i]?.map (i, ·)

def lookupFs (env : Env φ) (path : List Byte) (s : Caller) :
    Option (Nat × DfsFilesystem (DfsFilesystemOps φ)) × Caller :=
  (findFs env path, dfsUnlock (dfsLock s))

/-- What a call returns, with the descriptor that it was given. -/
structure Outcome (φ : Type*) where
  result : Int
  fd : Option (DfsFd φ)
  s : Caller

/-! ## Opening and closing -/

/-- The path of a descriptor: the whole one, or the part below the mount point. -/
def openPath (env : Env φ) (ops : DfsFilesystemOps φ) (mount : List Byte) (fullpath : Str)
    (s : Caller) : Option Str × Caller :=
  if ops.flags &&& dfsFsFlagFullpath = 0 then
    match rtStrdup env.room ((dfsSubdir mount fullpath.text).getD [slash]) s with
    | (path, s) => (path, rtFree (some fullpath) s)
  else (some fullpath, s)

/-- The call of the callback, and what follows it. -/
def openCallback (env : Env φ) (fops : φ) (fd : DfsFd φ) (flags : Nat) (s : Caller) : Outcome φ :=
  match (env.fileOps fops).openFile with
  | none =>
    { result := -enosys, fd := some { fd with path := none }, s := dfsUnlock (rtFree fd.path s) }
  | some callback =>
    match callback.1 fd with
    | (result, fd) =>
      if result < 0 then
        { result := result, fd := some { fd with path := none },
          s := dfsUnlock (rtFree fd.path s) }
      else if flags &&& oDirectory ≠ 0 then
        { result := 0,
          fd := some { fd with
            type := ftDirectory, flags := fd.flags ||| dfsFOpen ||| dfsFDirectory },
          s := dfsUnlock s }
      else
        { result := 0, fd := some { fd with flags := fd.flags ||| dfsFOpen }, s := dfsUnlock s }

def dfsFileOpen (env : Env φ) (fd : Option (DfsFd φ)) (path : List Byte) (flags : Nat)
    (s : Caller) : Option (Outcome φ) :=
  match fd with
  | none => some { result := -einval, fd := none, s := s }
  | some fd =>
    match normalizePath env path s with
    | (none, s) => some { result := -enomem, fd := some fd, s := s }
    | (some fullpath, s) =>
      match lookupFs env fullpath.text (dfsLock s) with
      | (none, s) => some
          { result := -enoent, fd := some fd, s := dfsUnlock (rtFree (some fullpath) s) }
      | (some (i, fs), s) =>
        match fs.ops with
        | none => some
            { result := -enoent, fd := some fd, s := dfsUnlock (rtFree (some fullpath) s) }
        | some ops =>
          if fs.flags &&& dfsMsRdonly ≠ 0 ∧ flags &&& writeFlags ≠ 0 then
            some { result := -erofs, fd := some fd, s := s }
          else
            match fs.path with
            | none => none
            | some mount =>
              match openPath env ops mount fullpath s with
              | (path, s) => some <| openCallback env ops.fops
                  { type := ftRegular, path := path, fs := some i, fops := some ops.fops
                    flags := flags, size := 0, pos := 0, data := some i
                    size64 := 0, pos64 := 0 } flags s

def dfsFileClose (env : Env φ) (fd : Option (DfsFd φ)) (s : Caller) : Option (Outcome φ) :=
  match fd with
  | none => some { result := -enxio, fd := none, s := s }
  | some fd =>
    let type := fd.type
    let s := if type = ftRegular then dfsLock s else s
    let called : Int × DfsFd φ :=
      match fd.fops.bind fun fops => (env.fileOps fops).close with
      | none => (0, fd)
      | some callback => callback.1 fd
    let s := if type = ftRegular then dfsUnlock s else s
    some { result := called.1, fd := some { called.2 with path := none },
           s := rtFree called.2.path s }

/-! ## Operations on paths -/

/-- The path of a file on its file system, as `fd_is_open` computes it. -/
def mountpath (mount path : List Byte) : List Byte :=
  if mount = [slash] then path else path.drop mount.length

/-- The loop of `fd_is_open`. -/
def isOpened (env : Env φ) (fs : Nat) (path : List Byte) : Bool :=
  env.fds.any fun fd =>
    fd.any fun fd => fd.fops.isSome && fd.fs = some fs && fd.path.any (·.text = path)

def fdIsOpen (env : Env φ) (pathname : List Byte) (s : Caller) : Option (Int × Caller) :=
  match normalizePath env pathname s with
  | (none, s) => some (-1, s)
  | (some fullpath, s) =>
    match lookupFs env fullpath.text s with
    | (none, s) => some (-1, rtFree (some fullpath) s)
    | (some (i, fs), s) =>
      match fs.path with
      | none => none
      | some mount =>
        let s := dfsLock s
        if isOpened env i (mountpath mount fullpath.text) then
          some (0, dfsUnlock (rtFree (some fullpath) s))
        else some (-1, rtFree (some fullpath) (dfsUnlock s))

/-- `dfs_file_unlink`, up to the label `__exit`. -/
def unlinkBody (env : Env φ) (fullpath : Str) (s : Caller) : Option (Int × Caller) :=
  match lookupFs env fullpath.text s with
  | (none, s) => some (-enoent, s)
  | (some (_, fs), s) =>
    if fs.flags &&& dfsMsRdonly ≠ 0 then some (-erofs, s)
    else
      match fs.ops with
      | none => some (-enoent, s)
      | some ops =>
        match fdIsOpen env fullpath.text s with
        | none => none
        | some (opened, s) =>
          if opened = 0 then some (-ebusy, s)
          else
            match ops.unlink, fs.path with
            | none, _ => some (-enosys, s)
            | some _, none => none
            | some unlink, some mount =>
              if ops.flags &&& dfsFsFlagFullpath = 0 then
                some (unlink ((dfsSubdir mount fullpath.text).getD [slash]), s)
              else some (unlink fullpath.text, s)

def dfsFileUnlink (env : Env φ) (path : List Byte) (s : Caller) : Option (Outcome φ) :=
  match normalizePath env path s with
  | (none, s) => some { result := -einval, fd := none, s := s }
  | (some fullpath, s) =>
    (unlinkBody env fullpath (dfsLock s)).map fun out =>
      { result := out.1, fd := none, s := rtFree (some fullpath) (dfsUnlock out.2) }

/-- What `dfs_file_stat` says of the root of a file system: a directory with all rights. -/
def rootStat : Stat := { stDev := 0, stMode := 0o040777, stSize := 0, stMtime := 0 }

def dfsFileStat (env : Env φ) (path : List Byte) (buf : Stat) (s : Caller) :
    Option (Stat × Outcome φ) :=
  match normalizePath env path s with
  | (none, s) => some (buf, { result := -1, fd := none, s := s })
  | (some fullpath, s) =>
    let s := dfsLock s
    let leave (out : Int × Stat) (s : Caller) : Option (Stat × Outcome φ) :=
      some (out.2, { result := out.1, fd := none, s := dfsUnlock (rtFree (some fullpath) s) })
    match lookupFs env fullpath.text s with
    | (none, s) => leave (-enoent, buf) s
    | (some (_, fs), s) =>
      match fs.ops, fs.path with
      | none, _ => leave (-enoent, buf) s
      | some _, none => none
      | some ops, some mount =>
        match dfsSubdir mount fullpath.text with
        | none => leave (0, rootStat) s
        | some subdir =>
          if fullpath.text = [slash] then leave (0, rootStat) s
          else
            match ops.stat with
            | none => leave (-enosys, buf) s
            | some stat =>
              if ops.flags &&& dfsFsFlagFullpath ≠ 0 then leave (stat fullpath.text buf) s
              else leave (stat subdir buf) s

/-- `dfs_file_rename` between the paths and the label `__exit`. -/
def renameBody (env : Env φ) (oldfullpath newfullpath : List Byte) (s : Caller) :
    Option (Int × Caller) :=
  match lookupFs env oldfullpath s with
  | (oldfs, s) =>
    match lookupFs env newfullpath s with
    | (none, s) => some (-enoent, s)
    | (some (j, newfs), s) =>
      if newfs.flags &&& dfsMsRdonly ≠ 0 then some (-erofs, s)
      else
        match oldfs with
        | none => none
        | some (i, oldfs) =>
          match oldfs.ops with
          | none => some (-enoent, s)
          | some ops =>
            if i ≠ j then some (-exdev, s)
            else
              match ops.rename, oldfs.path, newfs.path with
              | none, _, _ => some (-enosys, s)
              | some rename, some oldmount, some newmount =>
                if ops.flags &&& dfsFsFlagFullpath ≠ 0 then
                  some (rename (some oldfullpath) (some newfullpath), s)
                else
                  some (rename (dfsSubdir oldmount oldfullpath)
                    (dfsSubdir newmount newfullpath), s)
              | some _, _, _ => none

def dfsFileRename (env : Env φ) (oldpath newpath : List Byte) (s : Caller) : Option (Outcome φ) :=
  match normalizePath env oldpath (dfsLock s) with
  | (none, s) => some { result := -enoent, fd := none, s := dfsUnlock s }
  | (some oldfullpath, s) =>
    match normalizePath env newpath s with
    | (none, s) => some
        { result := -enoent, fd := none, s := dfsUnlock (rtFree (some oldfullpath) s) }
    | (some newfullpath, s) =>
      (renameBody env oldfullpath.text newfullpath.text s).map fun out =>
        { result := out.1, fd := none
          s := dfsUnlock (rtFree (some newfullpath) (rtFree (some oldfullpath) out.2)) }

/-! ## What is given back -/

/-- The lock is held `hold` times, and the blocks in `kept` are still to be freed. -/
structure Keeps (env : Env φ) (first hold : Nat) (s : Caller) (kept : List Nat) : Prop where
  hold_eq : s.hold = hold
  owes : Owes env.room first s.ledger kept

variable {env : Env φ} {first hold : Nat} {s : Caller} {kept : List Nat}

theorem Keeps.lock (h : Keeps env first hold s kept) :
    Keeps env first (hold + 1) (dfsLock s) kept :=
  ⟨congrArg (· + 1) h.hold_eq, h.owes⟩

theorem Keeps.unlock (h : Keeps env first (hold + 1) s kept) :
    Keeps env first hold (dfsUnlock s) kept :=
  ⟨congrArg (· - 1) h.hold_eq, h.owes⟩

theorem Keeps.free (str : Option Str)
    (h : Keeps env first hold s ((str.map Str.block).toList ++ kept)) :
    Keeps env first hold (rtFree str s) kept := by
  cases str with
  | none => exact h
  | some str => exact ⟨h.hold_eq, h.owes.free⟩

theorem Keeps.strdup (h : Keeps env first hold s kept) (text : List Byte) :
    Keeps env first hold (rtStrdup env.room text s).2
      (((rtStrdup env.room text s).1.map Str.block).toList ++ kept) := by
  refine ⟨h.hold_eq, ?_⟩
  have hblock : (rtStrdup env.room text s).1.map Str.block = (malloc env.room s.ledger).1 := by
    rw [rtStrdup, Option.map_map]
    exact congrFun Option.map_id _
  rw [hblock]
  exact h.owes.malloc

open Keeps

theorem Keeps.normalize (h : Keeps env first hold s kept) (filename : List Byte) :
    Keeps env first hold (normalizePath env filename s).2
      (((normalizePath env filename s).1.map Str.block).toList ++ kept) := by
  have hdup := h.strdup filename
  unfold normalizePath
  rcases hcopy : rtStrdup env.room filename s with ⟨_ | fullpath, s'⟩
  · rw [hcopy] at hdup
    exact hdup
  · rw [hcopy] at hdup
    cases dfsNormalizePath env.directory filename with
    | none => exact free (some fullpath) hdup
    | some path => exact hdup

theorem Keeps.lookup (h : Keeps env first hold s kept) (path : List Byte) :
    Keeps env first hold (lookupFs env path s).2 kept :=
  h.lock.unlock

/-- An entry that is found is in use. -/
theorem find_fs_used {path : List Byte} {i : Nat} {fs : DfsFilesystem (DfsFilesystemOps φ)}
    (h : findFs env path = some (i, fs)) :
      ∃ ops mount, fs.ops = some ops ∧ fs.path = some mount := by
  obtain ⟨j, hj, hget⟩ := Option.bind_eq_some_iff.mp h
  obtain ⟨iter, mount, hiter, hmount, -⟩ := (filesystem_lookup_ok env.table path).fs_ok j hj
  rw [hiter] at hget
  cases hget
  obtain ⟨ops, hops, hpath⟩ := Option.bind_eq_some_iff.mp hmount
  exact ⟨ops, mount, hops, hpath⟩

/-! ## Opening and closing give back -/

theorem Keeps.open_path {fullpath : Str} (h : Keeps env first hold s (fullpath.block :: kept))
    (ops : DfsFilesystemOps φ) (mount : List Byte) :
    Keeps env first hold (openPath env ops mount fullpath s).2
      (((openPath env ops mount fullpath s).1.map Str.block).toList ++ kept) := by
  unfold openPath
  split
  · have hdup := h.strdup ((dfsSubdir mount fullpath.text).getD [slash])
    refine free (some fullpath) ⟨hdup.hold_eq, hdup.owes.perm ?_⟩
    exact perm_middle
  · exact h

/-- The block that is stored in a descriptor. -/
def stored (fd : Option (DfsFd φ)) : List Nat := ((fd.bind DfsFd.path).map Str.block).toList

theorem Keeps.open_callback {fd : DfsFd φ}
    (h : Keeps env first (hold + 1) s ((fd.path.map Str.block).toList)) (fops : φ) (flags : Nat) :
    Keeps env first hold (openCallback env fops fd flags s).s
      (stored (openCallback env fops fd flags s).fd) := by
  have hfree : Keeps env first hold (dfsUnlock (rtFree fd.path s)) [] :=
    (free fd.path (by rw [append_nil]; exact h)).unlock
  unfold openCallback
  cases (env.fileOps fops).openFile with
  | none => exact hfree
  | some callback =>
    have hpath : (callback.1 fd).2.path = fd.path := callback.2 fd
    have hkept : Keeps env first hold (dfsUnlock s)
        ((callback.1 fd).2.path.map Str.block).toList := by
      rw [hpath]
      exact h.unlock
    dsimp only
    split
    · rw [hpath]
      exact hfree
    · split
      · exact hkept
      · exact hkept

/-- What every call should leave behind: the lock as before, and each block of its own freed or
stored in the descriptor, once. -/
def Balanced (env : Env φ) (first hold : Nat) (out : Option (Outcome φ)) : Prop :=
  ∃ o, out = some o ∧ o.s.hold = hold ∧
    ∀ p, first ≤ p → p < o.s.ledger.requests → env.room p = true →
      o.s.ledger.freed.count p + (stored o.fd).count p = 1

/-- The path of the descriptor that a call is given is a block from before the call. -/
def Earlier (first : Nat) (fd : Option (DfsFd φ)) : Prop := ∀ p ∈ stored fd, p < first

theorem Earlier.count_eq {fd : Option (DfsFd φ)} (h : Earlier first fd) {p : Nat} (hp : first ≤ p) :
    (stored fd).count p = 0 :=
  count_eq_zero.mpr fun hmem => absurd (h p hmem) (Nat.not_lt_of_le hp)

theorem balanced_of_keeps {o : Outcome φ} (h : Keeps env first hold o.s kept)
    (hstored : ∀ p, first ≤ p → (stored o.fd).count p = kept.count p) :
    Balanced env first hold (some o) := by
  refine ⟨o, rfl, h.hold_eq, fun p hfirst hlt hroom => ?_⟩
  rw [hstored p hfirst, h.owes.once p hfirst, if_pos ⟨hlt, hroom⟩]

/-- The path that a call works on, if its request for memory `first` succeeds. -/
def fullpathOf (env : Env φ) (first : Nat) (path : List Byte) : Option (List Byte) :=
  if env.room first = true then dfsNormalizePath env.directory path else none

theorem normalize_path_text (env : Env φ) (path : List Byte) (s : Caller) :
    (normalizePath env path s).1.map Str.text = fullpathOf env s.ledger.requests path := by
  unfold normalizePath fullpathOf rtStrdup malloc
  by_cases hroom : env.room s.ledger.requests = true
  · simp only [hroom, if_true]
    cases dfsNormalizePath env.directory path <;> rfl
  · simp only [hroom, if_false, Bool.false_eq_true]
    rfl

/-- A file system that is mounted read only is asked for more than reading. -/
def RefusesWrite (env : Env φ) (first : Nat) (path : List Byte) (flags : Nat) : Prop :=
  ∃ fullpath i fs, fullpathOf env first path = some fullpath ∧ findFs env fullpath = some (i, fs) ∧
    fs.flags &&& dfsMsRdonly ≠ 0 ∧ flags &&& writeFlags ≠ 0

def startCall (hold first : Nat) : Caller := { hold := hold, ledger := ⟨first, []⟩ }

theorem keeps_start (env : Env φ) (first hold : Nat) :
    Keeps env first hold (startCall hold first) [] :=
  ⟨rfl, owes_start env.room first⟩

theorem open_balanced {fd : DfsFd φ} {path : List Byte} {flags : Nat}
    (hfd : Earlier first (some fd)) (hflags : ¬ RefusesWrite env first path flags) :
    Balanced env first hold (dfsFileOpen env (some fd) path flags (startCall hold first)) := by
  have hnormal := (keeps_start env first hold).normalize path
  have htext := normalize_path_text env path (startCall hold first)
  unfold dfsFileOpen
  rcases hpath : normalizePath env path (startCall hold first) with ⟨_ | fullpath, s⟩
  · rw [hpath] at hnormal
    exact balanced_of_keeps hnormal fun p hp => hfd.count_eq hp
  · rw [hpath] at hnormal htext
    have hlookup := hnormal.lock.lookup fullpath.text
    have hleave := (free (some fullpath) hlookup).unlock
    dsimp only [lookupFs]
    cases hfind : findFs env fullpath.text with
    | none => exact balanced_of_keeps hleave fun p hp => hfd.count_eq hp
    | some found =>
      obtain ⟨i, fs⟩ := found
      obtain ⟨ops, mount, hops, hmount⟩ := find_fs_used hfind
      have hallowed : ¬ (fs.flags &&& dfsMsRdonly ≠ 0 ∧ flags &&& writeFlags ≠ 0) :=
        fun hrefused => hflags ⟨fullpath.text, i, fs, htext.symm, hfind, hrefused⟩
      dsimp only
      rw [hops, hmount]
      dsimp only
      rw [if_neg hallowed]
      have howned : Keeps env first (hold + 1) (dfsUnlock (dfsLock (dfsLock s)))
          (fullpath.block :: []) := hlookup
      have hopen := howned.open_path ops mount
      rw [append_nil] at hopen
      exact balanced_of_keeps (open_callback hopen ops.fops flags) fun p _ => rfl

theorem close_balanced {fd : Option (DfsFd φ)} (hfd : Earlier first fd) :
    Balanced env first hold (dfsFileClose env fd (startCall hold first)) := by
  have hstart := keeps_start env first hold
  cases fd with
  | none => exact balanced_of_keeps hstart fun p _ => rfl
  | some fd =>
    have hbalanced : ∀ called : Int × DfsFd φ, called.2.path = fd.path →
        Balanced env first hold (some
          { result := called.1, fd := some { called.2 with path := none },
            s := rtFree called.2.path (if fd.type = ftRegular then
              dfsUnlock (if fd.type = ftRegular then dfsLock (startCall hold first)
                else startCall hold first)
              else (if fd.type = ftRegular then dfsLock (startCall hold first)
                else startCall hold first)) }) := by
      intro called hpath
      have hlocked : Keeps env first hold (if fd.type = ftRegular then
          dfsUnlock (if fd.type = ftRegular then dfsLock (startCall hold first)
            else startCall hold first)
          else (if fd.type = ftRegular then dfsLock (startCall hold first)
            else startCall hold first)) [] := by
        split
        · exact hstart.lock.unlock
        · exact hstart
      rw [hpath]
      cases hold' : fd.path with
      | none => exact balanced_of_keeps hlocked fun p _ => rfl
      | some str =>
        have hblock : str.block < first := hfd str.block (by simp [stored, hold'])
        have hfreed : Keeps env first hold (rtFree (some str) _) [] :=
          ⟨hlocked.hold_eq, hlocked.owes.free_earlier hblock⟩
        exact balanced_of_keeps hfreed fun p _ => rfl
    unfold dfsFileClose
    dsimp only
    cases fd.fops.bind fun fops => (env.fileOps fops).close with
    | none => exact hbalanced (0, fd) rfl
    | some callback => exact hbalanced (callback.1 fd) (callback.2 fd)

/-! ## The operations on paths give back -/

theorem Keeps.is_open (h : Keeps env first hold s kept) (pathname : List Byte) :
    ∃ opened s', fdIsOpen env pathname s = some (opened, s') ∧ Keeps env first hold s' kept := by
  have hnormal := h.normalize pathname
  unfold fdIsOpen
  rcases hpath : normalizePath env pathname s with ⟨_ | fullpath, s'⟩
  · rw [hpath] at hnormal
    exact ⟨-1, s', rfl, hnormal⟩
  · rw [hpath] at hnormal
    have hlookup := hnormal.lookup fullpath.text
    dsimp only [lookupFs]
    cases hfind : findFs env fullpath.text with
    | none => exact ⟨-1, _, rfl, free (some fullpath) hlookup⟩
    | some found =>
      obtain ⟨i, fs⟩ := found
      obtain ⟨ops, mount, -, hmount⟩ := find_fs_used hfind
      dsimp only
      rw [hmount]
      dsimp only
      split
      · exact ⟨0, _, rfl, (free (some fullpath) hlookup.lock).unlock⟩
      · exact ⟨-1, _, rfl, free (some fullpath) hlookup.lock.unlock⟩

theorem Keeps.unlink_body (h : Keeps env first hold s kept) (fullpath : Str) :
    ∃ result s', unlinkBody env fullpath s = some (result, s') ∧ Keeps env first hold s' kept := by
  have hlookup := h.lookup fullpath.text
  unfold unlinkBody
  dsimp only [lookupFs]
  cases hfind : findFs env fullpath.text with
  | none => exact ⟨_, _, rfl, hlookup⟩
  | some found =>
    obtain ⟨i, fs⟩ := found
    obtain ⟨ops, mount, hops, hmount⟩ := find_fs_used hfind
    obtain ⟨opened, s', hopened, hkeeps⟩ := is_open hlookup fullpath.text
    have hopened' : fdIsOpen env fullpath.text (dfsUnlock (dfsLock s)) = some (opened, s') :=
      hopened
    dsimp only
    rw [hops, hmount]
    split
    · exact ⟨_, _, rfl, hlookup⟩
    · dsimp only
      rw [hopened']
      dsimp only
      split
      · exact ⟨_, _, rfl, hkeeps⟩
      · cases ops.unlink with
        | none => exact ⟨_, _, rfl, hkeeps⟩
        | some unlink =>
          dsimp only
          split
          · exact ⟨_, _, rfl, hkeeps⟩
          · exact ⟨_, _, rfl, hkeeps⟩

theorem unlink_balanced (env : Env φ) (first hold : Nat) (path : List Byte) :
    Balanced env first hold (dfsFileUnlink env path (startCall hold first)) := by
  have hnormal := (keeps_start env first hold).normalize path
  unfold dfsFileUnlink
  rcases hpath : normalizePath env path (startCall hold first) with ⟨_ | fullpath, s⟩
  · rw [hpath] at hnormal
    exact balanced_of_keeps hnormal fun p _ => rfl
  · rw [hpath] at hnormal
    obtain ⟨result, s', hbody, hkeeps⟩ := hnormal.lock.unlink_body fullpath
    dsimp only at hbody ⊢
    rw [hbody]
    exact balanced_of_keeps (free (some fullpath) hkeeps.unlock) fun p _ => rfl

theorem stat_balanced (env : Env φ) (first hold : Nat) (path : List Byte) (buf : Stat) :
    Balanced env first hold
      ((dfsFileStat env path buf (startCall hold first)).map Prod.snd) := by
  have hnormal := (keeps_start env first hold).normalize path
  unfold dfsFileStat
  rcases hpath : normalizePath env path (startCall hold first) with ⟨_ | fullpath, s⟩
  · rw [hpath] at hnormal
    exact balanced_of_keeps hnormal fun p _ => rfl
  · rw [hpath] at hnormal
    have hlookup := hnormal.lock.lookup fullpath.text
    have hleave : ∀ result : Int, Balanced env first hold (some
        { result := result, fd := none
          s := dfsUnlock (rtFree (some fullpath) (dfsUnlock (dfsLock (dfsLock s)))) }) :=
      fun result => balanced_of_keeps (free (some fullpath) hlookup).unlock
        fun p _ => rfl
    dsimp only [lookupFs]
    cases hfind : findFs env fullpath.text with
    | none => exact hleave _
    | some found =>
      obtain ⟨i, fs⟩ := found
      obtain ⟨ops, mount, hops, hmount⟩ := find_fs_used hfind
      dsimp only
      rw [hops, hmount]
      dsimp only
      cases dfsSubdir mount fullpath.text with
      | none => exact hleave _
      | some subdir =>
        dsimp only
        split
        · exact hleave _
        · cases ops.stat with
          | none => exact hleave _
          | some stat =>
            dsimp only
            split
            · exact hleave _
            · exact hleave _

/-- The old path of a renaming is on no file system, the new one is on one that can be written. -/
def RenamesFromNowhere (env : Env φ) (first : Nat) (oldpath newpath : List Byte) : Prop :=
  ∃ oldfullpath newfullpath j newfs, fullpathOf env first oldpath = some oldfullpath ∧
    fullpathOf env (first + 1) newpath = some newfullpath ∧ findFs env oldfullpath = none ∧
    findFs env newfullpath = some (j, newfs) ∧ newfs.flags &&& dfsMsRdonly = 0

theorem Keeps.rename_body (h : Keeps env first hold s kept) {oldfullpath newfullpath : List Byte}
    (hfound : ∀ j newfs, findFs env newfullpath = some (j, newfs) →
      newfs.flags &&& dfsMsRdonly = 0 → findFs env oldfullpath ≠ none) :
    ∃ result s', renameBody env oldfullpath newfullpath s = some (result, s') ∧
      Keeps env first hold s' kept := by
  have hlookup := (h.lookup oldfullpath).lookup newfullpath
  unfold renameBody
  dsimp only [lookupFs]
  cases hnew : findFs env newfullpath with
  | none => exact ⟨_, _, rfl, hlookup⟩
  | some found =>
    obtain ⟨j, newfs⟩ := found
    obtain ⟨-, newmount, -, hnewmount⟩ := find_fs_used hnew
    dsimp only
    split
    · exact ⟨_, _, rfl, hlookup⟩
    case isFalse hwritable =>
      cases hold' : findFs env oldfullpath with
      | none => exact absurd hold' (hfound j newfs hnew (not_not.mp hwritable))
      | some found =>
        obtain ⟨i, oldfs⟩ := found
        obtain ⟨ops, oldmount, hops, holdmount⟩ := find_fs_used hold'
        dsimp only
        rw [hops, holdmount, hnewmount]
        dsimp only
        split
        · exact ⟨_, _, rfl, hlookup⟩
        · cases ops.rename with
          | none => exact ⟨_, _, rfl, hlookup⟩
          | some rename =>
            dsimp only
            split
            · exact ⟨_, _, rfl, hlookup⟩
            · exact ⟨_, _, rfl, hlookup⟩

theorem normalize_path_requests (env : Env φ) (path : List Byte) (s : Caller) :
    (normalizePath env path s).2.ledger.requests = s.ledger.requests + 1 := by
  unfold normalizePath
  rcases hcopy : rtStrdup env.room path s with ⟨_ | fullpath, s'⟩
  · exact congrArg (fun copy => copy.2.ledger.requests) hcopy.symm
  · have hrequests : s'.ledger.requests = s.ledger.requests + 1 :=
      congrArg (fun copy => copy.2.ledger.requests) hcopy.symm
    cases dfsNormalizePath env.directory path with
    | none => exact hrequests
    | some text => exact hrequests

theorem rename_balanced {oldpath newpath : List Byte}
    (hfrom : ¬ RenamesFromNowhere env first oldpath newpath) :
    Balanced env first hold (dfsFileRename env oldpath newpath (startCall hold first)) := by
  have hold' := (keeps_start env first hold).lock.normalize oldpath
  have holdText := normalize_path_text env oldpath (dfsLock (startCall hold first))
  have hrequests := normalize_path_requests env oldpath (dfsLock (startCall hold first))
  unfold dfsFileRename
  rcases hpath : normalizePath env oldpath (dfsLock (startCall hold first)) with ⟨_ | oldfull, s⟩
  · rw [hpath] at hold'
    exact balanced_of_keeps hold'.unlock fun p _ => rfl
  · rw [hpath] at hold' holdText hrequests
    have hnew := hold'.normalize newpath
    have hnewText := normalize_path_text env newpath s
    dsimp only
    rcases hpath' : normalizePath env newpath s with ⟨_ | newfull, s'⟩
    · rw [hpath'] at hnew
      exact balanced_of_keeps (free (some oldfull) hnew).unlock fun p _ => rfl
    · rw [hpath'] at hnew hnewText
      have hnewText' : some newfull.text = fullpathOf env (first + 1) newpath :=
        hnewText.trans (congrArg (fun n => fullpathOf env n newpath) hrequests)
      have hfound : ∀ j newfs, findFs env newfull.text = some (j, newfs) →
          newfs.flags &&& dfsMsRdonly = 0 → findFs env oldfull.text ≠ none :=
        fun j newfs hfind hwritable hnone => hfrom
          ⟨oldfull.text, newfull.text, j, newfs, holdText.symm, hnewText'.symm, hnone, hfind,
            hwritable⟩
      obtain ⟨result, last, hbody, hkeeps⟩ := hnew.rename_body hfound
      dsimp only at hbody ⊢
      rw [hbody]
      have hfreed : Keeps env first (hold + 1) (rtFree (some oldfull) last) [newfull.block] :=
        free (some oldfull) ⟨hkeeps.hold_eq, hkeeps.owes.perm (List.Perm.swap _ _ _)⟩
      exact balanced_of_keeps (free (some newfull) hfreed).unlock fun p _ => rfl

/-! ## Every operation -/

inductive Operation (φ : Type*) where
  | openFile (fd : Option (DfsFd φ)) (path : List Byte) (flags : Nat)
  | close (fd : Option (DfsFd φ))
  | unlink (path : List Byte)
  | stat (path : List Byte) (buf : Stat)
  | rename (oldpath newpath : List Byte)

def call (env : Env φ) : Operation φ → Caller → Option (Outcome φ)
  | .openFile fd path flags, s => dfsFileOpen env fd path flags s
  | .close fd, s => dfsFileClose env fd s
  | .unlink path, s => dfsFileUnlink env path s
  | .stat path buf, s => (dfsFileStat env path buf s).map Prod.snd
  | .rename oldpath newpath, s => dfsFileRename env oldpath newpath s

/-- The descriptor that an operation is given. -/
def Operation.fd : Operation φ → Option (DfsFd φ)
  | .openFile fd _ _ => fd
  | .close fd => fd
  | _ => none

/-- The calls that return without unlocking, or that read through `NULL`. -/
def Spoils (env : Env φ) (first : Nat) : Operation φ → Prop
  | .openFile (some _) path flags => RefusesWrite env first path flags
  | .rename oldpath newpath => RenamesFromNowhere env first oldpath newpath
  | _ => False

theorem open_refused (fd : DfsFd φ) {path : List Byte} {flags : Nat}
    (h : RefusesWrite env first path flags) (hold : Nat) :
    ∃ s, dfsFileOpen env (some fd) path flags (startCall hold first) =
      some { result := -erofs, fd := some fd, s := s } ∧ s.hold = hold + 1 := by
  obtain ⟨text, i, fs, htext, hfind, hrefused⟩ := h
  have hnormal := (keeps_start env first hold).normalize path
  have hpathText := normalize_path_text env path (startCall hold first)
  have hfirst : fullpathOf env (startCall hold first).ledger.requests path = some text := htext
  rw [hfirst] at hpathText
  unfold dfsFileOpen
  rcases hpath : normalizePath env path (startCall hold first) with ⟨_ | fullpath, s⟩
  · rw [hpath] at hpathText
    cases hpathText
  · rw [hpath] at hpathText hnormal
    cases hpathText
    obtain ⟨ops, mount, hops, -⟩ := find_fs_used hfind
    refine ⟨dfsUnlock (dfsLock (dfsLock s)), ?_, hnormal.lock.lock.unlock.hold_eq⟩
    dsimp only [lookupFs]
    rw [hfind]
    dsimp only
    rw [hops]
    dsimp only
    rw [if_pos hrefused]

theorem open_refused_not_balanced {fd : DfsFd φ} {path : List Byte} {flags : Nat}
    (h : RefusesWrite env first path flags) :
    ¬ Balanced env first hold (dfsFileOpen env (some fd) path flags (startCall hold first)) := by
  obtain ⟨s, hopen, hhold⟩ := open_refused fd h hold
  rintro ⟨o, ho, hsame, -⟩
  rw [hopen] at ho
  cases ho
  exact absurd (hhold.symm.trans hsame) (Nat.succ_ne_self hold)

theorem rename_from_nowhere {oldpath newpath : List Byte}
    (h : RenamesFromNowhere env first oldpath newpath) (hold : Nat) :
    dfsFileRename env oldpath newpath (startCall hold first) = none := by
  obtain ⟨oldText, newText, j, newfs, holdText, hnewText, hnone, hfind, hwritable⟩ := h
  have holdPath := normalize_path_text env oldpath (dfsLock (startCall hold first))
  have hrequests := normalize_path_requests env oldpath (dfsLock (startCall hold first))
  have hfirst : fullpathOf env (dfsLock (startCall hold first)).ledger.requests oldpath =
      some oldText := holdText
  rw [hfirst] at holdPath
  unfold dfsFileRename
  rcases hpath : normalizePath env oldpath (dfsLock (startCall hold first)) with ⟨_ | oldfull, s⟩
  · rw [hpath] at holdPath
    cases holdPath
  · rw [hpath] at holdPath hrequests
    cases holdPath
    have hnewPath := normalize_path_text env newpath s
    have hsecond : fullpathOf env s.ledger.requests newpath = some newText :=
      (congrArg (fun n => fullpathOf env n newpath) hrequests).trans hnewText
    rw [hsecond] at hnewPath
    dsimp only
    rcases hpath' : normalizePath env newpath s with ⟨_ | newfull, s'⟩
    · rw [hpath'] at hnewPath
      cases hnewPath
    · rw [hpath'] at hnewPath
      cases hnewPath
      have hbody : renameBody env oldfull.text newfull.text s' = none := by
        unfold renameBody
        dsimp only [lookupFs]
        rw [hnone, hfind]
        dsimp only
        rw [if_neg (not_not.mpr hwritable)]
      dsimp only
      rw [hbody]
      rfl

/-- An operation gives back the lock and its strings, except when a file is opened for writing on a
file system that is mounted read only, and when a path on no file system is renamed. -/
theorem balanced_iff {op : Operation φ} (hop : Earlier first op.fd) (hold : Nat) :
    Balanced env first hold (call env op (startCall hold first)) ↔ ¬ Spoils env first op := by
  cases op with
  | openFile fd path flags =>
    cases fd with
    | none =>
      have hearly : Balanced env first hold
          (dfsFileOpen env none path flags (startCall hold first)) :=
        balanced_of_keeps (keeps_start env first hold) fun p _ => rfl
      exact iff_of_true hearly not_false
    | some fd =>
      refine ⟨fun hbalanced hrefused => open_refused_not_balanced hrefused hbalanced, fun h => ?_⟩
      exact open_balanced hop h
  | close fd => exact iff_of_true (close_balanced hop) not_false
  | unlink path => exact iff_of_true (unlink_balanced env first hold path) not_false
  | stat path buf => exact iff_of_true (stat_balanced env first hold path buf) not_false
  | rename oldpath newpath =>
    refine ⟨fun hbalanced hnowhere => ?_, fun h => rename_balanced h⟩
    obtain ⟨o, ho, -⟩ := hbalanced
    cases (rename_from_nowhere hnowhere hold).symm.trans ho

/-- A file system without functions, mounted read only on `/`. -/
def readOnlyEnv : Env Unit where
  directory := [slash]
  table := [{ flags := 1, path := some [slash], ops := some ⟨0, (), none, none, none⟩ }]
  fds := []
  fileOps := fun _ => ⟨none, none⟩
  room := fun _ => true

/-- A descriptor that was not used. -/
def newFd : DfsFd Unit := ⟨0, none, none, none, 0, 0, 0, none, 0, 0⟩

theorem read_only_refuses : RefusesWrite readOnlyEnv 0 [slash, 0x61] 1 := by
  refine ⟨[slash, 0x61], 0, _, ?_, rfl, by decide, by decide⟩
  simp [fullpathOf, readOnlyEnv, dfsNormalizePath, normalize_loop_eq, normalizeRound, copyUp, slash,
    dot, normalizeEnd, removeSlash]

theorem balanced_iff_read_only :
    Balanced readOnlyEnv 0 0
        (call readOnlyEnv (.openFile (some newFd) [slash, 0x61] 1) (startCall 0 0)) ↔
      ¬ Spoils readOnlyEnv 0 (.openFile (some newFd) [slash, 0x61] 1) :=
  balanced_iff (fun _ hmem => absurd hmem not_mem_nil) 0

/-- `open("/a", O_WRONLY)` on a read-only file system keeps the lock. -/
theorem lock_kept :
    ¬ Balanced readOnlyEnv 0 0
      (call readOnlyEnv (.openFile (some newFd) [slash, 0x61] 1) (startCall 0 0)) :=
  open_refused_not_balanced read_only_refuses

end FullhanRtos.Dfs
