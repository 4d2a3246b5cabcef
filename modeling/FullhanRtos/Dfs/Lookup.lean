import FullhanRtos.Dfs.Paths

/-!
# The file system of a path

`dfs_filesystem_lookup` of `fs/src/dfs_fs.c` on the table of the mounted file systems. It compares
strings; `lookup_longest` says what this means for the names of a path, and that the mount point and
`dfs_subdir` together stand for the path.
-/

namespace FullhanRtos.Dfs

open Bytes Paths List

/-! ## The table -/

structure DfsFilesystem (ω : Type*) where
  flags : Nat
  path : Option (List Byte)
  ops : Option ω

/-- `strncmp(s, t, n) == 0`. -/
def strncmpEq : List Byte → List Byte → Nat → Bool
  | _, _, 0 => true
  | [], [], _ + 1 => true
  | c :: s, d :: t, n + 1 => c = d && strncmpEq s t n
  | _, _, _ + 1 => false

variable {ω : Type*} {path fspath : List Byte} {cs : List (List Byte)} {found : Lookup}

/-- The local variables of the loop; a pointer into the table is an index. -/
structure Lookup where
  fs : Option Nat
  prefixlen : Nat

def lookupEntry (path : List Byte) (i : Nat) (iter : DfsFilesystem ω) (found : Lookup) : Lookup :=
  match iter.path, iter.ops with
  | some fspath, some _ =>
    if fspath.length < found.prefixlen ∨ strncmpEq fspath path fspath.length = false then found
    -- check next path separator
    else if 1 < fspath.length ∧ fspath.length < path.length ∧
        path[fspath.length]? ≠ some slash then found
    else { fs := some i, prefixlen := fspath.length }
  | _, _ => found

def lookupLoop (path : List Byte) : Nat → List (DfsFilesystem ω) → Lookup → Lookup
  | _, [], found => found
  | i, iter :: table, found => lookupLoop path (i + 1) table (lookupEntry path i iter found)

def dfsFilesystemLookup (table : List (DfsFilesystem ω)) (path : List Byte) : Option Nat :=
  (lookupLoop path 0 table { fs := none, prefixlen := 0 }).fs

/-! ## The loop -/

/-- The mount point of an entry in use. -/
def mountPath (iter : DfsFilesystem ω) : Option (List Byte) := iter.ops.bind fun _ => iter.path

/-- What the loop compares. -/
def Matches (path fspath : List Byte) : Prop :=
  fspath <+: path ∧
    ¬ (1 < fspath.length ∧ fspath.length < path.length ∧ path[fspath.length]? ≠ some slash)

theorem strncmp_eq_true (s t : List Byte) : strncmpEq s t s.length = true ↔ s <+: t := by
  induction s generalizing t with
  | nil => simp [strncmpEq]
  | cons c s ih =>
    cases t with
    | nil => simp [strncmpEq]
    | cons d t => simp [strncmpEq, cons_prefix_cons, ih]

/-- What the loop knows after the first entries: the last of the longest that match. -/
structure Found (path : List Byte) (table : List (DfsFilesystem ω)) (found : Lookup) : Prop where
  fs_ok : ∀ i, found.fs = some i → ∃ iter fspath, table[i]? = some iter ∧
    mountPath iter = some fspath ∧ Matches path fspath ∧ found.prefixlen = fspath.length
  longest : ∀ iter ∈ table, ∀ fspath, mountPath iter = some fspath → Matches path fspath →
    found.fs.isSome ∧ fspath.length ≤ found.prefixlen
  none_ok : found.fs = none → found.prefixlen = 0

theorem lookup_entry_cases (path : List Byte) (i : Nat) (iter : DfsFilesystem ω) (found : Lookup) :
    (lookupEntry path i iter found = found ∧
      ∀ fspath, mountPath iter = some fspath → Matches path fspath →
        fspath.length < found.prefixlen) ∨
    ∃ fspath, mountPath iter = some fspath ∧ Matches path fspath ∧
      found.prefixlen ≤ fspath.length ∧
      lookupEntry path i iter found = { fs := some i, prefixlen := fspath.length } := by
  obtain ⟨flags, fspath, ops⟩ := iter
  cases ops with
  | none =>
    refine .inl ⟨?_, fun _ hmount => nomatch hmount⟩
    cases fspath <;> rfl
  | some ops =>
    cases fspath with
    | none => exact .inl ⟨rfl, fun _ hmount => nomatch hmount⟩
    | some fspath =>
      have hmount : mountPath ⟨flags, some fspath, some ops⟩ = some fspath := rfl
      simp only [lookupEntry]
      split
      case isTrue hskip =>
        refine .inl ⟨rfl, fun other hother hmatch => ?_⟩
        cases hmount.symm.trans hother
        rcases hskip with hlt | hne
        · exact hlt
        · rw [(strncmp_eq_true _ _).mpr hmatch.1] at hne
          cases hne
      case isFalse hsame =>
        rw [not_or, Bool.not_eq_false, strncmp_eq_true] at hsame
        split
        case isTrue hnext =>
          refine .inl ⟨rfl, fun other hother hmatch => ?_⟩
          cases hmount.symm.trans hother
          exact absurd hnext hmatch.2
        case isFalse hnext =>
          exact .inr ⟨fspath, hmount, ⟨hsame.2, hnext⟩, Nat.le_of_not_lt hsame.1, rfl⟩

theorem lookup_entry_ok {path : List Byte} {table : List (DfsFilesystem ω)}
    (h : Found path table found) (iter : DfsFilesystem ω) :
    Found path (table ++ [iter]) (lookupEntry path table.length iter found) := by
  have hkept : ∀ (i : Nat) (iter' : DfsFilesystem ω), table[i]? = some iter' →
      (table ++ [iter])[i]? = some iter' := by
    intro i iter' hi
    rw [getElem?_append_left (List.getElem?_eq_some_iff.mp hi).1, hi]
  obtain ⟨heq, hskip⟩ | ⟨fspath, hmount, hmatch, hle, heq⟩ :=
    lookup_entry_cases path table.length iter found
  · rw [heq]
    refine ⟨fun i hi => ?_, fun other hother fspath hmount hmatch => ?_, h.none_ok⟩
    · obtain ⟨iter', fspath, hget, hrest⟩ := h.fs_ok i hi
      exact ⟨iter', fspath, hkept i iter' hget, hrest⟩
    · rcases mem_append.mp hother with hmem | hmem
      · exact h.longest other hmem fspath hmount hmatch
      · cases mem_singleton.mp hmem
        have hlt := hskip fspath hmount hmatch
        refine ⟨?_, hlt.le⟩
        cases hfs : found.fs with
        | none =>
          rw [h.none_ok hfs] at hlt
          exact absurd hlt (Nat.not_lt_zero _)
        | some i => rfl
  · rw [heq]
    refine ⟨fun i hi => ?_, fun other hother fspath' hmount' hmatch' => ⟨rfl, ?_⟩, nofun⟩
    · cases hi
      exact ⟨iter, fspath, by rw [getElem?_concat_length], hmount, hmatch, rfl⟩
    · rcases mem_append.mp hother with hmem | hmem
      · exact (h.longest other hmem fspath' hmount' hmatch').2.trans hle
      · cases mem_singleton.mp hmem
        cases hmount.symm.trans hmount'
        exact le_rfl

theorem lookup_loop_ok {path : List Byte} {table rest : List (DfsFilesystem ω)}
    (h : Found path table found) :
    Found path (table ++ rest) (lookupLoop path table.length rest found) := by
  induction rest generalizing table found with
  | nil =>
    rw [append_nil]
    exact h
  | cons iter rest ih =>
    have hnext := ih (lookup_entry_ok h iter)
    rw [length_append, append_assoc] at hnext
    exact hnext

theorem filesystem_lookup_ok (table : List (DfsFilesystem ω)) (path : List Byte) :
    Found path table (lookupLoop path 0 table { fs := none, prefixlen := 0 }) := by
  have hstart : Found path ([] : List (DfsFilesystem ω)) { fs := none, prefixlen := 0 } :=
    ⟨nofun, fun iter hmem => absurd hmem not_mem_nil, fun _ => rfl⟩
  exact lookup_loop_ok hstart

/-! ## Names -/

/-- A mount point in the table is what `dfs_normalize_path` made of the path given. -/
def Mounted (fspath : List Byte) : Prop :=
  ∃ directory filename, dfsNormalizePath directory filename = some fspath

def InFront (fspath path : List Byte) : Prop :=
  ∃ cs ds, Names slash cs ∧ Names slash ds ∧ fspath = absolute slash cs ∧
    path = absolute slash ds ∧ cs <+: ds

/-- Two strings with the same names. -/
def Denotes (s path : List Byte) : Prop := namesFrom slash [] s = namesFrom slash [] path

theorem one_lt_length_join (hnames : Names slash cs) (hne : cs ≠ []) :
    1 < (join slash cs).length := by
  cases cs with
  | nil => exact absurd rfl hne
  | cons c cs =>
    have hpos := length_pos_of_ne_nil (hnames c mem_cons_self).1
    show 1 < (c ++ join slash cs).length + 1
    rw [length_append]
    omega

theorem absolute_append (hne : cs ≠ []) (es : List (List Byte)) :
    absolute slash (cs ++ es) = join slash cs ++ join slash es := by
  rw [absolute_of_ne_nil (append_ne_nil_of_left_ne_nil hne es), join_append]

theorem slash_in_front (ds : List (List Byte)) : [slash] <+: absolute slash ds := by
  cases ds with
  | nil => exact prefix_rfl
  | cons d ds => exact cons_prefix_cons.mpr ⟨rfl, nil_prefix⟩

/-- What the loop compares means that the mount point stands in front of the path. -/
theorem matches_in_front (hpath : Normal path) (hmount : Mounted fspath) (h : Matches path fspath) :
    InFront fspath path := by
  obtain ⟨directory, filename, hnormal⟩ := hmount
  obtain ⟨ds, hds, rfl⟩ := hpath
  rcases normalize_path_ok hnormal with ⟨cs, hcs, rfl⟩ | ⟨hne, hhead⟩
  · refine ⟨cs, ds, hcs, hds, rfl, rfl, ?_⟩
    by_cases hroot : cs = []
    · rw [hroot]
      exact nil_prefix
    · rw [absolute_of_ne_nil hroot] at h
      have hlen := one_lt_length_join hcs hroot
      obtain ⟨⟨rest, hrest⟩, hnext⟩ := h
      have hne : ds ≠ [] := by
        rintro rfl
        have hle := congrArg List.length hrest
        exact absurd hle (by simp [absolute]; omega)
      rw [absolute_of_ne_nil hne] at hrest hnext
      have hbegins : Begins slash rest := by
        by_cases hnil : rest = []
        · exact .inl hnil
        · refine .inr ?_
          rw [← hrest, getElem?_append_right (le_refl _), Nat.sub_self, ← head?_eq_getElem?,
            length_append] at hnext
          have hpos := length_pos_of_ne_nil hnil
          by_contra hhead
          exact hnext ⟨hlen, by omega, hhead⟩
      obtain ⟨es, hes, -⟩ := join_append_eq hcs hds hbegins hrest
      exact ⟨es, hes.symm⟩
  · -- a relative mount point is in front of no absolute path
    obtain ⟨s, hs⟩ := (slash_in_front ds)
    obtain ⟨rest, hrest⟩ := h.1
    rw [← hs] at hrest
    have hfirst := congrArg head? hrest
    rw [head?_append_of_ne_nil _ hne] at hfirst
    exact absurd hfirst hhead

theorem in_front_matches (h : InFront fspath path) :
    Matches path fspath := by
  obtain ⟨cs, ds, hcs, -, rfl, rfl, es, rfl⟩ := h
  by_cases hroot : cs = []
  · subst hroot
    exact ⟨slash_in_front _, fun hnext => absurd hnext.1 (lt_irrefl 1)⟩
  · rw [absolute_append hroot, absolute_of_ne_nil hroot]
    refine ⟨prefix_append _ _, fun ⟨_, hlt, hnext⟩ => hnext ?_⟩
    rw [getElem?_append_right (le_refl _), Nat.sub_self, ← head?_eq_getElem?]
    rcases join_begins slash es with hnil | hhead
    · rw [hnil, append_nil] at hlt
      exact absurd hlt (lt_irrefl _)
    · exact hhead

/-- The sub-path, which is `/` for the mount point, behind the mount point stands for the path. -/
theorem denotes_subdir (h : InFront fspath path) :
    Denotes (fspath ++ (dfsSubdir fspath path).getD [slash]) path := by
  obtain ⟨cs, ds, hcs, hds, rfl, rfl, es, rfl⟩ := h
  by_cases hroot : cs = []
  · subst hroot
    show namesFrom slash [] (slash :: (dfsSubdir [slash] (absolute slash es)).getD [slash]) = _
    cases es with
    | nil => rfl
    | cons e es =>
      have hlen : [slash].length < (absolute slash (e :: es)).length :=
        one_lt_length_join hds (cons_ne_nil e es)
      have hhead : ((absolute slash (e :: es)).drop [slash].length).head? ≠ some slash :=
        relative_head hds (cons_ne_nil e es)
      have hsubdir : dfsSubdir [slash] (absolute slash (e :: es)) =
          some (join slash (e :: es)) := by
        unfold dfsSubdir
        rw [if_neg (Nat.not_le_of_lt hlen), if_pos ⟨hhead, Nat.one_ne_zero⟩]
        rfl
      rw [hsubdir]
      rfl
  · rw [absolute_append hroot, absolute_of_ne_nil hroot]
    cases es with
    | nil =>
      have hsubdir : dfsSubdir (join slash cs) (join slash cs ++ join slash []) = none := by
        unfold dfsSubdir
        rw [if_pos (by simp [join])]
      have hslash : Begins slash [slash] := .inr rfl
      rw [hsubdir]
      show namesFrom slash [] (join slash cs ++ [slash]) = namesFrom slash [] (join slash cs ++ [])
      rw [names_from_join hcs hslash, names_from_join hcs (.inl rfl), names_from_sep]
    | cons e es =>
      have hsubdir : dfsSubdir (join slash cs) (join slash cs ++ join slash (e :: es)) =
          some (join slash (e :: es)) := by
        unfold dfsSubdir
        rw [if_neg (by simp [join]), drop_left, if_neg fun hnot => hnot.1 rfl]
      rw [hsubdir]
      rfl

/-- What is promised of a search: the entry found has the longest mount point in front of the path,
which with the sub-path stands for the path; nothing is found only if there is no such entry. -/
def LookupOk (table : List (DfsFilesystem ω)) (path : List Byte) : Option Nat → Prop
  | none => ∀ iter ∈ table, ∀ fspath, mountPath iter = some fspath → ¬ InFront fspath path
  | some i => ∃ iter fspath, table[i]? = some iter ∧ mountPath iter = some fspath ∧
      InFront fspath path ∧
      (∀ other ∈ table, ∀ otherPath, mountPath other = some otherPath →
        InFront otherPath path → otherPath.length ≤ fspath.length) ∧
      Denotes (fspath ++ (dfsSubdir fspath path).getD [slash]) path

/-- `dfs_filesystem_lookup` on every table of mounted file systems, for every normal path. -/
theorem lookup_longest {table : List (DfsFilesystem ω)} {path : List Byte}
    (htable : ∀ iter ∈ table, ∀ fspath, iter.path = some fspath → Mounted fspath)
    (hpath : Normal path) : LookupOk table path (dfsFilesystemLookup table path) := by
  have hfound := filesystem_lookup_ok table path
  unfold dfsFilesystemLookup
  cases hfs : (lookupLoop path 0 table { fs := none, prefixlen := 0 }).fs with
  | none =>
    intro iter hmem fspath hmount hfront
    have hsome := (hfound.longest iter hmem fspath hmount (in_front_matches hfront)).1
    rw [hfs] at hsome
    cases hsome
  | some i =>
    obtain ⟨iter, fspath, hget, hmount, hmatch, hlen⟩ := hfound.fs_ok i hfs
    have hpathSome : iter.path = some fspath := by
      obtain ⟨-, -, hpathSome⟩ := Option.bind_eq_some_iff.mp hmount
      exact hpathSome
    have hfront := matches_in_front hpath
      (htable iter (mem_of_getElem? hget) fspath hpathSome) hmatch
    refine ⟨iter, fspath, hget, hmount, hfront, ?_, denotes_subdir hfront⟩
    intro other hmem otherPath hother hotherFront
    rw [← hlen]
    exact (hfound.longest other hmem otherPath hother (in_front_matches hotherFront)).2

/-- The path `/a` is normal, and on its own mount point. -/
theorem mounted_a : Mounted [slash, 0x61] := by
  refine ⟨[slash], [slash, 0x61], ?_⟩
  simp [dfsNormalizePath, normalize_loop_eq, normalizeRound, copyUp, slash, dot, normalizeEnd,
    removeSlash]

theorem mounted_root : Mounted [slash] := by
  refine ⟨[slash], [slash], ?_⟩
  simp [dfsNormalizePath, normalize_loop_eq, normalizeRound, copyUp, slash, dot, normalizeEnd,
    removeSlash]

/-- A table with the mount points `/` and `/a`; the path `/ab` is not below the second one. -/
theorem lookup_longest_ab :
    LookupOk [(⟨0, some [slash], some ()⟩ : DfsFilesystem Unit),
        ⟨0, some [slash, 0x61], some ()⟩] (absolute slash [[0x61, 0x62]])
      (dfsFilesystemLookup [(⟨0, some [slash], some ()⟩ : DfsFilesystem Unit),
        ⟨0, some [slash, 0x61], some ()⟩] (absolute slash [[0x61, 0x62]])) := by
  have hnames : Names slash [[0x61, 0x62]] := by
    intro c hc
    rw [mem_singleton.mp hc]
    decide
  refine lookup_longest ?_ ⟨[[0x61, 0x62]], hnames, rfl⟩
  intro iter hmem fspath hpath
  rcases mem_cons.mp hmem with rfl | hmem
  · cases hpath
    exact mounted_root
  · cases mem_singleton.mp hmem
    cases hpath
    exact mounted_a

end FullhanRtos.Dfs
