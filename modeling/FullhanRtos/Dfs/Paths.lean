import FullhanRtos.Lib.Bytes
import FullhanRtos.Lib.Paths
import Mathlib.Data.List.DropRight

/-!
# Paths of the device file system

`dfs_normalize_path` and `dfs_subdir` of `fs/src/dfs.c`. A string is the list of its bytes without
the terminator. What `dfs_normalize_path` returns is an absolute path in normal form, or a relative
one, to which `..` at the root leads (`normalize_path_ok`). Without that it is the path of the names
that are left, and is not changed by another call (`normalize_path_resolves`).
-/

namespace FullhanRtos.Dfs

open Bytes Paths List

/-- `'/'`, which separates the names of a path. -/
def slash : Byte := 0x2f

/-- `'.'` -/
def dot : Byte := 0x2e

/-! ## Normal form -/

/-- What a round of the loop leads to: another one at `src` and `dst`, the end, or a return of
`NULL`. -/
inductive Round where
  | next (src dst : List Byte)
  | done (dst : List Byte)
  | fail

/-- Copy up to the next `'/'`, and skip all that follow. -/
def copyUp (src dst : List Byte) : Round :=
  let name := src.takeWhile (· ≠ slash)
  match src.dropWhile (· ≠ slash) with
  | [] => .done (dst ++ name)
  | _ :: rest => .next (rest.dropWhile (· = slash)) (dst ++ name ++ [slash])

/-- The label `up_one`: back over the last name of `dst`. -/
def upOne (src dst : List Byte) : Round :=
  if dst = [] then .fail else .next src (dst.dropLast.rdropWhile (· ≠ slash))

/-- The body of the loop; `src` is always at the first character of a name. -/
def normalizeRound (src dst : List Byte) : Round :=
  match src with
  | [] => copyUp [] dst
  | c :: rest =>
    if c = dot then
      match rest with
      | [] => copyUp [] dst
      | d :: rest =>
        if d = slash then .next (rest.dropWhile (· = slash)) dst
        else if d = dot then
          match rest with
          | [] => upOne [] dst
          | e :: rest =>
            if e = slash then upOne (rest.dropWhile (· = slash)) dst else copyUp src dst
        else copyUp src dst
    else copyUp src dst

theorem length_drop_while_le (p : Byte → Bool) (s : List Byte) :
    (s.dropWhile p).length ≤ s.length :=
  (dropWhile_suffix p).length_le

/-- What `copyUp` does with a string: the name is its end, or is in front of a `'/'`. -/
theorem copy_up_cases (src dst : List Byte) :
    copyUp src dst = .done (dst ++ src.takeWhile (· ≠ slash)) ∨
    ∃ rest : List Byte, rest.length < src.length ∧ copyUp src dst =
      .next (rest.dropWhile (· = slash)) (dst ++ src.takeWhile (· ≠ slash) ++ [slash]) := by
  unfold copyUp
  split
  case h_1 => exact .inl rfl
  case h_2 c rest hrest =>
    have hlen := length_drop_while_le (· ≠ slash) src
    rw [hrest] at hlen
    exact .inr ⟨rest, hlen, rfl⟩

theorem copy_up_next {src dst src' dst' : List Byte} (h : copyUp src dst = .next src' dst') :
    src'.length < src.length := by
  obtain hdone | ⟨rest, hlen, hnext⟩ := copy_up_cases src dst
  · cases hdone.symm.trans h
  · cases hnext.symm.trans h
    exact (length_drop_while_le _ rest).trans_lt hlen

theorem up_one_next {src dst src' dst' : List Byte} (h : upOne src dst = .next src' dst') :
    dst ≠ [] ∧ src' = src ∧ dst' = dst.dropLast.rdropWhile (· ≠ slash) := by
  unfold upOne at h
  split at h
  · cases h
  case isFalse hne =>
    cases h
    exact ⟨hne, rfl, rfl⟩

theorem normalize_round_cases (src dst : List Byte) :
    normalizeRound src dst = copyUp src dst ∨
    normalizeRound src dst = copyUp [] dst ∨
    (∃ rest : List Byte, normalizeRound src dst = .next (rest.dropWhile (· = slash)) dst ∧
      rest.length < src.length) ∨
    ∃ rest : List Byte, normalizeRound src dst = upOne (rest.dropWhile (· = slash)) dst ∧
      rest.length < src.length := by
  unfold normalizeRound
  split
  · exact .inl rfl
  · split
    · split
      · exact .inr (.inl rfl)
      · split
        · exact .inr (.inr (.inl ⟨_, rfl, by simp only [length_cons]; omega⟩))
        · split
          · split
            · exact .inr (.inr (.inr ⟨[], rfl, Nat.succ_pos _⟩))
            · split
              · exact .inr (.inr (.inr ⟨_, rfl, by simp only [length_cons]; omega⟩))
              · exact .inl rfl
          · exact .inl rfl
    · exact .inl rfl

theorem normalize_round_next {src dst src' dst' : List Byte}
    (h : normalizeRound src dst = .next src' dst') : src'.length < src.length := by
  obtain hcopy | hend | ⟨rest, hskip, hlen⟩ | ⟨rest, hup, hlen⟩ :=
    normalize_round_cases src dst
  · exact copy_up_next (hcopy.symm.trans h)
  · exact absurd (copy_up_next (hend.symm.trans h)) (Nat.not_lt_zero _)
  · cases hskip.symm.trans h
    exact (length_drop_while_le _ rest).trans_lt hlen
  · obtain ⟨-, rfl, -⟩ := up_one_next (hup.symm.trans h)
    exact (length_drop_while_le _ rest).trans_lt hlen

def normalizeLoop (src dst : List Byte) : Option (List Byte) :=
  match h : normalizeRound src dst with
  | .next src' dst' =>
    have := normalize_round_next h
    normalizeLoop src' dst'
  | .done dst => some dst
  | .fail => none
termination_by src.length

/-- Remove the `'/'` at the end of a path. -/
def removeSlash (dst : List Byte) : List Byte :=
  if 1 < dst.length ∧ dst.getLast? = some slash then dst.dropLast else dst

/-- The end of `dfs_normalize_path`; an empty path is the root. -/
def normalizeEnd (dst : List Byte) : List Byte :=
  if removeSlash dst = [] then [slash] else removeSlash dst

def dfsNormalizePath (directory filename : List Byte) : Option (List Byte) :=
  let fullpath := if filename.head? ≠ some slash then directory ++ slash :: filename else filename
  (normalizeLoop fullpath []).map normalizeEnd

/-- The path in normal form: names behind separators. -/
def Normal (path : List Byte) : Prop := ∃ cs, Names slash cs ∧ path = absolute slash cs

/-- What the loop has written between two rounds: names, each with a `'/'` behind it; only in front
of the first one the `'/'` may be missing. -/
def Written (k : Nat) (cs : List (List Byte)) (dst : List Byte) : Prop :=
  k ≤ 1 ∧ Names slash cs ∧ dst = (join slash cs ++ [slash]).drop k

/-- Between two rounds, `src` begins with a `'/'` only if nothing was written. -/
def Between (src dst : List Byte) : Prop :=
  (∃ k cs, Written k cs dst) ∧ (src.head? = some slash → dst = [])

/-- What the loop leaves: as between two rounds, or with a name at the end. -/
def Ended (dst : List Byte) : Prop :=
  ∃ k cs, k ≤ 1 ∧ Names slash cs ∧
    (dst = (join slash cs ++ [slash]).drop k ∨ cs ≠ [] ∧ dst = (join slash cs).drop k)

theorem drop_append_join {k : Nat} (hk : k ≤ 1) (cs : List (List Byte)) (s : List Byte) :
    (join slash cs ++ [slash]).drop k ++ s = (join slash cs ++ [slash] ++ s).drop k := by
  refine (drop_append_of_le_length ?_).symm
  rw [length_append]
  exact hk.trans (Nat.le_add_left _ _)

/-- Behind the `'/'` of a path no other one follows. -/
theorem head_drop_slashes (rest : List Byte) :
    (rest.dropWhile (· = slash)).head? ≠ some slash := by
  intro hhead
  have hnot := head?_dropWhile_not (· = slash) rest
  rw [hhead] at hnot
  simp at hnot

theorem take_name (src : List Byte) : slash ∉ src.takeWhile (· ≠ slash) := by
  intro hmem
  simpa using mem_takeWhile_imp hmem

theorem take_name_ne_nil {src : List Byte} (hne : src ≠ []) (hhead : src.head? ≠ some slash) :
    src.takeWhile (· ≠ slash) ≠ [] := by
  cases src with
  | nil => exact absurd rfl hne
  | cons c src =>
    have hc : c ≠ slash := fun heq => hhead (congrArg some heq)
    simp [hc]

theorem Written.snoc {k : Nat} {cs : List (List Byte)} {dst name : List Byte}
    (h : Written k cs dst) (hne : name ≠ []) (hsep : slash ∉ name) :
    Written k (cs ++ [name]) (dst ++ name ++ [slash]) ∧
      dst ++ name = (join slash (cs ++ [name])).drop k := by
  obtain ⟨hk, hnames, rfl⟩ := h
  have hdrop : (join slash cs ++ [slash]).drop k ++ name = (join slash (cs ++ [name])).drop k := by
    rw [drop_append_join hk, join_snoc]
  refine ⟨⟨hk, hnames.snoc hne hsep, ?_⟩, hdrop⟩
  rw [append_assoc, drop_append_join hk, join_snoc]
  simp only [append_assoc]

/-- A round keeps the shape. -/
def RoundOk : Round → Prop
  | .next src dst => Between src dst
  | .done dst => Ended dst
  | .fail => True

theorem copy_up_ok {src dst : List Byte} (h : Between src dst) : RoundOk (copyUp src dst) := by
  obtain ⟨⟨k, cs, hwritten⟩, hhead⟩ := h
  by_cases hslash : src.head? = some slash
  · -- the `'/'` in front of an absolute path
    have hname : src.takeWhile (· ≠ slash) = [] := by
      obtain ⟨rest, rfl⟩ := head?_eq_some_iff.mp hslash
      exact takeWhile_cons_of_neg (by simp)
    have hnames : Names slash [] := fun _ hc => absurd hc not_mem_nil
    obtain hdone | ⟨rest, -, hnext⟩ := copy_up_cases src dst
    · rw [hdone, hname, hhead hslash]
      exact ⟨1, [], le_refl 1, hnames, .inl rfl⟩
    · rw [hnext, hname, hhead hslash]
      exact ⟨⟨0, [], Nat.zero_le 1, hnames, rfl⟩,
        fun hbegin => absurd hbegin (head_drop_slashes rest)⟩
  · by_cases hnil : src = []
    · subst hnil
      obtain ⟨hk, hnames, hdst⟩ := hwritten
      exact ⟨k, cs, hk, hnames, .inl ((append_nil dst).trans hdst)⟩
    · have hsnoc := hwritten.snoc (take_name_ne_nil hnil hslash) (take_name src)
      obtain hdone | ⟨rest, -, hnext⟩ := copy_up_cases src dst
      · rw [hdone]
        exact ⟨k, _, hsnoc.1.1, hsnoc.1.2.1, .inr ⟨append_ne_nil_of_right_ne_nil _
          (cons_ne_nil _ _), hsnoc.2⟩⟩
      · rw [hnext]
        exact ⟨⟨k, _, hsnoc.1⟩, fun hbegin => absurd hbegin (head_drop_slashes rest)⟩

theorem rdrop_name {l name : List Byte} (hname : slash ∉ name)
    (hlast : ∀ hne : l ≠ [], l.getLast hne = slash) :
    (l ++ name).rdropWhile (· ≠ slash) = l := by
  have hall : ∀ c ∈ name.reverse, decide (c ≠ slash) = true := by
    intro c hc
    refine decide_eq_true ?_
    rintro rfl
    exact hname (mem_reverse.mp hc)
  have hself : l.rdropWhile (· ≠ slash) = l := by
    refine rdropWhile_eq_self_iff.mpr fun hne => ?_
    simp [hlast hne]
  rw [rdropWhile, reverse_append, dropWhile_append_of_pos hall]
  exact hself

theorem Written.up {k : Nat} {cs : List (List Byte)} {dst : List Byte} (h : Written k cs dst) :
    ∃ k cs, Written k cs (dst.dropLast.rdropWhile (· ≠ slash)) := by
  obtain ⟨hk, hnames, rfl⟩ := h
  rcases eq_nil_or_concat cs with rfl | ⟨cs, name, rfl⟩
  · refine ⟨1, [], le_refl 1, hnames, ?_⟩
    rcases Nat.le_one_iff_eq_zero_or_eq_one.mp hk with rfl | rfl <;> rfl
  · rw [concat_eq_append] at hnames ⊢
    have hname := hnames name (mem_append_right _ mem_cons_self)
    have hlast : ∀ hne : (join slash cs ++ [slash]).drop k ≠ [],
        ((join slash cs ++ [slash]).drop k).getLast hne = slash := by
      intro hne
      rw [getLast_drop, getLast_append_singleton]
    refine ⟨k, cs, hk, hnames.init, ?_⟩
    rw [join_snoc, append_assoc _ name, ← drop_append_join hk, ← append_assoc,
      dropLast_concat, rdrop_name hname.2 hlast]

theorem up_one_ok {src dst : List Byte} (h : ∃ k cs, Written k cs dst)
    (hhead : src.head? ≠ some slash) : RoundOk (upOne src dst) := by
  obtain ⟨k, cs, hwritten⟩ := h
  unfold upOne
  split
  · trivial
  · exact ⟨hwritten.up, fun hbegin => absurd hbegin hhead⟩

theorem normalize_round_ok {src dst : List Byte} (h : Between src dst) :
    RoundOk (normalizeRound src dst) := by
  have hend : Between [] dst := ⟨h.1, fun hbegin => nomatch hbegin⟩
  obtain hcopy | hcopy | ⟨rest, hskip, -⟩ | ⟨rest, hup, -⟩ := normalize_round_cases src dst
  · rw [hcopy]
    exact copy_up_ok h
  · rw [hcopy]
    exact copy_up_ok hend
  · rw [hskip]
    exact ⟨h.1, fun hbegin => absurd hbegin (head_drop_slashes rest)⟩
  · rw [hup]
    exact up_one_ok h.1 (head_drop_slashes rest)

theorem normalize_loop_eq (src dst : List Byte) :
    normalizeLoop src dst =
      match normalizeRound src dst with
      | .next src' dst' => normalizeLoop src' dst'
      | .done dst' => some dst'
      | .fail => none := by
  rw [normalizeLoop]
  split <;> simp only [*]

theorem normalize_loop_ok {src dst path : List Byte} (h : Between src dst)
    (hloop : normalizeLoop src dst = some path) : Ended path := by
  have hok := normalize_round_ok h
  induction src, dst using normalizeLoop.induct with
  | case1 src dst src' dst' hround _ ih =>
    rw [normalize_loop_eq, hround] at hloop
    rw [hround] at hok
    exact ih hok hloop (normalize_round_ok hok)
  | case2 src dst dst' hround =>
    rw [normalize_loop_eq, hround] at hloop
    rw [hround] at hok
    exact Option.some.inj hloop ▸ hok
  | case3 src dst hround =>
    rw [normalize_loop_eq, hround] at hloop
    cases hloop

theorem normalize_end_of_name {dst : List Byte} (hne : dst ≠ [])
    (hlast : dst.getLast? ≠ some slash) : normalizeEnd dst = dst := by
  have hself : removeSlash dst = dst := if_neg fun h => hlast h.2
  rw [normalizeEnd, hself, if_neg hne]

theorem normalize_end_of_slash {dst : List Byte} (hne : dst ≠ []) :
    normalizeEnd (dst ++ [slash]) = dst := by
  have hlen : 1 < (dst ++ [slash]).length := by
    rw [length_append]
    exact Nat.lt_add_of_pos_left (length_pos_of_ne_nil hne)
  have hcut : removeSlash (dst ++ [slash]) = dst := by
    rw [removeSlash, if_pos ⟨hlen, getLast?_concat⟩, dropLast_concat]
  rw [normalizeEnd, hcut, if_neg hne]

/-- Without the first `'/'` a path is not absolute. -/
theorem relative_head {cs : List (List Byte)} (hnames : Names slash cs) (hne : cs ≠ []) :
    ((join slash cs).drop 1).head? ≠ some slash := by
  cases cs with
  | nil => exact absurd rfl hne
  | cons c cs =>
    obtain ⟨hname, hsep⟩ := hnames c mem_cons_self
    show (c ++ join slash cs).head? ≠ some slash
    rw [head?_append_of_ne_nil _ hname]
    exact fun hhead => hsep (mem_of_mem_head? hhead)

/-- The end of the function brings what the loop leaves into normal form, up to the first `'/'`. -/
theorem normalize_end_ok {dst : List Byte} (h : Ended dst) :
    Normal (normalizeEnd dst) ∨ normalizeEnd dst ≠ [] ∧ (normalizeEnd dst).head? ≠ some slash := by
  obtain ⟨k, cs, hk, hnames, hdst⟩ := h
  rcases eq_nil_or_concat cs with rfl | ⟨cs, name, rfl⟩
  · -- the root
    rcases hdst with rfl | ⟨hne, -⟩
    · refine .inl ⟨[], hnames, ?_⟩
      rcases Nat.le_one_iff_eq_zero_or_eq_one.mp hk with rfl | rfl <;> rfl
    · exact absurd rfl hne
  · rw [concat_eq_append] at hnames hdst
    obtain ⟨hname, hsep⟩ := hnames name (mem_append_right _ mem_cons_self)
    have hdrop : (join slash (cs ++ [name])).drop k =
        (join slash cs ++ [slash]).drop k ++ name := by
      rw [join_snoc, drop_append_join hk]
    have hne : (join slash (cs ++ [name])).drop k ≠ [] := by
      rw [hdrop]
      exact append_ne_nil_of_right_ne_nil _ hname
    have hend : normalizeEnd dst = (join slash (cs ++ [name])).drop k := by
      rcases hdst with rfl | ⟨-, rfl⟩
      · have hle : k ≤ (join slash (cs ++ [name])).length := by
          by_contra hlt
          exact hne (drop_eq_nil_of_le (Nat.le_of_not_le hlt))
        rw [drop_append_of_le_length hle, normalize_end_of_slash hne]
      · refine normalize_end_of_name hne fun hlast => hsep ?_
        rw [hdrop, getLast?_append_of_ne_nil _ hname] at hlast
        exact mem_of_getLast? hlast
    rw [hend]
    rcases Nat.le_one_iff_eq_zero_or_eq_one.mp hk with rfl | rfl
    · exact .inl ⟨_, hnames, (absolute_of_ne_nil (by simp)).symm⟩
    · exact .inr ⟨hne, relative_head hnames (by simp)⟩

theorem normalize_path_ok {directory filename path : List Byte}
    (h : dfsNormalizePath directory filename = some path) :
    Normal path ∨ path ≠ [] ∧ path.head? ≠ some slash := by
  obtain ⟨dst, hloop, rfl⟩ := Option.map_eq_some_iff.mp h
  refine normalize_end_ok (normalize_loop_ok ⟨⟨1, [], le_refl 1, ?_, rfl⟩, fun _ => rfl⟩ hloop)
  exact fun _ hc => absurd hc not_mem_nil

/-! ## What a path stands for -/

/-- The names behind `cs`, where `.` says nothing and `..` takes the last name away. There is none
to take at the root. -/
def resolve (cs : List (List Byte)) : List (List Byte) → Option (List (List Byte))
  | [] => some cs
  | name :: names =>
    if name = [dot] then resolve cs names
    else if name = [dot, dot] then if cs = [] then none else resolve cs.dropLast names
    else resolve (cs ++ [name]) names

/-- What follows a name, without the separators. -/
def skip (rest : List Byte) : List Byte := (rest.drop 1).dropWhile (· = slash)

theorem names_drop_slashes (s : List Byte) :
    namesFrom slash [] (s.dropWhile (· = slash)) = namesFrom slash [] s := by
  induction s with
  | nil => rfl
  | cons c s ih =>
    by_cases hc : c = slash
    · rw [dropWhile_cons_of_pos (by simpa using hc), ih, hc, names_from_sep]
    · rw [dropWhile_cons_of_neg (by simpa using hc)]

theorem exists_name {src : List Byte} (hne : src ≠ []) (hhead : src.head? ≠ some slash) :
    ∃ name rest, src = name ++ rest ∧ name ≠ [] ∧ slash ∉ name ∧ Begins slash rest := by
  refine ⟨_, src.dropWhile (· ≠ slash), takeWhile_append_dropWhile.symm,
    take_name_ne_nil hne hhead, take_name src, ?_⟩
  cases hrest : src.dropWhile (· ≠ slash) with
  | nil => exact .inl rfl
  | cons c s =>
    have hnot := head?_dropWhile_not (· ≠ slash) src
    rw [hrest] at hnot
    exact .inr (by simpa using hnot)

section

variable {name rest dst : List Byte} (hsep : slash ∉ name)

include hsep

theorem copy_up_eq (hrest : Begins slash rest) : copyUp (name ++ rest) dst =
    if rest = [] then .done (dst ++ name) else .next (skip rest) (dst ++ name ++ [slash]) := by
  have hall : ∀ c ∈ name, decide (c ≠ slash) = true := by
    intro c hc
    refine decide_eq_true ?_
    rintro rfl
    exact hsep hc
  rw [copyUp, dropWhile_append_of_pos hall, takeWhile_append_of_pos hall]
  rcases hrest with rfl | hhead
  · rw [takeWhile_nil, append_nil]
    rfl
  · obtain ⟨s, rfl⟩ := head?_eq_some_iff.mp hhead
    simp [skip]

variable (hne : name ≠ [])

include hne

theorem normalize_round_name (hdot : name ≠ [dot]) (hdots : name ≠ [dot, dot]) :
    normalizeRound (name ++ rest) dst = copyUp (name ++ rest) dst := by
  match name with
  | [] => exact absurd rfl hne
  | [c] =>
    have hc : c ≠ dot := by simpa using hdot
    simp [normalizeRound, hc]
  | c :: d :: name =>
    obtain ⟨-, hd, hname⟩ : slash ≠ c ∧ slash ≠ d ∧ slash ∉ name := by simpa using hsep
    by_cases hc : c = dot
    case neg => simp [normalizeRound, hc]
    by_cases hdot' : d = dot
    case neg => simp [normalizeRound, hc, hdot', hd.symm]
    subst hc hdot'
    cases name with
    | nil => exact absurd rfl hdots
    | cons e name =>
      obtain ⟨he, -⟩ : slash ≠ e ∧ slash ∉ name := by simpa using hname
      simp [normalizeRound, hd.symm, he.symm]

variable (hrest : Begins slash rest)

include hrest

theorem names_of_name :
    namesFrom slash [] (name ++ rest) = name :: namesFrom slash [] (skip rest) := by
  rw [names_from_name hsep, nil_append, names_from_end hne hrest]
  rcases hrest with rfl | hhead
  · rfl
  · obtain ⟨s, rfl⟩ := head?_eq_some_iff.mp hhead
    rw [names_from_sep, skip, names_drop_slashes]
    rfl

theorem normalize_loop_name : (normalizeLoop (name ++ rest) dst).map normalizeEnd =
    if name = [dot] then (normalizeLoop (skip rest) dst).map normalizeEnd
    else if name = [dot, dot] then
      if dst = [] then none
      else (normalizeLoop (skip rest) (dst.dropLast.rdropWhile (· ≠ slash))).map normalizeEnd
    else (normalizeLoop (skip rest) (dst ++ name ++ [slash])).map normalizeEnd := by
  split
  case isTrue hdot =>
    subst hdot
    rw [normalize_loop_eq]
    rcases hrest with rfl | hhead
    · rw [normalize_loop_eq (skip [])]
      rfl
    · obtain ⟨s, rfl⟩ := head?_eq_some_iff.mp hhead
      rfl
  split
  case isTrue hdots =>
    have hround : normalizeRound (name ++ rest) dst = upOne (skip rest) dst := by
      subst hdots
      rcases hrest with rfl | hhead
      · rfl
      · obtain ⟨s, rfl⟩ := head?_eq_some_iff.mp hhead
        rfl
    rw [normalize_loop_eq, hround, upOne]
    by_cases hdst : dst = []
    · rw [if_pos hdst, if_pos hdst]
      rfl
    · rw [if_neg hdst, if_neg hdst]
  case isFalse hdot hdots =>
    rw [normalize_loop_eq, normalize_round_name hsep hne hdot hdots, copy_up_eq hsep hrest]
    by_cases hnil : rest = []
    case pos =>
      -- the last name has no `'/'` behind it, which is removed at the end anyway
      have hdst : dst ++ name ≠ [] := append_ne_nil_of_right_ne_nil _ hne
      have hend : normalizeEnd (dst ++ name) = dst ++ name := by
        refine normalize_end_of_name hdst fun hlast => hsep ?_
        rw [getLast?_append_of_ne_nil _ hne] at hlast
        exact mem_of_getLast? hlast
      rw [if_pos hnil, hnil, normalize_loop_eq]
      show some (normalizeEnd (dst ++ name)) = some (normalizeEnd (dst ++ name ++ [slash] ++ []))
      rw [append_nil, hend, normalize_end_of_slash hdst]
    case neg => rw [if_neg hnil]

end

theorem normalize_loop_resolves {src : List Byte} {cs result : List (List Byte)}
    (hnames : Names slash cs) (hhead : src.head? ≠ some slash)
    (hresolve : resolve cs (namesFrom slash [] src) = some result) :
    (normalizeLoop src (join slash cs ++ [slash])).map normalizeEnd =
      some (absolute slash result) ∧ Names slash result := by
  generalize hleft : namesFrom slash [] src = left at hresolve
  induction left generalizing src cs with
  | nil =>
    obtain rfl : cs = result := Option.some.inj hresolve
    by_cases hnil : src = []
    case neg =>
      obtain ⟨name, rest, rfl, hne, hsep, hrest⟩ := exists_name hnil hhead
      rw [names_of_name hsep hne hrest] at hleft
      cases hleft
    refine ⟨?_, hnames⟩
    rw [hnil, normalize_loop_eq]
    show some (normalizeEnd (join slash cs ++ [slash] ++ [])) = _
    rw [append_nil]
    cases cs with
    | nil => rfl
    | cons c cs => exact congrArg some (normalize_end_of_slash (cons_ne_nil _ _))
  | cons name left ih =>
    obtain ⟨name, rest, rfl, hne, hsep, hrest⟩ := exists_name
      (by rintro rfl; cases hleft) hhead
    rw [names_of_name hsep hne hrest] at hleft
    obtain ⟨rfl, rfl⟩ := List.cons.inj hleft
    have hskip := head_drop_slashes (rest.drop 1)
    rw [resolve] at hresolve
    rw [normalize_loop_name hsep hne hrest]
    split at hresolve
    case isTrue hdot =>
      rw [if_pos hdot]
      exact ih hnames hskip rfl hresolve
    case isFalse hdot =>
      rw [if_neg hdot]
      split at hresolve
      case isTrue hdots =>
        rw [if_pos hdots, if_neg (by simp)]
        split at hresolve
        · cases hresolve
        · rename_i hcs
          obtain ⟨cs, c, rfl⟩ := (eq_nil_or_concat cs).resolve_left hcs
          rw [concat_eq_append] at hresolve hnames ⊢
          rw [dropLast_concat] at hresolve ⊢
          rw [join_snoc, rdrop_name (hnames c (mem_append_right _ mem_cons_self)).2
            fun _ => getLast_append_singleton _]
          exact ih hnames.init hskip rfl hresolve
      case isFalse hdots =>
        rw [if_neg hdots, append_assoc (join _ _), ← append_assoc (join _ _), ← join_snoc]
        exact ih (hnames.snoc hne hsep) hskip rfl hresolve

/-- No name is `.` or `..`. -/
def Plain (cs : List (List Byte)) : Prop := ∀ c ∈ cs, c ≠ [dot] ∧ c ≠ [dot, dot]

theorem resolve_plain {names cs result : List (List Byte)} (hcs : Plain cs)
    (hresolve : resolve cs names = some result) : Plain result := by
  induction names generalizing cs with
  | nil => exact Option.some.inj hresolve ▸ hcs
  | cons name names ih =>
    rw [resolve] at hresolve
    split at hresolve
    · exact ih hcs hresolve
    split at hresolve
    · split at hresolve
      · cases hresolve
      · exact ih (fun c hc => hcs c (mem_of_mem_dropLast hc)) hresolve
    case isFalse hdot hdots =>
      refine ih (fun c hc => ?_) hresolve
      rcases mem_append.mp hc with hc | hc
      · exact hcs c hc
      · exact mem_singleton.mp hc ▸ ⟨hdot, hdots⟩

theorem resolve_self {cs ds : List (List Byte)} (hds : Plain ds) :
    resolve cs ds = some (cs ++ ds) := by
  induction ds generalizing cs with
  | nil => rw [append_nil, resolve]
  | cons d ds ih =>
    obtain ⟨⟨hdot, hdots⟩, hds⟩ := forall_mem_cons.mp hds
    rw [resolve, if_neg hdot, if_neg hdots, ih hds, append_assoc]
    rfl

theorem normalize_absolute {s : List Byte} {cs : List (List Byte)}
    (hresolve : resolve [] (namesFrom slash [] (slash :: s)) = some cs) :
    (normalizeLoop (slash :: s) []).map normalizeEnd = some (absolute slash cs) ∧
      Names slash cs := by
  have hfirst : normalizeRound (slash :: s) [] = .next (s.dropWhile (· = slash)) [slash] := rfl
  rw [normalize_loop_eq, hfirst]
  refine normalize_loop_resolves (fun _ hc => absurd hc not_mem_nil) (head_drop_slashes s) ?_
  rwa [names_drop_slashes, ← names_from_sep]

/-- An absolute path whose names do not lead above the root becomes the path of the names that are
left, whatever separators and dots it has, and that path stays as it is. -/
theorem normalize_path_resolves {directory filename full : List Byte} {cs : List (List Byte)}
    (hfull : full = if filename.head? ≠ some slash then directory ++ slash :: filename
      else filename) (habsolute : full.head? = some slash)
    (hresolve : resolve [] (namesFrom slash [] full) = some cs) :
    dfsNormalizePath directory filename = some (absolute slash cs) ∧
      ∀ d, dfsNormalizePath d (absolute slash cs) = some (absolute slash cs) := by
  obtain ⟨s, rfl⟩ := head?_eq_some_iff.mp habsolute
  obtain ⟨hpath, hnames⟩ := normalize_absolute hresolve
  rw [dfsNormalizePath, ← hfull]
  refine ⟨hpath, fun d => ?_⟩
  have hplain := resolve_plain (fun _ hc => absurd hc not_mem_nil) hresolve
  cases cs with
  | nil => exact (normalize_absolute rfl).1
  | cons c cs =>
    have hagain : namesFrom slash [] (join slash (c :: cs)) = c :: cs := by
      have hjoin := names_from_join hnames (.inl rfl)
      rwa [append_nil, namesFrom, if_pos rfl, append_nil] at hjoin
    refine (normalize_absolute ?_).1
    exact (congrArg (resolve []) hagain).trans (resolve_self hplain)

theorem dotted_path_resolves : dfsNormalizePath [slash, 97]
      [dot, slash, 98, slash, slash, dot, dot, slash, 99, slash] = some [slash, 97, slash, 99] ∧
    ∀ d, dfsNormalizePath d [slash, 97, slash, 99] = some [slash, 97, slash, 99] :=
  @normalize_path_resolves _ _ _ [[97], [99]] rfl rfl (by decide)

/-! ## The part of a path below a mount point -/

def dfsSubdir (directory filename : List Byte) : Option (List Byte) :=
  if filename.length ≤ directory.length then none
  else if (filename.drop directory.length).head? ≠ some slash ∧ directory.length ≠ 0 then
    some (filename.drop (directory.length - 1))
  else some (filename.drop directory.length)

end FullhanRtos.Dfs
