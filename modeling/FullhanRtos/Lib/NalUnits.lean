import FullhanRtos.Lib.Bytes

/-!
# NAL units in a stream

The units of a video stream, each behind its length in four bytes or behind a start code of three or
four bytes. `exists_avcc_append` says that bytes begin with units behind their lengths and then have
something that no such unit begins; `avcc_eq_annex_b_iff` when both forms are the same bytes.
-/

namespace NalUnits

open Bytes List

/-! ## Behind a length -/

/-- A unit behind its length. -/
def lengthPrefixed (nal : List Byte) : List Byte := beBytes 4 nal.length ++ nal

/-- Units behind their lengths. -/
def avcc (nals : List (List Byte)) : List Byte := nals.flatMap lengthPrefixed

/-- A unit that has a length. -/
structure Sized (nal : List Byte) : Prop where
  ne_nil : nal ≠ []
  lt : nal.length < 2 ^ 32

variable {nal rest data : List Byte} {nals : List (List Byte)} {units : List Coded}

@[simp] theorem length_prefixed (nal : List Byte) :
    (lengthPrefixed nal).length = 4 + nal.length := by
  rw [lengthPrefixed, length_append, length_be_bytes]

theorem avcc_cons (nal : List Byte) (nals : List (List Byte)) :
    avcc (nal :: nals) = lengthPrefixed nal ++ avcc nals := flatMap_cons

theorem Sized.value (h : Sized nal) (rest : List Byte) :
    beValue ((lengthPrefixed nal ++ rest).take 4) = nal.length := by
  have hlt : nal.length < 256 ^ 4 := h.lt
  rw [lengthPrefixed, append_assoc, take_left' (length_be_bytes 4 _), be_value_bytes_of_lt hlt]

/-- Bytes whose first four give a length that is there. -/
theorem exists_prefixed {size : Nat} (hsize : beValue (data.take 4) = size) (hpos : size ≠ 0)
    (hle : size + 4 ≤ data.length) :
    ∃ nal, Sized nal ∧ nal.length = size ∧ lengthPrefixed nal <+: data := by
  have hfour : (data.take 4).length = 4 := by
    rw [length_take]
    omega
  have hlen : ((data.drop 4).take size).length = size := by
    rw [length_take, length_drop]
    omega
  have hlt : size < 2 ^ 32 := by
    have hvalue := le_value_lt (data.take 4).reverse
    rw [length_reverse, hfour] at hvalue
    exact hsize ▸ hvalue
  refine ⟨(data.drop 4).take size, ⟨ne_nil_of_length_pos (by omega), by omega⟩, hlen, ?_⟩
  have hbytes : beBytes 4 size = data.take 4 := by
    have hback := be_bytes_value (data.take 4)
    rwa [hfour, hsize] at hback
  refine ⟨(data.drop 4).drop size, ?_⟩
  rw [lengthPrefixed, hlen, hbytes, append_assoc, take_append_drop, take_append_drop]

/-- The units at the beginning, as many as there are. -/
theorem exists_avcc_append (data : List Byte) :
    ∃ nals rest, (∀ nal ∈ nals, Sized nal) ∧ data = avcc nals ++ rest ∧
      ∀ nal, Sized nal → ¬ lengthPrefixed nal <+: rest := by
  induction hlen : data.length using Nat.strong_induction_on generalizing data with
  | _ n ih =>
    by_cases hunit : ∃ nal, Sized nal ∧ lengthPrefixed nal <+: data
    · obtain ⟨nal, hsized, behind, rfl⟩ := hunit
      have hless : behind.length < n := by
        rw [length_append, length_prefixed] at hlen
        omega
      obtain ⟨nals, rest, hnals, hbehind, hrest⟩ := ih behind.length hless behind rfl
      refine ⟨nal :: nals, rest, forall_mem_cons.mpr ⟨hsized, hnals⟩, ?_, hrest⟩
      rw [avcc_cons, append_assoc, ← hbehind]
    · push Not at hunit
      exact ⟨[], data, nofun, rfl, hunit⟩

/-! ## Behind a start code -/

/-- A unit, with a start code of three or four bytes. -/
structure Coded where
  long : Bool
  nal : List Byte

def Coded.startCode (unit : Coded) : List Byte := if unit.long then [0, 0, 0, 1] else [0, 0, 1]

def Coded.encode (unit : Coded) : List Byte := unit.startCode ++ unit.nal

/-- Units behind their start codes. -/
def annexB (units : List Coded) : List Byte := units.flatMap Coded.encode

theorem annex_b_cons (unit : Coded) (units : List Coded) :
    annexB (unit :: units) = unit.encode ++ annexB units := flatMap_cons

theorem length_encode_long (nal : List Byte) :
    (Coded.mk true nal).encode.length = 4 + nal.length := by
  rw [Coded.encode, length_append]
  rfl

/-- Both forms are the same only of units of one byte. -/
theorem avcc_eq_annex_b_iff (hnals : ∀ nal ∈ nals, Sized nal) :
    avcc nals = annexB (nals.map (Coded.mk true)) ↔ ∀ nal ∈ nals, nal.length = 1 := by
  induction nals with
  | nil => exact ⟨fun _ => nofun, fun _ => rfl⟩
  | cons nal nals ih =>
    obtain ⟨hsized, hrest⟩ := forall_mem_cons.mp hnals
    have hfirst : lengthPrefixed nal = (Coded.mk true nal).encode ↔ nal.length = 1 := by
      constructor
      · intro heq
        have hvalue := hsized.value []
        rw [heq] at hvalue
        exact hvalue.symm
      · intro hone
        rw [lengthPrefixed, hone]
        rfl
    have hlengths : (lengthPrefixed nal).length = (Coded.mk true nal).encode.length := by
      rw [length_prefixed, length_encode_long]
    rw [avcc_cons, map_cons, annex_b_cons, forall_mem_cons, ← ih hrest, ← hfirst]
    constructor
    · exact fun heq => append_inj heq hlengths
    · rintro ⟨hnal, htail⟩
      rw [hnal, htail]

theorem annex_b_starts (hne : units ≠ []) (hnals : ∀ unit ∈ units, unit.nal ≠ [])
    (hdata : data = annexB units) :
    (∃ d rest, data = 0 :: 0 :: 0 :: 1 :: d :: rest) ∨ ∃ d rest, data =
      0 :: 0 :: 1 :: d :: rest := by
  obtain ⟨⟨long, nal⟩, units, rfl⟩ := exists_cons_of_ne_nil hne
  obtain ⟨d, tail, hnal⟩ := exists_cons_of_ne_nil (hnals _ mem_cons_self)
  subst hnal
  cases long with
  | true => exact .inl ⟨d, _, hdata⟩
  | false => exact .inr ⟨d, _, hdata⟩

/-! ## Finding start codes -/

def startsCode : List Byte → Bool
  | 0 :: 0 :: 1 :: _ => true
  | 0 :: 0 :: 0 :: 1 :: _ => true
  | _ => false

/-- A unit in which no start code begins, and that does not end with a zero. -/
structure Escaped (nal : List Byte) : Prop where
  ne_nil : nal ≠ []
  last : nal.getLast? ≠ some 0
  inside : ∀ k < nal.length, startsCode (nal.drop k) = false

instance : Decidable (Escaped nal) :=
  decidable_of_iff (nal ≠ [] ∧ nal.getLast? ≠ some 0 ∧
      ∀ k < nal.length, startsCode (nal.drop k) = false)
    ⟨fun h => ⟨h.1, h.2.1, h.2.2⟩, fun h => ⟨h.ne_nil, h.last, h.inside⟩⟩

theorem starts_code_encode (unit : Coded) (rest : List Byte) :
    startsCode (unit.encode ++ rest) = true := by
  obtain ⟨long, nal⟩ := unit
  cases long with
  | true => rfl
  | false => rfl

theorem starts_code_iff : startsCode data = true ↔
    (∃ tail, data = 0 :: 0 :: 1 :: tail) ∨ ∃ tail, data = 0 :: 0 :: 0 :: 1 :: tail := by
  constructor
  · intro h
    unfold startsCode at h
    split at h
    · exact .inl ⟨_, rfl⟩
    · exact .inr ⟨_, rfl⟩
    · cases h
  · rintro (⟨tail, rfl⟩ | ⟨tail, rfl⟩)
    · rfl
    · rfl

theorem starts_code_append (hne : nal ≠ []) (hlast : nal.getLast? ≠ some 0)
    (hnal : startsCode nal = false) (rest : List Byte) : startsCode (nal ++ rest) = false := by
  by_contra hcode
  obtain ⟨tail, hbytes⟩ | ⟨tail, hbytes⟩ := starts_code_iff.mp (Bool.not_eq_false _ ▸ hcode)
  · match nal, hbytes with
    | [a], hbytes =>
      cases hbytes
      exact hlast rfl
    | [a, b], hbytes =>
      cases hbytes
      exact hlast rfl
    | a :: b :: c :: d, hbytes =>
      cases hbytes
      cases hnal
  · match nal, hbytes with
    | [a], hbytes =>
      cases hbytes
      exact hlast rfl
    | [a, b], hbytes =>
      cases hbytes
      exact hlast rfl
    | [a, b, c], hbytes =>
      cases hbytes
      exact hlast rfl
    | a :: b :: c :: d :: e, hbytes =>
      cases hbytes
      cases hnal

theorem Escaped.no_code (h : Escaped nal) {k : Nat} (hk : k < nal.length) (rest : List Byte) :
    startsCode (nal.drop k ++ rest) = false := by
  refine starts_code_append (drop_eq_nil_iff.not.mpr (not_le.mpr hk)) ?_ (h.inside k hk) rest
  rw [getLast?_drop, if_neg (not_le.mpr hk)]
  exact h.last

theorem Coded.length_encode (unit : Coded) :
    unit.encode.length = (if unit.long then 4 else 3) + unit.nal.length := by
  obtain ⟨long, nal⟩ := unit
  rw [Coded.encode, length_append]
  cases long with
  | true => rfl
  | false => rfl

theorem four_le_length (hne : units ≠ []) (hnals : ∀ unit ∈ units, unit.nal ≠ []) :
    4 ≤ (annexB units).length := by
  obtain ⟨unit, units, rfl⟩ := exists_cons_of_ne_nil hne
  have hpos := length_pos_of_ne_nil (hnals unit mem_cons_self)
  rw [annex_b_cons, length_append, Coded.length_encode]
  split_ifs
  · omega
  · omega

end NalUnits
