import FullhanRtos.Lib.Buffer
import FullhanRtos.Lib.NalUnits

/-!
# The parameter sets of a recording

`extract_sps_pps_from_h264` of `uvc_sd_record.c`, which looks for the first SPS and the first PPS of
a frame. Its two loops end at different distances from the end of the frame: `scan_units` says which
units they see, and `extract_ok_iff` for which frames what is stored is right.
-/

namespace FullhanRtos.SpsPps

open Bytes Buffer NalUnits List Option

/-! ## The scanner -/

/-- The type of the unit that begins here. -/
def nalType (nalStart : List Byte) : Byte := nalStart.headD 0 &&& 0x1F

/-- The inner loop, from `p` on: how far it is to the next start code. -/
def nextNal : List Byte → Option Nat
  | [] => none
  | b :: p =>
    if (b :: p).length ≤ 4 then none
    else if startsCode (b :: p) then some 0
    else (nextNal p).map (· + 1)

/-- What was found of one type: the frame from the unit on (`sps_start`, and `sps_found` if there is
one), and `g_sps_len`. -/
structure Found where
  start : Option (List Byte)
  len : Nat

/-- What was found of both types. -/
structure Search where
  sps : Found
  pps : Found

/-- One unit that was delimited. -/
def Search.examine (search : Search) (nalStart : List Byte) (nalLen : Nat) : Search :=
  if nalType nalStart = 7 ∧ search.sps.start = none then
    { search with sps := ⟨some nalStart, nalLen⟩ }
  else if nalType nalStart = 8 ∧ search.pps.start = none then
    { search with pps := ⟨some nalStart, nalLen⟩ }
  else search

def nalLength (nalStart : List Byte) : Nat :=
  match nextNal (nalStart.drop 1) with
  | some next => next + 1
  | none => nalStart.length

/-- The outer loop, from `ptr` on. -/
def scan (ptr : List Byte) (search : Search) : Search :=
  if ptr.length ≤ 5 then search
  else if startsCode ptr then
    let nalStart := ptr.drop (if ptr[2]? = some 1 then 3 else 4)
    if nalStart = [] then search
    else
      let examined := search.examine nalStart (nalLength nalStart)
      if examined.sps.start.isSome ∧ examined.pps.start.isSome then examined
      else scan (nalStart.drop (nalLength nalStart)) examined
  else scan ptr.tail search
termination_by ptr.length
decreasing_by
  · simp only [length_drop]
    split_ifs
    · omega
    · omega
  · rw [length_tail]
    omega

/-- `g_sps_data`, `g_sps_len`, `g_pps_data`, `g_pps_len` and `g_sps_pps_extracted`. -/
structure ParameterSets where
  spsData : Option (List Byte)
  spsLen : Nat
  ppsData : Option (List Byte)
  ppsLen : Nat
  extracted : Bool

/-- `malloc`: a block with whatever is in it. -/
abbrev Malloc := Nat → Option (List Byte)

def extractSpsPpsFromH264 (mallocSps mallocPps : Malloc) (data : List Byte)
    (sets : ParameterSets) : Int × ParameterSets :=
  let search := scan data ⟨⟨none, sets.spsLen⟩, ⟨none, sets.ppsLen⟩⟩
  let sets := { sets with spsLen := search.sps.len, ppsLen := search.pps.len }
  match search.sps.start, search.pps.start with
  | some spsStart, some ppsStart =>
    match mallocSps sets.spsLen, mallocPps sets.ppsLen with
    | some sps, some pps =>
      (0, { sets with
        spsData := some (writeAt sps 0 (spsStart.take sets.spsLen))
        ppsData := some (writeAt pps 0 (ppsStart.take sets.ppsLen))
        extracted := true })
    | sps, pps => (-1, { sets with spsData := sps, ppsData := pps })
  | _, _ => (-1, sets)

/-! ## What is asked for -/

def firstOf (type : Byte) (nals : List (List Byte)) : Option (List Byte) :=
  nals.find? fun nal => nalType nal = type

/-- Success is that both types are there; then the first of each is stored, and otherwise nothing
is. -/
structure ExtractOk (nals : List (List Byte)) (sets : ParameterSets)
    (result : Int × ParameterSets) : Prop where
  returns : result.1 = 0 ↔ (firstOf 7 nals).isSome ∧ (firstOf 8 nals).isSome
  stored : ∀ sps pps, firstOf 7 nals = some sps → firstOf 8 nals = some pps →
    result.2.spsData = some sps ∧ result.2.spsLen = sps.length ∧
      result.2.ppsData = some pps ∧ result.2.ppsLen = pps.length
  unchanged : result.1 ≠ 0 → result.2.spsData = sets.spsData ∧ result.2.spsLen = sets.spsLen ∧
    result.2.ppsData = sets.ppsData ∧ result.2.ppsLen = sets.ppsLen

/-- The units as the scanner delimits them: a last one that has less than six bytes with its start
code is left out, and one of four bytes is taken for the end of the unit before it. -/
def seen : List Coded → List (List Byte)
  | [] => []
  | unit :: units =>
    if (annexB units).length ≤ 4 then
      if (annexB (unit :: units)).length ≤ 5 then [] else [unit.nal ++ annexB units]
    else unit.nal :: seen units

/-- The frames for which what is stored is right. If both types are there, the scanner sees the
first of each as it is; if not, and it sees one, its length is the one that was stored before. -/
def Extractable (units : List Coded) (sets : ParameterSets) : Prop :=
  let nals := units.map Coded.nal
  if (firstOf 7 nals).isSome ∧ (firstOf 8 nals).isSome then
    firstOf 7 (seen units) = firstOf 7 nals ∧ firstOf 8 (seen units) = firstOf 8 nals
  else
    (∀ sps, firstOf 7 (seen units) = some sps → sps.length = sets.spsLen) ∧
      ∀ pps, firstOf 8 (seen units) = some pps → pps.length = sets.ppsLen

variable {nal nalStart rest behind : List Byte} {nals : List (List Byte)} {unit : Coded}
  {units : List Coded} {search : Search} {type : Byte} {found found' : Found}
  {sets : ParameterSets} {mallocSps mallocPps : Malloc} {len : Nat}

/-! ## The inner loop -/

theorem next_nal_short (hshort : rest.length ≤ 4) : nextNal rest = none := by
  cases rest with
  | nil => rfl
  | cons b p => exact if_pos hshort

theorem next_nal_append (hnal : ∀ k < nal.length, startsCode (nal.drop k ++ rest) = false) :
    nextNal (nal ++ rest) = (nextNal rest).map (· + nal.length) := by
  induction nal with
  | nil =>
    show nextNal rest = (nextNal rest).map (· + 0)
    cases nextNal rest with
    | none => rfl
    | some next => rfl
  | cons b nal ih =>
    have hrest := ih fun k hk => hnal (k + 1) (Nat.succ_lt_succ hk)
    have hfirst : startsCode (b :: (nal ++ rest)) = false := hnal 0 (Nat.succ_pos _)
    rw [cons_append, nextNal]
    by_cases hshort : (b :: (nal ++ rest)).length ≤ 4
    · have hend : rest.length ≤ 4 := by
        rw [length_cons, length_append] at hshort
        omega
      rw [if_pos hshort, next_nal_short hend]
      rfl
    · rw [if_neg hshort, hfirst, if_neg Bool.false_ne_true, hrest, Option.map_map]
      rfl

/-- What is delimited: the unit, or the rest of the frame if only four bytes are behind the unit. -/
theorem nal_length_unit (hnal : Escaped nal) (hunits : ∀ unit ∈ units, unit.nal ≠ []) :
    nalLength (nal ++ annexB units) =
      if (annexB units).length ≤ 4 then (nal ++ annexB units).length else nal.length := by
  obtain ⟨b, tail, rfl⟩ := exists_cons_of_ne_nil hnal.ne_nil
  have htail : nextNal (tail ++ annexB units) = (nextNal (annexB units)).map (· + tail.length) :=
    next_nal_append fun k hk => hnal.no_code (k := k + 1) (Nat.succ_lt_succ hk) (annexB units)
  have hdrop : (b :: tail ++ annexB units).drop 1 = tail ++ annexB units := rfl
  rw [nalLength, hdrop, htail]
  by_cases hshort : (annexB units).length ≤ 4
  · rw [if_pos hshort, next_nal_short hshort]
    rfl
  · rw [if_neg hshort]
    cases units with
    | nil => exact absurd (Nat.zero_le 4) hshort
    | cons unit units =>
      have hnext : nextNal (annexB (unit :: units)) = some 0 := by
        have hcode := starts_code_encode unit (annexB units)
        rw [← annex_b_cons] at hcode
        revert hcode hshort
        cases annexB (unit :: units) with
        | nil => exact fun hshort _ => absurd (Nat.zero_le 4) hshort
        | cons b p =>
          intro hshort hcode
          rw [nextNal, if_neg hshort, hcode, if_pos rfl]
      rw [hnext]
      exact congrArg (· + 1) (zero_add tail.length)

/-! ## The outer loop -/

theorem first_of_cons : firstOf type (nal :: nals) =
    if nalType nal = type then some nal else firstOf type nals := by
  rw [firstOf, find?_cons]
  by_cases htype : nalType nal = type
  · rw [decide_eq_true htype, if_pos htype]
  · rw [decide_eq_false htype, if_neg htype, firstOf]

/-- A first unit of this type is found, if none was before; something may be behind it. -/
def Takes (type : Byte) (nals : List (List Byte)) (found found' : Found) : Prop :=
  if found.start.isSome then found' = found
  else
    match firstOf type nals with
    | some nal => ∃ behind, found' = ⟨some (nal ++ behind), nal.length⟩
    | none => found' = found

theorem takes_nil : Takes type [] found found := by
  unfold Takes
  split_ifs
  · rfl
  · rfl

theorem takes_of_found (hsome : found.start.isSome) : Takes type nals found found := by
  rw [Takes, if_pos hsome]

/-- One unit and then the others. -/
theorem Takes.cons {middle : Found} (hfirst : Takes type [nal] found middle)
    (hrest : Takes type nals middle found') : Takes type (nal :: nals) found found' := by
  unfold Takes at hfirst ⊢
  rw [first_of_cons] at hfirst ⊢
  by_cases hsome : found.start.isSome
  · rw [if_pos hsome] at hfirst ⊢
    rw [hfirst, Takes, if_pos hsome] at hrest
    exact hrest
  · rw [if_neg hsome] at hfirst ⊢
    by_cases htype : nalType nal = type
    · rw [if_pos htype] at hfirst ⊢
      obtain ⟨behind, rfl⟩ := hfirst
      exact ⟨behind, hrest⟩
    · rw [if_neg htype] at hfirst ⊢
      have hsame : middle = found := hfirst
      rw [hsame, Takes, if_neg hsome] at hrest
      exact hrest

theorem takes_first (htype : nalType nal = type) (hnone : found.start = none)
    (behind : List Byte) : Takes type [nal] found ⟨some (nal ++ behind), nal.length⟩ := by
  rw [Takes, hnone, first_of_cons, if_pos htype]
  exact ⟨behind, rfl⟩

theorem takes_other (hother : ¬ (nalType nal = type ∧ found.start = none)) :
    Takes type [nal] found found := by
  by_cases hsome : found.start.isSome
  · exact takes_of_found hsome
  · have hnone : found.start = none := not_isSome_iff_eq_none.mp hsome
    rw [Takes, if_neg hsome, first_of_cons, if_neg fun htype => hother ⟨htype, hnone⟩]
    rfl

/-- A unit is the first of its type, or it changes nothing. -/
theorem examine_takes (hne : nal ≠ []) (search : Search) (behind : List Byte) :
    Takes 7 [nal] search.sps (search.examine (nal ++ behind) nal.length).sps ∧
      Takes 8 [nal] search.pps (search.examine (nal ++ behind) nal.length).pps := by
  have htype : nalType (nal ++ behind) = nalType nal := by
    obtain ⟨b, tail, rfl⟩ := exists_cons_of_ne_nil hne
    rfl
  rw [Search.examine, htype]
  by_cases hsps : nalType nal = 7 ∧ search.sps.start = none
  · rw [if_pos hsps]
    refine ⟨takes_first hsps.1 hsps.2 behind, takes_other fun hpps => ?_⟩
    exact absurd (hsps.1.symm.trans hpps.1) (by decide)
  · rw [if_neg hsps]
    by_cases hpps : nalType nal = 8 ∧ search.pps.start = none
    · rw [if_pos hpps]
      exact ⟨takes_other hsps, takes_first hpps.1 hpps.2 behind⟩
    · rw [if_neg hpps]
      exact ⟨takes_other hsps, takes_other hpps⟩

theorem scan_short (hshort : rest.length ≤ 5) : scan rest search = search := by
  rw [scan, if_pos hshort]

/-- One unit of the frame: it is examined with what is delimited, and behind that the scan goes on
unless both are found. -/
theorem scan_unit (hnal : Escaped unit.nal) (hunits : ∀ unit ∈ units, unit.nal ≠ [])
    (hlong : 5 < (annexB (unit :: units)).length) (search : Search) :
    scan (annexB (unit :: units)) search =
      let nalStart := unit.nal ++ annexB units
      let examined := search.examine nalStart (nalLength nalStart)
      if examined.sps.start.isSome ∧ examined.pps.start.isSome then examined
      else if (annexB units).length ≤ 4 then examined
      else scan (annexB units) examined := by
  have hcode := starts_code_encode unit (annexB units)
  have hstart : (annexB (unit :: units)).drop
      (if (annexB (unit :: units))[2]? = some 1 then 3 else 4) = unit.nal ++ annexB units := by
    obtain ⟨long, nal⟩ := unit
    cases long with
    | true => rfl
    | false => rfl
  have hne : unit.nal ++ annexB units ≠ [] := append_ne_nil_of_left_ne_nil hnal.ne_nil _
  rw [← annex_b_cons] at hcode
  rw [scan, if_neg (not_le.mpr hlong), if_pos hcode]
  dsimp only
  rw [hstart, if_neg hne]
  split_ifs with hboth hend
  · rfl
  · rw [nal_length_unit hnal hunits, if_pos hend, drop_length]
    exact scan_short (Nat.zero_le 5)
  · rw [nal_length_unit hnal hunits, if_neg hend, drop_left' rfl]

/-- What is found in a frame, by induction on its units. -/
theorem scan_units (hunits : ∀ unit ∈ units, Escaped unit.nal) (search : Search) :
    Takes 7 (seen units) search.sps (scan (annexB units) search).sps ∧
      Takes 8 (seen units) search.pps (scan (annexB units) search).pps := by
  induction units generalizing search with
  | nil =>
    have hnothing : scan (annexB []) search = search := scan_short (Nat.zero_le 5)
    rw [hnothing]
    exact ⟨takes_nil, takes_nil⟩
  | cons unit units ih =>
    obtain ⟨hnal, hrest⟩ := forall_mem_cons.mp hunits
    have hnals : ∀ unit ∈ units, unit.nal ≠ [] := fun unit hmem => (hrest unit hmem).ne_nil
    rw [seen]
    by_cases hshort : (annexB (unit :: units)).length ≤ 5
    · have hend : (annexB units).length ≤ 4 := by
        have hfour : 4 ≤ (annexB [unit]).length := by
          refine four_le_length (cons_ne_nil _ _) fun first hmem => ?_
          rw [mem_singleton.mp hmem]
          exact hnal.ne_nil
        have hone : annexB [unit] = unit.encode := append_nil _
        rw [hone] at hfour
        rw [annex_b_cons, length_append] at hshort
        omega
      rw [if_pos hend, if_pos hshort, scan_short hshort]
      exact ⟨takes_nil, takes_nil⟩
    · rw [scan_unit hnal hnals (not_le.mp hshort)]
      dsimp only
      rw [nal_length_unit hnal hnals]
      by_cases hend : (annexB units).length ≤ 4
      · have hne : unit.nal ++ annexB units ≠ [] := append_ne_nil_of_left_ne_nil hnal.ne_nil _
        have hexamined := examine_takes hne search []
        rw [append_nil] at hexamined
        simp only [if_pos hend, if_neg hshort, ite_self]
        exact hexamined
      · obtain ⟨hsps, hpps⟩ := examine_takes hnal.ne_nil search (annexB units)
        split_ifs with hboth
        · exact ⟨hsps.cons (takes_of_found hboth.1), hpps.cons (takes_of_found hboth.2)⟩
        · obtain ⟨hsps', hpps'⟩ := ih hrest (search.examine (unit.nal ++ annexB units)
            unit.nal.length)
          exact ⟨hsps.cons hsps', hpps.cons hpps'⟩

theorem takes_start (h : Takes type nals ⟨none, len⟩ found) :
    (firstOf type nals = none ∧ found = ⟨none, len⟩) ∨
      ∃ nal behind, firstOf type nals = some nal ∧ found = ⟨some (nal ++ behind), nal.length⟩ := by
  have hnone : ¬ (Found.mk none len).start.isSome = true := Bool.false_ne_true
  rw [Takes, if_neg hnone] at h
  cases hfirst : firstOf type nals with
  | none =>
    rw [hfirst] at h
    exact .inl ⟨rfl, h⟩
  | some nal =>
    rw [hfirst] at h
    obtain ⟨behind, hfound⟩ := h
    exact .inr ⟨nal, behind, rfl, hfound⟩

/-- The scanner sees no type that is not there. -/
theorem first_of_seen (hunits : ∀ unit ∈ units, unit.nal ≠ [])
    (hseen : (firstOf type (seen units)).isSome) :
    (firstOf type (units.map Coded.nal)).isSome := by
  induction units with
  | nil => exact hseen
  | cons unit units ih =>
    obtain ⟨hne, hrest⟩ := forall_mem_cons.mp hunits
    rw [map_cons, first_of_cons]
    by_cases htype : nalType unit.nal = type
    · rw [if_pos htype]
      rfl
    · rw [if_neg htype]
      rw [seen] at hseen
      split_ifs at hseen with hend hshort
      · cases hseen
      · -- the bytes behind the unit do not change its type
        obtain ⟨b, tail, hnal⟩ := exists_cons_of_ne_nil hne
        have hsame : nalType (unit.nal ++ annexB units) = nalType unit.nal := by
          rw [hnal]
          rfl
        rw [first_of_cons, hsame, if_neg htype] at hseen
        cases hseen
      · rw [first_of_cons, if_neg htype] at hseen
        exact ih hrest hseen

/-! ## The whole function -/

/-- The calls of `malloc` give blocks of the size that is asked for. -/
def Succeeds (malloc : Malloc) : Prop := ∀ n, ∃ block, malloc n = some block ∧ block.length = n

/-- What the function does, by what the scanner sees. -/
theorem extract_eq (hsps : Succeeds mallocSps) (hpps : Succeeds mallocPps)
    (hunits : ∀ unit ∈ units, Escaped unit.nal) :
    extractSpsPpsFromH264 mallocSps mallocPps (annexB units) sets =
      match firstOf 7 (seen units), firstOf 8 (seen units) with
      | some sps, some pps => (0, ⟨some sps, sps.length, some pps, pps.length, true⟩)
      | sps, pps =>
        (-1, { sets with
          spsLen := (sps.map List.length).getD sets.spsLen
          ppsLen := (pps.map List.length).getD sets.ppsLen }) := by
  obtain ⟨hsps', hpps'⟩ := scan_units hunits ⟨⟨none, sets.spsLen⟩, ⟨none, sets.ppsLen⟩⟩
  have hcopied {nal behind block : List Byte} (hlength : block.length = nal.length) :
      writeAt block 0 ((nal ++ behind).take nal.length) = nal := by
    rw [take_left, writeAt, take_zero, nil_append, zero_add, ← hlength, drop_length, append_nil]
  rw [extractSpsPpsFromH264]
  obtain ⟨hfirst, hfound⟩ | ⟨sps, behind, hfirst, hfound⟩ := takes_start hsps'
  · rw [hfirst, hfound]
    obtain ⟨hfirst', hfound'⟩ | ⟨pps, behind', hfirst', hfound'⟩ := takes_start hpps'
    · rw [hfirst', hfound']
      rfl
    · rw [hfirst', hfound']
      rfl
  · rw [hfirst, hfound]
    obtain ⟨hfirst', hfound'⟩ | ⟨pps, behind', hfirst', hfound'⟩ := takes_start hpps'
    · rw [hfirst', hfound']
      rfl
    · rw [hfirst', hfound']
      obtain ⟨block, hblock, hlength⟩ := hsps sps.length
      obtain ⟨block', hblock', hlength'⟩ := hpps pps.length
      rw [hblock, hblock']
      dsimp only
      rw [hcopied hlength, hcopied hlength']

theorem extract_both (hsps : Succeeds mallocSps) (hpps : Succeeds mallocPps)
    (hunits : ∀ unit ∈ units, Escaped unit.nal) {sps pps : List Byte}
    (hfirst : firstOf 7 (seen units) = some sps) (hfirst' : firstOf 8 (seen units) = some pps) :
    extractSpsPpsFromH264 mallocSps mallocPps (annexB units) sets =
      (0, ⟨some sps, sps.length, some pps, pps.length, true⟩) := by
  rw [extract_eq hsps hpps hunits, hfirst, hfirst']

theorem extract_not_both (hsps : Succeeds mallocSps) (hpps : Succeeds mallocPps)
    (hunits : ∀ unit ∈ units, Escaped unit.nal)
    (hmissing : ¬ ((firstOf 7 (seen units)).isSome ∧ (firstOf 8 (seen units)).isSome)) :
    extractSpsPpsFromH264 mallocSps mallocPps (annexB units) sets =
      (-1, { sets with
        spsLen := ((firstOf 7 (seen units)).map List.length).getD sets.spsLen
        ppsLen := ((firstOf 8 (seen units)).map List.length).getD sets.ppsLen }) := by
  rw [extract_eq hsps hpps hunits]
  cases hfirst : firstOf 7 (seen units) with
  | none => rfl
  | some sps =>
    cases hfirst' : firstOf 8 (seen units) with
    | none => rfl
    | some pps =>
      rw [hfirst, hfirst'] at hmissing
      exact absurd ⟨rfl, rfl⟩ hmissing

/-- A length that is written for a type that was found. -/
theorem get_len_eq_iff {first : Option (List Byte)} :
    (first.map List.length).getD len = len ↔ ∀ nal, first = some nal → nal.length = len := by
  cases first with
  | none => exact ⟨fun _ => nofun, fun _ => rfl⟩
  | some nal =>
    refine ⟨fun h other hsome => ?_, fun h => h nal rfl⟩
    cases hsome
    exact h

/-- For which frames the result and what is stored are right. -/
theorem extract_ok_iff {mallocSps mallocPps : Malloc} (hsps : Succeeds mallocSps)
    (hpps : Succeeds mallocPps) (hunits : ∀ unit ∈ units, Escaped unit.nal) :
    ExtractOk (units.map Coded.nal) sets
        (extractSpsPpsFromH264 mallocSps mallocPps (annexB units) sets) ↔
      Extractable units sets := by
  have hnals : ∀ unit ∈ units, unit.nal ≠ [] := fun unit hmem => (hunits unit hmem).ne_nil
  by_cases hseen : (firstOf 7 (seen units)).isSome ∧ (firstOf 8 (seen units)).isSome
  · obtain ⟨sps, hfirst⟩ := isSome_iff_exists.mp hseen.1
    obtain ⟨pps, hfirst'⟩ := isSome_iff_exists.mp hseen.2
    have hthere := first_of_seen hnals hseen.1
    have hthere' := first_of_seen hnals hseen.2
    rw [extract_both hsps hpps hunits hfirst hfirst', Extractable, if_pos ⟨hthere, hthere'⟩, hfirst,
      hfirst']
    constructor
    · intro hok
      obtain ⟨first, hnal⟩ := isSome_iff_exists.mp hthere
      obtain ⟨first', hnal'⟩ := isSome_iff_exists.mp hthere'
      obtain ⟨hdata, -, hdata', -⟩ := hok.stored first first' hnal hnal'
      exact ⟨hdata.trans hnal.symm, hdata'.trans hnal'.symm⟩
    · rintro ⟨hsame, hsame'⟩
      refine ⟨⟨fun _ => ⟨hthere, hthere'⟩, fun _ => rfl⟩, fun first first' hnal hnal' => ?_,
        fun hne => absurd rfl hne⟩
      cases hsame.trans hnal
      cases hsame'.trans hnal'
      exact ⟨rfl, rfl, rfl, rfl⟩
  · have hfail : (-1 : Int) ≠ 0 := by decide
    rw [extract_not_both hsps hpps hunits hseen, Extractable]
    by_cases hthere : (firstOf 7 (units.map Coded.nal)).isSome ∧
        (firstOf 8 (units.map Coded.nal)).isSome
    · rw [if_pos hthere]
      constructor
      · intro hok
        exact absurd (hok.returns.mpr hthere) hfail
      · rintro ⟨hsame, hsame'⟩
        rw [hsame, hsame'] at hseen
        exact absurd hthere hseen
    · rw [if_neg hthere]
      constructor
      · intro hok
        obtain ⟨-, hlen, -, hlen'⟩ := hok.unchanged hfail
        exact ⟨get_len_eq_iff.mp hlen, get_len_eq_iff.mp hlen'⟩
      · rintro ⟨hlen, hlen'⟩
        refine ⟨⟨fun hzero => absurd hzero hfail, fun hboth => absurd hboth hthere⟩,
          fun first first' hnal hnal' => absurd ?_ hthere, fun _ =>
            ⟨rfl, get_len_eq_iff.mpr hlen, rfl, get_len_eq_iff.mpr hlen'⟩⟩
        rw [hnal, hnal']
        exact ⟨rfl, rfl⟩

theorem seen_eq {last : Coded} (hlast : 6 ≤ last.encode.length) :
    seen (units ++ [last]) = (units ++ [last]).map Coded.nal := by
  induction units with
  | nil =>
    have hone : annexB [last] = last.encode := append_nil _
    have hnone : (annexB []).length ≤ 4 := Nat.zero_le 4
    rw [nil_append, seen, if_pos hnone, hone, if_neg (by omega)]
    exact congrArg (fun nal => [nal]) (append_nil last.nal)
  | cons unit units ih =>
    have hlong : 6 ≤ (annexB (units ++ [last])).length := by
      rw [annexB, flatMap_append, length_append, flatMap_singleton]
      exact hlast.trans (Nat.le_add_left _ _)
    rw [cons_append, seen, if_neg (by omega), ih]
    rfl

/-- Both parameter sets and then a picture of two bytes. -/
def keyFrame : List Coded :=
  [⟨true, [0x67, 0x64, 0x1f]⟩, ⟨false, [0x68, 0xee]⟩, ⟨true, [0x65, 0x88]⟩]

/-- A frame with an SPS and no PPS. -/
def onlySps : List Coded := [⟨true, [0x67, 0x64, 0x1f]⟩, ⟨true, [0x65, 0x88]⟩]

def mallocZeros : Malloc := fun n => some (replicate n 0)

theorem malloc_zeros_succeeds : Succeeds mallocZeros := fun _ => ⟨_, rfl, length_replicate⟩

/-- Nothing is stored. -/
def noSets : ParameterSets := ⟨none, 0, none, 0, false⟩

theorem key_frame_ok : ExtractOk (keyFrame.map Coded.nal) noSets
    (extractSpsPpsFromH264 mallocZeros mallocZeros (annexB keyFrame) noSets) := by
  have hescaped : ∀ unit ∈ keyFrame, Escaped unit.nal := by decide
  refine (extract_ok_iff malloc_zeros_succeeds malloc_zeros_succeeds hescaped).mpr ?_
  have hseen : seen keyFrame = keyFrame.map Coded.nal :=
    @seen_eq (keyFrame.take 2) ⟨true, [0x65, 0x88]⟩ (by decide)
  rw [Extractable, hseen]
  split_ifs with hboth
  · exact ⟨rfl, rfl⟩
  · exact absurd ⟨rfl, rfl⟩ hboth

/-- The length of the SPS is stored although there is no PPS. -/
theorem only_sps_not_ok : ¬ ExtractOk (onlySps.map Coded.nal) noSets
    (extractSpsPpsFromH264 mallocZeros mallocZeros (annexB onlySps) noSets) := by
  have hescaped : ∀ unit ∈ onlySps, Escaped unit.nal := by decide
  intro hok
  rw [extract_not_both malloc_zeros_succeeds malloc_zeros_succeeds hescaped (by decide)] at hok
  obtain ⟨-, hlen, -⟩ := hok.unchanged (by decide)
  exact absurd hlen (by decide)

end FullhanRtos.SpsPps
