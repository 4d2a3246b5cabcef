import FullhanRtos.Kservice.Format

/-!
# Formatted output in a buffer

What a format prints does not depend on the buffer, except for the sign of a `long long` that is not
stored, which `print_number_ll` does not count. `vsnprintf_safe_iff` says when `rt_vsnprintf` stays
in the buffer, stores what fits and returns the length.
-/

namespace FullhanRtos.Kservice

open Bytes CString Output Word List Option Nat

variable {rodata : Bool → Int → Byte} {fmt fmt' : List Byte} {args args' : List Arg}
  {d : Directive} {ds : List Directive} {n : Number} {r : Directive × List Byte × List Arg}
  {flags : Flags}

/-! ## Formats with matching arguments -/

/-- The format is read to its end, and each conversion finds an argument of its kind. -/
inductive Reads : List Byte → List Arg → List Directive → Prop where
  | done {args : List Arg} : Reads [] args []
  | char {c : Byte} {fmt : List Byte} {args : List Arg} {ds : List Directive} (hc : c ≠ chr '%')
      (hrest : Reads fmt args ds) : Reads (c :: fmt) args (.chars [c] :: ds)
  | conversion {fmt fmt' : List Byte} {args args' : List Arg} {d : Directive} {ds : List Directive}
      (hconversion : conversion fmt args = some (d, fmt', args')) (hrest : Reads fmt' args' ds) :
      Reads (chr '%' :: fmt) args (d :: ds)

theorem skip_atoi_length (i : Int) (fmt : List Byte) : (skipAtoi i fmt).2.length ≤ fmt.length := by
  induction fmt generalizing i with
  | nil => exact le_refl _
  | cons c fmt ih =>
    rw [skipAtoi]
    split
    · exact (ih _).trans (le_succ _)
    · exact le_refl _

theorem read_flags_length (flags : Flags) (fmt : List Byte) :
    (readFlags flags fmt).2.length ≤ fmt.length := by
  induction fmt generalizing flags with
  | nil => exact le_refl _
  | cons c fmt ih =>
    have hnext : ∀ flags, (readFlags flags fmt).2.length ≤ (c :: fmt).length :=
      fun flags => (ih flags).trans (le_succ _)
    rw [readFlags]
    split
    · exact hnext _
    split
    · exact hnext _
    split
    · exact hnext _
    split
    · exact hnext _
    split
    · exact hnext _
    · exact le_refl _


theorem read_width_length {r : Int × Flags × List Byte × List Arg}
    (h : readWidth flags fmt args = some r) : r.2.2.1.length ≤ fmt.length := by
  unfold readWidth at h
  cases fmt with
  | nil =>
    obtain rfl := some.inj h
    exact le_refl _
  | cons c fmt =>
    dsimp only at h
    split at h
    · have hskip := skip_atoi_length 0 (c :: fmt)
      generalize skipAtoi 0 (c :: fmt) = skipped at h hskip
      obtain rfl := some.inj h
      exact hskip
    split at h
    · split at h
      · split at h
        · obtain rfl := some.inj h
          exact le_succ _
        · obtain rfl := some.inj h
          exact le_succ _
      · exact absurd h nofun
    · obtain rfl := some.inj h
      exact le_refl _

theorem read_precision_length {r : Int × List Byte × List Arg}
    (h : readPrecision fmt args = some r) : r.2.1.length ≤ fmt.length := by
  unfold readPrecision at h
  cases fmt with
  | nil =>
    obtain rfl := some.inj h
    exact le_refl _
  | cons c fmt =>
    dsimp only at h
    split at h
    · cases fmt with
      | nil =>
        obtain rfl := some.inj h
        exact Nat.zero_le _
      | cons d rest =>
        dsimp only at h
        split at h
        · have hskip := skip_atoi_length 0 (d :: rest)
          generalize skipAtoi 0 (d :: rest) = skipped at h hskip
          obtain rfl := some.inj h
          exact hskip.trans (le_succ _)
        split at h
        · split at h
          · obtain rfl := some.inj h
            show rest.length ≤ rest.length + 2
            omega
          · exact absurd h nofun
        · obtain rfl := some.inj h
          exact le_succ _
    · obtain rfl := some.inj h
      exact le_refl _

theorem read_qualifier_length (fmt : List Byte) : (readQualifier fmt).2.length ≤ fmt.length := by
  unfold readQualifier
  cases fmt with
  | nil => exact le_refl _
  | cons c fmt =>
    dsimp only
    split
    · exact le_succ _
    split
    · exact le_succ _
    split
    · cases fmt with
      | nil => exact Nat.zero_le _
      | cons d rest =>
        dsimp only
        split
        · show rest.length ≤ rest.length + 2
          omega
        · exact le_succ _
    · exact le_refl _

theorem convert_length {width precision : Int} {qualifier : Qualifier}
    (h : convert flags width precision qualifier fmt args = some r) :
    r.2.1.length ≤ fmt.length := by
  unfold convert at h
  cases fmt with
  | nil =>
    obtain rfl := some.inj h
    exact le_refl _
  | cons c fmt =>
    suffices hrest : r.2.1 = fmt by
      rw [hrest]
      exact le_succ _
    dsimp only at h
    generalize specifier c = spec at h
    split at h
    · obtain rfl := some.inj h
      rfl
    · obtain rfl := some.inj h
      rfl
    · split at h
      · obtain rfl := some.inj h
        rfl
      · obtain rfl := some.inj h
        rfl
    · obtain rfl := some.inj h
      rfl
    · obtain ⟨_, -, hr⟩ := bind_eq_some_iff.mp h
      obtain rfl := some.inj hr
      rfl
    · obtain rfl := some.inj h
      rfl
    · exact absurd h nofun

/-- A conversion does not go back in the format. -/
theorem conversion_length (h : conversion fmt args = some r) : r.2.1.length ≤ fmt.length := by
  unfold conversion at h
  have hflags := read_flags_length {} fmt
  generalize readFlags {} fmt = flagged at h hflags
  obtain ⟨⟨width, flags, fmt1, args1⟩, hwidth, h⟩ := bind_eq_some_iff.mp h
  obtain ⟨⟨precision, fmt2, args2⟩, hprecision, h⟩ := bind_eq_some_iff.mp h
  dsimp only at h
  have hqualifier := read_qualifier_length fmt2
  generalize readQualifier fmt2 = qualified at h hqualifier
  calc
    r.2.1.length ≤ qualified.2.length := convert_length h
    _ ≤ fmt2.length := hqualifier
    _ ≤ fmt1.length := read_precision_length hprecision
    _ ≤ flagged.2.length := read_width_length hwidth
    _ ≤ fmt.length := hflags

/-! ## What is printed -/

/-- What `printDigits` prints, where the sign is counted in the width or is not. -/
def digitsText (counted : Bool) (sign : Option Byte) (tmp : List Byte) (n : Number) : List Byte :=
  let (spaces, size) := beforeSign sign tmp n
  replicate spaces (chr ' ') ++ sign.toList ++
    afterSign (if sign.isSome && counted then size - 1 else size) tmp n

/-- The number is padded behind its sign, so that the sign takes a place of the padding. -/
def SignPads (sign : Option Byte) (tmp : List Byte) (n : Number) : Prop :=
  sign.isSome ∧ (n.type.zeropad || n.type.left) ∧ max n.precision tmp.length < n.width

variable {sign : Option Byte} {tmp : List Byte} {size size' : Int}

theorem sign_pads_iff : SignPads sign tmp n ↔ sign.isSome ∧ 0 < (beforeSign sign tmp n).2 := by
  unfold SignPads beforeSign
  refine and_congr_right fun _ => ?_
  split
  · rename_i hpads
    rw [hpads]
    exact (and_iff_right rfl).trans Int.sub_pos.symm
  · rename_i hpads
    refine iff_of_false (fun h => hpads h.1) ?_
    show ¬ 0 < min _ 0 - 1
    omega

theorem after_sign_congr (h : size.toNat = size'.toNat) :
    afterSign size tmp n = afterSign size' tmp n := by
  unfold afterSign
  cases n.type.left with
  | true =>
    dsimp only
    rw [if_pos rfl, if_pos rfl, if_pos rfl, if_pos rfl, h]
  | false =>
    dsimp only
    have hdone : (min size 0 - 1).toNat = 0 := by omega
    have hdone' : (min size' 0 - 1).toNat = 0 := by omega
    rw [if_neg Bool.false_ne_true, if_neg Bool.false_ne_true, if_neg Bool.false_ne_true,
      if_neg Bool.false_ne_true, h, hdone, hdone']

theorem after_sign_length (tmp : List Byte) (n : Number) :
    ∃ rest, ∀ size, (afterSign size tmp n).length = size.toNat + rest := by
  unfold afterSign
  refine ⟨(n.precision - tmp.length).toNat +
    (if n.precision = 0 then [] else tmp.reverse).length, fun size => ?_⟩
  rw [length_append, length_append, length_append, length_replicate,
    length_replicate, length_replicate]
  cases n.type.left with
  | true =>
    rw [if_pos rfl, if_pos rfl]
    omega
  | false =>
    rw [if_neg Bool.false_ne_true, if_neg Bool.false_ne_true]
    omega

/-- A sign that is not counted matters only where it takes a place of the padding. -/
theorem digits_text_uncounted (counted : Bool) (h : ¬ SignPads sign tmp n) :
    digitsText counted sign tmp n = digitsText true sign tmp n := by
  rw [sign_pads_iff] at h
  unfold digitsText
  generalize beforeSign sign tmp n = before at h
  cases hsign : sign.isSome with
  | false => rfl
  | true =>
    rw [hsign] at h
    have hnonpos : before.2 ≤ 0 := not_lt.mp fun hpos => h ⟨rfl, hpos⟩
    refine congrArg _ (after_sign_congr ?_)
    split <;> split <;> omega

theorem digits_text_longer (h : SignPads sign tmp n) :
    (digitsText false sign tmp n).length = (digitsText true sign tmp n).length + 1 := by
  obtain ⟨hsign, hpos⟩ := sign_pads_iff.mp h
  obtain ⟨rest, hrest⟩ := after_sign_length tmp n
  unfold digitsText
  generalize beforeSign sign tmp n = before at hpos
  rw [length_append, length_append, length_append, length_append, hsign, hrest, hrest]
  show _ + (before.2.toNat + rest) = _ + ((before.2 - 1).toNat + rest) + 1
  omega

theorem digits_text_pos (h : SignPads sign tmp n) : 0 < (digitsText true sign tmp n).length := by
  obtain ⟨c, hc⟩ := isSome_iff_exists.mp h.1
  unfold digitsText
  rw [length_append, length_append, hc]
  show 0 < _ + 1 + _
  omega

theorem print_digits_eq (lim : Nat) (always : Bool) (s : Sink) (sign : Option Byte)
    (tmp : List Byte) (n : Number) :
    printDigits lim always s sign tmp n =
      s.puts lim (digitsText (always || decide (s.ptr < lim)) sign tmp n) := by
  have hprint : ∃ counted, (SignPads sign tmp n → counted = (always || decide (s.ptr < lim))) ∧
      printDigits lim always s sign tmp n = s.puts lim (digitsText counted sign tmp n) := by
    have hspaces : SignPads sign tmp n → (beforeSign sign tmp n).1 = 0 := fun hpads => by
      unfold beforeSign
      rw [if_pos hpads.2.1]
    unfold printDigits digitsText
    generalize beforeSign sign tmp n = before at hspaces
    refine ⟨always || decide ((s.puts lim (replicate before.1 (chr ' '))).ptr < lim),
      fun hpads => ?_, ?_⟩
    · rw [hspaces hpads]
      rfl
    · rw [puts_append, puts_append]
  obtain ⟨counted, hcounted, hprint⟩ := hprint
  rw [hprint]
  by_cases hpads : SignPads sign tmp n
  · rw [hcounted hpads]
  · rw [digits_text_uncounted _ hpads, digits_text_uncounted (always || _) hpads]

/-! ## Conversions and formats -/

variable (rodata)

/-- The sign and the digits of `print_number_ll`. -/
def Number.longDigits (n : Number) : Option Byte × List Byte :=
  let (sign, num) := getSign (fun x => int64 (-x)) n.type n.num
  (sign, tmpDigits rodata (divide64 n.base) n.type.large num)

/-- What a conversion prints, where the sign of a `long long` is counted or is not. -/
def Directive.textIf (counted : Bool) : Directive → List Byte
  | .chars out => out
  | .number n =>
    let (sign, num) := getSign (fun x => int (-x)) n.type n.num
    digitsText true sign (tmpDigits rodata (divide n.base) n.type.large num) n
  | .longNumber n => digitsText counted (n.longDigits rodata).1 (n.longDigits rodata).2 n

/-- What it prints into a buffer with room. -/
def Directive.text (d : Directive) : List Byte := d.textIf rodata true

/-- Where it stops to store. -/
def Directive.lim (bufEnd : Nat) : Directive → Nat
  | .chars _ | .number _ => bufEnd
  | .longNumber _ => bufEnd + 1

/-- A `long long` with its sign in front of the padding. -/
def Directive.SignPads : Directive → Prop
  | .chars _ | .number _ => False
  | .longNumber n => Kservice.SignPads (n.longDigits rodata).1 (n.longDigits rodata).2 n

variable {rodata}

theorem print_eq (bufEnd : Nat) (s : Sink) (d : Directive) :
    d.print rodata bufEnd s =
      s.puts (d.lim bufEnd) (d.textIf rodata (decide (s.ptr ≤ bufEnd))) := by
  cases d with
  | chars out => rfl
  | number n => exact print_digits_eq bufEnd true s _ _ n
  | longNumber n =>
    have hprint := print_digits_eq (bufEnd + 1) false s (n.longDigits rodata).1
      (n.longDigits rodata).2 n
    rw [Bool.false_or, decide_eq_decide.mpr Nat.lt_succ_iff] at hprint
    exact hprint

theorem format_loop_eq (bufEnd : Nat) {rounds : Nat} (h : Reads fmt args ds)
    (hrounds : fmt.length < rounds) (s : Sink) :
    formatLoop rodata bufEnd rounds s fmt args =
      some (ds.foldl (fun s d => d.print rodata bufEnd s) s) := by
  induction h generalizing rounds s with
  | done =>
    cases rounds with
    | zero => exact absurd hrounds (Nat.not_lt_zero _)
    | succ rounds => rfl
  | char hc hrest ih =>
    cases rounds with
    | zero => exact absurd hrounds (Nat.not_lt_zero _)
    | succ rounds =>
      rw [formatLoop, if_neg hc]
      exact ih (lt_of_succ_lt_succ hrounds) _
  | conversion hconversion hrest ih =>
    cases rounds with
    | zero => exact absurd hrounds (Nat.not_lt_zero _)
    | succ rounds =>
      have hlength := conversion_length hconversion
      rw [formatLoop, if_pos rfl, hconversion]
      exact ih (hlength.trans_lt (lt_of_succ_lt_succ hrounds)) _

/-! ## Where the bytes go -/

variable (rodata)

/-- What a format prints into a buffer with room. -/
def text (ds : List Directive) : List Byte := ds.flatMap (Directive.text rodata)

def marked (bufEnd : Nat) (ds : List Directive) : List (Nat × Byte) :=
  ds.flatMap fun d => (d.text rodata).map (Prod.mk (d.lim bufEnd))

/-- What is printed from a pointer on. -/
def emitted (bufEnd : Nat) : Nat → List Directive → List (Nat × Byte)
  | _, [] => []
  | ptr, d :: ds =>
    let out := d.textIf rodata (decide (ptr ≤ bufEnd))
    out.map (Prod.mk (d.lim bufEnd)) ++ emitted bufEnd (add32 ptr out.length) ds

/-- A `long long` at an offset ends in the buffer, or starts behind the byte that follows it and has
no sign in front of its padding. -/
def Directive.Fits (size offset : Nat) : Directive → Prop
  | .chars _ | .number _ => True
  | .longNumber n =>
    offset + ((Directive.longNumber n).text rodata).length ≤ size ∨
      size < offset ∧ ¬ (Directive.longNumber n).SignPads rodata

def LongsFit (size : Nat) : Nat → List Directive → Prop
  | _, [] => True
  | offset, d :: ds =>
    d.Fits rodata size offset ∧ LongsFit size (offset + (d.text rodata).length) ds

variable {rodata} {bufEnd buf size offset i : Nat} {e : Nat × Byte}

theorem print_all_eq {s : Sink} (hs : s.ptr < 2 ^ 32) :
    ds.foldl (fun s d => d.print rodata bufEnd s) s = s.run (emitted rodata bufEnd s.ptr ds) := by
  induction ds generalizing s with
  | nil => rfl
  | cons d ds ih =>
    rw [foldl_cons, print_eq, puts_eq_run]
    have hptr := run_ptr hs
      ((d.textIf rodata (decide (s.ptr ≤ bufEnd))).map (Prod.mk (d.lim bufEnd)))
    rw [length_map] at hptr
    have hlt : (s.run ((d.textIf rodata (decide (s.ptr ≤ bufEnd))).map
        (Prod.mk (d.lim bufEnd)))).ptr < 2 ^ 32 := hptr ▸ mod_lt _ (by omega)
    rw [ih hlt, hptr, ← run_append]
    rfl

theorem marked_text (bufEnd : Nat) (ds : List Directive) :
    (marked rodata bufEnd ds).map Prod.snd = text rodata ds := by
  unfold marked text
  rw [map_flatMap]
  refine flatMap_congr fun d _ => ?_
  rw [List.map_map]
  exact List.map_id _

theorem marked_length (rodata : Bool → Int → Byte) (bufEnd : Nat) (ds : List Directive) :
    (marked rodata bufEnd ds).length = (text rodata ds).length := by
  rw [← marked_text bufEnd ds, length_map]

theorem text_if_cases (rodata : Bool → Int → Byte) (counted : Bool) (d : Directive) :
    d.textIf rodata counted = d.text rodata ∨
      counted = false ∧ d.SignPads rodata ∧ 0 < (d.text rodata).length ∧
        (d.textIf rodata counted).length = (d.text rodata).length + 1 := by
  cases d with
  | chars out => exact Or.inl rfl
  | number n => exact Or.inl rfl
  | longNumber n =>
    by_cases hpads : (Directive.longNumber n).SignPads rodata
    · cases counted with
      | true => exact Or.inl rfl
      | false => exact Or.inr ⟨rfl, hpads, digits_text_pos hpads, digits_text_longer hpads⟩
    · exact Or.inl (digits_text_uncounted counted hpads)

theorem emitted_length (rodata : Bool → Int → Byte) (bufEnd ptr : Nat) (ds : List Directive) :
    (text rodata ds).length ≤ (emitted rodata bufEnd ptr ds).length ∧
      (emitted rodata bufEnd ptr ds).length ≤ 2 * (text rodata ds).length := by
  induction ds generalizing ptr with
  | nil => exact ⟨le_refl _, le_refl _⟩
  | cons d ds ih =>
    have hrest := ih (add32 ptr (d.textIf rodata (decide (ptr ≤ bufEnd))).length)
    have htext : (text rodata (d :: ds)).length =
        (d.text rodata).length + (text rodata ds).length := length_append
    rw [emitted, htext, length_append, length_map]
    rcases text_if_cases rodata (decide (ptr ≤ bufEnd)) d with heq | ⟨-, -, hpos, hlonger⟩
    · rw [heq] at hrest ⊢
      omega
    · omega

theorem marked_cons (bufEnd : Nat) (d : Directive) (ds : List Directive) :
    marked rodata bufEnd (d :: ds) =
      (d.text rodata).map (Prod.mk (d.lim bufEnd)) ++ marked rodata bufEnd ds := rfl

/-- In the buffer the pointer is not behind the end. -/
theorem ptr_le_or (hend : bufEnd = buf + size) (offset : Nat) :
    add32 buf offset ≤ bufEnd ∨ size < offset := by
  unfold add32
  omega

/-- Where all `long long`s fit, what is printed does not depend on the buffer. -/
theorem emitted_eq (hend : bufEnd = buf + size) (hfits : LongsFit rodata size offset ds) :
    emitted rodata bufEnd (add32 buf offset) ds = marked rodata bufEnd ds := by
  induction ds generalizing offset with
  | nil => rfl
  | cons d ds ih =>
    obtain ⟨hd, hds⟩ := hfits
    have hsame : d.textIf rodata (decide (add32 buf offset ≤ bufEnd)) = d.text rodata := by
      rcases ptr_le_or hend offset with hle | hbehind
      · rw [decide_eq_true hle]
        rfl
      · rcases text_if_cases rodata (decide (add32 buf offset ≤ bufEnd)) d with heq |
          ⟨-, hpads, -, -⟩
        · exact heq
        · cases d with
          | chars out => exact hpads.elim
          | number n => exact hpads.elim
          | longNumber n =>
            rcases hd with hle | ⟨-, hnot⟩
            · omega
            · exact absurd hpads hnot
    rw [emitted, hsame, add32_assoc, ih hds, marked_cons]

/-- Then no byte has the place behind the buffer and a limit that lets it there. -/
theorem marked_limit (hfits : LongsFit rodata size offset ds)
    (he : (marked rodata bufEnd ds)[i]? = some e) :
    e.1 = bufEnd ∨ e.1 = bufEnd + 1 ∧ offset + i ≠ size := by
  induction ds generalizing offset i with
  | nil => exact absurd he nofun
  | cons d ds ih =>
    obtain ⟨hd, hds⟩ := hfits
    rw [marked_cons] at he
    by_cases hi : i < (d.text rodata).length
    · rw [getElem?_append_left (by rw [length_map]; exact hi), getElem?_map] at he
      obtain ⟨c, -, rfl⟩ := map_eq_some_iff.mp he
      cases d with
      | chars out => exact Or.inl rfl
      | number n => exact Or.inl rfl
      | longNumber n =>
        refine Or.inr ⟨rfl, ?_⟩
        rcases hd with hle | ⟨hbehind, -⟩
        · omega
        · omega
    · rw [getElem?_append_right (by rw [length_map]; omega), length_map] at he
      have hrest := ih hds he
      rwa [show offset + (d.text rodata).length + (i - (d.text rodata).length) = offset + i by
        omega] at hrest

/-- Where the output has its length and nothing is stored behind the buffer, all `long long`s
fit. -/
theorem longs_fit_of_length (hend : bufEnd = buf + size)
    (hroom : buf + offset + (text rodata ds).length ≤ 2 ^ 32)
    (hlength : (emitted rodata bufEnd (add32 buf offset) ds).length = (text rodata ds).length)
    (hbehind : ∀ i c, (marked rodata bufEnd ds)[i]? = some (bufEnd + 1, c) → offset + i ≠ size) :
    LongsFit rodata size offset ds := by
  induction ds generalizing offset with
  | nil => trivial
  | cons d ds ih =>
    have htext : (text rodata (d :: ds)).length =
        (d.text rodata).length + (text rodata ds).length := length_append
    rw [emitted, length_append, length_map] at hlength
    have hcases := text_if_cases rodata (decide (add32 buf offset ≤ bufEnd)) d
    have hlonger : (d.textIf rodata (decide (add32 buf offset ≤ bufEnd))).length =
        (d.text rodata).length := by
      have hrest := (emitted_length rodata bufEnd (add32 (add32 buf offset)
        (d.textIf rodata (decide (add32 buf offset ≤ bufEnd))).length) ds).1
      rcases hcases with heq | ⟨-, -, -, hlonger⟩
      · rw [heq]
      · omega
    rw [hlonger, add32_assoc] at hlength
    refine ⟨?_, ih (by omega) (by omega) fun i c he => ?_⟩
    · cases d with
      | chars out => trivial
      | number n => trivial
      | longNumber n =>
        by_cases hle : offset + ((Directive.longNumber n).text rodata).length ≤ size
        · exact Or.inl hle
        have hafter : size < offset := by
          by_contra hin
          -- The byte at the place behind the buffer is one of the number.
          have hi : size - offset < ((Directive.longNumber n).text rodata).length := by omega
          refine hbehind (size - offset) ((Directive.longNumber n).text rodata)[size - offset]
            ?_ (by omega)
          rw [marked_cons, getElem?_append_left (by rw [length_map]; exact hi),
            getElem?_map, getElem?_eq_getElem hi]
          rfl
        refine Or.inr ⟨hafter, fun hpads => ?_⟩
        have hpos : 0 < ((Directive.longNumber n).text rodata).length := digits_text_pos hpads
        have hptr : add32 buf offset = buf + offset := add32_eq (by omega)
        have huncounted : ¬ add32 buf offset ≤ bufEnd := by
          omega
        rw [decide_eq_false huncounted] at hlonger
        exact Nat.succ_ne_self _ ((digits_text_longer hpads).symm.trans hlonger)
    · have hi := hbehind ((d.text rodata).length + i) c (by
        rw [marked_cons, getElem?_append_right (by rw [length_map]; omega),
          length_map, Nat.add_sub_cancel_left]
        exact he)
      omega

theorem emitted_eq_of_length {ptr : Nat}
    (hlength : (emitted rodata bufEnd ptr ds).length = (text rodata ds).length) :
    emitted rodata bufEnd ptr ds = marked rodata bufEnd ds := by
  induction ds generalizing ptr with
  | nil => rfl
  | cons d ds ih =>
    have htext : (text rodata (d :: ds)).length =
        (d.text rodata).length + (text rodata ds).length := length_append
    rw [htext, emitted, length_append, length_map] at hlength
    have hcases := text_if_cases rodata (decide (ptr ≤ bufEnd)) d
    have hrest := (emitted_length rodata bufEnd
      (add32 ptr (d.textIf rodata (decide (ptr ≤ bufEnd))).length) ds).1
    have hsame : d.textIf rodata (decide (ptr ≤ bufEnd)) = d.text rodata := by
      rcases hcases with heq | ⟨-, -, -, hlonger⟩
      · exact heq
      · omega
    rw [hsame] at hlength
    rw [emitted, hsame, marked_cons, ih (by omega)]

theorem le_marked_limit (he : (marked rodata bufEnd ds)[i]? = some e) : bufEnd ≤ e.1 := by
  obtain ⟨d, -, hmem⟩ := mem_flatMap.mp (mem_of_getElem? he)
  obtain ⟨c, -, rfl⟩ := List.mem_map.mp hmem
  cases d with
  | chars out => exact le_refl _
  | number n => exact le_refl _
  | longNumber n => exact le_succ _

/-- An output shorter than the buffer fits. -/
theorem longs_fit_of_le (hle : offset + (text rodata ds).length ≤ size) :
    LongsFit rodata size offset ds := by
  induction ds generalizing offset with
  | nil => trivial
  | cons d ds ih =>
    have htext : (text rodata (d :: ds)).length =
        (d.text rodata).length + (text rodata ds).length := length_append
    refine ⟨?_, ih (by omega)⟩
    cases d with
    | chars out => trivial
    | number n => trivial
    | longNumber n => exact Or.inl (by omega)

/-! ## In the buffer -/

/-- Only bytes of the buffer are stored, in the end as many of the output as have room and a
terminator, and the result is the length of the output. -/
structure Safe (buf size : Nat) (text : List Byte) (r : Sink × Int) : Prop where
  inside : ∀ w ∈ r.1.writes, buf ≤ w.1 ∧ w.1 < buf + size
  stored : 0 < size → ∀ i ≤ (text.take (size - 1)).length,
    r.1.writes.lookup (buf + i) = (text.take (size - 1) ++ [0])[i]?
  length : r.2 = int text.length

/-- The output does not run over the top of the address space. Where the buffer does, the output and
its terminator stay in front of the last byte there. -/
def Room (buf size length : Nat) : Prop :=
  if size = 0 then buf + length ≤ 2 ^ 32
  else buf + length < 2 ^ 32 ∧ (2 ^ 32 ≤ buf + size → buf + length + 1 < 2 ^ 32)

theorem adjusted_end_eq (hbuf : buf < 2 ^ 32 - 1) (hsize : size < 2 ^ 32) :
    adjustedEnd buf size = buf + adjustedSize buf size ∧ adjustedEnd buf size < 2 ^ 32 ∧
      (buf + size < 2 ^ 32 ∧ adjustedSize buf size = size ∨
        2 ^ 32 ≤ buf + size ∧ adjustedSize buf size = 2 ^ 32 - 1 - buf) := by
  unfold adjustedEnd adjustedSize add32
  split <;> omega

theorem vsnprintf_eq {ds : List Directive} (hbuf : buf < 2 ^ 32 - 1)
    (hmatch : Reads (cString fmt) args ds) :
    rtVsnprintf rodata buf size fmt args =
      some (terminate (adjustedEnd buf size) (adjustedSize buf size)
          ((⟨buf, []⟩ : Sink).run (emitted rodata (adjustedEnd buf size) buf ds)),
        int ((add32 buf (emitted rodata (adjustedEnd buf size) buf ds).length : Nat) - buf)) := by
  have hptr : (⟨buf, []⟩ : Sink).ptr < 2 ^ 32 := by
    show buf < 2 ^ 32
    omega
  unfold rtVsnprintf
  dsimp only
  rw [format_loop_eq _ hmatch (lt_succ_self _), print_all_eq hptr]
  show some (_, int (((⟨buf, []⟩ : Sink).run _).ptr - buf)) = _
  rw [run_ptr hptr]

/-- What is stored in the end, after these bytes have been printed. -/
def stored (buf size : Nat) (es : List (Nat × Byte)) : List (Nat × Byte) :=
  (terminate (adjustedEnd buf size) (adjustedSize buf size) ((⟨buf, []⟩ : Sink).run es)).writes

variable {es : List (Nat × Byte)} {w : Nat × Byte}

/-- The bytes that are stored before the terminator. -/
theorem mem_printed (hbuf : buf < 2 ^ 32) :
    w ∈ ((⟨buf, []⟩ : Sink).run es).writes ↔
      ∃ i e, es[i]? = some e ∧ add32 buf i < e.1 ∧ w = (add32 buf i, e.2) := by
  rw [mem_run hbuf]
  exact or_iff_right not_mem_nil

theorem stored_eq (es : List (Nat × Byte)) (hbuf : buf < 2 ^ 32)
    (hpos : 0 < adjustedSize buf size) :
    stored buf size es =
      (if add32 buf es.length < adjustedEnd buf size then add32 buf es.length
        else adjustedEnd buf size - 1, 0) :: ((⟨buf, []⟩ : Sink).run es).writes := by
  unfold stored terminate
  rw [if_pos hpos, run_ptr hbuf]

theorem stored_nothing (hzero : adjustedSize buf size = 0) :
    stored buf size es = ((⟨buf, []⟩ : Sink).run es).writes := by
  unfold stored terminate
  rw [hzero, if_neg (lt_irrefl 0)]

theorem mem_stored (h : w ∈ ((⟨buf, []⟩ : Sink).run es).writes) : w ∈ stored buf size es := by
  unfold stored terminate
  split
  · exact mem_cons_of_mem _ h
  · exact h

/-- The result is right exactly if the output has its length. -/
theorem result_eq_iff (buf : Nat) {m k : Nat} (hk : k < 2 ^ 32) (hle : k ≤ m) (hle' : m ≤ 2 * k) :
    int ((add32 buf m : Nat) - buf) = int k ↔ m = k := by
  unfold int add32
  omega

/-- An output over the top of the address space is stored at its bottom. -/
theorem room_of_inside (hbuf : buf < 2 ^ 32 - 1) (hsize : size < 2 ^ 32)
    (hlength : es.length < 2 ^ 32)
    (hlimit : ∀ (i : Nat) (e : Nat × Byte), es[i]? = some e → adjustedEnd buf size ≤ e.1)
    (hinside : ∀ w ∈ stored buf size es, buf ≤ w.1 ∧ w.1 < buf + size)
    (hend : 0 < size → es.length ≤ size - 1 →
      (stored buf size es).lookup (buf + es.length) = some 0) :
    Room buf size es.length := by
  have hbuf' : buf < 2 ^ 32 := by omega
  obtain ⟨hadjusted, hlt, hcases⟩ := adjusted_end_eq hbuf hsize
  have htop : buf + es.length ≤ 2 ^ 32 := by
    by_contra hover
    have hi : 2 ^ 32 - buf < es.length := by omega
    have hzero : add32 buf (2 ^ 32 - buf) = 0 := by
      unfold add32
      omega
    have he := hlimit _ _ (getElem?_eq_getElem hi)
    have hin := hinside _ (mem_stored ((mem_printed hbuf').mpr
      ⟨_, _, getElem?_eq_getElem hi, by omega, rfl⟩))
    omega
  unfold Room
  by_cases hzero : size = 0
  · rw [if_pos hzero]
    exact htop
  rw [if_neg hzero]
  have hpos : 0 < adjustedSize buf size := by omega
  have hbelow : buf + es.length < 2 ^ 32 := by
    by_contra hat
    have hwraps : add32 buf es.length = 0 := by
      unfold add32
      omega
    have hin := hinside _ (stored_eq es hbuf' hpos ▸ mem_cons_self)
    rw [hwraps, if_pos (by omega)] at hin
    omega
  refine ⟨hbelow, fun hover => ?_⟩
  by_contra hat
  -- The output ends at the last byte, where no byte and no terminator is stored.
  have hptr : add32 buf es.length = buf + es.length := add32_eq hbelow
  have hlast := hend (Nat.pos_of_ne_zero hzero) (by omega)
  rw [stored_eq es hbuf' hpos, hptr, if_neg (by omega), lookup_cons,
    beq_false_of_ne (by omega)] at hlast
  obtain ⟨l, r, hsplit, -⟩ := lookup_eq_some_iff.mp hlast
  have hmem : (buf + es.length, (0 : Byte)) ∈ ((⟨buf, []⟩ : Sink).run es).writes := by
    rw [hsplit]
    exact mem_append_right _ mem_cons_self
  obtain ⟨i, e, he, -, hw⟩ := (mem_printed hbuf').mp hmem
  have hi : i < es.length := (List.getElem?_eq_some_iff.mp he).1
  have hplace : buf + es.length = add32 buf i := congrArg Prod.fst hw
  unfold add32 at hplace
  omega

theorem stored_safe (hbuf : buf < 2 ^ 32 - 1) (hsize : size < 2 ^ 32)
    (hroom : Room buf size es.length)
    (hlimit : ∀ (i : Nat) (e : Nat × Byte), es[i]? = some e →
      e.1 = adjustedEnd buf size ∨ e.1 = adjustedEnd buf size + 1 ∧ i ≠ adjustedSize buf size) :
    (∀ w ∈ stored buf size es, buf ≤ w.1 ∧ w.1 < buf + size) ∧
      (0 < size → ∀ i ≤ ((es.map Prod.snd).take (size - 1)).length,
        (stored buf size es).lookup (buf + i) =
          ((es.map Prod.snd).take (size - 1) ++ [0])[i]?) := by
  have hbuf' : buf < 2 ^ 32 := by omega
  obtain ⟨hadjusted, hlt, hcases⟩ := adjusted_end_eq hbuf hsize
  have htop : buf + es.length ≤ 2 ^ 32 := by
    unfold Room at hroom
    split at hroom
    · exact hroom
    · omega
  have hprinted : ∀ w ∈ ((⟨buf, []⟩ : Sink).run es).writes,
      buf ≤ w.1 ∧ w.1 < buf + adjustedSize buf size := by
    intro w hw
    obtain ⟨i, e, he, hplace, rfl⟩ := (mem_printed hbuf').mp hw
    have hi : i < es.length := (List.getElem?_eq_some_iff.mp he).1
    have hptr : add32 buf i = buf + i := add32_eq (by omega)
    rw [hptr] at hplace ⊢
    have hcase := hlimit i e he
    show buf ≤ buf + i ∧ buf + i < _
    omega
  by_cases hzero : size = 0
  · have hadjustedZero : adjustedSize buf size = 0 := by omega
    refine ⟨fun w hw => ?_, fun hpos => absurd hpos (by omega)⟩
    rw [stored_nothing hadjustedZero] at hw
    have hin := hprinted w hw
    omega
  unfold Room at hroom
  rw [if_neg hzero] at hroom
  have hptr : add32 buf es.length = buf + es.length := add32_eq hroom.1
  -- The terminator stands behind the output, or in the last byte of the buffer.
  have hlast : (if add32 buf es.length < adjustedEnd buf size then add32 buf es.length
      else adjustedEnd buf size - 1) = buf + min (size - 1) es.length := by
    split <;> omega
  rw [stored_eq es hbuf' (by omega), hlast]
  refine ⟨fun w hw => ?_, fun hpos i hi => ?_⟩
  · rcases mem_cons.mp hw with rfl | hw
    · show buf ≤ buf + _ ∧ buf + _ < buf + size
      omega
    · have hin := hprinted w hw
      omega
  · rw [length_take, length_map] at hi
    rw [lookup_cons]
    rcases Nat.lt_or_eq_of_le hi with hlt' | rfl
    · have hget := getElem?_eq_getElem (show i < es.length by omega)
      have hcase := hlimit i _ hget
      have hfound := lookup_run (s := ⟨buf, []⟩) htop hget
        (show buf + i < es[i].1 by omega)
      rw [beq_false_of_ne (by omega), hfound, getElem?_append_left (by
        rw [length_take, length_map]
        exact hlt'), getElem?_take_of_lt (by omega), getElem?_map, hget]
      rfl
    · rw [beq_self_eq_true]
      have hlength : min (size - 1) es.length =
          ((es.map Prod.snd).take (size - 1)).length := by
        rw [length_take, length_map]
      rw [hlength, getElem?_append_right (le_refl _), Nat.sub_self]
      rfl

/-- `rt_vsnprintf` returns with matching arguments. It stays in the buffer, stores what fits and
returns the length of the output exactly if the output has room in the address space and all
`long long`s fit. -/
theorem vsnprintf_safe_iff (rodata : Bool → Int → Byte) {buf size : Nat} {fmt : List Byte}
    {args : List Arg} {ds : List Directive} (hbuf : buf < 2 ^ 32 - 1) (hsize : size < 2 ^ 32)
    (hmatch : Reads (cString fmt) args ds) (hlength : (text rodata ds).length < 2 ^ 32) :
    ∃ r, rtVsnprintf rodata buf size fmt args = some r ∧
      (Safe buf size (text rodata ds) r ↔
        Room buf size (text rodata ds).length ∧ LongsFit rodata size 0 ds) := by
  refine ⟨_, vsnprintf_eq hbuf hmatch, ?_⟩
  have hbuf' : buf < 2 ^ 32 := by omega
  obtain ⟨hadjusted, hlt, hcases⟩ := adjusted_end_eq hbuf hsize
  have hstart : add32 buf 0 = buf := add32_eq hbuf'
  obtain ⟨hle, hle'⟩ := emitted_length rodata (adjustedEnd buf size) buf ds
  have hresult := result_eq_iff buf hlength hle hle'
  -- The two sizes differ only where the output is shorter than both.
  have hfits : Room buf size (text rodata ds).length →
      (LongsFit rodata (adjustedSize buf size) 0 ds ↔ LongsFit rodata size 0 ds) := by
    intro hroom
    rcases hcases with ⟨-, hsame⟩ | ⟨hover, hrest⟩
    · rw [hsame]
    · unfold Room at hroom
      rw [if_neg (by omega)] at hroom
      exact iff_of_true (longs_fit_of_le (by omega)) (longs_fit_of_le (by omega))
  constructor
  · intro hsafe
    have hsame := emitted_eq_of_length (hresult.mp hsafe.length)
    have hlen := marked_length rodata (adjustedEnd buf size) ds
    have hinside : ∀ w ∈ stored buf size (marked rodata (adjustedEnd buf size) ds),
        buf ≤ w.1 ∧ w.1 < buf + size := hsame ▸ hsafe.inside
    have hroom : Room buf size (text rodata ds).length := by
      rw [← hlen]
      refine room_of_inside hbuf hsize (hlen ▸ hlength) (fun i e => le_marked_limit) hinside
        fun hpos hshort => ?_
      rw [hlen] at hshort ⊢
      have htake := take_of_length_le hshort
      have hend := hsafe.stored hpos (text rodata ds).length (by rw [htake])
      rw [htake, getElem?_append_right (le_refl _), Nat.sub_self, hsame] at hend
      exact hend
    have htop : buf + (text rodata ds).length ≤ 2 ^ 32 := by
      unfold Room at hroom
      split at hroom
      · exact hroom
      · omega
    refine ⟨hroom, (hfits hroom).mp (longs_fit_of_length hadjusted htop ?_ ?_)⟩
    · rw [hstart]
      exact hresult.mp hsafe.length
    · intro i c he hi
      have hlt' : i < (marked rodata (adjustedEnd buf size) ds).length :=
        (List.getElem?_eq_some_iff.mp he).1
      have hplace : add32 buf i = buf + i := add32_eq (by omega)
      have hin := hinside _ (mem_stored ((mem_printed hbuf').mpr
        ⟨i, _, he, show add32 buf i < adjustedEnd buf size + 1 by omega, rfl⟩))
      unfold Room at hroom
      split at hroom <;> omega
  · rintro ⟨hroom, hlongs⟩
    have hlongs' := (hfits hroom).mpr hlongs
    have hsame := emitted_eq hadjusted hlongs'
    rw [hstart] at hsame
    have hlen := marked_length rodata (adjustedEnd buf size) ds
    rw [← hlen] at hroom
    obtain ⟨hinside, hstored⟩ := stored_safe hbuf hsize hroom fun i e he => by
      have hlimit := marked_limit hlongs' he
      rw [zero_add] at hlimit
      exact hlimit
    rw [marked_text] at hstored
    rw [hsame]
    refine ⟨hinside, hstored, ?_⟩
    have hright := hresult.mpr (by rw [hsame, hlen])
    rw [hsame] at hright
    exact hright

/-- What `%5d` prints for 42. -/
def someDirective : Directive :=
  .number ⟨42, 10, 5, -1, ⟨false, true, false, false, false, false, false⟩⟩

/-- A 32-bit number that does not fit is cut off. -/
theorem cut_number_safe :
    ∃ r, rtVsnprintf (fun _ _ => 0) 0x1000 4 (ascii "%5d") [.word 42] = some r ∧
      (Safe 0x1000 4 (text (fun _ _ => 0) [someDirective]) r ↔
        Room 0x1000 4 (text (fun _ _ => 0) [someDirective]).length ∧
          LongsFit (fun _ _ => 0) 4 0 [someDirective]) := by
  have hconversion : conversion (ascii "5d") [.word 42] = some (someDirective, [], []) := by
    decide +kernel
  have hmatch : Reads (cString (ascii "%5d")) [.word 42] [someDirective] :=
    .conversion hconversion .done
  exact vsnprintf_safe_iff (fun _ _ => 0) (by omega) (by omega) hmatch (by decide +kernel)

/-- A `long long` goes one byte over the end of the buffer. -/
theorem long_number_over_end :
    ∃ r, rtVsnprintf (fun _ _ => 0) 0x1000 4 (ascii "%lld") [.longLong 1234567] = some r ∧
      ¬ Safe 0x1000 4 (ascii "1234567") r := by
  refine ⟨_, rfl, fun hsafe => ?_⟩
  have hin := hsafe.inside (0x1004, chr '5') (by decide +kernel)
  exact absurd hin.2 (lt_irrefl _)

end FullhanRtos.Kservice
