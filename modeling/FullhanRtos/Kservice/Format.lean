import FullhanRtos.Lib.CString
import FullhanRtos.Lib.Output
import Mathlib.Algebra.Order.Ring.Int
import Mathlib.Data.Int.DivMod

/-!
# Formatted output

`rt_vsnprintf` of `kernel/src/kservice.c` with `print_number` and `print_number_ll`. Precisions and
`long long`s are on, and `RT_PRINTF_SPECIAL`, which no configuration defines, is off. An `int` that
is read wraps; the counts of the padding loops go down without a bound.

A conversion is first read, with its arguments, and then printed. `Reads` are the formats with
matching arguments, and `Directive.text` is what a conversion prints into a buffer with room.
-/

namespace FullhanRtos.Kservice

open Bytes CString Output Word

/-- A number in an `int`, a `short` or a `long long`. -/
def int (x : Int) : Int := (x + 2 ^ 31) % 2 ^ 32 - 2 ^ 31

def int16 (x : Int) : Int := (x + 2 ^ 15) % 2 ^ 16 - 2 ^ 15

def int64 (x : Int) : Int := (x + 2 ^ 63) % 2 ^ 64 - 2 ^ 63

def chr (c : Char) : Byte := BitVec.ofNat 8 c.toNat

/-- The bits of `flags` and `type`. -/
structure Flags where
  zeropad : Bool := false
  sign : Bool := false
  plus : Bool := false
  space : Bool := false
  left : Bool := false
  special : Bool := false
  large : Bool := false
  deriving DecidableEq

/-- What `va_arg` gives: a 32-bit number or pointer, a 64-bit number, or a string. -/
inductive Arg where
  | word (x : Nat)
  | longLong (x : Nat)
  | string (s : Option (List Byte))
  deriving DecidableEq

inductive Qualifier where
  | plain
  | h
  | l
  | L
  deriving DecidableEq

/-- The arguments of `print_number` and `print_number_ll`. -/
structure Number where
  num : Int
  base : Nat
  width : Int
  precision : Int
  type : Flags
  deriving DecidableEq

/-- What is printed for a conversion: characters, or a number by one of the two functions. -/
inductive Directive where
  | chars (out : List Byte)
  | number (n : Number)
  | longNumber (n : Number)
  deriving DecidableEq

/-! ## Reading a conversion -/

def isdigit (c : Byte) : Bool := decide (chr '0' ≤ c ∧ c ≤ chr '9')

def skipAtoi : Int → List Byte → Int × List Byte
  | i, [] => (i, [])
  | i, c :: s =>
    if isdigit c then skipAtoi (int (i * 10 + c.toNat - (chr '0').toNat)) s else (i, c :: s)

def readFlags : Flags → List Byte → Flags × List Byte
  | flags, [] => (flags, [])
  | flags, c :: fmt =>
    if c = chr '-' then readFlags { flags with left := true } fmt
    else if c = chr '+' then readFlags { flags with plus := true } fmt
    else if c = chr ' ' then readFlags { flags with space := true } fmt
    else if c = chr '#' then readFlags { flags with special := true } fmt
    else if c = chr '0' then readFlags { flags with zeropad := true } fmt
    else (flags, c :: fmt)

def readWidth (flags : Flags) :
    List Byte → List Arg → Option (Int × Flags × List Byte × List Arg)
  | [], args => some (-1, flags, [], args)
  | c :: fmt, args =>
    if isdigit c then
      let (width, fmt) := skipAtoi 0 (c :: fmt)
      some (width, flags, fmt, args)
    else if c = chr '*' then
      match args with
      | .word x :: args =>
        if int x < 0 then some (int (-int x), { flags with left := true }, fmt, args)
        else some (int x, flags, fmt, args)
      | _ => none
    else some (-1, flags, c :: fmt, args)

def readPrecision : List Byte → List Arg → Option (Int × List Byte × List Arg)
  | [], args => some (-1, [], args)
  | c :: fmt, args =>
    if c = chr '.' then
      match fmt with
      | [] => some (0, [], args)
      | d :: rest =>
        if isdigit d then
          let (precision, fmt) := skipAtoi 0 (d :: rest)
          some (max precision 0, fmt, args)
        else if d = chr '*' then
          match args with
          | .word x :: args => some (max (int x) 0, rest, args)
          | _ => none
        else some (0, d :: rest, args)
    else some (-1, c :: fmt, args)

def readQualifier : List Byte → Qualifier × List Byte
  | [] => (.plain, [])
  | c :: fmt =>
    if c = chr 'h' then (.h, fmt)
    else if c = chr 'L' then (.L, fmt)
    else if c = chr 'l' then
      match fmt with
      | [] => (.l, [])
      | d :: rest => if d = chr 'l' then (.L, rest) else (.l, d :: rest)
    else (.plain, c :: fmt)

/-- The case `'c'`, with its two loops `while (--field_width > 0)`. -/
def charField (flags : Flags) (width : Int) (c : Byte) : List Byte :=
  let before := if flags.left then 0 else (width - 1).toNat
  let width := if flags.left then width else min (width - 1) 0
  List.replicate before (chr ' ') ++ [c] ++ List.replicate (width - 1).toNat (chr ' ')

/-- The case `'s'`, with its two loops `while (len < field_width--)`. -/
def stringField (flags : Flags) (width precision : Int) (s : Option (List Byte)) : List Byte :=
  let s := s.elim (ascii "(NULL)") cString
  let len := if 0 < precision ∧ precision < int s.length then precision else int s.length
  let before := if flags.left then 0 else (width - len).toNat
  let width := if flags.left then width else min width len - 1
  List.replicate before (chr ' ') ++ s.take len.toNat ++
    List.replicate (width - len).toNat (chr ' ')

/-- The number of an integer conversion, after the `switch`. -/
def integer (qualifier : Qualifier) (base : Nat) (width precision : Int) (flags : Flags) :
    List Arg → Option (Directive × List Arg)
  | .longLong x :: args =>
    if qualifier = .L then some (.longNumber ⟨int64 x, base, width, precision, flags⟩, args)
    else none
  | .word x :: args =>
    match qualifier with
    | .L => none
    | .h =>
      let num : Int := if flags.sign then int16 x else x % 2 ^ 16
      some (.number ⟨int num, base, width, precision, flags⟩, args)
    | .l | .plain =>
      let num : Int := if flags.sign then int x else x % 2 ^ 32
      some (.number ⟨int num, base, width, precision, flags⟩, args)
  | _ => none

/-- The cases of the `switch` on the character of the conversion. -/
inductive Specifier where
  | c
  | s
  | p
  | percent
  | integer (base : Nat) (sign large : Bool)
  | default
  deriving DecidableEq

def specifier (c : Byte) : Specifier :=
  if c = chr 'c' then .c
  else if c = chr 's' then .s
  else if c = chr 'p' then .p
  else if c = chr '%' then .percent
  else if c = chr 'o' then .integer 8 false false
  else if c = chr 'X' then .integer 16 false true
  else if c = chr 'x' then .integer 16 false false
  else if c = chr 'd' ∨ c = chr 'i' then .integer 10 true false
  else if c = chr 'u' then .integer 10 false false
  else .default

def convert (flags : Flags) (width precision : Int) (qualifier : Qualifier) :
    List Byte → List Arg → Option (Directive × List Byte × List Arg)
  | [], args => some (.chars [chr '%'], [], args)
  | c :: fmt, args =>
    match specifier c, args with
    | .c, .word x :: args =>
      some (.chars (charField flags width (BitVec.ofNat 8 x)), fmt, args)
    | .s, .string s :: args => some (.chars (stringField flags width precision s), fmt, args)
    | .p, .word x :: args =>
      if width = -1 then
        some (.number ⟨int x, 16, 8, precision, { flags with zeropad := true }⟩, fmt, args)
      else some (.number ⟨int x, 16, width, precision, flags⟩, fmt, args)
    | .percent, args => some (.chars [chr '%'], fmt, args)
    | .integer base sign large, args => do
        let flags := { flags with sign := sign, large := large }
        let (d, args) ← integer qualifier base width precision flags args
        some (d, fmt, args)
    | .default, args => some (.chars [chr '%', c], fmt, args)
    | _, _ => none

/-- One conversion after its `%`, with what is left of the format and the arguments. -/
def conversion (fmt : List Byte) (args : List Arg) :
    Option (Directive × List Byte × List Arg) := do
  let (flags, fmt) := readFlags {} fmt
  let (width, flags, fmt, args) ← readWidth flags fmt args
  let (precision, fmt, args) ← readPrecision fmt args
  let (qualifier, fmt) := readQualifier fmt
  convert flags width precision qualifier fmt args

/-! ## Printing -/

variable (rodata : Bool → Int → Byte)

/-- `digits[i]`; what stands in front of the two tables is `rodata`. -/
def digit (large : Bool) (i : Int) : Byte :=
  if 0 ≤ i then
    (ascii (if large then "0123456789ABCDEF" else "0123456789abcdef")).getD i.toNat 0
  else rodata large i

/-- `divide` and `divide_64`: the remainder and the quotient. The second one is signed. -/
def divide (base : Nat) (n : Int) : Int × Int :=
  let base : Int := if base = 10 then 10 else 16
  (n % 2 ^ 32 % base, int (n % 2 ^ 32 / base))

def divide64 (base : Nat) (n : Int) : Int × Int :=
  let base : Int := if base = 10 then 10 else 16
  (n.tmod base, n.tdiv base)

/-- The loop that fills `tmp`, for at most so many rounds. -/
def digitsLoop (divide : Int → Int × Int) (large : Bool) : Nat → Int → List Byte
  | 0, _ => []
  | rounds + 1, num =>
    if num = 0 then []
    else digit rodata large (divide num).1 :: digitsLoop divide large rounds (divide num).2

/-- `tmp`, which has room for 32 digits, the last one first. -/
def tmpDigits (divide : Int → Int × Int) (large : Bool) (num : Int) : List Byte :=
  if num = 0 then [chr '0'] else digitsLoop rodata divide large 32 num

/-- The sign, and the number without it. -/
def getSign (negate : Int → Int) (type : Flags) (num : Int) : Option Byte × Int :=
  if type.sign then
    if num < 0 then (some (chr '-'), negate num)
    else if type.plus then (some (chr '+'), num)
    else if type.space then (some (chr ' '), num)
    else (none, num)
  else (none, num)

/-- Both functions up to the sign, after `tmp` is filled: the blanks in front, and what is then left
of `size`. A loop `while (size-- > 0)` leaves the smaller one of 0 and `size`, less one. -/
def beforeSign (sign : Option Byte) (tmp : List Byte) (n : Number) : Nat × Int :=
  let size := n.width - max n.precision tmp.length
  if n.type.zeropad || n.type.left then (0, size)
  else
    let size := if sign.isSome && decide (0 < size) then size - 1 else size
    (size.toNat, min size 0 - 1)

def afterSign (size : Int) (tmp : List Byte) (n : Number) : List Byte :=
  let c := if n.type.zeropad && !n.type.left then chr '0' else chr ' '
  let padding := if n.type.left then 0 else size.toNat
  let size := if n.type.left then size else min size 0 - 1
  List.replicate padding c ++ List.replicate (n.precision - tmp.length).toNat (chr '0') ++
    (if n.precision = 0 then [] else tmp.reverse) ++ List.replicate size.toNat (chr ' ')

/-- `lim` is where they stop to store, and `always` whether the sign takes its place in the width
also where it is not stored. -/
def printDigits (lim : Nat) (always : Bool) (s : Sink) (sign : Option Byte) (tmp : List Byte)
    (n : Number) : Sink :=
  let (spaces, size) := beforeSign sign tmp n
  let s := s.puts lim (List.replicate spaces (chr ' '))
  let size := if sign.isSome && (always || decide (s.ptr < lim)) then size - 1 else size
  let s := s.puts lim sign.toList
  s.puts lim (afterSign size tmp n)

def printNumber (bufEnd : Nat) (s : Sink) (n : Number) : Sink :=
  let (sign, num) := getSign (fun x => int (-x)) n.type n.num
  printDigits bufEnd true s sign (tmpDigits rodata (divide n.base) n.type.large num) n

def printNumberLl (bufEnd : Nat) (s : Sink) (n : Number) : Sink :=
  let (sign, num) := getSign (fun x => int64 (-x)) n.type n.num
  printDigits (bufEnd + 1) false s sign (tmpDigits rodata (divide64 n.base) n.type.large num) n

def Directive.print (bufEnd : Nat) (s : Sink) : Directive → Sink
  | .chars out => s.puts bufEnd out
  | .number n => printNumber rodata bufEnd s n
  | .longNumber n => printNumberLl rodata bufEnd s n

/-- The loop of `rt_vsnprintf`, for at most so many rounds; none where an argument is not of the
kind that the format asks for. -/
def formatLoop (bufEnd : Nat) : Nat → Sink → List Byte → List Arg → Option Sink
  | 0, _, _, _ => none
  | _ + 1, s, [], _ => some s
  | rounds + 1, s, c :: fmt, args =>
    if c = chr '%' then do
      let (d, fmt, args) ← conversion fmt args
      formatLoop bufEnd rounds (d.print rodata bufEnd s) fmt args
    else formatLoop bufEnd rounds (s.put bufEnd c) fmt args

def adjustedEnd (buf size : Nat) : Nat :=
  if add32 buf size < buf then 2 ^ 32 - 1 else add32 buf size

def adjustedSize (buf size : Nat) : Nat :=
  if add32 buf size < buf then 2 ^ 32 - 1 - buf else size

/-- The terminator, after the loop. -/
def terminate (bufEnd size : Nat) (s : Sink) : Sink :=
  if 0 < size then
    { s with writes := (if s.ptr < bufEnd then s.ptr else bufEnd - 1, 0) :: s.writes }
  else s

/-- What has been stored, and the result. -/
def rtVsnprintf (buf size : Nat) (fmt : List Byte) (args : List Arg) : Option (Sink × Int) := do
  let fmt := cString fmt
  let s ← formatLoop rodata (adjustedEnd buf size) (fmt.length + 1) ⟨buf, []⟩ fmt args
  some (terminate (adjustedEnd buf size) (adjustedSize buf size) s, int (s.ptr - buf))

end FullhanRtos.Kservice
