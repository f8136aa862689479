import McCortexM3.Kservice.Pieces
import Mathlib.Data.Nat.Digits.Lemmas

/-!
# Integer conversions

A directive is an integer conversion of a format: flags, a width, a precision, a length and a
letter.  Its field is defined here as the C standard defines it for `printf`, by the value of the
argument and not by the steps of `print_number`.

## Main definitions

* `Directive`, `Directive.format` — directives and their characters.
* `Directive.field`, `Directive.printf` — the field that `printf` writes.

## Main results

* `getSpec_format` — `rt_vsnprintf` reads the parts of a directive.
-/

set_option linter.all false

namespace RtThread

open List

/-! ### Directives -/

/-- The flags `-`, `+`, space, `#` and `0`. -/
inductive FormatFlag
  | minus | plus | space | hash | zero
  deriving DecidableEq

/-- The character of a flag. -/
def FormatFlag.char : FormatFlag → UInt8
  | minus => chr '-'
  | plus => chr '+'
  | space => chr ' '
  | hash => chr '#'
  | zero => chr '0'

/-- The field width.  A number does not start with `0`, which is a flag: its first digit is that of
`first + 1`. -/
inductive FormatWidth
  | absent
  | number (first : Fin 9) (rest : List (Fin 10))
  | star

/-- The precision. -/
inductive FormatPrecision
  | absent
  | number (digits : List (Fin 10))
  | star

/-- The length of the argument. -/
inductive FormatLength
  | int | short | long

/-- The letter of an integer conversion. -/
inductive FormatLetter
  | d | i | u | o | x | X
  deriving DecidableEq

/-- An integer conversion. -/
structure Directive where
  flags : List FormatFlag
  width : FormatWidth
  precision : FormatPrecision
  length : FormatLength
  conv : FormatLetter

/-- The character of a decimal digit. -/
def decimalChar (d : Fin 10) : UInt8 := chr '0' + .ofNat d

/-- The number with the digits `n` and `digits`. -/
def decimal (n : ℕ) (digits : List (Fin 10)) : ℕ := digits.foldl (fun n d => n * 10 + d) n

/-- The characters of a width. -/
def FormatWidth.chars : FormatWidth → List UInt8
  | absent => []
  | number first rest => (first.succ :: rest).map decimalChar
  | star => [chr '*']

/-- The characters of a precision. -/
def FormatPrecision.chars : FormatPrecision → List UInt8
  | absent => []
  | number digits => chr '.' :: digits.map decimalChar
  | star => [chr '.', chr '*']

/-- The character of a length. -/
def FormatLength.chars : FormatLength → List UInt8
  | int => []
  | short => [chr 'h']
  | long => [chr 'l']

/-- The letter. -/
def FormatLetter.char : FormatLetter → UInt8
  | d => chr 'd'
  | i => chr 'i'
  | u => chr 'u'
  | o => chr 'o'
  | x => chr 'x'
  | X => chr 'X'

namespace Directive

/-- The characters of a directive. -/
def format (d : Directive) : List UInt8 :=
  chr '%' :: (d.flags.map FormatFlag.char ++ (d.width.chars ++ (d.precision.chars ++
    (d.length.chars ++ [d.conv.char]))))

/-! ### The arguments -/

/-- The width and the arguments behind it: a star takes an `int`. -/
def widthArg (d : Directive) (args : List UInt32) : ℤ × List UInt32 :=
  match d.width with
  | .absent => (0, args)
  | .number first rest => (decimal 0 (first.succ :: rest), args)
  | .star => ((args.headD 0).toInt32.toInt, args.tail)

/-- The precision, if there is one, and the arguments behind it. -/
def precisionArg (d : Directive) (args : List UInt32) : Option ℤ × List UInt32 :=
  match d.precision with
  | .absent => (none, args)
  | .number digits => (some (decimal 0 digits), args)
  | .star => (some (args.headD 0).toInt32.toInt, args.tail)

/-- The arguments from the number on. -/
def numberArgs (d : Directive) (args : List UInt32) : List UInt32 :=
  (d.precisionArg (d.widthArg args).2).2

/-- The letter is that of a conversion with a sign. -/
def signed (d : Directive) : Bool := d.conv = .d ∨ d.conv = .i

/-- The base. -/
def base (d : Directive) : ℕ :=
  match d.conv with
  | .d | .i | .u => 10
  | .o => 8
  | .x | .X => 16

/-- The digits are those of a capital letter. -/
def large (d : Directive) : Bool := d.conv = .X

/-- The argument, as an integer of the given length. -/
def value (d : Directive) (args : List UInt32) : ℤ :=
  let arg := (d.numberArgs args).headD 0
  match d.signed, d.length with
  | true, .short => arg.toUInt16.toInt16.toInt
  | true, _ => arg.toInt32.toInt
  | false, .short => arg.toUInt16.toNat
  | false, _ => arg.toNat

/-! ### The field of `printf` -/

/-- The field is adjusted to the left: there is the flag `-`, or the width is negative. -/
def leftAdjusted (d : Directive) (args : List UInt32) : Bool :=
  .minus ∈ d.flags ∨ (d.widthArg args).1 < 0

/-- The width is that of its absolute value. -/
def fieldWidth (d : Directive) (args : List UInt32) : ℕ := (d.widthArg args).1.natAbs

/-- A negative precision counts for none. -/
def digitsWanted (d : Directive) (args : List UInt32) : Option ℕ :=
  match (d.precisionArg (d.widthArg args).2).1 with
  | none => none
  | some p => if p < 0 then none else some p.toNat

/-- The sign in front of the number. -/
def sign (d : Directive) (args : List UInt32) : List UInt8 :=
  if d.value args < 0 then [chr '-']
  else if d.signed then
    if .plus ∈ d.flags then [chr '+'] else if .space ∈ d.flags then [chr ' '] else []
  else []

/-- The character of a digit. -/
def digitChar (large : Bool) (n : ℕ) : UInt8 :=
  if n < 10 then .ofNat ('0'.toNat + n)
  else .ofNat ((if large then 'A' else 'a').toNat + (n - 10))

/-- The digits of the number without zeros in front of them. -/
def significant (d : Directive) (args : List UInt32) : List UInt8 :=
  ((Nat.digits d.base (d.value args).natAbs).map (digitChar d.large)).reverse

/-- The digits: as many as the precision, which is one if it is not given, and with `#` and the
base 8 so many that the first one is a zero. -/
def digits (d : Directive) (args : List UInt32) : List UInt8 :=
  let digits := d.significant args
  let digits :=
    List.replicate ((d.digitsWanted args).getD 1 - digits.length) (chr '0') ++ digits
  if d.base = 8 ∧ .hash ∈ d.flags ∧ digits.head? ≠ some (chr '0') then chr '0' :: digits else digits

/-- `0x` in front of a number that is not zero, with `#` and the base 16. -/
def hexPrefix (d : Directive) (args : List UInt32) : List UInt8 :=
  if d.base = 16 ∧ .hash ∈ d.flags ∧ d.value args ≠ 0 then
    [chr '0', if d.large then chr 'X' else chr 'x']
  else []

/-- The number as it is written without a width. -/
def content (d : Directive) (args : List UInt32) : List UInt8 :=
  d.sign args ++ d.hexPrefix args ++ d.digits args

/-- The field: the number is filled with spaces behind it, with zeros in front of its digits, or
with spaces in front of it. -/
def field (d : Directive) (args : List UInt32) : List UInt8 :=
  let fill := d.fieldWidth args - (d.content args).length
  if d.leftAdjusted args then d.content args ++ List.replicate fill (chr ' ')
  else if .zero ∈ d.flags ∧ d.digitsWanted args = none then
    d.sign args ++ d.hexPrefix args ++ List.replicate fill (chr '0') ++ d.digits args
  else List.replicate fill (chr ' ') ++ d.content args

/-- `printf` writes the field, if an `int` can count its characters. -/
def printf (d : Directive) (args : List UInt32) : Option (List UInt8) :=
  if (d.field args).length < 2 ^ 31 then some (d.field args) else none

/-! ### What `rt_vsnprintf` reads -/

/-- The variable `field_width`. -/
def widthVar (d : Directive) (args : List UInt32) : Int32 :=
  match d.width with
  | .absent => -1
  | .number first rest => .ofNat (decimal 0 (first.succ :: rest))
  | .star =>
    if (args.headD 0).toInt32 < 0 then -(args.headD 0).toInt32 else (args.headD 0).toInt32

/-- The variable `precision`. -/
def precisionVar (d : Directive) (args : List UInt32) : Int32 :=
  match d.precision with
  | .absent => -1
  | .number digits => if Int32.ofNat (decimal 0 digits) < 0 then 0 else .ofNat (decimal 0 digits)
  | .star =>
    if ((d.widthArg args).2.headD 0).toInt32 < 0 then 0
    else ((d.widthArg args).2.headD 0).toInt32

/-- What `rt_vsnprintf` reads of a directive. -/
def spec (d : Directive) (args : List UInt32) : PrintfSpec where
  flags :=
    { zeropad := .zero ∈ d.flags
      sign := false
      plus := .plus ∈ d.flags
      space := .space ∈ d.flags
      left := d.leftAdjusted args
      special := .hash ∈ d.flags
      large := false }
  fieldWidth := d.widthVar args
  precision := d.precisionVar args
  qualifier :=
    match d.length with
    | .int => none
    | .short => some (chr 'h')
    | .long => some (chr 'l')

end Directive

/-- A character that is read as a flag. -/
def isFlag (c : UInt8) : Bool :=
  c = chr '-' ∨ c = chr '+' ∨ c = chr ' ' ∨ c = chr '#' ∨ c = chr '0'

theorem getFlags_map (flags : List FormatFlag) (rest : List UInt8)
    (hrest : ∀ c ∈ rest.head?, isFlag c = false) (init : PrintfFlags) :
    getFlags init (flags.map FormatFlag.char ++ rest) =
      ({ init with
          zeropad := init.zeropad || .zero ∈ flags
          plus := init.plus || .plus ∈ flags
          space := init.space || .space ∈ flags
          left := init.left || .minus ∈ flags
          special := init.special || .hash ∈ flags }, rest) := by
  induction flags generalizing init with
  | nil =>
    cases rest with
    | nil => simp [getFlags]
    | cons c rest =>
      have hc := hrest c rfl
      simp only [isFlag, decide_eq_false_iff_not, not_or] at hc
      simp [getFlags, hc]
  | cons f flags ih =>
    rw [map_cons, cons_append]
    cases f <;>
      · rw [getFlags]
        simp [FormatFlag.char, chr, ih]

theorem skipAtoi_map (digits : List (Fin 10)) (rest : List UInt8)
    (hrest : ∀ c ∈ rest.head?, isdigit c = false) (n : ℕ) :
    skipAtoi (.ofNat n) (digits.map decimalChar ++ rest) = (.ofNat (decimal n digits), rest) := by
  induction digits generalizing n with
  | nil =>
    cases rest with
    | nil => rfl
    | cons c rest => simp [skipAtoi, hrest c rfl, decimal]
  | cons d digits ih =>
    have hdigit : isdigit (decimalChar d) = true := by
      revert d
      decide
    have hvalue : (decimalChar d).toUInt32.toInt32 - (chr '0').toUInt32.toInt32 =
        Int32.ofNat d := by
      revert d
      decide
    have hnext : Int32.ofNat n * 10 + (decimalChar d).toUInt32.toInt32 -
        (chr '0').toUInt32.toInt32 = .ofNat (n * 10 + d) := by
      rw [Int32.sub_eq_add_neg, Int32.add_assoc, ← Int32.sub_eq_add_neg, hvalue, Int32.ofNat_add,
        Int32.ofNat_mul]
      rfl
    rw [map_cons, cons_append, skipAtoi, if_pos hdigit, hnext, ih]
    rfl

theorem getWidth_chars (d : Directive) (flags : PrintfFlags) (rest : List UInt8)
    (hrest : ∀ c ∈ rest.head?, isdigit c = false ∧ c ≠ chr '*') (args : List UInt32) :
    getWidth flags (d.width.chars ++ rest) args =
      (d.widthVar args, { flags with left := flags.left || (d.widthArg args).1 < 0 }, rest,
        (d.widthArg args).2) := by
  unfold Directive.widthVar Directive.widthArg
  cases d.width with
  | absent =>
    cases rest with
    | nil => simp [FormatWidth.chars, getWidth]
    | cons c rest =>
      obtain ⟨hdigit, hstar⟩ := hrest c rfl
      simp [FormatWidth.chars, getWidth, hdigit, hstar]
  | number first rest' =>
    have hdigit : isdigit (decimalChar first.succ) = true := by
      revert first
      decide
    have hread := skipAtoi_map (first.succ :: rest') rest (fun c hc => (hrest c hc).1) 0
    have hpos : ¬ ((decimal 0 (first.succ :: rest') : ℕ) : ℤ) < 0 := by omega
    simp only [FormatWidth.chars, map_cons, cons_append] at hread ⊢
    rw [getWidth]
    dsimp only
    rw [if_pos hdigit]
    rw [show (0 : Int32) = Int32.ofNat 0 from rfl, hread]
    simp [hpos]
  | star =>
    have hneg : (args.headD 0).toInt32 < 0 ↔ (args.headD 0).toInt32.toInt < 0 :=
      Int32.lt_iff_toInt_lt
    have hdigit : isdigit (chr '*') = false := by decide
    simp only [FormatWidth.chars, cons_append, nil_append]
    rw [getWidth]
    simp only [hdigit, Bool.false_eq_true, if_false, if_true, vaArg, hneg]
    split
    · next h =>
      rw [decide_eq_true h, Bool.or_true]
    · next h =>
      rw [decide_eq_false h, Bool.or_false]

/-- What may stand behind a precision is neither a digit, nor a star, nor a point. -/
theorem getPrecision_chars (d : Directive) (rest : List UInt8)
    (hrest : ∀ c ∈ rest.head?, isdigit c = false ∧ c ≠ chr '*' ∧ c ≠ chr '.')
    (args : List UInt32) :
    getPrecision (d.precision.chars ++ rest) (d.widthArg args).2 =
      (d.precisionVar args, rest, d.numberArgs args) := by
  unfold Directive.precisionVar Directive.numberArgs Directive.precisionArg
  cases d.precision with
  | absent =>
    cases rest with
    | nil => simp [FormatPrecision.chars, getPrecision]
    | cons c rest =>
      obtain ⟨-, -, hpoint⟩ := hrest c rfl
      simp [FormatPrecision.chars, getPrecision, hpoint]
  | number digits =>
    simp only [FormatPrecision.chars, cons_append]
    rw [getPrecision]
    simp only [if_true]
    cases digits with
    | nil =>
      cases rest with
      | nil => simp [getPoint, decimal]
      | cons c rest =>
        obtain ⟨hdigit, hstar, -⟩ := hrest c rfl
        simp [getPoint, hdigit, hstar, decimal]
    | cons first digits =>
      have hdigit : isdigit (decimalChar first) = true := by
        revert first
        decide
      have hread := skipAtoi_map (first :: digits) rest (fun c hc => (hrest c hc).1) 0
      simp only [map_cons, cons_append] at hread ⊢
      rw [getPoint, if_pos hdigit, show (0 : Int32) = Int32.ofNat 0 from rfl, hread]
  | star =>
    have hdigit : isdigit (chr '*') = false := by decide
    simp only [FormatPrecision.chars, cons_append, nil_append]
    simp only [getPrecision, getPoint, hdigit, Bool.false_eq_true, if_false, if_true, vaArg]

/-- **What `rt_vsnprintf` reads** of a directive are its parts. -/
theorem getSpec_format (d : Directive) (rest : List UInt8) (args : List UInt32) :
    getSpec (d.format.tail ++ rest) args =
      (d.spec args, d.conv.char :: rest, d.numberArgs args) := by
  have hconv : ∀ c : FormatLetter, isdigit c.char = false ∧ c.char ≠ chr '*' ∧ c.char ≠ chr '.' ∧
      isFlag c.char = false ∧ c.char ≠ chr 'h' ∧ c.char ≠ chr 'l' := by
    intro c
    cases c <;> decide
  obtain ⟨hdigit, hstar, hpoint, hflag, hh, hl⟩ := hconv d.conv
  -- what stands behind the precision
  have hlength : ∀ c ∈ (d.length.chars ++ d.conv.char :: rest).head?,
      isdigit c = false ∧ c ≠ chr '*' ∧ c ≠ chr '.' ∧ isFlag c = false := by
    intro c hc
    cases hd : d.length <;> rw [hd] at hc <;> cases hc
    · exact ⟨hdigit, hstar, hpoint, hflag⟩
    all_goals decide
  -- what stands behind the width
  have hprecision : ∀ c ∈ (d.precision.chars ++ (d.length.chars ++ d.conv.char :: rest)).head?,
      isdigit c = false ∧ c ≠ chr '*' ∧ isFlag c = false := by
    intro c hc
    cases hd : d.precision <;> rw [hd] at hc
    · obtain ⟨h₁, h₂, -, h₃⟩ := hlength c hc
      exact ⟨h₁, h₂, h₃⟩
    all_goals
      cases hc
      decide
  have hwidth : ∀ c ∈ (d.width.chars ++ (d.precision.chars ++
      (d.length.chars ++ d.conv.char :: rest))).head?, isFlag c = false := by
    intro c hc
    cases hd : d.width <;> rw [hd] at hc
    · exact (hprecision c hc).2.2
    · next first rest =>
      cases hc
      exact (by decide : ∀ first : Fin 9, isFlag (decimalChar first.succ) = false) first
    · cases hc
      decide
  have hformat : d.format.tail ++ rest = d.flags.map FormatFlag.char ++ (d.width.chars ++
      (d.precision.chars ++ (d.length.chars ++ d.conv.char :: rest))) := by
    simp [Directive.format]
  have hqualifier : getQualifier (d.length.chars ++ d.conv.char :: rest) =
      ((d.spec args).qualifier, d.conv.char :: rest) := by
    unfold Directive.spec
    cases d.length with
    | int => simp [FormatLength.chars, getQualifier, hh, hl]
    | short => rfl
    | long => rfl
  rw [hformat, getSpec, getFlags_map _ _ hwidth]
  dsimp only
  rw [getWidth_chars d _ _ (fun c hc => ⟨(hprecision c hc).1, (hprecision c hc).2.1⟩)]
  dsimp only
  rw [getPrecision_chars d _ (fun c hc => ⟨(hlength c hc).1, (hlength c hc).2.1,
    (hlength c hc).2.2.1⟩)]
  dsimp only
  rw [hqualifier]
  simp [Directive.spec, Directive.leftAdjusted, PrintfFlags.none]

end RtThread
