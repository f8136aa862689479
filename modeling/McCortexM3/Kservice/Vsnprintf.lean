import McCortexM3.CharSink

/-!
# Formatted output

`print_number` and `rt_vsnprintf` of `kservice.c`, with `RT_PRINTF_PRECISION`, as the file defines
it, and without `RT_PRINTF_LONGLONG`; `long` and pointers have 32 bits, and `int` goes round.  The
statement `if (str <= end) *str = c; ++str` is `CharSink.put`, and the test `str <= end` is
`CharSink.fits`, so that the same functions can also write to a list, which has no end.

A format is the list of its characters without the one that ends it.  An argument is a word, and a
string is found by its address, beside the buffer.

## Main definitions

* `printNumber` — the field of a number.
* `getSpec`, `convert` — a conversion is read, and its field is written.
* `formatLoop` — the loop over the format.
* `rtVsnprintf`, `rtSnprintf`, `rtVsprintf` — the functions.
* `unlimitedText` — what the loop writes to a list.
-/

set_option linter.all false

namespace RtThread

open CharSink

/-- The configuration of the build: whether `RT_PRINTF_SPECIAL` is defined. -/
class PrintfConfig where
  printfSpecial : Bool

export PrintfConfig (printfSpecial)

/-- The character as the code has it. -/
def chr (c : Char) : UInt8 := .ofNat c.toNat

/-- The flags `ZEROPAD`, `SIGN`, `PLUS`, `SPACE`, `LEFT`, `SPECIAL` and `LARGE`. -/
structure PrintfFlags where
  zeropad : Bool
  sign : Bool
  plus : Bool
  space : Bool
  left : Bool
  special : Bool
  large : Bool

/-- No flag. -/
def PrintfFlags.none : PrintfFlags := ⟨false, false, false, false, false, false, false⟩

/-! ### Loops -/

section

variable {σ : Type} [CharSink UInt8 σ]

/-- `while (n-- > 0)`, with one character a round. -/
def spin (c : UInt8) (n : Int32) (buf : σ) : σ × Int32 :=
  (puts (List.replicate n.toInt.toNat c) buf, if 0 < n then -1 else n - 1)

/-- `while (--n > 0)`, with one character a round. -/
def spinPre (c : UInt8) (n : Int32) (buf : σ) : σ × Int32 :=
  (puts (List.replicate (n - 1).toInt.toNat c) buf, if 0 < n - 1 then 0 else n - 1)

/-- `while (len < n--)`, with one character a round. -/
def spinAbove (len : Int32) (c : UInt8) (n : Int32) (buf : σ) : σ × Int32 :=
  (puts (List.replicate (n.toInt - len.toInt).toNat c) buf, if len < n then len - 1 else n - 1)

end

/-! ### `print_number` -/

/-- `divide`: the digit and what is left. -/
def divide (n : UInt32) (base : UInt8) : UInt32 × UInt32 :=
  if base = 10 then (n % 10, n / 10) else (n % 16, n / 16)

/-- `small_digits`. -/
def smallDigits : List UInt8 := "0123456789abcdef".toList.map chr

/-- `large_digits`. -/
def largeDigits : List UInt8 := "0123456789ABCDEF".toList.map chr

/-- The loop that fills `tmp`, which has room for as many digits as the fuel. -/
def tmpLoop (large : Bool) (base : UInt8) : ℕ → UInt32 → List UInt8
  | 0, _ => []
  | fuel + 1, num =>
    if num = 0 then []
    else
      (if large then largeDigits else smallDigits).getD (divide num base).1.toNat 0 ::
        tmpLoop large base fuel (divide num base).2

/-- The array `tmp`: the digits from the last one on. -/
def tmpDigits (large : Bool) (base : UInt8) (num : UInt32) : List UInt8 :=
  if num = 0 then [chr '0'] else tmpLoop large base 16 num

/-- The sign of `print_number`, if it prints one. -/
def signChar (type : PrintfFlags) (num : Int32) : Option UInt8 :=
  if type.sign then
    if num < 0 then some (chr '-')
    else if type.plus then some (chr '+')
    else if type.space then some (chr ' ')
    else none
  else none

/-- The special prefix. -/
def specialPrefix [PrintfConfig] (type : PrintfFlags) (base : UInt8) : List UInt8 :=
  if printfSpecial && type.special then
    if base = 8 then [chr '0']
    else if base = 16 then [chr '0', if type.large then chr 'X' else chr 'x']
    else []
  else []

section

variable [PrintfConfig] {σ : Type} [CharSink UInt8 σ]

/-- `print_number` from the special prefix on. -/
def printBody (type : PrintfFlags) (base : UInt8) (tmp : List UInt8)
    (precision precisionBak size : Int32) (buf : σ) : σ :=
  let buf := puts (specialPrefix type base) buf
  let c := if type.zeropad then chr '0' else chr ' '
  let (buf, size) := if type.left then (buf, size) else spin c size buf
  let buf := puts (List.replicate (precision.toInt - tmp.length).toNat (chr '0')) buf
  let buf := if precisionBak ≠ 0 then puts tmp.reverse buf else buf
  (spin (chr ' ') size buf).1

/-- `size` after the digits and the prefix have been counted. -/
def fillSize (type : PrintfFlags) (base : UInt8) (s precision : Int32) : Int32 :=
  s - .ofNat (specialPrefix type base).length - precision

/-- The spaces in front of the sign. -/
def printLead (type : PrintfFlags) (sign : Option UInt8) (size : Int32) (buf : σ) : σ × Int32 :=
  if type.zeropad || type.left then (buf, size)
  else spin (chr ' ') (if sign.isSome ∧ 0 < size then size - 1 else size) buf

/-- `print_number` from the sign on.  `--size` stands within the test whether the sign is stored. -/
def printSign (type : PrintfFlags) (base : UInt8) (tmp : List UInt8)
    (precision precisionBak : Int32) (sign : Option UInt8) (size : Int32) (buf : σ) : σ :=
  match sign with
  | none => printBody type base tmp precision precisionBak size buf
  | some c =>
    printBody type base tmp precision precisionBak (if fits buf then size - 1 else size) (put c buf)

/-- `print_number`. -/
def printNumber (num : Int32) (base : UInt8) (s precision : Int32) (type : PrintfFlags) (buf : σ) :
    σ :=
  let type := { type with zeropad := type.zeropad && !type.left }
  let sign := signChar type num
  let num := if type.sign ∧ num < 0 then -num else num
  let tmp := tmpDigits type.large base num.toUInt32
  let precisionBak := precision
  let precision := if .ofNat tmp.length > precision then .ofNat tmp.length else precision
  let lead := printLead type sign (fillSize type base s precision) buf
  printSign type base tmp precision precisionBak sign lead.2 lead.1

end

/-! ### Reading a conversion -/

/-- `isdigit`. -/
def isdigit (c : UInt8) : Bool := c - chr '0' < 10

/-- `skip_atoi`, when the number read so far is `i`. -/
def skipAtoi : Int32 → List UInt8 → Int32 × List UInt8
  | i, [] => (i, [])
  | i, c :: fmt =>
    if isdigit c then skipAtoi (i * 10 + c.toUInt32.toInt32 - (chr '0').toUInt32.toInt32) fmt
    else (i, c :: fmt)

/-- `va_arg` of a word. -/
def vaArg (args : List UInt32) : UInt32 × List UInt32 := (args.headD 0, args.tail)

/-- What stands between the `%` and the letter of a conversion. -/
structure PrintfSpec where
  flags : PrintfFlags
  fieldWidth : Int32
  precision : Int32
  qualifier : Option UInt8

/-- The flags. -/
def getFlags : PrintfFlags → List UInt8 → PrintfFlags × List UInt8
  | flags, [] => (flags, [])
  | flags, c :: fmt =>
    if c = chr '-' then getFlags { flags with left := true } fmt
    else if c = chr '+' then getFlags { flags with plus := true } fmt
    else if c = chr ' ' then getFlags { flags with space := true } fmt
    else if c = chr '#' then getFlags { flags with special := true } fmt
    else if c = chr '0' then getFlags { flags with zeropad := true } fmt
    else (flags, c :: fmt)

/-- The field width, with the flags after it. -/
def getWidth (flags : PrintfFlags) (fmt : List UInt8) (args : List UInt32) :
    Int32 × PrintfFlags × List UInt8 × List UInt32 :=
  match fmt with
  | [] => (-1, flags, [], args)
  | c :: rest =>
    if isdigit c then ((skipAtoi 0 fmt).1, flags, (skipAtoi 0 fmt).2, args)
    else if c = chr '*' then
      let (arg, args) := vaArg args
      let fieldWidth := arg.toInt32
      if fieldWidth < 0 then (-fieldWidth, { flags with left := true }, rest, args)
      else (fieldWidth, flags, rest, args)
    else (-1, flags, fmt, args)

/-- The number behind the point of a precision. -/
def getPoint (fmt : List UInt8) (args : List UInt32) : Int32 × List UInt8 × List UInt32 :=
  match fmt with
  | [] => (-1, [], args)
  | c :: rest =>
    if isdigit c then ((skipAtoi 0 fmt).1, (skipAtoi 0 fmt).2, args)
    else if c = chr '*' then ((vaArg args).1.toInt32, rest, (vaArg args).2)
    else (-1, fmt, args)

/-- The precision. -/
def getPrecision (fmt : List UInt8) (args : List UInt32) : Int32 × List UInt8 × List UInt32 :=
  match fmt with
  | [] => (-1, [], args)
  | c :: rest =>
    if c = chr '.' then
      let (precision, fmt, args) := getPoint rest args
      (if precision < 0 then 0 else precision, fmt, args)
    else (-1, fmt, args)

/-- The qualifier. -/
def getQualifier (fmt : List UInt8) : Option UInt8 × List UInt8 :=
  match fmt with
  | [] => (none, [])
  | c :: rest => if c = chr 'h' ∨ c = chr 'l' then (some c, rest) else (none, fmt)

/-- All of it. -/
def getSpec (fmt : List UInt8) (args : List UInt32) : PrintfSpec × List UInt8 × List UInt32 :=
  let (flags, fmt) := getFlags .none fmt
  let (fieldWidth, flags, fmt, args) := getWidth flags fmt args
  let (precision, fmt, args) := getPrecision fmt args
  let (qualifier, fmt) := getQualifier fmt
  (⟨flags, fieldWidth, precision, qualifier⟩, fmt, args)

/-! ### `rt_vsnprintf` -/

/-- `"(NULL)"`. -/
def nullString : List UInt8 := "(NULL)".toList.map chr

/-- The base and the flags of an integer conversion. -/
def integerConversion (flags : PrintfFlags) (ch : UInt8) : Option (UInt8 × PrintfFlags) :=
  if ch = chr 'o' then some (8, flags)
  else if ch = chr 'X' then some (16, { flags with large := true })
  else if ch = chr 'x' then some (16, flags)
  else if ch = chr 'd' ∨ ch = chr 'i' then some (10, { flags with sign := true })
  else if ch = chr 'u' then some (10, flags)
  else none

/-- The variable `num` for the next argument. -/
def integerArg (qualifier : Option UInt8) (sign : Bool) (arg : UInt32) : UInt32 :=
  if qualifier = some (chr 'h') then
    if sign then arg.toUInt16.toInt16.toInt32.toUInt32 else arg.toUInt16.toUInt32
  else arg

section

variable [PrintfConfig] {σ : Type} [CharSink UInt8 σ]

/-- The field of a character. -/
def convertChar (spec : PrintfSpec) (arg : UInt32) (str : σ) : σ :=
  let (str, fieldWidth) :=
    if spec.flags.left then (str, spec.fieldWidth) else spinPre (chr ' ') spec.fieldWidth str
  (spinPre (chr ' ') fieldWidth (put arg.toUInt8 str)).1

/-- The field of the string `s`. -/
def convertString (spec : PrintfSpec) (s : List UInt8) (str : σ) : σ :=
  let len := .ofNat s.length
  let len := if 0 < spec.precision ∧ spec.precision < len then spec.precision else len
  let (str, fieldWidth) :=
    if spec.flags.left then (str, spec.fieldWidth) else spinAbove len (chr ' ') spec.fieldWidth str
  (spinAbove len (chr ' ') fieldWidth (puts (s.take len.toInt.toNat) str)).1

/-- The field of a pointer. -/
def convertPointer (spec : PrintfSpec) (arg : UInt32) (str : σ) : σ :=
  if spec.fieldWidth = -1 then
    printNumber arg.toInt32 16 8 spec.precision { spec.flags with zeropad := true } str
  else printNumber arg.toInt32 16 spec.fieldWidth spec.precision spec.flags str

/-- The conversions that are not of integers. -/
def convertOther (strings : UInt32 → List UInt8) (spec : PrintfSpec) (ch : UInt8)
    (args : List UInt32) (str : σ) : σ × List UInt32 :=
  let (arg, rest) := vaArg args
  if ch = chr 'c' then (convertChar spec arg str, rest)
  else if ch = chr 's' then
    (convertString spec (if arg = 0 then nullString else strings arg) str, rest)
  else if ch = chr 'p' then (convertPointer spec arg str, rest)
  else if ch = chr '%' then (put (chr '%') str, args)
  else (put ch (put (chr '%') str), args)

/-- The field of a conversion, and the arguments that are left. -/
def convert (strings : UInt32 → List UInt8) (spec : PrintfSpec) (ch : UInt8) (args : List UInt32)
    (str : σ) : σ × List UInt32 :=
  match integerConversion spec.flags ch with
  | some (base, flags) =>
    let (arg, args) := vaArg args
    (printNumber (integerArg spec.qualifier flags.sign arg).toInt32 base spec.fieldWidth
      spec.precision flags str, args)
  | none => convertOther strings spec ch args str

/-- The loop over the format, for at most as many rounds as the fuel. -/
def formatLoop (strings : UInt32 → List UInt8) : ℕ → List UInt8 → List UInt32 → σ → σ
  | 0, _, _, str => str
  | _ + 1, [], _, str => str
  | fuel + 1, c :: fmt, args, str =>
    if c = chr '%' then
      match getSpec fmt args with
      | (_, [], _) => put (chr '%') str
      | (spec, ch :: fmt, args) =>
        formatLoop strings fuel fmt (convert strings spec ch args str).2
          (convert strings spec ch args str).1
    else formatLoop strings fuel fmt args (put c str)

end

section

variable [PrintfConfig]

/-- `end`. -/
def endOf (buf size : UInt32) : UInt32 :=
  let last := buf + size - 1
  if last < buf then 0xffffffff else last

/-- The end of the string is stored. -/
def terminate (o : LimitedBuffer UInt8) : LimitedBuffer UInt8 :=
  if o.pos ≤ o.last then o.store o.pos 0 else o.store o.last 0

/-- `rt_vsnprintf`: the memory that it leaves, and what it returns. -/
def rtVsnprintf (strings : UInt32 → List UInt8) (mem : ℕ → UInt8) (buf size : UInt32)
    (fmt : List UInt8) (args : List UInt32) : LimitedBuffer UInt8 × Int32 :=
  let o := formatLoop strings fmt.length fmt args
    (⟨mem, buf, endOf buf size, []⟩ : LimitedBuffer UInt8)
  (terminate o, (o.pos - buf).toInt32)

/-- `rt_snprintf`. -/
def rtSnprintf (strings : UInt32 → List UInt8) (mem : ℕ → UInt8) (buf size : UInt32)
    (fmt : List UInt8) (args : List UInt32) : LimitedBuffer UInt8 × Int32 :=
  rtVsnprintf strings mem buf size fmt args

/-- `rt_vsprintf`. -/
def rtVsprintf (strings : UInt32 → List UInt8) (mem : ℕ → UInt8) (buf : UInt32) (fmt : List UInt8)
    (args : List UInt32) : LimitedBuffer UInt8 × Int32 :=
  rtVsnprintf strings mem buf (-1) fmt args

/-- What the loop writes when nothing ends the buffer. -/
def unlimitedText (strings : UInt32 → List UInt8) (fmt : List UInt8) (args : List UInt32) :
    List UInt8 :=
  formatLoop strings fmt.length fmt args ([] : List UInt8)

end

end RtThread
