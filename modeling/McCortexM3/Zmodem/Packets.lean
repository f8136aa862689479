import McCortexM3.Zmodem.Crc
import McCortexM3.Zmodem.Escape
import Mathlib.Algebra.Group.Int.Defs
import Mathlib.Algebra.Group.Nat.Defs

/-!
# ZMODEM data packets

How `zcore.c` sends the data of a packet and how it receives them: with a checksum of 16 bits, with
one of 32 bits, and with one of 32 bits and runs of equal bytes sent together.

## Main definitions

* `zsendBinData` — what is sent for a buffer.
* `zgetData` — what becomes of the bytes that are received.
* `dataCount` — how many of them are data.
-/

set_option linter.all false

namespace RtThread

namespace Zmodem

/-- `TxCRC` and `RxCRC`: 0, 1 and 2. -/
inductive CrcMode
  | crc16
  | crc32
  | crc32Rle
  deriving DecidableEq

/-- `ZRESC`. -/
def zresc : UInt8 := 0x7e

/-- `XON`. -/
def xon : UInt8 := 0x11

/-! ### The sender -/

/-- A buffer with its length, an `rt_int16_t`. -/
structure ZBuffer where
  bytes : List UInt8
  length_lt : bytes.length < 2 ^ 15

/-- What has been sent, and the checksum. -/
structure ZSend where
  out : List UInt8
  crc : UInt32

namespace ZSend

/-- A byte is sent, and goes into the checksum. -/
def char (upd : UInt8 → UInt32 → UInt32) (s : ZSend) (c : UInt8) : ZSend :=
  ⟨s.out ++ zsendZdleChar c.toUInt16, upd c s.crc⟩

/-- The frame end is sent, and goes into the checksum. -/
def frameEnd (upd : UInt8 → UInt32 → UInt32) (s : ZSend) (e : UInt8) : ZSend :=
  ⟨s.out ++ [zdle, e], upd e s.crc⟩

end ZSend

/-- `updcrc16` with a byte. -/
def upd16 (b : UInt8) (crc : UInt32) : UInt32 := updcrc16 b.toUInt32 crc

/-- `zsend_bin_data` when `TxCRC` is 0. -/
def zsendBinData16 (buf : List UInt8) (frameend : UInt8) : List UInt8 :=
  let s := (buf.foldl (ZSend.char upd16) ⟨[], 0⟩).frameEnd upd16 frameend
  let crc := updcrc16 0 (updcrc16 0 s.crc)
  s.out ++ zsendZdleChar (crc >>> 8).toUInt16 ++ zsendZdleChar crc.toUInt16

/-- The loop that sends a checksum of 32 bits. -/
def zsendCrc : ℕ → UInt32 → List UInt8
  | 0, _ => []
  | n + 1, crc => zsendZdleChar crc.toUInt16 ++ zsendCrc n (crc >>> 8)

/-- `zsend_bin_data` when `TxCRC` is 1. -/
def zsendBinData32 (buf : List UInt8) (frameend : UInt8) : List UInt8 :=
  let s := (buf.foldl (ZSend.char updcrc32) ⟨[], 0xffffffff⟩).frameEnd updcrc32 frameend
  s.out ++ zsendCrc 4 (~~~s.crc)

/-- The loop that sends runs of equal bytes: `i` more bytes like `tmp` have been read, and the rest
is to be read.  It reads one byte behind the buffer. -/
def rleLoop : List UInt8 → ℕ → UInt8 → ZSend → ZSend
  | [], _, _, s => s
  | c :: buf, i, tmp, s =>
    if c = tmp ∧ i < 126 ∧ buf ≠ [] then rleLoop buf (i + 1) tmp s
    else if i = 0 then
      let s := s.char updcrc32 tmp
      rleLoop buf i c (if tmp = zresc then s.char updcrc32 0x40 else s)
    else if i = 1 then
      if tmp ≠ zresc then rleLoop buf 0 c ((s.char updcrc32 tmp).char updcrc32 tmp)
      else rleLoop buf i tmp s
    else
      let s := s.char updcrc32 zresc
      if tmp = 0x20 ∧ i < 34 then rleLoop buf 0 c (s.char updcrc32 (UInt8.ofNat (i + 0x1e)))
      else rleLoop buf 0 c ((s.char updcrc32 (UInt8.ofNat (i + 0x41))).char updcrc32 tmp)

/-- `zsend_bin_data` when `TxCRC` is 2; `past` is the byte behind the buffer. -/
def zsendBinData32r (buf : List UInt8) (past frameend : UInt8) : List UInt8 :=
  match buf ++ [past] with
  | [] => []
  | tmp :: rest =>
    let s := (rleLoop rest 0 tmp ⟨[], 0xffffffff⟩).frameEnd updcrc32 frameend
    s.out ++ zsendCrc 4 (~~~s.crc)

/-- `zsend_bin_data`: the bytes that are sent. -/
def zsendBinData (txCrc : CrcMode) (buf : ZBuffer) (past frameend : UInt8) : List UInt8 :=
  (match txCrc with
    | .crc16 => zsendBinData16 buf.bytes frameend
    | .crc32 => zsendBinData32 buf.bytes frameend
    | .crc32Rle => zsendBinData32r buf.bytes past frameend) ++
    if frameend = zcrcw then [xon] else []

/-! ### The receiver -/

/-- What `zget_data` returns: a frame end with `GOTOR`, `ZCAN`, or `-RT_ERROR`. -/
inductive ZResult
  | got (frameend : UInt8)
  | zcan
  | error
  deriving DecidableEq

/-- The variables of `zrec_data16`, `zrec_data32` and `zrec_data32r`.  The frame end is in `flag`
when it is set, else `c` is what `zrec_data32r` makes of it; `buf` are the bytes that have been
written into the buffer. -/
structure ZRec (γ : Type) where
  crc : γ
  crcCnt : ℕ
  flag : Option UInt8
  c : Int16
  buf : List UInt8
  rxcount : UInt16

/-- What `zget_data` leaves: the bytes that it has written, `Rxcount`, and what it returns with the
bytes that it has not read, unless it waits for more. -/
structure ZData where
  buf : List UInt8
  rxcount : UInt16
  res : Option (ZResult × List UInt8)

/-- What there is in variables that are not initialised: `below` tells what `buf <= p + len` gives
in `zrec_data32` after so many bytes, since `p` has no value; `c` is the first value of `c`. -/
structure ZUninit where
  below : ℕ → Bool
  c : Int16

/-- `*buf++ = res; Rxcount++`. -/
def ZRec.put {γ : Type} (b : UInt8) (s : ZRec γ) : ZRec γ :=
  { s with buf := s.buf ++ [b], rxcount := s.rxcount + 1 }

/-- What the three receivers do: `below` tells whether `buf <= p + len`, and `store` what becomes of
a byte of data. -/
structure ZReceiver (γ : Type) where
  upd : UInt8 → γ → γ
  crcLen : ℕ
  bad : γ → Bool
  below : ℕ → Bool
  store : UInt8 → ZRec γ → Option (ZRec γ)

/-- The loop of the three receivers. -/
def zrecLoop {γ : Type} (z : ZReceiver γ) (l : List UInt8) (s : ZRec γ) :
    ZRec γ × Option (ZResult × List UInt8) :=
  if z.below s.buf.length then
    match _h : zreadByte l with
    | none => (s, none)
    | some (.got e, l') => zrecLoop z l' { s with crc := z.upd e s.crc, flag := some e }
    | some (.gotCan, l') => (s, some (.zcan, l'))
    | some (.error, l') => (s, some (.error, l'))
    | some (.byte b, l') =>
      let s := { s with crc := z.upd b s.crc }
      match s.flag with
      | some e =>
        let s := { s with crcCnt := s.crcCnt + 1 }
        if s.crcCnt < z.crcLen then zrecLoop z l' s
        else if z.bad s.crc then (s, some (.error, l'))
        else (s, some (.got e, l'))
      | none =>
        match z.store b s with
        | some s => zrecLoop z l' s
        | none => (s, some (.error, l'))
  else (s, some (.error, l))
termination_by l.length
decreasing_by all_goals exact zreadByte_length _h

/-- Not `buf > p + len`, with `len` as an `rt_int16_t`. -/
def belowInt16 (len : UInt16) (n : ℕ) : Bool := (n : ℤ) ≤ len.toInt16.toInt

/-- A run of `zrec_data32r`: `while (--res >= 0)`, and `goto end` when `c` more bytes are too
many. -/
def spaces {γ : Type} (len : UInt16) (c : Int16) (res : UInt8) (s : ZRec γ) : Option (ZRec γ) :=
  if (s.buf.length : ℤ) + c.toInt > len.toInt16.toInt then none
  else
    some { ((List.range res.toNat).reverse.foldl (fun s k => s.put (UInt8.ofNat k)) s) with c := 0 }

/-- The `switch` of `zrec_data32r`. -/
def storeRle {γ : Type} (len : UInt16) (res : UInt8) (s : ZRec γ) : Option (ZRec γ) :=
  if s.c = 0 then if res = zresc then some { s with c := -1 } else some (s.put res)
  else if s.c = -1 then
    if res ≥ 0x20 ∧ res < 0x40 then spaces len (res.toUInt16.toInt16 - 0x1d) 0x20 s
    else if res = 0x40 then some ({ s with c := 0 }.put zresc)
    else some { s with c := res.toUInt16.toInt16 }
  else if s.c - 0x40 < 1 then none
  else spaces len (s.c - 0x40) res s

/-- The receiver of `zrec_data16`, whose checksum has 16 bits. -/
def receiver16 (len : UInt16) : ZReceiver UInt16 where
  upd b crc := (upd16 b crc.toUInt32).toUInt16
  crcLen := 2
  bad crc := crc &&& 0xffff ≠ 0
  below n := n ≤ len.toNat
  store b s := some (s.put b)

/-- The receiver of `zrec_data32`. -/
def receiver32 (uninit : ZUninit) : ZReceiver UInt32 where
  upd := updcrc32
  crcLen := 4
  bad crc := crc &&& 0xdebb20e3 ≠ 0
  below := uninit.below
  store b s := some (s.put b)

/-- The receiver of `zrec_data32r`. -/
def receiver32r (len : UInt16) : ZReceiver UInt32 where
  upd := updcrc32
  crcLen := 4
  bad crc := crc &&& 0xdebb20e3 ≠ 0
  below := belowInt16 len
  store := storeRle len

/-- What a receiver leaves when the checksum begins with `crc`. -/
def zrecData {γ : Type} (z : ZReceiver γ) (crc : γ) (uninit : ZUninit) (l : List UInt8) : ZData :=
  let r := zrecLoop z l ⟨crc, 0, none, uninit.c, [], 0⟩
  ⟨r.1.buf, r.1.rxcount, r.2⟩

/-- `zrec_data16`. -/
def zrecData16 (uninit : ZUninit) (len : UInt16) (l : List UInt8) : ZData :=
  zrecData (receiver16 len) 0 uninit l

/-- `zrec_data32`. -/
def zrecData32 (uninit : ZUninit) (l : List UInt8) : ZData :=
  zrecData (receiver32 uninit) 0xffffffff uninit l

/-- `zrec_data32r`. -/
def zrecData32r (uninit : ZUninit) (len : UInt16) (l : List UInt8) : ZData :=
  zrecData (receiver32r len) 0xffffffff uninit l

/-- `zget_data`. -/
def zgetData (rxCrc : CrcMode) (uninit : ZUninit) (len : UInt16) (l : List UInt8) : ZData :=
  match rxCrc with
  | .crc16 => zrecData16 uninit len l
  | .crc32 => zrecData32 uninit l
  | .crc32Rle => zrecData32r uninit len l

/-- How many bytes of data are received before something else is. -/
def dataCount (l : List UInt8) : ℕ :=
  match _h : zreadByte l with
  | some (.byte _, l') => dataCount l' + 1
  | _ => 0
termination_by l.length
decreasing_by exact zreadByte_length _h

end Zmodem

end RtThread
