import Mathlib.Data.Nat.Notation

/-!
# Bytes of ZMODEM packets

Bytes with a meaning of their own are sent behind a `ZDLE`.  The receiver undoes this, and tells
the ends of frames from the data.

## Main definitions

* `zsendZdleChar` — what is sent for a byte.
* `zreadByte` — what is received next.

## Main results

* `zreadByte_zsendZdleChar`, `zreadByte_frameEnd` — a byte or a frame end that is sent is received.
* `zreadByte_length` — whatever is received takes some of the bytes that have been sent.
-/

set_option linter.all false

namespace RtThread

open List Nat

namespace Zmodem

/-- `ZDLE`, which is `CAN`. -/
def zdle : UInt8 := 0x18

/-- `ZCRCW`. -/
def zcrcw : UInt8 := 0x6b

/-- `ZCRCE`, `ZCRCG`, `ZCRCQ` and `ZCRCW`. -/
def frameEnds : List UInt8 := [0x68, 0x69, 0x6a, zcrcw]

/-- `XON` and `XOFF`, with either parity. -/
def flowControl : List UInt8 := [0x11, 0x13, 0x91, 0x93]

/-! ### One byte -/

/-- `zsend_zdle_char`. -/
def zsendZdleChar (ch : UInt16) : List UInt8 :=
  let res := ch.toUInt8
  if res = zdle ∨ res ∈ flowControl then [zdle, res ^^^ 0x40] else [res]

/-- What `zread_byte` returns: a byte, a frame end with `GOTOR`, `GOTCAN`, or `-RT_ERROR`. -/
inductive ZRead
  | byte (b : UInt8)
  | got (frameend : UInt8)
  | gotCan
  | error

/-- `zread_byte` from the label `again2` on, when it reads over `n` more `CAN`s; `none` when it
waits for the next byte. -/
def zreadEscaped : ℕ → List UInt8 → Option (ZRead × List UInt8)
  | _, [] => none
  | n, res :: l =>
    if res = zdle ∧ n ≠ 0 then zreadEscaped (n - 1) l
    else if res = zdle then some (.gotCan, l)
    else if res ∈ frameEnds then some (.got res, l)
    else if res = 0x6c then some (.byte 0x7f, l)
    else if res = 0x6d then some (.byte 0xff, l)
    else if res ∈ flowControl then zreadEscaped 3 l
    else if res &&& 0x60 = 0x40 then some (.byte (res ^^^ 0x40), l)
    else some (.error, l)

/-- `zread_byte`, with the bytes that are left. -/
def zreadByte : List UInt8 → Option (ZRead × List UInt8)
  | [] => none
  | res :: l =>
    if res &&& 0x60 ≠ 0 then some (.byte res, l)
    else if res = zdle then zreadEscaped 3 l
    else if res ∈ flowControl then zreadByte l
    else some (.byte res, l)

variable {l l' : List UInt8} {b e : UInt8} {r : ZRead} {n : ℕ}

theorem zreadEscaped_length (h : zreadEscaped n l = some (r, l')) : l'.length < l.length := by
  induction l generalizing n with
  | nil => cases h
  | cons res l ih =>
    rw [length_cons]
    simp only [zreadEscaped] at h
    split at h
    · exact lt_succ_of_lt (ih h)
    repeat'
      split at h
      · first
        | (cases h; exact lt_succ_self _)
        | exact lt_succ_of_lt (ih h)
    cases h
    exact lt_succ_self _

theorem zreadByte_length (h : zreadByte l = some (r, l')) : l'.length < l.length := by
  induction l with
  | nil => cases h
  | cons res l ih =>
    rw [length_cons]
    rw [zreadByte] at h
    split at h
    · cases h
      exact lt_succ_self _
    · split at h
      · exact lt_succ_of_lt (zreadEscaped_length h)
      · split at h
        · exact lt_succ_of_lt (ih h)
        · cases h
          exact lt_succ_self _

/-- **A byte that is sent** is received. -/
theorem zreadByte_zsendZdleChar (ch : UInt16) (l : List UInt8) :
    zreadByte (zsendZdleChar ch ++ l) = some (.byte ch.toUInt8, l) := by
  obtain ⟨b, hb⟩ : ∃ b, b = ch.toUInt8 := ⟨_, rfl⟩
  rw [zsendZdleChar, ← hb]
  by_cases hspecial : b = zdle ∨ b ∈ flowControl
  · rw [if_pos hspecial]
    have hall : b ∈ zdle :: flowControl := mem_cons.2 hspecial
    simp only [zdle, flowControl, mem_cons, not_mem_nil, or_false] at hall
    rcases hall with rfl | rfl | rfl | rfl | rfl <;> rfl
  · rw [if_neg hspecial]
    obtain ⟨hzdle, hflow⟩ := not_or.1 hspecial
    show zreadByte (b :: l) = _
    rw [zreadByte, if_neg hzdle, if_neg hflow, ite_self]

theorem zreadByte_frameEnd (he : e ∈ frameEnds) (l : List UInt8) :
    zreadByte (zdle :: e :: l) = some (.got e, l) := by
  simp only [frameEnds, zcrcw, mem_cons, not_mem_nil, or_false] at he
  rcases he with rfl | rfl | rfl | rfl <;> rfl

end Zmodem

end RtThread
