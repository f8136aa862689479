import Mathlib.Data.Nat.Notation

/-!
# Checksums by table

A cyclic redundancy check that takes one byte at a time looks up one end of its register in a
table, and shifts the other end.  Whatever the table is, a message that is followed by the register
itself, or by its complement, leaves a register that does not depend on the message.

## Main definitions

* `TableCrc.left`, `TableCrc.right` — one byte into a register of 16 bits that is shifted to the
  left, and into one of 32 bits that is shifted to the right.
* `TableCrc.lowBytes` — the bytes of a word, the lowest one first.

## Main results

* `TableCrc.left_register` — the register, and then nothing is left.
* `TableCrc.right_complement` — the complement of the register, and then `residue` is left.
-/

set_option linter.all false

namespace TableCrc

open List Nat

/-! ### A register that is shifted to the left -/

section Left

variable {tab : UInt8 → UInt16}

/-- One byte into a register that is shifted to the left. -/
def left (tab : UInt8 → UInt16) (b : UInt8) (c : UInt16) : UInt16 :=
  tab (c >>> 8).toUInt8 ^^^ (c <<< 8) ^^^ b.toUInt16

theorem left_eq (b : UInt8) (c : UInt16) : left tab b c = left tab 0 c ^^^ b.toUInt16 := by
  rw [left, left]
  simp

theorem left_xor (c : UInt16) (b : UInt8) :
    left tab 0 (c ^^^ b.toUInt16) = left tab 0 c ^^^ (b.toUInt16 <<< 8) := by
  have hshift : b.toUInt16 >>> 8 = 0 := by
    rw [← UInt16.toNat_inj, UInt16.toNat_shiftRight]
    have hlt : b.toNat < 256 := b.toNat_lt
    simp [shiftRight_eq_div_pow, hlt]
  rw [left, left, UInt16.shiftRight_xor, hshift, UInt16.shiftLeft_xor]
  simp [UInt16.xor_assoc]

theorem halves (c : UInt16) : ((c >>> 8).toUInt8.toUInt16 <<< 8) ^^^ c.toUInt8.toUInt16 = c := by
  have hc : c.toNat < 2 ^ 16 := c.toNat_lt
  rw [← UInt16.toNat_inj]
  show ((c.toNat >>> 8 % 2 ^ 8) <<< 8 % 2 ^ 16) ^^^ (c.toNat % 2 ^ 8) = c.toNat
  apply eq_of_testBit_eq
  intro i
  rw [testBit_xor, testBit_mod_two_pow, testBit_mod_two_pow, testBit_shiftLeft,
    testBit_mod_two_pow, testBit_shiftRight]
  -- a bit is in the low byte, in the high byte, or behind both
  by_cases hlow : i < 8
  · simp [hlow, Nat.not_le.2 hlow]
  · by_cases hhigh : i < 16
    · have hback : 8 + (i - 8) = i := by omega
      simp [hlow, hhigh, hback, Nat.not_lt.1 hlow, show i - 8 < 8 by omega]
    · have hout := testBit_lt_two_pow
        (Nat.lt_of_lt_of_le hc (Nat.pow_le_pow_right (by decide) (Nat.not_lt.1 hhigh)))
      simp [hlow, hhigh, hout]

/-- **The register**, high byte first, leaves nothing. -/
theorem left_register (c : UInt16) :
    left tab (left tab 0 (left tab 0 c)).toUInt8
      (left tab (left tab 0 (left tab 0 c) >>> 8).toUInt8 c) = 0 := by
  generalize hs : left tab 0 (left tab 0 c) = s
  rw [left_eq, left_eq (b := (s >>> 8).toUInt8), left_xor, hs, UInt16.xor_assoc, halves]
  exact UInt16.xor_self

end Left

/-! ### A register that is shifted to the right -/

section Right

variable {tab : UInt8 → UInt32} {c w : UInt32}

/-- One byte into a register that is shifted to the right. -/
def right (tab : UInt8 → UInt32) (b : UInt8) (c : UInt32) : UInt32 :=
  tab (c.toUInt8 ^^^ b) ^^^ (c >>> 8)

/-- The `n` lowest bytes of a word, the lowest one first. -/
def lowBytes : ℕ → UInt32 → List UInt8
  | 0, _ => []
  | n + 1, w => w.toUInt8 :: lowBytes n (w >>> 8)

/-- The word without its `n` lowest bytes. -/
def dropBytes : ℕ → UInt32 → UInt32
  | 0, w => w
  | n + 1, w => dropBytes n (w >>> 8)

theorem dropBytes_xor (n : ℕ) (c w : UInt32) :
    dropBytes n (c ^^^ w) = dropBytes n c ^^^ dropBytes n w := by
  induction n generalizing c w with
  | zero => rfl
  | succ n ih => rw [dropBytes, dropBytes, dropBytes, UInt32.shiftRight_xor, ih]

theorem dropBytes_four (w : UInt32) : dropBytes 4 w = 0 := by
  have hlt := w.toNat_lt
  rw [← UInt32.toNat_inj]
  simp only [dropBytes, UInt32.toNat_shiftRight, shiftRight_eq_div_pow]
  show w.toNat / 256 / 256 / 256 / 256 = 0
  omega

/-- What a word leaves in a register of zeros. -/
def residue (tab : UInt8 → UInt32) (n : ℕ) (w : UInt32) : UInt32 :=
  (lowBytes n w).foldl (fun c b => right tab b c) 0

/-- A word leaves in a register what the sum of both leaves in a register of zeros. -/
theorem foldl_lowBytes (n : ℕ) (w c : UInt32) :
    (lowBytes n w).foldl (fun c b => right tab b c) c =
      residue tab n (w ^^^ c) ^^^ dropBytes n c := by
  induction n generalizing w c with
  | zero => simp [lowBytes, residue, dropBytes]
  | succ n ih =>
    have hstep : right tab w.toUInt8 c = tab (w ^^^ c).toUInt8 ^^^ (c >>> 8) := by
      rw [right, UInt32.toUInt8_xor, UInt8.xor_comm]
    have hfirst : right tab (w ^^^ c).toUInt8 0 = tab (w ^^^ c).toUInt8 := by
      simp [right]
    obtain ⟨t, ht⟩ : ∃ t, t = tab (w ^^^ c).toUInt8 := ⟨_, rfl⟩
    have hsplit : residue tab (n + 1) (w ^^^ c) =
        residue tab n ((w ^^^ c) >>> 8 ^^^ t) ^^^ dropBytes n t := by
      rw [residue, lowBytes, foldl_cons, hfirst, ← ht, ih]
    -- the rest of the register goes along with the rest of the word
    have hrest : w >>> 8 ^^^ (t ^^^ c >>> 8) = (w ^^^ c) >>> 8 ^^^ t := by
      rw [UInt32.shiftRight_xor]
      ac_rfl
    rw [lowBytes, foldl_cons, hstep, ← ht, ih, hrest, hsplit, dropBytes_xor, dropBytes,
      UInt32.xor_assoc]

/-- **The complement of the register**, low byte first, leaves what four bytes of ones leave in a
register of zeros. -/
theorem right_complement (c : UInt32) :
    (lowBytes 4 (~~~c)).foldl (fun c b => right tab b c) c = residue tab 4 (~~~0) := by
  have hones : ~~~c ^^^ c = ~~~0 := by rw [UInt32.not_xor, UInt32.xor_self]
  rw [foldl_lowBytes, dropBytes_four, hones]
  exact UInt32.xor_zero

end Right

end TableCrc
