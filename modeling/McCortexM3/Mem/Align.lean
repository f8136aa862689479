import Mathlib.Data.UInt

/-!
# Alignment

`RT_ALIGN` and `RT_ALIGN_DOWN` of sizes, for `RT_ALIGN_SIZE` 4.

## Main definitions

* `rtAlign`, `rtAlignDown` — the macros.

## Main results

* `toNat_and_not_sub_one` — a mask rounds down to a multiple of a power of two.
* `toNat_rtAlign`, `toNat_rtAlignDown` — a size is rounded to a multiple of four.
-/

set_option linter.all false

namespace RtThread

open Nat

/-- `RT_ALIGN(size, RT_ALIGN_SIZE)`. -/
def rtAlign (size : UInt32) : UInt32 := (size + 4 - 1) &&& ~~~(4 - 1)

/-- `RT_ALIGN_DOWN(size, RT_ALIGN_SIZE)`. -/
def rtAlignDown (size : UInt32) : UInt32 := size &&& ~~~(4 - 1)

variable {n : UInt32}

theorem toNat_sub_one {a : UInt32} {k : ℕ} (ha : a.toNat = 2 ^ k) : (a - 1).toNat = 2 ^ k - 1 := by
  have hle : (1 : UInt32) ≤ a := by
    rw [UInt32.le_iff_toNat_le, ha]
    exact Nat.one_le_two_pow
  rw [UInt32.toNat_sub_of_le _ _ hle, ha]
  rfl

theorem toNat_and_sub_one {a : UInt32} {k : ℕ} (ha : a.toNat = 2 ^ k) (n : UInt32) :
    (n &&& (a - 1)).toNat = n.toNat % a.toNat := by
  rw [UInt32.toNat_and, toNat_sub_one ha, and_two_pow_sub_one_eq_mod, ha]

theorem toNat_and_not_sub_one {a : UInt32} {k : ℕ} (ha : a.toNat = 2 ^ k) (n : UInt32) :
    (n &&& ~~~(a - 1)).toNat = n.toNat / a.toNat * a.toNat := by
  have hn := n.toNat_lt
  have hlt := a.toNat_lt
  have hk : k < 32 := by
    rw [ha] at hlt
    exact (Nat.pow_lt_pow_iff_right (by decide)).1 hlt
  have hpos := Nat.one_le_two_pow (n := k)
  have hmask : (~~~(a - 1) : UInt32).toNat = (2 ^ (32 - k) - 1) <<< k := by
    have hpow : 2 ^ (32 - k) * 2 ^ k = 2 ^ 32 := by
      rw [← pow_add, Nat.sub_add_cancel hk.le]
    have hsize : UInt32.size = 2 ^ 32 := rfl
    rw [UInt32.toNat_not, toNat_sub_one ha, shiftLeft_eq, Nat.sub_mul, hpow, hsize]
    omega
  have hround : n.toNat / a.toNat * a.toNat = (n.toNat >>> k) <<< k := by
    rw [ha, shiftRight_eq_div_pow, shiftLeft_eq]
  rw [UInt32.toNat_and, hmask, hround]
  apply eq_of_testBit_eq
  intro i
  rw [testBit_and, testBit_shiftLeft, testBit_shiftLeft, testBit_two_pow_sub_one,
    testBit_shiftRight]
  by_cases hi : k ≤ i
  · have hadd : k + (i - k) = i := by omega
    by_cases hlt : i < 32
    · simp [hi, hadd, show i - k < 32 - k by omega]
    · have hfalse : n.toNat.testBit i = false :=
        Nat.testBit_lt_two_pow (hn.trans_le (Nat.pow_le_pow_right (by decide) (not_lt.1 hlt)))
      simp [hadd, hfalse]
  · simp [hi]

theorem toNat_rtAlignDown (n : UInt32) : (rtAlignDown n).toNat = n.toNat / 4 * 4 :=
  toNat_and_not_sub_one (k := 2) rfl n

theorem toNat_add_three (n : UInt32) : (n + 4 - 1).toNat = (n.toNat + 3) % 2 ^ 32 := by
  have h4 : (4 : UInt32).toNat = 4 := rfl
  have h1 : (1 : UInt32).toNat = 1 := rfl
  rw [UInt32.toNat_sub, UInt32.toNat_add, h4, h1]
  omega

/-- `RT_ALIGN` rounds up, unless it wraps around. -/
theorem toNat_rtAlign (hn : n.toNat + 3 < 2 ^ 32) : (rtAlign n).toNat = (n.toNat + 3) / 4 * 4 := by
  have hdown : rtAlign n = rtAlignDown (n + 4 - 1) := rfl
  rw [hdown, toNat_rtAlignDown, toNat_add_three, mod_eq_of_lt hn]

theorem le_toNat_rtAlign (hn : n.toNat + 3 < 2 ^ 32) : n.toNat ≤ (rtAlign n).toNat := by
  rw [toNat_rtAlign hn]
  omega

theorem rtAlign_mod (n : UInt32) : (rtAlign n).toNat % 4 = 0 := by
  have hdown : rtAlign n = rtAlignDown (n + 4 - 1) := rfl
  rw [hdown, toNat_rtAlignDown]
  omega

end RtThread
