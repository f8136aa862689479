import McCortexM3.Timer.Timer
import Mathlib.Algebra.Order.Floor.Div

/-!
# Ticks and milliseconds

`rt_tick_from_millisecond` of `clock.c` and the delay of `rt_thread_mdelay`.  The product and the sum
have the type `int`, in which they wrap around.

## Main definitions

* `rtTickFromMillisecond`, `rtThreadMdelay` — the functions.
* `DelayRight` — the tick is the ceiling, no smaller than for a shorter delay, and a timer takes it.

## Main results

* `delayRight_iff` — so it is as long as the product and the sum do not wrap around.
-/

set_option linter.all false

namespace RtThread

open Nat

namespace Clock

/-- `rt_tick_from_millisecond`, with `RT_TICK_PER_SECOND` as the first argument. -/
def rtTickFromMillisecond (tickPerSecond ms : Int32) : Int32 :=
  if ms < 0 then -1 else (tickPerSecond * ms + 999) / 1000

/-- `rt_thread_mdelay`: the `init_tick` that `rt_thread_sleep` gives to the timer of the thread. -/
def rtThreadMdelay (tickPerSecond ms : Int32) : UInt32 :=
  (rtTickFromMillisecond tickPerSecond ms).toUInt32

/-- The tick for `ms` is the ceiling of the exact one and no smaller than those for fewer
milliseconds, and `rt_timer_start` takes the delay. -/
structure DelayRight (tickPerSecond ms : ℕ) : Prop where
  exact : (rtTickFromMillisecond (.ofNat tickPerSecond) (.ofNat ms)).toInt =
    (tickPerSecond * ms ⌈/⌉ 1000 : ℕ)
  mono : ∀ ms' ≤ ms, (rtTickFromMillisecond (.ofNat tickPerSecond) (.ofNat ms')).toInt ≤
    (rtTickFromMillisecond (.ofNat tickPerSecond) (.ofNat ms)).toInt
  starts : rtThreadMdelay (.ofNat tickPerSecond) (.ofNat ms) < halfTickMax

theorem toInt_ofNat_of_lt {n : ℕ} (h : n < 2 ^ 31) : (Int32.ofNat n).toInt = n := by
  have hsize : Int32.size = 2 ^ 32 := rfl
  rw [Int32.toInt_ofNat', hsize]
  exact Int.bmod_eq_of_le (by omega) (by omega)

theorem toInt_rtTickFromMillisecond {tickPerSecond ms : ℕ} (htick : tickPerSecond ≤ 1000)
    (hms : ms ≤ 0x7fffffff) :
    (rtTickFromMillisecond (.ofNat tickPerSecond) (.ofNat ms)).toInt =
      (((tickPerSecond * ms + 999 : ℕ) : ℤ).bmod (2 ^ 32)).tdiv 1000 := by
  have hms' := toInt_ofNat_of_lt (n := ms) (by omega)
  have hnonneg : ¬ Int32.ofNat ms < 0 := by
    rw [Int32.lt_iff_toInt_lt, hms']
    exact Int.not_lt.2 (Int.natCast_nonneg ms)
  unfold rtTickFromMillisecond
  rw [if_neg hnonneg, Int32.toInt_div_of_ne_right _ _ (by decide), Int32.toInt_add,
    Int32.toInt_mul, hms', toInt_ofNat_of_lt (by omega)]
  have h1000 : (1000 : Int32).toInt = 1000 := rfl
  have h999 : (999 : Int32).toInt = 999 := rfl
  rw [h1000, h999, Int.bmod_add_bmod]
  push_cast
  rfl

theorem toInt_of_fits {tickPerSecond ms : ℕ} (htick : tickPerSecond ≤ 1000)
    (hms : ms ≤ 0x7fffffff) (hfits : tickPerSecond * ms + 999 < 2 ^ 31) :
    (rtTickFromMillisecond (.ofNat tickPerSecond) (.ofNat ms)).toInt =
      (tickPerSecond * ms ⌈/⌉ 1000 : ℕ) := by
  rw [toInt_rtTickFromMillisecond htick hms, Int.bmod_eq_of_le (by omega) (by omega),
    Int.tdiv_eq_ediv_of_nonneg (Int.natCast_nonneg _), ceilDiv_eq_add_pred_div]
  rfl

theorem toInt_lt_of_wraps {tickPerSecond ms : ℕ} (htick : tickPerSecond ≤ 1000)
    (hms : ms ≤ 0x7fffffff) (hwraps : 2 ^ 31 ≤ tickPerSecond * ms + 999) :
    (rtTickFromMillisecond (.ofNat tickPerSecond) (.ofNat ms)).toInt <
      (tickPerSecond * ms ⌈/⌉ 1000 : ℕ) := by
  rw [toInt_rtTickFromMillisecond htick hms, ceilDiv_eq_add_pred_div]
  generalize tickPerSecond * ms = n at hwraps ⊢
  have hlt : ((n + 999 : ℕ) : ℤ).bmod (2 ^ 32) < 2 ^ 31 := Int.bmod_lt (by decide)
  have hsub := Int.bmod_eq_self_sub_mul_bdiv ((n + 999 : ℕ) : ℤ) (2 ^ 32)
  generalize ((n + 999 : ℕ) : ℤ).bmod (2 ^ 32) = v at hlt hsub ⊢
  generalize ((n + 999 : ℕ) : ℤ).bdiv (2 ^ 32) = k at hsub
  have hquot : ((n + 1000 - 1) / 1000 : ℕ) = (n + 999) / 1000 := rfl
  rw [hquot]
  rcases Int.lt_or_le v 0 with hneg | hnonneg
  · have hle : 0 ≤ (-v).tdiv 1000 := Int.tdiv_nonneg (by omega) (by decide)
    rw [Int.neg_tdiv] at hle
    omega
  · rw [Int.tdiv_eq_ediv_of_nonneg hnonneg]
    omega

/-- **The delay is right** when the product and the sum do not wrap around, and only then. -/
theorem delayRight_iff (tickPerSecond ms : ℕ) (htick : tickPerSecond ≤ 1000)
    (hms : ms ≤ 0x7fffffff) :
    DelayRight tickPerSecond ms ↔ tickPerSecond * ms + 999 < 2 ^ 31 := by
  constructor
  · intro h
    by_contra hwraps
    have hlt := toInt_lt_of_wraps htick hms (Nat.le_of_not_lt hwraps)
    rw [h.exact] at hlt
    exact Int.lt_irrefl _ hlt
  · intro hfits
    have hexact := toInt_of_fits htick hms hfits
    refine ⟨hexact, fun ms' hle => ?_, ?_⟩
    · have hmul := Nat.mul_le_mul_left tickPerSecond hle
      rw [hexact, toInt_of_fits htick (by omega) (by omega)]
      rw [ceilDiv_eq_add_pred_div, ceilDiv_eq_add_pred_div]
      omega
    · rw [ceilDiv_eq_add_pred_div] at hexact
      have hnonneg : 0 ≤ rtTickFromMillisecond (.ofNat tickPerSecond) (.ofNat ms) := by
        rw [Int32.le_iff_toInt_le, hexact]
        exact Int.natCast_nonneg _
      have hnat : (rtThreadMdelay (.ofNat tickPerSecond) (.ofNat ms)).toNat =
          (tickPerSecond * ms + 999) / 1000 := by
        rw [rtThreadMdelay, Int32.toNat_toUInt32_of_le hnonneg, Int32.toNatClampNeg, hexact]
        rfl
      rw [UInt32.lt_iff_toNat_lt, hnat]
      have hhalf : halfTickMax.toNat = 0x7fffffff := rfl
      omega

/-- A second, at 1000 ticks a second. -/
theorem delayRight_second : DelayRight 1000 1000 :=
  (delayRight_iff 1000 1000 (by decide) (by decide)).2 (by decide)

/-- After some 36 minutes, the tick is negative. -/
theorem not_delayRight :
    ¬ ∀ tickPerSecond ≤ 1000, ∀ ms ≤ 0x7fffffff, DelayRight tickPerSecond ms := by
  intro hall
  have hexact := (hall 1000 (by decide) 2147483 (by decide)).exact
  revert hexact
  decide

end Clock

end RtThread
