import McCortexM3.Timer.Clock

/-!
# Ticks and absolute times

`clock_time_to_tick` of `clock_time.c`, with the time that `clock_gettime` reads.  The seconds are
scaled within 32 bits and the nanoseconds as an unsigned number, which wraps around when there are
five seconds' worth of them or a negative number.

## Main definitions

* `clockGettime`, `clockTimeToTick` — the functions.
* `ToTickRight` — the ticks of two times are exact and in order.
* `Scales` — the condition on a time.

## Main results

* `toInt_clockTimeToTick` — the tick, with the number that wraps around.
* `toTickRight_iff` — it is right under the condition, and only then.
-/

set_option linter.all false

namespace RtThread

namespace Clock

/-- A `struct timespec`. -/
structure Timespec where
  tvSec : Int32
  tvNsec : Int32

/-- A `struct timeval`, with the microseconds that `clock_time_system_init` and `clock_settime`
give to `_timevalue`. -/
structure Timevalue where
  tvSec : Int32
  tvUsec : Int32
  usec_nonneg : 0 ≤ tvUsec.toInt
  usec_le : tvUsec.toInt ≤ 1000000

/-- `MICROSECOND_PER_TICK`. -/
def microsecondPerTick (tickPerSecond : Int32) : UInt32 := 1000000 / tickPerSecond.toUInt32

/-- `clock_gettime` for `CLOCK_REALTIME`. -/
def clockGettime (tickPerSecond : Int32) (timevalue : Timevalue) (tick : UInt32) : Timespec :=
  let tick := tick.toInt32
  { tvSec := timevalue.tvSec + tick / tickPerSecond
    tvNsec := ((timevalue.tvUsec.toUInt32 +
      (tick % tickPerSecond).toUInt32 * microsecondPerTick tickPerSecond) * 1000).toInt32 }

/-- `clock_time_to_tick`, with the time that `clock_gettime` has read. -/
def clockTimeToTick (tickPerSecond : Int32) (tp : Timespec) : Option Timespec → Int32
  | none => -1
  | some time =>
    let (nsecond, second) : Int32 × Int32 :=
      if time.tvNsec - tp.tvNsec < 0 then
        ((1000000000 - (tp.tvNsec - time.tvNsec).toUInt32).toInt32, time.tvSec - tp.tvSec - 1)
      else (time.tvNsec - tp.tvNsec, time.tvSec - tp.tvSec)
    let tick := ((second * tickPerSecond).toUInt32 +
      (nsecond * tickPerSecond).toUInt32 / 1000000000).toInt32
    if tick < 0 then 0 else tick

/-- The nanoseconds from `tp` to a time, and the seconds, after the borrow. -/
def nsecondsTo (tp time : Timespec) : ℤ :=
  if time.tvNsec.toInt < tp.tvNsec.toInt then 1000000000 - (tp.tvNsec.toInt - time.tvNsec.toInt)
  else time.tvNsec.toInt - tp.tvNsec.toInt
@[inherit_doc nsecondsTo] def secondsTo (tp time : Timespec) : ℤ :=
  if time.tvNsec.toInt < tp.tvNsec.toInt then time.tvSec.toInt - tp.tvSec.toInt - 1
  else time.tvSec.toInt - tp.tvSec.toInt

/-- The distance from `tp` to a time in nanoseconds. -/
def distance (tp time : Timespec) : ℤ :=
  (time.tvSec.toInt - tp.tvSec.toInt) * 1000000000 + (time.tvNsec.toInt - tp.tvNsec.toInt)

/-- The whole ticks up to a time. -/
def exactTicks (tickPerSecond : ℕ) (tp time : Timespec) : ℤ :=
  distance tp time * tickPerSecond / 1000000000

/-- An absolute time whose distance fits in the types of a tick. -/
structure IsAbsolute (tickPerSecond : ℕ) (tp time : Timespec) : Prop where
  nsec_nonneg : 0 ≤ time.tvNsec.toInt
  nsec_lt : time.tvNsec.toInt < 1000000000
  ge : -2 ^ 31 ≤ exactTicks tickPerSecond tp time
  lt : exactTicks tickPerSecond tp time < 2 ^ 32

/-- The ticks of a time and of a later one are those of the distances, in order, and never
`RT_WAITING_FOREVER`. -/
structure ToTickRight (tickPerSecond : ℕ) (tp time later : Timespec) : Prop where
  exact : (clockTimeToTick (.ofNat tickPerSecond) tp (some time)).toInt =
    max 0 (exactTicks tickPerSecond tp time)
  exact_later : (clockTimeToTick (.ofNat tickPerSecond) tp (some later)).toInt =
    max 0 (exactTicks tickPerSecond tp later)
  mono : clockTimeToTick (.ofNat tickPerSecond) tp (some time) ≤
    clockTimeToTick (.ofNat tickPerSecond) tp (some later)
  finite : clockTimeToTick (.ofNat tickPerSecond) tp (some time) ≠ -1 ∧
    clockTimeToTick (.ofNat tickPerSecond) tp (some later) ≠ -1

/-- The ticks of the nanoseconds, which are scaled within 32 bits. -/
def nsecondTicks (tickPerSecond : ℕ) (tp time : Timespec) : ℤ :=
  nsecondsTo tp time * tickPerSecond % 2 ^ 32 / 1000000000

/-- The nanoseconds can be scaled and the ticks fit in an `int`, or the time has come and the
seconds since are as many as the wrong ticks at least. -/
def Scales (tickPerSecond : ℕ) (tp time : Timespec) : Prop :=
  (0 ≤ nsecondsTo tp time * tickPerSecond ∧ nsecondsTo tp time * tickPerSecond < 2 ^ 32) ∧
      exactTicks tickPerSecond tp time < 2 ^ 31 ∨
    exactTicks tickPerSecond tp time ≤ 0 ∧
      nsecondTicks tickPerSecond tp time ≤ -(secondsTo tp time * tickPerSecond) ∧
      -(secondsTo tp time * tickPerSecond) ≤ 2 ^ 31 + nsecondTicks tickPerSecond tp time

instance (tickPerSecond : ℕ) (tp time : Timespec) : Decidable (Scales tickPerSecond tp time) := by
  unfold Scales
  infer_instance

variable {r : ℕ} {tp time : Timespec}

theorem toInt_toInt32 (x : UInt32) : x.toInt32.toInt = (x.toNat : ℤ).bmod (2 ^ 32) :=
  BitVec.toInt_eq_toNat_bmod x.toBitVec

theorem toNat_toUInt32 (x : Int32) : (x.toUInt32.toNat : ℤ) = x.toInt % 2 ^ 32 := by
  have h := BitVec.toInt_eq_toNat_cond x.toBitVec
  have hlt := x.toUInt32.toNat_lt
  have hnat : x.toBitVec.toNat = x.toUInt32.toNat := rfl
  have hint : x.toBitVec.toInt = x.toInt := rfl
  rw [hnat, hint] at h
  split at h <;> omega

theorem tvNsec_clockGettime (hr : 0 < r) (hle : r ≤ 1000) (timevalue : Timevalue) (tick : UInt32) :
    -1000000000 < (clockGettime (.ofNat r) timevalue tick).tvNsec.toInt ∧
      (clockGettime (.ofNat r) timevalue tick).tvNsec.toInt < 2000000000 := by
  have hrInt := toInt_ofNat_of_lt (n := r) (by omega)
  have hnonneg := timevalue.usec_nonneg
  have hmillion := timevalue.usec_le
  have hper : (microsecondPerTick (.ofNat r)).toNat = 1000000 / r := by
    have hcast := toNat_toUInt32 (.ofNat r)
    rw [hrInt] at hcast
    rw [microsecondPerTick, UInt32.toNat_div, show (Int32.ofNat r).toUInt32.toNat = r by omega]
    rfl
  have hmod : (tick.toInt32 % .ofNat r).toInt = tick.toInt32.toInt.tmod r := by
    rw [Int32.toInt_mod, hrInt]
  -- the ticks of the second are less than a second
  obtain ⟨hlo, hhi⟩ : -(r : ℤ) < tick.toInt32.toInt.tmod r ∧ tick.toInt32.toInt.tmod r < r :=
    ⟨Int.lt_tmod_of_pos _ (by omega), Int.tmod_lt_of_pos _ (by omega)⟩
  have hprod : (r : ℤ) * (1000000 / r : ℕ) ≤ 1000000 := by
    exact_mod_cast Nat.mul_div_le 1000000 r
  have hsum : (clockGettime (.ofNat r) timevalue tick).tvNsec.toInt =
      ((timevalue.tvUsec.toInt + tick.toInt32.toInt.tmod r * (1000000 / r : ℕ)) * 1000).bmod
        (2 ^ 32) := by
    change ((timevalue.tvUsec + tick.toInt32 % .ofNat r *
      (microsecondPerTick (.ofNat r)).toInt32) * 1000).toInt = _
    rw [Int32.toInt_mul, Int32.toInt_add, Int32.toInt_mul, toInt_toInt32, hmod, hper]
    simp only [Int.mul_bmod_bmod, Int.add_bmod_bmod, Int.bmod_mul_bmod]
    rfl
  have hd : 0 < (1000000 / r : ℕ) := Nat.div_pos (by omega) hr
  have hle := Int.mul_lt_mul_of_pos_right hlo (Int.natCast_pos.mpr hd)
  have hge := Int.mul_lt_mul_of_pos_right hhi (Int.natCast_pos.mpr hd)
  rw [Int.neg_mul] at hle
  rw [hsum]
  generalize tick.toInt32.toInt.tmod r * (1000000 / r : ℕ) = x at hle hge ⊢
  rw [Int.bmod_eq_of_le (by omega) (by omega)]
  constructor <;> omega

theorem toInt_clockTimeToTick (hr : r ≤ 1000) (hlo : -1000000000 < tp.tvNsec.toInt)
    (hhi : tp.tvNsec.toInt < 2000000000) (hnonneg : 0 ≤ time.tvNsec.toInt)
    (hlt : time.tvNsec.toInt < 1000000000) :
    (clockTimeToTick (.ofNat r) tp (some time)).toInt =
      max 0 ((secondsTo tp time * r + nsecondTicks r tp time).bmod (2 ^ 32)) := by
  have hrInt := toInt_ofNat_of_lt (n := r) (by omega)
  have hticks : ∀ {second nsecond : Int32}, second.toInt = (secondsTo tp time).bmod (2 ^ 32) →
      nsecond.toInt = nsecondsTo tp time →
      ((second * .ofNat r).toUInt32 + (nsecond * .ofNat r).toUInt32 / 1000000000).toInt32.toInt =
        (secondsTo tp time * r + nsecondTicks r tp time).bmod (2 ^ 32) := by
    intro second nsecond hs hn
    have hbillion : (1000000000 : UInt32).toNat = 1000000000 := rfl
    rw [toInt_toInt32, UInt32.toNat_add, UInt32.toNat_div, hbillion]
    push_cast
    rw [toNat_toUInt32, toNat_toUInt32, Int32.toInt_mul, Int32.toInt_mul, hs, hn, hrInt,
      Int.bmod_mul_bmod, nsecondTicks]
    have hwrap : ∀ x : ℤ, x.bmod (2 ^ 32) % 2 ^ 32 = x % 2 ^ 32 := fun _ => Int.bmod_emod
    rw [hwrap, hwrap, ← Int.emod_bmod, ← Int.emod_bmod (_ + _)]
    congr 1
    omega
  have hneg : ∀ x : Int32, (if x < 0 then 0 else x).toInt = max 0 x.toInt := by
    intro x
    have hiff : x < 0 ↔ x.toInt < 0 := Int32.lt_iff_toInt_lt
    split
    · next h => exact (Int.max_eq_left (Int.le_of_lt (hiff.mp h))).symm
    · next h => exact (Int.max_eq_right (Int.not_lt.mp (mt hiff.mpr h))).symm
  have hsub : ∀ x y : Int32, (x - y).toInt = (x.toInt - y.toInt).bmod (2 ^ 32) := Int32.toInt_sub
  have hless : time.tvNsec - tp.tvNsec < 0 ↔ time.tvNsec.toInt < tp.tvNsec.toInt := by
    rw [Int32.lt_iff_toInt_lt, hsub, Int.bmod_eq_of_le (by omega) (by omega),
      show (0 : Int32).toInt = 0 from rfl]
    omega
  unfold clockTimeToTick
  simp only [hless]
  split
  · next h =>
    rw [hneg, hticks]
    · rw [hsub, hsub, secondsTo, if_pos h]
      exact Int.bmod_sub_bmod
    · change ((1000000000 : Int32) - (tp.tvNsec - time.tvNsec)).toInt = _
      have hbillion : (1000000000 : Int32).toInt = 1000000000 := rfl
      rw [hsub, hsub, Int.sub_bmod_bmod, nsecondsTo, if_pos h, hbillion]
      exact Int.bmod_eq_of_le (by omega) (by omega)
  · next h =>
    rw [hneg, hticks]
    · rw [hsub, secondsTo, if_neg h]
    · rw [hsub, nsecondsTo, if_neg h, Int.bmod_eq_of_le (by omega) (by omega)]

theorem max_bmod_eq_iff {a x : ℤ} (hx : -1000000000000 < x) (hx' : x < 2000000000000)
    (hge : -2 ^ 31 ≤ a + x / 1000000000) (hlt : a + x / 1000000000 < 2 ^ 32) :
    max 0 ((a + x % 2 ^ 32 / 1000000000).bmod (2 ^ 32)) = max 0 (a + x / 1000000000) ↔
      (0 ≤ x ∧ x < 2 ^ 32) ∧ a + x / 1000000000 < 2 ^ 31 ∨
        a + x / 1000000000 ≤ 0 ∧ x % 2 ^ 32 / 1000000000 ≤ -a ∧
          -a ≤ 2 ^ 31 + x % 2 ^ 32 / 1000000000 := by
  have hlo : -2 ^ 31 ≤ (a + x % 2 ^ 32 / 1000000000).bmod (2 ^ 32) := Int.le_bmod (by decide)
  have hhi : (a + x % 2 ^ 32 / 1000000000).bmod (2 ^ 32) < 2 ^ 31 := Int.bmod_lt (by decide)
  have hsub := Int.bmod_eq_self_sub_mul_bdiv (a + x % 2 ^ 32 / 1000000000) (2 ^ 32)
  generalize (a + x % 2 ^ 32 / 1000000000).bmod (2 ^ 32) = w at hlo hhi hsub ⊢
  generalize (a + x % 2 ^ 32 / 1000000000).bdiv (2 ^ 32) = k at hsub
  -- the ticks are those of the number itself when it is within the 32 bits, and only then
  have hticks : x % 2 ^ 32 / 1000000000 = x / 1000000000 ↔ 0 ≤ x ∧ x < 2 ^ 32 := by
    constructor
    · intro h
      omega
    · rintro ⟨h, h'⟩
      rw [Int.emod_eq_of_lt h h']
  have hq : 0 ≤ x % 2 ^ 32 / 1000000000 ∧ x % 2 ^ 32 / 1000000000 ≤ 4 := by omega
  generalize x % 2 ^ 32 / 1000000000 = q at hticks hq hsub ⊢
  have hp : -1000 ≤ x / 1000000000 ∧ x / 1000000000 < 2000 := by omega
  generalize x / 1000000000 = p at hticks hp hge hlt ⊢
  rw [← hticks]
  omega

theorem exactTicks_eq :
    exactTicks r tp time = secondsTo tp time * r + nsecondsTo tp time * r / 1000000000 := by
  have hdist : distance tp time = nsecondsTo tp time + secondsTo tp time * 1000000000 := by
    unfold distance nsecondsTo secondsTo
    split <;> omega
  have hmul : secondsTo tp time * 1000000000 * r = secondsTo tp time * r * 1000000000 :=
    Int.mul_right_comm ..
  rw [exactTicks, hdist, Int.add_mul, hmul, Int.add_mul_ediv_right _ _ (by decide), Int.add_comm]

theorem toInt_eq_iff (hr : r ≤ 1000) (hlo : -1000000000 < tp.tvNsec.toInt)
    (hhi : tp.tvNsec.toInt < 2000000000) (h : IsAbsolute r tp time) :
    (clockTimeToTick (.ofNat r) tp (some time)).toInt = max 0 (exactTicks r tp time) ↔
      Scales r tp time := by
  obtain ⟨hnonneg, hlt, hge, hfits⟩ := h
  have hn : -1000000000 < nsecondsTo tp time ∧ nsecondsTo tp time < 2000000000 := by
    unfold nsecondsTo
    split <;> omega
  have hle := Int.mul_le_mul_of_nonneg_right (Int.add_one_le_of_lt hn.1) (Int.natCast_nonneg r)
  have hge' := Int.mul_le_mul_of_nonneg_right (Int.le_sub_one_of_lt hn.2) (Int.natCast_nonneg r)
  rw [exactTicks_eq] at hge hfits
  rw [toInt_clockTimeToTick hr hlo hhi hnonneg hlt, Scales, nsecondTicks, exactTicks_eq]
  exact max_bmod_eq_iff (by omega) (by omega) hge hfits

/-- The ticks are the exact ones when the nanoseconds of both times can be scaled, or a time that
cannot be scaled has come long enough before, and only then. -/
theorem toTickRight_iff (hpos : 0 < r) (hr : r ≤ 1000) (timevalue : Timevalue) (tick : UInt32)
    {time later : Timespec} (htime : IsAbsolute r (clockGettime (.ofNat r) timevalue tick) time)
    (hlater : IsAbsolute r (clockGettime (.ofNat r) timevalue tick) later)
    (hle : distance (clockGettime (.ofNat r) timevalue tick) time ≤
      distance (clockGettime (.ofNat r) timevalue tick) later) :
    ToTickRight r (clockGettime (.ofNat r) timevalue tick) time later ↔
      Scales r (clockGettime (.ofNat r) timevalue tick) time ∧
        Scales r (clockGettime (.ofNat r) timevalue tick) later := by
  obtain ⟨hlo, hhi⟩ := tvNsec_clockGettime hpos hr timevalue tick
  rw [← toInt_eq_iff hr hlo hhi htime, ← toInt_eq_iff hr hlo hhi hlater]
  refine ⟨fun h => ⟨h.exact, h.exact_later⟩, fun ⟨h, h'⟩ => ⟨h, h', ?_, ?_, ?_⟩⟩
  · have hticks : exactTicks r (clockGettime (.ofNat r) timevalue tick) time ≤
        exactTicks r (clockGettime (.ofNat r) timevalue tick) later :=
      Int.ediv_le_ediv (by decide) (Int.mul_le_mul_of_nonneg_right hle (Int.natCast_nonneg r))
    rw [Int32.le_iff_toInt_le, h, h']
    omega
  · intro heq
    rw [heq, show (-1 : Int32).toInt = -1 from rfl] at h
    omega
  · intro heq
    rw [heq, show (-1 : Int32).toInt = -1 from rfl] at h'
    omega

/-- Ten seconds after the start of a clock of 100 ticks, times of three seconds and of 40 ms later. -/
theorem toTickRight_iff_near :
    ToTickRight 100 (clockGettime 100 ⟨0, 0, by decide, by decide⟩ 1000) ⟨13, 0⟩ ⟨13, 40000000⟩ :=
  (toTickRight_iff (by decide) (by decide) ⟨0, 0, by decide, by decide⟩ 1000
    ⟨by decide +kernel, by decide +kernel, by decide +kernel, by decide +kernel⟩
    ⟨by decide +kernel, by decide +kernel, by decide +kernel, by decide +kernel⟩
    (by decide +kernel)).mpr (by decide +kernel)

/-- A time that is 500 ms away gives two ticks of 100 a second. -/
theorem not_toTickRight :
    ¬ ToTickRight 100 (clockGettime 100 ⟨0, 0, by decide, by decide⟩ 1000) ⟨10, 500000000⟩
      ⟨10, 500000000⟩ :=
  fun h => absurd h.exact (by decide +kernel)

end Clock

end RtThread
