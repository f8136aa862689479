import McCortexM3.Kernel.Ffs

/-!
# The ready bitmap

The scheduler keeps a set of priorities in bits.  Up to 32 priorities are the bits of
`rt_thread_ready_priority_group`; more of them are the bits of the bytes of
`rt_thread_ready_table`, and the group says which bytes are not zero.  A thread carries
the masks of its priority, so that the scheduler never computes them.

## Main definitions

* `ReadyBitmap`, `PrioMask`, `prioMask` — the bits, the masks, the masks of a priority.
* `insertMask`, `removeMask`, `highestPriority` — what the scheduler does with them.
* `Represents` — the bits are those of a given set of priorities.

## Main results

* `Represents.insertMask`, `Represents.removeMask` — the set gains or loses one priority.
* `Represents.highestPriority` — the priority found is the least of the set.
-/

set_option linter.all false

namespace RtThread

open Function Nat

/-- `rt_thread_ready_priority_group` and `rt_thread_ready_table`. -/
structure ReadyBitmap where
  group : BitVec 32
  table : ℕ → BitVec 8

/-- The fields `number`, `number_mask` and `high_mask` of a thread. -/
structure PrioMask where
  number : ℕ
  numberMask : BitVec 32
  highMask : BitVec 8
  deriving DecidableEq

/-- The masks of the priority `p`, as `rt_thread_startup` and `rt_thread_control` compute
them.  With at most 32 priorities only `number_mask` exists. -/
def prioMask (prioMax p : ℕ) : PrioMask :=
  if 32 < prioMax then ⟨p >>> 3, 1#32 <<< (p >>> 3), 1#8 <<< (p &&& 0x07)⟩
  else ⟨0, 1#32 <<< p, 0⟩

namespace ReadyBitmap

/-- The bitmap that `rt_system_scheduler_init` leaves. -/
def empty : ReadyBitmap := ⟨0, fun _ => 0⟩

/-- The bits that `rt_schedule_insert_thread` sets. -/
def insertMask (prioMax : ℕ) (m : PrioMask) (b : ReadyBitmap) : ReadyBitmap where
  table := if 32 < prioMax then
      Function.update b.table m.number (b.table m.number ||| m.highMask)
    else b.table
  group := b.group ||| m.numberMask

/-- The bits that `rt_schedule_remove_thread` clears when it empties a queue. -/
def removeMask (prioMax : ℕ) (m : PrioMask) (b : ReadyBitmap) : ReadyBitmap :=
  if 32 < prioMax then
    let table := Function.update b.table m.number (b.table m.number &&& ~~~m.highMask)
    { table := table
      group := if table m.number = 0 then b.group &&& ~~~m.numberMask else b.group }
  else { b with group := b.group &&& ~~~m.numberMask }

/-- The priority that `_get_highest_priority_thread` finds. -/
def highestPriority (prioMax : ℕ) (b : ReadyBitmap) : ℕ :=
  if 32 < prioMax then
    let number := rtFfs b.group - 1
    (number <<< 3) + rtFfs ((b.table number).setWidth 32) - 1
  else rtFfs b.group - 1

/-- The bits are those of the priorities that satisfy `P`. -/
def Represents (prioMax : ℕ) (b : ReadyBitmap) (P : ℕ → Prop) : Prop :=
  if 32 < prioMax then
    (∀ p < 256, (b.table (p / 8)).getLsbD (p % 8) = true ↔ P p) ∧
      ∀ n < 32, b.group.getLsbD n = true ↔ b.table n ≠ 0
  else ∀ p < 32, b.group.getLsbD p = true ↔ P p

/-! ### Bits of the masks -/

theorem getLsbD_one_shiftLeft {w : ℕ} {k : ℕ} (hk : k < w) (j : ℕ) :
    (1#w <<< k).getLsbD j = decide (j = k) := by
  rw [← BitVec.twoPow_eq, BitVec.getLsbD_twoPow, Bool.eq_iff_iff]
  simp only [Bool.and_eq_true, decide_eq_true_eq]
  omega

theorem prioMask_of_le {prioMax : ℕ} (h : ¬ 32 < prioMax) (p : ℕ) :
    prioMask prioMax p = ⟨0, 1#32 <<< p, 0⟩ := if_neg h

theorem prioMask_of_gt {prioMax : ℕ} (h : 32 < prioMax) (p : ℕ) :
    prioMask prioMax p = ⟨p / 8, 1#32 <<< (p / 8), 1#8 <<< (p % 8)⟩ := by
  rw [prioMask, if_pos h, shiftRight_eq_div_pow]
  have hand : p &&& 0x07 = p % 8 := and_two_pow_sub_one_eq_mod p 3
  rw [hand]

section

variable {prioMax : ℕ} {b : ReadyBitmap} {P : ℕ → Prop}

theorem represents_empty (prioMax : ℕ) : Represents prioMax empty fun _ => False := by
  unfold Represents empty
  split <;> simp

theorem Represents.congr {Q : ℕ → Prop} (h : Represents prioMax b P) (hQ : ∀ p, P p ↔ Q p) :
    Represents prioMax b Q := by
  have hPQ : P = Q := funext fun p => propext (hQ p)
  rwa [← hPQ]

theorem table_ne_zero_iff (h : ∀ p < 256, (b.table (p / 8)).getLsbD (p % 8) = true ↔ P p)
    {n : ℕ} (hn : n < 32) : b.table n ≠ 0 ↔ ∃ i < 8, P (8 * n + i) := by
  have hbit : ∀ i < 8, ((b.table n).getLsbD i = true ↔ P (8 * n + i)) := by
    intro i hi
    have hp := h (8 * n + i) (by omega)
    rwa [mul_add_div (by omega), div_eq_of_lt hi, Nat.add_zero, mul_add_mod, mod_eq_of_lt hi] at hp
  constructor
  · intro hne
    by_contra hnone
    push Not at hnone
    refine hne (BitVec.eq_of_getLsbD_eq ?_)
    intro i hi
    simpa using (not_congr (hbit i hi)).2 (hnone i hi)
  · rintro ⟨i, hi, hP⟩ hz
    have := (hbit i hi).2 hP
    simp [hz] at this

section

variable (h : Represents prioMax b P) (hmax : prioMax ≤ 256)
include h hmax

theorem Represents.insertMask {p : ℕ} (hp : p < prioMax) :
    Represents prioMax (b.insertMask prioMax (prioMask prioMax p)) fun q => P q ∨ q = p := by
  by_cases h32 : 32 < prioMax
  · simp only [Represents, if_pos h32] at h ⊢
    obtain ⟨htable, hgroup⟩ := h
    simp only [ReadyBitmap.insertMask, if_pos h32, prioMask_of_gt h32]
    constructor
    · intro q hq
      by_cases hqp : q / 8 = p / 8
      · rw [← htable q hq, hqp, update_self, BitVec.getLsbD_or, Bool.or_eq_true]
        apply or_congr Iff.rfl
        rw [getLsbD_one_shiftLeft (by omega), decide_eq_true_eq]
        omega
      · rw [update_of_ne hqp, htable q hq]
        exact (or_iff_left (by rintro rfl; exact hqp rfl)).symm
    · intro n hn
      rw [BitVec.getLsbD_or, Bool.or_eq_true, hgroup n hn, getLsbD_one_shiftLeft (by omega),
        decide_eq_true_eq]
      by_cases hnp : n = p / 8
      · apply iff_of_true (Or.inr hnp)
        intro hz
        have hbit := congrArg (fun w => w.getLsbD (p % 8)) hz
        simp [hnp, BitVec.getLsbD_or, getLsbD_one_shiftLeft (show p % 8 < 8 by omega)] at hbit
      · rw [update_of_ne hnp]
        exact or_iff_left hnp
  · simp only [Represents, if_neg h32] at h ⊢
    intro q hq
    simp only [ReadyBitmap.insertMask, prioMask_of_le h32]
    rw [BitVec.getLsbD_or, Bool.or_eq_true, h q hq, getLsbD_one_shiftLeft (by omega),
      decide_eq_true_eq]

theorem Represents.removeMask {p : ℕ} (hp : p < prioMax) :
    Represents prioMax (b.removeMask prioMax (prioMask prioMax p)) fun q => P q ∧ q ≠ p := by
  by_cases h32 : 32 < prioMax
  · simp only [Represents, if_pos h32] at h ⊢
    obtain ⟨htable, hgroup⟩ := h
    simp only [ReadyBitmap.removeMask, if_pos h32, prioMask_of_gt h32]
    constructor
    · intro q hq
      by_cases hqp : q / 8 = p / 8
      · rw [← htable q hq, hqp, update_self, BitVec.getLsbD_and, Bool.and_eq_true]
        apply and_congr Iff.rfl
        rw [BitVec.getLsbD_not, getLsbD_one_shiftLeft (by omega)]
        simp only [Bool.and_eq_true, decide_eq_true_eq, Bool.not_eq_true', decide_eq_false_iff_not]
        omega
      · rw [update_of_ne hqp, htable q hq]
        exact (and_iff_left (by rintro rfl; exact hqp rfl)).symm
    · -- the bit of the group goes with the last bit of its byte
      intro n hn
      have hclear : ∀ w : BitVec 32, (w &&& ~~~(1#32 <<< (p / 8))).getLsbD n = true ↔
          w.getLsbD n = true ∧ n ≠ p / 8 := by
        intro w
        rw [BitVec.getLsbD_and, BitVec.getLsbD_not, getLsbD_one_shiftLeft (by omega)]
        simp [hn]
      by_cases hnp : n = p / 8
      · subst hnp
        rw [update_self]
        split
        · next hz =>
          rw [hclear]
          exact iff_of_false (fun hb => hb.2 rfl) (not_not.2 hz)
        · next hz =>
          rw [hgroup _ hn]
          refine iff_of_true (fun h0 => hz ?_) hz
          rw [h0]
          exact BitVec.zero_and
      · rw [update_of_ne hnp, ← hgroup n hn]
        split
        · rw [hclear]
          exact and_iff_left hnp
        · exact Iff.rfl
  · simp only [Represents, if_neg h32] at h ⊢
    intro q hq
    simp only [ReadyBitmap.removeMask, if_neg h32, prioMask_of_le h32]
    rw [BitVec.getLsbD_and, Bool.and_eq_true, h q hq, BitVec.getLsbD_not,
      getLsbD_one_shiftLeft (by omega)]
    simp [hq]

theorem Represents.group_eq_zero (hP : ∀ p, P p → p < prioMax) : b.group = 0 ↔ ∀ p, ¬ P p := by
  have hzero : b.group = 0 ↔ ∀ n < 32, ¬ b.group.getLsbD n = true := by
    constructor
    · intro hz n _
      simp [hz]
    · intro hn
      exact BitVec.eq_of_getLsbD_eq fun n hn' => by simpa using hn n hn'
  rw [hzero]
  by_cases h32 : 32 < prioMax
  · simp only [Represents, if_pos h32] at h
    obtain ⟨htable, hgroup⟩ := h
    constructor
    · intro hn p hp
      have hp' := hP p hp
      refine hn (p / 8) (by omega) ((hgroup _ (by omega)).2 ?_)
      refine (table_ne_zero_iff htable (by omega)).2 ⟨p % 8, by omega, ?_⟩
      rwa [div_add_mod]
    · intro hnone n hn hbit
      obtain ⟨i, -, hi⟩ := (table_ne_zero_iff htable hn).1 ((hgroup n hn).1 hbit)
      exact hnone _ hi
  · simp only [Represents, if_neg h32] at h
    constructor
    · intro hn p hp
      have hp' := hP p hp
      exact hn p (by omega) ((h p (by omega)).2 hp)
    · intro hnone n hn hbit
      exact hnone n ((h n hn).1 hbit)

/-- The priority found is **the least of the set**. -/
theorem Represents.highestPriority (hP : ∀ p, P p → p < prioMax) (hne : b.group ≠ 0) :
    P (b.highestPriority prioMax) ∧ ∀ q, P q → b.highestPriority prioMax ≤ q := by
  obtain ⟨hpos, hlow⟩ := rtFfs_spec hne
  have hlt := hlow.lt
  by_cases h32 : 32 < prioMax
  · simp only [Represents, if_pos h32] at h
    obtain ⟨htable, hgroup⟩ := h
    simp only [ReadyBitmap.highestPriority, if_pos h32, shiftLeft_eq]
    generalize rtFfs b.group - 1 = number at *
    -- the byte of the lowest group bit is not zero
    have hbyte : b.table number ≠ 0 := (hgroup number hlt).1 hlow.1
    have hwide : (b.table number).setWidth 32 ≠ 0 := by
      intro hz
      refine hbyte (BitVec.eq_of_getLsbD_eq ?_)
      intro i hi
      have hbit := congrArg (fun w => w.getLsbD i) hz
      simpa [show i < 32 by omega] using hbit
    obtain ⟨hpos', hlow'⟩ := rtFfs_spec hwide
    rw [Nat.add_sub_assoc hpos']
    generalize rtFfs ((b.table number).setWidth 32) - 1 = k at *
    have hbits : ∀ j < 32, ((b.table number).setWidth 32).getLsbD j
        = (b.table number).getLsbD j := by
      intro j hj
      simp [hj]
    have hset : (b.table number).getLsbD k = true := by
      rw [← hbits k hlow'.lt]
      exact hlow'.1
    have hk : k < 8 := BitVec.lt_of_getLsbD hset
    have hdiv : (number * 2 ^ 3 + k) / 8 = number := by omega
    have hmod : (number * 2 ^ 3 + k) % 8 = k := by omega
    constructor
    · rw [← htable _ (by omega), hdiv, hmod]
      exact hset
    · intro q hq
      have hq' := hP q hq
      have hqbit := (htable q (by omega)).2 hq
      have hle : number ≤ q / 8 := by
        by_contra hgt
        have hoff := hlow.2 (q / 8) (by omega)
        have hon := (hgroup (q / 8) (by omega)).2 fun hz => by simp [hz] at hqbit
        simp [hoff] at hon
      rcases Nat.lt_or_ge number (q / 8) with hlt' | hge'
      · omega
      · have hnum : q / 8 = number := by omega
        have hle' : k ≤ q % 8 := by
          by_contra hgt
          have hoff := hlow'.2 (q % 8) (by omega)
          rw [hbits _ (by omega), ← hnum, hqbit] at hoff
          cases hoff
        omega
  · simp only [Represents, if_neg h32] at h
    simp only [ReadyBitmap.highestPriority, if_neg h32]
    constructor
    · exact (h _ hlt).1 hlow.1
    · intro q hq
      have hq' := hP q hq
      by_contra hgt
      have hoff := hlow.2 q (by omega)
      rw [(h q (by omega)).2 hq] at hoff
      cases hoff

end

end

end ReadyBitmap

end RtThread
