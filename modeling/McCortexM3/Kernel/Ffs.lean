import Mathlib.Data.List.GetD
import Mathlib.Tactic.IntervalCases

/-!
# Find first set

`__rt_ffs` of `kservice.c` looks the lowest set bit of the lowest non-zero byte of a word
up in a table of 256 entries.

## Main definitions

* `lowestBitBitmap`, `rtFfs` — the table and the function.

## Main results

* `rtFfs_spec` — of a word that is not zero, `rtFfs` returns the number of its lowest set
  bit, counted from 1.
-/

set_option linter.all false

namespace RtThread

open Nat

/-- `__lowest_bit_bitmap`: the number of the lowest set bit of a byte. -/
def lowestBitBitmap (b : BitVec 8) : ℕ :=
  [ 0, 0, 1, 0, 2, 0, 1, 0, 3, 0, 1, 0, 2, 0, 1, 0,
    4, 0, 1, 0, 2, 0, 1, 0, 3, 0, 1, 0, 2, 0, 1, 0,
    5, 0, 1, 0, 2, 0, 1, 0, 3, 0, 1, 0, 2, 0, 1, 0,
    4, 0, 1, 0, 2, 0, 1, 0, 3, 0, 1, 0, 2, 0, 1, 0,
    6, 0, 1, 0, 2, 0, 1, 0, 3, 0, 1, 0, 2, 0, 1, 0,
    4, 0, 1, 0, 2, 0, 1, 0, 3, 0, 1, 0, 2, 0, 1, 0,
    5, 0, 1, 0, 2, 0, 1, 0, 3, 0, 1, 0, 2, 0, 1, 0,
    4, 0, 1, 0, 2, 0, 1, 0, 3, 0, 1, 0, 2, 0, 1, 0,
    7, 0, 1, 0, 2, 0, 1, 0, 3, 0, 1, 0, 2, 0, 1, 0,
    4, 0, 1, 0, 2, 0, 1, 0, 3, 0, 1, 0, 2, 0, 1, 0,
    5, 0, 1, 0, 2, 0, 1, 0, 3, 0, 1, 0, 2, 0, 1, 0,
    4, 0, 1, 0, 2, 0, 1, 0, 3, 0, 1, 0, 2, 0, 1, 0,
    6, 0, 1, 0, 2, 0, 1, 0, 3, 0, 1, 0, 2, 0, 1, 0,
    4, 0, 1, 0, 2, 0, 1, 0, 3, 0, 1, 0, 2, 0, 1, 0,
    5, 0, 1, 0, 2, 0, 1, 0, 3, 0, 1, 0, 2, 0, 1, 0,
    4, 0, 1, 0, 2, 0, 1, 0, 3, 0, 1, 0, 2, 0, 1, 0 ].getD b.toNat 0

/-- `__rt_ffs`. -/
def rtFfs (value : BitVec 32) : ℕ :=
  if value = 0 then 0
  else if value &&& 0xff ≠ 0 then lowestBitBitmap ((value &&& 0xff).setWidth 8) + 1
  else if value &&& 0xff00 ≠ 0 then
    lowestBitBitmap (((value &&& 0xff00) >>> 8).setWidth 8) + 9
  else if value &&& 0xff0000 ≠ 0 then
    lowestBitBitmap (((value &&& 0xff0000) >>> 16).setWidth 8) + 17
  else lowestBitBitmap (((value &&& 0xff000000) >>> 24).setWidth 8) + 25

theorem lowestBitBitmap_spec (b : BitVec 8) (hb : b ≠ 0) :
    lowestBitBitmap b < 8 ∧ b.getLsbD (lowestBitBitmap b) = true ∧
      ∀ j < lowestBitBitmap b, b.getLsbD j = false := by
  -- the bits of an index up to the lowest one are a power of two
  obtain ⟨l, hl, hlen, htable⟩ : ∃ l : List ℕ, (∀ b, lowestBitBitmap b = l.getD b.toNat 0) ∧
      l.length = 256 ∧ ∀ e ∈ l.zipIdx, e.2 = 0 ∨ e.1 < 8 ∧ e.2 % 2 ^ (e.1 + 1) = 2 ^ e.1 :=
    ⟨_, fun _ => rfl, by decide +kernel, by decide +kernel⟩
  have hlt : b.toNat < l.length := hlen ▸ b.isLt
  have hmem : (lowestBitBitmap b, b.toNat) ∈ l.zipIdx := by
    rw [hl, List.getD_eq_getElem _ _ hlt]
    exact List.mem_zipIdx_iff_getElem?.2 (List.getElem?_eq_getElem hlt)
  obtain ⟨hlt, hmod⟩ := (htable _ hmem).resolve_left fun h => hb (BitVec.eq_of_toNat_eq h)
  generalize lowestBitBitmap b = k at hlt hmod
  have hbit : ∀ j ≤ k, b.getLsbD j = decide (k = j) := fun j hj => by
    rw [← Nat.testBit_two_pow, ← hmod, Nat.testBit_mod_two_pow,
      decide_eq_true (Nat.lt_succ_of_le hj), Bool.true_and]
    rfl
  exact ⟨hlt, (hbit k le_rfl).trans (decide_eq_true rfl), fun j hj =>
    (hbit j (Nat.le_of_lt hj)).trans (decide_eq_false (Nat.ne_of_gt hj))⟩

/-- `k` is the lowest set bit of `v`. -/
def LowestBit {w : ℕ} (v : BitVec w) (k : ℕ) : Prop :=
  v.getLsbD k = true ∧ ∀ j < k, v.getLsbD j = false

theorem getLsbD_ff_shiftLeft (k i : ℕ) (hk : k + 8 ≤ 32) :
    (0xff#32 <<< k).getLsbD i = (decide (k ≤ i) && decide (i < k + 8)) := by
  have hff : (0xff#32) = (BitVec.allOnes 8).setWidth 32 := rfl
  rw [hff, BitVec.getLsbD_shiftLeft, BitVec.getLsbD_setWidth, BitVec.getLsbD_allOnes]
  rw [Bool.eq_iff_iff]
  simp only [Bool.and_eq_true, Bool.not_eq_true', decide_eq_true_eq, decide_eq_false_iff_not]
  omega

theorem getLsbD_maskByte (v : BitVec 32) {k i : ℕ} (hk : k + 8 ≤ 32) (hi : i < 8) :
    (((v &&& (0xff#32 <<< k)) >>> k).setWidth 8).getLsbD i = v.getLsbD (k + i) := by
  rw [BitVec.getLsbD_setWidth, BitVec.getLsbD_ushiftRight, BitVec.getLsbD_and,
    getLsbD_ff_shiftLeft _ _ hk]
  simp [hi]

theorem lowestBit_of_byte {v : BitVec 32} {k : ℕ} (hk : k + 8 ≤ 32)
    (hlow : ∀ j < k, v.getLsbD j = false) (h : v &&& (0xff#32 <<< k) ≠ 0) :
    LowestBit v (k + lowestBitBitmap (((v &&& (0xff#32 <<< k)) >>> k).setWidth 8)) := by
  have hne : ((v &&& (0xff#32 <<< k)) >>> k).setWidth 8 ≠ 0 := by
    intro h0
    apply h
    apply BitVec.zero_iff_eq_false.2
    intro i
    rw [BitVec.getLsbD_and, getLsbD_ff_shiftLeft _ _ hk]
    by_cases hin : k ≤ i ∧ i < k + 8
    · have hbit := getLsbD_maskByte v hk (show i - k < 8 by omega)
      rw [h0, Nat.add_sub_cancel' hin.1] at hbit
      simp [← hbit]
    · rw [← Bool.decide_and, decide_eq_false hin, Bool.and_false]
  obtain ⟨h8, hset, hclear⟩ := lowestBitBitmap_spec _ hne
  constructor
  · rw [← getLsbD_maskByte v hk h8, hset]
  · intro j hj
    rcases Nat.lt_or_ge j k with hlt | hge
    · exact hlow j hlt
    · have hbit := getLsbD_maskByte v hk (show j - k < 8 by omega)
      rw [Nat.add_sub_cancel' hge] at hbit
      rw [← hbit]
      exact hclear _ (by omega)

theorem low_of_byte_eq_zero {v : BitVec 32} {k : ℕ} (hk : k + 8 ≤ 32)
    (hlow : ∀ j < k, v.getLsbD j = false) (h : v &&& (0xff#32 <<< k) = 0) :
    ∀ j < k + 8, v.getLsbD j = false := by
  intro j hj
  rcases Nat.lt_or_ge j k with hlt | hge
  · exact hlow j hlt
  · have hbit := congrArg (fun w => w.getLsbD j) h
    simpa [BitVec.getLsbD_and, getLsbD_ff_shiftLeft _ _ hk, hge, hj] using hbit

/-- `__rt_ffs` returns the number of the **lowest set bit**, counted from 1. -/
theorem rtFfs_spec {v : BitVec 32} (h : v ≠ 0) : 0 < rtFfs v ∧ LowestBit v (rtFfs v - 1) := by
  have h0 : ∀ j < 0, v.getLsbD j = false := by simp
  rw [rtFfs, if_neg h]
  by_cases hb0 : v &&& 0xff ≠ 0
  · have hbit := lowestBit_of_byte (by omega) h0 (show v &&& (0xff#32 <<< 0) ≠ 0 from hb0)
    rw [if_pos hb0]
    exact ⟨succ_pos _, by simpa using hbit⟩
  have h8 := low_of_byte_eq_zero (by omega) h0 (show v &&& (0xff#32 <<< 0) = 0 from not_not.1 hb0)
  rw [if_neg hb0]
  by_cases hb1 : v &&& 0xff00 ≠ 0
  · have hbit := lowestBit_of_byte (by omega) h8 (show v &&& (0xff#32 <<< 8) ≠ 0 from hb1)
    rw [if_pos hb1]
    exact ⟨succ_pos _, by simpa [Nat.add_comm] using hbit⟩
  have h16 := low_of_byte_eq_zero (by omega) h8 (show v &&& (0xff#32 <<< 8) = 0 from not_not.1 hb1)
  rw [if_neg hb1]
  by_cases hb2 : v &&& 0xff0000 ≠ 0
  · have hbit := lowestBit_of_byte (by omega) h16 (show v &&& (0xff#32 <<< 16) ≠ 0 from hb2)
    rw [if_pos hb2]
    exact ⟨succ_pos _, by simpa [Nat.add_comm] using hbit⟩
  have h24 := low_of_byte_eq_zero (by omega) h16
    (show v &&& (0xff#32 <<< 16) = 0 from not_not.1 hb2)
  have hb3 : v &&& (0xff#32 <<< 24) ≠ 0 := by
    intro hz
    have h32 := low_of_byte_eq_zero (by omega) h24 hz
    exact h (BitVec.eq_of_getLsbD_eq fun i hi => by simpa using h32 i hi)
  have hbit := lowestBit_of_byte (by omega) h24 hb3
  rw [if_neg hb2]
  exact ⟨succ_pos _, by simpa [Nat.add_comm] using hbit⟩

theorem LowestBit.lt {w k : ℕ} {v : BitVec w} (h : LowestBit v k) : k < w :=
  BitVec.lt_of_getLsbD h.1

end RtThread
