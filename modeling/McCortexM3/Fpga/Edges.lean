import Mathlib.Data.Nat.Notation
import Mathlib.Data.Bool.Basic

/-!
# Edges of a sampled signal

A signal sampled by a clock is a function `ℕ → Bool`; its value before the first
sample is low, as that of a register after reset.  Counting the rising edges of a
signal is what a saturating edge counter in hardware does.

## Main definitions

* `risesAt x n` — the sample `n` of `x` is a rising edge.
* `rises x n` — the number of rising edges among the first `n` samples.
-/

set_option linter.all false

namespace Edges

/-- The sample `n` of `x` is high and the one before it is low. -/
def risesAt (x : ℕ → Bool) : ℕ → Bool
  | 0 => x 0
  | n + 1 => x (n + 1) && !x n

/-- The number of rising edges among the samples `0, …, n - 1` of `x`. -/
def rises (x : ℕ → Bool) : ℕ → ℕ
  | 0 => 0
  | n + 1 => rises x n + (risesAt x n).toNat

@[simp] theorem risesAt_zero (x : ℕ → Bool) : risesAt x 0 = x 0 := rfl

@[simp] theorem risesAt_succ (x : ℕ → Bool) (n : ℕ) : risesAt x (n + 1) = (x (n + 1) && !x n) := rfl

@[simp] theorem rises_zero (x : ℕ → Bool) : rises x 0 = 0 := rfl

@[simp] theorem rises_succ (x : ℕ → Bool) (n : ℕ) :
    rises x (n + 1) = rises x n + (risesAt x n).toNat := rfl

theorem rises_mono (x : ℕ → Bool) {m n : ℕ} (h : m ≤ n) : rises x m ≤ rises x n := by
  induction h with
  | refl => exact Nat.le_refl _
  | step _ ih => exact Nat.le_trans ih (Nat.le_add_right _ _)

theorem rises_eq_zero_iff {x : ℕ → Bool} {n : ℕ} : rises x n = 0 ↔ ∀ t < n, x t = false := by
  induction n with
  | zero => simp
  | succ n ih =>
    rw [rises_succ, Nat.add_eq_zero_iff, ih, Nat.forall_lt_succ_right]
    apply and_congr_right
    intro h
    cases n with
    | zero => simp
    | succ m => simp [h m (by omega)]

end Edges
