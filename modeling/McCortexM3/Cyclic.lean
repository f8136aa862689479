import Mathlib.Data.Int.Notation

/-!
# Times on a cycle

Times such as the seconds of a day come round again after a period `P`.  Seen from now, they are
ordered by how long it takes until they come; now itself comes after a whole period.

## Main definitions

* `ahead P now t` — how long it takes from `now` until `t` comes.

## Main results

* `ahead_of_lt`, `ahead_of_le` — it comes in this cycle, or in the next one.
* `ahead_lt_ahead_iff` — which of two times comes first, by three comparisons.
-/

set_option linter.all false

/-- How long it takes from `now` until the time `t` of the cycle comes. -/
def ahead (P now t : ℤ) : ℤ := (t - now - 1) % P + 1

variable {P now t u : ℤ}

theorem ahead_le (hP : 0 < P) : ahead P now t ≤ P := by
  have hlt := Int.emod_lt_of_pos (t - now - 1) hP
  unfold ahead
  omega

theorem ahead_of_lt (hnow : 0 ≤ now) (ht : t < P) (h : now < t) : ahead P now t = t - now := by
  have hmod : (t - now - 1) % P = t - now - 1 := Int.emod_eq_of_lt (by omega) (by omega)
  unfold ahead
  omega

theorem ahead_of_le (hnow : now < P) (ht : 0 ≤ t) (h : t ≤ now) : ahead P now t = t - now + P := by
  have hmod : (t - now - 1 + P) % P = t - now - 1 + P :=
    Int.emod_eq_of_lt (by omega) (by omega)
  rw [Int.add_emod_right] at hmod
  unfold ahead
  omega

theorem ahead_self (hnow : now < P) (h0 : 0 ≤ now) : ahead P now now = P := by
  rw [ahead_of_le hnow h0 (Int.le_refl now)]
  omega

/-- Which of two times comes first: both are still to come, or only one, or none. -/
theorem ahead_lt_ahead_iff (h0 : 0 ≤ now) (hnow : now < P) (ht0 : 0 ≤ t) (ht : t < P)
    (hu0 : 0 ≤ u) (hu : u < P) :
    ahead P now t < ahead P now u ↔
      (t < u ∧ now < t) ∨ (now < t ∧ u ≤ now) ∨ (t < u ∧ u ≤ now) := by
  rcases Int.lt_or_le now t with hlt | hle
  · rcases Int.lt_or_le now u with hlt' | hle'
    · rw [ahead_of_lt h0 ht hlt, ahead_of_lt h0 hu hlt']
      omega
    · rw [ahead_of_lt h0 ht hlt, ahead_of_le hnow hu0 hle']
      omega
  · rcases Int.lt_or_le now u with hlt' | hle'
    · rw [ahead_of_le hnow ht0 hle, ahead_of_lt h0 hu hlt']
      omega
    · rw [ahead_of_le hnow ht0 hle, ahead_of_le hnow hu0 hle']
      omega
