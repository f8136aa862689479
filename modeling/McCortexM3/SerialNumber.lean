import Mathlib.Algebra.Group.Int.Defs
import Mathlib.Algebra.Group.Nat.Defs

/-!
# Serial numbers

Numbers of 32 bits that go round, such as the values of a counter, are compared by their signed
distance: it is the true distance of two values that are less than half the range apart.

## Main definitions

* `serialDist a b` — the signed distance from `b` to `a`.

## Main results

* `serialDist_eq` — a number of the right range and residue is the distance.
* `serialDist_add` — distances add up within the range.
* `sub_toNat_lt_iff` — unsigned comparison of a difference.
-/

set_option linter.all false

/-- The signed distance from `b` to `a`. -/
def serialDist (a b : UInt32) : ℤ :=
  if (a - b).toNat < 2 ^ 31 then (a - b).toNat else (a - b).toNat - 2 ^ 32

variable {a b c : UInt32}

theorem le_serialDist (a b : UInt32) : -2 ^ 31 ≤ serialDist a b := by
  rw [serialDist]
  split <;> omega

theorem serialDist_lt (a b : UInt32) : serialDist a b < 2 ^ 31 := by
  have hlt := (a - b).toNat_lt
  rw [serialDist]
  split <;> omega

theorem exists_serialDist (a b : UInt32) :
    ∃ k : ℤ, serialDist a b = a.toNat - b.toNat + k * 2 ^ 32 := by
  have ha := a.toNat_lt
  have hb := b.toNat_lt
  have hsub := UInt32.toNat_sub a b
  rw [serialDist]
  split
  · rcases Nat.lt_or_ge a.toNat b.toNat with hlt | hge
    · exact ⟨1, by omega⟩
    · exact ⟨0, by omega⟩
  · rcases Nat.lt_or_ge a.toNat b.toNat with hlt | hge
    · exact ⟨0, by omega⟩
    · exact ⟨-1, by omega⟩

theorem serialDist_eq {x k : ℤ} (hx : x = a.toNat - b.toNat + k * 2 ^ 32) (hle : -2 ^ 31 ≤ x)
    (hlt : x < 2 ^ 31) : serialDist a b = x := by
  obtain ⟨k', hk'⟩ := exists_serialDist a b
  have hle' := le_serialDist a b
  have hlt' := serialDist_lt a b
  have hk : k = k' := by omega
  rw [hk', hx, hk]

theorem serialDist_comm (h : -2 ^ 31 < serialDist a b) : serialDist b a = -serialDist a b := by
  obtain ⟨k, hk⟩ := exists_serialDist a b
  have hlt := serialDist_lt a b
  exact serialDist_eq (k := -k) (by omega) (by omega) (by omega)

theorem serialDist_add_left (h : a.toNat < 2 ^ 31) (b : UInt32) :
    serialDist (b + a) b = a.toNat := by
  have hb := b.toNat_lt
  have hadd := UInt32.toNat_add b a
  rcases Nat.lt_or_ge (b.toNat + a.toNat) (2 ^ 32) with hlt | hge
  · exact serialDist_eq (k := 0) (by omega) (by omega) (by omega)
  · exact serialDist_eq (k := 1) (by omega) (by omega) (by omega)

theorem serialDist_add_right (n : UInt32) (h : -2 ^ 31 ≤ serialDist a b - n.toNat) :
    serialDist a (b + n) = serialDist a b - n.toNat := by
  have hb := b.toNat_lt
  have hn := n.toNat_lt
  have hadd := UInt32.toNat_add b n
  have hlt := serialDist_lt a b
  obtain ⟨k, hk⟩ := exists_serialDist a b
  rcases Nat.lt_or_ge (b.toNat + n.toNat) (2 ^ 32) with hsum | hsum
  · exact serialDist_eq (k := k) (by omega) h (by omega)
  · exact serialDist_eq (k := k - 1) (by omega) h (by omega)

theorem sub_toNat_lt_iff {m : ℕ} (hm : m ≤ 2 ^ 31) :
    (a - b).toNat < m ↔ 0 ≤ serialDist a b ∧ serialDist a b < m := by
  have hlt := (a - b).toNat_lt
  rw [serialDist]
  split <;> omega

theorem serialDist_eq_zero_iff : serialDist a b = 0 ↔ a - b = 0 := by
  have hlt := (a - b).toNat_lt
  rw [← UInt32.toNat_inj, serialDist]
  simp only [UInt32.toNat_zero]
  split <;> omega
