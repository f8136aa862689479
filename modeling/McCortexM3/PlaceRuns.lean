import Mathlib.Data.List.Count
import Mathlib.Data.List.Pairwise
import Mathlib.Data.List.Perm.Basic

/-!
# Runs of places

Places are given out in runs.  Nothing is lost and nothing is given out twice when every place is
covered exactly once by the runs that are free and those that are in use, whatever their order.

## Main definitions

* `PlaceRun` — a first place and how many.
* `cover l p` — how many of the runs of `l` cover the place `p`.

## Main results

* `cover_cons`, `cover_perm` — the cover of lists.
* `cover_split` — a run and its parts.
* `eq_of_cover`, `apart_of_cover` — runs that cover no place twice have no place in common.
-/

set_option linter.all false

open List

/-- A run of `count` places from `first` on. -/
structure PlaceRun where
  first : ℕ
  count : ℕ
  deriving DecidableEq

/-- The run covers the place. -/
def PlaceRun.Covers (r : PlaceRun) (p : ℕ) : Prop := r.first ≤ p ∧ p < r.first + r.count

instance (r : PlaceRun) (p : ℕ) : Decidable (r.Covers p) :=
  inferInstanceAs (Decidable (_ ∧ _))

theorem covers_first (first : ℕ) {count : ℕ} (h : 0 < count) :
    PlaceRun.Covers ⟨first, count⟩ first := ⟨Nat.le_refl first, Nat.lt_add_of_pos_right h⟩

/-- How many of the runs cover the place. -/
def cover (l : List PlaceRun) (p : ℕ) : ℕ := l.countP (·.Covers p)

variable {l l' : List PlaceRun} {r r' : PlaceRun} {p : ℕ}

@[simp] theorem cover_nil (p : ℕ) : cover [] p = 0 := rfl

theorem cover_cons (r : PlaceRun) (l : List PlaceRun) (p : ℕ) :
    cover (r :: l) p = cover l p + if r.Covers p then 1 else 0 := by
  unfold cover
  rw [countP_cons]
  congr 1
  by_cases h : r.Covers p <;> simp [h]

theorem cover_perm (h : l.Perm l') (p : ℕ) : cover l p = cover l' p := h.countP_eq _

theorem cover_split (first n m p : ℕ) (l : List PlaceRun) :
    cover (⟨first, n + m⟩ :: l) p = cover (⟨first, n⟩ :: ⟨first + n, m⟩ :: l) p := by
  have hiff : PlaceRun.Covers ⟨first, n + m⟩ p ↔
      PlaceRun.Covers ⟨first, n⟩ p ∨ PlaceRun.Covers ⟨first + n, m⟩ p := by
    unfold PlaceRun.Covers
    dsimp only
    omega
  have hboth : ¬ (PlaceRun.Covers ⟨first, n⟩ p ∧ PlaceRun.Covers ⟨first + n, m⟩ p) := by
    unfold PlaceRun.Covers
    dsimp only
    omega
  by_cases h₁ : PlaceRun.Covers ⟨first, n⟩ p
  · have h₂ : ¬ PlaceRun.Covers ⟨first + n, m⟩ p := fun h₂ => hboth ⟨h₁, h₂⟩
    simp [cover_cons, hiff, h₁, h₂]
  · simp [cover_cons, hiff, h₁]

theorem cover_pos (h : r ∈ l) (hp : r.Covers p) : 0 < cover l p :=
  countP_pos_iff.2 ⟨r, h, decide_eq_true hp⟩

theorem eq_of_cover (h : cover l p ≤ 1) (hr : r ∈ l) (hr' : r' ∈ l) (hp : r.Covers p)
    (hp' : r'.Covers p) : r' = r := by
  by_contra hne
  have hmem : r' ∈ l.erase r := (mem_erase_of_ne hne).2 hr'
  have hpos := cover_pos hmem hp'
  have hcover := cover_perm (perm_cons_erase hr) p
  rw [cover_cons, if_pos hp] at hcover
  omega

theorem apart_of_cover (h : ∀ p, cover l p ≤ 1) (hsub : [r, r'].Sublist l) (p : ℕ) :
    ¬ (r.Covers p ∧ r'.Covers p) := by
  rintro ⟨hr, hr'⟩
  have hle : cover [r, r'] p ≤ cover l p := hsub.countP_le
  have htwo : cover [r, r'] p = 2 := by simp [cover_cons, hr, hr']
  have hone := h p
  omega
