import McCortexM3.Drivers.BxCan

/-!
# The places of the bxCAN filters

A bank has one place for a 32-bit mask, two for 32-bit identifiers or 16-bit masks, and four for
16-bit identifiers.  What is programmed in one place leaves the others as they are.

## Main definitions

* `FilterCase.places` — the number of places in a bank.
* `CanFilter.Proper` — the values fit in the place.

## Main results

* `CanFilter.matches_store`, `CanFilter.matches_store_of_ne` — a filter is found where it has been
  programmed, and stays when another place is.
* `CanFilter.eq_of_matches` — a place holds one filter.
-/

set_option linter.all false

namespace RtThread

open Nat

/-! ### Half words -/

theorem getLsbD_lowMask (i : ℕ) : (0x0000FFFF#32).getLsbD i = decide (i < 16) := by
  by_cases hi : i < 32
  · revert hi
    revert i
    decide
  · rw [BitVec.getLsbD_of_ge _ _ (by omega), decide_eq_false (by omega)]

theorem getLsbD_highMask (i : ℕ) : (0xFFFF0000#32).getLsbD i = decide (16 ≤ i ∧ i < 32) := by
  by_cases hi : i < 32
  · revert hi
    revert i
    decide
  · rw [BitVec.getLsbD_of_ge _ _ (by omega), decide_eq_false (by omega)]

theorem getElem_lowMask {i : ℕ} (hi : i < 32) : (0x0000FFFF#32)[i] = decide (i < 16) := by
  rw [← BitVec.getLsbD_eq_getElem, getLsbD_lowMask]

theorem getElem_highMask {i : ℕ} (hi : i < 32) : (0xFFFF0000#32)[i] = decide (16 ≤ i) := by
  rw [← BitVec.getLsbD_eq_getElem, getLsbD_highMask]
  simp [hi]

theorem join_halfWords (x : BitVec 32) :
    (0x0000FFFF &&& ((x &&& 0xFFFF0000) >>> 16)) <<< 16 ||| (0x0000FFFF &&& (x &&& 0x0000FFFF)) =
      x := by
  apply BitVec.eq_of_getLsbD_eq
  intro i hi
  by_cases hlow : i < 16
  · simp [getElem_lowMask, hlow, hi]
  · have hadd : 16 + (i - 16) = i := by omega
    have hsub : i - 16 < 16 := by omega
    have hhigh : 16 ≤ i := by omega
    simp [getElem_lowMask, getElem_highMask, hlow, hi, hadd, hsub, hhigh]

theorem canFilterInit_eq (ide : Bool) (r : FilterRegs) : canFilterInit ide r = r := by
  cases ide with
  | true => exact Prod.ext (join_halfWords r.1) (join_halfWords r.2)
  | false => exact Prod.ext (join_halfWords r.1) (join_halfWords r.2)

theorem halfWord_setHalfWord (x v : BitVec 32) {i j : ℕ} (hi : i < 2) (hj : j < 2) :
    halfWord (setHalfWord x i v) j = if i = j then v &&& 0x0000FFFF else halfWord x j := by
  have hi' : i = 0 ∨ i = 1 := by omega
  have hj' : j = 0 ∨ j = 1 := by omega
  apply BitVec.eq_of_getLsbD_eq
  intro n hn
  by_cases hlow : n < 16
  · have hlow' : ¬ 16 ≤ n := by omega
    have hadd : 16 + n < 32 := by omega
    rcases hi' with rfl | rfl <;> rcases hj' with rfl | rfl
    all_goals simp [halfWord, setHalfWord, getElem_lowMask, getElem_highMask, hlow, hlow', hn, hadd]
  · rcases hi' with rfl | rfl <;> rcases hj' with rfl | rfl
    all_goals simp [halfWord, setHalfWord, getElem_lowMask, hlow, hn]

/-! ### Places -/

/-- The number of places in a bank. -/
def FilterCase.places : FilterCase → ℕ
  | .id16bit => 4
  | .id16mask | .id32bit => 2
  | .id32mask => 1

namespace CanFilter

/-- The values fit in the place. -/
def Proper (f : CanFilter) : Prop :=
  (f.fcase = .id16bit → f.first &&& 0x0000FFFF = f.first) ∧ (f.fcase ≠ .id32mask → f.second = 0)

variable {f g : CanFilter} {r : FilterRegs} {off off' : ℕ}

theorem matches_store (hf : f.Proper) (hoff : off < f.fcase.places) :
    f.Matches (f.store r off) off := by
  obtain ⟨fcase, first, second⟩ := f
  cases fcase with
  | id32mask => exact ⟨rfl, rfl⟩
  | id32bit | id16mask =>
    change off < 2 at hoff
    simp only [Matches, store]
    by_cases h0 : off = 0
    · simp [h0]
    · have h1 : off = 1 := by omega
      simp [h1]
  | id16bit =>
    change off < 4 at hoff
    have hfirst : first &&& 0x0000FFFF = first := hf.1 rfl
    simp only [Matches, store]
    by_cases h2 : off < 2
    · refine .inl ⟨h2, ?_⟩
      rw [if_pos h2, mod_eq_of_lt h2]
      exact (halfWord_setHalfWord r.1 first h2 h2).trans (by rw [if_pos rfl, hfirst])
    · refine .inr ⟨by omega, ?_⟩
      have hmod : off % 2 = off - 2 := by omega
      rw [if_neg h2, if_pos hoff, hmod]
      exact (halfWord_setHalfWord r.2 first (by omega) (by omega)).trans (by rw [if_pos rfl, hfirst])

theorem matches_store_of_ne (h : f.Matches r off) (hcase : g.fcase = f.fcase)
    (hoff : off < f.fcase.places) (hoff' : off' < f.fcase.places) (hne : off ≠ off') :
    f.Matches (g.store r off') off := by
  obtain ⟨fcase, first, second⟩ := f
  obtain ⟨fcase', first', second'⟩ := g
  obtain rfl : fcase' = fcase := hcase
  cases fcase' with
  | id32mask =>
    change off < 1 at hoff
    change off' < 1 at hoff'
    omega
  | id32bit | id16mask =>
    change off < 2 at hoff
    change off' < 2 at hoff'
    simp only [Matches, store] at h ⊢
    by_cases h0 : off' = 0
    · have h1 : off = 1 := by omega
      simpa [h0, h1] using h
    · have h1 : off' = 1 := by omega
      have h0 : off = 0 := by omega
      simpa [h0, h1] using h
  | id16bit =>
    change off < 4 at hoff
    change off' < 4 at hoff'
    simp only [Matches, store] at h ⊢
    by_cases h2 : off' < 2
    · rw [if_pos h2]
      refine h.imp (fun h => ⟨h.1, ?_⟩) id
      refine (halfWord_setHalfWord r.1 first' h2 (mod_lt _ (by decide))).trans ?_
      rw [if_neg (by omega), h.2]
    · rw [if_neg h2, if_pos hoff']
      refine h.imp id fun h => ⟨h.1, ?_⟩
      refine (halfWord_setHalfWord r.2 first' (by omega) (mod_lt _ (by decide))).trans ?_
      rw [if_neg (by omega), h.2]

theorem eq_of_matches (hf : f.fcase ≠ .id32mask → f.second = 0) (hg : g.Proper)
    (hcase : f.fcase = g.fcase) (h : f.Matches r off) (h' : g.Matches r off) : f = g := by
  obtain ⟨fcase, first, second⟩ := f
  obtain ⟨fcase', first', second'⟩ := g
  obtain rfl : fcase = fcase' := hcase
  have hsecond : fcase ≠ .id32mask → second = second' :=
    fun hne => (hf hne).trans (hg.2 hne).symm
  cases fcase with
  | id32mask =>
    obtain ⟨h₁, h₂⟩ := h
    obtain ⟨h₁', h₂'⟩ := h'
    simp only at h₁ h₂ h₁' h₂'
    rw [← h₁, ← h₂, h₁', h₂']
  | id32bit | id16mask | id16bit =>
    rw [hsecond (by simp)]
    simp only [Matches] at h h'
    have hfirst : first = first' := by
      rcases h with ⟨h₀, h₁⟩ | ⟨h₀, h₁⟩ <;> rcases h' with ⟨h₀', h₁'⟩ | ⟨h₀', h₁'⟩
      · rw [← h₁, h₁']
      · omega
      · omega
      · rw [← h₁, h₁']
    rw [hfirst]

end CanFilter

/-- The identifier of an item fits in its place. -/
def CanFilterItem.Fits (pitem : CanFilterItem) : Prop :=
  pitem.fcase = .id16bit → pitem.id.toNat < 0x800

theorem CanFilterItem.fcase_filter (pitem : CanFilterItem) : pitem.filter.fcase = pitem.fcase := by
  rw [filter]
  cases pitem.fcase <;> rfl

theorem CanFilterItem.second_filter (pitem : CanFilterItem) :
    pitem.filter.fcase ≠ .id32mask → pitem.filter.second = 0 := by
  rw [filter]
  cases pitem.fcase with
  | id32mask => exact fun hne => absurd rfl hne
  | id32bit | id16mask | id16bit => exact fun _ => rfl

theorem CanFilterItem.proper_filter {pitem : CanFilterItem} (h : pitem.Fits) :
    pitem.filter.Proper := by
  rw [filter]
  cases hcase : pitem.fcase with
  | id32mask => exact ⟨by simp, by simp⟩
  | id32bit => exact ⟨by simp, by simp⟩
  | id16mask => exact ⟨by simp, by simp⟩
  | id16bit =>
    refine ⟨fun _ => ?_, fun _ => rfl⟩
    have hlt := h hcase
    apply BitVec.eq_of_getLsbD_eq
    intro i hi
    by_cases hlow : i < 16
    · simp [getElem_lowMask, hlow, hi]
    · -- the identifier has 11 bits, and the flag is below it
      have hbit : pitem.id.getLsbD (i - 5) = false := by
        have hpow : 2 ^ 11 ≤ 2 ^ (i - 5) := Nat.pow_le_pow_right (by omega) (by omega)
        rw [BitVec.getLsbD]
        exact testBit_lt_two_pow (hlt.trans_le hpow)
      have hflags : ∀ j < 32, ¬ j < 16 → (0x00000002#32 <<< 3).getLsbD j = false := by decide
      have hflag := hflags i hi hlow
      cases hrtr : pitem.rtr with
      | true =>
        simp only [thisid16, hrtr, if_true, BitVec.getLsbD_and, BitVec.getLsbD_or, hflag,
          BitVec.getLsbD_shiftLeft, BitVec.getLsbD_setWidth, hbit, Bool.and_false, Bool.or_false,
          Bool.false_and]
      | false =>
        simp only [thisid16, hrtr, Bool.false_eq_true, if_false, BitVec.getLsbD_and,
          BitVec.getLsbD_or, BitVec.getLsbD_shiftLeft, BitVec.getLsbD_setWidth, hbit,
          Bool.and_false, BitVec.ofNat_eq_ofNat, BitVec.getLsbD_zero, Bool.or_false, Bool.false_and]

end RtThread
