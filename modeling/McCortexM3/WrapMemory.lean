import Mathlib.Data.UInt
import Mathlib.Tactic.IntervalCases
import Mathlib.Tactic.Ring

/-!
# Memories whose addresses go round

A memory has a byte for each 32-bit address.  The `n` bytes from `a` on are those whose address has
a distance of less than `n` from `a`, so that they may go round.  Bytes are set and copied one part
behind the other, in loops that count down.

## Main definitions

* `fill`, `copy` — some bytes are set to one value, and copied.
* `Apart` — two parts of a memory have no byte in common.
* `loadWord`, `storeWord` — words, with their lowest byte first.
* `countDown` — a loop that does its step while there is enough left to count.

## Main results

* `fill_fill`, `copy_copy`, `copy_copy_back` — parts one behind the other.
* `storeWord_loadWord` — a word that is copied.
* `countDown_induct` — what each step of a loop keeps.
-/

set_option linter.all false

namespace WrapMemory

/-- A byte for each address. -/
abbrev Memory := UInt32 → UInt8

/-- The `n` bytes from `a` on are set to `c`. -/
def fill (m : Memory) (a : UInt32) (n : ℕ) (c : UInt8) : Memory := fun x =>
  if (x - a).toNat < n then c else m x

/-- The `n` bytes from `src` on are copied to `dst`. -/
def copy (m : Memory) (dst src : UInt32) (n : ℕ) : Memory := fun x =>
  if (x - dst).toNat < n then m (src + (x - dst)) else m x

/-- No byte is one of the `n` bytes from `a` on and one of those from `b` on. -/
def Apart (a b : UInt32) (n : ℕ) : Prop := ∀ x : UInt32, ¬ ((x - a).toNat < n ∧ (x - b).toNat < n)

/-- The word at an address. -/
def loadWord (m : Memory) (a : UInt32) : UInt32 :=
  .ofNat ((m a).toNat + 256 * (m (a + 1)).toNat + 256 ^ 2 * (m (a + 2)).toNat +
    256 ^ 3 * (m (a + 3)).toNat)

/-- A word is stored at an address. -/
def storeWord (m : Memory) (a v : UInt32) : Memory := fun x =>
  if (x - a).toNat < 4 then .ofNat (v.toNat / 256 ^ (x - a).toNat) else m x

/-- A byte is stored at an address. -/
def storeByte (m : Memory) (a : UInt32) (c : UInt8) : Memory := fun x => if x = a then c else m x

variable {m : Memory} {a b dst src : UInt32} {n k : ℕ} {c : UInt8}

/-! ### Distances -/

theorem toNat_sub_add (x a : UInt32) (n : ℕ) :
    (x - (a + .ofNat n)).toNat = ((x - a).toNat + (2 ^ 32 - n % 2 ^ 32)) % 2 ^ 32 := by
  have hx := x.toNat_lt
  have ha := a.toNat_lt
  rw [UInt32.toNat_sub, UInt32.toNat_sub, UInt32.toNat_add, UInt32.toNat_ofNat']
  omega

theorem add_sub_add (x dst src n : UInt32) : src + n + (x - (dst + n)) = src + (x - dst) := by
  grind

theorem eq_iff_toNat_sub (x a : UInt32) : x = a ↔ (x - a).toNat = 0 := by
  have hx := x.toNat_lt
  have ha := a.toNat_lt
  rw [← UInt32.toNat_inj, UInt32.toNat_sub]
  omega

/-! ### Parts one behind the other -/

@[simp] theorem copy_zero : copy m dst src 0 = m := rfl

/-- **Bytes that are set** one part behind the other. -/
theorem fill_fill (hnk : n + k ≤ 2 ^ 32) :
    fill (fill m a n c) (a + .ofNat n) k c = fill m a (n + k) c := by
  funext x
  have hx := (x - a).toNat_lt
  have hdist := toNat_sub_add x a n
  unfold fill
  split_ifs <;> first | rfl | omega

/-- **Bytes that are copied** one part behind the other: what is copied later has not been
overwritten before. -/
theorem copy_copy (hnk : n + k ≤ 2 ^ 32)
    (hread : ∀ j, n ≤ j → j < n + k → n ≤ (src + .ofNat j - dst).toNat) :
    copy (copy m dst src n) (dst + .ofNat n) (src + .ofNat n) k = copy m dst src (n + k) := by
  funext x
  have hx := (x - dst).toNat_lt
  have hdist := toNat_sub_add x dst n
  have haddr := add_sub_add x dst src (.ofNat n)
  unfold copy
  by_cases hlow : (x - dst).toNat < n
  · rw [if_neg (by omega), if_pos hlow, if_pos (by omega)]
  · by_cases hhigh : (x - dst).toNat < n + k
    · have hlater := hread (x - dst).toNat (by omega) hhigh
      rw [UInt32.ofNat_toNat] at hlater
      rw [if_pos (by omega), if_pos hhigh, haddr, if_neg (by omega)]
    · rw [if_neg (by omega), if_neg hlow, if_neg hhigh]

theorem copy_copy_back (hnk : n + k ≤ 2 ^ 32)
    (hread : ∀ j < n, k ≤ (src + .ofNat j - (dst + .ofNat n)).toNat) :
    copy (copy m (dst + .ofNat n) (src + .ofNat n) k) dst src n = copy m dst src (n + k) := by
  funext x
  have hx := (x - dst).toNat_lt
  have hdist := toNat_sub_add x dst n
  have haddr := add_sub_add x dst src (.ofNat n)
  unfold copy
  by_cases hlow : (x - dst).toNat < n
  · have hlater := hread (x - dst).toNat hlow
    rw [UInt32.ofNat_toNat] at hlater
    rw [if_pos hlow, if_neg (by omega), if_pos (by omega)]
  · by_cases hhigh : (x - dst).toNat < n + k
    · rw [if_neg hlow, if_pos (by omega), if_pos hhigh, haddr]
    · rw [if_neg hlow, if_neg (by omega), if_neg hhigh]

/-! ### Bytes and words -/

theorem storeByte_eq_fill : storeByte m a c = fill m a 1 c := by
  funext x
  unfold storeByte fill
  simp only [eq_iff_toNat_sub, Nat.lt_one_iff]

theorem storeByte_eq_copy : storeByte m dst (m src) = copy m dst src 1 := by
  funext x
  unfold storeByte copy
  simp only [Nat.lt_one_iff, ← eq_iff_toNat_sub]
  split
  · next he => rw [he, UInt32.sub_self, UInt32.add_zero]
  · rfl

theorem div_mod_repeated : ∀ (c : Fin 256) (i : Fin 4),
    (c.val + 256 * c.val + 256 ^ 2 * c.val + 256 ^ 3 * c.val) / 256 ^ i.val % 256 = c.val := by
  decide +kernel

theorem storeWord_eq_fill {v : UInt32}
    (hv : v.toNat = c.toNat + 256 * c.toNat + 256 ^ 2 * c.toNat + 256 ^ 3 * c.toNat) :
    storeWord m a v = fill m a 4 c := by
  funext x
  unfold storeWord fill
  split
  · next hlt =>
    rw [← UInt8.toNat_inj, UInt8.toNat_ofNat', hv]
    exact div_mod_repeated ⟨c.toNat, c.toNat_lt⟩ ⟨_, hlt⟩
  · rfl

/-- **A word that is copied.** -/
theorem storeWord_loadWord : storeWord m dst (loadWord m src) = copy m dst src 4 := by
  funext x
  unfold storeWord copy loadWord
  split
  · next hlt =>
    have h0 := (m src).toNat_lt
    have h1 := (m (src + 1)).toNat_lt
    have h2 := (m (src + 2)).toNat_lt
    have h3 := (m (src + 3)).toNat_lt
    have hx : src + (x - dst) = src + .ofNat (x - dst).toNat := by rw [UInt32.ofNat_toNat]
    rw [← UInt8.toNat_inj, UInt8.toNat_ofNat', UInt32.toNat_ofNat', hx]
    generalize (x - dst).toNat = i at hlt
    interval_cases i
    · rw [show src + UInt32.ofNat 0 = src from UInt32.add_zero src]
      omega
    · show _ = (m (src + 1)).toNat
      omega
    · show _ = (m (src + 2)).toNat
      omega
    · show _ = (m (src + 3)).toNat
      omega
  · rfl

/-! ### Loops -/

section

variable {σ : Type}

/-- `while (len >= k) { step; len -= k; }`, where the step can see `len`. -/
def countDown (k : UInt32) (hk : 0 < k) (step : UInt32 → σ → σ) (len : UInt32) (s : σ) :
    σ × UInt32 :=
  if k ≤ len then countDown k hk step (len - k) (step len s) else (s, len)
termination_by len.toNat
decreasing_by
  rename_i h
  rw [UInt32.lt_iff_toNat_lt] at hk
  rw [UInt32.le_iff_toNat_le] at h
  rw [UInt32.toNat_sub_of_le _ _ (UInt32.le_iff_toNat_le.2 h)]
  have : (0 : UInt32).toNat = 0 := rfl
  omega

/-- **What each step keeps**: `P i s` says what holds when `i` bytes are done and `total - i` are
left to count. -/
theorem countDown_induct {k : UInt32} (hk : 0 < k) {step : UInt32 → σ → σ} {total : ℕ}
    {P : ℕ → σ → Prop}
    (hstep : ∀ (i : ℕ) (len : UInt32) (s : σ), i + len.toNat = total → k ≤ len → P i s →
      P (i + k.toNat) (step len s))
    {i : ℕ} {len : UInt32} {s : σ} (hlen : i + len.toNat = total) (hs : P i s) :
    ∃ j, j + (countDown k hk step len s).2.toNat = total ∧ P j (countDown k hk step len s).1 ∧
      (countDown k hk step len s).2 < k := by
  induction hn : len.toNat using Nat.strong_induction_on generalizing i len s with
  | _ n ih =>
    unfold countDown
    split
    · next hle =>
      have hsub := UInt32.toNat_sub_of_le len k hle
      have hpos := UInt32.lt_iff_toNat_lt.1 hk
      have hle' := UInt32.le_iff_toNat_le.1 hle
      have hzero : (0 : UInt32).toNat = 0 := rfl
      have hlen' : i + k.toNat + (len - k).toNat = total := by omega
      exact ih _ (by omega) hlen' (hstep i len s hlen hle hs) rfl
    · next hlt => exact ⟨i, hlen, hs, UInt32.not_le.1 hlt⟩

theorem countDown_one (hk : 0 < (1 : UInt32)) {step : UInt32 → σ → σ} {total : ℕ}
    {P : ℕ → σ → Prop}
    (hstep : ∀ (i : ℕ) (len : UInt32) (s : σ), i + len.toNat = total → 1 ≤ len → P i s →
      P (i + 1) (step len s))
    {i : ℕ} {len : UInt32} {s : σ} (hlen : i + len.toNat = total) (hs : P i s) :
    P total (countDown 1 hk step len s).1 := by
  obtain ⟨j, hj, hP, hlt⟩ := countDown_induct hk hstep hlen hs
  rw [UInt32.lt_iff_toNat_lt] at hlt
  have hone : (1 : UInt32).toNat = 1 := rfl
  have hall : j = total := by omega
  exact hall ▸ hP

end

end WrapMemory
