import McCortexM3.Drivers.BxCanPlaces

/-!
# The handles of the bxCAN filters

A handle below 31 is found in `alocmask` at its own bit; `hdr % 0x1F` is another bit for the handles
from 31 on.  In the driver's configuration a bank is for one case of filters, and each handle has a
place of its own.

## Main definitions

* `HandleAt` — the bank and the place of a handle below 31.

## Main results

* `HandleAt.eq_of_bank` — a bank is for one case, and a place for one handle.
* `bit_set_or`, `bit_set_and` — the bit of a handle below 31 is set and cleared alone.
* `findLoop_some`, `findLoop_none`, `bxcanallocfilter_spec` — what the loops find.
-/

set_option linter.all false

namespace RtThread

open List BxCan

/-! ### The driver's banks -/

variable {cl : Bool} {k k' : FilterCase} {h h' : ℕ} {p p' : ℕ × ℕ}

/-- A handle of a case, with its bank and place. -/
structure HandleAt (c : BxCanConfig) (k : FilterCase) (h : ℕ) (p : ℕ × ℕ) : Prop where
  lt : h < 31
  mask : bit (c.filtermask k) h = true
  place : c.bxcancalcbaseoff h = some p

theorem handles_id16bit (cl : Bool) : ∀ h < 31,
    bit ((bxcanData cl).filtermask .id16bit) h = true →
      (2 ≤ h ∧ h < 26 ∧ (bxcanData cl).bxcancalcbaseoff h = some (1 + (h - 2) / 4, (h - 2) % 4)) ∨
      (h = 30 ∧ (bxcanData cl).bxcancalcbaseoff h = some (8, 0)) := by
  cases cl <;> decide +kernel

theorem handles_id16mask (cl : Bool) : ∀ h < 31,
    bit ((bxcanData cl).filtermask .id16mask) h = true →
      (h < 2 ∧ (bxcanData cl).bxcancalcbaseoff h = some (0, h)) ∨
      (28 ≤ h ∧ h < 30 ∧ (bxcanData cl).bxcancalcbaseoff h = some (7, h - 28)) := by
  cases cl <;> decide +kernel

theorem no_handles_id32 (cl : Bool) : ∀ h < 31,
    bit ((bxcanData cl).filtermask .id32bit) h = false ∧
      bit ((bxcanData cl).filtermask .id32mask) h = false := by
  cases cl <;> decide +kernel

theorem handles_below (hlt : h < 31) (hmask : bit ((bxcanData cl).filtermask k) h = true) :
    (k = .id16bit ∧ 2 ≤ h ∧ h < 26 ∧
      (bxcanData cl).bxcancalcbaseoff h = some (1 + (h - 2) / 4, (h - 2) % 4)) ∨
    (k = .id16bit ∧ h = 30 ∧ (bxcanData cl).bxcancalcbaseoff h = some (8, 0)) ∨
    (k = .id16mask ∧ h < 2 ∧ (bxcanData cl).bxcancalcbaseoff h = some (0, h)) ∨
    (k = .id16mask ∧ 28 ≤ h ∧ h < 30 ∧ (bxcanData cl).bxcancalcbaseoff h = some (7, h - 28)) := by
  cases k with
  | id16bit =>
    rcases handles_id16bit cl h hlt hmask with hp | hp
    · exact .inl ⟨rfl, hp⟩
    · exact .inr (.inl ⟨rfl, hp⟩)
  | id16mask =>
    rcases handles_id16mask cl h hlt hmask with hp | hp
    · exact .inr (.inr (.inl ⟨rfl, hp⟩))
    · exact .inr (.inr (.inr ⟨rfl, hp⟩))
  | id32bit => exact absurd ((no_handles_id32 cl h hlt).1.symm.trans hmask) (by decide)
  | id32mask => exact absurd ((no_handles_id32 cl h hlt).2.symm.trans hmask) (by decide)

theorem exists_handleAt (hlt : h < 31) (hmask : bit ((bxcanData cl).filtermask k) h = true) :
    ∃ p, HandleAt (bxcanData cl) k h p ∧ p.2 < k.places := by
  rcases handles_below hlt hmask with
    ⟨rfl, h₁, h₂, hp⟩ | ⟨rfl, rfl, hp⟩ | ⟨rfl, h₁, hp⟩ | ⟨rfl, h₁, h₂, hp⟩
  · exact ⟨_, ⟨hlt, hmask, hp⟩, Nat.mod_lt _ (by decide)⟩
  · exact ⟨_, ⟨hlt, hmask, hp⟩, by decide⟩
  · exact ⟨_, ⟨hlt, hmask, hp⟩, h₁⟩
  · exact ⟨_, ⟨hlt, hmask, hp⟩, by dsimp only [FilterCase.places]; omega⟩

theorem HandleAt.lt_places (hp : HandleAt (bxcanData cl) k h p) : p.2 < k.places := by
  obtain ⟨p', hp', hlt⟩ := exists_handleAt hp.lt hp.mask
  have heq := hp'.place
  rw [hp.place] at heq
  cases heq
  exact hlt

theorem HandleAt.eq_of_bank (hp : HandleAt (bxcanData cl) k h p)
    (hp' : HandleAt (bxcanData cl) k' h' p') (hbank : p.1 = p'.1) :
    k = k' ∧ (p.2 = p'.2 → h = h') := by
  rcases handles_below hp.lt hp.mask with
    ⟨rfl, h₁, h₂, hq⟩ | ⟨rfl, rfl, hq⟩ | ⟨rfl, h₁, hq⟩ | ⟨rfl, h₁, h₂, hq⟩ <;>
  rcases handles_below hp'.lt hp'.mask with
    ⟨rfl, h₁', h₂', hq'⟩ | ⟨rfl, rfl, hq'⟩ | ⟨rfl, h₁', hq'⟩ | ⟨rfl, h₁', h₂', hq'⟩
  all_goals
    rw [hp.place] at hq
    rw [hp'.place] at hq'
    cases hq
    cases hq'
    dsimp only at hbank ⊢
    first
      | exact ⟨rfl, fun hoff => by omega⟩
      | exact absurd hbank (by omega)

/-! ### Words -/

variable {words : List (BitVec 32)}

/-- Only the bit of `h` changes when its word is written with the other bits kept. -/
theorem bit_set (hlen : 0 < words.length) (hlt : h < 31) {w : BitVec 32}
    (hw : ∀ i < 32, i ≠ h → w.getLsbD i = (words.getD 0 0).getLsbD i) (j : ℕ) :
    bit (words.set 0 w) j = if j = h then w.getLsbD h else bit words j := by
  rw [bit, bit]
  by_cases hj : j / 32 = 0
  · have hjmod : j % 32 = j := by omega
    rw [hj, hjmod, getD_eq_getElem?_getD, getElem?_set_self hlen, Option.getD_some]
    split
    · next heq => rw [heq]
    · next hne => exact hw j (by omega) hne
  · rw [if_neg (by omega), getD_eq_getElem?_getD, getElem?_set_ne (by omega),
      ← getD_eq_getElem?_getD]

theorem bit_set_or (hlen : 0 < words.length) (hlt : h < 31) (j : ℕ) :
    bit (words.set (h / 32) (words.getD (h / 32) 0 ||| 1#32 <<< (h % 0x1F))) j =
      (bit words j || decide (j = h)) := by
  have h32 : h < 32 := by omega
  rw [Nat.div_eq_of_lt h32, Nat.mod_eq_of_lt hlt, ← BitVec.twoPow_eq, bit_set hlen hlt]
  · split <;> simp [*]
  · intro i _ hi
    simp [hi.symm]

theorem bit_set_and (hlen : 0 < words.length) (hlt : h < 31) (j : ℕ) :
    bit (words.set (h / 32) (words.getD (h / 32) 0 &&& ~~~(1#32 <<< (h % 0x1F)))) j =
      (bit words j && decide (j ≠ h)) := by
  have h32 : h < 32 := by omega
  rw [Nat.div_eq_of_lt h32, Nat.mod_eq_of_lt hlt, ← BitVec.twoPow_eq, bit_set hlen hlt]
  · split <;> simp [*]
  · intro i hi32 hi
    simp [hi, hi.symm, hi32]

/-! ### Loops -/

variable {c : BxCanConfig} {s : BxCan} {f : CanFilter} {is : List ℕ} {place : ℕ × ℕ}

theorem findLoop_some (hfind : s.findLoop c f is place = (some h, p)) :
    bit (c.filtermask f.fcase) h = true ∧ bit s.alocmask h = true ∧
      (∀ q, c.bxcancalcbaseoff h = some q → p = q) ∧ f.Matches (s.filterRegister p.1) p.2 := by
  induction is generalizing place with
  | nil =>
    unfold findLoop at hfind
    simp at hfind
  | cons i is ih =>
    unfold findLoop at hfind
    split at hfind
    · next hbits =>
      dsimp only at hfind
      split at hfind
      · next hmatch =>
        obtain ⟨h₁, rfl⟩ := Prod.mk.inj hfind
        cases h₁
        refine ⟨hbits.1, hbits.2, fun q hq => ?_, hmatch⟩
        rw [hq, Option.getD_some]
      · exact ih hfind
    · exact ih hfind

theorem findLoop_none (hfind : s.findLoop c f is place = (none, p)) (hmem : h ∈ is)
    (hmask : bit (c.filtermask f.fcase) h = true) (hbit : bit s.alocmask h = true) {q : ℕ × ℕ}
    (hq : c.bxcancalcbaseoff h = some q) : ¬ f.Matches (s.filterRegister q.1) q.2 := by
  induction is generalizing place with
  | nil => exact absurd hmem not_mem_nil
  | cons i is ih =>
    unfold findLoop at hfind
    rcases mem_cons.1 hmem with rfl | hmem
    · rw [if_pos ⟨hmask, hbit⟩, hq, Option.getD_some] at hfind
      intro hmatch
      rw [if_pos hmatch] at hfind
      exact absurd (Prod.mk.inj hfind).1 (by simp)
    · split at hfind
      · dsimp only at hfind
        split at hfind
        · exact absurd (Prod.mk.inj hfind).1 (by simp)
        · exact ih hfind hmem
      · exact ih hfind hmem

variable {pmask palocmask words' : List (BitVec 32)} {count : ℕ}

theorem getLsbD_free (i j : ℕ) (hj : j < 32) :
    (pmask.getD i 0 &&& ~~~palocmask.getD i 0).getLsbD j =
      (bit pmask (j + i * 32) && !bit palocmask (j + i * 32)) := by
  have hdiv : (j + i * 32) / 32 = i := by omega
  have hmod : (j + i * 32) % 32 = j := by omega
  rw [bit, bit, hdiv, hmod]
  simp [hj]

theorem bxcanallocfilter_spec (halloc : bxcanallocfilter pmask palocmask count = (some h, words')) :
    h < 32 * count ∧ bit pmask h = true ∧ bit palocmask h = false ∧
      (∀ j < h, bit pmask j = true → bit palocmask j = true) ∧
      words' = palocmask.set (h / 32) (palocmask.getD (h / 32) 0 ||| 1#32 <<< (h % 0x1F)) := by
  unfold bxcanallocfilter at halloc
  split at halloc
  · next i hfind =>
    obtain ⟨h₁, h₂⟩ := Prod.mk.inj halloc
    have h₁ := Option.some.inj h₁
    obtain ⟨hne, hmem, hbefore⟩ := find?_range_eq_some.1 hfind
    obtain ⟨-, hset, hlow⟩ := rtFfs_spec (v := pmask.getD i 0 &&& ~~~palocmask.getD i 0)
      (of_decide_eq_true hne)
    have hlt : rtFfs (pmask.getD i 0 &&& ~~~palocmask.getD i 0) - 1 < 32 :=
      LowestBit.lt ⟨hset, hlow⟩
    generalize rtFfs (pmask.getD i 0 &&& ~~~palocmask.getD i 0) - 1 = n at *
    rw [getLsbD_free i n hlt, h₁, Bool.and_eq_true, Bool.not_eq_true'] at hset
    have hdiv : h / 32 = i := by omega
    have hi := mem_range.1 hmem
    refine ⟨by omega, hset.1, hset.2, fun j hj hmask => ?_, by rw [hdiv, ← h₂, h₁]⟩
    by_contra hfree
    have hj32 : j % 32 < 32 := Nat.mod_lt _ (by decide)
    have hjoin : j % 32 + j / 32 * 32 = j := by omega
    have hbit : (pmask.getD (j / 32) 0 &&& ~~~palocmask.getD (j / 32) 0).getLsbD (j % 32) =
        true := by
      rw [getLsbD_free _ _ hj32, hjoin, hmask]
      simpa using hfree
    by_cases hword : j / 32 = i
    · -- in the same word, `rt_ffs` gives the first one
      have hlow := hlow (j % 32) (by omega)
      rw [← hword, hbit] at hlow
      exact absurd hlow (by decide)
    · -- an earlier word has been passed over
      have hzero := hbefore (j / 32) (by omega)
      have hzero : pmask.getD (j / 32) 0 &&& ~~~palocmask.getD (j / 32) 0 = 0 := by
        simpa using hzero
      rw [hzero] at hbit
      exact absurd hbit (by simp)
  · exact absurd (Prod.mk.inj halloc).1 (by simp)

end RtThread
