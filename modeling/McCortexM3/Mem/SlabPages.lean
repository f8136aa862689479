import McCortexM3.Mem.Slab

/-!
# Sizes and pages of the slab heap

The size of the chunks of a zone depends on the index only, and a zone has room for more than one of
them.  Pages that are taken were on the list of free pages, and pages that are given back are.

## Main results

* `zoneindex_snd` — the size is the one for the index.
* `SlabConfig.sizeOk_zoneindex` — below the limit, four chunks fit into a zone.
* `cover_rtPageAlloc`, `cover_rtPageFree` — what the list of free pages covers.
-/

set_option linter.all false

namespace RtThread

open Nat

/-! ### Sizes -/

theorem le_roundUp (n : ℕ) {k : ℕ} (hk : 0 < k) : n ≤ roundUp n k := by
  unfold roundUp
  have h := lt_div_mul_add (a := n + (k - 1)) hk
  omega

theorem roundUp_le (n k : ℕ) : roundUp n k ≤ n + (k - 1) := div_mul_le_self _ _

theorem toNat_pos {size : UInt32} (h0 : size ≠ 0) : 0 < size.toNat :=
  Nat.pos_of_ne_zero fun h => h0 (UInt32.toNat_inj.1 h)

/-- The size of the chunks for an index. -/
def indexSize (zi : ℕ) : ℕ :=
  if zi < 16 then 8 * (zi + 1)
  else if zi < 24 then 16 * (zi - 7)
  else if zi < 32 then 32 * (zi - 15)
  else if zi < 40 then 64 * (zi - 23)
  else if zi < 48 then 128 * (zi - 31)
  else if zi < 56 then 256 * (zi - 39)
  else if zi < 64 then 512 * (zi - 47)
  else 1024 * (zi - 55)

theorem indexSize_step {n k base : ℕ} (hk : 0 < k) (hlo : 8 * k ≤ n) (hhi : n ≤ 16 * k)
    (h : ∀ i < 9, indexSize (8 + i + base) = (8 + i) * k) :
    roundUp n k = indexSize (roundUp n k / k + base) := by
  have hm : roundUp n k / k = (n + (k - 1)) / k := Nat.mul_div_cancel _ hk
  have hle : (n + (k - 1)) / k ≤ 16 :=
    Nat.le_of_lt_succ ((Nat.div_lt_iff_lt_mul hk).2 (by omega))
  have hge : 8 ≤ (n + (k - 1)) / k := (Nat.le_div_iff_mul_le hk).2 (by omega)
  obtain ⟨i, hi⟩ := Nat.exists_eq_add_of_le hge
  rw [hm, hi, h i (by omega), ← hi]
  rfl

/-- Sizes are rounded up to a multiple of eight, from 128 on to one of the step of their range. -/
theorem zoneindex_cases {n : ℕ} (h : n < 16384) :
    n < 128 ∧ zoneindex n = (roundUp n 8 / 8 - 1, roundUp n 8) ∨
      ∃ k base, 8 * k ≤ n ∧ n ≤ 16 * k ∧ 8 ≤ k ∧ k ∣ 8 * 1024 ∧
        (∀ i < 9, indexSize (8 + i + base) = (8 + i) * k) ∧
        zoneindex n = (roundUp n k / k + base, roundUp n k) := by
  unfold zoneindex
  by_cases h1 : n < 128
  · exact .inl ⟨h1, if_pos h1⟩
  rw [if_neg h1]
  refine .inr ?_
  by_cases h2 : n < 256
  · exact ⟨16, 7, by omega, by omega, by decide, by decide, by decide, if_pos h2⟩
  rw [if_neg h2]
  by_cases h3 : n < 8192
  · rw [if_pos h3]
    by_cases h4 : n < 512
    · exact ⟨32, 15, by omega, by omega, by decide, by decide, by decide, if_pos h4⟩
    rw [if_neg h4]
    by_cases h5 : n < 1024
    · exact ⟨64, 23, by omega, by omega, by decide, by decide, by decide, if_pos h5⟩
    rw [if_neg h5]
    by_cases h6 : n < 2048
    · exact ⟨128, 31, by omega, by omega, by decide, by decide, by decide, if_pos h6⟩
    rw [if_neg h6]
    by_cases h7 : n < 4096
    · exact ⟨256, 39, by omega, by omega, by decide, by decide, by decide, if_pos h7⟩
    · exact ⟨512, 47, by omega, by omega, by decide, by decide, by decide, if_neg h7⟩
  · exact ⟨1024, 55, by omega, by omega, by decide, by decide, by decide,
      (if_neg h3).trans (if_pos h)⟩

theorem zoneindex_snd {n : ℕ} (h0 : 0 < n) (h : n < 16384) :
    (zoneindex n).2 = indexSize (zoneindex n).1 := by
  rcases zoneindex_cases h with ⟨hlt, he⟩ | ⟨k, base, hlo, hhi, hk, -, hstep, he⟩
  · have hm : roundUp n 8 / 8 = (n + 7) / 8 := Nat.mul_div_cancel _ (by decide)
    have hsize : indexSize ((n + 7) / 8 - 1) = (n + 7) / 8 * 8 := by
      unfold indexSize
      rw [if_pos (by omega)]
      omega
    rw [he, hm, hsize]
    rfl
  · rw [he]
    exact indexSize_step (by omega) hlo hhi hstep

theorem exists_roundUp_zoneindex {n : ℕ} (h : n < 16384) :
    ∃ k, 8 ≤ k ∧ k ∣ 8 * 1024 ∧ (zoneindex n).2 = roundUp n k := by
  rcases zoneindex_cases h with ⟨-, he⟩ | ⟨k, base, -, -, hk, hdvd, -, he⟩
  · exact ⟨8, by decide, by decide, by rw [he]⟩
  · exact ⟨k, hk, hdvd, by rw [he]⟩

theorem zoneindex_pos {n : ℕ} (h0 : 0 < n) : 0 < (zoneindex n).2 := by
  by_cases h : n < 16384
  · obtain ⟨k, hk, -, hround⟩ := exists_roundUp_zoneindex h
    rw [hround]
    exact Nat.lt_of_lt_of_le h0 (le_roundUp n (Nat.lt_of_lt_of_le (by decide) hk))
  · unfold zoneindex
    rw [if_neg (by omega), if_neg (by omega), if_neg (by omega), if_neg h]
    exact h0

theorem roundUp_le_of_dvd {n k m : ℕ} (hk : 0 < k) (hdvd : k ∣ m) (h : n ≤ m) :
    roundUp n k ≤ m := by
  obtain ⟨q, rfl⟩ := hdvd
  have hdiv : (n + (k - 1)) / k ≤ q := by
    refine le_of_lt_succ ((Nat.div_lt_iff_lt_mul hk).2 ?_)
    rw [succ_mul, Nat.mul_comm q]
    omega
  unfold roundUp
  rw [Nat.mul_comm k]
  exact Nat.mul_le_mul_right k hdiv

namespace SlabConfig

variable (c : SlabConfig)

theorem zoneSize_cases :
    c.zoneSize = 8 * rtMmPageSize ∨ c.zoneSize = 16 * rtMmPageSize ∨
      c.zoneSize = 32 * rtMmPageSize := by
  unfold zoneSize
  dsimp only
  split_ifs
  · exact .inr (.inr rfl)
  · exact .inr (.inl rfl)
  · exact .inl rfl

theorem zonePageCnt_mul : c.zonePageCnt * rtMmPageSize = c.zoneSize := by
  unfold zonePageCnt
  rcases c.zoneSize_cases with h | h | h <;> rw [h] <;> rfl

theorem zonePageCnt_pos : 0 < c.zonePageCnt := by
  unfold zonePageCnt
  rcases c.zoneSize_cases with h | h | h <;> rw [h] <;> decide

theorem zoneLimit_cases :
    (c.zoneLimit = 8 * 1024 ∧ c.zoneSize = 32 * 1024) ∨
      (c.zoneLimit = 16 * 1024 ∧ 64 * 1024 ≤ c.zoneSize) := by
  unfold zoneLimit
  rcases c.zoneSize_cases with h | h | h <;> rw [h] <;> decide

/-- The chunks of a zone are of the size for its index, and there is room for some of them. -/
structure SizeOk (size zi : ℕ) : Prop where
  index : size = indexSize zi
  pos : 8 ≤ size
  room : 4 * size ≤ c.zoneSize

theorem sizeOk_zoneindex {n : ℕ} (h0 : 0 < n) (h : n < c.zoneLimit) :
    c.SizeOk (zoneindex n).2 (zoneindex n).1 := by
  have hlim := c.zoneLimit_cases
  obtain ⟨k, hk, hdvd, hround⟩ := exists_roundUp_zoneindex (n := n) (by omega)
  have hk0 : 0 < k := Nat.lt_of_lt_of_le (by decide) hk
  refine ⟨zoneindex_snd h0 (by omega), ?_, ?_⟩
  · have hone : 1 ≤ (n + (k - 1)) / k := (Nat.le_div_iff_mul_le hk0).2 (by omega)
    rw [hround]
    calc 8 ≤ 1 * k := by omega
      _ ≤ roundUp n k := Nat.mul_le_mul_right k hone
  · have hle : roundUp n k ≤ c.zoneLimit := by
      refine roundUp_le_of_dvd hk0 ?_ (Nat.le_of_lt h)
      rcases hlim with ⟨hl, -⟩ | ⟨hl, -⟩ <;> rw [hl]
      · exact hdvd
      · exact Nat.dvd_trans hdvd (by decide)
    rw [hround]
    omega

end SlabConfig

theorem le_chunkOffset {size : ℕ} (h : 0 < size) : sizeofSlabZone ≤ chunkOffset size := by
  unfold chunkOffset
  split
  · exact le_roundUp _ h
  · exact le_roundUp _ (by decide)

theorem chunkOffset_le {size : ℕ} (h : 0 < size) : chunkOffset size ≤ 40 + size := by
  unfold chunkOffset
  split
  · have hle := roundUp_le sizeofSlabZone size
    have hheader : sizeofSlabZone = 36 := rfl
    omega
  · exact Nat.le_add_right 40 size

/-! ### The pages -/

theorem cover_pageAlloc {n page : ℕ} {l : List PlaceRun} (h : (pageAlloc n l).1 = some page)
    (p : ℕ) : cover (⟨page, n⟩ :: (pageAlloc n l).2) p = cover l p := by
  induction l with
  | nil => cases h
  | cons b l ih =>
    unfold pageAlloc at h ⊢
    split at h
    case isTrue hgt =>
      rw [if_pos hgt]
      cases h
      have hsplit := cover_split b.first n (b.count - n) p l
      rw [Nat.add_sub_cancel' (Nat.le_of_lt hgt)] at hsplit
      exact hsplit.symm
    case isFalse hgt =>
      rw [if_neg hgt]
      split at h
      case isTrue heq =>
        rw [if_pos heq]
        cases h
        rw [← heq]
      case isFalse heq =>
        rw [if_neg heq]
        have hrest := ih h
        rw [cover_cons] at hrest
        rw [cover_cons, cover_cons b, cover_cons b, ← hrest]
        omega

theorem cover_rtPageAlloc {n page : ℕ} {l : List PlaceRun}
    (h : (rtPageAlloc n l).1 = some page) :
    0 < n ∧ ∀ p, cover (⟨page, n⟩ :: (rtPageAlloc n l).2) p = cover l p := by
  unfold rtPageAlloc at h ⊢
  split at h
  case isTrue => cases h
  case isFalse hn =>
    rw [if_neg hn]
    exact ⟨Nat.pos_of_ne_zero hn, cover_pageAlloc h⟩

theorem cover_rtPageFree (n k : ℕ) (l : List PlaceRun) (p : ℕ) :
    cover (rtPageFree n k l) p = cover (⟨n, k⟩ :: l) p := by
  induction l with
  | nil => rfl
  | cons b l ih =>
    unfold rtPageFree
    have hswap := cover_perm (List.Perm.swap b ⟨n, k⟩ l) p
    split
    case isTrue hend =>
      have hjoin := cover_split b.first b.count k p
      rw [← hend] at hswap ⊢
      refine Eq.trans ?_ hswap.symm
      cases l with
      | nil => exact hjoin []
      | cons b' l' =>
        dsimp only
        split
        case isTrue hnext =>
          have hjoin' := cover_split b.first (b.count + k) b'.count p l'
          rw [hnext] at hjoin'
          exact hjoin'.trans (hjoin (b' :: l'))
        case isFalse => exact hjoin (b' :: l')
    case isFalse hend =>
      split
      case isTrue hfront =>
        have hjoin := cover_split n k b.count p l
        rw [← hfront, Nat.add_comm k] at hjoin
        exact hjoin
      case isFalse hfront =>
        split
        case isTrue => rfl
        case isFalse =>
          rw [hswap, cover_cons b, ih, cover_cons b]

end RtThread
