import McCortexM3.ByteMemory

/-!
# Texts in arrays of bytes

An array of `size` bytes holds a text when the text and then zeros are its bytes.  Characters are
inserted and erased by moving those behind them.

## Main definitions

* `Holds size m l` — the array `m` holds the text `l`.
* `strlen size m` — the length of the text, if a zero ends it in the array.
* `commonPrefix` — what two texts begin with.

## Main results

* `Holds.insert`, `Holds.erase` — a character is inserted, or erased.
* `Holds.ext` — arrays with the same bytes hold the same text.
* `isPrefix_foldl_commonPrefix` — the longest text that all texts of a list begin with.
-/

set_option linter.all false

namespace TextBuffer

open Function Option List ByteMemory

/-- The text `l` and then zeros are in the first `size` bytes of `m`. -/
structure Holds (size : ℕ) (m : ℕ → UInt8) (l : List UInt8) : Prop where
  fits : l.length < size
  nonzero : (0 : UInt8) ∉ l
  bytes : ∀ i < size, m i = l.getD i 0

/-- The place of the first zero in the first `size` bytes. -/
def strlen (size : ℕ) (m : ℕ → UInt8) : Option ℕ := (List.range size).find? fun i => m i = 0

/-- The bytes before the first zero. -/
def text (size : ℕ) (m : ℕ → UInt8) : Option (List UInt8) :=
  (strlen size m).map fun n => (List.range n).map m

variable {size c i n : ℕ} {m m' : ℕ → UInt8} {l l' : List UInt8} {b : UInt8}

/-! ### Texts by their bytes -/

theorem getD_of_lt (h : i < l.length) : l.getD i 0 = l[i] := by
  rw [getD_eq_getElem?_getD, getElem?_eq_getElem h, getD_some]

theorem getD_of_le (h : l.length ≤ i) : l.getD i 0 = 0 := by
  rw [getD_eq_getElem?_getD, getElem?_eq_none h, getD_none]

theorem getD_ne_zero (hl : (0 : UInt8) ∉ l) (h : i < l.length) : l.getD i 0 ≠ 0 := by
  rw [getD_of_lt h]
  intro hzero
  exact hl (hzero ▸ getElem_mem h)

theorem getD_insertIdx (hc : c ≤ l.length) :
    (l.insertIdx c b).getD i 0 =
      if i < c then l.getD i 0 else if i = c then b else l.getD (i - 1) 0 := by
  simp only [getD_eq_getElem?_getD, getElem?_insertIdx]
  split
  · rfl
  · split
    · next hic => rw [if_pos (by omega), getD_some]
    · rfl

theorem getD_eraseIdx :
    (l.eraseIdx c).getD i 0 = if i < c then l.getD i 0 else l.getD (i + 1) 0 := by
  simp only [getD_eq_getElem?_getD, getElem?_eraseIdx]
  split <;> rfl

theorem getD_take_append {k : ℕ} (hk : k ≤ l.length) :
    (l.take k ++ l').getD i 0 = if i < k then l.getD i 0 else l'.getD (i - k) 0 := by
  have hlen : (l.take k).length = k := length_take_of_le hk
  simp only [getD_eq_getElem?_getD, getElem?_append, hlen]
  split
  · next hi => rw [getElem?_take_of_lt hi]
  · rfl

namespace Holds

theorem nil (hsize : 0 < size) (h : ∀ i < size, m i = 0) : Holds size m [] :=
  ⟨hsize, not_mem_nil, fun i hi => (h i hi).trans (getD_of_le (Nat.zero_le i)).symm⟩

section

variable (h : Holds size m l)
include h

theorem congr (hm : ∀ i < size, m' i = m i) : Holds size m' l :=
  ⟨h.fits, h.nonzero, fun i hi => (hm i hi).trans (h.bytes i hi)⟩

theorem strlen_eq : strlen size m = some l.length := by
  rw [strlen, find?_range_eq_some]
  refine ⟨?_, mem_range.mpr h.fits, ?_⟩
  · rw [h.bytes _ h.fits, getD_of_le le_rfl]
    rfl
  · intro i hi
    have hne := getD_ne_zero h.nonzero hi
    rw [← h.bytes i (by have := h.fits; omega)] at hne
    simpa using hne

theorem map_range : (List.range l.length).map m = l := by
  apply ext_getElem
  · rw [length_map, length_range]
  · intro i hi hi'
    rw [getElem_map, getElem_range, h.bytes i (by have := h.fits; omega), getD_of_lt hi']

theorem text_eq : text size m = some l := by
  rw [text, h.strlen_eq, map_some, h.map_range]

theorem ext (h' : Holds size m' l') (heq : ∀ i < size, m i = m' i) : l = l' := by
  have htext := (h'.congr heq).text_eq
  rw [h.text_eq] at htext
  exact some.inj htext

/-- A character is inserted at `c`. -/
theorem insert (hc : c ≤ l.length) (hfits : l.length + 1 < size) (hb : b ≠ 0) :
    Holds size (Function.update (copy m (c + 1) c (l.length - c)) c b) (l.insertIdx c b) := by
  refine ⟨?_, ?_, fun i hi => ?_⟩
  · rw [length_insertIdx_of_le_length hc]
    exact hfits
  · rw [mem_insertIdx hc]
    rintro (hzero | hmem)
    · exact hb hzero.symm
    · exact h.nonzero hmem
  · rw [getD_insertIdx hc]
    by_cases hic : i = c
    · rw [hic, update_self, if_neg (lt_irrefl c), if_pos rfl]
    · rw [update_of_ne hic, copy, if_neg hic]
      split
      · rw [if_neg (by omega), h.bytes _ (by omega)]
        congr 1
        omega
      · split
        · exact h.bytes i hi
        · -- behind the text there are zeros before and after
          rw [h.bytes i hi, getD_of_le (by omega), getD_of_le (by omega)]

/-- The character at `c` is erased. -/
theorem erase (hc : c < l.length) :
    Holds size (Function.update (copy m c (c + 1) (l.length - 1 - c)) (l.length - 1) 0)
      (l.eraseIdx c) := by
  have hfits := h.fits
  refine ⟨?_, fun hmem => h.nonzero (mem_of_mem_eraseIdx hmem), fun i hi => ?_⟩
  · rw [length_eraseIdx_of_lt hc]
    omega
  · rw [getD_eraseIdx]
    by_cases hlast : i = l.length - 1
    · rw [hlast, update_self, if_neg (by omega), getD_of_le (by omega)]
    · rw [update_of_ne hlast, copy]
      split
      · rw [if_neg (by omega), h.bytes _ (by omega)]
        congr 1
        omega
      · split
        · exact h.bytes i hi
        · rw [h.bytes i hi, getD_of_le (by omega), getD_of_le (by omega)]

/-- What is behind the first `k` characters is overwritten by a text that is not shorter. -/
theorem replace {src : ℕ → UInt8} {k : ℕ} (hk : k ≤ l.length)
    (hlong : l.length ≤ k + l'.length) (hfits : k + l'.length < size) (hl' : (0 : UInt8) ∉ l')
    (hsrc : ∀ i < l'.length, src i = l'.getD i 0) :
    Holds size (copyFrom m k src l'.length) (l.take k ++ l') := by
  have hlen : (l.take k).length = k := length_take_of_le hk
  refine ⟨?_, ?_, fun i hi => ?_⟩
  · rw [length_append, hlen]
    exact hfits
  · rw [mem_append]
    rintro (hmem | hmem)
    · exact h.nonzero (mem_of_mem_take hmem)
    · exact hl' hmem
  · rw [getD_take_append hk, copyFrom]
    split
    · rw [if_neg (by omega)]
      exact hsrc _ (by omega)
    · split
      · exact h.bytes i hi
      · rw [h.bytes i hi, getD_of_le (by omega), getD_of_le (by omega)]

theorem update_zero (hi : l.length ≤ i) : Holds size (Function.update m i 0) l := by
  refine h.congr fun j hj => ?_
  by_cases hji : j = i
  · rw [hji, update_self, ← hji, h.bytes j hj, getD_of_le (by omega)]
  · exact update_of_ne hji ..

end

end Holds

/-! ### What texts begin with -/

/-- What two texts begin with. -/
def commonPrefix : List UInt8 → List UInt8 → List UInt8
  | a :: l, b :: l' => if a = b then a :: commonPrefix l l' else []
  | _, _ => []

theorem isPrefix_commonPrefix {q : List UInt8} : q <+: commonPrefix l l' ↔ q <+: l ∧ q <+: l' := by
  induction l generalizing l' q with
  | nil =>
    simp only [commonPrefix, prefix_nil, iff_self_and]
    rintro rfl
    exact nil_prefix
  | cons a l ih =>
    cases l' with
    | nil =>
      simp only [commonPrefix, prefix_nil, iff_and_self]
      rintro rfl
      exact nil_prefix
    | cons b l' =>
      cases q with
      | nil => simp only [ nil_prefix, and_self]
      | cons c q =>
        rw [commonPrefix]
        split
        · next hab =>
          subst hab
          rw [cons_prefix_cons, cons_prefix_cons, cons_prefix_cons, ih]
          grind
        · next hab =>
          rw [cons_prefix_cons, cons_prefix_cons, prefix_nil]
          constructor
          · intro h
            cases h
          · rintro ⟨⟨rfl, -⟩, rfl, -⟩
            exact absurd rfl hab

theorem isPrefix_foldl_commonPrefix {q : List UInt8} {ls : List (List UInt8)} :
    q <+: ls.foldl commonPrefix l ↔ q <+: l ∧ ∀ l' ∈ ls, q <+: l' := by
  induction ls generalizing l with
  | nil => simp
  | cons l' ls ih => rw [foldl_cons, ih, isPrefix_commonPrefix, forall_mem_cons, and_assoc]

theorem commonPrefix_take (n : ℕ) (l l' : List UInt8) :
    commonPrefix (l.take n) l' = l.take (min n (commonPrefix l l').length) := by
  induction l generalizing n l' with
  | nil => simp [commonPrefix]
  | cons a l ih =>
    cases n with
    | zero => simp [commonPrefix]
    | succ n =>
      cases l' with
      | nil => simp [commonPrefix]
      | cons b l' =>
        rw [take_succ_cons, commonPrefix, commonPrefix]
        split
        · rw [ih, length_cons, Nat.add_min_add_right, take_succ_cons]
        · simp

end TextBuffer
