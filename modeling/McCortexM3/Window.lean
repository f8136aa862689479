import Mathlib.Data.List.DropRight
import Mathlib.Data.Nat.ModEq

/-!
# Windows of a circular array

A circular array of `n` cells holds a queue in the `len` cells from `i` on, going round at
the end.  Adding and removing an element are writing the cell after the window and leaving
the first cell of it.  Where the array is full, the element that is added takes the place of the
oldest one, and the queue keeps the last `n` elements.

## Main definitions

* `window cells n i len` — the elements of the queue.
* `writeFrom cells n i src len` — some elements are written, going round at the end.

## Main results

* `window_push`, `window_pop` — the two operations.
* `window_writeFrom` — elements that overwrite the oldest ones.
-/

set_option linter.all false

open Function List Nat
open Function (update)

variable {α : Type*}

/-- The `len` elements from the cell `i` on in a circular array of `n` cells. -/
def window (cells : ℕ → α) (n i len : ℕ) : List α :=
  (List.range len).map fun k => cells ((i + k) % n)

/-- The `len` elements `src` are written from the cell `i` on in a circular array of `n` cells. -/
def writeFrom (cells : ℕ → α) (n i : ℕ) (src : ℕ → α) (len : ℕ) : ℕ → α := fun x =>
  let k := if i ≤ x then x - i else x + n - i
  if x < n ∧ k < len then src k else cells x

theorem writeFrom_zero (cells : ℕ → α) (n i : ℕ) (src : ℕ → α) :
    writeFrom cells n i src 0 = cells := by
  funext x
  exact if_neg (by omega)

theorem writeFrom_succ (cells : ℕ → α) {n i len : ℕ} (src : ℕ → α) (hi : i < n) (hlen : len < n) :
    update (writeFrom cells n i src len) (if i + len < n then i + len else i + len - n)
      (src len) = writeFrom cells n i src (len + 1) := by
  funext x
  obtain ⟨k, hk⟩ : ∃ k, k = if i ≤ x then x - i else x + n - i := ⟨_, rfl⟩
  rw [update_apply]
  simp only [writeFrom, ← hk]
  -- the cell that is written is the one at the distance `len`
  by_cases hx : x = if i + len < n then i + len else i + len - n
  · have hlast : x < n ∧ k = len := by split_ifs at hx hk <;> omega
    rw [if_pos hx, if_pos (by omega), hlast.2]
  · have hne : x < n → k ≠ len := by split_ifs at hx hk <;> omega
    rw [if_neg hx]
    split_ifs <;> first | rfl | omega

theorem add_mod_ne {n i k len : ℕ} (hk : k < len) (hlen : len < n) :
    (i + k) % n ≠ (i + len) % n := by
  intro h
  have hmod : k % n = len % n := Nat.ModEq.add_left_cancel' i h
  rw [mod_eq_of_lt (hk.trans hlen), mod_eq_of_lt hlen] at hmod
  omega

/-- **Adding an element**: the cell after the window is written. -/
theorem window_push (cells : ℕ → α) {n len : ℕ} (i : ℕ) (a : α) (hlen : len < n) :
    window (update cells ((i + len) % n) a) n i (len + 1) = window cells n i len ++ [a] := by
  have hold : window (update cells ((i + len) % n) a) n i len = window cells n i len := by
    refine map_congr_left fun k hk => update_of_ne ?_ ..
    exact add_mod_ne (mem_range.1 hk) hlen
  rw [window, List.range_succ, map_append, ← window, hold]
  simp

/-- **Removing an element**: the window begins one cell later. -/
theorem window_pop (cells : ℕ → α) (n i len : ℕ) :
    window cells n i (len + 1) = cells (i % n) :: window cells n ((i + 1) % n) len := by
  rw [window, range_succ_eq_map]
  simp only [map_cons, map_map, Nat.add_zero, window, List.cons.injEq, true_and]
  apply map_congr_left
  intro k _
  simp only [comp, mod_add_mod]
  congr 2
  omega

/-! ### Parts of a window -/

theorem window_mod (cells : ℕ → α) (n i len : ℕ) :
    window cells n (i % n) len = window cells n i len := by
  simp only [window, mod_add_mod]

@[simp] theorem length_window (cells : ℕ → α) (n i len : ℕ) :
    (window cells n i len).length = len := by
  rw [window, length_map, length_range]

theorem window_add (cells : ℕ → α) (n i len m : ℕ) :
    window cells n i (len + m) = window cells n i len ++ window cells n (i + len) m := by
  rw [window, range_add, map_append, map_map]
  congr 1
  apply map_congr_left
  intro k _
  rw [comp, Nat.add_assoc]

theorem window_take (cells : ℕ → α) (n i : ℕ) {len m : ℕ} (hm : m ≤ len) :
    (window cells n i len).take m = window cells n i m := by
  obtain ⟨k, rfl⟩ := Nat.exists_eq_add_of_le hm
  rw [window_add, List.take_left' (length_window cells n i m)]

theorem window_drop (cells : ℕ → α) (n i : ℕ) {len m : ℕ} (hm : m ≤ len) :
    (window cells n i len).drop m = window cells n (i + m) (len - m) := by
  obtain ⟨k, rfl⟩ := Nat.exists_eq_add_of_le hm
  rw [window_add, List.drop_left' (length_window cells n i m), Nat.add_sub_cancel_left]

/-! ### The last elements -/

section

variable {l : List α}

theorem rtake_of_length_le {c : ℕ} (h : l.length ≤ c) : l.rtake c = l := by
  rw [List.rtake, Nat.sub_eq_zero_of_le h, List.drop_zero]

theorem length_rtake (c : ℕ) (l : List α) : (l.rtake c).length = min c l.length := by
  rw [List.rtake, List.length_drop]
  omega

theorem getLast?_rtake {c : ℕ} (hc : 0 < c) (l : List α) : (l.rtake c).getLast? = l.getLast? := by
  obtain ⟨c, rfl⟩ := exists_eq_succ_of_ne_zero hc.ne'
  rcases l.eq_nil_or_concat with rfl | ⟨l, a, rfl⟩
  · rw [rtake_nil]
  · rw [concat_eq_append, rtake_concat_succ, getLast?_concat, getLast?_concat]

theorem rtake_append_of_le {l' : List α} {c : ℕ} (h : l'.length ≤ c) :
    (l ++ l').rtake c = l.drop (l.length + l'.length - c) ++ l' := by
  have hzero : l.length + l'.length - c - l.length = 0 := by omega
  rw [rtake, length_append, drop_append, hzero, drop_zero]

theorem rtake_rtake_append (c : ℕ) (a : α) : (l.rtake c ++ [a]).rtake c = (l ++ [a]).rtake c := by
  cases c with
  | zero => rw [rtake_zero, rtake_zero]
  | succ c =>
    rw [rtake_concat_succ, rtake_concat_succ]
    congr 1
    rw [rtake, rtake, rtake, drop_drop, length_drop]
    congr 1
    omega

end

/-- **Adding an element** to a queue of at most `c` elements, which may lose its oldest one. -/
theorem window_latest (cells : ℕ → α) {n len c : ℕ} (i : ℕ) (a : α) (hlen : len ≤ c) (hc : 0 < c)
    (hn : c ≤ n) :
    window (update cells ((i + len) % n) a) n (i + (len + 1 - c)) (min (len + 1) c) =
      (window cells n i len ++ [a]).rtake c := by
  rw [rtake_append_of_le (by rw [length_singleton]; exact hc), length_window, length_singleton]
  rcases hlen.lt_or_eq with hlt | rfl
  · have hzero : len + 1 - c = 0 := by omega
    rw [hzero, Nat.add_zero, drop_zero, min_eq_left hlt]
    exact window_push cells i a (by omega)
  · -- the element that is added is the last one of the window that begins one cell later
    obtain ⟨m, rfl⟩ : ∃ m, len = m + 1 := ⟨len - 1, by omega⟩
    have hone : m + 1 + 1 - (m + 1) = 1 := by omega
    have hcell : i + (m + 1) = i + 1 + m := by omega
    rw [hone, hcell, min_eq_right (by omega), window_push cells (i + 1) a (by omega),
      window_drop cells n i (by omega), Nat.add_sub_cancel]

/-- **Overwriting**: of the elements in the window and those that are written behind it, the
last ones are kept. -/
theorem window_writeFrom (cells : ℕ → α) {n len : ℕ} (i : ℕ) (src : ℕ → α) (m : ℕ) (hlen : len ≤ n)
    (hpos : 0 < n) (hm : m ≤ n) :
    window (writeFrom cells n ((i + len) % n) src m) n (i + (len + m - n)) (min (len + m) n) =
      (window cells n i len ++ (List.range m).map src).rtake n := by
  induction m with
  | zero =>
    rw [writeFrom_zero, range_zero, map_nil, append_nil, Nat.add_zero,
      Nat.sub_eq_zero_of_le hlen, Nat.add_zero, min_eq_left hlen,
      rtake_of_length_le (by rwa [length_window])]
  | succ m ih =>
    have hput : (i + len) % n < n := mod_lt _ hpos
    have hcell : (if (i + len) % n + m < n then (i + len) % n + m else (i + len) % n + m - n) =
        (i + (len + m - n) + min (len + m) n) % n := by
      have hsum : i + (len + m - n) + min (len + m) n = i + len + m := by omega
      rw [hsum, ← mod_add_mod (i + len) n m]
      generalize (i + len) % n = put at hput ⊢
      split
      · next hlt => rw [mod_eq_of_lt hlt]
      · next hge => rw [mod_eq_sub_mod (by omega), mod_eq_of_lt (by omega)]
    have hlatest := window_latest (writeFrom cells n ((i + len) % n) src m)
      (i + (len + m - n)) (src m) (min_le_right (len + m) n) hpos le_rfl
    rw [← hcell, writeFrom_succ cells src hput (by omega), ih (by omega), rtake_rtake_append]
      at hlatest
    have hstart : i + (len + m - n) + (min (len + m) n + 1 - n) = i + (len + (m + 1) - n) := by
      omega
    have hcount : min (min (len + m) n + 1) n = min (len + (m + 1)) n := by omega
    rw [hstart, hcount, append_assoc] at hlatest
    rw [hlatest, List.range_succ, map_append]
    rfl
