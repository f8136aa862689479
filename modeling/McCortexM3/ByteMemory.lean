import Mathlib.Tactic.Ring

/-!
# Byte memories

A memory is a function from addresses to bytes.  Numbers are stored with their lowest byte
first.

## Main definitions

* `load m a n` — the number in the `n` bytes from `a` on.
* `store`, `fill`, `copy` — a number is stored, a byte is repeated, bytes are copied.
* `copyFrom` — bytes are copied from another memory.

## Main results

* `load_store_self`, `store_load`, `load_store_of_disjoint` — what a store leaves.
* `load_congr` — a number depends on its own bytes only.
-/

set_option linter.all false

namespace ByteMemory

/-- The number in the `n` bytes from `a` on. -/
def load (m : ℕ → UInt8) (a : ℕ) : ℕ → ℕ
  | 0 => 0
  | n + 1 => (m a).toNat + 256 * load m (a + 1) n

/-- The number `v` is stored in the `n` bytes from `a` on. -/
def store (m : ℕ → UInt8) (a n v : ℕ) : ℕ → UInt8 := fun x =>
  if a ≤ x ∧ x < a + n then UInt8.ofNat (v / 256 ^ (x - a)) else m x

/-- The `n` bytes from `a` on are set to `b`. -/
def fill (m : ℕ → UInt8) (a n : ℕ) (b : UInt8) : ℕ → UInt8 := fun x =>
  if a ≤ x ∧ x < a + n then b else m x

/-- The `n` bytes from `src` on are copied to `dst`. -/
def copy (m : ℕ → UInt8) (dst src n : ℕ) : ℕ → UInt8 := fun x =>
  if dst ≤ x ∧ x < dst + n then m (src + (x - dst)) else m x

/-- The first `n` bytes of `src` are copied to `dst`. -/
def copyFrom (m : ℕ → UInt8) (dst : ℕ) (src : ℕ → UInt8) (n : ℕ) : ℕ → UInt8 := fun x =>
  if dst ≤ x ∧ x < dst + n then src (x - dst) else m x

variable {m m' : ℕ → UInt8} {a b n k v x : ℕ}

theorem store_of_outside (h : x < a ∨ a + n ≤ x) : store m a n v x = m x :=
  if_neg (by omega)

theorem fill_of_outside {c : UInt8} (h : x < a ∨ a + n ≤ x) : fill m a n c x = m x :=
  if_neg (by omega)

theorem copy_of_outside (h : x < a ∨ a + n ≤ x) : copy m a b n x = m x :=
  if_neg (by omega)

theorem load_congr (h : ∀ x, a ≤ x → x < a + n → m' x = m x) : load m' a n = load m a n := by
  induction n generalizing a with
  | zero => rfl
  | succ n ih =>
    have hfirst : m' a = m a := h a le_rfl (by omega)
    have hrest := ih (a := a + 1) fun x hle hlt => h x (by omega) (by omega)
    rw [load, load, hfirst, hrest]

theorem load_lt (m : ℕ → UInt8) (a n : ℕ) : load m a n < 256 ^ n := by
  induction n generalizing a with
  | zero => exact Nat.one_pos
  | succ n ih =>
    have hbyte := (m a).toNat_lt
    have hrest := ih (a + 1)
    rw [load, pow_succ]
    omega

theorem load_store_self (m : ℕ → UInt8) (a : ℕ) (h : v < 256 ^ n) :
    load (store m a n v) a n = v := by
  induction n generalizing m a v with
  | zero =>
    rw [pow_zero] at h
    rw [load]
    omega
  | succ n ih =>
    have hfirst : store m a (n + 1) v a = UInt8.ofNat v := by
      rw [store, if_pos (by omega), Nat.sub_self, pow_zero, Nat.div_one]
    -- the other bytes are those of `v / 256`
    have hrest : load (store m a (n + 1) v) (a + 1) n =
        load (store m (a + 1) n (v / 256)) (a + 1) n := by
      apply load_congr
      intro x hle hlt
      obtain ⟨i, rfl⟩ : ∃ i, x = a + 1 + i := ⟨x - (a + 1), by omega⟩
      have hi : a + 1 + i - a = i + 1 := by omega
      have hi' : a + 1 + i - (a + 1) = i := by omega
      rw [store, store, if_pos (by omega), if_pos (by omega), hi, hi', Nat.div_div_eq_div_mul,
        pow_succ']
    have hlt : v / 256 < 256 ^ n := by
      rw [pow_succ] at h
      omega
    rw [load, hfirst, hrest, ih m (a + 1) hlt, UInt8.toNat_ofNat']
    omega

theorem store_load (m : ℕ → UInt8) (a n : ℕ) : store m a n (load m a n) = m := by
  have hbyte : ∀ i n a, i < n → UInt8.ofNat (load m a n / 256 ^ i) = m (a + i) := by
    intro i
    induction i with
    | zero =>
      intro n a hn
      obtain ⟨n, rfl⟩ := Nat.exists_eq_add_of_lt hn
      rw [Nat.add_zero a, Nat.zero_add, load, pow_zero, Nat.div_one, ← UInt8.toNat_inj, UInt8.toNat_ofNat']
      have hlt := (m a).toNat_lt
      omega
    | succ i ih =>
      intro n a hn
      obtain ⟨n, rfl⟩ : ∃ k, n = k + 1 := ⟨n - 1, by omega⟩
      have hlt := (m a).toNat_lt
      have hrest : ((m a).toNat + 256 * load m (a + 1) n) / 256 = load m (a + 1) n := by omega
      rw [load, pow_succ', ← Nat.div_div_eq_div_mul, hrest, ih n (a + 1) (by omega)]
      congr 1
      omega
  funext x
  rw [store]
  split
  · next h =>
    rw [hbyte _ _ _ (by omega)]
    congr 1
    omega
  · rfl

theorem load_store_of_disjoint (h : a + n ≤ b ∨ b + k ≤ a) :
    load (store m a n v) b k = load m b k :=
  load_congr fun x hle hlt => store_of_outside (by omega)

end ByteMemory
