import Mathlib.Data.List.Chain

/-!
# Tilings of an interval by used and free blocks

A list of blocks, each with its length and whether it is used, tiles the interval from an
offset on.  A block's offset is the sum of the lengths before it.

## Main definitions

* `Block`, `total` — the blocks and the length of a list of them.
* `offsets u o bs` — the offsets of the used, or of the free, blocks.
* `starts`, `lastOffset` — the offsets of all blocks, and of the last one.
* `usedRuns`, `usedTotal` — the used blocks, each with its offset, and their lengths together.
* `Coalesced` — no two free blocks are neighbours.
* `Combines` — free neighbours have been put together.

## Main results

* `offsets_append`, `mem_offsets_bounds` — where the blocks are.
* `Coalesced.append` — when two lists can be put together.
* `eq_of_usedRuns` — the free blocks are known from the used ones, if they are coalesced.
-/

set_option linter.all false

namespace Tiling

open Option List

/-- A block of memory. -/
structure Block where
  len : ℕ
  used : Bool

/-- The length of the blocks together. -/
def total : List Block → ℕ
  | [] => 0
  | b :: bs => b.len + total bs

/-- The offsets of the blocks that are used, or that are free, when the first block is at
`o`. -/
def offsets (u : Bool) : ℕ → List Block → List ℕ
  | _, [] => []
  | o, b :: bs => if b.used = u then o :: offsets u (o + b.len) bs else offsets u (o + b.len) bs

/-- The offsets of all blocks. -/
def starts : ℕ → List Block → List ℕ
  | _, [] => []
  | o, b :: bs => o :: starts (o + b.len) bs

/-- The offset of the last block, or `p` when there is none. -/
def lastOffset : ℕ → ℕ → List Block → ℕ
  | p, _, [] => p
  | _, o, b :: bs => lastOffset o (o + b.len) bs

/-- The used blocks, each with its offset and its length. -/
def usedRuns : ℕ → List Block → List (ℕ × ℕ)
  | _, [] => []
  | o, b :: bs =>
    if b.used = true then (o, b.len) :: usedRuns (o + b.len) bs else usedRuns (o + b.len) bs

/-- The length of the used blocks together. -/
def usedTotal : List Block → ℕ
  | [] => 0
  | b :: bs => (if b.used = true then b.len else 0) + usedTotal bs

/-- No two free blocks are neighbours. -/
def Coalesced (bs : List Block) : Prop :=
  bs.IsChain fun b c => b.used = true ∨ c.used = true

/-- `Combines bs bs'`: some free blocks of `bs` have been put together with those behind them. -/
inductive Combines : List Block → List Block → Prop
  | refl (bs : List Block) : Combines bs bs
  | step {m n : ℕ} {l r bs' : List Block} :
      Combines (l ++ ⟨m + n, false⟩ :: r) bs' → Combines (l ++ ⟨m, false⟩ :: ⟨n, false⟩ :: r) bs'

variable {u : Bool} {o x : ℕ} {b : Block} {bs bs' l r : List Block}

@[simp] theorem total_nil : total [] = 0 := rfl

@[simp] theorem total_cons (b : Block) (bs : List Block) : total (b :: bs) = b.len + total bs := rfl

@[simp] theorem total_append (l r : List Block) : total (l ++ r) = total l + total r := by
  induction l with
  | nil => simp
  | cons b l ih => simp [ih, Nat.add_assoc]

@[simp] theorem lastOffset_nil (p o : ℕ) : lastOffset p o [] = p := rfl

@[simp] theorem lastOffset_cons (p o : ℕ) (b : Block) (bs : List Block) :
    lastOffset p o (b :: bs) = lastOffset o (o + b.len) bs := rfl

@[simp] theorem lastOffset_append_cons (p o : ℕ) (l : List Block) (b : Block) (r : List Block) :
    lastOffset p o (l ++ b :: r) = lastOffset (o + total l) (o + total l + b.len) r := by
  induction l generalizing p o with
  | nil => simp
  | cons c l ih => simp [ih, Nat.add_assoc]

@[simp] theorem offsets_nil (u : Bool) (o : ℕ) : offsets u o [] = [] := rfl

theorem offsets_append (u : Bool) (o : ℕ) (l r : List Block) :
    offsets u o (l ++ r) = offsets u o l ++ offsets u (o + total l) r := by
  induction l generalizing o with
  | nil => rfl
  | cons b l ih =>
    rw [cons_append, offsets, offsets, ih, total_cons, Nat.add_assoc]
    split <;> rfl

theorem mem_offsets_cons :
    x ∈ offsets u o (b :: bs) ↔ b.used = u ∧ x = o ∨ x ∈ offsets u (o + b.len) bs := by
  rw [offsets]
  split <;> simp_all

theorem mem_offsets_middle_iff :
    x ∈ offsets u 0 (l ++ b :: r) ↔
      x ∈ offsets u 0 l ∨ b.used = u ∧ x = total l ∨ x ∈ offsets u (total l + b.len) r := by
  rw [offsets_append, mem_append, mem_offsets_cons, Nat.zero_add]

theorem mem_offsets_bounds {n : ℕ} (hlen : ∀ b ∈ bs, n ≤ b.len) (hx : x ∈ offsets u o bs) :
    o ≤ x ∧ x + n ≤ o + total bs := by
  induction bs generalizing o with
  | nil => cases hx
  | cons b bs ih =>
    have hb := hlen b mem_cons_self
    rw [total_cons]
    rcases mem_offsets_cons.1 hx with ⟨-, rfl⟩ | hx
    · omega
    · have hrest := ih (fun c hc => hlen c (mem_cons_of_mem b hc)) hx
      omega

theorem exists_of_mem_offsets (hx : x ∈ offsets u o bs) :
    ∃ l n r, bs = l ++ ⟨n, u⟩ :: r ∧ x = o + total l := by
  induction bs generalizing o with
  | nil => cases hx
  | cons b bs ih =>
    rcases mem_offsets_cons.1 hx with ⟨hb, rfl⟩ | hx
    · subst hb
      exact ⟨[], b.len, bs, rfl, rfl⟩
    · obtain ⟨l, n, r, rfl, rfl⟩ := ih hx
      exact ⟨b :: l, n, r, rfl, by rw [total_cons]; omega⟩

theorem mem_offsets_middle (o : ℕ) (l : List Block) (n : ℕ) (u : Bool) (r : List Block) :
    o + total l ∈ offsets u o (l ++ ⟨n, u⟩ :: r) := by
  rw [offsets_append]
  exact mem_append_right _ (mem_offsets_cons.2 (.inl ⟨rfl, rfl⟩))

theorem not_mem_offsets_middle {v : Bool} {n : ℕ} (hlen : ∀ b ∈ l ++ ⟨n, v⟩ :: r, 0 < b.len)
    (hv : v ≠ u) : total l ∉ offsets u 0 (l ++ ⟨n, v⟩ :: r) := by
  intro hmem
  have hn : 0 < n := hlen ⟨n, v⟩ (by simp)
  rcases mem_offsets_middle_iff.1 hmem with hl | ⟨hu, -⟩ | hr
  · have hb := mem_offsets_bounds (n := 1) (fun b hb => hlen b (by simp [hb])) hl
    omega
  · exact hv hu
  · have hb := mem_offsets_bounds (n := 1) (fun b hb => hlen b (by simp [hb])) hr
    simp only at hb
    omega

theorem exists_cons_of_mem_offsets {c : Block} (hlen : ∀ b ∈ l ++ c :: r, 0 < b.len)
    (hx : total l + c.len ∈ offsets u 0 (l ++ c :: r)) : ∃ n t, r = ⟨n, u⟩ :: t := by
  have hc := hlen c (by simp)
  rcases mem_offsets_middle_iff.1 hx with hx | ⟨-, hx⟩ | hx
  · have hb := mem_offsets_bounds (n := 1) (fun b hb => hlen b (by simp [hb])) hx
    omega
  · omega
  · cases r with
    | nil => cases hx
    | cons d t =>
      rcases mem_offsets_cons.1 hx with ⟨rfl, -⟩ | hx
      · exact ⟨d.len, t, rfl⟩
      · have hd := hlen d (by simp)
        have hb := mem_offsets_bounds (n := 1) (fun b hb => hlen b (by simp [hb])) hx
        omega

/-! ### All blocks -/

theorem starts_append (o : ℕ) (l r : List Block) :
    starts o (l ++ r) = starts o l ++ starts (o + total l) r := by
  induction l generalizing o with
  | nil => rfl
  | cons b l ih => rw [cons_append, starts, starts, ih, total_cons, Nat.add_assoc]; rfl

theorem starts_middle (l : List Block) (b : Block) (r : List Block) :
    starts 0 (l ++ b :: r) = starts 0 l ++ total l :: starts (total l + b.len) r := by
  rw [starts_append, Nat.zero_add, starts]

theorem mem_starts : x ∈ starts o bs ↔ ∃ u, x ∈ offsets u o bs := by
  induction bs generalizing o with
  | nil => simp [starts]
  | cons b bs ih =>
    rw [starts, mem_cons, ih]
    simp only [mem_offsets_cons]
    constructor
    · rintro (rfl | ⟨u, hu⟩)
      · exact ⟨b.used, .inl ⟨rfl, rfl⟩⟩
      · exact ⟨u, .inr hu⟩
    · rintro ⟨u, ⟨-, rfl⟩ | hu⟩
      · exact .inl rfl
      · exact .inr ⟨u, hu⟩

theorem mem_starts_bounds {n : ℕ} (hlen : ∀ b ∈ bs, n ≤ b.len) (hx : x ∈ starts o bs) :
    o ≤ x ∧ x + n ≤ o + total bs := by
  obtain ⟨u, hu⟩ := mem_starts.1 hx
  exact mem_offsets_bounds hlen hu

theorem exists_of_mem_starts (hx : x ∈ starts 0 bs) : ∃ l b r, bs = l ++ b :: r ∧ x = total l := by
  obtain ⟨u, hu⟩ := mem_starts.1 hx
  obtain ⟨l, n, r, hbs, hxl⟩ := exists_of_mem_offsets hu
  exact ⟨l, ⟨n, u⟩, r, hbs, by rw [hxl, Nat.zero_add]⟩

theorem mem_starts_or_total (hbs : bs = l ++ r) : total l ∈ starts 0 bs ∨ total l = total bs := by
  subst hbs
  cases r with
  | nil => exact .inr (by simp)
  | cons b r => exact .inl (by simp [starts_middle])

theorem starts_apart {n y : ℕ} (hlen : ∀ b ∈ bs, n ≤ b.len) (hx : x ∈ starts 0 bs)
    (hy : y ∈ starts 0 bs) (hne : x ≠ y) : x + n ≤ y ∨ y + n ≤ x := by
  obtain ⟨l, b, r, rfl, rfl⟩ := exists_of_mem_starts hx
  have hb := hlen b (by simp)
  rw [starts_middle, mem_append, mem_cons] at hy
  rcases hy with hy | rfl | hy
  · have hy' := mem_starts_bounds (fun c hc => hlen c (by simp [hc])) hy
    omega
  · exact absurd rfl hne
  · have hy' := mem_starts_bounds (fun c hc => hlen c (by simp [hc])) hy
    omega

theorem isChain_starts {R : ℕ → ℕ → Prop}
    (h : ∀ l (b : Block) c r, bs = l ++ b :: c :: r → R (o + total l) (o + total l + b.len)) :
    (starts o bs).IsChain R := by
  induction bs generalizing o with
  | nil => exact isChain_nil
  | cons b bs ih =>
    cases bs with
    | nil => exact isChain_singleton _
    | cons c bs =>
      refine isChain_cons_cons.2 ⟨by simpa using h [] b c bs rfl, ih ?_⟩
      intro l d e r hbs
      have hnext := h (b :: l) d e r (by rw [hbs]; rfl)
      rwa [total_cons, ← Nat.add_assoc] at hnext

theorem pairwise_starts {R : ℕ → ℕ → Prop} (hlen : ∀ b ∈ bs, 0 < b.len)
    (h : ∀ l (b : Block) r, bs = l ++ b :: r → ∀ x, o + total l + b.len ≤ x → R (o + total l) x) :
    (starts o bs).Pairwise R := by
  induction bs generalizing o with
  | nil => exact List.Pairwise.nil
  | cons b bs ih =>
    have hlen' : ∀ c ∈ bs, 0 < c.len := fun c hc => hlen c (mem_cons_of_mem b hc)
    refine pairwise_cons.2 ⟨?_, ih hlen' ?_⟩
    · intro x hx
      have hb := mem_starts_bounds (n := 1) hlen' hx
      simpa using h [] b bs rfl x (by simp; omega)
    · intro l c r hbs x hle
      have hother := h (b :: l) c r (by rw [hbs]; rfl) x (by rw [total_cons]; omega)
      rwa [total_cons, ← Nat.add_assoc] at hother

theorem getLast?_starts (hx : (starts o bs).getLast? = some x) :
    ∃ l b, bs = l ++ [b] ∧ x = o + total l := by
  induction bs generalizing o with
  | nil => cases hx
  | cons b bs ih =>
    cases bs with
    | nil =>
      obtain rfl : o = x := by simpa [starts] using hx
      exact ⟨[], b, rfl, rfl⟩
    | cons c bs =>
      rw [starts, starts, getLast?_cons_cons, ← starts] at hx
      obtain ⟨l, d, hbs, hxl⟩ := ih hx
      refine ⟨b :: l, d, by rw [hbs]; rfl, ?_⟩
      rw [hxl, total_cons, Nat.add_assoc]

/-! ### A block gets used, or free -/

section

variable {n : ℕ} {v : Bool}

theorem mem_offsets_mark (hv : v ≠ u) :
    x ∈ offsets u 0 (l ++ ⟨n, u⟩ :: r) ↔ x ∈ offsets u 0 (l ++ ⟨n, v⟩ :: r) ∨ x = total l := by
  simp only [mem_offsets_middle_iff, hv, false_and, true_and, false_or]
  grind

theorem mem_offsets_unmark (hlen : ∀ b ∈ l ++ ⟨n, u⟩ :: r, 0 < b.len) (hv : v ≠ u) :
    x ∈ offsets u 0 (l ++ ⟨n, v⟩ :: r) ↔ x ∈ offsets u 0 (l ++ ⟨n, u⟩ :: r) ∧ x ≠ total l := by
  have hlen' : ∀ b ∈ l ++ ⟨n, v⟩ :: r, 0 < b.len := by
    intro b hb
    rw [mem_append, mem_cons] at hb
    rcases hb with hb | rfl | hb
    · exact hlen b (by simp [hb])
    · exact hlen ⟨n, u⟩ (by simp)
    · exact hlen b (by simp [hb])
  have hnot := not_mem_offsets_middle hlen' hv
  rw [mem_offsets_mark hv]
  constructor
  · intro hx
    exact ⟨.inl hx, fun heq => hnot (heq ▸ hx)⟩
  · rintro ⟨hx, hne⟩
    exact hx.resolve_right hne

end

/-! ### A block is split

The other way round, two blocks become one. -/

theorem mem_offsets_split {m n : ℕ} {v w : Bool} :
    x ∈ offsets u 0 (l ++ ⟨m, v⟩ :: ⟨n, w⟩ :: r) ↔
      x ∈ offsets u 0 (l ++ ⟨m + n, v⟩ :: r) ∨ u = w ∧ x = total l + m := by
  rw [mem_offsets_middle_iff, mem_offsets_middle_iff, mem_offsets_cons, Nat.add_assoc]
  simp only [eq_comm (b := u)]
  grind

theorem mem_offsets_split_self {m n : ℕ} {v : Bool} :
    x ∈ offsets u 0 (l ++ ⟨m, v⟩ :: ⟨n, u⟩ :: r) ↔
      x = total l + m ∨ x ∈ offsets u 0 (l ++ ⟨m + n, v⟩ :: r) := by
  rw [mem_offsets_split, or_comm]
  simp

theorem mem_starts_split {m n : ℕ} {v w : Bool} :
    x ∈ starts 0 (l ++ ⟨m, v⟩ :: ⟨n, w⟩ :: r) ↔
      x ∈ starts 0 (l ++ ⟨m + n, v⟩ :: r) ∨ x = total l + m := by
  simp only [mem_starts, mem_offsets_split]
  constructor
  · rintro ⟨u, hu | ⟨-, rfl⟩⟩
    · exact .inl ⟨u, hu⟩
    · exact .inr rfl
  · rintro (⟨u, hu⟩ | rfl)
    · exact ⟨u, .inl hu⟩
    · exact ⟨w, .inr ⟨rfl, rfl⟩⟩

theorem not_mem_starts_split {m n : ℕ} {v : Bool} (hlen : ∀ b ∈ l ++ r, 0 < b.len) (hm : 0 < m)
    (hn : 0 < n) : total l + m ∉ starts 0 (l ++ ⟨m + n, v⟩ :: r) := by
  intro hmem
  rw [starts_middle, mem_append, mem_cons] at hmem
  rcases hmem with hmem | hmem | hmem
  · have hb := mem_starts_bounds (n := 1) (fun b hb => hlen b (by simp [hb])) hmem
    omega
  · omega
  · have hb := mem_starts_bounds (n := 1) (fun b hb => hlen b (by simp [hb])) hmem
    simp only at hb
    omega

theorem mem_offsets_merge {m n : ℕ} {v w : Bool}
    (hlen : ∀ b ∈ l ++ ⟨m, v⟩ :: ⟨n, w⟩ :: r, 0 < b.len) :
    x ∈ offsets u 0 (l ++ ⟨m, v⟩ :: ⟨n, w⟩ :: r) ∧ x ≠ total l + m ↔
      x ∈ offsets u 0 (l ++ ⟨m + n, v⟩ :: r) := by
  rw [mem_offsets_split]
  constructor
  · rintro ⟨hx | ⟨-, hx⟩, hne⟩
    · exact hx
    · exact absurd hx hne
  · intro hx
    refine ⟨.inl hx, ?_⟩
    rintro rfl
    have hlr : ∀ b ∈ l ++ r, 0 < b.len := by
      intro b hb
      rcases mem_append.1 hb with hb | hb
      · exact hlen b (by simp [hb])
      · exact hlen b (by simp [hb])
    exact not_mem_starts_split hlr (hlen ⟨m, v⟩ (by simp)) (hlen ⟨n, w⟩ (by simp))
      (mem_starts.2 ⟨u, hx⟩)

theorem mem_offsets_cut {m n : ℕ} (hlen : ∀ b ∈ l ++ ⟨m + n, false⟩ :: r, 0 < b.len) :
    x ∈ offsets false 0 (l ++ ⟨m, true⟩ :: ⟨n, false⟩ :: r) ↔
      x = total l + m ∨ x ∈ offsets false 0 (l ++ ⟨m + n, false⟩ :: r) ∧ x ≠ total l := by
  rw [mem_offsets_split, mem_offsets_unmark hlen Bool.false_ne_true.symm]
  grind

theorem getLast?_middle (l : List Block) (t : List Block) (c : Block) (r : List Block) :
    (l ++ (t ++ c :: r)).getLast? = (c :: r).getLast? := by
  rw [← append_assoc, getLast?_append]
  cases h : (c :: r).getLast? with
  | none => simp at h
  | some b => rfl

/-! ### A free block is taken

The block gets used, and what is left of it, if anything, is a free block. -/

section

variable {m n : ℕ} {t : List Block}

theorem offsets_take (ht : t = [] ∨ ∃ k, t = [⟨k, false⟩]) (hmt : m + total t = n) :
    x ∈ offsets true 0 (l ++ ⟨m, true⟩ :: (t ++ r)) ↔
      x ∈ offsets true 0 (l ++ ⟨n, false⟩ :: r) ∨ x = total l := by
  have hnil : offsets true (total l + m) t = [] := by
    rcases ht with rfl | ⟨k, rfl⟩ <;> simp [offsets]
  rw [mem_offsets_middle_iff, mem_offsets_middle_iff, offsets_append, hnil, nil_append,
    Nat.add_assoc, hmt]
  simp only [true_and]
  grind

theorem mem_offsets_of_take (ht : t = [] ∨ ∃ k, t = [⟨k, false⟩]) (hmt : m + total t = n)
    (hx : x ∈ offsets false 0 (l ++ ⟨m, true⟩ :: (t ++ r))) :
    x ∈ offsets false 0 (l ++ ⟨n, false⟩ :: r) ∨ total l ≤ x := by
  rw [mem_offsets_middle_iff, offsets_append, mem_append, Nat.add_assoc, hmt] at hx
  rcases hx with hx | ⟨hu, -⟩ | hx | hx
  · exact .inl (mem_offsets_middle_iff.2 (.inl hx))
  · cases hu
  · rcases ht with rfl | ⟨k, rfl⟩
    · cases hx
    · obtain rfl : x = total l + m := by simpa [offsets] using hx
      exact .inr (Nat.le_add_right _ _)
  · exact .inl (mem_offsets_middle_iff.2 (.inr (.inr hx)))

theorem mem_offsets_take (hmt : m + total t = n)
    (hx : x ∈ offsets false 0 (l ++ ⟨n, false⟩ :: r)) (hne : x ≠ total l) :
    x ∈ offsets false 0 (l ++ ⟨m, true⟩ :: (t ++ r)) := by
  rw [mem_offsets_middle_iff, offsets_append, mem_append, Nat.add_assoc, hmt]
  rcases mem_offsets_middle_iff.1 hx with hx | ⟨-, rfl⟩ | hx
  · exact .inl hx
  · exact absurd rfl hne
  · exact .inr (.inr (.inr hx))

end

/-! ### Neighbours -/

theorem Coalesced.tail (h : Coalesced (b :: bs)) : Coalesced bs := List.IsChain.tail h

/-- Two lists can be put together around a block that is used, or that is free between used
ones. -/
theorem coalesced_middle :
    Coalesced (l ++ b :: r) ↔ Coalesced l ∧ Coalesced r ∧
      (b.used = true ∨ (∀ c ∈ l.getLast?, c.used = true) ∧ ∀ c ∈ r.head?, c.used = true) := by
  rw [Coalesced, isChain_append, isChain_cons]
  simp only [head?_cons, mem_def, some.injEq, forall_eq']
  constructor
  · rintro ⟨hl, ⟨hb, hr⟩, hlb⟩
    refine ⟨hl, hr, ?_⟩
    by_cases hused : b.used = true
    · exact .inl hused
    · refine .inr ⟨fun c hc => (hlb c hc).resolve_right hused, ?_⟩
      intro c hc
      exact (hb c hc).resolve_left hused
  · rintro ⟨hl, hr, hused | ⟨hlast, hhead⟩⟩
    · exact ⟨hl, ⟨fun c _ => .inl hused, hr⟩, fun c _ => .inr hused⟩
    · exact ⟨hl, ⟨fun c hc => .inr (hhead c hc), hr⟩, fun c hc => .inl (hlast c hc)⟩

theorem Coalesced.split_middle (h : Coalesced (l ++ b :: r)) : Coalesced l ∧ Coalesced r :=
  ⟨(coalesced_middle.1 h).1, (coalesced_middle.1 h).2.1⟩

theorem Coalesced.take {m n : ℕ} {t : List Block} (h : Coalesced (l ++ ⟨n, false⟩ :: r))
    (ht : t = [] ∨ ∃ k, t = [⟨k, false⟩]) : Coalesced (l ++ ⟨m, true⟩ :: (t ++ r)) := by
  obtain ⟨hl, hr, hn⟩ := coalesced_middle.1 h
  refine coalesced_middle.2 ⟨hl, ?_, .inl rfl⟩
  rcases ht with rfl | ⟨k, rfl⟩
  · exact hr
  · exact (coalesced_middle (l := [])).2
      ⟨isChain_nil, hr, .inr ⟨nofun, (hn.resolve_left nofun).2⟩⟩

/-! ### The used blocks -/

theorem usedRuns_append (o : ℕ) (l r : List Block) :
    usedRuns o (l ++ r) = usedRuns o l ++ usedRuns (o + total l) r := by
  induction l generalizing o with
  | nil => rfl
  | cons b l ih =>
    rw [cons_append, usedRuns, usedRuns, ih, total_cons, Nat.add_assoc]
    split <;> rfl

theorem mem_usedRuns {n : ℕ} :
    (x, n) ∈ usedRuns o bs ↔ ∃ l r, bs = l ++ ⟨n, true⟩ :: r ∧ x = o + total l := by
  constructor
  · intro hx
    induction bs generalizing o with
    | nil => cases hx
    | cons b bs ih =>
      rw [usedRuns] at hx
      split at hx
      case isTrue hb =>
        rcases mem_cons.1 hx with heq | hx
        · cases heq
          exact ⟨[], bs, by rw [← hb]; rfl, rfl⟩
        · obtain ⟨l, r, rfl, rfl⟩ := ih hx
          exact ⟨b :: l, r, rfl, by rw [total_cons, Nat.add_assoc]⟩
      case isFalse =>
        obtain ⟨l, r, rfl, rfl⟩ := ih hx
        exact ⟨b :: l, r, rfl, by rw [total_cons, Nat.add_assoc]⟩
  · rintro ⟨l, r, rfl, rfl⟩
    rw [usedRuns_append, usedRuns, if_pos rfl]
    exact mem_append_right _ mem_cons_self

theorem offsets_true_eq (o : ℕ) (bs : List Block) :
    offsets true o bs = (usedRuns o bs).map Prod.fst := by
  induction bs generalizing o with
  | nil => rfl
  | cons b bs ih =>
    rw [offsets, usedRuns]
    split
    · rw [ih, map_cons]
    · exact ih _

theorem usedRuns_apart {n y : ℕ} (hx : (x, n) ∈ usedRuns 0 bs) (hy : y ∈ starts 0 bs) :
    y ≤ x ∨ x + n ≤ y := by
  obtain ⟨l, r, rfl, rfl⟩ := mem_usedRuns.1 hx
  rw [starts_middle, mem_append, mem_cons] at hy
  rcases hy with hy | rfl | hy
  · have hy' := mem_starts_bounds (n := 0) (fun _ _ => Nat.zero_le _) hy
    omega
  · omega
  · have hy' := mem_starts_bounds (n := 0) (fun _ _ => Nat.zero_le _) hy
    simp only at hy'
    omega

theorem usedRuns_le_total {n : ℕ} (hx : (x, n) ∈ usedRuns 0 bs) : x + n ≤ total bs := by
  obtain ⟨l, r, rfl, rfl⟩ := mem_usedRuns.1 hx
  simp only [total_append, total_cons]
  omega

theorem mem_usedRuns_middle_iff {n : ℕ} :
    (x, n) ∈ usedRuns 0 (l ++ b :: r) ↔
      (x, n) ∈ usedRuns 0 l ∨ b.used = true ∧ x = total l ∧ n = b.len ∨
        (x, n) ∈ usedRuns (total l + b.len) r := by
  rw [usedRuns_append, mem_append, Nat.zero_add, usedRuns]
  split
  case isTrue hb => simp [hb]
  case isFalse hb => simp [hb]

theorem le_of_mem_usedRuns {n : ℕ} (hx : (x, n) ∈ usedRuns o bs) : o ≤ x := by
  obtain ⟨l, r, -, rfl⟩ := mem_usedRuns.1 hx
  exact Nat.le_add_right o _

theorem mem_starts_of_mem_usedRuns {n : ℕ} (hx : (x, n) ∈ usedRuns 0 bs) : x ∈ starts 0 bs := by
  obtain ⟨l, r, rfl, rfl⟩ := mem_usedRuns.1 hx
  simp [starts_middle]

theorem ne_of_mem_usedRuns_beside {n m : ℕ} (hlen : ∀ b ∈ l, 0 < b.len) (hm : 0 < m)
    (hx : (x, n) ∈ usedRuns 0 l ∨ (x, n) ∈ usedRuns (total l + m) r) : x ≠ total l := by
  rcases hx with hx | hx
  · have hlt := (mem_starts_bounds (n := 1) hlen (mem_starts_of_mem_usedRuns hx)).2
    omega
  · have hle := le_of_mem_usedRuns hx
    omega

theorem usedRuns_disjoint {n m y : ℕ} (hx : (x, n) ∈ usedRuns 0 bs) (hy : (y, m) ∈ usedRuns 0 bs)
    (hne : x ≠ y) : x + n ≤ y ∨ y + m ≤ x := by
  have hapart := usedRuns_apart hx (mem_starts_of_mem_usedRuns hy)
  have hapart' := usedRuns_apart hy (mem_starts_of_mem_usedRuns hx)
  omega

theorem mem_usedRuns_cut {n m k : ℕ} (hlen : ∀ b ∈ l, 0 < b.len) (hm : 0 < m + k) :
    (x, n) ∈ usedRuns 0 (l ++ ⟨m, true⟩ :: ⟨k, false⟩ :: r) ↔
      x = total l ∧ n = m ∨ (x, n) ∈ usedRuns 0 (l ++ ⟨m + k, true⟩ :: r) ∧ x ≠ total l := by
  have hbeside := ne_of_mem_usedRuns_beside (x := x) (n := n) (r := r) hlen hm
  have hrest : usedRuns (total l + m) (⟨k, false⟩ :: r) = usedRuns (total l + (m + k)) r := by
    rw [usedRuns, if_neg Bool.false_ne_true, Nat.add_assoc]
  rw [mem_usedRuns_middle_iff, mem_usedRuns_middle_iff, hrest]
  grind

theorem mem_usedRuns_unmark {n m : ℕ} (hlen : ∀ b ∈ l, 0 < b.len) (hm : 0 < m) :
    (x, n) ∈ usedRuns 0 (l ++ ⟨m, false⟩ :: r) ↔
      (x, n) ∈ usedRuns 0 (l ++ ⟨m, true⟩ :: r) ∧ x ≠ total l := by
  have hbeside := ne_of_mem_usedRuns_beside (x := x) (n := n) (r := r) hlen hm
  rw [mem_usedRuns_middle_iff, mem_usedRuns_middle_iff]
  simp only [Bool.false_eq_true, false_and, false_or, true_and]
  grind

theorem mem_usedRuns_take {n m k : ℕ} {t : List Block} (ht : usedRuns (total l + m) t = [])
    (hmt : m + total t = k) :
    (x, n) ∈ usedRuns 0 (l ++ ⟨m, true⟩ :: (t ++ r)) ↔
      (x, n) ∈ usedRuns 0 (l ++ ⟨k, false⟩ :: r) ∨ x = total l ∧ n = m := by
  rw [mem_usedRuns_middle_iff, mem_usedRuns_middle_iff, usedRuns_append, ht, nil_append,
    Nat.add_assoc, hmt]
  simp only [Bool.false_eq_true, false_and, false_or, true_and]
  grind

@[simp] theorem usedTotal_append (l r : List Block) :
    usedTotal (l ++ r) = usedTotal l + usedTotal r := by
  induction l with
  | nil => simp [usedTotal]
  | cons b l ih => simp [usedTotal, ih, Nat.add_assoc]

theorem first_or_behind {k m : ℕ} (hx : (x, k) ∈ usedRuns o (⟨m, u⟩ :: bs)) :
    u = true ∧ x = o ∧ k = m ∨ o + m ≤ x := by
  rw [usedRuns] at hx
  split at hx
  · next hu =>
    rcases mem_cons.1 hx with heq | hx
    · cases heq
      exact .inl ⟨hu, rfl, rfl⟩
    · exact .inr (le_of_mem_usedRuns hx)
  · exact .inr (le_of_mem_usedRuns hx)

/-- A first block that is used is the first one of the other tiling too, and a free one goes on to
the first used block. -/
theorem first_le {n m : ℕ} {v : Bool} (h : Coalesced (⟨n, u⟩ :: bs)) (hn : 0 < n) (hm : 0 < m)
    (htotal : m ≤ n + total bs)
    (hused : ∀ x k, (x, k) ∈ usedRuns o (⟨n, u⟩ :: bs) → (x, k) ∈ usedRuns o (⟨m, v⟩ :: bs')) :
    (u = true → v = true) ∧ m ≤ n := by
  cases u with
  | true =>
    rcases first_or_behind (hused o n mem_cons_self) with ⟨hv, -, rfl⟩ | hle
    · exact ⟨fun _ => hv, le_rfl⟩
    · omega
  | false =>
    refine ⟨by simp, ?_⟩
    cases bs with
    | nil => simpa using htotal
    | cons d ds =>
      obtain ⟨hd, -⟩ := isChain_cons_cons.1 h
      have hd : d.used = true := hd.resolve_left Bool.false_ne_true
      have hnext := first_or_behind (hused (o + n) d.len (by simp [usedRuns, hd]))
      omega

/-- **A coalesced tiling is known from its used blocks** and its length. -/
theorem eq_of_usedRuns (h : Coalesced bs) (h' : Coalesced bs') (hlen : ∀ b ∈ bs, 0 < b.len)
    (hlen' : ∀ b ∈ bs', 0 < b.len) (htotal : total bs = total bs')
    (hused : ∀ x n, (x, n) ∈ usedRuns o bs ↔ (x, n) ∈ usedRuns o bs') : bs = bs' := by
  induction bs generalizing o bs' with
  | nil =>
    cases bs' with
    | nil => rfl
    | cons c cs =>
      have hc := hlen' c mem_cons_self
      simp only [total_nil, total_cons] at htotal
      omega
  | cons b bs ih =>
    obtain ⟨n, u⟩ := b
    have hn := hlen ⟨n, u⟩ mem_cons_self
    cases bs' with
    | nil =>
      simp only [total_nil, total_cons] at htotal hn
      omega
    | cons c cs =>
      obtain ⟨m, v⟩ := c
      have hm := hlen' ⟨m, v⟩ mem_cons_self
      simp only [total_cons] at htotal hn hm
      obtain ⟨huv, hmn⟩ := first_le h hn hm (by omega) fun x k => (hused x k).1
      obtain ⟨hvu, hnm⟩ := first_le h' hm hn (by omega) fun x k => (hused x k).2
      obtain rfl : n = m := le_antisymm hnm hmn
      obtain rfl : u = v := Bool.eq_iff_iff.2 ⟨huv, hvu⟩
      have htail : ∀ x k, (x, k) ∈ usedRuns (o + n) bs ↔ (x, k) ∈ usedRuns (o + n) cs := by
        intro x k
        have hiff := hused x k
        cases u with
        | false => exact hiff
        | true =>
          simp only [usedRuns, if_true, mem_cons, Prod.mk.injEq] at hiff
          -- no other block begins where the first one does
          refine ⟨fun hx => (hiff.1 (.inr hx)).resolve_left fun heq => ?_,
            fun hx => (hiff.2 (.inr hx)).resolve_left fun heq => ?_⟩ <;>
          · have hle := le_of_mem_usedRuns hx
            omega
      rw [ih h.tail h'.tail (fun d hd => hlen d (mem_cons_of_mem _ hd))
        (fun d hd => hlen' d (mem_cons_of_mem _ hd)) (by omega) htail]

theorem usedTotal_le_total (bs : List Block) : usedTotal bs ≤ total bs := by
  induction bs with
  | nil => exact Nat.le_refl 0
  | cons b bs ih =>
    rw [usedTotal, total_cons]
    split <;> omega

namespace Combines

section

variable (h : Combines bs bs')
include h

theorem trans {bs'' : List Block} (h' : Combines bs' bs'') : Combines bs bs'' := by
  induction h with
  | refl => exact h'
  | step _ ih => exact step (ih h')

theorem total_eq : total bs' = total bs := by
  induction h with
  | refl => rfl
  | step _ ih =>
    rw [ih]
    simp [Nat.add_assoc]

theorem usedRuns_eq (o : ℕ) : usedRuns o bs' = usedRuns o bs := by
  induction h with
  | refl => rfl
  | step _ ih =>
    rw [ih]
    simp [usedRuns_append, usedRuns, Nat.add_assoc]

theorem usedTotal_eq : usedTotal bs' = usedTotal bs := by
  induction h with
  | refl => rfl
  | step _ ih =>
    rw [ih]
    simp [usedTotal]

theorem used_subset (hb : b ∈ bs') (hused : b.used = true) : b ∈ bs := by
  induction h with
  | refl => exact hb
  | step _ ih =>
    have hold := ih hb
    rw [mem_append, mem_cons] at hold
    rcases hold with hold | rfl | hold
    · simp [hold]
    · cases hused
    · simp [hold]

theorem starts_subset (hx : x ∈ starts 0 bs') : x ∈ starts 0 bs := by
  induction h with
  | refl => exact hx
  | step _ ih => exact mem_starts_split.2 (.inl (ih hx))

theorem dvd_len {k : ℕ} (hdvd : ∀ b ∈ bs, k ∣ b.len) : ∀ b ∈ bs', k ∣ b.len := by
  induction h with
  | refl => exact hdvd
  | @step m n l r bs' _ ih =>
    refine ih fun b hb => ?_
    rw [mem_append, mem_cons] at hb
    rcases hb with hb | rfl | hb
    · exact hdvd b (by simp [hb])
    · exact Nat.dvd_add (hdvd ⟨m, false⟩ (by simp)) (hdvd ⟨n, false⟩ (by simp))
    · exact hdvd b (by simp [hb])

end

end Combines

end Tiling
