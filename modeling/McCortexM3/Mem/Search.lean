import McCortexM3.Mem.Live

/-!
# What the search finds

`rt_malloc` begins its search at `lfree`, and ends it at `mem_size_aligned - size`.  A free block
that begins there is the last one and fits exactly: it is not found.

## Main definitions

* `Heap.InChain` — the blocks that are found by following `next`.
* `Heap.FreeBlock`, `Heap.Findable` — the free blocks that are large enough, and those found.

## Main results

* `Heap.Rep.search_total` — the search ends.
* `Heap.Rep.exists_findable_iff` — it ends with a block when there is one to be found.
* `HeapRun.run_null_iff` — when `RT_NULL` means that no free block is large enough.
-/

set_option linter.all false

namespace RtThread

open Option List Nat ByteMemory Tiling
open UInt32 (le_iff_toNat_le lt_iff_toNat_lt ofNat toNat_add toNat_inj toNat_sub)

namespace Heap

/-- The offsets of the blocks. -/
inductive InChain (h : Heap) : UInt32 → Prop
  | first : InChain h 0
  | next {ptr : UInt32} : InChain h ptr → h.block (h.next (h.block ptr)) ≠ h.heapEnd →
      InChain h (h.next (h.block ptr))

/-- A free block whose payload has at least `size` bytes. -/
structure FreeBlock (h : Heap) (size ptr : UInt32) : Prop where
  chain : h.InChain ptr
  free : h.used (h.block ptr) = 0
  room : ptr.toNat + sizeofStructMem.toNat + size.toNat ≤ (h.next (h.block ptr)).toNat

/-- It begins at `lfree` or above, and is not the last block with exactly `size` bytes. -/
structure Findable (h : Heap) (size ptr : UInt32) : Prop where
  block : h.FreeBlock size ptr
  above : h.lfree ≤ h.block ptr
  notLast : ptr.toNat + size.toNat ≠ h.memSizeAligned.toNat

variable {h h' : Heap} {bs l r : List Block} {b : Block} {size ptr p : UInt32} {fuel : ℕ}

/-! ### The chain -/

theorem Rep.ne_nil (hrep : h.Rep bs) : bs ≠ [] := by
  rintro rfl
  have htotal := hrep.total_eq
  rw [total_nil] at htotal
  omega

theorem Rep.header_at (hrep : h.Rep (l ++ b :: r)) (hptr : ptr.toNat = total l) :
    Header h.ram (h.block ptr).toNat b.used (total l + b.len) (lastOffset 0 0 l) :=
  hrep.header (by rw [hrep.toNat_block (by simp [hptr]), hptr])

theorem Rep.block_next (hrep : h.Rep (l ++ b :: r)) (hptr : ptr.toNat = total l) :
    (h.next (h.block ptr)).toNat = total (l ++ [b]) ∧
      (h.block (h.next (h.block ptr)) = h.heapEnd ↔ r = []) := by
  have hnext := next_eq (hrep.header_at hptr)
  have htotal : total (l ++ b :: r) = total l + b.len + total r := by simp [Nat.add_assoc]
  have hle : (h.next (h.block ptr)).toNat ≤ total (l ++ b :: r) := by omega
  have hblock := hrep.toNat_block hle
  refine ⟨by rw [hnext]; simp, ?_⟩
  rw [← toNat_inj, hblock, hrep.heapEnd, hnext, htotal]
  cases r with
  | nil => simp
  | cons c r =>
    have hc := hrep.len c (by simp)
    simp only [total_cons, reduceCtorEq, iff_false]
    omega

theorem Rep.inChain_iff (hrep : h.Rep bs) : h.InChain p ↔ p.toNat ∈ starts 0 bs := by
  constructor
  · intro hp
    induction hp with
    | first =>
      obtain ⟨b, r, rfl⟩ := exists_cons_of_ne_nil hrep.ne_nil
      exact mem_cons_self
    | next _ hend ih =>
      obtain ⟨l, b, r, rfl, hptr⟩ := exists_of_mem_starts ih
      obtain ⟨hnext, hiff⟩ := hrep.block_next hptr
      obtain ⟨c, r, rfl⟩ := exists_cons_of_ne_nil fun hnil => hend (hiff.2 hnil)
      rw [hnext, append_cons, starts_middle]
      exact mem_append_right _ mem_cons_self
  · intro hp
    obtain ⟨l, b, r, rfl, hptr⟩ := exists_of_mem_starts hp
    -- the blocks before it are in the chain, one after the other
    induction l using reverseRecOn generalizing p b r with
    | nil =>
      obtain rfl : p = 0 := toNat_inj.1 hptr
      exact .first
    | append_singleton l c ih =>
      rw [append_assoc, singleton_append] at hrep
      have hbound := hrep.bound
      simp only [total_append, total_cons] at hbound
      have hc : (ofNat (total l)).toNat = total l := by
        rw [UInt32.toNat_ofNat']
        omega
      have hmem : (ofNat (total l)).toNat ∈ starts 0 (l ++ c :: b :: r) := by
        rw [hc, starts_middle]
        exact mem_append_right _ mem_cons_self
      obtain ⟨hnext, hiff⟩ := hrep.block_next hc
      have hin := (ih c (b :: r) hc hrep hmem).next fun hend => cons_ne_nil b r (hiff.1 hend)
      obtain rfl : h.next (h.block (.ofNat (total l))) = p :=
        toNat_inj.1 (hnext.trans hptr.symm)
      exact hin

theorem Rep.freeBlock_iff (hrep : h.Rep bs) :
    h.FreeBlock size p ↔ ∃ l n r, bs = l ++ ⟨n, false⟩ :: r ∧ p.toNat = total l ∧
      size.toNat + 12 ≤ n := by
  have hsize : sizeofStructMem.toNat = 12 := rfl
  constructor
  · rintro ⟨hchain, hfree, hroom⟩
    obtain ⟨l, ⟨n, u⟩, r, rfl, hp⟩ := exists_of_mem_starts (hrep.inChain_iff.1 hchain)
    have hd := hrep.header_at hp
    obtain rfl : u = false := (used_eq_zero_iff hd).1 hfree
    rw [next_eq hd, hp, hsize] at hroom
    simp only at hroom
    exact ⟨l, n, r, rfl, hp, by omega⟩
  · rintro ⟨l, n, r, rfl, hp, hn⟩
    have hd := hrep.header_at hp
    refine ⟨hrep.inChain_iff.2 ?_, (used_eq_zero_iff hd).2 rfl, ?_⟩
    · rw [hp, starts_middle]
      exact mem_append_right _ mem_cons_self
    · rw [next_eq hd, hp, hsize]
      simp only
      omega

theorem Rep.freeBlock_le (hrep : h.Rep bs) (hp : h.FreeBlock size p) :
    p.toNat + size.toNat ≤ h.memSizeAligned.toNat := by
  obtain ⟨l, n, r, rfl, hptr, hn⟩ := hrep.freeBlock_iff.1 hp
  have htotal := hrep.total_eq
  simp only [total_append, total_cons] at htotal
  omega

/-! ### The search -/

theorem toNat_limit (hle : size.toNat ≤ h.memSizeAligned.toNat) :
    (h.memSizeAligned - size).toNat = h.memSizeAligned.toNat - size.toNat := by
  have hlt := h.memSizeAligned.toNat_lt
  rw [toNat_sub]
  omega

theorem mallocSearch_lt (hs : h.mallocSearch size fuel ptr = some (some p)) :
    p < h.memSizeAligned - size := by
  induction fuel generalizing ptr with
  | zero => cases hs
  | succ fuel ih =>
    rw [mallocSearch] at hs
    split at hs
    case isTrue hlt =>
      split at hs
      case isTrue =>
        cases hs
        exact hlt
      case isFalse => exact ih hs
    case isFalse => cases hs

theorem Rep.fits_iff (hrep : h.Rep (l ++ b :: r)) (hptr : ptr.toNat = total l) :
    (h.used (h.block ptr) = 0 ∧ h.next (h.block ptr) - (ptr + sizeofStructMem) ≥ size) ↔
      h.FreeBlock size ptr := by
  have hd := hrep.header_at hptr
  have hb := hrep.len b (by simp)
  have hbound := hrep.bound
  simp only [total_append, total_cons] at hbound
  have hsize : sizeofStructMem.toNat = 12 := rfl
  have hrest : (h.next (h.block ptr) - (ptr + sizeofStructMem)).toNat = b.len - 12 := by
    rw [toNat_sub, toNat_add, next_eq hd, hptr, hsize]
    omega
  have hchain : h.InChain ptr := by
    rw [hrep.inChain_iff, hptr, starts_middle]
    exact mem_append_right _ mem_cons_self
  constructor
  · rintro ⟨hfree, hge⟩
    rw [ge_iff_le, le_iff_toNat_le, hrest] at hge
    refine ⟨hchain, hfree, ?_⟩
    rw [next_eq hd, hptr, hsize]
    omega
  · rintro ⟨-, hfree, hroom⟩
    rw [next_eq hd, hptr, hsize] at hroom
    refine ⟨hfree, ?_⟩
    rw [ge_iff_le, le_iff_toNat_le, hrest]
    omega

section

variable (hrep : h.Rep bs) (hbs : bs = l ++ r)
include hrep hbs

theorem Rep.search_none (hptr : ptr.toNat = total l)
    (hs : h.mallocSearch size fuel ptr = some none) (hp : h.FreeBlock size p)
    (hle : total l ≤ p.toNat) : ¬ p.toNat + size.toNat < h.memSizeAligned.toNat := by
  have hin := hrep.freeBlock_le hp
  have hsize : size.toNat ≤ h.memSizeAligned.toNat := by omega
  have hlimit := toNat_limit hsize
  induction fuel generalizing l r ptr with
  | zero => cases hs
  | succ fuel ih =>
    rw [mallocSearch] at hs
    split at hs
    case isFalse hend =>
      -- all blocks before the end have been passed
      rw [lt_iff_toNat_lt, hlimit, hptr] at hend
      omega
    case isTrue hlt =>
      rw [lt_iff_toNat_lt, hlimit, hptr] at hlt
      cases r with
      | nil =>
        have htotal := hrep.total_eq
        rw [hbs, append_nil] at htotal
        omega
      | cons b r =>
        have hrep' : h.Rep (l ++ b :: r) := hbs ▸ hrep
        obtain ⟨hnext, -⟩ := hrep'.block_next hptr
        split at hs
        case isTrue => cases hs
        case isFalse hnot =>
          refine ih (l := l ++ [b]) (r := r) (by simp [hbs]) hnext hs ?_
          -- the block that is passed is not this one
          obtain ⟨l', n, r', hbs', hp', -⟩ := hrep.freeBlock_iff.1 hp
          have hne : p ≠ ptr := fun heq => hnot ((hrep'.fits_iff hptr).2 (heq ▸ hp))
          have hpos : ∀ c ∈ l ++ b :: r, 0 < c.len :=
            fun c hc => Nat.lt_of_lt_of_le (by decide) (hrep'.len c hc)
          have hmem : p.toNat ∈ starts 0 (l ++ b :: r) := by
            rw [← hbs]
            exact hrep.inChain_iff.1 hp.chain
          rw [starts_middle, mem_append, mem_cons] at hmem
          simp only [total_append, total_cons, total_nil, Nat.add_zero]
          rcases hmem with hmem | hmem | hmem
          · have hlt' := mem_starts_bounds (n := 1) (fun c hc => hpos c (by simp [hc])) hmem
            omega
          · exact absurd (toNat_inj.1 (hmem.trans hptr.symm)) hne
          · exact (mem_starts_bounds (n := 1) (fun c hc => hpos c (by simp [hc])) hmem).1

/-- **The search ends.** -/
theorem Rep.search_total (hptr : ptr.toNat = total l)
    (hle : size.toNat ≤ h.memSizeAligned.toNat) (hfuel : r.length < fuel) :
    ∃ res, h.mallocSearch size fuel ptr = some res := by
  have hlimit := toNat_limit hle
  induction r generalizing l ptr fuel with
  | nil =>
    obtain ⟨fuel, rfl⟩ := exists_eq_add_one_of_ne_zero (Nat.ne_of_gt hfuel)
    have htotal := hrep.total_eq
    rw [hbs, append_nil] at htotal
    rw [mallocSearch, if_neg]
    · exact ⟨none, rfl⟩
    · rw [lt_iff_toNat_lt, hlimit, hptr]
      omega
  | cons b r ih =>
    rw [length_cons] at hfuel
    obtain ⟨fuel, rfl⟩ : ∃ k, fuel = k + 1 := ⟨fuel - 1, by omega⟩
    rw [mallocSearch]
    split
    case isTrue =>
      split
      case isTrue => exact ⟨_, rfl⟩
      case isFalse =>
        exact ih (l := l ++ [b]) (by simp [hbs]) (((hbs ▸ hrep).block_next hptr).1) (by omega)
    case isFalse => exact ⟨none, rfl⟩

/-- The loop that looks for the next free block ends, at `heap_end` at the latest. -/
theorem Rep.nextFree_total (hp : p.toNat = h.heapPtr.toNat + total l) (hfuel : r.length < fuel) :
    ∃ q, h.nextFree fuel p = some q := by
  have hsum : total bs = total l + total r := by rw [hbs, total_append]
  induction r generalizing l p fuel with
  | nil =>
    obtain ⟨fuel, rfl⟩ := exists_eq_add_one_of_ne_zero (Nat.ne_of_gt hfuel)
    have hend : p = h.heapEnd := by
      refine toNat_inj.1 (hp.trans ?_)
      rw [hrep.heapEnd, hsum, total_nil, Nat.add_zero]
    rw [nextFree, if_neg fun hcond => hcond.2 hend]
    exact ⟨p, rfl⟩
  | cons b r ih =>
    rw [length_cons] at hfuel
    obtain ⟨fuel, rfl⟩ : ∃ k, fuel = k + 1 := ⟨fuel - 1, by omega⟩
    rw [nextFree]
    split
    case isTrue =>
      have hnext := next_eq ((hbs ▸ hrep : h.Rep (l ++ b :: r)).header hp)
      rw [total_cons] at hsum
      refine ih (l := l ++ [b]) (by simp [hbs]) ?_ (by omega) (by simp [hsum, Nat.add_assoc])
      rw [hrep.toNat_block (by omega), hnext]
      simp
    case isFalse => exact ⟨p, rfl⟩

/-- It does not end when the size has been rounded up beyond the size of the heap. -/
theorem Rep.search_endless (hptr : ptr.toNat = total l)
    (hlt : h.memSizeAligned.toNat < size.toNat) (hsmall : size.toNat ≤ 12) :
    h.mallocSearch size fuel ptr = none := by
  have htotal := hrep.total_eq
  have hlimit : (h.memSizeAligned - size).toNat = 2 ^ 32 + h.memSizeAligned.toNat - size.toNat := by
    have hsize := size.toNat_lt
    rw [toNat_sub]
    omega
  induction fuel generalizing l r ptr with
  | zero => rfl
  | succ fuel ih =>
    have hsum : total bs = total l + total r := by rw [hbs, total_append]
    rw [mallocSearch, if_pos (by rw [lt_iff_toNat_lt, hlimit, hptr]; omega)]
    cases r with
    | nil =>
      -- `heap_end` leads to itself
      have hend : h.block ptr = h.heapEnd := by
        refine toNat_inj.1 ((hrep.toNat_block (by omega)).trans ?_)
        rw [hrep.heapEnd, hptr, hsum, total_nil, Nat.add_zero]
      rw [hend, if_neg fun hcond => hrep.used_heapEnd hcond.1]
      refine ih hbs ?_
      rw [hrep.next_heapEnd, hsum, total_nil, Nat.add_zero]
    | cons b r =>
      have hrep' : h.Rep (l ++ b :: r) := hbs ▸ hrep
      rw [if_neg]
      · exact ih (l := l ++ [b]) (r := r) (by simp [hbs]) (hrep'.block_next hptr).1
      · intro hfits
        have hin := hrep'.freeBlock_le ((hrep'.fits_iff hptr).1 hfits)
        omega

end

/-! ### `rt_malloc` -/

/-- `rt_malloc` finds a block. -/
def Finds (h : Heap) (size : UInt32) : Prop :=
  size ≠ 0 ∧ ∃ ptr, h.Findable (roundSize size) ptr

theorem le_roundSize (size : UInt32) :
    (rtAlign size).toNat ≤ (roundSize size).toNat ∧ 12 ≤ (roundSize size).toNat := by
  have hmin : minSizeAligned.toNat = 12 := rfl
  rw [roundSize]
  split
  case isTrue hlt =>
    rw [lt_iff_toNat_lt] at hlt
    exact ⟨Nat.le_of_lt hlt, Nat.le_of_eq hmin.symm⟩
  case isFalse hle =>
    rw [lt_iff_toNat_lt] at hle
    exact ⟨Nat.le_refl _, by omega⟩

theorem roundSize_cases (size : UInt32) :
    roundSize size = rtAlign size ∨ (roundSize size).toNat = 12 := by
  rw [roundSize]
  split
  · exact .inr rfl
  · exact .inl rfl

variable {lowest : Prop}

theorem Inv.findable_of_search (hinv : Inv lowest h bs) (hle : size.toNat ≤ h.memSizeAligned.toNat)
    (hs : h.mallocSearch size fuel (h.lfree - h.heapPtr) = some (some p)) :
    h.Findable size p := by
  have hrep := hinv.rep
  obtain ⟨l, r, hbs, hstart, hlfree⟩ := hinv.exists_start
  obtain ⟨l', n, r', hbs', hp, hle', hn⟩ := mallocSearch_spec hrep hbs hstart hs
  have hlt := mallocSearch_lt hs
  rw [lt_iff_toNat_lt, toNat_limit hle] at hlt
  refine ⟨hrep.freeBlock_iff.2 ⟨l', n, r', hbs', hp, hn⟩, ?_, by omega⟩
  rw [le_iff_toNat_le, hrep.toNat_block (by rw [hp, hbs']; simp), hp]
  omega

theorem Inv.not_findable_of_search (hinv : Inv lowest h bs)
    (hs : h.mallocSearch size fuel (h.lfree - h.heapPtr) = some none) :
    ¬ h.Findable size p := by
  intro hp
  have hrep := hinv.rep
  obtain ⟨l, r, hbs, hstart, hlfree⟩ := hinv.exists_start
  obtain ⟨l', n, r', hbs', hp', -⟩ := hrep.freeBlock_iff.1 hp.block
  have habove := hp.above
  rw [le_iff_toNat_le, hrep.toNat_block (by rw [hp', hbs']; simp)] at habove
  have hin := hrep.freeBlock_le hp.block
  have hnot := hrep.search_none hbs hstart hs hp.block (by omega)
  exact hp.notLast (by omega)

/-- `rt_malloc` returns a block, when there is one to be found, and `RT_NULL` otherwise. -/
theorem Inv.rtMalloc_ne_zero_iff (hinv : Inv lowest h bs)
    (hs : h.rtMalloc fuel size = some (h', p)) : p ≠ 0 ↔ h.Finds size := by
  have hrep := hinv.rep
  have hround := le_roundSize size
  rw [Heap.rtMalloc] at hs
  split at hs
  case isTrue hzero =>
    cases hs
    exact ⟨fun hne => absurd rfl hne, fun hfinds => absurd hzero hfinds.1⟩
  case isFalse hzero =>
    dsimp only at hs
    split at hs
    case isTrue hgt =>
      cases hs
      refine ⟨fun hne => absurd rfl hne, fun hfinds => ?_⟩
      obtain ⟨ptr, hptr⟩ := hfinds.2
      have hin := hrep.freeBlock_le hptr.block
      rw [gt_iff_lt, lt_iff_toNat_lt] at hgt
      omega
    case isFalse hle =>
      rw [← roundSize] at hs
      obtain ⟨found, hfound, hs⟩ := bind_eq_some_iff.1 hs
      cases found with
      | none =>
        cases hs
        refine ⟨fun hne => absurd rfl hne, fun hfinds => ?_⟩
        obtain ⟨ptr, hptr⟩ := hfinds.2
        exact absurd hptr (hinv.not_findable_of_search hfound)
      | some ptr =>
        obtain ⟨l, r, hbs, hstart, -⟩ := hinv.exists_start
        have hle' : (roundSize size).toNat ≤ h.memSizeAligned.toNat := by
          by_contra hlt
          rw [gt_iff_lt, lt_iff_toNat_lt] at hle
          rcases roundSize_cases size with heq | hmin
          · rw [heq] at hlt
            omega
          · rw [hrep.search_endless hbs hstart (by omega) (by omega)] at hfound
            cases hfound
        have hptr := hinv.findable_of_search hle' hfound
        refine ⟨fun _ => ⟨hzero, ptr, hptr⟩, fun _ => ?_⟩
        obtain ⟨h₂, -, hs⟩ := bind_eq_some_iff.1 hs
        simp only [ite_none_right_eq_some, some.injEq, Prod.mk.injEq] at hs
        obtain ⟨-, -, rfl⟩ := hs
        -- the payload does not begin at `RT_NULL`
        have hin := hrep.freeBlock_le hptr.block
        have htotal := hrep.total_eq
        have hbound := hrep.bound
        have hsize : sizeofStructMem.toNat = 12 := rfl
        rw [ne_eq, ← toNat_inj, toNat_add, hrep.toNat_block (by omega), hsize, UInt32.toNat_zero]
        omega

/-- The search of `rt_malloc` ends: the size is zero or too large, or the smallest block fits. -/
def SearchEnds (h : Heap) (size : UInt32) : Prop :=
  size = 0 ∨ h.memSizeAligned < rtAlign size ∨ minSizeAligned ≤ h.memSizeAligned

instance (h : Heap) (size : UInt32) : Decidable (h.SearchEnds size) :=
  inferInstanceAs (Decidable (_ ∨ _ ∨ _))

theorem roundSize_le (hge : minSizeAligned ≤ h.memSizeAligned)
    (hle : ¬ rtAlign size > h.memSizeAligned) :
    (roundSize size).toNat ≤ h.memSizeAligned.toNat := by
  have hmin : minSizeAligned.toNat = 12 := rfl
  rw [le_iff_toNat_le, hmin] at hge
  rw [gt_iff_lt, lt_iff_toNat_lt] at hle
  rcases roundSize_cases size with heq | heq
  · rw [heq]
    omega
  · omega

/-- `rt_malloc` returns `RT_NULL` when there is no block to be found. -/
theorem Inv.rtMalloc_null (hinv : Inv lowest h bs) (hends : h.SearchEnds size)
    (hnot : ¬ h.Finds size) (hfuel : bs.length < fuel) : h.rtMalloc fuel size = some (h, 0) := by
  by_cases hzero : size = 0
  · rw [Heap.rtMalloc, if_pos hzero]
  by_cases hgt : rtAlign size > h.memSizeAligned
  · rw [Heap.rtMalloc, if_neg hzero, if_pos hgt]
  have hle := roundSize_le ((hends.resolve_left hzero).resolve_left hgt) hgt
  obtain ⟨l, r, hbs, hstart, -⟩ := hinv.exists_start
  have hlen : r.length < fuel := by
    rw [hbs, length_append] at hfuel
    omega
  obtain ⟨res, hres⟩ := hinv.rep.search_total hbs hstart hle hlen
  cases res with
  | none =>
    rw [Heap.rtMalloc, if_neg hzero, if_neg hgt, ← roundSize]
    dsimp only
    rw [hres, bind_some]
  | some ptr => exact absurd ⟨hzero, ptr, hinv.findable_of_search hle hres⟩ hnot

end Heap

namespace HeapRun

open Heap

/-- **When `RT_NULL` means that no free block is large enough**: a block can be found, or there is
none. -/
theorem run_null_iff (fuel : ℕ) (ram : ℕ → UInt8) (beginAddr endAddr : UInt32) (h : Heap)
    (hinit : Heap.rtSystemHeapInit ram beginAddr endAddr = some h) (returned : List UInt32)
    (s : HeapRun) (hrun : Run (step fuel) CallocFits ⟨h, []⟩ returned s) (size : UInt32) :
    (∀ fuel' h', s.heap.rtMalloc fuel' size = some (h', 0) →
        ∀ ptr, ¬ s.heap.FreeBlock (roundSize size) ptr) ↔
      s.heap.Finds size ∨ ∀ ptr, ¬ s.heap.FreeBlock (roundSize size) ptr := by
  have hr : Right False h s.heap s.live := run_right hinit (fun _ _ hc => ⟨hc, nofun⟩) hrun
  obtain ⟨bs, hinv, -⟩ := hr
  constructor
  · intro hnull
    by_contra hnot
    obtain ⟨hfinds, hsome⟩ := not_or.1 hnot
    obtain ⟨ptr, hptr⟩ := not_forall.1 hsome
    -- there is a block, so the heap is large enough for the search to end
    have hin := hinv.rep.freeBlock_le (not_not.1 hptr)
    have hge : minSizeAligned ≤ s.heap.memSizeAligned := by
      have hmin : minSizeAligned.toNat = 12 := rfl
      have hround := (le_roundSize size).2
      rw [le_iff_toNat_le, hmin]
      omega
    have hnull' := hinv.rtMalloc_null (.inr (.inr hge)) hfinds (lt_succ_self _)
    exact hptr (hnull _ _ hnull' ptr)
  · rintro (hfinds | hnone) fuel' h' hs
    · exact absurd rfl ((hinv.rtMalloc_ne_zero_iff hs).2 hfinds)
    · exact hnone

/-- After a block of 20 bytes, one of 40 is found. -/
theorem run_null_iff_second :
    ∃ s : HeapRun, s.live = [0x1010] ∧ ∀ fuel' h', s.heap.rtMalloc fuel' 40 = some (h', 0) →
      ∀ ptr, ¬ s.heap.FreeBlock (roundSize 40) ptr := by
  have hsome : ((Heap.rtSystemHeapInit (fun _ => 0) 0x1001 0x1100).bind fun h =>
      exec (step 9) CallocFits ⟨h, []⟩ [.malloc 20]).any fun r =>
        r.1.live = [0x1010] ∧ (r.1.heap.next (r.1.heap.block 0) = 32 ∧
          r.1.heap.block 32 ≠ r.1.heap.heapEnd) ∧ r.1.heap.used (r.1.heap.block 32) = 0 ∧
          r.1.heap.next (r.1.heap.block 32) = 240 ∧ r.1.heap.lfree = r.1.heap.block 32 ∧
          r.1.heap.memSizeAligned = 228 := by
    decide +kernel
  obtain ⟨h, s, returned, hinit, hrun, hlive, ⟨hnext, hend⟩, hfree, hnext', hlfree, hsize⟩ :=
    of_any hsome
  have hchain : s.heap.InChain 32 := hnext ▸ InChain.first.next (hnext ▸ hend)
  have hblock : s.heap.FreeBlock (roundSize 40) 32 := ⟨hchain, hfree, by rw [hnext']; decide⟩
  refine ⟨s, hlive, (run_null_iff 9 _ 0x1001 0x1100 h hinit returned s hrun 40).2
    (.inl ⟨by decide, 32, hblock, ?_, ?_⟩)⟩
  · rw [hlfree]
    exact UInt32.le_refl _
  · rw [hsize]
    decide

/-- The whole of an empty heap is not found. -/
theorem not_run_null :
    ¬ ∀ (fuel : ℕ) (ram : ℕ → UInt8) (beginAddr endAddr : UInt32) (h : Heap)
      (_ : Heap.rtSystemHeapInit ram beginAddr endAddr = some h) (returned : List UInt32)
      (s : HeapRun) (_ : Run (step fuel) (fun _ _ => True) ⟨h, []⟩ returned s) (size : UInt32)
      (_ : size ≠ 0 ∧ size ≤ s.heap.memSizeAligned),
      ∀ fuel' h', s.heap.rtMalloc fuel' size = some (h', 0) →
        ∀ ptr, ¬ s.heap.FreeBlock (roundSize size) ptr := by
  intro hall
  have hsome : (Heap.rtSystemHeapInit (fun _ => 0) 0x1000 0x1100).any fun h =>
      h.memSizeAligned = 232 ∧ h.used (h.block 0) = 0 ∧ h.next (h.block 0) = 244 ∧
        (h.rtMalloc 9 232).any fun r => r.2 = 0 := by
    decide +kernel
  obtain ⟨h, hinit, hfacts⟩ := (Option.any_eq_true _ _).1 hsome
  obtain ⟨hsize, hfree, hnext, hnull⟩ := of_decide_eq_true hfacts
  obtain ⟨⟨h', p⟩, hs, hp⟩ := (Option.any_eq_true _ _).1 hnull
  obtain rfl : p = 0 := of_decide_eq_true hp
  have hblock : h.FreeBlock (roundSize 232) 0 := ⟨.first, hfree, by rw [hnext]; decide⟩
  exact hall 9 _ 0x1000 0x1100 h hinit [] ⟨h, []⟩ .nil 232
    ⟨by decide, by rw [hsize]; exact UInt32.le_refl _⟩ 9 h' hs 0 hblock

end HeapRun

end RtThread
