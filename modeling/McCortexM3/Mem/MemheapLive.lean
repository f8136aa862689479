import McCortexM3.Mem.MemheapCalls
import McCortexM3.Run

/-!
# Runs of the memory heap

Threads call the functions of `memheap.c` with pointers that they have got from them and not given
back, and write into their blocks.  The used blocks, but for the tailer, are those that the
threads have got.

A run whose steps are whole calls is also a run in which other calls come between the parts of a
`rt_memheap_realloc` that moves a block: these parts are an allocation, writes into the new
block, and a call of `rt_memheap_free`.

## Main definitions

* `MemheapRun`, `step` — the heap with the pointers that are live, and the calls.
* `Region` — a region that `rt_memheap_init` can make blocks of.
* `GrowFits` — the size that a block is to grow to does not wrap around.

## Main results

* `run_right` — the invariant of the heap, in every run.
-/

set_option linter.all false

namespace RtThread

open Option List ByteMemory Tiling
open UInt32 (lt_iff_toNat_lt toNat toNat_add toNat_ofNat' toNat_sub)

/-- What can happen next: a call, or a thread writes a byte. -/
inductive MemheapAction
  | alloc (size : UInt32)
  | realloc (ptr newsize : UInt32)
  | free (ptr : UInt32)
  | write (a : ℕ) (b : UInt8)

/-- The heap, and the pointers that have been returned and not given back. -/
structure MemheapRun where
  heap : Memheap
  live : List UInt32

namespace MemheapRun

open Memheap

/-- `p` has been returned. -/
def handOut (p : UInt32) (live : List UInt32) : List UInt32 := if p = 0 then live else p :: live

/-- `rt_memheap_realloc` has been called with `ptr`, and has returned `p`. -/
def handOver (ptr newsize p : UInt32) (live : List UInt32) : List UInt32 :=
  if newsize = 0 then live.erase ptr else if p = 0 then live else p :: live.erase ptr

/-- The address `a` is in the payload of a block that a thread has got. -/
def InBlock (s : MemheapRun) (a : ℕ) : Prop :=
  ∃ p ∈ s.live, p.toNat ≤ a ∧ a < p.toNat + (s.heap.memitemSize (p - memheapSize)).toNat

instance (s : MemheapRun) (a : ℕ) : Decidable (s.InBlock a) := by
  unfold InBlock
  infer_instance

/-- One step; it shows the pointer that the call returns. -/
def step (fuel : ℕ) (s : MemheapRun) : MemheapAction → Option (MemheapRun × List UInt32)
  | .alloc size =>
    (s.heap.rtMemheapAlloc fuel size).map fun (h, p) => (⟨h, handOut p s.live⟩, [p])
  | .realloc ptr newsize =>
    if ptr = 0 ∨ ptr ∈ s.live then
      (s.heap.rtMemheapRealloc fuel ptr newsize).map fun (h, p) =>
        (⟨h, handOver ptr newsize p s.live⟩, [p])
    else none
  | .free ptr =>
    if ptr = 0 ∨ ptr ∈ s.live then
      (s.heap.rtMemheapFree ptr).map fun h => (⟨h, s.live.erase ptr⟩, [])
    else none
  | .write a b =>
    if s.InBlock a then some (⟨{ s.heap with ram := Function.update s.heap.ram a b }, s.live⟩, [])
    else none

/-- The region has place for the item of a block and for the tailer, lies in the memory, and is
apart from the `free_header` of the object. -/
structure Region (freeHeader startAddr size : UInt32) : Prop where
  place : 48 ≤ (rtAlignDown size).toNat
  bound : startAddr.toNat + (rtAlignDown size).toNat ≤ 2 ^ 32
  apart : freeHeader.toNat + 24 ≤ startAddr.toNat ∨
    startAddr.toNat + (rtAlignDown size).toNat ≤ freeHeader.toNat

/-- When the block behind it is free, a block is not to grow to a size for which
`newsize + RT_MEMHEAP_MINIALLOC` wraps around. -/
def GrowFits (s : MemheapRun) : MemheapAction → Prop
  | .realloc ptr newsize =>
    ptr ≠ 0 → ¬ s.heap.IsUsed (s.heap.get (ptr - memheapSize) .next) →
      (memheapAlign newsize).toNat + 12 < 2 ^ 32
  | _ => True

instance (s : MemheapRun) (a : MemheapAction) : Decidable (s.GrowFits a) := by
  unfold GrowFits
  split <;> infer_instance

variable {h₀ h h' : Memheap} {bs bs' : List Block} {live : List UInt32} {x k fuel : ℕ}
variable {p ptr size newsize : UInt32} {s s' : MemheapRun}

/-- The live pointers are those of the used blocks before the tailer. -/
structure Live (h : Memheap) (bs : List Block) (live : List UInt32) : Prop where
  nodup : live.Nodup
  mem : ∀ a, a ∈ live ↔ ∃ x ∈ offsets true 0 bs, x + 24 < total bs ∧ a = spot h.startAddr (x + 24)

theorem Live.block (hlive : Live h bs live) (hinv : Inv h bs) (hp : ptr ∈ live) :
    ∃ l n d r, bs = l ++ ⟨n, true⟩ :: d :: r ∧ ptr = spot h.startAddr (total l + 24) ∧
      ptr.toNat = h.startAddr.toNat + total l + 24 ∧ ptr - memheapSize = spot h.startAddr (total l) := by
  obtain ⟨x, hx, hlt, rfl⟩ := (hlive.mem ptr).1 hp
  obtain ⟨l, n, r, rfl, hxl⟩ := exists_of_mem_offsets hx
  rw [Nat.zero_add] at hxl
  subst hxl
  have hbound := hinv.rep.shape.bound
  cases r with
  | nil =>
    -- the tailer has not been handed out
    have htail := hinv.rep.shape.tail
    rw [getLast?_append, getLast?_singleton, some_or, some.injEq, Block.mk.injEq] at htail
    simp only [total_append, total_cons, total_nil] at hlt
    omega
  | cons d r =>
    refine ⟨l, n, d, r, rfl, rfl, ?_, spot_sub _ _⟩
    rw [spot, toNat_ofNat']
    omega

theorem Live.ne_zero (hlive : Live h bs live) (hinv : Inv h bs) (hp : ptr ∈ live) : ptr ≠ 0 := by
  obtain ⟨l, n, d, r, -, -, hptr, -⟩ := hlive.block hinv hp
  rintro rfl
  rw [UInt32.toNat_zero] at hptr
  omega

theorem ptr_inj {y : ℕ} (hinv : Inv h bs) (hx : x ∈ starts 0 bs) (hy : y ∈ starts 0 bs)
    (heq : spot h.startAddr (x + 24) = spot h.startAddr (y + 24)) : x = y := by
  apply hinv.rep.shape.spot_inj hx hy
  rw [← spot_sub, heq, spot_sub]

theorem mem_starts_of_used (hx : x ∈ offsets true 0 bs) : x ∈ starts 0 bs := mem_starts.2 ⟨true, hx⟩

theorem total_congr (hinv : Inv h bs) (hinv' : Inv h' bs') (hf : SameFrame h h') :
    total bs' = total bs := by
  rw [hinv'.rep.shape.total_eq, hf.poolSize, hinv.rep.shape.total_eq]

theorem Live.alloc (hlive : Live h bs live) (hinv : Inv h bs) (ha : Allocated h h' bs bs' x k) :
    Live h' bs' (spot h.startAddr (x + 24) :: live) := by
  have hself := (ha.used x).2 (.inr rfl)
  have htotal := total_congr hinv ha.inv ha.frame
  refine ⟨nodup_cons.2 ⟨?_, hlive.nodup⟩, ?_⟩
  · intro hmem
    obtain ⟨y, hy, -, hxy⟩ := (hlive.mem _).1 hmem
    have hy' := (ha.used y).2 (.inl hy)
    rw [← ha.frame.startAddr] at hxy
    obtain rfl := ptr_inj ha.inv (mem_starts_of_used hself) (mem_starts_of_used hy') hxy
    exact ha.fresh hy
  · intro a
    rw [mem_cons, hlive.mem, ha.frame.startAddr, htotal]
    constructor
    · rintro (rfl | ⟨y, hy, hlt, hay⟩)
      · refine ⟨x, hself, ?_, rfl⟩
        obtain ⟨l, n, d, r, hbs', rfl, hn⟩ := ha.room
        have hd := ha.inv.rep.shape.len d (by simp [hbs'])
        rw [← htotal, hbs']
        simp only [total_append, total_cons]
        omega
      · exact ⟨y, (ha.used y).2 (.inl hy), hlt, hay⟩
    · rintro ⟨y, hy, hlt, hay⟩
      rcases (ha.used y).1 hy with hy | rfl
      · exact .inr ⟨y, hy, hlt, hay⟩
      · exact .inl hay

theorem Live.free (hlive : Live h bs live) (hinv : Inv h bs) (hf : Freed h h' bs bs' x)
    (hx : x ∈ offsets true 0 bs) : Live h' bs' (live.erase (spot h.startAddr (x + 24))) := by
  have htotal := total_congr hinv hf.inv hf.frame
  refine ⟨hlive.nodup.erase _, ?_⟩
  intro a
  rw [hlive.nodup.mem_erase_iff, hlive.mem, hf.frame.startAddr, htotal]
  constructor
  · rintro ⟨hne, y, hy, hlt, rfl⟩
    refine ⟨y, (hf.used y).2 ⟨hy, ?_⟩, hlt, rfl⟩
    rintro rfl
    exact hne rfl
  · rintro ⟨y, hy, hlt, rfl⟩
    obtain ⟨hy, hne⟩ := (hf.used y).1 hy
    refine ⟨fun heq => hne ?_, y, hy, hlt, rfl⟩
    exact ptr_inj hinv (mem_starts_of_used hy) (mem_starts_of_used hx) heq

theorem Live.congr (hlive : Live h bs live) (hf : SameFrame h h') (htotal : total bs' = total bs)
    (hused : offsets true 0 bs' = offsets true 0 bs) : Live h' bs' live := by
  refine ⟨hlive.nodup, ?_⟩
  intro a
  rw [hlive.mem, hused, hf.startAddr, htotal]

/-- The invariant of a run that has begun with the heap `h₀`. -/
def Right (h₀ h : Memheap) (live : List UInt32) : Prop :=
  ∃ bs, Inv h bs ∧ Live h bs live ∧ SameFrame h₀ h

/-! ### The calls -/

theorem right_alloc (hr : Right h₀ h live) (hs : h.rtMemheapAlloc fuel size = some (h', p)) :
    Right h₀ h' (handOut p live) := by
  obtain ⟨bs, hinv, hlive, hframe⟩ := hr
  rcases hinv.rtMemheapAlloc hs with ⟨rfl, rfl⟩ | ⟨x, bs', rfl, ha⟩
  · exact ⟨bs, hinv, hlive, hframe⟩
  · have hlive' := hlive.alloc hinv ha
    have hne := hlive'.ne_zero ha.inv mem_cons_self
    rw [handOut, if_neg hne]
    exact ⟨bs', ha.inv, hlive', hframe.trans ha.frame⟩

theorem right_free (hr : Right h₀ h live) (hp : ptr = 0 ∨ ptr ∈ live)
    (hs : h.rtMemheapFree ptr = some h') : Right h₀ h' (live.erase ptr) := by
  obtain ⟨bs, hinv, hlive, hframe⟩ := hr
  rcases hp with rfl | hp
  · -- `rt_memheap_free` does nothing for `RT_NULL`
    rw [Memheap.rtMemheapFree, if_pos rfl] at hs
    cases hs
    rw [erase_of_not_mem fun hmem => hlive.ne_zero hinv hmem rfl]
    exact ⟨bs, hinv, hlive, hframe⟩
  · have hnull := hlive.ne_zero hinv hp
    obtain ⟨l, n, d, r, rfl, hptr, -, -⟩ := hlive.block hinv hp
    obtain ⟨h₁, bs', hs₁, hf⟩ := hinv.rtMemheapFree hptr hnull
    obtain rfl : h₁ = h' := some_inj.1 (hs₁.symm.trans hs)
    rw [hptr]
    exact ⟨bs', hf.inv, hlive.free hinv hf (by simpa using mem_offsets_middle 0 l n true (d :: r)),
      hframe.trans hf.frame⟩

theorem Right.writeBlock {l r : List Block} {d : Block} (hinv : Inv h (l ++ d :: r))
    (hlive : Live h (l ++ d :: r) live) (hframe : SameFrame h₀ h) {ram : ℕ → UInt8}
    (hram : ∀ y, y < h.startAddr.toNat + total l + 24 ∨ h.startAddr.toNat + total l + d.len ≤ y →
      ram y = h.ram y) : Right h₀ { h with ram := ram } live :=
  ⟨_, ⟨hinv.rep.writeBlock ⟨rfl, rfl, rfl, rfl⟩ hram, hinv.coalesced, hinv.available⟩,
    hlive.congr ⟨rfl, rfl, rfl, rfl⟩ rfl rfl, hframe.trans ⟨rfl, rfl, rfl, rfl⟩⟩

theorem Right.handOver_self (hr : Right h₀ h live) (hp : ptr ∈ live) (hnull : ptr ≠ 0)
    (hsize : newsize ≠ 0) : Right h₀ h (handOver ptr newsize ptr live) := by
  obtain ⟨bs, hinv, hlive, hframe⟩ := hr
  have hperm := perm_cons_erase hp
  rw [handOver, if_neg hsize, if_neg hnull]
  refine ⟨bs, hinv, ⟨hperm.nodup_iff.1 hlive.nodup, ?_⟩, hframe⟩
  intro a
  rw [← hperm.mem_iff, hlive.mem]

theorem memheapAlign_align (size : UInt32) :
    memheapAlign (memheapAlign size) = memheapAlign size := by
  have hmod : (memheapAlign size).toNat % 4 = 0 := by
    rw [memheapAlign]
    split
    · rfl
    · exact rtAlign_mod size
  have hmin := memheapAlign_ge size
  obtain ⟨k, hk⟩ : ∃ k, k = memheapAlign size := ⟨_, rfl⟩
  rw [← hk] at hmod hmin ⊢
  have hlt := k.toNat_lt
  have halign : rtAlign k = k := by
    apply UInt32.toNat_inj.1
    rw [toNat_rtAlign (by omega)]
    omega
  rw [memheapAlign, halign, if_neg]
  rw [lt_iff_toNat_lt]
  exact not_lt.2 hmin

theorem Right.resized (hinv : Inv h bs) (hlive : Live h bs live) (hframe : SameFrame h₀ h)
    (hres : Resized h h' bs bs' x k) : Right h₀ h' live :=
  ⟨bs', hres.inv, hlive.congr hres.frame (total_congr hinv hres.inv hres.frame) hres.used,
    hframe.trans hres.frame⟩

theorem right_copy {new n : UInt32} {h₁ : Memheap} (hr : Right h₀ h live)
    (hn : n.toNat ≤ (memheapAlign newsize).toNat)
    (hh₁ : h.rtMemheapAlloc fuel (memheapAlign newsize) = some (h₁, new)) (hne : new ≠ 0) :
    Right h₀ { h₁ with ram := copy h₁.ram new.toNat ptr.toNat n.toNat } (new :: live) := by
  obtain ⟨bs, hinv, hlive, hframe⟩ := hr
  rcases hinv.rtMemheapAlloc hh₁ with ⟨heq, -⟩ | ⟨x, bs₁, hnew, ha⟩
  · exact absurd heq hne
  · rw [memheapAlign_align] at ha
    have hlive₁ := hlive.alloc hinv ha
    rw [← hnew] at hlive₁
    obtain ⟨l, m, d, r, hbs₁, hx, hm⟩ := ha.room
    have hinv₁ := ha.inv
    have hlive₂ := hlive₁
    rw [hbs₁] at hinv₁ hlive₂
    refine Right.writeBlock hinv₁ hlive₂ (hframe.trans ha.frame) fun y hy => copy_of_outside ?_
    have hbound := hinv₁.rep.shape.bound
    have hd := hinv₁.rep.shape.len d (by simp)
    simp only [total_append, total_cons] at hbound
    have hnew' : new.toNat = h₁.startAddr.toNat + total l + 24 := by
      rw [hnew, hx, ← ha.frame.startAddr, spot, toNat_ofNat']
      omega
    simp only at hy
    omega

/-- The branch of `rt_memheap_realloc` that **moves the block**. -/
theorem right_move {new n : UInt32} {h₁ h₂ : Memheap} (hr : Right h₀ h live) (hp : ptr ∈ live)
    (hsize : newsize ≠ 0) (hn : n.toNat ≤ (memheapAlign newsize).toNat)
    (hh₁ : h.rtMemheapAlloc fuel (memheapAlign newsize) = some (h₁, new)) (hne : new ≠ 0)
    (hh₂ : { h₁ with ram := copy h₁.ram new.toNat ptr.toNat n.toNat }.rtMemheapFree ptr = some h₂) :
    Right h₀ h₂ (handOver ptr newsize new live) := by
  have hcopied : Right h₀ { h₁ with ram := copy h₁.ram new.toNat ptr.toNat n.toNat } (new :: live) :=
    right_copy hr hn hh₁ hne
  have hfreed := right_free hcopied (.inr (mem_cons_of_mem new hp)) hh₂
  have hother : new ≠ ptr := by
    obtain ⟨bs, -, hlive, -⟩ := hcopied
    rintro rfl
    exact (nodup_cons.1 hlive.nodup).1 hp
  rw [erase_cons_tail (by simpa using hother)] at hfreed
  rwa [handOver, if_neg hsize, if_neg hne]

theorem Inv.oldsize {l r : List Block} {d : Block} {n : ℕ}
    (hinv : Inv h (l ++ ⟨n, true⟩ :: d :: r)) :
    (h.memitemSize (spot h.startAddr (total l))).toNat = n - 24 ∧ 24 ≤ n ∧
      n + 24 ≤ h.poolSize.toNat := by
  have hsizes := hinv.rep.shape.sizes
  exact ⟨hinv.rep.memitemSize, hsizes.1, by omega⟩

variable {header freeHeader : UInt32} {ram : ℕ → UInt8}

section

variable (hlive : Live h bs live) (hinv : Inv h bs) (hp : ptr ∈ live)
  (hheader : header = ptr - memheapSize)
include hlive hinv hp hheader

theorem Live.block_free (hfree : ¬ h.IsUsed (h.get header .next)) :
    ∃ l n m d r, bs = l ++ ⟨n, true⟩ :: ⟨m, false⟩ :: d :: r ∧
      ptr = spot h.startAddr (total l + 24) ∧ ptr.toNat = h.startAddr.toNat + total l + 24 ∧
      header = spot h.startAddr (total l) ∧ (h.memitemSize header).toNat = n - 24 ∧
      h.get header .next > header ∧ (h.memitemSize (h.get header .next)).toNat = m - 24 := by
  obtain ⟨l, n, d, r, rfl, hptr, hoffset, hheader'⟩ := hlive.block hinv hp
  rw [hheader'] at hheader
  subst hheader
  obtain ⟨hold, hn, -⟩ := Inv.oldsize hinv
  have hnext := hinv.rep.next_eq.1
  obtain ⟨hself, hbehind⟩ := hinv.rep.toNat_spots
  obtain ⟨m, u⟩ := d
  have hmem : total l + n ∈ offsets u 0 (l ++ ⟨n, true⟩ :: ⟨m, u⟩ :: r) :=
    mem_offsets_split_self.2 (.inl rfl)
  have hused := hinv.rep.isUsed_iff hmem
  rw [hnext] at hfree
  cases u with
  | true => exact absurd (hused.2 rfl) hfree
  | false =>
    have hrep' : h.Rep ((l ++ [⟨n, true⟩]) ++ ⟨m, false⟩ :: r) _ :=
      append_cons _ _ _ ▸ hinv.rep
    obtain ⟨d, r, rfl⟩ := hrep'.shape.exists_cons
    have hsize := hrep'.memitemSize
    simp only [total_append, total_cons, total_nil, Nat.add_zero] at hsize
    refine ⟨l, n, m, d, r, rfl, hptr, hoffset, rfl, hold, ?_, ?_⟩
    · rw [hnext, gt_iff_lt, lt_iff_toNat_lt, hself, hbehind]
      dsimp only
      omega
    · rw [hnext]
      exact hsize

/-- The branch of `rt_memheap_realloc` that lets the block **grow in place**. -/
theorem Live.grow (hgt : h.memitemSize header < memheapAlign newsize)
    (hfree : ¬ h.IsUsed (h.get header .next))
    (hlt : memheapAlign newsize + memheapMinialloc <
      h.memitemSize (h.get header .next) + h.memitemSize header)
    (hfits : (memheapAlign newsize).toNat + 12 < 2 ^ 32) :
    ∃ bs' x, ptr.toNat = h.startAddr.toNat + x + 24 ∧
      Resized h (h.growInPlace header ptr (h.memitemSize header) (memheapAlign newsize)) bs bs' x
        ((memheapAlign newsize).toNat + 24) := by
  have h12 : memheapMinialloc.toNat = 12 := rfl
  obtain ⟨l, n, m, d, r, rfl, hptr, hoffset, hheader', hold, -, hsize⟩ :=
    hlive.block_free hinv hp hheader hfree
  obtain ⟨hn, hm, hsizes⟩ := hinv.rep.shape.sizes
  have hbound := h.poolSize.toNat_lt
  rw [lt_iff_toNat_lt, hold] at hgt
  rw [lt_iff_toNat_lt, toNat_add, toNat_add, hold, hsize, h12] at hlt
  simp only at hm hsizes
  obtain ⟨bs', hres⟩ := hinv.growInPlace hheader' hptr hold hgt (by omega)
  exact ⟨bs', total l, hoffset, hres⟩

end

theorem right_grow (hr : Right h₀ h live) (hp : ptr ∈ live)
    (hheader : header = ptr - memheapSize) (hgt : h.memitemSize header < memheapAlign newsize)
    (hfree : ¬ h.IsUsed (h.get header .next))
    (hlt : memheapAlign newsize + memheapMinialloc <
      h.memitemSize (h.get header .next) + h.memitemSize header)
    (hfits : (memheapAlign newsize).toNat + 12 < 2 ^ 32) :
    Right h₀ (h.growInPlace header ptr (h.memitemSize header) (memheapAlign newsize)) live := by
  obtain ⟨bs, hinv, hlive, hframe⟩ := hr
  obtain ⟨bs', x, -, hres⟩ := hlive.grow hinv hp hheader hgt hfree hlt hfits
  exact Right.resized hinv hlive hframe hres

/-- The branch of `rt_memheap_realloc` that lets the block **shrink in place**. -/
theorem Live.shrink (hlive : Live h bs live) (hinv : Inv h bs) (hp : ptr ∈ live)
    (hheader : header = ptr - memheapSize) (hle : memheapAlign newsize ≤ h.memitemSize header)
    (hlt : memheapAlign newsize + memheapSize + memheapMinialloc < h.memitemSize header) :
    ∃ bs' x, ptr.toNat = h.startAddr.toNat + x + 24 ∧
      Resized h (h.shrinkInPlace header (memheapAlign newsize)) bs bs' x
        ((memheapAlign newsize).toNat + 24) := by
  have h24 : memheapSize.toNat = 24 := rfl
  have h12 : memheapMinialloc.toNat = 12 := rfl
  obtain ⟨l, n, d, r, rfl, hptr, hoffset, hheader'⟩ := hlive.block hinv hp
  rw [hheader'] at hheader
  subst hheader
  obtain ⟨hold, hn, hpool⟩ := Inv.oldsize hinv
  have hbound := h.poolSize.toNat_lt
  rw [UInt32.le_iff_toNat_le, hold] at hle
  rw [lt_iff_toNat_lt, toNat_add, toNat_add, hold, h24, h12] at hlt
  have hfits : (memheapAlign newsize).toNat + 60 < n := by omega
  obtain ⟨bs', hres⟩ := hinv.shrinkInPlace rfl hfits
  exact ⟨bs', total l, hoffset, hres⟩

theorem right_shrink (hr : Right h₀ h live) (hp : ptr ∈ live)
    (hheader : header = ptr - memheapSize) (hle : memheapAlign newsize ≤ h.memitemSize header)
    (hlt : memheapAlign newsize + memheapSize + memheapMinialloc < h.memitemSize header) :
    Right h₀ (h.shrinkInPlace header (memheapAlign newsize)) live := by
  obtain ⟨bs, hinv, hlive, hframe⟩ := hr
  obtain ⟨bs', x, -, hres⟩ := hlive.shrink hinv hp hheader hle hlt
  exact Right.resized hinv hlive hframe hres

/-- What a call of `rt_memheap_realloc` with a pointer and a size does. -/
theorem realloc_cases (hnull : ptr ≠ 0) (hsize : newsize ≠ 0) {header old : UInt32}
    (hheader : header = ptr - memheapSize) (hold : old = h.memitemSize header)
    (hs : h.rtMemheapRealloc fuel ptr newsize = some (h', p)) :
    p = ptr ∧ h' = h ∧ memheapAlign newsize ≤ old ∨
    p = ptr ∧ h' = h.growInPlace header ptr old (memheapAlign newsize) ∧
      old < memheapAlign newsize ∧ ¬ h.IsUsed (h.get header .next) ∧
      memheapAlign newsize + memheapMinialloc < h.memitemSize (h.get header .next) + old ∨
    p = ptr ∧ h' = h.shrinkInPlace header (memheapAlign newsize) ∧ memheapAlign newsize ≤ old ∧
      memheapAlign newsize + memheapSize + memheapMinialloc < old ∨
    p = 0 ∧ old < memheapAlign newsize ∧
      h.rtMemheapAlloc fuel (memheapAlign newsize) = some (h', 0) ∨
    p ≠ 0 ∧ old < memheapAlign newsize ∧ ∃ h₁,
      h.rtMemheapAlloc fuel (memheapAlign newsize) = some (h₁, p) ∧
      { h₁ with ram := copy h₁.ram p.toNat ptr.toNat old.toNat }.rtMemheapFree ptr = some h' := by
  rw [Memheap.rtMemheapRealloc, if_neg hsize] at hs
  dsimp only at hs
  rw [if_neg hnull, ← hheader, ← hold] at hs
  split at hs
  case isTrue hgt =>
    split at hs
    case isFalse => cases hs
    case isTrue =>
      split at hs
      case isTrue hcond =>
        cases hs
        exact .inr (.inl ⟨rfl, rfl, hgt, hcond.1, hcond.2⟩)
      case isFalse =>
        obtain ⟨⟨h₁, new⟩, hh₁, hs⟩ := bind_eq_some_iff.1 hs
        dsimp only at hs
        split at hs
        case isTrue hne =>
          obtain ⟨h₂, hh₂, hs⟩ := map_eq_some_iff.1 hs
          cases hs
          exact .inr (.inr (.inr (.inr ⟨hne, hgt, h₁, hh₁, hh₂⟩)))
        case isFalse heq =>
          cases hs
          obtain rfl := not_not.1 heq
          exact .inr (.inr (.inr (.inl ⟨rfl, hgt, hh₁⟩)))
  case isFalse hle =>
    have hle := UInt32.not_lt.1 hle
    split at hs
    case isTrue =>
      cases hs
      exact .inl ⟨rfl, rfl, hle⟩
    case isFalse hlt =>
      cases hs
      exact .inr (.inr (.inl ⟨rfl, rfl, hle, UInt32.not_le.1 hlt⟩))

theorem right_realloc (hr : Right h₀ h live) (hp : ptr = 0 ∨ ptr ∈ live)
    (hfits : ptr ≠ 0 → ¬ h.IsUsed (h.get (ptr - memheapSize) .next) →
      (memheapAlign newsize).toNat + 12 < 2 ^ 32)
    (hs : h.rtMemheapRealloc fuel ptr newsize = some (h', p)) :
    Right h₀ h' (handOver ptr newsize p live) := by
  by_cases hsize : newsize = 0
  · -- a size of 0 frees the block
    rw [Memheap.rtMemheapRealloc, if_pos hsize] at hs
    obtain ⟨h₁, hh₁, hs⟩ := map_eq_some_iff.1 hs
    cases hs
    rw [handOver, if_pos hsize]
    exact right_free hr hp hh₁
  by_cases hnull : ptr = 0
  · -- no block: a new one
    have hnot : (0 : UInt32) ∉ live := by
      obtain ⟨bs, hinv, hlive, -⟩ := hr
      exact fun hmem => hlive.ne_zero hinv hmem rfl
    rw [Memheap.rtMemheapRealloc, if_neg hsize] at hs
    dsimp only at hs
    rw [if_pos hnull] at hs
    have hout := right_alloc hr hs
    rw [handOver, if_neg hsize, hnull, erase_of_not_mem hnot]
    exact hout
  have hp : ptr ∈ live := hp.resolve_left hnull
  rcases realloc_cases hnull hsize rfl rfl hs with ⟨rfl, rfl, -⟩ | ⟨rfl, rfl, hgt, hfree, hlt⟩ |
    ⟨rfl, rfl, hle, hlt⟩ | ⟨rfl, -, hh₁⟩ | ⟨hne, hgt, h₁, hh₁, hh₂⟩
  · exact hr.handOver_self hp hnull hsize
  · exact (right_grow hr hp rfl hgt hfree hlt (hfits hnull hfree)).handOver_self hp hnull hsize
  · exact (right_shrink hr hp rfl hle hlt).handOver_self hp hnull hsize
  · have hout := right_alloc hr hh₁
    rw [handOut, if_pos rfl] at hout
    rwa [handOver, if_neg hsize, if_pos rfl]
  · exact right_move hr hp hsize (lt_iff_toNat_lt.1 hgt).le hh₁ hne hh₂

theorem right_write {a : ℕ} {b : UInt8} (hr : Right h₀ s.heap s.live) (ha : s.InBlock a) :
    Right h₀ { s.heap with ram := Function.update s.heap.ram a b } s.live := by
  obtain ⟨bs, hinv, hlive, hframe⟩ := hr
  obtain ⟨q, hq, hle, hlt⟩ := ha
  obtain ⟨l, n, d, r, rfl, -, hq', hheader⟩ := hlive.block hinv hq
  obtain ⟨hsize, hn, -⟩ := Inv.oldsize hinv
  rw [hheader, hsize] at hlt
  refine Right.writeBlock hinv hlive hframe fun y hy => ?_
  simp only at hy
  exact Function.update_of_ne (by omega) _ _

theorem right_step {a : MemheapAction} {out : List UInt32} (hr : Right h₀ s.heap s.live)
    (hc : s.GrowFits a) (hs : s.step fuel a = some (s', out)) : Right h₀ s'.heap s'.live := by
  cases a with
  | alloc size =>
    obtain ⟨r, hr', hs⟩ := map_eq_some_iff.1 hs
    cases hs
    exact right_alloc hr hr'
  | realloc ptr newsize =>
    simp only [step, ite_none_right_eq_some] at hs
    obtain ⟨hp, hs⟩ := hs
    obtain ⟨r, hr', hs⟩ := map_eq_some_iff.1 hs
    cases hs
    exact right_realloc hr hp hc hr'
  | free ptr =>
    simp only [step, ite_none_right_eq_some] at hs
    obtain ⟨hp, hs⟩ := hs
    obtain ⟨h', hh', hs⟩ := map_eq_some_iff.1 hs
    cases hs
    exact right_free hr hp hh'
  | write a b =>
    simp only [step, ite_none_right_eq_some, some.injEq, Prod.mk.injEq] at hs
    obtain ⟨ha, rfl, -⟩ := hs
    exact right_write hr ha

/-! ### The calls return

No `RT_ASSERT` fails for a live pointer, and the search ends. -/

theorem isSome_free (hr : Right h₀ h live) (hp : ptr = 0 ∨ ptr ∈ live) :
    (h.rtMemheapFree ptr).isSome := by
  obtain ⟨bs, hinv, hlive, -⟩ := hr
  rcases hp with rfl | hp
  · rfl
  · have hnull := hlive.ne_zero hinv hp
    obtain ⟨l, n, d, r, rfl, hptr, -, -⟩ := hlive.block hinv hp
    obtain ⟨h₁, -, hs₁, -⟩ := hinv.rtMemheapFree hptr hnull
    rw [hs₁]
    rfl

theorem isSome_realloc (hr : Right h₀ h live) (hp : ptr = 0 ∨ ptr ∈ live)
    (hfuel : h.poolSize.toNat / 24 + 2 ≤ fuel) : (h.rtMemheapRealloc fuel ptr newsize).isSome := by
  have halloc : ∀ size, (h.rtMemheapAlloc fuel size).isSome := by
    obtain ⟨bs, hinv, -⟩ := hr
    exact fun size => hinv.isSome_rtMemheapAlloc size hfuel
  rw [Memheap.rtMemheapRealloc]
  by_cases hzero : newsize = 0
  · rw [if_pos hzero, isSome_map]
    exact isSome_free hr hp
  rw [if_neg hzero]
  dsimp only
  by_cases hnull : ptr = 0
  · rw [if_pos hnull]
    exact halloc _
  have hp : ptr ∈ live := hp.resolve_left hnull
  rw [if_neg hnull]
  by_cases hgt : memheapAlign newsize > h.memitemSize (ptr - memheapSize)
  · rw [if_pos hgt]
    have hnext : h.get (ptr - memheapSize) .next > ptr - memheapSize := by
      obtain ⟨bs, hinv, hlive, -⟩ := hr
      obtain ⟨l, n, d, r, rfl, -, -, hheader⟩ := hlive.block hinv hp
      have hn := hinv.rep.shape.len ⟨n, true⟩ (by simp)
      obtain ⟨hself, hbehind⟩ := hinv.rep.toNat_spots
      rw [hheader, hinv.rep.next_eq.1, gt_iff_lt, lt_iff_toNat_lt, hself, hbehind]
      dsimp only at hn ⊢
      omega
    rw [if_pos hnext]
    split
    · rfl
    · obtain ⟨⟨h₁, new⟩, hh₁⟩ := isSome_iff_exists.1 (halloc (memheapAlign newsize))
      rw [hh₁, bind_some]
      dsimp only
      split
      · next hne =>
        rw [isSome_map]
        exact isSome_free (right_copy hr (lt_iff_toNat_lt.1 hgt).le hh₁ hne)
          (.inr (mem_cons_of_mem new hp))
      · rfl
  · rw [if_neg hgt]
    split <;> rfl

/-! ### The runs -/

theorem itemWrites_fillItem {S : List UInt32} {a magic next prev nextFree prevFree : UInt32}
    (ha : a ∈ S) : ItemWrites S h (h.fillItem a magic next prev nextFree prevFree) :=
  (((((itemWrites_set ha _ _).trans (itemWrites_set ha _ _)).trans (itemWrites_set ha _ _)).trans
    (itemWrites_set ha _ _)).trans (itemWrites_set ha _ _)).trans (itemWrites_set ha _ _)

theorem get_fillItem {S : List UInt32} {a b magic next prev nextFree prevFree : UInt32}
    (hS : Spaced S) (ha : a ∈ S) (hb : b ∈ S) (g : ItemField) :
    (h.fillItem a magic next prev nextFree prevFree).get b g =
      if b = a then match g with
        | .magic => magic
        | .poolPtr => h.addr
        | .next => next
        | .prev => prev
        | .nextFree => nextFree
        | .prevFree => prevFree
      else h.get b g := by
  simp only [fillItem, addr_set]
  rw [get_set hS ha hb, get_set hS ha hb, get_set hS ha hb, get_set hS ha hb, get_set hS ha hb,
    get_set hS ha hb]
  by_cases hba : b = a
  · cases g <;> simp only [reduceCtorEq, if_true, if_false, if_pos hba]
  · cases g <;> simp only [reduceCtorEq, if_true, if_false, if_neg hba]

theorem get_rtMemheapInit {addr start t : UInt32}
    (hinit : h = rtMemheapInit ram addr freeHeader start size)
    (ht : t = start + (rtAlignDown size - 2 * memheapSize) + memheapSize)
    (hS : Spaced [freeHeader, start, t]) (hfs : freeHeader ≠ start) (hft : freeHeader ≠ t)
    (hst : start ≠ t) :
    h.get freeHeader .nextFree = start ∧ h.get freeHeader .prevFree = start ∧
      (∀ g, h.get start g = match g with
        | .magic => memheapMagic
        | .poolPtr => addr
        | .next => t
        | .prev => t
        | .nextFree => freeHeader
        | .prevFree => freeHeader) ∧
      (∀ g, h.get t g = match g with
        | .magic => memheapMagic ||| memheapUsed
        | .poolPtr => addr
        | .next => start
        | .prev => start
        | .nextFree => 0
        | .prevFree => 0) ∧
      ∀ y, (∀ a ∈ [freeHeader, start, t], y < a.toNat ∨ a.toNat + 24 ≤ y) → h.ram y = ram y := by
  have hf_mem : freeHeader ∈ [freeHeader, start, t] := mem_cons_self
  have hs_mem : start ∈ [freeHeader, start, t] := by simp
  have ht_mem : t ∈ [freeHeader, start, t] := by simp
  -- the `free_header`
  obtain ⟨pool, hpool⟩ : ∃ pool, pool = rtAlignDown size := ⟨_, rfl⟩
  rw [← hpool] at ht
  obtain ⟨h₁, hh₁⟩ : ∃ h₁ : Memheap, h₁ = (⟨ram, addr, freeHeader, start, pool,
    pool - 2 * memheapSize, pool - (pool - 2 * memheapSize), start, freeHeader⟩ : Memheap).fillItem
      freeHeader memheapMagic 0 0 freeHeader freeHeader := ⟨_, rfl⟩
  have haddr₁ : h₁.addr = addr := by rw [hh₁]; rfl
  -- the first block
  obtain ⟨h₂, hh₂⟩ : ∃ h₂, h₂ = ((h₁.fillItem start memheapMagic 0 0 start start).set start .next
    t).set start .prev t := ⟨_, rfl⟩
  have hlist₂ : h₂.freeList = freeHeader := by rw [hh₂, hh₁]; rfl
  have haddr₂ : h₂.addr = addr := by rw [hh₂, ← haddr₁]; rfl
  have hget₂ : ∀ b ∈ [freeHeader, start, t], ∀ g, h₂.get b g =
      if b = start then match g with
        | .magic => memheapMagic
        | .poolPtr => addr
        | .next => t
        | .prev => t
        | .nextFree => start
        | .prevFree => start
      else h₁.get b g := by
    intro b hb g
    rw [hh₂, get_set hS hs_mem hb, get_set hS hs_mem hb, get_fillItem hS hs_mem hb, haddr₁]
    by_cases hbs : b = start
    · cases g <;> simp only [reduceCtorEq, if_true, if_false, if_pos hbs]
    · cases g <;> simp only [reduceCtorEq, if_true, if_false, if_neg hbs]
  have hnextFree₂ : h₂.get freeHeader .nextFree = freeHeader := by
    rw [hget₂ _ hf_mem, if_neg hfs, hh₁, get_fillItem hS hf_mem hf_mem, if_pos rfl]
  -- it is inserted into the free list
  obtain ⟨h₃, hh₃⟩ : ∃ h₃, h₃ = h₂.linkFree start := ⟨_, rfl⟩
  have haddr₃ : h₃.addr = addr := by rw [hh₃, ← haddr₂]; rfl
  have hget₃ := fun b (hb : b ∈ [freeHeader, start, t]) g =>
    get_linkFree (h := h₂) hS hs_mem (hlist₂ ▸ hf_mem) (by rw [hlist₂, hnextFree₂]; exact hf_mem)
      (hlist₂ ▸ Ne.symm hfs) hb g
  simp only [hlist₂, hnextFree₂, ← hh₃] at hget₃
  have hnext : ((h₁.fillItem start memheapMagic 0 0 start start).set start .next t).get start .next =
      t := by
    rw [get_set hS hs_mem hs_mem, if_pos rfl, if_pos rfl]
  have hnext₃ : h₃.get start .next = t :=
    (hget₃ _ hs_mem .next).trans ((hget₂ _ hs_mem .next).trans (if_pos rfl))
  -- the tailer
  have hh : h = h₃.fillItem t (memheapMagic ||| memheapUsed) start start 0 0 := by
    rw [hinit]
    simp only [rtMemheapInit]
    rw [← hpool, ← ht, ← hh₁, hnext, ← hh₂, ← hh₃, hnext₃]
  have hget : ∀ b ∈ [freeHeader, start, t], ∀ g, b ≠ t → h.get b g = h₃.get b g := by
    intro b hb g hne
    rw [hh, get_fillItem hS ht_mem hb, if_neg hne]
  have hwrites : ItemWrites [freeHeader, start, t] h₁ h := by
    have hw₂ : ItemWrites [freeHeader, start, t] h₁ h₂ := by
      rw [hh₂]
      exact ((itemWrites_fillItem hs_mem).trans (itemWrites_set hs_mem _ _)).trans
        (itemWrites_set hs_mem _ _)
    have hw₃ : ItemWrites [freeHeader, start, t] h₂ h₃ := by
      rw [hh₃]
      exact itemWrites_linkFree hS hs_mem (hlist₂ ▸ hf_mem)
        (by rw [hlist₂, hnextFree₂]; exact hf_mem) (hlist₂ ▸ Ne.symm hfs)
    rw [hh]
    exact (hw₂.trans hw₃).trans (itemWrites_fillItem ht_mem)
  refine ⟨?_, ?_, fun g => ?_, fun g => ?_, fun y hy => ?_⟩
  · exact (hget _ hf_mem _ hft).trans ((hget₃ _ hf_mem .nextFree).trans (if_pos rfl))
  · exact (hget _ hf_mem _ hft).trans ((hget₃ _ hf_mem .prevFree).trans (if_pos rfl))
  · rw [hget _ hs_mem _ hst, hget₃ _ hs_mem]
    cases g <;> simp only [hget₂ _ hs_mem, if_neg (Ne.symm hfs), if_pos]
  · rw [hh, get_fillItem hS ht_mem ht_mem, if_pos rfl, haddr₃]
  · rw [hwrites y hy, hh₁]
    exact itemWrites_fillItem hf_mem y hy

theorem spot_zero (start : UInt32) : spot start 0 = start := by
  rw [spot, Nat.add_zero, UInt32.ofNat_toNat]

/-- The items that `rt_memheap_init` fills. -/
structure InitItems (h : Memheap) (freeHeader start size t : UInt32) : Prop where
  tail : t = spot start ((rtAlignDown size).toNat - 24)
  tail_eq : t = start + (rtAlignDown size - 2 * memheapSize) + memheapSize
  shape : Shape h [⟨(rtAlignDown size).toNat - 24, false⟩, ⟨24, true⟩]
  spots_eq : spots h.startAddr [⟨(rtAlignDown size).toNat - 24, false⟩, ⟨24, true⟩] = [start, t]
  spaced : Spaced [freeHeader, start, t]
  header_ne : freeHeader ≠ start ∧ freeHeader ≠ t
  first_ne : start ≠ t

theorem initItems {start : UInt32} (hregion : Region freeHeader start size)
    (hstart : h.startAddr = start) (hsize : h.poolSize = rtAlignDown size)
    (hlist : h.freeList = freeHeader) : ∃ t, InitItems h freeHeader start size t := by
  obtain ⟨hplace, hbound, hapart⟩ := hregion
  have h24 : memheapSize.toNat = 24 := rfl
  have h48 : (2 * memheapSize).toNat = 48 := rfl
  obtain ⟨pool, hpool⟩ : ∃ pool, pool = rtAlignDown size := ⟨_, rfl⟩
  rw [← hpool] at hplace hbound hapart hsize
  have hpool_lt := pool.toNat_lt
  have havail : (pool - 2 * memheapSize).toNat = pool.toNat - 48 := by
    rw [toNat_sub, h48]
    omega
  obtain ⟨t, ht⟩ : ∃ t, t = start + (pool - 2 * memheapSize) + memheapSize := ⟨_, rfl⟩
  have htail : t = spot start (pool.toNat - 24) := by
    have hsum : 0 + (pool.toNat - 48) + 24 = pool.toNat - 24 := by omega
    rw [ht, ← spot_zero start, spot_add, spot_add, havail, h24, hsum, spot_zero]
  have hshape : Shape h [⟨pool.toNat - 24, false⟩, ⟨24, true⟩] := by
    refine ⟨?_, ?_, ?_, ?_, rfl⟩
    · simp
      omega
    · simp [hsize]
      omega
    · simp [hstart]
      omega
    · simp [hstart, hlist]
      omega
  have hspots : spots h.startAddr [⟨pool.toNat - 24, false⟩, ⟨24, true⟩] = [start, t] := by
    simp [spots, starts, hstart, htail, spot_zero]
  have hS := hshape.spaced
  have hnot := hshape.freeList_notMem
  rw [hspots, hlist] at hS hnot
  simp only [mem_cons, not_mem_nil, or_false, not_or] at hnot
  have hst : start ≠ t := by
    intro heq
    have ht' := congrArg toNat (heq.trans htail)
    rw [spot, toNat_ofNat'] at ht'
    omega
  subst hpool
  exact ⟨t, htail, ht, hshape, hspots, hS, hnot, hst⟩

theorem right_init {addr start : UInt32} (hregion : Region freeHeader start size)
    (hinit : h = rtMemheapInit ram addr freeHeader start size) : Right h h [] := by
  have h48 : (2 * memheapSize).toNat = 48 := rfl
  have hfields : h.addr = addr ∧ h.startAddr = start ∧ h.poolSize = rtAlignDown size ∧
      h.freeList = freeHeader ∧ h.availableSize = rtAlignDown size - 2 * memheapSize := by
    rw [hinit]
    exact ⟨rfl, rfl, rfl, rfl, rfl⟩
  obtain ⟨haddr, hstart, hsize, hlist, havail'⟩ := hfields
  obtain ⟨t, htail, ht, hshape, hspots, hS, hnot, hst⟩ := initItems hregion hstart hsize hlist
  have hplace := hregion.place
  obtain ⟨pool, hpool⟩ : ∃ pool, pool = rtAlignDown size := ⟨_, rfl⟩
  rw [← hpool] at hplace hsize havail' htail hshape hspots
  have hpool_lt := pool.toNat_lt
  have havail : (pool - 2 * memheapSize).toNat = pool.toNat - 48 := by
    rw [toNat_sub, h48]
    omega
  obtain ⟨hnextFree, hprevFree, hget_start, hget_tail, -⟩ :=
    get_rtMemheapInit hinit ht hS hnot.1 hnot.2 hst
  refine ⟨[⟨pool.toNat - 24, false⟩, ⟨24, true⟩], ⟨⟨hshape, ?_, ?_, ⟨[0], ?_, ?_⟩, ?_⟩, ?_, ?_⟩,
    ⟨nodup_nil, ?_⟩, .refl h⟩
  · intro u x hx
    rw [hstart, haddr]
    cases u with
    | false =>
      obtain rfl : x = 0 := by simpa [offsets] using hx
      rw [spot_zero]
      exact ⟨hget_start .magic, hget_start .poolPtr⟩
    | true =>
      obtain rfl : x = pool.toNat - 24 := by simpa [offsets] using hx
      rw [← htail]
      exact ⟨hget_tail .magic, hget_tail .poolPtr⟩
  · rw [hspots]
    refine ⟨⟨⟨hget_start .next, hget_tail .prev⟩, hget_tail .next, hget_start .prev⟩, ?_⟩
    simpa using hst
  · simp only [map_cons, map_nil, hstart, spot_zero, hlist]
    refine ⟨⟨⟨hnextFree, hget_start .prevFree⟩, hget_start .nextFree, hprevFree⟩, ?_⟩
    simpa using hnot.1
  · simp [offsets]
  · simp [offsets, starts]
  · simp [Coalesced]
  · rw [havail', havail]
    simp
    omega
  · intro a
    simp [offsets]

/-- `rt_memheap_init` writes into the region and the `free_header` only. -/
theorem ram_init {addr start : UInt32} (hregion : Region freeHeader start size)
    (hinit : h = rtMemheapInit ram addr freeHeader start size) {y : ℕ}
    (hout : y < start.toNat ∨ start.toNat + (rtAlignDown size).toNat ≤ y)
    (hheader : y < freeHeader.toNat ∨ freeHeader.toNat + 24 ≤ y) : h.ram y = ram y := by
  have hfields : h.startAddr = start ∧ h.poolSize = rtAlignDown size ∧ h.freeList = freeHeader := by
    rw [hinit]
    exact ⟨rfl, rfl, rfl⟩
  obtain ⟨hstart, hsize, hlist⟩ := hfields
  obtain ⟨t, -, ht, hshape, hspots, hS, hnot, hst⟩ := initItems hregion hstart hsize hlist
  obtain ⟨-, -, -, -, hram⟩ := get_rtMemheapInit hinit ht hS hnot.1 hnot.2 hst
  have happ := hshape.outside_apart (y := y) (by rwa [hstart, hsize]) (by rwa [hlist])
  rw [hspots, hlist] at happ
  exact hram y happ

/-- **The invariant holds in every run** in which no block is to grow to a size that wraps around. -/
theorem run_right {addr start : UInt32} {returned : List UInt32}
    (hregion : Region freeHeader start size)
    (hinit : h = rtMemheapInit ram addr freeHeader start size)
    (hrun : Run (step fuel) GrowFits ⟨h, []⟩ returned s) : Right h s.heap s.live :=
  hrun.invariant (fun _ s => Right h s.heap s.live) (right_init hregion hinit)
    fun hr hc hs => right_step hr hc hs

end MemheapRun

end RtThread
