import McCortexM3.Mem.MemheapLive

/-!
# The calls of `memheap.c` and the used blocks

The used blocks of a memory heap, each with its offset and its length, are what the threads know of
it.  A call adds one of them, removes one or moves the end of one; nothing but items is written.

## Main definitions

* `MemheapRun.Holds` — the invariant, with room in the used blocks.
* `MemheapRun.Within` — what a call may write.

## Main results

* `Holds.alloc`, `Holds.free`, `Holds.grow`, `Holds.shrink`, `Holds.writeRun` — the calls.
* `Holds.congr_ram` — the invariant needs the region and the `free_header` only.
-/

set_option linter.all false

namespace RtThread

open Option List ByteMemory Tiling

namespace MemheapRun

open Memheap

/-- The blocks `bs` of the heap are represented in memory, and the used ones before the tailer,
which have room for some bytes, are those of the live pointers. -/
structure Holds (h : Memheap) (bs : List Block) (live : List UInt32) : Prop where
  inv : Inv h bs
  pointers : Live h bs live
  room : ∀ {x n}, (x, n) ∈ usedRuns 0 bs → x + 24 < total bs → 36 ≤ n

/-- Items of the blocks before or afterwards have been written. -/
structure Within (h h' : Memheap) (bs bs' : List Block) : Prop where
  frame : SameFrame h h'
  writes : BlockWrites h h' bs bs'

/-- The block at `x`, with its length, belongs to the pointer `p`. -/
structure Owns (h : Memheap) (bs : List Block) (p : UInt32) (x n : ℕ) : Prop where
  run : (x, n) ∈ usedRuns 0 bs
  before : x + 24 < total bs
  offset : p.toNat = h.startAddr.toNat + x + 24

variable {h h' : Memheap} {bs bs' : List Block} {live live' : List UInt32} {x y n m k fuel : ℕ}
variable {p q ptr size newsize : UInt32}

theorem Holds.total_eq (hh : Holds h bs live) : total bs = h.poolSize.toNat :=
  hh.inv.rep.shape.total_eq

theorem Holds.bound (hh : Holds h bs live) : h.startAddr.toNat + total bs ≤ 2 ^ 32 :=
  hh.inv.rep.shape.bound

theorem Holds.end_le (hh : Holds h bs live) (hx : (x, n) ∈ usedRuns 0 bs)
    (hlt : x + 24 < total bs) : x + n + 24 ≤ total bs := by
  obtain ⟨l, r, rfl, rfl⟩ := mem_usedRuns.1 hx
  have htail := hh.inv.rep.shape.tail
  cases r with
  | nil =>
    rw [getLast?_append, getLast?_singleton, some_or, some.injEq, Block.mk.injEq] at htail
    simp only [total_append, total_cons, total_nil] at hlt
    omega
  | cons d r =>
    have hd := hh.inv.rep.shape.len d (by simp)
    simp only [total_append, total_cons]
    omega

theorem Holds.exists_owns (hh : Holds h bs live) (hp : p ∈ live) : ∃ x n, Owns h bs p x n := by
  obtain ⟨l, n, d, r, rfl, -, hoffset, -⟩ := hh.pointers.block hh.inv hp
  have hd := hh.inv.rep.shape.len d (by simp)
  have hn := hh.inv.rep.shape.len ⟨n, true⟩ (by simp)
  refine ⟨total l, n, mem_usedRuns.2 ⟨l, d :: r, rfl, (Nat.zero_add _).symm⟩, ?_, hoffset⟩
  simp only [total_append, total_cons] at hn ⊢
  omega

section

variable (hh : Holds h bs live) (ho : Owns h bs p x n)
include hh ho

theorem Owns.spot_eq : p = spot h.startAddr (x + 24) := by
  have hbound := hh.bound
  have hbefore := ho.before
  apply UInt32.toNat_inj.1
  rw [ho.offset, spot, UInt32.toNat_ofNat']
  omega

theorem Owns.header_eq : p - memheapSize = spot h.startAddr x := by
  rw [ho.spot_eq hh, spot_sub]

omit hh in
theorem Owns.mem_offsets : x ∈ offsets true 0 bs := by
  rw [offsets_true_eq]
  exact List.mem_map.2 ⟨_, ho.run, rfl⟩

theorem Owns.mem_live : p ∈ live :=
  (hh.pointers.mem p).2 ⟨x, ho.mem_offsets, ho.before, ho.spot_eq hh⟩

/-- A block follows the user's: the run list does not end with it. -/
theorem Owns.split : ∃ l d r, bs = l ++ ⟨n, true⟩ :: d :: r ∧ x = total l := by
  have hend := hh.end_le ho.run ho.before
  obtain ⟨l, r, rfl, hx⟩ := mem_usedRuns.1 ho.run
  obtain rfl : x = total l := hx.trans (Nat.zero_add _)
  cases r with
  | nil =>
    simp only [total_append, total_cons, total_nil] at hend
    omega
  | cons d r => exact ⟨l, d, r, rfl, rfl⟩

theorem Owns.len_ge : 36 ≤ n := hh.room ho.run ho.before

theorem Owns.end_le : x + n + 24 ≤ h.poolSize.toNat := by
  rw [← hh.total_eq]
  exact hh.end_le ho.run ho.before

theorem Owns.header : (h.memitemSize (p - memheapSize)).toNat = n - 24 ∧
    h.IsUsed (p - memheapSize) ∧ h.get (p - memheapSize) .poolPtr = h.addr := by
  have hinv := hh.inv
  have hoff := ho.mem_offsets
  rw [ho.header_eq hh]
  obtain ⟨l, d, r, rfl, rfl⟩ := ho.split hh
  exact ⟨hinv.rep.memitemSize, (hinv.rep.isUsed_iff hoff).2 rfl, (hinv.rep.tags _ _ hoff).2⟩

end

theorem Owns.ne (ho : Owns h bs p x n) (ho' : Owns h bs q y k) (hne : p ≠ q) : x ≠ y := by
  rintro rfl
  exact hne (UInt32.toNat_inj.1 (ho.offset.trans ho'.offset.symm))

theorem Within.contents (hw : Within h h' bs bs') (hh : Holds h bs live)
    (hh' : Holds h' bs' live') (hx : (x, n) ∈ usedRuns 0 bs) (hx' : (x, m) ∈ usedRuns 0 bs')
    (hle : h.startAddr.toNat + x + 24 ≤ y) (hlt : y < h.startAddr.toNat + x + min n m) :
    h'.ram y = h.ram y :=
  hw.writes.contents hh.inv.rep.shape (hh'.inv.rep.shape.congr hw.frame.symm) hx hx' hle hlt

theorem Within.outside (hw : Within h h' bs bs') (hh : Holds h bs live)
    (hh' : Holds h' bs' live')
    (hregion : y < h.startAddr.toNat ∨ h.startAddr.toNat + h.poolSize.toNat ≤ y)
    (hheader : y < h.freeList.toNat ∨ h.freeList.toNat + 24 ≤ y) : h'.ram y = h.ram y :=
  hw.writes.outside hh.inv.rep.shape (hh'.inv.rep.shape.congr hw.frame.symm) hregion hheader

/-! ### The calls -/

/-- **`rt_memheap_alloc`** adds a block, or returns `RT_NULL`. -/
theorem Holds.alloc (hh : Holds h bs live) (hs : h.rtMemheapAlloc fuel size = some (h', p)) :
    p = 0 ∧ h' = h ∨ ∃ bs' x m, Holds h' bs' (p :: live) ∧ Within h h' bs bs' ∧
      p.toNat = h.startAddr.toNat + x + 24 ∧ (memheapAlign size).toNat + 24 ≤ m ∧
      ∀ {y j}, (y, j) ∈ usedRuns 0 bs' ↔ (y, j) ∈ usedRuns 0 bs ∨ y = x ∧ j = m := by
  rcases hh.inv.rtMemheapAlloc hs with ⟨rfl, rfl⟩ | ⟨x, bs', rfl, ha⟩
  · exact .inl ⟨rfl, rfl⟩
  · obtain ⟨m, hm, hruns⟩ := ha.runs
    have hmin := memheapAlign_ge size
    have htotal := total_congr hh.inv ha.inv ha.frame
    have hlive := hh.pointers.alloc hh.inv ha
    obtain ⟨y, j, hself⟩ : ∃ y j, y = x ∧ (y, j) ∈ usedRuns 0 bs' :=
      ⟨x, m, rfl, hruns.2 (.inr ⟨rfl, rfl⟩)⟩
    refine .inr ⟨bs', x, m, ⟨ha.inv, hlive, fun {y j} hy hlt => ?_⟩, ⟨ha.frame, ha.writes⟩, ?_, hm,
      hruns⟩
    · rcases hruns.1 hy with hy | ⟨-, rfl⟩
      · exact hh.room hy (htotal ▸ hlt)
      · omega
    · have hend := usedRuns_le_total (hruns.2 (.inr ⟨rfl, rfl⟩))
      have hbound := hh.bound
      rw [spot, UInt32.toNat_ofNat']
      omega

/-- **`rt_memheap_free`** removes the block. -/
theorem Holds.free (hh : Holds h bs live) (ho : Owns h bs ptr x n) :
    ∃ h' bs', h.rtMemheapFree ptr = some h' ∧ Holds h' bs' (live.erase ptr) ∧
      Within h h' bs bs' ∧
      ∀ {y j}, (y, j) ∈ usedRuns 0 bs' ↔ (y, j) ∈ usedRuns 0 bs ∧ y ≠ x := by
  have hspot := ho.spot_eq hh
  have hnull : ptr ≠ 0 := hh.pointers.ne_zero hh.inv (ho.mem_live hh)
  have hoff := ho.mem_offsets
  obtain ⟨l, d, r, rfl, rfl⟩ := ho.split hh
  obtain ⟨h', bs', hs, hf⟩ := hh.inv.rtMemheapFree hspot hnull
  have htotal := total_congr hh.inv hf.inv hf.frame
  have hlive := hh.pointers.free hh.inv hf hoff
  rw [← hspot] at hlive
  exact ⟨h', bs', hs, ⟨hf.inv, hlive, fun hy hlt => hh.room (hf.runs.1 hy).1 (htotal ▸ hlt)⟩,
    ⟨hf.frame, hf.writes⟩, hf.runs⟩

theorem le_memheapAlign (hfits : size.toNat + 3 < 2 ^ 32) :
    size.toNat ≤ (memheapAlign size).toNat := by
  have halign := le_toNat_rtAlign hfits
  have h12 : memheapMinialloc.toNat = 12 := rfl
  rw [memheapAlign]
  split
  case isTrue hlt =>
    rw [UInt32.lt_iff_toNat_lt] at hlt
    omega
  case isFalse => exact halign

theorem Holds.resized (hh : Holds h bs live) (hk : 12 ≤ k)
    (hr : Resized h h' bs bs' x (k + 24)) : Holds h' bs' live := by
  have htotal := total_congr hh.inv hr.inv hr.frame
  refine ⟨hr.inv, hh.pointers.congr hr.frame htotal hr.used, fun hy hlt => ?_⟩
  rcases hr.runs.1 hy with ⟨-, rfl⟩ | ⟨hy, -⟩
  · omega
  · exact hh.room hy (htotal ▸ hlt)

/-- The block **grows** in place. -/
theorem Holds.grow {header : UInt32} (hh : Holds h bs live) (ho : Owns h bs ptr x n)
    (hheader : header = ptr - memheapSize) (hgt : h.memitemSize header < memheapAlign newsize)
    (hfree : ¬ h.IsUsed (h.get header .next))
    (hlt : memheapAlign newsize + memheapMinialloc <
      h.memitemSize (h.get header .next) + h.memitemSize header)
    (hfits : (memheapAlign newsize).toNat + 12 < 2 ^ 32) :
    ∃ bs', Holds (h.growInPlace header ptr (h.memitemSize header) (memheapAlign newsize)) bs' live ∧
      Resized h (h.growInPlace header ptr (h.memitemSize header) (memheapAlign newsize)) bs bs' x
        ((memheapAlign newsize).toNat + 24) := by
  obtain ⟨bs', y, hoffset, hres⟩ :=
    hh.pointers.grow hh.inv (ho.mem_live hh) hheader hgt hfree hlt hfits
  obtain rfl : y = x := by
    have hx := ho.offset
    omega
  exact ⟨bs', hh.resized (memheapAlign_ge newsize) hres, hres⟩

/-- The block **shrinks** in place. -/
theorem Holds.shrink {header : UInt32} (hh : Holds h bs live) (ho : Owns h bs ptr x n)
    (hheader : header = ptr - memheapSize) (hle : memheapAlign newsize ≤ h.memitemSize header)
    (hlt : memheapAlign newsize + memheapSize + memheapMinialloc < h.memitemSize header) :
    ∃ bs', Holds (h.shrinkInPlace header (memheapAlign newsize)) bs' live ∧
      Resized h (h.shrinkInPlace header (memheapAlign newsize)) bs bs' x
        ((memheapAlign newsize).toNat + 24) := by
  obtain ⟨bs', y, hoffset, hres⟩ := hh.pointers.shrink hh.inv (ho.mem_live hh) hheader hle hlt
  obtain rfl : y = x := by
    have hx := ho.offset
    omega
  exact ⟨bs', hh.resized (memheapAlign_ge newsize) hres, hres⟩

theorem Resized.within (hr : Resized h h' bs bs' x k) : Within h h' bs bs' := ⟨hr.frame, hr.writes⟩

/-- **The invariant needs the region** and the `free_header` only. -/
theorem Holds.congr_ram (hh : Holds h bs live) (hf : SameFrame h h')
    (havail : h'.availableSize = h.availableSize)
    (hram : ∀ y, h.freeList.toNat ≤ y ∧ y < h.freeList.toNat + 24 ∨
      h.startAddr.toNat ≤ y ∧ y < h.startAddr.toNat + h.poolSize.toNat → h'.ram y = h.ram y) :
    Holds h' bs live :=
  ⟨⟨hh.inv.rep.congr_ram hf hram, hh.inv.coalesced, by rw [havail, hh.inv.available]⟩,
    hh.pointers.congr hf rfl rfl, hh.room⟩

/-- Something is **written into a block**. -/
theorem Holds.writeRun (hh : Holds h bs live) (hx : (x, n) ∈ usedRuns 0 bs) {ram : ℕ → UInt8}
    (hram : ∀ y, y < h.startAddr.toNat + x + 24 ∨ h.startAddr.toNat + x + n ≤ y →
      ram y = h.ram y) : Holds { h with ram := ram } bs live := by
  obtain ⟨l, r, rfl, hxl⟩ := mem_usedRuns.1 hx
  obtain rfl : x = total l := hxl.trans (Nat.zero_add _)
  exact ⟨⟨hh.inv.rep.writeBlock ⟨rfl, rfl, rfl, rfl⟩ hram, hh.inv.coalesced, hh.inv.available⟩,
    hh.pointers.congr ⟨rfl, rfl, rfl, rfl⟩ rfl rfl, hh.room⟩

end MemheapRun

end RtThread
