import McCortexM3.Mem.Live

/-!
# The heap is tiled by its blocks

In every run, the blocks that are found by following `next` from the offset `0` on tile the
region, and the used ones are those that the threads have got.

`rt_calloc` clears the bytes that it was asked for, also when `RT_ALIGN` has wrapped around and
`rt_malloc` has allocated the smallest block: it clears the rest of the memory.  And `lfree` is
the lowest free block only as long as no used block below it is split in place by `rt_realloc`.

## Main definitions

* `TilesRegion`, `LfreeLowest` — what is to hold of the offsets of the blocks.

## Main results

* `run_tiled`, `run_lowest` — it holds in such runs.
* `not_run_tiled`, `not_run_lowest` — what happens in other runs.
-/

set_option linter.all false

namespace RtThread

open Option List ByteMemory Tiling
open UInt32 (ofNat toNat_inj)

namespace HeapRun

/-- The offsets `ptrs` of the blocks, in the order of `next`: the blocks tile the region between
`heap_ptr` and `heap_end`, no two free ones are neighbours, and the used ones are those of the
live pointers.  The payload of the block at `p` begins at `p + SIZEOF_STRUCT_MEM` and ends where
the next block begins. -/
structure TilesRegion (h : Heap) (live ptrs : List UInt32) : Prop where
  heapEnd : h.heapEnd.toNat = h.heapPtr.toNat + (h.memSizeAligned.toNat + 12)
  address : ∀ p ∈ ptrs, (h.block p).toNat = h.heapPtr.toNat + p.toNat
  first : ptrs.head? = some 0
  firstPrev : h.prev (h.block 0) = 0
  linked : ptrs.IsChain fun p q => h.next (h.block p) = q ∧ h.prev (h.block q) = p
  last : ∀ p ∈ ptrs.getLast?, h.block (h.next (h.block p)) = h.heapEnd
  inside : ∀ p ∈ ptrs, p.toNat + 12 ≤ (h.next (h.block p)).toNat ∧
    (h.next (h.block p)).toNat ≤ h.memSizeAligned.toNat + 12
  disjoint : ptrs.Pairwise fun p q => (h.next (h.block p)).toNat ≤ q.toNat
  coalesced : ptrs.IsChain fun p q => h.used (h.block p) ≠ 0 ∨ h.used (h.block q) ≠ 0
  nodup : live.Nodup
  live : ∀ a, a ∈ live ↔ ∃ p ∈ ptrs, h.used (h.block p) ≠ 0 ∧ a = h.block p + sizeofStructMem

/-- `lfree` points to the lowest free block of `ptrs`, or to `heap_end` when there is none. -/
def LfreeLowest (h : Heap) (ptrs : List UInt32) : Prop :=
  (∀ p ∈ ptrs, h.used (h.block p) = 0 → h.lfree ≤ h.block p) ∧
    ((∃ p ∈ ptrs, h.used (h.block p) = 0 ∧ h.lfree = h.block p) ∨
      (∀ p ∈ ptrs, h.used (h.block p) ≠ 0) ∧ h.lfree = h.heapEnd)

variable {lowest : Prop} {h h₀ : Heap} {bs l r : List Block} {b : Block} {live : List UInt32} {x : ℕ}

theorem toNat_ofNat_starts (hrep : h.Rep bs) (hx : x ≤ total bs) :
    (ofNat x).toNat = x ∧ (h.block (.ofNat x)).toNat = h.heapPtr.toNat + x := by
  have hbound := hrep.bound
  have hx' : (ofNat x).toNat = x := by
    rw [UInt32.toNat_ofNat']
    omega
  exact ⟨hx', by rw [hrep.toNat_block (hx'.symm ▸ hx), hx']⟩

theorem header_ofNat (hrep : h.Rep (l ++ b :: r)) :
    Header h.ram (h.block (.ofNat (total l))).toNat b.used (total l + b.len) (lastOffset 0 0 l) :=
  hrep.header (toNat_ofNat_starts hrep (by simp)).2

section

variable (hrep : h.Rep bs)
include hrep

theorem mem_offsets_iff_used (hx : x ∈ starts 0 bs) :
    (x ∈ offsets true 0 bs ↔ h.used (h.block (.ofNat x)) ≠ 0) ∧
      (x ∈ offsets false 0 bs ↔ h.used (h.block (.ofNat x)) = 0) := by
  obtain ⟨l, ⟨n, u⟩, r, rfl, rfl⟩ := exists_of_mem_starts hx
  have hused := Heap.used_eq_zero_iff (header_ofNat hrep)
  have hpos : ∀ b ∈ l ++ ⟨n, u⟩ :: r, 0 < b.len :=
    fun b hb => Nat.lt_of_lt_of_le (by decide) (hrep.len b hb)
  have hself := mem_offsets_middle 0 l n u r
  rw [Nat.zero_add] at hself
  cases u with
  | true =>
    have hnot := not_mem_offsets_middle (u := false) hpos nofun
    simp [hself, hnot, hused]
  | false =>
    have hnot := not_mem_offsets_middle (u := true) hpos nofun
    simp [hself, hnot, hused]

theorem linked_starts :
    ((starts 0 bs).map ofNat).IsChain
      fun p q => h.next (h.block p) = q ∧ h.prev (h.block q) = p := by
  rw [isChain_map]
  apply isChain_starts
  intro l b c r hsplit
  subst hsplit
  rw [Nat.zero_add]
  have hrep' : h.Rep ((l ++ [b]) ++ c :: r) := by simpa using hrep
  have hnext := Heap.next_eq (header_ofNat hrep)
  have hprev := Heap.prev_eq (header_ofNat hrep')
  rw [total_append, total_cons, total_nil, Nat.add_zero, lastOffset_append_cons, lastOffset_nil,
    Nat.zero_add] at hprev
  refine ⟨toNat_inj.1 ?_, toNat_inj.1 ?_⟩
  · rw [hnext, (toNat_ofNat_starts hrep (by simp)).1]
  · rw [hprev, (toNat_ofNat_starts hrep (by simp)).1]

theorem last_starts {p : UInt32} (hp : p ∈ ((starts 0 bs).map ofNat).getLast?) :
    h.block (h.next (h.block p)) = h.heapEnd := by
  rw [getLast?_map] at hp
  obtain ⟨x, hx, rfl⟩ := map_eq_some_iff.1 hp
  obtain ⟨l, b, rfl, rfl⟩ := getLast?_starts hx
  rw [Nat.zero_add]
  have hnext := Heap.next_eq (header_ofNat (r := []) hrep)
  apply toNat_inj.1
  rw [hrep.toNat_block (by rw [hnext]; simp), hnext, hrep.heapEnd]
  simp

theorem disjoint_starts :
    ((starts 0 bs).map ofNat).Pairwise fun p q => (h.next (h.block p)).toNat ≤ q.toNat := by
  have hlen := hrep.len
  rw [pairwise_map]
  have hpair : (starts 0 bs).Pairwise fun x y => x ∈ starts 0 bs → y ∈ starts 0 bs →
      (h.next (h.block (.ofNat x))).toNat ≤ (ofNat y).toNat := by
    apply pairwise_starts (fun b hb => Nat.lt_of_lt_of_le (by decide) (hlen b hb))
    intro l b r hsplit y hly _ hy
    have hy' := mem_starts_bounds hlen hy
    rw [(toNat_ofNat_starts hrep (by omega)).1]
    subst hsplit
    rw [Nat.zero_add] at hly ⊢
    rwa [Heap.next_eq (header_ofNat hrep)]
  exact hpair.imp_of_mem fun {x y} hx hy hxy => hxy hx hy

theorem coalesced_starts (hc : Coalesced bs) :
    ((starts 0 bs).map ofNat).IsChain
      fun p q => h.used (h.block p) ≠ 0 ∨ h.used (h.block q) ≠ 0 := by
  rw [isChain_map]
  apply isChain_starts
  intro l b c r hsplit
  subst hsplit
  rw [Nat.zero_add]
  have hrep' : h.Rep ((l ++ [b]) ++ c :: r) := by simpa using hrep
  have hused := Heap.used_eq_zero_iff (header_ofNat hrep)
  have hused' := Heap.used_eq_zero_iff (header_ofNat hrep')
  rw [total_append, total_cons, total_nil, Nat.add_zero] at hused'
  rw [ne_eq, ne_eq, hused, hused', Bool.not_eq_false, Bool.not_eq_false]
  by_cases hb : b.used = true
  · exact .inl hb
  · have hhead := (coalesced_middle.1 hc).2.2.resolve_left hb
    exact .inr (hhead.2 c rfl)

theorem live_starts (hlive : Live h bs live) (a : UInt32) :
    a ∈ live ↔ ∃ p ∈ (starts 0 bs).map ofNat,
      h.used (h.block p) ≠ 0 ∧ a = h.block p + sizeofStructMem := by
  have hsize : sizeofStructMem.toNat = 12 := rfl
  have hbound := hrep.bound
  have haddr : ∀ x ∈ starts 0 bs, a.toNat = h.heapPtr.toNat + x + 12 ↔
      a = h.block (.ofNat x) + sizeofStructMem := by
    intro x hx
    have hx' := mem_starts_bounds hrep.len hx
    obtain ⟨-, hblock⟩ := toNat_ofNat_starts hrep (x := x) (by omega)
    rw [← toNat_inj, UInt32.toNat_add, hblock, hsize]
    omega
  rw [hlive.mem]
  constructor
  · rintro ⟨x, hx, hax⟩
    have hmem : x ∈ starts 0 bs := mem_starts.2 ⟨true, hx⟩
    exact ⟨_, List.mem_map.2 ⟨x, hmem, rfl⟩, (mem_offsets_iff_used hrep hmem).1.1 hx,
      (haddr x hmem).1 hax⟩
  · rintro ⟨p, hp, hused, hap⟩
    obtain ⟨x, hx, rfl⟩ := List.mem_map.1 hp
    exact ⟨x, (mem_offsets_iff_used hrep hx).1.2 hused, (haddr x hx).2 hap⟩

end

theorem tilesRegion_of_inv (hinv : h.Inv lowest bs) (hlive : Live h bs live) :
    TilesRegion h live ((starts 0 bs).map ofNat) := by
  have hrep := hinv.rep
  have htotal := hrep.total_eq
  have hne : bs ≠ [] := by
    rintro rfl
    rw [total_nil] at htotal
    omega
  obtain ⟨c, bs', hbs⟩ := exists_cons_of_ne_nil hne
  refine ⟨?_, ?_, ?_, ?_, linked_starts hrep, fun p hp => last_starts hrep hp,
    ?_, disjoint_starts hrep, coalesced_starts hrep hinv.coalesced, hlive.nodup,
    live_starts hrep hlive⟩
  · rw [hrep.heapEnd, hrep.total_eq]
  · intro p hp
    obtain ⟨x, hx, rfl⟩ := List.mem_map.1 hp
    have hx' := mem_starts_bounds hrep.len hx
    obtain ⟨hx', hblock⟩ := toNat_ofNat_starts hrep (x := x) (by omega)
    rw [hblock, hx']
  · rw [hbs]
    rfl
  · have hprev := Heap.prev_eq (header_ofNat (l := []) (hbs ▸ hrep))
    exact toNat_inj.1 hprev
  · intro p hp
    obtain ⟨x, hx, rfl⟩ := List.mem_map.1 hp
    obtain ⟨l, b, r, rfl, rfl⟩ := exists_of_mem_starts hx
    have hb := hrep.len b (by simp)
    simp only [total_append, total_cons] at htotal
    rw [Heap.next_eq (header_ofNat hrep), (toNat_ofNat_starts hrep (by simp)).1]
    omega

theorem tilesRegion (hr : Right lowest h₀ h live) :
    ∃ bs, h.Inv lowest bs ∧ TilesRegion h live ((starts 0 bs).map ofNat) := by
  obtain ⟨bs, hinv, hlive, -⟩ := hr
  exact ⟨bs, hinv, tilesRegion_of_inv hinv hlive⟩

theorem lfreeLowest (hlowest : lowest) (hinv : h.Inv lowest bs) :
    LfreeLowest h ((starts 0 bs).map ofNat) := by
  have hrep := hinv.rep
  have hle : ∀ x ∈ starts 0 bs, x + 12 ≤ total bs := fun x hx => by
    have hb := mem_starts_bounds hrep.len hx
    omega
  obtain ⟨y, hy, hymem, hlow⟩ := hinv.lfree
  have hfree : ∀ x ∈ starts 0 bs, h.used (h.block (.ofNat x)) = 0 → y ≤ x := fun x hx hused =>
    hlow hlowest x ((mem_offsets_iff_used hrep hx).2.2 hused)
  refine ⟨?_, ?_⟩
  · intro p hp hused
    obtain ⟨x, hx, rfl⟩ := List.mem_map.1 hp
    have hxy := hfree x hx hused
    have hx' := hle x hx
    rw [UInt32.le_iff_toNat_le, hy, (toNat_ofNat_starts hrep (by omega)).2]
    omega
  · rcases hymem with hymem | rfl
    · have hmem : y ∈ starts 0 bs := mem_starts.2 ⟨false, hymem⟩
      have hy' := hle y hmem
      refine .inl ⟨_, List.mem_map.2 ⟨y, hmem, rfl⟩, (mem_offsets_iff_used hrep hmem).2.1 hymem,
        toNat_inj.1 ?_⟩
      rw [hy, (toNat_ofNat_starts hrep (by omega)).2]
    · refine .inr ⟨?_, toNat_inj.1 (hy.trans hrep.heapEnd.symm)⟩
      intro p hp hused
      obtain ⟨x, hx, rfl⟩ := List.mem_map.1 hp
      have hxy := hfree x hx hused
      have hx' := hle x hx
      omega

theorem TilesRegion.mem_of_next {ptrs : List UInt32} {q : UInt32} (ht : TilesRegion h live ptrs)
    (hnext : h.next (h.block 0) = q) (hend : h.block q ≠ h.heapEnd) : q ∈ ptrs := by
  have hfirst := ht.first
  have hlinked := ht.linked
  have hlast := ht.last
  match ptrs with
  | [] => cases hfirst
  | [p] =>
    obtain rfl : p = 0 := by simpa using hfirst
    exact absurd (hnext ▸ hlast 0 rfl) hend
  | p :: r :: ptrs =>
    obtain rfl : p = 0 := by simpa using hfirst
    obtain rfl : q = r := hnext.symm.trans (isChain_cons_cons.1 hlinked).1.1
    exact mem_cons_of_mem _ mem_cons_self

/-! ### The runs -/

/-- In every run in which `RT_ALIGN` does not wrap around in `rt_calloc`, the blocks tile the region,
no two free ones are neighbours, and the used ones are those of the live pointers. -/
theorem run_tiled (fuel : ℕ) (ram : ℕ → UInt8) (beginAddr endAddr : UInt32) (h : Heap)
    (hinit : Heap.rtSystemHeapInit ram beginAddr endAddr = some h) (returned : List UInt32)
    (s : HeapRun) (hrun : Run (step fuel) CallocFits ⟨h, []⟩ returned s) :
    s.heap.heapPtr = h.heapPtr ∧ s.heap.heapEnd = h.heapEnd ∧
      ∃ ptrs, TilesRegion s.heap s.live ptrs := by
  have hr : Right False h s.heap s.live := run_right hinit (fun _ _ hc => ⟨hc, nofun⟩) hrun
  obtain ⟨bs, -, htiles⟩ := tilesRegion hr
  obtain ⟨-, -, -, hframe⟩ := hr
  exact ⟨hframe.heapPtr, hframe.heapEnd, _, htiles⟩

/-- Two blocks are allocated, the first one is cut in place, and given back. -/
def cutInPlace : List HeapAction :=
  [.malloc 60, .malloc 20, .realloc 0x1010 4, .write 0x1010 7, .realloc 0x1010 100, .calloc 3 5]

theorem run_tiled_cutInPlace :
    ∃ s : HeapRun, s.live = [0x1010, 0x1078, 0x1058] ∧ ∃ ptrs, TilesRegion s.heap s.live ptrs := by
  have hsome : ((Heap.rtSystemHeapInit (fun _ => 0) 0x1001 0x1100).bind fun h =>
      exec (step 9) CallocFits ⟨h, []⟩ cutInPlace).any fun r =>
        r.1.live = [0x1010, 0x1078, 0x1058] := by
    decide +kernel
  obtain ⟨h, s, returned, hinit, hrun, hlive⟩ := of_any hsome
  obtain ⟨-, -, htiles⟩ := run_tiled 9 _ 0x1001 0x1100 h hinit returned s hrun
  exact ⟨s, hlive, htiles⟩

/-- `rt_calloc` with a size that wraps around clears the **other blocks** as well. -/
theorem not_run_tiled :
    ¬ ∀ (fuel : ℕ) (ram : ℕ → UInt8) (beginAddr endAddr : UInt32) (h : Heap)
      (_ : Heap.rtSystemHeapInit ram beginAddr endAddr = some h) (returned : List UInt32)
      (s : HeapRun) (_ : Run (step fuel) (fun _ _ => True) ⟨h, []⟩ returned s),
      ∃ ptrs, TilesRegion s.heap s.live ptrs := by
  intro hall
  have hsome : ((Heap.rtSystemHeapInit (fun _ => 0) 0x1000 0x1100).bind fun h =>
      exec (step 9) (fun _ _ => True) ⟨h, []⟩ [.calloc 1 0xffffffff]).any fun r =>
        r.1.heap.next (r.1.heap.block 0) = 24 ∧ r.1.heap.block 24 ≠ r.1.heap.heapEnd ∧
          r.1.heap.next (r.1.heap.block 24) = 0 := by
    decide +kernel
  obtain ⟨h, s, returned, hinit, hrun, hfacts⟩ := of_any hsome
  obtain ⟨hnext, hend, hcleared⟩ : s.heap.next (s.heap.block 0) = 24 ∧
      s.heap.block 24 ≠ s.heap.heapEnd ∧ s.heap.next (s.heap.block 24) = 0 :=
    hfacts
  obtain ⟨ptrs, ht⟩ := hall 9 _ 0x1000 0x1100 h hinit returned s hrun
  have hin := ht.inside 24 (ht.mem_of_next hnext hend)
  rw [hcleared] at hin
  exact absurd hin.1 (by decide)

/-- In every run in which, besides, every split in place lies behind a free block, `lfree` points
to the lowest free block. -/
theorem run_lowest (fuel : ℕ) (ram : ℕ → UInt8) (beginAddr endAddr : UInt32) (h : Heap)
    (hinit : Heap.rtSystemHeapInit ram beginAddr endAddr = some h) (returned : List UInt32)
    (s : HeapRun)
    (hrun : Run (step fuel) (fun s a => s.CallocFits a ∧ s.SplitsAbove a) ⟨h, []⟩ returned s) :
    ∃ ptrs, TilesRegion s.heap s.live ptrs ∧ LfreeLowest s.heap ptrs := by
  have hr : Right True h s.heap s.live := run_right hinit (fun _ _ hc => ⟨hc.1, fun _ => hc.2⟩) hrun
  obtain ⟨bs, hinv, htiles⟩ := tilesRegion hr
  exact ⟨_, htiles, lfreeLowest trivial hinv⟩

/-- The first block is freed before the second one is cut in place. -/
def cutAbove : List HeapAction :=
  [.malloc 20, .malloc 60, .malloc 20, .free 0x1010, .realloc 0x1030 4]

theorem run_lowest_cutAbove :
    ∃ s : HeapRun, s.live = [0x1030, 0x1078] ∧
      ∃ ptrs, TilesRegion s.heap s.live ptrs ∧ LfreeLowest s.heap ptrs := by
  have hsome : ((Heap.rtSystemHeapInit (fun _ => 0) 0x1001 0x1100).bind fun h =>
      exec (step 9) (fun s a => s.CallocFits a ∧ s.SplitsAbove a) ⟨h, []⟩ cutAbove).any fun r =>
        r.1.live = [0x1030, 0x1078] := by
    decide +kernel
  obtain ⟨h, s, returned, hinit, hrun, hlive⟩ := of_any hsome
  exact ⟨s, hlive, run_lowest 9 _ 0x1001 0x1100 h hinit returned s hrun⟩

/-- After a split in place **below the lowest free block**, `lfree` does not point to the new free
block. -/
theorem not_run_lowest :
    ¬ ∀ (fuel : ℕ) (ram : ℕ → UInt8) (beginAddr endAddr : UInt32) (h : Heap)
      (_ : Heap.rtSystemHeapInit ram beginAddr endAddr = some h) (returned : List UInt32)
      (s : HeapRun) (_ : Run (step fuel) CallocFits ⟨h, []⟩ returned s),
      ∃ ptrs, TilesRegion s.heap s.live ptrs ∧ LfreeLowest s.heap ptrs := by
  intro hall
  have hsome : ((Heap.rtSystemHeapInit (fun _ => 0) 0x1000 0x1100).bind fun h =>
      exec (step 9) CallocFits ⟨h, []⟩ [.malloc 60, .malloc 20, .realloc 0x100c 4]).any fun r =>
        r.1.heap.next (r.1.heap.block 0) = 16 ∧ r.1.heap.block 16 ≠ r.1.heap.heapEnd ∧
          r.1.heap.used (r.1.heap.block 16) = 0 ∧ ¬ r.1.heap.lfree ≤ r.1.heap.block 16 := by
    decide +kernel
  obtain ⟨h, s, returned, hinit, hrun, hfacts⟩ := of_any hsome
  obtain ⟨hnext, hend, hfree, habove⟩ : s.heap.next (s.heap.block 0) = 16 ∧
      s.heap.block 16 ≠ s.heap.heapEnd ∧ s.heap.used (s.heap.block 16) = 0 ∧
      ¬ s.heap.lfree ≤ s.heap.block 16 := hfacts
  obtain ⟨ptrs, ht, hlow, -⟩ := hall 9 _ 0x1000 0x1100 h hinit returned s hrun
  exact habove (hlow 16 (ht.mem_of_next hnext hend) hfree)

end HeapRun

end RtThread
