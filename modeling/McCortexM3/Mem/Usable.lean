import McCortexM3.Mem.Effects

/-!
# What a caller can use

A block has room for the size that it has been asked for, unless `RT_ALIGN` or the product of
`rt_calloc` wraps around.  In a heap that is smaller than the smallest block, the end of the search
wraps around instead, and the search follows `heap_end` for ever.

## Main definitions

* `Heap.Usable` — a used block with room for some bytes, within the heap.
* `Heap.MallocRight`, `Heap.CallocRight` — the function returns, and what it returns is usable.

## Main results

* `HeapRun.Holds.malloc_total` — `rt_malloc` returns.
* `HeapRun.run_usable_iff` — when the functions are right.
-/

set_option linter.all false

namespace RtThread

open Option List Nat ByteMemory Tiling

namespace Heap

/-- `p` is the pointer of a used block of the heap, with a payload of at least `k` bytes. -/
structure Usable (h : Heap) (p : UInt32) (k : ℕ) : Prop where
  chain : h.InChain (p - sizeofStructMem - h.heapPtr)
  used : h.used (p - sizeofStructMem) ≠ 0
  room : k ≤ (h.blockSize p).toNat
  inside : h.heapPtr ≤ p ∧ p.toNat + (h.blockSize p).toNat ≤ h.heapEnd.toNat

/-- `rt_malloc` returns, and a block that it returns holds `size` bytes. -/
structure MallocRight (h : Heap) (size : UInt32) : Prop where
  returns : ∃ least, ∀ fuel ≥ least, ∃ r, h.rtMalloc fuel size = some r
  usable : ∀ fuel h' p, h.rtMalloc fuel size = some (h', p) → p ≠ 0 → h'.Usable p size.toNat

/-- `rt_calloc` returns, and a block that it returns holds `count` objects of `size` bytes. -/
structure CallocRight (h : Heap) (count size : UInt32) : Prop where
  returns : ∃ least, ∀ fuel ≥ least, ∃ r, h.rtCalloc fuel count size = some r
  usable : ∀ fuel h' p, h.rtCalloc fuel count size = some (h', p) → p ≠ 0 →
    h'.Usable p (count.toNat * size.toNat)

variable {h h' : Heap} {bs : List Block} {lowest : Prop} {size ptr : UInt32} {fuel : ℕ}

theorem Inv.rtMalloc_endless (hinv : h.Inv lowest bs) (hnot : ¬ h.SearchEnds size) :
    h.rtMalloc fuel size = none := by
  obtain ⟨hzero, hrest⟩ := not_or.1 hnot
  obtain ⟨hgt, hsmall⟩ := not_or.1 hrest
  have hmin : minSizeAligned.toNat = 12 := rfl
  obtain ⟨l, r, hbs, hstart, -⟩ := hinv.exists_start
  have hround := le_roundSize size
  rw [UInt32.lt_iff_toNat_lt, Nat.not_lt] at hgt
  rw [UInt32.le_iff_toNat_le, hmin, Nat.not_le] at hsmall
  have htwelve : (roundSize size).toNat = 12 := by
    rcases roundSize_cases size with heq | heq
    · rw [heq] at hround ⊢
      omega
    · exact heq
  have hle : ¬ rtAlign size > h.memSizeAligned := by
    rw [gt_iff_lt, UInt32.lt_iff_toNat_lt]
    omega
  rw [Heap.rtMalloc, if_neg hzero, if_neg hle, ← roundSize]
  dsimp only
  rw [hinv.rep.search_endless hbs hstart (by omega) (by omega), bind_none]

theorem Inv.search_of_finds (hinv : h.Inv lowest bs) (hfinds : h.Finds size)
    (hfuel : bs.length < fuel) :
    (rtAlign size).toNat ≤ h.memSizeAligned.toNat ∧
      ∃ ptr l n r, h.mallocSearch (roundSize size) fuel (h.lfree - h.heapPtr) = some (some ptr) ∧
        bs = l ++ ⟨n, false⟩ :: r ∧ ptr.toNat = total l ∧ (roundSize size).toNat + 12 ≤ n := by
  obtain ⟨p, hp⟩ := hfinds.2
  have hin := hinv.rep.freeBlock_le hp.block
  have hround := le_roundSize size
  obtain ⟨l₀, r₀, hbs, hstart, -⟩ := hinv.exists_start
  have hlen : r₀.length < fuel := by
    rw [hbs, length_append] at hfuel
    omega
  have hle : (roundSize size).toNat ≤ h.memSizeAligned.toNat := by omega
  obtain ⟨res, hres⟩ := hinv.rep.search_total hbs hstart hle hlen
  refine ⟨by omega, ?_⟩
  cases res with
  | none => exact absurd hp (hinv.not_findable_of_search hres)
  | some ptr =>
    obtain ⟨l, n, r, hbs', hptr, hn⟩ :=
      hinv.rep.freeBlock_iff.1 (hinv.findable_of_search (by omega) hres).block
    exact ⟨ptr, l, n, r, hres, hbs', hptr, hn⟩

end Heap

namespace HeapRun

open Heap

variable {h₀ h h' : Heap} {bs bs' : List Block} {live : List UInt32} {p size : UInt32}
variable {x n k fuel : ℕ}

theorem Holds.usable (hh : Holds h₀ h bs live) (hx : (x, n) ∈ usedRuns 0 bs)
    (hoffset : p.toNat = h.heapPtr.toNat + x + 12) (hk : k + 12 ≤ n) : h.Usable p k := by
  have hsize : sizeofStructMem.toNat = 12 := rfl
  have hbound := hh.total_lt
  have hend := hh.inv.rep.heapEnd
  have hroom := hh.toNat_blockSize hx hoffset
  have hle := usedRuns_le_total hx
  obtain ⟨l, r, rfl, hxl⟩ := mem_usedRuns.1 hx
  rw [Nat.zero_add] at hxl
  subst hxl
  have hmem : (p - sizeofStructMem).toNat = h.heapPtr.toNat + total l := by
    rw [UInt32.toNat_sub, hsize]
    omega
  have hptr : (p - sizeofStructMem - h.heapPtr).toNat = total l := by
    rw [UInt32.toNat_sub, hmem]
    omega
  refine ⟨?_, ?_, by omega, ?_, by omega⟩
  · rw [hh.inv.rep.inChain_iff, hptr, starts_middle]
    exact mem_append_right _ mem_cons_self
  · intro hzero
    exact Bool.noConfusion ((used_eq_zero_iff (hh.inv.rep.header hmem)).1 hzero)
  · rw [UInt32.le_iff_toNat_le]
    omega

/-- **`rt_malloc` returns** when its search ends. -/
theorem Holds.malloc_total (hh : Holds h₀ h bs live) (hends : h.SearchEnds size) :
    ∃ least, ∀ fuel ≥ least, ∃ r, h.rtMalloc fuel size = some r := by
  by_cases hfinds : h.Finds size
  · refine ⟨bs.length + 2, fun fuel hfuel => ?_⟩
    have hlt : bs.length < fuel := by omega
    obtain ⟨halign, ptr, l, n, r, hsearch, rfl, hptr, hn⟩ := hh.inv.search_of_finds hfinds hlt
    have hrep := hh.inv.rep
    have hsize : sizeofStructMem.toNat = 12 := rfl
    have hend := hrep.heapEnd
    have hbound := hrep.bound
    simp only [total_append, total_cons] at hbound hend
    have hmem : (h.block ptr).toNat = h.heapPtr.toNat + total l := by
      rw [hrep.toNat_block (by simp [hptr]), hptr]
    obtain ⟨m, t, hrep', -, ht, -, hframe, hlfree, -⟩ := hrep.mallocTake hptr hn
    obtain ⟨h₂, hh₂, hframe₂⟩ : ∃ h₂, (h.mallocTake ptr (roundSize size)).mallocLfree fuel
        (h.block ptr) = some h₂ ∧ h₂.heapEnd = h.heapEnd := by
      rw [Heap.mallocLfree]
      split
      case isTrue heq =>
        have hlen : (⟨m, true⟩ :: (t ++ r) : List Block).length < fuel := by
          simp only [length_append, length_cons] at hfuel ⊢
          rcases ht with rfl | ⟨j, rfl⟩
          · simp only [length_nil]
            omega
          · simp only [length_singleton]
            omega
        have hstart : (h.mallocTake ptr (roundSize size)).lfree.toNat =
            (h.mallocTake ptr (roundSize size)).heapPtr.toNat + total l := by
          rw [← heq, hframe.heapPtr, hmem]
        obtain ⟨q, hq⟩ := hrep'.nextFree_total rfl hstart hlen
        rw [hq]
        refine ⟨_, rfl, ?_⟩
        dsimp only
        exact hframe.heapEnd
      case isFalse => exact ⟨_, rfl, hframe.heapEnd⟩
    -- the assertions at the end
    have hdvd : 4 ∣ (h.block ptr).toNat := by
      rw [hmem]
      exact Nat.dvd_add hh.solid.base (total_dvd fun b hb => hh.solid.len b (by simp [hb]))
    have hmod : (h.block ptr).toNat % 4 = 0 := mod_eq_zero_of_dvd hdvd
    have hpayload : (h.block ptr + sizeofStructMem).toNat = (h.block ptr).toNat + 12 := by
      rw [UInt32.toNat_add, hsize]
      omega
    have hassert : h.block ptr + sizeofStructMem + roundSize size ≤ h₂.heapEnd ∧
        (h.block ptr + sizeofStructMem) % 4 = 0 ∧ h.block ptr &&& (4 - 1) = 0 := by
      have h4 : (4 : UInt32).toNat = 4 := rfl
      refine ⟨?_, ?_, ?_⟩
      · rw [UInt32.le_iff_toNat_le, UInt32.toNat_add, hpayload, hframe₂]
        omega
      · apply UInt32.toNat_inj.1
        rw [UInt32.toNat_mod, hpayload, h4, UInt32.toNat_zero]
        omega
      · have h3 : (4 - 1 : UInt32).toNat = 2 ^ 2 - 1 := rfl
        apply UInt32.toNat_inj.1
        rw [UInt32.toNat_and, h3, and_two_pow_sub_one_eq_mod, UInt32.toNat_zero]
        exact hmod
    refine ⟨(h₂, h.block ptr + sizeofStructMem), ?_⟩
    have hle : ¬ rtAlign size > h.memSizeAligned := by
      rw [gt_iff_lt, UInt32.lt_iff_toNat_lt]
      omega
    rw [Heap.rtMalloc, if_neg hfinds.1, if_neg hle, ← roundSize]
    dsimp only
    rw [hsearch, bind_some]
    dsimp only
    rw [hh₂, bind_some, if_pos hassert]
  · exact ⟨bs.length + 1, fun fuel hfuel => ⟨_, hh.inv.rtMalloc_null hends hfinds hfuel⟩⟩

theorem blockSize_fill (h : Heap) (hp : sizeofStructMem ≤ p) (n : ℕ) (b : UInt8) :
    { h with ram := fill h.ram p.toNat n b }.blockSize p = h.blockSize p := by
  have hsize : sizeofStructMem.toNat = 12 := rfl
  have hmem : (p - sizeofStructMem).toNat = p.toNat - 12 := by
    rw [UInt32.toNat_sub_of_le _ _ hp, hsize]
  rw [UInt32.le_iff_toNat_le, hsize] at hp
  have hnext : { h with ram := fill h.ram p.toNat n b }.next (p - sizeofStructMem) =
      h.next (p - sizeofStructMem) := by
    apply UInt32.toNat_inj.1
    rw [toNat_next, toNat_next]
    exact load_congr fun y hle hlt => fill_of_outside (by omega)
  rw [blockSize, hnext]
  rfl

theorem Adds.blockSize_lt {m : ℕ} (hh : Holds h₀ h' bs' live) (ha : Adds h h' bs bs' p x m)
    (hptr : h'.heapPtr = h.heapPtr) : (h'.blockSize p).toNat + 24 < 2 ^ 32 := by
  have hx : (x, m) ∈ usedRuns 0 bs' := ha.runs.2 (.inr ⟨rfl, rfl⟩)
  have hroom := hh.toNat_blockSize hx (by rw [hptr, ha.offset])
  have hle := usedRuns_le_total hx
  have hbound := hh.total_lt
  omega

/-- **`rt_malloc` is right** when its search ends and `RT_ALIGN` does not wrap around, or there is
nothing to be found. -/
theorem Holds.mallocRight_iff (hh : Holds h₀ h bs live) :
    h.MallocRight size ↔ h.SearchEnds size ∧ (size.toNat + 3 < 2 ^ 32 ∨ ¬ h.Finds size) := by
  constructor
  · rintro ⟨⟨least, hreturns⟩, husable⟩
    obtain ⟨⟨h', p⟩, hs⟩ := hreturns least (Nat.le_refl _)
    refine ⟨?_, ?_⟩
    · by_contra hnot
      rw [hh.inv.rtMalloc_endless hnot] at hs
      cases hs
    · by_contra hnot
      obtain ⟨hwraps, hfinds⟩ := not_or.1 hnot
      have hne := (hh.inv.rtMalloc_ne_zero_iff hs).2 (not_not.1 hfinds)
      rcases hh.malloc hs with ⟨heq, -⟩ | ⟨bs', x, m, hh', ha, -⟩
      · exact hne heq
      · have hroom := (husable least h' p hs hne).room
        have hlt := ha.blockSize_lt hh' (hh'.frame.heapPtr.trans hh.frame.heapPtr.symm)
        omega
  · rintro ⟨hends, hcond⟩
    refine ⟨hh.malloc_total hends, fun fuel h' p hs hne => ?_⟩
    have hfinds := (hh.inv.rtMalloc_ne_zero_iff hs).1 hne
    have hfits := hcond.resolve_right fun hnot => hnot hfinds
    rcases hh.malloc hs with ⟨heq, -⟩ | ⟨bs', x, m, hh', ha, hm⟩
    · exact absurd heq hne
    · refine hh'.usable (ha.runs.2 (.inr ⟨rfl, rfl⟩)) ?_ (Adds.room hm hfits)
      rw [hh'.frame.heapPtr.trans hh.frame.heapPtr.symm, ha.offset]

/-- **`rt_calloc` is right** when, in the same way, the product does not wrap around. -/
theorem Holds.callocRight_iff {count : UInt32} (hh : Holds h₀ h bs live) :
    h.CallocRight count size ↔ h.SearchEnds (count * size) ∧
      (count.toNat * size.toNat + 3 < 2 ^ 32 ∨ ¬ h.Finds (count * size)) := by
  constructor
  · rintro ⟨⟨least, hreturns⟩, husable⟩
    obtain ⟨r, hs⟩ := hreturns least (Nat.le_refl _)
    obtain ⟨⟨h₁, p⟩, hs₁, hr⟩ := map_eq_some_iff.1 hs
    refine ⟨?_, ?_⟩
    · by_contra hnot
      rw [hh.inv.rtMalloc_endless hnot] at hs₁
      cases hs₁
    · by_contra hnot
      obtain ⟨hwraps, hfinds⟩ := not_or.1 hnot
      have hne := (hh.inv.rtMalloc_ne_zero_iff hs₁).2 (not_not.1 hfinds)
      dsimp only at hr
      rw [if_pos hne] at hr
      rcases hh.malloc hs₁ with ⟨heq, -⟩ | ⟨bs', x, m, hh', ha, -⟩
      · exact hne heq
      · have hroom := (husable least _ p (hr ▸ hs) hne).room
        have hge : sizeofStructMem ≤ p := by
          rw [UInt32.le_iff_toNat_le, ha.offset]
          exact Nat.le_add_left _ _
        rw [blockSize_fill h₁ hge] at hroom
        have hlt := ha.blockSize_lt hh' (hh'.frame.heapPtr.trans hh.frame.heapPtr.symm)
        omega
  · rintro ⟨hends, hcond⟩
    obtain ⟨least, hreturns⟩ := hh.malloc_total hends
    refine ⟨⟨least, fun fuel hfuel => ?_⟩, fun fuel h' p hs hne => ?_⟩
    · obtain ⟨r, hr⟩ := hreturns fuel hfuel
      exact ⟨_, map_eq_some_iff.2 ⟨r, hr, rfl⟩⟩
    · obtain ⟨⟨h₁, q⟩, hs₁, hr⟩ := map_eq_some_iff.1 hs
      dsimp only at hr
      split at hr
      case isFalse hzero =>
        cases hr
        exact absurd (not_not.1 hzero) hne
      case isTrue =>
        cases hr
        have hfinds := (hh.inv.rtMalloc_ne_zero_iff hs₁).1 hne
        have hfits := hcond.resolve_right fun hnot => hnot hfinds
        have hmul : (count * size).toNat = count.toNat * size.toNat := by
          rw [UInt32.toNat_mul]
          exact mod_eq_of_lt (by omega)
        rcases hh.malloc hs₁ with ⟨heq, -⟩ | ⟨bs', x, m, hh', ha, hm⟩
        · exact absurd heq hne
        · have hroom := Adds.room hm (hmul ▸ hfits)
          have hx : (x, m) ∈ usedRuns 0 bs' := ha.runs.2 (.inr ⟨rfl, rfl⟩)
          have hptr := hh'.frame.heapPtr.trans hh.frame.heapPtr.symm
          have hoffset := ha.offset
          rw [← hptr] at hoffset
          have hcleared : Holds h₀ { h₁ with ram := fill h₁.ram p.toNat (count * size).toNat 0 } bs'
              (p :: live) :=
            hh'.writeRun hx ⟨rfl, rfl, rfl⟩ ⟨rfl, rfl⟩ fun y hy => fill_of_outside (by omega)
          exact hcleared.usable hx hoffset (hmul ▸ hroom)

/-- **When the functions are right**, in every run in which `RT_ALIGN` has not wrapped around in
`rt_calloc` before. -/
theorem run_usable_iff (fuel : ℕ) (ram : ℕ → UInt8) (beginAddr endAddr : UInt32) (h : Heap)
    (hinit : Heap.rtSystemHeapInit ram beginAddr endAddr = some h) (returned : List UInt32)
    (s : HeapRun) (hrun : Run (step fuel) CallocFits ⟨h, []⟩ returned s) (count size : UInt32) :
    (s.heap.MallocRight size ↔
      s.heap.SearchEnds size ∧ (size.toNat + 3 < 2 ^ 32 ∨ ¬ s.heap.Finds size)) ∧
    (s.heap.CallocRight count size ↔ s.heap.SearchEnds (count * size) ∧
      (count.toNat * size.toNat + 3 < 2 ^ 32 ∨ ¬ s.heap.Finds (count * size))) := by
  obtain ⟨bs, hh⟩ := run_holds hinit hrun
  exact ⟨hh.mallocRight_iff, hh.callocRight_iff⟩

/-- After a block of 20 bytes, a block of 40 and one of three times five are usable. -/
theorem run_usable_second :
    ∃ s : HeapRun, s.live = [0x1010] ∧ s.heap.MallocRight 40 ∧ s.heap.CallocRight 3 5 := by
  have hsome : ((Heap.rtSystemHeapInit (fun _ => 0) 0x1001 0x1100).bind fun h =>
      exec (step 9) CallocFits ⟨h, []⟩ [.malloc 20]).any fun r =>
        r.1.live = [0x1010] ∧ r.1.heap.SearchEnds 40 ∧ r.1.heap.SearchEnds (3 * 5) := by
    decide +kernel
  obtain ⟨h, s, returned, hinit, hrun, hlive, hends, hends'⟩ := of_any hsome
  exact ⟨s, hlive,
    (run_usable_iff 9 _ 0x1001 0x1100 h hinit returned s hrun 3 40).1.2 ⟨hends, .inl (by decide)⟩,
    (run_usable_iff 9 _ 0x1001 0x1100 h hinit returned s hrun 3 5).2.2 ⟨hends', .inl (by decide)⟩⟩

/-- A block of the largest size has twelve bytes. -/
theorem not_run_usable :
    ¬ ∀ (fuel : ℕ) (ram : ℕ → UInt8) (beginAddr endAddr : UInt32) (h : Heap)
      (_ : Heap.rtSystemHeapInit ram beginAddr endAddr = some h) (returned : List UInt32)
      (s : HeapRun) (_ : Run (step fuel) (fun _ _ => True) ⟨h, []⟩ returned s)
      (count size : UInt32), s.heap.MallocRight size ∧ s.heap.CallocRight count size := by
  intro hall
  have hsome : (Heap.rtSystemHeapInit (fun _ => 0) 0x1000 0x1100).any fun h =>
      (h.rtMalloc 9 0xffffffff).any fun r => r.2 ≠ 0 ∧ r.1.blockSize r.2 = 12 := by
    decide +kernel
  obtain ⟨h, hinit, hfacts⟩ := (Option.any_eq_true _ _).1 hsome
  obtain ⟨⟨h', p⟩, hs, hp⟩ := (Option.any_eq_true _ _).1 hfacts
  obtain ⟨hne, hsize⟩ := of_decide_eq_true hp
  have hright := (hall 9 _ 0x1000 0x1100 h hinit [] ⟨h, []⟩ .nil 0 0xffffffff).1
  have hroom := (hright.usable 9 h' p hs hne).room
  rw [hsize] at hroom
  exact absurd hroom (by decide)

end HeapRun

end RtThread
