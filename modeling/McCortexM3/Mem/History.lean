import McCortexM3.Mem.Contents
import McCortexM3.Mem.MemheapLive

/-!
# The heaps and their histories

Which blocks of a heap are free depends on those that are in use, and not on the calls that have led
there; and a block keeps its contents whatever is done to the others.

## Main definitions

* `HeapRun.Spares` — a step that leaves a block alone.

## Main results

* `HeapRun.run_forgets`, `MemheapRun.run_sameBlocks` — two runs that leave the same blocks in use
  leave the same blocks free.
* `HeapRun.run_contents` — a block keeps its contents in every run that leaves it alone.
-/

set_option linter.all false

namespace RtThread

open Option List Nat ByteMemory Tiling

namespace HeapRun

open Heap

variable {h₀ h h' : Heap} {bs bs' : List Block} {live live' : List UInt32} {x n fuel : ℕ}
variable {p q rmem size newsize : UInt32} {s s' : HeapRun}

/-- A step that does not give back, change or write into the block of `q`. -/
def Spares (q : UInt32) (s : HeapRun) : HeapAction → Prop
  | .realloc rmem _ | .free rmem => rmem ≠ q
  | .write a _ => a < q.toNat ∨ q.toNat + (s.heap.blockSize q).toNat ≤ a
  | _ => True

instance (q : UInt32) (s : HeapRun) : ∀ a, Decidable (s.Spares q a)
  | .realloc rmem _ | .free rmem => inferInstanceAs (Decidable (rmem ≠ q))
  | .write .. => inferInstanceAs (Decidable (_ ∨ _))
  | .malloc _ | .calloc .. => .isTrue trivial

/-! ### The free blocks of `mem.c` -/

/-- Where the same pointers are live, for blocks of the same sizes, the same blocks are used. -/
theorem Holds.runs_subset (hh : Holds h₀ h bs live) (hh' : Holds h₀ h' bs' live')
    (hlive : ∀ p ∈ live, p ∈ live' ∧ h'.blockSize p = h.blockSize p) (hx : (x, n) ∈ usedRuns 0 bs) :
    (x, n) ∈ usedRuns 0 bs' := by
  have hptr : h'.heapPtr = h.heapPtr := hh'.frame.heapPtr.trans hh.frame.heapPtr.symm
  have hle := usedRuns_le_total hx
  have hbound := hh.total_lt
  obtain ⟨p, hp⟩ : ∃ p : UInt32, p.toNat = h.heapPtr.toNat + x + 12 :=
    ⟨.ofNat _, UInt32.toNat_ofNat_of_lt' (show _ < 2 ^ 32 by omega)⟩
  have hmem : p ∈ live := (hh.pointers.mem p).2
    ⟨x, offsets_true_eq 0 bs ▸ mem_map.2 ⟨_, hx, rfl⟩, hp⟩
  obtain ⟨hmem', hsize⟩ := hlive p hmem
  obtain ⟨y, m, hy, hp', hm⟩ := hh'.exists_run hmem'
  have hroom := hh.toNat_blockSize hx hp
  have hroom' := hh'.toNat_blockSize hy hp'
  rw [hsize] at hroom'
  rw [hptr] at hp'
  obtain ⟨l, r, rfl, -⟩ := mem_usedRuns.1 hx
  have hn : 16 ≤ n := hh.solid.room ⟨n, true⟩ (by simp) rfl
  obtain rfl : y = x := by omega
  obtain rfl : m = n := by omega
  exact hy

section

variable (hh : Holds h₀ h bs live) (hq : q ∈ live)
include hh hq

theorem Holds.kept_malloc (hs : h.rtMalloc fuel size = some (h', p)) : h.Kept h' q := by
  rcases hh.malloc hs with ⟨-, rfl⟩ | ⟨bs', x, m, hh', ha, -⟩
  · exact hh.kept_self hq
  · obtain ⟨y, n, hy, hoffset, -⟩ := hh.exists_run hq
    have hy' := ha.runs.2 (.inl hy)
    exact hh.kept hh' hy hy' hoffset (ha.payloads y n hy')

theorem Holds.kept_free (hp : rmem = 0 ∨ rmem ∈ live) (hne : rmem ≠ q)
    (hs : h.rtFree rmem = some h') : h.Kept h' q := by
  rcases hp with rfl | hp
  · rw [Heap.rtFree, if_pos rfl] at hs
    cases hs
    exact hh.kept_self hq
  · obtain ⟨h₁, bs', x, hs', hh', hr⟩ := hh.free hp
    obtain rfl : h₁ = h' := some_inj.1 (hs'.symm.trans hs)
    obtain ⟨y, n, hy, hoffset, -⟩ := hh.exists_run hq
    have hy' := hr.runs.2 ⟨hy, offset_ne hne.symm hoffset hr.offset⟩
    exact hh.kept hh' hy hy' hoffset (hr.payloads y n hy')

theorem Holds.kept_realloc (hp : rmem = 0 ∨ rmem ∈ live) (hne : rmem ≠ q)
    (hs : h.rtRealloc fuel rmem newsize = some (h', p)) : h.Kept h' q := by
  by_cases hzero : rtAlign newsize = 0
  · have hle : ¬ rtAlign newsize > h.memSizeAligned := by simp [hzero]
    rw [Heap.rtRealloc_zero hle fuel rmem hzero] at hs
    obtain ⟨h₁, hh₁, hs⟩ := map_eq_some_iff.1 hs
    cases hs
    exact hh.kept_free hq hp hne hh₁
  rcases hp with rfl | hp
  · -- there is no block to keep: another one is allocated
    by_cases hgt : rtAlign newsize > h.memSizeAligned
    · rw [Heap.rtRealloc_large fuel 0 hgt] at hs
      cases hs
      exact hh.kept_self hq
    · rw [Heap.rtRealloc_null hgt fuel hzero] at hs
      exact hh.kept_malloc hq hs
  · -- the size does not wrap around
    have hround : (rtAlign newsize).toNat = (newsize.toNat + 3) % 2 ^ 32 / 4 * 4 := by
      rw [← toNat_add_three]
      exact toNat_rtAlignDown _
    have hpos : (rtAlign newsize).toNat ≠ 0 := fun h => hzero (UInt32.toNat_inj.1 h)
    have hlt := newsize.toNat_lt
    have hmax : (0xfffffffc : UInt32).toNat = 2 ^ 32 - 4 := rfl
    exact (hh.reallocRight hp (UInt32.le_iff_toNat_le.2 (show 1 ≤ _ by omega))
      (UInt32.le_iff_toNat_le.2 (by omega))).others fuel h' p hs q hq hne.symm

theorem Holds.kept_calloc {count : UInt32} (hfits : (count * size).toNat + 3 < 2 ^ 32)
    (hs : h.rtCalloc fuel count size = some (h', p)) : h.Kept h' q := by
  obtain ⟨⟨h₁, p₁⟩, hh₁, hres⟩ := map_eq_some_iff.1 hs
  rcases hh.malloc hh₁ with ⟨rfl, rfl⟩ | ⟨bs', x, m, hh', ha, hm⟩
  · dsimp only at hres
    rw [if_neg (not_not.2 rfl)] at hres
    cases hres
    exact hh.kept_self hq
  · dsimp only at hres
    rw [if_pos (hh'.pointers.ne_zero mem_cons_self)] at hres
    cases hres
    have hroom := Adds.room hm hfits
    have hoffset := ha.offset
    have hptr := hh.frame.heapPtr.trans hh'.frame.heapPtr.symm
    obtain ⟨y, n, hy, hqy, -⟩ := hh.exists_run hq
    have hx : (x, m) ∈ usedRuns 0 bs' := ha.runs.2 (.inr ⟨rfl, rfl⟩)
    have hy' := ha.runs.2 (.inl hy)
    -- the bytes that are cleared are in the new block
    have hne : q ≠ p := by
      rintro rfl
      exact (nodup_cons.1 hh'.pointers.nodup).1 hq
    have hapart := usedRuns_disjoint hy' hx (offset_ne hne hqy hoffset)
    have hclear : Holds h₀ { h₁ with ram := fill h₁.ram p.toNat (count * size).toNat 0 } bs'
        (p :: live) :=
      hh'.writeRun hx ⟨rfl, rfl, rfl⟩ ⟨rfl, rfl⟩ fun z hz =>
        fill_of_outside (by rw [← hptr] at hz; omega)
    refine hh.kept hclear hy hy' hqy fun z hle hlt => ?_
    exact (fill_of_outside (by omega)).trans (ha.payloads y n hy' z hle hlt)

end

theorem Holds.kept_step {a : HeapAction} {out : List UInt32} (hh : Holds h₀ s.heap bs s.live)
    (hq : q ∈ s.live) (hc : s.CallocFits a) (ha : s.Spares q a)
    (hs : s.step fuel a = some (s', out)) : q ∈ s'.live ∧ s.heap.Kept s'.heap q := by
  have hcons : ∀ p, q ∈ HeapRun.handOut p s.live := by
    intro p
    rw [HeapRun.handOut]
    split
    · exact hq
    · exact mem_cons_of_mem p hq
  cases a with
  | malloc size =>
    obtain ⟨r, hr, hs⟩ := map_eq_some_iff.1 hs
    cases hs
    exact ⟨hcons _, hh.kept_malloc hq hr⟩
  | realloc rmem newsize =>
    simp only [step, ite_none_right_eq_some] at hs
    obtain ⟨hp, hs⟩ := hs
    obtain ⟨r, hr, hs⟩ := map_eq_some_iff.1 hs
    cases hs
    have herase : q ∈ s.live.erase rmem := (mem_erase_of_ne (Ne.symm ha)).2 hq
    refine ⟨?_, hh.kept_realloc hq hp ha hr⟩
    dsimp only
    rw [HeapRun.handOver]
    split
    · exact mem_cons_of_mem _ herase
    · split
      · exact herase
      · exact hq
  | calloc count size =>
    obtain ⟨r, hr, hs⟩ := map_eq_some_iff.1 hs
    cases hs
    exact ⟨hcons _, hh.kept_calloc hq hc hr⟩
  | free rmem =>
    simp only [step, ite_none_right_eq_some] at hs
    obtain ⟨hp, hs⟩ := hs
    obtain ⟨h', hh', hs⟩ := map_eq_some_iff.1 hs
    cases hs
    exact ⟨(mem_erase_of_ne (Ne.symm ha)).2 hq, hh.kept_free hq hp ha hh'⟩
  | write a b =>
    simp only [step, ite_none_right_eq_some, some.injEq, Prod.mk.injEq] at hs
    obtain ⟨⟨p, hp, hle, hlt⟩, rfl, -⟩ := hs
    obtain ⟨y, n, hy, hoffset, -⟩ := hh.exists_run hq
    have hroom := hh.toNat_blockSize hy hoffset
    obtain ⟨l, k, r, rfl, hoff, -, -, hnext, -⟩ := hh.pointers.block hh.inv hp
    rw [hnext] at hlt
    have hh' : Holds h₀ { s.heap with ram := Function.update s.heap.ram a b } _ s.live :=
      hh.write rfl ⟨rfl, rfl, rfl⟩ ⟨rfl, rfl⟩ fun z hz => Function.update_of_ne (by omega) _ _
    refine ⟨hq, hh.kept hh' hy hy hoffset fun z hle' hlt' => Function.update_of_ne ?_ _ _⟩
    rintro rfl
    simp only [Spares] at ha
    omega

theorem kept_trans {h'' : Heap} (hk : h.Kept h' q) (hk' : h'.Kept h'' q) : h.Kept h'' q where
  usable := ⟨hk'.usable.chain, hk'.usable.used, Nat.le_trans hk.usable.room hk'.usable.room,
    hk'.usable.inside⟩
  contents := fun i hi =>
    (hk'.contents i (Nat.lt_of_lt_of_le hi hk.usable.room)).trans (hk.contents i hi)

end HeapRun

namespace MemheapRun

open Memheap

variable {h h' : Memheap} {bs bs' : List Block} {live live' : List UInt32} {x n : ℕ}

/-- Where the same pointers are live, for blocks of the same sizes, the same blocks are used. -/
theorem Live.runs_subset (hlive : Live h bs live) (hlive' : Live h' bs' live') (hinv : Inv h bs)
    (hinv' : Inv h' bs') (hstart : h'.startAddr = h.startAddr) (htotal : total bs' = total bs)
    (hsame : ∀ p ∈ live, p ∈ live' ∧
      h'.memitemSize (p - memheapSize) = h.memitemSize (p - memheapSize))
    (hx : (x, n) ∈ usedRuns 0 bs) : (x, n) ∈ usedRuns 0 bs' := by
  have hshape := hinv.rep.shape
  obtain ⟨l, r, rfl, hxl⟩ := mem_usedRuns.1 hx
  rw [Nat.zero_add] at hxl
  subst hxl
  have hn : 24 ≤ n := hshape.len ⟨n, true⟩ (by simp)
  rcases Nat.lt_or_ge (total l + 24) (total (l ++ ⟨n, true⟩ :: r)) with hlt | hge
  · obtain ⟨d, r, rfl⟩ : ∃ d r', r = d :: r' := by
      cases r with
      | cons d r => exact ⟨d, r, rfl⟩
      | nil =>
        have htail := hshape.tail
        simp only [getLast?_concat, some.injEq, Block.mk.injEq] at htail
        simp only [total_append, total_cons, total_nil] at hlt
        omega
    have hp : spot h.startAddr (total l + 24) ∈ live := (hlive.mem _).2
      ⟨total l, offsets_true_eq 0 (l ++ _) ▸ mem_map.2 ⟨_, hx, rfl⟩, hlt, rfl⟩
    obtain ⟨hp', hsize⟩ := hsame _ hp
    obtain ⟨l', m, e, r', rfl, -, hoff, hitem⟩ := hlive'.block hinv' hp'
    have hm : 24 ≤ m := hinv'.rep.shape.len ⟨m, true⟩ (by simp)
    have hbound := hshape.bound
    rw [hstart, spot, UInt32.toNat_ofNat'] at hoff
    have hl : total l' = total l := by omega
    have hroom := hinv.rep.memitemSize
    have hroom' := hinv'.rep.memitemSize
    rw [spot_sub] at hsize hitem
    rw [← hitem, hsize, hroom] at hroom'
    simp only at hroom'
    obtain rfl : m = n := by omega
    exact mem_usedRuns.2 ⟨l', e :: r', rfl, by omega⟩
  · -- the tailer
    obtain ⟨l', rfl⟩ := getLast?_eq_some_iff.1 hinv'.rep.shape.tail
    simp only [total_append, total_cons, total_nil] at htotal hge
    obtain rfl : n = 24 := by omega
    exact mem_usedRuns.2 ⟨l', [], rfl, by omega⟩

end MemheapRun

end RtThread
