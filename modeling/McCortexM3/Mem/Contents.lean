import McCortexM3.Mem.Usable

/-!
# What `rt_realloc` keeps

The block that `rt_realloc` returns begins with what the old one has begun with, and the other
blocks keep their contents.

## Main definitions

* `Heap.Kept` — a block is still there, with its contents.
* `Heap.ReallocRight` — what `rt_realloc` is to do.

## Main results

* `HeapRun.run_reallocRight` — it does so in every run in which `rt_calloc` has not cleared the
  blocks of others.
* `HeapRun.not_run_reallocRight` — what happens otherwise.
-/

set_option linter.all false

namespace RtThread

open Option List Nat ByteMemory Tiling

namespace Heap

/-- The block of `p` is still there, with its contents. -/
structure Kept (h h' : Heap) (p : UInt32) : Prop where
  usable : h'.Usable p (h.blockSize p).toNat
  contents : ∀ i < (h.blockSize p).toNat, h'.ram (p.toNat + i) = h.ram (p.toNat + i)

/-- `rt_realloc` returns a block of the new size with the contents of the old one, or leaves the old
one alone; and it leaves all others alone. -/
structure ReallocRight (h : Heap) (live : List UInt32) (rmem newsize : UInt32) : Prop where
  returns : ∃ least, ∀ fuel ≥ least, ∃ r, h.rtRealloc fuel rmem newsize = some r
  block : ∀ fuel h' p, h.rtRealloc fuel rmem newsize = some (h', p) → p ≠ 0 →
    h'.Usable p newsize.toNat ∧ ∀ i < min (h.blockSize rmem).toNat newsize.toNat,
      h'.ram (p.toNat + i) = h.ram (rmem.toNat + i)
  null : ∀ fuel h', h.rtRealloc fuel rmem newsize = some (h', 0) → h.Kept h' rmem
  others : ∀ fuel h' p, h.rtRealloc fuel rmem newsize = some (h', p) →
    ∀ q ∈ live, q ≠ rmem → h.Kept h' q

end Heap

namespace HeapRun

open Heap

variable {h₀ h h' : Heap} {bs bs' : List Block} {live live' : List UInt32}
variable {p q rmem newsize : UInt32} {x y n k fuel : ℕ}

section

variable (hh : Holds h₀ h bs live)
include hh

/-- A block is kept when it is one of the used blocks afterwards and has not been written. -/
theorem Holds.kept (hh' : Holds h₀ h' bs' live')
    (hy : (y, n) ∈ usedRuns 0 bs) (hy' : (y, n) ∈ usedRuns 0 bs')
    (hoffset : q.toNat = h.heapPtr.toNat + y + 12)
    (hram : ∀ z, h.heapPtr.toNat + y + 12 ≤ z → z < h.heapPtr.toNat + y + n →
      h'.ram z = h.ram z) : h.Kept h' q := by
  have hptr : h'.heapPtr = h.heapPtr := hh'.frame.heapPtr.trans hh.frame.heapPtr.symm
  have hroom := hh.toNat_blockSize hy hoffset
  obtain ⟨l, r, rfl, -⟩ := mem_usedRuns.1 hy
  have hn := hh.solid.room ⟨n, true⟩ (by simp) rfl
  simp only at hn
  refine ⟨hh'.usable hy' (by rw [hptr, hoffset]) (by omega), fun i hi => hram _ ?_ ?_⟩ <;> omega

theorem Holds.kept_self (hq : q ∈ live) : h.Kept h q := by
  obtain ⟨y, n, hy, hoffset, -⟩ := hh.exists_run hq
  exact hh.kept hh hy hy hoffset fun _ _ _ => rfl

theorem Holds.move_contents {h₁ : Heap} {bs₁ : List Block} {m count : ℕ}
    (hh₁ : Holds h₀ h₁ bs₁ (p :: live))
    (ha : Adds h h₁ bs bs₁ p x m) (hp : rmem ∈ live) (hcount : count + 12 ≤ m)
    (hfree : { h₁ with ram := copy h₁.ram p.toNat rmem.toNat count }.rtFree rmem = some h') :
    (∀ {k}, k + 12 ≤ m → h'.Usable p k) ∧
      (∀ i < min (h.blockSize rmem).toNat count, h'.ram (p.toNat + i) = h.ram (rmem.toNat + i)) ∧
      ∀ q ∈ live, q ≠ rmem → h.Kept h' q := by
  have hptr : h₁.heapPtr = h.heapPtr := hh₁.frame.heapPtr.trans hh.frame.heapPtr.symm
  obtain ⟨h₂, h₃, bs₃, y, rfl, hs, hh₃, hr⟩ := hh₁.move ha hp hptr hcount
  obtain rfl : h₃ = h' := some_inj.1 (hs.symm.trans hfree)
  have hptr₃ : h₃.heapPtr = h.heapPtr := hh₃.frame.heapPtr.trans hh.frame.heapPtr.symm
  have hx : (x, m) ∈ usedRuns 0 bs₁ := ha.runs.2 (.inr ⟨rfl, rfl⟩)
  have hpx := ha.offset
  have hoffset := hr.offset
  rw [hptr] at hoffset
  obtain ⟨z, n, hz, hrmem, -⟩ := hh.exists_run hp
  obtain rfl : z = y := by omega
  have hzx : x ≠ z := by
    rintro rfl
    have heq : p = rmem := UInt32.toNat_inj.1 (hpx.trans hrmem.symm)
    exact (nodup_cons.1 hh₁.pointers.nodup).1 (heq ▸ hp)
  have hx₃ : (x, m) ∈ usedRuns 0 bs₃ := hr.runs.2 ⟨hx, hzx⟩
  refine ⟨fun hk => hh₃.usable hx₃ (by rw [hptr₃, hpx]) hk, fun i hi => ?_, fun q hq hne => ?_⟩
  · -- the bytes have been copied from the old block
    have hroom := hh.toNat_blockSize hz hrmem
    have hkeep := hr.payloads x m hx₃ (p.toNat + i) (by rw [hptr]; omega) (by rw [hptr]; omega)
    have hcopy : copy h₁.ram p.toNat rmem.toNat count (p.toNat + i) = h₁.ram (rmem.toNat + i) := by
      rw [copy, if_pos (by omega), Nat.add_sub_cancel_left]
    have hold := ha.payloads z n (ha.runs.2 (.inl hz)) (rmem.toNat + i) (by omega) (by omega)
    exact (hkeep.trans hcopy).trans hold
  · obtain ⟨v, j, hv, hqv, -⟩ := hh.exists_run hq
    have hvz := offset_ne hne hqv hrmem
    have hv₁ : (v, j) ∈ usedRuns 0 bs₁ := ha.runs.2 (.inl hv)
    have hvx : v ≠ x := by
      rintro rfl
      have heq : p = q := UInt32.toNat_inj.1 (hpx.trans hqv.symm)
      exact (nodup_cons.1 hh₁.pointers.nodup).1 (heq ▸ hq)
    have hv₃ : (v, j) ∈ usedRuns 0 bs₃ := hr.runs.2 ⟨hv₁, hvz⟩
    have hapart := usedRuns_disjoint hv₁ hx hvx
    refine hh.kept hh₃ hv hv₃ hqv fun w hle hlt => ?_
    have hkeep := hr.payloads v j hv₃ w (by rw [hptr]; exact hle) (by rw [hptr]; exact hlt)
    have hcopy : copy h₁.ram p.toNat rmem.toNat count w = h₁.ram w := copy_of_outside (by omega)
    exact (hkeep.trans hcopy).trans (ha.payloads v j hv₁ w hle hlt)

theorem Holds.realloc_total (hp : rmem ∈ live) :
    ∃ least, ∀ fuel ≥ least, ∃ r, h.rtRealloc fuel rmem newsize = some r := by
  have hlarge : h.SearchEnds (rtAlign newsize) := by
    have hmin : minSizeAligned.toNat = 12 := rfl
    refine .inr (.inr ?_)
    rw [UInt32.le_iff_toNat_le, hmin]
    exact hh.large (ne_nil_of_mem hp)
  obtain ⟨least, hmalloc⟩ := hh.malloc_total hlarge
  refine ⟨least, fun fuel hfuel => ?_⟩
  by_cases hgt : rtAlign newsize > h.memSizeAligned
  · exact ⟨_, Heap.rtRealloc_large fuel rmem hgt⟩
  have hle : (rtAlign newsize).toNat ≤ h.memSizeAligned.toNat := by
    rwa [gt_iff_lt, UInt32.lt_iff_toNat_lt, Nat.not_lt] at hgt
  by_cases hzero : rtAlign newsize = 0
  · obtain ⟨h₁, bs', x, hfree, -⟩ := hh.free hp
    rw [Heap.rtRealloc_zero hgt fuel rmem hzero, hfree]
    exact ⟨_, rfl⟩
  rw [Heap.rtRealloc_block hgt fuel hzero (hh.pointers.ne_zero hp) (rfl : h.blockSize rmem = _)]
  by_cases houtside : rmem < h.heapPtr ∨ rmem ≥ h.heapEnd
  · exact ⟨_, if_pos houtside⟩
  rw [if_neg houtside]
  by_cases hsame : h.blockSize rmem = rtAlign newsize
  · exact ⟨_, if_pos hsame⟩
  rw [if_neg hsame]
  by_cases hlt : rtAlign newsize + sizeofStructMem + minSize < h.blockSize rmem
  · obtain ⟨h₁, bs', x, hsplit, -⟩ := hh.split hp rfl (rfl : h.blockSize rmem = _) hle
      (dvd_of_mod_eq_zero (rtAlign_mod newsize)) hzero hlt
    rw [if_pos hlt, hsplit]
    exact ⟨_, rfl⟩
  rw [if_neg hlt]
  obtain ⟨⟨h₁, nmem⟩, hh₁⟩ := hmalloc fuel hfuel
  rw [hh₁, bind_some]
  dsimp only
  split
  case isFalse => exact ⟨_, rfl⟩
  case isTrue hne =>
    rcases hh.malloc hh₁ with ⟨heq, -⟩ | ⟨bs₁, x, m, hh', ha, hm⟩
    · exact absurd heq hne
    · have hroom := Adds.room hm (rtAlign_fits newsize)
      have hcount : ∀ old : UInt32,
          (if old < rtAlign newsize then old else rtAlign newsize).toNat + 12 ≤ m := by
        intro old
        split
        case isTrue hlt =>
          rw [UInt32.lt_iff_toNat_lt] at hlt
          omega
        case isFalse => exact hroom
      obtain ⟨h₂, h₃, bs₃, y, rfl, hfree, -⟩ := hh'.move ha hp
        (hh'.frame.heapPtr.trans hh.frame.heapPtr.symm) (hcount _)
      rw [hfree]
      exact ⟨_, rfl⟩

theorem Holds.reallocRight (hp : rmem ∈ live) (hpos : 1 ≤ newsize)
    (hfits : newsize ≤ 0xfffffffc) : h.ReallocRight live rmem newsize := by
  have hmax : (0xfffffffc : UInt32).toNat = 2 ^ 32 - 4 := rfl
  rw [UInt32.le_iff_toNat_le] at hpos hfits
  have halign := le_toNat_rtAlign (n := newsize) (by omega)
  have hzero : rtAlign newsize ≠ 0 := by
    intro heq
    have hone : (1 : UInt32).toNat = 1 := rfl
    rw [heq, UInt32.toNat_zero] at halign
    omega
  have hnull := hh.pointers.ne_zero hp
  obtain ⟨x, n, hx, hrmem, hn⟩ := hh.exists_run hp
  have hold := hh.toNat_blockSize hx hrmem
  have hself : ∀ q ∈ live, q ≠ rmem → h.Kept h q := fun q hq _ => hh.kept_self hq
  have hcases : ∀ fuel h' p, h.rtRealloc fuel rmem newsize = some (h', p) →
      (p = 0 ∧ h' = h) ∨ p ≠ 0 ∧ (h'.Usable p newsize.toNat ∧
        ∀ i < min (h.blockSize rmem).toNat newsize.toNat,
          h'.ram (p.toNat + i) = h.ram (rmem.toNat + i)) ∧
        ∀ q ∈ live, q ≠ rmem → h.Kept h' q := by
    intro fuel h' p hs
    rcases hh.realloc_cases hp hs with ⟨rfl, rfl, -⟩ | ⟨-, heq, -⟩ | ⟨rfl, rfl, heq⟩ |
      ⟨rfl, -, hle, hlt, hsplit⟩ | ⟨hne, h₁, count, hmalloc, hcount, hfree⟩
    · exact .inl ⟨rfl, rfl⟩
    · exact absurd heq hzero
    · -- the size is the same
      have heq' := congrArg UInt32.toNat heq
      exact .inr ⟨hnull, ⟨hh.usable hx hrmem (by omega), fun _ _ => rfl⟩, hself⟩
    · -- the block is cut
      obtain ⟨h₁, bs', y, hsplit', hh', hsh⟩ := hh.split hp rfl rfl hle
        (dvd_of_mod_eq_zero (rtAlign_mod newsize)) hzero hlt
      obtain rfl : h₁ = h' := some_inj.1 (hsplit'.symm.trans hsplit)
      have hptr : h₁.heapPtr = h.heapPtr := hh'.frame.heapPtr.trans hh.frame.heapPtr.symm
      have hoffset := hsh.offset
      have hy : (y, (rtAlign newsize).toNat + 12) ∈ usedRuns 0 bs' := hsh.runs.2 (.inl ⟨rfl, rfl⟩)
      refine .inr ⟨hnull, ⟨hh'.usable hy (by rw [hptr, hoffset]) (by omega), fun i hi => ?_⟩,
        fun q hq hne => ?_⟩
      · exact hsh.payloads _ _ hy _ (by omega) (by omega)
      · obtain ⟨z, j, hz, hq', -⟩ := hh.exists_run hq
        have hz' : (z, j) ∈ usedRuns 0 bs' := hsh.runs.2 (.inr ⟨hz, offset_ne hne hq' hoffset⟩)
        exact hh.kept hh' hz hz' hq' (hsh.payloads z j hz')
    · -- the block is moved
      rcases hh.malloc hmalloc with ⟨heq, -⟩ | ⟨bs₁, y, m, hh₁, ha, hm⟩
      · exact absurd heq hne
      · have hroom := Adds.room hm (rtAlign_fits newsize)
        have hmin : min (h.blockSize rmem).toNat newsize.toNat ≤ count ∧
            count ≤ (rtAlign newsize).toNat := by
          rw [hcount]
          split
          case isTrue hlt =>
            rw [UInt32.lt_iff_toNat_lt] at hlt
            omega
          case isFalse hge =>
            rw [UInt32.lt_iff_toNat_lt] at hge
            omega
        obtain ⟨husable, hcontents, hothers⟩ := hh.move_contents hh₁ ha hp (by omega) hfree
        exact .inr ⟨hne, ⟨husable (by omega), fun i hi => hcontents i (by omega)⟩, hothers⟩
  refine ⟨hh.realloc_total hp, fun fuel h' p hs hne => ?_, fun fuel h' hs => ?_,
    fun fuel h' p hs => ?_⟩
  · rcases hcases fuel h' p hs with ⟨heq, -⟩ | ⟨-, hblock, -⟩
    · exact absurd heq hne
    · exact hblock
  · rcases hcases fuel h' 0 hs with ⟨-, rfl⟩ | ⟨hne, -⟩
    · exact hh.kept_self hp
    · exact absurd rfl hne
  · rcases hcases fuel h' p hs with ⟨-, rfl⟩ | ⟨-, -, hothers⟩
    · exact hself
    · exact hothers

end

/-- **`rt_realloc` keeps the contents**, in every run in which `RT_ALIGN` does not wrap around in
`rt_calloc`. -/
theorem run_reallocRight (fuel : ℕ) (ram : ℕ → UInt8) (beginAddr endAddr : UInt32) (h : Heap)
    (hinit : Heap.rtSystemHeapInit ram beginAddr endAddr = some h) (returned : List UInt32)
    (s : HeapRun) (hrun : Run (step fuel) CallocFits ⟨h, []⟩ returned s) (rmem newsize : UInt32)
    (hp : rmem ∈ s.live) (hpos : 1 ≤ newsize) (hfits : newsize ≤ 0xfffffffc) :
    s.heap.ReallocRight s.live rmem newsize := by
  obtain ⟨bs, hh⟩ := run_holds hinit hrun
  exact hh.reallocRight hp hpos hfits

/-- The second of two blocks is enlarged. -/
theorem run_reallocRight_second :
    ∃ s : HeapRun, s.live = [0x1030, 0x1010] ∧ s.heap.ReallocRight s.live 0x1030 100 := by
  have hsome : ((Heap.rtSystemHeapInit (fun _ => 0) 0x1001 0x1100).bind fun h =>
      exec (step 9) CallocFits ⟨h, []⟩ [.malloc 20, .malloc 20, .write 0x1030 7]).any fun r =>
        r.1.live = [0x1030, 0x1010] := by
    decide +kernel
  obtain ⟨⟨s, returned⟩, hs, hlive⟩ := (Option.any_eq_true _ _).1 hsome
  obtain ⟨h, hinit, hexec⟩ := bind_eq_some_iff.1 hs
  have hlive : s.live = [0x1030, 0x1010] := of_decide_eq_true hlive
  have hmem : (0x1030 : UInt32) ∈ s.live := by
    rw [hlive]
    decide
  exact ⟨s, hlive, run_reallocRight 9 _ 0x1001 0x1100 h hinit returned s (Run.of_exec hexec) 0x1030
    100 hmem (by decide) (by decide)⟩

/-- `rt_calloc` has cleared the headers of the other blocks, and `rt_realloc` writes a header into
the last one. -/
def clearedHeaders : List HeapAction :=
  [.malloc 20, .malloc 20, .malloc 100, .free 0x100c, .calloc 1 0xffffffff]

theorem not_run_reallocRight :
    ¬ ∀ (fuel : ℕ) (ram : ℕ → UInt8) (beginAddr endAddr : UInt32) (h : Heap)
      (_ : Heap.rtSystemHeapInit ram beginAddr endAddr = some h) (returned : List UInt32)
      (s : HeapRun) (_ : Run (step fuel) (fun _ _ => True) ⟨h, []⟩ returned s)
      (rmem newsize : UInt32) (_ : rmem ∈ s.live) (_ : 1 ≤ newsize) (_ : newsize ≤ 0xfffffffc),
      s.heap.ReallocRight s.live rmem newsize := by
  intro hall
  have hsome : ((Heap.rtSystemHeapInit (fun _ => 0) 0x1000 0x1200).bind fun h =>
      exec (step 9) (fun _ _ => True) ⟨h, []⟩ clearedHeaders).any fun r =>
        r.1.live = [0x100c, 0x104c, 0x102c] ∧ r.1.heap.ram (0x104c + 68) = 0 ∧
          68 < (r.1.heap.blockSize 0x104c).toNat ∧
          (r.1.heap.rtRealloc 9 0x102c 100).any fun r' => r'.1.ram (0x104c + 68) ≠ 0 := by
    decide +kernel
  obtain ⟨h, s, returned, hinit, hrun, hlive, hzero, hlt, hrealloc⟩ := of_any hsome
  obtain ⟨⟨h', p⟩, hs', hne⟩ := (Option.any_eq_true _ _).1 hrealloc
  have hmem : (0x102c : UInt32) ∈ s.live := by
    rw [hlive]
    decide
  have hmem' : (0x104c : UInt32) ∈ s.live := by
    rw [hlive]
    decide
  have hright := hall 9 _ 0x1000 0x1200 h hinit returned s hrun 0x102c 100 hmem
    (by decide) (by decide)
  have hkept := (hright.others 9 h' p hs' 0x104c hmem' (by decide)).contents 68 hlt
  exact of_decide_eq_true hne (hkept.trans hzero)

end HeapRun

end RtThread
