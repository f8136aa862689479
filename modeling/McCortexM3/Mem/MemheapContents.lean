import McCortexM3.Mem.MemheapsRuns

/-!
# The contents under `rt_memheap_realloc` and `rt_realloc`

A reallocated block has the contents of the old one, as far as both have place for them, and no
other block is touched: in runs in which no block is to grow to a size that wraps around.

## Main definitions

* `Memheaps.Usable` — a used block inside of one of the heaps, with place for some bytes.
* `Memheaps.ReallocRight` — what a call of one of the two functions is to do.

## Main results

* `run_reallocRight_iff` — when it does so.
* `not_run_memheapRealloc` — what happens in other cases.
-/

set_option linter.all false

namespace RtThread

open Option List ByteMemory Tiling

namespace Memheaps

/-- There is a used block at `p`, in one of the heaps, with place for `k` bytes. -/
structure Usable (s : Memheaps) (p : UInt32) (k : ℕ) : Prop where
  used : s.IsUsed (p - memheapSize)
  room : k ≤ (s.size p).toNat
  inside : ∃ a ∈ s.list, (s.object a).startAddr.toNat + 24 ≤ p.toNat ∧
    p.toNat + (s.size p).toNat + 24 ≤ (s.object a).startAddr.toNat + (s.object a).poolSize.toNat

/-- A call that is to give `ptr` a new size returns a block of this size with the contents of the
old one, or leaves the old one alone; and it leaves all others alone.  A size of 0 gives the block
back. -/
structure ReallocRight (s : Memheaps) (live : List UInt32)
    (call : ℕ → Option (Memheaps × UInt32)) (ptr newsize : UInt32) : Prop where
  returns : ∃ least, ∀ fuel ≥ least, ∃ r, call fuel = some r
  block : ∀ fuel s' p, call fuel = some (s', p) → p ≠ 0 →
    s'.Usable p newsize.toNat ∧ ∀ i < min (s.size ptr).toNat newsize.toNat,
      s'.ram (p.toNat + i) = s.ram (ptr.toNat + i)
  null : newsize ≠ 0 → ∀ fuel s', call fuel = some (s', 0) → s.Kept s' ptr
  others : ∀ fuel s' p, call fuel = some (s', p) → ∀ q ∈ live, q ≠ ptr → s.Kept s' q

end Memheaps

namespace MemheapsRun

open Memheap MemheapRun

variable {s s' : Memheaps} {live : List UInt32} {part : UInt32 → List UInt32}
variable {p ptr newsize : UInt32} {k fuel : ℕ}

theorem Ok.usable (ok : Ok s live part) (hp : p ∈ live) (hk : k ≤ (s.size p).toNat) :
    s.Usable p k := by
  obtain ⟨a, ha, -, -, bs, x, n, hh, ho⟩ := ok.owner hp
  obtain ⟨hsize, hused, -⟩ := ho.header hh
  have hend := ho.end_le hh
  have hlen := ho.len_ge hh
  have hoffset := ho.offset
  have hsize : (s.size p).toNat = n - 24 := hsize
  have hend : x + n + 24 ≤ (s.object a).poolSize.toNat := hend
  have hoffset : p.toNat = (s.object a).startAddr.toNat + x + 24 := hoffset
  exact ⟨hused, hk, a, ha, by omega, by omega⟩

/-! ### The calls return -/

theorem Ok.rtMemheapRealloc_total (ok : Ok s live part) (hp : ptr ∈ live) (newsize : UInt32)
    (hfuel : 2 ^ 32 ≤ fuel) : ∃ r, s.rtMemheapRealloc fuel (s.pool ptr) ptr newsize = some r := by
  obtain ⟨a, ha, hpool, hpa, bs, x, n, hh, -⟩ := ok.owner hp
  have hlt := (s.memheap a).poolSize.toNat_lt
  have hr : Right (s.memheap a) (s.memheap a) (part a) := ⟨bs, hh.inv, hh.pointers, .refl _⟩
  have hsome : ((s.memheap a).rtMemheapRealloc fuel ptr newsize).isSome :=
    isSome_realloc hr (.inr hpa) (by omega)
  obtain ⟨r, hr⟩ := isSome_iff_exists.1 hsome
  rw [hpool, Memheaps.rtMemheapRealloc, if_pos ha, hr]
  exact ⟨_, rfl⟩

theorem Ok.rtRealloc_total (ok : Ok s live part) (hp : ptr ∈ live)
    (hfits : GrowFits s ptr newsize) (hfuel : 2 ^ 32 ≤ fuel) :
    ∃ r, s.rtRealloc fuel ptr newsize = some r := by
  have hnull := ok.ne_zero hp
  rw [Memheaps.rtRealloc, if_neg hnull]
  split
  case isTrue =>
    obtain ⟨t, ht, -⟩ := ok.free hp
    rw [Memheaps.rtFree, ht]
    exact ⟨_, rfl⟩
  case isFalse hsize =>
    obtain ⟨⟨s₁, new⟩, hs₁⟩ := ok.rtMemheapRealloc_total hp newsize hfuel
    rw [hs₁, bind_some]
    dsimp only
    rcases ok.rtMemheapRealloc hp hsize hfits hs₁ with ⟨rfl, rfl, hlt⟩ | ⟨hne, -⟩
    · rw [if_pos ⟨rfl, hsize⟩]
      obtain ⟨⟨s₂, new⟩, hs₂⟩ := ok.rtMalloc_total newsize hfuel
      rw [hs₂, bind_some]
      dsimp only
      rcases ok.rtMalloc hs₂ with ⟨rfl, rfl⟩ | ⟨hne, hadd⟩
      · rw [if_neg fun hc => hc.1 rfl]
        exact ⟨_, rfl⟩
      · rw [if_pos ⟨hne, hnull⟩]
        have hcount : (if newsize > s₂.size ptr then s₂.size ptr else newsize).toNat ≤
            (memheapAlign newsize).toNat := by
          rw [(hadd.kept ptr hp).size]
          rw [UInt32.lt_iff_toNat_lt] at hlt
          split
          case isTrue => exact hlt.le
          case isFalse hle =>
            have hle := UInt32.le_iff_toNat_le.1 (UInt32.not_lt.1 hle)
            omega
        obtain ⟨t, ht, -⟩ := move hp hadd hcount
        rw [Memheaps.rtFree, ht]
        exact ⟨_, rfl⟩
    · rw [if_neg fun hc => hne hc.1]
      exact ⟨_, rfl⟩

/-! ### What the calls do -/

/-- A call that leaves the heaps as they are, or returns a block with the contents. -/
theorem Ok.reallocRight {call : ℕ → Option (Memheaps × UInt32)} (ok : Ok s live part)
    (hp : ptr ∈ live) (hk : newsize.toNat ≤ k)
    (hreturns : ∃ least, ∀ fuel ≥ least, ∃ r, call fuel = some r)
    (hzero : newsize = 0 → ∀ fuel s' p, call fuel = some (s', p) →
      p = 0 ∧ s.rtMemheapFree ptr = some s')
    (hcall : newsize ≠ 0 → ∀ fuel s' p, call fuel = some (s', p) →
      p = 0 ∧ s' = s ∨ p ≠ 0 ∧ Reallocated s s' live ptr p k) :
    s.ReallocRight live call ptr newsize := by
  refine ⟨hreturns, fun fuel s' p hs hne => ?_, fun hsize fuel s' hs => ?_,
    fun fuel s' p hs q hq hqptr => ?_⟩
  · by_cases hsize : newsize = 0
    · exact absurd (hzero hsize fuel s' p hs).1 hne
    · rcases hcall hsize fuel s' p hs with ⟨heq, -⟩ | ⟨-, hr⟩
      · exact absurd heq hne
      · obtain ⟨part', ok'⟩ := hr.ok
        exact ⟨ok'.usable mem_cons_self (hk.trans hr.room), fun i hi => hr.contents i (by omega)⟩
  · rcases hcall hsize fuel s' 0 hs with ⟨-, rfl⟩ | ⟨hne, -⟩
    · exact ok.kept_self hp
    · exact absurd rfl hne
  · by_cases hsize : newsize = 0
    · obtain ⟨t, ht, -, hkept⟩ := ok.free hp
      obtain rfl : t = s' := some_inj.1 (ht.symm.trans (hzero hsize fuel s' p hs).2)
      exact hkept q hq hqptr
    · rcases hcall hsize fuel s' p hs with ⟨-, rfl⟩ | ⟨-, hr⟩
      · exact ok.kept_self hq
      · exact hr.kept q hq hqptr

theorem sameFrame_growInPlace (h : Memheap) (header ptr oldsize newsize : UInt32) :
    SameFrame h (h.growInPlace header ptr oldsize newsize) :=
  (((((sameFrame_setAvailable h _).trans (sameFrame_updateMaxUsed _)).trans
    (sameFrame_unlinkFree _ _)).trans (sameFrame_removeBlock _ _)).trans
    (sameFrame_makeBlock _ _ _)).trans (sameFrame_linkFree _ _)

theorem Ok.wrapped (ok : Ok s live part) (hp : ptr ∈ live) (hfits : newsize.toNat + 3 < 2 ^ 32)
    (hnot : ¬ GrowFits s ptr newsize) :
    ∃ s', (∀ fuel, s.rtMemheapRealloc fuel (s.pool ptr) ptr newsize = some (s', ptr)) ∧
      ¬ s'.Usable ptr newsize.toNat := by
  have h12 : memheapMinialloc.toNat = 12 := rfl
  unfold GrowFits at hnot
  simp only [Classical.not_imp] at hnot
  obtain ⟨hnull, hfree, hwrap⟩ := hnot
  obtain ⟨a, ha, hpool, hpa, bs, x, n, hh, ho⟩ := ok.owner hp
  have hlen := ho.len_ge hh
  obtain ⟨l, n', m, d, r, rfl, -, hoffset, -, hold, hnext, hsize⟩ :=
    hh.pointers.block_free hh.inv hpa rfl hfree
  obtain ⟨hn', hm, hsizes⟩ := hh.inv.rep.shape.sizes
  simp only at hm hsizes
  have hbound := (s.memheap a).poolSize.toNat_lt
  have hself : ((s.memheap a).memitemSize (ptr - memheapSize)).toNat = n - 24 := (ho.header hh).1
  have halign : (memheapAlign newsize).toNat % 4 = 0 := by
    rw [memheapAlign]
    split
    case isTrue => rfl
    case isFalse => exact rtAlign_mod newsize
  have hlarge := (memheapAlign newsize).toNat_lt
  have hsize0 : newsize ≠ 0 := by
    rintro rfl
    exact hwrap (by decide)
  -- the sum of the sizes is larger than the size that has wrapped around
  have hgrow : memheapAlign newsize + memheapMinialloc <
      (s.memheap a).memitemSize ((s.memheap a).get (ptr - memheapSize) .next) +
        (s.memheap a).memitemSize (ptr - memheapSize) := by
    rw [UInt32.lt_iff_toNat_lt, UInt32.toNat_add, UInt32.toNat_add, hsize, hold, h12]
    omega
  have hgt : memheapAlign newsize > (s.memheap a).memitemSize (ptr - memheapSize) := by
    rw [gt_iff_lt, UInt32.lt_iff_toNat_lt, hold]
    omega
  refine ⟨s.put ((s.memheap a).growInPlace (ptr - memheapSize) ptr
    ((s.memheap a).memitemSize (ptr - memheapSize)) (memheapAlign newsize)), fun fuel => ?_, ?_⟩
  · have hs : (s.memheap a).rtMemheapRealloc fuel ptr newsize = some ((s.memheap a).growInPlace
        (ptr - memheapSize) ptr ((s.memheap a).memitemSize (ptr - memheapSize))
        (memheapAlign newsize), ptr) := by
      rw [Memheap.rtMemheapRealloc, if_neg hsize0]
      dsimp only
      rw [if_neg hnull, if_pos hgt, if_pos hnext, if_pos ⟨hfree, hgrow⟩]
    rw [hpool, Memheaps.rtMemheapRealloc, if_pos ha, hs]
    rfl
  · -- no heap has place for a block of this size
    have hplace := sameFrame_put (sameFrame_growInPlace (s.memheap a) (ptr - memheapSize) ptr
      ((s.memheap a).memitemSize (ptr - memheapSize)) (memheapAlign newsize))
    have hlist := Memheaps.list_put s ((s.memheap a).growInPlace (ptr - memheapSize) ptr
      ((s.memheap a).memitemSize (ptr - memheapSize)) (memheapAlign newsize))
    generalize s.put _ = t at hplace hlist ⊢
    rintro ⟨-, hroom, b, hb, hle, hend⟩
    have hround : 2 ^ 32 ≤ newsize.toNat + 15 := by
      have hupper : (memheapAlign newsize).toNat ≤ newsize.toNat + 3 := by
        rw [memheapAlign] at hwrap ⊢
        split at hwrap
        case isTrue => exact absurd (by decide) hwrap
        case isFalse hge =>
          rw [if_neg hge, toNat_rtAlign hfits]
          omega
      omega
    have hstart : (t.object b).startAddr = (s.memheap b).startAddr := (hplace b).startAddr
    have hpool : (t.object b).poolSize = (s.memheap b).poolSize := (hplace b).poolSize
    rw [hstart] at hle hend
    rw [hpool] at hend
    obtain ⟨cs, hb'⟩ := ok.heaps b (hlist ▸ hb)
    have hbound' := hb'.bound
    rw [hb'.total_eq] at hbound'
    omega

/-- What `rt_memheap_realloc` and `rt_realloc` do in a state of the invariant. -/
theorem Ok.reallocRight_iff (ok : Ok s live part) (hp : ptr ∈ live)
    (hfits : newsize.toNat + 3 < 2 ^ 32) :
    (s.ReallocRight live (fun fuel => s.rtMemheapRealloc fuel (s.pool ptr) ptr newsize) ptr
        newsize ↔ GrowFits s ptr newsize) ∧
      (s.ReallocRight live (fun fuel => s.rtRealloc fuel ptr newsize) ptr newsize ↔
        GrowFits s ptr newsize) := by
  have hnull := ok.ne_zero hp
  have halign := le_memheapAlign hfits
  refine ⟨⟨fun hright => ?_, fun hgrow => ?_⟩, fun hright => ?_, fun hgrow => ?_⟩
  · by_contra hnot
    obtain ⟨s', hs, husable⟩ := ok.wrapped hp hfits hnot
    exact husable (hright.block 0 s' ptr (hs 0) hnull).1
  · refine ok.reallocRight hp halign
      ⟨2 ^ 32, fun fuel hfuel => ok.rtMemheapRealloc_total hp newsize hfuel⟩
      (fun hsize fuel s' p hs => ?_) fun hsize fuel s' p hs => ?_
    · -- a size of 0 frees the block
      obtain ⟨a, ha, hpool, -⟩ := ok.owner hp
      rw [hpool, Memheaps.rtMemheapRealloc, if_pos ha, Memheap.rtMemheapRealloc, if_pos hsize] at hs
      rw [rtMemheapFree_eq hnull hpool ha]
      obtain ⟨⟨h', p'⟩, hh', heq⟩ := map_eq_some_iff.1 hs
      obtain ⟨h₁, hh₁, heq'⟩ := map_eq_some_iff.1 hh'
      cases heq'
      cases heq
      rw [hh₁]
      exact ⟨rfl, rfl⟩
    · rcases ok.rtMemheapRealloc hp hsize hgrow hs with ⟨hz, heq, -⟩ | hr
      · exact .inl ⟨hz, heq⟩
      · exact .inr hr
  · by_contra hnot
    obtain ⟨s', hs, husable⟩ := ok.wrapped hp hfits hnot
    have hsize : newsize ≠ 0 := by
      rintro rfl
      exact hnot fun _ _ => by decide
    have hcall : s.rtRealloc 0 ptr newsize = some (s', ptr) := by
      rw [Memheaps.rtRealloc, if_neg hnull, if_neg hsize, hs 0, bind_some]
      exact if_neg fun hc => hnull hc.1
    exact husable (hright.block 0 s' ptr hcall hnull).1
  · refine ok.reallocRight hp (Nat.le_min.2 ⟨Nat.le_refl _, halign⟩)
      ⟨2 ^ 32, fun fuel hfuel => ok.rtRealloc_total hp hgrow hfuel⟩
      (fun hsize fuel s' p hs => ?_) fun hsize fuel s' p hs => ok.rtRealloc hp hsize hgrow hs
    rw [Memheaps.rtRealloc, if_neg hnull, if_pos hsize] at hs
    obtain ⟨t, ht, heq⟩ := map_eq_some_iff.1 hs
    cases heq
    exact ⟨rfl, ht⟩

/-! ### The runs -/

theorem run_ok {ram : ℕ → UInt8} {object : UInt32 → MemheapObject}
    {heap freeHeader beginAddr endAddr : UInt32}
    (hregion : Region freeHeader beginAddr (endAddr - beginAddr)) {returned : List UInt32}
    {s : MemheapsRun} (hrun : Run (step fuel) Fits
      ⟨Memheaps.rtSystemHeapInit ram object heap freeHeader beginAddr endAddr, []⟩ returned s) :
    ∃ part, Ok s.sys s.live part := by
  refine hrun.invariant (fun _ s => ∃ part, Ok s.sys s.live part) ?_
    fun ⟨part, ok⟩ hc hs => ok_step ok hc hs
  obtain ⟨s₀, hs₀⟩ : ∃ s₀ : Memheaps, s₀ = ⟨ram, object, [], heap⟩ := ⟨_, rfl⟩
  have hstart : s₀.heap = heap ∧ s₀.list = [] ∧ ([] : List UInt32) = [] ∨ Ok s₀ [] fun _ => [] := by
    rw [hs₀]
    exact .inl ⟨rfl, rfl, rfl⟩
  rw [Memheaps.rtSystemHeapInit, ← hs₀]
  refine ok_init hstart ⟨hs₀ ▸ not_mem_nil, hregion, fun a ha => ?_⟩
  rw [hs₀] at ha
  exact absurd ha not_mem_nil

/-- **When a reallocated block keeps its contents**, and all others theirs, after every run in which
no size wraps around: when the block behind it is used, or its new size does not wrap around with
`RT_MEMHEAP_MINIALLOC`. -/
theorem run_reallocRight_iff (fuel : ℕ) (ram : ℕ → UInt8) (object : UInt32 → MemheapObject)
    (heap freeHeader beginAddr endAddr : UInt32)
    (hregion : Region freeHeader beginAddr (endAddr - beginAddr)) (returned : List UInt32)
    (s : MemheapsRun) (hrun : Run (step fuel) Fits
      ⟨Memheaps.rtSystemHeapInit ram object heap freeHeader beginAddr endAddr, []⟩ returned s)
    (ptr newsize : UInt32) (hp : ptr ∈ s.live) (hfits : newsize.toNat + 3 < 2 ^ 32) :
    (s.sys.ReallocRight s.live
        (fun fuel => s.sys.rtMemheapRealloc fuel (s.sys.pool ptr) ptr newsize) ptr newsize ↔
      GrowFits s.sys ptr newsize) ∧
    (s.sys.ReallocRight s.live (fun fuel => s.sys.rtRealloc fuel ptr newsize) ptr newsize ↔
      GrowFits s.sys ptr newsize) := by
  obtain ⟨part, ok⟩ := run_ok hregion hrun
  exact ok.reallocRight_iff hp hfits

/-- A block of a heap without place for it is moved into the other heap. -/
def twoHeaps : List MemheapsAction :=
  [.init 0x300 0x400 0x2000 0x200, .malloc 100, .malloc 100, .write 0x1018 7]

theorem run_reallocRight_iff_twoHeaps :
    ∃ s : MemheapsRun, s.live = [0x1094, 0x1018] ∧
      (s.sys.rtRealloc 9 0x1018 300).any (fun r => r.2 = 0x2018 ∧ r.1.ram 0x2018 = 7) ∧
      s.sys.ReallocRight s.live (fun fuel => s.sys.rtRealloc fuel 0x1018 300) 0x1018 300 := by
  have hsome : (exec (step 9) Fits ⟨Memheaps.rtSystemHeapInit (fun _ => 0)
      (fun _ => ⟨0, 0, 0, 0, 0, 0, 0⟩) 0x100 0x200 0x1000 0x1130, []⟩ twoHeaps).any fun r =>
        r.1.live = [0x1094, 0x1018] ∧ GrowFits r.1.sys 0x1018 300 ∧
          (r.1.sys.rtRealloc 9 0x1018 300).any (fun r => r.2 = 0x2018 ∧ r.1.ram 0x2018 = 7) := by
    decide +kernel
  obtain ⟨s, returned, hrun, hlive, hgrow, hmoved⟩ := Run.of_any hsome
  have hregion : Region 0x200 0x1000 (0x1130 - 0x1000) := by decide
  have hmem : (0x1018 : UInt32) ∈ s.live := by
    rw [hlive]
    decide
  exact ⟨s, hlive, hmoved, (run_reallocRight_iff 9 _ _ 0x100 0x200 0x1000 0x1130 hregion returned s
    hrun 0x1018 300 hmem (by decide)).2.2 hgrow⟩

/-- The item of a block that has not grown is written into the contents of the old one. -/
theorem not_run_memheapRealloc :
    ¬ ∀ (fuel : ℕ) (ram : ℕ → UInt8) (object : UInt32 → MemheapObject)
      (heap freeHeader beginAddr endAddr : UInt32)
      (_ : Region freeHeader beginAddr (endAddr - beginAddr)) (returned : List UInt32)
      (s : MemheapsRun) (_ : Run (step fuel) (fun _ _ => True)
        ⟨Memheaps.rtSystemHeapInit ram object heap freeHeader beginAddr endAddr, []⟩ returned s)
      (ptr newsize : UInt32) (_ : ptr ∈ s.live) (_ : newsize.toNat + 3 < 2 ^ 32),
      s.sys.ReallocRight s.live
          (fun fuel => s.sys.rtMemheapRealloc fuel (s.sys.pool ptr) ptr newsize) ptr newsize ∧
        s.sys.ReallocRight s.live (fun fuel => s.sys.rtRealloc fuel ptr newsize) ptr newsize := by
  intro hall
  have hsome : (exec (step 9) (fun _ _ => True) ⟨Memheaps.rtSystemHeapInit (fun _ => 0)
      (fun _ => ⟨0, 0, 0, 0, 0, 0, 0⟩) 0x100 0x200 0x1000 0x1200, []⟩ [.malloc 20]).any fun r =>
        r.1.live = [0x1018] ∧ r.1.sys.ram (0x1018 + 1) = 0 ∧ (r.1.sys.size 0x1018).toNat = 20 ∧
          (r.1.sys.rtRealloc 9 0x1018 0xfffffff4).any
            fun r => r.2 = 0x1018 ∧ r.1.ram (0x1018 + 1) = 0x10 := by
    decide +kernel
  obtain ⟨s, returned, hrun, hlive, hold, hsize, hgrown⟩ := Run.of_any hsome
  obtain ⟨⟨s', p⟩, hs, hnew⟩ := (Option.any_eq_true _ _).1 hgrown
  obtain ⟨rfl, hnew⟩ := of_decide_eq_true hnew
  have hmem : (0x1018 : UInt32) ∈ s.live := by
    rw [hlive]
    decide
  have hright := (hall 9 _ _ 0x100 0x200 0x1000 0x1200 (by decide) returned s hrun
    0x1018 0xfffffff4 hmem (by decide)).2
  have hcontents := (hright.block 9 s' 0x1018 hs (by decide)).2 1 (by rw [hsize]; decide)
  exact absurd ((hnew.symm.trans hcontents).trans hold) (by decide)

end MemheapsRun

end RtThread
