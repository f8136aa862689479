import McCortexM3.Mem.Calls
import McCortexM3.Run

/-!
# Runs of the heap

Threads call the functions of `mem.c` with pointers that they have got from them and not given
back, and write into their blocks.  The used blocks are those that the threads have got.

## Main definitions

* `HeapRun`, `step` — the heap with the pointers that are live, and the calls.
* `Live` — the pointers are those of the used blocks.

## Main results

* `run_live` — the invariant of the heap, in every run.
-/

set_option linter.all false

namespace RtThread

open Option List ByteMemory Tiling
open UInt32 (lt_iff_toNat_lt toNat_add toNat_inj toNat_sub)

/-- What can happen next: a call, or a thread writes a byte. -/
inductive HeapAction
  | malloc (size : UInt32)
  | realloc (rmem newsize : UInt32)
  | calloc (count size : UInt32)
  | free (rmem : UInt32)
  | write (a : ℕ) (b : UInt8)

/-- The heap, and the pointers that have been returned and not given back. -/
structure HeapRun where
  heap : Heap
  live : List UInt32

namespace HeapRun

/-- `p` has been returned. -/
def handOut (p : UInt32) (live : List UInt32) : List UInt32 := if p = 0 then live else p :: live

/-- `rt_realloc` has been called with `rmem`, and has returned `p`. -/
def handOver (rmem newsize p : UInt32) (live : List UInt32) : List UInt32 :=
  if p ≠ 0 then p :: live.erase rmem
  else if rtAlign newsize = 0 then live.erase rmem else live

/-- The address `a` is in a block that a thread has got. -/
def InBlock (s : HeapRun) (a : ℕ) : Prop :=
  ∃ p ∈ s.live, p.toNat ≤ a ∧ a < s.heap.heapPtr.toNat + (s.heap.next (p - sizeofStructMem)).toNat

instance (s : HeapRun) (a : ℕ) : Decidable (s.InBlock a) := by
  unfold InBlock
  infer_instance

/-- One step; it shows the pointer that the call returns. -/
def step (fuel : ℕ) (s : HeapRun) : HeapAction → Option (HeapRun × List UInt32)
  | .malloc size =>
    (s.heap.rtMalloc fuel size).map fun (h, p) => (⟨h, handOut p s.live⟩, [p])
  | .realloc rmem newsize =>
    if rmem = 0 ∨ rmem ∈ s.live then
      (s.heap.rtRealloc fuel rmem newsize).map fun (h, p) =>
        (⟨h, handOver rmem newsize p s.live⟩, [p])
    else none
  | .calloc count size =>
    (s.heap.rtCalloc fuel count size).map fun (h, p) => (⟨h, handOut p s.live⟩, [p])
  | .free rmem =>
    if rmem = 0 ∨ rmem ∈ s.live then
      (s.heap.rtFree rmem).map fun h => (⟨h, s.live.erase rmem⟩, [])
    else none
  | .write a b =>
    if s.InBlock a then some (⟨{ s.heap with ram := Function.update s.heap.ram a b }, s.live⟩, [])
    else none

theorem of_any {fuel : ℕ} {ram : ℕ → UInt8} {beginAddr endAddr : UInt32} {as : List HeapAction}
    {C : HeapRun → HeapAction → Prop} [∀ s a, Decidable (C s a)]
    {p : HeapRun × List UInt32 → Prop} {_ : DecidablePred p}
    (h : ((Heap.rtSystemHeapInit ram beginAddr endAddr).bind fun h =>
      exec (step fuel) C ⟨h, []⟩ as).any fun r => p r) :
    ∃ h s returned, Heap.rtSystemHeapInit ram beginAddr endAddr = some h ∧
      Run (step fuel) C ⟨h, []⟩ returned s ∧ p (s, returned) := by
  obtain ⟨⟨s, returned⟩, hs, hp⟩ := (Option.any_eq_true _ _).1 h
  obtain ⟨h, hinit, hexec⟩ := bind_eq_some_iff.1 hs
  exact ⟨h, s, returned, hinit, .of_exec hexec, of_decide_eq_true hp⟩

/-- `RT_ALIGN(count * size)` does not wrap around in `rt_calloc`. -/
def CallocFits (_ : HeapRun) : HeapAction → Prop
  | .calloc count size => (count * size).toNat + 3 < 2 ^ 32
  | _ => True

/-- `rt_realloc` splits the block of `rmem` in place. -/
def SplitsInPlace (h : Heap) (rmem newsize : UInt32) : Prop :=
  rmem ≠ 0 ∧ rtAlign newsize ≠ 0 ∧ rtAlign newsize ≤ h.memSizeAligned ∧
    rtAlign newsize + sizeofStructMem + minSize <
      h.next (rmem - sizeofStructMem) - (rmem - sizeofStructMem - h.heapPtr) - sizeofStructMem

/-- When `rt_realloc` splits a block in place, a free block lies before it, or the block behind it
is the lowest free one. -/
def SplitsAbove (s : HeapRun) : HeapAction → Prop
  | .realloc rmem newsize =>
    SplitsInPlace s.heap rmem newsize → s.heap.SplitFits (rmem - sizeofStructMem)
  | _ => True

instance (s : HeapRun) (a : HeapAction) : Decidable (s.CallocFits a) := by
  unfold CallocFits
  split <;> infer_instance

instance (s : HeapRun) (a : HeapAction) : Decidable (s.SplitsAbove a) := by
  unfold SplitsAbove SplitsInPlace Heap.SplitFits
  split <;> infer_instance

variable {lowest : Prop} {h₀ h h' : Heap} {bs bs' : List Block} {live : List UInt32} {x k fuel : ℕ}
variable {p rmem size newsize : UInt32} {s s' : HeapRun}

/-- The live pointers are those of the used blocks. -/
structure Live (h : Heap) (bs : List Block) (live : List UInt32) : Prop where
  nodup : live.Nodup
  mem : ∀ a, a ∈ live ↔ ∃ x ∈ offsets true 0 bs, a.toNat = h.heapPtr.toNat + x + 12

theorem Live.ne_zero (hlive : Live h bs live) (hp : p ∈ live) : p ≠ 0 := by
  rintro rfl
  obtain ⟨x, -, hx⟩ := (hlive.mem 0).1 hp
  rw [UInt32.toNat_zero] at hx
  omega

theorem Live.alloc (hlive : Live h bs live) (ha : h.Allocated lowest h' bs bs' x k)
    (hp : p.toNat = h.heapPtr.toNat + x + 12) : Live h' bs' (p :: live) := by
  refine ⟨nodup_cons.2 ⟨?_, hlive.nodup⟩, ?_⟩
  · intro hmem
    obtain ⟨y, hy, hpy⟩ := (hlive.mem p).1 hmem
    obtain rfl : x = y := by omega
    exact ha.fresh hy
  · intro a
    rw [mem_cons, hlive.mem, ha.frame.heapPtr]
    constructor
    · rintro (rfl | ⟨y, hy, hay⟩)
      · exact ⟨x, (ha.used x).2 (.inr rfl), hp⟩
      · exact ⟨y, (ha.used y).2 (.inl hy), hay⟩
    · rintro ⟨y, hy, hay⟩
      rcases (ha.used y).1 hy with hy | rfl
      · exact .inr ⟨y, hy, hay⟩
      · exact .inl (toNat_inj.1 (hay.trans hp.symm))

theorem Live.free (hlive : Live h bs live) (hf : h.Freed lowest h' bs bs' x)
    (hp : p.toNat = h.heapPtr.toNat + x + 12) : Live h' bs' (live.erase p) := by
  refine ⟨hlive.nodup.erase p, ?_⟩
  intro a
  rw [hlive.nodup.mem_erase_iff, hlive.mem, hf.frame.heapPtr]
  constructor
  · rintro ⟨hne, y, hy, hay⟩
    refine ⟨y, (hf.used y).2 ⟨hy, ?_⟩, hay⟩
    rintro rfl
    exact hne (toNat_inj.1 (hay.trans hp.symm))
  · rintro ⟨y, hy, hay⟩
    obtain ⟨hy, hne⟩ := (hf.used y).1 hy
    refine ⟨?_, y, hy, hay⟩
    rintro rfl
    omega

theorem Live.congr (hlive : Live h bs live) (hf : h.SameFrame h')
    (hused : offsets true 0 bs' = offsets true 0 bs) : Live h' bs' live := by
  refine ⟨hlive.nodup, ?_⟩
  intro a
  rw [hlive.mem, hused, hf.heapPtr]

/-- The invariant of a run that has begun with the heap `h₀`. -/
def Right (lowest : Prop) (h₀ h : Heap) (live : List UInt32) : Prop :=
  ∃ bs, h.Inv lowest bs ∧ Live h bs live ∧ h₀.SameFrame h

/-! ### The calls -/

theorem right_malloc (hr : Right lowest h₀ h live) (hs : h.rtMalloc fuel size = some (h', p)) :
    Right lowest h₀ h' (handOut p live) := by
  obtain ⟨bs, hinv, hlive, hframe⟩ := hr
  rcases hinv.rtMalloc hs with ⟨rfl, rfl⟩ | ⟨x, bs', -, hp, ha, -⟩
  · exact ⟨bs, hinv, hlive, hframe⟩
  · have hlive' := hlive.alloc ha hp
    rw [handOut, if_neg (hlive'.ne_zero mem_cons_self)]
    exact ⟨bs', ha.inv, hlive', hframe.trans ha.frame⟩

theorem right_free (hr : Right lowest h₀ h live) (hp : rmem = 0 ∨ rmem ∈ live)
    (hs : h.rtFree rmem = some h') : Right lowest h₀ h' (live.erase rmem) := by
  obtain ⟨bs, hinv, hlive, hframe⟩ := hr
  rcases hp with rfl | hp
  · -- `rt_free` does nothing for `RT_NULL`
    rw [Heap.rtFree, if_pos rfl] at hs
    cases hs
    rw [erase_of_not_mem fun hmem => hlive.ne_zero hmem rfl]
    exact ⟨bs, hinv, hlive, hframe⟩
  · obtain ⟨x, hx, hpx⟩ := (hlive.mem rmem).1 hp
    obtain ⟨bs', -, hf, -⟩ := hinv.rtFree hx hpx hs
    exact ⟨bs', hf.inv, hlive.free hf hpx, hframe.trans hf.frame⟩

theorem right_writeNew {bs₁ : List Block} {h₁ h₂ : Heap} (hframe : h₀.SameFrame h)
    (hlive : Live h bs live) (ha : h.Allocated lowest h₁ bs bs₁ x k)
    (hp : p.toNat = h.heapPtr.toNat + x + 12) (hf : h₁.SameFrame h₂) (hlfree : h₂.lfree = h₁.lfree)
    (hram : ∀ y, y < p.toNat ∨ p.toNat + k ≤ y → h₂.ram y = h₁.ram y) :
    Right lowest h₀ h₂ (p :: live) := by
  obtain ⟨l, m, r, hbs₁, hx, hm⟩ := ha.room
  refine ⟨bs₁, ha.inv.writeBlock hbs₁ hf hlfree fun y hy => hram y ?_,
    (hlive.alloc ha hp).congr hf rfl, (hframe.trans ha.frame).trans hf⟩
  rw [ha.frame.heapPtr] at hy
  omega

theorem right_calloc {count : UInt32} (hr : Right lowest h₀ h live)
    (hfits : (count * size).toNat + 3 < 2 ^ 32) (hs : h.rtCalloc fuel count size = some (h', p)) :
    Right lowest h₀ h' (handOut p live) := by
  obtain ⟨bs, hinv, hlive, hframe⟩ := hr
  obtain ⟨⟨h₁, p₁⟩, hh₁, hout⟩ := map_eq_some_iff.1 hs
  rcases hinv.rtMalloc hh₁ with ⟨rfl, rfl⟩ | ⟨x, bs', -, hp, ha, -⟩
  · dsimp only at hout
    rw [if_neg (not_not.2 rfl)] at hout
    cases hout
    exact ⟨bs, hinv, hlive, hframe⟩
  · have hne : p₁ ≠ 0 := (hlive.alloc ha hp).ne_zero mem_cons_self
    simp only [if_pos hne, Prod.mk.injEq] at hout
    obtain ⟨rfl, rfl⟩ := hout
    have hle := le_toNat_rtAlign hfits
    rw [handOut, if_neg hne]
    exact right_writeNew hframe hlive ha hp ⟨rfl, rfl, rfl⟩ rfl
      fun y hy => fill_of_outside (by omega)

theorem Live.block (hlive : Live h bs live) (hinv : h.Inv lowest bs) (hp : rmem ∈ live) :
    ∃ l n r, bs = l ++ ⟨n, true⟩ :: r ∧ rmem.toNat = h.heapPtr.toNat + total l + 12 ∧
      (rmem - sizeofStructMem).toNat = h.heapPtr.toNat + total l ∧
      (rmem - sizeofStructMem - h.heapPtr).toNat = total l ∧
      (h.next (rmem - sizeofStructMem)).toNat = total l + n ∧ 12 ≤ n := by
  obtain ⟨x, hx, hpx⟩ := (hlive.mem rmem).1 hp
  obtain ⟨l, n, r, rfl, rfl⟩ := exists_of_mem_offsets hx
  have hsize : sizeofStructMem.toNat = 12 := rfl
  rw [Nat.zero_add] at hpx
  have hmem : (rmem - sizeofStructMem).toNat = h.heapPtr.toNat + total l := by
    rw [toNat_sub, hsize]
    have hlt := rmem.toNat_lt
    omega
  refine ⟨l, n, r, rfl, hpx, hmem, ?_, Heap.next_eq (hinv.rep.header hmem),
    hinv.rep.len ⟨n, true⟩ (by simp)⟩
  rw [toNat_sub, hmem]
  have hlt := rmem.toNat_lt
  omega

section

variable (hr : Right lowest h₀ h live)
include hr

theorem Right.handOver_self (hp : rmem ∈ live) (hnull : rmem ≠ 0) :
    Right lowest h₀ h (handOver rmem newsize rmem live) := by
  obtain ⟨bs, hinv, hlive, hframe⟩ := hr
  have hperm := perm_cons_erase hp
  rw [handOver, if_pos hnull]
  refine ⟨bs, hinv, ⟨hperm.nodup_iff.1 hlive.nodup, ?_⟩, hframe⟩
  intro a
  rw [← hperm.mem_iff, hlive.mem]

theorem Right.handOver_null (hzero : rtAlign newsize ≠ 0) :
    Right lowest h₀ h (handOver rmem newsize 0 live) := by
  rwa [handOver, if_neg (not_not.2 rfl), if_neg hzero]

theorem right_move {nmem count : UInt32} {h₁ h₂ : Heap} (hp : rmem ∈ live)
    (hcount : count.toNat ≤ size.toNat)
    (hfits : size.toNat + 3 < 2 ^ 32) (hh₁ : h.rtMalloc fuel size = some (h₁, nmem))
    (hne : nmem ≠ 0)
    (hh₂ : { h₁ with ram := copy h₁.ram nmem.toNat rmem.toNat count.toNat }.rtFree rmem = some h₂) :
    Right lowest h₀ h₂ (handOver rmem newsize nmem live) := by
  obtain ⟨bs, hinv, hlive, hframe⟩ := hr
  rcases hinv.rtMalloc hh₁ with ⟨heq, -⟩ | ⟨x, bs₁, -, hnmem, ha, -⟩
  · exact absurd heq hne
  · have hlive₁ := hlive.alloc ha hnmem
    -- the contents are copied into the new block, and the old one is freed
    have hroom := le_toNat_rtAlign hfits
    have hcopied : Right lowest h₀ { h₁ with ram := copy h₁.ram nmem.toNat rmem.toNat count.toNat }
        (nmem :: live) :=
      right_writeNew hframe hlive ha hnmem ⟨rfl, rfl, rfl⟩ rfl
        fun y hy => copy_of_outside (by omega)
    have hfreed := right_free hcopied (.inr (mem_cons_of_mem nmem hp)) hh₂
    have hother : nmem ≠ rmem := by
      rintro rfl
      exact (nodup_cons.1 hlive₁.nodup).1 hp
    rw [erase_cons_tail (by simpa using hother)] at hfreed
    rwa [handOver, if_pos hne]

/-- The branch of `rt_realloc` that **splits the block in place**. -/
theorem right_split {ptr old size' : UInt32} (hp : rmem ∈ live)
    (hptr_eq : ptr = rmem - sizeofStructMem - h.heapPtr)
    (hold : old = h.next (rmem - sizeofStructMem) - ptr - sizeofStructMem)
    (hle : size'.toNat ≤ h.memSizeAligned.toNat) (hlt : size' + sizeofStructMem + minSize < old)
    (hfits : lowest → h.SplitFits (rmem - sizeofStructMem))
    (hs : h.reallocSplit ptr old size' = some h') : Right lowest h₀ h' live := by
  have hsize : sizeofStructMem.toNat = 12 := rfl
  have hmin : minSize.toNat = 12 := rfl
  obtain ⟨bs, hinv, hlive, hframe⟩ := hr
  obtain ⟨l, n, r, rfl, hrmem, hmem, hptr, hnext, hn⟩ := hlive.block hinv hp
  rw [← hptr_eq] at hptr
  have hbound := hinv.rep.bound
  have htotal := hinv.rep.total_eq
  have hold' : old.toNat = n - 12 := by
    simp only [total_append, total_cons] at hbound
    rw [hold, toNat_sub, toNat_sub, hnext, hptr, hsize]
    omega
  have hfar : size'.toNat + 36 < n := by
    rw [lt_iff_toNat_lt, hold', toNat_add, toNat_add, hsize, hmin] at hlt
    omega
  have hblock : h.block ptr = rmem - sizeofStructMem := by
    apply toNat_inj.1
    rw [hinv.rep.toNat_block (by simp [hptr]), hptr, hmem]
  obtain ⟨h₁, bs', -, hs₁, -, hplugged, -⟩ :=
    hinv.reallocSplit old hptr hfar fun hlowest => hblock ▸ hfits hlowest
  obtain rfl : h₁ = h' := some_inj.1 (hs₁.symm.trans hs)
  exact ⟨bs', hplugged.inv, hlive.congr hplugged.frame hplugged.used, hframe.trans hplugged.frame⟩

theorem right_realloc (hp : rmem = 0 ∨ rmem ∈ live)
    (hfits : lowest → SplitsInPlace h rmem newsize → h.SplitFits (rmem - sizeofStructMem))
    (hs : h.rtRealloc fuel rmem newsize = some (h', p)) :
    Right lowest h₀ h' (handOver rmem newsize p live) := by
  have hnot : (0 : UInt32) ∉ live := by
    obtain ⟨bs, -, hlive, -⟩ := hr
    exact fun hmem => hlive.ne_zero hmem rfl
  have hmsa : h.memSizeAligned.toNat + 3 < 2 ^ 32 := by
    obtain ⟨bs, hinv, -⟩ := hr
    have htotal := hinv.rep.total_eq
    have hbound := hinv.rep.bound
    omega
  by_cases hgt : rtAlign newsize > h.memSizeAligned
  · rw [Heap.rtRealloc_large fuel rmem hgt] at hs
    cases hs
    apply hr.handOver_null
    intro hzero
    rw [hzero] at hgt
    exact absurd (lt_iff_toNat_lt.1 hgt) (Nat.not_lt_zero _)
  have hle : (rtAlign newsize).toNat ≤ h.memSizeAligned.toNat := by
    rwa [gt_iff_lt, lt_iff_toNat_lt, not_lt] at hgt
  by_cases hzero : rtAlign newsize = 0
  · -- a size of 0 frees the block
    rw [Heap.rtRealloc_zero hgt fuel rmem hzero] at hs
    obtain ⟨h₁, hh₁, hs⟩ := map_eq_some_iff.1 hs
    cases hs
    rw [handOver, if_neg (not_not.2 rfl), if_pos hzero]
    exact right_free hr hp hh₁
  by_cases hnull : rmem = 0
  · -- no block: a new one
    subst hnull
    rw [Heap.rtRealloc_null hgt fuel hzero] at hs
    have hout := right_malloc hr hs
    rw [handOver, erase_of_not_mem hnot, if_neg hzero]
    rw [handOut] at hout
    split
    · next hne => rwa [if_neg hne] at hout
    · next heq => rwa [if_pos (not_not.1 heq)] at hout
  have hp : rmem ∈ live := hp.resolve_left hnull
  rw [Heap.rtRealloc_block hgt fuel hzero hnull rfl] at hs
  -- a block outside the heap, and the same size
  by_cases houtside : rmem < h.heapPtr ∨ rmem ≥ h.heapEnd
  · rw [if_pos houtside] at hs
    cases hs
    exact hr.handOver_self hp hnull
  rw [if_neg houtside] at hs
  split at hs
  · cases hs
    exact hr.handOver_self hp hnull
  split at hs
  · -- the rest of the block is split off
    next hsplit =>
    obtain ⟨h₁, hh₁, hs⟩ := map_eq_some_iff.1 hs
    obtain ⟨rfl, rfl⟩ := Prod.mk.inj hs
    have hcond : SplitsInPlace h rmem newsize :=
      ⟨hnull, hzero, UInt32.le_iff_toNat_le.2 hle, hsplit⟩
    exact (right_split hr hp rfl rfl hle hsplit (fun hlowest => hfits hlowest hcond)
      hh₁).handOver_self hp hnull
  · -- a new block, into which the bytes are copied
    obtain ⟨⟨h₁, nmem⟩, hh₁, hs⟩ := bind_eq_some_iff.1 hs
    dsimp only at hs
    split at hs
    · next hne =>
      obtain ⟨h₂, hh₂, hs⟩ := map_eq_some_iff.1 hs
      cases hs
      refine right_move hr hp ?_ (by omega) hh₁ hne hh₂
      split
      · next hlt => exact (lt_iff_toNat_lt.1 hlt).le
      · exact le_rfl
    · next heq =>
      cases hs
      have hout := right_malloc hr hh₁
      rw [handOut, if_pos (not_not.1 heq)] at hout
      exact hout.handOver_null hzero

end

theorem right_write {a : ℕ} {b : UInt8} (hr : Right lowest h₀ s.heap s.live) (ha : s.InBlock a) :
    Right lowest h₀ { s.heap with ram := Function.update s.heap.ram a b } s.live := by
  obtain ⟨bs, hinv, hlive, hframe⟩ := hr
  obtain ⟨q, hq, hle, hlt⟩ := ha
  obtain ⟨l, n, r, rfl, hrmem, -, -, hnext, -⟩ := hlive.block hinv hq
  refine ⟨_, hinv.writeBlock rfl ⟨rfl, rfl, rfl⟩ rfl ?_,
    hlive.congr ⟨rfl, rfl, rfl⟩ rfl, hframe.trans ⟨rfl, rfl, rfl⟩⟩
  intro y hy
  rw [hnext] at hlt
  exact Function.update_of_ne (by omega) _ _

theorem right_step {a : HeapAction} {out : List UInt32} (hr : Right lowest h₀ s.heap s.live)
    (hc : s.CallocFits a) (hfits : lowest → s.SplitsAbove a)
    (hs : s.step fuel a = some (s', out)) : Right lowest h₀ s'.heap s'.live := by
  cases a with
  | malloc size =>
    obtain ⟨r, hr', hs⟩ := map_eq_some_iff.1 hs
    cases hs
    exact right_malloc hr hr'
  | realloc rmem newsize =>
    simp only [step, ite_none_right_eq_some] at hs
    obtain ⟨hp, hs⟩ := hs
    obtain ⟨r, hr', hs⟩ := map_eq_some_iff.1 hs
    cases hs
    exact right_realloc hr hp hfits hr'
  | calloc count size =>
    obtain ⟨r, hr', hs⟩ := map_eq_some_iff.1 hs
    cases hs
    exact right_calloc hr hc hr'
  | free rmem =>
    simp only [step, ite_none_right_eq_some] at hs
    obtain ⟨hp, hs⟩ := hs
    obtain ⟨h', hh', hs⟩ := map_eq_some_iff.1 hs
    cases hs
    exact right_free hr hp hh'
  | write a b =>
    simp only [step, ite_none_right_eq_some, some.injEq, Prod.mk.injEq] at hs
    obtain ⟨ha, rfl, -⟩ := hs
    exact right_write hr ha

/-! ### The runs -/

/-- What `rt_system_heap_init` makes: one free block in an aligned region. -/
structure Initial (lowest : Prop) (h : Heap) : Prop where
  inv : h.Inv lowest [⟨h.memSizeAligned.toNat + 12, false⟩]
  base : 4 ∣ h.heapPtr.toNat
  size : 4 ∣ h.memSizeAligned.toNat
  stats : h.usedMem = 0 ∧ h.maxMem = 0

theorem initial_init {ram : ℕ → UInt8} {beginAddr endAddr : UInt32}
    (hs : Heap.rtSystemHeapInit ram beginAddr endAddr = some h) : Initial lowest h := by
  have hsize : sizeofStructMem.toNat = 12 := rfl
  have hsize2 : (2 * sizeofStructMem).toNat = 24 := rfl
  rw [Heap.rtSystemHeapInit] at hs
  obtain ⟨b, hb⟩ : ∃ b, b = rtAlign beginAddr := ⟨_, rfl⟩
  obtain ⟨e, he⟩ : ∃ e, e = rtAlignDown endAddr := ⟨_, rfl⟩
  rw [← hb, ← he] at hs
  simp only [ite_none_right_eq_some, some.injEq, gt_iff_lt, ge_iff_le,
    lt_iff_toNat_lt, UInt32.le_iff_toNat_le, hsize2] at hs
  obtain ⟨⟨hlt, hle⟩, hs⟩ := hs
  -- the sizes do not wrap around
  have helt := e.toNat_lt
  have hsub : (e - 2 * sizeofStructMem).toNat = e.toNat - 24 := by
    rw [toNat_sub, hsize2]
    omega
  rw [hsub] at hle
  obtain ⟨msa, hmsa⟩ : ∃ msa, msa = e - b - 2 * sizeofStructMem := ⟨_, rfl⟩
  have hmsa' : b.toNat + msa.toNat + 24 = e.toNat := by
    rw [hmsa, toNat_sub, toNat_sub, hsize2]
    omega
  rw [← hmsa] at hs
  have hnext : (msa + sizeofStructMem).toNat = msa.toNat + 12 := by
    rw [toNat_add, hsize]
    omega
  obtain ⟨hend, hhend⟩ : ∃ hend, hend = b + (msa + sizeofStructMem) := ⟨_, rfl⟩
  have hend' : hend.toNat = b.toNat + (msa.toNat + 12) := by
    rw [hhend, toNat_add, hnext]
    omega
  rw [← hhend] at hs
  obtain ⟨h₀, hh₀⟩ : ∃ h₀ : Heap, h₀ = ⟨ram, b, hend, b, msa, 0, 0⟩ := ⟨_, rfl⟩
  rw [← hh₀] at hs
  obtain ⟨h₁, hh₁⟩ : ∃ h₁, h₁ = h₀.create b 0 (msa + sizeofStructMem) 0 := ⟨_, rfl⟩
  rw [← hh₁] at hs
  have hstats : h.usedMem = 0 ∧ h.maxMem = 0 := by
    rw [← hs, hh₁, hh₀]
    exact ⟨rfl, rfl⟩
  have hframe : h.heapPtr = b ∧ h.heapEnd = hend ∧ h.lfree = b ∧ h.memSizeAligned = msa := by
    rw [← hs, hh₁, hh₀]
    exact ⟨rfl, rfl, rfl, rfl⟩
  obtain ⟨hptr, hheapEnd, hlfree, hmemSize⟩ := hframe
  -- the free block, and the end of the heap
  have hd : Header h₁.ram b.toNat false (msa.toNat + 12) 0 := by
    rw [← hnext, hh₁]
    exact Heap.header_create (u := false) (v := 0) h₀ b rfl _ 0
  have hd' : Header h.ram hend.toNat true (msa.toNat + 12) (msa.toNat + 12) := by
    rw [← hnext, ← hs]
    exact Heap.header_create (u := true) (v := 1) h₁ hend rfl _ _
  have hbmod : b.toNat % 4 = 0 := hb ▸ rtAlign_mod beginAddr
  have hemod : e.toNat % 4 = 0 := by
    rw [he, toNat_rtAlignDown]
    omega
  refine ⟨?_, Nat.dvd_of_mod_eq_zero (hptr ▸ hbmod), ?_, hstats⟩
  rotate_left
  · rw [hmemSize]
    omega
  rw [hmemSize]
  refine ⟨⟨?_, ?_, ?_, ?_, ?_, ?_, ?_⟩, isChain_singleton _, 0, ?_,
    .inl (by simp [offsets]), fun _ y _ => Nat.zero_le y⟩
  · simp
  · simp [hmemSize]
  · simp [hheapEnd, hptr, hend']
  · simp [hptr]
    omega
  · refine ⟨?_, trivial⟩
    rw [hptr, Nat.add_zero, Nat.zero_add]
    apply hd.congr
    intro x hle hlt
    rw [← hs]
    exact Heap.ram_create (by omega) _ _ _
  · rw [hptr, total_cons, total_nil, Nat.add_zero, ← hend']
    exact hd'.used
  · rw [hptr, total_cons, total_nil, Nat.add_zero, ← hend']
    exact hd'.next
  · rw [hlfree, hptr, Nat.add_zero]

theorem live_init {n : ℕ} : Live h [⟨n, false⟩] [] where
  nodup := nodup_nil
  mem := fun a => by simp [offsets]

theorem right_init {ram : ℕ → UInt8} {beginAddr endAddr : UInt32}
    (hs : Heap.rtSystemHeapInit ram beginAddr endAddr = some h) : Right lowest h h [] :=
  ⟨_, (initial_init hs).inv, live_init, .refl h⟩

/-- **The invariant holds in every run** that does not wrap around in `rt_calloc`; `lfree` is the
lowest free block if, besides, every split in place lies behind a free block. -/
theorem run_right {ram : ℕ → UInt8} {beginAddr endAddr : UInt32} {returned : List UInt32}
    {C : HeapRun → HeapAction → Prop} (hinit : Heap.rtSystemHeapInit ram beginAddr endAddr = some h)
    (hC : ∀ s a, C s a → s.CallocFits a ∧ (lowest → s.SplitsAbove a))
    (hrun : Run (step fuel) C ⟨h, []⟩ returned s) : Right lowest h s.heap s.live :=
  hrun.invariant (fun _ s => Right lowest h s.heap s.live) (right_init hinit)
    fun hr hc hs => right_step hr (hC _ _ hc).1 (hC _ _ hc).2 hs

end HeapRun

end RtThread
