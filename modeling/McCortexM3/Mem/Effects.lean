import McCortexM3.Mem.Search

/-!
# The calls and the used blocks

The used blocks, each with its offset and its length, are what the threads know of the heap.  A call
adds one of them, removes one or shortens one, and leaves the contents of the others alone.

## Main definitions

* `Heap.Solid` — the blocks are aligned, and the used ones have room.
* `Heap.SamePayloads` — the contents of the blocks have not been written.
* `HeapRun.Holds` — the invariant, with the lengths of the used blocks counted.

## Main results

* `Holds.malloc`, `Holds.free`, `Holds.split`, `Holds.write` — the calls.
* `Holds.malloc_total` — `rt_malloc` returns.
-/

set_option linter.all false

namespace RtThread

open Option List Nat ByteMemory Tiling
open UInt32 (lt_iff_toNat_lt toNat_add toNat_inj toNat_ofNat' toNat_sub)

namespace Heap

/-- The heap and its blocks are aligned, and the used blocks have room for some bytes. -/
structure Solid (h : Heap) (bs : List Block) : Prop where
  base : 4 ∣ h.heapPtr.toNat
  len : ∀ b ∈ bs, 4 ∣ b.len
  room : ∀ b ∈ bs, b.used = true → 16 ≤ b.len

/-- The contents of the used blocks `bs` have not been written. -/
def SamePayloads (h h' : Heap) (bs : List Block) : Prop :=
  ∀ y n, (y, n) ∈ usedRuns 0 bs → ∀ x, h.heapPtr.toNat + y + 12 ≤ x →
    x < h.heapPtr.toNat + y + n → h'.ram x = h.ram x

/-- The size of the payload of a block, as `rt_realloc` computes it. -/
def blockSize (h : Heap) (rmem : UInt32) : UInt32 :=
  h.next (rmem - sizeofStructMem) - (rmem - sizeofStructMem - h.heapPtr) - sizeofStructMem

variable {h h' : Heap} {bs bs' cs l r : List Block} {x m n k : ℕ} {size : UInt32}

theorem HeaderWrites.samePayloads (hw : HeaderWrites h h' cs)
    (hsub : ∀ z ∈ usedRuns 0 bs, z ∈ usedRuns 0 cs) : SamePayloads h h' bs :=
  fun _ _ hy _ hle hlt => hw.contents (hsub _ hy) hle hlt

theorem total_dvd {k : ℕ} (h : ∀ b ∈ bs, k ∣ b.len) : k ∣ total bs := by
  induction bs with
  | nil => exact Nat.dvd_zero k
  | cons b bs ih =>
    exact Nat.dvd_add (h b mem_cons_self) (ih fun c hc => h c (mem_cons_of_mem b hc))

theorem forall_mem_middle (P : Block → Prop) (mid mid' : List Block)
    (h : ∀ b ∈ l ++ (mid ++ r), P b) (hmid : ∀ b ∈ mid', P b) : ∀ b ∈ l ++ (mid' ++ r), P b := by
  intro b hb
  simp only [mem_append] at h hb
  rcases hb with hb | hb | hb
  · exact h b (.inl hb)
  · exact hmid b hb
  · exact h b (.inr (.inr hb))

/-! ### Lists of blocks -/

section

variable (hw : Takes h h' bs bs' x k m)
include hw

theorem Takes.mem_usedRuns {y j : ℕ} :
    (y, j) ∈ usedRuns 0 bs' ↔ (y, j) ∈ usedRuns 0 bs ∨ y = x ∧ j = m := by
  obtain ⟨l, n, r, t, rfl, rfl, rfl, hmt, ht⟩ := hw.blocks
  refine mem_usedRuns_take ?_ hmt
  rcases ht with rfl | ⟨-, i, rfl⟩
  · rfl
  · rfl

theorem Takes.usedTotal_eq : usedTotal bs' = usedTotal bs + m := by
  obtain ⟨l, n, r, t, rfl, rfl, rfl, hmt, ht⟩ := hw.blocks
  have hnil : usedTotal t = 0 := by
    rcases ht with rfl | ⟨-, i, rfl⟩
    · rfl
    · rfl
  simp only [usedTotal_append, usedTotal, hnil, if_pos, Bool.false_eq_true, if_false]
  omega

theorem Takes.solid (hs : Solid h bs) (hptr : h'.heapPtr = h.heapPtr) (hk : 4 ∣ k)
    (hk12 : 12 ≤ k) : Solid h' bs' := by
  obtain ⟨l, n, r, t, rfl, rfl, rfl, hmt, ht⟩ := hw.blocks
  have hn : 4 ∣ n := hs.len ⟨n, false⟩ (by simp)
  have hroom := hw.room
  have hlen : ∀ b ∈ ⟨m, true⟩ :: t, 4 ∣ b.len := by
    intro b hb
    rcases ht with rfl | ⟨rfl, i, rfl⟩
    · cases mem_singleton.1 hb
      rw [total_nil, Nat.add_zero] at hmt
      exact hmt ▸ hn
    · simp only [total_cons, total_nil, Nat.add_zero] at hmt
      rcases mem_cons.1 hb with rfl | hb
      · simp only
        omega
      · cases mem_singleton.1 hb
        simp only
        omega
  refine ⟨hptr ▸ hs.base, ?_, ?_⟩
  · exact forall_mem_middle (4 ∣ ·.len) [⟨n, false⟩] (⟨m, true⟩ :: t) hs.len hlen
  · refine forall_mem_middle (fun b => b.used = true → 16 ≤ b.len) [⟨n, false⟩] (⟨m, true⟩ :: t)
      hs.room fun b hb hused => ?_
    rcases mem_cons.1 hb with rfl | hb
    · exact Nat.le_trans (by omega) hroom
    · rcases ht with rfl | ⟨-, i, rfl⟩
      · cases hb
      · cases mem_singleton.1 hb
        cases hused

end

section

variable (hw : Frees h h' bs bs' x n)
include hw

theorem Frees.mem_usedRuns (hlen : ∀ b ∈ bs, 0 < b.len) {y j : ℕ} :
    (y, j) ∈ usedRuns 0 bs' ↔ (y, j) ∈ usedRuns 0 bs ∧ y ≠ x := by
  obtain ⟨l, r, rfl, rfl, hcomb⟩ := hw.blocks
  rw [hcomb.usedRuns_eq]
  exact mem_usedRuns_unmark (fun b hb => hlen b (by simp [hb])) (hlen ⟨n, true⟩ (by simp))

theorem Frees.usedTotal_eq : usedTotal bs = usedTotal bs' + n := by
  obtain ⟨l, r, rfl, rfl, hcomb⟩ := hw.blocks
  rw [hcomb.usedTotal_eq]
  simp [usedTotal]
  omega

theorem Frees.solid (hs : Solid h bs) (hptr : h'.heapPtr = h.heapPtr) : Solid h' bs' := by
  obtain ⟨l, r, rfl, rfl, hcomb⟩ := hw.blocks
  have hn : 4 ∣ n := hs.len ⟨n, true⟩ (by simp)
  refine ⟨hptr ▸ hs.base, hcomb.dvd_len ?_, fun b hb hused => ?_⟩
  · refine forall_mem_middle (4 ∣ ·.len) [⟨n, true⟩] [⟨n, false⟩] hs.len fun b hb => ?_
    cases mem_singleton.1 hb
    exact hn
  · have hold := hcomb.used_subset hb hused
    rw [mem_append, mem_cons] at hold
    rcases hold with hold | rfl | hold
    · exact hs.room b (by simp [hold]) hused
    · cases hused
    · exact hs.room b (by simp [hold]) hused

end

theorem Solid.split (hs : Solid h (l ++ ⟨m + k, true⟩ :: r)) (hptr : h'.heapPtr = h.heapPtr)
    (hm : 4 ∣ m) (hm16 : 16 ≤ m)
    (hcomb : Combines (l ++ ⟨m, true⟩ :: ⟨k, false⟩ :: r) bs') : Solid h' bs' := by
  have hmk : 4 ∣ m + k := hs.len ⟨m + k, true⟩ (by simp)
  refine ⟨hptr ▸ hs.base, hcomb.dvd_len ?_, fun b hb hused => ?_⟩
  · refine forall_mem_middle (4 ∣ ·.len) [⟨m + k, true⟩] [⟨m, true⟩, ⟨k, false⟩] hs.len
      fun b hb => ?_
    rcases mem_cons.1 hb with rfl | hb
    · exact hm
    · cases mem_singleton.1 hb
      exact (Nat.dvd_add_right hm).1 hmk
  · have hold := hcomb.used_subset hb hused
    rw [mem_append, mem_cons, mem_cons] at hold
    rcases hold with hold | rfl | rfl | hold
    · exact hs.room b (by simp [hold]) hused
    · exact hm16
    · cases hused
    · exact hs.room b (by simp [hold]) hused

theorem roundSize_dvd (size : UInt32) : 4 ∣ (roundSize size).toNat := by
  rcases roundSize_cases size with heq | heq
  · rw [heq]
    exact dvd_of_mod_eq_zero (rtAlign_mod size)
  · rw [heq]
    decide

end Heap

namespace HeapRun

open Heap

/-- The invariant of a run that has begun with the heap `h₀`: the used blocks `bs` of the heap are
those of the live pointers, and `used_mem` is their length. -/
structure Holds (h₀ h : Heap) (bs : List Block) (live : List UInt32) : Prop where
  inv : h.Inv False bs
  pointers : Live h bs live
  frame : h₀.SameFrame h
  solid : h.Solid bs
  usedMem : h.usedMem.toNat = usedTotal bs
  large : live ≠ [] → 12 ≤ h.memSizeAligned.toNat

/-- A block of the length `m` at `x` has been added, whose pointer is `p`. -/
structure Adds (h h' : Heap) (bs bs' : List Block) (p : UInt32) (x m : ℕ) : Prop where
  offset : p.toNat = h.heapPtr.toNat + x + 12
  runs : ∀ {y n}, (y, n) ∈ usedRuns 0 bs' ↔ (y, n) ∈ usedRuns 0 bs ∨ y = x ∧ n = m
  payloads : SamePayloads h h' bs'
  accounts : UsedMore h h' m

/-- The block of the pointer `p` has been removed. -/
structure Removes (h h' : Heap) (bs bs' : List Block) (p : UInt32) (x : ℕ) : Prop where
  offset : p.toNat = h.heapPtr.toNat + x + 12
  runs : ∀ {y n}, (y, n) ∈ usedRuns 0 bs' ↔ (y, n) ∈ usedRuns 0 bs ∧ y ≠ x
  payloads : SamePayloads h h' bs'
  less : h'.usedMem.toNat ≤ h.usedMem.toNat
  maxMem : h'.maxMem = h.maxMem

/-- The block of the pointer `p` has the length `m` now. -/
structure Shortens (h h' : Heap) (bs bs' : List Block) (p : UInt32) (x m : ℕ) : Prop where
  offset : p.toNat = h.heapPtr.toNat + x + 12
  runs : ∀ {y n}, (y, n) ∈ usedRuns 0 bs' ↔ y = x ∧ n = m ∨ (y, n) ∈ usedRuns 0 bs ∧ y ≠ x
  payloads : SamePayloads h h' bs'
  less : h'.usedMem.toNat ≤ h.usedMem.toNat
  maxMem : h'.maxMem = h.maxMem

variable {h₀ h h' : Heap} {bs bs' l r : List Block} {live : List UInt32} {p rmem size : UInt32}
variable {x m n fuel : ℕ}

section

variable (hh : Holds h₀ h bs live)
include hh

theorem Holds.len_pos : ∀ b ∈ bs, 0 < b.len :=
  fun b hb => Nat.lt_of_lt_of_le (by decide) (hh.inv.rep.len b hb)

theorem Holds.total_lt : h.heapPtr.toNat + total bs + 12 < 2 ^ 32 :=
  hh.inv.rep.bound

theorem Holds.block (hp : p ∈ live) :
    ∃ l n r, bs = l ++ ⟨n, true⟩ :: r ∧ p.toNat = h.heapPtr.toNat + total l + 12 ∧ 16 ≤ n ∧
      4 ∣ p.toNat := by
  obtain ⟨l, n, r, rfl, hoffset, -⟩ := hh.pointers.block hh.inv hp
  refine ⟨l, n, r, rfl, hoffset, hh.solid.room ⟨n, true⟩ (by simp) rfl, ?_⟩
  have hl : 4 ∣ total l := total_dvd fun b hb => hh.solid.len b (by simp [hb])
  rw [hoffset]
  exact Nat.dvd_add (Nat.dvd_add hh.solid.base hl) (by decide)

/-- **`rt_malloc`** adds a block, or returns `RT_NULL`. -/
theorem Holds.malloc (hs : h.rtMalloc fuel size = some (h', p)) :
    p = 0 ∧ h' = h ∨ ∃ bs' x m, Holds h₀ h' bs' (p :: live) ∧ Adds h h' bs bs' p x m ∧
      (roundSize size).toNat + 12 ≤ m := by
  have hbound := hh.total_lt
  rcases hh.inv.rtMalloc hs with hnull | ⟨x, bs', m, hp, ha, ht⟩
  · exact .inl hnull
  · have hlive := hh.pointers.alloc ha hp
    have htotal := ht.usedTotal_eq
    have hle := usedTotal_le_total bs'
    have hround := le_roundSize size
    have hbound' := ha.inv.rep.bound
    have hadd : h'.usedMem.toNat = usedTotal bs' := by
      rw [ht.accounts.1, toNat_add, toNat_ofNat', hh.usedMem, htotal]
      omega
    have hlarge : 12 ≤ h'.memSizeAligned.toNat := by
      have hfinds := (hh.inv.rtMalloc_ne_zero_iff hs).1 (hlive.ne_zero mem_cons_self)
      obtain ⟨ptr, hptr⟩ := hfinds.2
      have hin := hh.inv.rep.freeBlock_le hptr.block
      rw [ha.frame.memSizeAligned]
      omega
    refine .inr ⟨bs', x, m, ⟨ha.inv, hlive, hh.frame.trans ha.frame,
      ht.solid hh.solid ha.frame.heapPtr (roundSize_dvd size) hround.2, hadd, fun _ => hlarge⟩,
      ⟨hp, ht.mem_usedRuns, ht.writes.samePayloads fun _ hz => hz, ht.accounts⟩, ht.room⟩

/-- **`rt_free`** removes the block. -/
theorem Holds.free (hp : rmem ∈ live) :
    ∃ h' bs' x, h.rtFree rmem = some h' ∧ Holds h₀ h' bs' (live.erase rmem) ∧
      Removes h h' bs bs' rmem x := by
  obtain ⟨l, n, r, rfl, hoffset, hn, hdvd⟩ := hh.block hp
  have hend := hh.inv.rep.heapEnd
  simp only [total_append, total_cons] at hend
  have halign : rmem &&& (4 - 1) = 0 := by
    have hmod : rmem.toNat &&& (4 - 1) = rmem.toNat % 2 ^ 2 := and_two_pow_sub_one_eq_mod _ 2
    apply toNat_inj.1
    rw [UInt32.toNat_and]
    exact hmod.trans (mod_eq_zero_of_dvd hdvd)
  have hassert : rmem &&& (4 - 1) = 0 ∧ rmem ≥ h.heapPtr ∧ rmem < h.heapEnd := by
    refine ⟨halign, ?_, ?_⟩
    · rw [ge_iff_le, UInt32.le_iff_toNat_le]
      omega
    · rw [lt_iff_toNat_lt]
      omega
  obtain ⟨h', bs', hs, hfreed, hfrees⟩ := hh.inv.rtFree_spec hoffset hassert
  have htotal := hfrees.usedTotal_eq
  have hle := usedTotal_le_total (l ++ ⟨n, true⟩ :: r)
  have hbound := hh.total_lt
  have hsub : h'.usedMem.toNat = usedTotal bs' := by
    rw [hfrees.usedMem, toNat_sub, toNat_ofNat', hh.usedMem]
    omega
  refine ⟨h', bs', total l, hs, ⟨hfreed.inv, hh.pointers.free hfreed hoffset,
    hh.frame.trans hfreed.frame, hfrees.solid hh.solid hfreed.frame.heapPtr, hsub, fun hne => ?_⟩,
    ⟨hoffset, hfrees.mem_usedRuns hh.len_pos, hfrees.writes.samePayloads fun _ hz => ?_, ?_,
      hfrees.maxMem⟩⟩
  · rw [hfreed.frame.memSizeAligned]
    exact hh.large (ne_nil_of_mem hp)
  · exact ((hfrees.mem_usedRuns hh.len_pos).1 hz).1
  · rw [hsub, hh.usedMem]
    omega

/-- **The split in place** shortens the block. -/
theorem Holds.split {ptr old newsize : UInt32} (hp : rmem ∈ live)
    (hptr : ptr = rmem - sizeofStructMem - h.heapPtr)
    (hold : old = h.next (rmem - sizeofStructMem) - ptr - sizeofStructMem)
    (hle : newsize.toNat ≤ h.memSizeAligned.toNat) (hdvd : 4 ∣ newsize.toNat) (hne : newsize ≠ 0)
    (hlt : newsize + sizeofStructMem + minSize < old) :
    ∃ h' bs' x, h.reallocSplit ptr old newsize = some h' ∧ Holds h₀ h' bs' live ∧
      Shortens h h' bs bs' rmem x (newsize.toNat + 12) := by
  have hsize : sizeofStructMem.toNat = 12 := rfl
  have hmin : minSize.toNat = 12 := rfl
  obtain ⟨l, n, r, rfl, hoffset, hmem, hptr', hnext, hn⟩ := hh.pointers.block hh.inv hp
  rw [← hptr] at hptr'
  have hbound := hh.total_lt
  have htotal := hh.inv.rep.total_eq
  have hpos : 0 < newsize.toNat := Nat.pos_of_ne_zero fun h => hne (toNat_inj.1 h)
  have hold' : old.toNat = n - 12 := by
    simp only [total_append, total_cons] at hbound
    rw [hold, toNat_sub, toNat_sub, hnext, hptr', hsize]
    omega
  have hfar : newsize.toNat + 36 < n := by
    rw [lt_iff_toNat_lt, hold', toNat_add, toNat_add, hsize, hmin] at hlt
    omega
  obtain ⟨h', bs', k, hs, rfl, hplugged, hcomb, hwrites, husedMem, hmaxMem⟩ :=
    hh.inv.reallocSplit old hptr' hfar nofun
  have hcut : ∀ {y j}, (y, j) ∈ usedRuns 0 bs' ↔ y = total l ∧ j = newsize.toNat + 12 ∨
      (y, j) ∈ usedRuns 0 (l ++ ⟨newsize.toNat + 12 + k, true⟩ :: r) ∧ y ≠ total l := by
    intro y j
    rw [hcomb.usedRuns_eq]
    exact mem_usedRuns_cut (fun b hb => hh.len_pos b (by simp [hb])) (by omega)
  have htotal' : usedTotal (l ++ ⟨newsize.toNat + 12 + k, true⟩ :: r) = usedTotal bs' + k := by
    rw [hcomb.usedTotal_eq]
    simp [usedTotal]
    omega
  have hle' := usedTotal_le_total (l ++ ⟨newsize.toNat + 12 + k, true⟩ :: r)
  have hsub : h'.usedMem.toNat = usedTotal bs' := by
    rw [husedMem, toNat_sub, toNat_sub, hold', hh.usedMem]
    omega
  refine ⟨h', bs', total l, hs, ⟨hplugged.inv, hh.pointers.congr hplugged.frame hplugged.used,
    hh.frame.trans hplugged.frame, hh.solid.split hplugged.frame.heapPtr (by omega) (by omega)
    hcomb, hsub, fun hne => ?_⟩, ⟨hoffset, hcut, hwrites.samePayloads fun _ hz => ?_, ?_, hmaxMem⟩⟩
  · rw [hplugged.frame.memSizeAligned]
    exact hh.large hne
  · rwa [← hcomb.usedRuns_eq]
  · rw [hsub, hh.usedMem]
    omega

theorem Holds.write (hbs : bs = l ++ ⟨n, true⟩ :: r)
    (hf : h.SameFrame h') (hsame : h'.lfree = h.lfree ∧ h'.usedMem = h.usedMem)
    (hram : ∀ x, x < h.heapPtr.toNat + total l + 12 ∨ h.heapPtr.toNat + total l + n ≤ x →
      h'.ram x = h.ram x) : Holds h₀ h' bs live := by
  refine ⟨hh.inv.writeBlock hbs hf hsame.1 hram, hh.pointers.congr hf rfl, hh.frame.trans hf,
    ⟨hf.heapPtr ▸ hh.solid.base, hh.solid.len, hh.solid.room⟩, ?_, ?_⟩
  · rw [hsame.2]
    exact hh.usedMem
  · rw [hf.memSizeAligned]
    exact hh.large

theorem Holds.toNat_blockSize (hx : (x, n) ∈ usedRuns 0 bs)
    (hoffset : p.toNat = h.heapPtr.toNat + x + 12) : (h.blockSize p).toNat = n - 12 := by
  have hsize : sizeofStructMem.toNat = 12 := rfl
  have hbound := hh.total_lt
  obtain ⟨l, r, rfl, hxl⟩ := mem_usedRuns.1 hx
  rw [Nat.zero_add] at hxl
  subst hxl
  have hn := hh.solid.room ⟨n, true⟩ (by simp) rfl
  simp only [total_append, total_cons] at hbound hn
  have hmem : (p - sizeofStructMem).toNat = h.heapPtr.toNat + total l := by
    rw [toNat_sub, hsize]
    omega
  have hnext := next_eq (hh.inv.rep.header hmem)
  simp only at hnext
  rw [blockSize, toNat_sub, toNat_sub, toNat_sub, hnext, hmem, hsize]
  omega

theorem Holds.realloc_cases {newsize : UInt32} (hp : rmem ∈ live)
    (hs : h.rtRealloc fuel rmem newsize = some (h', p)) :
    p = 0 ∧ h' = h ∧ rtAlign newsize ≠ 0 ∨
    p = 0 ∧ rtAlign newsize = 0 ∧ h.rtFree rmem = some h' ∨
    p = rmem ∧ h' = h ∧ h.blockSize rmem = rtAlign newsize ∨
    p = rmem ∧ rtAlign newsize ≠ 0 ∧ (rtAlign newsize).toNat ≤ h.memSizeAligned.toNat ∧
      rtAlign newsize + sizeofStructMem + minSize < h.blockSize rmem ∧
      h.reallocSplit (rmem - sizeofStructMem - h.heapPtr) (h.blockSize rmem) (rtAlign newsize) =
        some h' ∨
    p ≠ 0 ∧ ∃ h₁ n, h.rtMalloc fuel (rtAlign newsize) = some (h₁, p) ∧
      n = (if h.blockSize rmem < rtAlign newsize then h.blockSize rmem else rtAlign newsize).toNat ∧
      { h₁ with ram := copy h₁.ram p.toNat rmem.toNat n }.rtFree rmem = some h' := by
  obtain ⟨l, n, r, rfl, hoffset, hn, -⟩ := hh.block hp
  have hend := hh.inv.rep.heapEnd
  simp only [total_append, total_cons] at hend
  have hinside : ¬ (rmem < h.heapPtr ∨ rmem ≥ h.heapEnd) := by
    rw [lt_iff_toNat_lt, ge_iff_le, UInt32.le_iff_toNat_le]
    omega
  by_cases hgt : rtAlign newsize > h.memSizeAligned
  · rw [Heap.rtRealloc_large fuel rmem hgt] at hs
    cases hs
    refine .inl ⟨rfl, rfl, fun hzero => ?_⟩
    rw [hzero, gt_iff_lt, lt_iff_toNat_lt] at hgt
    exact absurd hgt (Nat.not_lt_zero _)
  have hle : (rtAlign newsize).toNat ≤ h.memSizeAligned.toNat := by
    rwa [gt_iff_lt, lt_iff_toNat_lt, Nat.not_lt] at hgt
  by_cases hzero : rtAlign newsize = 0
  · rw [Heap.rtRealloc_zero hgt fuel rmem hzero] at hs
    obtain ⟨h₁, hh₁, hs⟩ := map_eq_some_iff.1 hs
    cases hs
    exact .inr (.inl ⟨rfl, hzero, hh₁⟩)
  rw [Heap.rtRealloc_block hgt fuel hzero (hh.pointers.ne_zero hp) (rfl : h.blockSize rmem = _),
    if_neg hinside] at hs
  generalize h.blockSize rmem = n at hs ⊢
  split at hs
  case isTrue hsame =>
    cases hs
    exact .inr (.inr (.inl ⟨rfl, rfl, hsame⟩))
  case isFalse =>
    split at hs
    case isTrue hlt =>
      obtain ⟨h₁, hh₁, hs⟩ := map_eq_some_iff.1 hs
      cases hs
      exact .inr (.inr (.inr (.inl ⟨rfl, hzero, hle, hlt, hh₁⟩)))
    case isFalse =>
      obtain ⟨⟨h₁, nmem⟩, hh₁, hs⟩ := bind_eq_some_iff.1 hs
      dsimp only at hs
      split at hs
      case isTrue hne =>
        obtain ⟨h₂, hh₂, hs⟩ := map_eq_some_iff.1 hs
        cases hs
        exact .inr (.inr (.inr (.inr ⟨hne, h₁, _, hh₁, rfl, hh₂⟩)))
      case isFalse hnull =>
        cases hs
        rcases hh.malloc hh₁ with ⟨-, rfl⟩ | ⟨bs', x, m, hh', -⟩
        · exact .inl ⟨rfl, rfl, hzero⟩
        · exact absurd (hh'.pointers.ne_zero mem_cons_self) hnull

theorem Holds.exists_run (hp : p ∈ live) :
    ∃ x n, (x, n) ∈ usedRuns 0 bs ∧ p.toNat = h.heapPtr.toNat + x + 12 ∧ 16 ≤ n := by
  obtain ⟨l, n, r, rfl, hoffset, hn, -⟩ := hh.block hp
  exact ⟨total l, n, mem_usedRuns.2 ⟨l, r, rfl, (Nat.zero_add _).symm⟩, hoffset, hn⟩

theorem Holds.perm {live' : List UInt32} (hp : live.Perm live') : Holds h₀ h bs live' := by
  refine { hh with
    pointers := ⟨hp.nodup_iff.1 hh.pointers.nodup, fun a => ?_⟩
    large := fun hne => hh.large fun hnil => hne (perm_nil.1 (hnil ▸ hp.symm)) }
  rw [← hp.mem_iff, hh.pointers.mem]

end

theorem offset_ne {q : UInt32} {y : ℕ} (hne : q ≠ rmem) (hq : q.toNat = h.heapPtr.toNat + y + 12)
    (hrmem : rmem.toNat = h.heapPtr.toNat + x + 12) : y ≠ x := by
  rintro rfl
  exact hne (toNat_inj.1 (hq.trans hrmem.symm))

theorem Holds.writeRun (hh : Holds h₀ h bs live) (hx : (x, n) ∈ usedRuns 0 bs)
    (hf : h.SameFrame h') (hsame : h'.lfree = h.lfree ∧ h'.usedMem = h.usedMem)
    (hram : ∀ y, y < h.heapPtr.toNat + x + 12 ∨ h.heapPtr.toNat + x + n ≤ y →
      h'.ram y = h.ram y) : Holds h₀ h' bs live := by
  obtain ⟨l, r, hbs, hxl⟩ := mem_usedRuns.1 hx
  rw [Nat.zero_add] at hxl
  subst hxl
  exact hh.write hbs hf hsame hram

theorem Adds.room (hm : (roundSize size).toNat + 12 ≤ m) (hfits : size.toNat + 3 < 2 ^ 32) :
    size.toNat + 12 ≤ m := by
  have hle := (le_roundSize size).1
  have hle' := le_toNat_rtAlign hfits
  omega

theorem rtAlign_fits (size : UInt32) : (rtAlign size).toNat + 3 < 2 ^ 32 := by
  have hmod := rtAlign_mod size
  have hlt := (rtAlign size).toNat_lt
  omega

/-- The bytes are copied into the new block, and **the old one is freed**. -/
theorem Holds.move {h₁ : Heap} {bs₁ : List Block} {count : ℕ} (hh₁ : Holds h₀ h₁ bs₁ (p :: live))
    (ha : Adds h h₁ bs bs₁ p x m) (hp : rmem ∈ live) (hptr : h₁.heapPtr = h.heapPtr)
    (hcount : count + 12 ≤ m) :
    ∃ h₂ h₃ bs₃ y, h₂ = { h₁ with ram := copy h₁.ram p.toNat rmem.toNat count } ∧
      h₂.rtFree rmem = some h₃ ∧ Holds h₀ h₃ bs₃ (p :: live.erase rmem) ∧
      Removes h₂ h₃ bs₁ bs₃ rmem y := by
  have hx : (x, m) ∈ usedRuns 0 bs₁ := ha.runs.2 (.inr ⟨rfl, rfl⟩)
  have hoffset := ha.offset
  rw [← hptr] at hoffset
  have hcopied : Holds h₀ { h₁ with ram := copy h₁.ram p.toNat rmem.toNat count } bs₁ (p :: live) :=
    hh₁.writeRun hx ⟨rfl, rfl, rfl⟩ ⟨rfl, rfl⟩ fun y hy => copy_of_outside (by omega)
  obtain ⟨h₃, bs₃, y, hs, hh₃, hremoves⟩ := hcopied.free (mem_cons_of_mem p hp)
  have hne : p ≠ rmem := by
    rintro rfl
    exact (nodup_cons.1 hh₁.pointers.nodup).1 hp
  rw [erase_cons_tail (by simpa using hne)] at hh₃
  exact ⟨_, h₃, bs₃, y, rfl, hs, hh₃, hremoves⟩

section

variable (hh : Holds h₀ h bs live)
include hh

theorem Holds.zero_not_mem : (0 : UInt32) ∉ live :=
  fun hmem => hh.pointers.ne_zero hmem rfl

theorem Holds.handOut (hs : h.rtMalloc fuel size = some (h', p)) :
    ∃ bs', Holds h₀ h' bs' (HeapRun.handOut p live) := by
  rcases hh.malloc hs with ⟨rfl, rfl⟩ | ⟨bs', x, m, hh', -, -⟩
  · exact ⟨bs, hh⟩
  · rw [HeapRun.handOut, if_neg (hh'.pointers.ne_zero mem_cons_self)]
    exact ⟨bs', hh'⟩

theorem Holds.handOver {newsize : UInt32} (hp : rmem ∈ live)
    (hs : h.rtRealloc fuel rmem newsize = some (h', p)) :
    ∃ bs', Holds h₀ h' bs' (HeapRun.handOver rmem newsize p live) := by
  have hnull := hh.pointers.ne_zero hp
  have hself : ∀ {h'' : Heap} {bs'' : List Block}, Holds h₀ h'' bs'' live →
      Holds h₀ h'' bs'' (rmem :: live.erase rmem) := fun hh'' => hh''.perm (perm_cons_erase hp)
  rcases hh.realloc_cases hp hs with ⟨rfl, rfl, hzero⟩ | ⟨rfl, hzero, hfree⟩ | ⟨rfl, rfl, -⟩ |
    ⟨rfl, hzero, hle, hlt, hsplit⟩ | ⟨hne, h₁, n, hmalloc, hn, hfree⟩
  · rw [HeapRun.handOver, if_neg (not_not.2 rfl), if_neg hzero]
    exact ⟨bs, hh⟩
  · obtain ⟨h₁, bs', -, hfree', hh', -⟩ := hh.free hp
    obtain rfl : h₁ = h' := some_inj.1 (hfree'.symm.trans hfree)
    rw [HeapRun.handOver, if_neg (not_not.2 rfl), if_pos hzero]
    exact ⟨bs', hh'⟩
  · rw [HeapRun.handOver, if_pos hnull]
    exact ⟨bs, hself hh⟩
  · obtain ⟨h₁, bs', -, hsplit', hh', -⟩ := hh.split hp rfl rfl hle
      (dvd_of_mod_eq_zero (rtAlign_mod newsize)) hzero hlt
    obtain rfl : h₁ = h' := some_inj.1 (hsplit'.symm.trans hsplit)
    rw [HeapRun.handOver, if_pos hnull]
    exact ⟨bs', hself hh'⟩
  · rcases hh.malloc hmalloc with ⟨heq, -⟩ | ⟨bs₁, x, m, hh₁, ha, hm⟩
    · exact absurd heq hne
    · have hroom := Adds.room hm (rtAlign_fits newsize)
      have hptr : h₁.heapPtr = h.heapPtr := hh₁.frame.heapPtr.trans hh.frame.heapPtr.symm
      have hcount : n ≤ (rtAlign newsize).toNat := by
        rw [hn]
        split
        case isTrue hlt => exact Nat.le_of_lt (lt_iff_toNat_lt.1 hlt)
        case isFalse => exact Nat.le_refl _
      have hfits : n + 12 ≤ m := by omega
      obtain ⟨h₂, h₃, bs₃, y, rfl, hfree', hh₃, -⟩ := hh₁.move ha hp hptr hfits
      obtain rfl : h₃ = h' := some_inj.1 (hfree'.symm.trans hfree)
      rw [HeapRun.handOver, if_pos hne]
      exact ⟨bs₃, hh₃⟩

theorem Holds.handOver_zero {newsize : UInt32} (hs : h.rtRealloc fuel 0 newsize = some (h', p)) :
    ∃ bs', Holds h₀ h' bs' (HeapRun.handOver 0 newsize p live) := by
  have hmalloc : rtAlign newsize ≠ 0 → ∀ {h'' : Heap} {bs'' : List Block},
      Holds h₀ h'' bs'' (HeapRun.handOut p live) →
      Holds h₀ h'' bs'' (HeapRun.handOver 0 newsize p live) := by
    intro hzero h'' bs'' hh''
    rw [HeapRun.handOut] at hh''
    rw [HeapRun.handOver, erase_of_not_mem hh.zero_not_mem, if_neg hzero]
    split
    case isTrue hne => rwa [if_neg hne] at hh''
    case isFalse heq => rwa [if_pos (not_not.1 heq)] at hh''
  by_cases hgt : rtAlign newsize > h.memSizeAligned
  · rw [Heap.rtRealloc_large fuel 0 hgt] at hs
    cases hs
    refine ⟨bs, hmalloc (fun hzero => ?_) hh⟩
    rw [hzero, gt_iff_lt, lt_iff_toNat_lt] at hgt
    exact absurd hgt (Nat.not_lt_zero _)
  by_cases hzero : rtAlign newsize = 0
  · rw [Heap.rtRealloc_zero hgt fuel 0 hzero, Heap.rtFree, if_pos rfl] at hs
    cases hs
    rw [HeapRun.handOver, if_neg (not_not.2 rfl), if_pos hzero, erase_of_not_mem hh.zero_not_mem]
    exact ⟨bs, hh⟩
  · rw [Heap.rtRealloc_null hgt fuel hzero] at hs
    obtain ⟨bs', hh'⟩ := hh.handOut hs
    exact ⟨bs', hmalloc hzero hh'⟩

end

variable {s s' : HeapRun}

theorem holds_step {a : HeapAction} {out : List UInt32} (hh : ∃ bs, Holds h₀ s.heap bs s.live)
    (hc : s.CallocFits a) (hs : s.step fuel a = some (s', out)) :
    ∃ bs', Holds h₀ s'.heap bs' s'.live := by
  obtain ⟨bs, hh⟩ := hh
  cases a with
  | malloc size =>
    obtain ⟨r, hr, hs⟩ := map_eq_some_iff.1 hs
    cases hs
    exact hh.handOut hr
  | realloc rmem newsize =>
    simp only [step, ite_none_right_eq_some] at hs
    obtain ⟨hp, hs⟩ := hs
    obtain ⟨r, hr, hs⟩ := map_eq_some_iff.1 hs
    cases hs
    rcases hp with rfl | hp
    · exact hh.handOver_zero hr
    · exact hh.handOver hp hr
  | calloc count size =>
    obtain ⟨r, hr, hs⟩ := map_eq_some_iff.1 hs
    cases hs
    obtain ⟨⟨h₁, p⟩, hh₁, rfl⟩ := map_eq_some_iff.1 hr
    rcases hh.malloc hh₁ with ⟨rfl, rfl⟩ | ⟨bs', x, m, hh', ha, hm⟩
    · exact ⟨bs, hh⟩
    · have hne := hh'.pointers.ne_zero mem_cons_self
      have hroom := Adds.room hm hc
      have hoffset := ha.offset
      rw [hh.frame.heapPtr.trans hh'.frame.heapPtr.symm] at hoffset
      dsimp only
      rw [if_pos hne]
      dsimp only
      rw [HeapRun.handOut, if_neg hne]
      exact ⟨bs', hh'.writeRun (ha.runs.2 (.inr ⟨rfl, rfl⟩)) ⟨rfl, rfl, rfl⟩ ⟨rfl, rfl⟩
        fun y hy => fill_of_outside (by omega)⟩
  | free rmem =>
    simp only [step, ite_none_right_eq_some] at hs
    obtain ⟨hp, hs⟩ := hs
    obtain ⟨h', hh', hs⟩ := map_eq_some_iff.1 hs
    cases hs
    rcases hp with rfl | hp
    · rw [Heap.rtFree, if_pos rfl] at hh'
      cases hh'
      rw [erase_of_not_mem hh.zero_not_mem]
      exact ⟨bs, hh⟩
    · obtain ⟨h₁, bs', -, hs', hh₁, -⟩ := hh.free hp
      obtain rfl : h₁ = h' := some_inj.1 (hs'.symm.trans hh')
      exact ⟨bs', hh₁⟩
  | write a b =>
    simp only [step, ite_none_right_eq_some, some.injEq, Prod.mk.injEq] at hs
    obtain ⟨⟨q, hq, hle, hlt⟩, rfl, -⟩ := hs
    obtain ⟨l, n, r, rfl, hoffset, -, -, hnext, -⟩ := hh.pointers.block hh.inv hq
    rw [hnext] at hlt
    exact ⟨_, hh.write rfl ⟨rfl, rfl, rfl⟩ ⟨rfl, rfl⟩ fun y hy =>
      Function.update_of_ne (by omega) _ _⟩

theorem holds_init {ram : ℕ → UInt8} {beginAddr endAddr : UInt32}
    (hs : Heap.rtSystemHeapInit ram beginAddr endAddr = some h) : ∃ bs, Holds h h bs [] := by
  have hi : Initial False h := initial_init hs
  refine ⟨_, hi.inv, live_init, .refl h, ⟨hi.base, fun b hb => ?_, fun b hb hused => ?_⟩, ?_,
    fun hne => absurd rfl hne⟩
  · cases mem_singleton.1 hb
    exact Nat.dvd_add hi.size (by decide)
  · cases mem_singleton.1 hb
    cases hused
  · rw [hi.stats.1]
    rfl

/-- **The invariant holds in every run** in which `RT_ALIGN` does not wrap around in `rt_calloc`. -/
theorem run_holds {ram : ℕ → UInt8} {beginAddr endAddr : UInt32} {returned : List UInt32}
    (hinit : Heap.rtSystemHeapInit ram beginAddr endAddr = some h)
    (hrun : Run (step fuel) CallocFits ⟨h, []⟩ returned s) : ∃ bs, Holds h s.heap bs s.live :=
  hrun.invariant (fun _ s => ∃ bs, Holds h s.heap bs s.live) (holds_init hinit)
    fun hh hc hs => holds_step hh hc hs

end HeapRun

end RtThread
