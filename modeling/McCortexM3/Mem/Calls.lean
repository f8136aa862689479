import McCortexM3.Mem.Blocks

/-!
# What the calls do to the blocks

Each function of `mem.c` turns a heap of blocks into a heap of blocks.  `rt_malloc` makes a free
block, or the first part of one, a used one; `rt_free` makes a used block free; the in-place
branch of `rt_realloc` splits a used block; and `plug_holes` combines a free block with the free
blocks beside it, so that no two free blocks stay neighbours.

## Main definitions

* `Heap.LfreeAt` — where `lfree` points to.
* `Heap.Inv` — the invariant of the heap.

## Main results

* `Heap.Rep.plugHoles`, `Heap.Inv.rtFree`, `Heap.Inv.rtMalloc`, `Heap.Inv.rtRealloc` — one lemma a
  function.
-/

set_option linter.all false

namespace RtThread

open Option List ByteMemory Tiling
open UInt32 (le_iff_toNat_le lt_iff_toNat_lt toNat_add toNat_inj toNat_sub toNat_zero)

namespace Heap

variable {h h' : Heap} {mem nmem ptr size : UInt32} {bs l r : List Block} {m n fuel : ℕ}
variable {lowest : Prop}

/-- `lfree` points to a free block or to `heap_end`; if it is to be the lowest, to the first free
block. -/
def LfreeAt (lowest : Prop) (h : Heap) (bs : List Block) : Prop :=
  ∃ x, h.lfree.toNat = h.heapPtr.toNat + x ∧ (x ∈ offsets false 0 bs ∨ x = total bs) ∧
    (lowest → ∀ y ∈ offsets false 0 bs, x ≤ y)

/-- The invariant: the heap holds the blocks, no two free ones are neighbours, and `lfree` points
to one of these. -/
structure Inv (lowest : Prop) (h : Heap) (bs : List Block) : Prop where
  rep : h.Rep bs
  coalesced : Coalesced bs
  lfree : LfreeAt lowest h bs

theorem SameFrame.refl (h : Heap) : SameFrame h h := ⟨rfl, rfl, rfl⟩

theorem SameFrame.trans {h'' : Heap} (h₁ : SameFrame h h') (h₂ : SameFrame h' h'') :
    SameFrame h h'' :=
  ⟨h₂.heapPtr.trans h₁.heapPtr, h₂.heapEnd.trans h₁.heapEnd,
    h₂.memSizeAligned.trans h₁.memSizeAligned⟩

/-! ### `plug_holes` -/

theorem sameFrame_combine (h : Heap) (mem nmem : UInt32) : SameFrame h (h.combine mem nmem) := by
  rw [combine]
  split <;> exact ⟨rfl, rfl, rfl⟩

theorem lfree_combine (h : Heap) (mem nmem : UInt32) :
    (h.combine mem nmem).lfree = if h.lfree = nmem then mem else h.lfree := by
  rw [combine]
  split <;> rfl

theorem ram_combine (h : Heap) (mem nmem : UInt32) :
    (h.combine mem nmem).ram =
      ((h.setNext mem (h.next nmem)).setPrev
        (h.block ((h.setNext mem (h.next nmem)).next nmem)) (mem - h.heapPtr)).ram := by
  rw [combine]
  split <;> rfl

theorem Rep.combine (hrep : h.Rep (l ++ ([⟨m, false⟩, ⟨n, false⟩] ++ r)))
    (hmem : mem.toNat = h.heapPtr.toNat + total l)
    (hnmem : nmem.toNat = h.heapPtr.toNat + (total l + m)) :
    (h.combine mem nmem).Rep (l ++ ([⟨m + n, false⟩] ++ r)) ∧
      HeaderWrites h (h.combine mem nmem) (l ++ ([⟨m, false⟩, ⟨n, false⟩] ++ r)) := by
  have hm : 12 ≤ m := hrep.len ⟨m, false⟩ (by simp)
  have hn : 12 ≤ n := hrep.len ⟨n, false⟩ (by simp)
  have hbound := hrep.bound
  simp only [total_append, total_cons, total_nil] at hbound
  have hd : Header h.ram mem.toNat false (total l + m) (lastOffset 0 0 l) :=
    hrep.header (l := l) (b := ⟨m, false⟩) (r := ⟨n, false⟩ :: r) hmem
  have hd' : Header h.ram nmem.toNat false (total l + m + n) (total l) := by
    have hrep' : h.Rep ((l ++ [⟨m, false⟩]) ++ ⟨n, false⟩ :: r) := by simpa using hrep
    simpa [Nat.add_assoc] using hrep'.header (by simpa using hnmem)
  have hnext := next_eq hd'
  have hptr : (mem - h.heapPtr).toNat = total l := by
    rw [toNat_sub]
    omega
  obtain ⟨h₁, hh₁⟩ : ∃ h₁, h₁ = h.setNext mem (h.next nmem) := ⟨_, rfl⟩
  have hd₁ : Header h₁.ram mem.toNat false (total l + m + n) (lastOffset 0 0 l) := by
    rw [hh₁, ← hnext]
    exact header_setNext hd _
  have hnext₁ : (h₁.next nmem).toNat = total l + m + n := by
    refine next_eq (hd'.congr ?_)
    intro x hle hlt
    rw [hh₁]
    exact ram_setNext (by omega) _
  have hblock : (h.block (h₁.next nmem)).toNat = h.heapPtr.toNat + (total l + m + n) := by
    rw [hrep.toNat_block (by simp [hnext₁]; omega), hnext₁]
  -- one header is written, and the next block is linked back
  have hram := ram_combine h mem nmem
  rw [← hh₁] at hram
  refine ⟨hrep.replace _ [⟨m + n, false⟩] (sameFrame_combine h mem nmem) ?_
    ⟨?_, trivial⟩ (by simp) (by simp; omega) ?_ ?_, fun x hx => ?_⟩
  · intro x hle hlt
    rw [hram, ram_setPrev (by omega), hh₁, ram_setNext (by omega)]
  · rw [hram, ← hmem, ← Nat.add_assoc]
    exact hd₁.congr fun x hle hlt => ram_setPrev (by omega) _
  · intro x hle hx
    simp only [total_cons, total_nil] at hle hx
    rw [hram, ram_setPrev (by omega), hh₁, ram_setNext (by omega)]
  · intro _
    have haddr : h.heapPtr.toNat + (total l + total [⟨m, false⟩, ⟨n, false⟩]) + 8 =
        (h.block (h₁.next nmem)).toNat + 8 := by
      simp only [hblock, total_cons, total_nil]
      omega
    rw [hram, haddr, lastOffset_cons, lastOffset_nil, ← hptr]
    exact load_store_self _ _ (mem - h.heapPtr).toNat_lt
  · have hfirst := hx _ (mem_starts_or_total rfl)
    have hbehind := hx _ (mem_starts_or_total (l := l ++ [⟨m, false⟩, ⟨n, false⟩]) (r := r) (by simp))
    simp only [total_append, total_cons, total_nil, Nat.add_zero] at hbehind
    rw [hram, ram_setPrev (by omega), hh₁, ram_setNext (by omega)]

theorem offsets_true_combine :
    offsets true 0 (l ++ ⟨m + n, false⟩ :: r) =
      offsets true 0 (l ++ ⟨m, false⟩ :: ⟨n, false⟩ :: r) := by
  simp [offsets_append, offsets, Nat.add_assoc]

theorem LfreeAt.combine (hlf : LfreeAt lowest h (l ++ ⟨m, false⟩ :: ⟨n, false⟩ :: r))
    (hm : 0 < m) (hmem : mem.toNat = h.heapPtr.toNat + total l)
    (hnmem : nmem.toNat = h.heapPtr.toNat + (total l + m)) :
    LfreeAt lowest (h.combine mem nmem) (l ++ ⟨m + n, false⟩ :: r) := by
  obtain ⟨x, hx, hmem', hlow⟩ := hlf
  have hold : ∀ y ∈ offsets false 0 (l ++ ⟨m + n, false⟩ :: r),
      y ∈ offsets false 0 (l ++ ⟨m, false⟩ :: ⟨n, false⟩ :: r) :=
    fun y hy => mem_offsets_split.2 (.inl hy)
  have hfirst : total l ∈ offsets false 0 (l ++ ⟨m + n, false⟩ :: r) := by
    simpa using mem_offsets_middle 0 l (m + n) false r
  have htotal : total (l ++ ⟨m, false⟩ :: ⟨n, false⟩ :: r) = total (l ++ ⟨m + n, false⟩ :: r) := by
    simp [Nat.add_assoc]
  have hptr : (h.combine mem nmem).heapPtr = h.heapPtr := (sameFrame_combine h mem nmem).heapPtr
  rw [LfreeAt, hptr, lfree_combine]
  split
  · next heq =>
    -- `lfree` has pointed to the second block, which was not the lowest one
    refine ⟨total l, hmem, .inl hfirst, ?_⟩
    intro hlowest y hy
    have hle := hlow hlowest (total l) (hold _ hfirst)
    rw [heq] at hx
    omega
  · next hne =>
    refine ⟨x, hx, ?_, fun hlowest y hy => hlow hlowest y (hold y hy)⟩
    rcases hmem' with hmem' | rfl
    · rcases mem_offsets_split.1 hmem' with hmem' | ⟨-, rfl⟩
      · exact .inl hmem'
      · exact absurd (toNat_inj.1 (hx.trans hnmem.symm)) hne
    · exact .inr htotal

/-- What `plug_holes` makes of the blocks `bs`, one of which has become free. -/
structure Plugged (lowest : Prop) (h h' : Heap) (bs bs' : List Block) : Prop where
  inv : Inv lowest h' bs'
  used : offsets true 0 bs' = offsets true 0 bs
  frame : SameFrame h h'

section

variable (hrep : h.Rep (l ++ ⟨n, false⟩ :: r))
include hrep

theorem plugForward_spec (hr : Coalesced r) (hlf : LfreeAt lowest h (l ++ ⟨n, false⟩ :: r))
    (hmem : mem.toNat = h.heapPtr.toNat + total l) :
    ∃ n' r', (h.plugForward mem).Rep (l ++ ⟨n', false⟩ :: r') ∧ Coalesced r' ∧
      (∀ c ∈ r'.head?, c.used = true) ∧
      LfreeAt lowest (h.plugForward mem) (l ++ ⟨n', false⟩ :: r') ∧
      offsets true 0 (l ++ ⟨n', false⟩ :: r') = offsets true 0 (l ++ ⟨n, false⟩ :: r) ∧
      SameFrame h (h.plugForward mem) ∧ Combines (l ++ ⟨n, false⟩ :: r) (l ++ ⟨n', false⟩ :: r') ∧
      HeaderWrites h (h.plugForward mem) (l ++ ⟨n, false⟩ :: r) := by
  have hn : 12 ≤ n := hrep.len ⟨n, false⟩ (by simp)
  have hnext := next_eq (hrep.header hmem)
  have hle : total l + n ≤ total (l ++ ⟨n, false⟩ :: r) := by simp
  have hblock : (h.block (h.next mem)).toNat = h.heapPtr.toNat + (total l + n) := by
    rw [hrep.toNat_block (hnext ▸ hle), hnext]
  obtain ⟨nmem, hnmem⟩ : ∃ nmem, nmem = h.block (h.next mem) := ⟨_, rfl⟩
  rw [← hnmem] at hblock
  have hne : mem ≠ nmem := by
    rintro rfl
    omega
  rw [plugForward, ← hnmem]
  cases r with
  | nil =>
    -- the next block is `heap_end`
    have hend : nmem = h.heapEnd := by
      refine toNat_inj.1 (hblock.trans ?_)
      rw [hrep.heapEnd]
      simp
    rw [if_neg fun hcond => hcond.2.2 hend]
    exact ⟨n, [], hrep, isChain_nil, nofun, hlf, rfl, .refl h, .refl _, .refl h _⟩
  | cons c r =>
    have hrep' : h.Rep ((l ++ [⟨n, false⟩]) ++ c :: r) := by simpa using hrep
    have hd' : Header h.ram nmem.toNat c.used (total (l ++ [⟨n, false⟩]) + c.len) _ :=
      hrep'.header (by simpa using hblock)
    have hused := used_eq_zero_iff hd'
    cases hc : c.used with
    | true =>
      rw [if_neg fun hcond => by rw [hused, hc] at hcond; cases hcond.2.1]
      exact ⟨n, c :: r, hrep, hr, fun d hd => by cases hd; exact hc, hlf, rfl, .refl h, .refl _,
        .refl h _⟩
    | false =>
      obtain ⟨m, u⟩ := c
      obtain rfl : u = false := hc
      have hm : 12 ≤ m := hrep.len ⟨m, false⟩ (by simp)
      have hnend : nmem ≠ h.heapEnd := by
        intro he
        have hend := hrep.heapEnd
        rw [← he, hblock] at hend
        simp only [total_append, total_cons] at hend
        omega
      rw [if_pos ⟨hne, hused.2 rfl, hnend⟩]
      obtain ⟨hrep₂, hwrites⟩ := hrep.combine hmem hblock
      refine ⟨n + m, r, hrep₂, hr.tail, ?_, hlf.combine (by omega) hmem hblock,
        offsets_true_combine, sameFrame_combine h mem nmem, .step (.refl _), hwrites⟩
      intro d hd
      have hhead := (coalesced_middle (l := [])).1 hr
      exact (hhead.2.2.resolve_left nofun).2 d hd

/-- Plug hole backward: the block, which is as large as it can be, and the block before it. -/
theorem plugBackward_spec (hl : Coalesced l)
    (hr : Coalesced r) (hhead : ∀ c ∈ r.head?, c.used = true)
    (hlf : LfreeAt lowest h (l ++ ⟨n, false⟩ :: r))
    (hmem : mem.toNat = h.heapPtr.toNat + total l) :
    ∃ bs', Plugged lowest h (h.plugBackward mem) (l ++ ⟨n, false⟩ :: r) bs' ∧
      Combines (l ++ ⟨n, false⟩ :: r) bs' ∧
      HeaderWrites h (h.plugBackward mem) (l ++ ⟨n, false⟩ :: r) := by
  have hprev := prev_eq (hrep.header hmem)
  obtain ⟨pmem, hpmem⟩ : ∃ pmem, pmem = h.block (h.prev mem) := ⟨_, rfl⟩
  rw [plugBackward, ← hpmem]
  rcases eq_nil_or_concat l with rfl | ⟨l, c, rfl⟩
  · -- the first block is its own predecessor
    have hsame : pmem = mem := by
      rw [hpmem]
      apply toNat_inj.1
      rw [hrep.toNat_block (by simp [hprev]), hprev, hmem]
      simp
    rw [if_neg fun hcond => hcond.1 hsame]
    exact ⟨_, ⟨⟨hrep, coalesced_middle.2 ⟨hl, hr, .inr ⟨nofun, hhead⟩⟩, hlf⟩, rfl, .refl h⟩,
      .refl _, .refl h _⟩
  · rw [concat_eq_append] at hrep hl hlf hmem hprev ⊢
    have hrep' : h.Rep (l ++ c :: (⟨n, false⟩ :: r)) := by simpa using hrep
    have hc : 12 ≤ c.len := hrep.len c (by simp)
    rw [lastOffset_append_cons, lastOffset_nil, Nat.zero_add] at hprev
    have hblock : pmem.toNat = h.heapPtr.toNat + total l := by
      rw [hpmem, hrep.toNat_block (by simp [hprev]), hprev]
    have hused := used_eq_zero_iff (hrep'.header hblock)
    simp only [total_append, total_cons, total_nil, Nat.add_zero] at hmem
    cases hcused : c.used with
    | true =>
      -- the block before it is used
      rw [if_neg fun hcond => by rw [hused, hcused] at hcond; cases hcond.2]
      refine ⟨_, ⟨⟨hrep, coalesced_middle.2 ⟨hl, hr, .inr ⟨?_, hhead⟩⟩, hlf⟩, rfl, .refl h⟩,
        .refl _, .refl h _⟩
      intro d hd
      obtain rfl : c = d := by simpa using hd
      exact hcused
    | false =>
      -- the block before it is free, and the two are combined
      obtain ⟨m, u⟩ := c
      obtain rfl : u = false := hcused
      have hne : pmem ≠ mem := by
        rintro rfl
        simp only at hmem hc
        omega
      rw [if_pos ⟨hne, hused.2 rfl⟩]
      have hlast := (coalesced_middle (r := [])).1 hl
      have hlf' : LfreeAt lowest h (l ++ ⟨m, false⟩ :: ⟨n, false⟩ :: r) := by simpa using hlf
      obtain ⟨hrep₂, hwrites⟩ := hrep'.combine hblock hmem
      have hsplit : (l ++ [⟨m, false⟩]) ++ ⟨n, false⟩ :: r =
          l ++ ⟨m, false⟩ :: ⟨n, false⟩ :: r := by simp
      rw [hsplit]
      exact ⟨l ++ ⟨m + n, false⟩ :: r, ⟨⟨hrep₂, coalesced_middle.2
        ⟨hlast.1, hr, .inr ⟨(hlast.2.2.resolve_left nofun).1, hhead⟩⟩,
        hlf'.combine (Nat.lt_of_lt_of_le (by decide) hc) hblock hmem⟩, offsets_true_combine,
        sameFrame_combine h pmem mem⟩, .step (.refl _), hwrites⟩

/-- **`plug_holes`.** -/
theorem Rep.plugHoles (hl : Coalesced l) (hr : Coalesced r)
    (hlf : LfreeAt lowest h (l ++ ⟨n, false⟩ :: r))
    (hmem : mem.toNat = h.heapPtr.toNat + total l) :
    ∃ h' bs', h.plugHoles mem = some h' ∧ Plugged lowest h h' (l ++ ⟨n, false⟩ :: r) bs' ∧
      Combines (l ++ ⟨n, false⟩ :: r) bs' ∧ HeaderWrites h h' (l ++ ⟨n, false⟩ :: r) := by
  have hn : 12 ≤ n := hrep.len ⟨n, false⟩ (by simp)
  have hend := hrep.heapEnd
  simp only [total_append, total_cons] at hend
  have hassert : h.heapPtr ≤ mem ∧ mem < h.heapEnd ∧ h.used mem = 0 := by
    refine ⟨?_, ?_, (used_eq_zero_iff (hrep.header hmem)).2 rfl⟩
    · rw [le_iff_toNat_le]
      omega
    · rw [lt_iff_toNat_lt]
      omega
  obtain ⟨n', r', hrep', hr', hhead, hlf', hused, hframe, hcomb, hwrites⟩ :=
    plugForward_spec hrep hr hlf hmem
  obtain ⟨bs', hplugged, hcomb', hwrites'⟩ := plugBackward_spec hrep' hl hr' hhead hlf'
    (by rw [hframe.heapPtr]; exact hmem)
  rw [Heap.plugHoles, if_pos hassert]
  exact ⟨_, bs', rfl, ⟨hplugged.inv, hplugged.used.trans hused, hframe.trans hplugged.frame⟩,
    hcomb.trans hcomb', hwrites.trans hwrites' hframe.heapPtr hcomb.total_eq
      fun _ => hcomb.starts_subset⟩

end

/-! ### One block is rewritten, or split -/

theorem Rep.rewrite {u u' : Bool} (hrep : h.Rep (l ++ ⟨n, u⟩ :: r)) (hf : SameFrame h h')
    (hmem : mem.toNat = h.heapPtr.toNat + total l)
    (hram : ∀ x, x < mem.toNat ∨ mem.toNat + 12 ≤ x → h'.ram x = h.ram x)
    (hd : Header h'.ram mem.toNat u' (total l + n) (lastOffset 0 0 l)) :
    h'.Rep (l ++ ⟨n, u'⟩ :: r) := by
  have hn : 12 ≤ n := hrep.len ⟨n, u⟩ (by simp)
  refine Rep.replace [⟨n, u⟩] [⟨n, u'⟩] hrep hf (fun x hle hlt => hram x (by omega))
    ⟨by rwa [← hmem], trivial⟩ rfl (by simpa using hn) (fun x hle hx => hram x ?_) fun hr => ?_
  · simp only [total_cons, total_nil] at hle
    omega
  · -- the link back of the next block stays as it is
    obtain ⟨c, r, rfl⟩ := exists_cons_of_ne_nil hr
    obtain ⟨-, -, hc, -⟩ := seg_append.1 hrep.seg
    rw [load_congr fun x hle hlt => hram x (by simp only [total_cons, total_nil] at hle; omega)]
    simpa [Nat.add_assoc] using hc.prev

theorem linkBack_spec {k : ℕ} (hnext : (h.next (h.block ptr)).toNat = k)
    (hblock : (h.block (h.next (h.block ptr))).toNat = h.heapPtr.toNat + k) :
    SameFrame h (h.linkBack ptr) ∧ (h.linkBack ptr).lfree = h.lfree ∧
      (∀ x, x < h.heapPtr.toNat + k + 8 ∨ h.heapPtr.toNat + k + 12 ≤ x →
        (h.linkBack ptr).ram x = h.ram x) ∧
      (k ≠ (h.memSizeAligned + sizeofStructMem).toNat →
        load (h.linkBack ptr).ram (h.heapPtr.toNat + k + 8) 4 = ptr.toNat) := by
  rw [linkBack]
  split
  · refine ⟨⟨rfl, rfl, rfl⟩, rfl, fun x hx => ram_setPrev (by omega) _, ?_⟩
    intro _
    rw [← hblock]
    exact load_store_self _ _ ptr.toNat_lt
  · next heq =>
    refine ⟨.refl h, rfl, fun _ _ => rfl, fun hne => absurd ?_ hne⟩
    rw [← hnext, not_not.1 heq]

theorem stats_linkBack (h : Heap) (ptr : UInt32) :
    (h.linkBack ptr).usedMem = h.usedMem ∧ (h.linkBack ptr).maxMem = h.maxMem := by
  rw [linkBack]
  split <;> exact ⟨rfl, rfl⟩

/-- The headers that are written when a block is cut after `m` bytes. -/
theorem Rep.cut {ptr2 : UInt32} {u : Bool} (hrep : h.Rep (l ++ ⟨m + n, u⟩ :: r)) (hm : 12 ≤ m)
    (hn : 12 ≤ n) (hptr : ptr.toNat = total l) (hptr2 : ptr2.toNat = total l + m)
    (hmem : mem.toNat = h.heapPtr.toNat + total l) :
    Header ((h.create (h.block ptr2) 0 (h.next mem) ptr).setNext mem ptr2).ram mem.toNat u
        (total l + m) (lastOffset 0 0 l) ∧
      Header ((h.create (h.block ptr2) 0 (h.next mem) ptr).setNext mem ptr2).ram (mem.toNat + m)
        false (total l + (m + n)) (total l) ∧
      ∀ x, x < mem.toNat ∨ mem.toNat + 12 ≤ x ∧ x < mem.toNat + m ∨ mem.toNat + m + 12 ≤ x →
        ((h.create (h.block ptr2) 0 (h.next mem) ptr).setNext mem ptr2).ram x = h.ram x := by
  have hmem2 : (h.block ptr2).toNat = mem.toNat + m := by
    rw [hrep.toNat_block (by simp [hptr2]; omega), hptr2, hmem]
    omega
  have hd : Header h.ram mem.toNat u (total l + (m + n)) (lastOffset 0 0 l) := hrep.header hmem
  have hnext := next_eq hd
  refine ⟨?_, ?_, ?_⟩
  · rw [← hptr2]
    refine header_setNext (hd.congr ?_) ptr2
    intro x hle hlt
    exact ram_create (by omega) _ _ _
  · rw [← hmem2, ← hnext, ← hptr]
    refine (header_create (u := false) (v := 0) h _ rfl _ _).congr ?_
    intro x hle hlt
    exact ram_setNext (by omega) _
  · intro x hx
    rw [ram_setNext (by omega), ram_create (by omega)]

/-- **A block is split**: its header and that of the new free block have been written, and the
next block is linked back to the new one. -/
theorem Rep.split {u u' : Bool} (hrep : h.Rep (l ++ ⟨m + n, u⟩ :: r)) (hf : SameFrame h h')
    (hm : 12 ≤ m) (hn : 12 ≤ n) (hmem : mem.toNat = h.heapPtr.toNat + total l)
    (hptr : ptr.toNat = total l + m)
    (hram : ∀ x, x < mem.toNat ∨ mem.toNat + 12 ≤ x ∧ x < mem.toNat + m ∨
      mem.toNat + m + 12 ≤ x → h'.ram x = h.ram x)
    (hd : Header h'.ram mem.toNat u' (total l + m) (lastOffset 0 0 l))
    (hd' : Header h'.ram (mem.toNat + m) false (total l + (m + n)) (total l)) :
    (h'.linkBack ptr).Rep (l ++ ⟨m, u'⟩ :: ⟨n, false⟩ :: r) ∧ SameFrame h (h'.linkBack ptr) ∧
      (h'.linkBack ptr).lfree = h'.lfree ∧
      HeaderWrites h (h'.linkBack ptr) (l ++ ⟨m, u'⟩ :: ⟨n, false⟩ :: r) := by
  have hbound := hrep.bound
  have htotal := hrep.total_eq
  simp only [total_append, total_cons] at hbound htotal
  have hblock : (h'.block ptr).toNat = mem.toNat + m := by
    rw [block, hf.heapPtr, toNat_add]
    omega
  have hnext : (h'.next (h'.block ptr)).toNat = total l + (m + n) := next_eq (hblock ▸ hd')
  have hblock' : (h'.block (h'.next (h'.block ptr))).toNat =
      h'.heapPtr.toNat + (total l + (m + n)) := by
    rw [block, hf.heapPtr, toNat_add, hnext]
    omega
  obtain ⟨hframe, hlfree, hsame, hload⟩ := linkBack_spec hnext hblock'
  rw [hf.heapPtr] at hsame hload
  refine ⟨?_, hf.trans hframe, hlfree, fun x hx => ?_⟩
  rotate_left
  · -- the headers of the two parts, and of the block behind them
    have hfirst := hx _ (mem_starts_or_total (l := l) rfl)
    have hsecond := hx _ (mem_starts_or_total (l := l ++ [⟨m, u'⟩]) (r := ⟨n, false⟩ :: r) (by simp))
    have hbehind := hx _ (mem_starts_or_total (l := l ++ [⟨m, u'⟩, ⟨n, false⟩]) (r := r) (by simp))
    simp only [total_append, total_cons, total_nil, Nat.add_zero] at hsecond hbehind
    rw [hsame x (by omega), hram x (by omega)]
  refine Rep.replace [⟨m + n, u⟩] [⟨m, u'⟩, ⟨n, false⟩] hrep (hf.trans hframe)
    ?_ ⟨?_, ?_, trivial⟩ (by simp) (by simp [hm, hn]) ?_ ?_
  · intro x hle hlt
    rw [hsame x (by omega), hram x (by omega)]
  · rw [← hmem]
    exact hd.congr fun x hle hlt => hsame x (by omega)
  · rw [← Nat.add_assoc, ← hmem, Nat.add_assoc]
    exact hd'.congr fun x hle hlt => hsame x (by omega)
  · intro x hle hx
    simp only [total_cons, total_nil] at hle hx
    rw [hsame x (by omega), hram x (by omega)]
  · intro hr
    -- the next block is not `heap_end`
    have hlast : total l + (m + n) ≠ (h'.memSizeAligned + sizeofStructMem).toNat := by
      obtain ⟨c, r, rfl⟩ := exists_cons_of_ne_nil hr
      have hc := hrep.len c (by simp)
      have hsize : sizeofStructMem.toNat = 12 := rfl
      simp only [total_cons] at htotal hbound
      rw [hf.memSizeAligned, toNat_add, hsize]
      omega
    simpa [hptr] using hload hlast

/-! ### `rt_free` -/

/-- What a call leaves that has freed the block at `x`. -/
structure Freed (lowest : Prop) (h h' : Heap) (bs bs' : List Block) (x : ℕ) : Prop where
  inv : Inv lowest h' bs'
  used : ∀ y, y ∈ offsets true 0 bs' ↔ y ∈ offsets true 0 bs ∧ y ≠ x
  frame : SameFrame h h'

/-- `lfree` when a block has become free, which may be the lowest one now. -/
theorem LfreeAt.free (hlf : LfreeAt lowest h (l ++ ⟨n, true⟩ :: r)) (hn : 0 < n)
    (hmem : mem.toNat = h.heapPtr.toNat + total l) (hptr : h'.heapPtr = h.heapPtr)
    (hlfree : h'.lfree = if mem < h.lfree then mem else h.lfree) :
    LfreeAt lowest h' (l ++ ⟨n, false⟩ :: r) := by
  obtain ⟨y, hy, hymem, hlow⟩ := hlf
  rw [LfreeAt, hptr, hlfree]
  split
  · next hlt =>
    rw [lt_iff_toNat_lt] at hlt
    refine ⟨total l, hmem, .inl ((mem_offsets_mark Bool.false_ne_true.symm).2 (.inr rfl)), ?_⟩
    intro hlowest z hz
    rcases (mem_offsets_mark Bool.false_ne_true.symm).1 hz with hz | rfl
    · have hle := hlow hlowest z hz
      omega
    · exact le_rfl
  · next hle =>
    rw [lt_iff_toNat_lt] at hle
    have hyl : y ≤ total l := by omega
    have hyfree : y ∈ offsets false 0 (l ++ ⟨n, true⟩ :: r) := by
      apply hymem.resolve_right
      simp only [total_append, total_cons]
      omega
    refine ⟨y, hy, .inl ((mem_offsets_mark Bool.false_ne_true.symm).2 (.inl hyfree)), ?_⟩
    intro hlowest z hz
    rcases (mem_offsets_mark Bool.false_ne_true.symm).1 hz with hz | rfl
    · exact hlow hlowest z hz
    · exact hyl

/-- What `rt_free` does to the used block of the length `n` at `x`. -/
structure Frees (h h' : Heap) (bs bs' : List Block) (x n : ℕ) : Prop where
  blocks : ∃ l r, bs = l ++ ⟨n, true⟩ :: r ∧ x = total l ∧ Combines (l ++ ⟨n, false⟩ :: r) bs'
  writes : HeaderWrites h h' bs
  usedMem : h'.usedMem = h.usedMem - .ofNat n
  maxMem : h'.maxMem = h.maxMem

theorem magic_eq {u : Bool} (hd : Header h.ram mem.toNat u n m) : h.magic mem = heapMagic := by
  rw [magic, hd.magic]
  rfl

theorem stats_combine (h : Heap) (mem nmem : UInt32) :
    (h.combine mem nmem).usedMem = h.usedMem ∧ (h.combine mem nmem).maxMem = h.maxMem := by
  rw [combine]
  split <;> exact ⟨rfl, rfl⟩

theorem stats_plugHoles (hs : h.plugHoles mem = some h') :
    h'.usedMem = h.usedMem ∧ h'.maxMem = h.maxMem := by
  have hforward : (h.plugForward mem).usedMem = h.usedMem ∧
      (h.plugForward mem).maxMem = h.maxMem := by
    rw [plugForward]
    split
    · exact stats_combine h mem _
    · exact ⟨rfl, rfl⟩
  have hbackward : ((h.plugForward mem).plugBackward mem).usedMem = (h.plugForward mem).usedMem ∧
      ((h.plugForward mem).plugBackward mem).maxMem = (h.plugForward mem).maxMem := by
    rw [plugBackward]
    split
    · exact stats_combine _ _ mem
    · exact ⟨rfl, rfl⟩
  rw [Heap.plugHoles] at hs
  split at hs
  · cases hs
    exact ⟨hbackward.1.trans hforward.1, hbackward.2.trans hforward.2⟩
  · cases hs

theorem next_sub_eq {u : Bool} (hd : Header h.ram mem.toNat u (total l + n) m)
    (hmem : mem.toNat = h.heapPtr.toNat + total l) (hbound : h.heapPtr.toNat + total l + n < 2 ^ 32) :
    h.next mem - (mem - h.heapPtr) = .ofNat n := by
  have hnext := next_eq hd
  have hptr : (mem - h.heapPtr).toNat = total l := by
    rw [toNat_sub]
    omega
  apply toNat_inj.1
  rw [toNat_sub, hnext, hptr, UInt32.toNat_ofNat']
  omega

/-- `rt_free` of a used block that meets the assertion about its address. -/
theorem Inv.rtFree_spec {rmem : UInt32} (hinv : Inv lowest h (l ++ ⟨n, true⟩ :: r))
    (hrmem : rmem.toNat = h.heapPtr.toNat + total l + 12)
    (hassert : rmem &&& (4 - 1) = 0 ∧ rmem ≥ h.heapPtr ∧ rmem < h.heapEnd) :
    ∃ h' bs', h.rtFree rmem = some h' ∧
      Freed lowest h h' (l ++ ⟨n, true⟩ :: r) bs' (total l) ∧
      Frees h h' (l ++ ⟨n, true⟩ :: r) bs' (total l) n := by
  obtain ⟨hrep, hc, hlf⟩ := hinv
  have hn : 12 ≤ n := hrep.len ⟨n, true⟩ (by simp)
  have hbound := hrep.bound
  simp only [total_append, total_cons] at hbound
  have hsize : sizeofStructMem.toNat = 12 := rfl
  obtain ⟨mem, hmem_eq⟩ : ∃ mem, mem = rmem - sizeofStructMem := ⟨_, rfl⟩
  have hmem : mem.toNat = h.heapPtr.toNat + total l := by
    rw [hmem_eq, toNat_sub, hsize]
    omega
  have hnull : rmem ≠ 0 := by
    rintro rfl
    rw [toNat_zero] at hrmem
    omega
  have hd : Header h.ram mem.toNat true (total l + n) (lastOffset 0 0 l) := hrep.header hmem
  have hused : h.used mem ≠ 0 := fun hzero => Bool.noConfusion ((used_eq_zero_iff hd).1 hzero)
  rw [Heap.rtFree, if_neg hnull, if_pos hassert, ← hmem_eq]
  dsimp only
  rw [if_pos ⟨hused, magic_eq hd⟩]
  -- the block is free, but not yet combined with its neighbours
  obtain ⟨h₁, hh₁⟩ : ∃ h₁, h₁ = (h.setUsed mem 0).setMagic mem heapMagic := ⟨_, rfl⟩
  obtain ⟨h₂, hh₂⟩ : ∃ h₂ : Heap, h₂ = if mem < h₁.lfree then { h₁ with lfree := mem } else h₁ :=
    ⟨_, rfl⟩
  obtain ⟨h₃, hh₃⟩ : ∃ h₃ : Heap, h₃ =
    { h₂ with usedMem := h₂.usedMem - (h₂.next mem - (mem - h₂.heapPtr)) } := ⟨_, rfl⟩
  rw [← hh₁, ← hh₂, ← hh₃]
  have hsame : h₂.ram = h₁.ram ∧ h₂.heapPtr = h.heapPtr ∧ h₂.usedMem = h.usedMem ∧
      h₂.maxMem = h.maxMem := by
    rw [hh₂]
    split <;> exact ⟨rfl, by rw [hh₁]; rfl, by rw [hh₁]; rfl, by rw [hh₁]; rfl⟩
  obtain ⟨hram₂, hptr₂, husedMem₂, hmaxMem₂⟩ := hsame
  have hf : SameFrame h h₃ := by
    rw [hh₃, hh₂]
    split <;> exact ⟨by rw [hh₁]; rfl, by rw [hh₁]; rfl, by rw [hh₁]; rfl⟩
  have hram : h₃.ram = h₁.ram := by rw [hh₃, ← hram₂]
  have hlfree : h₃.lfree = if mem < h.lfree then mem else h.lfree := by
    have h₁lfree : h₁.lfree = h.lfree := by rw [hh₁]; rfl
    rw [hh₃, hh₂, h₁lfree]
    split
    · rfl
    · exact h₁lfree
  have hd₁ : Header h₁.ram mem.toNat false (total l + n) (lastOffset 0 0 l) := by
    rw [hh₁]
    exact header_setMagic (header_setUsed hd rfl)
  have hwrites : ∀ x, x < mem.toNat ∨ mem.toNat + 12 ≤ x → h₃.ram x = h.ram x := by
    intro y hy
    rw [hram, hh₁, ram_setMagic hy, ram_setUsed hy]
  have hrep₃ : h₃.Rep (l ++ ⟨n, false⟩ :: r) := hrep.rewrite hf hmem hwrites (hram ▸ hd₁)
  have hstats : h₃.usedMem = h.usedMem - .ofNat n ∧ h₃.maxMem = h.maxMem := by
    have hnext : h₂.next mem - (mem - h₂.heapPtr) = .ofNat n :=
      next_sub_eq (u := false) (hram₂ ▸ hd₁) (by rw [hptr₂, hmem]) (by rw [hptr₂]; omega)
    rw [hh₃]
    exact ⟨by rw [← husedMem₂, ← hnext], hmaxMem₂⟩
  obtain ⟨hcl, hcr⟩ := hc.split_middle
  obtain ⟨h₄, bs', hs, hplugged, hcomb, hwrites'⟩ := hrep₃.plugHoles hcl hcr
    (hlf.free (by omega) hmem hf.heapPtr hlfree) (by rw [hf.heapPtr]; exact hmem)
  have hstats' := stats_plugHoles hs
  refine ⟨h₄, bs', hs, ⟨hplugged.inv, fun y => ?_, hf.trans hplugged.frame⟩,
    ⟨⟨l, r, rfl, rfl, hcomb⟩, ?_, hstats'.1.trans hstats.1, hstats'.2.trans hstats.2⟩⟩
  · rw [hplugged.used]
    exact mem_offsets_unmark (fun b hb => Nat.lt_of_lt_of_le (by decide) (hrep.len b hb))
      Bool.false_ne_true
  · have hone : HeaderWrites h h₃ (l ++ ⟨n, true⟩ :: r) :=
      .of_one (mem_starts_or_total rfl) fun x hx => hwrites x (by omega)
    refine hone.trans hwrites' hf.heapPtr (by simp) fun y hy => ?_
    rwa [starts_middle] at hy ⊢

/-- **`rt_free`** of a used block. -/
theorem Inv.rtFree {rmem : UInt32} {x : ℕ} (hinv : Inv lowest h bs) (hx : x ∈ offsets true 0 bs)
    (hrmem : rmem.toNat = h.heapPtr.toNat + x + 12) (hs : h.rtFree rmem = some h') :
    ∃ bs' n, Freed lowest h h' bs bs' x ∧ Frees h h' bs bs' x n := by
  obtain ⟨l, n, r, rfl, hxl⟩ := exists_of_mem_offsets hx
  rw [Nat.zero_add] at hxl
  subst hxl
  have hnull : rmem ≠ 0 := by
    rintro rfl
    rw [toNat_zero] at hrmem
    omega
  have hassert : rmem &&& (4 - 1) = 0 ∧ rmem ≥ h.heapPtr ∧ rmem < h.heapEnd := by
    rw [Heap.rtFree, if_neg hnull] at hs
    by_contra hnot
    rw [if_neg hnot] at hs
    cases hs
  obtain ⟨h₁, bs', hs₁, hfreed, hfrees⟩ := hinv.rtFree_spec hrmem hassert
  obtain rfl : h₁ = h' := some_inj.1 (hs₁.symm.trans hs)
  exact ⟨bs', n, hfreed, hfrees⟩

/-! ### `rt_malloc` -/

/-- The search finds a free block, from where it starts on, that is large enough. -/
theorem mallocSearch_spec (hrep : h.Rep bs) {p : UInt32} (hbs : bs = l ++ r)
    (hptr : ptr.toNat = total l) (hs : h.mallocSearch size fuel ptr = some (some p)) :
    ∃ l' n r', bs = l' ++ ⟨n, false⟩ :: r' ∧ p.toNat = total l' ∧ total l ≤ total l' ∧
      size.toNat + 12 ≤ n := by
  have hbound := hrep.bound
  have hsize : sizeofStructMem.toNat = 12 := rfl
  have htotal : total bs = total l + total r := by rw [hbs, total_append]
  induction fuel generalizing l r ptr with
  | zero => cases hs
  | succ fuel ih =>
    have hblock : (h.block ptr).toNat = h.heapPtr.toNat + ptr.toNat :=
      hrep.toNat_block (by omega)
    rw [mallocSearch] at hs
    split at hs
    swap
    · cases hs
    cases r with
    | nil =>
      -- `heap_end` is used, and leads to itself
      have hend : h.block ptr = h.heapEnd := by
        refine toNat_inj.1 (hblock.trans ?_)
        rw [hrep.heapEnd, hptr, htotal, total_nil, Nat.add_zero]
      rw [hend, if_neg fun hcond => hrep.used_heapEnd hcond.1] at hs
      refine ih hbs ?_ hs htotal
      rw [hrep.next_heapEnd, htotal, total_nil, Nat.add_zero]
    | cons b r =>
      have hb : 12 ≤ b.len := hrep.len b (by simp [hbs])
      have hd : Header h.ram (h.block ptr).toNat b.used (total l + b.len) (lastOffset 0 0 l) :=
        (hbs ▸ hrep).header (by rw [hblock, hptr])
      have hnext := next_eq hd
      rw [total_cons] at htotal
      split at hs
      · next hfound =>
        obtain ⟨hused, hfits⟩ := hfound
        cases hs
        obtain ⟨n, u⟩ := b
        obtain rfl : u = false := (used_eq_zero_iff hd).1 hused
        refine ⟨l, n, r, hbs, hptr, le_rfl, ?_⟩
        rw [ge_iff_le, le_iff_toNat_le, toNat_sub, toNat_add, hnext, hsize, hptr] at hfits
        simp only at hb htotal hfits
        omega
      · obtain ⟨l', n, r', hbs', hp, hle, hn⟩ := ih (l := l ++ [b]) (r := r) (by simp [hbs])
          (by simp [hnext]) hs (by simp [htotal]; omega)
        simp only [total_append, total_cons, total_nil] at hle
        exact ⟨l', n, r', hbs', hp, by omega, hn⟩

theorem nextFree_spec (hrep : h.Rep bs) {p q : UInt32} (hbs : bs = l ++ r)
    (hp : p.toNat = h.heapPtr.toNat + total l) (hs : h.nextFree fuel p = some q) :
    ∃ x, q.toNat = h.heapPtr.toNat + x ∧ (x ∈ offsets false 0 bs ∨ x = total bs) ∧
      ∀ y ∈ offsets false 0 bs, total l ≤ y → x ≤ y := by
  have htotal : total bs = total l + total r := by rw [hbs, total_append]
  have hlen := hrep.len
  induction fuel generalizing l r p with
  | zero => cases hs
  | succ fuel ih =>
    rw [nextFree] at hs
    cases r with
    | nil =>
      have hend : p = h.heapEnd := by
        refine toNat_inj.1 (hp.trans ?_)
        rw [hrep.heapEnd, htotal, total_nil, Nat.add_zero]
      rw [if_neg fun hcond => hcond.2 hend] at hs
      obtain rfl : p = q := some_inj.1 hs
      refine ⟨total bs, by rw [hp, htotal, total_nil, Nat.add_zero], .inr rfl, ?_⟩
      intro y hy hle
      have hy := mem_offsets_bounds hlen hy
      rw [total_nil] at htotal
      omega
    | cons b r =>
      have hd : Header h.ram p.toNat b.used (total l + b.len) (lastOffset 0 0 l) :=
        (hbs ▸ hrep).header hp
      have hnext := next_eq hd
      rw [total_cons] at htotal
      split at hs
      · next hcond =>
        have hused : b.used = true := by
          by_contra hfree
          exact hcond.1 ((used_eq_zero_iff hd).2 (Bool.eq_false_iff.2 hfree))
        obtain ⟨x, hq, hx, hleast⟩ := ih (l := l ++ [b]) (r := r) (by simp [hbs])
          (by rw [hrep.toNat_block (by omega), hnext]; simp) hs (by simp [htotal]; omega)
        refine ⟨x, hq, hx, fun y hy hle => hleast y hy ?_⟩
        -- the block that has been passed is used
        rw [hbs, mem_offsets_middle_iff, hused] at hy
        simp only [total_append, total_cons, total_nil]
        rcases hy with hy | ⟨hfree, -⟩ | hy
        · have hy := mem_offsets_bounds (n := 12) (fun c hc => hlen c (by simp [hbs, hc])) hy
          omega
        · cases hfree
        · have hy := mem_offsets_bounds (n := 12) (fun c hc => hlen c (by simp [hbs, hc])) hy
          omega
      · next hcond =>
        obtain rfl : p = q := some_inj.1 hs
        obtain ⟨n, u⟩ := b
        have hne : p ≠ h.heapEnd := by
          intro hend
          have hlast := hrep.heapEnd
          have hn := hlen ⟨n, u⟩ (by simp [hbs])
          rw [← hend, hp] at hlast
          simp only at htotal hn
          omega
        have hused : h.used p = 0 := by
          by_contra hused
          exact hcond ⟨hused, hne⟩
        obtain rfl : u = false := (used_eq_zero_iff hd).1 hused
        refine ⟨total l, hp, .inl ?_, fun y _ hle => hle⟩
        rw [hbs]
        exact mem_offsets_middle_iff.2 (.inr (.inl ⟨rfl, rfl⟩))

/-- `n` bytes have been counted. -/
def UsedMore (h h' : Heap) (n : ℕ) : Prop :=
  h'.usedMem = h.usedMem + .ofNat n ∧
    h'.maxMem = if h.maxMem < h'.usedMem then h'.usedMem else h.maxMem

theorem accounts_account {h₂ : Heap} (hused : h₂.usedMem = h.usedMem)
    (hmax : h₂.maxMem = h.maxMem) (hsize : size = .ofNat n) : UsedMore h (h₂.account size) n := by
  unfold UsedMore account
  dsimp only
  rw [hused, hmax, hsize]
  exact ⟨rfl, rfl⟩

theorem UsedMore.setMagic {h₂ : Heap} {magic : UInt16} (hmore : UsedMore h h₂ n) :
    UsedMore h (h₂.setMagic mem magic) n :=
  hmore

/-- The block that has been found becomes used, and what is left of it a free block. -/
theorem Rep.mallocTake (hrep : h.Rep (l ++ ⟨n, false⟩ :: r)) (hptr : ptr.toNat = total l)
    (hn : size.toNat + 12 ≤ n) :
    ∃ m t, (h.mallocTake ptr size).Rep (l ++ ⟨m, true⟩ :: (t ++ r)) ∧ size.toNat + 12 ≤ m ∧
      (t = [] ∨ ∃ k, t = [⟨k, false⟩]) ∧ m + total t = n ∧
      SameFrame h (h.mallocTake ptr size) ∧ (h.mallocTake ptr size).lfree = h.lfree ∧
      (t = [] ∨ m = size.toNat + 12) ∧
      HeaderWrites h (h.mallocTake ptr size) (l ++ ⟨m, true⟩ :: (t ++ r)) ∧
      UsedMore h (h.mallocTake ptr size) m := by
  have hbound := hrep.bound
  simp only [total_append, total_cons] at hbound
  have hsize : sizeofStructMem.toNat = 12 := rfl
  have hmin : minSizeAligned.toNat = 12 := rfl
  obtain ⟨mem, hmem_eq⟩ : ∃ mem, mem = h.block ptr := ⟨_, rfl⟩
  have hmem : mem.toNat = h.heapPtr.toNat + total l := by
    rw [hmem_eq, hrep.toNat_block (by simp [hptr]), hptr]
  have hd : Header h.ram mem.toNat false (total l + n) (lastOffset 0 0 l) := hrep.header hmem
  have hnext := next_eq hd
  have hrest : (h.next mem - (ptr + sizeofStructMem)).toNat = n - 12 := by
    rw [toNat_sub, toNat_add, hnext, hptr, hsize]
    omega
  rw [Heap.mallocTake, ← hmem_eq]
  dsimp only
  split
  · next hfits =>
    -- a large block is split
    rw [ge_iff_le, le_iff_toNat_le, hrest, toNat_add, toNat_add, hsize, hmin] at hfits
    obtain ⟨k, hk⟩ : ∃ k, n = (size.toNat + 12) + k := ⟨n - (size.toNat + 12), by omega⟩
    obtain ⟨ptr2, hptr2⟩ : ∃ ptr2, ptr2 = ptr + sizeofStructMem + size := ⟨_, rfl⟩
    have hptr2' : ptr2.toNat = total l + (size.toNat + 12) := by
      rw [hptr2, toNat_add, toNat_add, hptr, hsize]
      omega
    rw [← hptr2]
    subst hk
    obtain ⟨hcut, hcut', hcut_ram⟩ := hrep.cut (by omega) (by omega) hptr hptr2' hmem
    obtain ⟨h₁, hh₁⟩ : ∃ h₁, h₁ = ((h.create (h.block ptr2) 0 (h.next mem) ptr).setNext mem
      ptr2).setUsed mem 1 := ⟨_, rfl⟩
    have hd₁ : Header h₁.ram mem.toNat true (total l + (size.toNat + 12)) (lastOffset 0 0 l) := by
      rw [hh₁]
      exact header_setUsed hcut rfl
    have hd₁' : Header h₁.ram (mem.toNat + (size.toNat + 12)) false
        (total l + (size.toNat + 12 + k)) (total l) := by
      rw [hh₁]
      exact hcut'.congr fun x hle hlt => ram_setUsed (by omega) _
    have hf₁ : SameFrame h h₁ := by rw [hh₁]; exact ⟨rfl, rfl, rfl⟩
    obtain ⟨hrep₁, hframe, hlfree, hwrites⟩ := hrep.split hf₁ (by omega) (by omega) hmem hptr2'
      (fun x hx => by rw [hh₁, ram_setUsed (by omega), hcut_ram x hx]) hd₁ hd₁'
    have hlfree₁ : h₁.lfree = h.lfree := by rw [hh₁]; rfl
    have hstats := stats_linkBack h₁ ptr2
    have hstats₁ : h₁.usedMem = h.usedMem ∧ h₁.maxMem = h.maxMem := by rw [hh₁]; exact ⟨rfl, rfl⟩
    obtain ⟨h₂, hh₂⟩ : ∃ h₂, h₂ = h₁.linkBack ptr2 := ⟨_, rfl⟩
    rw [← hh₂] at hrep₁ hframe hlfree hwrites hstats
    rw [← hh₁, ← hh₂]
    have hmem₁ : mem.toNat = h₂.heapPtr.toNat + total l := by rw [hframe.heapPtr, hmem]
    refine ⟨size.toNat + 12, [⟨k, false⟩], ?_, le_rfl, .inr ⟨k, rfl⟩, rfl,
      hframe.trans ⟨rfl, rfl, rfl⟩, hlfree.trans hlfree₁, .inr rfl, ?_, ?_⟩
    · exact hrep₁.rewrite ⟨rfl, rfl, rfl⟩ hmem₁ (fun x hx => ram_setMagic hx _)
        (header_setMagic (hrep₁.header hmem₁))
    · refine hwrites.trans (.of_one (mem_starts_or_total rfl) fun x hx => ?_) hframe.heapPtr rfl
        fun _ hy => hy
      exact ram_setMagic (by omega) _
    · refine accounts_account (hstats.1.trans hstats₁.1) (hstats.2.trans hstats₁.2) ?_
      rw [UInt32.ofNat_add, UInt32.ofNat_toNat]
      rfl
  · have hwrites : ∀ x, x < mem.toNat ∨ mem.toNat + 12 ≤ x →
        (((h.setUsed mem 1).account ((h.setUsed mem 1).next mem -
          (mem - (h.setUsed mem 1).heapPtr))).setMagic mem heapMagic).ram x = h.ram x :=
      fun x hx => (ram_setMagic hx _).trans (ram_setUsed hx _)
    refine ⟨n, [], ?_, hn, .inl rfl, rfl, ⟨rfl, rfl, rfl⟩, rfl, .inl rfl, ?_, ?_⟩
    · exact hrep.rewrite ⟨rfl, rfl, rfl⟩ hmem hwrites (header_setMagic (header_setUsed hd rfl))
    · exact .of_one (mem_starts_or_total rfl) fun x hx => hwrites x (by omega)
    · have hd₁ : Header (h.setUsed mem 1).ram mem.toNat true (total l + n) (lastOffset 0 0 l) :=
        header_setUsed hd rfl
      have hused : (h.setUsed mem 1).usedMem = h.usedMem := rfl
      have hcount := next_sub_eq hd₁ hmem (by show h.heapPtr.toNat + _ + _ < _; omega)
      exact (accounts_account hused rfl hcount).setMagic

/-- What a call leaves that has allocated the block at `x`, with room for `k` bytes. -/
structure Allocated (lowest : Prop) (h h' : Heap) (bs bs' : List Block) (x k : ℕ) : Prop where
  inv : Inv lowest h' bs'
  used : ∀ y, y ∈ offsets true 0 bs' ↔ y ∈ offsets true 0 bs ∨ y = x
  fresh : x ∉ offsets true 0 bs
  room : ∃ l m r, bs' = l ++ ⟨m, true⟩ :: r ∧ x = total l ∧ k + 12 ≤ m
  frame : SameFrame h h'

/-- What `rt_malloc` does that takes `m` bytes at `x`, for a size of `k`. -/
structure Takes (h h' : Heap) (bs bs' : List Block) (x k m : ℕ) : Prop where
  blocks : ∃ l n r t, bs = l ++ ⟨n, false⟩ :: r ∧ bs' = l ++ ⟨m, true⟩ :: (t ++ r) ∧
    x = total l ∧ m + total t = n ∧ (t = [] ∨ m = k + 12 ∧ ∃ j, t = [⟨j, false⟩])
  room : k + 12 ≤ m
  writes : HeaderWrites h h' bs'
  accounts : UsedMore h h' m

theorem stats_mallocLfree (hs : h.mallocLfree fuel mem = some h') :
    h'.usedMem = h.usedMem ∧ h'.maxMem = h.maxMem := by
  rw [Heap.mallocLfree] at hs
  split at hs
  · obtain ⟨q, -, rfl⟩ := map_eq_some_iff.1 hs
    exact ⟨rfl, rfl⟩
  · cases hs
    exact ⟨rfl, rfl⟩

/-- `lfree` after the block that it may have pointed to has been taken. -/
theorem LfreeAt.mallocLfree {bs' : List Block} (hrep : h.Rep bs') (hlf : LfreeAt lowest h bs)
    (hsplit : bs' = l ++ r) (hmem : mem.toNat = h.heapPtr.toNat + total l)
    (htotal : total bs' = total bs)
    (hnew : ∀ y, y ∈ offsets false 0 bs' → y ∈ offsets false 0 bs ∨ total l ≤ y)
    (hold : ∀ y, y ∈ offsets false 0 bs → y ≠ total l → y ∈ offsets false 0 bs')
    (hge : h.lfree.toNat ≤ mem.toNat) (hs : h.mallocLfree fuel mem = some h') :
    LfreeAt lowest h' bs' ∧ SameFrame h h' ∧ h'.ram = h.ram := by
  obtain ⟨y, hy, hymem, hlow⟩ := hlf
  rw [Heap.mallocLfree] at hs
  split at hs
  · next heq =>
    obtain ⟨q, hq, rfl⟩ := map_eq_some_iff.1 hs
    obtain ⟨z, hz, hzmem, hleast⟩ := nextFree_spec hrep hsplit (heq ▸ hmem) hq
    refine ⟨⟨z, hz, hzmem, fun hlowest w hw => hleast w hw ?_⟩, ⟨rfl, rfl, rfl⟩, rfl⟩
    rcases hnew w hw with hw | hw
    · have hle := hlow hlowest w hw
      rw [← heq] at hy
      omega
    · exact hw
  · next hne =>
    obtain rfl : h = h' := some_inj.1 hs
    have hyl : y ≠ total l := by
      rintro rfl
      exact hne (toNat_inj.1 (by omega))
    refine ⟨⟨y, hy, ?_, ?_⟩, .refl h, rfl⟩
    · rcases hymem with hymem | rfl
      · exact .inl (hold y hymem hyl)
      · exact .inr htotal.symm
    · intro hlowest w hw
      rcases hnew w hw with hw | hw
      · exact hlow hlowest w hw
      · omega

theorem Inv.take (hinv : Inv lowest h (l ++ ⟨n, false⟩ :: r)) (hptr : ptr.toNat = total l)
    (hn : size.toNat + 12 ≤ n) (hge : h.lfree.toNat ≤ (h.block ptr).toNat)
    (hs : (h.mallocTake ptr size).mallocLfree fuel (h.block ptr) = some h') :
    ∃ bs' m, Allocated lowest h h' (l ++ ⟨n, false⟩ :: r) bs' (total l) size.toNat ∧
      Takes h h' (l ++ ⟨n, false⟩ :: r) bs' (total l) size.toNat m := by
  obtain ⟨hrep, hc, hlf⟩ := hinv
  obtain ⟨m, t, hrep', hm, ht, hmt, hframe, hlfree, hcut, hwrites, haccounts⟩ :=
    hrep.mallocTake hptr hn
  have hstats := stats_mallocLfree hs
  have hlen := hrep.len
  have hmem : (h.block ptr).toNat = h.heapPtr.toNat + total l := by
    rw [hrep.toNat_block (by simp [hptr]), hptr]
  have hlf' : LfreeAt lowest (h.mallocTake ptr size) (l ++ ⟨n, false⟩ :: r) := by
    rwa [LfreeAt, hlfree, hframe.heapPtr]
  obtain ⟨hlf₂, hframe₂, hram₂⟩ := hlf'.mallocLfree hrep' rfl (by rw [hframe.heapPtr]; exact hmem)
    (by simp [← hmt, Nat.add_assoc]) (fun _ hy => mem_offsets_of_take ht hmt hy)
    (fun _ hy hne => mem_offsets_take hmt hy hne) (by rw [hlfree]; exact hge) hs
  have hrep₂ : h'.Rep (l ++ ⟨m, true⟩ :: (t ++ r)) :=
    hrep'.congr hframe₂ (fun _ _ _ _ _ _ => by rw [hram₂]) fun _ _ _ => by rw [hram₂]
  refine ⟨_, m, ⟨⟨hrep₂, hc.take ht, hlf₂⟩, fun y => offsets_take ht hmt, ?_,
    ⟨l, m, t ++ r, rfl, rfl, hm⟩, hframe.trans hframe₂⟩,
    ⟨l, n, r, t, rfl, rfl, rfl, hmt, ?_⟩, hm, ?_, ?_⟩
  · exact not_mem_offsets_middle (fun b hb => Nat.lt_of_lt_of_le (by decide) (hlen b hb)) nofun
  · exact ht.imp_right fun hj => ⟨hcut.resolve_left fun hnil => by simp [hnil] at hj, hj⟩
  · intro y hy
    rw [hram₂]
    exact hwrites y hy
  · unfold UsedMore
    rw [hstats.1, hstats.2]
    exact haccounts

theorem Inv.exists_start (hinv : Inv lowest h bs) :
    ∃ l r, bs = l ++ r ∧ (h.lfree - h.heapPtr).toNat = total l ∧
      h.lfree.toNat = h.heapPtr.toNat + total l := by
  have hbound := hinv.rep.bound
  obtain ⟨y, hy, hymem, -⟩ := hinv.lfree
  obtain ⟨l, r, rfl, rfl⟩ : ∃ l r, bs = l ++ r ∧ y = total l := by
    rcases hymem with hymem | rfl
    · obtain ⟨l, n, r, hbs, hyl⟩ := exists_of_mem_offsets hymem
      exact ⟨l, ⟨n, false⟩ :: r, hbs, by rw [hyl, Nat.zero_add]⟩
    · exact ⟨bs, [], by simp, rfl⟩
  refine ⟨l, r, rfl, ?_, hy⟩
  rw [total_append] at hbound
  rw [toNat_sub]
  omega

/-- The size that `rt_malloc` looks for. -/
def roundSize (size : UInt32) : UInt32 :=
  if rtAlign size < minSizeAligned then minSizeAligned else rtAlign size

/-- **`rt_malloc`** returns `RT_NULL` and leaves the heap as it is, or allocates a block. -/
theorem Inv.rtMalloc {p : UInt32} (hinv : Inv lowest h bs)
    (hs : h.rtMalloc fuel size = some (h', p)) :
    p = 0 ∧ h' = h ∨ ∃ x bs' m, p.toNat = h.heapPtr.toNat + x + 12 ∧
      Allocated lowest h h' bs bs' x (rtAlign size).toNat ∧
      Takes h h' bs bs' x (roundSize size).toNat m := by
  rw [Heap.rtMalloc] at hs
  split at hs
  · cases hs
    exact .inl ⟨rfl, rfl⟩
  dsimp only at hs
  split at hs
  · cases hs
    exact .inl ⟨rfl, rfl⟩
  obtain ⟨size', hsize'⟩ : ∃ size', size' = roundSize size := ⟨_, rfl⟩
  have hle : (rtAlign size).toNat ≤ size'.toNat := by
    rw [hsize', roundSize]
    split
    · next hlt => exact (lt_iff_toNat_lt.1 hlt).le
    · exact le_rfl
  rw [← roundSize] at hs
  rw [← hsize'] at hs
  obtain ⟨found, hfound, hs⟩ := bind_eq_some_iff.1 hs
  cases found with
  | none =>
    cases hs
    exact .inl ⟨rfl, rfl⟩
  | some ptr =>
    obtain ⟨h₂, hh₂, hs⟩ := bind_eq_some_iff.1 hs
    simp only [ite_none_right_eq_some, some.injEq, Prod.mk.injEq] at hs
    obtain ⟨-, rfl, rfl⟩ := hs
    have hrep := hinv.rep
    have hbound := hrep.bound
    obtain ⟨l₀, r₀, hbs₀, hstart, hlfree⟩ := hinv.exists_start
    obtain ⟨l, n, r, rfl, hptr, hafter, hn⟩ := mallocSearch_spec hrep hbs₀ hstart hfound
    have hmem : (h.block ptr).toNat = h.heapPtr.toNat + total l := by
      rw [hrep.toNat_block (by simp [hptr]), hptr]
    obtain ⟨bs', m, hbs', htakes⟩ := hinv.take hptr hn (by omega) hh₂
    refine .inr ⟨total l, bs', m, ?_, { hbs' with room := ?_ }, hsize' ▸ htakes⟩
    · have hsize : sizeofStructMem.toNat = 12 := rfl
      have hn12 : 12 ≤ n := hrep.len ⟨n, false⟩ (by simp)
      simp only [total_append, total_cons] at hbound
      rw [toNat_add, hmem, hsize]
      omega
    · obtain ⟨l', m, r', hsplit, htotal, hm⟩ := hbs'.room
      exact ⟨l', m, r', hsplit, htotal, by omega⟩

/-! ### `rt_realloc` and `rt_calloc` -/

theorem Inv.writeBlock {u : Bool} (hinv : Inv lowest h bs) (hbs : bs = l ++ ⟨n, u⟩ :: r)
    (hf : SameFrame h h') (hlfree : h'.lfree = h.lfree)
    (hram : ∀ x, x < h.heapPtr.toNat + total l + 12 ∨ h.heapPtr.toNat + total l + n ≤ x →
      h'.ram x = h.ram x) : Inv lowest h' bs := by
  obtain ⟨hrep, hc, y, hy, hymem, hlow⟩ := hinv
  have hlen := hrep.len
  refine ⟨hrep.congr hf (fun v z hz x hle hlt => hram x ?_) fun x hle hlt => hram x ?_, hc, y, ?_,
    hymem, hlow⟩
  · -- the headers are those of this block, of the blocks before and of those behind
    rw [hbs, mem_offsets_middle_iff] at hz
    rcases hz with hz | ⟨-, rfl⟩ | hz
    · have hz := mem_offsets_bounds (n := 12) (fun b hb => hlen b (by simp [hbs, hb])) hz
      omega
    · exact .inl hlt
    · have hz := mem_offsets_bounds (n := 12) (fun b hb => hlen b (by simp [hbs, hb])) hz
      simp only at hz
      omega
  · rw [hbs] at hle
    simp only [total_append, total_cons] at hle
    omega
  · rw [hlfree, hf.heapPtr]
    exact hy

/-- When `rt_realloc` splits a block in place, the rest of the block lies behind the lowest free
block, or is combined with it. -/
def SplitFits (h : Heap) (mem : UInt32) : Prop :=
  h.lfree < mem ∨ h.lfree = h.block (h.next mem) ∧ h.lfree ≠ h.heapEnd

/-- It does not matter for `plug_holes` whether `lfree` points to the block or to the free block
behind it. -/
theorem plugHoles_lfree (hne : mem ≠ h.block (h.next mem)) (hused : h.used (h.block (h.next mem)) = 0)
    (hend : h.block (h.next mem) ≠ h.heapEnd) (hlfree : h.lfree = h.block (h.next mem)) :
    { h with lfree := mem }.plugHoles mem = h.plugHoles mem := by
  have hforward : { h with lfree := mem }.plugForward mem = h.plugForward mem := by
    have hcond : mem ≠ h.block (h.next mem) ∧ h.used (h.block (h.next mem)) = 0 ∧
        h.block (h.next mem) ≠ h.heapEnd := ⟨hne, hused, hend⟩
    have hcond' : mem ≠ { h with lfree := mem }.block ({ h with lfree := mem }.next mem) ∧
        { h with lfree := mem }.used
          ({ h with lfree := mem }.block ({ h with lfree := mem }.next mem)) = 0 ∧
        { h with lfree := mem }.block ({ h with lfree := mem }.next mem) ≠ h.heapEnd := hcond
    rw [plugForward, plugForward, if_pos hcond, if_pos hcond', combine, combine, if_pos hlfree]
    rw [if_neg]
    · rfl
    · exact hne
  rw [plugHoles, plugHoles, hforward]
  rfl

theorem Rep.plugHoles_lfree {k : ℕ} (hrep : h.Rep (l ++ ⟨n, false⟩ :: ⟨k, false⟩ :: r))
    (hmem : mem.toNat = h.heapPtr.toNat + total l)
    (hlfree : h.lfree.toNat = h.heapPtr.toNat + (total l + n)) :
    { h with lfree := mem }.plugHoles mem = h.plugHoles mem := by
  have hn : 12 ≤ n := hrep.len ⟨n, false⟩ (by simp)
  have hk : 12 ≤ k := hrep.len ⟨k, false⟩ (by simp)
  have hnext : (h.next mem).toNat = total l + n := next_eq (hrep.header hmem)
  have hblock : (h.block (h.next mem)).toNat = h.heapPtr.toNat + (total l + n) := by
    rw [hrep.toNat_block (by simp [hnext]), hnext]
  have hrep' : h.Rep ((l ++ [⟨n, false⟩]) ++ ⟨k, false⟩ :: r) := by simpa using hrep
  refine Heap.plugHoles_lfree ?_ ((used_eq_zero_iff (hrep'.header (by simpa using hblock))).2 rfl) ?_
    (toNat_inj.1 (hlfree.trans hblock.symm))
  · intro hself
    rw [← hself] at hblock
    omega
  · intro hself
    have hend := hrep.heapEnd
    rw [← hself, hblock] at hend
    simp only [total_append, total_cons] at hend
    omega

theorem LfreeAt.split (hlf : LfreeAt lowest h (l ++ ⟨m + n, true⟩ :: r)) (hf : SameFrame h h')
    (hlfree : h'.lfree = h.lfree) (hbefore : lowest → h.lfree.toNat < h.heapPtr.toNat + total l) :
    LfreeAt lowest h' (l ++ ⟨m, true⟩ :: ⟨n, false⟩ :: r) := by
  obtain ⟨y, hy, hymem, hlow⟩ := hlf
  refine ⟨y, by rw [hlfree, hf.heapPtr, hy], ?_, ?_⟩
  · rcases hymem with hymem | rfl
    · exact .inl (mem_offsets_split.2 (.inl hymem))
    · exact .inr (by simp [Nat.add_assoc])
  · intro hlowest z hz
    rcases mem_offsets_split.1 hz with hz | ⟨-, rfl⟩
    · exact hlow hlowest z hz
    · have hlt := hbefore hlowest
      omega

/-- `lfree` when it has pointed to the block behind the one that has been split, and is moved to
the second part of this one. -/
theorem LfreeAt.split_behind (hlf : LfreeAt lowest h (l ++ ⟨m + n, true⟩ :: r))
    (hf : SameFrame h h') (hlowest : lowest)
    (hbehind : h.lfree.toNat = h.heapPtr.toNat + (total l + (m + n)))
    (hlfree : h'.lfree.toNat = h.heapPtr.toNat + (total l + m)) :
    LfreeAt lowest h' (l ++ ⟨m, true⟩ :: ⟨n, false⟩ :: r) := by
  obtain ⟨y, hy, -, hlow⟩ := hlf
  refine ⟨total l + m, by rw [hlfree, hf.heapPtr], .inl (mem_offsets_split.2 (.inr ⟨rfl, rfl⟩)), ?_⟩
  intro _ z hz
  rcases mem_offsets_split.1 hz with hz | ⟨-, rfl⟩
  · have hle := hlow hlowest z hz
    omega
  · exact le_rfl

/-- When `lfree` points to the block behind a block, this one is free. -/
theorem Inv.exists_behind (hinv : Inv lowest h (l ++ ⟨n, true⟩ :: r))
    (hmem : mem.toNat = h.heapPtr.toNat + total l) (heq : h.lfree = h.block (h.next mem))
    (hne : h.lfree ≠ h.heapEnd) :
    h.lfree.toNat = h.heapPtr.toNat + (total l + n) ∧ ∃ k r', r = ⟨k, false⟩ :: r' := by
  have hrep := hinv.rep
  obtain ⟨y, hy, hymem, -⟩ := hinv.lfree
  have hnext : (h.next mem).toNat = total l + n := next_eq (hrep.header hmem)
  have hlfree : h.lfree.toNat = h.heapPtr.toNat + (total l + n) := by
    rw [heq, hrep.toNat_block (by simp [hnext]), hnext]
  obtain rfl : y = total l + n := by omega
  have hyfree : total l + n ∈ offsets false 0 (l ++ ⟨n, true⟩ :: r) := by
    refine hymem.resolve_right fun hlast => hne (toNat_inj.1 ?_)
    rw [hy, hrep.heapEnd, hlast]
  exact ⟨hlfree, exists_cons_of_mem_offsets
    (fun b hb => Nat.lt_of_lt_of_le (by decide) (hrep.len b hb)) hyfree⟩

theorem Rep.reallocSplit (size : UInt32) {newsize : UInt32} {k : ℕ} (hk : 12 ≤ k)
    (hrep : h.Rep (l ++ ⟨newsize.toNat + 12 + k, true⟩ :: r)) (hptr : ptr.toNat = total l) :
    ∃ h₂ mem2, h.reallocSplit ptr size newsize = h₂.plugHoles mem2 ∧
      h₂.Rep (l ++ ⟨newsize.toNat + 12, true⟩ :: ⟨k, false⟩ :: r) ∧ SameFrame h h₂ ∧
      h₂.lfree = h.lfree ∧ mem2.toNat = h.heapPtr.toNat + (total l + (newsize.toNat + 12)) ∧
      HeaderWrites h h₂ (l ++ ⟨newsize.toNat + 12, true⟩ :: ⟨k, false⟩ :: r) ∧
      h₂.usedMem = h.usedMem - (size - newsize) ∧ h₂.maxMem = h.maxMem := by
  have hbound := hrep.bound
  simp only [total_append, total_cons] at hbound
  have hsize : sizeofStructMem.toNat = 12 := rfl
  obtain ⟨mem, hmem_eq⟩ : ∃ mem, mem = h.block ptr := ⟨_, rfl⟩
  have hmem : mem.toNat = h.heapPtr.toNat + total l := by
    rw [hmem_eq, hrep.toNat_block (by simp [hptr]), hptr]
  obtain ⟨ptr2, hptr2⟩ : ∃ ptr2, ptr2 = ptr + sizeofStructMem + newsize := ⟨_, rfl⟩
  have hptr2' : ptr2.toNat = total l + (newsize.toNat + 12) := by
    rw [hptr2, toNat_add, toNat_add, hptr, hsize]
    omega
  obtain ⟨h₀, hh₀⟩ : ∃ h₀ : Heap, h₀ = { h with usedMem := h.usedMem - (size - newsize) } := ⟨_, rfl⟩
  have hf₀ : SameFrame h h₀ := by rw [hh₀]; exact ⟨rfl, rfl, rfl⟩
  have hlfree₀ : h₀.lfree = h.lfree := by rw [hh₀]
  have hrep₀ : h₀.Rep (l ++ ⟨newsize.toNat + 12 + k, true⟩ :: r) :=
    hrep.congr hf₀ (fun _ _ _ _ _ _ => by rw [hh₀]) fun _ _ _ => by rw [hh₀]
  have hmem₀ : mem.toNat = h₀.heapPtr.toNat + total l := by rw [hf₀.heapPtr, hmem]
  rw [Heap.reallocSplit, ← hmem_eq, ← hptr2, ← hh₀]
  obtain ⟨hcut, hcut', hcut_ram⟩ := hrep₀.cut (by omega) hk hptr hptr2' hmem₀
  obtain ⟨h₁, hh₁⟩ : ∃ h₁, h₁ = (h₀.create (h₀.block ptr2) 0 (h₀.next mem) ptr).setNext mem ptr2 :=
    ⟨_, rfl⟩
  rw [← hh₁] at hcut hcut' hcut_ram ⊢
  have hf₁ : SameFrame h₀ h₁ := by rw [hh₁]; exact ⟨rfl, rfl, rfl⟩
  have hlfree₁ : h₁.lfree = h₀.lfree := by rw [hh₁]; rfl
  obtain ⟨hrep₁, hframe, hlfree, hwrites⟩ :=
    hrep₀.split hf₁ (by omega) hk hmem₀ hptr2' hcut_ram hcut hcut'
  have hstats := stats_linkBack h₁ ptr2
  refine ⟨_, _, rfl, hrep₁, hf₀.trans hframe, (hlfree.trans hlfree₁).trans hlfree₀, ?_, ?_,
    hstats.1.trans (by rw [hh₁, hh₀]; rfl), hstats.2.trans (by rw [hh₁, hh₀]; rfl)⟩
  · rw [hrep₁.toNat_block (by simp [hptr2']), hptr2', hframe.heapPtr, hf₀.heapPtr]
  · intro x hx
    rw [hwrites x (by rw [hf₀.heapPtr]; exact hx), hh₀]

theorem Inv.reallocSplit {newsize : UInt32} (size : UInt32)
    (hinv : Inv lowest h (l ++ ⟨n, true⟩ :: r)) (hptr : ptr.toNat = total l)
    (hn : newsize.toNat + 36 < n) (hfits : lowest → SplitFits h (h.block ptr)) :
    ∃ h' bs' k, h.reallocSplit ptr size newsize = some h' ∧ n = newsize.toNat + 12 + k ∧
      Plugged lowest h h' (l ++ ⟨n, true⟩ :: r) bs' ∧
      Combines (l ++ ⟨newsize.toNat + 12, true⟩ :: ⟨k, false⟩ :: r) bs' ∧
      HeaderWrites h h' (l ++ ⟨newsize.toNat + 12, true⟩ :: ⟨k, false⟩ :: r) ∧
      h'.usedMem = h.usedMem - (size - newsize) ∧ h'.maxMem = h.maxMem := by
  obtain ⟨k, rfl⟩ : ∃ k, n = (newsize.toNat + 12) + k := ⟨n - (newsize.toNat + 12), by omega⟩
  obtain ⟨h₂, mem2, heq, hrep₂, hf, hlfree₂, hmem2, hwrites, husedMem, hmaxMem⟩ :=
    hinv.rep.reallocSplit size (by omega) hptr
  rw [heq]
  obtain ⟨hcl, hcr⟩ := hinv.coalesced.split_middle
  have hcl' : Coalesced (l ++ [⟨newsize.toNat + 12, true⟩]) :=
    coalesced_middle.2 ⟨hcl, isChain_nil, .inl rfl⟩
  -- it is enough to have `lfree` right, or on the rest of the block instead of the block behind
  have hplug : ∀ h₃ : Heap, h₃.Rep (l ++ ⟨newsize.toNat + 12, true⟩ :: ⟨k, false⟩ :: r) →
      SameFrame h₂ h₃ → h₃.ram = h₂.ram →
      LfreeAt lowest h₃ (l ++ ⟨newsize.toNat + 12, true⟩ :: ⟨k, false⟩ :: r) →
      h₃.plugHoles mem2 = h₂.plugHoles mem2 →
      ∃ h' bs' k', h₂.plugHoles mem2 = some h' ∧
        newsize.toNat + 12 + k = newsize.toNat + 12 + k' ∧
        Plugged lowest h h' (l ++ ⟨newsize.toNat + 12 + k, true⟩ :: r) bs' ∧
        Combines (l ++ ⟨newsize.toNat + 12, true⟩ :: ⟨k', false⟩ :: r) bs' ∧
        HeaderWrites h h' (l ++ ⟨newsize.toNat + 12, true⟩ :: ⟨k', false⟩ :: r) ∧
        h'.usedMem = h.usedMem - (size - newsize) ∧ h'.maxMem = h.maxMem := by
    intro h₃ hrep₃ hf₃ hram₃ hlf₃ hsame
    rw [append_cons] at hrep₃ hlf₃
    obtain ⟨h₄, bs', hs₄, hplugged, hcomb, hwrites'⟩ := hrep₃.plugHoles hcl' hcr hlf₃
      (by rw [hf₃.heapPtr, hf.heapPtr, hmem2]; simp)
    rw [← append_cons] at hcomb hwrites'
    have hs₂ : h₂.plugHoles mem2 = some h₄ := hsame.symm.trans hs₄
    have hstats := stats_plugHoles hs₂
    refine ⟨h₄, bs', k, hs₂, rfl, ⟨hplugged.inv, ?_, (hf.trans hf₃).trans hplugged.frame⟩, hcomb,
      fun x hx => ?_, hstats.1.trans husedMem, hstats.2.trans hmaxMem⟩
    · rw [hplugged.used]
      simp [offsets_append, offsets, Nat.add_assoc]
    · rw [← hwrites x hx, ← hram₃]
      exact hwrites' x (by rw [hf₃.heapPtr, hf.heapPtr]; exact hx)
  have hmem : (h.block ptr).toNat = h.heapPtr.toNat + total l := by
    rw [hinv.rep.toNat_block (by simp [hptr]), hptr]
  by_cases hbefore : lowest → h.lfree.toNat < h.heapPtr.toNat + total l
  · exact hplug h₂ hrep₂ (.refl h₂) rfl (hinv.lfree.split hf hlfree₂ hbefore) rfl
  · obtain ⟨hlowest, hnot⟩ := Classical.not_imp.1 hbefore
    obtain ⟨hnext, hne⟩ := (hfits hlowest).resolve_left fun hlt => hnot (by
      rw [lt_iff_toNat_lt, hmem] at hlt
      exact hlt)
    obtain ⟨hbehind, j, r', rfl⟩ := hinv.exists_behind hmem hnext hne
    have hsame : { h₂ with lfree := mem2 }.plugHoles mem2 = h₂.plugHoles mem2 := by
      rw [append_cons] at hrep₂
      apply hrep₂.plugHoles_lfree (by rw [hf.heapPtr, hmem2]; simp)
      rw [hlfree₂, hf.heapPtr, hbehind]
      simp [Nat.add_assoc]
    have hf₃ : SameFrame h₂ { h₂ with lfree := mem2 } := ⟨rfl, rfl, rfl⟩
    exact hplug { h₂ with lfree := mem2 }
      (hrep₂.congr hf₃ (fun _ _ _ _ _ _ => rfl) fun _ _ _ => rfl) hf₃ rfl
      (hinv.lfree.split_behind (hf.trans hf₃) hlowest hbehind hmem2) hsame

end Heap

end RtThread
