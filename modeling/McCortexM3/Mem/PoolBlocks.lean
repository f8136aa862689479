import McCortexM3.Mem.Pool
import McCortexM3.Run

/-!
# The blocks of a memory pool

The blocks of a pool lie one behind another, and each of them is either in the free list or
allocated.  Threads write into the blocks that they have got and not into the pointers before
them, so the free list stays what the pool has made of it.

## Main definitions

* `PoolRun`, `PoolRun.step` — a pool with the blocks that have been handed out.
* `PoolRight` — the free list and the allocated blocks are the blocks of the pool.

## Main results

* `PoolRun.blocks_step` — every step keeps the blocks.
* `PoolRun.run_poolRight_iff` — when a pool keeps its blocks.
-/

set_option linter.all false

namespace RtThread

open Option List Nat ByteMemory
open Function (update)

namespace Mempool

/-- The block that a pointer leads to. -/
def pointee (p : UInt32) : Option UInt32 := if p = 0 then none else some p

/-- The free block behind a free block. -/
def next (m : Mempool) (p : UInt32) : Option UInt32 := pointee (m.word p)

/-- The address where the block with the number `i` begins. -/
def blockAt (start stride : UInt32) (i : ℕ) : UInt32 := start + .ofNat i * stride

/-- All of them. -/
def blocks (start stride : UInt32) (total : ℕ) : List UInt32 :=
  (List.range total).map (blockAt start stride)

/-- The blocks lie in the address space, with room for a pointer in each. -/
structure Fits (start stride : UInt32) (total : ℕ) : Prop where
  start_ne : start ≠ 0
  le_stride : 4 ≤ stride.toNat
  end_le : start.toNat + total * stride.toNat ≤ 2 ^ 32

variable {m : Mempool} {start stride p q a v mp size blockSize : UInt32} {total i j n : ℕ}

theorem pointee_of_ne (h : p ≠ 0) : pointee p = some p := if_neg h

theorem pointee_eq_some : pointee p = some q ↔ p ≠ 0 ∧ p = q := by
  unfold pointee
  split
  · next h => simp [h]
  · next h => simp [h]

theorem blockAt_succ (start stride : UInt32) (i : ℕ) :
    blockAt start stride (i + 1) = start + (.ofNat i + 1) * stride := by
  unfold blockAt
  rw [UInt32.ofNat_add]
  rfl

namespace Fits

section

variable (h : Fits start stride total)
include h

theorem mul_succ_le (hi : i < total) : start.toNat + i * stride.toNat + stride.toNat ≤ 2 ^ 32 := by
  have hle : (i + 1) * stride.toNat ≤ total * stride.toNat := Nat.mul_le_mul_right _ hi
  have hend := h.end_le
  rw [succ_mul] at hle
  omega

theorem toNat_blockAt (hi : i < total) :
    (blockAt start stride i).toNat = start.toNat + i * stride.toNat := by
  have hstride := h.le_stride
  have hend := h.mul_succ_le hi
  have hle : i ≤ i * stride.toNat := Nat.le_mul_of_pos_right i (by omega)
  have hi32 : i < 2 ^ 32 := by omega
  unfold blockAt
  rw [UInt32.toNat_add, UInt32.toNat_mul, UInt32.toNat_ofNat_of_lt' hi32,
    mod_eq_of_lt (by omega : i * stride.toNat < 2 ^ 32), mod_eq_of_lt (by omega)]

theorem blockAt_ne_zero (hi : i < total) : blockAt start stride i ≠ 0 := by
  intro hzero
  have hnat := h.toNat_blockAt hi
  have hstart : 0 < start.toNat := Nat.pos_of_ne_zero fun h0 => h.start_ne (UInt32.toNat_inj.1 h0)
  rw [hzero, UInt32.toNat_zero] at hnat
  omega

theorem blockAt_lt (hij : i < j) (hj : j < total) :
    (blockAt start stride i).toNat + stride.toNat ≤ (blockAt start stride j).toNat := by
  have hle : (i + 1) * stride.toNat ≤ j * stride.toNat := Nat.mul_le_mul_right _ hij
  rw [succ_mul] at hle
  rw [h.toNat_blockAt (hij.trans hj), h.toNat_blockAt hj]
  omega

theorem blockAt_disjoint (hi : i < total) (hj : j < total)
    (hij : i ≠ j) : (blockAt start stride i).toNat + 4 ≤ (blockAt start stride j).toNat ∨
      (blockAt start stride j).toNat + 4 ≤ (blockAt start stride i).toNat := by
  have hstride := h.le_stride
  rcases lt_or_gt_of_ne hij with hlt | hgt
  · have hle := h.blockAt_lt hlt hj
    omega
  · have hle := h.blockAt_lt hgt hi
    omega

theorem word_linkBlocks (hn : n ≤ total) (hi : i < n) :
    (linkBlocks start stride m n).word (blockAt start stride i) = blockAt start stride (i + 1) := by
  induction n with
  | zero => omega
  | succ n ih =>
    unfold linkBlocks
    rw [← blockAt_succ]
    rcases Nat.lt_succ_iff_lt_or_eq.1 hi with hlt | rfl
    · have hne := h.blockAt_disjoint (i := n) (j := i) (by omega) (by omega) (by omega)
      rw [← blockAt, word_setWord_of_disjoint hne]
      exact ih (by omega) hlt
    · exact word_setWord_self ..

end

end Fits

/-! ### The free list -/

/-- Blocks whose pointers lead to the next one, and from the last one to nowhere, are a list. -/
theorem Fits.chain (h : Fits start stride total)
    (hlink : ∀ i, i + 1 < total → m.word (blockAt start stride i) = blockAt start stride (i + 1))
    (hlast : ∀ i, i + 1 = total → m.word (blockAt start stride i) = 0) (hi : i + n = total) :
    Chain m.next (if i < total then some (blockAt start stride i) else none)
      ((range' i n).map (blockAt start stride)) := by
  induction n generalizing i with
  | zero => simp [show ¬ i < total by omega]
  | succ n ih =>
    rw [range'_succ, map_cons, if_pos (by omega)]
    refine ⟨rfl, ?_⟩
    have hrest := ih (i := i + 1) (by omega)
    unfold next
    by_cases hlt : i + 1 < total
    · rw [hlink i hlt, pointee_of_ne (h.blockAt_ne_zero hlt)]
      rwa [if_pos hlt] at hrest
    · rw [hlast i (by omega)]
      rwa [if_neg hlt] at hrest

/-- The free list and the allocated blocks of a pool at the address `mp`. -/
structure Inv (mp start stride : UInt32) (total : ℕ) (m : Mempool) (free live : List UInt32) :
    Prop where
  list : Chain m.next (pointee m.blockList) free
  perm : (free ++ live).Perm (blocks start stride total)
  freeCount : m.blockFreeCount.toNat = free.length
  totalCount : m.blockTotalCount.toNat = total
  blockSize : m.blockSize = stride - 4
  owner : ∀ p ∈ live, m.word p = mp

theorem mem_blocks : p ∈ blocks start stride total ↔ ∃ i < total, blockAt start stride i = p := by
  simp [blocks]

section

variable (h : Fits start stride total) (hp : p ∈ blocks start stride total)
include h hp

theorem Fits.ne_zero : p ≠ 0 := by
  obtain ⟨i, hi, rfl⟩ := mem_blocks.1 hp
  exact h.blockAt_ne_zero hi

theorem Fits.le_end : p.toNat + stride.toNat ≤ 2 ^ 32 := by
  obtain ⟨i, hi, rfl⟩ := mem_blocks.1 hp
  rw [h.toNat_blockAt hi]
  exact h.mul_succ_le hi

theorem Fits.apart (hq : q ∈ blocks start stride total) (hne : p ≠ q) :
    p.toNat + stride.toNat ≤ q.toNat ∨ q.toNat + stride.toNat ≤ p.toNat := by
  obtain ⟨i, hi, rfl⟩ := mem_blocks.1 hp
  obtain ⟨j, hj, rfl⟩ := mem_blocks.1 hq
  rcases lt_trichotomy i j with hlt | rfl | hgt
  · exact .inl (h.blockAt_lt hlt hj)
  · exact absurd rfl hne
  · exact .inr (h.blockAt_lt hgt hi)

end

theorem Fits.nodup (h : Fits start stride total) : (blocks start stride total).Nodup := by
  unfold blocks
  apply List.Nodup.map_on _ nodup_range
  intro i hi j hj heq
  rw [mem_range] at hi hj
  have hstride := h.le_stride
  by_contra hij
  have hne := h.blockAt_disjoint hi hj hij
  rw [heq] at hne
  omega

theorem linkBlocks_frame (start stride : UInt32) (m : Mempool) (n : ℕ) :
    linkBlocks start stride m n = { m with ram := (linkBlocks start stride m n).ram } := by
  induction n with
  | zero => rfl
  | succ n ih =>
    unfold linkBlocks setWord
    rw [ih]

theorem initBlocks_frame (m : Mempool) :
    m.initBlocks = { m with ram := m.initBlocks.ram, blockList := m.startAddress } := by
  unfold initBlocks
  dsimp only
  rw [linkBlocks_frame]
  rfl

theorem word_initBlocks (m : Mempool) (a : UInt32) :
    m.initBlocks.word a =
      ((linkBlocks m.startAddress (m.blockSize + 4) m m.blockTotalCount.toNat).setWord
        (m.startAddress + (m.blockTotalCount - 1) * (m.blockSize + 4)) 0).word a := by
  unfold initBlocks word
  dsimp only

theorem blockAt_zero (start stride : UInt32) : blockAt start stride 0 = start := by
  simp [blockAt]

theorem inv_initBlocks (hfits : Fits m.startAddress (m.blockSize + 4) m.blockTotalCount.toNat)
    (hpos : 0 < m.blockTotalCount.toNat) (hcount : m.blockFreeCount = m.blockTotalCount)
    (mp : UInt32) :
    m.initBlocks.Inv mp m.startAddress (m.blockSize + 4) m.blockTotalCount.toNat
      (blocks m.startAddress (m.blockSize + 4) m.blockTotalCount.toNat) [] := by
  obtain ⟨last, hlast⟩ : ∃ last, m.blockTotalCount.toNat = last + 1 :=
    ⟨m.blockTotalCount.toNat - 1, by omega⟩
  have haddr : m.startAddress + (m.blockTotalCount - 1) * (m.blockSize + 4) =
      blockAt m.startAddress (m.blockSize + 4) last := by
    have hsub : m.blockTotalCount - 1 = .ofNat last := by
      rw [← UInt32.ofNat_toNat (x := m.blockTotalCount), hlast, UInt32.ofNat_add]
      exact add_sub_cancel_right _ _
    rw [hsub, blockAt]
  rw [hlast] at hfits ⊢
  have hlink : ∀ i, i + 1 < last + 1 →
      m.initBlocks.word (blockAt m.startAddress (m.blockSize + 4) i) =
        blockAt m.startAddress (m.blockSize + 4) (i + 1) := by
    intro i hi
    have hne := hfits.blockAt_disjoint (i := last) (j := i) (by omega) (by omega) (by omega)
    rw [word_initBlocks, haddr, hlast, word_setWord_of_disjoint hne]
    exact hfits.word_linkBlocks le_rfl (by omega)
  have hend : ∀ i, i + 1 = last + 1 →
      m.initBlocks.word (blockAt m.startAddress (m.blockSize + 4) i) = 0 := by
    intro i hi
    obtain rfl : i = last := by omega
    rw [word_initBlocks, haddr]
    exact word_setWord_self ..
  have hlist := hfits.chain hlink hend (i := 0) (n := last + 1) (by omega)
  rw [if_pos (by omega), blockAt_zero, ← range_eq_range'] at hlist
  have hframe := initBlocks_frame m
  refine ⟨?_, ?_, ?_, ?_, ?_, nofun⟩
  · rw [hframe, pointee_of_ne hfits.start_ne, ← hframe]
    exact hlist
  · rw [append_nil]
  · rw [hframe, hcount, hlast, blocks, length_map, length_range]
  · rw [hframe]
    exact hlast
  · rw [hframe]
    exact (add_sub_cancel_right _ _).symm

/-! ### The calls -/

section Calls

variable {m' : Mempool} {free live : List UInt32} {block : UInt32} {b : UInt8} {x : ℕ}

namespace Inv

section

variable (h : m.Inv mp start stride total free live)
include h

theorem mem_blocks_free (hp : p ∈ free) :
    p ∈ blocks start stride total := h.perm.subset (mem_append_left _ hp)

theorem mem_blocks_live (hp : p ∈ live) :
    p ∈ blocks start stride total := h.perm.subset (mem_append_right _ hp)

theorem nodup (hfits : Fits start stride total) :
    (free ++ live).Nodup := h.perm.nodup_iff.2 hfits.nodup

end

theorem word_setWord (hfits : Fits start stride total) (hp : p ∈ blocks start stride total)
    (hq : q ∈ blocks start stride total) (hne : p ≠ q) (v : UInt32) :
    (m.setWord p v).word q = m.word q := by
  have hstride := hfits.le_stride
  have hapart := hfits.apart hp hq hne
  exact word_setWord_of_disjoint (by omega)

section

variable (h : m.Inv mp start stride total free live) (hfits : Fits start stride total)
include h hfits

/-- `rt_mp_alloc` takes the first free block. -/
theorem take (hcount : m.blockFreeCount ≠ 0) (hs : m.take mp = some (m', block)) :
    ∃ rest, free = (block - 4) :: rest ∧
      m'.Inv mp start stride total rest ((block - 4) :: live) := by
  have hlist := h.list
  have hlen := h.freeCount
  cases free with
  | nil => exact absurd (UInt32.toNat_inj.1 hlen) hcount
  | cons q rest =>
    obtain ⟨hq, hrest⟩ := hlist
    obtain ⟨hne, rfl⟩ := pointee_eq_some.1 hq
    simp only [Mempool.take, if_neg hne, some.injEq, Prod.mk.injEq] at hs
    obtain ⟨rfl, rfl⟩ := hs
    rw [add_sub_cancel_right]
    have hmem := h.mem_blocks_free mem_cons_self
    have hnodup := h.nodup hfits
    rw [cons_append, nodup_cons, mem_append, not_or] at hnodup
    obtain ⟨⟨hnotfree, hnotlive⟩, -⟩ := hnodup
    -- the pointers before the other blocks stay
    have hword : ∀ q ∈ blocks start stride total, q ≠ m.blockList →
        (m.setWord m.blockList mp).word q = m.word q :=
      fun q hq hqne => word_setWord hfits hmem hq hqne.symm mp
    refine ⟨rest, rfl, ?_, ?_, ?_, h.totalCount, h.blockSize, ?_⟩
    · apply Chain.congr hrest
      intro q hq
      have hqne : q ≠ m.blockList := by
        rintro rfl
        exact hnotfree hq
      exact congrArg pointee (hword q (h.mem_blocks_free (mem_cons_of_mem _ hq)) hqne)
    · exact perm_middle.trans h.perm
    · have hone : (1 : UInt32) ≤ m.blockFreeCount := by
        rw [UInt32.le_iff_toNat_le, UInt32.toNat_one, hlen]
        exact succ_pos _
      show (m.blockFreeCount - 1).toNat = rest.length
      rw [UInt32.toNat_sub_of_le _ _ hone, hlen, UInt32.toNat_one, length_cons]
      rfl
    · intro q hq
      rcases mem_cons.1 hq with rfl | hq
      · exact word_setWord_self ..
      · have hqne : q ≠ m.blockList := by
          rintro rfl
          exact hnotlive hq
        exact (hword q (h.mem_blocks_live hq) hqne).trans (h.owner q hq)

/-- `rt_mp_free` links a block before the free list. -/
theorem give (hlive : block - 4 ∈ live) :
    (m.give block).Inv mp start stride total ((block - 4) :: free) (live.erase (block - 4)) := by
  have hmem := h.mem_blocks_live hlive
  have hnodup := nodup_append.1 (h.nodup hfits)
  have hperm := perm_cons_erase hlive
  have hword : ∀ q ∈ blocks start stride total, q ≠ block - 4 →
      (m.setWord (block - 4) m.blockList).word q = m.word q :=
    fun q hq hqne => word_setWord hfits hmem hq hqne.symm m.blockList
  refine ⟨⟨pointee_of_ne (hfits.ne_zero hmem), ?_⟩, ?_, ?_, h.totalCount, h.blockSize, ?_⟩
  · have hnext : (m.give block).next (block - 4) = pointee m.blockList :=
      congrArg pointee (word_setWord_self (block - 4) m.blockList m)
    rw [hnext]
    apply Chain.congr h.list
    intro q hq
    have hqne : q ≠ block - 4 := by
      rintro rfl
      exact hnodup.2.2 _ hq _ hlive rfl
    exact congrArg pointee (hword q (h.mem_blocks_free hq) hqne)
  · exact perm_middle.symm.trans ((hperm.symm.append_left free).trans h.perm)
  · have hlen := h.perm.length_eq
    have htotal := h.totalCount
    have hlt := m.blockTotalCount.toNat_lt
    have hpos := length_pos_of_mem hlive
    rw [length_append, blocks, length_map, length_range] at hlen
    show (m.blockFreeCount + 1).toNat = free.length + 1
    rw [UInt32.toNat_add, h.freeCount, UInt32.toNat_one, mod_eq_of_lt (by omega)]
  · intro q hq
    obtain ⟨hqne, hq⟩ := hnodup.2.1.mem_erase_iff.1 hq
    exact (hword q (h.mem_blocks_live hq) hqne).trans (h.owner q hq)

theorem write (hp : p ∈ live) (hge : p.toNat + 4 ≤ x) (hlt : x < p.toNat + stride.toNat) :
    ({ m with ram := update m.ram x b }).Inv mp start stride total free live := by
  have hstride := hfits.le_stride
  have hword : ∀ q ∈ blocks start stride total,
      ({ m with ram := update m.ram x b }).word q = m.word q := by
    intro q hq
    unfold word
    have hload : load (update m.ram x b) q.toNat 4 = load m.ram q.toNat 4 := by
      apply load_congr
      intro y hy hylt
      apply Function.update_of_ne
      rintro rfl
      by_cases hpq : p = q
      · subst hpq
        omega
      · have hapart := hfits.apart (h.mem_blocks_live hp) hq hpq
        omega
    rw [hload]
  refine ⟨h.list.congr ?_, h.perm, h.freeCount, h.totalCount, h.blockSize, ?_⟩
  · intro q hq
    exact congrArg pointee (hword q (h.mem_blocks_free hq))
  · intro q hq
    exact (hword q (h.mem_blocks_live hq)).trans (h.owner q hq)

end

end Inv

end Calls

end Mempool

/-! ### Runs -/

/-- What can happen next: a call, or a thread writes a byte. -/
inductive PoolAction
  | alloc
  | free (block : UInt32)
  | write (a : ℕ) (b : UInt8)

/-- The pool, and the blocks that have been handed out and not been given back. -/
structure PoolRun where
  pool : Mempool
  live : List UInt32

namespace PoolRun

/-- The address `a` is in a block that a thread has got. -/
def InBlock (s : PoolRun) (a : ℕ) : Prop :=
  ∃ p ∈ s.live, p.toNat ≤ a ∧ a < p.toNat + s.pool.blockSize.toNat

instance (s : PoolRun) (a : ℕ) : Decidable (s.InBlock a) := by
  unfold InBlock
  infer_instance

/-- One step of the threads that use the pool at the address `mp`; it shows the pointer that the
call returns.  A call of `rt_mp_alloc` that finds no free block leaves the blocks alone, whether
it returns or waits for the next round of its loop. -/
def step (mp : UInt32) (s : PoolRun) : PoolAction → Option (PoolRun × List UInt32)
  | .alloc =>
    if s.pool.blockFreeCount = 0 then some (s, [0])
    else (s.pool.take mp).map fun (m, block) => (⟨m, block :: s.live⟩, [block])
  | .free block =>
    if block ∈ s.live ∧ s.pool.owner block = mp then
      some (⟨s.pool.give block, s.live.erase block⟩, [])
    else none
  | .write a b =>
    if s.InBlock a then some (⟨{ s.pool with ram := update s.pool.ram a b }, s.live⟩, [])
    else none

/-- The pointers before the blocks that have been handed out. -/
def heads (s : PoolRun) : List UInt32 := s.live.map (· - 4)

/-- Blocks with `n` bytes behind the pointers at `p` and `q` do not overlap. -/
def Apart (n : ℕ) (p q : UInt32) : Prop :=
  p.toNat + 4 + n ≤ q.toNat ∨ q.toNat + 4 + n ≤ p.toNat

/-- The free list, as the pointers lead through it, and the blocks that have been handed out are
the blocks of the pool. -/
structure PoolRight (mp start size blockSize : UInt32) (s : PoolRun) (free : List UInt32) :
    Prop where
  list : Chain s.pool.next (Mempool.pointee s.pool.blockList) free
  freeCount : s.pool.blockFreeCount.toNat = free.length
  totalCount : s.pool.blockTotalCount.toNat = (free ++ s.heads).length
  apart : (free ++ s.heads).Pairwise (Apart blockSize.toNat)
  inside : ∀ p ∈ free ++ s.heads,
    start.toNat ≤ p.toNat ∧ p.toNat + 4 + blockSize.toNat ≤ start.toNat + size.toNat
  owner : ∀ block ∈ s.live, s.pool.owner block = mp

variable {mp start stride size blockSize : UInt32} {total : ℕ} {s s' : PoolRun} {a : PoolAction}
  {out : List UInt32}

open Mempool

/-- The blocks of the pool are free or have been handed out. -/
def Blocks (mp start stride : UInt32) (total : ℕ) (s : PoolRun) : Prop :=
  ∃ free, s.pool.Inv mp start stride total free s.heads

/-- **Every step** keeps the blocks. -/
theorem blocks_step (hfits : Fits start stride total) (h : s.Blocks mp start stride total)
    (hs : s.step mp a = some (s', out)) : s'.Blocks mp start stride total := by
  obtain ⟨free, hinv⟩ := h
  cases a with
  | alloc =>
    rw [step] at hs
    split at hs
    · cases hs
      exact ⟨free, hinv⟩
    · next hcount =>
      obtain ⟨⟨m, block⟩, htake, he⟩ := map_eq_some_iff.1 hs
      cases he
      obtain ⟨rest, -, hinv'⟩ := hinv.take hfits hcount htake
      exact ⟨rest, hinv'⟩
  | free block =>
    rw [step, ite_none_right_eq_some] at hs
    obtain ⟨⟨hmem, -⟩, he⟩ := hs
    cases he
    refine ⟨(block - 4) :: free, ?_⟩
    have hheads : (s.live.erase block).map (· - 4) = s.heads.erase (block - 4) :=
      map_erase (fun p q hpq => sub_left_injective hpq) s.live
    show (s.pool.give block).Inv mp start stride total ((block - 4) :: free)
      ((s.live.erase block).map (· - 4))
    rw [hheads]
    exact hinv.give hfits (List.mem_map_of_mem hmem)
  | write x b =>
    rw [step, ite_none_right_eq_some] at hs
    obtain ⟨⟨p, hp, hge, hlt⟩, he⟩ := hs
    cases he
    have hmem : p - 4 ∈ s.heads := List.mem_map_of_mem hp
    have hstride := hfits.le_stride
    have hend := hfits.le_end (hinv.mem_blocks_live hmem)
    have hsize : s.pool.blockSize.toNat = stride.toNat - 4 := by
      have h4 : (4 : UInt32) ≤ stride := UInt32.le_iff_toNat_le.2 hstride
      rw [hinv.blockSize, UInt32.toNat_sub_of_le _ _ h4]
      rfl
    have hp4 : p.toNat = (p - 4).toNat + 4 := by
      have h4 : (4 : UInt32).toNat = 4 := rfl
      have hadd : ((p - 4) + 4).toNat = ((p - 4).toNat + 4) % 2 ^ 32 := by
        rw [UInt32.toNat_add, h4]
      rw [sub_add_cancel] at hadd
      omega
    exact ⟨free, hinv.write hfits hmem (by omega) (by omega)⟩

/-- The blocks have room for `blockSize` bytes each and lie in the memory of the pool. -/
theorem Blocks.right (hfits : Fits start stride total) (h : s.Blocks mp start stride total)
    (hroom : blockSize.toNat + 4 ≤ stride.toNat) (hend : total * stride.toNat ≤ size.toNat) :
    ∃ free, s.PoolRight mp start size blockSize free := by
  obtain ⟨free, hinv⟩ := h
  have hlen := hinv.perm.length_eq
  rw [blocks, length_map, length_range] at hlen
  refine ⟨free, hinv.list, hinv.freeCount, hinv.totalCount.trans hlen.symm, ?_, ?_, ?_⟩
  · have hsymm : ∀ {p q}, Apart blockSize.toNat p q → Apart blockSize.toNat q p := Or.symm
    rw [hinv.perm.pairwise_iff hsymm]
    apply hfits.nodup.imp_of_mem
    intro p q hp hq hne
    have hapart := hfits.apart hp hq hne
    unfold Apart
    omega
  · intro p hp
    obtain ⟨i, hi, rfl⟩ := mem_blocks.1 (hinv.perm.subset hp)
    have hle : (i + 1) * stride.toNat ≤ total * stride.toNat := Nat.mul_le_mul_right _ hi
    rw [succ_mul] at hle
    rw [hfits.toNat_blockAt hi]
    omega
  · intro block hblock
    exact hinv.owner _ (List.mem_map_of_mem hblock)

/-- The size, rounded down, has room for one block, rounded up, and the pointer before it. -/
def HasRoom (size blockSize : UInt32) : Prop :=
  (blockSize.toNat + 3) / 4 * 4 + 4 ≤ size.toNat / 4 * 4

theorem blocks_init (ram : ℕ → UInt8) (mp : UInt32) (hstart : start ≠ 0)
    (hend : start.toNat + size.toNat ≤ 2 ^ 32) (hroom : HasRoom size blockSize) :
    ∃ stride total, Fits start stride total ∧ blockSize.toNat + 4 ≤ stride.toNat ∧
      total * stride.toNat ≤ size.toNat ∧
      Blocks mp start stride total ⟨rtMpInit ram start size blockSize, []⟩ := by
  unfold HasRoom at hroom
  have hlt := size.toNat_lt
  obtain ⟨stride, hstride⟩ : ∃ stride, stride = rtAlign blockSize + 4 := ⟨_, rfl⟩
  obtain ⟨total, htotal⟩ : ∃ total, total = rtAlignDown size / stride := ⟨_, rfl⟩
  have hstrideNat : stride.toNat = (blockSize.toNat + 3) / 4 * 4 + 4 := by
    have h4 : (4 : UInt32).toNat = 4 := rfl
    rw [hstride, UInt32.toNat_add, toNat_rtAlign (by omega), h4, mod_eq_of_lt (by omega)]
  have htotalNat : total.toNat = size.toNat / 4 * 4 / stride.toNat := by
    rw [htotal, UInt32.toNat_div, toNat_rtAlignDown]
  have hmul : total.toNat * stride.toNat ≤ size.toNat / 4 * 4 := by
    rw [htotalNat]
    exact div_mul_le_self ..
  have hpos : 0 < total.toNat := by
    rw [htotalNat]
    exact Nat.div_pos (by omega) (by omega)
  have hfits : Fits start stride total.toNat := ⟨hstart, by omega, by omega⟩
  refine ⟨stride, total.toNat, hfits, by omega, by omega,
    Mempool.blocks start stride total.toNat, ?_⟩
  subst htotal
  subst hstride
  exact inv_initBlocks (m := ⟨ram, start, rtAlignDown size, rtAlign blockSize, 0, _, _, 0⟩)
    hfits hpos rfl mp

theorem not_right_init (ram : ℕ → UInt8) (hstart : start ≠ 0)
    (hroom : ¬ HasRoom size blockSize) (free : List UInt32) :
    ¬ PoolRight mp start size blockSize ⟨rtMpInit ram start size blockSize, []⟩ free := by
  intro h
  apply hroom
  obtain ⟨stride, hstride⟩ : ∃ stride, stride = rtAlign blockSize + 4 := ⟨_, rfl⟩
  obtain ⟨total, htotal⟩ : ∃ total, total = rtAlignDown size / stride := ⟨_, rfl⟩
  have hinit : rtMpInit ram start size blockSize =
      initBlocks ⟨ram, start, rtAlignDown size, rtAlign blockSize, 0, total, total, 0⟩ := by
    rw [htotal, hstride]
    rfl
  have hlist := h.list
  have hcount := h.freeCount
  rw [hinit, initBlocks_frame, pointee_of_ne hstart, ← initBlocks_frame] at hlist
  rw [hinit, initBlocks_frame] at hcount
  -- the list begins with the start of the memory, whatever is there
  obtain ⟨rest, rfl, -⟩ := hlist.exists_cons
  have hinside := (h.inside start mem_cons_self).2
  have hlt := size.toNat_lt
  have htotalNat : total.toNat = size.toNat / 4 * 4 / stride.toNat := by
    rw [htotal, UInt32.toNat_div, toNat_rtAlignDown]
  have hstrideNat : stride.toNat = ((blockSize.toNat + 3) / 4 * 4 + 4) % 2 ^ 32 := by
    have h4 : (4 : UInt32).toNat = 4 := rfl
    rw [hstride, UInt32.toNat_add, toNat_rtAlign (by omega), h4]
  have hpos : 0 < size.toNat / 4 * 4 / stride.toNat := by
    rw [← htotalNat, hcount]
    exact succ_pos _
  have hle := (Nat.div_pos_iff.1 hpos)
  unfold HasRoom
  omega

/-- A pool in a memory keeps its blocks, in every state of every run, **exactly when** its size has
room for a block. -/
theorem run_poolRight_iff (mp start size blockSize : UInt32) (ram : ℕ → UInt8) (hstart : start ≠ 0)
    (hend : start.toNat + size.toNat ≤ 2 ^ 32) :
    (∀ tr s, Run (step mp) (fun _ _ => True) ⟨rtMpInit ram start size blockSize, []⟩ tr s →
      ∃ free, s.PoolRight mp start size blockSize free) ↔ HasRoom size blockSize := by
  constructor
  · intro h
    by_contra hroom
    obtain ⟨free, hright⟩ := h [] _ Run.nil
    exact not_right_init ram hstart hroom free hright
  · intro hroom tr s hrun
    obtain ⟨stride, total, hfits, hblock, hsize, hinit⟩ := blocks_init ram mp hstart hend hroom
    have hblocks := hrun.invariant (fun _ s => s.Blocks mp start stride total) hinit
      fun h _ hs => blocks_step hfits h hs
    exact hblocks.right hfits hblock hsize

/-- A pool of 35 bytes has two blocks of ten bytes. -/
theorem run_poolRight_iff_two :
    (∀ tr s, Run (step 0x2000) (fun _ _ => True) ⟨rtMpInit (fun _ => 0) 0x1000 35 10, []⟩ tr s →
      ∃ free, s.PoolRight 0x2000 0x1000 35 10 free) ↔ HasRoom 35 10 :=
  run_poolRight_iff 0x2000 0x1000 35 10 (fun _ => 0) (by decide) (by decide)

/-- A memory that is too small for a block is accepted, and its free list is **not empty**. -/
theorem not_run_poolRight :
    ¬ ∀ (mp start size blockSize : UInt32) (ram : ℕ → UInt8) (_ : start ≠ 0)
      (_ : start.toNat + size.toNat ≤ 2 ^ 32) (tr : List UInt32) (s : PoolRun),
      Run (step mp) (fun _ _ => True) ⟨rtMpInit ram start size blockSize, []⟩ tr s →
        ∃ free, s.PoolRight mp start size blockSize free := by
  intro h
  obtain ⟨free, hright⟩ := h 0x2000 0x1000 8 8 (fun _ => 0) (by decide) (by decide) [] _ Run.nil
  exact not_right_init (fun _ => 0) (by decide) (by unfold HasRoom; decide) free hright

end PoolRun

end RtThread
