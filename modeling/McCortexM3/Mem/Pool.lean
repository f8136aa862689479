import McCortexM3.ByteMemory
import McCortexM3.Mem.Align
import McCortexM3.SList

/-!
# The memory pools of `mempool.c`

The functions of `mempool.c` over a memory of bytes, for `RT_ALIGN_SIZE` 4.  A pool is cut into
blocks of equal size with a pointer before each of them, which leads to the next free block or,
while the block is allocated, to the control block of the pool.

## Main definitions

* `Mempool` — the memory and the control block, without its object and its suspend list.
* `rtMpInit`, `rtMpCreate` — a new pool.
* `take`, `give` — what `rt_mp_alloc` and `rt_mp_free` do to the blocks.

## Main results

* `rtMpCreate_eq` — `rt_mp_create` makes the pool that `rt_mp_init` makes of its memory.
-/

set_option linter.all false

namespace RtThread

open Nat ByteMemory

/-- The memory and the fields of `struct rt_mempool`; an `rt_size_t` has 32 bits. -/
structure Mempool where
  ram : ℕ → UInt8
  startAddress : UInt32
  size : UInt32
  blockSize : UInt32
  blockList : UInt32
  blockTotalCount : UInt32
  blockFreeCount : UInt32
  suspendThreadCount : UInt32

namespace Mempool

/-- `*(rt_uint8_t **)a`. -/
def word (m : Mempool) (a : UInt32) : UInt32 := .ofNat (load m.ram a.toNat 4)

/-- `*(rt_uint8_t **)a = v`. -/
def setWord (a v : UInt32) (m : Mempool) : Mempool :=
  { m with ram := store m.ram a.toNat 4 v.toNat }

/-- The first rounds of the loop that links each block to the next one, for blocks that begin
`stride` bytes apart. -/
def linkBlocks (blockPtr stride : UInt32) (m : Mempool) : ℕ → Mempool
  | 0 => m
  | n + 1 =>
    (linkBlocks blockPtr stride m n).setWord (blockPtr + .ofNat n * stride)
      (blockPtr + (.ofNat n + 1) * stride)

/-- `rt_mp_init` and `rt_mp_create` from their comment "initialize free block list" on. -/
def initBlocks (m : Mempool) : Mempool :=
  let blockPtr := m.startAddress
  let stride := m.blockSize + 4
  let total := m.blockTotalCount
  let m := linkBlocks blockPtr stride m total.toNat
  let m := m.setWord (blockPtr + (total - 1) * stride) 0
  { m with blockList := blockPtr }

/-- `rt_mp_init`, on a memory with some contents.  The processor divides by zero with the
result zero. -/
def rtMpInit (ram : ℕ → UInt8) (start size blockSize : UInt32) : Mempool :=
  let size := rtAlignDown size
  let blockSize := rtAlign blockSize
  let total := size / (blockSize + 4)
  initBlocks ⟨ram, start, size, blockSize, 0, total, total, 0⟩

/-- `rt_mp_create` after `rt_malloc` has returned `start` for `size` bytes. -/
def rtMpCreate (ram : ℕ → UInt8) (start blockCount blockSize : UInt32) : Option Mempool :=
  let blockSize := rtAlign blockSize
  let size := (blockSize + 4) * blockCount
  if start = 0 then none
  else some (initBlocks ⟨ram, start, size, blockSize, 0, blockCount, blockCount, 0⟩)

/-- `rt_mp_alloc` from its comment "memory block is available" on, for the pool at the address
`mp`; `none` for a failed `RT_ASSERT`. -/
def take (mp : UInt32) (m : Mempool) : Option (Mempool × UInt32) :=
  let blockPtr := m.blockList
  if blockPtr = 0 then none
  else
    let m := { m with
      blockFreeCount := m.blockFreeCount - 1
      blockList := m.word blockPtr }
    some (m.setWord blockPtr mp, blockPtr + 4)

/-- The pool that `rt_mp_free` finds for a block. -/
def owner (m : Mempool) (block : UInt32) : UInt32 := m.word (block - 4)

/-- `rt_mp_free` up to its test of `suspend_thread_count`. -/
def give (block : UInt32) (m : Mempool) : Mempool :=
  let blockPtr := block - 4
  let m := { m with blockFreeCount := m.blockFreeCount + 1 }
  { m.setWord blockPtr m.blockList with blockList := blockPtr }

/-! ### The words of the memory -/

variable {m : Mempool} {a b v start size blockSize blockCount : UInt32}

theorem word_setWord_self (a v : UInt32) (m : Mempool) : (m.setWord a v).word a = v := by
  have hload := load_store_self m.ram a.toNat (n := 4) v.toNat_lt
  unfold word setWord
  rw [hload]
  exact UInt32.ofNat_toNat

theorem word_setWord_of_disjoint (h : a.toNat + 4 ≤ b.toNat ∨ b.toNat + 4 ≤ a.toNat) :
    (m.setWord a v).word b = m.word b := by
  unfold word setWord
  rw [load_store_of_disjoint h]

/-- The pool that is created is the one that `rt_mp_init` makes of the same memory, unless its
size wraps around. -/
theorem rtMpCreate_eq (hstart : start ≠ 0) (ram : ℕ → UInt8)
    (hfits : (rtAlign blockSize + 4).toNat * blockCount.toNat < 2 ^ 32)
    (hpos : rtAlign blockSize + 4 ≠ 0) :
    rtMpCreate ram start blockCount blockSize =
      some (rtMpInit ram start ((rtAlign blockSize + 4) * blockCount) blockSize) := by
  obtain ⟨stride, hstride⟩ : ∃ stride, stride = rtAlign blockSize + 4 := ⟨_, rfl⟩
  rw [← hstride] at hfits hpos
  have hprod : (stride * blockCount).toNat = stride.toNat * blockCount.toNat := by
    rw [UInt32.toNat_mul, mod_eq_of_lt hfits]
  have hsize : rtAlignDown (stride * blockCount) = stride * blockCount := by
    have hmod : stride.toNat % 4 = 0 := by
      have h4 : (4 : UInt32).toNat = 4 := rfl
      have hblock := rtAlign_mod blockSize
      rw [hstride, UInt32.toNat_add, h4]
      omega
    have hdvd : 4 ∣ stride.toNat * blockCount.toNat :=
      Dvd.dvd.mul_right (dvd_of_mod_eq_zero hmod) _
    apply UInt32.toNat_inj.1
    rw [toNat_rtAlignDown, hprod, Nat.div_mul_cancel hdvd]
  have htotal : stride * blockCount / stride = blockCount := by
    apply UInt32.toNat_inj.1
    have hne : 0 < stride.toNat := Nat.pos_of_ne_zero fun h => hpos (UInt32.toNat_inj.1 h)
    rw [UInt32.toNat_div, hprod, Nat.mul_div_cancel_left _ hne]
  unfold rtMpCreate rtMpInit
  dsimp only
  rw [if_neg hstart, ← hstride, hsize, htotal]

end Mempool

end RtThread
