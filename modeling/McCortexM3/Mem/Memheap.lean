import McCortexM3.ByteMemory
import McCortexM3.Mem.Align

/-!
# The memory heap of `memheap.c`

The functions of `memheap.c` over a memory of bytes, for `RT_ALIGN_SIZE` 4 and pointers of 32
bits.  A pointer is the address that it holds, `0` for `RT_NULL`.  The memory holds the items of
the region and the `free_header` of the memory heap object; the other fields of the object are
those of `Memheap`.

A function holds the semaphore of the heap from its first look at the items to its last, but
for the branch of `rt_memheap_realloc` that moves a block: it calls `rt_memheap_alloc`, copies the
bytes, and calls `rt_memheap_free`, each of which takes the semaphore for itself.

`none` stands for a failed `RT_ASSERT` or for a loop that takes more rounds than it is given.

## Main definitions

* `Memheap` — the memory heap object and the memory.
* `rtMemheapInit`, `rtMemheapAlloc`, `rtMemheapRealloc`, `rtMemheapFree` — the functions.
-/

set_option linter.all false

namespace RtThread

open ByteMemory

/-- The fields of a `struct rt_memheap_item`. -/
inductive ItemField
  | magic
  | poolPtr
  | next
  | prev
  | nextFree
  | prevFree
  deriving DecidableEq

/-- The offset of a field in its item. -/
def ItemField.offset : ItemField → ℕ
  | magic => 0
  | poolPtr => 4
  | next => 8
  | prev => 12
  | nextFree => 16
  | prevFree => 20

/-- The memory, and a `struct rt_memheap` at the address `addr`, whose `free_header` is at the
address `freeHeader`. -/
structure Memheap where
  ram : ℕ → UInt8
  addr : UInt32
  freeHeader : UInt32
  startAddr : UInt32
  poolSize : UInt32
  availableSize : UInt32
  maxUsedSize : UInt32
  blockList : UInt32
  freeList : UInt32

/-- `RT_MEMHEAP_MAGIC`. -/
def memheapMagic : UInt32 := 0x1ea01ea0

/-- `RT_MEMHEAP_MASK`. -/
def memheapMask : UInt32 := 0xfffffffe

/-- `RT_MEMHEAP_USED`. -/
def memheapUsed : UInt32 := 1

/-- `RT_MEMHEAP_MINIALLOC`. -/
def memheapMinialloc : UInt32 := 12

/-- `RT_MEMHEAP_SIZE`. -/
def memheapSize : UInt32 := 24

/-- The size that is allocated for `size` bytes. -/
def memheapAlign (size : UInt32) : UInt32 :=
  if rtAlign size < memheapMinialloc then memheapMinialloc else rtAlign size

namespace Memheap

/-! ### `struct rt_memheap_item` -/

/-- `item->f`. -/
def get (h : Memheap) (item : UInt32) (f : ItemField) : UInt32 :=
  .ofNat (load h.ram (item.toNat + f.offset) 4)

/-- `item->f = v`. -/
def set (item : UInt32) (f : ItemField) (v : UInt32) (h : Memheap) : Memheap :=
  { h with ram := store h.ram (item.toNat + f.offset) 4 v.toNat }

/-- `RT_MEMHEAP_IS_USED(item)`. -/
def IsUsed (h : Memheap) (item : UInt32) : Prop := h.get item .magic &&& memheapUsed ≠ 0

instance (h : Memheap) (item : UInt32) : Decidable (h.IsUsed item) :=
  inferInstanceAs (Decidable (_ ≠ _))

/-- `MEMITEM_SIZE(item)`. -/
def memitemSize (h : Memheap) (item : UInt32) : UInt32 := h.get item .next - item - memheapSize

/-- `max_used_size` when `available_size` has got smaller. -/
def updateMaxUsed (h : Memheap) : Memheap :=
  if h.poolSize - h.availableSize > h.maxUsedSize then
    { h with maxUsedSize := h.poolSize - h.availableSize }
  else h

/-- The block `item` gets the first of the free list. -/
def linkFree (item : UInt32) (h : Memheap) : Memheap :=
  let h := h.set item .nextFree (h.get h.freeList .nextFree)
  let h := h.set item .prevFree h.freeList
  let h := h.set (h.get h.freeList .nextFree) .prevFree item
  h.set h.freeList .nextFree item

/-- The block `item` is removed from the free list. -/
def unlinkFree (item : UInt32) (h : Memheap) : Memheap :=
  let h := h.set (h.get item .nextFree) .prevFree (h.get item .prevFree)
  h.set (h.get item .prevFree) .nextFree (h.get item .nextFree)

/-- A free block is made at `new`, inside of the block `header` or behind it. -/
def makeBlock (header new : UInt32) (h : Memheap) : Memheap :=
  let h := h.set new .magic memheapMagic
  let h := h.set new .poolPtr h.addr
  let h := h.set new .prev header
  let h := h.set new .next (h.get header .next)
  let h := h.set (h.get header .next) .prev new
  h.set header .next new

/-- The block `header` is left out of the list of the blocks. -/
def bypassBlock (header : UInt32) (h : Memheap) : Memheap :=
  let h := h.set (h.get header .prev) .next (h.get header .next)
  h.set (h.get header .next) .prev (h.get header .prev)

/-- The same, the two assignments being made the other way round. -/
def removeBlock (item : UInt32) (h : Memheap) : Memheap :=
  let h := h.set (h.get item .next) .prev (h.get item .prev)
  h.set (h.get item .prev) .next (h.get item .next)

/-- The block `header` takes in the free block behind it. -/
def mergeNext (header : UInt32) (h : Memheap) : Memheap :=
  let next := h.get header .next
  let h := h.set (h.get next .next) .prev header
  let h := h.set header .next (h.get next .next)
  h.unlinkFree next

/-! ### `rt_memheap_init` -/

/-- The six assignments that fill an item. -/
def fillItem (item magic next prev nextFree prevFree : UInt32) (h : Memheap) : Memheap :=
  let h := h.set item .magic magic
  let h := h.set item .poolPtr h.addr
  let h := h.set item .next next
  let h := h.set item .prev prev
  let h := h.set item .nextFree nextFree
  h.set item .prevFree prevFree

/-- `rt_memheap_init` for a memory with some contents. -/
def rtMemheapInit (ram : ℕ → UInt8) (addr freeHeader startAddr size : UInt32) : Memheap :=
  let poolSize := rtAlignDown size
  let availableSize := poolSize - 2 * memheapSize
  let h : Memheap := ⟨ram, addr, freeHeader, startAddr, poolSize, availableSize,
    poolSize - availableSize, startAddr, freeHeader⟩
  let h := h.fillItem freeHeader memheapMagic 0 0 freeHeader freeHeader
  -- the first big memory block
  let item := startAddr
  let h := h.fillItem item memheapMagic 0 0 item item
  let h := h.set item .next (item + availableSize + memheapSize)
  let h := h.set item .prev (h.get item .next)
  let h := h.linkFree item
  -- the tailer, which is never merged
  let item := h.get item .next
  h.fillItem item (memheapMagic ||| memheapUsed) startAddr startAddr 0 0

/-! ### `rt_memheap_alloc` -/

/-- The search in the free list: the item where it ends, and the size that it has seen last. -/
def allocSearch (h : Memheap) (size : UInt32) :
    ℕ → UInt32 → UInt32 → Option (UInt32 × UInt32)
  | 0, _, _ => none
  | fuel + 1, header, freeSize =>
    if header ≠ h.freeList ∧ freeSize < size then
      let freeSize := h.memitemSize header
      if freeSize < size then allocSearch h size fuel (h.get header .nextFree) freeSize
      else allocSearch h size fuel header freeSize
    else some (header, freeSize)

/-- The block `header` is removed from the free list, and its free pointers are cleared. -/
def takeFree (header : UInt32) (h : Memheap) : Memheap :=
  let h := h.unlinkFree header
  let h := h.set header .nextFree 0
  h.set header .prevFree 0

/-- The block that has been found is split, if the rest of it is large enough, and leaves the free
list. -/
def allocCut (header size freeSize : UInt32) (h : Memheap) : Memheap :=
  if freeSize ≥ size + memheapSize + memheapMinialloc then
    let new := header + size + memheapSize
    let h := ((h.makeBlock header new).takeFree header).linkFree new
    { h with availableSize := h.availableSize - size - memheapSize }.updateMaxUsed
  else { h with availableSize := h.availableSize - freeSize }.updateMaxUsed.takeFree header

/-- The block that has been found is marked as used as well. -/
def allocTake (header size freeSize : UInt32) (h : Memheap) : Memheap :=
  let h := h.allocCut header size freeSize
  h.set header .magic (h.get header .magic ||| memheapUsed)

/-- `rt_memheap_alloc`. -/
def rtMemheapAlloc (fuel : ℕ) (size : UInt32) (h : Memheap) : Option (Memheap × UInt32) :=
  let size := memheapAlign size
  if size < h.availableSize then
    (h.allocSearch size fuel (h.get h.freeList .nextFree) 0).map fun (header, freeSize) =>
      if freeSize ≥ size then (h.allocTake header size freeSize, header + memheapSize) else (h, 0)
  else some (h, 0)

/-! ### `rt_memheap_free` -/

/-- The block `header` is merged with its previous neighbour, if this one is free: the merged
block, and whether it is to be inserted into the free list. -/
def mergeLeft (header : UInt32) (h : Memheap) : Memheap × UInt32 × Bool :=
  if ¬ h.IsUsed (h.get header .prev) then
    let h := { h with availableSize := h.availableSize + memheapSize }.bypassBlock header
    (h, h.get header .prev, false)
  else (h, header, true)

/-- The block `header` is merged with its next neighbour, if this one is free. -/
def mergeRight (header : UInt32) (h : Memheap) : Memheap :=
  if ¬ h.IsUsed (h.get header .next) then
    { h with availableSize := h.availableSize + memheapSize }.mergeNext header
  else h

/-- `rt_memheap_free`. -/
def rtMemheapFree (ptr : UInt32) (h : Memheap) : Option Memheap :=
  if ptr = 0 then some h
  else
    let header := ptr - memheapSize
    if h.get header .magic &&& memheapMask = memheapMagic ∧ h.IsUsed header ∧
        h.get (h.get header .next) .magic &&& memheapMask = memheapMagic ∧
        h.get header .poolPtr = h.addr then
      let h := h.set header .magic (h.get header .magic &&& ~~~memheapUsed)
      let h := { h with availableSize := h.availableSize + h.memitemSize header }
      let (h, header, insertHeader) := h.mergeLeft header
      let h := h.mergeRight header
      some (if insertHeader then h.linkFree header else h)
    else none

/-! ### `rt_memheap_realloc` -/

/-- The block `header` is made larger by a part of the free block behind it, the rest of which is
made a block again. -/
def growInPlace (header ptr oldsize newsize : UInt32) (h : Memheap) : Memheap :=
  let h := { h with availableSize := h.availableSize - (newsize - oldsize) }.updateMaxUsed
  let next := h.get header .next
  let h := (h.unlinkFree next).removeBlock next
  (h.makeBlock header (ptr + newsize)).linkFree (ptr + newsize)

/-- The block `header` is made smaller; the rest of it is merged with the block behind it, if
this one is free. -/
def shrinkInPlace (header newsize : UInt32) (h : Memheap) : Memheap :=
  let new := header + newsize + memheapSize
  let h := h.makeBlock header new
  let h :=
    if ¬ h.IsUsed (h.get new .next) then
      { h with
        availableSize := h.availableSize - h.memitemSize (h.get new .next) }.mergeNext new
    else h
  let h := h.linkFree new
  { h with availableSize := h.availableSize + h.memitemSize new }

/-- `rt_memheap_realloc`. -/
def rtMemheapRealloc (fuel : ℕ) (ptr newsize : UInt32) (h : Memheap) : Option (Memheap × UInt32) :=
  if newsize = 0 then (h.rtMemheapFree ptr).map fun h => (h, 0)
  else
    let newsize := memheapAlign newsize
    if ptr = 0 then h.rtMemheapAlloc fuel newsize
    else
      let header := ptr - memheapSize
      let oldsize := h.memitemSize header
      if newsize > oldsize then
        let next := h.get header .next
        if next > header then
          if ¬ h.IsUsed next ∧ h.memitemSize next + oldsize > newsize + memheapMinialloc then
            some (h.growInPlace header ptr oldsize newsize, ptr)
          else
            (h.rtMemheapAlloc fuel newsize).bind fun (h, new) =>
              if new ≠ 0 then
                let n := if oldsize < newsize then oldsize else newsize
                ({ h with ram := copy h.ram new.toNat ptr.toNat n.toNat }.rtMemheapFree ptr).map
                  fun h => (h, new)
              else some (h, 0)
        else none
      else if newsize + memheapSize + memheapMinialloc ≥ oldsize then some (h, ptr)
      else some (h.shrinkInPlace header newsize, ptr)

end Memheap

end RtThread
