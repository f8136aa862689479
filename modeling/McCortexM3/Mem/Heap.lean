import McCortexM3.ByteMemory
import McCortexM3.Mem.Align

/-!
# The heap of `mem.c`

The functions of `mem.c` over a memory of bytes, for `RT_ALIGN_SIZE` 4 and without
`RT_USING_MEMTRACE`.  A pointer is the address that it holds, `0` for `RT_NULL`.  Each call is
whole, as `heap_sem` lets one thread at a time into the heap.

`none` stands for a failed `RT_ASSERT` or for a loop that takes more rounds than it is given.

## Main definitions

* `Heap` — the memory and the variables of `mem.c`.
* `plugHoles`, `rtSystemHeapInit`, `rtMalloc`, `rtRealloc`, `rtCalloc`, `rtFree` — the functions.
-/

set_option linter.all false

namespace RtThread

open ByteMemory

/-- The memory and the variables `heap_ptr`, `heap_end`, `lfree`, `mem_size_aligned`, `used_mem`
and `max_mem`. -/
structure Heap where
  ram : ℕ → UInt8
  heapPtr : UInt32
  heapEnd : UInt32
  lfree : UInt32
  memSizeAligned : UInt32
  usedMem : UInt32
  maxMem : UInt32

/-- `HEAP_MAGIC`. -/
def heapMagic : UInt16 := 0x1ea0

/-- `SIZEOF_STRUCT_MEM`. -/
def sizeofStructMem : UInt32 := 12

/-- `MIN_SIZE`. -/
def minSize : UInt32 := 12

/-- `MIN_SIZE_ALIGNED`. -/
def minSizeAligned : UInt32 := 12

namespace Heap

/-! ### `struct heap_mem` -/

/-- `&heap_ptr[ptr]`. -/
def block (h : Heap) (ptr : UInt32) : UInt32 := h.heapPtr + ptr

/-- `mem->magic`. -/
def magic (h : Heap) (mem : UInt32) : UInt16 := .ofNat (load h.ram mem.toNat 2)

/-- `mem->used`. -/
def used (h : Heap) (mem : UInt32) : UInt16 := .ofNat (load h.ram (mem.toNat + 2) 2)

/-- `mem->next`. -/
def next (h : Heap) (mem : UInt32) : UInt32 := .ofNat (load h.ram (mem.toNat + 4) 4)

/-- `mem->prev`. -/
def prev (h : Heap) (mem : UInt32) : UInt32 := .ofNat (load h.ram (mem.toNat + 8) 4)

def setMagic (mem : UInt32) (v : UInt16) (h : Heap) : Heap :=
  { h with ram := store h.ram mem.toNat 2 v.toNat }

def setUsed (mem : UInt32) (v : UInt16) (h : Heap) : Heap :=
  { h with ram := store h.ram (mem.toNat + 2) 2 v.toNat }

def setNext (mem : UInt32) (v : UInt32) (h : Heap) : Heap :=
  { h with ram := store h.ram (mem.toNat + 4) 4 v.toNat }

def setPrev (mem : UInt32) (v : UInt32) (h : Heap) : Heap :=
  { h with ram := store h.ram (mem.toNat + 8) 4 v.toNat }

/-- The four assignments that create a `struct heap_mem`. -/
def create (mem : UInt32) (used : UInt16) (next prev : UInt32) (h : Heap) : Heap :=
  (((h.setMagic mem heapMagic).setUsed mem used).setNext mem next).setPrev mem prev

/-- `used_mem += size; if (max_mem < used_mem) max_mem = used_mem`. -/
def account (size : UInt32) (h : Heap) : Heap :=
  { h with
    usedMem := h.usedMem + size
    maxMem := if h.maxMem < h.usedMem + size then h.usedMem + size else h.maxMem }

/-- `rt_system_heap_init` for a memory with some contents, or `none` when it rejects the
region. -/
def rtSystemHeapInit (ram : ℕ → UInt8) (beginAddr endAddr : UInt32) : Option Heap :=
  let beginAlign := rtAlign beginAddr
  let endAlign := rtAlignDown endAddr
  if endAlign > 2 * sizeofStructMem ∧ endAlign - 2 * sizeofStructMem ≥ beginAlign then
    let memSizeAligned := endAlign - beginAlign - 2 * sizeofStructMem
    let heapEnd := beginAlign + (memSizeAligned + sizeofStructMem)
    let h : Heap := ⟨ram, beginAlign, heapEnd, beginAlign, memSizeAligned, 0, 0⟩
    some ((h.create beginAlign 0 (memSizeAligned + sizeofStructMem) 0).create heapEnd 1
      (memSizeAligned + sizeofStructMem) (memSizeAligned + sizeofStructMem))
  else none

/-! ### `plug_holes` -/

/-- The free block `mem` takes the free block `nmem` behind it in: the two branches of
`plug_holes`. -/
def combine (mem nmem : UInt32) (h : Heap) : Heap :=
  let h := if h.lfree = nmem then { h with lfree := mem } else h
  let h := h.setNext mem (h.next nmem)
  h.setPrev (h.block (h.next nmem)) (mem - h.heapPtr)

/-- Plug hole forward. -/
def plugForward (mem : UInt32) (h : Heap) : Heap :=
  let nmem := h.block (h.next mem)
  if mem ≠ nmem ∧ h.used nmem = 0 ∧ nmem ≠ h.heapEnd then h.combine mem nmem else h

/-- Plug hole backward. -/
def plugBackward (mem : UInt32) (h : Heap) : Heap :=
  let pmem := h.block (h.prev mem)
  if pmem ≠ mem ∧ h.used pmem = 0 then h.combine pmem mem else h

/-- `plug_holes`. -/
def plugHoles (mem : UInt32) (h : Heap) : Option Heap :=
  if h.heapPtr ≤ mem ∧ mem < h.heapEnd ∧ h.used mem = 0 then
    some ((h.plugForward mem).plugBackward mem)
  else none

/-! ### `rt_malloc` -/

/-- The search of `rt_malloc` from `ptr` on: the offset of the block that is found, if one
is. -/
def mallocSearch (h : Heap) (size : UInt32) : ℕ → UInt32 → Option (Option UInt32)
  | 0, _ => none
  | fuel + 1, ptr =>
    if ptr < h.memSizeAligned - size then
      if h.used (h.block ptr) = 0 ∧ h.next (h.block ptr) - (ptr + sizeofStructMem) ≥ size then
        some (some ptr)
      else mallocSearch h size fuel (h.next (h.block ptr))
    else some none

/-- `if (mem2->next != mem_size_aligned + SIZEOF_STRUCT_MEM)
((struct heap_mem *)&heap_ptr[mem2->next])->prev = ptr2`, for the new block `mem2`. -/
def linkBack (ptr2 : UInt32) (h : Heap) : Heap :=
  let next := h.next (h.block ptr2)
  if next ≠ h.memSizeAligned + sizeofStructMem then h.setPrev (h.block next) ptr2 else h

/-- The block that has been found becomes used, and the rest of it a block if it is large
enough. -/
def mallocTake (ptr size : UInt32) (h : Heap) : Heap :=
  let mem := h.block ptr
  let h :=
    if h.next mem - (ptr + sizeofStructMem) ≥ size + sizeofStructMem + minSizeAligned then
      let ptr2 := ptr + sizeofStructMem + size
      let h := h.create (h.block ptr2) 0 (h.next mem) ptr
      let h := (h.setNext mem ptr2).setUsed mem 1
      (h.linkBack ptr2).account (size + sizeofStructMem)
    else
      let h := h.setUsed mem 1
      h.account (h.next mem - (mem - h.heapPtr))
  h.setMagic mem heapMagic

/-- The loop that looks for the next free block, from the block `p` on. -/
def nextFree (h : Heap) : ℕ → UInt32 → Option UInt32
  | 0, _ => none
  | fuel + 1, p =>
    if h.used p ≠ 0 ∧ p ≠ h.heapEnd then nextFree h fuel (h.block (h.next p)) else some p

/-- `lfree` is updated when the block that it points to has been taken. -/
def mallocLfree (fuel : ℕ) (mem : UInt32) (h : Heap) : Option Heap :=
  if mem = h.lfree then
    (h.nextFree fuel h.lfree).map fun p => { h with lfree := p }
  else some h

/-- `rt_malloc`. -/
def rtMalloc (fuel : ℕ) (size : UInt32) (h : Heap) : Option (Heap × UInt32) :=
  if size = 0 then some (h, 0)
  else
    let size := rtAlign size
    if size > h.memSizeAligned then some (h, 0)
    else
      let size := if size < minSizeAligned then minSizeAligned else size
      (h.mallocSearch size fuel (h.lfree - h.heapPtr)).bind fun
        | none => some (h, 0)
        | some ptr =>
          let mem := h.block ptr
          ((h.mallocTake ptr size).mallocLfree fuel mem).bind fun h =>
            if mem + sizeofStructMem + size ≤ h.heapEnd ∧ (mem + sizeofStructMem) % 4 = 0 ∧
                mem &&& (4 - 1) = 0 then
              some (h, mem + sizeofStructMem)
            else none

/-! ### `rt_free`, `rt_realloc` and `rt_calloc` -/

/-- `rt_free`. -/
def rtFree (rmem : UInt32) (h : Heap) : Option Heap :=
  if rmem = 0 then some h
  else if rmem &&& (4 - 1) = 0 ∧ rmem ≥ h.heapPtr ∧ rmem < h.heapEnd then
    let mem := rmem - sizeofStructMem
    if h.used mem ≠ 0 ∧ h.magic mem = heapMagic then
      let h := (h.setUsed mem 0).setMagic mem heapMagic
      let h := if mem < h.lfree then { h with lfree := mem } else h
      let h := { h with usedMem := h.usedMem - (h.next mem - (mem - h.heapPtr)) }
      h.plugHoles mem
    else none
  else none

/-- The split of the block at `ptr` in `rt_realloc`, whose first part is to have the size
`newsize`. -/
def reallocSplit (ptr size newsize : UInt32) (h : Heap) : Option Heap :=
  let mem := h.block ptr
  let h := { h with usedMem := h.usedMem - (size - newsize) }
  let ptr2 := ptr + sizeofStructMem + newsize
  let h := h.create (h.block ptr2) 0 (h.next mem) ptr
  let h := (h.setNext mem ptr2).linkBack ptr2
  h.plugHoles (h.block ptr2)

/-- `rt_realloc`. -/
def rtRealloc (fuel : ℕ) (rmem newsize : UInt32) (h : Heap) : Option (Heap × UInt32) :=
  let newsize := rtAlign newsize
  if newsize > h.memSizeAligned then some (h, 0)
  else if newsize = 0 then (h.rtFree rmem).map fun h => (h, 0)
  else if rmem = 0 then h.rtMalloc fuel newsize
  else if rmem < h.heapPtr ∨ rmem ≥ h.heapEnd then some (h, rmem)
  else
    let mem := rmem - sizeofStructMem
    let ptr := mem - h.heapPtr
    let size := h.next mem - ptr - sizeofStructMem
    if size = newsize then some (h, rmem)
    else if newsize + sizeofStructMem + minSize < size then
      (h.reallocSplit ptr size newsize).map fun h => (h, rmem)
    else
      (h.rtMalloc fuel newsize).bind fun (h, nmem) =>
        if nmem ≠ 0 then
          let n := if size < newsize then size else newsize
          ({ h with ram := copy h.ram nmem.toNat rmem.toNat n.toNat }.rtFree rmem).map
            fun h => (h, nmem)
        else some (h, 0)

section

variable {h : Heap} {rmem newsize size : UInt32} (hle : ¬ rtAlign newsize > h.memSizeAligned)

theorem rtRealloc_large (fuel : ℕ) (rmem : UInt32) (hgt : rtAlign newsize > h.memSizeAligned) :
    h.rtRealloc fuel rmem newsize = some (h, 0) := if_pos hgt

include hle

theorem rtRealloc_zero (fuel : ℕ) (rmem : UInt32) (hzero : rtAlign newsize = 0) :
    h.rtRealloc fuel rmem newsize = (h.rtFree rmem).map fun h => (h, 0) :=
  (if_neg hle).trans (if_pos hzero)

theorem rtRealloc_null (fuel : ℕ) (hzero : rtAlign newsize ≠ 0) :
    h.rtRealloc fuel 0 newsize = h.rtMalloc fuel (rtAlign newsize) :=
  (if_neg hle).trans ((if_neg hzero).trans (if_pos rfl))

theorem rtRealloc_block (fuel : ℕ) (hzero : rtAlign newsize ≠ 0) (hnull : rmem ≠ 0)
    (hsize : size = h.next (rmem - sizeofStructMem) - (rmem - sizeofStructMem - h.heapPtr) -
      sizeofStructMem) :
    h.rtRealloc fuel rmem newsize =
      if rmem < h.heapPtr ∨ rmem ≥ h.heapEnd then some (h, rmem)
      else if size = rtAlign newsize then some (h, rmem)
      else if rtAlign newsize + sizeofStructMem + minSize < size then
        (h.reallocSplit (rmem - sizeofStructMem - h.heapPtr) size (rtAlign newsize)).map
          fun h => (h, rmem)
      else
        (h.rtMalloc fuel (rtAlign newsize)).bind fun (h, nmem) =>
          if nmem ≠ 0 then
            let n := if size < rtAlign newsize then size else rtAlign newsize
            ({ h with ram := copy h.ram nmem.toNat rmem.toNat n.toNat }.rtFree rmem).map
              fun h => (h, nmem)
          else some (h, 0) := by
  subst hsize
  exact (if_neg hle).trans ((if_neg hzero).trans (if_neg hnull))

end

/-- `rt_calloc`. -/
def rtCalloc (fuel : ℕ) (count size : UInt32) (h : Heap) : Option (Heap × UInt32) :=
  (h.rtMalloc fuel (count * size)).map fun (h, p) =>
    if p ≠ 0 then ({ h with ram := fill h.ram p.toNat (count * size).toNat 0 }, p) else (h, p)

end Heap

end RtThread
