import McCortexM3.Mem.MemheapEffects

/-!
# Several memory heaps

The functions of `memheap.c` for `RT_USING_MEMHEAP_AS_HEAP`: `_heap` and the other memory heaps of
the object list, all of them in one memory.  `rt_malloc` goes through the heaps until one of them
has a block, and `rt_realloc` copies the bytes into another heap when the block can not grow in its
own.

`rt_malloc`, `rt_realloc` and `rt_calloc` do not take a semaphore themselves: each is a sequence of
calls of the functions of `Memheap` and of writes into a block that the caller has got.

## Main definitions

* `Memheaps` — the memory, the memory heap objects and their list.
* `rtMalloc`, `rtFree`, `rtRealloc`, `rtCalloc` — the functions.
* `MemheapsRun.step` — calls of all functions, and writes of the threads into their blocks.
-/

set_option linter.all false

namespace RtThread

open Function ByteMemory

/-- The fields of a `struct rt_memheap`. -/
structure MemheapObject where
  freeHeader : UInt32
  startAddr : UInt32
  poolSize : UInt32
  availableSize : UInt32
  maxUsedSize : UInt32
  blockList : UInt32
  freeList : UInt32

/-- The memory, the memory heap objects by their addresses, the addresses of those in the object
list, and the address of `_heap`. -/
structure Memheaps where
  ram : ℕ → UInt8
  object : UInt32 → MemheapObject
  list : List UInt32
  heap : UInt32

namespace Memheaps

/-- The memory heap at an address. -/
def memheap (s : Memheaps) (a : UInt32) : Memheap where
  ram := s.ram
  addr := a
  freeHeader := (s.object a).freeHeader
  startAddr := (s.object a).startAddr
  poolSize := (s.object a).poolSize
  availableSize := (s.object a).availableSize
  maxUsedSize := (s.object a).maxUsedSize
  blockList := (s.object a).blockList
  freeList := (s.object a).freeList

/-- A memory heap has been changed. -/
def put (s : Memheaps) (h : Memheap) : Memheaps where
  ram := h.ram
  object := Function.update s.object h.addr ⟨h.freeHeader, h.startAddr, h.poolSize, h.availableSize,
    h.maxUsedSize, h.blockList, h.freeList⟩
  list := s.list
  heap := s.heap

/-- `item->f`. -/
def get (s : Memheaps) (item : UInt32) (f : ItemField) : UInt32 :=
  .ofNat (load s.ram (item.toNat + f.offset) 4)

/-- `RT_MEMHEAP_IS_USED(item)`. -/
def IsUsed (s : Memheaps) (item : UInt32) : Prop := s.get item .magic &&& memheapUsed ≠ 0

instance (s : Memheaps) (item : UInt32) : Decidable (s.IsUsed item) :=
  inferInstanceAs (Decidable (_ ≠ _))

/-- `MEMITEM_SIZE` of the item of a block. -/
def size (s : Memheaps) (ptr : UInt32) : UInt32 :=
  s.get (ptr - memheapSize) .next - (ptr - memheapSize) - memheapSize

/-- `pool_ptr` of the item of a block. -/
def pool (s : Memheaps) (ptr : UInt32) : UInt32 := s.get (ptr - memheapSize) .poolPtr

/-! ### The functions -/

/-- `rt_memheap_init`, with the object inserted into the object list. -/
def rtMemheapInit (addr freeHeader startAddr size : UInt32) (s : Memheaps) : Memheaps :=
  { s.put (Memheap.rtMemheapInit s.ram addr freeHeader startAddr size) with list := addr :: s.list }

/-- `rt_memheap_alloc(a, size)`, with the assertion that `a` is a memory heap. -/
def rtMemheapAlloc (fuel : ℕ) (a size : UInt32) (s : Memheaps) : Option (Memheaps × UInt32) :=
  if a ∈ s.list then
    ((s.memheap a).rtMemheapAlloc fuel size).map fun (h, ptr) => (s.put h, ptr)
  else none

/-- `rt_memheap_realloc(a, ptr, newsize)`. -/
def rtMemheapRealloc (fuel : ℕ) (a ptr newsize : UInt32) (s : Memheaps) :
    Option (Memheaps × UInt32) :=
  if a ∈ s.list then
    ((s.memheap a).rtMemheapRealloc fuel ptr newsize).map fun (h, ptr) => (s.put h, ptr)
  else none

/-- `rt_memheap_free`, which takes the memory heap from the item. -/
def rtMemheapFree (ptr : UInt32) (s : Memheaps) : Option Memheaps :=
  if ptr = 0 then some s
  else if s.pool ptr ∈ s.list then ((s.memheap (s.pool ptr)).rtMemheapFree ptr).map s.put
  else none

/-- The loop of `rt_malloc` over the object list. -/
def mallocOthers (fuel : ℕ) (size : UInt32) : List UInt32 → Memheaps → Option (Memheaps × UInt32)
  | [], s => some (s, 0)
  | a :: as, s =>
    -- not in the default system heap
    if a = s.heap then mallocOthers fuel size as s
    else
      (s.rtMemheapAlloc fuel a size).bind fun (s, ptr) =>
        if ptr ≠ 0 then some (s, ptr) else mallocOthers fuel size as s

/-- `rt_malloc`. -/
def rtMalloc (fuel : ℕ) (size : UInt32) (s : Memheaps) : Option (Memheaps × UInt32) :=
  (s.rtMemheapAlloc fuel s.heap size).bind fun (s, ptr) =>
    if ptr = 0 then s.mallocOthers fuel size s.list else some (s, ptr)

/-- `rt_free`. -/
def rtFree (rmem : UInt32) (s : Memheaps) : Option Memheaps := s.rtMemheapFree rmem

/-- `rt_realloc`. -/
def rtRealloc (fuel : ℕ) (rmem newsize : UInt32) (s : Memheaps) : Option (Memheaps × UInt32) :=
  if rmem = 0 then s.rtMalloc fuel newsize
  else if newsize = 0 then (s.rtFree rmem).map fun s => (s, 0)
  else
    (s.rtMemheapRealloc fuel (s.pool rmem) rmem newsize).bind fun (s, new) =>
      if new = 0 ∧ newsize ≠ 0 then
        (s.rtMalloc fuel newsize).bind fun (s, new) =>
          if new ≠ 0 ∧ rmem ≠ 0 then
            let oldsize := s.size rmem
            let n := if newsize > oldsize then oldsize else newsize
            ({ s with ram := copy s.ram new.toNat rmem.toNat n.toNat }.rtFree rmem).map
              fun s => (s, new)
          else some (s, new)
      else some (s, new)

/-- `rt_calloc`. -/
def rtCalloc (fuel : ℕ) (count size : UInt32) (s : Memheaps) : Option (Memheaps × UInt32) :=
  (s.rtMalloc fuel (count * size)).map fun (s, ptr) =>
    if ptr ≠ 0 then ({ s with ram := fill s.ram ptr.toNat (count * size).toNat 0 }, ptr)
    else (s, ptr)

/-- `rt_system_heap_init`, before there is any other memory heap. -/
def rtSystemHeapInit (ram : ℕ → UInt8) (object : UInt32 → MemheapObject)
    (heap freeHeader beginAddr endAddr : UInt32) : Memheaps :=
  Memheaps.rtMemheapInit heap freeHeader beginAddr (endAddr - beginAddr) ⟨ram, object, [], heap⟩

/-! ### Items and heaps -/

variable {s : Memheaps} {h : Memheap} {a b item ptr : UInt32} {f : ItemField}

@[simp] theorem list_put (s : Memheaps) (h : Memheap) : (s.put h).list = s.list := rfl

theorem memheap_put_self (ha : h.addr = a) : (s.put h).memheap a = h := by
  subst ha
  simp only [memheap, put, update_self]

theorem memheap_put_of_ne (hb : b ≠ h.addr) :
    (s.put h).memheap b = { s.memheap b with ram := h.ram } := by
  simp only [memheap, put, update_of_ne hb]

end Memheaps

/-! ### Runs -/

namespace Memheap

/-- Two memory heaps and their `free_header`s do not overlap. -/
structure Apart (h k : Memheap) : Prop where
  headers : h.freeList.toNat + 24 ≤ k.freeList.toNat ∨ k.freeList.toNat + 24 ≤ h.freeList.toNat
  left : h.freeList.toNat + 24 ≤ k.startAddr.toNat ∨
    k.startAddr.toNat + k.poolSize.toNat ≤ h.freeList.toNat
  right : k.freeList.toNat + 24 ≤ h.startAddr.toNat ∨
    h.startAddr.toNat + h.poolSize.toNat ≤ k.freeList.toNat
  regions : h.startAddr.toNat + h.poolSize.toNat ≤ k.startAddr.toNat ∨
    k.startAddr.toNat + k.poolSize.toNat ≤ h.startAddr.toNat

instance (h k : Memheap) : Decidable (h.Apart k) :=
  decidable_of_iff ((_ ∨ _) ∧ (_ ∨ _) ∧ (_ ∨ _) ∧ (_ ∨ _))
    ⟨fun ⟨h₁, h₂, h₃, h₄⟩ => ⟨h₁, h₂, h₃, h₄⟩, fun ⟨h₁, h₂, h₃, h₄⟩ => ⟨h₁, h₂, h₃, h₄⟩⟩

end Memheap

instance (freeHeader startAddr size : UInt32) :
    Decidable (MemheapRun.Region freeHeader startAddr size) :=
  decidable_of_iff (_ ∧ _ ∧ (_ ∨ _))
    ⟨fun ⟨h₁, h₂, h₃⟩ => ⟨h₁, h₂, h₃⟩, fun ⟨h₁, h₂, h₃⟩ => ⟨h₁, h₂, h₃⟩⟩

/-- What can happen next: a call, or a thread writes a byte. -/
inductive MemheapsAction
  | init (addr freeHeader startAddr size : UInt32)
  | memheapAlloc (a size : UInt32)
  | memheapRealloc (a ptr newsize : UInt32)
  | malloc (size : UInt32)
  | realloc (rmem newsize : UInt32)
  | calloc (count size : UInt32)
  | free (rmem : UInt32)
  | write (a : ℕ) (b : UInt8)

/-- The memory heaps, and the pointers that have been returned and not given back. -/
structure MemheapsRun where
  sys : Memheaps
  live : List UInt32

namespace MemheapsRun

open MemheapRun

/-- The memory of a new heap belongs to none of the heaps that there are. -/
def Fresh (s : Memheaps) (addr freeHeader startAddr size : UInt32) : Prop :=
  addr ∉ s.list ∧ Region freeHeader startAddr size ∧
    ∀ a ∈ s.list, (Memheap.rtMemheapInit s.ram addr freeHeader startAddr size).Apart (s.memheap a)

instance (s : Memheaps) (addr freeHeader startAddr size : UInt32) :
    Decidable (Fresh s addr freeHeader startAddr size) :=
  @instDecidableAnd _ _ inferInstance (@instDecidableAnd _ _ inferInstance (List.decidableBAll ..))

/-- The address `a` is in the payload of a block that a thread has got. -/
def InBlock (s : MemheapsRun) (a : ℕ) : Prop :=
  ∃ p ∈ s.live, p.toNat ≤ a ∧ a < p.toNat + (s.sys.size p).toNat

instance (s : MemheapsRun) (a : ℕ) : Decidable (s.InBlock a) := by
  unfold InBlock
  infer_instance

/-- One step, if callers pass pointers that they have, to `rt_memheap_realloc` with the heap that
they are from; it shows the pointer that the call returns. -/
def step (fuel : ℕ) (s : MemheapsRun) : MemheapsAction → Option (MemheapsRun × List UInt32)
  | .init addr freeHeader startAddr size =>
    if Fresh s.sys addr freeHeader startAddr size then
      some (⟨s.sys.rtMemheapInit addr freeHeader startAddr size, s.live⟩, [])
    else none
  | .memheapAlloc a size =>
    (s.sys.rtMemheapAlloc fuel a size).map fun (t, p) => (⟨t, handOut p s.live⟩, [p])
  | .memheapRealloc a ptr newsize =>
    if ptr = 0 ∨ ptr ∈ s.live ∧ s.sys.pool ptr = a then
      (s.sys.rtMemheapRealloc fuel a ptr newsize).map fun (t, p) =>
        (⟨t, handOver ptr newsize p s.live⟩, [p])
    else none
  | .malloc size => (s.sys.rtMalloc fuel size).map fun (t, p) => (⟨t, handOut p s.live⟩, [p])
  | .realloc rmem newsize =>
    if rmem = 0 ∨ rmem ∈ s.live then
      (s.sys.rtRealloc fuel rmem newsize).map fun (t, p) =>
        (⟨t, if rmem = 0 then handOut p s.live else handOver rmem newsize p s.live⟩, [p])
    else none
  | .calloc count size =>
    (s.sys.rtCalloc fuel count size).map fun (t, p) => (⟨t, handOut p s.live⟩, [p])
  | .free rmem =>
    if rmem = 0 ∨ rmem ∈ s.live then
      (s.sys.rtFree rmem).map fun t => (⟨t, s.live.erase rmem⟩, [])
    else none
  | .write a b =>
    if s.InBlock a then some (⟨{ s.sys with ram := Function.update s.sys.ram a b }, s.live⟩, [])
    else none

/-- When the block behind it is free, a block is not to grow to a size for which
`newsize + RT_MEMHEAP_MINIALLOC` wraps around. -/
def GrowFits (s : Memheaps) (ptr newsize : UInt32) : Prop :=
  ptr ≠ 0 → ¬ s.IsUsed (s.get (ptr - memheapSize) .next) →
    (memheapAlign newsize).toNat + 12 < 2 ^ 32

instance (s : Memheaps) (ptr newsize : UInt32) : Decidable (GrowFits s ptr newsize) := by
  unfold GrowFits
  infer_instance

/-- The sizes do not wrap around in a call. -/
def Fits (s : MemheapsRun) : MemheapsAction → Prop
  | .memheapRealloc _ ptr newsize => GrowFits s.sys ptr newsize
  | .realloc rmem newsize => GrowFits s.sys rmem newsize
  | .calloc count size => (count * size).toNat + 3 < 2 ^ 32
  | _ => True

instance (s : MemheapsRun) (a : MemheapsAction) : Decidable (s.Fits a) := by
  unfold Fits
  split <;> infer_instance

end MemheapsRun

end RtThread
