import McCortexM3.Run
import McCortexM3.PlaceRuns

/-!
# The slab heap

`slab.c`: the pages of the heap are given out in runs.  A zone is a run of pages cut into chunks of
one size; zones with a free chunk are in a list for their size, zones that have become free are kept
in a list of their own or given back.  Each entry of `memusage` says what a page is used for.

Addresses are offsets from the beginning of the heap.  Each operation is a number of sections in
which it holds `heap_sem`.

## Main definitions

* `SlabConfig`, `zoneindex` — the sizes.
* `rtPageAlloc`, `rtPageFree` — the page allocator.
* `Slab.section` — the sections of the operations.
* `SlabSys.step`, `SlabSys.boot` — any number of operations at once.
-/

set_option linter.all false

namespace RtThread

open Function (update)

/-- `RT_MM_PAGE_SIZE`. -/
def rtMmPageSize : ℕ := 4096

/-- `NZONES`. -/
def nzones : ℕ := 72

/-- `ZONE_RELEASE_THRESH`. -/
def zoneReleaseThresh : ℕ := 2

/-- `sizeof(slab_zone)`. -/
def sizeofSlabZone : ℕ := 36

/-- `MIN_CHUNK_SIZE`. -/
def minChunkSize : ℕ := 8

/-- `(n + k - 1) & ~(k - 1)`, for a power of two `k`. -/
def roundUp (n k : ℕ) : ℕ := (n + (k - 1)) / k * k

/-- A heap of some pages. -/
structure SlabConfig where
  npages : ℕ
  pos : 0 < npages

namespace SlabConfig

variable (c : SlabConfig)

/-- `zone_size`: the minimum is doubled at most twice, up to the maximum. -/
def zoneSize : ℕ :=
  let limsize := c.npages * rtMmPageSize
  if 2 * (32 * 1024) < limsize / 1024 then
    if 2 * (2 * (32 * 1024)) < limsize / 1024 then 2 * (2 * (32 * 1024)) else 2 * (32 * 1024)
  else 32 * 1024

/-- `zone_limit`. -/
def zoneLimit : ℕ := if c.zoneSize / 4 > 16 * 1024 then 16 * 1024 else c.zoneSize / 4

/-- `zone_page_cnt`. -/
def zonePageCnt : ℕ := c.zoneSize / rtMmPageSize

/-- The pages of the array `memusage`, whose entries have four bytes. -/
def memusagePages : ℕ := roundUp (c.npages * 4) rtMmPageSize / rtMmPageSize

end SlabConfig

/-- `zoneindex`: the index, and the size of the chunks. -/
def zoneindex (n : ℕ) : ℕ × ℕ :=
  if n < 128 then (roundUp n 8 / 8 - 1, roundUp n 8)
  else if n < 256 then (roundUp n 16 / 16 + 7, roundUp n 16)
  else if n < 8192 then
    if n < 512 then (roundUp n 32 / 32 + 15, roundUp n 32)
    else if n < 1024 then (roundUp n 64 / 64 + 23, roundUp n 64)
    else if n < 2048 then (roundUp n 128 / 128 + 31, roundUp n 128)
    else if n < 4096 then (roundUp n 256 / 256 + 39, roundUp n 256)
    else (roundUp n 512 / 512 + 47, roundUp n 512)
  else if n < 16384 then (roundUp n 1024 / 1024 + 55, roundUp n 1024)
  else (0, n)

/-- `PAGE_TYPE_FREE`, `PAGE_TYPE_SMALL` and `PAGE_TYPE_LARGE`. -/
inductive PageType
  | free
  | small
  | large
  deriving DecidableEq

/-- `struct memusage`. -/
structure Memusage where
  type : PageType
  size : ℕ
  deriving DecidableEq

/-- `slab_zone`, but for the link `z_next`, and the chunks on its list; `magic` says whether
`z_magic` is right. -/
structure SlabZone where
  magic : Bool
  nfree : ℕ
  nmax : ℕ
  baseptr : ℕ
  uindex : ℕ
  chunksize : ℕ
  zoneindex : ℕ
  freechunk : List ℕ

/-- The offset of the chunks in a zone: powers of two are aligned. -/
def chunkOffset (size : ℕ) : ℕ :=
  if (size ||| (size - 1)) + 1 = 2 * size then roundUp sizeofSlabZone size
  else roundUp sizeofSlabZone minChunkSize

/-- The header of a new zone. -/
def SlabZone.init (c : SlabConfig) (z size zi : ℕ) : SlabZone :=
  let nmax := (c.zoneSize - chunkOffset size) / size
  { magic := true
    nfree := nmax - 1
    nmax := nmax
    baseptr := z * rtMmPageSize + chunkOffset size
    uindex := 0
    chunksize := size
    zoneindex := zi
    freechunk := [] }

/-! ### Pages -/

/-- The loop of `rt_page_alloc`. -/
def pageAlloc (npages : ℕ) : List PlaceRun → Option ℕ × List PlaceRun
  | [] => (none, [])
  | b :: l =>
    if b.count > npages then (some b.first, ⟨b.first + npages, b.count - npages⟩ :: l)
    else if b.count = npages then (some b.first, l)
    else ((pageAlloc npages l).1, b :: (pageAlloc npages l).2)

/-- `rt_page_alloc`: the first page, if any, and the list afterwards. -/
def rtPageAlloc (npages : ℕ) (l : List PlaceRun) : Option ℕ × List PlaceRun :=
  if npages = 0 then (none, l) else pageAlloc npages l

/-- `rt_page_free`. -/
def rtPageFree (n npages : ℕ) : List PlaceRun → List PlaceRun
  | [] => [⟨n, npages⟩]
  | b :: l =>
    if b.first + b.count = n then
      match l with
      | [] => [⟨b.first, b.count + npages⟩]
      | b' :: l' =>
        if b.first + (b.count + npages) = b'.first then
          ⟨b.first, b.count + npages + b'.count⟩ :: l'
        else ⟨b.first, b.count + npages⟩ :: b' :: l'
    else if b.first = n + npages then ⟨n, b.count + npages⟩ :: l
    else if b.first > n + npages then ⟨n, npages⟩ :: b :: l
    else b :: rtPageFree n npages l

/-! ### Sections -/

/-- An allocation: a chunk of the zone at a page, or a run of pages.  Only its address is known to
the code. -/
inductive Allocation
  | small (zone ptr : ℕ)
  | large (page n : ℕ)
  deriving DecidableEq

/-- The address of an allocation. -/
def Allocation.ptr : Allocation → ℕ
  | .small _ ptr => ptr
  | .large page _ => page * rtMmPageSize

/-- The state of the heap: `rt_page_list`, `memusage`, the headers of the zones by their first
pages, `zone_array`, `zone_free`, `zone_free_cnt`, `used_mem` and `max_mem`.  The history variable
`zones` lists the zones that are not in `zone_free`. -/
structure Slab where
  pageList : List PlaceRun
  memusage : ℕ → Memusage
  zone : ℕ → SlabZone
  zoneArray : ℕ → List ℕ
  zoneFree : List ℕ
  zoneFreeCnt : ℕ
  usedMem : UInt32
  maxMem : UInt32
  zones : List ℕ

/-- The sections of `rt_malloc`: it looks for a zone or takes pages, takes the pages of a new zone,
sets that up, and counts a large allocation. -/
inductive MallocPc
  | malloc (size : ℕ)
  | zoneAlloc (size zi : ℕ)
  | zoneInit (z size zi : ℕ)
  | largeStats (page n : ℕ)

/-- The sections of `rt_free`: it takes the memory back, and gives pages back. -/
inductive FreePc
  | free (a : Allocation)
  | pageFree (page n : ℕ)

/-- A section of `rt_malloc` is followed by another one, or the function returns. -/
inductive MallocNext
  | goto (pc : MallocPc)
  | done (r : Option Allocation)

namespace Slab

/-- The statistics of an allocation. -/
def account (s : Slab) (n : ℕ) : Slab :=
  let used := s.usedMem + UInt32.ofNat n
  { s with usedMem := used, maxMem := if used > s.maxMem then used else s.maxMem }

/-- The entries of a zone's pages, or those of pages that are given back. -/
def setUsage (s : Slab) (z count : ℕ) (f : ℕ → Memusage) : Slab :=
  { s with memusage := fun p => if z ≤ p ∧ p < z + count then f (p - z) else s.memusage p }

/-- A zone is set up for chunks of a size, of which the first one is taken. -/
def initZone (c : SlabConfig) (s : Slab) (z size zi : ℕ) : Slab × ℕ :=
  let h := SlabZone.init c z size zi
  ({ s with
    zone := update s.zone z h
    zoneArray := update s.zoneArray zi (z :: s.zoneArray zi)
    zones := z :: s.zones }.account size, h.baseptr + h.uindex * size)

/-- A chunk is taken from the first zone of a list, or `none` where it follows a null pointer. -/
def takeChunk (s : Slab) (z size zi : ℕ) (rest : List ℕ) : Option (Slab × ℕ) :=
  let h := { s.zone z with nfree := (s.zone z).nfree - 1 }
  let zoneArray := if h.nfree = 0 then update s.zoneArray zi rest else s.zoneArray
  if h.uindex + 1 ≠ h.nmax then
    let h := { h with uindex := h.uindex + 1 }
    some ({ s with zone := update s.zone z h, zoneArray := zoneArray }.account h.chunksize,
      h.baseptr + h.uindex * size)
  else
    match h.freechunk with
    | [] => none
    | chunk :: freechunk =>
      some ({ s with
        zone := update s.zone z { h with freechunk := freechunk }
        zoneArray := zoneArray }.account h.chunksize, chunk)

/-- The section of `rt_malloc` in which it looks for a zone. -/
def mallocSmall (c : SlabConfig) (s : Slab) (size zi : ℕ) : Option (Slab × MallocNext) :=
  match s.zoneArray zi with
  | z :: rest =>
    (s.takeChunk z size zi rest).map fun r => (r.1, .done (some (.small z r.2)))
  | [] =>
    match s.zoneFree with
    | z :: rest =>
      let r := { s with zoneFree := rest, zoneFreeCnt := s.zoneFreeCnt - 1 }.initZone c z size zi
      some (r.1, .done (some (.small z r.2)))
    | [] => some (s, .goto (.zoneAlloc size zi))

/-- The first section of `rt_malloc`. -/
def mallocSection (c : SlabConfig) (s : Slab) (size : ℕ) : Option (Slab × MallocNext) :=
  if size ≥ c.zoneLimit then
    -- the size is rounded up within 32 bits
    let npages := roundUp size rtMmPageSize % 2 ^ 32 / rtMmPageSize
    let r := rtPageAlloc npages s.pageList
    match r.1 with
    | none => some (s, .done none)
    | some page =>
      some ({ s with
        pageList := r.2
        memusage := update s.memusage page ⟨.large, npages⟩ },
        .goto (.largeStats page npages))
  else s.mallocSmall c (zoneindex size).2 (zoneindex size).1

/-- The end of `rt_free` of a chunk, when a zone has become free that is not the only one of its
list: it is kept, or a zone that is kept is given back. -/
def retireZone (c : SlabConfig) (s : Slab) (z : ℕ) : Slab × Option FreePc :=
  let h := s.zone z
  let s : Slab := { s with
    zone := update s.zone z { h with magic := false }
    zoneArray := update s.zoneArray h.zoneindex ((s.zoneArray h.zoneindex).erase z)
    zoneFree := z :: s.zoneFree
    zoneFreeCnt := s.zoneFreeCnt + 1
    zones := s.zones.erase z }
  if s.zoneFreeCnt > zoneReleaseThresh then
    match s.zoneFree with
    | [] => (s, none)
    | z :: rest =>
      ({ s with zoneFree := rest, zoneFreeCnt := s.zoneFreeCnt - 1 }.setUsage z c.zonePageCnt
        fun _ => ⟨.free, 0⟩, some (.pageFree z c.zonePageCnt))
  else (s, none)

/-- `rt_free` of a chunk of the zone `z`. -/
def freeSmall (c : SlabConfig) (s : Slab) (z ptr : ℕ) : Slab × Option FreePc :=
  let h := s.zone z
  let zoneArray :=
    if h.nfree = 0 then update s.zoneArray h.zoneindex (z :: s.zoneArray h.zoneindex)
    else s.zoneArray
  let h := { h with freechunk := ptr :: h.freechunk, nfree := h.nfree + 1 }
  let s : Slab := { s with
    zone := update s.zone z h
    zoneArray := zoneArray
    usedMem := s.usedMem - UInt32.ofNat h.chunksize }
  -- the zone is free, and is not the only one of its list
  if h.nfree = h.nmax ∧ s.zoneArray h.zoneindex ≠ [z] then s.retireZone c z
  else (s, none)

/-- The first section of `rt_free`. -/
def freeSection (c : SlabConfig) (s : Slab) (ptr : ℕ) : Slab × Option FreePc :=
  let page := ptr / rtMmPageSize
  let kup := s.memusage page
  if kup.type = .large then
    ({ s with
      memusage := update s.memusage page { kup with size := 0 }
      usedMem := s.usedMem - UInt32.ofNat (kup.size * rtMmPageSize) },
      some (.pageFree page kup.size))
  else s.freeSmall c (page - kup.size) ptr

/-- The sections of `rt_malloc`. -/
def mallocRun (c : SlabConfig) (s : Slab) : MallocPc → Option (Slab × MallocNext)
  | .malloc size => s.mallocSection c size
  | .zoneAlloc size zi =>
    let r := rtPageAlloc c.zonePageCnt s.pageList
    match r.1 with
    | none => some (s, .done none)
    | some z => some ({ s with pageList := r.2 }, .goto (.zoneInit z size zi))
  | .zoneInit z size zi =>
    let r := (s.setUsage z c.zonePageCnt fun off => ⟨.small, off⟩).initZone c z size zi
    some (r.1, .done (some (.small z r.2)))
  | .largeStats page n => some (s.account (n * rtMmPageSize), .done (some (.large page n)))

/-- The sections of `rt_free`. -/
def freeRun (c : SlabConfig) (s : Slab) : FreePc → Slab × Option FreePc
  | .free a => s.freeSection c a.ptr
  | .pageFree page n => ({ s with pageList := rtPageFree page n s.pageList }, none)

end Slab

/-! ### Operations -/

/-- An operation that is going on: `rt_malloc`, for `rt_realloc` with the old memory, and `rt_free`,
for `rt_realloc` with what it returns. -/
inductive SlabOp
  | malloc (pc : MallocPc) (old : Option Allocation)
  | free (pc : FreePc) (result : Option Allocation)

/-- The heap, the allocations the callers have, and the operations that are going on. -/
structure SlabSys where
  heap : Slab
  user : List Allocation
  ops : List SlabOp

/-- A function is called, or the `n`-th operation goes on. -/
inductive SlabAction
  | malloc (size : UInt32)
  | calloc (count size : UInt32)
  | realloc (p : Option Allocation) (size : UInt32)
  | free (p : Option Allocation)
  | go (n : ℕ)

/-- A function returns. -/
inductive SlabEvent
  | returned (r : Option Allocation)
  | freed

namespace SlabSys

/-- `rt_malloc` is called. -/
def callMalloc (s : SlabSys) (size : UInt32) : SlabSys × List SlabEvent :=
  if size = 0 then (s, [.returned none])
  else ({ s with ops := .malloc (.malloc size.toNat) none :: s.ops }, [])

/-- `rt_free` is called for an allocation that the caller has. -/
def callFree (s : SlabSys) (a : Allocation) : SlabSys × List SlabEvent :=
  ({ s with user := s.user.erase a, ops := .free (.free a) none :: s.ops }, [])

/-- `rt_realloc` is called for an allocation that the caller has. -/
def callRealloc (s : SlabSys) (a : Allocation) (size : UInt32) : SlabSys × List SlabEvent :=
  if size = 0 then s.callFree a
  else
    let page := a.ptr / rtMmPageSize
    let kup := s.heap.memusage page
    match kup.type with
    | .large =>
      ({ s with
        user := s.user.erase a
        ops := .malloc (.malloc size.toNat) (some a) :: s.ops }, [])
    | .small =>
      let z := s.heap.zone (page - kup.size)
      let size := (zoneindex size.toNat).2
      if z.chunksize = size then (s, [.returned (some a)])
      else
        ({ s with
          user := s.user.erase a
          ops := .malloc (.malloc size) (some a) :: s.ops }, [])
    | .free => (s, [.returned none])

/-- `rt_malloc` returns `r`, perhaps to `rt_realloc`, which then copies the old memory and frees
it. -/
def mallocDone (s : SlabSys) (old r : Option Allocation) : SlabSys × List SlabEvent :=
  match old, r with
  | some a, some b => ({ s with ops := .free (.free a) (some b) :: s.ops }, [])
  | some a, none => ({ s with user := a :: s.user }, [.returned none])
  | none, some b => ({ s with user := b :: s.user }, [.returned (some b)])
  | none, none => (s, [.returned none])

/-- `rt_free` returns, perhaps to `rt_realloc`, which returns `result`. -/
def freeDone (s : SlabSys) (result : Option Allocation) : SlabSys × List SlabEvent :=
  match result with
  | some b => ({ s with user := b :: s.user }, [.returned (some b)])
  | none => (s, [.freed])

/-- An operation goes on. -/
def goOp (c : SlabConfig) (s : SlabSys) : SlabOp → Option (SlabSys × List SlabEvent)
  | .malloc pc old =>
    (s.heap.mallocRun c pc).map fun r =>
      match r.2 with
      | .goto pc => ({ s with heap := r.1, ops := .malloc pc old :: s.ops }, [])
      | .done a => { s with heap := r.1 }.mallocDone old a
  | .free pc result =>
    let r := s.heap.freeRun c pc
    match r.2 with
    | some pc => some ({ s with heap := r.1, ops := .free pc result :: s.ops }, [])
    | none => some ({ s with heap := r.1 }.freeDone result)

/-- One step of an interleaving.  Callers pass allocations that they have. -/
def step (c : SlabConfig) (s : SlabSys) : SlabAction → Option (SlabSys × List SlabEvent)
  | .malloc size => some (s.callMalloc size)
  | .calloc count size => some (s.callMalloc (count * size))
  | .realloc none size => some (s.callMalloc size)
  | .realloc (some a) size => if a ∈ s.user then some (s.callRealloc a size) else none
  | .free none => some (s, [.freed])
  | .free (some a) => if a ∈ s.user then some (s.callFree a) else none
  | .go n => s.ops[n]?.bind fun op => { s with ops := s.ops.eraseIdx n }.goOp c op

/-- `rt_system_heap_init`.  The entries of `memusage` and the headers of the zones are what happens
to be in memory. -/
def boot (c : SlabConfig) (memusage : ℕ → Memusage) (zone : ℕ → SlabZone) : SlabSys where
  heap := {
    pageList := (rtPageAlloc c.memusagePages (rtPageFree 0 c.npages [])).2
    memusage := memusage
    zone := zone
    zoneArray := fun _ => []
    zoneFree := []
    zoneFreeCnt := 0
    usedMem := 0
    maxMem := 0
    zones := [] }
  user := []
  ops := []

end SlabSys

end RtThread
