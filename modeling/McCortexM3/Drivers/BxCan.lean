import McCortexM3.Kernel.Ffs

/-!
# The filters of the bxCAN driver

`RT_CAN_CMD_SET_FILTER` of `bxcan.c`, with the part of `CAN_FilterInit` that writes the filter
registers.  A filter is found by its handle, which is a bit of `alocmask`; the handles of a FIFO are
those of its 32-bit masks, 32-bit identifiers, 16-bit masks and 16-bit identifiers, in this order,
and the banks follow the same order.

Shifts by 32 and more give zero, as on the processor.

## Main definitions

* `BxCanConfig`, `BxCan` — the configuration and the state of a controller.
* `BxCan.bxmodifyfilter`, `BxCan.setfilter` — the requests.
-/

set_option linter.all false

namespace RtThread

/-! ### The configuration -/

/-- The value of `fcase`, from `0x00` to `0x03`. -/
inductive FilterCase
  | id16bit
  | id16mask
  | id32bit
  | id32mask
  deriving DecidableEq

/-- A `struct stm_bxcanfiltermap`. -/
structure FilterMap where
  id32maskCnt : ℕ
  id32bitCnt : ℕ
  id16maskCnt : ℕ
  id16bitCnt : ℕ

/-- `BX_CAN_FMRNUMBER`, and the constant fields of a `struct stm_bxcan`. -/
structure BxCanConfig where
  fmrNumber : ℕ
  fifo1FilterOff : ℕ
  filterMap : Bool → FilterMap

/-- The number of handles of one case. -/
def FilterMap.cnt (m : FilterMap) : FilterCase → ℕ
  | .id16bit => m.id16bitCnt
  | .id16mask => m.id16maskCnt
  | .id32bit => m.id32bitCnt
  | .id32mask => m.id32maskCnt

/-- `bxcan1data` and `bxcan2data`, with the registers of the connectivity line or without. -/
def bxcanData (connectivityLine : Bool) : BxCanConfig :=
  ⟨if connectivityLine = true then 28 else 14, 7, fun _ => ⟨0, 0, 2, 24⟩⟩

namespace BxCanConfig

/-- `BX_CAN_MAX_FILTERS`. -/
def maxFilters (c : BxCanConfig) : ℕ := c.fmrNumber * 4

/-- `BX_CAN_FILTER_MAX_ARRAY_SIZE`. -/
def arraySize (c : BxCanConfig) : ℕ := (c.maxFilters + 32 - 1) / 32

/-- The end of `bxcancalcbaseoff`, with the number of the handle in its FIFO. -/
def calcInFifo (m : FilterMap) (base hdr : ℕ) : Option (ℕ × ℕ) :=
  if hdr > m.id32maskCnt then
    let hdr := hdr - m.id32maskCnt
    let base := base + m.id32maskCnt
    if hdr > m.id32bitCnt then
      let hdr := hdr - m.id32bitCnt
      let base := base + m.id32bitCnt / 2
      if hdr > m.id16maskCnt then
        let hdr := hdr - m.id16maskCnt
        let base := base + m.id16maskCnt / 2
        if hdr > m.id16bitCnt then none else some (base + hdr / 4, hdr % 4)
      else some (base + hdr / 2, hdr % 2)
    else some (base + hdr / 2, hdr % 2)
  else some (base + hdr, 0)

/-- `bxcancalcbaseoff`: the bank of a handle, and its place in it. -/
def bxcancalcbaseoff (c : BxCanConfig) (hdr : ℕ) : Option (ℕ × ℕ) :=
  let m := c.filterMap
  let fifo0end := (m false).id32maskCnt + (m false).id32bitCnt + (m false).id16maskCnt +
    (m false).id16bitCnt
  let fifo1start := c.fifo1FilterOff * 4
  let fifo1end := fifo1start + (m true).id32maskCnt + (m true).id32bitCnt + (m true).id16maskCnt +
    (m true).id16bitCnt
  if hdr < fifo0end then calcInFifo (m false) 0 hdr
  else if fifo1start ≤ hdr ∧ hdr < fifo1end then
    calcInFifo (m true) c.fifo1FilterOff (hdr - fifo1start)
  else none

/-- The masks of the first loop of `calcandormask`. -/
def tmpMasks (count : ℕ) : List (BitVec 32) :=
  (List.range ((count + 31) / 32)).map fun i =>
    if 32 ≤ i then 0xFFFFFFFF#32 else 1#32 <<< (count - 32 * i) - 1

/-- `calcandormask` on a mask of the array size. -/
def calcandormask (c : BxCanConfig) (pmask : List (BitVec 32)) (shift count : ℕ) :
    List (BitVec 32) :=
  ((tmpMasks count).take c.arraySize).zipIdx.foldl
    (fun pmask (tmpmask, i) =>
      let pmask := pmask.set i (pmask.getD i 0 ||| tmpmask <<< shift)
      if i + 1 < c.arraySize then
        pmask.set (i + 1) (pmask.getD (i + 1) 0 ||| tmpmask >>> (32 - BitVec.ofNat 32 shift).toNat)
      else pmask)
    pmask

/-- `id32maskshift`, `id32bitshift`, `id16maskshift` and `id16bitshift`, for a FIFO. -/
def shift (c : BxCanConfig) (fifo : Bool) (k : FilterCase) : ℕ :=
  let m := c.filterMap fifo
  let id32maskshift := if fifo = true then c.fifo1FilterOff * 4 else 0
  match k with
  | .id32mask => id32maskshift
  | .id32bit => id32maskshift + m.id32maskCnt
  | .id16mask => id32maskshift + m.id32maskCnt + m.id32bitCnt
  | .id16bit => id32maskshift + m.id32maskCnt + m.id32bitCnt + m.id16maskCnt

/-- `calcfiltermasks`: the handles of a case. -/
def filtermask (c : BxCanConfig) (k : FilterCase) : List (BitVec 32) :=
  let m := List.replicate c.arraySize 0
  let m := if (c.filterMap false).cnt k ≠ 0 then
    c.calcandormask m (c.shift false k) ((c.filterMap false).cnt k) else m
  if (c.filterMap true).cnt k ≠ 0 then
    c.calcandormask m (c.shift true k) ((c.filterMap true).cnt k) else m

end BxCanConfig

/-! ### Items -/

/-- A `struct rt_can_filter_item`. -/
structure CanFilterItem where
  id : BitVec 29
  ide : Bool
  rtr : Bool
  mode : Bool
  mask : BitVec 32
  hdr : ℤ

/-- `FR1` and `FR2` of a `CAN_FilterRegister_TypeDef`, and the array `ID`. -/
abbrev FilterRegs := BitVec 32 × BitVec 32

/-- What is programmed for an item: its case, and the values of the registers or of the part of them
that it takes. -/
structure CanFilter where
  fcase : FilterCase
  first : BitVec 32
  second : BitVec 32
  deriving DecidableEq

namespace CanFilterItem

/-- `fcase`. -/
def fcase (pitem : CanFilterItem) : FilterCase :=
  match pitem.mode, pitem.ide with
  | false, false => .id16bit
  | true, false => .id16mask
  | false, true => .id32bit
  | true, true => .id32mask

/-- `CAN_ID_EXT` and `CAN_RTR_REMOTE`, as they are set for an item. -/
def flags (pitem : CanFilterItem) : BitVec 32 :=
  (if pitem.ide = true then 0x00000004#32 else 0) ||| (if pitem.rtr = true then 0x00000002#32 else 0)

/-- `thisid` with a shift of 3, and of 5. -/
def thisid32 (pitem : CanFilterItem) : BitVec 32 := pitem.id.setWidth 32 <<< 3 ||| pitem.flags
@[inherit_doc thisid32] def thisid16 (pitem : CanFilterItem) : BitVec 32 :=
  pitem.id.setWidth 32 <<< 5 ||| (if pitem.rtr = true then 0x00000002#32 <<< 3 else 0)

/-- `thismask` with a shift of 3, and of 5. -/
def thismask32 (pitem : CanFilterItem) : BitVec 32 := pitem.mask <<< 3 ||| pitem.flags
@[inherit_doc thismask32] def thismask16 (pitem : CanFilterItem) : BitVec 32 :=
  pitem.mask <<< 5 ||| (if pitem.rtr = true then 0x00000002#32 <<< 3 else 0)

/-- What is programmed for an item. -/
def filter (pitem : CanFilterItem) : CanFilter :=
  match pitem.fcase with
  | .id32mask => ⟨.id32mask, pitem.thisid32, pitem.thismask32⟩
  | .id32bit => ⟨.id32bit, pitem.thisid32, 0⟩
  | .id16mask =>
    ⟨.id16mask, (pitem.thisid16 &&& 0x0000FFFF) ||| ((pitem.thismask16 &&& 0x0000FFFF) <<< 16), 0⟩
  | .id16bit => ⟨.id16bit, pitem.thisid16, 0⟩

end CanFilterItem

/-- A half word of a register. -/
def halfWord (x : BitVec 32) (i : ℕ) : BitVec 32 := (x >>> (16 * i)) &&& 0x0000FFFF

/-- A half word of a register is assigned. -/
def setHalfWord (x : BitVec 32) (i : ℕ) (v : BitVec 32) : BitVec 32 :=
  (x &&& ~~~(0x0000FFFF#32 <<< (16 * i))) ||| ((v &&& 0x0000FFFF) <<< (16 * i))

namespace CanFilter

/-- The comparison of `bxcanfindfilter` with the registers of a bank. -/
def Matches (f : CanFilter) (r : FilterRegs) (off : ℕ) : Prop :=
  match f.fcase with
  | .id32mask => r.1 = f.first ∧ r.2 = f.second
  | .id32bit | .id16mask => off = 0 ∧ r.1 = f.first ∨ off = 1 ∧ r.2 = f.first
  | .id16bit =>
    off < 2 ∧ halfWord r.1 (off % 2) = f.first ∨ 2 ≤ off ∧ halfWord r.2 (off % 2) = f.first

instance (f : CanFilter) (r : FilterRegs) (off : ℕ) : Decidable (f.Matches r off) := by
  unfold Matches
  cases f.fcase <;> dsimp only <;> infer_instance

/-- The assignments to `ID` of `bxmodifyfilter`. -/
def store (f : CanFilter) (r : FilterRegs) (off : ℕ) : FilterRegs :=
  match f.fcase with
  | .id32mask => (f.first, f.second)
  | .id32bit | .id16mask =>
    if off = 0 then (f.first, r.2) else if off = 1 then (r.1, f.first) else r
  | .id16bit =>
    if off < 2 then (setHalfWord r.1 off f.first, r.2)
    else if off < 4 then (r.1, setHalfWord r.2 (off - 2) f.first)
    else r

/-- What is programmed when the filter is no longer active. -/
def clear (f : CanFilter) : CanFilter :=
  match f.fcase with
  | .id16bit => ⟨.id16bit, 0xFFFF, 0⟩
  | k => ⟨k, 0xFFFFFFFF, 0xFFFFFFFF⟩

end CanFilter

/-! ### Requests -/

/-- The results of the functions: `RT_EOK`, `RT_ERROR`, `RT_ENOMEM` and `RT_EBUSY`. -/
inductive FilterErr
  | eok
  | error
  | enomem
  | ebusy
  deriving DecidableEq

/-- The state of a controller: `alocmask`, and the filter registers from `mfrbase` on. -/
structure BxCan where
  alocmask : List (BitVec 32)
  filterRegister : ℕ → FilterRegs

/-- `bxcanallocfilter`: the handle, if there is one, and the words. -/
def bxcanallocfilter (pmask palocmask : List (BitVec 32)) (count : ℕ) :
    Option ℕ × List (BitVec 32) :=
  match (List.range count).find? fun i => pmask.getD i 0 &&& ~~~palocmask.getD i 0 ≠ 0 with
  | some i =>
    let hdr := rtFfs (pmask.getD i 0 &&& ~~~palocmask.getD i 0) - 1 + i * 32
    (some hdr, palocmask.set i (palocmask.getD i 0 ||| 1#32 <<< (hdr % 0x1F)))
  | none => (none, palocmask)

/-- `CAN_FilterInit` on `ID`, of which it writes the half words. -/
def canFilterInit (ide : Bool) (r : FilterRegs) : FilterRegs :=
  let idHigh := if ide = true then (r.1 &&& 0xFFFF0000) >>> 16 else r.2 &&& 0x0000FFFF
  let idLow := r.1 &&& 0x0000FFFF
  let maskIdHigh := (r.2 &&& 0xFFFF0000) >>> 16
  let maskIdLow := if ide = true then r.2 &&& 0x0000FFFF else (r.1 &&& 0xFFFF0000) >>> 16
  if ide = true then
    ((0x0000FFFF &&& idHigh) <<< 16 ||| (0x0000FFFF &&& idLow),
      (0x0000FFFF &&& maskIdHigh) <<< 16 ||| (0x0000FFFF &&& maskIdLow))
  else
    ((0x0000FFFF &&& maskIdLow) <<< 16 ||| (0x0000FFFF &&& idLow),
      (0x0000FFFF &&& maskIdHigh) <<< 16 ||| (0x0000FFFF &&& idHigh))

namespace BxCan

/-- Whether the bit of a handle is set in an array of words. -/
def bit (words : List (BitVec 32)) (hdr : ℕ) : Bool :=
  (words.getD (hdr / 32) 0).getLsbD (hdr % 32)

/-- The loop of `bxcanfindfilter`: the handle, and `*base` and `*off`. -/
def findLoop (c : BxCanConfig) (s : BxCan) (f : CanFilter) :
    List ℕ → ℕ × ℕ → Option ℕ × (ℕ × ℕ)
  | [], place => (none, place)
  | i :: is, place =>
    if bit (c.filtermask f.fcase) i = true ∧ bit s.alocmask i = true then
      let place := (c.bxcancalcbaseoff i).getD place
      if f.Matches (s.filterRegister place.1) place.2 then (some i, place)
      else findLoop c s f is place
    else findLoop c s f is place

/-- `bxcanfindfilter`, with what `*base` and `*off` were before. -/
def bxcanfindfilter (c : BxCanConfig) (s : BxCan) (pitem : CanFilterItem) (place : ℕ × ℕ) :
    Option ℕ × (ℕ × ℕ) :=
  s.findLoop c pitem.filter (List.range c.maxFilters) place

/-- The end of `bxmodifyfilter`. -/
def program (s : BxCan) (pitem : CanFilterItem) (actived : Bool) (hdr : ℤ) (place : ℕ × ℕ) :
    BxCan × CanFilterItem × FilterErr :=
  let f := if actived = true then pitem.filter else pitem.filter.clear
  let regs := f.store (s.filterRegister place.1) place.2
  let alocmask := if actived = true then s.alocmask else
    s.alocmask.set (hdr.toNat / 32)
      (s.alocmask.getD (hdr.toNat / 32) 0 &&& ~~~(1#32 <<< (hdr.toNat % 0x1F)))
  (⟨alocmask, Function.update s.filterRegister place.1 (canFilterInit pitem.ide regs)⟩,
    { pitem with hdr := hdr }, .eok)

/-- `bxmodifyfilter`, with what is on the stack for `fbase` and `foff`. -/
def bxmodifyfilter (c : BxCanConfig) (s : BxCan) (pitem : CanFilterItem) (actived : Bool)
    (stack : ℕ × ℕ) : BxCan × CanFilterItem × FilterErr :=
  match s.bxcanfindfilter c pitem stack with
  | (none, place) =>
    if actived = false then (s, pitem, .eok)
    else if pitem.hdr = -1 then
      match bxcanallocfilter (c.filtermask pitem.fcase) s.alocmask c.arraySize with
      | (none, _) => (s, pitem, .enomem)
      | (some hdr, alocmask) =>
        { s with alocmask := alocmask }.program pitem actived hdr
          ((c.bxcancalcbaseoff hdr).getD place)
    else if 0 ≤ pitem.hdr then
      match c.bxcancalcbaseoff pitem.hdr.toNat with
      | none => (s, pitem, .error)
      | some place =>
        let hdr := pitem.hdr.toNat
        { s with
          alocmask := s.alocmask.set (hdr / 32)
            (s.alocmask.getD (hdr / 32) 0 ||| 1#32 <<< (hdr % 0x1F)) }.program pitem actived
          pitem.hdr place
    else s.program pitem actived (-1) place
  | (some hdr, place) =>
    if actived = false then s.program pitem actived hdr place
    else if 0 ≤ pitem.hdr ∨ pitem.hdr = -1 then (s, { pitem with hdr := hdr }, .ebusy)
    else s.program pitem actived hdr place

/-- What a request for an item has done, if it has returned `RT_EOK`. -/
inductive Event
  | activated (f : CanFilter) (hdr : ℤ)
  | deactivated (f : CanFilter)
  deriving DecidableEq

/-- The event of a request for an item. -/
def event (pitem : CanFilterItem) (actived : Bool) (r : BxCan × CanFilterItem × FilterErr) :
    List Event :=
  if r.2.2 = .eok then
    [if actived = true then .activated pitem.filter r.2.1.hdr else .deactivated pitem.filter]
  else []

/-- `setfilter` on the items, each with what is on the stack of `bxmodifyfilter`. -/
def setfilter (c : BxCanConfig) (actived : Bool) :
    BxCan → List (CanFilterItem × (ℕ × ℕ)) → BxCan × List Event
  | s, [] => (s, [])
  | s, (pitem, stack) :: items =>
    let r := s.bxmodifyfilter c pitem actived stack
    if r.2.2 ≠ .eok then (r.1, [])
    else
      let rest := setfilter c actived r.1 items
      (rest.1, event pitem actived r ++ rest.2)

/-- A `struct rt_can_filter_config`. -/
structure Request where
  actived : Bool
  items : List (CanFilterItem × (ℕ × ℕ))

/-- `RT_CAN_CMD_SET_FILTER`. -/
def step (c : BxCanConfig) (s : BxCan) (r : Request) : Option (BxCan × List Event) :=
  some (s.setfilter c r.actived r.items)

/-- The controller when `bxcan1_filter_init` has run; banks that it does not write hold
anything. -/
def start (c : BxCanConfig) (regs : ℕ → FilterRegs) : BxCan :=
  ⟨List.replicate c.arraySize 0, regs⟩

end BxCan

end RtThread
