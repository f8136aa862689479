import McCortexM3.ByteMemory
import McCortexM3.Run
import McCortexM3.Window
import Mathlib.Data.UInt

/-!
# The ring buffer

The ring buffer of `ringbuffer.c`.  The indices are 15-bit fields, each with a mirror bit that
is flipped when the index goes round, so that a full buffer is told from an empty one.
`rt_ringbuffer_init` rounds the size down to a multiple of `RT_ALIGN_SIZE`.

## Main definitions

* `RingBuffer`, `rtRingbufferInit`, `rtRingbufferReset` — the object.
* `rtRingbufferPut`, `rtRingbufferGet` — the bulk operations.
* `rtRingbufferPutchar`, `rtRingbufferGetchar` — the operations on one character.
* `ByteFifo` — a bounded queue of bytes.
* `RingBuffer.Ok n` — the indices of a buffer that stores `n` bytes.

## Main results

* `rtRingbufferPut_eq`, `rtRingbufferGet_eq` — a bulk operation is a sequence of operations on
  one character.
* `run_boundedFifo` — every sequence of calls behaves as on a bounded queue of bytes.
* `not_run_boundedFifo` — the capacity is not the size that is asked for.
-/

set_option linter.all false

namespace RtThread

open List ByteMemory
open UInt32 (ofInt ofNat ofNat_add toNat_inj toNat_ofNat' toNat_zero)
open Function (update)

/-- `enum rt_ringbuffer_state`. -/
inductive RingbufferState
  | empty
  | full
  | halffull
  deriving DecidableEq

/-- `struct rt_ringbuffer`, with the bytes that `buffer_ptr` points to. -/
@[ext] structure RingBuffer where
  bufferPtr : ℕ → UInt8
  readMirror : Bool
  readIndex : BitVec 15
  writeMirror : Bool
  writeIndex : BitVec 15
  bufferSize : Int16

/-- `rt_ringbuffer_init` for a pool with some contents. -/
def rtRingbufferInit (pool : ℕ → UInt8) (size : Int16) : RingBuffer where
  bufferPtr := pool
  readMirror := false
  readIndex := 0
  writeMirror := false
  writeIndex := 0
  bufferSize := size &&& ~~~(4 - 1)

namespace RingBuffer

/-- `rt_ringbuffer_reset`. -/
def rtRingbufferReset (rb : RingBuffer) : RingBuffer :=
  { rb with readMirror := false, readIndex := 0, writeMirror := false, writeIndex := 0 }

/-- `rt_ringbuffer_status`. -/
def rtRingbufferStatus (rb : RingBuffer) : RingbufferState :=
  if rb.readIndex = rb.writeIndex then
    if rb.readMirror = rb.writeMirror then .empty else .full
  else .halffull

/-- `rt_ringbuffer_data_len`. -/
def rtRingbufferDataLen (rb : RingBuffer) : UInt32 :=
  match rb.rtRingbufferStatus with
  | .empty => 0
  | .full => .ofInt rb.bufferSize.toInt
  | .halffull =>
    if rb.writeIndex > rb.readIndex then
      .ofInt (rb.writeIndex.toNat - rb.readIndex.toNat)
    else .ofInt (rb.bufferSize.toInt - (rb.readIndex.toNat - rb.writeIndex.toNat))

/-- `rt_ringbuffer_space_len`. -/
def rtRingbufferSpaceLen (rb : RingBuffer) : UInt32 :=
  .ofInt rb.bufferSize.toInt - rb.rtRingbufferDataLen

/-- `rt_ringbuffer_put` of `length` bytes from `ptr` on. -/
def rtRingbufferPut (ptr : ℕ → UInt8) (length : UInt16) (rb : RingBuffer) : RingBuffer × UInt32 :=
  let size := rb.rtRingbufferSpaceLen.toUInt16
  if size = 0 then (rb, 0)
  else
    let length := if size < length then size else length
    -- the bytes up to the end of the buffer
    let rest := rb.bufferSize.toInt - rb.writeIndex.toNat
    if rest > length.toNat then
      ({ rb with
        bufferPtr := copyFrom rb.bufferPtr rb.writeIndex.toNat ptr length.toNat
        writeIndex := rb.writeIndex + .ofNat 15 length.toNat }, length.toUInt32)
    else
      let buffer := copyFrom rb.bufferPtr rb.writeIndex.toNat ptr rest.toNat
      ({ rb with
        bufferPtr := copyFrom buffer 0 (fun i => ptr (rest.toNat + i)) (length.toNat - rest).toNat
        writeMirror := !rb.writeMirror
        writeIndex := .ofInt 15 (length.toNat - rest) }, length.toUInt32)

/-- `rt_ringbuffer_get` of at most `length` bytes to `ptr`, where the bytes are in the result. -/
def rtRingbufferGet (ptr : ℕ → UInt8) (length : UInt16) (rb : RingBuffer) :
    RingBuffer × (ℕ → UInt8) × UInt32 :=
  let size := rb.rtRingbufferDataLen
  if size = 0 then (rb, ptr, 0)
  else
    let length := if size < length.toUInt32 then size.toUInt16 else length
    let rest := rb.bufferSize.toInt - rb.readIndex.toNat
    if rest > length.toNat then
      ({ rb with readIndex := rb.readIndex + .ofNat 15 length.toNat },
        copyFrom ptr 0 (fun i => rb.bufferPtr (rb.readIndex.toNat + i)) length.toNat,
        length.toUInt32)
    else
      let ptr := copyFrom ptr 0 (fun i => rb.bufferPtr (rb.readIndex.toNat + i)) rest.toNat
      ({ rb with
        readMirror := !rb.readMirror
        readIndex := .ofInt 15 (length.toNat - rest) },
        copyFrom ptr rest.toNat rb.bufferPtr (length.toNat - rest).toNat, length.toUInt32)

/-- `rt_ringbuffer_putchar`. -/
def rtRingbufferPutchar (ch : UInt8) (rb : RingBuffer) : RingBuffer × UInt32 :=
  if rb.rtRingbufferSpaceLen = 0 then (rb, 0)
  else
    let rb := { rb with bufferPtr := update rb.bufferPtr rb.writeIndex.toNat ch }
    if (rb.writeIndex.toNat : ℤ) = rb.bufferSize.toInt - 1 then
      ({ rb with writeMirror := !rb.writeMirror, writeIndex := 0 }, 1)
    else ({ rb with writeIndex := rb.writeIndex + 1 }, 1)

/-- `rt_ringbuffer_getchar`, with the character that it stores, if any. -/
def rtRingbufferGetchar (rb : RingBuffer) : RingBuffer × Option UInt8 :=
  if rb.rtRingbufferDataLen = 0 then (rb, none)
  else
    let ch := rb.bufferPtr rb.readIndex.toNat
    if (rb.readIndex.toNat : ℤ) = rb.bufferSize.toInt - 1 then
      ({ rb with readMirror := !rb.readMirror, readIndex := 0 }, some ch)
    else ({ rb with readIndex := rb.readIndex + 1 }, some ch)

/-- `k` calls of `rt_ringbuffer_putchar`: the characters stored are counted. -/
def putchars (ptr : ℕ → UInt8) : ℕ → RingBuffer → RingBuffer × UInt32
  | 0, rb => (rb, 0)
  | k + 1, rb =>
    let (rb, n) := putchars ptr k rb
    let (rb, m) := rb.rtRingbufferPutchar (ptr k)
    (rb, n + m)

/-- `k` calls of `rt_ringbuffer_getchar`, which store their characters from `ptr` on. -/
def getchars (ptr : ℕ → UInt8) : ℕ → RingBuffer → RingBuffer × (ℕ → UInt8) × UInt32
  | 0, rb => (rb, ptr, 0)
  | k + 1, rb =>
    let (rb, ptr, n) := getchars ptr k rb
    match rb.rtRingbufferGetchar with
    | (rb, some ch) => (rb, update ptr n.toNat ch, n + 1)
    | (rb, none) => (rb, ptr, n)

/-! ### The indices -/

/-- The number of bytes that fit. -/
def capacity (rb : RingBuffer) : ℕ := rb.bufferSize.toInt.toNat

/-- The indices of a buffer that stores `n` bytes: the write index is `n` bytes ahead, a mirror
counting as one capacity. -/
structure Ok (rb : RingBuffer) (n : ℕ) : Prop where
  size_nonneg : 0 ≤ rb.bufferSize.toInt
  le_capacity : n ≤ rb.capacity
  read_le : rb.readIndex.toNat ≤ rb.capacity - 1
  write_le : rb.writeIndex.toNat ≤ rb.capacity - 1
  write_eq : rb.writeIndex.toNat + (if rb.writeMirror = rb.readMirror then 0 else rb.capacity) =
    rb.readIndex.toNat + n

/-- The bytes in the buffer, the oldest first. -/
def stored (rb : RingBuffer) : List UInt8 :=
  window rb.bufferPtr rb.capacity rb.readIndex.toNat rb.rtRingbufferDataLen.toNat

variable {rb : RingBuffer} {n k : ℕ}

theorem toNat_ofInt {i : ℤ} (h : i = k) (hk : k < 2 ^ 32) : (ofInt i).toNat = k := by
  subst h
  rw [ofInt, toNat_ofNat']
  omega

theorem Ok.toInt_bufferSize (h : rb.Ok n) : rb.bufferSize.toInt = rb.capacity := by
  rw [capacity, Int.toNat_of_nonneg h.size_nonneg]

theorem capacity_lt (rb : RingBuffer) : rb.capacity < 2 ^ 15 := by
  have hlt := Int16.toInt_lt rb.bufferSize
  rw [capacity]
  omega

theorem Ok.dataLen (h : rb.Ok n) : rb.rtRingbufferDataLen.toNat = n := by
  have hlt := rb.capacity_lt
  have hwrite := h.write_eq
  have hsize := h.toInt_bufferSize
  have hle := h.le_capacity
  have hr := h.read_le
  have hw := h.write_le
  have hindex : rb.readIndex = rb.writeIndex ↔ rb.readIndex.toNat = rb.writeIndex.toNat :=
    BitVec.toNat_inj.symm
  have hmirror : rb.readMirror = rb.writeMirror ↔ rb.writeMirror = rb.readMirror := eq_comm
  unfold rtRingbufferDataLen rtRingbufferStatus
  by_cases hi : rb.readIndex = rb.writeIndex
  · have hi' := hindex.1 hi
    by_cases hm : rb.readMirror = rb.writeMirror
    · rw [if_pos (hmirror.1 hm)] at hwrite
      simp only [hi, hm, if_true, toNat_zero]
      omega
    · rw [if_neg (mt hmirror.2 hm)] at hwrite
      simp only [hi, hm, if_true, if_false]
      exact toNat_ofInt (by omega) (by omega)
  · have hi' := mt hindex.2 hi
    simp only [hi, if_false, gt_iff_lt, BitVec.lt_def]
    by_cases hm : rb.writeMirror = rb.readMirror
    · rw [if_pos hm] at hwrite
      rw [if_pos (by omega)]
      exact toNat_ofInt (by omega) (by omega)
    · rw [if_neg hm] at hwrite
      rw [if_neg (by omega)]
      exact toNat_ofInt (by omega) (by omega)

theorem Ok.spaceLen (h : rb.Ok n) : rb.rtRingbufferSpaceLen.toNat = rb.capacity - n := by
  have hlt := rb.capacity_lt
  have hle := h.le_capacity
  have hsize : (ofInt rb.bufferSize.toInt).toNat = rb.capacity :=
    toNat_ofInt h.toInt_bufferSize (by omega)
  rw [rtRingbufferSpaceLen, UInt32.toNat_sub, hsize, h.dataLen]
  omega

/-! ### Moving an index -/

/-- The index `i` with the mirror bit `mirror`, moved on by `k`. -/
def moveIndex (capacity k : ℕ) (mirror : Bool) (i : BitVec 15) : Bool × BitVec 15 :=
  if k = 0 ∨ i.toNat + k < capacity then (mirror, .ofNat 15 (i.toNat + k))
  else (!mirror, .ofNat 15 (i.toNat + k - capacity))

section

variable {cap : ℕ} {mirror : Bool} {i : BitVec 15}

theorem moveIndex_zero : moveIndex cap 0 mirror i = (mirror, i) := by
  simp [moveIndex]

theorem toNat_moveIndex (mirror : Bool) (hcap : cap < 2 ^ 15) (hk : k ≤ cap) :
    (moveIndex cap k mirror i).2.toNat =
      if k = 0 ∨ i.toNat + k < cap then i.toNat + k else i.toNat + k - cap := by
  rw [moveIndex]
  split
  · exact (BitVec.toNat_ofNat ..).trans (Nat.mod_eq_of_lt (by omega))
  · exact (BitVec.toNat_ofNat ..).trans (Nat.mod_eq_of_lt (by omega))

theorem moveIndex_moveIndex (mirror : Bool) (hcap : cap < 2 ^ 15)
    (hk : i.toNat + (k + 1) < 2 * cap) (hk' : k < cap) :
    moveIndex cap 1 (moveIndex cap k mirror i).1 (moveIndex cap k mirror i).2 =
      moveIndex cap (k + 1) mirror i := by
  have hindex := toNat_moveIndex (i := i) mirror hcap hk'.le
  by_cases hA : k = 0 ∨ i.toNat + k < cap
  · have hmirror : (moveIndex cap k mirror i).1 = mirror := by rw [moveIndex, if_pos hA]
    rw [if_pos hA] at hindex
    rw [moveIndex, hindex, hmirror, moveIndex, Nat.add_assoc]
    simp
  · have hmirror : (moveIndex cap k mirror i).1 = !mirror := by rw [moveIndex, if_neg hA]
    rw [if_neg hA] at hindex
    have hsum : i.toNat + k - cap + 1 = i.toNat + (k + 1) - cap := by omega
    rw [moveIndex, hindex, hmirror, if_pos (by omega), moveIndex, if_neg (by omega), hsum]

theorem moveIndex_one (hcap : cap < 2 ^ 15) (hpos : 0 < cap) (hi : i.toNat ≤ cap - 1) :
    moveIndex cap 1 mirror i =
      if (i.toNat : ℤ) = cap - 1 then (!mirror, 0) else (mirror, i + 1) := by
  rw [moveIndex]
  by_cases hround : i.toNat + 1 < cap
  · rw [if_pos (by omega), if_neg (by omega), BitVec.ofNat_add, BitVec.ofNat_toNat,
      BitVec.setWidth_eq]
    rfl
  · have hzero : i.toNat + 1 - cap = 0 := by omega
    rw [if_neg (by omega), if_pos (by omega), hzero]
    rfl

theorem moveIndex_eq :
    moveIndex cap k mirror i =
      if (cap : ℤ) - i.toNat > k ∨ k = 0 then (mirror, i + .ofNat 15 k)
      else (!mirror, .ofInt 15 (k - (cap - i.toNat))) := by
  rw [moveIndex]
  by_cases hround : k = 0 ∨ i.toNat + k < cap
  · rw [if_pos hround, if_pos (by omega), BitVec.ofNat_add, BitVec.ofNat_toNat,
      BitVec.setWidth_eq]
  · rw [if_neg hround, if_neg (by omega), ← BitVec.ofInt_natCast]
    congr 2
    omega

end

/-! ### Putting -/

/-- The buffer after `k` bytes have been stored, which leave the bytes `cells`. -/
def wrote (cells : ℕ → UInt8) (k : ℕ) (rb : RingBuffer) : RingBuffer :=
  { rb with
    bufferPtr := cells
    writeMirror := (moveIndex rb.capacity k rb.writeMirror rb.writeIndex).1
    writeIndex := (moveIndex rb.capacity k rb.writeMirror rb.writeIndex).2 }

variable {cells cells' : ℕ → UInt8}

@[simp] theorem capacity_wrote (cells : ℕ → UInt8) (k : ℕ) (rb : RingBuffer) :
    (rb.wrote cells k).capacity = rb.capacity := rfl

theorem writeIndex_wrote (rb : RingBuffer) (cells : ℕ → UInt8) (hk : k ≤ rb.capacity) :
    (rb.wrote cells k).writeIndex.toNat = if k = 0 ∨ rb.writeIndex.toNat + k < rb.capacity then
      rb.writeIndex.toNat + k else rb.writeIndex.toNat + k - rb.capacity :=
  toNat_moveIndex rb.writeMirror rb.capacity_lt hk

theorem Ok.wrote (h : rb.Ok n) (hk : n + k ≤ rb.capacity) (cells : ℕ → UInt8) :
    (rb.wrote cells k).Ok (n + k) := by
  have hw := h.write_le
  have hr := h.read_le
  have hwrite := h.write_eq
  have hindex := writeIndex_wrote (k := k) rb cells (by omega)
  refine ⟨h.size_nonneg, hk, hr, ?_, ?_⟩
  · rw [hindex, capacity_wrote]
    split_ifs <;> omega
  · rw [hindex, capacity_wrote]
    simp only [RingBuffer.wrote, moveIndex]
    by_cases hround : k = 0 ∨ rb.writeIndex.toNat + k < rb.capacity
    · simp only [hround, if_true]
      omega
    · -- the index goes round, which it has not done before
      simp only [hround, if_false]
      by_cases hm : rb.writeMirror = rb.readMirror
      · rw [if_pos hm] at hwrite
        rw [if_neg (by simp [hm])]
        omega
      · rw [if_neg hm] at hwrite
        omega

theorem Ok.wrote_wrote (h : rb.Ok n) (hk : n + (k + 1) ≤ rb.capacity) :
    (rb.wrote cells k).wrote cells' 1 = rb.wrote cells' (k + 1) := by
  have hr := h.read_le
  have hwrite := h.write_eq
  have hmove := moveIndex_moveIndex (k := k) (i := rb.writeIndex) rb.writeMirror rb.capacity_lt
    (by split_ifs at hwrite <;> omega) (by omega)
  exact RingBuffer.ext rfl rfl rfl (congrArg Prod.fst hmove) (congrArg Prod.snd hmove) rfl

theorem Ok.putchar (h : rb.Ok n) (hn : n < rb.capacity) (ch : UInt8) :
    rb.rtRingbufferPutchar ch = (rb.wrote (update rb.bufferPtr rb.writeIndex.toNat ch) 1, 1) := by
  have hlt := rb.capacity_lt
  have hw := h.write_le
  have hsize := h.toInt_bufferSize
  have hspace : rb.rtRingbufferSpaceLen ≠ 0 := by
    intro hzero
    have hspace := h.spaceLen
    rw [hzero, toNat_zero] at hspace
    omega
  rw [rtRingbufferPutchar, if_neg hspace, RingBuffer.wrote, moveIndex_one hlt (by omega) h.write_le]
  simp only [hsize]
  split <;> rfl

theorem Ok.putchar_full (h : rb.Ok n) (hn : n = rb.capacity) (ch : UInt8) :
    rb.rtRingbufferPutchar ch = (rb, 0) := by
  have hspace : rb.rtRingbufferSpaceLen = 0 := by
    rw [← toNat_inj, h.spaceLen, hn, Nat.sub_self, toNat_zero]
  rw [rtRingbufferPutchar, if_pos hspace]

/-- The first `m` bytes of `ptr` are stored. -/
def stores (ptr : ℕ → UInt8) (m : ℕ) (rb : RingBuffer) : RingBuffer :=
  rb.wrote (writeFrom rb.bufferPtr rb.capacity rb.writeIndex.toNat ptr m) m

theorem stores_zero (ptr : ℕ → UInt8) (rb : RingBuffer) : rb.stores ptr 0 = rb := by
  rw [stores, writeFrom_zero, wrote, moveIndex_zero]

theorem Ok.putchars (h : rb.Ok n) (ptr : ℕ → UInt8) (k : ℕ) :
    rb.putchars ptr k =
      (rb.stores ptr (min k (rb.capacity - n)), .ofNat (min k (rb.capacity - n))) := by
  have hle := h.le_capacity
  have hw := h.write_le
  induction k with
  | zero =>
    rw [Nat.zero_min, stores_zero, RingBuffer.putchars]
    rfl
  | succ k ih =>
    rw [RingBuffer.putchars, ih]
    by_cases hk : k + 1 ≤ rb.capacity - n
    · have hindex := writeIndex_wrote (k := k) rb
        (writeFrom rb.bufferPtr rb.capacity rb.writeIndex.toNat ptr k) (by omega)
      have hround : (if k = 0 ∨ rb.writeIndex.toNat + k < rb.capacity then
          rb.writeIndex.toNat + k else rb.writeIndex.toNat + k - rb.capacity) =
          if rb.writeIndex.toNat + k < rb.capacity then
            rb.writeIndex.toNat + k else rb.writeIndex.toNat + k - rb.capacity := by
        split_ifs <;> omega
      have hok := h.wrote (k := k) (by omega)
        (writeFrom rb.bufferPtr rb.capacity rb.writeIndex.toNat ptr k)
      rw [min_eq_left (by omega), min_eq_left hk, stores]
      simp only [hok.putchar (by rw [capacity_wrote]; omega), hindex, hround]
      rw [h.wrote_wrote (by omega), stores]
      have hcells : update (rb.wrote (writeFrom rb.bufferPtr rb.capacity
            rb.writeIndex.toNat ptr k) k).bufferPtr
            (if rb.writeIndex.toNat + k < rb.capacity then rb.writeIndex.toNat + k
              else rb.writeIndex.toNat + k - rb.capacity) (ptr k) =
          writeFrom rb.bufferPtr rb.capacity rb.writeIndex.toNat ptr (k + 1) :=
        writeFrom_succ rb.bufferPtr ptr (by omega) (by omega)
      rw [hcells, ofNat_add]
      rfl
    · -- the buffer is full
      have hok := h.wrote (k := rb.capacity - n) (by omega)
        (writeFrom rb.bufferPtr rb.capacity rb.writeIndex.toNat ptr (rb.capacity - n))
      rw [min_eq_right (by omega), min_eq_right (by omega), stores]
      simp only [hok.putchar_full (by rw [capacity_wrote]; omega), UInt32.add_zero]

theorem copyFrom_eq_writeFrom (cells src : ℕ → UInt8) {i m : ℕ} (hfit : m = 0 ∨ i + m < cap) :
    copyFrom cells i src m = writeFrom cells cap i src m := by
  funext x
  simp only [copyFrom, writeFrom]
  split_ifs <;> first | rfl | omega

theorem copyFrom_copyFrom (cells src : ℕ → UInt8) {i m : ℕ} (hround : i < cap ∧ cap ≤ i + m)
    (hm : m ≤ cap) :
    copyFrom (copyFrom cells i src (cap - i)) 0 (fun k => src (cap - i + k)) (i + m - cap) =
      writeFrom cells cap i src m := by
  funext x
  simp only [copyFrom, writeFrom]
  split_ifs <;> first | rfl | omega | (congr 1; omega)

theorem Ok.put (h : rb.Ok n) (ptr : ℕ → UInt8) (length : UInt16) :
    rb.rtRingbufferPut ptr length = (rb.stores ptr (min length.toNat (rb.capacity - n)),
      .ofNat (min length.toNat (rb.capacity - n))) := by
  have hlt := rb.capacity_lt
  have hw := h.write_le
  have hle := h.le_capacity
  have hsize := h.toInt_bufferSize
  have hspace : rb.rtRingbufferSpaceLen.toUInt16.toNat = rb.capacity - n := by
    rw [UInt32.toNat_toUInt16, h.spaceLen]
    omega
  rw [rtRingbufferPut]
  by_cases hfull : rb.rtRingbufferSpaceLen.toUInt16 = 0
  · have hzero : rb.capacity - n = 0 := by rw [← hspace, hfull, UInt16.toNat_zero]
    simp only [hfull, if_true, hzero, Nat.min_zero, stores_zero]
    rfl
  · have hpos : rb.capacity - n ≠ 0 := by
      rw [← hspace]
      exact fun hzero => hfull (UInt16.toNat_inj.1 hzero)
    simp only [hfull, if_false]
    obtain ⟨m, hm⟩ : ∃ m : UInt16, m = if rb.rtRingbufferSpaceLen.toUInt16 < length then
      rb.rtRingbufferSpaceLen.toUInt16 else length := ⟨_, rfl⟩
    have hmin : m.toNat = min length.toNat (rb.capacity - n) := by
      rw [hm]
      split
      · next hless =>
        rw [UInt16.lt_iff_toNat_lt, hspace] at hless
        omega
      · next hless =>
        rw [UInt16.lt_iff_toNat_lt, hspace] at hless
        omega
    rw [← hm, ← hmin]
    have hret : m.toUInt32 = .ofNat m.toNat := by
      rw [← toNat_inj, UInt16.toNat_toUInt32, toNat_ofNat']
      omega
    rw [hret, hsize]
    rw [stores, RingBuffer.wrote, moveIndex_eq]
    by_cases hround : m.toNat = 0 ∨ rb.writeIndex.toNat + m.toNat < rb.capacity
    · -- the bytes fit before the end of the buffer
      rw [if_pos (by omega), if_pos (by omega), copyFrom_eq_writeFrom _ _ hround]
    · have hrest : ((rb.capacity : ℤ) - rb.writeIndex.toNat).toNat =
          rb.capacity - rb.writeIndex.toNat := by omega
      have hmore : ((m.toNat : ℤ) - (rb.capacity - rb.writeIndex.toNat)).toNat =
          rb.writeIndex.toNat + m.toNat - rb.capacity := by omega
      rw [if_neg (by omega), if_neg (by omega), hrest, hmore,
        copyFrom_copyFrom _ _ (by omega) (by omega)]

theorem Ok.put_eq_putchars (h : rb.Ok n) (ptr : ℕ → UInt8) (length : UInt16) :
    rb.rtRingbufferPut ptr length = rb.putchars ptr length.toNat := by
  rw [h.put, h.putchars]

/-! ### Getting -/

/-- The buffer after `k` bytes have been read. -/
def left (k : ℕ) (rb : RingBuffer) : RingBuffer :=
  { rb with
    readMirror := (moveIndex rb.capacity k rb.readMirror rb.readIndex).1
    readIndex := (moveIndex rb.capacity k rb.readMirror rb.readIndex).2 }

@[simp] theorem capacity_left (k : ℕ) (rb : RingBuffer) : (rb.left k).capacity = rb.capacity := rfl

theorem left_zero (rb : RingBuffer) : rb.left 0 = rb := by
  rw [left, moveIndex_zero]

theorem readIndex_left (rb : RingBuffer) (hk : k ≤ rb.capacity) :
    (rb.left k).readIndex.toNat = if k = 0 ∨ rb.readIndex.toNat + k < rb.capacity then
      rb.readIndex.toNat + k else rb.readIndex.toNat + k - rb.capacity :=
  toNat_moveIndex rb.readMirror rb.capacity_lt hk

theorem Ok.left (h : rb.Ok (n + k)) : (rb.left k).Ok n := by
  have hle := h.le_capacity
  have hw := h.write_le
  have hr := h.read_le
  have hwrite := h.write_eq
  have hindex := rb.readIndex_left (k := k) (by omega)
  refine ⟨h.size_nonneg, ?_, ?_, hw, ?_⟩
  · rw [capacity_left]
    omega
  · rw [hindex, capacity_left]
    split_ifs <;> omega
  · rw [hindex, capacity_left]
    simp only [RingBuffer.left, moveIndex]
    by_cases hround : k = 0 ∨ rb.readIndex.toNat + k < rb.capacity
    · simp only [hround, if_true]
      omega
    · -- the index goes round, as the write index has done before
      simp only [hround, if_false]
      by_cases hm : rb.writeMirror = rb.readMirror
      · rw [if_pos hm] at hwrite
        omega
      · rw [if_neg hm] at hwrite
        have hm' : rb.writeMirror = !rb.readMirror := by
          cases hwm : rb.writeMirror <;> cases hrm : rb.readMirror <;> simp_all
        rw [if_pos hm']
        omega

theorem Ok.left_left (h : rb.Ok n) (hk : k + 1 ≤ n) : (rb.left k).left 1 = rb.left (k + 1) := by
  have hr := h.read_le
  have hle := h.le_capacity
  have hmove := moveIndex_moveIndex (k := k) (i := rb.readIndex) rb.readMirror rb.capacity_lt
    (by omega) (by omega)
  exact RingBuffer.ext rfl (congrArg Prod.fst hmove) (congrArg Prod.snd hmove) rfl rfl rfl

/-- The character at the distance `k` from the read index. -/
def byteAt (rb : RingBuffer) (k : ℕ) : UInt8 :=
  rb.bufferPtr ((rb.readIndex.toNat + k) % rb.capacity)

theorem Ok.getchar (h : rb.Ok n) (hn : 0 < n) :
    rb.rtRingbufferGetchar = (rb.left 1, some (rb.byteAt 0)) := by
  have hlt := rb.capacity_lt
  have hr := h.read_le
  have hle := h.le_capacity
  have hsize := h.toInt_bufferSize
  have hdata : rb.rtRingbufferDataLen ≠ 0 := by
    intro hzero
    have hdata := h.dataLen
    rw [hzero, toNat_zero] at hdata
    omega
  have hbyte : rb.byteAt 0 = rb.bufferPtr rb.readIndex.toNat := by
    rw [byteAt, Nat.add_zero, Nat.mod_eq_of_lt (by omega)]
  rw [rtRingbufferGetchar, if_neg hdata, RingBuffer.left,
    moveIndex_one hlt (by omega) h.read_le, hbyte]
  simp only [hsize]
  split <;> rfl

theorem Ok.getchar_empty (h : rb.Ok 0) : rb.rtRingbufferGetchar = (rb, none) := by
  have hdata : rb.rtRingbufferDataLen = 0 := by
    rw [← toNat_inj, h.dataLen, toNat_zero]
  rw [rtRingbufferGetchar, if_pos hdata]

theorem byteAt_left (hk : k ≤ rb.capacity) : (rb.left k).byteAt 0 = rb.byteAt k := by
  rw [byteAt, byteAt, readIndex_left rb hk, capacity_left, Nat.add_zero]
  show rb.bufferPtr _ = _
  congr 1
  split
  · rfl
  · next hround =>
    rw [Nat.mod_eq_sub_mod (a := rb.readIndex.toNat + k) (by omega)]

theorem Ok.getchars (h : rb.Ok n) (ptr : ℕ → UInt8) (k : ℕ) :
    rb.getchars ptr k =
      (rb.left (min k n), copyFrom ptr 0 rb.byteAt (min k n), .ofNat (min k n)) := by
  have hlt := rb.capacity_lt
  have hle := h.le_capacity
  induction k with
  | zero =>
    have hptr : copyFrom ptr 0 rb.byteAt 0 = ptr := by
      funext x
      exact if_neg (by omega)
    rw [Nat.zero_min, left_zero, hptr, RingBuffer.getchars]
    rfl
  | succ k ih =>
    rw [RingBuffer.getchars, ih]
    by_cases hk : k + 1 ≤ n
    · obtain ⟨m, rfl⟩ : ∃ m, n = m + k := ⟨n - k, by omega⟩
      have hok : (rb.left k).Ok m := h.left
      rw [min_eq_left (by omega), min_eq_left hk]
      simp only [hok.getchar (by omega), h.left_left hk, byteAt_left (by omega : k ≤ rb.capacity)]
      have hindex : (ofNat k).toNat = k := by
        rw [toNat_ofNat']
        omega
      have hptr : update (copyFrom ptr 0 rb.byteAt k) k (rb.byteAt k) =
          copyFrom ptr 0 rb.byteAt (k + 1) := by
        funext x
        simp only [copyFrom, Function.update_apply]
        split_ifs <;> first | rfl | omega | (congr 1; omega)
      rw [hindex, hptr, ofNat_add]
      rfl
    · -- the buffer is empty
      obtain ⟨m, rfl⟩ : ∃ m, k = n + m := ⟨k - n, by omega⟩
      have hok : (rb.left n).Ok 0 := Ok.left (by rwa [Nat.zero_add])
      rw [min_eq_right (by omega), min_eq_right (by omega)]
      simp only [hok.getchar_empty]

theorem Ok.get (h : rb.Ok n) (ptr : ℕ → UInt8) (length : UInt16) :
    rb.rtRingbufferGet ptr length = (rb.left (min length.toNat n),
      copyFrom ptr 0 rb.byteAt (min length.toNat n), .ofNat (min length.toNat n)) := by
  have hlt := rb.capacity_lt
  have hr := h.read_le
  have hle := h.le_capacity
  have hsize := h.toInt_bufferSize
  have hdata := h.dataLen
  rw [rtRingbufferGet]
  by_cases hempty : rb.rtRingbufferDataLen = 0
  · have hzero : n = 0 := by rw [← hdata, hempty, toNat_zero]
    have hptr : copyFrom ptr 0 rb.byteAt 0 = ptr := by
      funext x
      exact if_neg (by omega)
    simp only [hempty, if_true, hzero, Nat.min_zero, left_zero, hptr]
    rfl
  · have hpos : n ≠ 0 := by
      rw [← hdata]
      exact fun hzero => hempty (toNat_inj.1 hzero)
    simp only [hempty, if_false]
    obtain ⟨m, hm⟩ : ∃ m : UInt16, m = if rb.rtRingbufferDataLen < length.toUInt32 then
      rb.rtRingbufferDataLen.toUInt16 else length := ⟨_, rfl⟩
    have hmin : m.toNat = min length.toNat n := by
      rw [hm]
      split
      · next hless =>
        rw [UInt32.lt_iff_toNat_lt, hdata, UInt16.toNat_toUInt32] at hless
        rw [UInt32.toNat_toUInt16, hdata]
        omega
      · next hless =>
        rw [UInt32.lt_iff_toNat_lt, hdata, UInt16.toNat_toUInt32] at hless
        omega
    rw [← hm, ← hmin]
    have hret : m.toUInt32 = .ofNat m.toNat := by
      rw [← toNat_inj, UInt16.toNat_toUInt32, toNat_ofNat']
      omega
    rw [hret, hsize, RingBuffer.left, moveIndex_eq]
    have hbyte : ∀ x, x < m.toNat → rb.byteAt x =
        if rb.readIndex.toNat + x < rb.capacity then rb.bufferPtr (rb.readIndex.toNat + x)
        else rb.bufferPtr (rb.readIndex.toNat + x - rb.capacity) := by
      intro x hx
      rw [byteAt]
      split
      · next hlt => rw [Nat.mod_eq_of_lt hlt]
      · next hge => rw [Nat.mod_eq_sub_mod (by omega), Nat.mod_eq_of_lt (by omega)]
    by_cases hround : m.toNat = 0 ∨ rb.readIndex.toNat + m.toNat < rb.capacity
    · -- the bytes lie before the end of the buffer
      have hptr : copyFrom ptr 0 (fun i => rb.bufferPtr (rb.readIndex.toNat + i)) m.toNat =
          copyFrom ptr 0 rb.byteAt m.toNat := by
        funext x
        simp only [copyFrom, Nat.sub_zero]
        split
        · next hx => rw [hbyte x (by omega), if_pos (by omega)]
        · rfl
      rw [if_pos (by omega), if_pos (by omega), hptr]
    · have hrest : ((rb.capacity : ℤ) - rb.readIndex.toNat).toNat =
          rb.capacity - rb.readIndex.toNat := by omega
      have hmore : ((m.toNat : ℤ) - (rb.capacity - rb.readIndex.toNat)).toNat =
          rb.readIndex.toNat + m.toNat - rb.capacity := by omega
      have hptr : copyFrom (copyFrom ptr 0 (fun i => rb.bufferPtr (rb.readIndex.toNat + i))
            (rb.capacity - rb.readIndex.toNat)) (rb.capacity - rb.readIndex.toNat) rb.bufferPtr
            (rb.readIndex.toNat + m.toNat - rb.capacity) = copyFrom ptr 0 rb.byteAt m.toNat := by
        funext x
        simp only [copyFrom, Nat.sub_zero]
        by_cases hx : x < m.toNat
        · rw [hbyte x hx]
          split_ifs <;> first | rfl | omega | (congr 1; omega)
        · rw [if_neg (by omega), if_neg (by omega), if_neg (by omega)]
      rw [if_neg (by omega), if_neg (by omega), hrest, hmore, hptr]

theorem Ok.get_eq_getchars (h : rb.Ok n) (ptr : ℕ → UInt8) (length : UInt16) :
    rb.rtRingbufferGet ptr length = rb.getchars ptr length.toNat := by
  rw [h.get, h.getchars]

/-! ### The stored bytes -/

theorem Ok.stored (h : rb.Ok n) : rb.stored = (List.range n).map rb.byteAt := by
  rw [RingBuffer.stored, h.dataLen]
  rfl

theorem Ok.byteAt_stores (h : rb.Ok n) {m x : ℕ} (hm : n + m ≤ rb.capacity) (hx : x < n + m)
    (ptr : ℕ → UInt8) :
    (rb.stores ptr m).byteAt x = if x < n then rb.byteAt x else ptr (x - n) := by
  have hr := h.read_le
  have hw := h.write_le
  have hwrite := h.write_eq
  have hcell : (rb.readIndex.toNat + x) % rb.capacity =
      if rb.readIndex.toNat + x < rb.capacity then rb.readIndex.toNat + x
      else rb.readIndex.toNat + x - rb.capacity := by
    split
    · next hlt => exact Nat.mod_eq_of_lt hlt
    · next hge => rw [Nat.mod_eq_sub_mod (by omega), Nat.mod_eq_of_lt (by omega)]
  have hbyte : (rb.stores ptr m).byteAt x = writeFrom rb.bufferPtr rb.capacity
      rb.writeIndex.toNat ptr m ((rb.readIndex.toNat + x) % rb.capacity) := rfl
  obtain ⟨y, hy⟩ : ∃ y, y = (rb.readIndex.toNat + x) % rb.capacity := ⟨_, rfl⟩
  rw [hbyte, byteAt, ← hy]
  rw [← hy] at hcell
  obtain ⟨k, hk⟩ : ∃ k, k = if rb.writeIndex.toNat ≤ y then y - rb.writeIndex.toNat
    else y + rb.capacity - rb.writeIndex.toNat := ⟨_, rfl⟩
  simp only [writeFrom, ← hk]
  -- the cells written are those at the distances from `n` on
  have hdist : y < rb.capacity ∧ (x < n → m ≤ k) ∧ (n ≤ x → k = x - n) := by
    split_ifs at hcell hk hwrite <;> omega
  split_ifs <;> first | rfl | omega | (congr 1; omega)

theorem Ok.stored_stores (h : rb.Ok n) {m : ℕ} (hm : n + m ≤ rb.capacity) (ptr : ℕ → UInt8) :
    (rb.stores ptr m).stored = rb.stored ++ (List.range m).map ptr := by
  have hok : (rb.stores ptr m).Ok (n + m) := h.wrote hm _
  rw [hok.stored, h.stored]
  refine ext_getElem (by simp) ?_
  intro x hx _
  have hx' : x < n + m := by simpa using hx
  rw [getElem_map, getElem_range, h.byteAt_stores hm hx', getElem_append]
  simp

theorem Ok.stored_left {m : ℕ} (h : rb.Ok (n + m)) : (rb.left m).stored = rb.stored.drop m := by
  have hle := h.le_capacity
  rw [h.left.stored, h.stored]
  refine ext_getElem (by simp) ?_
  intro x hx _
  rw [getElem_map, getElem_range, getElem_drop, getElem_map,
    getElem_range, byteAt, byteAt, readIndex_left rb (by omega), capacity_left]
  show rb.bufferPtr _ = _
  congr 1
  split
  · rw [Nat.add_assoc]
  · have hback : rb.readIndex.toNat + (m + x) =
        rb.readIndex.toNat + m - rb.capacity + x + rb.capacity := by omega
    rw [hback, Nat.add_mod_right]

theorem Ok.put_spec (h : rb.Ok n) (ptr : ℕ → UInt8) (length : UInt16) :
    (∃ n', (rb.rtRingbufferPut ptr length).1.Ok n') ∧
      (rb.rtRingbufferPut ptr length).1.stored =
        rb.stored ++ (List.range (rb.rtRingbufferPut ptr length).2.toNat).map ptr := by
  have hle := h.le_capacity
  have hlt := length.toNat_lt
  have hcount : (ofNat (min length.toNat (rb.capacity - n))).toNat =
      min length.toNat (rb.capacity - n) := by
    rw [toNat_ofNat']
    omega
  rw [h.put, hcount]
  exact ⟨⟨_, h.wrote (by omega) _⟩, h.stored_stores (by omega) ptr⟩

/-- A bulk get takes the oldest bytes; it takes none only when there are none or none is asked
for. -/
theorem Ok.get_spec (h : rb.Ok n) (ptr : ℕ → UInt8) (length : UInt16) :
    (∃ n', (rb.rtRingbufferGet ptr length).1.Ok n') ∧
      rb.stored = (List.range (rb.rtRingbufferGet ptr length).2.2.toNat).map
        (rb.rtRingbufferGet ptr length).2.1 ++ (rb.rtRingbufferGet ptr length).1.stored ∧
      (rb.rtRingbufferGet ptr length).2.2.toNat = min length.toNat n := by
  have hlt := length.toNat_lt
  have hcount : (ofNat (min length.toNat n)).toNat = min length.toNat n := by
    rw [toNat_ofNat']
    omega
  obtain ⟨m, hm⟩ : ∃ m, n = m + min length.toNat n := ⟨n - min length.toNat n, by omega⟩
  have hok : rb.Ok (m + min length.toNat n) := by rwa [← hm]
  -- what is copied is the front of what is stored
  have hfront : (List.range (min length.toNat n)).map
      (copyFrom ptr 0 rb.byteAt (min length.toNat n)) = rb.stored.take (min length.toNat n) := by
    rw [h.stored, ← map_take, take_range, min_eq_left (min_le_right _ _)]
    refine map_congr_left fun x hx => ?_
    have hx' := mem_range.1 hx
    simp only [copyFrom]
    rw [if_pos (by omega), Nat.sub_zero]
  rw [h.get, hcount]
  refine ⟨⟨m, hok.left⟩, ?_, rfl⟩
  rw [hok.stored_left, hfront, take_append_drop]

end RingBuffer

/-! ### Bounded queues of bytes -/

/-- A bounded queue of bytes, the oldest first. -/
structure ByteFifo where
  capacity : ℕ
  bytes : List UInt8

/-- A call of the ring buffer. -/
inductive RingCall
  | put (ptr : ℕ → UInt8) (length : UInt16)
  | putchar (ch : UInt8)
  | get (ptr : ℕ → UInt8) (length : UInt16)
  | getchar
  | reset

/-- What a call returns: a number, with the memory that is written to, a character or nothing. -/
inductive RingRet
  | count (n : UInt32)
  | data (ptr : ℕ → UInt8) (n : UInt32)
  | char (ch : Option UInt8)
  | void

namespace ByteFifo

/-- As many of the `length` bytes from `ptr` on as fit are appended. -/
def put (ptr : ℕ → UInt8) (length : ℕ) (q : ByteFifo) : ByteFifo × UInt32 :=
  let m := min length (q.capacity - q.bytes.length)
  ({ q with bytes := q.bytes ++ (List.range m).map ptr }, .ofNat m)

/-- The oldest bytes, at most `length` of them, are taken. -/
def get (length : ℕ) (q : ByteFifo) : ByteFifo × List UInt8 :=
  ({ q with bytes := q.bytes.drop length }, q.bytes.take length)

/-- A call of the queue, which is shown with what it returns. -/
def step (q : ByteFifo) (call : RingCall) : Option (ByteFifo × List (RingCall × RingRet)) :=
  match call with
  | .put ptr length =>
    let (q, n) := q.put ptr length.toNat
    some (q, [(call, .count n)])
  | .putchar ch =>
    let (q, n) := q.put (fun _ => ch) 1
    some (q, [(call, .count n)])
  | .get ptr length =>
    let (q, bytes) := q.get length.toNat
    some (q, [(call, .data (fun x => bytes[x]?.getD (ptr x)) (.ofNat bytes.length))])
  | .getchar =>
    let (q, bytes) := q.get 1
    some (q, [(call, .char bytes.head?)])
  | .reset => some ({ q with bytes := [] }, [(call, .void)])

end ByteFifo

namespace RingBuffer

/-- A call of the ring buffer, which is shown with what it returns. -/
def step (rb : RingBuffer) (call : RingCall) : Option (RingBuffer × List (RingCall × RingRet)) :=
  match call with
  | .put ptr length =>
    let (rb, n) := rb.rtRingbufferPut ptr length
    some (rb, [(call, .count n)])
  | .putchar ch =>
    let (rb, n) := rb.rtRingbufferPutchar ch
    some (rb, [(call, .count n)])
  | .get ptr length =>
    let (rb, ptr, n) := rb.rtRingbufferGet ptr length
    some (rb, [(call, .data ptr n)])
  | .getchar =>
    let (rb, ch) := rb.rtRingbufferGetchar
    some (rb, [(call, .char ch)])
  | .reset => some (rb.rtRingbufferReset, [(call, .void)])

/-- The queue that a ring buffer stands for. -/
def fifo (rb : RingBuffer) : ByteFifo := ⟨rb.capacity, rb.stored⟩

variable {rb rb' : RingBuffer} {n : ℕ} {call : RingCall} {out : List (RingCall × RingRet)}

theorem Ok.length_stored (h : rb.Ok n) : rb.stored.length = n := by
  rw [h.stored, length_map, length_range]

theorem Ok.fifo_put (h : rb.Ok n) (ptr : ℕ → UInt8) (length : ℕ) :
    rb.fifo.put ptr length = ((rb.stores ptr (min length (rb.capacity - n))).fifo,
      .ofNat (min length (rb.capacity - n))) := by
  have hle := h.le_capacity
  have hstored := h.stored_stores (m := min length (rb.capacity - n)) (by omega) ptr
  simp only [ByteFifo.put, fifo, h.length_stored, hstored]
  rfl

theorem Ok.fifo_get (h : rb.Ok n) (length : ℕ) :
    rb.fifo.get length = ((rb.left (min length n)).fifo,
      (List.range (min length n)).map rb.byteAt) := by
  obtain ⟨m, hm⟩ : ∃ m, n = m + min length n := ⟨n - min length n, by omega⟩
  have hok : rb.Ok (m + min length n) := by rwa [← hm]
  have hdrop : rb.stored.drop length = rb.stored.drop (min length n) := by
    rcases le_total length n with hle | hle
    · rw [min_eq_left hle]
    · rw [min_eq_right hle, drop_eq_nil_of_le (by rw [h.length_stored]; exact hle),
        drop_eq_nil_of_le (by rw [h.length_stored])]
  have htake : rb.stored.take length = (List.range (min length n)).map rb.byteAt := by
    rw [h.stored, ← map_take, take_range]
  simp only [ByteFifo.get, fifo, hdrop, htake, hok.stored_left]
  rfl

theorem Ok.step (h : rb.Ok n) (hs : rb.step call = some (rb', out)) :
    (∃ n', rb'.Ok n') ∧ rb.fifo.step call = some (rb'.fifo, out) := by
  have hle := h.le_capacity
  have hlt := rb.capacity_lt
  have hleft : ∀ m, m ≤ n → (rb.left m).Ok (n - m) := by
    intro m hm
    have hsum : n - m + m = n := by omega
    exact Ok.left (by rwa [hsum])
  cases call with
  | put ptr length =>
    simp only [RingBuffer.step, h.put, Option.some.injEq, Prod.mk.injEq] at hs
    obtain ⟨rfl, rfl⟩ := hs
    refine ⟨⟨_, h.wrote (by omega) _⟩, ?_⟩
    simp only [ByteFifo.step, h.fifo_put]
  | putchar ch =>
    have hone : rb.rtRingbufferPutchar ch = rb.putchars (fun _ => ch) 1 := by
      simp [RingBuffer.putchars]
    simp only [RingBuffer.step, hone, h.putchars, Option.some.injEq, Prod.mk.injEq] at hs
    obtain ⟨rfl, rfl⟩ := hs
    refine ⟨⟨_, h.wrote (by omega) _⟩, ?_⟩
    simp only [ByteFifo.step, h.fifo_put]
  | get ptr length =>
    simp only [RingBuffer.step, h.get, Option.some.injEq, Prod.mk.injEq] at hs
    obtain ⟨rfl, rfl⟩ := hs
    refine ⟨⟨_, hleft _ (by omega)⟩, ?_⟩
    have hptr : (fun x => ((List.range (min length.toNat n)).map rb.byteAt)[x]?.getD (ptr x)) =
        copyFrom ptr 0 rb.byteAt (min length.toNat n) := by
      funext x
      simp only [copyFrom, getElem?_map]
      by_cases hx : x < min length.toNat n
      · rw [getElem?_range hx, if_pos (by omega)]
        rfl
      · rw [getElem?_eq_none (by rw [length_range]; omega), if_neg (by omega)]
        rfl
    simp only [ByteFifo.step, h.fifo_get, hptr, length_map, length_range]
  | getchar =>
    refine (Nat.eq_zero_or_pos n).elim ?_ ?_
    · rintro rfl
      simp only [RingBuffer.step, h.getchar_empty, Option.some.injEq, Prod.mk.injEq] at hs
      obtain ⟨rfl, rfl⟩ := hs
      refine ⟨⟨_, h⟩, ?_⟩
      simp only [ByteFifo.step, h.fifo_get, Nat.min_zero, left_zero]
      rfl
    · intro hpos
      simp only [RingBuffer.step, h.getchar hpos, Option.some.injEq, Prod.mk.injEq] at hs
      obtain ⟨rfl, rfl⟩ := hs
      refine ⟨⟨_, hleft 1 hpos⟩, ?_⟩
      simp only [ByteFifo.step, h.fifo_get, min_eq_left (show 1 ≤ n from hpos)]
      rfl
  | reset =>
    simp only [RingBuffer.step, Option.some.injEq, Prod.mk.injEq] at hs
    obtain ⟨rfl, rfl⟩ := hs
    have hok : rb.rtRingbufferReset.Ok 0 :=
      ⟨h.size_nonneg, Nat.zero_le _, Nat.zero_le _, Nat.zero_le _, rfl⟩
    refine ⟨⟨0, hok⟩, ?_⟩
    simp only [ByteFifo.step, fifo, hok.stored]
    rfl

/-! ### Every sequence of calls -/

theorem toInt_init {size : Int16} (hsize : 0 < size) (pool : ℕ → UInt8) :
    (rtRingbufferInit pool size).bufferSize.toInt = (size.toInt.toNat / 4 * 4 : ℕ) := by
  have hpos : 0 < size.toInt := by simpa using Int16.lt_iff_toInt_lt.1 hsize
  have hmsb : size.toBitVec.toInt = size.toBitVec.toNat := by
    have hcases := BitVec.toInt_eq_toNat_cond size.toBitVec
    have hlt := size.toBitVec.isLt
    have hpos' : 0 < size.toBitVec.toInt := hpos
    split at hcases
    · exact hcases
    · omega
  have hnat : size.toInt.toNat = size.toBitVec.toNat := by
    have hint : size.toInt = size.toBitVec.toNat := hmsb
    rw [hint, Int.toNat_natCast]
  have hmask : (rtRingbufferInit pool size).bufferSize.toBitVec.toNat =
      size.toBitVec.toNat / 4 * 4 := by
    have hround : size.toBitVec.toNat / 4 * 4 = (size.toBitVec.toNat >>> 2) <<< 2 := by
      rw [Nat.shiftRight_eq_div_pow, Nat.shiftLeft_eq]
    have hbits : (rtRingbufferInit pool size).bufferSize.toBitVec =
        size.toBitVec &&& BitVec.ofNat 16 ((2 ^ 14 - 1) <<< 2) := rfl
    rw [hbits, hround]
    apply Nat.eq_of_testBit_eq
    intro i
    rw [BitVec.toNat_and, BitVec.toNat_ofNat, Nat.testBit_and, Nat.testBit_shiftLeft,
      Nat.testBit_shiftRight, Nat.testBit_mod_two_pow, Nat.testBit_shiftLeft,
      Nat.testBit_two_pow_sub_one]
    by_cases hi : 2 ≤ i
    · have hadd : 2 + (i - 2) = i := by omega
      by_cases hlt : i < 16
      · simp [hi, hadd, hlt, show i - 2 < 14 by omega]
      · have hfalse : size.toBitVec.toNat.testBit i = false :=
          Nat.testBit_lt_two_pow (size.toBitVec.isLt.trans_le
            (Nat.pow_le_pow_right (by decide) (not_lt.1 hlt)))
        simp [hadd, hfalse]
    · simp [hi]
  have hlt := size.toBitVec.isLt
  have hlt' : size.toBitVec.toNat < 2 ^ 15 := by
    have hlt := Int16.toInt_lt size
    omega
  rw [hnat, ← hmask]
  exact BitVec.toInt_eq_toNat_of_lt (by rw [hmask]; omega)

theorem ok_init {size : Int16} (hsize : 0 < size) (pool : ℕ → UInt8) :
    (rtRingbufferInit pool size).Ok 0 := by
  refine ⟨?_, Nat.zero_le _, Nat.zero_le _, Nat.zero_le _, rfl⟩
  rw [toInt_init hsize]
  omega

/-- **Every sequence of calls** of a buffer behaves as on a bounded queue of bytes, whose
capacity is the size rounded down to a multiple of `RT_ALIGN_SIZE`. -/
theorem run_boundedFifo (pool : ℕ → UInt8) (size : Int16) (hsize : 0 < size)
    (tr : List (RingCall × RingRet)) (rb : RingBuffer)
    (hrun : Run step (fun _ _ => True) (rtRingbufferInit pool size) tr rb) :
    (∃ q : ByteFifo, Run ByteFifo.step (fun _ _ => True) ⟨size.toInt.toNat / 4 * 4, []⟩ tr q ∧
      rb.rtRingbufferDataLen.toNat = q.bytes.length) ∧
    (∀ ptr length, rb.rtRingbufferPut ptr length = rb.putchars ptr length.toNat) ∧
    ∀ ptr length, rb.rtRingbufferGet ptr length = rb.getchars ptr length.toNat := by
  have hok := ok_init hsize pool
  obtain ⟨⟨n, h⟩, hfifo⟩ : (∃ n, rb.Ok n) ∧
      Run ByteFifo.step (fun _ _ => True) (rtRingbufferInit pool size).fifo tr rb.fifo := by
    apply hrun.refines fifo (fun _ call => some call) (fun rb => ∃ n, rb.Ok n) ⟨0, hok⟩
      (fun _ _ => trivial)
    rintro rb call rb' out ⟨n, hn⟩ hs
    obtain ⟨hok', hstep⟩ := hn.step hs
    exact ⟨hok', .inr ⟨call, rfl, hstep⟩⟩
  have hempty : (rtRingbufferInit pool size).fifo = ⟨size.toInt.toNat / 4 * 4, []⟩ := by
    rw [fifo, hok.stored, capacity, toInt_init hsize, Int.toNat_natCast]
    rfl
  rw [hempty] at hfifo
  refine ⟨⟨rb.fifo, hfifo, ?_⟩, fun ptr length => h.put_eq_putchars ptr length,
    fun ptr length => h.get_eq_getchars ptr length⟩
  rw [h.dataLen]
  exact h.length_stored.symm

/-- Three bytes are put into a buffer of capacity four, two are read, and three more fit. -/
def goesRound : List RingCall :=
  [.put (fun i => .ofNat i) 3, .get (fun _ => 0) 2, .put (fun i => .ofNat (3 + i)) 5]

theorem run_boundedFifo_goesRound :
    ∃ (tr : List (RingCall × RingRet)) (rb : RingBuffer),
      rb.stored = [2, 3, 4, 5] ∧ rb.writeMirror = true ∧
        (∃ q : ByteFifo, Run ByteFifo.step (fun _ _ => True) ⟨4, []⟩ tr q ∧
          rb.rtRingbufferDataLen.toNat = q.bytes.length) := by
  have hsome : (exec step (fun _ _ => True) (rtRingbufferInit (fun _ => 0) 7) goesRound).any
      fun r => r.1.stored = [2, 3, 4, 5] ∧ r.1.writeMirror = true := by
    decide +kernel
  obtain ⟨rb, tr, hrun, hstored, hmirror⟩ := Run.of_any hsome
  exact ⟨tr, rb, hstored, hmirror, (run_boundedFifo (fun _ => 0) 7 (by decide) tr rb hrun).1⟩

/-- A buffer that is asked for with the size three stores **nothing**. -/
theorem not_run_boundedFifo :
    ¬ ∀ (pool : ℕ → UInt8) (size : Int16) (_ : 0 < size) (tr : List (RingCall × RingRet))
      (rb : RingBuffer), Run step (fun _ _ => True) (rtRingbufferInit pool size) tr rb →
        ∃ q : ByteFifo, Run ByteFifo.step (fun _ _ => True) ⟨size.toInt.toNat, []⟩ tr q ∧
          rb.rtRingbufferDataLen.toNat = q.bytes.length := by
  intro h
  obtain ⟨q, hrun, -⟩ := h (fun _ => 0) 3 (by decide) [(.putchar 7, .count 0)] _
    (Run.snoc (a := .putchar 7) Run.nil trivial rfl)
  -- the queue stores its first character
  have hfirst := hrun.invariant
    (fun tr q => (tr = [] → q = ⟨(3 : Int16).toInt.toNat, []⟩) ∧
      tr ≠ [(.putchar 7, .count 0)]) ⟨fun _ => rfl, nofun⟩ ?_
  · exact hfirst.2 rfl
  · rintro tr q call q' out ⟨hq, -⟩ - hs
    refine ⟨?_, ?_⟩
    · intro hnil
      rw [(append_eq_nil_iff.1 hnil).2] at hs
      cases call <;> simp [ByteFifo.step] at hs
    · intro htr
      cases tr with
      | nil =>
        rw [nil_append] at htr
        rw [htr, hq rfl] at hs
        cases call with
        | putchar ch =>
          simp only [ByteFifo.step, Option.some.injEq, Prod.mk.injEq, List.cons.injEq] at hs
          have hcount : (ByteFifo.put (fun _ => ch) 1 ⟨(3 : Int16).toInt.toNat, []⟩).2 = 1 := rfl
          rw [hcount] at hs
          have hret : RingRet.count 1 = RingRet.count 0 := hs.2.1.2
          exact absurd (RingRet.count.inj hret) (by decide)
        | _ => simp [ByteFifo.step] at hs
      | cons e tr =>
        rw [cons_append, List.cons.injEq, append_eq_nil_iff] at htr
        rw [htr.2.2] at hs
        cases call <;> simp [ByteFifo.step] at hs

end RingBuffer

end RtThread
