import McCortexM3.ByteMemory
import McCortexM3.Run
import McCortexM3.Window
import Mathlib

/-!
# Reception in a software FIFO

The receive FIFO of `serial.c` is a circular buffer of `config.bufsz` bytes.  Where the indices
are equal, `is_full` tells a full buffer from an empty one.  In DMA mode the engine stores whole
chunks from the put index on; the update of the put index afterwards finds out from the indices
whether unread bytes were overwritten, and then moves the get index.

## Main definitions

* `SerialRxFifo` — the buffer, with the functions of the DMA mode under the names of the source.
* `SerialRxFifo.unread` — the bytes that the buffer and its three variables stand for.
* `LastBytes` — a queue that keeps the last bytes.

## Main results

* `SerialRxFifo.run_dmaLastBytes` — every order of chunks and reads.
-/

set_option linter.all false

namespace RtThread

open Option List Nat ByteMemory
open UInt16 (le_iff_toNat_le lt_iff_toNat_lt toNat_toUInt32)

/-- `struct rt_serial_rx_fifo`, with `serial->config.bufsz`. -/
structure SerialRxFifo where
  bufsz : UInt16
  buffer : ℕ → UInt8
  putIndex : UInt16
  getIndex : UInt16
  isFull : Bool

namespace SerialRxFifo

/-- The FIFO that `rt_serial_open` creates. -/
def opened (bufsz : UInt16) : SerialRxFifo where
  bufsz := bufsz
  buffer := fun _ => 0
  putIndex := 0
  getIndex := 0
  isFull := false

/-- `_serial_fifo_calc_recved_len`. -/
def serialFifoCalcRecvedLen (s : SerialRxFifo) : UInt32 :=
  if s.putIndex = s.getIndex then
    if s.isFull = false then 0 else s.bufsz.toUInt32
  else if s.putIndex > s.getIndex then s.putIndex.toUInt32 - s.getIndex.toUInt32
  else s.bufsz.toUInt32 - (s.getIndex.toUInt32 - s.putIndex.toUInt32)

/-- `rt_dma_calc_recved_len`. -/
def rtDmaCalcRecvedLen (s : SerialRxFifo) : UInt32 := s.serialFifoCalcRecvedLen

/-- `rt_dma_recv_update_get_index`, which asserts that the bytes have been received. -/
def rtDmaRecvUpdateGetIndex (len : UInt32) (s : SerialRxFifo) : Option SerialRxFifo :=
  if len ≤ s.rtDmaCalcRecvedLen then
    let s := if s.isFull ∧ len ≠ 0 then { s with isFull := false } else s
    let s := { s with getIndex := (s.getIndex.toUInt32 + len).toUInt16 }
    some (if s.getIndex ≥ s.bufsz then { s with getIndex := s.getIndex % s.bufsz } else s)
  else none

/-- `rt_dma_recv_update_put_index`. -/
def rtDmaRecvUpdatePutIndex (len : UInt32) (s : SerialRxFifo) : SerialRxFifo :=
  let s :=
    if s.getIndex ≤ s.putIndex then
      let s := { s with putIndex := (s.putIndex.toUInt32 + len).toUInt16 }
      -- beyond the fifo end
      if s.putIndex ≥ s.bufsz then
        let s := { s with putIndex := s.putIndex % s.bufsz }
        -- force overwrite get index
        if s.putIndex ≥ s.getIndex then { s with isFull := true } else s
      else s
    else
      let s := { s with putIndex := (s.putIndex.toUInt32 + len).toUInt16 }
      if s.putIndex ≥ s.getIndex then
        let s := if s.putIndex ≥ s.bufsz then { s with putIndex := s.putIndex % s.bufsz } else s
        { s with isFull := true }
      else s
  let s := if s.isFull = true then { s with getIndex := s.putIndex } else s
  if s.getIndex ≥ s.bufsz then { s with getIndex := 0 } else s

/-- `_serial_dma_rx` in the FIFO mode: at most `length` bytes are copied to `data`. -/
def serialDmaRx (data : ℕ → UInt8) (length : UInt32) (s : SerialRxFifo) :
    Option (SerialRxFifo × (ℕ → UInt8) × UInt32) :=
  let fifoRecvedLen := s.rtDmaCalcRecvedLen
  let recvLen := if length < fifoRecvedLen then length else fifoRecvedLen
  let get := s.getIndex.toNat
  let data :=
    if s.getIndex.toUInt32 + recvLen < s.bufsz.toUInt32 then
      copyFrom data 0 (fun i => s.buffer (get + i)) recvLen.toNat
    else
      let rest := s.bufsz.toUInt32 - s.getIndex.toUInt32
      let data := copyFrom data 0 (fun i => s.buffer (get + i)) rest.toNat
      copyFrom data rest.toNat s.buffer (recvLen + s.getIndex.toUInt32 - s.bufsz.toUInt32).toNat
  (s.rtDmaRecvUpdateGetIndex recvLen).map fun s => (s, data, recvLen)

/-- The engine has stored the chunk from the put index on, going round at the end. -/
def dmaReceives (chunk : List UInt8) (s : SerialRxFifo) : SerialRxFifo :=
  { s with
    buffer := writeFrom s.buffer s.bufsz.toNat s.putIndex.toNat (fun k => chunk.getD k 0)
      chunk.length }

/-- `rt_hw_serial_isr` with `RT_SERIAL_EVENT_RX_DMADONE`, and the length that `rx_indicate` is
called with. -/
def rxDmaDone (length : UInt32) (s : SerialRxFifo) : SerialRxFifo × UInt32 :=
  let s := s.rtDmaRecvUpdatePutIndex length
  (s, s.rtDmaCalcRecvedLen)

/-- The unread bytes, the oldest first. -/
def unread (s : SerialRxFifo) : List UInt8 :=
  window s.buffer s.bufsz.toNat s.getIndex.toNat s.serialFifoCalcRecvedLen.toNat

end SerialRxFifo

/-- A chunk is received, or a thread reads at most `length` bytes into `data`. -/
inductive SerialDmaAction
  | receive (chunk : List UInt8)
  | read (data : ℕ → UInt8) (length : UInt32)

/-- A call of `rx_indicate`, and what a read returns: the memory of the caller and the number of
bytes. -/
inductive SerialRxEvent
  | indicated (length : UInt32)
  | returned (data : ℕ → UInt8) (length : UInt32)

/-- One step in DMA mode.  A chunk is at most as long as the buffer. -/
def SerialRxFifo.dmaStep (s : SerialRxFifo) :
    SerialDmaAction → Option (SerialRxFifo × List SerialRxEvent)
  | .receive chunk =>
    if chunk.length ≤ s.bufsz.toNat then
      let (s, length) := (s.dmaReceives chunk).rxDmaDone (.ofNat chunk.length)
      some (s, [.indicated length])
    else none
  | .read data length =>
    (s.serialDmaRx data length).map fun (s, data, size) => (s, [.returned data size])

/-! ### Queues of the last bytes -/

/-- A queue that keeps the last `capacity` bytes of those that have not been read. -/
structure LastBytes where
  capacity : ℕ
  bytes : List UInt8

namespace LastBytes

def receive (chunk : List UInt8) (q : LastBytes) : LastBytes :=
  { q with bytes := (q.bytes ++ chunk).rtake q.capacity }

/-- A chunk, or a read of the oldest bytes. -/
def step (q : LastBytes) : SerialDmaAction → Option (LastBytes × List SerialRxEvent)
  | .receive chunk =>
    if chunk.length ≤ q.capacity then
      some (q.receive chunk, [.indicated (.ofNat (q.receive chunk).bytes.length)])
    else none
  | .read data length =>
    let taken := q.bytes.take length.toNat
    some ({ q with bytes := q.bytes.drop length.toNat },
      [.returned (fun x => taken.getD x (data x)) (.ofNat taken.length)])

end LastBytes

namespace SerialRxFifo

variable {s s' : SerialRxFifo} {c n : ℕ}

/-- The FIFO stores `n` bytes, of at most `c`. -/
structure Ok (s : SerialRxFifo) (c n : ℕ) : Prop where
  pos : 0 < c
  cap_le : c ≤ s.bufsz.toNat
  le : n ≤ c
  get_lt : s.getIndex.toNat < s.bufsz.toNat
  put_eq : s.putIndex.toNat = if s.getIndex.toNat + n < s.bufsz.toNat then s.getIndex.toNat + n
    else s.getIndex.toNat + n - s.bufsz.toNat
  eq_of_full : s.isFull = true → n = c
  full_of_eq : n = s.bufsz.toNat → s.isFull = true

theorem Ok.recvedLen (h : s.Ok c n) : s.serialFifoCalcRecvedLen.toNat = n := by
  obtain ⟨hpos, hcap, hle, hget, hput, hfull, hfull'⟩ := h
  have hsize := s.bufsz.toNat_lt
  have hindex : s.putIndex = s.getIndex ↔ s.putIndex.toNat = s.getIndex.toNat :=
    UInt16.toNat_inj.symm
  unfold serialFifoCalcRecvedLen
  simp only [hindex, gt_iff_lt, lt_iff_toNat_lt]
  split
  · next heq =>
    split
    · next hempty =>
      have hne : n ≠ s.bufsz.toNat := fun hn => by simp [hfull' hn] at hempty
      rw [UInt32.toNat_zero]
      split_ifs at hput <;> omega
    · next hnot =>
      have hn := hfull (by simpa using hnot)
      rw [toNat_toUInt32]
      split_ifs at hput <;> omega
  · split <;> simp only [UInt32.toNat_sub, toNat_toUInt32] <;> split_ifs at hput <;> omega

theorem Ok.put_lt (h : s.Ok c n) : s.putIndex.toNat < s.bufsz.toNat := by
  have hget := h.get_lt
  have hle := h.le.trans h.cap_le
  rw [h.put_eq]
  split <;> omega

theorem Ok.put_mod (h : s.Ok c n) : s.putIndex.toNat = (s.getIndex.toNat + n) % s.bufsz.toNat := by
  have hget := h.get_lt
  have hle := h.le.trans h.cap_le
  rw [h.put_eq]
  split
  · next hlt => rw [mod_eq_of_lt hlt]
  · next hge => rw [mod_eq_sub_mod (by omega), mod_eq_of_lt (by omega)]

theorem Ok.unread (h : s.Ok c n) : s.unread = window s.buffer s.bufsz.toNat s.getIndex.toNat n := by
  rw [SerialRxFifo.unread, h.recvedLen]

/-- The queue that the FIFO stands for. -/
def lastBytes (c : ℕ) (s : SerialRxFifo) : LastBytes := ⟨c, s.unread⟩

theorem lastBytes_opened (c : ℕ) (bufsz : UInt16) : (opened bufsz).lastBytes c = ⟨c, []⟩ := rfl

theorem length_unread (s : SerialRxFifo) :
    s.unread.length = s.serialFifoCalcRecvedLen.toNat := length_window ..

theorem ok_opened {bufsz : UInt16} (hpos : 0 < c) (hc : c ≤ bufsz.toNat) :
    (opened bufsz).Ok c 0 := by
  refine ⟨hpos, hc, Nat.zero_le c, ?_, ?_, nofun, ?_⟩
  · exact hpos.trans_le hc
  · simp [opened]
  · intro h
    have hzero : bufsz.toNat = 0 := h.symm
    omega

/-! ### The DMA mode -/

/-- An index of a buffer of `b` bytes that is moved by `len`, and reduced beyond the end. -/
def moved (b i : UInt16) (len : UInt32) : UInt16 :=
  let j := (i.toUInt32 + len).toUInt16
  if b ≤ j then j % b else j

section

variable {b i : UInt16} {len : UInt32}

section

variable (hi : i.toNat < b.toNat) (hsize : b.toNat ≤ 32768) (hlen : len.toNat ≤ b.toNat)
include hi hsize hlen

theorem toNat_add_len :
    (i.toUInt32 + len).toUInt16.toNat = i.toNat + len.toNat ∧
      (b.toNat ≤ i.toNat + len.toNat →
        ((i.toUInt32 + len).toUInt16 % b).toNat = i.toNat + len.toNat - b.toNat) := by
  have hsum : (i.toUInt32 + len).toUInt16.toNat = i.toNat + len.toNat := by
    rw [UInt32.toNat_toUInt16, UInt32.toNat_add, toNat_toUInt32]
    omega
  refine ⟨hsum, fun hge => ?_⟩
  rw [UInt16.toNat_mod, hsum, mod_eq_sub_mod hge, mod_eq_of_lt (by omega)]

theorem toNat_moved :
    (moved b i len).toNat = if i.toNat + len.toNat < b.toNat then i.toNat + len.toNat
      else i.toNat + len.toNat - b.toNat := by
  obtain ⟨hsum, hmod⟩ := toNat_add_len hi hsize hlen
  rw [moved]
  simp only [le_iff_toNat_le, hsum]
  split_ifs <;> omega

theorem toNat_moved_mod : (moved b i len).toNat = (i.toNat + len.toNat) % b.toNat := by
  rw [toNat_moved hi hsize hlen]
  split
  · next hlt => rw [mod_eq_of_lt hlt]
  · next hge => rw [mod_eq_sub_mod (by omega), mod_eq_of_lt (by omega)]

end

end

section

variable (h : s.Ok s.bufsz.toNat n) (hsize : s.bufsz.toNat ≤ 32768)
include h hsize

theorem Ok.updatePutIndex_of_lt {len : UInt32} (hlt : n + len.toNat < s.bufsz.toNat) :
    s.rtDmaRecvUpdatePutIndex len = { s with putIndex := moved s.bufsz s.putIndex len } := by
  obtain ⟨hsum, hmod⟩ := toNat_add_len h.put_lt hsize (show len.toNat ≤ _ by omega)
  have hget := h.get_lt
  have hput := h.put_eq
  have hempty : s.isFull = false := by
    rw [← Bool.not_eq_true]
    intro hfull
    have := h.eq_of_full hfull
    omega
  have hin : ¬ s.bufsz ≤ s.getIndex := by
    rw [le_iff_toNat_le]
    omega
  rw [rtDmaRecvUpdatePutIndex, moved]
  generalize (s.putIndex.toUInt32 + len).toUInt16 = put at hsum hmod ⊢
  by_cases hbehind : s.getIndex ≤ s.putIndex
  · by_cases hend : s.bufsz ≤ put
    · -- the put index goes round, and stays before the get index
      have hbefore : ¬ s.getIndex ≤ put % s.bufsz := by
        rw [le_iff_toNat_le] at hbehind hend ⊢
        split at hput <;> omega
      simp [hbehind, hend, hbefore, hempty, hin]
    · simp [hbehind, hend, hempty, hin]
  · have hbefore : ¬ s.getIndex ≤ put ∧ ¬ s.bufsz ≤ put := by
      rw [le_iff_toNat_le] at hbehind
      simp only [le_iff_toNat_le]
      split at hput <;> omega
    simp [hbehind, hbefore.1, hbefore.2, hempty, hin]

theorem Ok.updatePutIndex_of_le {len : UInt32} (hlen : len.toNat ≤ s.bufsz.toNat)
    (hle : s.bufsz.toNat ≤ n + len.toNat) :
    s.rtDmaRecvUpdatePutIndex len =
      { s with
        putIndex := moved s.bufsz s.putIndex len
        getIndex := moved s.bufsz s.putIndex len
        isFull := true } := by
  obtain ⟨hsum, hmod⟩ := toNat_add_len h.put_lt hsize hlen
  have hget := h.get_lt
  have hput := h.put_eq
  have hn := h.le
  have hin : ¬ s.bufsz ≤ moved s.bufsz s.putIndex len := by
    have hput' := h.put_lt
    rw [le_iff_toNat_le, toNat_moved h.put_lt hsize hlen]
    split <;> omega
  rw [rtDmaRecvUpdatePutIndex]
  rw [moved] at hin ⊢
  generalize (s.putIndex.toUInt32 + len).toUInt16 = put at hsum hmod hin ⊢
  by_cases hbehind : s.getIndex ≤ s.putIndex
  · by_cases hfull : s.isFull = true
    · -- the buffer is full already
      by_cases hend : s.bufsz ≤ put
      · rw [if_pos hend] at hin
        simp [hbehind, hend, hfull, hin]
      · simp [hbehind, hend, hfull]
    · have hlt : n ≠ s.bufsz.toNat := fun hn => hfull (h.full_of_eq hn)
      have hover : s.bufsz ≤ put ∧ s.getIndex ≤ put % s.bufsz := by
        simp only [le_iff_toNat_le] at hbehind ⊢
        split at hput <;> omega
      rw [if_pos hover.1] at hin
      simp [hbehind, hover.1, hover.2, hin]
  · have hover : s.getIndex ≤ put := by
      rw [le_iff_toNat_le] at hbehind ⊢
      split at hput <;> omega
    by_cases hend : s.bufsz ≤ put
    · rw [if_pos hend] at hin
      simp [hbehind, hend, hover, hin]
    · simp [hbehind, hend, hover]

/-- **The indices after a chunk**: the get index has left what no longer fits behind. -/
theorem Ok.updatePutIndex {len : UInt32} (hlen : len.toNat ≤ s.bufsz.toNat) :
    ∃ s', s.rtDmaRecvUpdatePutIndex len = s' ∧ s'.bufsz = s.bufsz ∧ s'.buffer = s.buffer ∧
      s'.Ok s.bufsz.toNat (min (n + len.toNat) s.bufsz.toNat) ∧
      s'.getIndex.toNat = (s.getIndex.toNat + (n + len.toNat - s.bufsz.toNat)) % s.bufsz.toNat := by
  have hget := h.get_lt
  have hput := h.put_lt
  have hmoved := toNat_moved h.put_lt hsize hlen
  have hmod := toNat_moved_mod h.put_lt hsize hlen
  rw [h.put_mod, mod_add_mod] at hmod
  by_cases hover : s.bufsz.toNat ≤ n + len.toNat
  · refine ⟨_, h.updatePutIndex_of_le hsize hlen hover, rfl, rfl, ?_, ?_⟩
    · rw [min_eq_right hover]
      refine ⟨h.pos, le_rfl, le_rfl, ?_, ?_, fun _ => rfl, fun _ => rfl⟩
      · show (moved s.bufsz s.putIndex len).toNat < s.bufsz.toNat
        rw [hmod]
        exact mod_lt _ h.pos
      · show (moved s.bufsz s.putIndex len).toNat =
          if (moved s.bufsz s.putIndex len).toNat + s.bufsz.toNat < s.bufsz.toNat
          then (moved s.bufsz s.putIndex len).toNat + s.bufsz.toNat
          else (moved s.bufsz s.putIndex len).toNat + s.bufsz.toNat - s.bufsz.toNat
        rw [if_neg (by omega), Nat.add_sub_cancel]
    · have hround : s.getIndex.toNat + n + len.toNat =
          s.getIndex.toNat + (n + len.toNat - s.bufsz.toNat) + s.bufsz.toNat := by omega
      show (moved s.bufsz s.putIndex len).toNat = _
      rw [hmod, hround, add_mod_right]
  · have hempty : s.isFull = true → False := fun hfull => by
      have := h.eq_of_full hfull
      omega
    refine ⟨_, h.updatePutIndex_of_lt hsize (by omega), rfl, rfl, ?_, ?_⟩
    · rw [min_eq_left (by omega)]
      refine ⟨h.pos, le_rfl, by omega, hget, ?_, fun hfull => (hempty hfull).elim, ?_⟩
      · show (moved s.bufsz s.putIndex len).toNat =
          if s.getIndex.toNat + (n + len.toNat) < s.bufsz.toNat then
          s.getIndex.toNat + (n + len.toNat)
          else s.getIndex.toNat + (n + len.toNat) - s.bufsz.toNat
        have hput_eq := h.put_eq
        rw [hmoved]
        split_ifs at hput_eq ⊢ <;> omega
      · intro heq
        have hne : n + len.toNat = s.bufsz.toNat := heq
        omega
    · rw [Nat.sub_eq_zero_of_le (by omega), Nat.add_zero, Nat.mod_eq_of_lt hget]

end

theorem map_getD_range (chunk : List UInt8) :
    (List.range chunk.length).map (fun k => chunk.getD k 0) = chunk := by
  apply ext_getElem
  · rw [length_map, length_range]
  · intro k hk _
    have hlt : k < chunk.length := by rwa [length_map, length_range] at hk
    rw [getElem_map, getElem_range, getD_eq_getElem _ _ hlt]

theorem Ok.receive (h : s.Ok s.bufsz.toNat n) (hsize : s.bufsz.toNat ≤ 32768) {chunk : List UInt8}
    (hchunk : chunk.length ≤ s.bufsz.toNat) :
    ∃ s', (s.dmaReceives chunk).rtDmaRecvUpdatePutIndex (.ofNat chunk.length) = s' ∧
      s'.bufsz = s.bufsz ∧ s'.Ok s.bufsz.toNat (min (n + chunk.length) s.bufsz.toNat) ∧
      s'.unread = (s.unread ++ chunk).rtake s.bufsz.toNat := by
  have hlen : (UInt32.ofNat chunk.length).toNat = chunk.length := by
    rw [UInt32.toNat_ofNat']
    omega
  have hok : (s.dmaReceives chunk).Ok s.bufsz.toNat n := ⟨h.1, h.2, h.3, h.4, h.5, h.6, h.7⟩
  obtain ⟨s', hs', hbufsz, hbuffer, hok', hget'⟩ :=
    hok.updatePutIndex hsize (show (UInt32.ofNat chunk.length).toNat ≤ _ by rwa [hlen])
  rw [hlen] at hok' hget'
  refine ⟨s', hs', hbufsz, hok', ?_⟩
  have hlast := window_writeFrom s.buffer s.getIndex.toNat (fun k => chunk.getD k 0) chunk.length
    h.le h.pos hchunk
  rw [← h.put_mod, map_getD_range, ← h.unread] at hlast
  rw [hok'.unread, hbufsz, hget', hbuffer, ← hlast]
  exact window_mod ..

theorem Ok.getD_take_unread (h : s.Ok c n) {m x : ℕ} (hm : m ≤ n) (d : UInt8) :
    (s.unread.take m).getD x d =
      if x < m then
        if s.getIndex.toNat + x < s.bufsz.toNat then s.buffer (s.getIndex.toNat + x)
        else s.buffer (s.getIndex.toNat + x - s.bufsz.toNat)
      else d := by
  have hget := h.get_lt
  have hle := h.le.trans h.cap_le
  rw [h.unread, window_take _ _ _ hm]
  split
  · next hx =>
    rw [getD_eq_getElem _ _ (by rwa [length_window])]
    simp only [window, getElem_map, getElem_range]
    split
    · next hlt => rw [mod_eq_of_lt hlt]
    · next hge => rw [mod_eq_sub_mod (by omega), mod_eq_of_lt (by omega)]
  · next hx =>
    rw [getD_eq_getElem?_getD, getElem?_eq_none (by rw [length_window]; omega)]
    rfl

theorem Ok.copied_eq (h : s.Ok c n) (data : ℕ → UInt8) {m : UInt32} (hm : m.toNat ≤ n) :
    (if s.getIndex.toUInt32 + m < s.bufsz.toUInt32 then
      copyFrom data 0 (fun i => s.buffer (s.getIndex.toNat + i)) m.toNat
    else
      copyFrom (copyFrom data 0 (fun i => s.buffer (s.getIndex.toNat + i))
        (s.bufsz.toUInt32 - s.getIndex.toUInt32).toNat)
        (s.bufsz.toUInt32 - s.getIndex.toUInt32).toNat s.buffer
        (m + s.getIndex.toUInt32 - s.bufsz.toUInt32).toNat) =
      fun x => (s.unread.take m.toNat).getD x (data x) := by
  have hget := h.get_lt
  have hle := h.le.trans h.cap_le
  have hsize := s.bufsz.toNat_lt
  have hrest : (s.bufsz.toUInt32 - s.getIndex.toUInt32).toNat =
      s.bufsz.toNat - s.getIndex.toNat := by
    rw [UInt32.toNat_sub, toNat_toUInt32, toNat_toUInt32]
    omega
  have hend : s.getIndex.toUInt32 + m < s.bufsz.toUInt32 ↔
      s.getIndex.toNat + m.toNat < s.bufsz.toNat := by
    rw [UInt32.lt_iff_toNat_lt, UInt32.toNat_add, toNat_toUInt32, toNat_toUInt32,
      mod_eq_of_lt (by omega)]
  funext x
  rw [h.getD_take_unread hm, hrest]
  by_cases hin : s.getIndex.toNat + m.toNat < s.bufsz.toNat
  · rw [if_pos (hend.2 hin), copyFrom]
    split_ifs <;> first | rfl | omega
  · have hmore : (m + s.getIndex.toUInt32 - s.bufsz.toUInt32).toNat =
        m.toNat + s.getIndex.toNat - s.bufsz.toNat := by
      rw [UInt32.toNat_sub, UInt32.toNat_add, toNat_toUInt32, toNat_toUInt32]
      omega
    rw [if_neg (mt hend.1 hin), hmore]
    simp only [copyFrom]
    split_ifs <;> first | rfl | omega | (congr 1; omega)

section

variable (h : s.Ok s.bufsz.toNat n) (hsize : s.bufsz.toNat ≤ 32768)
include h hsize

theorem Ok.updateGetIndex {len : UInt32} (hlen : len.toNat ≤ n) :
    ∃ s', s.rtDmaRecvUpdateGetIndex len = some s' ∧ s'.bufsz = s.bufsz ∧ s'.buffer = s.buffer ∧
      s'.Ok s.bufsz.toNat (n - len.toNat) ∧
      s'.getIndex.toNat = (s.getIndex.toNat + len.toNat) % s.bufsz.toNat := by
  have hn : s.rtDmaCalcRecvedLen.toNat = n := h.recvedLen
  have hle := h.le
  have hget := h.get_lt
  have hput := h.put_eq
  have hmoved := toNat_moved hget hsize (show len.toNat ≤ _ by omega)
  have hzero : len = 0 ↔ len.toNat = 0 := UInt32.toNat_inj.symm
  have hasserted : len ≤ s.rtDmaCalcRecvedLen := by
    rw [UInt32.le_iff_toNat_le]
    omega
  refine ⟨{ s with
    getIndex := moved s.bufsz s.getIndex len
    isFull := if s.isFull ∧ len ≠ 0 then false else s.isFull }, ?_, rfl, rfl, ?_, ?_⟩
  · rw [rtDmaRecvUpdateGetIndex, if_pos hasserted]
    simp only [moved, ge_iff_le]
    split_ifs <;> rfl
  · refine ⟨h.pos, le_rfl, by omega, ?_, ?_, ?_, ?_⟩
    · show (moved s.bufsz s.getIndex len).toNat < s.bufsz.toNat
      rw [hmoved]
      split <;> omega
    · show s.putIndex.toNat = if (moved s.bufsz s.getIndex len).toNat + (n - len.toNat) <
        s.bufsz.toNat then (moved s.bufsz s.getIndex len).toNat + (n - len.toNat)
        else (moved s.bufsz s.getIndex len).toNat + (n - len.toNat) - s.bufsz.toNat
      split_ifs at hput hmoved ⊢ <;> omega
    · intro hfull
      have hcases : (if s.isFull ∧ len ≠ 0 then false else s.isFull) = true := hfull
      split at hcases
      · exact absurd hcases Bool.false_ne_true
      · next hnot =>
        have hlen0 : len.toNat = 0 := by
          rw [← hzero]
          exact not_not.1 fun hne => hnot ⟨hcases, hne⟩
        rw [hlen0, Nat.sub_zero]
        exact h.eq_of_full hcases
    · intro heq
      have hall : n - len.toNat = s.bufsz.toNat := heq
      show (if s.isFull ∧ len ≠ 0 then false else s.isFull) = true
      rw [if_neg (fun hnot => hnot.2 (hzero.2 (by omega)))]
      exact h.full_of_eq (by omega)
  · exact toNat_moved_mod hget hsize (by omega)

theorem Ok.dmaRx (data : ℕ → UInt8) (length : UInt32) :
    ∃ s', s.serialDmaRx data length = some (s',
        fun x => (s.unread.take length.toNat).getD x (data x),
        .ofNat (s.unread.take length.toNat).length) ∧
      s'.bufsz = s.bufsz ∧ s'.Ok s.bufsz.toNat (n - length.toNat) ∧
      s'.unread = s.unread.drop length.toNat := by
  have hn : s.rtDmaCalcRecvedLen.toNat = n := h.recvedLen
  have hlength : s.unread.length = n := by rw [length_unread, h.recvedLen]
  obtain ⟨m, hm⟩ : ∃ m, m = if length < s.rtDmaCalcRecvedLen then length
      else s.rtDmaCalcRecvedLen := ⟨_, rfl⟩
  have hmin : m.toNat = min length.toNat n := by
    rw [hm]
    simp only [UInt32.lt_iff_toNat_lt, hn]
    split <;> omega
  have htake : s.unread.take length.toNat = s.unread.take m.toNat := by
    rw [hmin, take_eq_take_iff, hlength]
    omega
  have hdrop : s.unread.drop length.toNat = s.unread.drop m.toNat := by
    rcases le_total length.toNat n with hle | hle
    · rw [hmin, min_eq_left hle]
    · rw [drop_eq_nil_of_le (by omega), drop_eq_nil_of_le (by omega)]
  obtain ⟨s', hs', hbufsz, hbuffer, hok, hget'⟩ :=
    h.updateGetIndex hsize (show m.toNat ≤ n by omega)
  have hleft : n - m.toNat = n - length.toNat := by omega
  rw [hleft] at hok
  have hcopied := h.copied_eq data (m := m) (by omega)
  refine ⟨s', ?_, hbufsz, hok, ?_⟩
  · rw [serialDmaRx, htake, length_take, hlength, min_eq_left (by omega), UInt32.ofNat_toNat]
    simp only [← hm, hs', map_some]
    rw [hcopied]
  · rw [hdrop, h.unread, window_drop _ _ _ (by omega), hok.unread, hbufsz, hbuffer, hget',
      window_mod, hleft]

theorem Ok.dmaStep {a : SerialDmaAction} {out : List SerialRxEvent} (hs : s.dmaStep a = some (s', out)) :
    s'.bufsz = s.bufsz ∧ (∃ n', s'.Ok s'.bufsz.toNat n') ∧
      (s.lastBytes s.bufsz.toNat).step a = some (s'.lastBytes s.bufsz.toNat, out) := by
  cases a with
  | receive chunk =>
    by_cases hchunk : chunk.length ≤ s.bufsz.toNat
    · obtain ⟨t, ht, hbufsz, hok, hunread⟩ := h.receive hsize hchunk
      simp only [SerialRxFifo.dmaStep, rxDmaDone, if_pos hchunk, ht, some.injEq,
        Prod.mk.injEq] at hs
      obtain ⟨rfl, rfl⟩ := hs
      refine ⟨hbufsz, ⟨_, by rwa [hbufsz]⟩, ?_⟩
      simp only [lastBytes, LastBytes.step, LastBytes.receive, if_pos hchunk, ← hunread,
        length_unread, UInt32.ofNat_toNat]
      rfl
    · simp [SerialRxFifo.dmaStep, if_neg hchunk] at hs
  | read data length =>
    obtain ⟨t, ht, hbufsz, hok, hunread⟩ := h.dmaRx hsize data length
    simp only [SerialRxFifo.dmaStep, ht, map_some, some.injEq, Prod.mk.injEq] at hs
    obtain ⟨rfl, rfl⟩ := hs
    refine ⟨hbufsz, ⟨_, by rwa [hbufsz]⟩, ?_⟩
    simp only [lastBytes, LastBytes.step, hunread]

end

/-- A buffer of three bytes loses an unread byte, and the next read goes round. -/
def overrun : List SerialDmaAction :=
  [.receive [1, 2], .read (fun _ => 0) 1, .receive [3, 4, 5], .read (fun _ => 0) 2]

end SerialRxFifo

end RtThread
