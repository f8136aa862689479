import McCortexM3.Drivers.RingBuffer

/-!
# Overwriting in the ring buffer

`rt_ringbuffer_put_force` and `rt_ringbuffer_putchar_force` of `ringbuffer.c` make room by
discarding the oldest bytes.  To a full buffer both move the read index to the write index, and
a mirror bit of the read index is flipped when the write index goes round.  The bulk operation
flips it also when the write index has not been round before.

## Main definitions

* `rtRingbufferPutForce`, `rtRingbufferPutcharForce` — the two operations.
* `putcharsForce` — the characters one after the other.
* `overwrote` — the oldest bytes are read until the new ones fit, which are then put.
* `KeepsLast` — a bulk operation leaves the last bytes, as the single characters do.

## Main results

* `Ok.putcharsForce` — the single characters leave the last bytes.
* `keepsLast_iff` — the bulk operation does, unless it fills the buffer beyond its size while
  the mirror bits agree.
-/

set_option linter.all false

namespace RtThread

open List ByteMemory
open BitVec (eq_of_toNat_eq lt_def ofNat toNat_inj)
open Function (update)

namespace RingBuffer

/-- `rt_ringbuffer_put_force` of `length` bytes from `ptr` on. -/
def rtRingbufferPutForce (ptr : ℕ → UInt8) (length : UInt16) (rb : RingBuffer) :
    RingBuffer × UInt32 :=
  let spaceLength := rb.rtRingbufferSpaceLen.toUInt16
  let (ptr, length) :=
    if (length.toNat : ℤ) > rb.bufferSize.toInt then
      (fun i => ptr ((length.toNat - rb.bufferSize.toInt).toNat + i),
        UInt16.ofInt rb.bufferSize.toInt)
    else (ptr, length)
  -- the bytes up to the end of the buffer
  let rest := rb.bufferSize.toInt - rb.writeIndex.toNat
  if rest > length.toNat then
    let rb := { rb with
      bufferPtr := copyFrom rb.bufferPtr rb.writeIndex.toNat ptr length.toNat
      writeIndex := rb.writeIndex + .ofNat 15 length.toNat }
    if length > spaceLength then ({ rb with readIndex := rb.writeIndex }, length.toUInt32)
    else (rb, length.toUInt32)
  else
    let buffer := copyFrom rb.bufferPtr rb.writeIndex.toNat ptr rest.toNat
    let rb := { rb with
      bufferPtr := copyFrom buffer 0 (fun i => ptr (rest.toNat + i)) (length.toNat - rest).toNat
      writeMirror := !rb.writeMirror
      writeIndex := .ofInt 15 (length.toNat - rest) }
    if length > spaceLength then
      ({ rb with readMirror := !rb.readMirror, readIndex := rb.writeIndex }, length.toUInt32)
    else (rb, length.toUInt32)

/-- `rt_ringbuffer_putchar_force`. -/
def rtRingbufferPutcharForce (ch : UInt8) (rb : RingBuffer) : RingBuffer × UInt32 :=
  let oldState := rb.rtRingbufferStatus
  let rb := { rb with bufferPtr := update rb.bufferPtr rb.writeIndex.toNat ch }
  if (rb.writeIndex.toNat : ℤ) = rb.bufferSize.toInt - 1 then
    let rb := { rb with writeMirror := !rb.writeMirror, writeIndex := 0 }
    if oldState = .full then
      ({ rb with readMirror := !rb.readMirror, readIndex := rb.writeIndex }, 1)
    else (rb, 1)
  else
    let rb := { rb with writeIndex := rb.writeIndex + 1 }
    if oldState = .full then ({ rb with readIndex := rb.writeIndex }, 1) else (rb, 1)

/-- `k` calls of `rt_ringbuffer_putchar_force`. -/
def putcharsForce (ptr : ℕ → UInt8) : ℕ → RingBuffer → RingBuffer
  | 0, rb => rb
  | k + 1, rb => ((putcharsForce ptr k rb).rtRingbufferPutcharForce (ptr k)).1

/-- `rt_ringbuffer_put_force` leaves the last bytes of those that were stored and those that are
put, as many as the buffer holds, and so do the single characters. -/
def KeepsLast (ptr : ℕ → UInt8) (length : UInt16) (rb : RingBuffer) : Prop :=
  (rb.rtRingbufferPutForce ptr length).1.stored =
      (rb.stored ++ (List.range length.toNat).map ptr).rtake rb.capacity ∧
    (rb.rtRingbufferPutForce ptr length).1.stored = (rb.putcharsForce ptr length.toNat).stored

instance (ptr : ℕ → UInt8) (length : UInt16) (rb : RingBuffer) :
    Decidable (rb.KeepsLast ptr length) := inferInstanceAs (Decidable (_ ∧ _))

/-! ### The last bytes -/

section

variable {α : Type*} {l : List α}

theorem rtake_append_range (f : ℕ → α) (k c : ℕ) :
    (l ++ (List.range k).map f).rtake c =
      (l ++ (List.range (min k c)).map fun i => f (k - c + i)).rtake c := by
  rcases le_total k c with hk | hk
  · simp only [min_eq_left hk, Nat.sub_eq_zero_of_le hk, Nat.zero_add]
  · obtain ⟨m, rfl⟩ : ∃ m, k = m + c := ⟨k - c, by omega⟩
    rw [min_eq_right hk, Nat.add_sub_cancel, range_add, map_append, map_map,
      ← append_assoc, rtake_append_of_le (by simp), rtake_append_of_le (by simp)]
    simp only [length_map, length_range, Nat.add_sub_cancel, drop_length]
    rfl

end

/-! ### Making room -/

variable {rb : RingBuffer} {n m k : ℕ} {src : ℕ → UInt8}

/-- In a buffer that stores `n` bytes the oldest are left behind until `m` bytes fit, which are
then stored. -/
def overwrote (n : ℕ) (src : ℕ → UInt8) (m : ℕ) (rb : RingBuffer) : RingBuffer :=
  (rb.left (n + m - rb.capacity)).stores src m

@[simp] theorem capacity_overwrote (n : ℕ) (src : ℕ → UInt8) (m : ℕ) (rb : RingBuffer) :
    (rb.overwrote n src m).capacity = rb.capacity := rfl

theorem Ok.leaves (h : rb.Ok n) (hm : m ≤ rb.capacity) :
    (rb.left (n + m - rb.capacity)).Ok (n - (n + m - rb.capacity)) := by
  have hle := h.le_capacity
  have hsum : n - (n + m - rb.capacity) + (n + m - rb.capacity) = n := by omega
  exact Ok.left (by rwa [hsum])

theorem Ok.overwrote (h : rb.Ok n) (hm : m ≤ rb.capacity) (src : ℕ → UInt8) :
    (rb.overwrote n src m).Ok (min (n + m) rb.capacity) := by
  have hle := h.le_capacity
  have hsum : n - (n + m - rb.capacity) + m = min (n + m) rb.capacity := by omega
  rw [← hsum]
  exact (h.leaves hm).wrote (by rw [capacity_left]; omega) _

theorem Ok.stored_overwrote (h : rb.Ok n) (hm : m ≤ rb.capacity) (src : ℕ → UInt8) :
    (rb.overwrote n src m).stored = (rb.stored ++ (List.range m).map src).rtake rb.capacity := by
  have hle := h.le_capacity
  have hsum : n - (n + m - rb.capacity) + (n + m - rb.capacity) = n := by omega
  rw [RingBuffer.overwrote, (h.leaves hm).stored_stores (by rw [capacity_left]; omega),
    Ok.stored_left (n := n - (n + m - rb.capacity)) (by rwa [hsum]),
    rtake_append_of_le (by simpa using hm), h.length_stored, length_map, length_range]

theorem Ok.full (h : rb.Ok rb.capacity) (hpos : 0 < rb.capacity) :
    rb.readIndex = rb.writeIndex ∧ rb.readMirror = !rb.writeMirror := by
  have hr := h.read_le
  have hw := h.write_le
  have hwrite := h.write_eq
  by_cases hmirror : rb.writeMirror = rb.readMirror
  · rw [if_pos hmirror] at hwrite
    omega
  · rw [if_neg hmirror] at hwrite
    refine ⟨eq_of_toNat_eq (by omega), ?_⟩
    cases hwm : rb.writeMirror <;> cases hrm : rb.readMirror <;> simp_all

theorem overwrote_of_le (hm : n + m ≤ rb.capacity) : rb.overwrote n src m = rb.stores src m := by
  rw [overwrote, Nat.sub_eq_zero_of_le hm, left_zero]

theorem Ok.overwrote_of_ge (h : rb.Ok n) (hm : m ≤ rb.capacity) (hge : rb.capacity ≤ n + m)
    (hpos : 0 < rb.capacity) (src : ℕ → UInt8) :
    rb.overwrote n src m = { rb.stores src m with
      readMirror := !(rb.stores src m).writeMirror
      readIndex := (rb.stores src m).writeIndex } := by
  have hok := h.overwrote hm src
  rw [min_eq_right hge] at hok
  obtain ⟨hindex, hmirror⟩ := hok.full hpos
  exact RingBuffer.ext rfl hmirror hindex rfl rfl rfl

/-! ### Single characters -/

theorem Ok.status_full (h : rb.Ok n) (hpos : 0 < rb.capacity) :
    rb.rtRingbufferStatus = .full ↔ n = rb.capacity := by
  have hr := h.read_le
  have hw := h.write_le
  have hwrite := h.write_eq
  have hindex : rb.readIndex = rb.writeIndex ↔ rb.readIndex.toNat = rb.writeIndex.toNat :=
    toNat_inj.symm
  have hmirror : rb.readMirror = rb.writeMirror ↔ rb.writeMirror = rb.readMirror := eq_comm
  unfold rtRingbufferStatus
  simp only [hindex, hmirror]
  split_ifs at hwrite ⊢ <;> simp only [false_iff, true_iff] <;> omega

theorem Ok.putcharForce (h : rb.Ok n) (hpos : 0 < rb.capacity) (ch : UInt8) :
    rb.rtRingbufferPutcharForce ch = (rb.overwrote n (fun _ => ch) 1, 1) := by
  have hw := h.write_le
  have hle := h.le_capacity
  have hsize := h.toInt_bufferSize
  have hfull := h.status_full hpos
  -- the character is written at the write index
  have hcells : writeFrom rb.bufferPtr rb.capacity rb.writeIndex.toNat (fun _ => ch) 1 =
      update rb.bufferPtr rb.writeIndex.toNat ch := by
    have hlt : rb.writeIndex.toNat < rb.capacity := by omega
    rw [← writeFrom_succ rb.bufferPtr (fun _ => ch) hlt hpos, writeFrom_zero, Nat.add_zero,
      if_pos hlt]
  have hmove := @moveIndex_one _ rb.writeMirror _ rb.capacity_lt hpos hw
  have hstores : rb.stores (fun _ => ch) 1 = { rb with
      bufferPtr := update rb.bufferPtr rb.writeIndex.toNat ch
      writeMirror := (if (rb.writeIndex.toNat : ℤ) = rb.capacity - 1
        then (!rb.writeMirror, 0) else (rb.writeMirror, rb.writeIndex + 1)).1
      writeIndex := (if (rb.writeIndex.toNat : ℤ) = rb.capacity - 1
        then (!rb.writeMirror, 0) else (rb.writeMirror, rb.writeIndex + 1)).2 } := by
    rw [stores, RingBuffer.wrote, hcells, hmove]
  by_cases hn : n = rb.capacity
  · obtain ⟨-, hmirror⟩ := Ok.full (hn ▸ h) hpos
    rw [h.overwrote_of_ge (by omega) (by omega) hpos, hstores, rtRingbufferPutcharForce]
    simp only [hfull.2 hn, hsize, if_true]
    split
    · simp [hmirror]
    · simp [hmirror]
  · rw [overwrote_of_le (by omega), hstores, rtRingbufferPutcharForce]
    simp only [mt hfull.1 hn, hsize, if_false]
    split <;> rfl

/-- **Single characters** leave the last bytes. -/
theorem Ok.putcharsForce (h : rb.Ok n) (hpos : 0 < rb.capacity) (ptr : ℕ → UInt8) (k : ℕ) :
    (rb.putcharsForce ptr k).capacity = rb.capacity ∧
      (∃ n', (rb.putcharsForce ptr k).Ok n') ∧
      (rb.putcharsForce ptr k).stored =
        (rb.stored ++ (List.range k).map ptr).rtake rb.capacity := by
  induction k with
  | zero =>
    refine ⟨rfl, ⟨n, h⟩, ?_⟩
    have hle := h.le_capacity
    rw [← h.length_stored] at hle
    rw [RingBuffer.putcharsForce, range_zero, map_nil, append_nil, rtake,
      Nat.sub_eq_zero_of_le hle, drop_zero]
  | succ k ih =>
    obtain ⟨hcap, ⟨n', hok⟩, hstored⟩ := ih
    have hpos' : 0 < (rb.putcharsForce ptr k).capacity := by rwa [hcap]
    rw [RingBuffer.putcharsForce, hok.putcharForce hpos', capacity_overwrote]
    have hone : (List.range 1).map (fun _ => ptr k) = [ptr k] := rfl
    refine ⟨hcap, ⟨_, hok.overwrote hpos' _⟩, ?_⟩
    rw [hok.stored_overwrote hpos', hstored, hcap, hone, range_succ, map_append,
      ← append_assoc, rtake_rtake_append]
    rfl

/-! ### The bulk operation -/

theorem Ok.exists_kept (h : rb.Ok n) (ptr : ℕ → UInt8) (length : UInt16)
    (hm : m = min length.toNat rb.capacity)
    (hsrc : src = fun i => ptr (length.toNat - rb.capacity + i)) :
    ∃ l : UInt16, l.toNat = m ∧
      (if (length.toNat : ℤ) > rb.bufferSize.toInt then
        ((fun i => ptr ((length.toNat - rb.bufferSize.toInt).toNat + i) : ℕ → UInt8),
          UInt16.ofInt rb.bufferSize.toInt)
      else (ptr, length)) = (src, l) := by
  have hlt := rb.capacity_lt
  rw [h.toInt_bufferSize, hsrc]
  split
  · next hgt =>
    refine ⟨_, ?_, Prod.ext ?_ rfl⟩
    · rw [hm, UInt16.ofInt, UInt16.toNat_ofNat']
      omega
    · funext i
      exact congrArg ptr (by omega)
  · next hgt =>
    refine ⟨length, by omega, Prod.ext ?_ rfl⟩
    funext i
    exact congrArg ptr (by omega)

/-- **`rt_ringbuffer_put_force`** puts the last bytes that the buffer holds.  Where they do not
fit, the read index follows the write index; its mirror bit is flipped when the write index
goes round. -/
theorem Ok.putForce (h : rb.Ok n) (hpos : 0 < rb.capacity) (ptr : ℕ → UInt8) (length : UInt16)
    (hm : m = min length.toNat rb.capacity)
    (hsrc : src = fun i => ptr (length.toNat - rb.capacity + i)) :
    rb.rtRingbufferPutForce ptr length =
      (if n + m ≤ rb.capacity then rb.stores src m
        else { rb.stores src m with
          readMirror := if rb.writeIndex.toNat + m < rb.capacity then rb.readMirror
            else !rb.readMirror
          readIndex := (rb.stores src m).writeIndex }, .ofNat m) := by
  have hlt := rb.capacity_lt
  have hw := h.write_le
  have hle := h.le_capacity
  have hsize := h.toInt_bufferSize
  have hspace : rb.rtRingbufferSpaceLen.toUInt16.toNat = rb.capacity - n := by
    rw [UInt32.toNat_toUInt16, h.spaceLen]
    omega
  -- the bytes that are put, and how many
  obtain ⟨l, hl, hkept⟩ := h.exists_kept ptr length hm hsrc
  have hover : l > rb.rtRingbufferSpaceLen.toUInt16 ↔ ¬ n + m ≤ rb.capacity := by
    rw [gt_iff_lt, UInt16.lt_iff_toNat_lt, hspace, hl]
    omega
  have hret : l.toUInt32 = .ofNat m := by
    rw [← UInt32.toNat_inj, UInt16.toNat_toUInt32, UInt32.toNat_ofNat', hl]
    omega
  rw [rtRingbufferPutForce, hkept, stores, RingBuffer.wrote, moveIndex_eq]
  simp only [hl, hret, hsize, hover]
  by_cases hround : rb.writeIndex.toNat + m < rb.capacity
  · -- the bytes fit before the end of the buffer
    have hcells := copyFrom_eq_writeFrom rb.bufferPtr src (.inr hround)
    have hbefore : (rb.capacity : ℤ) - rb.writeIndex.toNat > m := by omega
    simp only [hbefore, hround, hcells, true_or, if_true, ite_not]
    split <;> rfl
  · have hrest : ((rb.capacity : ℤ) - rb.writeIndex.toNat).toNat =
        rb.capacity - rb.writeIndex.toNat := by omega
    have hmore : ((m : ℤ) - (rb.capacity - rb.writeIndex.toNat)).toNat =
        rb.writeIndex.toNat + m - rb.capacity := by omega
    have hcells := copyFrom_copyFrom rb.bufferPtr src
      (show rb.writeIndex.toNat < rb.capacity ∧ rb.capacity ≤ rb.writeIndex.toNat + m by omega)
      (by omega)
    have hbefore : ¬ (rb.capacity : ℤ) - rb.writeIndex.toNat > m := by omega
    have hsome : m ≠ 0 := by omega
    simp only [hbefore, hround, hsome, hrest, hmore, hcells, or_self, if_false, ite_not]
    split <;> rfl

/-- What is put fits, or the write index has been round once more than the read index. -/
theorem Ok.putForce_overwrote (h : rb.Ok n) (hpos : 0 < rb.capacity) (ptr : ℕ → UInt8)
    (length : UInt16) (hm : m = min length.toNat rb.capacity)
    (hfit : rb.readMirror ≠ rb.writeMirror ∨ n + m ≤ rb.capacity) :
    rb.rtRingbufferPutForce ptr length =
      (rb.overwrote n (fun i => ptr (length.toNat - rb.capacity + i)) m, .ofNat m) := by
  rw [h.putForce hpos ptr length hm rfl]
  by_cases hle : n + m ≤ rb.capacity
  · rw [if_pos hle, overwrote_of_le hle]
  · have hmirror : rb.readMirror = !rb.writeMirror := by
      have hne := hfit.resolve_right hle
      cases hwm : rb.writeMirror <;> cases hrm : rb.readMirror <;> simp_all
    have hcap := h.le_capacity
    have hsome : m ≠ 0 := by omega
    have hflip : (if rb.writeIndex.toNat + m < rb.capacity then rb.readMirror
        else !rb.readMirror) = !(moveIndex rb.capacity m rb.writeMirror rb.writeIndex).1 := by
      rw [hmirror, moveIndex]
      simp only [hsome, false_or]
      split <;> rfl
    rw [if_neg hle, h.overwrote_of_ge (by omega) (by omega) hpos, hflip]
    rfl

/-- What is put does not fit, and the indices have been round equally often: the read index
meets the write index, and the mirror bits still agree. -/
theorem Ok.putForce_lost (h : rb.Ok n) (hmirror : rb.readMirror = rb.writeMirror)
    (ptr : ℕ → UInt8) (length : UInt16) (hm : m = min length.toNat rb.capacity)
    (hover : rb.capacity < n + m) : (rb.rtRingbufferPutForce ptr length).1.Ok 0 := by
  have hle := h.le_capacity
  have hpos : 0 < rb.capacity := by omega
  have hr := h.read_le
  have hw := h.write_le
  have hwrite := h.write_eq
  rw [if_pos hmirror.symm] at hwrite
  have hindex := writeIndex_wrote (k := m) rb (writeFrom rb.bufferPtr rb.capacity
    rb.writeIndex.toNat (fun i => ptr (length.toNat - rb.capacity + i)) m) (by omega)
  -- the write index goes round, as it is not behind the read index
  have hround : ¬ rb.writeIndex.toNat + m < rb.capacity := by omega
  have hmove : ¬ (m = 0 ∨ rb.writeIndex.toNat + m < rb.capacity) := by omega
  rw [if_neg hmove] at hindex
  have hbound : rb.writeIndex.toNat + m - rb.capacity ≤ rb.capacity - 1 := by omega
  rw [h.putForce hpos ptr length hm rfl, if_neg (by omega), if_neg hround]
  refine ⟨h.size_nonneg, Nat.zero_le _, ?_, ?_, ?_⟩
  · exact hindex.le.trans hbound
  · exact hindex.le.trans hbound
  · have hflip : (rb.stores (fun i => ptr (length.toNat - rb.capacity + i)) m).writeMirror =
        !rb.readMirror := by
      rw [hmirror, stores, RingBuffer.wrote, moveIndex, if_neg hmove]
    simp only [hflip, if_true]

/-! ### A buffer without room -/

section

variable (hsize : rb.bufferSize.toInt = 0)
include hsize

theorem stored_eq_nil (hindex : rb.readIndex = rb.writeIndex) : rb.stored = [] := by
  have hlen : rb.rtRingbufferDataLen = 0 := by
    unfold rtRingbufferDataLen rtRingbufferStatus
    simp only [hindex, hsize, if_true]
    split_ifs <;> rfl
  rw [RingBuffer.stored, hlen]
  rfl

theorem putcharForce_zero (ch : UInt8) :
    (rb.rtRingbufferPutcharForce ch).1 = { rb with
      bufferPtr := update rb.bufferPtr rb.writeIndex.toNat ch
      readIndex := if rb.rtRingbufferStatus = .full then rb.writeIndex + 1 else rb.readIndex
      writeIndex := rb.writeIndex + 1 } := by
  rw [rtRingbufferPutcharForce]
  simp only [hsize]
  rw [if_neg (by omega)]
  split <;> rfl

theorem putcharsForce_full (hindex : rb.readIndex = rb.writeIndex)
    (hmirror : rb.readMirror ≠ rb.writeMirror) (ptr : ℕ → UInt8) (k : ℕ) :
    ∃ cells i, rb.putcharsForce ptr k =
      { rb with bufferPtr := cells, readIndex := i, writeIndex := i } := by
  induction k with
  | zero => exact ⟨rb.bufferPtr, rb.readIndex, RingBuffer.ext rfl rfl rfl rfl hindex.symm rfl⟩
  | succ k ih =>
    obtain ⟨cells, i, hk⟩ := ih
    refine ⟨update cells i.toNat (ptr k), i + 1, ?_⟩
    have hfull : rtRingbufferStatus
        { rb with bufferPtr := cells, readIndex := i, writeIndex := i } = .full := by
      simp [rtRingbufferStatus, hmirror]
    rw [putcharsForce, putcharForce_zero (by rw [hk]; exact hsize), hk, hfull, if_pos rfl]

/-- While they agree the characters are counted by the write index, up to its width. -/
theorem putcharsForce_empty (hw : rb.writeIndex = 0)
    (hmirror : rb.readMirror = rb.writeMirror) (ptr : ℕ → UInt8) (k : ℕ) :
    ∃ cells, rb.putcharsForce ptr k =
      { rb with bufferPtr := cells, writeIndex := .ofNat 15 k } := by
  induction k with
  | zero => exact ⟨rb.bufferPtr, RingBuffer.ext rfl rfl rfl rfl hw rfl⟩
  | succ k ih =>
    obtain ⟨cells, hk⟩ := ih
    refine ⟨update cells (ofNat 15 k).toNat (ptr k), ?_⟩
    have hfull : rtRingbufferStatus { rb with bufferPtr := cells, writeIndex := .ofNat 15 k } ≠
        .full := by
      simp only [rtRingbufferStatus, hmirror, if_true]
      split_ifs <;> nofun
    rw [putcharsForce, putcharForce_zero (by rw [hk]; exact hsize), hk, if_neg hfull,
      BitVec.ofNat_add]
    rfl

/-- **Single characters** in a buffer of size zero are written behind its end; they count as
stored while the mirror bits agree. -/
theorem stored_putcharsForce_zero (hr : rb.readIndex = 0)
    (hw : rb.writeIndex = 0) (ptr : ℕ → UInt8) (k : ℕ) :
    (rb.putcharsForce ptr k).stored = [] ↔ rb.readMirror ≠ rb.writeMirror ∨ 2 ^ 15 ∣ k := by
  by_cases hmirror : rb.readMirror = rb.writeMirror
  · obtain ⟨cells, hk⟩ := putcharsForce_empty hsize hw hmirror ptr k
    have hzero : (ofNat 15 k) = 0 ↔ 2 ^ 15 ∣ k := by
      rw [← toNat_inj, BitVec.toNat_ofNat, Nat.dvd_iff_mod_eq_zero]
      rfl
    rw [hk, ← hzero]
    simp only [hmirror, ne_eq, not_true_eq_false, false_or]
    constructor
    · intro hnil
      by_contra hne
      have hne' : rb.readIndex ≠ ofNat 15 k := by rw [hr]; exact fun he => hne he.symm
      have hlt : rb.readIndex < ofNat 15 k := by
        rw [hr, lt_def]
        have hpos : (ofNat 15 k).toNat ≠ 0 := fun h0 => hne (eq_of_toNat_eq h0)
        exact Nat.pos_of_ne_zero hpos
      have hlen := congrArg List.length hnil
      rw [RingBuffer.stored, window, length_map, length_range] at hlen
      simp only [rtRingbufferDataLen, rtRingbufferStatus, hne', if_false, gt_iff_lt, hlt,
        if_true, length_nil] at hlen
      have hbound := (ofNat 15 k).isLt
      rw [lt_def] at hlt
      rw [toNat_ofInt (k := (ofNat 15 k).toNat - rb.readIndex.toNat) (by omega) (by omega)] at hlen
      omega
    · intro hk0
      exact stored_eq_nil hsize (by rw [hr, hk0])
  · obtain ⟨cells, i, hk⟩ := putcharsForce_full hsize (by rw [hr, hw]) hmirror ptr k
    have hnil : (rb.putcharsForce ptr k).stored = [] := by
      rw [hk]
      exact stored_eq_nil hsize rfl
    simp [hnil, hmirror]

theorem stored_putForce_zero (hr : rb.readIndex = 0)
    (hw : rb.writeIndex = 0) (ptr : ℕ → UInt8) (length : UInt16) :
    (rb.rtRingbufferPutForce ptr length).1.stored = [] := by
  have hzero : (UInt16.ofInt 0).toNat = 0 := rfl
  have hkept : ∀ src : ℕ → UInt8, ∀ l : UInt16, l.toNat = 0 →
      (if (length.toNat : ℤ) > rb.bufferSize.toInt then
        ((fun i => ptr ((length.toNat - rb.bufferSize.toInt).toNat + i) : ℕ → UInt8),
          UInt16.ofInt rb.bufferSize.toInt)
      else (ptr, length)) = (src, l) → (rb.rtRingbufferPutForce ptr length).1.stored = [] := by
    intro src l hl hkept
    have hover : ¬ l > rb.rtRingbufferSpaceLen.toUInt16 := by
      rw [gt_iff_lt, UInt16.lt_iff_toNat_lt, hl]
      exact Nat.not_lt_zero _
    rw [rtRingbufferPutForce, hkept]
    simp only [hsize, hw, hl, hover, if_false]
    exact stored_eq_nil hsize hr
  split at hkept
  · next hgt => exact hkept _ _ (by rw [hsize, hzero]) rfl
  · next hgt => exact hkept _ _ (by omega) rfl

end

/-! ### When the last bytes are left -/

/-- **`rt_ringbuffer_put_force` leaves the last bytes**, as the single characters do, where the
mirror bits differ, the buffer is empty or the bytes fit; in a buffer of size zero the single
characters go wrong. -/
theorem keepsLast_iff (h : rb.Ok n) (ptr : ℕ → UInt8) (length : UInt16) :
    rb.KeepsLast ptr length ↔
      (rb.readMirror ≠ rb.writeMirror ∨ n = 0 ∨ n + length.toNat ≤ rb.capacity) ∧
        (rb.capacity = 0 → rb.readMirror ≠ rb.writeMirror ∨ 2 ^ 15 ∣ length.toNat) := by
  have hr := h.read_le
  have hw := h.write_le
  have hle := h.le_capacity
  have hsize := h.toInt_bufferSize
  by_cases hcap : rb.capacity = 0
  · have hr0 : rb.readIndex = 0 := eq_of_toNat_eq (by simp; omega)
    have hw0 : rb.writeIndex = 0 := eq_of_toNat_eq (by simp; omega)
    have hsize0 : rb.bufferSize.toInt = 0 := by omega
    have hn : n = 0 := by omega
    rw [KeepsLast, stored_putForce_zero hsize0 hr0 hw0, hcap, rtake_zero,
      eq_comm (a := ([] : List UInt8)) (b := (rb.putcharsForce ptr length.toNat).stored),
      stored_putcharsForce_zero hsize0 hr0 hw0]
    simp [hn]
  · have hpos : 0 < rb.capacity := Nat.pos_of_ne_zero hcap
    obtain ⟨m, hm⟩ : ∃ m, m = min length.toNat rb.capacity := ⟨_, rfl⟩
    have hchars := (h.putcharsForce hpos ptr length.toNat).2.2
    have hfit : (n = 0 ∨ n + length.toNat ≤ rb.capacity) ↔ n + m ≤ rb.capacity := by omega
    rw [KeepsLast, hchars, and_self, hfit]
    simp only [hcap, false_imp_iff, and_true]
    constructor
    · intro hlast
      by_contra hnot
      obtain ⟨hmirror, hover⟩ := not_or.1 hnot
      -- nothing is left
      have hlost := h.putForce_lost (not_not.1 hmirror) ptr length hm (by omega)
      have hlen := congrArg List.length hlast
      rw [hlost.length_stored, rtake, length_drop, length_append,
        h.length_stored, length_map, length_range] at hlen
      omega
    · intro hok
      rw [h.putForce_overwrote hpos ptr length hm hok, h.stored_overwrote (by omega),
        rtake_append_range ptr length.toNat, ← hm]

/-- Two bytes are stored in a buffer of four. -/
def twoStored : RingBuffer :=
  ((rtRingbufferInit (fun _ => 0) 4).rtRingbufferPut (fun i => .ofNat (1 + i)) 2).1

theorem ok_twoStored : twoStored.Ok 2 := by
  have hinit : (rtRingbufferInit (fun _ => 0) 4).Ok 0 := ok_init (by decide) _
  rw [twoStored, hinit.put]
  exact hinit.wrote (by decide) _

theorem keepsLast_twoStored :
    twoStored.KeepsLast (fun i => .ofNat (7 + i)) 2 ∧
      ¬ twoStored.KeepsLast (fun i => .ofNat (7 + i)) 3 := by
  have hmirror : twoStored.readMirror = twoStored.writeMirror := by decide +kernel
  have hcap : twoStored.capacity = 4 := by decide +kernel
  refine ⟨(keepsLast_iff ok_twoStored _ 2).2 ⟨?_, ?_⟩, ?_⟩
  · exact .inr (.inr (by rw [hcap]; decide))
  · intro h0
    omega
  · rw [keepsLast_iff ok_twoStored, hcap, hmirror]
    decide

/-- Three bytes that are forced into a buffer of four with two bytes **empty** it. -/
theorem not_keepsLast_three :
    ¬ ∀ (rb : RingBuffer) (n : ℕ), rb.Ok n → ∀ ptr length, rb.KeepsLast ptr length := by
  intro h
  have hlast := h twoStored 2 ok_twoStored (fun i => .ofNat (7 + i)) 3
  have hnot : ¬ twoStored.KeepsLast (fun i => .ofNat (7 + i)) 3 := by decide +kernel
  exact hnot hlast

end RingBuffer

end RtThread
