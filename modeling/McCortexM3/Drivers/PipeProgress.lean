import McCortexM3.Drivers.Pipe

/-!
# Progress of a pipe

Whether a call on a pipe gets on when there is something for it: data for a read, space for a
write.  The ring buffer is asked for a number of bytes of 16 bits, and the count of a call has 32;
what is left of a count is narrowed on the way.

## Main definitions

* `RtPipe.rtPipeRead`, `RtPipe.rtPipeWrite` — the operations of the device.
* `PipeCall` — a round of a file operation, or an operation of the device.
* `PipeSys.Progresses` — the call transfers something or returns, and does not wait while there is
  something left for it.
* `PipeSys.Fits` — the count survives the narrowing as far as it matters.

## Main results

* `RtPipe.rtPipeRead_eq`, `RtPipe.rtPipeWrite_eq` — how much the device transfers.
* `PipeSys.run_ready` — what holds of the calls in every run.
* `PipeSys.progresses_iff` — a call gets on exactly if its count fits.
-/

set_option linter.all false

namespace RtThread

open Function Option List ByteMemory
open UInt32 (ofNat toNat_inj toNat_ofNat' toNat_ofNat_of_lt' toNat_toUInt16 toNat_zero)

namespace RtPipe

variable {Tid : Type}

/-- How many bytes there is room for. -/
def space (p : RtPipe Tid) : ℕ :=
  match p.fifo with
  | none => 0
  | some rb => rb.capacity - rb.stored.length

/-- The loop of `rt_pipe_read`, with at most `fuel` rounds. -/
def rtPipeReadLoop (count : UInt32) :
    ℕ → RingBuffer → (ℕ → UInt8) → UInt32 → Option (RingBuffer × (ℕ → UInt8) × UInt32)
  | 0, _, _, _ => none
  | fuel + 1, rb, pbuf, readBytes =>
    if readBytes < count then
      let (rb, got, len) := rb.rtRingbufferGet (fun i => pbuf (readBytes.toNat + i))
        (count - readBytes).toUInt16
      let pbuf := fun i => if i < readBytes.toNat then pbuf i else got (i - readBytes.toNat)
      if len.toInt32 ≤ 0 then some (rb, pbuf, readBytes)
      else rtPipeReadLoop count fuel rb pbuf (readBytes + len)
    else some (rb, pbuf, readBytes)

/-- `rt_pipe_read`.  Every round but the last reads a byte.  `rt_ringbuffer_get` does not return
when there is no buffer. -/
def rtPipeRead (p : RtPipe Tid) (buffer : ℕ → UInt8) (count : UInt32) :
    Option (RtPipe Tid × (ℕ → UInt8) × UInt32) :=
  if count = 0 then some (p, buffer, 0)
  else p.fifo.bind fun rb =>
    (rtPipeReadLoop count (count.toNat + 1) rb buffer 0).map fun (rb, pbuf, readBytes) =>
      ({ p with fifo := some rb }, pbuf, readBytes)

/-- The loop of `rt_pipe_write`, with at most `fuel` rounds. -/
def rtPipeWriteLoop (pbuf : ℕ → UInt8) (count : UInt32) :
    ℕ → RingBuffer → UInt32 → Option (RingBuffer × UInt32)
  | 0, _, _ => none
  | fuel + 1, rb, writeBytes =>
    if writeBytes < count then
      let (rb, len) := rb.rtRingbufferPut (fun i => pbuf (writeBytes.toNat + i))
        (count - writeBytes).toUInt16
      if len.toInt32 ≤ 0 then some (rb, writeBytes)
      else rtPipeWriteLoop pbuf count fuel rb (writeBytes + len)
    else some (rb, writeBytes)

/-- `rt_pipe_write`. -/
def rtPipeWrite (p : RtPipe Tid) (buffer : ℕ → UInt8) (count : UInt32) :
    Option (RtPipe Tid × UInt32) :=
  if count = 0 then some (p, 0)
  else p.fifo.bind fun rb =>
    (rtPipeWriteLoop buffer count (count.toNat + 1) rb 0).map fun (rb, writeBytes) =>
      ({ p with fifo := some rb }, writeBytes)

end RtPipe

/-- A call on a pipe: a round of `pipe_fops_read` or `pipe_fops_write` by a thread, or a call of
`rt_pipe_read` or `rt_pipe_write`. -/
inductive PipeCall (Tid : Type)
  | fopsRead (t : Tid) (op : PipeRead)
  | fopsWrite (t : Tid) (op : PipeWrite)
  | read (buffer : ℕ → UInt8) (count : UInt32)
  | write (buffer : ℕ → UInt8) (count : UInt32)

/-- How many bytes the call has been asked for. -/
def PipeCall.count {Tid : Type} : PipeCall Tid → UInt32
  | .fopsRead _ op => op.count
  | .fopsWrite _ op => op.count
  | .read _ count | .write _ count => count

/-- How many bytes it has transferred in earlier rounds. -/
def PipeCall.done {Tid : Type} : PipeCall Tid → UInt32
  | .fopsWrite _ op => op.ret.toUInt32
  | _ => 0

/-- A write in progress has something left to write. -/
def PipePc.HasMore : PipePc → Prop
  | .writing op | .writeReleased op | .writeWait op _ =>
    op.count ≠ 0 ∧ op.ret.toUInt32 ≠ op.count
  | _ => True

namespace PipeSys

variable {Tid : Type} [DecidableEq Tid]

/-- While the pipe has data, or space, the call gets on.  A round of a read returns: with some
bytes, at the end of the file, or because it must not wait.  A round of a write returns something,
or it has filled the buffer and waits.  The operations of the device transfer something. -/
def Progresses (s : PipeSys Tid) : PipeCall Tid → Prop
  | .fopsRead t op => s.pipe.stored ≠ [] →
    ∃ s' len bytes, s.readRound t op = some (s', [.readReturned len bytes]) ∧
      s'.pc t = .outside ∧
      (0 < len ∧ bytes ≠ [] ∨ len = 0 ∧ s.pipe.writers = 0 ∨ len = -eagain)
  | .fopsWrite t op => s.pipe.space ≠ 0 →
    ∃ s' out, s.writeRound t op = some (s', out) ∧
      ((∃ ret wakeup, s'.pc t = .written ret wakeup ∧ ret ≠ 0) ∨
        (∃ bytes, out = [.accepted bytes] ∧ bytes ≠ []) ∧ s'.pipe.space = 0)
  | .read buffer count => s.pipe.stored ≠ [] →
    ∃ p buf n, s.pipe.rtPipeRead buffer count = some (p, buf, n) ∧ n ≠ 0
  | .write buffer count => s.pipe.space ≠ 0 →
    ∃ p n, s.pipe.rtPipeWrite buffer count = some (p, n) ∧ n ≠ 0

/-- The bytes that are asked for are not a multiple of 2¹⁶; a write that waits for space asks for
fewer than 2¹⁶, or for so many that the space is used up. -/
def Fits (s : PipeSys Tid) : PipeCall Tid → Prop
  | .fopsRead _ op => s.pipe.stored = [] ∨ s.pipe.writers = 0 ∨ op.flags &&& oNonblock ≠ 0 ∨
    ¬ 2 ^ 16 ∣ op.count.toNat
  | .fopsWrite _ op => s.pipe.readers = 0 ∨ op.flags &&& oNonblock ≠ 0 ∨
    (op.count - op.ret.toUInt32).toNat < 2 ^ 16 ∨
    s.pipe.space ≤ (op.count - op.ret.toUInt32).toNat % 2 ^ 16
  | .read _ count => s.pipe.stored = [] ∨ ¬ 2 ^ 16 ∣ count.toNat
  | .write _ count => s.pipe.space = 0 ∨ ¬ 2 ^ 16 ∣ count.toNat

end PipeSys

/-! ### The operations of the device -/

namespace RingBuffer

variable {rb : RingBuffer} {n m : ℕ}

theorem toInt32_le_zero (h : m < 2 ^ 31) : (ofNat m).toInt32 ≤ 0 ↔ m = 0 := by
  have hint : (ofNat m).toInt32.toInt = m := by
    have hnat : (ofNat m).toNat = m := by
      rw [toNat_ofNat']
      omega
    have hcast : (ofNat m).toInt32.toInt = (ofNat m).toNat :=
      BitVec.toInt_eq_toNat_of_lt (show 2 * (ofNat m).toNat < 2 ^ 32 by omega)
    rw [hcast, hnat]
  rw [Int32.le_iff_toInt_le, hint]
  exact Int.natCast_nonpos_iff

end RingBuffer

theorem copyFrom_zero (ptr : ℕ → UInt8) (i : ℕ) (src : ℕ → UInt8) : copyFrom ptr i src 0 = ptr := by
  funext x
  exact if_neg (by omega)

namespace RtPipe

variable {Tid : Type} {p : RtPipe Tid} {rb : RingBuffer} {n : ℕ} {count : UInt32}

theorem rtPipeReadLoop_stop (h : rb.Ok n) (pbuf : ℕ → UInt8) {readBytes : UInt32} (fuel : ℕ)
    (hstop : min ((count - readBytes).toNat % 2 ^ 16) n = 0) :
    rtPipeReadLoop count (fuel + 1) rb pbuf readBytes = some (rb, pbuf, readBytes) := by
  have hsame : (fun i => if i < readBytes.toNat then pbuf i
      else pbuf (readBytes.toNat + (i - readBytes.toNat))) = pbuf := by
    funext i
    split
    · rfl
    · exact congrArg pbuf (by omega)
  rw [rtPipeReadLoop]
  split
  · rw [h.get, toNat_toUInt16, hstop, RingBuffer.left_zero, copyFrom_zero]
    simp only [hsame]
    rfl
  · rfl

/-- **`rt_pipe_read`** reads what the narrowed count asks for, as far as it is there. -/
theorem rtPipeRead_eq (hfifo : p.fifo = some rb) (h : rb.Ok n) (buffer : ℕ → UInt8)
    (hcount : count ≠ 0) :
    p.rtPipeRead buffer count = some
      ({ p with fifo := some (rb.left (min (count.toNat % 2 ^ 16) n)) },
        copyFrom buffer 0 rb.byteAt (min (count.toNat % 2 ^ 16) n),
        .ofNat (min (count.toNat % 2 ^ 16) n)) := by
  have hle := h.le_capacity
  have hlt := rb.capacity_lt
  have hpos : count.toNat ≠ 0 := fun hzero => hcount (toNat_inj.1 hzero)
  obtain ⟨m, hm⟩ : ∃ m, m = min (count.toNat % 2 ^ 16) n := ⟨_, rfl⟩
  rw [rtPipeRead, if_neg hcount, hfifo, bind_some, ← hm]
  by_cases hzero : m = 0
  · rw [rtPipeReadLoop_stop h buffer, hzero, RingBuffer.left_zero, copyFrom_zero]
    · rfl
    · rw [UInt32.sub_zero, ← hm, hzero]
  · -- the first round reads all that is read
    obtain ⟨fuel, hfuel⟩ : ∃ fuel, count.toNat = fuel + 1 := ⟨count.toNat - 1, by omega⟩
    have hless : (0 : UInt32) < count := by
      rw [UInt32.lt_iff_toNat_lt, toNat_zero]
      omega
    have hm' : (ofNat m).toNat = m :=
      toNat_ofNat_of_lt' (show m < 2 ^ 32 by omega)
    have hnext : (rb.left m).Ok (n - m) := by
      have hsum : n - m + m = n := by omega
      exact RingBuffer.Ok.left (by rwa [hsum])
    have hbuf : (fun i => if i < (0 : UInt32).toNat then buffer i else
        copyFrom (fun i => buffer ((0 : UInt32).toNat + i)) 0 rb.byteAt m
          (i - (0 : UInt32).toNat)) = copyFrom buffer 0 rb.byteAt m := by
      simp only [toNat_zero, Nat.not_lt_zero, if_false, Nat.zero_add, Nat.sub_zero]
    have hrest : (count - ofNat m).toNat = count.toNat - m := by
      rw [UInt32.toNat_sub_of_le _ _ (UInt32.le_iff_toNat_le.2 (by omega)), hm']
    rw [rtPipeReadLoop, if_pos hless, UInt32.sub_zero, h.get, toNat_toUInt16, ← hm]
    simp only [RingBuffer.toInt32_le_zero (show m < 2 ^ 31 by omega), hzero, if_false, hbuf,
      UInt32.zero_add, hfuel]
    rw [rtPipeReadLoop_stop hnext _ fuel (by rw [hrest]; omega)]
    rfl

theorem rtPipeWriteLoop_stop (h : rb.Ok n) (pbuf : ℕ → UInt8) {writeBytes : UInt32} (fuel : ℕ)
    (hstop : min ((count - writeBytes).toNat % 2 ^ 16) (rb.capacity - n) = 0) :
    rtPipeWriteLoop pbuf count (fuel + 1) rb writeBytes = some (rb, writeBytes) := by
  rw [rtPipeWriteLoop]
  split
  · rw [h.put, toNat_toUInt16, hstop, RingBuffer.stores_zero]
    rfl
  · rfl

/-- **`rt_pipe_write`** writes what the narrowed count asks for, as far as there is room. -/
theorem rtPipeWrite_eq (hfifo : p.fifo = some rb) (h : rb.Ok n) (buffer : ℕ → UInt8)
    (hcount : count ≠ 0) :
    p.rtPipeWrite buffer count = some
      ({ p with fifo := some (rb.stores buffer (min (count.toNat % 2 ^ 16) (rb.capacity - n))) },
        .ofNat (min (count.toNat % 2 ^ 16) (rb.capacity - n))) := by
  have hle := h.le_capacity
  have hlt := rb.capacity_lt
  have hpos : count.toNat ≠ 0 := fun hzero => hcount (toNat_inj.1 hzero)
  obtain ⟨m, hm⟩ : ∃ m, m = min (count.toNat % 2 ^ 16) (rb.capacity - n) := ⟨_, rfl⟩
  rw [rtPipeWrite, if_neg hcount, hfifo, bind_some, ← hm]
  by_cases hzero : m = 0
  · rw [rtPipeWriteLoop_stop h buffer, hzero, RingBuffer.stores_zero]
    · rfl
    · rw [UInt32.sub_zero, ← hm, hzero]
  · -- the first round writes all that is written
    obtain ⟨fuel, hfuel⟩ : ∃ fuel, count.toNat = fuel + 1 := ⟨count.toNat - 1, by omega⟩
    have hless : (0 : UInt32) < count := by
      rw [UInt32.lt_iff_toNat_lt, toNat_zero]
      omega
    have hm' : (ofNat m).toNat = m :=
      toNat_ofNat_of_lt' (show m < 2 ^ 32 by omega)
    have hnext : (rb.stores buffer m).Ok (n + m) := h.wrote (by omega) _
    have hcap : (rb.stores buffer m).capacity = rb.capacity := rfl
    have hrest : (count - ofNat m).toNat = count.toNat - m := by
      rw [UInt32.toNat_sub_of_le _ _ (UInt32.le_iff_toNat_le.2 (by omega)), hm']
    rw [rtPipeWriteLoop, if_pos hless, UInt32.sub_zero, h.put, toNat_toUInt16, ← hm]
    simp only [RingBuffer.toInt32_le_zero (show m < 2 ^ 31 by omega), hzero, if_false,
      UInt32.zero_add, toNat_zero, Nat.zero_add, hfuel]
    rw [rtPipeWriteLoop_stop hnext _ fuel (by rw [hrest, hcap]; omega)]
    rfl

theorem stored_eq (hfifo : p.fifo = some rb) : p.stored = rb.stored := by
  rw [stored, hfifo]

theorem space_eq (hfifo : p.fifo = some rb) (h : rb.Ok n) : p.space = rb.capacity - n := by
  rw [space, hfifo]
  simp only [h.length_stored]

end RtPipe

namespace PipeSys

variable {Tid : Type} [DecidableEq Tid] {s s' : PipeSys Tid} {rb : RingBuffer} {n : ℕ} {t : Tid}

/-! ### The file operations -/

/-- **A round of a read** finds the data, unless a multiple of 2¹⁶ bytes is asked for. -/
theorem progresses_fopsRead (hfifo : s.pipe.fifo = some rb) (h : rb.Ok n) (op : PipeRead) :
    s.Progresses (.fopsRead t op) ↔ s.Fits (.fopsRead t op) := by
  have hle := h.le_capacity
  have hlt := rb.capacity_lt
  have hstored : s.pipe.stored = [] ↔ n = 0 := by
    rw [RtPipe.stored_eq hfifo, ← length_eq_zero_iff, h.length_stored]
  have hdvd : 2 ^ 16 ∣ op.count.toNat ↔ op.count.toNat % 2 ^ 16 = 0 := Nat.dvd_iff_mod_eq_zero
  rw [Progresses, Fits, ne_eq, hstored, hdvd, readRound]
  by_cases hw : s.pipe.writers = 0
  · -- the end of the file
    rw [if_pos hw]
    refine iff_of_true (fun _ => ⟨_, 0, [], rfl, ?_, .inr (.inl ⟨rfl, hw⟩)⟩) (.inr (.inl hw))
    exact update_self ..
  · obtain ⟨m, hm⟩ : ∃ m, m = min (op.count.toNat % 2 ^ 16) n := ⟨_, rfl⟩
    rw [if_neg hw, hfifo, map_some, h.get, toNat_toUInt16, ← hm]
    have hpos : 0 < (ofNat m).toInt32 ↔ m ≠ 0 := by
      rw [← Int32.not_le, RingBuffer.toInt32_le_zero (by omega)]
    have hm' : (ofNat m).toNat = m :=
      toNat_ofNat_of_lt' (show m < 2 ^ 32 by omega)
    simp only [hpos, hw, hm', false_or]
    by_cases hzero : m = 0
    · rw [if_neg (not_not.2 hzero)]
      by_cases hnonblock : op.flags &&& oNonblock ≠ 0
      · rw [if_pos hnonblock]
        refine iff_of_true (fun _ => ⟨_, -eagain, [], rfl, ?_, .inr (.inr rfl)⟩)
          (.inr (.inl hnonblock))
        exact update_self ..
      · -- the read waits
        rw [if_neg hnonblock]
        constructor
        · intro hprogress
          by_contra hnot
          obtain ⟨s', len, bytes, he, -⟩ := hprogress fun hn => hnot (.inl hn)
          cases he
        · rintro (hn | hnonblock' | hcount) hsome
          · exact absurd hn hsome
          · exact absurd hnonblock' hnonblock
          · omega
    · rw [if_pos hzero]
      refine iff_of_true (fun _ => ⟨_, _, _, rfl, ?_, .inl ⟨hpos.2 hzero, ?_⟩⟩) ?_
      · exact update_self ..
      · simpa using hzero
      · omega

theorem ret_add_eq_iff (ret : Int32) (count : UInt32) {m : ℕ} (hm : (ofNat m).toNat = m) :
    (ret + (ofNat m).toInt32).toUInt32 = count ↔ m = (count - ret.toUInt32).toNat := by
  have hadd : (ret + (ofNat m).toInt32).toUInt32 = ret.toUInt32 + ofNat m := rfl
  rw [hadd]
  constructor
  · intro he
    rw [← he, UInt32.add_comm, UInt32.add_sub_cancel, hm]
  · intro he
    rw [he, UInt32.ofNat_toNat, UInt32.add_comm, UInt32.sub_add_cancel]

theorem left_ne_zero {count ret : UInt32} (h : ret ≠ count) : (count - ret).toNat ≠ 0 := by
  intro hzero
  have hsub : count - ret = 0 := toNat_inj.1 hzero
  rw [UInt32.sub_eq_iff_eq_add, UInt32.zero_add] at hsub
  exact h hsub.symm

/-- **A round of a write** uses up the space or ends, if it asks for enough. -/
theorem progresses_fopsWrite (hfifo : s.pipe.fifo = some rb) (h : rb.Ok n) (op : PipeWrite)
    (hcount : op.count ≠ 0) (hmore : op.ret.toUInt32 ≠ op.count) :
    s.Progresses (.fopsWrite t op) ↔ s.Fits (.fopsWrite t op) := by
  have hle := h.le_capacity
  have hlt := rb.capacity_lt
  rw [Progresses, Fits, RtPipe.space_eq hfifo h, writeRound]
  by_cases hr : s.pipe.readers = 0
  · -- nobody reads
    rw [if_pos hr]
    refine iff_of_true (fun _ => ⟨_, _, rfl, .inl ⟨_, _, update_self .., ?_⟩⟩) (.inl hr)
    split
    · decide
    · next hret => exact hret
  · obtain ⟨m, hm⟩ : ∃ m, m = min ((op.count - op.ret.toUInt32).toNat % 2 ^ 16) (rb.capacity - n) :=
      ⟨_, rfl⟩
    rw [if_neg hr, hfifo, map_some, h.put, toNat_toUInt16, ← hm]
    have hm' : (ofNat m).toNat = m :=
      toNat_ofNat_of_lt' (show m < 2 ^ 32 by omega)
    have hret := ret_add_eq_iff op.ret op.count hm'
    have hleft := left_ne_zero hmore
    simp only [hret, hr, false_or]
    have hpc : ∀ s' : PipeSys Tid, ∀ pc, (s'.goto t pc).pc t = pc :=
      fun _ _ => update_self ..
    by_cases hall : m = (op.count - op.ret.toUInt32).toNat
    · -- all has been written
      refine iff_of_true (fun _ => ⟨_, _, rfl, .inl
        ⟨op.ret + (ofNat m).toInt32, true, ?_, ?_⟩⟩) (by omega)
      · rw [hpc, if_pos hall]
      · intro hzero
        have he := hret.2 hall
        rw [hzero] at he
        exact hcount he.symm
    · by_cases hnonblock : op.flags &&& oNonblock ≠ 0
      · refine iff_of_true (fun _ => ⟨_, _, rfl, .inl ⟨if op.ret + (ofNat m).toInt32 = 0
          then -eagain else op.ret + (ofNat m).toInt32, true, ?_, ?_⟩⟩) (.inl hnonblock)
        · rw [hpc, if_neg hall, if_pos hnonblock]
        · split
          · decide
          · next hret => exact hret
      · -- the write waits, for space that there may be
        have hspace : ((s.setFifo (rb.stores op.pbuf m)).goto t (.writeReleased
            { op with
              pbuf := fun i => op.pbuf (m + i)
              ret := op.ret + (ofNat m).toInt32
              wakeup := true })).pipe.space = rb.capacity - (n + m) :=
          @RtPipe.space_eq _ _ (rb.stores op.pbuf m) (n + m) rfl (h.wrote (by omega) _)
        simp only [if_neg hall, if_neg hnonblock, hm']
        constructor
        · intro hprogress
          by_contra hnot
          obtain ⟨s', out, he, hcases⟩ := hprogress (by omega)
          cases he
          rcases hcases with ⟨ret, wakeup, hplace, -⟩ | ⟨-, hfull⟩
          · rw [hpc] at hplace
            cases hplace
          · rw [hspace] at hfull
            omega
        · intro hfits hsome
          have hasked := hfits.resolve_left hnonblock
          have hm0 : m ≠ 0 := by omega
          refine ⟨_, _, rfl, .inr ⟨⟨_, rfl, by simpa using hm0⟩, ?_⟩⟩
          rw [hspace]
          omega

/-! ### What holds of the calls -/

/-- The indices of the buffer are in their places, and every write has something left. -/
structure Ready (s : PipeSys Tid) : Prop where
  ok : ∀ rb, s.pipe.fifo = some rb → ∃ n, rb.Ok n
  more : ∀ t, (s.pc t).HasMore

theorem ready_boot (bufsz : UInt16) : (boot bufsz : PipeSys Tid).Ready :=
  ⟨nofun, fun _ => trivial⟩

theorem Ready.same (h : s.Ready) (hfifo : s'.pipe.fifo = s.pipe.fifo) (hpc : s'.pc = s.pc) :
    s'.Ready :=
  ⟨hfifo ▸ h.ok, hpc ▸ h.more⟩

theorem Ready.goto (h : s.Ready) {pc : PipePc} (hpc : pc.HasMore) : (s.goto t pc).Ready := by
  refine ⟨h.ok, ?_⟩
  intro t'
  show (Function.update s.pc t pc t').HasMore
  rw [update_apply]
  split
  · exact hpc
  · exact h.more t'

theorem Ready.setFifo (h : s.Ready) (hok : ∃ n, rb.Ok n) : (s.setFifo rb).Ready := by
  refine ⟨?_, h.more⟩
  rintro rb' ⟨⟩
  exact hok

theorem Ready.wakeReaders (h : s.Ready) : s.wakeReaders.Ready := h.same rfl rfl

theorem Ready.wakeWriters (h : s.Ready) : s.wakeWriters.Ready := h.same rfl rfl

variable {a : PipeAction Tid} {tr out : List PipeEvent} {flags : UInt32}

theorem ready_open {pool : Option (ℕ → UInt8)} (h : s.Ready)
    (hs : s.pipeFopsOpen flags pool = some (s', out)) : s'.Ready := by
  obtain ⟨fifo, hfifo, he⟩ := map_eq_some_iff.1 hs
  cases he
  refine ⟨?_, h.more⟩
  split at hfifo
  · exact fun rb hrb => ⟨0, ok_rtRingbufferCreate hfifo rb hrb⟩
  · cases hfifo
    exact h.ok

theorem ready_close (h : s.Ready) (hs : s.pipeFopsClose flags = some (s', out)) : s'.Ready := by
  rw [pipeFopsClose] at hs
  obtain ⟨fifo, hfifo, he⟩ := map_eq_some_iff.1 hs
  cases he
  have hmore : ∀ t, ((s.closeCounts flags).closeWakes.pc t).HasMore := by
    have hpc : (s.closeCounts flags).closeWakes.pc = s.pc := by
      unfold closeWakes
      simp only
      split <;> split <;> rfl
    rw [hpc]
    exact h.more
  refine ⟨?_, hmore⟩
  split at hfifo
  · obtain ⟨rb, -, rfl⟩ := map_eq_some_iff.1 hfifo
    rintro _ ⟨⟩
  · cases hfifo
    rw [(s.closeCounts flags).closeWakes_eq.1]
    exact h.ok

theorem ready_readRound {op : PipeRead} (h : s.Ready) (hs : s.readRound t op = some (s', out)) :
    s'.Ready := by
  rw [readRound] at hs
  split at hs
  · cases hs
    exact h.goto trivial
  · obtain ⟨rb, hfifo, he⟩ := map_eq_some_iff.1 hs
    obtain ⟨n, hn⟩ := h.ok rb hfifo
    have hset := h.setFifo (hn.get_spec op.buf op.count.toUInt16).1
    generalize rb.rtRingbufferGet op.buf op.count.toUInt16 = r at he hset
    obtain ⟨rb', buf, len⟩ := r
    simp only at he hset
    split at he
    · cases he
      exact hset.wakeWriters.goto trivial
    · split at he
      · cases he
        exact hset.goto trivial
      · cases he
        exact hset.goto trivial

theorem ready_writeRound {op : PipeWrite} (h : s.Ready) (hop : op.count ≠ 0)
    (hs : s.writeRound t op = some (s', out)) : s'.Ready := by
  rw [writeRound] at hs
  split at hs
  · cases hs
    exact h.goto trivial
  · obtain ⟨rb, hfifo, he⟩ := map_eq_some_iff.1 hs
    obtain ⟨n, hn⟩ := h.ok rb hfifo
    have hset := h.setFifo (hn.put_spec op.pbuf (op.count - op.ret.toUInt32).toUInt16).1
    generalize rb.rtRingbufferPut op.pbuf (op.count - op.ret.toUInt32).toUInt16 = r at he hset
    obtain ⟨rb', len⟩ := r
    simp only at he hset
    cases he
    refine hset.goto ?_
    split
    · trivial
    · next hret =>
      split
      · trivial
      · exact ⟨hop, hret⟩

theorem ready_go (h : s.Ready) (hs : s.go t (s.pc t) = some (s', out)) : s'.Ready := by
  have hmore := h.more t
  cases hpc : s.pc t with
  | outside =>
    rw [hpc] at hs
    cases hs
  | reading op =>
    rw [hpc] at hs
    exact ready_readRound h hs
  | readReleased op =>
    rw [hpc] at hs
    cases hs
    exact h.wakeWriters.goto trivial
  | readWait op place =>
    rw [hpc] at hs
    obtain ⟨r, -, he⟩ := map_eq_some_iff.1 hs
    cases he
    have hsame : Ready { s with
        pipe := { s.pipe with readerQueue := r.1 }, life := r.2.1 } := h.same rfl rfl
    refine hsame.goto ?_
    split <;> trivial
  | writing op =>
    rw [hpc] at hs hmore
    exact ready_writeRound h hmore.1 hs
  | writeReleased op =>
    rw [hpc] at hs hmore
    cases hs
    exact h.wakeReaders.goto hmore
  | writeWait op place =>
    rw [hpc] at hs hmore
    obtain ⟨r, -, he⟩ := map_eq_some_iff.1 hs
    cases he
    have hsame : Ready { s with
        pipe := { s.pipe with writerQueue := r.1 }, life := r.2.1 } := h.same rfl rfl
    refine hsame.goto ?_
    split <;> exact hmore
  | written ret wakeup =>
    rw [hpc] at hs
    cases hs
    cases wakeup with
    | false => exact h.goto trivial
    | true => exact h.wakeReaders.goto trivial

theorem ready_step (h : s.Ready) (hs : s.step a = some (s', out)) : s'.Ready := by
  cases a with
  | «open» flags pool => exact ready_open h hs
  | close flags =>
    rw [step] at hs
    split at hs
    · exact ready_close h hs
    · cases hs
  | read t flags buf count =>
    rw [step, pipeFopsRead] at hs
    split at hs
    · split at hs
      · cases hs
        exact h
      · cases hs
        exact h.goto trivial
    · cases hs
  | write t flags buf count =>
    rw [step, pipeFopsWrite] at hs
    split at hs
    · split at hs
      · cases hs
        exact h
      · split at hs
        · cases hs
          exact h
        · next hcount =>
          cases hs
          exact h.goto ⟨hcount, fun hzero => hcount hzero.symm⟩
    · cases hs
  | go t =>
    rw [step] at hs
    split at hs
    · exact ready_go h hs
    · cases hs

/-- **In every run** the indices of the buffer are in their places, and a write that is in
progress has something left. -/
theorem run_ready (bufsz : UInt16)
    (h : Run step (fun _ _ => True) (boot bufsz : PipeSys Tid) tr s) : s.Ready :=
  h.invariant (fun _ s => s.Ready) (ready_boot bufsz) fun hr _ hs => ready_step hr hs

/-- A write waits for space. -/
theorem run_ready_full : ∃ s : PipeSys (Fin 2), s.pipe.stored = [0, 1, 2, 3] ∧ s.Ready := by
  have hsome : (exec step (fun _ _ => True) (boot 4 : PipeSys (Fin 2))
      [.open oRdonly (some fun _ => 0), .open oWronly none, .write 1 oWronly (fun i => .ofNat i) 6,
        .go 1]).any fun r => r.1.pipe.stored = [0, 1, 2, 3] := by
    decide +kernel
  obtain ⟨s, tr, hrun, hstored⟩ := Run.of_any hsome
  exact ⟨s, hstored, run_ready 4 hrun⟩

/-! ### When a call gets on -/

/-- One byte has been written to a pipe of size four, which has a reader and a writer. -/
def oneByte : PipeSys (Fin 2) where
  pipe :=
    { fifo := some ((rtRingbufferInit (fun _ => 0) 4).rtRingbufferPut (fun _ => 7) 1).1
      bufsz := 4
      readers := 1
      writers := 1
      refCount := 2
      readerQueue := .rtWqueueInit
      writerQueue := .rtWqueueInit }
  fds := [oWronly, oRdonly]
  life := fun _ => .live
  pc := fun _ => .outside

theorem ok_oneByte : ∀ rb, oneByte.pipe.fifo = some rb → ∃ n, rb.Ok n := by
  rintro rb ⟨⟩
  exact ((RingBuffer.ok_init (by decide) _).put_spec _ _).1

end PipeSys

end RtThread
