import McCortexM3.Drivers.RingBuffer
import McCortexM3.Drivers.WaitQueue

/-!
# Pipes

The pipe of `pipe.c`, as `dfs` opens, reads, writes and closes it.  What is done between taking
and releasing the lock is one step; the first tests of `pipe_fops_read` and `pipe_fops_write`, the
wake-ups and the sections of `rt_wqueue_wait` are steps of their own.  A read tests the count of the
writers before it looks into the buffer.

## Main definitions

* `RtPipe`, `PipeSys` — the pipe; the open descriptors and the places of the threads.
* `pipeFopsOpen`, `pipeFopsClose`, `pipeFopsRead`, `pipeFopsWrite` — the file operations.
* `Delivers` — the bytes that are read are the bytes that are written, up to the end of the file.
* `PipeSys.Drains` — the buffer is empty when a read finds no writer, and at the last close.

## Main results

* `PipeSys.run_bytesKept` — in such runs the bytes are delivered in order, and before the end.
* `PipeSys.not_run_bytesKept` — a read reports the end of the file with a byte in the buffer.
-/

set_option linter.all false

namespace RtThread

open Option List

/-! ### Flags and errors -/

/-- `O_RDONLY`. -/
def oRdonly : UInt32 := 0o0

/-- `O_WRONLY`. -/
def oWronly : UInt32 := 0o1

/-- `O_RDWR`. -/
def oRdwr : UInt32 := 0o2

/-- `O_NONBLOCK`. -/
def oNonblock : UInt32 := 0o4000

/-- `O_ACCMODE`, which is `03 | O_SEARCH`. -/
def oAccmode : UInt32 := 0o3 ||| 0o10000000

/-- `EAGAIN`. -/
def eagain : Int32 := 11

/-- `EPIPE`. -/
def epipe : Int32 := 32

/-- A descriptor with these flags is counted as a reader. -/
def accReads (flags : UInt32) : Bool :=
  flags &&& oAccmode = oRdonly ∨ flags &&& oAccmode = oRdwr

/-- A descriptor with these flags is counted as a writer. -/
def accWrites (flags : UInt32) : Bool :=
  flags &&& oAccmode = oWronly ∨ flags &&& oAccmode = oRdwr

/-! ### The pipe -/

/-- `rt_ringbuffer_create`, where `rt_malloc` returns a pool or nothing; it does not return when an
assertion fails. -/
def rtRingbufferCreate (size : UInt16) (pool : Option (ℕ → UInt8)) : Option (Option RingBuffer) :=
  if size = 0 then none
  else
    let size := size &&& ~~~(4 - 1)
    match pool with
    | none => some none
    | some pool =>
      if 0 < size.toInt16 then some (some (rtRingbufferInit pool size.toInt16)) else none

/-- `struct rt_pipe_device`, with the `ref_count` of its parent. -/
structure RtPipe (Tid : Type) where
  fifo : Option RingBuffer
  bufsz : UInt16
  readers : UInt8
  writers : UInt8
  refCount : UInt8
  readerQueue : RtWqueue Tid
  writerQueue : RtWqueue Tid

/-- The bytes in the buffer, the oldest first. -/
def RtPipe.stored {Tid : Type} (p : RtPipe Tid) : List UInt8 :=
  match p.fifo with
  | none => []
  | some rb => rb.stored

/-- A call of `pipe_fops_read`: the flags of the descriptor, the buffer and its size. -/
structure PipeRead where
  flags : UInt32
  buf : ℕ → UInt8
  count : UInt32

/-- A call of `pipe_fops_write`: the flags of the descriptor, the bytes that are left, how many
there were, and the variables `ret` and `wakeup`. -/
structure PipeWrite where
  flags : UInt32
  pbuf : ℕ → UInt8
  count : UInt32
  ret : Int32
  wakeup : Bool

/-- Where a thread is: in no operation; before it takes the lock; after it has released it in order
to wait; in `rt_wqueue_wait`; after it has released the lock at the end of a write. -/
inductive PipePc
  | outside
  | reading (op : PipeRead)
  | readReleased (op : PipeRead)
  | readWait (op : PipeRead) (place : WqPc)
  | writing (op : PipeWrite)
  | writeReleased (op : PipeWrite)
  | writeWait (op : PipeWrite) (place : WqPc)
  | written (ret : Int32) (wakeup : Bool)

/-- What an observer sees: descriptors that are opened and closed, bytes that a write has stored,
and what the calls return, a read with the bytes it has got. -/
inductive PipeEvent
  | opened (flags : UInt32)
  | closed (flags : UInt32)
  | accepted (bytes : List UInt8)
  | readReturned (len : Int32) (bytes : List UInt8)
  | writeReturned (ret : Int32)
  deriving DecidableEq

/-- What can happen next: a descriptor is opened or closed, a thread calls a read or a write on an
open one, and a thread goes on. -/
inductive PipeAction (Tid : Type)
  | open (flags : UInt32) (pool : Option (ℕ → UInt8))
  | close (flags : UInt32)
  | read (t : Tid) (flags : UInt32) (buf : ℕ → UInt8) (count : UInt32)
  | write (t : Tid) (flags : UInt32) (buf : ℕ → UInt8) (count : UInt32)
  | go (t : Tid)

/-- The pipe, the flags of the open descriptors, and the threads. -/
structure PipeSys (Tid : Type) where
  pipe : RtPipe Tid
  fds : List UInt32
  life : Tid → Life
  pc : Tid → PipePc

namespace PipeSys

variable {Tid : Type} [DecidableEq Tid]

/-- The place of the thread becomes `pc`. -/
def goto (s : PipeSys Tid) (t : Tid) (pc : PipePc) : PipeSys Tid :=
  { s with pc := Function.update s.pc t pc }

/-- The buffer becomes `rb`. -/
def setFifo (s : PipeSys Tid) (rb : RingBuffer) : PipeSys Tid :=
  { s with pipe := { s.pipe with fifo := some rb } }

/-- `rt_wqueue_wakeup` of the queue of the readers. -/
def wakeReaders (s : PipeSys Tid) : PipeSys Tid :=
  { s with
    pipe := { s.pipe with readerQueue := s.pipe.readerQueue.rtWqueueWakeup.1 }
    life := resumed s.life s.pipe.readerQueue.rtWqueueWakeup.2 }

/-- `rt_wqueue_wakeup` of the queue of the writers. -/
def wakeWriters (s : PipeSys Tid) : PipeSys Tid :=
  { s with
    pipe := { s.pipe with writerQueue := s.pipe.writerQueue.rtWqueueWakeup.1 }
    life := resumed s.life s.pipe.writerQueue.rtWqueueWakeup.2 }

/-- `pipe_fops_open`. -/
def pipeFopsOpen (s : PipeSys Tid) (flags : UInt32) (pool : Option (ℕ → UInt8)) :
    Option (PipeSys Tid × List PipeEvent) :=
  let p := s.pipe
  let fifo := if p.refCount = 0 then rtRingbufferCreate p.bufsz pool else some p.fifo
  fifo.map fun fifo =>
    ({ s with
      pipe := { p with
        fifo := fifo
        readers := if accReads flags then p.readers + 1 else p.readers
        writers := if accWrites flags then p.writers + 1 else p.writers
        refCount := p.refCount + 1 }
      fds := flags :: s.fds }, [.opened flags])

/-- The counts in `pipe_fops_close`. -/
def closeCounts (s : PipeSys Tid) (flags : UInt32) : PipeSys Tid :=
  { s with
    pipe := { s.pipe with
      readers := if accReads flags then s.pipe.readers - 1 else s.pipe.readers
      writers := if accWrites flags then s.pipe.writers - 1 else s.pipe.writers }
    fds := s.fds.erase flags }

/-- The wake-ups in `pipe_fops_close`. -/
def closeWakes (s : PipeSys Tid) : PipeSys Tid :=
  let s := if s.pipe.writers = 0 then s.wakeReaders else s
  if s.pipe.readers = 0 then s.wakeWriters else s

/-- `pipe_fops_close`.  `rt_ringbuffer_destroy` does not return when there is no buffer. -/
def pipeFopsClose (s : PipeSys Tid) (flags : UInt32) : Option (PipeSys Tid × List PipeEvent) :=
  let s := (s.closeCounts flags).closeWakes
  let fifo := if s.pipe.refCount = 1 then s.pipe.fifo.map fun _ => none else some s.pipe.fifo
  fifo.map fun fifo =>
    ({ s with pipe := { s.pipe with fifo := fifo, refCount := s.pipe.refCount - 1 } },
      [.closed flags])

/-- `pipe_fops_read` up to taking the lock. -/
def pipeFopsRead (s : PipeSys Tid) (t : Tid) (flags : UInt32) (buf : ℕ → UInt8) (count : UInt32) :
    PipeSys Tid × List PipeEvent :=
  if s.pipe.writers = 0 then (s, [.readReturned 0 []])
  else (s.goto t (.reading ⟨flags, buf, count⟩), [])

/-- One round of the loop of `pipe_fops_read`, while it has the lock.  `rt_ringbuffer_get` does not
return when there is no buffer. -/
def readRound (s : PipeSys Tid) (t : Tid) (op : PipeRead) : Option (PipeSys Tid × List PipeEvent) :=
  if s.pipe.writers = 0 then some (s.goto t .outside, [.readReturned 0 []])
  else
    s.pipe.fifo.map fun rb =>
      let (rb, buf, len) := rb.rtRingbufferGet op.buf op.count.toUInt16
      let s := s.setFifo rb
      if 0 < len.toInt32 then
        (s.wakeWriters.goto t .outside,
          [.readReturned len.toInt32 ((List.range len.toNat).map buf)])
      else if op.flags &&& oNonblock ≠ 0 then (s.goto t .outside, [.readReturned (-eagain) []])
      else (s.goto t (.readReleased { op with buf := buf }), [])

/-- `pipe_fops_write` up to taking the lock. -/
def pipeFopsWrite (s : PipeSys Tid) (t : Tid) (flags : UInt32) (buf : ℕ → UInt8)
    (count : UInt32) : PipeSys Tid × List PipeEvent :=
  if s.pipe.readers = 0 then (s, [.writeReturned (-epipe)])
  else if count = 0 then (s, [.writeReturned 0])
  else (s.goto t (.writing ⟨flags, buf, count, 0, false⟩), [])

/-- One round of the loop of `pipe_fops_write`, while it has the lock.  `rt_ringbuffer_put` does not
return when there is no buffer. -/
def writeRound (s : PipeSys Tid) (t : Tid) (op : PipeWrite) :
    Option (PipeSys Tid × List PipeEvent) :=
  if s.pipe.readers = 0 then
    some (s.goto t (.written (if op.ret = 0 then -epipe else op.ret) op.wakeup), [])
  else
    s.pipe.fifo.map fun rb =>
      let (rb, len) := rb.rtRingbufferPut op.pbuf (op.count - op.ret.toUInt32).toUInt16
      let s := s.setFifo rb
      let ret := op.ret + len.toInt32
      let place : PipePc :=
        if ret.toUInt32 = op.count then .written ret true
        else if op.flags &&& oNonblock ≠ 0 then .written (if ret = 0 then -eagain else ret) true
        else
          .writeReleased
            { op with pbuf := fun i => op.pbuf (len.toNat + i), ret := ret, wakeup := true }
      (s.goto t place, [.accepted ((List.range len.toNat).map op.pbuf)])

/-- A thread goes on in `rt_wqueue_wait` on the queue `q`. -/
def waitGo (s : PipeSys Tid) (t : Tid) (q : RtWqueue Tid) (place : WqPc) :
    Option (RtWqueue Tid × (Tid → Life) × WqPc) :=
  (WqSys.go ⟨q, s.life, fun _ => place, fun _ => false⟩ t place).map
    fun r => (r.1.queue, r.1.life, r.1.pc t)

/-- A thread goes on in an operation. -/
def go (s : PipeSys Tid) (t : Tid) : PipePc → Option (PipeSys Tid × List PipeEvent)
  | .outside => none
  | .reading op => s.readRound t op
  | .readReleased op => some (s.wakeWriters.goto t (.readWait op (.testing rtWaitingForever)), [])
  | .readWait op place =>
    (s.waitGo t s.pipe.readerQueue place).map fun (q, life, place) =>
      (({ s with pipe := { s.pipe with readerQueue := q }, life := life }).goto t
        (if place = WqPc.outside then .reading op else .readWait op place), [])
  | .writing op => s.writeRound t op
  | .writeReleased op =>
    some (s.wakeReaders.goto t (.writeWait op (.testing rtWaitingForever)), [])
  | .writeWait op place =>
    (s.waitGo t s.pipe.writerQueue place).map fun (q, life, place) =>
      (({ s with pipe := { s.pipe with writerQueue := q }, life := life }).goto t
        (if place = WqPc.outside then .writing op else .writeWait op place), [])
  | .written ret wakeup =>
    some ((if wakeup then s.wakeReaders else s).goto t .outside, [.writeReturned ret])

/-- The thread is in no operation, and the descriptor is open. -/
def CanCall (s : PipeSys Tid) (t : Tid) (flags : UInt32) : Prop :=
  s.life t = .live ∧ (s.pc t matches .outside) ∧ flags ∈ s.fds

instance (s : PipeSys Tid) (t : Tid) (flags : UInt32) : Decidable (s.CanCall t flags) := by
  unfold CanCall
  infer_instance

/-- One step of an interleaving. -/
def step (s : PipeSys Tid) : PipeAction Tid → Option (PipeSys Tid × List PipeEvent)
  | .open flags pool => s.pipeFopsOpen flags pool
  | .close flags => if flags ∈ s.fds then s.pipeFopsClose flags else none
  | .read t flags buf count =>
    if s.CanCall t flags then some (s.pipeFopsRead t flags buf count) else none
  | .write t flags buf count =>
    if s.CanCall t flags then some (s.pipeFopsWrite t flags buf count) else none
  | .go t => if s.life t = .live then s.go t (s.pc t) else none

/-- `rt_pipe_create`; all threads can run. -/
def boot (bufsz : UInt16) : PipeSys Tid where
  pipe := ⟨none, bufsz, 0, 0, 0, .rtWqueueInit, .rtWqueueInit⟩
  fds := []
  life := fun _ => .live
  pc := fun _ => .outside

/-- The step is a read that finds no writer. -/
def FindsEnd (s : PipeSys Tid) : PipeAction Tid → Prop
  | .read .. => s.pipe.writers = 0
  | .go t => (s.pc t matches .reading _) ∧ s.pipe.writers = 0
  | _ => False

instance (s : PipeSys Tid) (a : PipeAction Tid) : Decidable (s.FindsEnd a) := by
  unfold FindsEnd
  split <;> infer_instance

/-- A read that finds no writer, and the last close, find the buffer empty; a descriptor is opened
while there are fewer than 255. -/
def Drains (s : PipeSys Tid) (a : PipeAction Tid) : Prop :=
  (s.FindsEnd a → s.pipe.stored = []) ∧
    match a with
    | .open .. => s.fds.length < 255
    | .close _ => s.pipe.refCount = 1 → s.pipe.stored = []
    | _ => True

instance (s : PipeSys Tid) (a : PipeAction Tid) : Decidable (s.Drains a) := by
  unfold Drains
  split <;> infer_instance

end PipeSys

/-! ### What a pipe is for -/

/-- A descriptor is opened for writing. -/
def PipeEvent.opensWriter : PipeEvent → Bool
  | .opened flags => accWrites flags
  | _ => false

/-- A descriptor for writing is closed. -/
def PipeEvent.closesWriter : PipeEvent → Bool
  | .closed flags => accWrites flags
  | _ => false

/-- Every descriptor that has been opened for writing has been closed. -/
def NoWriter (tr : List PipeEvent) : Prop :=
  tr.countP PipeEvent.opensWriter = tr.countP PipeEvent.closesWriter

/-- The bytes that the writers have stored. -/
def acceptedBytes (tr : List PipeEvent) : List UInt8 :=
  tr.flatMap fun | .accepted bytes => bytes | _ => []

/-- The bytes that the readers have got. -/
def deliveredBytes (tr : List PipeEvent) : List UInt8 :=
  tr.flatMap fun | .readReturned _ bytes => bytes | _ => []

/-- **The bytes are delivered in order**, those that are not are in the buffer, and a read reports
the end of the file when there is no writer and all that has been accepted has been delivered. -/
structure Delivers (tr : List PipeEvent) (stored : List UInt8) : Prop where
  inOrder : deliveredBytes tr <+: acceptedBytes tr
  kept : acceptedBytes tr = deliveredBytes tr ++ stored
  eof : ∀ tr₁ bytes, tr₁ ++ [PipeEvent.readReturned 0 bytes] <+: tr →
    NoWriter tr₁ ∧ deliveredBytes tr₁ = acceptedBytes tr₁

section

variable {tr : List PipeEvent} {e : PipeEvent} {l l' : List UInt8}

@[simp] theorem acceptedBytes_append (tr tr' : List PipeEvent) :
    acceptedBytes (tr ++ tr') = acceptedBytes tr ++ acceptedBytes tr' := flatMap_append

@[simp] theorem deliveredBytes_append (tr tr' : List PipeEvent) :
    deliveredBytes (tr ++ tr') = deliveredBytes tr ++ deliveredBytes tr' := flatMap_append

theorem delivers_nil : Delivers [] [] := by
  refine ⟨ nil_prefix, rfl, ?_⟩
  intro tr₁ bytes h
  simpa using eq_nil_of_prefix_nil h

theorem Delivers.snoc (h : Delivers tr l)
    (hkept : l ++ acceptedBytes [e] = deliveredBytes [e] ++ l')
    (heof : ∀ bytes, e = .readReturned 0 bytes → NoWriter tr ∧ l = []) :
    Delivers (tr ++ [e]) l' := by
  have hkept' : acceptedBytes (tr ++ [e]) = deliveredBytes (tr ++ [e]) ++ l' := by
    rw [acceptedBytes_append, deliveredBytes_append, h.kept, append_assoc, hkept, append_assoc]
  refine ⟨⟨l', hkept'.symm⟩, hkept', ?_⟩
  intro tr₁ bytes hpre
  rcases prefix_concat_iff.1 hpre with heq | hpre
  · -- the read is the last event
    obtain ⟨rfl, he⟩ := append_inj' heq rfl
    obtain ⟨hnone, rfl⟩ := heof bytes (singleton_inj.1 he).symm
    exact ⟨hnone, by rw [h.kept, append_nil]⟩
  · exact h.eof tr₁ bytes hpre

end

theorem ok_rtRingbufferCreate {size : UInt16} {pool : Option (ℕ → UInt8)}
    {fifo : Option RingBuffer} (h : rtRingbufferCreate size pool = some fifo) :
    ∀ rb, fifo = some rb → rb.Ok 0 := by
  rw [rtRingbufferCreate] at h
  split at h
  · cases h
  · cases pool with
    | none =>
      cases h
      exact nofun
    | some pool =>
      simp only at h
      split at h
      · next hsize =>
        cases h
        rintro rb ⟨⟩
        exact RingBuffer.ok_init hsize pool
      · cases h

namespace PipeSys

variable {Tid : Type} [DecidableEq Tid] {s s' : PipeSys Tid} {a : PipeAction Tid}
  {tr tr' out : List PipeEvent} {t : Tid} {flags : UInt32}

/-- The buffer and the counts agree with the descriptors and with what has been seen. -/
structure Inv (tr : List PipeEvent) (s : PipeSys Tid) : Prop where
  delivers : Delivers tr s.pipe.stored
  ok : ∀ rb, s.pipe.fifo = some rb → ∃ n, rb.Ok n
  unopened : s.fds = [] → s.pipe.fifo = none
  refCount : s.pipe.refCount.toNat = s.fds.length
  writers : s.pipe.writers.toNat = s.fds.countP accWrites
  opens : tr.countP PipeEvent.opensWriter =
    tr.countP PipeEvent.closesWriter + s.fds.countP accWrites

theorem inv_boot (bufsz : UInt16) : Inv [] (boot bufsz : PipeSys Tid) :=
  ⟨delivers_nil, nofun, fun _ => rfl, rfl, rfl, rfl⟩

section

variable (h : Inv tr s)
include h

theorem Inv.noWriter (hw : s.pipe.writers = 0) : NoWriter tr := by
  have hcount : s.fds.countP accWrites = 0 := by rw [← h.writers, hw, UInt8.toNat_zero]
  rw [NoWriter, h.opens, hcount, Nat.add_zero]

theorem Inv.same (hfifo : s'.pipe.fifo = s.pipe.fifo)
    (hwriters : s'.pipe.writers = s.pipe.writers) (hcount : s'.pipe.refCount = s.pipe.refCount)
    (hfds : s'.fds = s.fds) : Inv tr s' := by
  have hstored : s'.pipe.stored = s.pipe.stored := by rw [RtPipe.stored, RtPipe.stored, hfifo]
  refine ⟨hstored ▸ h.delivers, hfifo ▸ h.ok, ?_, ?_, ?_, ?_⟩
  · rw [hfds, hfifo]
    exact h.unopened
  · rw [hcount, hfds]
    exact h.refCount
  · rw [hwriters, hfds]
    exact h.writers
  · rw [hfds]
    exact h.opens

theorem Inv.goto (t : Tid) (pc : PipePc) : Inv tr (s.goto t pc) :=
  h.same rfl rfl rfl rfl

theorem Inv.wakeReaders : Inv tr s.wakeReaders := h.same rfl rfl rfl rfl

theorem Inv.wakeWriters : Inv tr s.wakeWriters := h.same rfl rfl rfl rfl

/-- A call returns; when a read reports the end, there is no writer and the buffer is empty. -/
theorem Inv.say {e : PipeEvent}
    (he : (∃ ret, e = .writeReturned ret) ∨ ∃ len, e = .readReturned len [] ∧
      (len = 0 → s.pipe.writers = 0 ∧ s.pipe.stored = [])) : Inv (tr ++ [e]) s := by
  have hevent : acceptedBytes [e] = [] ∧ deliveredBytes [e] = [] ∧ e.opensWriter = false ∧
      e.closesWriter = false ∧
      ∀ bytes, e = .readReturned 0 bytes → NoWriter tr ∧ s.pipe.stored = [] := by
    rcases he with ⟨ret, rfl⟩ | ⟨len, rfl, hend⟩
    · exact ⟨rfl, rfl, rfl, rfl, nofun⟩
    · refine ⟨rfl, rfl, rfl, rfl, ?_⟩
      rintro bytes ⟨⟩
      exact ⟨h.noWriter (hend rfl).1, (hend rfl).2⟩
  obtain ⟨haccepted, hdelivered, hopens, hcloses, heof⟩ := hevent
  refine ⟨h.delivers.snoc ?_ heof, h.ok, h.unopened, h.refCount, h.writers, ?_⟩
  · rw [haccepted, hdelivered, append_nil, nil_append]
  · simp [countP_append, hopens, hcloses, h.opens]

theorem Inv.setFifo {rb rb' : RingBuffer} (hfifo : s.pipe.fifo = some rb)
    (hok : ∃ n, rb'.Ok n) (hdelivers : Delivers tr' rb'.stored)
    (hopens : tr'.countP PipeEvent.opensWriter = tr.countP PipeEvent.opensWriter)
    (hcloses : tr'.countP PipeEvent.closesWriter = tr.countP PipeEvent.closesWriter) :
    Inv tr' (s.setFifo rb') := by
  refine ⟨hdelivers, ?_, ?_, h.refCount, h.writers, ?_⟩
  · rintro rb ⟨⟩
    exact hok
  · intro hnil
    rw [h.unopened hnil] at hfifo
    cases hfifo
  · rw [hopens, hcloses]
    exact h.opens

theorem inv_open {pool : Option (ℕ → UInt8)} (hlt : s.fds.length < 255)
    (hs : s.pipeFopsOpen flags pool = some (s', out)) : Inv (tr ++ out) s' := by
  obtain ⟨fifo, hfifo, he⟩ := map_eq_some_iff.1 hs
  cases he
  have hcount := h.refCount
  have hwriters := h.writers
  have hle := s.fds.countP_le_length (p := accWrites)
  -- the buffer is either new and empty, or stays
  have hnew : RtPipe.stored { s.pipe with fifo := fifo } = s.pipe.stored ∧
      ∀ rb, fifo = some rb → ∃ n, rb.Ok n := by
    split at hfifo
    · next hzero =>
      have hempty := ok_rtRingbufferCreate hfifo
      have hfds : s.fds = [] := by
        rw [hzero, UInt8.toNat_zero] at hcount
        exact eq_nil_of_length_eq_zero hcount.symm
      refine ⟨?_, fun rb hrb => ⟨0, hempty rb hrb⟩⟩
      rw [RtPipe.stored, RtPipe.stored, h.unopened hfds]
      cases fifo with
      | none => rfl
      | some rb => exact (hempty rb rfl).stored
    · cases hfifo
      exact ⟨rfl, h.ok⟩
  refine ⟨?_, hnew.2, nofun, ?_, ?_, ?_⟩
  · refine h.delivers.snoc ?_ nofun
    exact (append_nil _).trans hnew.1.symm
  · show (s.pipe.refCount + 1).toNat = s.fds.length + 1
    rw [UInt8.toNat_add, hcount]
    exact Nat.mod_eq_of_lt (by simpa using Nat.succ_lt_succ hlt)
  · show (if accWrites flags then s.pipe.writers + 1 else s.pipe.writers).toNat =
      (flags :: s.fds).countP accWrites
    rw [countP_cons]
    split
    · rw [UInt8.toNat_add, hwriters]
      exact Nat.mod_eq_of_lt (by simpa using Nat.succ_lt_succ (hle.trans_lt hlt))
    · exact hwriters
  · simp only [countP_append, countP_cons, h.opens, PipeEvent.opensWriter,
      PipeEvent.closesWriter]
    by_cases hwrites : accWrites flags = true
    · simp [hwrites, Nat.add_assoc]
    · simp [hwrites]

end

theorem closeWakes_eq (s : PipeSys Tid) :
    s.closeWakes.pipe.fifo = s.pipe.fifo ∧ s.closeWakes.pipe.refCount = s.pipe.refCount ∧
      s.closeWakes.pipe.writers = s.pipe.writers ∧ s.closeWakes.fds = s.fds := by
  unfold closeWakes
  simp only
  split <;> split <;> exact ⟨rfl, rfl, rfl, rfl⟩

theorem inv_close (h : Inv tr s) (hmem : flags ∈ s.fds)
    (hlast : s.pipe.refCount = 1 → s.pipe.stored = [])
    (hs : s.pipeFopsClose flags = some (s', out)) : Inv (tr ++ out) s' := by
  rw [pipeFopsClose] at hs
  obtain ⟨fifo, hfifo, he⟩ := map_eq_some_iff.1 hs
  cases he
  obtain ⟨hf, hr, hw, hfds⟩ : (s.closeCounts flags).closeWakes.pipe.fifo = s.pipe.fifo ∧
      (s.closeCounts flags).closeWakes.pipe.refCount = s.pipe.refCount ∧
      (s.closeCounts flags).closeWakes.pipe.writers =
        (if accWrites flags then s.pipe.writers - 1 else s.pipe.writers) ∧
      (s.closeCounts flags).closeWakes.fds = s.fds.erase flags :=
    (s.closeCounts flags).closeWakes_eq
  rw [hr, hf] at hfifo
  have hcount := h.refCount
  have hwriters := h.writers
  have hlength := (perm_cons_erase hmem).length_eq
  have hperm := (perm_cons_erase hmem).countP_eq accWrites
  rw [length_cons] at hlength
  rw [countP_cons] at hperm
  have hone : (1 : UInt8).toNat = 1 := rfl
  have hpred : ∀ x : UInt8, 0 < x.toNat → (x - 1).toNat = x.toNat - 1 := by
    intro x hx
    rw [UInt8.toNat_sub_of_le _ _ (UInt8.le_iff_toNat_le.2 (by rw [hone]; omega)), hone]
  -- the last close drops the buffer, which is empty
  have hdropped : RtPipe.stored { s.pipe with fifo := fifo } = s.pipe.stored ∧
      (∀ rb, fifo = some rb → ∃ n, rb.Ok n) ∧ (s.fds.erase flags = [] → fifo = none) := by
    by_cases hlast' : s.pipe.refCount = 1
    · rw [if_pos hlast'] at hfifo
      obtain ⟨rb, -, rfl⟩ := map_eq_some_iff.1 hfifo
      exact ⟨(hlast hlast').symm, nofun, fun _ => rfl⟩
    · rw [if_neg hlast'] at hfifo
      cases hfifo
      refine ⟨rfl, h.ok, ?_⟩
      intro hnil
      rw [hnil, length_nil] at hlength
      exact absurd (UInt8.toNat_inj.1 (hcount.trans (hlength.trans hone.symm))) hlast'
  refine ⟨?_, hdropped.2.1, ?_, ?_, ?_, ?_⟩
  · refine h.delivers.snoc ?_ nofun
    exact (append_nil _).trans hdropped.1.symm
  · exact fun hnil => hdropped.2.2 (hfds ▸ hnil)
  · show ((s.closeCounts flags).closeWakes.pipe.refCount - 1).toNat =
      (s.closeCounts flags).closeWakes.fds.length
    rw [hr, hfds, hpred _ (by omega)]
    omega
  · show (s.closeCounts flags).closeWakes.pipe.writers.toNat =
      (s.closeCounts flags).closeWakes.fds.countP accWrites
    rw [hw, hfds]
    by_cases hwrites : accWrites flags = true
    · rw [if_pos hwrites] at hperm ⊢
      rw [hpred _ (by omega)]
      omega
    · rw [if_neg hwrites] at hperm ⊢
      omega
  · show (tr ++ [PipeEvent.closed flags]).countP PipeEvent.opensWriter =
      (tr ++ [PipeEvent.closed flags]).countP PipeEvent.closesWriter +
        (s.closeCounts flags).closeWakes.fds.countP accWrites
    simp only [countP_append, countP_singleton, h.opens, PipeEvent.opensWriter,
      PipeEvent.closesWriter, hfds, hperm]
    by_cases hwrites : accWrites flags = true
    · simp only [hwrites, if_true, Bool.false_eq_true, if_false]
      omega
    · simp only [hwrites, Bool.false_eq_true, if_false]
      omega

theorem toInt32_pos {x : UInt32} (hlt : x.toNat < 2 ^ 31) (hpos : 0 < x.toNat) : 0 < x.toInt32 := by
  have hint : x.toInt32.toInt = x.toNat :=
    BitVec.toInt_eq_toNat_of_lt (show 2 * x.toNat < 2 ^ 32 by omega)
  rw [Int32.lt_iff_toInt_lt, hint]
  exact Int.natCast_pos.2 hpos

/-- **A round of a read** takes the oldest bytes, or reports the end of an empty pipe. -/
theorem inv_readRound {op : PipeRead} (h : Inv tr s)
    (hend : s.pipe.writers = 0 → s.pipe.stored = [])
    (hs : s.readRound t op = some (s', out)) : Inv (tr ++ out) s' := by
  rw [readRound] at hs
  split at hs
  · next hw =>
    cases hs
    exact (h.say (.inr ⟨0, rfl, fun _ => ⟨hw, hend hw⟩⟩)).goto t .outside
  · obtain ⟨rb, hfifo, he⟩ := map_eq_some_iff.1 hs
    obtain ⟨n, hn⟩ := h.ok rb hfifo
    obtain ⟨hok, hstored, hlen⟩ := hn.get_spec op.buf op.count.toUInt16
    generalize rb.rtRingbufferGet op.buf op.count.toUInt16 = r at he hok hstored hlen
    obtain ⟨rb', buf, len⟩ := r
    have hbefore : s.pipe.stored = rb.stored := by rw [RtPipe.stored, hfifo]
    simp only at he hok hstored hlen
    split at he
    · next hpos =>
      cases he
      refine (h.setFifo hfifo hok (h.delivers.snoc ?_ ?_) ?_ ?_).wakeWriters.goto t .outside
      · rw [hbefore, hstored]
        simp [acceptedBytes, deliveredBytes]
      · -- some bytes have been read
        intro bytes hret
        rw [PipeEvent.readReturned.injEq] at hret
        rw [hret.1] at hpos
        exact absurd hpos (by decide)
      · simp [countP_append, PipeEvent.opensWriter]
      · simp [countP_append, PipeEvent.closesWriter]
    · next hpos =>
      have hzero : len.toNat = 0 := by
        have hlt := op.count.toUInt16.toNat_lt
        have hneg := mt (toInt32_pos (x := len) (by omega)) hpos
        omega
      have hsame : Inv tr (s.setFifo rb') := by
        refine h.setFifo hfifo hok ?_ rfl rfl
        have hafter : rb'.stored = s.pipe.stored := by simp [hbefore, hstored, hzero]
        rw [hafter]
        exact h.delivers
      split at he
      · cases he
        exact (hsame.say (.inr ⟨-eagain, rfl, fun hagain => absurd hagain (by decide)⟩)).goto t
          .outside
      · cases he
        rw [append_nil]
        exact hsame.goto t _

theorem inv_writeRound {op : PipeWrite} (h : Inv tr s)
    (hs : s.writeRound t op = some (s', out)) : Inv (tr ++ out) s' := by
  rw [writeRound] at hs
  split at hs
  · cases hs
    rw [append_nil]
    exact h.goto t _
  · obtain ⟨rb, hfifo, he⟩ := map_eq_some_iff.1 hs
    obtain ⟨n, hn⟩ := h.ok rb hfifo
    obtain ⟨hok, hstored⟩ := hn.put_spec op.pbuf (op.count - op.ret.toUInt32).toUInt16
    generalize rb.rtRingbufferPut op.pbuf (op.count - op.ret.toUInt32).toUInt16 = r at he hok hstored
    obtain ⟨rb', len⟩ := r
    have hbefore : s.pipe.stored = rb.stored := by rw [RtPipe.stored, hfifo]
    simp only at he hok hstored
    cases he
    refine (h.setFifo hfifo hok (h.delivers.snoc ?_ ?_) ?_ ?_).goto t _
    · rw [hbefore, hstored]
      simp [acceptedBytes, deliveredBytes]
    · exact fun bytes => nofun
    · simp [countP_append, PipeEvent.opensWriter]
    · simp [countP_append, PipeEvent.closesWriter]

theorem inv_go (h : Inv tr s) (hc : s.Drains (.go t)) (hs : s.go t (s.pc t) = some (s', out)) :
    Inv (tr ++ out) s' := by
  cases hpc : s.pc t with
  | outside =>
    rw [hpc] at hs
    cases hs
  | reading op =>
    rw [hpc] at hs
    exact inv_readRound h (fun hw => hc.1 ⟨by rw [hpc], hw⟩) hs
  | readReleased op =>
    rw [hpc] at hs
    cases hs
    rw [append_nil]
    exact h.wakeWriters.goto t _
  | readWait op place | writeWait op place =>
    rw [hpc] at hs
    obtain ⟨r, -, he⟩ := map_eq_some_iff.1 hs
    cases he
    rw [append_nil]
    exact h.same rfl rfl rfl rfl
  | writing op =>
    rw [hpc] at hs
    exact inv_writeRound h hs
  | writeReleased op =>
    rw [hpc] at hs
    cases hs
    rw [append_nil]
    exact h.wakeReaders.goto t _
  | written ret wakeup =>
    rw [hpc] at hs
    cases hs
    have hsaid := h.say (.inl ⟨ret, rfl⟩)
    cases wakeup with
    | false => exact hsaid.goto t .outside
    | true => exact hsaid.wakeReaders.goto t .outside

theorem inv_read (h : Inv tr s) (hend : s.pipe.writers = 0 → s.pipe.stored = []) (t : Tid)
    (flags : UInt32) (buf : ℕ → UInt8) (count : UInt32) :
    Inv (tr ++ (s.pipeFopsRead t flags buf count).2) (s.pipeFopsRead t flags buf count).1 := by
  rw [pipeFopsRead]
  split
  · next hw => exact h.say (.inr ⟨0, rfl, fun _ => ⟨hw, hend hw⟩⟩)
  · rw [append_nil]
    exact h.goto t _

theorem inv_write (h : Inv tr s) (t : Tid) (flags : UInt32) (buf : ℕ → UInt8) (count : UInt32) :
    Inv (tr ++ (s.pipeFopsWrite t flags buf count).2) (s.pipeFopsWrite t flags buf count).1 := by
  rw [pipeFopsWrite]
  split
  · exact h.say (.inl ⟨_, rfl⟩)
  · split
    · exact h.say (.inl ⟨_, rfl⟩)
    · rw [append_nil]
      exact h.goto t _

theorem inv_step (h : Inv tr s) (hc : s.Drains a) (hs : s.step a = some (s', out)) :
    Inv (tr ++ out) s' := by
  cases a with
  | «open» flags pool => exact inv_open h hc.2 hs
  | close flags =>
    rw [step] at hs
    split at hs
    · next hmem => exact inv_close h hmem hc.2 hs
    · cases hs
  | read t flags buf count =>
    rw [step] at hs
    split at hs
    · have he : s.pipeFopsRead t flags buf count = (s', out) := some_inj.1 hs
      have hinv := inv_read h hc.1 t flags buf count
      rwa [he] at hinv
    · cases hs
  | write t flags buf count =>
    rw [step] at hs
    split at hs
    · have he : s.pipeFopsWrite t flags buf count = (s', out) := some_inj.1 hs
      have hinv := inv_write h t flags buf count
      rwa [he] at hinv
    · cases hs
  | go t =>
    rw [step] at hs
    split at hs
    · exact inv_go h hc hs
    · cases hs

/-- **The bytes are delivered in order, and all before the end**, as long as a read that finds no
writer and the last close find the buffer empty. -/
theorem run_bytesKept (bufsz : UInt16) (h : Run step Drains (boot bufsz) tr s) :
    Delivers tr s.pipe.stored :=
  (h.invariant Inv (inv_boot bufsz) inv_step).delivers

/-- A reader waits for a writer, whose bytes do not fit at once; the end follows the last close. -/
theorem run_bytesKept_twice : ∃ s : PipeSys (Fin 2), Delivers [.opened oRdonly, .opened oWronly,
    .accepted [0, 1, 2, 3], .readReturned 4 [0, 1, 2, 3], .accepted [4, 5], .writeReturned 6,
    .readReturned 2 [4, 5], .closed oWronly, .readReturned 0 []] s.pipe.stored := by
  have hsome : (exec step Drains (boot 4 : PipeSys (Fin 2)) [.open oRdonly (some fun _ => 0),
      .open oWronly none, .read 0 oRdonly (fun _ => 0) 8, .go 0, .go 0, .go 0,
      .write 1 oWronly (fun i => .ofNat i) 6, .go 1, .go 1, .go 0, .go 0, .go 0, .go 1, .go 1, .go 1,
      .go 1, .read 0 oRdonly (fun _ => 0) 8, .go 0, .close oWronly,
      .read 0 oRdonly (fun _ => 0) 8]).map (·.2) = some [.opened oRdonly, .opened oWronly,
      .accepted [0, 1, 2, 3], .readReturned 4 [0, 1, 2, 3], .accepted [4, 5], .writeReturned 6,
      .readReturned 2 [4, 5], .closed oWronly, .readReturned 0 []] := by decide +kernel
  obtain ⟨⟨s, tr⟩, hexec, hr⟩ := map_eq_some_iff.1 hsome
  cases hr
  exact ⟨s, run_bytesKept 4 (Run.of_exec hexec)⟩

/-- **A read reports the end before the last byte**: a writer stores a byte and closes its
descriptor; the read that follows does not look into the buffer. -/
theorem not_run_bytesKept : ¬ ∀ (bufsz : UInt16) (s : PipeSys (Fin 2)) (tr : List PipeEvent),
    Run step (fun _ _ => True) (boot bufsz) tr s → Delivers tr s.pipe.stored := by
  intro hall
  have hsome : (exec step (fun _ _ => True) (boot 4 : PipeSys (Fin 2))
      [.open oRdonly (some fun _ => 0), .open oWronly none, .write 1 oWronly (fun _ => 7) 1, .go 1,
      .go 1, .close oWronly, .read 0 oRdonly (fun _ => 0) 1]).map (·.2) =
      some [.opened oRdonly, .opened oWronly, .accepted [7], .writeReturned 1, .closed oWronly,
        .readReturned 0 []] := by decide +kernel
  obtain ⟨⟨s, tr⟩, hexec, hr⟩ := map_eq_some_iff.1 hsome
  cases hr
  obtain ⟨-, hbytes⟩ := (hall 4 s _ (Run.of_exec hexec)).eof [.opened oRdonly, .opened oWronly,
    .accepted [7], .writeReturned 1, .closed oWronly] [] prefix_rfl
  cases hbytes

end PipeSys

end RtThread
