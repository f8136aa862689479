import McCortexM3.Ipc.Parked
import McCortexM3.Run
import McCortexM3.SList

/-!
# Message queues

The message queue of `ipc.c`: a pool of nodes that are linked into the free list or into the
queue by hand.  A message is copied into its node, and out of it, while interrupts are
enabled, so that a node is in neither list for a while.  Nodes are numbered by their place
in the pool.

The contexts that call the functions are threads and activations of interrupt handlers.  Any
context that can run may make the next step.

## Main definitions

* `MessageQueue`, `rtMqInit`, `rtMqCreate` — the object.
-/

set_option linter.all false

namespace RtThread

open Function (update)

/-! ### The object -/

/-- `struct rt_messagequeue` with its pool: the pointer at the start of each node, and the
bytes behind it.  `msg_size`, `max_msgs` and `entry` are `rt_uint16_t`. -/
structure MessageQueue where
  next : ℕ → Option ℕ
  body : ℕ → ℕ → UInt8
  msgSize : UInt16
  maxMsgs : UInt16
  entry : UInt16
  msgQueueHead : Option ℕ
  msgQueueTail : Option ℕ
  msgQueueFree : Option ℕ
  flag : IpcFlag

/-- `RT_ALIGN(size, 4)`. -/
def rtAlign4 (size : UInt32) : UInt32 := (size + 3) &&& ~~~3

namespace MessageQueue

/-- `msg->next = free; free = msg`. -/
def putFree (msg : ℕ) (mq : MessageQueue) : MessageQueue :=
  { mq with
    next := update mq.next msg mq.msgQueueFree
    msgQueueFree := some msg }

/-- The assignments of `rt_mq_init` and `rt_mq_create` to the lists, for the sizes that they
have computed and a pool with some contents. -/
def initLists (next : ℕ → Option ℕ) (body : ℕ → ℕ → UInt8) (msgSize maxMsgs : UInt16)
    (flag : IpcFlag) : MessageQueue :=
  (List.range maxMsgs.toNat).foldl (fun mq temp => mq.putFree temp)
    ⟨next, body, msgSize, maxMsgs, 0, none, none, none, flag⟩

/-- `rt_mq_send` from its second section on: the message becomes the last one. -/
def linkTail (msg : ℕ) (mq : MessageQueue) : MessageQueue :=
  { mq with
    next := match mq.msgQueueTail with
      | some last => update mq.next last (some msg)
      | none => mq.next
    msgQueueTail := some msg
    msgQueueHead := mq.msgQueueHead.or (some msg)
    entry := mq.entry + 1 }

/-- `rt_mq_urgent` from its second section on: the message becomes the first one. -/
def linkHead (msg : ℕ) (mq : MessageQueue) : MessageQueue :=
  { mq with
    next := update mq.next msg mq.msgQueueHead
    msgQueueHead := some msg
    msgQueueTail := mq.msgQueueTail.or (some msg)
    entry := mq.entry + 1 }

/-- `rt_mq_recv` from its comment "get message from queue" on, with `msg` at the head. -/
def unlink (msg : ℕ) (mq : MessageQueue) : MessageQueue :=
  { mq with
    msgQueueHead := mq.next msg
    msgQueueTail := if mq.msgQueueTail = some msg then none else mq.msgQueueTail
    entry := mq.entry - 1 }

/-- `rt_memcpy(msg + 1, buffer, size)`. -/
def fill (msg : ℕ) (buffer : List UInt8) (mq : MessageQueue) : MessageQueue :=
  { mq with
    body := update mq.body msg fun i => buffer.getD i (mq.body msg i) }

/-- `rt_memcpy(buffer, msg + 1, size)`. -/
def read (msg : ℕ) (size : ℕ) (mq : MessageQueue) : List UInt8 := (List.range size).map (mq.body msg)

end MessageQueue

/-- `rt_mq_init`. -/
def rtMqInit (next : ℕ → Option ℕ) (body : ℕ → ℕ → UInt8) (msgSize poolSize : UInt32)
    (flag : IpcFlag) : MessageQueue :=
  let size := (rtAlign4 msgSize).toUInt16
  .initLists next body size (poolSize / (size.toUInt32 + 4)).toUInt16 flag

/-- `rt_mq_create`, when the pool can be allocated. -/
def rtMqCreate (next : ℕ → Option ℕ) (body : ℕ → ℕ → UInt8) (msgSize maxMsgs : UInt32)
    (flag : IpcFlag) : MessageQueue :=
  .initLists next body (rtAlign4 msgSize).toUInt16 maxMsgs.toUInt16 flag

/-! ### The interleavings -/

/-- Where a context is: in no call; with a node that it fills with its message, before and
after the copy; at the `rt_schedule` of the loop of `rt_mq_recv`; with a node that it copies
its message from, before and after the copy. -/
inductive MqPc
  | outside
  | filling (urgent : Bool) (msg : ℕ) (buffer : List UInt8)
  | filled (urgent : Bool) (msg : ℕ) (buffer : List UInt8)
  | waiting (size : UInt32) (timeout : Int32) (tickDelta : UInt32)
  | copying (msg : ℕ) (size : UInt32)
  | copied (msg : ℕ)

/-- The node that a context at this place has taken out of the lists. -/
def MqPc.holds : MqPc → Option ℕ
  | .filling _ msg _ => some msg
  | .filled _ msg _ => some msg
  | .copying msg _ => some msg
  | .copied msg => some msg
  | _ => none

/-- What an observer sees: a message is linked, a context takes one, the bytes are delivered
to its buffer, and a call fails. -/
inductive MqEvent (Tid : Type)
  | linked (urgent : Bool) (message : List UInt8)
  | taken (t : Tid)
  | delivered (t : Tid) (bytes : List UInt8)
  | failed (err : RtErr)
  deriving DecidableEq

/-- What can happen next. -/
inductive MqAction (Tid : Type)
  | send (t : Tid) (urgent : Bool) (buffer : List UInt8)
  | recv (t : Tid) (size : UInt32) (timeout : Int32)
  | cont (t : Tid)
  | timeout (t : Tid)
  | tick

/-- The contexts, the queue, the calls, and `rt_tick`. -/
structure MqSys (Tid : Type) where
  threads : View Tid Unit
  mq : MessageQueue
  pc : Tid → MqPc
  tick : UInt32

namespace MqSys

variable {Tid : Type} [DecidableEq Tid]

/-- The place of `t` becomes `pc`. -/
def goto (s : MqSys Tid) (t : Tid) (pc : MqPc) : MqSys Tid :=
  { s with pc := update s.pc t pc }

/-- The first section of `rt_mq_send` and of `rt_mq_urgent`. -/
def alloc (s : MqSys Tid) (t : Tid) (urgent : Bool) (buffer : List UInt8) :
    MqSys Tid × List (MqEvent Tid) :=
  match s.mq.msgQueueFree with
  | none => (s, [.failed .efull])
  | some msg =>
    (({ s with mq := { s.mq with msgQueueFree := s.mq.next msg } }).goto t
      (.filling urgent msg buffer), [])

/-- The copy of `rt_mq_send`, which makes the node the end of a list, and of
`rt_mq_urgent`. -/
def copyIn (s : MqSys Tid) (t : Tid) (urgent : Bool) (msg : ℕ) (buffer : List UInt8) : MqSys Tid :=
  let mq := if urgent then s.mq else { s.mq with next := update s.mq.next msg none }
  ({ s with mq := mq.fill msg buffer }).goto t (.filled urgent msg buffer)

/-- The second section of `rt_mq_send` and of `rt_mq_urgent`. -/
def link (s : MqSys Tid) (t : Tid) (urgent : Bool) (msg : ℕ) (buffer : List UInt8) :
    MqSys Tid × List (MqEvent Tid) :=
  (({ s with
    mq := if urgent then s.mq.linkHead msg else s.mq.linkTail msg
    threads := (s.threads.rtIpcListResume ()).getD s.threads }).goto t .outside,
    [.linked urgent buffer])

/-- `rt_mq_recv` from the test of its loop to the end of the section.  An interrupt handler
(`isr`) fails the assertion of `RT_DEBUG_IN_THREAD_CONTEXT`, and an empty list that should not
be empty is a null pointer. -/
def recvLoop (isr : Tid → Bool) (s : MqSys Tid) (t : Tid) (size : UInt32) (timeout : Int32) :
    Option (MqSys Tid × List (MqEvent Tid)) :=
  if s.mq.entry = 0 then
    if isr t then none
    else if timeout = 0 then
      some (({ s with threads := s.threads.setError t .etimeout }).goto t .outside,
        [.failed .etimeout])
    else
      some (({ s with
        threads := (s.threads.setError t .eok).rtIpcListSuspend () t s.mq.flag }).goto t
        (.waiting size timeout s.tick), [])
  else
    s.mq.msgQueueHead.map fun msg =>
      (({ s with mq := s.mq.unlink msg }).goto t (.copying msg size), [.taken t])

/-- The next part of the call of `t`. -/
def cont (isr : Tid → Bool) (s : MqSys Tid) (t : Tid) :
    MqPc → Option (MqSys Tid × List (MqEvent Tid))
  | .outside => none
  | .filling urgent msg buffer => some (s.copyIn t urgent msg buffer, [])
  | .filled urgent msg buffer => some (s.link t urgent msg buffer)
  | .waiting size timeout tickDelta =>
    if s.threads.error t ≠ .eok then some (s.goto t .outside, [.failed (s.threads.error t)])
    else s.recvLoop isr t size (remaining timeout tickDelta s.tick)
  | .copying msg size =>
    some (s.goto t (.copied msg),
      [.delivered t (s.mq.read msg (if size > s.mq.msgSize.toUInt32 then s.mq.msgSize.toNat
        else size.toNat))])
  | .copied msg => some (({ s with mq := s.mq.putFree msg }).goto t .outside, [])

/-- A context at this place has started its timer. -/
def hasTimer : MqPc → Bool
  | .waiting _ timeout _ => timeout > 0
  | _ => false

/-- A context can make a call when it can run and is in no other call. -/
def canCall (s : MqSys Tid) (t : Tid) : Bool :=
  s.threads.life t = .live && match s.pc t with
    | .outside => true
    | _ => false

/-- One step of an interleaving. -/
def step (isr : Tid → Bool) (s : MqSys Tid) :
    MqAction Tid → Option (MqSys Tid × List (MqEvent Tid))
  | .send t urgent buffer =>
    if s.canCall t ∧ buffer ≠ [] then
      if buffer.length > s.mq.msgSize.toNat then some (s, [.failed .error])
      else some (s.alloc t urgent buffer)
    else none
  | .recv t size timeout =>
    if s.canCall t ∧ size ≠ 0 then
      if s.mq.entry = 0 ∧ timeout = 0 then some (s, [.failed .etimeout])
      else s.recvLoop isr t size timeout
    else none
  | .cont t => if s.threads.life t = .live then s.cont isr t (s.pc t) else none
  | .timeout t =>
    if hasTimer (s.pc t) then (s.threads.rtThreadTimeout t).map fun v => ({ s with threads := v }, [])
    else none
  | .tick => some ({ s with tick := s.tick + 1 }, [])

/-- A new message queue. -/
def boot (prio : Tid → ℕ) (mq : MessageQueue) : MqSys Tid where
  threads := .idle prio
  mq := mq
  pc := fun _ => .outside
  tick := 0

end MqSys

end RtThread
