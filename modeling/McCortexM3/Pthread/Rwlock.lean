import McCortexM3.Pthread.Calls

/-!
# Read-write locks

`pthread_rwlock.c` by steps: what a thread reads and writes of the lock between two calls is split
wherever another thread could see a difference, so that only the mutex keeps the threads apart.  A
lock with `PTHREAD_RWLOCK_INITIALIZER` is initialised by the first functions that find `attr` to be
-1.

The lists of the threads that hold the lock are no part of the code; they say what `rw_refcount`
should be.

## Main definitions

* `RwOp`, `RwPc`, `RwSys` — the functions, the places of the threads, and the state.
* `RwSys.HolderUnlocks` — a thread unlocks only what it holds.
-/

set_option linter.all false

namespace RtThread

/-- The functions. -/
inductive RwOp
  | rdlock
  | tryrdlock
  | timedrdlock
  | wrlock
  | trywrlock
  | timedwrlock
  | unlock
  deriving DecidableEq

/-- `rw_condreaders` and `rw_condwriters`. -/
inductive RwCond
  | readers
  | writers
  deriving DecidableEq

/-- What the functions return: 0, `EINVAL`, `EBUSY`, `EDEADLK` and `ETIMEDOUT`. -/
inductive RwResult
  | ok
  | einval
  | ebusy
  | edeadlk
  | etimedout
  deriving DecidableEq

/-- The functions that lock for writing. -/
def RwOp.isWrite : RwOp → Bool
  | .wrlock | .trywrlock | .timedwrlock => true
  | _ => false

/-- The functions with a time. -/
def RwOp.isTimed : RwOp → Bool
  | .timedrdlock | .timedwrlock => true
  | _ => false

/-- The condition variable that a function waits for. -/
def RwOp.cond (op : RwOp) : RwCond := if op.isWrite = true then .writers else .readers

/-- What `pthread_cond_wait` and `pthread_cond_timedwait` return. -/
def RwOp.waitResult (op : RwOp) (err : RtErr) : RwResult :=
  if err = .eok then .ok else if op.isTimed = true ∧ err = .etimeout then .etimedout else .einval

/-- Where a thread is: before the test of `attr`, in `pthread_rwlock_init`, before and after the
`rt_mutex_take` of `pthread_mutex_lock`; with the mutex: before the test of the counters, before
`rw_nwait...++`, before the `pthread_mutex_unlock` of its wait; without the mutex: before and after
`rt_sem_take`, before and after the `rt_mutex_take` that follows; and with the mutex again: before
`rw_nwait...--`, before the change of `rw_refcount`, between the change and the test in
`pthread_rwlock_unlock`, before a signal or a broadcast, and before the last
`pthread_mutex_unlock`. -/
inductive RwPc
  | outside
  | entering (op : RwOp)
  | initing (op : RwOp)
  | locking (op : RwOp)
  | locked (op : RwOp)
  | testing (op : RwOp)
  | counting (op : RwOp)
  | calling (op : RwOp)
  | unlocked (op : RwOp)
  | taking (op : RwOp)
  | relocking (op : RwOp) (err : RtErr)
  | relocked (op : RwOp) (err : RtErr)
  | waited (op : RwOp) (err : RtErr)
  | acquiring (op : RwOp)
  | deciding
  | waking (σ : RwCond) (all : Bool)
  | leaving (op : RwOp) (result : RwResult)
  deriving DecidableEq

/-- What an observer sees: a thread gets the lock (and `rw_nwaitwriters` at that moment), gives it
up, and a function returns. -/
inductive RwEvent (Tid : Type)
  | acquired (t : Tid) (write : Bool) (nwaitwriters : ℤ)
  | released (t : Tid)
  | returned (t : Tid) (op : RwOp) (result : RwResult)
  deriving DecidableEq

/-- What can happen next: a thread calls a function, a thread goes on (`expired` says whether the
time of its wait has passed already), and a wait for a semaphore ends with an error. -/
inductive RwAction (Tid : Type)
  | call (t : Tid) (op : RwOp)
  | go (t : Tid) (expired : Bool)
  | wake (t : Tid) (err : RtErr)

/-- A `pthread_rwlock_t` with its mutex and semaphores, and the threads.  `rw_nwaitreaders` and
`rw_nwaitwriters` count threads, of which there are far fewer than `2 ^ 31`. -/
structure RwSys (Tid : Type) where
  initialised : Bool
  ipc : WaitSys Tid Unit RwCond
  nwaitreaders : ℤ
  nwaitwriters : ℤ
  refcount : BitVec 32
  pc : Tid → RwPc
  readHolders : List Tid
  writeHolders : List Tid

namespace RwSys

variable {Tid : Type} [DecidableEq Tid]

/-- The place of the thread becomes `pc`. -/
def goto (s : RwSys Tid) (t : Tid) (pc : RwPc) : RwSys Tid :=
  { s with pc := Function.update s.pc t pc }

/-- The mutex and the semaphores of an initialised lock. -/
def initObjects (a : WaitSys Tid Unit RwCond) : WaitSys Tid Unit RwCond :=
  { a with
    queue := fun _ => []
    mutex := fun _ => rtMutexInit .fifo
    sem := fun _ => rtSemInit 0 .fifo }

/-- `pthread_rwlock_init`. -/
def init (s : RwSys Tid) : RwSys Tid :=
  { s with
    initialised := true
    ipc := initObjects s.ipc
    nwaitreaders := 0
    nwaitwriters := 0
    refcount := 0 }

/-- `rw_refcount < 0 || rw_nwaitwriters > 0`. -/
def readersWait (s : RwSys Tid) : Prop := s.refcount.slt 0 = true ∨ s.nwaitwriters > 0

instance (s : RwSys Tid) : Decidable s.readersWait := inferInstanceAs (Decidable (_ ∨ _))

/-- `rw_refcount` after the change in `pthread_rwlock_unlock`. -/
def releasedCount (refcount : BitVec 32) : BitVec 32 :=
  if (0 : BitVec 32).slt refcount = true then refcount - 1
  else if refcount = -1 then 0
  else refcount

/-- The change in `pthread_rwlock_unlock`. -/
def release (s : RwSys Tid) (t : Tid) : RwSys Tid :=
  { s with
    refcount := releasedCount s.refcount
    readHolders := if t ∈ s.writeHolders then s.readHolders else s.readHolders.erase t
    writeHolders := s.writeHolders.erase t }

/-- The test of the counters, or what `pthread_rwlock_unlock` begins with. -/
def test (s : RwSys Tid) (t : Tid) (op : RwOp) : RwSys Tid × List (RwEvent Tid) :=
  match op with
  | .rdlock | .timedrdlock => (s.goto t (if s.readersWait then .counting op else .acquiring op), [])
  | .tryrdlock => (s.goto t (if s.readersWait then .leaving op .ebusy else .acquiring op), [])
  | .wrlock | .timedwrlock =>
    (s.goto t (if s.refcount ≠ 0 then .counting op else .acquiring op), [])
  | .trywrlock => (s.goto t (if s.refcount ≠ 0 then .leaving op .ebusy else .acquiring op), [])
  | .unlock => ((s.release t).goto t .deciding, [.released t])

/-- `rw_nwaitwriters` or `rw_nwaitreaders` becomes `d` more. -/
def addWaits (s : RwSys Tid) (op : RwOp) (d : ℤ) : RwSys Tid :=
  { s with
    nwaitwriters := if op.isWrite = true then s.nwaitwriters + d else s.nwaitwriters
    nwaitreaders := if op.isWrite = true then s.nwaitreaders else s.nwaitreaders + d }

/-- `_pthread_cond_timedwait` up to `pthread_mutex_unlock`. -/
def wait (s : RwSys Tid) (t : Tid) (op : RwOp) : Option (RwSys Tid) :=
  if (s.ipc.mutex ()).owner ≠ some t then some (s.goto t (.waited op .error))
  else (s.ipc.pthreadMutexUnlock .normal t ()).map fun r =>
    { s with ipc := r.1 }.goto t (if r.2 = true then .unlocked op else .waited op .error)

/-- `rt_sem_take` of a wait. -/
def semTake (s : RwSys Tid) (t : Tid) (op : RwOp) (expired : Bool) : Option (RwSys Tid) :=
  let waits := !(op.isTimed && expired)
  (s.ipc.step (WaitOp.semTake (some t) op.cond waits)).map fun r =>
    { s with ipc := r.1 }.goto t
      (if r.2 = [IpcEvent.semTake op.cond .etimeout] then .relocking op .etimeout else .taking op)

/-- `rw_refcount++` or `rw_refcount = -1`. -/
def acquire (s : RwSys Tid) (t : Tid) (op : RwOp) : RwSys Tid :=
  { s with
    refcount := if op.isWrite = true then -1 else s.refcount + 1
    readHolders := if op.isWrite = true then s.readHolders else t :: s.readHolders
    writeHolders := if op.isWrite = true then t :: s.writeHolders else s.writeHolders }

/-- The tests of `pthread_rwlock_unlock` after its change. -/
def decision (s : RwSys Tid) : RwPc :=
  if s.nwaitwriters > 0 then
    if s.refcount = 0 then .waking .writers false else .leaving .unlock .ok
  else if s.nwaitreaders > 0 then .waking .readers true
  else .leaving .unlock .ok

/-- `pthread_cond_broadcast` or `pthread_cond_signal`. -/
def wakeUp (s : RwSys Tid) (σ : RwCond) (all : Bool) : Option (WaitSys Tid Unit RwCond) :=
  if all = true then s.ipc.pthreadCondBroadcast σ else s.ipc.pthreadCondSignal σ

/-- A thread goes on. -/
def go (s : RwSys Tid) (t : Tid) (expired : Bool) :
    RwPc → Option (RwSys Tid × List (RwEvent Tid))
  | .outside => none
  | .entering op =>
    some (s.goto t (if s.initialised = true then .locking op else .initing op), [])
  | .initing op => some (s.init.goto t (.locking op), [])
  | .locking op => (s.ipc.pthreadMutexLock .normal t ()).map fun r =>
    match r with
    | none => (s.goto t .outside, [.returned t op .edeadlk])
    | some ipc => ({ s with ipc }.goto t (.locked op), [])
  | .locked op => (s.ipc.resume t).map fun r =>
    if r.2 = .eok then ({ s with ipc := r.1 }.goto t (.testing op), [])
    else ({ s with ipc := r.1 }.goto t .outside, [.returned t op .einval])
  | .testing op => some (s.test t op)
  | .counting op => some ((s.addWaits op 1).goto t (.calling op), [])
  | .calling op => (s.wait t op).map fun s => (s, [])
  | .unlocked op => (s.semTake t op expired).map fun s => (s, [])
  | .taking op => (s.ipc.resume t).map fun r =>
    ({ s with ipc := r.1 }.goto t (.relocking op r.2), [])
  | .relocking op err => (s.ipc.pthreadMutexLock .normal t ()).map fun r =>
    match r with
    | none => (s.goto t (.waited op err), [])
    | some ipc => ({ s with ipc }.goto t (.relocked op err), [])
  | .relocked op err => (s.ipc.resume t).map fun r =>
    ({ s with ipc := r.1 }.goto t (.waited op err), [])
  | .waited op err =>
    some ((s.addWaits op (-1)).goto t
      (if err = .eok then .testing op else .leaving op (op.waitResult err)), [])
  | .acquiring op =>
    some ((s.acquire t op).goto t (.leaving op .ok), [.acquired t op.isWrite s.nwaitwriters])
  | .deciding => some (s.goto t s.decision, [])
  | .waking σ all => (s.wakeUp σ all).map fun ipc =>
    ({ s with ipc }.goto t (.leaving .unlock .ok), [])
  | .leaving op result => (s.ipc.pthreadMutexUnlock .normal t ()).map fun r =>
    ({ s with ipc := r.1 }.goto t .outside, [.returned t op result])

/-- Whether the wait of a thread can end with an error: a time passes, or a signal interrupts. -/
def CanEnd (pc : RwPc) (err : RtErr) : Prop :=
  match pc with
  | .taking op => err = .eintr ∨ err = .etimeout ∧ op.isTimed = true
  | _ => False

instance (pc : RwPc) (err : RtErr) : Decidable (CanEnd pc err) := by
  cases pc <;> dsimp only [CanEnd] <;> infer_instance

/-- One step of an interleaving. -/
def step (s : RwSys Tid) : RwAction Tid → Option (RwSys Tid × List (RwEvent Tid))
  | .call t op => if s.pc t = .outside then some (s.goto t (.entering op), []) else none
  | .go t expired => s.go t expired (s.pc t)
  | .wake t err =>
    if CanEnd (s.pc t) err then (s.ipc.next (.wake t err)).map fun ipc => ({ s with ipc }, [])
    else none

/-- A lock that `pthread_rwlock_init` has initialised, or one with `PTHREAD_RWLOCK_INITIALIZER`,
whose other fields nothing reads. -/
def boot (initialised : Bool) : RwSys Tid where
  initialised := initialised
  ipc := initObjects ⟨fun _ => .outside, fun _ => 0, fun _ => [], fun _ => rtMutexInit .fifo,
    fun _ => rtSemInit 0 .fifo⟩
  nwaitreaders := 0
  nwaitwriters := 0
  refcount := 0
  pc := fun _ => .outside
  readHolders := []
  writeHolders := []

/-- A thread unlocks only what it holds. -/
def HolderUnlocks (s : RwSys Tid) : RwAction Tid → Prop
  | .call t op => op = .unlock → t ∈ s.readHolders ∨ t ∈ s.writeHolders
  | _ => True

/-- No thread calls a function while another one initialises the lock. -/
def InitAlone (s : RwSys Tid) : RwAction Tid → Prop
  | .call _ _ => s.initialised = true ∨ ∀ u, s.pc u = .outside
  | _ => True

end RwSys

end RtThread
