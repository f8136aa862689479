import McCortexM3.Kernel.Bitmap

/-!
# Threads and the scheduler

The kernel state behind `thread.c` and `scheduler.c` of a uniprocessor build without
signals: the thread objects, the lists their `tlist` nodes can be in, the ready bitmap and
the scheduler's globals.  A `tlist` node is linked into a list by appending its thread
there, and `rt_list_remove` takes the thread out of whatever list it is in.

Each function below is a stretch of its source that runs with interrupts disabled, or a
whole function where every caller disables them.  `none` stands for a failed `RT_ASSERT`
or the use of a null pointer.

## Main definitions

* `Thread`, `Kernel` — the state.
* `rtScheduleInsertThread`, `rtScheduleRemoveThread`, `rtSchedule` — `scheduler.c`.
* `rtThreadSuspend`, `rtThreadResume`, `rtThreadControl`, … — `thread.c`.
-/

set_option linter.all false

namespace RtThread

/-- The configuration of the build: `RT_THREAD_PRIORITY_MAX`.  A priority is an
`rt_uint8_t`. -/
class RtConfig where
  priorityMax : ℕ
  priorityMax_le : priorityMax ≤ 256

export RtConfig (priorityMax priorityMax_le)

/-- A build with 32 priorities. -/
@[reducible] def config32 : RtConfig := ⟨32, by decide⟩

/-- `RT_THREAD_INIT`, `RT_THREAD_READY`, `RT_THREAD_SUSPEND`, `RT_THREAD_RUNNING` and
`RT_THREAD_CLOSE`. -/
inductive Stat
  | init
  | ready
  | suspend
  | running
  | close
  deriving DecidableEq, Repr

/-- The error codes that a thread or a call can carry. -/
inductive RtErr
  | eok
  | error
  | etimeout
  | efull
  | eintr
  deriving DecidableEq, Repr

/-- The fields of `struct rt_thread` that the scheduler and the IPC objects use.  The
built-in timer is active or not. -/
structure Thread where
  stat : Stat
  error : RtErr
  initPriority : ℕ
  currentPriority : ℕ
  mask : PrioMask
  timerActive : Bool
  isSystemObject : Bool
  cleanup : Bool

/-- The lists that a `tlist` node can be linked into: the ready queue of a priority, the
suspend list of an object, and `rt_thread_defunct`. -/
inductive ListHead (ι : Type)
  | ready (p : ℕ)
  | suspended (o : ι)
  | defunct
  deriving DecidableEq

/-- The kernel state. -/
structure Kernel (Tid ι : Type) where
  thread : Tid → Thread
  list : ListHead ι → List Tid
  readyPriority : ReadyBitmap
  currentThread : Option Tid
  currentPriority : ℕ
  schedulerLockNest : Int16

namespace Kernel

variable [RtConfig] {Tid ι : Type} [DecidableEq Tid] [DecidableEq ι]

/-! ### Fields and lists -/

/-- The thread object of `t` rewritten by `f`. -/
def modifyThread (t : Tid) (f : Thread → Thread) (k : Kernel Tid ι) : Kernel Tid ι :=
  { k with thread := Function.update k.thread t (f (k.thread t)) }

/-- `thread->stat = stat`. -/
def setStat (t : Tid) (stat : Stat) (k : Kernel Tid ι) : Kernel Tid ι :=
  k.modifyThread t fun th => { th with stat := stat }

/-- `thread->error = error`. -/
def setError (t : Tid) (err : RtErr) (k : Kernel Tid ι) : Kernel Tid ι :=
  k.modifyThread t fun th => { th with error := err }

/-- `rt_timer_start` and `rt_timer_stop` of the built-in timer. -/
def setTimer (t : Tid) (active : Bool) (k : Kernel Tid ι) : Kernel Tid ι :=
  k.modifyThread t fun th => { th with timerActive := active }

/-- `thread->current_priority = p`, with the masks computed from it. -/
def setPriority (t : Tid) (p : ℕ) (k : Kernel Tid ι) : Kernel Tid ι :=
  k.modifyThread t fun th => { th with currentPriority := p, mask := prioMask priorityMax p }

/-- `rt_list_remove(&thread->tlist)`. -/
def rtListRemove (t : Tid) (k : Kernel Tid ι) : Kernel Tid ι :=
  { k with list := fun h => (k.list h).filter (· ≠ t) }

/-- `rt_list_insert_before(&head, &thread->tlist)`: the last place of the list. -/
def rtListInsertBefore (h : ListHead ι) (t : Tid) (k : Kernel Tid ι) : Kernel Tid ι :=
  { k with list := Function.update k.list h (k.list h ++ [t]) }

/-- `rt_list_insert_after(&head, &thread->tlist)`: the first place of the list. -/
def rtListInsertAfter (h : ListHead ι) (t : Tid) (k : Kernel Tid ι) : Kernel Tid ι :=
  { k with list := Function.update k.list h (t :: k.list h) }

/-! ### `scheduler.c` -/

/-- `rt_schedule_insert_thread`. -/
def rtScheduleInsertThread (t : Tid) (k : Kernel Tid ι) : Kernel Tid ι :=
  if k.currentThread = some t then k.setStat t .running
  else
    let k := k.setStat t .ready
    let k := k.rtListInsertBefore (.ready (k.thread t).currentPriority) t
    { k with readyPriority := k.readyPriority.insertMask priorityMax (k.thread t).mask }

/-- `rt_schedule_remove_thread`. -/
def rtScheduleRemoveThread (t : Tid) (k : Kernel Tid ι) : Kernel Tid ι :=
  let k := k.rtListRemove t
  if k.list (.ready (k.thread t).currentPriority) = [] then
    { k with readyPriority := k.readyPriority.removeMask priorityMax (k.thread t).mask }
  else k

/-- `_get_highest_priority_thread`: the head of the queue of the highest ready priority. -/
def getHighestPriorityThread (k : Kernel Tid ι) : Option Tid × ℕ :=
  let p := k.readyPriority.highestPriority priorityMax
  ((k.list (.ready p)).head?, p)

/-- The switch of `rt_schedule` from one thread to another. -/
def switchTo (fromThread toThread : Tid) (highest : ℕ) (needInsertFromThread : Bool)
    (k : Kernel Tid ι) : Kernel Tid ι :=
  let k := { k with currentPriority := highest, currentThread := some toThread }
  let k := if needInsertFromThread then k.rtScheduleInsertThread fromThread else k
  (k.rtScheduleRemoveThread toThread).setStat toThread .running

/-- `rt_schedule`. -/
def rtSchedule (k : Kernel Tid ι) : Option (Kernel Tid ι) :=
  if k.schedulerLockNest = 0 then
    if k.readyPriority.group ≠ 0 then
      match k.currentThread, k.getHighestPriorityThread with
      | some cur, (some toThread, highest) =>
        if (k.thread cur).stat = .running ∧ (k.thread cur).currentPriority < highest then
          some ((k.rtScheduleRemoveThread cur).setStat cur .running)
        else if toThread ≠ cur then
          some (k.switchTo cur toThread highest (decide ((k.thread cur).stat = .running)))
        else some ((k.rtScheduleRemoveThread cur).setStat cur .running)
      | _, _ => none
    else some k
  else some k

/-- `rt_system_scheduler_start`. -/
def rtSystemSchedulerStart (k : Kernel Tid ι) : Option (Kernel Tid ι) :=
  match k.getHighestPriorityThread with
  | (some toThread, _) =>
    let k := { k with currentThread := some toThread }
    some ((k.rtScheduleRemoveThread toThread).setStat toThread .running)
  | (none, _) => none

/-- `rt_enter_critical`. -/
def rtEnterCritical (k : Kernel Tid ι) : Kernel Tid ι :=
  { k with schedulerLockNest := k.schedulerLockNest + 1 }

/-- `rt_exit_critical` up to its call of `rt_schedule`, and whether it makes the call. -/
def rtExitCritical (k : Kernel Tid ι) : Kernel Tid ι × Bool :=
  let nest := k.schedulerLockNest - 1
  if nest ≤ 0 then ({ k with schedulerLockNest := 0 }, k.currentThread.isSome)
  else ({ k with schedulerLockNest := nest }, false)

/-! ### `thread.c` -/

/-- The thread object that `rt_thread_init` or `rt_thread_create` leaves; `cleanup` is
what the user set since. -/
def rtThreadInit (priority : ℕ) (isSystemObject cleanup : Bool) : Thread where
  stat := .init
  error := .eok
  initPriority := priority
  currentPriority := priority
  mask := ⟨0, 0, 0⟩
  timerActive := false
  isSystemObject := isSystemObject
  cleanup := cleanup

/-- The kernel after `rt_system_scheduler_init`, with the given thread objects. -/
def rtSystemSchedulerInit (thread : Tid → Thread) : Kernel Tid ι where
  thread := thread
  list := fun _ => []
  readyPriority := .empty
  currentThread := none
  currentPriority := 0
  schedulerLockNest := 0

/-- `rt_thread_startup` after its assertion: the priority and its masks are initialised and
the thread is marked suspended, to be resumed. -/
def startupWrite (t : Tid) (k : Kernel Tid ι) : Kernel Tid ι :=
  (k.setPriority t (k.thread t).initPriority).setStat t .suspend

/-- The interrupt-disabled section of `rt_thread_suspend`, entered with the status `stat`
read before it. -/
def suspendSection (t : Tid) (stat : Stat) (k : Kernel Tid ι) : Option (Kernel Tid ι) :=
  if stat = .running ∧ k.currentThread ≠ some t then none
  else some (((k.rtScheduleRemoveThread t).setStat t .suspend).setTimer t false)

/-- `rt_thread_suspend` called with interrupts disabled. -/
def rtThreadSuspend (t : Tid) (k : Kernel Tid ι) : Option (Kernel Tid ι × RtErr) :=
  if (k.thread t).stat ≠ .ready ∧ (k.thread t).stat ≠ .running then some (k, .error)
  else (k.suspendSection t (k.thread t).stat).map fun k => (k, .eok)

/-- The interrupt-disabled section of `rt_thread_resume`. -/
def resumeSection (t : Tid) (k : Kernel Tid ι) : Kernel Tid ι :=
  (k.rtListRemove t).setTimer t false

/-- `rt_thread_resume` called with interrupts disabled. -/
def rtThreadResume (t : Tid) (k : Kernel Tid ι) : Kernel Tid ι × RtErr :=
  if (k.thread t).stat ≠ .suspend then (k, .error)
  else ((k.resumeSection t).rtScheduleInsertThread t, .eok)

/-- `rt_thread_control` with `RT_THREAD_CTRL_CHANGE_PRIORITY`. -/
def rtThreadControl (t : Tid) (p : ℕ) (k : Kernel Tid ι) : Kernel Tid ι :=
  if (k.thread t).stat = .ready then
    ((k.rtScheduleRemoveThread t).setPriority t p).rtScheduleInsertThread t
  else k.setPriority t p

/-- The interrupt-disabled section of `rt_thread_exit`. -/
def exitSection (t : Tid) (k : Kernel Tid ι) : Kernel Tid ι :=
  let k := ((k.rtScheduleRemoveThread t).setStat t .close).setTimer t false
  if (k.thread t).isSystemObject && !(k.thread t).cleanup then k
  else k.rtListInsertAfter .defunct t

/-- The interrupt-disabled section of `rt_thread_sleep`. -/
def sleepSection (t : Tid) (k : Kernel Tid ι) : Option (Kernel Tid ι) :=
  (k.rtThreadSuspend t).map fun r => r.1.setTimer t true

/-- `rt_thread_timeout` up to its call of `rt_schedule`.  The timer has been taken from
the timer list. -/
def timeoutSection (t : Tid) (k : Kernel Tid ι) : Option (Kernel Tid ι) :=
  if (k.thread t).stat = .suspend then
    some ((((k.setTimer t false).setError t .etimeout).rtListRemove t).rtScheduleInsertThread t)
  else none

/-- The tail of `rt_thread_sleep`. -/
def clearTimeout (t : Tid) (k : Kernel Tid ι) : Kernel Tid ι :=
  if (k.thread t).error = .etimeout then k.setError t .eok else k

end Kernel

end RtThread
