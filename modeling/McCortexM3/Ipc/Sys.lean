import McCortexM3.Ipc.Object

/-!
# Threads and interrupt handlers that share semaphores and mutexes

A call of a function of `ipc.c` checks its object, runs an interrupt-disabled section, and,
when the section has suspended its thread, calls `rt_schedule` and reads the thread's error
code when it runs again.  Interrupts and other threads come between any two of these
parts.  Each thread is at one place of at most one call; the thread that goes on with its
call is the current one.  An interrupt handler runs a whole function.

The scheduler is never locked and the kernel has its idle thread, which calls none of
these functions, so that there is a thread to run when another one waits.

## Main definitions

* `IpcCall`, `Pc` — the calls, and where a thread is in its call.
* `IpcSys`, `IpcAction`, `IpcEvent` — the state, its inputs, and what an observer sees.
-/

set_option linter.all false

namespace RtThread

open Function (update)

/-- The calls of a thread.  `M` names the mutexes and `S` the semaphores.  A call of
`rt_sem_trytake` is `rt_sem_take` with no time to wait.  `delete` stands for
`rt_mutex_detach`, `rt_mutex_delete`, `rt_sem_detach` and `rt_sem_delete`, which differ in
what becomes of the object's memory. -/
inductive IpcCall (M S : Type)
  | mutexTake (m : M) (time : ℤ)
  | mutexRelease (m : M)
  | semTake (s : S) (time : ℤ)
  | semRelease (s : S)
  | semControl (s : S) (value : UInt32)
  | delete (o : M ⊕ S)

/-- The object of a call. -/
def IpcCall.object {M S : Type} : IpcCall M S → M ⊕ S
  | .mutexTake m _ => .inl m
  | .mutexRelease m => .inl m
  | .semTake s _ => .inr s
  | .semRelease s => .inr s
  | .semControl s _ => .inr s
  | .delete o => o

/-- Where a thread is: in no call; before the section of its call, for a deletion at the
test of the loop; before or in the `rt_schedule` of a take that has suspended it; in the
loop of a deletion; before the `rt_schedule` at the end of a call. -/
inductive Pc (M S : Type)
  | outside
  | entered (c : IpcCall M S)
  | schedule (o : M ⊕ S) (time : ℤ)
  | wait (o : M ⊕ S) (time : ℤ)
  | resumeNext (o : M ⊕ S)
  | tail

/-- What an observer sees: the returns of the takes and the releases with their codes, the
changes of a mutex's owner, with the priority that the new owner has, and the changes of
a priority by `rt_thread_control`. -/
inductive IpcEvent (Tid M S : Type)
  | mutexTake (t : Tid) (m : M) (err : RtErr)
  | mutexRelease (t : Tid) (m : M) (err : RtErr)
  | owns (t : Tid) (m : M) (priority : ℕ)
  | frees (t : Tid) (m : M)
  | semTake (s : S) (err : RtErr)
  | semRelease (s : S)
  | control (t : Tid) (priority : ℕ)
  deriving DecidableEq

/-- What can happen next. -/
inductive IpcAction (Tid M S : Type)
  | startup (t : Tid)
  | schedulerStart
  | schedule
  | timeout (t : Tid)
  | control (t : Tid) (priority : ℕ)
  | isrSemTake (s : S)
  | isrSemRelease (s : S)
  | call (c : IpcCall M S)
  | cont

/-- The kernel, the objects, and the calls of the threads.  An object is attached until it is
deleted. -/
structure IpcSys (Tid M S : Type) where
  kernel : Kernel Tid (M ⊕ S)
  mutex : M → Mutex Tid
  sem : S → Semaphore
  attached : M ⊕ S → Bool
  pc : Tid → Pc M S

/-- The change of the owner of `m`, as events. -/
def ownerEvents {Tid M S : Type} [DecidableEq Tid] (m : M) (prio : Tid → ℕ)
    (before after : Option Tid) : List (IpcEvent Tid M S) :=
  if before = after then []
  else before.toList.map (IpcEvent.frees · m) ++
    after.toList.map fun t => IpcEvent.owns t m (prio t)

namespace IpcSys

variable [RtConfig] {Tid M S : Type} [DecidableEq Tid] [DecidableEq M] [DecidableEq S]

/-- The priorities of the threads. -/
def prio (s : IpcSys Tid M S) (t : Tid) : ℕ := (s.kernel.thread t).currentPriority

/-- The place of `t` becomes `pc`. -/
def goto (s : IpcSys Tid M S) (t : Tid) (pc : Pc M S) : IpcSys Tid M S :=
  { s with pc := update s.pc t pc }

/-- The rest of `rt_mutex_take` after its section. -/
def afterMutexTake (s : IpcSys Tid M S) (t : Tid) (m : M) (time : ℤ)
    (r : Kernel Tid (M ⊕ S) × Mutex Tid × Option RtErr) :
    IpcSys Tid M S × List (IpcEvent Tid M S) :=
  let s' := { s with kernel := r.1, mutex := update s.mutex m r.2.1 }
  let events := ownerEvents m s.prio (s.mutex m).owner r.2.1.owner
  match r.2.2 with
  | some err => (s'.goto t .outside, events ++ [.mutexTake t m err])
  | none => (s'.goto t (.schedule (.inl m) time), events)

/-- The rest of `rt_mutex_release` after its section. -/
def afterMutexRelease (s : IpcSys Tid M S) (t : Tid) (m : M)
    (r : Kernel Tid (M ⊕ S) × Mutex Tid × RtErr × Bool) :
    IpcSys Tid M S × List (IpcEvent Tid M S) :=
  let s' := { s with kernel := r.1, mutex := update s.mutex m r.2.1 }
  (s'.goto t (if r.2.2.2 then .tail else .outside),
    ownerEvents m s.prio (s.mutex m).owner r.2.1.owner ++ [IpcEvent.mutexRelease t m r.2.2.1])

/-- The rest of `rt_sem_take` after its section. -/
def afterSemTake (s : IpcSys Tid M S) (t : Tid) (σ : S) (time : ℤ)
    (r : Kernel Tid (M ⊕ S) × Semaphore × Option RtErr) :
    IpcSys Tid M S × List (IpcEvent Tid M S) :=
  let s' := { s with kernel := r.1, sem := update s.sem σ r.2.1 }
  match r.2.2 with
  | some err => (s'.goto t .outside, [.semTake σ err])
  | none => (s'.goto t (.schedule (.inr σ) time), [])

/-- The next part of the call of the current thread `t`, which is at the given place. -/
def cont (s : IpcSys Tid M S) (t : Tid) :
    Pc M S → Option (IpcSys Tid M S × List (IpcEvent Tid M S))
  | .outside => none
  | .entered (.mutexTake m time) =>
    (s.kernel.rtMutexTake (.inl m) t time (s.mutex m)).map (s.afterMutexTake t m time)
  | .entered (.mutexRelease m) =>
    (s.kernel.rtMutexRelease (.inl m) t (s.mutex m)).map (s.afterMutexRelease t m)
  | .entered (.semTake σ time) =>
    (s.kernel.rtSemTake (.inr σ) (some t) time (s.sem σ)).map (s.afterSemTake t σ time)
  | .entered (.semRelease σ) =>
    (s.kernel.rtSemRelease (.inr σ) (s.sem σ)).map fun r =>
      (({ s with kernel := r.1, sem := update s.sem σ r.2.1 }).goto t
        (if r.2.2 then .tail else .outside), [.semRelease σ])
  | .entered (.semControl σ value) =>
    (s.kernel.rtSemControl (.inr σ) value (s.sem σ)).map fun r =>
      (({ s with kernel := r.1, sem := update s.sem σ r.2 }).goto t .tail, [])
  | .entered (.delete o) =>
    if s.kernel.list (.suspended o) = [] then
      some (({ s with attached := update s.attached o false }).goto t .outside, [])
    else some (s.goto t (.resumeNext o), [])
  | .resumeNext o =>
    (s.kernel.resumeAllSection o).map fun k =>
      (({ s with kernel := k }).goto t (.entered (.delete o)), [])
  | .schedule o time =>
    s.kernel.rtSchedule.map fun k => (({ s with kernel := k }).goto t (.wait o time), [])
  | .wait (.inl m) time =>
    match (s.kernel.thread t).error with
    | .eintr =>
      (s.kernel.rtMutexTakeAgain (.inl m) t time (s.mutex m)).map (s.afterMutexTake t m time)
    | err => some (s.goto t .outside, [.mutexTake t m err])
  | .wait (.inr σ) _ =>
    some (s.goto t .outside, [.semTake σ (s.kernel.thread t).error])
  | .tail => s.kernel.rtSchedule.map fun k => (({ s with kernel := k }).goto t .outside, [])

/-- One step of an interleaving. -/
def step (idle : Tid) (s : IpcSys Tid M S) :
    IpcAction Tid M S → Option (IpcSys Tid M S × List (IpcEvent Tid M S))
  | .startup t =>
    if (s.kernel.thread t).stat = .init then
      some ({ s with kernel := ((s.kernel.startupWrite t).rtThreadResume t).1 }, [])
    else none
  | .schedulerStart =>
    if s.kernel.currentThread = none then
      s.kernel.rtSystemSchedulerStart.map fun k => ({ s with kernel := k }, [])
    else none
  | .schedule => s.kernel.rtSchedule.map fun k => ({ s with kernel := k }, [])
  | .timeout t =>
    if (s.kernel.thread t).timerActive then
      (s.kernel.timeoutSection t).bind fun k =>
        k.rtSchedule.map fun k => ({ s with kernel := k }, [])
    else none
  | .control t p =>
    if p < priorityMax then
      some ({ s with kernel := s.kernel.rtThreadControl t p }, [.control t p])
    else none
  | .isrSemTake σ =>
    if s.attached (.inr σ) then
      (s.kernel.rtSemTake (.inr σ) none 0 (s.sem σ)).map fun r =>
        ({ s with kernel := r.1, sem := update s.sem σ r.2.1 }, r.2.2.toList.map (.semTake σ))
    else none
  | .isrSemRelease σ =>
    if s.attached (.inr σ) then
      (s.kernel.rtSemRelease (.inr σ) (s.sem σ)).map fun r =>
        ({ s with kernel := r.1, sem := update s.sem σ r.2.1 }, [.semRelease σ])
    else none
  | .call c =>
    match s.kernel.currentThread with
    | some t =>
      match s.pc t with
      | .outside =>
        if t ≠ idle ∧ s.attached c.object then some (s.goto t (.entered c), []) else none
      | _ => none
    | none => none
  | .cont => s.kernel.currentThread.bind fun t => s.cont t (s.pc t)

/-- The system after the objects and the threads have been initialised and the idle thread
has been started.  Nothing here reads the last two fields of a thread. -/
def boot (idle : Tid) (prio : Tid → ℕ) (mutexFlag : M → IpcFlag) (semValue : S → UInt32)
    (semFlag : S → IpcFlag) : IpcSys Tid M S where
  kernel := (((Kernel.rtSystemSchedulerInit fun t => Kernel.rtThreadInit (prio t) true false :
    Kernel Tid (M ⊕ S)).startupWrite idle).rtThreadResume idle).1
  mutex := fun m => rtMutexInit (mutexFlag m)
  sem := fun σ => rtSemInit (semValue σ) (semFlag σ)
  attached := fun _ => true
  pc := fun _ => .outside

end IpcSys

end RtThread
