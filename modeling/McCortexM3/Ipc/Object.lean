import McCortexM3.Kernel.Thread

/-!
# Semaphores and mutexes

The objects of `ipc.c` and the interrupt-disabled sections of its functions.  Each section
takes the object and the kernel, and returns them with what the function does next: it
returns an error code, or it has suspended its thread and calls `rt_schedule`.  `none`
stands for a failed `RT_ASSERT` or the use of a null pointer.

The suspend list of an object is `ListHead.suspended` of the object's name.

## Main definitions

* `Semaphore`, `Mutex` — the objects.
* `rtSemTake`, `rtSemRelease`, `rtSemControl` — semaphores.
* `rtMutexTake`, `rtMutexRelease` — mutexes.
-/

set_option linter.all false

namespace RtThread

/-- `RT_IPC_FLAG_FIFO` and `RT_IPC_FLAG_PRIO`. -/
inductive IpcFlag
  | fifo
  | prio
  deriving DecidableEq, Repr

/-- `struct rt_semaphore`; `value` is an `rt_uint16_t`. -/
structure Semaphore where
  value : UInt16
  flag : IpcFlag

/-- `struct rt_mutex`; `value` is an `rt_uint16_t` and `hold` an `rt_uint8_t`. -/
structure Mutex (Tid : Type) where
  value : UInt16
  originalPriority : ℕ
  hold : UInt8
  owner : Option Tid
  flag : IpcFlag

/-- `rt_sem_init` and `rt_sem_create`: the initial value is an `rt_uint32_t`. -/
def rtSemInit (value : UInt32) (flag : IpcFlag) : Semaphore := ⟨value.toUInt16, flag⟩

/-- `rt_mutex_init` and `rt_mutex_create`. -/
def rtMutexInit {Tid : Type} (flag : IpcFlag) : Mutex Tid := ⟨1, 0xFF, 0, none, flag⟩

/-- The place of a thread in a suspend list: the last one, or before the first thread of a
lower priority. -/
def ipcListInsert {Tid : Type} (flag : IpcFlag) (prio : Tid → ℕ) (t : Tid) :
    List Tid → List Tid
  | [] => [t]
  | s :: l =>
    match flag with
    | .fifo => s :: ipcListInsert flag prio t l
    | .prio => if prio t < prio s then t :: s :: l else s :: ipcListInsert flag prio t l

theorem mem_ipcListInsert {Tid : Type} {flag : IpcFlag} {prio : Tid → ℕ} {t u : Tid}
    {l : List Tid} : u ∈ ipcListInsert flag prio t l ↔ u = t ∨ u ∈ l := by
  induction l with
  | nil => simp [ipcListInsert]
  | cons s l ih =>
    cases flag with
    | fifo =>
      simp only [ipcListInsert, List.mem_cons, ih]
      grind
    | prio =>
      simp only [ipcListInsert]
      split <;> simp only [List.mem_cons, ih]
      grind

namespace Kernel

variable [RtConfig] {Tid ι : Type} [DecidableEq Tid] [DecidableEq ι]

/-! ### Suspend lists -/

/-- `rt_ipc_list_suspend`. -/
def rtIpcListSuspend (o : ι) (t : Tid) (flag : IpcFlag) (k : Kernel Tid ι) :
    Option (Kernel Tid ι) :=
  (k.rtThreadSuspend t).map fun r =>
    { r.1 with
      list := Function.update r.1.list (.suspended o)
        (ipcListInsert flag (fun u => (r.1.thread u).currentPriority) t
          (r.1.list (.suspended o))) }

/-- `rt_ipc_list_resume`. -/
def rtIpcListResume (o : ι) (k : Kernel Tid ι) : Option (Kernel Tid ι) :=
  match k.list (.suspended o) with
  | t :: _ => some (k.rtThreadResume t).1
  | [] => none

/-- The body of the loop of `rt_ipc_list_resume_all`.  When the list has become empty since
it was tested, the entry read from it is the object itself, and the assertion of
`rt_thread_resume` on its type fails. -/
def resumeAllSection (o : ι) (k : Kernel Tid ι) : Option (Kernel Tid ι) :=
  match k.list (.suspended o) with
  | t :: _ => some ((k.setError t .error).rtThreadResume t).1
  | [] => none

/-- `rt_ipc_list_resume_all` called with interrupts disabled, for at most `n` rounds of its
loop. -/
def rtIpcListResumeAll (o : ι) : ℕ → Kernel Tid ι → Option (Kernel Tid ι)
  | 0, k => if k.list (.suspended o) = [] then some k else none
  | n + 1, k =>
    if k.list (.suspended o) = [] then some k
    else (k.resumeAllSection o).bind (rtIpcListResumeAll o n)

/-- The stretch of `rt_sem_take` and `rt_mutex_take` that suspends the thread and starts
its timer. -/
def ipcSuspend (o : ι) (t : Tid) (flag : IpcFlag) (time : ℤ) (k : Kernel Tid ι) :
    Option (Kernel Tid ι) :=
  (k.rtIpcListSuspend o t flag).map fun k => if time > 0 then k.setTimer t true else k

/-! ### Semaphores -/

/-- The section of `rt_sem_take`, called by a thread or (`none`) by an interrupt handler,
which must not wait.  The code is what the function returns, unless its thread waits. -/
def rtSemTake (o : ι) (caller : Option Tid) (time : ℤ) (sem : Semaphore) (k : Kernel Tid ι) :
    Option (Kernel Tid ι × Semaphore × Option RtErr) :=
  if sem.value > 0 then some (k, { sem with value := sem.value - 1 }, some .eok)
  else if time = 0 then some (k, sem, some .etimeout)
  else
    match caller with
    | none => none
    | some t =>
      ((k.setError t .eok).ipcSuspend o t sem.flag time).map fun k => (k, sem, none)

/-- The section of `rt_sem_release`, and whether `rt_schedule` is to be called. -/
def rtSemRelease (o : ι) (sem : Semaphore) (k : Kernel Tid ι) :
    Option (Kernel Tid ι × Semaphore × Bool) :=
  if k.list (.suspended o) ≠ [] then (k.rtIpcListResume o).map fun k => (k, sem, true)
  else some (k, { sem with value := sem.value + 1 }, false)

/-- The section of `rt_sem_control` with `RT_IPC_CMD_RESET`.  Each round of the loop takes a
thread from the list. -/
def rtSemControl (o : ι) (value : UInt32) (sem : Semaphore) (k : Kernel Tid ι) :
    Option (Kernel Tid ι × Semaphore) :=
  (k.rtIpcListResumeAll o (k.list (.suspended o)).length).map fun k =>
    (k, { sem with value := value.toUInt16 })

/-! ### Mutexes -/

/-- `rt_mutex_take` from its label `__again`. -/
def rtMutexTakeAgain (o : ι) (t : Tid) (time : ℤ) (mutex : Mutex Tid) (k : Kernel Tid ι) :
    Option (Kernel Tid ι × Mutex Tid × Option RtErr) :=
  if mutex.value > 0 then
    some (k, { mutex with
      value := mutex.value - 1
      owner := some t
      originalPriority := (k.thread t).currentPriority
      hold := mutex.hold + 1 }, some .eok)
  else if time = 0 then some (k.setError t .etimeout, mutex, some .etimeout)
  else
    match mutex.owner with
    | none => none
    | some owner =>
      let k :=
        if (k.thread t).currentPriority < (k.thread owner).currentPriority then
          k.rtThreadControl owner (k.thread t).currentPriority
        else k
      (k.ipcSuspend o t mutex.flag time).map fun k => (k, mutex, none)

/-- The section of `rt_mutex_take`.  The code is what the function returns, unless its
thread waits. -/
def rtMutexTake (o : ι) (t : Tid) (time : ℤ) (mutex : Mutex Tid) (k : Kernel Tid ι) :
    Option (Kernel Tid ι × Mutex Tid × Option RtErr) :=
  let k := k.setError t .eok
  if mutex.owner = some t then some (k, { mutex with hold := mutex.hold + 1 }, some .eok)
  else k.rtMutexTakeAgain o t time mutex

/-- The branch of `rt_mutex_release` for a mutex with no hold left: the thread gets its
priority back, and the mutex goes to the first waiting thread or becomes free. -/
def mutexGiveUp (o : ι) (t : Tid) (mutex : Mutex Tid) (k : Kernel Tid ι) :
    Option (Kernel Tid ι × Mutex Tid × RtErr × Bool) :=
  let k :=
    if mutex.originalPriority ≠ (k.thread t).currentPriority then
      k.rtThreadControl t mutex.originalPriority
    else k
  match k.list (.suspended o) with
  | next :: _ =>
    (k.rtIpcListResume o).map fun k' => (k', { mutex with
      owner := some next
      originalPriority := (k.thread next).currentPriority
      hold := mutex.hold + 1 }, .eok, true)
  | [] =>
    some (k, { mutex with
      value := mutex.value + 1
      owner := none
      originalPriority := 0xFF }, .eok, false)

/-- The section of `rt_mutex_release`: what it returns, and whether `rt_schedule` is to be
called. -/
def rtMutexRelease (o : ι) (t : Tid) (mutex : Mutex Tid) (k : Kernel Tid ι) :
    Option (Kernel Tid ι × Mutex Tid × RtErr × Bool) :=
  if mutex.owner ≠ some t then some (k.setError t .error, mutex, .error, false)
  else
    let mutex : Mutex Tid := { mutex with hold := mutex.hold - 1 }
    if mutex.hold = 0 then k.mutexGiveUp o t mutex
    else some (k, mutex, .eok, false)

end Kernel

end RtThread
