import McCortexM3.Run

/-!
# POSIX threads

`pthread.c`: the creation of threads with their blocks, their ends, and the calls that wait for a
thread or detach it.  A thread that ends goes to the defunct list, where the idle thread calls its
cleanup hook; a thread that has left by `pthread_exit` is no static object any more by then, and the
idle thread frees it as if it were a dynamic one.  A block that is passed to `rt_free` keeps its
contents.

With `RT_DEBUG` a failing assertion stops the system.

## Main definitions

* `Pthread`, `PthSys` — the data of a thread, and the state.
* `pthreadCreate` — the creation, with the errors of the allocations.
* `PthSys.ApiAllows` — a thread is joined or detached once.
-/

set_option linter.all false

namespace RtThread

open Function (update)

/-- The blocks of a thread: its `_pthread_data_t`, its stack, its control block, its semaphore, and
the stack of the caller. -/
inductive PthBlock
  | data
  | stack
  | control
  | sem
  | userStack
  deriving DecidableEq

/-- What the calls for a thread return: 0, `EINVAL`, `ESRCH` and `EDEADLK`. -/
inductive PthResult
  | ok
  | einval
  | esrch
  | edeadlk
  deriving DecidableEq

/-- What an observer sees: a block is allocated or freed, `pthread_create` returns (and whether the
thread is detached), and `pthread_join` or `pthread_detach` returns to the thread `c`. -/
inductive PthEvent (Tid : Type)
  | alloc (t : Tid) (b : PthBlock)
  | free (t : Tid) (b : PthBlock)
  | created (t : Tid) (detached : Bool)
  | failed (t : Tid)
  | returned (c t : Tid) (join : Bool) (result : PthResult)
  deriving DecidableEq

/-- The attributes of `pthread_create`: whether the thread is detached, and whether `stack_base` is
given. -/
structure PthAttr where
  detached : Bool
  userStack : Bool

/-- Which allocations of `pthread_create` succeed. -/
structure PthMemory where
  data : Bool
  stack : Bool
  control : Bool
  sem : Bool

/-- `stack_addr` of a thread. -/
inductive StackAddr
  | allocated
  | user
  | null
  deriving DecidableEq

/-- The `_pthread_data_t` and the `struct rt_thread` of a thread: `detachstate`, whether `stack_base`
is given, the value of `joinable_sem`, `stack_addr`, whether the thread is closed and has its cleanup
hook, and whether the type of the object and of its timer is still set.  The history variable `freed`
says whether the control block has been freed. -/
structure Pthread where
  detached : Bool
  userStack : Bool
  joinableSem : Option ℕ
  stackAddr : StackAddr
  closed : Bool
  cleanup : Bool
  object : Bool
  timer : Bool
  freed : Bool

/-- Where a thread is: in `pthread_join` before the test of `detachstate` and before `rt_sem_take`;
in `pthread_detach` before the test of `detachstate`, before the test of `stat`, and before either
branch; and in `pthread_exit` before `rt_thread_detach`. -/
inductive PthPc (Tid : Type)
  | outside
  | joining (t : Tid)
  | taking (t : Tid)
  | detaching (join : Bool) (t : Tid)
  | testing (join : Bool) (t : Tid)
  | marking (join : Bool) (t : Tid)
  | closing (join : Bool) (t : Tid)
  | exiting
  deriving DecidableEq

/-- Where the idle thread is: before the next defunct thread, before it frees the stack, and before
it deletes the object. -/
inductive PthIdlePc (Tid : Type)
  | outside
  | picked (t : Tid)
  | stackFreed (t : Tid)
  deriving DecidableEq

/-- Nobody has joined or detached the thread, the thread `c` is about to, or it is done. -/
inductive Claim (Tid : Type)
  | free
  | by (c : Tid)
  | done
  deriving DecidableEq

/-- What can happen next: a thread is created, its start function returns, it calls `pthread_exit`, a
thread joins or detaches another one, a thread goes on, its wait for a semaphore is interrupted, and
the idle thread goes on. -/
inductive PthAction (Tid : Type)
  | create (t : Tid) (a : PthAttr) (m : PthMemory)
  | finish (t : Tid)
  | exit (t : Tid)
  | join (c t : Tid)
  | detach (c t : Tid)
  | go (c : Tid)
  | interrupt (c : Tid)
  | idle

/-- The threads by their names, which are given once; the defunct list; and the places of all
threads. -/
structure PthSys (Tid : Type) where
  known : Tid → Bool
  pth : Tid → Option Pthread
  defunct : List Tid
  pc : Tid → PthPc Tid
  idlePc : PthIdlePc Tid
  claim : Tid → Claim Tid

/-! ### Creation -/

section

variable {Tid : Type}

/-- `pthread_create` up to `rt_thread_startup`. -/
def pthreadCreate (t : Tid) (a : PthAttr) (m : PthMemory) : Option Pthread × List (PthEvent Tid) :=
  if m.data = false then (none, [.failed t])
  else if a.userStack = false ∧ m.stack = false then
    (none, [.alloc t .data, .free t .data, .failed t])
  else
    let allocs := PthEvent.alloc t .data :: if a.userStack = true then [] else [.alloc t .stack]
    if m.control = false then
      (none, allocs ++ (if a.userStack = true then [] else [PthEvent.free t .stack]) ++
        [PthEvent.free t .data, .failed t])
    else if a.detached = false ∧ m.sem = false then
      -- the test of `stack_base` is the other way round, and the control block stays
      (none, allocs ++ PthEvent.alloc t .control ::
          (if a.userStack = true then [.free t .userStack] else []) ++
        [PthEvent.free t .data, .failed t])
    else
      (some {
        detached := a.detached
        userStack := a.userStack
        joinableSem := if a.detached = true then none else some 0
        stackAddr := if a.userStack = true then .user else .allocated
        closed := false
        cleanup := true
        object := true
        timer := true
        freed := false },
        allocs ++ PthEvent.alloc t .control ::
            (if a.detached = true then [] else [.alloc t .sem]) ++
          [PthEvent.created t a.detached])

/-- `_pthread_cleanup`: `pthread_detach` does nothing with a detached thread. -/
def Pthread.pthreadCleanup (p : Pthread) : Pthread :=
  { p with
    cleanup := false
    joinableSem := if p.detached = true then p.joinableSem else p.joinableSem.map (· + 1) }

/-- `rt_sem_delete` of `joinable_sem`. -/
def Pthread.semDelete (p : Pthread) (t : Tid) : List (PthEvent Tid) :=
  if p.joinableSem.isSome = true then [.free t .sem] else []

/-- `rt_free` of `stack_addr`. -/
def Pthread.freeStack (p : Pthread) (t : Tid) : List (PthEvent Tid) :=
  match p.stackAddr with
  | .allocated => [.free t .stack]
  | .user => [.free t .userStack]
  | .null => []

end

namespace PthSys

variable {Tid : Type} [DecidableEq Tid]

/-! ### Calls -/

/-- The data of the thread becomes `p`. -/
def setPth (s : PthSys Tid) (t : Tid) (p : Pthread) : PthSys Tid :=
  { s with pth := update s.pth t (some p) }

/-- The place of the thread becomes `pc`. -/
def goto (s : PthSys Tid) (c : Tid) (pc : PthPc Tid) : PthSys Tid :=
  { s with pc := update s.pc c pc }

/-- A thread can run until it is closed. -/
def Runs (s : PthSys Tid) (c : Tid) : Prop := ∀ p ∈ s.pth c, p.closed = false

instance (s : PthSys Tid) (c : Tid) : Decidable (s.Runs c) := by
  unfold Runs
  cases s.pth c with
  | none => exact isTrue fun _ h => nomatch h
  | some p => exact decidable_of_iff (p.closed = false) (by simp)

/-- `rt_thread_exit`. -/
def rtThreadExit (debug : Bool) (s : PthSys Tid) (t : Tid) (p : Pthread) : Option (PthSys Tid) :=
  if debug = true ∧ p.timer = false then none
  else if p.object = true ∧ p.cleanup = false then
    some (s.setPth t { p with closed := true, timer := false, object := false })
  else
    some { s.setPth t { p with closed := true, timer := false } with defunct := t :: s.defunct }

/-- `rt_thread_detach`, which takes the thread from any list that it is in. -/
def rtThreadDetach (debug : Bool) (s : PthSys Tid) (t : Tid) (p : Pthread) : Option (PthSys Tid) :=
  if debug = true ∧ (p.object = false ∨ p.timer = false) then none
  else
    let rest := s.defunct.filter (· ≠ t)
    some { s.setPth t { p with closed := true, timer := false, object := false } with
      defunct := if p.cleanup = true then t :: rest else rest }

/-- The call returns to the thread `c`. -/
def return' (s : PthSys Tid) (c t : Tid) (join : Bool) (result : PthResult) :
    PthSys Tid × List (PthEvent Tid) :=
  ({ s.goto c .outside with
    claim := update s.claim t (if result = .esrch then .free else .done) },
    [.returned c t join result])

/-- What `pthread_detach` frees of a closed thread. -/
def closeBlocks (p : Pthread) (t : Tid) : List (PthEvent Tid) :=
  p.semDelete t ++ (if p.userStack = true then [] else p.freeStack t) ++
    [PthEvent.free t .control, .free t .data]

/-- The branch of `pthread_detach` for a closed thread. -/
def close (debug : Bool) (s : PthSys Tid) (t : Tid) (p : Pthread) :
    Option (PthSys Tid × List (PthEvent Tid)) :=
  (s.rtThreadDetach debug t p).bind fun s => (s.pth t).map fun p' =>
    (s.setPth t { p' with
      stackAddr := if p'.userStack = true then .null else p'.stackAddr
      freed := true }, closeBlocks p t)

/-- A thread goes on. -/
def goAt (debug : Bool) (s : PthSys Tid) (c : Tid) :
    PthPc Tid → Option (PthSys Tid × List (PthEvent Tid))
  | .outside => none
  | .joining t => (s.pth t).map fun p =>
    if p.detached = true then s.return' c t true .einval else (s.goto c (.taking t), [])
  | .taking t => (s.pth t).bind fun p =>
    match p.joinableSem with
    | some (n + 1) =>
      some ((s.setPth t { p with joinableSem := some n }).goto c (.detaching true t), [])
    | _ => none
  | .detaching join t => (s.pth t).map fun p =>
    if p.detached = true then s.return' c t join (if join = true then .ok else .einval)
    else (s.goto c (.testing join t), [])
  | .testing join t => (s.pth t).map fun p =>
    (s.goto c (if p.closed = true then .closing join t else .marking join t), [])
  | .marking join t => (s.pth t).map fun p =>
    let r := (s.setPth t { p with detached := true, joinableSem := none }).return' c t join .ok
    (r.1, p.semDelete t ++ r.2)
  | .closing join t => (s.pth t).bind fun p => (s.close debug t p).map fun r =>
    let r' := r.1.return' c t join .ok
    (r'.1, r.2 ++ r'.2)
  | .exiting => (s.pth c).bind fun p => (s.rtThreadDetach debug c p).map fun s =>
    (s.goto c .outside, [])

/-- A step of `rt_thread_idle_excute`. -/
def idleExcute (s : PthSys Tid) : Option (PthSys Tid × List (PthEvent Tid)) :=
  match s.idlePc with
  | .outside =>
    match s.defunct with
    | [] => some (s, [])
    | t :: _ => (s.pth t).map fun p =>
      ({ s.setPth t (if p.cleanup = true then p.pthreadCleanup else p) with
        defunct := s.defunct.filter (· ≠ t)
        idlePc := if p.object = true then .outside else .picked t }, [])
  | .picked t => (s.pth t).map fun p => ({ s with idlePc := .stackFreed t }, p.freeStack t)
  | .stackFreed t => (s.pth t).map fun p =>
    ({ s.setPth t { p with freed := true } with idlePc := .outside }, [.free t .control])

/-- One step of an interleaving. -/
def step (debug : Bool) (s : PthSys Tid) :
    PthAction Tid → Option (PthSys Tid × List (PthEvent Tid))
  | .create t a m =>
    if s.known t = true then none
    else
      some ({ s with
        known := update s.known t true
        pth := update s.pth t (pthreadCreate t a m).1
        claim := update s.claim t (if a.detached = true then .done else .free) },
        (pthreadCreate t a m).2)
  | .finish t =>
    if s.Runs t ∧ s.pc t = .outside then
      (s.pth t).bind fun p => (s.rtThreadExit debug t p).map fun s => (s, [])
    else none
  | .exit t =>
    if s.Runs t ∧ s.pc t = .outside then
      (s.pth t).map fun p =>
        let sem := if p.detached = true then p.joinableSem else p.joinableSem.map (· + 1)
        ((s.setPth t { p with joinableSem := sem }).goto t .exiting, [])
    else none
  | .join c t =>
    if s.Runs c ∧ s.pc c = .outside then
      if c = t then some (s, [.returned c t true .edeadlk])
      else some ({ s.goto c (.joining t) with claim := update s.claim t (.by c) }, [])
    else none
  | .detach c t =>
    if s.Runs c ∧ s.pc c = .outside then
      some ({ s.goto c (.detaching false t) with claim := update s.claim t (.by c) }, [])
    else none
  | .go c => if s.Runs c then s.goAt debug c (s.pc c) else none
  | .interrupt c =>
    match s.pc c with
    | .taking t => if s.Runs c then some (s.return' c t true .esrch) else none
    | _ => none
  | .idle => s.idleExcute

/-- The system before the first thread is created. -/
def boot : PthSys Tid where
  known := fun _ => false
  pth := fun _ => none
  defunct := []
  pc := fun _ => .outside
  idlePc := .outside
  claim := fun _ => .free

/-- A thread is joined or detached once. -/
def ApiAllows (s : PthSys Tid) : PthAction Tid → Prop
  | .join c t => c = t ∨ (s.pth t).isSome = true ∧ s.claim t = .free
  | .detach _ t => (s.pth t).isSome = true ∧ s.claim t = .free
  | _ => True

end PthSys

end RtThread
