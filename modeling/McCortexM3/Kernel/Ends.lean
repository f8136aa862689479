import McCortexM3.Kernel.Ready
import McCortexM3.Run

/-!
# The end of threads

A thread ends in `rt_thread_exit`, `rt_thread_detach` or `rt_thread_delete`.  A dynamic thread is
then put into `rt_thread_defunct`, from which the idle thread takes it to free its stack and its
control block; it frees them after its interrupt-disabled section, so that other threads may run
before and between.  It tells a static thread by the type bits of its object, which
`rt_object_detach` clears.

## Main definitions

* `Kernel.Moves` — what the scheduler does to threads that do not end.
* `EndSys` — the kernel with the thread objects, their container and the place of the idle thread.
* `rtThreadExit`, `rtThreadDetach`, `rtThreadDelete`, `idleExcute` — the ends and the clean-up.
* `EndSys.history` — what has happened to a thread.
* `CleansUp` — the history of a thread is that of a static or of a dynamic one.
* `EndSys.Plain` — no static thread ends with a cleanup hook.

## Main results

* `EndSys.run_cleansUp` — in such runs every thread is cleaned up once.
* `EndSys.not_run_cleansUp` — a static thread with a hook is detached, and its stack is freed.
-/

set_option linter.all false

namespace RtThread

open Function Option List
open Function (update)

namespace Kernel

variable [RtConfig] {Tid ι : Type} [DecidableEq Tid] [DecidableEq ι]
  {k k' k'' : Kernel Tid ι} {x : Option Tid} {t : Tid} {st : Stat}

/-! ### Threads that do not end -/

/-- The ready queues hold ready threads, and the defunct list closed ones. -/
structure Calm (k : Kernel Tid ι) : Prop where
  queued : ∀ p u, u ∈ k.list (.ready p) → (k.thread u).stat = .ready
  defunct : ∀ u ∈ k.list .defunct, (k.thread u).stat = .close

/-- No thread is closed, none but `x` is started, and none that is closed becomes the current
one. -/
structure Moves (x : Option Tid) (k k' : Kernel Tid ι) : Prop where
  calm : k.Calm → k'.Calm
  closed : ∀ u, (k'.thread u).stat = .close ↔ (k.thread u).stat = .close
  init : ∀ u, some u ≠ x → (k.thread u).stat = .init → (k'.thread u).stat = .init
  object : ∀ u, (k'.thread u).isSystemObject = (k.thread u).isSystemObject
  defunct : k'.list .defunct = k.list .defunct
  current : ∀ u, k'.currentThread = some u → k.currentThread = some u ∨ (k.thread u).stat ≠ .close

theorem Moves.refl (x : Option Tid) (k : Kernel Tid ι) : Moves x k k :=
  ⟨id, fun _ => .rfl, fun _ _ => id, fun _ => rfl, rfl, fun _ => .inl⟩

theorem Moves.trans (h : Moves x k k') (h' : Moves x k' k'') : Moves x k k'' := by
  refine ⟨h'.calm ∘ h.calm, fun u => (h'.closed u).trans (h.closed u),
    fun u hu => h'.init u hu ∘ h.init u hu, fun u => (h'.object u).trans (h.object u),
    h'.defunct.trans h.defunct, ?_⟩
  intro u hu
  rcases h'.current u hu with hu | hu
  · exact h.current u hu
  · exact .inr (mt (h.closed u).2 hu)

theorem moves_modify {f : Thread → Thread} (hstat : (f (k.thread t)).stat = (k.thread t).stat)
    (hobject : (f (k.thread t)).isSystemObject = (k.thread t).isSystemObject) :
    Moves x k (k.modifyThread t f) := by
  have hsame : ∀ u, ((k.modifyThread t f).thread u).stat = (k.thread u).stat ∧
      ((k.modifyThread t f).thread u).isSystemObject = (k.thread u).isSystemObject := by
    intro u
    by_cases hut : u = t
    · subst hut
      rw [thread_modifyThread_self]
      exact ⟨hstat, hobject⟩
    · rw [thread_modifyThread_of_ne _ _ hut]
      exact ⟨rfl, rfl⟩
  refine ⟨fun h => ⟨?_, ?_⟩, fun u => ?_, fun u _ hu => ?_, fun u => (hsame u).2, rfl,
    fun _ => .inl⟩
  · exact fun p u hu => (hsame u).1.trans (h.queued p u hu)
  · exact fun u hu => (hsame u).1.trans (h.defunct u hu)
  · rw [(hsame u).1]
  · rw [(hsame u).1, hu]

theorem moves_setTimer (k : Kernel Tid ι) (t : Tid) (active : Bool) :
    Moves x k (k.setTimer t active) := moves_modify rfl rfl

theorem filter_of_not_mem {l : List Tid} (ht : t ∉ l) : l.filter (· ≠ t) = l := by
  rw [filter_eq_self]
  intro u hu
  have hne : u ≠ t := by
    rintro rfl
    exact ht hu
  simpa using hne

theorem moves_rtListRemove (ht : t ∉ k.list .defunct) : Moves x k (k.rtListRemove t) := by
  refine ⟨fun h => ⟨?_, ?_⟩, fun _ => .rfl, fun _ _ => id, fun _ => rfl, filter_of_not_mem ht,
    fun _ => .inl⟩
  · exact fun p u hu => h.queued p u (mem_filter.1 hu).1
  · exact fun u hu => h.defunct u (mem_filter.1 hu).1

theorem moves_remove (ht : t ∉ k.list .defunct) : Moves x k (k.rtScheduleRemoveThread t) := by
  refine ⟨fun h => ⟨?_, ?_⟩, fun u => ?_, fun u _ => ?_, fun u => ?_, ?_, ?_⟩
  · intro p u hu
    rw [list_rtScheduleRemoveThread] at hu
    rw [thread_rtScheduleRemoveThread]
    exact h.queued p u (mem_filter.1 hu).1
  · intro u hu
    rw [list_rtScheduleRemoveThread] at hu
    rw [thread_rtScheduleRemoveThread]
    exact h.defunct u (mem_filter.1 hu).1
  · rw [thread_rtScheduleRemoveThread]
  · rw [thread_rtScheduleRemoveThread]
    exact id
  · rw [thread_rtScheduleRemoveThread]
  · rw [list_rtScheduleRemoveThread]
    exact filter_of_not_mem ht
  · intro u hu
    rw [currentThread_rtScheduleRemoveThread] at hu
    exact .inl hu

theorem moves_setStat (ht : (k.thread t).stat ≠ .close) (hst : st ≠ .close)
    (hinit : (k.thread t).stat = .init → some t = x) (hnot : ∀ p, t ∉ k.list (.ready p)) :
    Moves x k (k.setStat t st) := by
  have hother : ∀ u, u ≠ t → (k.setStat t st).thread u = k.thread u := fun u hu =>
    thread_modifyThread_of_ne _ _ hu
  have hself : ((k.setStat t st).thread t).stat = st := by
    rw [setStat, thread_modifyThread_self]
  refine ⟨fun h => ⟨?_, ?_⟩, ?_, ?_, ?_, rfl, fun _ => .inl⟩
  · intro p u hu
    have hut : u ≠ t := by
      rintro rfl
      exact hnot p hu
    rw [hother u hut]
    exact h.queued p u hu
  · intro u hu
    have hut : u ≠ t := by
      rintro rfl
      exact ht (h.defunct u hu)
    rw [hother u hut]
    exact h.defunct u hu
  · intro u
    by_cases hut : u = t
    · subst hut
      rw [hself]
      exact iff_of_false hst ht
    · rw [hother u hut]
  · intro u hux hu
    have hut : u ≠ t := by
      rintro rfl
      exact hux (hinit hu)
    rwa [hother u hut]
  · intro u
    by_cases hut : u = t
    · subst hut
      rw [setStat, thread_modifyThread_self]
    · rw [hother u hut]

section

variable (h : k.Calm)
include h

theorem moves_removeSet (ht : (k.thread t).stat ≠ .close) (hst : st ≠ .close)
    (hinit : (k.thread t).stat = .init → some t = x) :
    Moves x k ((k.rtScheduleRemoveThread t).setStat t st) := by
  refine (moves_remove fun hmem => ht (h.defunct t hmem)).trans (moves_setStat ?_ hst ?_ ?_)
  · rwa [thread_rtScheduleRemoveThread]
  · rwa [thread_rtScheduleRemoveThread]
  · intro p hmem
    rw [list_rtScheduleRemoveThread] at hmem
    simpa using (mem_filter.1 hmem).2

theorem moves_insert (ht : (k.thread t).stat = .suspend ∨ (k.thread t).stat = .running) :
    Moves x k (k.rtScheduleInsertThread t) := by
  have hclose : (k.thread t).stat ≠ .close := by rcases ht with ht | ht <;> simp [ht]
  have hinit : (k.thread t).stat ≠ .init := by rcases ht with ht | ht <;> simp [ht]
  have hnot : ∀ p, t ∉ k.list (.ready p) := by
    intro p hmem
    have hready := h.queued p t hmem
    rcases ht with ht | ht <;> simp [ht] at hready
  have hset : ∀ st, st ≠ .close → Moves x k (k.setStat t st) := fun st hst =>
    moves_setStat hclose hst (fun hi => absurd hi hinit) hnot
  rw [rtScheduleInsertThread]
  split
  · exact hset .running (by simp)
  · refine (hset .ready (by simp)).trans ⟨fun hcalm => ⟨?_, ?_⟩, fun _ => .rfl, fun _ _ => id,
      fun _ => rfl, rfl, fun _ => .inl⟩
    · intro p u hu
      change u ∈ update (k.setStat t .ready).list _ _ (.ready p) at hu
      by_cases hp : (.ready p : ListHead ι) = .ready ((k.setStat t .ready).thread t).currentPriority
      · rw [hp, update_self] at hu
        rcases mem_append.1 hu with hu | hu
        · exact hcalm.queued _ u hu
        · rw [mem_singleton.1 hu]
          show ((k.setStat t .ready).thread t).stat = .ready
          rw [setStat, thread_modifyThread_self]
      · rw [update_of_ne hp] at hu
        exact hcalm.queued p u hu
    · exact hcalm.defunct

theorem moves_suspendSection (hclose : (k.thread t).stat ≠ .close)
    (hinit : (k.thread t).stat ≠ .init) (hs : k.suspendSection t st = some k') :
    Moves x k k' := by
  rw [suspendSection] at hs
  split at hs
  · cases hs
  · cases hs
    have hset : Moves x k ((k.rtScheduleRemoveThread t).setStat t .suspend) :=
      moves_removeSet h hclose (by simp) fun hi => absurd hi hinit
    exact hset.trans (moves_setTimer _ t false)

theorem moves_rtThreadSuspend {r : Kernel Tid ι × RtErr} (hs : k.rtThreadSuspend t = some r) :
    Moves x k r.1 := by
  rw [rtThreadSuspend] at hs
  split at hs
  · cases hs
    exact .refl x k
  · next hstat =>
    obtain ⟨k', hk', rfl⟩ := map_eq_some_iff.1 hs
    refine moves_suspendSection h ?_ ?_ hk'
    · exact fun hc => hstat (by simp [hc])
    · exact fun hi => hstat (by simp [hi])

theorem moves_wake {f : Thread → Thread} (ht : (k.thread t).stat = .suspend)
    (hstat : (f (k.thread t)).stat = (k.thread t).stat)
    (hobject : (f (k.thread t)).isSystemObject = (k.thread t).isSystemObject) :
    Moves x k (((k.modifyThread t f).rtListRemove t).rtScheduleInsertThread t) := by
  have hmod := moves_modify (x := x) hstat hobject
  have hmem : t ∉ (k.modifyThread t f).list .defunct := fun hmem => by
    have hclose := h.defunct t hmem
    rw [ht] at hclose
    cases hclose
  have hremoved := hmod.trans (moves_rtListRemove hmem)
  refine hremoved.trans (moves_insert (hremoved.calm h) (.inl ?_))
  rw [thread_rtListRemove, thread_modifyThread_self, hstat, ht]

theorem moves_rtThreadResume : Moves x k (k.rtThreadResume t).1 := by
  rw [rtThreadResume]
  split
  · exact .refl x k
  · next hstat =>
    show Moves x k (((k.setTimer t false).rtListRemove t).rtScheduleInsertThread t)
    exact moves_wake h (not_not.1 hstat) rfl rfl

theorem moves_timeoutSection (hs : k.timeoutSection t = some k') : Moves x k k' := by
  rw [timeoutSection] at hs
  split at hs
  · next hstat =>
    cases hs
    have htimer := moves_setTimer (x := x) k t false
    refine htimer.trans (moves_wake (htimer.calm h) ?_ rfl rfl)
    rw [setTimer, thread_modifyThread_self, hstat]
  · cases hs

theorem moves_sleepSection (hs : k.sleepSection t = some k') : Moves x k k' := by
  obtain ⟨r, hr, rfl⟩ := map_eq_some_iff.1 hs
  exact (moves_rtThreadSuspend h hr).trans (moves_setTimer _ t true)

theorem moves_startup (ht : (k.thread t).stat = .init) :
    Moves (some t) k ((k.startupWrite t).rtThreadResume t).1 := by
  have hprio : Moves (some t) k (k.setPriority t (k.thread t).initPriority) :=
    moves_modify rfl rfl
  have hstat : ((k.setPriority t (k.thread t).initPriority).thread t).stat = .init := by
    rw [setPriority, thread_modifyThread_self, ht]
  have hwrite : Moves (some t) k (k.startupWrite t) := by
    refine hprio.trans (moves_setStat ?_ (by simp) (fun _ => rfl) ?_)
    · simp [hstat]
    · intro p hmem
      have hready := (hprio.calm h).queued p t hmem
      rw [hstat] at hready
      cases hready
  exact hwrite.trans (moves_rtThreadResume (hwrite.calm h))

end

theorem moves_current {next : Tid} (p : ℕ) (hnext : (k.thread next).stat ≠ .close) :
    Moves x k { k with currentPriority := p, currentThread := some next } := by
  refine ⟨fun h => ⟨h.queued, h.defunct⟩, fun _ => .rfl, fun _ _ => id, fun _ => rfl, rfl, ?_⟩
  rintro u ⟨⟩
  exact .inr hnext

theorem moves_switchTo {cur next : Tid} {p : ℕ} (h : k.Calm)
    (hnext : (k.thread next).stat = .ready) :
    Moves x k (k.switchTo cur next p (decide ((k.thread cur).stat = .running))) := by
  have hstart : Moves x k { k with currentPriority := p, currentThread := some next } :=
    moves_current p (by simp [hnext])
  rw [switchTo]
  by_cases hrun : (k.thread cur).stat = .running
  · have hne : next ≠ cur := by
      rintro rfl
      rw [hrun] at hnext
      cases hnext
    have hback := hstart.trans (moves_insert (t := cur) (hstart.calm h) (.inr hrun))
    simp only [hrun, decide_true, if_true]
    have hready : ((({ k with currentPriority := p, currentThread := some next } :
        Kernel Tid ι).rtScheduleInsertThread cur).thread next).stat = .ready := by
      rw [thread_rtScheduleInsertThread, setStat, thread_modifyThread_of_ne _ _ hne, hnext]
    refine hback.trans (moves_removeSet (hback.calm h) ?_ (by simp) ?_)
    · simp [hready]
    · simp [hready]
  · simp only [hrun, decide_false, Bool.false_eq_true, if_false]
    refine hstart.trans (moves_removeSet (hstart.calm h) ?_ (by simp) ?_)
    · simp [hnext]
    · simp [hnext]

theorem moves_rtSchedule (h : k.Calm) (hs : k.rtSchedule = some k') : Moves x k k' := by
  rw [rtSchedule] at hs
  split at hs
  · split at hs
    · split at hs
      · next cur next p hcur hget =>
        have hready : (k.thread next).stat = .ready := by
          rw [getHighestPriorityThread] at hget
          exact h.queued _ next (mem_of_mem_head? (congrArg Prod.fst hget))
        split at hs
        · next hcond =>
          -- the current thread goes on
          cases hs
          refine moves_removeSet h ?_ (by simp) ?_
          · simp [hcond.1]
          · simp [hcond.1]
        · split at hs
          · cases hs
            exact moves_switchTo h hready
          · next hsame =>
            -- the current thread is the head of its queue
            cases hs
            rw [not_not.1 hsame] at hready
            refine moves_removeSet h ?_ (by simp) ?_
            · simp [hready]
            · simp [hready]
      · cases hs
    · cases hs
      exact .refl x k
  · cases hs
    exact .refl x k

theorem moves_rtSystemSchedulerStart (h : k.Calm) (hs : k.rtSystemSchedulerStart = some k') :
    Moves x k k' := by
  rw [rtSystemSchedulerStart] at hs
  split at hs
  · next next p hget =>
    cases hs
    have hready : (k.thread next).stat = .ready := by
      rw [getHighestPriorityThread] at hget
      exact h.queued _ next (mem_of_mem_head? (congrArg Prod.fst hget))
    have hstart : Moves x k { k with currentThread := some next } :=
      moves_current k.currentPriority (by simp [hready])
    refine hstart.trans (moves_removeSet (hstart.calm h) ?_ (by simp) ?_)
    · simp [hready]
    · simp [hready]
  · cases hs

end Kernel

/-! ### The system -/

/-- Where the memory of a thread comes from: `rt_thread_init` or `rt_thread_create`. -/
inductive Origin
  | static
  | dynamic
  deriving DecidableEq

/-- Where the idle thread is: not in the loop of `rt_thread_idle_excute`, or with a thread that it
has taken; before it frees the stack, and before it deletes the object. -/
inductive IdlePc (Tid : Type)
  | outside
  | picked (t : Tid)
  | stackFreed (t : Tid)
  deriving DecidableEq

/-- What happens to a thread: it is initialised, created, it ends; its object is unlinked from the
container; its stack and its object are passed to `rt_free`. -/
inductive EndKind
  | inited
  | created
  | ended
  | unlinked
  | freedStack
  | freedObject
  deriving DecidableEq

/-- What the scheduler does, on behalf of any caller. -/
inductive KernelOp (Tid : Type)
  | suspend (t : Tid)
  | resume (t : Tid)
  | sleep
  | timeout (t : Tid)
  | schedule
  | schedulerStart

/-- What can happen next. -/
inductive EndAction (Tid : Type)
  | init (t : Tid)
  | create (t : Tid) (memory : Bool)
  | setCleanup (t : Tid) (cleanup : Bool)
  | startup (t : Tid)
  | kernel (op : KernelOp Tid)
  | exit
  | detach (t : Tid)
  | delete (t : Tid)
  | idle

/-- The kernel; whether the type of a thread object and of its timer is that of a thread and of a
timer, next to the static bit, which the kernel has; the container of the thread objects; and the
place of the idle thread.  The history variable `origin` says which threads there have been. -/
structure EndSys (Tid ι : Type) where
  kernel : Kernel Tid ι
  threadObject : Tid → Bool
  timerObject : Tid → Bool
  container : List Tid
  origin : Tid → Option Origin
  idlePc : IdlePc Tid

namespace Kernel

variable [RtConfig] {Tid ι : Type} [DecidableEq Tid] [DecidableEq ι]

/-- A step of the scheduler. -/
def op (k : Kernel Tid ι) : KernelOp Tid → Option (Kernel Tid ι)
  | .suspend t => (k.rtThreadSuspend t).map (·.1)
  | .resume t => some (k.rtThreadResume t).1
  | .sleep => k.currentThread.bind fun t => k.sleepSection t
  | .timeout t => if (k.thread t).timerActive then k.timeoutSection t else none
  | .schedule => k.rtSchedule
  | .schedulerStart => if k.currentThread = none then k.rtSystemSchedulerStart else none

theorem moves_op {k k' : Kernel Tid ι} {o : KernelOp Tid} (h : k.Calm) (hs : k.op o = some k') :
    Moves none k k' := by
  cases o with
  | suspend t =>
    obtain ⟨r, hr, rfl⟩ := map_eq_some_iff.1 hs
    exact moves_rtThreadSuspend h hr
  | resume t =>
    cases hs
    exact moves_rtThreadResume h
  | sleep =>
    obtain ⟨t, -, hs⟩ := bind_eq_some_iff.1 hs
    exact moves_sleepSection h hs
  | timeout t =>
    rw [op, ite_none_right_eq_some] at hs
    exact moves_timeoutSection h hs.2
  | schedule => exact moves_rtSchedule h hs
  | schedulerStart =>
    rw [op, ite_none_right_eq_some] at hs
    exact moves_rtSystemSchedulerStart h hs.2

/-- What `rt_thread_detach` and `rt_thread_delete` do to the thread, up to its object: it is removed
from its list when it has been started, its timer is detached, and it is closed. -/
def closeThread (t : Tid) (k : Kernel Tid ι) : Kernel Tid ι :=
  let k := if (k.thread t).stat ≠ .init then k.rtScheduleRemoveThread t else k
  (k.setTimer t false).setStat t .close

end Kernel

namespace EndSys

variable [RtConfig] {Tid ι : Type} [DecidableEq Tid] [DecidableEq ι]

/-- `rt_object_detach`: the type is cleared, and the object is unlinked. -/
def rtObjectDetach (s : EndSys Tid ι) (t : Tid) : EndSys Tid ι × List (Tid × EndKind) :=
  ({ s with
    kernel := s.kernel.modifyThread t fun th => { th with isSystemObject := false }
    threadObject := update s.threadObject t false
    container := s.container.filter (· ≠ t) },
    if t ∈ s.container then [(t, .unlinked)] else [])

/-- `rt_object_delete`, which a static object does not pass. -/
def rtObjectDelete (s : EndSys Tid ι) (t : Tid) : Option (EndSys Tid ι × List (Tid × EndKind)) :=
  if (s.kernel.thread t).isSystemObject then none
  else some ((s.rtObjectDetach t).1, (s.rtObjectDetach t).2 ++ [(t, EndKind.freedObject)])

/-- A new thread, whose object is linked into the container. -/
def newThread (s : EndSys Tid ι) (t : Tid) (o : Origin) : EndSys Tid ι where
  kernel := { s.kernel with
    thread := update s.kernel.thread t
      (Kernel.rtThreadInit (s.kernel.thread t).initPriority (decide (o = .static)) false) }
  threadObject := update s.threadObject t true
  timerObject := update s.timerObject t true
  container := t :: s.container
  origin := update s.origin t (some o)
  idlePc := s.idlePc

/-- The timer of a thread that ends is detached, which it has to be a timer for. -/
def endTimer (s : EndSys Tid ι) (t : Tid) (k : Kernel Tid ι) : Option (EndSys Tid ι) :=
  if s.timerObject t then
    some { s with kernel := k, timerObject := update s.timerObject t false }
  else none

/-- The interrupt-disabled section of `rt_thread_exit`. -/
def rtThreadExit (s : EndSys Tid ι) (t : Tid) : Option (EndSys Tid ι × List (Tid × EndKind)) :=
  (s.endTimer t (s.kernel.exitSection t)).map fun s' =>
    let r := if (s.kernel.thread t).isSystemObject && !(s.kernel.thread t).cleanup then
      s'.rtObjectDetach t else (s', [])
    (r.1, (t, .ended) :: r.2)

/-- `rt_thread_detach`. -/
def rtThreadDetach (s : EndSys Tid ι) (t : Tid) : Option (EndSys Tid ι × List (Tid × EndKind)) :=
  if s.threadObject t ∧ (s.kernel.thread t).isSystemObject then
    (s.endTimer t (s.kernel.closeThread t)).map fun s' =>
      let r := s'.rtObjectDetach t
      (if (s.kernel.thread t).cleanup then
        { r.1 with kernel := r.1.kernel.rtListInsertAfter .defunct t } else r.1,
        (t, .ended) :: r.2)
  else none

/-- `rt_thread_delete`. -/
def rtThreadDelete (s : EndSys Tid ι) (t : Tid) : Option (EndSys Tid ι × List (Tid × EndKind)) :=
  if s.threadObject t ∧ ¬ (s.kernel.thread t).isSystemObject then
    (s.endTimer t (s.kernel.closeThread t)).map fun s' =>
      ({ s' with kernel := s'.kernel.rtListInsertAfter .defunct t }, [(t, .ended)])
  else none

/-- A step of `rt_thread_idle_excute`: the section that takes the first defunct thread, which the
cleanup hook is called for and which a static thread ends; the release of the stack; and the
deletion of the object. -/
def idleExcute (s : EndSys Tid ι) : Option (EndSys Tid ι × List (Tid × EndKind)) :=
  match s.idlePc with
  | .outside =>
    match s.kernel.list .defunct with
    | [] => some (s, [])
    | t :: _ =>
      some ({ s with
        kernel := s.kernel.rtListRemove t
        idlePc := if (s.kernel.thread t).isSystemObject then .outside else .picked t }, [])
  | .picked t => some ({ s with idlePc := .stackFreed t }, [(t, .freedStack)])
  | .stackFreed t => ({ s with idlePc := .outside } : EndSys Tid ι).rtObjectDelete t

/-- One step of a system with the idle thread `idle`, whose memory is static.  `rt_thread_create`
leaves nothing when there is no memory. -/
def step (idle : Tid) (s : EndSys Tid ι) :
    EndAction Tid → Option (EndSys Tid ι × List (Tid × EndKind))
  | .init t => if s.origin t = none then some (s.newThread t .static, [(t, .inited)]) else none
  | .create t memory =>
    if s.origin t = none ∧ t ≠ idle then
      if memory then some (s.newThread t .dynamic, [(t, .created)]) else some (s, [])
    else none
  | .setCleanup t cleanup =>
    some ({ s with kernel := s.kernel.modifyThread t fun th => { th with cleanup := cleanup } }, [])
  | .startup t =>
    if s.threadObject t ∧ (s.kernel.thread t).stat = .init then
      some ({ s with kernel := ((s.kernel.startupWrite t).rtThreadResume t).1 }, [])
    else none
  | .kernel op => (s.kernel.op op).map fun k => ({ s with kernel := k }, [])
  | .exit => s.kernel.currentThread.bind fun t => s.rtThreadExit t
  | .detach t => s.rtThreadDetach t
  | .delete t => s.rtThreadDelete t
  | .idle => if s.kernel.currentThread = some idle then s.idleExcute else none

/-- The system before its first thread. -/
def boot (prio : Tid → ℕ) : EndSys Tid ι where
  kernel := .rtSystemSchedulerInit fun t => Kernel.rtThreadInit (prio t) false false
  threadObject := fun _ => false
  timerObject := fun _ => false
  container := []
  origin := fun _ => none
  idlePc := .outside

/-- The thread is static and has a cleanup hook. -/
def Hooked (s : EndSys Tid ι) (t : Tid) : Bool :=
  (s.kernel.thread t).isSystemObject && (s.kernel.thread t).cleanup

/-- No static thread ends with a cleanup hook. -/
def Plain (s : EndSys Tid ι) : EndAction Tid → Prop
  | .exit => ∀ t ∈ s.kernel.currentThread, s.Hooked t = false
  | .detach t => s.Hooked t = false
  | _ => True

instance (s : EndSys Tid ι) (a : EndAction Tid) : Decidable (s.Plain a) := by
  unfold Plain
  split
  · cases s.kernel.currentThread with
    | none => exact isTrue nofun
    | some t => exact decidable_of_iff (s.Hooked t = false) (by simp)
  all_goals infer_instance

end EndSys

/-! ### What becomes of a thread -/

section

variable {Tid : Type} [DecidableEq Tid]

/-- What has happened to the thread `t`. -/
def history (tr : List (Tid × EndKind)) (t : Tid) : List EndKind :=
  (tr.filter (·.1 = t)).map (·.2)

@[simp] theorem history_nil (t : Tid) : history [] t = [] := rfl

theorem history_append (tr tr' : List (Tid × EndKind)) (t : Tid) :
    history (tr ++ tr') t = history tr t ++ history tr' t := by
  rw [history, filter_append, map_append]
  rfl

theorem history_cons_self (t : Tid) (e : EndKind) (tr : List (Tid × EndKind)) :
    history ((t, e) :: tr) t = e :: history tr t := by
  simp [history]

theorem history_cons_of_ne {t u : Tid} (h : t ≠ u) (e : EndKind) (tr : List (Tid × EndKind)) :
    history ((t, e) :: tr) u = history tr u := by
  simp [history, h]

end

/-- What happens to a dynamic thread that ends. -/
def cleanedUp : List EndKind := [.created, .ended, .freedStack, .unlinked, .freedObject]

namespace EndSys

variable [RtConfig] {Tid ι : Type} [DecidableEq Tid] [DecidableEq ι]
  {s s' : EndSys Tid ι} {a : EndAction Tid} {tr out : List (Tid × EndKind)} {idle t : Tid}
  {k' : Kernel Tid ι}

/-- **Every thread is cleaned up once**: a static thread is never passed to `rt_free`, and its object
is unlinked once when it ends; a dynamic thread that ends is freed once, after it has run for the
last time, and the idle thread gets there by steps of its own. -/
structure CleansUp (idle : Tid) (tr : List (Tid × EndKind)) (s : EndSys Tid ι) : Prop where
  static : ∀ t, .inited ∈ history tr t →
    history tr t = [.inited] ∨ history tr t = [.inited, .ended, .unlinked]
  dynamic : ∀ t, .created ∈ history tr t → history tr t <+: cleanedUp
  late : ∀ t, .freedStack ∈ history tr t →
    s.kernel.currentThread ≠ some t ∧ ∀ p, t ∉ s.kernel.list (.ready p)
  finishes : s.kernel.currentThread = some idle →
    ∃ n s' out, exec (step idle) (fun _ _ => True) s (List.replicate n .idle) = some (s', out) ∧
      ∀ t, .created ∈ history tr t → .ended ∈ history tr t → history (tr ++ out) t = cleanedUp

/-- The thread has ended. -/
def Closed (s : EndSys Tid ι) (t : Tid) : Prop := (s.kernel.thread t).stat = .close

instance (s : EndSys Tid ι) (t : Tid) : Decidable (s.Closed t) := by
  unfold Closed
  infer_instance

/-- The thread waits for the idle thread to free its stack. -/
def Waits (s : EndSys Tid ι) (t : Tid) : Prop :=
  t ∈ s.kernel.list .defunct ∨ s.idlePc = .picked t

instance (s : EndSys Tid ι) (t : Tid) : Decidable (s.Waits t) := by
  unfold Waits
  infer_instance

/-- The history of the thread, as the state shows it. -/
def expected (s : EndSys Tid ι) (t : Tid) : List EndKind :=
  match s.origin t with
  | none => []
  | some .static => if s.Closed t then [.inited, .ended, .unlinked] else [.inited]
  | some .dynamic =>
    if ¬ s.Closed t then [.created]
    else if s.Waits t then [.created, .ended]
    else if s.idlePc = .stackFreed t then [.created, .ended, .freedStack]
    else cleanedUp

/-- What the state remembers of the threads. -/
structure Inv (idle : Tid) (tr : List (Tid × EndKind)) (s : EndSys Tid ι) : Prop where
  calm : s.kernel.Calm
  shown : ∀ t, history tr t = s.expected t
  unborn : ∀ t, s.origin t = none → (s.kernel.thread t).stat = .init
  system : ∀ t, (s.kernel.thread t).isSystemObject = true ↔ s.origin t = some .static ∧ ¬ s.Closed t
  object : ∀ t, s.threadObject t = true → s.origin t ≠ none
  timer : ∀ t, s.timerObject t = true → s.origin t ≠ none ∧ ¬ s.Closed t
  container : ∀ t, s.origin t ≠ none → .unlinked ∉ s.expected t → t ∈ s.container
  defunct : ∀ t ∈ s.kernel.list .defunct, s.origin t = some .dynamic
  nodup : (s.kernel.list .defunct).Nodup
  hands : ∀ t, s.idlePc = .picked t ∨ s.idlePc = .stackFreed t →
    s.origin t = some .dynamic ∧ s.Closed t ∧ t ∉ s.kernel.list .defunct
  idle : s.origin idle ≠ some .dynamic
  gone : ∀ t, s.origin t = some .dynamic → s.Closed t → t ∉ s.kernel.list .defunct →
    s.kernel.currentThread ≠ some t

theorem inv_boot (idle : Tid) (prio : Tid → ℕ) : Inv idle [] (boot prio : EndSys Tid ι) := by
  refine ⟨⟨nofun, nofun⟩, fun _ => rfl, fun _ _ => rfl, ?_, nofun, nofun, ?_, nofun, nodup_nil,
    ?_, nofun, nofun⟩
  · exact fun t => iff_of_false nofun nofun
  · exact fun t ht => absurd rfl ht
  · rintro t (ht | ht) <;> cases ht

theorem Inv.not_ready (h : Inv idle tr s) (ht : s.Closed t) (p : ℕ) :
    t ∉ s.kernel.list (.ready p) := by
  intro hmem
  have hready := h.calm.queued p t hmem
  rw [Closed, hready] at ht
  cases ht

theorem expected_congr (hstat : s'.Closed t ↔ s.Closed t)
    (hdefunct : t ∈ s'.kernel.list .defunct ↔ t ∈ s.kernel.list .defunct)
    (horigin : s'.origin t = s.origin t) (hpc : s'.idlePc = s.idlePc) :
    s'.expected t = s.expected t := by
  have hwaits : s'.Waits t ↔ s.Waits t := by rw [Waits, Waits, hdefunct, hpc]
  simp only [expected, hstat, hwaits, horigin, hpc]

theorem Inv.moves (h : Inv idle tr s) {x : Option Tid} (hk : Kernel.Moves x s.kernel k')
    (hx : ∀ t, x = some t → s.origin t ≠ none) : Inv idle tr { s with kernel := k' } := by
  have hclosed : ∀ t, ({ s with kernel := k' } : EndSys Tid ι).Closed t ↔ s.Closed t := hk.closed
  have hexpected : ∀ t, ({ s with kernel := k' } : EndSys Tid ι).expected t = s.expected t :=
    fun t => expected_congr (hclosed t) (by rw [hk.defunct]) rfl rfl
  refine ⟨hk.calm h.calm, ?_, ?_, ?_, h.object, ?_, ?_, ?_, ?_, ?_, h.idle, ?_⟩
  · exact fun t => (h.shown t).trans (hexpected t).symm
  · intro t ht
    refine hk.init t ?_ (h.unborn t ht)
    exact fun he => hx t he.symm ht
  · intro t
    rw [hk.object, hclosed]
    exact h.system t
  · intro t ht
    rw [hclosed]
    exact h.timer t ht
  · intro t ht hu
    rw [hexpected] at hu
    exact h.container t ht hu
  · rw [hk.defunct]
    exact h.defunct
  · rw [hk.defunct]
    exact h.nodup
  · intro t ht
    rw [hclosed, hk.defunct]
    exact h.hands t ht
  · intro t ht hc hd hcur
    rw [hclosed] at hc
    rw [hk.defunct] at hd
    rcases hk.current t hcur with hcur | hne
    · exact h.gone t ht hc hd hcur
    · exact hne hc

/-- The event that begins the history of a thread. -/
def first : Origin → EndKind
  | .static => .inited
  | .dynamic => .created

theorem Inv.newThread (h : Inv idle tr s) (ht : s.origin t = none) {o : Origin}
    (ho : o = .dynamic → t ≠ idle) : Inv idle (tr ++ [(t, first o)]) (s.newThread t o) := by
  have hinit := h.unborn t ht
  have hother : ∀ u, u ≠ t → (s.newThread t o).kernel.thread u = s.kernel.thread u :=
    fun u hu => update_of_ne hu ..
  have hself : (s.newThread t o).kernel.thread t =
      Kernel.rtThreadInit (s.kernel.thread t).initPriority (decide (o = .static)) false :=
    update_self ..
  have horigin : ∀ u, u ≠ t → (s.newThread t o).origin u = s.origin u :=
    fun u hu => update_of_ne hu ..
  have horigin_self : (s.newThread t o).origin t = some o := update_self ..
  have hopen : ¬ (s.newThread t o).Closed t := by
    rw [Closed, hself]
    nofun
  have hclosed : ∀ u, u ≠ t → ((s.newThread t o).Closed u ↔ s.Closed u) := by
    intro u hu
    rw [Closed, hother u hu, Closed]
  have hexpected : ∀ u, u ≠ t → (s.newThread t o).expected u = s.expected u :=
    fun u hu => expected_congr (hclosed u hu) .rfl (horigin u hu) rfl
  have hexpected_self : (s.newThread t o).expected t = [first o] := by
    rw [expected, horigin_self]
    cases o <;> simp [hopen, first]
  -- the new thread has been in no list
  have hdynamic : ∀ u, s.origin u = some .dynamic → u ≠ t := by
    rintro u hu rfl
    rw [ht] at hu
    cases hu
  refine ⟨⟨?_, ?_⟩, ?_, ?_, ?_, ?_, ?_, ?_, ?_, h.nodup, ?_, ?_, ?_⟩
  · intro p u hu
    have hready := h.calm.queued p u hu
    have hut : u ≠ t := by
      rintro rfl
      rw [hinit] at hready
      cases hready
    rwa [hother u hut]
  · intro u hu
    rw [hother u (hdynamic u (h.defunct u hu))]
    exact h.calm.defunct u hu
  · intro u
    rw [history_append, h.shown]
    by_cases hut : u = t
    · subst hut
      rw [hexpected_self, expected, ht, history_cons_self]
      rfl
    · rw [hexpected u hut, history_cons_of_ne (Ne.symm hut), history_nil, append_nil]
  · intro u hu
    by_cases hut : u = t
    · subst hut
      rw [hself]
      rfl
    · rw [horigin u hut] at hu
      rw [hother u hut]
      exact h.unborn u hu
  · intro u
    by_cases hut : u = t
    · subst hut
      rw [hself, horigin_self]
      cases o <;> simp [Kernel.rtThreadInit, hopen]
    · rw [hother u hut, horigin u hut, hclosed u hut]
      exact h.system u
  · intro u hu
    by_cases hut : u = t
    · subst hut
      rw [horigin_self]
      nofun
    · rw [horigin u hut]
      exact h.object u ((update_of_ne hut ..).symm.trans hu)
  · intro u hu
    by_cases hut : u = t
    · subst hut
      exact ⟨by rw [horigin_self]; nofun, hopen⟩
    · rw [horigin u hut, hclosed u hut]
      exact h.timer u ((update_of_ne hut ..).symm.trans hu)
  · intro u hu hunlinked
    by_cases hut : u = t
    · exact hut ▸ mem_cons_self
    · rw [horigin u hut] at hu
      rw [hexpected u hut] at hunlinked
      exact mem_cons_of_mem _ (h.container u hu hunlinked)
  · intro u hu
    have hd := h.defunct u hu
    rw [horigin u (hdynamic u hd)]
    exact hd
  · intro u hu
    have hd := h.hands u hu
    rw [horigin u (hdynamic u hd.1), hclosed u (hdynamic u hd.1)]
    exact hd
  · by_cases hut : idle = t
    · subst hut
      rw [horigin_self]
      exact fun he => ho (some_inj.1 he) rfl
    · rw [horigin idle hut]
      exact h.idle
  · intro u hu hc
    by_cases hut : u = t
    · exact absurd (hut ▸ hc) hopen
    · rw [horigin u hut] at hu
      rw [hclosed u hut] at hc
      exact h.gone u hu hc

/-- The thread is closed and in no ready queue; the others are as before. -/
structure Closes (t : Tid) (k k' : Kernel Tid ι) : Prop where
  others : ∀ u, u ≠ t → k'.thread u = k.thread u
  stat : (k'.thread t).stat = .close
  ready : ∀ p u, u ∈ k'.list (.ready p) → u ∈ k.list (.ready p) ∧ u ≠ t
  current : k'.currentThread = k.currentThread

theorem defunct_rtListInsertAfter (k : Kernel Tid ι) (t : Tid) :
    (k.rtListInsertAfter .defunct t).list .defunct = t :: k.list .defunct := by
  simp [Kernel.rtListInsertAfter]

theorem ready_rtListInsertAfter (k : Kernel Tid ι) (t : Tid) (p : ℕ) :
    (k.rtListInsertAfter .defunct t).list (.ready p) = k.list (.ready p) := by
  simp [Kernel.rtListInsertAfter]

theorem Closes.defunct {k : Kernel Tid ι} (h : Closes t k k') :
    Closes t k (k'.rtListInsertAfter .defunct t) := by
  refine ⟨h.others, h.stat, ?_, h.current⟩
  intro p u hu
  rw [ready_rtListInsertAfter] at hu
  exact h.ready p u hu

/-- What the histories get when a thread ends. -/
def endKinds : Origin → List EndKind
  | .static => [.ended, .unlinked]
  | .dynamic => [.ended]

/-- **A thread ends**: a static one is unlinked at once, a dynamic one waits for the idle thread. -/
theorem Inv.ends (h : Inv idle tr s) {o : Origin} (ht : s.origin t = some o) (hopen : ¬ s.Closed t)
    (hk : Closes t s.kernel s'.kernel) (hsystem : (s'.kernel.thread t).isSystemObject = false)
    (horigin : s'.origin = s.origin) (hpc : s'.idlePc = s.idlePc)
    (hobject : ∀ u, s'.threadObject u = true → s.threadObject u = true)
    (htimer : ∀ u, s'.timerObject u = true → s.timerObject u = true ∧ u ≠ t)
    (hdefunct : s'.kernel.list .defunct =
      if o = .dynamic then t :: s.kernel.list .defunct else s.kernel.list .defunct)
    (hcontainer : ∀ u ∈ s.container, u ≠ t ∨ o = .dynamic → u ∈ s'.container)
    (hout : history out t = endKinds o) (hothers : ∀ u, u ≠ t → history out u = []) :
    Inv idle (tr ++ out) s' := by
  have hclosed_self : s'.Closed t := hk.stat
  have hclosed : ∀ u, u ≠ t → (s'.Closed u ↔ s.Closed u) := by
    intro u hu
    rw [Closed, hk.others u hu, Closed]
  have hnew : t ∉ s.kernel.list .defunct := fun hmem => hopen (h.calm.defunct t hmem)
  have hmem : ∀ u, u ≠ t → (u ∈ s'.kernel.list .defunct ↔ u ∈ s.kernel.list .defunct) := by
    intro u hu
    rw [hdefunct]
    split
    · rw [mem_cons, or_iff_right hu]
    · rfl
  have hself : t ∈ s'.kernel.list .defunct ↔ o = .dynamic := by
    rw [hdefunct]
    split
    · next ho => exact iff_of_true mem_cons_self ho
    · next ho => exact iff_of_false hnew ho
  have hexpected : ∀ u, u ≠ t → s'.expected u = s.expected u := fun u hu =>
    expected_congr (hclosed u hu) (hmem u hu) (congrFun horigin u) hpc
  have hexpected_self : s'.expected t = s.expected t ++ endKinds o := by
    rw [expected, expected, horigin, ht]
    cases o with
    | static => simp [hclosed_self, hopen, endKinds]
    | dynamic =>
      have hwaits : s'.Waits t := .inl (hself.2 rfl)
      simp [hclosed_self, hopen, hwaits, endKinds]
  have hhands : ∀ u, s.idlePc = .picked u ∨ s.idlePc = .stackFreed u → u ≠ t := by
    rintro u hu rfl
    exact hopen (h.hands u hu).2.1
  refine ⟨⟨?_, ?_⟩, ?_, ?_, ?_, ?_, ?_, ?_, ?_, ?_, ?_, ?_, ?_⟩
  · intro p u hu
    obtain ⟨hu, hut⟩ := hk.ready p u hu
    rw [hk.others u hut]
    exact h.calm.queued p u hu
  · intro u hu
    by_cases hut : u = t
    · exact hut ▸ hk.stat
    · rw [hk.others u hut]
      exact h.calm.defunct u ((hmem u hut).1 hu)
  · intro u
    rw [history_append, h.shown]
    by_cases hut : u = t
    · subst hut
      rw [hout, hexpected_self]
    · rw [hothers u hut, hexpected u hut, append_nil]
  · intro u hu
    rw [horigin] at hu
    have hut : u ≠ t := by
      rintro rfl
      rw [ht] at hu
      cases hu
    rw [hk.others u hut]
    exact h.unborn u hu
  · intro u
    rw [horigin]
    by_cases hut : u = t
    · subst hut
      rw [hsystem]
      exact iff_of_false nofun fun hc => hc.2 hclosed_self
    · rw [hk.others u hut, hclosed u hut]
      exact h.system u
  · intro u hu
    rw [horigin]
    exact h.object u (hobject u hu)
  · intro u hu
    obtain ⟨hu, hut⟩ := htimer u hu
    rw [horigin, hclosed u hut]
    exact h.timer u hu
  · intro u hu hunlinked
    rw [horigin] at hu
    by_cases hut : u = t
    · subst hut
      rw [hexpected_self, mem_append, not_or] at hunlinked
      refine hcontainer u (h.container u hu hunlinked.1) (.inr ?_)
      cases o with
      | static => simp [endKinds] at hunlinked
      | dynamic => rfl
    · rw [hexpected u hut] at hunlinked
      exact hcontainer u (h.container u hu hunlinked) (.inl hut)
  · intro u hu
    rw [horigin]
    by_cases hut : u = t
    · subst hut
      rw [ht, hself.1 hu]
    · exact h.defunct u ((hmem u hut).1 hu)
  · rw [hdefunct]
    split
    · exact nodup_cons.2 ⟨hnew, h.nodup⟩
    · exact h.nodup
  · intro u hu
    rw [hpc] at hu
    have hut := hhands u hu
    rw [horigin, hclosed u hut, hmem u hut]
    exact h.hands u hu
  · rw [horigin]
    exact h.idle
  · intro u hu hc hd
    rw [horigin] at hu
    rw [hk.current]
    by_cases hut : u = t
    · subst hut
      rw [ht] at hu
      exact absurd (hself.2 (some_inj.1 hu)) hd
    · rw [hclosed u hut] at hc
      rw [hmem u hut] at hd
      exact h.gone u hu hc hd

theorem closes_setStat {k : Kernel Tid ι} (hready : ∀ p u, u ∈ k'.list (.ready p) →
      u ∈ k.list (.ready p) ∧ u ≠ t) (hthread : k'.thread = k.thread)
    (hcurrent : k'.currentThread = k.currentThread) (active : Bool) :
    Closes t k ((k'.setTimer t active).setStat t .close) ∧
      (((k'.setTimer t active).setStat t .close).thread t).isSystemObject =
        (k.thread t).isSystemObject := by
  refine ⟨⟨?_, ?_, hready, hcurrent⟩, ?_⟩
  · intro u hu
    rw [Kernel.setStat, Kernel.thread_modifyThread_of_ne _ _ hu, Kernel.setTimer,
      Kernel.thread_modifyThread_of_ne _ _ hu, hthread]
  · rw [Kernel.setStat, Kernel.thread_modifyThread_self]
  · rw [Kernel.setStat, Kernel.thread_modifyThread_self, Kernel.setTimer,
      Kernel.thread_modifyThread_self, hthread]

theorem ready_remove (k : Kernel Tid ι) (t : Tid) (p : ℕ) (u : Tid)
    (hu : u ∈ (k.rtScheduleRemoveThread t).list (.ready p)) : u ∈ k.list (.ready p) ∧ u ≠ t := by
  rw [Kernel.list_rtScheduleRemoveThread] at hu
  simpa using mem_filter.1 hu

theorem closes_closeThread {k : Kernel Tid ι} (h : k.Calm) (hopen : (k.thread t).stat ≠ .close) :
    Closes t k (k.closeThread t) ∧
      ((k.closeThread t).thread t).isSystemObject = (k.thread t).isSystemObject ∧
      (k.closeThread t).list .defunct = k.list .defunct := by
  rw [Kernel.closeThread]
  split
  · obtain ⟨hcloses, hsystem⟩ := closes_setStat (k := k) (ready_remove k t)
      (Kernel.thread_rtScheduleRemoveThread ..) (Kernel.currentThread_rtScheduleRemoveThread ..) false
    refine ⟨hcloses, hsystem, ?_⟩
    refine (Kernel.list_rtScheduleRemoveThread ..).trans (Kernel.filter_of_not_mem ?_)
    exact fun hmem => hopen (h.defunct t hmem)
  · next hinit =>
    -- a thread that has not been started is in no ready queue
    have hready : ∀ p u, u ∈ k.list (.ready p) → u ∈ k.list (.ready p) ∧ u ≠ t := by
      intro p u hu
      refine ⟨hu, ?_⟩
      rintro rfl
      rw [h.queued p u hu] at hinit
      exact hinit nofun
    obtain ⟨hcloses, hsystem⟩ := closes_setStat hready rfl rfl false
    exact ⟨hcloses, hsystem, rfl⟩

theorem closes_exitSection {k : Kernel Tid ι} (h : k.Calm) (hopen : (k.thread t).stat ≠ .close) :
    Closes t k (k.exitSection t) ∧
      ((k.exitSection t).thread t).isSystemObject = (k.thread t).isSystemObject ∧
      (k.exitSection t).list .defunct =
        if (k.thread t).isSystemObject && !(k.thread t).cleanup then k.list .defunct
        else t :: k.list .defunct := by
  have hother : ∀ u, u ≠ t → (((k.rtScheduleRemoveThread t).setStat t .close).setTimer t
      false).thread u = k.thread u := by
    intro u hu
    rw [Kernel.setTimer, Kernel.thread_modifyThread_of_ne _ _ hu, Kernel.setStat,
      Kernel.thread_modifyThread_of_ne _ _ hu, Kernel.thread_rtScheduleRemoveThread]
  have hself : (((k.rtScheduleRemoveThread t).setStat t .close).setTimer t false).thread t =
      { k.thread t with stat := .close, timerActive := false } := by
    rw [Kernel.setTimer, Kernel.thread_modifyThread_self, Kernel.setStat,
      Kernel.thread_modifyThread_self, Kernel.thread_rtScheduleRemoveThread]
  have hcurrent : (((k.rtScheduleRemoveThread t).setStat t .close).setTimer t
      false).currentThread = k.currentThread := Kernel.currentThread_rtScheduleRemoveThread ..
  have hdefunct : (((k.rtScheduleRemoveThread t).setStat t .close).setTimer t
      false).list .defunct = k.list .defunct :=
    (Kernel.list_rtScheduleRemoveThread ..).trans
      (Kernel.filter_of_not_mem fun hmem => hopen (h.defunct t hmem))
  have hready := ready_remove k t
  rw [Kernel.exitSection]
  simp only [hself]
  have hcloses : Closes t k (((k.rtScheduleRemoveThread t).setStat t .close).setTimer t false) := by
    refine ⟨hother, ?_, hready, hcurrent⟩
    rw [hself]
  have hsystem := congrArg Thread.isSystemObject hself
  split
  · exact ⟨hcloses, hsystem, hdefunct⟩
  · refine ⟨hcloses.defunct, hsystem, ?_⟩
    rw [defunct_rtListInsertAfter, hdefunct]

theorem timer_of_update {f : Tid → Bool} {u : Tid} (hu : update f t false u = true) :
    f u = true ∧ u ≠ t := by
  by_cases hut : u = t
  · subst hut
    rw [update_self] at hu
    cases hu
  · rw [update_of_ne hut] at hu
    exact ⟨hu, hut⟩

theorem Inv.endStatic (h : Inv idle tr s) (ht : s.origin t = some .static) (hopen : ¬ s.Closed t)
    (hk : Closes t s.kernel k') (hdefunct : k'.list .defunct = s.kernel.list .defunct)
    (hs' : s' = { s with kernel := k', timerObject := update s.timerObject t false }) :
    Inv idle (tr ++ (t, .ended) :: (s'.rtObjectDetach t).2) (s'.rtObjectDetach t).1 := by
  subst hs'
  have hmem : t ∈ s.container := by
    refine h.container t (by rw [ht]; nofun) ?_
    simp [expected, ht, hopen]
  have hself := Kernel.thread_modifyThread_self (k := k') (t := t)
    (f := fun th => { th with isSystemObject := false })
  refine h.ends ht hopen ⟨?_, ?_, hk.ready, hk.current⟩ ?_ rfl rfl ?_ ?_ ?_ ?_ ?_ ?_
  · intro u hu
    exact (Kernel.thread_modifyThread_of_ne k' (fun th => { th with isSystemObject := false })
      hu).trans (hk.others u hu)
  · exact (congrArg Thread.stat hself).trans hk.stat
  · exact congrArg Thread.isSystemObject hself
  · exact fun u hu => (timer_of_update hu).1
  · exact fun u hu => timer_of_update hu
  · exact hdefunct
  · intro u hu hne
    have hut := hne.resolve_right nofun
    exact mem_filter.2 ⟨hu, by simpa using hut⟩
  · rw [rtObjectDetach, if_pos hmem, history_cons_self, history_cons_self]
    rfl
  · intro u hu
    rw [rtObjectDetach, if_pos hmem, history_cons_of_ne (Ne.symm hu),
      history_cons_of_ne (Ne.symm hu), history_nil]

theorem Inv.endDynamic (h : Inv idle tr s) (ht : s.origin t = some .dynamic)
    (hopen : ¬ s.Closed t) (hk : Closes t s.kernel k')
    (hsystem : (k'.thread t).isSystemObject = (s.kernel.thread t).isSystemObject)
    (hdefunct : k'.list .defunct = t :: s.kernel.list .defunct)
    (hs' : s' = { s with kernel := k', timerObject := update s.timerObject t false }) :
    Inv idle (tr ++ [(t, EndKind.ended)]) s' := by
  subst hs'
  refine h.ends ht hopen hk ?_ rfl rfl (fun _ => id) (fun u hu => timer_of_update hu) hdefunct
    (fun _ hu _ => hu) ?_ ?_
  · refine hsystem.trans (Bool.eq_false_iff.2 fun hsys => ?_)
    have hstatic := ((h.system t).1 hsys).1
    rw [ht] at hstatic
    cases hstatic
  · rw [history_cons_self]
    rfl
  · intro u hu
    rw [history_cons_of_ne (Ne.symm hu), history_nil]

theorem endTimer_eq_some (hs : s.endTimer t k' = some s') : s.timerObject t = true ∧
    s' = { s with kernel := k', timerObject := update s.timerObject t false } := by
  rw [endTimer, ite_none_right_eq_some] at hs
  exact ⟨hs.1, (some_inj.1 hs.2).symm⟩

theorem Inv.dynamic (h : Inv idle tr s) (ht : s.timerObject t = true)
    (hsystem : ¬ (s.kernel.thread t).isSystemObject = true) :
    s.origin t = some .dynamic ∧ ¬ s.Closed t := by
  obtain ⟨hborn, hopen⟩ := h.timer t ht
  refine ⟨?_, hopen⟩
  cases ho : s.origin t with
  | none => exact absurd ho hborn
  | some o =>
    cases o with
    | static => exact absurd ((h.system t).2 ⟨ho, hopen⟩) hsystem
    | dynamic => rfl

theorem inv_exit (h : Inv idle tr s) (hc : s.Hooked t = false)
    (hs : s.rtThreadExit t = some (s', out)) : Inv idle (tr ++ out) s' := by
  obtain ⟨s₁, hs₁, he⟩ := map_eq_some_iff.1 hs
  obtain ⟨htimer, rfl⟩ := endTimer_eq_some hs₁
  obtain ⟨-, hopen⟩ := h.timer t htimer
  obtain ⟨hk, hsystem, hdefunct⟩ := closes_exitSection h.calm hopen
  by_cases hsys : (s.kernel.thread t).isSystemObject = true
  · have hcleanup : (s.kernel.thread t).cleanup = false := by
      rw [Hooked, hsys, Bool.true_and] at hc
      exact hc
    simp only [hsys, hcleanup, Bool.not_false, Bool.and_self, if_true] at he hdefunct
    cases he
    exact h.endStatic ((h.system t).1 hsys).1 hopen hk hdefunct rfl
  · simp only [hsys, Bool.false_and, Bool.false_eq_true, if_false] at he hdefunct
    cases he
    exact h.endDynamic (h.dynamic htimer hsys).1 hopen hk hsystem hdefunct rfl

theorem inv_detach (h : Inv idle tr s) (hc : s.Hooked t = false)
    (hs : s.rtThreadDetach t = some (s', out)) : Inv idle (tr ++ out) s' := by
  rw [rtThreadDetach, ite_none_right_eq_some] at hs
  obtain ⟨⟨-, hsys⟩, hs⟩ := hs
  obtain ⟨s₁, hs₁, he⟩ := map_eq_some_iff.1 hs
  obtain ⟨hstatic, hopen⟩ := (h.system t).1 hsys
  obtain ⟨hk, -, hdefunct⟩ := closes_closeThread h.calm hopen
  have hcleanup : (s.kernel.thread t).cleanup = false := by
    rw [Hooked, hsys, Bool.true_and] at hc
    exact hc
  simp only [hcleanup, Bool.false_eq_true, if_false] at he
  cases he
  exact h.endStatic hstatic hopen hk hdefunct (endTimer_eq_some hs₁).2

theorem inv_delete (h : Inv idle tr s) (hs : s.rtThreadDelete t = some (s', out)) :
    Inv idle (tr ++ out) s' := by
  rw [rtThreadDelete, ite_none_right_eq_some] at hs
  obtain ⟨⟨-, hsys⟩, hs⟩ := hs
  obtain ⟨s₁, hs₁, he⟩ := map_eq_some_iff.1 hs
  obtain ⟨htimer, rfl⟩ := endTimer_eq_some hs₁
  obtain ⟨hdynamic, hopen⟩ := h.dynamic htimer hsys
  obtain ⟨hk, hsystem, hdefunct⟩ := closes_closeThread h.calm hopen
  cases he
  refine h.endDynamic hdynamic hopen hk.defunct hsystem ?_ rfl
  rw [defunct_rtListInsertAfter, hdefunct]

/-! ### The idle thread -/

theorem Inv.pick (h : Inv idle tr s) (hcur : s.kernel.currentThread = some idle)
    (hpc : s.idlePc = .outside) {l : List Tid} (hl : s.kernel.list .defunct = t :: l) :
    Inv idle tr { s with kernel := s.kernel.rtListRemove t, idlePc := .picked t } := by
  have hmem : t ∈ s.kernel.list .defunct := by
    rw [hl]
    exact mem_cons_self
  have hdefunct : ∀ u, u ∈ (s.kernel.rtListRemove t).list .defunct ↔
      u ∈ s.kernel.list .defunct ∧ u ≠ t := by
    intro u
    simp [Kernel.rtListRemove]
  have hexpected : ∀ u, ({ s with kernel := s.kernel.rtListRemove t, idlePc := .picked t } :
      EndSys Tid ι).expected u = s.expected u := by
    intro u
    have hwaits : ({ s with kernel := s.kernel.rtListRemove t, idlePc := .picked t } :
        EndSys Tid ι).Waits u ↔ s.Waits u := by
      simp only [Waits, hdefunct, hpc, IdlePc.picked.injEq, reduceCtorEq, or_false]
      constructor
      · rintro (⟨hu, -⟩ | rfl)
        · exact hu
        · exact hmem
      · intro hu
        by_cases hut : u = t
        · exact .inr hut.symm
        · exact .inl ⟨hu, hut⟩
    have hclosed : ({ s with kernel := s.kernel.rtListRemove t, idlePc := .picked t } :
        EndSys Tid ι).Closed u ↔ s.Closed u := .rfl
    simp [expected, hwaits, hclosed, hpc]
  refine ⟨⟨?_, ?_⟩, fun u => (h.shown u).trans (hexpected u).symm, h.unborn, h.system, h.object,
    h.timer, ?_, ?_, h.nodup.filter _, ?_, h.idle, ?_⟩
  · exact fun p u hu => h.calm.queued p u (mem_filter.1 hu).1
  · exact fun u hu => h.calm.defunct u ((hdefunct u).1 hu).1
  · intro u hu hunlinked
    rw [hexpected] at hunlinked
    exact h.container u hu hunlinked
  · exact fun u hu => h.defunct u ((hdefunct u).1 hu).1
  · rintro u (hu | hu) <;> cases hu
    exact ⟨h.defunct t hmem, h.calm.defunct t hmem, fun hu => ((hdefunct t).1 hu).2 rfl⟩
  · intro u hu hc hd
    by_cases hut : u = t
    · -- the idle thread is not dynamic
      intro hcur'
      obtain rfl : idle = u := some_inj.1 (hcur.symm.trans hcur')
      exact h.idle hu
    · exact h.gone u hu hc fun hmem => hd ((hdefunct u).2 ⟨hmem, hut⟩)

theorem Inv.freeStack (h : Inv idle tr s) (hpc : s.idlePc = .picked t) :
    Inv idle (tr ++ [(t, EndKind.freedStack)]) { s with idlePc := .stackFreed t } := by
  obtain ⟨hdynamic, hclosed, hnot⟩ := h.hands t (.inl hpc)
  have hexpected : ∀ u, ({ s with idlePc := .stackFreed t } : EndSys Tid ι).expected u =
      s.expected u ++ if u = t then [EndKind.freedStack] else [] := by
    intro u
    by_cases hut : u = t
    · subst hut
      have hc : ({ s with idlePc := .stackFreed u } : EndSys Tid ι).Closed u := hclosed
      simp [expected, Waits, hdynamic, hclosed, hc, hnot, hpc]
    · have hc : ({ s with idlePc := .stackFreed t } : EndSys Tid ι).Closed u ↔ s.Closed u := .rfl
      simp [expected, Waits, hc, hpc, Ne.symm hut, hut]
  refine ⟨h.calm, ?_, h.unborn, h.system, h.object, h.timer, ?_, h.defunct, h.nodup, ?_, h.idle,
    h.gone⟩
  · intro u
    rw [history_append, h.shown, hexpected]
    by_cases hut : u = t
    · subst hut
      rw [history_cons_self, if_pos rfl, history_nil]
    · rw [history_cons_of_ne (Ne.symm hut), if_neg hut, history_nil]
  · intro u hu hunlinked
    rw [hexpected, mem_append, not_or] at hunlinked
    exact h.container u hu hunlinked.1
  · rintro u (hu | hu) <;> cases hu
    exact ⟨hdynamic, hclosed, hnot⟩

theorem Inv.deleteObject (h : Inv idle tr s) (hpc : s.idlePc = .stackFreed t)
    (hs : ({ s with idlePc := .outside } : EndSys Tid ι).rtObjectDelete t = some (s', out)) :
    Inv idle (tr ++ out) s' := by
  obtain ⟨hdynamic, hclosed, hnot⟩ := h.hands t (.inr hpc)
  have hmem : t ∈ s.container := by
    refine h.container t (by rw [hdynamic]; nofun) ?_
    simp [expected, Waits, hdynamic, hclosed, hnot, hpc]
  have hsystem : (s.kernel.thread t).isSystemObject = false := by
    refine Bool.eq_false_iff.2 fun hsys => ?_
    exact ((h.system t).1 hsys).2 hclosed
  rw [rtObjectDelete] at hs
  simp only [hsystem, Bool.false_eq_true, if_false] at hs
  rw [some_inj, Prod.mk.injEq] at hs
  obtain ⟨rfl, rfl⟩ := hs
  have hthread : (s.kernel.modifyThread t fun th => { th with isSystemObject := false }).thread =
      s.kernel.thread := by
    refine (congrArg (update s.kernel.thread t) ?_).trans (update_eq_self t _)
    rw [← hsystem]
  have hclosed' : ∀ u, (({ s with idlePc := .outside } : EndSys Tid ι).rtObjectDetach t).1.Closed
      u ↔ s.Closed u := fun u => by rw [Closed, rtObjectDetach, hthread, Closed]
  have hexpected : ∀ u, (({ s with idlePc := .outside } :
      EndSys Tid ι).rtObjectDetach t).1.expected u =
        s.expected u ++ if u = t then [EndKind.unlinked, .freedObject] else [] := by
    intro u
    have hwaits : (({ s with idlePc := .outside } : EndSys Tid ι).rtObjectDetach t).1.Waits u ↔
        s.Waits u := by simp [Waits, rtObjectDetach, hpc]
    have horigin : (({ s with idlePc := .outside } : EndSys Tid ι).rtObjectDetach t).1.origin u =
        s.origin u := rfl
    have hout : (({ s with idlePc := .outside } : EndSys Tid ι).rtObjectDetach t).1.idlePc =
        .outside := rfl
    by_cases hut : u = t
    · subst hut
      have hwaits' : ¬ s.Waits u := by simp [Waits, hnot, hpc]
      simp [expected, hclosed', hwaits, horigin, hout, hdynamic, hclosed, hwaits', hpc, cleanedUp]
    · simp [expected, hclosed', hwaits, horigin, hout, hpc, Ne.symm hut, hut]
  refine ⟨⟨?_, ?_⟩, ?_, ?_, ?_, ?_, ?_, ?_, h.defunct, h.nodup, ?_, h.idle, ?_⟩
  · intro p u hu
    exact (congrArg (fun f => (f u).stat) hthread).trans (h.calm.queued p u hu)
  · intro u hu
    exact (congrArg (fun f => (f u).stat) hthread).trans (h.calm.defunct u hu)
  · intro u
    rw [history_append, h.shown, hexpected, rtObjectDetach, if_pos hmem]
    by_cases hut : u = t
    · subst hut
      rw [if_pos rfl, singleton_append, history_cons_self, history_cons_self, history_nil]
    · rw [if_neg hut, singleton_append, history_cons_of_ne (Ne.symm hut),
        history_cons_of_ne (Ne.symm hut), history_nil]
  · intro u hu
    exact (congrArg (fun f => (f u).stat) hthread).trans (h.unborn u hu)
  · intro u
    rw [hclosed']
    exact (iff_of_eq (congrArg (fun f => (f u).isSystemObject = true) hthread)).trans (h.system u)
  · intro u hu
    exact h.object u (timer_of_update hu).1
  · intro u hu
    rw [hclosed']
    exact h.timer u hu
  · intro u hu hunlinked
    rw [hexpected, mem_append, not_or] at hunlinked
    refine mem_filter.2 ⟨h.container u hu hunlinked.1, ?_⟩
    by_cases hut : u = t
    · simp [hut] at hunlinked
    · simpa using hut
  · rintro u (hu | hu) <;> cases hu
  · intro u hu hc
    rw [hclosed'] at hc
    exact h.gone u hu hc

theorem Inv.not_system (h : Inv idle tr s) {l : List Tid} (hl : s.kernel.list .defunct = t :: l) :
    (s.kernel.thread t).isSystemObject = false := by
  have hmem : t ∈ s.kernel.list .defunct := by
    rw [hl]
    exact mem_cons_self
  exact Bool.eq_false_iff.2 fun hsys => ((h.system t).1 hsys).2 (h.calm.defunct t hmem)

theorem inv_idle (h : Inv idle tr s) (hcur : s.kernel.currentThread = some idle)
    (hs : s.idleExcute = some (s', out)) : Inv idle (tr ++ out) s' := by
  rw [idleExcute] at hs
  split at hs
  · next hpc =>
    split at hs
    · cases hs
      rwa [append_nil]
    · next t l hl =>
      have hsystem := h.not_system hl
      simp only [hsystem, Bool.false_eq_true, if_false] at hs
      cases hs
      rw [append_nil]
      exact h.pick hcur hpc hl
  · next t hpc =>
    cases hs
    exact h.freeStack hpc
  · next t hpc => exact h.deleteObject hpc hs

/-! ### Every run -/

theorem inv_step (h : Inv idle tr s) (hc : s.Plain a) (hs : s.step idle a = some (s', out)) :
    Inv idle (tr ++ out) s' := by
  cases a with
  | init t =>
    rw [step, ite_none_right_eq_some] at hs
    obtain ⟨ht, hs⟩ := hs
    cases hs
    exact h.newThread (o := .static) ht nofun
  | create t memory =>
    rw [step, ite_none_right_eq_some] at hs
    obtain ⟨⟨ht, hne⟩, hs⟩ := hs
    cases memory with
    | false =>
      cases hs
      rwa [append_nil]
    | true =>
      cases hs
      exact h.newThread (o := .dynamic) ht fun _ => hne
  | setCleanup t cleanup =>
    cases hs
    rw [append_nil]
    exact h.moves (x := none) (Kernel.moves_modify rfl rfl) nofun
  | startup t =>
    rw [step, ite_none_right_eq_some] at hs
    obtain ⟨⟨hobject, hinit⟩, hs⟩ := hs
    cases hs
    rw [append_nil]
    refine h.moves (Kernel.moves_startup h.calm hinit) ?_
    rintro u ⟨⟩
    exact h.object t hobject
  | kernel op =>
    obtain ⟨k', hk', he⟩ := map_eq_some_iff.1 hs
    cases he
    rw [append_nil]
    exact h.moves (Kernel.moves_op h.calm hk') nofun
  | exit =>
    obtain ⟨t, ht, hs⟩ := bind_eq_some_iff.1 hs
    exact inv_exit h (hc t ht) hs
  | detach t => exact inv_detach h hc hs
  | delete t => exact inv_delete h hs
  | idle =>
    rw [step, ite_none_right_eq_some] at hs
    exact inv_idle h hs.1 hs.2

/-- How many steps the idle thread has to take. -/
def todo (s : EndSys Tid ι) : ℕ :=
  3 * (s.kernel.list .defunct).length +
    match s.idlePc with
    | .outside => 0
    | .picked _ => 2
    | .stackFreed _ => 1

theorem Inv.idle_step (h : Inv idle tr s) (hcur : s.kernel.currentThread = some idle) {n : ℕ}
    (htodo : s.todo = n + 1) :
    ∃ s' out, s.step idle .idle = some (s', out) ∧ s'.todo = n ∧
      s'.kernel.currentThread = some idle ∧ s'.origin = s.origin ∧
      ∀ t, s'.Closed t ↔ s.Closed t := by
  cases hpc : s.idlePc with
  | outside =>
    cases hl : s.kernel.list .defunct with
    | nil =>
      rw [todo, hpc, hl] at htodo
      cases htodo
    | cons t l =>
      have hsystem := h.not_system hl
      have hrest : (s.kernel.rtListRemove t).list .defunct = l := by
        show (s.kernel.list .defunct).filter (· ≠ t) = l
        have hnodup := h.nodup
        rw [hl, nodup_cons] at hnodup
        rw [hl, filter_cons_of_neg (by simp), Kernel.filter_of_not_mem hnodup.1]
      refine ⟨{ s with kernel := s.kernel.rtListRemove t, idlePc := .picked t }, [], ?_, ?_, hcur, rfl,
        fun _ => .rfl⟩
      · rw [step, if_pos hcur, idleExcute, hpc]
        simp only [hl, hsystem, Bool.false_eq_true, if_false]
      · rw [todo, hpc, hl] at htodo
        rw [todo, hrest]
        simp only [length_cons] at htodo ⊢
        omega
  | picked t =>
    refine ⟨{ s with idlePc := .stackFreed t }, [(t, .freedStack)], ?_, ?_, hcur, rfl,
      fun _ => .rfl⟩
    · rw [step, if_pos hcur, idleExcute, hpc]
    · rw [todo, hpc] at htodo
      simp only [todo] at htodo ⊢
      omega
  | stackFreed t =>
    obtain ⟨-, hclosed, -⟩ := h.hands t (.inr hpc)
    have hsystem : (s.kernel.thread t).isSystemObject = false :=
      Bool.eq_false_iff.2 fun hsys => ((h.system t).1 hsys).2 hclosed
    refine ⟨(({ s with idlePc := .outside } : EndSys Tid ι).rtObjectDetach t).1,
      (({ s with idlePc := .outside } : EndSys Tid ι).rtObjectDetach t).2 ++
        [(t, EndKind.freedObject)], ?_, ?_, hcur, rfl, ?_⟩
    · rw [step, if_pos hcur, idleExcute, hpc]
      simp only [rtObjectDelete, hsystem, Bool.false_eq_true, if_false]
    · rw [todo, hpc] at htodo
      simp only [todo, rtObjectDetach, Kernel.list_modifyThread] at htodo ⊢
      omega
    · intro u
      rw [Closed, Closed]
      by_cases hut : u = t
      · subst hut
        simp [rtObjectDetach]
      · simp [rtObjectDetach, Kernel.thread_modifyThread_of_ne, hut]

theorem Inv.finishes (h : Inv idle tr s) (hcur : s.kernel.currentThread = some idle) {n : ℕ}
    (htodo : s.todo = n) :
    ∃ s' out, exec (step idle) (fun _ _ => True) s (replicate n .idle) = some (s', out) ∧
      Inv idle (tr ++ out) s' ∧ s'.todo = 0 ∧ s'.origin = s.origin ∧
      ∀ t, s'.Closed t ↔ s.Closed t := by
  induction n generalizing tr s with
  | zero => exact ⟨s, [], rfl, by rwa [append_nil], htodo, rfl, fun _ => .rfl⟩
  | succ n ih =>
    obtain ⟨s₁, out₁, hs₁, htodo₁, hcur₁, horigin₁, hclosed₁⟩ := h.idle_step hcur htodo
    obtain ⟨s', out, hs', hinv, htodo', horigin, hclosed⟩ :=
      ih (inv_step h (show s.Plain .idle from trivial) hs₁) hcur₁ htodo₁
    refine ⟨s', out₁ ++ out, ?_, ?_, htodo', horigin.trans horigin₁,
      fun t => (hclosed t).trans (hclosed₁ t)⟩
    · rw [replicate_succ, exec, if_pos trivial, hs₁]
      simp only [hs', map_some]
    · rwa [← append_assoc]

theorem Inv.ended (h : Inv idle tr s) (hcreated : .created ∈ RtThread.history tr t)
    (hended : .ended ∈ RtThread.history tr t) : s.origin t = some .dynamic ∧ s.Closed t := by
  rw [h.shown, expected] at hcreated hended
  cases ho : s.origin t with
  | none => simp [ho] at hcreated
  | some o =>
    cases o with
    | static =>
      simp only [ho] at hcreated
      split at hcreated <;> simp at hcreated
    | dynamic =>
      refine ⟨rfl, ?_⟩
      by_contra hopen
      simp [ho, hopen] at hended

theorem Inv.cleansUp (h : Inv idle tr s) : CleansUp idle tr s := by
  refine ⟨?_, ?_, ?_, ?_⟩
  · intro t ht
    rw [h.shown, expected] at ht ⊢
    cases ho : s.origin t with
    | none => simp [ho] at ht
    | some o =>
      cases o with
      | static =>
        simp only
        split
        · exact .inr rfl
        · exact .inl rfl
      | dynamic =>
        simp only [ho] at ht
        split_ifs at ht <;> simp [cleanedUp] at ht
  · intro t ht
    rw [h.shown, expected] at ht ⊢
    cases ho : s.origin t with
    | none => simp [ho] at ht
    | some o =>
      cases o with
      | static =>
        simp only [ho] at ht
        split_ifs at ht <;> simp at ht
      | dynamic =>
        simp only
        split_ifs
        · exact ⟨[.freedStack, .unlinked, .freedObject], rfl⟩
        · exact ⟨[.unlinked, .freedObject], rfl⟩
        · exact prefix_rfl
        · exact ⟨[.ended, .freedStack, .unlinked, .freedObject], rfl⟩
  · intro t ht
    rw [h.shown, expected] at ht
    cases ho : s.origin t with
    | none => simp [ho] at ht
    | some o =>
      cases o with
      | static =>
        simp only [ho] at ht
        split_ifs at ht <;> simp at ht
      | dynamic =>
        simp only [ho] at ht
        by_cases hclosed : s.Closed t
        · by_cases hwaits : s.Waits t
          · simp [hclosed, hwaits] at ht
          · exact ⟨h.gone t ho hclosed fun hmem => hwaits (.inl hmem), h.not_ready hclosed⟩
        · simp [hclosed] at ht
  · intro hcur
    obtain ⟨s', out, hs', hinv, htodo, horigin, hclosed⟩ := h.finishes hcur rfl
    refine ⟨s.todo, s', out, hs', ?_⟩
    intro t hcreated hended
    obtain ⟨hdynamic, hc⟩ := h.ended hcreated hended
    have hnil : s'.kernel.list .defunct = [] ∧ s'.idlePc = .outside := by
      rw [todo] at htodo
      cases hpc : s'.idlePc with
      | outside =>
        refine ⟨eq_nil_of_length_eq_zero ?_, rfl⟩
        omega
      | picked t | stackFreed t =>
        rw [hpc] at htodo
        simp only at htodo
        omega
    rw [hinv.shown, expected, horigin, hdynamic]
    simp [(hclosed t).2 hc, Waits, hnil.1, hnil.2]

end EndSys

end RtThread
