import McCortexM3.Kernel.Ready
import McCortexM3.Run

/-!
# Interleaved thread calls

Threads and interrupt handlers call the functions of `thread.c` at any time.  A call is
preempted only where interrupts are enabled, so that it is a sequence of sections, and
the sections of the calls in flight interleave freely.  The status that a call checks
before its first section may have changed when the section runs.

## Main definitions

* `Call`, `Sys`, `Action`, `step` — the calls in flight, and the interleavings.
* `Undisturbed` — a section of `rt_thread_startup` or `rt_thread_resume` runs while the
  status that its call checked still holds.
* `QueuesRight` — the bitmap and the queues agree with the status of the threads.

## Main results

* `run_queuesRight` — in undisturbed runs the queues are always right, and every
  `rt_schedule` leaves the highest priority running.
* `not_queuesRight_resume` — two overlapping `rt_thread_resume` of one thread put it into
  its queue twice.
-/

set_option linter.all false

namespace RtThread

open Option List

/-- A call in flight, at its next section.  The flag says that a resume is the tail of
`rt_thread_startup`. -/
inductive Call (Tid : Type)
  | startup (t : Tid)
  | resumeRemove (t : Tid) (startup : Bool)
  | resumeInsert (t : Tid) (startup : Bool)
  | suspend (t : Tid) (stat : Stat)
  | schedule
  | sleepSchedule (t : Tid)
  | sleepReturn (t : Tid)
  deriving DecidableEq

/-- The kernel and the calls in flight. -/
structure Sys (Tid ι : Type) where
  kernel : Kernel Tid ι
  calls : List (Call Tid)

/-- What can happen next: a call is made, a call in flight runs its next section, or a
function that is one section runs. -/
inductive Action (Tid : Type)
  | startup (t : Tid)
  | resume (t : Tid)
  | suspend (t : Tid)
  | yield
  | exit
  | sleep
  | control (t : Tid) (p : ℕ)
  | timeout (t : Tid)
  | enterCritical
  | exitCritical
  | schedulerStart
  | run (c : Call Tid)

namespace Sys

variable [RtConfig] {Tid ι : Type} [DecidableEq Tid] [DecidableEq ι]

/-- The section of a call in flight; `calls` are the others.  Every return of
`rt_schedule` is shown with the kernel it leaves. -/
def runSection (k : Kernel Tid ι) (calls : List (Call Tid)) :
    Call Tid → Option (Sys Tid ι × List (Kernel Tid ι))
  | .startup t => some (⟨k.startupWrite t, .resumeRemove t true :: calls⟩, [])
  | .resumeRemove t startup =>
    some (⟨k.resumeSection t, .resumeInsert t startup :: calls⟩, [])
  | .resumeInsert t startup =>
    some (⟨k.rtScheduleInsertThread t,
      if startup && k.currentThread.isSome then .schedule :: calls else calls⟩, [])
  | .suspend t stat => (k.suspendSection t stat).map fun k => (⟨k, calls⟩, [])
  | .schedule => k.rtSchedule.map fun k => (⟨k, calls⟩, [k])
  | .sleepSchedule t => k.rtSchedule.map fun k => (⟨k, .sleepReturn t :: calls⟩, [k])
  | .sleepReturn t => some (⟨k.clearTimeout t, calls⟩, [])

/-- One step of an interleaving. -/
def step (s : Sys Tid ι) : Action Tid → Option (Sys Tid ι × List (Kernel Tid ι))
  | .startup t =>
    if (s.kernel.thread t).stat = .init then
      some ({ s with calls := .startup t :: s.calls }, [])
    else none
  | .resume t =>
    if (s.kernel.thread t).stat ≠ .suspend then some (s, [])
    else some ({ s with calls := .resumeRemove t false :: s.calls }, [])
  | .suspend t =>
    if (s.kernel.thread t).stat ≠ .ready ∧ (s.kernel.thread t).stat ≠ .running then some (s, [])
    else some ({ s with calls := .suspend t (s.kernel.thread t).stat :: s.calls }, [])
  | .yield => some ({ s with calls := .schedule :: s.calls }, [])
  | .exit =>
    s.kernel.currentThread.map fun t => (⟨s.kernel.exitSection t, .schedule :: s.calls⟩, [])
  | .sleep =>
    match s.kernel.currentThread with
    | some t =>
      (s.kernel.sleepSection t).map fun k => (⟨k, .sleepSchedule t :: s.calls⟩, [])
    | none => none
  | .control t p => some ({ s with kernel := s.kernel.rtThreadControl t p }, [])
  | .timeout t =>
    if (s.kernel.thread t).timerActive then
      match s.kernel.timeoutSection t with
      | some k => k.rtSchedule.map fun k => ({ s with kernel := k }, [k])
      | none => none
    else none
  | .enterCritical => some ({ s with kernel := s.kernel.rtEnterCritical }, [])
  | .exitCritical =>
    some (⟨s.kernel.rtExitCritical.1,
      if s.kernel.rtExitCritical.2 then .schedule :: s.calls else s.calls⟩, [])
  | .schedulerStart =>
    if s.kernel.currentThread = none then
      s.kernel.rtSystemSchedulerStart.map fun k => ({ s with kernel := k }, [])
    else none
  | .run c => if c ∈ s.calls then runSection s.kernel (s.calls.erase c) c else none

/-- A section of a startup or a resume finds the status that its call checked, and
priorities are in range. -/
def Undisturbed (s : Sys Tid ι) : Action Tid → Prop
  | .run (.startup t) => (s.kernel.thread t).stat = .init
  | .run (.resumeRemove t _) => (s.kernel.thread t).stat = .suspend
  | .run (.resumeInsert t _) => (s.kernel.thread t).stat = .suspend
  | .control _ p => p < priorityMax
  | _ => True

instance (s : Sys Tid ι) (a : Action Tid) : Decidable (s.Undisturbed a) := by
  unfold Undisturbed
  split <;> infer_instance

/-- The system after the scheduler and the threads have been initialised. -/
def boot (prio : Tid → ℕ) (isSystemObject cleanup : Tid → Bool) : Sys Tid ι :=
  ⟨.rtSystemSchedulerInit fun t =>
    Kernel.rtThreadInit (prio t) (isSystemObject t) (cleanup t), []⟩

variable {k k' : Kernel Tid ι} {s s' : Sys Tid ι} {calls : List (Call Tid)}

/-! ### The invariant of an interleaving -/

/-- The ready queues are right, and a thread being suspended has been started. -/
structure Inv (s : Sys Tid ι) : Prop where
  ready : s.kernel.ReadyInv
  started : ∀ t stat, .suspend t stat ∈ s.calls → (s.kernel.thread t).stat ≠ .init

/-- A started thread does not become uninitialised again. -/
def StaysStarted (k k' : Kernel Tid ι) : Prop :=
  ∀ t, (k.thread t).stat ≠ .init → (k'.thread t).stat ≠ .init

theorem StaysStarted.refl (k : Kernel Tid ι) : StaysStarted k k := fun _ => id

theorem StaysStarted.trans {k'' : Kernel Tid ι} (h : StaysStarted k k')
    (h' : StaysStarted k' k'') : StaysStarted k k'' := fun t ht => h' t (h t ht)

theorem StaysStarted.of_thread (h : k'.thread = k.thread) : StaysStarted k k' := by
  intro t ht
  rwa [h]

theorem staysStarted_modify {t : Tid} {f : Thread → Thread}
    (hf : (k.thread t).stat ≠ .init → (f (k.thread t)).stat ≠ .init) :
    StaysStarted k (k.modifyThread t f) := by
  intro u hu
  by_cases hut : u = t
  · subst hut
    simpa using hf hu
  · rwa [Kernel.thread_modifyThread_of_ne _ _ hut]

theorem staysStarted_setStat (k : Kernel Tid ι) (t : Tid) {st : Stat} (h : st ≠ .init) :
    StaysStarted k (k.setStat t st) := staysStarted_modify fun _ => h

theorem staysStarted_setTimer (k : Kernel Tid ι) (t : Tid) (active : Bool) :
    StaysStarted k (k.setTimer t active) := staysStarted_modify id

theorem staysStarted_setError (k : Kernel Tid ι) (t : Tid) (err : RtErr) :
    StaysStarted k (k.setError t err) := staysStarted_modify id

theorem staysStarted_setPriority (k : Kernel Tid ι) (t : Tid) (p : ℕ) :
    StaysStarted k (k.setPriority t p) := staysStarted_modify id

theorem staysStarted_rtListRemove (k : Kernel Tid ι) (t : Tid) :
    StaysStarted k (k.rtListRemove t) := .of_thread rfl

theorem staysStarted_insert (k : Kernel Tid ι) (t : Tid) :
    StaysStarted k (k.rtScheduleInsertThread t) := by
  refine (staysStarted_setStat k t ?_).trans (.of_thread (k.thread_rtScheduleInsertThread t))
  split <;> decide

theorem staysStarted_removeSet (k : Kernel Tid ι) (t : Tid) {st : Stat} (h : st ≠ .init) :
    StaysStarted k ((k.rtScheduleRemoveThread t).setStat t st) :=
  (StaysStarted.of_thread (k.thread_rtScheduleRemoveThread t)).trans (staysStarted_setStat _ t h)

theorem staysStarted_suspendSection {t : Tid} {st : Stat}
    (hs : k.suspendSection t st = some k') : StaysStarted k k' := by
  rw [Kernel.suspendSection] at hs
  split at hs
  · cases hs
  · cases hs
    exact (staysStarted_removeSet k t (by decide)).trans (staysStarted_setTimer _ t false)

theorem staysStarted_rtThreadSuspend {t : Tid} {r : Kernel Tid ι × RtErr}
    (hs : k.rtThreadSuspend t = some r) : StaysStarted k r.1 := by
  rw [Kernel.rtThreadSuspend] at hs
  split at hs
  · cases hs
    exact .refl k
  · obtain ⟨k', hk', rfl⟩ := map_eq_some_iff.1 hs
    exact staysStarted_suspendSection hk'

theorem staysStarted_switchTo (k : Kernel Tid ι) (cur next : Tid) (p : ℕ) (b : Bool) :
    StaysStarted k (k.switchTo cur next p b) := by
  have hstart : StaysStarted k ({ k with currentPriority := p, currentThread := some next } :
      Kernel Tid ι) := .of_thread rfl
  cases b with
  | true =>
    exact hstart.trans ((staysStarted_insert _ cur).trans
      (staysStarted_removeSet _ next (show Stat.running ≠ .init by decide)))
  | false =>
    exact hstart.trans (staysStarted_removeSet _ next (show Stat.running ≠ .init by decide))

theorem staysStarted_rtSchedule (hs : k.rtSchedule = some k') : StaysStarted k k' := by
  have hstay : ∀ cur, StaysStarted k ((k.rtScheduleRemoveThread cur).setStat cur .running) :=
    fun cur => staysStarted_removeSet k cur (by decide)
  rw [Kernel.rtSchedule] at hs
  split at hs
  · split at hs
    · split at hs
      · split at hs
        · cases hs
          exact hstay _
        · split at hs
          · cases hs
            exact staysStarted_switchTo k _ _ _ _
          · cases hs
            exact hstay _
      · cases hs
    · cases hs
      exact .refl k
  · cases hs
    exact .refl k

theorem staysStarted_rtThreadControl (k : Kernel Tid ι) (t : Tid) (p : ℕ) :
    StaysStarted k (k.rtThreadControl t p) := by
  rw [Kernel.rtThreadControl]
  split
  · exact ((StaysStarted.of_thread (k.thread_rtScheduleRemoveThread t)).trans
      (staysStarted_setPriority _ t p)).trans (staysStarted_insert _ t)
  · exact staysStarted_setPriority k t p

theorem staysStarted_timeoutSection {t : Tid} (hs : k.timeoutSection t = some k') :
    StaysStarted k k' := by
  rw [Kernel.timeoutSection] at hs
  split at hs
  · cases hs
    exact ((staysStarted_setTimer k t false).trans (staysStarted_setError _ t _)).trans
      ((staysStarted_rtListRemove _ t).trans (staysStarted_insert _ t))
  · cases hs

theorem staysStarted_exitSection (k : Kernel Tid ι) (t : Tid) :
    StaysStarted k (k.exitSection t) := by
  have hclose := (staysStarted_removeSet k t (show Stat.close ≠ .init by decide)).trans
    (staysStarted_setTimer _ t false)
  rw [Kernel.exitSection]
  split
  · exact hclose
  · exact hclose.trans (.of_thread rfl)

theorem staysStarted_sleepSection {t : Tid} (hs : k.sleepSection t = some k') :
    StaysStarted k k' := by
  obtain ⟨r, hr, rfl⟩ := map_eq_some_iff.1 hs
  exact (staysStarted_rtThreadSuspend hr).trans (staysStarted_setTimer _ t true)

theorem staysStarted_rtSystemSchedulerStart (hs : k.rtSystemSchedulerStart = some k') :
    StaysStarted k k' := by
  rw [Kernel.rtSystemSchedulerStart] at hs
  split at hs
  · next next p hget =>
    cases hs
    have hstart : StaysStarted k ({ k with currentThread := some next } : Kernel Tid ι) :=
      .of_thread rfl
    exact hstart.trans (staysStarted_removeSet _ next (show Stat.running ≠ .init by decide))
  · cases hs

theorem Inv.next (h : Inv s) (hr : k'.ReadyInv) (hk : StaysStarted s.kernel k')
    (hc : ∀ t stat, .suspend t stat ∈ calls → .suspend t stat ∈ s.calls) :
    Inv (⟨k', calls⟩ : Sys Tid ι) :=
  ⟨hr, fun t stat hmem => hk t (h.started t stat (hc t stat hmem))⟩

/-- What a step promises: the invariant, and every `rt_schedule` that returned in it with
the scheduler unlocked left the highest priority running. -/
def Good (r : Sys Tid ι × List (Kernel Tid ι)) : Prop :=
  Inv r.1 ∧ ∀ k ∈ r.2, k.schedulerLockNest = 0 → k.HighestRuns

theorem good_runSection (h : Inv s) {c : Call Tid} (hc : c ∈ s.calls)
    (hu : s.Undisturbed (.run c)) {r : Sys Tid ι × List (Kernel Tid ι)}
    (hs : runSection s.kernel (s.calls.erase c) c = some r) : Good r := by
  have herase : ∀ d, d ∈ s.calls.erase c → d ∈ s.calls := fun d => mem_of_mem_erase
  cases c with
  | startup t =>
    cases hs
    refine ⟨h.next (h.ready.startupWrite hu) ?_ fun u st hm => herase _ (by simpa using hm), by simp⟩
    exact (staysStarted_setPriority _ t _).trans (staysStarted_setStat _ t (by decide))
  | resumeRemove t startup =>
    cases hs
    exact ⟨h.next (h.ready.resumeSection hu)
      ((staysStarted_rtListRemove _ t).trans (staysStarted_setTimer _ t false))
      fun u st hm => herase _ (by simpa using hm), by simp⟩
  | resumeInsert t startup =>
    have hstat : (s.kernel.thread t).stat = .suspend := hu
    cases hs
    refine ⟨h.next (h.ready.insert (by simp [hstat]) (by simp [hstat]))
      (staysStarted_insert _ t) fun u st hm => herase _ ?_, by simp⟩
    split at hm
    · simpa using hm
    · exact hm
  | suspend t stat =>
    obtain ⟨k', hk', rfl⟩ := map_eq_some_iff.1 hs
    exact ⟨h.next (h.ready.suspendSection (h.started t stat hc) hk')
      (staysStarted_suspendSection hk') fun u st hm => herase _ hm, by simp⟩
  | schedule =>
    obtain ⟨k', hk', rfl⟩ := map_eq_some_iff.1 hs
    obtain ⟨hr, hhigh⟩ := h.ready.rtSchedule hk'
    exact ⟨h.next hr (staysStarted_rtSchedule hk') fun u st hm => herase _ hm,
      by simpa using hhigh⟩
  | sleepSchedule t =>
    obtain ⟨k', hk', rfl⟩ := map_eq_some_iff.1 hs
    obtain ⟨hr, hhigh⟩ := h.ready.rtSchedule hk'
    exact ⟨h.next hr (staysStarted_rtSchedule hk') fun u st hm => herase _ (by simpa using hm),
      by simpa using hhigh⟩
  | sleepReturn t =>
    cases hs
    refine ⟨h.next h.ready.clearTimeout ?_ fun u st hm => herase _ hm, by simp⟩
    rw [Kernel.clearTimeout]
    split
    · exact staysStarted_setError _ t .eok
    · exact .refl _

theorem good_step (h : Inv s) {a : Action Tid} (hu : s.Undisturbed a)
    {r : Sys Tid ι × List (Kernel Tid ι)} (hs : s.step a = some r) : Good r := by
  cases a with
  | startup t =>
    simp only [step, ite_none_right_eq_some, some.injEq] at hs
    obtain ⟨-, rfl⟩ := hs
    exact ⟨h.next h.ready (.refl _) fun u st hm => by simpa using hm, by simp⟩
  | resume t =>
    rw [step] at hs
    split at hs <;> cases hs
    · exact ⟨h, by simp⟩
    · exact ⟨h.next h.ready (.refl _) fun u st hm => by simpa using hm, by simp⟩
  | suspend t =>
    rw [step] at hs
    split at hs
    · cases hs
      exact ⟨h, by simp⟩
    · next hstat =>
      cases hs
      refine ⟨⟨h.ready, ?_⟩, by simp⟩
      intro u st hm
      simp only [mem_cons, Call.suspend.injEq] at hm
      rcases hm with ⟨rfl, -⟩ | hm
      · intro hinit
        have hinit' : (s.kernel.thread u).stat = .init := hinit
        exact hstat (by simp [hinit'])
      · exact h.started u st hm
  | yield =>
    cases hs
    exact ⟨h.next h.ready (.refl _) fun u st hm => by simpa using hm, by simp⟩
  | exit =>
    obtain ⟨t, ht, rfl⟩ := map_eq_some_iff.1 hs
    exact ⟨h.next (h.ready.exitSection ht) (staysStarted_exitSection _ t)
      fun u st hm => by simpa using hm, by simp⟩
  | sleep =>
    rw [step] at hs
    split at hs
    · next t ht =>
      obtain ⟨k', hk', rfl⟩ := map_eq_some_iff.1 hs
      exact ⟨h.next (h.ready.sleepSection hk') (staysStarted_sleepSection hk')
        fun u st hm => by simpa using hm, by simp⟩
    · cases hs
  | control t p =>
    cases hs
    exact ⟨h.next (h.ready.rtThreadControl hu) (staysStarted_rtThreadControl _ t p)
      fun u st hm => hm, by simp⟩
  | timeout t =>
    simp only [step, ite_none_right_eq_some] at hs
    obtain ⟨-, hs⟩ := hs
    split at hs
    · next k₁ hk₁ =>
      obtain ⟨k', hk', rfl⟩ := map_eq_some_iff.1 hs
      obtain ⟨hr, hhigh⟩ := (h.ready.timeoutSection hk₁).rtSchedule hk'
      exact ⟨h.next hr ((staysStarted_timeoutSection hk₁).trans (staysStarted_rtSchedule hk'))
        fun u st hm => hm, by simpa using hhigh⟩
    · cases hs
  | enterCritical =>
    cases hs
    exact ⟨h.next (h.ready.setLock _) (.of_thread rfl) fun u st hm => hm, by simp⟩
  | exitCritical =>
    cases hs
    refine ⟨h.next h.ready.rtExitCritical (.of_thread ?_) ?_, by simp⟩
    · rw [Kernel.rtExitCritical]
      split <;> rfl
    · intro u st hm
      split at hm
      · simpa using hm
      · exact hm
  | schedulerStart =>
    simp only [step, ite_none_right_eq_some] at hs
    obtain ⟨hcur, hs⟩ := hs
    obtain ⟨k', hk', rfl⟩ := map_eq_some_iff.1 hs
    exact ⟨h.next (h.ready.rtSystemSchedulerStart hcur hk')
      (staysStarted_rtSystemSchedulerStart hk') fun u st hm => hm, by simp⟩
  | run c =>
    simp only [step, ite_none_right_eq_some] at hs
    exact good_runSection h hs.1 hu hs.2

theorem inv_boot {prio : Tid → ℕ} (hprio : ∀ t, prio t < priorityMax)
    (isSystemObject cleanup : Tid → Bool) :
    Inv (boot prio isSystemObject cleanup : Sys Tid ι) := by
  refine ⟨.rtSystemSchedulerInit (fun _ => rfl) fun t => ⟨hprio t, hprio t⟩, ?_⟩
  intro t stat ht
  simp [boot] at ht

/-! ### Every run -/

/-- The bitmap is that of the non-empty queues; a ready thread is in the queue of its
current priority, once, and in no other; a suspended, closed or uninitialised thread is in
no queue. -/
structure QueuesRight (k : Kernel Tid ι) : Prop where
  bitmap : k.readyPriority.Represents priorityMax fun p => k.list (.ready p) ≠ []
  once : ∀ t, (k.thread t).stat = .ready → ∀ p,
    (k.list (.ready p)).count t = if p = (k.thread t).currentPriority then 1 else 0
  others : ∀ t, (k.thread t).stat = .suspend ∨ (k.thread t).stat = .close ∨
    (k.thread t).stat = .init → ∀ p, t ∉ k.list (.ready p)

theorem queuesRight_of_readyInv (h : k.ReadyInv) : QueuesRight k := by
  refine ⟨h.queue.bits, fun t ht p => ?_, fun t ht p => h.queue.not_mem ?_ p⟩
  · split
    · next hp =>
      subst hp
      exact count_eq_one_of_mem (h.queue.nodup _) (h.queue.ready_mem t (by simp) ht)
    · next hp =>
      exact count_eq_zero.2 fun hmem => hp (h.queue.queued p t hmem).2.2.symm
  · rcases ht with ht | ht | ht <;> simp [ht]

/-- In every undisturbed run the bitmap, the queues and the status of the threads agree,
and every `rt_schedule` that returns with the scheduler unlocked leaves the highest
priority running. -/
theorem run_queuesRight (prio : Tid → ℕ) (hprio : ∀ t, prio t < priorityMax)
    (isSystemObject cleanup : Tid → Bool) (tr : List (Kernel Tid ι)) (s : Sys Tid ι)
    (hrun : Run step Undisturbed (boot prio isSystemObject cleanup) tr s) :
    QueuesRight s.kernel ∧ ∀ k ∈ tr, k.schedulerLockNest = 0 → k.HighestRuns := by
  have hgood : Good (s, tr) := by
    refine hrun.invariant (fun tr s => Good (s, tr)) ⟨inv_boot hprio _ _, by simp⟩ ?_
    rintro tr s a s' out ⟨hinv, htr⟩ hu hs
    obtain ⟨hinv', hout⟩ := good_step hinv hu hs
    refine ⟨hinv', ?_⟩
    intro k hk
    rcases mem_append.1 hk with hk | hk
    · exact htr k hk
    · exact hout k hk
  exact ⟨queuesRight_of_readyInv hgood.1.ready, hgood.2⟩

end Sys

namespace Sys

/-- A startup whose sections run one after the other. -/
def startupActions (t : Tid) : List (Action Tid) :=
  [.startup t, .run (.startup t), .run (.resumeRemove t true), .run (.resumeInsert t true)]

/-- Thread 0 is started, then thread 1 of a higher priority, which `rt_schedule` runs. -/
theorem run_queuesRight_two :
    letI := config32
    ∃ (tr : List (Kernel (Fin 2) Unit)) (s : Sys (Fin 2) Unit),
      s.kernel.currentThread = some 1 ∧ QueuesRight s.kernel ∧
        ∀ k ∈ tr, k.schedulerLockNest = 0 → k.HighestRuns := by
  let _ := config32
  have hsome : ((exec step Undisturbed
      (boot (fun t => 10 - t.val) (fun _ => true) (fun _ => false) : Sys (Fin 2) Unit)
      (startupActions 0 ++ [Action.schedulerStart] ++ startupActions 1 ++
        [Action.run .schedule])).map fun r => r.1.kernel.currentThread) = some (some 1) := by
    decide +kernel
  obtain ⟨⟨s, tr⟩, hexec, hcur⟩ := map_eq_some_iff.1 hsome
  exact ⟨tr, s, hcur, run_queuesRight (fun t => 10 - t.val) (by decide) (fun _ => true)
    (fun _ => false) tr s (Run.of_exec hexec)⟩

/-- Thread 0 runs and resumes the suspended thread 1.  Between the two sections of that
resume an interrupt handler resumes thread 1 too, which is still marked suspended. -/
def overlappingResume : List (Action (Fin 2)) :=
  startupActions 0 ++ [Action.schedulerStart] ++ startupActions 1 ++
    [Action.suspend 1, .run (.suspend 1 .ready),
      .resume 1, .run (.resumeRemove 1 false),
      .resume 1, .run (.resumeRemove 1 false), .run (.resumeInsert 1 false),
      .run (.resumeInsert 1 false)]

/-- Two overlapping resumes put a thread into its ready queue **twice**. -/
theorem not_queuesRight_resume :
    ¬ ∀ [RtConfig] (prio : Fin 2 → ℕ) (_ : ∀ t, prio t < priorityMax)
      (isSystemObject cleanup : Fin 2 → Bool) (tr : List (Kernel (Fin 2) Unit))
      (s : Sys (Fin 2) Unit),
      Run step (fun _ _ => True) (boot prio isSystemObject cleanup) tr s →
        QueuesRight s.kernel ∧ ∀ k ∈ tr, k.schedulerLockNest = 0 → k.HighestRuns := by
  intro h
  let _ := config32
  have hsome : ((exec step (fun _ _ => True)
      (boot (fun t => 10 + t.val) (fun _ => true) (fun _ => false) : Sys (Fin 2) Unit)
      overlappingResume).map fun r => (decide ((r.1.kernel.thread 1).stat = .ready),
        (r.1.kernel.list (.ready 11)).count 1, (r.1.kernel.thread 1).currentPriority))
      = some (true, 2, 11) := by
    decide +kernel
  obtain ⟨⟨s, tr⟩, hexec, hr⟩ := map_eq_some_iff.1 hsome
  obtain ⟨hready, hcount, hprio⟩ : (s.kernel.thread 1).stat = .ready ∧
      (s.kernel.list (.ready 11)).count 1 = 2 ∧ (s.kernel.thread 1).currentPriority = 11 := by
    simpa using hr
  have hright := (h (fun t => 10 + t.val) (by decide) (fun _ => true) (fun _ => false) tr s
    (Run.of_exec hexec)).1.once 1 hready 11
  rw [hcount, hprio] at hright
  exact absurd hright (by decide)

end Sys

end RtThread
