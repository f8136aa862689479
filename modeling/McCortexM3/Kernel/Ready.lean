import McCortexM3.Kernel.Thread
import Mathlib.Data.List.Nodup

/-!
# The ready queues

The invariant of the scheduler's data: the bitmap is that of the non-empty queues, and the
threads in the queue of a priority are the ready threads of that priority, each once.
Inside a section one thread can be out of step with the queues while it is moved, so that
the invariant may except a thread.

## Main definitions

* `QueueInv x` — the queues are right, up to the excepted thread `x`.
* `ReadyInv` — the queues are right and only the current thread runs.
* `HighestRuns` — no ready thread has a higher priority than the current one.

## Main results

* `QueueInv.remove`, `QueueInv.insert` — the two operations move a thread out of the
  queues and back.
* `rtSchedule_spec` — `rt_schedule` keeps the invariant, and with the scheduler unlocked
  leaves the highest priority running.
-/

set_option linter.all false

namespace RtThread

open Function Option List

namespace Kernel

variable [RtConfig] {Tid ι : Type} [DecidableEq Tid] [DecidableEq ι]

/-! ### What the operations leave alone -/

section Fields

variable (k : Kernel Tid ι) (t u : Tid) (f : Thread → Thread)

@[simp] theorem thread_modifyThread_self : (k.modifyThread t f).thread t = f (k.thread t) :=
  update_self ..

theorem thread_modifyThread_of_ne {t u : Tid} (h : u ≠ t) :
    (k.modifyThread t f).thread u = k.thread u := update_of_ne h ..

@[simp] theorem list_modifyThread : (k.modifyThread t f).list = k.list := rfl

@[simp] theorem readyPriority_modifyThread :
    (k.modifyThread t f).readyPriority = k.readyPriority := rfl

@[simp] theorem currentThread_modifyThread :
    (k.modifyThread t f).currentThread = k.currentThread := rfl

@[simp] theorem schedulerLockNest_modifyThread :
    (k.modifyThread t f).schedulerLockNest = k.schedulerLockNest := rfl

@[simp] theorem thread_rtListRemove : (k.rtListRemove t).thread = k.thread := rfl

@[simp] theorem currentThread_rtListRemove :
    (k.rtListRemove t).currentThread = k.currentThread := rfl

@[simp] theorem thread_rtScheduleRemoveThread : (k.rtScheduleRemoveThread t).thread = k.thread := by
  rw [rtScheduleRemoveThread]
  split <;> rfl

@[simp] theorem currentThread_rtScheduleRemoveThread :
    (k.rtScheduleRemoveThread t).currentThread = k.currentThread := by
  rw [rtScheduleRemoveThread]
  split <;> rfl

@[simp] theorem schedulerLockNest_rtScheduleRemoveThread :
    (k.rtScheduleRemoveThread t).schedulerLockNest = k.schedulerLockNest := by
  rw [rtScheduleRemoveThread]
  split <;> rfl

@[simp] theorem list_rtScheduleRemoveThread (h : ListHead ι) :
    (k.rtScheduleRemoveThread t).list h = (k.list h).filter (· ≠ t) := by
  rw [rtScheduleRemoveThread]
  split <;> rfl

theorem readyPriority_rtScheduleRemoveThread :
    (k.rtScheduleRemoveThread t).readyPriority =
      if (k.list (.ready (k.thread t).currentPriority)).filter (· ≠ t) = [] then
        k.readyPriority.removeMask priorityMax (k.thread t).mask
      else k.readyPriority := by
  rw [rtScheduleRemoveThread, apply_ite readyPriority]
  rfl

@[simp] theorem currentThread_rtScheduleInsertThread :
    (k.rtScheduleInsertThread t).currentThread = k.currentThread := by
  rw [rtScheduleInsertThread]
  split <;> rfl

@[simp] theorem schedulerLockNest_rtScheduleInsertThread :
    (k.rtScheduleInsertThread t).schedulerLockNest = k.schedulerLockNest := by
  rw [rtScheduleInsertThread]
  split <;> rfl

theorem thread_rtScheduleInsertThread :
    (k.rtScheduleInsertThread t).thread =
      (k.setStat t (if k.currentThread = some t then .running else .ready)).thread := by
  rw [rtScheduleInsertThread]
  split <;> rfl

end Fields

/-! ### The queues -/

/-- The queues and the bitmap are right.  The thread `x` is in no queue, and may be ready
all the same. -/
structure QueueInv (x : Option Tid) (k : Kernel Tid ι) : Prop where
  bits : k.readyPriority.Represents priorityMax fun p => k.list (.ready p) ≠ []
  queued : ∀ p t, t ∈ k.list (.ready p) →
    some t ≠ x ∧ (k.thread t).stat = .ready ∧ (k.thread t).currentPriority = p
  ready_mem : ∀ t, some t ≠ x → (k.thread t).stat = .ready →
    t ∈ k.list (.ready (k.thread t).currentPriority)
  nodup : ∀ p, (k.list (.ready p)).Nodup
  mask : ∀ t, (k.thread t).stat ≠ .init →
    (k.thread t).mask = prioMask priorityMax (k.thread t).currentPriority
  prio_lt : ∀ t, (k.thread t).currentPriority < priorityMax ∧
    (k.thread t).initPriority < priorityMax

namespace QueueInv

variable {k k' : Kernel Tid ι} {x : Option Tid} {t : Tid}

theorem congr (h : QueueInv x k) (hthread : k'.thread = k.thread)
    (hlist : ∀ p, k'.list (.ready p) = k.list (.ready p))
    (hbits : k'.readyPriority = k.readyPriority) : QueueInv x k' := by
  refine ⟨?_, ?_, ?_, ?_, ?_, ?_⟩
  · simpa only [hbits, hlist] using h.bits
  · simpa only [hthread, hlist] using h.queued
  · simpa only [hthread, hlist] using h.ready_mem
  · simpa only [hlist] using h.nodup
  · simpa only [hthread] using h.mask
  · simpa only [hthread] using h.prio_lt

theorem not_mem (h : QueueInv x k) (ht : (k.thread t).stat ≠ .ready) (p : ℕ) :
    t ∉ k.list (.ready p) := fun hmem => ht (h.queued p t hmem).2.1

theorem except (h : QueueInv none k) (ht : (k.thread t).stat ≠ .ready) : QueueInv (some t) k := by
  refine ⟨h.bits, fun p u hu => ⟨?_, (h.queued p u hu).2⟩, fun u _ => h.ready_mem u (by simp),
    h.nodup, h.mask, h.prio_lt⟩
  rintro ⟨rfl⟩
  exact h.not_mem ht p hu

theorem close (h : QueueInv (some t) k) (ht : (k.thread t).stat ≠ .ready) : QueueInv none k := by
  refine ⟨h.bits, fun p u hu => ⟨by simp, (h.queued p u hu).2⟩, ?_, h.nodup, h.mask, h.prio_lt⟩
  intro u _ hu
  refine h.ready_mem u ?_ hu
  rintro ⟨rfl⟩
  exact ht hu

/-- The fields of the excepted thread can change, as long as its priority is in range
and its masks are those of its priority. -/
theorem modify (h : QueueInv (some t) k) {f : Thread → Thread}
    (hmask : (f (k.thread t)).stat ≠ .init →
      (f (k.thread t)).mask = prioMask priorityMax (f (k.thread t)).currentPriority)
    (hprio : (f (k.thread t)).currentPriority < priorityMax)
    (hinit : (f (k.thread t)).initPriority = (k.thread t).initPriority) :
    QueueInv (some t) (k.modifyThread t f) := by
  have hother : ∀ u, some u ≠ some t → (k.modifyThread t f).thread u = k.thread u :=
    fun u hu => k.thread_modifyThread_of_ne f fun he => hu (congrArg some he)
  refine ⟨h.bits, ?_, ?_, h.nodup, ?_, ?_⟩
  · intro p u hu
    obtain ⟨hne, hq⟩ := h.queued p u hu
    rw [hother u hne]
    exact ⟨hne, hq⟩
  · intro u hu hr
    rw [hother u hu] at hr ⊢
    exact h.ready_mem u hu hr
  · intro u hu
    by_cases hut : u = t
    · subst hut
      simp only [thread_modifyThread_self] at hu ⊢
      exact hmask hu
    · rw [hother u (by simpa using hut)] at hu ⊢
      exact h.mask u hu
  · intro u
    by_cases hut : u = t
    · subst hut
      simp only [thread_modifyThread_self]
      exact ⟨hprio, hinit ▸ (h.prio_lt u).2⟩
    · rw [hother u (by simpa using hut)]
      exact h.prio_lt u

theorem list_filter (h : QueueInv x k) {p : ℕ} (hp : p ≠ (k.thread t).currentPriority) :
    (k.list (.ready p)).filter (· ≠ t) = k.list (.ready p) := by
  rw [filter_eq_self]
  intro u hu
  have hne : u ≠ t := by
    rintro rfl
    exact hp (h.queued p u hu).2.2.symm
  simpa using hne

/-- `rt_schedule_remove_thread` takes a thread out of the queues. -/
theorem remove (h : QueueInv none k) (ht : (k.thread t).stat ≠ .init) :
    QueueInv (some t) (k.rtScheduleRemoveThread t) := by
  refine ⟨?_, ?_, ?_, ?_, ?_, ?_⟩
  · simp only [list_rtScheduleRemoveThread, readyPriority_rtScheduleRemoveThread]
    by_cases hempty : (k.list (.ready (k.thread t).currentPriority)).filter (· ≠ t) = []
    · -- the last thread of its priority leaves: the bit is cleared
      have hrem := h.bits.removeMask priorityMax_le (h.prio_lt t).1
      rw [← h.mask t ht] at hrem
      rw [if_pos hempty]
      apply hrem.congr
      intro p
      by_cases hp : p = (k.thread t).currentPriority
      · subst hp
        exact iff_of_false (fun hn => hn.2 rfl) (not_not.2 hempty)
      · rw [h.list_filter hp]
        exact and_iff_left hp
    · rw [if_neg hempty]
      apply h.bits.congr
      intro p
      by_cases hp : p = (k.thread t).currentPriority
      · subst hp
        exact iff_of_true (fun hn => hempty (by rw [hn]; rfl)) hempty
      · rw [h.list_filter hp]
  · intro p u hu
    simp only [list_rtScheduleRemoveThread, mem_filter, decide_eq_true_eq] at hu
    rw [thread_rtScheduleRemoveThread]
    exact ⟨fun he => hu.2 (some_inj.1 he), (h.queued p u hu.1).2⟩
  · intro u hu hr
    simp only [list_rtScheduleRemoveThread, thread_rtScheduleRemoveThread, mem_filter,
      decide_eq_true_eq] at hr ⊢
    exact ⟨h.ready_mem u (by simp) hr, fun he => hu (congrArg some he)⟩
  · intro p
    rw [list_rtScheduleRemoveThread]
    exact (h.nodup p).filter _
  · simpa only [thread_rtScheduleRemoveThread] using h.mask
  · simpa only [thread_rtScheduleRemoveThread] using h.prio_lt

theorem listRemove (h : QueueInv x k) (ht : ∀ p, t ∉ k.list (.ready p)) :
    QueueInv x (k.rtListRemove t) := by
  refine h.congr rfl ?_ rfl
  intro p
  apply filter_eq_self.2
  intro u hu
  have hne : u ≠ t := by
    rintro rfl
    exact ht p hu
  simpa using hne

/-- `rt_schedule_insert_thread` puts the excepted thread back. -/
theorem insert (h : QueueInv (some t) k) (ht : (k.thread t).stat ≠ .init) :
    QueueInv none (k.rtScheduleInsertThread t) := by
  have hmod : ∀ st : Stat, QueueInv (some t) (k.setStat t st) := fun st =>
    h.modify (fun _ => h.mask t ht) (h.prio_lt t).1 rfl
  rw [rtScheduleInsertThread]
  by_cases hcur : k.currentThread = some t
  · rw [if_pos hcur]
    exact (hmod .running).close (by simp [setStat])
  · rw [if_neg hcur]
    have h' := hmod .ready
    generalize hk' : k.setStat t .ready = k' at h' ⊢
    have hstat : (k'.thread t).stat = .ready := by
      rw [← hk']
      simp [setStat]
    have hnot : ∀ p, t ∉ k'.list (.ready p) := fun p hmem => (h'.queued p t hmem).1 rfl
    refine ⟨?_, ?_, ?_, ?_, h'.mask, h'.prio_lt⟩
    · -- the bitmap
      have hins := h'.bits.insertMask priorityMax_le (h'.prio_lt t).1
      rw [← h'.mask t (by simp [hstat])] at hins
      apply hins.congr
      intro p
      by_cases hp : p = (k'.thread t).currentPriority
      · subst hp
        simp [rtListInsertBefore]
      · simp [rtListInsertBefore, hp]
    · intro p u hu
      -- the threads in the queues
      by_cases hp : p = (k'.thread t).currentPriority
      · subst hp
        have hu' : u ∈ k'.list (.ready (k'.thread t).currentPriority) ∨ u = t := by
          simpa [rtListInsertBefore] using hu
        rcases hu' with hu' | rfl
        · exact ⟨by simp, (h'.queued _ u hu').2⟩
        · exact ⟨by simp, hstat, rfl⟩
      · have hu' : u ∈ k'.list (.ready p) := by simpa [rtListInsertBefore, hp] using hu
        exact ⟨by simp, (h'.queued p u hu').2⟩
    · intro u _ hr
      -- the ready threads
      by_cases hut : u = t
      · subst hut
        simp [rtListInsertBefore]
      · have hmem := h'.ready_mem u (by simpa using hut) hr
        by_cases hp : (k'.thread u).currentPriority = (k'.thread t).currentPriority
        · rw [hp] at hmem
          simp [rtListInsertBefore, hp, hmem]
        · simpa [rtListInsertBefore, hp] using hmem
    · intro p
      by_cases hp : p = (k'.thread t).currentPriority
      · subst hp
        simp only [rtListInsertBefore, update_self]
        exact (h'.nodup _).append (nodup_singleton t) (by simpa using hnot _)
      · simpa [rtListInsertBefore, hp] using h'.nodup p

end QueueInv

/-! ### The scheduler's invariant -/

/-- The queues are right, the current thread is neither ready nor uninitialised, and no
other thread runs. -/
structure ReadyInv (k : Kernel Tid ι) : Prop where
  queue : QueueInv none k
  current : ∀ t, k.currentThread = some t → (k.thread t).stat ≠ .ready ∧ (k.thread t).stat ≠ .init
  running : ∀ t, (k.thread t).stat = .running → k.currentThread = some t

/-- No ready thread has a higher priority (a smaller number) than the current thread. -/
def HighestRuns (k : Kernel Tid ι) : Prop :=
  ∀ cur, k.currentThread = some cur → ∀ t, (k.thread t).stat = .ready →
    (k.thread cur).currentPriority ≤ (k.thread t).currentPriority

namespace ReadyInv

variable {k : Kernel Tid ι} {t : Tid}

variable {k' : Kernel Tid ι}

/-- The section of a function that takes `t` out of step and leaves it with the status
`st`, when the queues are right after it. -/
theorem of_queue (h : ReadyInv k) (t : Tid) (hq : QueueInv none k')
    (hcur : k'.currentThread = k.currentThread)
    (hother : ∀ u, u ≠ t → (k'.thread u).stat = (k.thread u).stat)
    (hready : k.currentThread = some t → (k'.thread t).stat ≠ .ready ∧ (k'.thread t).stat ≠ .init)
    (hrun : (k'.thread t).stat = .running → k.currentThread = some t) : ReadyInv k' := by
  refine ⟨hq, ?_, ?_⟩
  · intro u hu
    rw [hcur] at hu
    by_cases hut : u = t
    · subst hut
      exact hready hu
    · rw [hother u hut]
      exact h.current u hu
  · intro u hu
    rw [hcur]
    by_cases hut : u = t
    · subst hut
      exact hrun hu
    · rw [hother u hut] at hu
      exact h.running u hu

theorem ne_current (h : ReadyInv k) {u : Tid} (hu : (k.thread u).stat = .ready) :
    k.currentThread ≠ some u := fun hcur => (h.current u hcur).1 hu

theorem stat_setStat_of_ne {u : Tid} (hu : u ≠ t) (st : Stat) :
    ((k.setStat t st).thread u).stat = (k.thread u).stat := by
  rw [setStat, thread_modifyThread_of_ne _ _ hu]

section

variable (h : ReadyInv k)
include h

theorem modify {f : Thread → Thread} (hstat : (f (k.thread t)).stat = (k.thread t).stat)
    (hcp : (f (k.thread t)).currentPriority = (k.thread t).currentPriority)
    (hmask : (f (k.thread t)).mask = (k.thread t).mask)
    (hinit : (f (k.thread t)).initPriority = (k.thread t).initPriority) :
    ReadyInv (k.modifyThread t f) := by
  have hsame : ∀ u, ((k.modifyThread t f).thread u).stat = (k.thread u).stat ∧
      ((k.modifyThread t f).thread u).currentPriority = (k.thread u).currentPriority ∧
      ((k.modifyThread t f).thread u).mask = (k.thread u).mask ∧
      ((k.modifyThread t f).thread u).initPriority = (k.thread u).initPriority := by
    intro u
    by_cases hu : u = t
    · subst hu
      simp [hstat, hcp, hmask, hinit]
    · simp [thread_modifyThread_of_ne _ _ hu]
  refine ⟨⟨h.queue.bits, ?_, ?_, h.queue.nodup, ?_, ?_⟩, ?_, ?_⟩
  · intro p u hu
    rw [(hsame u).1, (hsame u).2.1]
    exact h.queue.queued p u hu
  · intro u hx hu
    rw [(hsame u).1] at hu
    rw [(hsame u).2.1]
    exact h.queue.ready_mem u hx hu
  · intro u hu
    rw [(hsame u).1] at hu
    rw [(hsame u).2.1, (hsame u).2.2.1]
    exact h.queue.mask u hu
  · intro u
    rw [(hsame u).2.1, (hsame u).2.2.2]
    exact h.queue.prio_lt u
  · intro u hu
    rw [(hsame u).1]
    exact h.current u hu
  · intro u hu
    rw [(hsame u).1] at hu
    exact h.running u hu

theorem setTimer (t : Tid) (active : Bool) : ReadyInv (k.setTimer t active) :=
  h.modify rfl rfl rfl rfl

theorem setError (t : Tid) (err : RtErr) : ReadyInv (k.setError t err) :=
  h.modify rfl rfl rfl rfl

theorem congr_list {l : ListHead ι → List Tid}
    (hl : ∀ p, l (.ready p) = k.list (.ready p)) : ReadyInv { k with list := l } :=
  ⟨h.queue.congr rfl hl rfl, h.current, h.running⟩

theorem listRemove (ht : (k.thread t).stat ≠ .ready) : ReadyInv (k.rtListRemove t) :=
  ⟨h.queue.listRemove fun p => h.queue.not_mem ht p, h.current, h.running⟩

theorem insert (ht : (k.thread t).stat ≠ .ready)
    (hinit : (k.thread t).stat ≠ .init) : ReadyInv (k.rtScheduleInsertThread t) := by
  have hstat : ((k.rtScheduleInsertThread t).thread t).stat
      = if k.currentThread = some t then .running else .ready := by
    rw [thread_rtScheduleInsertThread, Kernel.setStat, thread_modifyThread_self]
  refine h.of_queue t ((h.queue.except ht).insert hinit) (by simp) ?_ ?_ ?_
  · intro u hu
    rw [thread_rtScheduleInsertThread, stat_setStat_of_ne hu]
  · intro hcur
    rw [hstat, if_pos hcur]
    exact ⟨by decide, by decide⟩
  · intro hrun
    by_contra hcur
    rw [hstat, if_neg hcur] at hrun
    cases hrun

/-- A thread leaves the queues: suspended, closed, or the current one and running. -/
theorem removeSet (hinit : (k.thread t).stat ≠ .init) {st : Stat}
    (hst : st ≠ .ready ∧ st ≠ .init) (hrun : st = .running → k.currentThread = some t) :
    ReadyInv ((k.rtScheduleRemoveThread t).setStat t st) := by
  have hq : QueueInv none ((k.rtScheduleRemoveThread t).setStat t st) := by
    refine ((h.queue.remove hinit).modify ?_ ?_ ?_).close ?_
    · intro _
      simpa using h.queue.mask t hinit
    · simpa using (h.queue.prio_lt t).1
    · rfl
    · simpa using hst.1
  have hst' : (((k.rtScheduleRemoveThread t).setStat t st).thread t).stat = st := by
    simp [Kernel.setStat]
  refine h.of_queue t hq (by simp [Kernel.setStat]) ?_ ?_ ?_
  · intro u hu
    rw [stat_setStat_of_ne hu, thread_rtScheduleRemoveThread]
  · intro _
    rw [hst']
    exact hst
  · rw [hst']
    exact hrun

end

theorem rtSystemSchedulerInit {thread : Tid → Thread} (hinit : ∀ t, (thread t).stat = .init)
    (hprio : ∀ t, (thread t).currentPriority < priorityMax ∧
      (thread t).initPriority < priorityMax) :
    ReadyInv (Kernel.rtSystemSchedulerInit thread : Kernel Tid ι) := by
  refine ⟨⟨?_, ?_, ?_, ?_, ?_, hprio⟩, ?_, ?_⟩
  · exact (ReadyBitmap.represents_empty priorityMax).congr fun p => by
      simp [Kernel.rtSystemSchedulerInit]
  · intro p t ht
    simp [Kernel.rtSystemSchedulerInit] at ht
  · intro t _ ht
    cases (hinit t).symm.trans ht
  · intro p
    exact nodup_nil
  · intro t ht
    exact absurd (hinit t) ht
  · intro t ht
    cases ht
  · intro t ht
    cases (hinit t).symm.trans ht

/-! ### The functions of `thread.c` -/

section

variable (h : ReadyInv k)
include h

theorem startupWrite (ht : (k.thread t).stat = .init) : ReadyInv (k.startupWrite t) := by
  have hne : k.currentThread ≠ some t := fun hcur => (h.current t hcur).2 ht
  have hprio := (h.queue.prio_lt t).2
  have hset : QueueInv (some t) (k.setPriority t (k.thread t).initPriority) :=
    (h.queue.except (by simp [ht])).modify (fun _ => rfl) hprio rfl
  have hq : QueueInv none ((k.setPriority t (k.thread t).initPriority).setStat t .suspend) := by
    refine (hset.modify ?_ ?_ ?_).close ?_
    · intro _
      simp [setPriority]
    · simpa [setPriority] using hprio
    · rfl
    · simp
  refine h.of_queue t hq rfl ?_ (fun hcur => absurd hcur hne) ?_
  · intro u hu
    rw [Kernel.startupWrite, stat_setStat_of_ne hu, setPriority, thread_modifyThread_of_ne _ _ hu]
  · simp [Kernel.startupWrite, Kernel.setStat]

theorem suspendSection {st : Stat} (hinit : (k.thread t).stat ≠ .init)
    (hs : k.suspendSection t st = some k') :
    ReadyInv k' := by
  rw [Kernel.suspendSection] at hs
  split at hs
  · cases hs
  · cases hs
    have hsusp : ReadyInv ((k.rtScheduleRemoveThread t).setStat t .suspend) :=
      h.removeSet hinit (by decide) nofun
    exact hsusp.setTimer t false

theorem rtThreadSuspend {r : Kernel Tid ι × RtErr} (hs : k.rtThreadSuspend t = some r) : ReadyInv r.1 := by
  rw [Kernel.rtThreadSuspend] at hs
  split at hs
  · cases hs
    exact h
  · next hstat =>
    obtain ⟨k', hk', rfl⟩ := map_eq_some_iff.1 hs
    refine h.suspendSection (fun hinit => hstat ?_) hk'
    simp [hinit]

theorem resumeSection (ht : (k.thread t).stat = .suspend) : ReadyInv (k.resumeSection t) :=
  (h.listRemove (by simp [ht])).setTimer t false

theorem rtThreadResume : ReadyInv (k.rtThreadResume t).1 := by
  rw [Kernel.rtThreadResume]
  split
  · exact h
  · next hstat =>
    have hs : (k.thread t).stat = .suspend := not_not.1 hstat
    have hs' : ((k.resumeSection t).thread t).stat = .suspend := by
      simp [Kernel.resumeSection, Kernel.setTimer, hs]
    exact (h.resumeSection hs).insert (by simp [hs']) (by simp [hs'])

theorem rtThreadControl {p : ℕ} (hp : p < priorityMax) : ReadyInv (k.rtThreadControl t p) := by
  rw [Kernel.rtThreadControl]
  by_cases hready : (k.thread t).stat = .ready
  · rw [if_pos hready]
    have hset : QueueInv (some t) ((k.rtScheduleRemoveThread t).setPriority t p) :=
      (h.queue.remove (by simp [hready])).modify (fun _ => rfl) hp rfl
    have hstat : (((k.rtScheduleRemoveThread t).setPriority t p).thread t).stat = .ready := by
      simpa [setPriority] using hready
    have hne := h.ne_current hready
    refine h.of_queue t (hset.insert (by simp [hstat])) (by simp [setPriority]) ?_
      (fun hcur => absurd hcur hne) ?_
    · intro u hu
      rw [thread_rtScheduleInsertThread, stat_setStat_of_ne hu, setPriority,
        thread_modifyThread_of_ne _ _ hu, thread_rtScheduleRemoveThread]
    · simp [thread_rtScheduleInsertThread, Kernel.setStat, setPriority, hne]
  · rw [if_neg hready]
    have hset : QueueInv (some t) (k.setPriority t p) :=
      (h.queue.except hready).modify (fun _ => rfl) hp rfl
    have hstat : ((k.setPriority t p).thread t).stat = (k.thread t).stat := by
      simp [setPriority]
    refine h.of_queue t (hset.close (by rwa [hstat])) rfl ?_ ?_ ?_
    · intro u hu
      rw [setPriority, thread_modifyThread_of_ne _ _ hu]
    · rw [hstat]
      exact h.current t
    · rw [hstat]
      exact h.running t

theorem setLock (nest : Int16) : ReadyInv { k with schedulerLockNest := nest } :=
  ⟨h.queue.congr rfl (fun _ => rfl) rfl, h.current, h.running⟩

theorem rtExitCritical : ReadyInv k.rtExitCritical.1 := by
  rw [Kernel.rtExitCritical]
  split <;> exact h.setLock _

theorem exitSection (ht : k.currentThread = some t) : ReadyInv (k.exitSection t) := by
  have hclosed : ReadyInv ((k.rtScheduleRemoveThread t).setStat t .close) :=
    h.removeSet (h.current t ht).2 (by decide) nofun
  have hclose := hclosed.setTimer t false
  rw [Kernel.exitSection]
  split
  · exact hclose
  · exact hclose.congr_list fun p => by simp

theorem sleepSection (hs : k.sleepSection t = some k') : ReadyInv k' := by
  obtain ⟨r, hr, rfl⟩ := map_eq_some_iff.1 hs
  exact (h.rtThreadSuspend hr).setTimer t true

theorem timeoutSection (hs : k.timeoutSection t = some k') : ReadyInv k' := by
  rw [Kernel.timeoutSection] at hs
  split at hs
  · next hstat =>
    cases hs
    have hstat' : (((k.setTimer t false).setError t .etimeout).thread t).stat = .suspend := by
      simp [Kernel.setTimer, Kernel.setError, hstat]
    refine (((h.setTimer t false).setError t .etimeout).listRemove ?_).insert ?_ ?_ <;>
      simp [hstat']
  · cases hs

theorem clearTimeout : ReadyInv (k.clearTimeout t) := by
  rw [Kernel.clearTimeout]
  split
  · exact h.setError t .eok
  · exact h

end

/-! ### `rt_schedule` -/

/-- The highest ready priority is that of the head of its queue, and no ready thread has
a higher one. -/
theorem highest (h : ReadyInv k) (hne : k.readyPriority.group ≠ 0) :
    k.list (.ready (k.readyPriority.highestPriority priorityMax)) ≠ [] ∧
    ∀ u, (k.thread u).stat = .ready →
      k.readyPriority.highestPriority priorityMax ≤ (k.thread u).currentPriority := by
  have hlt : ∀ p, k.list (.ready p) ≠ [] → p < priorityMax := by
    intro p hp
    obtain ⟨u, hu⟩ := exists_mem_of_ne_nil _ hp
    rw [← (h.queue.queued p u hu).2.2]
    exact (h.queue.prio_lt u).1
  obtain ⟨hmem, hmin⟩ := h.queue.bits.highestPriority priorityMax_le hlt hne
  exact ⟨hmem, fun u hu => hmin _ (ne_nil_of_mem (h.queue.ready_mem u (by simp) hu))⟩

/-- The thread `cur` has been switched from, and `next` is to run: `cur` has gone back to its
queue if it was running. -/
structure SwitchedFrom (k k' : Kernel Tid ι) (cur next : Tid) : Prop where
  queue : QueueInv none k'
  current : k'.currentThread = some next
  others : ∀ u, u ≠ cur → k'.thread u = k.thread u
  prio : ∀ u, (k'.thread u).currentPriority = (k.thread u).currentPriority
  stat : (k'.thread cur).stat =
    if (k.thread cur).stat = .running then .ready else (k.thread cur).stat

theorem switchedFrom (h : ReadyInv k) {cur next : Tid} (p : ℕ) (hne : next ≠ cur) :
    SwitchedFrom k (if decide ((k.thread cur).stat = .running) then
        ({ k with currentPriority := p, currentThread := some next } :
          Kernel Tid ι).rtScheduleInsertThread cur
      else { k with currentPriority := p, currentThread := some next }) cur next := by
  have hq : QueueInv none { k with currentPriority := p, currentThread := some next } :=
    h.queue.congr rfl (fun _ => rfl) rfl
  by_cases hrun : (k.thread cur).stat = .running
  · rw [if_pos (by simpa using hrun)]
    have hthread : (({ k with currentPriority := p, currentThread := some next } :
        Kernel Tid ι).rtScheduleInsertThread cur).thread = (k.setStat cur .ready).thread := by
      rw [thread_rtScheduleInsertThread, if_neg (by simpa using hne)]
      rfl
    refine ⟨?_, by simp, ?_, ?_, ?_⟩
    · exact (hq.except (show (k.thread cur).stat ≠ .ready by simp [hrun])).insert (by simp [hrun])
    · intro u hu
      rw [hthread]
      exact thread_modifyThread_of_ne _ _ hu
    · intro u
      rw [hthread]
      by_cases hu : u = cur
      · subst hu
        simp [Kernel.setStat]
      · rw [Kernel.setStat, thread_modifyThread_of_ne _ _ hu]
    · rw [hthread, if_pos hrun]
      simp [Kernel.setStat]
  · rw [if_neg (by simpa using hrun)]
    exact ⟨hq, rfl, fun _ _ => rfl, fun _ => rfl, by rw [if_neg hrun]⟩

theorem switchTo (h : ReadyInv k) {cur next : Tid} {p : ℕ} (hcur : k.currentThread = some cur)
    (hnext : (k.thread next).stat = .ready) :
    ReadyInv (k.switchTo cur next p (decide ((k.thread cur).stat = .running))) ∧
    (k.switchTo cur next p (decide ((k.thread cur).stat = .running))).currentThread = some next ∧
    (∀ u, ((k.switchTo cur next p (decide ((k.thread cur).stat = .running))).thread
      u).currentPriority = (k.thread u).currentPriority) ∧
    ∀ u, ((k.switchTo cur next p (decide ((k.thread cur).stat = .running))).thread u).stat
      = .ready → (k.thread u).stat = .ready ∨ u = cur ∧ (k.thread cur).stat = .running := by
  have hne : next ≠ cur := by
    rintro rfl
    exact h.ne_current hnext hcur
  have hfrom := switchedFrom h p hne
  rw [Kernel.switchTo]
  generalize (if decide ((k.thread cur).stat = .running) then
      ({ k with currentPriority := p, currentThread := some next } :
        Kernel Tid ι).rtScheduleInsertThread cur
    else { k with currentPriority := p, currentThread := some next }) = k₂ at hfrom ⊢
  have hnext₂ : (k₂.thread next).stat = .ready := by rw [hfrom.others next hne, hnext]
  have hstat : ∀ u, u ≠ next → (((k₂.rtScheduleRemoveThread next).setStat next
      .running).thread u).stat = (k₂.thread u).stat := by
    intro u hu
    rw [stat_setStat_of_ne hu, thread_rtScheduleRemoveThread]
  have hstat_next : (((k₂.rtScheduleRemoveThread next).setStat next .running).thread next).stat
      = .running := by
    simp [Kernel.setStat]
  have hq : QueueInv none ((k₂.rtScheduleRemoveThread next).setStat next .running) := by
    refine ((hfrom.queue.remove (by simp [hnext₂])).modify ?_ ?_ ?_).close ?_
    · intro _
      simpa using hfrom.queue.mask next (by simp [hnext₂])
    · simpa using (hfrom.queue.prio_lt next).1
    · rfl
    · simp
  have hcur₂ : ((k₂.rtScheduleRemoveThread next).setStat next .running).currentThread
      = some next := by
    simpa [Kernel.setStat] using hfrom.current
  refine ⟨⟨hq, ?_, ?_⟩, hcur₂, ?_, ?_⟩
  · intro u hu
    obtain rfl : next = u := some_inj.1 (hcur₂.symm.trans hu)
    rw [hstat_next]
    exact ⟨by decide, by decide⟩
  · intro u hu
    by_cases hun : u = next
    · subst hun
      exact hcur₂
    · -- nobody else runs: the old thread was the only one
      rw [hstat u hun] at hu
      by_cases huc : u = cur
      · subst huc
        rw [hfrom.stat] at hu
        split at hu
        · cases hu
        · next hrun => exact absurd hu hrun
      · rw [hfrom.others u huc] at hu
        have hcur' := h.running u hu
        rw [hcur] at hcur'
        exact absurd (some_inj.1 hcur').symm huc
  · intro u
    rw [← hfrom.prio u]
    by_cases hun : u = next
    · subst hun
      simp [Kernel.setStat]
    · rw [Kernel.setStat, thread_modifyThread_of_ne _ _ hun, thread_rtScheduleRemoveThread]
  · intro u hu
    by_cases hun : u = next
    · subst hun
      exact Or.inl hnext
    · rw [hstat u hun] at hu
      by_cases huc : u = cur
      · subst huc
        refine Or.inr ⟨rfl, ?_⟩
        by_contra hrun
        rw [hfrom.stat, if_neg hrun] at hu
        exact h.ne_current hu hcur
      · rw [hfrom.others u huc] at hu
        exact Or.inl hu

/-- The thread of the highest priority is ready, and not the current one. -/
theorem of_highest {next : Tid} {p : ℕ} (h : ReadyInv k)
    (hget : k.getHighestPriorityThread = (some next, p)) :
    k.readyPriority.highestPriority priorityMax = p ∧ (k.thread next).stat = .ready ∧
      (k.thread next).currentPriority = p ∧ ∀ cur, k.currentThread = some cur → next ≠ cur := by
  obtain ⟨hhead, hp⟩ := Prod.mk.inj hget
  obtain ⟨-, hready, hprio⟩ := h.queue.queued _ next (mem_of_mem_head? hhead)
  refine ⟨hp, hready, hprio.trans hp, ?_⟩
  rintro _ hcur rfl
  exact h.ne_current hready hcur

/-- No thread is ready when no bit is set. -/
theorem not_ready (h : ReadyInv k) (hgroup : k.readyPriority.group = 0) (u : Tid) :
    (k.thread u).stat ≠ .ready := by
  intro hu
  have hempty := (h.queue.bits.group_eq_zero priorityMax_le ?_).1 hgroup
    (k.thread u).currentPriority
  · exact absurd (ne_nil_of_mem (h.queue.ready_mem u (by simp) hu)) hempty
  · intro p hp
    obtain ⟨v, hv⟩ := exists_mem_of_ne_nil _ hp
    rw [← (h.queue.queued p v hv).2.2]
    exact (h.queue.prio_lt v).1

/-- **`rt_schedule`** keeps the invariant, and when the scheduler is unlocked no ready
thread has a higher priority than the thread it leaves running. -/
theorem rtSchedule (h : ReadyInv k) (hs : k.rtSchedule = some k') :
    ReadyInv k' ∧ (k'.schedulerLockNest = 0 → HighestRuns k') := by
  rw [Kernel.rtSchedule] at hs
  split at hs
  · next hlock =>
    split at hs
    · next hgroup =>
      obtain ⟨hmem, hmin⟩ := h.highest hgroup
      have hstay : ∀ cur, k.currentThread = some cur → (k.thread cur).stat = .running →
          ReadyInv ((k.rtScheduleRemoveThread cur).setStat cur .running) := fun cur hcur hrun =>
        h.removeSet (by simp [hrun]) (by decide) fun _ => hcur
      split at hs
      · next cur next p hcur hget =>
        obtain ⟨rfl, hready, hprio, hne⟩ := h.of_highest hget
        have hne := hne cur hcur
        split at hs
        · -- the current thread goes on
          next hcond =>
          cases hs
          refine ⟨hstay cur hcur hcond.1, ?_⟩
          intro _ c hc u hu
          obtain rfl : cur = c := by simpa [Kernel.setStat, hcur] using hc
          have huc : u ≠ cur := by
            rintro rfl
            simp [Kernel.setStat] at hu
          rw [stat_setStat_of_ne huc, thread_rtScheduleRemoveThread] at hu
          have hle := hmin u hu
          simp only [Kernel.setStat, thread_modifyThread_self, thread_modifyThread_of_ne _ _ huc,
            thread_rtScheduleRemoveThread]
          omega
        · -- the head of the highest queue runs
          next hcond =>
          cases hs
          obtain ⟨hinv, hcur', hcp, hst⟩ := h.switchTo hcur hready
          refine ⟨hinv, ?_⟩
          intro _ c hc u hu
          rw [hcur'] at hc
          cases hc
          rw [hcp, hcp, hprio]
          rcases hst u hu with hu' | ⟨rfl, hrun⟩
          · exact hmin u hu'
          · by_contra hlt
            exact hcond ⟨hrun, by omega⟩
      · cases hs
    · -- no thread is ready
      next hgroup =>
      cases hs
      exact ⟨h, fun _ _ _ u hu => absurd hu (h.not_ready (not_not.1 hgroup) u)⟩
  · next hlock =>
    cases hs
    exact ⟨h, fun h0 => absurd h0 hlock⟩

/-- `rt_system_scheduler_start` with no thread current starts the head of a queue. -/
theorem rtSystemSchedulerStart (h : ReadyInv k)
    (hcur : k.currentThread = none) (hs : k.rtSystemSchedulerStart = some k') :
    ReadyInv k' := by
  rw [Kernel.rtSystemSchedulerStart] at hs
  split at hs
  · next next p hget =>
    cases hs
    obtain ⟨-, hready, -⟩ := h.of_highest hget
    have hq₁ : QueueInv none { k with currentThread := some next } :=
      h.queue.congr rfl (fun _ => rfl) rfl
    have hq : QueueInv none ((({ k with currentThread := some next } :
        Kernel Tid ι).rtScheduleRemoveThread next).setStat next .running) := by
      refine ((hq₁.remove (show (k.thread next).stat ≠ .init by simp [hready])).modify
        ?_ ?_ ?_).close ?_
      · intro _
        simpa using h.queue.mask next (by simp [hready])
      · simpa using (h.queue.prio_lt next).1
      · rfl
      · simp
    refine ⟨hq, ?_, ?_⟩
    · intro u hu
      obtain rfl : next = u := by simpa [Kernel.setStat] using hu
      simp [Kernel.setStat]
    · intro u hu
      by_cases hun : u = next
      · subst hun
        simp [Kernel.setStat]
      · rw [stat_setStat_of_ne hun, thread_rtScheduleRemoveThread] at hu
        have := h.running u hu
        rw [hcur] at this
        cases this
  · cases hs

end ReadyInv

end Kernel

end RtThread
