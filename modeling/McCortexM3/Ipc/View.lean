import McCortexM3.Kernel.Ready
import McCortexM3.Ipc.Object

/-!
# What the IPC objects see of the kernel

A semaphore or a mutex depends on whether a thread is suspended, on its error code and its
priority, and on the suspend lists; which of the other threads run is the scheduler's
business.  Each function of the kernel is described by what it does to this view.

## Main definitions

* `Life`, `View`, `Kernel.view` — the view.
* `Listed` — only suspended threads are in suspend lists.

## Main results

* `view_rtSchedule` — `rt_schedule` changes nothing of the view.
* `view_rtThreadResume`, `view_rtIpcListSuspend`, `view_rtThreadControl`, … — the effect of
  each function.
-/

set_option linter.all false

namespace RtThread

open Option List
open Function (update)

/-- Whether a thread has not been started, is suspended, can run, or has been closed. -/
inductive Life
  | unborn
  | blocked
  | live
  | closed
  deriving DecidableEq

/-- The life of a thread with a status. -/
def Stat.life : Stat → Life
  | .init => .unborn
  | .ready => .live
  | .suspend => .blocked
  | .running => .live
  | .close => .closed

theorem Stat.life_eq_blocked {st : Stat} : st.life = .blocked ↔ st = .suspend := by
  cases st <;> simp [Stat.life]

theorem Stat.life_eq_unborn {st : Stat} : st.life = .unborn ↔ st = .init := by
  cases st <;> simp [Stat.life]

theorem Stat.life_eq_live {st : Stat} : st.life = .live ↔ st = .ready ∨ st = .running := by
  cases st <;> simp [Stat.life]

/-- The threads and the suspend lists, as the objects see them. -/
@[ext] structure View (Tid ι : Type) where
  life : Tid → Life
  error : Tid → RtErr
  prio : Tid → ℕ
  queue : ι → List Tid

namespace View

variable {Tid ι : Type} [DecidableEq Tid] [DecidableEq ι]

/-- The life of `t` becomes `life`. -/
def setLife (v : View Tid ι) (t : Tid) (life : Life) : View Tid ι :=
  { v with life := update v.life t life }

/-- The error code of `t` becomes `err`. -/
def setError (v : View Tid ι) (t : Tid) (err : RtErr) : View Tid ι :=
  { v with error := update v.error t err }

/-- The priority of `t` becomes `p`. -/
def setPrio (v : View Tid ι) (t : Tid) (p : ℕ) : View Tid ι :=
  { v with prio := update v.prio t p }

/-- `t` leaves every suspend list. -/
def unlink (v : View Tid ι) (t : Tid) : View Tid ι :=
  { v with queue := fun o => (v.queue o).filter (· ≠ t) }

/-- `t` enters the suspend list of `o`. -/
def link (v : View Tid ι) (t : Tid) (o : ι) (flag : IpcFlag) : View Tid ι :=
  { v with queue := update v.queue o (ipcListInsert flag v.prio t (v.queue o)) }

/-- The threads in the suspend list of `o` are resumed with an error. -/
def resumeAll (v : View Tid ι) (o : ι) : View Tid ι where
  life := fun t => if t ∈ v.queue o then .live else v.life t
  error := fun t => if t ∈ v.queue o then .error else v.error t
  prio := v.prio
  queue := fun o' => (v.queue o').filter (· ∉ v.queue o)

@[simp] theorem setLife_self (v : View Tid ι) (t : Tid) : v.setLife t (v.life t) = v := by
  simp [setLife]

@[simp] theorem setError_self (v : View Tid ι) (t : Tid) : v.setError t (v.error t) = v := by
  simp [setError]

@[simp] theorem setPrio_self (v : View Tid ι) (t : Tid) : v.setPrio t (v.prio t) = v := by
  simp [setPrio]

theorem resumeAll_cons {v : View Tid ι} {t : Tid} {o : ι} (ht : t ∈ v.queue o) :
    (((v.setError t .error).unlink t).setLife t .live).resumeAll o = v.resumeAll o := by
  ext1
  · funext u
    by_cases hu : u = t
    · subst hu
      simp [resumeAll, setLife, unlink, setError, ht]
    · simp [resumeAll, setLife, unlink, setError, hu]
  · funext u
    by_cases hu : u = t
    · subst hu
      simp [resumeAll, setLife, unlink, setError, ht]
    · simp [resumeAll, setLife, unlink, setError, hu]
  · rfl
  · funext o'
    simp only [resumeAll, setLife, unlink, setError, List.filter_filter]
    apply filter_congr
    intro u _
    by_cases hu : u = t
    · subst hu
      simp [ht]
    · simp [hu]

theorem unlink_eq_self {v : View Tid ι} {t : Tid} (h : ∀ o, t ∉ v.queue o) : v.unlink t = v := by
  ext1
  · rfl
  · rfl
  · rfl
  · funext o
    apply filter_eq_self.2
    intro u hu
    have hne : u ≠ t := by
      rintro rfl
      exact h o hu
    simpa using hne

end View

namespace Kernel

variable [RtConfig] {Tid ι : Type} [DecidableEq Tid] [DecidableEq ι]

/-- The view of a kernel state. -/
def view (k : Kernel Tid ι) : View Tid ι where
  life := fun t => (k.thread t).stat.life
  error := fun t => (k.thread t).error
  prio := fun t => (k.thread t).currentPriority
  queue := fun o => k.list (.suspended o)

/-- Only suspended threads are in suspend lists. -/
def Listed (k : Kernel Tid ι) : Prop := ∀ o t, t ∈ k.view.queue o → k.view.life t = .blocked

variable {k k' : Kernel Tid ι} {t : Tid}

/-! ### Fields and lists -/

theorem view_congr (hthread : k'.thread = k.thread)
    (hlist : ∀ o, k'.list (.suspended o) = k.list (.suspended o)) : k'.view = k.view := by
  simp only [view, hthread, hlist]

theorem view_modifyThread (k : Kernel Tid ι) (t : Tid) (f : Thread → Thread) :
    (k.modifyThread t f).view =
      ((k.view.setLife t (f (k.thread t)).stat.life).setError t (f (k.thread t)).error).setPrio t
        (f (k.thread t)).currentPriority := by
  ext1
  all_goals try rfl
  all_goals
    funext u
    by_cases hu : u = t
    · subst hu
      simp [view, View.setLife, View.setError, View.setPrio]
    · simp [view, View.setLife, View.setError, View.setPrio, thread_modifyThread_of_ne _ _ hu, hu]

@[simp] theorem view_setTimer (k : Kernel Tid ι) (t : Tid) (active : Bool) :
    (k.setTimer t active).view = k.view :=
  (k.view_modifyThread t _).trans (by simp [View.setLife, View.setError, View.setPrio, view])

@[simp] theorem view_setError (k : Kernel Tid ι) (t : Tid) (err : RtErr) :
    (k.setError t err).view = k.view.setError t err :=
  (k.view_modifyThread t _).trans (by simp [View.setLife, View.setError, View.setPrio, view])

@[simp] theorem view_setStat (k : Kernel Tid ι) (t : Tid) (st : Stat) :
    (k.setStat t st).view = k.view.setLife t st.life :=
  (k.view_modifyThread t _).trans (by simp [View.setLife, View.setError, View.setPrio, view])

@[simp] theorem view_setPriority (k : Kernel Tid ι) (t : Tid) (p : ℕ) :
    (k.setPriority t p).view = k.view.setPrio t p :=
  (k.view_modifyThread t _).trans (by simp [View.setLife, View.setError, View.setPrio, view])

@[simp] theorem view_rtListRemove (k : Kernel Tid ι) (t : Tid) :
    (k.rtListRemove t).view = k.view.unlink t := rfl

/-! ### The scheduler -/

@[simp] theorem view_rtScheduleRemoveThread (k : Kernel Tid ι) (t : Tid) :
    (k.rtScheduleRemoveThread t).view = k.view.unlink t := by
  have hthread : (k.rtScheduleRemoveThread t).thread = (k.rtListRemove t).thread := by simp
  refine (view_congr hthread ?_).trans (k.view_rtListRemove t)
  intro o
  rw [list_rtScheduleRemoveThread]
  rfl

@[simp] theorem view_rtScheduleInsertThread (k : Kernel Tid ι) (t : Tid) :
    (k.rtScheduleInsertThread t).view = k.view.setLife t .live := by
  rw [rtScheduleInsertThread]
  split
  · exact k.view_setStat t .running
  · exact (view_congr rfl fun o => by simp [rtListInsertBefore]).trans (k.view_setStat t .ready)

theorem Listed.congr (h : k.Listed) (hview : k'.view = k.view) : k'.Listed := by
  rw [Listed, hview]
  exact h

theorem Listed.unlink_live (h : k.Listed) (ht : k.view.life t ≠ .blocked) :
    k.view.unlink t = k.view := View.unlink_eq_self fun o ho => ht (h o t ho)

theorem view_removeSet (h : k.Listed) (ht : k.view.life t = .live) :
    ((k.rtScheduleRemoveThread t).setStat t .running).view = k.view := by
  rw [view_setStat, view_rtScheduleRemoveThread, h.unlink_live (by simp [ht])]
  exact (congrArg _ ht.symm).trans (k.view.setLife_self t)

theorem view_switchTo {cur next : Tid} {p : ℕ} {b : Bool} (h : k.Listed)
    (hnext : k.view.life next = .live) (hcur : b = true → k.view.life cur = .live) :
    (k.switchTo cur next p b).view = k.view := by
  obtain ⟨k₁, hk₁⟩ : ∃ k₁ : Kernel Tid ι,
      k₁ = { k with currentPriority := p, currentThread := some next } := ⟨_, rfl⟩
  have hview₁ : k₁.view = k.view := by rw [hk₁]; rfl
  rw [switchTo, ← hk₁]
  cases b with
  | true =>
    have hview₂ : (k₁.rtScheduleInsertThread cur).view = k.view := by
      rw [view_rtScheduleInsertThread, hview₁, ← hcur rfl, View.setLife_self]
    exact (view_removeSet (h.congr hview₂) (by rwa [hview₂])).trans hview₂
  | false => exact (view_removeSet (h.congr hview₁) (by rwa [hview₁])).trans hview₁

/-- **`rt_schedule` begins no wait and ends none.** -/
theorem view_rtSchedule (hr : k.ReadyInv) (h : k.Listed) (hs : k.rtSchedule = some k') :
    k'.view = k.view := by
  rw [rtSchedule] at hs
  split at hs
  · split at hs
    · split at hs
      · next cur next p hcur hget =>
        obtain ⟨-, hready, -, hne⟩ := hr.of_highest hget
        have hne := hne cur hcur
        split at hs
        · next hcond =>
          cases hs
          exact view_removeSet h (by simp [view, hcond.1, Stat.life])
        · cases hs
          apply view_switchTo h (by simp [view, hready, Stat.life])
          intro hrun
          have hrun' : (k.thread cur).stat = .running := by simpa using hrun
          simp [view, hrun', Stat.life]
      · cases hs
    · cases hs
      rfl
  · cases hs
    rfl

@[simp] theorem schedulerLockNest_switchTo (k : Kernel Tid ι) (cur next : Tid) (p : ℕ) (b : Bool) :
    (k.switchTo cur next p b).schedulerLockNest = k.schedulerLockNest := by
  rw [switchTo]
  split <;> simp [setStat]

/-- While some thread can run, an unlocked `rt_schedule` leaves a thread running. -/
theorem rtSchedule_current (hr : k.ReadyInv) (hlock : k.schedulerLockNest = 0) {u : Tid}
    (hu : k.view.life u = .live) (hs : k.rtSchedule = some k') :
    k'.schedulerLockNest = 0 ∧ ∀ c, k'.currentThread = some c → k.view.life c = .live := by
  have hempty : k.readyPriority.group = 0 → ∀ c, k.currentThread = some c →
      k.view.life c = .live := by
    intro hgroup c hc
    rcases Stat.life_eq_live.1 hu with hready | hrun
    · exact absurd hready (hr.not_ready hgroup u)
    · rw [hr.running u hrun] at hc
      cases hc
      exact hu
  rw [rtSchedule, if_pos hlock] at hs
  split at hs
  · next hgroup =>
    split at hs
    · next cur next p hcur hget =>
      obtain ⟨-, hready, -, hne⟩ := hr.of_highest hget
      have hne := hne cur hcur
      split at hs
      · next hcond =>
        cases hs
        refine ⟨by simpa [setStat] using hlock, ?_⟩
        intro c hc
        obtain rfl : cur = c := by simpa [setStat, hcur] using hc
        simp [view, hcond.1, Stat.life]
      · cases hs
        refine ⟨by simpa using hlock, ?_⟩
        intro c hc
        rw [(hr.switchTo hcur hready).2.1] at hc
        cases hc
        simp [view, hready, Stat.life]
    · cases hs
  · next hgroup =>
    cases hs
    exact ⟨hlock, hempty (not_not.1 hgroup)⟩

theorem view_rtSystemSchedulerStart (hr : k.ReadyInv) (h : k.Listed)
    (hs : k.rtSystemSchedulerStart = some k') : k'.view = k.view := by
  rw [rtSystemSchedulerStart] at hs
  split at hs
  · next next p hget =>
    cases hs
    obtain ⟨-, hready, -⟩ := hr.of_highest hget
    have hlive : k.view.life next = .live := by simp [view, hready, Stat.life]
    exact view_removeSet (k := { k with currentThread := some next }) h hlive
  · cases hs

/-! ### Threads -/

theorem view_rtThreadControl (h : k.Listed) (t : Tid) (p : ℕ) :
    (k.rtThreadControl t p).view = k.view.setPrio t p := by
  rw [rtThreadControl]
  split
  · next hready =>
    have hlive : k.view.life t = .live := by simp [view, hready, Stat.life]
    rw [view_rtScheduleInsertThread, view_setPriority, view_rtScheduleRemoveThread,
      h.unlink_live (by simp [hlive]), ← hlive]
    exact (k.view.setPrio t p).setLife_self t
  · exact k.view_setPriority t p

theorem view_rtThreadSuspend {r : Kernel Tid ι × RtErr} (h : k.Listed)
    (ht : k.view.life t = .live) (hs : k.rtThreadSuspend t = some r) :
    r.1.view = k.view.setLife t .blocked := by
  rw [rtThreadSuspend, if_neg] at hs
  · obtain ⟨k', hk', rfl⟩ := map_eq_some_iff.1 hs
    rw [suspendSection] at hk'
    split at hk'
    · cases hk'
    · cases hk'
      rw [view_setTimer, view_setStat, view_rtScheduleRemoveThread, h.unlink_live (by simp [ht])]
      rfl
  · rintro ⟨hready, hrunning⟩
    rcases Stat.life_eq_live.1 ht with h' | h'
    · exact hready h'
    · exact hrunning h'

theorem view_rtThreadResume (ht : k.view.life t = .blocked) :
    (k.rtThreadResume t).1.view = (k.view.unlink t).setLife t .live := by
  rw [rtThreadResume, if_neg (not_not.2 (Stat.life_eq_blocked.1 ht))]
  simp [resumeSection]

theorem view_timeoutSection (hs : k.timeoutSection t = some k') :
    k.view.life t = .blocked ∧
      k'.view = ((k.view.setError t .etimeout).unlink t).setLife t .live := by
  rw [timeoutSection] at hs
  split at hs
  · next hstat =>
    cases hs
    exact ⟨Stat.life_eq_blocked.2 hstat, by simp⟩
  · cases hs

theorem view_startup (h : k.Listed) (ht : (k.thread t).stat = .init) :
    ((k.startupWrite t).rtThreadResume t).1.view =
      (k.view.setPrio t (k.thread t).initPriority).setLife t .live := by
  have hview : (k.startupWrite t).view =
      (k.view.setPrio t (k.thread t).initPriority).setLife t .blocked := by
    simp [startupWrite, Stat.life]
  have hlive : k.view.life t ≠ .blocked := by simp [view, ht, Stat.life]
  rw [view_rtThreadResume (by simp [hview, View.setLife]), hview]
  have hunlink : ((k.view.setPrio t (k.thread t).initPriority).setLife t .blocked).unlink t =
      (k.view.setPrio t (k.thread t).initPriority).setLife t .blocked :=
    View.unlink_eq_self fun o ho => hlive (h o t ho)
  rw [hunlink]
  simp [View.setLife]

/-! ### Suspend lists -/

theorem view_link (k : Kernel Tid ι) (t : Tid) (o : ι) (flag : IpcFlag) :
    ({ k with
      list := update k.list (.suspended o)
        (ipcListInsert flag (fun u => (k.thread u).currentPriority) t
          (k.list (.suspended o))) } : Kernel Tid ι).view = k.view.link t o flag := by
  ext1
  · rfl
  · rfl
  · rfl
  · funext o'
    by_cases ho : o' = o
    · subst ho
      simp [view, View.link]
    · simp [view, View.link, ho]

theorem view_rtIpcListSuspend {o : ι} {flag : IpcFlag} (h : k.Listed)
    (ht : k.view.life t = .live) (hs : k.rtIpcListSuspend o t flag = some k') :
    k'.view = (k.view.setLife t .blocked).link t o flag := by
  obtain ⟨r, hr, rfl⟩ := map_eq_some_iff.1 hs
  rw [view_link, view_rtThreadSuspend h ht hr]

theorem view_ipcSuspend {o : ι} {flag : IpcFlag} {time : ℤ} (h : k.Listed)
    (ht : k.view.life t = .live) (hs : k.ipcSuspend o t flag time = some k') :
    k'.view = (k.view.setLife t .blocked).link t o flag := by
  obtain ⟨k₁, hk₁, rfl⟩ := map_eq_some_iff.1 hs
  rw [apply_ite view, view_setTimer, ite_self]
  exact view_rtIpcListSuspend h ht hk₁

theorem view_resumeAllSection {o : ι} (h : k.Listed) (hs : k.resumeAllSection o = some k') :
    ∃ next rest, k.view.queue o = next :: rest ∧
      k'.view = ((k.view.setError next .error).unlink next).setLife next .live := by
  rw [resumeAllSection] at hs
  split at hs
  · next next rest hlist =>
    cases hs
    have hblocked : (k.setError next .error).view.life next = .blocked := by
      rw [view_setError]
      exact h o next (by simp [view, hlist])
    exact ⟨next, rest, hlist, by rw [view_rtThreadResume hblocked, view_setError]⟩
  · cases hs

theorem view_resumeAll_nil {o : ι} (hlist : k.list (.suspended o) = []) :
    k.view.resumeAll o = k.view := by
  have hqueue : k.view.queue o = [] := hlist
  simp [View.resumeAll, hqueue]

theorem view_rtIpcListResumeAll {o : ι} {n : ℕ} (h : k.Listed)
    (hs : k.rtIpcListResumeAll o n = some k') : k'.view = k.view.resumeAll o := by
  induction n generalizing k with
  | zero =>
    rw [rtIpcListResumeAll] at hs
    split at hs
    · next hlist =>
      cases hs
      exact (view_resumeAll_nil hlist).symm
    · cases hs
  | succ n ih =>
    rw [rtIpcListResumeAll] at hs
    split at hs
    · next hlist =>
      cases hs
      exact (view_resumeAll_nil hlist).symm
    · obtain ⟨k₁, hk₁, hs⟩ := bind_eq_some_iff.1 hs
      obtain ⟨t, rest, hqueue, hview⟩ := view_resumeAllSection h hk₁
      have hlisted : k₁.Listed := by
        intro o' u hu
        have hu' : u ∈ k.view.queue o' ∧ u ≠ t := by
          simpa [hview, View.setLife, View.unlink, View.setError] using hu
        simpa [hview, View.setLife, View.unlink, View.setError, hu'.2] using h o' u hu'.1
      rw [ih hlisted hs, hview]
      exact View.resumeAll_cons (hqueue ▸ mem_cons_self)

/-! ### Sections do not schedule -/

/-- `k'` is what an interrupt-disabled section leaves of `k`: the scheduler's invariant
holds, and the current thread and the lock are the same. -/
structure Unscheduled (k k' : Kernel Tid ι) : Prop where
  ready : k.ReadyInv → k'.ReadyInv
  current : k'.currentThread = k.currentThread
  lock : k'.schedulerLockNest = k.schedulerLockNest

namespace Unscheduled

theorem refl (k : Kernel Tid ι) : Unscheduled k k := ⟨id, rfl, rfl⟩

theorem trans {k'' : Kernel Tid ι} (h : Unscheduled k k') (h' : Unscheduled k' k'') :
    Unscheduled k k'' :=
  ⟨h'.ready ∘ h.ready, h'.current.trans h.current, h'.lock.trans h.lock⟩

theorem setError (k : Kernel Tid ι) (t : Tid) (err : RtErr) : Unscheduled k (k.setError t err) :=
  ⟨fun h => h.setError t err, rfl, rfl⟩

theorem rtThreadControl (k : Kernel Tid ι) (t : Tid) {p : ℕ} (hp : p < priorityMax) :
    Unscheduled k (k.rtThreadControl t p) := by
  refine ⟨fun h => h.rtThreadControl hp, ?_, ?_⟩
  all_goals
    rw [Kernel.rtThreadControl]
    split <;> simp [setPriority]

theorem rtThreadResume (k : Kernel Tid ι) (t : Tid) : Unscheduled k (k.rtThreadResume t).1 := by
  refine ⟨ReadyInv.rtThreadResume, ?_, ?_⟩
  all_goals
    rw [Kernel.rtThreadResume]
    split <;> simp [resumeSection, setTimer, rtListRemove]

theorem timeoutSection (hs : k.timeoutSection t = some k') : Unscheduled k k' := by
  refine ⟨fun h => h.timeoutSection hs, ?_, ?_⟩
  all_goals
    rw [Kernel.timeoutSection] at hs
    split at hs <;> cases hs
    simp [setTimer, Kernel.setError, rtListRemove]

theorem startup (ht : (k.thread t).stat = .init) :
    Unscheduled k ((k.startupWrite t).rtThreadResume t).1 := by
  have hwrite : Unscheduled k (k.startupWrite t) := ⟨fun h => h.startupWrite ht, rfl, rfl⟩
  exact hwrite.trans (rtThreadResume _ t)

theorem ipcSuspend {o : ι} {flag : IpcFlag} {time : ℤ}
    (hs : k.ipcSuspend o t flag time = some k') : Unscheduled k k' := by
  obtain ⟨k₁, hk₁, rfl⟩ := map_eq_some_iff.1 hs
  obtain ⟨r, hr, rfl⟩ := map_eq_some_iff.1 hk₁
  have hsuspend : Unscheduled k r.1 := by
    refine ⟨fun h => h.rtThreadSuspend hr, ?_, ?_⟩
    all_goals
      rw [rtThreadSuspend, suspendSection] at hr
      split at hr
      · cases hr
        rfl
      · obtain ⟨k₂, hk₂, rfl⟩ := map_eq_some_iff.1 hr
        split at hk₂ <;> cases hk₂
        simp [setStat, setTimer]
  apply hsuspend.trans
  -- the suspend lists are not the scheduler's
  split
  · exact ⟨fun h => (h.congr_list fun p => by simp).setTimer t true, rfl, rfl⟩
  · exact ⟨fun h => h.congr_list fun p => by simp, rfl, rfl⟩

theorem rtIpcListResume {o : ι} (hs : k.rtIpcListResume o = some k') : Unscheduled k k' := by
  rw [Kernel.rtIpcListResume] at hs
  split at hs
  · cases hs
    exact rtThreadResume k _
  · cases hs

theorem resumeAllSection {o : ι} (hs : k.resumeAllSection o = some k') : Unscheduled k k' := by
  rw [Kernel.resumeAllSection] at hs
  split at hs
  · cases hs
    exact (setError k _ _).trans (rtThreadResume _ _)
  · cases hs

theorem rtIpcListResumeAll {o : ι} {n : ℕ} (hs : k.rtIpcListResumeAll o n = some k') :
    Unscheduled k k' := by
  induction n generalizing k with
  | zero =>
    rw [Kernel.rtIpcListResumeAll] at hs
    split at hs <;> cases hs
    exact refl _
  | succ n ih =>
    rw [Kernel.rtIpcListResumeAll] at hs
    split at hs
    · cases hs
      exact refl _
    · obtain ⟨k₁, hk₁, hs⟩ := bind_eq_some_iff.1 hs
      exact (resumeAllSection hk₁).trans (ih hs)

theorem rtSemRelease {o : ι} {sem : Semaphore} {r : Kernel Tid ι × Semaphore × Bool}
    (hs : k.rtSemRelease o sem = some r) : Unscheduled k r.1 := by
  rw [Kernel.rtSemRelease] at hs
  split at hs
  · obtain ⟨k', hk', rfl⟩ := map_eq_some_iff.1 hs
    exact rtIpcListResume hk'
  · cases hs
    exact refl k

theorem rtSemControl {o : ι} {value : UInt32} {sem : Semaphore} {r : Kernel Tid ι × Semaphore}
    (hs : k.rtSemControl o value sem = some r) : Unscheduled k r.1 := by
  obtain ⟨k', hk', rfl⟩ := map_eq_some_iff.1 hs
  exact rtIpcListResumeAll hk'

end Unscheduled

end Kernel

end RtThread
