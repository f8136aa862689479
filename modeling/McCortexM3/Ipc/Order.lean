import McCortexM3.Ipc.View
import McCortexM3.Run
import Mathlib.Data.Fintype.Basic

/-!
# The order of suspend lists

The functions of `ipc.c` reach the suspend lists through `rt_ipc_list_suspend`,
`rt_ipc_list_resume`, `rt_ipc_list_resume_all` and, in `rt_event_send`, `rt_thread_resume`.
Here these are called in any order on any lists, together with the timeouts, the scheduler
and `rt_thread_control`, so that every object of every kind is among the runs.

A list with `RT_IPC_FLAG_PRIO` is sorted when a thread enters it.  `rt_thread_control` moves a
ready thread into the queue of its new priority, but leaves a suspended thread where it is in
its suspend list.

## Main definitions

* `Before` — the order by priority and arrival.
* `ListSys.Fits` — a new priority fits into the place of the thread.

## Main results

* `ListSys.run_sorted` — while new priorities fit, the lists are sorted.
* `ListSys.not_run_sorted` — a thread that waits gets a higher priority.
-/

set_option linter.all false

namespace RtThread

open Function Option List
open View (link setError setLife setPrio unlink)
open Function (update)

/-- What can happen next.  `suspend`, `resumeFirst`, `resumeAll` and `resume` are called by
the functions of `ipc.c`; the first of them for the running thread. -/
inductive ListAction (Tid ι : Type)
  | startup (t : Tid)
  | schedulerStart
  | schedule
  | suspend (o : ι) (time : ℤ)
  | resumeFirst (o : ι)
  | resume (o : ι) (t : Tid)
  | resumeAll (o : ι)
  | sleep
  | timeout (t : Tid)
  | control (t : Tid) (priority : ℕ)
  | enterCritical
  | exitCritical

/-- The kernel, and the number of arrivals before the last arrival of each thread at a suspend
list, which nothing reads. -/
structure ListSys (Tid ι : Type) where
  kernel : Kernel Tid ι
  arrivals : ℕ
  arrived : Tid → ℕ

/-- `t` stands before `u`: it has a higher priority, or the same one and has arrived
earlier. -/
def Before {Tid : Type} (prio arrived : Tid → ℕ) (t u : Tid) : Prop :=
  prio t < prio u ∨ prio t = prio u ∧ arrived t < arrived u

instance {Tid : Type} (prio arrived : Tid → ℕ) (t u : Tid) : Decidable (Before prio arrived t u) :=
  inferInstanceAs (Decidable (_ ∨ _))

theorem pairwise_ipcListInsert {Tid : Type} {prio arrived : Tid → ℕ} {t : Tid} {l : List Tid}
    (h : l.Pairwise (Before prio arrived)) (hnew : ∀ u ∈ l, arrived u < arrived t) :
    (ipcListInsert .prio prio t l).Pairwise (Before prio arrived) := by
  induction l with
  | nil => exact pairwise_singleton _ t
  | cons s l ih =>
    obtain ⟨hs, hl⟩ := pairwise_cons.1 h
    rw [ipcListInsert]
    split
    · next hlt =>
      refine pairwise_cons.2 ⟨fun u hu => .inl ?_, h⟩
      rcases mem_cons.1 hu with rfl | hu
      · exact hlt
      · rcases hs u hu with hsu | ⟨hsu, -⟩
        · exact hlt.trans hsu
        · exact hsu ▸ hlt
    · next hle =>
      refine pairwise_cons.2 ⟨?_, ih hl fun u hu => hnew u (mem_cons_of_mem s hu)⟩
      intro u hu
      rcases mem_ipcListInsert.1 hu with rfl | hu
      · rcases Nat.lt_or_ge (prio s) (prio u) with hlt | hge
        · exact .inl hlt
        · exact .inr ⟨by omega, hnew s mem_cons_self⟩
      · exact hs u hu

namespace ListSys

variable [RtConfig] {Tid ι : Type} [DecidableEq Tid] [DecidableEq ι]

/-- One step of an interleaving; `flag` says the flags of the objects. -/
def step (flag : ι → IpcFlag) (s : ListSys Tid ι) :
    ListAction Tid ι → Option (ListSys Tid ι × List Tid)
  | .startup t =>
    if (s.kernel.thread t).stat = .init then
      some ({ s with kernel := ((s.kernel.startupWrite t).rtThreadResume t).1 }, [])
    else none
  | .schedulerStart =>
    if s.kernel.currentThread = none then
      s.kernel.rtSystemSchedulerStart.map fun k => ({ s with kernel := k }, [])
    else none
  | .schedule => s.kernel.rtSchedule.map fun k => ({ s with kernel := k }, [])
  | .suspend o time =>
    match s.kernel.currentThread with
    | some t =>
      if s.kernel.view.life t = .live then
        ((s.kernel.setError t .eok).ipcSuspend o t (flag o) time).map fun k =>
          ({ kernel := k, arrivals := s.arrivals + 1,
             arrived := update s.arrived t s.arrivals }, [])
      else none
    | none => none
  | .resumeFirst o =>
    (s.kernel.rtIpcListResume o).map fun k =>
      ({ s with kernel := k }, (s.kernel.list (.suspended o)).take 1)
  | .resume o t =>
    if t ∈ s.kernel.list (.suspended o) then
      some ({ s with kernel := (s.kernel.rtThreadResume t).1 }, [t])
    else none
  | .resumeAll o =>
    (s.kernel.resumeAllSection o).map fun k =>
      ({ s with kernel := k }, (s.kernel.list (.suspended o)).take 1)
  | .sleep =>
    match s.kernel.currentThread with
    | some t =>
      if s.kernel.view.life t = .live then
        (s.kernel.sleepSection t).map fun k => ({ s with kernel := k }, [])
      else none
    | none => none
  | .timeout t =>
    if (s.kernel.thread t).timerActive then
      (s.kernel.timeoutSection t).map fun k => ({ s with kernel := k }, [])
    else none
  | .control t p =>
    if p < priorityMax then some ({ s with kernel := s.kernel.rtThreadControl t p }, []) else none
  | .enterCritical => some ({ s with kernel := s.kernel.rtEnterCritical }, [])
  | .exitCritical => some ({ s with kernel := s.kernel.rtExitCritical.1 }, [])

/-- The system after the threads have been initialised. -/
def boot (prio : Tid → ℕ) : ListSys Tid ι where
  kernel := Kernel.rtSystemSchedulerInit fun t => Kernel.rtThreadInit (prio t) true false
  arrivals := 0
  arrived := fun _ => 0

/-- The threads before `t` in its list stand before it, and those after it behind it, when `t`
has the priority `p`. -/
def FitsIn (s : ListSys Tid ι) (t : Tid) (p : ℕ) (l : List Tid) : Prop :=
  l.Pairwise (Before (update s.kernel.view.prio t p) s.arrived)

/-- A priority that `rt_thread_control` gives to a thread which waits in a list with
`RT_IPC_FLAG_PRIO` fits into the place of the thread. -/
def Fits (flag : ι → IpcFlag) (s : ListSys Tid ι) : ListAction Tid ι → Prop
  | .control t p => ∀ o, flag o = .prio → t ∈ s.kernel.list (.suspended o) →
    s.FitsIn t p (s.kernel.list (.suspended o))
  | _ => True

instance (flag : ι → IpcFlag) [Fintype ι] (s : ListSys Tid ι) (a : ListAction Tid ι) :
    Decidable (Fits flag s a) := by
  unfold Fits FitsIn
  split <;> infer_instance

/-- The suspend lists with `RT_IPC_FLAG_PRIO` are sorted. -/
structure Inv (flag : ι → IpcFlag) (s : ListSys Tid ι) : Prop where
  ready : s.kernel.ReadyInv
  listed : s.kernel.Listed
  arrived : ∀ o, ∀ t ∈ s.kernel.view.queue o, s.arrived t < s.arrivals
  sorted : ∀ o, flag o = .prio →
    (s.kernel.view.queue o).Pairwise (Before s.kernel.view.prio s.arrived)

variable {flag : ι → IpcFlag} {s s' : ListSys Tid ι} {k k' : Kernel Tid ι} {t : Tid}

/-- `k'` is `k` after threads have left suspend lists: those that remain are still suspended and
have the same priorities. -/
structure Leaves (k k' : Kernel Tid ι) : Prop where
  queue : ∀ o, (k'.view.queue o).Sublist (k.view.queue o)
  life : ∀ o, ∀ t ∈ k'.view.queue o, k'.view.life t = .blocked
  prio : ∀ o, ∀ t ∈ k'.view.queue o, k'.view.prio t = k.view.prio t

theorem Leaves.of_view (h : k.Listed) (hview : k'.view = k.view) : Leaves k k' := by
  refine ⟨?_, ?_, ?_⟩
  · intro o
    rw [hview]
  · intro o t ht
    rw [hview] at ht ⊢
    exact h o t ht
  · intro o t _
    rw [hview]

theorem Leaves.of_resume (h : k.Listed) (t : Tid) (err : RtErr)
    (hview : k'.view = ((k.view.setError t err).unlink t).setLife t .live) : Leaves k k' := by
  refine ⟨?_, ?_, ?_⟩
  · intro o
    rw [hview]
    exact filter_sublist
  · intro o u hu
    obtain ⟨hmem, hne⟩ : u ∈ k.view.queue o ∧ u ≠ t := by
      simpa [hview, setLife, unlink, setError] using hu
    rw [hview]
    simpa [setLife, unlink, setError, hne] using h o u hmem
  · intro o u _
    rw [hview]
    rfl

theorem Leaves.of_resumeFirst (h : k.Listed) {o : ι} (hs : k.rtIpcListResume o = some k') :
    Leaves k k' := by
  rw [Kernel.rtIpcListResume] at hs
  split at hs
  · next t rest hlist =>
    cases hs
    have hblocked : k.view.life t = .blocked := h o t (by simp [Kernel.view, hlist])
    refine .of_resume h t (k.view.error t) ?_
    rw [Kernel.view_rtThreadResume hblocked, View.setError_self]
  · cases hs

theorem Leaves.of_startup (h : k.Listed) (ht : (k.thread t).stat = .init) :
    Leaves k ((k.startupWrite t).rtThreadResume t).1 := by
  have hview := Kernel.view_startup h ht
  have hne : ∀ o u, u ∈ k.view.queue o → u ≠ t := by
    rintro o u hu rfl
    have hblocked := h o u hu
    simp [Kernel.view, ht, Stat.life] at hblocked
  refine ⟨?_, ?_, ?_⟩
  · intro o
    rw [hview]
    exact List.Sublist.refl _
  · intro o u hu
    rw [hview] at hu ⊢
    have hu' : u ∈ k.view.queue o := hu
    simpa [setLife, setPrio, hne o u hu'] using h o u hu'
  · intro o u hu
    rw [hview] at hu ⊢
    have hu' : u ∈ k.view.queue o := hu
    simp [setLife, setPrio, hne o u hu']

theorem Leaves.of_sleep (h : k.Listed) (ht : k.view.life t = .live)
    (hs : k.sleepSection t = some k') : Leaves k k' := by
  obtain ⟨r, hr, rfl⟩ := map_eq_some_iff.1 hs
  have hview := Kernel.view_rtThreadSuspend h ht hr
  refine ⟨?_, ?_, ?_⟩
  · intro o
    rw [Kernel.view_setTimer, hview]
    exact List.Sublist.refl _
  · intro o u hu
    rw [Kernel.view_setTimer, hview] at hu ⊢
    have hblocked := h o u hu
    by_cases hut : u = t
    · subst hut
      simp [setLife]
    · simpa [setLife, hut] using hblocked
  · intro o u _
    rw [Kernel.view_setTimer, hview]
    rfl

theorem Inv.leaves (h : Inv flag s) (hr : k'.ReadyInv) (hl : Leaves s.kernel k') :
    Inv flag { s with kernel := k' } := by
  refine ⟨hr, hl.life, fun o t ht => h.arrived o t ((hl.queue o).subset ht), fun o ho => ?_⟩
  have hsorted := (h.sorted o ho).sublist (hl.queue o)
  refine hsorted.imp_of_mem fun {t u} ht hu htu => ?_
  show Before k'.view.prio s.arrived t u
  rw [Before, hl.prio o t ht, hl.prio o u hu]
  exact htu

theorem Inv.arrive (h : Inv flag s) {o : ι} (ht : s.kernel.view.life t = .live)
    (hr : k'.ReadyInv) (err : RtErr)
    (hview : k'.view = ((s.kernel.view.setError t err).setLife t .blocked).link t o (flag o)) :
    Inv flag ⟨k', s.arrivals + 1, update s.arrived t s.arrivals⟩ := by
  have hnot : ∀ o', t ∉ s.kernel.view.queue o' := by
    intro o' hmem
    have hblocked := h.listed o' t hmem
    rw [ht] at hblocked
    cases hblocked
  have hqueue : k'.view.queue o =
      ipcListInsert (flag o) s.kernel.view.prio t (s.kernel.view.queue o) := by
    simp [hview, link, setLife, setError]
  have hother : ∀ o', o' ≠ o → k'.view.queue o' = s.kernel.view.queue o' := by
    intro o' ho'
    simp [hview, link, setLife, setError, ho']
  have hmem : ∀ o' u, u ∈ k'.view.queue o' → u = t ∨ u ≠ t ∧ u ∈ s.kernel.view.queue o' := by
    intro o' u hu
    by_cases hut : u = t
    · exact .inl hut
    · refine .inr ⟨hut, ?_⟩
      by_cases ho' : o' = o
      · subst ho'
        rw [hqueue] at hu
        exact (mem_ipcListInsert.1 hu).resolve_left hut
      · rwa [hother o' ho'] at hu
  have hprio : k'.view.prio = s.kernel.view.prio := by rw [hview]; rfl
  -- the threads in the lists have arrived before
  have hkeep : ∀ o', flag o' = .prio → (s.kernel.view.queue o').Pairwise
      (Before s.kernel.view.prio (update s.arrived t s.arrivals)) := by
    intro o' ho'
    refine (h.sorted o' ho').imp_of_mem fun {u w} hu hw huw => ?_
    have hut : u ≠ t := by
      rintro rfl
      exact hnot o' hu
    have hwt : w ≠ t := by
      rintro rfl
      exact hnot o' hw
    rwa [Before, update_of_ne hut, update_of_ne hwt]
  refine ⟨hr, fun o' u hu => ?_, fun o' u hu => ?_, fun o' ho' => ?_⟩
  · rcases hmem o' u hu with rfl | ⟨hne, hu'⟩
    · simp [hview, link, setLife]
    · simpa [hview, link, setLife, setError, hne] using h.listed o' u hu'
  · rcases hmem o' u hu with rfl | ⟨hne, hu'⟩
    · simp
    · have hlt := h.arrived o' u hu'
      simp only [update_of_ne hne]
      omega
  · show (k'.view.queue o').Pairwise (Before k'.view.prio _)
    rw [hprio]
    by_cases hoo : o' = o
    · subst hoo
      rw [hqueue, ho']
      refine pairwise_ipcListInsert (hkeep o' ho') fun u hu => ?_
      have hne : u ≠ t := by
        rintro rfl
        exact hnot o' hu
      simpa [hne] using h.arrived o' u hu
    · rw [hother o' hoo]
      exact hkeep o' ho'

theorem Inv.setPrio (h : Inv flag s) {p : ℕ} (hr : k'.ReadyInv)
    (hview : k'.view = s.kernel.view.setPrio t p)
    (hfits : ∀ o, flag o = .prio → t ∈ s.kernel.view.queue o →
      s.FitsIn t p (s.kernel.view.queue o)) : Inv flag { s with kernel := k' } := by
  have hqueue : ∀ o, k'.view.queue o = s.kernel.view.queue o := by
    intro o
    rw [hview]
    rfl
  have hprio : k'.view.prio = update s.kernel.view.prio t p := by rw [hview]; rfl
  refine ⟨hr, fun o u hu => ?_, fun o u hu => ?_, fun o ho => ?_⟩
  · rw [hqueue] at hu
    rw [hview]
    exact h.listed o u hu
  · rw [hqueue] at hu
    exact h.arrived o u hu
  · show (k'.view.queue o).Pairwise (Before k'.view.prio s.arrived)
    rw [hqueue, hprio]
    by_cases hmem : t ∈ s.kernel.view.queue o
    · exact hfits o ho hmem
    · refine (h.sorted o ho).imp_of_mem fun {u w} hu hw huw => ?_
      have hut : u ≠ t := by
        rintro rfl
        exact hmem hu
      have hwt : w ≠ t := by
        rintro rfl
        exact hmem hw
      rwa [Before, update_of_ne hut, update_of_ne hwt]

theorem Inv.setLock (h : Inv flag s) (nest : Int16) :
    Inv flag { s with kernel := { s.kernel with schedulerLockNest := nest } } :=
  h.leaves (h.ready.setLock nest) (.of_view h.listed rfl)

theorem inv_step {a : ListAction Tid ι} {out : List Tid} (h : Inv flag s) (hf : Fits flag s a)
    (hs : s.step flag a = some (s', out)) : Inv flag s' := by
  cases a with
  | startup t =>
    simp only [step, ite_none_right_eq_some, some.injEq, Prod.mk.injEq] at hs
    obtain ⟨hinit, rfl, -⟩ := hs
    exact h.leaves ((Kernel.Unscheduled.startup hinit).ready h.ready) (.of_startup h.listed hinit)
  | schedulerStart =>
    simp only [step, ite_none_right_eq_some] at hs
    obtain ⟨hnone, hs⟩ := hs
    obtain ⟨k', hk', hs⟩ := map_eq_some_iff.1 hs
    cases hs
    exact h.leaves (h.ready.rtSystemSchedulerStart hnone hk')
      (.of_view h.listed (Kernel.view_rtSystemSchedulerStart h.ready h.listed hk'))
  | schedule =>
    obtain ⟨k', hk', hs⟩ := map_eq_some_iff.1 hs
    cases hs
    exact h.leaves (h.ready.rtSchedule hk').1
      (.of_view h.listed (Kernel.view_rtSchedule h.ready h.listed hk'))
  | suspend o time =>
    simp only [step] at hs
    split at hs
    · next t hcur =>
      simp only [ite_none_right_eq_some] at hs
      obtain ⟨hlive, hs⟩ := hs
      obtain ⟨k', hk', hs⟩ := map_eq_some_iff.1 hs
      cases hs
      have hlisted : (s.kernel.setError t .eok).Listed := by
        intro o' u hu
        rw [Kernel.view_setError] at hu ⊢
        exact h.listed o' u hu
      apply Inv.arrive h (o := o) hlive
        ((Kernel.Unscheduled.ipcSuspend hk').ready (h.ready.setError t .eok)) .eok
      rw [Kernel.view_ipcSuspend hlisted (by simpa [setError] using hlive) hk',
        Kernel.view_setError]
    · cases hs
  | resumeFirst o =>
    obtain ⟨k', hk', hs⟩ := map_eq_some_iff.1 hs
    cases hs
    exact h.leaves ((Kernel.Unscheduled.rtIpcListResume hk').ready h.ready)
      (.of_resumeFirst h.listed hk')
  | resume o t =>
    simp only [step, ite_none_right_eq_some, some.injEq, Prod.mk.injEq] at hs
    obtain ⟨hmem, rfl, -⟩ := hs
    apply h.leaves ((Kernel.Unscheduled.rtThreadResume _ t).ready h.ready)
    refine .of_resume h.listed t (s.kernel.view.error t) ?_
    rw [Kernel.view_rtThreadResume (h.listed o t hmem), View.setError_self]
  | resumeAll o =>
    obtain ⟨k', hk', hs⟩ := map_eq_some_iff.1 hs
    cases hs
    obtain ⟨next, rest, -, hview⟩ := Kernel.view_resumeAllSection h.listed hk'
    exact h.leaves ((Kernel.Unscheduled.resumeAllSection hk').ready h.ready)
      (.of_resume h.listed _ _ hview)
  | sleep =>
    simp only [step] at hs
    split at hs
    · next t hcur =>
      simp only [ite_none_right_eq_some] at hs
      obtain ⟨hlive, hs⟩ := hs
      obtain ⟨k', hk', hs⟩ := map_eq_some_iff.1 hs
      cases hs
      exact h.leaves (h.ready.sleepSection hk') (.of_sleep h.listed hlive hk')
    · cases hs
  | timeout t =>
    simp only [step, ite_none_right_eq_some] at hs
    obtain ⟨-, hs⟩ := hs
    obtain ⟨k', hk', hs⟩ := map_eq_some_iff.1 hs
    cases hs
    exact h.leaves (h.ready.timeoutSection hk')
      (.of_resume h.listed _ _ (Kernel.view_timeoutSection hk').2)
  | control t p =>
    simp only [step, ite_none_right_eq_some, some.injEq, Prod.mk.injEq] at hs
    obtain ⟨hp, rfl, -⟩ := hs
    exact h.setPrio (h.ready.rtThreadControl hp) (Kernel.view_rtThreadControl h.listed t p) hf
  | enterCritical =>
    cases hs
    exact h.setLock _
  | exitCritical =>
    cases hs
    rw [Kernel.rtExitCritical]
    split <;> exact h.setLock _

theorem inv_boot (flag : ι → IpcFlag) {prio : Tid → ℕ} (hprio : ∀ t, prio t < priorityMax) :
    Inv flag (boot prio : ListSys Tid ι) :=
  ⟨.rtSystemSchedulerInit (fun _ => rfl) fun t => ⟨hprio t, hprio t⟩, nofun, nofun,
    fun _ _ => List.Pairwise.nil⟩

/-- In every run in which new priorities fit, a suspend list with `RT_IPC_FLAG_PRIO` is sorted
by the current priorities, threads of equal priority in the order of their arrivals, so that
its first thread has the highest priority in it. -/
theorem run_sorted (flag : ι → IpcFlag) (prio : Tid → ℕ) (hprio : ∀ t, prio t < priorityMax)
    (woken : List Tid) (s : ListSys Tid ι)
    (hrun : Run (step flag) (Fits flag) (boot prio) woken s) (o : ι) (ho : flag o = .prio) :
    (s.kernel.list (.suspended o)).Pairwise (Before s.kernel.view.prio s.arrived) ∧
      ∀ next ∈ (s.kernel.list (.suspended o)).head?, ∀ t ∈ s.kernel.list (.suspended o),
        s.kernel.view.prio next ≤ s.kernel.view.prio t := by
  have hinv := hrun.invariant (fun _ s => Inv flag s) (inv_boot flag hprio)
    fun h hf hs => inv_step h hf hs
  have hsorted : (s.kernel.list (.suspended o)).Pairwise
      (Before s.kernel.view.prio s.arrived) := hinv.sorted o ho
  refine ⟨hsorted, ?_⟩
  intro next hnext t ht
  obtain ⟨rest, hlist⟩ := head?_eq_some_iff.1 hnext
  rw [hlist] at hsorted ht
  rcases mem_cons.1 ht with rfl | ht
  · exact le_rfl
  · rcases (pairwise_cons.1 hsorted).1 t ht with hlt | ⟨heq, -⟩
    · exact hlt.le
    · exact heq.le

/-- Threads 2 and 1 wait, in this order. -/
def bothWait : List (ListAction (Fin 3) Unit) :=
  [.startup 0, .startup 1, .startup 2, .schedulerStart, .suspend () (-1), .schedule,
    .suspend () (-1), .schedule]

end ListSys

namespace ListSys

/-- Thread 1 gets a higher priority, but not as high as that of thread 2. -/
theorem run_sorted_fits :
    letI := config32
    ∃ s : ListSys (Fin 3) Unit, s.kernel.list (.suspended ()) = [2, 1] ∧
      s.kernel.view.prio 1 = 15 ∧ s.kernel.view.prio 2 ≤ s.kernel.view.prio 1 := by
  let _ := config32
  have hsome : (exec (step fun _ => .prio) (Fits fun _ => .prio)
      (boot fun t : Fin 3 => 31 - 10 * t.val) (bothWait ++ [ListAction.control 1 15])).any fun r =>
        r.1.kernel.list (.suspended ()) = [2, 1] ∧ r.1.kernel.view.prio 1 = 15 := by
    decide +kernel
  obtain ⟨s, woken, hrun, hr⟩ := Run.of_any hsome
  obtain ⟨hlist, hprio⟩ : s.kernel.list (.suspended ()) = [2, 1] ∧ s.kernel.view.prio 1 = 15 :=
    hr
  have hsorted := run_sorted (fun _ : Unit => .prio) (fun t : Fin 3 => 31 - 10 * t.val) (by decide)
    woken s hrun () rfl
  exact ⟨s, hlist, hprio, hsorted.2 2 (by simp [hlist]) 1 (by simp [hlist])⟩

/-- Thread 1 gets a higher priority than thread 2, and **stays behind it**. -/
theorem not_run_sorted :
    ¬ ∀ [RtConfig] (flag : Unit → IpcFlag) (prio : Fin 3 → ℕ) (_ : ∀ t, prio t < priorityMax)
      (woken : List (Fin 3)) (s : ListSys (Fin 3) Unit)
      (_ : Run (step flag) (fun _ _ => True) (boot prio) woken s) (o : Unit) (_ : flag o = .prio),
      ∀ next ∈ (s.kernel.list (.suspended o)).head?, ∀ t ∈ s.kernel.list (.suspended o),
        s.kernel.view.prio next ≤ s.kernel.view.prio t := by
  intro h
  let _ := config32
  have hsome : (exec (step fun _ => .prio) (fun _ _ => True)
      (boot fun t : Fin 3 => 31 - 10 * t.val) (bothWait ++ [ListAction.control 1 5])).any fun r =>
        r.1.kernel.list (.suspended ()) = [2, 1] ∧ r.1.kernel.view.prio 1 = 5 ∧
          r.1.kernel.view.prio 2 = 11 := by
    decide +kernel
  obtain ⟨s, woken, hrun, hr⟩ := Run.of_any hsome
  obtain ⟨hlist, hprio₁, hprio₂⟩ : s.kernel.list (.suspended ()) = [2, 1] ∧
      s.kernel.view.prio 1 = 5 ∧ s.kernel.view.prio 2 = 11 := hr
  have hle := h (fun _ => .prio) (fun t : Fin 3 => 31 - 10 * t.val) (by decide) woken s
    hrun () rfl 2 (by simp [hlist]) 1 (by simp [hlist])
  rw [hprio₁, hprio₂] at hle
  exact absurd hle (by decide)

end ListSys

end RtThread
