import McCortexM3.Ipc.View
import McCortexM3.Ipc.Waits

/-!
# The interleaved calls refine the waits

Each step of the system of `Ipc/Sys.lean` is one operation of `Ipc/Waits.lean`, or none: a
thread waits for the object of its call while it is suspended, and has ended its wait when
it can run again and has not yet returned.

## Main definitions

* `IpcSys.waitSys` — the waits behind a state.
* `IpcSys.op` — the operation that an action performs.
* `IpcSys.Inv` — the invariant of the interleavings.

## Main results

* `IpcSys.refines_step` — every step keeps the invariant and is its operation.
* `IpcSys.run_refines` — every run is a run of the waits.
-/

set_option linter.all false

namespace RtThread

open Function Option List
open Function (update)
open View (link resumeAll setError setError_self setLife setPrio unlink)
open WaitSys (beginWait endWait giveUp setMutex_self setSem setSem_self takeFree)

/-- The object that a thread at this place waits for or has waited for. -/
def Pc.waitsFor {M S : Type} : Pc M S → Option (M ⊕ S)
  | .schedule o _ => some o
  | .wait o _ => some o
  | _ => none

/-- The mode of a thread from its life, its error code and its place. -/
def modeOf {ι : Type} (life : Life) (err : RtErr) : Option ι → Mode ι
  | some o =>
    match life with
    | .unborn => .unborn
    | .blocked => .waiting o
    | _ => .ended o err
  | none =>
    match life with
    | .unborn => .unborn
    | _ => .outside

namespace IpcSys

variable [RtConfig] {Tid M S : Type} [DecidableEq Tid] [DecidableEq M] [DecidableEq S]

/-- The waits behind a view, when `w` are the objects that the threads wait for. -/
def waitsOf (v : View Tid (M ⊕ S)) (w : Tid → Option (M ⊕ S)) (mutex : M → Mutex Tid)
    (sem : S → Semaphore) : WaitSys Tid M S where
  mode := fun t => modeOf (v.life t) (v.error t) (w t)
  prio := v.prio
  queue := v.queue
  mutex := mutex
  sem := sem

/-- The waits behind a state. -/
def waitSys (s : IpcSys Tid M S) : WaitSys Tid M S :=
  waitsOf s.kernel.view (fun t => (s.pc t).waitsFor) s.mutex s.sem

/-- The operation of the next part of the call of `t`. -/
def contOp (s : IpcSys Tid M S) (t : Tid) : Pc M S → Option (WaitOp Tid M S)
  | .entered (.mutexTake m time) => some (.mutexTake t m (time ≠ 0))
  | .entered (.mutexRelease m) => some (.mutexRelease t m)
  | .entered (.semTake σ time) => some (.semTake (some t) σ (time ≠ 0))
  | .entered (.semRelease σ) => some (.semRelease σ)
  | .entered (.semControl σ value) => some (.semControl σ value)
  | .resumeNext o => (s.kernel.list (.suspended o)).head?.map (.wake · .error)
  | .wait _ _ => some (.ret t)
  | _ => none

/-- The operation that an action performs, if any. -/
def op (s : IpcSys Tid M S) : IpcAction Tid M S → Option (WaitOp Tid M S)
  | .startup t => some (.startup t (s.kernel.thread t).initPriority)
  | .timeout t => some (.wake t .etimeout)
  | .control t p => some (.control t p)
  | .isrSemTake σ => some (.semTake none σ false)
  | .isrSemRelease σ => some (.semRelease σ)
  | .cont => s.kernel.currentThread.bind fun t => s.contOp t (s.pc t)
  | _ => none

/-! ### The invariant -/

/-- What holds of each thread: a suspended thread waits without an error, no thread is
interrupted by a signal or closed, only a started thread is in a call, and a thread that
has called `rt_schedule` to wait runs again when it can. -/
structure ThreadOk (life : Life) (err : RtErr) (pc : Pc M S) (current : Prop) : Prop where
  blocked : life = .blocked → err = .eok ∧ pc.waitsFor.isSome
  noEintr : err ≠ .eintr
  notClosed : life ≠ .closed
  started : life = .unborn → pc = .outside
  back : ∀ o time, current → pc = .wait o time → life ≠ .blocked

/-- The invariant of the interleavings. -/
structure Inv (idle : Tid) (s : IpcSys Tid M S) : Prop where
  ready : s.kernel.ReadyInv
  lock : s.kernel.schedulerLockNest = 0
  queued : s.waitSys.Queued
  threads : ∀ t, ThreadOk (s.kernel.view.life t) (s.kernel.view.error t) (s.pc t)
    (s.kernel.currentThread = some t)
  idle : s.kernel.view.life idle = .live ∧ s.pc idle = .outside
  saved : ∀ m, (s.mutex m).owner ≠ none → (s.mutex m).originalPriority < priorityMax

variable {idle t : Tid} {s s' : IpcSys Tid M S}

theorem modeOf_eq_waiting {ι : Type} {life : Life} {err : RtErr} {w : Option ι} {o : ι} :
    modeOf life err w = .waiting o ↔ life = .blocked ∧ w = some o := by
  cases w <;> cases life <;> simp [modeOf]

theorem modeOf_eq_outside {ι : Type} {life : Life} {err : RtErr} {w : Option ι} :
    modeOf life err w = .outside ↔ life ≠ .unborn ∧ w = none := by
  cases w <;> cases life <;> simp [modeOf]

/-! ### The waits behind a view -/

section WaitsOf

variable {v : View Tid (M ⊕ S)} (w : Tid → Option (M ⊕ S)) {mutex : M → Mutex Tid}
  {sem : S → Semaphore} (t : Tid) {o : M ⊕ S}

theorem waitsOf_resume {err : RtErr} (hw : w t = some o) :
    waitsOf (((v.setError t err).unlink t).setLife t .live) w mutex sem =
      (waitsOf v w mutex sem).endWait t o err := by
  ext1
  · funext u
    by_cases hu : u = t
    · subst hu
      simp [waitsOf, endWait, setLife, unlink, setError, modeOf, hw]
    · simp [waitsOf, endWait, setLife, unlink, setError, hu]
  all_goals rfl

theorem waitsOf_suspend {flag : IpcFlag} :
    waitsOf ((v.setLife t .blocked).link t o flag) (update w t (some o)) mutex sem =
      (waitsOf v w mutex sem).beginWait t o flag := by
  ext1
  · funext u
    by_cases hu : u = t
    · subst hu
      simp [waitsOf, beginWait, setLife, link, modeOf]
    · simp [waitsOf, beginWait, setLife, link, hu]
  all_goals rfl

theorem waitsOf_setError {err : RtErr} (hw : w t = none) :
    waitsOf (v.setError t err) w mutex sem = waitsOf v w mutex sem := by
  ext1
  · funext u
    by_cases hu : u = t
    · subst hu
      simp [waitsOf, setError, modeOf, hw]
    · simp [waitsOf, setError, hu]
  all_goals rfl

end WaitsOf

theorem waitsFor_update (pc : Tid → Pc M S) (t : Tid) (p : Pc M S) :
    (fun u => (update pc t p u).waitsFor) = update (fun u => (pc u).waitsFor) t p.waitsFor :=
  comp_update Pc.waitsFor pc t p

theorem waitSys_goto (s : IpcSys Tid M S) (p : Pc M S) (h : p.waitsFor = (s.pc t).waitsFor) :
    (s.goto t p).waitSys = s.waitSys := by
  have hw : (fun u => (update s.pc t p u).waitsFor) = fun u => (s.pc u).waitsFor := by
    rw [waitsFor_update, h]
    exact update_eq_self ..
  rw [waitSys, goto, hw]
  rfl

@[simp] theorem waitSys_mutex (s : IpcSys Tid M S) : s.waitSys.mutex = s.mutex := rfl

@[simp] theorem waitSys_sem (s : IpcSys Tid M S) : s.waitSys.sem = s.sem := rfl

@[simp] theorem waitSys_prio (s : IpcSys Tid M S) : s.waitSys.prio = s.prio := rfl

@[simp] theorem waitSys_queue (s : IpcSys Tid M S) (o : M ⊕ S) :
    s.waitSys.queue o = s.kernel.list (.suspended o) := rfl

namespace Inv

theorem listed (h : Inv idle s) : s.kernel.Listed := fun o t ht =>
  (modeOf_eq_waiting.1 ((h.queued o t).1 ht)).1

/-- The current thread is not suspended unless it is about to call `rt_schedule`, and then
it runs. -/
theorem current_live (h : Inv idle s) (hcur : s.kernel.currentThread = some t)
    (hw : (s.pc t).waitsFor = none) : s.kernel.view.life t = .live := by
  have hok := h.threads t
  have hstat := (h.ready.current t hcur).2
  cases hlife : s.kernel.view.life t with
  | unborn => exact absurd (Stat.life_eq_unborn.1 hlife) hstat
  | blocked => simpa [hw] using (hok.blocked hlife).2
  | live => rfl
  | closed => exact absurd hlife hok.notClosed

theorem next (h : Inv idle s) (t : Tid) (hk : Kernel.Unscheduled s.kernel s'.kernel)
    (hqueued : s'.waitSys.Queued)
    (hother : ∀ u, u ≠ t → s'.kernel.view.life u = s.kernel.view.life u ∧
      s'.kernel.view.error u = s.kernel.view.error u ∧ s'.pc u = s.pc u)
    (ht : ThreadOk (s'.kernel.view.life t) (s'.kernel.view.error t) (s'.pc t)
      (s.kernel.currentThread = some t))
    (hidle : t = idle → s'.kernel.view.life t = .live ∧ s'.pc t = .outside)
    (hsaved : ∀ m, (s'.mutex m).owner ≠ none → (s'.mutex m).originalPriority < priorityMax) :
    Inv idle s' := by
  refine ⟨hk.ready h.ready, hk.lock.trans h.lock, hqueued, ?_, ?_, hsaved⟩
  · intro u
    rw [hk.current]
    by_cases hu : u = t
    · subst hu
      exact ht
    · obtain ⟨hlife, herror, hpc⟩ := hother u hu
      rw [hlife, herror, hpc]
      exact h.threads u
  · by_cases hi : t = idle
    · subst hi
      exact hidle rfl
    · obtain ⟨hlife, -, hpc⟩ := hother idle (Ne.symm hi)
      rw [hlife, hpc]
      exact h.idle

theorem schedule (h : Inv idle s) {k : Kernel Tid (M ⊕ S)} (hs : s.kernel.rtSchedule = some k) :
    Inv idle { s with kernel := k } ∧ k.view = s.kernel.view ∧
      ∀ c, k.currentThread = some c → s.kernel.view.life c = .live := by
  have hview := Kernel.view_rtSchedule h.ready h.listed hs
  obtain ⟨hlock, hcur⟩ := Kernel.rtSchedule_current h.ready h.lock h.idle.1 hs
  refine ⟨⟨(h.ready.rtSchedule hs).1, hlock, ?_, ?_, ?_, h.saved⟩, hview, hcur⟩
  · exact h.queued.congr (by simp only [waitSys, hview]) (by simp only [waitSys, hview])
  · intro t
    simp only [hview]
    have hok := h.threads t
    refine ⟨hok.blocked, hok.noEintr, hok.notClosed, hok.started, ?_⟩
    intro o time hc _
    rw [hcur t hc]
    decide
  · simp only [hview]
    exact h.idle

end Inv

/-! ### Keeping the invariant -/

theorem ThreadOk.of_live {err : RtErr} {pc : Pc M S} {current : Prop} (h : err ≠ .eintr) :
    ThreadOk .live err pc current := ⟨nofun, h, nofun, nofun, nofun⟩

theorem ThreadOk.of_schedule {o : M ⊕ S} {time : ℤ} {current : Prop} :
    ThreadOk .blocked .eok (.schedule o time) current :=
  ⟨fun _ => ⟨rfl, rfl⟩, by decide, by decide, nofun, nofun⟩

/-- What a step promises: the invariant, and the waits have made the operation, if any. -/
def Refines (idle : Tid) (s : IpcSys Tid M S) (o : Option (WaitOp Tid M S))
    (r : IpcSys Tid M S × List (IpcEvent Tid M S)) : Prop :=
  Inv idle r.1 ∧
    match o with
    | none => r.1.waitSys = s.waitSys ∧ r.2 = []
    | some o => s.waitSys.step o = some (r.1.waitSys, r.2)

section

variable (h : Inv idle s)
include h

theorem Inv.mode_outside (hcur : s.kernel.currentThread = some t)
    (hw : (s.pc t).waitsFor = none) : s.waitSys.mode t = .outside := by
  have hlive := h.current_live hcur hw
  exact modeOf_eq_outside.2 ⟨by simp [hlive], hw⟩

theorem Inv.prio_lt (t : Tid) : s.kernel.view.prio t < priorityMax :=
  (h.ready.queue.prio_lt t).1

theorem Inv.saved_update {m : M} {mutex : Mutex Tid}
    (hm : mutex.owner ≠ none → mutex.originalPriority < priorityMax) (m' : M)
    (ho : (update s.mutex m mutex m').owner ≠ none) :
    (update s.mutex m mutex m').originalPriority < priorityMax := by
  by_cases hmm : m' = m
  · subst hmm
    simp only [update_self] at ho ⊢
    exact hm ho
  · simp only [update_of_ne hmm] at ho ⊢
    exact h.saved m' ho

/-- A section of the current thread `t` after which it can run keeps the invariant. -/
theorem Inv.next_live (hne : t ≠ idle)
    (hk : Kernel.Unscheduled s.kernel s'.kernel) (hqueued : s'.waitSys.Queued) {err : RtErr}
    (hview : s'.kernel.view.life = s.kernel.view.life ∧
      s'.kernel.view.error = update s.kernel.view.error t err)
    (hpc : ∀ u, u ≠ t → s'.pc u = s.pc u) (hlive : s.kernel.view.life t = .live)
    (herr : err ≠ .eintr)
    (hsaved : ∀ m, (s'.mutex m).owner ≠ none → (s'.mutex m).originalPriority < priorityMax) :
    Inv idle s' := by
  refine h.next t hk hqueued (fun u hu => ⟨?_, ?_, hpc u hu⟩) ?_ (fun he => absurd he hne) hsaved
  · rw [hview.1]
  · rw [hview.2, update_of_ne hu]
  · rw [hview.1, hview.2, hlive, update_self]
    exact .of_live herr

theorem Inv.waiting {u : Tid} {o : M ⊕ S} (hu : u ∈ s.kernel.list (.suspended o)) :
    s.kernel.view.life u = .blocked ∧ (s.pc u).waitsFor = some o ∧
      s.kernel.view.error u = .eok := by
  obtain ⟨hlife, hw⟩ := modeOf_eq_waiting.1 ((h.queued o u).1 hu)
  exact ⟨hlife, hw, ((h.threads u).blocked hlife).1⟩

theorem Inv.wake (u : Tid) (hk : Kernel.Unscheduled s.kernel s'.kernel)
    (hqueued : s'.waitSys.Queued) {err : RtErr}
    (hlife : s'.kernel.view.life = update s.kernel.view.life u .live)
    (herror : s'.kernel.view.error = update s.kernel.view.error u err)
    (herr : err ≠ .eintr) (hpc : s'.pc = s.pc)
    (hsaved : ∀ m, (s'.mutex m).owner ≠ none → (s'.mutex m).originalPriority < priorityMax) :
    Inv idle s' := by
  refine h.next u hk hqueued (fun v hv => ⟨?_, ?_, congrFun hpc v⟩) ?_ (fun he => ⟨?_, ?_⟩) hsaved
  · rw [hlife, update_of_ne hv]
  · rw [herror, update_of_ne hv]
  · rw [hlife, herror, update_self, update_self]
    exact .of_live herr
  · rw [hlife, he, update_self]
  · rw [hpc, he]
    exact h.idle.2

theorem Inv.goto (hne : t ≠ idle) (hlive : s.kernel.view.life t = .live)
    {p : Pc M S} (hp : p.waitsFor = (s.pc t).waitsFor) : Inv idle (s.goto t p) := by
  refine h.next t (.refl _) ?_ (fun u hu => ⟨rfl, rfl, update_of_ne hu ..⟩) ?_
    (fun he => absurd he hne) h.saved
  · rw [waitSys_goto s p hp]
    exact h.queued
  · simp only [IpcSys.goto, update_self, hlive]
    exact .of_live (h.threads t).noEintr

end

/-! ### Steps that are operations -/

/-- A step is an operation, and keeps the invariant if the queues are right after it. -/
theorem Refines.of_step (h : Inv idle s) {o : WaitOp Tid M S} {out : List (IpcEvent Tid M S)}
    (hstep : s.waitSys.step o = some (s'.waitSys, out))
    (hinv : s'.waitSys.Queued → Inv idle s') : Refines idle s (some o) (s', out) :=
  ⟨hinv (WaitSys.queued_step h.queued hstep), hstep⟩

theorem Refines.goto {o : Option (WaitOp Tid M S)} {out : List (IpcEvent Tid M S)}
    (h : Refines idle s o (s', out)) (hne : t ≠ idle) (hcur : s'.kernel.currentThread = some t)
    (hpc : (s'.pc t).waitsFor = none) {p : Pc M S} (hp : p.waitsFor = none) :
    Refines idle s o (s'.goto t p, out) := by
  obtain ⟨hinv, hop⟩ := h
  refine ⟨hinv.goto hne (hinv.current_live hcur hpc) (hp.trans hpc.symm), ?_⟩
  cases o <;> simpa only [waitSys_goto _ _ (hp.trans hpc.symm)] using hop

section

variable (h : Inv idle s) (hcur : s.kernel.currentThread = some t) (hpc : (s.pc t).waitsFor = none)
  (hne : t ≠ idle)
include h hcur hpc hne

theorem Refines.of_mutex {k : Kernel Tid (M ⊕ S)} {m : M}
    {mutex : Mutex Tid} {err : RtErr} (hk : Kernel.Unscheduled s.kernel k)
    (hview : k.view = s.kernel.view.setError t err) (herr : err ≠ .eintr)
    (hsaved : mutex.owner ≠ none → mutex.originalPriority < priorityMax)
    {o : WaitOp Tid M S} {out : List (IpcEvent Tid M S)}
    (hstep : s.waitSys.step o = some (s.waitSys.setMutex m mutex, out)) {p : Pc M S}
    (hp : p.waitsFor = none) :
    Refines idle s (some o)
      (({ s with kernel := k, mutex := update s.mutex m mutex }).goto t p, out) := by
  have hlive := h.current_live hcur hpc
  have hwait : ({ s with kernel := k, mutex := update s.mutex m mutex } :
      IpcSys Tid M S).waitSys = s.waitSys.setMutex m mutex := by
    rw [waitSys, hview, waitsOf_setError (fun u => (s.pc u).waitsFor) t hpc]
    rfl
  have hlife : k.view.life = s.kernel.view.life := by
    rw [hview]
    rfl
  have herror : k.view.error = update s.kernel.view.error t err := by
    rw [hview]
    rfl
  rw [← hwait] at hstep
  refine (Refines.of_step h hstep ?_).goto hne (hk.current.trans hcur) hpc hp
  intro hq
  exact h.next_live hne hk hq ⟨hlife, herror⟩ (fun _ _ => rfl) hlive herr
    fun m' => h.saved_update hsaved m'

theorem Refines.of_suspend {k k' : Kernel Tid (M ⊕ S)} {o : M ⊕ S}
    {flag : IpcFlag} {time : ℤ} (hk : Kernel.Unscheduled s.kernel k)
    (hlife : k.view.life = s.kernel.view.life)
    (herror : k.view.error = update s.kernel.view.error t .eok)
    (hqueue : k.view.queue = s.kernel.view.queue) (hs : k.ipcSuspend o t flag time = some k')
    {op : WaitOp Tid M S}
    (hstep : s.waitSys.step op = some ((waitsOf k.view (fun u => (s.pc u).waitsFor) s.mutex
      s.sem).beginWait t o flag, [])) :
    Refines idle s (some op) (({ s with kernel := k' }).goto t (.schedule o time), []) := by
  have hlisted : k.Listed := by
    rw [Kernel.Listed, hlife, hqueue]
    exact h.listed
  have hlive : k.view.life t = .live := by rw [hlife, h.current_live hcur hpc]
  have hview := Kernel.view_ipcSuspend hlisted hlive hs
  have hwait : (({ s with kernel := k' }).goto t (.schedule o time)).waitSys =
      (waitsOf k.view (fun u => (s.pc u).waitsFor) s.mutex s.sem).beginWait t o flag := by
    rw [← waitsOf_suspend, ← hview]
    simp only [IpcSys.goto, waitSys, waitsFor_update]
    rfl
  rw [← hwait] at hstep
  refine Refines.of_step h hstep fun hq => h.next t (hk.trans (.ipcSuspend hs)) hq
    (fun u hu => ⟨?_, ?_, update_of_ne hu ..⟩) ?_ (fun he => absurd he hne) h.saved
  · exact (congrFun (congrArg View.life hview) u).trans (by simp [link, setLife, hu, hlife])
  · exact (congrFun (congrArg View.error hview) u).trans
      (by simp [link, setLife, hu, herror])
  · have hlife' : k'.view.life t = .blocked := by simp [hview, link, setLife]
    have herror' : k'.view.error t = .eok := by simp [hview, link, setLife, herror]
    simp only [IpcSys.goto, update_self, hlife', herror']
    exact .of_schedule

end

/-! ### The sections of the mutexes -/

section

variable (h : Inv idle s) (hcur : s.kernel.currentThread = some t) (hpc : (s.pc t).waitsFor = none)
include h hcur hpc

/-- A take that has to wait: the owner may inherit the priority of `t`, which is then
suspended. -/
theorem refines_mutexWait (hne : t ≠ idle) {m : M} {time : ℤ} {owner : Tid}
    (howner : (s.mutex m).owner = some owner) (hother : owner ≠ t)
    (hvalue : ¬ (s.mutex m).value > 0) (htime : time ≠ 0) {k : Kernel Tid (M ⊕ S)}
    (hs : (if s.prio t < s.prio owner then
        (s.kernel.setError t .eok).rtThreadControl owner (s.prio t)
      else s.kernel.setError t .eok).ipcSuspend (.inl m) t (s.mutex m).flag time = some k) :
    Refines idle s (some (.mutexTake t m (time ≠ 0)))
      (s.afterMutexTake t m time (k, s.mutex m, none)) := by
  have hmode := h.mode_outside hcur hpc
  have herror : (s.kernel.setError t .eok).view = s.kernel.view.setError t .eok := by simp
  have hlisted : (s.kernel.setError t .eok).Listed := by
    rw [Kernel.Listed, herror]
    exact h.listed
  generalize hk₁ : (if s.prio t < s.prio owner then
    (s.kernel.setError t .eok).rtThreadControl owner (s.prio t)
    else s.kernel.setError t .eok) = k₁ at hs
  have hview₁ : k₁.view = if s.prio t < s.prio owner then
      (s.kernel.view.setError t .eok).setPrio owner (s.prio t)
      else s.kernel.view.setError t .eok := by
    rw [← hk₁, apply_ite Kernel.view, Kernel.view_rtThreadControl hlisted, herror]
  have hun₁ : Kernel.Unscheduled s.kernel k₁ := by
    rw [← hk₁]
    refine (Kernel.Unscheduled.setError s.kernel t .eok).trans ?_
    split
    · exact .rtThreadControl _ _ (h.prio_lt t)
    · exact .refl _
  have hwaits₁ : waitsOf k₁.view (fun u => (s.pc u).waitsFor) s.mutex s.sem =
      if s.prio t < s.prio owner then s.waitSys.setPrio owner (s.prio t) else s.waitSys := by
    rw [hview₁]
    split
    · exact waitsOf_setError (v := s.kernel.view.setPrio owner (s.prio t)) _ t hpc
    · exact waitsOf_setError _ t hpc
  have hstep : s.waitSys.step (.mutexTake t m (time ≠ 0)) = some ((waitsOf k₁.view
      (fun u => (s.pc u).waitsFor) s.mutex s.sem).beginWait t (.inl m) (s.mutex m).flag, []) := by
    rw [hwaits₁]
    simp [WaitSys.step, takeFree, hmode, howner, hother, hvalue, htime]
    rfl
  have hsame : s.afterMutexTake t m time (k, s.mutex m, none) =
      (({ s with kernel := k }).goto t (.schedule (.inl m) time), []) := by
    simp [afterMutexTake, ownerEvents]
  rw [hsame]
  -- neither the error code nor a priority decides who waits
  refine Refines.of_suspend h hcur hpc hne hun₁ ?_ ?_ ?_ hs hstep
  all_goals
    rw [hview₁]
    split <;> rfl

theorem refines_mutexTake (hne : t ≠ idle) {m : M} {time : ℤ}
    {r : Kernel Tid (M ⊕ S) × Mutex Tid × Option RtErr}
    (hs : s.kernel.rtMutexTake (.inl m) t time (s.mutex m) = some r) :
    Refines idle s (some (.mutexTake t m (time ≠ 0))) (s.afterMutexTake t m time r) := by
  have hmode := h.mode_outside hcur hpc
  have herror : (s.kernel.setError t .eok).view = s.kernel.view.setError t .eok := by simp
  have hprio : ∀ u, ((s.kernel.setError t .eok).thread u).currentPriority = s.prio u :=
    fun u => congrFun (congrArg View.prio herror) u
  rw [Kernel.rtMutexTake] at hs
  split at hs
  · next howner =>
    cases hs
    refine Refines.of_mutex h hcur hpc hne (.setError _ _ _) herror (by decide) ?_ ?_ ?_
    · exact h.saved m
    · simp [WaitSys.step, hmode, ownerEvents, howner]
    · rfl
  · next howner =>
    rw [Kernel.rtMutexTakeAgain] at hs
    split at hs
    · next hvalue =>
      cases hs
      refine Refines.of_mutex h hcur hpc hne (.setError _ _ _) herror (by decide) ?_ ?_ ?_
      · intro _
        exact hprio t ▸ h.prio_lt t
      · simp [WaitSys.step, takeFree, hmode, howner, hvalue, hprio]
      · rfl
    · next hvalue =>
      split at hs
      · next htime =>
        cases hs
        refine Refines.of_mutex h hcur hpc hne
          ((Kernel.Unscheduled.setError _ _ _).trans (.setError _ _ _)) ?_
          (show RtErr.etimeout ≠ .eintr by decide) (h.saved m) ?_ ?_
        · simp [setError]
        · rw [← waitSys_mutex, setMutex_self]
          simp [WaitSys.step, takeFree, hmode, howner, hvalue, htime, ownerEvents]
        · rfl
      · next htime =>
        split at hs
        · cases hs
        · next owner how =>
          obtain ⟨k', hk', rfl⟩ := map_eq_some_iff.1 hs
          simp only [hprio] at hk'
          exact refines_mutexWait h hcur hpc hne how (fun he => howner (he ▸ how)) hvalue htime hk'

theorem Inv.step_giveUp {m : M} (howner : (s.mutex m).owner = some t)
    (hhold : (s.mutex m).hold - 1 = 0) :
    s.waitSys.step (.mutexRelease t m) = some (s.waitSys.giveUp t m,
      ownerEvents m s.prio (s.mutex m).owner (s.kernel.list (.suspended (.inl m))).head? ++
        [IpcEvent.mutexRelease t m .eok]) := by
  have hmode := h.mode_outside hcur hpc
  simp [WaitSys.step, hmode, howner, hhold]

theorem refines_handOver (hne : t ≠ idle) {m : M}
    (howner : (s.mutex m).owner = some t) (hhold : (s.mutex m).hold - 1 = 0)
    {k k' : Kernel Tid (M ⊕ S)}
    (hview : k.view = s.kernel.view.setPrio t (s.mutex m).originalPriority)
    (hun : Kernel.Unscheduled s.kernel k) {next : Tid} {rest : List Tid}
    (hlist : k.list (.suspended (.inl m)) = next :: rest)
    (hs : k.rtIpcListResume (.inl m) = some k') :
    Refines idle s (some (.mutexRelease t m)) (s.afterMutexRelease t m (k', { s.mutex m with
      owner := some next
      originalPriority := k.view.prio next
      hold := (s.mutex m).hold - 1 + 1 }, .eok, true)) := by
  have hqueue : s.kernel.list (.suspended (.inl m)) = next :: rest :=
    (congrFun (congrArg View.queue hview) (.inl m)).symm.trans hlist
  have hlife : k.view.life = s.kernel.view.life := by
    rw [hview]
    rfl
  have herror : k.view.error = s.kernel.view.error := by
    rw [hview]
    rfl
  obtain ⟨hblocked, hw, heok⟩ := h.waiting (hqueue ▸ mem_cons_self : next ∈ _)
  have hself : k.view.setError next .eok = k.view := by
    rw [← heok, ← herror]
    exact setError_self k.view next
  have hview' : k'.view = ((k.view.setError next .eok).unlink next).setLife next .live := by
    rw [Kernel.rtIpcListResume, hlist] at hs
    cases hs
    rw [hself]
    exact Kernel.view_rtThreadResume ((congrFun hlife next).trans hblocked)
  have hlife' : k'.view.life = update s.kernel.view.life next .live := by
    rw [hview', ← hlife]
    rfl
  have herror' : k'.view.error = update s.kernel.view.error next .eok := by
    rw [← herror, hview']
    rfl
  have hsaved : k.view.prio next < priorityMax := ((hun.ready h.ready).queue.prio_lt next).1
  have hgive : s.waitSys.giveUp t m = waitsOf k'.view (fun u => (s.pc u).waitsFor)
      (update s.mutex m { s.mutex m with
        owner := some next
        originalPriority := k.view.prio next
        hold := (s.mutex m).hold - 1 + 1 }) s.sem := by
    rw [hview', waitsOf_resume (fun u => (s.pc u).waitsFor) next hw, hview, giveUp,
      waitSys_queue, hqueue]
    rfl
  have hstep := h.step_giveUp hcur hpc howner hhold
  rw [hgive, hqueue] at hstep
  have hun' := hun.trans (.rtIpcListResume hs)
  have hrelease : Refines idle s (some (.mutexRelease t m)) ({ s with
      kernel := k'
      mutex := update s.mutex m { s.mutex m with
        owner := some next
        originalPriority := k.view.prio next
        hold := (s.mutex m).hold - 1 + 1 } },
      ownerEvents m s.prio (s.mutex m).owner (some next) ++ [IpcEvent.mutexRelease t m .eok]) :=
    Refines.of_step h hstep fun hq => h.wake next hun' hq hlife' herror'
      (show RtErr.eok ≠ .eintr by decide) rfl fun m' => h.saved_update (fun _ => hsaved) m'
  exact hrelease.goto hne (hun'.current.trans hcur) hpc rfl

theorem refines_free (hne : t ≠ idle) {m : M}
    (howner : (s.mutex m).owner = some t) (hhold : (s.mutex m).hold - 1 = 0)
    {k : Kernel Tid (M ⊕ S)}
    (hview : k.view = s.kernel.view.setPrio t (s.mutex m).originalPriority)
    (hun : Kernel.Unscheduled s.kernel k) (hlist : k.list (.suspended (.inl m)) = []) :
    Refines idle s (some (.mutexRelease t m)) (s.afterMutexRelease t m (k, { s.mutex m with
      value := (s.mutex m).value + 1
      owner := none
      originalPriority := 0xFF
      hold := (s.mutex m).hold - 1 }, .eok, false)) := by
  have hqueue : s.kernel.list (.suspended (.inl m)) = [] :=
    (congrFun (congrArg View.queue hview) (.inl m)).symm.trans hlist
  have hlife : k.view.life = s.kernel.view.life := by
    rw [hview]
    rfl
  have herror : k.view.error = update s.kernel.view.error t (s.kernel.view.error t) := by
    rw [hview, update_eq_self]
    rfl
  have hgive : s.waitSys.giveUp t m = waitsOf k.view (fun u => (s.pc u).waitsFor)
      (update s.mutex m { s.mutex m with
        value := (s.mutex m).value + 1
        owner := none
        originalPriority := 0xFF
        hold := (s.mutex m).hold - 1 }) s.sem := by
    rw [hview, giveUp, waitSys_queue, hqueue]
    rfl
  have hstep := h.step_giveUp hcur hpc howner hhold
  rw [hgive, hqueue] at hstep
  have hrelease : Refines idle s (some (.mutexRelease t m)) ({ s with
      kernel := k
      mutex := update s.mutex m { s.mutex m with
        value := (s.mutex m).value + 1
        owner := none
        originalPriority := 0xFF
        hold := (s.mutex m).hold - 1 } },
      ownerEvents m s.prio (s.mutex m).owner none ++ [IpcEvent.mutexRelease t m .eok]) :=
    Refines.of_step h hstep fun hq => h.next_live hne hun hq ⟨hlife, herror⟩ (fun _ _ => rfl)
      (h.current_live hcur hpc) (h.threads t).noEintr
      fun m' => h.saved_update (fun ho => absurd rfl ho) m'
  exact hrelease.goto hne (hun.current.trans hcur) hpc rfl

/-- The outermost release: the priority is restored, and the mutex is handed over or free. -/
theorem refines_giveUp (hne : t ≠ idle) {m : M}
    (howner : (s.mutex m).owner = some t) (hhold : (s.mutex m).hold - 1 = 0)
    {r : Kernel Tid (M ⊕ S) × Mutex Tid × RtErr × Bool}
    (hs : s.kernel.mutexGiveUp (.inl m) t
      { s.mutex m with hold := (s.mutex m).hold - 1 } = some r) :
    Refines idle s (some (.mutexRelease t m)) (s.afterMutexRelease t m r) := by
  have hsaved : (s.mutex m).originalPriority < priorityMax := h.saved m (by simp [howner])
  rw [Kernel.mutexGiveUp] at hs
  dsimp only at hs
  generalize hk : (if (s.mutex m).originalPriority ≠ (s.kernel.thread t).currentPriority then
    s.kernel.rtThreadControl t (s.mutex m).originalPriority else s.kernel) = k at hs
  have hview : k.view = s.kernel.view.setPrio t (s.mutex m).originalPriority := by
    rw [← hk]
    split
    · exact Kernel.view_rtThreadControl h.listed t _
    · next heq =>
      rw [not_not.1 heq]
      exact (View.setPrio_self _ t).symm
  have hun : Kernel.Unscheduled s.kernel k := by
    rw [← hk]
    split
    · exact .rtThreadControl _ _ hsaved
    · exact .refl _
  split at hs
  · next next rest hlist =>
    obtain ⟨k', hk', rfl⟩ := map_eq_some_iff.1 hs
    exact refines_handOver h hcur hpc hne howner hhold hview hun hlist hk'
  · next hlist =>
    cases hs
    exact refines_free h hcur hpc hne howner hhold hview hun hlist

theorem refines_mutexRelease (hne : t ≠ idle) {m : M}
    {r : Kernel Tid (M ⊕ S) × Mutex Tid × RtErr × Bool}
    (hs : s.kernel.rtMutexRelease (.inl m) t (s.mutex m) = some r) :
    Refines idle s (some (.mutexRelease t m)) (s.afterMutexRelease t m r) := by
  have hmode := h.mode_outside hcur hpc
  have hlive := h.current_live hcur hpc
  rw [Kernel.rtMutexRelease] at hs
  split at hs
  · next howner =>
    cases hs
    refine Refines.of_mutex h hcur hpc hne (.setError _ _ _) (by simp)
      (show RtErr.error ≠ .eintr by decide) (h.saved m) ?_ ?_
    · rw [← waitSys_mutex, setMutex_self]
      simp [WaitSys.step, hmode, howner, ownerEvents]
    · rfl
  · next howner =>
    have howner' : (s.mutex m).owner = some t := not_not.1 howner
    dsimp only at hs
    split at hs
    · next hhold =>
      exact refines_giveUp h hcur hpc hne howner' hhold hs
    · next hhold =>
      cases hs
      refine Refines.of_mutex h hcur hpc hne (.refl _) (setError_self _ t).symm
        (h.threads t).noEintr ?_ ?_ ?_
      · exact h.saved m
      · simp [WaitSys.step, hmode, howner', hhold, ownerEvents]
      · rfl

end

/-! ### The sections of the semaphores -/

section

variable (h : Inv idle s)
include h

theorem Refines.of_sem {σ : S} {sem : Semaphore} {o : WaitOp Tid M S}
    {out : List (IpcEvent Tid M S)}
    (hstep : s.waitSys.step o = some (s.waitSys.setSem σ sem, out)) :
    Refines idle s (some o) ({ s with sem := update s.sem σ sem }, out) := by
  have hwait : ({ s with sem := update s.sem σ sem } : IpcSys Tid M S).waitSys =
      s.waitSys.setSem σ sem := rfl
  rw [← hwait] at hstep
  exact Refines.of_step h hstep fun hq => ⟨h.ready, h.lock, hq, h.threads, h.idle, h.saved⟩

theorem Refines.of_wake {k : Kernel Tid (M ⊕ S)} {u : Tid} {obj : M ⊕ S}
    {err : RtErr} (hu : u ∈ s.kernel.list (.suspended obj))
    (hk : Kernel.Unscheduled s.kernel k)
    (hview : k.view = ((s.kernel.view.setError u err).unlink u).setLife u .live)
    (herr : err ≠ .eintr) {o : WaitOp Tid M S} {out : List (IpcEvent Tid M S)}
    (hstep : s.waitSys.step o = some (s.waitSys.endWait u obj err, out)) :
    Refines idle s (some o) ({ s with kernel := k }, out) := by
  have hwaiting := h.waiting hu
  have hwait : ({ s with kernel := k } : IpcSys Tid M S).waitSys = s.waitSys.endWait u obj err := by
    rw [waitSys, hview, waitsOf_resume (fun u => (s.pc u).waitsFor) u hwaiting.2.1]
    rfl
  rw [← hwait] at hstep
  refine Refines.of_step h hstep fun hq => h.wake u hk hq ?_ ?_ herr rfl h.saved
  · rw [hview]
    rfl
  · rw [hview]
    rfl

theorem refines_semTake (hcur : s.kernel.currentThread = some t)
    (hpc : (s.pc t).waitsFor = none) (hne : t ≠ idle) {σ : S} {time : ℤ}
    {r : Kernel Tid (M ⊕ S) × Semaphore × Option RtErr}
    (hs : s.kernel.rtSemTake (.inr σ) (some t) time (s.sem σ) = some r) :
    Refines idle s (some (.semTake (some t) σ (time ≠ 0))) (s.afterSemTake t σ time r) := by
  have hmode := h.mode_outside hcur hpc
  have hlive := h.current_live hcur hpc
  rw [Kernel.rtSemTake] at hs
  split at hs
  · next hvalue =>
    cases hs
    refine (Refines.of_sem h ?_).goto hne hcur hpc rfl
    simp [WaitSys.step, hvalue]
  · next hvalue =>
    split at hs
    · next htime =>
      cases hs
      refine (Refines.of_sem h ?_).goto hne hcur hpc rfl
      rw [← waitSys_sem, setSem_self]
      simp [WaitSys.step, hvalue, htime]
    · next htime =>
      obtain ⟨k, hk, rfl⟩ := map_eq_some_iff.1 hs
      have herror : (s.kernel.setError t .eok).view = s.kernel.view.setError t .eok := by simp
      have hsame : s.afterSemTake t σ time (k, s.sem σ, none) =
          (({ s with kernel := k }).goto t (.schedule (.inr σ) time), []) := by
        simp [afterSemTake]
      rw [hsame]
      refine Refines.of_suspend h hcur hpc hne (.setError _ _ _) ?_ ?_ ?_ hk ?_
      · rw [herror]
        rfl
      · rw [herror]
        rfl
      · rw [herror]
        rfl
      · rw [herror, waitsOf_setError (fun u => (s.pc u).waitsFor) t hpc]
        simp [WaitSys.step, hmode, hvalue, htime]
        rfl

theorem refines_semRelease {σ : S} {r : Kernel Tid (M ⊕ S) × Semaphore × Bool}
    (hs : s.kernel.rtSemRelease (.inr σ) (s.sem σ) = some r) :
    Refines idle s (some (.semRelease σ))
      ({ s with kernel := r.1, sem := update s.sem σ r.2.1 }, [.semRelease σ]) := by
  rw [Kernel.rtSemRelease] at hs
  split at hs
  · next hlist =>
    obtain ⟨k, hk, rfl⟩ := map_eq_some_iff.1 hs
    obtain ⟨next, rest, hnext⟩ := exists_cons_of_ne_nil hlist
    have hmem : next ∈ s.kernel.list (.suspended (.inr σ)) := hnext ▸ mem_cons_self
    obtain ⟨hblocked, -, heok⟩ := h.waiting hmem
    have hself : s.kernel.view.setError next .eok = s.kernel.view := by
      rw [← heok]
      exact setError_self s.kernel.view next
    have hun := Kernel.Unscheduled.rtIpcListResume hk
    rw [Kernel.rtIpcListResume, hnext] at hk
    cases hk
    simp only [update_eq_self]
    refine Refines.of_wake h hmem hun ?_ (show RtErr.eok ≠ .eintr by decide) ?_
    · rw [hself]
      exact Kernel.view_rtThreadResume hblocked
    · simp [WaitSys.step, hnext]
  · next hlist =>
    cases hs
    apply Refines.of_sem h
    simp [WaitSys.step, not_not.1 hlist]

theorem Inv.waitsOf_resumeAll (σ : S) (sem : Semaphore) :
    waitsOf (s.kernel.view.resumeAll (.inr σ)) (fun u => (s.pc u).waitsFor) s.mutex
        (update s.sem σ sem) =
      setSem { s.waitSys with
        mode := fun t => if t ∈ s.waitSys.queue (.inr σ) then .ended (.inr σ) .error
          else s.waitSys.mode t
        queue := update s.waitSys.queue (.inr σ) [] } σ sem := by
  have hmode : ∀ o u, u ∈ s.kernel.view.queue o → s.waitSys.mode u = .waiting o :=
    fun o u => (h.queued o u).1
  ext1
  · funext u
    by_cases hu : u ∈ s.kernel.view.queue (.inr σ)
    · have hw : (s.pc u).waitsFor = some (.inr σ) := (modeOf_eq_waiting.1 (hmode _ u hu)).2
      have hu' : u ∈ s.kernel.list (.suspended (.inr σ)) := hu
      simp [waitsOf, resumeAll, setSem, hu, hu', hw, modeOf]
    · simp [waitsOf, resumeAll, setSem, hu, waitSys]
  · rfl
  · funext o
    by_cases ho : o = .inr σ
    · subst ho
      simp [waitsOf, resumeAll, setSem]
    · -- a thread waits for one object only
      simp only [waitsOf, resumeAll, setSem, update_of_ne ho]
      apply filter_eq_self.2
      intro u hu
      have hne : u ∉ s.kernel.view.queue (.inr σ) := by
        intro hu'
        have heq := (hmode o u hu).symm.trans (hmode _ u hu')
        exact ho (Mode.waiting.inj heq)
      simpa using hne
  all_goals rfl

theorem refines_semControl {σ : S} {value : UInt32} {r : Kernel Tid (M ⊕ S) × Semaphore}
    (hs : s.kernel.rtSemControl (.inr σ) value (s.sem σ) = some r) :
    Refines idle s (some (.semControl σ value))
      ({ s with kernel := r.1, sem := update s.sem σ r.2 }, []) := by
  obtain ⟨k, hk, rfl⟩ := map_eq_some_iff.1 hs
  have hview := Kernel.view_rtIpcListResumeAll h.listed hk
  have hun := Kernel.Unscheduled.rtIpcListResumeAll hk
  have hstep : s.waitSys.step (.semControl σ value) = some (({ s with
      kernel := k
      sem := update s.sem σ { s.sem σ with value := value.toUInt16 } } :
        IpcSys Tid M S).waitSys, []) := by
    have hwait : ({ s with
        kernel := k
        sem := update s.sem σ { s.sem σ with value := value.toUInt16 } } :
          IpcSys Tid M S).waitSys = waitsOf (s.kernel.view.resumeAll (.inr σ))
            (fun u => (s.pc u).waitsFor) s.mutex
            (update s.sem σ { s.sem σ with value := value.toUInt16 }) := by
      rw [waitSys, hview]
    rw [hwait, h.waitsOf_resumeAll]
    rfl
  refine Refines.of_step h hstep fun hq =>
    ⟨hun.ready h.ready, hun.lock.trans h.lock, hq, fun u => ?_, ?_, h.saved⟩
  · rw [hun.current, hview]
    by_cases hu : u ∈ s.kernel.view.queue (.inr σ)
    · simp only [resumeAll, hu, if_true]
      exact .of_live (by decide)
    · simp only [resumeAll, hu, if_false]
      exact h.threads u
  · rw [hview]
    refine ⟨?_, h.idle.2⟩
    simp only [resumeAll, h.idle.1, ite_self]

end

/-! ### Every step -/

theorem Refines.of_same (hinv : Inv idle s') (hwait : s'.waitSys = s.waitSys) :
    Refines idle s none (s', []) := ⟨hinv, hwait, rfl⟩

section

variable (h : Inv idle s)
include h

theorem refines_schedule {k : Kernel Tid (M ⊕ S)}
    (hs : s.kernel.rtSchedule = some k) : Refines idle s none ({ s with kernel := k }, []) := by
  obtain ⟨hinv, hview, -⟩ := h.schedule hs
  exact .of_same hinv (by simp only [waitSys, hview])

theorem refines_entered (hcur : s.kernel.currentThread = some t)
    (hne : t ≠ idle) {c : IpcCall M S} (hpc : s.pc t = .entered c)
    {r : IpcSys Tid M S × List (IpcEvent Tid M S)} (hs : s.cont t (.entered c) = some r) :
    Refines idle s (s.contOp t (.entered c)) r := by
  have hw : (s.pc t).waitsFor = none := by rw [hpc]; rfl
  cases c with
  | mutexTake m time =>
    obtain ⟨r, hr, rfl⟩ := map_eq_some_iff.1 hs
    exact refines_mutexTake h hcur hw hne hr
  | mutexRelease m =>
    obtain ⟨r, hr, rfl⟩ := map_eq_some_iff.1 hs
    exact refines_mutexRelease h hcur hw hne hr
  | semTake σ time =>
    obtain ⟨r, hr, rfl⟩ := map_eq_some_iff.1 hs
    exact refines_semTake h hcur hw hne hr
  | semRelease σ =>
    obtain ⟨r, hr, rfl⟩ := map_eq_some_iff.1 hs
    refine (refines_semRelease h hr).goto hne
      ((Kernel.Unscheduled.rtSemRelease hr).current.trans hcur) hw ?_
    split <;> rfl
  | semControl σ value =>
    obtain ⟨r, hr, rfl⟩ := map_eq_some_iff.1 hs
    exact (refines_semControl h hr).goto hne
      ((Kernel.Unscheduled.rtSemControl hr).current.trans hcur) hw rfl
  | delete o =>
    simp only [cont] at hs
    split at hs <;> cases hs
    · have hdetach : Refines idle s none
          ({ s with attached := update s.attached o false }, []) :=
        .of_same ⟨h.ready, h.lock, h.queued, h.threads, h.idle, h.saved⟩ rfl
      exact hdetach.goto hne hcur hw rfl
    · have hsame : Refines idle s none (s, []) := .of_same h rfl
      exact hsame.goto hne hcur hw rfl

theorem refines_waitSchedule (hne : t ≠ idle) {o : M ⊕ S} {time : ℤ}
    (hpc : s.pc t = .schedule o time) {k : Kernel Tid (M ⊕ S)}
    (hs : s.kernel.rtSchedule = some k) :
    Refines idle s none (({ s with kernel := k }).goto t (.wait o time), []) := by
  obtain ⟨hinv, hview, hlive⟩ := h.schedule hs
  have hw : (Pc.wait o time).waitsFor = (s.pc t).waitsFor := by rw [hpc]; rfl
  have hsame : (({ s with kernel := k }).goto t (.wait o time)).waitSys = s.waitSys :=
    (waitSys_goto { s with kernel := k } (.wait o time) hw).trans (by simp only [waitSys, hview])
  refine .of_same ?_ hsame
  refine hinv.next t (.refl _) (hsame ▸ h.queued)
    (fun u hu => ⟨rfl, rfl, update_of_ne hu ..⟩) ?_ (fun he => absurd he hne) h.saved
  -- when `t` is still the current thread, it has been resumed
  have hok := hinv.threads t
  simp only [IpcSys.goto, update_self]
  refine ⟨fun hb => ⟨(hok.blocked hb).1, rfl⟩, hok.noEintr, hok.notClosed, ?_, ?_⟩
  · intro hb
    have hout : s.pc t = .outside := hok.started hb
    rw [hpc] at hout
    cases hout
  · intro _ _ hc _
    simp [hview, hlive t hc]

theorem refines_return (hcur : s.kernel.currentThread = some t) (hne : t ≠ idle)
    {o : M ⊕ S} {time : ℤ} (hpc : s.pc t = .wait o time) :
    Refines idle s (some (.ret t)) (s.goto t .outside,
      [o.elim (.mutexTake t · (s.kernel.view.error t)) (.semTake · (s.kernel.view.error t))]) := by
  have hok := h.threads t
  have hlive : s.kernel.view.life t = .live := by
    cases hlife : s.kernel.view.life t with
    | unborn =>
      have hout := hok.started hlife
      rw [hpc] at hout
      cases hout
    | blocked => exact absurd hlife (hok.back o time hcur hpc)
    | live => rfl
    | closed => exact absurd hlife hok.notClosed
  have hmode : s.waitSys.mode t = .ended o (s.kernel.view.error t) := by
    simp only [waitSys, waitsOf, hpc, Pc.waitsFor, hlive, modeOf]
  have hwait : (s.goto t .outside).waitSys =
      { s.waitSys with mode := update s.waitSys.mode t .outside } := by
    ext1
    · funext u
      by_cases hu : u = t
      · subst hu
        simp [waitSys, waitsOf, IpcSys.goto, Pc.waitsFor, hlive, modeOf]
      · simp [waitSys, waitsOf, IpcSys.goto, hu]
    all_goals rfl
  refine Refines.of_step h (by rw [hwait]; simp [WaitSys.step, hmode]) fun hq =>
    h.next t (.refl _) hq (fun u hu => ⟨rfl, rfl, update_of_ne hu ..⟩) ?_
      (fun he => absurd he hne) h.saved
  have hlive' : (s.goto t .outside).kernel.view.life t = .live := hlive
  rw [hlive']
  exact .of_live hok.noEintr

/-- One round of `rt_ipc_list_resume_all`, in the deletion of an object. -/
theorem refines_resumeNext (hcur : s.kernel.currentThread = some t)
    (hne : t ≠ idle) {o : M ⊕ S} (hpc : s.pc t = .resumeNext o) {k : Kernel Tid (M ⊕ S)}
    (hs : s.kernel.resumeAllSection o = some k) :
    Refines idle s (s.contOp t (.resumeNext o))
      (({ s with kernel := k }).goto t (.entered (.delete o)), []) := by
  have hun := Kernel.Unscheduled.resumeAllSection hs
  obtain ⟨next, rest, hqueue, hview⟩ := Kernel.view_resumeAllSection h.listed hs
  have hqueue' : s.kernel.list (.suspended o) = next :: rest := hqueue
  have hmem : next ∈ s.kernel.list (.suspended o) := hqueue' ▸ mem_cons_self
  have hmode : s.waitSys.mode next = .waiting o := (h.queued o next).1 hmem
  have hwake : Refines idle s (some (.wake next .error)) ({ s with kernel := k }, []) := by
    refine Refines.of_wake h hmem hun hview (show RtErr.error ≠ .eintr by decide) ?_
    simp [WaitSys.step, hmode]
  have hop : s.contOp t (.resumeNext o) = some (.wake next .error) := by
    simp [contOp, hqueue']
  rw [hop]
  exact hwake.goto hne (hun.current.trans hcur) (by rw [hpc]; rfl) rfl

theorem refines_cont (hcur : s.kernel.currentThread = some t)
    {r : IpcSys Tid M S × List (IpcEvent Tid M S)} (hs : s.cont t (s.pc t) = some r) :
    Refines idle s (s.contOp t (s.pc t)) r := by
  have hne : s.pc t ≠ .outside → t ≠ idle := by
    rintro hpc rfl
    exact hpc h.idle.2
  generalize hpc : s.pc t = pc at hs hne
  cases pc with
  | outside => cases hs
  | entered c => exact refines_entered h hcur (hne nofun) hpc hs
  | schedule o time =>
    obtain ⟨k, hk, rfl⟩ := map_eq_some_iff.1 hs
    exact refines_waitSchedule h (hne nofun) hpc hk
  | wait o time =>
    have hreturn := refines_return h hcur (hne nofun) hpc
    cases o with
    | inl m =>
      -- no thread is interrupted, so nobody goes back to `__again`
      simp only [cont] at hs
      split at hs
      · next heintr => exact absurd heintr (h.threads t).noEintr
      · cases hs
        exact hreturn
    | inr σ =>
      cases hs
      exact hreturn
  | resumeNext o =>
    obtain ⟨k, hk, rfl⟩ := map_eq_some_iff.1 hs
    exact refines_resumeNext h hcur (hne nofun) hpc hk
  | tail =>
    obtain ⟨k, hk, rfl⟩ := map_eq_some_iff.1 hs
    obtain ⟨hinv, hview, -⟩ := h.schedule hk
    have hw : (Pc.outside : Pc M S).waitsFor = (s.pc t).waitsFor := by rw [hpc]; rfl
    have hlive : k.view.life t = .live := by rw [hview, h.current_live hcur hw.symm]
    refine .of_same (hinv.goto (hne nofun) hlive hw) ?_
    exact (waitSys_goto { s with kernel := k } .outside hw).trans (by simp only [waitSys, hview])

end

theorem Refines.schedule {o : Option (WaitOp Tid M S)} {out : List (IpcEvent Tid M S)}
    (h : Refines idle s o (s', out)) {k : Kernel Tid (M ⊕ S)}
    (hs : s'.kernel.rtSchedule = some k) : Refines idle s o ({ s' with kernel := k }, out) := by
  obtain ⟨hinv, hop⟩ := h
  obtain ⟨hinv', hview, -⟩ := hinv.schedule hs
  have hwait : ({ s' with kernel := k } : IpcSys Tid M S).waitSys = s'.waitSys := by
    simp only [waitSys, hview]
  refine ⟨hinv', ?_⟩
  cases o <;> simpa only [hwait] using hop

theorem refines_startup (h : Inv idle s) (ht : (s.kernel.thread t).stat = .init) :
    Refines idle s (some (.startup t (s.kernel.thread t).initPriority))
      ({ s with kernel := ((s.kernel.startupWrite t).rtThreadResume t).1 }, []) := by
  have hview := Kernel.view_startup h.listed ht
  have hunborn : s.kernel.view.life t = .unborn := Stat.life_eq_unborn.2 ht
  have hpc : s.pc t = .outside := (h.threads t).started hunborn
  have hwait : ({ s with kernel := ((s.kernel.startupWrite t).rtThreadResume t).1 } :
      IpcSys Tid M S).waitSys = { s.waitSys.setPrio t (s.kernel.thread t).initPriority with
        mode := update s.waitSys.mode t .outside } := by
    rw [waitSys, hview]
    ext1
    · funext u
      by_cases hu : u = t
      · subst hu
        simp [waitsOf, setLife, hpc, Pc.waitsFor, modeOf]
      · simp [waitsOf, waitSys, setLife, setPrio, hu]
    all_goals rfl
  have hmode : s.waitSys.mode t = .unborn := by
    simp [waitSys, waitsOf, hunborn, hpc, Pc.waitsFor, modeOf]
  refine Refines.of_step h (by rw [hwait]; simp [WaitSys.step, hmode]) fun hq =>
    h.next t (.startup ht) hq (fun u hu => ⟨?_, ?_, rfl⟩) ?_ (fun he => ⟨?_, ?_⟩) h.saved
  · simp [hview, setLife, setPrio, hu]
  · simp [hview, setLife, setPrio]
  · rw [hview]
    simp only [setLife, update_self]
    exact .of_live (h.threads t).noEintr
  · simp [hview, setLife]
  · exact hpc

theorem refines_schedulerStart (h : Inv idle s) {k : Kernel Tid (M ⊕ S)}
    (hcur : s.kernel.currentThread = none) (hs : s.kernel.rtSystemSchedulerStart = some k) :
    Refines idle s none ({ s with kernel := k }, []) := by
  have hready := h.ready.rtSystemSchedulerStart hcur hs
  have hview := Kernel.view_rtSystemSchedulerStart h.ready h.listed hs
  have hcurrent : k.schedulerLockNest = s.kernel.schedulerLockNest ∧
      ∀ c, k.currentThread = some c → (k.thread c).stat = .running := by
    rw [Kernel.rtSystemSchedulerStart] at hs
    split at hs <;> cases hs
    refine ⟨by simp [Kernel.setStat], ?_⟩
    intro c hc
    obtain rfl : _ = c := by simpa [Kernel.setStat] using hc
    simp [Kernel.setStat]
  have hwait : ({ s with kernel := k } : IpcSys Tid M S).waitSys = s.waitSys := by
    simp only [waitSys, hview]
  refine .of_same ⟨hready, hcurrent.1.trans h.lock, hwait ▸ h.queued, ?_, ?_, h.saved⟩ hwait
  · intro t
    have hok := h.threads t
    rw [hview]
    refine ⟨hok.blocked, hok.noEintr, hok.notClosed, hok.started, ?_⟩
    intro _ _ hc _
    have hlive : k.view.life t = .live := Stat.life_eq_live.2 (.inr (hcurrent.2 t hc))
    rw [← hview, hlive]
    decide
  · rw [hview]
    exact h.idle

theorem refines_timeout (h : Inv idle s) {k : Kernel Tid (M ⊕ S)}
    (hs : s.kernel.timeoutSection t = some k) :
    Refines idle s (some (.wake t .etimeout)) ({ s with kernel := k }, []) := by
  obtain ⟨hblocked, hview⟩ := Kernel.view_timeoutSection hs
  obtain ⟨o, ho⟩ := isSome_iff_exists.1 ((h.threads t).blocked hblocked).2
  have hmode : s.waitSys.mode t = .waiting o := modeOf_eq_waiting.2 ⟨hblocked, ho⟩
  refine Refines.of_wake h ((h.queued o t).2 hmode) (.timeoutSection hs) hview
    (show RtErr.etimeout ≠ .eintr by decide) ?_
  simp [WaitSys.step, hmode]

theorem refines_control (h : Inv idle s) {p : ℕ} (hp : p < priorityMax) :
    Refines idle s (some (.control t p))
      ({ s with kernel := s.kernel.rtThreadControl t p }, [.control t p]) := by
  have hview := Kernel.view_rtThreadControl h.listed t p
  have hun := Kernel.Unscheduled.rtThreadControl s.kernel t hp
  have hwait : ({ s with kernel := s.kernel.rtThreadControl t p } : IpcSys Tid M S).waitSys =
      s.waitSys.setPrio t p := by
    rw [waitSys, hview]
    rfl
  refine Refines.of_step h (by rw [hwait]; rfl) fun hq =>
    ⟨hun.ready h.ready, hun.lock.trans h.lock, hq, fun u => ?_, ?_, h.saved⟩
  · rw [hun.current, hview]
    exact h.threads u
  · rw [hview]
    exact h.idle

/-- **Every step keeps the invariant and is its operation.** -/
theorem refines_step (h : Inv idle s) {a : IpcAction Tid M S}
    {r : IpcSys Tid M S × List (IpcEvent Tid M S)} (hs : s.step idle a = some r) :
    Refines idle s (s.op a) r := by
  cases a with
  | startup t =>
    simp only [step, ite_none_right_eq_some, some.injEq] at hs
    obtain ⟨ht, rfl⟩ := hs
    exact refines_startup h ht
  | schedulerStart =>
    simp only [step, ite_none_right_eq_some] at hs
    obtain ⟨hcur, hs⟩ := hs
    obtain ⟨k, hk, rfl⟩ := map_eq_some_iff.1 hs
    exact refines_schedulerStart h hcur hk
  | schedule =>
    obtain ⟨k, hk, rfl⟩ := map_eq_some_iff.1 hs
    exact refines_schedule h hk
  | timeout t =>
    simp only [step, ite_none_right_eq_some] at hs
    obtain ⟨k₁, hk₁, hs⟩ := bind_eq_some_iff.1 hs.2
    obtain ⟨k, hk, rfl⟩ := map_eq_some_iff.1 hs
    exact (refines_timeout h hk₁).schedule hk
  | control t p =>
    simp only [step, ite_none_right_eq_some, some.injEq] at hs
    obtain ⟨hp, rfl⟩ := hs
    exact refines_control h hp
  | isrSemTake σ =>
    simp only [step, ite_none_right_eq_some] at hs
    obtain ⟨r, hr, rfl⟩ := map_eq_some_iff.1 hs.2
    rw [Kernel.rtSemTake] at hr
    split at hr
    · next hvalue =>
      cases hr
      apply Refines.of_sem h
      simp [WaitSys.step, hvalue]
    · next hvalue =>
      rw [if_pos rfl] at hr
      cases hr
      apply Refines.of_sem h
      rw [← waitSys_sem, setSem_self]
      simp [WaitSys.step, hvalue]
  | isrSemRelease σ =>
    simp only [step, ite_none_right_eq_some] at hs
    obtain ⟨r, hr, rfl⟩ := map_eq_some_iff.1 hs.2
    exact refines_semRelease h hr
  | call c =>
    simp only [step] at hs
    split at hs
    · next t hcur =>
      split at hs
      · next hpc =>
        simp only [ite_none_right_eq_some, some.injEq] at hs
        obtain ⟨⟨hne, -⟩, rfl⟩ := hs
        have hsame : Refines idle s none (s, []) := .of_same h rfl
        exact hsame.goto hne hcur (by rw [hpc]; rfl) rfl
      · cases hs
    · cases hs
  | cont =>
    obtain ⟨t, hcur, hs⟩ := bind_eq_some_iff.1 hs
    have hop : s.op .cont = s.contOp t (s.pc t) := by simp [op, hcur]
    rw [hop]
    exact refines_cont h hcur hs

/-! ### Every run -/

section Boot

variable (idle : Tid) (prio : Tid → ℕ) (mutexFlag : M → IpcFlag) (semValue : S → UInt32)
  (semFlag : S → IpcFlag)

theorem view_boot : (boot idle prio mutexFlag semValue semFlag).kernel.view =
    { life := fun t => if t = idle then .live else .unborn
      error := fun _ => .eok
      prio := prio
      queue := fun _ => [] } := by
  have hlisted : (Kernel.rtSystemSchedulerInit fun t => Kernel.rtThreadInit (prio t) true false :
      Kernel Tid (M ⊕ S)).Listed := fun o t ht => absurd ht not_mem_nil
  refine (Kernel.view_startup hlisted rfl).trans ?_
  ext1
  · funext t
    by_cases ht : t = idle
    · subst ht
      simp [setLife]
    · simp [setLife, setPrio, ht, Kernel.view, Kernel.rtSystemSchedulerInit,
        Kernel.rtThreadInit, Stat.life]
  · rfl
  · exact update_eq_self idle prio
  · rfl

theorem mode_boot (t : Tid) : (boot idle prio mutexFlag semValue semFlag).waitSys.mode t =
    if t = idle then .outside else .unborn := by
  rw [waitSys, view_boot]
  by_cases ht : t = idle <;> simp [waitsOf, boot, Pc.waitsFor, modeOf, ht]

theorem inv_boot (hprio : ∀ t, prio t < priorityMax) :
    Inv idle (boot idle prio mutexFlag semValue semFlag) := by
  have hinit : Kernel.ReadyInv (Kernel.rtSystemSchedulerInit fun t =>
      Kernel.rtThreadInit (prio t) true false : Kernel Tid (M ⊕ S)) :=
    .rtSystemSchedulerInit (fun _ => rfl) fun t => ⟨hprio t, hprio t⟩
  have hun : Kernel.Unscheduled (Kernel.rtSystemSchedulerInit fun t =>
      Kernel.rtThreadInit (prio t) true false : Kernel Tid (M ⊕ S))
      (boot idle prio mutexFlag semValue semFlag).kernel := .startup rfl
  have hview := view_boot idle prio mutexFlag semValue semFlag
  refine ⟨hun.ready hinit, hun.lock, ?_, ?_, ?_, fun m hm => absurd rfl hm⟩
  · intro o t
    rw [mode_boot]
    have hqueue : (boot idle prio mutexFlag semValue semFlag).waitSys.queue o = [] := by
      rw [waitSys, hview]
      rfl
    rw [hqueue]
    split <;> simp
  · intro t
    rw [hview]
    by_cases ht : t = idle
    · simp only [ht, if_true]
      exact .of_live (by decide)
    · simp only [ht, if_false]
      exact ⟨nofun, by decide, by decide, fun _ => rfl, fun _ _ _ _ => by decide⟩
  · rw [hview]
    exact ⟨if_pos rfl, rfl⟩

/-- **Every run is a run of the waits**, under every condition that the operations of its
actions meet. -/
theorem run_refines {C : IpcSys Tid M S → IpcAction Tid M S → Prop}
    {C' : WaitSys Tid M S → WaitOp Tid M S → Prop}
    (hC : ∀ {s a o}, C s a → s.op a = some o → C' s.waitSys o) {s₀ : IpcSys Tid M S}
    (h₀ : Inv idle s₀) {tr : List (IpcEvent Tid M S)} {s : IpcSys Tid M S}
    (hrun : Run (step idle) C s₀ tr s) :
    Inv idle s ∧ Run WaitSys.step C' s₀.waitSys tr s.waitSys := by
  apply hrun.refines waitSys op (Inv idle) h₀ hC
  intro s a s' out hinv hs
  obtain ⟨hinv', hop⟩ := refines_step hinv hs
  refine ⟨hinv', ?_⟩
  cases ha : s.op a with
  | none =>
    rw [ha] at hop
    exact .inl ⟨rfl, hop⟩
  | some o =>
    rw [ha] at hop
    exact .inr ⟨o, rfl, hop⟩

end Boot

end IpcSys

end RtThread
