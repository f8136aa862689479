import McCortexM3.Pthread.Calls

/-!
# Broadcasts of a condition variable

`pthread_cond_wait`, `pthread_cond_signal` and `pthread_cond_broadcast` of `pthread_cond.c` with one
mutex, by sections.  `_pthread_cond_timedwait` releases the mutex and then takes the semaphore of
the condition variable; in between, other threads run.

A broadcast releases the semaphore until it has a value.  When two threads are between their two
steps, the value lets one of them pass, and the other one blocks.

## Main definitions

* `CondSys.called` — which threads wait since before the last broadcast.
* `CondSys.NoneBetween` — no broadcast finds a thread between its two steps.

## Main results

* `CondSys.run_wakes` — then no broadcast leaves a thread blocked.
-/

set_option linter.all false

namespace RtThread

open Function Option List
open Function (update)

/-- Where a thread is: without the mutex, after its `rt_mutex_take` in `pthread_mutex_lock`, with
the mutex; and in `_pthread_cond_timedwait` after `pthread_mutex_unlock`, after `rt_sem_take`, before
`pthread_mutex_lock` and after its `rt_mutex_take`. -/
inductive CondPc
  | outside
  | locking
  | holding
  | unlocked
  | taking
  | relocking (result : RtErr)
  | relocked (result : RtErr)
  deriving DecidableEq

/-- What an observer sees: a thread has released the mutex in its wait, a wait returns, and a
broadcast. -/
inductive CondEvent (Tid : Type)
  | released (t : Tid)
  | returned (t : Tid) (result : RtErr)
  | broadcast
  deriving DecidableEq

/-- What can happen next: a thread calls one of the functions, a thread goes on, and a wait for the
semaphore ends with an error. -/
inductive CondAction (Tid : Type)
  | lock (t : Tid)
  | unlock (t : Tid)
  | wait (t : Tid)
  | signal (t : Tid)
  | broadcast (t : Tid)
  | go (t : Tid)
  | wake (t : Tid) (err : RtErr)

/-- The mutex and the semaphore of the condition variable, and the threads. -/
structure CondSys (Tid : Type) where
  ipc : WaitSys Tid Unit Unit
  pc : Tid → CondPc

namespace CondSys

variable {Tid : Type} [DecidableEq Tid]

/-- The kernel's objects become `ipc`, and the place of the thread `pc`. -/
def goto (s : CondSys Tid) (ipc : WaitSys Tid Unit Unit) (t : Tid) (pc : CondPc) : CondSys Tid :=
  ⟨ipc, update s.pc t pc⟩

/-- `pthread_mutex_lock`, up to `rt_mutex_take`; `refused` is where `EDEADLK` leads. -/
def lock (mtype : MutexType) (s : CondSys Tid) (t : Tid) (locked refused : CondPc) :
    Option (CondSys Tid) :=
  (s.ipc.pthreadMutexLock mtype t ()).map fun r =>
    match r with
    | none => s.goto s.ipc t refused
    | some ipc => s.goto ipc t locked

/-- The beginning of `_pthread_cond_timedwait`. -/
def wait (mtype : MutexType) (s : CondSys Tid) (t : Tid) :
    Option (CondSys Tid × List (CondEvent Tid)) :=
  if (s.ipc.mutex ()).owner ≠ some t then some (s, [])
  else (s.ipc.pthreadMutexUnlock mtype t ()).map fun r =>
    if r.2 = true then
      (s.goto r.1 t .unlocked, if (r.1.mutex ()).owner = some t then [] else [.released t])
    else (s.goto r.1 t .holding, [])

/-- A thread goes on. -/
def go (mtype : MutexType) (s : CondSys Tid) (t : Tid) :
    CondPc → Option (CondSys Tid × List (CondEvent Tid))
  | .outside | .holding => none
  | .locking => (s.ipc.resume t).map fun r =>
    (s.goto r.1 t (if r.2 = .eok then .holding else .outside), [])
  | .unlocked => (s.ipc.next (.semTake (some t) () true)).map fun ipc => (s.goto ipc t .taking, [])
  | .taking => (s.ipc.resume t).map fun r => (s.goto r.1 t (.relocking r.2), [])
  | .relocking result =>
    (s.lock mtype t (.relocked result) .holding).map fun s' =>
      (s', if s'.pc t = .holding then [.returned t result] else [])
  | .relocked result => (s.ipc.resume t).map fun r =>
    (s.goto r.1 t (if r.2 = .eok then .holding else .outside), [.returned t result])

/-- One step of an interleaving. -/
def step (mtype : MutexType) (s : CondSys Tid) :
    CondAction Tid → Option (CondSys Tid × List (CondEvent Tid))
  | .lock t =>
    if s.pc t = .outside ∨ s.pc t = .holding then
      (s.lock mtype t .locking (s.pc t)).map fun s => (s, [])
    else none
  | .unlock t =>
    if s.pc t = .holding then
      (s.ipc.pthreadMutexUnlock mtype t ()).map fun r =>
        (s.goto r.1 t (if (r.1.mutex ()).owner = some t then .holding else .outside), [])
    else none
  | .wait t => if s.pc t = .holding then s.wait mtype t else none
  | .signal t =>
    if s.pc t = .holding then (s.ipc.pthreadCondSignal ()).map fun ipc => ({ s with ipc }, [])
    else none
  | .broadcast t =>
    if s.pc t = .holding then
      (s.ipc.pthreadCondBroadcast ()).map fun ipc => ({ s with ipc }, [.broadcast])
    else none
  | .go t => s.go mtype t (s.pc t)
  | .wake t err =>
    if s.ipc.mode t = .waiting (.inr ()) then
      (s.ipc.next (.wake t err)).map fun ipc => ({ s with ipc }, [])
    else none

/-- An initialised mutex and condition variable. -/
def boot : CondSys Tid where
  ipc := {
    mode := fun _ => .outside
    prio := fun _ => 0
    queue := fun _ => []
    mutex := fun _ => rtMutexInit .fifo
    sem := fun _ => rtSemInit 0 .fifo }
  pc := fun _ => .outside

/-- Which threads wait, having released the mutex, and whether there has been a broadcast since. -/
def calledBy (m : Tid → Option Bool) : CondEvent Tid → Tid → Option Bool
  | .released t => update m t (some false)
  | .returned t _ => update m t none
  | .broadcast => fun t => (m t).map fun _ => true

@[inherit_doc calledBy] def called (tr : List (CondEvent Tid)) : Tid → Option Bool :=
  tr.foldl calledBy fun _ => none

/-- No thread is blocked that had released the mutex in its wait before a broadcast. -/
def Wakes (tr : List (CondEvent Tid)) (s : CondSys Tid) : Prop :=
  ∀ t, called tr t = some true → s.ipc.mode t ≠ .waiting (.inr ())

/-- A broadcast finds no thread between its `pthread_mutex_unlock` and its `rt_sem_take`. -/
def NoneBetween (s : CondSys Tid) : CondAction Tid → Prop
  | .broadcast _ => ∀ t, s.pc t ≠ .unlocked
  | _ => True

/-! ### The invariant -/

/-- A thread is in no wait. -/
def Quiet : CondPc → Prop
  | .outside | .locking | .holding => True
  | _ => False

/-- The kernel's queues are right, and a thread that is blocked or about to take the semaphore has
seen no broadcast. -/
structure Inv (tr : List (CondEvent Tid)) (s : CondSys Tid) : Prop where
  queued : s.ipc.Queued
  idle : s.ipc.SemIdle
  blocked : ∀ t, s.ipc.mode t = .waiting (.inr ()) → s.pc t = .taking ∧ called tr t ≠ some true
  unlocked : ∀ t, s.pc t = .unlocked → called tr t ≠ some true
  quiet : ∀ t, Quiet (s.pc t) → called tr t = none

variable {s s' : CondSys Tid} {tr out : List (CondEvent Tid)} {t : Tid} {pc : CondPc}
  {ipc : WaitSys Tid Unit Unit} {mtype : MutexType}

theorem called_append (tr : List (CondEvent Tid)) (out : List (CondEvent Tid)) :
    called (tr ++ out) = out.foldl calledBy (called tr) := foldl_append ..

/-- The kernel's objects stay right, and no other thread begins to wait for the semaphore. -/
structure Fair (a b : WaitSys Tid Unit Unit) (t : Tid) : Prop where
  queued : a.Queued → b.Queued
  idle : a.SemIdle → b.SemIdle
  waits : ∀ u ≠ t, b.mode u = .waiting (.inr ()) → a.mode u = .waiting (.inr ())

theorem Fair.refl (a : WaitSys Tid Unit Unit) (t : Tid) : Fair a a t := ⟨id, id, fun _ _ => id⟩

theorem Fair.next {a b : WaitSys Tid Unit Unit} {op : WaitOp Tid Unit Unit}
    (h : a.next op = some b) (hop : ∀ u ≠ t, op ≠ .semTake (some u) () true) : Fair a b t := by
  refine ⟨fun hq => hq.next h, fun hi => hi.next h, fun u hu hmode => ?_⟩
  rcases WaitSys.waits_step h hmode with hwait | ⟨hop', -⟩
  · exact hwait
  · exact absurd hop' (hop u hu)

theorem not_waits_next {a b : WaitSys Tid Unit Unit} {op : WaitOp Tid Unit Unit}
    (h : a.next op = some b) (hop : op ≠ .semTake (some t) () true)
    (ht : a.mode t ≠ .waiting (.inr ())) : b.mode t ≠ .waiting (.inr ()) := by
  intro hmode
  rcases WaitSys.waits_step h hmode with hwait | ⟨hop', -⟩
  · exact ht hwait
  · exact hop hop'

theorem Inv.goto (hs : Inv tr s) (hfair : Fair s.ipc ipc t)
    (hcalled : ∀ u ≠ t, called (tr ++ out) u = called tr u)
    (hblocked : ipc.mode t = .waiting (.inr ()) → pc = .taking ∧ called (tr ++ out) t ≠ some true)
    (hunlocked : pc = .unlocked → called (tr ++ out) t ≠ some true)
    (hquiet : Quiet pc → called (tr ++ out) t = none) :
    Inv (tr ++ out) (s.goto ipc t pc) := by
  refine ⟨hfair.queued hs.queued, hfair.idle hs.idle, fun u hu => ?_, fun u hu => ?_,
    fun u hu => ?_⟩
  · by_cases hut : u = t
    · subst hut
      simpa [CondSys.goto] using hblocked hu
    · have hpc : (s.goto ipc t pc).pc u = s.pc u := update_of_ne hut ..
      rw [hpc, hcalled u hut]
      exact hs.blocked u (hfair.waits u hut hu)
  · by_cases hut : u = t
    · subst hut
      exact hunlocked (by simpa [CondSys.goto] using hu)
    · have hpc : (s.goto ipc t pc).pc u = s.pc u := update_of_ne hut ..
      rw [hpc] at hu
      rw [hcalled u hut]
      exact hs.unlocked u hu
  · by_cases hut : u = t
    · subst hut
      exact hquiet (by simpa [CondSys.goto] using hu)
    · have hpc : (s.goto ipc t pc).pc u = s.pc u := update_of_ne hut ..
      rw [hpc] at hu
      rw [hcalled u hut]
      exact hs.quiet u hu

theorem Inv.not_waits (hs : Inv tr s) (ht : s.pc t ≠ .taking) :
    s.ipc.mode t ≠ .waiting (.inr ()) := fun h => ht (hs.blocked t h).1

theorem Inv.goto_of_not_waits (hs : Inv tr s) (hfair : Fair s.ipc ipc t)
    (hcalled : ∀ u ≠ t, called (tr ++ out) u = called tr u)
    (hnot : ipc.mode t ≠ .waiting (.inr ())) (hpc : pc ≠ .unlocked)
    (hquiet : Quiet pc → called (tr ++ out) t = none) : Inv (tr ++ out) (s.goto ipc t pc) :=
  hs.goto hfair hcalled (fun h => absurd h hnot) (fun h => absurd h hpc) hquiet

theorem fair_mutexUnlock {r : WaitSys Tid Unit Unit × Bool} (hs : Inv tr s) (ht : s.pc t ≠ .taking)
    (h : s.ipc.pthreadMutexUnlock mtype t () = some r) :
    Fair s.ipc r.1 t ∧ r.1.mode t ≠ .waiting (.inr ()) := by
  unfold WaitSys.pthreadMutexUnlock at h
  split at h
  · cases h
    exact ⟨.refl _ _, hs.not_waits ht⟩
  · split at h
    · cases h
      exact ⟨.refl _ _, hs.not_waits ht⟩
    · obtain ⟨b, hb, rfl⟩ := map_eq_some_iff.1 h
      exact ⟨Fair.next hb (by simp), not_waits_next hb (by simp) (hs.not_waits ht)⟩

theorem fair_resume {r : WaitSys Tid Unit Unit × RtErr} (h : s.ipc.resume t = some r) :
    Fair s.ipc r.1 t ∧ r.1.mode t ≠ .waiting (.inr ()) := by
  unfold WaitSys.resume at h
  split at h
  · next hmode =>
    cases h
    exact ⟨.refl _ _, by simp [hmode]⟩
  · next o err hmode =>
    obtain ⟨b, hb, rfl⟩ := map_eq_some_iff.1 h
    exact ⟨Fair.next hb (by simp), not_waits_next hb (by simp) (by simp [hmode])⟩
  · cases h

theorem Inv.lock (hs : Inv tr s) (ht : s.pc t ≠ .taking) {locked refused : CondPc}
    (h : s.lock mtype t locked refused = some s') (hlocked : locked ≠ .unlocked)
    (hrefused : refused ≠ .unlocked) (hcalled : ∀ u ≠ t, called (tr ++ out) u = called tr u)
    (hquiet : Quiet (s'.pc t) → called (tr ++ out) t = none) : Inv (tr ++ out) s' := by
  unfold CondSys.lock at h
  obtain ⟨r, hr, rfl⟩ := map_eq_some_iff.1 h
  unfold WaitSys.pthreadMutexLock at hr
  split at hr
  · cases hr
    exact hs.goto_of_not_waits (.refl _ _) hcalled (hs.not_waits ht) hrefused
      (by simpa [CondSys.goto] using hquiet)
  · obtain ⟨b, hb, rfl⟩ := map_eq_some_iff.1 hr
    exact hs.goto_of_not_waits (Fair.next hb (by simp)) hcalled
      (not_waits_next hb (by simp) (hs.not_waits ht)) hlocked
      (by simpa [CondSys.goto] using hquiet)

theorem called_released (tr : List (CondEvent Tid)) (t : Tid) :
    called (tr ++ [CondEvent.released t]) = update (called tr) t (some false) := called_append ..

theorem called_returned (tr : List (CondEvent Tid)) (t : Tid) (result : RtErr) :
    called (tr ++ [CondEvent.returned t result]) = update (called tr) t none := called_append ..

theorem called_own (tr : List (CondEvent Tid)) {out : List (CondEvent Tid)}
    (hout : ∀ e ∈ out, e = .released t ∨ ∃ result, e = .returned t result) :
    ∀ u ≠ t, called (tr ++ out) u = called tr u := by
  intro u hu
  induction out generalizing tr with
  | nil => rw [append_nil]
  | cons e out ih =>
    rw [append_cons, ih (tr ++ [e]) fun e' he' => hout e' (mem_cons_of_mem _ he')]
    rcases hout e mem_cons_self with rfl | ⟨result, rfl⟩
    · rw [called_released, update_of_ne hu]
    · rw [called_returned, update_of_ne hu]

theorem Inv.wait (hs : Inv tr s) (ht : s.pc t = .holding)
    (h : s.wait mtype t = some (s', out)) : Inv (tr ++ out) s' := by
  have hpc : s.pc t ≠ .taking := by simp [ht]
  have hnone := hs.quiet t (by rw [ht]; trivial)
  unfold CondSys.wait at h
  split at h
  · cases h
    rwa [append_nil]
  · obtain ⟨r, hr, heq⟩ := map_eq_some_iff.1 h
    obtain ⟨hfair, hnot⟩ := fair_mutexUnlock hs hpc hr
    split at heq
    · cases heq
      refine hs.goto hfair (called_own tr ?_) (fun h => absurd h hnot) (fun _ => ?_) False.elim
      · intro e he
        split at he
        · cases he
        · exact .inl (mem_singleton.1 he)
      · split
        · rw [append_nil, hnone]
          simp
        · rw [called_released, update_self]
          simp
    · cases heq
      refine hs.goto_of_not_waits hfair (called_own tr (by simp)) hnot (by simp) fun _ => ?_
      rwa [append_nil]

theorem Inv.go (hs : Inv tr s) (h : s.go mtype t (s.pc t) = some (s', out)) : Inv (tr ++ out) s' := by
  have hown : ∀ result, ∀ u ≠ t, called (tr ++ [CondEvent.returned t result]) u = called tr u :=
    fun result => called_own tr fun e he => .inr ⟨result, mem_singleton.1 he⟩
  have hnothing : ∀ u ≠ t, called (tr ++ []) u = called tr u := called_own tr (by simp)
  have hreturned : ∀ result, called (tr ++ [CondEvent.returned t result]) t = none :=
    fun result => by
    rw [called_returned, update_self]
  unfold CondSys.go at h
  split at h
  · cases h
  · cases h
  · next hpc =>
    obtain ⟨r, hr, heq⟩ := map_eq_some_iff.1 h
    cases heq
    obtain ⟨hfair, hnot⟩ := fair_resume hr
    refine hs.goto_of_not_waits hfair hnothing hnot (by split <;> simp) fun _ => ?_
    rw [append_nil]
    exact hs.quiet t (by rw [hpc]; trivial)
  · next hpc =>
    obtain ⟨ipc, hipc, heq⟩ := map_eq_some_iff.1 h
    cases heq
    refine hs.goto (Fair.next hipc (by simp [eq_comm])) hnothing (fun _ => ⟨rfl, ?_⟩) (by simp)
      False.elim
    rw [append_nil]
    exact hs.unlocked t hpc
  · next hpc =>
    obtain ⟨r, hr, heq⟩ := map_eq_some_iff.1 h
    cases heq
    obtain ⟨hfair, hnot⟩ := fair_resume hr
    exact hs.goto_of_not_waits hfair hnothing hnot (by simp) False.elim
  · next result hpc =>
    obtain ⟨s₁, hlock, heq⟩ := map_eq_some_iff.1 h
    obtain ⟨rfl, rfl⟩ := Prod.mk.inj heq
    have hplace : s₁.pc t = .relocked result ∨ s₁.pc t = .holding := by
      obtain ⟨r, -, rfl⟩ := map_eq_some_iff.1 hlock
      cases r <;> simp [CondSys.goto]
    refine hs.lock (by simp [hpc]) hlock (by simp) (by simp) ?_ ?_
    · split
      · exact hown result
      · exact hnothing
    · rcases hplace with hplace | hplace
      · rw [hplace]
        exact False.elim
      · rw [if_pos hplace]
        exact fun _ => hreturned result
  · next result hpc =>
    obtain ⟨r, hr, heq⟩ := map_eq_some_iff.1 h
    cases heq
    obtain ⟨hfair, hnot⟩ := fair_resume hr
    exact hs.goto_of_not_waits hfair (hown result) hnot (by split <;> simp) fun _ =>
      hreturned result

/-! ### Runs -/

theorem inv_boot : Inv [] (boot : CondSys Tid) :=
  ⟨fun _ _ => by simp [boot], fun _ _ => rfl, fun _ h => by simp [boot] at h,
    fun _ h => by simp [boot] at h, fun _ _ => rfl⟩

theorem Inv.withIpc (hs : Inv tr s) {op : WaitOp Tid Unit Unit} (h : s.ipc.next op = some ipc)
    (hop : ∀ u, op ≠ .semTake (some u) () true) : Inv tr { s with ipc } :=
  ⟨hs.queued.next h, hs.idle.next h, fun u hu => by
    rcases WaitSys.waits_step h hu with hwait | ⟨hop', -⟩
    · exact hs.blocked u hwait
    · exact absurd hop' (hop u), hs.unlocked, hs.quiet⟩

/-- **One step** keeps the invariant: a broadcast ends the waits of all threads that are blocked,
and no thread is about to take the semaphore. -/
theorem Inv.step (hs : Inv tr s) {a : CondAction Tid} (ha : NoneBetween s a)
    (h : s.step mtype a = some (s', out)) : Inv (tr ++ out) s' := by
  cases a with
  | lock t =>
    simp only [CondSys.step, ite_none_right_eq_some] at h
    obtain ⟨hpc, h⟩ := h
    obtain ⟨s₁, hlock, heq⟩ := map_eq_some_iff.1 h
    cases heq
    have hquiet : Quiet (s.pc t) := by rcases hpc with hpc | hpc <;> rw [hpc] <;> trivial
    refine hs.lock ?_ hlock (by simp) ?_ (called_own tr (by simp)) fun _ => ?_
    · rcases hpc with hpc | hpc <;> simp [hpc]
    · rcases hpc with hpc | hpc <;> simp [hpc]
    · rw [append_nil]
      exact hs.quiet t hquiet
  | unlock t =>
    simp only [CondSys.step, ite_none_right_eq_some] at h
    obtain ⟨hpc, h⟩ := h
    obtain ⟨r, hr, heq⟩ := map_eq_some_iff.1 h
    cases heq
    obtain ⟨hfair, hnot⟩ := fair_mutexUnlock hs (by simp [hpc]) hr
    refine hs.goto_of_not_waits hfair (called_own tr (by simp)) hnot (by split <;> simp) fun _ => ?_
    rw [append_nil]
    exact hs.quiet t (by rw [hpc]; trivial)
  | wait t =>
    simp only [CondSys.step, ite_none_right_eq_some] at h
    exact hs.wait h.1 h.2
  | signal t | wake t err =>
    simp only [CondSys.step, ite_none_right_eq_some] at h
    obtain ⟨ipc, hipc, heq⟩ := map_eq_some_iff.1 h.2
    cases heq
    rw [append_nil]
    exact hs.withIpc hipc (by simp)
  | broadcast t =>
    simp only [CondSys.step, ite_none_right_eq_some] at h
    obtain ⟨ipc, hipc, heq⟩ := map_eq_some_iff.1 h.2
    cases heq
    obtain ⟨b, hb, hends⟩ := WaitSys.broadcast_spec (σ := ()) hs.queued hs.idle
    obtain rfl := some.inj (hipc.symm.trans hb)
    refine ⟨hs.queued.broadcast hb, hs.idle.broadcast hb, fun u hu => ?_,
      fun u hu => absurd hu (ha u), fun u hu => ?_⟩
    · rw [hends.mode u] at hu
      split at hu
      · cases hu
      · next hnot => exact absurd hu hnot
    · rw [called_append]
      simp [calledBy, hs.quiet u hu]
  | go t => exact hs.go h

/-- **A broadcast wakes all.**  In every run whose broadcasts find no thread between the two steps
of its wait, no thread is blocked that had released the mutex before a broadcast. -/
theorem run_wakes (mtype : MutexType) {s : CondSys Tid} {tr : List (CondEvent Tid)}
    (h : Run (step mtype) NoneBetween boot tr s) : Wakes tr s := by
  have hinv : Inv tr s := h.invariant Inv inv_boot fun hs ha hstep => Inv.step hs ha hstep
  exact fun t ht hmode => (hinv.blocked t hmode).2 ht

instance (s : CondSys Bool) (a : CondAction Bool) : Decidable (NoneBetween s a) := by
  cases a <;> dsimp only [NoneBetween] <;> infer_instance

/-- A broadcast wakes a thread that is blocked. -/
theorem wakes_blocked : ∃ s : CondSys Bool,
    Wakes [.released true, .broadcast] s ∧ s.ipc.mode true = .ended (.inr ()) .eok := by
  have hrun : Run (step .normal) NoneBetween (boot : CondSys Bool) _ _ :=
    Run.of_exec (rfl : exec (step .normal) NoneBetween boot
      [.lock true, .go true, .wait true, .go true, .lock false, .go false, .broadcast false] =
        some (_, _))
  exact ⟨_, run_wakes .normal hrun, rfl⟩

/-- Two threads have released the mutex when the broadcast comes; one of them blocks. -/
theorem not_wakes : ¬ ∀ (mtype : MutexType) (s : CondSys (Fin 3)) (tr : List (CondEvent (Fin 3))),
    Run (step mtype) (fun _ _ => True) boot tr s → Wakes tr s := by
  intro hall
  have hrun : Run (step .normal) (fun _ _ => True) (boot : CondSys (Fin 3)) _ _ :=
    Run.of_exec (rfl : exec (step .normal) (fun _ _ => True) (boot : CondSys (Fin 3))
      [.lock 0, .go 0, .wait 0, .lock 1, .go 1, .wait 1, .lock 2, .go 2, .broadcast 2,
        .go 0, .go 1] = some (_, _))
  exact hall .normal _ _ hrun 1 (by decide) (by decide)

end CondSys

end RtThread
