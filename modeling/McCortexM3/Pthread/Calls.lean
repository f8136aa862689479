import McCortexM3.Ipc.Waits

/-!
# Mutexes and condition variables of pthreads

`pthread_mutex.c` and `pthread_cond.c` over the semaphores and mutexes of the kernel.  A thread that
has called `rt_mutex_take` or `rt_sem_take` goes on when its call returns.

## Main definitions

* `MutexType`, `pthreadMutexLock`, `pthreadMutexUnlock` — the sections of the mutex calls.
* `pthreadCondSignal`, `pthreadCondBroadcast` — the calls that wake.
* `resume` — a call of the kernel returns.

## Main results

* `WaitSys.SemIdle` — a semaphore with a value has no waiters; every step keeps it.
* `WaitSys.waits_step` — a thread begins to wait for a semaphore only in its own `rt_sem_take`.
* `WaitSys.broadcast_spec` — a broadcast ends every wait for the semaphore, and leaves it a value.
-/

set_option linter.all false

namespace RtThread

open Function Option List
open Function (update)

/-- `PTHREAD_MUTEX_NORMAL`, `PTHREAD_MUTEX_RECURSIVE` and `PTHREAD_MUTEX_ERRORCHECK`. -/
inductive MutexType
  | normal
  | recursive
  | errorcheck
  deriving DecidableEq

namespace WaitSys

variable {Tid M S : Type} [DecidableEq Tid] [DecidableEq M] [DecidableEq S]

/-- The state after an operation. -/
def next (a : WaitSys Tid M S) (op : WaitOp Tid M S) : Option (WaitSys Tid M S) :=
  (a.step op).map Prod.fst

/-- `pthread_mutex_lock` up to its `rt_mutex_take`; `none` inside for `EDEADLK`. -/
def pthreadMutexLock (a : WaitSys Tid M S) (mtype : MutexType) (t : Tid) (m : M) :
    Option (Option (WaitSys Tid M S)) :=
  if (a.mutex m).owner = some t ∧ mtype ≠ .recursive then some none
  else (a.next (.mutexTake t m true)).map some

/-- `pthread_mutex_unlock`, and whether it returns 0. -/
def pthreadMutexUnlock (a : WaitSys Tid M S) (mtype : MutexType) (t : Tid) (m : M) :
    Option (WaitSys Tid M S × Bool) :=
  if (a.mutex m).owner ≠ some t ∧ mtype = .errorcheck then some (a, false)
  else if (a.mutex m).owner ≠ some t ∧ (a.mutex m).owner = none then some (a, true)
  else
    (a.next (.mutexRelease t m)).map fun b => (b, decide ((a.mutex m).owner = some t))

/-- A call of the kernel returns: it has not waited, or its wait has ended. -/
def resume (a : WaitSys Tid M S) (t : Tid) : Option (WaitSys Tid M S × RtErr) :=
  match a.mode t with
  | .outside => some (a, .eok)
  | .ended _ err => (a.next (.ret t)).map fun b => (b, err)
  | _ => none

/-- `pthread_cond_signal`. -/
def pthreadCondSignal (a : WaitSys Tid M S) (σ : S) : Option (WaitSys Tid M S) :=
  a.next (.semRelease σ)

/-- The loop of `pthread_cond_broadcast`, for at most so many rounds. -/
def broadcastLoop (σ : S) : ℕ → WaitSys Tid M S → Option (WaitSys Tid M S)
  | 0, _ => none
  | n + 1, a =>
    match a.step (.semTake none σ false) with
    | none => none
    | some (b, out) =>
      if out = [.semTake σ .eok] then b.next (.semRelease σ)
      else (b.next (.semRelease σ)).bind (broadcastLoop σ n)

/-- `pthread_cond_broadcast`: a round for each waiter, and two more. -/
def pthreadCondBroadcast (a : WaitSys Tid M S) (σ : S) : Option (WaitSys Tid M S) :=
  broadcastLoop σ ((a.queue (.inr σ)).length + 2) a

/-! ### What a step does -/

variable {a b : WaitSys Tid M S} {op : WaitOp Tid M S} {t u : Tid} {m : M} {σ : S}

theorem exists_step (h : a.next op = some b) : ∃ out, a.step op = some (b, out) := by
  obtain ⟨r, hr, rfl⟩ := map_eq_some_iff.1 h
  exact ⟨r.2, hr⟩

theorem outcome_of_next (h : a.next op = some b) : ∃ out, a.Outcome op b out := by
  obtain ⟨out, hs⟩ := exists_step h
  exact ⟨out, outcome_of_step hs⟩

theorem Queued.next (hq : Queued a) (h : a.next op = some b) : Queued b := by
  obtain ⟨out, hs⟩ := exists_step h
  exact queued_step hq hs

/-- A semaphore with a value has no waiters. -/
def SemIdle (a : WaitSys Tid M S) : Prop := ∀ σ, (a.sem σ).value > 0 → a.queue (.inr σ) = []

theorem SemIdle.endWait (hi : SemIdle a) (o : M ⊕ S) (err : RtErr) :
    SemIdle (a.endWait t o err) := by
  intro σ hvalue
  show (a.queue (.inr σ)).filter (· ≠ t) = []
  rw [hi σ hvalue, filter_nil]

theorem SemIdle.beginWait (hi : SemIdle a) {o : M ⊕ S}
    (ho : ∀ σ, o = .inr σ → ¬ (a.sem σ).value > 0) (flag : IpcFlag) :
    SemIdle (a.beginWait t o flag) := by
  intro σ hvalue
  have hne : Sum.inr σ ≠ o := fun heq => ho σ heq.symm hvalue
  show update a.queue o _ (.inr σ) = []
  rw [update_of_ne hne]
  exact hi σ hvalue

theorem SemIdle.next (hi : SemIdle a) (h : a.next op = some b) : SemIdle b := by
  obtain ⟨out, ho⟩ := outcome_of_next h
  cases ho with
  | lent t m owner hmode howner hne hvalue =>
    split
    · exact SemIdle.beginWait (a := a.setPrio _ _) hi (by simp) _
    · exact hi.beginWait (by simp) _
  | givenUp t m hmode howner hhold =>
    rw [giveUp]
    split
    · exact SemIdle.endWait (a := (a.setPrio t _).setMutex m _) hi _ _
    · exact hi
  | semTaken caller σ waits hvalue =>
    intro τ hτ
    by_cases hne : τ = σ
    · subst hne
      exact hi τ hvalue
    · refine hi τ ?_
      simpa [setSem, hne] using hτ
  | semWaits t σ hmode hvalue =>
    refine hi.beginWait (fun τ heq => ?_) _
    obtain rfl := Sum.inr.inj heq
    exact hvalue
  | semHandOver σ next rest hlist => exact hi.endWait _ _
  | semGiven σ hlist =>
    intro τ hτ
    by_cases hne : τ = σ
    · subst hne
      exact hlist
    · refine hi τ ?_
      simpa [setSem, hne] using hτ
  | semControl σ value =>
    intro τ hτ
    by_cases hne : τ = σ
    · subst hne
      simp [setSem]
    · have hidle : a.queue (.inr τ) = [] := hi τ (by simpa [setSem, hne] using hτ)
      simpa [setSem, hne] using hidle
  | wake t o err hmode herr => exact hi.endWait _ _
  | _ => exact hi

/-- A thread begins to wait for a semaphore only in its own `rt_sem_take`, when there is no value. -/
theorem waits_step (h : a.next op = some b) (hmode : b.mode u = .waiting (.inr σ)) :
    a.mode u = .waiting (.inr σ) ∨
      (op = .semTake (some u) σ true ∧ a.mode u = .outside ∧ ¬ (a.sem σ).value > 0) := by
  obtain ⟨out, ho⟩ := outcome_of_next h
  have hend : ∀ {a : WaitSys Tid M S} {t : Tid} {o : M ⊕ S} {err : RtErr},
      (a.endWait t o err).mode u = .waiting (.inr σ) → a.mode u = .waiting (.inr σ) := by
    intro a t o err hmode
    by_cases hut : u = t
    · subst hut
      simp [endWait] at hmode
    · simpa [endWait, hut] using hmode
  have hset : ∀ {t : Tid} {mode : Mode (M ⊕ S)}, mode ≠ .waiting (.inr σ) →
      update a.mode t mode u = .waiting (.inr σ) → a.mode u = .waiting (.inr σ) := by
    intro t mode hne hmode
    by_cases hut : u = t
    · subst hut
      rw [update_self] at hmode
      exact absurd hmode hne
    · rwa [update_of_ne hut] at hmode
  cases ho with
  | startup t p ht => exact .inl (hset (by simp) hmode)
  | lent t m owner ht howner hne hvalue =>
    refine .inl ?_
    split at hmode <;> exact hset (by simp) hmode
  | givenUp t m ht howner hhold =>
    rw [giveUp] at hmode
    split at hmode
    · exact .inl (hend hmode)
    · exact .inl hmode
  | semWaits t τ ht hvalue =>
    by_cases hut : u = t
    · subst hut
      have hτ : τ = σ := by simpa [WaitSys.beginWait] using hmode
      subst hτ
      exact .inr ⟨rfl, ht, hvalue⟩
    · exact .inl (by simpa [WaitSys.beginWait, hut] using hmode)
  | semHandOver τ next rest hlist => exact .inl (hend hmode)
  | semControl τ value =>
    dsimp only [setSem] at hmode
    split at hmode
    · cases hmode
    · exact .inl hmode
  | wake t o err ht herr => exact .inl (hend hmode)
  | ret t o err ht => exact .inl (hset (by simp) hmode)
  | _ => exact .inl hmode

/-! ### Broadcasts -/

/-- What a broadcast does: every wait for the semaphore ends, and it has a value. -/
structure Broadcasts (a b : WaitSys Tid M S) (σ : S) : Prop where
  mode : ∀ u, b.mode u = if a.mode u = .waiting (.inr σ) then .ended (.inr σ) .eok else a.mode u
  mutex : b.mutex = a.mutex
  sem : ∀ τ, τ ≠ σ → b.sem τ = a.sem τ
  value : (b.sem σ).value > 0

theorem broadcastLoop_of_value (hi : SemIdle a) (hq : Queued a) (hvalue : (a.sem σ).value > 0)
    (n : ℕ) : ∃ b, a.broadcastLoop σ (n + 1) = some b ∧ Broadcasts a b σ := by
  have hqueue := hi σ hvalue
  have hsame : a.broadcastLoop σ (n + 1) = some a := by
    simp [broadcastLoop, step, next, hvalue, setSem, hqueue]
  refine ⟨a, hsame, fun u => ?_, rfl, fun _ _ => rfl, hvalue⟩
  have hnot : a.mode u ≠ .waiting (.inr σ) := fun hu => by
    have hmem := (hq _ u).2 hu
    simp [hqueue] at hmem
  rw [if_neg hnot]

theorem broadcastLoop_of_not_value (hvalue : ¬ (a.sem σ).value > 0) (n : ℕ) :
    a.broadcastLoop σ (n + 1) = (a.next (.semRelease σ)).bind (broadcastLoop σ n) := by
  simp [broadcastLoop, step, hvalue]

theorem broadcastLoop_of_nil (hi : SemIdle a) (hq : Queued a) (hlist : a.queue (.inr σ) = [])
    (n : ℕ) : ∃ b, a.broadcastLoop σ (n + 2) = some b ∧ Broadcasts a b σ := by
  by_cases hvalue : (a.sem σ).value > 0
  · exact broadcastLoop_of_value hi hq hvalue (n + 1)
  · have hnext : a.next (.semRelease σ) =
        some (a.setSem σ { a.sem σ with value := (a.sem σ).value + 1 }) := by
      simp [next, step, hlist]
    have hzero : (a.sem σ).value = 0 := by simpa using hvalue
    rw [broadcastLoop_of_not_value hvalue, hnext]
    obtain ⟨b, hb, hmode, hmutex, hsem, hpos⟩ := broadcastLoop_of_value (σ := σ) (hi.next hnext)
      (hq.next hnext) (by simp [setSem, hzero]) n
    refine ⟨b, hb, hmode, hmutex, fun τ hτ => (hsem τ hτ).trans ?_, hpos⟩
    exact update_of_ne hτ ..

theorem broadcastLoop_spec (n : ℕ) : ∀ {a : WaitSys Tid M S}, Queued a → SemIdle a →
    (a.queue (.inr σ)).length ≤ n → ∃ b, a.broadcastLoop σ (n + 2) = some b ∧ Broadcasts a b σ := by
  induction n with
  | zero =>
    intro a hq hi hlength
    exact broadcastLoop_of_nil hi hq (eq_nil_of_length_eq_zero (by omega)) 0
  | succ n ih =>
    intro a hq hi hlength
    cases hlist : a.queue (.inr σ) with
    | nil => exact broadcastLoop_of_nil hi hq hlist (n + 1)
    | cons u l =>
      have hvalue : ¬ (a.sem σ).value > 0 := fun hv => by simp [hi σ hv] at hlist
      have hnext : a.next (.semRelease σ) = some (a.endWait u (.inr σ) .eok) := by
        simp [next, step, hlist]
      have hshort : ((a.endWait u (.inr σ) .eok).queue (.inr σ)).length ≤ n := by
        have hfilter := length_filter_le (fun v => decide (v ≠ u)) l
        rw [hlist, length_cons] at hlength
        simp only [endWait, hlist, filter_cons, ne_eq, not_true_eq_false, decide_false,
          Bool.false_eq_true, if_false]
        exact hfilter.trans (by omega)
      rw [broadcastLoop_of_not_value hvalue, hnext]
      obtain ⟨b, hb, hmode, hmutex, hsem, hpos⟩ := ih (hq.next hnext) (hi.next hnext) hshort
      refine ⟨b, hb, fun v => ?_, hmutex, hsem, hpos⟩
      have hu := (hq (.inr σ) u).1 (by simp [hlist])
      rw [hmode v]
      by_cases hv : v = u
      · subst hv
        simp [endWait, hu]
      · simp [endWait, hv]

theorem broadcast_spec (hq : Queued a) (hi : SemIdle a) :
    ∃ b, a.pthreadCondBroadcast σ = some b ∧ Broadcasts a b σ :=
  broadcastLoop_spec _ hq hi le_rfl

theorem broadcastLoop_induction {P : WaitSys Tid M S → Prop}
    (hP : ∀ {a b op}, P a → a.next op = some b → P b) (n : ℕ) :
    ∀ {a b : WaitSys Tid M S}, P a → a.broadcastLoop σ n = some b → P b := by
  induction n with
  | zero => intro a b _ h; cases h
  | succ n ih =>
    intro a b ha h
    unfold broadcastLoop at h
    cases hs : a.step (.semTake none σ false) with
    | none => simp [hs] at h
    | some r =>
      obtain ⟨c, out⟩ := r
      have hc : P c := hP ha (by rw [next, hs]; rfl)
      simp only [hs] at h
      split at h
      · exact hP hc h
      · obtain ⟨d, hd, hb⟩ := bind_eq_some_iff.1 h
        exact ih (hP hc hd) hb

theorem Queued.broadcast (hq : Queued a) (h : a.pthreadCondBroadcast σ = some b) : Queued b :=
  broadcastLoop_induction (fun ha h => ha.next h) _ hq h

theorem SemIdle.broadcast (hi : SemIdle a) (h : a.pthreadCondBroadcast σ = some b) : SemIdle b :=
  broadcastLoop_induction (fun ha h => ha.next h) _ hi h

/-! ### A mutex that is not taken twice -/

/-- The value and the hold of a mutex that its owner has taken once. -/
structure Plain (a : WaitSys Tid M S) (m : M) : Prop where
  free : (a.mutex m).owner = none → (a.mutex m).value = 1 ∧ (a.mutex m).hold = 0
  held : ∀ t, (a.mutex m).owner = some t → (a.mutex m).value = 0 ∧ (a.mutex m).hold = 1

/-- What `pthread_mutex_lock` does: the thread has the mutex, or waits for it. -/
inductive LockStep (a b : WaitSys Tid M S) (t : Tid) (m : M) : Prop
  | taken (hfree : (a.mutex m).owner = none) (howner : (b.mutex m).owner = some t)
    (hmode : b.mode = a.mode)
  | waits (hheld : (a.mutex m).owner ≠ none) (howner : (b.mutex m).owner = (a.mutex m).owner)
    (hmode : b.mode = update a.mode t (.waiting (.inl m)))

theorem lock_spec (hm : Plain a m) (hmode : a.mode t = .outside)
    (hne : (a.mutex m).owner ≠ some t) :
    ∃ b, a.pthreadMutexLock .normal t m = some (some b) ∧ a.next (.mutexTake t m true) = some b ∧
      LockStep a b t m ∧ Plain b m ∧ b.sem = a.sem := by
  have hlock : a.pthreadMutexLock .normal t m = (a.next (.mutexTake t m true)).map some := by
    simp [pthreadMutexLock, hne]
  cases howner : (a.mutex m).owner with
  | none =>
    obtain ⟨hvalue, hhold⟩ := hm.free howner
    have hnext : a.next (.mutexTake t m true) = some (a.setMutex m { a.mutex m with
        value := (a.mutex m).value - 1
        owner := some t
        originalPriority := a.prio t
        hold := (a.mutex m).hold + 1 }) := by
      simp [next, step, takeFree, hmode, howner, hvalue]
    refine ⟨_, by rw [hlock, hnext]; rfl, hnext, .taken howner (by simp [setMutex]) rfl,
      ⟨by simp [setMutex], by simp [setMutex, hvalue, hhold]⟩, rfl⟩
  | some o =>
    obtain ⟨hvalue, hhold⟩ := hm.held o howner
    have hot : o ≠ t := by rintro rfl; exact hne howner
    have hnext : a.next (.mutexTake t m true) = some
        ((if a.prio t < a.prio o then a.setPrio o (a.prio t) else a).beginWait t (.inl m)
          (a.mutex m).flag) := by
      simp [next, step, takeFree, hmode, howner, hvalue, hot]
    have hsame : ∀ {c : WaitSys Tid M S} (flag : IpcFlag), c.mode = a.mode → c.mutex = a.mutex →
        LockStep a (c.beginWait t (.inl m) flag) t m ∧ Plain (c.beginWait t (.inl m) flag) m := by
      intro c flag hcmode hcmutex
      refine ⟨.waits (by simp [howner]) (by simp [beginWait, hcmutex])
        (by simp [beginWait, hcmode]), ⟨fun h => ?_, fun u hu => ?_⟩⟩
      · simp [beginWait, hcmutex, howner] at h
      · simp [beginWait, hcmutex, hvalue, hhold]
    refine ⟨_, by rw [hlock, hnext]; rfl, hnext, ?_⟩
    by_cases hprio : a.prio t < a.prio o
    · rw [if_pos hprio]
      obtain ⟨h₁, h₂⟩ := hsame (c := a.setPrio o (a.prio t)) (a.mutex m).flag rfl rfl
      exact ⟨h₁, h₂, rfl⟩
    · rw [if_neg hprio]
      obtain ⟨h₁, h₂⟩ := hsame (c := a) (a.mutex m).flag rfl rfl
      exact ⟨h₁, h₂, rfl⟩

/-- What `pthread_mutex_unlock` does: the mutex is free, or a thread that waits for it gets it. -/
inductive UnlockStep (a b : WaitSys Tid M S) (m : M) : Prop
  | freed (howner : (b.mutex m).owner = none) (hmode : b.mode = a.mode)
    (hnone : ∀ n, a.mode n ≠ .waiting (.inl m))
  | handed (n : Tid) (hn : a.mode n = .waiting (.inl m)) (howner : (b.mutex m).owner = some n)
    (hmode : b.mode = update a.mode n (.ended (.inl m) .eok))

theorem unlock_spec (hm : Plain a m) (hq : Queued a) (hmode : a.mode t = .outside)
    (howner : (a.mutex m).owner = some t) :
    ∃ b, a.pthreadMutexUnlock .normal t m = some (b, true) ∧
      a.next (.mutexRelease t m) = some b ∧ UnlockStep a b m ∧ Plain b m ∧ b.sem = a.sem := by
  obtain ⟨hvalue, hhold⟩ := hm.held t howner
  have hnext : a.next (.mutexRelease t m) = some (a.giveUp t m) := by
    simp [next, step, hmode, howner, hhold]
  refine ⟨a.giveUp t m, by simp [pthreadMutexUnlock, howner, hnext], hnext, ?_⟩
  cases hlist : a.queue (.inl m) with
  | nil =>
    have hgive : a.giveUp t m = (a.setPrio t (a.mutex m).originalPriority).setMutex m
        { a.mutex m with
          value := (a.mutex m).value + 1
          owner := none
          originalPriority := 0xFF
          hold := (a.mutex m).hold - 1 } := by
      rw [giveUp, hlist]
    rw [hgive]
    refine ⟨.freed (by simp [setMutex]) rfl fun n hn => ?_, ⟨?_, ?_⟩, rfl⟩
    · have hmem := (hq _ n).2 hn
      simp [hlist] at hmem
    · simp [setMutex, hvalue, hhold]
    · simp [setMutex]
  | cons n rest =>
    have hn : a.mode n = .waiting (.inl m) := (hq _ n).1 (by simp [hlist])
    have hown := owner_giveUp a t m
    rw [hlist] at hown
    have hgive : (a.giveUp t m).mode = update a.mode n (.ended (.inl m) .eok) ∧
        ((a.giveUp t m).mutex m).value = (a.mutex m).value ∧
        ((a.giveUp t m).mutex m).hold = (a.mutex m).hold - 1 + 1 ∧ (a.giveUp t m).sem = a.sem := by
      rw [giveUp, hlist]
      simp [endWait, setMutex, setPrio]
    obtain ⟨hmode', hvalue', hhold', hsem⟩ := hgive
    refine ⟨.handed n hn (by simpa using hown) hmode', ⟨fun h => ?_, fun u _ => ?_⟩, hsem⟩
    · simp [hown] at h
    · rw [hvalue', hhold', hvalue, hhold]
      exact ⟨rfl, rfl⟩

theorem Plain.congr (hm : Plain a m) (hmutex : b.mutex = a.mutex) : Plain b m := by
  obtain ⟨hfree, hheld⟩ := hm
  exact ⟨by rwa [hmutex], by rwa [hmutex]⟩

/-! ### Semaphores -/

/-- What a release of a semaphore does: it wakes a waiter, or adds to the value. -/
inductive SignalStep (a b : WaitSys Tid M S) (σ : S) : Prop
  | woken (n : Tid) (hn : a.mode n = .waiting (.inr σ))
    (hmode : b.mode = update a.mode n (.ended (.inr σ) .eok)) (hsem : b.sem = a.sem)
  | stored (hmode : b.mode = a.mode) (hsem : ∀ τ ≠ σ, b.sem τ = a.sem τ)

theorem signal_spec (hq : Queued a) :
    ∃ b, a.pthreadCondSignal σ = some b ∧ SignalStep a b σ ∧ b.mutex = a.mutex := by
  cases hlist : a.queue (.inr σ) with
  | nil =>
    refine ⟨a.setSem σ { a.sem σ with value := (a.sem σ).value + 1 },
      by simp [pthreadCondSignal, next, step, hlist], .stored rfl fun τ hτ => ?_, rfl⟩
    exact update_of_ne hτ ..
  | cons n rest =>
    have hn : a.mode n = .waiting (.inr σ) := (hq _ n).1 (by simp [hlist])
    exact ⟨a.endWait n (.inr σ) .eok, by simp [pthreadCondSignal, next, step, hlist],
      .woken n hn rfl rfl, rfl⟩

/-- What a take of a semaphore does: it takes a unit, waits, or is refused. -/
inductive SemTakeStep (a b : WaitSys Tid M S) (t : Tid) (σ : S) (waits : Bool) :
    List (IpcEvent Tid M S) → Prop
  | taken (hvalue : (a.sem σ).value > 0) (hmode : b.mode = a.mode) :
    SemTakeStep a b t σ waits [.semTake σ .eok]
  | waits (hvalue : ¬ (a.sem σ).value > 0) (hwaits : waits = true) (hsem : b.sem = a.sem)
    (hmode : b.mode = update a.mode t (.waiting (.inr σ))) : SemTakeStep a b t σ waits []
  | refused (hvalue : ¬ (a.sem σ).value > 0) (hwaits : waits = false) (hsame : b = a) :
    SemTakeStep a b t σ waits [.semTake σ .etimeout]

theorem semTake_spec (hmode : a.mode t = .outside) (waits : Bool) :
    ∃ b out, a.step (.semTake (some t) σ waits) = some (b, out) ∧
      SemTakeStep a b t σ waits out ∧ b.mutex = a.mutex ∧ ∀ τ ≠ σ, b.sem τ = a.sem τ := by
  by_cases hvalue : (a.sem σ).value > 0
  · refine ⟨a.setSem σ { a.sem σ with value := (a.sem σ).value - 1 }, _, by simp [step, hvalue],
      .taken hvalue rfl, rfl, fun τ hτ => ?_⟩
    exact update_of_ne hτ ..
  · cases waits with
    | true =>
      exact ⟨a.beginWait t (.inr σ) (a.sem σ).flag, _, by simp [step, hvalue, hmode],
        .waits hvalue rfl rfl rfl, rfl, fun _ _ => rfl⟩
    | false =>
      exact ⟨a, _, by simp [step, hvalue], .refused hvalue rfl rfl, rfl, fun _ _ => rfl⟩

theorem resume_spec {r : WaitSys Tid M S × RtErr} (h : a.resume t = some r) :
    r.1 = { a with mode := update a.mode t .outside } ∧
      (a.mode t = .outside ∧ r.2 = .eok ∨ ∃ o, a.mode t = .ended o r.2) := by
  unfold resume at h
  split at h
  · next hmode =>
    cases h
    refine ⟨?_, .inl ⟨hmode, rfl⟩⟩
    rw [← hmode, update_eq_self]
  · next o err hmode =>
    obtain ⟨b, hb, rfl⟩ := map_eq_some_iff.1 h
    refine ⟨?_, .inr ⟨o, hmode⟩⟩
    simpa [next, step, hmode, eq_comm] using hb
  · cases h

theorem Queued.resume (hq : Queued a) {r : WaitSys Tid M S × RtErr} (h : a.resume t = some r) :
    Queued r.1 := by
  unfold WaitSys.resume at h
  split at h
  · cases h
    exact hq
  · obtain ⟨b, hb, rfl⟩ := map_eq_some_iff.1 h
    exact hq.next hb
  · cases h

theorem SemIdle.resume (hi : SemIdle a) {r : WaitSys Tid M S × RtErr} (h : a.resume t = some r) :
    SemIdle r.1 := by
  obtain ⟨hipc, -⟩ := resume_spec h
  rw [hipc]
  exact hi

end WaitSys

end RtThread
