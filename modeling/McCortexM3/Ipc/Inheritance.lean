import McCortexM3.Ipc.Mutex

/-!
# Priority inheritance

A thread that waits for a mutex lends its priority to the owner.  Each mutex remembers the
priority that its owner had when it got the mutex, and gives it back at the outermost
release.  When mutexes are given up in another order than they were taken, the priority
that comes back last may be a borrowed one.

## Main definitions

* `acquisitions`, `lastSaved` — the priority that a thread had when it got the mutex that it
  gave up last.
* `IpcSys.NoControl` — the priority of a thread is not changed by `rt_thread_control`.

## Main results

* `WaitSys.session_step` — what one operation does to the priority of a thread.
* `IpcSys.run_priority_iff` — a thread without mutexes has its first priority back exactly
  when it had it as it got the mutex that it gave up last.
* `IpcSys.not_run_priority` — a thread that keeps a borrowed priority.
-/

set_option linter.all false

namespace RtThread

open Function Option List
open Function (update)

section Acquisitions

variable {Tid M S : Type} [DecidableEq Tid] [DecidableEq M]

/-- What an event says of the priorities at which `t` got each mutex, and of the one at which
it got the mutex that it gave up last. -/
def acquire (t : Tid) (x : (M → ℕ) × Option ℕ) : IpcEvent Tid M S → (M → ℕ) × Option ℕ
  | .owns u m p => if u = t then (update x.1 m p, x.2) else x
  | .frees u m => if u = t then (x.1, some (x.1 m)) else x
  | _ => x

/-- The priorities at which `t` got each mutex in a run, and the one at which it got the
mutex that it gave up last. -/
def acquisitions (t : Tid) (tr : List (IpcEvent Tid M S)) : (M → ℕ) × Option ℕ :=
  tr.foldl (acquire t) (fun _ => 0, none)

/-- The priority that `t` had when it got the mutex that it gave up last. -/
def lastSaved (t : Tid) (tr : List (IpcEvent Tid M S)) : Option ℕ := (acquisitions t tr).2

theorem acquisitions_append (t : Tid) (tr out : List (IpcEvent Tid M S)) :
    acquisitions t (tr ++ out) = out.foldl (acquire t) (acquisitions t tr) :=
  foldl_append

end Acquisitions

namespace WaitSys

variable {Tid M S : Type} [DecidableEq Tid] [DecidableEq M] [DecidableEq S]

/-- A mutex has the value 1 when it is free and the value 0 when it is owned. -/
def Valued (a : WaitSys Tid M S) : Prop :=
  ∀ m, (a.mutex m).value = if (a.mutex m).owner = none then 1 else 0

variable {a b : WaitSys Tid M S} {t u : Tid} {m : M} {base : ℕ} {tr out : List (IpcEvent Tid M S)}

theorem Valued.setMutex (h : Valued a) (hb : b.mutex = a.mutex) {mutex : Mutex Tid}
    (hm : mutex.value = if mutex.owner = none then 1 else 0) : Valued (b.setMutex m mutex) := by
  intro m'
  by_cases he : m' = m
  · subst he
    simpa [WaitSys.setMutex] using hm
  · simpa [WaitSys.setMutex, he, hb] using h m'

theorem Valued.owner_eq_none (h : Valued a) (hv : (a.mutex m).value > 0) :
    (a.mutex m).owner = none := by
  by_contra hne
  rw [h m, if_neg hne] at hv
  exact absurd hv (by decide)

theorem valued_step {op : WaitOp Tid M S} (h : Valued a) (hs : a.step op = some (b, out)) :
    Valued b := by
  cases outcome_of_step hs with
  | nested t m waits hmode howner => exact h.setMutex rfl (h m)
  | taken t m waits hmode hother hvalue =>
    have hone : (a.mutex m).value = 1 := (h m).trans (if_pos (h.owner_eq_none hvalue))
    exact h.setMutex rfl (by simp [hone])
  | lent t m owner hmode howner hne hvalue => split <;> exact h
  | givenUp t m hmode howner hhold =>
    have hzero : (a.mutex m).value = 0 := (h m).trans (if_neg (by simp [howner]))
    rw [WaitSys.giveUp]
    split
    · exact Valued.setMutex (b := a.setPrio t _) h rfl (by simp [hzero])
    · exact Valued.setMutex (b := a.setPrio t _) h rfl (by simp [hzero])
  | inner t m hmode howner hhold => exact h.setMutex rfl (h m)
  | _ => exact h

/-- The priority of `t` is not changed from outside. -/
def NoControl (t : Tid) : WaitOp Tid M S → Prop
  | .control u _ => u ≠ t
  | _ => True

/-- In a run from a state in which `t` owns no mutex and has the priority `base`: each mutex
that `t` owns remembers the priority at which `t` got it, and while `t` owns none it has the
priority at which it got the last one. -/
structure Session (t : Tid) (base : ℕ) (tr : List (IpcEvent Tid M S)) (a : WaitSys Tid M S) :
    Prop where
  started : a.mode t ≠ .unborn
  saved : ∀ m, (a.mutex m).owner = some t → (acquisitions t tr).1 m = (a.mutex m).originalPriority
  restored : (∀ m, (a.mutex m).owner ≠ some t) → a.prio t = (lastSaved t tr).getD base

section

variable (h : Session t base tr a)
include h

/-- An operation that changes no owner, and the priority of `t` only while it owns a
mutex. -/
theorem Session.frame (hmode : b.mode t ≠ .unborn)
    (hmutex : ∀ m, (b.mutex m).owner = (a.mutex m).owner ∧
      (b.mutex m).originalPriority = (a.mutex m).originalPriority)
    (hprio : b.prio t = a.prio t ∨ ∃ m, (a.mutex m).owner = some t)
    (hout : ∀ x, out.foldl (acquire t) x = x) : Session t base (tr ++ out) b := by
  have hacq : acquisitions t (tr ++ out) = acquisitions t tr := by
    rw [acquisitions_append, hout]
  refine ⟨hmode, ?_, ?_⟩
  · intro m hm
    rw [(hmutex m).1] at hm
    rw [hacq, (hmutex m).2, h.saved m hm]
  · intro hnone
    have hnone' : ∀ m, (a.mutex m).owner ≠ some t := fun m => (hmutex m).1 ▸ hnone m
    rcases hprio with hprio | ⟨m, hm⟩
    · rw [hprio, lastSaved, hacq]
      exact h.restored hnone'
    · exact absurd hm (hnone' m)

theorem Session.idle (hmode : b.mode t ≠ .unborn)
    (hmutex : b.mutex = a.mutex) (hprio : b.prio t = a.prio t)
    (hout : ∀ x, out.foldl (acquire t) x = x) : Session t base (tr ++ out) b :=
  h.frame hmode (fun m => by rw [hmutex]; exact ⟨rfl, rfl⟩) (.inl hprio) hout

theorem Session.taken {mutex : Mutex Tid}
    (hfree : (a.mutex m).owner = none) (howner : mutex.owner = some u)
    (hsaved : mutex.originalPriority = a.prio u) {err : RtErr} :
    Session t base (tr ++ (ownerEvents m a.prio (a.mutex m).owner (some u) ++
      [IpcEvent.mutexTake u m err])) (a.setMutex m mutex) := by
  have hevents : (ownerEvents m a.prio (a.mutex m).owner (some u) :
      List (IpcEvent Tid M S)) = [.owns u m (a.prio u)] := by
    simp [ownerEvents, hfree]
  rw [hevents]
  by_cases hu : u = t
  · subst hu
    have hacq : acquisitions u
        (tr ++ ([IpcEvent.owns u m (a.prio u)] ++ [IpcEvent.mutexTake u m err])) =
        (update (acquisitions u tr).1 m (a.prio u), (acquisitions u tr).2) := by
      simp [acquisitions_append, acquire]
    refine ⟨h.started, ?_, ?_⟩
    · intro m' hm'
      rw [hacq]
      by_cases he : m' = m
      · subst he
        simp [setMutex, hsaved]
      · simp only [setMutex, update_of_ne he] at hm' ⊢
        exact h.saved m' hm'
    · intro hnone
      exact absurd (by simp [setMutex, howner]) (hnone m)
  · have hacq : acquisitions t
        (tr ++ ([IpcEvent.owns u m (a.prio u)] ++ [IpcEvent.mutexTake u m err])) =
        acquisitions t tr := by
      simp [acquisitions_append, acquire, hu]
    refine ⟨h.started, ?_, ?_⟩
    · intro m' hm'
      rw [hacq]
      by_cases he : m' = m
      · subst he
        exact absurd (by simpa [setMutex, howner] using hm') hu
      · simp only [setMutex, update_of_ne he] at hm' ⊢
        exact h.saved m' hm'
    · intro hnone
      rw [lastSaved, hacq]
      refine h.restored fun m' hm' => hnone m' ?_
      by_cases he : m' = m
      · subst he
        rw [hfree] at hm'
        cases hm'
      · simpa [setMutex, he] using hm'

/-- A thread gives a mutex up: its priority is the one it had when it got the mutex. -/
theorem Session.giveUp (hq : Queued a) (howner : (a.mutex m).owner = some u)
    (hu : a.mode u = .outside) {err : RtErr} :
    Session t base (tr ++ (ownerEvents m a.prio (some u) (a.queue (.inl m)).head? ++
      [IpcEvent.mutexRelease u m err])) (a.giveUp u m) := by
  have hmode : (a.giveUp u m).mode t ≠ .unborn := by
    rw [WaitSys.giveUp]
    split
    · next next rest hlist =>
      by_cases ht : t = next
      · simp [endWait, ht]
      · simpa [endWait, setMutex, setPrio, ht] using h.started
    · exact h.started
  have hnext : ∀ {next}, (a.queue (.inl m)).head? = some next → next ≠ u := by
    rintro next hhead rfl
    have hwaits := (hq _ next).1 (mem_of_mem_head? hhead)
    rw [hu] at hwaits
    cases hwaits
  have hevents : (ownerEvents m a.prio (some u) (a.queue (.inl m)).head? :
      List (IpcEvent Tid M S)) =
        .frees u m :: (a.queue (.inl m)).head?.toList.map fun v => .owns v m (a.prio v) := by
    rw [ownerEvents, if_neg]
    · rfl
    · exact fun he => hnext he.symm rfl
  -- what `t` got and gave up
  have hacq : acquisitions t (tr ++ (ownerEvents m a.prio (some u) (a.queue (.inl m)).head? ++
      [IpcEvent.mutexRelease u m err])) =
      (if (a.queue (.inl m)).head? = some t then
        update (acquisitions t tr).1 m (a.prio t) else (acquisitions t tr).1,
      if u = t then some ((acquisitions t tr).1 m) else (acquisitions t tr).2) := by
    rw [hevents, acquisitions_append]
    cases hhead : (a.queue (.inl m)).head? with
    | none => by_cases hut : u = t <;> simp [acquire, hut]
    | some next =>
      by_cases hnt : next = t
      · have hut : u ≠ t := fun he => hnext hhead (hnt.trans he.symm)
        simp [acquire, hnt, hut]
      · by_cases hut : u = t <;> simp [acquire, hnt, hut]
  refine ⟨hmode, ?_, ?_⟩
  · intro m' hm'
    rw [hacq]
    by_cases hm : m' = m
    · subst hm
      rw [owner_giveUp] at hm'
      rw [if_pos hm', originalPriority_giveUp a u m' hm', prio_giveUp, update_of_ne (hnext hm')]
      exact update_self ..
    · rw [mutex_giveUp_of_ne a u m hm] at hm' ⊢
      rw [← h.saved m' hm']
      split
      · exact update_of_ne hm ..
      · rfl
  · intro hnone
    rw [lastSaved, hacq, prio_giveUp]
    by_cases hut : u = t
    · subst hut
      simp [h.saved m howner]
    · simp only [if_neg hut, update_of_ne (Ne.symm hut)]
      refine h.restored fun m' hm' => hnone m' ?_
      have hm : m' ≠ m := by
        rintro rfl
        exact hut (some_inj.1 (howner.symm.trans hm'))
      rw [mutex_giveUp_of_ne a u m hm, hm']

theorem Session.setHold (m : M) (hold : UInt8) (hout : ∀ x, out.foldl (acquire t) x = x) :
    Session t base (tr ++ out) (a.setMutex m { a.mutex m with hold := hold }) := by
  refine h.frame h.started ?_ (.inl rfl) hout
  intro m'
  by_cases hm : m' = m
  · subst hm
    simp [setMutex]
  · simp [setMutex, hm]

/-- **What one operation does to the priority of a thread.** -/
theorem session_step {op : WaitOp Tid M S} (hq : Queued a)
    (hv : Valued a) (hc : NoControl t op) (hs : a.step op = some (b, out)) :
    Session t base (tr ++ out) b := by
  -- the mode of another thread, or a mode that a started thread can have
  have hmode' : ∀ {v : Tid} {mode : Mode (M ⊕ S)}, mode ≠ .unborn →
      update a.mode v mode t ≠ .unborn := by
    intro v mode hne
    by_cases hv : t = v
    · simpa [hv] using hne
    · simpa [hv] using h.started
  cases outcome_of_step hs with
  | startup v p hborn =>
    have hne : t ≠ v := fun he => h.started (he ▸ hborn)
    exact h.idle (hmode' (by simp)) rfl (update_of_ne hne ..) fun _ => rfl
  | control v p => exact h.idle h.started rfl (update_of_ne (Ne.symm hc) ..) fun _ => rfl
  | nested v m waits hmode howner => exact h.setHold m _ fun _ => rfl
  | taken v m waits hmode hother hvalue => exact h.taken (hv.owner_eq_none hvalue) rfl rfl
  | lent v m owner hmode howner hne hvalue =>
    split
    · -- the owner inherits a priority: it owns the mutex
      refine h.frame (hmode' (by simp)) (fun _ => ⟨rfl, rfl⟩) ?_ fun _ => rfl
      by_cases ht : t = owner
      · exact .inr ⟨m, ht ▸ howner⟩
      · exact .inl (update_of_ne ht ..)
    · exact h.idle (hmode' (by simp)) rfl rfl fun _ => rfl
  | givenUp v m hmode howner hhold => exact h.giveUp hq howner hmode
  | inner v m hmode howner hhold => exact h.setHold m _ fun _ => rfl
  | semWaits v σ hmode hvalue => exact h.idle (hmode' (by simp)) rfl rfl fun _ => rfl
  | semHandOver σ next rest hlist => exact h.idle (hmode' (by simp)) rfl rfl fun _ => rfl
  | semControl σ value =>
    refine h.idle ?_ rfl rfl fun _ => rfl
    by_cases ht : t ∈ a.queue (.inr σ)
    · simp [setSem, ht]
    · simpa [setSem, ht] using h.started
  | wake v o err hmode herr => exact h.idle (hmode' (by simp)) rfl rfl fun _ => rfl
  | ret v o err hmode =>
    refine h.idle (hmode' (by simp)) rfl rfl ?_
    intro _
    cases o <;> rfl
  | _ => exact h.idle h.started rfl rfl fun _ => rfl

end

end WaitSys

namespace IpcSys

variable [RtConfig] {Tid M S : Type} [DecidableEq Tid] [DecidableEq M] [DecidableEq S]

/-- `rt_thread_control` does not change the priority of `t`. -/
def NoControl (t : Tid) (_ : IpcSys Tid M S) : IpcAction Tid M S → Prop
  | .control u _ => u ≠ t
  | _ => True

instance (t : Tid) (s : IpcSys Tid M S) (a : IpcAction Tid M S) : Decidable (NoControl t s a) := by
  unfold NoControl
  split <;> infer_instance

variable {idle t : Tid} {s : IpcSys Tid M S} {tr : List (IpcEvent Tid M S)}

theorem contOp_ne_control (s : IpcSys Tid M S) (v : Tid) (pc : Pc M S) (u : Tid) (p : ℕ) :
    s.contOp v pc ≠ some (.control u p) := by
  cases pc with
  | entered c => cases c <;> simp [contOp]
  | resumeNext o => simp [contOp]
  | _ => simp [contOp]

theorem NoControl.op {a : IpcAction Tid M S} {op : WaitOp Tid M S} (h : NoControl t s a)
    (ho : s.op a = some op) : WaitSys.NoControl t op := by
  cases op with
  | control u p =>
    cases a with
    | control v q =>
      cases ho
      exact h
    | cont =>
      obtain ⟨v, -, hv⟩ := bind_eq_some_iff.1 ho
      exact absurd hv (s.contOp_ne_control v _ u p)
    | _ => cases ho
  | _ => exact True.intro

theorem valued_boot {prio : Tid → ℕ} {mutexFlag : M → IpcFlag} {semValue : S → UInt32}
    {semFlag : S → IpcFlag} :
    (boot idle prio mutexFlag semValue semFlag).waitSys.Valued := fun _ => rfl

/-- In a run from a reachable state in which `t` owns no mutex to one in which it owns none
again, and without a change of its priority by `rt_thread_control`, `t` has its first
priority back **exactly when** it had that priority as it got the mutex that it gave up
last. -/
theorem run_priority_iff (idle : Tid) (prio : Tid → ℕ) (hprio : ∀ t, prio t < priorityMax)
    (mutexFlag : M → IpcFlag) (semValue : S → UInt32) (semFlag : S → IpcFlag)
    (tr₀ : List (IpcEvent Tid M S)) (s₀ : IpcSys Tid M S)
    (hrun₀ : Run (step idle) (fun _ _ => True) (boot idle prio mutexFlag semValue semFlag) tr₀ s₀)
    (t : Tid) (hstarted : (s₀.kernel.thread t).stat ≠ .init)
    (hnone₀ : ∀ m, (s₀.mutex m).owner ≠ some t) (tr : List (IpcEvent Tid M S))
    (s : IpcSys Tid M S) (hrun : Run (step idle) (NoControl t) s₀ tr s)
    (hnone : ∀ m, (s.mutex m).owner ≠ some t) :
    s.prio t = s₀.prio t ↔ ∀ p ∈ lastSaved t tr, p = s₀.prio t := by
  have hboot := inv_boot idle prio mutexFlag semValue semFlag hprio
  have hall : Inv idle s₀ ∧ Run WaitSys.step (fun _ _ => True)
      (boot idle prio mutexFlag semValue semFlag).waitSys tr₀ s₀.waitSys :=
    run_refines idle (fun _ _ => trivial) hboot hrun₀
  obtain ⟨hinv₀, hwaits₀⟩ := hall
  have hvalued₀ := hwaits₀.invariant (fun _ a => a.Valued) valued_boot
    fun hv _ hs => WaitSys.valued_step hv hs
  have hwaits : Run WaitSys.step (fun _ => WaitSys.NoControl t) s₀.waitSys tr s.waitSys :=
    (run_refines idle (fun hC ho => NoControl.op hC ho) hinv₀ hrun).2
  have hborn : s₀.waitSys.mode t ≠ .unborn := by
    have hlife : s₀.kernel.view.life t ≠ .unborn := fun h => hstarted (Stat.life_eq_unborn.1 h)
    simp only [waitSys, waitsOf]
    cases hl : s₀.kernel.view.life t <;> cases (s₀.pc t).waitsFor <;> simp_all [modeOf]
  have hsession₀ : s₀.waitSys.Session t (s₀.prio t) [] :=
    ⟨hborn, fun m hm => absurd hm (hnone₀ m), fun _ => rfl⟩
  have hsession := hwaits.invariant
    (fun tr a => a.Queued ∧ a.Valued ∧ a.Session t (s₀.prio t) tr)
    ⟨hinv₀.queued, hvalued₀, hsession₀⟩ fun h hc hs => ⟨WaitSys.queued_step h.1 hs,
      WaitSys.valued_step h.2.1 hs, WaitSys.session_step h.2.2 h.1 h.2.1 hc hs⟩
  have hrestored : s.prio t = (lastSaved t tr).getD (s₀.prio t) := hsession.2.2.restored hnone
  rw [hrestored]
  cases lastSaved t tr <;> simp

/-! ### Two orders of release -/

/-- Three threads with the priorities 31, 21 and 11. -/
def threads : IpcSys (Fin 3) (Fin 2) Unit :=
  boot 0 (fun t : Fin 3 => 31 - 10 * t.val) (fun _ : Fin 2 => .prio) (fun _ : Unit => 0)
    (fun _ : Unit => .fifo)

/-- Thread 1 runs. -/
def start : List (IpcAction (Fin 3) (Fin 2) Unit) := [.startup 1, .schedulerStart]

/-- Thread 1 takes mutex 0, thread 2 waits for it, and thread 1 takes mutex 1. -/
def waitedFor : List (IpcAction (Fin 3) (Fin 2) Unit) :=
  [.call (.mutexTake 0 (-1)), .cont, .startup 2, .schedule, .call (.mutexTake 0 (-1)), .cont, .cont,
    .call (.mutexTake 1 (-1)), .cont]

/-- Thread 1 releases mutex 0, thread 2 gets it and then waits for the semaphore. -/
def handedOn : List (IpcAction (Fin 3) (Fin 2) Unit) :=
  [.call (.mutexRelease 0), .cont, .cont, .cont, .call (.semTake () (-1)), .cont, .cont]

/-- Thread 1 gives mutex 1 up before mutex 0. -/
def nested : List (IpcAction (Fin 3) (Fin 2) Unit) :=
  waitedFor ++ [IpcAction.call (.mutexRelease 1), .cont] ++ handedOn

/-- Thread 1 gives mutex 1 up after mutex 0. -/
def overlapping : List (IpcAction (Fin 3) (Fin 2) Unit) :=
  waitedFor ++ handedOn ++ [IpcAction.call (.mutexRelease 1), .cont]

/-- The states of a run in which thread 1 runs, and of the run that goes on from there. -/
def session (actions : List (IpcAction (Fin 3) (Fin 2) Unit)) :
    Option ((IpcSys (Fin 3) (Fin 2) Unit × List (IpcEvent (Fin 3) (Fin 2) Unit)) ×
      (IpcSys (Fin 3) (Fin 2) Unit × List (IpcEvent (Fin 3) (Fin 2) Unit))) :=
  (exec (step 0) (fun _ _ => True) threads start).bind fun r =>
    (exec (step 0) (NoControl 1) r.1 actions).map fun r' => (r, r')

theorem runs_of_session {actions : List (IpcAction (Fin 3) (Fin 2) Unit)}
    {s₀ s : IpcSys (Fin 3) (Fin 2) Unit} {tr₀ tr : List (IpcEvent (Fin 3) (Fin 2) Unit)}
    (h : session actions = some ((s₀, tr₀), (s, tr))) :
    Run (step 0) (fun _ _ => True) threads tr₀ s₀ ∧ Run (step 0) (NoControl 1) s₀ tr s := by
  obtain ⟨⟨s₁, tr₁⟩, hstart, hrest⟩ := bind_eq_some_iff.1 h
  obtain ⟨⟨s₂, tr₂⟩, hactions, heq⟩ := map_eq_some_iff.1 hrest
  cases heq
  exact ⟨Run.of_exec hstart, Run.of_exec hactions⟩

end IpcSys

namespace IpcSys

theorem run_priority_iff_nested :
    letI := config32
    ∃ (s₀ s : IpcSys (Fin 3) (Fin 2) Unit) (tr : List (IpcEvent (Fin 3) (Fin 2) Unit)),
      lastSaved 1 tr = some 21 ∧ s₀.prio 1 = 21 ∧
        (s.prio 1 = s₀.prio 1 ↔ ∀ p ∈ lastSaved 1 tr, p = s₀.prio 1) := by
  let _ := config32
  have hsome : (session nested).any fun r => (r.1.1.kernel.thread 1).stat ≠ .init ∧
      (∀ m, (r.1.1.mutex m).owner ≠ some 1) ∧ (∀ m, (r.2.1.mutex m).owner ≠ some 1) ∧
      lastSaved 1 r.2.2 = some 21 ∧ r.1.1.prio 1 = 21 := by
    decide +kernel
  obtain ⟨⟨⟨s₀, tr₀⟩, s, tr⟩, hsession, hr⟩ := (Option.any_eq_true _ _).1 hsome
  obtain ⟨hstarted, hnone₀, hnone, hlast, hprio⟩ := of_decide_eq_true hr
  obtain ⟨hrun₀, hrun⟩ := runs_of_session hsession
  exact ⟨s₀, s, tr, hlast, hprio, run_priority_iff 0 (fun t : Fin 3 => 31 - 10 * t.val)
    (by decide) (fun _ : Fin 2 => .prio) (fun _ : Unit => 0) (fun _ => .fifo) tr₀ s₀ hrun₀ 1
    hstarted hnone₀ tr s hrun hnone⟩

/-- Thread 1 takes mutex 1 with the priority that it has borrowed from thread 2 for mutex 0,
gives up mutex 0 and then mutex 1, and **keeps the borrowed priority**. -/
theorem not_run_priority :
    ¬ ∀ [RtConfig] (idle : Fin 3) (prio : Fin 3 → ℕ) (_ : ∀ t, prio t < priorityMax)
      (mutexFlag : Fin 2 → IpcFlag) (semValue : Unit → UInt32) (semFlag : Unit → IpcFlag)
      (tr₀ : List (IpcEvent (Fin 3) (Fin 2) Unit)) (s₀ : IpcSys (Fin 3) (Fin 2) Unit)
      (_ : Run (step idle) (fun _ _ => True) (boot idle prio mutexFlag semValue semFlag) tr₀ s₀)
      (t : Fin 3) (_ : (s₀.kernel.thread t).stat ≠ .init)
      (_ : ∀ m, (s₀.mutex m).owner ≠ some t) (tr : List (IpcEvent (Fin 3) (Fin 2) Unit))
      (s : IpcSys (Fin 3) (Fin 2) Unit) (_ : Run (step idle) (NoControl t) s₀ tr s)
      (_ : ∀ m, (s.mutex m).owner ≠ some t), s.prio t = s₀.prio t := by
  intro h
  let _ := config32
  have hsome : (session overlapping).any fun r => (r.1.1.kernel.thread 1).stat ≠ .init ∧
      (∀ m, (r.1.1.mutex m).owner ≠ some 1) ∧ (∀ m, (r.2.1.mutex m).owner ≠ some 1) ∧
      r.1.1.prio 1 = 21 ∧ r.2.1.prio 1 = 11 := by
    decide +kernel
  obtain ⟨⟨⟨s₀, tr₀⟩, s, tr⟩, hsession, hr⟩ := (Option.any_eq_true _ _).1 hsome
  obtain ⟨hstarted, hnone₀, hnone, hprio₀, hprio⟩ := of_decide_eq_true hr
  obtain ⟨hrun₀, hrun⟩ := runs_of_session hsession
  have hsame := h 0 (fun t : Fin 3 => 31 - 10 * t.val) (by decide) (fun _ : Fin 2 => .prio)
    (fun _ : Unit => 0) (fun _ => .fifo) tr₀ s₀ hrun₀ 1 hstarted hnone₀ tr s hrun hnone
  have hdiff : (11 : ℕ) = 21 := hprio.symm.trans (hsame.trans hprio₀)
  exact absurd hdiff (by decide)

end IpcSys

end RtThread
