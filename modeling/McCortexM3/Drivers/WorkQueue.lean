import McCortexM3.Run

/-!
# Work queues

The work queue of `workqueue.c`: threads and interrupt handlers submit and cancel works, and one
worker thread takes them from the list and calls their functions.  The worker tests the list and
suspends itself in separate steps, and a submission resumes it in a step of its own, which has no
effect on a worker that is not suspended yet.

## Main definitions

* `WkSys.step`, `WkSys.boot` — the interleavings of the critical sections.
* `WkSys.InTime` — the worker is not resumed too early.
* `workFifo` — what a work queue is for: the works run in the order of their submissions.

## Main results

* `WkSys.run_awake` — a worker that is not resumed too early never sleeps over a work.
* `WkSys.run_servesInOrder` — the works run in order, each once for its last submission.
-/

set_option linter.all false

namespace RtThread

open Option List

/-- What `rt_list_entry` makes of the first node of `work_list`: a work, or, when the list is
empty, the list head taken for one. -/
inductive WorkItem (Work : Type)
  | work (w : Work)
  | head
  deriving DecidableEq

/-- Where the worker is: before its test of the list, before its `rt_thread_suspend`, at its
`rt_schedule`, before it takes an item, before it calls the function of the item, and in the
function. -/
inductive WorkerPc (Work : Type)
  | testing
  | suspending
  | waiting
  | taking
  | calling (item : WorkItem Work)
  | working (w : Work)
  deriving DecidableEq

/-- The item that the worker has at this place. -/
def WorkerPc.item {Work : Type} : WorkerPc Work → Option (WorkItem Work)
  | .calling item => some item
  | .working w => some (.work w)
  | _ => none

/-- The work whose function the worker at this place is about to call. -/
def WorkerPc.called {Work : Type} : WorkerPc Work → List Work
  | .calling (.work w) => [w]
  | _ => []

/-- What an observer sees: an accepted submission, an accepted cancellation, and the call of a
work's function. -/
inductive WkEvent (Work : Type)
  | submitted (w : Work)
  | cancelled (w : Work)
  | ran (w : Work)
  deriving DecidableEq

/-- What can happen next: the section of a submission, the `rt_thread_resume` after one, a
cancellation, and a step of the worker. -/
inductive WkAction (Work : Type)
  | dowork (w : Work)
  | criticalWork (w : Work)
  | resume
  | cancelWork (w : Work)
  | worker

/-- The queue, its worker, and the number of submissions that have not yet called
`rt_thread_resume`. -/
structure WkSys (Work : Type) where
  workList : List Work
  workCurrent : Option (WorkItem Work)
  pc : WorkerPc Work
  suspended : Bool
  resuming : ℕ

namespace WkSys

variable {Work : Type} [DecidableEq Work]

/-- `rt_list_remove` of the node of a work, which may be in no list. -/
def rtListRemove (s : WkSys Work) (w : Work) : WkSys Work :=
  { s with workList := s.workList.filter (· ≠ w) }

/-- The section of a submission; `-RT_EBUSY` for the work whose function is being called. -/
def submit (s : WkSys Work) (w : Work) : WkSys Work × List (WkEvent Work) :=
  if s.workCurrent = some (.work w) then (s, [])
  else
    let s' := { s with workList := (s.rtListRemove w).workList ++ [w] }
    (if s.workCurrent = none then { s' with resuming := s.resuming + 1 } else s', [.submitted w])

/-- `rt_workqueue_dowork` up to its `rt_thread_resume`. -/
def rtWorkqueueDowork (s : WkSys Work) (w : Work) : WkSys Work × List (WkEvent Work) := s.submit w

/-- `rt_workqueue_critical_work` up to its `rt_thread_resume`. -/
def rtWorkqueueCriticalWork (s : WkSys Work) (w : Work) : WkSys Work × List (WkEvent Work) :=
  s.submit w

/-- `rt_thread_resume` of the worker, which does nothing when it is not suspended. -/
def rtThreadResume (s : WkSys Work) : WkSys Work :=
  { s with suspended := false, resuming := s.resuming - 1 }

/-- `rt_workqueue_cancel_work`. -/
def rtWorkqueueCancelWork (s : WkSys Work) (w : Work) : WkSys Work × List (WkEvent Work) :=
  if s.workCurrent = some (.work w) then (s, []) else (s.rtListRemove w, [.cancelled w])

/-- The first node of the list as a work. -/
def listEntry (s : WkSys Work) : WorkItem Work :=
  match s.workList with
  | w :: _ => .work w
  | [] => .head

/-- The section in which the worker takes an item. -/
def take (s : WkSys Work) : WkSys Work :=
  { s with
    workList := s.workList.tail
    workCurrent := some s.listEntry
    pc := .calling s.listEntry }

/-- `_workqueue_thread_entry`, one step.  Nothing is said of a worker that calls the list head. -/
def worker (s : WkSys Work) : WorkerPc Work → Option (WkSys Work × List (WkEvent Work))
  | .testing => some ({ s with pc := if s.workList = [] then .suspending else .taking }, [])
  | .suspending => some ({ s with pc := .waiting, suspended := true }, [])
  | .waiting => if s.suspended = true then none else some ({ s with pc := .taking }, [])
  | .taking => some (s.take, [])
  | .calling (.work w) => some ({ s with pc := .working w }, [.ran w])
  | .calling .head => none
  | .working _ => some ({ s with pc := .testing, workCurrent := none }, [])

/-- One step of an interleaving. -/
def step (s : WkSys Work) : WkAction Work → Option (WkSys Work × List (WkEvent Work))
  | .dowork w => some (s.rtWorkqueueDowork w)
  | .criticalWork w => some (s.rtWorkqueueCriticalWork w)
  | .resume => if s.resuming ≠ 0 then some (s.rtThreadResume, []) else none
  | .cancelWork w => some (s.rtWorkqueueCancelWork w)
  | .worker => s.worker s.pc

/-- `rt_workqueue_create`. -/
def boot : WkSys Work where
  workList := []
  workCurrent := none
  pc := .testing
  suspended := false
  resuming := 0

/-- A submission does not resume the worker between its test of the list and its suspension, unless
the list is empty by then. -/
def InTime (s : WkSys Work) : WkAction Work → Prop
  | .resume => s.pc = .suspending → s.workList = []
  | _ => True

instance (s : WkSys Work) (a : WkAction Work) : Decidable (s.InTime a) := by
  unfold InTime
  split <;> infer_instance

variable {s s' : WkSys Work} {a : WkAction Work} {tr out : List (WkEvent Work)} {w : Work}

/-! ### The worker is resumed -/

/-- The worker does not sleep over a work, unless a resume is on its way. -/
def Awake (s : WkSys Work) : Prop := s.suspended = true → s.workList ≠ [] → s.resuming ≠ 0

theorem current_submit (h : s.workCurrent = s.pc.item) (w : Work) :
    (s.submit w).1.workCurrent = (s.submit w).1.pc.item := by
  rw [submit]
  split
  · exact h
  · split <;> exact h

theorem current_worker (h : s.workCurrent = s.pc.item) (hs : s.worker s.pc = some (s', out)) :
    s'.workCurrent = s'.pc.item := by
  cases hpc : s.pc with
  | testing =>
    rw [hpc] at hs h
    cases hs
    by_cases hlist : s.workList = [] <;> simpa [hlist, WorkerPc.item] using h
  | waiting =>
    rw [hpc, worker] at hs
    rw [hpc] at h
    split at hs <;> cases hs
    exact h
  | calling item =>
    rw [hpc] at hs h
    cases item with
    | work w =>
      cases hs
      exact h
    | head => cases hs
  | suspending =>
    rw [hpc] at hs h
    cases hs
    exact h
  | _ =>
    rw [hpc] at hs
    cases hs
    rfl

theorem current_step (h : s.workCurrent = s.pc.item) (hs : s.step a = some (s', out)) :
    s'.workCurrent = s'.pc.item := by
  have hresult : ∀ {r : WkSys Work × List (WkEvent Work)}, r.1.workCurrent = r.1.pc.item →
      some r = some (s', out) → s'.workCurrent = s'.pc.item := by
    intro r hr he
    cases he
    exact hr
  cases a with
  | dowork w => exact hresult (current_submit h w) hs
  | criticalWork w => exact hresult (current_submit h w) hs
  | resume =>
    rw [step] at hs
    split at hs <;> cases hs
    exact h
  | cancelWork w =>
    refine hresult ?_ hs
    rw [rtWorkqueueCancelWork]
    split <;> exact h
  | worker => exact current_worker h hs

/-- A worker that sleeps or is about to has no work, unless a resume is on its way. -/
structure Rested (s : WkSys Work) : Prop where
  pending : s.suspended = true ∨ s.pc = .suspending → s.workList ≠ [] → s.resuming ≠ 0
  waiting : s.suspended = true → s.pc = .waiting

theorem rested_boot : Rested (boot : WkSys Work) := ⟨nofun, nofun⟩

theorem rested_of_awake (h : s.suspended ≠ true) (hpc : s.pc = .suspending → s.workList = []) :
    Rested s := by
  refine ⟨?_, fun hs => absurd hs h⟩
  rintro (hs | hs) hlist
  · exact absurd hs h
  · exact absurd (hpc hs) hlist

theorem rested_rtThreadResume (hc : s.pc = .suspending → s.workList = []) :
    Rested s.rtThreadResume := rested_of_awake nofun hc

theorem Rested.submit (h : Rested s) (hcurrent : s.workCurrent = s.pc.item) (w : Work) :
    Rested (s.submit w).1 := by
  rw [WkSys.submit]
  split
  · exact h
  · split
    · exact ⟨fun _ _ => Nat.succ_ne_zero _, h.waiting⟩
    · next hcur =>
      -- the worker has an item, so that it is awake
      rw [hcurrent] at hcur
      refine ⟨?_, h.waiting⟩
      rintro (hsusp | hpc) -
      · exact absurd (by rw [h.waiting hsusp]; rfl) hcur
      · exact absurd (by rw [hpc]; rfl) hcur

theorem Rested.cancel (h : Rested s) (w : Work) : Rested (s.rtWorkqueueCancelWork w).1 := by
  rw [rtWorkqueueCancelWork]
  split
  · exact h
  · refine ⟨?_, h.waiting⟩
    intro hpc hlist
    apply h.pending hpc
    intro hnil
    simp [rtListRemove, hnil] at hlist

theorem Rested.worker (h : Rested s) (hs : s.worker s.pc = some (s', out)) : Rested s' := by
  have hawake : s.pc ≠ .waiting → s.suspended ≠ true := fun hpc hsusp => hpc (h.waiting hsusp)
  cases hpc : s.pc with
  | testing =>
    have hsusp := hawake (by simp [hpc])
    rw [hpc] at hs
    cases hs
    refine rested_of_awake (by exact hsusp) ?_
    by_cases hlist : s.workList = [] <;> simp [hlist]
  | suspending =>
    rw [hpc] at hs
    cases hs
    exact ⟨fun _ => h.pending (.inr hpc), fun _ => rfl⟩
  | waiting =>
    rw [hpc, WkSys.worker] at hs
    split at hs
    · cases hs
    · next hsusp =>
      cases hs
      exact rested_of_awake hsusp nofun
  | taking | working w =>
    have hsusp := hawake (by simp [hpc])
    rw [hpc] at hs
    cases hs
    exact rested_of_awake hsusp nofun
  | calling item =>
    have hsusp := hawake (by simp [hpc])
    rw [hpc] at hs
    cases item with
    | work w =>
      cases hs
      exact rested_of_awake hsusp nofun
    | head => cases hs

theorem rested_step (h : Rested s) (hcurrent : s.workCurrent = s.pc.item) (hc : s.InTime a)
    (hs : s.step a = some (s', out)) : Rested s' := by
  have hresult : ∀ {r : WkSys Work × List (WkEvent Work)}, Rested r.1 →
      some r = some (s', out) → Rested s' := by
    intro r hr he
    cases he
    exact hr
  cases a with
  | dowork w => exact hresult (h.submit hcurrent w) hs
  | criticalWork w => exact hresult (h.submit hcurrent w) hs
  | resume =>
    rw [step] at hs
    split at hs
    · exact hresult (rested_rtThreadResume hc) hs
    · cases hs
  | cancelWork w => exact hresult (h.cancel w) hs
  | worker => exact h.worker hs

/-- **A worker that is not resumed too early never sleeps over a work.** -/
theorem run_awake (h : Run step InTime boot tr s) : Awake s := by
  have hrun := h.invariant (fun _ s => Rested s ∧ s.workCurrent = s.pc.item) ⟨rested_boot, rfl⟩
    fun hinv hc hs => ⟨rested_step hinv.1 hinv.2 hc hs, current_step hinv.2 hs⟩
  exact fun hsusp => hrun.1.pending (.inl hsusp)

/-- A work is submitted while the worker sleeps. -/
theorem run_awake_submits : ∃ s : WkSys (Fin 2), Awake s ∧ s.suspended = true ∧
    s.workList = [0] := by
  have hdec : ((exec step InTime (boot : WkSys (Fin 2)) [.worker, .worker, .dowork 0]).map
      fun r => (r.1.suspended, r.1.workList)) = some (true, [0]) := by decide
  obtain ⟨⟨s, tr⟩, hexec, hr⟩ := map_eq_some_iff.1 hdec
  exact ⟨s, run_awake (Run.of_exec hexec), congrArg Prod.fst hr, congrArg Prod.snd hr⟩

/-- **The worker sleeps over a work** that has been submitted, with its resume, between the
worker's test of the list and its suspension. -/
theorem not_run_awake : ¬ ∀ (s : WkSys (Fin 2)) (tr : List (WkEvent (Fin 2))),
    Run step (fun _ _ => True) boot tr s → Awake s := by
  intro hall
  have hdec : ((exec step (fun _ _ => True) (boot : WkSys (Fin 2))
      [.worker, .dowork 0, .resume, .worker]).map fun r =>
        (r.1.suspended, r.1.workList, r.1.resuming)) = some (true, [0], 0) := by decide
  obtain ⟨⟨s, tr⟩, hexec, hr⟩ := map_eq_some_iff.1 hdec
  have hlist : s.workList = [0] := congrArg (·.2.1) hr
  exact hall s tr (Run.of_exec hexec) (congrArg Prod.fst hr) (by simp [hlist]) (congrArg (·.2.2) hr)

/-! ### The works run in order -/

/-- The works that are still to be run, in order. -/
def pending (s : WkSys Work) : List Work := s.pc.called ++ s.workList

end WkSys

/-- The works that are to be run.  A submission puts its work at the end, also when it is still to
be run, and a work that runs is the first one. -/
def workFifo {Work : Type} [DecidableEq Work] :
    List Work → WkEvent Work → Option (List Work)
  | l, .submitted w => some (l.filter (· ≠ w) ++ [w])
  | l, .cancelled w => some (l.filter (· ≠ w))
  | l, .ran w => if l.head? = some w then some l.tail else none

namespace WkSys

variable {Work : Type} [DecidableEq Work] {s s' : WkSys Work} {a : WkAction Work}
  {tr out : List (WkEvent Work)} {w : Work}

/-- What the events say is still to be run is what the worker has still to run. -/
def InOrder (tr : List (WkEvent Work)) (s : WkSys Work) : Prop :=
  tr.foldlM workFifo [] = some s.pending

/-- A work that is not the current one is not the one that the worker is about to run. -/
theorem filter_pending (h : s.workCurrent = s.pc.item) (hw : s.workCurrent ≠ some (.work w)) :
    s.pending.filter (· ≠ w) = s.pc.called ++ s.workList.filter (· ≠ w) := by
  rw [pending, filter_append, append_left_inj, filter_eq_self]
  intro v hv
  rw [h] at hw
  cases hpc : s.pc with
  | calling item =>
    cases item with
    | work u =>
      simp only [hpc, WorkerPc.called, mem_singleton] at hv
      subst hv
      simpa [hpc, WorkerPc.item] using hw
    | head => simp [hpc, WorkerPc.called] at hv
  | _ => simp [hpc, WorkerPc.called] at hv

theorem pending_submit (h : s.workCurrent = s.pc.item) (w : Work) :
    (s.submit w).2.foldlM workFifo s.pending = some (s.submit w).1.pending := by
  rw [submit]
  split
  · rfl
  · next hcur =>
    have hnew : s.pending.filter (· ≠ w) ++ [w] =
        s.pc.called ++ ((s.rtListRemove w).workList ++ [w]) := by
      rw [filter_pending h hcur, append_assoc]
      rfl
    split
    all_goals exact congrArg some hnew

theorem pending_cancel (h : s.workCurrent = s.pc.item) (w : Work) :
    (s.rtWorkqueueCancelWork w).2.foldlM workFifo s.pending =
      some (s.rtWorkqueueCancelWork w).1.pending := by
  rw [rtWorkqueueCancelWork]
  split
  · rfl
  · next hcur => exact congrArg some (filter_pending h hcur)

/-- The worker takes the first work, and calls the function of the one that it has taken. -/
theorem pending_worker (hs : s.worker s.pc = some (s', out)) :
    out.foldlM workFifo s.pending = some s'.pending := by
  simp only [pending]
  cases hpc : s.pc with
  | testing =>
    rw [hpc] at hs
    cases hs
    by_cases hlist : s.workList = [] <;> simp [hlist, WorkerPc.called]
  | suspending =>
    rw [hpc] at hs
    cases hs
    rfl
  | waiting =>
    rw [hpc, WkSys.worker] at hs
    split at hs <;> cases hs
    rfl
  | taking =>
    rw [hpc] at hs
    cases hs
    cases hlist : s.workList with
    | nil => simp [take, listEntry, hlist, WorkerPc.called]
    | cons w l => simp [take, listEntry, hlist, WorkerPc.called]
  | calling item =>
    rw [hpc] at hs
    cases item with
    | work w =>
      cases hs
      simp [WorkerPc.called, workFifo]
    | head => cases hs
  | working w =>
    rw [hpc] at hs
    cases hs
    rfl

theorem pending_step (h : s.workCurrent = s.pc.item) (hs : s.step a = some (s', out)) :
    out.foldlM workFifo s.pending = some s'.pending := by
  have hresult : ∀ {r : WkSys Work × List (WkEvent Work)},
      r.2.foldlM workFifo s.pending = some r.1.pending → some r = some (s', out) →
      out.foldlM workFifo s.pending = some s'.pending := by
    intro r hr he
    cases he
    exact hr
  cases a with
  | dowork w => exact hresult (pending_submit h w) hs
  | criticalWork w => exact hresult (pending_submit h w) hs
  | resume =>
    rw [step] at hs
    split at hs <;> cases hs
    rfl
  | cancelWork w => exact hresult (pending_cancel h w) hs
  | worker => exact pending_worker hs

/-- **The works run in order**, each once for its last submission. -/
theorem run_servesInOrder (h : Run step (fun _ _ => True) boot tr s) : InOrder tr s := by
  have hrun := h.invariant (fun tr s => InOrder tr s ∧ s.workCurrent = s.pc.item) ⟨rfl, rfl⟩ ?_
  · exact hrun.1
  · rintro tr s a s' out ⟨hfold, hcur⟩ - hs
    refine ⟨?_, current_step hcur hs⟩
    rw [InOrder] at hfold ⊢
    rw [foldlM_append, hfold]
    exact pending_step hcur hs

/-- Two works run. -/
theorem run_servesInOrder_two : ∃ s : WkSys (Fin 2), InOrder [.submitted 1, .submitted 0, .ran 1] s ∧
    s.pending = [0] := by
  have htr : (exec step (fun _ _ => True) (boot : WkSys (Fin 2))
      [.dowork 1, .criticalWork 0, .worker, .worker, .worker]).map
        (fun r => (r.2, r.1.pending)) =
      some ([.submitted 1, .submitted 0, .ran 1], [0]) := rfl
  obtain ⟨⟨s, tr⟩, hexec, hr⟩ := map_eq_some_iff.1 htr
  have htrace : tr = [.submitted 1, .submitted 0, .ran 1] := congrArg Prod.fst hr
  subst htrace
  exact ⟨s, run_servesInOrder (Run.of_exec hexec), congrArg Prod.snd hr⟩

/-- **Two submissions of a work that is still to be run make it run once**: without cancellations,
the submissions of a work are not its runs and those that are still to come. -/
theorem not_run_oncePerSubmission : ¬ ∀ (s : WkSys (Fin 2)) (tr : List (WkEvent (Fin 2))),
    Run step (fun _ _ => True) boot tr s → (∀ w, .cancelled w ∉ tr) →
      ∀ w, tr.count (.submitted w) = tr.count (.ran w) + s.pending.count w := by
  intro hall
  have htr : (exec step (fun _ _ => True) (boot : WkSys (Fin 2))
      [.dowork 0, .dowork 0, .worker, .worker, .worker]).map (fun r => (r.2, r.1.pending)) =
      some ([.submitted 0, .submitted 0, .ran 0], []) := rfl
  obtain ⟨⟨s, tr⟩, hexec, hr⟩ := map_eq_some_iff.1 htr
  have hpending : s.pending = [] := congrArg Prod.snd hr
  have htrace : tr = [.submitted 0, .submitted 0, .ran 0] := congrArg Prod.fst hr
  subst htrace
  have hcount := hall s _ (Run.of_exec hexec) (by decide) 0
  rw [hpending] at hcount
  revert hcount
  decide

end WkSys

end RtThread
