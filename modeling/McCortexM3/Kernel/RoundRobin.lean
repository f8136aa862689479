import McCortexM3.Ipc.Object
import McCortexM3.Kernel.Interleave
import Mathlib.Data.UInt

/-!
# Threads of one priority

Threads of one priority are to share the processor by time slices, which `rt_tick_increase`
counts.  Every call of `rt_schedule` is made on account of a thread that yields, blocks, ends or
has used up its time slice, or for another reason: a thread or an interrupt handler has resumed
a thread, or has unlocked the scheduler.  `rt_schedule` does not know the reason.

The interleavings are those of `McCortexM3.Kernel.Interleave`, with the reason of each call in
flight, the sections of `ipc.c` that suspend and resume threads, and the clock interrupt.

## Main definitions

* `Cause`, `RrSys.step`, `RrSys.boot` — the interleavings.
* `MeetsPeer` — `rt_schedule` is called for another reason while a peer of the running thread
  is ready.
* `KeepsTurn` — a call of `rt_schedule` leaves the running thread before its peers.

## Main results

* `keepsTurn_iff` — which calls do.
* `RrSys.run_keepsTurn` — every run without such a meeting.
-/

set_option linter.all false

namespace RtThread

open Function Option List

/-- On whose account `rt_schedule` is called: of a thread that gives up the processor, or of
none. -/
inductive Cause (Tid : Type)
  | leaves (t : Tid)
  | other
  deriving DecidableEq

/-- What an observer sees: a call of `rt_schedule` with the kernel before and after it, and a
tick that is counted for a thread, with the end of its time slice. -/
inductive RrEvent (Tid ι : Type)
  | scheduled (cause : Cause Tid) (before after : Kernel Tid ι)
  | charged (t : Tid) (expired : Bool)

/-- What can happen next: a function of `thread.c` is called; a call in flight runs its next
section; a thread times out; the running thread waits for an object; an object is released to
its first waiting thread; anything else calls `rt_schedule`; a clock interrupt. -/
inductive RrAction (Tid ι : Type)
  | call (a : Action Tid)
  | run (c : Call Tid) (cause : Cause Tid)
  | timeout (t : Tid)
  | wait (o : ι) (flag : IpcFlag) (time : ℤ)
  | release (o : ι)
  | schedule
  | tick

/-- A function of `thread.c` is called by a thread, or by an interrupt handler. -/
def Action.begins {Tid : Type} : Action Tid → Bool
  | .run _ | .timeout _ => false
  | _ => true

/-- The kernel, the calls in flight, and the fields `init_tick` and `remaining_tick` of each
thread. -/
structure RrSys (Tid ι : Type) where
  kernel : Kernel Tid ι
  calls : List (Call Tid × Cause Tid)
  initTick : Tid → UInt32
  remainingTick : Tid → UInt32

namespace RrSys

variable [RtConfig] {Tid ι : Type} [DecidableEq Tid] [DecidableEq ι]

/-- The system without the reasons. -/
def sys (s : RrSys Tid ι) : Sys Tid ι := ⟨s.kernel, s.calls.map Prod.fst⟩

/-- A call of a function of `thread.c` is made by the running thread when it gives up the
processor. -/
def causeOf (s : RrSys Tid ι) : Action Tid → Cause Tid
  | .yield | .exit | .sleep => s.kernel.currentThread.elim .other .leaves
  | _ => .other

/-- The kernel after a section, with the calls that follow it. -/
def follow (s : RrSys Tid ι) (cause : Cause Tid) (calls : List (Call Tid × Cause Tid))
    (r : Sys Tid ι) : RrSys Tid ι :=
  { s with kernel := r.kernel, calls := r.calls.map (·, cause) ++ calls }

/-- `rt_tick_increase` for the thread `t`, which yields at the end of its time slice. -/
def charge (s : RrSys Tid ι) (t : Tid) : RrSys Tid ι × List (RrEvent Tid ι) :=
  let remaining := s.remainingTick t - 1
  if remaining = 0 then
    ({ s with
      remainingTick := Function.update s.remainingTick t (s.initTick t)
      calls := (.schedule, .leaves t) :: s.calls }, [.charged t true])
  else ({ s with remainingTick := Function.update s.remainingTick t remaining }, [.charged t false])

/-- One step of an interleaving. -/
def step (s : RrSys Tid ι) : RrAction Tid ι → Option (RrSys Tid ι × List (RrEvent Tid ι))
  | .call a =>
    if a.begins then
      (Sys.step ⟨s.kernel, []⟩ a).map fun r => (s.follow (s.causeOf a) s.calls r.1, [])
    else none
  | .run c cause =>
    if (c, cause) ∈ s.calls then
      (Sys.runSection s.kernel [] c).map fun r =>
        (s.follow cause (s.calls.erase (c, cause)) r.1, r.2.map (.scheduled cause s.kernel))
    else none
  | .timeout t =>
    if (s.kernel.thread t).timerActive then
      (s.kernel.timeoutSection t).map fun k =>
        ({ s with kernel := k, calls := (.schedule, .other) :: s.calls }, [])
    else none
  | .wait o flag time =>
    match s.kernel.currentThread with
    | some t =>
      ((s.kernel.setError t .eok).ipcSuspend o t flag time).map fun k =>
        ({ s with kernel := k, calls := (.schedule, .leaves t) :: s.calls }, [])
    | none => none
  | .release o =>
    (s.kernel.rtIpcListResume o).map fun k =>
      ({ s with kernel := k, calls := (.schedule, .other) :: s.calls }, [])
  | .schedule => some ({ s with calls := (.schedule, .other) :: s.calls }, [])
  | .tick => s.kernel.currentThread.map s.charge

/-- The system after the scheduler and the threads have been initialised. -/
def boot (prio : Tid → ℕ) (isSystemObject cleanup : Tid → Bool) (initTick : Tid → UInt32) :
    RrSys Tid ι where
  kernel := .rtSystemSchedulerInit fun t =>
    Kernel.rtThreadInit (prio t) (isSystemObject t) (cleanup t)
  calls := []
  initTick := initTick
  remainingTick := initTick

end RrSys

/-! ### One call of `rt_schedule` -/

section Schedule

variable [RtConfig] {Tid ι : Type} [DecidableEq Tid] [DecidableEq ι]

/-- A thread other than the one on whose account `rt_schedule` is called runs, the scheduler is
not locked, and a peer of the running thread is ready. -/
def MeetsPeer (cause : Cause Tid) (k : Kernel Tid ι) : Prop :=
  ∃ cur, k.currentThread = some cur ∧ (k.thread cur).stat = .running ∧ cause ≠ .leaves cur ∧
    k.schedulerLockNest = 0 ∧
    ∃ u, (k.thread u).stat = .ready ∧ (k.thread u).currentPriority = (k.thread cur).currentPriority

/-- A thread that has not given up the processor is not replaced by a peer; and when it is
replaced, it is not queued behind one. -/
def KeepsTurn (cause : Cause Tid) (before after : Kernel Tid ι) : Prop :=
  ∀ cur, before.currentThread = some cur → (before.thread cur).stat = .running →
    cause ≠ .leaves cur →
    ∀ next, after.currentThread = some next → next ≠ cur →
      (before.thread next).currentPriority ≠ (before.thread cur).currentPriority ∧
      after.list (.ready (before.thread cur).currentPriority) = [cur]

variable {k k' : Kernel Tid ι} {cause : Cause Tid} {cur next : Tid} {p : ℕ}

theorem list_switchTo (hne : next ≠ cur) :
    (k.switchTo cur next p true).list (.ready (k.thread cur).currentPriority) =
      (k.list (.ready (k.thread cur).currentPriority)).filter (· ≠ next) ++ [cur] := by
  unfold Kernel.switchTo Kernel.rtScheduleInsertThread Kernel.setStat Kernel.rtListInsertBefore
  simp [hne, hne.symm]

/-- **`rt_schedule`** leaves the running thread alone when only threads of lower priorities are
ready, and otherwise puts it behind its peers. -/
theorem rtSchedule_running (h : k.ReadyInv) (hs : k.rtSchedule = some k')
    (hcur : k.currentThread = some cur) (hrun : (k.thread cur).stat = .running) :
    (k'.currentThread = some cur ∧ (k.schedulerLockNest = 0 → ∀ u, (k.thread u).stat = .ready →
      (k.thread cur).currentPriority < (k.thread u).currentPriority)) ∨
    (k.schedulerLockNest = 0 ∧ ∃ next, next ≠ cur ∧ (k.thread next).stat = .ready ∧
      (k.thread next).currentPriority ≤ (k.thread cur).currentPriority ∧
      k' = k.switchTo cur next (k.thread next).currentPriority true) := by
  rw [Kernel.rtSchedule] at hs
  split at hs
  · next hlock =>
    split at hs
    · next hgroup =>
      obtain ⟨-, hmin⟩ := h.highest hgroup
      split at hs
      · next c next p hc hget =>
        obtain rfl : c = cur := some_inj.1 (hc.symm.trans hcur)
        obtain ⟨rfl, hready, hprio, hne⟩ := h.of_highest hget
        have hne := hne c hcur
        split at hs
        · next hcond =>
          cases hs
          refine .inl ⟨by simpa [Kernel.setStat] using hcur, ?_⟩
          intro _ u hu
          exact hcond.2.trans_le (hmin u hu)
        · next hcond =>
          rw [decide_eq_true hrun, ← hprio] at hs
          refine .inr ⟨hlock, next, hne, hready, ?_, (some_inj.1 hs).symm⟩
          rw [hprio]
          exact not_lt.1 fun hlt => hcond ⟨hrun, hlt⟩
      · cases hs
    · -- no thread is ready
      next hgroup =>
      cases hs
      exact .inl ⟨hcur, fun _ u hu => absurd hu (h.not_ready (not_not.1 hgroup) u)⟩
  · next hlock =>
    cases hs
    exact .inl ⟨hcur, fun h0 => absurd h0 hlock⟩

/-- A call of `rt_schedule` leaves the running thread before its peers **exactly when** there is
none, or the thread has given up the processor. -/
theorem keepsTurn_iff (h : k.ReadyInv) (hs : k.rtSchedule = some k') :
    KeepsTurn cause k k' ↔ ¬ MeetsPeer cause k := by
  constructor
  · rintro hkeeps ⟨cur, hcur, hrun, hcause, hlock, u, hready, hprio⟩
    rcases rtSchedule_running h hs hcur hrun with ⟨-, hlower⟩ | ⟨-, next, hne, -, -, rfl⟩
    · exact absurd (hlower hlock u hready) (by omega)
    · have hcurrent : (k.switchTo cur next (k.thread next).currentPriority true).currentThread =
          some next := by
        simp [Kernel.switchTo, Kernel.setStat]
      obtain ⟨hnext, hlist⟩ := hkeeps cur hcur hrun hcause next hcurrent hne
      -- the peer is still in the queue
      have hmem := h.queue.ready_mem u (by simp) hready
      have hun : u ≠ next := by
        rintro rfl
        exact hnext hprio
      rw [list_switchTo hne] at hlist
      have hu : u ∈ [cur] := by
        rw [← hlist, ← hprio]
        simp [hmem, hun]
      rw [mem_singleton] at hu
      rw [hu, hrun] at hready
      cases hready
  · intro hmeets cur hcur hrun hcause next hnext hne
    rcases rtSchedule_running h hs hcur hrun with
      ⟨hcur', -⟩ | ⟨hlock, next', -, hready, -, rfl⟩
    · exact absurd (some_inj.1 (hnext.symm.trans hcur')) hne
    · have hnone : ∀ u, (k.thread u).stat = .ready →
          (k.thread u).currentPriority ≠ (k.thread cur).currentPriority :=
        fun u hu heq => hmeets ⟨cur, hcur, hrun, hcause, hlock, u, hu, heq⟩
      obtain rfl : next' = next := by simpa [Kernel.switchTo, Kernel.setStat] using hnext
      refine ⟨hnone next' hready, ?_⟩
      have hnil : k.list (.ready (k.thread cur).currentPriority) = [] := by
        apply eq_nil_iff_forall_not_mem.2
        intro u hu
        obtain ⟨-, hu, hprio⟩ := h.queue.queued _ u hu
        exact hnone u hu hprio
      rw [list_switchTo hne, hnil]
      rfl

end Schedule

/-! ### The invariant of an interleaving -/

/-- The calls of `rt_schedule` itself. -/
def Call.schedules {Tid : Type} : Call Tid → Bool
  | .schedule | .sleepSchedule _ => true
  | _ => false

namespace Sys

variable [RtConfig] {Tid ι : Type} [DecidableEq Tid] [DecidableEq ι]
variable {k : Kernel Tid ι} {cs cs' : List (Call Tid)} {c : Call Tid} {a : Action Tid}

theorem runSection_append (k : Kernel Tid ι) (cs : List (Call Tid)) (c : Call Tid) :
    runSection k cs c = (runSection k [] c).map fun r => (⟨r.1.kernel, r.1.calls ++ cs⟩, r.2) := by
  cases c with
  | resumeInsert t startup =>
    simp only [runSection]
    split <;> rfl
  | suspend t stat =>
    simp only [runSection]
    cases k.suspendSection t stat <;> rfl
  | schedule =>
    simp only [runSection]
    cases k.rtSchedule <;> rfl
  | sleepSchedule t =>
    simp only [runSection]
    cases k.rtSchedule <;> rfl
  | _ => rfl

theorem step_append (k : Kernel Tid ι) (cs : List (Call Tid)) (ha : ∀ c, a ≠ .run c) :
    step ⟨k, cs⟩ a = (step ⟨k, []⟩ a).map fun r => (⟨r.1.kernel, r.1.calls ++ cs⟩, r.2) := by
  cases a with
  | run c => exact absurd rfl (ha c)
  | startup t =>
    simp only [step]
    split <;> rfl
  | resume t =>
    simp only [step]
    split <;> rfl
  | suspend t =>
    simp only [step]
    split <;> rfl
  | exit =>
    simp only [step]
    cases k.currentThread <;> rfl
  | sleep =>
    simp only [step]
    cases k.currentThread with
    | none => rfl
    | some t => cases h : k.sleepSection t <;> simp [h]
  | timeout t =>
    simp only [step]
    split
    · cases k.timeoutSection t with
      | none => rfl
      | some k₁ => cases h : k₁.rtSchedule <;> simp [h]
    · rfl
  | exitCritical =>
    simp only [step]
    split <;> rfl
  | schedulerStart =>
    simp only [step]
    split
    · cases k.rtSystemSchedulerStart <;> rfl
    · rfl
  | _ => rfl

theorem Inv.subset (h : Inv (⟨k, cs⟩ : Sys Tid ι)) (hsub : ∀ d ∈ cs', d ∈ cs) :
    Inv (⟨k, cs'⟩ : Sys Tid ι) :=
  ⟨h.ready, fun t stat hmem => h.started t stat (hsub _ hmem)⟩

theorem runSection_out {r : Sys Tid ι × List (Kernel Tid ι)} (hs : runSection k [] c = some r) :
    r.2 = [] ∨ ∃ k', c.schedules = true ∧ k.rtSchedule = some k' ∧ r.2 = [k'] := by
  cases c with
  | schedule | sleepSchedule t =>
    obtain ⟨k', hk', rfl⟩ := map_eq_some_iff.1 hs
    exact .inr ⟨k', rfl, hk', rfl⟩
  | suspend t stat =>
    obtain ⟨k', -, rfl⟩ := map_eq_some_iff.1 hs
    exact .inl rfl
  | _ =>
    cases hs
    exact .inl rfl

end Sys

namespace RrSys

variable [RtConfig] {Tid ι : Type} [DecidableEq Tid] [DecidableEq ι]
variable {s s' : RrSys Tid ι} {a : RrAction Tid ι} {out : List (RrEvent Tid ι)} {t : Tid}
variable {k : Kernel Tid ι}

/-- A call of `rt_schedule` does not meet a peer of the running thread; and, as for the queues
themselves, a section of a startup or a resume finds the status that its call checked, and
priorities are in range. -/
def Peerless (s : RrSys Tid ι) : RrAction Tid ι → Prop
  | .call a => s.sys.Undisturbed a
  | .run c cause =>
    s.sys.Undisturbed (.run c) ∧ (c.schedules = true → ¬ MeetsPeer cause s.kernel)
  | _ => True

instance [Fintype Tid] (cause : Cause Tid) (k : Kernel Tid ι) : Decidable (MeetsPeer cause k) := by
  unfold MeetsPeer
  infer_instance

instance [Fintype Tid] (s : RrSys Tid ι) (a : RrAction Tid ι) : Decidable (s.Peerless a) := by
  unfold Peerless
  split <;> infer_instance

/-- A call of `rt_schedule` that is seen has left the running thread before its peers. -/
def RrEvent.Right : RrEvent Tid ι → Prop
  | .scheduled cause before after => KeepsTurn cause before after
  | .charged _ _ => True

/-- The ticks that have been counted for `t` in its time slice, after one more event. -/
def countTick (t : Tid) (n : ℕ) : RrEvent Tid ι → ℕ
  | .charged u expired => if u = t then if expired then 0 else n + 1 else n
  | .scheduled .. => n

/-- The ticks that have been counted for `t` since it began or its last time slice ended. -/
def ticksUsed (t : Tid) (tr : List (RrEvent Tid ι)) : ℕ := tr.foldl (countTick t) 0

/-- The queues are right, and `remaining_tick` is what is left of the time slice. -/
structure Inv (initTick : Tid → UInt32) (tr : List (RrEvent Tid ι)) (s : RrSys Tid ι) : Prop where
  sys : s.sys.Inv
  inits : s.initTick = initTick
  slice : ∀ t, s.remainingTick t = initTick t - .ofNat (ticksUsed t tr)
  right : ∀ e ∈ tr, RrEvent.Right e

theorem sysInv_next (h : s.sys.Inv) (hr : k.ReadyInv) (hk : Sys.StaysStarted s.kernel k)
    (cause : Cause Tid) :
    Sys.Inv (⟨k, (((Call.schedule, cause)) :: s.calls).map Prod.fst⟩ : Sys Tid ι) := by
  apply Sys.Inv.next (s := s.sys) h hr hk
  intro t stat hmem
  simpa [RrSys.sys] using hmem

theorem readyInv_ipcSuspend {o : ι} {flag : IpcFlag} {time : ℤ} {k' : Kernel Tid ι}
    (h : k.ReadyInv) (hs : k.ipcSuspend o t flag time = some k') :
    k'.ReadyInv ∧ Sys.StaysStarted k k' := by
  obtain ⟨k₁, hk₁, rfl⟩ := map_eq_some_iff.1 hs
  obtain ⟨r, hr, rfl⟩ := map_eq_some_iff.1 hk₁
  have hinv := (h.rtThreadSuspend hr).congr_list (l := Function.update r.1.list (.suspended o)
    (ipcListInsert flag (fun u => (r.1.thread u).currentPriority) t (r.1.list (.suspended o))))
    fun p => update_of_ne (by simp) ..
  have hstays := Sys.staysStarted_rtThreadSuspend hr
  split
  · exact ⟨hinv.setTimer t true, hstays.trans (Sys.staysStarted_setTimer _ t true)⟩
  · exact ⟨hinv, hstays⟩

theorem readyInv_rtIpcListResume {o : ι} {k' : Kernel Tid ι} (h : k.ReadyInv)
    (hs : k.rtIpcListResume o = some k') : k'.ReadyInv ∧ Sys.StaysStarted k k' := by
  unfold Kernel.rtIpcListResume at hs
  split at hs
  · next t rest hlist =>
    cases hs
    refine ⟨h.rtThreadResume, ?_⟩
    unfold Kernel.rtThreadResume
    split
    · exact .refl k
    · exact ((Sys.staysStarted_rtListRemove k t).trans (Sys.staysStarted_setTimer _ t false)).trans
        (Sys.staysStarted_insert _ t)
  · cases hs

theorem sysInv_step (h : s.sys.Inv) (hc : s.Peerless a) (hs : s.step a = some (s', out)) :
    s'.sys.Inv := by
  cases a with
  | call a =>
    rw [step, ite_none_right_eq_some] at hs
    obtain ⟨hbegins, hs⟩ := hs
    obtain ⟨r, hr, he⟩ := map_eq_some_iff.1 hs
    cases he
    have ha : ∀ c, a ≠ .run c := by
      rintro c rfl
      cases hbegins
    have happend : s.sys.step a = some (⟨r.1.kernel, r.1.calls ++ s.calls.map Prod.fst⟩, r.2) := by
      rw [RrSys.sys, Sys.step_append _ _ ha, hr]
      rfl
    have hinv := (Sys.good_step h hc happend).1
    simpa [RrSys.sys, follow, comp_def] using hinv
  | run c cause =>
    rw [step, ite_none_right_eq_some] at hs
    obtain ⟨hmem, hs⟩ := hs
    obtain ⟨r, hr, he⟩ := map_eq_some_iff.1 hs
    cases he
    have hmem' : c ∈ s.calls.map Prod.fst := List.mem_map_of_mem hmem
    have hperm : ((s.calls.erase (c, cause)).map Prod.fst).Perm ((s.calls.map Prod.fst).erase c) := by
      have hfst := ((perm_cons_erase hmem).map Prod.fst).erase c
      rw [map_cons, erase_cons_head] at hfst
      exact hfst.symm
    have happend : Sys.runSection s.sys.kernel (s.sys.calls.erase c) c =
        some (⟨r.1.kernel, r.1.calls ++ s.sys.calls.erase c⟩, r.2) := by
      rw [RrSys.sys, Sys.runSection_append, hr]
      rfl
    have hinv := (Sys.good_runSection h hmem' hc.1 happend).1
    apply hinv.subset
    intro d hd
    have hd' : d ∈ r.1.calls ∨ d ∈ (s.calls.erase (c, cause)).map Prod.fst := by
      simpa [follow, comp_def] using hd
    rw [mem_append]
    exact hd'.imp_right hperm.mem_iff.1
  | timeout t =>
    rw [step, ite_none_right_eq_some] at hs
    obtain ⟨-, hs⟩ := hs
    obtain ⟨k, hk, he⟩ := map_eq_some_iff.1 hs
    cases he
    exact sysInv_next h (h.ready.timeoutSection hk) (Sys.staysStarted_timeoutSection hk) .other
  | wait o flag time =>
    rw [step] at hs
    split at hs
    · next t ht =>
      obtain ⟨k, hk, he⟩ := map_eq_some_iff.1 hs
      cases he
      obtain ⟨hr, hstays⟩ := readyInv_ipcSuspend (h.ready.setError t .eok) hk
      exact sysInv_next h hr ((Sys.staysStarted_setError _ t .eok).trans hstays) (.leaves t)
    · cases hs
  | release o =>
    obtain ⟨k, hk, he⟩ := map_eq_some_iff.1 hs
    cases he
    obtain ⟨hr, hstays⟩ := readyInv_rtIpcListResume h.ready hk
    exact sysInv_next h hr hstays .other
  | schedule =>
    cases hs
    exact sysInv_next h h.ready (.refl _) .other
  | tick =>
    obtain ⟨t, -, he⟩ := map_eq_some_iff.1 hs
    unfold charge at he
    dsimp only at he
    split at he
    · cases he
      exact sysInv_next h h.ready (.refl _) (.leaves t)
    · cases he
      exact h

/-- A step counts a tick, or leaves the time slices alone and shows a call of `rt_schedule` or
nothing. -/
theorem step_cases (hs : s.step a = some (s', out)) :
    (∃ t, s.charge t = (s', out)) ∨
    (s'.remainingTick = s.remainingTick ∧ s'.initTick = s.initTick ∧
      (out = [] ∨ ∃ c cause k', a = .run c cause ∧ c.schedules = true ∧
        s.kernel.rtSchedule = some k' ∧ out = [.scheduled cause s.kernel k'])) := by
  cases a with
  | call a =>
    rw [step, ite_none_right_eq_some] at hs
    obtain ⟨r, -, he⟩ := map_eq_some_iff.1 hs.2
    cases he
    exact .inr ⟨rfl, rfl, .inl rfl⟩
  | run c cause =>
    rw [step, ite_none_right_eq_some] at hs
    obtain ⟨r, hr, he⟩ := map_eq_some_iff.1 hs.2
    cases he
    refine .inr ⟨rfl, rfl, ?_⟩
    rcases Sys.runSection_out hr with hnil | ⟨k', hschedules, hk', hout⟩
    · exact .inl (by rw [hnil, map_nil])
    · exact .inr ⟨c, cause, k', rfl, hschedules, hk', by rw [hout, map_singleton]⟩
  | timeout t =>
    rw [step, ite_none_right_eq_some] at hs
    obtain ⟨k, -, he⟩ := map_eq_some_iff.1 hs.2
    cases he
    exact .inr ⟨rfl, rfl, .inl rfl⟩
  | wait o flag time =>
    rw [step] at hs
    split at hs
    · obtain ⟨k, -, he⟩ := map_eq_some_iff.1 hs
      cases he
      exact .inr ⟨rfl, rfl, .inl rfl⟩
    · cases hs
  | release o =>
    obtain ⟨k, -, he⟩ := map_eq_some_iff.1 hs
    cases he
    exact .inr ⟨rfl, rfl, .inl rfl⟩
  | schedule =>
    cases hs
    exact .inr ⟨rfl, rfl, .inl rfl⟩
  | tick =>
    obtain ⟨t, -, he⟩ := map_eq_some_iff.1 hs
    exact .inl ⟨t, he⟩

theorem slice_charge {initTick : Tid → UInt32} {tr : List (RrEvent Tid ι)}
    (hinit : s.initTick = initTick)
    (h : ∀ t, s.remainingTick t = initTick t - .ofNat (ticksUsed t tr))
    (he : s.charge t = (s', out)) :
    s'.initTick = initTick ∧
      (∀ u, s'.remainingTick u = initTick u - .ofNat (ticksUsed u (tr ++ out))) ∧
      ∀ e ∈ out, RrEvent.Right e := by
  unfold charge at he
  dsimp only at he
  split at he
  · cases he
    refine ⟨hinit, ?_, ?_⟩
    · intro u
      rw [ticksUsed, foldl_append]
      by_cases hu : u = t
      · subst hu
        simp [countTick, hinit]
      · simp only [foldl_cons, foldl_nil, countTick, if_neg (Ne.symm hu),
          update_of_ne hu]
        exact h u
    · intro e hmem
      rw [mem_singleton.1 hmem]
      exact trivial
  · cases he
    refine ⟨hinit, ?_, ?_⟩
    · intro u
      rw [ticksUsed, foldl_append]
      by_cases hu : u = t
      · subst hu
        have hused := h u
        rw [ticksUsed] at hused
        simp only [foldl_cons, foldl_nil, countTick, update_self, hused]
        rw [if_pos trivial, if_neg Bool.false_ne_true, UInt32.ofNat_add, sub_sub]
        rfl
      · simp only [foldl_cons, foldl_nil, countTick, if_neg (Ne.symm hu),
          update_of_ne hu]
        exact h u
    · intro e hmem
      rw [mem_singleton.1 hmem]
      exact trivial

theorem inv_step {initTick : Tid → UInt32} {tr : List (RrEvent Tid ι)} (h : Inv initTick tr s)
    (hc : s.Peerless a) (hs : s.step a = some (s', out)) : Inv initTick (tr ++ out) s' := by
  have hsys := sysInv_step h.sys hc hs
  rcases step_cases hs with ⟨t, he⟩ | ⟨hremaining, hinit, hout⟩
  · obtain ⟨hinit, hslice, hright⟩ := slice_charge h.inits h.slice he
    refine ⟨hsys, hinit, hslice, ?_⟩
    intro e hmem
    exact (mem_append.1 hmem).elim (h.right e) (hright e)
  · rcases hout with rfl | ⟨c, cause, k', rfl, hschedules, hk', rfl⟩
    · rw [append_nil]
      exact ⟨hsys, hinit.trans h.inits, fun t => hremaining ▸ h.slice t, h.right⟩
    · refine ⟨hsys, hinit.trans h.inits, ?_, ?_⟩
      · intro t
        rw [ticksUsed, foldl_append, hremaining]
        exact h.slice t
      · intro e hmem
        rcases mem_append.1 hmem with hmem | hmem
        · exact h.right e hmem
        · rw [mem_singleton.1 hmem]
          exact (keepsTurn_iff h.sys.ready hk').2 (hc.2 hschedules)

/-! ### Every run -/

/-- In every run without a meeting, **each call of `rt_schedule`** leaves a running thread that
has not given up the processor before its peers; and `remaining_tick` is what the ticks counted
for a thread have left of `init_tick`. -/
theorem run_keepsTurn (prio : Tid → ℕ) (hprio : ∀ t, prio t < priorityMax)
    (isSystemObject cleanup : Tid → Bool) (initTick : Tid → UInt32) (tr : List (RrEvent Tid ι))
    (s : RrSys Tid ι) (hrun : Run step Peerless (boot prio isSystemObject cleanup initTick) tr s) :
    (∀ cause before after, .scheduled cause before after ∈ tr → KeepsTurn cause before after) ∧
      ∀ t, s.remainingTick t = initTick t - .ofNat (ticksUsed t tr) := by
  have hinv : Inv initTick tr s := by
    refine hrun.invariant (Inv initTick) ⟨Sys.inv_boot hprio _ _, rfl, ?_, nofun⟩ ?_
    · intro t
      exact (UInt32.sub_zero (initTick t)).symm
    · intro tr s a s' out h hc hs
      exact inv_step h hc hs
  exact ⟨fun cause before after hmem => hinv.right _ hmem, hinv.slice⟩

/-- A startup whose sections run one after the other. -/
def startupActions (t : Tid) : List (RrAction Tid ι) :=
  [.call (.startup t), .run (.startup t) .other, .run (.resumeRemove t true) .other,
    .run (.resumeInsert t true) .other]

end RrSys

namespace RrSys

/-- Thread 0 runs and starts thread 1, which `rt_schedule` then runs if it may. -/
def startsTwo : List (RrAction (Fin 2) Unit) :=
  startupActions 0 ++ [RrAction.call .schedulerStart, .tick] ++ startupActions 1 ++
    [RrAction.run .schedule .other]

/-- Thread 1 has a higher priority. -/
theorem run_keepsTurn_preempted :
    letI := config32
    ∃ (tr : List (RrEvent (Fin 2) Unit)) (s : RrSys (Fin 2) Unit),
      s.kernel.currentThread = some 1 ∧ s.kernel.list (.ready 10) = [0] ∧
        (∀ cause before after, .scheduled cause before after ∈ tr → KeepsTurn cause before after) ∧
        ∀ t, s.remainingTick t = 5 - .ofNat (ticksUsed t tr) := by
  let _ := config32
  have hsome : (exec step Peerless (boot (fun t : Fin 2 => 10 - t.val) (fun _ => true)
      (fun _ => false) (fun _ => 5)) startsTwo).any fun r =>
        r.1.kernel.currentThread = some 1 ∧ r.1.kernel.list (.ready 10) = [0] := by
    decide +kernel
  obtain ⟨s, tr, hrun, hcur, hlist⟩ := Run.of_any hsome
  exact ⟨tr, s, hcur, hlist, run_keepsTurn (fun t : Fin 2 => 10 - t.val) (by decide)
    (fun _ => true) (fun _ => false) (fun _ => 5) tr s hrun⟩

/-- Thread 0 is replaced by thread 1. -/
def Replaces : RrEvent (Fin 2) Unit → Bool
  | .scheduled .other before after =>
    before.currentThread = some 0 && (before.thread 0).stat = .running &&
      after.currentThread = some 1 &&
      (before.thread 1).currentPriority = (before.thread 0).currentPriority
  | _ => false

/-- When thread 1 has the same priority, its start **takes the processor** from thread 0. -/
theorem not_run_keepsTurn :
    ¬ ∀ [RtConfig] (prio : Fin 2 → ℕ) (_ : ∀ t, prio t < priorityMax)
      (isSystemObject cleanup : Fin 2 → Bool) (initTick : Fin 2 → UInt32)
      (tr : List (RrEvent (Fin 2) Unit)) (s : RrSys (Fin 2) Unit),
      Run step (fun _ _ => True) (boot prio isSystemObject cleanup initTick) tr s →
        ∀ cause before after, .scheduled cause before after ∈ tr →
          KeepsTurn cause before after := by
  intro h
  let _ := config32
  have hsome : (exec step (fun _ _ => True) (boot (fun _ : Fin 2 => 10) (fun _ => true)
      (fun _ => false) (fun _ => 5)) startsTwo).any fun r => r.2.any Replaces := by
    decide +kernel
  obtain ⟨⟨s, tr⟩, hexec, hr⟩ := (Option.any_eq_true _ _).1 hsome
  obtain ⟨e, hmem, he⟩ := List.any_eq_true.1 hr
  have hkeeps := h (fun _ : Fin 2 => 10) (by decide) (fun _ => true) (fun _ => false)
    (fun _ => 5) tr s (Run.of_exec hexec)
  unfold Replaces at he
  split at he
  · next before after =>
    simp only [Bool.and_eq_true, decide_eq_true_iff] at he
    obtain ⟨⟨⟨hcur, hrun⟩, hnext⟩, hprio⟩ := he
    exact (hkeeps .other before after hmem 0 hcur hrun (by decide) 1 hnext (by decide)).1 hprio
  · cases he

end RrSys

end RtThread
