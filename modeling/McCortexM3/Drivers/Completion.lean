import McCortexM3.Ipc.Parked
import McCortexM3.Run
import Mathlib.Data.Fintype.Basic

/-!
# Completions

The completion of `completion.c`, and the interleavings of the interrupt-disabled sections of
its functions.  Any thread that can run may make the next step.  `rt_completion_done` looks at
the flag before it disables interrupts, so that its test and its section are two steps.

The flag says two things: that the object is completed and no thread has taken notice, and
that a thread has been resumed and has not yet gone on.  Every wait that ends clears it.

## Main definitions

* `signal` — what a completion is for: each signal is given to one wait, or kept for the next.
* `CpSys.Settled` — no wait is about to clear the flag when a signal is kept or taken.

## Main results

* `CpSys.run_kept` — in such runs no signal is lost, and none is given to two waits.
-/

set_option linter.all false

namespace RtThread

open Option List

/-- Where a thread is: in no wait, or at the `rt_schedule` of `rt_completion_wait`. -/
inductive CpPc
  | outside
  | waiting (timeout : Int32)
  deriving DecidableEq

/-- The list that a thread at this place is or was in. -/
def CpPc.waitsFor : CpPc → Option Unit
  | .outside => none
  | .waiting _ => some ()

/-- What an observer sees: `rt_completion_done` with the thread that it resumes, or with none when
it leaves the object completed, and what a wait returns. -/
inductive CpEvent (Tid : Type)
  | done (resumed : Option Tid)
  | returned (t : Tid) (err : RtErr)
  deriving DecidableEq

/-- What can happen next: the two steps of a call of `rt_completion_done`, by a thread or an
interrupt handler, the call of a wait, its end, and the timeout of a thread. -/
inductive CpAction (Tid : Type)
  | doneTest
  | doneSection
  | wait (t : Tid) (timeout : Int32)
  | leave (t : Tid)
  | timeout (t : Tid)

/-- The threads, the completion, the waits, and the number of calls of `rt_completion_done` that
have found the object uncompleted and go on. -/
structure CpSys (Tid : Type) where
  threads : View Tid Unit
  completed : Bool
  pc : Tid → CpPc
  doing : ℕ

namespace CpSys

variable {Tid : Type} [DecidableEq Tid]

/-- `completion->suspended_list`. -/
def suspendedList (s : CpSys Tid) : List Tid := s.threads.queue ()

/-- The place of the thread becomes `pc`. -/
def goto (s : CpSys Tid) (t : Tid) (pc : CpPc) : CpSys Tid :=
  { s with pc := Function.update s.pc t pc }

/-- The test of `rt_completion_done`. -/
def doneTest (s : CpSys Tid) : CpSys Tid × List (CpEvent Tid) :=
  if s.completed = true then (s, [.done none]) else ({ s with doing := s.doing + 1 }, [])

/-- The interrupt-disabled section of `rt_completion_done`. -/
def doneSection (s : CpSys Tid) : CpSys Tid × List (CpEvent Tid) :=
  let s := { s with completed := true, doing := s.doing - 1 }
  match s.suspendedList with
  | t :: _ => ({ s with threads := s.threads.rtThreadResume t }, [.done (some t)])
  | [] => (s, [.done none])

/-- `rt_completion_wait` up to its `rt_schedule`; `none` for a failed `RT_ASSERT`. -/
def wait (s : CpSys Tid) (t : Tid) (timeout : Int32) : Option (CpSys Tid × List (CpEvent Tid)) :=
  if s.completed = true then some ({ s with completed := false }, [.returned t .eok])
  else if s.suspendedList ≠ [] then none
  else if timeout = 0 then some (s, [.returned t .etimeout])
  else
    some (({ s with threads := (s.threads.setError t .eok).rtIpcListSuspend () t .fifo }).goto t
      (.waiting timeout), [])

/-- `rt_completion_wait` from its `rt_schedule` on. -/
def leave (s : CpSys Tid) (t : Tid) : CpSys Tid × List (CpEvent Tid) :=
  (({ s with completed := false }).goto t .outside, [.returned t (s.threads.error t)])

/-- A thread at this place has started its timer. -/
def hasTimer : CpPc → Bool
  | .waiting timeout => timeout > 0
  | .outside => false

/-- One step of an interleaving. -/
def step (s : CpSys Tid) : CpAction Tid → Option (CpSys Tid × List (CpEvent Tid))
  | .doneTest => some s.doneTest
  | .doneSection => if s.doing ≠ 0 then some s.doneSection else none
  | .wait t timeout =>
    if s.threads.life t = .live ∧ s.pc t = .outside then s.wait t timeout else none
  | .leave t => if s.threads.life t = .live ∧ s.pc t ≠ .outside then some (s.leave t) else none
  | .timeout t =>
    if hasTimer (s.pc t) then (s.threads.rtThreadTimeout t).map fun v => ({ s with threads := v }, [])
    else none

/-- `rt_completion_init`. -/
def boot (prio : Tid → ℕ) : CpSys Tid where
  threads := .idle prio
  completed := false
  pc := fun _ => .outside
  doing := 0

/-- The thread has been resumed by `rt_completion_done`, and has not yet gone on. -/
def Granted (s : CpSys Tid) (t : Tid) : Prop :=
  s.threads.life t = .live ∧ s.threads.error t = .eok ∧ s.pc t ≠ .outside

/-- `rt_completion_done` leaves the object completed only while no wait is still to end, and a wait
finds it completed only while none has been resumed. -/
def Settled (s : CpSys Tid) : CpAction Tid → Prop
  | .doneTest => s.completed = true → ∀ t, s.pc t = .outside
  | .doneSection => s.suspendedList = [] → ∀ t, s.pc t = .outside
  | .wait .. => s.completed = true → ∀ t, ¬ s.Granted t
  | _ => True

instance [Fintype Tid] (s : CpSys Tid) (a : CpAction Tid) : Decidable (s.Settled a) := by
  unfold Settled Granted
  split <;> infer_instance

end CpSys

/-! ### What a completion is for -/

/-- The threads that a signal has been given to and that are still to return, and whether a signal
is kept for the next wait.  A wait that returns `RT_EOK` takes its signal. -/
def signal {Tid : Type} [DecidableEq Tid] :
    List Tid × Bool → CpEvent Tid → Option (List Tid × Bool)
  | (granted, kept), .done (some t) => some (t :: granted, kept)
  | (granted, _), .done none => some (granted, true)
  | (granted, kept), .returned t err =>
    if t ∈ granted then if err = .eok then some (granted.erase t, kept) else none
    else if err = .eok then if kept then some (granted, false) else none
    else some (granted, kept)

namespace CpSys

variable {Tid : Type} [DecidableEq Tid] {s s' : CpSys Tid} {a : CpAction Tid}
  {tr out : List (CpEvent Tid)} {granted : List Tid} {kept : Bool} {t : Tid}

/-- No signal is lost, and none is given to two waits: a kept signal is in the flag, and a wait
that has got one is about to return `RT_EOK`. -/
def Kept (tr : List (CpEvent Tid)) (s : CpSys Tid) : Prop :=
  ∃ granted kept, tr.foldlM signal ([], false) = some (granted, kept) ∧
    (kept = true → s.completed = true) ∧ ∀ t ∈ granted, s.Granted t

/-- The signals agree with the flag and the threads. -/
structure Inv (s : CpSys Tid) (granted : List Tid) (kept : Bool) : Prop where
  parked : s.threads.Parked fun u => (s.pc u).waitsFor
  nodup : granted.Nodup
  mem_granted : ∀ t, t ∈ granted ↔ s.Granted t
  keeps : kept = true → s.completed = true ∧ ∀ t, s.pc t = .outside
  flag : s.completed = true → kept = true ∨ granted ≠ []

theorem waitsFor_goto (s : CpSys Tid) (t : Tid) (pc : CpPc) :
    (fun u => ((s.goto t pc).pc u).waitsFor) =
      Function.update (fun u => (s.pc u).waitsFor) t pc.waitsFor := by
  funext u
  by_cases hut : u = t
  · subst hut
    simp [goto]
  · simp [goto, hut]

theorem Inv.waits (h : Inv s granted kept) (ht : t ∈ s.suspendedList) :
    s.threads.life t = .blocked ∧ s.pc t ≠ .outside := by
  obtain ⟨hblocked, hpc⟩ := (h.parked.queued () t).1 ht
  refine ⟨hblocked, ?_⟩
  intro he
  simp [he, CpPc.waitsFor] at hpc

theorem inv_boot (prio : Tid → ℕ) : Inv (boot prio) [] false :=
  ⟨View.parked_idle prio _, nodup_nil, by simp [Granted, boot], nofun, nofun⟩

section

variable (h : Inv s granted kept)
include h

theorem Inv.setCompleted {kept' b : Bool} {n : ℕ}
    (hkeeps : kept' = true → b = true ∧ ∀ t, s.pc t = .outside)
    (hflag : b = true → kept' = true ∨ granted ≠ []) :
    Inv { s with completed := b, doing := n } granted kept' :=
  ⟨h.parked, h.nodup, h.mem_granted, hkeeps, hflag⟩

theorem Inv.kept_eq (ht : s.pc t ≠ .outside) : kept = false := by
  cases kept with
  | false => rfl
  | true => exact absurd ((h.keeps rfl).2 t) ht

theorem inv_doneTest (hc : s.Settled .doneTest) :
    ∃ g k, s.doneTest.2.foldlM signal (granted, kept) = some (g, k) ∧ Inv s.doneTest.1 g k := by
  rw [doneTest]
  split
  · next hflag => exact ⟨granted, true, rfl, h.setCompleted (fun _ => ⟨hflag, hc hflag⟩) fun _ => .inl rfl⟩
  · exact ⟨granted, kept, rfl, h.setCompleted h.keeps h.flag⟩

theorem inv_doneSection (hc : s.Settled .doneSection) :
    ∃ g k, s.doneSection.2.foldlM signal (granted, kept) = some (g, k) ∧
      Inv s.doneSection.1 g k := by
  have hlist : ({ s with completed := true, doing := s.doing - 1 } : CpSys Tid).suspendedList =
      s.suspendedList := rfl
  simp only [doneSection, hlist]
  split
  · next t rest hqueue =>
    -- the signal is given to the thread that is resumed
    obtain ⟨hblocked, hpc⟩ := h.waits (t := t) (by simp [hqueue])
    have hnot : t ∉ granted := by simp [h.mem_granted, Granted, hblocked]
    have hkept := h.kept_eq hpc
    subst hkept
    refine ⟨t :: granted, false, rfl, h.parked.resume t, nodup_cons.2 ⟨hnot, h.nodup⟩, ?_,
      nofun, fun _ => .inr (by simp)⟩
    intro u
    by_cases hut : u = t
    · subst hut
      simpa [Granted, View.rtThreadResume, View.setLife, View.unlink, hpc] using
        h.parked.error u hblocked
    · simp [Granted, View.rtThreadResume, View.setLife, View.unlink, hut, h.mem_granted]
  · next hqueue =>
    exact ⟨granted, true, rfl, h.setCompleted (fun _ => ⟨rfl, hc hqueue⟩) fun _ => .inl rfl⟩

theorem inv_wait {timeout : Int32} (hc : s.Settled (.wait t timeout))
    (hlive : s.threads.life t = .live) (ht : s.pc t = .outside)
    (hs : s.wait t timeout = some (s', out)) :
    ∃ g k, out.foldlM signal (granted, kept) = some (g, k) ∧ Inv s' g k := by
  have hnot : t ∉ granted := by simp [h.mem_granted, Granted, ht]
  rw [wait] at hs
  split at hs
  · next hflag =>
    -- no thread has been resumed, so that the flag is a kept signal
    have hgranted : granted = [] := by
      rw [eq_nil_iff_forall_not_mem]
      exact fun u hu => hc hflag u ((h.mem_granted u).1 hu)
    have hkept : kept = true := (h.flag hflag).resolve_right (absurd hgranted)
    subst hgranted hkept
    cases hs
    exact ⟨[], false, rfl, h.setCompleted nofun nofun⟩
  · next hflag =>
    split at hs
    · cases hs
    · split at hs
      · cases hs
        exact ⟨granted, kept, by simp [signal, hnot], h⟩
      · cases hs
        have hkept : kept ≠ true := fun hk => hflag (h.keeps hk).1
        refine ⟨granted, kept, rfl, ?_, h.nodup, ?_, fun hk => absurd hk hkept,
          fun hf => absurd hf hflag⟩
        · rw [waitsFor_goto]
          exact h.parked.suspend hlive () .fifo
        · intro u
          by_cases hut : u = t
          · subst hut
            simp [hnot, Granted, goto, View.rtIpcListSuspend, View.link, View.setLife]
          · simp [h.mem_granted, Granted, goto, View.rtIpcListSuspend, View.link, View.setLife,
              View.setError, hut]

theorem inv_leave (hlive : s.threads.life t = .live) (ht : s.pc t ≠ .outside) :
    ∃ g k, (s.leave t).2.foldlM signal (granted, kept) = some (g, k) ∧ Inv (s.leave t).1 g k := by
  have hkept := h.kept_eq ht
  subst hkept
  have hparked : (s.leave t).1.threads.Parked fun u => ((s.leave t).1.pc u).waitsFor := by
    simp only [leave, waitsFor_goto]
    exact h.parked.goto (by simp [hlive]) none
  have hgranted : ∀ u, (s.leave t).1.Granted u ↔ u ≠ t ∧ s.Granted u := by
    intro u
    by_cases hut : u = t
    · subst hut
      simp [leave, goto, Granted]
    · simp [leave, goto, Granted, hut]
  by_cases herr : s.threads.error t = .eok
  · -- the thread takes its signal
    have hmem : t ∈ granted := (h.mem_granted t).2 ⟨hlive, herr, ht⟩
    refine ⟨granted.erase t, false, by simp [leave, goto, signal, hmem, herr], hparked,
      h.nodup.erase t, ?_, nofun, nofun⟩
    intro u
    rw [h.nodup.mem_erase_iff, hgranted, h.mem_granted]
  · have hnot : t ∉ granted := by simp [h.mem_granted, Granted, herr]
    refine ⟨granted, false, by simp [leave, goto, signal, hnot, herr], hparked, h.nodup, ?_, nofun,
      nofun⟩
    intro u
    rw [hgranted, h.mem_granted]
    refine ⟨fun hu => ⟨?_, hu⟩, And.right⟩
    rintro rfl
    exact herr hu.2.1

theorem inv_timeout {v : View Tid Unit} (hs : s.threads.rtThreadTimeout t = some v) :
    Inv { s with threads := v } granted kept := by
  rw [View.rtThreadTimeout] at hs
  split at hs
  · next hblocked =>
    cases hs
    refine ⟨h.parked.wake t .etimeout, h.nodup, ?_, h.keeps, h.flag⟩
    intro u
    rw [h.mem_granted]
    by_cases hut : u = t
    · subst hut
      simp [Granted, hblocked, View.rtThreadResume, View.setLife, View.unlink, View.setError]
    · simp [Granted, View.rtThreadResume, View.setLife, View.unlink, View.setError, hut]
  · cases hs

theorem inv_step (hc : s.Settled a) (hs : s.step a = some (s', out)) :
    ∃ g k, out.foldlM signal (granted, kept) = some (g, k) ∧ Inv s' g k := by
  cases a with
  | doneTest =>
    have he : s.doneTest = (s', out) := some_inj.1 hs
    have hinv := inv_doneTest h hc
    rwa [he] at hinv
  | doneSection =>
    rw [step] at hs
    split at hs
    · have he : s.doneSection = (s', out) := some_inj.1 hs
      have hinv := inv_doneSection h hc
      rwa [he] at hinv
    · cases hs
  | wait t timeout =>
    rw [step] at hs
    split at hs
    · next hcan => exact inv_wait h hc hcan.1 hcan.2 hs
    · cases hs
  | leave t =>
    rw [step] at hs
    split at hs
    · next hcan =>
      cases hs
      exact inv_leave h hcan.1 hcan.2
    · cases hs
  | timeout t =>
    rw [step] at hs
    split at hs
    · obtain ⟨v, hv, he⟩ := map_eq_some_iff.1 hs
      cases he
      exact ⟨granted, kept, rfl, inv_timeout h hv⟩
    · cases hs

end

/-- **No signal is lost or taken twice**, as long as none is kept or taken while a wait is about
to clear the flag. -/
theorem run_kept {prio : Tid → ℕ} (h : Run step Settled (boot prio) tr s) : Kept tr s := by
  have hrun := h.invariant
    (fun tr s => ∃ g k, tr.foldlM signal ([], false) = some (g, k) ∧ Inv s g k)
    ⟨[], false, rfl, inv_boot prio⟩ ?_
  · obtain ⟨g, k, hfold, hinv⟩ := hrun
    exact ⟨g, k, hfold, fun hk => (hinv.keeps hk).1, fun t ht => (hinv.mem_granted t).1 ht⟩
  · rintro tr s a s' out ⟨g, k, hfold, hinv⟩ hc hs
    obtain ⟨g', k', hfold', hinv'⟩ := inv_step hinv hc hs
    exact ⟨g', k', by simp [foldlM_append, hfold, hfold'], hinv'⟩

/-- A thread waits, and gets the next signal. -/
theorem run_kept_wakes : ∃ s : CpSys (Fin 2), Kept [.done (some 0), .returned 0 .eok] s ∧
    s.pc 0 = .outside ∧ s.completed = false := by
  have hdec : ((exec step Settled (boot fun _ : Fin 2 => 0)
      [.wait 0 (-1), .doneTest, .doneSection, .leave 0]).map fun r =>
        (r.2, r.1.pc 0, r.1.completed)) =
      some ([.done (some 0), .returned 0 .eok], .outside, false) := by decide
  obtain ⟨⟨s, tr⟩, hexec, hr⟩ := map_eq_some_iff.1 hdec
  have htr : tr = [.done (some 0), .returned 0 .eok] := congrArg Prod.fst hr
  subst htr
  exact ⟨s, run_kept (Run.of_exec hexec), congrArg (·.2.1) hr, congrArg (·.2.2) hr⟩

/-- **A timed-out wait discards a signal**: it is given after the timeout of the thread, and the
thread clears the flag when it goes on. -/
theorem not_run_kept : ¬ ∀ (s : CpSys (Fin 2)) (tr : List (CpEvent (Fin 2))),
    Run step (fun _ _ => True) (boot fun _ => 0) tr s → Kept tr s := by
  intro hall
  have hdec : ((exec step (fun _ _ => True) (boot fun _ : Fin 2 => 0)
      [.wait 0 5, .timeout 0, .doneTest, .doneSection, .leave 0]).map fun r =>
        (r.2, r.1.completed)) =
      some ([.done none, .returned 0 .etimeout], false) := by decide
  obtain ⟨⟨s, tr⟩, hexec, hr⟩ := map_eq_some_iff.1 hdec
  have htr : tr = [.done none, .returned 0 .etimeout] := congrArg Prod.fst hr
  have hflag : s.completed = false := congrArg Prod.snd hr
  subst htr
  obtain ⟨granted, kept, hfold, hkept, -⟩ := hall s _ (Run.of_exec hexec)
  have hpair : (([], true) : List (Fin 2) × Bool) = (granted, kept) := some_inj.1 hfold
  have hset := hkept (congrArg Prod.snd hpair).symm
  rw [hflag] at hset
  cases hset

end CpSys

end RtThread
