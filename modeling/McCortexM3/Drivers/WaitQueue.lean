import McCortexM3.Ipc.View
import McCortexM3.Run
import Mathlib.Data.Fintype.Basic

/-!
# Wait queues

The wait queue of `waitqueue.c`, and the interleavings of the interrupt-disabled sections of
`rt_wqueue_wait` and `rt_wqueue_wakeup`.  A thread evaluates its condition when it calls
`rt_wqueue_wait`, and looks at the flag of the queue in a later section; a wake-up in between is
not lost as long as the flag stays set.  Every wait that ends clears it.

## Main definitions

* `RtWqueue` — the queue, with `rt_wqueue_add`, `rt_wqueue_remove` and `rt_wqueue_wakeup`.
* `attentive` — no thread is suspended that has missed a wake-up since its evaluation.
* `WqSys.Spares` — a wait that ends clears the flag for no other thread.

## Main results

* `WqSys.run_noLost` — in such runs no wake-up is lost.
-/

set_option linter.all false

namespace RtThread

open Function Option List
open Function (update)

/-- `struct rt_wqueue`: whether its flag is `RT_WQ_FLAG_WAKEUP`, and the threads whose nodes are in
its list. -/
structure RtWqueue (Tid : Type) where
  flag : Bool
  waitingList : List Tid

namespace RtWqueue

variable {Tid : Type} [DecidableEq Tid]

/-- `rt_wqueue_init`. -/
def rtWqueueInit : RtWqueue Tid := ⟨false, []⟩

/-- `rt_wqueue_add`. -/
def rtWqueueAdd (q : RtWqueue Tid) (t : Tid) : RtWqueue Tid :=
  { q with waitingList := q.waitingList ++ [t] }

/-- `rt_wqueue_remove`. -/
def rtWqueueRemove (q : RtWqueue Tid) (t : Tid) : RtWqueue Tid :=
  { q with waitingList := q.waitingList.filter (· ≠ t) }

/-- The interrupt-disabled section of `rt_wqueue_wakeup`, with the thread that `rt_thread_resume`
is called for: `__wqueue_default_wake` accepts the first node. -/
def rtWqueueWakeup (q : RtWqueue Tid) : RtWqueue Tid × Option Tid :=
  match q.waitingList with
  | t :: _ => (({ q with flag := true } : RtWqueue Tid).rtWqueueRemove t, some t)
  | [] => ({ q with flag := true }, none)

@[simp] theorem flag_rtWqueueWakeup (q : RtWqueue Tid) : q.rtWqueueWakeup.1.flag = true := by
  rw [rtWqueueWakeup]
  split <;> rfl

end RtWqueue

/-- `rt_thread_resume` does nothing for a thread that is not suspended. -/
def resumed {Tid : Type} [DecidableEq Tid] (life : Tid → Life) (o : Option Tid) : Tid → Life :=
  fun t => if o = some t ∧ life t = .blocked then .live else life t

theorem resumed_of_live {Tid : Type} [DecidableEq Tid] {life : Tid → Life} {t : Tid}
    (h : life t = .live) (o : Option Tid) : resumed life o t = .live := by
  simp [resumed, h]

/-- `RT_WAITING_FOREVER`. -/
def rtWaitingForever : Int32 := -1

/-- Where a thread is: in no wait; in `rt_wqueue_wait`, with a condition that it has evaluated as
false, before the section that looks at the flag; at the `rt_schedule`; before its last
`rt_wqueue_remove`. -/
inductive WqPc
  | outside
  | testing (tick : Int32)
  | waiting (tick : Int32)
  | removing
  deriving DecidableEq

/-- A thread that has evaluated its condition is about to look at the flag. -/
def WqPc.Testing : WqPc → Prop
  | .testing _ => True
  | _ => False

instance (pc : WqPc) : Decidable pc.Testing := by
  unfold WqPc.Testing
  split <;> infer_instance

/-- What an observer sees: a thread finds its condition false, is suspended, returns from
`rt_wqueue_wait`, and a wake-up. -/
inductive WqEvent (Tid : Type)
  | evaluated (t : Tid)
  | suspended (t : Tid)
  | returned (t : Tid)
  | wakeup

/-- What can happen next: a thread calls `rt_wqueue_wait`, it goes on in it, a thread or an
interrupt handler calls `rt_wqueue_wakeup`, and the timeout of a thread. -/
inductive WqAction (Tid : Type)
  | wait (t : Tid) (condition : Bool) (tick : Int32)
  | go (t : Tid)
  | wakeup
  | timeout (t : Tid)

/-- The queue and the threads.  The history variable `woken` says of a thread whether
`rt_wqueue_wakeup` has run since it has last evaluated its condition. -/
structure WqSys (Tid : Type) where
  queue : RtWqueue Tid
  life : Tid → Life
  pc : Tid → WqPc
  woken : Tid → Bool

namespace WqSys

variable {Tid : Type} [DecidableEq Tid]

/-- The place of the thread becomes `pc`. -/
def goto (s : WqSys Tid) (t : Tid) (pc : WqPc) : WqSys Tid :=
  { s with pc := update s.pc t pc }

/-- The flag of the queue becomes `RT_WQ_FLAG_CLEAN`. -/
def clearFlag (s : WqSys Tid) : WqSys Tid := { s with queue := { s.queue with flag := false } }

/-- `rt_wqueue_wait` up to its first section. -/
def wait (s : WqSys Tid) (t : Tid) (condition : Bool) (tick : Int32) :
    WqSys Tid × List (WqEvent Tid) :=
  if condition = true ∨ tick = 0 then (s, [.returned t])
  else
    ({ s.goto t (.testing tick) with woken := update s.woken t false }, [.evaluated t])

/-- A thread goes on in `rt_wqueue_wait`. -/
def go (s : WqSys Tid) (t : Tid) : WqPc → Option (WqSys Tid × List (WqEvent Tid))
  | .outside => none
  | .testing tick =>
    if s.queue.flag = true then some (s.clearFlag.goto t .removing, [])
    else
      some (({ s with
        queue := s.queue.rtWqueueAdd t
        life := update s.life t .blocked }).goto t (.waiting tick), [.suspended t])
  | .waiting _ => some (s.clearFlag.goto t .removing, [])
  | .removing =>
    some (({ s with queue := s.queue.rtWqueueRemove t }).goto t .outside, [.returned t])

/-- The interrupt-disabled section of `rt_wqueue_wakeup`. -/
def wakeup (s : WqSys Tid) : WqSys Tid × List (WqEvent Tid) :=
  let r := s.queue.rtWqueueWakeup
  ({ s with queue := r.1, life := resumed s.life r.2, woken := fun _ => true }, [.wakeup])

/-- A thread at this place has started its timer. -/
def hasTimer : WqPc → Bool
  | .waiting tick => tick ≠ rtWaitingForever
  | _ => false

/-- One step of an interleaving. -/
def step (s : WqSys Tid) : WqAction Tid → Option (WqSys Tid × List (WqEvent Tid))
  | .wait t condition tick =>
    if s.life t = .live ∧ s.pc t = .outside then some (s.wait t condition tick) else none
  | .go t => if s.life t = .live then s.go t (s.pc t) else none
  | .wakeup => some s.wakeup
  | .timeout t =>
    if hasTimer (s.pc t) ∧ s.life t = .blocked then
      some ({ s with life := update s.life t .live }, [])
    else none

/-- `rt_wqueue_init`; all threads can run. -/
def boot : WqSys Tid where
  queue := .rtWqueueInit
  life := fun _ => .live
  pc := fun _ => .outside
  woken := fun _ => false

/-- The step is the end of a wait, which clears the flag. -/
def Clears (s : WqSys Tid) (t : Tid) : Prop :=
  match s.pc t with
  | .testing _ => s.queue.flag = true
  | .waiting _ => True
  | _ => False

instance (s : WqSys Tid) (t : Tid) : Decidable (s.Clears t) := by
  unfold Clears
  split <;> infer_instance

/-- A wait that ends clears the flag only when no other thread that has not yet looked at it has
evaluated its condition before a wake-up. -/
def Spares (s : WqSys Tid) : WqAction Tid → Prop
  | .go t => s.Clears t → ∀ u, u ≠ t → (s.pc u).Testing → s.woken u = false
  | _ => True

instance [Fintype Tid] (s : WqSys Tid) (a : WqAction Tid) : Decidable (s.Spares a) := by
  unfold Spares
  split <;> infer_instance

end WqSys

/-! ### What a wait queue is for -/

/-- What is known of the threads between the evaluation of a condition and the end of the wait:
whether there has been a wake-up since.  A thread that has missed one is not suspended. -/
def attentive {Tid : Type} [DecidableEq Tid] :
    (Tid → Option Bool) → WqEvent Tid → Option (Tid → Option Bool)
  | m, .evaluated t => some (update m t (some false))
  | m, .suspended t => if m t = some true then none else some (update m t none)
  | m, .returned t => some (update m t none)
  | m, .wakeup => some fun t => (m t).map fun _ => true

namespace WqSys

variable {Tid : Type} [DecidableEq Tid] {s s' : WqSys Tid} {a : WqAction Tid}
  {tr out : List (WqEvent Tid)} {m : Tid → Option Bool} {t : Tid}

/-- **No wake-up is lost**: no thread is suspended that has missed one, and a thread that has
missed one returns by steps of its own. -/
def NoLost (tr : List (WqEvent Tid)) (s : WqSys Tid) : Prop :=
  ∃ m, tr.foldlM attentive (fun _ => none) = some m ∧ ∀ t, m t = some true →
    ∃ n s', exec step (fun _ _ => True) s (List.replicate n (.go t)) = some (s', [.returned t])

/-- What is known of a thread agrees with its place and the flag. -/
structure Inv (s : WqSys Tid) (m : Tid → Option Bool) : Prop where
  testing : ∀ t, (s.pc t).Testing → m t = some (s.woken t)
  flag : ∀ t, (s.pc t).Testing → s.woken t = true → s.queue.flag = true
  known : ∀ t b, m t = some b → (s.pc t).Testing ∨ s.pc t = .removing
  live : ∀ t, (s.pc t).Testing ∨ s.pc t = .removing ∨ s.pc t = .outside → s.life t = .live

theorem inv_boot : Inv (boot : WqSys Tid) fun _ => none :=
  ⟨nofun, nofun, nofun, fun _ _ => rfl⟩

theorem Inv.move (h : Inv s m) {pc : WqPc} {x : Option Bool}
    (hpc : s'.pc = update s.pc t pc) (hwoken : ∀ u, u ≠ t → s'.woken u = s.woken u)
    (hlife : ∀ u, u ≠ t → s'.life u = s.life u)
    (hflag : ∀ u, u ≠ t → (s.pc u).Testing → s.woken u = true → s'.queue.flag = true)
    (htesting : pc.Testing → x = some false ∧ s'.woken t = false)
    (hknown : ∀ b, x = some b → pc.Testing ∨ pc = .removing)
    (hlive : pc.Testing ∨ pc = .removing ∨ pc = .outside → s'.life t = .live) :
    Inv s' (update m t x) := by
  refine ⟨?_, ?_, ?_, ?_⟩
  all_goals
    intro u
    by_cases hut : u = t
  · subst hut
    intro hu
    simp only [hpc, update_self] at hu ⊢
    rw [(htesting hu).1, (htesting hu).2]
  · simpa [hpc, hut, hwoken u hut] using h.testing u
  · subst hut
    intro hu hw
    simp only [hpc, update_self] at hu
    rw [(htesting hu).2] at hw
    cases hw
  · intro hu hw
    rw [hpc, update_of_ne hut] at hu
    rw [hwoken u hut] at hw
    exact hflag u hut hu hw
  · subst hut
    simpa [hpc] using hknown
  · simpa [hpc, hut] using h.known u
  · subst hut
    simpa [hpc] using hlive
  · simpa [hpc, hut, hlife u hut] using h.live u

theorem inv_wait {condition : Bool} {tick : Int32} (h : Inv s m) (hlive : s.life t = .live)
    (ht : s.pc t = .outside) :
    ∃ m', (s.wait t condition tick).2.foldlM attentive m = some m' ∧
      Inv (s.wait t condition tick).1 m' := by
  rw [wait]
  split
  · have hpc : s.pc = update s.pc t .outside := by rw [← ht, update_eq_self]
    exact ⟨update m t none, rfl, h.move hpc (fun _ _ => rfl) (fun _ _ => rfl)
      (fun u _ => h.flag u) nofun nofun fun _ => hlive⟩
  · refine ⟨update m t (some false), rfl, h.move rfl ?_ (fun _ _ => rfl)
      (fun u _ => h.flag u) (fun _ => ⟨rfl, update_self ..⟩) (fun _ _ => .inl trivial)
      fun _ => hlive⟩
    exact fun u hu => update_of_ne hu ..

theorem inv_clear (h : Inv s m) (hlive : s.life t = .live)
    (hc : ∀ u, u ≠ t → (s.pc u).Testing → s.woken u = false) :
    Inv (s.clearFlag.goto t .removing) m := by
  have hpc : (s.clearFlag.goto t .removing).pc = update s.pc t .removing := rfl
  have hmove := h.move (x := m t) hpc (fun _ _ => rfl) (fun _ _ => rfl) ?_ nofun
    (fun _ _ => .inr rfl) fun _ => hlive
  · rwa [update_eq_self] at hmove
  · intro u hut hu hw
    rw [hc u hut hu] at hw
    cases hw

theorem inv_go (h : Inv s m) (hc : s.Spares (.go t)) (hlive : s.life t = .live)
    (hs : s.go t (s.pc t) = some (s', out)) :
    ∃ m', out.foldlM attentive m = some m' ∧ Inv s' m' := by
  simp only [Spares, Clears] at hc
  cases hpc : s.pc t with
  | outside =>
    rw [hpc] at hs
    cases hs
  | testing tick =>
    rw [hpc, go] at hs
    simp only [hpc] at hc
    split at hs
    · next hflag =>
      cases hs
      exact ⟨m, rfl, inv_clear h hlive (hc hflag)⟩
    · next hflag =>
      cases hs
      -- the flag would be set, had there been a wake-up
      have htesting : (s.pc t).Testing := by simp [hpc, WqPc.Testing]
      have hwoken : s.woken t ≠ true := fun hw => hflag (h.flag t htesting hw)
      have hknown : m t ≠ some true := by
        rw [h.testing t htesting]
        exact fun he => hwoken (some_inj.1 he)
      refine ⟨update m t none, by simp [attentive, hknown], h.move rfl (fun _ _ => rfl)
        (fun u hu => update_of_ne hu ..) (fun u _ => h.flag u) nofun nofun ?_⟩
      rintro (hn | hn | hn)
      · exact hn.elim
      · cases hn
      · cases hn
  | waiting tick =>
    rw [hpc, go] at hs
    simp only [hpc] at hc
    cases hs
    exact ⟨m, rfl, inv_clear h hlive (hc trivial)⟩
  | removing =>
    rw [hpc, go] at hs
    cases hs
    exact ⟨update m t none, rfl, h.move rfl (fun _ _ => rfl) (fun _ _ => rfl)
      (fun u _ => h.flag u) nofun nofun fun _ => hlive⟩

theorem inv_wakeup (h : Inv s m) :
    ∃ m', s.wakeup.2.foldlM attentive m = some m' ∧ Inv s.wakeup.1 m' := by
  refine ⟨fun u => (m u).map fun _ => true, rfl, ?_, ?_, ?_, ?_⟩
  · intro u hu
    simp only [wakeup, h.testing u hu, map_some]
  · exact fun u _ _ => RtWqueue.flag_rtWqueueWakeup s.queue
  · intro u b hu
    obtain ⟨b', hb', -⟩ := map_eq_some_iff.1 hu
    exact h.known u b' hb'
  · exact fun u hu => resumed_of_live (h.live u hu) _

/-- **One step**: the flag stays set for those who have missed a wake-up. -/
theorem inv_step (h : Inv s m) (hc : s.Spares a) (hs : s.step a = some (s', out)) :
    ∃ m', out.foldlM attentive m = some m' ∧ Inv s' m' := by
  cases a with
  | wait t condition tick =>
    rw [step] at hs
    split at hs
    · next hcan =>
      have he : s.wait t condition tick = (s', out) := some_inj.1 hs
      have hinv : ∃ m', (s.wait t condition tick).2.foldlM attentive m = some m' ∧
          Inv (s.wait t condition tick).1 m' := inv_wait h hcan.1 hcan.2
      rwa [he] at hinv
    · cases hs
  | go t =>
    rw [step] at hs
    split at hs
    · next hlive => exact inv_go h hc hlive hs
    · cases hs
  | wakeup =>
    cases hs
    exact inv_wakeup h
  | timeout t =>
    rw [step] at hs
    split at hs
    · next hcan =>
      cases hs
      refine ⟨m, rfl, h.testing, h.flag, h.known, ?_⟩
      intro u hu
      by_cases hut : u = t
      · subst hut
        exact update_self ..
      · exact (update_of_ne hut ..).trans (h.live u hu)
    · cases hs

theorem exec_removing (hlive : s.life t = .live) (hpc : s.pc t = .removing) :
    ∃ s', exec step (fun _ _ => True) s [.go t] = some (s', [.returned t]) := by
  have hstep : s.step (.go t) =
      some (({ s with queue := s.queue.rtWqueueRemove t }).goto t .outside, [.returned t]) := by
    simp only [step, hlive, hpc, go, if_true]
  refine ⟨({ s with queue := s.queue.rtWqueueRemove t } : WqSys Tid).goto t .outside, ?_⟩
  simp only [exec, hstep, if_true, map_some, append_nil]

theorem Inv.returns (h : Inv s m) (ht : m t = some true) :
    ∃ n s', exec step (fun _ _ => True) s (replicate n (.go t)) = some (s', [.returned t]) := by
  rcases h.known t true ht with htesting | hpc
  · have hlive := h.live t (.inl htesting)
    have hwoken : s.woken t = true := by
      rw [h.testing t htesting] at ht
      exact some_inj.1 ht
    have hflag := h.flag t htesting hwoken
    have hstep : s.step (.go t) = some (s.clearFlag.goto t .removing, []) := by
      cases hpc : s.pc t with
      | testing tick => simp only [step, hlive, hpc, go, hflag, if_true]
      | _ => simp [hpc, WqPc.Testing] at htesting
    obtain ⟨s', hs'⟩ := exec_removing (s := s.clearFlag.goto t .removing) hlive (update_self ..)
    refine ⟨2, s', ?_⟩
    rw [replicate_succ, exec, if_pos trivial, hstep]
    simp only [replicate, hs', map_some, nil_append]
  · obtain ⟨s', hs'⟩ := exec_removing (h.live t (.inr (.inl hpc))) hpc
    exact ⟨1, s', hs'⟩

/-- **No wake-up is lost**, as long as a wait that ends clears the flag for no other thread. -/
theorem run_noLost (h : Run step Spares boot tr s) : NoLost tr s := by
  have hrun := h.invariant
    (fun tr s => ∃ m, tr.foldlM attentive (fun _ => none) = some m ∧ Inv s m)
    ⟨_, rfl, inv_boot⟩ ?_
  · obtain ⟨m, hfold, hinv⟩ := hrun
    exact ⟨m, hfold, fun t ht => hinv.returns ht⟩
  · rintro tr s a s' out ⟨m, hfold, hinv⟩ hc hs
    obtain ⟨m', hfold', hinv'⟩ := inv_step hinv hc hs
    exact ⟨m', by simp [foldlM_append, hfold, hfold'], hinv'⟩

/-- A wake-up comes before a thread looks at the flag. -/
theorem run_noLost_inTime : ∃ s : WqSys (Fin 2), NoLost [.evaluated 0, .wakeup] s ∧
    s.pc 0 = .testing 5 := by
  have hdec : ((exec step Spares (boot : WqSys (Fin 2)) [.wait 0 false 5, .wakeup]).map
      fun r => r.1.pc 0) = some (.testing 5) := by decide
  obtain ⟨⟨s, tr⟩, hexec, hr⟩ := map_eq_some_iff.1 hdec
  have htr : (exec step Spares (boot : WqSys (Fin 2)) [.wait 0 false 5, .wakeup]).map
      (·.2) = some [.evaluated 0, .wakeup] := rfl
  rw [hexec] at htr
  cases htr
  exact ⟨s, run_noLost (Run.of_exec hexec), hr⟩

/-- **A wait that ends takes another thread's wake-up**: the thread 0 has found its condition false
when the thread 1, which waits, is woken up; the thread 1 clears the flag before the thread 0 looks
at it. -/
theorem not_run_noLost : ¬ ∀ (s : WqSys (Fin 2)) (tr : List (WqEvent (Fin 2))),
    Run step (fun _ _ => True) boot tr s → NoLost tr s := by
  intro hall
  have htr : (exec step (fun _ _ => True) (boot : WqSys (Fin 2))
      [.wait 1 false (-1), .go 1, .wait 0 false (-1), .wakeup, .go 1, .go 0]).map (·.2) =
      some [.evaluated 1, .suspended 1, .evaluated 0, .wakeup, .suspended 0] := rfl
  obtain ⟨⟨s, tr⟩, hexec, hr⟩ := map_eq_some_iff.1 htr
  cases hr
  obtain ⟨m, hfold, -⟩ := hall s _ (Run.of_exec hexec)
  cases hfold

end WqSys

end RtThread
