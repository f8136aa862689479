import McCortexM3.Ipc.Inheritance
import Mathlib.Data.Fintype.Basic

/-!
# The bound on priority inversion

While a thread waits for a mutex, the owner should not run at a lower priority than the
waiting thread.  `rt_mutex_take` raises the owner when a wait begins, and nothing else does:
an owner that waits itself does not pass its new priority on, a thread that gives up one of
its mutexes loses what it has inherited through the others, and a mutex is handed over to the
first thread of the queue whatever the priorities of the others are.

## Main definitions

* `WaitSys.Bounded` — owners have at least the priority of the threads that wait for them.
* `WaitSys.KeepsBound` — what an operation must find for the bound to hold after it.

## Main results

* `WaitSys.bounded_step` — then it does.
* `IpcSys.run_bounded` — the bound holds in every run of such operations.
* `IpcSys.not_run_bounded` — a thread that gives up one of two mutexes.
-/

set_option linter.all false

namespace RtThread

open Function List

namespace WaitSys

variable {Tid M S : Type} [DecidableEq Tid] [DecidableEq M] [DecidableEq S]

/-- The owner of a mutex has at least the priority of every thread that waits for it. -/
def Bounded (a : WaitSys Tid M S) : Prop :=
  ∀ m owner waiter, (a.mutex m).owner = some owner → a.mode waiter = .waiting (.inl m) →
    a.prio owner ≤ a.prio waiter

/-- What an operation finds.  An owner that inherits a priority waits for no mutex whose owner
has a lower one; a release restores a priority that is enough for the other mutexes of the
thread, and hands the mutex over to a waiting thread of the highest priority; and no priority
is changed from outside. -/
def KeepsBound (a : WaitSys Tid M S) : WaitOp Tid M S → Prop
  | .control _ _ => False
  | .mutexTake t m waits =>
    waits = true → ∀ owner, (a.mutex m).owner = some owner → a.prio t < a.prio owner →
      ∀ m' owner', owner ∈ a.queue (.inl m') → (a.mutex m').owner = some owner' →
        a.prio owner' ≤ a.prio t
  | .mutexRelease t m =>
    (a.mutex m).owner = some t → (a.mutex m).hold - 1 = 0 →
      (∀ m', m' ≠ m → (a.mutex m').owner = some t → ∀ w ∈ a.queue (.inl m'),
        (a.mutex m).originalPriority ≤ a.prio w) ∧
      ∀ next ∈ (a.queue (.inl m)).head?, ∀ w ∈ a.queue (.inl m), a.prio next ≤ a.prio w
  | _ => True

instance [Fintype Tid] [Fintype M] (a : WaitSys Tid M S) (op : WaitOp Tid M S) :
    Decidable (KeepsBound a op) := by
  unfold KeepsBound
  split <;> infer_instance

/-- The owners have been started, and threads wait only for mutexes that have an owner. -/
structure Owned (a : WaitSys Tid M S) : Prop where
  started : ∀ m owner, (a.mutex m).owner = some owner → a.mode owner ≠ .unborn
  waiting : ∀ m t, a.mode t = .waiting (.inl m) → (a.mutex m).owner ≠ none

variable {a b : WaitSys Tid M S} {t u : Tid} {m m' : M} {out : List (IpcEvent Tid M S)}

/-! ### What a release leaves -/

theorem mode_giveUp (a : WaitSys Tid M S) (t : Tid) (m : M) (u : Tid) :
    (a.giveUp t m).mode u =
      if (a.queue (.inl m)).head? = some u then .ended (.inl m) .eok else a.mode u := by
  rw [giveUp]
  split
  · next next rest hlist =>
    by_cases hu : u = next
    · subst hu
      simp [endWait, hlist]
    · simp [endWait, setMutex, setPrio, hlist, hu, Ne.symm hu]
  · next hlist => simp [setMutex, setPrio, hlist]

/-! ### The owners -/

/-- An operation that keeps the owners, and begins no wait for a mutex without one. -/
theorem Owned.congr (h : Owned a) (howner : ∀ m, (b.mutex m).owner = (a.mutex m).owner)
    (hstarted : ∀ u, a.mode u ≠ .unborn → b.mode u ≠ .unborn)
    (hwaiting : ∀ u m, b.mode u = .waiting (.inl m) →
      a.mode u = .waiting (.inl m) ∨ (a.mutex m).owner ≠ none) : Owned b := by
  refine ⟨?_, ?_⟩
  · intro m owner ho
    exact hstarted owner (h.started m owner ((howner m).symm.trans ho))
  · intro m u hu
    rw [howner m]
    rcases hwaiting u m hu with hw | hw
    · exact h.waiting m u hw
    · exact hw

theorem Owned.setMode (h : Owned a) {mode : Mode (M ⊕ S)} (hmode : mode ≠ .unborn)
    (hwait : ∀ m, mode = .waiting (.inl m) → (a.mutex m).owner ≠ none)
    (hb : b.mode = Function.update a.mode t mode)
    (howner : ∀ m, (b.mutex m).owner = (a.mutex m).owner) : Owned b := by
  refine h.congr howner ?_ ?_
  · intro u hu
    rw [hb]
    by_cases hut : u = t
    · simpa [hut] using hmode
    · simpa [hut] using hu
  · intro u m hu
    rw [hb] at hu
    by_cases hut : u = t
    · subst hut
      exact .inr (hwait m (by simpa using hu))
    · exact .inl (by simpa [hut] using hu)

theorem Owned.setMutex (h : Owned a) {mutex : Mutex Tid}
    (howner : mutex.owner = (a.mutex m).owner) : Owned (a.setMutex m mutex) := by
  refine h.congr ?_ (fun u hu => hu) fun u m' hu => .inl hu
  intro m'
  by_cases hm : m' = m
  · subst hm
    simpa [WaitSys.setMutex] using howner
  · simp [WaitSys.setMutex, hm]

theorem Owned.take (h : Owned a) (ht : a.mode t ≠ .unborn) {mutex : Mutex Tid}
    (howner : mutex.owner = some t) : Owned (a.setMutex m mutex) := by
  refine ⟨?_, ?_⟩
  · intro m' owner ho
    by_cases hm : m' = m
    · subst hm
      obtain rfl : t = owner := by simpa [WaitSys.setMutex, howner] using ho
      exact ht
    · exact h.started m' owner (by simpa [WaitSys.setMutex, hm] using ho)
  · intro m' u hu
    by_cases hm : m' = m
    · subst hm
      simp [WaitSys.setMutex, howner]
    · simpa [WaitSys.setMutex, hm] using h.waiting m' u hu

/-- A mutex that is given up goes to a thread that waits for it, if there is one. -/
theorem Owned.giveUp (h : Owned a) (hq : Queued a) (t : Tid) (m : M) : Owned (a.giveUp t m) := by
  refine ⟨?_, ?_⟩
  · intro m' owner ho
    rw [mode_giveUp]
    split
    · simp
    · by_cases hm : m' = m
      · subst hm
        rw [owner_giveUp] at ho
        contradiction
      · rw [mutex_giveUp_of_ne a t m hm] at ho
        exact h.started m' owner ho
  · intro m' u hu
    rw [mode_giveUp] at hu
    split at hu
    · cases hu
    · by_cases hm : m' = m
      · subst hm
        rw [owner_giveUp]
        intro hnone
        rw [head?_eq_none_iff] at hnone
        have hmem := (hq _ u).2 hu
        rw [hnone] at hmem
        cases hmem
      · rw [mutex_giveUp_of_ne a t m hm]
        exact h.waiting m' u hu

theorem owned_step {op : WaitOp Tid M S} (h : Owned a) (hq : Queued a)
    (hs : a.step op = some (b, out)) : Owned b := by
  cases outcome_of_step hs with
  | startup v p hmode => exact h.setMode (by simp) (by simp) rfl fun _ => rfl
  | control v p => exact ⟨h.started, h.waiting⟩
  | nested v m waits hmode howner => exact h.setMutex rfl
  | taken v m waits hmode hother hvalue => exact h.take (by simp [hmode]) rfl
  | lent v m owner hmode howner hne hvalue =>
    have hwait : ∀ m', (.waiting (.inl m) : Mode (M ⊕ S)) = .waiting (.inl m') →
        (a.mutex m').owner ≠ none := by
      rintro m' he
      cases he
      simp [howner]
    split
    · exact h.setMode (t := v) (by simp) hwait rfl fun _ => rfl
    · exact h.setMode (t := v) (by simp) hwait rfl fun _ => rfl
  | givenUp v m hmode howner hhold => exact h.giveUp hq v m
  | inner v m hmode howner hhold => exact h.setMutex rfl
  | semTaken caller σ waits hvalue => exact ⟨h.started, h.waiting⟩
  | semWaits v σ hmode hvalue | wake v o err hmode herr =>
    exact h.setMode (t := v) (by simp) (by simp) rfl fun _ => rfl
  | semHandOver σ next rest hlist =>
    exact h.setMode (t := next) (by simp) (by simp) rfl fun _ => rfl
  | semGiven σ hlist => exact ⟨h.started, h.waiting⟩
  | semControl σ value =>
    refine h.congr (fun _ => rfl) ?_ ?_
    · intro u hu
      by_cases hmem : u ∈ a.queue (.inr σ)
      · simp [setSem, hmem]
      · simpa [setSem, hmem] using hu
    · intro u m hu
      by_cases hmem : u ∈ a.queue (.inr σ)
      · simp [setSem, hmem] at hu
      · exact .inl (by simpa [setSem, hmem] using hu)
  | ret v o err hmode => exact h.setMode (t := v) (by simp) (by simp) rfl fun _ => rfl
  | _ => exact h

/-! ### The bound -/

section

variable (h : Bounded a)
include h

theorem Bounded.congr (howner : ∀ m, (b.mutex m).owner = (a.mutex m).owner)
    (hprio : b.prio = a.prio)
    (hwaiting : ∀ u m, b.mode u = .waiting (.inl m) → a.mode u = .waiting (.inl m)) :
    Bounded b := by
  intro m owner waiter ho hw
  rw [hprio]
  exact h m owner waiter ((howner m).symm.trans ho) (hwaiting waiter m hw)

theorem Bounded.setMode {mode : Mode (M ⊕ S)}
    (hwait : ∀ m, mode ≠ .waiting (.inl m)) (hb : b.mode = Function.update a.mode t mode)
    (howner : ∀ m, (b.mutex m).owner = (a.mutex m).owner) (hprio : b.prio = a.prio) :
    Bounded b := by
  apply h.congr howner hprio
  intro u m hu
  rw [hb] at hu
  by_cases hut : u = t
  · subst hut
    exact absurd (by simpa using hu) (hwait m)
  · simpa [hut] using hu

theorem Bounded.beginWait {owner : Tid} (howner : (a.mutex m).owner = some owner)
    (hne : owner ≠ t)
    (hchain : a.prio t < a.prio owner → ∀ m' owner', a.mode owner = .waiting (.inl m') →
      (a.mutex m').owner = some owner' → a.prio owner' ≤ a.prio t) (flag : IpcFlag) :
    Bounded ((if a.prio t < a.prio owner then a.setPrio owner (a.prio t) else a).beginWait t
      (.inl m) flag) := by
  obtain ⟨c, hc⟩ : ∃ c, c = if a.prio t < a.prio owner then a.setPrio owner (a.prio t) else a :=
    ⟨_, rfl⟩
  have hmode : c.mode = a.mode := by rw [hc]; split <;> rfl
  have hmutex : c.mutex = a.mutex := by rw [hc]; split <;> rfl
  -- the owner has the better of the two priorities, the others keep theirs
  have howner' : c.prio owner ≤ a.prio t ∧ c.prio owner ≤ a.prio owner := by
    rw [hc]
    split
    · simp [setPrio]
      omega
    · omega
  have hother : ∀ u, u ≠ owner → c.prio u = a.prio u := by
    intro u hu
    rw [hc]
    split
    · simp [setPrio, hu]
    · rfl
  have hle : ∀ u, c.prio u ≤ a.prio u := by
    intro u
    by_cases hu : u = owner
    · subst hu
      exact howner'.2
    · exact (hother u hu).le
  rw [← hc]
  intro m₁ o₁ w ho hw
  have ho₁ : (a.mutex m₁).owner = some o₁ := by rw [← hmutex]; exact ho
  show c.prio o₁ ≤ c.prio w
  by_cases hwt : w = t
  · -- the thread that begins to wait
    subst hwt
    obtain rfl : m = m₁ := by simpa [WaitSys.beginWait] using hw
    obtain rfl : owner = o₁ := Option.some_inj.1 (howner.symm.trans ho₁)
    rw [hother w (Ne.symm hne)]
    exact howner'.1
  · have hw' : a.mode w = .waiting (.inl m₁) := by
      simpa [WaitSys.beginWait, hwt, hmode] using hw
    by_cases hwo : w = owner
    · -- the owner waits itself, perhaps with a new priority
      subst hwo
      by_cases hlt : a.prio t < a.prio w
      · have hprio : c.prio w = a.prio t := by rw [hc, if_pos hlt]; simp [setPrio]
        rw [hprio]
        exact (hle o₁).trans (hchain hlt m₁ o₁ hw' ho₁)
      · have hprio : c.prio w = a.prio w := by rw [hc, if_neg hlt]
        rw [hprio]
        exact (hle o₁).trans (h m₁ o₁ w ho₁ hw')
    · rw [hother w hwo]
      exact (hle o₁).trans (h m₁ o₁ w ho₁ hw')

theorem Bounded.giveUp (hq : Queued a) (ht : a.mode t = .outside)
    (hothers : ∀ m', m' ≠ m → (a.mutex m').owner = some t → ∀ w ∈ a.queue (.inl m'),
      (a.mutex m).originalPriority ≤ a.prio w)
    (hnext : ∀ next ∈ (a.queue (.inl m)).head?, ∀ w ∈ a.queue (.inl m),
      a.prio next ≤ a.prio w) : Bounded (a.giveUp t m) := by
  intro m₁ o₁ w ho hw
  rw [mode_giveUp] at hw
  split at hw
  · cases hw
  · have hwt : w ≠ t := by
      rintro rfl
      rw [ht] at hw
      cases hw
    have hmem := (hq _ w).2 hw
    rw [prio_giveUp, update_of_ne hwt]
    by_cases hm : m₁ = m
    · -- the new owner was the first of the queue
      subst hm
      rw [owner_giveUp] at ho
      have hot : o₁ ≠ t := by
        rintro rfl
        have hwaits := (hq _ o₁).1 (mem_of_mem_head? ho)
        rw [ht] at hwaits
        cases hwaits
      rw [update_of_ne hot]
      exact hnext o₁ ho w hmem
    · rw [mutex_giveUp_of_ne a t m hm] at ho
      by_cases hot : o₁ = t
      · subst hot
        rw [update_self]
        exact hothers m₁ hm ho w hmem
      · rw [update_of_ne hot]
        exact h m₁ o₁ w ho hw

theorem Bounded.setMutex {mutex : Mutex Tid}
    (howner : mutex.owner = (a.mutex m).owner) : Bounded (a.setMutex m mutex) := by
  refine h.congr ?_ rfl fun u m' hu => hu
  intro m'
  by_cases hm : m' = m
  · subst hm
    simpa [WaitSys.setMutex] using howner
  · simp [WaitSys.setMutex, hm]

theorem Bounded.startup (ho : Owned a) (ht : a.mode t = .unborn) (p : ℕ) :
    Bounded { a.setPrio t p with mode := Function.update a.mode t .outside } := by
  intro m owner waiter howner hw
  have hwt : waiter ≠ t := by
    rintro rfl
    simp at hw
  have hot : owner ≠ t := by
    rintro rfl
    exact ho.started m owner howner ht
  have hw' : a.mode waiter = .waiting (.inl m) := by simpa [hwt] using hw
  simpa [setPrio, hwt, hot] using h m owner waiter howner hw'

/-- **One operation** that finds what it must find keeps the bound. -/
theorem bounded_step {op : WaitOp Tid M S} (ho : Owned a) (hq : Queued a)
    (hv : Valued a) (hk : KeepsBound a op) (hs : a.step op = some (b, out)) : Bounded b := by
  cases outcome_of_step hs with
  | startup v p hmode => exact h.startup ho hmode p
  | control v p => exact hk.elim
  | nested v m waits hmode howner => exact h.setMutex rfl
  | taken v m waits hmode hother hvalue =>
    -- nobody waits for a free mutex
    have hfree := hv.owner_eq_none hvalue
    intro m' owner waiter howner hw
    by_cases hm : m' = m
    · subst hm
      exact absurd hfree (ho.waiting m' waiter hw)
    · exact h m' owner waiter (by simpa [WaitSys.setMutex, hm] using howner) hw
  | lent v m owner hmode howner hne hvalue =>
    refine h.beginWait howner hne ?_ _
    intro hlt m' owner' hwaits hm'
    exact hk rfl owner howner hlt m' owner' ((hq _ owner).2 hwaits) hm'
  | givenUp v m hmode howner hhold =>
    obtain ⟨hothers, hnext⟩ := hk howner hhold
    exact h.giveUp hq hmode hothers hnext
  | inner v m hmode howner hhold => exact h.setMutex rfl
  | semWaits v σ hmode hvalue => exact h.setMode (t := v) (by simp) rfl (fun _ => rfl) rfl
  | semHandOver σ next rest hlist =>
    exact h.setMode (t := next) (by simp) rfl (fun _ => rfl) rfl
  | semControl σ value =>
    refine h.congr (fun _ => rfl) rfl ?_
    intro u m hu
    by_cases hmem : u ∈ a.queue (.inr σ)
    · simp [setSem, hmem] at hu
    · simpa [setSem, hmem] using hu
  | wake v o err hmode herr => exact h.setMode (t := v) (by simp) rfl (fun _ => rfl) rfl
  | ret v o err hmode => exact h.setMode (t := v) (by simp) rfl (fun _ => rfl) rfl
  | _ => exact h

end

end WaitSys

namespace IpcSys

variable [RtConfig] {Tid M S : Type} [DecidableEq Tid] [DecidableEq M] [DecidableEq S]

/-- The operation of an action, if any, finds what it must find. -/
def KeepsBound (s : IpcSys Tid M S) (a : IpcAction Tid M S) : Prop :=
  ∀ op ∈ s.op a, s.waitSys.KeepsBound op

instance [Fintype Tid] [Fintype M] (s : IpcSys Tid M S) (a : IpcAction Tid M S) :
    Decidable (KeepsBound s a) := by
  unfold KeepsBound
  infer_instance

/-- In every run of operations that find what they must find, the owner of a mutex has at
least the priority of every thread that waits for it. -/
theorem run_bounded (idle : Tid) (prio : Tid → ℕ) (hprio : ∀ t, prio t < priorityMax)
    (mutexFlag : M → IpcFlag) (semValue : S → UInt32) (semFlag : S → IpcFlag)
    (tr : List (IpcEvent Tid M S)) (s : IpcSys Tid M S)
    (hrun : Run (step idle) KeepsBound (boot idle prio mutexFlag semValue semFlag) tr s)
    (m : M) (owner waiter : Tid) (howner : (s.mutex m).owner = some owner)
    (hwaits : waiter ∈ s.kernel.list (.suspended (.inl m))) : s.prio owner ≤ s.prio waiter := by
  have hboot := inv_boot idle prio mutexFlag semValue semFlag hprio
  obtain ⟨hinv, hrun'⟩ : Inv idle s ∧ Run WaitSys.step WaitSys.KeepsBound
      (boot idle prio mutexFlag semValue semFlag).waitSys tr s.waitSys :=
    run_refines idle (fun hC ho => hC _ ho) hboot hrun
  have hbound := hrun'.invariant
    (fun _ a => a.Queued ∧ a.Valued ∧ a.Owned ∧ a.Bounded)
    ⟨hboot.queued, valued_boot, ⟨nofun, fun m t ht => ?_⟩, nofun⟩
    fun ⟨hq, hv, ho, h⟩ hk hs => ⟨WaitSys.queued_step hq hs, WaitSys.valued_step hv hs,
      WaitSys.owned_step ho hq hs, WaitSys.bounded_step h ho hq hv hk hs⟩
  · exact hbound.2.2.2 m owner waiter howner ((hinv.queued _ waiter).1 hwaits)
  · rw [mode_boot] at ht
    split at ht <;> cases ht

/-- Thread 1 takes both mutexes, and thread 2, of a higher priority, waits for mutex 0. -/
def bothTaken : List (IpcAction (Fin 3) (Fin 2) Unit) :=
  start ++ [IpcAction.call (.mutexTake 0 (-1)), .cont, .call (.mutexTake 1 (-1)), .cont,
    .startup 2, .schedule, .call (.mutexTake 0 (-1)), .cont, .cont]

end IpcSys

namespace IpcSys

theorem run_bounded_bothTaken :
    letI := config32
    ∃ s : IpcSys (Fin 3) (Fin 2) Unit, (s.mutex 0).owner = some 1 ∧
      s.kernel.list (.suspended (.inl 0)) = [2] ∧ s.prio 1 = 11 ∧ s.prio 1 ≤ s.prio 2 := by
  let _ := config32
  have hsome : (exec (step 0) KeepsBound threads bothTaken).any fun r =>
      (r.1.mutex 0).owner = some 1 ∧ r.1.kernel.list (.suspended (.inl 0)) = [2] ∧
        r.1.prio 1 = 11 := by
    decide +kernel
  obtain ⟨s, tr, hrun, howner, hlist, hprio⟩ := Run.of_any hsome
  have hmem : 2 ∈ s.kernel.list (.suspended (.inl 0)) := by
    rw [hlist]
    exact mem_cons_self
  exact ⟨s, howner, hlist, hprio, run_bounded 0 (fun t : Fin 3 => 31 - 10 * t.val) (by decide)
    (fun _ : Fin 2 => .prio) (fun _ : Unit => 0) (fun _ => .fifo) tr s hrun 0 1 2
    howner hmem⟩

/-- Thread 1 gives mutex 1 up, which restores its priority, while thread 2 still **waits for
mutex 0**. -/
theorem not_run_bounded :
    ¬ ∀ [RtConfig] (idle : Fin 3) (prio : Fin 3 → ℕ) (_ : ∀ t, prio t < priorityMax)
      (mutexFlag : Fin 2 → IpcFlag) (semValue : Unit → UInt32) (semFlag : Unit → IpcFlag)
      (tr : List (IpcEvent (Fin 3) (Fin 2) Unit)) (s : IpcSys (Fin 3) (Fin 2) Unit)
      (_ : Run (step idle) (fun s a => ∀ t, NoControl t s a)
        (boot idle prio mutexFlag semValue semFlag) tr s)
      (m : Fin 2) (owner waiter : Fin 3) (_ : (s.mutex m).owner = some owner)
      (_ : waiter ∈ s.kernel.list (.suspended (.inl m))), s.prio owner ≤ s.prio waiter := by
  intro h
  let _ := config32
  have hsome : (exec (step 0) (fun s a => ∀ t, NoControl t s a) threads
      (bothTaken ++ [IpcAction.call (.mutexRelease 1), .cont])).any fun r =>
        (r.1.mutex 0).owner = some 1 ∧ 2 ∈ r.1.kernel.list (.suspended (.inl 0)) ∧
          r.1.prio 1 = 21 ∧ r.1.prio 2 = 11 := by
    decide +kernel
  obtain ⟨s, tr, hrun, howner, hmem, hprio₁, hprio₂⟩ := Run.of_any hsome
  have hle := h 0 (fun t : Fin 3 => 31 - 10 * t.val) (by decide) (fun _ : Fin 2 => .prio)
    (fun _ : Unit => 0) (fun _ => .fifo) tr s hrun 0 1 2 howner hmem
  rw [hprio₁, hprio₂] at hle
  exact absurd hle (by decide)

end IpcSys

end RtThread
