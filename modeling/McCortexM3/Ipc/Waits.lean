import McCortexM3.Ipc.Sys
import McCortexM3.Run

/-!
# Waiting for objects, without a scheduler

What semaphores and mutexes are for, seen without the kernel's lists and its scheduler: a
thread is outside every wait, waits for an object, or has ended its wait with a code that
its call will return.  Each operation is one step.  The system of `Ipc/Sys.lean` refines this
one, so that what holds of every run here holds of every run there.

## Main definitions

* `Mode` — whether a thread waits.
* `WaitSys`, `WaitOp`, `WaitSys.step` — the state, the operations and their steps.
* `WaitSys.Queued` — the queues hold the threads that wait.

## Main results

* `WaitSys.queued_step` — every step keeps the queues right.
-/

set_option linter.all false

namespace RtThread

open Option
open Function (update)

/-- A thread has not been started, is outside every wait, waits for an object, or has ended
its wait for an object with a code. -/
inductive Mode (ι : Type)
  | unborn
  | outside
  | waiting (o : ι)
  | ended (o : ι) (err : RtErr)
  deriving DecidableEq

/-- The modes and priorities of the threads, and the objects with their queues. -/
@[ext] structure WaitSys (Tid M S : Type) where
  mode : Tid → Mode (M ⊕ S)
  prio : Tid → ℕ
  queue : M ⊕ S → List Tid
  mutex : M → Mutex Tid
  sem : S → Semaphore

/-- The operations.  A take may wait or not, and an interrupt handler (`none`) may not. -/
inductive WaitOp (Tid M S : Type)
  | startup (t : Tid) (priority : ℕ)
  | control (t : Tid) (priority : ℕ)
  | mutexTake (t : Tid) (m : M) (waits : Bool)
  | mutexRelease (t : Tid) (m : M)
  | semTake (caller : Option Tid) (s : S) (waits : Bool)
  | semRelease (s : S)
  | semControl (s : S) (value : UInt32)
  | wake (t : Tid) (err : RtErr)
  | ret (t : Tid)

namespace WaitSys

variable {Tid M S : Type} [DecidableEq Tid] [DecidableEq M] [DecidableEq S]

/-- `t` begins to wait for `o`. -/
def beginWait (a : WaitSys Tid M S) (t : Tid) (o : M ⊕ S) (flag : IpcFlag) : WaitSys Tid M S :=
  { a with
    mode := update a.mode t (.waiting o)
    queue := update a.queue o (ipcListInsert flag a.prio t (a.queue o)) }

/-- The wait of `t` for `o` ends with the code `err`. -/
def endWait (a : WaitSys Tid M S) (t : Tid) (o : M ⊕ S) (err : RtErr) : WaitSys Tid M S :=
  { a with
    mode := update a.mode t (.ended o err)
    queue := fun o => (a.queue o).filter (· ≠ t) }

/-- The priority of `t` becomes `p`. -/
def setPrio (a : WaitSys Tid M S) (t : Tid) (p : ℕ) : WaitSys Tid M S :=
  { a with prio := update a.prio t p }

/-- The mutex `m` becomes `mutex`. -/
def setMutex (a : WaitSys Tid M S) (m : M) (mutex : Mutex Tid) : WaitSys Tid M S :=
  { a with mutex := update a.mutex m mutex }

@[simp] theorem setMutex_self (a : WaitSys Tid M S) (m : M) : a.setMutex m (a.mutex m) = a := by
  simp [setMutex]

/-- The semaphore `σ` becomes `sem`. -/
def setSem (a : WaitSys Tid M S) (σ : S) (sem : Semaphore) : WaitSys Tid M S :=
  { a with sem := update a.sem σ sem }

@[simp] theorem setSem_self (a : WaitSys Tid M S) (σ : S) : a.setSem σ (a.sem σ) = a := by
  simp [setSem]

/-- `t` takes `m`, which it does not own, or begins to wait for it and lends its priority to
the owner. -/
def takeFree (a : WaitSys Tid M S) (t : Tid) (m : M) (waits : Bool) :
    Option (WaitSys Tid M S × List (IpcEvent Tid M S)) :=
  if (a.mutex m).value > 0 then
    some (a.setMutex m { a.mutex m with
      value := (a.mutex m).value - 1
      owner := some t
      originalPriority := a.prio t
      hold := (a.mutex m).hold + 1 },
      ownerEvents m a.prio (a.mutex m).owner (some t) ++ [.mutexTake t m .eok])
  else if waits then
    match (a.mutex m).owner with
    | none => none
    | some owner =>
      some ((if a.prio t < a.prio owner then a.setPrio owner (a.prio t) else a).beginWait t
        (.inl m) (a.mutex m).flag, [])
  else some (a, [.mutexTake t m .etimeout])

/-- The owner `t` of `m` gives it up: its priority is restored, and `m` goes to the head of
the queue or becomes free. -/
def giveUp (a : WaitSys Tid M S) (t : Tid) (m : M) : WaitSys Tid M S :=
  let b := a.setPrio t (a.mutex m).originalPriority
  match a.queue (.inl m) with
  | next :: _ =>
    (b.setMutex m { a.mutex m with
      owner := some next
      originalPriority := b.prio next
      hold := (a.mutex m).hold - 1 + 1 }).endWait next (.inl m) .eok
  | [] =>
    b.setMutex m { a.mutex m with
      value := (a.mutex m).value + 1
      owner := none
      originalPriority := 0xFF
      hold := (a.mutex m).hold - 1 }

section GiveUp

variable (a : WaitSys Tid M S) (t : Tid) (m : M)

theorem prio_giveUp : (a.giveUp t m).prio = update a.prio t (a.mutex m).originalPriority := by
  rw [giveUp]
  split <;> rfl

theorem mutex_giveUp_of_ne {m' : M} (h : m' ≠ m) : (a.giveUp t m).mutex m' = a.mutex m' := by
  rw [giveUp]
  split <;> simp [endWait, setMutex, setPrio, h]

theorem owner_giveUp : ((a.giveUp t m).mutex m).owner = (a.queue (.inl m)).head? := by
  rw [giveUp]
  split
  · next hlist => simp [endWait, setMutex, hlist]
  · next hlist => simp [setMutex, hlist]

theorem originalPriority_giveUp {next : Tid} (h : (a.queue (.inl m)).head? = some next) :
    ((a.giveUp t m).mutex m).originalPriority = (a.giveUp t m).prio next := by
  rw [prio_giveUp, giveUp]
  split
  · next hlist =>
    rw [hlist] at h
    cases h
    simp [endWait, setMutex, setPrio]
  · next hlist => simp [hlist] at h

end GiveUp

/-- One operation. -/
def step (a : WaitSys Tid M S) :
    WaitOp Tid M S → Option (WaitSys Tid M S × List (IpcEvent Tid M S))
  | .startup t p =>
    if a.mode t = .unborn then
      some ({ a.setPrio t p with mode := update a.mode t .outside }, [])
    else none
  | .control t p => some (a.setPrio t p, [.control t p])
  | .mutexTake t m waits =>
    if a.mode t = .outside then
      if (a.mutex m).owner = some t then
        some (a.setMutex m { a.mutex m with hold := (a.mutex m).hold + 1 }, [.mutexTake t m .eok])
      else a.takeFree t m waits
    else none
  | .mutexRelease t m =>
    if a.mode t = .outside then
      if (a.mutex m).owner = some t then
        if (a.mutex m).hold - 1 = 0 then
          some (a.giveUp t m, ownerEvents m a.prio (some t) (a.queue (.inl m)).head? ++
            [.mutexRelease t m .eok])
        else
          some (a.setMutex m { a.mutex m with hold := (a.mutex m).hold - 1 },
            [.mutexRelease t m .eok])
      else some (a, [.mutexRelease t m .error])
    else none
  | .semTake caller σ waits =>
    if (a.sem σ).value > 0 then
      some (a.setSem σ { a.sem σ with value := (a.sem σ).value - 1 }, [.semTake σ .eok])
    else if waits then
      match caller with
      | none => none
      | some t =>
        if a.mode t = .outside then some (a.beginWait t (.inr σ) (a.sem σ).flag, [])
        else none
    else some (a, [.semTake σ .etimeout])
  | .semRelease σ =>
    match a.queue (.inr σ) with
    | next :: _ => some (a.endWait next (.inr σ) .eok, [.semRelease σ])
    | [] =>
      some (a.setSem σ { a.sem σ with value := (a.sem σ).value + 1 }, [.semRelease σ])
  | .semControl σ value =>
    some (({ a with
      mode := fun t => if t ∈ a.queue (.inr σ) then .ended (.inr σ) .error else a.mode t
      queue := update a.queue (.inr σ) [] }).setSem σ
        { a.sem σ with value := value.toUInt16 }, [])
  | .wake t err =>
    match a.mode t with
    | .waiting o => if err = .eok then none else some (a.endWait t o err, [])
    | _ => none
  | .ret t =>
    match a.mode t with
    | .ended o err =>
      some ({ a with mode := update a.mode t .outside },
        [o.elim (.mutexTake t · err) (.semTake · err)])
    | _ => none

/-- What an operation can do. -/
inductive Outcome (a : WaitSys Tid M S) :
    WaitOp Tid M S → WaitSys Tid M S → List (IpcEvent Tid M S) → Prop
  | startup (t : Tid) (p : ℕ) (hmode : a.mode t = .unborn) :
    Outcome a (.startup t p) { a.setPrio t p with mode := update a.mode t .outside } []
  | control (t : Tid) (p : ℕ) : Outcome a (.control t p) (a.setPrio t p) [.control t p]
  | nested (t : Tid) (m : M) (waits : Bool) (hmode : a.mode t = .outside)
    (howner : (a.mutex m).owner = some t) :
    Outcome a (.mutexTake t m waits)
      (a.setMutex m { a.mutex m with hold := (a.mutex m).hold + 1 }) [.mutexTake t m .eok]
  | taken (t : Tid) (m : M) (waits : Bool) (hmode : a.mode t = .outside)
    (hother : (a.mutex m).owner ≠ some t) (hvalue : (a.mutex m).value > 0) :
    Outcome a (.mutexTake t m waits)
      (a.setMutex m { a.mutex m with
        value := (a.mutex m).value - 1
        owner := some t
        originalPriority := a.prio t
        hold := (a.mutex m).hold + 1 })
      (ownerEvents m a.prio (a.mutex m).owner (some t) ++ [IpcEvent.mutexTake t m .eok])
  | lent (t : Tid) (m : M) (owner : Tid) (hmode : a.mode t = .outside)
    (howner : (a.mutex m).owner = some owner) (hne : owner ≠ t)
    (hvalue : ¬ (a.mutex m).value > 0) :
    Outcome a (.mutexTake t m true)
      ((if a.prio t < a.prio owner then a.setPrio owner (a.prio t) else a).beginWait t
        (.inl m) (a.mutex m).flag) []
  | mutexRefused (t : Tid) (m : M) (hmode : a.mode t = .outside)
    (hother : (a.mutex m).owner ≠ some t) (hvalue : ¬ (a.mutex m).value > 0) :
    Outcome a (.mutexTake t m false) a [.mutexTake t m .etimeout]
  | givenUp (t : Tid) (m : M) (hmode : a.mode t = .outside)
    (howner : (a.mutex m).owner = some t) (hhold : (a.mutex m).hold - 1 = 0) :
    Outcome a (.mutexRelease t m) (a.giveUp t m)
      (ownerEvents m a.prio (some t) (a.queue (.inl m)).head? ++ [IpcEvent.mutexRelease t m .eok])
  | inner (t : Tid) (m : M) (hmode : a.mode t = .outside)
    (howner : (a.mutex m).owner = some t) (hhold : (a.mutex m).hold - 1 ≠ 0) :
    Outcome a (.mutexRelease t m)
      (a.setMutex m { a.mutex m with hold := (a.mutex m).hold - 1 }) [.mutexRelease t m .eok]
  | notOwner (t : Tid) (m : M) (hmode : a.mode t = .outside)
    (hother : (a.mutex m).owner ≠ some t) :
    Outcome a (.mutexRelease t m) a [.mutexRelease t m .error]
  | semTaken (caller : Option Tid) (σ : S) (waits : Bool) (hvalue : (a.sem σ).value > 0) :
    Outcome a (.semTake caller σ waits)
      (a.setSem σ { a.sem σ with value := (a.sem σ).value - 1 }) [.semTake σ .eok]
  | semWaits (t : Tid) (σ : S) (hmode : a.mode t = .outside) (hvalue : ¬ (a.sem σ).value > 0) :
    Outcome a (.semTake (some t) σ true) (a.beginWait t (.inr σ) (a.sem σ).flag) []
  | semRefused (caller : Option Tid) (σ : S) (hvalue : ¬ (a.sem σ).value > 0) :
    Outcome a (.semTake caller σ false) a [.semTake σ .etimeout]
  | semHandOver (σ : S) (next : Tid) (rest : List Tid) (hlist : a.queue (.inr σ) = next :: rest) :
    Outcome a (.semRelease σ) (a.endWait next (.inr σ) .eok) [.semRelease σ]
  | semGiven (σ : S) (hlist : a.queue (.inr σ) = []) :
    Outcome a (.semRelease σ)
      (a.setSem σ { a.sem σ with value := (a.sem σ).value + 1 }) [.semRelease σ]
  | semControl (σ : S) (value : UInt32) :
    Outcome a (.semControl σ value)
      (({ a with
        mode := fun t => if t ∈ a.queue (.inr σ) then .ended (.inr σ) .error else a.mode t
        queue := update a.queue (.inr σ) [] }).setSem σ
          { a.sem σ with value := value.toUInt16 }) []
  | wake (t : Tid) (o : M ⊕ S) (err : RtErr) (hmode : a.mode t = .waiting o) (herr : err ≠ .eok) :
    Outcome a (.wake t err) (a.endWait t o err) []
  | ret (t : Tid) (o : M ⊕ S) (err : RtErr) (hmode : a.mode t = .ended o err) :
    Outcome a (.ret t) { a with mode := update a.mode t .outside }
      [o.elim (.mutexTake t · err) (.semTake · err)]

theorem outcome_of_step {a b : WaitSys Tid M S} {op : WaitOp Tid M S}
    {out : List (IpcEvent Tid M S)} (hs : a.step op = some (b, out)) : a.Outcome op b out := by
  cases op with
  | startup t p =>
    simp only [step, ite_none_right_eq_some, some.injEq, Prod.mk.injEq] at hs
    obtain ⟨hmode, rfl, rfl⟩ := hs
    exact .startup t p hmode
  | control t p =>
    cases hs
    exact .control t p
  | mutexTake t m waits =>
    simp only [step, takeFree] at hs
    split at hs
    · next hmode =>
      split at hs
      · next howner =>
        cases hs
        exact .nested t m waits hmode howner
      · next hother =>
        split at hs
        · next hvalue =>
          cases hs
          exact .taken t m waits hmode hother hvalue
        · next hvalue =>
          split at hs
          · next hwaits =>
            subst hwaits
            split at hs
            · cases hs
            · next owner howner =>
              cases hs
              exact .lent t m owner hmode howner (fun he => hother (he ▸ howner)) hvalue
          · next hwaits =>
            cases hs
            rw [Bool.not_eq_true] at hwaits
            subst hwaits
            exact .mutexRefused t m hmode hother hvalue
    · cases hs
  | mutexRelease t m =>
    simp only [step] at hs
    split at hs
    · next hmode =>
      split at hs
      · next howner =>
        split at hs
        · next hhold =>
          cases hs
          exact .givenUp t m hmode howner hhold
        · next hhold =>
          cases hs
          exact .inner t m hmode howner hhold
      · next hother =>
        cases hs
        exact .notOwner t m hmode hother
    · cases hs
  | semTake caller σ waits =>
    simp only [step] at hs
    split at hs
    · next hvalue =>
      cases hs
      exact .semTaken caller σ waits hvalue
    · next hvalue =>
      split at hs
      · next hwaits =>
        subst hwaits
        split at hs
        · cases hs
        · next t =>
          simp only [ite_none_right_eq_some, some.injEq, Prod.mk.injEq] at hs
          obtain ⟨hmode, rfl, rfl⟩ := hs
          exact .semWaits t σ hmode hvalue
      · next hwaits =>
        cases hs
        rw [Bool.not_eq_true] at hwaits
        subst hwaits
        exact .semRefused caller σ hvalue
  | semRelease σ =>
    simp only [step] at hs
    split at hs
    · next next rest hlist =>
      cases hs
      exact .semHandOver σ next rest hlist
    · next hlist =>
      cases hs
      exact .semGiven σ hlist
  | semControl σ value =>
    cases hs
    exact .semControl σ value
  | wake t err =>
    simp only [step] at hs
    split at hs
    · next o hmode =>
      split at hs
      · cases hs
      · next herr =>
        cases hs
        exact .wake t o err hmode herr
    · cases hs
  | ret t =>
    simp only [step] at hs
    split at hs
    · next o err hmode =>
      cases hs
      exact .ret t o err hmode
    · cases hs

/-! ### The queues -/

/-- The queue of an object holds the threads that wait for it. -/
def Queued (a : WaitSys Tid M S) : Prop := ∀ o t, t ∈ a.queue o ↔ a.mode t = .waiting o

variable {a b : WaitSys Tid M S}

theorem Queued.congr (h : Queued a) (hmode : b.mode = a.mode) (hqueue : b.queue = a.queue) :
    Queued b := by
  simpa only [Queued, hmode, hqueue] using h

theorem Queued.setMode (h : Queued a) {t : Tid} {mode : Mode (M ⊕ S)}
    (ht : ∀ o, a.mode t ≠ .waiting o) (hmode : ∀ o, mode ≠ .waiting o) :
    Queued { a with mode := update a.mode t mode } := by
  intro o u
  by_cases hu : u = t
  · subst hu
    simpa [h o u, ht o] using hmode o
  · simpa [hu] using h o u

theorem Queued.beginWait (h : Queued a) {t : Tid} (ht : a.mode t = .outside) (o : M ⊕ S)
    (flag : IpcFlag) : Queued (a.beginWait t o flag) := by
  intro o' u
  by_cases hu : u = t
  · subst hu
    by_cases ho : o' = o
    · subst ho
      simp [WaitSys.beginWait, mem_ipcListInsert]
    · simp [WaitSys.beginWait, ho, h o' u, ht, Ne.symm ho]
  · by_cases ho : o' = o
    · subst ho
      simp [WaitSys.beginWait, mem_ipcListInsert, hu, h o' u]
    · simp [WaitSys.beginWait, ho, hu, h o' u]

theorem Queued.endWait (h : Queued a) (t : Tid) (o : M ⊕ S) (err : RtErr) :
    Queued (a.endWait t o err) := by
  intro o' u
  by_cases hu : u = t
  · subst hu
    simp [WaitSys.endWait]
  · simp [WaitSys.endWait, hu, h o' u]

/-- **One step** keeps the queues right. -/
theorem queued_step {op : WaitOp Tid M S} {r : WaitSys Tid M S × List (IpcEvent Tid M S)}
    (h : Queued a) (hs : a.step op = some r) : Queued r.1 := by
  obtain ⟨b, out⟩ := r
  show Queued b
  cases outcome_of_step hs with
  | startup t p hmode =>
    exact Queued.setMode (a := a.setPrio t p) h (by simp [setPrio, hmode]) (by simp)
  | lent t m owner hmode howner hne hvalue =>
    -- lending a priority leaves the queues alone
    split
    · exact Queued.beginWait (a := a.setPrio _ _) h hmode _ _
    · exact h.beginWait hmode _ _
  | givenUp t m hmode howner hhold =>
    rw [giveUp]
    split
    · exact Queued.endWait (a := (a.setPrio t _).setMutex m _) h _ _ _
    · exact h
  | semWaits t σ hmode hvalue => exact h.beginWait hmode _ _
  | semHandOver σ next rest hlist => exact h.endWait _ _ _
  | semControl σ value =>
    intro o u
    by_cases hu : u ∈ a.queue (.inr σ)
    · have hmode := (h _ u).1 hu
      by_cases ho : o = .inr σ
      · subst ho
        simp [setSem, hu]
      · simp [setSem, hu, ho, h o u, hmode, Ne.symm ho]
    · by_cases ho : o = .inr σ
      · subst ho
        simpa [setSem, hu] using fun he => hu ((h _ u).2 he)
      · simp [setSem, hu, ho, h o u]
  | wake t o err hmode herr => exact h.endWait _ _ _
  | ret t o err hmode => exact h.setMode (by simp [hmode]) (by simp)
  | _ => exact h

end WaitSys

end RtThread
