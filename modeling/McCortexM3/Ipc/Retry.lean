import McCortexM3.Ipc.Parked
import McCortexM3.Run
import Mathlib.Data.Fintype.Basic

/-!
# Signals during `rt_mutex_take`

A signal resumes a thread that is suspended in `rt_mutex_take`, and `rt_thread_handle_sig`
gives it the error code `RT_EINTR`.  It goes back to the label `__again`, but the interrupts,
which were disabled there at first, are now enabled: each access to the mutex is a step of its
own, and the error code stays.  The calls of the other threads are still one section each.

Signal handlers make no use of the mutex.

## Main definitions

* `View.rtMutexTake`, `View.rtMutexRelease` — the sections, on views.
* `SigSys.go` — the retry, access by access.
* `Exclusive` — a mutex changes its owner only at a release, and no owner waits for it.
* `SigSys.Undisturbed` — nothing happens at the mutex during a retry.

## Main results

* `SigSys.run_exclusive` — then the mutex is exclusive.
* `SigSys.not_run_exclusive` — a thread that waits again after a signal.
-/

set_option linter.all false

namespace RtThread

open Function Option List
open Function (update)

/-! ### The sections on views -/

namespace View

variable {Tid ι : Type} [DecidableEq Tid] [DecidableEq ι]

/-- `rt_mutex_take` from its label `__again`, entered with interrupts disabled. -/
def rtMutexTakeAgain (o : ι) (t : Tid) (time : ℤ) (mutex : Mutex Tid) (v : View Tid ι) :
    Option (View Tid ι × Mutex Tid × Option RtErr) :=
  if mutex.value > 0 then
    some (v, { mutex with
      value := mutex.value - 1
      owner := some t
      originalPriority := v.prio t
      hold := mutex.hold + 1 }, some .eok)
  else if time = 0 then some (v.setError t .etimeout, mutex, some .etimeout)
  else
    match mutex.owner with
    | none => none
    | some owner =>
      let v := if v.prio t < v.prio owner then v.setPrio owner (v.prio t) else v
      some (v.rtIpcListSuspend o t mutex.flag, mutex, none)

/-- The section of `rt_mutex_take`. -/
def rtMutexTake (o : ι) (t : Tid) (time : ℤ) (mutex : Mutex Tid) (v : View Tid ι) :
    Option (View Tid ι × Mutex Tid × Option RtErr) :=
  let v := v.setError t .eok
  if mutex.owner = some t then some (v, { mutex with hold := mutex.hold + 1 }, some .eok)
  else v.rtMutexTakeAgain o t time mutex

/-- The branch of `rt_mutex_release` for a mutex with no hold left. -/
def mutexGiveUp (o : ι) (t : Tid) (mutex : Mutex Tid) (v : View Tid ι) :
    View Tid ι × Mutex Tid × RtErr × Bool :=
  let v :=
    if mutex.originalPriority ≠ v.prio t then v.setPrio t mutex.originalPriority else v
  match v.queue o with
  | next :: _ =>
    (v.rtThreadResume next, { mutex with
      owner := some next
      originalPriority := v.prio next
      hold := mutex.hold + 1 }, .eok, true)
  | [] =>
    (v, { mutex with
      value := mutex.value + 1
      owner := none
      originalPriority := 0xFF }, .eok, false)

/-- The section of `rt_mutex_release`. -/
def rtMutexRelease (o : ι) (t : Tid) (mutex : Mutex Tid) (v : View Tid ι) :
    View Tid ι × Mutex Tid × RtErr × Bool :=
  if mutex.owner ≠ some t then (v.setError t .error, mutex, .error, false)
  else
    let mutex : Mutex Tid := { mutex with hold := mutex.hold - 1 }
    if mutex.hold = 0 then v.mutexGiveUp o t mutex
    else (v, mutex, .eok, false)

end View

/-! ### The interleavings -/

/-- Where a thread is in `rt_mutex_take`: in no call; in its `rt_schedule`; after it; at
`__again`; in the assignments of the branch of a free mutex; in the branch of a mutex that has
an owner, at the comparison of the priorities, at the evaluation of the arguments of
`rt_thread_control`, at this call, and at `rt_ipc_list_suspend`. -/
inductive TakePc (Tid : Type)
  | outside
  | scheduled (time : ℤ)
  | woken (time : ℤ)
  | again (time : ℤ)
  | loadValue
  | storeValue (value : UInt16)
  | setOwner
  | setPriority
  | loadHold
  | storeHold (hold : UInt8)
  | compare (time : ℤ)
  | loadOwner (time : ℤ)
  | boost (time : ℤ) (owner : Tid)
  | suspend (time : ℤ)

/-- A thread at this place has tested the mutex with interrupts enabled, and goes on to use
what it has found. -/
def TakePc.inWindow {Tid : Type} : TakePc Tid → Bool
  | .outside | .scheduled _ | .woken _ | .again _ => false
  | _ => true

/-- What an observer sees: a thread becomes the owner, gives the mutex up, or enters the
suspend list. -/
inductive TakeEvent (Tid : Type)
  | acquired (t : Tid)
  | released (t : Tid)
  | joined (t : Tid)
  deriving DecidableEq

/-- What can happen next: a call, one access of a thread in its `rt_mutex_take`, a signal that
is sent to a thread, a signal that is handled by it, a timeout, and a change of a priority. -/
inductive SigAction (Tid : Type)
  | take (t : Tid) (time : ℤ)
  | release (t : Tid)
  | go (t : Tid)
  | kill (t : Tid)
  | handleSig (t : Tid)
  | timeout (t : Tid)
  | control (t : Tid) (priority : ℕ)
  deriving DecidableEq

/-- The threads, the mutex, the calls, and the threads with a pending signal that is not
masked. -/
structure SigSys (Tid : Type) where
  threads : View Tid Unit
  mutex : Mutex Tid
  pc : Tid → TakePc Tid
  pending : Tid → Bool

namespace SigSys

variable {Tid : Type} [DecidableEq Tid]

/-- The place of `t` becomes `pc`. -/
def goto (s : SigSys Tid) (t : Tid) (pc : TakePc Tid) : SigSys Tid :=
  { s with pc := update s.pc t pc }

/-- The mutex becomes `mutex`. -/
def setMutex (s : SigSys Tid) (mutex : Mutex Tid) : SigSys Tid := { s with mutex := mutex }

/-- `rt_thread_handle_sig` of a thread with a pending signal. -/
def handleSig (s : SigSys Tid) (t : Tid) : SigSys Tid :=
  if s.pending t then
    { s with
      threads := s.threads.setError t .eintr
      pending := update s.pending t false }
  else s

/-- The events of a `rt_mutex_take` by `t` on a mutex with the given owner. -/
def takeEvents (t : Tid) (owner : Option Tid) : Option RtErr → List (TakeEvent Tid)
  | some .eok => if owner = some t then [] else [.acquired t]
  | some _ => []
  | none => [.joined t]

/-- The events of a `rt_mutex_release` by `t` that leaves the mutex with the given owner. -/
def releaseEvents (t : Tid) (mutex : Mutex Tid) (owner : Option Tid) : List (TakeEvent Tid) :=
  if mutex.owner = some t ∧ mutex.hold - 1 = 0 then
    .released t :: (owner.map .acquired).toList
  else []

/-- The next access of a thread in `rt_mutex_take`, from its `rt_schedule` on. -/
def go (s : SigSys Tid) (t : Tid) : TakePc Tid → Option (SigSys Tid × List (TakeEvent Tid))
  | .outside => none
  | .scheduled time => some ((s.handleSig t).goto t (.woken time), [])
  | .woken time =>
    if s.threads.error t = .eintr then some (s.goto t (.again time), [])
    else some (s.goto t .outside, [])
  | .again time =>
    if s.mutex.value > 0 then some (s.goto t .loadValue, [])
    else if time = 0 then
      some ({ s with threads := s.threads.setError t .etimeout }.goto t .outside, [])
    else some (s.goto t (.compare time), [])
  | .loadValue => some (s.goto t (.storeValue s.mutex.value), [])
  | .storeValue value =>
    some ((s.setMutex { s.mutex with value := value - 1 }).goto t .setOwner, [])
  | .setOwner =>
    some ((s.setMutex { s.mutex with owner := some t }).goto t .setPriority, [.acquired t])
  | .setPriority =>
    some ((s.setMutex { s.mutex with originalPriority := s.threads.prio t }).goto t .loadHold, [])
  | .loadHold => some (s.goto t (.storeHold s.mutex.hold), [])
  | .storeHold hold => some ((s.setMutex { s.mutex with hold := hold + 1 }).goto t .outside, [])
  | .compare time =>
    s.mutex.owner.map fun owner =>
      (s.goto t (if s.threads.prio t < s.threads.prio owner then .loadOwner time
        else .suspend time), [])
  | .loadOwner time => s.mutex.owner.map fun owner => (s.goto t (.boost time owner), [])
  | .boost time owner =>
    some ({ s with threads := s.threads.setPrio owner (s.threads.prio t) }.goto t (.suspend time),
      [])
  | .suspend time =>
    some ({ s with threads := s.threads.rtIpcListSuspend () t s.mutex.flag }.goto t
      (.scheduled time), [.joined t])

/-- A thread at this place has started its timer. -/
def hasTimer : TakePc Tid → Bool
  | .scheduled time => time > 0
  | _ => false

/-- The thread can run and is in no call. -/
def canCall (s : SigSys Tid) (t : Tid) : Bool :=
  s.threads.life t = .live && match s.pc t with
    | .outside => true
    | _ => false

/-- One step of an interleaving. -/
def step (s : SigSys Tid) : SigAction Tid → Option (SigSys Tid × List (TakeEvent Tid))
  | .take t time =>
    if s.canCall t then
      (s.threads.rtMutexTake () t time s.mutex).map fun r =>
        ({ s with threads := r.1, mutex := r.2.1 }.goto t
          (if r.2.2 = none then .scheduled time else .outside),
          takeEvents t s.mutex.owner r.2.2)
    else none
  | .release t =>
    if s.canCall t then
      let r := s.threads.rtMutexRelease () t s.mutex
      some ({ s with threads := r.1, mutex := r.2.1 }, releaseEvents t s.mutex r.2.1.owner)
    else none
  | .go t => if s.threads.life t = .live then s.go t (s.pc t) else none
  | .kill t =>
    some ({ s with
      threads := if s.threads.life t = .blocked then s.threads.rtThreadResume t else s.threads
      pending := update s.pending t true }, [])
  | .handleSig t => if s.threads.life t = .live then some (s.handleSig t, []) else none
  | .timeout t =>
    if hasTimer (s.pc t) then (s.threads.rtThreadTimeout t).map fun v => ({ s with threads := v }, [])
    else none
  | .control t p => some ({ s with threads := s.threads.setPrio t p }, [])

/-- A new mutex. -/
def boot (prio : Tid → ℕ) (flag : IpcFlag) : SigSys Tid where
  threads := .idle prio
  mutex := rtMutexInit flag
  pc := fun _ => .outside
  pending := fun _ => false

end SigSys

/-- While the mutex has the owner `owner`: it gets another owner only after this one has
released it, and the owner does not enter the suspend list. -/
def Exclusive {Tid : Type} : Option Tid → List (TakeEvent Tid) → Prop
  | _, [] => True
  | owner, .acquired t :: tr => owner = none ∧ Exclusive (some t) tr
  | owner, .released t :: tr => owner = some t ∧ Exclusive none tr
  | owner, .joined t :: tr => owner ≠ some t ∧ Exclusive owner tr

instance decidableExclusive {Tid : Type} [DecidableEq Tid] :
    (owner : Option Tid) → (tr : List (TakeEvent Tid)) → Decidable (Exclusive owner tr)
  | _, [] => inferInstanceAs (Decidable True)
  | owner, .acquired t :: tr =>
    have := decidableExclusive (some t) tr
    inferInstanceAs (Decidable (owner = none ∧ Exclusive (some t) tr))
  | owner, .released t :: tr =>
    have := decidableExclusive none tr
    inferInstanceAs (Decidable (owner = some t ∧ Exclusive none tr))
  | owner, .joined t :: tr =>
    have := decidableExclusive owner tr
    inferInstanceAs (Decidable (owner ≠ some t ∧ Exclusive owner tr))

/-- The owner after these events. -/
def ownerAfter {Tid : Type} : Option Tid → List (TakeEvent Tid) → Option Tid
  | owner, [] => owner
  | _, .acquired t :: tr => ownerAfter (some t) tr
  | _, .released _ :: tr => ownerAfter none tr
  | owner, .joined _ :: tr => ownerAfter owner tr

theorem exclusive_append {Tid : Type} {owner : Option Tid} {tr out : List (TakeEvent Tid)} :
    Exclusive owner (tr ++ out) ↔ Exclusive owner tr ∧ Exclusive (ownerAfter owner tr) out := by
  induction tr generalizing owner with
  | nil => simp [Exclusive, ownerAfter]
  | cons e tr ih => cases e <;> simp [Exclusive, ownerAfter, ih, and_assoc]

theorem ownerAfter_append {Tid : Type} (owner : Option Tid) (tr out : List (TakeEvent Tid)) :
    ownerAfter owner (tr ++ out) = ownerAfter (ownerAfter owner tr) out := by
  induction tr generalizing owner with
  | nil => rfl
  | cons e tr ih => cases e <;> exact ih _

namespace SigSys

variable {Tid : Type} [DecidableEq Tid]

/-! ### Retries without interference -/

/-- The step uses the mutex or changes its suspend list. -/
def accesses (s : SigSys Tid) : SigAction Tid → Bool
  | .take _ _ => true
  | .release _ => true
  | .go t =>
    match s.pc t with
    | .again _ => true
    | pc => pc.inWindow
  | .kill t => t ∈ s.threads.queue ()
  | .timeout t => t ∈ s.threads.queue ()
  | .handleSig _ => false
  | .control _ _ => false

/-- A thread in its `rt_schedule`. -/
def inSchedule : TakePc Tid → Bool
  | .scheduled _ => true
  | _ => false

/-- A thread that has not yet read its error code. -/
def waits : TakePc Tid → Bool
  | .scheduled _ => true
  | .woken _ => true
  | _ => false

/-- While a thread uses in its retry what it has found, nothing else happens at the mutex; the
mutex is not handed over to a thread that waits with the error code `RT_EINTR`; and no
thread in `rt_mutex_take` handles a signal when it has been handed the mutex. -/
def Undisturbed (s : SigSys Tid) (a : SigAction Tid) : Prop :=
  (∀ u, (s.pc u).inWindow = true → s.accesses a = true → a = .go u) ∧
  match a with
  | .release t => s.mutex.owner = some t → s.mutex.hold - 1 = 0 →
      ∀ next ∈ (s.threads.queue ()).head?, s.threads.error next ≠ .eintr
  | .go t => inSchedule (s.pc t) = true → s.pending t = true → s.mutex.owner ≠ some t
  | .handleSig t => waits (s.pc t) = true → s.pending t = true → s.mutex.owner ≠ some t
  | _ => True

instance [Fintype Tid] (s : SigSys Tid) (a : SigAction Tid) : Decidable (Undisturbed s a) := by
  unfold Undisturbed
  cases a <;> infer_instance

/-! ### The invariant -/

/-- What a thread at a place knows of the mutex. -/
def Place (m : Mutex Tid) (err : RtErr) (t : Tid) : TakePc Tid → Prop
  | .outside => True
  | .scheduled _ | .woken _ => m.owner = some t → err ≠ .eintr
  | .again _ => m.owner ≠ some t
  | .loadValue => m.value = 1 ∧ m.owner = none
  | .storeValue value => value = 1 ∧ m.owner = none
  | .setOwner => m.value = 0 ∧ m.owner = none
  | .setPriority | .loadHold | .storeHold _ => m.value = 0 ∧ m.owner = some t
  | .compare _ | .loadOwner _ | .boost _ _ | .suspend _ =>
    m.value = 0 ∧ m.owner ≠ none ∧ m.owner ≠ some t

/-- The value of a mutex that no thread is just taking. -/
def Settled (m : Mutex Tid) : Prop := m.value = if m.owner = none then 1 else 0

/-- The mutex is exclusive, and the threads in `rt_mutex_take` are right about it. -/
structure Inv (tr : List (TakeEvent Tid)) (s : SigSys Tid) : Prop where
  exclusive : Exclusive none tr
  owner : ownerAfter none tr = s.mutex.owner
  settled : (∀ t, (s.pc t).inWindow = false) → Settled s.mutex
  one : ∀ t u, (s.pc t).inWindow = true → (s.pc u).inWindow = true → t = u
  place : ∀ t, Place s.mutex (s.threads.error t) t (s.pc t)
  queued : ∀ t ∈ s.threads.queue (), s.threads.life t = .blocked ∧
    inSchedule (s.pc t) = true ∧ s.mutex.owner ≠ some t

variable {s s' : SigSys Tid} {tr out : List (TakeEvent Tid)} {t : Tid} {m : Mutex Tid}
  {v : View Tid Unit} {pc : TakePc Tid} {pend : Tid → Bool}

/-- A thread that is not in the branch of a free or a taken mutex knows only that it is not
the owner, or that it has not been interrupted. -/
theorem Place.of_outside {err : RtErr} (h : Place s.mutex err t pc) (hpc : pc.inWindow = false)
    (howner : m.owner = some t → s.mutex.owner = some t) : Place m err t pc := by
  cases pc with
  | outside => trivial
  | scheduled _ => exact fun ho => h (howner ho)
  | woken _ => exact fun ho => h (howner ho)
  | again _ => exact fun ho => h (howner ho)
  | _ => cases hpc

theorem Inv.settled_of_quiet (h : Inv tr s) (ht : (s.pc t).inWindow = false)
    (hquiet : ∀ u, u ≠ t → (s.pc u).inWindow = false) : Settled s.mutex := by
  apply h.settled
  intro u
  by_cases hut : u = t
  · rw [hut]
    exact ht
  · exact hquiet u hut

theorem Inv.next (h : Inv tr s) (hout : Exclusive s.mutex.owner out)
    (howner : ownerAfter s.mutex.owner out = m.owner)
    (hsettled : (∀ u, u ≠ t → (s.pc u).inWindow = false) → pc.inWindow = false → Settled m)
    (hone : pc.inWindow = true → ∀ u, u ≠ t → (s.pc u).inWindow = false)
    (hplace : Place m (v.error t) t pc)
    (hothers : ∀ u, u ≠ t → Place m (v.error u) u (s.pc u))
    (hqueue : ∀ u ∈ v.queue (), v.life u = .blocked ∧
      inSchedule (update s.pc t pc u) = true ∧ m.owner ≠ some u) :
    Inv (tr ++ out) ⟨v, m, update s.pc t pc, pend⟩ := by
  refine ⟨?_, ?_, ?_, ?_, ?_, hqueue⟩
  · rw [exclusive_append, h.owner]
    exact ⟨h.exclusive, hout⟩
  · rw [ownerAfter_append, h.owner]
    exact howner
  · intro hall
    refine hsettled ?_ ?_
    · intro u hu
      simpa [hu] using hall u
    · simpa using hall t
  · intro u w hu hw
    -- a thread other than `t` in its window was there before
    by_cases hut : u = t
    · by_cases hwt : w = t
      · rw [hut, hwt]
      · have hw' : (s.pc w).inWindow = true := by simpa [hwt] using hw
        rw [hone (by simpa [hut] using hu) w hwt] at hw'
        cases hw'
    · have hu' : (s.pc u).inWindow = true := by simpa [hut] using hu
      by_cases hwt : w = t
      · rw [hone (by simpa [hwt] using hw) u hut] at hu'
        cases hu'
      · exact h.one u w hu' (by simpa [hwt] using hw)
  · intro u
    by_cases hut : u = t
    · subst hut
      simpa using hplace
    · simpa [hut] using hothers u hut

theorem Inv.move (h : Inv tr s) (herror : ∀ u, u ≠ t → v.error u = s.threads.error u)
    (hleave : (s.pc t).inWindow = true → pc.inWindow = false → Settled s.mutex)
    (hone : pc.inWindow = true → ∀ u, u ≠ t → (s.pc u).inWindow = false)
    (hplace : Place s.mutex (v.error t) t pc)
    (hqueue : ∀ u ∈ v.queue (), u ∈ s.threads.queue () ∧ v.life u = .blocked)
    (hpc : t ∈ v.queue () → inSchedule pc = true) :
    Inv tr ⟨v, s.mutex, update s.pc t pc, pend⟩ := by
  rw [← append_nil tr]
  refine h.next trivial rfl ?_ hone hplace ?_ ?_
  · intro hothers hwindow
    cases hin : (s.pc t).inWindow with
    | true => exact hleave hin hwindow
    | false => exact h.settled_of_quiet hin hothers
  · intro u hu
    rw [herror u hu]
    exact h.place u
  · intro u hu
    obtain ⟨hmem, hlife⟩ := hqueue u hu
    obtain ⟨-, hin, hown⟩ := h.queued u hmem
    refine ⟨hlife, ?_, hown⟩
    by_cases hut : u = t
    · subst hut
      simpa using hpc hu
    · simpa [hut] using hin

/-- A step of `t` that changes the mutex while no other thread is in its window. -/
theorem Inv.change (h : Inv tr s) (hquiet : ∀ u, u ≠ t → (s.pc u).inWindow = false)
    (hout : Exclusive s.mutex.owner out) (howner : ownerAfter s.mutex.owner out = m.owner)
    (hsettled : pc.inWindow = false → Settled m) (hplace : Place m (v.error t) t pc)
    (herror : ∀ u, u ≠ t → v.error u = s.threads.error u)
    (hkeep : ∀ u, u ≠ t → m.owner = some u → s.mutex.owner = some u)
    (hqueue : ∀ u ∈ v.queue (), u ∈ s.threads.queue () ∧ v.life u = .blocked ∧ u ≠ t) :
    Inv (tr ++ out) ⟨v, m, update s.pc t pc, pend⟩ := by
  refine h.next hout howner (fun _ => hsettled) (fun _ => hquiet) hplace ?_ ?_
  · intro u hu
    rw [herror u hu]
    exact (h.place u).of_outside (hquiet u hu) (hkeep u hu)
  · intro u hu
    obtain ⟨hmem, hlife, hne⟩ := hqueue u hu
    obtain ⟨-, hin, hown⟩ := h.queued u hmem
    exact ⟨hlife, by simpa [hne] using hin, fun ho => hown (hkeep u hne ho)⟩

theorem mem_queue_rtIpcListSuspend {flag : IpcFlag} {u : Tid} :
    u ∈ (v.rtIpcListSuspend () t flag).queue () ↔ u = t ∨ u ∈ v.queue () := by
  simp [View.rtIpcListSuspend, View.link, View.setLife, mem_ipcListInsert]

theorem Inv.join (h : Inv tr s) {time : ℤ} {flag : IpcFlag} (howner : s.mutex.owner ≠ some t)
    (hleave : (s.pc t).inWindow = true → Settled s.mutex)
    (herror : ∀ u, u ≠ t → v.error u = s.threads.error u) (hlife : v.life = s.threads.life)
    (hqueue : v.queue () = s.threads.queue ()) :
    Inv (tr ++ [TakeEvent.joined t]) ⟨v.rtIpcListSuspend () t flag, s.mutex,
      update s.pc t (.scheduled time), pend⟩ := by
  refine h.next ⟨howner, trivial⟩ rfl ?_ (fun hin => by cases hin)
    (fun ho => absurd ho howner) ?_ ?_
  · intro hothers _
    cases hin : (s.pc t).inWindow with
    | true => exact hleave hin
    | false => exact h.settled_of_quiet hin hothers
  · intro u hu
    have herror' : (v.rtIpcListSuspend () t flag).error u = s.threads.error u := herror u hu
    rw [herror']
    exact h.place u
  · intro u hu
    by_cases hut : u = t
    · subst hut
      exact ⟨by simp [View.rtIpcListSuspend, View.link, View.setLife], by simp [inSchedule], howner⟩
    · have hmem : u ∈ s.threads.queue () := by
        rw [← hqueue]
        exact (mem_queue_rtIpcListSuspend.1 hu).resolve_left hut
      obtain ⟨hblocked, hin, hown⟩ := h.queued u hmem
      refine ⟨?_, by simpa [hut] using hin, hown⟩
      simpa [View.rtIpcListSuspend, View.link, View.setLife, hut, hlife] using hblocked

theorem Inv.ne_of_live (h : Inv tr s) (ht : s.threads.life t = .live) :
    ∀ u ∈ s.threads.queue (), u ≠ t := by
  rintro u hu rfl
  have hblocked := (h.queued u hu).1
  rw [ht] at hblocked
  cases hblocked

theorem Settled.of_pos (h : Settled m) (hvalue : m.value > 0) : m.value = 1 ∧ m.owner = none := by
  rw [Settled] at h
  split at h
  · next hnone => exact ⟨h, hnone⟩
  · rw [h] at hvalue
    cases hvalue

theorem Settled.of_zero (h : Settled m) (hvalue : ¬ m.value > 0) :
    m.value = 0 ∧ m.owner ≠ none := by
  rw [Settled] at h
  split at h
  · rw [h] at hvalue
    exact absurd (by decide) hvalue
  · next hsome => exact ⟨h, hsome⟩

section

variable (h : Inv tr s) (ht : s.threads.life t = .live)
include h ht

theorem Inv.pass (hleave : (s.pc t).inWindow = false) (hpc : pc.inWindow = false)
    (herror : ∀ u, u ≠ t → v.error u = s.threads.error u) (hlife : v.life = s.threads.life)
    (hqueue : v.queue () = s.threads.queue ()) (hplace : Place s.mutex (v.error t) t pc) :
    Inv tr ⟨v, s.mutex, update s.pc t pc, pend⟩ := by
  refine h.move herror ?_ ?_ hplace ?_ ?_
  · intro hin
    rw [hleave] at hin
    cases hin
  · intro hin
    rw [hpc] at hin
    cases hin
  · intro u hu
    rw [hqueue] at hu
    rw [hlife]
    exact ⟨hu, (h.queued u hu).1⟩
  · intro hmem
    rw [hqueue] at hmem
    exact absurd rfl (h.ne_of_live ht t hmem)

theorem Inv.enter (hquiet : ∀ u, u ≠ t → (s.pc u).inWindow = false) (hpc : pc.inWindow = true)
    (herror : v.error = s.threads.error) (hlife : v.life = s.threads.life)
    (hqueue : v.queue () = s.threads.queue ()) (hplace : Place s.mutex (v.error t) t pc) :
    Inv tr ⟨v, s.mutex, update s.pc t pc, pend⟩ := by
  refine h.move (fun u _ => by rw [herror]) ?_ (fun _ => hquiet) hplace ?_ ?_
  · intro _ hin
    rw [hpc] at hin
    cases hin
  · intro u hu
    rw [hqueue] at hu
    rw [hlife]
    exact ⟨hu, (h.queued u hu).1⟩
  · intro hmem
    rw [hqueue] at hmem
    exact absurd rfl (h.ne_of_live ht t hmem)

theorem Inv.assign (hquiet : ∀ u, u ≠ t → (s.pc u).inWindow = false) (hout : Exclusive s.mutex.owner out)
    (howner : ownerAfter s.mutex.owner out = m.owner)
    (hsettled : pc.inWindow = false → Settled m) (hplace : Place m (s.threads.error t) t pc)
    (hkeep : ∀ u, u ≠ t → m.owner = some u → s.mutex.owner = some u) :
    Inv (tr ++ out) ⟨s.threads, m, update s.pc t pc, pend⟩ :=
  h.change hquiet hout howner hsettled hplace (fun _ _ => rfl) hkeep fun u hu =>
    ⟨hu, (h.queued u hu).1, h.ne_of_live ht u hu⟩

end

theorem Undisturbed.quiet (hu : Undisturbed s (.go t)) (hacc : s.accesses (.go t) = true) :
    ∀ u, u ≠ t → (s.pc u).inWindow = false := by
  intro u hut
  cases hin : (s.pc u).inWindow with
  | false => rfl
  | true =>
    have hgo := hu.1 u hin hacc
    exact absurd (SigAction.go.inj hgo).symm hut

/-- The thread comes out of its `rt_schedule` and handles its signal, if there is one. -/
theorem inv_go_scheduled (h : Inv tr s) (hu : Undisturbed s (.go t))
    (ht : s.threads.life t = .live) {time : ℤ} (hpc : s.pc t = .scheduled time) :
    Inv tr ((s.handleSig t).goto t (.woken time)) := by
  have hplace := h.place t
  rw [hpc] at hplace
  have hleave : (s.pc t).inWindow = false := by
    rw [hpc]
    rfl
  rw [handleSig]
  split
  · next hpend =>
    have howner : s.mutex.owner ≠ some t := hu.2 (by rw [hpc]; rfl) hpend
    exact h.pass ht hleave rfl (fun u hut => by simp [View.setError, hut]) rfl rfl
      fun ho => absurd ho howner
  · exact h.pass ht hleave rfl (fun _ _ => rfl) rfl rfl hplace

/-- The thread reads its error code: a signal sends it back to `__again`. -/
theorem inv_go_woken (h : Inv tr s) (ht : s.threads.life t = .live) {time : ℤ}
    (hpc : s.pc t = .woken time) (hs : s.go t (.woken time) = some (s', out)) :
    Inv (tr ++ out) s' := by
  have hplace := h.place t
  rw [hpc] at hplace
  have hleave : (s.pc t).inWindow = false := by
    rw [hpc]
    rfl
  simp only [go] at hs
  split at hs
  · next herr =>
    cases hs
    rw [append_nil]
    exact h.pass ht hleave rfl (fun _ _ => rfl) rfl rfl fun ho => hplace ho herr
  · cases hs
    rw [append_nil]
    exact h.pass ht hleave rfl (fun _ _ => rfl) rfl rfl trivial

theorem inv_go_again (h : Inv tr s) (hu : Undisturbed s (.go t)) (ht : s.threads.life t = .live)
    {time : ℤ} (hpc : s.pc t = .again time) (hs : s.go t (.again time) = some (s', out)) :
    Inv (tr ++ out) s' := by
  have hquiet := hu.quiet (by simp [accesses, hpc])
  have hplace := h.place t
  rw [hpc] at hplace
  have hleave : (s.pc t).inWindow = false := by
    rw [hpc]
    rfl
  have hset := h.settled_of_quiet hleave hquiet
  simp only [go] at hs
  split at hs
  · next hvalue =>
    cases hs
    rw [append_nil]
    exact h.enter ht hquiet rfl rfl rfl rfl (hset.of_pos hvalue)
  · next hvalue =>
    split at hs
    · cases hs
      rw [append_nil]
      exact h.pass ht hleave rfl (fun u hut => by simp [View.setError, hut]) rfl rfl trivial
    · cases hs
      rw [append_nil]
      obtain ⟨hzero, hsome⟩ := hset.of_zero hvalue
      exact h.enter ht hquiet rfl rfl rfl rfl ⟨hzero, hsome, hplace⟩

/-- **One access** of a retry while nothing else happens at the mutex. -/
theorem inv_go (h : Inv tr s) (hu : Undisturbed s (.go t)) (ht : s.threads.life t = .live)
    (hs : s.go t (s.pc t) = some (s', out)) : Inv (tr ++ out) s' := by
  have hplace := h.place t
  have hquiet : (s.pc t).inWindow = true → ∀ u, u ≠ t → (s.pc u).inWindow = false := by
    intro hin
    apply hu.quiet
    cases hpc : s.pc t <;> simp [hpc, accesses, TakePc.inWindow] at hin ⊢
  cases hpc : s.pc t with
  | outside =>
    rw [hpc] at hs
    cases hs
  | scheduled time =>
    rw [hpc] at hs
    cases hs
    rw [append_nil]
    exact inv_go_scheduled h hu ht hpc
  | woken time =>
    rw [hpc] at hs
    exact inv_go_woken h ht hpc hs
  | again time =>
    rw [hpc] at hs
    exact inv_go_again h hu ht hpc hs
  -- the branch of a free mutex
  | loadValue | loadHold =>
    rw [hpc] at hs hplace hquiet
    cases hs
    rw [append_nil]
    exact h.enter ht (hquiet rfl) rfl rfl rfl rfl hplace
  | storeValue value =>
    rw [hpc] at hs hplace hquiet
    cases hs
    obtain ⟨hone, hnone⟩ := hplace
    have hsub : value - 1 = 0 := by
      rw [hone]
      decide
    exact h.assign ht (hquiet rfl) trivial rfl (fun hin => by cases hin) ⟨hsub, hnone⟩
      fun _ _ ho => ho
  | setOwner =>
    rw [hpc] at hs hplace hquiet
    cases hs
    obtain ⟨hzero, hnone⟩ := hplace
    exact h.assign ht (hquiet rfl) ⟨hnone, trivial⟩ rfl (fun hin => by cases hin) ⟨hzero, rfl⟩
      fun u hut ho => absurd (some_inj.1 ho).symm hut
  | setPriority =>
    rw [hpc] at hs hplace hquiet
    cases hs
    exact h.assign ht (hquiet rfl) trivial rfl (fun hin => by cases hin) hplace fun _ _ ho => ho
  | storeHold hold =>
    rw [hpc] at hs hplace hquiet
    cases hs
    obtain ⟨hzero, howner⟩ := hplace
    have hset : Settled { s.mutex with hold := hold + 1 } := by simp [Settled, hzero, howner]
    exact h.assign ht (hquiet rfl) trivial rfl (fun _ => hset) trivial fun _ _ ho => ho
  -- the branch of a mutex that has an owner
  | compare time =>
    rw [hpc] at hs hplace hquiet
    obtain ⟨owner, -, hs⟩ := map_eq_some_iff.1 hs
    cases hs
    rw [append_nil]
    split
    · exact h.enter ht (hquiet rfl) rfl rfl rfl rfl hplace
    · exact h.enter ht (hquiet rfl) rfl rfl rfl rfl hplace
  | loadOwner time =>
    rw [hpc] at hs hplace hquiet
    obtain ⟨owner, -, hs⟩ := map_eq_some_iff.1 hs
    cases hs
    rw [append_nil]
    exact h.enter ht (hquiet rfl) rfl rfl rfl rfl hplace
  | boost time owner =>
    -- the priority is no part of the invariant
    rw [hpc] at hs hplace hquiet
    cases hs
    rw [append_nil]
    exact h.enter ht (hquiet rfl) rfl rfl rfl rfl hplace
  | suspend time =>
    rw [hpc] at hs hplace
    cases hs
    obtain ⟨hzero, hsome, hother⟩ := hplace
    exact h.join hother (fun _ => by simp [Settled, hzero, hsome]) (fun _ _ => rfl) rfl rfl

theorem canCall_iff : s.canCall t = true ↔ s.threads.life t = .live ∧ s.pc t = .outside := by
  rw [canCall, Bool.and_eq_true, decide_eq_true_eq]
  apply and_congr_right
  intro _
  cases s.pc t <;> simp

section

variable (h : Inv tr s) (hquiet : ∀ u, (s.pc u).inWindow = false)
include h hquiet

/-- The section of `rt_mutex_take` while no thread is in its window. -/
theorem inv_take {time : ℤ} (hcall : s.canCall t = true) {r : View Tid Unit × Mutex Tid × Option RtErr}
    (hr : s.threads.rtMutexTake () t time s.mutex = some r) :
    Inv (tr ++ takeEvents t s.mutex.owner r.2.2) ⟨r.1, r.2.1,
      update s.pc t (if r.2.2 = none then .scheduled time else .outside), s.pending⟩ := by
  obtain ⟨hlive, hpc⟩ := canCall_iff.1 hcall
  have hset := h.settled hquiet
  have hne := h.ne_of_live hlive
  have hqueue : ∀ u ∈ s.threads.queue (),
      u ∈ s.threads.queue () ∧ s.threads.life u = .blocked ∧ u ≠ t :=
    fun u hu => ⟨hu, (h.queued u hu).1, hne u hu⟩
  have herror : ∀ err u, u ≠ t → (s.threads.setError t err).error u = s.threads.error u := by
    intro err u hut
    simp [View.setError, hut]
  rw [View.rtMutexTake] at hr
  split at hr
  · next howner =>
    cases hr
    have hout : takeEvents t s.mutex.owner (some .eok) = [] := if_pos howner
    rw [hout]
    exact h.change (fun u _ => hquiet u) trivial rfl (fun _ => hset) trivial (herror _)
      (fun _ _ ho => ho) hqueue
  · next howner =>
    rw [View.rtMutexTakeAgain] at hr
    split at hr
    · next hvalue =>
      cases hr
      obtain ⟨hone, hnone⟩ := hset.of_pos hvalue
      have hout : takeEvents t s.mutex.owner (some .eok) = [.acquired t] := if_neg howner
      have hsub : s.mutex.value - 1 = 0 := by
        rw [hone]
        decide
      rw [hout]
      exact h.change (fun u _ => hquiet u) ⟨hnone, trivial⟩ rfl
        (fun _ => by simp [Settled, hsub]) trivial (herror _)
        (fun u hut ho => absurd (some_inj.1 ho).symm hut) hqueue
    · split at hr
      · cases hr
        exact h.change (fun u _ => hquiet u) trivial rfl (fun _ => hset) trivial
          (fun u hut => by simp [View.setError, hut]) (fun _ _ ho => ho) hqueue
      · split at hr
        · cases hr
        · next owner _ =>
          cases hr
          refine h.join howner (by simp [hpc, TakePc.inWindow]) ?_ ?_ ?_
          · intro u hut
            split <;> exact herror _ u hut
          · split <;> rfl
          · split <;> rfl

theorem inv_unlock (howner : s.mutex.owner = some t) (herror : v.error = s.threads.error)
    (hqueue : v.queue () = []) {hold : UInt8} {prio : ℕ} :
    Inv (tr ++ [TakeEvent.released t]) ⟨v, ⟨s.mutex.value + 1, prio, hold, none, s.mutex.flag⟩,
      update s.pc t .outside, s.pending⟩ := by
  have hzero : s.mutex.value + 1 = 1 := by
    have hvalue : s.mutex.value = 0 := by rw [h.settled hquiet, if_neg (by simp [howner])]
    rw [hvalue]
    decide
  refine h.change (fun u _ => hquiet u) ⟨howner, trivial⟩ rfl
    (fun _ => by simp [Settled, hzero]) trivial (fun u _ => by rw [herror]) nofun ?_
  intro u hu
  rw [hqueue] at hu
  cases hu

theorem inv_handOver (ht : s.threads.life t = .live) (howner : s.mutex.owner = some t)
    (herror : v.error = s.threads.error) (hlife : v.life = s.threads.life)
    (hqueue : v.queue = s.threads.queue) {next : Tid} (hmem : next ∈ s.threads.queue ())
    (hnext : s.threads.error next ≠ .eintr) {hold : UInt8} {prio : ℕ} :
    Inv (tr ++ [TakeEvent.released t, .acquired next]) ⟨v.rtThreadResume next,
      ⟨s.mutex.value, prio, hold, some next, s.mutex.flag⟩, update s.pc t .outside,
      s.pending⟩ := by
  have hvalue : s.mutex.value = 0 := by rw [h.settled hquiet, if_neg (by simp [howner])]
  refine h.next ⟨howner, rfl, trivial⟩ rfl (fun _ _ => by simp [Settled, hvalue])
    (fun _ u _ => hquiet u) trivial ?_ ?_
  · intro u hut
    have herror' : (v.rtThreadResume next).error u = s.threads.error u := congrFun herror u
    rw [herror']
    by_cases hun : u = next
    · -- the new owner is in its `rt_schedule`, and has not been interrupted
      subst hun
      obtain ⟨-, hin, -⟩ := h.queued u hmem
      cases hpc : s.pc u with
      | scheduled time => exact fun _ => hnext
      | _ =>
        rw [hpc] at hin
        cases hin
    · exact (h.place u).of_outside (hquiet u) fun ho => absurd (some_inj.1 ho).symm hun
  · intro u hu
    obtain ⟨hmem', hun⟩ : u ∈ s.threads.queue () ∧ u ≠ next := by
      simpa [View.rtThreadResume, View.setLife, View.unlink, hqueue] using hu
    obtain ⟨hblocked, hin, -⟩ := h.queued u hmem'
    have hut := h.ne_of_live ht u hmem'
    refine ⟨?_, by simpa [hut] using hin, fun ho => hun (some_inj.1 ho).symm⟩
    simpa [View.rtThreadResume, View.setLife, View.unlink, hun, hlife] using hblocked

/-- The section of `rt_mutex_release` while no thread is in its window. -/
theorem inv_release (hcall : s.canCall t = true)
    (hnext : s.mutex.owner = some t → s.mutex.hold - 1 = 0 →
      ∀ next ∈ (s.threads.queue ()).head?, s.threads.error next ≠ .eintr)
    {r : View Tid Unit × Mutex Tid × RtErr × Bool}
    (hr : s.threads.rtMutexRelease () t s.mutex = r) :
    Inv (tr ++ releaseEvents t s.mutex r.2.1.owner) ⟨r.1, r.2.1, s.pc, s.pending⟩ := by
  obtain ⟨hlive, hpc⟩ := canCall_iff.1 hcall
  have hset := h.settled hquiet
  have hqueue : ∀ u ∈ s.threads.queue (),
      u ∈ s.threads.queue () ∧ s.threads.life u = .blocked ∧ u ≠ t :=
    fun u hu => ⟨hu, (h.queued u hu).1, h.ne_of_live hlive u hu⟩
  have hstay : update s.pc t .outside = s.pc := by rw [← hpc, update_eq_self]
  rw [← hstay]
  rw [View.rtMutexRelease] at hr
  split at hr
  · next howner =>
    subst hr
    rw [releaseEvents, if_neg fun hboth => howner hboth.1]
    exact h.change (fun u _ => hquiet u) trivial rfl (fun _ => hset) trivial
      (fun u hut => by simp [View.setError, hut]) (fun _ _ ho => ho) hqueue
  · next howner =>
    have howner : s.mutex.owner = some t := not_not.1 howner
    dsimp only at hr
    split at hr
    · next hhold =>
      rw [releaseEvents, if_pos ⟨howner, hhold⟩]
      obtain ⟨v, hv⟩ : ∃ v, v = if s.mutex.originalPriority ≠ s.threads.prio t then
          s.threads.setPrio t s.mutex.originalPriority else s.threads := ⟨_, rfl⟩
      have hlife : v.life = s.threads.life := by rw [hv]; split <;> rfl
      have herror : v.error = s.threads.error := by rw [hv]; split <;> rfl
      have hvqueue : v.queue = s.threads.queue := by rw [hv]; split <;> rfl
      rw [View.mutexGiveUp, ← hv, hvqueue] at hr
      cases hlist : s.threads.queue () with
      | nil =>
        rw [hlist] at hr
        subst hr
        exact inv_unlock h hquiet howner herror (by rw [hvqueue, hlist])
      | cons next rest =>
        rw [hlist] at hr
        subst hr
        exact inv_handOver h hquiet hlive howner herror hlife hvqueue (by simp [hlist])
          (hnext howner hhold next (by simp [hlist]))
    · next hhold =>
      subst hr
      rw [releaseEvents, if_neg fun hboth => hhold hboth.2]
      exact h.change (fun u _ => hquiet u) trivial rfl (fun _ => hset) trivial
        (fun _ _ => rfl) (fun _ _ ho => ho) hqueue

end

theorem Place.setError {err err' : RtErr} (h : Place m err t pc)
    (herr : waits pc = true → m.owner = some t → err' ≠ .eintr) : Place m err' t pc := by
  cases pc with
  | scheduled _ => exact herr rfl
  | woken _ => exact herr rfl
  | _ => exact h

theorem Place.error_ne {err : RtErr} (h : Place m err t pc) (hw : waits pc = true)
    (howner : m.owner = some t) : err ≠ .eintr := by
  cases pc with
  | scheduled _ => exact h howner
  | woken _ => exact h howner
  | _ => cases hw

/-- A step that changes nothing of a call but the error code of `t`. -/
theorem Inv.stay (h : Inv tr s) (herror : ∀ u, u ≠ t → v.error u = s.threads.error u)
    (herr : waits (s.pc t) = true → s.mutex.owner = some t → v.error t ≠ .eintr)
    (hqueue : ∀ u ∈ v.queue (), u ∈ s.threads.queue () ∧ v.life u = .blocked) :
    Inv tr ⟨v, s.mutex, s.pc, pend⟩ := by
  have hstay : update s.pc t (s.pc t) = s.pc := update_eq_self t s.pc
  rw [← hstay]
  refine h.move herror ?_ ?_ ((h.place t).setError herr)
    hqueue fun hmem => (h.queued t (hqueue t hmem).1).2.1
  · intro hin hout
    rw [hin] at hout
    cases hout
  · intro hin u hut
    cases hu : (s.pc u).inWindow with
    | false => rfl
    | true => exact absurd (h.one u t hu hin) hut

theorem inv_step {a : SigAction Tid} (h : Inv tr s) (hu : Undisturbed s a)
    (hs : s.step a = some (s', out)) : Inv (tr ++ out) s' := by
  have hkeep : ∀ u ∈ s.threads.queue (), u ∈ s.threads.queue () ∧ s.threads.life u = .blocked :=
    fun u hu => ⟨hu, (h.queued u hu).1⟩
  have hresume : ∀ (err : RtErr) t, ∀ u ∈ ((s.threads.setError t err).rtThreadResume t).queue (),
      u ∈ s.threads.queue () ∧ ((s.threads.setError t err).rtThreadResume t).life u = .blocked := by
    intro err t u hu
    obtain ⟨hmem, hut⟩ : u ∈ s.threads.queue () ∧ u ≠ t := by
      simpa [View.rtThreadResume, View.setLife, View.unlink, View.setError] using hu
    refine ⟨hmem, ?_⟩
    simpa [View.rtThreadResume, View.setLife, View.unlink, View.setError, hut]
      using (h.queued u hmem).1
  cases a with
  | take t time =>
    simp only [step, ite_none_right_eq_some] at hs
    obtain ⟨hcall, hs⟩ := hs
    obtain ⟨r, hr, hs⟩ := map_eq_some_iff.1 hs
    cases hs
    refine inv_take h ?_ hcall hr
    intro u
    cases hin : (s.pc u).inWindow with
    | false => rfl
    | true => cases hu.1 u hin rfl
  | release t =>
    simp only [step, ite_none_right_eq_some, some.injEq, Prod.mk.injEq] at hs
    obtain ⟨hcall, rfl, rfl⟩ := hs
    refine inv_release h ?_ hcall hu.2 rfl
    intro u
    cases hin : (s.pc u).inWindow with
    | false => rfl
    | true => cases hu.1 u hin rfl
  | go t =>
    simp only [step, ite_none_right_eq_some] at hs
    exact inv_go h hu hs.1 hs.2
  | kill t =>
    cases hs
    rw [append_nil]
    split
    · have hself := View.setError_self s.threads t
      exact h.stay (t := t) (fun _ _ => rfl) (h.place t).error_ne (hself ▸ hresume _ t)
    · exact h.stay (t := t) (fun _ _ => rfl) (h.place t).error_ne hkeep
  | handleSig t =>
    simp only [step, ite_none_right_eq_some, some.injEq, Prod.mk.injEq] at hs
    obtain ⟨-, rfl, rfl⟩ := hs
    rw [append_nil, handleSig]
    split
    · next hpend =>
      exact h.stay (t := t) (fun u hut => by simp [View.setError, hut])
        (fun hw ho => absurd ho (hu.2 hw hpend)) hkeep
    · exact h
  | timeout t =>
    simp only [step, ite_none_right_eq_some] at hs
    obtain ⟨-, hs⟩ := hs
    obtain ⟨v, hv, hs⟩ := map_eq_some_iff.1 hs
    cases hs
    simp only [View.rtThreadTimeout, ite_none_right_eq_some, some.injEq] at hv
    obtain ⟨-, rfl⟩ := hv
    rw [append_nil]
    refine h.stay (t := t) ?_ ?_ (hresume _ t)
    · intro u hut
      simp [View.rtThreadResume, View.setLife, View.unlink, View.setError, hut]
    · intro _ _
      simp [View.rtThreadResume, View.setLife, View.unlink, View.setError]
  | control t p =>
    cases hs
    rw [append_nil]
    exact h.stay (t := t) (fun _ _ => rfl) (h.place t).error_ne hkeep

theorem inv_boot (prio : Tid → ℕ) (flag : IpcFlag) : Inv [] (boot prio flag) :=
  ⟨trivial, rfl, fun _ => rfl, nofun, fun _ => trivial, nofun⟩

/-- In every undisturbed run the mutex gets a new owner only after the old one has released
it, no owner enters the suspend list, and no owner is in it. -/
theorem run_exclusive (prio : Tid → ℕ) (flag : IpcFlag) (tr : List (TakeEvent Tid))
    (s : SigSys Tid) (hrun : Run step Undisturbed (boot prio flag) tr s) :
    Exclusive none tr ∧ ∀ t ∈ s.threads.queue (), s.mutex.owner ≠ some t := by
  have hinv := hrun.invariant Inv (inv_boot prio flag) fun h hu hs => inv_step h hu hs
  exact ⟨hinv.exclusive, fun t ht => (hinv.queued t ht).2.2⟩

/-- Thread 1 waits for the mutex of thread 0 and gets a signal. -/
def interrupted : List (SigAction (Fin 2)) :=
  [.take 0 (-1), .take 1 (-1), .kill 1, .go 1, .go 1]

/-- Thread 1 takes the mutex when it is free again. -/
theorem run_exclusive_retried :
    ∃ s : SigSys (Fin 2), s.mutex.owner = some 1 ∧
      Exclusive none [.acquired 0, .joined 1, .released 0, .acquired (1 : Fin 2)] ∧
      ∀ t ∈ s.threads.queue (), s.mutex.owner ≠ some t := by
  have hsome : (exec step Undisturbed (boot (fun t : Fin 2 => t.val) .prio)
      (interrupted ++ SigAction.release 0 :: replicate 7 (.go 1))).any fun r =>
        r.1.mutex.owner = some 1 ∧ r.2 = [.acquired 0, .joined 1, .released 0, .acquired 1] := by
    decide +kernel
  obtain ⟨s, tr, hrun, hr⟩ := Run.of_any hsome
  obtain ⟨howner, rfl⟩ : s.mutex.owner = some 1 ∧
      tr = [.acquired 0, .joined 1, .released 0, .acquired 1] := hr
  exact ⟨s, howner, run_exclusive (fun t : Fin 2 => t.val) .prio _ s hrun⟩

/-- Thread 1 waits again, still with the error code of the signal, and is handed the mutex: it
goes back to `__again` once more and **waits for its own mutex**. -/
theorem not_run_exclusive :
    ¬ ∀ (prio : Fin 2 → ℕ) (flag : IpcFlag) (tr : List (TakeEvent (Fin 2))) (s : SigSys (Fin 2))
      (_ : Run step (fun _ _ => True) (boot prio flag) tr s),
      Exclusive none tr ∧ ∀ t ∈ s.threads.queue (), s.mutex.owner ≠ some t := by
  intro h
  have hsome : (exec step (fun _ _ => True) (boot (fun t : Fin 2 => t.val) .prio)
      (interrupted ++ replicate 3 (SigAction.go 1) ++
        SigAction.release 0 :: replicate 5 (.go 1))).any fun r =>
          1 ∈ r.1.threads.queue () ∧ r.1.mutex.owner = some 1 ∧
          r.2 = [.acquired 0, .joined 1, .joined 1, .released 0, .acquired 1, .joined 1] := by
    decide +kernel
  obtain ⟨s, tr, hrun, hr⟩ := Run.of_any hsome
  obtain ⟨hmem, howner, -⟩ : 1 ∈ s.threads.queue () ∧ s.mutex.owner = some 1 ∧
      tr = [.acquired 0, .joined 1, .joined 1, .released 0, .acquired 1, .joined 1] :=
    hr
  exact (h (fun t : Fin 2 => t.val) .prio tr s hrun).2 1 hmem howner

end SigSys

end RtThread
