import McCortexM3.Run
import Mathlib.Data.Fintype.Basic
import Mathlib.Tactic.NormNum
import Mathlib.Tactic.Ring

/-!
# Waiting for descriptors

`poll` of `poll.c` with the wait queues: passes over the descriptors, of which the first one adds
nodes to the queues, and waits for a wake-up in between.  The callback of a node sets `triggered`,
which nothing clears; a pass that finds nothing ready although it is set is followed by the next one
at once.

## Main definitions

* `PollSys.step`, `PollSys.boot` — the interleavings with wake-ups.
* `watch` — what a caller of `poll` relies on, along a history.
* `PollSys.Steady` — what has been woken for is still there.
* `PollSys.PollRight` — no wake-up is lost, and no pass is for nothing.

## Main results

* `PollSys.run_pollRight` — so it is in every such run.
* `PollSys.not_pollRight` — a thread goes on and on when the data have been taken by another one.
-/

set_option linter.all false

namespace RtThread

open Function Option List

/-- The masks of `events` and `revents`. -/
abbrev PollMask := BitVec 32

/-- `POLLERR | POLLHUP`, which every descriptor is polled for. -/
def pollErrHup : PollMask := 0x04 ||| 0x08

/-- `POLLNVAL`. -/
def pollNval : PollMask := 0x10

/-- `POLLMASK_DEFAULT`. -/
def pollMaskDefault : PollMask := 0x01 ||| 0x02

/-- `RT_TICK_PER_SECOND` of `rtconfig.h`. -/
def rtTickPerSecond : ℤ := 100

/-- `rt_tick_from_millisecond`, on an `int` of 32 bits. -/
def rtTickFromMillisecond (ms : ℤ) : ℤ :=
  if ms < 0 then -1 else ((rtTickPerSecond * ms + 999).bmod (2 ^ 32)).tdiv 1000

/-- What a descriptor is: negative, not in use, a file without `poll`, or a device. -/
inductive PollTarget (Dev : Type)
  | negative
  | invalid
  | plain
  | device (d : Dev)

/-- `struct pollfd`. -/
structure PollFd (Dev : Type) where
  target : PollTarget Dev
  events : PollMask

/-- A node in a wait queue. -/
structure PollNode (Tid : Type) where
  thread : Tid
  key : PollMask

/-- Where a thread is: before `do_pollfd` of the next descriptor, or at the end of a pass; in the
`poll` of a device, before it adds a node to the next of its queues, or reads its state; before and
after the suspension in `poll_wait_timeout`; and before `poll_teardown`. -/
inductive PollPc (Dev Q : Type)
  | scanning (rest : List (PollFd Dev))
  | adding (fd : PollFd Dev) (d : Dev) (queues : List Q) (rest : List (PollFd Dev))
  | waiting
  | waited
  | tearing

/-- A call of `poll` with its `struct rt_poll_table`; `proc` says whether `req._proc` is set.  The
history variables say whether `triggered` was set when the pass began, and whether a node has been
woken since. -/
structure PollCall (Dev Q : Type) where
  fds : List (PollFd Dev)
  msec : ℤ
  proc : Bool
  triggered : Bool
  istimeout : Bool
  num : ℕ
  pc : PollPc Dev Q
  triggeredBefore : Bool
  woken : Bool

/-- What an observer sees: a thread calls `poll`, a pass begins and ends, a node of the thread is
woken, the thread is suspended, its timer has run for some ticks, and `poll` returns. -/
inductive PollEvent (Tid : Type)
  | called (t : Tid) (msec : ℤ)
  | passBegan (t : Tid)
  | passEnded (t : Tid) (num : ℕ)
  | woken (t : Tid)
  | suspended (t : Tid)
  | expired (t : Tid) (tick : ℤ)
  | returned (t : Tid) (num : ℕ)

/-- What can happen next: a thread calls `poll`, it goes on (and whether there is memory for a
node), the state of a device changes, `rt_wqueue_wakeup` is called, and a timer runs out. -/
inductive PollAction (Tid Dev Q : Type)
  | poll (t : Tid) (fds : List (PollFd Dev)) (msec : ℤ)
  | go (t : Tid) (memory : Bool)
  | change (d : Dev) (mask : PollMask)
  | wakeup (q : Q) (key : PollMask)
  | timeout (t : Tid)

/-- The wait queues, the states of the devices, the calls of `poll`, which threads are suspended,
and the ticks of the timers that run. -/
structure PollSys (Tid Dev Q : Type) where
  queue : Q → List (PollNode Tid)
  ready : Dev → PollMask
  call : Tid → Option (PollCall Dev Q)
  blocked : Tid → Bool
  timer : Tid → Option ℤ

/-- A callback accepts the key. -/
def PollNode.accepts {Tid : Type} (n : PollNode Tid) (key : PollMask) : Bool :=
  key = 0 || key &&& n.key ≠ 0

namespace PollCall

variable {Dev Q : Type}

/-- A pass begins. -/
def beginPass (c : PollCall Dev Q) : PollCall Dev Q :=
  { c with
    pc := .scanning c.fds
    num := 0
    triggeredBefore := c.triggered
    woken := false }

/-- The end of `do_pollfd`. -/
def endFd (c : PollCall Dev Q) (mask : PollMask) (rest : List (PollFd Dev)) : PollCall Dev Q :=
  { c with
    pc := .scanning rest
    num := if mask ≠ 0 then c.num + 1 else c.num
    proc := if mask ≠ 0 then false else c.proc }

/-- The end of `poll_wait_timeout`. -/
def endWait (c : PollCall Dev Q) : PollCall Dev Q :=
  { c with istimeout := c.istimeout || !c.triggered }.beginPass

/-- `__wqueue_pollwake`. -/
def wqueuePollwake (c : PollCall Dev Q) : PollCall Dev Q :=
  { c with triggered := true, woken := true }

end PollCall

namespace PollSys

variable {Tid Dev Q : Type} [DecidableEq Tid] [DecidableEq Dev] [DecidableEq Q]

/-- The call of the thread becomes `c`. -/
def setCall (s : PollSys Tid Dev Q) (t : Tid) (c : PollCall Dev Q) : PollSys Tid Dev Q :=
  { s with call := Function.update s.call t (some c) }

/-- `_poll_add`, if there is memory. -/
def pollAdd (s : PollSys Tid Dev Q) (t : Tid) (q : Q) (fd : PollFd Dev) (memory : Bool) :
    PollSys Tid Dev Q :=
  if memory = true then
    { s with queue := Function.update s.queue q (s.queue q ++ [⟨t, fd.events ||| pollErrHup⟩]) }
  else s

/-- `poll_teardown`. -/
def pollTeardown (s : PollSys Tid Dev Q) (t : Tid) : PollSys Tid Dev Q :=
  { s with
    queue := fun q => (s.queue q).filter (·.thread ≠ t)
    call := Function.update s.call t none }

/-- A thread goes on.  The `poll` of a device adds nodes to the queues `queues d`. -/
def goAt (queues : Dev → List Q) (s : PollSys Tid Dev Q) (t : Tid) (memory : Bool)
    (c : PollCall Dev Q) : PollPc Dev Q → PollSys Tid Dev Q × List (PollEvent Tid)
  | .scanning [] =>
    (s.setCall t { c with
      proc := false
      pc := if c.num ≠ 0 ∨ c.istimeout = true then .tearing else .waiting }, [.passEnded t c.num])
  | .scanning (fd :: rest) =>
    match fd.target with
    | .negative => (s.setCall t (c.endFd 0 rest), [])
    | .invalid => (s.setCall t (c.endFd pollNval rest), [])
    | .plain => (s.setCall t (c.endFd (pollMaskDefault &&& (fd.events ||| pollErrHup)) rest), [])
    | .device d => (s.setCall t { c with pc := .adding fd d (queues d) rest }, [])
  | .adding fd d (q :: qs) rest =>
    ((if c.proc = true then s.pollAdd t q fd memory else s).setCall t
      { c with pc := .adding fd d qs rest }, [])
  | .adding fd d [] rest =>
    (s.setCall t (c.endFd (s.ready d &&& (fd.events ||| pollErrHup)) rest), [])
  | .waiting =>
    let timeout := rtTickFromMillisecond c.msec
    if timeout ≠ 0 ∧ c.triggered = false then
      ({ s.setCall t { c with pc := .waited } with
        blocked := Function.update s.blocked t true
        timer := Function.update s.timer t (if timeout > 0 then some timeout else none) },
        [.suspended t])
    else (s.setCall t c.endWait, [.passBegan t])
  | .waited => (s.setCall t c.endWait, [.passBegan t])
  | .tearing => (s.pollTeardown t, [.returned t c.num])

/-- The interrupt-disabled section of `rt_wqueue_wakeup`: the first node that accepts the key. -/
def rtWqueueWakeup (s : PollSys Tid Dev Q) (q : Q) (key : PollMask) :
    PollSys Tid Dev Q × List (PollEvent Tid) :=
  match (s.queue q).find? (·.accepts key) with
  | none => (s, [])
  | some n =>
    ({ s with
      queue := Function.update s.queue q ((s.queue q).eraseP (·.accepts key))
      call := Function.update s.call n.thread ((s.call n.thread).map PollCall.wqueuePollwake)
      blocked := Function.update s.blocked n.thread false
      timer := Function.update s.timer n.thread none }, [.woken n.thread])

/-- One step of an interleaving. -/
def step (queues : Dev → List Q) (s : PollSys Tid Dev Q) :
    PollAction Tid Dev Q → Option (PollSys Tid Dev Q × List (PollEvent Tid))
  | .poll t fds msec =>
    if s.call t = none then
      let c : PollCall Dev Q := {
        fds := fds
        msec := msec
        proc := decide (msec ≠ 0)
        triggered := false
        istimeout := decide (msec = 0)
        num := 0
        pc := .scanning fds
        triggeredBefore := false
        woken := false }
      some (s.setCall t c, [.called t msec, .passBegan t])
    else none
  | .go t memory =>
    if s.blocked t = true then none
    else (s.call t).map fun c => s.goAt queues t memory c c.pc
  | .change d mask => some ({ s with ready := Function.update s.ready d mask }, [])
  | .wakeup q key => some (s.rtWqueueWakeup q key)
  | .timeout t => (s.timer t).map fun tick =>
    ({ s with
      blocked := Function.update s.blocked t false
      timer := Function.update s.timer t none }, [.expired t tick])

/-- No call of `poll`. -/
def boot : PollSys Tid Dev Q where
  queue := fun _ => []
  ready := fun _ => 0
  call := fun _ => none
  blocked := fun _ => false
  timer := fun _ => none

/-- A pass that began when `triggered` was set has found something ready, or a node has been woken
again since, unless it is the last one. -/
def SteadyAt (c : PollCall Dev Q) : PollPc Dev Q → Prop
  | .scanning [] => c.num = 0 → c.istimeout = false → c.triggeredBefore = true → c.woken = true
  | _ => True

/-- What a thread has been woken for is still there when it looks, and times fit into an `int`. -/
def Steady (s : PollSys Tid Dev Q) : PollAction Tid Dev Q → Prop
  | .poll _ _ msec => rtTickPerSecond * msec + 999 < 2 ^ 31
  | .go t _ => ∀ c ∈ s.call t, SteadyAt c c.pc
  | _ => True

end PollSys

/-! ### What a caller relies on -/

/-- What is known of a call: its time and whether it has passed; whether the last pass has found
nothing ready; whether there has been neither a wake-up nor a suspension between the beginnings of
the last two passes, of which the first found nothing; and whether there has been one since. -/
structure PollView where
  msec : ℤ
  expired : Bool
  empty : Bool
  due : Bool
  woken : Bool
  slept : Bool

/-- What is known of a new call. -/
def PollView.first (msec : ℤ) : PollView := ⟨msec, decide (msec = 0), false, false, false, false⟩

/-- The thread that an event is about. -/
def PollEvent.thread {Tid : Type} : PollEvent Tid → Tid
  | .called t _ | .passBegan t | .passEnded t _ | .woken t | .suspended t | .expired t _
  | .returned t _ => t

/-- What is known after an event.  A thread is not suspended that has been woken since its pass
began; a pass that finds nothing is not followed by another one that finds nothing without a wake-up
or a suspension in between; and 0 is returned when the time has passed. -/
def PollView.watch {Tid : Type} (v : PollView) : PollEvent Tid → Option (Option PollView)
  | .called _ _ => none
  | .passBegan _ =>
    some (some { v with due := v.empty && !(v.woken || v.slept), woken := false, slept := false })
  | .passEnded _ num =>
    if num = 0 ∧ v.due = true then none else some (some { v with empty := decide (num = 0) })
  | .woken _ => some (some { v with woken := true })
  | .suspended _ => if v.woken = true then none else some (some { v with slept := true })
  | .expired _ tick => some (some { v with
      expired := v.expired || decide (0 < v.msec ∧ rtTickPerSecond * v.msec ≤ 1000 * tick) })
  | .returned _ num => if num = 0 ∧ v.expired = false then none else some none

/-- What is known of all threads after an event. -/
def watch {Tid : Type} [DecidableEq Tid] (m : Tid → Option PollView) (e : PollEvent Tid) :
    Option (Tid → Option PollView) :=
  match m e.thread, e with
  | none, .called t msec => some (Function.update m t (some (.first msec)))
  | some v, e => (v.watch e).map fun o => Function.update m e.thread o
  | none, _ => none

namespace PollSys

variable {Tid Dev Q : Type} [DecidableEq Tid] [DecidableEq Dev] [DecidableEq Q]
  {queues : Dev → List Q} {s s' : PollSys Tid Dev Q} {a : PollAction Tid Dev Q} {t u : Tid}
  {c c' : PollCall Dev Q} {v v' : PollView} {m : Tid → Option PollView}
  {tr out : List (PollEvent Tid)} {blocked memory : Bool} {timer : Option ℤ}

/-- **No wake-up is lost, and no pass is for nothing**: the history is as a caller relies on, and no
thread is suspended that has been woken since its last pass began. -/
def PollRight (tr : List (PollEvent Tid)) (s : PollSys Tid Dev Q) : Prop :=
  ∃ m, tr.foldlM watch (fun _ => none) = some m ∧
    ∀ t, ∀ v ∈ m t, v.woken = true → s.blocked t = false

/-! ### The invariant -/

/-- What holds of a call at its place. -/
def Place (c : PollCall Dev Q) (v : PollView) (blocked : Bool) : PollPc Dev Q → Prop
  | .scanning _ | .adding _ _ _ _ => v.due = false ∧
      (c.triggered = true → c.triggeredBefore = true ∨ c.woken = true)
  | .waiting => c.istimeout = false ∧ (c.triggered = true → c.woken = true)
  | .waited => c.istimeout = false ∧ v.slept = true ∧
      (blocked = false → c.triggered = false → v.expired = true)
  | .tearing => c.num = 0 → v.expired = true

/-- A call is as what is known of it. -/
structure CallOk (blocked : Bool) (timer : Option ℤ) (c : PollCall Dev Q) (v : PollView) : Prop where
  msec : v.msec = c.msec
  bound : rtTickPerSecond * c.msec + 999 < 2 ^ 31
  woken : v.woken = c.woken
  triggered : c.woken = true → c.triggered = true
  expired : c.istimeout = true → v.expired = true
  nonzero : c.istimeout = false → c.msec ≠ 0
  suspended : blocked = true → c.triggered = false ∧ c.pc = .waited
  timer : ∀ tick ∈ timer, blocked = true ∧ 0 < c.msec ∧ rtTickPerSecond * c.msec ≤ 1000 * tick
  place : Place c v blocked c.pc

/-- A thread is in a call that is as what is known of it, or in none. -/
def Agrees (blocked : Bool) (timer : Option ℤ) : Option (PollCall Dev Q) → Option PollView → Prop
  | none, none => blocked = false ∧ timer = none
  | some c, some v => CallOk blocked timer c v
  | _, _ => False

/-- All threads are as what is known of them, and every node is one of a call. -/
structure Inv (s : PollSys Tid Dev Q) (m : Tid → Option PollView) : Prop where
  calls : ∀ t, Agrees (s.blocked t) (s.timer t) (s.call t) (m t)
  nodes : ∀ q, ∀ n ∈ s.queue q, (s.call n.thread).isSome = true

theorem Inv.callOk (hs : Inv s m) (hc : s.call t = some c) :
    ∃ v, m t = some v ∧ CallOk (s.blocked t) (s.timer t) c v := by
  have hcall := hs.calls t
  rw [hc] at hcall
  cases hv : m t with
  | none => rw [hv] at hcall; exact hcall.elim
  | some v => rw [hv] at hcall; exact ⟨v, rfl, hcall⟩

theorem Inv.update (hs : Inv s m) (o : Option PollView)
    (hother : ∀ u ≠ t, s'.blocked u = s.blocked u ∧ s'.timer u = s.timer u ∧ s'.call u = s.call u)
    (hself : Agrees (s'.blocked t) (s'.timer t) (s'.call t) o)
    (hnodes : ∀ q, ∀ n ∈ s'.queue q, (s'.call n.thread).isSome = true) :
    Inv s' (Function.update m t o) := by
  refine ⟨fun u => ?_, hnodes⟩
  by_cases hut : u = t
  · subst hut
    rwa [update_self]
  · obtain ⟨hblocked, htimer, hcall⟩ := hother u hut
    rw [update_of_ne hut, hblocked, htimer, hcall]
    exact hs.calls u

theorem Inv.nodes_setCall (hs : Inv s m) (c : PollCall Dev Q) (q : Q) :
    ∀ n ∈ s.queue q, ((s.setCall t c).call n.thread).isSome = true := by
  intro n hn
  by_cases hnt : n.thread = t
  · simp [setCall, hnt]
  · simp only [setCall, update_of_ne hnt]
    exact hs.nodes q n hn

/-! ### Steps -/

/-- The history goes on, and the threads stay as what is known of them. -/
def Advances (m : Tid → Option PollView) (s' : PollSys Tid Dev Q) (out : List (PollEvent Tid)) :
    Prop :=
  ∃ m', out.foldlM watch m = some m' ∧ Inv s' m'

theorem watch_of_view {e : PollEvent Tid} {o : Option PollView} (hv : m e.thread = some v)
    (h : v.watch e = some o) : watch m e = some (Function.update m e.thread o) := by
  cases e <;> simp only [watch, hv, h, map_some]

theorem Inv.quiet (hs : Inv s m) (hv : m t = some v) {c' : PollCall Dev Q}
    (hok : CallOk (s.blocked t) (s.timer t) c' v) : Advances m (s.setCall t c') [] := by
  refine ⟨m, rfl, ?_⟩
  have hself : Agrees ((s.setCall t c').blocked t) ((s.setCall t c').timer t)
      ((s.setCall t c').call t) (some v) := by simpa [setCall, Agrees] using hok
  have hnow : Inv (s.setCall t c') (Function.update m t (some v)) :=
    hs.update (some v) (fun u hut => ⟨rfl, rfl, by simp [setCall, hut]⟩) hself (hs.nodes_setCall c')
  rwa [← hv, update_eq_self] at hnow

theorem Inv.shows (hs : Inv s m) {e : PollEvent Tid} (he : e.thread = t) (hv : m t = some v)
    (hwatch : v.watch e = some (some v')) {c' : PollCall Dev Q}
    (hok : CallOk (s.blocked t) (s.timer t) c' v') : Advances m (s.setCall t c') [e] := by
  subst he
  refine ⟨Function.update m e.thread (some v'), ?_, ?_⟩
  · simp only [foldlM_cons, foldlM_nil, watch_of_view hv hwatch]
    rfl
  · exact hs.update (some v') (fun u hut => ⟨rfl, rfl, by simp [setCall, hut]⟩)
      (by simpa [setCall, Agrees] using hok) (hs.nodes_setCall c')

theorem rtTickFromMillisecond_of_pos {ms : ℤ} (hpos : 0 < ms)
    (hbound : rtTickPerSecond * ms + 999 < 2 ^ 31) :
    0 < rtTickFromMillisecond ms ∧ rtTickPerSecond * ms ≤ 1000 * rtTickFromMillisecond ms := by
  unfold rtTickPerSecond at *
  have hbmod : (100 * ms + 999).bmod (2 ^ 32) = 100 * ms + 999 := by
    rw [Int.bmod_eq_iff (by decide)]
    refine ⟨?_, ?_, ⟨0, by ring⟩⟩
    · norm_num
      omega
    · norm_num at hbound ⊢
      omega
  rw [rtTickFromMillisecond, if_neg (by omega), rtTickPerSecond, hbmod,
    Int.tdiv_eq_ediv_of_nonneg (by omega)]
  omega

theorem rtTickFromMillisecond_ne {ms : ℤ} (hne : ms ≠ 0)
    (hbound : rtTickPerSecond * ms + 999 < 2 ^ 31) : rtTickFromMillisecond ms ≠ 0 := by
  by_cases hneg : ms < 0
  · rw [rtTickFromMillisecond, if_pos hneg]
    decide
  · have hpos := (rtTickFromMillisecond_of_pos (by omega) hbound).1
    omega

theorem CallOk.endFd (h : CallOk false timer c v) (hplace : Place c v false (.scanning []))
    (mask : PollMask) (rest : List (PollFd Dev)) : CallOk false timer (c.endFd mask rest) v :=
  ⟨h.msec, h.bound, h.woken, h.triggered, h.expired, h.nonzero, nofun, h.timer, hplace⟩

theorem CallOk.adding {fd : PollFd Dev} {d : Dev} {qs : List Q} {rest : List (PollFd Dev)}
    (h : CallOk false timer c v) (hplace : Place c v false (.scanning [])) :
    CallOk false timer { c with pc := .adding fd d qs rest } v :=
  ⟨h.msec, h.bound, h.woken, h.triggered, h.expired, h.nonzero, nofun, h.timer, hplace⟩

theorem CallOk.endWait (h : CallOk false timer c v) (hdue : v.woken = true ∨ v.slept = true)
    (hexpired : c.triggered = false → v.expired = true) :
    CallOk false timer c.endWait
      { v with due := v.empty && !(v.woken || v.slept), woken := false, slept := false } := by
  refine ⟨h.msec, h.bound, rfl, nofun, fun hout => ?_, fun hout => ?_, nofun, h.timer, ?_, .inl⟩
  · simp only [PollCall.endWait, PollCall.beginPass, Bool.or_eq_true, Bool.not_eq_true'] at hout
    exact hout.elim h.expired hexpired
  · simp only [PollCall.endWait, PollCall.beginPass, Bool.or_eq_false_iff] at hout
    exact h.nonzero hout.1
  · rcases hdue with hdue | hdue <;> simp [hdue]

theorem Inv.pollAdd (hs : Inv s m) (hc : s.call t = some c) (q : Q) (fd : PollFd Dev) :
    Inv (s.pollAdd t q fd memory) m := by
  unfold PollSys.pollAdd
  split
  · refine ⟨hs.calls, fun q' n hn => ?_⟩
    by_cases hq : q' = q
    · subst hq
      simp only [update_self, mem_append, mem_singleton] at hn
      rcases hn with hn | rfl
      · exact hs.nodes q' n hn
      · simp [hc]
    · simp only [update_of_ne hq] at hn
      exact hs.nodes q' n hn
  · exact hs

theorem Inv.teardown (hs : Inv s m) (hv : m t = some v) {num : ℕ} (hblocked : s.blocked t = false)
    (htimer : s.timer t = none) (hexpired : num = 0 → v.expired = true) :
    Advances m (s.pollTeardown t) [.returned t num] := by
  have hwatch : v.watch (.returned t num) = some none := by
    rw [PollView.watch, if_neg]
    rintro ⟨hzero, hnot⟩
    simp [hexpired hzero] at hnot
  refine ⟨Function.update m t none, ?_, ?_⟩
  · simp only [foldlM_cons, foldlM_nil, watch_of_view hv hwatch]
    rfl
  · refine hs.update none (fun u hut => ⟨rfl, rfl, by simp [pollTeardown, hut]⟩) ?_ fun q n hn => ?_
    · simp [pollTeardown, Agrees, hblocked, htimer]
    · obtain ⟨hn, hnt⟩ := mem_filter.1 hn
      have hne : n.thread ≠ t := by simpa using hnt
      simp only [pollTeardown, update_of_ne hne]
      exact hs.nodes q n hn

theorem Inv.go (hs : Inv s m) (hc : s.call t = some c) (hblocked : s.blocked t = false)
    (hsteady : SteadyAt c c.pc) :
    Advances m (s.goAt queues t memory c c.pc).1 (s.goAt queues t memory c c.pc).2 := by
  obtain ⟨v, hv, hok⟩ := hs.callOk hc
  have htimer : s.timer t = none := by
    cases htimer : s.timer t with
    | none => rfl
    | some tick =>
      have hsusp := (hok.timer tick htimer).1
      rw [hblocked] at hsusp
      cases hsusp
  rw [hblocked] at hok
  have hplace := hok.place
  have hquiet : ∀ {c'}, CallOk false (s.timer t) c' v → Advances m (s.setCall t c') [] :=
    fun hok' => hs.quiet hv (by rwa [hblocked])
  generalize hpc : c.pc = pc at hsteady hplace
  cases pc with
  | scanning rest =>
    cases rest with
    | nil =>
      obtain ⟨hdue, htriggered⟩ := hplace
      have hwatch : v.watch (.passEnded t c.num) =
          some (some { v with empty := decide (c.num = 0) }) := by
        rw [PollView.watch, if_neg]
        simp [hdue]
      refine hs.shows (t := t) rfl hv hwatch ?_
      rw [hblocked]
      refine ⟨hok.msec, hok.bound, hok.woken, hok.triggered, hok.expired, hok.nonzero, nofun,
        hok.timer, ?_⟩
      by_cases hend : c.num ≠ 0 ∨ c.istimeout = true
      · simp only [if_pos hend]
        exact fun hzero => hok.expired (hend.resolve_left fun hne => hne hzero)
      · simp only [if_neg hend]
        rw [not_or, not_not, Bool.not_eq_true] at hend
        exact ⟨hend.2, fun htrig => (htriggered htrig).elim (hsteady hend.1 hend.2) id⟩
    | cons fd rest =>
      simp only [goAt]
      cases fd.target with
      | negative => exact hquiet (hok.endFd hplace _ _)
      | invalid => exact hquiet (hok.endFd hplace _ _)
      | plain => exact hquiet (hok.endFd hplace _ _)
      | device d => exact hquiet (hok.adding hplace)
  | adding fd d qs rest =>
    cases qs with
    | nil => exact hquiet (hok.endFd hplace _ _)
    | cons q qs =>
      simp only [goAt]
      split
      · have hs' : Inv (s.pollAdd t q fd memory) m := hs.pollAdd hc q fd
        have hsame : (s.pollAdd t q fd memory).blocked = s.blocked ∧
            (s.pollAdd t q fd memory).timer = s.timer := by
          unfold PollSys.pollAdd
          split <;> exact ⟨rfl, rfl⟩
        refine hs'.quiet hv ?_
        rw [hsame.1, hsame.2, hblocked]
        exact hok.adding hplace
      · exact hquiet (hok.adding hplace)
  | waiting =>
    obtain ⟨htimeout, htriggered⟩ := hplace
    have hne := hok.nonzero htimeout
    have htick := rtTickFromMillisecond_ne hne hok.bound
    simp only [goAt]
    split
    · next hwait =>
      -- the thread is suspended
      have hnot : v.woken = false := by
        rw [hok.woken]
        by_contra hwoken
        have htrig := hok.triggered (by simpa using hwoken)
        rw [hwait.2] at htrig
        cases htrig
      have hwatch : v.watch (.suspended t) = some (some { v with slept := true }) := by
        simp [PollView.watch, hnot]
      refine ⟨Function.update m t (some { v with slept := true }), ?_, ?_⟩
      · simp only [foldlM_cons, foldlM_nil, watch_of_view hv hwatch]
        rfl
      · refine hs.update _ (fun u hut => ⟨by simp [hut], by simp [hut], by simp [setCall, hut]⟩) ?_
          (hs.nodes_setCall _)
        simp only [setCall, update_self]
        refine ⟨hok.msec, hok.bound, hok.woken, hok.triggered, hok.expired, hok.nonzero,
          fun _ => ⟨hwait.2, rfl⟩, fun tick htick' => ?_, htimeout, rfl, nofun⟩
        split at htick'
        · next hpos =>
          cases htick'
          have hms : 0 < c.msec := by
            by_contra hneg
            rw [rtTickFromMillisecond, if_pos (by omega)] at hpos
            exact absurd hpos (by decide)
          exact ⟨rfl, hms, (rtTickFromMillisecond_of_pos hms hok.bound).2⟩
        · cases htick'
    · next hwait =>
      have htrig : c.triggered = true := by
        by_contra htrig
        exact hwait ⟨htick, by simpa using htrig⟩
      refine hs.shows (t := t) (e := .passBegan t) rfl hv rfl ?_
      rw [hblocked]
      refine hok.endWait (.inl (hok.woken.trans (htriggered htrig))) fun hfalse => ?_
      rw [htrig] at hfalse
      cases hfalse
  | waited =>
    obtain ⟨htimeout, hslept, hexpired⟩ := hplace
    refine hs.shows (t := t) (e := .passBegan t) rfl hv rfl ?_
    rw [hblocked]
    exact hok.endWait (.inr hslept) (hexpired rfl)
  | tearing => exact hs.teardown hv hblocked htimer hplace

theorem Inv.wakeup (hs : Inv s m) (q : Q) (key : PollMask) :
    Advances m (s.rtWqueueWakeup q key).1 (s.rtWqueueWakeup q key).2 := by
  unfold rtWqueueWakeup
  split
  · exact ⟨m, rfl, hs⟩
  · next n hfind =>
    obtain ⟨c, hc⟩ := isSome_iff_exists.1 (hs.nodes q n (mem_of_find?_eq_some hfind))
    obtain ⟨v, hv, hok⟩ := hs.callOk hc
    have hwatch : v.watch (.woken n.thread) = some (some { v with woken := true }) := rfl
    refine ⟨Function.update m n.thread (some { v with woken := true }), ?_, ?_⟩
    · simp only [foldlM_cons, foldlM_nil, watch_of_view hv hwatch]
      rfl
    · refine hs.update _ (fun u hut => ⟨by simp [hut], by simp [hut], by simp [hut]⟩)
        ?_ fun q' n' hn' => ?_
      · simp only [update_self, hc, map_some]
        refine ⟨hok.msec, hok.bound, rfl, fun _ => rfl, hok.expired, hok.nonzero, nofun, nofun, ?_⟩
        have hplace := hok.place
        show Place _ _ _ c.pc
        generalize c.pc = pc at hplace
        cases pc with
        | scanning rest | adding fd d qs rest => exact ⟨hplace.1, fun _ => .inr rfl⟩
        | waiting => exact ⟨hplace.1, fun _ => rfl⟩
        | waited => exact ⟨hplace.1, hplace.2.1, nofun⟩
        | tearing => exact hplace
      · have hmem : n' ∈ s.queue q' := by
          by_cases hq : q' = q
          · subst hq
            simp only [update_self] at hn'
            exact mem_of_mem_eraseP hn'
          · simpa only [update_of_ne hq] using hn'
        have hsome := hs.nodes q' n' hmem
        by_cases hnn : n'.thread = n.thread
        · simp [hnn, hc]
        · simpa [hnn] using hsome

theorem Inv.timeout (hs : Inv s m) {tick : ℤ} (ht : s.timer t = some tick) :
    Advances m { s with
      blocked := Function.update s.blocked t false
      timer := Function.update s.timer t none } [.expired t tick] := by
  cases hc : s.call t with
  | none =>
    have hcall := hs.calls t
    rw [hc] at hcall
    cases hv : m t with
    | none =>
      rw [hv] at hcall
      rw [hcall.2] at ht
      cases ht
    | some v =>
      rw [hv] at hcall
      exact hcall.elim
  | some c =>
    obtain ⟨v, hv, hok⟩ := hs.callOk hc
    obtain ⟨hblocked, hpos, htick⟩ := hok.timer tick ht
    obtain ⟨htriggered, hpc⟩ := hok.suspended hblocked
    have hwatch : v.watch (.expired t tick) = some (some { v with expired := true }) := by
      simp [PollView.watch, hok.msec, hpos, htick]
    refine ⟨Function.update m t (some { v with expired := true }), ?_, ?_⟩
    · simp only [foldlM_cons, foldlM_nil, watch_of_view hv hwatch]
      rfl
    · refine hs.update _ (fun u hut => ⟨by simp [hut], by simp [hut], rfl⟩) ?_ hs.nodes
      have hplace := hok.place
      rw [hpc] at hplace
      simp only [update_self, hc]
      refine ⟨hok.msec, hok.bound, hok.woken, hok.triggered, fun _ => rfl, hok.nonzero, nofun, nofun,
        ?_⟩
      rw [hpc]
      exact ⟨hplace.1, hplace.2.1, fun _ _ => rfl⟩

/-- **A step keeps the history right**, if what has been woken for is still there. -/
theorem Inv.step (hs : Inv s m) (hsteady : Steady s a) (h : s.step queues a = some (s', out)) :
    Advances m s' out := by
  cases a with
  | poll t fds msec =>
    simp only [PollSys.step, ite_none_right_eq_some] at h
    obtain ⟨hc, h⟩ := h
    cases h
    have hcall := hs.calls t
    rw [hc] at hcall
    cases hv : m t with
    | some v =>
      rw [hv] at hcall
      exact hcall.elim
    | none =>
      rw [hv] at hcall
      have hcalled : watch m (.called t msec) =
          some (Function.update m t (some (.first msec))) := by
        simp only [watch, PollEvent.thread, hv]
      have hview : Function.update m t (some (PollView.first msec)) t = some (.first msec) :=
        update_self ..
      have hpass : watch (Function.update m t (some (.first msec))) (.passBegan t) =
          some (Function.update m t (some (.first msec))) :=
        (watch_of_view (e := .passBegan t) hview rfl).trans (congrArg some (update_idem ..))
      refine ⟨_, ?_, hs.update (t := t) (some (.first msec)) (fun u hut => ?_) ?_ ?_⟩
      · simp only [foldlM_cons, foldlM_nil, hcalled, hpass, bind_eq_bind,
          bind_some]
        rfl
      · exact ⟨rfl, rfl, by simp [setCall, hut]⟩
      · simp only [setCall, update_self, hcall.1, hcall.2]
        exact ⟨rfl, hsteady, rfl, nofun, fun h => h, fun h => by simpa using h, nofun, nofun, rfl,
          nofun⟩
      · exact hs.nodes_setCall _
  | go t memory =>
    simp only [PollSys.step, ite_none_left_eq_some, Bool.not_eq_true] at h
    obtain ⟨hblocked, h⟩ := h
    obtain ⟨c, hc, heq⟩ := map_eq_some_iff.1 h
    have hgo : Advances m (s.goAt queues t memory c c.pc).1 (s.goAt queues t memory c c.pc).2 :=
      hs.go hc hblocked (hsteady c hc)
    rwa [heq] at hgo
  | change d mask =>
    cases h
    exact ⟨m, rfl, hs.calls, hs.nodes⟩
  | wakeup q key =>
    have hwake := hs.wakeup q key
    rwa [some.inj h] at hwake
  | timeout t =>
    obtain ⟨tick, ht, heq⟩ := map_eq_some_iff.1 h
    cases heq
    exact hs.timeout ht

/-- **No wake-up is lost, and no pass is for nothing**, in every run in which a pass that begins when
`triggered` is set finds something ready, or is the last one, or a node is woken again. -/
theorem run_pollRight (queues : Dev → List Q) {s : PollSys Tid Dev Q} {tr : List (PollEvent Tid)}
    (h : Run (step queues) Steady boot tr s) : PollRight tr s := by
  have hinv : ∃ m, tr.foldlM watch (fun _ => none) = some m ∧ Inv s m := by
    refine h.invariant (fun tr s => ∃ m, tr.foldlM watch (fun _ => none) = some m ∧ Inv s m)
      ⟨_, rfl, fun _ => ⟨rfl, rfl⟩, nofun⟩ ?_
    rintro tr s a s' out ⟨m, hm, hs⟩ hsteady hstep
    obtain ⟨m', hm', hs'⟩ := hs.step hsteady hstep
    exact ⟨m', by rw [foldlM_append, hm]; exact hm', hs'⟩
  obtain ⟨m, hm, hs⟩ := hinv
  refine ⟨m, hm, fun t v hv hwoken => ?_⟩
  have hcall := hs.calls t
  rw [mem_def.1 hv] at hcall
  cases hc : s.call t with
  | none =>
    rw [hc] at hcall
    exact hcall.elim
  | some c =>
    rw [hc] at hcall
    have hcall : CallOk (s.blocked t) (s.timer t) c v := hcall
    by_contra hblocked
    have htriggered := (hcall.suspended (by simpa using hblocked)).1
    rw [hcall.triggered (by rw [← hcall.woken, hwoken])] at htriggered
    cases htriggered

instance (c : PollCall Dev Q) (pc : PollPc Dev Q) : Decidable (SteadyAt c pc) := by
  cases pc with
  | scanning rest => cases rest <;> dsimp only [SteadyAt] <;> infer_instance
  | _ => exact isTrue trivial

instance (s : PollSys Tid Dev Q) (a : PollAction Tid Dev Q) : Decidable (Steady s a) := by
  cases a <;> dsimp only [Steady] <;> infer_instance

/-- A thread polls a device for input, and is suspended. -/
def pollInput : List (PollAction Bool Unit Unit) :=
  .poll true [⟨.device (), 0x01⟩] 500 :: List.replicate 5 (.go true true)

/-- The input comes, and `poll` returns. -/
theorem pollRight_input : ∃ (s : PollSys Bool Unit Unit) (tr : List (PollEvent Bool)),
    PollRight tr s ∧ s.call true = none ∧ tr.length = 8 := by
  have hrun : Run (step fun _ => [()]) Steady (boot : PollSys Bool Unit Unit) _ _ :=
    Run.of_exec (rfl : exec (step fun _ => [()]) Steady (boot : PollSys Bool Unit Unit)
      (pollInput ++ [.change () 0x01, .wakeup () 0x01] ++ replicate 6 (.go true true)) =
        some (_, _))
  exact ⟨_, _, run_pollRight _ hrun, rfl, rfl⟩

/-- The input has been taken by another thread when the woken one looks for it, again and again. -/
theorem not_pollRight : ¬ ∀ (s : PollSys Bool Unit Unit) (tr : List (PollEvent Bool)),
    Run (step fun _ => [()]) (fun _ _ => True) boot tr s → PollRight tr s := by
  intro hall
  have hrun : Run (step fun _ => [()]) (fun _ _ => True) (boot : PollSys Bool Unit Unit) _ _ :=
    Run.of_exec (rfl : exec (step fun _ => [()]) (fun _ _ => True)
      (boot : PollSys Bool Unit Unit)
      (pollInput ++ [.wakeup () 0x01] ++ replicate 10 (.go true true)) = some (_, _))
  obtain ⟨m, hm, -⟩ := hall _ _ hrun
  exact some_ne_none m (hm.symm.trans rfl)

end PollSys

end RtThread
