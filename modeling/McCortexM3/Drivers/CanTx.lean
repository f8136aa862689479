import McCortexM3.Run
import Mathlib.Data.List.Nodup
import Mathlib.Data.List.Perm.Subperm
import Mathlib.Data.List.Range

/-!
# Sending over CAN

`_can_int_tx` and the `TX_DONE` and `TX_FAIL` parts of `rt_hw_can_isr` of `can.c`, by
interrupt-disabled sections, with the sections of the semaphore and of the completions that they
use.  A writer takes a unit of the semaphore, then a box of the free list; it hands its message to
the device, waits for the completion of the box, puts the box back and gives the unit back.

The value of a semaphore has 16 bits, but `rt_sem_init` takes one of 32 bits.

## Main definitions

* `Reports` — the device reports the messages that it has been handed.
* `canSends` — what the writers owe their callers, as a monitor of the events.

## Main results

* `CanTx.run_sendsOwn_iff` — boxes and units stay in step, and every writer returns what was
  reported of its own messages, if and only if the number of boxes fits a semaphore.
-/

set_option linter.all false

namespace RtThread

open Function Option List Nat
open BitVec (eq_of_toNat_eq ofNat toNat_ofNat toNat_sub)

/-- `RT_CAN_SND_RESULT_OK`, `RT_CAN_SND_RESULT_ERR` and `RT_CAN_SND_RESULT_WAIT`. -/
inductive SndResult
  | ok
  | err
  | wait
  deriving DecidableEq

/-- A `struct rt_can_sndbxinx_list` with the flag and the suspended list of its completion, and
whether the device has a message of it that it has not reported. -/
structure SndBox (Tid : Type) where
  result : SndResult
  completed : Bool
  suspendedList : List Tid
  transmitting : Bool

/-- The variables of `_can_int_tx`: `size` and `msgs`, and the index of the message `*data`. -/
structure CanWrite where
  size : BitVec 32
  msgs : BitVec 32
  data : ℕ
  deriving DecidableEq

/-- Where a writer is: in no `rt_can_write`, before its `rt_sem_take`, in the list of the semaphore,
before the section that takes a box, before `sendmsg`, before the sections that give the box and the
unit back when this has failed, before `rt_completion_wait`, in the list of the completion, before
the section at the end of `rt_completion_wait`, before the section that reads the result, and before
the `rt_sem_release` that follows. -/
inductive CanPc
  | outside
  | taking (w : CanWrite)
  | suspended (w : CanWrite)
  | granted (w : CanWrite)
  | sending (w : CanWrite) (no : ℕ)
  | returning (w : CanWrite) (no : ℕ)
  | retrying (w : CanWrite)
  | waiting (w : CanWrite) (no : ℕ)
  | blocked (w : CanWrite) (no : ℕ)
  | woken (w : CanWrite) (no : ℕ)
  | collecting (w : CanWrite) (no : ℕ)
  | releasing (w : CanWrite) (result : SndResult)
  deriving DecidableEq

/-- What an observer sees: a message that `sendmsg` hands to the device in a box, a report of the
device, and what a write returns. -/
inductive CanEvent (Tid : Type)
  | sent (t : Tid) (data no : ℕ)
  | reported (no : ℕ) (done : Bool)
  | returned (t : Tid) (size bytes : BitVec 32)
  deriving DecidableEq

/-- What can happen next: a thread writes, a writer goes on (`sendOk` says whether `sendmsg`
succeeds), and the interrupt of a box. -/
inductive CanAction (Tid : Type)
  | write (t : Tid) (size : BitVec 32)
  | go (t : Tid) (sendOk : Bool)
  | isr (no : ℕ) (done : Bool)

/-- A `struct rt_can_tx_fifo`: the semaphore's value and its suspended list, the free list and the
boxes; and the writers. -/
structure CanTx (Tid : Type) where
  value : ℕ
  waiters : List Tid
  freelist : List ℕ
  box : ℕ → SndBox Tid
  pc : Tid → CanPc

/-- `sizeof(struct rt_can_msg)`. -/
def canMsgSize : ℕ := 16

namespace CanTx

variable {Tid : Type} [DecidableEq Tid]

/-- The place of the writer becomes `pc`. -/
def goto (s : CanTx Tid) (t : Tid) (pc : CanPc) : CanTx Tid :=
  { s with pc := Function.update s.pc t pc }

/-- The box becomes `b`. -/
def setBox (s : CanTx Tid) (no : ℕ) (b : SndBox Tid) : CanTx Tid :=
  { s with box := Function.update s.box no b }

/-- The place of a thread that has been resumed from the list that it is in. -/
def resumed : CanPc → CanPc
  | .suspended w => .granted w
  | .blocked w no => .woken w no
  | pc => pc

/-- The section of `rt_sem_take`. -/
def rtSemTake (s : CanTx Tid) (t : Tid) (w : CanWrite) : CanTx Tid :=
  if s.value > 0 then ({ s with value := s.value - 1 }).goto t (.granted w)
  else ({ s with waiters := s.waiters ++ [t] }).goto t (.suspended w)

/-- The section of `rt_sem_release`. -/
def rtSemRelease (s : CanTx Tid) : CanTx Tid :=
  match s.waiters with
  | u :: rest => ({ s with waiters := rest }).goto u (resumed (s.pc u))
  | [] => { s with value := (s.value + 1) % 2 ^ 16 }

/-- The section that takes a box; there is none to take when the free list is empty. -/
def takeBox (s : CanTx Tid) (t : Tid) (w : CanWrite) : Option (CanTx Tid) :=
  match s.freelist with
  | no :: rest => some (({ s with freelist := rest }).goto t (.sending w no))
  | [] => none

/-- `sendmsg`, after the result has been set to `RT_CAN_SND_RESULT_WAIT`. -/
def sendmsg (s : CanTx Tid) (t : Tid) (w : CanWrite) (no : ℕ) (sendOk : Bool) :
    CanTx Tid × List (CanEvent Tid) :=
  let b := { s.box no with result := .wait }
  if sendOk = true then
    ((s.setBox no { b with transmitting := true }).goto t (.waiting w no), [.sent t w.data no])
  else ((s.setBox no b).goto t (.returning w no), [])

/-- The first section of `rt_completion_wait`; `none` for a failed `RT_ASSERT`. -/
def completionWait (s : CanTx Tid) (t : Tid) (w : CanWrite) (no : ℕ) : Option (CanTx Tid) :=
  if (s.box no).completed = true then
    some ((s.setBox no { s.box no with completed := false }).goto t (.collecting w no))
  else if (s.box no).suspendedList ≠ [] then none
  else some ((s.setBox no { s.box no with suspendedList := [t] }).goto t (.blocked w no))

/-- The section that reads the result and puts the box back. -/
def collect (s : CanTx Tid) (t : Tid) (w : CanWrite) (no : ℕ) : CanTx Tid :=
  let freelist := if no ∈ s.freelist then s.freelist.erase no else s.freelist
  ({ s with freelist := freelist ++ [no] }).goto t (.releasing w (s.box no).result)

/-- The end of a round, after `rt_sem_release`. -/
def finish (s : CanTx Tid) (t : Tid) (w : CanWrite) :
    SndResult → CanTx Tid × List (CanEvent Tid)
  | .ok =>
    let w := { w with data := w.data + 1, msgs := w.msgs - ofNat 32 canMsgSize }
    if w.msgs = 0 then (s.goto t .outside, [.returned t w.size (w.size - w.msgs)])
    else (s.goto t (.taking w), [])
  | _ => (s.goto t .outside, [.returned t w.size (w.size - w.msgs)])

/-- A writer goes on. -/
def go (s : CanTx Tid) (t : Tid) (sendOk : Bool) :
    CanPc → Option (CanTx Tid × List (CanEvent Tid))
  | .outside | .suspended _ | .blocked _ _ => none
  | .taking w => some (s.rtSemTake t w, [])
  | .granted w => (s.takeBox t w).map fun s => (s, [])
  | .sending w no => some (s.sendmsg t w no sendOk)
  | .returning w no => some (({ s with freelist := no :: s.freelist }).goto t (.retrying w), [])
  | .retrying w => some (s.rtSemRelease.goto t (.taking w), [])
  | .waiting w no => (s.completionWait t w no).map fun s => (s, [])
  | .woken w no =>
    some ((s.setBox no { s.box no with completed := false }).goto t (.collecting w no), [])
  | .collecting w no => some (s.collect t w no, [])
  | .releasing w result => some (s.rtSemRelease.finish t w result)

/-- `rt_completion_done`. -/
def completionDone (s : CanTx Tid) (no : ℕ) : CanTx Tid :=
  if (s.box no).completed = true then s
  else
    match (s.box no).suspendedList with
    | u :: rest =>
      (s.setBox no { s.box no with completed := true, suspendedList := rest }).goto u
        (resumed (s.pc u))
    | [] => s.setBox no { s.box no with completed := true }

/-- `rt_hw_can_isr` with `RT_CAN_EVENT_TX_DONE` or `RT_CAN_EVENT_TX_FAIL`. -/
def hwCanIsr (s : CanTx Tid) (no : ℕ) (done : Bool) : CanTx Tid :=
  (s.setBox no { s.box no with
    result := if done = true then .ok else .err, transmitting := false }).completionDone no

/-- One step of an interleaving. -/
def step (s : CanTx Tid) : CanAction Tid → Option (CanTx Tid × List (CanEvent Tid))
  | .write t size =>
    if s.pc t = .outside then
      if size = 0 then some (s, [.returned t 0 0])
      else some (s.goto t (.taking ⟨size, size, 0⟩), [])
    else none
  | .go t sendOk => s.go t sendOk (s.pc t)
  | .isr no done => some (s.hwCanIsr no done, [.reported no done])

/-- The device reports the messages that it has been handed, each of them once. -/
def Reports (s : CanTx Tid) : CanAction Tid → Prop
  | .isr no _ => (s.box no).transmitting = true
  | _ => True

instance (s : CanTx Tid) (a : CanAction Tid) : Decidable (Reports s a) := by
  cases a <;> dsimp only [Reports] <;> infer_instance

/-- `rt_can_open` with `sndboxnumber` boxes: `rt_sem_init` stores the value in 16 bits. -/
def boot (sndboxnumber : ℕ) : CanTx Tid where
  value := sndboxnumber % 2 ^ 16
  waiters := []
  freelist := List.range sndboxnumber
  box := fun _ => ⟨.ok, false, [], false⟩
  pc := fun _ => .outside

end CanTx

/-! ### What the writers owe their callers -/

/-- The writer whose message is in a box, how many messages of its write have been reported done,
and whether one has been reported failed. -/
structure CanBooks (Tid : Type) where
  inBox : ℕ → Option Tid
  done : Tid → ℕ
  failed : Tid → Bool

/-- Before the first event. -/
def CanBooks.empty {Tid : Type} : CanBooks Tid := ⟨fun _ => none, fun _ => 0, fun _ => false⟩

/-- What a write returns: the bytes of the messages that have been reported done (modulo `2 ^ 32`
when its size is not that of messages), which are all of them unless one has failed. -/
def CanReturns (done : ℕ) (failed : Bool) (size bytes : BitVec 32) : Prop :=
  bytes = ofNat 32 (canMsgSize * done) ∧
    (canMsgSize ∣ size.toNat → bytes.toNat = canMsgSize * done) ∧ (failed = true ∨ bytes = size)

instance (done : ℕ) (failed : Bool) (size bytes : BitVec 32) :
    Decidable (CanReturns done failed size bytes) :=
  inferInstanceAs (Decidable (_ ∧ _ ∧ _))

/-- A box gets a message only when it has none, and this is the first message of its write that has
not been reported; a report is about the message in the box; and a write returns what has been
reported of its own messages. -/
def canSends {Tid : Type} [DecidableEq Tid] (m : CanBooks Tid) :
    CanEvent Tid → Option (CanBooks Tid)
  | .sent t data no =>
    if m.inBox no = none ∧ data = m.done t ∧ m.failed t = false then
      some { m with inBox := Function.update m.inBox no (some t) }
    else none
  | .reported no done =>
    match m.inBox no with
    | some t =>
      let m := { m with inBox := Function.update m.inBox no none }
      if done = true then some { m with done := Function.update m.done t (m.done t + 1) }
      else some { m with failed := Function.update m.failed t true }
    | none => none
  | .returned t size bytes =>
    if CanReturns (m.done t) (m.failed t) size bytes then
      some { m with done := Function.update m.done t 0, failed := Function.update m.failed t false }
    else none

namespace CanTx

variable {Tid : Type} [DecidableEq Tid]

/-- The box that a writer at this place has taken. -/
def boxOf : CanPc → Option ℕ
  | .sending _ no | .returning _ no | .waiting _ no | .blocked _ no | .woken _ no
  | .collecting _ no => some no
  | _ => none

/-- A writer at this place is between its semaphore and its list operations: it has a unit and no
box. -/
def HasUnit : CanPc → Prop
  | .granted _ | .retrying _ | .releasing _ _ => True
  | _ => False

/-- A writer at this place is in the list of the semaphore. -/
def IsSuspended : CanPc → Prop
  | .suspended _ => True
  | _ => False

/-- The boxes that are not in the free list. -/
def busy (n : ℕ) (s : CanTx Tid) : List ℕ := (List.range n).filter (· ∉ s.freelist)

/-- A box has one owner at most, the value of the semaphore and the boxes that are not in the free
list are as many as there are boxes when no writer is between its operations, a writer with a unit
finds a box, and every write returns what was reported of its own messages. -/
def SendsOwn (n : ℕ) (tr : List (CanEvent Tid)) (s : CanTx Tid) : Prop :=
  (∀ t t' no, boxOf (s.pc t) = some no → boxOf (s.pc t') = some no → t = t') ∧
    ((∀ t, ¬ HasUnit (s.pc t)) → s.value + (s.busy n).length = n) ∧
    (∀ t w, s.pc t = .granted w → s.freelist ≠ []) ∧
    (tr.foldlM canSends CanBooks.empty).isSome

end CanTx

/-! ### The invariant -/

/-- What is in `msgs` while messages remain. -/
structure CanWrite.Sound (w : CanWrite) : Prop where
  msgs : w.msgs = w.size - ofNat 32 (canMsgSize * w.data)
  ne_zero : w.msgs ≠ 0
  lt : canMsgSize ∣ w.size.toNat → canMsgSize * w.data < w.size.toNat

namespace CanWrite

/-- The variables after a message. -/
def next (w : CanWrite) : CanWrite :=
  { w with data := w.data + 1, msgs := w.msgs - ofNat 32 canMsgSize }

variable {w : CanWrite}

theorem sound_start {size : BitVec 32} (h : size ≠ 0) : Sound ⟨size, size, 0⟩ := by
  refine ⟨by simp, h, fun _ => ?_⟩
  have hne : size.toNat ≠ 0 := fun h0 => h (eq_of_toNat_eq h0)
  dsimp only
  omega

theorem Sound.msgs_next (h : w.Sound) :
    w.next.msgs = w.size - ofNat 32 (canMsgSize * w.next.data) := by
  have hmsgs := h.msgs
  dsimp only [next, canMsgSize] at hmsgs ⊢
  rw [hmsgs]
  apply eq_of_toNat_eq
  simp only [toNat_sub, toNat_ofNat]
  omega

theorem canReturns (hmsgs : w.msgs = w.size - ofNat 32 (canMsgSize * w.data))
    (hle : canMsgSize ∣ w.size.toNat → canMsgSize * w.data ≤ w.size.toNat) {failed : Bool}
    (hfailed : failed = true ∨ w.msgs = 0) :
    CanReturns w.data failed w.size (w.size - w.msgs) := by
  have hbytes : w.size - w.msgs = ofNat 32 (canMsgSize * w.data) := by
    rw [hmsgs]
    apply eq_of_toNat_eq
    simp only [toNat_sub, toNat_ofNat]
    omega
  refine ⟨hbytes, fun hdvd => ?_, hfailed.imp id fun h0 => ?_⟩
  · rw [hbytes, toNat_ofNat, mod_eq_of_lt]
    exact Nat.lt_of_le_of_lt (hle hdvd) w.size.isLt
  · rw [h0]
    simp

theorem Sound.next_le (h : w.Sound) (hdvd : canMsgSize ∣ w.size.toNat) :
    canMsgSize * w.next.data ≤ w.size.toNat := by
  obtain ⟨k, hk⟩ := hdvd
  have hlt := h.lt ⟨k, hk⟩
  dsimp only [next, canMsgSize] at *
  omega

theorem Sound.next (h : w.Sound) (hne : w.next.msgs ≠ 0) : w.next.Sound := by
  refine ⟨h.msgs_next, hne, fun hdvd => ?_⟩
  refine Nat.lt_of_le_of_ne (h.next_le hdvd) fun heq => hne ?_
  have hmsgs := h.msgs_next
  rw [heq] at hmsgs
  rw [hmsgs]
  apply eq_of_toNat_eq
  simp [CanWrite.next]

end CanWrite

/-- Nobody waits for the box, and it has no message. -/
def SndBox.Quiet {Tid : Type} (b : SndBox Tid) : Prop :=
  b.completed = false ∧ b.suspendedList = [] ∧ b.transmitting = false

namespace CanBooks

variable {Tid : Type}

/-- The first `k` messages of the writer have been reported done, and nothing else. -/
def At (m : CanBooks Tid) (t : Tid) (k : ℕ) : Prop := m.done t = k ∧ m.failed t = false

/-- The report of the writer's message `k` is this one. -/
def Told (m : CanBooks Tid) (t : Tid) (k : ℕ) : SndResult → Prop
  | .ok => m.done t = k + 1 ∧ m.failed t = false
  | .err => m.done t = k ∧ m.failed t = true
  | .wait => False

end CanBooks

namespace CanTx

variable {Tid : Type} [DecidableEq Tid]

/-- The books agree with the place of the writer and with its box. -/
def Fits (m : CanBooks Tid) (t : Tid) (box : ℕ → SndBox Tid) : CanPc → Prop
  | .outside => m.At t 0
  | .taking w | .suspended w | .granted w | .retrying w => w.Sound ∧ m.At t w.data
  | .sending w no | .returning w no =>
    w.Sound ∧ m.At t w.data ∧ (box no).Quiet ∧ m.inBox no = none
  | .waiting w no =>
    w.Sound ∧ (box no).suspendedList = [] ∧
      ((box no).transmitting = true ∧ (box no).completed = false ∧ m.At t w.data ∧
          m.inBox no = some t ∨
        (box no).transmitting = false ∧ (box no).completed = true ∧
          m.Told t w.data (box no).result ∧ m.inBox no = none)
  | .blocked w no =>
    w.Sound ∧ (box no).suspendedList = [t] ∧ (box no).transmitting = true ∧
      (box no).completed = false ∧ m.At t w.data ∧ m.inBox no = some t
  | .woken w no =>
    w.Sound ∧ (box no).suspendedList = [] ∧ (box no).transmitting = false ∧
      (box no).completed = true ∧ m.Told t w.data (box no).result ∧ m.inBox no = none
  | .collecting w no =>
    w.Sound ∧ (box no).Quiet ∧ m.Told t w.data (box no).result ∧ m.inBox no = none
  | .releasing w result => w.Sound ∧ m.Told t w.data result

/-- The list contains the writers at places with this property, each of them once. -/
structure Listed (P : CanPc → Prop) (l : List Tid) (pc : Tid → CanPc) : Prop where
  nodup : l.Nodup
  mem_iff : ∀ t, t ∈ l ↔ P (pc t)

/-- What holds between the sections. -/
structure Inv (n : ℕ) (m : CanBooks Tid) (s : CanTx Tid) : Prop where
  fits : ∀ t, Fits m t s.box (s.pc t)
  /-- The boxes of the free list that no unit of the semaphore stands for have been reserved. -/
  units : ∃ U, Listed HasUnit U s.pc ∧ s.value + U.length + (n - n % 2 ^ 16) = s.freelist.length
  nodup : s.freelist.Nodup
  free : ∀ no ∈ s.freelist, no < n ∧ (s.box no).Quiet ∧ m.inBox no = none
  owned : ∀ t no, boxOf (s.pc t) = some no → no < n ∧ no ∉ s.freelist
  exclusive : ∀ t t' no, boxOf (s.pc t) = some no → boxOf (s.pc t') = some no → t = t'
  waiters : Listed IsSuspended s.waiters s.pc
  onWire : ∀ no, (s.box no).transmitting = true → ∃ t, boxOf (s.pc t) = some no

variable {s s' : CanTx Tid} {m m' : CanBooks Tid} {n no : ℕ} {t u : Tid} {pc pc' : CanPc}
  {w : CanWrite} {a : CanAction Tid} {tr out : List (CanEvent Tid)} {box box' : ℕ → SndBox Tid}

namespace Listed

variable {P : CanPc → Prop} {l l' : List Tid} {f : Tid → CanPc}

theorem same (h : Listed P l f) (hP : P pc' ↔ P (f t)) : Listed P l (Function.update f t pc') := by
  refine ⟨h.nodup, fun u => ?_⟩
  rw [h.mem_iff, update_apply]
  split
  · next hut => rw [hut, hP]
  · rfl

theorem cons (h : Listed P l f) (hold : ¬ P (f t)) (hnew : P pc') :
    Listed P (t :: l) (Function.update f t pc') := by
  refine ⟨nodup_cons.2 ⟨fun ht => hold ((h.mem_iff t).1 ht), h.nodup⟩, fun u => ?_⟩
  rw [mem_cons, h.mem_iff, update_apply]
  split
  · next hut => simp only [hut, hnew, true_or]
  · next hut => simp only [hut, false_or]

theorem erase (h : Listed P l f) (hnew : ¬ P pc') :
    Listed P (l.erase t) (Function.update f t pc') := by
  refine ⟨h.nodup.erase t, fun u => ?_⟩
  rw [h.nodup.mem_erase_iff, h.mem_iff, update_apply]
  split
  · next hut => simp only [hut, hnew, ne_eq, not_true, false_and]
  · next hut => simp only [hut, ne_eq, not_false_iff, true_and]

theorem perm (h : Listed P l f) (hl : l.Perm l') : Listed P l' f :=
  ⟨hl.nodup_iff.1 h.nodup, fun t => by rw [← hl.mem_iff, h.mem_iff]⟩

end Listed

theorem inv_boot (n : ℕ) : Inv n CanBooks.empty (boot n : CanTx Tid) := by
  refine ⟨fun t => ⟨rfl, rfl⟩, ⟨[], ⟨nodup_nil, fun t => ?_⟩, ?_⟩, nodup_range,
    fun no hno => ⟨mem_range.1 hno, ⟨rfl, rfl, rfl⟩, rfl⟩, fun t no h => ?_,
    fun t t' no h => ?_, ⟨nodup_nil, fun t => ?_⟩, fun no h => ?_⟩
  · simp [boot, HasUnit]
  · simp only [boot, length_nil, length_range]
    have hle := mod_le n (2 ^ 16)
    omega
  · simp [boot, boxOf] at h
  · simp [boot, boxOf] at h
  · simp [boot, IsSuspended]
  · simp [boot] at h

theorem Fits.congr (h : Fits m t box pc) (hdone : m'.done t = m.done t)
    (hfailed : m'.failed t = m.failed t)
    (hbox : ∀ no, boxOf pc = some no → box' no = box no ∧ m'.inBox no = m.inBox no) :
    Fits m' t box' pc := by
  have hat : ∀ k, m.At t k → m'.At t k := by
    rintro k ⟨hd, hf⟩
    exact ⟨hdone.trans hd, hfailed.trans hf⟩
  have htold : ∀ k r, m.Told t k r → m'.Told t k r := by
    intro k r hr
    cases r with
    | ok => exact ⟨hdone.trans hr.1, hfailed.trans hr.2⟩
    | err => exact ⟨hdone.trans hr.1, hfailed.trans hr.2⟩
    | wait => exact hr
  cases pc with
  | outside => exact hat 0 h
  | taking w => exact ⟨h.1, hat _ h.2⟩
  | suspended w => exact ⟨h.1, hat _ h.2⟩
  | granted w => exact ⟨h.1, hat _ h.2⟩
  | retrying w => exact ⟨h.1, hat _ h.2⟩
  | sending w no | returning w no =>
    obtain ⟨hb, hi⟩ := hbox no rfl
    rw [Fits, hb, hi]
    exact ⟨h.1, hat _ h.2.1, h.2.2⟩
  | waiting w no =>
    obtain ⟨hb, hi⟩ := hbox no rfl
    rw [Fits, hb, hi]
    obtain ⟨hw, hsusp, ⟨htr, hc, hk, hin⟩ | ⟨htr, hc, hk, hin⟩⟩ := h
    · exact ⟨hw, hsusp, .inl ⟨htr, hc, hat _ hk, hin⟩⟩
    · exact ⟨hw, hsusp, .inr ⟨htr, hc, htold _ _ hk, hin⟩⟩
  | blocked w no =>
    obtain ⟨hb, hi⟩ := hbox no rfl
    rw [Fits, hb, hi]
    obtain ⟨hw, hsusp, htr, hc, hk, hin⟩ := h
    exact ⟨hw, hsusp, htr, hc, hat _ hk, hin⟩
  | woken w no =>
    obtain ⟨hb, hi⟩ := hbox no rfl
    rw [Fits, hb, hi]
    obtain ⟨hw, hsusp, htr, hc, hk, hin⟩ := h
    exact ⟨hw, hsusp, htr, hc, htold _ _ hk, hin⟩
  | collecting w no =>
    obtain ⟨hb, hi⟩ := hbox no rfl
    rw [Fits, hb, hi]
    exact ⟨h.1, h.2.1, htold _ _ h.2.2.1, h.2.2.2⟩
  | releasing w result => exact ⟨h.1, htold _ _ h.2⟩

/-- Only the box of `t` and the books of `t` change. -/
structure Frame (m m' : CanBooks Tid) (s s' : CanTx Tid) (t : Tid) : Prop where
  box : ∀ no, boxOf (s.pc t) ≠ some no → s'.box no = s.box no ∧ m'.inBox no = m.inBox no
  books : ∀ u, u ≠ t → m'.done u = m.done u ∧ m'.failed u = m.failed u

theorem Frame.of_box_eq (hbox : s'.box = s.box) : Frame m m s s' t :=
  ⟨fun _ _ => ⟨by rw [hbox], rfl⟩, fun _ _ => ⟨rfl, rfl⟩⟩

theorem Frame.setBox (ht : boxOf (s.pc t) = some no) {b : SndBox Tid}
    (hbox : s'.box = Function.update s.box no b) (hin : ∀ no', no' ≠ no → m'.inBox no' = m.inBox no')
    (hbooks : ∀ u, u ≠ t → m'.done u = m.done u ∧ m'.failed u = m.failed u) : Frame m m' s s' t := by
  refine ⟨fun no' hno' => ?_, hbooks⟩
  have hne : no' ≠ no := by
    rintro rfl
    exact hno' ht
  rw [hbox, update_of_ne hne]
  exact ⟨rfl, hin no' hne⟩

namespace Inv

section

variable (h : Inv n m s)
include h

theorem fits_other (hframe : Frame m m' s s' t) (hut : u ≠ t) : Fits m' u s'.box (s.pc u) := by
  obtain ⟨hdone, hfailed⟩ := hframe.books u hut
  refine (h.fits u).congr hdone hfailed fun no hno => hframe.box no fun ht => ?_
  exact hut (h.exclusive u t no hno ht)

theorem fits_update (hframe : Frame m m' s s' t)
    (hpc : s'.pc = Function.update s.pc t pc') (hfits : Fits m' t s'.box pc') (u : Tid) :
    Fits m' u s'.box (s'.pc u) := by
  rw [hpc, update_apply]
  split
  · next hut =>
    subst hut
    exact hfits
  · next hut => exact h.fits_other hframe hut

theorem free_frame (hframe : Frame m m' s s' t) (hno : no ∈ s.freelist) :
    no < n ∧ (s'.box no).Quiet ∧ m'.inBox no = none := by
  obtain ⟨hlt, hquiet, hin⟩ := h.free no hno
  obtain ⟨hb, hi⟩ := hframe.box no fun ht => (h.owned t no ht).2 hno
  exact ⟨hlt, hb ▸ hquiet, hi.trans hin⟩

theorem exclusive_update (hpc : s'.pc = Function.update s.pc t pc')
    (hnew : ∀ no, boxOf pc' = some no → ∀ u, u ≠ t → boxOf (s.pc u) ≠ some no) (t₁ t₂ : Tid)
    (no : ℕ) (h₁ : boxOf (s'.pc t₁) = some no) (h₂ : boxOf (s'.pc t₂) = some no) : t₁ = t₂ := by
  rw [hpc, update_apply] at h₁ h₂
  split at h₁
  · next ht₁ =>
    split at h₂
    · next ht₂ => rw [ht₁, ht₂]
    · next ht₂ => exact absurd h₂ (hnew no h₁ t₂ ht₂)
  · next ht₁ =>
    split at h₂
    · exact absurd h₁ (hnew no h₂ t₁ ht₁)
    · exact h.exclusive t₁ t₂ no h₁ h₂

/-- A message on the wire is in the box of a writer, which has not changed or is that of `t`. -/
theorem onWire_update (hframe : Frame m m' s s' t) (hpc : s'.pc = Function.update s.pc t pc')
    (hbox : ∀ no, boxOf (s.pc t) = some no → (s'.box no).transmitting = true → boxOf pc' = some no)
    (htr : (s'.box no).transmitting = true) : ∃ u, boxOf (s'.pc u) = some no := by
  by_cases ht : boxOf (s.pc t) = some no
  · exact ⟨t, by rw [hpc, update_self, hbox no ht htr]⟩
  · rw [(hframe.box no ht).1] at htr
    obtain ⟨u, hu⟩ := h.onWire no htr
    refine ⟨u, ?_⟩
    rw [hpc, update_of_ne, hu]
    rintro rfl
    exact ht hu

/-- **The step of one writer**: it moves, and its box and its books may change.  A box of the free
list has been there, or is the one that the writer gives back; the box of the writer is its old one,
or has been in the free list. -/
theorem update (hframe : Frame m m' s s' t)
    (hpc : s'.pc = Function.update s.pc t pc') (hfits : Fits m' t s'.box pc')
    (hunits : ∃ U, Listed HasUnit U s'.pc ∧
      s'.value + U.length + (n - n % 2 ^ 16) = s'.freelist.length)
    (hwaiters : Listed IsSuspended s'.waiters s'.pc) (hnodup : s'.freelist.Nodup)
    (hfree : ∀ no ∈ s'.freelist, no ∈ s.freelist ∨
      boxOf (s.pc t) = some no ∧ (s'.box no).Quiet ∧ m'.inBox no = none)
    (hbox : ∀ no, boxOf pc' = some no →
      (boxOf (s.pc t) = some no ∨ no ∈ s.freelist) ∧ no ∉ s'.freelist)
    (hwire : ∀ no, boxOf (s.pc t) = some no → (s'.box no).transmitting = true →
      boxOf pc' = some no) : Inv n m' s' := by
  refine ⟨h.fits_update hframe hpc hfits, hunits, hnodup, fun no hno => ?_, fun u no hu => ?_,
    h.exclusive_update hpc fun no hno u hut hu => ?_, hwaiters,
    fun no => h.onWire_update hframe hpc hwire⟩
  · rcases hfree no hno with hold | ⟨ht, hquiet, hin⟩
    · exact h.free_frame hframe hold
    · exact ⟨(h.owned t no ht).1, hquiet, hin⟩
  · rw [hpc, update_apply] at hu
    split at hu
    · obtain ⟨hold | hold, hnot⟩ := hbox no hu
      · exact ⟨(h.owned t no hold).1, hnot⟩
      · exact ⟨(h.free no hold).1, hnot⟩
    · next hut =>
      refine ⟨(h.owned u no hu).1, fun hno => ?_⟩
      rcases hfree no hno with hold | ⟨ht, -⟩
      · exact (h.owned u no hu).2 hold
      · exact hut (h.exclusive u t no hu ht)
  · rcases (hbox no hno).1 with hold | hold
    · exact hut (h.exclusive u t no hu hold)
    · exact (h.owned u no hu).2 hold

theorem move (hframe : Frame m m' s s' t)
    (hpc : s'.pc = Function.update s.pc t pc') (hvalue : s'.value = s.value)
    (hwaiters : s'.waiters = s.waiters) (hfree : s'.freelist = s.freelist)
    (hunit : HasUnit pc' ↔ HasUnit (s.pc t)) (hbox : boxOf pc' = boxOf (s.pc t))
    (hsusp : IsSuspended pc' ↔ IsSuspended (s.pc t)) (hfits : Fits m' t s'.box pc') :
    Inv n m' s' := by
  obtain ⟨U, hU, hlen⟩ := h.units
  refine h.update hframe hpc hfits ⟨U, hpc ▸ hU.same hunit, by rw [hvalue, hfree, hlen]⟩ ?_
    (hfree ▸ h.nodup) (fun no hno => .inl (hfree ▸ hno)) (fun no hno => ?_)
    fun no hno _ => hbox.trans hno
  · rw [hwaiters, hpc]
    exact h.waiters.same hsusp
  · rw [hbox] at hno
    exact ⟨.inl hno, hfree ▸ (h.owned t no hno).2⟩

theorem rtSemTake (ht : s.pc t = .taking w) : Inv n m (s.rtSemTake t w) := by
  have hfits : Fits m t s.box (.taking w) := ht ▸ h.fits t
  obtain ⟨U, hU, hlen⟩ := h.units
  rw [CanTx.rtSemTake]
  split
  · next hvalue =>
    refine h.update (.of_box_eq rfl) rfl hfits ⟨t :: U, hU.cons (by simp [ht, HasUnit]) trivial, ?_⟩
      (h.waiters.same (by simp [ht, IsSuspended])) h.nodup (fun no => .inl) (by simp [boxOf])
      (by simp [ht, boxOf])
    simp only [goto, length_cons]
    omega
  · refine h.update (.of_box_eq rfl) rfl hfits ⟨U, hU.same (by simp [ht, HasUnit]), hlen⟩ ?_
      h.nodup (fun no => .inl) (by simp [boxOf]) (by simp [ht, boxOf])
    exact (h.waiters.cons (by simp [ht, IsSuspended]) (show IsSuspended (.suspended w) from
      trivial)).perm (perm_append_singleton t s.waiters).symm

theorem takeBox (ht : s.pc t = .granted w) (hs : s.takeBox t w = some s') : Inv n m s' := by
  have hfits : Fits m t s.box (.granted w) := ht ▸ h.fits t
  obtain ⟨U, hU, hlen⟩ := h.units
  have htU : t ∈ U := (hU.mem_iff t).2 (by simp [ht, HasUnit])
  have hnodup := h.nodup
  rw [CanTx.takeBox] at hs
  split at hs
  · next no rest hfree =>
    cases hs
    rw [hfree] at hlen hnodup
    have hno : no ∈ s.freelist := hfree ▸ mem_cons_self
    obtain ⟨hlt, hquiet, hin⟩ := h.free no hno
    refine h.update (.of_box_eq rfl) rfl ⟨hfits.1, hfits.2, hquiet, hin⟩
      ⟨U.erase t, hU.erase (by simp [HasUnit]), ?_⟩ (h.waiters.same (by simp [ht, IsSuspended]))
      (nodup_cons.1 hnodup).2 (fun no' hno' => .inl (hfree ▸ mem_cons_of_mem _ hno'))
      (fun no' hno' => ?_) (by simp [ht, boxOf])
    · have hpos := length_pos_of_mem htU
      simp only [goto, length_cons, length_erase_of_mem htU] at hlen ⊢
      omega
    · cases hno'
      exact ⟨.inr hno, (nodup_cons.1 hnodup).1⟩
  · cases hs

theorem giveBox (ht : boxOf (s.pc t) = some no) (hfits : Fits m t s.box pc')
    (hquiet : (s.box no).Quiet) (hin : m.inBox no = none) (hunit : HasUnit pc')
    (hbox : boxOf pc' = none) (hsusp : ¬ IsSuspended pc') {freelist : List ℕ}
    (hperm : freelist.Perm (no :: s.freelist)) :
    Inv n m (({ s with freelist := freelist }).goto t pc') := by
  obtain ⟨U, hU, hlen⟩ := h.units
  have hnot : ¬ HasUnit (s.pc t) ∧ ¬ IsSuspended (s.pc t) := by
    cases hpc : s.pc t <;> simp [hpc, boxOf, HasUnit, IsSuspended] at ht ⊢
  have hfree := (h.owned t no ht).2
  refine h.update (.of_box_eq rfl) rfl hfits ⟨t :: U, hU.cons hnot.1 hunit, ?_⟩
    (h.waiters.same (by simp [hsusp, hnot.2])) ?_ (fun no' hno' => ?_) (by simp [hbox])
    fun no' hno' htr => ?_
  · simp only [goto, length_cons, hperm.length_eq]
    omega
  · exact hperm.nodup_iff.2 (nodup_cons.2 ⟨hfree, h.nodup⟩)
  · rcases mem_cons.1 (hperm.mem_iff.1 hno') with rfl | hold
    · exact .inr ⟨ht, hquiet, hin⟩
    · exact .inl hold
  · obtain rfl : no' = no := some.inj (hno'.symm.trans ht)
    exact absurd htr (by simp [goto, hquiet.2.2])

theorem length_freelist_le : s.freelist.length ≤ n := by
  have hsub : s.freelist.Subperm (List.range n) :=
    h.nodup.subperm fun no hno => mem_range.2 (h.free no hno).1
  simpa using hsub.length_le

theorem giveUnit (ht : HasUnit (s.pc t)) (hunit : ¬ HasUnit pc')
    (hbox : boxOf pc' = none) (hsusp : ¬ IsSuspended pc') (hfits : Fits m' t s.box pc')
    (hframe : Frame m m' s s t) :
    Inv n m' (({ s with value := s.value + 1 }).goto t pc') := by
  obtain ⟨U, hU, hlen⟩ := h.units
  have htU : t ∈ U := (hU.mem_iff t).2 ht
  have hnot : boxOf (s.pc t) = none ∧ ¬ IsSuspended (s.pc t) := by
    cases hpc : s.pc t <;> simp [hpc, boxOf, HasUnit, IsSuspended] at ht ⊢
  refine h.update ⟨hframe.box, hframe.books⟩ rfl hfits ⟨U.erase t, hU.erase hunit, ?_⟩
    (h.waiters.same (by simp [hsusp, hnot.2])) h.nodup (fun no => .inl) (by simp [hbox])
    (by simp [hnot.1])
  have hpos := length_pos_of_mem htU
  simp only [goto, length_erase_of_mem htU]
  omega

theorem grant {rest : List Tid} (hrest : s.waiters = u :: rest) (hvalue : 0 < s.value) :
    Inv n m (({ s with value := s.value - 1, waiters := rest }).goto u (resumed (s.pc u))) := by
  obtain ⟨U, hU, hlen⟩ := h.units
  have hu : IsSuspended (s.pc u) := (h.waiters.mem_iff u).1 (hrest ▸ mem_cons_self)
  have hfits := h.fits u
  have hnodup := h.waiters.nodup
  cases hpc : s.pc u with
  | suspended w =>
    rw [hpc] at hfits
    have herase : s.waiters.erase u = rest := by rw [hrest, erase_cons_head]
    refine h.update (.of_box_eq rfl) rfl hfits ⟨u :: U, hU.cons (by simp [hpc, HasUnit]) trivial, ?_⟩
      (herase ▸ h.waiters.erase (by simp [IsSuspended, resumed])) h.nodup (fun no => .inl)
      (by simp [boxOf, resumed]) (by simp [hpc, boxOf])
    simp only [goto, length_cons]
    omega
  | _ => simp [hpc, IsSuspended] at hu

/-- The section of `rt_sem_release`, and a step of the writer that follows. -/
theorem rtSemRelease (ht : HasUnit (s.pc t)) (hunit : ¬ HasUnit pc')
    (hbox : boxOf pc' = none) (hsusp : ¬ IsSuspended pc') (hfits : Fits m' t s.box pc')
    (hframe : Frame m m' s s t) : Inv n m' (s.rtSemRelease.goto t pc') := by
  have hgive := h.giveUnit ht hunit hbox hsusp hfits hframe
  rw [CanTx.rtSemRelease]
  split
  · next u rest hrest =>
    have hut : u ≠ t := by
      rintro rfl
      have hu : IsSuspended (s.pc u) := (h.waiters.mem_iff u).1 (hrest ▸ mem_cons_self)
      cases hpc : s.pc u <;> simp [hpc, HasUnit, IsSuspended] at ht hu
    have hgrant := hgive.grant (u := u) hrest (succ_pos _)
    simp only [goto, update_of_ne hut, Nat.add_sub_cancel] at hgrant ⊢
    rwa [update_comm hut.symm] at hgrant
  · -- the value does not wrap, since the unit stands for a box
    have hlt : s.value + 1 < 2 ^ 16 := by
      obtain ⟨U, hU, hlen⟩ := h.units
      have hpos := length_pos_of_mem ((hU.mem_iff t).2 ht)
      have hle := h.length_freelist_le
      have hmod := mod_lt n (y := 2 ^ 16) (by decide)
      have hmod' := mod_le n (2 ^ 16)
      omega
    rwa [mod_eq_of_lt hlt]

theorem sendmsg (ht : s.pc t = .sending w no) (sendOk : Bool) :
    ∃ m', (s.sendmsg t w no sendOk).2.foldlM canSends m = some m' ∧
      Inv n m' (s.sendmsg t w no sendOk).1 := by
  obtain ⟨hw, hat, ⟨hc, hsusp, htr⟩, hin⟩ : Fits m t s.box (.sending w no) := ht ▸ h.fits t
  rw [CanTx.sendmsg]
  cases sendOk with
  | true =>
    refine ⟨{ m with inBox := Function.update m.inBox no (some t) }, ?_, ?_⟩
    · simp [canSends, hin, hat.1, hat.2]
    · refine h.move (.setBox (by rw [ht, boxOf]) rfl (fun no' hne => update_of_ne hne _ _)
        fun _ _ => ⟨rfl, rfl⟩) rfl rfl rfl rfl
        (by simp [ht, HasUnit]) (by simp [ht, boxOf]) (by simp [ht, IsSuspended]) ?_
      refine ⟨hw, by simpa [CanTx.setBox, goto] using hsusp, .inl ⟨?_, ?_, hat, ?_⟩⟩
      · simp [CanTx.setBox, goto]
      · simpa [CanTx.setBox, goto] using hc
      · simp
  | false =>
    refine ⟨m, rfl, ?_⟩
    refine h.move (.setBox (by rw [ht, boxOf]) rfl (fun _ _ => rfl) fun _ _ => ⟨rfl, rfl⟩)
      rfl rfl rfl rfl (by simp [ht, HasUnit]) (by simp [ht, boxOf]) (by simp [ht, IsSuspended]) ?_
    exact ⟨hw, hat, by simp [CanTx.setBox, goto, SndBox.Quiet, hc, hsusp, htr], hin⟩

theorem completionWait (ht : s.pc t = .waiting w no)
    (hs : s.completionWait t w no = some s') : Inv n m s' := by
  obtain ⟨hw, hsusp, hbox⟩ : Fits m t s.box (.waiting w no) := ht ▸ h.fits t
  rw [CanTx.completionWait] at hs
  rcases hbox with ⟨htr, hc, hat, hin⟩ | ⟨htr, hc, htold, hin⟩
  · -- the message has not been reported
    rw [if_neg (by simp [hc]), if_neg (by simp [hsusp])] at hs
    cases hs
    refine h.move (.setBox (by rw [ht, boxOf]) rfl (fun _ _ => rfl) fun _ _ => ⟨rfl, rfl⟩)
      rfl rfl rfl rfl (by simp [ht, HasUnit]) (by simp [ht, boxOf]) (by simp [ht, IsSuspended]) ?_
    simp only [Fits, CanTx.setBox, goto, update_self]
    exact ⟨hw, trivial, htr, hc, hat, hin⟩
  · rw [if_pos hc] at hs
    cases hs
    refine h.move (.setBox (by rw [ht, boxOf]) rfl (fun _ _ => rfl) fun _ _ => ⟨rfl, rfl⟩)
      rfl rfl rfl rfl (by simp [ht, HasUnit]) (by simp [ht, boxOf]) (by simp [ht, IsSuspended]) ?_
    simp only [Fits, CanTx.setBox, goto, update_self]
    exact ⟨hw, ⟨rfl, hsusp, htr⟩, htold, hin⟩

theorem woken (ht : s.pc t = .woken w no) :
    Inv n m ((s.setBox no { s.box no with completed := false }).goto t (.collecting w no)) := by
  obtain ⟨hw, hsusp, htr, hc, htold, hin⟩ : Fits m t s.box (.woken w no) := ht ▸ h.fits t
  refine h.move (.setBox (by rw [ht, boxOf]) rfl (fun _ _ => rfl) fun _ _ => ⟨rfl, rfl⟩)
    rfl rfl rfl rfl (by simp [ht, HasUnit]) (by simp [ht, boxOf]) (by simp [ht, IsSuspended]) ?_
  simp only [Fits, CanTx.setBox, goto, update_self]
  exact ⟨hw, ⟨rfl, hsusp, htr⟩, htold, hin⟩

theorem collect (ht : s.pc t = .collecting w no) : Inv n m (s.collect t w no) := by
  obtain ⟨hw, hquiet, htold, hin⟩ : Fits m t s.box (.collecting w no) := ht ▸ h.fits t
  have hbox : boxOf (s.pc t) = some no := by rw [ht, boxOf]
  rw [CanTx.collect, if_neg (h.owned t no hbox).2]
  exact h.giveBox hbox (show Fits m t s.box (.releasing w _) from ⟨hw, htold⟩) hquiet hin trivial
    rfl (by simp [IsSuspended])
    (perm_append_singleton no s.freelist)

theorem hwCanIsr (htr : (s.box no).transmitting = true) (done : Bool) :
    ∃ m', canSends m (.reported no done) = some m' ∧ Inv n m' (s.hwCanIsr no done) := by
  obtain ⟨t, ht⟩ := h.onWire no htr
  have hfits := h.fits t
  -- the writer is before its `rt_completion_wait`, or in the list of the completion
  obtain ⟨w, hpc, hw, hc, hat, hin, hsusp⟩ : ∃ w, (s.pc t = .waiting w no ∨ s.pc t = .blocked w no) ∧
      w.Sound ∧ (s.box no).completed = false ∧ m.At t w.data ∧ m.inBox no = some t ∧
      (s.box no).suspendedList = if s.pc t = .blocked w no then [t] else [] := by
    cases hpc : s.pc t with
    | waiting w no' =>
      rw [hpc] at hfits ht
      obtain rfl : no' = no := some.inj ht
      obtain ⟨hw, hsusp, ⟨-, hc, hat, hin⟩ | ⟨htr', -⟩⟩ := hfits
      · exact ⟨w, .inl rfl, hw, hc, hat, hin, by simpa using hsusp⟩
      · simp [htr] at htr'
    | blocked w no' =>
      rw [hpc] at hfits ht
      obtain rfl : no' = no := some.inj ht
      obtain ⟨hw, hsusp, -, hc, hat, hin⟩ := hfits
      exact ⟨w, .inr rfl, hw, hc, hat, hin, by simpa using hsusp⟩
    | sending w no' | returning w no' =>
      rw [hpc] at hfits ht
      obtain rfl : no' = no := some.inj ht
      simp [hfits.2.2.1.2.2] at htr
    | woken w no' =>
      rw [hpc] at hfits ht
      obtain rfl : no' = no := some.inj ht
      simp [hfits.2.2.1] at htr
    | collecting w no' =>
      rw [hpc] at hfits ht
      obtain rfl : no' = no := some.inj ht
      simp [hfits.2.1.2.2] at htr
    | _ => simp [hpc, boxOf] at ht
  -- the report is about a message of this writer
  obtain ⟨m', hm, hin', htold, hbooks⟩ : ∃ m', canSends m (.reported no done) = some m' ∧
      m'.inBox = Function.update m.inBox no none ∧
      m'.Told t w.data (if done = true then .ok else .err) ∧
      ∀ u, u ≠ t → m'.done u = m.done u ∧ m'.failed u = m.failed u := by
    cases done with
    | true =>
      refine ⟨_, by simp only [canSends, hin, if_true]; rfl, rfl, ?_, fun u hut => ?_⟩
      · simp [CanBooks.Told, hat.1, hat.2]
      · simp [hut]
    | false =>
      refine ⟨_, by simp only [canSends, hin]; rfl, rfl, ?_, fun u hut => ?_⟩
      · simp [CanBooks.Told, hat.1]
      · simp [hut]
  refine ⟨m', hm, ?_⟩
  have hin'' : ∀ no', no' ≠ no → m'.inBox no' = m.inBox no' := by
    intro no' hne
    rw [hin', update_of_ne hne]
  rw [CanTx.hwCanIsr, CanTx.completionDone]
  simp only [CanTx.setBox, update_self, update_idem]
  rw [if_neg (by simp [hc]), hsusp]
  rcases hpc with hpc | hpc
  · rw [if_neg (by simp [hpc])]
    refine h.move (.setBox ht rfl hin'' hbooks) (update_eq_self _ _).symm rfl rfl rfl
      Iff.rfl rfl Iff.rfl ?_
    simp only [hpc, Fits, update_self, hin']
    exact ⟨hw, by simp, .inr ⟨trivial, trivial, htold, trivial⟩⟩
  · rw [if_pos hpc]
    refine h.move (.setBox ht rfl hin'' hbooks) rfl rfl rfl rfl (by simp [hpc, HasUnit, resumed])
      (by simp [hpc, boxOf, resumed]) (by simp [hpc, IsSuspended, resumed]) ?_
    simp only [hpc, resumed, Fits, goto, update_self, hin']
    exact ⟨hw, trivial, trivial, trivial, htold, trivial⟩

theorem finish {result : SndResult} (ht : s.pc t = .releasing w result) :
    ∃ m', (s.rtSemRelease.finish t w result).2.foldlM canSends m = some m' ∧
      Inv n m' (s.rtSemRelease.finish t w result).1 := by
  obtain ⟨hw, htold⟩ : Fits m t s.box (.releasing w result) := ht ▸ h.fits t
  have hunit : HasUnit (s.pc t) := by simp [ht, HasUnit]
  -- the books after the return of `t`
  have hreturn : Inv n ⟨m.inBox, Function.update m.done t 0, Function.update m.failed t false⟩
      (s.rtSemRelease.goto t .outside) := by
    refine h.rtSemRelease hunit (by simp [HasUnit]) rfl (by simp [IsSuspended])
      ⟨update_self .., update_self ..⟩ ⟨fun _ _ => ⟨rfl, rfl⟩, fun u hut => ?_⟩
    exact ⟨update_of_ne hut .., update_of_ne hut ..⟩
  cases result with
  | ok =>
    rw [CanTx.finish]
    split
    · next h0 =>
      refine ⟨_, ?_, hreturn⟩
      have hreturns : CanReturns (m.done t) (m.failed t) w.size (w.size - w.next.msgs) := by
        rw [htold.1]
        exact CanWrite.canReturns (w := w.next) hw.msgs_next hw.next_le (.inr h0)
      simp only [foldlM_cons, canSends, CanWrite.next] at hreturns ⊢
      simp [hreturns]
    · next hne =>
      refine ⟨m, rfl, h.rtSemRelease hunit (by simp [HasUnit]) rfl (by simp [IsSuspended])
        ⟨hw.next hne, htold⟩ (.of_box_eq rfl)⟩
  | err =>
    refine ⟨_, ?_, hreturn⟩
    have hreturns : CanReturns (m.done t) (m.failed t) w.size (w.size - w.msgs) := by
      rw [htold.1]
      exact CanWrite.canReturns hw.msgs (fun hdvd => (hw.lt hdvd).le) (.inl htold.2)
    simp only [CanTx.finish, foldlM_cons, canSends]
    simp [hreturns]
  | wait => exact htold.elim

theorem step (hr : Reports s a) (hs : CanTx.step s a = some (s', out)) :
    ∃ m', out.foldlM canSends m = some m' ∧ Inv n m' s' := by
  cases a with
  | write t size =>
    rw [CanTx.step] at hs
    split at hs
    · next ht =>
      have hat : m.At t 0 := (congrArg (Fits m t s.box) ht).mp (h.fits t)
      split at hs
      · cases hs
        have hbooks : (⟨m.inBox, Function.update m.done t 0, Function.update m.failed t false⟩ :
            CanBooks Tid) = m := by
          rw [← hat.1, ← hat.2, update_eq_self, update_eq_self]
        refine ⟨m, ?_, h⟩
        simp [canSends, CanReturns, hat.1, hbooks]
      · next hne =>
        cases hs
        refine ⟨m, rfl, h.move (.of_box_eq rfl) rfl rfl rfl rfl (by simp [ht, HasUnit])
          (by simp [ht, boxOf]) (by simp [ht, IsSuspended]) ⟨CanWrite.sound_start hne, hat⟩⟩
    · cases hs
  | go t sendOk =>
    rw [CanTx.step] at hs
    cases hpc : s.pc t with
    | outside | suspended | blocked => simp [hpc, CanTx.go] at hs
    | taking w =>
      rw [hpc] at hs
      cases hs
      exact ⟨m, rfl, h.rtSemTake hpc⟩
    | granted w =>
      rw [hpc] at hs
      simp only [CanTx.go, map_eq_some_iff] at hs
      obtain ⟨s₁, hs₁, heq⟩ := hs
      cases heq
      exact ⟨m, rfl, h.takeBox hpc hs₁⟩
    | sending w no =>
      rw [hpc] at hs
      have heq : s.sendmsg t w no sendOk = (s', out) := some.inj hs
      have hsend := h.sendmsg hpc sendOk
      rwa [heq] at hsend
    | returning w no =>
      rw [hpc] at hs
      cases hs
      obtain ⟨hw, hat, hquiet, hin⟩ : Fits m t s.box (.returning w no) := hpc ▸ h.fits t
      exact ⟨m, rfl, h.giveBox (by rw [hpc, boxOf]) (show Fits m t s.box (.retrying w) from ⟨hw, hat⟩)
        hquiet hin trivial rfl (by simp [IsSuspended]) (List.Perm.refl _)⟩
    | retrying w =>
      rw [hpc] at hs
      cases hs
      have hfits : Fits m t s.box (.retrying w) := hpc ▸ h.fits t
      exact ⟨m, rfl, h.rtSemRelease (by simp [hpc, HasUnit]) (by simp [HasUnit]) rfl
        (by simp [IsSuspended]) hfits (.of_box_eq rfl)⟩
    | waiting w no =>
      rw [hpc] at hs
      simp only [CanTx.go, map_eq_some_iff] at hs
      obtain ⟨s₁, hs₁, heq⟩ := hs
      cases heq
      exact ⟨m, rfl, h.completionWait hpc hs₁⟩
    | woken w no =>
      rw [hpc] at hs
      cases hs
      exact ⟨m, rfl, h.woken hpc⟩
    | collecting w no =>
      rw [hpc] at hs
      cases hs
      exact ⟨m, rfl, h.collect hpc⟩
    | releasing w result =>
      rw [hpc] at hs
      have heq : s.rtSemRelease.finish t w result = (s', out) := some.inj hs
      have hfinish := h.finish hpc
      rwa [heq] at hfinish
  | isr no done =>
    cases hs
    obtain ⟨m', hm, hinv⟩ := h.hwCanIsr hr done
    exact ⟨m', by simp [hm], hinv⟩

theorem length_busy : (s.busy n).length + s.freelist.length = n := by
  have hfree : ((List.range n).filter (· ∈ s.freelist)).Perm s.freelist := by
    refine (perm_ext_iff_of_nodup (nodup_range.filter _) h.nodup).2 fun no => ?_
    simp only [mem_filter, mem_range, decide_eq_true_eq, and_iff_right_iff_imp]
    exact fun hno => (h.free no hno).1
  have hall := (filter_append_perm (· ∈ s.freelist) (List.range n)).length_eq
  rw [length_append, hfree.length_eq, length_range] at hall
  simp only [busy, decide_not] at hall ⊢
  omega

theorem sendsOwn (hlt : n < 2 ^ 16)
    (htr : tr.foldlM canSends CanBooks.empty = some m) : SendsOwn n tr s := by
  obtain ⟨U, hU, hlen⟩ := h.units
  rw [mod_eq_of_lt hlt, Nat.sub_self, Nat.add_zero] at hlen
  refine ⟨h.exclusive, fun hnone => ?_, fun t w ht hempty => ?_, by rw [htr]; rfl⟩
  · have hU0 : U = [] := eq_nil_iff_forall_not_mem.2 fun t ht =>
      hnone t ((hU.mem_iff t).1 ht)
    have hbusy := h.length_busy
    rw [hU0, length_nil] at hlen
    omega
  · have hpos := length_pos_of_mem ((hU.mem_iff t).2 (by simp [ht, HasUnit]))
    rw [hempty, length_nil] at hlen
    omega

end

end Inv

theorem run_inv (h : Run step Reports (boot n) tr s) :
    ∃ m, tr.foldlM canSends CanBooks.empty = some m ∧ Inv n m s := by
  refine h.invariant (fun tr s => ∃ m, tr.foldlM canSends CanBooks.empty = some m ∧ Inv n m s)
    ⟨_, rfl, inv_boot n⟩ ?_
  rintro tr s a s' out ⟨m, hm, hinv⟩ hr hs
  obtain ⟨m', hm', hinv'⟩ := hinv.step hr hs
  exact ⟨m', by rw [foldlM_append, hm]; exact hm', hinv'⟩

/-- **Every writer owns its box and returns what was reported of its own messages**, and the boxes
and the units are in step, in every run, if and only if the number of boxes fits a semaphore. -/
theorem run_sendsOwn_iff (n : ℕ) :
    (∀ (tr : List (CanEvent Tid)) (s : CanTx Tid), Run step Reports (boot n) tr s →
      SendsOwn n tr s) ↔ n < 2 ^ 16 := by
  constructor
  · intro h
    have hboot := (h [] (boot n) .nil).2.1 fun t => by simp [boot, HasUnit]
    have hbusy : ((boot n : CanTx Tid).busy n).length = 0 := by simp [busy, boot]
    rw [hbusy, Nat.add_zero] at hboot
    rw [← hboot]
    exact mod_lt n (by decide)
  · intro hlt tr s hrun
    obtain ⟨m, hm, hinv⟩ := run_inv hrun
    exact hinv.sendsOwn hlt hm

/-- A writer that waits for the only box gets it after the first one. -/
example : ((exec step Reports (boot 1 : CanTx ℕ)
    [.write 0 16#32, .go 0 true, .write 1 32#32, .go 1 true, .go 0 true, .go 0 true, .go 0 true,
      .isr 0 true, .go 0 true, .go 0 true, .go 0 true, .go 1 true, .go 1 true, .isr 0 false,
      .go 1 true, .go 1 true, .go 1 true]).map Prod.snd) =
    some [.sent 0 0 0, .reported 0 true, .returned 0 16#32 16#32, .sent 1 0 0, .reported 0 false,
      .returned 1 32#32 0#32] := by
  decide

/-- With `2 ^ 16` boxes the semaphore **has no unit** from the beginning. -/
theorem not_run_sendsOwn : ¬ ∀ (n : ℕ) (tr : List (CanEvent ℕ)) (s : CanTx ℕ),
    Run step Reports (boot n) tr s → SendsOwn n tr s := by
  intro h
  have hboot := (h (2 ^ 16) [] (boot (2 ^ 16)) .nil).2.1 fun t => by simp [boot, HasUnit]
  have hbusy : ((boot (2 ^ 16) : CanTx ℕ).busy (2 ^ 16)).length = 0 := by simp [busy, boot]
  rw [hbusy] at hboot
  exact absurd hboot (by decide)

end CanTx

end RtThread
