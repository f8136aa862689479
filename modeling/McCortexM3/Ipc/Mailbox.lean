import McCortexM3.Ipc.Parked
import McCortexM3.Run
import McCortexM3.Window

/-!
# Mailboxes

The mailbox of `ipc.c`, with its two lists of suspended threads, and the interleavings of
the interrupt-disabled sections of its functions.  Any thread that can run may make the next
step, so that every scheduler and every nesting of interrupt handlers is among the runs.

## Main definitions

* `Mailbox`, `rtMbInit` — the object.
* `MbSys.sendLoop`, `MbSys.recvLoop` — the loops of `rt_mb_send_wait` and `rt_mb_recv`.
* `Fifo` — the mailbox is a bounded queue.

## Main results

* `MbSys.run_fifo` — in every state the mailbox is a bounded queue of what has been sent and
  not yet received since the last reset.
-/

set_option linter.all false

namespace RtThread

open Option List Nat

/-! ### The object -/

/-- `struct rt_mailbox`; `size`, `entry` and the offsets are `rt_uint16_t`, and a mail is an
`rt_ubase_t`. -/
structure Mailbox where
  msgPool : ℕ → UInt32
  size : UInt16
  entry : UInt16
  inOffset : UInt16
  outOffset : UInt16
  flag : IpcFlag

/-- `rt_mb_init` and `rt_mb_create`, on a pool with some contents: the size is an
`rt_size_t`. -/
def rtMbInit (msgPool : ℕ → UInt32) (size : UInt32) (flag : IpcFlag) : Mailbox where
  msgPool := msgPool
  size := size.toUInt16
  entry := 0
  inOffset := 0
  outOffset := 0
  flag := flag

namespace Mailbox

/-- The offset after `offset`. -/
def nextOffset (mb : Mailbox) (offset : UInt16) : UInt16 :=
  if offset + 1 ≥ mb.size then 0 else offset + 1

/-- `rt_mb_send_wait` from its comment "set ptr" on. -/
def put (value : UInt32) (mb : Mailbox) : Mailbox :=
  { mb with
    msgPool := Function.update mb.msgPool mb.inOffset.toNat value
    inOffset := mb.nextOffset mb.inOffset
    entry := mb.entry + 1 }

/-- What `rt_mb_recv` stores in `*value`. -/
def first (mb : Mailbox) : UInt32 := mb.msgPool mb.outOffset.toNat

/-- `rt_mb_recv` from its comment "fill ptr" on. -/
def get (mb : Mailbox) : Mailbox :=
  { mb with
    outOffset := mb.nextOffset mb.outOffset
    entry := mb.entry - 1 }

/-- The assignments of `rt_mb_control` under "re-init mailbox". -/
def reset (mb : Mailbox) : Mailbox := { mb with entry := 0, inOffset := 0, outOffset := 0 }

end Mailbox

/-! ### The interleavings -/

/-- The two lists of suspended threads: `parent.suspend_thread` and
`suspend_sender_thread`. -/
inductive MbList
  | receivers
  | senders
  deriving DecidableEq

/-- Where a thread is: in no call, or at the `rt_schedule` of a loop with the local variables
`timeout` and `tick_delta`. -/
inductive MbPc
  | outside
  | send (value : UInt32) (timeout : Int32) (tickDelta : UInt32)
  | recv (timeout : Int32) (tickDelta : UInt32)

/-- The list that a thread at this place is or was in. -/
def MbPc.waitsFor : MbPc → Option MbList
  | .outside => none
  | .send .. => some .senders
  | .recv .. => some .receivers

/-- What an observer sees: successful calls with their values, failed calls with their codes,
and resets. -/
inductive MbEvent
  | sent (value : UInt32)
  | received (value : UInt32)
  | failed (err : RtErr)
  | reset
  deriving DecidableEq

/-- What can happen next: a call by a thread or (`none`) by an interrupt handler, the return
of a thread from `rt_schedule`, the timeout of a thread, the reset, and time. -/
inductive MbAction (Tid : Type)
  | send (caller : Option Tid) (value : UInt32) (timeout : Int32)
  | recv (caller : Option Tid) (timeout : Int32)
  | again (t : Tid)
  | timeout (t : Tid)
  | reset
  | tick

/-- The threads, the mailbox, the calls, and `rt_tick`. -/
structure MbSys (Tid : Type) where
  threads : View Tid MbList
  mb : Mailbox
  pc : Tid → MbPc
  tick : UInt32

namespace MbSys

variable {Tid : Type} [DecidableEq Tid]

/-- The place of the caller becomes `pc`. -/
def goto (s : MbSys Tid) (caller : Option Tid) (pc : MbPc) : MbSys Tid :=
  match caller with
  | some t => { s with pc := Function.update s.pc t pc }
  | none => s

/-- `thread->error = err` for the thread that makes the call. -/
def setError (s : MbSys Tid) (caller : Option Tid) (err : RtErr) : MbSys Tid :=
  match caller with
  | some t => { s with threads := s.threads.setError t err }
  | none => s

/-- The first thread of a list is resumed, if there is one. -/
def resumeFirst (s : MbSys Tid) (o : MbList) : MbSys Tid :=
  { s with threads := (s.threads.rtIpcListResume o).getD s.threads }

/-- The caller is suspended on a list, with its timer started if it has a waiting time.  An
interrupt handler fails the assertion of `RT_DEBUG_IN_THREAD_CONTEXT`. -/
def suspend (s : MbSys Tid) (caller : Option Tid) (o : MbList)
    (pc : UInt32 → MbPc) : Option (MbSys Tid × List MbEvent) :=
  caller.map fun t =>
    (({ s with threads := (s.threads.setError t .eok).rtIpcListSuspend o t s.mb.flag }).goto
      (some t) (pc s.tick), [])

/-- `rt_mb_send_wait` from the test of its loop on. -/
def sendLoop (s : MbSys Tid) (caller : Option Tid) (value : UInt32) (timeout : Int32) :
    Option (MbSys Tid × List MbEvent) :=
  if s.mb.entry = s.mb.size then
    if timeout = 0 then some ((s.setError caller .eok).goto caller .outside, [.failed .efull])
    else s.suspend caller .senders (.send value timeout)
  else
    some ((({ s with mb := s.mb.put value }).resumeFirst .receivers).goto caller .outside,
      [.sent value])

/-- `rt_mb_recv` from the test of its loop on. -/
def recvLoop (s : MbSys Tid) (caller : Option Tid) (timeout : Int32) :
    Option (MbSys Tid × List MbEvent) :=
  if s.mb.entry = 0 then
    if timeout = 0 then
      some ((s.setError caller .etimeout).goto caller .outside, [.failed .etimeout])
    else s.suspend caller .receivers (.recv timeout)
  else
    some ((({ s with mb := s.mb.get }).resumeFirst .senders).goto caller .outside,
      [.received s.mb.first])

/-- A caller can make a call: an interrupt handler always, a thread when it can run and is in
no other call. -/
def canCall (s : MbSys Tid) : Option Tid → Bool
  | none => true
  | some t => s.threads.life t = .live && (s.pc t).waitsFor = none

/-- A thread returns from its `rt_schedule`. -/
def again (s : MbSys Tid) (t : Tid) : MbPc → Option (MbSys Tid × List MbEvent)
  | .outside => none
  | .send value timeout tickDelta =>
    if s.threads.error t ≠ .eok then
      some (s.goto (some t) .outside, [.failed (s.threads.error t)])
    else s.sendLoop (some t) value (remaining timeout tickDelta s.tick)
  | .recv timeout tickDelta =>
    if s.threads.error t ≠ .eok then
      some (s.goto (some t) .outside, [.failed (s.threads.error t)])
    else s.recvLoop (some t) (remaining timeout tickDelta s.tick)

/-- A thread at this place has started its timer. -/
def hasTimer : MbPc → Bool
  | .outside => false
  | .send _ timeout _ => timeout > 0
  | .recv timeout _ => timeout > 0

/-- One step of an interleaving. -/
def step (s : MbSys Tid) : MbAction Tid → Option (MbSys Tid × List MbEvent)
  | .send caller value timeout =>
    if s.canCall caller then
      if s.mb.entry = s.mb.size ∧ timeout = 0 then some (s, [.failed .efull])
      else s.sendLoop caller value timeout
    else none
  | .recv caller timeout =>
    if s.canCall caller then
      if s.mb.entry = 0 ∧ timeout = 0 then some (s, [.failed .etimeout])
      else s.recvLoop caller timeout
    else none
  | .again t => if s.threads.life t = .live then s.again t (s.pc t) else none
  | .timeout t =>
    if hasTimer (s.pc t) then (s.threads.rtThreadTimeout t).map fun v => ({ s with threads := v }, [])
    else none
  | .reset =>
    some ({ s with
      threads := (s.threads.resumeAll .receivers).resumeAll .senders
      mb := s.mb.reset }, [.reset])
  | .tick => some ({ s with tick := s.tick + 1 }, [])

/-- A new mailbox. -/
def boot (prio : Tid → ℕ) (msgPool : ℕ → UInt32) (size : UInt32) (flag : IpcFlag) : MbSys Tid where
  threads := .idle prio
  mb := rtMbInit msgPool size flag
  pc := fun _ => .outside
  tick := 0

end MbSys

/-! ### The queue -/

/-- The mails sent and received since the last reset, after one more event. -/
def record (x : List UInt32 × List UInt32) : MbEvent → List UInt32 × List UInt32
  | .sent value => (x.1 ++ [value], x.2)
  | .received value => (x.1, x.2 ++ [value])
  | .failed _ => x
  | .reset => ([], [])

/-- The mails sent and the mails received since the last reset. -/
def sinceReset (tr : List MbEvent) : List UInt32 × List UInt32 := tr.foldl record ([], [])

namespace Mailbox

/-- The mails in the pool, the next one to be received first. -/
def stored (mb : Mailbox) : List UInt32 :=
  window mb.msgPool mb.size.toNat mb.outOffset.toNat mb.entry.toNat

/-- The counter and the offsets agree. -/
structure Ok (mb : Mailbox) : Prop where
  entry_le : mb.entry.toNat ≤ mb.size.toNat
  out_mod : mb.outOffset.toNat % mb.size.toNat = mb.outOffset.toNat
  in_eq : mb.inOffset.toNat = (mb.outOffset.toNat + mb.entry.toNat) % mb.size.toNat

variable {mb : Mailbox}

theorem nextOffset_toNat {offset : UInt16} (h : offset.toNat < mb.size.toNat) :
    (mb.nextOffset offset).toNat = (offset.toNat + 1) % mb.size.toNat := by
  have hsize := mb.size.toNat_lt
  have hsucc : (offset + 1).toNat = offset.toNat + 1 := by
    rw [UInt16.toNat_add, UInt16.toNat_one]
    omega
  rw [nextOffset]
  split
  · next hge =>
    have hge' : mb.size.toNat ≤ (offset + 1).toNat := UInt16.le_iff_toNat_le.1 hge
    rw [show offset.toNat + 1 = mb.size.toNat by omega, mod_self]
    rfl
  · next hlt =>
    have hlt' : ¬ mb.size.toNat ≤ (offset + 1).toNat := fun hle => hlt (UInt16.le_iff_toNat_le.2 hle)
    rw [mod_eq_of_lt (by omega), hsucc]

theorem entry_put (h : mb.entry.toNat < mb.size.toNat) (value : UInt32) :
    (mb.put value).entry.toNat = mb.entry.toNat + 1 := by
  have hsize := mb.size.toNat_lt
  rw [put, UInt16.toNat_add, UInt16.toNat_one]
  omega

theorem entry_get (h : mb.entry ≠ 0) : mb.get.entry.toNat + 1 = mb.entry.toNat := by
  have hpos : 0 < mb.entry.toNat := Nat.pos_of_ne_zero fun he => h (UInt16.toNat_inj.1 he)
  have hone : (1 : UInt16) ≤ mb.entry := by
    rw [UInt16.le_iff_toNat_le, UInt16.toNat_one]
    exact hpos
  rw [get, UInt16.toNat_sub_of_le _ _ hone, UInt16.toNat_one]
  omega

theorem Ok.put (h : mb.Ok) (hfull : mb.entry ≠ mb.size) (value : UInt32) :
    (mb.put value).Ok ∧ (mb.put value).stored = mb.stored ++ [value] := by
  have hlt : mb.entry.toNat < mb.size.toNat :=
    lt_of_le_of_ne h.entry_le fun he => hfull (UInt16.toNat_inj.1 he)
  have hentry := entry_put hlt value
  have hin : mb.inOffset.toNat < mb.size.toNat := by
    rw [h.in_eq]
    exact mod_lt _ (by omega)
  refine ⟨⟨?_, h.out_mod, ?_⟩, ?_⟩
  · rw [hentry]
    exact hlt
  · rw [hentry, Mailbox.put, nextOffset_toNat hin, h.in_eq, mod_add_mod, Nat.add_assoc]
  · rw [stored, hentry, Mailbox.put, h.in_eq]
    exact window_push _ _ _ hlt

theorem Ok.get (h : mb.Ok) (hempty : mb.entry ≠ 0) :
    mb.get.Ok ∧ mb.stored = mb.first :: mb.get.stored := by
  have hentry := entry_get hempty
  have hle := h.entry_le
  have hout : mb.outOffset.toNat < mb.size.toNat := by
    rw [← h.out_mod]
    exact mod_lt _ (by omega)
  have hout' : mb.get.outOffset.toNat = (mb.outOffset.toNat + 1) % mb.size.toNat := by
    rw [Mailbox.get]
    exact nextOffset_toNat hout
  refine ⟨⟨?_, ?_, ?_⟩, ?_⟩
  · show mb.get.entry.toNat ≤ mb.size.toNat
    omega
  · rw [hout']
    exact mod_mod ..
  · have hsame : mb.get.size = mb.size := rfl
    show mb.inOffset.toNat = _
    rw [hout', hsame, h.in_eq, mod_add_mod]
    congr 1
    omega
  · rw [stored, ← hentry, window_pop, stored, hout', h.out_mod]
    rfl

theorem ok_reset (mb : Mailbox) : mb.reset.Ok ∧ mb.reset.stored = [] :=
  ⟨⟨Nat.zero_le _, zero_mod _, (zero_mod _).symm⟩, rfl⟩

end Mailbox

/-- The mailbox is a bounded queue: it holds, in order, what has been sent and not yet been
received since the last reset. -/
structure Fifo (tr : List MbEvent) (mb : Mailbox) : Prop where
  entry_le : mb.entry.toNat ≤ mb.size.toNat
  offsets : ((mb.inOffset.toNat : ℤ) - mb.outOffset.toNat) % mb.size.toNat =
    (mb.entry.toNat : ℤ) % mb.size.toNat
  mails : (sinceReset tr).1 = (sinceReset tr).2 ++ mb.stored

theorem fifo_of_ok {tr : List MbEvent} {mb : Mailbox} (h : mb.Ok)
    (hmails : (sinceReset tr).1 = (sinceReset tr).2 ++ mb.stored) : Fifo tr mb := by
  refine ⟨h.entry_le, ?_, hmails⟩
  rw [h.in_eq]
  push_cast
  rw [Int.emod_sub_emod]
  congr 1
  omega

namespace MbSys

variable {Tid : Type} [DecidableEq Tid] {s s' : MbSys Tid} {tr out : List MbEvent}

@[simp] theorem mb_goto (s : MbSys Tid) (caller : Option Tid) (pc : MbPc) :
    (s.goto caller pc).mb = s.mb := by
  cases caller <;> rfl

@[simp] theorem mb_setError (s : MbSys Tid) (caller : Option Tid) (err : RtErr) :
    (s.setError caller err).mb = s.mb := by
  cases caller <;> rfl

/-- What a step does to the mailbox, with the events it shows. -/
inductive MbStep (mb : Mailbox) : Mailbox → List MbEvent → Prop
  | same : MbStep mb mb []
  | failed (err : RtErr) : MbStep mb mb [.failed err]
  | put (value : UInt32) (h : mb.entry ≠ mb.size) : MbStep mb (mb.put value) [.sent value]
  | get (h : mb.entry ≠ 0) : MbStep mb mb.get [.received mb.first]
  | reset : MbStep mb mb.reset [.reset]

theorem mbStep_suspend {caller : Option Tid} {o : MbList} {pc : UInt32 → MbPc}
    (hs : s.suspend caller o pc = some (s', out)) : MbStep s.mb s'.mb out := by
  obtain ⟨t, -, he⟩ := map_eq_some_iff.1 hs
  cases he
  exact .same

theorem mbStep_sendLoop {caller : Option Tid} {value : UInt32} {timeout : Int32}
    (hs : s.sendLoop caller value timeout = some (s', out)) : MbStep s.mb s'.mb out := by
  rw [sendLoop] at hs
  split at hs
  · split at hs
    · cases hs
      simpa using MbStep.failed .efull
    · exact mbStep_suspend hs
  · next hfull =>
    cases hs
    simpa [resumeFirst] using MbStep.put value hfull

theorem mbStep_recvLoop {caller : Option Tid} {timeout : Int32}
    (hs : s.recvLoop caller timeout = some (s', out)) : MbStep s.mb s'.mb out := by
  rw [recvLoop] at hs
  split at hs
  · split at hs
    · cases hs
      simpa using MbStep.failed .etimeout
    · exact mbStep_suspend hs
  · next hempty =>
    cases hs
    simpa [resumeFirst] using MbStep.get hempty

theorem mbStep_step {a : MbAction Tid} (hs : s.step a = some (s', out)) :
    MbStep s.mb s'.mb out := by
  cases a with
  | send caller value timeout =>
    simp only [step, ite_none_right_eq_some] at hs
    obtain ⟨-, hs⟩ := hs
    split at hs
    · cases hs
      exact .failed .efull
    · exact mbStep_sendLoop hs
  | recv caller timeout =>
    simp only [step, ite_none_right_eq_some] at hs
    obtain ⟨-, hs⟩ := hs
    split at hs
    · cases hs
      exact .failed .etimeout
    · exact mbStep_recvLoop hs
  | again t =>
    simp only [step, ite_none_right_eq_some] at hs
    obtain ⟨-, hs⟩ := hs
    cases hpc : s.pc t with
    | outside =>
      rw [hpc] at hs
      cases hs
    | send value timeout tickDelta =>
      rw [hpc, again] at hs
      split at hs
      · cases hs
        exact .failed _
      · exact mbStep_sendLoop hs
    | recv timeout tickDelta =>
      rw [hpc, again] at hs
      split at hs
      · cases hs
        exact .failed _
      · exact mbStep_recvLoop hs
  | timeout t =>
    simp only [step, ite_none_right_eq_some] at hs
    obtain ⟨-, hs⟩ := hs
    obtain ⟨v, -, he⟩ := map_eq_some_iff.1 hs
    cases he
    exact .same
  | reset =>
    cases hs
    exact .reset
  | tick =>
    cases hs
    exact .same

theorem fifo_step {mb mb' : Mailbox} (h : mb.Ok)
    (hmails : (sinceReset tr).1 = (sinceReset tr).2 ++ mb.stored) (hs : MbStep mb mb' out) :
    mb'.Ok ∧ (sinceReset (tr ++ out)).1 = (sinceReset (tr ++ out)).2 ++ mb'.stored := by
  cases hs with
  | same => exact ⟨h, by simpa using hmails⟩
  | failed err => exact ⟨h, by simpa [sinceReset, record] using hmails⟩
  | put value hfull =>
    obtain ⟨hok, hstored⟩ := h.put hfull value
    refine ⟨hok, ?_⟩
    simp only [sinceReset, foldl_append, foldl_cons, foldl_nil, record, hstored]
    rw [← append_assoc]
    exact congrArg (· ++ [value]) hmails
  | get hempty =>
    obtain ⟨hok, hstored⟩ := h.get hempty
    refine ⟨hok, ?_⟩
    simp only [sinceReset, foldl_append, foldl_cons, foldl_nil, record,
      append_assoc, singleton_append]
    rw [← hstored]
    exact hmails
  | reset =>
    obtain ⟨hok, hstored⟩ := mb.ok_reset
    exact ⟨hok, by simp [sinceReset, record, hstored]⟩

/-- In every state of every run the mailbox is a bounded queue. -/
theorem run_fifo (prio : Tid → ℕ) (msgPool : ℕ → UInt32) (size : UInt32) (flag : IpcFlag)
    (tr : List MbEvent) (s : MbSys Tid)
    (hrun : Run step (fun _ _ => True) (boot prio msgPool size flag) tr s) : Fifo tr s.mb := by
  have hinv : s.mb.Ok ∧ (sinceReset tr).1 = (sinceReset tr).2 ++ s.mb.stored := by
    refine hrun.invariant
      (fun tr s => s.mb.Ok ∧ (sinceReset tr).1 = (sinceReset tr).2 ++ s.mb.stored) ?_ ?_
    · exact ⟨⟨Nat.zero_le _, zero_mod _, (zero_mod _).symm⟩, rfl⟩
    · rintro tr s a s' out ⟨hok, hmails⟩ - hs
      exact fifo_step hok hmails (mbStep_step hs)
  exact fifo_of_ok hinv.1 hinv.2

/-- Thread 1 waits for a mail, and gets the first of three from a mailbox of size two. -/
def goesRound : List (MbAction (Fin 2)) :=
  [.recv (some 1) (-1), .send none 5 0, .send (some 0) 6 0, .again 1, .send (some 0) 7 0]

theorem run_fifo_goesRound :
    ∃ (tr : List MbEvent) (s : MbSys (Fin 2)),
      s.mb.inOffset = 1 ∧ s.mb.stored = [6, 7] ∧ Fifo tr s.mb := by
  have hsome : (exec step (fun _ _ => True) (boot (fun _ : Fin 2 => 10) (fun _ => 0) 2 .fifo)
      goesRound).any fun r => r.1.mb.inOffset = 1 ∧ r.1.mb.stored = [6, 7] := by
    decide +kernel
  obtain ⟨s, tr, hrun, hin, hstored⟩ := Run.of_any hsome
  exact ⟨tr, s, hin, hstored, run_fifo (fun _ : Fin 2 => 10) (fun _ => 0) 2 .fifo tr s hrun⟩

end MbSys

end RtThread
