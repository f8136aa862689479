import McCortexM3.Mem.PoolBlocks

/-!
# Signals

The functions of `signal.c`, divided where interrupts are enabled.  The nodes of a thread's
`si_list` are blocks of one memory pool, in its memory of bytes, and are reached by their
addresses: the list of a thread begins with the address of a node, and the pointer in a node leads
to the pointer field of the next one.

`_signal_deliver` only decides when `rt_thread_handle_sig` runs, as does the scheduler after each
switch; here it may begin at any time.  `none` stands for a loop that takes more rounds than it is
given, and for a block that `rt_mp_free` would give to something that is not the pool.

## Main definitions

* `SigThread`, `SignalSys` — the fields of the threads, and the state.
* `kill` and its sections, `nextSignal`, `handlerEnd`, `waitTake` — the functions.
-/

set_option linter.all false

namespace RtThread

open Function Mempool

/-- `RT_SIG_MAX`. -/
def rtSigMax : ℕ := 32

/-- `RT_SIG_INFO_MAX`. -/
def rtSigInfoMax : UInt32 := 32

/-- `SIG_DFL` and `SIG_IGN` of the C library. -/
def sigDfl : UInt32 := 0

@[inherit_doc sigDfl]
def sigIgn : UInt32 := 1

/-- `sizeof(struct siginfo_node)`: the number, the code and the value of a signal, and the pointer
of the list. -/
def sizeofSiginfoNode : UInt32 := 12

/-- `sig_mask(sig_no)`. -/
def sigMask (sigNo : ℕ) : BitVec 32 := 1#32 <<< sigNo

/-- A round of the loop of `rt_thread_handle_sig`, from the removal of its node on: the node, its
signal, and, once the handler is called, whether the signal was unmasked then. -/
structure SigFrame where
  node : UInt32
  signo : ℕ
  unmasked : Option Bool

/-- The fields of `struct rt_thread` for signals.  `waiting` is `RT_THREAD_STAT_SIGNAL_WAIT`, with
the set that `rt_signal_wait` waits for, and `frames` are the rounds of `rt_thread_handle_sig`
that are not over, the innermost first.  A handler is an address. -/
structure SigThread where
  sigPending : BitVec 32
  sigMask : BitVec 32
  siList : UInt32
  sigVectors : Option (ℕ → UInt32)
  waiting : Option (BitVec 32)
  frames : List SigFrame

/-- The place in `rt_thread_kill` where a caller is. -/
inductive KillPc (Tid : Type)
  | idle
  | search (t : Tid) (sig : ℕ) (node : UInt32)
  | alloc (t : Tid) (sig : ℕ)
  | append (t : Tid) (sig : ℕ) (siNode : UInt32)
  deriving DecidableEq

/-- The threads, `_rt_siginfo_pool`, and those that call `rt_thread_kill`. -/
structure SignalSys (Tid ι : Type) where
  thread : Tid → SigThread
  pool : Mempool
  killPc : ι → KillPc Tid

/-- What the steps show: a signal becomes pending, its handler is called (or would be, if it were
not null) while the signal is unmasked or masked, it is no longer pending since this call has
ended, or since `rt_signal_wait` returns it. -/
inductive SignalEvent (Tid : Type)
  | sent (t : Tid) (sig : ℕ)
  | invoked (t : Tid) (sig : ℕ) (handler : UInt32) (unmasked : Bool)
  | handled (t : Tid) (sig : ℕ) (unmasked : Bool)
  | received (t : Tid) (sig : ℕ)
  deriving DecidableEq

/-- What can happen next: a section of `rt_thread_kill` by a caller, the beginning of
`rt_thread_handle_sig`, the call and the end of a handler, or what a thread does for itself. -/
inductive SignalAction (Tid ι : Type)
  | kill (i : ι) (t : Tid) (sig : ℕ)
  | killSearch (i : ι)
  | killAlloc (i : ι)
  | killAppend (i : ι)
  | handleSig (t : Tid)
  | invoke (t : Tid)
  | handlerDone (t : Tid)
  | mask (t : Tid) (signo : ℕ)
  | unmask (t : Tid) (signo : ℕ)
  | install (t : Tid) (signo : ℕ) (handler : UInt32)
  | wait (t : Tid) (set : BitVec 32) (poll : Bool)
  | waitEnd (t : Tid) (timeout : Bool)

/-- The pool of `rt_system_signal_init`, in some memory. -/
def somePool : Option Mempool :=
  Mempool.rtMpCreate (fun _ => 0) 0x1000 rtSigInfoMax sizeofSiginfoNode

/-! ### The nodes -/

/-- `si_node->si.si_signo`. -/
def siSigno (m : Mempool) (siNode : UInt32) : ℕ := (m.word siNode).toNat % 2 ^ 16

/-- `&(si_node->list)`. -/
def listField (siNode : UInt32) : UInt32 := siNode + 8

/-- `rt_slist_entry(node, struct siginfo_node, list)`. -/
def slistEntry (node : UInt32) : UInt32 := node - 8

/-- `memcpy(&(entry->si), &si, sizeof(siginfo_t))`, for the `si` of `rt_thread_kill`, of which
`si_code` is `SI_USER` and `si_value` is null. -/
def copySi (sig : ℕ) (entry : UInt32) (m : Mempool) : Mempool :=
  (m.setWord entry (0x10000 + .ofNat sig)).setWord (entry + 4) 0

/-- A new node. -/
def initNode (sig : ℕ) (siNode : UInt32) (m : Mempool) : Mempool :=
  copySi sig siNode (m.setWord (listField siNode) 0)

/-- The loop of `rt_slist_append`. -/
def slistTail (m : Mempool) : ℕ → UInt32 → Option UInt32
  | 0, _ => none
  | fuel + 1, node => if m.word node = 0 then some node else slistTail m fuel (m.word node)

/-- `rt_slist_append`. -/
def rtSlistAppend (fuel : ℕ) (l n : UInt32) (m : Mempool) : Option Mempool :=
  (slistTail m fuel l).map fun node => (m.setWord node n).setWord n 0

/-- The loop of `rt_signal_wait`: the node of a signal of the set and the node before it, or
nothing when the list has ended. -/
def waitSearch (m : Mempool) (set : BitVec 32) :
    ℕ → (siPrev siNode : UInt32) → Option (Option (UInt32 × UInt32))
  | 0, _, _ => none
  | fuel + 1, siPrev, siNode =>
    if siNode = 0 then some none
    else if sigMask (siSigno m siNode) &&& set ≠ 0 then some (some (siPrev, siNode))
    else waitSearch m set fuel siNode (slistEntry (m.word (listField siNode)))

/-! ### Bits of a set of signals -/

variable {w : BitVec 32} {sig sig' : ℕ}

theorem getLsbD_sigMask : (sigMask sig).getLsbD sig' = true ↔ sig < rtSigMax ∧ sig = sig' := by
  have htwo : sigMask sig = BitVec.twoPow 32 sig := rfl
  rw [htwo, BitVec.getLsbD_twoPow, Bool.and_eq_true, decide_eq_true_iff, decide_eq_true_iff]
  exact Iff.rfl

theorem and_sigMask_ne_zero : w &&& sigMask sig ≠ 0 ↔ w.getLsbD sig = true := by
  have htwo : sigMask sig = BitVec.twoPow 32 sig := rfl
  rw [htwo, BitVec.and_twoPow]
  split
  · next h =>
    refine iff_of_true ?_ h
    intro hzero
    have hbit := congrArg (fun w => w.getLsbD sig) hzero
    simp [BitVec.lt_of_getLsbD h] at hbit
  · next h => exact iff_of_false (not_not.2 rfl) h

theorem getLsbD_or_sigMask : (w ||| sigMask sig).getLsbD sig' = true ↔
    w.getLsbD sig' = true ∨ sig < rtSigMax ∧ sig = sig' := by
  rw [BitVec.getLsbD_or, Bool.or_eq_true, getLsbD_sigMask]

theorem getLsbD_and_not_sigMask : (w &&& ~~~sigMask sig).getLsbD sig' = true ↔
    w.getLsbD sig' = true ∧ sig ≠ sig' := by
  rw [BitVec.getLsbD_and, Bool.and_eq_true, BitVec.getLsbD_not, Bool.and_eq_true,
    Bool.not_eq_true', ← Bool.not_eq_true, getLsbD_sigMask, decide_eq_true_iff]
  constructor
  · rintro ⟨hw, hlt, hnot⟩
    exact ⟨hw, fun he => hnot ⟨he ▸ hlt, he⟩⟩
  · rintro ⟨hw, hne⟩
    exact ⟨hw, BitVec.lt_of_getLsbD hw, fun he => hne he.2⟩

namespace SignalSys

variable {Tid ι : Type} [DecidableEq Tid] [DecidableEq ι]

/-- The fields of one thread are rewritten. -/
def setThread (t : Tid) (th : SigThread) (s : SignalSys Tid ι) : SignalSys Tid ι :=
  { s with thread := Function.update s.thread t th }

/-- A caller of `rt_thread_kill` goes on. -/
def setKillPc (i : ι) (pc : KillPc Tid) (s : SignalSys Tid ι) : SignalSys Tid ι :=
  { s with killPc := Function.update s.killPc i pc }

/-- The thread is in no wait, and not between the removal of a node and the call of the handler. -/
def Free (s : SignalSys Tid ι) (t : Tid) : Prop :=
  (s.thread t).waiting = none ∧ ∀ f ∈ (s.thread t).frames.head?, f.unmasked ≠ none

instance (s : SignalSys Tid ι) (t : Tid) : Decidable (s.Free t) := by
  unfold Free
  infer_instance

/-! ### `rt_thread_kill` -/

/-- `rt_thread_kill` up to the end of its first section. -/
def kill (i : ι) (t : Tid) (sig : ℕ) (s : SignalSys Tid ι) : SignalSys Tid ι × List (SignalEvent Tid) :=
  let th := s.thread t
  if ¬ sig < rtSigMax then (s, [])
  else if th.sigPending &&& sigMask sig ≠ 0 then (s.setKillPc i (.search t sig th.siList), [])
  else
    ((s.setThread t { th with sigPending := th.sigPending ||| sigMask sig }).setKillPc i
      (.alloc t sig), [.sent t sig])

/-- A round of the loop of `rt_thread_kill`, for a `node` that its type makes a pointer field. -/
def killSearch (i : ι) (t : Tid) (sig : ℕ) (node : UInt32) (s : SignalSys Tid ι) : SignalSys Tid ι :=
  if node = 0 then s.setKillPc i (.alloc t sig)
  else
    let entry := slistEntry node
    if siSigno s.pool entry = sig then
      { s with pool := copySi sig entry s.pool }.setKillPc i .idle
    else s.setKillPc i (.search t sig (s.pool.word node))

/-- `rt_mp_alloc` for the pool at the address `mp`, with no time to wait, and the new node. -/
def killAlloc (mp : UInt32) (i : ι) (t : Tid) (sig : ℕ) (s : SignalSys Tid ι) :
    Option (SignalSys Tid ι) :=
  if s.pool.blockFreeCount = 0 then some (s.setKillPc i .idle)
  else
    (s.pool.take mp).map fun (m, siNode) =>
      { s with pool := initNode sig siNode m }.setKillPc i (.append t sig siNode)

/-- The last section of `rt_thread_kill`. -/
def killAppend (fuel : ℕ) (i : ι) (t : Tid) (siNode : UInt32) (s : SignalSys Tid ι) :
    Option (SignalSys Tid ι) :=
  let th := s.thread t
  let s := s.setKillPc i .idle
  if th.siList = 0 then some (s.setThread t { th with siList := siNode })
  else
    (rtSlistAppend fuel (listField th.siList) (listField siNode) s.pool).map fun m =>
      { s with pool := m }

/-! ### `rt_thread_handle_sig` -/

/-- The head of the loop of `rt_thread_handle_sig`, with the removal of a node. -/
def nextSignal (t : Tid) (s : SignalSys Tid ι) : SignalSys Tid ι :=
  let th := s.thread t
  if th.sigPending &&& th.sigMask = 0 ∨ th.siList = 0 then s
  else
    let next := s.pool.word (listField th.siList)
    s.setThread t { th with
      siList := if next = 0 then 0 else slistEntry next
      frames := ⟨th.siList, siSigno s.pool th.siList, none⟩ :: th.frames }

/-- `tid->sig_vectors[signo]`; a null pointer leads to the beginning of the memory. -/
def handlerOf (s : SignalSys Tid ι) (t : Tid) (signo : ℕ) : UInt32 :=
  match (s.thread t).sigVectors with
  | some vectors => vectors signo
  | none => s.pool.word (4 * .ofNat signo)

/-- The signal is not masked by the thread. -/
def unmasked (s : SignalSys Tid ι) (t : Tid) (signo : ℕ) : Bool :=
  (s.thread t).sigMask &&& RtThread.sigMask signo ≠ 0

/-- The handler of the innermost round is called. -/
def invoke (t : Tid) (f : SigFrame) (rest : List SigFrame) (s : SignalSys Tid ι) :
    SignalSys Tid ι × List (SignalEvent Tid) :=
  (s.setThread t { s.thread t with
    frames := { f with unmasked := some (s.unmasked t f.signo) } :: rest },
    [.invoked t f.signo (s.handlerOf t f.signo) (s.unmasked t f.signo)])

/-- `rt_mp_free`, with no thread waiting for a block. -/
def rtMpFree (mp block : UInt32) (m : Mempool) : Option Mempool :=
  if m.owner block = mp then some (m.give block) else none

/-- The section of `rt_thread_handle_sig` behind the call of a handler, up to the head of the
loop. -/
def handlerEnd (mp : UInt32) (t : Tid) (f : SigFrame) (rest : List SigFrame) (s : SignalSys Tid ι) :
    Option (SignalSys Tid ι) :=
  let th := s.thread t
  (rtMpFree mp f.node s.pool).map fun m =>
    { s with pool := m }.setThread t { th with
      sigPending := th.sigPending &&& ~~~sigMask f.signo
      frames := rest }

/-! ### `rt_signal_wait` -/

/-- `rt_signal_wait` from its label `__done` on. -/
def waitTake (mp : UInt32) (fuel : ℕ) (t : Tid) (set : BitVec 32) (s : SignalSys Tid ι) :
    Option (SignalSys Tid ι × List (SignalEvent Tid)) :=
  let th := s.thread t
  match waitSearch s.pool set fuel 0 th.siList with
  | none => none
  | some none => some (s, [])
  | some (some (siPrev, siNode)) =>
    let signo := siSigno s.pool siNode
    let next := s.pool.word (listField siNode)
    let m := if siPrev ≠ 0 then s.pool.setWord (listField siPrev) next else s.pool
    (rtMpFree mp siNode m).map fun m =>
      ({ s with pool := m }.setThread t { th with
        siList := if siPrev ≠ 0 then th.siList else next
        sigPending := th.sigPending &&& ~~~sigMask signo }, [.received t signo])

/-- `rt_signal_wait` up to its suspension. -/
def wait (mp : UInt32) (fuel : ℕ) (t : Tid) (set : BitVec 32) (poll : Bool) (s : SignalSys Tid ι) :
    Option (SignalSys Tid ι × List (SignalEvent Tid)) :=
  let th := s.thread t
  if set = 0 then some (s, [])
  else if th.sigPending &&& set ≠ 0 then s.waitTake mp fuel t set
  else if poll then some (s, [])
  else some (s.setThread t { th with waiting := some set }, [])

/-- `rt_signal_wait` from its return to the processor on. -/
def waitEnd (mp : UInt32) (fuel : ℕ) (t : Tid) (set : BitVec 32) (timeout : Bool)
    (s : SignalSys Tid ι) : Option (SignalSys Tid ι × List (SignalEvent Tid)) :=
  let s := s.setThread t { s.thread t with waiting := none }
  if timeout then some (s, []) else s.waitTake mp fuel t set

/-! ### The other functions, and the runs -/

/-- `rt_signal_mask`. -/
def rtSignalMask (t : Tid) (signo : ℕ) (s : SignalSys Tid ι) : SignalSys Tid ι :=
  let th := s.thread t
  s.setThread t { th with sigMask := th.sigMask &&& ~~~RtThread.sigMask signo }

/-- `rt_signal_unmask`, before it delivers the pending signals. -/
def rtSignalUnmask (t : Tid) (signo : ℕ) (s : SignalSys Tid ι) : SignalSys Tid ι :=
  let th := s.thread t
  s.setThread t { th with sigMask := th.sigMask ||| RtThread.sigMask signo }

/-- `rt_signal_install`, where `defaultHandler` is `_signal_default_handler`. -/
def rtSignalInstall (defaultHandler : UInt32) (t : Tid) (signo : ℕ) (handler : UInt32)
    (s : SignalSys Tid ι) : SignalSys Tid ι :=
  let th := s.thread t
  if ¬ signo < rtSigMax then s
  else
    s.setThread t { th with
      sigVectors :=
        some (Function.update (th.sigVectors.getD fun _ => defaultHandler) signo
          (if handler = sigIgn then 0 else if handler = sigDfl then defaultHandler else handler)) }

/-- One step. -/
def step (mp defaultHandler : UInt32) (fuel : ℕ) (s : SignalSys Tid ι) :
    SignalAction Tid ι → Option (SignalSys Tid ι × List (SignalEvent Tid))
  | .kill i t sig =>
    match s.killPc i with
    | .idle => some (s.kill i t sig)
    | _ => none
  | .killSearch i =>
    match s.killPc i with
    | .search t sig node => some (s.killSearch i t sig node, [])
    | _ => none
  | .killAlloc i =>
    match s.killPc i with
    | .alloc t sig => (s.killAlloc mp i t sig).map fun s => (s, [])
    | _ => none
  | .killAppend i =>
    match s.killPc i with
    | .append t _ siNode => (s.killAppend fuel i t siNode).map fun s => (s, [])
    | _ => none
  | .handleSig t => if (s.thread t).waiting = none then some (s.nextSignal t, []) else some (s, [])
  | .invoke t =>
    match (s.thread t).frames with
    | ⟨node, signo, none⟩ :: rest => some (s.invoke t ⟨node, signo, none⟩ rest)
    | _ => none
  | .handlerDone t =>
    match (s.thread t).frames with
    | ⟨node, signo, some unmasked⟩ :: rest =>
      (s.handlerEnd mp t ⟨node, signo, some unmasked⟩ rest).map fun s =>
        (s.nextSignal t, [.handled t signo unmasked])
    | _ => none
  | .mask t signo => if s.Free t then some (s.rtSignalMask t signo, []) else none
  | .unmask t signo => if s.Free t then some (s.rtSignalUnmask t signo, []) else none
  | .install t signo handler =>
    if s.Free t then some (s.rtSignalInstall defaultHandler t signo handler, []) else none
  | .wait t set poll => if s.Free t then s.wait mp fuel t set poll else none
  | .waitEnd t timeout =>
    match (s.thread t).waiting with
    | some set => s.waitEnd mp fuel t set timeout
    | none => none

/-- The threads after `_rt_thread_init`, with a pool. -/
def boot (pool : Mempool) : SignalSys Tid ι where
  thread := fun _ => ⟨0, 0, 0, none, none, []⟩
  pool := pool
  killPc := fun _ => .idle

/-- The whole of `rt_thread_kill`. -/
def killActions (sig : ℕ) : List (SignalAction Unit Unit) :=
  [.kill () () sig, .killAlloc (), .killAppend ()]

variable {s : SignalSys Tid ι} {t u : Tid} {i : ι}

@[simp] theorem thread_setThread_self (t : Tid) (th : SigThread) (s : SignalSys Tid ι) :
    (s.setThread t th).thread t = th := update_self ..

theorem thread_setThread_of_ne (h : u ≠ t) (th : SigThread) (s : SignalSys Tid ι) :
    (s.setThread t th).thread u = s.thread u := update_of_ne h ..

/-- The loop of `rt_thread_handle_sig` ends, or takes the first node. -/
theorem nextSignal_cases (t : Tid) (s : SignalSys Tid ι) :
    s.nextSignal t = s ∨
      ((s.thread t).sigPending &&& (s.thread t).sigMask ≠ 0 ∧ (s.thread t).siList ≠ 0) ∧
        s.nextSignal t = s.setThread t { s.thread t with
          siList :=
            if s.pool.word (listField (s.thread t).siList) = 0 then 0
            else slistEntry (s.pool.word (listField (s.thread t).siList))
          frames := ⟨(s.thread t).siList, siSigno s.pool (s.thread t).siList, none⟩ ::
            (s.thread t).frames } := by
  unfold nextSignal
  dsimp only
  split
  · exact .inl rfl
  · next h => exact .inr ⟨not_or.1 h, rfl⟩

end SignalSys

end RtThread
