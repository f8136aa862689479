import McCortexM3.Ipc.Parked
import McCortexM3.Run
import McCortexM3.Window

/-!
# Data queues

The data queue of `dataqueue.c`, with its two lists of suspended threads, and the
interleavings of the interrupt-disabled sections of its functions.  Any thread that can run
may make the next step, so that every scheduler and every nesting of interrupt handlers is
among the runs.

The put and the get index are free-running counters of 16 bits.  The test for a full queue
takes their difference as an `int`, which is negative after the put index has wrapped around
and before the get index has, and the cell of an item is its index modulo the size.

## Main definitions

* `DataQueue`, `rtDataQueueInit` — the object.
* `DqSys.pushLoop`, `DqSys.popLoop` — the loops of `rt_data_queue_push` and
  `rt_data_queue_pop`.
* `DataQueue.HasPlace` — a push tells a full queue, and writes a free cell.

## Main results

* `DqSys.run_boundedQueue` — as long as every push does so, the queue is a bounded queue of what
  has been pushed and not yet popped.
* `DataQueue.hasPlace_of_le` — when that is so.
-/

set_option linter.all false

namespace RtThread

open Option List

/-! ### The object -/

/-- `struct rt_data_item`. -/
structure DataItem where
  dataPtr : UInt32
  dataSize : UInt32
  deriving DecidableEq

/-- `struct rt_data_queue` without its lists and its callback. -/
structure DataQueue where
  size : UInt16
  lwm : UInt16
  getIndex : UInt16
  putIndex : UInt16
  queue : ℕ → DataItem

/-- `rt_data_queue_init`, on a memory with some contents. -/
def rtDataQueueInit (queue : ℕ → DataItem) (size lwm : UInt16) : DataQueue where
  size := size
  lwm := lwm
  getIndex := 0
  putIndex := 0
  queue := queue

namespace DataQueue

/-- `put_index - get_index`, after the promotion of both to `int`. -/
def difference (q : DataQueue) : ℤ := (q.putIndex.toNat : ℤ) - q.getIndex.toNat

/-- `rt_data_queue_push` from the end of its loop to the test of `suspended_pop_list`. -/
def put (item : DataItem) (q : DataQueue) : DataQueue :=
  { q with
    queue := Function.update q.queue (q.putIndex.toNat % q.size.toNat) item
    putIndex := q.putIndex + 1 }

/-- The item that `rt_data_queue_pop` and `rt_data_queue_peak` read. -/
def first (q : DataQueue) : DataItem := q.queue (q.getIndex.toNat % q.size.toNat)

/-- `queue->get_index += 1`. -/
def get (q : DataQueue) : DataQueue := { q with getIndex := q.getIndex + 1 }

/-- `rt_data_queue_peak`, with `none` for `-RT_EEMPTY`. -/
def rtDataQueuePeak (q : DataQueue) : Option DataItem :=
  if q.getIndex = q.putIndex then none else some q.first

end DataQueue

/-! ### The interleavings -/

/-- The two lists of suspended threads: `suspended_push_list` and `suspended_pop_list`. -/
inductive DqList
  | pushers
  | poppers
  deriving DecidableEq

/-- Where a thread is: in no call; at the `rt_schedule` of a loop; in `rt_data_queue_reset`, at
the test of the loop over a list and behind it. -/
inductive DqPc
  | outside
  | push (item : DataItem) (timeout : Int32)
  | pop (timeout : Int32)
  | testing (o : DqList)
  | resuming (o : DqList)
  deriving DecidableEq

/-- The list that a thread at this place is or was in. -/
def DqPc.waitsFor : DqPc → Option DqList
  | .push .. => some .pushers
  | .pop .. => some .poppers
  | _ => none

/-- What an observer sees: successful calls with their items, failed calls with their codes. -/
inductive DqEvent
  | pushed (item : DataItem)
  | popped (item : DataItem)
  | peaked (item : Option DataItem)
  | failed (err : RtErr)
  deriving DecidableEq

/-- What can happen next: a call by a thread or (`none`) by an interrupt handler, a thread goes
on, and the timeout of a thread. -/
inductive DqAction (Tid : Type)
  | push (caller : Option Tid) (item : DataItem) (timeout : Int32)
  | pop (caller : Option Tid) (timeout : Int32)
  | peak
  | reset (t : Tid)
  | go (t : Tid)
  | timeout (t : Tid)

/-- The threads, the queue and the calls. -/
structure DqSys (Tid : Type) where
  threads : View Tid DqList
  q : DataQueue
  pc : Tid → DqPc

namespace DqSys

variable {Tid : Type} [DecidableEq Tid]

/-- The place of the caller becomes `pc`. -/
def goto (s : DqSys Tid) (caller : Option Tid) (pc : DqPc) : DqSys Tid :=
  match caller with
  | some t => { s with pc := Function.update s.pc t pc }
  | none => s

/-- The first thread of a list is resumed, if there is one. -/
def resumeFirst (s : DqSys Tid) (o : DqList) : DqSys Tid :=
  { s with threads := (s.threads.rtIpcListResume o).getD s.threads }

/-- A round of a loop of `rt_data_queue_reset`: the thread behind the head of the list is resumed
with an error.  In an empty list this is the head itself, and the assignments go to no thread. -/
def resumeEntry (s : DqSys Tid) (o : DqList) : DqSys Tid :=
  { s with
    threads :=
      match s.threads.queue o with
      | t :: _ => (s.threads.setError t .error).rtThreadResume t
      | [] => s.threads }

/-- The caller is suspended at the end of a list, with its timer started if it has a waiting time.
An interrupt handler fails the assertion of `RT_DEBUG_NOT_IN_INTERRUPT`. -/
def suspend (s : DqSys Tid) (caller : Option Tid) (o : DqList) (pc : DqPc) :
    Option (DqSys Tid × List DqEvent) :=
  caller.map fun t =>
    (({ s with threads := (s.threads.setError t .eok).rtIpcListSuspend o t .fifo }).goto
      (some t) pc, [])

/-- `rt_data_queue_push` from the test of its loop on. -/
def pushLoop (s : DqSys Tid) (caller : Option Tid) (item : DataItem) (timeout : Int32) :
    Option (DqSys Tid × List DqEvent) :=
  if s.q.difference = s.q.size.toNat then
    if timeout = 0 then some (s.goto caller .outside, [.failed .etimeout])
    else s.suspend caller .pushers (.push item timeout)
  else
    some ((({ s with q := s.q.put item }).resumeFirst .poppers).goto caller .outside,
      [.pushed item])

/-- `rt_data_queue_pop` from the test of its loop on. -/
def popLoop (s : DqSys Tid) (caller : Option Tid) (timeout : Int32) :
    Option (DqSys Tid × List DqEvent) :=
  if s.q.getIndex = s.q.putIndex then
    if timeout = 0 then some (s.goto caller .outside, [.failed .etimeout])
    else s.suspend caller .poppers (.pop timeout)
  else
    let s' := { s with q := s.q.get }
    let s' := if s'.q.difference ≤ s'.q.lwm.toNat then s'.resumeFirst .pushers else s'
    some (s'.goto caller .outside, [.popped s.q.first])

/-- A caller can make a call: an interrupt handler always, a thread when it can run and is in
no other call. -/
def canCall (s : DqSys Tid) : Option Tid → Bool
  | none => true
  | some t => s.threads.life t = .live && s.pc t = .outside

/-- A thread in a call goes on. -/
def go (s : DqSys Tid) (t : Tid) : DqPc → Option (DqSys Tid × List DqEvent)
  | .outside => none
  | .push item timeout =>
    if s.threads.error t ≠ .eok then
      some (s.goto (some t) .outside, [.failed (s.threads.error t)])
    else s.pushLoop (some t) item timeout
  | .pop timeout =>
    if s.threads.error t ≠ .eok then
      some (s.goto (some t) .outside, [.failed (s.threads.error t)])
    else s.popLoop (some t) timeout
  | .testing o =>
    if s.threads.queue o ≠ [] then some (s.goto (some t) (.resuming o), [])
    else some (s.goto (some t) (if o = .poppers then .testing .pushers else .outside), [])
  | .resuming o => some ((s.resumeEntry o).goto (some t) (.testing o), [])

/-- A thread at this place has started its timer. -/
def hasTimer : DqPc → Bool
  | .push _ timeout => timeout > 0
  | .pop timeout => timeout > 0
  | _ => false

/-- One step of an interleaving. -/
def step (s : DqSys Tid) : DqAction Tid → Option (DqSys Tid × List DqEvent)
  | .push caller item timeout =>
    if s.canCall caller then s.pushLoop caller item timeout else none
  | .pop caller timeout => if s.canCall caller then s.popLoop caller timeout else none
  | .peak => some (s, [.peaked s.q.rtDataQueuePeak])
  | .reset t => if s.canCall (some t) then some (s.goto (some t) (.testing .poppers), []) else none
  | .go t => if s.threads.life t = .live then s.go t (s.pc t) else none
  | .timeout t =>
    if hasTimer (s.pc t) then (s.threads.rtThreadTimeout t).map fun v => ({ s with threads := v }, [])
    else none

/-- A new queue. -/
def boot (prio : Tid → ℕ) (queue : ℕ → DataItem) (size lwm : UInt16) : DqSys Tid where
  threads := .idle prio
  q := rtDataQueueInit queue size lwm
  pc := fun _ => .outside

end DqSys

/-! ### The bounded queue -/

/-- A queue of at most `size` items, on the events that an observer sees. -/
def boundedFifo (size : ℕ) : List DataItem → DqEvent → Option (List DataItem)
  | l, .pushed item => if l.length < size then some (l ++ [item]) else none
  | l, .popped item => if l.head? = some item then some l.tail else none
  | l, .peaked item => if item = l.head? then some l else none
  | l, .failed _ => some l

/-- The items pushed, in order. -/
def pushedItems (tr : List DqEvent) : List DataItem :=
  tr.filterMap fun e => match e with | .pushed item => some item | _ => none

/-- The items popped, in order. -/
def poppedItems (tr : List DqEvent) : List DataItem :=
  tr.filterMap fun e => match e with | .popped item => some item | _ => none

theorem pushedItems_eq {size : ℕ} {tr : List DqEvent} {l₀ l : List DataItem}
    (h : tr.foldlM (boundedFifo size) l₀ = some l) :
    l₀ ++ pushedItems tr = poppedItems tr ++ l := by
  induction tr generalizing l₀ with
  | nil =>
    cases h
    simp [pushedItems, poppedItems]
  | cons e tr ih =>
    rw [foldlM_cons] at h
    obtain ⟨l₁, he, h⟩ := bind_eq_some_iff.1 h
    have hrest := ih h
    cases e with
    | pushed item =>
      rw [boundedFifo, ite_none_right_eq_some] at he
      obtain ⟨-, rfl⟩ : _ ∧ l₀ ++ [item] = l₁ := by simpa using he
      simpa [pushedItems, poppedItems] using hrest
    | popped item =>
      rw [boundedFifo, ite_none_right_eq_some] at he
      obtain ⟨hhead, rfl⟩ : l₀.head? = some item ∧ l₀.tail = l₁ := by simpa using he
      obtain ⟨rest, rfl⟩ := head?_eq_some_iff.1 hhead
      simpa [pushedItems, poppedItems] using hrest
    | peaked item =>
      rw [boundedFifo, ite_none_right_eq_some] at he
      obtain ⟨-, rfl⟩ : _ ∧ l₀ = l₁ := by simpa using he
      simpa [pushedItems, poppedItems] using hrest
    | failed err =>
      cases he
      simpa [pushedItems, poppedItems] using hrest

namespace DataQueue

/-- The number of items between the two counters. -/
def count (q : DataQueue) : ℕ := (q.putIndex - q.getIndex).toNat

/-- The cell of the item that is `k` places behind the first one. -/
def cell (q : DataQueue) (k : ℕ) : ℕ := (q.getIndex + .ofNat k).toNat % q.size.toNat

/-- The items in the queue, the next one to be popped first. -/
def stored (q : DataQueue) : List DataItem := (List.range q.count).map fun k => q.queue (q.cell k)

/-- A full queue is found full, and else the next item gets a cell that none is in. -/
def HasPlace (q : DataQueue) : Prop :=
  (q.count = q.size.toNat → q.difference = q.size.toNat) ∧
    (q.count < q.size.toNat → ∀ k < q.count, q.cell k ≠ q.putIndex.toNat % q.size.toNat)

instance (q : DataQueue) : Decidable q.HasPlace := inferInstanceAs (Decidable (_ ∧ _))

variable {q : DataQueue}

theorem count_toNat (q : DataQueue) :
    q.count = (2 ^ 16 - q.getIndex.toNat + q.putIndex.toNat) % 2 ^ 16 := UInt16.toNat_sub ..

theorem length_stored (q : DataQueue) : q.stored.length = q.count := by
  rw [stored, length_map, length_range]

theorem difference_eq_count (h : q.getIndex.toNat ≤ q.putIndex.toNat) : q.difference = q.count := by
  have hput := q.putIndex.toNat_lt
  rw [difference, count_toNat]
  omega

theorem hasPlace_of_le (h : q.getIndex.toNat ≤ q.putIndex.toNat) : q.HasPlace := by
  have hput := q.putIndex.toNat_lt
  have hcount : q.count = q.putIndex.toNat - q.getIndex.toNat := by
    rw [count_toNat]
    omega
  refine ⟨?_, ?_⟩
  · intro hfull
    rw [difference, ← hfull, hcount]
    omega
  · intro hlt k hk
    have hsum : (q.getIndex + .ofNat k).toNat = q.getIndex.toNat + k := by
      rw [UInt16.toNat_add, UInt16.toNat_ofNat']
      omega
    rw [cell, hsum, show q.putIndex.toNat = q.getIndex.toNat + q.count by omega]
    exact add_mod_ne hk hlt

theorem getIndex_add_count (q : DataQueue) : q.getIndex + .ofNat q.count = q.putIndex := by
  rw [count, UInt16.ofNat_toNat, UInt16.add_comm, UInt16.sub_add_cancel]

theorem stored_put (h : q.HasPlace) (hle : q.count ≤ q.size.toNat)
    (hfull : q.difference ≠ q.size.toNat) (item : DataItem) :
    q.count < q.size.toNat ∧ (q.put item).stored = q.stored ++ [item] := by
  have hlt : q.count < q.size.toNat := lt_of_le_of_ne hle fun he => hfull (h.1 he)
  have hsize := q.size.toNat_lt
  have hcount : (q.put item).count = q.count + 1 := by
    have hold := q.count_toNat
    have hput := q.putIndex.toNat_lt
    have hget := q.getIndex.toNat_lt
    rw [count_toNat]
    simp only [put, UInt16.toNat_add, UInt16.toNat_one]
    omega
  refine ⟨hlt, ?_⟩
  rw [stored, hcount, range_succ, map_append, map_singleton]
  congr 1
  · apply map_congr_left
    intro k hk
    exact Function.update_of_ne (h.2 hlt k (mem_range.1 hk)) ..
  · have hcell : (q.put item).cell q.count = q.putIndex.toNat % q.size.toNat :=
      congrArg (fun i : UInt16 => i.toNat % q.size.toNat) q.getIndex_add_count
    rw [hcell, put]
    simp

theorem stored_get (hne : q.getIndex ≠ q.putIndex) : q.stored = q.first :: q.get.stored := by
  have hcount : q.count = q.get.count + 1 := by
    have hne' : q.getIndex.toNat ≠ q.putIndex.toNat := fun he => hne (UInt16.toNat_inj.1 he)
    have hput := q.putIndex.toNat_lt
    have hget := q.getIndex.toNat_lt
    rw [count_toNat, count_toNat]
    simp only [get, UInt16.toNat_add, UInt16.toNat_one]
    omega
  have hzero : q.getIndex + .ofNat 0 = q.getIndex := UInt16.add_zero _
  rw [stored, hcount, range_succ_eq_map, map_cons, List.map_map]
  congr 1
  · rw [cell, hzero, first]
  · apply map_congr_left
    intro k _
    have hsucc : q.getIndex + .ofNat (k + 1) = q.getIndex + 1 + .ofNat k := by
      apply UInt16.toNat_inj.1
      simp only [UInt16.toNat_add, UInt16.toNat_ofNat', UInt16.toNat_one]
      omega
    show q.queue (q.cell (k + 1)) = q.queue (q.get.cell k)
    rw [cell, cell, hsucc]
    rfl

theorem count_init (queue : ℕ → DataItem) (size lwm : UInt16) :
    (rtDataQueueInit queue size lwm).count = 0 := by
  rw [count, rtDataQueueInit, UInt16.sub_self]
  rfl

theorem stored_init (queue : ℕ → DataItem) (size lwm : UInt16) :
    (rtDataQueueInit queue size lwm).stored = [] := by
  rw [stored, count_init]
  rfl

theorem rtDataQueuePeak_eq (q : DataQueue) : q.rtDataQueuePeak = q.stored.head? := by
  unfold rtDataQueuePeak
  split
  · next heq =>
    have hcount : q.count = 0 := by
      rw [count, heq, UInt16.sub_self]
      rfl
    rw [stored, hcount]
    rfl
  · next hne =>
    rw [stored_get hne]
    rfl

end DataQueue

namespace DqSys

variable {Tid : Type} [DecidableEq Tid] {s s' : DqSys Tid} {a : DqAction Tid}
  {tr out : List DqEvent} {caller : Option Tid} {item : DataItem} {timeout : Int32}

/-- Every push has a place. -/
def PushHasPlace (s : DqSys Tid) : DqAction Tid → Prop
  | .push .. => s.q.HasPlace
  | .go t =>
    match s.pc t with
    | .push .. => s.threads.error t = .eok → s.q.HasPlace
    | _ => True
  | _ => True

instance (s : DqSys Tid) (a : DqAction Tid) : Decidable (s.PushHasPlace a) := by
  unfold PushHasPlace
  split
  · infer_instance
  · split <;> infer_instance
  · infer_instance

theorem pushHasPlace_of_le (h : s.q.getIndex.toNat ≤ s.q.putIndex.toNat) (a : DqAction Tid) :
    s.PushHasPlace a := by
  have hplace := DataQueue.hasPlace_of_le h
  unfold PushHasPlace
  split
  · exact hplace
  · split
    · exact fun _ => hplace
    · trivial
  · trivial

@[simp] theorem q_goto (s : DqSys Tid) (caller : Option Tid) (pc : DqPc) :
    (s.goto caller pc).q = s.q := by
  cases caller <;> rfl

/-- What a step does to the queue, with the events it shows. -/
inductive DqStep (q : DataQueue) : DataQueue → List DqEvent → Prop
  | same : DqStep q q []
  | failed (err : RtErr) : DqStep q q [.failed err]
  | put (item : DataItem) (hplace : q.HasPlace) (hfull : q.difference ≠ q.size.toNat) :
      DqStep q (q.put item) [.pushed item]
  | get (hempty : q.getIndex ≠ q.putIndex) : DqStep q q.get [.popped q.first]
  | peak : DqStep q q [.peaked q.rtDataQueuePeak]

theorem dqStep_suspend {o : DqList} {pc : DqPc} (hs : s.suspend caller o pc = some (s', out)) :
    DqStep s.q s'.q out := by
  obtain ⟨t, -, he⟩ := map_eq_some_iff.1 hs
  cases he
  exact .same

theorem dqStep_pushLoop (h : s.q.HasPlace) (hs : s.pushLoop caller item timeout = some (s', out)) :
    DqStep s.q s'.q out := by
  rw [pushLoop] at hs
  split at hs
  · split at hs
    · cases hs
      simpa using DqStep.failed .etimeout
    · exact dqStep_suspend hs
  · next hfull =>
    cases hs
    simpa [resumeFirst] using DqStep.put item h hfull

theorem dqStep_popLoop (hs : s.popLoop caller timeout = some (s', out)) : DqStep s.q s'.q out := by
  rw [popLoop] at hs
  split at hs
  · split at hs
    · cases hs
      simpa using DqStep.failed .etimeout
    · exact dqStep_suspend hs
  · next hempty =>
    cases hs
    have hget := DqStep.get hempty
    dsimp only
    split <;> simpa [resumeFirst] using hget

theorem dqStep_step (hc : s.PushHasPlace a) (hs : s.step a = some (s', out)) :
    DqStep s.q s'.q out := by
  cases a with
  | push caller item timeout =>
    rw [step, ite_none_right_eq_some] at hs
    exact dqStep_pushLoop hc hs.2
  | pop caller timeout =>
    rw [step, ite_none_right_eq_some] at hs
    exact dqStep_popLoop hs.2
  | peak =>
    cases hs
    exact .peak
  | reset t =>
    rw [step, ite_none_right_eq_some] at hs
    obtain ⟨-, he⟩ := hs
    cases he
    exact .same
  | go t =>
    rw [step, ite_none_right_eq_some] at hs
    obtain ⟨-, hs⟩ := hs
    cases hpc : s.pc t with
    | outside =>
      rw [hpc] at hs
      cases hs
    | push item timeout =>
      rw [hpc, go] at hs
      simp only [PushHasPlace, hpc] at hc
      split at hs
      · cases hs
        exact .failed _
      · next hok => exact dqStep_pushLoop (hc (not_not.1 hok)) hs
    | pop timeout =>
      rw [hpc, go] at hs
      split at hs
      · cases hs
        exact .failed _
      · exact dqStep_popLoop hs
    | testing o =>
      rw [hpc, go] at hs
      split at hs <;> cases hs <;> exact .same
    | resuming o =>
      rw [hpc, go] at hs
      cases hs
      exact .same
  | timeout t =>
    rw [step, ite_none_right_eq_some] at hs
    obtain ⟨-, hs⟩ := hs
    obtain ⟨v, -, he⟩ := map_eq_some_iff.1 hs
    cases he
    exact .same

theorem bounded_step {q q' : DataQueue} (hle : q.count ≤ q.size.toNat) (hs : DqStep q q' out) :
    q'.size = q.size ∧ q'.count ≤ q'.size.toNat ∧
      out.foldlM (boundedFifo q.size.toNat) q.stored = some q'.stored := by
  cases hs with
  | same => exact ⟨rfl, hle, rfl⟩
  | failed err => exact ⟨rfl, hle, rfl⟩
  | put item hplace hfull =>
    obtain ⟨hlt, hstored⟩ := DataQueue.stored_put hplace hle hfull item
    have hcount := congrArg List.length hstored
    rw [length_append, DataQueue.length_stored, DataQueue.length_stored] at hcount
    refine ⟨rfl, hcount ▸ hlt, ?_⟩
    simp [boundedFifo, DataQueue.length_stored, hlt, hstored]
  | get hempty =>
    have hstored := DataQueue.stored_get hempty
    have hcount := congrArg List.length hstored
    rw [length_cons, DataQueue.length_stored, DataQueue.length_stored] at hcount
    have hle' : q.get.count ≤ q.size.toNat := by omega
    refine ⟨rfl, hle', ?_⟩
    simp [boundedFifo, hstored]
  | peak =>
    refine ⟨rfl, hle, ?_⟩
    simp [boundedFifo, DataQueue.rtDataQueuePeak_eq]

/-- What is stored is what a bounded queue would hold after the events. -/
structure Bounded (size : ℕ) (tr : List DqEvent) (q : DataQueue) : Prop where
  fifo : tr.foldlM (boundedFifo size) [] = some q.stored
  items : pushedItems tr = poppedItems tr ++ q.stored
  count_le : q.stored.length ≤ size
  count_eq : q.stored.length = (q.putIndex - q.getIndex).toNat

/-- As long as every push has a place, the queue is a **bounded queue** in every state of every
run. -/
theorem run_boundedQueue (prio : Tid → ℕ) (queue : ℕ → DataItem) (size lwm : UInt16)
    (tr : List DqEvent) (s : DqSys Tid)
    (hrun : Run step PushHasPlace (boot prio queue size lwm) tr s) : Bounded size.toNat tr s.q := by
  have hinv : s.q.size = size ∧ s.q.count ≤ s.q.size.toNat ∧
      tr.foldlM (boundedFifo size.toNat) [] = some s.q.stored := by
    refine hrun.invariant (fun tr s => s.q.size = size ∧ s.q.count ≤ s.q.size.toNat ∧
      tr.foldlM (boundedFifo size.toNat) [] = some s.q.stored) ?_ ?_
    · refine ⟨rfl, ?_, congrArg some (DataQueue.stored_init queue size lwm).symm⟩
      exact (DataQueue.count_init queue size lwm).trans_le (Nat.zero_le _)
    · rintro tr s a s' out ⟨rfl, hle, hfifo⟩ hc hs
      obtain ⟨hsize, hle', hout⟩ := bounded_step hle (dqStep_step hc hs)
      refine ⟨hsize, hle', ?_⟩
      rw [foldlM_append, hfifo]
      exact hout
  obtain ⟨rfl, hle, hfifo⟩ := hinv
  have hitems := pushedItems_eq hfifo
  refine ⟨hfifo, hitems, ?_, s.q.length_stored⟩
  rw [DataQueue.length_stored]
  exact hle

/-- Thread 1 waits for an item, and gets the first of three from a queue of size two. -/
def goesRound : List (DqAction (Fin 2)) :=
  [.pop (some 1) (-1), .push none ⟨5, 1⟩ 0, .push (some 0) ⟨6, 1⟩ 0, .go 1, .push (some 0) ⟨7, 1⟩ 0,
    .peak]

theorem run_boundedQueue_goesRound :
    ∃ (tr : List DqEvent) (s : DqSys (Fin 2)),
      s.q.stored = [⟨6, 1⟩, ⟨7, 1⟩] ∧ .peaked (some ⟨6, 1⟩) ∈ tr ∧ Bounded 2 tr s.q := by
  have hsome : (exec step PushHasPlace (boot (fun _ : Fin 2 => 10) (fun _ => ⟨0, 0⟩) 2 1)
      goesRound).any fun r =>
        r.1.q.stored = [⟨6, 1⟩, ⟨7, 1⟩] ∧ .peaked (some ⟨6, 1⟩) ∈ r.2 := by
    decide +kernel
  obtain ⟨s, tr, hrun, hstored, hpeaked⟩ := Run.of_any hsome
  exact ⟨tr, s, hstored, hpeaked,
    run_boundedQueue (fun _ : Fin 2 => 10) (fun _ => ⟨0, 0⟩) 2 1 tr s hrun⟩

theorem step_push_idle {prio : Tid → ℕ} {q : DataQueue} (pc : Tid → DqPc)
    (hfull : q.difference ≠ q.size.toNat) (item : DataItem) :
    step ⟨.idle prio, q, pc⟩ (.push none item 0) =
      some (⟨.idle prio, q.put item, pc⟩, [.pushed item]) := by
  rw [step, canCall, if_pos rfl, pushLoop, if_neg hfull]
  rfl

theorem step_pop_idle {prio : Tid → ℕ} {q : DataQueue} (pc : Tid → DqPc)
    (hempty : q.getIndex ≠ q.putIndex) :
    step ⟨.idle prio, q, pc⟩ (.pop none 0) = some (⟨.idle prio, q.get, pc⟩, [.popped q.first]) := by
  rw [step, canCall, if_pos rfl, popLoop, if_neg hempty]
  dsimp only
  rw [show resumeFirst ⟨.idle prio, q.get, pc⟩ .pushers = ⟨.idle prio, q.get, pc⟩ from rfl, ite_self]
  rfl

theorem run_rounds (prio : Tid → ℕ) (queue : ℕ → DataItem) (item : DataItem) (n : ℕ) :
    ∃ tr q, Run step (fun _ _ => True) (boot prio queue 1 0) tr ⟨.idle prio, q, fun _ => .outside⟩ ∧
      q.size = 1 ∧ q.getIndex = .ofNat n ∧ q.putIndex = .ofNat n := by
  induction n with
  | zero => exact ⟨[], _, Run.nil, rfl, rfl, rfl⟩
  | succ n ih =>
    obtain ⟨tr, q, hrun, hsize, hget, hput⟩ := ih
    have hfull : q.difference ≠ q.size.toNat := by
      rw [DataQueue.difference, hget, hput, hsize, sub_self]
      decide
    have hsucc : (UInt16.ofNat n + 1 : UInt16) = .ofNat (n + 1) :=
      (UInt16.ofNat_add n 1).symm
    have hempty : (q.put item).getIndex ≠ (q.put item).putIndex := by
      show q.getIndex ≠ q.putIndex + 1
      rw [hget, hput]
      intro he
      have hone : (1 : UInt16) = 0 := by
        rw [← UInt16.add_right_inj (UInt16.ofNat n), ← he, UInt16.add_zero]
      cases hone
    refine ⟨_, (q.put item).get, (hrun.snoc trivial (step_push_idle _ hfull item)).snoc trivial
      (step_pop_idle _ hempty), hsize, ?_, ?_⟩
    · exact (congrArg (· + 1) hget).trans hsucc
    · exact (congrArg (· + 1) hput).trans hsucc

/-- When the put index has wrapped around, a full queue of one item **takes a second one**. -/
theorem not_run_boundedQueue :
    ¬ ∀ (prio : Unit → ℕ) (queue : ℕ → DataItem) (size lwm : UInt16) (tr : List DqEvent)
      (s : DqSys Unit), Run step (fun _ _ => True) (boot prio queue size lwm) tr s →
        Bounded size.toNat tr s.q := by
  intro h
  obtain ⟨tr, q, hrun, hsize, hget, hput⟩ :=
    run_rounds (fun _ : Unit => 10) (fun _ => ⟨0, 0⟩) ⟨5, 1⟩ 65535
  have hfull : q.difference ≠ q.size.toNat := by
    rw [DataQueue.difference, hget, hput, hsize, sub_self]
    decide
  have hfull' : (q.put ⟨5, 1⟩).difference ≠ (q.put ⟨5, 1⟩).size.toNat := by
    show ((q.putIndex + 1).toNat : ℤ) - q.getIndex.toNat ≠ q.size.toNat
    rw [hget, hput, hsize]
    decide
  have hbounded := h (fun _ => 10) (fun _ => ⟨0, 0⟩) 1 0 _ _
    ((hrun.snoc trivial (step_push_idle _ hfull ⟨5, 1⟩)).snoc trivial
      (step_push_idle _ hfull' ⟨6, 1⟩))
  have hle := hbounded.count_le
  rw [hbounded.count_eq] at hle
  have hcount : ((q.putIndex + 1 + 1 - q.getIndex).toNat) ≤ (1 : UInt16).toNat := hle
  rw [hget, hput] at hcount
  exact absurd hcount (by decide)

end DqSys

end RtThread
