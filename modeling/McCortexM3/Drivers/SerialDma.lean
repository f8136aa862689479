import McCortexM3.Drivers.Watermark

/-!
# Transmission by DMA

A serial device that transmits by DMA keeps its buffers in a data queue.  A writer pushes its
buffer, and only then looks whether the engine is activated; if it is not, the writer starts
the engine with its own buffer.  The interrupt at the end of a transfer pops the first buffer,
starts the engine with the next one, and reports the popped one as complete.

## Main definitions

* `TxSys.step`, `TxSys.boot` — the writers, the engine and the interrupt.
* `TxSys.StartsFront` — a writer that starts the engine has the first buffer of the queue.

## Main results

* `TxSys.run_inOrder` — as long as every writer does so, each buffer is transmitted once, in
  the order of the queue, and is reported when it is finished.
-/

set_option linter.all false

namespace RtThread

open Function Option List
open Function (update)

/-- Where a writer is: in no `_serial_dma_tx`, in its `rt_data_queue_push`, before its test of
`tx_dma->activated`, before its call of `dma_transmit`. -/
inductive TxPc
  | outside
  | pushing
  | testing (data : DataItem)
  | starting (data : DataItem)
  deriving DecidableEq

/-- What an observer sees: a buffer is in the queue, a call of `dma_transmit`, and a call of
`tx_complete`, whose argument is not initialised when the queue was empty, with the buffer that
the engine has finished. -/
inductive TxEvent
  | queued (data : DataItem)
  | transmit (data : DataItem)
  | complete (lastDataPtr : Option DataItem) (finished : DataItem)
  deriving DecidableEq

/-- What can happen next: a thread writes a buffer, a writer goes on, and the interrupt
`RT_SERIAL_EVENT_TX_DMADONE`. -/
inductive TxAction (Tid : Type)
  | write (t : Tid) (data : DataItem)
  | go (t : Tid)
  | dmaDone

/-- The data queue with its threads, `tx_dma->activated`, the buffer that the engine transmits, and
the writers. -/
structure TxSys (Tid : Type) where
  dataQueue : DqSys Tid
  activated : Bool
  engine : Option DataItem
  pc : Tid → TxPc

namespace TxSys

variable {Tid : Type} [DecidableEq Tid]

/-- The place of the writer becomes `pc`. -/
def goto (s : TxSys Tid) (t : Tid) (pc : TxPc) : TxSys Tid :=
  { s with pc := update s.pc t pc }

/-- `_serial_dma_tx` after a step of its `rt_data_queue_push`. -/
def pushResult (s : TxSys Tid) (t : Tid) : DqSys Tid × List DqEvent → TxSys Tid × List TxEvent
  | (dq, [.pushed data]) => (({ s with dataQueue := dq }).goto t (.testing data), [.queued data])
  | (dq, [.failed _]) => (({ s with dataQueue := dq }).goto t .outside, [])
  | (dq, _) => (({ s with dataQueue := dq }).goto t .pushing, [])

/-- `serial->ops->dma_transmit`. -/
def dmaTransmit (s : TxSys Tid) (data : DataItem) : TxSys Tid := { s with engine := some data }

/-- A writer goes on. -/
def go (s : TxSys Tid) (t : Tid) : TxPc → Option (TxSys Tid × List TxEvent)
  | .outside => none
  | .pushing => (s.dataQueue.step (.go t)).map (s.pushResult t)
  | .testing data =>
    if s.activated = false then some (({ s with activated := true }).goto t (.starting data), [])
    else some (s.goto t .outside, [])
  | .starting data => some ((s.dmaTransmit data).goto t .outside, [.transmit data])

/-- The item that a call of `rt_data_queue_pop` has stored for its caller. -/
def poppedItem : List DqEvent → Option DataItem
  | [.popped data] => some data
  | _ => none

/-- `rt_hw_serial_isr` with `RT_SERIAL_EVENT_TX_DMADONE`, when the engine has finished a buffer. -/
def dmaDone (s : TxSys Tid) (finished : DataItem) : Option (TxSys Tid × List TxEvent) :=
  (s.dataQueue.popLoop none 0).map fun (dq, out) =>
    let last := poppedItem out
    match dq.q.rtDataQueuePeak with
    | some data =>
      (({ s with dataQueue := dq, activated := true }).dmaTransmit data,
        [.transmit data, .complete last finished])
    | none =>
      ({ s with dataQueue := dq, activated := false, engine := none }, [.complete last finished])

/-- One step.  A thread writes when it is in no other write, and nothing is done for an empty
buffer. -/
def step (s : TxSys Tid) : TxAction Tid → Option (TxSys Tid × List TxEvent)
  | .write t data =>
    if s.pc t = .outside ∧ data.dataSize ≠ 0 then
      (s.dataQueue.step (.push (some t) data (-1))).map (s.pushResult t)
    else none
  | .go t => if s.dataQueue.threads.life t = .live then s.go t (s.pc t) else none
  | .dmaDone => s.engine.bind s.dmaDone

/-- `rt_serial_open` with `RT_DEVICE_FLAG_DMA_TX`. -/
def boot (prio : Tid → ℕ) (queue : ℕ → DataItem) : TxSys Tid where
  dataQueue := .boot prio queue 8 4
  activated := false
  engine := none
  pc := fun _ => .outside

/-- A writer that finds the engine not activated has the first buffer of the queue. -/
def StartsFront (s : TxSys Tid) : TxAction Tid → Prop
  | .go t =>
    match s.pc t with
    | .testing data => s.activated = false → s.dataQueue.q.rtDataQueuePeak = some data
    | _ => True
  | _ => True

instance (s : TxSys Tid) (a : TxAction Tid) : Decidable (s.StartsFront a) := by
  unfold StartsFront
  split
  · split <;> infer_instance
  · infer_instance

end TxSys

/-- The buffers that have been queued, in order. -/
def queuedBuffers (tr : List TxEvent) : List DataItem :=
  tr.filterMap fun e => match e with | .queued data => some data | _ => none

/-- The buffers that have been handed to the engine, in order. -/
def transmittedBuffers (tr : List TxEvent) : List DataItem :=
  tr.filterMap fun e => match e with | .transmit data => some data | _ => none

/-- The buffers that the engine has finished, in order. -/
def finishedBuffers (tr : List TxEvent) : List DataItem :=
  tr.filterMap fun e => match e with | .complete _ finished => some finished | _ => none

@[simp] theorem queuedBuffers_append (tr out : List TxEvent) :
    queuedBuffers (tr ++ out) = queuedBuffers tr ++ queuedBuffers out := filterMap_append

@[simp] theorem transmittedBuffers_append (tr out : List TxEvent) :
    transmittedBuffers (tr ++ out) = transmittedBuffers tr ++ transmittedBuffers out :=
  filterMap_append

@[simp] theorem finishedBuffers_append (tr out : List TxEvent) :
    finishedBuffers (tr ++ out) = finishedBuffers tr ++ finishedBuffers out :=
  filterMap_append

namespace TxSys

variable {Tid : Type} [DecidableEq Tid] {s s' : TxSys Tid} {a : TxAction Tid}
  {tr out : List TxEvent} {t : Tid} {data : DataItem}

/-! ### The steps on the data queue -/

/-- What is stored in the queue, which has never been wrapped around. -/
structure Holds (dq : DqSys Tid) (n : ℕ) (l : List DataItem) : Prop where
  stored : dq.q.stored = l
  count_le : dq.q.count ≤ dq.q.size.toNat
  le : dq.q.getIndex.toNat ≤ dq.q.putIndex.toNat
  put_eq : dq.q.putIndex.toNat = n

/-- A step on the queue that is no push leaves the items, or takes the first one. -/
theorem Holds.step {dq dq' : DqSys Tid} {n : ℕ} {l : List DataItem} {evs : List DqEvent}
    (h : Holds dq n l) (hs : DqSys.DqStep dq.q dq'.q evs)
    (hwrap : ∀ item, .pushed item ∈ evs → n + 1 < 2 ^ 16) :
    ∃ l', Holds dq' (n + (pushedItems evs).length) l' ∧
      evs.foldlM (boundedFifo dq.q.size.toNat) l = some l' := by
  have hput : ∀ item, .pushed item ∈ evs → dq.q.putIndex.toNat + 1 < 2 ^ 16 := by
    rw [h.put_eq]
    exact hwrap
  obtain ⟨-, hle, hfold⟩ := DqSys.bounded_step h.count_le hs
  rw [h.stored] at hfold
  refine ⟨_, ⟨rfl, hle, hs.le hput h.le, ?_⟩, hfold⟩
  rw [(hs.putIndex hput).2, h.put_eq]

/-- What a call of `rt_data_queue_push` does to the places of the threads. -/
theorem pushLoop_result {dq dq' : DqSys Tid} {timeout : Int32} {evs : List DqEvent}
    (hs : dq.pushLoop (some t) data timeout = some (dq', evs)) :
    (∀ u, u ≠ t → dq'.pc u = dq.pc u) ∧
      (evs = [.pushed data] ∨ (∃ err, evs = [.failed err]) ∨
        evs = [] ∧ dq'.pc t = .push data timeout) := by
  rw [DqSys.pushLoop] at hs
  split at hs
  · split at hs
    · cases hs
      exact ⟨fun u hu => update_of_ne hu .., .inr (.inl ⟨_, rfl⟩)⟩
    · cases hs
      exact ⟨fun u hu => update_of_ne hu .., .inr (.inr ⟨rfl, update_self ..⟩)⟩
  · cases hs
    exact ⟨fun u hu => update_of_ne hu .., .inl rfl⟩

/-! ### The invariant -/

/-- The engine, the flag `activated` and the places of the writers agree with the items `l` in the
queue; `place` are the places in `rt_data_queue_push`. -/
structure Phase (pc : Tid → TxPc) (place : Tid → DqPc) (engine : Option DataItem) (activated : Bool)
    (l : List DataItem) : Prop where
  busy : ∀ x, engine = some x → activated = true ∧ l.head? = some x ∧ ∀ t data, pc t ≠ .starting data
  starting : ∀ t data, pc t = .starting data → activated = true ∧ engine = none ∧
    l.head? = some data ∧ ∀ u data', pc u = .starting data' → u = t
  active : activated = true → engine = none → ∃ t data, pc t = .starting data
  idle : activated = false → l ≠ [] → ∃ t data, pc t = .testing data
  pushing : ∀ t, pc t = .pushing → ∃ data, place t = .push data (-1)

namespace Phase

variable {pc : Tid → TxPc} {place place' : Tid → DqPc} {engine : Option DataItem}
  {activated : Bool} {l l' : List DataItem} {new : TxPc} {x : DataItem}

/-- A writer that does not start the engine, before or after, goes on; the first item stays. -/
theorem move (h : Phase pc place engine activated l) (ht : ∀ data, pc t ≠ .starting data)
    (hnew : ∀ data, new ≠ .starting data) (hhead : ∀ x, l.head? = some x → l'.head? = some x)
    (hidle : activated = false → l' ≠ [] → ∃ u data, update pc t new u = .testing data)
    (hplace : ∀ u, u ≠ t → place' u = place u)
    (hpush : new = .pushing → ∃ data, place' t = .push data (-1)) :
    Phase (update pc t new) place' engine activated l' := by
  have hstarting : ∀ u data, update pc t new u = .starting data ↔ pc u = .starting data := by
    intro u data
    by_cases hut : u = t
    · subst hut
      simp [hnew, ht]
    · rw [update_of_ne hut]
  refine ⟨?_, ?_, ?_, hidle, ?_⟩
  · intro x hx
    obtain ⟨hact, hfirst, hno⟩ := h.busy x hx
    exact ⟨hact, hhead x hfirst, fun u data hu => hno u data ((hstarting u data).1 hu)⟩
  · intro u data hu
    obtain ⟨hact, hnone, hfirst, huniq⟩ := h.starting u data ((hstarting u data).1 hu)
    exact ⟨hact, hnone, hhead data hfirst,
      fun v data' hv => huniq v data' ((hstarting v data').1 hv)⟩
  · intro hact hnone
    obtain ⟨u, data, hu⟩ := h.active hact hnone
    exact ⟨u, data, (hstarting u data).2 hu⟩
  · intro u hu
    by_cases hut : u = t
    · subst hut
      rw [update_self] at hu
      exact hpush hu
    · rw [update_of_ne hut] at hu
      rw [hplace u hut]
      exact h.pushing u hu

theorem quiet (h : Phase pc place engine activated l) (ht : pc t = .outside ∨ pc t = .pushing)
    (hnew : new = .outside ∨ new = .pushing) (hplace : ∀ u, u ≠ t → place' u = place u)
    (hpush : new = .pushing → ∃ data, place' t = .push data (-1)) :
    Phase (update pc t new) place' engine activated l := by
  refine h.move ?_ ?_ (fun _ => id) ?_ hplace hpush
  · rcases ht with ht | ht <;> simp [ht]
  · rcases hnew with rfl | rfl <;> simp
  · intro hact hl
    obtain ⟨u, data, hu⟩ := h.idle hact hl
    refine ⟨u, data, ?_⟩
    rw [update_of_ne ?_]
    · exact hu
    · rintro rfl
      rcases ht with ht | ht <;> rw [ht] at hu <;> cases hu

theorem push (h : Phase pc place engine activated l) (ht : pc t = .outside ∨ pc t = .pushing)
    (data : DataItem) (hplace : ∀ u, u ≠ t → place' u = place u) :
    Phase (update pc t (.testing data)) place' engine activated (l ++ [data]) := by
  refine h.move ?_ (by simp) ?_ (fun _ _ => ⟨t, data, update_self ..⟩) hplace nofun
  · rcases ht with ht | ht <;> simp [ht]
  · intro x hx
    rw [head?_append, hx]
    rfl

theorem leave (h : Phase pc place engine true l) (ht : pc t = .testing data) :
    Phase (update pc t .outside) place engine true l :=
  h.move (by simp [ht]) (by simp) (fun _ => id) nofun (fun _ _ => rfl) nofun

/-- A writer that finds the engine not activated has the first buffer, and will start it. -/
theorem activate (h : Phase pc place engine false l) (ht : pc t = .testing data)
    (hhead : l.head? = some data) :
    Phase (update pc t (.starting data)) place engine true l := by
  have hnone : engine = none := by
    cases hengine : engine with
    | none => rfl
    | some x =>
      have hact := (h.busy x hengine).1
      cases hact
  -- the flag is not set, so that no other writer has set it
  have hone : ∀ u data', update pc t (.starting data) u = .starting data' → u = t := by
    intro u data' hu
    by_contra hut
    rw [update_of_ne hut] at hu
    have hact := (h.starting u data' hu).1
    cases hact
  refine ⟨?_, ?_, fun _ _ => ⟨t, data, update_self ..⟩, nofun, ?_⟩
  · intro x hx
    rw [hnone] at hx
    cases hx
  · intro u data' hu
    have hut := hone u data' hu
    subst hut
    rw [update_self] at hu
    cases hu
    exact ⟨rfl, hnone, hhead, hone⟩
  · intro u hu
    have hut : u ≠ t := by
      rintro rfl
      rw [update_self] at hu
      cases hu
    rw [update_of_ne hut] at hu
    exact h.pushing u hu

theorem transmit (h : Phase pc place engine activated l) (ht : pc t = .starting data) :
    Phase (update pc t .outside) place (some data) activated l := by
  obtain ⟨hact, hnone, hhead, huniq⟩ := h.starting t data ht
  have hno : ∀ u data', update pc t .outside u ≠ .starting data' := by
    intro u data' hu
    by_cases hut : u = t
    · subst hut
      rw [update_self] at hu
      cases hu
    · rw [update_of_ne hut] at hu
      exact hut (huniq u data' hu)
  refine ⟨?_, fun u data' hu => absurd hu (hno u data'), nofun, ?_, ?_⟩
  · rintro x ⟨⟩
    exact ⟨hact, hhead, hno⟩
  · intro hfalse
    rw [hact] at hfalse
    cases hfalse
  · intro u hu
    have hut : u ≠ t := by
      rintro rfl
      rw [update_self] at hu
      cases hu
    rw [update_of_ne hut] at hu
    exact h.pushing u hu

theorem next (h : Phase pc place (some x) activated (x :: l)) :
    Phase pc place l.head? l.head?.isSome l := by
  obtain ⟨-, -, hno⟩ := h.busy x rfl
  refine ⟨?_, fun u data hu => absurd hu (hno u data), ?_, ?_, h.pushing⟩
  · intro y hy
    exact ⟨by rw [hy]; rfl, hy, hno⟩
  · intro hact hnone
    rw [hnone] at hact
    cases hact
  · intro hact hl
    cases l with
    | nil => exact absurd rfl hl
    | cons y l => cases hact

end Phase

/-- What has been queued is what the engine has finished and what is in the queue, and the engine
has got what it has finished and what it transmits. -/
structure Inv (tr : List TxEvent) (s : TxSys Tid) (l : List DataItem) : Prop where
  holds : Holds s.dataQueue (queuedBuffers tr).length l
  queued : queuedBuffers tr = finishedBuffers tr ++ l
  transmitted : transmittedBuffers tr = finishedBuffers tr ++ s.engine.toList
  complete : ∀ last x, .complete last x ∈ tr → last = some x
  phase : Phase s.pc s.dataQueue.pc s.engine s.activated l

variable {l : List DataItem} {dq dq' : DqSys Tid} {evs : List DqEvent}

theorem inv_pushResult (h : Inv tr s l) (ht : s.pc t = .outside ∨ s.pc t = .pushing)
    (hs : DqSys.DqStep s.dataQueue.q dq'.q evs)
    (hplace : ∀ u, u ≠ t → dq'.pc u = s.dataQueue.pc u)
    (hevs : evs = [.pushed data] ∨ (∃ err, evs = [.failed err]) ∨
      evs = [] ∧ dq'.pc t = .push data (-1))
    (hbound : (queuedBuffers (tr ++ (s.pushResult t (dq', evs)).2)).length < 2 ^ 16) :
    ∃ l', Inv (tr ++ (s.pushResult t (dq', evs)).2) (s.pushResult t (dq', evs)).1 l' := by
  rcases hevs with rfl | ⟨err, rfl⟩ | ⟨rfl, hpc⟩
  · have hlen : (queuedBuffers tr).length + 1 < 2 ^ 16 := by
      simpa [pushResult, queuedBuffers] using hbound
    obtain ⟨l', hholds, hfold⟩ := h.holds.step hs fun _ _ => hlen
    obtain rfl : l ++ [data] = l' := by
      simp only [foldlM_cons, foldlM_nil, boundedFifo] at hfold
      split at hfold
      · cases hfold
        rfl
      · cases hfold
    refine ⟨_, ?_, ?_, ?_, ?_, h.phase.push ht data hplace⟩
    · simpa [pushResult, queuedBuffers, pushedItems, goto] using hholds
    · simp only [pushResult, queuedBuffers_append, finishedBuffers_append, h.queued]
      simp [queuedBuffers, finishedBuffers]
    · simpa [pushResult, transmittedBuffers, finishedBuffers, goto] using h.transmitted
    · intro last x hmem
      exact h.complete last x (by simpa [pushResult] using hmem)
  · obtain ⟨l', hholds, hfold⟩ := h.holds.step hs (by simp)
    obtain rfl : l = l' := some_inj.1 hfold
    refine ⟨l, ?_, ?_, ?_, ?_, h.phase.quiet ht (.inl rfl) hplace (by simp)⟩
    · simpa [pushResult, queuedBuffers, pushedItems, goto] using hholds
    · simpa [pushResult] using h.queued
    · simpa [pushResult, goto] using h.transmitted
    · intro last x hmem
      exact h.complete last x (by simpa [pushResult] using hmem)
  · obtain ⟨l', hholds, hfold⟩ := h.holds.step hs (by simp)
    obtain rfl : l = l' := some_inj.1 hfold
    refine ⟨l, ?_, ?_, ?_, ?_, h.phase.quiet ht (.inr rfl) hplace fun _ => ⟨data, hpc⟩⟩
    · simpa [pushResult, queuedBuffers, pushedItems, goto] using hholds
    · simpa [pushResult] using h.queued
    · simpa [pushResult, goto] using h.transmitted
    · intro last x hmem
      exact h.complete last x (by simpa [pushResult] using hmem)

theorem inv_dmaDone {x : DataItem} (h : Inv tr s l) (hengine : s.engine = some x)
    (hs : s.dmaDone x = some (s', out)) : ∃ l', Inv (tr ++ out) s' l' := by
  obtain ⟨hact, hhead, -⟩ := h.phase.busy x hengine
  obtain ⟨rest, rfl⟩ := head?_eq_some_iff.1 hhead
  obtain ⟨⟨dq', evs⟩, hpop, he⟩ := map_eq_some_iff.1 hs
  have hempty : s.dataQueue.q.getIndex ≠ s.dataQueue.q.putIndex := by
    intro heq
    have hpeak := s.dataQueue.q.rtDataQueuePeak_eq
    rw [h.holds.stored, DataQueue.rtDataQueuePeak, if_pos heq] at hpeak
    cases hpeak
  have hstep := DqSys.dqStep_popLoop hpop
  -- the pop takes the first item, and nobody goes to another place
  obtain ⟨hevs, hpc⟩ : evs = [.popped s.dataQueue.q.first] ∧ dq'.pc = s.dataQueue.pc := by
    rw [DqSys.popLoop, if_neg hempty] at hpop
    cases hpop
    refine ⟨rfl, ?_⟩
    dsimp only
    split <;> rfl
  subst hevs
  obtain ⟨l', hholds, hfold⟩ := h.holds.step hstep (by simp)
  obtain ⟨hfirst, rfl⟩ : x = s.dataQueue.q.first ∧ rest = l' := by
    simpa [boundedFifo] using hfold
  have hpeak : dq'.q.rtDataQueuePeak = rest.head? := by
    rw [DataQueue.rtDataQueuePeak_eq, hholds.stored]
  have hphase := h.phase
  rw [hengine] at hphase
  have hnext := hphase.next
  rw [← hpc] at hnext
  have htransmitted := h.transmitted
  rw [hengine] at htransmitted
  have hcomplete : ∀ last y,
      .complete last y ∈ tr ∨ last = some s.dataQueue.q.first ∧ y = x → last = some y := by
    rintro last y (hold | ⟨rfl, rfl⟩)
    · exact h.complete last y hold
    · rw [hfirst]
  dsimp only at he
  rw [hpeak] at he
  refine ⟨rest, ?_⟩
  cases hrest : rest.head? with
  | none =>
    rw [hrest] at he hnext
    cases he
    refine ⟨?_, ?_, ?_, ?_, hnext⟩
    · simpa [queuedBuffers, pushedItems] using hholds
    · simpa [queuedBuffers, finishedBuffers] using h.queued
    · simpa [transmittedBuffers, finishedBuffers] using htransmitted
    · exact fun last y hmem => hcomplete last y (by simpa [poppedItem] using hmem)
  | some z =>
    rw [hrest] at he hnext
    cases he
    refine ⟨?_, ?_, ?_, ?_, hnext⟩
    · simpa [queuedBuffers, pushedItems, dmaTransmit] using hholds
    · simpa [queuedBuffers, finishedBuffers] using h.queued
    · simp only [transmittedBuffers_append, finishedBuffers_append, htransmitted]
      simp [transmittedBuffers, finishedBuffers, dmaTransmit]
    · exact fun last y hmem => hcomplete last y (by simpa [poppedItem] using hmem)

/-- **Every step** at which a writer that starts the engine has the first buffer. -/
theorem inv_step (h : Inv tr s l) (hc : s.StartsFront a)
    (hbound : (queuedBuffers (tr ++ out)).length < 2 ^ 16) (hs : s.step a = some (s', out)) :
    ∃ l', Inv (tr ++ out) s' l' := by
  cases a with
  | write t data =>
    rw [step, ite_none_right_eq_some] at hs
    obtain ⟨⟨hpc, -⟩, hs⟩ := hs
    obtain ⟨⟨dq', evs⟩, hpush, he⟩ := map_eq_some_iff.1 hs
    have hstep := DqSys.dqStep_step (DqSys.pushHasPlace_of_le h.holds.le _) hpush
    rw [DqSys.step, ite_none_right_eq_some] at hpush
    obtain ⟨hplace, hevs⟩ := pushLoop_result hpush.2
    obtain ⟨rfl, rfl⟩ : s' = (s.pushResult t (dq', evs)).1 ∧ out = (s.pushResult t (dq', evs)).2 :=
      ⟨congrArg Prod.fst he.symm, congrArg Prod.snd he.symm⟩
    exact inv_pushResult h (.inl hpc) hstep hplace hevs hbound
  | go t =>
    rw [step, ite_none_right_eq_some] at hs
    obtain ⟨hlive, hs⟩ := hs
    cases hpc : s.pc t with
    | outside =>
      rw [hpc] at hs
      cases hs
    | pushing =>
      rw [hpc, go] at hs
      obtain ⟨⟨dq', evs⟩, hgo, he⟩ := map_eq_some_iff.1 hs
      have hstep := DqSys.dqStep_step (DqSys.pushHasPlace_of_le h.holds.le _) hgo
      obtain ⟨data, hplace⟩ := h.phase.pushing t hpc
      rw [DqSys.step, if_pos hlive, hplace, DqSys.go] at hgo
      obtain ⟨rfl, rfl⟩ : s' = (s.pushResult t (dq', evs)).1 ∧
          out = (s.pushResult t (dq', evs)).2 :=
        ⟨congrArg Prod.fst he.symm, congrArg Prod.snd he.symm⟩
      split at hgo
      · cases hgo
        have hevs : ∀ {evs P}, (∃ err, evs = [DqEvent.failed err]) →
            evs = [.pushed data] ∨ (∃ err, evs = [.failed err]) ∨ P :=
          fun hfailed => .inr (.inl hfailed)
        exact inv_pushResult h (.inr hpc) hstep (fun u hu => update_of_ne hu ..)
          (hevs ⟨_, rfl⟩) hbound
      · obtain ⟨hplace', hevs⟩ := pushLoop_result hgo
        exact inv_pushResult h (.inr hpc) hstep hplace' hevs hbound
    | testing data =>
      simp only [StartsFront, hpc] at hc
      rw [hpc, go] at hs
      split at hs
      · next hact =>
        cases hs
        have hhead := hc hact
        rw [DataQueue.rtDataQueuePeak_eq, h.holds.stored] at hhead
        have hphase := h.phase
        rw [hact] at hphase
        rw [append_nil]
        exact ⟨l, h.holds, h.queued, h.transmitted, h.complete, hphase.activate hpc hhead⟩
      · next hact =>
        cases hs
        have hphase := h.phase
        rw [Bool.eq_true_of_not_eq_false hact] at hphase
        rw [append_nil]
        refine ⟨l, h.holds, h.queued, h.transmitted, h.complete, ?_⟩
        have hleave := hphase.leave hpc
        rw [← Bool.eq_true_of_not_eq_false hact] at hleave
        exact hleave
    | starting data =>
      rw [hpc, go] at hs
      cases hs
      obtain ⟨-, hnone, -, -⟩ := h.phase.starting t data hpc
      have htransmitted := h.transmitted
      rw [hnone] at htransmitted
      refine ⟨l, ?_, ?_, ?_, ?_, h.phase.transmit hpc⟩
      · simpa [queuedBuffers, goto, dmaTransmit] using h.holds
      · simpa [queuedBuffers, finishedBuffers] using h.queued
      · simp only [transmittedBuffers_append, finishedBuffers_append, htransmitted]
        simp [transmittedBuffers, finishedBuffers, goto, dmaTransmit]
      · intro last x hmem
        exact h.complete last x (by simpa using hmem)
  | dmaDone =>
    obtain ⟨x, hengine, hs⟩ := bind_eq_some_iff.1 hs
    exact inv_dmaDone h hengine hs

/-! ### Runs -/

/-- Each buffer is transmitted once, in the order of the queue; the engine gets a buffer when it has
finished the one before, which is the one reported; and it is not idle while a buffer is queued,
unless the writer of a buffer has not yet looked whether it is. -/
structure InOrder (tr : List TxEvent) (s : TxSys Tid) : Prop where
  transmitted : transmittedBuffers tr <+: queuedBuffers tr
  finished : transmittedBuffers tr = finishedBuffers tr ++ s.engine.toList
  complete : ∀ last x, .complete last x ∈ tr → last = some x
  idle : s.engine = none → (∀ t data, s.pc t ≠ .testing data ∧ s.pc t ≠ .starting data) →
    s.dataQueue.q.stored = [] ∧ transmittedBuffers tr = queuedBuffers tr

theorem Inv.inOrder (h : Inv tr s l) : s.InOrder tr := by
  refine ⟨?_, h.transmitted, h.complete, ?_⟩
  · rw [h.transmitted, h.queued]
    cases hengine : s.engine with
    | none => simp
    | some x =>
      obtain ⟨rest, rfl⟩ := head?_eq_some_iff.1 (h.phase.busy x hengine).2.1
      exact ⟨rest, by simp⟩
  · intro hnone hquiet
    have hl : l = [] := by
      by_contra hne
      cases hact : s.activated with
      | true =>
        obtain ⟨t, data, ht⟩ := h.phase.active hact hnone
        exact (hquiet t data).2 ht
      | false =>
        obtain ⟨t, data, ht⟩ := h.phase.idle hact hne
        exact (hquiet t data).1 ht
    refine ⟨h.holds.stored.trans hl, ?_⟩
    rw [h.transmitted, h.queued, hnone, hl]
    rfl

/-- As long as every writer that starts the engine has the first buffer of the queue, the buffers
are transmitted **once and in order**, in every run with at most 65535 of them. -/
theorem run_inOrder (prio : Tid → ℕ) (queue : ℕ → DataItem) (tr : List TxEvent) (s : TxSys Tid)
    (hrun : Run step StartsFront (boot prio queue) tr s)
    (hbound : (queuedBuffers tr).length ≤ 65535) : s.InOrder tr := by
  have hinv : ∃ l, Inv tr s l := by
    revert hbound
    refine hrun.invariant (fun tr s => (queuedBuffers tr).length ≤ 65535 → ∃ l, Inv tr s l) ?_ ?_
    · intro _
      refine ⟨[], ⟨DataQueue.stored_init queue 8 4, ?_, le_rfl, rfl⟩, rfl, rfl, nofun, ?_⟩
      · exact (DataQueue.count_init queue 8 4).trans_le (Nat.zero_le _)
      · exact ⟨nofun, nofun, nofun, fun _ hne => absurd rfl hne, nofun⟩
    · intro tr s a s' out ih hc hs hbound
      have hlen : (queuedBuffers tr).length ≤ 65535 := by
        rw [queuedBuffers_append, length_append] at hbound
        omega
      obtain ⟨l, h⟩ := ih hlen
      exact inv_step h hc (by omega) hs
  obtain ⟨l, h⟩ := hinv
  exact h.inOrder

/-- One writer after the other. -/
def takesTurns : List (TxAction (Fin 2)) :=
  [.write 0 ⟨5, 1⟩, .go 0, .go 0, .write 1 ⟨6, 1⟩, .dmaDone, .go 1, .dmaDone]

theorem run_inOrder_takesTurns :
    ∃ (tr : List TxEvent) (s : TxSys (Fin 2)), finishedBuffers tr = [⟨5, 1⟩, ⟨6, 1⟩] ∧
      s.InOrder tr := by
  have hsome : (exec step StartsFront (boot (fun _ : Fin 2 => 10) fun _ => ⟨0, 0⟩)
      takesTurns).any fun r =>
        finishedBuffers r.2 = [⟨5, 1⟩, ⟨6, 1⟩] ∧ (queuedBuffers r.2).length ≤ 65535 := by
    decide +kernel
  obtain ⟨s, tr, hrun, hfinished, hbound⟩ := Run.of_any hsome
  exact ⟨tr, s, hfinished, run_inOrder (fun _ : Fin 2 => 10) (fun _ => ⟨0, 0⟩) tr s hrun hbound⟩

/-- A writer is preempted between its push and its test by another one, **whose buffer is transmitted
first**; the interrupt then reports the wrong buffer and transmits the other one again. -/
theorem not_run_inOrder :
    ¬ ∀ (prio : Fin 2 → ℕ) (queue : ℕ → DataItem) (tr : List TxEvent) (s : TxSys (Fin 2)),
      Run step (fun _ _ => True) (boot prio queue) tr s →
        (queuedBuffers tr).length ≤ 65535 → s.InOrder tr := by
  intro h
  have hsome : (exec step (fun _ _ => True) (boot (fun _ : Fin 2 => 10) fun _ => ⟨0, 0⟩)
      [.write 0 ⟨5, 1⟩, .write 1 ⟨6, 1⟩, .go 1, .go 1, .go 0, .dmaDone]).any fun r =>
        transmittedBuffers r.2 = [⟨6, 1⟩, ⟨6, 1⟩] ∧ queuedBuffers r.2 = [⟨5, 1⟩, ⟨6, 1⟩] := by
    decide +kernel
  obtain ⟨s, tr, hrun, htransmitted, hqueued⟩ := Run.of_any hsome
  have hbound : (queuedBuffers tr).length ≤ 65535 := by
    rw [hqueued]
    decide
  have hprefix := (h (fun _ => 10) (fun _ => ⟨0, 0⟩) tr s hrun hbound).transmitted
  rw [htransmitted, hqueued] at hprefix
  exact absurd hprefix (by decide)

end TxSys

end RtThread
