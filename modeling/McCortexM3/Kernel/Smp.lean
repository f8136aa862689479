import McCortexM3.Kernel.Thread
import McCortexM3.Run
import Mathlib.Data.UInt

/-!
# Ready queues of several processors

With `RT_USING_SMP` a thread may be bound to a processor.  Its ready queues are then those of
this processor, beside the queues that all processors share, and `scheduler.c` keeps a bitmap
for each of these sets of queues.  The functions run with the lock of `rt_hw_interrupt_disable`
and are whole steps here.

## Main definitions

* `ReadyQueues`, `Smp` — the queues with their bitmap, and the scheduler's state.
* `rtScheduleInsertThread`, `rtScheduleRemoveThread`, `getHighestPriorityThread` — the functions.
* `ClearsRightly` — the removal of a bound thread tests the right table, in effect.

## Main results

* `ReadyQueues.Right.represents_clearBound_iff` — when the removal of a bound thread keeps its
  bitmap.
* `Smp.run_bitmapsRight` — the bitmaps and the thread found, in every run.
-/

set_option linter.all false

namespace RtThread

open Function Option List
open Function (update)

/-- The fields of `struct rt_thread` that the functions use; `bindCpu` is the number of
processors for a thread that is not bound, and `oncpu` is `none` for `RT_CPU_DETACHED`. -/
structure SmpThread where
  stat : Stat
  currentPriority : ℕ
  mask : PrioMask
  bindCpu : ℕ
  oncpu : Option ℕ

/-- `rt_thread_priority_table`, `rt_thread_ready_priority_group` and `rt_thread_ready_table`, or the
fields of these names of `struct rt_cpu`. -/
structure ReadyQueues (Tid : Type) where
  bits : ReadyBitmap
  queue : ℕ → List Tid

/-- The threads, the shared queues, and the queues and the running thread of each processor. -/
structure Smp (Tid : Type) where
  thread : Tid → SmpThread
  ready : ReadyQueues Tid
  pcpu : ℕ → ReadyQueues Tid
  currentThread : ℕ → Option Tid

/-- A build with 64 priorities. -/
@[reducible] def config64 : RtConfig := ⟨64, by decide⟩

namespace ReadyQueues

variable [RtConfig] {Tid : Type} [DecidableEq Tid]

/-- A thread with a priority and its masks is linked behind the last one of its queue. -/
def insert (t : Tid) (p : ℕ) (mask : PrioMask) (q : ReadyQueues Tid) : ReadyQueues Tid where
  bits := q.bits.insertMask priorityMax mask
  queue := update q.queue p (q.queue p ++ [t])

/-- `rt_list_remove(&thread->tlist)`. -/
def listRemove (t : Tid) (q : ReadyQueues Tid) : ReadyQueues Tid :=
  { q with queue := fun p => (q.queue p).filter (· ≠ t) }

/-- The masks are cleared when the queue is empty. -/
def clear (p : ℕ) (mask : PrioMask) (q : ReadyQueues Tid) : ReadyQueues Tid :=
  if q.queue p = [] then { q with bits := q.bits.removeMask priorityMax mask } else q

/-- The masks are cleared in the queues of a processor, where the source tests the byte of
`rt_thread_ready_table`, of which the shared queues are `ready`. -/
def clearBound (ready : ReadyQueues Tid) (p : ℕ) (mask : PrioMask) (q : ReadyQueues Tid) :
    ReadyQueues Tid :=
  if q.queue p = [] then
    if 32 < priorityMax then
      { q with bits :=
        { table := update q.bits.table mask.number
            (q.bits.table mask.number &&& ~~~mask.highMask)
          group :=
            if ready.bits.table mask.number = 0 then q.bits.group &&& ~~~mask.numberMask
            else q.bits.group } }
    else { q with bits := { q.bits with group := q.bits.group &&& ~~~mask.numberMask } }
  else q

/-- The byte of a ready table, with the one behind it in the memory for a number that is not of
the table. -/
def byteAt (q : ReadyQueues Tid) (outside : BitVec 8) (number : UInt32) : BitVec 8 :=
  if number.toNat < 32 then q.bits.table number.toNat else outside

/-- The highest priority that `_get_highest_priority_thread` computes for these queues. -/
def highestReadyPriority (q : ReadyQueues Tid) (outside : BitVec 8) : UInt32 :=
  if 32 < priorityMax then
    let number : UInt32 := .ofNat (rtFfs q.bits.group) - 1
    (number <<< 3) + .ofNat (rtFfs ((q.byteAt outside number).setWidth 32)) - 1
  else .ofNat (rtFfs q.bits.group) - 1

end ReadyQueues

namespace Smp

variable [RtConfig] {Tid : Type} [DecidableEq Tid]

/-- `thread->stat = stat`. -/
def setStat (t : Tid) (stat : Stat) (s : Smp Tid) : Smp Tid :=
  { s with thread := update s.thread t { s.thread t with stat := stat } }

/-- `rt_schedule_insert_thread`, without its messages to the other processors. -/
def rtScheduleInsertThread (cpusNr : ℕ) (t : Tid) (s : Smp Tid) : Smp Tid :=
  let th := s.thread t
  if th.oncpu ≠ none then s.setStat t .running
  else
    let s := s.setStat t .ready
    if th.bindCpu = cpusNr then { s with ready := s.ready.insert t th.currentPriority th.mask }
    else
      { s with
        pcpu := update s.pcpu th.bindCpu
          ((s.pcpu th.bindCpu).insert t th.currentPriority th.mask) }

/-- `rt_schedule_remove_thread`. -/
def rtScheduleRemoveThread (cpusNr : ℕ) (t : Tid) (s : Smp Tid) : Smp Tid :=
  let th := s.thread t
  let s := { s with ready := s.ready.listRemove t, pcpu := fun c => (s.pcpu c).listRemove t }
  if th.bindCpu = cpusNr then { s with ready := s.ready.clear th.currentPriority th.mask }
  else
    { s with
      pcpu := update s.pcpu th.bindCpu
        (.clearBound s.ready th.currentPriority th.mask (s.pcpu th.bindCpu)) }

/-- `_get_highest_priority_thread` on the processor `c`: the thread and its priority.  There is no
thread when the list head that is taken for one belongs to an empty queue. -/
def getHighestPriorityThread (c : ℕ) (outside localOutside : BitVec 8) (s : Smp Tid) :
    Option Tid × UInt32 :=
  if 32 < priorityMax ∧ s.ready.bits.group = 0 ∧ (s.pcpu c).bits.group = 0 then
    (s.currentThread c, .ofNat ((s.currentThread c).elim 0 fun t => (s.thread t).currentPriority))
  else
    let highest := s.ready.highestReadyPriority outside
    let localHighest := (s.pcpu c).highestReadyPriority localOutside
    if highest < localHighest then ((s.ready.queue highest.toNat).head?, highest)
    else (((s.pcpu c).queue localHighest.toNat).head?, localHighest)

end Smp

/-! ### The highest priority of a bitmap -/

namespace ReadyQueues

variable [RtConfig] {Tid : Type} [DecidableEq Tid] {q : ReadyQueues Tid}

theorem highestReadyPriority_of_zero (h : q.bits.group = 0) (outside : BitVec 8) :
    256 ≤ (q.highestReadyPriority outside).toNat := by
  have hffs : ∀ b : BitVec 8, rtFfs (b.setWidth 32) ≤ 8 := by
    intro b
    by_cases hb : b.setWidth 32 = 0#32
    · rw [hb]
      decide
    · obtain ⟨-, hlow⟩ := rtFfs_spec hb
      have hbit := hlow.1
      rw [BitVec.getLsbD_setWidth, Bool.and_eq_true] at hbit
      have hlt := BitVec.lt_of_getLsbD hbit.2
      omega
  have hall : ∀ r ≤ 8, 256 ≤ (((.ofNat (rtFfs 0) - 1 : UInt32) <<< 3) + .ofNat r - 1).toNat := by
    decide
  unfold highestReadyPriority
  rw [h]
  split
  · exact hall _ (hffs _)
  · decide

theorem highestReadyPriority_of_ne (h : q.bits.group ≠ 0)
    (hbits : q.bits.Represents priorityMax fun p => q.queue p ≠ []) (outside : BitVec 8) :
    (q.highestReadyPriority outside).toNat = q.bits.highestPriority priorityMax := by
  obtain ⟨hpos, hlow⟩ := rtFfs_spec h
  have hlt := hlow.lt
  have hnumber : (.ofNat (rtFfs q.bits.group) - 1 : UInt32) = .ofNat (rtFfs q.bits.group - 1) := by
    rw [← Nat.sub_add_cancel hpos, UInt32.ofNat_add, Nat.add_sub_cancel]
    exact add_sub_cancel_right _ _
  have hnat : (.ofNat (rtFfs q.bits.group - 1) : UInt32).toNat = rtFfs q.bits.group - 1 :=
    UInt32.toNat_ofNat_of_lt' (show _ < 2 ^ 32 by omega)
  unfold highestReadyPriority ReadyBitmap.highestPriority
  dsimp only
  rw [hnumber]
  split
  · next h32 =>
    have hbyte : q.byteAt outside (.ofNat (rtFfs q.bits.group - 1)) =
        q.bits.table (rtFfs q.bits.group - 1) := by
      unfold byteAt
      rw [hnat, if_pos hlt]
    rw [hbyte]
    -- the byte holds a bit, so that the two subtractions of one agree
    have hne : q.bits.table (rtFfs q.bits.group - 1) ≠ 0 := by
      unfold ReadyBitmap.Represents at hbits
      rw [if_pos h32] at hbits
      exact (hbits.2 _ hlt).1 hlow.1
    have hwide : (q.bits.table (rtFfs q.bits.group - 1)).setWidth 32 ≠ 0 := by
      intro hz
      apply hne
      apply BitVec.eq_of_getLsbD_eq
      intro i hi
      have hbit := congrArg (fun w => w.getLsbD i) hz
      simpa [show i < 32 by omega] using hbit
    obtain ⟨hpos', hlow'⟩ := rtFfs_spec hwide
    have hlt' := hlow'.lt
    generalize rtFfs ((q.bits.table (rtFfs q.bits.group - 1)).setWidth 32) = k at *
    generalize rtFfs q.bits.group - 1 = n at *
    have hk : (.ofNat k : UInt32).toNat = k := UInt32.toNat_ofNat_of_lt' (show k < 2 ^ 32 by omega)
    have hthree : (3 : UInt32).toNat % 32 = 3 := rfl
    rw [UInt32.toNat_sub, UInt32.toNat_add, UInt32.toNat_shiftLeft, hnat, hk, hthree,
      UInt32.toNat_one, Nat.shiftLeft_eq]
    omega
  · exact hnat

/-! ### One set of queues -/

/-- The threads in a queue are those that have the queues and its priority, and the bitmap is
that of the queues that are not empty. -/
structure Right (prio : Tid → ℕ) (mine : Tid → Prop) (q : ReadyQueues Tid) : Prop where
  mem : ∀ p t, t ∈ q.queue p → mine t ∧ prio t = p
  bits : q.bits.Represents priorityMax fun p => q.queue p ≠ []

/-- When the removal of the thread `t` of the priority `p` empties its queue, the byte of the shared
table is zero exactly when that of the processor becomes zero (or has been zero). -/
def ClearsRightly (ready : ReadyQueues Tid) (t : Tid) (p : ℕ) (mask : PrioMask)
    (q : ReadyQueues Tid) : Prop :=
  (q.listRemove t).queue p = [] → 32 < priorityMax → q.bits.table mask.number ≠ 0 →
    (ready.bits.table mask.number = 0 ↔ q.bits.table mask.number &&& ~~~mask.highMask = 0)

variable {prio prio' : Tid → ℕ} {mine mine' : Tid → Prop} {t : Tid} {p : ℕ}
  {ready : ReadyQueues Tid}

theorem Right.lt (h : q.Right prio mine) (hprio : ∀ t, prio t < priorityMax)
    (hp : q.queue p ≠ []) : p < priorityMax := by
  obtain ⟨t, ht⟩ := exists_mem_of_ne_nil _ hp
  rw [← (h.mem p t ht).2]
  exact hprio t

theorem Right.congr (h : q.Right prio mine)
    (hmem : ∀ p t, t ∈ q.queue p → mine' t ∧ prio' t = prio t) : q.Right prio' mine' := by
  refine ⟨?_, h.bits⟩
  intro p t ht
  obtain ⟨hmine, hprio⟩ := hmem p t ht
  exact ⟨hmine, hprio.trans (h.mem p t ht).2⟩

theorem Right.insert (h : q.Right prio mine) (ht : mine t) (hlt : prio t < priorityMax) :
    (q.insert t (prio t) (prioMask priorityMax (prio t))).Right prio mine := by
  refine ⟨?_, ?_⟩
  · intro p u hu
    by_cases hp : p = prio t
    · subst hp
      have hu' : u ∈ q.queue (prio t) ∨ u = t := by simpa [ReadyQueues.insert] using hu
      rcases hu' with hu' | rfl
      · exact h.mem _ u hu'
      · exact ⟨ht, rfl⟩
    · have hu' : u ∈ q.queue p := by simpa [ReadyQueues.insert, hp] using hu
      exact h.mem p u hu'
  · apply (h.bits.insertMask priorityMax_le hlt).congr
    intro p
    by_cases hp : p = prio t
    · subst hp
      simp [ReadyQueues.insert]
    · simp [ReadyQueues.insert, hp]

@[simp] theorem bits_listRemove (t : Tid) (q : ReadyQueues Tid) :
    (q.listRemove t).bits = q.bits := rfl

theorem Right.mem_listRemove (h : q.Right prio mine) :
    ∀ p u, u ∈ (q.listRemove t).queue p → mine u ∧ prio u = p :=
  fun p u hu => h.mem p u (mem_of_mem_filter hu)

@[simp] theorem queue_clearBound (ready : ReadyQueues Tid) (p : ℕ) (mask : PrioMask)
    (q : ReadyQueues Tid) : (clearBound ready p mask q).queue = q.queue := by
  unfold clearBound
  split_ifs <;> rfl

section

variable (h : q.Right prio mine)
include h

theorem Right.queue_listRemove (hp : p ≠ prio t) : (q.listRemove t).queue p = q.queue p := by
  apply filter_eq_self.2
  intro u hu
  have hne : u ≠ t := by
    rintro rfl
    exact hp (h.mem p u hu).2.symm
  simpa using hne

theorem Right.listRemove_of_not (ht : ¬ mine t) : q.listRemove t = q := by
  have hqueue : (q.listRemove t).queue = q.queue := by
    funext p
    apply filter_eq_self.2
    intro u hu
    have hne : u ≠ t := by
      rintro rfl
      exact ht (h.mem p u hu).1
    simpa using hne
  cases q
  exact congrArg _ hqueue

/-- The queues lose a thread and their bitmap the priority, if nobody else has it. -/
theorem Right.represents_removeMask (hlt : prio t < priorityMax)
    (hnil : (q.listRemove t).queue (prio t) = []) :
    (q.bits.removeMask priorityMax (prioMask priorityMax (prio t))).Represents priorityMax
      fun p => (q.listRemove t).queue p ≠ [] := by
  apply (h.bits.removeMask priorityMax_le hlt).congr
  intro p
  by_cases hp : p = prio t
  · subst hp
    simp [hnil]
  · rw [h.queue_listRemove hp]
    exact and_iff_left hp

theorem Right.represents_listRemove (hne : (q.listRemove t).queue (prio t) ≠ []) :
    q.bits.Represents priorityMax fun p => (q.listRemove t).queue p ≠ [] := by
  apply h.bits.congr
  intro p
  by_cases hp : p = prio t
  · subst hp
    refine iff_of_true ?_ hne
    intro hnil
    apply hne
    unfold ReadyQueues.listRemove
    dsimp only
    rw [hnil, filter_nil]
  · rw [h.queue_listRemove hp]

theorem Right.remove (hlt : prio t < priorityMax) :
    ((q.listRemove t).clear (prio t) (prioMask priorityMax (prio t))).Right prio mine := by
  unfold ReadyQueues.clear
  split
  · next hnil => exact ⟨h.mem_listRemove, h.represents_removeMask hlt hnil⟩
  · next hne => exact ⟨h.mem_listRemove, h.represents_listRemove hne⟩

end

theorem getLsbD_and_not_shiftLeft (w : BitVec 32) {m n : ℕ} (hm : m < 32) (hn : n < 32) :
    (w &&& ~~~(1#32 <<< m)).getLsbD n = true ↔ w.getLsbD n = true ∧ n ≠ m := by
  rw [BitVec.getLsbD_and, BitVec.getLsbD_not, ReadyBitmap.getLsbD_one_shiftLeft hm]
  simp [hn]

/-- The bitmap of a processor stays right **exactly when** the table that is tested agrees with its
own. -/
theorem Right.represents_clearBound_iff (h : q.Right prio mine) (hlt : prio t < priorityMax) :
    ((clearBound ready (prio t) (prioMask priorityMax (prio t)) (q.listRemove t)).bits.Represents
      priorityMax fun p => (q.listRemove t).queue p ≠ []) ↔
      ClearsRightly ready t (prio t) (prioMask priorityMax (prio t)) q := by
  unfold clearBound ClearsRightly
  by_cases hnil : (q.listRemove t).queue (prio t) = []
  · rw [if_pos hnil]
    have hremove := h.represents_removeMask hlt hnil
    by_cases h32 : 32 < priorityMax
    · have hbits := h.bits
      simp only [ReadyBitmap.Represents, ReadyBitmap.removeMask, if_pos h32,
        ReadyBitmap.prioMask_of_gt h32, bits_listRemove] at hremove hbits ⊢
      obtain ⟨htable, hgroup⟩ := hremove
      have hmax := priorityMax_le
      have hm : prio t / 8 < 32 := by omega
      have hbefore := hbits.2 (prio t / 8) hm
      have hclear := fun n (hn : n < 32) => getLsbD_and_not_shiftLeft q.bits.group hm hn
      have hself : update q.bits.table (prio t / 8)
          (q.bits.table (prio t / 8) &&& ~~~(1#8 <<< (prio t % 8))) (prio t / 8) =
            q.bits.table (prio t / 8) &&& ~~~(1#8 <<< (prio t % 8)) := update_self ..
      constructor
      · rintro ⟨-, hg⟩ - - hne
        have hbit := hg (prio t / 8) hm
        rw [hself] at hbit
        constructor
        · intro hready
          by_contra hafter
          have hset := hbit.2 hafter
          rw [if_pos hready] at hset
          exact ((hclear _ hm).1 hset).2 rfl
        · intro hafter
          by_contra hready
          rw [if_neg hready] at hbit
          exact hbit.1 (hbefore.2 hne) hafter
      · intro hagree
        refine ⟨htable, ?_⟩
        intro n hn
        by_cases hnm : n = prio t / 8
        · subst hnm
          rw [hself]
          by_cases hzero : q.bits.table (prio t / 8) = 0
          · -- the bit of the group has been clear before
            have hoff : ¬ q.bits.group.getLsbD (prio t / 8) = true := fun hon => hbefore.1 hon hzero
            rw [hzero]
            refine iff_of_false ?_ (not_not.2 BitVec.zero_and)
            split
            · exact fun hon => hoff ((hclear _ hm).1 hon).1
            · exact hoff
          · have hiff := hagree hnil h32 hzero
            split
            · next hready =>
              refine iff_of_false (fun hon => ((hclear _ hm).1 hon).2 rfl) ?_
              exact not_not.2 (hiff.1 hready)
            · next hready =>
              exact iff_of_true (hbefore.2 hzero) fun hafter => hready (hiff.2 hafter)
        · -- the other bits do not depend on the test
          rw [← hgroup n hn]
          have hsame : ∀ c : Prop, ∀ _ : Decidable c, (if c then
              q.bits.group &&& ~~~(1#32 <<< (prio t / 8)) else q.bits.group).getLsbD n = true ↔
                q.bits.group.getLsbD n = true := by
            intro c _
            split
            · rw [hclear n hn]
              exact and_iff_left hnm
            · exact Iff.rfl
          rw [hsame, hsame]
    · simp only [ReadyBitmap.removeMask, if_neg h32] at hremove ⊢
      exact iff_of_true hremove fun _ h' => absurd h' h32
  · rw [if_neg hnil]
    exact iff_of_true (h.represents_listRemove hnil) fun hnil' => absurd hnil' hnil

theorem Right.queue_eq_nil (h : q.Right prio mine) (hprio : ∀ t, prio t < priorityMax)
    (hzero : q.bits.group = 0) (p : ℕ) : q.queue p = [] :=
  not_not.1 ((h.bits.group_eq_zero priorityMax_le fun _ => h.lt hprio).1 hzero p)

/-- The queue of the priority that is computed **has a thread**, and no queue before it has one. -/
theorem Right.highestReadyPriority (h : q.Right prio mine) (hprio : ∀ t, prio t < priorityMax)
    (hne : q.bits.group ≠ 0) (outside : BitVec 8) :
    ∃ t, (q.queue (q.highestReadyPriority outside).toNat).head? = some t ∧
      (q.highestReadyPriority outside).toNat < priorityMax ∧
      ∀ p, q.queue p ≠ [] → (q.highestReadyPriority outside).toNat ≤ p := by
  obtain ⟨hqueue, hleast⟩ := h.bits.highestPriority priorityMax_le (fun _ => h.lt hprio) hne
  rw [highestReadyPriority_of_ne hne h.bits]
  obtain ⟨t, l, hl⟩ := exists_cons_of_ne_nil hqueue
  refine ⟨t, ?_, h.lt hprio hqueue, hleast⟩
  rw [hl]
  rfl

end ReadyQueues

/-! ### Runs -/

/-- What can happen next: a thread is inserted or removed, its priority is changed, a processor
begins or ends to run it. -/
inductive SmpAction (Tid : Type)
  | insert (t : Tid)
  | remove (t : Tid)
  | setPriority (t : Tid) (p : ℕ)
  | setOncpu (t : Tid) (oncpu : Option ℕ)
  | setCurrent (c : ℕ) (t : Option Tid)

namespace Smp

variable [RtConfig] {Tid : Type} [DecidableEq Tid]

/-- The thread is in its ready queue. -/
def Queued (cpusNr : ℕ) (s : Smp Tid) (t : Tid) : Prop :=
  let th := s.thread t
  if th.bindCpu = cpusNr then t ∈ s.ready.queue th.currentPriority
  else t ∈ (s.pcpu th.bindCpu).queue th.currentPriority

instance (cpusNr : ℕ) (s : Smp Tid) (t : Tid) : Decidable (s.Queued cpusNr t) := by
  unfold Queued
  infer_instance

/-- `thread->current_priority = p`, with the masks computed from it. -/
def setPriority (t : Tid) (p : ℕ) (s : Smp Tid) : Smp Tid :=
  { s with
    thread := update s.thread t
      { s.thread t with currentPriority := p, mask := prioMask priorityMax p } }

/-- One step.  The callers insert a thread that is in no queue, and change the priority of a
thread after they have removed it. -/
def step (cpusNr : ℕ) (s : Smp Tid) : SmpAction Tid → Option (Smp Tid × List Unit)
  | .insert t =>
    if s.Queued cpusNr t then none else some (s.rtScheduleInsertThread cpusNr t, [])
  | .remove t => some (s.rtScheduleRemoveThread cpusNr t, [])
  | .setPriority t p =>
    if s.Queued cpusNr t ∨ priorityMax ≤ p then none else some (s.setPriority t p, [])
  | .setOncpu t oncpu =>
    some ({ s with thread := update s.thread t { s.thread t with oncpu := oncpu } }, [])
  | .setCurrent c t => some ({ s with currentThread := update s.currentThread c t }, [])

/-- `rt_system_scheduler_init` for threads with these priorities, bound to these processors. -/
def boot (prio bindCpu : Tid → ℕ) : Smp Tid where
  thread := fun t => ⟨.init, prio t, prioMask priorityMax (prio t), bindCpu t, none⟩
  ready := ⟨.empty, fun _ => []⟩
  pcpu := fun _ => ⟨.empty, fun _ => []⟩
  currentThread := fun _ => none

/-- The removal of a bound thread tests a table that agrees with that of its processor. -/
def ClearsRightly (cpusNr : ℕ) (s : Smp Tid) : SmpAction Tid → Prop
  | .remove t =>
    let th := s.thread t
    th.bindCpu ≠ cpusNr →
      ReadyQueues.ClearsRightly s.ready t th.currentPriority th.mask (s.pcpu th.bindCpu)
  | _ => True

instance (cpusNr : ℕ) (s : Smp Tid) (a : SmpAction Tid) : Decidable (s.ClearsRightly cpusNr a) := by
  unfold ClearsRightly ReadyQueues.ClearsRightly
  split <;> infer_instance

/-- The queues hold the threads that have them, with their priorities, and the bitmaps are those
of the queues. -/
structure Inv (cpusNr : ℕ) (s : Smp Tid) : Prop where
  mask : ∀ t, (s.thread t).mask = prioMask priorityMax (s.thread t).currentPriority
  prio_lt : ∀ t, (s.thread t).currentPriority < priorityMax
  ready : s.ready.Right (fun t => (s.thread t).currentPriority) fun t =>
    (s.thread t).bindCpu = cpusNr
  pcpu : ∀ c, (s.pcpu c).Right (fun t => (s.thread t).currentPriority) fun t =>
    (s.thread t).bindCpu = c ∧ c ≠ cpusNr

variable {cpusNr : ℕ} {s s' : Smp Tid} {a : SmpAction Tid} {out : List Unit} {t : Tid} {p : ℕ}

section

variable (h : s.Inv cpusNr)
include h

theorem Inv.modify {th : SmpThread} (hmask : th.mask = (s.thread t).mask)
    (hprio : th.currentPriority = (s.thread t).currentPriority)
    (hbind : th.bindCpu = (s.thread t).bindCpu) :
    ({ s with thread := update s.thread t th }).Inv cpusNr := by
  have hsame : ∀ u, (update s.thread t th u).mask = (s.thread u).mask ∧
      (update s.thread t th u).currentPriority = (s.thread u).currentPriority ∧
      (update s.thread t th u).bindCpu = (s.thread u).bindCpu := by
    intro u
    by_cases hu : u = t
    · subst hu
      rw [update_self]
      exact ⟨hmask, hprio, hbind⟩
    · rw [update_of_ne hu]
      exact ⟨rfl, rfl, rfl⟩
  refine ⟨?_, ?_, ?_, ?_⟩
  · intro u
    rw [(hsame u).1, (hsame u).2.1]
    exact h.mask u
  · intro u
    rw [(hsame u).2.1]
    exact h.prio_lt u
  · apply h.ready.congr
    intro p u hu
    exact ⟨(hsame u).2.2.trans (h.ready.mem p u hu).1, (hsame u).2.1⟩
  · intro c
    apply (h.pcpu c).congr
    intro p u hu
    obtain ⟨⟨hbind, hne⟩, -⟩ := (h.pcpu c).mem p u hu
    exact ⟨⟨(hsame u).2.2.trans hbind, hne⟩, (hsame u).2.1⟩

theorem inv_insert (t : Tid) : (s.rtScheduleInsertThread cpusNr t).Inv cpusNr := by
  have hstat : ∀ stat, (s.setStat t stat).Inv cpusNr := fun stat => h.modify rfl rfl rfl
  unfold rtScheduleInsertThread
  dsimp only
  split
  · exact hstat .running
  · have hprio : ((s.setStat t .ready).thread t).currentPriority =
        (s.thread t).currentPriority := by simp [setStat]
    have hbind : ((s.setStat t .ready).thread t).bindCpu = (s.thread t).bindCpu := by simp [setStat]
    have hready := hstat .ready
    split
    · next hshared =>
      refine ⟨hready.mask, hready.prio_lt, ?_, hready.pcpu⟩
      have hins := hready.ready.insert (hbind.trans hshared) (hready.prio_lt t)
      rw [hprio, ← h.mask t] at hins
      exact hins
    · next hbound =>
      refine ⟨hready.mask, hready.prio_lt, hready.ready, ?_⟩
      intro c
      show (update (s.setStat t .ready).pcpu _ _ c).Right _ _
      by_cases hc : c = (s.thread t).bindCpu
      · subst hc
        rw [update_self]
        have hins := (hready.pcpu (s.thread t).bindCpu).insert ⟨hbind, hbound⟩ (hready.prio_lt t)
        rw [hprio, ← h.mask t] at hins
        exact hins
      · rw [update_of_ne hc]
        exact hready.pcpu c

theorem inv_remove (hc : s.ClearsRightly cpusNr (.remove t)) :
    (s.rtScheduleRemoveThread cpusNr t).Inv cpusNr := by
  unfold rtScheduleRemoveThread
  dsimp only
  split
  · next hshared =>
    refine ⟨h.mask, h.prio_lt, ?_, ?_⟩
    · rw [h.mask t]
      exact h.ready.remove (h.prio_lt t)
    · intro c
      show ((s.pcpu c).listRemove t).Right _ _
      rw [(h.pcpu c).listRemove_of_not fun hmine => hmine.2 (hmine.1.symm.trans hshared)]
      exact h.pcpu c
  · next hbound =>
    have hready : s.ready.listRemove t = s.ready := h.ready.listRemove_of_not hbound
    refine ⟨h.mask, h.prio_lt, ?_, ?_⟩
    · show (s.ready.listRemove t).Right _ _
      rw [hready]
      exact h.ready
    · intro c
      show (update (fun c => (s.pcpu c).listRemove t) _ _ c).Right _ _
      by_cases hcpu : c = (s.thread t).bindCpu
      · subst hcpu
        have hclears := hc hbound
        rw [update_self, hready, h.mask t]
        rw [h.mask t] at hclears
        have hbits := ((h.pcpu _).represents_clearBound_iff (h.prio_lt t)).2 hclears
        refine ⟨?_, ?_⟩
        · rw [ReadyQueues.queue_clearBound]
          exact (h.pcpu _).mem_listRemove
        · rw [ReadyQueues.queue_clearBound]
          exact hbits
      · rw [update_of_ne hcpu]
        show ((s.pcpu c).listRemove t).Right _ _
        rw [(h.pcpu c).listRemove_of_not fun hmine => hcpu hmine.1.symm]
        exact h.pcpu c

theorem Inv.not_mem (ht : ¬ s.Queued cpusNr t) :
    (∀ p, t ∉ s.ready.queue p) ∧ ∀ c p, t ∉ (s.pcpu c).queue p := by
  unfold Queued at ht
  refine ⟨?_, ?_⟩
  · intro p hp
    obtain ⟨hmine, hprio⟩ := h.ready.mem p t hp
    rw [if_pos hmine] at ht
    rw [← hprio] at hp
    exact ht hp
  · intro c p hp
    obtain ⟨⟨hbind, hne⟩, hprio⟩ := (h.pcpu c).mem p t hp
    dsimp only at ht
    rw [if_neg (hbind ▸ hne), hbind, hprio] at ht
    exact ht hp

theorem inv_setPriority (ht : ¬ s.Queued cpusNr t) (hp : p < priorityMax) :
    (s.setPriority t p).Inv cpusNr := by
  obtain ⟨hready, hpcpu⟩ := h.not_mem ht
  have hother : ∀ u, u ≠ t → (s.setPriority t p).thread u = s.thread u :=
    fun u hu => update_of_ne hu ..
  have hself : (s.setPriority t p).thread t =
      { s.thread t with currentPriority := p, mask := prioMask priorityMax p } :=
    update_self ..
  refine ⟨?_, ?_, ?_, ?_⟩
  · intro u
    by_cases hu : u = t
    · subst hu
      rw [hself]
    · rw [hother u hu]
      exact h.mask u
  · intro u
    by_cases hu : u = t
    · subst hu
      rw [hself]
      exact hp
    · rw [hother u hu]
      exact h.prio_lt u
  · apply h.ready.congr
    intro q u hu
    rw [hother u fun he => hready q (he ▸ hu)]
    exact ⟨(h.ready.mem q u hu).1, rfl⟩
  · intro c
    apply (h.pcpu c).congr
    intro q u hu
    rw [hother u fun he => hpcpu c q (he ▸ hu)]
    exact ⟨((h.pcpu c).mem q u hu).1, rfl⟩

theorem inv_step (hc : s.ClearsRightly cpusNr a)
    (hs : s.step cpusNr a = some (s', out)) : s'.Inv cpusNr := by
  unfold step at hs
  cases a with
  | insert t =>
    obtain ⟨-, rfl, -⟩ : ¬ s.Queued cpusNr t ∧ s.rtScheduleInsertThread cpusNr t = s' ∧ [] = out := by
      simpa using hs
    exact inv_insert h t
  | remove t =>
    obtain ⟨rfl, -⟩ : s.rtScheduleRemoveThread cpusNr t = s' ∧ [] = out := by simpa using hs
    exact inv_remove h hc
  | setPriority t p =>
    obtain ⟨⟨hq, hp⟩, rfl, -⟩ :
        (¬ s.Queued cpusNr t ∧ p < priorityMax) ∧ s.setPriority t p = s' ∧ [] = out := by
      simpa using hs
    exact inv_setPriority h hq hp
  | setOncpu t oncpu =>
    obtain ⟨rfl, -⟩ := Prod.mk.inj (some.inj hs)
    exact h.modify rfl rfl rfl
  | setCurrent c t =>
    obtain ⟨rfl, -⟩ := Prod.mk.inj (some.inj hs)
    exact ⟨h.mask, h.prio_lt, h.ready, h.pcpu⟩

end

theorem inv_boot {prio bindCpu : Tid → ℕ} (hprio : ∀ t, prio t < priorityMax) :
    (boot prio bindCpu).Inv cpusNr := by
  have hempty : ∀ (prio : Tid → ℕ) (mine : Tid → Prop),
      (⟨.empty, fun _ => []⟩ : ReadyQueues Tid).Right prio mine := by
    intro prio mine
    refine ⟨fun p t ht => absurd ht not_mem_nil, ?_⟩
    exact (ReadyBitmap.represents_empty _).congr fun p => by simp
  exact ⟨fun _ => rfl, hprio, hempty _ _, fun _ => hempty _ _⟩

/-- The thread is in one of the queues that a processor takes its next thread from. -/
def ReadyOn (c : ℕ) (s : Smp Tid) (t : Tid) : Prop :=
  ∃ p, t ∈ s.ready.queue p ∨ t ∈ (s.pcpu c).queue p

/-- The thread found is ready and **none is ready with a higher priority**, when the test of the
callers has found a group that is not zero. -/
theorem getHighestPriorityThread_spec (h : s.Inv cpusNr) {c : ℕ}
    (hne : s.ready.bits.group ≠ 0 ∨ (s.pcpu c).bits.group ≠ 0) (outside localOutside : BitVec 8) :
    ∃ t p, s.getHighestPriorityThread c outside localOutside = (some t, p) ∧ s.ReadyOn c t ∧
      (s.thread t).currentPriority = p.toNat ∧
      ∀ u, s.ReadyOn c u → (s.thread t).currentPriority ≤ (s.thread u).currentPriority := by
  have hmax : priorityMax ≤ 256 := priorityMax_le
  have hguard : ¬ (32 < priorityMax ∧ s.ready.bits.group = 0 ∧ (s.pcpu c).bits.group = 0) := by
    rintro ⟨-, hzero, hzero'⟩
    exact hne.elim (fun h => h hzero) fun h => h hzero'
  -- a set of queues gives its least priority, or a number that is larger than all
  have hshared := h.ready.highestReadyPriority h.prio_lt
  have hlocal := (h.pcpu c).highestReadyPriority h.prio_lt
  have hshared0 := ReadyQueues.highestReadyPriority_of_zero (q := s.ready)
  have hlocal0 := ReadyQueues.highestReadyPriority_of_zero (q := s.pcpu c)
  unfold getHighestPriorityThread
  rw [if_neg hguard]
  dsimp only
  split
  · next hlt =>
    rw [UInt32.lt_iff_toNat_lt] at hlt
    have hg : s.ready.bits.group ≠ 0 := by
      intro hzero
      have hbig := hshared0 hzero outside
      obtain ⟨-, -, hsmall, -⟩ := hlocal (hne.resolve_left fun h => h hzero) localOutside
      omega
    obtain ⟨t, hhead, hsmall, hleast⟩ := hshared hg outside
    have hmem := mem_of_mem_head? hhead
    have hprio := (h.ready.mem _ t hmem).2
    refine ⟨t, _, Prod.ext hhead rfl, ⟨_, .inl hmem⟩, hprio, ?_⟩
    rintro u ⟨p, hu | hu⟩
    · rw [hprio, (h.ready.mem p u hu).2]
      exact hleast p (ne_nil_of_mem hu)
    · rw [hprio, ((h.pcpu c).mem p u hu).2]
      by_cases hl : (s.pcpu c).bits.group = 0
      · rw [(h.pcpu c).queue_eq_nil h.prio_lt hl] at hu
        cases hu
      · obtain ⟨-, -, -, hleast'⟩ := hlocal hl localOutside
        exact hlt.le.trans (hleast' p (ne_nil_of_mem hu))
  · next hge =>
    rw [UInt32.lt_iff_toNat_lt, not_lt] at hge
    have hl : (s.pcpu c).bits.group ≠ 0 := by
      intro hzero
      have hbig := hlocal0 hzero localOutside
      obtain ⟨-, -, hsmall, -⟩ := hshared (hne.resolve_right fun h => h hzero) outside
      omega
    obtain ⟨t, hhead, hsmall, hleast⟩ := hlocal hl localOutside
    have hmem := mem_of_mem_head? hhead
    have hprio := ((h.pcpu c).mem _ t hmem).2
    refine ⟨t, _, Prod.ext hhead rfl, ⟨_, .inr hmem⟩, hprio, ?_⟩
    rintro u ⟨p, hu | hu⟩
    · rw [hprio, (h.ready.mem p u hu).2]
      by_cases hg : s.ready.bits.group = 0
      · rw [h.ready.queue_eq_nil h.prio_lt hg] at hu
        cases hu
      · obtain ⟨-, -, -, hleast'⟩ := hshared hg outside
        exact hge.trans (hleast' p (ne_nil_of_mem hu))
    · rw [hprio, ((h.pcpu c).mem p u hu).2]
      exact hleast p (ne_nil_of_mem hu)

/-- While the removal of bound threads tests a table that agrees with their own, each bitmap is
that of its queues, in every run of any number of processors, and the thread that is found is
**ready and of the highest priority**. -/
theorem run_bitmapsRight (cpusNr : ℕ) {prio bindCpu : Tid → ℕ} (hprio : ∀ t, prio t < priorityMax)
    {out : List Unit} {s : Smp Tid}
    (hrun : Run (step cpusNr) (ClearsRightly cpusNr) (boot prio bindCpu) out s) :
    (s.ready.bits.Represents priorityMax fun p => s.ready.queue p ≠ []) ∧
      (∀ c, (s.pcpu c).bits.Represents priorityMax fun p => (s.pcpu c).queue p ≠ []) ∧
      ∀ c outside localOutside,
        (32 < priorityMax → s.ready.bits.group = 0 → (s.pcpu c).bits.group = 0 →
          (s.getHighestPriorityThread c outside localOutside).1 = s.currentThread c) ∧
        (s.ready.bits.group ≠ 0 ∨ (s.pcpu c).bits.group ≠ 0 →
          ∃ t p, s.getHighestPriorityThread c outside localOutside = (some t, p) ∧
            s.ReadyOn c t ∧ (s.thread t).currentPriority = p.toNat ∧
            ∀ u, s.ReadyOn c u →
              (s.thread t).currentPriority ≤ (s.thread u).currentPriority) := by
  have h : s.Inv cpusNr := hrun.invariant (fun _ s => s.Inv cpusNr) (inv_boot hprio) inv_step
  refine ⟨h.ready.bits, fun c => (h.pcpu c).bits, ?_⟩
  intro c outside localOutside
  refine ⟨?_, fun hne => getHighestPriorityThread_spec h hne outside localOutside⟩
  intro h32 hg hl
  unfold getHighestPriorityThread
  rw [if_pos ⟨h32, hg, hl⟩]

end Smp

namespace Smp

/-- Two threads that are bound to the first of two processors. -/
def boundBoot [RtConfig] (prio : Fin 2 → ℕ) : Smp (Fin 2) := boot prio fun _ => 0

/-- Both become ready and one of them is removed. -/
def removesOne : List (SmpAction (Fin 2)) := [.insert 0, .insert 1, .remove 0]

/-- Two threads of one priority. -/
theorem run_bitmapsRight_boundPair :
    letI := config64
    ∃ s : Smp (Fin 2), (s.pcpu 0).queue 5 = [1] ∧
      ((s.pcpu 0).bits.Represents priorityMax fun p => (s.pcpu 0).queue p ≠ []) ∧
      ∃ t p, s.getHighestPriorityThread 0 0 0 = (some t, p) ∧ s.ReadyOn 0 t := by
  let _ := config64
  have hsome : (exec (step 2) (ClearsRightly 2) (boundBoot fun _ => 5) removesOne).any fun r =>
      (r.1.pcpu 0).queue 5 = [1] ∧ (r.1.pcpu 0).bits.group ≠ 0 := by
    decide +kernel
  obtain ⟨s, out, hrun, hqueue, hgroup⟩ := Run.of_any hsome
  obtain ⟨-, hbits, hfind⟩ := run_bitmapsRight 2 (fun _ => by decide) hrun
  obtain ⟨t, p, hfound, hready, -⟩ := (hfind 0 0 0).2 (.inr hgroup)
  exact ⟨s, hqueue, hbits 0, t, p, hfound, hready⟩

/-- Of two threads with the priorities 5 and 6 the first is removed, and **the second one vanishes**
from the bitmap of its processor, since the byte of the shared table is zero. -/
theorem not_run_bitmapsRight :
    ¬ ∀ [RtConfig] (cpusNr : ℕ) (prio bindCpu : Fin 2 → ℕ) (_ : ∀ t, prio t < priorityMax)
      (out : List Unit) (s : Smp (Fin 2)),
      Run (step cpusNr) (fun _ _ => True) (boot prio bindCpu) out s →
        ∀ c, (s.pcpu c).bits.Represents priorityMax fun p => (s.pcpu c).queue p ≠ [] := by
  intro h
  let _ := config64
  have hsome : (exec (step 2) (fun _ _ => True) (boundBoot fun t => 5 + t.val) removesOne).any
      fun r => (r.1.pcpu 0).bits.group = 0 ∧ (r.1.pcpu 0).queue 6 = [1] := by
    decide +kernel
  obtain ⟨s, out, hrun, hgroup, hqueue⟩ := Run.of_any hsome
  have hbits := h 2 (fun t => 5 + t.val) (fun _ => 0) (by decide) out s hrun 0
  unfold ReadyBitmap.Represents at hbits
  rw [if_pos (show 32 < priorityMax by decide)] at hbits
  have hbit : ((s.pcpu 0).bits.table 0).getLsbD 6 = true := by
    apply (hbits.1 6 (by decide)).2
    rw [hqueue]
    exact cons_ne_nil 1 []
  have hbyte : (s.pcpu 0).bits.table 0 ≠ 0 := by
    intro hzero
    rw [hzero] at hbit
    cases hbit
  have hset := (hbits.2 0 (by decide)).2 hbyte
  rw [hgroup] at hset
  cases hset

end Smp

end RtThread
