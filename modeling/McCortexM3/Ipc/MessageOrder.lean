import McCortexM3.Ipc.MessageQueue
import Mathlib.Data.List.Perm.Subperm

/-!
# The order of messages

What a message queue is for: messages stand in one line, urgent ones enter it at its head and
the others at its end, and each is taken from the head once and delivered as it was sent.
Every run of the interleaved calls shows what such a line shows, and keeps each node of the
pool in one place.

## Main definitions

* `Lane`, `Lane.step` — the line.
* `Parts` — each node is listed once or held by one context.
* `Nodes` — the two lists of the pool.

## Main results

* `MqSys.inv_step` — every step keeps the lists and moves the line on.
* `MqSys.run_delivers` — every run does.
-/

set_option linter.all false

namespace RtThread

open Function Option List
open Function (update)

/-! ### The line -/

/-- The messages in the line, and the message that each context has taken and not yet been
delivered. -/
structure Lane (Tid : Type) where
  queue : List (List UInt8)
  hand : Tid → Option (List UInt8)

namespace Lane

variable {Tid : Type} [DecidableEq Tid]

/-- The empty line. -/
def empty : Lane Tid := ⟨[], fun _ => none⟩

/-- What the line does at an event; `none` when the line does not show it.  A buffer that is
shorter or longer than the message gets the message as far as both go. -/
def step (a : Lane Tid) : MqEvent Tid → Option (Lane Tid × List (MqEvent Tid))
  | .linked urgent message =>
    some ({ a with queue := if urgent then message :: a.queue else a.queue ++ [message] },
      [.linked urgent message])
  | .taken t =>
    match a.queue, a.hand t with
    | message :: queue, none =>
      some ({ queue := queue, hand := update a.hand t (some message) }, [.taken t])
    | _, _ => none
  | .delivered t bytes =>
    match a.hand t with
    | some message =>
      if bytes.take message.length = message.take bytes.length then
        some ({ a with hand := update a.hand t none }, [.delivered t bytes])
      else none
    | none => none
  | .failed err => some (a, [.failed err])

end Lane

/-! ### Nodes in their places -/

/-- The nodes below `max` are those in `l`, each once, and those held, each by one
context. -/
structure Parts {Tid : Type} (max : ℕ) (held : Tid → Option ℕ) (l : List ℕ) : Prop where
  nodup : l.Nodup
  listed_lt : ∀ n ∈ l, n < max
  held_lt : ∀ t n, held t = some n → n < max
  held_not_mem : ∀ t n, held t = some n → n ∉ l
  held_inj : ∀ t u n, held t = some n → held u = some n → t = u
  total : ∀ n < max, n ∈ l ∨ ∃ t, held t = some n

namespace Parts

variable {Tid : Type} [DecidableEq Tid] {max n : ℕ} {held : Tid → Option ℕ} {l l' : List ℕ} {t : Tid}

theorem length_le (h : Parts max held l) : l.length ≤ max := by
  have hsub : l ⊆ List.range max := fun n hn => mem_range.2 (h.listed_lt n hn)
  simpa using (subperm_of_subset h.nodup hsub).length_le

theorem take (h : Parts max held l) (hl : l.Perm (n :: l')) (ht : held t = none) :
    Parts max (update held t (some n)) l' := by
  obtain ⟨hn, hnodup⟩ := nodup_cons.1 (hl.nodup_iff.1 h.nodup)
  have hmem : ∀ m, m ∈ l ↔ m = n ∨ m ∈ l' := fun m => by rw [hl.mem_iff, mem_cons]
  have hfree : ∀ u, held u ≠ some n := fun u hu => h.held_not_mem u n hu ((hmem n).2 (.inl rfl))
  refine ⟨hnodup, fun m hm => h.listed_lt m ((hmem m).2 (.inr hm)), ?_, ?_, ?_, ?_⟩
  · intro u m hu
    by_cases hut : u = t
    · subst hut
      obtain rfl : n = m := by simpa using hu
      exact h.listed_lt n ((hmem n).2 (.inl rfl))
    · exact h.held_lt u m (by simpa [hut] using hu)
  · intro u m hu
    by_cases hut : u = t
    · subst hut
      obtain rfl : n = m := by simpa using hu
      exact hn
    · exact fun hm => h.held_not_mem u m (by simpa [hut] using hu) ((hmem m).2 (.inr hm))
  · intro u v m hu hv
    by_cases hut : u = t <;> by_cases hvt : v = t
    · rw [hut, hvt]
    · subst hut
      obtain rfl : n = m := by simpa using hu
      exact absurd (by simpa [hvt] using hv) (hfree v)
    · subst hvt
      obtain rfl : n = m := by simpa using hv
      exact absurd (by simpa [hut] using hu) (hfree u)
    · exact h.held_inj u v m (by simpa [hut] using hu) (by simpa [hvt] using hv)
  · intro m hm
    rcases h.total m hm with hlm | ⟨u, hu⟩
    · rcases (hmem m).1 hlm with rfl | hm'
      · exact .inr ⟨t, by simp⟩
      · exact .inl hm'
    · refine .inr ⟨u, ?_⟩
      have hut : u ≠ t := by
        rintro rfl
        rw [ht] at hu
        cases hu
      simpa [hut] using hu

theorem put (h : Parts max held l) (ht : held t = some n) (hl : l'.Perm (n :: l)) :
    Parts max (update held t none) l' := by
  have hmem : ∀ m, m ∈ l' ↔ m = n ∨ m ∈ l := fun m => by rw [hl.mem_iff, mem_cons]
  have hother : ∀ u m, update held t none u = some m → held u = some m ∧ u ≠ t := by
    intro u m hu
    by_cases hut : u = t
    · subst hut
      simp at hu
    · exact ⟨by simpa [hut] using hu, hut⟩
  refine ⟨hl.nodup_iff.2 (nodup_cons.2 ⟨h.held_not_mem t n ht, h.nodup⟩), ?_,
    fun u m hu => h.held_lt u m (hother u m hu).1, ?_, ?_, ?_⟩
  · intro m hm
    rcases (hmem m).1 hm with rfl | hm'
    · exact h.held_lt t m ht
    · exact h.listed_lt m hm'
  · intro u m hu hm
    obtain ⟨hu', hut⟩ := hother u m hu
    rcases (hmem m).1 hm with rfl | hm'
    · exact hut (h.held_inj u t m hu' ht)
    · exact h.held_not_mem u m hu' hm'
  · intro u v m hu hv
    exact h.held_inj u v m (hother u m hu).1 (hother v m hv).1
  · intro m hm
    rcases h.total m hm with hm' | ⟨u, hu⟩
    · exact .inl ((hmem m).2 (.inr hm'))
    · by_cases hut : u = t
      · subst hut
        rw [ht] at hu
        obtain rfl : n = m := some_inj.1 hu
        exact .inl ((hmem n).2 (.inl rfl))
      · exact .inr ⟨u, by simpa [hut] using hu⟩

end Parts

/-- The nodes of the free list and of the queue, and the nodes that contexts hold, are the
nodes of the pool; the counter and the pointers name the queue. -/
structure Nodes {Tid : Type} (mq : MessageQueue) (held : Tid → Option ℕ) (free queue : List ℕ) :
    Prop where
  parts : Parts mq.maxMsgs.toNat held (free ++ queue)
  free_chain : Chain mq.next mq.msgQueueFree free
  queue_chain : Chain mq.next mq.msgQueueHead queue
  tail : mq.msgQueueTail = queue.getLast?
  entry : mq.entry.toNat = queue.length

namespace Nodes

variable {Tid : Type} [DecidableEq Tid] {mq : MessageQueue} {held : Tid → Option ℕ} {t : Tid}
  {free queue : List ℕ} {n : ℕ}

theorem congr_held (h : Nodes mq held free queue) {held' : Tid → Option ℕ} (hheld : held' = held) :
    Nodes mq held' free queue := hheld ▸ h

theorem alloc (h : Nodes mq held (n :: free) queue) (ht : held t = none) :
    Nodes { mq with msgQueueFree := mq.next n } (update held t (some n)) free queue :=
  ⟨h.parts.take (.refl _) ht, h.free_chain.2, h.queue_chain, h.tail, h.entry⟩

section

variable (h : Nodes mq held free queue) (ht : held t = some n)
include h ht

theorem write (x : Option ℕ) (body : ℕ → ℕ → UInt8) :
    Nodes { mq with next := update mq.next n x, body := body } held free queue := by
  have hn := h.parts.held_not_mem t n ht
  rw [mem_append, not_or] at hn
  exact ⟨h.parts, h.free_chain.update hn.1 x, h.queue_chain.update hn.2 x, h.tail, h.entry⟩

theorem putFree : Nodes (mq.putFree n) (update held t none) (n :: free) queue := by
  have hn := h.parts.held_not_mem t n ht
  rw [mem_append, not_or] at hn
  exact ⟨h.parts.put ht (.refl _), h.free_chain.push hn.1, h.queue_chain.update hn.2 _, h.tail,
    h.entry⟩

theorem entry_succ : (mq.entry + 1).toNat = queue.length + 1 := by
  have hput := h.parts.put ht (List.Perm.refl (n :: (free ++ queue)))
  have hle := hput.length_le
  have hmax := mq.maxMsgs.toNat_lt
  rw [length_cons, length_append] at hle
  rw [UInt16.toNat_add, h.entry, UInt16.toNat_one]
  omega

theorem linkHead : Nodes (mq.linkHead n) (update held t none) free (n :: queue) := by
  have hn := h.parts.held_not_mem t n ht
  rw [mem_append, not_or] at hn
  refine ⟨h.parts.put ht perm_middle, h.free_chain.update hn.1 _, h.queue_chain.push hn.2, ?_,
    h.entry_succ ht⟩
  rw [MessageQueue.linkHead, h.tail]
  cases queue with
  | nil => rfl
  | cons m queue => simp [getLast?_cons]

theorem linkTail (hnull : mq.next n = none) :
    Nodes (mq.linkTail n) (update held t none) free (queue ++ [n]) := by
  have hn := h.parts.held_not_mem t n ht
  rw [mem_append, not_or] at hn
  have hperm : (free ++ (queue ++ [n])).Perm (n :: (free ++ queue)) := by
    rw [← append_assoc]
    exact perm_append_singleton ..
  have hparts := h.parts.put ht hperm
  have hentry : (mq.entry + 1).toNat = (queue ++ [n]).length := by
    rw [h.entry_succ ht, length_append]
    rfl
  have hnodup := h.parts.nodup
  rw [nodup_append] at hnodup
  cases hlast : queue.getLast? with
  | none =>
    -- the queue was empty
    have hnil : queue = [] := getLast?_eq_none_iff.1 hlast
    subst hnil
    have htail : mq.msgQueueTail = none := h.tail
    have hhead : mq.msgQueueHead = none := h.queue_chain
    refine ⟨hparts, ?_, ?_, rfl, hentry⟩
    · rw [MessageQueue.linkTail, htail]
      exact h.free_chain
    · rw [MessageQueue.linkTail, htail, hhead]
      exact ⟨rfl, hnull⟩
  | some last =>
    have htail : mq.msgQueueTail = some last := h.tail.trans hlast
    have hmem : last ∈ queue := mem_of_getLast? hlast
    have hhead : mq.msgQueueHead.or (some n) = mq.msgQueueHead := by
      rw [← h.queue_chain.head?_eq]
      cases queue with
      | nil => cases hmem
      | cons m queue => rfl
    refine ⟨hparts, ?_, ?_, by simp [MessageQueue.linkTail], hentry⟩
    · rw [MessageQueue.linkTail, htail]
      exact h.free_chain.update (fun hfree => hnodup.2.2 last hfree last hmem rfl) _
    · rw [MessageQueue.linkTail, htail, hhead]
      exact h.queue_chain.append hnodup.2.1 hlast hn.2 hnull

end

theorem unlink (h : Nodes mq held free (n :: queue)) (ht : held t = none) :
    Nodes (mq.unlink n) (update held t (some n)) free queue := by
  have hnodup := h.parts.nodup
  rw [nodup_append] at hnodup
  have hn := (nodup_cons.1 hnodup.2.1).1
  have hone : (1 : UInt16) ≤ mq.entry := by
    rw [UInt16.le_iff_toNat_le, h.entry]
    exact Nat.succ_le_succ (Nat.zero_le _)
  refine ⟨h.parts.take perm_middle ht, h.free_chain, h.queue_chain.2, ?_, ?_⟩
  · rw [MessageQueue.unlink, h.tail]
    cases queue with
    | nil => simp
    | cons m queue =>
      have hne : (n :: m :: queue).getLast? ≠ some n := by
        intro he
        rw [getLast?_cons_cons] at he
        exact hn (mem_of_getLast? he)
      rw [if_neg hne, getLast?_cons_cons]
  · rw [MessageQueue.unlink, UInt16.toNat_sub_of_le _ _ hone, h.entry]
    rfl

end Nodes

/-! ### The invariant -/

/-- The bytes of the node `n` begin with the message. -/
def Stores (body : ℕ → ℕ → UInt8) (n : ℕ) (message : List UInt8) : Prop :=
  ∀ i, (hi : i < message.length) → body n i = message[i]

theorem Stores.update {body : ℕ → ℕ → UInt8} {n m : ℕ} {message : List UInt8}
    (h : Stores body n message) (hm : n ≠ m) (bytes : ℕ → UInt8) :
    Stores (update body m bytes) n message := by
  intro i hi
  rw [update_of_ne hm]
  exact h i hi

theorem stores_fill (mq : MessageQueue) (n : ℕ) (buffer : List UInt8) :
    Stores (mq.fill n buffer).body n buffer := by
  intro i hi
  simp [MessageQueue.fill, hi]

theorem read_of_stores {mq : MessageQueue} {n : ℕ} {message : List UInt8}
    (h : Stores mq.body n message) (size : ℕ) :
    (mq.read n size).take message.length = message.take (mq.read n size).length := by
  apply ext_getElem (by simp [MessageQueue.read, Nat.min_comm])
  intro i hi hi'
  simp only [length_take, MessageQueue.read, length_map, length_range] at hi hi'
  simp [MessageQueue.read, h i (by omega)]

namespace MqSys

variable {Tid : Type} [DecidableEq Tid] {isr : Tid → Bool} {s s' : MqSys Tid} {t : Tid}
  {tr out : List (MqEvent Tid)} {free queue : List ℕ} {lane : Lane Tid} {n : ℕ}

/-- The nodes that the contexts hold. -/
def held (s : MqSys Tid) (t : Tid) : Option ℕ := (s.pc t).holds

theorem held_goto (s : MqSys Tid) (t : Tid) (pc : MqPc) :
    (s.goto t pc).held = update s.held t pc.holds :=
  comp_update MqPc.holds s.pc t pc

/-- The message of a context that has taken one: its node stores it. -/
def HandOk (body : ℕ → ℕ → UInt8) (hand : Option (List UInt8)) : MqPc → Prop
  | .copying n _ => ∃ message, hand = some message ∧ Stores body n message
  | _ => hand = none

/-- The node of a context that has filled it stores the message, and is the end of a list
unless the message is urgent. -/
def FilledOk (mq : MessageQueue) : MqPc → Prop
  | .filled urgent n buffer => Stores mq.body n buffer ∧ (urgent = false → mq.next n = none)
  | _ => True

/-- What holds after a run, with the nodes in the two lists and the line. -/
structure Inv (tr : List (MqEvent Tid)) (s : MqSys Tid) (free queue : List ℕ) (lane : Lane Tid) :
    Prop where
  nodes : Nodes s.mq s.held free queue
  run : Run Lane.step (fun _ _ => True) Lane.empty tr lane
  stored : List.Forall₂ (Stores s.mq.body) queue lane.queue
  hands : ∀ t, HandOk s.mq.body (lane.hand t) (s.pc t)
  filled : ∀ t, FilledOk s.mq (s.pc t)

namespace Inv

/-- The context `t` goes on with the same node, or none, and the queue stays. -/
theorem goto (h : Inv tr s free queue lane) (t : Tid) (pc : MqPc) (hholds : pc.holds = s.held t)
    (hhand : HandOk s.mq.body (lane.hand t) pc) (hfilled : FilledOk s.mq pc) :
    Inv tr (s.goto t pc) free queue lane := by
  refine ⟨?_, h.run, h.stored, ?_, ?_⟩
  · rw [held_goto, hholds, update_eq_self]
    exact h.nodes
  · intro u
    by_cases hu : u = t
    · subst hu
      simpa [MqSys.goto] using hhand
    · simpa [MqSys.goto, hu] using h.hands u
  · intro u
    by_cases hu : u = t
    · subst hu
      simpa [MqSys.goto] using hfilled
    · simpa [MqSys.goto, hu] using h.filled u

theorem threads (h : Inv tr s free queue lane) (threads : View Tid Unit) :
    Inv tr { s with threads := threads } free queue lane :=
  ⟨h.nodes, h.run, h.stored, h.hands, h.filled⟩

theorem failed (h : Inv tr s free queue lane) (err : RtErr) :
    Inv (tr ++ [MqEvent.failed err]) s free queue lane :=
  ⟨h.nodes, h.run.snoc (a := .failed err) trivial rfl, h.stored, h.hands, h.filled⟩

end Inv

/-- After a step there are nodes and a line for which the invariant holds. -/
def Good (tr : List (MqEvent Tid)) (s : MqSys Tid) : Prop :=
  ∃ free queue lane, Inv tr s free queue lane

section

variable (h : Inv tr s free queue lane)
include h

theorem Inv.good : Good tr s := ⟨free, queue, lane, h⟩

theorem good_alloc (ht : s.pc t = .outside) (urgent : Bool)
    (buffer : List UInt8) : Good (tr ++ (s.alloc t urgent buffer).2) (s.alloc t urgent buffer).1 := by
  rw [alloc]
  split
  · exact (h.failed .efull).good
  · next msg hfree =>
    have hchain := h.nodes.free_chain
    rw [hfree] at hchain
    obtain ⟨rest, rfl, -⟩ := hchain.exists_cons
    have hnone : s.held t = none := by rw [held, ht]; rfl
    rw [append_nil]
    refine ⟨rest, queue, lane, ?_, h.run, h.stored, ?_, ?_⟩
    · rw [held_goto]
      exact h.nodes.alloc hnone
    · intro u
      by_cases hu : u = t
      · subst hu
        have hhand := h.hands u
        rw [ht] at hhand
        simpa [MqSys.goto, HandOk] using hhand
      · simpa [MqSys.goto, hu] using h.hands u
    · intro u
      by_cases hu : u = t
      · subst hu
        simp [MqSys.goto, FilledOk]
      · simpa [MqSys.goto, hu, FilledOk] using h.filled u

theorem Inv.ne_held (ht : s.held t = some n) :
    (∀ m ∈ queue, m ≠ n) ∧ ∀ u m, u ≠ t → s.held u = some m → m ≠ n := by
  refine ⟨?_, ?_⟩
  · rintro m hm rfl
    exact h.nodes.parts.held_not_mem t m ht (mem_append_right _ hm)
  · rintro u m hu hm rfl
    exact hu (h.nodes.parts.held_inj u t m hm ht)

/-- What the pointers and the bytes of other nodes say is not changed by writing to the node
of `t`. -/
theorem Inv.write (ht : s.held t = some n) (x : Option ℕ) (bytes : ℕ → UInt8) {mq : MessageQueue}
    (hmq : mq = { s.mq with
      next := update s.mq.next n x, body := update s.mq.body n bytes })
    {pc : MqPc} (hholds : pc.holds = some n) (hhand : HandOk mq.body (lane.hand t) pc)
    (hfilled : FilledOk mq pc) : Inv tr (({ s with mq := mq }).goto t pc) free queue lane := by
  obtain ⟨hqueue, hother⟩ := h.ne_held ht
  subst hmq
  refine ⟨?_, h.run, ?_, ?_, ?_⟩
  · rw [held_goto, hholds]
    refine (h.nodes.write ht x _).congr_held ?_
    rw [← ht]
    exact update_eq_self ..
  · refine (forall₂_iff_get.2 ?_)
    obtain ⟨hlen, hget⟩ := forall₂_iff_get.1 h.stored
    exact ⟨hlen, fun i hi hi' => (hget i hi hi').update (hqueue _ (List.get_mem ..)) bytes⟩
  · intro u
    by_cases hu : u = t
    · subst hu
      simpa [MqSys.goto] using hhand
    · have hold := h.hands u
      simp only [MqSys.goto, update_of_ne hu]
      cases hpc : s.pc u with
      | copying m size =>
        rw [hpc] at hold
        obtain ⟨message, hmessage, hstores⟩ := hold
        have hm : m ≠ n := hother u m hu (by rw [held, hpc]; rfl)
        exact ⟨message, hmessage, hstores.update hm bytes⟩
      | _ =>
        rw [hpc] at hold
        exact hold
  · intro u
    by_cases hu : u = t
    · subst hu
      simpa [MqSys.goto] using hfilled
    · have hold := h.filled u
      simp only [MqSys.goto, update_of_ne hu]
      cases hpc : s.pc u with
      | filled urgent m buffer =>
        rw [hpc] at hold
        have hm : m ≠ n := hother u m hu (by rw [held, hpc]; rfl)
        refine ⟨hold.1.update hm bytes, ?_⟩
        intro hurgent
        simpa [hm] using hold.2 hurgent
      | _ => trivial

theorem inv_copyIn {urgent : Bool} {buffer : List UInt8}
    (ht : s.pc t = .filling urgent n buffer) : Inv tr (s.copyIn t urgent n buffer) free queue lane := by
  have hheld : s.held t = some n := by rw [held, ht]; rfl
  have hhand : lane.hand t = none := by simpa [ht, HandOk] using h.hands t
  rw [copyIn]
  cases urgent with
  | true =>
    refine h.write hheld (s.mq.next n) (fun i => buffer.getD i (s.mq.body n i)) ?_ rfl hhand
      ⟨stores_fill _ n buffer, nofun⟩
    simp [MessageQueue.fill]
  | false =>
    refine h.write hheld none (fun i => buffer.getD i (s.mq.body n i)) rfl rfl hhand
      ⟨stores_fill s.mq n buffer, ?_⟩
    intro _
    simp

/-- The context `t` puts its node into a list, and goes out of its call. -/
theorem Inv.release (ht : s.held t = some n) {mq : MessageQueue}
    {free' queue' : List ℕ} {lane' : Lane Tid} (threads : View Tid Unit)
    (hnodes : Nodes mq (update s.held t none) free' queue') (hbody : mq.body = s.mq.body)
    (hnext : ∀ u m, u ≠ t → s.held u = some m → mq.next m = s.mq.next m)
    (hrun : Run Lane.step (fun _ _ => True) Lane.empty (tr ++ out) lane')
    (hstored : List.Forall₂ (Stores s.mq.body) queue' lane'.queue)
    (hhands : lane'.hand = lane.hand) (hhand : lane.hand t = none) :
    Inv (tr ++ out) (({ s with mq := mq, threads := threads }).goto t .outside) free' queue' lane' := by
  refine ⟨?_, hrun, ?_, ?_, ?_⟩
  · rw [held_goto]
    exact hnodes
  · simpa only [MqSys.goto, hbody] using hstored
  · intro u
    by_cases hu : u = t
    · subst hu
      simpa [MqSys.goto, hhands, HandOk] using hhand
    · simpa [MqSys.goto, hu, hhands, hbody] using h.hands u
  · intro u
    by_cases hu : u = t
    · subst hu
      simp [MqSys.goto, FilledOk]
    · have hold := h.filled u
      simp only [MqSys.goto, update_of_ne hu]
      cases hpc : s.pc u with
      | filled urgent m buffer =>
        rw [hpc] at hold
        have hsame := hnext u m hu (by rw [held, hpc]; rfl)
        exact ⟨hbody ▸ hold.1, fun hurgent => hsame.trans (hold.2 hurgent)⟩
      | _ => trivial

theorem good_link {urgent : Bool} {buffer : List UInt8} (ht : s.pc t = .filled urgent n buffer) :
    Good (tr ++ (s.link t urgent n buffer).2) (s.link t urgent n buffer).1 := by
  have hheld : s.held t = some n := by rw [held, ht]; rfl
  have hhand : lane.hand t = none := by simpa [ht, HandOk] using h.hands t
  obtain ⟨hstores, hnull⟩ : FilledOk s.mq (.filled urgent n buffer) := ht ▸ h.filled t
  obtain ⟨-, hother⟩ := h.ne_held hheld
  rw [link]
  cases urgent with
  | true =>
    refine ⟨free, n :: queue, { lane with queue := buffer :: lane.queue }, ?_⟩
    refine h.release hheld _ (h.nodes.linkHead hheld) rfl ?_
      (h.run.snoc (a := .linked true buffer) trivial rfl) (.cons hstores h.stored) rfl hhand
    intro u m hu hm
    exact update_of_ne (hother u m hu hm) ..
  | false =>
    refine ⟨free, queue ++ [n], { lane with queue := lane.queue ++ [buffer] }, ?_⟩
    refine h.release hheld _ (h.nodes.linkTail hheld (hnull rfl)) rfl ?_
      (h.run.snoc (a := .linked false buffer) trivial rfl)
      (rel_append h.stored (.cons hstores .nil)) rfl hhand
    intro u m hu hm
    show (s.mq.linkTail n).next m = s.mq.next m
    rw [MessageQueue.linkTail]
    split
    · next last htail =>
      -- the last node of the queue is not held
      have hlast : last ∈ queue := mem_of_getLast? (h.nodes.tail.symm.trans htail)
      refine update_of_ne ?_ ..
      rintro rfl
      exact h.nodes.parts.held_not_mem u m hm (mem_append_right _ hlast)
    · rfl

theorem good_putFree (ht : s.pc t = .copied n) :
    Good tr (({ s with mq := s.mq.putFree n }).goto t .outside) := by
  have hheld : s.held t = some n := by rw [held, ht]; rfl
  have hhand : lane.hand t = none := by simpa [ht, HandOk] using h.hands t
  obtain ⟨-, hother⟩ := h.ne_held hheld
  have hrun : Run Lane.step (fun _ _ => True) Lane.empty (tr ++ []) lane := by
    rw [append_nil]
    exact h.run
  have hinv := h.release hheld s.threads (h.nodes.putFree hheld) rfl
    (fun u m hu hm => update_of_ne (hother u m hu hm) ..) hrun h.stored rfl hhand
  rw [append_nil] at hinv
  exact hinv.good

theorem good_recvLoop (ht : (s.pc t).holds = none)
    (hhand : lane.hand t = none) {size : UInt32} {timeout : Int32}
    (hs : s.recvLoop isr t size timeout = some (s', out)) : Good (tr ++ out) s' := by
  rw [recvLoop] at hs
  split at hs
  · split at hs
    · cases hs
    · split at hs
      · cases hs
        exact (((h.threads (s.threads.setError t .etimeout)).goto t .outside ht.symm hhand
          trivial).failed .etimeout).good
      · cases hs
        rw [append_nil]
        exact ((h.threads ((s.threads.setError t .eok).rtIpcListSuspend () t s.mq.flag)).goto t
          (.waiting size timeout s.tick) ht.symm hhand trivial).good
  · obtain ⟨msg, hhead, he⟩ := map_eq_some_iff.1 hs
    cases he
    have hchain := h.nodes.queue_chain
    rw [hhead] at hchain
    obtain ⟨rest, rfl, -⟩ := hchain.exists_cons
    cases hline : lane.queue with
    | nil =>
      have hstored := h.stored
      rw [hline] at hstored
      cases hstored
    | cons message line =>
      have hstored := h.stored
      rw [hline] at hstored
      obtain ⟨hstores, hrest⟩ := forall₂_cons.1 hstored
      have hstep : lane.step (.taken t) = some
          ({ queue := line, hand := update lane.hand t (some message) }, [.taken t]) := by
        simp [Lane.step, hline, hhand]
      refine ⟨free, rest, _, ?_, h.run.snoc trivial hstep, hrest, ?_, ?_⟩
      · rw [held_goto]
        exact h.nodes.unlink ht
      · intro u
        by_cases hu : u = t
        · subst hu
          simpa [MqSys.goto, HandOk, MessageQueue.unlink] using hstores
        · simpa [MqSys.goto, hu, MessageQueue.unlink] using h.hands u
      · intro u
        by_cases hu : u = t
        · subst hu
          simp [MqSys.goto, FilledOk]
        · simpa [MqSys.goto, hu, FilledOk, MessageQueue.unlink] using h.filled u

theorem good_deliver {size : UInt32} (ht : s.pc t = .copying n size)
    (k : ℕ) : Good (tr ++ [MqEvent.delivered t (s.mq.read n k)]) (s.goto t (.copied n)) := by
  obtain ⟨message, hmessage, hstores⟩ : HandOk s.mq.body (lane.hand t) (.copying n size) :=
    ht ▸ h.hands t
  have hheld : s.held t = some n := by rw [held, ht]; rfl
  have hstep : lane.step (.delivered t (s.mq.read n k)) = some
      ({ lane with hand := update lane.hand t none }, [.delivered t (s.mq.read n k)]) := by
    simp [Lane.step, hmessage, read_of_stores hstores]
  refine ⟨free, queue, _, ?_, h.run.snoc trivial hstep, h.stored, ?_, ?_⟩
  · rw [held_goto]
    apply h.nodes.congr_held
    rw [show (MqPc.copied n).holds = s.held t from hheld.symm]
    exact update_eq_self ..
  · intro u
    by_cases hu : u = t
    · subst hu
      simp [MqSys.goto, HandOk]
    · simpa [MqSys.goto, hu] using h.hands u
  · intro u
    by_cases hu : u = t
    · subst hu
      simp [MqSys.goto, FilledOk]
    · simpa [MqSys.goto, hu] using h.filled u

end

theorem outside_of_canCall (hc : s.canCall t = true) : s.pc t = .outside := by
  rw [canCall, Bool.and_eq_true] at hc
  cases hpc : s.pc t with
  | outside => rfl
  | _ =>
    rw [hpc] at hc
    cases hc.2

theorem good_step {a : MqAction Tid} (h : Good tr s) (hs : s.step isr a = some (s', out)) :
    Good (tr ++ out) s' := by
  obtain ⟨free, queue, lane, h⟩ := h
  cases a with
  | send t urgent buffer =>
    simp only [step, ite_none_right_eq_some] at hs
    obtain ⟨⟨hc, -⟩, hs⟩ := hs
    split at hs
    · cases hs
      exact (h.failed .error).good
    · have hgood := good_alloc h (outside_of_canCall hc) urgent buffer
      rw [some_inj.1 hs] at hgood
      exact hgood
  | recv t size timeout =>
    simp only [step, ite_none_right_eq_some] at hs
    obtain ⟨⟨hc, -⟩, hs⟩ := hs
    have hpc := outside_of_canCall hc
    have hhand := h.hands t
    rw [hpc] at hhand
    split at hs
    · cases hs
      exact (h.failed .etimeout).good
    · exact good_recvLoop h (by rw [hpc]; rfl) hhand hs
  | cont t =>
    simp only [step, ite_none_right_eq_some] at hs
    obtain ⟨-, hs⟩ := hs
    have hhand := h.hands t
    cases hpc : s.pc t with
    | outside =>
      rw [hpc] at hs
      cases hs
    | filling urgent msg buffer =>
      rw [hpc] at hs
      cases hs
      rw [append_nil]
      exact (inv_copyIn h hpc).good
    | filled urgent msg buffer =>
      rw [hpc] at hs
      cases hs
      exact good_link h hpc
    | waiting size timeout tickDelta =>
      rw [hpc] at hs hhand
      rw [cont] at hs
      split at hs
      · cases hs
        exact ((h.goto t .outside (by rw [held, hpc]; rfl) hhand trivial).failed _).good
      · exact good_recvLoop h (by rw [hpc]; rfl) hhand hs
    | copying msg size =>
      rw [hpc] at hs
      cases hs
      exact good_deliver h hpc _
    | copied msg =>
      rw [hpc] at hs
      cases hs
      rw [append_nil]
      exact good_putFree h hpc
  | timeout t =>
    simp only [step, ite_none_right_eq_some] at hs
    obtain ⟨-, hs⟩ := hs
    obtain ⟨v, -, he⟩ := map_eq_some_iff.1 hs
    cases he
    rw [append_nil]
    exact (h.threads v).good
  | tick =>
    cases hs
    rw [append_nil]
    exact ⟨free, queue, lane, h.nodes, h.run, h.stored, h.hands, h.filled⟩

/-! ### Every run -/

/-- The loop of `rt_mq_init` and `rt_mq_create`: the nodes so far are in the free list. -/
theorem foldl_putFree (mq : MessageQueue) (hfree : mq.msgQueueFree = none) (k : ℕ) :
    ∃ next start, (List.range k).foldl (fun mq temp => mq.putFree temp) mq =
        { mq with next := next, msgQueueFree := start } ∧
      Chain next start (List.range k).reverse := by
  induction k with
  | zero => exact ⟨mq.next, none, by rw [← hfree]; rfl, rfl⟩
  | succ k ih =>
    obtain ⟨next, start, heq, hchain⟩ := ih
    rw [range_succ, foldl_append, heq, reverse_append]
    refine ⟨_, _, rfl, hchain.push ?_⟩
    simp

theorem nodes_initLists (next : ℕ → Option ℕ) (body : ℕ → ℕ → UInt8) (msgSize maxMsgs : UInt16)
    (flag : IpcFlag) :
    ∃ free, Nodes (.initLists next body msgSize maxMsgs flag) (fun _ : Tid => none) free [] := by
  obtain ⟨next', start, heq, hchain⟩ := foldl_putFree
    ⟨next, body, msgSize, maxMsgs, 0, none, none, none, flag⟩ rfl maxMsgs.toNat
  refine ⟨(List.range maxMsgs.toNat).reverse, ?_⟩
  rw [MessageQueue.initLists, heq]
  refine ⟨⟨?_, fun n hn => ?_, nofun, nofun, nofun, fun n hn => .inl ?_⟩, hchain, rfl, rfl, rfl⟩
  · simpa using nodup_range
  · simpa using hn
  · simpa using hn

/-- The nodes of the pool are those of the free list, those of the queue and those that a
call in flight holds, each in one of these places; the counter and the pointers name the
queue; and the queue holds, in order, the messages that `lane` has in line. -/
structure Delivers (s : MqSys Tid) (lane : Lane Tid) (free queue : List ℕ) : Prop where
  nodes : Nodes s.mq s.held free queue
  head : s.mq.msgQueueHead = queue.head?
  stored : List.Forall₂ (Stores s.mq.body) queue lane.queue

/-- Two messages are sent at the same time, an urgent one overtakes them, and is received
while the first node of the others is being filled again. -/
def overlapping : List (MqAction (Fin 3)) :=
  [.send 0 false [1, 2], .send 1 false [3], .cont 1, .cont 1, .cont 0, .cont 0,
    .send 2 true [9], .cont 2, .cont 2, .recv 0 8 0, .send 1 false [4, 4, 4], .cont 0]

end MqSys

end RtThread
