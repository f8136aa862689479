import McCortexM3.Run
import McCortexM3.Spans
import Mathlib.Data.UInt

/-!
# Ring block buffers

The ring block buffer of `ringblk_buf.c` gives out blocks of a buffer, one behind the other and
from the beginning again.  The first and the last block of `blk_list` decide where the next block
is placed.  A block that `rt_rbb_blk_queue_get` hands out is taken from that list at once, although
it is in use until the queue is freed.

## Main definitions

* `Rbb.rtRbbBlkAlloc`, `Rbb.rtRbbBlkQueueGet`, … — the functions.
* `RbbSys.step`, `RbbSys.boot` — the calls that the API allows.
* `RbbSys.Roomy` — an allocation finds every block in use accounted for by the list.

## Main results

* `RbbSys.run_apart` — in such runs all blocks in use are apart and inside the buffer, and freed
  ones are available again.
-/

set_option linter.all false

namespace RtThread

open Option List Nat
open UInt32 (le_iff_toNat_le toNat_add toNat_inj toNat_sub_of_le)

/-- `enum rt_rbb_status`. -/
inductive RbbStatus
  | unused
  | inited
  | put
  | get
  deriving DecidableEq

/-- `struct rt_rbb_blk`. -/
structure RbbBlk where
  status : RbbStatus
  size : UInt32
  buf : UInt32
  deriving DecidableEq

/-- The address behind the block. -/
def RbbBlk.bufEnd (b : RbbBlk) : UInt32 := b.buf + b.size

/-- The addresses of the block. -/
def RbbBlk.span (b : RbbBlk) : Span := ⟨b.buf.toNat, b.buf.toNat + b.size.toNat, Nat.le_add_right ..⟩

/-- `struct rt_rbb`; a block is given by its index in `blk_set`. -/
structure Rbb where
  buf : UInt32
  bufSize : UInt32
  blkSet : ℕ → RbbBlk
  blkMaxNum : ℕ
  blkList : List ℕ

/-- `struct rt_rbb_blk_queue`.  The history variable `taken` are the blocks that
`rt_rbb_blk_queue_get` has handed out with the queue. -/
structure RbbBlkQueue where
  blocks : ℕ
  blkNum : ℕ
  taken : List ℕ

namespace Rbb

/-- `rt_rbb_init`. -/
def rtRbbInit (buf bufSize : UInt32) (blockSet : ℕ → RbbBlk) (blkMaxNum : ℕ) : Rbb where
  buf := buf
  bufSize := bufSize
  blkSet := fun i => if i < blkMaxNum then { blockSet i with status := .unused } else blockSet i
  blkMaxNum := blkMaxNum
  blkList := []

/-- `find_empty_blk_in_set`. -/
def findEmptyBlkInSet (r : Rbb) : Option ℕ :=
  (List.range r.blkMaxNum).find? fun i => (r.blkSet i).status = .unused

/-- The new block is appended to the list. -/
def place (r : Rbb) (new : ℕ) (buf blkSize : UInt32) : Rbb :=
  { r with
    blkSet := Function.update r.blkSet new ⟨.inited, blkSize, buf⟩
    blkList := r.blkList ++ [new] }

/-- Where `rt_rbb_blk_alloc` places a block: behind the last one when there is room, or at the
beginning of the buffer when the last block is not in front of the first one. -/
def room (r : Rbb) (blkSize : UInt32) : Option UInt32 :=
  match r.blkList.head?, r.blkList.getLast? with
  | some i, some j =>
    let head := r.blkSet i
    let tail := r.blkSet j
    if head.buf ≤ tail.buf then
      if (r.buf + r.bufSize) - tail.bufEnd ≥ blkSize then some tail.bufEnd
      else if head.buf - r.buf ≥ blkSize then some r.buf
      else none
    else if head.buf - tail.bufEnd ≥ blkSize then some tail.bufEnd
    else none
  | _, _ => some r.buf

/-- `rt_rbb_blk_alloc`. -/
def rtRbbBlkAlloc (r : Rbb) (blkSize : UInt32) : Rbb × Option ℕ :=
  match r.findEmptyBlkInSet with
  | some new =>
    if r.blkList.length < r.blkMaxNum then
      match r.room blkSize with
      | some buf => (r.place new buf blkSize, some new)
      | none => (r, none)
    else (r, none)
  | none => (r, none)

/-- The status of a block is set. -/
def setStatus (r : Rbb) (i : ℕ) (status : RbbStatus) : Rbb :=
  { r with blkSet := Function.update r.blkSet i { r.blkSet i with status := status } }

/-- `rt_rbb_blk_put`; `none` for a failed `RT_ASSERT`. -/
def rtRbbBlkPut (r : Rbb) (i : ℕ) : Option Rbb :=
  if (r.blkSet i).status = .inited then some (r.setStatus i .put) else none

/-- `rt_rbb_blk_get`. -/
def rtRbbBlkGet (r : Rbb) : Rbb × Option ℕ :=
  match r.blkList.find? fun i => (r.blkSet i).status = .put with
  | some i => (r.setStatus i .get, some i)
  | none => (r, none)

/-- `rt_slist_remove` of a block, which may be in no list. -/
def rtSlistRemove (r : Rbb) (i : ℕ) : Rbb := { r with blkList := r.blkList.filter (· ≠ i) }

/-- `rt_rbb_blk_free`; `none` for a failed `RT_ASSERT`. -/
def rtRbbBlkFree (r : Rbb) (i : ℕ) : Option Rbb :=
  if (r.blkSet i).status ≠ .unused then some ((r.rtSlistRemove i).setStatus i .unused) else none

/-- The loop of `rt_rbb_blk_queue_get` on the remaining nodes: `last_block` is the last block that
has been taken. -/
def queueGetLoop (queueDataLen : UInt32) : List ℕ → Rbb → UInt32 → List ℕ → Rbb × UInt32 × List ℕ
  | [], r, total, taken => (r, total, taken)
  | i :: nodes, r, total, taken =>
    let block := r.blkSet i
    let next := queueGetLoop queueDataLen nodes ((r.rtSlistRemove i).setStatus i .get)
      (total + block.size) (taken ++ [i])
    match taken.getLast? with
    | none =>
      if block.status = .put then next
      else queueGetLoop queueDataLen nodes r total taken
    | some last =>
      if block.status ≠ .put ∨ (r.blkSet last).buf > block.buf ∨
          total + block.size > queueDataLen then
        (r, total, taken)
      else next

/-- `rt_rbb_blk_queue_get`, with its result and the queue that it has written, if any. -/
def rtRbbBlkQueueGet (r : Rbb) (queueDataLen : UInt32) : Rbb × UInt32 × Option RbbBlkQueue :=
  match queueGetLoop queueDataLen r.blkList r 0 [] with
  | (r', total, i :: taken) => (r', total, some ⟨i, taken.length + 1, i :: taken⟩)
  | (r', total, []) => (r', total, none)

/-- `rt_rbb_blk_queue_free`: `blocks` is used as an array. -/
def rtRbbBlkQueueFree (r : Rbb) (q : RbbBlkQueue) : Option Rbb :=
  (List.range q.blkNum).foldlM (fun r i => r.rtRbbBlkFree (q.blocks + i)) r

end Rbb

/-- What an observer sees: a block is allocated, and blocks are freed. -/
inductive RbbEvent
  | allocated (i : ℕ)
  | freed (l : List ℕ)

/-- The calls. -/
inductive RbbAction
  | alloc (blkSize : UInt32)
  | put (i : ℕ)
  | get
  | free (i : ℕ)
  | queueGet (queueDataLen : UInt32)
  | queueFree (k : ℕ)

/-- The buffer and the queues that have been got and are not yet freed. -/
structure RbbSys where
  rbb : Rbb
  queues : List RbbBlkQueue

namespace RbbSys

/-- The blocks of the queues. -/
def inQueues (s : RbbSys) : List ℕ := s.queues.flatMap RbbBlkQueue.taken

/-- One call.  A block of a queue is freed with its queue. -/
def step (s : RbbSys) : RbbAction → Option (RbbSys × List RbbEvent)
  | .alloc blkSize =>
    if blkSize < 2 ^ 24 then
      let r := s.rbb.rtRbbBlkAlloc blkSize
      some ({ s with rbb := r.1 }, r.2.toList.map .allocated)
    else none
  | .put i =>
    if i < s.rbb.blkMaxNum then (s.rbb.rtRbbBlkPut i).map fun r => ({ s with rbb := r }, []) else none
  | .get => some ({ s with rbb := s.rbb.rtRbbBlkGet.1 }, [])
  | .free i =>
    if i < s.rbb.blkMaxNum ∧ i ∉ s.inQueues then
      (s.rbb.rtRbbBlkFree i).map fun r => ({ s with rbb := r }, [.freed [i]])
    else none
  | .queueGet queueDataLen =>
    let r := s.rbb.rtRbbBlkQueueGet queueDataLen
    some (⟨r.1, s.queues ++ r.2.2.toList⟩, [])
  | .queueFree k =>
    s.queues[k]?.bind fun q =>
      (s.rbb.rtRbbBlkQueueFree q).map fun r => (⟨r, s.queues.eraseIdx k⟩, [.freed q.taken])

/-- `rt_rbb_init`. -/
def boot (buf bufSize : UInt32) (blockSet : ℕ → RbbBlk) (blkMaxNum : ℕ) : RbbSys :=
  ⟨.rtRbbInit buf bufSize blockSet blkMaxNum, []⟩

/-- The block is in the part of the buffer that the list takes up, from `head` to `tail`. -/
def Covered (head tail b : RbbBlk) : Prop :=
  if head.buf ≤ tail.buf then head.buf ≤ b.buf ∧ b.bufEnd ≤ tail.bufEnd
  else head.buf ≤ b.buf ∨ b.bufEnd ≤ tail.bufEnd

instance (head tail b : RbbBlk) : Decidable (Covered head tail b) := by
  unfold Covered
  split <;> infer_instance

/-- There is room for an allocation.  With an empty list it asks for no more than the buffer, and
no queue has a block; else the blocks of the queues are where the list is, and no empty block is
placed at the very beginning of the first block of a list that has gone round. -/
def HasRoom (s : RbbSys) (blkSize : UInt32) : Prop :=
  match s.rbb.blkList.head?, s.rbb.blkList.getLast? with
  | some i, some j =>
    (∀ x ∈ s.inQueues, Covered (s.rbb.blkSet i) (s.rbb.blkSet j) (s.rbb.blkSet x)) ∧
      (blkSize = 0 → (s.rbb.blkSet j).buf < (s.rbb.blkSet i).buf →
        (s.rbb.blkSet j).bufEnd ≠ (s.rbb.blkSet i).buf)
  | _, _ => s.inQueues = [] ∧ blkSize ≤ s.rbb.bufSize

instance (s : RbbSys) (blkSize : UInt32) : Decidable (s.HasRoom blkSize) := by
  unfold HasRoom
  split
  · exact @instDecidableAnd _ _ (List.decidableBAll ..) inferInstance
  · infer_instance

/-- An allocation has room, and a queue that is freed has its blocks one after another in
`blk_set`. -/
def Roomy (s : RbbSys) : RbbAction → Prop
  | .alloc blkSize => s.rbb.findEmptyBlkInSet ≠ none → s.HasRoom blkSize
  | .queueFree k => ∀ q ∈ s.queues[k]?, q.taken = List.range' q.blocks q.blkNum
  | _ => True

instance (s : RbbSys) (a : RbbAction) : Decidable (s.Roomy a) := by
  unfold Roomy
  split
  · infer_instance
  · exact Option.decidableForallMem _
  · infer_instance

end RbbSys

/-- What an event does to the blocks in use. -/
def hold : List ℕ → RbbEvent → List ℕ
  | held, .allocated i => i :: held
  | held, .freed l => held.filter (· ∉ l)

/-- The blocks that have been allocated and not freed. -/
def heldBlocks (tr : List RbbEvent) : List ℕ := tr.foldl hold []

namespace RbbSys

/-- **The blocks in use are apart and inside the buffer**, and the others are available: they are
unused and in no list, and when all have been freed the whole buffer can be allocated. -/
structure Sound (tr : List RbbEvent) (s : RbbSys) : Prop where
  apart : (heldBlocks tr).Pairwise fun i j => (s.rbb.blkSet i).span.Apart (s.rbb.blkSet j).span
  inside : ∀ i ∈ heldBlocks tr, s.rbb.buf.toNat ≤ (s.rbb.blkSet i).span.lo ∧
    (s.rbb.blkSet i).span.hi ≤ s.rbb.buf.toNat + s.rbb.bufSize.toNat
  available : ∀ i < s.rbb.blkMaxNum, i ∉ heldBlocks tr →
    (s.rbb.blkSet i).status = .unused ∧ i ∉ s.rbb.blkList
  whole : heldBlocks tr = [] → s.rbb.blkMaxNum ≠ 0 → ∀ blkSize ≤ s.rbb.bufSize,
    (s.rbb.rtRbbBlkAlloc blkSize).2 ≠ none

end RbbSys

/-! ### What the calls do to the blocks in use -/

/-- The blocks in use are those in the list and those in `out`; they are apart and inside the
buffer, and those in the list go round at most once. -/
structure Rbb.Laid (r : Rbb) (out held : List ℕ) : Prop where
  region : r.buf.toNat + r.bufSize.toNat < 2 ^ 32
  mem_held : ∀ i, i ∈ held ↔ i < r.blkMaxNum ∧ (r.blkSet i).status ≠ .unused
  split : ∀ i, i ∈ held ↔ i ∈ r.blkList ∨ i ∈ out
  nodup : (r.blkList ++ out).Nodup
  nodup_held : held.Nodup
  round : GoesRound (r.blkList.map fun i => (r.blkSet i).span)
  apart : ∀ i ∈ held, ∀ j ∈ held, i ≠ j → (r.blkSet i).span.Apart (r.blkSet j).span
  inside : ∀ i ∈ held, r.buf.toNat ≤ (r.blkSet i).span.lo ∧
    (r.blkSet i).span.hi ≤ r.buf.toNat + r.bufSize.toNat

namespace Rbb

variable {r r' : Rbb} {out held : List ℕ} {i new : ℕ} {st : RbbStatus} {blkSize p : UInt32}

@[simp] theorem buf_setStatus (r : Rbb) (i : ℕ) (st : RbbStatus) : (r.setStatus i st).buf = r.buf :=
  rfl

@[simp] theorem bufSize_setStatus (r : Rbb) (i : ℕ) (st : RbbStatus) :
    (r.setStatus i st).bufSize = r.bufSize := rfl

@[simp] theorem blkList_setStatus (r : Rbb) (i : ℕ) (st : RbbStatus) :
    (r.setStatus i st).blkList = r.blkList := rfl

@[simp] theorem span_setStatus (r : Rbb) (i : ℕ) (st : RbbStatus) (j : ℕ) :
    ((r.setStatus i st).blkSet j).span = (r.blkSet j).span := by
  by_cases hj : j = i
  · subst hj
    simp [setStatus, RbbBlk.span]
  · simp [setStatus, hj]

theorem laid_rtRbbInit {buf bufSize : UInt32} (blockSet : ℕ → RbbBlk) (n : ℕ)
    (h : buf.toNat + bufSize.toNat < 2 ^ 32) : Laid (rtRbbInit buf bufSize blockSet n) [] [] := by
  refine ⟨h, ?_, by simp [rtRbbInit], nodup_nil, nodup_nil, .nil, by simp, by simp⟩
  intro i
  constructor
  · simp
  · rintro ⟨hi, hst⟩
    have hi' : i < n := hi
    simp [rtRbbInit, hi'] at hst

theorem Laid.perm (h : Laid r out held) {out' : List ℕ} (hp : out.Perm out') : Laid r out' held :=
  ⟨h.region, h.mem_held, fun i => by rw [h.split, hp.mem_iff],
    (List.Perm.append_left _ hp).nodup_iff.1 h.nodup, h.nodup_held, h.round, h.apart, h.inside⟩

theorem Laid.setStatus (h : Laid r out held) (hi : i ∈ held) (hst : st ≠ .unused) :
    Laid (r.setStatus i st) out held := by
  refine ⟨h.region, ?_, h.split, h.nodup, h.nodup_held, ?_, ?_, ?_⟩
  · intro j
    by_cases hj : j = i
    · subst hj
      simpa [Rbb.setStatus, hst, hi] using ((h.mem_held j).1 hi).1
    · simpa [Rbb.setStatus, hj] using h.mem_held j
  · simpa using h.round
  · simpa using h.apart
  · simpa using h.inside

theorem Laid.take (h : Laid r out held) (hi : i ∈ r.blkList) :
    Laid (r.rtSlistRemove i) (out ++ [i]) held := by
  obtain ⟨hlist, hout, hdis⟩ := nodup_append.1 h.nodup
  refine ⟨h.region, h.mem_held, ?_, ?_, h.nodup_held, ?_, h.apart, h.inside⟩
  · intro j
    rw [h.split]
    by_cases hj : j = i
    · subst hj
      simp [hi]
    · simp [rtSlistRemove, hj]
  · refine nodup_append.2 ⟨hlist.filter _, ?_, ?_⟩
    · refine nodup_append.2 ⟨hout, nodup_singleton i, ?_⟩
      intro a ha b hb
      rw [mem_singleton.1 hb]
      exact (hdis i hi a ha).symm
    · intro a ha b hb
      obtain ⟨ha, hai⟩ := mem_filter.1 ha
      rcases mem_append.1 hb with hb | hb
      · exact hdis a ha b hb
      · rw [mem_singleton.1 hb]
        simpa using hai
  · exact h.round.sublist (filter_sublist.map _)

theorem Laid.free (h : Laid r out held) {out' : List ℕ} (hsub : out'.Sublist out)
    (hout : ∀ j, j ∈ out' ↔ j ∈ out ∧ j ≠ i) (hs : r.rtRbbBlkFree i = some r') :
    Laid r' out' (held.filter (· ≠ i)) := by
  rw [rtRbbBlkFree] at hs
  split at hs <;> cases hs
  have hmem : ∀ j, j ∈ held.filter (· ≠ i) ↔ j ∈ held ∧ j ≠ i := by simp
  refine ⟨h.region, ?_, ?_, ?_, h.nodup_held.filter _, ?_, ?_, ?_⟩
  · intro j
    rw [hmem, h.mem_held]
    by_cases hj : j = i
    · subst hj
      simp [Rbb.setStatus]
    · simp [Rbb.setStatus, rtSlistRemove, hj]
  · intro j
    rw [hmem, h.split, hout]
    simp only [Rbb.setStatus, rtSlistRemove, mem_filter, decide_eq_true_eq, ne_eq]
    grind
  · exact h.nodup.sublist (filter_sublist.append hsub)
  · simpa [rtSlistRemove] using h.round.sublist (filter_sublist.map _)
  · intro a ha b hb
    simpa [rtSlistRemove] using h.apart a ((hmem a).1 ha).1 b ((hmem b).1 hb).1
  · intro a ha
    simpa [rtSlistRemove] using h.inside a ((hmem a).1 ha).1

theorem Laid.freeAll {l : List ℕ} (h : Laid r (l ++ out) held)
    (hs : l.foldlM (fun r i => r.rtRbbBlkFree i) r = some r') :
    Laid r' out (held.filter (· ∉ l)) := by
  induction l generalizing r held with
  | nil =>
    cases hs
    simpa using h
  | cons i l ih =>
    rw [foldlM_cons] at hs
    obtain ⟨r₁, hr₁, hs⟩ := bind_eq_some_iff.1 hs
    have hnot : i ∉ l ++ out := (nodup_cons.1 (nodup_append.1 h.nodup).2.1).1
    have hfree := h.free (sublist_cons_self i (l ++ out)) ?_ hr₁
    · have hall := ih hfree hs
      rw [List.filter_filter] at hall
      simpa [Bool.and_comm] using hall
    · intro j
      simp only [cons_append, mem_cons]
      constructor
      · intro hj
        refine ⟨.inr hj, ?_⟩
        rintro rfl
        exact hnot hj
      · rintro ⟨hj | hj, hne⟩
        · exact absurd hj hne
        · exact hj

theorem Laid.queueFree {q : RbbBlkQueue} (h : Laid r (q.taken ++ out) held)
    (hq : q.taken = range' q.blocks q.blkNum) (hs : r.rtRbbBlkQueueFree q = some r') :
    Laid r' out (held.filter (· ∉ q.taken)) := by
  apply h.freeAll
  rw [hq, range'_eq_map_range, foldlM_map]
  exact hs

/-- The loop of `rt_rbb_blk_queue_get` moves blocks out of the list. -/
theorem Laid.queueGetLoop (len : UInt32) {nodes : List ℕ} (h : Laid r out held)
    (hnodup : nodes.Nodup) (hmem : ∀ i ∈ nodes, i ∈ r.blkList) (total : UInt32) (taken : List ℕ) :
    ∃ new, (Rbb.queueGetLoop len nodes r total taken).2.2 = taken ++ new ∧
      Laid (Rbb.queueGetLoop len nodes r total taken).1 (out ++ new) held := by
  induction nodes generalizing r out total taken with
  | nil => exact ⟨[], by simp [Rbb.queueGetLoop], by simpa [Rbb.queueGetLoop] using h⟩
  | cons i nodes ih =>
    obtain ⟨hnot, hnodes⟩ := nodup_cons.1 hnodup
    have hi := hmem i (mem_cons_self ..)
    have hrest : ∀ j ∈ nodes, j ∈ (r.rtSlistRemove i).blkList := by
      intro j hj
      have hne : j ≠ i := by
        rintro rfl
        exact hnot hj
      simpa [rtSlistRemove, hne] using hmem j (mem_cons_of_mem _ hj)
    -- the node `i` is taken
    have htake : ∀ total', ∃ new, (Rbb.queueGetLoop len nodes
          ((r.rtSlistRemove i).setStatus i .get) total' (taken ++ [i])).2.2 = taken ++ new ∧
        Laid (Rbb.queueGetLoop len nodes ((r.rtSlistRemove i).setStatus i .get) total'
          (taken ++ [i])).1 (out ++ new) held := by
      intro total'
      have hget : RbbStatus.get ≠ .unused := nofun
      have hlaid := (h.take hi).setStatus ((h.split i).2 (.inl hi)) hget
      obtain ⟨new, hnew, hlaid'⟩ := ih hlaid hnodes hrest total' (taken ++ [i])
      exact ⟨i :: new, by simpa using hnew, by simpa using hlaid'⟩
    simp only [Rbb.queueGetLoop]
    split
    · split
      · exact htake _
      · exact ih h hnodes (fun j hj => hmem j (mem_cons_of_mem _ hj)) total taken
    · split
      · exact ⟨[], by simp, by simpa using h⟩
      · exact htake _

theorem Laid.queueGet (h : Laid r out held) (len : UInt32) :
    Laid (r.rtRbbBlkQueueGet len).1
      (out ++ (r.rtRbbBlkQueueGet len).2.2.toList.flatMap RbbBlkQueue.taken) held := by
  obtain ⟨new, hnew, hlaid⟩ :=
    h.queueGetLoop len (nodup_append.1 h.nodup).1 (fun _ => id) 0 []
  rw [rtRbbBlkQueueGet]
  split
  · next heq =>
    rw [heq] at hnew hlaid
    simp only [nil_append] at hnew
    subst hnew
    simpa using hlaid
  · next heq =>
    rw [heq] at hnew hlaid
    simp only [nil_append] at hnew
    subst hnew
    simpa using hlaid

theorem findEmptyBlkInSet_eq_some (h : r.findEmptyBlkInSet = some new) :
    new < r.blkMaxNum ∧ (r.blkSet new).status = .unused := by
  have hmem := mem_of_find?_eq_some h
  have hst := find?_some h
  exact ⟨mem_range.1 hmem, by simpa using hst⟩

/-- The addresses of a block that is placed. -/
def newSpan (buf blkSize : UInt32) : Span := (⟨.inited, blkSize, buf⟩ : RbbBlk).span

/-- A block at `p` continues the order of the list, is inside the buffer, and is apart from the
blocks in `out`. -/
structure Placeable (r : Rbb) (out : List ℕ) (p blkSize : UInt32) : Prop where
  round : GoesRound ((r.blkList.map fun i => (r.blkSet i).span) ++ [newSpan p blkSize])
  inside : r.buf.toNat ≤ (newSpan p blkSize).lo ∧
    (newSpan p blkSize).hi ≤ r.buf.toNat + r.bufSize.toNat
  apart : ∀ x ∈ out, (r.blkSet x).span.Apart (newSpan p blkSize)

theorem Laid.place (h : Laid r out held) (hnew : r.findEmptyBlkInSet = some new)
    (hplace : Placeable r out p blkSize) : Laid (r.place new p blkSize) out (new :: held) := by
  obtain ⟨hlt, hunused⟩ := findEmptyBlkInSet_eq_some hnew
  have hnot : new ∉ held := by simp [h.mem_held, hunused]
  have hlist : new ∉ r.blkList := fun hm => hnot ((h.split new).2 (.inl hm))
  have hself : ((r.place new p blkSize).blkSet new).span = newSpan p blkSize := by
    simp [Rbb.place, newSpan]
  have hne : ∀ j ∈ held, (r.place new p blkSize).blkSet j = r.blkSet j := by
    intro j hj
    refine Function.update_of_ne ?_ ..
    rintro rfl
    exact hnot hj
  -- the new block is apart from the listed ones by their order, and from the others by assumption
  have hapart : ∀ j ∈ held, (r.blkSet j).span.Apart (newSpan p blkSize) := by
    intro j hj
    rcases (h.split j).1 hj with hj | hj
    · exact (pairwise_append.1 hplace.round.apart).2.2 _ (List.mem_map_of_mem hj) _
        (mem_singleton_self _)
    · exact hplace.apart j hj
  refine ⟨h.region, ?_, ?_, ?_, nodup_cons.2 ⟨hnot, h.nodup_held⟩, ?_, ?_, ?_⟩
  · intro j
    by_cases hj : j = new
    · subst hj
      simp [Rbb.place, hlt]
    · simpa [Rbb.place, hj] using h.mem_held j
  · intro j
    have hsplit := h.split j
    simp only [Rbb.place, mem_cons, mem_append, not_mem_nil, or_false]
    grind
  · have hnout : new ∉ out := fun hm => hnot ((h.split new).2 (.inr hm))
    have hperm : (r.blkList ++ [new] ++ out).Perm (new :: (r.blkList ++ out)) := by
      rw [append_assoc]
      exact perm_middle
    exact hperm.nodup_iff.2 (nodup_cons.2 ⟨by simp [hlist, hnout], h.nodup⟩)
  · have hmap : ((r.place new p blkSize).blkList.map fun j =>
        ((r.place new p blkSize).blkSet j).span) =
        (r.blkList.map fun j => (r.blkSet j).span) ++ [newSpan p blkSize] := by
      rw [← hself, Rbb.place, map_append]
      congr 1
      exact map_congr_left fun j hj => congrArg _ (hne j ((h.split j).2 (.inl hj)))
    rw [hmap]
    exact hplace.round
  · intro a ha b hb hab
    rcases mem_cons.1 ha with rfl | ha' <;> rcases mem_cons.1 hb with rfl | hb'
    · exact absurd rfl hab
    · rw [hself, hne b hb']
      exact (hapart b hb').symm
    · rw [hself, hne a ha']
      exact hapart a ha'
    · rw [hne a ha', hne b hb']
      exact h.apart a ha' b hb' hab
  · intro a ha
    rcases mem_cons.1 ha with rfl | ha
    · rw [hself]
      exact hplace.inside
    · rw [hne a ha]
      exact h.inside a ha

end Rbb

namespace RbbSys

open Rbb

variable {s s' : RbbSys} {a : RbbAction} {tr out : List RbbEvent} {held : List ℕ}
  {blkSize p : UInt32} {i : ℕ}

theorem toNat_bufEnd {l : List ℕ} (h : s.rbb.Laid l held) (hi : i ∈ held) :
    (s.rbb.blkSet i).bufEnd.toNat = (s.rbb.blkSet i).span.hi := by
  have hinside := (h.inside i hi).2
  have hregion := h.region
  rw [RbbBlk.bufEnd, toNat_add, mod_eq_of_lt]
  · rfl
  · exact hinside.trans_lt hregion

theorem toNat_end {l : List ℕ} (h : s.rbb.Laid l held) :
    (s.rbb.buf + s.rbb.bufSize).toNat = s.rbb.buf.toNat + s.rbb.bufSize.toNat := by
  rw [toNat_add, mod_eq_of_lt h.region]

/-- The first and the last block of the list, and that a block of a queue is covered by them. -/
structure Ends (s : RbbSys) (head tail : RbbBlk) : Prop where
  first : (s.rbb.blkList.map fun i => (s.rbb.blkSet i).span).head? = some head.span
  last : (s.rbb.blkList.map fun i => (s.rbb.blkSet i).span).getLast? = some tail.span
  head_inside : s.rbb.buf.toNat ≤ head.span.lo ∧
    head.span.hi ≤ s.rbb.buf.toNat + s.rbb.bufSize.toNat
  tail_inside : s.rbb.buf.toNat ≤ tail.span.lo ∧
    tail.span.hi ≤ s.rbb.buf.toNat + s.rbb.bufSize.toNat
  bufEnd_eq : tail.bufEnd.toNat = tail.span.hi
  covered : ∀ x ∈ s.inQueues, Covered head tail (s.rbb.blkSet x) ∧
    (s.rbb.blkSet x).bufEnd.toNat = (s.rbb.blkSet x).span.hi

namespace Ends

variable {head tail : RbbBlk}

section

variable (h : s.Ends head tail) (hl : s.rbb.Laid s.inQueues held)
include h hl

theorem behind (hle : head.buf ≤ tail.buf)
    (hroom : blkSize ≤ (s.rbb.buf + s.rbb.bufSize) - tail.bufEnd) :
    s.rbb.Placeable s.inQueues tail.bufEnd blkSize := by
  have hend := toNat_end hl
  have hlo : (newSpan tail.bufEnd blkSize).lo = tail.span.hi := h.bufEnd_eq
  have hhi : (newSpan tail.bufEnd blkSize).hi = tail.span.hi + blkSize.toNat :=
    congrArg (· + blkSize.toNat) h.bufEnd_eq
  obtain ⟨htail₁, htail₂⟩ := h.tail_inside
  rw [le_iff_toNat_le, toNat_sub_of_le _ _ (by
    rw [le_iff_toNat_le, hend, h.bufEnd_eq]
    exact htail₂), hend, h.bufEnd_eq] at hroom
  refine ⟨hl.round.behind h.first h.last (le_iff_toNat_le.1 hle) hlo.ge, ⟨?_, ?_⟩, ?_⟩
  · rw [hlo]
    exact htail₁.trans tail.span.le
  · rw [hhi]
    omega
  · intro x hx
    obtain ⟨hcov, hxe⟩ := h.covered x hx
    rw [Covered, if_pos hle, le_iff_toNat_le, le_iff_toNat_le, hxe, h.bufEnd_eq] at hcov
    exact Span.apart_of_le (hcov.2.trans hlo.ge)

theorem wrap (hle : head.buf ≤ tail.buf)
    (hpos : blkSize ≠ 0) (hroom : blkSize ≤ head.buf - s.rbb.buf) :
    s.rbb.Placeable s.inQueues s.rbb.buf blkSize := by
  have hhead : s.rbb.buf ≤ head.buf := le_iff_toNat_le.2 h.head_inside.1
  rw [le_iff_toNat_le, toNat_sub_of_le _ _ hhead] at hroom
  have hsize : blkSize.toNat ≠ 0 := fun hz => hpos (toNat_inj.1 hz)
  have hhi : (newSpan s.rbb.buf blkSize).hi ≤ head.span.lo :=
    Nat.add_le_of_le_sub' h.head_inside.1 hroom
  have hlt : (newSpan s.rbb.buf blkSize).lo < head.span.lo :=
    (Nat.lt_add_of_pos_right (Nat.pos_of_ne_zero hsize)).trans_le hhi
  refine ⟨hl.round.wrap h.first h.last (le_iff_toNat_le.1 hle) hhi hlt, ⟨le_rfl, ?_⟩, ?_⟩
  · exact hhi.trans (head.span.le.trans h.head_inside.2)
  · intro x hx
    obtain ⟨hcov, -⟩ := h.covered x hx
    rw [Covered, if_pos hle] at hcov
    have hbehind : head.span.lo ≤ (s.rbb.blkSet x).span.lo := le_iff_toNat_le.1 hcov.1
    exact (Span.apart_of_le (hhi.trans hbehind)).symm

theorem between (hlt : ¬ head.buf ≤ tail.buf) (hzero : blkSize = 0 → tail.bufEnd ≠ head.buf)
    (hroom : blkSize ≤ head.buf - tail.bufEnd) :
    s.rbb.Placeable s.inQueues tail.bufEnd blkSize := by
  obtain ⟨-, hab⟩ | ⟨hba, htail, -⟩ := hl.round.cases h.first h.last
  · exact absurd (le_iff_toNat_le.2 hab) hlt
  have hlo : (newSpan tail.bufEnd blkSize).lo = tail.span.hi := h.bufEnd_eq
  have hhi : (newSpan tail.bufEnd blkSize).hi = tail.span.hi + blkSize.toNat :=
    congrArg (· + blkSize.toNat) h.bufEnd_eq
  have hhead : head.buf.toNat = head.span.lo := rfl
  rw [le_iff_toNat_le, toNat_sub_of_le _ _ (by
    rw [le_iff_toNat_le, h.bufEnd_eq]
    exact htail), h.bufEnd_eq, hhead] at hroom
  -- an empty block does not begin where the first block begins
  have hstrict : (newSpan tail.bufEnd blkSize).lo < head.span.lo := by
    rw [hlo]
    rcases Nat.eq_zero_or_pos blkSize.toNat with hz | hpos
    · have hne := hzero (toNat_inj.1 hz)
      rw [Ne, ← toNat_inj, h.bufEnd_eq] at hne
      exact lt_of_le_of_ne htail hne
    · omega
  have hbefore : (newSpan tail.bufEnd blkSize).hi ≤ head.span.lo := by
    rw [hhi]
    omega
  refine ⟨hl.round.between h.first h.last hba hlo.ge hbefore hstrict, ⟨?_, ?_⟩, ?_⟩
  · rw [hlo]
    exact h.tail_inside.1.trans tail.span.le
  · exact hbefore.trans (head.span.le.trans h.head_inside.2)
  · intro x hx
    obtain ⟨hcov, hxe⟩ := h.covered x hx
    rw [Covered, if_neg hlt, le_iff_toNat_le, le_iff_toNat_le, hxe, h.bufEnd_eq] at hcov
    rcases hcov with hcov | hcov
    · have hbehind : head.span.lo ≤ (s.rbb.blkSet x).span.lo := hcov
      exact (Span.apart_of_le (hbefore.trans hbehind)).symm
    · exact Span.apart_of_le (hcov.trans hlo.ge)

end

end Ends

theorem placeable_room (h : s.rbb.Laid s.inQueues held) (hc : s.HasRoom blkSize)
    (hp : s.rbb.room blkSize = some p) : s.rbb.Placeable s.inQueues p blkSize := by
  rw [room] at hp
  rw [HasRoom] at hc
  cases hi : s.rbb.blkList.head? with
  | none =>
    have hnil : s.rbb.blkList = [] := head?_eq_none_iff.1 hi
    simp only [hnil, head?_nil] at hc hp
    cases hp
    refine ⟨?_, ⟨le_rfl, Nat.add_le_add_left (le_iff_toNat_le.1 hc.2) _⟩, by simp [hc.1]⟩
    rw [hnil]
    exact Ascending.goesRound (pairwise_singleton ..)
  | some i =>
    cases hj : s.rbb.blkList.getLast? with
    | none => simp [getLast?_eq_none_iff.1 hj] at hi
    | some j =>
      simp only [hi, hj] at hc hp
      have hmemi := (h.split i).2 (.inl (mem_of_head? hi))
      have hmemj := (h.split j).2 (.inl (mem_of_getLast? hj))
      have hends : s.Ends (s.rbb.blkSet i) (s.rbb.blkSet j) := by
        refine ⟨by simp [hi], by simp [hj], h.inside i hmemi, h.inside j hmemj,
          toNat_bufEnd h hmemj, ?_⟩
        exact fun x hx => ⟨hc.1 x hx, toNat_bufEnd h ((h.split x).2 (.inr hx))⟩
      split at hp
      · next hle =>
        split at hp
        · next hroom =>
          cases hp
          exact hends.behind h hle hroom
        · next hfull =>
          split at hp
          · next hroom =>
            cases hp
            -- an empty block would have had room behind the last one
            refine hends.wrap h hle ?_ hroom
            rintro rfl
            exact hfull (le_iff_toNat_le.2 (Nat.zero_le _))
          · cases hp
      · next hlt =>
        split at hp
        · next hroom =>
          cases hp
          refine hends.between h hlt ?_ hroom
          exact fun hz => hc.2 hz (UInt32.not_le.1 hlt)
        · cases hp

theorem laid_step (h : s.rbb.Laid s.inQueues held) (hc : s.Roomy a)
    (hs : s.step a = some (s', out)) : s'.rbb.Laid s'.inQueues (out.foldl hold held) := by
  cases a with
  | alloc blkSize =>
    rw [step] at hs
    split at hs <;> cases hs
    rw [rtRbbBlkAlloc]
    split
    · next new hnew =>
      split
      · split
        · next p hp => exact h.place hnew (placeable_room h (hc (by simp [hnew])) hp)
        · exact h
      · exact h
    · exact h
  | put i =>
    rw [step] at hs
    split at hs
    · next hi =>
      obtain ⟨r, hr, he⟩ := map_eq_some_iff.1 hs
      cases he
      rw [rtRbbBlkPut] at hr
      split at hr <;> cases hr
      next hst => exact h.setStatus ((h.mem_held i).2 ⟨hi, by simp [hst]⟩) nofun
    · cases hs
  | get =>
    cases hs
    rw [rtRbbBlkGet]
    split
    · next i hi =>
      exact h.setStatus ((h.split i).2 (.inl (mem_of_find?_eq_some hi))) nofun
    · exact h
  | free i =>
    rw [step] at hs
    split at hs
    · next hcan =>
      obtain ⟨r, hr, he⟩ := map_eq_some_iff.1 hs
      cases he
      have hfree := h.free (.refl _) (fun j => ⟨fun hj => ⟨hj, ?_⟩, And.left⟩) hr
      · simpa [hold, inQueues] using hfree
      · rintro rfl
        exact hcan.2 hj
    · cases hs
  | queueGet len =>
    cases hs
    have hget := h.queueGet len
    rwa [inQueues, flatMap_append]
  | queueFree k =>
    obtain ⟨q, hq, hs⟩ := bind_eq_some_iff.1 hs
    obtain ⟨r, hr, he⟩ := map_eq_some_iff.1 hs
    cases he
    obtain ⟨hk, hget⟩ := List.getElem?_eq_some_iff.1 hq
    have hperm : s.inQueues.Perm (q.taken ++ (s.queues.eraseIdx k).flatMap RbbBlkQueue.taken) := by
      have hcons := (List.getElem_cons_eraseIdx_perm hk).flatMap_right RbbBlkQueue.taken
      rw [hget, flatMap_cons] at hcons
      exact hcons.symm
    exact (h.perm hperm).queueFree (hc q hq) hr

theorem laid_boot {buf bufSize : UInt32} (blockSet : ℕ → RbbBlk) (n : ℕ)
    (h : buf.toNat + bufSize.toNat < 2 ^ 32) :
    (boot buf bufSize blockSet n).rbb.Laid (boot buf bufSize blockSet n).inQueues [] :=
  laid_rtRbbInit blockSet n h

theorem sound_of_laid (h : s.rbb.Laid s.inQueues (heldBlocks tr)) : Sound tr s := by
  have hunused : ∀ i < s.rbb.blkMaxNum, i ∉ heldBlocks tr →
      (s.rbb.blkSet i).status = .unused ∧ i ∉ s.rbb.blkList := by
    intro i hi hnot
    refine ⟨?_, fun hm => hnot ((h.split i).2 (.inl hm))⟩
    by_contra hst
    exact hnot ((h.mem_held i).2 ⟨hi, hst⟩)
  refine ⟨h.nodup_held.pairwise_of_forall_ne h.apart, h.inside, hunused, ?_⟩
  intro hnil hmax blkSize _
  have hlist : s.rbb.blkList = [] := by
    rw [eq_nil_iff_forall_not_mem]
    intro i hi
    have hheld := (h.split i).2 (.inl hi)
    simp [hnil] at hheld
  have hzero := (hunused 0 (Nat.pos_of_ne_zero hmax) (by simp [hnil])).1
  rw [rtRbbBlkAlloc]
  split
  · rw [if_pos (by simpa [hlist] using Nat.pos_of_ne_zero hmax)]
    simp [room, hlist]
  · next hnone =>
    have hno := find?_eq_none.1 hnone 0 (mem_range.2 (Nat.pos_of_ne_zero hmax))
    simp [hzero] at hno

/-- **The blocks in use are apart and inside the buffer**, as long as every allocation has room and
every queue that is freed has its blocks one after another. -/
theorem run_apart {buf bufSize : UInt32} {blockSet : ℕ → RbbBlk} {n : ℕ}
    (hregion : buf.toNat + bufSize.toNat < 2 ^ 32)
    (h : Run step Roomy (boot buf bufSize blockSet n) tr s) : Sound tr s := by
  refine sound_of_laid (h.invariant (fun tr s => s.rbb.Laid s.inQueues (heldBlocks tr))
    (laid_boot blockSet n hregion) ?_)
  intro tr s a s' out hlaid hc hs
  rw [heldBlocks, foldl_append]
  exact laid_step hlaid hc hs

/-- A block is allocated, got with a queue and freed, while a second one is allocated. -/
theorem run_apart_queue : ∃ s : RbbSys, Sound [.allocated 0, .allocated 1, .freed [0]] s ∧
    s.rbb.blkList = [1] := by
  have htr : (exec step Roomy (boot 4096 16 (fun _ => ⟨.unused, 0, 0⟩) 2)
      [.alloc 8, .put 0, .alloc 4, .queueGet 16, .queueFree 0]).map
        (fun r => (r.2, r.1.rbb.blkList)) =
      some ([.allocated 0, .allocated 1, .freed [0]], [1]) := rfl
  obtain ⟨⟨s, tr⟩, hexec, hr⟩ := map_eq_some_iff.1 htr
  have htrace : tr = [.allocated 0, .allocated 1, .freed [0]] := congrArg Prod.fst hr
  subst htrace
  exact ⟨s, run_apart (by decide) (Run.of_exec hexec), congrArg Prod.snd hr⟩

/-- **Two blocks in use overlap**: the first one has been got with a queue, so that the list is empty
when the second one is allocated. -/
theorem not_run_apart : ¬ ∀ (s : RbbSys) (tr : List RbbEvent),
    Run step (fun _ _ => True) (boot 4096 16 (fun _ => ⟨.unused, 0, 0⟩) 2) tr s → Sound tr s := by
  intro hall
  have htr : (exec step (fun _ _ => True) (boot 4096 16 (fun _ => ⟨.unused, 0, 0⟩) 2)
      [.alloc 8, .put 0, .queueGet 16, .alloc 8]).map
        (fun r => (r.2, r.1.rbb.blkSet 0, r.1.rbb.blkSet 1)) =
      some ([.allocated 0, .allocated 1], ⟨.get, 8, 4096⟩, ⟨.inited, 8, 4096⟩) := rfl
  obtain ⟨⟨s, tr⟩, hexec, hr⟩ := map_eq_some_iff.1 htr
  have htrace : tr = [.allocated 0, .allocated 1] := congrArg Prod.fst hr
  have hfirst : s.rbb.blkSet 0 = ⟨.get, 8, 4096⟩ := congrArg (·.2.1) hr
  have hsecond : s.rbb.blkSet 1 = ⟨.inited, 8, 4096⟩ := congrArg (·.2.2) hr
  subst htrace
  have hapart := pairwise_cons.1 (hall s _ (Run.of_exec hexec)).apart
  have hpair := hapart.1 0 (mem_singleton_self _) 4096
  rw [hfirst, hsecond] at hpair
  exact hpair (by decide)

end RbbSys

end RtThread
