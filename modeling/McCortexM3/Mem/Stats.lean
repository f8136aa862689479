import McCortexM3.Mem.Effects
import McCortexM3.Mem.Tiled

/-!
# The counters of the heap

`used_mem` and `max_mem`, with any number of calls of `rt_realloc` at once.  These release
`heap_sem` before they call `rt_malloc` and `rt_free`, so that other threads see the heap with both
blocks in it.

## Main definitions

* `MemSys.step` — calls, and the sections of `rt_realloc`; each step shows `used_mem`.
* `Heap.usedBytes` — the lengths of the used blocks together.

## Main results

* `MemSys.run_stats` — `used_mem` is that length, and `max_mem` the largest that there has been.
-/

set_option linter.all false

namespace RtThread

open Option List ByteMemory Tiling

namespace Heap

/-- The lengths of the used blocks among those at `ptrs`, with their headers. -/
def usedBytes (h : Heap) (ptrs : List UInt32) : ℕ :=
  ((ptrs.filter fun p => h.used (h.block p) ≠ 0).map
    fun p => (h.next (h.block p)).toNat - p.toNat).sum

end Heap

/-- A call of `rt_realloc` that moves a block: before `rt_malloc`, and before `rt_free`. -/
inductive ReallocPc
  | malloc (rmem size newsize : UInt32)
  | free (rmem nmem size newsize : UInt32)

/-- The pointers that the call has. -/
def ReallocPc.pointers : ReallocPc → List UInt32
  | .malloc rmem _ _ => [rmem]
  | .free rmem nmem _ _ => [rmem, nmem]

/-- The heap, the pointers that the callers have, and the calls of `rt_realloc` that go on. -/
structure MemSys where
  heap : Heap
  user : List UInt32
  ops : List ReallocPc

/-- A call, the next section of the `n`-th call that goes on, or a thread writes a byte. -/
inductive MemAction
  | malloc (size : UInt32)
  | realloc (rmem newsize : UInt32)
  | calloc (count size : UInt32)
  | free (rmem : UInt32)
  | go (n : ℕ)
  | write (a : ℕ) (b : UInt8)

namespace MemSys

/-- All pointers of used blocks. -/
def held (s : MemSys) : List UInt32 := s.user ++ s.ops.flatMap ReallocPc.pointers

/-- `rt_realloc` up to the release of `heap_sem`. -/
def callRealloc (fuel : ℕ) (s : MemSys) (rmem newsize : UInt32) : Option MemSys :=
  let newsize := rtAlign newsize
  if newsize > s.heap.memSizeAligned then some s
  else if newsize = 0 then
    (s.heap.rtFree rmem).map fun h => { s with heap := h, user := s.user.erase rmem }
  else if rmem = 0 then
    (s.heap.rtMalloc fuel newsize).map fun r =>
      { s with heap := r.1, user := HeapRun.handOut r.2 s.user }
  else if rmem < s.heap.heapPtr ∨ rmem ≥ s.heap.heapEnd then some s
  else
    let mem := rmem - sizeofStructMem
    let ptr := mem - s.heap.heapPtr
    let size := s.heap.next mem - ptr - sizeofStructMem
    if size = newsize then some s
    else if newsize + sizeofStructMem + minSize < size then
      (s.heap.reallocSplit ptr size newsize).map fun h => { s with heap := h }
    else
      some { s with user := s.user.erase rmem, ops := .malloc rmem size newsize :: s.ops }

/-- A call of `rt_realloc` goes on. -/
def goRealloc (fuel : ℕ) (s : MemSys) : ReallocPc → Option MemSys
  | .malloc rmem size newsize =>
    (s.heap.rtMalloc fuel newsize).map fun r =>
      if r.2 ≠ 0 then { s with heap := r.1, ops := .free rmem r.2 size newsize :: s.ops }
      else { s with heap := r.1, user := rmem :: s.user }
  | .free rmem nmem size newsize =>
    let n := if size < newsize then size else newsize
    ({ s.heap with ram := copy s.heap.ram nmem.toNat rmem.toNat n.toNat }.rtFree rmem).map
      fun h => { s with heap := h, user := nmem :: s.user }

/-- The state after one step, if callers pass pointers that they have. -/
def next (fuel : ℕ) (s : MemSys) : MemAction → Option MemSys
  | .malloc size =>
    (s.heap.rtMalloc fuel size).map fun r =>
      { s with heap := r.1, user := HeapRun.handOut r.2 s.user }
  | .realloc rmem newsize =>
    if rmem = 0 ∨ rmem ∈ s.user then s.callRealloc fuel rmem newsize else none
  | .calloc count size =>
    (s.heap.rtCalloc fuel count size).map fun r =>
      { s with heap := r.1, user := HeapRun.handOut r.2 s.user }
  | .free rmem =>
    if rmem = 0 ∨ rmem ∈ s.user then
      (s.heap.rtFree rmem).map fun h => { s with heap := h, user := s.user.erase rmem }
    else none
  | .go n => s.ops[n]?.bind fun op => { s with ops := s.ops.eraseIdx n }.goRealloc fuel op
  | .write a b =>
    if HeapRun.InBlock ⟨s.heap, s.user⟩ a then
      some { s with heap := { s.heap with ram := Function.update s.heap.ram a b } }
    else none

/-- One step; it shows the value of `used_mem`. -/
def step (fuel : ℕ) (s : MemSys) (a : MemAction) : Option (MemSys × List UInt32) :=
  (s.next fuel a).map fun s' => (s', [s'.heap.usedMem])

/-- `RT_ALIGN(count * size)` does not wrap around in `rt_calloc`. -/
def CallocFits (_ : MemSys) : MemAction → Prop
  | .calloc count size => (count * size).toNat + 3 < 2 ^ 32
  | _ => True

instance (s : MemSys) (a : MemAction) : Decidable (s.CallocFits a) := by
  unfold CallocFits
  split <;> infer_instance

/-! ### One step -/

open HeapRun Heap

variable {h₀ h h' : Heap} {bs bs' l r : List Block} {live live' : List UInt32} {x m k n fuel : ℕ}
variable {p q rmem nmem size newsize : UInt32} {s s' : MemSys}

/-- The block of `q` has room for `k` bytes. -/
def Room (h : Heap) (bs : List Block) (q : UInt32) (k : ℕ) : Prop :=
  ∃ x m, (x, m) ∈ usedRuns 0 bs ∧ q.toNat = h.heapPtr.toNat + x + 12 ∧ k + 12 ≤ m

/-- The new size of a call of `rt_realloc` can be aligned, and its new block has room for it. -/
def OpOk (h : Heap) (bs : List Block) : ReallocPc → Prop
  | .malloc _ _ newsize => newsize.toNat + 3 < 2 ^ 32
  | .free _ nmem _ newsize => Room h bs nmem newsize.toNat

/-- `max_mem` is the largest value of `used_mem`. -/
def Counted (h h' : Heap) : Prop := h'.maxMem.toNat = max h.maxMem.toNat h'.usedMem.toNat

theorem counted_of_accounts (ha : UsedMore h h' n) : Counted h h' := by
  unfold Counted
  rw [ha.2]
  split
  case isTrue hlt =>
    rw [UInt32.lt_iff_toNat_lt] at hlt
    omega
  case isFalse hge =>
    rw [UInt32.lt_iff_toNat_lt] at hge
    omega

theorem counted_of_less (hle : h.usedMem.toNat ≤ h.maxMem.toNat) (hmax : h'.maxMem = h.maxMem)
    (hless : h'.usedMem.toNat ≤ h.usedMem.toNat) : Counted h h' := by
  unfold Counted
  rw [hmax]
  omega

theorem Room.adds (hr : Room h bs q k) (ha : Adds h h' bs bs' p x m)
    (hptr : h'.heapPtr = h.heapPtr) : Room h' bs' q k := by
  obtain ⟨y, n, hy, hq, hk⟩ := hr
  exact ⟨y, n, ha.runs.2 (.inl hy), by rw [hptr, hq], hk⟩

theorem Room.removes (hr : Room h bs q k) (ha : Removes h h' bs bs' rmem x)
    (hptr : h'.heapPtr = h.heapPtr) (hne : q ≠ rmem) : Room h' bs' q k := by
  obtain ⟨y, n, hy, hq, hk⟩ := hr
  exact ⟨y, n, ha.runs.2 ⟨hy, offset_ne hne hq ha.offset⟩, by rw [hptr, hq], hk⟩

theorem Room.shortens (hr : Room h bs q k) (ha : Shortens h h' bs bs' rmem x m)
    (hptr : h'.heapPtr = h.heapPtr) (hne : q ≠ rmem) : Room h' bs' q k := by
  obtain ⟨y, n, hy, hq, hk⟩ := hr
  exact ⟨y, n, ha.runs.2 (.inr ⟨hy, offset_ne hne hq ha.offset⟩), by rw [hptr, hq], hk⟩

theorem OpOk.mono {op : ReallocPc} (hok : OpOk h bs op)
    (hroom : ∀ {q k}, q ∈ op.pointers → Room h bs q k → Room h' bs' q k) : OpOk h' bs' op := by
  cases op with
  | malloc => exact hok
  | free rmem nmem size newsize => exact hroom (mem_cons_of_mem _ mem_cons_self) hok

/-- The invariant of the states. -/
structure Ok (h₀ : Heap) (s : MemSys) (bs : List Block) : Prop where
  holds : Holds h₀ s.heap bs s.held
  ops : ∀ op ∈ s.ops, OpOk s.heap bs op
  le : s.heap.usedMem.toNat ≤ s.heap.maxMem.toNat

/-- What is left after a step: the invariant, and the counters. -/
structure Stepped (h₀ : Heap) (s s' : MemSys) (bs' : List Block) : Prop where
  holds : Holds h₀ s'.heap bs' s'.held
  ops : ∀ op ∈ s'.ops, OpOk s'.heap bs' op
  counted : Counted s.heap s'.heap

theorem Ok.stepped (ho : Ok h₀ s bs) : Stepped h₀ s s bs :=
  ⟨ho.holds, ho.ops, (max_eq_left ho.le).symm⟩

theorem Ok.ne_of_mem (ho : Ok h₀ s bs) {op : ReallocPc} (hop : op ∈ s.ops) (hq : q ∈ op.pointers)
    (hp : rmem ∈ s.user) : q ≠ rmem := by
  rintro rfl
  have hnodup := ho.holds.pointers.nodup
  exact (disjoint_of_nodup_append hnodup) hp (mem_flatMap.2 ⟨op, hop, hq⟩)

theorem Ok.mem_held (_ : Ok h₀ s bs) (hp : rmem ∈ s.user) : rmem ∈ s.held :=
  mem_append_left _ hp

theorem Ok.malloc (ho : Ok h₀ s bs) (hs : s.heap.rtMalloc fuel size = some (h', p)) :
    ∃ bs', Stepped h₀ s { s with heap := h', user := handOut p s.user } bs' := by
  rcases ho.holds.malloc hs with ⟨rfl, rfl⟩ | ⟨bs', x, m, hh', ha, -⟩
  · exact ⟨bs, ho.stepped⟩
  · have hptr := hh'.frame.heapPtr.trans ho.holds.frame.heapPtr.symm
    rw [handOut, if_neg (hh'.pointers.ne_zero mem_cons_self)]
    exact ⟨bs', hh', fun op hop => (ho.ops op hop).mono fun _ hr => hr.adds ha hptr,
      counted_of_accounts ha.accounts⟩

theorem Ok.free (ho : Ok h₀ s bs) (hp : rmem = 0 ∨ rmem ∈ s.user)
    (hs : s.heap.rtFree rmem = some h') :
    ∃ bs', Stepped h₀ s { s with heap := h', user := s.user.erase rmem } bs' := by
  rcases hp with rfl | hp
  · have hnot : (0 : UInt32) ∉ s.user :=
      fun hmem => ho.holds.zero_not_mem (mem_append_left _ hmem)
    rw [Heap.rtFree, if_pos rfl] at hs
    cases hs
    rw [erase_of_not_mem hnot]
    exact ⟨bs, ho.stepped⟩
  · obtain ⟨h₁, bs', x, hs', hh', hr⟩ := ho.holds.free (ho.mem_held hp)
    obtain rfl : h₁ = h' := some_inj.1 (hs'.symm.trans hs)
    have hptr := hh'.frame.heapPtr.trans ho.holds.frame.heapPtr.symm
    rw [held, erase_append_left _ hp] at hh'
    exact ⟨bs', hh', fun op hop => (ho.ops op hop).mono fun hq hroom =>
      hroom.removes hr hptr (ho.ne_of_mem hop hq hp), counted_of_less ho.le hr.maxMem hr.less⟩

theorem Ok.split (ho : Ok h₀ s bs) (hp : rmem ∈ s.user)
    (hle : newsize.toNat ≤ s.heap.memSizeAligned.toNat) (hdvd : 4 ∣ newsize.toNat)
    (hne : newsize ≠ 0) (hlt : newsize + sizeofStructMem + minSize < s.heap.blockSize rmem)
    (hs : s.heap.reallocSplit (rmem - sizeofStructMem - s.heap.heapPtr) (s.heap.blockSize rmem)
      newsize = some h') : ∃ bs', Stepped h₀ s { s with heap := h' } bs' := by
  obtain ⟨h₁, bs', x, hs', hh', hr⟩ :=
    ho.holds.split (ho.mem_held hp) rfl rfl hle hdvd hne hlt
  obtain rfl : h₁ = h' := some_inj.1 (hs'.symm.trans hs)
  have hptr := hh'.frame.heapPtr.trans ho.holds.frame.heapPtr.symm
  exact ⟨bs', hh', fun op hop => (ho.ops op hop).mono fun hq hroom =>
    hroom.shortens hr hptr (ho.ne_of_mem hop hq hp), counted_of_less ho.le hr.maxMem hr.less⟩

theorem Ok.suspend (ho : Ok h₀ s bs) (hp : rmem ∈ s.user) (size : UInt32)
    (hfits : newsize.toNat + 3 < 2 ^ 32) : Stepped h₀ s { s with
      user := s.user.erase rmem
      ops := .malloc rmem size newsize :: s.ops } bs := by
  refine ⟨ho.holds.perm ?_, fun op hop => ?_, (max_eq_left ho.le).symm⟩
  · have hperm : s.user.Perm (rmem :: s.user.erase rmem) := perm_cons_erase hp
    exact (hperm.append_right _).trans perm_middle.symm
  · rcases mem_cons.1 hop with rfl | hop
    · exact hfits
    · exact ho.ops op hop

theorem Ok.callRealloc (ho : Ok h₀ s bs) (hp : rmem = 0 ∨ rmem ∈ s.user)
    (hs : s.callRealloc fuel rmem newsize = some s') : ∃ bs', Stepped h₀ s s' bs' := by
  unfold MemSys.callRealloc at hs
  dsimp only at hs
  by_cases hgt : rtAlign newsize > s.heap.memSizeAligned
  · rw [if_pos hgt] at hs
    cases hs
    exact ⟨bs, ho.stepped⟩
  have hle : (rtAlign newsize).toNat ≤ s.heap.memSizeAligned.toNat := by
    rwa [gt_iff_lt, UInt32.lt_iff_toNat_lt, Nat.not_lt] at hgt
  rw [if_neg hgt] at hs
  by_cases hzero : rtAlign newsize = 0
  · rw [if_pos hzero] at hs
    obtain ⟨h', hfree, rfl⟩ := map_eq_some_iff.1 hs
    exact ho.free hp hfree
  rw [if_neg hzero] at hs
  by_cases hnull : rmem = 0
  · rw [if_pos hnull] at hs
    obtain ⟨r, hr, rfl⟩ := map_eq_some_iff.1 hs
    exact ho.malloc hr
  have hp := hp.resolve_left hnull
  rw [if_neg hnull] at hs
  by_cases houtside : rmem < s.heap.heapPtr ∨ rmem ≥ s.heap.heapEnd
  · rw [if_pos houtside] at hs
    cases hs
    exact ⟨bs, ho.stepped⟩
  rw [if_neg houtside] at hs
  split at hs
  · cases hs
    exact ⟨bs, ho.stepped⟩
  split at hs
  · next hlt =>
    obtain ⟨h', hsplit, rfl⟩ := map_eq_some_iff.1 hs
    exact ho.split hp hle (Nat.dvd_of_mod_eq_zero (rtAlign_mod newsize)) hzero hlt hsplit
  · cases hs
    exact ⟨bs, ho.suspend hp _ (rtAlign_fits newsize)⟩

theorem held_perm {op : ReallocPc} (hop : s.ops[n]? = some op) :
    s.held.Perm (op.pointers ++ { s with ops := s.ops.eraseIdx n }.held) := by
  obtain ⟨hn, rfl⟩ := List.getElem?_eq_some_iff.1 hop
  have hops : s.ops.Perm (s.ops[n] :: s.ops.eraseIdx n) :=
    (List.getElem_cons_eraseIdx_perm hn).symm
  have hflat := hops.flatMap_right ReallocPc.pointers
  rw [flatMap_cons] at hflat
  exact (hflat.append_left s.user).trans (perm_append_comm_assoc _ _ _)

theorem Ok.goRealloc {op : ReallocPc} (ho : Ok h₀ s bs) (hop : s.ops[n]? = some op)
    (hs : { s with ops := s.ops.eraseIdx n }.goRealloc fuel op = some s') :
    ∃ bs', Stepped h₀ s s' bs' := by
  have hperm := held_perm hop
  have hin := mem_of_getElem? hop
  have hrest : ∀ op' ∈ s.ops.eraseIdx n, op' ∈ s.ops := fun _ h => mem_of_mem_eraseIdx h
  obtain ⟨s₀, hs₀⟩ : ∃ s₀ : MemSys, s₀ = { s with ops := s.ops.eraseIdx n } := ⟨_, rfl⟩
  rw [← hs₀] at hperm hs
  have hheap : s₀.heap = s.heap := by rw [hs₀]
  have hops : s₀.ops = s.ops.eraseIdx n := by rw [hs₀]
  cases op with
  | malloc rmem size newsize =>
    obtain ⟨⟨h', p⟩, hmalloc, rfl⟩ := map_eq_some_iff.1 hs
    rw [hheap] at hmalloc
    rcases ho.holds.malloc hmalloc with ⟨rfl, rfl⟩ | ⟨bs', x, m, hh', ha, hm⟩
    · -- the caller gets its pointer back
      rw [if_neg (not_not.2 rfl)]
      exact ⟨bs, ho.holds.perm hperm, fun op' hop' => ho.ops op' (hrest op' (hops ▸ hop')),
        (max_eq_left ho.le).symm⟩
    · have hptr := hh'.frame.heapPtr.trans ho.holds.frame.heapPtr.symm
      rw [if_pos (hh'.pointers.ne_zero mem_cons_self)]
      refine ⟨bs', hh'.perm ?_, fun op' hop' => ?_, counted_of_accounts ha.accounts⟩
      · have hmiddle : (rmem :: p :: s₀.held).Perm (s₀.user ++ (rmem :: p ::
            s₀.ops.flatMap ReallocPc.pointers)) :=
          (perm_append_comm_assoc [rmem, p] s₀.user _)
        exact ((hperm.cons p).trans (List.Perm.swap rmem p _)).trans hmiddle
      · rcases mem_cons.1 hop' with rfl | hop'
        · exact ⟨x, m, ha.runs.2 (.inr ⟨rfl, rfl⟩), by rw [hptr, ha.offset],
            Adds.room hm (ho.ops _ hin)⟩
        · exact (ho.ops op' (hrest op' (hops ▸ hop'))).mono fun _ hr => hr.adds ha hptr
  | free rmem nmem size newsize =>
    obtain ⟨h', hfree, rfl⟩ := map_eq_some_iff.1 hs
    rw [hheap] at hfree
    obtain ⟨x, m, hx, hoffset, hroom⟩ := ho.ops _ hin
    have hcount : (if size < newsize then size else newsize).toNat ≤ newsize.toNat := by
      split
      case isTrue hlt => exact Nat.le_of_lt (UInt32.lt_iff_toNat_lt.1 hlt)
      case isFalse => exact Nat.le_refl _
    -- the bytes are copied into the new block
    obtain ⟨h₁, hh₁⟩ : ∃ h₁ : Heap, h₁ = { s.heap with
      ram := copy s.heap.ram nmem.toNat rmem.toNat
        (if size < newsize then size else newsize).toNat } :=
      ⟨_, rfl⟩
    rw [← hh₁] at hfree
    have hcopied : Holds h₀ h₁ bs s.held := by
      refine ho.holds.writeRun hx (by rw [hh₁]; exact ⟨rfl, rfl, rfl⟩)
        (by rw [hh₁]; exact ⟨rfl, rfl⟩) fun y hy => ?_
      rw [hh₁]
      exact copy_of_outside (by omega)
    have hstats : h₁.usedMem = s.heap.usedMem ∧ h₁.maxMem = s.heap.maxMem := by
      rw [hh₁]
      exact ⟨rfl, rfl⟩
    have hptr₁ : h₁.heapPtr = s.heap.heapPtr := by rw [hh₁]
    have hmem : rmem ∈ s.held := hperm.mem_iff.2 mem_cons_self
    obtain ⟨h₂, bs', y, hs', hh', hr⟩ := hcopied.free hmem
    obtain rfl : h₂ = h' := some_inj.1 (hs'.symm.trans hfree)
    have hptr := hh'.frame.heapPtr.trans hcopied.frame.heapPtr.symm
    refine ⟨bs', hh'.perm ?_, fun op' hop' => ?_, ?_⟩
    · have herase := hperm.erase rmem
      rwa [ReallocPc.pointers, cons_append, erase_cons_head] at herase
    · have hnodup := (hperm.nodup_iff.1 ho.holds.pointers.nodup)
      have hnot : rmem ∉ s₀.held := fun hin' =>
        (nodup_cons.1 hnodup).1 (mem_cons_of_mem nmem hin')
      refine (ho.ops op' (hrest op' (hops ▸ hop'))).mono fun {q k} hq hk => ?_
      have hne : q ≠ rmem := by
        rintro rfl
        exact hnot (mem_append_right _ (mem_flatMap.2 ⟨op', hop', hq⟩))
      have hk₁ : Room h₁ bs q k := by
        obtain ⟨z, j, hz, hqz, hj⟩ := hk
        exact ⟨z, j, hz, by rw [hptr₁, hqz], hj⟩
      exact hk₁.removes hr hptr hne
    · have hless := hr.less
      rw [hstats.1] at hless
      exact counted_of_less ho.le (hr.maxMem.trans hstats.2) hless

theorem Ok.next {a : MemAction} (ho : Ok h₀ s bs) (hc : s.CallocFits a)
    (hs : s.next fuel a = some s') : ∃ bs', Stepped h₀ s s' bs' := by
  cases a with
  | malloc size =>
    obtain ⟨r, hr, rfl⟩ := map_eq_some_iff.1 hs
    exact ho.malloc hr
  | realloc rmem newsize =>
    simp only [MemSys.next, ite_none_right_eq_some] at hs
    exact ho.callRealloc hs.1 hs.2
  | calloc count size =>
    obtain ⟨r, hr, rfl⟩ := map_eq_some_iff.1 hs
    obtain ⟨⟨h₁, p⟩, hh₁, rfl⟩ := map_eq_some_iff.1 hr
    rcases ho.holds.malloc hh₁ with ⟨rfl, rfl⟩ | ⟨bs', x, m, hh', ha, hm⟩
    · exact ⟨bs, ho.stepped⟩
    · have hne := hh'.pointers.ne_zero mem_cons_self
      have hptr := hh'.frame.heapPtr.trans ho.holds.frame.heapPtr.symm
      have hroom := Adds.room hm hc
      have hoffset := ha.offset
      rw [← hptr] at hoffset
      dsimp only
      rw [if_pos hne]
      dsimp only
      rw [handOut, if_neg hne]
      -- the block is cleared
      refine ⟨bs', hh'.writeRun (ha.runs.2 (.inr ⟨rfl, rfl⟩)) ⟨rfl, rfl, rfl⟩ ⟨rfl, rfl⟩
        fun y hy => fill_of_outside (by omega), fun op hop => ?_, ?_⟩
      · have hok : OpOk h₁ bs' op := (ho.ops op hop).mono fun _ hr => hr.adds ha hptr
        exact hok.mono fun _ hr => hr
      · exact counted_of_accounts ha.accounts
  | free rmem =>
    simp only [MemSys.next, ite_none_right_eq_some] at hs
    obtain ⟨hp, hs⟩ := hs
    obtain ⟨h', hfree, rfl⟩ := map_eq_some_iff.1 hs
    exact ho.free hp hfree
  | go n =>
    obtain ⟨op, hop, hs⟩ := bind_eq_some_iff.1 hs
    exact ho.goRealloc hop hs
  | write a b =>
    simp only [MemSys.next, ite_none_right_eq_some, some.injEq] at hs
    obtain ⟨⟨q, hq, hle, hlt⟩, rfl⟩ := hs
    obtain ⟨l, n, r, rfl, hoffset, -, -, hnext, -⟩ :=
      ho.holds.pointers.block ho.holds.inv (ho.mem_held hq)
    rw [hnext] at hlt
    dsimp only at hle hlt
    refine ⟨_, ho.holds.write rfl ⟨rfl, rfl, rfl⟩ ⟨rfl, rfl⟩ fun y hy =>
      Function.update_of_ne (by omega) _ _, fun op hop => ?_, (max_eq_left ho.le).symm⟩
    exact (ho.ops op hop).mono fun _ hr => hr

/-! ### A call of `rt_realloc` without others in between -/

/-- The call of `rt_realloc` that has begun after `n` others goes on. -/
def resume (fuel n : ℕ) (s : MemSys) : Option MemSys :=
  if s.ops.length = n then some s else s.next fuel (.go 0)

/-- The second and the third section of `rt_realloc`. -/
def resume2 (fuel n : ℕ) (s : MemSys) : Option MemSys :=
  (s.resume fuel n).bind fun s => s.resume fuel n

/-! ### The runs -/

theorem usedBytes_starts (hrep : h.Rep (l ++ r)) :
    h.usedBytes ((starts (total l) r).map UInt32.ofNat) = usedTotal r := by
  unfold usedBytes
  induction r generalizing l with
  | nil => rfl
  | cons b r ih =>
    obtain ⟨n, u⟩ := b
    have hd := header_ofNat hrep
    have hofNat := (toNat_ofNat_starts hrep (x := total l) (by simp)).1
    have hrest := ih (l := l ++ [⟨n, u⟩]) (by simpa using hrep)
    simp only [total_append, total_cons, total_nil, Nat.add_zero] at hrest
    rw [starts, map_cons, filter_cons, usedTotal, ← hrest]
    have hused := used_eq_zero_iff hd
    cases u with
    | true =>
      rw [if_pos (by simp [hused]), if_pos rfl, map_cons, sum_cons, next_eq hd, hofNat,
        Nat.add_sub_cancel_left]
    | false =>
      rw [if_neg (by simp [hused]), if_neg Bool.false_ne_true, Nat.zero_add]

/-- The largest of some values. -/
def largest (seen : List UInt32) : ℕ := seen.foldl (fun m u => max m u.toNat) 0

theorem largest_snoc (seen : List UInt32) (u : UInt32) :
    largest (seen ++ [u]) = max (largest seen) u.toNat := by
  rw [largest, foldl_append]
  rfl

/-- **The counters**: in every run in which `RT_ALIGN` does not wrap around in `rt_calloc`,
`used_mem` is the length of the used blocks with their headers, and `max_mem` is the largest value
that it has had. -/
theorem run_stats (fuel : ℕ) (ram : ℕ → UInt8) (beginAddr endAddr : UInt32) (h : Heap)
    (hinit : Heap.rtSystemHeapInit ram beginAddr endAddr = some h) (seen : List UInt32)
    (s : MemSys) (hrun : Run (step fuel) CallocFits ⟨h, [], []⟩ seen s) :
    (∃ ptrs, TilesRegion s.heap s.held ptrs ∧ s.heap.usedMem.toNat = s.heap.usedBytes ptrs) ∧
    s.heap.maxMem.toNat = largest seen := by
  have hinv : (∃ bs, Ok h s bs) ∧ s.heap.maxMem.toNat = largest seen := by
    refine hrun.invariant (fun seen s => (∃ bs, Ok h s bs) ∧ s.heap.maxMem.toNat = largest seen)
      ?_ fun {tr s a s' out} hI hc hs => ?_
    · obtain ⟨bs, hh⟩ := holds_init hinit
      have hinitial : Initial False h := initial_init hinit
      have hstats := hinitial.stats
      refine ⟨⟨bs, hh, fun _ hop => (not_mem_nil hop).elim, ?_⟩, ?_⟩
      · show h.usedMem.toNat ≤ h.maxMem.toNat
        rw [hstats.1, hstats.2]
      · show h.maxMem.toNat = 0
        rw [hstats.2]
        rfl
    · obtain ⟨⟨bs, ho⟩, hmax⟩ := hI
      obtain ⟨s₁, hs₁, heq⟩ := map_eq_some_iff.1 hs
      cases heq
      obtain ⟨bs', hst⟩ := ho.next hc hs₁
      have hcounted := hst.counted
      unfold Counted at hcounted
      refine ⟨⟨bs', hst.holds, hst.ops, by omega⟩, ?_⟩
      rw [largest_snoc, ← hmax, hcounted]
  obtain ⟨⟨bs, ho⟩, hmax⟩ := hinv
  refine ⟨⟨_, tilesRegion_of_inv ho.holds.inv ho.holds.pointers, ?_⟩, hmax⟩
  rw [ho.holds.usedMem]
  exact (usedBytes_starts (l := []) ho.holds.inv.rep).symm

/-- A block of 20 bytes is moved to one of 100, and both are used in between. -/
theorem run_stats_move :
    ∃ s : MemSys, s.user = [0x1030] ∧ s.heap.usedMem = 112 ∧ s.heap.maxMem = 144 ∧
      ∃ ptrs, TilesRegion s.heap s.held ptrs ∧ s.heap.usedMem.toNat = s.heap.usedBytes ptrs := by
  have hsome : ((Heap.rtSystemHeapInit (fun _ => 0) 0x1001 0x1100).bind fun h =>
      exec (step 9) CallocFits ⟨h, [], []⟩ [.malloc 20, .realloc 0x1010 100, .go 0, .go 0]).any
        fun r => r.1.user = [0x1030] ∧ r.1.heap.usedMem = 112 ∧ r.1.heap.maxMem = 144 := by
    decide +kernel
  obtain ⟨⟨s, seen⟩, hs, hfacts⟩ := (Option.any_eq_true _ _).1 hsome
  obtain ⟨h, hinit, hexec⟩ := bind_eq_some_iff.1 hs
  obtain ⟨huser, hused, hmax⟩ := of_decide_eq_true hfacts
  exact ⟨s, huser, hused, hmax, (run_stats 9 _ 0x1001 0x1100 h hinit seen s (Run.of_exec hexec)).1⟩

end MemSys

end RtThread
