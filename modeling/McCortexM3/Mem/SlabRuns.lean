import McCortexM3.Mem.SlabZones

/-!
# Runs of the slab heap

Each section of an operation keeps the invariant of the heap, with what the operation still has to
give back or to return.

## Main definitions

* `AfterFree`, `AfterMalloc` — what holds after a section.
* `SlabSys.Inv` — the invariant between the steps.
* `SlabSys.Consistent` — what it says about zones, lists, `memusage` and allocations.

## Main results

* `HeapInv.freeRun`, `HeapInv.mallocRun` — the sections.
* `SlabSys.run_consistent` — the heap is consistent after every run.
* `SlabSys.not_run_consistent` — not every page of a large allocation has an entry.
-/

set_option linter.all false

namespace RtThread

open Function Option List Nat
open Function (update)

/-! ### Sections -/

namespace FreePc

/-- The allocation that `rt_free` has not taken back yet. -/
def holds : FreePc → List Allocation
  | free a => [a]
  | pageFree _ _ => []

/-- The pages that `rt_free` gives back. -/
def transit : FreePc → List PlaceRun
  | free _ => []
  | pageFree page n => [⟨page, n⟩]

end FreePc

namespace MallocPc

/-- The allocation that `rt_malloc` has made. -/
def holds : MallocPc → List Allocation
  | largeStats page n => [.large page n]
  | _ => []

/-- The pages that `rt_malloc` has taken for a zone. -/
def transit (c : SlabConfig) : MallocPc → List PlaceRun
  | zoneInit z _ _ => [⟨z, c.zonePageCnt⟩]
  | _ => []

/-- The size is not zero, and that of a zone fits. -/
def Ok (c : SlabConfig) : MallocPc → Prop
  | malloc size => 0 < size
  | zoneAlloc size zi => c.SizeOk size zi
  | zoneInit _ size zi => c.SizeOk size zi
  | largeStats _ _ => True

end MallocPc

/-- What holds after a section of `rt_free`. -/
def AfterFree (c : SlabConfig) (A : List Allocation) (T : List PlaceRun)
    (r : Slab × Option FreePc) : Prop :=
  match r.2 with
  | none => HeapInv c r.1 A T
  | some pc => HeapInv c r.1 (pc.holds ++ A) (pc.transit ++ T)

/-- What holds after a section of `rt_malloc`. -/
def AfterMalloc (c : SlabConfig) (A : List Allocation) (T : List PlaceRun)
    (r : Slab × MallocNext) : Prop :=
  match r.2 with
  | .goto pc => pc.Ok c ∧ HeapInv c r.1 (pc.holds ++ A) (pc.transit c ++ T)
  | .done a => HeapInv c r.1 (a.toList ++ A) T

namespace HeapInv

variable {c : SlabConfig} {h : Slab} {A : List Allocation} {T : List PlaceRun}

theorem retireZone {z : ℕ} (hi : HeapInv c h A T) (hz : z ∈ h.zones) (hnil : chunksOf z A = []) :
    AfterFree c A T (h.retireZone c z) := by
  have hretire := hi.retire hz hnil
  unfold Slab.retireZone
  dsimp only
  split
  case isTrue =>
    refine (hretire.take_zoneFree rfl).set_usage fun p hp => ?_
    exact if_neg hp
  case isFalse => exact hretire

theorem freeSmall {z ptr : ℕ} (hi : HeapInv c h (.small z ptr :: A) T) :
    AfterFree c A T (h.freeSmall c z ptr) := by
  have hz := hi.small z ptr mem_cons_self
  have hok := hi.header z (mem_append_left _ hz)
  have hholds := hi.chunks z hz
  rw [chunksOf_small] at hholds
  obtain ⟨hok', hholds'⟩ := hok.free hholds
  have hlinked : Linked h.zones (update h.zone z
      { h.zone z with
        freechunk := ptr :: (h.zone z).freechunk
        nfree := (h.zone z).nfree + 1 })
      (if (h.zone z).nfree = 0 then
        update h.zoneArray (h.zone z).zoneindex (z :: h.zoneArray (h.zone z).zoneindex)
        else h.zoneArray) := by
    split
    case isTrue hzero =>
      refine hi.linked.insert (fun y => ?_) (fun zi hmem => ?_) (succ_pos _)
      · exact (or_iff_right_of_imp fun heq => heq ▸ hz).symm
      · have hpos := ((hi.linked.mem_iff zi z).1 hmem).2.2
        omega
    case isFalse hzero =>
      exact hi.linked.update rfl (iff_of_true (succ_pos _) (Nat.pos_of_ne_zero hzero))
  unfold Slab.freeSmall
  dsimp only
  generalize (if (h.zone z).nfree = 0 then
    update h.zoneArray (h.zone z).zoneindex (z :: h.zoneArray (h.zone z).zoneindex)
    else h.zoneArray) = arr at hlinked ⊢
  have hset := (hi.set_zone A hz hok' hholds'
    (fun y hy => (chunksOf_small_of_ne hy.symm ptr A).symm) rfl hlinked).congr
      (h.usedMem - UInt32.ofNat (h.zone z).chunksize) h.maxMem
  split
  case isTrue hfree => exact hset.retireZone hz (hok'.eq_nil hholds' hfree.1)
  case isFalse => exact hset

theorem freeSection {a : Allocation} (hi : HeapInv c h (a :: A) T) :
    AfterFree c A T (h.freeSection c a.ptr) := by
  unfold Slab.freeSection
  cases a with
  | small z ptr =>
    have hpos := (hi.header z (mem_append_left _ (hi.small z ptr mem_cons_self))).pos
    obtain ⟨hle, husage⟩ := hi.usage_small mem_cons_self (Nat.le_refl ptr)
      (Nat.lt_add_of_pos_right hpos)
    have hback : ptr / rtMmPageSize - (ptr / rtMmPageSize - z) = z := by omega
    dsimp only [Allocation.ptr]
    rw [husage, if_neg nofun, hback]
    exact hi.freeSmall
  | large page n =>
    have hpage : page * rtMmPageSize / rtMmPageSize = page := Nat.mul_div_cancel _ (by decide)
    have husage := (hi.large page n mem_cons_self).1
    dsimp only [Allocation.ptr]
    rw [hpage, husage, if_pos rfl]
    have hset := hi.of_large.set_usage (m := update h.memusage page ⟨.large, 0⟩)
      fun p hp => update_of_ne (fun heq => hp ?_) ..
    · exact hset.congr _ _
    · exact heq ▸ covers_first page (hi.large page n mem_cons_self).2

theorem freeRun {pc : FreePc} (hi : HeapInv c h (pc.holds ++ A) (pc.transit ++ T)) :
    AfterFree c A T (h.freeRun c pc) := by
  cases pc with
  | free a => exact hi.freeSection
  | pageFree page n => exact hi.give_pages

theorem mallocSmall {size zi : ℕ} (hi : HeapInv c h A T) (hs : c.SizeOk size zi) :
    ∃ r, h.mallocSmall c size zi = some r ∧ AfterMalloc c A T r := by
  unfold Slab.mallocSmall
  split
  case h_1 z rest hlist =>
    obtain ⟨r, hr, hi'⟩ := hi.takeChunk hlist hs
    rw [hr]
    exact ⟨_, rfl, hi'⟩
  case h_2 =>
    split
    case h_1 z rest hfree =>
      have hz : z ∈ h.zones ++ h.zoneFree :=
        mem_append_right _ (hfree ▸ mem_cons_self)
      exact ⟨_, rfl, (hi.take_zoneFree hfree).initZone (hi.usage z hz) hs⟩
    case h_2 => exact ⟨_, rfl, hs, hi⟩

theorem mallocSection {size : ℕ} (hi : HeapInv c h A T) (h0 : 0 < size) :
    ∃ r, h.mallocSection c size = some r ∧ AfterMalloc c A T r := by
  unfold Slab.mallocSection
  split
  case isTrue =>
    dsimp only
    obtain ⟨npages, hnp⟩ : ∃ n, n = roundUp size rtMmPageSize % 2 ^ 32 / rtMmPageSize := ⟨_, rfl⟩
    rw [← hnp]
    split
    case h_1 => exact ⟨_, rfl, hi⟩
    case h_2 page hpage =>
      have hn := (cover_rtPageAlloc hpage).1
      refine ⟨_, rfl, trivial, ?_⟩
      refine ((hi.take_pages hpage).set_usage fun p hp => ?_).to_large hn (update_self ..)
      exact update_of_ne (fun heq : p = page => hp (heq ▸ covers_first page hn)) ..
  case isFalse hlt => exact hi.mallocSmall (c.sizeOk_zoneindex h0 (Nat.lt_of_not_le hlt))

/-- A section of `rt_malloc`: no null pointer is followed. -/
theorem mallocRun {pc : MallocPc} (hi : HeapInv c h (pc.holds ++ A) (pc.transit c ++ T))
    (hpc : pc.Ok c) : ∃ r, h.mallocRun c pc = some r ∧ AfterMalloc c A T r := by
  cases pc with
  | malloc size => exact hi.mallocSection hpc
  | zoneAlloc size zi =>
    unfold Slab.mallocRun
    dsimp only
    split
    case h_1 => exact ⟨_, rfl, hi⟩
    case h_2 z hpage => exact ⟨_, rfl, hpc, hi.take_pages hpage⟩
  | zoneInit z size zi =>
    refine ⟨_, rfl, (hi.set_usage fun p hp => if_neg hp).initZone (fun i hlt => ?_) hpc⟩
    have hcovers : z ≤ z + i ∧ z + i < z + c.zonePageCnt :=
      ⟨Nat.le_add_right z i, Nat.add_lt_add_left hlt z⟩
    refine (if_pos hcovers).trans ?_
    rw [Nat.add_sub_cancel_left]
  | largeStats page n => exact ⟨_, rfl, hi.congr _ _⟩

end HeapInv

namespace Slab

variable {c : SlabConfig} {h : Slab}

theorem takeChunk_cnt {z size zi : ℕ} {rest : List ℕ} {r : Slab × ℕ}
    (hr : h.takeChunk z size zi rest = some r) : r.1.zoneFreeCnt = h.zoneFreeCnt := by
  unfold takeChunk at hr
  dsimp only at hr
  generalize (if (h.zone z).nfree - 1 = 0 then update h.zoneArray zi rest
    else h.zoneArray) = arr at hr
  split at hr
  case isTrue =>
    cases hr
    rfl
  case isFalse =>
    split at hr
    case h_1 => cases hr
    case h_2 =>
      cases hr
      rfl

theorem mallocRun_cnt {pc : MallocPc} {r : Slab × MallocNext} (hr : h.mallocRun c pc = some r) :
    r.1.zoneFreeCnt ≤ h.zoneFreeCnt := by
  cases pc with
  | malloc size =>
    unfold mallocRun mallocSection mallocSmall at hr
    dsimp only at hr
    obtain ⟨npages, hnp⟩ : ∃ n, n = roundUp size rtMmPageSize % 2 ^ 32 / rtMmPageSize := ⟨_, rfl⟩
    rw [← hnp] at hr
    split at hr
    case isTrue => split at hr <;> cases hr <;> exact Nat.le_refl _
    case isFalse =>
      split at hr
      case h_1 =>
        obtain ⟨r', hr', rfl⟩ := map_eq_some_iff.1 hr
        exact Nat.le_of_eq (takeChunk_cnt hr')
      case h_2 =>
        split at hr
        case h_1 =>
          cases hr
          exact sub_le _ _
        case h_2 =>
          cases hr
          exact Nat.le_refl _
  | zoneAlloc size zi =>
    unfold mallocRun at hr
    dsimp only at hr
    split at hr <;> cases hr <;> exact Nat.le_refl _
  | zoneInit z size zi =>
    cases hr
    exact Nat.le_refl _
  | largeStats page n =>
    cases hr
    exact Nat.le_refl _

theorem retireZone_cnt (z : ℕ) (hcnt : h.zoneFreeCnt ≤ zoneReleaseThresh) :
    (h.retireZone c z).1.zoneFreeCnt ≤ zoneReleaseThresh := by
  unfold retireZone
  dsimp only
  split
  case isTrue => exact hcnt
  case isFalse hle => exact Nat.le_of_not_lt hle

theorem freeRun_cnt (pc : FreePc) (hcnt : h.zoneFreeCnt ≤ zoneReleaseThresh) :
    (h.freeRun c pc).1.zoneFreeCnt ≤ zoneReleaseThresh := by
  cases pc with
  | free a =>
    unfold freeRun freeSection freeSmall
    dsimp only
    generalize h.memusage (a.ptr / rtMmPageSize) = kup
    generalize a.ptr / rtMmPageSize - kup.size = z
    generalize (if (h.zone z).nfree = 0 then
      update h.zoneArray (h.zone z).zoneindex (z :: h.zoneArray (h.zone z).zoneindex)
      else h.zoneArray) = arr
    split
    case isTrue => exact hcnt
    case isFalse =>
      split
      case isTrue => exact retireZone_cnt _ hcnt
      case isFalse => exact hcnt
  | pageFree page n => exact hcnt

end Slab

/-! ### Operations -/

namespace SlabOp

/-- The allocations that an operation has. -/
def holds : SlabOp → List Allocation
  | malloc pc old => pc.holds ++ old.toList
  | free pc result => pc.holds ++ result.toList

/-- The pages that an operation has. -/
def transit (c : SlabConfig) : SlabOp → List PlaceRun
  | malloc pc _ => pc.transit c
  | free pc _ => pc.transit

/-- The sizes of an operation. -/
def Ok (c : SlabConfig) : SlabOp → Prop
  | malloc pc _ => pc.Ok c
  | free _ _ => True

end SlabOp

namespace SlabSys

/-- The allocations that callers or operations have. -/
def allocations (s : SlabSys) : List Allocation := s.user ++ s.ops.flatMap SlabOp.holds

/-- The pages that operations have. -/
def transit (c : SlabConfig) (s : SlabSys) : List PlaceRun := s.ops.flatMap (SlabOp.transit c)

/-- What holds between the steps, `A` and `T` being what the operation has that goes on. -/
structure Inv (c : SlabConfig) (s : SlabSys) (A : List Allocation) (T : List PlaceRun) : Prop where
  heap : HeapInv c s.heap (A ++ s.allocations) (T ++ s.transit c)
  ops : ∀ op ∈ s.ops, op.Ok c
  cnt : s.heap.zoneFreeCnt ≤ zoneReleaseThresh

namespace Inv

variable {c : SlabConfig} {s s' : SlabSys} {A : List Allocation}

theorem push_op (op : SlabOp) (hi : Inv c s op.holds (op.transit c)) (hop : op.Ok c) :
    Inv c { s with ops := op :: s.ops } [] [] := by
  refine ⟨hi.heap.perm ?_ (List.Perm.refl _), ?_, hi.cnt⟩
  · show (op.holds ++ (s.user ++ s.ops.flatMap SlabOp.holds)).Perm
      (s.user ++ (op.holds ++ s.ops.flatMap SlabOp.holds))
    rw [← append_assoc, ← append_assoc]
    exact perm_append_comm.append_right _
  · intro op' hop'
    rcases mem_cons.1 hop' with rfl | hop'
    · exact hop
    · exact hi.ops op' hop'

theorem push_user {a : Allocation} (hi : Inv c s [a] []) :
    Inv c { s with user := a :: s.user } [] [] :=
  ⟨hi.heap, hi.ops, hi.cnt⟩

theorem pop_user {a : Allocation} (hi : Inv c s [] []) (ha : a ∈ s.user) :
    Inv c { s with user := s.user.erase a } [a] [] :=
  ⟨hi.heap.perm ((perm_cons_erase ha).append_right _) (List.Perm.refl _), hi.ops, hi.cnt⟩

theorem pop_op {op : SlabOp} {n : ℕ} (hi : Inv c s [] []) (hop : s.ops[n]? = some op) :
    op.Ok c ∧ Inv c { s with ops := s.ops.eraseIdx n } op.holds (op.transit c) := by
  obtain ⟨hlt, rfl⟩ := List.getElem?_eq_some_iff.1 hop
  have hperm := (List.getElem_cons_eraseIdx_perm hlt).symm
  refine ⟨hi.ops _ (getElem_mem hlt), hi.heap.perm ?_ (hperm.flatMap_right _), ?_, hi.cnt⟩
  · show (s.user ++ s.ops.flatMap SlabOp.holds).Perm
      (s.ops[n].holds ++ (s.user ++ (s.ops.eraseIdx n).flatMap SlabOp.holds))
    refine ((hperm.flatMap_right _).append_left _).trans ?_
    rw [flatMap_cons, ← append_assoc, ← append_assoc]
    exact perm_append_comm.append_right _
  · exact fun op hmem => hi.ops op (eraseIdx_subset hmem)

theorem mallocDone {old r : Option Allocation} (hi : Inv c s (r.toList ++ old.toList) []) :
    Inv c (s.mallocDone old r).1 [] [] := by
  cases old with
  | none =>
    cases r with
    | none => exact hi
    | some b => exact hi.push_user
  | some a =>
    cases r with
    | none => exact hi.push_user
    | some b =>
      refine push_op (.free (.free a) (some b)) ⟨?_, hi.ops, hi.cnt⟩ trivial
      exact hi.heap.perm ((List.Perm.swap a b []).append_right _) (List.Perm.refl _)

theorem freeDone {result : Option Allocation} (hi : Inv c s result.toList []) :
    Inv c (s.freeDone result).1 [] [] := by
  cases result with
  | none => exact hi
  | some b => exact hi.push_user

theorem goOp {op : SlabOp} {r : SlabSys × List SlabEvent}
    (hi : Inv c s op.holds (op.transit c)) (hop : op.Ok c) (hr : s.goOp c op = some r) :
    Inv c r.1 [] [] := by
  cases op with
  | malloc pc old =>
    obtain ⟨⟨h', next⟩, hh, rfl⟩ := map_eq_some_iff.1 hr
    have hcnt := Nat.le_trans (Slab.mallocRun_cnt hh) hi.cnt
    have hheap := hi.heap
    rw [SlabOp.holds, append_assoc] at hheap
    obtain ⟨r', hr', hafter⟩ := hheap.mallocRun hop
    obtain rfl := some.inj (hr'.symm.trans hh)
    cases next with
    | goto pc' =>
      have hheap' : HeapInv c h' (pc'.holds ++ (old.toList ++ s.allocations)) _ := hafter.2
      rw [← append_assoc] at hheap'
      exact push_op (s := { s with heap := h' }) (.malloc pc' old) ⟨hheap', hi.ops, hcnt⟩ hafter.1
    | done a =>
      have hheap' : HeapInv c h' (a.toList ++ (old.toList ++ s.allocations)) _ := hafter
      rw [← append_assoc] at hheap'
      exact mallocDone (s := { s with heap := h' }) ⟨hheap', hi.ops, hcnt⟩
  | free pc result =>
    have hcnt := Slab.freeRun_cnt (c := c) pc hi.cnt
    have hheap := hi.heap
    rw [SlabOp.holds, append_assoc] at hheap
    have hafter := hheap.freeRun
    generalize hh : s.heap.freeRun c pc = next at hcnt hafter
    obtain ⟨h', next⟩ := next
    unfold SlabSys.goOp at hr
    dsimp only at hr
    rw [hh] at hr
    cases next with
    | some pc' =>
      cases hr
      have hheap' : HeapInv c h' (pc'.holds ++ (result.toList ++ s.allocations)) _ := hafter
      rw [← append_assoc] at hheap'
      exact push_op (s := { s with heap := h' }) (.free pc' result) ⟨hheap', hi.ops, hcnt⟩ trivial
    | none =>
      cases hr
      exact freeDone (s := { s with heap := h' }) ⟨hafter, hi.ops, hcnt⟩

theorem isSome_goOp {op : SlabOp} (hi : Inv c s op.holds (op.transit c)) (hop : op.Ok c) :
    (s.goOp c op).isSome := by
  unfold SlabSys.goOp
  cases op with
  | malloc pc old =>
    have hheap := hi.heap
    rw [SlabOp.holds, append_assoc] at hheap
    obtain ⟨r, hr, -⟩ := hheap.mallocRun hop
    dsimp only
    rw [hr]
    rfl
  | free pc result =>
    dsimp only
    split <;> rfl

section

variable (hi : Inv c s [] [])
include hi

theorem isSome_step_go {n : ℕ} (hn : n < s.ops.length) : (s.step c (.go n)).isSome := by
  obtain ⟨hok, hi'⟩ := hi.pop_op (getElem?_eq_getElem hn)
  unfold SlabSys.step
  dsimp only
  rw [getElem?_eq_getElem hn]
  exact hi'.isSome_goOp hok

theorem callMalloc (size : UInt32) : Inv c (s.callMalloc size).1 [] [] := by
  unfold SlabSys.callMalloc
  split
  case isTrue => exact hi
  case isFalse h0 =>
    exact push_op (.malloc (.malloc size.toNat) none) hi (toNat_pos h0)

theorem callFree {a : Allocation} (ha : a ∈ s.user) : Inv c (s.callFree a).1 [] [] :=
  push_op (.free (.free a) none) (hi.pop_user ha) trivial

theorem callRealloc {a : Allocation} (ha : a ∈ s.user) (size : UInt32) :
    Inv c (s.callRealloc a size).1 [] [] := by
  unfold SlabSys.callRealloc
  split
  case isTrue => exact hi.callFree ha
  case isFalse h0 =>
    have hmalloc : ∀ size, 0 < size →
        Inv c { s with
          user := s.user.erase a
          ops := .malloc (.malloc size) (some a) :: s.ops } [] [] :=
      fun size hpos => push_op (.malloc (.malloc size) (some a)) (hi.pop_user ha) hpos
    dsimp only
    split
    case h_1 => exact hmalloc _ (toNat_pos h0)
    case h_2 =>
      split
      case isTrue => exact hi
      case isFalse => exact hmalloc _ (zoneindex_pos (toNat_pos h0))
    case h_3 => exact hi

theorem step {a : SlabAction} {evs : List SlabEvent} (hstep : s.step c a = some (s', evs)) :
    Inv c s' [] [] := by
  cases a with
  | malloc size =>
    obtain rfl := congrArg Prod.fst (some.inj hstep)
    exact hi.callMalloc size
  | calloc count size =>
    obtain rfl := congrArg Prod.fst (some.inj hstep)
    exact hi.callMalloc (count * size)
  | realloc p size =>
    cases p with
    | none =>
      obtain rfl := congrArg Prod.fst (some.inj hstep)
      exact hi.callMalloc size
    | some a =>
      by_cases ha : a ∈ s.user
      · obtain rfl := congrArg Prod.fst (some.inj ((if_pos ha).symm.trans hstep))
        exact hi.callRealloc ha size
      · exact absurd ((if_neg ha).symm.trans hstep) nofun
  | free p =>
    cases p with
    | none =>
      cases hstep
      exact hi
    | some a =>
      by_cases ha : a ∈ s.user
      · obtain rfl := congrArg Prod.fst (some.inj ((if_pos ha).symm.trans hstep))
        exact hi.callFree ha
      · exact absurd ((if_neg ha).symm.trans hstep) nofun
  | go n =>
    obtain ⟨op, hop, hgo⟩ := bind_eq_some_iff.1 hstep
    obtain ⟨hok, hi'⟩ := hi.pop_op hop
    exact hi'.goOp hok hgo

end

end Inv

end SlabSys

/-! ### Runs -/

namespace SlabConfig

theorem memusagePages_le (c : SlabConfig) : 0 < c.memusagePages ∧ c.memusagePages ≤ c.npages := by
  have hpos := c.pos
  have hdiv : c.memusagePages = (c.npages * 4 + 4095) / 4096 :=
    Nat.mul_div_cancel _ (by decide)
  omega

theorem rtPageAlloc_boot (c : SlabConfig) :
    (rtPageAlloc c.memusagePages (rtPageFree 0 c.npages [])).1 = some 0 := by
  obtain ⟨hpos, hle⟩ := c.memusagePages_le
  unfold rtPageAlloc
  rw [if_neg (Nat.ne_of_gt hpos)]
  unfold rtPageFree pageAlloc
  dsimp only
  split
  case isTrue => rfl
  case isFalse hgt =>
    rw [if_pos (by omega)]

end SlabConfig

namespace SlabSys

variable {c : SlabConfig}

theorem inv_boot (memusage : ℕ → Memusage) (zone : ℕ → SlabZone) :
    Inv c (boot c memusage zone) [] [] := by
  refine ⟨⟨fun p => ?_, by rintro _ ⟨⟩, by rintro _ ⟨⟩, by rintro _ _ ⟨⟩, by rintro _ _ ⟨⟩,
    by rintro _ ⟨⟩, ⟨fun zi z => ?_, fun zi => ?_⟩, rfl⟩,
    by rintro _ ⟨⟩, Nat.zero_le _⟩
  · have hcover := (cover_rtPageAlloc c.rtPageAlloc_boot).2 p
    have hall : cover (rtPageFree 0 c.npages []) p = if p < c.npages then 1 else 0 := by
      unfold rtPageFree
      rw [cover_cons, cover_nil, Nat.zero_add]
      refine if_congr ?_ rfl rfl
      unfold PlaceRun.Covers
      dsimp only
      omega
    rw [hall] at hcover
    rw [← hcover, cover_cons, cover_cons, cover_nil, Nat.zero_add]
    rfl
  · exact iff_of_false (by rintro ⟨⟩) (by rintro ⟨⟨⟩, -⟩)
  · exact nodup_nil

/-- The zones, their lists, `memusage` and the allocations fit together.  Of a large allocation only
the first page has an entry. -/
structure Consistent (c : SlabConfig) (s : SlabSys) : Prop where
  nfree : ∀ z ∈ s.heap.zones ++ s.heap.zoneFree, (s.heap.zone z).nfree =
    (s.heap.zone z).nmax - ((s.heap.zone z).uindex + 1) + (s.heap.zone z).freechunk.length
  zoneArray : ∀ zi z, z ∈ s.heap.zoneArray zi ↔ z ∈ s.heap.zones ++ s.heap.zoneFree ∧
    z ∉ s.heap.zoneFree ∧ (s.heap.zone z).zoneindex = zi ∧ 0 < (s.heap.zone z).nfree
  zoneFree : s.heap.zoneFreeCnt = s.heap.zoneFree.length ∧ s.heap.zoneFreeCnt ≤ zoneReleaseThresh
  small : ∀ z ptr x, .small z ptr ∈ s.allocations → s.heap.Has (.small z ptr) x →
    z ∈ s.heap.zones ∧ z ≤ x / rtMmPageSize ∧
      s.heap.memusage (x / rtMmPageSize) = ⟨.small, x / rtMmPageSize - z⟩
  large : ∀ page n, .large page n ∈ s.allocations → s.heap.memusage page = ⟨.large, n⟩
  apart : s.allocations.Pairwise fun a b => ∀ x, ¬ (s.heap.Has a x ∧ s.heap.Has b x)
  inside : ∀ a ∈ s.allocations, ∀ x, s.heap.Has a x →
    c.memusagePages * rtMmPageSize ≤ x ∧ x < c.npages * rtMmPageSize
  go : ∀ n < s.ops.length, (s.step c (.go n)).isSome

theorem Inv.consistent {s : SlabSys} (hi : Inv c s [] []) : Consistent c s where
  nfree := fun z hz => (hi.heap.header z hz).nfree
  zoneArray := fun zi z => by
    rw [hi.heap.linked.mem_iff]
    refine ⟨fun ⟨hz, hrest⟩ => ⟨mem_append_left _ hz, fun hfree => ?_, hrest⟩,
      fun ⟨hz, hfree, hrest⟩ => ⟨(mem_append.1 hz).resolve_right hfree, hrest⟩⟩
    exact disjoint_of_nodup_append hi.heap.nodup_zones hz hfree
  zoneFree := ⟨hi.heap.cnt, hi.cnt⟩
  small := fun z ptr x ha hx => ⟨hi.heap.small z ptr ha, hi.heap.usage_small ha hx.1 hx.2⟩
  large := fun page n ha => (hi.heap.large page n ha).1
  apart := hi.heap.apart
  inside := fun a ha x hx => hi.heap.inside ha hx
  go := fun n hn => hi.isSome_step_go hn

/-- **The slab heap is consistent** after every run, however the operations are interleaved. -/
theorem run_consistent (memusage : ℕ → Memusage) (zone : ℕ → SlabZone) {evs : List SlabEvent}
    {s : SlabSys}
    (hrun : Run (step c) (fun _ _ => True) (boot c memusage zone) evs s) : Consistent c s :=
  (hrun.invariant (fun _ s => Inv c s [] []) (inv_boot memusage zone)
    fun hi _ hstep => hi.step hstep).consistent

/-- Sixteen pages, of which `memusage` takes one. -/
def sixteenPages : SlabSys :=
  boot ⟨16, by decide⟩ (fun _ => ⟨.free, 0⟩) fun _ => ⟨false, 0, 0, 0, 0, 0, 0, []⟩

/-- A new zone and two pages behind it. -/
theorem run_consistent_zone : ∃ s : SlabSys, s.user = [.large 9 2, .small 1 4136] ∧
    Consistent ⟨16, by decide⟩ s := by
  have hrun : Run (step ⟨16, by decide⟩) (fun _ _ => True) sixteenPages _ _ :=
    Run.of_exec (rfl : exec (step ⟨16, by decide⟩) (fun _ _ => True) sixteenPages
      [.malloc 100, .go 0, .go 0, .go 0, .malloc 8192, .go 0, .go 0] = some (_, _))
  exact ⟨_, rfl, run_consistent _ _ hrun⟩

/-- The second page of a large allocation keeps the entry it had. -/
theorem not_run_consistent : ¬ ∀ (c : SlabConfig) (memusage : ℕ → Memusage) (zone : ℕ → SlabZone)
    (evs : List SlabEvent) (s : SlabSys),
    Run (step c) (fun _ _ => True) (boot c memusage zone) evs s →
      ∀ page n, .large page n ∈ s.user → ∀ p, page ≤ p → p < page + n →
        (s.heap.memusage p).type = .large := by
  intro hall
  have hrun : Run (step ⟨16, by decide⟩) (fun _ _ => True) sixteenPages _ _ :=
    Run.of_exec (rfl : exec (step ⟨16, by decide⟩) (fun _ _ => True) sixteenPages
      [.malloc 8192, .go 0, .go 0] = some (_, _))
  have htype := hall _ _ _ _ _ hrun 1 2 mem_cons_self 2 (by decide) (by decide)
  cases htype

end SlabSys

end RtThread
