import McCortexM3.Mem.Memheaps

/-!
# Runs of several memory heaps

Each heap has its own blocks, and what a call does to one heap leaves the others alone: the heaps do
not overlap, and a call writes items of its heap only.

## Main definitions

* `Memheaps.Kept` — a block is still there, with its contents.
* `MemheapsRun.Ok` — the invariant: each heap holds its part of the live pointers.

## Main results

* `Ok.alloc`, `Ok.free`, `Ok.write`, `Ok.resize` — the calls on one heap.
* `Ok.rtMalloc` — `rt_malloc` adds a block to one of the heaps.
-/

set_option linter.all false

namespace RtThread

open Function Option List ByteMemory Tiling
open Function (update)

namespace Memheaps

/-- The block of `p` is still there, with its contents. -/
structure Kept (s s' : Memheaps) (p : UInt32) : Prop where
  used : s'.IsUsed (p - memheapSize)
  pool : s'.pool p = s.pool p
  size : s'.size p = s.size p
  contents : ∀ i < (s.size p).toNat, s'.ram (p.toNat + i) = s.ram (p.toNat + i)

theorem Kept.trans {s s' s'' : Memheaps} {p : UInt32} (hk : s.Kept s' p) (hk' : s'.Kept s'' p) :
    s.Kept s'' p :=
  ⟨hk'.used, hk'.pool.trans hk.pool, hk'.size.trans hk.size, fun i hi =>
    (hk'.contents i (by rwa [hk.size])).trans (hk.contents i hi)⟩

theorem put_memheap (s : Memheaps) (a : UInt32) : s.put (s.memheap a) = s := by
  simp only [put, memheap]
  rw [update_eq_self]

theorem put_ram (s : Memheaps) (a : UInt32) (ram : ℕ → UInt8) :
    s.put { s.memheap a with ram := ram } = { s with ram := ram } := by
  simp only [put, memheap]
  rw [update_eq_self]

theorem put_put {s : Memheaps} {h h' : Memheap} (haddr : h'.addr = h.addr) :
    (s.put h).put h' = s.put h' := by
  simp only [put, haddr, update_idem]

end Memheaps

namespace MemheapRun

open Memheap

/-- What is outside of the heap has not been written. -/
structure Local (h h' : Memheap) : Prop where
  frame : SameFrame h h'
  outside : ∀ y, (y < h.startAddr.toNat ∨ h.startAddr.toNat + h.poolSize.toNat ≤ y) →
    (y < h.freeList.toNat ∨ h.freeList.toNat + 24 ≤ y) → h'.ram y = h.ram y

variable {h h' k : Memheap} {bs bs' : List Block} {live live' : List UInt32} {x n : ℕ} {p : UInt32}

theorem addr_rtMemheapFree (hs : h.rtMemheapFree p = some h') : h'.addr = h.addr := by
  rw [Memheap.rtMemheapFree] at hs
  split at hs
  · cases hs
    rfl
  · dsimp only at hs
    split at hs
    · cases hs
      unfold mergeRight mergeLeft
      split_ifs <;> rfl
    · cases hs

theorem Within.local (hw : Within h h' bs bs') (hh : Holds h bs live) (hh' : Holds h' bs' live') :
    Local h h' := ⟨hw.frame, fun _ hr hf => hw.outside hh hh' hr hf⟩

theorem Holds.of_apart (hh : Holds h bs live) (hk : Local k h') (hapart : h.Apart k)
    (hram : h.ram = k.ram) : Holds { h with ram := h'.ram } bs live := by
  obtain ⟨hheaders, hleft, hright, hregions⟩ := hapart
  refine hh.congr_ram ⟨rfl, rfl, rfl, rfl⟩ rfl fun y hy => ?_
  rw [hram]
  exact hk.outside y (by omega) (by omega)

theorem Owns.ram_of_apart (hh : Holds h bs live) (ho : Owns h bs p x n) (hk : Local k h')
    (hapart : h.Apart k) (hram : h.ram = k.ram) {y : ℕ} (hle : p.toNat ≤ y)
    (hlt : y < h.startAddr.toNat + x + n) : h'.ram y = h.ram y := by
  obtain ⟨hheaders, hleft, hright, hregions⟩ := hapart
  have hend := ho.end_le hh
  have hoffset := ho.offset
  have hheader := hh.inv.rep.shape.header
  have htotal := hh.total_eq
  rw [hram]
  exact hk.outside y (by omega) (by omega)

end MemheapRun

namespace MemheapsRun

open Memheap MemheapRun

/-- The invariant: each heap holds the pointers of its part, no two heaps overlap, and the live
pointers are those of all parts. -/
structure Ok (s : Memheaps) (live : List UInt32) (part : UInt32 → List UInt32) : Prop where
  system : s.heap ∈ s.list
  nodup : s.list.Nodup
  heaps : ∀ a ∈ s.list, ∃ bs, Holds (s.memheap a) bs (part a)
  apart : ∀ a ∈ s.list, ∀ b ∈ s.list, a ≠ b → (s.memheap a).Apart (s.memheap b)
  live : live.Perm (s.list.flatMap part)

variable {s s' : Memheaps} {live live' l : List UInt32} {part : UInt32 → List UInt32}
variable {a b p q ptr size newsize : UInt32} {h h' : Memheap} {bs bs' : List Block}
variable {x y n m k fuel : ℕ}

theorem Ok.live_perm (ok : Ok s live part) (ha : a ∈ s.list) :
    live.Perm (part a ++ (s.list.erase a).flatMap part) :=
  ok.live.trans ((perm_cons_erase ha).flatMap_right part)

theorem flatMap_update (hnodup : s.list.Nodup) (ha : a ∈ s.list) :
    (s.list.flatMap (update part a l)).Perm (l ++ (s.list.erase a).flatMap part) := by
  refine ((perm_cons_erase ha).flatMap_right _).trans ?_
  rw [flatMap_cons, update_self]
  refine List.Perm.append_left l (.of_eq (flatMap_congr fun b hb => ?_))
  have hne : b ≠ a := by
    rintro rfl
    exact hnodup.not_mem_erase hb
  exact update_of_ne hne _ _

theorem Ok.owner (ok : Ok s live part) (hp : p ∈ live) :
    ∃ a ∈ s.list, s.pool p = a ∧ p ∈ part a ∧
      ∃ bs x n, Holds (s.memheap a) bs (part a) ∧ Owns (s.memheap a) bs p x n := by
  obtain ⟨a, ha, hpa⟩ := mem_flatMap.1 (ok.live.mem_iff.1 hp)
  obtain ⟨bs, hh⟩ := ok.heaps a ha
  obtain ⟨x, n, ho⟩ := hh.exists_owns hpa
  exact ⟨a, ha, (ho.header hh).2.2, hpa, bs, x, n, hh, ho⟩

theorem Ok.ne_zero (ok : Ok s live part) (hp : p ∈ live) : p ≠ 0 := by
  obtain ⟨a, -, -, hpa, bs, -, -, hh, -⟩ := ok.owner hp
  exact hh.pointers.ne_zero hh.inv hpa

theorem kept_of_owns (hk : Holds (s.memheap a) bs live) (hk' : Holds (s'.memheap a) bs' live')
    (ho : Owns (s.memheap a) bs p x n) (ho' : Owns (s'.memheap a) bs' p x n)
    (hram : ∀ y, p.toNat ≤ y → y < p.toNat + (n - 24) → s'.ram y = s.ram y) : s.Kept s' p := by
  obtain ⟨hsize, -, hpool⟩ := ho.header hk
  obtain ⟨hsize', hused', hpool'⟩ := ho'.header hk'
  refine ⟨hused', hpool'.trans hpool.symm, UInt32.toNat_inj.1 (hsize'.trans hsize.symm),
    fun i hi => hram _ (Nat.le_add_right _ _) ?_⟩
  have hi' : i < n - 24 := hsize ▸ hi
  omega

theorem Ok.kept_self (ok : Ok s live part) (hp : p ∈ live) : s.Kept s p := by
  obtain ⟨a, -, -, -, bs, x, n, hh, ho⟩ := ok.owner hp
  exact kept_of_owns hh hh ho ho fun _ _ _ => rfl

/-! ### What is done to one heap -/

theorem sameFrame_put (hf : SameFrame (s.memheap a) h') (b : UInt32) :
    SameFrame (s.memheap b) ((s.put h').memheap b) := by
  have haddr : h'.addr = a := hf.addr
  by_cases hba : b = a
  · subst hba
    rw [Memheaps.memheap_put_self haddr]
    exact hf
  · rw [Memheaps.memheap_put_of_ne (haddr ▸ hba)]
    exact ⟨rfl, rfl, rfl, rfl⟩

/-- A block of the heap is kept when it keeps its length, and its contents are not written. -/
theorem kept_same (hl : Local (s.memheap a) h') (hh : Holds (s.memheap a) bs (part a))
    (hh' : Holds h' bs' l) (ho : Owns (s.memheap a) bs q x n) (hrun : (x, n) ∈ usedRuns 0 bs')
    (hram : ∀ y, (s.memheap a).startAddr.toNat + x + 24 ≤ y →
      y < (s.memheap a).startAddr.toNat + x + n → h'.ram y = s.ram y) : s.Kept (s.put h') q := by
  have haddr : h'.addr = a := hl.frame.addr
  have htotal := total_congr hh.inv hh'.inv hl.frame
  have hself := Memheaps.memheap_put_self (s := s) haddr
  have hlen := ho.len_ge hh
  have hoffset := ho.offset
  refine kept_of_owns hh (hself.symm ▸ hh') ho (hself.symm ▸ ⟨hrun, ?_, ?_⟩) fun y hle hlt =>
    hram y (by omega) (by omega)
  · rw [htotal]
    exact ho.before
  · rw [hl.frame.startAddr, hoffset]

section

variable (ok : Ok s live part) (ha : a ∈ s.list) (hl : Local (s.memheap a) h')
include ok ha hl

theorem Ok.holds_other (hb : b ∈ s.list) (hne : b ≠ a) (hh : Holds (s.memheap b) bs l) :
    Holds ((s.put h').memheap b) bs l := by
  have haddr : h'.addr = a := hl.frame.addr
  rw [Memheaps.memheap_put_of_ne (haddr ▸ hne)]
  exact hh.of_apart hl (ok.apart b hb a ha hne) rfl

theorem Ok.put (hh' : Holds h' bs' l)
    (hlive : live'.Perm (l ++ (s.list.erase a).flatMap part)) :
    Ok (s.put h') live' (update part a l) := by
  have haddr : h'.addr = a := hl.frame.addr
  refine ⟨ok.system, ok.nodup, fun b hb => ?_, fun b hb c hc hne => ?_,
    hlive.trans (flatMap_update ok.nodup ha).symm⟩
  · by_cases hba : b = a
    · subst hba
      rw [Memheaps.memheap_put_self haddr, update_self]
      exact ⟨bs', hh'⟩
    · obtain ⟨cs, hh⟩ := ok.heaps b hb
      rw [update_of_ne hba]
      exact ⟨cs, ok.holds_other ha hl hb hba hh⟩
  · have hb' := sameFrame_put hl.frame b
    have hc' := sameFrame_put hl.frame c
    obtain ⟨hheaders, hleft, hright, hregions⟩ := ok.apart b hb c hc hne
    constructor <;>
      simp only [hb'.startAddr, hb'.poolSize, hb'.freeList, hc'.startAddr, hc'.poolSize,
        hc'.freeList] <;> assumption

theorem Ok.kept_other (hb : b ∈ s.list) (hne : b ≠ a) (hq : q ∈ part b) : s.Kept (s.put h') q := by
  obtain ⟨bs, hh⟩ := ok.heaps b hb
  obtain ⟨x, n, ho⟩ := hh.exists_owns hq
  have hh' := ok.holds_other ha hl hb hne hh
  have haddr : h'.addr = a := hl.frame.addr
  have ho' : Owns ((s.put h').memheap b) bs q x n := by
    rw [Memheaps.memheap_put_of_ne (haddr ▸ hne)]
    exact ⟨ho.run, ho.before, ho.offset⟩
  refine kept_of_owns hh hh' ho ho' fun y hle hlt => ?_
  have hoffset := ho.offset
  have hlen := ho.len_ge hh
  exact ho.ram_of_apart hh hl (ok.apart b hb a ha hne) rfl hle (by omega)

end

/-- **A block is allocated** in one heap. -/
theorem Ok.alloc (ok : Ok s live part) (hs : s.rtMemheapAlloc fuel a size = some (s', p)) :
    p = 0 ∧ s' = s ∨ p ≠ 0 ∧ (∃ part', Ok s' (p :: live) part') ∧ (∀ q ∈ live, s.Kept s' q) ∧
      (memheapAlign size).toNat ≤ (s'.size p).toNat := by
  unfold Memheaps.rtMemheapAlloc at hs
  rw [ite_none_right_eq_some] at hs
  obtain ⟨ha, hs⟩ := hs
  obtain ⟨⟨h', p'⟩, hs', heq⟩ := map_eq_some_iff.1 hs
  obtain ⟨rfl, rfl⟩ := Prod.mk.inj heq
  obtain ⟨bs, hh⟩ := ok.heaps a ha
  rcases hh.alloc hs' with ⟨rfl, rfl⟩ | ⟨bs', x, m, hh', hw, hoffset, hm, hruns⟩
  · exact .inl ⟨rfl, Memheaps.put_memheap s a⟩
  · have hl := hw.local hh hh'
    have hne := hh'.pointers.ne_zero hh'.inv mem_cons_self
    have haddr : h'.addr = a := hl.frame.addr
    refine .inr ⟨hne, ⟨_, ok.put ha hl hh' ((ok.live_perm ha).cons p')⟩, fun q hq => ?_, ?_⟩
    · obtain ⟨b, hb, -, hqb, -⟩ := ok.owner hq
      by_cases hba : b = a
      · subst hba
        obtain ⟨y, n, ho⟩ := hh.exists_owns hqb
        have hrun := hruns.2 (.inl ho.run)
        exact kept_same hl hh hh' ho hrun fun z hle hlt =>
          hw.contents hh hh' ho.run hrun hle (by omega)
      · exact ok.kept_other ha hl hb hba hqb
    · have hown : Owns h' bs' p' x m := by
        obtain ⟨y, j, ho⟩ := hh'.exists_owns (mem_cons_self (a := p') (l := part a))
        have hyx := ho.offset
        rw [hl.frame.startAddr] at hyx
        obtain rfl : y = x := by omega
        exact ⟨hruns.2 (.inr ⟨rfl, rfl⟩), ho.before, ho.offset⟩
      have hsize : (s.put h').size p' = h'.memitemSize (p' - memheapSize) := rfl
      rw [hsize, (hown.header hh').1]
      omega

/-- **A block is given back.** -/
theorem Ok.free (ok : Ok s live part) (hp : ptr ∈ live) :
    ∃ s', s.rtMemheapFree ptr = some s' ∧ (∃ part', Ok s' (live.erase ptr) part') ∧
      ∀ q ∈ live, q ≠ ptr → s.Kept s' q := by
  obtain ⟨a, ha, hpool, hpa, bs, x, n, hh, ho⟩ := ok.owner hp
  obtain ⟨h', bs', hs, hh', hw, hruns⟩ := hh.free ho
  have hl := hw.local hh hh'
  have hlive : (live.erase ptr).Perm ((part a).erase ptr ++ (s.list.erase a).flatMap part) := by
    have herase := (ok.live_perm ha).erase ptr
    rwa [erase_append_left _ hpa] at herase
  refine ⟨s.put h', ?_, ⟨_, ok.put ha hl hh' hlive⟩, fun q hq hne => ?_⟩
  · rw [Memheaps.rtMemheapFree, if_neg (ok.ne_zero hp), hpool, if_pos ha, hs]
    rfl
  · obtain ⟨b, hb, -, hqb, -⟩ := ok.owner hq
    by_cases hba : b = a
    · subst hba
      obtain ⟨y, k, ho'⟩ := hh.exists_owns hqb
      have hrun := hruns.2 ⟨ho'.run, ho'.ne ho hne⟩
      exact kept_same hl hh hh' ho' hrun fun z hle hlt =>
        hw.contents hh hh' ho'.run hrun hle (by omega)
    · exact ok.kept_other ha hl hb hba hqb

/-- **The end of a block is moved**; it keeps the contents that it has place for. -/
theorem Ok.resize (ok : Ok s live part) (ha : a ∈ s.list)
    (hh : Holds (s.memheap a) bs (part a)) (ho : Owns (s.memheap a) bs ptr x n)
    (hh' : Holds h' bs' (part a)) (hr : Resized (s.memheap a) h' bs bs' x (k + 24)) :
    (∃ part', Ok (s.put h') live part') ∧ (∀ q ∈ live, q ≠ ptr → s.Kept (s.put h') q) ∧
      ((s.put h').size ptr).toNat = k ∧
      ∀ i < min (s.size ptr).toNat k, (s.put h').ram (ptr.toNat + i) = s.ram (ptr.toNat + i) := by
  have hw := Resized.within hr
  have hl := hw.local hh hh'
  have hlen := ho.len_ge hh
  have hoffset := ho.offset
  have hrun : (x, k + 24) ∈ usedRuns 0 bs' := hr.runs.2 (.inl ⟨rfl, rfl⟩)
  refine ⟨⟨_, ok.put ha hl hh' (ok.live_perm ha)⟩, fun q hq hne => ?_, ?_, fun i hi => ?_⟩
  · obtain ⟨b, hb, -, hqb, -⟩ := ok.owner hq
    by_cases hba : b = a
    · subst hba
      obtain ⟨y, j, ho'⟩ := hh.exists_owns hqb
      have hrun' := hr.runs.2 (.inr ⟨ho'.run, ho'.ne ho hne⟩)
      exact kept_same hl hh hh' ho' hrun' fun z hle hlt =>
        hw.contents hh hh' ho'.run hrun' hle (by omega)
    · exact ok.kept_other ha hl hb hba hqb
  · have htotal := total_congr hh.inv hh'.inv hl.frame
    have hown : Owns h' bs' ptr x (k + 24) :=
      ⟨hrun, by rw [htotal]; exact ho.before, by rw [hl.frame.startAddr, hoffset]⟩
    exact (hown.header hh').1
  · have hsize : (s.size ptr).toNat = n - 24 := (ho.header hh).1
    exact hw.contents hh hh' ho.run hrun (by omega) (by omega)

/-- Something is **written into a block**. -/
theorem Ok.write (ok : Ok s live part) (hp : p ∈ live) {ram : ℕ → UInt8}
    (hram : ∀ y, y < p.toNat ∨ p.toNat + (s.size p).toNat ≤ y → ram y = s.ram y) :
    Ok { s with ram := ram } live part ∧ s.size p = ({ s with ram := ram } : Memheaps).size p ∧
      ∀ q ∈ live, q ≠ p → s.Kept { s with ram := ram } q := by
  obtain ⟨a, ha, -, hpa, bs, x, n, hh, ho⟩ := ok.owner hp
  have hsize : (s.size p).toNat = n - 24 := (ho.header hh).1
  have hlen := ho.len_ge hh
  have hend := ho.end_le hh
  have hoffset := ho.offset
  have hout : ∀ y, y < (s.memheap a).startAddr.toNat + x + 24 ∨
      (s.memheap a).startAddr.toNat + x + n ≤ y → ram y = (s.memheap a).ram y :=
    fun y hy => hram y (by omega)
  obtain ⟨h', hh'⟩ : ∃ h' : Memheap, h' = { s.memheap a with ram := ram } := ⟨_, rfl⟩
  have hholds : Holds h' bs (part a) := hh' ▸ hh.writeRun ho.run hout
  have hl : Local (s.memheap a) h' := by
    rw [hh']
    exact ⟨⟨rfl, rfl, rfl, rfl⟩, fun y hr _ => hout y (by omega)⟩
  have hput : s.put h' = { s with ram := ram } := by rw [hh', Memheaps.put_ram]
  have hpart : update part a (part a) = part := update_eq_self _ _
  have hok := ok.put ha hl hholds (ok.live_perm ha)
  rw [hput, hpart] at hok
  refine ⟨hok, ?_, fun q hq hne => ?_⟩
  · have hown : Owns h' bs p x n := hh' ▸ ⟨ho.run, ho.before, ho.offset⟩
    have hsize' : (h'.memitemSize (p - memheapSize)).toNat = n - 24 := (hown.header hholds).1
    rw [hh'] at hsize'
    exact UInt32.toNat_inj.1 (hsize.trans hsize'.symm)
  · obtain ⟨b, hb, -, hqb, -⟩ := ok.owner hq
    rw [← hput]
    by_cases hba : b = a
    · subst hba
      obtain ⟨y, k, ho'⟩ := hh.exists_owns hqb
      have hapart := usedRuns_disjoint ho'.run ho.run (ho'.ne ho hne)
      refine kept_same hl hh hholds ho' ho'.run fun z hle hlt => ?_
      rw [hh']
      exact hout z (by omega)
    · exact ok.kept_other ha hl hb hba hqb

/-- What a call leaves that has allocated a block. -/
structure Added (s s' : Memheaps) (live : List UInt32) (p size : UInt32) : Prop where
  ok : ∃ part', Ok s' (p :: live) part'
  kept : ∀ q ∈ live, s.Kept s' q
  room : (memheapAlign size).toNat ≤ (s'.size p).toNat

theorem Ok.nodup_live (ok : Ok s live part) : live.Nodup := by
  refine ok.live.nodup_iff.2 (nodup_flatMap.2 ⟨fun a ha => ?_, ?_⟩)
  · obtain ⟨bs, hh⟩ := ok.heaps a ha
    exact hh.pointers.nodup
  · -- the item of a block tells its heap
    have hpool : ∀ a ∈ s.list, ∀ p ∈ part a, s.pool p = a := by
      intro a ha p hp
      obtain ⟨bs, hh⟩ := ok.heaps a ha
      obtain ⟨x, n, ho⟩ := hh.exists_owns hp
      exact (ho.header hh).2.2
    refine ok.nodup.imp_of_mem fun {a b} ha hb hne p hpa hpb => hne ?_
    rw [← hpool a ha p hpa, hpool b hb p hpb]

theorem Ok.perm (ok : Ok s live part) (hperm : live.Perm live') : Ok s live' part :=
  ⟨ok.system, ok.nodup, ok.heaps, ok.apart, hperm.symm.trans ok.live⟩

theorem Ok.alloc_total (ok : Ok s live part) (ha : a ∈ s.list) (size : UInt32)
    (hfuel : 2 ^ 32 ≤ fuel) : ∃ r, s.rtMemheapAlloc fuel a size = some r := by
  obtain ⟨bs, hh⟩ := ok.heaps a ha
  have hpool := (s.memheap a).poolSize.toNat_lt
  have hsome : ((s.memheap a).rtMemheapAlloc fuel size).isSome :=
    hh.inv.isSome_rtMemheapAlloc size (by omega)
  obtain ⟨r, hr⟩ := isSome_iff_exists.1 hsome
  rw [Memheaps.rtMemheapAlloc, if_pos ha, hr]
  exact ⟨_, rfl⟩

/-- The loop of `rt_malloc` adds a block, or goes through all heaps. -/
theorem Ok.mallocOthers {as : List UInt32} (ok : Ok s live part)
    (hs : s.mallocOthers fuel size as = some (s', p)) :
    p = 0 ∧ s' = s ∨ p ≠ 0 ∧ Added s s' live p size := by
  induction as with
  | nil =>
    cases hs
    exact .inl ⟨rfl, rfl⟩
  | cons a as ih =>
    rw [Memheaps.mallocOthers] at hs
    split at hs
    case isTrue => exact ih hs
    case isFalse =>
      obtain ⟨⟨t, p'⟩, ht, hrest⟩ := bind_eq_some_iff.1 hs
      dsimp only at hrest
      rcases ok.alloc ht with ⟨rfl, rfl⟩ | ⟨hne, hok, hkept, hroom⟩
      · -- the heap has not changed
        rw [if_neg (not_not.2 rfl)] at hrest
        exact ih hrest
      · rw [if_pos hne] at hrest
        cases hrest
        exact .inr ⟨hne, hok, hkept, hroom⟩

theorem Ok.mallocOthers_total {as : List UInt32} (ok : Ok s live part)
    (has : ∀ a ∈ as, a ∈ s.list) (hfuel : 2 ^ 32 ≤ fuel) :
    ∃ r, s.mallocOthers fuel size as = some r := by
  induction as with
  | nil => exact ⟨_, rfl⟩
  | cons a as ih =>
    have hrest := ih fun b hb => has b (mem_cons_of_mem a hb)
    rw [Memheaps.mallocOthers]
    split
    case isTrue => exact hrest
    case isFalse =>
      obtain ⟨⟨t, p'⟩, ht⟩ := ok.alloc_total (has a mem_cons_self) size hfuel
      rw [ht, bind_some]
      dsimp only
      rcases ok.alloc ht with ⟨rfl, rfl⟩ | ⟨hne, -⟩
      · rw [if_neg (not_not.2 rfl)]
        exact hrest
      · rw [if_pos hne]
        exact ⟨_, rfl⟩

/-- **`rt_malloc`** adds a block, or returns `RT_NULL`. -/
theorem Ok.rtMalloc (ok : Ok s live part) (hs : s.rtMalloc fuel size = some (s', p)) :
    p = 0 ∧ s' = s ∨ p ≠ 0 ∧ Added s s' live p size := by
  obtain ⟨⟨t, p'⟩, ht, hrest⟩ := bind_eq_some_iff.1 hs
  dsimp only at hrest
  rcases ok.alloc ht with ⟨rfl, rfl⟩ | ⟨hne, hok, hkept, hroom⟩
  · rw [if_pos rfl] at hrest
    exact ok.mallocOthers hrest
  · rw [if_neg hne] at hrest
    cases hrest
    exact .inr ⟨hne, hok, hkept, hroom⟩

theorem Ok.rtMalloc_total (ok : Ok s live part) (size : UInt32) (hfuel : 2 ^ 32 ≤ fuel) :
    ∃ r, s.rtMalloc fuel size = some r := by
  obtain ⟨⟨t, p'⟩, ht⟩ := ok.alloc_total ok.system size hfuel
  rw [Memheaps.rtMalloc, ht, bind_some]
  dsimp only
  rcases ok.alloc ht with ⟨rfl, rfl⟩ | ⟨hne, -⟩
  · rw [if_pos rfl]
    exact ok.mallocOthers_total (fun _ hb => hb) hfuel
  · rw [if_neg hne]
    exact ⟨_, rfl⟩

/-- **`rt_memheap_init`** adds a heap, which is `_heap` if there is no other one. -/
theorem ok_init {addr freeHeader startAddr : UInt32} (ok : s.heap = addr ∧ s.list = [] ∧ live = [] ∨
      Ok s live part) (hfresh : Fresh s addr freeHeader startAddr size) :
    ∃ part', Ok (s.rtMemheapInit addr freeHeader startAddr size) live part' := by
  have hsystem : s.heap ∈ addr :: s.list := by
    rcases ok with ⟨heq, -⟩ | ok
    · exact mem_cons.2 (.inl heq)
    · exact mem_cons_of_mem _ ok.system
  have hnodup : s.list.Nodup := by
    rcases ok with ⟨-, hnil, -⟩ | ok
    · rw [hnil]
      exact nodup_nil
    · exact ok.nodup
  have hheaps : ∀ a ∈ s.list, ∃ bs, Holds (s.memheap a) bs (part a) := by
    rcases ok with ⟨-, hnil, -⟩ | ok
    · simp [hnil]
    · exact ok.heaps
  have hdistinct : ∀ a ∈ s.list, ∀ b ∈ s.list, a ≠ b → (s.memheap a).Apart (s.memheap b) := by
    rcases ok with ⟨-, hnil, -⟩ | ok
    · simp [hnil]
    · exact ok.apart
  have hlives : live.Perm (s.list.flatMap part) := by
    rcases ok with ⟨-, hnil, rfl⟩ | ok
    · simp [hnil]
    · exact ok.live
  obtain ⟨hnot, hregion, hapart⟩ := hfresh
  obtain ⟨h, hh⟩ : ∃ h, h = Memheap.rtMemheapInit s.ram addr freeHeader startAddr size := ⟨_, rfl⟩
  have hfields : h.addr = addr ∧ h.startAddr = startAddr ∧ h.poolSize = rtAlignDown size ∧
      h.freeList = freeHeader := by
    rw [hh]
    exact ⟨rfl, rfl, rfl, rfl⟩
  obtain ⟨haddr, hstart, hsize, hlist⟩ := hfields
  rw [← hh] at hapart
  have hinit : s.rtMemheapInit addr freeHeader startAddr size =
      { s.put h with list := addr :: s.list } := by rw [Memheaps.rtMemheapInit, hh]
  obtain ⟨bs, hinv, hlive, -⟩ := right_init hregion hh
  have hholds : Holds h bs [] := by
    refine ⟨hinv, hlive, fun {x n} hx hlt => ?_⟩
    have hoff : x ∈ offsets true 0 bs := by
      rw [offsets_true_eq]
      exact List.mem_map.2 ⟨_, hx, rfl⟩
    exact absurd ((hlive.mem _).2 ⟨x, hoff, hlt, rfl⟩) not_mem_nil
  have hself : ({ s.put h with list := addr :: s.list } : Memheaps).memheap addr = h :=
    Memheaps.memheap_put_self haddr
  have hother : ∀ b ∈ s.list, ({ s.put h with list := addr :: s.list } : Memheaps).memheap b =
      { s.memheap b with ram := h.ram } := by
    intro b hb
    refine Memheaps.memheap_put_of_ne ?_
    rintro rfl
    exact hnot (haddr ▸ hb)
  -- the other heaps are not written
  have hkeep : ∀ b ∈ s.list, ∀ {cs l}, Holds (s.memheap b) cs l →
      Holds { s.memheap b with ram := h.ram } cs l := by
    intro b hb cs l hb'
    obtain ⟨hheaders, hleft, hright, hregions⟩ := hapart b hb
    rw [hstart, hsize, hlist] at *
    refine hb'.congr_ram ⟨rfl, rfl, rfl, rfl⟩ rfl fun y hy => ?_
    exact ram_init hregion hh (by omega) (by omega)
  have hne : ∀ b ∈ s.list, b ≠ addr := fun b hb heq => hnot (heq ▸ hb)
  rw [hinit]
  refine ⟨update part addr [], hsystem, nodup_cons.2 ⟨hnot, hnodup⟩, fun b hb => ?_,
    fun b hb c hc hbc => ?_, ?_⟩
  · rcases mem_cons.1 hb with rfl | hb
    · rw [hself, update_self]
      exact ⟨bs, hholds⟩
    · obtain ⟨cs, hb'⟩ := hheaps b hb
      rw [hother b hb, update_of_ne (hne b hb)]
      exact ⟨cs, hkeep b hb hb'⟩
  · rcases mem_cons.1 hb with hba | hb' <;> rcases mem_cons.1 hc with hca | hc'
    · exact absurd (hba.trans hca.symm) hbc
    · rw [hba, hself, hother c hc']
      obtain ⟨h₁, h₂, h₃, h₄⟩ := hapart c hc'
      exact ⟨h₁, h₂, h₃, h₄⟩
    · rw [hca, hself, hother b hb']
      obtain ⟨h₁, h₂, h₃, h₄⟩ := hapart b hb'
      exact ⟨h₁.symm, h₃, h₂, h₄.symm⟩
    · rw [hother b hb', hother c hc']
      obtain ⟨h₁, h₂, h₃, h₄⟩ := hdistinct b hb' c hc' hbc
      exact ⟨h₁, h₂, h₃, h₄⟩
  · refine hlives.trans (.of_eq ?_)
    rw [flatMap_cons, update_self, nil_append]
    exact flatMap_congr fun b hb => (update_of_ne (hne b hb) _ _).symm

/-! ### `rt_memheap_realloc` and `rt_realloc` -/

/-- What a call leaves that has returned the pointer `p` for `ptr`, with place for `k` bytes. -/
structure Reallocated (s s' : Memheaps) (live : List UInt32) (ptr p : UInt32) (k : ℕ) : Prop where
  ok : ∃ part', Ok s' (p :: live.erase ptr) part'
  kept : ∀ q ∈ live, q ≠ ptr → s.Kept s' q
  room : k ≤ (s'.size p).toNat
  contents : ∀ i < min (s.size ptr).toNat k, s'.ram (p.toNat + i) = s.ram (ptr.toNat + i)

theorem rtMemheapFree_eq (hnull : ptr ≠ 0) (hpool : s.pool ptr = a) (ha : a ∈ s.list) :
    s.rtMemheapFree ptr = ((s.memheap a).rtMemheapFree ptr).map s.put := by
  rw [Memheaps.rtMemheapFree, if_neg hnull, hpool, if_pos ha]

/-- The bytes are copied into a new block, and the old one is **given back**. -/
theorem move (hp : ptr ∈ live) {s₁ : Memheaps}
    (hadd : Added s s₁ live p size) (hcount : k ≤ (memheapAlign size).toNat) :
    ∃ s', ({ s₁ with ram := copy s₁.ram p.toNat ptr.toNat k } : Memheaps).rtMemheapFree ptr =
        some s' ∧
      ({ s₁ with ram := copy s₁.ram p.toNat ptr.toNat k } : Memheaps).pool ptr = s.pool ptr ∧
      (∃ part', Ok s' (p :: live.erase ptr) part') ∧ (∀ q ∈ live, q ≠ ptr → s.Kept s' q) ∧
      (memheapAlign size).toNat ≤ (s'.size p).toNat ∧
      ∀ i < min (s.size ptr).toNat k, s'.ram (p.toNat + i) = s.ram (ptr.toNat + i) := by
  obtain ⟨⟨part₁, ok₁⟩, hkept, hroom⟩ := hadd
  have hnot := (nodup_cons.1 ok₁.nodup_live).1
  have hne : ∀ {q}, q ∈ live → q ≠ p := fun hq heq => hnot (heq ▸ hq)
  obtain ⟨s₂, hs₂⟩ : ∃ s₂ : Memheaps, s₂ = { s₁ with ram := copy s₁.ram p.toNat ptr.toNat k } :=
    ⟨_, rfl⟩
  have hout : ∀ y, y < p.toNat ∨ p.toNat + (s₁.size p).toNat ≤ y →
      copy s₁.ram p.toNat ptr.toNat k y = s₁.ram y := fun y hy => copy_of_outside (by omega)
  have hwrite := ok₁.write mem_cons_self hout
  rw [← hs₂] at hwrite ⊢
  obtain ⟨ok₂, hsize, hkept₂⟩ := hwrite
  obtain ⟨s', hs', ok', hkept'⟩ := ok₂.free (mem_cons_of_mem p hp)
  rw [erase_cons_tail (by simpa using (hne hp).symm)] at ok'
  have hptr := hkept₂ ptr (mem_cons_of_mem p hp) (hne hp)
  have hnew := hkept' p mem_cons_self (hne hp).symm
  have hptr' := (hkept ptr hp).trans hptr
  refine ⟨s', hs', hptr'.pool, ok', fun q hq hqptr => ?_, ?_, fun i hi => ?_⟩
  · exact ((hkept q hq).trans (hkept₂ q (mem_cons_of_mem p hq) (hne hq))).trans
      (hkept' q (mem_cons_of_mem p hq) hqptr)
  · rw [hnew.size, ← hsize]
    exact hroom
  · -- the bytes have been copied from the old block
    have hread : s₂.ram (p.toNat + i) = s₁.ram (ptr.toNat + i) := by
      rw [hs₂]
      dsimp only
      rw [copy, if_pos (by omega), Nat.add_sub_cancel_left]
    rw [hnew.contents i (by rw [← hsize]; omega), hread]
    exact (hkept ptr hp).contents i (by omega)

/-- **`rt_memheap_realloc`** leaves the heaps as they are, or returns a block with the contents. -/
theorem Ok.rtMemheapRealloc (ok : Ok s live part) (hp : ptr ∈ live) (hsize : newsize ≠ 0)
    (hfits : GrowFits s ptr newsize)
    (hs : s.rtMemheapRealloc fuel (s.pool ptr) ptr newsize = some (s', p)) :
    p = 0 ∧ s' = s ∧ s.size ptr < memheapAlign newsize ∨
      p ≠ 0 ∧ Reallocated s s' live ptr p (memheapAlign newsize).toNat := by
  obtain ⟨a, ha, hpool, hpa, bs, x, n, hh, ho⟩ := ok.owner hp
  have hnull := ok.ne_zero hp
  rw [hpool, Memheaps.rtMemheapRealloc, if_pos ha] at hs
  obtain ⟨⟨h', p'⟩, hs', heq⟩ := map_eq_some_iff.1 hs
  obtain ⟨rfl, rfl⟩ := Prod.mk.inj heq
  have hself : ∀ {t k}, (∃ part', Ok t live part') → (∀ q ∈ live, q ≠ ptr → s.Kept t q) →
      k ≤ (t.size ptr).toNat →
      (∀ i < min (s.size ptr).toNat k, t.ram (ptr.toNat + i) = s.ram (ptr.toNat + i)) →
      Reallocated s t live ptr ptr k := fun ⟨part', ok'⟩ hkept hroom hcontents =>
    ⟨⟨part', ok'.perm (perm_cons_erase hp)⟩, hkept, hroom, hcontents⟩
  rcases realloc_cases hnull hsize rfl rfl hs' with ⟨rfl, rfl, hle⟩ | ⟨rfl, rfl, hgt, hfree, hlt⟩ |
    ⟨rfl, rfl, hle, hlt⟩ | ⟨rfl, hlt, halloc⟩ | ⟨hne, hlt, h₁, halloc, hback⟩
  · -- the block stays as it is
    rw [Memheaps.put_memheap]
    exact .inr ⟨hnull, hself ⟨part, ok⟩ (fun q hq _ => ok.kept_self hq)
      (UInt32.le_iff_toNat_le.1 hle) fun _ _ => rfl⟩
  · obtain ⟨bs', hh', hr⟩ := hh.grow ho rfl hgt hfree hlt (hfits hnull hfree)
    obtain ⟨hok, hkept, hroom, hcontents⟩ := ok.resize ha hh ho hh' hr
    exact .inr ⟨hnull, hself hok hkept hroom.ge hcontents⟩
  · obtain ⟨bs', hh', hr⟩ := hh.shrink ho rfl hle hlt
    obtain ⟨hok, hkept, hroom, hcontents⟩ := ok.resize ha hh ho hh' hr
    exact .inr ⟨hnull, hself hok hkept hroom.ge hcontents⟩
  · rcases hh.alloc halloc with ⟨-, rfl⟩ | ⟨bs', y, m, hh', -⟩
    · exact .inl ⟨rfl, Memheaps.put_memheap s a, hlt⟩
    · exact absurd rfl (hh'.pointers.ne_zero hh'.inv mem_cons_self)
  · -- the block is moved
    have hs₁ : s.rtMemheapAlloc fuel a (memheapAlign newsize) = some (s.put h₁, p') := by
      rw [Memheaps.rtMemheapAlloc, if_pos ha, halloc]
      rfl
    rcases ok.alloc hs₁ with ⟨heq, -⟩ | ⟨-, hok, hkept, hroom⟩
    · exact absurd heq hne
    · have hlt' := UInt32.lt_iff_toNat_lt.1 hlt
      have hcount : (s.size ptr).toNat ≤ (memheapAlign (memheapAlign newsize)).toNat := by
        rw [memheapAlign_align]
        exact hlt'.le
      obtain ⟨t, ht, hpool', hok', hkept', hroom', hcontents⟩ :=
        move hp ⟨hok, hkept, hroom⟩ hcount
      rw [memheapAlign_align] at hroom'
      -- the sections are those of `rt_memheap_realloc`
      have haddr₁ : h₁.addr = a := by
        rcases hh.alloc halloc with ⟨heq, -⟩ | ⟨bs', y, m, -, hw, -⟩
        · exact absurd heq hne
        · exact hw.frame.addr
      obtain ⟨h₂, hh₂⟩ : ∃ h₂ : Memheap, h₂ =
        { h₁ with ram := copy h₁.ram p'.toNat ptr.toNat (s.size ptr).toNat } := ⟨_, rfl⟩
      have hput : ({ s.put h₁ with
          ram := copy (s.put h₁).ram p'.toNat ptr.toNat (s.size ptr).toNat } : Memheaps) =
          s.put h₂ := by
        rw [hh₂]
        rfl
      have haddr₂ : h₂.addr = a := by rw [hh₂, haddr₁]
      have hback₂ : h₂.rtMemheapFree ptr = some h' := hh₂ ▸ hback
      have heq : t = s.put h' := by
        rw [hput] at ht hpool'
        rw [rtMemheapFree_eq hnull (hpool'.trans hpool) ha, Memheaps.memheap_put_self haddr₂,
          hback₂] at ht
        cases ht
        exact Memheaps.put_put (addr_rtMemheapFree hback₂)
      subst heq
      refine .inr ⟨hne, hok', hkept', hroom', fun i hi => hcontents i (by omega)⟩

theorem Reallocated.mono {k' : ℕ} (hr : Reallocated s s' live ptr p k) (hle : k' ≤ k) :
    Reallocated s s' live ptr p k' :=
  ⟨hr.ok, hr.kept, hle.trans hr.room, fun i hi => hr.contents i (by omega)⟩

/-- **`rt_realloc`** leaves the heaps as they are, or returns a block with the contents. -/
theorem Ok.rtRealloc (ok : Ok s live part) (hp : ptr ∈ live) (hsize : newsize ≠ 0)
    (hfits : GrowFits s ptr newsize) (hs : s.rtRealloc fuel ptr newsize = some (s', p)) :
    p = 0 ∧ s' = s ∨
      p ≠ 0 ∧ Reallocated s s' live ptr p (min newsize.toNat (memheapAlign newsize).toNat) := by
  have hnull := ok.ne_zero hp
  rw [Memheaps.rtRealloc, if_neg hnull, if_neg hsize] at hs
  obtain ⟨⟨s₁, new⟩, hs₁, hnext⟩ := bind_eq_some_iff.1 hs
  dsimp only at hnext
  rcases ok.rtMemheapRealloc hp hsize hfits hs₁ with ⟨rfl, rfl, hlt⟩ | ⟨hne, hr⟩
  · -- the heap of the block has no place: another one
    rw [if_pos ⟨rfl, hsize⟩] at hnext
    obtain ⟨⟨s₂, new⟩, hs₂, hrest⟩ := bind_eq_some_iff.1 hnext
    dsimp only at hrest
    rcases ok.rtMalloc hs₂ with ⟨rfl, rfl⟩ | ⟨hne, hadd⟩
    · rw [if_neg fun hc => hc.1 rfl] at hrest
      cases hrest
      exact .inl ⟨rfl, rfl⟩
    · rw [if_pos ⟨hne, hnull⟩] at hrest
      obtain ⟨t, ht, heq⟩ := map_eq_some_iff.1 hrest
      obtain ⟨rfl, rfl⟩ := Prod.mk.inj heq
      have hold := (hadd.kept ptr hp).size
      rw [hold] at ht
      rw [UInt32.lt_iff_toNat_lt] at hlt
      have hcount : (if newsize > s₁.size ptr then s₁.size ptr else newsize).toNat =
          min (s₁.size ptr).toNat newsize.toNat := by
        split
        case isTrue hgt =>
          have hgt := UInt32.lt_iff_toNat_lt.1 hgt
          omega
        case isFalse hle =>
          have hle := UInt32.le_iff_toNat_le.1 (UInt32.not_lt.1 hle)
          omega
      rw [hcount] at ht
      obtain ⟨t', ht', -, hok, hkept, hroom, hcontents⟩ := move hp hadd
        (k := min (s₁.size ptr).toNat newsize.toNat) (by omega)
      obtain rfl : t' = t := some_inj.1 (ht'.symm.trans ht)
      exact .inr ⟨hne, hok, hkept, by omega, fun i hi => hcontents i (by omega)⟩
  · rw [if_neg fun hc => hne hc.1] at hnext
    cases hnext
    exact .inr ⟨hne, hr.mono (Nat.min_le_right _ _)⟩

theorem Ok.rtCalloc {count : UInt32} (ok : Ok s live part)
    (hfits : (count * size).toNat + 3 < 2 ^ 32)
    (hs : s.rtCalloc fuel count size = some (s', p)) :
    p = 0 ∧ s' = s ∨ p ≠ 0 ∧ ∃ part', Ok s' (p :: live) part' := by
  obtain ⟨⟨t, p'⟩, ht, hrest⟩ := map_eq_some_iff.1 hs
  dsimp only at hrest
  rcases ok.rtMalloc ht with ⟨rfl, rfl⟩ | ⟨hne, ⟨part₁, ok₁⟩, -, hroom⟩
  · rw [if_neg (not_not.2 rfl)] at hrest
    cases hrest
    exact .inl ⟨rfl, rfl⟩
  · rw [if_pos hne] at hrest
    cases hrest
    have halign := le_memheapAlign hfits
    exact .inr ⟨hne, part₁, (ok₁.write mem_cons_self fun y hy =>
      fill_of_outside (by omega)).1⟩

/-! ### The runs -/

theorem handOut_of_ok (hr : p = 0 ∧ s' = s ∨ p ≠ 0 ∧ ∃ part', Ok s' (p :: live) part')
    (ok : Ok s live part) : ∃ part', Ok s' (handOut p live) part' := by
  rcases hr with ⟨rfl, rfl⟩ | ⟨hne, hok⟩
  · exact ⟨part, ok⟩
  · rw [handOut, if_neg hne]
    exact hok

theorem Ok.free_zero_or (ok : Ok s live part) (hp : ptr = 0 ∨ ptr ∈ live)
    (hs : s.rtMemheapFree ptr = some s') : ∃ part', Ok s' (live.erase ptr) part' := by
  rcases hp with rfl | hp
  · rw [Memheaps.rtMemheapFree, if_pos rfl] at hs
    cases hs
    rw [erase_of_not_mem fun hmem => ok.ne_zero hmem rfl]
    exact ⟨part, ok⟩
  · obtain ⟨t, ht, hok, -⟩ := ok.free hp
    obtain rfl : t = s' := some_inj.1 (ht.symm.trans hs)
    exact hok

theorem handOver_of_ok (ok : Ok s live part) (hsize : newsize ≠ 0)
    (hr : p = 0 ∧ s' = s ∨ p ≠ 0 ∧ ∃ k, Reallocated s s' live ptr p k) :
    ∃ part', Ok s' (handOver ptr newsize p live) part' := by
  rw [handOver, if_neg hsize]
  rcases hr with ⟨rfl, rfl⟩ | ⟨hne, k, hr⟩
  · exact ⟨part, ok⟩
  · rw [if_neg hne]
    exact hr.ok

theorem ok_step {r r' : MemheapsRun} {act : MemheapsAction} {out : List UInt32}
    (ok : Ok r.sys r.live part) (hc : r.Fits act) (hs : r.step fuel act = some (r', out)) :
    ∃ part', Ok r'.sys r'.live part' := by
  have hzero : (0 : UInt32) ∉ r.live := fun hmem => ok.ne_zero hmem rfl
  cases act with
  | init addr freeHeader startAddr size =>
    simp only [step, ite_none_right_eq_some, some.injEq, Prod.mk.injEq] at hs
    obtain ⟨hfresh, rfl, -⟩ := hs
    exact ok_init (.inr ok) hfresh
  | memheapAlloc a size =>
    obtain ⟨⟨t, p⟩, ht, heq⟩ := map_eq_some_iff.1 hs
    cases heq
    refine handOut_of_ok ?_ ok
    rcases ok.alloc ht with hnone | ⟨hne, hok, -⟩
    · exact .inl hnone
    · exact .inr ⟨hne, hok⟩
  | memheapRealloc a ptr newsize =>
    simp only [step, ite_none_right_eq_some] at hs
    obtain ⟨hp, hs⟩ := hs
    obtain ⟨⟨t, p⟩, ht, heq⟩ := map_eq_some_iff.1 hs
    cases heq
    by_cases hsize : newsize = 0
    · -- a size of 0 frees the block
      rw [handOver, if_pos hsize]
      refine ok.free_zero_or (hp.imp_right And.left) ?_
      unfold Memheaps.rtMemheapRealloc at ht
      rw [ite_none_right_eq_some] at ht
      obtain ⟨ha, ht⟩ := ht
      obtain ⟨⟨h', p'⟩, hh', heq⟩ := map_eq_some_iff.1 ht
      cases heq
      rw [Memheap.rtMemheapRealloc, if_pos hsize] at hh'
      obtain ⟨h₁, hh₁, heq⟩ := map_eq_some_iff.1 hh'
      cases heq
      by_cases hnull : ptr = 0
      · rw [Memheap.rtMemheapFree, if_pos hnull] at hh₁
        cases hh₁
        rw [Memheaps.rtMemheapFree, if_pos hnull, Memheaps.put_memheap]
      · rw [rtMemheapFree_eq hnull (hp.resolve_left hnull).2 ha, hh₁]
        rfl
    · rcases hp with rfl | ⟨hp, rfl⟩
      · -- no block: a new one
        have hnew : r.sys.rtMemheapAlloc fuel a (memheapAlign newsize) = some (t, p) := by
          unfold Memheaps.rtMemheapRealloc at ht
          rwa [Memheap.rtMemheapRealloc, if_neg hsize] at ht
        rw [handOver, if_neg hsize, erase_of_not_mem hzero]
        refine handOut_of_ok ?_ ok
        rcases ok.alloc hnew with hnone | ⟨hne, hok, -⟩
        · exact .inl hnone
        · exact .inr ⟨hne, hok⟩
      · refine handOver_of_ok ok hsize ?_
        rcases ok.rtMemheapRealloc hp hsize hc ht with ⟨hz, heq, -⟩ | ⟨hne, hr⟩
        · exact .inl ⟨hz, heq⟩
        · exact .inr ⟨hne, _, hr⟩
  | malloc size =>
    obtain ⟨⟨t, p⟩, ht, heq⟩ := map_eq_some_iff.1 hs
    cases heq
    exact handOut_of_ok ((ok.rtMalloc ht).imp_right fun h => ⟨h.1, h.2.ok⟩) ok
  | realloc rmem newsize =>
    simp only [step, ite_none_right_eq_some] at hs
    obtain ⟨hp, hs⟩ := hs
    obtain ⟨⟨t, p⟩, ht, heq⟩ := map_eq_some_iff.1 hs
    cases heq
    by_cases hnull : rmem = 0
    · rw [Memheaps.rtRealloc, if_pos hnull] at ht
      have hout := handOut_of_ok ((ok.rtMalloc ht).imp_right fun h => ⟨h.1, h.2.ok⟩) ok
      rw [if_pos hnull]
      exact hout
    · have hp := hp.resolve_left hnull
      rw [if_neg hnull]
      by_cases hsize : newsize = 0
      · rw [Memheaps.rtRealloc, if_neg hnull, if_pos hsize] at ht
        obtain ⟨t', ht', heq⟩ := map_eq_some_iff.1 ht
        cases heq
        rw [handOver, if_pos hsize]
        exact ok.free_zero_or (.inr hp) ht'
      · exact handOver_of_ok ok hsize ((ok.rtRealloc hp hsize hc ht).imp_right fun h => ⟨h.1, _, h.2⟩)
  | calloc count size =>
    obtain ⟨⟨t, p⟩, ht, heq⟩ := map_eq_some_iff.1 hs
    cases heq
    exact handOut_of_ok (ok.rtCalloc hc ht) ok
  | free rmem =>
    simp only [step, ite_none_right_eq_some] at hs
    obtain ⟨hp, hs⟩ := hs
    obtain ⟨t, ht, heq⟩ := map_eq_some_iff.1 hs
    cases heq
    exact ok.free_zero_or hp ht
  | write a b =>
    simp only [step, ite_none_right_eq_some, some.injEq, Prod.mk.injEq] at hs
    obtain ⟨⟨p, hp, hle, hlt⟩, rfl, -⟩ := hs
    exact ⟨part, (ok.write hp fun y hy => update_of_ne (by omega) _ _).1⟩

end MemheapsRun

end RtThread
