import McCortexM3.Mem.SlabPages
import Mathlib.Data.List.Nodup

/-!
# Zones of the slab heap

Every page of the heap is free, or belongs to one zone, to one large allocation, to the array
`memusage`, or to an operation that is going on; and every chunk of a zone that has been used is on
the list of the zone or is one allocation.

## Main definitions

* `SlabZone.Ok`, `SlabZone.Holds` — the header of a zone, and its chunks.
* `Linked` — the zones with a free chunk are in the lists.
* `HeapInv` — the invariant of the heap, the allocations and the pages on their way.

## Main results

* `HeapInv.take_pages`, `HeapInv.give_pages`, `HeapInv.to_large`, `HeapInv.of_large` — pages move.
* `HeapInv.initZone`, `HeapInv.takeChunk`, `HeapInv.set_zone`, `HeapInv.retire` — zones change.
* `HeapInv.apart`, `HeapInv.inside` — allocations are apart, and in the heap.
-/

set_option linter.all false

namespace RtThread

open Function List Nat

/-! ### The invariant -/

/-- The address of a chunk of a zone. -/
def SlabZone.chunk (h : SlabZone) (i : ℕ) : ℕ := h.baseptr + i * h.chunksize

/-- A zone's free chunks are those that have never been used and those on its list.  The chunks are
of the size for its index, and lie in its pages behind the header. -/
structure SlabZone.Ok (c : SlabConfig) (z : ℕ) (h : SlabZone) : Prop where
  nfree : h.nfree = h.nmax - (h.uindex + 1) + h.freechunk.length
  used : h.uindex < h.nmax
  index : h.chunksize = indexSize h.zoneindex
  pos : 0 < h.chunksize
  lo : z * rtMmPageSize + sizeofSlabZone ≤ h.baseptr
  hi : h.baseptr + h.nmax * h.chunksize ≤ z * rtMmPageSize + c.zoneSize

theorem SlabZone.init_ok {c : SlabConfig} {size zi : ℕ} (hs : c.SizeOk size zi) (z : ℕ) :
    (SlabZone.init c z size zi).Ok c z ∧ 0 < (SlabZone.init c z size zi).nfree := by
  have hpos : 0 < size := Nat.lt_of_lt_of_le (by decide) hs.pos
  have hroom := hs.room
  have hoff := chunkOffset_le hpos
  have hmin : 160 ≤ c.zoneSize := by
    rcases c.zoneSize_cases with h | h | h <;> rw [h] <;> decide
  have htwo : 2 ≤ (c.zoneSize - chunkOffset size) / size :=
    (Nat.le_div_iff_mul_le hpos).2 (by omega)
  have hmul := div_mul_le_self (c.zoneSize - chunkOffset size) size
  refine ⟨⟨rfl, Nat.lt_of_lt_of_le Nat.two_pos htwo, hs.index, hpos, ?_, ?_⟩, ?_⟩
  · exact Nat.add_le_add_left (le_chunkOffset hpos) _
  · unfold SlabZone.init
    dsimp only
    omega
  · unfold SlabZone.init
    dsimp only
    omega

namespace SlabZone

variable {c : SlabConfig} {z : ℕ} {h : SlabZone} {C : List ℕ}

/-- Every chunk that has been used is on the list of the zone or one of `C`. -/
def Holds (h : SlabZone) (C : List ℕ) : Prop :=
  (h.freechunk ++ C).Perm ((List.range (h.uindex + 1)).map h.chunk)

theorem Ok.take_new (hok : h.Ok c z) (hC : h.Holds C) (hnew : h.uindex + 1 ≠ h.nmax) :
    Ok c z { h with nfree := h.nfree - 1, uindex := h.uindex + 1 } ∧
      Holds { h with nfree := h.nfree - 1, uindex := h.uindex + 1 }
        (h.chunk (h.uindex + 1) :: C) := by
  have hnfree := hok.nfree
  have hused := hok.used
  refine ⟨{ hok with nfree := ?_, used := ?_ }, ?_⟩
  · dsimp only
    omega
  · dsimp only
    omega
  · show (h.freechunk ++ h.chunk (h.uindex + 1) :: C).Perm
      ((List.range (h.uindex + 1 + 1)).map h.chunk)
    rw [List.range_succ, map_append]
    exact perm_middle.trans ((hC.cons _).trans (perm_append_singleton _ _).symm)

theorem Ok.take_freed {chunk : ℕ} {l : List ℕ} (hok : h.Ok c z) (hC : h.Holds C)
    (hlist : h.freechunk = chunk :: l) :
    Ok c z { h with nfree := h.nfree - 1, freechunk := l } ∧
      Holds { h with nfree := h.nfree - 1, freechunk := l } (chunk :: C) := by
  have hnfree := hok.nfree
  unfold Holds at hC ⊢
  rw [hlist] at hnfree hC
  rw [length_cons] at hnfree
  refine ⟨{ hok with nfree := ?_ }, perm_middle.trans hC⟩
  dsimp only
  omega

theorem Ok.free {ptr : ℕ} (hok : h.Ok c z) (hC : h.Holds (ptr :: C)) :
    Ok c z { h with freechunk := ptr :: h.freechunk, nfree := h.nfree + 1 } ∧
      Holds { h with freechunk := ptr :: h.freechunk, nfree := h.nfree + 1 } C := by
  have hnfree := hok.nfree
  refine ⟨{ hok with nfree := ?_ }, perm_middle.symm.trans hC⟩
  dsimp only
  rw [length_cons]
  omega

theorem Ok.eq_nil (hok : h.Ok c z) (hC : h.Holds C) (hfree : h.nfree = h.nmax) : C = [] := by
  have hnfree := hok.nfree
  have hused := hok.used
  have hlength := hC.length_eq
  rw [length_append, length_map, length_range] at hlength
  exact length_eq_zero_iff.1 (by omega)

end SlabZone

namespace Allocation

/-- The chunk of the zone `z` that an allocation is, if it is one. -/
def chunkOf (z : ℕ) : Allocation → Option ℕ
  | small z' ptr => if z' = z then some ptr else none
  | large _ _ => none

/-- The pages of a large allocation. -/
def run : Allocation → Option PlaceRun
  | small _ _ => none
  | large page n => some ⟨page, n⟩

end Allocation

/-- The chunks of a zone among the allocations. -/
def chunksOf (z : ℕ) (A : List Allocation) : List ℕ := A.filterMap (Allocation.chunkOf z)

/-- The pages of the large allocations. -/
def largeRuns (A : List Allocation) : List PlaceRun := A.filterMap Allocation.run

/-- The pages of zones. -/
def zoneRuns (c : SlabConfig) (zones : List ℕ) : List PlaceRun :=
  zones.map fun z => ⟨z, c.zonePageCnt⟩

@[simp] theorem chunksOf_small (z ptr : ℕ) (A : List Allocation) :
    chunksOf z (.small z ptr :: A) = ptr :: chunksOf z A :=
  filterMap_cons_some (if_pos rfl)

theorem chunksOf_small_of_ne {z z' : ℕ} (h : z' ≠ z) (ptr : ℕ) (A : List Allocation) :
    chunksOf z (.small z' ptr :: A) = chunksOf z A := filterMap_cons_none (if_neg h)

@[simp] theorem largeRuns_large (page n : ℕ) (A : List Allocation) :
    largeRuns (.large page n :: A) = ⟨page, n⟩ :: largeRuns A := rfl

theorem mem_chunksOf {z ptr : ℕ} {A : List Allocation} : ptr ∈ chunksOf z A ↔ .small z ptr ∈ A := by
  unfold chunksOf
  rw [mem_filterMap]
  constructor
  · rintro ⟨a, ha, hptr⟩
    cases a with
    | small z' ptr' =>
      by_cases hz : z' = z
      · obtain rfl := Option.some.inj ((if_pos hz).symm.trans hptr)
        exact hz ▸ ha
      · exact absurd ((if_neg hz).symm.trans hptr) nofun
    | large page n => cases hptr
  · exact fun h => ⟨_, h, if_pos rfl⟩

theorem chunksOf_perm {A A' : List Allocation} (h : A.Perm A') (z : ℕ) :
    (chunksOf z A).Perm (chunksOf z A') := h.filterMap _

theorem cover_largeRuns {A A' : List Allocation} (h : A.Perm A') (p : ℕ) :
    cover (largeRuns A) p = cover (largeRuns A') p := cover_perm (h.filterMap _) p

theorem mem_largeRuns {page n : ℕ} {A : List Allocation} :
    (⟨page, n⟩ : PlaceRun) ∈ largeRuns A ↔ .large page n ∈ A := by
  unfold largeRuns
  rw [mem_filterMap]
  constructor
  · rintro ⟨a, ha, hrun⟩
    cases a with
    | small z ptr => cases hrun
    | large page' n' =>
      cases hrun
      exact ha
  · exact fun h => ⟨_, h, rfl⟩

theorem mem_zoneRuns {c : SlabConfig} {z : ℕ} {zones : List ℕ} (h : z ∈ zones) :
    (⟨z, c.zonePageCnt⟩ : PlaceRun) ∈ zoneRuns c zones := mem_map_of_mem h

/-- Zones with a free chunk are in the list for their index. -/
structure Linked (zones : List ℕ) (zone : ℕ → SlabZone) (arr : ℕ → List ℕ) : Prop where
  mem_iff : ∀ zi z, z ∈ arr zi ↔ z ∈ zones ∧ (zone z).zoneindex = zi ∧ 0 < (zone z).nfree
  nodup : ∀ zi, (arr zi).Nodup

namespace Linked

variable {zones zones' : List ℕ} {zone : ℕ → SlabZone} {arr : ℕ → List ℕ} {z : ℕ} {hd : SlabZone}

theorem update (hl : Linked zones zone arr) (hzi : hd.zoneindex = (zone z).zoneindex)
    (hfree : 0 < hd.nfree ↔ 0 < (zone z).nfree) :
    Linked zones (Function.update zone z hd) arr := by
  refine ⟨fun zi y => ?_, hl.nodup⟩
  rw [hl.mem_iff]
  rcases eq_or_ne y z with rfl | hy
  · rw [update_self, hzi, hfree]
  · rw [update_of_ne hy]

theorem insert (hl : Linked zones zone arr) (hzones : ∀ y, y ∈ zones' ↔ y = z ∨ y ∈ zones)
    (hnone : ∀ zi, z ∉ arr zi) (hfree : 0 < hd.nfree) :
    Linked zones' (Function.update zone z hd)
      (Function.update arr hd.zoneindex (z :: arr hd.zoneindex)) := by
  refine ⟨fun zi y => ?_, fun zi => ?_⟩
  · have hmem : y ∈ Function.update arr hd.zoneindex (z :: arr hd.zoneindex) zi ↔
        (zi = hd.zoneindex ∧ y = z) ∨ y ∈ arr zi := by
      rcases eq_or_ne zi hd.zoneindex with rfl | hzi
      · rw [update_self, mem_cons, and_iff_right rfl]
      · rw [update_of_ne hzi, or_iff_right fun h => hzi h.1]
    rw [hmem, hzones]
    rcases eq_or_ne y z with rfl | hy
    · rw [update_self, or_iff_left (hnone zi), and_iff_left rfl, and_iff_right (.inl rfl),
        and_iff_left hfree]
      exact eq_comm
    · rw [update_of_ne hy, or_iff_right fun h => hy h.2, or_iff_right hy]
      exact hl.mem_iff zi y
  · rcases eq_or_ne zi hd.zoneindex with rfl | hzi
    · rw [update_self]
      exact nodup_cons.2 ⟨hnone _, hl.nodup _⟩
    · rw [update_of_ne hzi]
      exact hl.nodup zi

theorem remove (hl : Linked zones zone arr) (hzones : ∀ y ≠ z, y ∈ zones' ↔ y ∈ zones)
    (hfree : ¬ (z ∈ zones' ∧ 0 < hd.nfree)) :
    Linked zones' (Function.update zone z hd)
      (Function.update arr (zone z).zoneindex ((arr (zone z).zoneindex).erase z)) := by
  refine ⟨fun zi y => ?_, fun zi => ?_⟩
  · have hmem : y ∈ Function.update arr (zone z).zoneindex ((arr (zone z).zoneindex).erase z) zi ↔
        y ≠ z ∧ y ∈ arr zi := by
      rcases eq_or_ne zi (zone z).zoneindex with rfl | hzi
      · rw [update_self]
        exact (hl.nodup _).mem_erase_iff
      · rw [update_of_ne hzi]
        refine (and_iff_right_of_imp fun hy heq => ?_).symm
        rw [heq, hl.mem_iff] at hy
        exact hzi hy.2.1.symm
    rw [hmem]
    rcases eq_or_ne y z with rfl | hy
    · rw [update_self]
      exact iff_of_false (fun h => h.1 rfl) fun h => hfree ⟨h.1, h.2.2⟩
    · rw [update_of_ne hy, hzones y hy, and_iff_right hy]
      exact hl.mem_iff zi y
  · rcases eq_or_ne zi (zone z).zoneindex with rfl | hzi
    · rw [update_self]
      exact (hl.nodup _).erase z
    · rw [update_of_ne hzi]
      exact hl.nodup zi

end Linked

/-- What holds of the heap, of the allocations `A`, and of the runs of pages `T` that operations are
taking or giving back. -/
structure HeapInv (c : SlabConfig) (h : Slab) (A : List Allocation) (T : List PlaceRun) :
    Prop where
  pages : ∀ p, cover h.pageList p + cover (zoneRuns c (h.zones ++ h.zoneFree)) p +
    cover (largeRuns A) p + cover T p + cover [⟨0, c.memusagePages⟩] p =
      if p < c.npages then 1 else 0
  header : ∀ z ∈ h.zones ++ h.zoneFree, (h.zone z).Ok c z
  chunks : ∀ z ∈ h.zones, (h.zone z).Holds (chunksOf z A)
  small : ∀ z ptr, .small z ptr ∈ A → z ∈ h.zones
  large : ∀ page n, .large page n ∈ A → h.memusage page = ⟨.large, n⟩ ∧ 0 < n
  usage : ∀ z ∈ h.zones ++ h.zoneFree, ∀ i < c.zonePageCnt, h.memusage (z + i) = ⟨.small, i⟩
  linked : Linked h.zones h.zone h.zoneArray
  cnt : h.zoneFreeCnt = h.zoneFree.length

namespace HeapInv

variable {c : SlabConfig} {h h' : Slab} {A A' : List Allocation} {T T' : List PlaceRun}

theorem perm (hi : HeapInv c h A T) (hA : A.Perm A') (hT : T.Perm T') : HeapInv c h A' T' := by
  refine { hi with pages := fun p => ?_, chunks := fun z hz => ?_, small := fun z ptr ha => ?_,
                   large := fun page n ha => ?_ }
  · rw [← cover_largeRuns hA p, ← cover_perm hT p]
    exact hi.pages p
  · exact ((chunksOf_perm hA z).symm.append_left _).trans (hi.chunks z hz)
  · exact hi.small z ptr (hA.mem_iff.2 ha)
  · exact hi.large page n (hA.mem_iff.2 ha)

theorem congr (hi : HeapInv c h A T) (used max : UInt32) :
    HeapInv c { h with usedMem := used, maxMem := max } A T := { hi with }

theorem cover_le (hi : HeapInv c h A T) (p : ℕ) :
    cover h.pageList p + cover (zoneRuns c (h.zones ++ h.zoneFree)) p +
      cover (largeRuns A) p + cover T p ≤ 1 := by
  have hpages := hi.pages p
  split at hpages <;> omega

theorem covers_zone (c : SlabConfig) (z : ℕ) :
    (⟨z, c.zonePageCnt⟩ : PlaceRun).Covers z := covers_first z c.zonePageCnt_pos

theorem nodup_zones (hi : HeapInv c h A T) : (h.zones ++ h.zoneFree).Nodup := by
  refine nodup_iff_sublist.2 fun z hz => ?_
  have hsub : [(⟨z, c.zonePageCnt⟩ : PlaceRun), ⟨z, c.zonePageCnt⟩].Sublist
      (zoneRuns c (h.zones ++ h.zoneFree)) := hz.map fun z => (⟨z, c.zonePageCnt⟩ : PlaceRun)
  refine apart_of_cover (fun p => ?_) hsub z ⟨covers_zone c z, covers_zone c z⟩
  have hle := hi.cover_le p
  omega

theorem zone_eq (hi : HeapInv c h A T) {z z' p : ℕ} (hz : z ∈ h.zones ++ h.zoneFree)
    (hz' : z' ∈ h.zones ++ h.zoneFree) (hp : z ≤ p ∧ p < z + c.zonePageCnt)
    (hp' : z' ≤ p ∧ p < z' + c.zonePageCnt) : z' = z := by
  have hle := hi.cover_le p
  have heq := eq_of_cover (p := p) (by omega) (mem_zoneRuns (c := c) hz) (mem_zoneRuns hz') hp hp'
  exact congrArg PlaceRun.first heq

theorem not_covers_zone {r : PlaceRun} (hi : HeapInv c h A (r :: T)) {z i : ℕ}
    (hz : z ∈ h.zones ++ h.zoneFree) (hlt : i < c.zonePageCnt) : ¬ r.Covers (z + i) := by
  intro hr
  have hle := hi.cover_le (z + i)
  have hzone := cover_pos (mem_zoneRuns (c := c) hz) (p := z + i)
    ⟨Nat.le_add_right z i, Nat.add_lt_add_left hlt z⟩
  have htransit := cover_pos (mem_cons_self (l := T)) hr
  omega

theorem not_covers_large {r : PlaceRun} (hi : HeapInv c h A (r :: T)) {page n : ℕ}
    (ha : .large page n ∈ A) : ¬ r.Covers page := by
  intro hr
  have hle := hi.cover_le page
  have hn := (hi.large page n ha).2
  have hlarge := cover_pos (mem_largeRuns.2 ha) (covers_first page hn)
  have htransit := cover_pos (mem_cons_self (l := T)) hr
  omega

/-! #### Pages on their way -/

theorem take_pages (hi : HeapInv c h A T) {n page : ℕ}
    (hpage : (rtPageAlloc n h.pageList).1 = some page) :
    HeapInv c { h with pageList := (rtPageAlloc n h.pageList).2 } A (⟨page, n⟩ :: T) := by
  refine { hi with pages := fun p => ?_ }
  have hpages := hi.pages p
  rw [← (cover_rtPageAlloc hpage).2 p, cover_cons] at hpages
  dsimp only
  rw [cover_cons]
  omega

theorem give_pages {n k : ℕ} (hi : HeapInv c h A (⟨n, k⟩ :: T)) :
    HeapInv c { h with pageList := rtPageFree n k h.pageList } A T := by
  refine { hi with pages := fun p => ?_ }
  have hpages := hi.pages p
  rw [cover_cons] at hpages
  dsimp only
  rw [cover_rtPageFree, cover_cons]
  omega

theorem set_usage {r : PlaceRun} (hi : HeapInv c h A (r :: T)) {m : ℕ → Memusage}
    (hm : ∀ p, ¬ r.Covers p → m p = h.memusage p) :
    HeapInv c { h with memusage := m } A (r :: T) := by
  refine { hi with large := fun page n ha => ?_, usage := fun z hz i hlt => ?_ }
  · exact ⟨(hm _ (hi.not_covers_large ha)).trans (hi.large page n ha).1, (hi.large page n ha).2⟩
  · exact (hm _ (hi.not_covers_zone hz hlt)).trans (hi.usage z hz i hlt)

theorem to_large {page n : ℕ} (hi : HeapInv c h A (⟨page, n⟩ :: T)) (hn : 0 < n)
    (hm : h.memusage page = ⟨.large, n⟩) : HeapInv c h (.large page n :: A) T := by
  refine { hi with pages := fun p => ?_, small := fun z ptr ha => ?_, large := fun q k ha => ?_ }
  · have hpages := hi.pages p
    rw [cover_cons] at hpages
    rw [largeRuns_large, cover_cons]
    omega
  · rcases mem_cons.1 ha with heq | ha
    · cases heq
    · exact hi.small z ptr ha
  · rcases mem_cons.1 ha with heq | ha
    · cases heq
      exact ⟨hm, hn⟩
    · exact hi.large q k ha

theorem of_large {page n : ℕ} (hi : HeapInv c h (.large page n :: A) T) :
    HeapInv c h A (⟨page, n⟩ :: T) := by
  refine { hi with pages := fun p => ?_, small := fun z ptr ha => ?_, large := fun q k ha => ?_ }
  · have hpages := hi.pages p
    rw [largeRuns_large, cover_cons] at hpages
    rw [cover_cons]
    omega
  · exact hi.small z ptr (mem_cons_of_mem _ ha)
  · exact hi.large q k (mem_cons_of_mem _ ha)

theorem take_zoneFree (hi : HeapInv c h A T) {z : ℕ} {rest : List ℕ}
    (hfree : h.zoneFree = z :: rest) :
    HeapInv c { h with zoneFree := rest, zoneFreeCnt := h.zoneFreeCnt - 1 } A
      (⟨z, c.zonePageCnt⟩ :: T) := by
  have hsub : ∀ y ∈ h.zones ++ rest, y ∈ h.zones ++ h.zoneFree := by
    intro y hy
    rw [hfree]
    exact (append_sublist_append_left h.zones).2 (sublist_cons_self z rest) |>.subset hy
  refine { hi with pages := fun p => ?_, header := fun y hy => hi.header y (hsub y hy),
                   usage := fun y hy => hi.usage y (hsub y hy), cnt := ?_ }
  · have hpages := hi.pages p
    have hperm : (h.zones ++ h.zoneFree).Perm (z :: (h.zones ++ rest)) :=
      hfree ▸ perm_middle
    rw [zoneRuns, cover_perm (hperm.map _), map_cons, cover_cons] at hpages
    rw [cover_cons]
    unfold zoneRuns
    dsimp only
    omega
  · dsimp only
    rw [hi.cnt, hfree, length_cons, Nat.add_sub_cancel]

/-! #### Zones -/

theorem not_mem_zones {z : ℕ} (hi : HeapInv c h A (⟨z, c.zonePageCnt⟩ :: T)) :
    z ∉ h.zones ++ h.zoneFree :=
  fun hz => hi.not_covers_zone hz c.zonePageCnt_pos (covers_zone c z)

theorem initZone {z size zi : ℕ} (hi : HeapInv c h A (⟨z, c.zonePageCnt⟩ :: T))
    (hm : ∀ i < c.zonePageCnt, h.memusage (z + i) = ⟨.small, i⟩) (hs : c.SizeOk size zi) :
    HeapInv c (h.initZone c z size zi).1 (.small z (h.initZone c z size zi).2 :: A) T := by
  obtain ⟨hok, hfree⟩ := SlabZone.init_ok hs z
  have hnot := hi.not_mem_zones
  have hzones : z ∉ h.zones := fun hz => hnot (mem_append_left _ hz)
  have hne : ∀ y ∈ h.zones ++ h.zoneFree, y ≠ z := fun y hy heq => hnot (heq ▸ hy)
  have hself : (h.initZone c z size zi).1.zone z = SlabZone.init c z size zi :=
    update_self ..
  have hother : ∀ y ≠ z, (h.initZone c z size zi).1.zone y = h.zone y :=
    fun y hy => update_of_ne hy ..
  refine ⟨fun p => ?_, fun y hy => ?_, fun y hy => ?_, fun y ptr ha => ?_, fun page n ha => ?_,
    fun y hy i hlt => ?_, ?_, hi.cnt⟩
  · have hpages := hi.pages p
    rw [cover_cons] at hpages
    show cover h.pageList p + cover (⟨z, c.zonePageCnt⟩ :: zoneRuns c (h.zones ++ h.zoneFree)) p +
      cover (largeRuns A) p + _ + _ = _
    rw [cover_cons]
    omega
  · rcases mem_cons.1 hy with rfl | hy
    · rw [hself]
      exact hok
    · rw [hother y (hne y hy)]
      exact hi.header y hy
  · rcases mem_cons.1 hy with rfl | hy
    · -- no chunk of the zone is in use but the first one
      have hnone : chunksOf y A = [] :=
        eq_nil_iff_forall_not_mem.2 fun ptr hptr =>
          hzones (hi.small y ptr (mem_chunksOf.1 hptr))
      rw [hself, chunksOf_small, hnone]
      exact List.Perm.refl _
    · have hy' := hne y (mem_append_left _ hy)
      rw [hother y hy', chunksOf_small_of_ne hy'.symm]
      exact hi.chunks y hy
  · rcases mem_cons.1 ha with heq | ha
    · cases heq
      exact mem_cons_self
    · exact mem_cons_of_mem z (hi.small y ptr ha)
  · rcases mem_cons.1 ha with heq | ha
    · cases heq
    · exact hi.large page n ha
  · rcases mem_cons.1 hy with rfl | hy
    · exact hm i hlt
    · exact hi.usage y hy i hlt
  · exact hi.linked.insert (fun y => mem_cons)
      (fun zi' hz => hzones ((hi.linked.mem_iff zi' z).1 hz).1) hfree

/-- The header of a zone changes, and with it which of its chunks are allocations. -/
theorem set_zone {z : ℕ} {hd : SlabZone} {arr : ℕ → List ℕ} (A' : List Allocation)
    (hi : HeapInv c h A T) (hz : z ∈ h.zones) (hok : hd.Ok c z) (hchunks : hd.Holds (chunksOf z A'))
    (hother : ∀ y ≠ z, chunksOf y A' = chunksOf y A) (hlarge : largeRuns A' = largeRuns A)
    (hlinked : Linked h.zones (Function.update h.zone z hd) arr) :
    HeapInv c { h with zone := Function.update h.zone z hd, zoneArray := arr } A' T := by
  refine ⟨fun p => ?_, fun y hy => ?_, fun y hy => ?_, fun y ptr ha => ?_, fun page n ha => ?_,
    hi.usage, hlinked, hi.cnt⟩
  · rw [hlarge]
    exact hi.pages p
  · dsimp only
    rcases eq_or_ne y z with rfl | hy'
    · rw [update_self]
      exact hok
    · rw [update_of_ne hy']
      exact hi.header y hy
  · dsimp only
    rcases eq_or_ne y z with rfl | hy'
    · rw [update_self]
      exact hchunks
    · rw [update_of_ne hy', hother y hy']
      exact hi.chunks y hy
  · rcases eq_or_ne y z with rfl | hy'
    · exact hz
    · rw [← mem_chunksOf, hother y hy', mem_chunksOf] at ha
      exact hi.small y ptr ha
  · rw [← mem_largeRuns, hlarge, mem_largeRuns] at ha
    exact hi.large page n ha

section

variable (hi : HeapInv c h A T)
include hi

theorem takeChunk {z size zi : ℕ} {rest : List ℕ} (hlist : h.zoneArray zi = z :: rest)
    (hs : c.SizeOk size zi) :
    ∃ r, h.takeChunk z size zi rest = some r ∧ HeapInv c r.1 (.small z r.2 :: A) T := by
  obtain ⟨hz, hzi, hfree⟩ := (hi.linked.mem_iff zi z).1 (hlist ▸ mem_cons_self)
  have hok := hi.header z (mem_append_left _ hz)
  have hholds := hi.chunks z hz
  have hsize : size = (h.zone z).chunksize := by rw [hok.index, hzi, hs.index]
  have hlinked : ∀ hd : SlabZone, hd.zoneindex = (h.zone z).zoneindex →
      hd.nfree = (h.zone z).nfree - 1 → Linked h.zones (Function.update h.zone z hd)
        (if (h.zone z).nfree - 1 = 0 then Function.update h.zoneArray zi rest
          else h.zoneArray) := by
    intro hd hidx hcount
    split
    case isTrue hzero =>
      have herase : rest = (h.zoneArray zi).erase z := by rw [hlist, erase_cons_head]
      rw [herase, ← hzi]
      exact hi.linked.remove (fun y _ => Iff.rfl) fun hpos => by omega
    case isFalse hzero => exact hi.linked.update hidx (by omega)
  have hset : ∀ (hd : SlabZone) (ptr : ℕ), hd.Ok c z ∧ hd.Holds (ptr :: chunksOf z A) →
      hd.zoneindex = (h.zone z).zoneindex → hd.nfree = (h.zone z).nfree - 1 → _ :=
    fun hd ptr hd' hidx hcount => hi.set_zone (.small z ptr :: A) hz hd'.1
      ((chunksOf_small z ptr A).symm ▸ hd'.2) (fun y hy => chunksOf_small_of_ne hy.symm ptr A) rfl
      (hlinked hd hidx hcount)
  unfold Slab.takeChunk
  dsimp only
  split
  case isTrue hnew =>
    rw [hsize]
    exact ⟨_, rfl, (hset _ _ (hok.take_new hholds hnew) rfl rfl).congr _ _⟩
  case isFalse hnew =>
    -- the chunks have all been used, so that one is on the list
    have hnfree := hok.nfree
    split
    case h_1 hnil =>
      rw [hnil, length_nil] at hnfree
      omega
    case h_2 chunk l hcons =>
      exact ⟨_, rfl, (hset _ _ (hok.take_freed hholds hcons) rfl rfl).congr _ _⟩

theorem small_le {z ptr : ℕ} (ha : .small z ptr ∈ A) :
    z * rtMmPageSize + sizeofSlabZone ≤ ptr ∧
      ptr + (h.zone z).chunksize ≤ z * rtMmPageSize + c.zoneSize := by
  have hz := hi.small z ptr ha
  have hok := hi.header z (mem_append_left _ hz)
  have hmem : ptr ∈ (List.range ((h.zone z).uindex + 1)).map (h.zone z).chunk :=
    (hi.chunks z hz).subset (mem_append_right _ (mem_chunksOf.2 ha))
  obtain ⟨i, hrange, rfl⟩ := mem_map.1 hmem
  have hlt : i + 1 ≤ (h.zone z).nmax := Nat.le_trans (mem_range.1 hrange) hok.used
  have hmul := Nat.mul_le_mul_right (h.zone z).chunksize hlt
  have hlo := hok.lo
  have hhi := hok.hi
  rw [succ_mul] at hmul
  unfold SlabZone.chunk
  omega

theorem small_page {z ptr x : ℕ} (ha : .small z ptr ∈ A)
    (hlo : ptr ≤ x) (hhi : x < ptr + (h.zone z).chunksize) :
    ∃ i < c.zonePageCnt, x / rtMmPageSize = z + i := by
  obtain ⟨hle, hlt⟩ := hi.small_le ha
  have hcnt := c.zonePageCnt_mul
  have hpage : z ≤ x / rtMmPageSize := (Nat.le_div_iff_mul_le (by decide)).2 (by omega)
  have hlast : x / rtMmPageSize < z + c.zonePageCnt := by
    refine (Nat.div_lt_iff_lt_mul (by decide)).2 ?_
    rw [Nat.add_mul]
    omega
  exact ⟨x / rtMmPageSize - z, by omega, by omega⟩

theorem usage_small {z ptr x : ℕ} (ha : .small z ptr ∈ A)
    (hlo : ptr ≤ x) (hhi : x < ptr + (h.zone z).chunksize) :
    z ≤ x / rtMmPageSize ∧ h.memusage (x / rtMmPageSize) = ⟨.small, x / rtMmPageSize - z⟩ := by
  obtain ⟨i, hlt, hpage⟩ := hi.small_page ha hlo hhi
  rw [hpage, Nat.add_sub_cancel_left]
  exact ⟨Nat.le_add_right z i, hi.usage z (mem_append_left _ (hi.small z ptr ha)) i hlt⟩

theorem retire {z : ℕ} (hz : z ∈ h.zones) (hnil : chunksOf z A = []) :
    HeapInv c { h with
      zone := Function.update h.zone z { h.zone z with magic := false }
      zoneArray := Function.update h.zoneArray (h.zone z).zoneindex
        ((h.zoneArray (h.zone z).zoneindex).erase z)
      zoneFree := z :: h.zoneFree
      zoneFreeCnt := h.zoneFreeCnt + 1
      zones := h.zones.erase z } A T := by
  have hnodup := (nodup_append.1 hi.nodup_zones).1
  have hperm : (h.zones.erase z ++ z :: h.zoneFree).Perm (h.zones ++ h.zoneFree) :=
    perm_middle.trans ((perm_cons_erase hz).symm.append_right h.zoneFree)
  refine ⟨fun p => ?_, fun y hy => ?_, fun y hy => ?_, fun y ptr ha => ?_, hi.large,
    fun y hy => hi.usage y (hperm.subset hy), ?_, ?_⟩
  · have hpages := hi.pages p
    unfold zoneRuns at hpages ⊢
    dsimp only
    rw [cover_perm (hperm.map _)]
    exact hpages
  · have hok := hi.header y (hperm.subset hy)
    dsimp only
    rcases eq_or_ne y z with rfl | hy'
    · rw [update_self]
      exact { hok with }
    · rw [update_of_ne hy']
      exact hok
  · obtain ⟨hy', hmem⟩ := hnodup.mem_erase_iff.1 hy
    dsimp only
    rw [update_of_ne hy']
    exact hi.chunks y hmem
  · refine hnodup.mem_erase_iff.2 ⟨?_, hi.small y ptr ha⟩
    rintro rfl
    rw [← mem_chunksOf, hnil] at ha
    cases ha
  · refine hi.linked.remove (fun y hy => ?_) fun hmem => ?_
    · exact hnodup.mem_erase_iff.trans (and_iff_right hy)
    · exact (hnodup.mem_erase_iff.1 hmem.1).1 rfl
  · exact congrArg (· + 1) hi.cnt

end

end HeapInv

/-! ### Addresses -/

/-- The address belongs to the allocation. -/
def Slab.Has (h : Slab) : Allocation → ℕ → Prop
  | .small z ptr, x => ptr ≤ x ∧ x < ptr + (h.zone z).chunksize
  | .large page n, x => page * rtMmPageSize ≤ x ∧ x < (page + n) * rtMmPageSize

theorem SlabZone.chunk_apart {h : SlabZone} {i j x : ℕ} (hne : i ≠ j) :
    ¬ ((h.chunk i ≤ x ∧ x < h.chunk i + h.chunksize) ∧
      h.chunk j ≤ x ∧ x < h.chunk j + h.chunksize) := by
  have hmul : ∀ {a b : ℕ}, a < b → h.chunk a + h.chunksize ≤ h.chunk b := by
    intro a b hlt
    have hle := Nat.mul_le_mul_right h.chunksize hlt
    rw [succ_mul] at hle
    unfold SlabZone.chunk
    omega
  rcases Nat.lt_or_gt_of_ne hne with hlt | hlt
  · have hle := hmul hlt
    omega
  · have hle := hmul hlt
    omega

namespace HeapInv

variable {c : SlabConfig} {h : Slab} {A : List Allocation} {T : List PlaceRun}

theorem covers_of_has {page n x : ℕ} (hx : h.Has (.large page n) x) :
    (⟨page, n⟩ : PlaceRun).Covers (x / rtMmPageSize) :=
  ⟨(Nat.le_div_iff_mul_le (by decide)).2 hx.1, (Nat.div_lt_iff_lt_mul (by decide)).2 hx.2⟩

section

variable (hi : HeapInv c h A T)
include hi

/-- The page of an address of an allocation is in one run of a zone or of a large allocation. -/
theorem cover_has {a : Allocation} {x : ℕ} (ha : a ∈ A) (hx : h.Has a x) :
    1 ≤ cover (zoneRuns c (h.zones ++ h.zoneFree)) (x / rtMmPageSize) +
      cover (largeRuns A) (x / rtMmPageSize) := by
  cases a with
  | small z ptr =>
    obtain ⟨i, hlt, hpage⟩ := hi.small_page ha hx.1 hx.2
    have hz := mem_append_left h.zoneFree (hi.small z ptr ha)
    have hpos := cover_pos (mem_zoneRuns (c := c) hz) (p := z + i)
      ⟨Nat.le_add_right z i, Nat.add_lt_add_left hlt z⟩
    rw [hpage]
    omega
  | large page n =>
    have hpos := cover_pos (mem_largeRuns.2 ha) (covers_of_has hx)
    omega

/-- Allocations lie in the heap, and not in `memusage`. -/
theorem inside {a : Allocation} {x : ℕ} (ha : a ∈ A) (hx : h.Has a x) :
    c.memusagePages * rtMmPageSize ≤ x ∧ x < c.npages * rtMmPageSize := by
  have hcover := hi.cover_has ha hx
  have hpages := hi.pages (x / rtMmPageSize)
  rw [cover_cons, cover_nil] at hpages
  have hlt : x / rtMmPageSize < c.npages := by
    by_contra hge
    rw [if_neg hge] at hpages
    omega
  have hge : ¬ PlaceRun.Covers ⟨0, c.memusagePages⟩ (x / rtMmPageSize) := by
    intro hcovers
    rw [if_pos hlt, if_pos hcovers] at hpages
    omega
  have hle : c.memusagePages ≤ x / rtMmPageSize := by
    by_contra hnle
    exact hge ⟨Nat.zero_le _, (Nat.zero_add c.memusagePages).symm ▸ Nat.lt_of_not_le hnle⟩
  exact ⟨(Nat.le_div_iff_mul_le (by decide)).1 hle, (Nat.div_lt_iff_lt_mul (by decide)).1 hlt⟩

theorem small_large_apart {z ptr page n x : ℕ} (ha : .small z ptr ∈ A)
    (hb : .large page n ∈ A) (hx : h.Has (.small z ptr) x) : ¬ h.Has (.large page n) x := by
  intro hx'
  obtain ⟨i, hlt, hpage⟩ := hi.small_page ha hx.1 hx.2
  have hz := mem_append_left h.zoneFree (hi.small z ptr ha)
  have hzone := cover_pos (mem_zoneRuns (c := c) hz) (p := z + i)
    ⟨Nat.le_add_right z i, Nat.add_lt_add_left hlt z⟩
  have hlarge := cover_pos (mem_largeRuns.2 hb) (covers_of_has hx')
  have hle := hi.cover_le (x / rtMmPageSize)
  rw [← hpage] at hzone
  omega

theorem nodup_chunksOf {z : ℕ} (hz : z ∈ h.zones) : (chunksOf z A).Nodup := by
  have hpos := (hi.header z (mem_append_left _ hz)).pos
  have hrange : ((List.range ((h.zone z).uindex + 1)).map (h.zone z).chunk).Nodup := by
    refine nodup_range.map fun i j hij => ?_
    exact eq_of_mul_eq_mul_right hpos (Nat.add_left_cancel hij)
  exact (nodup_append.1 ((hi.chunks z hz).nodup_iff.2 hrange)).2.1

theorem small_small_apart {z ptr z' ptr' x : ℕ} (hsub : [Allocation.small z ptr, .small z' ptr'].Sublist A)
    (hx : h.Has (.small z ptr) x) : ¬ h.Has (.small z' ptr') x := by
  intro hx'
  have ha : .small z ptr ∈ A := hsub.subset mem_cons_self
  have hb : .small z' ptr' ∈ A := hsub.subset (mem_cons_of_mem _ mem_cons_self)
  have hz := hi.small z ptr ha
  by_cases heq : z = z'
  · subst heq
    have hsub' : [ptr, ptr'].Sublist (chunksOf z A) := by
      have hmap : (chunksOf z [.small z ptr, .small z ptr']).Sublist (chunksOf z A) :=
        hsub.filterMap (Allocation.chunkOf z)
      rw [chunksOf_small, chunksOf_small] at hmap
      exact hmap
    have hne : ptr ≠ ptr' := by
      rintro rfl
      exact nodup_iff_sublist.1 (hi.nodup_chunksOf hz) ptr hsub'
    obtain ⟨i, -, rfl⟩ := mem_map.1 ((hi.chunks z hz).subset
      (mem_append_right _ (mem_chunksOf.2 ha)))
    obtain ⟨j, -, rfl⟩ := mem_map.1 ((hi.chunks z hz).subset
      (mem_append_right _ (mem_chunksOf.2 hb)))
    exact SlabZone.chunk_apart (fun hij => hne (congrArg _ hij)) ⟨hx, hx'⟩
  · obtain ⟨i, hlt, hpage⟩ := hi.small_page ha hx.1 hx.2
    obtain ⟨j, hlt', hpage'⟩ := hi.small_page hb hx'.1 hx'.2
    refine heq (hi.zone_eq (p := x / rtMmPageSize)
      (mem_append_left _ (hi.small z' ptr' hb)) (mem_append_left _ hz) ?_ ?_)
    · omega
    · omega

theorem apart : A.Pairwise fun a b => ∀ x, ¬ (h.Has a x ∧ h.Has b x) := by
  refine pairwise_iff_forall_sublist.2 fun {a b} hsub x hx => ?_
  have ha : a ∈ A := hsub.subset mem_cons_self
  have hb : b ∈ A := hsub.subset (mem_cons_of_mem _ mem_cons_self)
  cases a with
  | small z ptr =>
    cases b with
    | small z' ptr' => exact hi.small_small_apart hsub hx.1 hx.2
    | large page n => exact hi.small_large_apart ha hb hx.1 hx.2
  | large page n =>
    cases b with
    | small z ptr => exact hi.small_large_apart hb ha hx.2 hx.1
    | large page' n' =>
      have hruns : [(⟨page, n⟩ : PlaceRun), ⟨page', n'⟩].Sublist (largeRuns A) :=
        hsub.filterMap Allocation.run
      refine apart_of_cover (fun p => ?_) hruns (x / rtMmPageSize)
        ⟨covers_of_has hx.1, covers_of_has hx.2⟩
      have hle := hi.cover_le p
      omega

end

end HeapInv

end RtThread
