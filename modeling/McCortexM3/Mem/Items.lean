import McCortexM3.DList
import McCortexM3.Mem.Memheap
import McCortexM3.Tiling

/-!
# The items of the memory heap in memory

The region of a memory heap holds a list of blocks, each beginning with its item, the last one
being the tailer.  The items are linked in the order of their addresses, and some of them are in
the free list as well.

## Main definitions

* `Memheap.ItemWrites S h h'` — nothing but the items at `S` has been written.
* `Memheap.Rep h bs P` — the region holds the blocks `bs`, and the blocks at the offsets that meet
  `P` are in the free list.

## Main results

* `Memheap.get_set` — an assignment to a field of an item leaves the other fields and items.
* `Rep.linkFree`, `Rep.unlinkFree`, `Rep.makeBlock`, `Rep.mergeNext`, `Rep.setMagic` — what the
  pieces of the functions do to the blocks.
* `Rep.writes_linkFree` and so on — these pieces write nothing but items.
-/

set_option linter.all false

namespace RtThread

open List ByteMemory Tiling

theorem ItemField.offset_le (f : ItemField) : f.offset ≤ 20 := by
  cases f <;> decide

theorem ItemField.offset_apart {f g : ItemField} (hfg : f ≠ g) :
    f.offset + 4 ≤ g.offset ∨ g.offset + 4 ≤ f.offset := by
  cases f <;> cases g <;> first | exact absurd rfl hfg | decide

namespace Memheap

variable {h h' : Memheap} {a b c item : UInt32} {f g : ItemField} {v : UInt32}
variable {S : List UInt32} {bs l r : List Block} {P : ℕ → Prop} {x m n : ℕ} {u : Bool}

/-! ### Assignments -/

/-- The fields of the object that the items rely on. -/
structure SameFrame (h h' : Memheap) : Prop where
  addr : h'.addr = h.addr
  startAddr : h'.startAddr = h.startAddr
  poolSize : h'.poolSize = h.poolSize
  freeList : h'.freeList = h.freeList

theorem SameFrame.refl (h : Memheap) : SameFrame h h := ⟨rfl, rfl, rfl, rfl⟩

theorem SameFrame.trans {h'' : Memheap} (h₁ : SameFrame h h') (h₂ : SameFrame h' h'') :
    SameFrame h h'' :=
  ⟨h₂.addr.trans h₁.addr, h₂.startAddr.trans h₁.startAddr, h₂.poolSize.trans h₁.poolSize,
    h₂.freeList.trans h₁.freeList⟩

theorem SameFrame.symm (hf : SameFrame h h') : SameFrame h' h :=
  ⟨hf.addr.symm, hf.startAddr.symm, hf.poolSize.symm, hf.freeList.symm⟩

theorem sameFrame_set (h : Memheap) (a : UInt32) (f : ItemField) (v : UInt32) :
    SameFrame h (h.set a f v) := ⟨rfl, rfl, rfl, rfl⟩

/-- The items at the addresses do not overlap. -/
def Spaced (S : List UInt32) : Prop :=
  ∀ a ∈ S, ∀ b ∈ S, a ≠ b → a.toNat + 24 ≤ b.toNat ∨ b.toNat + 24 ≤ a.toNat

theorem get_congr (hram : ∀ x, a.toNat ≤ x → x < a.toNat + 24 → h'.ram x = h.ram x)
    (f : ItemField) : h'.get a f = h.get a f := by
  have hf := ItemField.offset_le f
  rw [get, get, load_congr fun x hle hlt => hram x (by omega) (by omega)]

/-- **An assignment** changes one field of one item. -/
theorem get_set (hS : Spaced S) (ha : a ∈ S) (hb : b ∈ S) (f g : ItemField) (v : UInt32) :
    (h.set a f v).get b g =
      if g = f then if b = a then v else h.get b g else h.get b g := by
  have hf := f.offset_le
  have hg := g.offset_le
  by_cases heq : g = f ∧ b = a
  · obtain ⟨rfl, rfl⟩ := heq
    rw [if_pos rfl, if_pos rfl, get, set, load_store_self _ _ v.toNat_lt, UInt32.ofNat_toNat]
  · have hright : (if g = f then if b = a then v else h.get b g else h.get b g) = h.get b g := by
      split_ifs with hgf hba
      · exact absurd ⟨hgf, hba⟩ heq
      · rfl
      · rfl
    rw [hright, get, set, load_store_of_disjoint, ← get]
    by_cases hab : b = a
    · have hfg := ItemField.offset_apart fun hgf : f = g => heq ⟨hgf.symm, hab⟩
      rw [hab]
      omega
    · have happ := hS a ha b hb (Ne.symm hab)
      omega

@[simp] theorem freeList_set (h : Memheap) (a : UInt32) (f : ItemField) (v : UInt32) :
    (h.set a f v).freeList = h.freeList := rfl

@[simp] theorem addr_set (h : Memheap) (a : UInt32) (f : ItemField) (v : UInt32) :
    (h.set a f v).addr = h.addr := rfl

section

variable (hS : Spaced S) (ha : a ∈ S)
include hS ha

theorem linkFree_eq (hl : h.freeList ∈ S) (hne : a ≠ h.freeList) :
    h.linkFree a = (((h.set a .nextFree (h.get h.freeList .nextFree)).set a .prevFree
      h.freeList).set (h.get h.freeList .nextFree) .prevFree a).set h.freeList .nextFree a := by
  have hnext : ((h.set a .nextFree (h.get h.freeList .nextFree)).set a .prevFree h.freeList).get
      h.freeList .nextFree = h.get h.freeList .nextFree := by
    rw [get_set hS ha hl, get_set hS ha hl, if_neg nofun, if_pos rfl, if_neg (Ne.symm hne)]
  simp only [linkFree, freeList_set, hnext]

theorem get_linkFree (hl : h.freeList ∈ S)
    (hn : h.get h.freeList .nextFree ∈ S) (hne : a ≠ h.freeList) (hb : b ∈ S) (g : ItemField) :
    (h.linkFree a).get b g = match g with
      | .nextFree =>
        if b = h.freeList then a
        else if b = a then h.get h.freeList .nextFree else h.get b .nextFree
      | .prevFree =>
        if b = h.get h.freeList .nextFree then a
        else if b = a then h.freeList else h.get b .prevFree
      | g => h.get b g := by
  rw [linkFree_eq hS ha hl hne, get_set hS hl hb, get_set hS hn hb, get_set hS ha hb,
    get_set hS ha hb]
  cases g <;> simp only [reduceCtorEq, if_true, if_false]

theorem unlinkFree_eq (hn : h.get a .nextFree ∈ S) (hne : h.get a .nextFree ≠ a) :
    h.unlinkFree a = (h.set (h.get a .nextFree) .prevFree (h.get a .prevFree)).set
      (h.get a .prevFree) .nextFree (h.get a .nextFree) := by
  have hnext : (h.set (h.get a .nextFree) .prevFree (h.get a .prevFree)).get a .nextFree =
      h.get a .nextFree := by
    rw [get_set hS hn ha, if_neg nofun]
  have hprev : (h.set (h.get a .nextFree) .prevFree (h.get a .prevFree)).get a .prevFree =
      h.get a .prevFree := by
    rw [get_set hS hn ha, if_pos rfl, if_neg (Ne.symm hne)]
  simp only [unlinkFree, hnext, hprev]

theorem get_unlinkFree (hn : h.get a .nextFree ∈ S)
    (hp : h.get a .prevFree ∈ S) (hne : h.get a .nextFree ≠ a) (hb : b ∈ S) (g : ItemField) :
    (h.unlinkFree a).get b g = match g with
      | .nextFree => if b = h.get a .prevFree then h.get a .nextFree else h.get b .nextFree
      | .prevFree => if b = h.get a .nextFree then h.get a .prevFree else h.get b .prevFree
      | g => h.get b g := by
  rw [unlinkFree_eq hS ha hn hne, get_set hS hp hb, get_set hS hn hb]
  cases g <;> simp only [reduceCtorEq, if_true, if_false]

theorem makeBlock_eq (hc : c ∈ S) (hne : a ≠ c) :
    h.makeBlock a c = (((((h.set c .magic memheapMagic).set c .poolPtr h.addr).set c .prev a).set c
      .next (h.get a .next)).set (h.get a .next) .prev c).set a .next c := by
  obtain ⟨h₁, hh₁⟩ : ∃ h₁, h₁ = ((h.set c .magic memheapMagic).set c .poolPtr h.addr).set c .prev a :=
    ⟨_, rfl⟩
  have hnext : h₁.get a .next = h.get a .next := by
    rw [hh₁, get_set hS hc ha, get_set hS hc ha, get_set hS hc ha, if_neg nofun, if_neg nofun,
      if_neg nofun]
  have hnext' : (h₁.set c .next (h.get a .next)).get a .next = h.get a .next := by
    rw [get_set hS hc ha, if_pos rfl, if_neg hne, hnext]
  simp only [makeBlock, addr_set]
  rw [← hh₁, hnext, hnext']

theorem get_makeBlock (hc : c ∈ S) (hn : h.get a .next ∈ S)
    (hne : a ≠ c) (hb : b ∈ S) (g : ItemField) :
    (h.makeBlock a c).get b g = match g with
      | .magic => if b = c then memheapMagic else h.get b .magic
      | .poolPtr => if b = c then h.addr else h.get b .poolPtr
      | .next => if b = a then c else if b = c then h.get a .next else h.get b .next
      | .prev => if b = h.get a .next then c else if b = c then a else h.get b .prev
      | g => h.get b g := by
  rw [makeBlock_eq hS ha hc hne, get_set hS ha hb, get_set hS hn hb, get_set hS hc hb,
    get_set hS hc hb, get_set hS hc hb, get_set hS hc hb]
  cases g <;> simp only [reduceCtorEq, if_true, if_false]

end

theorem mergeNext_eq (hS : Spaced S) (hc : h.get a .next = c) (hc_mem : c ∈ S)
    (hq : h.get c .next ∈ S) :
    h.mergeNext a = ((h.set (h.get c .next) .prev a).set a .next (h.get c .next)).unlinkFree c := by
  have hnext : (h.set (h.get c .next) .prev a).get c .next = h.get c .next := by
    rw [get_set hS hq hc_mem, if_neg nofun]
  simp only [mergeNext, hc, hnext]

theorem get_mergeNext (hS : Spaced S) (ha : a ∈ S) (hc : h.get a .next = c) (hc_mem : c ∈ S)
    (hq : h.get c .next ∈ S) (hn : h.get c .nextFree ∈ S) (hp : h.get c .prevFree ∈ S)
    (hne : h.get c .nextFree ≠ c) (hb : b ∈ S) (g : ItemField) :
    (h.mergeNext a).get b g = match g with
      | .next => if b = a then h.get c .next else h.get b .next
      | .prev => if b = h.get c .next then a else h.get b .prev
      | g => (h.unlinkFree c).get b g := by
  obtain ⟨h₁, hh₁⟩ : ∃ h₁, h₁ = (h.set (h.get c .next) .prev a).set a .next (h.get c .next) :=
    ⟨_, rfl⟩
  have hget : ∀ b ∈ S, ∀ g, h₁.get b g = match g with
      | .next => if b = a then h.get c .next else h.get b .next
      | .prev => if b = h.get c .next then a else h.get b .prev
      | g => h.get b g := by
    intro b hb g
    rw [hh₁, get_set hS ha hb, get_set hS hq hb]
    cases g <;> simp only [reduceCtorEq, if_true, if_false]
  have hn₁ : h₁.get c .nextFree = h.get c .nextFree := hget c hc_mem .nextFree
  have hp₁ : h₁.get c .prevFree = h.get c .prevFree := hget c hc_mem .prevFree
  have hget' := fun g => get_unlinkFree hS hc_mem hn hp hne hb g
  rw [mergeNext_eq hS hc hc_mem hq, ← hh₁, get_unlinkFree hS hc_mem (hn₁ ▸ hn) (hp₁ ▸ hp) (hn₁ ▸ hne) hb]
  cases g <;> simp only [hn₁, hp₁, hget b hb, hget']

/-- Nothing but the items at `S` has been written. -/
def ItemWrites (S : List UInt32) (h h' : Memheap) : Prop :=
  ∀ y, (∀ a ∈ S, y < a.toNat ∨ a.toNat + 24 ≤ y) → h'.ram y = h.ram y

theorem ItemWrites.refl (S : List UInt32) (h : Memheap) : ItemWrites S h h := fun _ _ => rfl

theorem ItemWrites.trans {h'' : Memheap} (hw : ItemWrites S h h') (hw' : ItemWrites S h' h'') :
    ItemWrites S h h'' := fun y hy => (hw' y hy).trans (hw y hy)

theorem ItemWrites.mono {S' : List UInt32} (hw : ItemWrites S h h') (hS : ∀ a ∈ S, a ∈ S') :
    ItemWrites S' h h' := fun y hy => hw y fun a ha => hy a (hS a ha)

theorem itemWrites_set (ha : a ∈ S) (f : ItemField) (v : UInt32) :
    ItemWrites S h (h.set a f v) := by
  intro y hy
  have hf := f.offset_le
  have hay := hy a ha
  exact store_of_outside (by omega)

section

variable (hS : Spaced S) (ha : a ∈ S)
include hS ha

theorem itemWrites_linkFree (hl : h.freeList ∈ S)
    (hn : h.get h.freeList .nextFree ∈ S) (hne : a ≠ h.freeList) :
    ItemWrites S h (h.linkFree a) := by
  rw [linkFree_eq hS ha hl hne]
  exact (((itemWrites_set ha _ _).trans (itemWrites_set ha _ _)).trans
    (itemWrites_set hn _ _)).trans (itemWrites_set hl _ _)

theorem itemWrites_unlinkFree (hn : h.get a .nextFree ∈ S)
    (hp : h.get a .prevFree ∈ S) (hne : h.get a .nextFree ≠ a) :
    ItemWrites S h (h.unlinkFree a) := by
  rw [unlinkFree_eq hS ha hn hne]
  exact (itemWrites_set hn _ _).trans (itemWrites_set hp _ _)

theorem itemWrites_makeBlock (hc : c ∈ S) (hn : h.get a .next ∈ S)
    (hne : a ≠ c) : ItemWrites S h (h.makeBlock a c) := by
  rw [makeBlock_eq hS ha hc hne]
  exact (((((itemWrites_set hc _ _).trans (itemWrites_set hc _ _)).trans
    (itemWrites_set hc _ _)).trans (itemWrites_set hc _ _)).trans (itemWrites_set hn _ _)).trans
    (itemWrites_set ha _ _)

theorem itemWrites_mergeNext (hc : h.get a .next = c)
    (hc_mem : c ∈ S) (hq : h.get c .next ∈ S) (hn : h.get c .nextFree ∈ S)
    (hp : h.get c .prevFree ∈ S) (hne : h.get c .nextFree ≠ c) :
    ItemWrites S h (h.mergeNext a) := by
  obtain ⟨h₁, hh₁⟩ : ∃ h₁, h₁ = (h.set (h.get c .next) .prev a).set a .next (h.get c .next) :=
    ⟨_, rfl⟩
  have hget : ∀ g, g = .nextFree ∨ g = .prevFree → h₁.get c g = h.get c g := by
    intro g hg
    rw [hh₁, get_set hS ha hc_mem, get_set hS hq hc_mem]
    rcases hg with rfl | rfl <;> simp only [reduceCtorEq, if_false]
  have hn₁ := hget .nextFree (.inl rfl)
  have hp₁ := hget .prevFree (.inr rfl)
  rw [mergeNext_eq hS hc hc_mem hq, ← hh₁]
  have hw₁ : ItemWrites S h h₁ := by
    rw [hh₁]
    exact (itemWrites_set hq _ _).trans (itemWrites_set ha _ _)
  exact hw₁.trans (itemWrites_unlinkFree hS hc_mem (hn₁ ▸ hn) (hp₁ ▸ hp) (hn₁ ▸ hne))

end

/-! ### The blocks -/

/-- The address at the offset `x` of the region that begins at `start`. -/
def spot (start : UInt32) (x : ℕ) : UInt32 := .ofNat (start.toNat + x)

/-- The addresses of the blocks. -/
def spots (start : UInt32) (bs : List Block) : List UInt32 := (starts 0 bs).map (spot start)

/-- The `magic` of an item. -/
def magicOf (u : Bool) : UInt32 := if u then memheapMagic ||| memheapUsed else memheapMagic

/-- The pointers between the blocks. -/
def blockLinks (h : Memheap) : Links UInt32 := ⟨fun a => h.get a .next, fun a => h.get a .prev⟩

/-- The pointers of the free list. -/
def freeLinks (h : Memheap) : Links UInt32 := ⟨fun a => h.get a .nextFree, fun a => h.get a .prevFree⟩

/-- The free list holds the blocks at the offsets that meet `P`. -/
def FreeIs (h : Memheap) (P : ℕ → Prop) : Prop :=
  ∃ fl : List ℕ, Circular h.freeLinks h.freeList (fl.map (spot h.startAddr)) ∧ ∀ x, x ∈ fl ↔ P x

/-- The blocks fill the region, which the `free_header` is not in; the last one is the tailer. -/
structure Shape (h : Memheap) (bs : List Block) : Prop where
  len : ∀ b ∈ bs, 24 ≤ b.len
  total_eq : total bs = h.poolSize.toNat
  bound : h.startAddr.toNat + total bs ≤ 2 ^ 32
  header : h.freeList.toNat + 24 ≤ h.startAddr.toNat ∨
    h.startAddr.toNat + total bs ≤ h.freeList.toNat
  tail : bs.getLast? = some ⟨24, true⟩

/-- The region holds the blocks `bs`, and the free list those at the offsets that meet `P`. -/
structure Rep (h : Memheap) (bs : List Block) (P : ℕ → Prop) : Prop where
  shape : Shape h bs
  tags : ∀ u, ∀ x ∈ offsets u 0 bs, h.get (spot h.startAddr x) .magic = magicOf u ∧
    h.get (spot h.startAddr x) .poolPtr = h.addr
  ring : Looped h.blockLinks (spots h.startAddr bs)
  free : FreeIs h P
  sub : ∀ x, P x → x ∈ starts 0 bs

theorem Shape.toNat_spot (hs : Shape h bs) (hx : x ∈ starts 0 bs) :
    (spot h.startAddr x).toNat = h.startAddr.toNat + x := by
  have hbound := hs.bound
  have hx' := mem_starts_bounds hs.len hx
  rw [spot, UInt32.toNat_ofNat']
  omega

theorem Shape.spot_inj {y : ℕ} (hs : Shape h bs) (hx : x ∈ starts 0 bs) (hy : y ∈ starts 0 bs)
    (heq : spot h.startAddr x = spot h.startAddr y) : x = y := by
  have hx' := hs.toNat_spot hx
  rw [heq, hs.toNat_spot hy] at hx'
  omega

theorem mem_spots (hx : x ∈ starts 0 bs) (start : UInt32) : spot start x ∈ spots start bs :=
  mem_map_of_mem hx

theorem Shape.spaced (hs : Shape h bs) : Spaced (h.freeList :: spots h.startAddr bs) := by
  have hblock : ∀ a ∈ spots h.startAddr bs, ∃ x ∈ starts 0 bs, a = spot h.startAddr x ∧
      a.toNat = h.startAddr.toNat + x ∧ x + 24 ≤ total bs := by
    intro a ha
    obtain ⟨x, hx, rfl⟩ := mem_map.1 ha
    have hx' := mem_starts_bounds hs.len hx
    exact ⟨x, hx, rfl, hs.toNat_spot hx, by omega⟩
  have hheader := hs.header
  intro a ha b hb hne
  rcases mem_cons.1 ha with rfl | ha <;> rcases mem_cons.1 hb with rfl | hb
  · exact absurd rfl hne
  · obtain ⟨x, -, -, hb', hx⟩ := hblock b hb
    omega
  · obtain ⟨x, -, -, ha', hx⟩ := hblock a ha
    omega
  · obtain ⟨x, hx, rfl, ha', -⟩ := hblock a ha
    obtain ⟨y, hy, rfl, hb', -⟩ := hblock b hb
    have hxy := starts_apart hs.len hx hy (by rintro rfl; exact hne rfl)
    omega

theorem Shape.freeList_notMem (hs : Shape h bs) : h.freeList ∉ spots h.startAddr bs := by
  intro hmem
  obtain ⟨x, hx, heq⟩ := mem_map.1 hmem
  have hx' := mem_starts_bounds hs.len hx
  have heq' := hs.toNat_spot hx
  have hheader := hs.header
  rw [heq] at heq'
  omega

theorem Shape.congr (hs : Shape h bs) (hf : SameFrame h h') : Shape h' bs := by
  obtain ⟨hlen, htotal, hbound, hheader, htail⟩ := hs
  exact ⟨hlen, by rw [hf.poolSize, htotal], by rwa [hf.startAddr],
    by rwa [hf.startAddr, hf.freeList], htail⟩

theorem Rep.isUsed_iff (hrep : h.Rep bs P) (hx : x ∈ offsets u 0 bs) :
    h.IsUsed (spot h.startAddr x) ↔ u = true := by
  rw [IsUsed, (hrep.tags u x hx).1]
  cases u <;> decide

/-! ### The free list -/

/-- The pointers between the blocks, and what else is not in the free list, have not changed. -/
theorem Rep.of_free {P' : ℕ → Prop} (hrep : h.Rep bs P) (hf : SameFrame h h')
    (hget : ∀ b ∈ spots h.startAddr bs, ∀ g, g ≠ .nextFree → g ≠ .prevFree → h'.get b g = h.get b g)
    (hfree : h'.FreeIs P') (hsub : ∀ x, P' x → x ∈ starts 0 bs) : h'.Rep bs P' := by
  refine ⟨hrep.shape.congr hf, ?_, ?_, hfree, hsub⟩
  · intro u x hx
    have hmem := mem_spots (mem_starts.2 ⟨u, hx⟩) h.startAddr
    rw [hf.startAddr, hf.addr, hget _ hmem .magic nofun nofun, hget _ hmem .poolPtr nofun nofun]
    exact hrep.tags u x hx
  · rw [hf.startAddr]
    exact hrep.ring.congr fun m hm =>
      ⟨hget m hm .next nofun nofun, hget m hm .prev nofun nofun⟩

theorem Rep.mem_items (hrep : h.Rep bs P) {fl : List ℕ} (hmem : ∀ x, x ∈ fl ↔ P x)
    (ha : a ∈ h.freeList :: fl.map (spot h.startAddr)) :
    a ∈ h.freeList :: spots h.startAddr bs := by
  rcases mem_cons.1 ha with rfl | ha
  · exact mem_cons_self
  · obtain ⟨x, hx, rfl⟩ := mem_map.1 ha
    exact mem_cons_of_mem _ (mem_spots (hrep.sub x ((hmem x).1 hx)) _)

theorem sameFrame_linkFree (h : Memheap) (a : UInt32) : SameFrame h (h.linkFree a) :=
  ⟨rfl, rfl, rfl, rfl⟩

theorem sameFrame_unlinkFree (h : Memheap) (a : UInt32) : SameFrame h (h.unlinkFree a) :=
  ⟨rfl, rfl, rfl, rfl⟩

theorem sameFrame_mergeNext (h : Memheap) (a : UInt32) : SameFrame h (h.mergeNext a) :=
  ⟨rfl, rfl, rfl, rfl⟩

section

variable (hrep : h.Rep bs P)
include hrep

/-- A block is **inserted into the free list**. -/
theorem Rep.linkFree (hx : x ∈ starts 0 bs) (hP : ¬ P x) :
    (h.linkFree (spot h.startAddr x)).Rep bs fun y => y = x ∨ P y := by
  have hS := hrep.shape.spaced
  obtain ⟨fl, hcirc, hmem⟩ := hrep.free
  obtain ⟨a, ha⟩ : ∃ a, a = spot h.startAddr x := ⟨_, rfl⟩
  have ha_mem : a ∈ spots h.startAddr bs := ha ▸ mem_spots hx _
  have hne : a ≠ h.freeList := by
    rintro rfl
    exact hrep.shape.freeList_notMem ha_mem
  have hnot : a ∉ h.freeList :: fl.map (spot h.startAddr) := by
    rw [mem_cons, not_or]
    refine ⟨hne, fun hmap => hP ?_⟩
    obtain ⟨y, hy, heq⟩ := mem_map.1 hmap
    rw [ha] at heq
    rw [← hrep.shape.spot_inj (hrep.sub y ((hmem y).1 hy)) hx heq]
    exact (hmem y).1 hy
  have hnext := hcirc.next_mem mem_cons_self
  have hnext_ne : h.get h.freeList .nextFree ≠ a := by
    intro heq
    rw [← heq] at hnot
    exact hnot hnext
  have hget : ∀ b ∈ h.freeList :: spots h.startAddr bs, ∀ g, _ := fun b hb g =>
    get_linkFree hS (mem_cons_of_mem _ ha_mem) mem_cons_self (hrep.mem_items hmem hnext) hne hb g
  rw [← ha]
  refine hrep.of_free (sameFrame_linkFree h a) ?_ ⟨x :: fl, ?_, ?_⟩ ?_
  · intro b hb g hg hg'
    rw [hget b (mem_cons_of_mem _ hb)]
    cases g <;> first | rfl | exact absurd rfl hg | exact absurd rfl hg'
  · have hnil : Circular h.freeLinks h.freeList ([] ++ fl.map (spot h.startAddr)) := hcirc
    have hins := hnil.insertAfter hnot
    rw [map_cons]
    change Circular _ h.freeList (spot h.startAddr x :: fl.map (spot h.startAddr))
    rw [← ha]
    refine hins.congr fun m hm => ?_
    have hm' : m ∈ h.freeList :: spots h.startAddr bs := by
      rcases mem_cons.1 hm with rfl | hm
      · exact mem_cons_self
      · rcases mem_cons.1 hm with rfl | hm
        · exact mem_cons_of_mem _ ha_mem
        · exact hrep.mem_items hmem (mem_cons_of_mem _ hm)
    rw [Links.next_insertAfter, Links.prev_insertAfter]
    simp only [freeLinks, hget m hm', Links.lastFrom]
    refine ⟨rfl, ?_⟩
    by_cases hma : m = a
    · rw [hma, if_neg (Ne.symm hnext_ne), if_pos rfl, if_pos rfl]
    · rw [if_neg hma, if_neg hma]
      rfl
  · intro y
    rw [mem_cons, hmem]
  · rintro y (rfl | hy)
    · exact hx
    · exact hrep.sub y hy

theorem Rep.writes_linkFree (hx : x ∈ starts 0 bs) :
    ItemWrites (h.freeList :: spots h.startAddr bs) h (h.linkFree (spot h.startAddr x)) := by
  obtain ⟨fl, hcirc, hmem⟩ := hrep.free
  have hx_mem := mem_spots hx h.startAddr
  refine itemWrites_linkFree hrep.shape.spaced (mem_cons_of_mem _ hx_mem) mem_cons_self
    (hrep.mem_items hmem (hcirc.next_mem mem_cons_self)) fun heq => ?_
  exact hrep.shape.freeList_notMem (heq ▸ hx_mem)

theorem Rep.freeLinks_mem (hP : P x) :
    h.get (spot h.startAddr x) .nextFree ∈ h.freeList :: spots h.startAddr bs ∧
      h.get (spot h.startAddr x) .prevFree ∈ h.freeList :: spots h.startAddr bs ∧
      h.get (spot h.startAddr x) .nextFree ≠ spot h.startAddr x := by
  obtain ⟨fl, hcirc, hmem⟩ := hrep.free
  have hx : spot h.startAddr x ∈ h.freeList :: fl.map (spot h.startAddr) :=
    mem_cons_of_mem _ (mem_map_of_mem ((hmem x).2 hP))
  refine ⟨hrep.mem_items hmem (hcirc.next_mem hx), hrep.mem_items hmem (hcirc.prev_mem hx), ?_⟩
  obtain ⟨fl₁, fl₂, rfl⟩ := append_of_mem ((hmem x).2 hP)
  rw [map_append, map_cons] at hcirc
  exact hcirc.next_ne

/-- A block is **removed from the free list**. -/
theorem Rep.unlinkFree (hP : P x) :
    (h.unlinkFree (spot h.startAddr x)).Rep bs fun y => P y ∧ y ≠ x := by
  have hS := hrep.shape.spaced
  obtain ⟨fl, hcirc, hmem⟩ := hrep.free
  obtain ⟨fl₁, fl₂, rfl⟩ := append_of_mem ((hmem x).2 hP)
  obtain ⟨a, ha⟩ : ∃ a, a = spot h.startAddr x := ⟨_, rfl⟩
  have ha_mem : a ∈ h.freeList :: (fl₁ ++ x :: fl₂).map (spot h.startAddr) := by simp [ha]
  have hcirc' : Circular h.freeLinks h.freeList
      (fl₁.map (spot h.startAddr) ++ a :: fl₂.map (spot h.startAddr)) := by simpa [ha] using hcirc
  obtain ⟨hnext, hprev, hne⟩ := hrep.freeLinks_mem hP
  rw [← ha] at hnext hprev hne
  have hget : ∀ b ∈ h.freeList :: spots h.startAddr bs, ∀ g, _ := fun b hb g =>
    get_unlinkFree hS (hrep.mem_items hmem ha_mem) hnext hprev hne hb g
  rw [← ha]
  refine hrep.of_free (sameFrame_unlinkFree h a) ?_ ⟨fl₁ ++ fl₂, ?_, ?_⟩ fun y hy => hrep.sub y hy.1
  · intro b hb g hg hg'
    rw [hget b (mem_cons_of_mem _ hb)]
    cases g <;> first | rfl | exact absurd rfl hg | exact absurd rfl hg'
  · rw [map_append]
    refine hcirc'.remove.congr fun m hm => ?_
    have hm' : m ∈ h.freeList :: (fl₁ ++ x :: fl₂).map (spot h.startAddr) := by
      simp only [mem_cons, mem_append, map_append, map_cons] at hm ⊢
      grind
    have hma : m ≠ a := by
      rintro rfl
      exact hcirc'.remove_notMem hm
    rw [Links.next_remove, Links.prev_remove, if_neg hma, if_neg hma]
    simp only [freeLinks, hget m (hrep.mem_items hmem hm')]
    exact ⟨rfl, rfl⟩
  · intro y
    have hnodup := (nodup_middle.1 (List.Nodup.of_map _ (nodup_cons.1 hcirc.nodup).2))
    change y ∈ fl₁ ++ fl₂ ↔ P y ∧ y ≠ x
    rw [← hmem, mem_append, mem_append, mem_cons]
    constructor
    · intro hy
      refine ⟨by grind, ?_⟩
      rintro rfl
      exact (nodup_cons.1 hnodup).1 (mem_append.2 hy)
    · grind

theorem Rep.writes_unlinkFree (hP : P x) :
    ItemWrites (h.freeList :: spots h.startAddr bs) h (h.unlinkFree (spot h.startAddr x)) := by
  obtain ⟨hnext, hprev, hne⟩ := hrep.freeLinks_mem hP
  exact itemWrites_unlinkFree hrep.shape.spaced
    (mem_cons_of_mem _ (mem_spots (hrep.sub x hP) _)) hnext hprev hne

theorem Rep.setFree (hx : x ∈ starts 0 bs) (hP : ¬ P x)
    (hf : f = .nextFree ∨ f = .prevFree) (v : UInt32) :
    (h.set (spot h.startAddr x) f v).Rep bs P := by
  have hS := hrep.shape.spaced
  have hx_mem := mem_cons_of_mem h.freeList (mem_spots hx h.startAddr)
  obtain ⟨fl, hcirc, hmem⟩ := hrep.free
  refine hrep.of_free (sameFrame_set h _ f v) ?_ ⟨fl, hcirc.congr ?_, hmem⟩ hrep.sub
  · intro b hb g hg hg'
    rw [get_set hS hx_mem (mem_cons_of_mem _ hb), if_neg]
    rintro rfl
    exact hf.elim hg hg'
  · intro m hm
    have hne : m ≠ spot h.startAddr x := by
      rintro rfl
      rcases mem_cons.1 hm with hm | hm
      · exact hrep.shape.freeList_notMem (hm ▸ mem_spots hx h.startAddr)
      · obtain ⟨y, hy, heq⟩ := mem_map.1 hm
        have hy' := (hmem y).1 hy
        exact hP (hrep.shape.spot_inj (hrep.sub y hy') hx heq ▸ hy')
    have hget : ∀ g, (h.set (spot h.startAddr x) f v).get m g = h.get m g := by
      intro g
      rw [get_set hS hx_mem (hrep.mem_items hmem hm), if_neg hne, ite_self]
    exact ⟨hget .nextFree, hget .prevFree⟩

theorem Rep.takeFree (hP : P x) :
    (h.takeFree (spot h.startAddr x)).Rep bs fun y => P y ∧ y ≠ x := by
  have hx := hrep.sub x hP
  have hnot : ¬ (P x ∧ x ≠ x) := fun hc => hc.2 rfl
  exact ((hrep.unlinkFree hP).setFree hx hnot (.inl rfl) 0).setFree hx hnot (.inr rfl) 0

theorem Rep.writes_takeFree (hP : P x) :
    ItemWrites (h.freeList :: spots h.startAddr bs) h (h.takeFree (spot h.startAddr x)) := by
  have hx := mem_cons_of_mem h.freeList (mem_spots (hrep.sub x hP) h.startAddr)
  exact ((hrep.writes_unlinkFree hP).trans (itemWrites_set hx _ _)).trans (itemWrites_set hx _ _)

theorem Rep.congr_free {Q : ℕ → Prop} (hPQ : ∀ x, P x ↔ Q x) : h.Rep bs Q := by
  obtain rfl : P = Q := funext fun x => propext (hPQ x)
  exact hrep

end

/-! ### The list of the blocks -/

variable {d : Block} {w : Bool}

theorem Shape.replace {t t' : List Block} (hs : Shape h (l ++ (t ++ d :: r)))
    (hlen : ∀ b ∈ t', 24 ≤ b.len) (htotal : Tiling.total t' = Tiling.total t) :
    Shape h (l ++ (t' ++ d :: r)) := by
  have heq : Tiling.total (l ++ (t' ++ d :: r)) = Tiling.total (l ++ (t ++ d :: r)) := by
    simp [htotal]
  refine ⟨?_, by rw [heq, hs.total_eq], by rw [heq]; exact hs.bound, by rw [heq]; exact hs.header,
    by rw [getLast?_middle, ← getLast?_middle l t, hs.tail]⟩
  intro b hb
  have hold := hs.len b
  simp only [mem_append] at hb hold
  rcases hb with hb | hb | hb
  · exact hold (.inl hb)
  · exact hlen b hb
  · exact hold (.inr (.inr hb))

theorem Rep.of_blocks {bs' : List Block} (hrep : h.Rep bs P) (hf : SameFrame h h')
    (hshape : Shape h bs')
    (htags : ∀ u, ∀ x ∈ offsets u 0 bs', h'.get (spot h.startAddr x) .magic = magicOf u ∧
      h'.get (spot h.startAddr x) .poolPtr = h.addr)
    (hring : Looped h'.blockLinks (spots h.startAddr bs'))
    (hget : ∀ b ∈ h.freeList :: spots h.startAddr bs,
      h'.get b .nextFree = h.get b .nextFree ∧ h'.get b .prevFree = h.get b .prevFree)
    (hsub : ∀ x, P x → x ∈ starts 0 bs') : h'.Rep bs' P := by
  obtain ⟨fl, hcirc, hmem⟩ := hrep.free
  refine ⟨hshape.congr hf, by rwa [hf.startAddr, hf.addr], by rwa [hf.startAddr], ⟨fl, ?_, hmem⟩,
    hsub⟩
  rw [hf.startAddr, hf.freeList]
  exact hcirc.congr fun m hm => hget m (hrep.mem_items hmem hm)

theorem spots_middle (start : UInt32) (l : List Block) (d : Block) (r : List Block) :
    spots start (l ++ d :: r) =
      spots start l ++ spot start (total l) :: (starts (total l + d.len) r).map (spot start) := by
  rw [spots, starts_middle, map_append, map_cons, spots]

theorem spots_two (start : UInt32) (l : List Block) (d e : Block) (r : List Block) :
    spots start (l ++ d :: e :: r) =
      spots start l ++ spot start (total l) :: spot start (total l + d.len) ::
        (starts (total l + d.len + e.len) r).map (spot start) := by
  rw [spots_middle, starts, map_cons]

theorem Rep.next_eq {e : Block} (hrep : h.Rep (l ++ d :: e :: r) P) :
    h.get (spot h.startAddr (total l)) .next = spot h.startAddr (total l + d.len) ∧
      h.get (spot h.startAddr (total l + d.len)) .prev = spot h.startAddr (total l) := by
  have hring := hrep.ring
  rw [spots_two] at hring
  exact hring.next_eq

theorem Shape.notMem_split (hs : Shape h (l ++ ⟨m + n, u⟩ :: r)) (hm : 0 < m) (hn : 0 < n) :
    total l + m ∉ starts 0 (l ++ ⟨m + n, u⟩ :: r) := by
  refine not_mem_starts_split (fun b hb => ?_) hm hn
  have hb' := hs.len b (by
    simp only [mem_append, mem_cons] at hb ⊢
    grind)
  omega

theorem Shape.pos (hs : Shape h bs) : ∀ b ∈ bs, 0 < b.len := fun b hb =>
  Nat.lt_of_lt_of_le (by decide) (hs.len b hb)

/-- The items of a block that is to be divided. -/
structure Divided (h : Memheap) (l : List Block) (m n : ℕ) (u : Bool) (d : Block) (r : List Block) :
    Prop where
  shape : Shape h (l ++ ⟨m, u⟩ :: ⟨n, false⟩ :: d :: r)
  old : ∀ b ∈ h.freeList :: spots h.startAddr (l ++ ⟨m + n, u⟩ :: d :: r),
    b ∈ h.freeList :: spots h.startAddr (l ++ ⟨m, u⟩ :: ⟨n, false⟩ :: d :: r)
  first : spot h.startAddr (total l) ∈
    h.freeList :: spots h.startAddr (l ++ ⟨m, u⟩ :: ⟨n, false⟩ :: d :: r)
  new : spot h.startAddr (total l + m) ∈
    h.freeList :: spots h.startAddr (l ++ ⟨m, u⟩ :: ⟨n, false⟩ :: d :: r)
  next : h.get (spot h.startAddr (total l)) .next ∈
    h.freeList :: spots h.startAddr (l ++ ⟨m, u⟩ :: ⟨n, false⟩ :: d :: r)
  -- the new block is at none of the addresses before
  fresh : ∀ x ∈ starts 0 (l ++ ⟨m + n, u⟩ :: d :: r),
    spot h.startAddr x ≠ spot h.startAddr (total l + m)
  next_ne : h.get (spot h.startAddr (total l)) .next ≠ spot h.startAddr (total l + m)
  first_ne : spot h.startAddr (total l) ≠ spot h.startAddr (total l + m)

section

variable (hrep : h.Rep (l ++ ⟨m + n, u⟩ :: d :: r) P) (hm : 24 ≤ m) (hn : 24 ≤ n)
include hrep hm hn

theorem Rep.divided : Divided h l m n u d r := by
  have hshape : Shape h (l ++ ([⟨m, u⟩, ⟨n, false⟩] ++ d :: r)) :=
    Shape.replace (t := [⟨m + n, u⟩]) hrep.shape (by simp [hm, hn]) (by simp)
  have hshape : Shape h (l ++ ⟨m, u⟩ :: ⟨n, false⟩ :: d :: r) := hshape
  have hmem : ∀ x, x ∈ starts 0 (l ++ ⟨m, u⟩ :: ⟨n, false⟩ :: d :: r) ↔ _ := fun x =>
    mem_starts_split
  have hold : ∀ b ∈ h.freeList :: spots h.startAddr (l ++ ⟨m + n, u⟩ :: d :: r),
      b ∈ h.freeList :: spots h.startAddr (l ++ ⟨m, u⟩ :: ⟨n, false⟩ :: d :: r) := by
    intro b hb
    rcases mem_cons.1 hb with rfl | hb
    · exact mem_cons_self
    · obtain ⟨x, hx, rfl⟩ := mem_map.1 hb
      exact mem_cons_of_mem _ (mem_spots ((hmem x).2 (.inl hx)) _)
  have hfirst : total l ∈ starts 0 (l ++ ⟨m + n, u⟩ :: d :: r) := by rw [starts_middle]; simp
  have hnew := hrep.shape.notMem_split (by omega) (by omega)
  have hnew_mem : total l + m ∈ starts 0 (l ++ ⟨m, u⟩ :: ⟨n, false⟩ :: d :: r) :=
    (hmem _).2 (.inr rfl)
  have hfresh : ∀ x ∈ starts 0 (l ++ ⟨m + n, u⟩ :: d :: r),
      spot h.startAddr x ≠ spot h.startAddr (total l + m) := by
    intro x hx heq
    exact hnew (hshape.spot_inj ((hmem x).2 (.inl hx)) hnew_mem heq ▸ hx)
  have hnext := hrep.next_eq.1
  have hnext_mem : total l + (m + n) ∈ starts 0 (l ++ ⟨m + n, u⟩ :: d :: r) := by
    rw [starts_middle, starts]
    simp
  have hnext_new := hfresh _ hnext_mem
  simp only at hnext
  rw [← hnext] at hnext_new
  exact ⟨hshape, hold, hold _ (mem_cons_of_mem _ (mem_spots hfirst _)),
    mem_cons_of_mem _ (mem_spots hnew_mem _),
    hnext ▸ hold _ (mem_cons_of_mem _ (mem_spots hnext_mem _)), hfresh, hnext_new,
    hfresh _ hfirst⟩

/-- **A block is made** inside of another one. -/
theorem Rep.makeBlock :
    (h.makeBlock (spot h.startAddr (total l)) (spot h.startAddr (total l + m))).Rep
      (l ++ ⟨m, u⟩ :: ⟨n, false⟩ :: d :: r) P := by
  have hdiv := hrep.divided hm hn
  have hfresh := hdiv.fresh
  have hget : ∀ b ∈ h.freeList :: spots h.startAddr (l ++ ⟨m, u⟩ :: ⟨n, false⟩ :: d :: r), ∀ g, _ :=
    fun b hb g =>
      get_makeBlock hdiv.shape.spaced hdiv.first hdiv.new hdiv.next hdiv.first_ne hb g
  refine hrep.of_blocks ⟨rfl, rfl, rfl, rfl⟩ hdiv.shape ?_ ?_ ?_ ?_
  · intro v x hx
    have hx_mem := mem_cons_of_mem h.freeList (mem_spots (mem_starts.2 ⟨v, hx⟩) h.startAddr)
    have hmagic := hget _ hx_mem .magic
    have hpool := hget _ hx_mem .poolPtr
    rcases mem_offsets_split.1 hx with hx | ⟨rfl, rfl⟩
    · have hne := hfresh x (mem_starts.2 ⟨v, hx⟩)
      simp only [if_neg hne] at hmagic hpool
      rw [hmagic, hpool]
      exact hrep.tags v x hx
    · exact ⟨hmagic.trans (if_pos rfl), hpool.trans (if_pos rfl)⟩
  · -- the new block is inserted behind the old one
    have hring := hrep.ring
    rw [spots_middle] at hring
    have hinserted := hring.insertAfter (n := spot h.startAddr (total l + m)) fun hc => by
      rw [← spots_middle] at hc
      obtain ⟨x, hx, heq⟩ := mem_map.1 hc
      exact hfresh x hx heq
    rw [spots_two, Nat.add_assoc]
    refine hinserted.congr fun b hb => ?_
    have hb' : b ∈ h.freeList :: spots h.startAddr (l ++ ⟨m, u⟩ :: ⟨n, false⟩ :: d :: r) := by
      rw [spots_two, Nat.add_assoc]
      exact mem_cons_of_mem _ hb
    rw [Links.next_insertAfter, Links.prev_insertAfter]
    simp only [blockLinks, hget b hb', true_and]
    by_cases hbc : b = spot h.startAddr (total l + m)
    · rw [hbc, if_neg (Ne.symm hdiv.next_ne), if_pos rfl, if_pos rfl]
    · rw [if_neg hbc, if_neg hbc]
      rfl
  · exact fun b hb => ⟨hget b (hdiv.old b hb) .nextFree, hget b (hdiv.old b hb) .prevFree⟩
  · exact fun x hx => mem_starts_split.2 (.inl (hrep.sub x hx))

theorem Rep.writes_makeBlock :
    ItemWrites (h.freeList :: spots h.startAddr (l ++ ⟨m, u⟩ :: ⟨n, false⟩ :: d :: r)) h
      (h.makeBlock (spot h.startAddr (total l)) (spot h.startAddr (total l + m))) := by
  have hdiv := hrep.divided hm hn
  exact itemWrites_makeBlock hdiv.shape.spaced hdiv.first hdiv.new hdiv.next hdiv.first_ne

end

/-- **A block is dropped**, and belongs to the block before it from then on. -/
theorem Rep.dropBlock (hrep : h.Rep (l ++ ⟨m, u⟩ :: ⟨n, w⟩ :: d :: r) P) (hf : SameFrame h h')
    (hP : ¬ P (total l + m))
    (hget : ∀ b ∈ h.freeList :: spots h.startAddr (l ++ ⟨m, u⟩ :: ⟨n, w⟩ :: d :: r), ∀ g,
      h'.get b g = match g with
        | .next =>
          if b = spot h.startAddr (total l) then spot h.startAddr (total l + m + n)
          else h.get b .next
        | .prev =>
          if b = spot h.startAddr (total l + m + n) then spot h.startAddr (total l)
          else h.get b .prev
        | g => h.get b g) :
    h'.Rep (l ++ ⟨m + n, u⟩ :: d :: r) P := by
  have hm : 24 ≤ m := hrep.shape.len ⟨m, u⟩ (by simp)
  have hshape : Shape h (l ++ ([⟨m + n, u⟩] ++ d :: r)) :=
    Shape.replace (t := [⟨m, u⟩, ⟨n, w⟩]) hrep.shape (by simp; omega) (by simp)
  have hold : ∀ x ∈ starts 0 (l ++ ⟨m + n, u⟩ :: d :: r),
      spot h.startAddr x ∈
        h.freeList :: spots h.startAddr (l ++ ⟨m, u⟩ :: ⟨n, w⟩ :: d :: r) := fun x hx =>
    mem_cons_of_mem _ (mem_spots (mem_starts_split.2 (.inl hx)) _)
  refine hrep.of_blocks hf hshape ?_ ?_ ?_ ?_
  · intro v x hx
    have hx_mem := hold x (mem_starts.2 ⟨v, hx⟩)
    rw [hget _ hx_mem .magic, hget _ hx_mem .poolPtr]
    exact hrep.tags v x (mem_offsets_split.2 (.inl hx))
  · have hring := hrep.ring
    have hnext := hrep.next_eq
    have hrep' : h.Rep ((l ++ [⟨m, u⟩]) ++ ⟨n, w⟩ :: d :: r) P := by simpa using hrep
    have hnext' := hrep'.next_eq
    simp only [total_append, total_cons, total_nil, Nat.add_zero] at hnext hnext'
    rw [spots_two] at hring
    have hnot := (nodup_cons.1 (nodup_middle.1 (append_cons _ _ _ ▸ hring.nodup))).1
    rw [spots_middle]
    rw [← Nat.add_assoc]
    refine hring.remove.congr fun b hb => ?_
    have hb' : b ∈ h.freeList :: spots h.startAddr (l ++ ⟨m, u⟩ :: ⟨n, w⟩ :: d :: r) := by
      rw [spots_two]
      simp only [mem_cons, mem_append] at hb ⊢
      grind
    have hne : b ≠ spot h.startAddr (total l + m) := by
      rintro rfl
      exact hnot (by simpa using hb)
    rw [Links.next_remove, Links.prev_remove, if_neg hne, if_neg hne]
    simp only [blockLinks, hget b hb', hnext.2, hnext'.1, true_and]
  · intro b hb
    exact ⟨hget b hb .nextFree, hget b hb .prevFree⟩
  · intro x hx
    refine (mem_starts_split.1 (hrep.sub x hx)).resolve_right ?_
    rintro rfl
    exact hP hx

theorem mem_spots_three (h : Memheap) (l : List Block) (m n : ℕ) (u w : Bool) (d : Block)
    (r : List Block) :
    spot h.startAddr (total l) ∈
        h.freeList :: spots h.startAddr (l ++ ⟨m, u⟩ :: ⟨n, w⟩ :: d :: r) ∧
      spot h.startAddr (total l + m) ∈
        h.freeList :: spots h.startAddr (l ++ ⟨m, u⟩ :: ⟨n, w⟩ :: d :: r) ∧
      spot h.startAddr (total l + m + n) ∈
        h.freeList :: spots h.startAddr (l ++ ⟨m, u⟩ :: ⟨n, w⟩ :: d :: r) := by
  rw [spots_two, starts, map_cons]
  simp

theorem Rep.ne_three (hrep : h.Rep (l ++ ⟨m, u⟩ :: ⟨n, w⟩ :: d :: r) P) :
    spot h.startAddr (total l + m) ≠ spot h.startAddr (total l) ∧
      spot h.startAddr (total l + m) ≠ spot h.startAddr (total l + m + n) := by
  have hnodup := hrep.ring.nodup
  rw [spots_two, starts, map_cons] at hnodup
  have htail := hnodup.of_append_right
  simp only [nodup_cons, mem_cons, not_or] at htail
  exact ⟨Ne.symm htail.1.1, htail.2.1.1⟩

theorem Rep.next_three (hrep : h.Rep (l ++ ⟨m, u⟩ :: ⟨n, w⟩ :: d :: r) P) :
    h.get (spot h.startAddr (total l)) .next = spot h.startAddr (total l + m) ∧
      h.get (spot h.startAddr (total l + m)) .prev = spot h.startAddr (total l) ∧
      h.get (spot h.startAddr (total l + m)) .next = spot h.startAddr (total l + m + n) := by
  have hrep' : h.Rep ((l ++ [⟨m, u⟩]) ++ ⟨n, w⟩ :: d :: r) P := by simpa using hrep
  have hnext := hrep.next_eq
  have hnext' := hrep'.next_eq
  simp only [total_append, total_cons, total_nil, Nat.add_zero] at hnext hnext'
  exact ⟨hnext.1, hnext.2, hnext'.1⟩

theorem sameFrame_bypassBlock (h : Memheap) (a : UInt32) : SameFrame h (h.bypassBlock a) :=
  ⟨rfl, rfl, rfl, rfl⟩

theorem sameFrame_removeBlock (h : Memheap) (a : UInt32) : SameFrame h (h.removeBlock a) :=
  ⟨rfl, rfl, rfl, rfl⟩

section

variable (hrep : h.Rep (l ++ ⟨m, u⟩ :: ⟨n, w⟩ :: d :: r) P)
include hrep

theorem Rep.bypassBlock_eq :
    h.bypassBlock (spot h.startAddr (total l + m)) =
      (h.set (spot h.startAddr (total l)) .next (spot h.startAddr (total l + m + n))).set
        (spot h.startAddr (total l + m + n)) .prev (spot h.startAddr (total l)) := by
  have hS := hrep.shape.spaced
  obtain ⟨-, hprev, hnext⟩ := hrep.next_three
  obtain ⟨ha, hc, -⟩ := mem_spots_three h l m n u w d r
  obtain ⟨hca, -⟩ := hrep.ne_three
  obtain ⟨h₁, hh₁⟩ : ∃ h₁, h₁ =
      h.set (spot h.startAddr (total l)) .next (spot h.startAddr (total l + m + n)) := ⟨_, rfl⟩
  have hnext₁ : h₁.get (spot h.startAddr (total l + m)) .next =
      spot h.startAddr (total l + m + n) := by
    rw [hh₁, get_set hS ha hc, if_pos rfl, if_neg hca, hnext]
  have hprev₁ : h₁.get (spot h.startAddr (total l + m)) .prev = spot h.startAddr (total l) := by
    rw [hh₁, get_set hS ha hc, if_neg nofun, hprev]
  simp only [Memheap.bypassBlock, hprev, hnext]
  rw [← hh₁, hnext₁, hprev₁]

theorem Rep.bypassBlock (hP : ¬ P (total l + m)) :
    (h.bypassBlock (spot h.startAddr (total l + m))).Rep (l ++ ⟨m + n, u⟩ :: d :: r) P ∧
      (h.bypassBlock (spot h.startAddr (total l + m))).get (spot h.startAddr (total l + m)) .prev =
        spot h.startAddr (total l) := by
  have hS := hrep.shape.spaced
  obtain ⟨ha, hc, hq⟩ := mem_spots_three h l m n u w d r
  obtain ⟨-, hcq⟩ := hrep.ne_three
  refine ⟨hrep.dropBlock (sameFrame_bypassBlock h _) hP fun b hb g => ?_, ?_⟩
  · rw [hrep.bypassBlock_eq, get_set hS hq hb, get_set hS ha hb]
    cases g <;> simp only [reduceCtorEq, if_true, if_false]
  · rw [hrep.bypassBlock_eq, get_set hS hq hc, if_pos rfl, if_neg hcq, get_set hS ha hc,
      if_neg nofun, hrep.next_three.2.1]

theorem Rep.writes_bypassBlock :
    ItemWrites (h.freeList :: spots h.startAddr (l ++ ⟨m, u⟩ :: ⟨n, w⟩ :: d :: r)) h
      (h.bypassBlock (spot h.startAddr (total l + m))) := by
  obtain ⟨ha, -, hq⟩ := mem_spots_three h l m n u w d r
  rw [hrep.bypassBlock_eq]
  exact (itemWrites_set ha _ _).trans (itemWrites_set hq _ _)

theorem Rep.removeBlock_eq :
    h.removeBlock (spot h.startAddr (total l + m)) =
      (h.set (spot h.startAddr (total l + m + n)) .prev (spot h.startAddr (total l))).set
        (spot h.startAddr (total l)) .next (spot h.startAddr (total l + m + n)) := by
  have hS := hrep.shape.spaced
  obtain ⟨-, hprev, hnext⟩ := hrep.next_three
  obtain ⟨-, hc, hq⟩ := mem_spots_three h l m n u w d r
  obtain ⟨-, hcq⟩ := hrep.ne_three
  obtain ⟨h₁, hh₁⟩ : ∃ h₁, h₁ =
      h.set (spot h.startAddr (total l + m + n)) .prev (spot h.startAddr (total l)) := ⟨_, rfl⟩
  have hnext₁ : h₁.get (spot h.startAddr (total l + m)) .next =
      spot h.startAddr (total l + m + n) := by
    rw [hh₁, get_set hS hq hc, if_neg nofun, hnext]
  have hprev₁ : h₁.get (spot h.startAddr (total l + m)) .prev = spot h.startAddr (total l) := by
    rw [hh₁, get_set hS hq hc, if_pos rfl, if_neg hcq, hprev]
  simp only [Memheap.removeBlock, hprev, hnext]
  rw [← hh₁, hnext₁, hprev₁]

theorem Rep.removeBlock (hP : ¬ P (total l + m)) :
    (h.removeBlock (spot h.startAddr (total l + m))).Rep (l ++ ⟨m + n, u⟩ :: d :: r) P := by
  have hS := hrep.shape.spaced
  obtain ⟨ha, -, hq⟩ := mem_spots_three h l m n u w d r
  refine hrep.dropBlock (sameFrame_removeBlock h _) hP fun b hb g => ?_
  rw [hrep.removeBlock_eq, get_set hS ha hb, get_set hS hq hb]
  cases g <;> simp only [reduceCtorEq, if_true, if_false]

theorem Rep.writes_removeBlock :
    ItemWrites (h.freeList :: spots h.startAddr (l ++ ⟨m, u⟩ :: ⟨n, w⟩ :: d :: r)) h
      (h.removeBlock (spot h.startAddr (total l + m))) := by
  obtain ⟨ha, -, hq⟩ := mem_spots_three h l m n u w d r
  rw [hrep.removeBlock_eq]
  exact (itemWrites_set hq _ _).trans (itemWrites_set ha _ _)

end

/-- **A block takes in the free block behind it.** -/
theorem Rep.mergeNext (hrep : h.Rep (l ++ ⟨m, u⟩ :: ⟨n, false⟩ :: d :: r) P)
    (hP : P (total l + m)) :
    (h.mergeNext (spot h.startAddr (total l))).Rep (l ++ ⟨m + n, u⟩ :: d :: r)
      fun y => P y ∧ y ≠ total l + m := by
  have hS := hrep.shape.spaced
  have hunlinked := hrep.unlinkFree hP
  obtain ⟨hn, hp, hne⟩ := hrep.freeLinks_mem hP
  obtain ⟨hnext, -, hnext'⟩ := hrep.next_three
  obtain ⟨ha, hc, hq⟩ := mem_spots_three h l m n u false d r
  have hframe : SameFrame (h.unlinkFree (spot h.startAddr (total l + m)))
      (h.mergeNext (spot h.startAddr (total l))) :=
    (sameFrame_unlinkFree h _).symm.trans (sameFrame_mergeNext h _)
  refine hunlinked.dropBlock hframe (fun hc => hc.2 rfl) fun b hb g => ?_
  have hb' : b ∈ h.freeList :: spots h.startAddr (l ++ ⟨m, u⟩ :: ⟨n, false⟩ :: d :: r) := hb
  have hget := fun g => get_unlinkFree hS hc hn hp hne hb' g
  rw [get_mergeNext hS ha hnext hc (hnext'.symm ▸ hq) hn hp hne hb', hnext']
  cases g <;> simp only [hget, (sameFrame_unlinkFree h _).startAddr]

theorem Rep.writes_mergeNext
    (hrep : h.Rep (l ++ ⟨m, u⟩ :: ⟨n, false⟩ :: d :: r) P) (hP : P (total l + m)) :
    ItemWrites (h.freeList :: spots h.startAddr (l ++ ⟨m, u⟩ :: ⟨n, false⟩ :: d :: r)) h
      (h.mergeNext (spot h.startAddr (total l))) := by
  obtain ⟨hn, hp, hne⟩ := hrep.freeLinks_mem hP
  obtain ⟨hnext, -, hnext'⟩ := hrep.next_three
  obtain ⟨ha, hc, hq⟩ := mem_spots_three h l m n u false d r
  exact itemWrites_mergeNext hrep.shape.spaced ha hnext hc (hnext'.symm ▸ hq) hn hp hne

/-- **A block is marked** as used or as free. -/
theorem Rep.setMagic (hrep : h.Rep (l ++ ⟨n, u⟩ :: d :: r) P) (v : Bool) :
    (h.set (spot h.startAddr (total l)) .magic (magicOf v)).Rep (l ++ ⟨n, v⟩ :: d :: r) P := by
  have hS := hrep.shape.spaced
  have hshape : Shape h (l ++ ([⟨n, v⟩] ++ d :: r)) :=
    Shape.replace (t := [⟨n, u⟩]) hrep.shape (by simpa using hrep.shape.len ⟨n, u⟩ (by simp)) rfl
  have hstarts : starts 0 (l ++ ⟨n, v⟩ :: d :: r) = starts 0 (l ++ ⟨n, u⟩ :: d :: r) := by
    rw [starts_middle, starts_middle]
  have hself : total l ∈ starts 0 (l ++ ⟨n, u⟩ :: d :: r) := by
    rw [starts_middle]
    simp
  have hget : ∀ b ∈ h.freeList :: spots h.startAddr (l ++ ⟨n, u⟩ :: d :: r), ∀ g, _ :=
    fun b hb g => get_set (h := h) hS (mem_cons_of_mem _ (mem_spots hself h.startAddr)) hb
      .magic g (magicOf v)
  refine hrep.of_blocks (sameFrame_set h _ _ _) hshape ?_ ?_ ?_ ?_
  · intro w x hx
    have hx_start : x ∈ starts 0 (l ++ ⟨n, u⟩ :: d :: r) := hstarts ▸ mem_starts.2 ⟨w, hx⟩
    have hx_mem := mem_cons_of_mem h.freeList (mem_spots hx_start h.startAddr)
    have hmagic := hget _ hx_mem .magic
    have hpool := hget _ hx_mem .poolPtr
    simp only [reduceCtorEq, if_true, if_false] at hmagic hpool
    rw [hmagic, hpool]
    by_cases hxl : x = total l
    · -- the other blocks are not at this offset
      have hvw : v = w := by
        by_contra hne
        rw [hxl] at hx
        refine not_mem_offsets_middle (fun b hb => ?_) hne hx
        have hb' := hshape.len b hb
        omega
      have hold : total l ∈ offsets u 0 (l ++ ⟨n, u⟩ :: d :: r) := by
        simpa using mem_offsets_middle 0 l n u (d :: r)
      rw [hxl, if_pos rfl, hvw]
      exact ⟨rfl, (hrep.tags u _ hold).2⟩
    · rw [if_neg fun heq => hxl (hrep.shape.spot_inj hx_start hself heq)]
      apply hrep.tags w x
      rw [mem_offsets_middle_iff] at hx ⊢
      rcases hx with hx | ⟨-, hx⟩ | hx
      · exact .inl hx
      · exact absurd hx hxl
      · exact .inr (.inr hx)
  · have hring := hrep.ring
    rw [spots, hstarts]
    exact hring.congr fun b hb => ⟨hget b (mem_cons_of_mem _ hb) .next,
      hget b (mem_cons_of_mem _ hb) .prev⟩
  · exact fun b hb => ⟨hget b hb .nextFree, hget b hb .prevFree⟩
  · exact fun x hx => hstarts ▸ hrep.sub x hx

theorem Rep.congr (hrep : h.Rep bs P) (hf : SameFrame h h')
    (hget : ∀ b ∈ h.freeList :: spots h.startAddr bs, ∀ g, h'.get b g = h.get b g) :
    h'.Rep bs P := by
  refine hrep.of_blocks hf hrep.shape ?_ ?_ (fun b hb => ⟨hget b hb _, hget b hb _⟩) hrep.sub
  · intro u x hx
    have hx_mem := mem_cons_of_mem h.freeList (mem_spots (mem_starts.2 ⟨u, hx⟩) h.startAddr)
    rw [hget _ hx_mem, hget _ hx_mem]
    exact hrep.tags u x hx
  · exact hrep.ring.congr fun b hb => ⟨hget b (mem_cons_of_mem _ hb) .next,
      hget b (mem_cons_of_mem _ hb) .prev⟩

/-- The bytes of the region and of the `free_header` have not changed. -/
theorem Rep.congr_ram (hrep : h.Rep bs P) (hf : SameFrame h h')
    (hram : ∀ y, h.freeList.toNat ≤ y ∧ y < h.freeList.toNat + 24 ∨
      h.startAddr.toNat ≤ y ∧ y < h.startAddr.toNat + h.poolSize.toNat → h'.ram y = h.ram y) :
    h'.Rep bs P := by
  refine hrep.congr hf fun b hb g => get_congr (fun y hle hlt => hram y ?_) g
  rcases mem_cons.1 hb with rfl | hb
  · exact .inl ⟨hle, hlt⟩
  · obtain ⟨x, hx, rfl⟩ := mem_map.1 hb
    have hx' := mem_starts_bounds hrep.shape.len hx
    have htotal := hrep.shape.total_eq
    rw [hrep.shape.toNat_spot hx] at hle hlt
    omega

theorem Shape.payload_apart (hs : Shape h bs) {y : ℕ} (hx : (x, n) ∈ usedRuns 0 bs)
    (hle : h.startAddr.toNat + x + 24 ≤ y) (hlt : y < h.startAddr.toNat + x + n) :
    ∀ a ∈ h.freeList :: spots h.startAddr bs, y < a.toNat ∨ a.toNat + 24 ≤ y := by
  intro a ha
  rcases mem_cons.1 ha with rfl | ha
  · have hheader := hs.header
    have hend := usedRuns_le_total hx
    omega
  · obtain ⟨z, hz, rfl⟩ := mem_map.1 ha
    rw [hs.toNat_spot hz]
    by_cases hzx : z = x
    · omega
    · have happ := starts_apart hs.len hz (mem_starts_of_mem_usedRuns hx) hzx
      have hrun := usedRuns_apart hx hz
      omega

/-- What is outside of the region and of the `free_header` is apart from the items. -/
theorem Shape.outside_apart (hs : Shape h bs) {y : ℕ}
    (hregion : y < h.startAddr.toNat ∨ h.startAddr.toNat + h.poolSize.toNat ≤ y)
    (hheader : y < h.freeList.toNat ∨ h.freeList.toNat + 24 ≤ y) :
    ∀ a ∈ h.freeList :: spots h.startAddr bs, y < a.toNat ∨ a.toNat + 24 ≤ y := by
  intro a ha
  rcases mem_cons.1 ha with rfl | ha
  · exact hheader
  · obtain ⟨z, hz, rfl⟩ := mem_map.1 ha
    have hz' := mem_starts_bounds hs.len hz
    have htotal := hs.total_eq
    rw [hs.toNat_spot hz]
    omega

theorem Rep.writeBlock (hrep : h.Rep (l ++ d :: r) P) (hf : SameFrame h h')
    (hram : ∀ y, y < h.startAddr.toNat + total l + 24 ∨ h.startAddr.toNat + total l + d.len ≤ y →
      h'.ram y = h.ram y) : h'.Rep (l ++ d :: r) P := by
  have hlen := hrep.shape.len
  have hbound := hrep.shape.bound
  have hheader := hrep.shape.header
  simp only [total_append, total_cons] at hbound hheader
  have hd := hlen d (by simp)
  refine hrep.congr hf fun b hb g => get_congr (fun y hle hlt => hram y ?_) g
  rcases mem_cons.1 hb with rfl | hb
  · omega
  · obtain ⟨x, hx, rfl⟩ := mem_map.1 hb
    rw [hrep.shape.toNat_spot hx] at hle hlt
    rw [starts_middle, mem_append, mem_cons] at hx
    rcases hx with hx | rfl | hx
    · have hx' := mem_starts_bounds (fun b hb => hlen b (by simp [hb])) hx
      omega
    · omega
    · have hx' := mem_starts_bounds (fun b hb => hlen b (by simp [hb])) hx
      omega

theorem Rep.toNat_spots {e : Block} (hrep : h.Rep (l ++ d :: e :: r) P) :
    (spot h.startAddr (total l)).toNat = h.startAddr.toNat + total l ∧
      (spot h.startAddr (total l + d.len)).toNat = h.startAddr.toNat + (total l + d.len) := by
  have hself : total l ∈ starts 0 (l ++ d :: e :: r) := by
    rw [starts_middle]
    simp
  have hnext : total l + d.len ∈ starts 0 (l ++ d :: e :: r) := by
    rw [starts_middle, starts]
    simp
  exact ⟨hrep.shape.toNat_spot hself, hrep.shape.toNat_spot hnext⟩

theorem Rep.memitemSize {e : Block} (hrep : h.Rep (l ++ d :: e :: r) P) :
    (h.memitemSize (spot h.startAddr (total l))).toNat = d.len - 24 := by
  have hsize : memheapSize.toNat = 24 := rfl
  have hd := hrep.shape.len d (by simp)
  have hbound := hrep.shape.bound
  obtain ⟨hself, hnext⟩ := hrep.toNat_spots
  simp only [total_append, total_cons] at hbound
  rw [Memheap.memitemSize, hrep.next_eq.1, UInt32.toNat_sub, UInt32.toNat_sub, hself, hnext, hsize]
  omega

theorem Rep.isUsed_prev {e : Block} (hrep : h.Rep (d :: e :: r) P) :
    h.IsUsed (h.get (spot h.startAddr 0) .prev) := by
  obtain ⟨body, hbody⟩ := getLast?_eq_some_iff.1 hrep.shape.tail
  cases body with
  | nil => simp at hbody
  | cons d' body =>
    rw [hbody] at hrep
    have hring := hrep.ring
    have hfirst : spots h.startAddr (d' :: body) = spot h.startAddr 0 ::
        (starts (0 + d'.len) body).map (spot h.startAddr) := rfl
    rw [spots_middle, hfirst, starts, map_nil, cons_append] at hring
    have hprev : h.get (spot h.startAddr 0) .prev = spot h.startAddr (total (d' :: body)) :=
      hring.next_last.2
    rw [hprev, hrep.isUsed_iff (u := true)]
    simpa using mem_offsets_middle 0 (d' :: body) 24 true []

end Memheap

end RtThread
