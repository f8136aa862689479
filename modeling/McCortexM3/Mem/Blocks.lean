import McCortexM3.Mem.Heap
import McCortexM3.Tiling

/-!
# The blocks of the heap in memory

The memory between `heap_ptr` and `heap_end` holds a list of blocks, each beginning with its
`struct heap_mem`, with `heap_end` behind the last one.

## Main definitions

* `Header` — a `struct heap_mem` in memory.
* `Seg` — a list of blocks, each linked to the next one and to the one before.
* `Heap.Rep h bs` — the heap `h` holds the blocks `bs`.
* `Heap.HeaderWrites h h' bs` — nothing has been written but the headers of the blocks.

## Main results

* `Heap.Rep.replace` — some blocks are replaced by others of the same length.
* `Heap.Rep.congr` — the contents of the blocks may change.
-/

set_option linter.all false

namespace RtThread

open List Nat ByteMemory Tiling

/-- A `struct heap_mem` at the address `a`. -/
structure Header (ram : ℕ → UInt8) (a : ℕ) (used : Bool) (next prev : ℕ) : Prop where
  magic : load ram a 2 = heapMagic.toNat
  used : load ram (a + 2) 2 = used.toNat
  next : load ram (a + 4) 4 = next
  prev : load ram (a + 8) 4 = prev

/-- The blocks `bs` from the offset `o` on, the block before them being at `p`. -/
def Seg (ram : ℕ → UInt8) (base : ℕ) : ℕ → ℕ → List Block → Prop
  | _, _, [] => True
  | p, o, b :: bs => Header ram (base + o) b.used (o + b.len) p ∧ Seg ram base o (o + b.len) bs

variable {ram ram' : ℕ → UInt8} {base a p o n : ℕ} {u : Bool} {bs l r : List Block} {b : Block}

theorem Header.congr (h : Header ram a u n p) (hram : ∀ x, a ≤ x → x < a + 12 → ram' x = ram x) :
    Header ram' a u n p := by
  refine ⟨?_, ?_, ?_, ?_⟩
  · rw [load_congr fun x hle hlt => hram x (by omega) (by omega)]
    exact h.magic
  · rw [load_congr fun x hle hlt => hram x (by omega) (by omega)]
    exact h.used
  · rw [load_congr fun x hle hlt => hram x (by omega) (by omega)]
    exact h.next
  · rw [load_congr fun x hle hlt => hram x (by omega) (by omega)]
    exact h.prev

theorem seg_append :
    Seg ram base p o (l ++ r) ↔
      Seg ram base p o l ∧ Seg ram base (lastOffset p o l) (o + total l) r := by
  induction l generalizing p o with
  | nil => simp [Seg]
  | cons b l ih =>
    rw [cons_append, Seg, Seg, ih, and_assoc, lastOffset_cons, total_cons, Nat.add_assoc]

theorem Seg.congr (h : Seg ram base p o bs)
    (hram : ∀ u, ∀ y ∈ offsets u o bs, ∀ x, base + y ≤ x → x < base + y + 12 → ram' x = ram x) :
    Seg ram' base p o bs := by
  induction bs generalizing p o with
  | nil => trivial
  | cons b bs ih =>
    obtain ⟨hb, hbs⟩ := h
    refine ⟨hb.congr fun x => hram b.used o (mem_offsets_cons.2 (.inl ⟨rfl, rfl⟩)) x, ih hbs ?_⟩
    exact fun u y hy => hram u y (mem_offsets_cons.2 (.inr hy))

theorem Seg.congr_interval (h : Seg ram base p o bs) (hlen : ∀ b ∈ bs, 12 ≤ b.len)
    (hram : ∀ x, base + o ≤ x → x < base + o + total bs → ram' x = ram x) :
    Seg ram' base p o bs := by
  apply h.congr
  intro u y hy x hle hlt
  have hy := mem_offsets_bounds hlen hy
  exact hram x (by omega) (by omega)

theorem Seg.relink (h : Seg ram base p o bs) (hlen : ∀ b ∈ bs, 12 ≤ b.len) (p' : ℕ)
    (hram : ∀ x, base + o ≤ x → x < base + o + 8 ∨ base + o + 12 ≤ x → ram' x = ram x)
    (hp : bs ≠ [] → load ram' (base + o + 8) 4 = p') : Seg ram' base p' o bs := by
  cases bs with
  | nil => trivial
  | cons b bs =>
    obtain ⟨hb, hbs⟩ := h
    have hblen := hlen b mem_cons_self
    refine ⟨⟨?_, ?_, ?_, hp (cons_ne_nil b bs)⟩, hbs.congr_interval
      (fun c hc => hlen c (mem_cons_of_mem b hc)) fun x hle _ => hram x (by omega) (by omega)⟩
    · rw [load_congr fun x hle hlt => hram x (by omega) (by omega)]
      exact hb.magic
    · rw [load_congr fun x hle hlt => hram x (by omega) (by omega)]
      exact hb.used
    · rw [load_congr fun x hle hlt => hram x (by omega) (by omega)]
      exact hb.next

namespace Heap

variable {h h' : Heap} {mem ptr v : UInt32}

/-- The heap holds the blocks `bs`. -/
structure Rep (h : Heap) (bs : List Block) : Prop where
  len : ∀ b ∈ bs, 12 ≤ b.len
  total_eq : total bs = h.memSizeAligned.toNat + 12
  heapEnd : h.heapEnd.toNat = h.heapPtr.toNat + total bs
  bound : h.heapPtr.toNat + total bs + 12 < 2 ^ 32
  seg : Seg h.ram h.heapPtr.toNat 0 0 bs
  endUsed : load h.ram (h.heapPtr.toNat + total bs + 2) 2 = 1
  endNext : load h.ram (h.heapPtr.toNat + total bs + 4) 4 = total bs

/-- The variables that a heap is represented with have not changed. -/
structure SameFrame (h h' : Heap) : Prop where
  heapPtr : h'.heapPtr = h.heapPtr
  heapEnd : h'.heapEnd = h.heapEnd
  memSizeAligned : h'.memSizeAligned = h.memSizeAligned

/-- Nothing but headers of the blocks `bs` and of `heap_end` has been written. -/
def HeaderWrites (h h' : Heap) (bs : List Block) : Prop :=
  ∀ x, (∀ y, y ∈ starts 0 bs ∨ y = total bs →
    x < h.heapPtr.toNat + y ∨ h.heapPtr.toNat + y + 12 ≤ x) → h'.ram x = h.ram x

/-- **Some blocks are replaced** by others of the same length.  Behind them only the link back
of the next block is written. -/
theorem Rep.replace (mid mid' : List Block) (hrep : h.Rep (l ++ (mid ++ r))) (hf : SameFrame h h')
    (hbefore : ∀ x, h.heapPtr.toNat ≤ x → x < h.heapPtr.toNat + total l → h'.ram x = h.ram x)
    (hmid : Seg h'.ram h.heapPtr.toNat (lastOffset 0 0 l) (total l) mid')
    (htotal : total mid' = total mid) (hlen : ∀ b ∈ mid', 12 ≤ b.len)
    (hafter : ∀ x, h.heapPtr.toNat + (total l + total mid) ≤ x →
      x < h.heapPtr.toNat + (total l + total mid) + 8 ∨
        h.heapPtr.toNat + (total l + total mid) + 12 ≤ x → h'.ram x = h.ram x)
    (hlink : r ≠ [] → load h'.ram (h.heapPtr.toNat + (total l + total mid) + 8) 4 =
      lastOffset (lastOffset 0 0 l) (total l) mid') :
    h'.Rep (l ++ (mid' ++ r)) := by
  have htotal' : total (l ++ (mid' ++ r)) = total (l ++ (mid ++ r)) := by simp [htotal]
  have hsum : total (l ++ (mid ++ r)) = total l + total mid + total r := by
    simp [Nat.add_assoc]
  have hlen' := hrep.len
  simp only [mem_append] at hlen'
  obtain ⟨hl, hr⟩ := seg_append.1 hrep.seg
  rw [Nat.zero_add] at hr
  obtain ⟨-, hr⟩ := seg_append.1 hr
  -- the link back of the next block is not in the fields of `heap_end` that are read
  have hrest : total r = 0 ∨ 12 ≤ total r := by
    cases r with
    | nil => exact .inl rfl
    | cons b r =>
      have hb := hlen' b (.inr (.inr mem_cons_self))
      rw [total_cons]
      omega
  refine ⟨?_, ?_, ?_, ?_, ?_, ?_, ?_⟩
  · intro b hb
    simp only [mem_append] at hb
    rcases hb with hb | hb | hb
    · exact hlen' b (.inl hb)
    · exact hlen b hb
    · exact hlen' b (.inr (.inr hb))
  · rw [htotal', hf.memSizeAligned]
    exact hrep.total_eq
  · rw [htotal', hf.heapEnd, hf.heapPtr]
    exact hrep.heapEnd
  · rw [htotal', hf.heapPtr]
    exact hrep.bound
  · rw [hf.heapPtr]
    refine seg_append.2 ⟨hl.congr_interval (fun b hb => hlen' b (.inl hb)) ?_, ?_⟩
    · rwa [Nat.add_zero]
    · rw [Nat.zero_add]
      refine seg_append.2 ⟨hmid, ?_⟩
      rw [htotal]
      exact hr.relink (fun b hb => hlen' b (.inr (.inr hb))) _ hafter hlink
  · rw [htotal', hf.heapPtr, load_congr fun x hle hlt => hafter x (by omega) (by omega)]
    exact hrep.endUsed
  · rw [htotal', hf.heapPtr, load_congr fun x hle hlt => hafter x (by omega) (by omega)]
    exact hrep.endNext

theorem Rep.congr (hrep : h.Rep bs) (hf : SameFrame h h')
    (hram : ∀ u, ∀ y ∈ offsets u 0 bs, ∀ x, h.heapPtr.toNat + y ≤ x →
      x < h.heapPtr.toNat + y + 12 → h'.ram x = h.ram x)
    (hend : ∀ x, h.heapPtr.toNat + total bs ≤ x → x < h.heapPtr.toNat + total bs + 8 →
      h'.ram x = h.ram x) : h'.Rep bs := by
  refine ⟨hrep.len, ?_, ?_, ?_, ?_, ?_, ?_⟩
  · rw [hf.memSizeAligned]
    exact hrep.total_eq
  · rw [hf.heapEnd, hf.heapPtr]
    exact hrep.heapEnd
  · rw [hf.heapPtr]
    exact hrep.bound
  · rw [hf.heapPtr]
    exact hrep.seg.congr hram
  · rw [hf.heapPtr, load_congr fun x hle hlt => hend x (by omega) (by omega)]
    exact hrep.endUsed
  · rw [hf.heapPtr, load_congr fun x hle hlt => hend x (by omega) (by omega)]
    exact hrep.endNext

theorem HeaderWrites.refl (h : Heap) (bs : List Block) : HeaderWrites h h bs := fun _ _ => rfl

theorem HeaderWrites.trans {h'' : Heap} {bs' : List Block} (hw : HeaderWrites h h' bs)
    (hw' : HeaderWrites h' h'' bs') (hptr : h'.heapPtr = h.heapPtr) (htotal : total bs' = total bs)
    (hstarts : ∀ y ∈ starts 0 bs', y ∈ starts 0 bs) : HeaderWrites h h'' bs := by
  intro x hx
  rw [← hw x hx]
  refine hw' x fun y hy => ?_
  rw [hptr]
  exact hx y (hy.imp (hstarts y) fun h => h.trans htotal)

theorem HeaderWrites.of_one {y : ℕ} (hy : y ∈ starts 0 bs ∨ y = total bs)
    (hram : ∀ x, x < h.heapPtr.toNat + y ∨ h.heapPtr.toNat + y + 12 ≤ x → h'.ram x = h.ram x) :
    HeaderWrites h h' bs := fun x hx => hram x (hx y hy)

theorem HeaderWrites.contents (hw : HeaderWrites h h' bs) {y x : ℕ} (hy : (y, n) ∈ usedRuns 0 bs)
    (hle : h.heapPtr.toNat + y + 12 ≤ x) (hlt : x < h.heapPtr.toNat + y + n) :
    h'.ram x = h.ram x := by
  refine hw x fun z hz => ?_
  rcases hz with hz | rfl
  · have hapart := usedRuns_apart hy hz
    omega
  · have hend := usedRuns_le_total hy
    omega

/-! ### Reading -/

theorem toNat_used (h : Heap) (mem : UInt32) :
    (h.used mem).toNat = load h.ram (mem.toNat + 2) 2 := by
  rw [used, UInt16.toNat_ofNat']
  exact mod_eq_of_lt (load_lt h.ram _ 2)

theorem toNat_next (h : Heap) (mem : UInt32) :
    (h.next mem).toNat = load h.ram (mem.toNat + 4) 4 := by
  rw [next, UInt32.toNat_ofNat']
  exact mod_eq_of_lt (load_lt h.ram _ 4)

theorem toNat_prev (h : Heap) (mem : UInt32) :
    (h.prev mem).toNat = load h.ram (mem.toNat + 8) 4 := by
  rw [prev, UInt32.toNat_ofNat']
  exact mod_eq_of_lt (load_lt h.ram _ 4)

theorem used_eq_zero_iff (hd : Header h.ram mem.toNat u n p) : h.used mem = 0 ↔ u = false := by
  rw [← UInt16.toNat_inj, toNat_used, hd.used]
  cases u <;> simp

theorem next_eq (hd : Header h.ram mem.toNat u n p) : (h.next mem).toNat = n :=
  (toNat_next h mem).trans hd.next

theorem prev_eq (hd : Header h.ram mem.toNat u n p) : (h.prev mem).toNat = p :=
  (toNat_prev h mem).trans hd.prev

theorem Rep.toNat_block (hrep : h.Rep bs) (hptr : ptr.toNat ≤ total bs) :
    (h.block ptr).toNat = h.heapPtr.toNat + ptr.toNat := by
  have hbound := hrep.bound
  rw [block, UInt32.toNat_add]
  omega

theorem Rep.header (hrep : h.Rep (l ++ b :: r)) (hmem : mem.toNat = h.heapPtr.toNat + total l) :
    Header h.ram mem.toNat b.used (total l + b.len) (lastOffset 0 0 l) := by
  obtain ⟨-, hr⟩ := seg_append.1 hrep.seg
  rw [Nat.zero_add] at hr
  rw [hmem]
  exact hr.1

theorem Rep.used_heapEnd (hrep : h.Rep bs) : h.used h.heapEnd ≠ 0 := by
  intro hzero
  have hused := toNat_used h h.heapEnd
  rw [hrep.heapEnd, hrep.endUsed, hzero] at hused
  cases hused

theorem Rep.next_heapEnd (hrep : h.Rep bs) : (h.next h.heapEnd).toNat = total bs := by
  rw [toNat_next, hrep.heapEnd, hrep.endNext]

/-! ### Writing -/

theorem header_create (h : Heap) (mem : UInt32) {v : UInt16} (hv : v.toNat = u.toNat)
    (next prev : UInt32) :
    Header (h.create mem v next prev).ram mem.toNat u next.toNat prev.toNat := by
  refine ⟨?_, ?_, ?_, ?_⟩
  · simp (disch := omega) only [create, setMagic, setUsed, setNext, setPrev, load_store_of_disjoint]
    exact load_store_self _ _ heapMagic.toNat_lt
  · simp (disch := omega) only [create, setMagic, setUsed, setNext, setPrev, load_store_of_disjoint]
    rw [load_store_self _ _ v.toNat_lt, hv]
  · simp (disch := omega) only [create, setMagic, setUsed, setNext, setPrev, load_store_of_disjoint]
    exact load_store_self _ _ next.toNat_lt
  · exact load_store_self _ _ prev.toNat_lt

theorem header_setNext (hd : Header h.ram mem.toNat u n p) (v : UInt32) :
    Header (h.setNext mem v).ram mem.toNat u v.toNat p := by
  refine ⟨?_, ?_, load_store_self _ _ v.toNat_lt, ?_⟩
  · rw [Heap.setNext, load_store_of_disjoint (by omega)]
    exact hd.magic
  · rw [Heap.setNext, load_store_of_disjoint (by omega)]
    exact hd.used
  · rw [Heap.setNext, load_store_of_disjoint (by omega)]
    exact hd.prev

theorem header_setUsed (hd : Header h.ram mem.toNat u n p) {u' : Bool} {v : UInt16}
    (hv : v.toNat = u'.toNat) : Header (h.setUsed mem v).ram mem.toNat u' n p := by
  refine ⟨?_, (load_store_self _ _ v.toNat_lt).trans hv, ?_, ?_⟩
  · rw [Heap.setUsed, load_store_of_disjoint (by omega)]
    exact hd.magic
  · rw [Heap.setUsed, load_store_of_disjoint (by omega)]
    exact hd.next
  · rw [Heap.setUsed, load_store_of_disjoint (by omega)]
    exact hd.prev

theorem header_setMagic (hd : Header h.ram mem.toNat u n p) :
    Header (h.setMagic mem heapMagic).ram mem.toNat u n p := by
  refine ⟨load_store_self _ _ heapMagic.toNat_lt, ?_, ?_, ?_⟩
  · rw [Heap.setMagic, load_store_of_disjoint (by omega)]
    exact hd.used
  · rw [Heap.setMagic, load_store_of_disjoint (by omega)]
    exact hd.next
  · rw [Heap.setMagic, load_store_of_disjoint (by omega)]
    exact hd.prev

theorem ram_setMagic {x : ℕ} (hx : x < mem.toNat ∨ mem.toNat + 12 ≤ x) (v : UInt16) :
    (h.setMagic mem v).ram x = h.ram x := store_of_outside (by omega)

theorem ram_setUsed {x : ℕ} (hx : x < mem.toNat ∨ mem.toNat + 12 ≤ x) (v : UInt16) :
    (h.setUsed mem v).ram x = h.ram x := store_of_outside (by omega)

theorem ram_setNext {x : ℕ} (hx : x < mem.toNat ∨ mem.toNat + 12 ≤ x) (v : UInt32) :
    (h.setNext mem v).ram x = h.ram x := store_of_outside (by omega)

theorem ram_setPrev {x : ℕ} (hx : x < mem.toNat + 8 ∨ mem.toNat + 12 ≤ x) (v : UInt32) :
    (h.setPrev mem v).ram x = h.ram x := store_of_outside (by omega)

theorem ram_create {x : ℕ} (hx : x < mem.toNat ∨ mem.toNat + 12 ≤ x) (v : UInt16)
    (next prev : UInt32) : (h.create mem v next prev).ram x = h.ram x := by
  rw [create, ram_setPrev (by omega), ram_setNext hx, ram_setUsed hx, ram_setMagic hx]

end Heap

end RtThread
