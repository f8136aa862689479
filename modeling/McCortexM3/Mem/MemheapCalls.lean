import McCortexM3.Mem.Items

/-!
# What the calls do to the blocks of the memory heap

Each function of `memheap.c` turns a heap of blocks, no two neighbours of which are free and
whose free list holds the free ones, into another one.  `rt_memheap_alloc` makes a free block, or
the first part of one, a used one; `rt_memheap_free` makes a used block free and merges it with
its neighbours; and `rt_memheap_realloc` moves the end of a used block, if it can.

## Main definitions

* `Memheap.freeBytes` — the bytes of the free blocks.
* `Memheap.Inv` — the invariant of the heap.

## Main results

* `Inv.rtMemheapAlloc`, `Inv.rtMemheapFree`, `Inv.growInPlace`, `Inv.shrinkInPlace` — one lemma
  a function.
-/

set_option linter.all false

namespace RtThread

open Option List ByteMemory Tiling
open UInt32 (le_iff_toNat_le toNat_add toNat_sub)

namespace Memheap

variable {h h' : Memheap} {header ptr size freeSize newsize : UInt32} {bs bs' l r : List Block}
variable {d : Block} {P : ℕ → Prop} {x m n fuel : ℕ} {u : Bool}

/-- The payloads of the free blocks. -/
def freeBytes : List Block → ℕ
  | [] => 0
  | b :: bs => (if b.used then 0 else b.len - 24) + freeBytes bs

@[simp] theorem freeBytes_nil : freeBytes [] = 0 := rfl

@[simp] theorem freeBytes_cons (b : Block) (bs : List Block) :
    freeBytes (b :: bs) = (if b.used then 0 else b.len - 24) + freeBytes bs := rfl

@[simp] theorem freeBytes_append (l r : List Block) :
    freeBytes (l ++ r) = freeBytes l + freeBytes r := by
  induction l with
  | nil => simp
  | cons b l ih => simp [ih, Nat.add_assoc]

theorem freeBytes_free (l : List Block) (n : ℕ) (r : List Block) :
    freeBytes (l ++ ⟨n, false⟩ :: r) = freeBytes l + (n - 24) + freeBytes r := by
  simp [Nat.add_assoc]

theorem freeBytes_used (l : List Block) (n : ℕ) (r : List Block) :
    freeBytes (l ++ ⟨n, true⟩ :: r) = freeBytes l + freeBytes r := by
  simp

theorem freeBytes_le (bs : List Block) : freeBytes bs ≤ total bs := by
  induction bs with
  | nil => exact le_rfl
  | cons b bs ih =>
    rw [freeBytes_cons, total_cons]
    split <;> omega

/-- The invariant: the region holds the blocks, the free list the free ones, no two of which are
neighbours, and `available_size` is the sum of their payloads. -/
structure Inv (h : Memheap) (bs : List Block) : Prop where
  rep : h.Rep bs (· ∈ offsets false 0 bs)
  coalesced : Coalesced bs
  available : h.availableSize.toNat = freeBytes bs

/-! ### The fields beside the items -/

theorem Shape.freeBytes_lt (hs : Shape h bs) : freeBytes bs + 24 ≤ h.poolSize.toNat := by
  obtain ⟨body, rfl⟩ := getLast?_eq_some_iff.1 hs.tail
  have hbody := freeBytes_le body
  have htotal := hs.total_eq
  simp only [total_append, total_cons, total_nil, freeBytes_append, freeBytes_cons,
    freeBytes_nil, if_true] at htotal ⊢
  omega

theorem Shape.exists_cons (hs : Shape h (l ++ ⟨n, false⟩ :: r)) : ∃ d r', r = d :: r' := by
  cases r with
  | nil =>
    have htail := hs.tail
    simp at htail
  | cons d r => exact ⟨d, r, rfl⟩

theorem get_updateMaxUsed (h : Memheap) (a : UInt32) (f : ItemField) :
    h.updateMaxUsed.get a f = h.get a f := by
  rw [updateMaxUsed]
  split <;> rfl

theorem sameFrame_updateMaxUsed (h : Memheap) : SameFrame h h.updateMaxUsed := by
  rw [updateMaxUsed]
  split <;> exact ⟨rfl, rfl, rfl, rfl⟩

theorem ram_updateMaxUsed (h : Memheap) : h.updateMaxUsed.ram = h.ram := by
  rw [updateMaxUsed]
  split <;> rfl

@[simp] theorem availableSize_updateMaxUsed (h : Memheap) :
    h.updateMaxUsed.availableSize = h.availableSize := by
  rw [updateMaxUsed]
  split <;> rfl

theorem sameFrame_setAvailable (h : Memheap) (v : UInt32) :
    SameFrame h { h with availableSize := v } := ⟨rfl, rfl, rfl, rfl⟩

theorem Rep.setAvailable (hrep : h.Rep bs P) (v : UInt32) :
    { h with availableSize := v }.Rep bs P :=
  hrep.congr ⟨rfl, rfl, rfl, rfl⟩ fun _ _ _ => rfl

theorem Rep.updateMaxUsed (hrep : h.Rep bs P) : h.updateMaxUsed.Rep bs P :=
  hrep.congr (sameFrame_updateMaxUsed h) fun _ _ _ => get_updateMaxUsed h _ _

theorem itemWrites_of_ram {S : List UInt32} (hram : h'.ram = h.ram) : ItemWrites S h h' :=
  fun _ _ => by rw [hram]

/-- Nothing but items of the blocks `bs` and `bs'` has been written. -/
def BlockWrites (h h' : Memheap) (bs bs' : List Block) : Prop :=
  ItemWrites (h.freeList :: (spots h.startAddr bs ++ spots h.startAddr bs')) h h'

theorem ItemWrites.mono_starts {start : UInt32} {cs : List Block} {a : UInt32}
    (hw : ItemWrites (a :: spots start cs) h h') (hsub : ∀ x ∈ starts 0 cs, x ∈ starts 0 bs) :
    ItemWrites (a :: spots start bs) h h' := by
  refine hw.mono fun b hb => ?_
  rcases mem_cons.1 hb with rfl | hb
  · exact mem_cons_self
  · obtain ⟨x, hx, rfl⟩ := List.mem_map.1 hb
    exact mem_cons_of_mem _ (mem_spots (hsub x hx) _)

theorem ItemWrites.old {S T : List UInt32} {a : UInt32} (hw : ItemWrites (a :: S) h h') :
    ItemWrites (a :: (S ++ T)) h h' :=
  hw.mono fun _ hb => cons_subset_cons _ (subset_append_left _ _) hb

theorem ItemWrites.new {S T : List UInt32} {a : UInt32} (hw : ItemWrites (a :: T) h h') :
    ItemWrites (a :: (S ++ T)) h h' :=
  hw.mono fun _ hb => cons_subset_cons _ (subset_append_right _ _) hb

/-- The contents of a used block that has been there before, and is there afterwards. -/
theorem BlockWrites.contents (hw : BlockWrites h h' bs bs') (hs : Shape h bs)
    (hs' : Shape h bs') {y n' : ℕ} (hx : (x, n) ∈ usedRuns 0 bs) (hx' : (x, n') ∈ usedRuns 0 bs')
    (hle : h.startAddr.toNat + x + 24 ≤ y) (hlt : y < h.startAddr.toNat + x + min n n') :
    h'.ram y = h.ram y := by
  have hold := hs.payload_apart hx hle (by omega)
  have hnew := hs'.payload_apart hx' hle (by omega)
  refine hw y fun a ha => ?_
  rw [mem_cons, mem_append] at ha
  rcases ha with ha | ha | ha
  · exact hold a (by rw [ha]; exact mem_cons_self)
  · exact hold a (mem_cons_of_mem _ ha)
  · exact hnew a (mem_cons_of_mem _ ha)

theorem BlockWrites.outside (hw : BlockWrites h h' bs bs') (hs : Shape h bs)
    (hs' : Shape h bs') {y : ℕ}
    (hregion : y < h.startAddr.toNat ∨ h.startAddr.toNat + h.poolSize.toNat ≤ y)
    (hheader : y < h.freeList.toNat ∨ h.freeList.toNat + 24 ≤ y) : h'.ram y = h.ram y := by
  refine hw y fun a ha => ?_
  rw [mem_cons, mem_append] at ha
  rcases ha with ha | ha | ha
  · exact hs.outside_apart hregion hheader a (by rw [ha]; exact mem_cons_self)
  · exact hs.outside_apart hregion hheader a (mem_cons_of_mem _ ha)
  · exact hs'.outside_apart hregion hheader a (mem_cons_of_mem _ ha)

theorem spot_add (start : UInt32) (x : ℕ) (k : UInt32) :
    spot start x + k = spot start (x + k.toNat) := by
  rw [spot, spot, ← Nat.add_assoc, UInt32.ofNat_add (start.toNat + x), UInt32.ofNat_toNat]

/-! ### `rt_memheap_alloc` -/

theorem allocSearch_spec {fl : List UInt32} {p k : UInt32}
    (hcirc : Circular h.freeLinks h.freeList fl) (hheader : header ∈ h.freeList :: fl)
    (hsize : freeSize < size ∨ header ∈ fl ∧ freeSize = h.memitemSize header)
    (hs : h.allocSearch size fuel header freeSize = some (p, k)) (hk : size ≤ k) :
    p ∈ fl ∧ k = h.memitemSize p := by
  induction fuel generalizing header freeSize with
  | zero => cases hs
  | succ fuel ih =>
    rw [allocSearch] at hs
    split at hs
    · next hcond =>
      have hmem : header ∈ fl := (mem_cons.1 hheader).resolve_left hcond.1
      dsimp only at hs
      split at hs
      · next hlt => exact ih (hcirc.next_mem hheader) (.inl hlt) hs
      · exact ih hheader (.inr ⟨hmem, rfl⟩) hs
    · cases hs
      exact hsize.resolve_left fun hlt => absurd hk (UInt32.not_le.2 hlt)

theorem allocSearch_isSome {l₁ l₂ : List UInt32}
    (hcirc : Circular h.freeLinks h.freeList (l₁ ++ l₂)) (hheader : header = l₂.headD h.freeList)
    (hfuel : l₂.length + 2 ≤ fuel) : (h.allocSearch size fuel header freeSize).isSome := by
  induction l₂ generalizing l₁ header fuel freeSize with
  | nil =>
    obtain ⟨fuel, rfl⟩ : ∃ f, fuel = f + 1 := ⟨fuel - 1, by omega⟩
    rw [allocSearch, if_neg fun hc => hc.1 hheader]
    rfl
  | cons a l₂ ih =>
    rw [length_cons] at hfuel
    obtain ⟨fuel, rfl⟩ : ∃ f, fuel = f + 2 := ⟨fuel - 2, by omega⟩
    obtain rfl : header = a := hheader
    rw [allocSearch]
    split
    · dsimp only
      split
      · -- the next block
        have hnext := (Links.path_append.1 hcirc.path).2.next_start
        rw [append_cons] at hcirc
        exact ih hcirc hnext (by omega)
      · next hge =>
        rw [allocSearch, if_neg fun hc => hge hc.2]
        rfl
    · rfl

/-- What a call that allocates does: a block of at least `k` bytes, which has not been used, is now
used. -/
structure Allocated (h h' : Memheap) (bs bs' : List Block) (x k : ℕ) : Prop where
  inv : Inv h' bs'
  used : ∀ y, y ∈ offsets true 0 bs' ↔ y ∈ offsets true 0 bs ∨ y = x
  fresh : x ∉ offsets true 0 bs
  room : ∃ l n d r, bs' = l ++ ⟨n, true⟩ :: d :: r ∧ x = total l ∧ k + 24 ≤ n
  frame : SameFrame h h'
  runs : ∃ m, k + 24 ≤ m ∧ ∀ {y j}, (y, j) ∈ usedRuns 0 bs' ↔ (y, j) ∈ usedRuns 0 bs ∨ y = x ∧ j = m
  writes : BlockWrites h h' bs bs'

theorem Shape.sizes (hs : Shape h (l ++ ⟨n, u⟩ :: d :: r)) :
    24 ≤ n ∧ 24 ≤ d.len ∧ total l + n + d.len + total r = h.poolSize.toNat := by
  have hn := hs.len ⟨n, u⟩ (by simp)
  have hd := hs.len d (by simp)
  have htotal := hs.total_eq
  simp only [total_append, total_cons] at htotal
  exact ⟨hn, hd, by omega⟩

theorem sameFrame_makeBlock (h : Memheap) (a b : UInt32) : SameFrame h (h.makeBlock a b) :=
  ⟨rfl, rfl, rfl, rfl⟩

theorem sameFrame_takeFree (h : Memheap) (a : UInt32) : SameFrame h (h.takeFree a) :=
  ⟨rfl, rfl, rfl, rfl⟩

section

variable (hinv : Inv h (l ++ ⟨n, false⟩ :: d :: r)) (hheader : header = spot h.startAddr (total l))
  (hfree : freeSize.toNat = n - 24) (hsize : size.toNat ≤ n - 24) (hmin : 12 ≤ size.toNat)
include hinv hheader hfree hsize hmin

theorem allocCut_spec :
    ∃ m t, (t = [] ∨ ∃ k, t = [⟨k, false⟩]) ∧ m + total t = n ∧ size.toNat + 24 ≤ m ∧
      (h.allocCut header size freeSize).Rep (l ++ ⟨m, false⟩ :: (t ++ d :: r))
        (· ∈ offsets false 0 (l ++ ⟨m, true⟩ :: (t ++ d :: r))) ∧
      (h.allocCut header size freeSize).availableSize.toNat =
        freeBytes (l ++ ⟨m, true⟩ :: (t ++ d :: r)) ∧
      SameFrame h (h.allocCut header size freeSize) ∧
      ItemWrites (h.freeList :: spots h.startAddr (l ++ ⟨m, false⟩ :: (t ++ d :: r))) h
        (h.allocCut header size freeSize) := by
  obtain ⟨hrep, hc, havail⟩ := hinv
  have h24 : memheapSize.toNat = 24 := rfl
  have h12 : memheapMinialloc.toNat = 12 := rfl
  obtain ⟨hn, hd, htotal⟩ := hrep.shape.sizes
  have hpool := h.poolSize.toNat_lt
  have hself : total l ∈ offsets false 0 (l ++ ⟨n, false⟩ :: d :: r) := by
    simpa using mem_offsets_middle 0 l n false (d :: r)
  rw [allocCut]
  split
  · next hsplit =>
    rw [ge_iff_le, le_iff_toNat_le, toNat_add, toNat_add, h24, h12, hfree] at hsplit
    obtain ⟨k, rfl⟩ : ∃ k, n = (size.toNat + 24) + k := ⟨n - (size.toNat + 24), by omega⟩
    have hnew : header + size + memheapSize = spot h.startAddr (total l + (size.toNat + 24)) := by
      rw [hheader, spot_add, spot_add, h24, Nat.add_assoc]
    dsimp only
    rw [hnew, hheader]
    have hrep₁ := hrep.makeBlock (m := size.toNat + 24) (n := k) (by omega) (by omega)
    have hw₁ := hrep.writes_makeBlock (m := size.toNat + 24) (n := k) (by omega) (by omega)
    have hnot := hrep.shape.notMem_split (m := size.toNat + 24) (n := k) (by omega) (by omega)
    obtain ⟨h₁, hh₁⟩ : ∃ h₁, h₁ = h.makeBlock (spot h.startAddr (total l))
      (spot h.startAddr (total l + (size.toNat + 24))) := ⟨_, rfl⟩
    have hf₁ : SameFrame h h₁ := hh₁ ▸ sameFrame_makeBlock _ _ _
    rw [← hh₁] at hrep₁ hw₁ ⊢
    have hrep₂ := hrep₁.takeFree hself
    have hw₂ := hrep₁.writes_takeFree hself
    rw [hf₁.startAddr] at hrep₂ hw₂
    rw [hf₁.freeList] at hw₂
    obtain ⟨h₂, hh₂⟩ : ∃ h₂, h₂ = h₁.takeFree (spot h.startAddr (total l)) := ⟨_, rfl⟩
    have hf₂ : SameFrame h h₂ := hf₁.trans (hh₂ ▸ sameFrame_takeFree _ _)
    rw [← hh₂] at hrep₂ hw₂ ⊢
    have hrest : total l + (size.toNat + 24) ∈
        starts 0 (l ++ ⟨size.toNat + 24, false⟩ :: ⟨k, false⟩ :: d :: r) :=
      mem_starts_split.2 (.inr rfl)
    have hrep₃ := hrep₂.linkFree hrest fun hc => hnot (mem_starts.2 ⟨false, hc.1⟩)
    have hw₃ := hrep₂.writes_linkFree hrest
    rw [hf₂.startAddr] at hrep₃ hw₃
    rw [hf₂.freeList] at hw₃
    obtain ⟨h₃, hh₃⟩ : ∃ h₃, h₃ = h₂.linkFree
      (spot h.startAddr (total l + (size.toNat + 24))) := ⟨_, rfl⟩
    have hf₃ : SameFrame h h₃ := hf₂.trans (hh₃ ▸ sameFrame_linkFree _ _)
    have havail₃ : h₃.availableSize = h.availableSize := by
      rw [hh₃, hh₂, hh₁]
      rfl
    rw [← hh₃] at hrep₃ hw₃ ⊢
    refine ⟨size.toNat + 24, [⟨k, false⟩], .inr ⟨k, rfl⟩, by simp, le_rfl, ?_, ?_,
      hf₃.trans ((sameFrame_setAvailable _ _).trans (sameFrame_updateMaxUsed _)),
      ((hw₁.trans hw₂).trans hw₃).trans (itemWrites_of_ram (ram_updateMaxUsed _))⟩
    · exact (hrep₃.congr_free fun x => (mem_offsets_cut hrep.shape.pos).symm).setAvailable _
        |>.updateMaxUsed
    · rw [availableSize_updateMaxUsed, havail₃]
      have hlt := hrep.shape.freeBytes_lt
      simp only [freeBytes_append, freeBytes_cons, Bool.false_eq_true, if_false, if_true,
        singleton_append] at havail hlt ⊢
      rw [toNat_sub, toNat_sub, havail, h24]
      omega
  · rw [hheader]
    obtain ⟨h₁, hh₁⟩ : ∃ h₁, h₁ =
        { h with availableSize := h.availableSize - freeSize }.updateMaxUsed := ⟨_, rfl⟩
    have hf₁ : SameFrame h h₁ := by
      rw [hh₁]
      exact (sameFrame_setAvailable h _).trans (sameFrame_updateMaxUsed _)
    have hrep₁ : h₁.Rep (l ++ ⟨n, false⟩ :: d :: r)
        (· ∈ offsets false 0 (l ++ ⟨n, false⟩ :: d :: r)) := by
      rw [hh₁]
      exact (hrep.setAvailable _).updateMaxUsed
    have hrep₂ := hrep₁.takeFree hself
    rw [← hh₁]
    rw [hf₁.startAddr] at hrep₂
    have hram₁ : h₁.ram = h.ram := by
      rw [hh₁]
      exact ram_updateMaxUsed _
    have hw₂ := hrep₁.writes_takeFree hself
    rw [hf₁.startAddr, hf₁.freeList] at hw₂
    refine ⟨n, [], .inl rfl, by simp, by omega, ?_, ?_, hf₁.trans (sameFrame_takeFree _ _),
      (itemWrites_of_ram hram₁).trans hw₂⟩
    · exact hrep₂.congr_free fun x =>
        (mem_offsets_unmark hrep.shape.pos Bool.false_ne_true.symm).symm
    · change h₁.availableSize.toNat = _
      rw [hh₁, availableSize_updateMaxUsed]
      simp only [freeBytes_append, freeBytes_cons, Bool.false_eq_true, if_false, if_true,
        nil_append] at havail ⊢
      rw [toNat_sub, havail, hfree]
      have hlt := hrep.shape.freeBytes_lt
      simp only [freeBytes_append, freeBytes_cons, Bool.false_eq_true, if_false] at hlt
      omega

theorem Inv.allocTake :
    ∃ bs', Allocated h (h.allocTake header size freeSize) (l ++ ⟨n, false⟩ :: d :: r) bs'
      (total l) size.toNat := by
  obtain ⟨m, t, ht, hmt, hm, hrep, havail, hframe, hwrites⟩ :=
    allocCut_spec hinv hheader hfree hsize hmin
  have hfresh : total l ∉ offsets true 0 (l ++ ⟨n, false⟩ :: d :: r) :=
    not_mem_offsets_middle hinv.rep.shape.pos nofun
  obtain ⟨h₁, hh₁⟩ : ∃ h₁, h₁ = h.allocCut header size freeSize := ⟨_, rfl⟩
  rw [← hh₁] at hrep havail hframe hwrites
  obtain ⟨d', r', hr'⟩ : ∃ d' r', t ++ d :: r = d' :: r' := by
    rcases ht with rfl | ⟨k, rfl⟩
    · exact ⟨d, r, rfl⟩
    · exact ⟨⟨k, false⟩, d :: r, rfl⟩
  have hself : total l ∈ offsets false 0 (l ++ ⟨m, false⟩ :: (t ++ d :: r)) := by
    simpa using mem_offsets_middle 0 l m false (t ++ d :: r)
  have hmagic : h₁.get header .magic ||| memheapUsed = magicOf true := by
    rw [hheader, ← hframe.startAddr, (hrep.tags false _ hself).1]
    rfl
  have htake : h.allocTake header size freeSize = h₁.set header .magic (magicOf true) := by
    rw [Memheap.allocTake, ← hh₁, hmagic]
  have hmarked : (h₁.set header .magic (magicOf true)).Rep (l ++ ⟨m, true⟩ :: (t ++ d :: r))
      (· ∈ offsets false 0 (l ++ ⟨m, true⟩ :: (t ++ d :: r))) := by
    rw [hr'] at hrep ⊢
    rw [hheader, ← hframe.startAddr]
    exact hrep.setMagic true
  have hnil : usedRuns (total l + m) t = [] := by
    rcases ht with rfl | ⟨k, rfl⟩ <;> rfl
  have hmark : ItemWrites (h.freeList :: spots h.startAddr (l ++ ⟨m, false⟩ :: (t ++ d :: r))) h₁
      (h₁.set header .magic (magicOf true)) :=
    itemWrites_set (hheader ▸ mem_cons_of_mem _ (mem_spots (mem_starts.2 ⟨_, hself⟩) _)) _ _
  have hstarts : spots h.startAddr (l ++ ⟨m, false⟩ :: (t ++ d :: r)) =
      spots h.startAddr (l ++ ⟨m, true⟩ :: (t ++ d :: r)) := by
    rw [spots_middle, spots_middle]
  have hwrites' := hwrites.trans hmark
  rw [hstarts] at hwrites'
  rw [htake]
  exact ⟨_, ⟨hmarked, hinv.coalesced.take ht, havail⟩, fun y => offsets_take ht hmt, hfresh,
    ⟨l, m, d', r', by rw [hr'], rfl, hm⟩, hframe.trans (sameFrame_set _ _ _ _),
    ⟨m, hm, mem_usedRuns_take hnil hmt⟩, hwrites'.new⟩

end

theorem memheapAlign_ge (size : UInt32) : 12 ≤ (memheapAlign size).toNat := by
  rw [memheapAlign]
  split
  · exact le_rfl
  · next hge => exact le_iff_toNat_le.1 (UInt32.not_lt.1 hge)

/-- **`rt_memheap_alloc`** returns `RT_NULL` and leaves the heap as it is, or allocates a block. -/
theorem Inv.rtMemheapAlloc (hinv : Inv h bs) (hs : h.rtMemheapAlloc fuel size = some (h', ptr)) :
    ptr = 0 ∧ h' = h ∨ ∃ x bs', ptr = spot h.startAddr (x + 24) ∧
      Allocated h h' bs bs' x (memheapAlign size).toNat := by
  rw [Memheap.rtMemheapAlloc] at hs
  dsimp only at hs
  split at hs
  · obtain ⟨⟨header, freeSize⟩, hsearch, hs⟩ := map_eq_some_iff.1 hs
    dsimp only at hs
    split at hs
    · next hge =>
      cases hs
      have hmin := memheapAlign_ge size
      obtain ⟨fl, hcirc, hmem⟩ := hinv.rep.free
      obtain ⟨hfound, hfree⟩ := allocSearch_spec hcirc (hcirc.next_mem mem_cons_self)
        (.inl (UInt32.lt_iff_toNat_lt.2 (Nat.lt_of_lt_of_le (by decide) hmin))) hsearch hge
      -- the block that has been found
      obtain ⟨x, hx, rfl⟩ := List.mem_map.1 hfound
      obtain ⟨l, n, r, rfl, hxl⟩ := exists_of_mem_offsets ((hmem x).1 hx)
      rw [Nat.zero_add] at hxl
      subst hxl
      obtain ⟨d, r, rfl⟩ := hinv.rep.shape.exists_cons
      have hfree' := hinv.rep.memitemSize
      rw [← hfree] at hfree'
      have hle : (memheapAlign size).toNat ≤ n - 24 := by
        rw [← hfree']
        exact le_iff_toNat_le.1 hge
      obtain ⟨bs', hbs'⟩ := hinv.allocTake rfl hfree' hle hmin
      exact .inr ⟨total l, bs', spot_add _ _ _, hbs'⟩
    · cases hs
      exact .inl ⟨rfl, rfl⟩
  · cases hs
    exact .inl ⟨rfl, rfl⟩

theorem Inv.length_le {fl : List ℕ} (hinv : Inv h bs) (hnodup : fl.Nodup)
    (hmem : ∀ x ∈ fl, x ∈ starts 0 bs) : 24 * fl.length ≤ h.poolSize.toNat := by
  have hlen : ∀ (o : ℕ) (bs : List Block), (starts o bs).length = bs.length := by
    intro o bs
    induction bs generalizing o with
    | nil => rfl
    | cons b bs ih => rw [starts, length_cons, ih, length_cons]
  have htotal : ∀ bs : List Block, (∀ b ∈ bs, 24 ≤ b.len) → 24 * bs.length ≤ total bs := by
    intro bs hbs
    induction bs with
    | nil => exact le_rfl
    | cons b bs ih =>
      have hb := hbs b mem_cons_self
      have hrest := ih fun c hc => hbs c (mem_cons_of_mem b hc)
      rw [length_cons, total_cons]
      omega
  have hle := (hnodup.subperm hmem).length_le
  have hbs := htotal bs hinv.rep.shape.len
  rw [hlen] at hle
  rw [← hinv.rep.shape.total_eq]
  omega

theorem Inv.isSome_rtMemheapAlloc (hinv : Inv h bs) (size : UInt32)
    (hfuel : h.poolSize.toNat / 24 + 2 ≤ fuel) : (h.rtMemheapAlloc fuel size).isSome := by
  rw [Memheap.rtMemheapAlloc]
  dsimp only
  split
  · obtain ⟨fl, hcirc, hmem⟩ := hinv.rep.free
    have hlength := hinv.length_le (List.Nodup.of_map _ (nodup_cons.1 hcirc.nodup).2)
      fun x hx => hinv.rep.sub x ((hmem x).1 hx)
    rw [isSome_map]
    have hnil : Circular h.freeLinks h.freeList ([] ++ fl.map (spot h.startAddr)) := hcirc
    refine allocSearch_isSome hnil hcirc.path.next_start ?_
    rw [length_map]
    omega
  · rfl

/-! ### `rt_memheap_free` -/

/-- `rt_memheap_free` under way: the block of `n` bytes behind the blocks `l` is free, and is in
the free list unless it is still to be inserted. -/
structure Freeing (h : Memheap) (l : List Block) (n : ℕ) (r : List Block) (insert : Bool) :
    Prop where
  rep : h.Rep (l ++ ⟨n, false⟩ :: r) fun y =>
    y ∈ offsets false 0 (l ++ ⟨n, false⟩ :: r) ∧ (insert = true → y ≠ total l)
  left : Coalesced l
  right : Coalesced r
  available : h.availableSize.toNat = freeBytes (l ++ ⟨n, false⟩ :: r)

theorem mergeLeft_spec (hfr : Freeing h l n (d :: r) true) :
    ∃ l' n' insert h', h.mergeLeft (spot h.startAddr (total l)) =
        (h', spot h.startAddr (total l'), insert) ∧
      Freeing h' l' n' (d :: r) insert ∧ (∀ c ∈ l'.getLast?, c.used = true) ∧
      Combines (l ++ ⟨n, false⟩ :: d :: r) (l' ++ ⟨n', false⟩ :: d :: r) ∧ SameFrame h h' ∧
      ItemWrites (h.freeList :: spots h.startAddr (l ++ ⟨n, false⟩ :: d :: r)) h h' := by
  obtain ⟨hrep, hl, hr, havail⟩ := hfr
  rw [mergeLeft]
  rcases eq_nil_or_concat l with rfl | ⟨l, c, rfl⟩
  · -- the tailer is before the first block
    have hused := hrep.isUsed_prev
    rw [total_nil, if_neg (not_not.2 hused)]
    exact ⟨[], n, true, h, rfl, ⟨hrep, hl, hr, havail⟩, nofun, .refl _, .refl h, .refl _ h⟩
  · obtain ⟨m, u⟩ := c
    have htotal : total (l ++ [⟨m, u⟩]) = total l + m := by simp
    simp only [concat_eq_append, ← append_cons, htotal, forall_const] at hrep hl havail ⊢
    have hlast := (coalesced_middle (r := [])).1 hl
    have hself : total l ∈ offsets u 0 (l ++ ⟨m, u⟩ :: ⟨n, false⟩ :: d :: r) := by
      simpa using mem_offsets_middle 0 l m u (⟨n, false⟩ :: d :: r)
    have hused := hrep.isUsed_iff hself
    rw [hrep.next_three.2.1]
    cases u with
    | true =>
      rw [if_neg (not_not.2 (hused.2 rfl))]
      refine ⟨l ++ [⟨m, true⟩], n, true, h, by rw [htotal], ⟨?_, hl, hr, ?_⟩, ?_, ?_, .refl h,
        .refl _ h⟩
      · simpa only [← append_cons, htotal, forall_const] using hrep
      · rwa [← append_cons]
      · intro c hc
        obtain rfl : ⟨m, true⟩ = c := by simpa using hc
        rfl
      · rw [← append_cons]
        exact .refl _
    | false =>
      -- the two blocks become one, which is in the free list
      have h24 : memheapSize.toNat = 24 := rfl
      obtain ⟨hm, hn, hsizes⟩ := hrep.shape.sizes
      have hpool := h.poolSize.toNat_lt
      have hlt := hrep.shape.freeBytes_lt
      obtain ⟨h₁, hh₁⟩ : ∃ h₁, h₁ =
          { h with availableSize := h.availableSize + memheapSize } := ⟨_, rfl⟩
      have hf₁ : SameFrame h h₁ := hh₁ ▸ sameFrame_setAvailable h _
      have hrep₁ := hrep.setAvailable (h.availableSize + memheapSize)
      rw [← hh₁] at hrep₁
      obtain ⟨hrep₂, hprev⟩ := hrep₁.bypassBlock fun hc => hc.2 rfl
      rw [hf₁.startAddr] at hrep₂ hprev
      rw [if_pos fun hc => Bool.false_ne_true (hused.1 hc), ← hh₁]
      simp only [hprev]
      refine ⟨l, m + n, false, _, rfl, ⟨hrep₂.congr_free fun x => ?_, hlast.1, hr, ?_⟩,
        (hlast.2.2.resolve_left nofun).1, .step (.refl _),
        hf₁.trans (sameFrame_bypassBlock _ _), ?_⟩
      · rw [mem_offsets_merge hrep.shape.pos]
        simp
      · change h₁.availableSize.toNat = _
        have hmid : freeBytes (⟨n, false⟩ :: d :: r) = n - 24 + freeBytes (d :: r) := rfl
        rw [freeBytes_free, hmid] at hlt havail
        rw [hh₁, toNat_add, havail, h24, freeBytes_free]
        simp only at hn
        omega
      · have hw := hrep₁.writes_bypassBlock
        rw [hf₁.startAddr, hf₁.freeList] at hw
        exact (itemWrites_of_ram (by rw [hh₁])).trans hw

theorem mergeRight_spec {insert : Bool} (hfr : Freeing h l n r insert) :
    ∃ n' r', Freeing (h.mergeRight (spot h.startAddr (total l))) l n' r' insert ∧
      (∀ c ∈ r'.head?, c.used = true) ∧
      Combines (l ++ ⟨n, false⟩ :: r) (l ++ ⟨n', false⟩ :: r') ∧
      SameFrame h (h.mergeRight (spot h.startAddr (total l))) ∧
      ItemWrites (h.freeList :: spots h.startAddr (l ++ ⟨n, false⟩ :: r)) h
        (h.mergeRight (spot h.startAddr (total l))) := by
  obtain ⟨hrep, hl, hr, havail⟩ := hfr
  obtain ⟨⟨m, u⟩, r, rfl⟩ := hrep.shape.exists_cons
  have hself : total l + n ∈ offsets u 0 (l ++ ⟨n, false⟩ :: ⟨m, u⟩ :: r) := by
    rw [mem_offsets_split]
    exact .inr ⟨rfl, rfl⟩
  have hused := hrep.isUsed_iff hself
  rw [mergeRight, hrep.next_eq.1]
  cases u with
  | true =>
    rw [if_neg (not_not.2 (hused.2 rfl))]
    refine ⟨n, ⟨m, true⟩ :: r, ⟨hrep, hl, hr, havail⟩, ?_, .refl _, .refl h, .refl _ h⟩
    intro c hc
    obtain rfl : ⟨m, true⟩ = c := by simpa using hc
    rfl
  | false =>
    -- the next block leaves the free list
    have h24 : memheapSize.toNat = 24 := rfl
    have hrep' : h.Rep ((l ++ [⟨n, false⟩]) ++ ⟨m, false⟩ :: r) _ := append_cons _ _ _ ▸ hrep
    obtain ⟨d, r, rfl⟩ := hrep'.shape.exists_cons
    obtain ⟨hn, hm, hsizes⟩ := hrep.shape.sizes
    have hpool := h.poolSize.toNat_lt
    have hlt := hrep.shape.freeBytes_lt
    have hhead := (coalesced_middle (l := [])).1 hr
    obtain ⟨h₁, hh₁⟩ : ∃ h₁, h₁ =
        { h with availableSize := h.availableSize + memheapSize } := ⟨_, rfl⟩
    have hf₁ : SameFrame h h₁ := hh₁ ▸ sameFrame_setAvailable h _
    have hrep₁ := hrep.setAvailable (h.availableSize + memheapSize)
    rw [← hh₁] at hrep₁
    have hrep₂ := hrep₁.mergeNext ⟨hself, fun _ => by omega⟩
    rw [hf₁.startAddr] at hrep₂
    rw [if_pos fun hc => Bool.false_ne_true (hused.1 hc), ← hh₁]
    refine ⟨n + m, d :: r, ⟨hrep₂.congr_free fun x => ?_, hl, hhead.2.1, ?_⟩,
      (hhead.2.2.resolve_left nofun).2, .step (.refl _), hf₁.trans (sameFrame_mergeNext _ _), ?_⟩
    · rw [← mem_offsets_merge hrep.shape.pos]
      grind
    · change h₁.availableSize.toNat = _
      have hmid : freeBytes (⟨m, false⟩ :: d :: r) = m - 24 + freeBytes (d :: r) := rfl
      rw [freeBytes_free, hmid] at hlt havail
      rw [hh₁, toNat_add, havail, h24, freeBytes_free]
      simp only at hm
      omega
    · have hw := hrep₁.writes_mergeNext ⟨hself, fun _ => by omega⟩
      rw [hf₁.startAddr, hf₁.freeList] at hw
      exact (itemWrites_of_ram (by rw [hh₁])).trans hw

/-- What a call that frees does: the block at `x` is not used any more. -/
structure Freed (h h' : Memheap) (bs bs' : List Block) (x : ℕ) : Prop where
  inv : Inv h' bs'
  used : ∀ y, y ∈ offsets true 0 bs' ↔ y ∈ offsets true 0 bs ∧ y ≠ x
  frame : SameFrame h h'
  runs : ∀ {y j}, (y, j) ∈ usedRuns 0 bs' ↔ (y, j) ∈ usedRuns 0 bs ∧ y ≠ x
  writes : BlockWrites h h' bs bs'

theorem Freeing.finish {insert : Bool} (hfr : Freeing h l n r insert)
    (hl : ∀ c ∈ l.getLast?, c.used = true) (hr : ∀ c ∈ r.head?, c.used = true) :
    Inv (if insert then h.linkFree (spot h.startAddr (total l)) else h) (l ++ ⟨n, false⟩ :: r) := by
  obtain ⟨hrep, hcl, hcr, havail⟩ := hfr
  have hc : Coalesced (l ++ ⟨n, false⟩ :: r) := coalesced_middle.2 ⟨hcl, hcr, .inr ⟨hl, hr⟩⟩
  have hself : total l ∈ offsets false 0 (l ++ ⟨n, false⟩ :: r) := by
    simpa using mem_offsets_middle 0 l n false r
  cases insert with
  | true =>
    refine ⟨(hrep.linkFree (mem_starts.2 ⟨false, hself⟩) fun hc => hc.2 rfl rfl).congr_free ?_, hc,
      havail⟩
    intro x
    by_cases hx : x = total l
    · simp [hx, hself]
    · simp [hx]
  | false => exact ⟨hrep.congr_free fun x => by simp, hc, havail⟩

theorem Freeing.writes_finish {insert : Bool} (hfr : Freeing h l n r insert) :
    ItemWrites (h.freeList :: spots h.startAddr (l ++ ⟨n, false⟩ :: r)) h
      (if insert then h.linkFree (spot h.startAddr (total l)) else h) := by
  cases insert with
  | true =>
    have hself : total l ∈ starts 0 (l ++ ⟨n, false⟩ :: r) := by
      rw [starts_middle]
      simp
    exact hfr.rep.writes_linkFree hself
  | false => exact .refl _ h

theorem spot_sub (start : UInt32) (x : ℕ) : spot start (x + 24) - memheapSize = spot start x := by
  have h24 : x + 24 = x + memheapSize.toNat := rfl
  rw [h24, ← spot_add, UInt32.add_sub_cancel]

/-- **`rt_memheap_free`** frees a block. -/
theorem Inv.rtMemheapFree (hinv : Inv h (l ++ ⟨n, true⟩ :: d :: r))
    (hptr : ptr = spot h.startAddr (total l + 24)) (hnull : ptr ≠ 0) :
    ∃ h' bs', h.rtMemheapFree ptr = some h' ∧
      Freed h h' (l ++ ⟨n, true⟩ :: d :: r) bs' (total l) := by
  obtain ⟨hrep, hc, havail⟩ := hinv
  have hself : total l ∈ offsets true 0 (l ++ ⟨n, true⟩ :: d :: r) := by
    simpa using mem_offsets_middle 0 l n true (d :: r)
  have hbehind : total l + n ∈ offsets d.used 0 (l ++ ⟨n, true⟩ :: d :: r) := by
    rw [mem_offsets_split (n := d.len) (w := d.used)]
    exact .inr ⟨rfl, rfl⟩
  have hheader : ptr - memheapSize = spot h.startAddr (total l) := by rw [hptr, spot_sub]
  obtain ⟨hmagic, hpool⟩ := hrep.tags _ _ hself
  have hmagic' := (hrep.tags _ _ hbehind).1
  -- the assertions hold
  have hassert : h.get (spot h.startAddr (total l)) .magic &&& memheapMask = memheapMagic ∧
      h.IsUsed (spot h.startAddr (total l)) ∧
      h.get (h.get (spot h.startAddr (total l)) .next) .magic &&& memheapMask = memheapMagic ∧
      h.get (spot h.startAddr (total l)) .poolPtr = h.addr := by
    refine ⟨by rw [hmagic]; rfl, (hrep.isUsed_iff hself).2 rfl, ?_, hpool⟩
    rw [hrep.next_eq.1, hmagic']
    cases d.used <;> rfl
  have hmark : h.get (spot h.startAddr (total l)) .magic &&& ~~~memheapUsed = magicOf false := by
    rw [hmagic]
    rfl
  rw [Memheap.rtMemheapFree, if_neg hnull]
  simp only [hheader]
  rw [if_pos hassert, hmark]
  have hrep₁ := hrep.setMagic false
  obtain ⟨h₁, hh₁⟩ : ∃ h₁, h₁ = h.set (spot h.startAddr (total l)) .magic (magicOf false) := ⟨_, rfl⟩
  have hf₁ : SameFrame h h₁ := hh₁ ▸ sameFrame_set h _ _ _
  have havail₁ : h₁.availableSize = h.availableSize := by rw [hh₁]; rfl
  rw [← hh₁] at hrep₁ ⊢
  have hsize := hrep₁.memitemSize
  rw [hf₁.startAddr] at hsize
  obtain ⟨v, hv⟩ : ∃ v, v = h₁.availableSize + h₁.memitemSize (spot h.startAddr (total l)) :=
    ⟨_, rfl⟩
  obtain ⟨h₂, hh₂⟩ : ∃ h₂, h₂ = { h₁ with availableSize := v } := ⟨_, rfl⟩
  have hf₂ : SameFrame h h₂ := hf₁.trans (hh₂ ▸ sameFrame_setAvailable h₁ _)
  rw [← hv, ← hh₂]
  have hfreeing : Freeing h₂ l n (d :: r) true := by
    obtain ⟨hcl, hcr⟩ := hc.split_middle
    refine ⟨?_, hcl, hcr, ?_⟩
    · rw [hh₂]
      refine (hrep₁.setAvailable _).congr_free fun x => ?_
      rw [mem_offsets_unmark hrep₁.shape.pos Bool.false_ne_true.symm]
      simp
    · have hlt := hrep₁.shape.freeBytes_lt
      have hpool := h₁.poolSize.toNat_lt
      rw [freeBytes_used] at havail
      rw [freeBytes_free] at hlt ⊢
      rw [hh₂, hv, toNat_add, havail₁, havail, hsize]
      simp only
      omega
  -- the neighbours
  obtain ⟨l', n', insert, h₃, hleft, hfreeing', hlast, hcomb, hf₃, hw₃⟩ :=
    mergeLeft_spec hfreeing
  obtain ⟨n'', r'', hfreeing'', hhead, hcomb', hf₄, hw₄⟩ := mergeRight_spec hfreeing'
  have hfinish := hfreeing''.finish hlast hhead
  have hw₅ := hfreeing''.writes_finish
  rw [hf₄.startAddr, hf₃.startAddr, hf₂.startAddr] at hfinish
  rw [hf₄.startAddr, hf₄.freeList, hf₃.startAddr, hf₃.freeList, hf₂.startAddr, hf₂.freeList] at hw₅
  rw [hf₃.startAddr, hf₃.freeList, hf₂.startAddr, hf₂.freeList] at hw₄
  rw [hf₂.startAddr, hf₂.freeList] at hw₃
  rw [hf₂.startAddr] at hleft
  rw [hf₃.startAddr, hf₂.startAddr] at hf₄
  have hcombines := hcomb.trans hcomb'
  -- the blocks that are free now begin where blocks have begun
  have hstarts : starts 0 (l ++ ⟨n, false⟩ :: d :: r) = starts 0 (l ++ ⟨n, true⟩ :: d :: r) := by
    rw [starts_middle, starts_middle]
  have hmark : ItemWrites (h.freeList :: spots h.startAddr (l ++ ⟨n, true⟩ :: d :: r)) h h₂ := by
    have hset : ItemWrites (h.freeList :: spots h.startAddr (l ++ ⟨n, true⟩ :: d :: r)) h h₁ := by
      rw [hh₁]
      exact itemWrites_set (mem_cons_of_mem _ (mem_spots (mem_starts.2 ⟨_, hself⟩) _)) _ _
    exact hset.trans (itemWrites_of_ram (by rw [hh₂]))
  rw [hleft]
  refine ⟨_, _, rfl, hfinish, fun y => ?_, ?_, fun {y j} => ?_, ItemWrites.old ?_⟩
  · rw [offsets_true_eq, hcombines.usedRuns_eq, ← offsets_true_eq]
    exact mem_offsets_unmark hrep.shape.pos Bool.false_ne_true
  · refine ((hf₂.trans hf₃).trans hf₄).trans ?_
    split
    · exact sameFrame_linkFree _ _
    · exact .refl _
  · rw [hcombines.usedRuns_eq]
    exact mem_usedRuns_unmark (fun b hb => hrep.shape.pos b (by simp [hb]))
      (hrep.shape.pos ⟨n, true⟩ (by simp))
  · refine ((hmark.trans (hw₃.mono_starts fun x hx => hstarts ▸ hx)).trans
      (hw₄.mono_starts fun x hx => hstarts ▸ hcomb.starts_subset hx)).trans
      (hw₅.mono_starts fun x hx => hstarts ▸ hcombines.starts_subset hx)

/-! ### `rt_memheap_realloc` -/

/-- What a call that moves the end of the used block at `x` does: the used blocks are at the same
offsets, and this one has the length `m`. -/
structure Resized (h h' : Memheap) (bs bs' : List Block) (x m : ℕ) : Prop where
  inv : Inv h' bs'
  used : offsets true 0 bs' = offsets true 0 bs
  frame : SameFrame h h'
  runs : ∀ {y j}, (y, j) ∈ usedRuns 0 bs' ↔ y = x ∧ j = m ∨ (y, j) ∈ usedRuns 0 bs ∧ y ≠ x
  writes : BlockWrites h h' bs bs'

theorem offsets_true_split :
    offsets true 0 (l ++ ⟨m, true⟩ :: ⟨n, false⟩ :: r) = offsets true 0 (l ++ ⟨m + n, true⟩ :: r) := by
  simp [offsets_append, offsets, Nat.add_assoc]

theorem coalesced_free {k : ℕ} {u : Bool} (hl : Coalesced l) (hr : Coalesced r)
    (hhead : ∀ c ∈ r.head?, c.used = true) :
    Coalesced (l ++ ⟨m, true⟩ :: ⟨k, u⟩ :: r) :=
  coalesced_middle.2 ⟨hl, (coalesced_middle (l := [])).2
    ⟨isChain_nil, hr, .inr ⟨nofun, hhead⟩⟩, .inl rfl⟩

/-- The block **grows** into the free block behind it. -/
theorem Inv.growInPlace (hinv : Inv h (l ++ ⟨n, true⟩ :: ⟨m, false⟩ :: d :: r))
    (hheader : header = spot h.startAddr (total l))
    (hptr : ptr = spot h.startAddr (total l + 24)) {oldsize : UInt32}
    (hold : oldsize.toNat = n - 24) (hgt : n - 24 < newsize.toNat)
    (hlt : newsize.toNat + 12 < m - 24 + (n - 24)) :
    ∃ bs', Resized h (h.growInPlace header ptr oldsize newsize)
      (l ++ ⟨n, true⟩ :: ⟨m, false⟩ :: d :: r) bs' (total l) (newsize.toNat + 24) := by
  obtain ⟨hrep, hc, havail⟩ := hinv
  have hsizes := hrep.shape.sizes
  have hpool := h.poolSize.toNat_lt
  have hbytes := hrep.shape.freeBytes_lt
  obtain ⟨k, hk⟩ : ∃ k, n + m = newsize.toNat + 24 + k := ⟨n + m - (newsize.toNat + 24), by omega⟩
  obtain ⟨h₁, hh₁⟩ : ∃ h₁, h₁ =
    { h with availableSize := h.availableSize - (newsize - oldsize) }.updateMaxUsed := ⟨_, rfl⟩
  have hf₁ : SameFrame h h₁ :=
    hh₁ ▸ (sameFrame_setAvailable h _).trans (sameFrame_updateMaxUsed _)
  have hrep₁ := (hrep.setAvailable (h.availableSize - (newsize - oldsize))).updateMaxUsed
  rw [← hh₁] at hrep₁
  have hnext := hrep₁.next_three.1
  have hbehind : total l + n ∈ offsets false 0 (l ++ ⟨n, true⟩ :: ⟨m, false⟩ :: d :: r) :=
    mem_offsets_split.2 (.inr ⟨rfl, rfl⟩)
  -- the free block is left out, and what is left of it is made a block again
  have hrep₂ := (hrep₁.unlinkFree hbehind).removeBlock fun hc => hc.2 rfl
  have hw₁ := (hrep₁.writes_unlinkFree hbehind).trans (hrep₁.unlinkFree hbehind).writes_removeBlock
  rw [hf₁.startAddr] at hnext
  rw [(sameFrame_unlinkFree h₁ _).startAddr, hf₁.startAddr, hk] at hrep₂
  obtain ⟨h₂, hh₂⟩ : ∃ h₂, h₂ = (h₁.unlinkFree (spot h.startAddr (total l + n))).removeBlock
    (spot h.startAddr (total l + n)) := ⟨_, rfl⟩
  have hf₂ : SameFrame h h₂ := hh₂ ▸ (hf₁.trans (sameFrame_unlinkFree _ _)).trans
    (sameFrame_removeBlock _ _)
  have havail₂ : h₂.availableSize = h.availableSize - (newsize - oldsize) := by
    rw [hh₂]
    change h₁.availableSize = _
    rw [hh₁, availableSize_updateMaxUsed]
  rw [← hh₂] at hrep₂
  have hnew : ptr + newsize = spot h.startAddr (total l + (newsize.toNat + 24)) := by
    rw [hptr, spot_add, Nat.add_assoc, Nat.add_comm 24]
  have hgrow : h.growInPlace header ptr oldsize newsize =
      (h₂.makeBlock (spot h.startAddr (total l))
        (spot h.startAddr (total l + (newsize.toNat + 24)))).linkFree
        (spot h.startAddr (total l + (newsize.toNat + 24))) := by
    simp only [Memheap.growInPlace]
    rw [← hh₁, hheader, hnext, ← hh₂, hnew]
  have hrep₂ : h₂.Rep (l ++ ⟨newsize.toNat + 24 + k, true⟩ :: d :: r)
      (· ∈ offsets false 0 (l ++ ⟨newsize.toNat + 24 + k, true⟩ :: d :: r)) :=
    hrep₂.congr_free fun x => by rw [mem_offsets_merge hrep.shape.pos, hk]
  have hnot := hrep₂.shape.notMem_split (m := newsize.toNat + 24) (by omega) (by omega)
  have hrep₃ := hrep₂.makeBlock (m := newsize.toNat + 24) (n := k) (by omega) (by omega)
  have hw₃ := hrep₂.writes_makeBlock (m := newsize.toNat + 24) (n := k) (by omega) (by omega)
  rw [hf₂.startAddr] at hrep₃ hw₃
  rw [hf₂.freeList] at hw₃
  obtain ⟨h₃, hh₃⟩ : ∃ h₃, h₃ = h₂.makeBlock (spot h.startAddr (total l))
    (spot h.startAddr (total l + (newsize.toNat + 24))) := ⟨_, rfl⟩
  have hf₃ : SameFrame h h₃ := hh₃ ▸ hf₂.trans (sameFrame_makeBlock _ _ _)
  have havail₃ : h₃.availableSize = h₂.availableSize := by rw [hh₃]; rfl
  rw [← hh₃] at hrep₃ hw₃ hgrow
  have hself : total l + (newsize.toNat + 24) ∈
      starts 0 (l ++ ⟨newsize.toNat + 24, true⟩ :: ⟨k, false⟩ :: d :: r) :=
    mem_starts_split.2 (.inr rfl)
  have hrep₄ := hrep₃.linkFree hself fun hc => hnot (mem_starts.2 ⟨false, hc⟩)
  have hw₄ := hrep₃.writes_linkFree hself
  rw [hf₃.startAddr] at hrep₄ hw₄
  rw [hf₃.freeList] at hw₄
  have hram₁ : h₁.ram = h.ram := by
    rw [hh₁]
    exact ram_updateMaxUsed _
  rw [(sameFrame_unlinkFree h₁ _).startAddr, hf₁.startAddr, hf₁.freeList, ← hh₂] at hw₁
  have hw₁ := (itemWrites_of_ram hram₁).trans hw₁
  rw [hgrow]
  refine ⟨l ++ ⟨newsize.toNat + 24, true⟩ :: ⟨k, false⟩ :: d :: r,
    ⟨hrep₄.congr_free fun x => mem_offsets_split_self.symm, ?_, ?_⟩, ?_,
    hf₃.trans (sameFrame_linkFree _ _), fun {y j} => ?_, hw₁.old.trans (hw₃.trans hw₄).new⟩
  · obtain ⟨hcl, hcr, -⟩ := coalesced_middle.1 hc
    have hcr := (coalesced_middle (l := [])).1 hcr
    exact coalesced_free hcl hcr.2.1 (hcr.2.2.resolve_left nofun).2
  · change h₃.availableSize.toNat = _
    have hmid : ∀ j, freeBytes (⟨j, false⟩ :: d :: r) = j - 24 + freeBytes (d :: r) := fun _ => rfl
    rw [freeBytes_used, hmid] at havail hbytes
    rw [havail₃, havail₂, toNat_sub, toNat_sub, havail, hold, freeBytes_used, hmid]
    have hns := newsize.toNat_lt
    omega
  · rw [offsets_true_split, offsets_true_split, hk]
  · have hpos : ∀ b ∈ l, 0 < b.len := fun b hb => hrep.shape.pos b (by simp [hb])
    have hn := hrep.shape.pos ⟨n, true⟩ (by simp)
    simp only at hn
    rw [mem_usedRuns_cut hpos (by omega), mem_usedRuns_cut hpos (by omega), hk]
    grind

/-- The rest of a block that is made smaller, merged with a free block behind it. -/
theorem shrinkMerge_spec {k : ℕ} (hrep : h.Rep (l ++ ⟨m, true⟩ :: ⟨k, false⟩ :: d :: r)
      (· ∈ offsets false 0 (l ++ ⟨m + k, true⟩ :: d :: r))) (hr : Coalesced (d :: r))
    (havail : h.availableSize.toNat = freeBytes (l ++ ⟨m + k, true⟩ :: d :: r))
    {new : UInt32} (hnew : new = spot h.startAddr (total l + m)) :
    ∃ h₁ k' d' r', (if ¬ h.IsUsed (h.get new .next) then
        { h with
          availableSize := h.availableSize - h.memitemSize (h.get new .next) }.mergeNext new
      else h) = h₁ ∧
      h₁.Rep (l ++ ⟨m, true⟩ :: ⟨k', false⟩ :: d' :: r')
        (· ∈ offsets false 0 (l ++ ⟨m + k', true⟩ :: d' :: r')) ∧
      Coalesced (d' :: r') ∧ d'.used = true ∧
      h₁.availableSize.toNat = freeBytes (l ++ ⟨m + k', true⟩ :: d' :: r') ∧
      Combines (l ++ ⟨m, true⟩ :: ⟨k, false⟩ :: d :: r)
        (l ++ ⟨m, true⟩ :: ⟨k', false⟩ :: d' :: r') ∧ SameFrame h h₁ ∧
      ItemWrites (h.freeList :: spots h.startAddr (l ++ ⟨m, true⟩ :: ⟨k, false⟩ :: d :: r)) h
        h₁ := by
  obtain ⟨j, u⟩ := d
  have hself : total l + m + k ∈ offsets u 0 (l ++ ⟨m, true⟩ :: ⟨k, false⟩ :: ⟨j, u⟩ :: r) := by
    rw [mem_offsets_split, mem_offsets_split]
    exact .inl (.inr ⟨rfl, Nat.add_assoc _ _ _⟩)
  have hused := hrep.isUsed_iff hself
  have hnext := hrep.next_three.2.2
  rw [hnew, hnext]
  cases u with
  | true =>
    rw [if_neg (not_not.2 (hused.2 rfl))]
    exact ⟨h, k, _, r, rfl, hrep, hr, rfl, havail, .refl _, .refl h, .refl _ h⟩
  | false =>
    have hm : 24 ≤ m := hrep.shape.len ⟨m, true⟩ (by simp)
    have hrep' : h.Rep ((l ++ [⟨m, true⟩, ⟨k, false⟩]) ++ ⟨j, false⟩ :: r)
        (· ∈ offsets false 0 (l ++ ⟨m + k, true⟩ :: ⟨j, false⟩ :: r)) := by
      rw [append_assoc]
      exact hrep
    obtain ⟨d, r, rfl⟩ := hrep'.shape.exists_cons
    have hsize := hrep'.memitemSize
    have hshape : Shape h (l ++ ([⟨m + k, true⟩] ++ ⟨j, false⟩ :: d :: r)) :=
      Shape.replace (t := [⟨m, true⟩, ⟨k, false⟩]) hrep.shape (by simp; omega) (by simp)
    have hlt := hshape.freeBytes_lt
    have hj : 24 ≤ j := hrep.shape.len ⟨j, false⟩ (by simp)
    have hpool := h.poolSize.toNat_lt
    have hhead := (coalesced_middle (l := [])).1 hr
    simp only [total_append, total_cons, total_nil, Nat.add_zero, ← Nat.add_assoc] at hsize
    obtain ⟨v, hv⟩ : ∃ v, v =
      h.availableSize - h.memitemSize (spot h.startAddr (total l + m + k)) := ⟨_, rfl⟩
    obtain ⟨h₁, hh₁⟩ : ∃ h₁, h₁ = { h with availableSize := v } := ⟨_, rfl⟩
    have hf₁ : SameFrame h h₁ := hh₁ ▸ sameFrame_setAvailable h _
    have hrep₁ := hrep.setAvailable v
    rw [← hh₁, append_cons] at hrep₁
    have hmem : total (l ++ [⟨m, true⟩]) + k ∈
        offsets false 0 (l ++ ⟨m + k, true⟩ :: ⟨j, false⟩ :: d :: r) := by
      simp only [total_append, total_cons, total_nil, Nat.add_zero]
      rw [Nat.add_assoc, mem_offsets_split]
      exact .inr ⟨rfl, rfl⟩
    have hrep₂ := hrep₁.mergeNext hmem
    have hw₂ := hrep₁.writes_mergeNext hmem
    simp only [total_append, total_cons, total_nil, Nat.add_zero, ← append_cons,
      hf₁.startAddr] at hrep₂
    simp only [total_append, total_cons, total_nil, Nat.add_zero, ← append_cons,
      hf₁.startAddr, hf₁.freeList] at hw₂
    have hcomb : Combines ((l ++ [⟨m, true⟩]) ++ ⟨k, false⟩ :: ⟨j, false⟩ :: d :: r)
        ((l ++ [⟨m, true⟩]) ++ ⟨k + j, false⟩ :: d :: r) := .step (.refl _)
    rw [← append_cons, ← append_cons] at hcomb
    rw [if_pos fun hc => Bool.false_ne_true (hused.1 hc), ← hv, ← hh₁]
    refine ⟨_, k + j, d, r, rfl, hrep₂.congr_free fun x => ?_, hhead.2.1,
      (hhead.2.2.resolve_left nofun).2 d rfl, ?_, hcomb, hf₁.trans (sameFrame_mergeNext _ _),
      (itemWrites_of_ram (by rw [hh₁])).trans hw₂⟩
    · rw [← Nat.add_assoc, ← mem_offsets_merge hshape.pos, Nat.add_assoc]
    · change h₁.availableSize.toNat = _
      have hmid : freeBytes (⟨j, false⟩ :: d :: r) = j - 24 + freeBytes (d :: r) := rfl
      rw [singleton_append, freeBytes_used, hmid] at hlt
      rw [freeBytes_used, hmid] at havail
      rw [hh₁, hv, toNat_sub, havail, hsize, freeBytes_used]
      omega

/-- The block **shrinks**. -/
theorem Inv.shrinkInPlace (hinv : Inv h (l ++ ⟨n, true⟩ :: d :: r))
    (hheader : header = spot h.startAddr (total l)) (hlt : newsize.toNat + 60 < n) :
    ∃ bs', Resized h (h.shrinkInPlace header newsize) (l ++ ⟨n, true⟩ :: d :: r) bs' (total l)
      (newsize.toNat + 24) := by
  obtain ⟨hrep, hc, havail⟩ := hinv
  have h24 : memheapSize.toNat = 24 := rfl
  have hpool := h.poolSize.toNat_lt
  obtain ⟨k, rfl⟩ : ∃ k, n = newsize.toNat + 24 + k := ⟨n - (newsize.toNat + 24), by omega⟩
  obtain ⟨new, hnew⟩ : ∃ new, new = header + newsize + memheapSize := ⟨_, rfl⟩
  have hnew' : new = spot h.startAddr (total l + (newsize.toNat + 24)) := by
    rw [hnew, hheader, spot_add, spot_add, h24, Nat.add_assoc]
  obtain ⟨hcl, hcr, -⟩ := coalesced_middle.1 hc
  have hrep₁ := hrep.makeBlock (m := newsize.toNat + 24) (n := k) (by omega) (by omega)
  have hw₁ := hrep.writes_makeBlock (m := newsize.toNat + 24) (n := k) (by omega) (by omega)
  rw [← hnew', ← hheader] at hrep₁ hw₁
  obtain ⟨h₁, hh₁⟩ : ∃ h₁, h₁ = h.makeBlock header new := ⟨_, rfl⟩
  have hf₁ : SameFrame h h₁ := hh₁ ▸ sameFrame_makeBlock h _ _
  have havail₁ : h₁.availableSize.toNat = freeBytes (l ++ ⟨newsize.toNat + 24 + k, true⟩ :: d :: r) := by
    rw [← havail, hh₁]
    rfl
  rw [← hh₁] at hrep₁ hw₁
  have hnew₁ : new = spot h₁.startAddr (total l + (newsize.toNat + 24)) := by
    rw [hf₁.startAddr, hnew']
  obtain ⟨h₂, k', d', r', heq, hrep₂, hcr', hd', havail₂, hcomb, hf₂, hw₂⟩ :=
    shrinkMerge_spec hrep₁ hcr havail₁ hnew₁
  rw [hf₁.startAddr, hf₁.freeList] at hw₂
  obtain ⟨v, hv⟩ : ∃ v, v = h₂.availableSize + (h₂.linkFree new).memitemSize new := ⟨_, rfl⟩
  have hshrink : h.shrinkInPlace header newsize = { h₂.linkFree new with availableSize := v } := by
    simp only [Memheap.shrinkInPlace]
    rw [← hnew, ← hh₁, heq, hv]
    rfl
  have hf := hf₁.trans hf₂
  -- the rest is inserted into the free list
  have hshape : Shape h₂ (l ++ ([⟨newsize.toNat + 24 + k', true⟩] ++ d' :: r')) :=
    Shape.replace (t := [⟨newsize.toNat + 24, true⟩, ⟨k', false⟩]) hrep₂.shape (by simp; omega)
      (by simp)
  have hk' : 24 ≤ k' := hrep₂.shape.len ⟨k', false⟩ (by simp)
  have hshape' : Shape h₂ (l ++ ⟨newsize.toNat + 24 + k', true⟩ :: d' :: r') := hshape
  have hnot := hshape'.notMem_split (by omega) (by omega)
  have hrep₃ := hrep₂.linkFree (mem_starts_split.2 (.inr rfl)) fun hc =>
    hnot (mem_starts.2 ⟨false, hc⟩)
  have hw₃ := hrep₂.writes_linkFree (mem_starts_split.2 (.inr rfl))
  rw [hf.startAddr, ← hnew'] at hrep₃
  rw [hf.startAddr, hf.freeList, ← hnew'] at hw₃
  have hrep₄ : (h₂.linkFree new).Rep ((l ++ [⟨newsize.toNat + 24, true⟩]) ++ ⟨k', false⟩ :: d' :: r')
      _ := append_cons _ _ _ ▸ hrep₃
  have hsize := hrep₄.memitemSize
  rw [(sameFrame_linkFree h₂ _).startAddr, hf.startAddr] at hsize
  simp only [total_append, total_cons, total_nil, Nat.add_zero, ← hnew'] at hsize
  -- the blocks in between begin where blocks begin before or afterwards
  have hbetween : BlockWrites h h₁ (l ++ ⟨newsize.toNat + 24 + k, true⟩ :: d :: r)
      (l ++ ⟨newsize.toNat + 24, true⟩ :: ⟨k', false⟩ :: d' :: r') ∧
      ItemWrites (h.freeList :: (spots h.startAddr (l ++ ⟨newsize.toNat + 24 + k, true⟩ :: d :: r) ++
        spots h.startAddr (l ++ ⟨newsize.toNat + 24, true⟩ :: ⟨k', false⟩ :: d' :: r'))) h₁ h₂ := by
    have hsub : ∀ a ∈ h.freeList ::
        spots h.startAddr (l ++ ⟨newsize.toNat + 24, true⟩ :: ⟨k, false⟩ :: d :: r),
        a ∈ h.freeList :: (spots h.startAddr (l ++ ⟨newsize.toNat + 24 + k, true⟩ :: d :: r) ++
          spots h.startAddr (l ++ ⟨newsize.toNat + 24, true⟩ :: ⟨k', false⟩ :: d' :: r')) := by
      intro a ha
      rcases mem_cons.1 ha with rfl | ha
      · exact mem_cons_self
      · obtain ⟨x, hx, rfl⟩ := List.mem_map.1 ha
        rcases mem_starts_split.1 hx with hx | rfl
        · exact mem_cons_of_mem _ (mem_append_left _ (mem_spots hx _))
        · exact mem_cons_of_mem _ (mem_append_right _
            (mem_spots (mem_starts_split.2 (.inr rfl)) _))
    exact ⟨hw₁.mono hsub, hw₂.mono hsub⟩
  rw [hshrink]
  refine ⟨l ++ ⟨newsize.toNat + 24, true⟩ :: ⟨k', false⟩ :: d' :: r',
    ⟨(hrep₃.congr_free fun x => mem_offsets_split_self.symm).setAvailable _, ?_, ?_⟩, ?_,
    (hf.trans (sameFrame_linkFree h₂ _)).trans (sameFrame_setAvailable _ _), fun {y j} => ?_,
    (hbetween.1.trans hbetween.2).trans (hw₃.new.trans (itemWrites_of_ram (by rfl)))⟩
  · refine coalesced_free hcl hcr' fun c hc => ?_
    obtain rfl : d' = c := by simpa using hc
    exact hd'
  · have hlt := hrep₂.shape.freeBytes_lt
    have hpool := h₂.poolSize.toNat_lt
    have hmid : freeBytes (⟨k', false⟩ :: d' :: r') = k' - 24 + freeBytes (d' :: r') := rfl
    rw [freeBytes_used, hmid] at hlt ⊢
    rw [freeBytes_used] at havail₂
    rw [hv, toNat_add, havail₂, hsize]
    omega
  · rw [offsets_true_eq, hcomb.usedRuns_eq, ← offsets_true_eq, offsets_true_split]
  · rw [hcomb.usedRuns_eq]
    exact mem_usedRuns_cut (fun b hb => hrep.shape.pos b (by simp [hb])) (by omega)

end Memheap

end RtThread
