import McCortexM3.Mem.MemheapLive

/-!
# The memory heap is tiled by its blocks

In every run, the blocks that are found by following `next` from the start of the region on tile
it, the free list holds the free ones, and the used ones before the tailer are those that the
threads have got.

`rt_memheap_init` makes no such blocks in a region that is too small for an item and the tailer.
And `rt_memheap_realloc` compares the bytes that a block can grow into with `newsize +
RT_MEMHEAP_MINIALLOC`, which wraps around for the three largest sizes: the block then ends before
it begins.

## Main definitions

* `TilesPool` — what is to hold of the blocks.

## Main results

* `run_tilesPool` — it holds in such runs.
* `not_run_tilesPool` — what happens in other runs.
-/

set_option linter.all false

namespace RtThread

open List ByteMemory Tiling

namespace MemheapRun

open Memheap

/-- The number of bytes in the payload of the block `item`. -/
def payload (h : Memheap) (item : UInt32) : ℕ := (h.memitemSize item).toNat

/-- The blocks `items`, in the order of `next`: they tile the region, the last one being the
tailer; no two free ones are neighbours; the free list holds the free ones, whose payloads make up
`available_size`; and the used ones before the tailer are those of the live pointers.  The payload
of a block begins behind its item and ends where the next block begins. -/
structure TilesPool (h : Memheap) (live items : List UInt32) : Prop where
  first : items.head? = some h.startAddr
  linked : items.IsChain fun p q => h.get p .next = q ∧ h.get q .prev = p
  ordered : items.IsChain fun p q => p.toNat + 24 + payload h p = q.toNat
  last : ∀ p ∈ items.getLast?, h.IsUsed p ∧ h.get p .next = h.startAddr ∧
    h.get h.startAddr .prev = p ∧ p.toNat + 24 = h.startAddr.toNat + h.poolSize.toNat
  coalesced : items.IsChain fun p q => h.IsUsed p ∨ h.IsUsed q
  freeList : ∃ frees, Circular h.freeLinks h.freeList frees ∧
    ∀ p, p ∈ frees ↔ p ∈ items ∧ ¬ h.IsUsed p
  available : h.availableSize.toNat =
    ((items.filter fun p => ¬ h.IsUsed p).map fun p => payload h p).sum
  nodup : live.Nodup
  disjoint : live.Pairwise fun a b =>
    a.toNat + payload h (a - memheapSize) ≤ b.toNat ∨
      b.toNat + payload h (b - memheapSize) ≤ a.toNat
  live : ∀ a, a ∈ live ↔ ∃ p ∈ items.dropLast, h.IsUsed p ∧ a = p + memheapSize

variable {h h₀ : Memheap} {bs l r : List Block} {b d : Block} {live : List UInt32} {x : ℕ}
variable {P : ℕ → Prop}

theorem isChain_spots {start : UInt32} {R : UInt32 → UInt32 → Prop}
    (hR : ∀ l (b : Block) c r, bs = l ++ b :: c :: r →
      R (spot start (total l)) (spot start (total l + b.len))) : (spots start bs).IsChain R := by
  rw [spots, isChain_map]
  apply isChain_starts
  intro l b c r hsplit
  rw [Nat.zero_add]
  exact hR l b c r hsplit

theorem isUsed_middle (hrep : h.Rep (l ++ b :: r) P) :
    h.IsUsed (spot h.startAddr (total l)) ↔ b.used = true := by
  apply hrep.isUsed_iff
  simpa using mem_offsets_middle 0 l b.len b.used r

theorem ordered_spots (hrep : h.Rep bs P) :
    (spots h.startAddr bs).IsChain fun p q => p.toNat + 24 + payload h p = q.toNat := by
  apply isChain_spots
  rintro l b c r rfl
  have hb := hrep.shape.len b (by simp)
  have hself : total l ∈ starts 0 (l ++ b :: c :: r) := by
    rw [starts_middle]
    simp
  have hnext : total l + b.len ∈ starts 0 (l ++ b :: c :: r) := by
    rw [starts_middle, starts]
    simp
  rw [payload, hrep.memitemSize, hrep.shape.toNat_spot hself, hrep.shape.toNat_spot hnext]
  omega

theorem coalesced_spots (hrep : h.Rep bs P) (hc : Coalesced bs) :
    (spots h.startAddr bs).IsChain fun p q => h.IsUsed p ∨ h.IsUsed q := by
  apply isChain_spots
  rintro l b c r rfl
  have hrep' : h.Rep ((l ++ [b]) ++ c :: r) P := append_cons _ _ _ ▸ hrep
  have hused' := isUsed_middle hrep'
  rw [total_append, total_cons, total_nil, Nat.add_zero] at hused'
  rw [isUsed_middle hrep, hused']
  by_cases hb : b.used = true
  · exact .inl hb
  · exact .inr (((coalesced_middle.1 hc).2.2.resolve_left hb).2 c rfl)

theorem mem_spots_free (hrep : h.Rep bs P) (p : UInt32) :
    p ∈ (spots h.startAddr bs) ∧ ¬ h.IsUsed p ↔ ∃ x ∈ offsets false 0 bs, p = spot h.startAddr x := by
  constructor
  · rintro ⟨hp, hfree⟩
    obtain ⟨x, hx, rfl⟩ := mem_map.1 hp
    obtain ⟨u, hu⟩ := mem_starts.1 hx
    cases u with
    | false => exact ⟨x, hu, rfl⟩
    | true => exact absurd ((hrep.isUsed_iff hu).2 rfl) hfree
  · rintro ⟨x, hx, rfl⟩
    exact ⟨mem_spots (mem_starts.2 ⟨false, hx⟩) _, fun hc => Bool.false_ne_true
      ((hrep.isUsed_iff hx).1 hc)⟩

theorem sum_payload (hrep : h.Rep (l ++ r) P) :
    ((((starts (total l) r).map (spot h.startAddr)).filter fun p => ¬ h.IsUsed p).map
      fun p => payload h p).sum = freeBytes r := by
  induction r generalizing l with
  | nil => rfl
  | cons b r ih =>
    have hrep' : h.Rep ((l ++ [b]) ++ r) P := append_cons _ _ _ ▸ hrep
    have hrest := ih hrep'
    rw [total_append, total_cons, total_nil, Nat.add_zero] at hrest
    have hused := isUsed_middle hrep
    rw [starts, map_cons, freeBytes_cons]
    cases hb : b.used with
    | true =>
      rw [filter_cons_of_neg (by simpa [hb] using hused), hrest, if_pos rfl, Nat.zero_add]
    | false =>
      obtain ⟨n, u⟩ := b
      obtain rfl : u = false := hb
      obtain ⟨d, r, rfl⟩ := hrep.shape.exists_cons
      rw [filter_cons_of_pos (by simpa using hused), map_cons, sum_cons, hrest,
        payload, hrep.memitemSize]
      rfl

theorem disjoint_live (hinv : Inv h bs) (hlive : Live h bs live) :
    live.Pairwise fun a b => a.toNat + payload h (a - memheapSize) ≤ b.toNat ∨
      b.toNat + payload h (b - memheapSize) ≤ a.toNat := by
  have hbefore : ∀ a ∈ live, ∀ b ∈ live, a.toNat < b.toNat →
      a.toNat + payload h (a - memheapSize) ≤ b.toNat := by
    intro a ha b hb hlt
    obtain ⟨l, n, d, r, rfl, -, ha', hheader⟩ := hlive.block hinv ha
    obtain ⟨hsize, hn, -⟩ := Inv.oldsize hinv
    obtain ⟨l', n', d', r', hbs, -, hb', -⟩ := hlive.block hinv hb
    rw [hheader, payload, hsize]
    have hself : total l' ∈ starts 0 (l ++ ⟨n, true⟩ :: d :: r) := by
      rw [hbs, starts_middle]
      simp
    rw [starts_middle, mem_append, mem_cons] at hself
    have hlen := hinv.rep.shape.len
    rcases hself with hself | hself | hself
    · have hbound := mem_starts_bounds (fun b hb => hlen b (by simp [hb])) hself
      omega
    · omega
    · have hbound := mem_starts_bounds (fun b hb => hlen b (mem_append_right _
        (mem_cons_of_mem _ hb))) hself
      simp only at hbound
      omega
  have hne : live.Pairwise fun a b => a ≠ b := hlive.nodup
  refine hne.imp_of_mem fun {a b} ha hb hab => ?_
  rcases Nat.lt_or_gt_of_ne fun heq => hab (UInt32.toNat_inj.1 heq) with hlt | hlt
  · exact .inl (hbefore a ha b hb hlt)
  · exact .inr (hbefore b hb a ha hlt)

theorem live_spots (hinv : Inv h bs) (hlive : Live h bs live) (a : UInt32) :
    a ∈ live ↔ ∃ p ∈ (spots h.startAddr bs).dropLast, h.IsUsed p ∧ a = p + memheapSize := by
  have h24 : memheapSize.toNat = 24 := rfl
  obtain ⟨body, rfl⟩ := getLast?_eq_some_iff.1 hinv.rep.shape.tail
  have hdrop : (spots h.startAddr (body ++ [⟨24, true⟩])).dropLast = spots h.startAddr body := by
    rw [spots_middle, starts, map_nil, dropLast_concat]
  have hlen := hinv.rep.shape.len
  rw [hdrop, hlive.mem]
  constructor
  · rintro ⟨x, hx, hlt, rfl⟩
    have hused := hinv.rep.isUsed_iff hx
    rw [offsets_append, mem_append] at hx
    rcases hx with hx | hx
    · exact ⟨_, mem_spots (mem_starts.2 ⟨true, hx⟩) _, hused.2 rfl, by rw [spot_add, h24]⟩
    · obtain rfl : x = total body := by simpa [offsets] using hx
      simp at hlt
  · rintro ⟨p, hp, hused, rfl⟩
    obtain ⟨x, hx, rfl⟩ := mem_map.1 hp
    obtain ⟨u, hu⟩ := mem_starts.1 hx
    have hu' : x ∈ offsets u 0 (body ++ [⟨24, true⟩]) := by
      rw [offsets_append]
      exact mem_append_left _ hu
    obtain rfl := (hinv.rep.isUsed_iff hu').1 hused
    have hbound := mem_starts_bounds (fun b hb => hlen b (by simp [hb])) hx
    exact ⟨x, hu', by simp; omega, spot_add _ _ _⟩

theorem ends_spots (hrep : h.Rep bs P) :
    (spots h.startAddr bs).head? = some h.startAddr ∧
      ∀ p ∈ (spots h.startAddr bs).getLast?, h.IsUsed p ∧ h.get p .next = h.startAddr ∧
        h.get h.startAddr .prev = p ∧ p.toNat + 24 = h.startAddr.toNat + h.poolSize.toNat := by
  obtain ⟨body, rfl⟩ := getLast?_eq_some_iff.1 hrep.shape.tail
  have htotal := hrep.shape.total_eq
  rw [total_append, total_cons, total_nil, Nat.add_zero] at htotal
  have hspots : spots h.startAddr (body ++ [⟨24, true⟩]) =
      spots h.startAddr body ++ [spot h.startAddr (total body)] := by
    rw [spots_middle, starts, map_nil]
  have hself : total body ∈ starts 0 (body ++ [⟨24, true⟩]) := by
    rw [starts_middle]
    simp
  have hring := hrep.ring
  rw [hspots] at hring ⊢
  rw [getLast?_concat]
  have hends : (spots h.startAddr body ++ [spot h.startAddr (total body)]).head? =
      some h.startAddr ∧ h.get (spot h.startAddr (total body)) .next = h.startAddr ∧
        h.get h.startAddr .prev = spot h.startAddr (total body) := by
    cases body with
    | nil =>
      have hself := Circular.path hring
      rw [spots, starts, map_nil, total_nil, spot_zero] at *
      exact ⟨rfl, hself.1, hself.2⟩
    | cons b body =>
      have hfirst : spots h.startAddr (b :: body) = h.startAddr ::
          (starts (0 + b.len) body).map (spot h.startAddr) := by
        rw [spots, starts, map_cons, spot_zero]
      rw [hfirst, cons_append] at hring ⊢
      exact ⟨rfl, hring.next_last.1, hring.next_last.2⟩
  refine ⟨hends.1, fun p hp => ?_⟩
  obtain rfl : spot h.startAddr (total body) = p := by simpa using hp
  refine ⟨(isUsed_middle hrep).2 rfl, hends.2.1, hends.2.2, ?_⟩
  rw [hrep.shape.toNat_spot hself]
  simp only at htotal
  omega

theorem tilesPool (hr : Right h₀ h live) :
    ∃ bs, Inv h bs ∧ TilesPool h live (spots h.startAddr bs) := by
  obtain ⟨bs, hinv, hlive, -⟩ := hr
  have hrep := hinv.rep
  obtain ⟨fl, hcirc, hmem⟩ := hrep.free
  obtain ⟨hfirst, hlast⟩ := ends_spots hrep
  refine ⟨bs, hinv, hfirst, ?_, ordered_spots hrep, hlast, coalesced_spots hrep hinv.coalesced,
    ⟨_, hcirc, ?_⟩, ?_, hlive.nodup, disjoint_live hinv hlive, live_spots hinv hlive⟩
  · apply isChain_spots
    rintro l b c r rfl
    exact hrep.next_eq
  · intro p
    rw [mem_spots_free hrep, mem_map]
    simp only [hmem, eq_comm (a := p)]
  · rw [hinv.available]
    exact (sum_payload (l := []) hrep).symm

theorem TilesPool.le_next {items : List UInt32} (ht : TilesPool h live items)
    (hne : h.get h.startAddr .next ≠ h.startAddr) :
    h.startAddr.toNat + 24 ≤ (h.get h.startAddr .next).toNat := by
  have hfirst := ht.first
  have hlinked := ht.linked
  have hordered := ht.ordered
  match items with
  | [] => cases hfirst
  | [p] =>
    obtain rfl : p = h.startAddr := by simpa using hfirst
    exact absurd (ht.last h.startAddr rfl).2.1 hne
  | p :: q :: items =>
    obtain rfl : p = h.startAddr := by simpa using hfirst
    have hpq := (isChain_cons_cons.1 hordered).1
    rw [(isChain_cons_cons.1 hlinked).1.1]
    omega

/-! ### The runs -/

/-- In every run in a region that has place for the blocks, and in which no block is to grow to a
size that wraps around, the blocks tile the region, and the free list holds the free ones. -/
theorem run_tilesPool (fuel : ℕ) (ram : ℕ → UInt8) (addr freeHeader startAddr size : UInt32)
    (hregion : Region freeHeader startAddr size) (returned : List UInt32) (s : MemheapRun)
    (hrun : Run (step fuel) GrowFits ⟨rtMemheapInit ram addr freeHeader startAddr size, []⟩
      returned s) :
    s.heap.startAddr = startAddr ∧ s.heap.poolSize = rtAlignDown size ∧
      ∃ items, TilesPool s.heap s.live items := by
  have hr := run_right hregion rfl hrun
  obtain ⟨bs, -, htiles⟩ := tilesPool hr
  obtain ⟨-, -, -, hframe⟩ := hr
  exact ⟨hframe.startAddr, hframe.poolSize, _, htiles⟩

/-- The first of three blocks grows and shrinks in place, is moved, and given back. -/
def growAndMove : List MemheapAction :=
  [.alloc 20, .realloc 0x1018 50, .alloc 8, .realloc 0x1018 4, .write 0x1018 7, .alloc 30,
    .realloc 0x1018 100, .free 0x1064]

theorem run_tilesPool_growAndMove :
    ∃ s : MemheapRun, s.live = [0x10c0, 0x1088] ∧ ∃ items, TilesPool s.heap s.live items := by
  have hsome : (exec (step 9) GrowFits
      ⟨rtMemheapInit (fun _ => 0) 0x100 0x200 0x1000 0x203, []⟩ growAndMove).any fun r =>
        r.1.live = [0x10c0, 0x1088] := by
    decide +kernel
  obtain ⟨s, returned, hrun, hlive⟩ := Run.of_any hsome
  have hregion : Region 0x200 0x1000 0x203 := ⟨by decide, by decide, by decide⟩
  obtain ⟨-, -, htiles⟩ :=
    run_tilesPool 9 _ 0x100 0x200 0x1000 0x203 hregion returned s hrun
  exact ⟨s, hlive, htiles⟩

/-- A block that is to grow to a size that wraps around **ends before it begins**. -/
theorem not_run_tilesPool :
    ¬ ∀ (fuel : ℕ) (ram : ℕ → UInt8) (addr freeHeader startAddr size : UInt32)
      (_ : Region freeHeader startAddr size) (returned : List UInt32) (s : MemheapRun)
      (_ : Run (step fuel) (fun _ _ => True)
        ⟨rtMemheapInit ram addr freeHeader startAddr size, []⟩ returned s),
      ∃ items, TilesPool s.heap s.live items := by
  intro hall
  have hsome : (exec (step 9) (fun _ _ => True)
      ⟨rtMemheapInit (fun _ => 0) 0x100 0x200 0x1000 0x100, []⟩
      [.alloc 20, .realloc 0x1018 0xfffffff4]).any fun r =>
        r.1.heap.startAddr = 0x1000 ∧ r.1.heap.get 0x1000 .next = 0x100c := by
    decide +kernel
  obtain ⟨s, returned, hrun, hfacts⟩ := Run.of_any hsome
  obtain ⟨hstart, hnext⟩ : s.heap.startAddr = 0x1000 ∧ s.heap.get 0x1000 .next = 0x100c :=
    hfacts
  have hregion : Region 0x200 0x1000 0x100 := ⟨by decide, by decide, by decide⟩
  obtain ⟨items, ht⟩ := hall 9 _ 0x100 0x200 0x1000 0x100 hregion returned s hrun
  have hle := ht.le_next (by rw [hstart, hnext]; decide)
  rw [hstart, hnext] at hle
  exact absurd hle (by decide)

end MemheapRun

end RtThread
