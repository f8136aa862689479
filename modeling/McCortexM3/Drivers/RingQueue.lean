import McCortexM3.Drivers.RingBlock
import Mathlib.Data.List.Chain

/-!
# Queues of ring blocks

What `rt_rbb_blk_queue_get` of `ringblk_buf.c` returns: the first block of `blk_list` that has been
put, and those that follow it while they have been put, do not lie below the one before, and do
not exceed the length that is asked for.  The queue is the address of its first block and their
number, so that it is an array in `blk_set`; that the blocks follow each other there, and in memory
without a gap, is not looked at.  Nor is the length of the first block.

## Main definitions

* `Rbb.puts` — the list from the first block on that has been put.
* `Rbb.Joined` — the tests of the loop, for a queue of several blocks.
* `Rbb.QueueSound` — the queue that is returned is one, and freeing it frees its blocks.
* `Rbb.Orderly` — what the loop does not test.

## Main results

* `Rbb.queueGet_cases` — the blocks that are taken are the longest list that passes the tests.
* `RbbSys.run_nodup` — no block is twice in the list, in any run.
* `Rbb.queueSound_iff` — the queue is sound exactly if the blocks are orderly.
-/

set_option linter.all false

namespace RtThread

open Function Option List

/-! ### Prefixes -/

section

variable {α : Type*} {l t : List α} {a : α}

theorem eq_of_infix_of_cons {s s' : List α} (hnodup : l.Nodup) (h : a :: s <:+: l)
    (h' : a :: s' <:+: l) (hlength : s.length = s'.length) : s = s' := by
  obtain ⟨p, q, rfl⟩ := h
  obtain ⟨p', q', heq⟩ := h'
  simp only [append_assoc, cons_append] at hnodup heq
  have hnot : a ∉ p ∧ a ∉ s ++ q := by
    obtain ⟨-, hcons, hdisjoint⟩ := nodup_append.1 hnodup
    exact ⟨fun hm => hdisjoint a hm a (mem_cons_self ..) rfl, (nodup_cons.1 hcons).1⟩
  obtain ⟨-, -, hrest⟩ := (append_cons_inj_of_notMem hnot.1 hnot.2).1 heq.symm
  exact (append_inj hrest hlength).1

theorem eq_range'_of_isChain {f : ℕ} {s : List ℕ} (h : (f :: s).IsChain fun x y => y = x + 1) :
    f :: s = range' f (s.length + 1) := by
  induction s generalizing f with
  | nil => rfl
  | cons g s ih =>
    obtain ⟨rfl, htail⟩ := isChain_cons_cons.1 h
    exact congrArg (f :: ·) (ih htail)

theorem isChain_iff_neighbours {R : α → α → Prop} :
    l.IsChain R ↔ ∀ t x y, t ++ [x, y] <+: l → R x y := by
  rw [isChain_iff_forall_rel_of_append_cons_cons]
  constructor
  · rintro h t x y ⟨u, rfl⟩
    have heq : t ++ [x, y] ++ u = t ++ x :: y :: u := by simp
    exact h heq
  · rintro h x y t u rfl
    exact h t x y ⟨u, by simp⟩

end

namespace Rbb

/-! ### The tests of the loop -/

/-- The list from the first block on that has been put. -/
def puts (r : Rbb) : List ℕ := r.blkList.dropWhile fun i => (r.blkSet i).status ≠ .put

/-- The sizes of some blocks, as the code adds them. -/
def sizes (r : Rbb) (l : List ℕ) : UInt32 := l.foldl (fun n i => n + (r.blkSet i).size) 0

/-- How many bytes some blocks have. -/
def bytes (r : Rbb) (l : List ℕ) : ℕ := (l.map fun i => (r.blkSet i).size.toNat).sum

/-- The block `y` passes the tests after the blocks `l`, the last of which is `x`. -/
structure Follows (r : Rbb) (len : UInt32) (l : List ℕ) (x y : ℕ) : Prop where
  put : (r.blkSet y).status = .put
  above : (r.blkSet x).buf ≤ (r.blkSet y).buf
  fits : r.sizes (l ++ [x]) + (r.blkSet y).size ≤ len

/-- Each block of the list but the first passes the tests after those before it. -/
def Joined (r : Rbb) (len : UInt32) (l : List ℕ) : Prop :=
  ∀ t x y, t ++ [x, y] <+: l → r.Follows len t x y

/-- The block `y` begins where `x` ends. -/
def Meets (r : Rbb) (x y : ℕ) : Prop :=
  (r.blkSet x).buf.toNat + (r.blkSet x).size.toNat = (r.blkSet y).buf.toNat

/-- What the loop does not test.  The first block that has been put is not longer than what is
asked for; a block that is taken after another one is the next in `blk_set` and begins where that
one ends; and the sum of the sizes does not go round. -/
structure Orderly (r : Rbb) (len : UInt32) : Prop where
  first : ∀ i ∈ r.puts.head?, (r.blkSet i).size ≤ len
  next : ∀ l x y, l ++ [x, y] <+: r.puts → r.Joined len (l ++ [x, y]) → y = x + 1 ∧ r.Meets x y
  total : ∀ l, l <+: r.puts → r.Joined len l → r.bytes l < 2 ^ 32

variable {r : Rbb} {len : UInt32} {l t s : List ℕ} {x y i f : ℕ}

theorem sizes_append (r : Rbb) (l : List ℕ) (i : ℕ) :
    r.sizes (l ++ [i]) = r.sizes l + (r.blkSet i).size := foldl_append

theorem toNat_sizes (r : Rbb) (l : List ℕ) : (r.sizes l).toNat = r.bytes l % 2 ^ 32 := by
  induction l using reverseRecOn with
  | nil => rfl
  | append_singleton l i ih =>
    have hbytes : r.bytes (l ++ [i]) = r.bytes l + (r.blkSet i).size.toNat := by
      rw [bytes, bytes, map_append, sum_append]
      rfl
    rw [sizes_append, UInt32.toNat_add, ih, hbytes]
    omega

theorem bytes_le_of_prefix (h : s <+: l) : r.bytes s ≤ r.bytes l := by
  obtain ⟨u, rfl⟩ := h
  rw [bytes, bytes, map_append, sum_append]
  exact Nat.le_add_right ..

theorem Joined.of_prefix (h : r.Joined len l) (hs : s <+: l) : r.Joined len s :=
  fun t x y ht => h t x y (ht.trans hs)

theorem joined_singleton (r : Rbb) (len : UInt32) (f : ℕ) : r.Joined len [f] := by
  intro t x y h
  have hlength := h.length_le
  simp at hlength

theorem joined_append :
    r.Joined len (t ++ [x, y]) ↔ r.Joined len (t ++ [x]) ∧ r.Follows len t x y := by
  have hsnoc : t ++ [x, y] = (t ++ [x]) ++ [y] := by simp
  constructor
  · intro h
    exact ⟨h.of_prefix (hsnoc ▸ prefix_append ..), h t x y prefix_rfl⟩
  · rintro ⟨h, hlast⟩ t' x' y' hpre
    rw [hsnoc] at hpre
    rcases prefix_concat_iff.1 hpre with heq | hpre
    · -- the two blocks are the last
      have hsnoc' : t' ++ [x', y'] = (t' ++ [x']) ++ [y'] := by simp
      rw [hsnoc'] at heq
      obtain ⟨hinit, hy⟩ := append_inj' heq rfl
      obtain ⟨ht, hx⟩ := append_inj' hinit rfl
      cases hy
      cases hx
      cases ht
      exact hlast
    · exact h t' x' y' hpre

/-! ### The blocks that are taken -/

/-- Some blocks are taken out of the list. -/
def takeOut (r : Rbb) (t : List ℕ) : Rbb :=
  { r with
    blkSet := fun i => if i ∈ t then { r.blkSet i with status := .get } else r.blkSet i
    blkList := r.blkList.filter (· ∉ t) }

theorem takeOut_nil (r : Rbb) : r.takeOut [] = r := by
  simp [takeOut]

theorem takeOut_append (r : Rbb) (t : List ℕ) (hi : i ∉ t) :
    ((r.takeOut t).rtSlistRemove i).setStatus i .get = r.takeOut (t ++ [i]) := by
  have hset : Function.update (r.takeOut t).blkSet i
      { (r.takeOut t).blkSet i with status := .get } = (r.takeOut (t ++ [i])).blkSet := by
    funext j
    simp only [takeOut, update_apply, mem_append, mem_singleton]
    by_cases hj : j = i
    · subst hj
      simp [hi]
    · simp [hj]
  have hlist : (r.takeOut t).blkList.filter (· ≠ i) = (r.takeOut (t ++ [i])).blkList := by
    simp only [takeOut, List.filter_filter]
    refine filter_congr fun j _ => ?_
    simp [and_comm]
  rw [setStatus, rtSlistRemove, hset, hlist]
  rfl

/-- **The loop after the first block** takes the blocks that pass the tests. -/
theorem exists_queueGetLoop (r : Rbb) (len : UInt32) {nodes : List ℕ}
    (hnodup : (t ++ [x] ++ nodes).Nodup) (h : r.Joined len (t ++ [x])) :
    ∃ s, s <+: nodes ∧ r.Joined len (t ++ [x] ++ s) ∧
      (∀ y, s ++ [y] <+: nodes → ¬ r.Joined len (t ++ [x] ++ s ++ [y])) ∧
      queueGetLoop len nodes (r.takeOut (t ++ [x])) (r.sizes (t ++ [x])) (t ++ [x]) =
        (r.takeOut (t ++ [x] ++ s), r.sizes (t ++ [x] ++ s), t ++ [x] ++ s) := by
  induction nodes generalizing t x with
  | nil => exact ⟨[], prefix_rfl, by simpa using h, by simp, by simp [queueGetLoop]⟩
  | cons i nodes ih =>
    have hi : i ∉ t ++ [x] := by
      intro hm
      exact (nodup_append.1 hnodup).2.2 i hm i (mem_cons_self ..) rfl
    have hblock : (r.takeOut (t ++ [x])).blkSet i = r.blkSet i := if_neg hi
    have hbuf : ((r.takeOut (t ++ [x])).blkSet x).buf = (r.blkSet x).buf := by
      have hx : (r.takeOut (t ++ [x])).blkSet x = { r.blkSet x with status := .get } :=
        if_pos (by simp)
      rw [hx]
    have hlast : (t ++ [x]).getLast? = some x := by simp
    have hsnoc : t ++ [x] ++ [i] = t ++ [x, i] := by simp
    rw [queueGetLoop]
    simp only [hblock, hlast, hbuf]
    split
    · -- the block does not pass
      next htest =>
      refine ⟨[], nil_prefix, by simpa using h, ?_, by simp⟩
      intro y hy hjoined
      obtain ⟨rfl, -⟩ : y = i ∧ True := by simpa using hy
      rw [append_nil, hsnoc, joined_append] at hjoined
      have hfollows := hjoined.2
      rcases htest with hput | habove | hfits
      · exact hput hfollows.put
      · exact absurd hfollows.above (UInt32.not_le.2 habove)
      · exact absurd hfollows.fits (UInt32.not_le.2 hfits)
    · next htest =>
      simp only [not_or, not_not] at htest
      obtain ⟨hput, habove, hfits⟩ := htest
      have hjoined : r.Joined len (t ++ [x] ++ [i]) := by
        rw [hsnoc, joined_append]
        exact ⟨h, hput, UInt32.not_lt.1 habove, UInt32.not_lt.1 hfits⟩
      have hnodup' : (t ++ [x] ++ [i] ++ nodes).Nodup := by simpa using hnodup
      obtain ⟨s, hs, hall, hmax, heq⟩ := ih hnodup' hjoined
      refine ⟨i :: s, (prefix_cons_inj i).2 hs, by simpa using hall, ?_, ?_⟩
      · intro y hy
        simpa using hmax y ((prefix_cons_inj i).1 hy)
      · rw [takeOut_append r _ hi, ← sizes_append, heq]
        simp

/-- **The loop before the first block** goes on to the first that has been put. -/
theorem queueGetLoop_first (r : Rbb) (len : UInt32) (nodes : List ℕ) :
    queueGetLoop len nodes r 0 [] =
      match nodes.dropWhile fun i => (r.blkSet i).status ≠ .put with
      | [] => (r, 0, [])
      | f :: rest => queueGetLoop len rest (r.takeOut [f]) (r.sizes [f]) [f] := by
  induction nodes with
  | nil => rfl
  | cons i nodes ih =>
    rw [queueGetLoop]
    by_cases hput : (r.blkSet i).status = .put
    · have hout : (r.rtSlistRemove i).setStatus i .get = r.takeOut [i] := by
        have happend := takeOut_append r [] (i := i) (by simp)
        rwa [takeOut_nil] at happend
      simp [hput, hout, sizes]
    · rw [dropWhile_cons_of_pos (by simpa using hput)]
      simpa [hput] using ih

/-- **The blocks that are taken** are the longest list, from the first block on that has been put,
that passes the tests. -/
theorem queueGet_cases (h : r.blkList.Nodup) (len : UInt32) :
    (r.puts = [] ∧ r.rtRbbBlkQueueGet len = (r, 0, none)) ∨
      ∃ f s, f :: s <+: r.puts ∧ r.Joined len (f :: s) ∧
        (∀ l, l <+: r.puts → r.Joined len l → l <+: f :: s) ∧
        r.rtRbbBlkQueueGet len = (r.takeOut (f :: s), r.sizes (f :: s),
          some ⟨f, s.length + 1, f :: s⟩) := by
  have hloop := r.queueGetLoop_first len r.blkList
  rw [← puts] at hloop
  cases hputs : r.puts with
  | nil =>
    rw [hputs] at hloop
    refine .inl ⟨rfl, ?_⟩
    rw [rtRbbBlkQueueGet, hloop]
  | cons f rest =>
    have hnodup : (f :: rest).Nodup := by
      rw [← hputs]
      exact h.sublist (dropWhile_sublist _)
    have hfirst : ([] ++ [f] ++ rest).Nodup := hnodup
    obtain ⟨s, hs, hjoined, hmax, heq⟩ :=
      r.exists_queueGetLoop len hfirst (r.joined_singleton len f)
    simp only [nil_append, cons_append] at hjoined hmax heq
    rw [hputs] at hloop
    refine .inr ⟨f, s, (prefix_cons_inj f).2 hs, hjoined, ?_, ?_⟩
    · -- a longer list would go on with a block that does not pass
      intro l hl hlj
      rcases prefix_or_prefix_of_prefix hl ((prefix_cons_inj f).2 hs) with hle | hle
      · exact hle
      · obtain ⟨u, rfl⟩ := hle
        cases u with
        | nil => simp
        | cons y u =>
          have hpre : f :: s ++ [y] <+: f :: s ++ y :: u := ⟨u, by simp⟩
          have hy : s ++ [y] <+: rest := (prefix_cons_inj f).1 (hpre.trans hl)
          exact absurd (hlj.of_prefix hpre) (hmax y hy)
    · rw [rtRbbBlkQueueGet, hloop]
      simp only [heq]

/-! ### Freeing a queue -/

/-- Some blocks are freed. -/
def freeOut (r : Rbb) (l : List ℕ) : Rbb :=
  { r with
    blkSet := fun i => if i ∈ l then { r.blkSet i with status := .unused } else r.blkSet i
    blkList := r.blkList.filter (· ∉ l) }

theorem freeOut_cons (r : Rbb) (l : List ℕ) :
    ((r.rtSlistRemove i).setStatus i .unused).freeOut l = r.freeOut (i :: l) := by
  have hset : (((r.rtSlistRemove i).setStatus i .unused).freeOut l).blkSet =
      (r.freeOut (i :: l)).blkSet := by
    funext j
    simp only [freeOut, setStatus, rtSlistRemove, update_apply, mem_cons]
    by_cases hj : j = i
    · subst hj
      simp
    · simp [hj]
  have hlist : (((r.rtSlistRemove i).setStatus i .unused).freeOut l).blkList =
      (r.freeOut (i :: l)).blkList := by
    simp only [freeOut, setStatus, rtSlistRemove, List.filter_filter]
    refine filter_congr fun j _ => ?_
    simp [Bool.and_comm]
  exact congrArg₂ (fun set list => { r with blkSet := set, blkList := list }) hset hlist

theorem foldlM_rtRbbBlkFree (hnodup : l.Nodup) (huse : ∀ i ∈ l, (r.blkSet i).status ≠ .unused) :
    l.foldlM (fun r i => r.rtRbbBlkFree i) r = some (r.freeOut l) := by
  induction l generalizing r with
  | nil => simp [freeOut]
  | cons i l ih =>
    obtain ⟨hnot, hnodup'⟩ := nodup_cons.1 hnodup
    have hfree : r.rtRbbBlkFree i = some ((r.rtSlistRemove i).setStatus i .unused) :=
      if_pos (huse i (mem_cons_self ..))
    have huse' : ∀ j ∈ l, (((r.rtSlistRemove i).setStatus i .unused).blkSet j).status ≠
        .unused := by
      intro j hj
      have hne : j ≠ i := by
        rintro rfl
        exact hnot hj
      have hsame : ((r.rtSlistRemove i).setStatus i .unused).blkSet j = r.blkSet j :=
        update_of_ne hne ..
      rw [hsame]
      exact huse j (mem_cons_of_mem _ hj)
    rw [foldlM_cons, hfree, ← freeOut_cons]
    exact ih hnodup' huse'

end Rbb

/-- The blocks of a queue, which are an array in `blk_set`. -/
def RbbBlkQueue.array (q : RbbBlkQueue) : List ℕ := List.range' q.blocks q.blkNum

namespace Rbb

variable {r : Rbb} {len : UInt32} {l t s : List ℕ} {x y i f : ℕ}

theorem rtRbbBlkQueueFree_eq {q : RbbBlkQueue}
    (huse : ∀ i ∈ q.array, (r.blkSet i).status ≠ .unused) :
    r.rtRbbBlkQueueFree q = some (r.freeOut q.array) := by
  have harray : q.array = (List.range q.blkNum).map (q.blocks + ·) := range'_eq_map_range ..
  have hall := foldlM_rtRbbBlkFree (l := q.array) nodup_range' huse
  rw [← hall, harray, foldlM_map]
  rfl

/-! ### When the queue is one -/

/-- The blocks `l` of the list are a queue: they have all been put, each begins where the one before
ends, and they have `total` bytes, not more than were asked for.  They alone have been got. -/
structure Queued (r : Rbb) (len : UInt32) (l : List ℕ) (r' : Rbb) (total : UInt32) : Prop where
  consecutive : l <:+: r.blkList
  put : ∀ i ∈ l, (r.blkSet i).status = .put
  contiguous : l.IsChain r.Meets
  bytes : r.bytes l = total.toNat
  total_le : total ≤ len
  got : ∀ i, (r'.blkSet i).status = if i ∈ l then .get else (r.blkSet i).status

/-- Whenever the blocks `l` are in use, freeing the queue frees them and no other block. -/
def Frees (q : RbbBlkQueue) (l : List ℕ) : Prop :=
  ∀ r : Rbb, (∀ i ∈ l, (r.blkSet i).status ≠ .unused) →
    ∃ r', r.rtRbbBlkQueueFree q = some r' ∧ r'.blkList = r.blkList.filter (· ∉ l) ∧
      ∀ i, (r'.blkSet i).status = if i ∈ l then .unused else (r.blkSet i).status

/-- `rt_rbb_blk_queue_get` returns nothing, or a queue that `rt_rbb_blk_queue_free` frees. -/
def QueueSound (r : Rbb) (len : UInt32) : Prop :=
  match r.rtRbbBlkQueueGet len with
  | (r', total, none) => r' = r ∧ total = 0
  | (r', total, some q) => r.Queued len q.array r' total ∧ Frees q q.array

theorem frees_array (q : RbbBlkQueue) : Frees q q.array := by
  intro r huse
  refine ⟨r.freeOut q.array, rtRbbBlkQueueFree_eq huse, rfl, ?_⟩
  intro i
  simp only [freeOut]
  split <;> rfl

theorem puts_suffix (r : Rbb) : r.puts <:+ r.blkList := dropWhile_suffix _

theorem Joined.isChain_follows (h : r.Joined len l) :
    l.IsChain fun x y => (r.blkSet y).status = .put ∧ (r.blkSet x).buf ≤ (r.blkSet y).buf :=
  isChain_iff_neighbours.2 fun t x y ht => ⟨(h t x y ht).put, (h t x y ht).above⟩

theorem Joined.put (h : r.Joined len (f :: s)) (hf : (r.blkSet f).status = .put) :
    ∀ i ∈ f :: s, (r.blkSet i).status = .put := by
  have hchain := h.isChain_follows
  clear h
  induction s generalizing f with
  | nil => simpa using hf
  | cons g s ih =>
    obtain ⟨⟨hg, -⟩, htail⟩ := isChain_cons_cons.1 hchain
    intro i hi
    rcases mem_cons.1 hi with rfl | hi
    · exact hf
    · exact ih hg htail i hi

theorem put_of_puts (h : f :: s <+: r.puts) : (r.blkSet f).status = .put := by
  obtain ⟨u, hu⟩ := h
  have hhead := head?_dropWhile_not (fun i => decide ((r.blkSet i).status ≠ .put)) r.blkList
  rw [← puts, ← hu] at hhead
  simpa using hhead

theorem Orderly.isChain (h : r.Orderly len) (hpre : l <+: r.puts) (hjoined : r.Joined len l) :
    l.IsChain fun x y => y = x + 1 ∧ r.Meets x y :=
  isChain_iff_neighbours.2 fun t x y ht => h.next t x y (ht.trans hpre) (hjoined.of_prefix ht)

theorem Orderly.sizes_le (h : r.Orderly len) (hpre : f :: s <+: r.puts)
    (hjoined : r.Joined len (f :: s)) : r.sizes (f :: s) ≤ len := by
  rcases s.eq_nil_or_concat with rfl | ⟨s, y, rfl⟩
  · obtain ⟨u, hu⟩ := hpre
    have hfirst := h.first f (by rw [← hu]; rfl)
    simpa [sizes] using hfirst
  · -- the last block has passed the test
    obtain ⟨t, x, hsplit⟩ : ∃ t x, f :: s = t ++ [x] :=
      ⟨_, _, (dropLast_append_getLast (cons_ne_nil f s)).symm⟩
    have hlist : f :: (s.concat y) = t ++ [x, y] := by
      rw [concat_eq_append, ← cons_append, hsplit]
      simp
    have hsnoc : t ++ [x, y] = (t ++ [x]) ++ [y] := by simp
    rw [hlist] at hjoined ⊢
    rw [hsnoc, sizes_append]
    exact (joined_append.1 hjoined).2.fits

/-- **The queue is sound** exactly if the blocks that are taken are orderly. -/
theorem queueSound_iff (h : r.blkList.Nodup) (len : UInt32) : r.QueueSound len ↔ r.Orderly len := by
  rcases queueGet_cases h len with ⟨hnil, heq⟩ | ⟨f, s, hpre, hjoined, hmax, heq⟩
  · -- no block has been put
    rw [QueueSound, heq]
    refine iff_of_true ⟨rfl, rfl⟩ ⟨?_, ?_, ?_⟩
    · rw [hnil]
      exact nofun
    · intro l x y hl
      rw [hnil, prefix_nil] at hl
      simp at hl
    · intro l hl
      rw [hnil, prefix_nil] at hl
      rw [hl]
      exact fun _ => Nat.two_pow_pos 32
  · have hwithin : f :: s <:+: r.blkList := hpre.isInfix.trans r.puts_suffix.isInfix
    rw [QueueSound, heq]
    constructor
    · rintro ⟨hqueued, -⟩
      -- the array and the blocks that have been taken are one list
      have harray : range' f (s.length + 1) = f :: s := by
        have hcons : range' f (s.length + 1) = f :: range' (f + 1) s.length := rfl
        have hconsecutive := hqueued.consecutive
        rw [RbbBlkQueue.array, hcons] at hconsecutive
        rw [hcons, eq_of_infix_of_cons h hconsecutive hwithin (by simp)]
      have hnext : (f :: s).IsChain fun x y => y = x + 1 := by
        rw [← harray]
        exact (isChain_range' f (s.length + 1) 1).imp fun x y hxy => hxy
      obtain ⟨-, -, hmeets, hbytes, hle, -⟩ := hqueued
      rw [RbbBlkQueue.array, harray] at hmeets hbytes
      have hlt := (r.sizes (f :: s)).toNat_lt
      refine ⟨?_, ?_, ?_⟩
      · intro i hi
        obtain ⟨u, hu⟩ := hpre
        rw [← hu] at hi
        cases hi
        rw [UInt32.le_iff_toNat_le] at hle ⊢
        have hfirst : (r.blkSet f).size.toNat ≤ r.bytes (f :: s) := Nat.le_add_right ..
        omega
      · intro l x y hl hlj
        have hlast := hmax _ hl hlj
        exact ⟨isChain_iff_neighbours.1 hnext l x y hlast, isChain_iff_neighbours.1 hmeets l x y hlast⟩
      · intro l hl hlj
        have hle := r.bytes_le_of_prefix (hmax l hl hlj)
        omega
    · intro horderly
      have hchain := horderly.isChain hpre hjoined
      have harray : f :: s = range' f (s.length + 1) :=
        eq_range'_of_isChain (hchain.imp fun _ _ hxy => hxy.1)
      refine ⟨?_, frees_array _⟩
      rw [RbbBlkQueue.array, ← harray]
      refine ⟨hwithin, hjoined.put (put_of_puts hpre), hchain.imp fun _ _ hxy => hxy.2, ?_,
        horderly.sizes_le hpre hjoined, ?_⟩
      · rw [toNat_sizes, Nat.mod_eq_of_lt (horderly.total _ hpre hjoined)]
      · intro i
        simp only [takeOut]
        split <;> rfl

theorem QueueSound.queued {q : RbbBlkQueue} (h : r.QueueSound len)
    (hq : (r.rtRbbBlkQueueGet len).2.2 = some q) :
    r.Queued len q.array (r.rtRbbBlkQueueGet len).1 (r.rtRbbBlkQueueGet len).2.1 := by
  rw [QueueSound] at h
  generalize r.rtRbbBlkQueueGet len = g at h hq
  obtain ⟨r', total, q'⟩ := g
  cases hq
  exact h.1

/-! ### Every run -/

/-- No block is twice in the list, and those in the list are in use. -/
structure Listed (r : Rbb) : Prop where
  nodup : r.blkList.Nodup
  used : ∀ i ∈ r.blkList, (r.blkSet i).status ≠ .unused

theorem Listed.setStatus (h : r.Listed) (i : ℕ) {st : RbbStatus} (hst : st ≠ .unused) :
    (r.setStatus i st).Listed := by
  refine ⟨h.nodup, ?_⟩
  intro j hj
  simp only [Rbb.setStatus, update_apply]
  split
  · exact hst
  · exact h.used j hj

theorem Listed.free {r' : Rbb} (h : r.Listed) (hs : r.rtRbbBlkFree i = some r') : r'.Listed := by
  rw [rtRbbBlkFree] at hs
  split at hs
  · cases hs
    refine ⟨h.nodup.filter _, ?_⟩
    intro j hj
    obtain ⟨hj, hne⟩ := mem_filter.1 hj
    have hsame : ((r.rtSlistRemove i).setStatus i .unused).blkSet j = r.blkSet j :=
      update_of_ne (by simpa using hne) ..
    rw [hsame]
    exact h.used j hj
  · cases hs

theorem Listed.freeAll {l : List ℕ} {r' : Rbb} (h : r.Listed)
    (hs : l.foldlM (fun r i => r.rtRbbBlkFree i) r = some r') : r'.Listed := by
  induction l generalizing r with
  | nil =>
    cases hs
    exact h
  | cons i l ih =>
    rw [foldlM_cons] at hs
    obtain ⟨r₁, hr₁, hs⟩ := bind_eq_some_iff.1 hs
    exact ih (h.free hr₁) hs

theorem Listed.alloc {blkSize : UInt32} (h : r.Listed) : (r.rtRbbBlkAlloc blkSize).1.Listed := by
  rw [rtRbbBlkAlloc]
  split
  · next new hnew =>
    split
    · split
      · next p hp =>
        -- the new block has not been in use
        have hunused := (findEmptyBlkInSet_eq_some hnew).2
        have hnot : new ∉ r.blkList := fun hm => h.used new hm hunused
        refine ⟨?_, ?_⟩
        · refine nodup_append.2 ⟨h.nodup, nodup_singleton new, ?_⟩
          rintro a ha b hb rfl
          rw [mem_singleton.1 hb] at ha
          exact hnot ha
        · intro j hj
          simp only [place, update_apply]
          split
          · simp
          · next hne =>
            rcases mem_append.1 hj with hj | hj
            · exact h.used j hj
            · exact absurd (mem_singleton.1 hj) hne
      · exact h
    · exact h
  · exact h

theorem Listed.takeOut (h : r.Listed) (t : List ℕ) : (r.takeOut t).Listed := by
  refine ⟨h.nodup.filter _, ?_⟩
  intro j hj
  simp only [Rbb.takeOut]
  split
  · nofun
  · exact h.used j (mem_of_mem_filter hj)

theorem Listed.queueGet (h : r.Listed) (len : UInt32) : (r.rtRbbBlkQueueGet len).1.Listed := by
  rcases queueGet_cases h.nodup len with ⟨-, heq⟩ | ⟨f, s, -, -, -, heq⟩
  · rw [heq]
    exact h
  · rw [heq]
    exact h.takeOut _

end Rbb

namespace RbbSys

variable {s s' : RbbSys} {a : RbbAction} {tr out : List RbbEvent}

theorem listed_step (h : s.rbb.Listed) (hs : s.step a = some (s', out)) : s'.rbb.Listed := by
  cases a with
  | alloc blkSize =>
    rw [step] at hs
    split at hs <;> cases hs
    exact h.alloc
  | put i =>
    rw [step] at hs
    split at hs
    · obtain ⟨r, hr, he⟩ := map_eq_some_iff.1 hs
      cases he
      rw [Rbb.rtRbbBlkPut] at hr
      split at hr <;> cases hr
      exact h.setStatus i (by simp)
    · cases hs
  | get =>
    cases hs
    show s.rbb.rtRbbBlkGet.1.Listed
    rw [Rbb.rtRbbBlkGet]
    split
    · exact h.setStatus _ (by simp)
    · exact h
  | free i =>
    rw [step] at hs
    split at hs
    · obtain ⟨r, hr, he⟩ := map_eq_some_iff.1 hs
      cases he
      exact h.free hr
    · cases hs
  | queueGet len =>
    cases hs
    exact h.queueGet len
  | queueFree k =>
    obtain ⟨q, -, hs⟩ := bind_eq_some_iff.1 hs
    obtain ⟨r, hr, he⟩ := map_eq_some_iff.1 hs
    cases he
    rw [Rbb.rtRbbBlkQueueFree, ← foldlM_map (f := (q.blocks + ·))
      (g := fun r i => Rbb.rtRbbBlkFree r i)] at hr
    exact h.freeAll hr

/-- **In every run** no block is twice in the list. -/
theorem run_nodup {buf bufSize : UInt32} {blockSet : ℕ → RbbBlk} {n : ℕ}
    (h : Run step (fun _ _ => True) (boot buf bufSize blockSet n) tr s) : s.rbb.blkList.Nodup := by
  have hboot : (boot buf bufSize blockSet n).rbb.Listed := ⟨nodup_nil, nofun⟩
  exact (h.invariant (fun _ s => s.rbb.Listed) hboot fun hl _ hs => listed_step hl hs).nodup

/-- Three blocks are allocated, the first and the third are put, and the second is freed. -/
def leavesGap : List RbbAction :=
  [.alloc 8, .alloc 4, .alloc 8, .put 0, .put 2, .free 1]

/-- A queue of eight bytes is sound, one of seven is not, nor is one that reaches over the gap. -/
theorem queueSound_leavesGap : ∃ s : RbbSys,
    s.rbb.QueueSound 8 ∧ ¬ s.rbb.QueueSound 7 ∧ ¬ s.rbb.QueueSound 64 := by
  have htr : (exec step (fun _ _ => True) (boot 4096 64 (fun _ => ⟨.unused, 0, 0⟩) 3)
      leavesGap).map (fun r => (r.1.rbb.puts, r.1.rbb.blkSet 0, r.1.rbb.blkSet 2)) =
      some ([0, 2], ⟨.put, 8, 4096⟩, ⟨.put, 8, 4108⟩) := rfl
  obtain ⟨⟨s, tr⟩, hexec, hr⟩ := map_eq_some_iff.1 htr
  have hnodup := run_nodup (Run.of_exec hexec)
  have hputs : s.rbb.puts = [0, 2] := congrArg (·.1) hr
  have hfirst : s.rbb.blkSet 0 = ⟨.put, 8, 4096⟩ := congrArg (·.2.1) hr
  have hsecond : s.rbb.blkSet 2 = ⟨.put, 8, 4108⟩ := congrArg (·.2.2) hr
  have hpair : ∀ l x y, l ++ [x, y] <+: s.rbb.puts → l = [] ∧ x = 0 ∧ y = 2 := by
    intro l x y hl
    have hlength := hl.length_le
    rw [hputs] at hl hlength
    cases l with
    | nil => simpa using hl
    | cons i l => simp at hlength
  have hsizes : s.rbb.sizes ([] ++ [0]) + (s.rbb.blkSet 2).size = 16 := by
    simp [Rbb.sizes, hfirst, hsecond]
  refine ⟨s, (Rbb.queueSound_iff hnodup 8).2 ⟨?_, ?_, ?_⟩, fun h => ?_, fun h => ?_⟩
  · rw [hputs]
    rintro i ⟨⟩
    rw [hfirst]
    decide
  · -- the second block does not fit
    intro l x y hl hjoined
    obtain ⟨rfl, rfl, rfl⟩ := hpair l x y hl
    have hfits := (hjoined [] 0 2 prefix_rfl).fits
    rw [hsizes] at hfits
    exact absurd hfits (by decide)
  · intro l hl _
    refine (s.rbb.bytes_le_of_prefix hl).trans_lt ?_
    rw [hputs, Rbb.bytes]
    simp [hfirst, hsecond]
  · have hle := ((Rbb.queueSound_iff hnodup 7).1 h).first 0 (by rw [hputs]; rfl)
    rw [hfirst] at hle
    exact absurd hle (by decide)
  · have hjoined : s.rbb.Joined 64 ([] ++ [0, 2]) := by
      refine Rbb.joined_append.2 ⟨s.rbb.joined_singleton 64 0, ?_, ?_, ?_⟩
      · rw [hsecond]
      · rw [hfirst, hsecond]
        decide
      · rw [hsizes]
        decide
    have hnext := ((Rbb.queueSound_iff hnodup 64).1 h).next [] 0 2 (hputs ▸ prefix_rfl) hjoined
    exact absurd hnext.1 (by decide)

/-- **A queue of two blocks with a free one in between**: the array holds the free block. -/
theorem not_queueSound_leavesGap : ¬ ∀ (s : RbbSys) (tr : List RbbEvent),
    Run step (fun _ _ => True) (boot 4096 64 (fun _ => ⟨.unused, 0, 0⟩) 3) tr s →
      ∀ len, s.rbb.QueueSound len := by
  intro hall
  have htr : (exec step (fun _ _ => True) (boot 4096 64 (fun _ => ⟨.unused, 0, 0⟩) 3)
      leavesGap).map (fun r => (r.1.rbb.blkSet 1, (r.1.rbb.rtRbbBlkQueueGet 64).2.2)) =
      some (⟨.unused, 4, 4104⟩, some ⟨0, 2, [0, 2]⟩) := rfl
  obtain ⟨⟨s, tr⟩, hexec, hr⟩ := map_eq_some_iff.1 htr
  have hfreed : s.rbb.blkSet 1 = ⟨.unused, 4, 4104⟩ := congrArg (·.1) hr
  have hqueue : (s.rbb.rtRbbBlkQueueGet 64).2.2 = some ⟨0, 2, [0, 2]⟩ := congrArg (·.2) hr
  have hput := ((hall s tr (Run.of_exec hexec) 64).queued hqueue).put 1 (by decide)
  rw [hfreed] at hput
  cases hput

end RbbSys

end RtThread
