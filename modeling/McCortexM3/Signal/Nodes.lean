import McCortexM3.Signal.Signal

/-!
# The nodes of pending signals

The nodes are blocks of the pool: the fields of different nodes, and the pointers before the
blocks, are apart in the memory.  The loops of `signal.c` over a list of nodes find what they look
for when the pointers are right.

## Main definitions

* `IsNode` — the address of a node in a pool.
* `nextNode` — the node behind a node.

## Main results

* `slistTail_eq`, `waitSearch_eq` — the node that the loops find.
-/

set_option linter.all false

namespace RtThread

open Function Option List Mempool

/-- The size of a node with the pointer before it. -/
def nodeStride : UInt32 := 16

/-- `n` is the address of a block of the pool, behind the pointer before it. -/
def IsNode (start : UInt32) (total : ℕ) (n : UInt32) : Prop := n - 4 ∈ blocks start nodeStride total

/-- The node behind a node. -/
def nextNode (m : Mempool) (n : UInt32) : Option UInt32 :=
  (pointee (m.word (listField n))).map slistEntry

variable {m m' : Mempool} {mp start n n' v j k : UInt32} {total : ℕ} {free live : List UInt32}

@[simp] theorem slistEntry_listField (n : UInt32) : slistEntry (listField n) = n :=
  add_sub_cancel_right n 8

@[simp] theorem listField_slistEntry (n : UInt32) : listField (slistEntry n) = n :=
  sub_add_cancel n 8

theorem nextNode_of_zero (h : m.word (listField n) = 0) : nextNode m n = none := by
  unfold nextNode
  rw [h]
  rfl

theorem nextNode_of_ne (h : m.word (listField n) ≠ 0) :
    nextNode m n = some (slistEntry (m.word (listField n))) := by
  unfold nextNode
  rw [pointee_of_ne h]
  rfl

theorem nextNode_eq_none (h : nextNode m n = none) : m.word (listField n) = 0 := by
  by_contra hz
  rw [nextNode_of_ne hz] at h
  cases h

/-! ### The fields in the memory -/

section

variable (hfits : Fits start nodeStride total) (hn : IsNode start total n)
include hfits hn

theorem toNat_field (hj : j.toNat ≤ 8) :
    (n + j).toNat = (n - 4).toNat + 4 + j.toNat ∧ (n - 4).toNat + 16 ≤ 2 ^ 32 := by
  have hend := hfits.le_end hn
  have hstride : nodeStride.toNat = 16 := rfl
  have hfour : (4 : UInt32).toNat = 4 := rfl
  rw [hstride] at hend
  refine ⟨?_, hend⟩
  have hn' : n + j = n - 4 + 4 + j := by rw [sub_add_cancel]
  rw [hn', UInt32.toNat_add, UInt32.toNat_add, hfour]
  omega

theorem fields_apart (hn' : IsNode start total n') (hj : j.toNat ≤ 8) (hk : k.toNat ≤ 8)
    (hne : n ≠ n' ∨ j.toNat + 4 ≤ k.toNat ∨ k.toNat + 4 ≤ j.toNat) :
    (n + j).toNat + 4 ≤ (n' + k).toNat ∨ (n' + k).toNat + 4 ≤ (n + j).toNat := by
  obtain ⟨hat, -⟩ := toNat_field hfits hn hj
  obtain ⟨hat', -⟩ := toNat_field hfits hn' hk
  rw [hat, hat']
  by_cases heq : n = n'
  · subst heq
    have hfield := hne.resolve_left fun h => h rfl
    omega
  · have hblock : n - 4 ≠ n' - 4 := fun h => heq (sub_left_inj.1 h)
    have hapart := hfits.apart hn hn' hblock
    have hstride : nodeStride.toNat = 16 := rfl
    omega

theorem field_apart_head (hn' : IsNode start total n') (hj : j.toNat ≤ 8) :
    (n + j).toNat + 4 ≤ (n' - 4).toNat ∨ (n' - 4).toNat + 4 ≤ (n + j).toNat := by
  obtain ⟨hat, -⟩ := toNat_field hfits hn hj
  rw [hat]
  by_cases heq : n = n'
  · subst heq
    omega
  · have hblock : n - 4 ≠ n' - 4 := fun h => heq (sub_left_inj.1 h)
    have hapart := hfits.apart hn hn' hblock
    have hstride : nodeStride.toNat = 16 := rfl
    omega

end

/-- The signal and the pointer of a node are in the memory as before. -/
structure SameNode (m m' : Mempool) (n : UInt32) : Prop where
  si : m'.word n = m.word n
  list : m'.word (listField n) = m.word (listField n)

theorem SameNode.siSigno (h : SameNode m m' n) : siSigno m' n = siSigno m n := by
  unfold RtThread.siSigno
  rw [h.si]

theorem SameNode.nextNode (h : SameNode m m' n) : nextNode m' n = nextNode m n := by
  unfold RtThread.nextNode
  rw [h.list]

theorem SameNode.trans {m'' : Mempool} (h : SameNode m m' n) (h' : SameNode m' m'' n) :
    SameNode m m'' n := ⟨h'.si.trans h.si, h'.list.trans h.list⟩

section

variable (hfits : Fits start nodeStride total) (hn : IsNode start total n)
include hfits hn

theorem sameNode_setWord (hn' : IsNode start total n') (hj : j.toNat ≤ 8) (hne : n ≠ n') (v : UInt32) :
    SameNode m (m.setWord (n + j) v) n' := by
  refine ⟨word_setWord_of_disjoint ?_, word_setWord_of_disjoint ?_⟩
  · have hapart := fields_apart hfits hn hn' hj (k := 0) (by decide) (.inl hne)
    rwa [add_zero] at hapart
  · exact fields_apart hfits hn hn' hj (k := 8) (by decide) (.inl hne)

theorem sameNode_setWord_listField (hn' : IsNode start total n') (hne : n ≠ n') (v : UInt32) :
    SameNode m (m.setWord (listField n) v) n' :=
  sameNode_setWord hfits hn hn' (j := 8) (by decide) hne v

theorem listField_ne_zero : listField n ≠ 0 := by
  intro hz
  obtain ⟨hat, -⟩ := toNat_field hfits hn (j := 8) (by decide)
  have hnat := congrArg UInt32.toNat hz
  have height : (8 : UInt32).toNat = 8 := rfl
  unfold listField at hnat
  rw [hat, height] at hnat
  cases hnat

end

theorem IsNode.ne_zero (hn : IsNode start total n) (hfits : Fits start nodeStride total) :
    n ≠ 0 := by
  rintro rfl
  obtain ⟨hat, -⟩ := toNat_field hfits hn (j := 0) (by decide)
  have hzero : ((0 : UInt32) + 0).toNat = 0 := rfl
  omega

section

variable (hfits : Fits start nodeStride total) (hn : IsNode start total n)
  (hn' : IsNode start total n')
include hfits hn hn'

theorem sameNode_setWord_head (v : UInt32) : SameNode m (m.setWord (n - 4) v) n' := by
  refine ⟨word_setWord_of_disjoint ?_, word_setWord_of_disjoint ?_⟩
  · have hapart := field_apart_head hfits hn' hn (j := 0) (by decide)
    rw [add_zero] at hapart
    exact hapart.symm
  · exact (field_apart_head hfits hn' hn (j := 8) (by decide)).symm

theorem siSigno_setWord_listField (v : UInt32) :
    siSigno (m.setWord (listField n) v) n' = siSigno m n' := by
  have hapart := fields_apart hfits hn hn' (j := 8) (k := 0) (by decide) (by decide)
    (.inr (.inr (by decide)))
  rw [add_zero] at hapart
  unfold siSigno listField
  rw [word_setWord_of_disjoint hapart]

end

theorem Mempool.Inv.setField (h : m.Inv mp start nodeStride total free live)
    (hfits : Fits start nodeStride total) (hn : IsNode start total n) (hj : j.toNat ≤ 8)
    (v : UInt32) : (m.setWord (n + j) v).Inv mp start nodeStride total free live := by
  have hword : ∀ q ∈ blocks start nodeStride total, (m.setWord (n + j) v).word q = m.word q := by
    intro q hq
    apply word_setWord_of_disjoint
    have hq' : IsNode start total (q + 4) := by
      unfold IsNode
      rwa [add_sub_cancel_right]
    have hapart := field_apart_head hfits hn hq' hj
    rwa [add_sub_cancel_right] at hapart
  refine ⟨h.list.congr ?_, h.perm, h.freeCount, h.totalCount, h.blockSize, ?_⟩
  · intro q hq
    exact congrArg pointee (hword q (h.mem_blocks_free hq))
  · intro q hq
    exact (hword q (h.mem_blocks_live hq)).trans (h.owner q hq)

/-! ### The loops -/

variable {l l₁ l₂ : List UInt32} {node siPrev : UInt32} {set : BitVec 32} {fuel : ℕ}

theorem chain_nextNode (h : Chain (nextNode m) (nextNode m n) l) :
    (m.word (listField n) = 0 ∧ l = []) ∨
      m.word (listField n) ≠ 0 ∧ ∃ rest, l = slistEntry (m.word (listField n)) :: rest ∧
        Chain (nextNode m) (nextNode m (slistEntry (m.word (listField n)))) rest := by
  by_cases hz : m.word (listField n) = 0
  · rw [nextNode_of_zero hz] at h
    cases l with
    | nil => exact .inl ⟨hz, rfl⟩
    | cons n' l => cases h.1
  · rw [nextNode_of_ne hz] at h
    obtain ⟨rest, rfl, hrest⟩ := h.exists_cons
    exact .inr ⟨hz, rest, rfl, hrest⟩

/-- The loop of `rt_slist_append` ends at the last node. -/
theorem slistTail_eq (h : Chain (nextNode m) (nextNode m n) l)
    (hs : slistTail m fuel (listField n) = some v) : v = listField ((n :: l).getLast nofun) := by
  induction fuel generalizing n l with
  | zero => cases hs
  | succ fuel ih =>
    unfold slistTail at hs
    rcases chain_nextNode h with ⟨hz, rfl⟩ | ⟨hne, rest, rfl, hrest⟩
    · rw [if_pos hz] at hs
      exact (some.inj hs).symm
    · rw [if_neg hne] at hs
      rw [getLast_cons_cons]
      apply ih hrest
      rwa [listField_slistEntry]

/-- The signal of the node is in the set. -/
def InSet (m : Mempool) (set : BitVec 32) (n : UInt32) : Prop :=
  sigMask (siSigno m n) &&& set ≠ 0

instance (m : Mempool) (set : BitVec 32) (n : UInt32) : Decidable (InSet m set n) :=
  inferInstanceAs (Decidable (_ ≠ _))

/-- The loop of `rt_signal_wait` finds the first node of a signal of the set, if the list has
one. -/
theorem waitSearch_eq {r : Option (UInt32 × UInt32)} (h : Chain (nextNode m) (some n) l)
    (hne : ∀ n ∈ l, n ≠ 0) (hset : ∃ n ∈ l, InSet m set n)
    (hs : waitSearch m set fuel siPrev n = some r) :
    ∃ l₁ : List UInt32, ∃ node l₂, l = l₁ ++ node :: l₂ ∧ InSet m set node ∧
      (∀ n ∈ l₁, ¬ InSet m set n) ∧ r = some (l₁.getLast?.getD siPrev, node) := by
  induction fuel generalizing n l siPrev with
  | zero => cases hs
  | succ fuel ih =>
    obtain ⟨rest, rfl, hrest⟩ := h.exists_cons
    unfold waitSearch at hs
    rw [if_neg (hne n mem_cons_self)] at hs
    by_cases hn : InSet m set n
    · have hin : sigMask (siSigno m n) &&& set ≠ 0 := hn
      rw [if_pos hin] at hs
      exact ⟨[], n, rest, rfl, hn, nofun, (some.inj hs).symm⟩
    · have hout : ¬ (sigMask (siSigno m n) &&& set ≠ 0) := hn
      rw [if_neg hout] at hs
      obtain ⟨n', hn', hin'⟩ := hset
      rcases mem_cons.1 hn' with rfl | hmem
      · exact absurd hin' hn
      · rcases chain_nextNode hrest with ⟨-, rfl⟩ | ⟨-, rest', rfl, hrest'⟩
        · cases hmem
        · obtain ⟨l₁, node, l₂, heq, hnode, hbefore, rfl⟩ := ih (l := _ :: rest') ⟨rfl, hrest'⟩
            (fun x hx => hne x (mem_cons_of_mem _ hx)) ⟨n', hmem, hin'⟩ hs
          refine ⟨n :: l₁, node, l₂, congrArg (n :: ·) heq, hnode, ?_, ?_⟩
          · intro x hx
            rcases mem_cons.1 hx with rfl | hx
            · exact hn
            · exact hbefore x hx
          · rw [getLast?_cons]
            rfl

/-! ### The functions on the nodes -/

theorem chain_append (hfits : Fits start nodeStride total) (h : Chain (nextNode m) (some node) l)
    (hl : ∀ n ∈ l, IsNode start total n) (hnodup : l.Nodup) (hn : IsNode start total n)
    (hmem : n ∉ l) {m' : Mempool}
    (hs : rtSlistAppend fuel (listField node) (listField n) m = some m') :
    Chain (nextNode m') (some node) (l ++ [n]) ∧
      ∃ last ∈ l, m' = (m.setWord (listField last) (listField n)).setWord (listField n) 0 := by
  obtain ⟨rest, rfl, hrest⟩ := h.exists_cons
  obtain ⟨v, hv, rfl⟩ := map_eq_some_iff.1 hs
  have hlast := slistTail_eq hrest hv
  obtain ⟨last, hlast'⟩ : ∃ last, last = (node :: rest).getLast nofun := ⟨_, rfl⟩
  rw [← hlast'] at hlast
  subst hlast
  have hin : last ∈ node :: rest := hlast' ▸ getLast_mem _
  have hne : last ≠ n := fun he => hmem (he ▸ hin)
  refine ⟨?_, last, hin, rfl⟩
  -- the pointers are those of the list, with one more at its end
  have hpointer : ∀ x ∈ node :: rest, nextNode ((m.setWord (listField last) (listField n)).setWord
      (listField n) 0) x = Function.update (nextNode m) last (some n) x := by
    intro x hx
    have hxn : n ≠ x := fun he => hmem (he ▸ hx)
    rw [(sameNode_setWord_listField hfits hn (hl x hx) hxn 0).nextNode]
    by_cases hxl : x = last
    · subst hxl
      have hword : (m.setWord (listField x) (listField n)).word (listField x) = listField n :=
        word_setWord_self ..
      have hnz := listField_ne_zero hfits hn
      rw [← hword] at hnz
      rw [update_self, nextNode_of_ne hnz, hword, slistEntry_listField]
    · rw [update_of_ne hxl]
      exact (sameNode_setWord_listField hfits (hl last hin) (hl x hx) (Ne.symm hxl) _).nextNode
  have hnull : nextNode ((m.setWord (listField last) (listField n)).setWord (listField n) 0) n =
      none := nextNode_of_zero (word_setWord_self ..)
  have hchain : Chain (Function.update (nextNode m) n none) (some node) (node :: rest) :=
    h.update hmem none
  have hget : (node :: rest).getLast? = some last := by
    rw [getLast?_eq_some_getLast (cons_ne_nil node rest), hlast']
  have hlink := hchain.append hnodup hget hmem (update_self ..)
  apply hlink.congr
  intro x hx
  rcases mem_append.1 hx with hx | hx
  · have hxn : x ≠ n := fun he => hmem (he ▸ hx)
    rw [hpointer x hx]
    by_cases hxl : x = last
    · rw [hxl, update_self, update_self]
    · rw [update_of_ne hxl, update_of_ne hxl, update_of_ne hxn]
  · rw [mem_singleton.1 hx, hnull, update_of_ne hne.symm, update_self]

theorem chain_unlink (hfits : Fits start nodeStride total) {p : UInt32}
    (h : Chain (nextNode m) (some node) (l₁ ++ p :: n :: l₂))
    (hl : ∀ x ∈ l₁ ++ p :: n :: l₂, IsNode start total x) (hnodup : (l₁ ++ p :: n :: l₂).Nodup) :
    Chain (nextNode (m.setWord (listField p) (m.word (listField n)))) (some node)
      (l₁ ++ p :: l₂) := by
  have hp : p ∈ l₁ ++ p :: n :: l₂ := mem_append_right _ mem_cons_self
  apply (h.removeNext hnodup).congr
  intro x hx
  have hx' : x ∈ l₁ ++ p :: n :: l₂ := by
    simp only [mem_append, mem_cons] at hx ⊢
    rcases hx with hx | hx | hx
    · exact .inl hx
    · exact .inr (.inl hx)
    · exact .inr (.inr (.inr hx))
  by_cases hxp : x = p
  · subst hxp
    rw [update_self]
    unfold nextNode
    rw [word_setWord_self]
  · rw [update_of_ne hxp]
    exact (sameNode_setWord_listField hfits (hl p hp) (hl x hx') (Ne.symm hxp) _).nextNode

theorem initNode_spec (hfits : Fits start nodeStride total) (hn : IsNode start total n) {sig : ℕ}
    (hsig : sig < rtSigMax) (m : Mempool) :
    siSigno (initNode sig n m) n = sig ∧ (initNode sig n m).word (listField n) = 0 ∧
      ∀ x, IsNode start total x → n ≠ x → SameNode m (initNode sig n m) x := by
  have hzero : ∀ (m : Mempool) (v : UInt32), m.setWord n v = m.setWord (n + 0) v := by
    intro m v
    rw [add_zero]
  have hvalue : (n + 4).toNat + 4 ≤ n.toNat ∨ n.toNat + 4 ≤ (n + 4).toNat := by
    have hapart := fields_apart hfits hn hn (j := 4) (k := 0) (by decide) (by decide)
      (.inr (.inr (by decide)))
    rwa [add_zero] at hapart
  unfold initNode copySi
  refine ⟨?_, ?_, ?_⟩
  · unfold siSigno
    rw [word_setWord_of_disjoint hvalue, word_setWord_self]
    unfold rtSigMax at hsig
    have hcode : (0x10000 : UInt32).toNat = 0x10000 := rfl
    have hnat : (.ofNat sig : UInt32).toNat = sig :=
      UInt32.toNat_ofNat_of_lt' (show sig < 2 ^ 32 by omega)
    rw [UInt32.toNat_add, hcode, hnat]
    omega
  · have hlist := fields_apart hfits hn hn (j := 4) (k := 8) (by decide) (by decide)
      (.inr (.inl (by decide)))
    have hsi := fields_apart hfits hn hn (j := 0) (k := 8) (by decide) (by decide)
      (.inr (.inl (by decide)))
    rw [add_zero] at hsi
    unfold listField
    rw [word_setWord_of_disjoint hlist, word_setWord_of_disjoint hsi, word_setWord_self]
  · intro x hx hne
    refine (sameNode_setWord_listField hfits hn hx hne 0).trans ?_
    rw [hzero]
    exact (sameNode_setWord hfits hn hx (j := 0) (by decide) hne _).trans
      (sameNode_setWord hfits hn hx (j := 4) (by decide) hne _)

theorem Mempool.Inv.initNode (h : m.Inv mp start nodeStride total free live)
    (hfits : Fits start nodeStride total) (hn : IsNode start total n) (sig : ℕ) :
    (RtThread.initNode sig n m).Inv mp start nodeStride total free live := by
  have hzero := (h.setField hfits hn (j := 8) (by decide) 0).setField hfits hn (j := 0)
    (by decide) (0x10000 + .ofNat sig)
  rw [add_zero] at hzero
  exact hzero.setField hfits hn (j := 4) (by decide) 0

theorem sameNode_take (hfits : Fits start nodeStride total)
    (hs : m.take mp = some (m', n)) (hn : IsNode start total n) (hn' : IsNode start total n') :
    SameNode m m' n' := by
  unfold Mempool.take at hs
  dsimp only at hs
  split at hs
  · cases hs
  · cases hs
    have hhead := sameNode_setWord_head (m := m) hfits hn hn' mp
    rw [add_sub_cancel_right] at hhead
    exact ⟨hhead.si, hhead.list⟩

theorem sameNode_give (hfits : Fits start nodeStride total) (hn : IsNode start total n)
    (hn' : IsNode start total n') : SameNode m (m.give n) n' :=
  have hhead := sameNode_setWord_head (m := m) hfits hn hn' m.blockList
  ⟨hhead.si, hhead.list⟩

end RtThread
