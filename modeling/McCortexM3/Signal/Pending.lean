import McCortexM3.Signal.Nodes

/-!
# Pending signals and their nodes

Each pending signal of a thread is to have one node in its list, but while `rt_thread_kill` has set
its bit and has not linked the node, and while its handler is called.

`rt_thread_kill` searches the list of a signal that is already pending through pointers of another
type, and leaves the bit set when there is no node; `rt_signal_wait` unlinks the first node as if
the pointer in a node led to a node, and searches behind the end of the list.

## Main definitions

* `SignalSys.nodes` — the list of a thread.
* `SignalSys.Busy` — a signal that is on its way into the list or out of it.
* `SignalSys.Orderly` — what the steps must not do.
* `Ledger`, `SignalSys.Inv` — where the pending signals are, and the invariant.

## Main results

* `SignalSys.run_onePending` — the bits and the nodes, in every run.
-/

set_option linter.all false

namespace RtThread

open Function Option Mempool
open Function (update)
open List (append_assoc map_cons mem_cons mem_cons_of_mem mem_cons_self mem_singleton nodup_cons
  not_mem_nil)

variable {Tid ι : Type} [DecidableEq Tid] [DecidableEq ι]

/-- The nodes of a list, at most `n` of them. -/
def siNodes (m : Mempool) : ℕ → UInt32 → List UInt32
  | 0, _ => []
  | n + 1, node =>
    if node = 0 then []
    else
      node :: siNodes m n
        (if m.word (listField node) = 0 then 0 else slistEntry (m.word (listField node)))

/-- Where a pending signal is: its node is in the list, its handler is called, or a caller of
`rt_thread_kill` has no node yet or has not linked it. -/
inductive Place (ι : Type)
  | list (n : UInt32)
  | frame (n : UInt32)
  | alloc (i : ι)
  | append (i : ι) (n : UInt32)

namespace Place

/-- The node of a pending signal. -/
def node : Place ι → Option UInt32
  | .list n => some n
  | .frame n => some n
  | .alloc _ => none
  | .append _ n => some n

/-- The caller of `rt_thread_kill`, with the place where it is then. -/
def caller (t : Tid) (sig : ℕ) : Place ι → Option (ι × KillPc Tid)
  | .list _ => none
  | .frame _ => none
  | .alloc i => some (i, .alloc t sig)
  | .append i n => some (i, .append t sig n)

end Place

theorem siNodes_eq {m : Mempool} {node : UInt32} {l : List UInt32}
    (h : Chain (nextNode m) (pointee node) l) (hne : ∀ n ∈ l, n ≠ 0) {n : ℕ} (hlen : l.length ≤ n) :
    siNodes m n node = l := by
  induction l generalizing node n with
  | nil =>
    have hz : node = 0 := by
      by_contra hnz
      rw [pointee_of_ne hnz] at h
      cases h
    subst hz
    cases n <;> rfl
  | cons x l ih =>
    obtain ⟨hx, hrest⟩ := h
    obtain ⟨hnz, rfl⟩ := pointee_eq_some.1 hx
    cases n with
    | zero => cases hlen
    | succ n =>
      unfold siNodes
      rw [if_neg hnz]
      apply congrArg (node :: ·)
      apply ih _ (fun n hn => hne n (mem_cons_of_mem _ hn)) (Nat.le_of_succ_le_succ hlen)
      rcases chain_nextNode hrest with ⟨hnull, rfl⟩ | ⟨hnext, rest, rfl, hrest'⟩
      · rw [if_pos hnull]
        rfl
      · rw [if_neg hnext, pointee_of_ne (hne _ (mem_cons_of_mem _ mem_cons_self))]
        exact ⟨rfl, hrest'⟩

/-- The place of each pending signal, the list of each thread, and the signal that each node is
for. -/
structure Ledger (Tid ι : Type) where
  place : Tid → ℕ → Option (Place ι)
  nodes : Tid → List UInt32
  tag : UInt32 → Option (Tid × ℕ)

namespace SignalSys

/-- The list of the thread, of which the first `RT_SIG_INFO_MAX` nodes are all. -/
def nodes (s : SignalSys Tid ι) (t : Tid) : List UInt32 :=
  siNodes s.pool rtSigInfoMax.toNat (s.thread t).siList

/-- `rt_thread_kill` or `rt_thread_handle_sig` works on the signal. -/
def Busy (s : SignalSys Tid ι) (t : Tid) (sig : ℕ) : Prop :=
  (∃ i, s.killPc i = .alloc t sig) ∨ (∃ i n, s.killPc i = .append t sig n) ∨
    ∃ f ∈ (s.thread t).frames, f.signo = sig

/-- `rt_signal_wait` finds a signal of the set in the list, if there is one, and does not unlink
the first of several nodes. -/
def FindsRightly (s : SignalSys Tid ι) (t : Tid) (set : BitVec 32) : Prop :=
  s.nodes t ≠ [] → (∃ n ∈ s.nodes t, InSet s.pool set n) ∧
    ∀ n ∈ (s.nodes t).head?, InSet s.pool set n → (s.nodes t).tail = []

instance (s : SignalSys Tid ι) (t : Tid) (set : BitVec 32) : Decidable (s.FindsRightly t set) :=
  -- the addresses are looked up in the list, and not one after the other
  @instDecidableForall _ _ inferInstance
    (@instDecidableAnd _ _ (List.decidableBEx _ _) (Option.decidableForallMem _))

/-- `rt_thread_kill` is not called for a pending signal and gets a node, and `rt_signal_wait` finds
its node rightly. -/
def Orderly (s : SignalSys Tid ι) : SignalAction Tid ι → Prop
  | .kill _ t sig => (s.thread t).sigPending &&& sigMask sig = 0
  | .killAlloc _ => s.pool.blockFreeCount ≠ 0
  | .wait t set _ => (s.thread t).sigPending &&& set ≠ 0 → s.FindsRightly t set
  | .waitEnd t timeout => timeout = false → ∀ set ∈ (s.thread t).waiting, s.FindsRightly t set
  | _ => True

instance (s : SignalSys Tid ι) : ∀ a : SignalAction Tid ι, Decidable (s.Orderly a)
  | .kill _ t sig => inferInstanceAs (Decidable ((s.thread t).sigPending &&& sigMask sig = 0))
  | .killAlloc _ => inferInstanceAs (Decidable (s.pool.blockFreeCount ≠ 0))
  | .wait t set _ =>
    inferInstanceAs (Decidable ((s.thread t).sigPending &&& set ≠ 0 → s.FindsRightly t set))
  | .waitEnd t timeout =>
    haveI : Decidable (∀ set ∈ (s.thread t).waiting, s.FindsRightly t set) :=
      Option.decidableForallMem _
    inferInstanceAs (Decidable (timeout = false → _))
  | .killSearch .. | .killAppend .. | .handleSig .. | .invoke .. | .handlerDone .. | .mask ..
  | .unmask .. | .install .. => .isTrue trivial

end SignalSys

/-! ### One thread -/

/-- The fields of a thread agree with the places of its pending signals and with its list. -/
structure SigThread.Inv (m : Mempool) (nodes : List UInt32) (place : ℕ → Option (Place ι))
    (th : SigThread) : Prop where
  pending : ∀ sig, th.sigPending.getLsbD sig = true ↔ place sig ≠ none
  list : Chain (nextNode m) (pointee th.siList) nodes
  nodup : nodes.Nodup
  mem_nodes : ∀ n, n ∈ nodes ↔ ∃ sig, place sig = some (.list n)
  frames : ∀ sig n, place sig = some (.frame n) ↔ ∃ f ∈ th.frames, f.signo = sig ∧ f.node = n
  frames_nodup : (th.frames.map SigFrame.signo).Nodup

namespace SigThread.Inv

variable {m m' : Mempool} {nodes : List UInt32} {place : ℕ → Option (Place ι)} {th th' : SigThread}
  {sig sig' : ℕ} {n n' : UInt32} {p q : Place ι}

section

variable (h : th.Inv m nodes place)
include h

theorem setPool (hsame : ∀ n ∈ nodes, nextNode m' n = nextNode m n) : th.Inv m' nodes place :=
  ⟨h.pending, h.list.congr hsame, h.nodup, h.mem_nodes, h.frames, h.frames_nodup⟩

theorem congr (hpending : th'.sigPending = th.sigPending)
    (hlist : th'.siList = th.siList) (hframes : th'.frames = th.frames) : th'.Inv m nodes place := by
  refine ⟨?_, ?_, h.nodup, h.mem_nodes, ?_, ?_⟩
  · rw [hpending]
    exact h.pending
  · rw [hlist]
    exact h.list
  · rw [hframes]
    exact h.frames
  · rw [hframes]
    exact h.frames_nodup

theorem mem_nodes_update {q : Option (Place ι)}
    (hold : ∀ n, place sig ≠ some (.list n)) (hnew : ∀ n, q ≠ some (.list n)) (n : UInt32) :
    n ∈ nodes ↔ ∃ sig', update place sig q sig' = some (.list n) := by
  rw [h.mem_nodes]
  apply exists_congr
  intro sig'
  by_cases hs : sig' = sig
  · subst hs
    rw [update_self]
    exact iff_of_false (hold n) (hnew n)
  · rw [update_of_ne hs]

theorem frames_update {q : Option (Place ι)}
    (hold : ∀ n, place sig ≠ some (.frame n)) (hnew : ∀ n, q ≠ some (.frame n)) (sig' : ℕ)
    (n : UInt32) : update place sig q sig' = some (.frame n) ↔
      ∃ f ∈ th.frames, f.signo = sig' ∧ f.node = n := by
  rw [← h.frames]
  by_cases hs : sig' = sig
  · subst hs
    rw [update_self]
    exact iff_of_false (hnew n) (hold n)
  · rw [update_of_ne hs]

theorem pending_update (hold : place sig ≠ none) (q : Place ι)
    (sig' : ℕ) : th.sigPending.getLsbD sig' = true ↔ update place sig (some q) sig' ≠ none := by
  rw [h.pending]
  by_cases hs : sig' = sig
  · subst hs
    rw [update_self]
    exact iff_of_true hold nofun
  · rw [update_of_ne hs]

theorem pending_clear (sig sig' : ℕ) :
    (th.sigPending &&& ~~~RtThread.sigMask sig).getLsbD sig' = true ↔
      update place sig none sig' ≠ none := by
  rw [getLsbD_and_not_sigMask, h.pending]
  by_cases hs : sig' = sig
  · subst hs
    rw [update_self]
    exact iff_of_false (fun hne => hne.2 rfl) fun hne => hne rfl
  · rw [update_of_ne hs]
    exact and_iff_left (Ne.symm hs)

/-- `rt_thread_kill` sets the bit. -/
theorem send (hsig : sig < rtSigMax) (hnone : place sig = none) (i : ι) :
    ({ th with sigPending := th.sigPending ||| RtThread.sigMask sig }).Inv m nodes
      (update place sig (some (.alloc i))) := by
  have hold : ∀ p : Place ι, place sig ≠ some p := by
    intro p hp
    rw [hnone] at hp
    cases hp
  refine ⟨?_, h.list, h.nodup, h.mem_nodes_update (fun n => hold _) nofun,
    h.frames_update (fun n => hold _) nofun, h.frames_nodup⟩
  intro sig'
  rw [getLsbD_or_sigMask, h.pending]
  by_cases hs : sig' = sig
  · subst hs
    rw [update_self]
    exact iff_of_true (.inr ⟨hsig, rfl⟩) nofun
  · rw [update_of_ne hs]
    exact or_iff_left fun hsig' => hs hsig'.2.symm

theorem alloc {i : ι} (hold : place sig = some (.alloc i))
    (n : UInt32) : th.Inv m nodes (update place sig (some (.append i n))) := by
  refine ⟨h.pending_update (by rw [hold]; nofun) _, h.list, h.nodup,
    h.mem_nodes_update (by rw [hold]; nofun) nofun, h.frames_update (by rw [hold]; nofun) nofun,
    h.frames_nodup⟩

/-- `rt_thread_kill` links its node, so that the list becomes `nodes ++ [n]`. -/
theorem append {i : ι} (hold : place sig = some (.append i n))
    (hn : n ∉ nodes) {siList : UInt32}
    (hlist : Chain (nextNode m') (pointee siList) (nodes ++ [n])) :
    ({ th with siList := siList }).Inv m' (nodes ++ [n]) (update place sig (some (.list n))) := by
  refine ⟨h.pending_update (by rw [hold]; nofun) _, hlist, ?_, ?_,
    h.frames_update (by rw [hold]; nofun) nofun, h.frames_nodup⟩
  · rw [List.nodup_append_comm, List.singleton_append, nodup_cons]
    exact ⟨hn, h.nodup⟩
  · intro x
    rw [List.mem_append, mem_singleton, h.mem_nodes]
    constructor
    · rintro (⟨sig', hs'⟩ | rfl)
      · refine ⟨sig', ?_⟩
        have hne : sig' ≠ sig := by
          rintro rfl
          rw [hold] at hs'
          cases hs'
        rwa [update_of_ne hne]
      · exact ⟨sig, update_self ..⟩
    · rintro ⟨sig', hs'⟩
      by_cases hs : sig' = sig
      · subst hs
        rw [update_self] at hs'
        cases hs'
        exact .inr rfl
      · rw [update_of_ne hs] at hs'
        exact .inl ⟨sig', hs'⟩

theorem mem_nodes_erase (hold : place sig = some (.list n))
    (hinj : ∀ sig', place sig' = some (.list n) → sig' = sig) {nodes' : List UInt32}
    (hmem : ∀ x, x ∈ nodes' ↔ x ∈ nodes ∧ x ≠ n) {q : Option (Place ι)}
    (hnew : ∀ x, q ≠ some (.list x)) (x : UInt32) :
    x ∈ nodes' ↔ ∃ sig', update place sig q sig' = some (.list x) := by
  rw [hmem, h.mem_nodes]
  constructor
  · rintro ⟨⟨sig', hs'⟩, hx⟩
    refine ⟨sig', ?_⟩
    have hne : sig' ≠ sig := by
      rintro rfl
      rw [hold] at hs'
      cases hs'
      exact hx rfl
    rwa [update_of_ne hne]
  · rintro ⟨sig', hs'⟩
    by_cases hs : sig' = sig
    · subst hs
      rw [update_self] at hs'
      exact absurd hs' (hnew x)
    · rw [update_of_ne hs] at hs'
      refine ⟨⟨sig', hs'⟩, ?_⟩
      rintro rfl
      exact hs (hinj sig' hs')

end

/-- `rt_thread_handle_sig` takes the first node. -/
theorem takeHead {rest : List UInt32} (h : th.Inv m (n :: rest) place)
    (hold : place sig = some (.list n))
    (hinj : ∀ sig', place sig' = some (.list n) → sig' = sig) {siList : UInt32}
    (hlist : Chain (nextNode m) (pointee siList) rest) :
    ({ th with siList := siList, frames := ⟨n, sig, none⟩ :: th.frames }).Inv m rest
      (update place sig (some (.frame n))) := by
  obtain ⟨hn, hnodup⟩ := nodup_cons.1 h.nodup
  refine ⟨h.pending_update (by rw [hold]; nofun) _, hlist, hnodup, ?_, ?_, ?_⟩
  · refine h.mem_nodes_erase hold hinj ?_ (fun _ => nofun)
    intro x
    rw [mem_cons]
    constructor
    · exact fun hx => ⟨.inr hx, fun he => hn (he ▸ hx)⟩
    · exact fun hx => hx.1.resolve_left hx.2
  · intro sig' n'
    simp only [mem_cons, exists_eq_or_imp]
    by_cases hs : sig' = sig
    · subst hs
      rw [update_self]
      have hnot : ¬ ∃ f ∈ th.frames, f.signo = sig' ∧ f.node = n' := by
        rw [← h.frames, hold]
        nofun
      rw [or_iff_left hnot]
      constructor
      · intro he
        cases he
        exact ⟨rfl, rfl⟩
      · rintro ⟨-, rfl⟩
        rfl
    · rw [update_of_ne hs, h.frames]
      exact (or_iff_right fun hsig => hs hsig.1.symm).symm
  · rw [map_cons, nodup_cons]
    refine ⟨?_, h.frames_nodup⟩
    intro hmem
    obtain ⟨f, hf, hsig⟩ := List.mem_map.1 hmem
    have hframe := (h.frames sig f.node).2 ⟨f, hf, hsig, rfl⟩
    rw [hold] at hframe
    cases hframe

theorem invoke {node : UInt32} {signo : ℕ} {o o' : Option Bool} {rest : List SigFrame}
    (h : th.Inv m nodes place) (hframes : th.frames = ⟨node, signo, o⟩ :: rest) :
    ({ th with frames := ⟨node, signo, o'⟩ :: rest }).Inv m nodes place := by
  refine ⟨h.pending, h.list, h.nodup, h.mem_nodes, ?_, ?_⟩
  · intro sig' n'
    rw [h.frames, hframes]
    simp only [mem_cons, exists_eq_or_imp]
  · have hnodup := h.frames_nodup
    rwa [hframes] at hnodup

theorem handlerEnd {f : SigFrame} {rest : List SigFrame} (h : th.Inv m nodes place)
    (hframes : th.frames = f :: rest) :
    ({ th with
      sigPending := th.sigPending &&& ~~~RtThread.sigMask f.signo
      frames := rest }).Inv m nodes (update place f.signo none) := by
  have hnodup := h.frames_nodup
  rw [hframes, map_cons, nodup_cons] at hnodup
  have hold : place f.signo = some (.frame f.node) := by
    rw [h.frames, hframes]
    exact ⟨f, mem_cons_self, rfl, rfl⟩
  refine ⟨h.pending_clear _, h.list, h.nodup, h.mem_nodes_update (by rw [hold]; nofun) nofun, ?_,
    hnodup.2⟩
  intro sig' n'
  by_cases hs : sig' = f.signo
  · rw [hs, update_self]
    refine iff_of_false nofun ?_
    rintro ⟨f', hf', hsig, -⟩
    exact hnodup.1 (hsig ▸ List.mem_map_of_mem hf')
  · rw [update_of_ne hs, h.frames, hframes]
    simp only [mem_cons, exists_eq_or_imp]
    exact or_iff_right fun hsig => hs hsig.1.symm

/-- `rt_signal_wait` takes a node out of the list. -/
theorem receive {l₁ l₂ : List UInt32} (h : th.Inv m (l₁ ++ n :: l₂) place)
    (hold : place sig = some (.list n))
    (hinj : ∀ sig', place sig' = some (.list n) → sig' = sig) {siList : UInt32}
    (hlist : Chain (nextNode m') (pointee siList) (l₁ ++ l₂)) :
    ({ th with
      siList := siList
      sigPending := th.sigPending &&& ~~~RtThread.sigMask sig }).Inv m' (l₁ ++ l₂)
      (update place sig none) := by
  have hnodup := (List.nodup_middle.1 h.nodup)
  obtain ⟨hn, hnodup⟩ := nodup_cons.1 hnodup
  refine ⟨h.pending_clear sig, hlist, hnodup, ?_, h.frames_update (by rw [hold]; nofun) nofun,
    h.frames_nodup⟩
  refine h.mem_nodes_erase hold hinj ?_ (fun _ => nofun)
  intro x
  have hmiddle : x ∈ l₁ ++ n :: l₂ ↔ x = n ∨ x ∈ l₁ ++ l₂ := by
    rw [List.perm_middle.mem_iff, mem_cons]
  rw [hmiddle]
  constructor
  · exact fun hx => ⟨.inr hx, fun he => hn (he ▸ hx)⟩
  · exact fun hx => hx.1.resolve_left hx.2

end SigThread.Inv

/-! ### All threads -/

namespace SignalSys

/-- The invariant: the places of the pending signals of all threads, with nodes that are blocks of
the pool, and the callers of `rt_thread_kill`. -/
structure Inv (mp start : UInt32) (total : ℕ) (s : SignalSys Tid ι) (g : Ledger Tid ι)
    (free live : List UInt32) : Prop where
  pool : s.pool.Inv mp start nodeStride total free live
  held : ∀ {t sig p n}, g.place t sig = some p → p.node = some n →
    n - 4 ∈ live ∧ g.tag n = some (t, sig) ∧ siSigno s.pool n = sig
  thread : ∀ t, (s.thread t).Inv s.pool (g.nodes t) (g.place t)
  caller : ∀ {t sig p i pc}, g.place t sig = some p → p.caller t sig = some (i, pc) →
    s.killPc i = pc
  placed : ∀ i, s.killPc i ≠ .idle →
    ∃ t sig p, g.place t sig = some p ∧ p.caller t sig = some (i, s.killPc i)
  fresh : ∀ {t sig i n}, g.place t sig = some (.append i n) → s.pool.word (listField n) = 0

variable {mp start : UInt32} {total fuel : ℕ} {s s' : SignalSys Tid ι} {g : Ledger Tid ι}
  {free live free' live' : List UInt32} {t u : Tid} {i : ι} {sig sig' : ℕ} {n n' : UInt32}
  {p p' : Place ι} {out : List (SignalEvent Tid)}

namespace Inv

theorem isNode (h : s.Inv mp start total g free live) (hp : g.place t sig = some p)
    (hn : p.node = some n) : IsNode start total n := h.pool.mem_blocks_live (h.held hp hn).1

theorem place_unique (h : s.Inv mp start total g free live) (hp : g.place t sig = some p)
    (hp' : g.place u sig' = some p') (hn : p.node = some n) (hn' : p'.node = some n) :
    (u, sig') = (t, sig) := by
  have htag := (h.held hp' hn').2.1
  rw [(h.held hp hn).2.1] at htag
  exact (some.inj htag).symm

theorem place_of_mem (h : s.Inv mp start total g free live) (hn : n ∈ g.nodes t) :
    g.place t (siSigno s.pool n) = some (.list n) := by
  obtain ⟨sig, hsig⟩ := ((h.thread t).mem_nodes n).1 hn
  have hsigno : siSigno s.pool n = sig := (h.held hsig rfl).2.2
  rw [hsigno]
  exact hsig

section

variable {q : Option (Place ι)} {th : SigThread} {nodes : List UInt32}
  (tag : UInt32 → Option (Tid × ℕ)) (h : s.Inv mp start total g free live)
  (hpool : s'.pool.Inv mp start nodeStride total free' live')
  (hthread : s'.thread = update s.thread t th)
  (hth : th.Inv s'.pool nodes (update (g.place t) sig q))
  (hnew : ∀ {p n}, q = some p → p.node = some n →
    n - 4 ∈ live' ∧ tag n = some (t, sig) ∧ siSigno s'.pool n = sig)
  (hother : ∀ {u sig' p n}, (u, sig') ≠ (t, sig) → g.place u sig' = some p → p.node = some n →
    n - 4 ∈ live' ∧ tag n = g.tag n ∧ siSigno s'.pool n = siSigno s.pool n)
  (hlist : ∀ {u sig' p n}, (u, sig') ≠ (t, sig) → g.place u sig' = some p → p.node = some n →
    (u = t → p ≠ .list n) → s'.pool.word (listField n) = s.pool.word (listField n))
include h hpool hthread hth hnew hother hlist

/-- **The place of one signal changes**, and with it fields of its thread, a place in
`rt_thread_kill` and memory that belongs to no other signal. -/
theorem change (hcaller : ∀ {p i pc}, q = some p → p.caller t sig = some (i, pc) → s'.killPc i = pc)
    (hcallers : ∀ {u sig' p i pc}, (u, sig') ≠ (t, sig) → g.place u sig' = some p →
      p.caller u sig' = some (i, pc) → s'.killPc i = s.killPc i)
    (hplaced : ∀ i, s'.killPc i ≠ .idle →
      (∃ p, q = some p ∧ p.caller t sig = some (i, s'.killPc i)) ∨ s'.killPc i = s.killPc i ∧
        ∀ p, g.place t sig = some p → p.caller t sig ≠ some (i, s.killPc i))
    (hfresh : ∀ {i n}, q = some (.append i n) → s'.pool.word (listField n) = 0) :
    s'.Inv mp start total
      ⟨update g.place t (update (g.place t) sig q), update g.nodes t nodes, tag⟩ free' live' := by
  -- the places are the new one and the old ones of all other signals
  have hplace : ∀ {u sig' p},
      update g.place t (update (g.place t) sig q) u sig' = some p →
        (u = t ∧ sig' = sig ∧ q = some p) ∨ (u, sig') ≠ (t, sig) ∧ g.place u sig' = some p := by
    intro u sig' p hp
    by_cases hu : u = t
    · subst hu
      rw [update_self] at hp
      by_cases hs : sig' = sig
      · subst hs
        rw [update_self] at hp
        exact .inl ⟨rfl, rfl, hp⟩
      · rw [update_of_ne hs] at hp
        exact .inr ⟨fun he => hs (Prod.mk.inj he).2, hp⟩
    · rw [update_of_ne hu] at hp
      exact .inr ⟨fun he => hu (Prod.mk.inj he).1, hp⟩
  have hold : ∀ {u sig' p}, (u, sig') ≠ (t, sig) → g.place u sig' = some p →
      update g.place t (update (g.place t) sig q) u sig' = some p := by
    intro u sig' p hne hp
    by_cases hu : u = t
    · subst hu
      have hs : sig' ≠ sig := fun he => hne (congrArg (Prod.mk u) he)
      rwa [update_self, update_of_ne hs]
    · rwa [update_of_ne hu]
  refine ⟨hpool, ?_, ?_, ?_, ?_, ?_⟩
  · intro u sig' p n hp hn
    rcases hplace hp with ⟨rfl, rfl, hq⟩ | ⟨hne, hp⟩
    · exact hnew hq hn
    · obtain ⟨-, htag, hsigno⟩ := h.held hp hn
      obtain ⟨hlive', htag', hsigno'⟩ := hother hne hp hn
      exact ⟨hlive', htag'.trans htag, hsigno'.trans hsigno⟩
  · intro u
    dsimp only
    rw [hthread]
    by_cases hu : u = t
    · subst hu
      rw [update_self, update_self, update_self]
      exact hth
    · rw [update_of_ne hu, update_of_ne hu, update_of_ne hu]
      apply (h.thread u).setPool
      intro n hn
      unfold nextNode
      rw [hlist (fun he => hu (Prod.mk.inj he).1) (h.place_of_mem hn) rfl fun he => absurd he hu]
  · intro u sig' p i pc hp hpc
    rcases hplace hp with ⟨rfl, rfl, hq⟩ | ⟨hne, hp⟩
    · exact hcaller hq hpc
    · rw [hcallers hne hp hpc]
      exact h.caller hp hpc
  · intro i hi
    rcases hplaced i hi with ⟨p, hq, hp⟩ | ⟨hpc, hnot⟩
    · refine ⟨t, sig, p, ?_, hp⟩
      dsimp only
      rw [update_self, update_self, hq]
    · rw [hpc] at hi ⊢
      obtain ⟨u, sig', p, hp, hcall⟩ := h.placed i hi
      refine ⟨u, sig', p, hold ?_ hp, hcall⟩
      intro he
      cases he
      exact hnot p hp hcall
  · intro u sig' i n hp
    rcases hplace hp with ⟨rfl, rfl, hq⟩ | ⟨hne, hp⟩
    · exact hfresh hq
    · rw [hlist hne hp rfl fun _ => nofun]
      exact h.fresh hp

/-- A caller of `rt_thread_kill` goes on with its signal. -/
theorem changeKill {pc : KillPc Tid} (hkill : s'.killPc = update s.killPc i pc)
    (hmine : ∀ {u sig' p pc}, g.place u sig' = some p → p.caller u sig' = some (i, pc) →
      (u, sig') = (t, sig))
    (hold : ∀ p, g.place t sig = some p → ∃ pc, p.caller t sig = some (i, pc))
    (hq : ∀ {p j pc'}, q = some p → p.caller t sig = some (j, pc') → j = i ∧ pc' = pc)
    (hpc : pc ≠ .idle → ∃ p, q = some p ∧ p.caller t sig = some (i, pc))
    (hfresh : ∀ {i n}, q = some (.append i n) → s'.pool.word (listField n) = 0) :
    s'.Inv mp start total
      ⟨update g.place t (update (g.place t) sig q), update g.nodes t nodes, tag⟩ free' live' := by
  apply h.change tag hpool hthread hth hnew hother hlist _ _ _ hfresh
  · intro p j pc' hp hcall
    obtain ⟨rfl, rfl⟩ := hq hp hcall
    rw [hkill, update_self]
  · intro u sig' p j pc' hne hp hcall
    have hj : j ≠ i := by
      rintro rfl
      exact hne (hmine hp hcall)
    rw [hkill, update_of_ne hj]
  · intro j hj
    by_cases hji : j = i
    · subst hji
      rw [hkill, update_self] at hj ⊢
      exact .inl (hpc hj)
    · refine .inr ⟨by rw [hkill, update_of_ne hji], ?_⟩
      intro p hp hcall
      obtain ⟨pc', hcall'⟩ := hold p hp
      rw [hcall'] at hcall
      exact hji (Prod.mk.inj (some.inj hcall)).1.symm

/-- The signal is in no place of `rt_thread_kill` before and after. -/
theorem changeThread (hkill : s'.killPc = s.killPc)
    (hold : ∀ p, g.place t sig = some p → p.caller t sig = none)
    (hq : ∀ p, q = some p → p.caller t sig = none) :
    s'.Inv mp start total
      ⟨update g.place t (update (g.place t) sig q), update g.nodes t nodes, tag⟩ free' live' := by
  apply h.change tag hpool hthread hth hnew hother hlist
  · intro p j pc hp hcall
    rw [hq p hp] at hcall
    cases hcall
  · intro u sig' p j pc hne hp hcall
    rw [hkill]
  · intro j hj
    refine .inr ⟨by rw [hkill], ?_⟩
    intro p hp hcall
    rw [hold p hp] at hcall
    cases hcall
  · intro j n hp
    have hcall := hq _ hp
    cases hcall

end

/-! ### The steps -/

section

variable (h : s.Inv mp start total g free live)
include h

theorem caller_idle (hi : s.killPc i = .idle)
    {pc : KillPc Tid} (hp : g.place u sig' = some p) : p.caller u sig' ≠ some (i, pc) := by
  intro hcall
  have hpc := h.caller hp hcall
  rw [hi] at hpc
  subst hpc
  cases p <;> cases hcall

/-- `rt_thread_kill` sets the bit of a signal. -/
theorem kill (hsig : sig < rtSigMax)
    (hbit : (s.thread t).sigPending &&& sigMask sig = 0) (hi : s.killPc i = .idle) :
    ∃ g', (s.kill i t sig).1.Inv mp start total g' free live := by
  have hnone : g.place t sig = none := by
    by_contra hne
    exact and_sigMask_ne_zero.2 (((h.thread t).pending sig).2 hne) hbit
  unfold SignalSys.kill
  dsimp only
  rw [if_neg (not_not.2 hsig), if_neg (not_not.2 hbit)]
  refine ⟨_, h.changeKill g.tag h.pool rfl ((h.thread t).send hsig hnone i) ?_ ?_ ?_ rfl ?_ ?_ ?_ ?_
    ?_⟩
  · intro p n hp hn
    cases hp
    cases hn
  · intro u sig' p n hne hp hn
    exact ⟨(h.held hp hn).1, rfl, rfl⟩
  · exact fun _ _ _ _ => rfl
  · exact fun hp hcall => absurd hcall (h.caller_idle hi hp)
  · intro p hp
    rw [hnone] at hp
    cases hp
  · intro p j pc hp hcall
    cases hp
    cases hcall
    exact ⟨rfl, rfl⟩
  · exact fun _ => ⟨_, rfl, rfl⟩
  · nofun

theorem place_alloc (hi : s.killPc i = .alloc t sig) : g.place t sig = some (.alloc i) := by
  obtain ⟨u, sig', p, hp, hcall⟩ := h.placed i (by rw [hi]; nofun)
  rw [hi] at hcall
  cases p <;> cases hcall
  exact hp

theorem place_append (hi : s.killPc i = .append t sig n) : g.place t sig = some (.append i n) := by
  obtain ⟨u, sig', p, hp, hcall⟩ := h.placed i (by rw [hi]; nofun)
  rw [hi] at hcall
  cases p <;> cases hcall
  exact hp

theorem not_search : s.killPc i ≠ .search t sig n := by
  intro hi
  obtain ⟨u, sig', p, hp, hcall⟩ := h.placed i (by rw [hi]; nofun)
  rw [hi] at hcall
  cases p <;> cases hcall

theorem caller_unique (hp : g.place t sig = some p)
    {pc pc' : KillPc Tid} (hi : s.killPc i = pc) (hcall : p.caller t sig = some (i, pc))
    (hp' : g.place u sig' = some p') (hcall' : p'.caller u sig' = some (i, pc')) :
    (u, sig') = (t, sig) := by
  have hpc := h.caller hp' hcall'
  rw [hi] at hpc
  subst hpc
  cases p <;> cases hcall <;> cases p' <;> cases hcall'
  · rfl
  · rfl

theorem lt_of_place (hp : g.place t sig ≠ none) :
    sig < rtSigMax := BitVec.lt_of_getLsbD (((h.thread t).pending sig).2 hp)

/-- `rt_thread_kill` gets a node. -/
theorem killAlloc (hfits : Fits start nodeStride total)
    (hi : s.killPc i = .alloc t sig) (hcount : s.pool.blockFreeCount ≠ 0)
    (hs : s.killAlloc mp i t sig = some s') :
    ∃ g' free' live', s'.Inv mp start total g' free' live' := by
  have hp₀ := h.place_alloc hi
  have hsig := h.lt_of_place (hp₀ ▸ nofun : g.place t sig ≠ none)
  unfold SignalSys.killAlloc at hs
  rw [if_neg hcount] at hs
  obtain ⟨⟨m, siNode⟩, htake, rfl⟩ := map_eq_some_iff.1 hs
  obtain ⟨rest, hfree, hpool⟩ := h.pool.take hfits hcount htake
  have hnew : IsNode start total siNode := hpool.mem_blocks_live mem_cons_self
  obtain ⟨hsigno, hnull, hsame⟩ := initNode_spec hfits hnew hsig m
  -- the block has been free, and so is none of the nodes
  have hfresh : ∀ {u sig' p n}, g.place u sig' = some p → p.node = some n → siNode ≠ n := by
    rintro u sig' p n hp hn rfl
    have hnodup := h.pool.nodup hfits
    rw [hfree] at hnodup
    exact (List.nodup_append.1 hnodup).2.2 _ mem_cons_self _ (h.held hp hn).1 rfl
  have hnodes : ∀ {u sig' p n}, g.place u sig' = some p → p.node = some n →
      SameNode s.pool (initNode sig siNode m) n :=
    fun hp hn => (sameNode_take hfits htake hnew (h.isNode hp hn)).trans
      (hsame _ (h.isNode hp hn) (hfresh hp hn))
  refine ⟨_, _, _, h.changeKill (update g.tag siNode (some (t, sig)))
    (hpool.initNode hfits hnew sig) (update_eq_self t s.thread).symm
    (((h.thread t).setPool fun n hn => (hnodes (h.place_of_mem hn) rfl).nextNode).alloc hp₀ siNode)
    ?_ ?_ ?_ rfl (h.caller_unique hp₀ hi rfl) ?_ ?_ ?_ ?_⟩
  · intro p n hp hn
    cases hp
    cases hn
    exact ⟨mem_cons_self, update_self .., hsigno⟩
  · intro u sig' p n hne hp hn
    exact ⟨mem_cons_of_mem _ (h.held hp hn).1, update_of_ne (hfresh hp hn).symm ..,
      (hnodes hp hn).siSigno⟩
  · exact fun _ hp hn _ => (hnodes hp hn).list
  · intro p hp
    rw [hp₀] at hp
    cases hp
    exact ⟨_, rfl⟩
  · intro p j pc hp hcall
    cases hp
    cases hcall
    exact ⟨rfl, rfl⟩
  · exact fun _ => ⟨_, rfl, rfl⟩
  · intro j n hq
    cases hq
    exact hnull

theorem nodes_eq_nil (hz : (s.thread t).siList = 0) : g.nodes t = [] := by
  have hlist := (h.thread t).list
  rw [hz] at hlist
  cases hn : g.nodes t with
  | nil => rfl
  | cons n l =>
    rw [hn] at hlist
    cases hlist.1

theorem chain_nodes (hz : (s.thread t).siList ≠ 0) :
    Chain (nextNode s.pool) (some (s.thread t).siList) (g.nodes t) := by
  have hlist := (h.thread t).list
  rwa [pointee_of_ne hz] at hlist

theorem isNode_of_mem (hn : n ∈ g.nodes t) :
    IsNode start total n := h.isNode (h.place_of_mem hn) rfl

/-- `rt_thread_kill` links its node behind the last one. -/
theorem killAppend (hfits : Fits start nodeStride total)
    (hi : s.killPc i = .append t sig n) (hs : s.killAppend fuel i t n = some s') :
    ∃ g', s'.Inv mp start total g' free live := by
  have hp₀ := h.place_append hi
  obtain ⟨hlive, htag, hsigno⟩ := h.held hp₀ rfl
  have hn := h.isNode hp₀ rfl
  -- the node is for no other signal
  have hother : ∀ {u sig' p n'}, (u, sig') ≠ (t, sig) → g.place u sig' = some p →
      p.node = some n' → n ≠ n' := by
    rintro u sig' p n' hne hp hn' rfl
    exact hne (h.place_unique hp₀ hp rfl hn')
  have hnot : n ∉ g.nodes t := by
    intro hmem
    have hp := h.place_of_mem hmem
    rw [hsigno, hp₀] at hp
    cases hp
  have hold : ∀ p, g.place t sig = some p → ∃ pc, p.caller t sig = some (i, pc) := by
    intro p hp
    rw [hp₀] at hp
    cases hp
    exact ⟨_, rfl⟩
  have hq : ∀ {p : Place ι} {j pc'}, some (.list n) = some p → p.caller t sig = some (j, pc') →
      j = i ∧ pc' = KillPc.idle := by
    intro p j pc' hp hcall
    cases hp
    cases hcall
  unfold SignalSys.killAppend at hs
  dsimp only at hs
  split at hs
  · next hz =>
    have hz : (s.thread t).siList = 0 := hz
    rw [← some.inj hs]
    have hchain : Chain (nextNode s.pool) (pointee n) (g.nodes t ++ [n]) := by
      rw [h.nodes_eq_nil hz, pointee_of_ne (hn.ne_zero hfits)]
      exact ⟨rfl, nextNode_of_zero (h.fresh hp₀)⟩
    refine ⟨_, h.changeKill g.tag h.pool rfl ((h.thread t).append hp₀ hnot hchain) ?_ ?_ ?_ rfl
      (h.caller_unique hp₀ hi rfl) hold hq nofun nofun⟩
    · intro p n' hp hn'
      cases hp
      cases hn'
      exact ⟨hlive, htag, hsigno⟩
    · exact fun _ hp hn' => ⟨(h.held hp hn').1, rfl, rfl⟩
    · exact fun _ _ _ _ => rfl
  · next hz =>
    have hz : (s.thread t).siList ≠ 0 := hz
    obtain ⟨m, hm, rfl⟩ := map_eq_some_iff.1 hs
    obtain ⟨hchain, last, hlast, rfl⟩ := chain_append hfits (h.chain_nodes hz)
      (fun x hx => h.isNode_of_mem hx) (h.thread t).nodup hn hnot hm
    rw [← pointee_of_ne hz] at hchain
    have hlastNode := h.isNode_of_mem hlast
    have hsame : ∀ {n'}, IsNode start total n' → siSigno ((s.pool.setWord (listField last)
        (listField n)).setWord (listField n) 0) n' = siSigno s.pool n' := by
      intro n' hn'
      rw [siSigno_setWord_listField hfits hn hn', siSigno_setWord_listField hfits hlastNode hn']
    have hpool := (h.pool.setField hfits hlastNode (j := 8) (by decide) (listField n)).setField
      hfits hn (j := 8) (by decide) 0
    refine ⟨_, h.changeKill g.tag hpool (update_eq_self t s.thread).symm
      ((h.thread t).append hp₀ hnot hchain) ?_ ?_ ?_ rfl (h.caller_unique hp₀ hi rfl) hold hq nofun
      nofun⟩
    · intro p n' hp hn'
      cases hp
      cases hn'
      exact ⟨hlive, htag, (hsame hn).trans hsigno⟩
    · exact fun _ hp hn' => ⟨(h.held hp hn').1, rfl, hsame (h.isNode hp hn')⟩
    · intro u sig' p n' hne hp hn' hnl
      have hnn := hother hne hp hn'
      have hln : last ≠ n' := by
        rintro rfl
        obtain ⟨rfl, rfl⟩ := Prod.mk.inj (h.place_unique (h.place_of_mem hlast) hp rfl hn')
        rw [h.place_of_mem hlast] at hp
        exact hnl rfl (some.inj hp).symm
      have hnode := h.isNode hp hn'
      exact ((sameNode_setWord_listField hfits hlastNode hnode hln _).trans
        (sameNode_setWord_listField hfits hn hnode hnn 0)).list

theorem setThread {th : SigThread}
    (hth : th.Inv s.pool (g.nodes t) (g.place t)) : (s.setThread t th).Inv mp start total g free live := by
  refine ⟨h.pool, h.held, ?_, h.caller, h.placed, h.fresh⟩
  intro u
  by_cases hu : u = t
  · subst hu
    rw [thread_setThread_self]
    exact hth
  · rw [thread_setThread_of_ne hu]
    exact h.thread u

theorem sig_eq (hp : g.place t sig = some (.list n))
    (hp' : g.place t sig' = some (.list n)) : sig' = sig :=
  (Prod.mk.inj (h.place_unique hp hp' rfl rfl)).2

/-- `rt_thread_handle_sig` takes the first node. -/
theorem nextSignal (hfits : Fits start nodeStride total)
    (t : Tid) : ∃ g', (s.nextSignal t).Inv mp start total g' free live := by
  rcases nextSignal_cases t s with heq | ⟨⟨-, hz⟩, heq⟩
  · rw [heq]
    exact ⟨g, h⟩
  · rw [heq]
    obtain ⟨rest, hnodes, hrest⟩ := (h.chain_nodes hz).exists_cons
    have hmem : (s.thread t).siList ∈ g.nodes t := hnodes ▸ mem_cons_self
    have hp₀ := h.place_of_mem hmem
    obtain ⟨hlive, htag, hsigno⟩ := h.held hp₀ rfl
    have hth := h.thread t
    rw [hnodes] at hth
    have hchain : Chain (nextNode s.pool)
        (pointee (if s.pool.word (listField (s.thread t).siList) = 0 then 0
          else slistEntry (s.pool.word (listField (s.thread t).siList)))) rest := by
      rcases chain_nextNode hrest with ⟨hnull, rfl⟩ | ⟨hne, rest', rfl, hrest'⟩
      · rw [if_pos hnull]
        rfl
      · have hmem' : slistEntry (s.pool.word (listField (s.thread t).siList)) ∈ g.nodes t := by
          rw [hnodes]
          exact mem_cons_of_mem _ mem_cons_self
        rw [if_neg hne, pointee_of_ne ((h.isNode_of_mem hmem').ne_zero hfits)]
        exact ⟨rfl, hrest'⟩
    refine ⟨_, h.changeThread g.tag h.pool rfl (hth.takeHead hp₀ (fun _ => h.sig_eq hp₀) hchain)
      ?_ ?_ ?_ rfl ?_ ?_⟩
    · intro p n hp hn
      cases hp
      cases hn
      exact ⟨hlive, htag, hsigno⟩
    · exact fun _ hp hn => ⟨(h.held hp hn).1, rfl, rfl⟩
    · exact fun _ _ _ _ => rfl
    · intro p hp
      rw [hp₀] at hp
      cases hp
      rfl
    · intro p hp
      cases hp
      rfl

theorem handlerEnd (hfits : Fits start nodeStride total)
    {f : SigFrame} {rest : List SigFrame} (hframes : (s.thread t).frames = f :: rest)
    (hs : s.handlerEnd mp t f rest = some s') :
    ∃ g' free' live', s'.Inv mp start total g' free' live' := by
  have hp₀ : g.place t f.signo = some (.frame f.node) := by
    rw [(h.thread t).frames, hframes]
    exact ⟨f, mem_cons_self, rfl, rfl⟩
  obtain ⟨hlive, -, -⟩ := h.held hp₀ rfl
  have hnode := h.isNode hp₀ rfl
  obtain ⟨m, hm, rfl⟩ := map_eq_some_iff.1 hs
  unfold rtMpFree at hm
  split at hm
  · cases hm
    have hnodes : ∀ {u sig' p n}, g.place u sig' = some p → p.node = some n →
        SameNode s.pool (s.pool.give f.node) n :=
      fun hp hn => sameNode_give hfits hnode (h.isNode hp hn)
    refine ⟨_, _, _, h.changeThread g.tag (h.pool.give hfits hlive) rfl
      (((h.thread t).setPool fun n hn => (hnodes (h.place_of_mem hn) rfl).nextNode).handlerEnd
        hframes) nofun ?_ ?_ rfl ?_ nofun⟩
    · intro u sig' p n hne hp hn
      have hnn : n - 4 ≠ f.node - 4 := by
        intro he
        obtain rfl := sub_left_inj.1 he
        exact hne (h.place_unique hp₀ hp rfl hn)
      exact ⟨(List.mem_erase_of_ne hnn).2 (h.held hp hn).1, rfl, (hnodes hp hn).siSigno⟩
    · exact fun _ hp hn _ => (hnodes hp hn).list
    · intro p hp
      rw [hp₀] at hp
      cases hp
      rfl
  · cases hm

end

/-- `nodes` is the list: the pool has no more nodes than it looks for. -/
theorem nodes_eq (h : s.Inv mp start rtSigInfoMax.toNat g free live)
    (hfits : Fits start nodeStride rtSigInfoMax.toNat) (t : Tid) : s.nodes t = g.nodes t := by
  have hlen : (g.nodes t).length ≤ rtSigInfoMax.toNat := by
    have hnodup : ((g.nodes t).map (· - 4)).Nodup :=
      (h.thread t).nodup.map fun _ _ he => sub_left_inj.1 he
    have hsub : (g.nodes t).map (· - 4) ⊆ blocks start nodeStride rtSigInfoMax.toNat := by
      intro x hx
      obtain ⟨n, hn, rfl⟩ := List.mem_map.1 hx
      exact h.isNode_of_mem hn
    have hle := (hnodup.subperm hsub).length_le
    rwa [List.length_map, blocks, List.length_map, List.length_range] at hle
  exact siNodes_eq (h.thread t).list (fun n hn => (h.isNode_of_mem hn).ne_zero hfits) hlen

theorem receive (h : s.Inv mp start total g free live) (hfits : Fits start nodeStride total)
    {m₀ m : Mempool} {siList : UInt32} {l₁ l₂ : List UInt32} (hnodes : g.nodes t = l₁ ++ n :: l₂)
    (hpool : m₀.Inv mp start nodeStride total free live)
    (hsigno : ∀ {x}, IsNode start total x → siSigno m₀ x = siSigno s.pool x)
    (hlist : ∀ {u sig' p x}, g.place u sig' = some p → p.node = some x → (u = t → p ≠ .list x) →
      m₀.word (listField x) = s.pool.word (listField x))
    (hchain : Chain (nextNode m₀) (pointee siList) (l₁ ++ l₂)) (hm : rtMpFree mp n m₀ = some m) :
    ∃ g' : Ledger Tid ι, ∃ free' live', g'.nodes t = l₁ ++ l₂ ∧
      ({ s with pool := m }.setThread t { s.thread t with
        siList := siList
        sigPending := (s.thread t).sigPending &&& ~~~sigMask (siSigno s.pool n) }).Inv
        mp start total g' free' live' := by
  have hmem : n ∈ g.nodes t := hnodes ▸ List.mem_append_right _ mem_cons_self
  have hp₀ := h.place_of_mem hmem
  have hnode := h.isNode_of_mem hmem
  obtain ⟨hlive, -, -⟩ := h.held hp₀ rfl
  unfold rtMpFree at hm
  split at hm
  · cases hm
    have hsame : ∀ {x}, IsNode start total x → SameNode m₀ (m₀.give n) x :=
      fun hx => sameNode_give hfits hnode hx
    have hrest : Chain (nextNode (m₀.give n)) (pointee siList) (l₁ ++ l₂) := by
      apply hchain.congr
      intro x hx
      have hx' : x ∈ g.nodes t := by
        rw [hnodes, List.perm_middle.mem_iff]
        exact mem_cons_of_mem _ hx
      exact (hsame (h.isNode_of_mem hx')).nextNode
    have hth := h.thread t
    rw [hnodes] at hth
    refine ⟨_, _, _, update_self .., h.changeThread g.tag (hpool.give hfits hlive) rfl
      (hth.receive hp₀ (fun _ => h.sig_eq hp₀) hrest) nofun ?_ ?_ rfl ?_ nofun⟩
    · intro u sig' p x hne hp hx
      have hnx : x - 4 ≠ n - 4 := by
        intro he
        obtain rfl := sub_left_inj.1 he
        exact hne (h.place_unique hp₀ hp rfl hx)
      have hxnode := h.isNode hp hx
      exact ⟨(List.mem_erase_of_ne hnx).2 (h.held hp hx).1, rfl,
        (hsame hxnode).siSigno.trans (hsigno hxnode)⟩
    · exact fun _ hp hx hnl => (hsame (h.isNode hp hx)).list.trans (hlist hp hx hnl)
    · intro p hp
      rw [hp₀] at hp
      cases hp
      rfl
  · cases hm

/-- `rt_signal_wait` finds no list, or **takes out the first node of a signal of the set**. -/
theorem waitTake (h : s.Inv mp start rtSigInfoMax.toNat g free live)
    (hfits : Fits start nodeStride rtSigInfoMax.toNat) {set : BitVec 32}
    (hfinds : s.FindsRightly t set) (hs : s.waitTake mp fuel t set = some (s', out)) :
    (s' = s ∧ out = []) ∨ ∃ l₁ n l₂ g' free' live', g.nodes t = l₁ ++ n :: l₂ ∧
      out = [.received t (siSigno s.pool n)] ∧ g'.nodes t = l₁ ++ l₂ ∧
      (s'.thread t).sigPending = (s.thread t).sigPending &&& ~~~sigMask (siSigno s.pool n) ∧
      s'.Inv mp start rtSigInfoMax.toNat g' free' live' := by
  unfold FindsRightly at hfinds
  rw [h.nodes_eq hfits] at hfinds
  unfold SignalSys.waitTake at hs
  dsimp only at hs
  by_cases hz : (s.thread t).siList = 0
  · -- the loop ends at once
    left
    rw [hz] at hs
    cases fuel with
    | zero => cases hs
    | succ fuel =>
      cases hs
      exact ⟨rfl, rfl⟩
  · right
    have hchain := h.chain_nodes hz
    have hne : g.nodes t ≠ [] := by
      obtain ⟨rest, hrest, -⟩ := hchain.exists_cons
      rw [hrest]
      exact List.cons_ne_nil _ _
    obtain ⟨hset, hhead⟩ := hfinds hne
    cases hsearch : waitSearch s.pool set fuel 0 (s.thread t).siList with
    | none =>
      rw [hsearch] at hs
      cases hs
    | some r =>
      obtain ⟨l₁, n, l₂, hnodes, hin, -, rfl⟩ := waitSearch_eq hchain
        (fun x hx => (h.isNode_of_mem hx).ne_zero hfits) hset hsearch
      rw [hsearch] at hs
      obtain ⟨m, hm, hs⟩ := map_eq_some_iff.1 hs
      cases hs
      have hmem : n ∈ g.nodes t := hnodes ▸ List.mem_append_right _ mem_cons_self
      rcases List.eq_nil_or_concat' l₁ with rfl | ⟨l, prev, rfl⟩
      · -- the first node is the only one, and its pointer is null
        rw [hnodes] at hhead hchain
        obtain rfl : l₂ = [] := hhead n rfl hin
        obtain ⟨-, hnull⟩ := hchain
        have hnull := nextNode_eq_none hnull
        have hnil : Chain (nextNode s.pool) (pointee (s.pool.word (listField n))) ([] ++ []) := by
          rw [hnull]
          rfl
        obtain ⟨g', free', live', hnodes', hinv⟩ := h.receive hfits hnodes h.pool
          (fun _ => rfl) (fun _ _ _ => rfl) hnil hm
        refine ⟨[], n, [], g', free', live', hnodes, rfl, hnodes', ?_, hinv⟩
        rw [thread_setThread_self]
      · have hprev : prev ∈ g.nodes t := by
          rw [hnodes, append_assoc]
          exact List.mem_append_right _ mem_cons_self
        have hget : ((l ++ [prev]).getLast?.getD 0) = prev := by simp
        have hpnode := h.isNode_of_mem hprev
        have hpz := hpnode.ne_zero hfits
        rw [hget] at hm ⊢
        rw [if_pos hpz] at hm
        have hnodes₁ : g.nodes t = l ++ prev :: n :: l₂ := by rw [hnodes, append_assoc]; rfl
        have hunlink : Chain (nextNode (s.pool.setWord (listField prev)
            (s.pool.word (listField n)))) (pointee (s.thread t).siList) (l ++ [prev] ++ l₂) := by
          have hnodup := (h.thread t).nodup
          rw [hnodes₁] at hchain hnodup
          rw [pointee_of_ne hz, append_assoc]
          exact chain_unlink hfits hchain
            (fun x hx => h.isNode_of_mem (t := t) (hnodes₁ ▸ hx)) hnodup
        have hlist : ∀ {u sig' p x}, g.place u sig' = some p → p.node = some x →
            (u = t → p ≠ .list x) → (s.pool.setWord (listField prev)
              (s.pool.word (listField n))).word (listField x) = s.pool.word (listField x) := by
          intro u sig' p x hp hx hnl
          have hpx : prev ≠ x := by
            rintro rfl
            obtain ⟨rfl, rfl⟩ := Prod.mk.inj (h.place_unique (h.place_of_mem hprev) hp rfl hx)
            rw [h.place_of_mem hprev] at hp
            exact hnl rfl (some.inj hp).symm
          exact (sameNode_setWord_listField hfits hpnode (h.isNode hp hx) hpx _).list
        obtain ⟨g', free', live', hnodes', hinv⟩ := h.receive hfits hnodes
          (h.pool.setField hfits hpnode (j := 8) (by decide) _)
          (fun hx => siSigno_setWord_listField hfits hpnode hx _) hlist hunlink hm
        refine ⟨l ++ [prev], n, l₂, g', free', live', hnodes, rfl, hnodes', ?_, ?_⟩
        · rw [thread_setThread_self]
        · rw [if_pos hpz]
          exact hinv

end Inv

/-! ### Every run -/

/-- `rt_signal_wait` has taken the node of a signal, and only this one, out of the list. -/
def Received (s s' : SignalSys Tid ι) (t : Tid) (sig : ℕ) : Prop :=
  ∃ l₁ n l₂, s.nodes t = l₁ ++ n :: l₂ ∧ siSigno s.pool n = sig ∧ s'.nodes t = l₁ ++ l₂ ∧
    (s'.thread t).sigPending = (s.thread t).sigPending &&& ~~~sigMask sig

variable {defaultHandler : UInt32} {a : SignalAction Tid ι}

/-- The invariant, for the pool of `rt_system_signal_init` and some ledger. -/
def Ok (mp start : UInt32) (s : SignalSys Tid ι) : Prop :=
  ∃ g free live, s.Inv mp start rtSigInfoMax.toNat g free live

/-- What a step does. -/
structure Steps (mp start : UInt32) (s s' : SignalSys Tid ι) (out : List (SignalEvent Tid)) :
    Prop where
  ok : s'.Ok mp start
  received : ∀ t sig, .received t sig ∈ out → s.Received s' t sig

theorem not_received_kill {i : ι} : .received u sig' ∉ (s.kill i t sig).2 := by
  unfold kill
  dsimp only
  split
  · exact not_mem_nil
  · split
    · exact not_mem_nil
    · intro hmem
      cases mem_singleton.1 hmem

theorem steps_waitTake {g : Ledger Tid ι} {free live : List UInt32}
    (h : s.Inv mp start rtSigInfoMax.toNat g free live)
    (hfits : Fits start nodeStride rtSigInfoMax.toNat) {set : BitVec 32}
    (hfinds : s.FindsRightly t set) (hs : s.waitTake mp fuel t set = some (s', out)) :
    Steps mp start s s' out := by
  rcases h.waitTake hfits hfinds hs with
    ⟨rfl, rfl⟩ | ⟨l₁, n, l₂, g', free', live', hnodes, rfl, hnodes', hpending, hinv⟩
  · exact ⟨⟨g, free, live, h⟩, nofun⟩
  · refine ⟨⟨g', free', live', hinv⟩, ?_⟩
    intro u sig hmem
    obtain ⟨rfl, rfl⟩ := SignalEvent.received.inj (mem_singleton.1 hmem)
    exact ⟨l₁, n, l₂, (h.nodes_eq hfits u).trans hnodes, rfl, (hinv.nodes_eq hfits u).trans hnodes',
      hpending⟩

theorem steps_step (h : s.Ok mp start) (hfits : Fits start nodeStride rtSigInfoMax.toNat)
    (hc : s.Orderly a) (hs : s.step mp defaultHandler fuel a = some (s', out)) :
    Steps mp start s s' out := by
  obtain ⟨g, free, live, h⟩ := h
  unfold step at hs
  cases a with
  | kill i t sig =>
    dsimp only at hs
    split at hs
    · next hi =>
      have hkill := some.inj hs
      by_cases hsig : sig < rtSigMax
      · obtain ⟨g', hinv⟩ := h.kill hsig hc hi
        rw [hkill] at hinv
        refine ⟨⟨g', _, _, hinv⟩, ?_⟩
        intro u sig' hmem
        have hout : (s.kill i t sig).2 = out := congrArg Prod.snd hkill
        rw [← hout] at hmem
        exact absurd hmem not_received_kill
      · unfold kill at hkill
        dsimp only at hkill
        rw [if_pos hsig] at hkill
        cases hkill
        exact ⟨⟨g, free, live, h⟩, nofun⟩
    · cases hs
  | killSearch i =>
    dsimp only at hs
    split at hs
    · next hi => exact absurd hi h.not_search
    · cases hs
  | killAlloc i =>
    dsimp only at hs
    split at hs
    · next hi =>
      obtain ⟨s₁, hs₁, hs⟩ := map_eq_some_iff.1 hs
      cases hs
      exact ⟨h.killAlloc hfits hi hc hs₁, nofun⟩
    · cases hs
  | killAppend i =>
    dsimp only at hs
    split at hs
    · next hi =>
      obtain ⟨s₁, hs₁, hs⟩ := map_eq_some_iff.1 hs
      cases hs
      obtain ⟨g', hinv⟩ := h.killAppend hfits hi hs₁
      exact ⟨⟨g', _, _, hinv⟩, nofun⟩
    · cases hs
  | handleSig t =>
    dsimp only at hs
    split at hs
    · cases hs
      obtain ⟨g', hinv⟩ := h.nextSignal hfits t
      exact ⟨⟨g', _, _, hinv⟩, nofun⟩
    · cases hs
      exact ⟨⟨g, free, live, h⟩, nofun⟩
  | invoke t =>
    dsimp only at hs
    split at hs
    · next hframes =>
      cases hs
      refine ⟨⟨g, free, live, h.setThread ((h.thread t).invoke hframes)⟩, ?_⟩
      intro u sig hmem
      cases mem_singleton.1 hmem
    · cases hs
  | handlerDone t =>
    dsimp only at hs
    split at hs
    · next hframes =>
      obtain ⟨s₁, hs₁, hs⟩ := map_eq_some_iff.1 hs
      cases hs
      obtain ⟨g₁, free₁, live₁, hinv⟩ := h.handlerEnd hfits hframes hs₁
      obtain ⟨g', hinv'⟩ := hinv.nextSignal hfits t
      refine ⟨⟨g', _, _, hinv'⟩, ?_⟩
      intro u sig hmem
      cases mem_singleton.1 hmem
    · cases hs
  | mask t signo | unmask t signo =>
    dsimp only at hs
    split at hs
    · cases hs
      exact ⟨⟨g, free, live, h.setThread ((h.thread t).congr rfl rfl rfl)⟩, nofun⟩
    · cases hs
  | install t signo handler =>
    dsimp only at hs
    split at hs
    · cases hs
      unfold rtSignalInstall
      dsimp only
      split
      · exact ⟨⟨g, free, live, h⟩, nofun⟩
      · exact ⟨⟨g, free, live, h.setThread ((h.thread t).congr rfl rfl rfl)⟩, nofun⟩
    · cases hs
  | wait t set poll =>
    dsimp only at hs
    split at hs
    · unfold wait at hs
      dsimp only at hs
      split at hs
      · cases hs
        exact ⟨⟨g, free, live, h⟩, nofun⟩
      · split at hs
        · next hpending => exact steps_waitTake h hfits (hc hpending) hs
        · split at hs
          · cases hs
            exact ⟨⟨g, free, live, h⟩, nofun⟩
          · cases hs
            exact ⟨⟨g, free, live, h.setThread ((h.thread t).congr rfl rfl rfl)⟩, nofun⟩
    · cases hs
  | waitEnd t timeout =>
    dsimp only at hs
    split at hs
    · next set hset =>
      -- the list is as before when the thread no longer waits
      have hwoken : ({ s.thread t with waiting := none }).Inv s.pool (g.nodes t) (g.place t) :=
        (h.thread t).congr rfl rfl rfl
      have hnodes : ∀ u, (s.setThread t { s.thread t with waiting := none }).nodes u =
          s.nodes u := by
        intro u
        rw [(h.setThread hwoken).nodes_eq hfits, h.nodes_eq hfits]
      unfold waitEnd at hs
      dsimp only at hs
      split at hs
      · cases hs
        exact ⟨⟨g, free, live, h.setThread hwoken⟩, nofun⟩
      · next htimeout =>
        have hfinds := hc (Bool.not_eq_true _ ▸ htimeout) set hset
        unfold FindsRightly at hfinds
        rw [← hnodes t] at hfinds
        obtain ⟨hok, hreceived⟩ := steps_waitTake (h.setThread hwoken) hfits hfinds hs
        refine ⟨hok, ?_⟩
        intro u sig hmem
        obtain ⟨l₁, n, l₂, hsplit, hsig, hrest, hpending⟩ := hreceived u sig hmem
        refine ⟨l₁, n, l₂, (hnodes u).symm.trans hsplit, hsig, hrest, ?_⟩
        rw [hpending]
        by_cases hu : u = t
        · subst hu
          rw [thread_setThread_self]
        · rw [thread_setThread_of_ne hu]
    · cases hs

theorem fits_pool (hstart : start ≠ 0) (hend : start.toNat + 512 ≤ 2 ^ 32) :
    Fits start nodeStride rtSigInfoMax.toNat :=
  ⟨hstart, by decide, hend⟩

theorem ok_boot {ram : ℕ → UInt8} {pool : Mempool} (hend : start.toNat + 512 ≤ 2 ^ 32)
    (hpool : Mempool.rtMpCreate ram start rtSigInfoMax sizeofSiginfoNode = some pool) :
    start ≠ 0 ∧ (boot pool : SignalSys Tid ι).Ok mp start := by
  unfold Mempool.rtMpCreate at hpool
  dsimp only at hpool
  split at hpool
  · cases hpool
  · next hstart =>
    have hstart : start ≠ 0 := hstart
    cases hpool
    have hinit := inv_initBlocks (m := ⟨ram, start, (rtAlign sizeofSiginfoNode + 4) * rtSigInfoMax,
      rtAlign sizeofSiginfoNode, 0, rtSigInfoMax, rtSigInfoMax, 0⟩) (fits_pool hstart hend)
      (show 0 < rtSigInfoMax.toNat by decide) rfl mp
    refine ⟨hstart, ⟨fun _ _ => none, fun _ => [], fun _ => none⟩, _, [], hinit, ?_, ?_, ?_, ?_, ?_⟩
    · nofun
    · intro t
      refine ⟨fun sig => ?_, rfl, List.nodup_nil, fun n => ?_, fun sig n => ?_, List.nodup_nil⟩
      · exact iff_of_false (by simp [boot]) (fun hne => hne rfl)
      · exact iff_of_false not_mem_nil (by nofun)
      · exact iff_of_false nofun (by rintro ⟨f, hf, -⟩; cases hf)
    · nofun
    · exact fun i hi => absurd rfl hi
    · nofun

/-- A pending signal that nobody works on has its node in the list, and a busy one has none. -/
theorem Inv.busy_iff {g : Ledger Tid ι} {free live : List UInt32}
    (h : s.Inv mp start total g free live) :
    s.Busy t sig ↔ g.place t sig ≠ none ∧ ∀ n, g.place t sig ≠ some (.list n) := by
  unfold Busy
  constructor
  · rintro (⟨i, hi⟩ | ⟨i, n, hi⟩ | ⟨f, hf, hsig⟩)
    · rw [h.place_alloc hi]
      exact ⟨nofun, fun _ => nofun⟩
    · rw [h.place_append hi]
      exact ⟨nofun, fun _ => nofun⟩
    · rw [((h.thread t).frames sig f.node).2 ⟨f, hf, hsig, rfl⟩]
      exact ⟨nofun, fun _ => nofun⟩
  · rintro ⟨hne, hlist⟩
    obtain ⟨p, hp⟩ := ne_none_iff_exists'.1 hne
    cases p with
    | list n => exact absurd hp (hlist n)
    | frame n =>
      obtain ⟨f, hf, hsig, -⟩ := ((h.thread t).frames sig n).1 hp
      exact .inr (.inr ⟨f, hf, hsig⟩)
    | alloc i => exact .inl ⟨i, h.caller hp rfl⟩
    | append i n => exact .inr (.inl ⟨i, n, h.caller hp rfl⟩)

theorem Inv.countP_eq_one {g : Ledger Tid ι} {free live : List UInt32}
    (h : s.Inv mp start total g free live) (hp : g.place t sig = some (.list n)) :
    (g.nodes t).countP (fun n => siSigno s.pool n = sig) = 1 := by
  have hn : n ∈ g.nodes t := ((h.thread t).mem_nodes n).2 ⟨sig, hp⟩
  rw [← List.count_eq_one_of_mem (h.thread t).nodup hn, List.count]
  apply List.countP_congr
  intro x hx
  rw [decide_eq_true_iff, beq_iff_eq]
  constructor
  · rintro rfl
    have hplace := h.place_of_mem hx
    rw [hp] at hplace
    cases hplace
    rfl
  · rintro rfl
    exact (h.held hp rfl).2.2

theorem Inv.countP_eq_zero {g : Ledger Tid ι} {free live : List UInt32}
    (h : s.Inv mp start total g free live) (hp : ∀ n, g.place t sig ≠ some (.list n)) :
    (g.nodes t).countP (fun n => siSigno s.pool n = sig) = 0 := by
  rw [List.countP_eq_zero]
  intro n hn hsig
  have hplace := h.place_of_mem hn
  rw [of_decide_eq_true hsig] at hplace
  exact hp n hplace

/-- In every run in which no pending signal is sent again, no allocation fails and `rt_signal_wait`
finds its node rightly: the list of each thread is well-formed, **a bit is set exactly when the
list has one node** of its signal, unless `rt_thread_kill` or `rt_thread_handle_sig` works on the
signal, and `rt_signal_wait` takes exactly the node out of the list whose signal it returns. -/
theorem run_onePending (mp defaultHandler : UInt32) (fuel : ℕ) {ram : ℕ → UInt8} {start : UInt32}
    {pool : Mempool} (hend : start.toNat + 512 ≤ 2 ^ 32)
    (hpool : Mempool.rtMpCreate ram start rtSigInfoMax sizeofSiginfoNode = some pool)
    {tr : List (SignalEvent Tid)} {s : SignalSys Tid ι}
    (hrun : Run (step mp defaultHandler fuel) Orderly (boot pool) tr s) (t : Tid) :
    Chain (nextNode s.pool) (pointee (s.thread t).siList) (s.nodes t) ∧ (s.nodes t).Nodup ∧
      (∀ sig, ¬ s.Busy t sig → (s.nodes t).countP (fun n => siSigno s.pool n = sig) =
        if (s.thread t).sigPending.getLsbD sig then 1 else 0) ∧
      (∀ sig, s.Busy t sig → (s.thread t).sigPending.getLsbD sig = true ∧
        (s.nodes t).countP (fun n => siSigno s.pool n = sig) = 0) ∧
      ∀ a s' out sig, s.Orderly a → s.step mp defaultHandler fuel a = some (s', out) →
        .received t sig ∈ out → s.Received s' t sig := by
  have hboot : start ≠ 0 ∧ (boot pool : SignalSys Tid ι).Ok mp start := ok_boot hend hpool
  have hfits := fits_pool hboot.1 hend
  have hok : s.Ok mp start := hrun.invariant (fun _ s => s.Ok mp start) hboot.2
    fun h hc hs => (steps_step h hfits hc hs).ok
  obtain ⟨g, free, live, h⟩ := hok
  rw [h.nodes_eq hfits]
  refine ⟨(h.thread t).list, (h.thread t).nodup, ?_, ?_, ?_⟩
  · intro sig hbusy
    by_cases hbit : (s.thread t).sigPending.getLsbD sig = true
    · have hplace : ∃ n, g.place t sig = some (.list n) := by
        by_contra hnot
        exact hbusy (h.busy_iff.2 ⟨((h.thread t).pending sig).1 hbit, not_exists.1 hnot⟩)
      obtain ⟨n, hn⟩ := hplace
      rw [if_pos hbit]
      exact h.countP_eq_one hn
    · rw [if_neg hbit]
      apply h.countP_eq_zero
      intro n hn
      exact hbit (((h.thread t).pending sig).2 (by rw [hn]; nofun))
  · intro sig hbusy
    obtain ⟨hne, hlist⟩ := h.busy_iff.1 hbusy
    exact ⟨((h.thread t).pending sig).2 hne, h.countP_eq_zero hlist⟩
  · exact fun a s' out sig hc hs hmem =>
      (steps_step ⟨g, free, live, h⟩ hfits hc hs).received t sig hmem

/-- The signals 1 and 2 are sent to a thread, which then waits for the second one. -/
theorem run_onePending_wait : ∃ (tr : List (SignalEvent Unit)) (s : SignalSys Unit Unit),
    .received () 2 ∈ tr ∧ (s.nodes ()).length = 1 ∧ (s.thread ()).sigPending = sigMask 1 ∧
      (¬ s.Busy () 1 → (s.nodes ()).countP (fun n => siSigno s.pool n = 1) = 1) := by
  have hsome : somePool.any fun pool => (exec (step 0x100 7 33) Orderly (boot pool)
      (killActions 1 ++ killActions 2 ++ [SignalAction.wait () (sigMask 2) true])).any fun r =>
        .received () 2 ∈ r.2 ∧ (r.1.nodes ()).length = 1 ∧
          (r.1.thread ()).sigPending = sigMask 1 := by
    decide +kernel
  obtain ⟨pool, hpool, hrun⟩ := (any_eq_true _ _).1 hsome
  obtain ⟨⟨s, tr⟩, hexec, hs⟩ := (any_eq_true _ _).1 hrun
  obtain ⟨hmem, hlen, hpending⟩ := of_decide_eq_true hs
  obtain ⟨-, -, hcount, -⟩ := run_onePending 0x100 7 33 (by decide) hpool (Run.of_exec hexec) ()
  refine ⟨tr, s, hmem, hlen, hpending, ?_⟩
  intro hbusy
  rw [hcount 1 hbusy, hpending]
  rfl

/-- A signal that is sent twice has **two nodes**. -/
theorem not_run_onePending :
    ¬ ∀ (mp defaultHandler : UInt32) (fuel : ℕ) (ram : ℕ → UInt8) (start : UInt32) (pool : Mempool)
      (_ : start.toNat + 512 ≤ 2 ^ 32)
      (_ : Mempool.rtMpCreate ram start rtSigInfoMax sizeofSiginfoNode = some pool)
      (tr : List (SignalEvent Unit)) (s : SignalSys Unit Unit),
      Run (step mp defaultHandler fuel) (fun _ _ => True) (boot pool) tr s →
        ∀ t sig, ¬ s.Busy t sig → (s.nodes t).countP (fun n => siSigno s.pool n = sig) =
          if (s.thread t).sigPending.getLsbD sig then 1 else 0 := by
  intro h
  have hsome : somePool.any fun pool => (exec (step 0x100 7 33) (fun _ _ => True) (boot pool)
      (killActions 3 ++ [SignalAction.kill () () 3, .killSearch (), .killSearch (), .killSearch (),
        .killAlloc (), .killAppend ()])).any fun r =>
          (r.1.nodes ()).countP (fun n => siSigno r.1.pool n = 3) = 2 ∧
            r.1.killPc () = .idle ∧ (r.1.thread ()).frames.length = 0 := by
    decide +kernel
  obtain ⟨pool, hpool, hrun⟩ := (any_eq_true _ _).1 hsome
  obtain ⟨⟨s, tr⟩, hexec, hs⟩ := (any_eq_true _ _).1 hrun
  obtain ⟨hcount, hidle, hframes⟩ := of_decide_eq_true hs
  have hone := h 0x100 7 33 _ _ pool (by decide) hpool tr s (Run.of_exec hexec) () 3 ?_
  · rw [hcount] at hone
    split at hone <;> cases hone
  · rintro (⟨i, hi⟩ | ⟨i, n, hi⟩ | ⟨f, hf, -⟩)
    · rw [hidle] at hi
      cases hi
    · rw [hidle] at hi
      cases hi
    · rw [List.eq_nil_of_length_eq_zero hframes] at hf
      cases hf

end SignalSys

end RtThread
