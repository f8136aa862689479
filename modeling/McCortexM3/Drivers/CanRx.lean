import McCortexM3.DList
import McCortexM3.Run
import Mathlib

/-!
# Receiving over CAN

The receive nodes of `can.c` with `RT_CAN_USING_HDR`, by interrupt-disabled sections.  A node is in
the free list or in the use list, or on its way between them in an interrupt or a read.  A node with
a message of a connected header is in the list of this header as well, which is its owner.

A disconnect removes the first node only from the list of its header, and leaves every node its
owner; and a header whose `connected` is tested by two calls of `RT_CAN_CMD_SET_FILTER` is
initialized twice.

## Main definitions

* `CanRx` — the lists.
* `isrTake`, `isrStore`, `readTake`, `readFree`, `connectTest`, `connectInit`, `disconnect` — the
  sections.
* `Kept` — what is to hold of them.
* `Emptied` — a header is initialized and disconnected only while its list is empty.

## Main results

* `CanRx.run_nodesKept` — it holds in such runs.
* `CanRx.not_run_nodesKept` — what happens in other runs.
-/

set_option linter.all false

namespace RtThread

open Function Option List
open Function (update)

/-- The nodes of `list`: the heads `freelist` and `uselist`, and `buffer[i].list`. -/
inductive RxNode
  | free
  | use
  | msg (i : ℕ)
  deriving DecidableEq

/-- The nodes of `hdrlist`: `hdr[h].list`, and `buffer[i].hdrlist`. -/
inductive HdrNode
  | head (h : ℕ)
  | msg (i : ℕ)
  deriving DecidableEq

/-- The lists: the pointers, `owner` of the nodes, `connected` and `msgs` of the headers. -/
structure CanLists where
  list : Links RxNode
  hdrlist : Links HdrNode
  owner : ℕ → Option ℕ
  connected : ℕ → Bool
  msgs : ℕ → ℕ

/-- A `struct rt_can_rx_fifo` with the headers.  `received` are the nodes that an interrupt has
taken, with the header of its message, `read` are those that a read has taken, and `connecting` the
headers that have been found unconnected and are going to be initialized. -/
structure CanRx extends CanLists where
  freenumbers : ℕ
  received : List (ℕ × ℕ)
  read : List ℕ
  connecting : List ℕ

/-- What can happen next: the two sections of an interrupt, with the header of its message, the two
sections of a round of a read, with `data->hdr`, the two of connecting a header, and the one of
disconnecting it. -/
inductive RxAction
  | isrTake (hdr : ℕ)
  | isrStore (i hdr : ℕ)
  | readTake (hdr : ℤ)
  | readFree (i : ℕ)
  | connectTest (hdr : ℤ)
  | connectInit (h : ℕ)
  | disconnect (hdr : ℤ)

namespace CanRx

/-- The node leaves its lists and its owner; `counted` is the header that counts one less. -/
def unlink (s : CanRx) (i : ℕ) (counted : Option ℕ) : CanRx :=
  { s with
    list := s.list.remove (.msg i)
    hdrlist := s.hdrlist.remove (.msg i)
    owner := update s.owner i none
    msgs := match counted with
      | some h => if s.msgs h ≠ 0 then update s.msgs h (s.msgs h - 1) else s.msgs
      | none => s.msgs }

/-- The section of `rt_hw_can_isr` that takes a node; `none` for a failed `RT_ASSERT`. -/
def isrTake (s : CanRx) (hdr : ℕ) : Option CanRx :=
  match s.list.next .free with
  | .msg i =>
    if s.freenumbers > 0 then
      let s := s.unlink i (s.owner i)
      some { s with freenumbers := s.freenumbers - 1, received := (i, hdr) :: s.received }
    else none
  | _ =>
    match s.list.next .use with
    | .msg i =>
      let s := s.unlink i (s.owner i)
      some { s with received := (i, hdr) :: s.received }
    | _ => some s

/-- The section of `rt_hw_can_isr` that stores the message. -/
def isrStore (maxhdr : ℕ) (s : CanRx) (i hdr : ℕ) : Option CanRx :=
  let s := { s with
    list := s.list.insertBefore .use (.msg i), received := s.received.erase (i, hdr) }
  if hdr < maxhdr then
    if s.connected hdr = true then
      some { s with
        hdrlist := s.hdrlist.insertBefore (.head hdr) (.msg i)
        owner := update s.owner i (some hdr)
        msgs := update s.msgs hdr (s.msgs hdr + 1) }
    else some s
  else none

/-- The section of `_can_int_rx` that takes a message.  (The field `hdr` of a message has eight bits
without a sign, so that `data->hdr` is never `-1`.) -/
def readTake (maxhdr : ℕ) (s : CanRx) (hdr : ℤ) : CanRx :=
  if 0 ≤ hdr ∧ hdr < maxhdr ∧ s.hdrlist.next (.head hdr.toNat) ≠ .head hdr.toNat then
    match s.hdrlist.next (.head hdr.toNat) with
    | .msg i =>
      let s := s.unlink i (some hdr.toNat)
      { s with read := i :: s.read }
    | .head _ => s
  else if hdr = -1 then
    match s.list.next .use with
    | .msg i =>
      let s := s.unlink i (s.owner i)
      { s with read := i :: s.read }
    | _ => s
  else s

/-- The section of `_can_int_rx` that frees the node. -/
def readFree (msgboxsz : ℕ) (s : CanRx) (i : ℕ) : Option CanRx :=
  if s.freenumbers + 1 ≤ msgboxsz then
    some { s with
      list := s.list.insertBefore .free (.msg i)
      freenumbers := s.freenumbers + 1
      read := s.read.erase i }
  else none

/-- The test of `connected` for an item of an active filter. -/
def connectTest (maxhdr : ℕ) (s : CanRx) (hdr : ℤ) : CanRx :=
  if 0 ≤ hdr ∧ hdr < maxhdr ∧ s.connected hdr.toNat = false then
    { s with connecting := hdr.toNat :: s.connecting }
  else s

/-- The section that connects the header; `rt_list_init` of its list. -/
def connectInit (s : CanRx) (h : ℕ) : CanRx :=
  { s with
    connected := update s.connected h true
    msgs := update s.msgs h 0
    hdrlist := (s.hdrlist.setPrev (.head h) (.head h)).setNext (.head h) (.head h)
    connecting := s.connecting.erase h }

/-- The section that disconnects the header of an item. -/
def disconnect (maxhdr : ℕ) (s : CanRx) (hdr : ℤ) : CanRx :=
  if 0 ≤ hdr ∧ hdr < maxhdr ∧ s.connected hdr.toNat = true then
    { s with
      connected := update s.connected hdr.toNat false
      msgs := update s.msgs hdr.toNat 0
      hdrlist := if s.hdrlist.next (.head hdr.toNat) ≠ .head hdr.toNat then
          s.hdrlist.remove (s.hdrlist.next (.head hdr.toNat))
        else s.hdrlist }
  else s

/-- One step of an interleaving. -/
def step (msgboxsz maxhdr : ℕ) (s : CanRx) : RxAction → Option (CanRx × List Unit)
  | .isrTake hdr => (s.isrTake hdr).map fun s => (s, [])
  | .isrStore i hdr =>
    if (i, hdr) ∈ s.received then (s.isrStore maxhdr i hdr).map fun s => (s, []) else none
  | .readTake hdr => some (s.readTake maxhdr hdr, [])
  | .readFree i => if i ∈ s.read then (s.readFree msgboxsz i).map fun s => (s, []) else none
  | .connectTest hdr => some (s.connectTest maxhdr hdr, [])
  | .connectInit h => if h ∈ s.connecting then some (s.connectInit h, []) else none
  | .disconnect hdr => some (s.disconnect maxhdr hdr, [])

/-- `rt_can_open` puts the nodes into the free list, one after the other. -/
def openList (msgboxsz : ℕ) : Links RxNode :=
  (List.range msgboxsz).foldl (fun l i => l.insertBefore .free (.msg i)) Links.init

/-- The device after `rt_can_open`. -/
def boot (msgboxsz : ℕ) : CanRx where
  list := openList msgboxsz
  hdrlist := Links.init
  owner := fun _ => none
  freenumbers := msgboxsz
  connected := fun _ => false
  msgs := fun _ => 0
  received := []
  read := []
  connecting := []

/-- A header is connected and disconnected only while its list is empty. -/
def Emptied (s : CanRx) : RxAction → Prop
  | .connectInit h => s.hdrlist.next (.head h) = .head h
  | .disconnect hdr =>
    0 ≤ hdr → s.connected hdr.toNat = true → s.hdrlist.next (.head hdr.toNat) = .head hdr.toNat
  | _ => True

instance (s : CanRx) (a : RxAction) : Decidable (s.Emptied a) := by
  cases a <;> dsimp only [Emptied] <;> infer_instance

/-- Every node is in exactly one of the free list, the use list and the nodes on their way, the
number of free nodes is counted, and the list of a header has the stored messages that it owns,
whose number is counted. -/
def Kept (msgboxsz : ℕ) (s : CanRx) : Prop :=
  ∃ (F U : List ℕ) (L : ℕ → List ℕ),
    Circular s.list .free (F.map .msg) ∧ Circular s.list .use (U.map .msg) ∧
    (F ++ U ++ (s.received.map Prod.fst ++ s.read)).Perm (List.range msgboxsz) ∧
    s.freenumbers = F.length ∧
    ∀ h, Circular s.hdrlist (.head h) ((L h).map .msg) ∧
      (∀ i, i ∈ L h ↔ i ∈ U ∧ s.owner i = some h) ∧ s.msgs h = (L h).length

/-! ### The lists -/

/-- The heads `freelist` and `uselist`. -/
def rxHead (use : Bool) : RxNode := if use = true then .use else .free

theorem heads_rx : Heads rxHead RxNode.msg := by
  refine ⟨?_, fun i j h => RxNode.msg.inj h, ?_⟩
  · intro b b' h
    cases b <;> cases b' <;> simp [rxHead] at h ⊢
  · intro b i
    cases b <;> simp [rxHead]

theorem heads_hdr : Heads HdrNode.head HdrNode.msg :=
  ⟨fun _ _ h => HdrNode.head.inj h, fun _ _ h => HdrNode.msg.inj h, by simp⟩

/-- The nodes of the free list (`Q false`), of the use list (`Q true`), of the headers and in flight,
of which there are `n`. -/
structure Lists (n : ℕ) (flight : List ℕ) (c : CanLists) (Q : Bool → List ℕ) (L : ℕ → List ℕ) :
    Prop where
  list : Rings c.list rxHead .msg Q
  hdrs : Rings c.hdrlist .head .msg L
  nodes : (Q false ++ Q true ++ flight).Perm (List.range n)
  owner : ∀ i h, c.owner i = some h ↔ i ∈ L h
  stored : ∀ h i, i ∈ L h → i ∈ Q true
  alone : ∀ i, c.owner i = none → c.hdrlist.Alone (.msg i)
  msgs : ∀ h, c.msgs h = (L h).length
  connected : ∀ h, c.connected h = false → L h = []

variable {n i hdr msgboxsz maxhdr : ℕ} {flight flight' : List ℕ} {c c' : CanLists} {s s' : CanRx}
  {Q : Bool → List ℕ} {L : ℕ → List ℕ} {b : Bool}

namespace Lists

section

variable (h : Lists n flight c Q L)
include h

theorem nodup : (Q false ++ Q true ++ flight).Nodup :=
  h.nodes.nodup_iff.2 nodup_range

theorem notMem (hi : i ∈ flight) (b : Bool) : i ∉ Q b := by
  have hdisj := (nodup_append.1 h.nodup).2.2
  intro hib
  refine hdisj i (mem_append.2 ?_) i hi rfl
  cases b
  · exact .inl hib
  · exact .inr hib

theorem owner_eq_none (hi : i ∉ Q true) : c.owner i = none := by
  cases howner : c.owner i with
  | none => rfl
  | some k => exact absurd (h.stored k i ((h.owner i k).1 howner)) hi

theorem perm (hp : flight.Perm flight') : Lists n flight' c Q L :=
  ⟨h.list, h.hdrs, ((hp.append_left _).symm.trans h.nodes), h.owner, h.stored, h.alone, h.msgs,
    h.connected⟩

end

theorem perm_erase (hi : i ∈ Q b) : (update Q b ((Q b).erase i) false ++
    update Q b ((Q b).erase i) true ++ i :: flight).Perm (Q false ++ Q true ++ flight) := by
  have hp := (perm_cons_erase hi).symm
  refine perm_middle.trans ?_
  cases b with
  | false =>
    rw [update_self, update_of_ne (by decide)]
    exact (hp.append_right _).append_right flight
  | true =>
    rw [update_self, update_of_ne (by decide)]
    exact (perm_middle.symm.trans (hp.append_left (Q false))).append_right flight

theorem perm_append (i : ℕ) : (update Q b (Q b ++ [i]) false ++
    update Q b (Q b ++ [i]) true ++ flight).Perm (Q false ++ Q true ++ i :: flight) := by
  refine List.Perm.trans ?_ perm_middle.symm
  have hp := perm_append_singleton i (Q b)
  cases b with
  | false =>
    rw [update_self, update_of_ne (by decide)]
    exact (hp.append_right _).append_right flight
  | true =>
    rw [update_self, update_of_ne (by decide)]
    exact ((hp.append_left (Q false)).trans perm_middle).append_right flight

theorem erase_eq (h : Lists n flight c Q L) {k : ℕ} (hi : i ∈ L k) :
    (fun k => (L k).erase i) = update L k ((L k).erase i) := by
  funext k'
  rw [update_apply]
  split
  · next hk => rw [hk]
  · next hk => exact erase_of_not_mem fun hi' => hk (h.hdrs.apart k' k i hi' hi)

theorem hdrs_unlink (h : Lists n flight c Q L) (i : ℕ) :
    Rings (c.hdrlist.remove (.msg i)) HdrNode.head .msg (fun k => (L k).erase i) := by
  cases howner : c.owner i with
  | none =>
    have hnot : ∀ k, i ∉ L k := by
      intro k hk
      rw [(h.owner i k).2 hk] at howner
      cases howner
    have hL : (fun k => (L k).erase i) = L := funext fun k => erase_of_not_mem (hnot k)
    rw [hL, (h.alone i howner).remove_eq]
    exact h.hdrs
  | some k =>
    have hik : i ∈ L k := (h.owner i k).1 howner
    rw [h.erase_eq hik]
    exact h.hdrs.remove heads_hdr hik

theorem alone_unlink (h : Lists n flight c Q L) {j : ℕ}
    (hj : update c.owner i none j = none) :
    (c.hdrlist.remove (.msg i)).Alone (.msg j) := by
  by_cases hji : j = i
  · rw [hji]
    exact Links.alone_remove _ _
  · rw [update_of_ne hji] at hj
    have halone := h.alone j hj
    cases howner : c.owner i with
    | none =>
      rw [(h.alone i howner).remove_eq]
      exact halone
    | some k =>
      refine h.hdrs.alone_remove heads_hdr ((h.owner i k).1 howner) (fun hjk => ?_) halone
      rw [(h.owner j k).2 hjk] at hj
      cases hj

/-- A node leaves its list, its header and its owner, whose messages are counted. -/
theorem unlink (h : Lists n flight s.toCanLists Q L) (hi : i ∈ Q b) :
    Lists n (i :: flight) (s.unlink i (s.owner i)).toCanLists
      (update Q b ((Q b).erase i)) (fun k => (L k).erase i) := by
  refine ⟨h.list.remove heads_rx hi, h.hdrs_unlink i, (perm_erase hi).trans h.nodes,
    fun j k => ?_, fun k j hj => ?_, fun j hj => h.alone_unlink hj, fun k => ?_, fun k hk => ?_⟩
  · rw [(h.hdrs.nodup k).mem_erase_iff, ← h.owner j k]
    simp only [CanRx.unlink, update_apply]
    split
    · next hji => simp [hji]
    · next hji => simp [hji]
  · obtain ⟨hji, hjk⟩ := (h.hdrs.nodup k).mem_erase_iff.1 hj
    have hj := h.stored k j hjk
    cases b with
    | false => rwa [update_of_ne (by decide)]
    | true => rwa [update_self, (h.list.nodup true).mem_erase_iff, and_iff_right hji]
  · cases howner : s.owner i with
    | none =>
      have hik : i ∉ L k := by
        intro hik
        rw [(h.owner i k).2 hik] at howner
        cases howner
      rw [erase_of_not_mem hik]
      exact h.msgs k
    | some k' =>
      -- the owner has the node, so that its count is not zero
      have hik : i ∈ L k' := (h.owner i k').1 howner
      have hmsgs := h.msgs k'
      have hpos := length_pos_of_mem hik
      simp only [CanRx.unlink]
      rw [if_pos (by omega), update_apply]
      split
      · next hk => rw [hk, length_erase_of_mem hik, hmsgs]
      · next hk =>
        rw [erase_of_not_mem fun hi' => hk (h.hdrs.apart k k' i hi' hik)]
        exact h.msgs k
  · rw [h.connected k hk]
    rfl

theorem put (h : Lists n (i :: flight) c Q L) (b : Bool) :
    Lists n flight { c with list := c.list.insertBefore (rxHead b) (.msg i) }
      (update Q b (Q b ++ [i])) L := by
  refine ⟨h.list.insertBefore heads_rx fun b => h.notMem mem_cons_self b, h.hdrs,
    (perm_append i).trans h.nodes, h.owner, fun k j hj => ?_, h.alone, h.msgs, h.connected⟩
  have hj := h.stored k j hj
  cases b with
  | false => rwa [update_of_ne (by decide)]
  | true =>
    rw [update_self]
    exact mem_append_left _ hj

theorem link (h : Lists n flight c Q L) (hi : i ∈ Q true) (howner : c.owner i = none)
    (hconn : c.connected hdr = true) :
    Lists n flight { c with
      hdrlist := c.hdrlist.insertBefore (.head hdr) (.msg i)
      owner := update c.owner i (some hdr)
      msgs := update c.msgs hdr (c.msgs hdr + 1) }
      Q (update L hdr (L hdr ++ [i])) := by
  have hnot : ∀ k, i ∉ L k := by
    intro k hk
    rw [(h.owner i k).2 hk] at howner
    cases howner
  refine ⟨h.list, h.hdrs.insertBefore heads_hdr hnot, h.nodes, fun j k => ?_, fun k j hj => ?_,
    fun j hj => ?_, fun k => ?_, fun k hk => ?_⟩
  · simp only [update_apply]
    by_cases hji : j = i
    · subst hji
      by_cases hk : k = hdr
      · simp [hk]
      · simp [hk, hnot k, Ne.symm hk]
    · rw [if_neg hji, h.owner j k]
      by_cases hk : k = hdr
      · simp [hk, hji]
      · simp [hk]
  · rw [update_apply] at hj
    split at hj
    · rcases mem_append.1 hj with hj | hj
      · exact h.stored _ j hj
      · rwa [mem_singleton.1 hj]
    · exact h.stored k j hj
  · simp only [update_apply] at hj
    split at hj
    · cases hj
    · next hji =>
      refine h.hdrs.alone_insertBefore heads_hdr (hnot hdr) (fun hjk => ?_) hji (h.alone j hj)
      rw [(h.owner j hdr).2 hjk] at hj
      cases hj
  · simp only [update_apply]
    split
    · rw [length_append, h.msgs hdr]
      rfl
    · exact h.msgs k
  · have hne : k ≠ hdr := by
      rintro rfl
      rw [hconn] at hk
      cases hk
    rw [update_of_ne hne]
    exact h.connected k hk

/-- A header with an empty list may be initialized: its pointers and its count stay as they are. -/
theorem init (h : Lists n flight c Q L) (hempty : c.hdrlist.next (.head hdr) = .head hdr) :
    (c.hdrlist.setPrev (.head hdr) (.head hdr)).setNext (.head hdr) (.head hdr) = c.hdrlist ∧
      update c.msgs hdr 0 = c.msgs ∧ L hdr = [] := by
  have hL : L hdr = [] := (h.hdrs.next_head_iff heads_hdr).1 hempty
  have hprev : c.hdrlist.prev (.head hdr) = .head hdr := by
    rw [(h.hdrs.ring hdr).path.prev_eq, hL]
    rfl
  refine ⟨?_, ?_, hL⟩
  · rw [Links.setPrev, update_eq_self_iff.2 hprev.symm, Links.setNext,
      update_eq_self_iff.2 hempty.symm]
  · refine update_eq_self_iff.2 ?_
    rw [h.msgs hdr, hL]
    rfl

theorem setConnected (h : Lists n flight c Q L) (hL : L hdr = []) (b : Bool) :
    Lists n flight { c with connected := update c.connected hdr b } Q L := by
  refine ⟨h.list, h.hdrs, h.nodes, h.owner, h.stored, h.alone, h.msgs, fun k hk => ?_⟩
  simp only [update_apply] at hk
  split at hk
  · next hkh => rw [hkh, hL]
  · exact h.connected k hk

end Lists

/-! ### The sections -/

/-- What holds between the sections. -/
def Inv (n : ℕ) (s : CanRx) : Prop :=
  ∃ Q L, Lists n (s.received.map Prod.fst ++ s.read) s.toCanLists Q L ∧
    s.freenumbers = (Q false).length

namespace Inv

theorem isrTake (h : Inv n s) (hs : s.isrTake hdr = some s') : Inv n s' := by
  obtain ⟨Q, L, h, hfree⟩ := h
  rw [CanRx.isrTake] at hs
  cases hF : Q false with
  | cons i F =>
    -- a free node
    have hnext : s.list.next .free = .msg i := h.list.next_head hF
    have hi : i ∈ Q false := hF ▸ mem_cons_self
    rw [hnext] at hs
    dsimp only at hs
    rw [hF, length_cons] at hfree
    rw [if_pos (by omega)] at hs
    cases hs
    refine ⟨_, _, h.unlink hi, ?_⟩
    rw [update_self, hF, erase_cons_head]
    simp only [CanRx.unlink, hfree, Nat.add_sub_cancel]
  | nil =>
    have hnext : s.list.next .free = .free := (h.list.next_head_iff heads_rx (k := false)).2 hF
    rw [hnext] at hs
    cases hU : Q true with
    | cons i U =>
      -- the oldest message is dropped
      have hnext : s.list.next .use = .msg i := h.list.next_head hU
      have hi : i ∈ Q true := hU ▸ mem_cons_self
      rw [hnext] at hs
      cases hs
      refine ⟨_, _, h.unlink hi, ?_⟩
      rw [update_of_ne (by decide)]
      exact hfree
    | nil =>
      have hnext : s.list.next .use = .use := (h.list.next_head_iff heads_rx (k := true)).2 hU
      rw [hnext] at hs
      cases hs
      exact ⟨Q, L, h, hfree⟩

theorem isrStore (h : Inv n s) (hi : (i, hdr) ∈ s.received)
    (hs : s.isrStore maxhdr i hdr = some s') : Inv n s' := by
  obtain ⟨Q, L, h, hfree⟩ := h
  have hflight : (s.received.map Prod.fst ++ s.read).Perm
      (i :: ((s.received.erase (i, hdr)).map Prod.fst ++ s.read)) :=
    (((perm_cons_erase hi).map Prod.fst).append_right s.read)
  have howner := h.owner_eq_none (h.notMem (hflight.mem_iff.2 mem_cons_self) true)
  have hput := (h.perm hflight).put true
  rw [CanRx.isrStore] at hs
  dsimp only at hs
  split at hs
  · split at hs
    · next hconn =>
      cases hs
      refine ⟨_, _, hput.link ?_ howner hconn, ?_⟩
      · rw [update_self]
        exact mem_append_right _ mem_cons_self
      · rw [update_of_ne (by decide)]
        exact hfree
    · cases hs
      refine ⟨_, _, hput, ?_⟩
      rw [update_of_ne (by decide)]
      exact hfree
  · cases hs

theorem readUnlink (h : Lists n (s.received.map Prod.fst ++ s.read) s.toCanLists Q L)
    (hfree : s.freenumbers = (Q false).length) (hi : i ∈ Q true) :
    Inv n { s.unlink i (s.owner i) with read := i :: s.read } := by
  refine ⟨_, _, (h.unlink hi).perm perm_middle.symm, ?_⟩
  rw [update_of_ne (by decide)]
  exact hfree

theorem readTake (h : Inv n s) (hdr : ℤ) : Inv n (s.readTake maxhdr hdr) := by
  obtain ⟨Q, L, hl, hfree⟩ := h
  have h : Inv n s := ⟨Q, L, hl, hfree⟩
  rw [CanRx.readTake]
  split
  · next hhdr =>
    cases hL : L hdr.toNat with
    | cons i l =>
      have hi : i ∈ L hdr.toNat := hL ▸ mem_cons_self
      rw [hl.hdrs.next_head hL, ← (hl.owner i _).2 hi]
      exact readUnlink hl hfree (hl.stored _ i hi)
    | nil => exact absurd ((hl.hdrs.next_head_iff heads_hdr).2 hL) hhdr.2.2
  · split
    · cases hU : Q true with
      | cons i U =>
        have hnext : s.list.next .use = .msg i := hl.list.next_head hU
        rw [hnext]
        exact readUnlink hl hfree (hU ▸ mem_cons_self)
      | nil =>
        have hnext : s.list.next .use = .use := (hl.list.next_head_iff heads_rx (k := true)).2 hU
        rw [hnext]
        exact h
    · exact h

theorem readFree (h : Inv n s) (hi : i ∈ s.read) (hs : s.readFree msgboxsz i = some s') :
    Inv n s' := by
  obtain ⟨Q, L, h, hfree⟩ := h
  have hflight : (s.received.map Prod.fst ++ s.read).Perm
      (i :: (s.received.map Prod.fst ++ s.read.erase i)) :=
    ((perm_cons_erase hi).append_left _).trans perm_middle
  rw [CanRx.readFree] at hs
  split at hs
  · cases hs
    refine ⟨_, _, (h.perm hflight).put false, ?_⟩
    rw [update_self, length_append, ← hfree]
    rfl
  · cases hs

theorem connectInit (h : Inv n s) (hempty : s.hdrlist.next (.head hdr) = .head hdr) :
    Inv n (s.connectInit hdr) := by
  obtain ⟨Q, L, h, hfree⟩ := h
  obtain ⟨hlinks, hmsgs, hL⟩ := h.init hempty
  rw [CanRx.connectInit, hlinks, hmsgs]
  exact ⟨Q, L, h.setConnected hL true, hfree⟩

theorem disconnect (h : Inv n s) {hdr : ℤ} (hempty : 0 ≤ hdr → s.connected hdr.toNat = true →
      s.hdrlist.next (.head hdr.toNat) = .head hdr.toNat) :
    Inv n (s.disconnect maxhdr hdr) := by
  rw [CanRx.disconnect]
  split
  · next hhdr =>
    have hempty := hempty hhdr.1 hhdr.2.2
    obtain ⟨Q, L, h, hfree⟩ := h
    obtain ⟨-, hmsgs, hL⟩ := h.init hempty
    rw [hmsgs, if_neg (by simp [hempty])]
    exact ⟨Q, L, h.setConnected hL false, hfree⟩
  · exact h

theorem step (h : Inv n s) {a : RxAction} {out : List Unit} (he : Emptied s a)
    (hs : CanRx.step msgboxsz maxhdr s a = some (s', out)) : Inv n s' := by
  cases a with
  | isrTake hdr =>
    obtain ⟨s₁, hs₁, heq⟩ := map_eq_some_iff.1 hs
    cases heq
    exact h.isrTake hs₁
  | isrStore i hdr =>
    rw [CanRx.step] at hs
    split at hs
    · next hi =>
      obtain ⟨s₁, hs₁, heq⟩ := map_eq_some_iff.1 hs
      cases heq
      exact h.isrStore hi hs₁
    · cases hs
  | readTake hdr =>
    cases hs
    exact h.readTake hdr
  | readFree i =>
    rw [CanRx.step] at hs
    split at hs
    · next hi =>
      obtain ⟨s₁, hs₁, heq⟩ := map_eq_some_iff.1 hs
      cases heq
      exact h.readFree hi hs₁
    · cases hs
  | connectTest hdr =>
    cases hs
    obtain ⟨Q, L, h, hfree⟩ := h
    rw [CanRx.connectTest]
    split
    · exact ⟨Q, L, h, hfree⟩
    · exact ⟨Q, L, h, hfree⟩
  | connectInit k =>
    rw [CanRx.step] at hs
    split at hs
    · cases hs
      exact h.connectInit he
    · cases hs
  | disconnect hdr =>
    cases hs
    exact h.disconnect he

end Inv

/-! ### Runs -/

theorem rings_openList (n : ℕ) :
    Rings (openList n) rxHead .msg fun b => if b = true then [] else List.range n := by
  induction n with
  | zero =>
    refine ⟨fun b => ⟨?_, ?_⟩, fun b b' i hi => ?_⟩
    · cases b <;> exact ⟨rfl, rfl⟩
    · cases b <;> simp
    · cases b <;> simp at hi
  | succ n ih =>
    have hinsert := ih.insertBefore heads_rx (k := false) (i := n) fun b => by split <;> simp
    have hL : (fun b => if b = true then [] else List.range (n + 1)) = update
        (fun b => if b = true then [] else List.range n) false (List.range n ++ [n]) := by
      funext b
      cases b <;> simp [range_succ]
    rw [hL, openList, range_succ, foldl_append]
    exact hinsert

theorem inv_boot (n : ℕ) : Inv n (boot n) := by
  have hhdrs : Rings (boot n).hdrlist HdrNode.head .msg fun _ => [] :=
    ⟨fun k => ⟨⟨rfl, rfl⟩, by simp⟩, by simp⟩
  refine ⟨_, _, ⟨rings_openList n, hhdrs, ?_, by simp [boot], by simp, fun i _ => ⟨rfl, rfl⟩,
    by simp [boot], by simp⟩, ?_⟩
  · simp [boot]
  · simp [boot]

theorem Inv.kept (h : Inv n s) : Kept n s := by
  obtain ⟨Q, L, h, hfree⟩ := h
  refine ⟨Q false, Q true, L, h.list.ring false, h.list.ring true, h.nodes, hfree,
    fun k => ⟨h.hdrs.ring k, fun i => ?_, h.msgs k⟩⟩
  rw [h.owner i k]
  exact ⟨fun hi => ⟨h.stored k i hi, hi⟩, fun hi => hi.2⟩

/-- **The lists and the counters agree** in every run in which a header is connected and
disconnected only while its list is empty. -/
theorem run_nodesKept {tr : List Unit} (h : Run (step msgboxsz maxhdr) Emptied (boot msgboxsz) tr s) :
    Kept msgboxsz s :=
  (h.invariant (fun _ s => Inv msgboxsz s) (inv_boot msgboxsz)
    fun hinv he hs => hinv.step he hs).kept

/-- A message is received for a header, read, and the header disconnected. -/
theorem run_nodesKept_readHdr : ∃ s, Kept 2 s ∧ s.connected 0 = false ∧ s.freenumbers = 1 := by
  have hsome : (exec (step 2 1) Emptied (boot 2)
      [.connectTest 0, .connectInit 0, .isrTake 0, .isrStore 0 0, .isrTake 0, .isrStore 1 0,
        .readTake 0, .readTake 0, .readFree 0, .disconnect 0]).any fun r =>
        decide (r.1.connected 0 = false ∧ r.1.freenumbers = 1) := by
    decide
  obtain ⟨s, tr, hrun, hs⟩ := Run.of_any hsome
  exact ⟨s, run_nodesKept hrun, hs⟩

/-- A header is disconnected **with a message**, which keeps its owner. -/
theorem not_run_nodesKept : ¬ ∀ (msgboxsz maxhdr : ℕ) (tr : List Unit) (s : CanRx),
    Run (step msgboxsz maxhdr) (fun _ _ => True) (boot msgboxsz) tr s → Kept msgboxsz s := by
  intro h
  have hsome : (exec (step 2 1) (fun _ _ => True) (boot 2)
      [.connectTest 0, .connectInit 0, .isrTake 0, .isrStore 0 0, .isrTake 0, .isrStore 1 0,
        .disconnect 0]).any fun r =>
        decide (r.1.msgs 0 = 0 ∧ r.1.hdrlist.next (.head 0) ≠ .head 0) := by
    decide
  obtain ⟨s, tr, hrun, hmsgs, hnext⟩ := Run.of_any hsome
  obtain ⟨F, U, L, -, -, -, -, hhdr⟩ := h 2 1 tr s hrun
  obtain ⟨hring, -, hlen⟩ := hhdr 0
  have hL : L 0 = [] := length_eq_zero_iff.1 (hlen.symm.trans hmsgs)
  rw [hL] at hring
  exact hnext hring.path.1

end CanRx

end RtThread
