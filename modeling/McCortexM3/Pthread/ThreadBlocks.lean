import McCortexM3.Pthread.Threads

/-!
# The blocks of a thread

Every block of a thread is freed once, when the thread has ended and has been joined or detached,
as long as none of the paths is taken that lose a block or free it twice: the semaphore of a new
thread is missing, a thread ends detached or by `pthread_exit`, or a thread is detached between its
end and its cleanup hook.

## Main definitions

* `Pthread.held` — the blocks that a thread still has.
* `PthSys.Careful` — none of these paths is taken.
* `PthSys.BlocksFreed` — the blocks are freed as they should be.

## Main results

* `PthSys.run_blocksFreed` — so they are in every such run.
* `PthSys.not_blocksFreed` — a stack of the caller is freed.
-/

set_option linter.all false

namespace RtThread

open Function List
open Function (update)
open List (count_append)
open Option (bind_eq_some_iff elim_some isSome_iff_exists ite_none_right_eq_some map_eq_some_iff
  mem_def not_mem_none)

variable {Tid : Type} [DecidableEq Tid]

/-- The blocks that a thread still has. -/
def Pthread.held (p : Pthread) : PthBlock → ℕ
  | .data | .control => if p.freed = true then 0 else 1
  | .stack => if p.freed = true ∨ p.userStack = true then 0 else 1
  | .sem => if p.freed = true ∨ p.joinableSem.isSome = false then 0 else 1
  | .userStack => 0

/-- The thread that a call is about. -/
def PthPc.target : PthPc Tid → Option Tid
  | .outside | .exiting => none
  | .joining t | .taking t | .detaching _ t | .testing _ t | .marking _ t | .closing _ t => some t

namespace PthSys

variable {s s' : PthSys Tid} {t u c : Tid} {p p' : Pthread} {a : PthAction Tid}
  {tr out : List (PthEvent Tid)} {b : PthBlock} {pc' : PthPc Tid} {debug : Bool}

/-! ### Statement -/

/-- The semaphore of a new thread is there when its other blocks are. -/
def HasSem (a : PthAttr) (m : PthMemory) : Prop :=
  a.detached = true ∨ m.sem = true ∨ m.data = false ∨ (a.userStack = false ∧ m.stack = false) ∨
    m.control = false

/-- A thread in `pthread_detach` finds the thread as its test of `stat` did, and not in the defunct
list. -/
def CarefulAt (s : PthSys Tid) : PthPc Tid → Prop
  | .marking _ t => s.Runs t
  | .closing _ t => t ∉ s.defunct
  | _ => True

/-- None of the paths is taken that lose a block or free it twice. -/
def Careful (s : PthSys Tid) : PthAction Tid → Prop
  | .create _ a m => HasSem a m
  | .go c => s.CarefulAt (s.pc c)
  | .idle => ∀ t ∈ s.defunct.head?, ∀ p ∈ s.pth t, p.object = true ∧ p.detached = false
  | _ => True

/-- The thread has been detached, or joined. -/
def Released (tr : List (PthEvent Tid)) (t : Tid) : Prop :=
  .created t true ∈ tr ∨ ∃ c join, .returned c t join .ok ∈ tr

/-- The blocks of a thread are freed as they should be: none twice, and no stack of the caller; none
that a thread still needs, and none before it is released; all of them when a thread that is released
has ended and has been cleaned up; and all that a failing creation has allocated. -/
structure BlocksFreed (tr : List (PthEvent Tid)) (s : PthSys Tid) : Prop where
  once : ∀ t b, tr.count (.free t b) ≤ tr.count (.alloc t b) ∧ tr.count (.alloc t b) ≤ 1
  userStack : ∀ t, .free t .userStack ∉ tr
  inUse : ∀ t, ∀ p ∈ s.pth t, p.closed = false → ∀ b ≠ .sem, .free t b ∉ tr
  unreleased : ∀ t, (s.pth t).isSome = true → ¬ Released tr t → ∀ b, .free t b ∉ tr
  ended : ∀ t, ∀ p ∈ s.pth t, p.closed = true → t ∉ s.defunct → s.idlePc = .outside →
    Released tr t → ∀ b, tr.count (.free t b) = tr.count (.alloc t b)
  failed : ∀ t, .failed t ∈ tr → ∀ b, tr.count (.free t b) = tr.count (.alloc t b)

/-! ### The invariant -/

/-- What is left of the blocks of the thread. -/
def held (s : PthSys Tid) (t : Tid) (b : PthBlock) : ℕ := (s.pth t).elim 0 fun p => p.held b

/-- The life of a thread: it runs, it is in the defunct list, or it has been cleaned up. -/
structure Life (s : PthSys Tid) (t : Tid) (p : Pthread) : Prop where
  running : p.closed = false → p.freed = false ∧ p.cleanup = true ∧ p.object = true ∧ t ∉ s.defunct
  waiting : t ∈ s.defunct → p.freed = false
  cleaned : p.closed = true → t ∉ s.defunct → p.cleanup = false ∧ p.detached = false

/-- The blocks of a thread, as its data say. -/
structure BlocksOk (tr : List (PthEvent Tid)) (claim : Claim Tid) (t : Tid) (p : Pthread) :
    Prop where
  sem : p.freed = false → (p.joinableSem.isSome = true ↔ p.detached = false)
  done : claim = .done ↔ p.detached = true ∨ p.freed = true
  released : claim = .done ↔ Released tr t
  stackAddr : p.freed = false → p.stackAddr = if p.userStack = true then .user else .allocated
  noStack : p.userStack = true → tr.count (.alloc t .stack) = 0

/-- A thread in a call is the one that releases the thread that the call is about. -/
def CallOk (s : PthSys Tid) (c : Tid) (pc : PthPc Tid) : Prop :=
  ∀ t ∈ pc.target, s.claim t = .by c ∧ ∃ p ∈ s.pth t, p.detached = false ∧ p.freed = false ∧
    ∀ join, pc = .closing join t → p.closed = true

/-- The events count the blocks, and the threads are as their data say. -/
structure Inv (tr : List (PthEvent Tid)) (s : PthSys Tid) : Prop where
  counts : ∀ t b, tr.count (.free t b) + s.held t b = tr.count (.alloc t b)
  allocs : ∀ t b, tr.count (.alloc t b) ≤ 1
  noUser : ∀ t, tr.count (.alloc t .userStack) = 0
  fresh : ∀ t, s.known t = false →
    s.pth t = none ∧ (∀ b, tr.count (.alloc t b) = 0) ∧ ¬ Released tr t
  failed : ∀ t, .failed t ∈ tr → s.known t = true ∧ s.pth t = none
  life : ∀ t, ∀ p ∈ s.pth t, Life s t p
  blocks : ∀ t, ∀ p ∈ s.pth t, BlocksOk tr (s.claim t) t p
  calls : ∀ c, CallOk s c (s.pc c)
  defunct : ∀ t ∈ s.defunct, (s.pth t).isSome = true
  idle : s.idlePc = .outside

theorem BlocksFreed.of_inv (hs : Inv tr s) : BlocksFreed tr s := by
  have hzero : ∀ t, ∀ p ∈ s.pth t, ∀ b, p.freed = false → (b = .sem → p.detached = false) →
      .free t b ∉ tr := by
    intro t p hp b hfreed hsem
    have hcount := hs.counts t b
    have hle := hs.allocs t b
    have hblocks := hs.blocks t p hp
    have huser := hs.noUser t
    rw [held, mem_def.1 hp, elim_some] at hcount
    rw [← count_eq_zero]
    cases b with
    | data | control =>
      simp only [Pthread.held, hfreed, Bool.false_eq_true, if_false] at hcount
      omega
    | stack =>
      cases hstack : p.userStack with
      | true =>
        have hnone := hblocks.noStack hstack
        omega
      | false =>
        simp only [Pthread.held, hfreed, hstack, Bool.false_eq_true, or_self, if_false] at hcount
        omega
    | sem =>
      have hsome := (hblocks.sem hfreed).2 (hsem rfl)
      simp only [Pthread.held, hfreed, hsome, Bool.false_eq_true, Bool.true_eq_false, or_self,
        if_false] at hcount
      omega
    | userStack => omega
  refine ⟨fun t b => ⟨?_, hs.allocs t b⟩, fun t => ?_, fun t p hp hopen b hb => ?_,
    fun t hsome hnot b => ?_, fun t p hp hclosed hdefunct hidle hreleased b => ?_,
    fun t hfailed b => ?_⟩
  · have hcount := hs.counts t b
    omega
  · have hcount := hs.counts t .userStack
    have huser := hs.noUser t
    rw [← count_eq_zero]
    omega
  · exact hzero t p hp b ((hs.life t p hp).running hopen).1 fun h => absurd h hb
  · obtain ⟨p, hp⟩ := isSome_iff_exists.1 hsome
    have hblocks := hs.blocks t p hp
    have hnone := fun h => hnot (hblocks.released.1 (hblocks.done.2 h))
    rw [imp_false, not_or] at hnone
    exact hzero t p hp b (by simpa using hnone.2) fun _ => by simpa using hnone.1
  · have hblocks := hs.blocks t p hp
    have hdetached := ((hs.life t p hp).cleaned hclosed hdefunct).2
    have hfreed : p.freed = true := by
      simpa [hdetached] using hblocks.done.1 (hblocks.released.2 hreleased)
    have hcount := hs.counts t b
    rw [held, mem_def.1 hp, elim_some] at hcount
    have hheld : p.held b = 0 := by cases b <;> simp [Pthread.held, hfreed]
    omega
  · have hcount := hs.counts t b
    rw [held, (hs.failed t hfailed).2, Option.elim_none] at hcount
    exact hcount

/-! ### Steps that free nothing -/

/-- The data of a thread change in what says nothing about its blocks. -/
structure Same (p p' : Pthread) : Prop where
  detached : p'.detached = p.detached
  freed : p'.freed = p.freed
  userStack : p'.userStack = p.userStack
  stackAddr : p'.stackAddr = p.stackAddr
  sem : p'.joinableSem.isSome = p.joinableSem.isSome
  closed : p.closed = true → p'.closed = true

theorem Same.refl (p : Pthread) : Same p p := ⟨rfl, rfl, rfl, rfl, rfl, id⟩

theorem Same.held (h : Same p p') (b : PthBlock) : p'.held b = p.held b := by
  cases b <;> simp only [Pthread.held, h.freed, h.userStack, h.sem]

theorem Same.blocksOk {claim : Claim Tid} (h : Same p p') (hb : BlocksOk tr claim t p) :
    BlocksOk tr claim t p' := by
  refine ⟨fun hfreed => ?_, ?_, hb.released, fun hfreed => ?_, fun hstack => hb.noStack ?_⟩
  · rw [h.sem, h.detached]
    exact hb.sem (h.freed ▸ hfreed)
  · rw [h.detached, h.freed]
    exact hb.done
  · rw [h.stackAddr, h.userStack]
    exact hb.stackAddr (h.freed ▸ hfreed)
  · rw [← h.userStack, hstack]

theorem Life.congr (h : Life s t p) (hmem : t ∈ s'.defunct ↔ t ∈ s.defunct) : Life s' t p := by
  refine ⟨fun hopen => ?_, fun hwait => h.waiting (hmem.1 hwait), fun hclosed hnot => ?_⟩
  · rw [hmem]
    exact h.running hopen
  · exact h.cleaned hclosed (mt hmem.2 hnot)

theorem Inv.touch (hs : Inv tr s) (hp : s.pth t = some p) (hsame : Same p p')
    (hpth : s'.pth = update s.pth t (some p')) (hknown : s'.known = s.known)
    (hidle : s'.idlePc = .outside) (hclaim : s'.claim = s.claim)
    (hdefunct : ∀ u ≠ t, u ∈ s'.defunct ↔ u ∈ s.defunct) (hlife : Life s' t p')
    (hpc : ∀ c, s'.pc c = s.pc c ∨ ∀ u ∈ (s'.pc c).target, u ∈ (s.pc c).target ∧
      ∀ join, s'.pc c = .closing join u → u = t ∧ p'.closed = true) : Inv tr s' := by
  have hother : ∀ u ≠ t, s'.pth u = s.pth u := fun u hut => by
    rw [hpth, update_of_ne hut]
  have hself : s'.pth t = some p' := by rw [hpth, update_self]
  refine ⟨fun u b => ?_, hs.allocs, hs.noUser, fun u hu => ?_, fun u hu => ?_, fun u q hq => ?_,
    fun u q hq => ?_, fun c => ?_, fun u hu => ?_, hidle⟩
  · have hcount := hs.counts u b
    have hheld : s'.held u b = s.held u b := by
      by_cases hut : u = t
      · subst hut
        rw [held, held, hself, hp]
        exact hsame.held b
      · rw [held, held, hother u hut]
    rw [hheld, hcount]
  · rw [hknown] at hu
    obtain ⟨hnone, hrest⟩ := hs.fresh u hu
    have hut : u ≠ t := by
      rintro rfl
      rw [hp] at hnone
      cases hnone
    rw [hother u hut]
    exact ⟨hnone, hrest⟩
  · obtain ⟨hu, hnone⟩ := hs.failed u hu
    have hut : u ≠ t := by
      rintro rfl
      rw [hp] at hnone
      cases hnone
    rw [hknown, hother u hut]
    exact ⟨hu, hnone⟩
  · by_cases hut : u = t
    · subst hut
      obtain rfl := Option.some.inj (hself.symm.trans hq)
      exact hlife
    · rw [hother u hut] at hq
      exact (hs.life u q hq).congr (hdefunct u hut)
  · rw [hclaim]
    by_cases hut : u = t
    · subst hut
      obtain rfl := Option.some.inj (hself.symm.trans hq)
      exact hsame.blocksOk (hs.blocks u p hp)
    · rw [hother u hut] at hq
      exact hs.blocks u q hq
  · -- the thread that a call is about is as before, or `t`
    have hcall : ∀ u ∈ (s.pc c).target, s.claim u = .by c ∧ ∃ q ∈ s'.pth u,
        q.detached = false ∧ q.freed = false ∧
          ((∃ join, s.pc c = .closing join u) → q.closed = true) := by
      intro u hu
      obtain ⟨hby, q, hq, hdetached, hfreed, hclosed⟩ := hs.calls c u hu
      refine ⟨hby, ?_⟩
      by_cases hut : u = t
      · subst hut
        obtain rfl := Option.some.inj (hp.symm.trans hq)
        refine ⟨p', hself, hsame.detached.trans hdetached, hsame.freed.trans hfreed, ?_⟩
        rintro ⟨join, hpc⟩
        exact hsame.closed (hclosed join hpc)
      · refine ⟨q, by rw [hother u hut]; exact hq, hdetached, hfreed, ?_⟩
        rintro ⟨join, hpc⟩
        exact hclosed join hpc
    intro u hu
    rw [hclaim]
    rcases hpc c with heq | hmoved
    · rw [heq] at hu ⊢
      obtain ⟨hby, q, hq, hdetached, hfreed, hclosed⟩ := hcall u hu
      exact ⟨hby, q, hq, hdetached, hfreed, fun join hpc => hclosed ⟨join, hpc⟩⟩
    · obtain ⟨hu', hclosing⟩ := hmoved u hu
      obtain ⟨hby, q, hq, hdetached, hfreed, -⟩ := hcall u hu'
      refine ⟨hby, q, hq, hdetached, hfreed, fun join hpc => ?_⟩
      obtain ⟨rfl, hclosed⟩ := hclosing join hpc
      obtain rfl := Option.some.inj (hself.symm.trans hq)
      exact hclosed
  · by_cases hut : u = t
    · subst hut
      rw [hself]
      rfl
    · rw [hother u hut]
      exact hs.defunct u ((hdefunct u hut).1 hu)

/-- The events of a call that releases nothing. -/
def Silent (out : List (PthEvent Tid)) : Prop :=
  ∀ e ∈ out, ∃ c t join result, e = .returned c t join result ∧ result ≠ .ok

theorem Silent.count_free (h : Silent out) (t : Tid) (b : PthBlock) : out.count (.free t b) = 0 := by
  rw [count_eq_zero]
  intro hmem
  obtain ⟨c, t, join, result, heq, -⟩ := h _ hmem
  cases heq

theorem Silent.count_alloc (h : Silent out) (t : Tid) (b : PthBlock) :
    out.count (.alloc t b) = 0 := by
  rw [count_eq_zero]
  intro hmem
  obtain ⟨c, t, join, result, heq, -⟩ := h _ hmem
  cases heq

theorem released_append : Released (tr ++ out) t ↔ Released tr t ∨ Released out t := by
  simp only [Released, mem_append]
  constructor
  · rintro ((h | h) | ⟨c, join, h | h⟩)
    · exact .inl (.inl h)
    · exact .inr (.inl h)
    · exact .inl (.inr ⟨c, join, h⟩)
    · exact .inr (.inr ⟨c, join, h⟩)
  · rintro ((h | ⟨c, join, h⟩) | (h | ⟨c, join, h⟩))
    · exact .inl (.inl h)
    · exact .inr ⟨c, join, .inl h⟩
    · exact .inl (.inr h)
    · exact .inr ⟨c, join, .inr h⟩

theorem Silent.not_released (h : Silent out) (t : Tid) : ¬ Released out t := by
  rintro (hmem | ⟨c, join, hmem⟩)
  · obtain ⟨c, t, join, result, heq, -⟩ := h _ hmem
    cases heq
  · obtain ⟨c, t, join, result, heq, hne⟩ := h _ hmem
    cases heq
    exact hne rfl

theorem Inv.quiet (hs : Inv tr s) (hsilent : Silent out) (hpth : s'.pth = s.pth)
    (hknown : s'.known = s.known) (hidle : s'.idlePc = s.idlePc) (hdefunct : s'.defunct = s.defunct)
    (hclaim : ∀ u, s'.claim u = .done ↔ s.claim u = .done)
    (hcalls : ∀ c, CallOk s' c (s'.pc c)) : Inv (tr ++ out) s' := by
  have hreleased : ∀ u, Released (tr ++ out) u ↔ Released tr u := fun u => by
    rw [released_append]
    exact or_iff_left (hsilent.not_released u)
  refine ⟨fun u b => ?_, fun u b => ?_, fun u => ?_, fun u hu => ?_, fun u hu => ?_, fun u q hq => ?_,
    fun u q hq => ?_, hcalls, fun u hu => ?_, hidle.trans hs.idle⟩
  · rw [count_append, count_append, hsilent.count_free, hsilent.count_alloc, held, hpth]
    exact hs.counts u b
  · rw [count_append, hsilent.count_alloc]
    exact hs.allocs u b
  · rw [count_append, hsilent.count_alloc]
    exact hs.noUser u
  · rw [hknown] at hu
    rw [hpth]
    obtain ⟨hnone, hcount, hnot⟩ := hs.fresh u hu
    refine ⟨hnone, fun b => ?_, fun h => hnot ((hreleased u).1 h)⟩
    rw [count_append, hcount, hsilent.count_alloc]
  · rw [hpth, hknown]
    rcases mem_append.1 hu with hu | hu
    · exact hs.failed u hu
    · obtain ⟨c, t, join, result, heq, -⟩ := hsilent _ hu
      cases heq
  · rw [hpth] at hq
    exact (hs.life u q hq).congr (by rw [hdefunct])
  · rw [hpth] at hq
    obtain ⟨hsem, hdone, hrel, hstack, hno⟩ := hs.blocks u q hq
    refine ⟨hsem, (hclaim u).trans hdone, ((hclaim u).trans hrel).trans (hreleased u).symm, hstack,
      fun huser => ?_⟩
    rw [count_append, hsilent.count_alloc]
    exact hno huser
  · rw [hpth]
    exact hs.defunct u (hdefunct ▸ hu)

/-! ### Steps that free -/

theorem Inv.release {frees : List (PthEvent Tid)} {join : Bool} (hs : Inv tr s)
    (hp : s.pth t = some p) (hby : s.claim t = .by c)
    (hpth : s'.pth = update s.pth t (some p')) (hknown : s'.known = s.known)
    (hidle : s'.idlePc = s.idlePc) (hclaim : s'.claim = update s.claim t .done)
    (hdefunct : ∀ u, u ∈ s'.defunct ↔ u ∈ s.defunct)
    (hpc : s'.pc = update s.pc c .outside) (hlife : Life s' t p')
    (honly : ∀ e ∈ frees, ∃ b, e = .free t b)
    (hcount : ∀ b, frees.count (.free t b) + p'.held b = p.held b)
    (hdone : p'.detached = true ∨ p'.freed = true) (huser : p'.userStack = p.userStack)
    (hsem : p'.freed = false → (p'.joinableSem.isSome = true ↔ p'.detached = false))
    (hstack : p'.freed = false → p'.stackAddr = if p'.userStack = true then .user else .allocated) :
    Inv (tr ++ (frees ++ [PthEvent.returned c t join .ok])) s' := by
  have hother : ∀ u ≠ t, s'.pth u = s.pth u := fun u hut => by
    rw [hpth, update_of_ne hut]
  have hself : s'.pth t = some p' := by rw [hpth, update_self]
  -- what the events say about the other threads, and about the allocations
  have hfree : ∀ u b, (frees ++ [PthEvent.returned c t join .ok]).count (.free u b) =
      frees.count (.free u b) := fun u b => by simp
  have hfree_ne : ∀ u ≠ t, ∀ b, frees.count (.free u b) = 0 := by
    intro u hut b
    rw [count_eq_zero]
    intro hmem
    obtain ⟨b', heq⟩ := honly _ hmem
    cases heq
    exact hut rfl
  have halloc : ∀ u b, (frees ++ [PthEvent.returned c t join .ok]).count (.alloc u b) = 0 := by
    intro u b
    rw [count_eq_zero]
    intro hmem
    rcases mem_append.1 hmem with hmem | hmem
    · obtain ⟨b', heq⟩ := honly _ hmem
      cases heq
    · simp at hmem
  have hreleased : ∀ u, Released (frees ++ [PthEvent.returned c t join .ok]) u ↔ u = t := by
    intro u
    have hnot : ¬ Released frees u := by
      rintro (hmem | ⟨c, join, hmem⟩)
      · obtain ⟨b, heq⟩ := honly _ hmem
        cases heq
      · obtain ⟨b, heq⟩ := honly _ hmem
        cases heq
    rw [released_append, or_iff_right hnot]
    constructor
    · rintro (hmem | ⟨c, join, hmem⟩)
      · simp at hmem
      · cases mem_singleton.1 hmem
        rfl
    · rintro rfl
      exact .inr ⟨c, join, mem_singleton.2 rfl⟩
  have hcountAlloc : ∀ u b, (tr ++ (frees ++ [PthEvent.returned c t join .ok])).count (.alloc u b) =
      tr.count (.alloc u b) := fun u b => by rw [count_append, halloc, Nat.add_zero]
  have hknown' : ∀ u, s.pth u = none → u ≠ t := by
    rintro u hnone rfl
    rw [hp] at hnone
    cases hnone
  refine ⟨fun u b => ?_, fun u b => ?_, fun u => ?_, fun u hu => ?_, fun u hu => ?_, fun u q hq => ?_,
    fun u q hq => ?_, fun d => ?_, fun u hu => ?_, hidle.trans hs.idle⟩
  · have hbefore := hs.counts u b
    rw [count_append, hcountAlloc, hfree]
    by_cases hut : u = t
    · subst hut
      have hnow := hcount b
      rw [held, hp, elim_some] at hbefore
      rw [held, hself, elim_some]
      omega
    · rw [hfree_ne u hut, held, hother u hut, Nat.add_zero]
      exact hbefore
  · rw [hcountAlloc]
    exact hs.allocs u b
  · rw [hcountAlloc]
    exact hs.noUser u
  · rw [hknown] at hu
    obtain ⟨hnone, hcounts, hnot⟩ := hs.fresh u hu
    have hut := hknown' u hnone
    rw [hother u hut, released_append, hreleased]
    exact ⟨hnone, fun b => (hcountAlloc u b).trans (hcounts b), fun h => h.elim hnot hut⟩
  · have hmem : .failed u ∈ tr := by
      rcases mem_append.1 hu with hu | hu
      · exact hu
      · rcases mem_append.1 hu with hu | hu
        · obtain ⟨b, heq⟩ := honly _ hu
          cases heq
        · simp at hu
    obtain ⟨hu, hnone⟩ := hs.failed u hmem
    rw [hknown, hother u (hknown' u hnone)]
    exact ⟨hu, hnone⟩
  · by_cases hut : u = t
    · subst hut
      obtain rfl := Option.some.inj (hself.symm.trans hq)
      exact hlife
    · rw [hother u hut] at hq
      exact (hs.life u q hq).congr (hdefunct u)
  · by_cases hut : u = t
    · subst hut
      obtain rfl := Option.some.inj (hself.symm.trans hq)
      rw [hclaim, update_self]
      refine ⟨hsem, iff_of_true rfl hdone, iff_of_true rfl ?_, hstack, fun hstack => ?_⟩
      · exact released_append.2 (.inr ((hreleased u).2 rfl))
      · rw [hcountAlloc]
        exact (hs.blocks u p hp).noStack (huser ▸ hstack)
    · rw [hother u hut] at hq
      obtain ⟨hsem, hdone, hrel, hstack, hno⟩ := hs.blocks u q hq
      rw [hclaim, update_of_ne hut]
      refine ⟨hsem, hdone, ?_, hstack, fun huser => (hcountAlloc u _).trans (hno huser)⟩
      rw [hrel, released_append, hreleased]
      exact (or_iff_left hut).symm
  · intro u hu
    have hdc : d ≠ c := by
      rintro rfl
      rw [hpc, update_self] at hu
      cases hu
    rw [hpc, update_of_ne hdc] at hu ⊢
    obtain ⟨hbyd, q, hq, hrest⟩ := hs.calls d u hu
    have hut : u ≠ t := by
      rintro rfl
      rw [hby] at hbyd
      exact hdc (Claim.by.inj hbyd).symm
    rw [hclaim, update_of_ne hut, hother u hut]
    exact ⟨hbyd, q, hq, hrest⟩
  · have hsome := hs.defunct u ((hdefunct u).1 hu)
    by_cases hut : u = t
    · subst hut
      rw [hself]
      rfl
    · rwa [hother u hut]

/-! ### Creation -/

/-- What `pthread_create` does: it gives a new thread, or all of its blocks back. -/
structure Creates (t : Tid) (a : PthAttr) (r : Option Pthread × List (PthEvent Tid)) : Prop where
  about : ∀ e ∈ r.2, (∃ b, e = .alloc t b ∨ e = .free t b) ∨ e = .created t a.detached ∨
    e = .failed t
  counts : ∀ b, r.2.count (.free t b) + r.1.elim 0 (fun p => p.held b) = r.2.count (.alloc t b)
  allocs : ∀ b, r.2.count (.alloc t b) ≤ 1
  noUser : r.2.count (.alloc t .userStack) = 0
  failed : .failed t ∈ r.2 → r.1 = none
  running : ∀ p ∈ r.1, p.closed = false ∧ p.freed = false ∧ p.cleanup = true ∧ p.object = true
  blocks : ∀ p ∈ r.1, BlocksOk r.2 (if a.detached = true then .done else .free) t p

theorem creates_none {t : Tid} {a : PthAttr} {evs : List (PthEvent Tid)}
    (habout : ∀ e ∈ evs, (∃ b, e = .alloc t b ∨ e = .free t b) ∨ e = .created t a.detached ∨
      e = .failed t) (hcounts : ∀ b, evs.count (.free t b) = evs.count (.alloc t b))
    (hallocs : ∀ b, evs.count (.alloc t b) ≤ 1) (hno : evs.count (.alloc t .userStack) = 0) :
    Creates t a (none, evs) :=
  ⟨habout, hcounts, hallocs, hno, fun _ => rfl, fun _ hp => absurd hp (not_mem_none _),
    fun _ hp => absurd hp (not_mem_none _)⟩

theorem creates (t : Tid) {a : PthAttr} {m : PthMemory} (h : HasSem a m) :
    Creates t a (pthreadCreate t a m) := by
  obtain ⟨detached, userStack⟩ := a
  by_cases hdata : m.data = false
  · rw [pthreadCreate, if_pos hdata]
    exact creates_none (by simp) (fun b => by simp) (fun b => by simp) (by simp)
  by_cases hstack : userStack = false ∧ m.stack = false
  · rw [pthreadCreate, if_neg hdata, if_pos hstack]
    refine creates_none (by simp) (fun b => ?_) (fun b => ?_) (by simp)
    · cases b <;> simp
    · cases b <;> simp
  by_cases hcontrol : m.control = false
  · simp only [pthreadCreate, hdata, hstack, hcontrol, if_false, if_true]
    refine creates_none ?_ (fun b => ?_) (fun b => ?_) ?_
    · cases userStack <;> simp
    · cases userStack <;> cases b <;>
        simp only [cons_append, nil_append, count_cons, count_nil, beq_iff_eq, PthEvent.alloc.injEq,
          PthEvent.free.injEq, reduceCtorEq, and_false, and_self, if_true, if_false,
          Bool.false_eq_true]
    · cases userStack <;> cases b <;>
        simp only [cons_append, nil_append, count_cons, count_nil, beq_iff_eq, PthEvent.alloc.injEq,
          PthEvent.free.injEq, reduceCtorEq, and_false, and_self, if_true, if_false,
          Bool.false_eq_true, Nat.le_refl, Nat.zero_le, Nat.zero_add, Nat.add_zero]
    · cases userStack <;> simp
  · -- the semaphore is there
    have hsem : ¬ (detached = false ∧ m.sem = false) := by
      rintro ⟨rfl, hsem⟩
      rcases h with h | h | h | h | h
      · cases h
      · simp [hsem] at h
      · exact hdata h
      · exact hstack h
      · exact hcontrol h
    simp only [pthreadCreate, hdata, hstack, hcontrol, hsem, if_false]
    refine ⟨?_, fun b => ?_, fun b => ?_, ?_, ?_, ?_, ?_⟩
    · cases userStack <;> cases detached <;> simp
    · cases userStack <;> cases detached <;> cases b <;>
        simp only [cons_append, nil_append, count_cons, count_nil, beq_iff_eq, PthEvent.alloc.injEq,
          PthEvent.free.injEq, reduceCtorEq, and_false, and_self, if_true, if_false,
          Bool.false_eq_true, Pthread.held, elim_some] <;>
        simp
    · cases userStack <;> cases detached <;> cases b <;>
        simp only [cons_append, nil_append, count_cons, count_nil, beq_iff_eq, PthEvent.alloc.injEq,
          PthEvent.free.injEq, reduceCtorEq, and_false, and_self, if_true, if_false,
          Bool.false_eq_true, Nat.le_refl, Nat.zero_le, Nat.zero_add, Nat.add_zero]
    · cases userStack <;> cases detached <;> simp
    · cases userStack <;> cases detached <;> simp
    · rintro p ⟨⟩
      simp
    · rintro p ⟨⟩
      refine ⟨fun _ => ?_, ?_, ?_, fun _ => rfl, ?_⟩
      · cases detached <;> simp
      · cases detached <;> simp
      · cases userStack <;> cases detached <;> simp [Released]
      · rintro ⟨⟩
        cases detached <;> simp

theorem Inv.create {a : PthAttr} {r : Option Pthread × List (PthEvent Tid)} (hs : Inv tr s)
    (hr : Creates t a r) (ht : s.known t = false)
    (hknown : s'.known = update s.known t true)
    (hpth : s'.pth = update s.pth t r.1)
    (hclaim : s'.claim = update s.claim t (if a.detached = true then .done else .free))
    (hlist : s'.defunct = s.defunct) (hpc : s'.pc = s.pc) (hidle : s'.idlePc = s.idlePc) :
    Inv (tr ++ r.2) s' := by
  obtain ⟨hnone, hcounts, hnot⟩ := hs.fresh t ht
  have hdefunct : t ∉ s.defunct := fun hmem => by
    have hsome := hs.defunct t hmem
    rw [hnone] at hsome
    cases hsome
  have hfree : ∀ b, tr.count (.free t b) = 0 := fun b => by
    have hcount := hs.counts t b
    rw [hcounts] at hcount
    omega
  -- the events are all about `t`
  have hother : ∀ u ≠ t, ∀ b, r.2.count (.alloc u b) = 0 ∧ r.2.count (.free u b) = 0 := by
    intro u hut b
    rw [count_eq_zero, count_eq_zero]
    constructor
    · intro hmem
      rcases hr.about _ hmem with ⟨b', heq | heq⟩ | heq | heq
      · exact hut (PthEvent.alloc.inj heq).1
      · cases heq
      · cases heq
      · cases heq
    · intro hmem
      rcases hr.about _ hmem with ⟨b', heq | heq⟩ | heq | heq
      · cases heq
      · exact hut (PthEvent.free.inj heq).1
      · cases heq
      · cases heq
  have hreleased : ∀ u ≠ t, Released (tr ++ r.2) u ↔ Released tr u := by
    intro u hut
    rw [released_append, or_iff_left]
    rintro (hmem | ⟨c, join, hmem⟩)
    · rcases hr.about _ hmem with ⟨b', heq | heq⟩ | heq | heq
      · cases heq
      · cases heq
      · exact hut (PthEvent.created.inj heq).1
      · cases heq
    · rcases hr.about _ hmem with ⟨b', heq | heq⟩ | heq | heq <;> cases heq
  refine ⟨fun u b => ?_, fun u b => ?_, fun u => ?_, fun u hu => ?_, fun u hu => ?_, fun u q hq => ?_,
    fun u q hq => ?_, fun c u hu => ?_, fun u hu => ?_, hidle.trans hs.idle⟩
  · rw [count_append, count_append]
    by_cases hut : u = t
    · subst hut
      rw [hfree, hcounts, held, hpth, update_self, Nat.zero_add, Nat.zero_add]
      exact hr.counts b
    · rw [(hother u hut b).1, (hother u hut b).2, held, hpth, update_of_ne hut]
      exact hs.counts u b
  · rw [count_append]
    by_cases hut : u = t
    · subst hut
      rw [hcounts, Nat.zero_add]
      exact hr.allocs b
    · rw [(hother u hut b).1]
      exact hs.allocs u b
  · rw [count_append]
    by_cases hut : u = t
    · subst hut
      rw [hcounts, Nat.zero_add]
      exact hr.noUser
    · rw [(hother u hut _).1]
      exact hs.noUser u
  · have hut : u ≠ t := by
      rintro rfl
      simp [hknown] at hu
    rw [hknown, update_of_ne hut] at hu
    obtain ⟨hnone, hcounts, hnot⟩ := hs.fresh u hu
    rw [hreleased u hut, hpth, update_of_ne hut]
    refine ⟨hnone, fun b => ?_, hnot⟩
    rw [count_append, hcounts, (hother u hut b).1]
  · by_cases hut : u = t
    · subst hut
      rw [hknown, hpth, update_self, update_self]
      refine ⟨rfl, hr.failed ?_⟩
      rcases mem_append.1 hu with hu | hu
      · exact absurd (hs.failed u hu).1 (by simp [ht])
      · exact hu
    · rw [hknown, hpth, update_of_ne hut, update_of_ne hut]
      refine hs.failed u ?_
      rcases mem_append.1 hu with hu | hu
      · exact hu
      · rcases hr.about _ hu with ⟨b', heq | heq⟩ | heq | heq
        · cases heq
        · cases heq
        · cases heq
        · exact absurd (PthEvent.failed.inj heq) hut
  · rw [hpth] at hq
    by_cases hut : u = t
    · subst hut
      rw [update_self] at hq
      rw [← hlist] at hdefunct
      obtain ⟨hopen, hfreed, hcleanup, hobject⟩ := hr.running q hq
      exact ⟨fun _ => ⟨hfreed, hcleanup, hobject, hdefunct⟩, fun _ => hfreed, by simp [hopen]⟩
    · rw [update_of_ne hut] at hq
      exact (hs.life u q hq).congr (by rw [hlist])
  · rw [hpth] at hq
    rw [hclaim]
    by_cases hut : u = t
    · subst hut
      rw [update_self] at hq ⊢
      obtain ⟨hsem, hdone, hrel, hstack, hno⟩ := hr.blocks q hq
      refine ⟨hsem, hdone, ?_, hstack, fun huser => ?_⟩
      · rw [hrel, released_append, or_iff_right hnot]
      · rw [count_append, hcounts, hno huser]
    · rw [update_of_ne hut] at hq ⊢
      obtain ⟨hsem, hdone, hrel, hstack, hno⟩ := hs.blocks u q hq
      refine ⟨hsem, hdone, hrel.trans (hreleased u hut).symm, hstack, fun huser => ?_⟩
      rw [count_append, hno huser, (hother u hut _).1]
  · rw [hpc] at hu ⊢
    obtain ⟨hby, q, hq, hrest⟩ := hs.calls c u hu
    have hut : u ≠ t := by
      rintro rfl
      rw [hnone] at hq
      cases hq
    rw [hclaim, hpth, update_of_ne hut, update_of_ne hut]
    exact ⟨hby, q, hq, hrest⟩
  · rw [hlist] at hu
    have hut : u ≠ t := by
      rintro rfl
      exact hdefunct hu
    rw [hpth, update_of_ne hut]
    exact hs.defunct u hu

/-! ### Steps -/

section

variable (hs : Inv tr s)
include hs

theorem Inv.ends (hp : s.pth t = some p) (hopen : p.closed = false)
    (hsame : Same p p') (hclosed : p'.closed = true)
    (hpth : s'.pth = update s.pth t (some p')) (hknown : s'.known = s.known)
    (hidle : s'.idlePc = s.idlePc) (hclaim : s'.claim = s.claim) (ht : t ∈ s'.defunct)
    (hdefunct : ∀ u ≠ t, u ∈ s'.defunct ↔ u ∈ s.defunct)
    (hpc : ∀ c, s'.pc c = s.pc c ∨ (s'.pc c).target = none) : Inv tr s' := by
  refine hs.touch hp hsame hpth hknown (hidle.trans hs.idle) hclaim hdefunct ⟨?_, ?_, ?_⟩ fun c => ?_
  · simp [hclosed]
  · intro _
    rw [hsame.freed]
    exact ((hs.life t p hp).running hopen).1
  · exact fun _ hnot => absurd ht hnot
  · refine (hpc c).imp id fun hnone u hu => ?_
    rw [hnone] at hu
    cases hu

theorem Inv.goOn (hp : s.pth t = some p) (hsame : Same p p')
    (hlife : Life s t p') (ht : t ∈ (s.pc c).target) (hpc' : ∀ u ∈ pc'.target, u = t)
    (hclosing : ∀ join, pc' = .closing join t → p'.closed = true) :
    Inv tr ((s.setPth t p').goto c pc') := by
  refine hs.touch hp hsame rfl rfl hs.idle rfl (fun _ _ => Iff.rfl) (hlife.congr Iff.rfl) fun d => ?_
  by_cases hdc : d = c
  · subst hdc
    refine .inr fun u hu => ?_
    simp only [goto, update_self] at hu ⊢
    obtain rfl := hpc' u hu
    exact ⟨ht, fun join h => ⟨rfl, hclosing join h⟩⟩
  · exact .inl (update_of_ne hdc ..)

theorem Inv.goOn' (hp : s.pth t = some p) (ht : t ∈ (s.pc c).target)
    (hpc' : ∀ u ∈ pc'.target, u = t) (hclosing : ∀ join, pc' = .closing join t → p.closed = true) :
    Inv tr (s.goto c pc') := by
  have hset : s.setPth t p = s := by rw [setPth, ← hp, update_eq_self]
  have hgo := hs.goOn hp (.refl p) (hs.life t p hp) ht hpc' hclosing
  rwa [hset] at hgo

theorem Inv.claim (hp : s.pth t = some p) (hfree : s.claim t = .free)
    (hpc : s.pc c = .outside) (hpc' : ∀ u ∈ pc'.target, u = t)
    (hclosing : ∀ join u, pc' ≠ .closing join u) :
    Inv tr { s.goto c pc' with claim := update s.claim t (.by c) } := by
  have hdone := (hs.blocks t p hp).done
  rw [hfree] at hdone
  have hnot : ¬ (p.detached = true ∨ p.freed = true) := fun h => nomatch hdone.2 h
  rw [not_or] at hnot
  rw [← append_nil tr]
  refine hs.quiet (by simp [Silent]) rfl rfl rfl rfl (fun u => ?_) fun d u hu => ?_
  · by_cases hut : u = t
    · subst hut
      simp [hfree]
    · simp only [update_of_ne hut]
  · by_cases hdc : d = c
    · subst hdc
      simp only [goto, update_self] at hu ⊢
      obtain rfl := hpc' u hu
      refine ⟨update_self .., p, hp, by simpa using hnot.1, by simpa using hnot.2, ?_⟩
      exact fun join h => absurd h (hclosing join u)
    · simp only [goto, update_of_ne hdc] at hu ⊢
      obtain ⟨hby, hrest⟩ := hs.calls d u hu
      have hut : u ≠ t := by
        rintro rfl
        rw [hfree] at hby
        cases hby
      rw [update_of_ne hut]
      exact ⟨hby, hrest⟩

theorem Inv.interrupt (hpc : s.pc c = .taking t) :
    Inv (tr ++ [PthEvent.returned c t true .esrch]) (s.return' c t true .esrch).1 := by
  have hcall := (hs.calls c t (by rw [hpc]; rfl)).1
  refine hs.quiet ?_ rfl rfl rfl rfl (fun u => ?_) fun d u hu => ?_
  · intro e he
    exact ⟨c, t, true, .esrch, mem_singleton.1 he, nofun⟩
  · by_cases hut : u = t
    · subst hut
      simp [return', hcall]
    · simp only [return', update_of_ne hut]
  · by_cases hdc : d = c
    · subst hdc
      simp [return', goto, PthPc.target] at hu
    · simp only [return', goto, update_of_ne hdc] at hu ⊢
      obtain ⟨hby, hrest⟩ := hs.calls d u hu
      have hut : u ≠ t := by
        rintro rfl
        rw [hcall] at hby
        exact hdc (Claim.by.inj hby).symm
      rw [update_of_ne hut]
      exact ⟨hby, hrest⟩

theorem Inv.mark {join : Bool} (hpc : s.pc c = .marking join t)
    (hp : s.pth t = some p) (hopen : p.closed = false) :
    Inv (tr ++ (p.semDelete t ++ [PthEvent.returned c t join .ok]))
      ((s.setPth t { p with detached := true, joinableSem := none }).return' c t join .ok).1 := by
  obtain ⟨hby, -⟩ := hs.calls c t (by rw [hpc]; rfl)
  obtain ⟨hfreed, hcleanup, hobject, hnot⟩ := (hs.life t p hp).running hopen
  refine hs.release hp hby rfl rfl rfl rfl (fun _ => Iff.rfl) rfl ?_ ?_ ?_ (.inl rfl) rfl ?_ ?_
  · exact ⟨fun _ => ⟨hfreed, hcleanup, hobject, hnot⟩, fun _ => hfreed, by simp [hopen]⟩
  · intro e he
    unfold Pthread.semDelete at he
    split at he
    · exact ⟨.sem, mem_singleton.1 he⟩
    · cases he
  · intro b
    unfold Pthread.semDelete
    cases b <;> cases hsem : p.joinableSem.isSome <;> simp [Pthread.held, hsem, hfreed]
  · simp
  · exact (hs.blocks t p hp).stackAddr

theorem Inv.close {join : Bool} {r : PthSys Tid × List (PthEvent Tid)}
    (hpc : s.pc c = .closing join t) (hp : s.pth t = some p) (hnot : t ∉ s.defunct)
    (hr : s.close debug t p = some r) :
    Inv (tr ++ (r.2 ++ [PthEvent.returned c t join .ok])) (r.1.return' c t join .ok).1 := by
  obtain ⟨hby, q, hq, hdetached, hfreed, hclosed⟩ := hs.calls c t (by rw [hpc]; rfl)
  obtain rfl := Option.some.inj (hp.symm.trans hq)
  have hclosed := hclosed join hpc
  have hcleanup := ((hs.life t p hp).cleaned hclosed hnot).1
  have hblocks := hs.blocks t p hp
  have hsem := (hblocks.sem hfreed).2 hdetached
  have hstack := hblocks.stackAddr hfreed
  obtain ⟨s₁, hdetach, hr⟩ := bind_eq_some_iff.1 hr
  obtain ⟨p₁, hp₁, rfl⟩ := map_eq_some_iff.1 hr
  -- the hook has been called, so that the thread does not go back to the defunct list
  rw [rtThreadDetach] at hdetach
  split at hdetach
  · cases hdetach
  simp only [hcleanup, Bool.false_eq_true, if_false] at hdetach
  cases hdetach
  simp only [setPth, update_self, Option.some.injEq] at hp₁
  subst hp₁
  refine hs.release hp hby (show _ = update s.pth t (some { p with
    closed := true, cleanup := false, timer := false, object := false, freed := true,
    stackAddr := if p.userStack = true then .null else p.stackAddr })
    from update_idem ..) rfl rfl rfl ?_ rfl ?_ ?_ ?_ (.inr rfl) rfl (by simp) (by simp)
  · intro u
    by_cases hut : u = t
    · subst hut
      simp [return', goto, setPth, hnot]
    · simp [return', goto, setPth, hut]
  · refine ⟨by simp, fun hmem => ?_, fun _ _ => ⟨rfl, hdetached⟩⟩
    simp [return', goto, setPth] at hmem
  · intro e he
    simp only [closeBlocks, Pthread.semDelete, Pthread.freeStack, hsem, hstack, if_true] at he
    cases huser : p.userStack with
    | true =>
      simp only [huser, if_true, append_nil, mem_append, mem_cons, not_mem_nil, or_false] at he
      rcases he with rfl | rfl | rfl <;> exact ⟨_, rfl⟩
    | false =>
      simp only [huser, Bool.false_eq_true, if_false, mem_append, mem_cons,
        not_mem_nil, or_false] at he
      rcases he with (rfl | rfl) | rfl | rfl <;> exact ⟨_, rfl⟩
  · intro b
    simp only [closeBlocks, Pthread.semDelete, Pthread.freeStack, hsem, hstack, if_true]
    cases huser : p.userStack <;> cases b <;> simp [Pthread.held, huser, hsem, hfreed]

theorem Inv.idleExcute (hcareful : Careful s .idle)
    (h : s.idleExcute = some (s', out)) : Inv (tr ++ out) s' := by
  rw [PthSys.idleExcute, hs.idle] at h
  cases hdefunct : s.defunct with
  | nil =>
    simp only [hdefunct, Option.some.injEq, Prod.mk.injEq] at h
    obtain ⟨rfl, rfl⟩ := h
    rwa [append_nil]
  | cons t rest =>
    simp only [hdefunct] at h
    obtain ⟨p, hp, heq⟩ := map_eq_some_iff.1 h
    obtain ⟨hobject, hdetached⟩ := hcareful t (by rw [hdefunct]; rfl) p hp
    have hmem : t ∈ s.defunct := by simp [hdefunct]
    have hlife := hs.life t p hp
    have hclosed : p.closed = true := by
      by_contra hopen
      exact (hlife.running (by simpa using hopen)).2.2.2 hmem
    have hfreed := hlife.waiting hmem
    cases heq
    rw [append_nil]
    have hcalled : Same p (if p.cleanup = true then p.pthreadCleanup else p) ∧
        (if p.cleanup = true then p.pthreadCleanup else p).cleanup = false := by
      split
      · refine ⟨⟨rfl, rfl, rfl, rfl, ?_, id⟩, rfl⟩
        simp [Pthread.pthreadCleanup, hdetached]
      · next hcleanup => exact ⟨.refl p, by simpa using hcleanup⟩
    refine hs.touch hp hcalled.1 rfl rfl (by simp [hobject]) rfl (fun u hut => ?_) ⟨?_, ?_, ?_⟩
      fun c => .inl rfl
    · simp [hdefunct, hut]
    · simp [hcalled.1.closed hclosed]
    · simp
    · exact fun _ _ => ⟨hcalled.2, hcalled.1.detached.trans hdetached⟩

theorem Inv.go (hcareful : s.CarefulAt (s.pc c)) (hruns : s.Runs c)
    (h : s.goAt debug c (s.pc c) = some (s', out)) : Inv (tr ++ out) s' := by
  have hnot : ∀ {t p}, s.pth t = some p → t ∈ (s.pc c).target → ¬ p.detached = true := by
    intro t p hp ht
    obtain ⟨-, q, hq, hdetached, -⟩ := hs.calls c t ht
    obtain rfl := Option.some.inj (hp.symm.trans hq)
    simp [hdetached]
  cases hpc : s.pc c with
  | outside => simp [hpc, goAt] at h
  | joining t | detaching join t =>
    rw [hpc] at h
    obtain ⟨p, hp, heq⟩ := map_eq_some_iff.1 h
    have ht : t ∈ (s.pc c).target := by rw [hpc]; rfl
    rw [if_neg (hnot hp ht)] at heq
    cases heq
    rw [append_nil]
    exact hs.goOn' hp ht (fun u hu => (Option.some.inj hu).symm) nofun
  | taking t =>
    rw [hpc] at h
    obtain ⟨p, hp, heq⟩ := bind_eq_some_iff.1 h
    have ht : t ∈ (s.pc c).target := by rw [hpc]; rfl
    split at heq
    · next n hsem =>
      cases heq
      rw [append_nil]
      obtain ⟨hrunning, hwaiting, hcleaned⟩ := hs.life t p hp
      exact hs.goOn hp ⟨rfl, rfl, rfl, rfl, by simp [hsem], id⟩ ⟨hrunning, hwaiting, hcleaned⟩ ht
        (fun u hu => (Option.some.inj hu).symm) nofun
    · cases heq
  | testing join t =>
    rw [hpc] at h
    obtain ⟨p, hp, heq⟩ := map_eq_some_iff.1 h
    have ht : t ∈ (s.pc c).target := by rw [hpc]; rfl
    cases heq
    rw [append_nil]
    split
    · next hclosed =>
      exact hs.goOn' hp ht (fun u hu => (Option.some.inj hu).symm) fun _ _ => hclosed
    · exact hs.goOn' hp ht (fun u hu => (Option.some.inj hu).symm) nofun
  | marking join t =>
    rw [hpc] at h hcareful
    obtain ⟨p, hp, heq⟩ := map_eq_some_iff.1 h
    cases heq
    exact hs.mark hpc hp (hcareful p hp)
  | closing join t =>
    rw [hpc] at h hcareful
    obtain ⟨p, hp, heq⟩ := bind_eq_some_iff.1 h
    obtain ⟨r, hr, heq⟩ := map_eq_some_iff.1 heq
    cases heq
    exact hs.close hpc hp hcareful hr
  | exiting =>
    rw [hpc] at h
    obtain ⟨p, hp, heq⟩ := bind_eq_some_iff.1 h
    obtain ⟨s₁, hdetach, heq⟩ := map_eq_some_iff.1 heq
    cases heq
    rw [append_nil]
    have hopen := hruns p hp
    have hcleanup := ((hs.life c p hp).running hopen).2.1
    rw [rtThreadDetach] at hdetach
    split at hdetach
    · cases hdetach
    cases hdetach
    have hsame : Same p { p with closed := true, timer := false, object := false } :=
      ⟨rfl, rfl, rfl, rfl, rfl, fun _ => rfl⟩
    refine hs.ends hp hopen hsame rfl rfl rfl rfl rfl ?_ (fun u hut => ?_) fun d => ?_
    · simp [goto, hcleanup]
    · simp [goto, hcleanup, hut]
    · by_cases hdc : d = c
      · subst hdc
        exact .inr (by simp [goto, PthPc.target])
      · exact .inl (update_of_ne hdc ..)

/-- **A step keeps the blocks right**, if it is none that loses a block or frees it twice. -/
theorem Inv.step (hapi : ApiAllows s a) (hcareful : Careful s a)
    (h : s.step debug a = some (s', out)) : Inv (tr ++ out) s' := by
  cases a with
  | create t a m =>
    simp only [PthSys.step, Option.ite_none_left_eq_some, Bool.not_eq_true] at h
    obtain ⟨ht, h⟩ := h
    cases h
    exact hs.create (creates t hcareful) ht rfl rfl rfl rfl rfl rfl
  | finish t =>
    simp only [PthSys.step, ite_none_right_eq_some] at h
    obtain ⟨⟨hruns, hpc⟩, h⟩ := h
    obtain ⟨p, hp, heq⟩ := bind_eq_some_iff.1 h
    obtain ⟨s₁, hexit, heq⟩ := map_eq_some_iff.1 heq
    cases heq
    rw [append_nil]
    have hopen := hruns p hp
    have hcleanup := ((hs.life t p hp).running hopen).2.1
    rw [rtThreadExit] at hexit
    split at hexit
    · cases hexit
    rw [if_neg (by simp [hcleanup])] at hexit
    cases hexit
    have hsame : Same p { p with closed := true, timer := false } :=
      ⟨rfl, rfl, rfl, rfl, rfl, fun _ => rfl⟩
    exact hs.ends hp hopen hsame rfl rfl rfl rfl rfl (by simp) (fun u hut => by simp [hut])
      fun d => .inl rfl
  | exit t =>
    simp only [PthSys.step, ite_none_right_eq_some] at h
    obtain ⟨⟨hruns, hpc⟩, h⟩ := h
    obtain ⟨p, hp, heq⟩ := map_eq_some_iff.1 h
    cases heq
    rw [append_nil]
    obtain ⟨hrunning, hwaiting, hcleaned⟩ := hs.life t p hp
    have hsame : Same p { p with
        joinableSem := if p.detached = true then p.joinableSem else p.joinableSem.map (· + 1) } := by
      refine ⟨rfl, rfl, rfl, rfl, ?_, id⟩
      cases hdetached : p.detached <;> simp
    refine hs.touch hp hsame rfl rfl hs.idle rfl (fun _ _ => Iff.rfl)
      ⟨hrunning, hwaiting, hcleaned⟩ fun d => ?_
    by_cases hdt : d = t
    · subst hdt
      exact .inr (by simp [goto, PthPc.target])
    · exact .inl (update_of_ne hdt ..)
  | join c t =>
    simp only [PthSys.step, ite_none_right_eq_some] at h
    obtain ⟨⟨hruns, hpc⟩, h⟩ := h
    split at h
    · next hct =>
      cases h
      refine hs.quiet ?_ rfl rfl rfl rfl (fun _ => Iff.rfl) hs.calls
      intro e he
      exact ⟨c, t, true, .edeadlk, mem_singleton.1 he, nofun⟩
    · next hct =>
      cases h
      obtain ⟨hsome, hfree⟩ := hapi.resolve_left hct
      obtain ⟨p, hp⟩ := isSome_iff_exists.1 hsome
      rw [append_nil]
      exact hs.claim hp hfree hpc (fun u hu => (Option.some.inj hu).symm) nofun
  | detach c t =>
    simp only [PthSys.step, ite_none_right_eq_some] at h
    obtain ⟨⟨hruns, hpc⟩, h⟩ := h
    cases h
    obtain ⟨p, hp⟩ := isSome_iff_exists.1 hapi.1
    rw [append_nil]
    exact hs.claim hp hapi.2 hpc (fun u hu => (Option.some.inj hu).symm) nofun
  | go c =>
    simp only [PthSys.step, ite_none_right_eq_some] at h
    exact hs.go hcareful h.1 h.2
  | interrupt c =>
    simp only [PthSys.step] at h
    split at h
    · next t hpc =>
      rw [ite_none_right_eq_some] at h
      cases h.2
      exact hs.interrupt hpc
    · cases h
  | idle => exact hs.idleExcute hcareful h

end

theorem inv_boot : Inv [] (boot : PthSys Tid) :=
  ⟨fun _ _ => rfl, fun _ _ => Nat.zero_le _, fun _ => rfl,
    fun _ _ => ⟨rfl, fun _ => rfl, by simp [Released]⟩, by simp, fun _ _ h => (nomatch h),
    fun _ _ h => (nomatch h), fun _ _ h => (nomatch h), by simp [boot], rfl⟩

/-- **Every block of a thread is freed once**, in every run in which threads are joined or detached
once, and no path is taken that loses a block or frees it twice. -/
theorem run_blocksFreed (debug : Bool) {s : PthSys Tid} {tr : List (PthEvent Tid)}
    (h : Run (step debug) (fun s a => ApiAllows s a ∧ Careful s a) boot tr s) : BlocksFreed tr s := by
  have hinv : Inv tr s := by
    refine h.invariant Inv inv_boot ?_
    rintro tr s a s' out hs ⟨hapi, hcareful⟩ hstep
    exact hs.step hapi hcareful hstep
  exact .of_inv hinv

instance (s : PthSys Tid) (a : PthAction Tid) : Decidable (ApiAllows s a) := by
  cases a <;> dsimp only [ApiAllows] <;> infer_instance

instance (s : PthSys Tid) (pc : PthPc Tid) : Decidable (s.CarefulAt pc) := by
  cases pc <;> dsimp only [CarefulAt] <;> infer_instance

instance (s : PthSys Tid) (a : PthAction Tid) : Decidable (Careful s a) := by
  cases a with
  | create t a m => exact inferInstanceAs (Decidable (_ ∨ _))
  | go c => exact inferInstanceAs (Decidable (s.CarefulAt (s.pc c)))
  | idle => dsimp only [Careful]; infer_instance
  | _ => exact isTrue trivial

/-- `true` is created and ends, and `false` joins it. -/
def createJoin : List (PthAction Bool) :=
  [PthAction.create true ⟨false, false⟩ ⟨true, true, true, true⟩, .join false true,
    .finish true, .idle] ++ List.replicate 5 (PthAction.go false)

theorem blocksFreed_createJoin : ∃ (s : PthSys Bool) (tr : List (PthEvent Bool)), BlocksFreed tr s ∧
    .returned false true true .ok ∈ tr ∧ tr.count (.free true .stack) = 1 := by
  have hrun : Run (step false) (fun s a => ApiAllows s a ∧ Careful s a) (boot : PthSys Bool) _ _ :=
    Run.of_exec (rfl : exec (step false) (fun s a => ApiAllows s a ∧ Careful s a)
      (boot : PthSys Bool) createJoin = some (_, _))
  exact ⟨_, _, run_blocksFreed false hrun, by decide, by decide⟩

/-- There is no memory for the semaphore of a new thread with a stack of the caller. -/
theorem not_blocksFreed : ¬ ∀ (debug : Bool) (s : PthSys Bool) (tr : List (PthEvent Bool)),
    Run (step debug) ApiAllows boot tr s → BlocksFreed tr s := by
  intro hall
  have hrun : Run (step false) ApiAllows (boot : PthSys Bool) _ _ :=
    Run.of_exec (rfl : exec (step false) ApiAllows (boot : PthSys Bool)
      [.create true ⟨false, true⟩ ⟨true, true, true, false⟩] = some (_, _))
  exact (hall false _ _ hrun).userStack true (by decide)

end PthSys

end RtThread
