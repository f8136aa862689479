import Mathlib.Data.Fintype.Basic
import McCortexM3.Pthread.RwlockSteps

/-!
# The counters of a read-write lock

`rw_nwaitreaders` and `rw_nwaitwriters` count the threads in the waits, and what a thread has read of
the counters still holds when it acts on it.  `rw_refcount` says who holds the lock, unless a second
thread initialises it again, or the count of the readers wraps.

## Main definitions

* `IsCount` — a number of threads at a place.
* `RwSys.Fact` — what a thread has found out about the counters.
* `RwSys.Inv`, `RwSys.HoldsRight` — the invariants.
* `RwSys.RwRight` — the counters of a lock are right.

## Main results

* `RwSys.run_rwRight` — so they are in every run in which the lock is initialised alone and the
  count of the readers does not wrap.
-/

set_option linter.all false

namespace RtThread

open Function List
open Function (update)

/-! ### Numbers of threads -/

section IsCount

variable {ι : Type} [DecidableEq ι] {P Q : ι → Prop} {n : ℤ} {i : ι}

/-- As many things as `n` have the property. -/
def IsCount (P : ι → Prop) (n : ℤ) : Prop :=
  ∃ l : List ι, l.Nodup ∧ (∀ i, i ∈ l ↔ P i) ∧ n = l.length

section

variable (h : IsCount P n)
include h

theorem IsCount.congr (hQ : ∀ i, Q i ↔ P i) : IsCount Q n := by
  obtain ⟨l, hnodup, hmem, hn⟩ := h
  exact ⟨l, hnodup, fun i => (hmem i).trans (hQ i).symm, hn⟩

theorem IsCount.insert (hi : ¬ P i) (hQ : ∀ j, Q j ↔ j = i ∨ P j) : IsCount Q (n + 1) := by
  obtain ⟨l, hnodup, hmem, hn⟩ := h
  refine ⟨i :: l, nodup_cons.2 ⟨fun h => hi ((hmem i).1 h), hnodup⟩, fun j => ?_, ?_⟩
  · rw [mem_cons, hmem, hQ]
  · rw [hn, length_cons]
    push_cast
    rfl

theorem IsCount.erase (hi : P i) (hQ : ∀ j, Q j ↔ j ≠ i ∧ P j) : IsCount Q (n - 1) := by
  obtain ⟨l, hnodup, hmem, hn⟩ := h
  have hil := (hmem i).2 hi
  refine ⟨l.erase i, hnodup.erase i, fun j => ?_, ?_⟩
  · rw [hnodup.mem_erase_iff, hmem, hQ]
  · have hlength := length_erase_of_mem hil
    have hpos := length_pos_of_mem hil
    omega

theorem IsCount.nonneg : 0 ≤ n := by
  obtain ⟨l, -, -, rfl⟩ := h
  omega

theorem IsCount.pos (hi : P i) : 0 < n := by
  obtain ⟨l, -, hmem, rfl⟩ := h
  have hpos := length_pos_of_mem ((hmem i).2 hi)
  omega

theorem IsCount.eq_zero (hnone : ∀ i, ¬ P i) : n = 0 := by
  obtain ⟨l, -, hmem, rfl⟩ := h
  have hnil : l = [] := eq_nil_iff_forall_not_mem.2 fun i hi => hnone i ((hmem i).1 hi)
  rw [hnil]
  rfl

end

end IsCount

namespace RwSys

variable {Tid : Type} [DecidableEq Tid] {s s' : RwSys Tid} {t u : Tid} {pc pc' : RwPc} {op : RwOp}
  {a : RwAction Tid} {out tr : List (RwEvent Tid)} {write : Bool}

/-! ### Waits and facts -/

/-- A thread at this place is counted in `rw_nwaitwriters`, or in `rw_nwaitreaders`. -/
def InWait (write : Bool) : RwPc → Prop
  | .calling op | .unlocked op | .taking op | .relocking op _ | .relocked op _ | .waited op _ =>
    op.isWrite = write
  | _ => False

/-- What a thread at this place has found out about the counters. -/
def Fact (s : RwSys Tid) : RwPc → Prop
  | .counting op => (op.isWrite = false → s.readersWait) ∧ (op.isWrite = true → s.refcount ≠ 0)
  | .calling op => (op.isWrite = false → s.readersWait) ∧ (op.isWrite = true → s.nwaitwriters > 0)
  | .acquiring op => (op.isWrite = false → ¬ s.readersWait) ∧ (op.isWrite = true → s.refcount = 0)
  | .waking .writers _ => s.nwaitwriters > 0
  | .waking .readers all => all = true
  | _ => True

/-- A thread is before the end of `pthread_rwlock_init`, or in no function. -/
def BeforeInit : RwPc → Prop
  | .outside | .entering _ | .initing _ => True
  | _ => False

/-- A lock that is not initialised has at most one thread, and nobody has changed it; nobody
initialises a lock that is; the mutex is right; and the counters are. -/
structure Inv (s : RwSys Tid) : Prop where
  mutex : MutexInv s
  before : s.initialised = false →
    s.init = { s with initialised := true } ∧ ∀ t, BeforeInit (s.pc t)
  alone : s.initialised = false → ∀ t u, s.pc t ≠ .outside → s.pc u ≠ .outside → t = u
  after : s.initialised = true → ∀ t op, s.pc t ≠ .initing op
  facts : ∀ t, Fact s (s.pc t)
  waitreaders : IsCount (fun t => InWait false (s.pc t)) s.nwaitreaders
  waitwriters : IsCount (fun t => InWait true (s.pc t)) s.nwaitwriters

theorem fact_of_not_has {mode : RwMode} (h : ¬ Has mode pc) : Fact s pc := by
  cases pc with
  | counting op | calling op | acquiring op | waking σ all => exact absurd trivial h
  | _ => trivial

theorem MutexInv.only (hs : MutexInv s) (ht : Has (s.ipc.mode t) (s.pc t))
    (hu : Has (s.ipc.mode u) (s.pc u)) : t = u := by
  have htown := (hs.threads t).owner.2 ht
  rw [(hs.threads u).owner.2 hu] at htown
  exact (Option.some.inj htown).symm

theorem move_inWait (h : Move s pc pc') (write : Bool) : InWait write pc' ↔ InWait write pc := by
  cases h with
  | decide =>
    unfold decision
    split
    · split <;> exact Iff.rfl
    · split <;> exact Iff.rfl
  | _ => exact Iff.rfl

theorem move_fact (h : Move s pc pc') : Fact s pc' := by
  cases h with
  | waitRead op hop hwait =>
    refine ⟨fun _ => hwait, fun hwrite => ?_⟩
    rcases hop with rfl | rfl <;> cases hwrite
  | waitWrite op hop hwait =>
    refine ⟨fun hwrite => ?_, fun _ => hwait⟩
    rcases hop with rfl | rfl <;> cases hwrite
  | mayRead op hop hne hwait => exact ⟨fun _ => hwait, fun hwrite => by simp [hop] at hwrite⟩
  | mayWrite op hop hwait => exact ⟨fun hwrite => by simp [hop] at hwrite, fun _ => hwait⟩
  | decide =>
    unfold decision
    split
    · next hpos =>
      split
      · exact hpos
      · trivial
    · split
      · rfl
      · trivial
  | _ => trivial

theorem move_initing (h : Move s pc pc') (heq : pc' = .initing op) : s.initialised = false := by
  cases h with
  | beginInit op' h => exact h
  | decide =>
    unfold decision at heq
    split at heq
    · split at heq <;> cases heq
    · split at heq <;> cases heq
  | _ => cases heq

theorem move_beforeInit (h : Move s pc pc') (hpc : BeforeInit pc) (hinit : s.initialised = false) :
    ∃ op, pc = .entering op ∧ pc' = .initing op := by
  cases h with
  | beginInit op h => exact ⟨op, rfl, rfl⟩
  | enter op h => simp [hinit] at h
  | _ => exact absurd hpc id

/-! ### Steps -/

theorem inWait_update (hpc : s.pc t = pc) (hself : InWait write pc' ↔ InWait write pc) (u : Tid) :
    InWait write (update s.pc t pc' u) ↔ InWait write (s.pc u) := by
  by_cases hut : u = t
  · subst hut
    rw [update_self, hpc]
    exact hself
  · rw [update_of_ne hut]

theorem isCount_enter {n : ℤ} (h : IsCount (fun u => InWait write (s.pc u)) n)
    (hnot : ¬ InWait write (s.pc t)) (hself : InWait write pc') :
    IsCount (fun u => InWait write (update s.pc t pc' u)) (n + 1) := by
  refine h.insert (i := t) hnot fun u => ?_
  by_cases hut : u = t
  · subst hut
    rw [update_self]
    exact iff_of_true hself (.inl rfl)
  · rw [update_of_ne hut]
    exact ⟨.inr, fun h => h.resolve_left hut⟩

theorem isCount_leave {n : ℤ} (h : IsCount (fun u => InWait write (s.pc u)) n)
    (hself : InWait write (s.pc t)) (hnot : ¬ InWait write pc') :
    IsCount (fun u => InWait write (update s.pc t pc' u)) (n - 1) := by
  refine h.erase (i := t) hself fun u => ?_
  by_cases hut : u = t
  · subst hut
    rw [update_self]
    exact iff_of_false hnot fun h => h.1 rfl
  · rw [update_of_ne hut]
    exact ⟨fun h => ⟨hut, h⟩, fun h => h.2⟩

/-- The others know what they knew, or the thread has the mutex and they do not. -/
theorem Inv.facts_update (hs : s.Inv) (hpc : s'.pc = update s.pc t pc')
    (hself : Fact s' pc')
    (hother : (∀ pc, Fact s pc → Fact s' pc) ∨ Has (s.ipc.mode t) (s.pc t)) (u : Tid) :
    Fact s' (s'.pc u) := by
  rw [hpc]
  by_cases hut : u = t
  · subst hut
    rwa [update_self]
  · rw [update_of_ne hut]
    rcases hother with hfact | hhas
    · exact hfact _ (hs.facts u)
    · exact fact_of_not_has fun hu => hut (hs.mutex.only hu hhas)

theorem fact_congr (hwriters : s'.nwaitwriters = s.nwaitwriters)
    (hrefcount : s'.refcount = s.refcount) (pc : RwPc) : Fact s' pc ↔ Fact s pc := by
  have hwait : s'.readersWait ↔ s.readersWait := by rw [readersWait, readersWait, hwriters, hrefcount]
  cases pc with
  | counting op | calling op | acquiring op => rw [Fact, Fact, hwait]; simp only [hwriters, hrefcount]
  | waking σ all =>
    cases σ with
    | readers => exact Iff.rfl
    | writers => rw [Fact, Fact, hwriters]
  | _ => exact Iff.rfl

theorem not_initing_update (hpc : s'.pc = update s.pc t pc')
    (hs : ∀ u op, s.pc u ≠ .initing op) (hself : ∀ op, pc' ≠ .initing op) (u : Tid) (op : RwOp) :
    s'.pc u ≠ .initing op := by
  rw [hpc]
  by_cases hut : u = t
  · subst hut
    rw [update_self]
    exact hself op
  · rw [update_of_ne hut]
    exact hs u op

section

variable (hs : s.Inv) (hmutex : MutexInv s') (hpc : s'.pc = update s.pc t pc')
  (hinit : s'.initialised = s.initialised)
include hs hmutex hpc hinit

theorem Inv.change (hhas : ∀ mode : RwMode, Has mode (s.pc t)) (hbefore : ¬ BeforeInit (s.pc t))
    (hpc' : ∀ op, pc' ≠ .initing op) (hself : Fact s' pc')
    (hreaders : IsCount (fun t => InWait false (s'.pc t)) s'.nwaitreaders)
    (hwriters : IsCount (fun t => InWait true (s'.pc t)) s'.nwaitwriters) : s'.Inv := by
  -- a thread has the mutex, so the lock is initialised
  have htrue : s.initialised = true := by
    by_contra hne
    exact hbefore ((hs.before (by simpa using hne)).2 t)
  rw [htrue] at hinit
  exact ⟨hmutex, by simp [hinit], by simp [hinit],
    fun _ => not_initing_update hpc (hs.after htrue) hpc',
    hs.facts_update hpc hself (.inr (hhas _)), hreaders, hwriters⟩

theorem Inv.quiet (hreaders : s'.nwaitreaders = s.nwaitreaders)
    (hwriters : s'.nwaitwriters = s.nwaitwriters)
    (hrefcount : s'.refcount = s.refcount) (hself : Fact s' pc')
    (hwait : ∀ write, InWait write pc' ↔ InWait write (s.pc t))
    (hbefore : s.initialised = false → s'.init = { s' with initialised := true } ∧
      BeforeInit pc' ∧ ∀ u, s.pc u ≠ .outside → u = t)
    (hafter : s.initialised = true → ∀ op, pc' ≠ .initing op) : s'.Inv := by
  have hsame : ∀ pc, Fact s pc → Fact s' pc := fun pc => (fact_congr hwriters hrefcount pc).2
  refine ⟨hmutex, fun hfalse => ⟨(hbefore (hinit ▸ hfalse)).1, fun u => ?_⟩,
    fun hfalse u v hu hv => ?_, fun htrue => not_initing_update hpc (hs.after (hinit ▸ htrue))
      (hafter (hinit ▸ htrue)), hs.facts_update hpc hself (.inl hsame), ?_, ?_⟩
  · rw [hpc]
    by_cases hut : u = t
    · subst hut
      rw [update_self]
      exact (hbefore (hinit ▸ hfalse)).2.1
    · rw [update_of_ne hut]
      exact (hs.before (hinit ▸ hfalse)).2 u
  · have hown : ∀ u, s'.pc u ≠ .outside → u = t := by
      intro u hu
      by_contra hut
      rw [hpc, update_of_ne hut] at hu
      exact hut ((hbefore (hinit ▸ hfalse)).2.2 u hu)
    rw [hown u hu, hown v hv]
  · rw [hreaders, hpc]
    exact hs.waitreaders.congr (inWait_update rfl (hwait false))
  · rw [hwriters, hpc]
    exact hs.waitwriters.congr (inWait_update rfl (hwait true))

end

theorem Inv.initObjects_eq (hs : s.Inv) (hpc : s.pc t = .initing op) :
    s.initialised = false ∧ initObjects s.ipc = s.ipc := by
  have hfalse : s.initialised = false := by
    by_contra hne
    exact hs.after (by simpa using hne) t op hpc
  exact ⟨hfalse, congrArg RwSys.ipc (hs.before hfalse).1⟩

theorem Inv.step (hs : s.Inv) (ha : InitAlone s a) (h : s.step a = some (s', out)) : s'.Inv := by
  have ho := outcome_of_step hs.mutex h
  have hmutex := hs.mutex.outcome ho fun t op hpc => (hs.initObjects_eq hpc).2
  cases ho with
  | call t op hpc =>
    refine hs.quiet (t := t) hmutex rfl rfl rfl rfl rfl trivial (fun _ => by rw [hpc]; exact Iff.rfl)
      (fun hinit => ⟨?_, trivial, fun u hu => ?_⟩) (by simp)
    · exact congrArg (fun x : RwSys Tid => x.goto t (.entering op)) (hs.before hinit).1
    · rcases ha with hinit' | houtside
      · simp [hinit'] at hinit
      · exact absurd (houtside u) hu
  | moved t expired pc' ipc out hmove heffect hqueued hidle hplain hout =>
    refine hs.quiet (t := t) hmutex rfl rfl rfl rfl rfl ?_ (move_inWait hmove)
      (fun hinit => ?_) (fun hinit op heq => ?_)
    · have hfact := move_fact hmove
      cases pc' <;> exact hfact
    · obtain ⟨op, hpc, rfl⟩ := move_beforeInit hmove ((hs.before hinit).2 t) hinit
      rw [hpc] at heffect
      obtain rfl : ipc = s.ipc := heffect
      exact ⟨congrArg (fun x : RwSys Tid => x.goto t (.initing op)) (hs.before hinit).1, trivial,
        fun u hu => hs.alone hinit u t hu (by simp [hpc])⟩
    · have hfalse := move_initing hmove heq
      simp [hinit] at hfalse
  | init t expired op hpc =>
    obtain ⟨hinit, -⟩ := hs.initObjects_eq hpc
    -- nobody has used the lock, so that its fields stay as they are
    have hsame := (hs.before hinit).1
    have hreaders : s.init.nwaitreaders = s.nwaitreaders := by rw [hsame]
    have hwriters : s.init.nwaitwriters = s.nwaitwriters := by rw [hsame]
    have hrefcount : s.init.refcount = s.refcount := by rw [hsame]
    have hpc' : (s.init.goto t (.locking op)).pc = update s.pc t (.locking op) := rfl
    refine ⟨hmutex, nofun, nofun, fun _ u op' hu => ?_, hs.facts_update hpc' trivial (.inl ?_), ?_, ?_⟩
    · by_cases hut : u = t
      · subst hut
        simp [goto] at hu
      · rw [hpc', update_of_ne hut] at hu
        exact hut (hs.alone hinit u t (by simp [hu]) (by simp [hpc]))
    · exact fun pc => (fact_congr hwriters hrefcount pc).2
    · have hnumber := hs.waitreaders
      rw [← hreaders] at hnumber
      exact hnumber.congr (inWait_update hpc Iff.rfl)
    · have hnumber := hs.waitwriters
      rw [← hwriters] at hnumber
      exact hnumber.congr (inWait_update hpc Iff.rfl)
  | release t expired hpc | acquire t expired op hpc =>
    refine hs.change (t := t) hmutex rfl rfl (by simp [hpc, Has]) (by simp [hpc, BeforeInit])
      (by simp) trivial (hs.waitreaders.congr ?_) (hs.waitwriters.congr ?_)
    · exact inWait_update hpc Iff.rfl
    · exact inWait_update hpc Iff.rfl
  | count t expired op hpc =>
    have hfact := hs.facts t
    rw [hpc] at hfact
    have hnot : ∀ write, ¬ InWait write (s.pc t) := fun write => by rw [hpc]; exact id
    refine hs.change (t := t) hmutex rfl rfl (by simp [hpc, Has]) (by simp [hpc, BeforeInit])
      (by simp) ?_ ?_ ?_
    · have hnonneg := hs.waitwriters.nonneg
      refine ⟨fun hread => ?_, fun hwrite => ?_⟩
      · have hwait := hfact.1 hread
        simpa [readersWait, goto, addWaits, hread] using hwait
      · simp only [goto, addWaits, hwrite, if_true]
        omega
    · cases hop : op.isWrite with
      | true =>
        simp only [goto, addWaits, hop, if_true]
        exact hs.waitreaders.congr (inWait_update hpc (by simp [InWait, hop]))
      | false =>
        simp only [goto, addWaits, hop, Bool.false_eq_true, if_false]
        exact isCount_enter hs.waitreaders (hnot false) hop
    · cases hop : op.isWrite with
      | true =>
        simp only [goto, addWaits, hop, if_true]
        exact isCount_enter hs.waitwriters (hnot true) hop
      | false =>
        simp only [goto, addWaits, hop, Bool.false_eq_true, if_false]
        exact hs.waitwriters.congr (inWait_update hpc (by simp [InWait, hop]))
  | uncount t expired op err hpc =>
    have hnot : ∀ write, ¬ InWait write
        (if err = .eok then .testing op else .leaving op (op.waitResult err)) := fun write => by
      split <;> exact id
    refine hs.change (t := t) hmutex rfl rfl (by simp [hpc, Has]) (by simp [hpc, BeforeInit])
      (fun op' => by split <;> simp) (by split <;> trivial) ?_ ?_
    · cases hop : op.isWrite with
      | true =>
        simp only [goto, addWaits, hop, if_true]
        exact hs.waitreaders.congr (inWait_update hpc (iff_of_false (hnot false)
          (by simp [InWait, hop])))
      | false =>
        simp only [goto, addWaits, hop, Bool.false_eq_true, if_false, ← sub_eq_add_neg]
        exact isCount_leave hs.waitreaders (by rw [hpc]; exact hop) (hnot false)
    · cases hop : op.isWrite with
      | true =>
        simp only [goto, addWaits, hop, if_true, ← sub_eq_add_neg]
        exact isCount_leave hs.waitwriters (by rw [hpc]; exact hop) (hnot true)
      | false =>
        simp only [goto, addWaits, hop, Bool.false_eq_true, if_false]
        exact hs.waitwriters.congr (inWait_update hpc (iff_of_false (hnot true)
          (by simp [InWait, hop])))
  | interrupted t err op hpc hmode herr =>
    have hpc' : s.pc = update s.pc t (s.pc t) := (update_eq_self ..).symm
    refine hs.quiet (t := t) hmutex hpc' rfl rfl rfl rfl ?_ (fun _ => Iff.rfl) (fun hinit => ?_)
      fun htrue op' => hs.after htrue t op'
    · rw [hpc]
      trivial
    · have hbefore := (hs.before hinit).2 t
      rw [hpc] at hbefore
      exact absurd hbefore id

theorem inv_boot (initialised : Bool) : (boot initialised : RwSys Tid).Inv := by
  have hmutex : MutexInv (boot initialised : RwSys Tid) :=
    ⟨fun _ _ => by simp [boot, initObjects], fun _ _ => rfl,
      ⟨fun _ => ⟨rfl, rfl⟩, fun _ h => by simp [boot, initObjects, rtMutexInit] at h⟩,
      fun _ => ⟨rfl, by simp [boot, initObjects, rtMutexInit, Has]⟩, fun _ => by rintro ⟨⟩⟩
  exact ⟨hmutex, fun _ => ⟨rfl, fun _ => trivial⟩, fun _ _ _ h => absurd rfl h, by simp [boot],
    fun _ => trivial, ⟨[], nodup_nil, fun _ => by simp [boot, InWait], rfl⟩,
    ⟨[], nodup_nil, fun _ => by simp [boot, InWait], rfl⟩⟩

/-! ### Who holds the lock -/

/-- The count of the readers does not wrap when a thread gets the lock. -/
def CountFits (s : RwSys Tid) : RwPc → Prop
  | .acquiring op => op.isWrite = false → s.refcount ≠ BitVec.intMax 32
  | _ => True

@[inherit_doc CountFits] def NoWrap (s : RwSys Tid) : RwAction Tid → Prop
  | .go t _ => s.CountFits (s.pc t)
  | _ => True

/-- A thread at this place is on its way to the change in `pthread_rwlock_unlock`. -/
def Unlocking : RwPc → Prop
  | .entering op | .initing op | .locking op | .locked op | .testing op | .counting op | .calling op
  | .unlocked op | .taking op | .relocking op _ | .relocked op _ | .waited op _ => op = .unlock
  | _ => False

/-- `rw_refcount` says who holds the lock, and what is unlocked is held. -/
structure HoldsRight (s : RwSys Tid) : Prop where
  count : (∃ t, s.refcount = -1 ∧ s.readHolders = [] ∧ s.writeHolders = [t]) ∨
    (s.writeHolders = [] ∧ s.refcount.toInt = s.readHolders.length)
  unlocking : ∀ t, Unlocking (s.pc t) → t ∈ s.readHolders ∨ t ∈ s.writeHolders

theorem move_unlocking (h : Move s pc pc') (hpc' : Unlocking pc') : Unlocking pc := by
  cases h with
  | decide =>
    unfold decision at hpc'
    split at hpc'
    · split at hpc' <;> exact hpc'
    · split at hpc' <;> exact hpc'
  | busyRead | busyWrite | mayRead | mayWrite | wake | leave => exact False.elim hpc'
  | _ => exact hpc'

theorem toInt_pred {r : BitVec 32} (h : 0 < r.toInt) : (r - 1).toInt = r.toInt - 1 := by
  have hlt := r.two_mul_toInt_lt
  rw [BitVec.toInt_sub, Int.bmod_eq_iff (by decide)]
  refine ⟨?_, ?_, ⟨0, ?_⟩⟩
  · norm_num
    omega
  · norm_num at hlt ⊢
    omega
  · simp

theorem toInt_succ {r : BitVec 32} (h : r ≠ BitVec.intMax 32) : (r + 1).toInt = r.toInt + 1 := by
  have hlt := r.two_mul_toInt_lt
  have hge := r.le_two_mul_toInt
  have hne : r.toInt ≠ 2 ^ 31 - 1 := fun heq => h (BitVec.eq_of_toInt_eq (by rw [heq]; rfl))
  rw [BitVec.toInt_add, Int.bmod_eq_iff (by decide)]
  refine ⟨?_, ?_, ⟨0, ?_⟩⟩
  · norm_num at hge ⊢
    omega
  · norm_num at hlt hne ⊢
    omega
  · simp

theorem HoldsRight.quiet (hs : HoldsRight s) (hrefcount : s'.refcount = s.refcount)
    (hreaders : s'.readHolders = s.readHolders) (hwriters : s'.writeHolders = s.writeHolders)
    (hpc : s'.pc = update s.pc t pc')
    (hself : Unlocking pc' → t ∈ s.readHolders ∨ t ∈ s.writeHolders) : HoldsRight s' := by
  refine ⟨by rw [hrefcount, hreaders, hwriters]; exact hs.count, fun u hu => ?_⟩
  rw [hreaders, hwriters]
  rw [hpc] at hu
  by_cases hut : u = t
  · subst hut
    exact hself (by simpa using hu)
  · rw [update_of_ne hut] at hu
    exact hs.unlocking u hu

theorem HoldsRight.release (hs : HoldsRight s) (hpc : s.pc t = .testing .unlock) :
    HoldsRight ((s.release t).goto t .deciding) := by
  have ht := hs.unlocking t (by rw [hpc]; rfl)
  have hother : ∀ u, Unlocking (update s.pc t .deciding u) →
      u ≠ t ∧ (u ∈ s.readHolders ∨ u ∈ s.writeHolders) := by
    intro u hu
    by_cases hut : u = t
    · subst hut
      rw [update_self] at hu
      exact False.elim hu
    · rw [update_of_ne hut] at hu
      exact ⟨hut, hs.unlocking u hu⟩
  rcases hs.count with ⟨w, hcount, hreaders, hwriters⟩ | ⟨hwriters, hcount⟩
  · obtain rfl : t = w := by simpa [hreaders, hwriters] using ht
    refine ⟨.inr ⟨?_, ?_⟩, fun u hu => ?_⟩
    · simp [goto, RwSys.release, hwriters]
    · simp [goto, RwSys.release, hreaders, hcount, releasedCount]
    · obtain ⟨hut, hu⟩ := hother u hu
      exact absurd (by simpa [hreaders, hwriters] using hu) hut
  · have hmem : t ∈ s.readHolders := by simpa [hwriters] using ht
    have hlength := length_erase_of_mem hmem
    have hlen := length_pos_of_mem hmem
    have hpos : 0 < s.refcount.toInt := by omega
    have hcount' : releasedCount s.refcount = s.refcount - 1 := by
      rw [releasedCount, if_pos (BitVec.slt_iff_toInt_lt.2 (by simpa using hpos))]
    refine ⟨.inr ⟨?_, ?_⟩, fun u hu => ?_⟩
    · simp [goto, RwSys.release, hwriters]
    · simp only [goto, RwSys.release, hcount', toInt_pred hpos, hcount, hwriters,
        not_mem_nil, if_false, hlength]
      omega
    · obtain ⟨hut, hu⟩ := hother u hu
      left
      simpa [goto, RwSys.release, hwriters, hut, mem_erase_of_ne] using hu

theorem HoldsRight.acquire (hs : HoldsRight s) (hfact : Fact s (.acquiring op))
    (hwrap : op.isWrite = false → s.refcount ≠ BitVec.intMax 32) :
    HoldsRight ((s.acquire t op).goto t (.leaving op .ok)) := by
  have hother : ∀ u, Unlocking (update s.pc t (.leaving op .ok) u) →
      u ∈ s.readHolders ∨ u ∈ s.writeHolders := by
    intro u hu
    by_cases hut : u = t
    · subst hut
      rw [update_self] at hu
      exact False.elim hu
    · rw [update_of_ne hut] at hu
      exact hs.unlocking u hu
  cases hop : op.isWrite with
  | true =>
    have hzero := hfact.2 hop
    rcases hs.count with ⟨w, hcount, -⟩ | ⟨hwriters, hcount⟩
    · exact absurd (hzero.symm.trans hcount) (by decide)
    · have hreaders : s.readHolders = [] := by
        rw [hzero] at hcount
        exact eq_nil_of_length_eq_zero (by simpa using hcount.symm)
      refine ⟨.inl ⟨t, ?_⟩, fun u hu => ?_⟩
      · simp [goto, RwSys.acquire, hop, hreaders, hwriters]
      · have hu := hother u hu
        simp [hreaders, hwriters] at hu
  | false =>
    have hfree := hfact.1 hop
    rcases hs.count with ⟨w, hcount, -⟩ | ⟨hwriters, hcount⟩
    · exact absurd (.inl (by rw [hcount]; decide)) hfree
    · refine ⟨.inr ⟨?_, ?_⟩, fun u hu => ?_⟩
      · simp [goto, RwSys.acquire, hop, hwriters]
      · simp only [goto, RwSys.acquire, hop, Bool.false_eq_true, if_false, toInt_succ (hwrap hop),
          hcount, length_cons]
        push_cast
        rfl
      · have hu := hother u hu
        simp only [goto, RwSys.acquire, hop, Bool.false_eq_true, if_false, mem_cons]
        grind

/-- **A step keeps the accounts**, if threads unlock what they hold and the count does not wrap. -/
theorem HoldsRight.step (hs : s.Inv) (hr : HoldsRight s) (hholder : HolderUnlocks s a)
    (hwrap : NoWrap s a) (h : s.step a = some (s', out)) : HoldsRight s' := by
  cases outcome_of_step hs.mutex h with
  | call t op hpc => exact hr.quiet rfl rfl rfl rfl hholder
  | moved t expired pc' ipc out hmove heffect hqueued hidle hplain hout =>
    exact hr.quiet rfl rfl rfl rfl fun hpc' => hr.unlocking t (move_unlocking hmove hpc')
  | init t expired op hpc =>
    have hsame := (hs.before (hs.initObjects_eq hpc).1).1
    rw [hsame]
    exact hr.quiet rfl rfl rfl rfl fun hop => hr.unlocking t (by rw [hpc]; exact hop)
  | release t expired hpc => exact hr.release hpc
  | count t expired op hpc =>
    exact hr.quiet rfl rfl rfl rfl fun hop => hr.unlocking t (by rw [hpc]; exact hop)
  | uncount t expired op err hpc =>
    refine hr.quiet rfl rfl rfl rfl fun hop => hr.unlocking t ?_
    rw [hpc]
    split at hop
    · exact hop
    · exact False.elim hop
  | acquire t expired op hpc =>
    exact hr.acquire (hpc ▸ hs.facts t) (by simpa only [NoWrap, hpc, CountFits] using hwrap)
  | interrupted t err op hpc hmode herr =>
    exact ⟨hr.count, hr.unlocking⟩

/-! ### Runs -/

/-- The counters of a lock are right: `rw_refcount` is -1 exactly when a writer and no reader holds
the lock, and otherwise the number of readers that do; no reader gets the lock while a writer is
counted; and the other counters are the numbers of threads in the waits. -/
structure RwRight (tr : List (RwEvent Tid)) (s : RwSys Tid) : Prop where
  writer : s.refcount = -1 ↔ s.readHolders = [] ∧ s.writeHolders.length = 1
  readers : s.refcount ≠ -1 → s.writeHolders = [] ∧ s.refcount.toInt = s.readHolders.length
  noReader : ∀ t n, .acquired t false n ∈ tr → n = 0
  waitreaders : IsCount (fun t => InWait false (s.pc t)) s.nwaitreaders
  waitwriters : IsCount (fun t => InWait true (s.pc t)) s.nwaitwriters

theorem RwRight.of_inv (hs : s.Inv) (hr : HoldsRight s)
    (htr : ∀ t n, .acquired t false n ∈ tr → n = 0) : RwRight tr s := by
  refine ⟨?_, fun hne => ?_, htr, hs.waitreaders, hs.waitwriters⟩
  · rcases hr.count with ⟨w, hcount, hreaders, hwriters⟩ | ⟨hwriters, hcount⟩
    · simp [hcount, hreaders, hwriters]
    · refine iff_of_false (fun heq => ?_) (by simp [hwriters])
      rw [heq] at hcount
      have hneg : (-1 : BitVec 32).toInt = -1 := by decide
      omega
  · rcases hr.count with ⟨w, hcount, -⟩ | hfree
    · exact absurd hcount hne
    · exact hfree

theorem noReader_step (hs : s.Inv) (h : s.step a = some (s', out)) (t : Tid) (n : ℤ)
    (hmem : .acquired t false n ∈ out) : n = 0 := by
  cases outcome_of_step hs.mutex h with
  | moved u expired pc' ipc out hmove heffect hqueued hidle hplain hout =>
    obtain ⟨op, result, heq⟩ := hout _ hmem
    cases heq
  | acquire u expired op hpc =>
    have hfact := hs.facts u
    rw [hpc] at hfact
    obtain ⟨-, hop, rfl⟩ := RwEvent.acquired.inj (mem_singleton.1 hmem)
    have hwait := hfact.1 hop.symm
    have hnonneg := hs.waitwriters.nonneg
    simp only [readersWait, not_or] at hwait
    omega
  | release u expired hpc => simp at hmem
  | _ => cases hmem

/-- **The counters of a read-write lock.**  In every run in which threads unlock what they hold, no
thread uses the lock while another one initialises it, and the count of the readers does not wrap,
the counters are right. -/
theorem run_rwRight (initialised : Bool) {s : RwSys Tid} {tr : List (RwEvent Tid)}
    (h : Run step (fun s a => HolderUnlocks s a ∧ InitAlone s a ∧ NoWrap s a) (boot initialised)
      tr s) : RwRight tr s := by
  have hinv : s.Inv ∧ HoldsRight s ∧ ∀ t n, .acquired t false n ∈ tr → n = 0 := by
    refine h.invariant (fun tr s => s.Inv ∧ HoldsRight s ∧ ∀ t n, .acquired t false n ∈ tr → n = 0)
      ⟨inv_boot initialised, ⟨.inr ⟨rfl, rfl⟩, fun t ht => False.elim ht⟩, by simp⟩ ?_
    rintro tr s a s' out ⟨hs, hr, htr⟩ ⟨hholder, halone, hwrap⟩ hstep
    refine ⟨hs.step halone hstep, hr.step hs hholder hwrap hstep, fun t n hmem => ?_⟩
    rcases mem_append.1 hmem with hmem | hmem
    · exact htr t n hmem
    · exact noReader_step hs hstep t n hmem
  exact .of_inv hinv.1 hinv.2.1 hinv.2.2

/-- A lock that is not initialised yet: `true` reads while `false` waits to write. -/
def readAndWait : List (RwAction Bool) :=
  [.call true .rdlock, .go true false, .go true false, .go true false, .go true false,
    .go true false, .go true false, .go true false, .call false .wrlock, .go false false,
    .go false false, .go false false, .go false false, .go false false, .go false false]

instance [Fintype Tid] (s : RwSys Tid) (a : RwAction Tid) : Decidable (InitAlone s a) := by
  cases a <;> dsimp only [InitAlone] <;> infer_instance

instance (s : RwSys Tid) (a : RwAction Tid) : Decidable (HolderUnlocks s a) := by
  cases a <;> dsimp only [HolderUnlocks] <;> infer_instance

instance (s : RwSys Tid) (a : RwAction Tid) : Decidable (NoWrap s a) := by
  cases a with
  | go t expired =>
    dsimp only [NoWrap]
    cases s.pc t <;> dsimp only [CountFits] <;> infer_instance
  | _ => exact isTrue trivial

theorem rwRight_readAndWait : ∃ (s : RwSys Bool) (tr : List (RwEvent Bool)), RwRight tr s ∧
    s.readHolders = [true] ∧ s.nwaitwriters = 1 := by
  have hrun : Run step (fun s a => HolderUnlocks s a ∧ InitAlone s a ∧ NoWrap s a)
      (boot false : RwSys Bool) _ _ :=
    Run.of_exec (rfl : exec step (fun s a => HolderUnlocks s a ∧ InitAlone s a ∧ NoWrap s a)
      (boot false : RwSys Bool) readAndWait = some (_, _))
  exact ⟨_, _, run_rwRight false hrun, by decide, by decide⟩

/-- Two threads find that the lock is not initialised, and the second one initialises it when the
first one has it. -/
theorem not_rwRight : ¬ ∀ (initialised : Bool) (s : RwSys Bool) (tr : List (RwEvent Bool)),
    Run step HolderUnlocks (boot initialised) tr s → RwRight tr s := by
  intro hall
  have hrun : Run step HolderUnlocks (boot false : RwSys Bool) _ _ :=
    Run.of_exec (rfl : exec step HolderUnlocks (boot false : RwSys Bool)
      [.call true .rdlock, .go true false, .call false .wrlock, .go false false, .go false false,
        .go false false, .go false false, .go false false, .go false false, .go true false] =
        some (_, _))
  have hright := hall false _ _ hrun
  exact absurd (hright.writer.2 ⟨rfl, rfl⟩) (by decide)

end RwSys

end RtThread
