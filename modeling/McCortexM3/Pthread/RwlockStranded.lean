import Mathlib.Tactic.FinCases
import McCortexM3.Pthread.RwlockCounts

/-!
# Stranded readers of a read-write lock

Readers wait while a writer is counted in `rw_nwaitwriters`, and only `pthread_rwlock_unlock` wakes
them.  A writer whose wait has failed takes its count back and wakes nobody: when the last holder has
signalled it in the meantime, the readers sleep on beside a free lock.

## Main definitions

* `RwSys.Pending` — a reader is blocked, or about to block.
* `RwSys.Helps` — a thread is on its way to get the lock or to wake the readers.
* `RwSys.GivesUpWell` — a writer that gives up leaves no reader behind.
* `RwSys.NoneStranded` — no reader is blocked beside a free lock.

## Main results

* `RwSys.run_noneStranded` — no reader is in every run in which writers give up so.
-/

set_option linter.all false

namespace RtThread

open Function
open Function (update)

namespace RwSys

variable {Tid : Type} [DecidableEq Tid] {s s' : RwSys Tid} {t u : Tid} {pc pc' : RwPc} {op : RwOp}
  {ipc : WaitSys Tid Unit RwCond} {mode : RwMode} {a : RwAction Tid} {out tr : List (RwEvent Tid)}

/-- A reader is between its `pthread_mutex_unlock` and its `rt_sem_take`. -/
def AboutToTake : RwPc → Prop
  | .unlocked op => op.isWrite = false
  | _ => False

/-- A reader is blocked, or about to take the semaphore. -/
def Pending (s : RwSys Tid) (t : Tid) : Prop :=
  AboutToTake (s.pc t) ∨ s.ipc.mode t = .waiting (.inr .readers)

/-- A thread at this place will test the counters, get the lock, or wake. -/
def Helps (mode : RwMode) : RwPc → Prop
  | .entering _ | .initing _ | .locking _ | .locked _ | .testing _ | .acquiring _ | .deciding
  | .waking _ _ => True
  | .taking _ => mode = .outside ∨ ∃ o, mode = .ended o .eok
  | .relocking _ err | .relocked _ err | .waited _ err => err = .eok
  | _ => False

/-- There is a unit for the readers, or a thread that helps. -/
def HelpIsNear (s : RwSys Tid) : Prop :=
  (s.ipc.sem .readers).value > 0 ∨ ∃ u, Helps (s.ipc.mode u) (s.pc u)

/-- While the lock is free and no writer is counted, help is near for the readers. -/
def Helped (s : RwSys Tid) : Prop :=
  s.refcount = 0 → s.nwaitwriters = 0 → ∀ u, Pending s u → s.HelpIsNear

/-- The last waiting writer gives up beside a free lock only when help is near for the readers. -/
def GivesUpAt (s : RwSys Tid) : RwPc → Prop
  | .waited op err => op.isWrite = true → err ≠ .eok → s.refcount = 0 → s.nwaitwriters = 1 →
      ∀ u, Pending s u → s.HelpIsNear
  | _ => True

@[inherit_doc GivesUpAt] def GivesUpWell (s : RwSys Tid) : RwAction Tid → Prop
  | .go t _ => s.GivesUpAt (s.pc t)
  | _ => True

/-- When the lock is free, no writer waits and no thread can run in a function, no reader is
blocked. -/
def NoneStranded (s : RwSys Tid) : Prop :=
  s.refcount = 0 → (∀ t, ¬ InWait true (s.pc t)) →
    (∀ t, s.pc t = .outside ∨ ∃ o, s.ipc.mode t = .waiting o) →
      ∀ t, s.ipc.mode t ≠ .waiting (.inr .readers)

/-! ### Help -/

theorem Helped.of_helps (t : Tid) (h : Helps (s.ipc.mode t) (s.pc t)) : s.Helped :=
  fun _ _ _ _ => .inr ⟨t, h⟩

theorem HelpIsNear.of_eq (h : s.HelpIsNear) (hpc : s'.pc = update s.pc t pc')
    (hsem : (s.ipc.sem .readers).value > 0 → (s'.ipc.sem .readers).value > 0)
    (hnot : ¬ Helps (s.ipc.mode t) (s.pc t))
    (hmode : ∀ u ≠ t, s'.ipc.mode u = s.ipc.mode u ∨
      ∃ o, s.ipc.mode u = .waiting o ∧ s'.ipc.mode u = .ended o .eok) : s'.HelpIsNear := by
  refine h.imp hsem fun ⟨u, hu⟩ => ⟨u, ?_⟩
  have hut : u ≠ t := by
    rintro rfl
    exact hnot hu
  rw [hpc, update_of_ne hut]
  rcases hmode u hut with heq | ⟨o, hwait, hended⟩
  · rwa [heq]
  · rw [hended]
    rw [hwait] at hu
    generalize s.pc u = pc at hu
    cases pc with
    | taking op => exact .inr ⟨o, rfl⟩
    | _ => exact hu

theorem Pending.of_eq (h : Pending s' u) (hpc : s'.pc = update s.pc t pc') (hut : u ≠ t)
    (hmode : ∀ u ≠ t, s'.ipc.mode u = s.ipc.mode u ∨
      ∃ o, s.ipc.mode u = .waiting o ∧ s'.ipc.mode u = .ended o .eok) : Pending s u := by
  rw [Pending, hpc, update_of_ne hut] at h
  refine h.imp id fun hwait => ?_
  rcases hmode u hut with heq | ⟨o, -, hended⟩
  · rw [← heq, hwait]
  · rw [hended] at hwait
    cases hwait

theorem MutexInv.inWait_of_pending (hs : MutexInv s) (h : Pending s t) : InWait false (s.pc t) := by
  have hok := (hs.threads t).modeOk
  rcases h with htake | hwait
  · generalize s.pc t = pc at htake
    cases pc with
    | unlocked op => exact htake
    | _ => exact False.elim htake
  · rw [hwait] at hok
    generalize s.pc t = pc at hok
    cases pc with
    | taking op =>
      have hcond : RwCond.readers = op.cond := by simpa [ModeOk] using hok
      cases hop : op.isWrite with
      | true => simp [RwOp.cond, hop] at hcond
      | false => exact hop
    | _ => simp [ModeOk] at hok

theorem Helped.of_ne (h : s.refcount = 0 → s.nwaitwriters ≠ 0) : s.Helped :=
  fun hzero hww _ _ => absurd hww (h hzero)

theorem Helped.of_readersWait (h : s.readersWait) : s.Helped := by
  refine .of_ne fun hzero hww => ?_
  rcases h with hneg | hpos
  · rw [hzero] at hneg
    exact absurd hneg (by decide)
  · omega

theorem Helped.transfer (hs : s.Helped) (hpc : s'.pc = update s.pc t pc')
    (hrefcount : s'.refcount = s.refcount) (hww : s'.nwaitwriters = s.nwaitwriters)
    (hsem : (s.ipc.sem .readers).value > 0 → (s'.ipc.sem .readers).value > 0)
    (hnot : ¬ Helps (s.ipc.mode t) (s.pc t))
    (hmode : ∀ u ≠ t, s'.ipc.mode u = s.ipc.mode u ∨
      ∃ o, s.ipc.mode u = .waiting o ∧ s'.ipc.mode u = .ended o .eok)
    (hself : Pending s' t → Pending s t) : s'.Helped := by
  intro hzero hww' u hu
  rw [hrefcount] at hzero
  rw [hww] at hww'
  have hpending : Pending s u := by
    by_cases hut : u = t
    · subst hut
      exact hself hu
    · exact hu.of_eq hpc hut hmode
  exact (hs hzero hww' u hpending).of_eq hpc hsem hnot hmode

theorem Helped.moved (hi : s.Inv) (hs : s.Helped) (hmove : Move s (s.pc t) pc')
    (heffect : Effect s t pc' ipc (s.pc t)) (hself : ThreadOk (ipc.mutex ()).owner t (ipc.mode t) pc') :
    Helped ({ s with ipc }.goto t pc') := by
  have hhelps : Helps (ipc.mode t) pc' → Helped ({ s with ipc }.goto t pc') := fun h =>
    .of_helps t (by simpa [goto] using h)
  have hwait : s.readersWait → Helped ({ s with ipc }.goto t pc') := fun h => .of_readersWait h
  have hww : s.nwaitwriters > 0 → Helped ({ s with ipc }.goto t pc') := fun h =>
    hwait (.inr h)
  have hmode : ∀ u ≠ t, ipc.mode u = s.ipc.mode u ∨
      ∃ o, s.ipc.mode u = .waiting o ∧ ipc.mode u = .ended o .eok := fun u hu =>
    mode_others heffect hu
  have htransfer : (ipc.sem .readers = s.ipc.sem .readers) → ¬ Helps (s.ipc.mode t) (s.pc t) →
      (AboutToTake pc' ∨ ipc.mode t = .waiting (.inr .readers) → Pending s t) →
      Helped ({ s with ipc }.goto t pc') := fun hsem hnot hself =>
    hs.transfer rfl rfl rfl (fun h => hsem ▸ h) hnot hmode fun h =>
      hself (by simpa [Pending, goto] using h)
  have hfact := hi.facts t
  generalize hpc : s.pc t = pc at hmove heffect hfact
  cases hmove with
  | enter op hinit => exact hhelps trivial
  | beginInit op hinit => exact hhelps trivial
  | lock op => exact hhelps trivial
  | locked op => exact hhelps trivial
  | mayRead op hop hne hwait => exact hhelps trivial
  | mayWrite op hop hwait => exact hhelps trivial
  | waitRead op hop h => exact hwait h
  | busyRead h => exact hwait h
  | waitWrite op hop h => exact .of_ne fun hzero => absurd hzero h
  | busyWrite h => exact .of_ne fun hzero => absurd hzero h
  | call op =>
    cases hop : op.isWrite with
    | false => exact hwait (hfact.1 hop)
    | true => exact hww (hfact.2 hop)
  | take op =>
    obtain ⟨waits, out, htake, hmutex, hsem, hpc'⟩ := heffect
    cases hop : op.isWrite with
    | true => exact hww (hi.waitwriters.pos (i := t) (by rw [hpc]; exact hop))
    | false =>
      cases htake with
      | taken hvalue hmode => exact hhelps (.inl (by rw [hmode, hi.mutex.mode_eq hpc fun _ h => h]))
      | waits hvalue hwaits hsem' hmode =>
        exact htransfer (by rw [hsem']) (by rw [hpc]; exact id) fun _ => .inl (by rw [hpc]; exact hop)
      | refused hvalue hwaits heq => exact absurd rfl (hpc'.1 rfl)
  | refused op =>
    obtain ⟨waits, out, htake, hmutex, hsem, hpc'⟩ := heffect
    have hout := hi.mutex.mode_eq hpc fun _ h => h
    cases htake with
    | taken hvalue hmode => exact absurd (hpc'.2 (by simp)) (by simp)
    | waits hvalue hwaits hsem' hmode => exact absurd (hpc'.2 (by simp)) (by simp)
    | refused hvalue hwaits heq =>
      refine htransfer (by rw [heq]) (by rw [hpc]; exact id) fun h => ?_
      rcases h with h | h
      · exact False.elim h
      · rw [heq, hout] at h
        cases h
  | taken op err =>
    obtain ⟨rfl, hended⟩ := heffect
    by_cases herr : err = .eok
    · exact hhelps herr
    · obtain ⟨o, ho⟩ : ∃ o, s.ipc.mode t = .ended o err :=
        (hended err rfl).resolve_left fun h => herr h.2
      refine htransfer rfl ?_ fun h => ?_
      · rw [hpc, ho]
        rintro (h | ⟨o', h⟩)
        · cases h
        · exact herr (Mode.ended.inj h).2
      · simp [AboutToTake] at h
  | relock op err =>
    by_cases herr : err = .eok
    · exact hhelps herr
    · refine htransfer (by rw [heffect.2]) (by rw [hpc]; exact herr) fun h => ?_
      have hok := hself.modeOk
      rcases h with h | h
      · exact False.elim h
      · rw [h] at hok
        simp [ModeOk] at hok
  | relocked op err =>
    by_cases herr : err = .eok
    · exact hhelps herr
    · obtain ⟨rfl, -⟩ := heffect
      refine htransfer rfl (by rw [hpc]; exact herr) fun h => ?_
      simp [AboutToTake] at h
  | decide =>
    obtain rfl : ipc = s.ipc := heffect
    by_cases hpos : s.nwaitwriters > 0
    · exact hww hpos
    by_cases hreaders : s.nwaitreaders > 0
    · refine .of_helps t ?_
      simp [goto, decision, hpos, hreaders, Helps]
    · -- no reader is counted, and so none is pending
      intro _ _ u hu
      have hout := hi.mutex.mode_eq hpc fun _ h => h
      have hut : u ≠ t := by
        rintro rfl
        simp [Pending, goto, decision, hpos, hreaders, AboutToTake, hout] at hu
      have hpending : Pending s u := hu.of_eq rfl hut fun _ _ => .inl rfl
      exact absurd (hi.waitreaders.pos (hi.mutex.inWait_of_pending hpending)) hreaders
  | wake σ all =>
    cases σ with
    | writers => exact hww hfact
    | readers =>
      obtain rfl : all = true := hfact
      have heffect : WaitSys.Broadcasts s.ipc ipc .readers := heffect
      exact fun _ _ _ _ => .inl heffect.value
  | leave op result =>
    have hok := hself.modeOk
    refine htransfer (by rw [heffect.2]) (by rw [hpc]; exact id) fun h => ?_
    rcases h with h | h
    · exact False.elim h
    · rw [h] at hok
      cases hok

/-- **A step keeps help near**, if a writer that gives up leaves no reader behind. -/
theorem Helped.step (hi : s.Inv) (hs : s.Helped) (hgives : GivesUpWell s a)
    (h : s.step a = some (s', out)) : s'.Helped := by
  cases outcome_of_step hi.mutex h with
  | call t op hpc => exact .of_helps t (by simp [goto, Helps])
  | moved t expired pc' ipc out hmove heffect hqueued hidle hplain hout =>
    exact hs.moved hi hmove heffect (hi.mutex.self hmove heffect)
  | init t expired op hpc => exact .of_helps t (by simp [goto, Helps])
  | release t expired hpc => exact .of_helps t (by simp [goto, Helps])
  | count t expired op hpc =>
    have hfact := hi.facts t
    rw [hpc] at hfact
    have hnonneg := hi.waitwriters.nonneg
    cases hop : op.isWrite with
    | true =>
      refine .of_ne fun _ => ?_
      simp only [goto, addWaits, hop, if_true]
      omega
    | false =>
      refine .of_readersWait ?_
      simpa [readersWait, goto, addWaits, hop] using hfact.1 hop
  | uncount t expired op err hpc =>
    have hout := hi.mutex.mode_eq hpc fun _ h => h
    by_cases herr : err = .eok
    · exact .of_helps t (by simp [goto, herr, Helps])
    · -- the thread gives up
      have hnot : ¬ Helps (s.ipc.mode t) (s.pc t) := by
        rw [hpc]
        exact herr
      rw [if_neg herr]
      have hself : ¬ Pending ((s.addWaits op (-1)).goto t (.leaving op (op.waitResult err))) t := by
        simp [Pending, goto, addWaits, AboutToTake, hout]
      cases hop : op.isWrite with
      | false =>
        refine hs.transfer rfl rfl (by simp [goto, addWaits, hop]) id hnot (fun _ _ => .inl rfl)
          fun h => absurd h hself
      | true =>
        intro hzero hww u hu
        have hone : s.nwaitwriters = 1 := by
          simp only [goto, addWaits, hop, if_true] at hww
          omega
        have hut : u ≠ t := by
          rintro rfl
          exact hself hu
        have hpending : Pending s u := hu.of_eq rfl hut fun _ _ => .inl rfl
        rw [GivesUpWell, hpc] at hgives
        exact (hgives hop herr hzero hone u hpending).of_eq rfl id hnot fun _ _ => .inl rfl
  | acquire t expired op hpc =>
    have hfact := hi.facts t
    rw [hpc] at hfact
    refine .of_ne fun hzero => absurd hzero ?_
    cases hop : op.isWrite with
    | true => simp [goto, acquire, hop]
    | false =>
      have hfree := hfact.1 hop
      simp only [goto, acquire, hop, Bool.false_eq_true, if_false]
      intro hnext
      have hneg : s.refcount = -1 := by bv_omega
      exact hfree (.inl (by rw [hneg]; decide))
  | interrupted t err op hpc hmode herr =>
    have hpc' : s.pc = update s.pc t (s.pc t) := (update_eq_self ..).symm
    refine hs.transfer hpc' rfl rfl id ?_ (fun u hut => .inl ?_) fun h => ?_
    · rw [hpc, hmode]
      simp [Helps]
    · simp [WaitSys.endWait, hut]
    · rcases h with h | h
      · exact .inl h
      · simp [WaitSys.endWait] at h

/-- A thread with help to give is waiting for the mutex only while another thread runs. -/
theorem MutexInv.runnable_of_helps (hs : MutexInv s) (h : Helps (s.ipc.mode u) (s.pc u)) :
    ∃ v, s.pc v ≠ .outside ∧ ∀ o, s.ipc.mode v ≠ .waiting o := by
  have hok := (hs.threads u).modeOk
  by_cases hwait : s.ipc.mode u = .waiting (.inl ())
  · -- the thread that has the mutex waits for nothing
    obtain ⟨v, hv⟩ := Option.ne_none_iff_exists'.1 (hs.held u hwait)
    have hhas := (hs.threads v).owner.1 hv
    have hok := (hs.threads v).modeOk
    refine ⟨v, fun hpc => by simp [hpc, Has] at hhas, fun o hmode => ?_⟩
    rw [hmode] at hhas hok
    generalize s.pc v = pc at hhas hok
    cases pc with
    | locked op | relocked op err => simp [Has] at hhas
    | taking op => exact hhas
    | _ => simp [ModeOk] at hok
  · refine ⟨u, fun hpc => by simp [hpc, Helps] at h, fun o hmode => ?_⟩
    rw [hmode] at h hok hwait
    generalize s.pc u = pc at h hok
    cases pc with
    | locked op | relocked op err => exact hwait (by simpa [ModeOk] using hok)
    | taking op => simp [Helps] at h
    | _ => simp [ModeOk] at hok

theorem NoneStranded.of_helped (hi : s.Inv) (hs : s.Helped) : s.NoneStranded := by
  intro hzero hnone hblocked t hmode
  have hww := hi.waitwriters.eq_zero hnone
  rcases hs hzero hww t (.inr hmode) with hvalue | ⟨u, hu⟩
  · have hmem := (hi.mutex.queued _ t).2 hmode
    rw [hi.mutex.idle _ hvalue] at hmem
    cases hmem
  · obtain ⟨v, hpc, hrun⟩ := hi.mutex.runnable_of_helps hu
    rcases hblocked v with hout | ⟨o, hwait⟩
    · exact hpc hout
    · exact hrun o hwait

/-- **No reader is stranded**, in every run in which no thread uses the lock while another one
initialises it, and a writer that gives up leaves no reader behind. -/
theorem run_noneStranded (initialised : Bool) {s : RwSys Tid} {tr : List (RwEvent Tid)}
    (h : Run step (fun s a => InitAlone s a ∧ GivesUpWell s a) (boot initialised) tr s) :
    s.NoneStranded := by
  have hinv : s.Inv ∧ s.Helped := by
    refine h.invariant (fun _ s => s.Inv ∧ s.Helped) ⟨inv_boot initialised, ?_⟩ ?_
    · rintro - - u (hu | hu)
      · exact False.elim hu
      · cases hu
    · rintro tr s a s' out ⟨hi, hs⟩ ⟨halone, hgives⟩ hstep
      exact ⟨hi.step halone hstep, hs.step hi hgives hstep⟩
  exact .of_helped hinv.1 hinv.2

instance (pc : RwPc) : Decidable (AboutToTake pc) :=
  match pc with
  | .unlocked op => inferInstanceAs (Decidable (op.isWrite = false))
  | .outside | .entering _ | .initing _ | .locking _ | .locked _ | .testing _ | .counting _
  | .calling _ | .taking _ | .relocking .. | .relocked .. | .waited .. | .acquiring _ | .deciding
  | .waking .. | .leaving .. => isFalse id

instance (s : RwSys Tid) (t : Tid) : Decidable (Pending s t) := inferInstanceAs (Decidable (_ ∨ _))

instance (mode : RwMode) (pc : RwPc) : Decidable (Helps mode pc) :=
  match pc, mode with
  | .taking _, .outside => isTrue (.inl rfl)
  | .taking _, .ended _ err => decidable_of_iff (err = .eok) (by simp [Helps])
  | .taking _, .unborn | .taking _, .waiting _ => isFalse (by simp [Helps])
  | .relocking _ err, _ | .relocked _ err, _ | .waited _ err, _ =>
    inferInstanceAs (Decidable (err = .eok))
  | .entering _, _ | .initing _, _ | .locking _, _ | .locked _, _ | .testing _, _ | .acquiring _, _
  | .deciding, _ | .waking .., _ => isTrue trivial
  | .outside, _ | .counting _, _ | .calling _, _ | .unlocked _, _ | .leaving .., _ => isFalse id

instance (s : RwSys Bool) : Decidable s.HelpIsNear := inferInstanceAs (Decidable (_ ∨ _))

instance (s : RwSys Bool) (a : RwAction Bool) : Decidable (GivesUpWell s a) := by
  cases a with
  | go t expired =>
    dsimp only [GivesUpWell]
    cases s.pc t <;> dsimp only [GivesUpAt] <;> infer_instance
  | _ => exact isTrue trivial

/-- `false` waits to read, and reads when `true` has unlocked the lock. -/
def writeThenRead : List (RwAction Bool) :=
  RwAction.call true .wrlock :: List.replicate 6 (.go true false) ++
  RwAction.call false .rdlock :: List.replicate 7 (.go false false) ++
  RwAction.call true .unlock :: List.replicate 7 (.go true false) ++
  List.replicate 7 (RwAction.go false false)

theorem noneStranded_writeThenRead : ∃ (s : RwSys Bool), s.NoneStranded ∧ s.readHolders = [false] ∧
    s.nwaitreaders = 0 := by
  have hrun : Run step (fun s a => InitAlone s a ∧ GivesUpWell s a) (boot true : RwSys Bool) _ _ :=
    Run.of_exec (rfl : exec step (fun s a => InitAlone s a ∧ GivesUpWell s a)
      (boot true : RwSys Bool) writeThenRead = some (_, _))
  exact ⟨_, run_noneStranded true hrun, by decide, by decide⟩

/-- Thread 0 reads, thread 1 waits to write for some time, and thread 2 waits to read behind it.
The time passes when thread 0 unlocks the lock, so that its signal finds nobody. -/
def signalTooLate : List (RwAction (Fin 3)) :=
  RwAction.call 0 .rdlock :: List.replicate 6 (.go 0 false) ++
  RwAction.call 1 .timedwrlock :: List.replicate 7 (.go 1 false) ++
  RwAction.call 2 .rdlock :: List.replicate 7 (.go 2 false) ++
  RwAction.call 0 .unlock :: List.replicate 4 (.go 0 false) ++
  RwAction.wake 1 .etimeout :: List.replicate 3 (.go 0 false) ++
  List.replicate 5 (RwAction.go 1 false)

/-- Thread 1 gives up and wakes nobody. -/
theorem not_noneStranded : ¬ ∀ (initialised : Bool) (s : RwSys (Fin 3))
    (tr : List (RwEvent (Fin 3))),
    Run step (fun s a => HolderUnlocks s a ∧ InitAlone s a) (boot initialised) tr s →
      s.NoneStranded := by
  intro hall
  have hrun : Run step (fun s a => HolderUnlocks s a ∧ InitAlone s a)
      (boot true : RwSys (Fin 3)) _ _ :=
    Run.of_exec (rfl : exec step (fun s a => HolderUnlocks s a ∧ InitAlone s a)
      (boot true : RwSys (Fin 3)) signalTooLate = some (_, _))
  refine hall true _ _ hrun (by decide) (fun t => ?_) (fun t => ?_) 2 (by decide)
  · fin_cases t
    · exact id
    · exact id
    · exact Bool.false_ne_true
  · fin_cases t
    · exact .inl rfl
    · exact .inl rfl
    · exact .inr ⟨_, rfl⟩

end RwSys

end RtThread
