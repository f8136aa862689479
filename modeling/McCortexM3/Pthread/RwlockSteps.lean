import McCortexM3.Pthread.Rwlock

/-!
# The steps of a read-write lock

What a step can do, said once: a thread moves on and leaves the counters alone, or makes one of the
changes of the counters that the functions make.  The mutex keeps the places apart at which the
counters are read and changed.

## Main definitions

* `RwSys.Move`, `RwSys.Effect` — a thread moves on, and what its call does to the kernel's objects.
* `RwSys.Outcome` — what a step can do.
* `RwSys.MutexInv` — the mutex belongs to the thread whose place says so.

## Main results

* `RwSys.outcome_of_step` — a step does nothing else.
* `RwSys.MutexInv.step` — every step keeps the mutex right.
-/

set_option linter.all false

namespace RtThread

open Function Option
open Function (update)

/-- What a wait of the functions is for: the mutex, or a semaphore. -/
abbrev RwMode := Mode (Unit ⊕ RwCond)

namespace RwSys

variable {Tid : Type} [DecidableEq Tid] {s s' : RwSys Tid} {t u : Tid} {pc pc' : RwPc} {op : RwOp}
  {err : RtErr} {ipc : WaitSys Tid Unit RwCond} {mode : RwMode} {out : List (RwEvent Tid)}

/-! ### The mutex -/

/-- Whether a thread at this place has the mutex. -/
def Has (mode : RwMode) : RwPc → Prop
  | .locked _ | .relocked _ _ => mode = .outside ∨ mode = .ended (.inl ()) .eok
  | .testing _ | .counting _ | .calling _ | .waited _ _ | .acquiring _ | .deciding | .waking _ _
  | .leaving _ _ => True
  | _ => False

/-- What a thread at this place may wait for. -/
def ModeOk (mode : RwMode) : RwPc → Prop
  | .locked _ | .relocked _ _ =>
    mode = .outside ∨ mode = .waiting (.inl ()) ∨ mode = .ended (.inl ()) .eok
  | .taking op => mode = .outside ∨ mode = .waiting (.inr op.cond) ∨
      ∃ err, mode = .ended (.inr op.cond) err
  | _ => mode = .outside

/-- A thread waits as its place says, and owns the mutex if its place says so. -/
structure ThreadOk (owner : Option Tid) (t : Tid) (mode : RwMode) (pc : RwPc) : Prop where
  modeOk : ModeOk mode pc
  owner : owner = some t ↔ Has mode pc

/-- The mutex belongs to the thread whose place says so. -/
structure MutexInv (s : RwSys Tid) : Prop where
  queued : s.ipc.Queued
  idle : s.ipc.SemIdle
  plain : s.ipc.Plain ()
  threads : ∀ t, ThreadOk (s.ipc.mutex ()).owner t (s.ipc.mode t) (s.pc t)
  held : ∀ t, s.ipc.mode t = .waiting (.inl ()) → (s.ipc.mutex ()).owner ≠ none

/-! ### Moves -/

/-- A thread moves on and leaves the counters alone. -/
inductive Move (s : RwSys Tid) : RwPc → RwPc → Prop
  | enter (op : RwOp) (h : s.initialised = true) : Move s (.entering op) (.locking op)
  | beginInit (op : RwOp) (h : s.initialised = false) : Move s (.entering op) (.initing op)
  | lock (op : RwOp) : Move s (.locking op) (.locked op)
  | locked (op : RwOp) : Move s (.locked op) (.testing op)
  | waitRead (op : RwOp) (hop : op = .rdlock ∨ op = .timedrdlock) (h : s.readersWait) :
    Move s (.testing op) (.counting op)
  | waitWrite (op : RwOp) (hop : op = .wrlock ∨ op = .timedwrlock) (h : s.refcount ≠ 0) :
    Move s (.testing op) (.counting op)
  | busyRead (h : s.readersWait) : Move s (.testing .tryrdlock) (.leaving .tryrdlock .ebusy)
  | busyWrite (h : s.refcount ≠ 0) : Move s (.testing .trywrlock) (.leaving .trywrlock .ebusy)
  | mayRead (op : RwOp) (hop : op.isWrite = false) (hne : op ≠ .unlock) (h : ¬ s.readersWait) :
    Move s (.testing op) (.acquiring op)
  | mayWrite (op : RwOp) (hop : op.isWrite = true) (h : s.refcount = 0) :
    Move s (.testing op) (.acquiring op)
  | call (op : RwOp) : Move s (.calling op) (.unlocked op)
  | take (op : RwOp) : Move s (.unlocked op) (.taking op)
  | refused (op : RwOp) : Move s (.unlocked op) (.relocking op .etimeout)
  | taken (op : RwOp) (err : RtErr) : Move s (.taking op) (.relocking op err)
  | relock (op : RwOp) (err : RtErr) : Move s (.relocking op err) (.relocked op err)
  | relocked (op : RwOp) (err : RtErr) : Move s (.relocked op err) (.waited op err)
  | decide : Move s .deciding s.decision
  | wake (σ : RwCond) (all : Bool) : Move s (.waking σ all) (.leaving .unlock .ok)
  | leave (op : RwOp) (result : RwResult) : Move s (.leaving op result) .outside

/-- What the thread's call does to the kernel's objects. -/
def Effect (s : RwSys Tid) (t : Tid) (pc' : RwPc) (ipc : WaitSys Tid Unit RwCond) : RwPc → Prop
  | .locking _ | .relocking _ _ => WaitSys.LockStep s.ipc ipc t () ∧ ipc.sem = s.ipc.sem
  | .calling _ | .leaving _ _ => WaitSys.UnlockStep s.ipc ipc () ∧ ipc.sem = s.ipc.sem
  | .locked _ | .relocked _ _ =>
    ipc = { s.ipc with mode := update s.ipc.mode t .outside } ∧
      (s.ipc.mode t = .outside ∨ s.ipc.mode t = .ended (.inl ()) .eok)
  | .taking op => ipc = { s.ipc with mode := update s.ipc.mode t .outside } ∧
      ∀ err, pc' = .relocking op err →
        s.ipc.mode t = .outside ∧ err = .eok ∨ ∃ o, s.ipc.mode t = .ended o err
  | .unlocked op => ∃ waits out, WaitSys.SemTakeStep s.ipc ipc t op.cond waits out ∧
      ipc.mutex = s.ipc.mutex ∧ (∀ τ ≠ op.cond, ipc.sem τ = s.ipc.sem τ) ∧
        (pc' = .taking op ↔ out ≠ [.semTake op.cond .etimeout])
  | .waking σ true => WaitSys.Broadcasts s.ipc ipc σ
  | .waking σ false => WaitSys.SignalStep s.ipc ipc σ ∧ ipc.mutex = s.ipc.mutex
  | _ => ipc = s.ipc

/-- What a step can do. -/
inductive Outcome (s : RwSys Tid) : RwAction Tid → RwSys Tid → List (RwEvent Tid) → Prop
  | call (t : Tid) (op : RwOp) (hpc : s.pc t = .outside) :
    Outcome s (.call t op) (s.goto t (.entering op)) []
  | moved (t : Tid) (expired : Bool) (pc' : RwPc) (ipc : WaitSys Tid Unit RwCond)
    (out : List (RwEvent Tid)) (hmove : Move s (s.pc t) pc') (heffect : Effect s t pc' ipc (s.pc t))
    (hqueued : ipc.Queued) (hidle : ipc.SemIdle) (hplain : ipc.Plain ())
    (hout : ∀ e ∈ out, ∃ op result, e = .returned t op result) :
    Outcome s (.go t expired) ({ s with ipc }.goto t pc') out
  | init (t : Tid) (expired : Bool) (op : RwOp) (hpc : s.pc t = .initing op) :
    Outcome s (.go t expired) (s.init.goto t (.locking op)) []
  | release (t : Tid) (expired : Bool) (hpc : s.pc t = .testing .unlock) :
    Outcome s (.go t expired) ((s.release t).goto t .deciding) [.released t]
  | count (t : Tid) (expired : Bool) (op : RwOp) (hpc : s.pc t = .counting op) :
    Outcome s (.go t expired) ((s.addWaits op 1).goto t (.calling op)) []
  | uncount (t : Tid) (expired : Bool) (op : RwOp) (err : RtErr) (hpc : s.pc t = .waited op err) :
    Outcome s (.go t expired) ((s.addWaits op (-1)).goto t
      (if err = .eok then .testing op else .leaving op (op.waitResult err))) []
  | acquire (t : Tid) (expired : Bool) (op : RwOp) (hpc : s.pc t = .acquiring op) :
    Outcome s (.go t expired) ((s.acquire t op).goto t (.leaving op .ok))
      [.acquired t op.isWrite s.nwaitwriters]
  | interrupted (t : Tid) (err : RtErr) (op : RwOp) (hpc : s.pc t = .taking op)
    (hmode : s.ipc.mode t = .waiting (.inr op.cond)) (herr : err ≠ .eok) :
    Outcome s (.wake t err) { s with ipc := s.ipc.endWait t (.inr op.cond) err } []

theorem move_test (s : RwSys Tid) (t : Tid) (hop : op ≠ .unlock) :
    ∃ pc', Move s (.testing op) pc' ∧ s.test t op = (s.goto t pc', []) := by
  cases op with
  | rdlock | timedrdlock =>
    by_cases hwait : s.readersWait
    · exact ⟨_, .waitRead _ (by simp) hwait, by dsimp only [test]; rw [if_pos hwait]⟩
    · exact ⟨_, .mayRead _ rfl (by simp) hwait, by dsimp only [test]; rw [if_neg hwait]⟩
  | tryrdlock =>
    by_cases hwait : s.readersWait
    · exact ⟨_, .busyRead hwait, by dsimp only [test]; rw [if_pos hwait]⟩
    · exact ⟨_, .mayRead _ rfl (by simp) hwait, by dsimp only [test]; rw [if_neg hwait]⟩
  | wrlock | timedwrlock =>
    by_cases hwait : s.refcount ≠ 0
    · exact ⟨_, .waitWrite _ (by simp) hwait, by dsimp only [test]; rw [if_pos hwait]⟩
    · exact ⟨_, .mayWrite _ rfl (not_not.1 hwait), by dsimp only [test]; rw [if_neg hwait]⟩
  | trywrlock =>
    by_cases hwait : s.refcount ≠ 0
    · exact ⟨_, .busyWrite hwait, by dsimp only [test]; rw [if_pos hwait]⟩
    · exact ⟨_, .mayWrite _ rfl (not_not.1 hwait), by dsimp only [test]; rw [if_neg hwait]⟩
  | unlock => exact absurd rfl hop

section

variable (hs : MutexInv s) (hpc : s.pc t = pc)
include hs hpc

theorem MutexInv.mode_eq (h : ∀ mode : RwMode, ModeOk mode pc → mode = .outside) :
    s.ipc.mode t = .outside :=
  h _ (hpc ▸ (hs.threads t).modeOk)

theorem MutexInv.owner_eq (h : ∀ mode : RwMode, Has mode pc) : (s.ipc.mutex ()).owner = some t :=
  (hs.threads t).owner.2 (hpc ▸ h _)

theorem MutexInv.owner_ne (h : ∀ mode : RwMode, ¬ Has mode pc) : (s.ipc.mutex ()).owner ≠ some t :=
  fun hown => h _ (hpc ▸ (hs.threads t).owner.1 hown)

/-- The result of `rt_mutex_take` in a lock: there is no error. -/
theorem MutexInv.resume (hlocking : ∀ mode : RwMode, ModeOk mode pc →
      mode = .outside ∨ mode = .waiting (.inl ()) ∨ mode = .ended (.inl ()) .eok)
    {r : WaitSys Tid Unit RwCond × RtErr} (hr : s.ipc.resume t = some r) :
    r.2 = .eok ∧ r.1 = { s.ipc with mode := update s.ipc.mode t .outside } ∧
      (s.ipc.mode t = .outside ∨ s.ipc.mode t = .ended (.inl ()) .eok) := by
  obtain ⟨hipc, hmode⟩ := WaitSys.resume_spec hr
  rcases hmode with ⟨hout, heok⟩ | ⟨o, hended⟩
  · exact ⟨heok, hipc, .inl hout⟩
  · rcases hlocking _ (hpc ▸ (hs.threads t).modeOk) with h | h | h
    · simp [h] at hended
    · simp [h] at hended
    · rw [h] at hended
      exact ⟨(Mode.ended.inj hended).2.symm, hipc, .inr h⟩

end

/-- **A step does nothing else.** -/
theorem outcome_of_step (hs : MutexInv s) {a : RwAction Tid} (h : s.step a = some (s', out)) :
    Outcome s a s' out := by
  cases a with
  | call t op =>
    simp only [step, ite_none_right_eq_some] at h
    obtain ⟨hpc, h⟩ := h
    cases h
    exact .call t op hpc
  | wake t err =>
    simp only [step, ite_none_right_eq_some] at h
    obtain ⟨hend, h⟩ := h
    obtain ⟨ipc, hipc, heq⟩ := map_eq_some_iff.1 h
    cases heq
    cases hpc : s.pc t with
    | taking op =>
      have hwaits : ∃ o, s.ipc.mode t = .waiting o ∧ err ≠ .eok ∧ ipc = s.ipc.endWait t o err := by
        obtain ⟨out, ho⟩ := WaitSys.outcome_of_next hipc
        cases ho with
        | wake _ o _ hmode herr => exact ⟨o, hmode, herr, rfl⟩
      obtain ⟨o, hmode, herr, rfl⟩ := hwaits
      have hok := (hs.threads t).modeOk
      rw [hpc, hmode] at hok
      obtain rfl : o = .inr op.cond := by simpa [ModeOk] using hok
      exact .interrupted t err op hpc hmode herr
    | _ => simp [hpc, CanEnd] at hend
  | go t expired =>
    simp only [step] at h
    have hnone : ∀ e ∈ ([] : List (RwEvent Tid)), ∃ op result, e = .returned t op result := by simp
    cases hpc : s.pc t with
    | outside => simp [hpc, go] at h
    | entering op =>
      simp only [hpc, go] at h
      cases h
      split
      · next hinit =>
        exact .moved t expired (.locking op) s.ipc [] (hpc ▸ .enter op hinit) (by rw [hpc]; rfl)
          hs.queued hs.idle hs.plain hnone
      · next hinit =>
        exact .moved t expired (.initing op) s.ipc []
          (hpc ▸ .beginInit op (by simpa using hinit)) (by rw [hpc]; rfl)
          hs.queued hs.idle hs.plain hnone
    | initing op =>
      simp only [hpc, go] at h
      cases h
      exact .init t expired op hpc
    | locking op =>
      have hmode : s.ipc.mode t = .outside := hs.mode_eq hpc fun _ h => h
      obtain ⟨b, hb, hnext, hlock, hplain, hsem⟩ := WaitSys.lock_spec hs.plain hmode
        (hs.owner_ne hpc fun _ h => h)
      simp only [hpc, go, hb, map_some] at h
      cases h
      exact .moved t expired (.locked op) b [] (hpc ▸ .lock op) (by rw [hpc]; exact ⟨hlock, hsem⟩)
        (hs.queued.next hnext) (hs.idle.next hnext) hplain hnone
    | locked op =>
      simp only [hpc, go] at h
      obtain ⟨r, hr, heq⟩ := map_eq_some_iff.1 h
      obtain ⟨hok, hipc⟩ := hs.resume hpc (fun _ h => h) hr
      rw [if_pos hok] at heq
      cases heq
      exact .moved t expired (.testing op) r.1 [] (hpc ▸ .locked op) (by rw [hpc]; exact hipc)
        (hs.queued.resume hr) (hs.idle.resume hr) (hs.plain.congr (by rw [hipc.1])) hnone
    | testing op =>
      simp only [hpc, go] at h
      by_cases hop : op = .unlock
      · subst hop
        cases h
        exact .release t expired hpc
      · obtain ⟨pc', hmove, heq⟩ := move_test s t hop
        rw [heq] at h
        cases h
        exact .moved t expired pc' s.ipc [] (hpc ▸ hmove) (by rw [hpc]; rfl) hs.queued hs.idle
          hs.plain hnone
    | counting op =>
      simp only [hpc, go] at h
      cases h
      exact .count t expired op hpc
    | calling op =>
      have hmode : s.ipc.mode t = .outside := hs.mode_eq hpc fun _ h => h
      have howner := hs.owner_eq hpc fun _ => trivial
      obtain ⟨b, hb, hnext, hunlock, hplain, hsem⟩ :=
        WaitSys.unlock_spec hs.plain hs.queued hmode howner
      simp only [hpc, go, wait, howner, hb, ne_eq, not_true_eq_false, if_false, if_true,
        map_some] at h
      cases h
      exact .moved t expired (.unlocked op) b [] (hpc ▸ .call op)
        (by rw [hpc]; exact ⟨hunlock, hsem⟩) (hs.queued.next hnext) (hs.idle.next hnext) hplain hnone
    | unlocked op =>
      have hmode : s.ipc.mode t = .outside := hs.mode_eq hpc fun _ h => h
      obtain ⟨b, out', hb, htake, hmutex, hsem⟩ := WaitSys.semTake_spec (σ := op.cond) hmode
        (!(op.isTimed && expired))
      have hnext : s.ipc.next (.semTake (some t) op.cond (!(op.isTimed && expired))) = some b := by
        rw [WaitSys.next, hb]
        rfl
      simp only [hpc, go, semTake, hb, map_some] at h
      cases h
      by_cases hrefused : out' = [IpcEvent.semTake op.cond .etimeout]
      · rw [if_pos hrefused]
        exact .moved t expired _ b [] (hpc ▸ .refused op)
          (by rw [hpc]; exact ⟨_, out', htake, hmutex, hsem, by simp [hrefused]⟩)
          (hs.queued.next hnext) (hs.idle.next hnext) (hs.plain.congr hmutex) hnone
      · rw [if_neg hrefused]
        exact .moved t expired _ b [] (hpc ▸ .take op)
          (by rw [hpc]; exact ⟨_, out', htake, hmutex, hsem, by simp [hrefused]⟩)
          (hs.queued.next hnext) (hs.idle.next hnext) (hs.plain.congr hmutex) hnone
    | taking op =>
      simp only [hpc, go] at h
      obtain ⟨r, hr, heq⟩ := map_eq_some_iff.1 h
      cases heq
      obtain ⟨hipc, hmode⟩ := WaitSys.resume_spec hr
      refine .moved t expired (.relocking op r.2) r.1 [] (hpc ▸ .taken op r.2) ?_
        (hs.queued.resume hr) (hs.idle.resume hr) (hs.plain.congr (by rw [hipc])) hnone
      rw [hpc]
      refine ⟨hipc, fun err herr => ?_⟩
      obtain ⟨-, rfl⟩ := RwPc.relocking.inj herr
      exact hmode
    | relocking op err =>
      have hmode : s.ipc.mode t = .outside := hs.mode_eq hpc fun _ h => h
      obtain ⟨b, hb, hnext, hlock, hplain, hsem⟩ := WaitSys.lock_spec hs.plain hmode
        (hs.owner_ne hpc fun _ h => h)
      simp only [hpc, go, hb, map_some] at h
      cases h
      exact .moved t expired (.relocked op err) b [] (hpc ▸ .relock op err)
        (by rw [hpc]; exact ⟨hlock, hsem⟩) (hs.queued.next hnext) (hs.idle.next hnext) hplain hnone
    | relocked op err =>
      simp only [hpc, go] at h
      obtain ⟨r, hr, heq⟩ := map_eq_some_iff.1 h
      cases heq
      obtain ⟨-, hipc⟩ := hs.resume hpc (fun _ h => h) hr
      exact .moved t expired (.waited op err) r.1 [] (hpc ▸ .relocked op err)
        (by rw [hpc]; exact hipc) (hs.queued.resume hr) (hs.idle.resume hr)
        (hs.plain.congr (by rw [hipc.1])) hnone
    | waited op err =>
      simp only [hpc, go] at h
      cases h
      exact .uncount t expired op err hpc
    | acquiring op =>
      simp only [hpc, go] at h
      cases h
      exact .acquire t expired op hpc
    | deciding =>
      simp only [hpc, go] at h
      cases h
      exact .moved t expired s.decision s.ipc [] (hpc ▸ .decide) (by rw [hpc]; rfl) hs.queued
        hs.idle hs.plain hnone
    | waking σ all =>
      simp only [hpc, go] at h
      obtain ⟨ipc, hipc, heq⟩ := map_eq_some_iff.1 h
      cases heq
      cases all with
      | true =>
        have hb : s.ipc.pthreadCondBroadcast σ = some ipc := hipc
        obtain ⟨b, hb', hends⟩ := WaitSys.broadcast_spec (σ := σ) hs.queued hs.idle
        obtain rfl := some.inj (hb.symm.trans hb')
        exact .moved t expired _ ipc [] (hpc ▸ .wake σ true) (by rw [hpc]; exact hends)
          (hs.queued.broadcast hb) (hs.idle.broadcast hb) (hs.plain.congr hends.mutex) hnone
      | false =>
        have hb : s.ipc.pthreadCondSignal σ = some ipc := hipc
        obtain ⟨b, hb', hsignal, hmutex⟩ := WaitSys.signal_spec (σ := σ) hs.queued
        obtain rfl := some.inj (hb.symm.trans hb')
        exact .moved t expired _ ipc [] (hpc ▸ .wake σ false) (by rw [hpc]; exact ⟨hsignal, hmutex⟩)
          (hs.queued.next hb) (hs.idle.next hb) (hs.plain.congr hmutex) hnone
    | leaving op result =>
      have hmode : s.ipc.mode t = .outside := hs.mode_eq hpc fun _ h => h
      obtain ⟨b, hb, hnext, hunlock, hplain, hsem⟩ :=
        WaitSys.unlock_spec hs.plain hs.queued hmode (hs.owner_eq hpc fun _ => trivial)
      simp only [hpc, go, hb, map_some] at h
      cases h
      exact .moved t expired .outside b _ (hpc ▸ .leave op result)
        (by rw [hpc]; exact ⟨hunlock, hsem⟩) (hs.queued.next hnext) (hs.idle.next hnext) hplain
        (by simp)

/-! ### The mutex after a step -/

theorem ThreadOk.ended {owner : Option Tid} {σ : RwCond}
    (h : ThreadOk owner u (.waiting (.inr σ)) pc) (err : RtErr) :
    ThreadOk owner u (.ended (.inr σ) err) pc := by
  obtain ⟨hok, hown⟩ := h
  cases pc with
  | taking op =>
    obtain rfl : σ = op.cond := by simpa [ModeOk] using hok
    exact ⟨.inr (.inr ⟨err, rfl⟩), hown⟩
  | _ => simp [ModeOk] at hok

theorem MutexInv.others (hs : MutexInv s) (h : Effect s t pc' ipc (s.pc t)) (hu : u ≠ t) :
    ThreadOk (ipc.mutex ()).owner u (ipc.mode u) (s.pc u) := by
  have hthread := hs.threads u
  have hsame : ipc.mutex = s.ipc.mutex → ipc.mode u = s.ipc.mode u →
      ThreadOk (ipc.mutex ()).owner u (ipc.mode u) (s.pc u) := by
    intro hmutex hmode
    rwa [hmutex, hmode]
  have hlock : WaitSys.LockStep s.ipc ipc t () →
      ThreadOk (ipc.mutex ()).owner u (ipc.mode u) (s.pc u) := by
    intro hlock
    cases hlock with
    | taken hfree howner hmode =>
      rw [hmode]
      refine ⟨hthread.modeOk, ?_⟩
      rw [← hthread.owner, howner, hfree]
      simp [hu.symm]
    | waits hheld howner hmode =>
      rwa [howner, hmode, update_of_ne hu]
  have hunlock : (s.ipc.mutex ()).owner = some t → WaitSys.UnlockStep s.ipc ipc () →
      ThreadOk (ipc.mutex ()).owner u (ipc.mode u) (s.pc u) := by
    intro hown hunlock
    have hnot : ¬ Has (s.ipc.mode u) (s.pc u) := fun hhas => by
      rw [← hthread.owner, hown] at hhas
      exact hu (some.inj hhas).symm
    cases hunlock with
    | freed howner hmode hnone =>
      rw [howner, hmode]
      exact ⟨hthread.modeOk, by simpa using hnot⟩
    | handed n hn howner hmode =>
      rw [howner, hmode]
      by_cases hun : u = n
      · subst hun
        rw [update_self]
        have hok := hthread.modeOk
        rw [hn] at hok
        -- only a thread in `rt_mutex_take` waits for the mutex
        cases hpc : s.pc u with
        | locked op | relocked op err => exact ⟨.inr (.inr rfl), by simp [Has]⟩
        | _ => simp [hpc, ModeOk] at hok
      · rw [update_of_ne hun]
        refine ⟨hthread.modeOk, ?_⟩
        simpa [Ne.symm hun] using hnot
  cases hpc : s.pc t with
  | locking op =>
    rw [hpc] at h
    exact hlock h.1
  | relocking op err =>
    rw [hpc] at h
    exact hlock h.1
  | calling op | leaving op result =>
    rw [hpc] at h
    exact hunlock (hs.owner_eq hpc fun _ => trivial) h.1
  | locked op | relocked op err | taking op =>
    rw [hpc] at h
    obtain ⟨rfl, -⟩ := h
    exact hsame rfl (update_of_ne hu ..)
  | unlocked op =>
    rw [hpc] at h
    obtain ⟨waits, out, htake, hmutex, -⟩ := h
    cases htake with
    | taken hvalue hmode => exact hsame hmutex (by rw [hmode])
    | waits hvalue hwaits hsem hmode => exact hsame hmutex (by rw [hmode, update_of_ne hu])
    | refused hvalue hwaits heq => exact hsame hmutex (by rw [heq])
  | waking σ all =>
    rw [hpc] at h
    cases all with
    | true =>
      have h : WaitSys.Broadcasts s.ipc ipc σ := h
      rw [h.mutex, h.mode u]
      split
      · next hwaits =>
        rw [hwaits] at hthread
        exact hthread.ended .eok
      · exact hthread
    | false =>
      obtain ⟨hsignal, hmutex⟩ := h
      cases hsignal with
      | stored hmode hsem => exact hsame hmutex (by rw [hmode])
      | woken n hn hmode hsem =>
        by_cases hun : u = n
        · subst hun
          rw [hn] at hthread
          rw [hmutex, hmode, update_self]
          exact hthread.ended .eok
        · exact hsame hmutex (by rw [hmode, update_of_ne hun])
  | _ =>
    rw [hpc] at h
    obtain rfl : ipc = s.ipc := h
    exact hthread

theorem mode_others (h : Effect s t pc' ipc (s.pc t)) (hu : u ≠ t) :
    ipc.mode u = s.ipc.mode u ∨ ∃ o, s.ipc.mode u = .waiting o ∧ ipc.mode u = .ended o .eok := by
  have hown : ∀ {mode : RwMode}, ipc.mode = update s.ipc.mode t mode →
      ipc.mode u = s.ipc.mode u := fun hmode => by rw [hmode, update_of_ne hu]
  have hwoken : ∀ {n : Tid} {o : Unit ⊕ RwCond}, s.ipc.mode n = .waiting o →
      ipc.mode = update s.ipc.mode n (.ended o .eok) →
      ipc.mode u = s.ipc.mode u ∨ ∃ o, s.ipc.mode u = .waiting o ∧ ipc.mode u = .ended o .eok := by
    intro n o hn hmode
    by_cases hun : u = n
    · subst hun
      exact .inr ⟨o, hn, by rw [hmode, update_self]⟩
    · exact .inl (by rw [hmode, update_of_ne hun])
  have hlock : WaitSys.LockStep s.ipc ipc t () → ipc.mode u = s.ipc.mode u := by
    rintro (⟨hfree, howner, hmode⟩ | ⟨hheld, howner, hmode⟩)
    · rw [hmode]
    · exact hown hmode
  have hunlock : WaitSys.UnlockStep s.ipc ipc () →
      ipc.mode u = s.ipc.mode u ∨ ∃ o, s.ipc.mode u = .waiting o ∧ ipc.mode u = .ended o .eok := by
    rintro (⟨howner, hmode, hnone⟩ | ⟨n, hn, howner, hmode⟩)
    · exact .inl (by rw [hmode])
    · exact hwoken hn hmode
  generalize s.pc t = pc at h
  cases pc with
  | locking op | relocking op err => exact .inl (hlock h.1)
  | calling op | leaving op result => exact hunlock h.1
  | locked op | relocked op err =>
    obtain ⟨rfl, -⟩ := h
    exact .inl (hown rfl)
  | taking op =>
    obtain ⟨rfl, -⟩ := h
    exact .inl (hown rfl)
  | unlocked op =>
    obtain ⟨waits, out, htake, -⟩ := h
    cases htake with
    | taken hvalue hmode => exact .inl (by rw [hmode])
    | waits hvalue hwaits hsem hmode => exact .inl (hown hmode)
    | refused hvalue hwaits heq => exact .inl (by rw [heq])
  | waking σ all =>
    cases all with
    | true =>
      have h : WaitSys.Broadcasts s.ipc ipc σ := h
      rw [h.mode u]
      split
      · next hwaits => exact .inr ⟨_, hwaits, rfl⟩
      · exact .inl rfl
    | false =>
      obtain ⟨⟨n, hn, hmode, hsem⟩ | ⟨hmode, hsem⟩, hmutex⟩ := h
      · exact hwoken hn hmode
      · exact .inl (by rw [hmode])
  | _ =>
    obtain rfl : ipc = s.ipc := h
    exact .inl rfl

theorem MutexInv.self (hs : MutexInv s) (hmove : Move s (s.pc t) pc')
    (h : Effect s t pc' ipc (s.pc t)) : ThreadOk (ipc.mutex ()).owner t (ipc.mode t) pc' := by
  -- at a place where the kernel's objects stay as they are
  have hstay : ∀ {pc}, s.pc t = pc → (∀ mode : RwMode, ModeOk mode pc → mode = .outside) →
      ipc = s.ipc → ModeOk .outside pc' → (Has .outside pc ↔ Has .outside pc') →
      ThreadOk (ipc.mutex ()).owner t (ipc.mode t) pc' := by
    rintro pc hpc hmode rfl hok hhas
    have hthread := hs.threads t
    have hout := hs.mode_eq hpc hmode
    rw [hpc, hout] at hthread
    rw [hout]
    exact ⟨hok, hthread.owner.trans hhas⟩
  have hlock : s.ipc.mode t = .outside → WaitSys.LockStep s.ipc ipc t () →
      (∀ mode : RwMode, ModeOk mode pc' ↔
        mode = .outside ∨ mode = .waiting (.inl ()) ∨ mode = .ended (.inl ()) .eok) →
      (∀ mode : RwMode, Has mode pc' ↔ mode = .outside ∨ mode = .ended (.inl ()) .eok) →
      (s.ipc.mutex ()).owner ≠ some t → ThreadOk (ipc.mutex ()).owner t (ipc.mode t) pc' := by
    intro hout hlock hok hhas hne
    cases hlock with
    | taken hfree howner hmode =>
      rw [howner, hmode, hout]
      exact ⟨(hok _).2 (.inl rfl), by simp [hhas]⟩
    | waits hheld howner hmode =>
      rw [howner, hmode, update_self]
      exact ⟨(hok _).2 (.inr (.inl rfl)), by simp [hhas, hne]⟩
  have hunlock : s.ipc.mode t = .outside → WaitSys.UnlockStep s.ipc ipc () →
      ModeOk .outside pc' → ¬ Has .outside pc' → ThreadOk (ipc.mutex ()).owner t (ipc.mode t) pc' := by
    intro hout hunlock hok hhas
    cases hunlock with
    | freed howner hmode hnone =>
      rw [howner, hmode, hout]
      exact ⟨hok, by simpa using hhas⟩
    | handed n hn howner hmode =>
      have hnt : n ≠ t := by
        rintro rfl
        rw [hout] at hn
        cases hn
      rw [howner, hmode, update_of_ne hnt.symm, hout]
      exact ⟨hok, by simpa [hnt] using hhas⟩
  have hgranted : ∀ {pc}, s.pc t = pc →
      ipc = { s.ipc with mode := update s.ipc.mode t .outside } →
      (s.ipc.mode t = .outside ∨ s.ipc.mode t = .ended (.inl ()) .eok → Has (s.ipc.mode t) pc) →
      (s.ipc.mode t = .outside ∨ s.ipc.mode t = .ended (.inl ()) .eok) →
      ModeOk .outside pc' → Has .outside pc' → ThreadOk (ipc.mutex ()).owner t (ipc.mode t) pc' := by
    rintro pc hpc rfl hhas hgranted hok hhas'
    have hthread := hs.threads t
    rw [hpc] at hthread
    simp only [update_self]
    exact ⟨hok, iff_of_true (hthread.owner.2 (hhas hgranted)) hhas'⟩
  generalize hpc : s.pc t = pc at hmove h
  cases hmove with
  | enter op hinit => exact hstay hpc (fun _ h => h) h rfl Iff.rfl
  | beginInit op hinit => exact hstay hpc (fun _ h => h) h rfl Iff.rfl
  | lock op | relock op err =>
    exact hlock (hs.mode_eq hpc fun _ h => h) h.1 (fun _ => Iff.rfl) (fun _ => Iff.rfl)
      (hs.owner_ne hpc fun _ h => h)
  | locked op => exact hgranted hpc h.1 (fun hhas => hhas) h.2 rfl trivial
  | relocked op err => exact hgranted hpc h.1 (fun hhas => hhas) h.2 rfl trivial
  | waitRead op hop hwait => exact hstay hpc (fun _ h => h) h rfl Iff.rfl
  | waitWrite op hop hwait => exact hstay hpc (fun _ h => h) h rfl Iff.rfl
  | busyRead hwait => exact hstay hpc (fun _ h => h) h rfl Iff.rfl
  | busyWrite hwait => exact hstay hpc (fun _ h => h) h rfl Iff.rfl
  | mayRead op hop hne hwait => exact hstay hpc (fun _ h => h) h rfl Iff.rfl
  | mayWrite op hop hwait => exact hstay hpc (fun _ h => h) h rfl Iff.rfl
  | call op => exact hunlock (hs.mode_eq hpc fun _ h => h) h.1 rfl id
  | take op =>
    obtain ⟨waits, out, htake, hmutex, -⟩ := h
    have hout := hs.mode_eq hpc fun _ h => h
    have hne := hs.owner_ne hpc fun _ h => h
    rw [hmutex]
    cases htake with
    | taken hvalue hmode =>
      rw [hmode, hout]
      exact ⟨.inl rfl, iff_of_false hne id⟩
    | waits hvalue hwaits hsem hmode =>
      rw [hmode, update_self]
      exact ⟨.inr (.inl rfl), iff_of_false hne id⟩
    | refused hvalue hwaits heq =>
      rw [heq, hout]
      exact ⟨.inl rfl, iff_of_false hne id⟩
  | refused op =>
    obtain ⟨waits, out, htake, hmutex, -, hpc'⟩ := h
    have hout := hs.mode_eq hpc fun _ h => h
    have hne := hs.owner_ne hpc fun _ h => h
    cases htake with
    | taken hvalue hmode => exact absurd (hpc'.2 (by simp)) (by simp)
    | waits hvalue hwaits hsem hmode => exact absurd (hpc'.2 (by simp)) (by simp)
    | refused hvalue hwaits heq =>
      rw [hmutex, heq, hout]
      exact ⟨rfl, iff_of_false hne id⟩
  | taken op err =>
    obtain ⟨rfl, -⟩ := h
    simp only [update_self]
    exact ⟨rfl, iff_of_false (hs.owner_ne hpc fun _ h => h) id⟩
  | decide =>
    have hok : ModeOk .outside s.decision ∧ Has .outside s.decision := by
      unfold decision
      split
      · split <;> exact ⟨rfl, trivial⟩
      · split <;> exact ⟨rfl, trivial⟩
    exact hstay hpc (fun _ h => h) h hok.1 (iff_of_true trivial hok.2)
  | wake σ all =>
    have hout := hs.mode_eq hpc fun _ h => h
    have hown := hs.owner_eq hpc fun _ => trivial
    cases all with
    | true =>
      have h : WaitSys.Broadcasts s.ipc ipc σ := h
      rw [h.mutex, h.mode t, hout, if_neg (by simp)]
      exact ⟨rfl, iff_of_true hown trivial⟩
    | false =>
      obtain ⟨hsignal, hmutex⟩ := h
      cases hsignal with
      | stored hmode hsem =>
        rw [hmutex, hmode, hout]
        exact ⟨rfl, iff_of_true hown trivial⟩
      | woken n hn hmode hsem =>
        have hnt : t ≠ n := by
          rintro rfl
          rw [hout] at hn
          cases hn
        rw [hmutex, hmode, update_of_ne hnt, hout]
        exact ⟨rfl, iff_of_true hown trivial⟩
  | leave op result => exact hunlock (hs.mode_eq hpc fun _ h => h) h.1 rfl id

theorem MutexInv.held_effect (hs : MutexInv s) (h : Effect s t pc' ipc (s.pc t)) (u : Tid)
    (hu : ipc.mode u = .waiting (.inl ())) : (ipc.mutex ()).owner ≠ none := by
  -- a call that is not about the mutex leaves the wait and the owner
  have hkeep : ipc.mutex = s.ipc.mutex → (u = t → ipc.mode u ≠ .waiting (.inl ())) →
      (ipc.mutex ()).owner ≠ none := by
    intro hmutex hself
    have hut : u ≠ t := fun heq => hself heq hu
    rw [hmutex]
    refine hs.held u ?_
    rcases mode_others h hut with hmode | ⟨o, -, hmode⟩
    · rw [← hmode, hu]
    · rw [hmode] at hu
      cases hu
  have hlock : WaitSys.LockStep s.ipc ipc t () → (ipc.mutex ()).owner ≠ none := by
    rintro (⟨hfree, howner, hmode⟩ | ⟨hheld, howner, hmode⟩)
    · simp [howner]
    · rwa [howner]
  have hunlock : WaitSys.UnlockStep s.ipc ipc () → (ipc.mutex ()).owner ≠ none := by
    rintro (⟨howner, hmode, hnone⟩ | ⟨n, hn, howner, hmode⟩)
    · exact absurd (by rw [← hmode, hu]) (hnone u)
    · simp [howner]
  have hthread := hs.threads t
  generalize hpc : s.pc t = pc at h hthread
  cases pc with
  | locking op | relocking op err => exact hlock h.1
  | calling op | leaving op result => exact hunlock h.1
  | locked op | relocked op err | taking op =>
    obtain ⟨rfl, -⟩ := h
    exact hkeep rfl fun heq => by simp [heq]
  | unlocked op =>
    obtain ⟨waits, out, htake, hmutex, -⟩ := h
    have hout : s.ipc.mode t = .outside := hthread.modeOk
    refine hkeep hmutex ?_
    rintro rfl
    cases htake with
    | taken hvalue hmode => simp [hmode, hout]
    | waits hvalue hwaits hsem hmode => simp [hmode]
    | refused hvalue hwaits heq => simp [heq, hout]
  | waking σ all =>
    have hout : s.ipc.mode t = .outside := hthread.modeOk
    cases all with
    | true =>
      have h : WaitSys.Broadcasts s.ipc ipc σ := h
      refine hkeep h.mutex ?_
      rintro rfl
      simp [h.mode, hout]
    | false =>
      obtain ⟨hsignal, hmutex⟩ := h
      refine hkeep hmutex ?_
      rintro rfl
      rcases hsignal with ⟨n, hn, hmode, hsem⟩ | ⟨hmode, hsem⟩
      · have hne : u ≠ n := by
          rintro rfl
          rw [hout] at hn
          cases hn
        simp [hmode, hne, hout]
      · simp [hmode, hout]
  | _ =>
    obtain rfl : ipc = s.ipc := h
    exact hs.held u hu

theorem MutexInv.of_eq (hs : MutexInv s) (hipc : s'.ipc = s.ipc)
    (hpc' : s'.pc = update s.pc t pc') (hpc : s.pc t = pc)
    (hmode : ∀ mode : RwMode, ModeOk mode pc → mode = .outside) (hok : ModeOk .outside pc')
    (hhas : Has .outside pc ↔ Has .outside pc') : MutexInv s' := by
  refine ⟨by rw [hipc]; exact hs.queued, by rw [hipc]; exact hs.idle, by rw [hipc]; exact hs.plain,
    fun u => ?_, by rw [hipc]; exact hs.held⟩
  have hthread := hs.threads u
  rw [hipc, hpc']
  by_cases hut : u = t
  · subst hut
    have hout := hs.mode_eq hpc hmode
    rw [hpc, hout] at hthread
    rw [update_self, hout]
    exact ⟨hok, hthread.owner.trans hhas⟩
  · rwa [update_of_ne hut]

/-- **A step keeps the mutex right**, if `pthread_rwlock_init` finds an initialised lock's objects. -/
theorem MutexInv.outcome (hs : MutexInv s) {a : RwAction Tid} (ho : Outcome s a s' out)
    (hinit : ∀ t op, s.pc t = .initing op → initObjects s.ipc = s.ipc) : MutexInv s' := by
  cases ho with
  | call t op hpc => exact hs.of_eq rfl rfl hpc (fun _ h => h) rfl Iff.rfl
  | moved t expired pc' ipc out hmove heffect hqueued hidle hplain hout =>
    refine ⟨hqueued, hidle, hplain, fun u => ?_, hs.held_effect heffect⟩
    by_cases hut : u = t
    · subst hut
      have hself := hs.self hmove heffect
      simpa [goto] using hself
    · have hother := hs.others heffect hut
      simpa [goto, update_of_ne hut] using hother
  | init t expired op hpc =>
    exact hs.of_eq (hinit t op hpc) rfl hpc (fun _ h => h) rfl Iff.rfl
  | release t expired hpc => exact hs.of_eq rfl rfl hpc (fun _ h => h) rfl Iff.rfl
  | count t expired op hpc => exact hs.of_eq rfl rfl hpc (fun _ h => h) rfl Iff.rfl
  | uncount t expired op err hpc =>
    refine hs.of_eq rfl rfl hpc (fun _ h => h) ?_ ?_
    · split <;> rfl
    · split <;> exact Iff.rfl
  | acquire t expired op hpc => exact hs.of_eq rfl rfl hpc (fun _ h => h) rfl Iff.rfl
  | interrupted t err op hpc hmode herr =>
    refine ⟨hs.queued.endWait t _ err, hs.idle.endWait _ err, hs.plain.congr rfl, fun u => ?_, ?_⟩
    · have hthread := hs.threads u
      by_cases hut : u = t
      · subst hut
        rw [hmode] at hthread
        simpa [WaitSys.endWait] using hthread.ended err
      · simpa [WaitSys.endWait, hut] using hthread
    · intro u hu
      refine hs.held u ?_
      by_cases hut : u = t
      · subst hut
        simp [WaitSys.endWait] at hu
      · simpa [WaitSys.endWait, hut] using hu

end RwSys

end RtThread
