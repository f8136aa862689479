import McCortexM3.Ipc.Mailbox
import Mathlib.Data.Fintype.Card

/-!
# No wake-up of a mailbox is lost

Each mail that is sent wakes one receiver, if one waits, and a woken receiver that finds the
mailbox empty again waits anew.  While receivers wait there are, for every mail, woken
receivers that have not run yet; and while senders wait, woken senders for every free slot.

## Main definitions

* `MbSys.Woken`, `MbSys.woken` — the threads that have been resumed and have not run again.
* `MbSys.Awake` — the invariant.

## Main results

* `MbSys.awake_step` — every step keeps the invariant.
* `MbSys.run_noLostWakeup` — it holds in every state of every run.
-/

set_option linter.all false

namespace RtThread

open Option Nat
open View (link rtIpcListResume rtThreadResume setLife unlink)

namespace MbSys

variable {Tid : Type} [DecidableEq Tid]

/-- A thread that was in the list `o` has been resumed by a call of the other side, and has
not run again. -/
def Woken (s : MbSys Tid) (o : MbList) (t : Tid) : Prop :=
  (s.pc t).waitsFor = some o ∧ s.threads.life t = .live ∧ s.threads.error t = .eok

instance (s : MbSys Tid) (o : MbList) (t : Tid) : Decidable (s.Woken o t) :=
  inferInstanceAs (Decidable (_ ∧ _ ∧ _))

/-- The number of those threads. -/
def woken [Fintype Tid] (s : MbSys Tid) (o : MbList) : ℕ :=
  (Finset.univ.filter fun t => s.Woken o t).card

section Woken

variable [Fintype Tid] {s s' : MbSys Tid} {o : MbList} {t : Tid}

theorem woken_mono (h : ∀ u, s.Woken o u → s'.Woken o u) : s.woken o ≤ s'.woken o := by
  apply Finset.card_le_card
  intro u hu
  rw [Finset.mem_filter] at hu ⊢
  exact ⟨hu.1, h u hu.2⟩

theorem woken_gain (h : ∀ u, s.Woken o u → s'.Woken o u) (ht : ¬ s.Woken o t)
    (ht' : s'.Woken o t) : s.woken o + 1 ≤ s'.woken o := by
  refine Finset.card_lt_card (Finset.ssubset_iff_of_subset ?_ |>.2 ⟨t, ?_, ?_⟩)
  · intro u hu
    rw [Finset.mem_filter] at hu ⊢
    exact ⟨hu.1, h u hu.2⟩
  · simpa using ht'
  · simpa using ht

theorem woken_leave (h : ∀ u, u ≠ t → s.Woken o u → s'.Woken o u) : s.woken o ≤ s'.woken o + 1 := by
  refine (Finset.card_le_card ?_).trans (Finset.card_insert_le t _)
  intro u hu
  rw [Finset.mem_filter] at hu
  rw [Finset.mem_insert, Finset.mem_filter]
  by_cases hut : u = t
  · exact .inl hut
  · exact .inr ⟨hu.1, h u hut hu.2⟩

end Woken

/-! ### What the parts of a call do -/

section Parts

variable {s : MbSys Tid} {o o' : MbList} {t u : Tid} {caller : Option Tid}

theorem waitsFor_goto (s : MbSys Tid) (t : Tid) (pc : MbPc) :
    (fun u => ((s.goto (some t) pc).pc u).waitsFor) =
      Function.update (fun u => (s.pc u).waitsFor) t pc.waitsFor :=
  Function.comp_update MbPc.waitsFor s.pc t pc

theorem Woken.goto (h : s.Woken o u) (hu : caller ≠ some u) (pc : MbPc) :
    (s.goto caller pc).Woken o u := by
  cases caller with
  | none => exact h
  | some t =>
    have hne : u ≠ t := fun he => hu (congrArg some he.symm)
    simpa [MbSys.goto, Woken, hne] using h

theorem Woken.setError (h : s.Woken o u) (caller : Option Tid) (hu : caller ≠ some u)
    (err : RtErr) : (s.setError caller err).Woken o u := by
  cases caller with
  | none => exact h
  | some t =>
    have hne : u ≠ t := fun he => hu (congrArg some he.symm)
    simpa [MbSys.setError, Woken, View.setError, hne] using h

theorem Woken.resumeFirst (h : s.Woken o u) (o' : MbList) : (s.resumeFirst o').Woken o u := by
  obtain ⟨hw, hlife, herror⟩ := h
  rw [MbSys.resumeFirst, rtIpcListResume]
  split
  · next t rest hqueue =>
    refine ⟨hw, ?_, herror⟩
    by_cases hu : u = t
    · subst hu
      simp [rtThreadResume, setLife]
    · simpa [rtThreadResume, setLife, unlink, hu] using hlife
  · exact ⟨hw, hlife, herror⟩

theorem woken_resumeFirst (h : s.threads.Parked fun u => (s.pc u).waitsFor) {rest : List Tid}
    (hqueue : s.threads.queue o = t :: rest) :
    ¬ s.Woken o t ∧ (s.resumeFirst o).Woken o t := by
  obtain ⟨hlife, hw⟩ := (h.queued o t).1 (by simp [hqueue])
  refine ⟨?_, ?_⟩
  · intro hwoken
    have hlive := hwoken.2.1
    rw [hlife] at hlive
    cases hlive
  · rw [MbSys.resumeFirst, rtIpcListResume, hqueue]
    exact ⟨hw, by simp [rtThreadResume, setLife], h.error t hlife⟩

theorem queue_resumeFirst (h : (s.resumeFirst o).threads.queue o' ≠ []) :
    s.threads.queue o' ≠ [] := by
  rw [MbSys.resumeFirst, rtIpcListResume] at h
  split at h
  · next t rest hqueue =>
    intro hnil
    exact h (by simp [rtThreadResume, setLife, unlink, hnil])
  · exact h

section

variable (h : s.threads.Parked fun u => (s.pc u).waitsFor)
include h

theorem parked_resumeFirst (o : MbList) :
    (s.resumeFirst o).threads.Parked fun u => (s.pc u).waitsFor := by
  rw [MbSys.resumeFirst, rtIpcListResume]
  split
  · exact h.resume _
  · exact h

theorem parked_goto (hlive : ∀ t, caller = some t → s.threads.life t = .live) (pc : MbPc) :
    (s.goto caller pc).threads.Parked fun u => ((s.goto caller pc).pc u).waitsFor := by
  cases caller with
  | none => exact h
  | some t =>
    rw [waitsFor_goto]
    exact h.goto (by simp [hlive t rfl]) _

theorem parked_setError (hlive : ∀ t, caller = some t → s.threads.life t = .live) (err : RtErr) :
    (s.setError caller err).threads.Parked fun u => ((s.setError caller err).pc u).waitsFor := by
  cases caller with
  | none => exact h
  | some t => exact h.setError (by simp [hlive t rfl]) err

end

end Parts

/-! ### The invariant -/

/-- What the threads of a list wait for: the mails of the mailbox, or its free slots. -/
def available (mb : Mailbox) : MbList → ℕ
  | .receivers => mb.entry.toNat
  | .senders => mb.size.toNat - mb.entry.toNat

variable [Fintype Tid] {s s' : MbSys Tid} {out : List MbEvent} {caller : Option Tid} {o o' : MbList}

/-- While threads wait in a list, there are woken threads of the list for everything that
they wait for. -/
structure Awake (s : MbSys Tid) : Prop where
  parked : s.threads.Parked fun u => (s.pc u).waitsFor
  ok : s.mb.Ok
  awake : ∀ o, s.threads.queue o ≠ [] → available s.mb o ≤ s.woken o

/-- The caller of a function is outside every call, or is a woken thread of the list `o`. -/
def CallerOf (s : MbSys Tid) (o : MbList) (caller : Option Tid) : Prop :=
  ∀ t, caller = some t → s.threads.life t = .live ∧
    ((s.pc t).waitsFor = none ∨ (s.pc t).waitsFor = some o)

theorem CallerOf.live (h : s.CallerOf o caller) :
    ∀ t, caller = some t → s.threads.life t = .live := fun t ht => (h t ht).1

theorem CallerOf.ne {u : Tid} (h : s.CallerOf o caller) (ho : o ≠ o') (hu : s.Woken o' u) :
    caller ≠ some u := by
  intro he
  rcases (h u he).2 with hw | hw
  · rw [hu.1] at hw
    cases hw
  · rw [hu.1] at hw
    exact ho (some_inj.1 hw.symm)

theorem awake_suspend (h : s.Awake) {pc : UInt32 → MbPc} (hc : s.CallerOf o caller)
    (hpc : ∀ tick, (pc tick).waitsFor = some o) (hnothing : available s.mb o = 0)
    (hs : s.suspend caller o pc = some (s', out)) : s'.Awake := by
  obtain ⟨t, rfl, he⟩ := map_eq_some_iff.1 hs
  cases he
  have hlive := (hc t rfl).1
  refine ⟨?_, h.ok, ?_⟩
  · rw [waitsFor_goto, hpc]
    exact h.parked.suspend hlive o s.mb.flag
  · intro o' hne
    by_cases ho : o = o'
    · subst ho
      rw [mb_goto, hnothing]
      exact Nat.zero_le _
    · have hqueue : ((s.threads.setError t .eok).rtIpcListSuspend o t s.mb.flag).queue o' =
          s.threads.queue o' := by
        simp [View.rtIpcListSuspend, link, setLife, View.setError, Ne.symm ho]
      have hne' : s.threads.queue o' ≠ [] := by rwa [← hqueue]
      refine (h.awake o' hne').trans (woken_mono ?_)
      intro u hu
      have hut : u ≠ t := fun he => hc.ne ho hu (congrArg some he.symm)
      obtain ⟨hw, hlife, herror⟩ := hu
      refine Woken.goto (s := { s with
        threads := (s.threads.setError t .eok).rtIpcListSuspend o t s.mb.flag })
        ⟨hw, ?_, ?_⟩ (fun he => hut (some_inj.1 he.symm)) _
      · simpa [View.rtIpcListSuspend, link, setLife, View.setError, hut] using hlife
      · simpa [View.rtIpcListSuspend, link, setLife, View.setError, hut] using herror

theorem awake_fail (h : s.Awake) (hc : s.CallerOf o caller) (err : RtErr)
    (hnothing : available s.mb o = 0) :
    ((s.setError caller err).goto caller .outside).Awake := by
  have hlive : ∀ t, caller = some t → (s.setError caller err).threads.life t = .live := by
    intro t ht
    subst ht
    exact hc.live t rfl
  refine ⟨parked_goto (parked_setError h.parked hc.live err) hlive _, ?_, ?_⟩
  · simpa using h.ok
  · intro o' hne
    rw [mb_goto, mb_setError]
    by_cases ho : o = o'
    · subst ho
      rw [hnothing]
      exact Nat.zero_le _
    · have hne' : s.threads.queue o' ≠ [] := by
        cases caller <;> exact hne
      exact (h.awake o' hne').trans (woken_mono fun u hu =>
        (hu.setError caller (hc.ne ho hu) err).goto (hc.ne ho hu) _)

/-- A call that succeeds takes one of what its list waits for, leaves one of what the other
list waits for, and wakes a thread there. -/
theorem awake_pass (h : s.Awake) (hc : s.CallerOf o caller) (ho : o ≠ o')
    (hlists : ∀ l, l = o ∨ l = o') {mb : Mailbox} (hok : mb.Ok)
    (htake : available mb o + 1 = available s.mb o)
    (hleave : available mb o' = available s.mb o' + 1) :
    ((({ s with mb := mb }).resumeFirst o').goto caller .outside).Awake := by
  have hlive : ∀ t, caller = some t →
      (({ s with mb := mb }).resumeFirst o').threads.life t = .live := by
    intro t ht
    rw [resumeFirst, rtIpcListResume]
    split
    · next u rest hqueue =>
      by_cases hu : t = u
      · subst hu
        simp [rtThreadResume, setLife]
      · simpa [rtThreadResume, setLife, unlink, hu] using hc.live t ht
    · exact hc.live t ht
  have hparked : (({ s with mb := mb }).resumeFirst o').threads.Parked
      fun u => (s.pc u).waitsFor := parked_resumeFirst (s := { s with mb := mb }) h.parked o'
  refine ⟨parked_goto (s := ({ s with mb := mb }).resumeFirst o') hparked hlive _, ?_, ?_⟩
  · rw [mb_goto]
    exact hok
  · intro l hne
    have hne' : s.threads.queue l ≠ [] := by
      apply queue_resumeFirst (s := { s with mb := mb }) (o := o')
      cases caller <;> exact hne
    have hold := h.awake l hne'
    rw [mb_goto]
    show available mb l ≤ _
    rcases hlists l with rfl | rfl
    · -- the caller may have been one of the woken threads
      have hleft : s.woken l ≤
          ((({ s with mb := mb }).resumeFirst o').goto caller .outside).woken l + 1 := by
        cases caller with
        | none =>
          exact (woken_mono fun u hu => Woken.resumeFirst (s := { s with mb := mb }) hu o').trans
            (le_succ _)
        | some t =>
          exact woken_leave (t := t) fun u hut hu =>
            (Woken.resumeFirst (s := { s with mb := mb }) hu o').goto
              (fun he => hut (some_inj.1 he.symm)) _
      omega
    · -- one more thread is woken
      cases hqueue : s.threads.queue l with
      | nil => exact absurd hqueue hne'
      | cons next rest =>
        obtain ⟨hnot, hwoken⟩ := woken_resumeFirst (s := { s with mb := mb }) h.parked hqueue
        have hcaller : caller ≠ some next := by
          intro he
          have hblocked := ((h.parked.queued l next).1 (by simp [hqueue])).1
          rw [hc.live next he] at hblocked
          cases hblocked
        have hgain : s.woken l + 1 ≤
            ((({ s with mb := mb }).resumeFirst l).goto caller .outside).woken l :=
          woken_gain (fun u hu => (Woken.resumeFirst (s := { s with mb := mb }) hu l).goto
            (hc.ne ho hu) _) hnot (hwoken.goto hcaller _)
        omega

theorem awake_sendLoop (h : s.Awake) (hc : s.CallerOf .senders caller) {value : UInt32}
    {timeout : Int32} (hs : s.sendLoop caller value timeout = some (s', out)) : s'.Awake := by
  rw [sendLoop] at hs
  split at hs
  · next hfull =>
    have hnothing : available s.mb .senders = 0 := by simp [available, hfull]
    split at hs
    · cases hs
      exact awake_fail h hc .eok hnothing
    · exact awake_suspend h hc (fun _ => rfl) hnothing hs
  · next hfull =>
    cases hs
    have hlt : s.mb.entry.toNat < s.mb.size.toNat :=
      lt_of_le_of_ne h.ok.entry_le fun he => hfull (UInt16.toNat_inj.1 he)
    have hput := Mailbox.entry_put hlt value
    have hsize : (s.mb.put value).size = s.mb.size := rfl
    refine awake_pass h hc (by decide) (fun l => by cases l <;> simp) (h.ok.put hfull value).1 ?_ ?_
    · simp only [available, hput, hsize]
      omega
    · simp only [available, hput]

theorem awake_recvLoop (h : s.Awake) (hc : s.CallerOf .receivers caller)
    {timeout : Int32} (hs : s.recvLoop caller timeout = some (s', out)) : s'.Awake := by
  rw [recvLoop] at hs
  split at hs
  · next hempty =>
    have hnothing : available s.mb .receivers = 0 := by simp [available, hempty]
    split at hs
    · cases hs
      exact awake_fail h hc .etimeout hnothing
    · exact awake_suspend h hc (fun _ => rfl) hnothing hs
  · next hempty =>
    cases hs
    have hget := Mailbox.entry_get hempty
    have hle := h.ok.entry_le
    have hsize : s.mb.get.size = s.mb.size := rfl
    refine awake_pass h hc (by decide) (fun l => by cases l <;> simp) (h.ok.get hempty).1 ?_ ?_
    · simpa only [available] using hget
    · simp only [available, hsize]
      omega

theorem awake_frame (h : s.Awake) (hparked : s'.threads.Parked fun u => (s'.pc u).waitsFor)
    (hmb : s'.mb = s.mb) (hqueue : ∀ o, s'.threads.queue o ≠ [] → s.threads.queue o ≠ [])
    (hwoken : ∀ o u, s.Woken o u → s'.Woken o u) : s'.Awake := by
  refine ⟨hparked, hmb ▸ h.ok, ?_⟩
  intro o hne
  rw [hmb]
  exact (h.awake o (hqueue o hne)).trans (woken_mono (hwoken o))

theorem callerOf_of_canCall (hc : s.canCall caller = true) (o : MbList) : s.CallerOf o caller := by
  intro t ht
  subst ht
  rw [canCall, Bool.and_eq_true, decide_eq_true_iff, decide_eq_true_iff] at hc
  exact ⟨hc.1, .inl hc.2⟩

theorem awake_return (h : s.Awake) {t : Tid} (hlive : s.threads.life t = .live)
    (herror : s.threads.error t ≠ .eok) : (s.goto (some t) .outside).Awake := by
  have hcaller : ∀ u, some t = some u → s.threads.life u = .live := by
    rintro u ⟨⟩
    exact hlive
  apply awake_frame h (parked_goto h.parked hcaller _) rfl (fun o => id)
  intro o u hu
  refine hu.goto ?_ _
  rintro ⟨⟩
  exact herror hu.2.2

theorem awake_timeout (h : s.Awake) {t : Tid} (hblocked : s.threads.life t = .blocked) :
    Awake { s with threads := (s.threads.setError t .etimeout).rtThreadResume t } := by
  refine awake_frame h (h.parked.wake t .etimeout) rfl ?_ ?_
  · intro o hne hnil
    exact hne (by simp [rtThreadResume, setLife, unlink, View.setError, hnil])
  · intro o u hu
    obtain ⟨hw, hlife, herror⟩ := hu
    have hut : u ≠ t := by
      rintro rfl
      rw [hblocked] at hlife
      cases hlife
    exact ⟨hw, by simpa [rtThreadResume, setLife, unlink, View.setError, hut],
      by simpa [rtThreadResume, setLife, unlink, View.setError, hut]⟩

theorem awake_reset (h : s.Awake) :
    Awake { s with
      threads := (s.threads.resumeAll .receivers).resumeAll .senders
      mb := s.mb.reset } := by
  refine ⟨(h.parked.resumeAll _).resumeAll _, s.mb.ok_reset.1, ?_⟩
  intro o hne
  refine absurd ?_ hne
  have hempty : ∀ u, u ∉ ((s.threads.resumeAll .receivers).resumeAll .senders).queue o := by
    intro u hu
    cases o <;> simp [View.resumeAll] at hu <;> grind
  exact List.eq_nil_iff_forall_not_mem.2 hempty

/-- **Every step** keeps the invariant. -/
theorem awake_step {a : MbAction Tid} (h : s.Awake) (hs : s.step a = some (s', out)) :
    s'.Awake := by
  cases a with
  | send caller value timeout =>
    simp only [step, ite_none_right_eq_some] at hs
    obtain ⟨hc, hs⟩ := hs
    split at hs
    · cases hs
      exact h
    · exact awake_sendLoop h (callerOf_of_canCall hc _) hs
  | recv caller timeout =>
    simp only [step, ite_none_right_eq_some] at hs
    obtain ⟨hc, hs⟩ := hs
    split at hs
    · cases hs
      exact h
    · exact awake_recvLoop h (callerOf_of_canCall hc _) hs
  | again t =>
    simp only [step, ite_none_right_eq_some] at hs
    obtain ⟨hlive, hs⟩ := hs
    cases hpc : s.pc t with
    | outside =>
      rw [hpc] at hs
      cases hs
    | send value timeout tickDelta =>
      rw [hpc, again] at hs
      split at hs
      · next herror =>
        cases hs
        exact awake_return h hlive herror
      · refine awake_sendLoop h ?_ hs
        rintro u ⟨⟩
        exact ⟨hlive, .inr (by rw [hpc]; rfl)⟩
    | recv timeout tickDelta =>
      rw [hpc, again] at hs
      split at hs
      · next herror =>
        cases hs
        exact awake_return h hlive herror
      · refine awake_recvLoop h ?_ hs
        rintro u ⟨⟩
        exact ⟨hlive, .inr (by rw [hpc]; rfl)⟩
  | timeout t =>
    simp only [step, ite_none_right_eq_some] at hs
    obtain ⟨-, hs⟩ := hs
    obtain ⟨v, hv, he⟩ := map_eq_some_iff.1 hs
    cases he
    rw [View.rtThreadTimeout, ite_none_right_eq_some] at hv
    obtain ⟨hblocked, he⟩ := hv
    cases he
    exact awake_timeout h hblocked
  | reset =>
    cases hs
    exact awake_reset h
  | tick =>
    cases hs
    exact awake_frame h h.parked rfl (fun _ => id) fun _ _ => id

/-- In every state of every run: while receivers wait, at least as many receivers have been
woken and have not run again as there are mails; while senders wait, at least as many senders
as there are free slots.  So when no woken thread is pending, no receiver waits while there
is a mail, and no sender while there is a free slot. -/
theorem run_noLostWakeup (prio : Tid → ℕ) (msgPool : ℕ → UInt32) (size : UInt32) (flag : IpcFlag)
    (tr : List MbEvent) (s : MbSys Tid)
    (hrun : Run step (fun _ _ => True) (boot prio msgPool size flag) tr s) :
    (s.threads.queue .receivers ≠ [] → s.mb.entry.toNat ≤ s.woken .receivers) ∧
    (s.threads.queue .senders ≠ [] → s.mb.size.toNat - s.mb.entry.toNat ≤ s.woken .senders) ∧
    ((∀ o t, ¬ s.Woken o t) →
      (s.mb.entry.toNat > 0 → s.threads.queue .receivers = []) ∧
      (s.mb.entry.toNat < s.mb.size.toNat → s.threads.queue .senders = [])) := by
  have hinv : s.Awake := by
    refine hrun.invariant (fun _ s => s.Awake) ?_ fun h _ hs => awake_step h hs
    exact ⟨View.parked_idle .., ⟨Nat.zero_le _, zero_mod _, (zero_mod _).symm⟩,
      fun o hne => absurd rfl hne⟩
  have hzero : (∀ o t, ¬ s.Woken o t) → ∀ o, s.woken o = 0 := fun hnone o =>
    Finset.card_eq_zero.2 (Finset.filter_eq_empty_iff.2 fun t _ => hnone o t)
  refine ⟨hinv.awake .receivers, hinv.awake .senders, fun hnone => ⟨fun hpos => ?_, fun hlt => ?_⟩⟩
  · by_contra hne
    have hle : s.mb.entry.toNat ≤ s.woken .receivers := hinv.awake .receivers hne
    rw [hzero hnone] at hle
    omega
  · by_contra hne
    have hle : s.mb.size.toNat - s.mb.entry.toNat ≤ s.woken .senders := hinv.awake .senders hne
    rw [hzero hnone] at hle
    omega

/-- Two receivers wait, two mails are sent, and one of the woken receivers has not run. -/
def overtaken : List (MbAction (Fin 3)) :=
  [.recv (some 0) (-1), .recv (some 1) (-1), .recv (some 2) (-1), .send none 5 0, .send none 6 0,
    .again 1]

theorem run_noLostWakeup_overtaken :
    ∃ s : MbSys (Fin 3),
      s.threads.queue .receivers = [2] ∧ s.mb.entry.toNat = 1 ∧ s.woken .receivers = 1 ∧
        (s.threads.queue .receivers ≠ [] → s.mb.entry.toNat ≤ s.woken .receivers) := by
  have hsome : (exec step (fun _ _ => True) (boot (fun _ : Fin 3 => 10) (fun _ => 0) 2 .fifo)
      overtaken).any fun r => r.1.threads.queue .receivers = [2] ∧ r.1.mb.entry.toNat = 1 ∧
        r.1.woken .receivers = 1 := by
    decide +kernel
  obtain ⟨s, tr, hrun, hqueue, hentry, hwoken⟩ := Run.of_any hsome
  exact ⟨s, hqueue, hentry, hwoken,
    (run_noLostWakeup (fun _ : Fin 3 => 10) (fun _ => 0) 2 .fifo tr s hrun).1⟩

end MbSys

end RtThread
