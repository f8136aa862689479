import McCortexM3.Ipc.Refine

/-!
# The owner of a mutex and its holds

A thread owns a mutex from its outermost take to the matching release.  The takes are
counted when they succeed: a take that has waited succeeds when the mutex is handed over to
it, although its call returns later.

## Main definitions

* `IpcSys.takes`, `IpcSys.releases` — the successful takes and releases of a run.
* `IpcSys.MutexRight` — value, owner, hold, takes and releases of a mutex agree, and only the
  owner is told that it has the mutex.
* `IpcSys.NoHoldWrap` — no thread takes a mutex it holds 255 times.

## Main results

* `WaitSys.balanced_step` — what one operation does to a mutex.
* `IpcSys.run_mutexRight` — in every run whose takes do not wrap, the mutexes are right.
* `IpcSys.not_mutexRight_wrap` — 256 nested takes leave an owner with a hold of 0.
-/

set_option linter.all false

namespace RtThread

open Option List

/-! ### The waits -/

namespace WaitSys

variable {Tid M S : Type} [DecidableEq Tid] [DecidableEq M] [DecidableEq S]

/-- Whether `t` has been given `m` and its call has not yet returned. -/
def grants (a : WaitSys Tid M S) (t : Tid) (m : M) : ℕ :=
  if a.mode t = .ended (.inl m) .eok then 1 else 0

/-- No thread takes a mutex whose hold is 255 and that it owns. -/
def NoHoldWrap (a : WaitSys Tid M S) : WaitOp Tid M S → Prop
  | .mutexTake t m _ => (a.mutex m).owner = some t → (a.mutex m).hold ≠ 255
  | _ => True

/-- A free mutex has the value 1 and no hold, an owned one has the value 0 and holds, the
owner has as many more takes than releases as the hold says and the other threads have none, and
a thread that has been given the mutex owns it. -/
structure Balanced (tr : List (IpcEvent Tid M S)) (a : WaitSys Tid M S) (m : M) : Prop where
  free : (a.mutex m).owner = none → (a.mutex m).value = 1 ∧ (a.mutex m).hold = 0
  held : ∀ t, (a.mutex m).owner = some t → (a.mutex m).value = 0 ∧ (a.mutex m).hold ≠ 0
  balance : ∀ t, tr.count (.mutexTake t m .eok) + a.grants t m =
    tr.count (.mutexRelease t m .eok) +
      if (a.mutex m).owner = some t then (a.mutex m).hold.toNat else 0
  granted : ∀ t, a.mode t = .ended (.inl m) .eok → (a.mutex m).owner = some t

variable {tr out : List (IpcEvent Tid M S)} {a b : WaitSys Tid M S} {m : M} {t : Tid}

variable {prio : Tid → ℕ} {op : WaitOp Tid M S}

@[simp] theorem count_mutexTake_ownerEvents {m' : M} {x y : Option Tid} {err : RtErr} :
    (ownerEvents m' prio x y : List (IpcEvent Tid M S)).count (.mutexTake t m err) = 0 := by
  rw [count_eq_zero, ownerEvents]
  split <;> simp

@[simp] theorem count_mutexRelease_ownerEvents {m' : M} {x y : Option Tid} {err : RtErr} :
    (ownerEvents m' prio x y : List (IpcEvent Tid M S)).count (.mutexRelease t m err) = 0 := by
  rw [count_eq_zero, ownerEvents]
  split <;> simp

theorem grants_congr (h : b.mode t = a.mode t) : b.grants t m = a.grants t m := by
  rw [grants, grants, h]

theorem grants_eq_zero (h : a.mode t ≠ .ended (.inl m) .eok) : a.grants t m = 0 := if_neg h

/-- An operation that leaves the mutex alone, and only returns what has been granted. -/
theorem Balanced.same (h : Balanced tr a m) (hm : b.mutex m = a.mutex m)
    (htake : ∀ t, out.count (.mutexTake t m .eok) + b.grants t m = a.grants t m)
    (hrelease : ∀ t, out.count (.mutexRelease t m .eok) = 0) : Balanced (tr ++ out) b m := by
  refine ⟨by rw [hm]; exact h.free, by rw [hm]; exact h.held, ?_, ?_⟩
  · intro t
    have := h.balance t
    have := htake t
    have := hrelease t
    simp only [List.count_append, hm]
    omega
  · intro t ht
    rw [hm]
    apply h.granted t
    by_contra hne
    have := htake t
    rw [grants_eq_zero hne, grants, if_pos ht] at this
    omega

theorem Balanced.frame (h : Balanced tr a m) (hm : b.mutex m = a.mutex m)
    (hmode : ∀ t, b.mode t = .ended (.inl m) .eok ↔ a.mode t = .ended (.inl m) .eok)
    (hout : ∀ t, out.count (.mutexTake t m .eok) = 0 ∧ out.count (.mutexRelease t m .eok) = 0) :
    Balanced (tr ++ out) b m := by
  refine h.same hm ?_ fun t => (hout t).2
  intro t
  rw [(hout t).1, Nat.zero_add, grants, grants]
  simp only [hmode t]

theorem ended_update_iff {mode : Mode (M ⊕ S)} (ht : a.mode t ≠ .ended (.inl m) .eok)
    (hmode : mode ≠ .ended (.inl m) .eok) (u : Tid) :
    Function.update a.mode t mode u = .ended (.inl m) .eok ↔ a.mode u = .ended (.inl m) .eok := by
  by_cases hu : u = t
  · subst hu
    simp [ht, hmode]
  · simp [hu]

theorem toNat_hold_succ {hold : UInt8} (h : hold ≠ 255) : (hold + 1).toNat = hold.toNat + 1 := by
  have hlt := hold.toNat_lt
  have hne : hold.toNat ≠ 255 := fun he => h (UInt8.toNat_inj.1 he)
  rw [UInt8.toNat_add]
  show (hold.toNat + 1) % 2 ^ 8 = hold.toNat + 1
  omega

theorem toNat_hold_pred {hold : UInt8} (h : hold ≠ 0) : (hold - 1).toNat + 1 = hold.toNat := by
  have hlt := hold.toNat_lt
  have hne : hold.toNat ≠ 0 := fun he => h (UInt8.toNat_inj.1 he)
  rw [UInt8.toNat_sub]
  show (2 ^ 8 - 1 + hold.toNat) % 2 ^ 8 + 1 = hold.toNat
  omega

section

variable (h : Balanced tr a m)
include h

theorem Balanced.nested (ht : (a.mutex m).owner = some t)
    (hwrap : (a.mutex m).hold ≠ 255) : Balanced (tr ++ [IpcEvent.mutexTake t m .eok])
      (a.setMutex m { a.mutex m with hold := (a.mutex m).hold + 1 }) m := by
  have hsucc := toNat_hold_succ hwrap
  refine ⟨?_, ?_, ?_, ?_⟩
  · intro hfree
    simp [setMutex, ht] at hfree
  · intro u hu
    refine ⟨by simpa [setMutex] using (h.held t ht).1, ?_⟩
    intro h0
    have : ((a.mutex m).hold + 1).toNat = 0 := by
      have h0' : (a.mutex m).hold + 1 = 0 := by simpa [setMutex] using h0
      rw [h0']
      rfl
    omega
  · intro u
    have hbal := h.balance u
    have hgr : (a.setMutex m { a.mutex m with hold := (a.mutex m).hold + 1 }).grants u m =
      a.grants u m := grants_congr rfl
    rw [hgr]
    by_cases hut : u = t
    · subst hut
      simp [setMutex, ht, hsucc] at hbal ⊢
      omega
    · have hne : t ≠ u := Ne.symm hut
      simpa [setMutex, ht, hne] using hbal
  · intro u hu
    simpa [setMutex] using h.granted u hu

theorem Balanced.taken (hvalue : (a.mutex m).value > 0) {p : ℕ} :
    Balanced (tr ++ (ownerEvents m a.prio (a.mutex m).owner (some t) ++
        [IpcEvent.mutexTake t m .eok]))
      (a.setMutex m { a.mutex m with
        value := (a.mutex m).value - 1
        owner := some t
        originalPriority := p
        hold := (a.mutex m).hold + 1 }) m := by
  have hfree : (a.mutex m).owner = none := by
    cases howner : (a.mutex m).owner with
    | none => rfl
    | some u =>
      rw [(h.held u howner).1] at hvalue
      exact absurd hvalue (by decide)
  obtain ⟨hv, hhold⟩ := h.free hfree
  refine ⟨?_, ?_, ?_, ?_⟩
  · intro hn
    simp [setMutex] at hn
  · intro u _
    simp [setMutex, hv, hhold]
  · intro u
    have hbal := h.balance u
    have hgr : ∀ mutex, (a.setMutex m mutex).grants u m = a.grants u m := fun _ => grants_congr rfl
    rw [hgr]
    by_cases hut : u = t
    · subst hut
      simp [setMutex, hfree, hhold] at hbal ⊢
      omega
    · have hne : t ≠ u := Ne.symm hut
      simpa [setMutex, hfree, hne] using hbal
  · intro u hu
    have howner := h.granted u hu
    rw [hfree] at howner
    cases howner

theorem Balanced.inner (ht : (a.mutex m).owner = some t)
    (hhold : (a.mutex m).hold - 1 ≠ 0) : Balanced (tr ++ [IpcEvent.mutexRelease t m .eok])
      (a.setMutex m { a.mutex m with hold := (a.mutex m).hold - 1 }) m := by
  obtain ⟨hv, hne⟩ := h.held t ht
  have hpred := toNat_hold_pred hne
  refine ⟨?_, ?_, ?_, ?_⟩
  · intro hfree
    simp [setMutex, ht] at hfree
  · intro u hu
    exact ⟨by simpa [setMutex] using hv, by simpa [setMutex] using hhold⟩
  · intro u
    have hbal := h.balance u
    have hgr : ∀ mutex, (a.setMutex m mutex).grants u m = a.grants u m := fun _ => grants_congr rfl
    rw [hgr]
    by_cases hut : u = t
    · subst hut
      simp [setMutex, ht] at hbal ⊢
      omega
    · have hne : t ≠ u := Ne.symm hut
      simpa [setMutex, ht, hne] using hbal
  · intro u hu
    simpa [setMutex] using h.granted u hu

/-- The outermost release hands the mutex over to the first waiting thread or frees it. -/
theorem Balanced.giveUp (hq : Queued a) (ht : (a.mutex m).owner = some t)
    (hmode : a.mode t = .outside) (hhold : (a.mutex m).hold - 1 = 0) :
    Balanced (tr ++ (ownerEvents m a.prio (some t) (a.queue (.inl m)).head? ++
      [IpcEvent.mutexRelease t m .eok])) (a.giveUp t m) m := by
  obtain ⟨hv, hne⟩ := h.held t ht
  have hone : (a.mutex m).hold.toNat = 1 := by
    have hpred := toNat_hold_pred hne
    rw [hhold] at hpred
    exact hpred.symm
  rw [WaitSys.giveUp]
  split
  · next next rest hlist =>
    have hnext : a.mode next = .waiting (.inl m) := (hq _ next).1 (by simp [hlist])
    have hnt : next ≠ t := by
      intro he
      subst he
      rw [hmode] at hnext
      cases hnext
    refine ⟨?_, ?_, ?_, ?_⟩
    · intro hfree
      simp [endWait, setMutex] at hfree
    · intro u _
      simp [endWait, setMutex, setPrio, hv, hhold]
    · intro u
      have hbal := h.balance u
      by_cases hun : u = next
      · -- the new owner has its take and no release to come
        subst hun
        rw [grants_eq_zero (by simp [hnext])] at hbal
        simp [endWait, setMutex, setPrio, grants, ht, hnt.symm, hhold] at hbal ⊢
        omega
      · have hgr : ((((a.setPrio t (a.mutex m).originalPriority).setMutex m { a.mutex m with
            owner := some next
            originalPriority := (a.setPrio t (a.mutex m).originalPriority).prio next
            hold := (a.mutex m).hold - 1 + 1 }).endWait next (.inl m) .eok).grants u m) =
            a.grants u m := grants_congr (by simp [endWait, setMutex, setPrio, hun])
        rw [hgr]
        by_cases hut : u = t
        · subst hut
          simp [endWait, setMutex, setPrio, ht, hone, hnt] at hbal ⊢
          omega
        · simpa [endWait, setMutex, setPrio, ht, Ne.symm hut, Ne.symm hun] using hbal
    · intro u hu
      by_cases hun : u = next
      · subst hun
        simp [endWait, setMutex]
      · have howner := h.granted u (by simpa [endWait, setMutex, setPrio, hun] using hu)
        rw [ht] at howner
        cases howner
        simp [endWait, setMutex, setPrio, hun, hmode] at hu
  · next hlist =>
    refine ⟨?_, ?_, ?_, ?_⟩
    · intro _
      simp [setMutex, hv, hhold]
    · intro u hu
      simp [setMutex] at hu
    · intro u
      have hbal := h.balance u
      have hgr : ∀ mutex, ((a.setPrio t (a.mutex m).originalPriority).setMutex m mutex).grants u m =
        a.grants u m := fun _ => grants_congr rfl
      rw [hgr]
      by_cases hut : u = t
      · subst hut
        simp [setMutex, ht, hone] at hbal ⊢
        omega
      · simpa [setMutex, ht, Ne.symm hut] using hbal
    · intro u hu
      have howner := h.granted u hu
      rw [ht] at howner
      cases howner
      have hu' : a.mode t = .ended (.inl m) .eok := hu
      rw [hmode] at hu'
      cases hu'

/-- Another mutex is given up: the thread at the head of its queue waits for that one. -/
theorem Balanced.giveUp_of_ne (hq : Queued a) {m' : M} (hm : m' ≠ m)
    {prio : Tid → ℕ} {x y : Option Tid} {err : RtErr} :
    Balanced (tr ++ (ownerEvents m' prio x y ++ [IpcEvent.mutexRelease t m' err]))
      (a.giveUp t m') m := by
  refine h.frame (mutex_giveUp_of_ne a t m' (Ne.symm hm)) ?_ (by simp [hm])
  intro u
  rw [WaitSys.giveUp]
  split
  · next next rest hlist =>
    have hnext : a.mode next = .waiting (.inl m') := (hq _ next).1 (by simp [hlist])
    exact ended_update_iff (show a.mode next ≠ _ by simp [hnext]) (by simp [hm]) u
  · rfl

/-- **What one operation does to a mutex.** -/
theorem balanced_step (hq : Queued a)
    (hwrap : a.NoHoldWrap op) (hs : a.step op = some (b, out)) : Balanced (tr ++ out) b m := by
  cases outcome_of_step hs with
  | startup t p hmode | semWaits t σ hmode hvalue =>
    exact h.frame rfl (ended_update_iff (by simp [hmode]) (by simp)) (by simp)
  | nested t m' waits hmode howner =>
    by_cases hm : m' = m
    · subst hm
      exact h.nested howner (hwrap howner)
    · exact h.frame (by simp [setMutex, Ne.symm hm]) (fun _ => Iff.rfl) (by simp [hm])
  | taken t m' waits hmode hother hvalue =>
    by_cases hm : m' = m
    · subst hm
      exact h.taken hvalue
    · exact h.frame (by simp [setMutex, Ne.symm hm]) (fun _ => Iff.rfl) (by simp [hm])
  | lent t m' owner hmode howner hne hvalue =>
    have hnot : a.mode t ≠ .ended (.inl m) .eok := by simp [hmode]
    have hwait : (.waiting (.inl m') : Mode (M ⊕ S)) ≠ .ended (.inl m) .eok := by simp
    refine h.frame ?_ ?_ (by simp)
    · split <;> rfl
    · intro u
      split <;> exact ended_update_iff hnot hwait u
  | givenUp t m' hmode howner hhold =>
    by_cases hm : m' = m
    · subst hm
      exact h.giveUp hq howner hmode hhold
    · exact h.giveUp_of_ne hq hm
  | inner t m' hmode howner hhold =>
    by_cases hm : m' = m
    · subst hm
      exact h.inner howner hhold
    · exact h.frame (by simp [setMutex, Ne.symm hm]) (fun _ => Iff.rfl) (by simp [hm])
  | semHandOver σ next rest hlist =>
    have hnext : a.mode next = .waiting (.inr σ) := (hq _ next).1 (by simp [hlist])
    exact h.frame rfl (ended_update_iff (by simp [hnext]) (by simp)) (by simp)
  | semControl σ value =>
    refine h.frame rfl ?_ (by simp)
    intro u
    by_cases hu : u ∈ a.queue (.inr σ)
    · simp [setSem, hu, (hq _ u).1 hu]
    · simp [setSem, hu]
  | wake t o err hmode herr =>
    exact h.frame rfl (ended_update_iff (by simp [hmode]) (by simp [herr])) (by simp)
  | ret t o err hmode =>
    -- a take that was granted returns
    refine h.same rfl ?_ ?_
    · intro u
      by_cases hu : u = t
      · subst hu
        cases o <;> simp [grants, hmode, count_singleton]
      · have hne := Ne.symm hu
        cases o <;> simp [grants, hu, hne]
    · intro u
      cases o <;> simp
  | _ => exact h.frame rfl (fun _ => Iff.rfl) (by simp)

end

@[simp] theorem mutexTake_not_mem_ownerEvents {m' : M} {x y : Option Tid} {err : RtErr} :
    .mutexTake t m err ∉ (ownerEvents m' prio x y : List (IpcEvent Tid M S)) :=
  count_eq_zero.1 count_mutexTake_ownerEvents

theorem owner_of_taken (h : Balanced tr a m) (hs : a.step op = some (b, out))
    (ht : .mutexTake t m .eok ∈ out) : (b.mutex m).owner = some t := by
  cases outcome_of_step hs with
  | nested u m' waits hmode howner =>
    obtain ⟨rfl, rfl⟩ : t = u ∧ m = m' := by simpa using ht
    simpa [setMutex] using howner
  | taken u m' waits hmode hother hvalue =>
    obtain ⟨rfl, rfl⟩ : t = u ∧ m = m' := by simpa using ht
    simp [setMutex]
  | ret u o err hmode =>
    cases o with
    | inl m' =>
      obtain ⟨rfl, rfl, rfl⟩ : t = u ∧ m = m' ∧ .eok = err := by simpa using ht
      exact h.granted t hmode
    | inr σ => simp at ht
  | _ => simp at ht

theorem owner_setMutex {m' : M} {mutex : Mutex Tid} (ht : (a.mutex m).owner = some t)
    (hm : m' = m → mutex.owner = some t) : ((a.setMutex m' mutex).mutex m).owner = some t := by
  by_cases he : m' = m
  · subst he
    simpa [setMutex] using hm rfl
  · simpa [setMutex, Ne.symm he] using ht

theorem released_of_owner (h : Balanced tr a m)
    (hs : a.step op = some (b, out)) (ha : (a.mutex m).owner = some t)
    (hb : (b.mutex m).owner ≠ some t) : .mutexRelease t m .eok ∈ out := by
  have hvalue : ¬ (a.mutex m).value > 0 := by
    rw [(h.held t ha).1]
    decide
  cases outcome_of_step hs with
  | nested u m' waits hmode howner | inner u m' hmode howner hhold =>
    exact absurd (owner_setMutex ha fun he => by rw [← ha, he]) hb
  | taken u m' waits hmode hother hfree =>
    exact absurd (owner_setMutex ha fun he => absurd (he ▸ hfree) hvalue) hb
  | lent u m' owner hmode howner hne hzero =>
    refine absurd ?_ hb
    split <;> exact ha
  | givenUp u m' hmode howner hhold =>
    by_cases hm : m' = m
    · subst hm
      obtain rfl : t = u := some_inj.1 (ha.symm.trans howner)
      simp
    · rw [mutex_giveUp_of_ne a u m' (Ne.symm hm)] at hb
      exact absurd ha hb
  | _ => exact absurd ha hb

end WaitSys

/-! ### The calls -/

namespace IpcSys

variable [RtConfig] {Tid M S : Type} [DecidableEq Tid] [DecidableEq M] [DecidableEq S]

/-- The wait of `t` for `o` has ended without an error and its call has not yet returned: it
will return `RT_EOK`. -/
def Granted (s : IpcSys Tid M S) (o : M ⊕ S) (t : Tid) : Prop :=
  (s.pc t).waitsFor = some o ∧ t ∉ s.kernel.list (.suspended o) ∧ (s.kernel.thread t).error = .eok

instance (s : IpcSys Tid M S) (o : M ⊕ S) (t : Tid) : Decidable (s.Granted o t) := by
  unfold Granted
  infer_instance

/-- The successful takes of `m` by `t` in a run to `s`, returned or not. -/
def takes (tr : List (IpcEvent Tid M S)) (s : IpcSys Tid M S) (t : Tid) (m : M) : ℕ :=
  tr.count (.mutexTake t m .eok) + if s.Granted (.inl m) t then 1 else 0

/-- The successful releases of `m` by `t`. -/
def releases (tr : List (IpcEvent Tid M S)) (t : Tid) (m : M) : ℕ :=
  tr.count (.mutexRelease t m .eok)

/-- The value of `m` is 1 exactly when it has no owner and no hold; otherwise it is 0 and
the owner has as many more successful takes than releases as the hold says.  Nobody else
has more takes than releases. -/
structure MutexRight (tr : List (IpcEvent Tid M S)) (s : IpcSys Tid M S) (m : M) : Prop where
  free : (s.mutex m).value = 1 ↔ (s.mutex m).owner = none ∧ (s.mutex m).hold = 0
  held : (s.mutex m).value ≠ 1 → (s.mutex m).value = 0 ∧ ∃ t, (s.mutex m).owner = some t ∧
    takes tr s t m = releases tr t m + (s.mutex m).hold.toNat
  others : ∀ t, (s.mutex m).owner ≠ some t → takes tr s t m = releases tr t m

/-- In a step from `s` to `s'`, only the owner is told that it has the mutex, and ownership
leaves a thread only at its successful release that matches the outermost take. -/
structure OwnerRight (tr : List (IpcEvent Tid M S)) (s : IpcSys Tid M S)
    (out : List (IpcEvent Tid M S)) (s' : IpcSys Tid M S) (m : M) : Prop where
  taken : ∀ t, .mutexTake t m .eok ∈ out → (s'.mutex m).owner = some t
  freed : ∀ t, (s.mutex m).owner = some t → (s'.mutex m).owner ≠ some t →
    .mutexRelease t m .eok ∈ out ∧ takes (tr ++ out) s' t m = releases (tr ++ out) t m

/-- No thread takes a mutex that it owns and whose hold is 255. -/
def NoHoldWrap (s : IpcSys Tid M S) (a : IpcAction Tid M S) : Prop :=
  match s.op a with
  | some (.mutexTake t m _) => (s.mutex m).owner = some t → (s.mutex m).hold ≠ 255
  | _ => True

instance (s : IpcSys Tid M S) (a : IpcAction Tid M S) : Decidable (s.NoHoldWrap a) := by
  unfold NoHoldWrap
  split <;> infer_instance

variable {idle : Tid} {tr out : List (IpcEvent Tid M S)} {s s' : IpcSys Tid M S} {m : M} {t : Tid}

theorem Inv.granted_iff (h : Inv idle s) {o : M ⊕ S} :
    s.Granted o t ↔ s.waitSys.mode t = .ended o .eok := by
  have hok := h.threads t
  have hq : t ∈ s.kernel.list (.suspended o) ↔ s.waitSys.mode t = .waiting o := h.queued o t
  have hmode : s.waitSys.mode t =
      modeOf (s.kernel.view.life t) (s.kernel.view.error t) (s.pc t).waitsFor := rfl
  have herror : (s.kernel.thread t).error = s.kernel.view.error t := rfl
  rw [Granted, hq, herror, hmode]
  cases hw : (s.pc t).waitsFor with
  | none => cases hlife : s.kernel.view.life t <;> simp [modeOf]
  | some o' =>
    cases hlife : s.kernel.view.life t with
    | unborn =>
      rw [hok.started hlife] at hw
      cases hw
    | blocked =>
      simp only [modeOf, some.injEq, Mode.waiting.injEq, reduceCtorEq, iff_false]
      exact fun hg => hg.2.1 hg.1
    | live => simp [modeOf]
    | closed => simp [modeOf]

theorem Inv.takes_eq (h : Inv idle s) (tr : List (IpcEvent Tid M S)) (t : Tid) (m : M) :
    takes tr s t m = tr.count (.mutexTake t m .eok) + s.waitSys.grants t m := by
  simp only [takes, WaitSys.grants, h.granted_iff]

theorem mutexRight_of_balanced (h : Inv idle s) (hb : s.waitSys.Balanced tr m) :
    MutexRight tr s m := by
  have hfree := hb.free
  have hheld := hb.held
  have hbal := hb.balance
  simp only [waitSys_mutex, ← h.takes_eq] at hfree hheld hbal
  cases howner : (s.mutex m).owner with
  | none =>
    obtain ⟨hvalue, hhold⟩ := hfree howner
    refine ⟨by simp [hvalue, hhold, howner], fun hne => absurd hvalue hne, ?_⟩
    intro t _
    simpa [howner, releases] using hbal t
  | some u =>
    have hvalue : (s.mutex m).value = 0 := (hheld u howner).1
    refine ⟨by simp [hvalue, howner], fun _ => ⟨hvalue, u, howner, ?_⟩, fun t ht => ?_⟩
    · simpa [howner, releases] using hbal u
    · have hne : ¬ u = t := fun he => ht (by rw [howner, he])
      simpa [howner, releases, hne] using hbal t

theorem ownerRight_of_balanced (h' : Inv idle s') (hb : s.waitSys.Balanced tr m)
    (hb' : s'.waitSys.Balanced (tr ++ out) m) {op : WaitOp Tid M S}
    (hs : s.waitSys.step op = some (s'.waitSys, out)) : OwnerRight tr s out s' m := by
  refine ⟨fun t ht => WaitSys.owner_of_taken hb hs ht, fun t ht ht' => ⟨?_, ?_⟩⟩
  · exact WaitSys.released_of_owner hb hs ht ht'
  · exact (mutexRight_of_balanced h' hb').others t ht'

section Runs

variable {prio : Tid → ℕ} {mutexFlag : M → IpcFlag} {semValue : S → UInt32} {semFlag : S → IpcFlag}

theorem balanced_boot (m : M) :
    (boot idle prio mutexFlag semValue semFlag).waitSys.Balanced [] m := by
  have hmode : ∀ t, (boot idle prio mutexFlag semValue semFlag).waitSys.mode t ≠
      .ended (.inl m) .eok := by
    intro t
    rw [mode_boot]
    split <;> simp
  refine ⟨fun _ => ⟨rfl, rfl⟩, ?_, ?_, fun t ht => absurd ht (hmode t)⟩
  · intro t ht
    cases ht
  · intro t
    rw [WaitSys.grants_eq_zero (hmode t)]
    rfl

theorem NoHoldWrap.op {a : IpcAction Tid M S} {op : WaitOp Tid M S} (h : s.NoHoldWrap a)
    (ho : s.op a = some op) : s.waitSys.NoHoldWrap op := by
  rw [NoHoldWrap, ho] at h
  cases op with
  | mutexTake t m waits => exact h
  | _ => exact True.intro

theorem run_balanced (hprio : ∀ t, prio t < priorityMax)
    (hrun : Run (step idle) NoHoldWrap (boot idle prio mutexFlag semValue semFlag) tr s) (m : M) :
    Inv idle s ∧ s.waitSys.Balanced tr m := by
  have hboot := inv_boot idle prio mutexFlag semValue semFlag hprio
  obtain ⟨hinv, hwaits⟩ := run_refines idle (fun hC ho => NoHoldWrap.op hC ho) hboot hrun
  have hbal := hwaits.invariant (fun tr a => a.Queued ∧ a.Balanced tr m)
    ⟨hboot.queued, balanced_boot m⟩ fun ⟨hq, hb⟩ hw hs =>
      ⟨WaitSys.queued_step hq hs, WaitSys.balanced_step hb hq hw hs⟩
  exact ⟨hinv, hbal.2⟩

end Runs

/-- In every run in which no hold wraps, every mutex is right in every state, and its owner
is right in every step that comes next. -/
theorem run_mutexRight (idle : Tid) (prio : Tid → ℕ) (hprio : ∀ t, prio t < priorityMax)
    (mutexFlag : M → IpcFlag) (semValue : S → UInt32) (semFlag : S → IpcFlag)
    (tr : List (IpcEvent Tid M S)) (s : IpcSys Tid M S)
    (hrun : Run (step idle) NoHoldWrap (boot idle prio mutexFlag semValue semFlag) tr s) (m : M) :
    MutexRight tr s m ∧ ∀ a s' out, s.NoHoldWrap a → s.step idle a = some (s', out) →
      OwnerRight tr s out s' m := by
  obtain ⟨hinv, hbal⟩ := run_balanced hprio hrun m
  refine ⟨mutexRight_of_balanced hinv hbal, ?_⟩
  intro a s' out hw hs
  obtain ⟨hinv', hbal'⟩ := run_balanced hprio (hrun.snoc hw hs) m
  obtain ⟨-, hop⟩ := refines_step hinv hs
  cases ha : s.op a with
  | none =>
    rw [ha] at hop
    obtain ⟨hsame, hout⟩ := hop
    have hmutex : s'.mutex = s.mutex := congrArg WaitSys.mutex hsame
    have hout' : out = [] := hout
    subst hout'
    refine ⟨fun t ht => absurd ht not_mem_nil, ?_⟩
    intro t ht ht'
    rw [hmutex] at ht'
    exact absurd ht ht'
  | some op =>
    rw [ha] at hop
    exact ownerRight_of_balanced hinv' hbal hbal' hop

end IpcSys

namespace IpcSys

/-- Thread 1 takes the mutex twice, thread 2 of a higher priority waits for it, and thread 1
releases it twice. -/
def handOver : List (IpcAction (Fin 3) Unit Empty) :=
  [.startup 1, .schedulerStart, .call (.mutexTake () (-1)), .cont, .call (.mutexTake () (-1)), .cont,
    .startup 2, .schedule, .call (.mutexTake () (-1)), .cont, .cont,
    .call (.mutexRelease ()), .cont, .call (.mutexRelease ()), .cont, .cont, .cont]

theorem run_mutexRight_handOver :
    letI := config32
    ∃ (tr : List (IpcEvent (Fin 3) Unit Empty)) (s : IpcSys (Fin 3) Unit Empty),
      (s.mutex ()).owner = some 2 ∧ takes tr s 2 () = 1 ∧ MutexRight tr s () ∧
        ∀ a s' out, s.NoHoldWrap a → s.step 0 a = some (s', out) → OwnerRight tr s out s' () := by
  let _ := config32
  have hsome : ((exec (step 0) NoHoldWrap (boot 0 (fun t => 31 - 10 * t.val) (fun _ => .prio)
      (fun _ => 0) (fun _ => .fifo)) handOver).map fun r =>
      ((r.1.mutex ()).owner, takes r.2 r.1 2 ())) = some (some 2, 1) := by
    decide +kernel
  obtain ⟨⟨s, tr⟩, hexec, hr⟩ := map_eq_some_iff.1 hsome
  obtain ⟨howner, htakes⟩ : (s.mutex ()).owner = some 2 ∧ takes tr s 2 () = 1 := by
    simpa using hr
  exact ⟨tr, s, howner, htakes, run_mutexRight 0 (fun t : Fin 3 => 31 - 10 * t.val) (by decide)
    (fun _ : Unit => .prio) (fun _ : Empty => 0) (fun _ => .fifo) tr s (Run.of_exec hexec) ()⟩

/-- Thread 1 takes the mutex `n` times. -/
def nestedTakes (n : ℕ) : List (IpcAction (Fin 2) Unit Empty) :=
  [IpcAction.startup 1, .schedulerStart] ++
    (List.replicate n [IpcAction.call (.mutexTake () (-1)), .cont]).flatten

/-- After 256 nested takes the mutex has an owner, and its hold is **0**. -/
theorem not_mutexRight_wrap :
    ¬ ∀ [RtConfig] (idle : Fin 2) (prio : Fin 2 → ℕ) (_ : ∀ t, prio t < priorityMax)
      (mutexFlag : Unit → IpcFlag) (semValue : Empty → UInt32) (semFlag : Empty → IpcFlag)
      (tr : List (IpcEvent (Fin 2) Unit Empty)) (s : IpcSys (Fin 2) Unit Empty)
      (_ : Run (step idle) (fun _ _ => True) (boot idle prio mutexFlag semValue semFlag) tr s)
      (m : Unit),
      MutexRight tr s m ∧ ∀ a s' out, s.step idle a = some (s', out) →
        OwnerRight tr s out s' m := by
  intro h
  let _ := config32
  have hsome : ((exec (step 0) (fun _ _ => True) (boot 0 (fun t : Fin 2 => 31 - 10 * t.val)
      (fun _ : Unit => .prio) (fun _ : Empty => 0) (fun _ => .fifo)) (nestedTakes 256)).map fun r =>
      ((r.1.mutex ()).owner, (r.1.mutex ()).hold, takes r.2 r.1 1 (), releases r.2 1 ())) =
        some (some 1, 0, 256, 0) := by
    decide +kernel
  obtain ⟨⟨s, tr⟩, hexec, hr⟩ := map_eq_some_iff.1 hsome
  obtain ⟨howner, hhold, htakes, hreleases⟩ : (s.mutex ()).owner = some 1 ∧
      (s.mutex ()).hold = 0 ∧ takes tr s 1 () = 256 ∧ releases tr 1 () = 0 := by
    simpa using hr
  have hright := (h 0 (fun t : Fin 2 => 31 - 10 * t.val) (by decide) (fun _ : Unit => .prio)
    (fun _ : Empty => 0) (fun _ => .fifo) tr s (Run.of_exec hexec) ()).1
  have hvalue : (s.mutex ()).value ≠ 1 := by
    intro hone
    have hnone := (hright.free.1 hone).1
    rw [howner] at hnone
    cases hnone
  obtain ⟨-, t, ht, hcount⟩ := hright.held hvalue
  obtain rfl : 1 = t := some_inj.1 (howner.symm.trans ht)
  rw [htakes, hreleases, hhold] at hcount
  exact absurd hcount (by decide)

end IpcSys

end RtThread
