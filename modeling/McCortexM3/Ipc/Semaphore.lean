import McCortexM3.Ipc.Mutex
import Mathlib.Algebra.BigOperators.Group.Finset.Piecewise
import Mathlib.Data.Fintype.Basic

/-!
# The units of a semaphore

A release of a semaphore gives one unit, to a waiting thread or to the counter, and a
successful take gets one.  No unit is lost or made while the counter stays in its range.

## Main definitions

* `IpcSys.semTakes` — the takes that returned or will return `RT_EOK`.
* `IpcSys.SemRight` — the units add up, and nobody waits while there is one.
* `IpcSys.NoSemWrap` — the counter of a semaphore is not released beyond 65535, nor reset.

## Main results

* `WaitSys.conserved_step` — what one operation does to a semaphore.
* `IpcSys.run_semRight` — in every run that keeps a counter in its range the units add up.
* `IpcSys.not_semRight_wrap` — a release at 65535 loses 65536 units.
-/

set_option linter.all false

namespace RtThread

open Function List
open Function (update)

/-- The threads whose value meets a condition, after the value of one thread has changed. -/
theorem card_filter_update {Tid α : Type} [Fintype Tid] [DecidableEq Tid] (P : α → Prop)
    [DecidablePred P] (f : Tid → α) (t : Tid) (x : α) :
    (Finset.univ.filter fun u => P (update f t x u)).card + (if P (f t) then 1 else 0) =
      (Finset.univ.filter fun u => P (f u)).card + if P x then 1 else 0 := by
  have hrest : ∑ u ∈ Finset.univ.erase t, (if P (update f t x u) then 1 else 0) =
      ∑ u ∈ Finset.univ.erase t, if P (f u) then 1 else 0 := by
    apply Finset.sum_congr rfl
    intro u hu
    rw [update_of_ne (Finset.ne_of_mem_erase hu)]
  rw [Finset.card_filter, Finset.card_filter,
    ← Finset.add_sum_erase _ _ (Finset.mem_univ t), hrest, update_self,
    ← Finset.add_sum_erase Finset.univ (fun u => if P (f u) then 1 else 0) (Finset.mem_univ t)]
  omega

/-! ### The waits -/

namespace WaitSys

variable {Tid M S : Type} [Fintype Tid] [DecidableEq Tid] [DecidableEq M] [DecidableEq S]

/-- The number of threads that have been given a unit of `σ` and whose calls have not yet
returned. -/
def granted (a : WaitSys Tid M S) (σ : S) : ℕ :=
  (Finset.univ.filter fun t => a.mode t = .ended (.inr σ) .eok).card

/-- The counter of `σ` is not released at 65535, and not reset. -/
def NoSemWrap (σ : S) (a : WaitSys Tid M S) : WaitOp Tid M S → Prop
  | .semRelease s => s = σ → a.queue (.inr σ) = [] → (a.sem σ).value ≠ 65535
  | .semControl s _ => s ≠ σ
  | _ => True

/-- The units of `σ` add up, and nobody waits while there is one. -/
structure Conserved (init : ℕ) (tr : List (IpcEvent Tid M S)) (a : WaitSys Tid M S) (σ : S) :
    Prop where
  units : init + tr.count (.semRelease σ) =
    (a.sem σ).value.toNat + (tr.count (.semTake σ .eok) + a.granted σ)
  no_waiter : (a.sem σ).value > 0 → a.queue (.inr σ) = []

variable {tr out : List (IpcEvent Tid M S)} {a b : WaitSys Tid M S} {σ : S} {t : Tid} {init : ℕ}

theorem granted_update (σ : S) {mode : Mode (M ⊕ S)} (hb : b.mode = update a.mode t mode) :
    b.granted σ + (if a.mode t = .ended (.inr σ) .eok then 1 else 0) =
      a.granted σ + if mode = .ended (.inr σ) .eok then 1 else 0 := by
  rw [granted, hb]
  exact card_filter_update (· = .ended (.inr σ) .eok) a.mode t mode

section

variable (h : Conserved init tr a σ) (hsem : b.sem σ = a.sem σ)
include h hsem

theorem Conserved.same (hqueue : a.queue (.inr σ) = [] → b.queue (.inr σ) = [])
    (hrelease : out.count (.semRelease σ) = 0)
    (htake : out.count (.semTake σ .eok) + b.granted σ = a.granted σ) :
    Conserved init (tr ++ out) b σ := by
  have hunits := h.units
  refine ⟨?_, fun hv => hqueue (h.no_waiter (hsem ▸ hv))⟩
  simp only [List.count_append, hsem]
  omega

/-- An operation that leaves the counter alone and changes the mode of a thread that neither
has nor gets a unit. -/
theorem Conserved.frame {mode : Mode (M ⊕ S)}
    (hb : b.mode = update a.mode t mode)
    (ht : a.mode t ≠ .ended (.inr σ) .eok) (hmode : mode ≠ .ended (.inr σ) .eok)
    (hqueue : a.queue (.inr σ) = [] → b.queue (.inr σ) = [])
    (hout : out.count (.semRelease σ) = 0 ∧ out.count (.semTake σ .eok) = 0) :
    Conserved init (tr ++ out) b σ := by
  have hgranted := granted_update σ hb
  rw [if_neg ht, if_neg hmode] at hgranted
  exact h.same hsem hqueue hout.1 (by omega)

theorem Conserved.idle (hmode : b.mode = a.mode) (hqueue : b.queue = a.queue)
    (hout : out.count (.semRelease σ) = 0 ∧ out.count (.semTake σ .eok) = 0) :
    Conserved init (tr ++ out) b σ := by
  have hgranted : b.granted σ = a.granted σ := by rw [granted, hmode, granted]
  exact h.same hsem (fun hq => by rw [hqueue, hq]) hout.1 (by omega)

end

@[simp] theorem count_sem_ownerEvents {m : M} {prio : Tid → ℕ} {x y : Option Tid} :
    (ownerEvents m prio x y : List (IpcEvent Tid M S)).count (.semRelease σ) = 0 ∧
    (ownerEvents m prio x y : List (IpcEvent Tid M S)).count (.semTake σ .eok) = 0 := by
  constructor
  all_goals
    rw [count_eq_zero, ownerEvents]
    split <;> simp

theorem toNat_value_pred {value : UInt16} (h : value > 0) :
    (value - 1).toNat + 1 = value.toNat := by
  have hlt := value.toNat_lt
  have hpos : 0 < value.toNat := h
  rw [UInt16.toNat_sub]
  show (2 ^ 16 - 1 + value.toNat) % 2 ^ 16 + 1 = value.toNat
  omega

theorem toNat_value_succ {value : UInt16} (h : value ≠ 65535) :
    (value + 1).toNat = value.toNat + 1 := by
  have hlt := value.toNat_lt
  have hne : value.toNat ≠ 65535 := fun he => h (UInt16.toNat_inj.1 he)
  rw [UInt16.toNat_add]
  show (value.toNat + 1) % 2 ^ 16 = value.toNat + 1
  omega

theorem filter_eq_nil {l : List Tid} (t : Tid) (h : l = []) : l.filter (· ≠ t) = [] := by
  rw [h]
  rfl

section

variable (h : Conserved init tr a σ)
include h

theorem Conserved.take (hvalue : (a.sem σ).value > 0) :
    Conserved init (tr ++ [IpcEvent.semTake σ .eok])
      (a.setSem σ { a.sem σ with value := (a.sem σ).value - 1 }) σ := by
  have hunits := h.units
  have hpred := toNat_value_pred hvalue
  have hgranted : ∀ sem, (a.setSem σ sem).granted σ = a.granted σ := fun _ => rfl
  refine ⟨?_, fun _ => h.no_waiter hvalue⟩
  rw [hgranted]
  simp [setSem, List.count_append]
  omega

theorem Conserved.wait (ht : a.mode t = .outside)
    (hvalue : ¬ (a.sem σ).value > 0) (flag : IpcFlag) :
    Conserved init tr (a.beginWait t (.inr σ) flag) σ := by
  have hunits := h.units
  have hgranted := granted_update σ (b := a.beginWait t (.inr σ) flag) rfl
  simp only [ht, reduceCtorEq, if_false] at hgranted
  have hsem : (a.beginWait t (.inr σ) flag).sem = a.sem := rfl
  refine ⟨?_, fun hv => absurd hv hvalue⟩
  rw [hsem]
  omega

theorem Conserved.handOver (ht : a.mode t = .waiting (.inr σ)) :
    Conserved init (tr ++ [IpcEvent.semRelease σ]) (a.endWait t (.inr σ) .eok) σ := by
  have hunits := h.units
  have hgranted := granted_update σ (b := a.endWait t (.inr σ) .eok) rfl
  simp only [ht, reduceCtorEq, if_false, if_true] at hgranted
  refine ⟨?_, fun hv => filter_eq_nil t (h.no_waiter hv)⟩
  have hsem : (a.endWait t (.inr σ) .eok).sem = a.sem := rfl
  rw [hsem]
  simp only [List.count_append, count_singleton_self, count_singleton, beq_iff_eq,
    reduceCtorEq, if_false]
  omega

theorem Conserved.give (hlist : a.queue (.inr σ) = [])
    (hwrap : (a.sem σ).value ≠ 65535) :
    Conserved init (tr ++ [IpcEvent.semRelease σ])
      (a.setSem σ { a.sem σ with value := (a.sem σ).value + 1 }) σ := by
  have hunits := h.units
  have hsucc := toNat_value_succ hwrap
  have hgranted : ∀ sem, (a.setSem σ sem).granted σ = a.granted σ := fun _ => rfl
  refine ⟨?_, fun _ => hlist⟩
  rw [hgranted]
  simp [setSem, List.count_append, hsucc]
  omega

theorem Conserved.ret {o : M ⊕ S} {err : RtErr} (ht : a.mode t = .ended o err) :
    Conserved init (tr ++ [o.elim (IpcEvent.mutexTake t · err) (.semTake · err)])
      { a with mode := update a.mode t .outside } σ := by
  have hgranted := granted_update σ (b := { a with
    mode := update a.mode t .outside }) rfl
  rw [ht] at hgranted
  refine h.same rfl id ?_ ?_
  · cases o <;> simp
  · cases o with
    | inl m =>
      simp at hgranted ⊢
      omega
    | inr σ' =>
      simp [count_singleton] at hgranted ⊢
      omega

/-- **What one operation does to a semaphore.** -/
theorem conserved_step {op : WaitOp Tid M S} (hq : Queued a)
    (hwrap : a.NoSemWrap σ op) (hs : a.step op = some (b, out)) :
    Conserved init (tr ++ out) b σ := by
  cases outcome_of_step hs with
  | startup t p hmode => exact h.frame rfl rfl (by simp [hmode]) (by simp) id (by simp)
  | lent t m owner hmode howner hne hvalue =>
    -- the thread waits for a mutex; lending the priority changes no mode
    have hne' : (.inr σ : M ⊕ S) ≠ .inl m := by simp
    split
    all_goals
      exact h.frame rfl rfl (by simp [hmode]) (by simp)
        (fun hn => by simpa [beginWait, setPrio, hne'] using hn) (by simp)
  | givenUp t m hmode howner hhold =>
    rw [WaitSys.giveUp]
    split
    · next next rest hlist =>
      have hnext : a.mode next = .waiting (.inl m) := (hq _ next).1 (by simp [hlist])
      exact h.frame rfl rfl (show a.mode next ≠ _ by simp [hnext]) (by simp)
        (filter_eq_nil next) (by simp)
    · exact h.idle rfl rfl rfl (by simp)
  | semTaken caller σ' waits hvalue =>
    by_cases hσ : σ' = σ
    · subst hσ
      exact h.take hvalue
    · exact h.idle (by simp [setSem, Ne.symm hσ]) rfl rfl (by simp [hσ])
  | semWaits t σ' hmode hvalue =>
    by_cases hσ : σ' = σ
    · subst hσ
      rw [append_nil]
      exact h.wait hmode hvalue _
    · have hne : (.inr σ : M ⊕ S) ≠ .inr σ' := fun he => hσ (Sum.inr.inj he).symm
      exact h.frame rfl rfl (by simp [hmode]) (by simp)
        (fun hn => by simpa [beginWait, hne] using hn) (by simp)
  | semHandOver σ' next rest hlist =>
    have hnext : a.mode next = .waiting (.inr σ') := (hq _ next).1 (by simp [hlist])
    by_cases hσ : σ' = σ
    · subst hσ
      exact h.handOver hnext
    · exact h.frame rfl rfl (by simp [hnext]) (by simp [hσ]) (filter_eq_nil next) (by simp [hσ])
  | semGiven σ' hlist =>
    by_cases hσ : σ' = σ
    · subst hσ
      exact h.give hlist (hwrap rfl hlist)
    · exact h.idle (by simp [setSem, Ne.symm hσ]) rfl rfl (by simp [hσ])
  | semControl σ' value =>
    have hne : (.inr σ : M ⊕ S) ≠ .inr σ' := fun he => hwrap (Sum.inr.inj he).symm
    refine h.same (by simp [setSem, Ne.symm hwrap]) (fun hn => by simpa [setSem, hne] using hn)
      rfl ?_
    simp only [count_nil, Nat.zero_add, granted, setSem]
    congr 1
    apply Finset.filter_congr
    intro u _
    by_cases hu : u ∈ a.queue (.inr σ')
    · simp [hu, (hq _ u).1 hu]
    · simp [hu]
  | wake t o err hmode herr =>
    exact h.frame rfl rfl (by simp [hmode]) (by simp [herr]) (filter_eq_nil t) (by simp)
  | ret t o err hmode => exact h.ret hmode
  | _ => exact h.idle rfl rfl rfl (by simp)

end

theorem ended_step {op : WaitOp Tid M S} (hq : Queued a) {o : M ⊕ S} {err : RtErr}
    (ht : a.mode t = .ended o err) (hs : a.step op = some (b, out)) :
    b.mode t = .ended o err ∨ b.mode t = .outside ∧
      out = [o.elim (.mutexTake t · err) (.semTake · err)] := by
  -- another thread changes its mode
  have hother : ∀ {u : Tid} {mode : Mode (M ⊕ S)}, a.mode u ≠ .ended o err →
      update a.mode u mode t = .ended o err := by
    intro u mode hu
    have hne : t ≠ u := by
      intro he
      exact hu (he ▸ ht)
    rw [update_of_ne hne, ht]
  have hwaits : ∀ (o' : M ⊕ S) {u : Tid}, u ∈ a.queue o' → a.mode u ≠ .ended o err := by
    intro o' u hu
    rw [(hq o' u).1 hu]
    exact nofun
  cases outcome_of_step hs with
  | startup u p hmode => exact .inl (hother (by simp [hmode]))
  | lent u m owner hmode howner hne hvalue =>
    refine .inl ?_
    split <;> exact hother (by simp [hmode])
  | givenUp u m hmode howner hhold =>
    refine .inl ?_
    rw [WaitSys.giveUp]
    split
    · next next rest hlist => exact hother (hwaits (.inl m) (by simp [hlist]))
    · exact ht
  | semWaits u σ' hmode hvalue => exact .inl (hother (by simp [hmode]))
  | semHandOver σ' next rest hlist => exact .inl (hother (hwaits (.inr σ') (by simp [hlist])))
  | semControl σ' value =>
    have hu : t ∉ a.queue (.inr σ') := fun hu => hwaits _ hu ht
    exact .inl (by simpa [setSem, hu] using ht)
  | wake u o' err' hmode herr => exact .inl (hother (by simp [hmode]))
  | ret u o' err' hmode =>
    by_cases he : t = u
    · subst he
      rw [ht] at hmode
      cases hmode
      exact .inr ⟨update_self .., rfl⟩
    · exact .inl ((update_of_ne he ..).trans ht)
  | _ => exact .inl ht

end WaitSys

/-! ### The calls -/

namespace IpcSys

variable [RtConfig] {Tid M S : Type} [Fintype Tid] [DecidableEq Tid] [DecidableEq M] [DecidableEq S]

/-- The takes of `σ` in a run to `s` that returned or will return `RT_EOK`. -/
def semTakes (tr : List (IpcEvent Tid M S)) (s : IpcSys Tid M S) (σ : S) : ℕ :=
  tr.count (.semTake σ .eok) + (Finset.univ.filter fun t => s.Granted (.inr σ) t).card

/-- The initial value and the successful releases of `σ` are its value and its successful
takes, and no thread is in its suspend list while the value is positive. -/
structure SemRight (init : ℕ) (tr : List (IpcEvent Tid M S)) (s : IpcSys Tid M S) (σ : S) :
    Prop where
  units : init + tr.count (.semRelease σ) = (s.sem σ).value.toNat + semTakes tr s σ
  no_waiter : (s.sem σ).value > 0 → s.kernel.list (.suspended (.inr σ)) = []

/-- In a step from `s` to `s'`, a call that will return `RT_EOK` still will, or does. -/
def GrantsKept (s : IpcSys Tid M S) (out : List (IpcEvent Tid M S)) (s' : IpcSys Tid M S)
    (σ : S) : Prop :=
  ∀ t, s.Granted (.inr σ) t →
    s'.Granted (.inr σ) t ∨ (s'.pc t).waitsFor = none ∧ out = [.semTake σ .eok]

/-- The counter of `σ` is not released at 65535 with no thread waiting, and not reset. -/
def NoSemWrap (σ : S) (s : IpcSys Tid M S) (a : IpcAction Tid M S) : Prop :=
  match s.op a with
  | some (.semRelease σ') =>
    σ' = σ → s.kernel.list (.suspended (.inr σ)) = [] → (s.sem σ).value ≠ 65535
  | some (.semControl σ' _) => σ' ≠ σ
  | _ => True

instance (σ : S) (s : IpcSys Tid M S) (a : IpcAction Tid M S) : Decidable (NoSemWrap σ s a) := by
  unfold NoSemWrap
  exact match s.op a with
    | some (.semRelease σ') => inferInstanceAs (Decidable (σ' = σ → _))
    | some (.semControl σ' _) => inferInstanceAs (Decidable (σ' ≠ σ))
    | none | some (.startup ..) | some (.control ..) | some (.mutexTake ..)
    | some (.mutexRelease ..) | some (.semTake ..) | some (.wake ..) | some (.ret _) => isTrue trivial

variable {idle : Tid} {tr out : List (IpcEvent Tid M S)} {s s' : IpcSys Tid M S} {σ : S} {t : Tid}

theorem Inv.semTakes_eq (h : Inv idle s) (tr : List (IpcEvent Tid M S)) (σ : S) :
    semTakes tr s σ = tr.count (.semTake σ .eok) + s.waitSys.granted σ := by
  simp only [semTakes, WaitSys.granted, h.granted_iff]

theorem semRight_of_conserved {init : ℕ} (h : Inv idle s)
    (hc : s.waitSys.Conserved init tr σ) : SemRight init tr s σ := by
  refine ⟨?_, hc.no_waiter⟩
  rw [h.semTakes_eq]
  exact hc.units

theorem NoSemWrap.op {a : IpcAction Tid M S} {op : WaitOp Tid M S} (h : NoSemWrap σ s a)
    (ho : s.op a = some op) : s.waitSys.NoSemWrap σ op := by
  rw [NoSemWrap, ho] at h
  cases op with
  | semRelease σ' => exact h
  | semControl σ' value => exact h
  | _ => exact True.intro

theorem conserved_boot {prio : Tid → ℕ} {mutexFlag : M → IpcFlag} {semValue : S → UInt32}
    {semFlag : S → IpcFlag} (hinit : (semValue σ).toNat ≤ 65535) :
    (boot idle prio mutexFlag semValue semFlag).waitSys.Conserved (semValue σ).toNat [] σ := by
  have hmode : ∀ t, (boot idle prio mutexFlag semValue semFlag).waitSys.mode t ≠
      .ended (.inr σ) .eok := by
    intro t
    rw [mode_boot]
    split <;> simp
  have hgranted : (boot idle prio mutexFlag semValue semFlag).waitSys.granted σ = 0 :=
    Finset.card_eq_zero.2 (Finset.filter_eq_empty_iff.2 fun t _ => hmode t)
  have hvalue : ((boot idle prio mutexFlag semValue semFlag).sem σ).value.toNat =
      (semValue σ).toNat := by
    show (semValue σ).toUInt16.toNat = _
    rw [UInt32.toNat_toUInt16]
    omega
  refine ⟨?_, ?_⟩
  · rw [hgranted, waitSys_sem, hvalue]
    rfl
  · intro _
    rw [waitSys, view_boot]
    rfl

theorem grantsKept_step (h : Inv idle s) {a : IpcAction Tid M S}
    (hs : s.step idle a = some (s', out)) : GrantsKept s out s' σ := by
  obtain ⟨hinv', hop⟩ := refines_step h hs
  intro t ht
  have hmode := h.granted_iff.1 ht
  cases ha : s.op a with
  | none =>
    rw [ha] at hop
    exact .inl (hinv'.granted_iff.2 (hop.1 ▸ hmode))
  | some op =>
    rw [ha] at hop
    rcases WaitSys.ended_step h.queued hmode hop with hended | ⟨hout, rfl⟩
    · exact .inl (hinv'.granted_iff.2 hended)
    · exact .inr ⟨(modeOf_eq_outside.1 hout).2, rfl⟩

/-- In every run in which the counter of a semaphore stays in its range, the units of the
semaphore add up in every state, and the calls that were given one return `RT_EOK`. -/
theorem run_semRight (idle : Tid) (prio : Tid → ℕ) (hprio : ∀ t, prio t < priorityMax)
    (mutexFlag : M → IpcFlag) (semValue : S → UInt32) (semFlag : S → IpcFlag) (σ : S)
    (hinit : (semValue σ).toNat ≤ 65535) (tr : List (IpcEvent Tid M S)) (s : IpcSys Tid M S)
    (hrun : Run (step idle) (NoSemWrap σ) (boot idle prio mutexFlag semValue semFlag) tr s) :
    SemRight (semValue σ).toNat tr s σ ∧ ∀ a s' out, s.step idle a = some (s', out) →
      GrantsKept s out s' σ := by
  have hboot := inv_boot idle prio mutexFlag semValue semFlag hprio
  obtain ⟨hinv, hwaits⟩ := run_refines idle (fun hC ho => NoSemWrap.op hC ho) hboot hrun
  have hcons := hwaits.invariant (fun tr a => a.Queued ∧ a.Conserved (semValue σ).toNat tr σ)
    ⟨hboot.queued, conserved_boot hinit⟩ fun ⟨hq, hc⟩ hw hs =>
      ⟨WaitSys.queued_step hq hs, WaitSys.conserved_step hc hq hw hs⟩
  exact ⟨semRight_of_conserved hinv hcons.2, fun a s' out hs => grantsKept_step hinv hs⟩

end IpcSys

namespace IpcSys

/-- Thread 1 waits for a semaphore without units, an interrupt handler releases it, and the
take of thread 1 returns. -/
def isrGives : List (IpcAction (Fin 2) Empty Unit) :=
  [.startup 1, .schedulerStart, .call (.semTake () (-1)), .cont, .cont, .isrSemRelease (),
    .schedule, .cont]

theorem run_semRight_isrGives :
    letI := config32
    ∃ (tr : List (IpcEvent (Fin 2) Empty Unit)) (s : IpcSys (Fin 2) Empty Unit),
      semTakes tr s () = 1 ∧ SemRight 0 tr s () ∧
        ∀ a s' out, s.step 0 a = some (s', out) → GrantsKept s out s' () := by
  let _ := config32
  have hsome : ((exec (step 0) (NoSemWrap ()) (boot 0 (fun t : Fin 2 => 31 - 10 * t.val)
      (fun _ : Empty => .prio) (fun _ : Unit => 0) (fun _ => .fifo)) isrGives).map fun r =>
      semTakes r.2 r.1 ()) = some 1 := by
    decide +kernel
  obtain ⟨⟨s, tr⟩, hexec, htakes⟩ := Option.map_eq_some_iff.1 hsome
  exact ⟨tr, s, htakes, run_semRight 0 (fun t : Fin 2 => 31 - 10 * t.val) (by decide)
    (fun _ : Empty => .prio) (fun _ : Unit => 0) (fun _ => .fifo) () (by decide) tr s
    (Run.of_exec hexec)⟩

/-- A release of a semaphore with 65535 units leaves it with **none**. -/
theorem not_semRight_wrap :
    ¬ ∀ [RtConfig] (idle : Fin 2) (prio : Fin 2 → ℕ) (_ : ∀ t, prio t < priorityMax)
      (mutexFlag : Empty → IpcFlag) (semValue : Unit → UInt32) (semFlag : Unit → IpcFlag)
      (tr : List (IpcEvent (Fin 2) Empty Unit)) (s : IpcSys (Fin 2) Empty Unit)
      (_ : Run (step idle) (fun s a => ∀ value, s.op a ≠ some (.semControl () value))
        (boot idle prio mutexFlag semValue semFlag) tr s),
      SemRight (semValue ()).toNat tr s () := by
  intro h
  let _ := config32
  obtain ⟨s, out, hs, hvalue, hout⟩ : ∃ s out,
      (boot 0 (fun t : Fin 2 => 31 - 10 * t.val) (fun _ : Empty => .prio)
        (fun _ : Unit => 65535) (fun _ => .fifo)).step 0 (.isrSemRelease ()) = some (s, out) ∧
      ((s.sem ()).value.toNat + semTakes out s () = 0) ∧ out = [.semRelease ()] :=
    ⟨_, _, rfl, by decide, rfl⟩
  have hrun := Run.snoc (C := fun s a => ∀ value, s.op a ≠ some (.semControl () value))
    Run.nil (fun _ => by simp [op]) hs
  have hunits := (h 0 (fun t : Fin 2 => 31 - 10 * t.val) (by decide) (fun _ : Empty => .prio)
    (fun _ : Unit => 65535) (fun _ => .fifo) _ s hrun).units
  rw [nil_append, hvalue, hout] at hunits
  exact absurd hunits (by decide)

end IpcSys

end RtThread
