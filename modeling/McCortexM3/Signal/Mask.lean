import McCortexM3.Signal.Signal

/-!
# Masked signals

`rt_thread_handle_sig` tests whether some pending signal is unmasked, and then handles the signal
of the first node of the list, which may be another one.

## Main definitions

* `SignalSys.RespectsMask` — the first node is one of an unmasked signal.
* `pendingAfter` — the pending signals, from the events.

## Main results

* `SignalSys.run_masked` — then no handler of a masked signal is called, and a signal stays pending
  until its handler has returned or `rt_signal_wait` has returned it.
-/

set_option linter.all false

namespace RtThread

open Function Option List

variable {Tid ι : Type} [DecidableEq Tid] [DecidableEq ι]

/-- The pending signals of the thread `t` after an event. -/
def pendingAfter (t : Tid) (pending : BitVec 32) : SignalEvent Tid → BitVec 32
  | .sent u sig => if u = t then pending ||| sigMask sig else pending
  | .invoked .. => pending
  | .handled u sig _ => if u = t then pending &&& ~~~sigMask sig else pending
  | .received u sig => if u = t then pending &&& ~~~sigMask sig else pending

/-- A handler is called for an unmasked signal, and was so when it ends. -/
def SignalEvent.Unmasked : SignalEvent Tid → Prop
  | .invoked _ _ _ unmasked => unmasked = true
  | .handled _ _ unmasked => unmasked = true
  | _ => True

/-- A signal whose handler is about to be called is unmasked, and one whose handler runs was
unmasked when it was called. -/
def SigThread.Right (th : SigThread) : Prop :=
  ∀ f ∈ th.frames,
    (f.unmasked = none → th.sigMask &&& RtThread.sigMask f.signo ≠ 0) ∧ f.unmasked ≠ some false

namespace SignalSys

variable {mp defaultHandler : UInt32} {fuel : ℕ} {s s' : SignalSys Tid ι} {a : SignalAction Tid ι}
  {out : List (SignalEvent Tid)} {t u : Tid} {i : ι}

/-- The head of the loop of `rt_thread_handle_sig` finds no node, or one of an unmasked signal. -/
def HeadUnmasked (s : SignalSys Tid ι) (t : Tid) : Prop :=
  let th := s.thread t
  th.sigPending &&& th.sigMask ≠ 0 → th.siList ≠ 0 → s.unmasked t (siSigno s.pool th.siList)

instance (s : SignalSys Tid ι) (t : Tid) : Decidable (s.HeadUnmasked t) := by
  unfold HeadUnmasked
  infer_instance

/-- `rt_thread_handle_sig` takes the node of an unmasked signal, and the signal is not masked
between this and the call of its handler. -/
def RespectsMask (mp : UInt32) (s : SignalSys Tid ι) : SignalAction Tid ι → Prop
  | .handleSig t => (s.thread t).waiting = none → s.HeadUnmasked t
  | .handlerDone t =>
    match (s.thread t).frames with
    | f :: rest => ∀ s' ∈ s.handlerEnd mp t f rest, s'.HeadUnmasked t
    | [] => True
  | .mask t signo => ∀ f ∈ (s.thread t).frames, f.unmasked = none → f.signo ≠ signo
  | _ => True

instance (mp : UInt32) (s : SignalSys Tid ι) (a : SignalAction Tid ι) :
    Decidable (s.RespectsMask mp a) := by
  unfold RespectsMask
  split
  · infer_instance
  · split <;> infer_instance
  · infer_instance
  · infer_instance

/-! ### The steps -/

/-- What a step has to keep: all threads are right, only unmasked signals are handled, and the
events say which signals are pending. -/
structure Masks (s s' : SignalSys Tid ι) (out : List (SignalEvent Tid)) : Prop where
  right : ∀ t, (s'.thread t).Right
  unmasked : ∀ e ∈ out, e.Unmasked
  pending : ∀ t, (s'.thread t).sigPending = out.foldl (pendingAfter t) (s.thread t).sigPending

theorem masks_refl (h : ∀ t, (s.thread t).Right) (hthread : s'.thread = s.thread) :
    Masks s s' [] := by
  refine ⟨?_, nofun, ?_⟩
  · rw [hthread]
    exact h
  · intro t
    rw [hthread]
    rfl

theorem Masks.trans {s₁ : SignalSys Tid ι} (h₁ : Masks s s₁ []) (h₂ : Masks s₁ s' out) :
    Masks s s' out :=
  ⟨h₂.right, h₂.unmasked, fun t =>
    (h₂.pending t).trans (congrArg (out.foldl (pendingAfter t)) (h₁.pending t))⟩

theorem masks_setThread (h : ∀ t, (s.thread t).Right) {th : SigThread}
    (hthread : s'.thread = Function.update s.thread t th) (hright : th.Right)
    (hev : ∀ e ∈ out, e.Unmasked)
    (hpending : th.sigPending = out.foldl (pendingAfter t) (s.thread t).sigPending)
    (hother : ∀ u, u ≠ t → ∀ pending, out.foldl (pendingAfter u) pending = pending) :
    Masks s s' out := by
  refine ⟨?_, hev, ?_⟩
  · intro u
    rw [hthread]
    by_cases hu : u = t
    · subst hu
      rw [update_self]
      exact hright
    · rw [update_of_ne hu]
      exact h u
  · intro u
    rw [hthread]
    by_cases hu : u = t
    · subst hu
      rw [update_self]
      exact hpending
    · rw [update_of_ne hu, hother u hu]

theorem Masks.nextSignal (h : Masks s s' out) (hhead : s'.HeadUnmasked t) :
    Masks s (s'.nextSignal t) out := by
  rcases nextSignal_cases t s' with heq | ⟨⟨hpending, hlist⟩, heq⟩
  · rw [heq]
    exact h
  · rw [heq]
    have hunmasked := of_decide_eq_true (hhead hpending hlist)
    refine ⟨?_, h.unmasked, ?_⟩
    · intro u
      by_cases hu : u = t
      · subst hu
        rw [thread_setThread_self]
        intro f hf
        rcases mem_cons.1 hf with rfl | hf
        · exact ⟨fun _ => hunmasked, nofun⟩
        · exact h.right u f hf
      · rw [thread_setThread_of_ne hu]
        exact h.right u
    · intro u
      rw [← h.pending u]
      by_cases hu : u = t
      · subst hu
        rw [thread_setThread_self]
      · rw [thread_setThread_of_ne hu]

section

variable (h : ∀ t, (s.thread t).Right)
include h

theorem masks_kill (i : ι) (t : Tid) (sig : ℕ) : Masks s (s.kill i t sig).1 (s.kill i t sig).2 := by
  unfold kill
  dsimp only
  split
  · exact masks_refl h rfl
  · split
    · exact masks_refl h rfl
    · refine masks_setThread (t := t) h rfl ?_ ?_ ?_ ?_
      · exact h t
      · intro e he
        rw [mem_singleton.1 he]
        exact trivial
      · exact (if_pos rfl).symm
      · intro u hu pending
        exact if_neg (Ne.symm hu)

theorem masks_invoke {node : UInt32} {signo : ℕ}
    {rest : List SigFrame} (hframes : (s.thread t).frames = ⟨node, signo, none⟩ :: rest) :
    Masks s (s.invoke t ⟨node, signo, none⟩ rest).1 (s.invoke t ⟨node, signo, none⟩ rest).2 := by
  have hright := h t
  unfold SigThread.Right at hright
  rw [hframes] at hright
  -- the frame has been right since its node was taken
  have hunmasked : s.unmasked t signo = true :=
    decide_eq_true ((hright _ mem_cons_self).1 rfl)
  unfold invoke
  dsimp only
  rw [hunmasked]
  refine masks_setThread (t := t) h rfl ?_ ?_ ?_ ?_
  · intro f hf
    rcases mem_cons.1 hf with rfl | hf
    · exact ⟨nofun, nofun⟩
    · exact hright f (mem_cons_of_mem _ hf)
  · intro e he
    rw [mem_singleton.1 he]
    exact rfl
  · rfl
  · exact fun _ _ _ => rfl

theorem masks_handlerEnd {node : UInt32} {signo : ℕ} {unmasked : Bool} {rest : List SigFrame}
    (hframes : (s.thread t).frames = ⟨node, signo, some unmasked⟩ :: rest)
    (hs : s.handlerEnd mp t ⟨node, signo, some unmasked⟩ rest = some s') :
    Masks s s' [.handled t signo unmasked] := by
  obtain ⟨m, -, rfl⟩ := map_eq_some_iff.1 hs
  have hright := h t
  unfold SigThread.Right at hright
  rw [hframes] at hright
  refine masks_setThread (t := t) h rfl ?_ ?_ ?_ ?_
  · exact fun f hf => hright f (mem_cons_of_mem _ hf)
  · intro e he
    rw [mem_singleton.1 he]
    have hne := (hright _ mem_cons_self).2
    cases unmasked
    · exact absurd rfl hne
    · rfl
  · exact (if_pos rfl).symm
  · exact fun u hu pending => if_neg (Ne.symm hu)

theorem masks_waitTake {set : BitVec 32}
    (hs : s.waitTake mp fuel t set = some (s', out)) : Masks s s' out := by
  unfold waitTake at hs
  dsimp only at hs
  split at hs
  · cases hs
  · cases hs
    exact masks_refl h rfl
  · obtain ⟨m, -, hs⟩ := map_eq_some_iff.1 hs
    cases hs
    refine masks_setThread (t := t) h rfl ?_ ?_ ?_ ?_
    · exact h t
    · intro e he
      rw [mem_singleton.1 he]
      exact trivial
    · exact (if_pos rfl).symm
    · exact fun u hu pending => if_neg (Ne.symm hu)

theorem masks_setThread_nil {th : SigThread} (hright : th.Right)
    (hpending : th.sigPending = (s.thread t).sigPending) : Masks s (s.setThread t th) [] :=
  masks_setThread h rfl hright nofun hpending fun _ _ _ => rfl

theorem masks_rtSignalMask {signo : ℕ}
    (hc : ∀ f ∈ (s.thread t).frames, f.unmasked = none → f.signo ≠ signo) :
    Masks s (s.rtSignalMask t signo) [] := by
  refine masks_setThread_nil h ?_ rfl
  intro f hf
  obtain ⟨hunmasked, hne⟩ := h t f hf
  refine ⟨?_, hne⟩
  intro hnone
  rw [and_sigMask_ne_zero, getLsbD_and_not_sigMask]
  exact ⟨and_sigMask_ne_zero.1 (hunmasked hnone), (hc f hf hnone).symm⟩

theorem masks_rtSignalUnmask (t : Tid) (signo : ℕ) : Masks s (s.rtSignalUnmask t signo) [] := by
  refine masks_setThread_nil h ?_ rfl
  intro f hf
  obtain ⟨hunmasked, hne⟩ := h t f hf
  refine ⟨?_, hne⟩
  intro hnone
  rw [and_sigMask_ne_zero, getLsbD_or_sigMask]
  exact .inl (and_sigMask_ne_zero.1 (hunmasked hnone))

theorem masks_step (hc : s.RespectsMask mp a)
    (hs : s.step mp defaultHandler fuel a = some (s', out)) : Masks s s' out := by
  unfold step at hs
  cases a with
  | kill i t sig =>
    dsimp only at hs
    split at hs
    · obtain ⟨rfl, rfl⟩ := Prod.mk.inj (some.inj hs)
      exact masks_kill h i t sig
    · cases hs
  | killSearch i =>
    dsimp only at hs
    split at hs
    · obtain ⟨rfl, rfl⟩ := Prod.mk.inj (some.inj hs)
      apply masks_refl h
      unfold killSearch
      dsimp only
      split_ifs <;> rfl
    · cases hs
  | killAlloc i =>
    dsimp only at hs
    split at hs
    · obtain ⟨s₁, hs₁, hs⟩ := map_eq_some_iff.1 hs
      cases hs
      apply masks_refl h
      unfold killAlloc at hs₁
      split at hs₁
      · rw [← some.inj hs₁]
        rfl
      · obtain ⟨r, -, rfl⟩ := map_eq_some_iff.1 hs₁
        rfl
    · cases hs
  | killAppend i =>
    dsimp only at hs
    split at hs
    · next t sig siNode _ =>
      obtain ⟨s₁, hs₁, hs⟩ := map_eq_some_iff.1 hs
      cases hs
      unfold killAppend at hs₁
      dsimp only at hs₁
      split at hs₁
      · rw [← some.inj hs₁]
        refine masks_setThread (t := t) h rfl ?_ nofun rfl fun _ _ _ => rfl
        exact h t
      · obtain ⟨m, -, rfl⟩ := map_eq_some_iff.1 hs₁
        exact masks_refl h rfl
    · cases hs
  | handleSig t =>
    dsimp only at hs
    split at hs
    · next hwaiting =>
      cases hs
      exact (masks_refl h rfl).nextSignal (hc hwaiting)
    · cases hs
      exact masks_refl h rfl
  | invoke t =>
    dsimp only at hs
    split at hs
    · next hframes =>
      cases hs
      exact masks_invoke h hframes
    · cases hs
  | handlerDone t =>
    dsimp only at hs
    split at hs
    · next hframes =>
      obtain ⟨s₁, hs₁, hs⟩ := map_eq_some_iff.1 hs
      cases hs
      unfold RespectsMask at hc
      dsimp only at hc
      rw [hframes] at hc
      exact (masks_handlerEnd h hframes hs₁).nextSignal (hc s₁ hs₁)
    · cases hs
  | mask t signo =>
    dsimp only at hs
    split at hs
    · cases hs
      exact masks_rtSignalMask h hc
    · cases hs
  | unmask t signo =>
    dsimp only at hs
    split at hs
    · cases hs
      exact masks_rtSignalUnmask h t signo
    · cases hs
  | install t signo handler =>
    dsimp only at hs
    split at hs
    · cases hs
      unfold rtSignalInstall
      dsimp only
      split
      · exact masks_refl h rfl
      · exact masks_setThread_nil h (h t) rfl
    · cases hs
  | wait t set poll =>
    dsimp only at hs
    split at hs
    · unfold wait at hs
      dsimp only at hs
      split_ifs at hs
      · cases hs
        exact masks_refl h rfl
      · exact masks_waitTake h hs
      · cases hs
        exact masks_refl h rfl
      · cases hs
        exact masks_setThread_nil h (h t) rfl
    · cases hs
  | waitEnd t timeout =>
    dsimp only at hs
    split at hs
    · unfold waitEnd at hs
      dsimp only at hs
      have hmasks : Masks s (s.setThread t { s.thread t with waiting := none }) [] := by
        refine masks_setThread_nil h ?_ rfl
        exact h t
      split at hs
      · cases hs
        exact hmasks
      · exact hmasks.trans (masks_waitTake hmasks.right hs)
    · cases hs

end

/-! ### Every run -/

/-- In every run in which `rt_thread_handle_sig` takes only nodes of unmasked signals, a handler
is called only **while its signal is unmasked**; and a signal that has been sent stays pending until
such a call has ended or `rt_signal_wait` has returned it. -/
theorem run_masked (mp defaultHandler : UInt32) (fuel : ℕ) (pool : Mempool)
    {tr : List (SignalEvent Tid)} {s : SignalSys Tid ι}
    (hrun : Run (step mp defaultHandler fuel) (RespectsMask mp) (boot pool) tr s) :
    (∀ t sig handler unmasked, .invoked t sig handler unmasked ∈ tr → unmasked = true) ∧
      (∀ t sig unmasked, .handled t sig unmasked ∈ tr → unmasked = true) ∧
      ∀ t, (s.thread t).sigPending = tr.foldl (pendingAfter t) 0 := by
  have hmasks : Masks (boot pool) s tr := by
    refine hrun.invariant (fun tr s => Masks (boot pool) s tr) (masks_refl ?_ rfl) ?_
    · exact fun _ _ hf => absurd hf not_mem_nil
    · intro tr s a s' out h hc hs
      have hstep := masks_step h.right hc hs
      refine ⟨hstep.right, ?_, ?_⟩
      · intro e he
        exact (mem_append.1 he).elim (h.unmasked e) (hstep.unmasked e)
      · intro t
        rw [hstep.pending t, h.pending t, foldl_append]
  exact ⟨fun t sig handler unmasked he => hmasks.unmasked _ he,
    fun t sig unmasked he => hmasks.unmasked _ he, hmasks.pending⟩

/-- A thread unmasks the signal 1, gets the two signals in this order and handles one of them. -/
def handlesOne (sig sig' : ℕ) : List (SignalAction Unit Unit) :=
  .unmask () 1 :: killActions sig ++ killActions sig' ++ [SignalAction.handleSig (), .invoke ()]

/-- The signal 1 is handled, and the signal 2, which is masked, stays pending. -/
theorem run_masked_two : ∃ (tr : List (SignalEvent Unit)) (s : SignalSys Unit Unit),
    .invoked () 1 7 true ∈ tr ∧ (s.thread ()).sigPending = sigMask 2 ∧
      (∀ t sig handler unmasked, .invoked t sig handler unmasked ∈ tr → unmasked = true) ∧
      (s.thread ()).sigPending = tr.foldl (pendingAfter ()) 0 := by
  have hsome : somePool.any fun pool => (exec (step 0x100 7 3) (RespectsMask 0x100) (boot pool)
      (.install () 1 0 :: handlesOne 1 2 ++ [SignalAction.handlerDone ()])).any fun r =>
        .invoked () 1 7 true ∈ r.2 ∧ (r.1.thread ()).sigPending = sigMask 2 := by
    decide +kernel
  obtain ⟨pool, -, hrun⟩ := (Option.any_eq_true _ _).1 hsome
  obtain ⟨⟨s, tr⟩, hexec, hs⟩ := (Option.any_eq_true _ _).1 hrun
  obtain ⟨hmem, hpending⟩ := of_decide_eq_true hs
  obtain ⟨hinvoked, -, hfold⟩ := run_masked 0x100 7 3 pool (Run.of_exec hexec)
  exact ⟨tr, s, hmem, hpending, hinvoked, hfold ()⟩

/-- When the masked signal has come first, **its handler is called**. -/
theorem not_run_masked :
    ¬ ∀ (mp defaultHandler : UInt32) (fuel : ℕ) (ram : ℕ → UInt8) (start : UInt32) (pool : Mempool)
      (tr : List (SignalEvent Unit)) (s : SignalSys Unit Unit),
      Mempool.rtMpCreate ram start rtSigInfoMax sizeofSiginfoNode = some pool →
        Run (step mp defaultHandler fuel) (fun _ _ => True) (boot pool) tr s →
          ∀ t sig handler unmasked, .invoked t sig handler unmasked ∈ tr → unmasked = true := by
  intro h
  have hsome : somePool.any fun pool => (exec (step 0x100 7 3) (fun _ _ => True) (boot pool)
      (.install () 2 0 :: handlesOne 2 1)).any fun r => .invoked () 2 7 false ∈ r.2 := by
    decide +kernel
  obtain ⟨pool, hpool, hrun⟩ := (Option.any_eq_true _ _).1 hsome
  obtain ⟨⟨s, tr⟩, hexec, hs⟩ := (Option.any_eq_true _ _).1 hrun
  have hmem := of_decide_eq_true hs
  cases h 0x100 7 3 _ _ pool tr s hpool (Run.of_exec hexec) () 2 7 false hmem

end SignalSys

end RtThread
