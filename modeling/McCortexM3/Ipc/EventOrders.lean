import McCortexM3.Ipc.Event

/-!
# The two orders of a send and a receive

The test of the bits, the bits that are reported and the clearing are coded in `rt_event_send`, for a
thread that waits, and in `rt_event_recv`, for a thread that finds its bits.

## Main definitions

* `EvSys.recvSend`, `EvSys.sendRecv` — a thread waits and is woken, or comes after the send.
* `EvSys.got` — what its call has given.

## Main results

* `EvSys.orders_agree` — it gets the same, and leaves the same set.
-/

set_option linter.all false

namespace RtThread

open Function Option

theorem and_not_received {asked set : UInt32} {option : UInt8}
    (hsat : satisfied asked option set = true) :
    received asked option set = set &&& asked ∧
      set &&& ~~~received asked option set = set &&& ~~~asked := by
  unfold satisfied at hsat
  unfold received
  split at hsat
  case isTrue hand =>
    rw [if_pos hand, UInt32.and_comm set, of_decide_eq_true hsat]
    exact ⟨rfl, rfl⟩
  case isFalse hand =>
    rw [if_neg hand]
    refine ⟨UInt32.and_comm asked set, ?_⟩
    rw [← UInt32.toBitVec_inj]
    refine BitVec.eq_of_getLsbD_eq fun i hi => ?_
    rw [UInt32.toBitVec_and, UInt32.toBitVec_and, UInt32.toBitVec_not, UInt32.toBitVec_not,
      UInt32.toBitVec_and, BitVec.getLsbD_and, BitVec.getLsbD_and, BitVec.getLsbD_not,
      BitVec.getLsbD_not, BitVec.getLsbD_and, decide_eq_true hi, Bool.true_and, Bool.true_and]
    cases set.toBitVec.getLsbD i <;> cases asked.toBitVec.getLsbD i <;> rfl

namespace EvSys

variable {Tid : Type} [DecidableEq Tid] {s s' : EvSys Tid} {t : Tid} {out : List (EvEvent Tid)}

/-- What a call of `rt_event_recv` has given: the bits, if it has succeeded. -/
def got (t : Tid) (out : List (EvEvent Tid)) : Option UInt32 :=
  out.findSome? fun
    | .takes u _ _ _ recved => if u = t then some recved else none
    | .returns u err recved => if u = t ∧ err = .eok then some recved else none
    | _ => none

/-- The blocking order: `rt_event_recv`, `rt_event_send`, and the thread returns if it is woken. -/
def recvSend (s : EvSys Tid) (t : Tid) (asked : UInt32) (option : UInt8) (timeout : ℤ)
    (set : UInt32) : Option (EvSys Tid × List (EvEvent Tid)) :=
  (s.step (.recv t asked option timeout)).bind fun r =>
    (r.1.step (.send set)).bind fun r' =>
      if r'.1.threads.life t = .live then
        (r'.1.step (.again t)).map fun r'' => (r''.1, r.2 ++ r'.2 ++ r''.2)
      else some (r'.1, r.2 ++ r'.2)

/-- The other order: `rt_event_send`, and then `rt_event_recv`. -/
def sendRecv (s : EvSys Tid) (t : Tid) (asked : UInt32) (option : UInt8) (timeout : ℤ)
    (set : UInt32) : Option (EvSys Tid × List (EvEvent Tid)) :=
  (s.step (.send set)).bind fun r =>
    (r.1.step (.recv t asked option timeout)).map fun r' => (r'.1, r.2 ++ r'.2)

theorem asked_of_blocked {asked : UInt32} {option : UInt8} {timeout : ℤ}
    (hrecv : s.step (.recv t asked option timeout) = some (s', out))
    (hblocked : s'.threads.life t = .blocked) :
    s.canCall t = true ∧ (hasFlag option eventFlagAnd || hasFlag option eventFlagOr) = true ∧
      asked ≠ 0 ∧ satisfied asked option s.set = false ∧
      s' = ({ s with
        eventSet := Function.update s.eventSet t asked
        eventInfo := Function.update s.eventInfo t option
        threads := (s.threads.setError t .eok).rtIpcListSuspend () t s.flag }).goto t
          (.waiting timeout) ∧
      out = [.asks t asked option] := by
  unfold step recv at hrecv
  dsimp only at hrecv
  split at hrecv
  case isFalse => cases hrecv
  case isTrue hcall =>
    have hlive : s.threads.life t ≠ .blocked := by
      intro h
      rw [canCall, h] at hcall
      cases hcall
    split at hrecv
    case isTrue =>
      cases hrecv
      exact absurd hblocked hlive
    case isFalse hne =>
      split at hrecv
      case isFalse => cases hrecv
      case isTrue hflags =>
        split at hrecv
        case isTrue =>
          cases hrecv
          exact absurd hblocked hlive
        case isFalse hsat =>
          split at hrecv
          case isTrue =>
            cases hrecv
            exact absurd hblocked hlive
          case isFalse =>
            cases hrecv
            exact ⟨hcall, hflags, hne, Bool.not_eq_true _ ▸ hsat, rfl, rfl⟩

theorem recv_of_satisfied {asked : UInt32} {option : UInt8} {timeout : ℤ}
    (hcall : s.canCall t = true)
    (hflags : (hasFlag option eventFlagAnd || hasFlag option eventFlagOr) = true)
    (hne : asked ≠ 0) (hsat : satisfied asked option s.set = true) :
    s.step (.recv t asked option timeout) =
      some ({ s with
        threads := s.threads.setError t .eok
        set := if hasFlag option eventFlagClear then s.set &&& ~~~asked else s.set },
        [.takes t asked option s.set (s.set &&& asked)]) := by
  unfold step recv
  dsimp only
  rw [if_pos hcall, if_neg hne, if_pos hflags, if_pos hsat]

/-- `rt_event_recv` that does not find its bits leaves them, and gets nothing. -/
theorem recv_of_not_satisfied {asked : UInt32} {option : UInt8} (timeout : ℤ)
    (hcall : s.canCall t = true)
    (hflags : (hasFlag option eventFlagAnd || hasFlag option eventFlagOr) = true)
    (hne : asked ≠ 0) (hsat : satisfied asked option s.set = false) :
    ∃ r, s.step (.recv t asked option timeout) = some r ∧ r.1.set = s.set ∧ got t r.2 = none := by
  unfold step recv
  dsimp only
  rw [if_pos hcall, if_neg hne, if_pos hflags, if_neg (Bool.eq_false_iff.1 hsat)]
  split
  · exact ⟨_, rfl, rfl, rfl⟩
  · exact ⟨_, rfl, rfl, rfl⟩

theorem step_send_alone (halone : s.threads.queue () = []) (set : UInt32) :
    s.step (.send set) = some ({ s with set := s.set ||| set }, []) := by
  unfold step send
  dsimp only
  split
  case isTrue hzero => rw [hzero, UInt32.or_zero]
  case isFalse => rw [halone, walk]

theorem step_send_one (hone : s.threads.queue () = [t]) (set : UInt32)
    (hwaits : satisfied (s.eventSet t) (s.eventInfo t) s.set = false) :
    s.step (.send set) = some (({ s with set := s.set ||| set } : EvSys Tid).sendTo t) := by
  unfold step send
  dsimp only
  split
  case isTrue hzero =>
    rw [hzero, UInt32.or_zero]
    unfold sendTo
    rw [hwaits]
    rfl
  case isFalse =>
    rw [hone, walk, walk, List.append_nil]

theorem step_again {timeout : ℤ} (hlive : s.threads.life t = .live)
    (hpc : s.pc t = .waiting timeout) (herror : s.threads.error t = .eok) :
    s.step (.again t) = some (s.goto t .outside, [.returns t .eok (s.eventSet t)]) := by
  unfold step
  dsimp only
  rw [if_pos hlive, hpc, again, if_neg (not_not.2 herror), herror]

/-- **The orders agree**: when the call of a thread blocks and no other thread waits, a send gives it
what it would have got after the send, and leaves the same set. -/
theorem orders_agree {s s₁ : EvSys Tid} {t : Tid} {asked : UInt32} {option : UInt8}
    {timeout : ℤ} {out : List (EvEvent Tid)} (timeout' : ℤ) (set : UInt32)
    (halone : s.threads.queue () = [])
    (hrecv : s.step (.recv t asked option timeout) = some (s₁, out))
    (hblocked : s₁.threads.life t = .blocked) :
    ∃ r r', s.recvSend t asked option timeout set = some r ∧
      s.sendRecv t asked option timeout' set = some r' ∧
      got t r.2 = got t r'.2 ∧ r.1.set = r'.1.set := by
  obtain ⟨hcall, hflags, hne, hsat, hs₁, hout⟩ := asked_of_blocked hrecv hblocked
  have hasked : s₁.eventSet t = asked := by rw [hs₁]; exact update_self ..
  have hinfo : s₁.eventInfo t = option := by rw [hs₁]; exact update_self ..
  have hset : s₁.set = s.set := by rw [hs₁]; rfl
  have hone : s₁.threads.queue () = [t] := by
    rw [hs₁]
    show Function.update s.threads.queue () _ () = [t]
    rw [update_self]
    show ipcListInsert s.flag s.threads.prio t (s.threads.queue ()) = [t]
    rw [halone, ipcListInsert]
  have hpc : s₁.pc t = .waiting timeout := by rw [hs₁]; exact update_self ..
  have herror : s₁.threads.error t = .eok := by rw [hs₁]; exact update_self ..
  have hsend := step_send_one hone set (by rw [hasked, hinfo, hset, hsat])
  rw [hset] at hsend
  have hsend' := step_send_alone halone set
  unfold recvSend sendRecv
  rw [hrecv, bind_some, hsend, bind_some, hsend', bind_some, hout]
  rcases sendTo_cases { s₁ with set := s.set ||| set } t with ⟨hsat', he⟩ | ⟨hsat', he⟩
  · -- the thread goes on waiting, or finds nothing
    dsimp only at hsat'
    rw [hasked, hinfo] at hsat'
    obtain ⟨r', hr', hset', hgot⟩ := recv_of_not_satisfied (s := { s with set := s.set ||| set })
      timeout' hcall hflags hne hsat'
    have hlive : s₁.threads.life t ≠ .live := by
      rw [hblocked]
      decide
    rw [he, hr', if_neg hlive]
    exact ⟨_, _, rfl, rfl, hgot.symm, hset'.symm⟩
  · -- the thread is woken, or finds its bits
    dsimp only at hsat' he
    rw [hasked, hinfo] at hsat' he
    obtain ⟨hrecved, hclear⟩ := and_not_received hsat'
    rw [he, recv_of_satisfied (s := { s with set := s.set ||| set }) hcall hflags hne hsat']
    dsimp only
    have hlive : (s₁.threads.rtThreadResume t).life t = .live := update_self ..
    have hgot : Function.update s₁.eventSet t (received asked option (s.set ||| set)) t =
        (s.set ||| set) &&& asked := (update_self ..).trans hrecved
    rw [if_pos hlive, step_again]
    · dsimp only
      rw [hgot, hclear]
      refine ⟨_, _, rfl, rfl, ?_, rfl⟩
      simp [got]
    · exact hlive
    · exact hpc
    · exact herror

/-- A thread waits for one of two bits, and the send sets them and a third one. -/
theorem orders_agree_or :
    ∃ r r', (boot (fun _ : Unit => 0) (fun _ => 0) (fun _ => 0) .fifo).recvSend () 3
          (eventFlagOr ||| eventFlagClear) (-1) 7 = some r ∧
        (boot (fun _ : Unit => 0) (fun _ => 0) (fun _ => 0) .fifo).sendRecv () 3
          (eventFlagOr ||| eventFlagClear) 0 7 = some r' ∧
        got () r.2 = got () r'.2 ∧ r.1.set = r'.1.set :=
  orders_agree 0 7 rfl rfl rfl

end EvSys

end RtThread
