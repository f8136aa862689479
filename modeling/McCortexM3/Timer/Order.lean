import McCortexM3.SerialNumber
import McCortexM3.Timer.Rows
import McCortexM3.Run
import Mathlib.Data.Fintype.Card

/-!
# The order of the timers

The last row of `rt_timer_list` is to be sorted by the deadlines, as they are ahead of the current
tick in the order that goes round with the 32-bit tick, and timers with the same deadline by
their starts.  Then `rt_timer_check` finds the timers that are due at the beginning.

The comparisons of deadlines are right for deadlines at most half the range apart; and a
periodic timer that is started again must not be due again at once.

## Main definitions

* `Timers.rtTimerCheck` — the function, with timeout functions that leave the timers alone.
* `Timers.ahead` — the ticks until the deadline of a timer.
* `Timers.clockStep` — the runs.
* `Timers.InTime` — deadlines stay comparable, and periods are positive.

## Main results

* `Timers.run_fires` — in such runs the row is sorted, and `rt_timer_check` fires the timers that
  are due, in their order.
* `Timers.not_run_fires` — what happens in other runs.
-/

set_option linter.all false

namespace RtThread

open Function Option List Nat

/-- What can happen next: a call of a function of `timer.c`, or `n` ticks pass. -/
inductive ClockAction (Tm : Type)
  | start (t : Tm)
  | stop (t : Tm)
  | setTime (t : Tm) (time : UInt32)
  | setPeriodic (t : Tm) (periodic : Bool)
  | elapse (n : UInt32)
  | check

namespace Timers

variable [TimerConfig] {Tm : Type} [DecidableEq Tm]

/-- The loop of `rt_timer_check`, for at most `n` rounds: the timers, and those that have
fired. -/
def checkLoop (fuel : ℕ) : ℕ → UInt32 → Timers Tm → Option (Timers Tm × List Tm)
  | 0, _, _ => none
  | n + 1, currentTick, s =>
    match s.checkFire currentTick with
    | (s, none) => some (s, [])
    | (s, some t) =>
      (s.checkRestart fuel t).bind fun s' =>
        (checkLoop fuel n s.tick s').map fun r => (r.1, t :: r.2)

/-- `rt_timer_check`, when the timeout functions leave the timers alone. -/
def rtTimerCheck (fuel : ℕ) (s : Timers Tm) : Option (Timers Tm × List Tm) :=
  s.checkLoop fuel fuel s.tick

/-- One step, with at most `fuel` rounds for each loop: the timers, and those that have fired. -/
def clockStep (fuel : ℕ) (s : Timers Tm) : ClockAction Tm → Option (Timers Tm × List Tm)
  | .start t => (s.rtTimerStart fuel t).map fun s => (s, [])
  | .stop t => some ((s.rtTimerStop t).1, [])
  | .setTime t time => some (s.setTime t time, [])
  | .setPeriodic t periodic => some (s.setPeriodic t periodic, [])
  | .elapse n => some ({ s with tick := s.tick + n }, [])
  | .check => s.rtTimerCheck fuel

/-- The ticks from the current one to the deadline of `t`; they are negative when the deadline
has passed. -/
def ahead (s : Timers Tm) (t : Tm) : ℤ := serialDist (s.timer t).timeoutTick s.tick

/-- `t` stands before `u`: its deadline is earlier, or it is the same and `t` has been started
earlier. -/
def Before (s : Timers Tm) (t u : Tm) : Prop :=
  s.ahead t < s.ahead u ∨ s.ahead t = s.ahead u ∧ s.inserted t < s.inserted u

/-- The timer is in `rt_timer_list`. -/
def InTimerList (s : Timers Tm) (t : Tm) : Prop := s.softList t = false ∧ ¬ s.Unlinked t

instance (s : Timers Tm) (t : Tm) : Decidable (s.InTimerList t) :=
  inferInstanceAs (Decidable (_ ∧ _))

/-- Deadlines that are compared are at most half the range apart: that of a timer that is started,
or started again, from those in the list, and those in the list from the current tick.  (The test
`< RT_TICK_MAX / 2` of the code takes a difference of up to `2 ^ 31 + 1` for negative.) -/
def Timely (s : Timers Tm) : ClockAction Tm → Prop
  | .start t => s.softList t = false → ∀ u, s.InTimerList u → u ≠ t →
    -(2 ^ 31 + 1) ≤ s.ahead u - (s.timer t).initTick.toNat
  | .elapse n => ∀ u, s.InTimerList u → -(2 ^ 31 - 1) < s.ahead u - n.toNat
  | .check => ∀ t, s.InTimerList t → s.ahead t ≤ 0 → (s.timer t).periodic = true →
    ∀ u, s.InTimerList u → u ≠ t → -(2 ^ 31 + 1) ≤ s.ahead u - (s.timer t).initTick.toNat
  | _ => True

/-- The periods of the timers that are due are positive and less than `RT_TICK_MAX / 2`. -/
def GoodPeriods (s : Timers Tm) : ClockAction Tm → Prop
  | .check => ∀ t, s.InTimerList t → s.ahead t ≤ 0 → (s.timer t).periodic = true →
    0 < (s.timer t).initTick ∧ (s.timer t).initTick < halfTickMax
  | _ => True

/-- Deadlines stay comparable, and periods are positive. -/
def InTime (s : Timers Tm) (a : ClockAction Tm) : Prop := s.Timely a ∧ s.GoodPeriods a

instance [Fintype Tm] (s : Timers Tm) (a : ClockAction Tm) : Decidable (s.Timely a) := by
  unfold Timely
  split <;> infer_instance

instance [Fintype Tm] (s : Timers Tm) (a : ClockAction Tm) : Decidable (s.GoodPeriods a) := by
  unfold GoodPeriods
  split <;> infer_instance

instance [Fintype Tm] (s : Timers Tm) (a : ClockAction Tm) : Decidable (s.InTime a) :=
  inferInstanceAs (Decidable (_ ∧ _))

/-- `init_tick < RT_TICK_MAX / 2`. -/
def Short (s : Timers Tm) : Prop := ∀ t, (s.timer t).initTick < halfTickMax

instance [Fintype Tm] (s : Timers Tm) : Decidable s.Short :=
  inferInstanceAs (Decidable (∀ _, _))

/-- A row is sorted, its deadlines are less than half the range away from the current tick, and its
timers have their flag. -/
structure Ordered (s : Timers Tm) (l : List Tm) : Prop where
  sorted : l.Pairwise s.Before
  lower : ∀ u ∈ l, -(2 ^ 31 - 1) < s.ahead u
  upper : ∀ u ∈ l, s.ahead u < 2 ^ 31 - 1
  activated : ∀ u ∈ l, (s.timer u).activated = true
  inserted : ∀ u ∈ l, s.inserted u < s.insertions

variable {s s' : Timers Tm} {rows rows' : Bool → ℕ → List Tm} {t u : Tm} {l : List Tm} {fuel : ℕ}

/-! ### The order -/

theorem Before.ahead_le (h : s.Before t u) : s.ahead t ≤ s.ahead u := by
  rcases h with hlt | ⟨heq, -⟩
  · exact hlt.le
  · exact heq.le

theorem Ordered.sublist {l' : List Tm} (h : Ordered s l) (hl : l'.Sublist l) : Ordered s l' :=
  ⟨h.sorted.sublist hl, fun u hu => h.lower u (hl.subset hu), fun u hu => h.upper u (hl.subset hu),
    fun u hu => h.activated u (hl.subset hu), fun u hu => h.inserted u (hl.subset hu)⟩

theorem Ordered.congr (h : Ordered s l) (hahead : ∀ u ∈ l, s'.ahead u = s.ahead u)
    (hactivated : ∀ u ∈ l, (s'.timer u).activated = (s.timer u).activated)
    (hinserted : ∀ u ∈ l, s'.inserted u = s.inserted u)
    (hinsertions : s.insertions ≤ s'.insertions) : Ordered s' l := by
  refine ⟨?_, fun u hu => ?_, fun u hu => ?_, fun u hu => ?_, fun u hu => ?_⟩
  · refine h.sorted.imp_of_mem fun {v w} hv hw hvw => ?_
    rw [Before, hahead v hv, hahead w hw, hinserted v hv, hinserted w hw]
    exact hvw
  · rw [hahead u hu]
    exact h.lower u hu
  · rw [hahead u hu]
    exact h.upper u hu
  · rw [hactivated u hu]
    exact h.activated u hu
  · rw [hinserted u hu]
    exact (h.inserted u hu).trans_le hinsertions

/-- The timers before the place of a deadline are due earlier or at the same tick, and those after
it later. -/
theorem ahead_placeIn {p : Tm → Bool} {c : List Tm × List Tm} {x : ℤ} (hc : PlaceIn p l c)
    (hsorted : l.Pairwise s.Before) (hp : ∀ u ∈ l, p u = true ↔ s.ahead u ≤ x) :
    (∀ u ∈ c.1, s.ahead u ≤ x) ∧ ∀ u ∈ c.2, x < s.ahead u := by
  rw [← hc.append] at hsorted hp
  obtain ⟨hsorted₁, hsorted₂, -⟩ := pairwise_append.1 hsorted
  constructor
  · intro u hu
    cases hb : c.1.getLast? with
    | none =>
      rw [getLast?_eq_none_iff.1 hb] at hu
      cases hu
    | some b =>
      obtain ⟨a, ha⟩ := getLast?_eq_some_iff.1 hb
      have hbx : s.ahead b ≤ x :=
        (hp b (mem_append_left _ (mem_of_getLast? hb))).1 (hc.last b hb)
      rw [ha] at hu hsorted₁
      rcases mem_append.1 hu with hu | hu
      · exact ((pairwise_append.1 hsorted₁).2.2 u hu b (by simp)).ahead_le.trans hbx
      · obtain rfl : u = b := by simpa using hu
        exact hbx
  · intro u hu
    cases hv : c.2 with
    | nil =>
      rw [hv] at hu
      cases hu
    | cons v a =>
      have hfalse := hc.first v (by simp [hv])
      have hxv : x < s.ahead v := by
        by_contra hle
        have htrue := (hp v (mem_append_right _ (by simp [hv]))).2 (not_lt.1 hle)
        rw [hfalse] at htrue
        cases htrue
      rw [hv] at hu hsorted₂
      rcases mem_cons.1 hu with rfl | hu
      · exact hxv
      · exact hxv.trans_le ((pairwise_cons.1 hsorted₂).1 u hu).ahead_le

/-! ### Starts -/

section

variable (h : Started s s' rows rows' t)
include h

theorem Started.timer_of_ne (hu : u ≠ t) : s'.timer u = s.timer u := by
  rw [h.timer, update_of_ne hu]

theorem Started.ahead_of_ne (hu : u ≠ t) : s'.ahead u = s.ahead u := by
  rw [ahead, ahead, h.timer_of_ne hu, h.tick]

theorem Started.ahead_self : s'.ahead t = (s.timer t).initTick.toNat := by
  have hlt : (s.timer t).initTick.toNat < 2 ^ 31 - 1 := h.initTick_lt
  rw [ahead, h.tick, h.timer, update_self]
  exact serialDist_add_left (by omega) s.tick

/-- The search for the deadline of `t` goes past the timers that are due before it or at the same
tick. -/
theorem Started.stops_iff (hu : u ≠ t)
    (hupper : s.ahead u < 2 ^ 31 - 1) (hfit : -(2 ^ 31 + 1) ≤ s.ahead u - (s.timer t).initTick.toNat) :
    (!s'.stops (s.tick + (s.timer t).initTick) u) = true ↔
      s.ahead u ≤ (s.timer t).initTick.toNat := by
  obtain ⟨d, hd⟩ : ∃ d, d = s.tick + (s.timer t).initTick := ⟨_, rfl⟩
  have hlt : (s.timer t).initTick.toNat < 2 ^ 31 - 1 := h.initTick_lt
  have hzero := serialDist_eq_zero_iff (a := (s.timer u).timeoutTick) (b := d)
  have hhalf : (s.timer u).timeoutTick - d < halfTickMax ↔
      0 ≤ serialDist (s.timer u).timeoutTick d ∧ serialDist (s.timer u).timeoutTick d < 2 ^ 31 - 1 :=
    sub_toNat_lt_iff (m := 2 ^ 31 - 1) (by omega)
  rw [← hd, stops, h.timer_of_ne hu]
  simp only [Bool.not_eq_true', Bool.and_eq_false_iff, decide_eq_false_iff_not, not_not, ← hzero,
    hhalf]
  by_cases hrange : -2 ^ 31 ≤ s.ahead u - (s.timer t).initTick.toNat
  · have hdist : serialDist (s.timer u).timeoutTick d =
        s.ahead u - (s.timer t).initTick.toNat := by
      rw [hd]
      exact serialDist_add_right _ hrange
    rw [hdist]
    omega
  · -- the difference is `RT_TICK_MAX / 2`, which does not stop the search either
    have hdist : serialDist (s.timer u).timeoutTick d = 2 ^ 31 - 1 := by
      obtain ⟨k, hk⟩ := exists_serialDist (s.timer u).timeoutTick s.tick
      have hadd := UInt32.toNat_add s.tick (s.timer t).initTick
      have htick := s.tick.toNat_lt
      rw [← hd] at hadd
      rw [← ahead] at hk
      have hmod : d.toNat = s.tick.toNat + (s.timer t).initTick.toNat ∨
          d.toNat + 2 ^ 32 = s.tick.toNat + (s.timer t).initTick.toNat := by omega
      rcases hmod with hmod | hmod
      · exact serialDist_eq (k := k + 1) (by omega) (by omega) (by omega)
      · exact serialDist_eq (k := k) (by omega) (by omega) (by omega)
    rw [hdist]
    omega

end

/-- A timer that has been started after the others enters a sorted list at the place of its
deadline. -/
theorem pairwise_place {l₁ l₂ : List Tm} (h : (l₁ ++ l₂).Pairwise s.Before)
    (hbefore : ∀ u ∈ l₁, s.ahead u ≤ s.ahead t) (hafter : ∀ u ∈ l₂, s.ahead t < s.ahead u)
    (hinserted : ∀ u ∈ l₁, s.inserted u < s.inserted t) :
    (l₁ ++ t :: l₂).Pairwise s.Before := by
  obtain ⟨h₁, h₂, hcross⟩ := pairwise_append.1 h
  refine pairwise_append.2 ⟨h₁, pairwise_cons.2 ⟨fun u hu => .inl (hafter u hu), h₂⟩, ?_⟩
  intro u hu v hv
  rcases mem_cons.1 hv with rfl | hv
  · have hle := hbefore u hu
    have hlt := hinserted u hu
    rw [Before]
    omega
  · exact hcross u hu v hv

theorem Ordered.started (h : Ordered s (bottom rows false)) (hst : Started s s' rows rows' t)
    (hfit : s.softList t = false → ∀ u ∈ bottom rows false, u ≠ t →
      -(2 ^ 31 + 1) ≤ s.ahead u - (s.timer t).initTick.toNat) : Ordered s' (bottom rows' false) := by
  obtain ⟨l, hl⟩ : ∃ l, l = (bottom rows false).filter (· ≠ t) := ⟨_, rfl⟩
  have hne : ∀ u ∈ l, u ≠ t := by
    intro u hu
    rw [hl] at hu
    simpa using (mem_filter.1 hu).2
  have hold : Ordered s l := h.sublist (hl ▸ filter_sublist)
  have hnew : Ordered s' l := hold.congr (fun u hu => hst.ahead_of_ne (hne u hu))
    (fun u hu => by rw [hst.timer_of_ne (hne u hu)])
    (fun u hu => by rw [hst.inserted, update_of_ne (hne u hu)])
    (hst.insertions ▸ le_succ _)
  by_cases hsoft : s.softList t = false
  · -- the timer enters the list
    obtain ⟨c, hc, hbottom⟩ := hst.place
    rw [hsoft, ← hl] at hc
    rw [hsoft] at hbottom
    rw [hbottom]
    have hself := hst.ahead_self
    have hlt : (s.timer t).initTick.toNat < 2 ^ 31 - 1 := hst.initTick_lt
    obtain ⟨hbefore, hafter⟩ := ahead_placeIn hc hnew.sorted
      (x := (s.timer t).initTick.toNat) fun u hu => by
        rw [hst.ahead_of_ne (hne u hu)]
        exact hst.stops_iff (hne u hu) (hold.upper u hu)
          (hfit hsoft u (mem_of_mem_filter (hl ▸ hu)) (hne u hu))
    have hmem : ∀ u ∈ c.1 ++ t :: c.2, u = t ∨ u ∈ l := by
      intro u hu
      rw [← hc.append]
      rcases mem_append.1 hu with hu | hu
      · exact .inr (mem_append_left _ hu)
      · rcases mem_cons.1 hu with hu | hu
        · exact .inl hu
        · exact .inr (mem_append_right _ hu)
    have hinserted : s'.inserted t = s.insertions := by rw [hst.inserted, update_self]
    have hlast : ∀ u ∈ c.1, s'.inserted u < s'.inserted t := by
      intro u hu
      have hul : u ∈ l := by
        rw [← hc.append]
        exact mem_append_left _ hu
      rw [hinserted, hst.inserted, update_of_ne (hne u hul)]
      exact hold.inserted u hul
    have hsorted := hnew.sorted
    rw [← hc.append] at hsorted
    rw [← hself] at hbefore hafter
    refine ⟨pairwise_place hsorted hbefore hafter hlast, ?_, ?_, ?_, ?_⟩
    · intro u hu
      rcases hmem u hu with rfl | hu
      · rw [hself]
        omega
      · exact hnew.lower u hu
    · intro u hu
      rcases hmem u hu with rfl | hu
      · rw [hself]
        omega
      · exact hnew.upper u hu
    · intro u hu
      rcases hmem u hu with rfl | hu
      · simp [hst.timer]
      · exact hnew.activated u hu
    · intro u hu
      rcases hmem u hu with rfl | hu
      · rw [hinserted, hst.insertions]
        exact lt_succ_self _
      · exact hnew.inserted u hu
  · -- the timer belongs to the other list
    rw [hst.other false (Ne.symm hsoft), ← hl]
    exact hnew

/-! ### `rt_timer_check` -/

/-- The periodic timers that are due can be started again, with deadlines comparable to those of
the other timers. -/
def Restartable (s : Timers Tm) (l : List Tm) : Prop :=
  ∀ u ∈ l, s.ahead u ≤ 0 → (s.timer u).periodic = true →
    0 < (s.timer u).initTick ∧ (s.timer u).initTick < halfTickMax ∧
      ∀ v ∈ l, v ≠ u → -(2 ^ 31 + 1) ≤ s.ahead v - (s.timer u).initTick.toNat

theorem due_iff (h : -(2 ^ 31 - 1) < s.ahead t) : s.due s.tick t = true ↔ s.ahead t ≤ 0 := by
  have hcomm : serialDist s.tick (s.timer t).timeoutTick = -s.ahead t :=
    serialDist_comm (a := (s.timer t).timeoutTick) (b := s.tick)
      (by have := h; rw [ahead] at this; omega)
  have hhalf : s.tick - (s.timer t).timeoutTick < halfTickMax ↔
      0 ≤ serialDist s.tick (s.timer t).timeoutTick ∧
        serialDist s.tick (s.timer t).timeoutTick < 2 ^ 31 - 1 :=
    sub_toNat_lt_iff (m := 2 ^ 31 - 1) (by omega)
  rw [due, decide_eq_true_eq, hhalf, hcomm]
  omega

/-- What a round of the loop leaves when it has fired `t`, the first timer: `t` is in the list
exactly if it is periodic, with a deadline ahead, and nothing else has changed. -/
structure Fired (s s' : Timers Tm) (rows rows' : Bool → ℕ → List Tm) (t : Tm) (rest : List Tm) :
    Prop where
  rep : Rep s' rows'
  ordered : Ordered s' (bottom rows' false)
  tick : s'.tick = s.tick
  timer : ∀ u, u ≠ t → s'.timer u = s.timer u
  initTick : (s'.timer t).initTick = (s.timer t).initTick
  periodic : (s'.timer t).periodic = (s.timer t).periodic
  ahead_self : (s.timer t).periodic = true → s'.ahead t = (s.timer t).initTick.toNat
  mem : ∀ u, u ∈ bottom rows' false ↔ u ∈ rest ∨ u = t ∧ (s.timer t).periodic = true
  soft : bottom rows' true = bottom rows true
  due : (bottom rows' false).filter (fun u => s'.ahead u ≤ 0) = rest.filter fun u => s.ahead u ≤ 0
  length : (bottom rows' false).length ≤ rest.length + 1

theorem softList_clearActivated_timerRemove (s : Timers Tm) (t : Tm) :
    ((s.timerRemove t).clearActivated t).softList = s.softList :=
  softList_modifyTimer (s := s.timerRemove t) (t := t)
    (f := fun timer => { timer with activated := false }) rfl

theorem timer_clearActivated_timerRemove (s : Timers Tm) (t : Tm) :
    ((s.timerRemove t).clearActivated t).timer =
      Function.update s.timer t { s.timer t with activated := false } := rfl

/-- What is left when the first timer has been removed, and its flag cleared. -/
structure Removed (s s' : Timers Tm) (rows rows' : Bool → ℕ → List Tm) (t : Tm) (rest : List Tm) :
    Prop where
  rep : Rep s' rows'
  ordered : Ordered s' rest
  tick : s'.tick = s.tick
  timer : ∀ u, u ≠ t → s'.timer u = s.timer u
  initTick : (s'.timer t).initTick = (s.timer t).initTick
  periodic : (s'.timer t).periodic = (s.timer t).periodic
  hard : s'.softList t = false
  first : bottom rows' false = rest
  soft : bottom rows' true = bottom rows true
  not_mem : ∀ u ∈ rest, u ≠ t
  not_soft : ∀ u ∈ bottom rows true, u ≠ t

variable {rest : List Tm}

theorem Removed.ahead_of_ne (h : Removed s s' rows rows' t rest) (hu : u ≠ t) :
    s'.ahead u = s.ahead u := by
  rw [ahead, ahead, h.timer u hu, h.tick]

theorem removed_clearActivated (h : Rep s rows) (ho : Ordered s (bottom rows false))
    (hb : bottom rows false = t :: rest) :
    Removed s ((s.timerRemove t).clearActivated t) rows
      (fun soft i => (rows soft i).filter (· ≠ t)) t rest := by
  have ht : t ∈ bottom rows false := by rw [hb]; exact mem_cons_self
  have hnodup : (t :: rest).Nodup := hb ▸ h.nodup false lastRow_lt
  have hsoft : s.softList t = false := (h.row _ lastRow_lt).list false t ht
  have hne : ∀ u ∈ rest, u ≠ t := by
    rintro u hu rfl
    exact (nodup_cons.1 hnodup).1 hu
  have hnot : ∀ u ∈ bottom rows true, u ≠ t := by
    rintro u hu rfl
    have hsoft' := (h.row _ lastRow_lt).list true u hu
    rw [hsoft] at hsoft'
    cases hsoft'
  have htimer : ∀ u, u ≠ t → ((s.timerRemove t).clearActivated t).timer u = s.timer u := by
    intro u hu
    rw [timer_clearActivated_timerRemove, update_of_ne hu]
  have hrest : rest.filter (· ≠ t) = rest :=
    filter_eq_self.2 fun u hu => by simpa using hne u hu
  refine ⟨(h.timerRemove t).clearActivated t, ?_, rfl, htimer, ?_, ?_, ?_, ?_, ?_, hne, hnot⟩
  · refine (ho.sublist (hb ▸ sublist_cons_self t rest)).congr ?_
      (fun u hu => by rw [htimer u (hne u hu)]) (fun _ _ => rfl) le_rfl
    intro u hu
    rw [ahead, htimer u (hne u hu)]
    rfl
  · rw [timer_clearActivated_timerRemove, update_self]
  · rw [timer_clearActivated_timerRemove, update_self]
  · rw [softList_clearActivated_timerRemove, hsoft]
  · show (bottom rows false).filter (· ≠ t) = rest
    rw [hb, filter_cons_of_neg (by simp), hrest]
  · exact filter_eq_self.2 fun u hu => by simpa using hnot u hu

theorem Removed.fired (h : Removed s s' rows rows' t rest)
    (hp : (s.timer t).periodic = false) : Fired s s' rows rows' t rest := by
  refine ⟨h.rep, h.first.symm ▸ h.ordered, h.tick, h.timer, h.initTick, h.periodic, ?_, ?_,
    h.soft, ?_, ?_⟩
  · rw [hp]
    nofun
  · intro u
    rw [h.first, hp]
    simp
  · rw [h.first]
    apply filter_congr
    intro u hu
    rw [h.ahead_of_ne (h.not_mem u hu)]
  · rw [h.first]
    exact le_succ _

theorem Removed.fired_started {s₂ : Timers Tm} {rows₂ : Bool → ℕ → List Tm}
    (h : Removed s s₂ rows rows₂ t rest) (hst : Started s₂ s' rows₂ rows' t)
    (hp : (s.timer t).periodic = true) (hpos : 0 < (s.timer t).initTick)
    (hfit : ∀ u ∈ rest, -(2 ^ 31 + 1) ≤ s.ahead u - (s.timer t).initTick.toNat) :
    Fired s s' rows rows' t rest := by
  have hself := hst.ahead_self
  rw [h.initTick] at hself
  obtain ⟨c, hc, hbottom⟩ := hst.place
  rw [h.hard] at hc hbottom
  have hsplit : c.1 ++ c.2 = rest := by
    rw [hc.append, h.first]
    exact filter_eq_self.2 fun u hu => by simpa using h.not_mem u hu
  refine ⟨hst.rep, ?_, hst.tick.trans h.tick, ?_, ?_, ?_, fun _ => hself, ?_, ?_, ?_, ?_⟩
  · apply Ordered.started (h.first.symm ▸ h.ordered) hst
    intro _ u hu hut
    rw [h.ahead_of_ne hut, h.initTick]
    rw [h.first] at hu
    exact hfit u hu
  · intro u hu
    rw [hst.timer_of_ne hu, h.timer u hu]
  · rw [hst.timer, update_self]
    exact h.initTick
  · rw [hst.timer, update_self]
    exact h.periodic
  · intro u
    rw [hst.mem_bottom, h.first]
    constructor
    · rintro (⟨rfl, -⟩ | ⟨-, hu⟩)
      · exact .inr ⟨rfl, hp⟩
      · exact .inl hu
    · rintro (hu | ⟨rfl, -⟩)
      · exact .inr ⟨h.not_mem u hu, hu⟩
      · exact .inl ⟨rfl, h.hard.symm⟩
  · rw [hst.other true (by rw [h.hard]; decide), h.soft]
    exact filter_eq_self.2 fun u hu => by simpa using h.not_soft u hu
  · -- the new deadline is ahead
    have hpos' : 0 < (s.timer t).initTick.toNat := hpos
    have hnot : ¬ s'.ahead t ≤ 0 := by omega
    rw [hbottom, filter_append, filter_cons_of_neg (by simpa using hnot), ← filter_append, hsplit]
    apply filter_congr
    intro u hu
    rw [hst.ahead_of_ne (h.not_mem u hu), h.ahead_of_ne (h.not_mem u hu)]
  · rw [hbottom, ← hsplit]
    simp
    omega

theorem fired_checkRestart (h : Rep s rows) (ho : Ordered s (bottom rows false))
    (hr : s.Restartable (bottom rows false)) (hb : bottom rows false = t :: rest)
    (hdue : s.ahead t ≤ 0) (hs : (s.timerRemove t).checkRestart fuel t = some s') :
    ∃ rows', Fired s s' rows rows' t rest := by
  have ht : t ∈ bottom rows false := by rw [hb]; exact mem_cons_self
  have hremoved := removed_clearActivated h ho hb
  rw [checkRestart] at hs
  split at hs
  · next hrestart =>
    have hperiodic : (s.timer t).periodic = true := (Bool.and_eq_true_iff.1 hrestart).1
    obtain ⟨hpos, -, hfit⟩ := hr t ht hdue hperiodic
    obtain ⟨rows', hst⟩ := hremoved.rep.rtTimerStart hs
    exact ⟨rows', hremoved.fired_started hst hperiodic hpos fun u hu =>
      hfit u (hb ▸ mem_cons_of_mem t hu) (hremoved.not_mem u hu)⟩
  · next hstop =>
    have hperiodic : (s.timer t).periodic = false := by
      have hactivated := ho.activated t ht
      cases hp : (s.timer t).periodic with
      | false => rfl
      | true =>
        refine absurd ?_ hstop
        show ((s.timer t).periodic && (s.timer t).activated) = true
        rw [hp, hactivated]
        rfl
    obtain rfl : (s.timerRemove t).clearActivated t = s' := some_inj.1 hs
    exact ⟨_, hremoved.fired hperiodic⟩

theorem Fired.restartable (h : Fired s s' rows rows' t rest)
    (hr : s.Restartable (bottom rows false)) (hb : bottom rows false = t :: rest)
    (hdue : s.ahead t ≤ 0) (hrest : ∀ u ∈ rest, u ≠ t) :
    s'.Restartable (bottom rows' false) := by
  have hahead : ∀ u, u ≠ t → s'.ahead u = s.ahead u := by
    intro u hu
    rw [ahead, ahead, h.timer u hu, h.tick]
  have ht : t ∈ bottom rows false := by rw [hb]; exact mem_cons_self
  have hself : (s.timer t).periodic = true → 0 < s'.ahead t := by
    intro hp
    have hpos : 0 < (s.timer t).initTick.toNat := (hr t ht hdue hp).1
    rw [h.ahead_self hp]
    omega
  intro u hu hdue' hp
  rcases (h.mem u).1 hu with hmem | ⟨rfl, hp'⟩
  · have hut := hrest u hmem
    rw [h.timer u hut] at hp ⊢
    rw [hahead u hut] at hdue'
    obtain ⟨hpos, hlt, hfit⟩ := hr u (hb ▸ mem_cons_of_mem t hmem) hdue' hp
    refine ⟨hpos, hlt, ?_⟩
    intro v hv hvu
    rcases (h.mem v).1 hv with hv | ⟨rfl, hp'⟩
    · rw [hahead v (hrest v hv)]
      exact hfit v (hb ▸ mem_cons_of_mem t hv) hvu
    · have hpos' := hself hp'
      have hlt' : (s.timer u).initTick.toNat < 2 ^ 31 - 1 := hlt
      omega
  · have hpos := hself hp'
    omega

/-- What `rt_timer_check` leaves: of the timers that were due, the periodic ones are in the list
with new deadlines, and the others have left it; all other timers are as before. -/
structure Checked (s s' : Timers Tm) (rows rows' : Bool → ℕ → List Tm) : Prop where
  rep : Rep s' rows'
  ordered : Ordered s' (bottom rows' false)
  tick : s'.tick = s.tick
  mem : ∀ u, u ∈ bottom rows' false ↔
    u ∈ bottom rows false ∧ (0 < s.ahead u ∨ (s.timer u).periodic = true)
  timer : ∀ u, u ∉ bottom rows false ∨ 0 < s.ahead u → s'.timer u = s.timer u
  rearmed : ∀ u ∈ bottom rows false, s.ahead u ≤ 0 → (s.timer u).periodic = true →
    s'.ahead u = (s.timer u).initTick.toNat
  soft : bottom rows' true = bottom rows true

theorem checked_refl (h : Rep s rows) (ho : Ordered s (bottom rows false))
    (hnot : ∀ u ∈ bottom rows false, 0 < s.ahead u) : Checked s s rows rows := by
  refine ⟨h, ho, rfl, ?_, fun _ _ => rfl, ?_, rfl⟩
  · intro u
    exact ⟨fun hu => ⟨hu, .inl (hnot u hu)⟩, fun hu => hu.1⟩
  · intro u hu hdue
    have hpos := hnot u hu
    omega

theorem Fired.checked {s₁ : Timers Tm} {rows₁ : Bool → ℕ → List Tm}
    (h : Fired s s₁ rows rows₁ t rest) (hb : bottom rows false = t :: rest) (hdue : s.ahead t ≤ 0)
    (hrest : ∀ u ∈ rest, u ≠ t)
    (hpos : (s.timer t).periodic = true → 0 < (s.timer t).initTick.toNat)
    (h' : Checked s₁ s' rows₁ rows') : Checked s s' rows rows' := by
  have hahead : ∀ u, u ≠ t → s₁.ahead u = s.ahead u := by
    intro u hu
    rw [ahead, ahead, h.timer u hu, h.tick]
  have hself : (s.timer t).periodic = true → 0 < s₁.ahead t := by
    intro hp
    have hpos' := hpos hp
    rw [h.ahead_self hp]
    omega
  refine ⟨h'.rep, h'.ordered, h'.tick.trans h.tick, ?_, ?_, ?_, h'.soft.trans h.soft⟩
  · intro u
    rw [h'.mem, h.mem, hb, mem_cons]
    by_cases hut : u = t
    · subst hut
      have hnot : u ∉ rest := fun hu => hrest u hu rfl
      constructor
      · rintro ⟨hu | ⟨-, hp⟩, -⟩
        · exact absurd hu hnot
        · exact ⟨.inl rfl, .inr hp⟩
      · rintro ⟨-, hlt | hp⟩
        · omega
        · exact ⟨.inr ⟨rfl, hp⟩, .inl (hself hp)⟩
    · rw [hahead u hut, h.timer u hut]
      simp [hut]
  · intro u hu
    have hut : u ≠ t := by
      rintro rfl
      rcases hu with hu | hu
      · exact hu (hb ▸ mem_cons_self)
      · omega
    rw [h'.timer u ?_, h.timer u hut]
    rcases hu with hu | hu
    · refine .inl fun hu' => hu ?_
      rcases (h.mem u).1 hu' with hu' | ⟨he, -⟩
      · exact hb ▸ mem_cons_of_mem t hu'
      · exact absurd he hut
    · exact .inr (hahead u hut ▸ hu)
  · intro u hu hd hp
    by_cases hut : u = t
    · subst hut
      have htimer := h'.timer u (.inr (hself hp))
      rw [ahead, htimer, h'.tick, ← ahead]
      exact h.ahead_self hp
    · have hu' : u ∈ rest := by
        rw [hb] at hu
        exact (mem_cons.1 hu).resolve_left hut
      rw [← h.timer u hut]
      exact h'.rearmed u ((h.mem u).2 (.inl hu')) (hahead u hut ▸ hd) (h.timer u hut ▸ hp)

theorem Rep.checkFire_eq_none (h : Rep s rows) (ho : Ordered s (bottom rows false))
    (hnot : ∀ u ∈ bottom rows false, 0 < s.ahead u) : s.checkFire s.tick = (s, none) := by
  rw [checkFire, h.firstTimer]
  cases hb : bottom rows false with
  | nil => rfl
  | cons t rest =>
    have ht : t ∈ bottom rows false := by rw [hb]; exact mem_cons_self
    have hfalse : ¬ s.due s.tick t = true := by
      rw [due_iff (ho.lower t ht)]
      exact not_le.2 (hnot t ht)
    simp [hfalse]

theorem Ordered.first_due {due : List Tm} (ho : Ordered s (bottom rows false))
    (hdue : (bottom rows false).filter (fun u => s.ahead u ≤ 0) = t :: due) :
    ∃ rest, bottom rows false = t :: rest ∧ rest.filter (fun u => s.ahead u ≤ 0) = due ∧
      s.ahead t ≤ 0 := by
  cases hb : bottom rows false with
  | nil =>
    rw [hb] at hdue
    cases hdue
  | cons u rest =>
    have hmem : t ∈ (u :: rest).filter fun u => s.ahead u ≤ 0 := by
      rw [← hb, hdue]
      exact mem_cons_self
    obtain ⟨htmem, ht⟩ := mem_filter.1 hmem
    have ht : s.ahead t ≤ 0 := by simpa using ht
    have hu : s.ahead u ≤ 0 := by
      rcases mem_cons.1 htmem with rfl | htmem
      · exact ht
      · have hsorted := hb ▸ ho.sorted
        exact ((pairwise_cons.1 hsorted).1 t htmem).ahead_le.trans ht
    rw [hb, filter_cons_of_pos (by simpa using hu)] at hdue
    obtain ⟨rfl, hdue'⟩ := List.cons.inj hdue
    exact ⟨rest, rfl, hdue', ht⟩

theorem Rep.isSome_checkRestart (h : Rep s rows) (hr : s.Restartable (bottom rows false))
    (ht : t ∈ bottom rows false) (hd : s.ahead t ≤ 0) {fuel : ℕ}
    (hfuel : (bottom rows false).length < fuel) :
    ((s.timerRemove t).checkRestart fuel t).isSome = true := by
  rw [checkRestart]
  split
  · next hrestart =>
    have hp : (s.timer t).periodic = true := (Bool.and_eq_true_iff.1 hrestart).1
    obtain ⟨-, hlt, -⟩ := hr t ht hd hp
    refine isSome_rtTimerStart ((h.timerRemove t).clearActivated t) ?_ ?_
    · rw [timer_clearActivated_timerRemove, update_self]
      exact hlt
    · have hsoft : s.softList t = false := (h.row _ lastRow_lt).list false t ht
      rw [softList_clearActivated_timerRemove, hsoft]
      exact (filter_sublist.length_le).trans_lt hfuel
  · rfl

/-- **The loop** fires the timers that are due, in the order of the list; and it ends when it is
given enough rounds.  The induction is on the timers that are due. -/
theorem checkLoop_spec (fuel : ℕ) (due : List Tm) (h : Rep s rows)
    (ho : Ordered s (bottom rows false)) (hr : s.Restartable (bottom rows false))
    (hdue : (bottom rows false).filter (fun u => s.ahead u ≤ 0) = due) (n : ℕ) :
    (∀ r, s.checkLoop fuel n s.tick = some r → r.2 = due ∧ ∃ rows', Checked s r.1 rows rows') ∧
      (due.length < n → (bottom rows false).length < fuel →
        (s.checkLoop fuel n s.tick).isSome = true) := by
  induction due generalizing s rows n with
  | nil =>
    have hnot : ∀ u ∈ bottom rows false, 0 < s.ahead u := by
      intro u hu
      have hfalse := filter_eq_nil_iff.1 hdue u hu
      simpa using hfalse
    cases n with
    | zero => exact ⟨nofun, fun hlt => absurd hlt (Nat.not_lt_zero _)⟩
    | succ n =>
      rw [checkLoop, h.checkFire_eq_none ho hnot]
      refine ⟨?_, fun _ _ => rfl⟩
      rintro r hr'
      cases hr'
      exact ⟨rfl, rows, checked_refl h ho hnot⟩
  | cons t due ih =>
    obtain ⟨rest, hb, hdue', hd⟩ := ho.first_due hdue
    have ht : t ∈ bottom rows false := by rw [hb]; exact mem_cons_self
    have hrest : ∀ u ∈ rest, u ≠ t := by
      rintro u hu rfl
      have hnodup : (u :: rest).Nodup := hb ▸ h.nodup false lastRow_lt
      exact (nodup_cons.1 hnodup).1 hu
    have hfire : s.checkFire s.tick = (s.timerRemove t, some t) := by
      rw [checkFire, h.firstTimer, hb]
      simp [(due_iff (ho.lower t ht)).2 hd]
    have hpos : (s.timer t).periodic = true → 0 < (s.timer t).initTick.toNat :=
      fun hp => (hr t ht hd hp).1
    cases n with
    | zero => exact ⟨nofun, fun hlt => absurd hlt (Nat.not_lt_zero _)⟩
    | succ n =>
      rw [checkLoop, hfire]
      refine ⟨?_, ?_⟩
      · intro r hs
        obtain ⟨s₁, hs₁, hs⟩ := bind_eq_some_iff.1 hs
        obtain ⟨r', hr', rfl⟩ := map_eq_some_iff.1 hs
        obtain ⟨rows₁, hfired⟩ := fired_checkRestart h ho hr hb hd hs₁
        have htick : (s.timerRemove t).tick = s₁.tick := hfired.tick.symm
        rw [htick] at hr'
        obtain ⟨rfl, rows', hchecked⟩ := (ih hfired.rep hfired.ordered
          (hfired.restartable hr hb hd hrest) (hfired.due.trans hdue') n).1 r' hr'
        exact ⟨rfl, rows', hfired.checked hb hd hrest hpos hchecked⟩
      · intro hn hfuel
        obtain ⟨s₁, hs₁⟩ := isSome_iff_exists.1 (h.isSome_checkRestart hr ht hd hfuel)
        obtain ⟨rows₁, hfired⟩ := fired_checkRestart h ho hr hb hd hs₁
        have htick : (s.timerRemove t).tick = s₁.tick := hfired.tick.symm
        have hlen : (bottom rows₁ false).length < fuel := by
          have hle := hfired.length
          rw [hb, length_cons] at hfuel
          omega
        have hloop := (ih hfired.rep hfired.ordered (hfired.restartable hr hb hd hrest)
          (hfired.due.trans hdue') n).2 (by simpa using hn) hlen
        dsimp only
        rw [hs₁, bind_some, isSome_map, htick]
        exact hloop

/-! ### The runs -/

theorem Rep.mem_bottom_iff (h : Rep s rows) (soft : Bool) :
    s.softList t = soft ∧ ¬ s.Unlinked t ↔ t ∈ bottom rows soft := by
  rw [h.unlinked_iff, not_not]
  constructor
  · rintro ⟨rfl, hmem⟩
    exact hmem
  · intro hmem
    have hsoft : s.softList t = soft := (h.row _ lastRow_lt).list soft t hmem
    exact ⟨hsoft, hsoft.symm ▸ hmem⟩

theorem Rep.inTimerList_iff (h : Rep s rows) : s.InTimerList t ↔ t ∈ bottom rows false :=
  h.mem_bottom_iff false

theorem Rep.bottom_eq_singleton (h : Rep s rows) (hmem : ∀ t, s.InTimerList t ↔ t = u) :
    bottom rows false = [u] := by
  apply perm_singleton.1
  refine (perm_ext_iff_of_nodup (h.nodup false lastRow_lt) (nodup_singleton _)).2 ?_
  intro t
  rw [mem_singleton]
  exact h.inTimerList_iff.symm.trans (hmem t)

/-- The rows are lists, and the last row of `rt_timer_list` is sorted. -/
def Sorted (s : Timers Tm) : Prop := ∃ rows, Rep s rows ∧ Ordered s (bottom rows false)

theorem Rep.restartable (h : Rep s rows) (hc : s.InTime .check) :
    s.Restartable (bottom rows false) := by
  intro u hu hdue hp
  have hmem := h.inTimerList_iff.2 hu
  obtain ⟨hpos, hlt⟩ := hc.2 u hmem hdue hp
  exact ⟨hpos, hlt, fun v hv hvu => hc.1 u hmem hdue hp v (h.inTimerList_iff.2 hv) hvu⟩

theorem sorted_modifyTimer (h : s.Sorted) {f : Timer → Timer}
    (hsoft : (f (s.timer t)).soft = (s.timer t).soft)
    (hactivated : (f (s.timer t)).activated = (s.timer t).activated)
    (htimeout : (f (s.timer t)).timeoutTick = (s.timer t).timeoutTick) :
    (s.modifyTimer t f).Sorted := by
  obtain ⟨rows, hrep, ho⟩ := h
  refine ⟨rows, hrep.modifyTimer hsoft, ho.congr ?_ ?_ (fun _ _ => rfl) le_rfl⟩
  · intro u _
    by_cases hu : u = t
    · subst hu
      simp [ahead, Timers.modifyTimer, htimeout]
    · simp [ahead, Timers.modifyTimer, hu]
  · intro u _
    by_cases hu : u = t
    · subst hu
      simp [Timers.modifyTimer, hactivated]
    · simp [Timers.modifyTimer, hu]

theorem sorted_startRemove (h : s.Sorted) (t : Tm) : (s.startRemove t).Sorted := by
  obtain ⟨rows, hrep, ho⟩ := h
  have hne : ∀ u ∈ bottom (fun soft i => (rows soft i).filter (· ≠ t)) false, u ≠ t := by
    intro u hu
    simpa using (mem_filter.1 hu).2
  have htimer : ∀ u, u ≠ t → (s.startRemove t).timer u = s.timer u := by
    intro u hu
    rw [Timers.startRemove, timer_clearActivated_timerRemove, update_of_ne hu]
  refine ⟨_, hrep.startRemove t, (ho.sublist filter_sublist).congr ?_
    (fun u hu => by rw [htimer u (hne u hu)]) (fun _ _ => rfl) le_rfl⟩
  intro u hu
  rw [ahead, htimer u (hne u hu)]
  rfl

theorem sorted_elapse (h : s.Sorted) {n : UInt32}
    (hc : ∀ u, s.InTimerList u → -(2 ^ 31 - 1) < s.ahead u - n.toNat) :
    ({ s with tick := s.tick + n } : Timers Tm).Sorted := by
  obtain ⟨rows, hrep, ho⟩ := h
  have hahead : ∀ u ∈ bottom rows false,
      ({ s with tick := s.tick + n } : Timers Tm).ahead u = s.ahead u - n.toNat := by
    intro u hu
    have hlow := hc u (hrep.inTimerList_iff.2 hu)
    have hdist : -2 ^ 31 ≤ serialDist (s.timer u).timeoutTick s.tick - n.toNat := by
      rw [ahead] at hlow
      omega
    exact serialDist_add_right n hdist
  refine ⟨rows, hrep.congr rfl rfl, ?_, fun u hu => ?_, fun u hu => ?_, ho.activated, ho.inserted⟩
  · refine ho.sorted.imp_of_mem fun {v w} hv hw hvw => ?_
    rw [Before, hahead v hv, hahead w hw]
    rcases hvw with hlt | ⟨heq, hlt⟩
    · exact .inl (by omega)
    · exact .inr ⟨by omega, hlt⟩
  · rw [hahead u hu]
    exact hc u (hrep.inTimerList_iff.2 hu)
  · rw [hahead u hu]
    have hlt := ho.upper u hu
    omega

theorem sorted_clockStep {a : ClockAction Tm} {out : List Tm} (h : s.Sorted) (hc : s.InTime a)
    (hs : s.clockStep fuel a = some (s', out)) : s'.Sorted := by
  cases a with
  | start t =>
    obtain ⟨s₁, hs₁, hs⟩ := map_eq_some_iff.1 hs
    cases hs
    obtain ⟨rows, hrep, ho⟩ := h
    obtain ⟨rows', hst⟩ := hrep.rtTimerStart hs₁
    refine ⟨rows', hst.rep, ho.started hst ?_⟩
    intro hsoft u hu hut
    exact hc.1 hsoft u (hrep.inTimerList_iff.2 hu) hut
  | stop t =>
    cases hs
    rw [Timers.rtTimerStop]
    split
    · exact sorted_startRemove h t
    · exact h
  | setTime t time =>
    cases hs
    exact sorted_modifyTimer (t := t) (f := fun timer => { timer with initTick := time }) h rfl rfl
      rfl
  | setPeriodic t periodic =>
    cases hs
    exact sorted_modifyTimer (t := t) (f := fun timer => { timer with periodic := periodic }) h rfl
      rfl rfl
  | elapse n =>
    cases hs
    exact sorted_elapse h hc.1
  | check =>
    obtain ⟨rows, hrep, ho⟩ := h
    obtain ⟨-, rows', hchecked⟩ :=
      (checkLoop_spec fuel _ hrep ho (hrep.restartable hc) rfl fuel).1 (s', out) hs
    exact ⟨rows', hchecked.rep, hchecked.ordered⟩

theorem sorted_run {timer : Tm → Timer} {randomNr tick : UInt32} {fired : List Tm}
    (hrun : Run (clockStep fuel) InTime (.init timer randomNr tick) fired s) : s.Sorted :=
  hrun.invariant (fun _ s => s.Sorted)
    ⟨_, rep_init timer randomNr tick, List.Pairwise.nil, nofun, nofun, nofun, nofun⟩
    fun h hc hs => sorted_clockStep h hc hs

/-- In every state of a run in time, the last row of `rt_timer_list` is sorted by the deadlines
and, for the same deadline, by the starts.  When `rt_timer_check` is called in time, it fires the
timers of the row whose deadline is at or before the current tick, in the order of the row;
after it, those of them that are periodic are in the list with the deadline one period ahead,
the others are not, and all other timers are as before. -/
theorem run_fires (fuel : ℕ) (timer : Tm → Timer) (randomNr tick : UInt32) (fired : List Tm)
    (s : Timers Tm) (hrun : Run (clockStep fuel) InTime (.init timer randomNr tick) fired s) :
    ∃ rows, s.Rep rows ∧ (bottom rows false).Pairwise s.Before ∧
      (s.InTime .check → ∀ n, (bottom rows false).length < n →
        ∃ s' rows', s.rtTimerCheck n =
            some (s', (bottom rows false).filter fun u => s.ahead u ≤ 0) ∧
          s'.Rep rows' ∧ (bottom rows' false).Pairwise s'.Before ∧
          (∀ u, u ∈ bottom rows' false ↔
            u ∈ bottom rows false ∧ (0 < s.ahead u ∨ (s.timer u).periodic = true)) ∧
          (∀ u ∈ bottom rows false, s.ahead u ≤ 0 → (s.timer u).periodic = true →
            s'.ahead u = (s.timer u).initTick.toNat) ∧
          (∀ u, u ∉ bottom rows false ∨ 0 < s.ahead u → s'.timer u = s.timer u) ∧
          bottom rows' true = bottom rows true) := by
  obtain ⟨rows, hrep, ho⟩ := sorted_run hrun
  refine ⟨rows, hrep, ho.sorted, ?_⟩
  intro hc n hn
  obtain ⟨hspec, hsome⟩ := checkLoop_spec n _ hrep ho (hrep.restartable hc) rfl n
  obtain ⟨⟨s', due⟩, hs'⟩ := isSome_iff_exists.1 (hsome ((filter_sublist.length_le).trans_lt hn) hn)
  obtain ⟨rfl, rows', h'⟩ := hspec (s', due) hs'
  exact ⟨s', rows', hs', h'.rep, h'.ordered.sorted, h'.mem, h'.rearmed, h'.timer, h'.soft⟩

/-! ### Other runs -/

/-- A periodic timer with the period `0` is due again as soon as it is started again, so that the
loop never ends. -/
theorem checkLoop_eq_none (h : Rep s rows) (hb : bottom rows false = [t])
    (hperiodic : (s.timer t).periodic = true) (hactivated : (s.timer t).activated = true)
    (hzero : (s.timer t).initTick = 0) (htimeout : (s.timer t).timeoutTick = s.tick) (fuel n : ℕ) :
    s.checkLoop fuel n s.tick = none := by
  induction n generalizing s rows with
  | zero => rfl
  | succ n ih =>
    have ht : t ∈ bottom rows false := by rw [hb]; exact mem_cons_self
    have hsoft : s.softList t = false := (h.row _ lastRow_lt).list false t ht
    have hdue : s.due s.tick t = true := by
      rw [due, htimeout, decide_eq_true_eq, UInt32.sub_self]
      decide
    have hfire : s.checkFire s.tick = (s.timerRemove t, some t) := by
      rw [checkFire, h.firstTimer, hb]
      simp [hdue]
    rw [checkLoop, hfire]
    dsimp only
    cases hs : (s.timerRemove t).checkRestart fuel t with
    | none => rfl
    | some s' =>
      have hrestart : (((s.timerRemove t).timer t).periodic &&
          ((s.timerRemove t).timer t).activated) = true := by
        rw [timerRemove, hperiodic, hactivated]
        rfl
      rw [checkRestart, if_pos hrestart] at hs
      obtain ⟨rows', hst⟩ := ((h.timerRemove t).clearActivated t).rtTimerStart hs
      have htimer : s'.timer t =
          { s.timer t with timeoutTick := s.tick + (s.timer t).initTick, activated := true } := by
        rw [hst.timer, timer_clearActivated_timerRemove]
        simp
        rfl
      have htick : (s.timerRemove t).tick = s'.tick := hst.tick.symm
      obtain ⟨c, hc, hbottom⟩ := hst.place
      rw [softList_clearActivated_timerRemove, hsoft] at hc hbottom
      have hnil : c.1 ++ c.2 = [] := by
        rw [hc.append, bottom, List.filter_filter]
        show (bottom rows false).filter _ = []
        rw [hb]
        simp
      obtain ⟨h₁, h₂⟩ := append_eq_nil_iff.1 hnil
      rw [h₁, h₂] at hbottom
      rw [bind_some, htick, ih hst.rep hbottom (by rw [htimer]; exact hperiodic)
        (by rw [htimer]) (by rw [htimer]; exact hzero)
        (by rw [htimer, hzero, ← htick]; exact UInt32.add_zero _)]
      rfl

/-- In the runs that meet `C`, of timers with `init_tick < RT_TICK_MAX / 2`, `rt_timer_check`
returns and has fired the timers that are due. -/
def FiresDue (C : Timers Tm → ClockAction Tm → Prop) : Prop :=
  ∀ (fuel : ℕ) (timer : Tm → Timer) (randomNr tick : UInt32) (fired : List Tm) (s : Timers Tm),
    Run (clockStep fuel) (fun s a => C s a ∧ s.Short) (.init timer randomNr tick) fired s →
    C s .check ∧ s.Short →
    ∃ n s' due, s.rtTimerCheck n = some (s', due) ∧ ∀ u, u ∈ due ↔ s.InTimerList u ∧ s.ahead u ≤ 0

end Timers

namespace Timers

/-- A periodic timer fires at its deadline, which is beyond the greatest tick. -/
theorem run_fires_wraps :
    letI := config1
    ∃ (s s' : Timers (Fin 2)) (rows : Bool → ℕ → List (Fin 2)), s.tick = 1 ∧
      s.rtTimerCheck 5 = some (s', (bottom rows false).filter fun u => s.ahead u ≤ 0) ∧
      0 ∈ (bottom rows false).filter (fun u => s.ahead u ≤ 0) := by
  let _ := config1
  have hsome : (exec (clockStep 5) InTime
      (.init (fun _ : Fin 2 => rtTimerInit 2 true false) 0 0xffffffff)
      [.start 0, .elapse 1, .start 1, .elapse 1]).any fun r =>
        r.1.tick = 1 ∧ r.1.InTime .check ∧ r.1.InTimerList 0 ∧ r.1.ahead 0 ≤ 0 := by
    decide +kernel
  obtain ⟨s, fired, hrun, hr⟩ := Run.of_any hsome
  obtain ⟨htick, hc, hmem, hdue⟩ : s.tick = 1 ∧ s.InTime .check ∧ s.InTimerList 0 ∧
      s.ahead 0 ≤ 0 := hr
  obtain ⟨rows, hrep, -, hcheck⟩ := run_fires 5 (fun _ : Fin 2 => rtTimerInit 2 true false) 0
    0xffffffff fired s hrun
  have hlen : (bottom rows false).length < 5 := by
    have hle := List.Nodup.length_le_card (hrep.nodup false lastRow_lt)
    rw [Fintype.card_fin] at hle
    exact Nat.lt_of_le_of_lt hle (by decide)
  obtain ⟨s', rows', hs', -⟩ := hcheck hc 5 hlen
  exact ⟨s, s', rows, htick, hs', mem_filter.2 ⟨hrep.inTimerList_iff.1 hmem, decide_eq_true hdue⟩⟩

/-- A periodic timer with the period `0` keeps `rt_timer_check` **for ever**; and a timer of
`0x7ffffffe` ticks that is started four ticks after the deadline of another one stands before it,
so that `rt_timer_check` **does not fire** that one. -/
theorem not_run_fires :
    letI := config1
    ¬ @FiresDue _ (Fin 2) _ Timely ∧ ¬ @FiresDue _ (Fin 2) _ GoodPeriods := by
  let _ := config1
  constructor
  · intro h
    have hsome : (exec (clockStep 5) (fun s a => s.InTime a ∧ s.Short)
        (.init (fun _ : Fin 2 => rtTimerInit 0 true false) 0 0) [.start 0]).any fun r =>
          (r.1.Timely .check ∧ r.1.Short) ∧ (∀ t, r.1.InTimerList t ↔ t = 0) ∧
            (r.1.timer 0).periodic = true ∧ (r.1.timer 0).activated = true ∧
            (r.1.timer 0).initTick = 0 ∧ (r.1.timer 0).timeoutTick = r.1.tick := by
      decide +kernel
    obtain ⟨⟨s, fired⟩, hexec, hr⟩ := (Option.any_eq_true _ _).1 hsome
    obtain ⟨hc, hmem, hperiodic, hactivated, hzero, htimeout⟩ :
        (s.Timely .check ∧ s.Short) ∧ (∀ t, s.InTimerList t ↔ t = 0) ∧
          (s.timer 0).periodic = true ∧ (s.timer 0).activated = true ∧
          (s.timer 0).initTick = 0 ∧ (s.timer 0).timeoutTick = s.tick := of_decide_eq_true hr
    have hrun := Run.of_exec hexec
    obtain ⟨n, s', due, hs', -⟩ := h 5 _ 0 0 fired s (hrun.mono fun _ _ h => ⟨h.1.1, h.2⟩) hc
    obtain ⟨rows, hrep, -⟩ := sorted_run (hrun.mono fun _ _ h => h.1)
    have hb := hrep.bottom_eq_singleton hmem
    have hnone := checkLoop_eq_none hrep hb hperiodic hactivated hzero htimeout n n
    rw [rtTimerCheck, hnone] at hs'
    cases hs'
  · intro h
    have hsome : (exec (clockStep 5) (fun s a => s.GoodPeriods a ∧ s.Short)
        (.init (fun t : Fin 2 => rtTimerInit (if t = 0 then 0 else 0x7ffffffe) false false) 0 0)
        [.start 0, .elapse 4, .start 1]).any fun r =>
          (r.1.GoodPeriods .check ∧ r.1.Short) ∧ (r.1.InTimerList 0 ∧ r.1.ahead 0 ≤ 0) ∧
            (r.1.checkFire r.1.tick).2 = none := by
      decide +kernel
    obtain ⟨⟨s, fired⟩, hexec, hr⟩ := (Option.any_eq_true _ _).1 hsome
    obtain ⟨hc, hdue, hfire⟩ : (s.GoodPeriods .check ∧ s.Short) ∧
        (s.InTimerList 0 ∧ s.ahead 0 ≤ 0) ∧ (s.checkFire s.tick).2 = none := of_decide_eq_true hr
    obtain ⟨n, s', due, hs', hiff⟩ := h 5 _ 0 0 fired s (Run.of_exec hexec) hc
    cases n with
    | zero => cases hs'
    | succ n =>
      have hpair : s.checkFire s.tick = ((s.checkFire s.tick).1, none) :=
        Prod.ext rfl hfire
      rw [rtTimerCheck, checkLoop, hpair] at hs'
      cases hs'
      exact not_mem_nil ((hiff 0).2 hdue)

end Timers

end RtThread
