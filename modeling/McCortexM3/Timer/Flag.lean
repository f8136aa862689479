import McCortexM3.Timer.Rows
import McCortexM3.Run

/-!
# The flag `RT_TIMER_FLAG_ACTIVATED`

Calls of `rt_timer_start`, `rt_timer_stop` and `rt_timer_check` one after the other, the timeout
functions making calls of their own.  While the timeout function of a timer runs, the timer is
in no list and keeps its flag, by which `rt_timer_check` sees whether a periodic timer is to
be started again.

`rt_timer_check` clears the flag of a one-shot timer when its timeout function has returned,
even if this function has started the timer again.

## Main definitions

* `TimerRun.ToFire` — a timer is still going to fire.
* `TimerRun.NotRestarted` — no timeout function leaves its one-shot timer started.

## Main results

* `TimerRun.run_flagRight` — then the flag is set exactly for the timers in a list, and
  `rt_timer_stop` stops every timer that is going to fire.
* `TimerRun.not_run_flagRight` — a one-shot timer that starts itself again.
-/

set_option linter.all false

namespace RtThread

open Option List

/-- What can happen next: a call, by a thread or by a timeout function; and, in
`rt_timer_check`, a round of its loop up to the timeout function, and the rest of the round. -/
inductive CallAction (Tm : Type)
  | start (t : Tm)
  | stop (t : Tm)
  | setTime (t : Tm) (time : UInt32)
  | setPeriodic (t : Tm) (periodic : Bool)
  | tick
  | check
  | round
  | callbackEnd

/-- The timers, and the loop of `rt_timer_check`, if it is running. -/
structure TimerRun (Tm : Type) where
  timers : Timers Tm
  checking : Option (Check Tm)

namespace TimerRun

variable [TimerConfig] {Tm : Type} [DecidableEq Tm]

/-- The timer whose timeout function is running. -/
def firing (s : TimerRun Tm) : Option Tm := s.checking.bind Check.firing

/-- A thread or a timeout function is running. -/
def canCall (s : TimerRun Tm) : Bool := s.checking.isNone || s.firing.isSome

/-- One step, in which a search takes at most `fuel` rounds in a row. -/
def step (fuel : ℕ) (s : TimerRun Tm) : CallAction Tm → Option (TimerRun Tm × List Tm)
  | .start t =>
    if s.canCall then (s.timers.rtTimerStart fuel t).map fun ts => ({ s with timers := ts }, [])
    else none
  | .stop t =>
    if s.canCall then some ({ s with timers := (s.timers.rtTimerStop t).1 }, []) else none
  | .setTime t time =>
    if s.canCall then some ({ s with timers := s.timers.setTime t time }, []) else none
  | .setPeriodic t periodic =>
    if s.canCall then some ({ s with timers := s.timers.setPeriodic t periodic }, []) else none
  | .tick =>
    if s.checking.isNone then
      some ({ s with timers := { s.timers with tick := s.timers.tick + 1 } }, [])
    else none
  | .check =>
    if s.checking.isNone then some ({ s with checking := some ⟨s.timers.tick, none⟩ }, [])
    else none
  | .round =>
    match s.checking with
    | some ⟨currentTick, none⟩ =>
      match s.timers.checkFire currentTick with
      | (ts, some t) => some (⟨ts, some ⟨currentTick, some t⟩⟩, [t])
      | (ts, none) => some (⟨ts, none⟩, [])
    | _ => none
  | .callbackEnd =>
    match s.firing with
    | some t =>
      (s.timers.checkRestart fuel t).map fun ts => (⟨ts, some ⟨s.timers.tick, none⟩⟩, [])
    | none => none

/-- The timers after their initialisation. -/
def boot (timer : Tm → Timer) (randomNr tick : UInt32) : TimerRun Tm where
  timers := .init (fun t => { timer t with activated := false }) randomNr tick
  checking := none

/-- The timer is still going to fire: it is in a list, or its timeout function runs and it will be
started again. -/
def ToFire (s : TimerRun Tm) (t : Tm) : Prop :=
  ¬ s.timers.Unlinked t ∨
    s.firing = some t ∧ (s.timers.timer t).periodic = true ∧ (s.timers.timer t).activated = true

/-- When its timeout function returns, a one-shot timer is in no list. -/
def NotRestarted (s : TimerRun Tm) : CallAction Tm → Prop
  | .callbackEnd => ∀ t ∈ s.firing, (s.timers.timer t).periodic = true ∨ s.timers.Unlinked t
  | _ => True

instance (s : TimerRun Tm) (a : CallAction Tm) : Decidable (NotRestarted s a) := by
  unfold NotRestarted
  split <;> infer_instance

/-! ### The invariant -/

/-- The flag of `u` is right when the timeout function of `firing` runs. -/
def FlagAt (ts : Timers Tm) (rows : Bool → ℕ → List Tm) (firing : Option Tm) (u : Tm) : Prop :=
  (u ∈ Timers.bottom rows (ts.softList u) → (ts.timer u).activated = true) ∧
  (firing ≠ some u → (ts.timer u).activated = true → u ∈ Timers.bottom rows (ts.softList u))

/-- The rows are lists, and the flags are right. -/
def Flagged (ts : Timers Tm) (firing : Option Tm) : Prop :=
  ∃ rows, ts.Rep rows ∧ ∀ u, FlagAt ts rows firing u

variable {ts ts' : Timers Tm} {rows rows' : Bool → ℕ → List Tm} {firing : Option Tm} {t u : Tm}
  {fuel : ℕ} {s s' : TimerRun Tm}

theorem FlagAt.started (hst : Timers.Started ts ts' rows rows' t)
    (h : ∀ u, u ≠ t → FlagAt ts rows firing u) (firing' : Option Tm)
    (hfiring : ∀ u, u ≠ t → firing' ≠ some u → firing ≠ some u) (u : Tm) :
    FlagAt ts' rows' firing' u := by
  rw [FlagAt, hst.softList, hst.mem_bottom]
  by_cases hu : u = t
  · subst hu
    simp [hst.timer]
  · have htimer : ts'.timer u = ts.timer u := by simp [hst.timer, hu]
    rw [htimer]
    obtain ⟨h₁, h₂⟩ := h u hu
    refine ⟨?_, fun hf ha => .inr ⟨hu, h₂ (hfiring u hu hf) ha⟩⟩
    intro hmem
    rcases hmem with ⟨he, -⟩ | ⟨-, hmem⟩
    · exact absurd he hu
    · exact h₁ hmem

theorem flagged_rtTimerStart (h : Flagged ts firing) (hs : ts.rtTimerStart fuel t = some ts') :
    Flagged ts' firing := by
  obtain ⟨rows, hrep, hflag⟩ := h
  obtain ⟨rows', hst⟩ := hrep.rtTimerStart hs
  exact ⟨rows', hst.rep, FlagAt.started hst (fun u _ => hflag u) firing fun _ _ hf => hf⟩

theorem activated_clearActivated (ts : Timers Tm) (t : Tm) :
    ((ts.clearActivated t).timer t).activated = false := by
  simp [Timers.clearActivated, Timers.modifyTimer]

theorem timer_clearActivated_of_ne (ts : Timers Tm) (hu : u ≠ t) :
    (ts.clearActivated t).timer u = ts.timer u := by
  simp [Timers.clearActivated, Timers.modifyTimer, hu]

theorem softList_clearActivated (ts : Timers Tm) (t : Tm) :
    (ts.clearActivated t).softList = ts.softList :=
  Timers.softList_modifyTimer (t := t) (f := fun timer => { timer with activated := false }) rfl

theorem flagged_startRemove (h : Flagged ts firing) (t : Tm) :
    Flagged (ts.startRemove t) firing := by
  obtain ⟨rows, hrep, hflag⟩ := h
  refine ⟨_, hrep.startRemove t, ?_⟩
  intro u
  rw [FlagAt, Timers.startRemove, softList_clearActivated]
  by_cases hu : u = t
  · subst hu
    simp [Timers.bottom, activated_clearActivated]
  · rw [timer_clearActivated_of_ne _ hu]
    obtain ⟨h₁, h₂⟩ := hflag u
    refine ⟨fun hmem => h₁ (mem_of_mem_filter hmem), ?_⟩
    intro hf ha
    exact mem_filter.2 ⟨h₂ hf ha, by simpa using hu⟩

theorem flagged_rtTimerStop (h : Flagged ts firing) (t : Tm) :
    Flagged (ts.rtTimerStop t).1 firing := by
  rw [Timers.rtTimerStop]
  split
  · exact flagged_startRemove h t
  · exact h

theorem flagged_timerRemove (h : Flagged ts none) (t : Tm) :
    Flagged (ts.timerRemove t) (some t) := by
  obtain ⟨rows, hrep, hflag⟩ := h
  refine ⟨_, hrep.timerRemove t, ?_⟩
  intro u
  obtain ⟨h₁, h₂⟩ := hflag u
  refine ⟨?_, ?_⟩
  · intro hmem
    exact h₁ (mem_of_mem_filter hmem)
  · intro hf ha
    have hu : u ≠ t := by
      rintro rfl
      exact hf rfl
    exact mem_filter.2 ⟨h₂ nofun ha, by simpa using hu⟩

/-- The timeout function has returned, and has not left its one-shot timer started. -/
theorem flagged_checkRestart (h : Flagged ts (some t))
    (hc : (ts.timer t).periodic = true ∨ ts.Unlinked t)
    (hs : ts.checkRestart fuel t = some ts') : Flagged ts' none := by
  obtain ⟨rows, hrep, hflag⟩ := h
  rw [Timers.checkRestart] at hs
  split at hs
  · -- the timer is started again
    obtain ⟨rows', hst⟩ := (hrep.clearActivated t).rtTimerStart hs
    have hflag' : ∀ u, u ≠ t → FlagAt (ts.clearActivated t) rows (some t) u := by
      intro u hu
      rw [FlagAt, softList_clearActivated, timer_clearActivated_of_ne _ hu]
      exact hflag u
    exact ⟨rows', hst.rep, FlagAt.started hst hflag' none fun u hu _ he => hu (some_inj.1 he).symm⟩
  · next hstop =>
    cases hs
    refine ⟨rows, hrep.clearActivated t, ?_⟩
    intro u
    rw [FlagAt, softList_clearActivated]
    by_cases hu : u = t
    · subst hu
      -- a linked timer would be periodic and activated
      have hnot : u ∉ Timers.bottom rows (ts.softList u) := by
        intro hmem
        have hactivated := (hflag u).1 hmem
        rcases hc with hperiodic | hunlinked
        · simp [hperiodic, hactivated] at hstop
        · exact hrep.unlinked_iff.1 hunlinked hmem
      simp [hnot, activated_clearActivated]
    · rw [timer_clearActivated_of_ne _ hu]
      obtain ⟨h₁, h₂⟩ := hflag u
      exact ⟨h₁, fun _ => h₂ fun he => hu (some_inj.1 he).symm⟩

theorem Flagged.congr (h : Flagged ts firing) (hrow : ts'.row = ts.row)
    (hsoft : ts'.softList = ts.softList)
    (hactivated : ∀ u, (ts'.timer u).activated = (ts.timer u).activated) : Flagged ts' firing := by
  obtain ⟨rows, hrep, hflag⟩ := h
  refine ⟨rows, hrep.congr hrow hsoft, ?_⟩
  intro u
  rw [FlagAt, hsoft, hactivated u]
  exact hflag u

theorem flagged_modifyTimer (h : Flagged ts firing) {f : Timer → Timer}
    (hsoft : (f (ts.timer t)).soft = (ts.timer t).soft)
    (hactivated : (f (ts.timer t)).activated = (ts.timer t).activated) :
    Flagged (ts.modifyTimer t f) firing := by
  refine h.congr rfl (Timers.softList_modifyTimer hsoft) ?_
  intro u
  by_cases hu : u = t
  · subst hu
    simpa [Timers.modifyTimer] using hactivated
  · simp [Timers.modifyTimer, hu]

/-- **One step** in which no timeout function leaves its one-shot timer started. -/
theorem flagged_step {a : CallAction Tm} {out : List Tm} (h : Flagged s.timers s.firing)
    (hc : NotRestarted s a) (hs : s.step fuel a = some (s', out)) :
    Flagged s'.timers s'.firing := by
  cases a with
  | start t =>
    simp only [step, ite_none_right_eq_some] at hs
    obtain ⟨ts, hts, hs⟩ := map_eq_some_iff.1 hs.2
    cases hs
    exact flagged_rtTimerStart h hts
  | stop t =>
    simp only [step, ite_none_right_eq_some, some.injEq, Prod.mk.injEq] at hs
    obtain ⟨-, rfl, -⟩ := hs
    exact flagged_rtTimerStop h t
  | setTime t time =>
    simp only [step, ite_none_right_eq_some, some.injEq, Prod.mk.injEq] at hs
    obtain ⟨-, rfl, -⟩ := hs
    exact flagged_modifyTimer (t := t) (f := fun timer => { timer with initTick := time }) h rfl rfl
  | setPeriodic t periodic =>
    simp only [step, ite_none_right_eq_some, some.injEq, Prod.mk.injEq] at hs
    obtain ⟨-, rfl, -⟩ := hs
    exact flagged_modifyTimer (t := t) (f := fun timer => { timer with periodic := periodic }) h
      rfl rfl
  | tick =>
    simp only [step, ite_none_right_eq_some, some.injEq, Prod.mk.injEq] at hs
    obtain ⟨-, rfl, -⟩ := hs
    exact h.congr rfl rfl fun _ => rfl
  | check =>
    simp only [step, ite_none_right_eq_some, some.injEq, Prod.mk.injEq] at hs
    obtain ⟨hnone, rfl, -⟩ := hs
    have hfiring : s.firing = none := by rw [firing, isNone_iff_eq_none.1 hnone]; rfl
    rw [hfiring] at h
    exact h
  | round =>
    simp only [step] at hs
    split at hs
    · next currentTick hchecking =>
      have hfiring : s.firing = none := by rw [firing, hchecking]; rfl
      rw [hfiring] at h
      rcases s.timers.checkFire_cases currentTick with hfire | ⟨t, hfire⟩
      · rw [hfire] at hs
        cases hs
        exact h
      · rw [hfire] at hs
        cases hs
        exact flagged_timerRemove h t
    · cases hs
  | callbackEnd =>
    simp only [step] at hs
    split at hs
    · next t hfiring =>
      obtain ⟨ts, hts, hs⟩ := map_eq_some_iff.1 hs
      cases hs
      rw [hfiring] at h
      exact flagged_checkRestart h (hc t hfiring) hts
    · cases hs

theorem flagged_boot (timer : Tm → Timer) (randomNr tick : UInt32) :
    Flagged (boot timer randomNr tick).timers (boot timer randomNr tick).firing :=
  ⟨_, Timers.rep_init _ randomNr tick, fun _ => ⟨nofun, fun _ ha => by cases ha⟩⟩

theorem activated_of_toFire (h : Flagged s.timers s.firing) (ht : s.ToFire t) :
    (s.timers.timer t).activated = true := by
  rcases ht with hlinked | ⟨-, -, hactivated⟩
  · obtain ⟨rows, hrep, hflag⟩ := h
    refine (hflag t).1 (not_not.1 fun hmem => hlinked ?_)
    exact hrep.unlinked_iff.2 hmem
  · exact hactivated

/-- In every run in which no timeout function leaves its one-shot timer started, a timer has the
flag exactly if it is in a list, unless its timeout function is running; and `rt_timer_stop`
succeeds on every timer that is still going to fire, takes it out of its list and clears the
flag. -/
theorem run_flagRight (fuel : ℕ) (timer : Tm → Timer) (randomNr tick : UInt32) (fired : List Tm)
    (s : TimerRun Tm)
    (hrun : Run (step fuel) NotRestarted (boot timer randomNr tick) fired s) (t : Tm) :
    (s.firing ≠ some t → ((s.timers.timer t).activated = true ↔ ¬ s.timers.Unlinked t)) ∧
      (s.ToFire t → (s.timers.rtTimerStop t).2 = true ∧ (s.timers.rtTimerStop t).1.Unlinked t ∧
        ((s.timers.rtTimerStop t).1.timer t).activated = false) := by
  have h : Flagged s.timers s.firing := hrun.invariant
    (fun _ s => Flagged s.timers s.firing) (flagged_boot timer randomNr tick)
    fun h hc hs => flagged_step h hc hs
  refine ⟨?_, ?_⟩
  · intro hfiring
    obtain ⟨rows, hrep, hflag⟩ := h
    rw [hrep.unlinked_iff, not_not]
    exact ⟨(hflag t).2 hfiring, (hflag t).1⟩
  · intro hfire
    have hactivated := activated_of_toFire h hfire
    rw [Timers.rtTimerStop, if_pos hactivated]
    exact ⟨rfl, Timers.unlinked_timerRemove s.timers t, activated_clearActivated _ t⟩

/-- The timer with a period of one tick is started, and fires at the next tick. -/
def fires : List (CallAction Unit) := [.start (), .tick, .check, .round]

end TimerRun

namespace TimerRun

/-- A periodic timer is in the list again after it has fired. -/
theorem run_flagRight_periodic :
    letI := config1
    ∃ s : TimerRun Unit, s.checking.isNone = true ∧ ¬ s.timers.Unlinked () ∧
      (s.timers.rtTimerStop ()).2 = true ∧ (s.timers.rtTimerStop ()).1.Unlinked () := by
  let _ := config1
  have hsome : (exec (step 5) NotRestarted (boot (fun _ : Unit => rtTimerInit 1 true false) 0 0)
      (fires ++ [CallAction.callbackEnd, .round])).any fun r =>
        r.1.checking.isNone = true ∧ ¬ r.1.timers.Unlinked () := by
    decide +kernel
  obtain ⟨s, fired, hrun, hr⟩ := Run.of_any hsome
  obtain ⟨hidle, hlinked⟩ : s.checking.isNone = true ∧ ¬ s.timers.Unlinked () :=
    hr
  obtain ⟨-, hstop⟩ := run_flagRight 5 (fun _ : Unit => rtTimerInit 1 true false) 0 0 fired s
    hrun ()
  obtain ⟨hok, hunlinked, -⟩ := hstop (.inl hlinked)
  exact ⟨s, hidle, hlinked, hok, hunlinked⟩

/-- The timeout function of a one-shot timer starts it again, and `rt_timer_check` clears the
flag of the timer **in the list**. -/
theorem not_run_flagRight :
    ¬ ∀ [TimerConfig] (fuel : ℕ) (timer : Unit → Timer) (randomNr tick : UInt32)
      (fired : List Unit) (s : TimerRun Unit)
      (_ : Run (step fuel) (fun _ _ => True) (boot timer randomNr tick) fired s)
      (_ : s.checking.isNone = true) (t : Unit),
      ((s.timers.timer t).activated = true ↔ ¬ s.timers.Unlinked t) ∧
        (¬ s.timers.Unlinked t → (s.timers.rtTimerStop t).2 = true) := by
  intro h
  let _ := config1
  have hsome : (exec (step 5) (fun _ _ => True)
      (boot (fun _ : Unit => rtTimerInit 1 false false) 0 0)
      (fires ++ [CallAction.start (), .callbackEnd, .round])).any fun r =>
        r.1.checking.isNone = true ∧ ¬ r.1.timers.Unlinked () ∧
          (r.1.timers.timer ()).activated = false := by
    decide +kernel
  obtain ⟨s, fired, hrun, hr⟩ := Run.of_any hsome
  obtain ⟨hidle, hlinked, hflag⟩ : s.checking.isNone = true ∧ ¬ s.timers.Unlinked () ∧
      (s.timers.timer ()).activated = false := hr
  have hiff := (h 5 (fun _ : Unit => rtTimerInit 1 false false) 0 0 fired s hrun
    hidle ()).1.2 hlinked
  rw [hflag] at hiff
  cases hiff

end TimerRun

end RtThread
