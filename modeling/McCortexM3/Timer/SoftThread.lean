import McCortexM3.Timer.Soft

/-!
# The soft timer thread

`rt_thread_timer_entry` reads the deadline of the first soft timer and sleeps until then; when
there is no soft timer it suspends itself.  `rt_timer_list_next_timeout` says so with the value
`RT_TICK_MAX`, which is a deadline like any other: a timer with this deadline at the front of the
list stops the thread, until some soft timer is started.

## Main definitions

* `rtTimerListNextTimeout` — the deadline of the first timer, or `RT_TICK_MAX`.
* `timerRest` — what the thread does before it checks the timers.
* `ticksTo` — the ticks that are left to a deadline.
* `RestsWell` — the thread does not suspend itself, and does not sleep past a deadline.

## Main results

* `restsWell_iff` — it rests well exactly if the first deadline is not `RT_TICK_MAX` and no other
  one comes earlier.
-/

set_option linter.all false

namespace RtThread

open Option

/-- `RT_TICK_MAX`. -/
def rtTickMax : UInt32 := 0xffffffff

/-- What `rt_thread_timer_entry` does before `rt_soft_timer_check`: it suspends itself, it calls
`rt_thread_delay`, or it goes on. -/
inductive TimerRest
  | suspend
  | delay (tick : UInt32)
  | goOn
  deriving DecidableEq

namespace Timers

variable [TimerConfig] {Tm : Type} [DecidableEq Tm]

/-- `rt_timer_list_next_timeout`. -/
def rtTimerListNextTimeout (soft : Bool) (s : Timers Tm) : UInt32 :=
  match s.firstEntry soft with
  | .head _ => rtTickMax
  | .timer t => (s.timer t).timeoutTick

/-- A round of `rt_thread_timer_entry` up to `rt_soft_timer_check`. -/
def timerRest (s : Timers Tm) : TimerRest :=
  let nextTimeout := s.rtTimerListNextTimeout true
  if nextTimeout = rtTickMax then .suspend
  else if nextTimeout - s.tick < halfTickMax then .delay (nextTimeout - s.tick)
  else .goOn

/-- The timer is in `rt_soft_timer_list`. -/
def InSoftTimerList (s : Timers Tm) (t : Tm) : Prop := s.softList t = true ∧ ¬ s.Unlinked t

instance (s : Timers Tm) (t : Tm) : Decidable (s.InSoftTimerList t) :=
  inferInstanceAs (Decidable (_ ∧ _))

/-- The ticks that are left to the deadline of the timer, none when it has passed. -/
def ticksTo (s : Timers Tm) (t : Tm) : ℕ := (s.ahead t).toNat

/-- The thread does not suspend itself, and sleeps for no longer than until the earliest
deadline. -/
def RestsWell (s : Timers Tm) : Prop :=
  s.timerRest ≠ .suspend ∧
    ∀ tick, s.timerRest = .delay tick → ∀ u, s.InSoftTimerList u → tick.toNat ≤ s.ticksTo u

variable {s : Timers Tm} {rows : Bool → ℕ → List Tm} {t u : Tm}

theorem Rep.inSoftTimerList_iff (h : Rep s rows) : s.InSoftTimerList t ↔ t ∈ bottom rows true :=
  h.mem_bottom_iff true

theorem Rep.exists_firstEntry (h : Rep s rows) (hne : ∃ u, s.InSoftTimerList u) :
    ∃ t, s.firstEntry true = .timer t ∧ s.InSoftTimerList t := by
  obtain ⟨u, hu⟩ := hne
  rw [h.inSoftTimerList_iff] at hu
  rw [h.firstEntry_eq]
  cases hb : bottom rows true with
  | nil =>
    rw [hb] at hu
    cases hu
  | cons t l =>
    refine ⟨t, rfl, h.inSoftTimerList_iff.2 ?_⟩
    rw [hb]
    exact List.mem_cons_self ..

theorem ticksTo_eq (hlt : (s.timer t).timeoutTick - s.tick < halfTickMax) :
    s.ticksTo t = ((s.timer t).timeoutTick - s.tick).toNat := by
  have hhalf : halfTickMax.toNat = 2147483647 := rfl
  rw [UInt32.lt_iff_toNat_lt, hhalf] at hlt
  rw [ticksTo, ahead, serialDist, if_pos (by omega)]
  exact Int.toNat_natCast _

/-- **The thread rests well** exactly if the deadline of the first timer is not `RT_TICK_MAX` and,
when it is still ahead, no other timer of the list is due earlier. -/
theorem restsWell_iff (h : ∃ rows, Rep s rows) (hne : ∃ u, s.InSoftTimerList u) :
    s.RestsWell ↔ ∃ t, s.firstEntry true = .timer t ∧ (s.timer t).timeoutTick ≠ rtTickMax ∧
      ((s.timer t).timeoutTick - s.tick < halfTickMax →
        ∀ u, s.InSoftTimerList u → s.ticksTo t ≤ s.ticksTo u) := by
  obtain ⟨rows, hrep⟩ := h
  obtain ⟨t, hfirst, -⟩ := hrep.exists_firstEntry hne
  have hnext : s.rtTimerListNextTimeout true = (s.timer t).timeoutTick := by
    rw [rtTimerListNextTimeout, hfirst]
  rw [RestsWell, timerRest, hnext]
  constructor
  · rintro ⟨hsuspend, hdelay⟩
    have hmax : (s.timer t).timeoutTick ≠ rtTickMax := fun hmax => hsuspend (if_pos hmax)
    refine ⟨t, hfirst, hmax, ?_⟩
    intro hlt u hu
    rw [ticksTo_eq hlt]
    exact hdelay _ (by rw [if_neg hmax, if_pos hlt]) u hu
  · rintro ⟨t', hfirst', hmax, hearliest⟩
    obtain rfl : t = t' := Entry.timer.inj (hfirst.symm.trans hfirst')
    rw [if_neg hmax]
    split
    · next hlt =>
      refine ⟨nofun, ?_⟩
      rintro tick ⟨⟩ u hu
      rw [← ticksTo_eq hlt]
      exact hearliest hlt u hu
    · exact ⟨nofun, nofun⟩

end Timers

namespace Timers

/-- Two soft timers of `time` and of four ticks are started at the tick `tick`. -/
def softStarted (tick time : UInt32) : Option (Timers (Fin 2)) :=
  letI := config1
  ((init (fun t => rtTimerInit (if t = 0 then time else 4) false true) 0 tick).rtTimerStart
    2 0).bind fun s => s.rtTimerStart 2 1

theorem rep_softStarted {tick time : UInt32} {s : Timers (Fin 2)}
    (hs : softStarted tick time = some s) :
    letI := config1
    ∃ rows, Rep s rows := by
  let _ := config1
  obtain ⟨s₁, hs₁, hs₂⟩ := bind_eq_some_iff.1 hs
  obtain ⟨rows₁, h₁⟩ := (rep_init _ _ _).rtTimerStart hs₁
  obtain ⟨rows₂, h₂⟩ := h₁.rep.rtTimerStart hs₂
  exact ⟨rows₂, h₂.rep⟩

/-- The deadlines lie on both sides of the last tick before the wraparound, and the thread rests
well. -/
theorem restsWell_softStarted :
    letI := config1
    ∃ s : Timers (Fin 2), s.InSoftTimerList 0 ∧ s.InSoftTimerList 1 ∧
      s.timerRest = .delay 2 ∧ s.RestsWell := by
  let _ := config1
  have hsome : (softStarted 0xfffffffc 2).any fun s =>
      s.firstEntry true = .timer 0 ∧ (s.timer 0).timeoutTick ≠ rtTickMax ∧
        s.timerRest = .delay 2 ∧ ∀ u, s.InSoftTimerList u ∧ s.ticksTo 0 ≤ s.ticksTo u := by
    decide +kernel
  obtain ⟨s, hs, hr⟩ := (any_eq_true _ _).1 hsome
  obtain ⟨hfirst, hmax, hrest, hall⟩ := of_decide_eq_true hr
  refine ⟨s, (hall 0).1, (hall 1).1, hrest, ?_⟩
  rw [restsWell_iff (rep_softStarted hs) ⟨0, (hall 0).1⟩]
  exact ⟨0, hfirst, hmax, fun _ u _ => (hall u).2⟩

/-- The first timer is due at the tick `RT_TICK_MAX`, and the thread **suspends itself** with two
timers in its list. -/
theorem not_restsWell_softStarted :
    letI := config1
    ¬ ∀ s : Timers (Fin 2), (∃ rows, Rep s rows) → (∃ u, s.InSoftTimerList u) → s.RestsWell := by
  let _ := config1
  intro hall
  have hsome : (softStarted 0xfffffffc 3).any fun s =>
      s.timerRest = .suspend ∧ s.InSoftTimerList 0 ∧ s.InSoftTimerList 1 := by
    decide +kernel
  obtain ⟨s, hs, hr⟩ := (any_eq_true _ _).1 hsome
  obtain ⟨hrest, hlisted, -⟩ := of_decide_eq_true hr
  exact (hall s (rep_softStarted hs) ⟨0, hlisted⟩).1 hrest

end Timers

end RtThread
