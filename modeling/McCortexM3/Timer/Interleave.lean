import McCortexM3.Timer.Rows
import McCortexM3.Run

/-!
# Interleavings of the timer functions

Threads and interrupt handlers call `rt_timer_start`, `rt_timer_stop` and `rt_timer_check`,
which are divided where interrupts are enabled: `rt_timer_start` first takes the timer out of
its list, then computes the deadline, and then inserts the timer.  The loop of
`rt_timer_check` runs with interrupts disabled, and a timeout function that starts or stops
timers does so in it.

## Main definitions

* `TimerSys.FindsUnlinked` — an insertion finds its timer in no list.

## Main results

* `TimerSys.run_linked` — then the rows stay lists, each a part of the row below.
* `TimerSys.not_run_linked` — two overlapping starts of one timer.
-/

set_option linter.all false

namespace RtThread

open Option

/-- The call that goes on next: `rt_timer_start` after its first section and before the second
one, `rt_timer_stop` after its test of the flag and after its section, and `rt_timer_check`
with the tick that it has read. -/
inductive TimerCall (Tm : Type)
  | deadline (t : Tm)
  | insert (t : Tm)
  | remove (t : Tm)
  | clear (t : Tm)
  | check (currentTick : UInt32)
  deriving DecidableEq

/-- What can happen next: a call, the next stretch of a call, a tick, and, in the loop of
`rt_timer_check`, a round up to the timeout function, a call by this function, and the rest of
the round. -/
inductive TimerAction (Tm : Type)
  | start (t : Tm)
  | stop (t : Tm)
  | check
  | go (c : TimerCall Tm)
  | tick
  | setTime (t : Tm) (time : UInt32)
  | setPeriodic (t : Tm) (periodic : Bool)
  | fire
  | callbackStart (t : Tm)
  | callbackStop (t : Tm)
  | callbackEnd

/-- The timers, the calls that are going on, and the loop of `rt_timer_check`, if it is
running. -/
structure TimerSys (Tm : Type) where
  timers : Timers Tm
  calls : List (TimerCall Tm)
  checking : Option (Check Tm)

namespace TimerSys

variable [TimerConfig] {Tm : Type} [DecidableEq Tm]

/-- The next stretch of a call. -/
def go (fuel : ℕ) (s : TimerSys Tm) : TimerCall Tm → Option (TimerSys Tm)
  | .deadline t =>
    (s.timers.startDeadline t).map fun ts =>
      { s with timers := ts, calls := .insert t :: s.calls }
  | .insert t => (s.timers.startInsert fuel t).map fun ts => { s with timers := ts }
  | .remove t => some { s with timers := s.timers.timerRemove t, calls := .clear t :: s.calls }
  | .clear t => some { s with timers := s.timers.clearActivated t }
  | .check currentTick => some { s with checking := some ⟨currentTick, none⟩ }

/-- One step of an interleaving, in which a search takes at most `fuel` rounds in a row. -/
def step (fuel : ℕ) (s : TimerSys Tm) : TimerAction Tm → Option (TimerSys Tm × List Tm)
  | .start t =>
    if s.checking.isNone then
      some ({ s with timers := s.timers.startRemove t, calls := .deadline t :: s.calls }, [])
    else none
  | .stop t =>
    if s.checking.isNone then
      some (if (s.timers.timer t).activated then { s with calls := .remove t :: s.calls } else s, [])
    else none
  | .check =>
    if s.checking.isNone then some ({ s with calls := .check s.timers.tick :: s.calls }, [])
    else none
  | .go c =>
    if s.checking.isNone && c ∈ s.calls then
      (go fuel { s with calls := s.calls.erase c } c).map fun s => (s, [])
    else none
  | .tick =>
    if s.checking.isNone then
      some ({ s with timers := { s.timers with tick := s.timers.tick + 1 } }, [])
    else none
  | .setTime t time => some ({ s with timers := s.timers.setTime t time }, [])
  | .setPeriodic t periodic => some ({ s with timers := s.timers.setPeriodic t periodic }, [])
  | .fire =>
    match s.checking with
    | some ⟨currentTick, none⟩ =>
      match s.timers.checkFire currentTick with
      | (ts, some t) => some ({ s with timers := ts, checking := some ⟨currentTick, some t⟩ }, [t])
      | (ts, none) => some ({ s with timers := ts, checking := none }, [])
    | _ => none
  | .callbackStart t =>
    match s.checking with
    | some ⟨_, some _⟩ => (s.timers.rtTimerStart fuel t).map fun ts => ({ s with timers := ts }, [])
    | _ => none
  | .callbackStop t =>
    match s.checking with
    | some ⟨_, some _⟩ => some ({ s with timers := (s.timers.rtTimerStop t).1 }, [])
    | _ => none
  | .callbackEnd =>
    match s.checking with
    | some ⟨_, some t⟩ =>
      (s.timers.checkRestart fuel t).map fun ts =>
        ({ s with timers := ts, checking := some ⟨s.timers.tick, none⟩ }, [])
    | _ => none

/-- The system after the timers have been initialised. -/
def boot (timer : Tm → Timer) (randomNr tick : UInt32) : TimerSys Tm where
  timers := .init timer randomNr tick
  calls := []
  checking := none

/-- The second section of `rt_timer_start` finds its timer in no list: no other start of the
timer has come between. -/
def FindsUnlinked (s : TimerSys Tm) : TimerAction Tm → Prop
  | .go (.insert t) => s.timers.Unlinked t
  | _ => True

instance (s : TimerSys Tm) (a : TimerAction Tm) : Decidable (FindsUnlinked s a) := by
  unfold FindsUnlinked
  split <;> infer_instance

/-- The rows are lists, each a part of the row below. -/
def Linked (s : TimerSys Tm) : Prop := ∃ rows, s.timers.Rep rows

variable {fuel : ℕ} {s s' : TimerSys Tm} {ts ts' : Timers Tm}

/-! ### The steps -/

theorem linked_checkFire {currentTick : UInt32} {r : Option Tm} (h : ∃ rows, ts.Rep rows)
    (hs : ts.checkFire currentTick = (ts', r)) : ∃ rows, ts'.Rep rows := by
  obtain ⟨rows, h⟩ := h
  rcases ts.checkFire_cases currentTick with hfire | ⟨t, hfire⟩
  · rw [hfire] at hs
    cases hs
    exact ⟨rows, h⟩
  · rw [hfire] at hs
    cases hs
    exact ⟨_, h.timerRemove t⟩

theorem linked_rtTimerStart {t : Tm} (h : ∃ rows, ts.Rep rows)
    (hs : ts.rtTimerStart fuel t = some ts') : ∃ rows, ts'.Rep rows := by
  obtain ⟨rows, h⟩ := h
  obtain ⟨rows', h'⟩ := h.rtTimerStart hs
  exact ⟨rows', h'.rep⟩

theorem linked_checkRestart {t : Tm} (h : ∃ rows, ts.Rep rows)
    (hs : ts.checkRestart fuel t = some ts') : ∃ rows, ts'.Rep rows := by
  obtain ⟨rows, h⟩ := h
  rw [Timers.checkRestart] at hs
  split at hs
  · exact linked_rtTimerStart ⟨rows, h.clearActivated t⟩ hs
  · cases hs
    exact ⟨rows, h.clearActivated t⟩

theorem linked_go {c : TimerCall Tm} (h : Linked s) (hc : FindsUnlinked s (.go c))
    (hs : go fuel s c = some s') : Linked s' := by
  obtain ⟨rows, h⟩ := h
  cases c with
  | deadline t =>
    obtain ⟨ts, hts, rfl⟩ := map_eq_some_iff.1 hs
    exact ⟨rows, h.startDeadline hts⟩
  | insert t =>
    obtain ⟨ts, hts, rfl⟩ := map_eq_some_iff.1 hs
    obtain ⟨k, -, h'⟩ := h.startInsert hc hts
    exact ⟨_, h'⟩
  | remove t =>
    cases hs
    exact ⟨_, h.timerRemove t⟩
  | clear t =>
    cases hs
    exact ⟨rows, h.clearActivated t⟩
  | check currentTick =>
    cases hs
    exact ⟨rows, h⟩

/-- **One step** in which an insertion finds its timer in no list. -/
theorem linked_step {a : TimerAction Tm} {out : List Tm} (h : Linked s) (hc : FindsUnlinked s a)
    (hs : s.step fuel a = some (s', out)) : Linked s' := by
  cases a with
  | start t =>
    simp only [step, ite_none_right_eq_some, some.injEq, Prod.mk.injEq] at hs
    obtain ⟨-, rfl, -⟩ := hs
    obtain ⟨rows, h⟩ := h
    exact ⟨_, h.startRemove t⟩
  | stop t =>
    simp only [step, ite_none_right_eq_some, some.injEq, Prod.mk.injEq] at hs
    obtain ⟨-, rfl, -⟩ := hs
    split <;> exact h
  | check =>
    simp only [step, ite_none_right_eq_some, some.injEq, Prod.mk.injEq] at hs
    obtain ⟨-, rfl, -⟩ := hs
    exact h
  | go c =>
    simp only [step, ite_none_right_eq_some] at hs
    obtain ⟨-, hs⟩ := hs
    obtain ⟨s₁, hs₁, hs⟩ := map_eq_some_iff.1 hs
    cases hs
    refine linked_go (s := { s with calls := s.calls.erase c }) h ?_ hs₁
    cases c <;> exact hc
  | tick =>
    simp only [step, ite_none_right_eq_some, some.injEq, Prod.mk.injEq] at hs
    obtain ⟨-, rfl, -⟩ := hs
    obtain ⟨rows, h⟩ := h
    exact ⟨rows, h.congr rfl rfl⟩
  | setTime t time =>
    cases hs
    obtain ⟨rows, h⟩ := h
    exact ⟨rows, h.setTime t time⟩
  | setPeriodic t periodic =>
    cases hs
    obtain ⟨rows, h⟩ := h
    exact ⟨rows, h.setPeriodic t periodic⟩
  | fire =>
    simp only [step] at hs
    split at hs
    · split at hs
      · next hfire =>
        cases hs
        exact linked_checkFire h hfire
      · next hfire =>
        cases hs
        exact linked_checkFire h hfire
    · cases hs
  | callbackStart t =>
    simp only [step] at hs
    split at hs
    · obtain ⟨ts, hts, hs⟩ := map_eq_some_iff.1 hs
      cases hs
      exact linked_rtTimerStart h hts
    · cases hs
  | callbackStop t =>
    simp only [step] at hs
    split at hs
    · cases hs
      obtain ⟨rows, h⟩ := h
      exact ⟨_, h.rtTimerStop t⟩
    · cases hs
  | callbackEnd =>
    simp only [step] at hs
    split at hs
    · obtain ⟨ts, hts, hs⟩ := map_eq_some_iff.1 hs
      cases hs
      exact linked_checkRestart h hts
    · cases hs

/-- In every run in which no timer is inserted twice, each row of each timer list is a circular
doubly linked list that has each of its timers once, it is a part of the row below, and the
other timers are in no list. -/
theorem run_linked (fuel : ℕ) (timer : Tm → Timer) (randomNr tick : UInt32) (fired : List Tm)
    (s : TimerSys Tm)
    (hrun : Run (step fuel) FindsUnlinked (boot timer randomNr tick) fired s) :
    ∃ rows : Bool → ℕ → List Tm,
      (∀ soft i, i < skipListLevel →
        Circular (s.timers.row i) (.head soft) ((rows soft i).map .timer) ∧ (rows soft i).Nodup) ∧
      (∀ t i, i < skipListLevel → (∀ soft, t ∉ rows soft i) → (s.timers.row i).Alone (.timer t)) ∧
      ∀ soft i, i + 1 < skipListLevel → (rows soft i).Sublist (rows soft (i + 1)) := by
  obtain ⟨rows, h⟩ : Linked s := hrun.invariant (fun _ s => Linked s)
    ⟨_, Timers.rep_init timer randomNr tick⟩ fun h hc hs => linked_step h hc hs
  refine ⟨rows, fun soft i hi => ⟨(h.row i hi).ring soft, h.nodup soft hi⟩, ?_, h.sublist⟩
  intro t i hi ht
  exact (h.row i hi).alone t (ht _)

/-- One start after the other. -/
def startTwice (t : Unit) : List (TimerAction Unit) :=
  [.start t, .go (.deadline t), .go (.insert t), .start t, .go (.deadline t), .go (.insert t)]

/-- Both starts take the timer out of its list before one of them inserts it. -/
def startOverlapping (t : Unit) : List (TimerAction Unit) :=
  [.start t, .start t, .go (.deadline t), .go (.deadline t), .go (.insert t), .go (.insert t)]

end TimerSys

namespace TimerSys

theorem run_linked_twice :
    letI := config1
    ∃ (s : TimerSys Unit) (rows : Bool → ℕ → List Unit),
      (s.timers.row 0).next (.head false) = .timer () ∧
      Circular (s.timers.row 0) (.head false) ((rows false 0).map .timer) := by
  let _ := config1
  have hsome : (exec (step 5) FindsUnlinked (boot (fun _ : Unit => rtTimerInit 10 false false) 0 0)
      (startTwice ())).any fun r => (r.1.timers.row 0).next (.head false) = .timer () := by
    decide +kernel
  obtain ⟨s, fired, hrun, hr⟩ := Run.of_any hsome
  obtain ⟨rows, hring, -⟩ := run_linked 5 (fun _ : Unit => rtTimerInit 10 false false) 0 0 fired s
    hrun
  exact ⟨s, rows, hr, (hring false 0 (by decide)).1⟩

/-- The second insertion finds the timer in the list and makes it point to itself, so that the
list **does not come back to its head**. -/
theorem not_run_linked :
    ¬ ∀ [TimerConfig] (fuel : ℕ) (timer : Unit → Timer) (randomNr tick : UInt32)
      (fired : List Unit) (s : TimerSys Unit)
      (_ : Run (step fuel) (fun _ _ => True) (boot timer randomNr tick) fired s),
      ∃ rows : Bool → ℕ → List Unit, ∀ soft i, i < skipListLevel →
        Circular (s.timers.row i) (.head soft) ((rows soft i).map .timer) := by
  intro h
  let _ := config1
  have hsome : (exec (step 5) (fun _ _ => True)
      (boot (fun _ : Unit => rtTimerInit 10 false false) 0 0) (startOverlapping ())).any fun r =>
        (r.1.timers.row 0).next (.head false) = .timer () ∧
          (r.1.timers.row 0).next (.timer ()) = .timer () := by
    decide +kernel
  obtain ⟨s, fired, hrun, hr⟩ := Run.of_any hsome
  obtain ⟨hhead, hself⟩ : (s.timers.row 0).next (.head false) = .timer () ∧
      (s.timers.row 0).next (.timer ()) = .timer () := hr
  obtain ⟨rows, hring⟩ := h 5 (fun _ : Unit => rtTimerInit 10 false false) 0 0 fired s hrun
  have hring := hring false 0 (by decide)
  have hnodup := (List.nodup_cons.1 hring.nodup).2
  cases hrows : rows false 0 with
  | nil =>
    rw [hrows] at hring
    have hback := hring.path.1
    rw [hhead] at hback
    cases hback
  | cons u l =>
    rw [hrows] at hring hnodup
    -- the only timer is the last one, and must lead back to the head
    have hl : l = [] := by
      cases l with
      | nil => rfl
      | cons v l => simp at hnodup
    rw [hl] at hring
    have hback := hring.path.2.1
    rw [hself] at hback
    cases hback

end TimerSys

end RtThread
