import McCortexM3.DList

/-!
# Timers

The timers of `timer.c`: the timer objects, the two skip lists of started timers, and the
functions, divided where interrupts are enabled.  A node of a skip list is the entry of a row
in a timer or in the array of list heads, and the pointers of a row lead only to entries of the
same row, so that the pointers of each row are given by themselves.  The rows below
`skipListLevel` exist; the last of them holds all started timers.

`none` stands for a failed `RT_ASSERT`, for the use of a list head as a timer, or for a loop
that takes more rounds than it is given.

## Main definitions

* `Timer`, `Timers` — the state.
* `rtTimerStart`, with its sections `startRemove`, `startDeadline`, `startInsert`.
* `rtTimerStop`, with its sections `timerRemove`, `clearActivated`.
* `checkFire`, `checkRestart` — a round of the loop of `rt_timer_check`.
-/

set_option linter.all false

namespace RtThread

/-- The configuration of the build: `RT_TIMER_SKIP_LIST_LEVEL`, `RT_TIMER_SKIP_LIST_MASK` and
`RT_USING_TIMER_SOFT`. -/
class TimerConfig where
  skipListLevel : ℕ
  skipListLevel_pos : 0 < skipListLevel
  skipListMask : UInt32
  usingTimerSoft : Bool

export TimerConfig (skipListLevel skipListLevel_pos skipListMask usingTimerSoft)

/-- The configuration of `rtdef.h`, with software timers. -/
@[reducible] def config1 : TimerConfig := ⟨1, by decide, 0x3, true⟩

/-- `RT_TICK_MAX / 2`. -/
def halfTickMax : UInt32 := 0x7fffffff

/-- The fields of `struct rt_timer` without its rows; `activated`, `periodic` and `soft` are
the flags `RT_TIMER_FLAG_ACTIVATED`, `RT_TIMER_FLAG_PERIODIC` and `RT_TIMER_FLAG_SOFT_TIMER`. -/
structure Timer where
  initTick : UInt32
  timeoutTick : UInt32
  activated : Bool
  periodic : Bool
  soft : Bool

/-- An entry of a row: that of `rt_timer_list` or, for software timers, `rt_soft_timer_list`, or
that of a timer. -/
inductive Entry (Tm : Type)
  | head (soft : Bool)
  | timer (t : Tm)
  deriving DecidableEq

/-- The timers, the rows, `random_nr` and `rt_tick`; and the number of insertions before the
last insertion of each timer, which nothing reads. -/
structure Timers (Tm : Type) where
  row : ℕ → Links (Entry Tm)
  timer : Tm → Timer
  randomNr : UInt32
  tick : UInt32
  insertions : ℕ
  inserted : Tm → ℕ

/-- The loop of `rt_timer_check`: its variable `current_tick`, and the timer whose timeout
function is running. -/
structure Check (Tm : Type) where
  currentTick : UInt32
  firing : Option Tm

/-- `_rt_timer_init`. -/
def rtTimerInit (time : UInt32) (periodic soft : Bool) : Timer where
  initTick := time
  timeoutTick := 0
  activated := false
  periodic := periodic
  soft := soft

namespace Timers

variable [TimerConfig] {Tm : Type} [DecidableEq Tm]

/-- The timer object of `t` rewritten by `f`. -/
def modifyTimer (s : Timers Tm) (t : Tm) (f : Timer → Timer) : Timers Tm :=
  { s with timer := Function.update s.timer t (f (s.timer t)) }

/-- The timer lists after `rt_system_timer_init` and the initialisation of the timers. -/
def init (timer : Tm → Timer) (randomNr tick : UInt32) : Timers Tm where
  row := fun _ => .init
  timer := timer
  randomNr := randomNr
  tick := tick
  insertions := 0
  inserted := fun _ => 0

/-- The list that `t` belongs to. -/
def softList (s : Timers Tm) (t : Tm) : Bool := usingTimerSoft && (s.timer t).soft

/-- `_rt_timer_remove`. -/
def timerRemove (t : Tm) (s : Timers Tm) : Timers Tm :=
  { s with row := fun i => (s.row i).remove (.timer t) }

/-- `timer->parent.flag &= ~RT_TIMER_FLAG_ACTIVATED`. -/
def clearActivated (t : Tm) (s : Timers Tm) : Timers Tm :=
  s.modifyTimer t fun timer => { timer with activated := false }

/-! ### `rt_timer_start` -/

/-- The first section of `rt_timer_start`. -/
def startRemove (t : Tm) (s : Timers Tm) : Timers Tm := (s.timerRemove t).clearActivated t

/-- `rt_timer_start` between its sections. -/
def startDeadline (t : Tm) (s : Timers Tm) : Option (Timers Tm) :=
  if (s.timer t).initTick < halfTickMax then
    some (s.modifyTimer t fun timer => { timer with timeoutTick := s.tick + timer.initTick })
  else none

/-- The timer `u` stops the search for the place of a deadline. -/
def stops (s : Timers Tm) (deadline : UInt32) (u : Tm) : Bool :=
  (s.timer u).timeoutTick - deadline ≠ 0 && (s.timer u).timeoutTick - deadline < halfTickMax

/-- The search in one row, from the entry `e`. -/
def searchRow (s : Timers Tm) (soft : Bool) (deadline : UInt32) (i : ℕ) :
    ℕ → Entry Tm → Option (Entry Tm)
  | 0, _ => none
  | fuel + 1, e =>
    if e = (s.row i).prev (.head soft) then some e
    else
      match (s.row i).next e with
      | .head _ => none
      | .timer u =>
        if s.stops deadline u then some e else searchRow s soft deadline i fuel (.timer u)

/-- The array `row_head` from the row `i` on, for `n` rows: a row is searched from where the
search in the row above ended.  Each entry comes with its row. -/
def rowHeads (s : Timers Tm) (soft : Bool) (deadline : UInt32) (fuel : ℕ) :
    (n i : ℕ) → Entry Tm → Option (List (ℕ × Entry Tm))
  | 0, _, _ => some []
  | n + 1, i, e =>
    (s.searchRow soft deadline i fuel e).bind fun h =>
      (rowHeads s soft deadline fuel n (i + 1) h).map fun heads => (i, h) :: heads

/-- `t` is inserted after the entry `h` of the row `i`. -/
def insertRow (t : Tm) (i : ℕ) (h : Entry Tm) (row : ℕ → Links (Entry Tm)) : ℕ → Links (Entry Tm) :=
  Function.update row i ((row i).insertAfter h (.timer t))

/-- The loop that inserts `t` into the rows above the last one, while the bits of `tst_nr`
say so. -/
def insertUpper (t : Tm) : List (ℕ × Entry Tm) → UInt32 → (ℕ → Links (Entry Tm)) →
    ℕ → Links (Entry Tm)
  | [], _, row => row
  | (i, h) :: heads, tstNr, row =>
    if tstNr &&& skipListMask = 0 then
      insertUpper t heads (tstNr >>> ((skipListMask + 1) >>> 1)) (insertRow t i h row)
    else row

/-- The second section of `rt_timer_start`. -/
def startInsert (fuel : ℕ) (t : Tm) (s : Timers Tm) : Option (Timers Tm) :=
  (s.rowHeads (s.softList t) (s.timer t).timeoutTick fuel skipListLevel 0
    (.head (s.softList t))).bind fun heads =>
    match heads.reverse with
    | [] => none
    | (i, h) :: upper =>
      let s := { s with
        row := insertUpper t upper (s.randomNr + 1) (insertRow t i h s.row)
        randomNr := s.randomNr + 1
        insertions := s.insertions + 1
        inserted := Function.update s.inserted t s.insertions }
      some (s.modifyTimer t fun timer => { timer with activated := true })

/-- `rt_timer_start` called with interrupts disabled.  The resumption of the timer thread is
the kernel's business. -/
def rtTimerStart (fuel : ℕ) (t : Tm) (s : Timers Tm) : Option (Timers Tm) :=
  ((s.startRemove t).startDeadline t).bind (startInsert fuel t)

/-! ### `rt_timer_stop` and `rt_timer_check` -/

/-- `rt_timer_stop` called with interrupts disabled: the timers, and whether it returns
`RT_EOK`. -/
def rtTimerStop (t : Tm) (s : Timers Tm) : Timers Tm × Bool :=
  if (s.timer t).activated then ((s.timerRemove t).clearActivated t, true) else (s, false)

/-- `rt_timer_control` with `RT_TIMER_CTRL_SET_TIME`. -/
def setTime (t : Tm) (time : UInt32) (s : Timers Tm) : Timers Tm :=
  s.modifyTimer t fun timer => { timer with initTick := time }

/-- `rt_timer_control` with `RT_TIMER_CTRL_SET_ONESHOT` and `RT_TIMER_CTRL_SET_PERIODIC`. -/
def setPeriodic (t : Tm) (periodic : Bool) (s : Timers Tm) : Timers Tm :=
  s.modifyTimer t fun timer => { timer with periodic := periodic }

/-- The deadline of `t` is at or before `currentTick`. -/
def due (s : Timers Tm) (currentTick : UInt32) (t : Tm) : Bool :=
  currentTick - (s.timer t).timeoutTick < halfTickMax

/-- The first timer of `rt_timer_list`, if the list is not empty. -/
def firstTimer (s : Timers Tm) : Option Tm :=
  match (s.row (skipListLevel - 1)).next (.head false) with
  | .head _ => none
  | .timer t => some t

/-- The round of the loop of `rt_timer_check` up to the call of the timeout function: the timer
to be called, or `none` when the loop ends. -/
def checkFire (currentTick : UInt32) (s : Timers Tm) : Timers Tm × Option Tm :=
  match s.firstTimer with
  | none => (s, none)
  | some t => if s.due currentTick t then (s.timerRemove t, some t) else (s, none)

theorem checkFire_cases (s : Timers Tm) (currentTick : UInt32) :
    s.checkFire currentTick = (s, none) ∨
      ∃ t, s.checkFire currentTick = (s.timerRemove t, some t) := by
  rw [checkFire]
  split
  · exact .inl rfl
  · next t _ =>
    split
    · exact .inr ⟨t, rfl⟩
    · exact .inl rfl

/-- The round of the loop of `rt_timer_check` after the call of the timeout function. -/
def checkRestart (fuel : ℕ) (t : Tm) (s : Timers Tm) : Option (Timers Tm) :=
  if (s.timer t).periodic && (s.timer t).activated then
    (s.clearActivated t).rtTimerStart fuel t
  else some (s.clearActivated t)

end Timers

end RtThread
