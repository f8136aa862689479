import McCortexM3.Timer.Order

/-!
# The two timer checks

`rt_timer_check` and `rt_soft_timer_check` walk through a list of timers in the same way, except
that the first one reads the head of the list again after each timeout function, and the second
one goes on with the timer that was behind the one that has fired.  Here both run on the same
list, with any timeout functions: these may start, stop and delete timers.

The walks are followed for a number of rounds, since a walk need not end.

## Main definitions

* `Timeouts` — the timers, and what else the timeout functions work on.
* `timerCheck`, `softTimerCheck` — the two walks.
* `Walks` — the states before the rounds of `rt_timer_check`.
* `KeepsNext` — the timer that was behind the fired one is the first of the list.

## Main results

* `checks_agree_iff` — when both fire the same timers and leave the same list.
-/

set_option linter.all false

namespace RtThread

open Option List

/-- The timers, and the memory that the timeout functions use beside them. -/
structure Timeouts (Tm ε : Type) where
  timers : Timers Tm
  memory : ε

namespace Timers

variable [TimerConfig] {Tm : Type} [DecidableEq Tm]

/-- `rt_timer_list[RT_TIMER_SKIP_LIST_LEVEL - 1].next`, or that of `rt_soft_timer_list`. -/
def firstEntry (soft : Bool) (s : Timers Tm) : Entry Tm :=
  (s.row (skipListLevel - 1)).next (.head soft)

/-- The timer of the entry, when it is one and is due. -/
def dueTimer (currentTick : UInt32) (s : Timers Tm) : Entry Tm → Option Tm
  | .head _ => none
  | .timer t => if s.due currentTick t then some t else none

/-- The entry behind the timer `t` in the last row. -/
def nextEntry (t : Tm) (s : Timers Tm) : Entry Tm := (s.row (skipListLevel - 1)).next (.timer t)

theorem dueTimer_eq_some {s : Timers Tm} {currentTick : UInt32} {e : Entry Tm} {t : Tm}
    (h : s.dueTimer currentTick e = some t) : e = .timer t := by
  cases e with
  | head soft => cases h
  | timer u =>
    by_cases hdue : s.due currentTick u = true
    · rw [dueTimer, if_pos hdue] at h
      rw [some.inj h]
    · rw [dueTimer, if_neg hdue] at h
      cases h

theorem Rep.firstEntry_eq {s : Timers Tm} {rows : Bool → ℕ → List Tm} (h : Rep s rows)
    (soft : Bool) : s.firstEntry soft = ((bottom rows soft).map Entry.timer).headD (.head soft) :=
  ((h.row _ lastRow_lt).ring soft).path.next_start

end Timers

namespace Timeouts

variable [TimerConfig] {Tm ε : Type} [DecidableEq Tm]

/-- A round from the removal of the timer `t` on: its timeout function, and the new start of a
periodic timer.  The result comes with the tick that is read in between. -/
def fire (callback : Tm → Timeouts Tm ε → Timeouts Tm ε) (fuel : ℕ) (t : Tm) (w : Timeouts Tm ε) :
    Option (UInt32 × Timeouts Tm ε) :=
  let w := callback t { w with timers := w.timers.timerRemove t }
  (w.timers.checkRestart fuel t).map fun s => (w.timers.tick, { w with timers := s })

/-- The loop of `rt_timer_check` on the list `soft`, for at most `n` rounds: the timers that have
fired, and what the loop leaves if it has ended. -/
def timerCheckLoop (callback : Tm → Timeouts Tm ε → Timeouts Tm ε) (fuel : ℕ) (soft : Bool) :
    ℕ → UInt32 → Timeouts Tm ε → List Tm × Option (Timeouts Tm ε)
  | 0, _, _ => ([], none)
  | n + 1, currentTick, w =>
    match w.timers.dueTimer currentTick (w.timers.firstEntry soft) with
    | none => ([], some w)
    | some t =>
      match fire callback fuel t w with
      | none => ([t], none)
      | some (currentTick, w) =>
        Prod.map (t :: ·) id (timerCheckLoop callback fuel soft n currentTick w)

/-- The loop of `rt_soft_timer_check`, with its variable `n`, which is `e` here. -/
def softTimerCheckLoop (callback : Tm → Timeouts Tm ε → Timeouts Tm ε) (fuel : ℕ) :
    ℕ → UInt32 → Entry Tm → Timeouts Tm ε → List Tm × Option (Timeouts Tm ε)
  | 0, _, _, _ => ([], none)
  | n + 1, currentTick, e, w =>
    match w.timers.dueTimer currentTick e with
    | none => ([], some w)
    | some t =>
      match fire callback fuel t w with
      | none => ([t], none)
      | some (currentTick, w') =>
        Prod.map (t :: ·) id
          (softTimerCheckLoop callback fuel n currentTick (w.timers.nextEntry t) w')

/-- `rt_timer_check`, on the list `soft`. -/
def timerCheck (callback : Tm → Timeouts Tm ε → Timeouts Tm ε) (fuel : ℕ) (soft : Bool) (n : ℕ)
    (w : Timeouts Tm ε) : List Tm × Option (Timeouts Tm ε) :=
  timerCheckLoop callback fuel soft n w.timers.tick w

/-- `rt_soft_timer_check`, on the list `soft`. -/
def softTimerCheck (callback : Tm → Timeouts Tm ε → Timeouts Tm ε) (fuel : ℕ) (soft : Bool) (n : ℕ)
    (w : Timeouts Tm ε) : List Tm × Option (Timeouts Tm ε) :=
  softTimerCheckLoop callback fuel n w.timers.tick (w.timers.firstEntry soft) w

/-- The last row of the timer lists. -/
def armed (w : Timeouts Tm ε) : Links (Entry Tm) := w.timers.row (skipListLevel - 1)

/-- The states before the rounds of `rt_timer_check`, each with the entry that was behind the
timer that has fired last. -/
inductive Walks (callback : Tm → Timeouts Tm ε → Timeouts Tm ε) (fuel : ℕ) (soft : Bool)
    (w₀ : Timeouts Tm ε) : UInt32 → Entry Tm → Timeouts Tm ε → Prop
  | start : Walks callback fuel soft w₀ w₀.timers.tick (w₀.timers.firstEntry soft) w₀
  | round {currentTick currentTick' : UInt32} {e : Entry Tm} {w w' : Timeouts Tm ε} {t : Tm} :
      Walks callback fuel soft w₀ currentTick e w →
      w.timers.dueTimer currentTick (w.timers.firstEntry soft) = some t →
      fire callback fuel t w = some (currentTick', w') →
      Walks callback fuel soft w₀ currentTick' (w.timers.nextEntry t) w'

/-- The entry `e` is the first one of the list, or neither of them is that of a due timer. -/
def KeepsNext (soft : Bool) (currentTick : UInt32) (e : Entry Tm) (w : Timeouts Tm ε) : Prop :=
  e = w.timers.firstEntry soft ∨
    w.timers.dueTimer currentTick e = none ∧
      w.timers.dueTimer currentTick (w.timers.firstEntry soft) = none

variable {callback : Tm → Timeouts Tm ε → Timeouts Tm ε} {fuel n : ℕ} {soft : Bool}
  {w₀ w : Timeouts Tm ε} {currentTick : UInt32} {e : Entry Tm}

theorem keepsNext_iff : KeepsNext soft currentTick e w ↔
    w.timers.dueTimer currentTick e = w.timers.dueTimer currentTick (w.timers.firstEntry soft) := by
  unfold KeepsNext
  constructor
  · rintro (rfl | ⟨he, hfirst⟩)
    · rfl
    · rw [he, hfirst]
  · intro heq
    cases hfirst : w.timers.dueTimer currentTick (w.timers.firstEntry soft) with
    | none => exact .inr ⟨heq.trans hfirst, rfl⟩
    | some t =>
      left
      rw [Timers.dueTimer_eq_some (heq.trans hfirst), Timers.dueTimer_eq_some hfirst]

/-! ### Both walks in step -/

theorem head?_timerCheckLoop (n : ℕ) (currentTick : UInt32) (w : Timeouts Tm ε) :
    (timerCheckLoop callback fuel soft (n + 1) currentTick w).1.head? =
      w.timers.dueTimer currentTick (w.timers.firstEntry soft) := by
  unfold timerCheckLoop
  cases w.timers.dueTimer currentTick (w.timers.firstEntry soft) with
  | none => rfl
  | some t =>
    dsimp only
    cases fire callback fuel t w <;> rfl

theorem head?_softTimerCheckLoop (n : ℕ) (currentTick : UInt32) (e : Entry Tm)
    (w : Timeouts Tm ε) : (softTimerCheckLoop callback fuel (n + 1) currentTick e w).1.head? =
      w.timers.dueTimer currentTick e := by
  unfold softTimerCheckLoop
  cases w.timers.dueTimer currentTick e with
  | none => rfl
  | some t =>
    dsimp only
    cases fire callback fuel t w <;> rfl

/-- While the saved entry stays the first one, the loops do the same.  The induction is on the
rounds. -/
theorem loops_eq (hkeeps : ∀ {currentTick e w}, Walks callback fuel soft w₀ currentTick e w →
      KeepsNext soft currentTick e w) (n : ℕ) {currentTick : UInt32} {e : Entry Tm}
    {w : Timeouts Tm ε} (hw : Walks callback fuel soft w₀ currentTick e w) :
    softTimerCheckLoop callback fuel n currentTick e w =
      timerCheckLoop callback fuel soft n currentTick w := by
  induction n generalizing currentTick e w with
  | zero => rfl
  | succ n ih =>
    have hsame := keepsNext_iff.1 (hkeeps hw)
    unfold softTimerCheckLoop timerCheckLoop
    rw [hsame]
    cases hdue : w.timers.dueTimer currentTick (w.timers.firstEntry soft) with
    | none => rfl
    | some t =>
      dsimp only
      cases hfire : fire callback fuel t w with
      | none => rfl
      | some r =>
        dsimp only
        rw [ih (.round hw hdue hfire)]

/-- As long as the loops fire the same timers, they find the same one in each round.  The induction
is on the rounds that have been walked. -/
theorem walks_fired (h : ∀ n, (softTimerCheck callback fuel soft n w₀).1 =
      (timerCheck callback fuel soft n w₀).1) {currentTick : UInt32} {e : Entry Tm}
    {w : Timeouts Tm ε} (hw : Walks callback fuel soft w₀ currentTick e w) (n : ℕ) :
    (softTimerCheckLoop callback fuel n currentTick e w).1 =
      (timerCheckLoop callback fuel soft n currentTick w).1 := by
  induction hw generalizing n with
  | start => exact h n
  | round hw hdue hfire ih =>
    have hsame := congrArg head? (ih 1)
    rw [head?_softTimerCheckLoop, head?_timerCheckLoop] at hsame
    have hnext := ih (n + 1)
    unfold softTimerCheckLoop timerCheckLoop at hnext
    rw [hsame, hdue] at hnext
    dsimp only at hnext
    rw [hfire] at hnext
    exact tail_eq_of_cons_eq hnext

/-- On any list and with any timeout functions, the two functions fire the same timers in the same
order and leave the same list **exactly when**, before each round of `rt_timer_check`, the timer
that was behind the fired one is the first of the list, or neither of them is due. -/
theorem checks_agree_iff (callback : Tm → Timeouts Tm ε → Timeouts Tm ε) (fuel : ℕ) (soft : Bool)
    (w₀ : Timeouts Tm ε) :
    (∀ n, (softTimerCheck callback fuel soft n w₀).1 = (timerCheck callback fuel soft n w₀).1 ∧
        (softTimerCheck callback fuel soft n w₀).2.map armed =
          (timerCheck callback fuel soft n w₀).2.map armed) ↔
      ∀ currentTick e w, Walks callback fuel soft w₀ currentTick e w →
        KeepsNext soft currentTick e w := by
  constructor
  · intro h currentTick e w hw
    have hfirst := congrArg head? (walks_fired (fun n => (h n).1) hw 1)
    rw [head?_softTimerCheckLoop, head?_timerCheckLoop] at hfirst
    exact keepsNext_iff.2 hfirst
  · intro h n
    have heq : softTimerCheck callback fuel soft n w₀ = timerCheck callback fuel soft n w₀ :=
      loops_eq (h _ _ _) n .start
    rw [heq]
    exact ⟨rfl, rfl⟩

end Timeouts

namespace Timeouts

/-- The timeout function of the timer 0 stops the timer 1. -/
def stopsOther (t : Fin 2) (w : Timeouts (Fin 2) Unit) : Timeouts (Fin 2) Unit :=
  letI := config1
  if t = 0 then { w with timers := (w.timers.rtTimerStop 1).1 } else w

/-- Two software timers of one tick are started, and a tick passes. -/
def twoDue : Option (Timeouts (Fin 2) Unit) :=
  letI := config1
  ((Timers.init (fun _ => rtTimerInit 1 false true) 0 0).rtTimerStart 2 0).bind fun s =>
    (s.rtTimerStart 2 1).map fun s => ⟨{ s with tick := 1 }, ()⟩

/-- A timer that has been stopped before it was its turn **fires nevertheless**. -/
theorem not_checks_agree :
    ¬ ∀ [TimerConfig] (callback : Fin 2 → Timeouts (Fin 2) Unit → Timeouts (Fin 2) Unit)
      (fuel : ℕ) (soft : Bool) (w : Timeouts (Fin 2) Unit),
      (∃ rows, w.timers.Rep rows) → (∀ t w, (callback t w).timers.tick = w.timers.tick) →
        ∀ n, (softTimerCheck callback fuel soft n w).1 = (timerCheck callback fuel soft n w).1 := by
  intro h
  let _ := config1
  have hsome : twoDue.any fun w =>
      (softTimerCheck stopsOther 2 true 2 w).1 = [0, 1] ∧
        (timerCheck stopsOther 2 true 2 w).1 = [0] := by
    decide +kernel
  obtain ⟨w, hw, hfired⟩ := (Option.any_eq_true _ _).1 hsome
  obtain ⟨hsoft, hhard⟩ := of_decide_eq_true hfired
  have hsame := h stopsOther 2 true w ?_ ?_ 2
  · rw [hsoft, hhard] at hsame
    cases hsame
  · unfold twoDue at hw
    obtain ⟨s₁, hs₁, hw⟩ := bind_eq_some_iff.1 hw
    obtain ⟨s₂, hs₂, rfl⟩ := map_eq_some_iff.1 hw
    obtain ⟨rows₁, h₁⟩ := (Timers.rep_init _ _ _).rtTimerStart hs₁
    obtain ⟨rows₂, h₂⟩ := h₁.rep.rtTimerStart hs₂
    exact ⟨rows₂, h₂.rep.congr rfl rfl⟩
  · intro t w
    unfold stopsOther Timers.rtTimerStop
    split_ifs <;> rfl

end Timeouts

end RtThread
