import McCortexM3.Timer.Soft

/-!
# The end of a timer check

A timer that `rt_timer_check` fires is taken out of the list, and a periodic one is started again.
Its new deadline is not due, unless its period is zero: the loop then finds it due for ever.
`rt_timer_start` accepts every `init_tick` below `RT_TICK_MAX / 2`, and zero as well.

The timeout functions may call the timer functions.  They start no timer, and make none periodic,
whose `init_tick` is zero.

## Main definitions

* `Timers.TimerCall`, `Timeouts.Calls` — the calls of the timeout functions.
* `Timers.Endless` — a periodic timer with the period zero.
* `Timeouts.ChecksOnce` — the check ends, and fires each timer at most once.

## Main results

* `Timeouts.timerCheckLoop_ends` — without a due endless timer the check ends.
* `Timeouts.Trapped.never_ends` — the timeout functions may lead it to one, and it does not.
* `Timeouts.checksOnce_iff` — the check ends exactly if it does not begin, or no due timer is
  endless.
-/

set_option linter.all false

namespace RtThread

open Function Option List Nat
open Fintype (card)

namespace Timers

variable [TimerConfig] {Tm : Type} [DecidableEq Tm]

/-- A call of a timeout function. -/
inductive TimerCall (s : Timers Tm) : Timers Tm → Prop
  | stop (t : Tm) : TimerCall s (s.rtTimerStop t).1
  | start {fuel : ℕ} {t : Tm} {s' : Timers Tm} (hpos : 0 < (s.timer t).initTick)
      (hs : s.rtTimerStart fuel t = some s') : TimerCall s s'
  | setTime (t : Tm) {time : UInt32} (hpos : 0 < time) (hlt : time < halfTickMax) :
      TimerCall s (s.setTime t time)
  | setPeriodic (t : Tm) (periodic : Bool) (hpos : periodic = true → 0 < (s.timer t).initTick) :
      TimerCall s (s.setPeriodic t periodic)

/-- The timer is periodic, and its period is zero. -/
def Endless (s : Timers Tm) (t : Tm) : Prop :=
  (s.timer t).periodic = true ∧ (s.timer t).initTick = 0

/-- The timer is in `rt_timer_list` and due. -/
def Waiting (s : Timers Tm) (t : Tm) : Prop := s.InTimerList t ∧ s.due s.tick t = true

instance (s : Timers Tm) (t : Tm) : Decidable (s.Endless t) :=
  inferInstanceAs (Decidable (_ ∧ _))

instance (s : Timers Tm) (t : Tm) : Decidable (s.Waiting t) :=
  inferInstanceAs (Decidable (_ ∧ _))

/-- No timer more is due, none is endless that has not been, and the periods stay short. -/
structure Calms (s s' : Timers Tm) : Prop where
  rep : ∃ rows, s'.Rep rows
  tick : s'.tick = s.tick
  waiting : ∀ t, s'.Waiting t → s.Waiting t
  endless : ∀ t, s'.Endless t → s.Endless t
  short : ∀ t, (s.timer t).initTick < halfTickMax → (s'.timer t).initTick < halfTickMax

variable {s s' s'' : Timers Tm} {rows : Bool → ℕ → List Tm} {t u : Tm}

theorem calms_refl (h : Rep s rows) : Calms s s :=
  ⟨⟨rows, h⟩, rfl, fun _ => id, fun _ => id, fun _ => id⟩

theorem Calms.trans (h : Calms s s') (h' : Calms s' s'') : Calms s s'' :=
  ⟨h'.rep, h'.tick.trans h.tick, fun t ht => h.waiting t (h'.waiting t ht),
    fun t ht => h.endless t (h'.endless t ht), fun t ht => h'.short t (h.short t ht)⟩

theorem inTimerList_congr (hrow : s'.row = s.row) (hsoft : s'.softList = s.softList) :
    s'.InTimerList t ↔ s.InTimerList t := by
  rw [InTimerList, InTimerList, Unlinked, Unlinked, hrow, hsoft]

theorem Rep.inTimerList_timerRemove (h : Rep s rows) :
    (s.timerRemove t).InTimerList u ↔ s.InTimerList u ∧ u ≠ t := by
  rw [(h.timerRemove t).inTimerList_iff, h.inTimerList_iff]
  simp [bottom]

theorem Rep.calms_modifyTimer (h : Rep s rows) {f : Timer → Timer}
    (hsoft : (f (s.timer t)).soft = (s.timer t).soft)
    (htimeout : (f (s.timer t)).timeoutTick = (s.timer t).timeoutTick)
    (hendless : (f (s.timer t)).periodic = true ∧ (f (s.timer t)).initTick = 0 → s.Endless t)
    (hshort : (s.timer t).initTick < halfTickMax → (f (s.timer t)).initTick < halfTickMax) :
    Calms s (s.modifyTimer t f) := by
  have hself : (s.modifyTimer t f).timer t = f (s.timer t) := update_self ..
  have hother : ∀ u, u ≠ t → (s.modifyTimer t f).timer u = s.timer u := by
    intro u hu
    exact update_of_ne hu ..
  refine ⟨⟨rows, h.modifyTimer hsoft⟩, rfl, ?_, ?_, ?_⟩
  · rintro u ⟨hlist, hdue⟩
    have hlisted : (s.modifyTimer t f).InTimerList u ↔ s.InTimerList u :=
      inTimerList_congr rfl (softList_modifyTimer hsoft)
    refine ⟨hlisted.1 hlist, ?_⟩
    by_cases hu : u = t
    · subst hu
      rwa [due, hself, htimeout] at hdue
    · rwa [due, hother u hu] at hdue
  · intro u hu
    by_cases hut : u = t
    · subst hut
      rw [Endless, hself] at hu
      exact hendless hu
    · rwa [Endless, hother u hut] at hu
  · intro u hu
    by_cases hut : u = t
    · subst hut
      rw [hself]
      exact hshort hu
    · rwa [hother u hut]

theorem Rep.calms_timerRemove (h : Rep s rows) (t : Tm) : Calms s (s.timerRemove t) :=
  ⟨⟨_, h.timerRemove t⟩, rfl, fun _ hu => ⟨(h.inTimerList_timerRemove.1 hu.1).1, hu.2⟩,
    fun _ => id, fun _ => id⟩

theorem Rep.calms_clearActivated (h : Rep s rows) (t : Tm) : Calms s (s.clearActivated t) :=
  h.calms_modifyTimer rfl rfl id id

theorem not_due_add {tick time : UInt32} (hpos : 0 < time) (hlt : time < halfTickMax) :
    ¬ tick - (tick + time) < halfTickMax := by
  have hhalf : halfTickMax.toNat = 2147483647 := rfl
  have htick := tick.toNat_lt
  rw [UInt32.lt_iff_toNat_lt, UInt32.toNat_zero] at hpos
  rw [UInt32.lt_iff_toNat_lt, hhalf] at hlt
  rw [UInt32.lt_iff_toNat_lt, hhalf, UInt32.toNat_sub, UInt32.toNat_add]
  omega

/-- **A start** with a positive period leaves the timer not due. -/
theorem Started.calms {rows' : Bool → ℕ → List Tm} (h : Rep s rows)
    (hst : Started s s' rows rows' t) (hpos : 0 < (s.timer t).initTick) : Calms s s' := by
  refine ⟨⟨rows', hst.rep⟩, hst.tick, ?_, ?_, ?_⟩
  · rintro u ⟨hlist, hdue⟩
    rw [hst.rep.inTimerList_iff, hst.mem_bottom] at hlist
    rw [due, hst.timer, hst.tick] at hdue
    rcases hlist with ⟨rfl, -⟩ | ⟨hne, hmem⟩
    · rw [update_self] at hdue
      exact absurd (of_decide_eq_true hdue) (not_due_add hpos hst.initTick_lt)
    · rw [update_of_ne hne] at hdue
      exact ⟨h.inTimerList_iff.2 hmem, hdue⟩
  · intro u hu
    rw [Endless, hst.timer] at hu
    by_cases hut : u = t
    · subst hut
      rwa [update_self] at hu
    · rwa [update_of_ne hut] at hu
  · intro u hu
    rw [hst.timer]
    by_cases hut : u = t
    · subst hut
      rwa [update_self]
    · rwa [update_of_ne hut]

theorem TimerCall.calms (hc : TimerCall s s') (h : Rep s rows) : Calms s s' := by
  cases hc with
  | stop t =>
    rw [rtTimerStop]
    split
    · exact (h.calms_timerRemove t).trans ((h.timerRemove t).calms_clearActivated t)
    · exact calms_refl h
  | start hpos hs =>
    obtain ⟨rows', hst⟩ := h.rtTimerStart hs
    exact hst.calms h hpos
  | @setTime t time hpos hlt =>
    refine h.calms_modifyTimer rfl rfl ?_ fun _ => hlt
    rintro ⟨-, hzero⟩
    have hzero' : time = 0 := hzero
    rw [hzero'] at hpos
    exact absurd hpos (by decide)
  | setPeriodic t periodic hpos =>
    refine h.calms_modifyTimer rfl rfl ?_ id
    rintro ⟨hperiodic, hzero⟩
    have hpos' := hpos hperiodic
    have hzero' : (s.timer t).initTick = 0 := hzero
    rw [hzero'] at hpos'
    exact absurd hpos' (by decide)

theorem calms_of_calls (h : Rep s rows) (hc : Relation.ReflTransGen TimerCall s s') :
    Calms s s' := by
  induction hc with
  | refl => exact calms_refl h
  | tail _ hcall ih =>
    obtain ⟨rows', h'⟩ := ih.rep
    exact ih.trans (hcall.calms h')

theorem Rep.calms_checkRestart [Fintype Tm] (h : Rep s rows) {fuel : ℕ}
    (hfuel : card Tm < fuel) (hendless : ¬ s.Endless t)
    (hshort : (s.timer t).initTick < halfTickMax) :
    ∃ s', s.checkRestart fuel t = some s' ∧ Calms s s' := by
  have hclear := h.calms_clearActivated t
  rw [checkRestart]
  split
  · next hrestart =>
    rw [Bool.and_eq_true] at hrestart
    have hself : ((s.clearActivated t).timer t).initTick = (s.timer t).initTick := by
      simp [Timers.clearActivated, Timers.modifyTimer]
    have hpos : 0 < (s.timer t).initTick := by
      have hne : (s.timer t).initTick ≠ 0 := fun hzero => hendless ⟨hrestart.1, hzero⟩
      rw [UInt32.lt_iff_toNat_lt, UInt32.toNat_zero]
      exact Nat.pos_of_ne_zero fun hzero => hne (UInt32.toNat_inj.1 hzero)
    have hlength := List.Nodup.length_le_card (h.nodup ((s.clearActivated t).softList t) lastRow_lt)
    obtain ⟨s', hs'⟩ := isSome_iff_exists.1 (isSome_rtTimerStart (h.clearActivated t)
      (hself ▸ hshort) (hlength.trans_lt hfuel))
    obtain ⟨rows', hst⟩ := (h.clearActivated t).rtTimerStart hs'
    exact ⟨s', hs', hclear.trans (hst.calms (h.clearActivated t) (hself ▸ hpos))⟩
  · exact ⟨_, rfl, hclear⟩

end Timers

namespace Timeouts

variable [TimerConfig] {Tm ε : Type} [DecidableEq Tm]

/-- The timeout functions change the timers by calls alone. -/
def Calls (callback : Tm → Timeouts Tm ε → Timeouts Tm ε) : Prop :=
  ∀ t w, Relation.ReflTransGen Timers.TimerCall w.timers (callback t w).timers

/-- With any such timeout functions, `rt_timer_check` ends, and has fired each timer at most
once. -/
def ChecksOnce [Fintype Tm] (w : Timeouts Tm ε) : Prop :=
  ∀ callback : Tm → Timeouts Tm ε → Timeouts Tm ε, Calls callback →
    ∀ fuel, card Tm < fuel → ∃ n w', (timerCheck callback fuel false n w).2 = some w' ∧
      (timerCheck callback fuel false n w).1.Nodup

variable {callback : Tm → Timeouts Tm ε → Timeouts Tm ε} {fuel : ℕ} {w w' : Timeouts Tm ε}
  {t u : Tm}

/-! ### Without an endless timer -/

theorem inTimerList_of_dueTimer {rows : Bool → ℕ → List Tm} (h : w.timers.Rep rows)
    (hdue : w.timers.dueTimer w.timers.tick (w.timers.firstEntry false) = some t) :
    w.timers.Waiting t := by
  have hfirst := Timers.dueTimer_eq_some hdue
  rw [hfirst, Timers.dueTimer] at hdue
  split at hdue
  · next hd =>
    refine ⟨h.inTimerList_iff.2 ?_, hd⟩
    rw [h.firstEntry_eq] at hfirst
    cases hb : Timers.bottom rows false with
    | nil =>
      rw [hb] at hfirst
      cases hfirst
    | cons v l =>
      rw [hb] at hfirst
      cases hfirst
      exact mem_cons_self ..
  · cases hdue

/-- **One round** fires a timer that is due, and takes it out of those that are. -/
theorem fire_calms [Fintype Tm] {rows : Bool → ℕ → List Tm} (h : w.timers.Rep rows)
    (hcalls : Calls callback) (hfuel : card Tm < fuel) (hendless : ¬ w.timers.Endless t)
    (hshort : (w.timers.timer t).initTick < halfTickMax) :
    ∃ w', fire callback fuel t w = some (w.timers.tick, w') ∧
      Timers.Calms w.timers w'.timers ∧ ¬ w'.timers.Waiting t := by
  have hremove := h.calms_timerRemove t
  have hnot : ¬ (w.timers.timerRemove t).Waiting t := by
    rintro ⟨hlist, -⟩
    exact (h.inTimerList_timerRemove.1 hlist).2 rfl
  have hcallback := Timers.calms_of_calls (h.timerRemove t)
    (hcalls t { w with timers := w.timers.timerRemove t })
  have hfirst := hremove.trans hcallback
  obtain ⟨rows', h'⟩ := hcallback.rep
  obtain ⟨s', hs', hrestart⟩ := h'.calms_checkRestart hfuel
    (fun he => hendless (hfirst.endless t he)) (hfirst.short t hshort)
  refine ⟨{ callback t { w with timers := w.timers.timerRemove t } with timers := s' }, ?_,
    hfirst.trans hrestart, fun hw => hnot (hcallback.waiting t (hrestart.waiting t hw))⟩
  rw [fire]
  simp only [hs', map_some]
  rw [hfirst.tick]

/-- **The check ends**: every round leaves fewer timers that are due.  The induction is on the
rounds, of which there are more than such timers. -/
theorem timerCheckLoop_ends [Fintype Tm] (hcalls : Calls callback) (hfuel : card Tm < fuel)
    (n : ℕ) (hrep : ∃ rows, w.timers.Rep rows)
    (hgood : ∀ t, w.timers.Waiting t →
      ¬ w.timers.Endless t ∧ (w.timers.timer t).initTick < halfTickMax)
    (hn : (Finset.univ.filter fun t => w.timers.Waiting t).card < n) :
    ∃ w', (timerCheckLoop callback fuel false n w.timers.tick w).2 = some w' ∧
      (timerCheckLoop callback fuel false n w.timers.tick w).1.Nodup ∧
      ∀ t ∈ (timerCheckLoop callback fuel false n w.timers.tick w).1, w.timers.Waiting t := by
  induction n generalizing w with
  | zero => exact absurd hn (Nat.not_lt_zero _)
  | succ n ih =>
    obtain ⟨rows, h⟩ := hrep
    rw [timerCheckLoop]
    cases hdue : w.timers.dueTimer w.timers.tick (w.timers.firstEntry false) with
    | none => exact ⟨w, rfl, nodup_nil, nofun⟩
    | some t =>
      have hwaiting := inTimerList_of_dueTimer h hdue
      obtain ⟨hendless, hshort⟩ := hgood t hwaiting
      obtain ⟨w', hfire, hcalms, hnot⟩ := fire_calms h hcalls hfuel hendless hshort
      have hgood' : ∀ u, w'.timers.Waiting u →
          ¬ w'.timers.Endless u ∧ (w'.timers.timer u).initTick < halfTickMax := by
        intro u hu
        obtain ⟨hend, hlt⟩ := hgood u (hcalms.waiting u hu)
        exact ⟨fun he => hend (hcalms.endless u he), hcalms.short u hlt⟩
      have hfewer : (Finset.univ.filter fun u => w'.timers.Waiting u).card <
          (Finset.univ.filter fun u => w.timers.Waiting u).card := by
        apply Finset.card_lt_card
        refine (Finset.ssubset_iff_of_subset ?_).2 ⟨t, ?_, ?_⟩
        · intro u hu
          rw [Finset.mem_filter_univ] at hu ⊢
          exact hcalms.waiting u hu
        · rwa [Finset.mem_filter_univ]
        · rwa [Finset.mem_filter_univ]
      obtain ⟨w₂, hend, hnodup, hfired⟩ := ih hcalms.rep hgood' (by omega)
      rw [hcalms.tick] at hend hnodup hfired
      simp only [hfire]
      refine ⟨w₂, hend, nodup_cons.2 ⟨fun hm => hnot (hfired t hm), hnodup⟩, ?_⟩
      intro u hu
      rcases mem_cons.1 hu with rfl | hu
      · exact hwaiting
      · exact hcalms.waiting u (hfired u hu)

/-! ### With an endless timer -/

/-- Some timers are stopped. -/
def stopAll (l : List Tm) (s : Timers Tm) : Timers Tm :=
  l.foldl (fun s t => (s.rtTimerStop t).1) s

/-- The timeout function stops the timers `l`. -/
def stopping (l : List Tm) (_ : Tm) (w : Timeouts Tm ε) : Timeouts Tm ε :=
  { w with timers := stopAll l w.timers }

theorem calls_stopping (l : List Tm) : Calls (stopping l : Tm → Timeouts Tm ε → Timeouts Tm ε) := by
  intro t w
  show Relation.ReflTransGen Timers.TimerCall w.timers (stopAll l w.timers)
  generalize w.timers = s
  induction l generalizing s with
  | nil => exact .refl
  | cons v l ih => exact .head (.stop v) (ih _)

/-- What stopping the timers `l` leaves. -/
structure Stopped (s s' : Timers Tm) (l : List Tm) : Prop where
  rep : ∃ rows, s'.Rep rows
  tick : s'.tick = s.tick
  mem : ∀ t, s'.InTimerList t ↔ s.InTimerList t ∧ t ∉ l
  timer : ∀ t, s'.timer t =
    if t ∈ l then { s.timer t with activated := false } else s.timer t

variable {s : Timers Tm} {rows : Bool → ℕ → List Tm} {l : List Tm}

theorem stopped_rtTimerStop (h : s.Rep rows)
    (hactivated : ∀ t, s.InTimerList t → (s.timer t).activated = true) (v : Tm) :
    Stopped s (s.rtTimerStop v).1 [v] := by
  rw [Timers.rtTimerStop]
  split
  · refine ⟨⟨_, h.startRemove v⟩, rfl, ?_, ?_⟩
    · intro t
      show (s.startRemove v).InTimerList t ↔ _
      rw [(h.startRemove v).inTimerList_iff, h.inTimerList_iff]
      simp [Timers.bottom]
    · intro t
      show Function.update s.timer v _ t = _
      by_cases ht : t = v
      · subst ht
        simp [Timers.timerRemove]
      · simp [ht]
  · next hoff =>
    -- a timer without the flag is in no list
    refine ⟨⟨rows, h⟩, rfl, ?_, ?_⟩
    · intro t
      constructor
      · intro ht
        refine ⟨ht, fun hv => ?_⟩
        rw [mem_singleton.1 hv] at ht
        exact hoff (hactivated v ht)
      · exact And.left
    · intro t
      split
      · next hv =>
        rw [mem_singleton.1 hv]
        have hfalse : (s.timer v).activated = false := by simpa using hoff
        rw [← hfalse]
      · rfl

theorem stopped_stopAll (h : s.Rep rows)
    (hactivated : ∀ t, s.InTimerList t → (s.timer t).activated = true) (l : List Tm) :
    Stopped s (stopAll l s) l := by
  induction l generalizing s rows with
  | nil => exact ⟨⟨rows, h⟩, rfl, by simp [stopAll], by simp [stopAll]⟩
  | cons v l ih =>
    have hone := stopped_rtTimerStop h hactivated v
    obtain ⟨rows', h'⟩ := hone.rep
    have hactivated' : ∀ t, (s.rtTimerStop v).1.InTimerList t →
        ((s.rtTimerStop v).1.timer t).activated = true := by
      intro t ht
      obtain ⟨hlist, hne⟩ := (hone.mem t).1 ht
      rw [hone.timer, if_neg hne]
      exact hactivated t hlist
    have hall := ih h' hactivated'
    refine ⟨hall.rep, hall.tick.trans hone.tick, ?_, ?_⟩
    · intro t
      show (stopAll l (s.rtTimerStop v).1).InTimerList t ↔ _
      rw [hall.mem, hone.mem]
      simp [and_assoc]
    · intro t
      show (stopAll l (s.rtTimerStop v).1).timer t = _
      rw [hall.timer, hone.timer]
      by_cases hv : t = v <;> by_cases hl : t ∈ l <;> simp [hv, hl]

/-- The endless timer `u` is due, all other timers are stopped by the timeout functions, and the
first of the list is due. -/
structure Trapped (l : List Tm) (u : Tm) (w : Timeouts Tm ε) : Prop where
  rep : ∃ rows, w.timers.Rep rows
  activated : ∀ t, w.timers.InTimerList t → (w.timers.timer t).activated = true
  others : ∀ t, w.timers.InTimerList t → t ≠ u → t ∈ l
  notMem : u ∉ l
  waiting : w.timers.Waiting u
  endless : w.timers.Endless u
  first : w.timers.dueTimer w.timers.tick (w.timers.firstEntry false) ≠ none

theorem dueTimer_alone (h : s.Rep rows) (hmem : ∀ t, s.InTimerList t ↔ t = u)
    (hdue : s.due s.tick u = true) : s.dueTimer s.tick (s.firstEntry false) = some u := by
  rw [h.firstEntry_eq, h.bottom_eq_singleton hmem]
  exact if_pos hdue

theorem trapped_alone (h : s.Rep rows) (hnot : u ∉ l) (hmem : ∀ t, s.InTimerList t ↔ t = u)
    (hactivated : (s.timer u).activated = true) (hdue : s.due s.tick u = true)
    (hendless : s.Endless u) (memory : ε) : Trapped l u ⟨s, memory⟩ := by
  refine ⟨⟨rows, h⟩, ?_, ?_, hnot, ⟨(hmem u).2 rfl, hdue⟩, hendless, ?_⟩
  · intro t ht
    rw [(hmem t).1 ht]
    exact hactivated
  · exact fun t ht hne => absurd ((hmem t).1 ht) hne
  · show s.dueTimer s.tick (s.firstEntry false) ≠ none
    rw [dueTimer_alone h hmem hdue]
    exact nofun

theorem Trapped.exists_restart [Fintype Tm] (h : Trapped l u w) (hfuel : card Tm < fuel)
    (hstopped : Stopped (w.timers.timerRemove u) s l) (memory : ε) :
    ∃ s', s.checkRestart fuel u = some s' ∧ s'.tick = w.timers.tick ∧ Trapped l u ⟨s', memory⟩ := by
  obtain ⟨rows, hrep⟩ := h.rep
  obtain ⟨rows', hrep'⟩ := hstopped.rep
  have htick : s.tick = w.timers.tick := hstopped.tick
  have hu : s.timer u = w.timers.timer u := by
    rw [hstopped.timer, if_neg h.notMem]
    rfl
  have hclear := hrep'.clearActivated u
  have htimer : (s.clearActivated u).timer u = { w.timers.timer u with activated := false } := by
    rw [← hu]
    exact update_self ..
  have hzero : ((s.clearActivated u).timer u).initTick = 0 := by
    rw [htimer]
    exact h.endless.2
  have hlength := List.Nodup.length_le_card (hclear.nodup ((s.clearActivated u).softList u)
    Timers.lastRow_lt)
  obtain ⟨s', hs'⟩ := isSome_iff_exists.1 (Timers.isSome_rtTimerStart hclear
    (by rw [hzero]; decide) (hlength.trans_lt hfuel))
  obtain ⟨rows₂, hst⟩ := hclear.rtTimerStart hs'
  have hagain : s'.timer u = { w.timers.timer u with
      timeoutTick := w.timers.tick, activated := true } := by
    rw [hst.timer, update_self, hzero, htimer, UInt32.add_zero]
    exact congrArg (fun tick => { w.timers.timer u with timeoutTick := tick, activated := true })
      htick
  have hsoft : (s.clearActivated u).softList u = false := by
    have hlist := h.waiting.1.1
    rw [Timers.softList, htimer]
    exact hlist
  -- all others have been stopped
  have hnone : ∀ v, v ∉ Timers.bottom rows' false ∨ v = u := by
    intro v
    by_contra hnot
    obtain ⟨hv, hne⟩ := not_or.1 hnot
    have hlisted := (hstopped.mem v).1 (hrep'.inTimerList_iff.2 (not_not.1 hv))
    exact hlisted.2 (h.others v (hrep.inTimerList_timerRemove.1 hlisted.1).1 hne)
  refine ⟨s', ?_, hst.tick.trans htick, trapped_alone hst.rep h.notMem ?_ ?_ ?_ ?_ memory⟩
  · rw [Timers.checkRestart, hu, h.endless.1, h.activated u h.waiting.1]
    exact hs'
  · intro v
    rw [hst.rep.inTimerList_iff, hst.mem_bottom, hsoft]
    have hv := hnone v
    grind
  · rw [hagain]
  · rw [Timers.due, hagain, hst.tick]
    show decide (s.tick - w.timers.tick < halfTickMax) = true
    rw [htick, UInt32.sub_self]
    rfl
  · rw [Timers.Endless, hagain]
    exact h.endless

theorem Trapped.dropped (h : Trapped l u w) (ht : w.timers.InTimerList t) (hne : t ≠ u)
    (hstopped : Stopped (w.timers.timerRemove t) s l) (memory : ε) (fuel : ℕ) :
    s.checkRestart fuel t = some (s.clearActivated t) ∧
      Trapped l u ⟨s.clearActivated t, memory⟩ := by
  obtain ⟨rows, hrep⟩ := h.rep
  obtain ⟨rows', hrep'⟩ := hstopped.rep
  have htick : s.tick = w.timers.tick := hstopped.tick
  have hoff : (s.timer t).activated = false := by
    rw [hstopped.timer, if_pos (h.others t ht hne)]
  have hsame : (s.clearActivated t).timer u = w.timers.timer u := by
    have hu : s.timer u = w.timers.timer u := by
      rw [hstopped.timer, if_neg h.notMem]
      rfl
    rw [← hu]
    exact update_of_ne (Ne.symm hne) ..
  constructor
  · rw [Timers.checkRestart, hoff, Bool.and_false, if_neg Bool.false_ne_true]
  · refine trapped_alone (hrep'.clearActivated t) h.notMem ?_ ?_ ?_ ?_ memory
    · intro v
      rw [(hrep'.clearActivated t).inTimerList_iff, ← hrep'.inTimerList_iff, hstopped.mem,
        hrep.inTimerList_timerRemove]
      constructor
      · rintro ⟨⟨hv, -⟩, hnot⟩
        by_contra hvu
        exact hnot (h.others v hv hvu)
      · rintro rfl
        exact ⟨⟨h.waiting.1, Ne.symm hne⟩, h.notMem⟩
    · rw [hsame]
      exact h.activated u h.waiting.1
    · have hdue := h.waiting.2
      rw [Timers.due, ← htick] at hdue
      rw [Timers.due, hsame]
      exact hdue
    · rw [Timers.Endless, hsame]
      exact h.endless

/-- **One round** leaves the endless timer alone in the list, due again. -/
theorem Trapped.fire [Fintype Tm] (h : Trapped l u w) (hfuel : card Tm < fuel)
    (hdue : w.timers.dueTimer w.timers.tick (w.timers.firstEntry false) = some t) :
    ∃ w', fire (stopping l) fuel t w = some (w.timers.tick, w') ∧
      w'.timers.tick = w.timers.tick ∧ Trapped l u w' := by
  obtain ⟨rows, hrep⟩ := h.rep
  have hlisted := (inTimerList_of_dueTimer hrep hdue).1
  have hstopped := stopped_stopAll (hrep.timerRemove t)
    (fun v hv => h.activated v (hrep.inTimerList_timerRemove.1 hv).1) l
  have htick : (stopAll l (w.timers.timerRemove t)).tick = w.timers.tick := hstopped.tick
  have hrestart : ∃ s', (stopAll l (w.timers.timerRemove t)).checkRestart fuel t = some s' ∧
      s'.tick = w.timers.tick ∧ Trapped l u ⟨s', w.memory⟩ := by
    by_cases htu : t = u
    · subst htu
      exact h.exists_restart hfuel hstopped w.memory
    · obtain ⟨hcheck, htrapped⟩ := h.dropped hlisted htu hstopped w.memory fuel
      exact ⟨_, hcheck, htick, htrapped⟩
  obtain ⟨s', hs', htick', htrapped⟩ := hrestart
  refine ⟨⟨s', w.memory⟩, ?_, htick', htrapped⟩
  rw [Timeouts.fire]
  simp only [stopping, hs', map_some]
  rw [htick]

/-- **The check never ends**, however many rounds it is followed for. -/
theorem Trapped.never_ends [Fintype Tm] (h : Trapped l u w) (hfuel : card Tm < fuel)
    (n : ℕ) : (timerCheckLoop (stopping l) fuel false n w.timers.tick w).2 = none := by
  induction n generalizing w with
  | zero => rfl
  | succ n ih =>
    rw [timerCheckLoop]
    cases hdue : w.timers.dueTimer w.timers.tick (w.timers.firstEntry false) with
    | none => exact absurd hdue h.first
    | some t =>
      obtain ⟨w', hfire, htick, htrapped⟩ := h.fire hfuel hdue
      have hrest := ih htrapped
      rw [htick] at hrest
      simp only [hfire]
      exact hrest

/-! ### When the check ends -/

/-- **`rt_timer_check` ends, and fires each timer at most once**, with any timeout functions,
exactly if its first timer is not due, or no due timer is periodic with the period zero. -/
theorem checksOnce_iff [Fintype Tm] (w : Timeouts Tm ε) (hrep : ∃ rows, w.timers.Rep rows)
    (hstarted : ∀ t, w.timers.InTimerList t →
      (w.timers.timer t).activated = true ∧ (w.timers.timer t).initTick < halfTickMax) :
    w.ChecksOnce ↔ w.timers.dueTimer w.timers.tick (w.timers.firstEntry false) = none ∨
      ∀ t, w.timers.Waiting t → ¬ w.timers.Endless t := by
  constructor
  · intro h
    by_contra hnot
    obtain ⟨hfirst, hsome⟩ := not_or.1 hnot
    obtain ⟨u, hu⟩ := not_forall.1 hsome
    obtain ⟨hwaiting, hendless⟩ := Classical.not_imp.1 hu
    obtain ⟨rows, hr⟩ := hrep
    -- the timeout functions stop all timers but the endless one
    have htrapped : Trapped ((Timers.bottom rows false).filter (· ≠ u)) u w := by
      refine ⟨⟨rows, hr⟩, fun t ht => (hstarted t ht).1, ?_, by simp, hwaiting, not_not.1 hendless,
        hfirst⟩
      intro t ht hne
      exact mem_filter.2 ⟨hr.inTimerList_iff.1 ht, by simpa using hne⟩
    obtain ⟨n, w', hend, -⟩ := h _ (calls_stopping _) (card Tm + 1) (lt_succ_self _)
    rw [timerCheck, htrapped.never_ends (lt_succ_self _)] at hend
    cases hend
  · rintro (hfirst | hcalm) callback hcalls fuel hfuel
    · refine ⟨1, w, ?_, ?_⟩
      · rw [timerCheck, timerCheckLoop, hfirst]
      · rw [timerCheck, timerCheckLoop, hfirst]
        exact nodup_nil
    · obtain ⟨w', hend, hnodup, -⟩ := timerCheckLoop_ends hcalls hfuel _ hrep
        (fun t ht => ⟨hcalm t ht, (hstarted t ht.1).2⟩) (lt_succ_self _)
      exact ⟨_, w', hend, hnodup⟩

end Timeouts

namespace Timeouts

/-- Two timers are started two ticks before the current one: a periodic one with the period
`period`, and another one. -/
def twoStarted (period : UInt32) : Option (Timeouts (Fin 2) Unit) :=
  letI := config1
  ((Timers.init (fun t => rtTimerInit (if t = 0 then period else 1) (t = 0) false) 0
    0xffffffff).rtTimerStart 3 0).bind fun s =>
      (s.rtTimerStart 3 1).map fun s => ⟨{ s with tick := 1 }, ()⟩

theorem rep_twoStarted {period : UInt32} {w : Timeouts (Fin 2) Unit}
    (hw : twoStarted period = some w) :
    letI := config1
    ∃ rows, w.timers.Rep rows := by
  let _ := config1
  obtain ⟨s₁, hs₁, hw⟩ := bind_eq_some_iff.1 hw
  obtain ⟨s₂, hs₂, rfl⟩ := map_eq_some_iff.1 hw
  obtain ⟨rows₁, h₁⟩ := (Timers.rep_init _ _ _).rtTimerStart hs₁
  obtain ⟨rows₂, h₂⟩ := h₁.rep.rtTimerStart hs₂
  exact ⟨rows₂, h₂.rep.congr rfl rfl⟩

/-- A periodic timer and another one are due, and the check ends. -/
theorem checksOnce_twoStarted :
    letI := config1
    ∃ w : Timeouts (Fin 2) Unit, w.timers.Waiting 0 ∧ w.timers.Waiting 1 ∧ w.ChecksOnce := by
  let _ := config1
  have hsome : (twoStarted 2).any fun w =>
      (∀ t, w.timers.Waiting t) ∧ ∀ t, (w.timers.timer t).activated = true ∧
        (w.timers.timer t).initTick < halfTickMax ∧ ¬ w.timers.Endless t := by
    decide +kernel
  obtain ⟨w, hw, hr⟩ := (Option.any_eq_true _ _).1 hsome
  obtain ⟨hwaiting, hgood⟩ := of_decide_eq_true hr
  refine ⟨w, hwaiting 0, hwaiting 1, (checksOnce_iff w (rep_twoStarted hw) ?_).2 (.inr ?_)⟩
  · exact fun t _ => ⟨(hgood t).1, (hgood t).2.1⟩
  · exact fun t _ => (hgood t).2.2

/-- A periodic timer with the period zero, which `rt_timer_start` accepts, keeps the check **for
ever**. -/
theorem not_checksOnce_zero :
    letI := config1
    ¬ ∀ w : Timeouts (Fin 2) Unit, (∃ rows, w.timers.Rep rows) →
      (∀ t, w.timers.InTimerList t →
        (w.timers.timer t).activated = true ∧ (w.timers.timer t).initTick < halfTickMax) →
      w.ChecksOnce := by
  let _ := config1
  intro hall
  have hsome : (twoStarted 0).any fun w =>
      (w.timers.dueTimer w.timers.tick (w.timers.firstEntry false) = some 0 ∧
        w.timers.Waiting 0 ∧ w.timers.Endless 0) ∧ ∀ t, (w.timers.timer t).activated = true ∧
          (w.timers.timer t).initTick < halfTickMax := by
    decide +kernel
  obtain ⟨w, hw, hr⟩ := (Option.any_eq_true _ _).1 hsome
  obtain ⟨⟨hfirst, hwaiting, hendless⟩, hgood⟩ := of_decide_eq_true hr
  have htrapped : Trapped [1] 0 w := by
    refine ⟨rep_twoStarted hw, fun t _ => (hgood t).1, ?_, by decide, hwaiting, hendless, ?_⟩
    · intro t _ hne
      exact mem_singleton.2 (by omega)
    · rw [hfirst]
      exact nofun
  obtain ⟨n, w', hend, -⟩ := hall w (rep_twoStarted hw) (fun t _ => hgood t) (stopping [1])
    (calls_stopping _) 3 (by decide)
  rw [timerCheck, htrapped.never_ends (by decide)] at hend
  cases hend

end Timeouts

end RtThread
