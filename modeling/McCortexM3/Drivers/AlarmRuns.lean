import McCortexM3.Drivers.Alarm

/-!
# Runs of the alarms

The RTC is set for the current alarm whenever an alarm is started, and in a run whose operations
find what they need, for the one that comes next whenever one of them has succeeded.

## Main definitions

* `AlarmSys.Inv` — the invariant.
* `AlarmSys.Settled` — the RTC is set for the current alarm, which comes first.

## Main results

* `AlarmSys.run_nextSet` — the next alarm is set after every success, in every such run.
* `AlarmSys.not_nextSet` — a one-shot alarm that has woken up stays `current`, and the next day an
  alarm is started without the RTC being set.
-/

set_option linter.all false

namespace RtThread

open Function Option List

/-! ### Times of day -/

/-- The time of day of an alarm. -/
def Alarm.daysec (a : Alarm) : ℤ := alarmMkdaysec a.wktime

theorem alarmMkdaysec_range {t : Tm} (hs : 0 ≤ t.tmSec ∧ t.tmSec < 60)
    (hm : 0 ≤ t.tmMin ∧ t.tmMin < 60) (hh : 0 ≤ t.tmHour ∧ t.tmHour < 24) :
    0 ≤ alarmMkdaysec t ∧ alarmMkdaysec t < daySeconds := by
  have hmod : alarmMkdaysec t = t.tmSec + t.tmMin * 60 + t.tmHour * 3600 :=
    Int.emod_eq_of_lt (by omega) (by omega)
  unfold daySeconds
  omega

theorem TimeLib.daysec_range (lib : TimeLib) (t : ℕ) :
    0 ≤ alarmMkdaysec (lib.localtime t) ∧ alarmMkdaysec (lib.localtime t) < daySeconds :=
  alarmMkdaysec_range (lib.sec_range t) (lib.min_range t) (lib.hour_range t)

theorem setupKind_fst (kind : AlarmKind) (setup now : Tm) :
    (setupKind kind setup now).1.tmSec = setup.tmSec ∧
      (setupKind kind setup now).1.tmMin = setup.tmMin ∧
      (setupKind kind setup now).1.tmHour = setup.tmHour := by
  cases kind <;> exact ⟨rfl, rfl, rfl⟩

theorem alarmSetup_range (lib : TimeLib) (a : Alarm) (wktime : Tm) (t : ℕ)
    (h : (alarmSetup a wktime (lib.localtime t)).2 = true) :
    0 ≤ (alarmSetup a wktime (lib.localtime t)).1.daysec ∧
      (alarmSetup a wktime (lib.localtime t)).1.daysec < daySeconds := by
  obtain ⟨hsec, hmin, hhour⟩ :=
    setupKind_fst a.kind (setupDay wktime (lib.localtime t)) (lib.localtime t)
  have hs := lib.sec_range t
  have hm := lib.min_range t
  have hh := lib.hour_range t
  unfold alarmSetup at h ⊢
  dsimp only at h ⊢
  unfold setupDay at hsec hmin hhour
  dsimp only at hsec hmin hhour
  split at h
  case isFalse => cases h
  case isTrue hok =>
    rw [if_pos hok]
    refine alarmMkdaysec_range ?_ ?_ ?_
    · dsimp only
      split
      · show (0 : ℤ) ≤ 60 - rtAlarmDelay ∧ 60 - rtAlarmDelay < 60
        decide
      · rw [setupDay, hsec]
        split <;> omega
    · dsimp only
      split
      · rw [setupDay, hmin]
        split <;> omega
      · rw [setupDay, hmin]
        split <;> omega
    · dsimp only
      split
      · rw [setupDay, hhour]
        split <;> omega
      · rw [setupDay, hhour]
        split <;> omega

theorem alarmSetup_addr (a : Alarm) (wktime now : Tm) :
    (alarmSetup a wktime now).1.addr = a.addr := by
  unfold alarmSetup
  dsimp only
  split <;> rfl

theorem alarmSetup_started (a : Alarm) (wktime now : Tm) :
    (alarmSetup a wktime now).1.started = a.started := by
  unfold alarmSetup
  dsimp only
  split <;> rfl

theorem alarmSetup_inited (a : Alarm) (wktime now : Tm) (h : (alarmSetup a wktime now).2 = true) :
    (alarmSetup a wktime now).1.inited = true := by
  unfold alarmSetup at h ⊢
  dsimp only at h ⊢
  split at h
  case isFalse => cases h
  case isTrue hok => rw [if_pos hok]

theorem alarmSetup_failed (a : Alarm) (wktime now : Tm) (h : (alarmSetup a wktime now).2 = false) :
    (alarmSetup a wktime now).1.inited = a.inited := by
  unfold alarmSetup at h ⊢
  dsimp only at h ⊢
  split at h
  case isFalse hno => rw [if_neg hno]
  case isTrue => cases h

theorem alarmSet_fst (a : Alarm) : (alarmSet a).1 = a := by
  unfold alarmSet
  dsimp only
  split <;> rfl

/-! ### The first loop of `alarm_update` -/

namespace AlarmSys

/-- The alarm after the first loop of `alarm_update`. -/
def woken (lib : TimeLib) (now : ℕ) (a : Alarm) : Alarm :=
  if Stays lib now a then a else { a with started := false }

variable {lib : TimeLib} {secNow : ℤ} {alarms : List Alarm} {current : Option ℕ}

@[simp] theorem woken_addr (lib : TimeLib) (now : ℕ) (a : Alarm) :
    (woken lib now a).addr = a.addr := by
  unfold woken
  split <;> rfl

theorem woken_started {now : ℕ} {a : Alarm} :
    (woken lib now a).started = true ↔ Stays lib now a := by
  unfold woken
  split
  case isTrue h => exact ⟨fun _ => h, fun _ => h.1⟩
  case isFalse h => exact ⟨fun hs => Bool.noConfusion hs, fun hs => absurd hs h⟩

theorem woken_of_stays {now : ℕ} {a : Alarm} (h : Stays lib now a) : woken lib now a = a := if_pos h

theorem woken_of_stopped {now : ℕ} {a : Alarm} (h : a.started = false) : woken lib now a = a := by
  unfold woken
  split
  · rfl
  · rw [← h]

theorem woken_inited (lib : TimeLib) (now : ℕ) (a : Alarm) :
    (woken lib now a).inited = a.inited := by
  unfold woken
  split <;> rfl

theorem woken_daysec (lib : TimeLib) (now : ℕ) (a : Alarm) :
    (woken lib now a).daysec = a.daysec := by
  unfold woken
  split <;> rfl

theorem alarmWakeup_eq (lib : TimeLib) (now : ℕ) (a : Alarm) (rtc : WkAlarm) :
    (alarmWakeup lib (lib.localtime now) a rtc).1 = woken lib now a ∧
      ((a.started = true → Stays lib now a) →
        (alarmWakeup lib (lib.localtime now) a rtc).2.1 = rtc) := by
  unfold alarmWakeup
  dsimp only
  by_cases hstarted : a.started = true
  · rw [if_pos hstarted]
    cases hk : a.kind with
    | oneshot =>
      dsimp only
      by_cases hdue : oneshotDue lib (lib.localtime now) a.wktime = true
      · have hgone : ¬ Stays lib now a := fun h => h.2 ⟨hk, hdue⟩
        rw [if_pos hdue]
        refine ⟨?_, fun h => absurd (h hstarted) hgone⟩
        rw [alarmSet_fst, woken, if_neg hgone, hk]
      · rw [if_neg hdue]
        exact ⟨(woken_of_stays ⟨hstarted, fun h => hdue h.2⟩).symm, fun _ => rfl⟩
    | _ =>
      exact ⟨(woken_of_stays ⟨hstarted, fun h => by rw [hk] at h; cases h.1⟩).symm, fun _ => rfl⟩
  · rw [if_neg hstarted]
    exact ⟨(woken_of_stopped (by simpa using hstarted)).symm, fun _ => rfl⟩

/-- The first loop stops the one-shot alarms that are due, and leaves the RTC when there are none.
-/
theorem wakeAlarms_eq (lib : TimeLib) (now : ℕ) (alarms : List Alarm) (rtc : WkAlarm) :
    (wakeAlarms lib (lib.localtime now) alarms rtc).1 = alarms.map (woken lib now) ∧
      ((∀ a ∈ alarms, a.started = true → Stays lib now a) →
        (wakeAlarms lib (lib.localtime now) alarms rtc).2.1 = rtc) := by
  induction alarms generalizing rtc with
  | nil => exact ⟨rfl, fun _ => rfl⟩
  | cons a alarms ih =>
    obtain ⟨hfst, hrtc⟩ := alarmWakeup_eq lib now a rtc
    obtain ⟨ihfst, ihrtc⟩ := ih (alarmWakeup lib (lib.localtime now) a rtc).2.1
    unfold wakeAlarms
    refine ⟨?_, fun h => ?_⟩
    · dsimp only
      rw [hfst, ihfst, map_cons]
    · dsimp only
      rw [ihrtc fun b hb => h b (mem_cons_of_mem _ hb), hrtc (h a mem_cons_self)]

/-! ### The second loop of `alarm_update` -/

/-- The alarms that the second loop looks at. -/
def Candidate (current : Option ℕ) (a : Alarm) : Prop :=
  a.started = true ∧ current ≠ some a.addr

/-- How long it takes until the time of day of an alarm comes. -/
def wait (secNow : ℤ) (a : Alarm) : ℤ := ahead daySeconds secNow a.daysec

theorem wait_lt_wait_iff (hnow : 0 ≤ secNow ∧ secNow < daySeconds) {a b : Alarm}
    (ha : 0 ≤ a.daysec ∧ a.daysec < daySeconds) (hb : 0 ≤ b.daysec ∧ b.daysec < daySeconds) :
    wait secNow a < wait secNow b ↔
      (a.daysec < b.daysec ∧ secNow < a.daysec) ∨ (secNow < a.daysec ∧ b.daysec ≤ secNow) ∨
        (a.daysec < b.daysec ∧ b.daysec ≤ secNow) :=
  ahead_lt_ahead_iff hnow.1 hnow.2 ha.1 ha.2 hb.1 hb.2

/-- What the second loop has found among the alarms it has looked at. -/
structure Scanned (current : Option ℕ) (secNow : ℤ) (alarms : List Alarm) (scan : Scan) :
    Prop where
  next_none : scan.almNext = none → scan.secNext = daySeconds ∧
    ∀ b ∈ alarms, Candidate current b → b.daysec ≤ secNow
  next_some : ∀ x, scan.almNext = some x → x ∈ alarms ∧ Candidate current x ∧
    scan.secNext = x.daysec - secNow ∧ 0 < scan.secNext ∧
    ∀ b ∈ alarms, Candidate current b → secNow < b.daysec → scan.secNext ≤ b.daysec - secNow
  prev_none : scan.almPrev = none → scan.secPrev = 0 ∧
    ∀ b ∈ alarms, Candidate current b → secNow ≤ b.daysec
  prev_some : ∀ x, scan.almPrev = some x → x ∈ alarms ∧ Candidate current x ∧
    scan.secPrev = x.daysec - secNow ∧ scan.secPrev < 0 ∧
    ∀ b ∈ alarms, Candidate current b → scan.secPrev ≤ b.daysec - secNow

theorem forall_mem_append_singleton {P : Alarm → Prop} {a : Alarm}
    (h : ∀ b ∈ alarms, P b) (ha : P a) : ∀ b ∈ alarms ++ [a], P b := by
  intro b hb
  rcases mem_append.1 hb with hb | hb
  · exact h b hb
  · rw [mem_singleton.1 hb]
    exact ha

theorem Scanned.step {scan : Scan}
    (h : Scanned current secNow alarms scan) (hnow : 0 ≤ secNow) {a : Alarm}
    (ha : a.started = true → a.daysec < daySeconds) :
    Scanned current secNow (alarms ++ [a]) (scanAlarm current secNow scan a) := by
  have hmem : ∀ {x}, x ∈ alarms → x ∈ alarms ++ [a] := fun hx => mem_append_left _ hx
  have hlast : a ∈ alarms ++ [a] := mem_append_right _ mem_cons_self
  unfold scanAlarm
  by_cases hcand : a.started = true ∧ current ≠ some a.addr
  · have hlt := ha hcand.1
    rw [if_pos hcand]
    dsimp only
    change Scanned current secNow (alarms ++ [a])
      (if a.daysec - secNow > 0 then _ else if a.daysec - secNow < scan.secPrev then _ else _)
    by_cases hpos : a.daysec - secNow > 0
    · rw [if_pos hpos]
      have hprev_none : scan.almPrev = none → scan.secPrev = 0 ∧
          ∀ b ∈ alarms ++ [a], Candidate current b → secNow ≤ b.daysec := fun hn =>
        ⟨(h.prev_none hn).1, forall_mem_append_singleton (h.prev_none hn).2 fun _ => by omega⟩
      have hprev_some : ∀ x, scan.almPrev = some x → x ∈ alarms ++ [a] ∧ Candidate current x ∧
          scan.secPrev = x.daysec - secNow ∧ scan.secPrev < 0 ∧
          ∀ b ∈ alarms ++ [a], Candidate current b → scan.secPrev ≤ b.daysec - secNow := by
        intro x hx
        obtain ⟨hm, hc, hsec, hneg, hall⟩ := h.prev_some x hx
        exact ⟨hmem hm, hc, hsec, hneg, forall_mem_append_singleton hall fun _ => by omega⟩
      by_cases hbest : a.daysec - secNow < scan.secNext
      · rw [show alarmMkdaysec a.wktime = a.daysec from rfl, if_pos hbest]
        refine ⟨nofun, fun x hx => ?_, hprev_none, hprev_some⟩
        cases some.inj hx
        refine ⟨hlast, hcand, rfl, hpos, forall_mem_append_singleton (fun b hb hcb hlt' => ?_)
          fun _ _ => Int.le_refl _⟩
        cases hn : scan.almNext with
        | none => exact absurd ((h.next_none hn).2 b hb hcb) (by omega)
        | some y =>
          have hle := (h.next_some y hn).2.2.2.2 b hb hcb hlt'
          dsimp only
          omega
      · rw [show alarmMkdaysec a.wktime = a.daysec from rfl, if_neg hbest]
        refine ⟨fun hn => ?_, fun x hx => ?_, hprev_none, hprev_some⟩
        · have hday := (h.next_none hn).1
          omega
        · obtain ⟨hm, hc, hsec, hpos', hall⟩ := h.next_some x hx
          exact ⟨hmem hm, hc, hsec, hpos', forall_mem_append_singleton hall fun _ _ => by omega⟩
    · rw [if_neg hpos]
      have hnext_none : scan.almNext = none → scan.secNext = daySeconds ∧
          ∀ b ∈ alarms ++ [a], Candidate current b → b.daysec ≤ secNow := fun hn =>
        ⟨(h.next_none hn).1, forall_mem_append_singleton (h.next_none hn).2 fun _ => by omega⟩
      have hnext_some : ∀ x, scan.almNext = some x → x ∈ alarms ++ [a] ∧ Candidate current x ∧
          scan.secNext = x.daysec - secNow ∧ 0 < scan.secNext ∧
          ∀ b ∈ alarms ++ [a], Candidate current b → secNow < b.daysec →
            scan.secNext ≤ b.daysec - secNow := by
        intro x hx
        obtain ⟨hm, hc, hsec, hpos', hall⟩ := h.next_some x hx
        exact ⟨hmem hm, hc, hsec, hpos', forall_mem_append_singleton hall fun _ _ => by omega⟩
      by_cases hbest : a.daysec - secNow < scan.secPrev
      · rw [if_pos hbest]
        have hneg : a.daysec - secNow < 0 := by
          cases hn : scan.almPrev with
          | none =>
            have hzero := (h.prev_none hn).1
            omega
          | some y =>
            have hneg := (h.prev_some y hn).2.2.2.1
            omega
        refine ⟨hnext_none, hnext_some, nofun, fun x hx => ?_⟩
        cases some.inj hx
        refine ⟨hlast, hcand, rfl, hneg, forall_mem_append_singleton (fun b hb hcb => ?_)
          fun _ => Int.le_refl _⟩
        change a.daysec - secNow ≤ b.daysec - secNow
        cases hn : scan.almPrev with
        | none =>
          have hge := (h.prev_none hn).2 b hb hcb
          omega
        | some y =>
          have hle := (h.prev_some y hn).2.2.2.2 b hb hcb
          omega
      · rw [if_neg hbest]
        refine ⟨hnext_none, hnext_some, fun hn => ?_, fun x hx => ?_⟩
        · obtain ⟨hzero, hall⟩ := h.prev_none hn
          exact ⟨hzero, forall_mem_append_singleton hall fun _ => by omega⟩
        · obtain ⟨hm, hc, hsec, hneg, hall⟩ := h.prev_some x hx
          exact ⟨hmem hm, hc, hsec, hneg, forall_mem_append_singleton hall fun _ => by omega⟩
  · rw [if_neg hcand]
    have hno : ∀ {P : Prop}, Candidate current a → P := fun hc => absurd hc hcand
    refine ⟨fun hn => ?_, fun x hx => ?_, fun hn => ?_, fun x hx => ?_⟩
    · exact ⟨(h.next_none hn).1, forall_mem_append_singleton (h.next_none hn).2 hno⟩
    · obtain ⟨hm, hc, hsec, hpos, hall⟩ := h.next_some x hx
      exact ⟨hmem hm, hc, hsec, hpos, forall_mem_append_singleton hall hno⟩
    · exact ⟨(h.prev_none hn).1, forall_mem_append_singleton (h.prev_none hn).2 hno⟩
    · obtain ⟨hm, hc, hsec, hneg, hall⟩ := h.prev_some x hx
      exact ⟨hmem hm, hc, hsec, hneg, forall_mem_append_singleton hall hno⟩

theorem Scanned.foldl (hnow : 0 ≤ secNow) {alarms : List Alarm}
    (hrange : ∀ a ∈ alarms, a.started = true → a.daysec < daySeconds) {seen : List Alarm}
    {scan : Scan} (h : Scanned current secNow seen scan) :
    Scanned current secNow (seen ++ alarms) (alarms.foldl (scanAlarm current secNow) scan) := by
  induction alarms generalizing seen scan with
  | nil => simpa using h
  | cons a alarms ih =>
    have hstep := h.step hnow (hrange a mem_cons_self)
    have hrest := ih (fun b hb => hrange b (mem_cons_of_mem _ hb)) hstep
    rwa [append_assoc, singleton_append] at hrest

theorem scanned (current : Option ℕ) {secNow : ℤ} (hnow : 0 ≤ secNow) {alarms : List Alarm}
    (hrange : ∀ a ∈ alarms, a.started = true → a.daysec < daySeconds) :
    Scanned current secNow alarms (scanAlarms current secNow alarms) := by
  have hinit : Scanned current secNow [] ⟨daySeconds, none, 0, none⟩ :=
    { next_none := fun _ => ⟨rfl, fun b hb => by cases hb⟩
      next_some := fun x hx => by cases hx
      prev_none := fun _ => ⟨rfl, fun b hb => by cases hb⟩
      prev_some := fun x hx => by cases hx }
  exact hinit.foldl hnow hrange

/-- The alarm that is found comes first of those that are not at this very second. -/
theorem Scanned.found_some {scan : Scan}
    (h : Scanned current secNow alarms scan) (hnow : 0 ≤ secNow ∧ secNow < daySeconds)
    (hrange : ∀ a ∈ alarms, a.started = true → 0 ≤ a.daysec ∧ a.daysec < daySeconds) {x : Alarm}
    (hx : scan.found = some x) :
    x ∈ alarms ∧ Candidate current x ∧ x.daysec ≠ secNow ∧
      ∀ b ∈ alarms, Candidate current b → b.daysec ≠ secNow → wait secNow x ≤ wait secNow b := by
  unfold Scan.found at hx
  split at hx
  case isTrue =>
    obtain ⟨hm, hc, hsec, hpos, hall⟩ := h.next_some x hx
    refine ⟨hm, hc, by omega, fun b hb hcb _ => Int.not_lt.1 fun hbx => ?_⟩
    have hcases := (wait_lt_wait_iff hnow (hrange b hb hcb.1) (hrange x hm hc.1)).1 hbx
    have hle := hall b hb hcb
    omega
  case isFalse hday =>
    have hnone : scan.almNext = none := by
      cases hn : scan.almNext with
      | none => rfl
      | some y =>
        obtain ⟨hm, hc, hsec, -⟩ := h.next_some y hn
        have hr := hrange y hm hc.1
        omega
    split at hx
    case isTrue =>
      obtain ⟨hm, hc, hsec, hneg, hall⟩ := h.prev_some x hx
      refine ⟨hm, hc, by omega, fun b hb hcb _ => Int.not_lt.1 fun hbx => ?_⟩
      have hcases := (wait_lt_wait_iff hnow (hrange b hb hcb.1) (hrange x hm hc.1)).1 hbx
      have hle := hall b hb hcb
      have hpast := (h.next_none hnone).2 b hb hcb
      omega
    case isFalse => cases hx

theorem Scanned.found_none {scan : Scan}
    (h : Scanned current secNow alarms scan) (hnow : 0 ≤ secNow)
    (hrange : ∀ a ∈ alarms, a.started = true → a.daysec < daySeconds)
    (hx : scan.found = none) : ∀ b ∈ alarms, Candidate current b → b.daysec = secNow := by
  intro b hb hcb
  unfold Scan.found at hx
  have hnext : scan.almNext = none := by
    cases hn : scan.almNext with
    | none => rfl
    | some y =>
      obtain ⟨hm, hc, hsec, -⟩ := h.next_some y hn
      have hr := hrange y hm hc.1
      rw [if_pos (by omega), hn] at hx
      cases hx
  have hprev : scan.almPrev = none := by
    cases hn : scan.almPrev with
    | none => rfl
    | some y =>
      obtain ⟨hm, hc, hsec, hneg, -⟩ := h.prev_some y hn
      rw [if_neg (by rw [(h.next_none hnext).1]; omega), if_pos hneg, hn] at hx
      cases hx
  have hle := (h.next_none hnext).2 b hb hcb
  have hge := (h.prev_none hprev).2 b hb hcb
  omega

/-! ### The invariant -/

/-- Alarms have different addresses, those that are started have been set up, and so has `current`,
which is one of them. -/
structure Inv (s : AlarmSys) : Prop where
  nodup : (s.head.map Alarm.addr).Nodup
  inited : ∀ a ∈ s.head, a.started = true → a.inited = true
  range : ∀ a ∈ s.head, a.inited = true → 0 ≤ a.daysec ∧ a.daysec < daySeconds
  listed : ∀ p, s.current = some p → ∃ a ∈ s.head, a.addr = p ∧ a.inited = true

/-- The RTC is set for the current alarm, which is `c` and started. -/
structure IsSet (s : AlarmSys) (c : Alarm) : Prop where
  mem : c ∈ s.head
  current : s.current = some c.addr
  started : c.started = true
  rtc : s.rtc = (alarmSet c).2

/-- When some alarm is started, the RTC is set for the current one. -/
def Armed (s : AlarmSys) : Prop := (∃ a ∈ s.head, a.started = true) → ∃ c, s.IsSet c

/-- When some alarm is started, the RTC is set for the current one, and none comes before it. -/
def Settled (lib : TimeLib) (s : AlarmSys) : Prop :=
  (∃ a ∈ s.head, a.started = true) →
    ∃ c, s.IsSet c ∧ ∀ b ∈ s.head, b.started = true → wait (s.secNow lib) c ≤ wait (s.secNow lib) b

theorem Settled.armed {s : AlarmSys} (h : Settled lib s) : Armed s := by
  intro hstarted
  obtain ⟨c, hc, -⟩ := h hstarted
  exact ⟨c, hc⟩

theorem Settled.nextSet {s : AlarmSys} (h : Settled lib s) : s.NextSet lib := by
  intro hstarted
  obtain ⟨c, hc, hfirst⟩ := h hstarted
  refine ⟨c, hc.mem, hc.started, ?_, fun b hb hbs => Int.not_lt.2 (hfirst b hb hbs)⟩
  rw [hc.rtc]
  unfold alarmSet
  dsimp only
  rw [if_pos hc.started, hc.started]

namespace Inv

variable {s : AlarmSys} {lib : TimeLib}

section

variable (hs : Inv s)
include hs

theorem eq_of_addr {a b : Alarm} (ha : a ∈ s.head) (hb : b ∈ s.head)
    (h : a.addr = b.addr) : a = b := inj_on_of_nodup_map hs.nodup ha hb h

theorem started_range {a : Alarm} (ha : a ∈ s.head) (h : a.started = true) :
    0 ≤ a.daysec ∧ a.daysec < daySeconds := hs.range a ha (hs.inited a ha h)

theorem congr {s' : AlarmSys} (hhead : s'.head = s.head)
    (hcurrent : s'.current = s.current) : Inv s' := by
  refine ⟨?_, ?_, ?_, ?_⟩
  · rw [hhead]
    exact hs.nodup
  · rw [hhead]
    exact hs.inited
  · rw [hhead]
    exact hs.range
  · rw [hhead, hcurrent]
    exact hs.listed

theorem put_self {a : Alarm} (ha : a ∈ s.head) : s.put a = s := by
  have hhead : (s.head.map fun b => if b.addr = a.addr then a else b) = s.head := by
    refine (map_congr_left fun b hb => ?_).trans (List.map_id s.head)
    by_cases hb' : b.addr = a.addr
    · rw [if_pos hb']
      exact hs.eq_of_addr ha hb hb'.symm
    · rw [if_neg hb']
      rfl
  unfold put
  rw [hhead]

theorem set_eq {a : Alarm} (ha : a ∈ s.head) : s.set a = { s with rtc := (alarmSet a).2 } := by
  unfold set
  rw [alarmSet_fst, hs.put_self ha]

theorem setCurrent_eq {a : Alarm} (ha : a ∈ s.head) :
    s.setCurrent a = { s with rtc := (alarmSet a).2, current := some a.addr } := by
  unfold setCurrent
  rw [hs.set_eq ha]

theorem setCurrent {a : Alarm} (ha : a ∈ s.head) (hstarted : a.started = true)
    (hfirst : ∀ b ∈ s.head, b.started = true → wait (s.secNow lib) a ≤ wait (s.secNow lib) b) :
    Inv (s.setCurrent a) ∧ Settled lib (s.setCurrent a) := by
  rw [hs.setCurrent_eq ha]
  refine ⟨⟨hs.nodup, hs.inited, hs.range, fun p hp => ?_⟩, fun _ => ?_⟩
  · exact ⟨a, ha, some.inj hp, hs.inited a ha hstarted⟩
  · exact ⟨a, ⟨ha, rfl, hstarted, rfl⟩, hfirst⟩

theorem map_woken {s' : AlarmSys} (now : ℕ)
    (hhead : s'.head = s.head.map (woken lib now)) (hcurrent : s'.current = s.current) :
    Inv s' := by
  have hmem : ∀ {a}, a ∈ s'.head → ∃ b ∈ s.head, woken lib now b = a := by
    intro a ha
    rw [hhead] at ha
    exact List.mem_map.1 ha
  refine ⟨?_, ?_, ?_, ?_⟩
  · have haddr : (Alarm.addr ∘ woken lib now) = Alarm.addr :=
      funext fun a => woken_addr lib now a
    rw [hhead, List.map_map, haddr]
    exact hs.nodup
  · intro a ha hstarted
    obtain ⟨b, hb, rfl⟩ := hmem ha
    rw [woken_inited]
    exact hs.inited b hb (woken_started.1 hstarted).1
  · intro a ha hinited
    obtain ⟨b, hb, rfl⟩ := hmem ha
    rw [woken_daysec]
    exact hs.range b hb (by rwa [woken_inited] at hinited)
  · intro p hp
    rw [hcurrent] at hp
    obtain ⟨a, ha, hap, hai⟩ := hs.listed p hp
    refine ⟨AlarmSys.woken lib now a, ?_, by rw [woken_addr, hap], by rw [woken_inited, hai]⟩
    rw [hhead]
    exact List.mem_map_of_mem ha

end

end Inv

theorem mem_woken {lib : TimeLib} {now : ℕ} {alarms : List Alarm} {b : Alarm}
    (hb : b ∈ alarms.map (woken lib now)) (hstarted : b.started = true) :
    b ∈ alarms ∧ Stays lib now b := by
  obtain ⟨c, hc, rfl⟩ := List.mem_map.1 hb
  have hstays := woken_started.1 hstarted
  rw [woken_of_stays hstays]
  exact ⟨hc, hstays⟩

theorem woken_mem {lib : TimeLib} {now : ℕ} {alarms : List Alarm} {b : Alarm} (hb : b ∈ alarms)
    (h : Stays lib now b) : b ∈ alarms.map (woken lib now) := by
  have hmem := List.mem_map_of_mem (f := woken lib now) hb
  rwa [woken_of_stays h] at hmem

theorem wait_le (secNow : ℤ) (a : Alarm) : wait secNow a ≤ daySeconds := ahead_le (by decide)

theorem wait_now {secNow : ℤ} (hnow : 0 ≤ secNow ∧ secNow < daySeconds) {a : Alarm}
    (h : a.daysec = secNow) : wait secNow a = daySeconds := by
  unfold wait
  rw [h]
  exact ahead_self hnow.2 hnow.1

section

variable {lib : TimeLib} {now : ℕ} {alarms : List Alarm} {s : AlarmSys}

/-- The alarm that is found comes before all others, also before the current one. -/
theorem Inv.found_some (hs : Inv s) (hhead : s.head = alarms.map (woken lib now)) {late : ℕ}
    (hlate : s.now = now + late) (hfine : UpdateFine lib now late alarms s.current) {x : Alarm}
    (hx : (scanAlarms s.current (s.secNow lib) s.head).found = some x) :
    x ∈ s.head ∧ x.started = true ∧
      ∀ b ∈ s.head, b.started = true → wait (s.secNow lib) x ≤ wait (s.secNow lib) b := by
  have hnow : 0 ≤ s.secNow lib ∧ s.secNow lib < daySeconds := lib.daysec_range s.now
  obtain ⟨hxm, hxc, hxn, hxall⟩ :=
    (scanned s.current hnow.1 fun a ha has => (hs.started_range ha has).2).found_some hnow
      (fun a ha has => hs.started_range ha has) hx
  obtain ⟨hxmem, hxstays⟩ := mem_woken (hhead ▸ hxm) hxc.1
  refine ⟨hxm, hxc.1, fun b hb hbs => ?_⟩
  obtain ⟨hbmem, hbstays⟩ := mem_woken (hhead ▸ hb) hbs
  unfold UpdateFine at hfine
  rw [← hlate] at hfine
  by_cases hbc : s.current = some b.addr
  · rcases hfine with hnone | ⟨b₀, hb₀, hst₀, hcur₀, hne₀, hnot⟩ | ⟨c, hc, hcur, hcst, hall⟩
    · exact absurd hxstays (hnone x hxmem)
    · have hle := hxall b₀ (hhead ▸ woken_mem hb₀ hst₀) ⟨hst₀.1, hcur₀⟩ hne₀
      exact Int.le_trans hle (Int.not_lt.1 (hnot b hbmem hbc hbstays))
    · exact absurd ((hall x hxmem hxstays.1).2 hxc.2) hxn
  · by_cases hbn : b.daysec = s.secNow lib
    · rw [wait_now hnow hbn]
      exact wait_le _ x
    · exact hxall b hb ⟨hbs, hbc⟩ hbn

theorem Inv.found_none (hs : Inv s) (hhead : s.head = alarms.map (woken lib now)) {late : ℕ}
    (hlate : s.now = now + late) (hfine : UpdateFine lib now late alarms s.current)
    (hset : (∀ a ∈ alarms, a.started = true → Stays lib now a) → ∀ c ∈ alarms,
      s.current = some c.addr → c.started = true → s.rtc = (alarmSet c).2)
    (hx : (scanAlarms s.current (s.secNow lib) s.head).found = none) : Settled lib s := by
  have hnow : 0 ≤ s.secNow lib ∧ s.secNow lib < daySeconds := lib.daysec_range s.now
  have hat := (scanned s.current hnow.1 fun a ha has => (hs.started_range ha has).2).found_none
    hnow.1 (fun a ha has => (hs.started_range ha has).2) hx
  rintro ⟨a, ha, has⟩
  obtain ⟨hamem, hastays⟩ := mem_woken (hhead ▸ ha) has
  have hmem : ∀ {b}, b ∈ alarms → Stays lib now b → b ∈ s.head := by
    intro b hb hst
    rw [hhead]
    exact woken_mem hb hst
  unfold UpdateFine at hfine
  rw [← hlate] at hfine
  rcases hfine with hnone | ⟨b₀, hb₀, hst₀, hcur₀, hne₀, -⟩ | ⟨c, hc, hcur, hcst, hall⟩
  · exact absurd hastays (hnone a hamem)
  · exact absurd (hat b₀ (hmem hb₀ hst₀) ⟨hst₀.1, hcur₀⟩) hne₀
  · have hrtc := hset (fun b hb hbs => (hall b hb hbs).1) c hc hcur hcst.1
    refine ⟨c, ⟨hmem hc hcst, hcur, hcst.1, hrtc⟩, fun b hb hbs => ?_⟩
    by_cases hbc : s.current = some b.addr
    · have hbc' := hs.eq_of_addr (hmem hc hcst) hb (some.inj (hcur.symm.trans hbc))
      exact Int.le_of_eq (congrArg (wait (s.secNow lib)) hbc')
    · rw [wait_now hnow (hat b hb ⟨hbs, hbc⟩)]
      exact wait_le _ c

/-- **`alarm_update` sets the RTC for the next alarm**, if it is fine to. -/
theorem Inv.alarmUpdate (hs : Inv s)
    (hset : ∀ c ∈ s.head, s.current = some c.addr → c.started = true → s.rtc = (alarmSet c).2)
    {late : ℕ} (hfine : UpdateFine lib s.now late s.head s.current) {s' : AlarmSys}
    (h : s.alarmUpdate lib late = s') :
    Inv s' ∧ Settled lib s' ∧ s'.head = s.head.map (woken lib s.now) ∧
      (s'.current = s.current ∨ ∃ c, s'.IsSet c) := by
  unfold AlarmSys.alarmUpdate at h
  by_cases hempty : s.head = []
  · rw [if_pos hempty] at h
    subst h
    refine ⟨hs, fun ⟨a, ha, _⟩ => ?_, by rw [hempty]; rfl, .inl rfl⟩
    rw [hempty] at ha
    cases ha
  · obtain ⟨hfst, hrtc⟩ := wakeAlarms_eq lib s.now s.head s.rtc
    rw [if_neg hempty] at h
    dsimp only at h
    rw [hfst] at h
    generalize hs₁ : ({ s with
      head := s.head.map (woken lib s.now)
      rtc := (wakeAlarms lib (lib.localtime s.now) s.head s.rtc).2.1
      called := s.called ++ (wakeAlarms lib (lib.localtime s.now) s.head s.rtc).2.2
      now := s.now + late } : AlarmSys) = s₁ at h
    have hhead : s₁.head = s.head.map (woken lib s.now) := by rw [← hs₁]
    have hcurrent : s₁.current = s.current := by rw [← hs₁]
    have hlate : s₁.now = s.now + late := by rw [← hs₁]
    have hinv : Inv s₁ := hs.map_woken s.now hhead hcurrent
    rw [← hhead, ← hcurrent] at h
    cases hfound : (scanAlarms s₁.current (s₁.secNow lib) s₁.head).found with
    | some x =>
      rw [hfound] at h
      obtain ⟨hx, hxs, hfirst⟩ := hinv.found_some hhead hlate (hcurrent ▸ hfine) hfound
      have hdone := hinv.setCurrent hx hxs hfirst
      have heq := hinv.setCurrent_eq hx
      change s₁.setCurrent x = s' at h
      rw [h] at hdone heq
      refine ⟨hdone.1, hdone.2, by rw [heq, hhead], .inr ⟨x, ?_⟩⟩
      rw [heq]
      exact ⟨hx, rfl, hxs, rfl⟩
    | none =>
      rw [hfound] at h
      change s₁ = s' at h
      subst h
      refine ⟨hinv, hinv.found_none hhead hlate (hcurrent ▸ hfine) (fun hall c hc hcur hcs => ?_)
        hfound, hhead, .inl hcurrent⟩
      rw [← hs₁]
      exact (hrtc hall).trans (hset c hc (hcurrent ▸ hcur) hcs)

end

/-! ### The operations -/

variable {lib : TimeLib} {s : AlarmSys}

theorem mem_put {a a' b : Alarm} (ha : a ∈ s.head) (haddr : a'.addr = a.addr) :
    b ∈ (s.put a').head ↔ b = a' ∨ (b ∈ s.head ∧ b.addr ≠ a.addr) := by
  unfold put
  constructor
  · intro hb
    obtain ⟨c, hc, rfl⟩ := List.mem_map.1 hb
    by_cases hca : c.addr = a'.addr
    · exact .inl (if_pos hca)
    · rw [if_neg hca]
      exact .inr ⟨hc, haddr ▸ hca⟩
  · rintro (rfl | ⟨hb, hne⟩)
    · exact List.mem_map.2 ⟨a, ha, if_pos haddr.symm⟩
    · exact List.mem_map.2 ⟨b, hb, if_neg (haddr ▸ hne)⟩

theorem Inv.put (hs : Inv s) {a a' : Alarm} (ha : a ∈ s.head) (haddr : a'.addr = a.addr)
    (hinited : a'.started = true → a'.inited = true) (hkeep : a.inited = true → a'.inited = true)
    (hrange : a'.inited = true → 0 ≤ a'.daysec ∧ a'.daysec < daySeconds) : Inv (s.put a') := by
  refine ⟨?_, fun b hb hbs => ?_, fun b hb hbi => ?_, fun p hp => ?_⟩
  · have hmap : (s.put a').head.map Alarm.addr = s.head.map Alarm.addr := by
      unfold AlarmSys.put
      rw [List.map_map]
      refine map_congr_left fun b _ => ?_
      by_cases hb : b.addr = a'.addr
      · rw [comp_apply, if_pos hb, hb]
      · rw [comp_apply, if_neg hb]
    rw [hmap]
    exact hs.nodup
  · rcases (mem_put ha haddr).1 hb with rfl | ⟨hb, -⟩
    · exact hinited hbs
    · exact hs.inited b hb hbs
  · rcases (mem_put ha haddr).1 hb with rfl | ⟨hb, -⟩
    · exact hrange hbi
    · exact hs.range b hb hbi
  · obtain ⟨b, hb, hbp, hbi⟩ := hs.listed p hp
    by_cases hba : b.addr = a.addr
    · rw [hs.eq_of_addr hb ha hba] at hbi
      exact ⟨a', (mem_put ha haddr).2 (.inl rfl), by rw [haddr, ← hba, hbp], hkeep hbi⟩
    · exact ⟨b, (mem_put ha haddr).2 (.inr ⟨hb, hba⟩), hbp, hbi⟩

/-- An alarm that is not started, and not current unless none is, does not matter. -/
theorem Armed.put (h : Armed s) {a a' : Alarm} (ha : a ∈ s.head) (haddr : a'.addr = a.addr)
    (hstarted : a'.started = false) (hother : s.current = some a.addr → a.started = false)
    (hs : Inv s) : Armed (s.put a') := by
  rintro ⟨b, hb, hbs⟩
  rcases (mem_put ha haddr).1 hb with rfl | ⟨hb, -⟩
  · rw [hstarted] at hbs
    cases hbs
  · obtain ⟨c, hc⟩ := h ⟨b, hb, hbs⟩
    have hne : c.addr ≠ a.addr := by
      intro hca
      have hstop := hother (hca ▸ hc.current)
      rw [← hs.eq_of_addr hc.mem ha hca, hc.started] at hstop
      cases hstop
    exact ⟨c, (mem_put ha haddr).2 (.inr ⟨hc.mem, hne⟩), hc.current, hc.started, hc.rtc⟩

/-- What an operation keeps, and what it achieves. -/
def After (lib : TimeLib) (r : AlarmSys × Bool) : Prop :=
  Inv r.1 ∧ Armed r.1 ∧ (r.2 = true → Settled lib r.1)

theorem After.failed (hs : Inv s) (h : Armed s) : After lib (s, false) :=
  ⟨hs, h, fun hf => by cases hf⟩

theorem After.settled (hs : Inv s) (h : Settled lib s) : After lib (s, true) :=
  ⟨hs, h.armed, fun _ => h⟩

theorem find_some {p : ℕ} {a : Alarm} (h : s.find p = some a) : a ∈ s.head ∧ a.addr = p := by
  unfold find at h
  have haddr := find?_some h
  exact ⟨mem_of_find?_eq_some h, of_decide_eq_true haddr⟩

theorem Armed.rtc (h : Armed s) (hs : Inv s) {c : Alarm} (hc : c ∈ s.head)
    (hcur : s.current = some c.addr) (hstarted : c.started = true) : s.rtc = (alarmSet c).2 := by
  obtain ⟨d, hd⟩ := h ⟨c, hc, hstarted⟩
  rw [hs.eq_of_addr hc hd.mem (some.inj (hcur.symm.trans hd.current))]
  exact hd.rtc

theorem After.alarmUpdate (hs : Inv s) (h : Armed s) {late : ℕ}
    (hfine : s.Fine lib (.update late)) :
    After lib (s.alarmUpdate lib late, true) := by
  obtain ⟨hinv, hset, -⟩ := hs.alarmUpdate (fun c hc hcur hcs => h.rtc hs hc hcur hcs) hfine rfl
  exact .settled hinv hset

theorem After.rtAlarmCreate (hs : Inv s) (h : Armed s) {p : Option ℕ}
    {setup : Option (AlarmKind × Tm)} {callback : Bool}
    (hfine : s.Fine lib (.create p setup callback))
    (hfresh : p.all (fun addr => s.find addr = none) = true) :
    After lib (s.rtAlarmCreate p setup callback) := by
  cases setup with
  | none => exact .failed hs h
  | some setup =>
    cases p with
    | none => exact .failed hs h
    | some addr =>
      have hnew : ∀ a ∈ s.head, a.addr ≠ addr := by
        intro a ha
        have hnone : s.find addr = none := by simpa using hfresh
        unfold find at hnone
        simpa using find?_eq_none.1 hnone a ha
      refine .settled ⟨?_, ?_, ?_, ?_⟩ ?_
      · refine nodup_cons.2 ⟨fun hmem => ?_, hs.nodup⟩
        obtain ⟨a, ha, haddr⟩ := List.mem_map.1 hmem
        exact hnew a ha haddr
      · intro a ha hstarted
        rcases mem_cons.1 ha with rfl | ha
        · cases hstarted
        · exact hs.inited a ha hstarted
      · intro a ha hinited
        rcases mem_cons.1 ha with rfl | ha
        · cases hinited
        · exact hs.range a ha hinited
      · intro q hq
        obtain ⟨a, ha, haq, hai⟩ := hs.listed q hq
        exact ⟨a, mem_cons_of_mem _ ha, haq, hai⟩
      · rintro ⟨a, ha, hstarted⟩
        rcases mem_cons.1 ha with rfl | ha
        · cases hstarted
        · obtain ⟨c, hc⟩ := h ⟨a, ha, hstarted⟩
          refine ⟨c, ⟨mem_cons_of_mem _ hc.mem, hc.current, hc.started, hc.rtc⟩, ?_⟩
          intro b hb hbs
          rcases mem_cons.1 hb with rfl | hb
          · cases hbs
          · exact Int.not_lt.1 (hfine c hc.mem hc.current hc.started b hb hbs)

/-! ### Starting an alarm -/

theorem setUp_addr (a : Alarm) : (s.setUp lib a).1.addr = a.addr := by
  unfold setUp
  split
  · rfl
  · exact alarmSetup_addr _ _ _

theorem setUp_started (a : Alarm) : (s.setUp lib a).1.started = a.started := by
  unfold setUp
  split
  · rfl
  · exact alarmSetup_started _ _ _

theorem setUp_of_inited {a : Alarm} (h : a.inited = true) : s.setUp lib a = (a, true) := if_pos h

theorem setUp_failed {a : Alarm} (h : (s.setUp lib a).2 = false) :
    a.inited = false ∧ (s.setUp lib a).1.inited = false := by
  unfold setUp at h ⊢
  split at h
  case isTrue => cases h
  case isFalse hno =>
    rw [if_neg hno, alarmSetup_failed _ _ _ h]
    exact ⟨by simpa using hno, by simpa using hno⟩

theorem Inv.setUp (hs : Inv s) {a : Alarm} (ha : a ∈ s.head) (h : (s.setUp lib a).2 = true) :
    (s.setUp lib a).1.inited = true ∧
      0 ≤ (s.setUp lib a).1.daysec ∧ (s.setUp lib a).1.daysec < daySeconds := by
  unfold AlarmSys.setUp at h ⊢
  split at h
  case isTrue hi =>
    rw [if_pos hi]
    exact ⟨hi, hs.range a ha hi⟩
  case isFalse hno =>
    rw [if_neg hno]
    exact ⟨alarmSetup_inited _ _ _ h, alarmSetup_range lib a _ _ h⟩

/-- The comparisons tell which alarm comes first, but when the old one is at this very second. -/
theorem startsFirst_iff {secNow : ℤ} (hnow : 0 ≤ secNow ∧ secNow < daySeconds) {a c : Alarm}
    (ha : 0 ≤ a.daysec ∧ a.daysec < daySeconds) (hc : 0 ≤ c.daysec ∧ c.daysec < daySeconds)
    (h : c.daysec = secNow → a.daysec = secNow) :
    startsFirst secNow c.daysec a.daysec ↔ wait secNow a < wait secNow c := by
  rw [wait_lt_wait_iff hnow ha hc]
  unfold startsFirst
  constructor
  · omega
  · omega

theorem After.start (hs : Inv s) (h : Armed s) {a a' : Alarm} (ha : a ∈ s.head) (late : ℕ)
    (haddr : a'.addr = a.addr) (hold : a.started = false) (hstarted : a'.started = true)
    (hinited : a'.inited = true) (hsame : a.inited = true → a'.daysec = a.daysec)
    (hrange : 0 ≤ a'.daysec ∧ a'.daysec < daySeconds) {s₁ : AlarmSys}
    (hs₁ : s₁ = { s.put a' with now := s.now + late })
    (hfine : ∀ c ∈ s.head, s.current = some c.addr →
      if c.started = true then
        (c.daysec = s₁.secNow lib → a'.daysec = s₁.secNow lib) ∧
          ∀ b ∈ s.head, b.started = true →
            ¬ (wait (s₁.secNow lib) b < wait (s₁.secNow lib) a' ∧
              wait (s₁.secNow lib) b < wait (s₁.secNow lib) c)
      else startsFirst (s₁.secNow lib) c.daysec a'.daysec) {r : AlarmSys × Bool}
    (hr : (match s₁.current with
      | none => some (s₁.setCurrent a', true)
      | some p => (s₁.find p).map fun current =>
        if startsFirst (s₁.secNow lib) (alarmMkdaysec current.wktime) (alarmMkdaysec a'.wktime)
        then (s₁.setCurrent a', true)
        else (s₁, true)) = some r) : After lib r := by
  have hinv : Inv s₁ := by
    have hput := hs.put ha haddr (fun _ => hinited) (fun _ => hinited) (fun _ => hrange)
    rw [hs₁]
    exact hput.congr rfl rfl
  have hmem : ∀ {b}, b ∈ s₁.head ↔ b = a' ∨ (b ∈ s.head ∧ b.addr ≠ a.addr) := by
    intro b
    rw [hs₁]
    exact mem_put ha haddr
  have hnow : 0 ≤ s₁.secNow lib ∧ s₁.secNow lib < daySeconds := lib.daysec_range s₁.now
  have hcurrent : s₁.current = s.current := by rw [hs₁]; rfl
  -- the RTC is set for the new alarm, which comes before those that were started
  have hnew : (∀ b ∈ s.head, b.started = true →
      wait (s₁.secNow lib) a' ≤ wait (s₁.secNow lib) b) → After lib (s₁.setCurrent a', true) := by
    intro hfirst
    have hfirst' : ∀ b ∈ s₁.head, b.started = true →
        wait (s₁.secNow lib) a' ≤ wait (s₁.secNow lib) b := by
      intro b hb hbs
      rcases hmem.1 hb with rfl | ⟨hb, -⟩
      · exact Int.le_refl _
      · exact hfirst b hb hbs
    obtain ⟨hinv', hset⟩ := hinv.setCurrent (hmem.2 (.inl rfl)) hstarted hfirst'
    exact .settled hinv' hset
  cases hc : s.current with
  | none =>
    rw [hcurrent, hc] at hr
    rw [← some.inj hr]
    refine hnew fun b hb hbs => ?_
    obtain ⟨c, hset⟩ := h ⟨b, hb, hbs⟩
    rw [hset.current] at hc
    cases hc
  | some p =>
    rw [hcurrent, hc] at hr
    obtain ⟨cur, hcur, rfl⟩ := map_eq_some_iff.1 hr
    obtain ⟨hcurmem, hcuraddr⟩ := find_some hcur
    obtain ⟨c, hcmem, hcp, hci⟩ := hs.listed p hc
    have hfine := hfine c hcmem (by rw [hc, hcp])
    by_cases hca : c.addr = a.addr
    · -- the alarm is current itself, and has been stopped
      rw [hs.eq_of_addr hcmem ha hca] at hfine hci
      rw [if_neg (by rw [hold]; exact Bool.noConfusion), hsame hci] at hfine
      unfold startsFirst at hfine
      omega
    · have hcur' : cur = c := by
        rcases hmem.1 hcurmem with rfl | ⟨hb, -⟩
        · exact absurd (hcp.trans (hcuraddr.symm.trans haddr)) hca
        · exact hs.eq_of_addr hb hcmem (hcuraddr.trans hcp.symm)
      rw [hcur']
      change After lib (if startsFirst (s₁.secNow lib) c.daysec a'.daysec then _ else _)
      by_cases hcs : c.started = true
      · rw [if_pos hcs] at hfine
        have hiff := startsFirst_iff hnow hrange (hs.started_range hcmem hcs) hfine.1
        by_cases hsf : startsFirst (s₁.secNow lib) c.daysec a'.daysec
        · rw [if_pos hsf]
          refine hnew fun b hb hbs => Int.not_lt.1 fun hlt => ?_
          exact hfine.2 b hb hbs ⟨hlt, Int.lt_trans hlt (hiff.1 hsf)⟩
        · rw [if_neg hsf]
          have hle : wait (s₁.secNow lib) c ≤ wait (s₁.secNow lib) a' :=
            Int.not_lt.1 fun hlt => hsf (hiff.2 hlt)
          have hcmem' : c ∈ s₁.head := hmem.2 (.inr ⟨hcmem, hca⟩)
          have hrtc : s₁.rtc = (alarmSet c).2 := by
            rw [hs₁]
            exact h.rtc hs hcmem (by rw [hc, hcp]) hcs
          refine .settled hinv fun _ => ⟨c, ⟨hcmem', by rw [hcurrent, hc, hcp], hcs, hrtc⟩, ?_⟩
          intro b hb hbs
          rcases hmem.1 hb with rfl | ⟨hb, -⟩
          · exact hle
          · refine Int.not_lt.1 fun hlt => hfine.2 b hb hbs ⟨?_, hlt⟩
            exact Int.lt_of_lt_of_le hlt hle
      · rw [if_neg hcs] at hfine
        rw [if_pos hfine]
        refine hnew fun b hb hbs => ?_
        obtain ⟨d, hd⟩ := h ⟨b, hb, hbs⟩
        have hdc : d = c := by
          refine hs.eq_of_addr hd.mem hcmem (some.inj ?_)
          rw [← hd.current, hc, hcp]
        exact absurd (hdc ▸ hd.started) hcs

/-- **`rt_alarm_start` sets the RTC for the next alarm**, if it is fine to. -/
theorem After.rtAlarmStart (hs : Inv s) (h : Armed s) {a : Alarm} (ha : a ∈ s.head) {late : ℕ}
    (hfine : s.StartFine lib late a) {r : AlarmSys × Bool}
    (hr : s.rtAlarmStart lib a late = some r) : After lib r := by
  have hunstarted : a.inited = false → a.started = false := by
    intro hi
    cases hst : a.started with
    | false => rfl
    | true => rw [hs.inited a ha hst] at hi; cases hi
  unfold AlarmSys.rtAlarmStart at hr
  dsimp only at hr
  split at hr
  case isTrue hfail =>
    obtain ⟨hi, hi'⟩ := setUp_failed hfail
    have hst : (s.setUp lib a).1.started = false := by rw [setUp_started, hunstarted hi]
    rw [← some.inj hr]
    refine .failed ?_ (h.put ha (setUp_addr a) hst (fun _ => hunstarted hi) hs)
    refine hs.put ha (setUp_addr a) (fun hs' => ?_) (fun hi'' => ?_) (fun hi'' => ?_)
    · rw [hst] at hs'
      cases hs'
    · rw [hi] at hi''
      cases hi''
    · rw [hi'] at hi''
      cases hi''
  case isFalse hok =>
    have hok : (s.setUp lib a).2 = true := by simpa using hok
    split at hr
    case isTrue hst =>
      rw [setUp_started] at hst
      rw [setUp_of_inited (hs.inited a ha hst), hs.put_self ha] at hr
      rw [← some.inj hr]
      exact .failed hs h
    case isFalse hst =>
      obtain ⟨hinited, hrange⟩ := hs.setUp ha hok
      have hst : (s.setUp lib a).1.started = false := by simpa using hst
      have haddr : ({ (s.setUp lib a).1 with started := true } : Alarm).addr = a.addr :=
        setUp_addr a
      refine After.start hs h ha late haddr (by rw [← hst, setUp_started]) rfl hinited
        (fun hi => ?_) hrange rfl (hfine hok hst) hr
      rw [setUp_of_inited hi]
      rfl

/-! ### Stopping and deleting an alarm -/

theorem Inv.stopped (hs : Inv s) {a : Alarm} (ha : a ∈ s.head) :
    Inv (s.put { a with started := false }) :=
  hs.put ha rfl (fun h => by cases h) (fun h => h) (hs.range a ha)

theorem Inv.remove (hs : Inv s) {p : ℕ} (hp : s.current ≠ some p) : Inv (s.remove p) := by
  have hmem : ∀ {a}, a ∈ (s.remove p).head → a ∈ s.head := fun ha => (mem_filter.1 ha).1
  refine ⟨?_, fun a ha => hs.inited a (hmem ha), fun a ha => hs.range a (hmem ha), fun q hq => ?_⟩
  · exact hs.nodup.sublist (List.Sublist.map _ filter_sublist)
  · obtain ⟨a, ha, haq, hi⟩ := hs.listed q hq
    refine ⟨a, mem_filter.2 ⟨ha, decide_eq_true fun hap => hp ?_⟩, haq, hi⟩
    rw [← hap, haq]
    exact hq

theorem IsSet.remove {c : Alarm} (h : s.IsSet c) {p : ℕ} (hp : s.current ≠ some p) :
    (s.remove p).IsSet c :=
  ⟨mem_filter.2 ⟨h.mem, decide_eq_true fun hc => hp (hc ▸ h.current)⟩, h.current, h.started, h.rtc⟩

theorem Armed.remove (h : Armed s) {p : ℕ} (hp : s.current ≠ some p) : Armed (s.remove p) := by
  rintro ⟨a, ha, hstarted⟩
  obtain ⟨c, hc⟩ := h ⟨a, (mem_filter.1 ha).1, hstarted⟩
  exact ⟨c, hc.remove hp⟩

theorem Settled.remove (h : Settled lib s) {p : ℕ} (hp : s.current ≠ some p) :
    Settled lib (s.remove p) := by
  rintro ⟨a, ha, hstarted⟩
  obtain ⟨c, hc, hfirst⟩ := h ⟨a, (mem_filter.1 ha).1, hstarted⟩
  exact ⟨c, hc.remove hp, fun b hb => hfirst b (mem_filter.1 hb).1⟩

/-- The current alarm is stopped, and the RTC is set for the next of the others. -/
theorem Inv.stopCurrent (hs : Inv s) {a : Alarm} (ha : a ∈ s.head) {late : ℕ}
    (hfine : UpdateFine lib s.now late (s.head.filter (·.addr ≠ a.addr)) none) {s' : AlarmSys}
    (h : ({ (s.put { a with started := false }).set { a with started := false } with
      current := none } : AlarmSys).alarmUpdate lib late = s') :
    Inv s' ∧ Settled lib s' ∧ s'.current ≠ some a.addr := by
  have hs₁ := hs.stopped ha
  have hmem : ∀ {b}, b ∈ (s.put { a with started := false }).head ↔
      b = { a with started := false } ∨ (b ∈ s.head ∧ b.addr ≠ a.addr) := mem_put ha rfl
  rw [hs₁.set_eq (hmem.2 (.inl rfl))] at h
  generalize hs₂ : ({ s.put { a with started := false } with
    rtc := (alarmSet { a with started := false }).2, current := none } : AlarmSys) = s₂ at h
  have hhead : s₂.head = (s.put { a with started := false }).head := by rw [← hs₂]
  have hnow : s₂.now = s.now := by rw [← hs₂]; rfl
  have hcurrent : s₂.current = none := by rw [← hs₂]
  have hinv : Inv s₂ := by
    refine ⟨hhead ▸ hs₁.nodup, hhead ▸ hs₁.inited, hhead ▸ hs₁.range, fun p hp => ?_⟩
    rw [hcurrent] at hp
    cases hp
  -- the others are those that may stay started
  have hstays : ∀ {b}, b ∈ s₂.head → Stays lib s.now b → b ∈ s.head.filter (·.addr ≠ a.addr) := by
    intro b hb hst
    rcases hmem.1 (hhead ▸ hb) with rfl | ⟨hb, hne⟩
    · cases hst.1
    · exact mem_filter.2 ⟨hb, decide_eq_true hne⟩
  have hfine₂ : UpdateFine lib s₂.now late s₂.head s₂.current := by
    rw [hnow, hcurrent]
    rcases hfine with hnone | ⟨b, hb, hst, hcur, hne, -⟩ | ⟨c, -, hcur, -⟩
    · exact .inl fun b hb hst => hnone b (hstays hb hst) hst
    · obtain ⟨hb, hba⟩ := mem_filter.1 hb
      refine .inr (.inl ⟨b, ?_, hst, hcur, hne, fun c _ hc => by cases hc⟩)
      rw [hhead]
      exact hmem.2 (.inr ⟨hb, of_decide_eq_true hba⟩)
    · cases hcur
  obtain ⟨hinv', hset, hhead', hcur⟩ := hinv.alarmUpdate
    (fun c _ hc => by rw [hcurrent] at hc; cases hc) hfine₂ h
  refine ⟨hinv', hset, fun hp => ?_⟩
  rcases hcur with hcur | ⟨c, hc⟩
  · rw [hcur, hcurrent] at hp
    cases hp
  · obtain ⟨hcmem, hcst⟩ := mem_woken (hhead' ▸ hc.mem) hc.started
    rcases hmem.1 (hhead ▸ hcmem) with rfl | ⟨-, hne⟩
    · cases hcst.1
    · exact hne (some.inj (hc.current.symm.trans hp))

theorem After.rtAlarmStop (hs : Inv s) (h : Armed s) {a : Alarm} (ha : a ∈ s.head) {late : ℕ}
    (hfine : s.Fine lib (.stop (some a.addr) late)) : After lib (s.rtAlarmStop lib a late) := by
  unfold AlarmSys.rtAlarmStop
  split
  case isTrue => exact .failed hs h
  case isFalse hst =>
    have hst : a.started = true := by simpa using hst
    dsimp only
    split
    case isTrue hcur =>
      obtain ⟨hinv, hset, -⟩ := hs.stopCurrent ha (hfine a ha rfl hcur hst) rfl
      exact .settled hinv hset
    case isFalse hcur =>
      exact .failed (hs.stopped ha) (h.put ha rfl rfl (fun hc => absurd hc hcur) hs)

theorem After.rtAlarmDelete (hs : Inv s) (h : Armed s) {a : Alarm} (ha : a ∈ s.head) {late : ℕ}
    (hfine : s.Fine lib (.delete (some a.addr) late)) : After lib (s.rtAlarmDelete lib a late) := by
  unfold AlarmSys.rtAlarmDelete
  dsimp only
  split
  case isTrue hcur =>
    obtain ⟨hinv, hset, hne⟩ := hs.stopCurrent ha (hfine a ha rfl hcur) rfl
    exact .settled (hinv.remove hne) (hset.remove hne)
  case isFalse hcur =>
    refine .failed ((hs.stopped ha).remove hcur) (Armed.remove ?_ hcur)
    exact h.put ha rfl rfl (fun hc => absurd hc hcur) hs

/-! ### Runs -/

theorem After.run (hs : Inv s) (h : Armed s) {op : AlarmOp} (hfine : s.Fine lib op)
    {r : AlarmSys × Bool} (hr : s.run lib op = some r) : After lib r := by
  -- an operation on an alarm finds it
  have hon : ∀ {p : Option ℕ} {f : Alarm → Option (AlarmSys × Bool)}, s.onAlarm p f = some r →
      (∀ a ∈ s.head, p = some a.addr → f a = some r → After lib r) → After lib r := by
    intro p f hf hall
    cases p with
    | none =>
      rw [← some.inj hf]
      exact .failed hs h
    | some p =>
      obtain ⟨a, ha, hfa⟩ := bind_eq_some_iff.1 hf
      obtain ⟨hmem, haddr⟩ := find_some ha
      exact hall a hmem (by rw [haddr]) hfa
  cases op with
  | create p setup callback =>
    unfold AlarmSys.run at hr
    dsimp only at hr
    split at hr
    case isTrue hfresh =>
      rw [← some.inj hr]
      exact .rtAlarmCreate hs h hfine hfresh
    case isFalse => cases hr
  | start p late =>
    exact hon hr fun a ha hp hf => .rtAlarmStart hs h ha (hfine a ha hp) hf
  | stop p late =>
    refine hon hr fun a ha hp hf => ?_
    rw [← some.inj hf]
    exact .rtAlarmStop hs h ha (hp ▸ hfine)
  | delete p late =>
    refine hon hr fun a ha hp hf => ?_
    rw [← some.inj hf]
    exact .rtAlarmDelete hs h ha (hp ▸ hfine)
  | update late =>
    rw [← some.inj hr]
    exact .alarmUpdate hs h hfine
  | pass ticks => cases hr

theorem step_cases {op : AlarmOp} {s' : AlarmSys} {out : List AlarmEvent}
    (h : s.step lib op = some (s', out)) :
    (∃ ticks, s' = { s with now := s.now + ticks } ∧ out = [.passed]) ∨
      ∃ r, s.run lib op = some r ∧ s' = r.1 ∧ out = [.returned r.2] := by
  have hreturn : (s.run lib op).map (fun r => (r.1, [AlarmEvent.returned r.2])) = some (s', out) →
      ∃ r, s.run lib op = some r ∧ s' = r.1 ∧ out = [.returned r.2] := by
    intro h
    obtain ⟨r, hr, heq⟩ := map_eq_some_iff.1 h
    cases heq
    exact ⟨r, hr, rfl, rfl⟩
  cases op with
  | pass ticks =>
    cases h
    exact .inl ⟨ticks, rfl, rfl⟩
  | create p setup callback => exact .inr (hreturn h)
  | start p late => exact .inr (hreturn h)
  | stop p late => exact .inr (hreturn h)
  | delete p late => exact .inr (hreturn h)
  | update late => exact .inr (hreturn h)

/-- **The next alarm is set whenever an operation has succeeded**, in every run whose operations
find what they need. -/
theorem run_nextSet (lib : TimeLib) {t : ℕ} {s : AlarmSys} {tr : List AlarmEvent}
    (h : Run (step lib) (Fine lib) (boot t) tr s) :
    tr.getLast? = some (.returned true) → s.NextSet lib := by
  have hinv : Inv s ∧ Armed s ∧ (tr.getLast? = some (.returned true) → Settled lib s) := by
    refine h.invariant (fun tr s => Inv s ∧ Armed s ∧
      (tr.getLast? = some (.returned true) → Settled lib s)) ?_ ?_
    · refine ⟨⟨nodup_nil, ?_, ?_, ?_⟩, ?_, fun hl => by cases hl⟩
      · exact fun a ha => by cases ha
      · exact fun a ha => by cases ha
      · exact fun p hp => by cases hp
      · rintro ⟨a, ha, -⟩
        cases ha
    · rintro tr s op s' out ⟨hs, harmed, -⟩ hfine hstep
      have hlast : ∀ (e : AlarmEvent), (tr ++ [e]).getLast? = some e := fun e => by simp
      rcases step_cases hstep with ⟨ticks, rfl, rfl⟩ | ⟨r, hr, rfl, rfl⟩
      · refine ⟨hs.congr rfl rfl, ?_, fun hl => ?_⟩
        · rintro ⟨a, ha, hstarted⟩
          obtain ⟨c, hc⟩ := harmed ⟨a, ha, hstarted⟩
          exact ⟨c, hc.mem, hc.current, hc.started, hc.rtc⟩
        · rw [hlast] at hl
          cases hl
      · obtain ⟨hs', harmed', hsettled⟩ := After.run hs harmed hfine hr
        refine ⟨hs', harmed', fun hl => hsettled ?_⟩
        rw [hlast] at hl
        exact AlarmEvent.returned.inj (some.inj hl)
  exact fun hlast => (hinv.2.2 hlast).nextSet

/-- The calendar of the first month of 1970. -/
def januaryLib : TimeLib where
  localtime t := ⟨t % 60, t / 60 % 60, t / 3600 % 24, 1 + t / 86400, 0, 70, (4 + t / 86400) % 7⟩
  mktime time :=
    (time.tmMday - 1) * 86400 + time.tmHour * 3600 + time.tmMin * 60 + time.tmSec
  sec_range t := by
    dsimp only
    omega
  min_range t := by
    dsimp only
    omega
  hour_range t := by
    dsimp only
    omega

/-- Some hour of the first day. -/
def januaryFirst (hour : ℤ) : Tm := ⟨0, 0, hour, 1, 0, 70, 4⟩

/-- Two alarms a day, at ten and at nine; at nine, the one at ten is next. -/
theorem nextSet_update : ∃ s : AlarmSys, s.NextSet januaryLib ∧ s.current = some 1 ∧
    s.rtc = ⟨true, 0, 0, 10⟩ ∧ s.called = [2] := by
  have hrun : Run (step januaryLib) (Fine januaryLib) (boot 0) _ _ :=
    Run.of_exec (rfl : exec (step januaryLib) (Fine januaryLib) (boot 0)
      [.create (some 1) (some (.daily, januaryFirst 10)) true, .start (some 1) 0,
        .create (some 2) (some (.daily, januaryFirst 9)) true, .start (some 2) 0,
        .pass (9 * 3600 + 1), .update 1] = some (_, _))
  exact ⟨_, run_nextSet januaryLib hrun rfl, rfl, rfl, rfl⟩

/-- A one-shot alarm that has woken up stays `current`.  The next day an alarm at eleven is compared
with it, and is started without the RTC being set. -/
theorem not_nextSet : ¬ ∀ (s : AlarmSys) (tr : List AlarmEvent),
    Run (step januaryLib) (fun _ _ => True) (boot 0) tr s →
      tr.getLast? = some (.returned true) → s.NextSet januaryLib := by
  intro hall
  have hrun : Run (step januaryLib) (fun _ _ => True) (boot 0) _ _ :=
    Run.of_exec (rfl : exec (step januaryLib) (fun _ _ => True) (boot 0)
      [.create (some 1) (some (.oneshot, januaryFirst 10)) true, .start (some 1) 0,
        .pass (10 * 3600), .update 0, .pass (23 * 3600),
        .create (some 2) (some (.daily, januaryFirst 11)) true, .start (some 2) 0] =
      some (_, _))
  obtain ⟨a, -, -, hrtc, -⟩ := hall _ _ hrun rfl ⟨_, mem_cons_self, rfl⟩
  exact Bool.noConfusion (congrArg WkAlarm.enable hrtc)

end AlarmSys

end RtThread
