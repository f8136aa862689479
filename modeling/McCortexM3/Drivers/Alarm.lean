import McCortexM3.Cyclic
import McCortexM3.Run
import Mathlib

/-!
# Alarms of the real-time clock

`alarm.c`: any number of alarms share the one alarm of the RTC, which is set for the alarm
`current`. Starting an alarm sets the RTC for it when it comes before the current one; when the RTC
has woken the alarm thread, `alarm_update` calls back the alarms that are due and sets the RTC for
the next.

## Main definitions

* `TimeLib` — `localtime_r` and `mktime`.
* `alarmSetup`, `alarmWakeup`, `scanAlarm` — what is done with one alarm.
* `AlarmSys.step`, `AlarmSys.boot` — the operations, in any order, and time.
* `AlarmSys.NextSet` — the RTC is set for the alarm that comes next.
-/

set_option linter.all false

namespace RtThread

/-- `struct tm`. -/
structure Tm where
  tmSec : ℤ
  tmMin : ℤ
  tmHour : ℤ
  tmMday : ℤ
  tmMon : ℤ
  tmYear : ℤ
  tmWday : ℤ
  deriving DecidableEq

/-- The functions of `time.h`.  Broken-down times have hours, minutes and seconds of the day. -/
structure TimeLib where
  localtime : ℕ → Tm
  mktime : Tm → ℤ
  sec_range : ∀ t, 0 ≤ (localtime t).tmSec ∧ (localtime t).tmSec < 60
  min_range : ∀ t, 0 ≤ (localtime t).tmMin ∧ (localtime t).tmMin < 60
  hour_range : ∀ t, 0 ≤ (localtime t).tmHour ∧ (localtime t).tmHour < 24

/-- `flag & 0xFF00`. -/
inductive AlarmKind
  | oneshot
  | daily
  | weekly
  | monthly
  | yearly
  | other
  deriving DecidableEq

/-- `struct rt_alarm` at the address `addr`; `inited` and `started` are the low bits of `flag`, and
`callback` says whether there is one. -/
structure Alarm where
  addr : ℕ
  kind : AlarmKind
  inited : Bool
  started : Bool
  callback : Bool
  wktime : Tm
  deriving DecidableEq

/-- `struct rt_rtc_wkalarm`, as the driver keeps it. -/
structure WkAlarm where
  enable : Bool
  tmSec : ℤ
  tmMin : ℤ
  tmHour : ℤ
  deriving DecidableEq

/-- `RT_ALARM_DELAY`. -/
def rtAlarmDelay : ℤ := 2

/-- `RT_RTC_YEARS_MAX`. -/
def rtRtcYearsMax : ℤ := 137

/-- `RT_ALARM_TM_NOW`. -/
def rtAlarmTmNow : ℤ := -1

/-- The seconds of a day. -/
def daySeconds : ℤ := 24 * 3600

/-- `alarm_mkdaysec`. -/
def alarmMkdaysec (time : Tm) : ℤ :=
  (time.tmSec + time.tmMin * 60 + time.tmHour * 3600) % 2 ^ 32

/-- `alarm_set`: what the driver is told to store, and the alarm with the times that are read back
from it. -/
def alarmSet (alarm : Alarm) : Alarm × WkAlarm :=
  let wkalarm : WkAlarm := {
    enable := alarm.started
    tmSec := alarm.wktime.tmSec
    tmMin := alarm.wktime.tmMin
    tmHour := alarm.wktime.tmHour }
  if wkalarm.enable = true then
    ({ alarm with wktime := { alarm.wktime with
      tmSec := wkalarm.tmSec
      tmMin := wkalarm.tmMin
      tmHour := wkalarm.tmHour } }, wkalarm)
  else (alarm, wkalarm)

/-- The difference of two `rt_uint32_t` is within the delay. -/
def withinDelay (secNow secAlarm : ℤ) : Bool := (secNow - secAlarm) % 2 ^ 32 ≤ rtAlarmDelay

/-- The times with which a one-shot alarm is due. -/
def oneshotDue (lib : TimeLib) (now wktime : Tm) : Bool :=
  let secAlarm := lib.mktime wktime % 2 ^ 32
  let secNow := lib.mktime now % 2 ^ 32
  withinDelay secNow secAlarm && decide (secNow ≥ secAlarm)

/-- `alarm_wakeup`: the alarm afterwards, what the RTC stores, and whether the alarm wakes up. -/
def alarmWakeup (lib : TimeLib) (now : Tm) (alarm : Alarm) (rtc : WkAlarm) :
    Alarm × WkAlarm × Bool :=
  let secAlarm := alarmMkdaysec alarm.wktime
  let secNow := alarmMkdaysec now
  if alarm.started = true then
    match alarm.kind with
    | .oneshot =>
      if oneshotDue lib now alarm.wktime = true then
        ((alarmSet { alarm with started := false }).1,
          (alarmSet { alarm with started := false }).2, true)
      else (alarm, rtc, false)
    | .daily => (alarm, rtc, withinDelay secNow secAlarm && decide (secNow ≥ secAlarm))
    | .weekly =>
      let secAlarm := (secAlarm + alarm.wktime.tmWday * 24 * 3600) % 2 ^ 32
      let secNow := (secNow + now.tmWday * 24 * 3600) % 2 ^ 32
      (alarm, rtc, withinDelay secNow secAlarm && decide (secNow ≥ secAlarm))
    | .monthly =>
      (alarm, rtc, decide (alarm.wktime.tmMday = now.tmMday) && withinDelay secNow secAlarm)
    | .yearly =>
      (alarm, rtc, decide (alarm.wktime.tmMday = now.tmMday ∧ alarm.wktime.tmMon = now.tmMon) &&
        withinDelay secNow secAlarm)
    | .other => (alarm, rtc, false)
  else (alarm, rtc, false)

/-- The first loop of `alarm_update`: the alarms afterwards, what the RTC stores, and the alarms
that are called back. -/
def wakeAlarms (lib : TimeLib) (now : Tm) : List Alarm → WkAlarm → List Alarm × WkAlarm × List ℕ
  | [], rtc => ([], rtc, [])
  | alarm :: alarms, rtc =>
    let r := alarmWakeup lib now alarm rtc
    let rs := wakeAlarms lib now alarms r.2.1
    (r.1 :: rs.1, rs.2.1,
      if (r.2.2 && alarm.callback) = true then alarm.addr :: rs.2.2 else rs.2.2)

/-- `sec_next`, `alm_next`, `sec_prev` and `alm_prev` of `alarm_update`. -/
structure Scan where
  secNext : ℤ
  almNext : Option Alarm
  secPrev : ℤ
  almPrev : Option Alarm

/-- The second loop of `alarm_update` looks at an alarm. -/
def scanAlarm (current : Option ℕ) (secNow : ℤ) (scan : Scan) (alarm : Alarm) : Scan :=
  if alarm.started = true ∧ current ≠ some alarm.addr then
    let secTmp := alarmMkdaysec alarm.wktime - secNow
    if secTmp > 0 then
      if secTmp < scan.secNext then { scan with secNext := secTmp, almNext := some alarm } else scan
    else if secTmp < scan.secPrev then { scan with secPrev := secTmp, almPrev := some alarm }
    else scan
  else scan

/-- The second loop of `alarm_update`. -/
def scanAlarms (current : Option ℕ) (secNow : ℤ) (alarms : List Alarm) : Scan :=
  alarms.foldl (scanAlarm current secNow) ⟨daySeconds, none, 0, none⟩

/-- The alarm that `alarm_update` sets the RTC for, if any. -/
def Scan.found (scan : Scan) : Option Alarm :=
  if scan.secNext < daySeconds then scan.almNext
  else if scan.secPrev < 0 then scan.almPrev
  else none

/-- `days_of_year_month`. -/
def daysOfYearMonth (tmYear tmMon : ℤ) : ℤ :=
  let year := tmYear + 1900
  if tmMon = 1 then
    28 + if (year % 4 = 0 ∧ year % 100 ≠ 0) ∨ year % 400 = 0 then 1 else 0
  else if (tmMon ≤ 6 ∧ tmMon % 2 = 0) ∨ (tmMon > 6 ∧ tmMon % 2 = 1) then 31
  else 30

/-- `is_valid_date`. -/
def isValidDate (date : Tm) : Bool :=
  if date.tmYear < 0 ∨ date.tmYear > rtRtcYearsMax then false
  else if date.tmMon < 0 ∨ date.tmMon > 11 then false
  else if date.tmMday < 1 ∨ date.tmMday > daysOfYearMonth date.tmYear date.tmMon then false
  else true

/-- The `switch` of `alarm_setup`, and whether it goes on. -/
def setupKind (kind : AlarmKind) (setup now : Tm) : Tm × Bool :=
  match kind with
  | .daily => (setup, true)
  | .oneshot =>
    let setup : Tm := { setup with
      tmYear := if setup.tmYear = rtAlarmTmNow then now.tmYear else setup.tmYear
      tmMon := if setup.tmMon = rtAlarmTmNow then now.tmMon else setup.tmMon
      tmMday := if setup.tmMday = rtAlarmTmNow then now.tmMday else setup.tmMday }
    (setup, isValidDate setup)
  | .weekly =>
    ({ setup with
      tmWday := if setup.tmWday < 0 ∨ setup.tmWday > 6 then now.tmWday else setup.tmWday }, true)
  | .monthly =>
    ({ setup with
      tmMday := if setup.tmMday < 1 ∨ setup.tmMday > 31 then now.tmMday else setup.tmMday }, true)
  | .yearly =>
    let setup : Tm := { setup with
      tmMon := if setup.tmMon < 0 ∨ setup.tmMon > 11 then now.tmMon else setup.tmMon }
    let days : ℤ :=
      if setup.tmMon = 1 then 29
      else if (setup.tmMon ≤ 6 ∧ setup.tmMon % 2 = 0) ∨ (setup.tmMon > 6 ∧ setup.tmMon % 2 = 1) then
        31
      else 30
    ({ setup with
      tmMday := if setup.tmMday < 1 ∨ setup.tmMday > days then now.tmMday else setup.tmMday }, true)
  | .other => (setup, false)

/-- The hour, minute and second of `alarm_setup`: those that do not matter are set to now. -/
def setupDay (wktime now : Tm) : Tm :=
  { wktime with
    tmSec := if wktime.tmSec > 59 ∨ wktime.tmSec < 0 then now.tmSec else wktime.tmSec
    tmMin := if wktime.tmMin > 59 ∨ wktime.tmMin < 0 then now.tmMin else wktime.tmMin
    tmHour := if wktime.tmHour > 23 ∨ wktime.tmHour < 0 then now.tmHour else wktime.tmHour }

/-- `alarm_setup`, and whether it succeeds. -/
def alarmSetup (alarm : Alarm) (wktime now : Tm) : Alarm × Bool :=
  let r := setupKind alarm.kind (setupDay wktime now) now
  if r.2 = true then
    -- an alarm at the last second of the day is given a second ahead of it
    let setup :=
      if r.1.tmHour = 23 ∧ r.1.tmMin = 59 ∧ r.1.tmSec = 59 then
        { r.1 with tmSec := 60 - rtAlarmDelay }
      else r.1
    ({ alarm with wktime := setup, inited := true }, true)
  else ({ alarm with wktime := r.1 }, false)

/-- The alarms in the order of the list, which alarm is `current`, what the driver of the RTC
stores, the time, and the callbacks so far. -/
structure AlarmSys where
  head : List Alarm
  current : Option ℕ
  rtc : WkAlarm
  now : ℕ
  called : List ℕ

/-- The operations.  A pointer to an alarm may be `RT_NULL`, here `none`; `rt_malloc` returns an
address or not.  `late` is how much time passes within an operation before it looks at the clock
for the last time. -/
inductive AlarmOp
  | create (p : Option ℕ) (setup : Option (AlarmKind × Tm)) (callback : Bool)
  | start (p : Option ℕ) (late : ℕ)
  | stop (p : Option ℕ) (late : ℕ)
  | delete (p : Option ℕ) (late : ℕ)
  | update (late : ℕ)
  | pass (ticks : ℕ)

/-- An operation has returned, successfully or not, or time has passed. -/
inductive AlarmEvent
  | returned (success : Bool)
  | passed
  deriving DecidableEq

namespace AlarmSys

/-- The alarm at an address. -/
def find (s : AlarmSys) (p : ℕ) : Option Alarm := s.head.find? (·.addr = p)

/-- An alarm becomes `alarm`. -/
def put (s : AlarmSys) (alarm : Alarm) : AlarmSys :=
  { s with head := s.head.map fun b => if b.addr = alarm.addr then alarm else b }

/-- `alarm_set`, by which the RTC stores what it is told to. -/
def set (s : AlarmSys) (alarm : Alarm) : AlarmSys :=
  { s.put (alarmSet alarm).1 with rtc := (alarmSet alarm).2 }

/-- `alarm_set`, and `_container.current = alarm`. -/
def setCurrent (s : AlarmSys) (alarm : Alarm) : AlarmSys :=
  { s.set alarm with current := some alarm.addr }

/-- The seconds of the day that have passed. -/
def secNow (lib : TimeLib) (s : AlarmSys) : ℤ := alarmMkdaysec (lib.localtime s.now)

/-- `alarm_update`. -/
def alarmUpdate (lib : TimeLib) (s : AlarmSys) (late : ℕ) : AlarmSys :=
  if s.head = [] then s
  else
    let r := wakeAlarms lib (lib.localtime s.now) s.head s.rtc
    let s : AlarmSys :=
      { s with head := r.1, rtc := r.2.1, called := s.called ++ r.2.2, now := s.now + late }
    match (scanAlarms s.current (s.secNow lib) s.head).found with
    | some alarm => s.setCurrent alarm
    | none => s

/-- `rt_alarm_create`. -/
def rtAlarmCreate (s : AlarmSys) (p : Option ℕ) (setup : Option (AlarmKind × Tm))
    (callback : Bool) : AlarmSys × Bool :=
  match setup, p with
  | some (kind, wktime), some addr =>
    ({ s with head := {
      addr := addr
      kind := kind
      inited := false
      started := false
      callback := callback
      wktime := wktime } :: s.head }, true)
  | _, _ => (s, false)

/-- `alarm_setup`, when `rt_alarm_start` finds that the alarm needs it. -/
def setUp (lib : TimeLib) (s : AlarmSys) (alarm : Alarm) : Alarm × Bool :=
  if alarm.inited = true then (alarm, true)
  else alarmSetup alarm alarm.wktime (lib.localtime s.now)

/-- The three comparisons of `rt_alarm_start`. -/
def startsFirst (secNow secOld secNew : ℤ) : Prop :=
  (secNew < secOld ∧ secNew > secNow) ∨ (secNew > secNow ∧ secOld < secNow) ∨
    (secNew < secOld ∧ secOld < secNow)

instance (secNow secOld secNew : ℤ) : Decidable (startsFirst secNow secOld secNew) :=
  inferInstanceAs (Decidable (_ ∨ _))

/-- `rt_alarm_start` of an alarm, or `none` where it follows a pointer that is not to an alarm. -/
def rtAlarmStart (lib : TimeLib) (s : AlarmSys) (alarm : Alarm) (late : ℕ) :
    Option (AlarmSys × Bool) :=
  let r := s.setUp lib alarm
  if r.2 = false then some (s.put r.1, false)
  else if r.1.started = true then some (s.put r.1, false)
  else
    let alarm := { r.1 with started := true }
    let s : AlarmSys := { s.put alarm with now := s.now + late }
    match s.current with
    | none => some (s.setCurrent alarm, true)
    | some p =>
      (s.find p).map fun current =>
        if startsFirst (s.secNow lib) (alarmMkdaysec current.wktime) (alarmMkdaysec alarm.wktime)
        then (s.setCurrent alarm, true)
        else (s, true)

/-- `rt_alarm_stop` of an alarm. -/
def rtAlarmStop (lib : TimeLib) (s : AlarmSys) (alarm : Alarm) (late : ℕ) : AlarmSys × Bool :=
  if alarm.started = false then (s, false)
  else
    let alarm := { alarm with started := false }
    let s := s.put alarm
    if s.current = some alarm.addr then
      (({ s.set alarm with current := none } : AlarmSys).alarmUpdate lib late, true)
    else (s, false)

/-- `rt_list_remove`. -/
def remove (s : AlarmSys) (p : ℕ) : AlarmSys := { s with head := s.head.filter (·.addr ≠ p) }

/-- `rt_alarm_delete` of an alarm. -/
def rtAlarmDelete (lib : TimeLib) (s : AlarmSys) (alarm : Alarm) (late : ℕ) : AlarmSys × Bool :=
  let alarm := { alarm with started := false }
  let s := s.put alarm
  if s.current = some alarm.addr then
    ((({ s.set alarm with current := none } : AlarmSys).alarmUpdate lib late).remove alarm.addr,
      true)
  else (s.remove alarm.addr, false)

/-- An operation on the alarm at an address, which returns `RT_ERROR` for `RT_NULL`. -/
def onAlarm (s : AlarmSys) (p : Option ℕ) (f : Alarm → Option (AlarmSys × Bool)) :
    Option (AlarmSys × Bool) :=
  match p with
  | none => some (s, false)
  | some p => (s.find p).bind f

/-- What an operation returns, on alarms that exist. -/
def run (lib : TimeLib) (s : AlarmSys) : AlarmOp → Option (AlarmSys × Bool)
  | .create p setup callback =>
    if p.all (fun addr => s.find addr = none) = true then some (s.rtAlarmCreate p setup callback)
    else none
  | .start p late => s.onAlarm p fun alarm => s.rtAlarmStart lib alarm late
  | .stop p late => s.onAlarm p fun alarm => some (s.rtAlarmStop lib alarm late)
  | .delete p late => s.onAlarm p fun alarm => some (s.rtAlarmDelete lib alarm late)
  | .update late => some (s.alarmUpdate lib late, true)
  | .pass _ => none

/-- One step: an operation, or time passes. -/
def step (lib : TimeLib) (s : AlarmSys) (op : AlarmOp) : Option (AlarmSys × List AlarmEvent) :=
  match op with
  | .pass ticks => some ({ s with now := s.now + ticks }, [.passed])
  | op => (s.run lib op).map fun r => (r.1, [.returned r.2])

/-- `rt_alarm_system_init`, at some time. -/
def boot (now : ℕ) : AlarmSys := ⟨[], none, ⟨false, 0, 0, 0⟩, now, []⟩

/-- How long it takes until the time of day of an alarm comes. -/
def until' (lib : TimeLib) (s : AlarmSys) (alarm : Alarm) : ℤ :=
  ahead daySeconds (s.secNow lib) (alarmMkdaysec alarm.wktime)

/-- When some alarm is started, the RTC alarm is enabled for a started one before which no other one
comes. -/
def NextSet (lib : TimeLib) (s : AlarmSys) : Prop :=
  (∃ a ∈ s.head, a.started = true) →
    ∃ a ∈ s.head, a.started = true ∧
      s.rtc = ⟨true, a.wktime.tmSec, a.wktime.tmMin, a.wktime.tmHour⟩ ∧
      ∀ b ∈ s.head, b.started = true → ¬ s.until' lib b < s.until' lib a

/-! ### When the next alarm is set -/

/-- A started alarm that `alarm_update` does not stop. -/
def Stays (lib : TimeLib) (now : ℕ) (a : Alarm) : Prop :=
  a.started = true ∧ ¬ (a.kind = .oneshot ∧ oneshotDue lib (lib.localtime now) a.wktime = true)

/-- What `alarm_update` needs to set the RTC for the alarm that comes next: no alarm stays started,
or one does, other than the current one and not at this very second, and the current one does not
come before it; or no alarm is stopped, and all but the current one are at this very second. -/
def UpdateFine (lib : TimeLib) (now late : ℕ) (alarms : List Alarm) (current : Option ℕ) : Prop :=
  let secNow := alarmMkdaysec (lib.localtime (now + late))
  let wait := fun a : Alarm => ahead daySeconds secNow (alarmMkdaysec a.wktime)
  (∀ b ∈ alarms, ¬ Stays lib now b) ∨
    (∃ b ∈ alarms, Stays lib now b ∧ current ≠ some b.addr ∧ alarmMkdaysec b.wktime ≠ secNow ∧
      ∀ c ∈ alarms, current = some c.addr → Stays lib now c → ¬ wait c < wait b) ∨
    ∃ c ∈ alarms, current = some c.addr ∧ Stays lib now c ∧
      ∀ b ∈ alarms, b.started = true → Stays lib now b ∧
        (current ≠ some b.addr → alarmMkdaysec b.wktime = secNow)

/-- What `rt_alarm_start` needs.  If the current alarm has been stopped, the comparisons with it
must be right by chance; else it must not be at this very second, unless the new one is, too, and no
started alarm may come before both. -/
def StartFine (lib : TimeLib) (s : AlarmSys) (late : ℕ) (a : Alarm) : Prop :=
  let secNow := alarmMkdaysec (lib.localtime (s.now + late))
  let secNew := alarmMkdaysec (s.setUp lib a).1.wktime
  (s.setUp lib a).2 = true → (s.setUp lib a).1.started = false →
    ∀ c ∈ s.head, s.current = some c.addr →
      if c.started = true then
        (alarmMkdaysec c.wktime = secNow → secNew = secNow) ∧
          ∀ b ∈ s.head, b.started = true →
            ¬ (ahead daySeconds secNow (alarmMkdaysec b.wktime) < ahead daySeconds secNow secNew ∧
              ahead daySeconds secNow (alarmMkdaysec b.wktime) <
                ahead daySeconds secNow (alarmMkdaysec c.wktime))
      else startsFirst secNow (alarmMkdaysec c.wktime) secNew

/-- What an operation needs of the state before it to leave the RTC set for the next alarm. -/
def Fine (lib : TimeLib) (s : AlarmSys) : AlarmOp → Prop
  | .create (some _) (some _) _ => ∀ c ∈ s.head, s.current = some c.addr → c.started = true →
    ∀ b ∈ s.head, b.started = true → ¬ s.until' lib b < s.until' lib c
  | .create _ _ _ => True
  | .start p late => ∀ a ∈ s.head, p = some a.addr → s.StartFine lib late a
  | .stop p late => ∀ a ∈ s.head, p = some a.addr → s.current = some a.addr → a.started = true →
    UpdateFine lib s.now late (s.head.filter (·.addr ≠ a.addr)) none
  | .delete p late => ∀ a ∈ s.head, p = some a.addr → s.current = some a.addr →
    UpdateFine lib s.now late (s.head.filter (·.addr ≠ a.addr)) none
  | .update late => UpdateFine lib s.now late s.head s.current
  | .pass _ => True

instance (lib : TimeLib) (now : ℕ) (a : Alarm) : Decidable (Stays lib now a) :=
  inferInstanceAs (Decidable (_ ∧ _))

instance (lib : TimeLib) (now late : ℕ) (alarms : List Alarm) (current : Option ℕ) :
    Decidable (UpdateFine lib now late alarms current) :=
  inferInstanceAs (Decidable (_ ∨ _))

instance (lib : TimeLib) (s : AlarmSys) (late : ℕ) (a : Alarm) :
    Decidable (s.StartFine lib late a) := by
  dsimp only [StartFine]
  infer_instance

instance (lib : TimeLib) (s : AlarmSys) (op : AlarmOp) : Decidable (s.Fine lib op) := by
  rcases op with ⟨_ | _, _ | _, _⟩ | _ | _ | _ | _ | _ <;> dsimp only [Fine] <;> infer_instance

end AlarmSys

end RtThread
