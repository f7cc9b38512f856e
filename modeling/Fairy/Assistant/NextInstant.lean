import Fairy.Assistant.ScheduleModels
import Fairy.Lib.Fallible
import Fairy.Lib.Zone

namespace Fairy.Assistant

open Fairy.Lib
open Fairy.Lib.Clock

/-- What `time.fromisoformat` finds in a text. -/
structure IsoTime where
  hour : Fin 24
  minute : Fin 60
  second : Fin 60
  microsecond : Fin 1000000
  aware : Bool
  deriving DecidableEq

def IsoTime.value (t : IsoTime) : Int :=
  t.hour.val * (60 * Clock.minute) + t.minute.val * Clock.minute + t.second.val * Clock.second +
    t.microsecond.val

/-- `ZoneInfo`, `str`, `int` and `time.fromisoformat`; `none` is a call that raises. -/
structure RecurrenceCodec where
  zoneInfo : String → Option Zone
  str : Json → String
  int : Json → Option Int
  fromIsoFormat : String → Option IsoTime

section Resolve

variable (z : Zone)

/-- The probes of `_resolve_local`, one minute after the other. -/
def resolveFrom : Nat → Int → Except ScheduleError Int
  | 0, _ => .error (.valueError "Assistant schedule local time could not be resolved")
  | probes + 1, probe =>
    match (z.readings probe).min? with
    | some u => .ok u
    | none => resolveFrom probes (probe + minute)

/-- `_resolve_local`. -/
def resolveLocal (candidate : Int) : Except ScheduleError Int :=
  resolveFrom z (24 * 60 + 1) candidate

end Resolve

section Rule

variable (x : RecurrenceCodec) (rule : Json)

/-- `_zone`. -/
def zoneOf (name : String) : Except ScheduleError Zone :=
  match x.zoneInfo name with
  | some z => .ok z
  | none => .error (.valueError "Assistant schedule timezone is unavailable")

/-- `str(rule.get(key, "")).strip()`. -/
def ruleText (key : String) : String := Text.strip (x.str ((rule.field? key).getD (.str "")))

/-- `_rule_time`. -/
def ruleTime : Except ScheduleError Int :=
  match x.fromIsoFormat (ruleText x rule "local_time") with
  | none => .error (.valueError "Assistant schedule local time is invalid")
  | some t =>
    if t.aware ∨ t.second ≠ 0 ∨ t.microsecond ≠ 0 then
      .error (.valueError "Assistant schedule local time must use HH:MM")
    else .ok t.value

/-- `int(value)` of a field that is not a `bool`. -/
def ruleInt (key name : String) : Except ScheduleError Int :=
  let value := (rule.field? key).getD .null
  match value with
  | .bool _ => .error (.valueError s!"Assistant schedule {name} is invalid")
  | _ =>
    match x.int value with
    | none => .error (.valueError s!"Assistant schedule {name} is invalid")
    | some n => .ok n

/-- `_weekday`. -/
def ruleWeekday : Except ScheduleError Int := do
  let weekday ← ruleInt x rule "weekday" "weekday"
  if weekday < 0 ∨ 6 < weekday then throw (.valueError "Assistant schedule weekday is invalid")
  return weekday

/-- `_positive_int` of the amount of an interval. -/
def ruleAmount : Except ScheduleError Int := do
  let amount ← ruleInt x rule "amount" "interval amount"
  if amount < 1 ∨ 8760 < amount then
    throw (.valueError "Assistant schedule interval amount is invalid")
  return amount

def ruleUnit : String := (ruleText x rule "unit").toLower

end Rule

section Next

variable (z : Zone)

/-- The instant of a number of days after the local date of an instant, at its local time. -/
def nextInterval (previous amount : Int) : Except ScheduleError Int :=
  resolveLocal z (combine (dateOf (z.clock previous) + amount) (timeOf (z.clock previous)))

def nextDaily (previous time : Int) : Except ScheduleError Int := do
  let date := dateOf (z.clock previous)
  let today ← resolveLocal z (combine date time)
  if today ≤ previous then resolveLocal z (combine (date + 1) time)
  else resolveLocal z (combine date time)

/-- The loop over the dates of a `WEEKDAYS` rule; without a round left it has not ended. -/
def weekdaysFrom (previous time : Int) : Nat → Int → Option (Except ScheduleError Int)
  | 0, _ => none
  | rounds + 1, date =>
    if weekday date < 5 then
      match resolveLocal z (combine date time) with
      | .error error => some (.error error)
      | .ok u =>
        if previous < u then some (.ok u) else weekdaysFrom previous time rounds (date + 1)
    else weekdaysFrom previous time rounds (date + 1)

/-- Six dates are enough, as `weekdaysFrom_isSome` says. -/
def nextWeekday (previous time : Int) : Except ScheduleError Int :=
  (weekdaysFrom z previous time 6 (dateOf (z.clock previous))).getD (.error .assertionError)

def nextWeekly (previous weekday time : Int) : Except ScheduleError Int := do
  let date := dateOf (z.clock previous)
  let date := date + (weekday - Clock.weekday date) % 7
  let first ← resolveLocal z (combine date time)
  if first ≤ previous then resolveLocal z (combine (date + 7) time)
  else resolveLocal z (combine date time)

end Next

section Schedule

variable (x : RecurrenceCodec) (rule : ScheduleRule)

/-- `next_schedule_instant`. -/
def nextScheduleInstant (previous : Int) : Except ScheduleError Int :=
  if rule.triggerKind = .once then
    .error (.valueError "One-shot Assistant schedules do not recur")
  else do
    let z ← zoneOf x rule.timezone
    if rule.triggerKind = .interval then
      let amount ← ruleAmount x rule.triggerRule
      if ruleUnit x rule.triggerRule = "hours" then return previous + amount * (60 * minute)
      else if ruleUnit x rule.triggerRule = "days" then nextInterval z previous amount
      else throw (.valueError "Assistant schedule interval unit must be hours or days")
    else
      let time ← ruleTime x rule.triggerRule
      if rule.triggerKind = .daily then nextDaily z previous time
      else if rule.triggerKind = .weekdays then nextWeekday z previous time
      else
        let weekday ← ruleWeekday x rule.triggerRule
        nextWeekly z previous weekday time

def validateScheduleRule : Except ScheduleError Unit := do
  let _ ← zoneOf x rule.timezone
  match rule.triggerKind with
  | .once => return
  | .daily | .weekdays =>
    let _ ← ruleTime x rule.triggerRule
    return
  | .weekly =>
    let _ ← ruleTime x rule.triggerRule
    let _ ← ruleWeekday x rule.triggerRule
    return
  | .interval =>
    let _ ← ruleAmount x rule.triggerRule
    if ruleUnit x rule.triggerRule ∉ ["hours", "days"] then
      throw (.valueError "Assistant schedule interval unit must be hours or days")

end Schedule

end Fairy.Assistant
