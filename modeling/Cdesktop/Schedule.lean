import Mathlib.Algebra.Order.Ring.Int
import Mathlib.Data.List.Basic
import Mathlib.Tactic.Ring

namespace Cdesktop.RoutineSchedule
set_option autoImplicit true

/-- Instants and local wall-clock times in nanoseconds, both counted from 1970-01-01 00:00. -/
abbrev Instant := Int

def second : Int := 1000000000
def minute : Int := 60 * second
def hour : Int := 60 * minute
def day : Int := 24 * hour

inductive LocalResult where
  | none
  | single (at_ : Instant)
  | ambiguous (earliest latest : Instant)

def LocalResult.asSingle : LocalResult → Option Instant
  | .single t => some t
  | _ => .none

def LocalResult.earliest : LocalResult → Option Instant
  | .single t => some t
  | .ambiguous t _ => some t
  | .none => .none

/-- The time zone of the host: the offset in force at an instant, and the instants at which the
wall clock shows a time. -/
structure Local where
  offset : Instant → Int
  fromLocalDatetime : Int → LocalResult

namespace Local
variable (z : Local)

def naive (t : Instant) : Int := t + z.offset t

def mapLocal (f : Int → Int) (t : Instant) : Option Instant :=
  (z.fromLocalDatetime (f (z.naive t))).asSingle

def withMinute (m : Nat) : Instant → Option Instant :=
  z.mapLocal fun n => n - n % hour + m * minute + n % minute

def withSecond0 : Instant → Option Instant := z.mapLocal fun n => n - n % minute + n % second

def withNanosecond0 : Instant → Option Instant := z.mapLocal fun n => n - n % second

def weekday (t : Instant) : Int := (z.naive t / day + 4) % 7

def localAt (t : Instant) (h m : Nat) : Option Instant :=
  let wall := z.naive t - z.naive t % day + h * hour + m * minute
  (z.fromLocalDatetime wall).asSingle.or (z.fromLocalDatetime wall).earliest

end Local

inductive ScheduleKind where
  | manual | hourly | daily | weekdays | weekly
deriving DecidableEq

def parseU32 (s : String) : Option Nat :=
  let digits := match s.toList with
    | '+' :: rest => rest
    | digits => digits
  if digits = [] ∨ digits.any (fun c => !c.isDigit) then none
  else
    let value := digits.foldl (fun n c => 10 * n + (c.toNat - '0'.toNat)) 0
    if value < 2 ^ 32 then some value else none

/-- `split_once(':')` -/
def splitOnce (s : String) : Option (String × String) :=
  let before := s.toList.takeWhile (· ≠ ':')
  match s.toList.drop before.length with
  | _ :: after => some (String.ofList before, String.ofList after)
  | [] => none

def parseHhmm (s : String) : Option (Nat × Nat) := do
  let (h, m) ← splitOnce s
  let h ← parseU32 h
  let m ← parseU32 m
  if h > 23 ∨ m > 59 then none else some (h, m)

def isWeekend (weekday : Int) : Bool := weekday = 6 ∨ weekday = 0

/-- `while is_weekend(…) { candidate += 1 day }`, for at most `n` days. -/
def skipWeekend (z : Local) : Nat → Instant → Instant
  | 0, candidate => candidate
  | n + 1, candidate =>
    if isWeekend (z.weekday candidate) then skipWeekend z n (candidate + day) else candidate

/-- The loop of a weekly schedule, for at most `n` days. -/
def nextWeekday (z : Local) (target : Int) (from_ : Instant) : Nat → Instant → Option Instant
  | 0, _ => none
  | n + 1, candidate =>
    if z.weekday candidate = target ∧ from_ < candidate then some candidate
    else nextWeekday z target from_ n (candidate + day)

def computeNextRunAt (z : Local) (kind : ScheduleKind) (time : Option String) (dow : Option Int)
    (enabled : Bool) (from_ : Instant) : Option Instant :=
  if !enabled then none
  else
    match kind with
    | .manual => none
    | .hourly => do
      let mm ← parseU32 (← time)
      if mm > 59 then none
      else
        let candidate ← ((z.withMinute mm from_).bind z.withSecond0).bind z.withNanosecond0
        some (if candidate ≤ from_ then candidate + hour else candidate)
    | .daily => do
      let (h, m) ← parseHhmm (← time)
      let today ← z.localAt from_ h m
      some (if today ≤ from_ then today + day else today)
    | .weekdays => do
      let (h, m) ← parseHhmm (← time)
      let candidate ← z.localAt from_ h m
      let candidate := if candidate ≤ from_ then candidate + day else candidate
      some (skipWeekend z 7 candidate)
    | .weekly => do
      let (h, m) ← parseHhmm (← time)
      let target ← dow.filter fun d => decide (0 ≤ d ∧ d ≤ 6)
      let candidate ← z.localAt from_ h m
      nextWeekday z target from_ 8 candidate

theorem computeNextRunAt_disabled (z : Local) (kind : ScheduleKind) (time : Option String)
    (dow : Option Int) (from_ : Instant) :
    computeNextRunAt z kind time dow false from_ = none := rfl

inductive ScheduleError where
  | hourlyRange | hourlyFormat | dailyFormat | weeklyFormat | weeklyDow
deriving DecidableEq

def ScheduleError.message : ScheduleError → String
  | .hourlyRange => "schedule_time for hourly must be 00-59"
  | .hourlyFormat => "schedule_time for hourly must be MM (00-59)"
  | .dailyFormat => "schedule_time for daily/weekdays must be HH:MM"
  | .weeklyFormat => "schedule_time HH:MM required"
  | .weeklyDow => "schedule_dow must be 0-6 for weekly"

def validateSchedule (kind : ScheduleKind) (time : Option String) (dow : Option Int) :
    Except ScheduleError Unit :=
  match kind with
  | .manual => .ok ()
  | .hourly =>
    match time with
    | some mm =>
      if mm.utf8ByteSize = 2 ∧ mm.toList.all Char.isDigit then
        match parseU32 mm with
        | some value => if value > 59 then .error .hourlyRange else .ok ()
        | none => .error .hourlyFormat
      else .error .hourlyFormat
    | none => .error .hourlyFormat
  | .daily | .weekdays =>
    match time.bind parseHhmm with
    | some _ => .ok ()
    | none => .error .dailyFormat
  | .weekly =>
    match parseHhmm (time.getD "") with
    | none => .error .weeklyFormat
    | some _ =>
      match dow with
      | some d => if 0 ≤ d ∧ d ≤ 6 then .ok () else .error .weeklyDow
      | none => .error .weeklyDow

end Cdesktop.RoutineSchedule
