import Cdesktop.Config
import Cdesktop.Run
import Cdesktop.Schedule
import Cdesktop.Table
import Mathlib.Logic.Function.Basic

namespace Cdesktop.RoutineSchedule
open Table (Reply)
set_option autoImplicit true

structure Routine where
  scheduleKind : ScheduleKind
  scheduleTime : Option String
  scheduleDow : Option Int
  enabled : Bool
  nextRunAt : Option Instant
  lastRunAt : Option Instant
deriving DecidableEq

def Routine.schedule (r : Routine) : ScheduleKind × Option String × Option Int × Bool :=
  (r.scheduleKind, r.scheduleTime, r.scheduleDow, r.enabled)

def Routine.nextFrom (z : Local) (r : Routine) (from_ : Instant) : Option Instant :=
  computeNextRunAt z r.scheduleKind r.scheduleTime r.scheduleDow r.enabled from_

structure UpdateRoutine where
  scheduleKind : Option ScheduleKind
  scheduleTime : Option String
  scheduleDow : Option Int
  enabled : Option Bool

def UpdateRoutine.scheduleChanged (payload : UpdateRoutine) : Bool :=
  payload.scheduleKind.isSome || payload.scheduleTime.isSome || payload.scheduleDow.isSome ||
    payload.enabled.isSome

/-- The `UPDATE` with its `COALESCE`s. -/
def UpdateRoutine.apply (payload : UpdateRoutine) (r : Routine) : Routine :=
  { r with
    scheduleKind := payload.scheduleKind.getD r.scheduleKind
    scheduleTime := payload.scheduleTime.or r.scheduleTime
    scheduleDow := payload.scheduleDow.or r.scheduleDow
    enabled := payload.enabled.getD r.enabled }

def UpdateRoutine.validate (payload : UpdateRoutine) (existing : Routine) :
    Except ScheduleError Unit :=
  validateSchedule (payload.scheduleKind.getD existing.scheduleKind)
    (payload.scheduleTime.or existing.scheduleTime) (payload.scheduleDow.or existing.scheduleDow)

inductive ApiError where
  | badRequest (message : String)
  | database
deriving DecidableEq

def notFound : ApiError := .badRequest "Routine not found"

/-- `update_routine` between its statements. `seen` counts the changes of the stored schedule up to
the read that what follows is computed from. -/
inductive UpdatePhase where
  | finding
  | writing
  | rereading
  | setting (next : Option Instant) (seen : Nat)
  | returning
  | answered (answer : Except ApiError Routine)
  | lost
deriving DecidableEq

structure Update where
  routineId : Uuid
  payload : UpdateRoutine
  phase : UpdatePhase

structure Due where
  routineId : Uuid
  routine : Routine
  seen : Nat

/-- `tick_once`, and `handle_boot_missed_runs`, which writes skipped runs instead of firing. -/
inductive TickPhase where
  | finding
  | firing (due : List Due)
  | marking (due : Due) (next : Option Instant) (rest : List Due)
  | finished

structure Tick where
  boot : Bool
  now : Instant
  phase : TickPhase

structure World where
  rows : List (Uuid × Routine)
  changes : Uuid → Nat
  updates : Nat → Option Update
  ticks : Nat → Option Tick

def World.new : World :=
  { rows := []
    changes := fun _ => 0
    updates := fun _ => none
    ticks := fun _ => none }

inductive Event where
  | create (routineId : Uuid) (routine : Routine) (now : Instant)
  | update (t : Nat) (routineId : Uuid) (payload : UpdateRoutine)
  | updateStep (t : Nat) (reply : Reply) (now : Instant)
  | loseUpdate (t : Nat)
  | tick (t : Nat) (boot : Bool) (now : Instant)
  | tickStep (t : Nat) (reply : Reply) (now : Instant)
  | loseTick (t : Nat)

def find (rows : List (Uuid × Routine)) (routineId : Uuid) : Option Routine :=
  (rows.find? fun row => row.1 = routineId).map (·.2)

def write (routineId : Uuid) (f : Routine → Routine) (rows : List (Uuid × Routine)) :
    List (Uuid × Routine) :=
  Table.update (fun row => row.1 = routineId) (fun row => (row.1, f row.2)) rows

def setNextRunAt (next : Option Instant) (r : Routine) : Routine := { r with nextRunAt := next }

def markFired (now : Instant) (next : Option Instant) (r : Routine) : Routine :=
  { r with
    lastRunAt := some now
    nextRunAt := next }

def isDue (now : Instant) (r : Routine) : Bool :=
  r.enabled && r.nextRunAt.any fun next => next ≤ now

def World.findDue (w : World) (now : Instant) : List Due :=
  (w.rows.filter fun row => isDue now row.2).map fun row => ⟨row.1, row.2, w.changes row.1⟩

def World.setUpdate (w : World) (t : Nat) (u : Update) (phase : UpdatePhase) : World :=
  { w with updates := Function.update w.updates t (some { u with phase }) }

def World.refuse (w : World) (t : Nat) (u : Update) (e : ApiError) : World :=
  w.setUpdate t u (.answered (.error e))

def World.setTick (w : World) (t : Nat) (k : Tick) (phase : TickPhase) : World :=
  { w with ticks := Function.update w.ticks t (some { k with phase }) }

def World.writeSchedule (w : World) (routineId : Uuid) (payload : UpdateRoutine) : World :=
  { w with
    rows := write routineId payload.apply w.rows
    changes :=
      match find w.rows routineId with
      | some r =>
        if (payload.apply r).schedule = r.schedule then w.changes
        else Function.update w.changes routineId (w.changes routineId + 1)
      | none => w.changes }

def World.serve (z : Local) (w : World) (t : Nat) (u : Update) (reply : Reply) (now : Instant) :
    World :=
  match u.phase with
  | .finding =>
    if reply ≠ .ok then w.refuse t u .database
    else
      match find w.rows u.routineId with
      | none => w.refuse t u notFound
      | some existing =>
        match u.payload.validate existing with
        | .error e => w.refuse t u (.badRequest e.message)
        | .ok () => w.setUpdate t u .writing
  | .writing =>
    match reply with
    | .failed => w.refuse t u .database
    | .ok => (w.writeSchedule u.routineId u.payload).setUpdate t u .rereading
    | .lost => (w.writeSchedule u.routineId u.payload).refuse t u .database
  | .rereading =>
    if reply ≠ .ok then w.refuse t u .database
    else
      match find w.rows u.routineId with
      | none => w.refuse t u notFound
      | some r =>
        if u.payload.scheduleChanged then
          w.setUpdate t u (.setting (r.nextFrom z now) (w.changes u.routineId))
        else w.setUpdate t u .returning
  | .setting next _ =>
    let rows := write u.routineId (setNextRunAt next) w.rows
    match reply with
    | .failed => w.refuse t u .database
    | .ok => { w.setUpdate t u .returning with rows }
    | .lost => { w.refuse t u .database with rows }
  | .returning =>
    if reply ≠ .ok then w.refuse t u .database
    else
      match find w.rows u.routineId with
      | none => w.refuse t u notFound
      | some r => w.setUpdate t u (.answered (.ok r))
  | .answered _ => w
  | .lost => w

def World.tick (z : Local) (w : World) (t : Nat) (k : Tick) (reply : Reply) (now : Instant) : World :=
  match k.phase with
  | .finding =>
    if reply ≠ .ok then w.setTick t k .finished else w.setTick t k (.firing (w.findDue k.now))
  | .firing [] => w.setTick t k .finished
  | .firing (due :: rest) =>
    -- whatever came of the fire, the next run is advanced
    let advanceFrom := if k.boot then now else now + second
    w.setTick t k (.marking due (due.routine.nextFrom z advanceFrom) rest)
  | .marking due next rest =>
    if reply = .failed then w.setTick t k (.firing rest)
    else
      let f := if k.boot then setNextRunAt next else markFired k.now next
      { w.setTick t k (.firing rest) with rows := write due.routineId f w.rows }
  | .finished => w

def World.step (z : Local) (w : World) : Event → World
  | .create routineId routine now =>
    -- the id is new
    if w.rows.any fun row => row.1 = routineId then w
    else
      let routine := { routine with
        nextRunAt := routine.nextFrom z now
        lastRunAt := none }
      { w with rows := w.rows ++ [(routineId, routine)] }
  | .update t routineId payload =>
    match w.updates t with
    | none => { w with updates := Function.update w.updates t (some ⟨routineId, payload, .finding⟩) }
    | some _ => w
  | .updateStep t reply now =>
    match w.updates t with
    | none => w
    | some u => w.serve z t u reply now
  | .loseUpdate t =>
    match w.updates t with
    | none => w
    | some u =>
      match u.phase with
      | .answered _ => w
      | _ => w.setUpdate t u .lost
  | .tick t boot now =>
    match w.ticks t with
    | none => { w with ticks := Function.update w.ticks t (some ⟨boot, now, .finding⟩) }
    | some _ => w
  | .tickStep t reply now =>
    match w.ticks t with
    | none => w
    | some k => w.tick z t k reply now
  | .loseTick t =>
    match w.ticks t with
    | none => w
    | some k => w.setTick t k .finished

end Cdesktop.RoutineSchedule
