import Cdesktop.ExecutionProcess
import Cdesktop.Run
import Mathlib.Logic.Function.Basic

namespace Cdesktop.Routines
open Table (Reply)
set_option autoImplicit true

inductive RoutineRunStatus where
  | pending | running | done | skipped | failed
deriving DecidableEq

structure RoutineRun where
  id : Uuid
  routineId : Uuid
  workspaceId : Option Uuid
  scheduledAt : Time
  startedAt : Option Time
  finishedAt : Option Time
  status : RoutineRunStatus
  skipReason : Option String
deriving DecidableEq

namespace RoutineRun

def isActive (run : RoutineRun) : Bool := run.status = .pending ∨ run.status = .running

def hasRunning (runs : List RoutineRun) (routineId : Uuid) : Bool :=
  runs.any fun run => run.routineId = routineId ∧ run.isActive

/-- The row that `create` inserts and returns. -/
def new (id routineId : Uuid) (scheduledAt : Time) (status : RoutineRunStatus)
    (skipReason : Option String) : RoutineRun :=
  { id, routineId, scheduledAt, status, skipReason
    workspaceId := none
    startedAt := none
    finishedAt := none }

def attachWorkspace (runs : List RoutineRun) (id workspaceId : Uuid) : List RoutineRun :=
  Table.update (fun run => run.id = id) (fun run => { run with workspaceId := some workspaceId }) runs

def markRunning (runs : List RoutineRun) (id : Uuid) (now : Time) : List RoutineRun :=
  Table.update (fun run => run.id = id)
    (fun run => { run with status := .running, startedAt := some now }) runs

def markDone (runs : List RoutineRun) (id : Uuid) (now : Time) (failed : Bool) : List RoutineRun :=
  Table.update (fun run => run.id = id)
    (fun run => { run with
      status := if failed then .failed else .done
      finishedAt := some now }) runs

/-- Rowid order stands for `ORDER BY created_at`. -/
def findActiveByWorkspace (runs : List RoutineRun) (workspaceId : Uuid) : Option RoutineRun :=
  (runs.filter fun run => run.workspaceId = some workspaceId ∧ run.isActive).getLast?

end RoutineRun

structure RunNowResponse where
  routineRun : RoutineRun
  workspaceId : Option Uuid
  skipped : Bool
  skipReason : Option String
deriving DecidableEq

inductive LaunchError where
  | routineNotFound
  | spawn
  | database
deriving DecidableEq

/-- `run_now` serves a request, `fire_routine` a tick of the scheduler. -/
inductive EntryPoint where
  | runNow | fireRoutine
deriving DecidableEq

/-- An execution to start: its run reason and those of the actions chained to it. -/
abbrev Action := ExecutionProcessRunReason × List ExecutionProcessRunReason

inductive LaunchPhase where
  | received
  | checking
  | skipping
  /-- The check found no active run among the rows that were there. -/
  | creating (rows : Nat)
  /-- `spawn_routine_run` until the workspace is there. -/
  | spawning (run : RoutineRun)
  | attaching (run : RoutineRun) (workspaceId : Uuid)
  | marking (run : RoutineRun) (workspaceId : Uuid)
  /-- `start_workspace` until the session is there. -/
  | starting (run : RoutineRun) (workspaceId : Uuid)
  /-- `start_workspace`: what is still to be started. -/
  | executing (run : RoutineRun) (workspaceId sessionId : Uuid) (actions : List Action)
  /-- The spawn failed and the run is to be marked so. -/
  | settling (run : RoutineRun)
  /-- `fire_routine` returns no more than whether it failed. -/
  | answered (answer : Except LaunchError RunNowResponse)
  | lost
deriving DecidableEq

structure Launch where
  entry : EntryPoint
  routineId : Uuid
  runId : Uuid
  now : Time
  blocked : Bool
  phase : LaunchPhase

inductive MonitorPhase where
  | running
  | chaining
  | finishing
  | finalizing
  | settling (runId : Uuid)
  | ended
deriving DecidableEq

structure Execution where
  workspaceId : Uuid
  sessionId : Uuid
  runReason : ExecutionProcessRunReason
  next : List ExecutionProcessRunReason
  status : ExecutionProcessStatus
  phase : MonitorPhase

structure World where
  runs : List RoutineRun
  launches : Nat → Option Launch
  executions : List Execution
  routineWorkspaces : List Uuid
  nextId : Uuid

def World.new : World :=
  { runs := []
    launches := fun _ => none
    executions := []
    routineWorkspaces := []
    nextId := 0 }

inductive Outcome where
  | completed (exitZero : Bool)
  | failed
  | killed
deriving DecidableEq

def Outcome.status : Outcome → ExecutionProcessStatus
  | .completed _ => .completed
  | .failed => .failed
  | .killed => .killed

inductive Event where
  | request (t : Nat) (entry : EntryPoint) (routineId : Uuid) (now : Time)
  /-- `found`: the row that is looked up is there. `setups`: of each setup script of the workspace,
  whether it is to run in parallel. -/
  | step (t : Nat) (reply : Reply) (found : Bool) (setups : List Bool)
  | lose (t : Nat)
  /-- The boot handler of the scheduler notes a missed run. -/
  | missed (routineId : Uuid) (scheduledAt : Time)
  /-- Any other execution is started. -/
  | execute (workspaceId sessionId : Uuid) (action : Action)
  | exit (n : Nat) (reply : Reply) (outcome : Outcome) (allowNextAction : Bool)
  | monitor (n : Nat) (reply : Reply) (now : Time)
  | restart

/-- The executions `start_workspace` starts, in their order. -/
def startActions (setups : List Bool) : List Action :=
  if setups.isEmpty then [(.codingAgent, [])]
  else if setups.all id then setups.map (fun _ => (.setupScript, [])) ++ [(.codingAgent, [])]
  else [(.setupScript, setups.tail.map (fun _ => .setupScript) ++ [.codingAgent])]

def Execution.start (workspaceId sessionId : Uuid) (action : Action) : Execution :=
  { workspaceId, sessionId
    runReason := action.1
    next := action.2
    status := .running
    phase := .running }

def prevStillRunning : Option String := some "prev_still_running"

def World.setPhase (w : World) (t : Nat) (l : Launch) (phase : LaunchPhase) : World :=
  { w with launches := Function.update w.launches t (some { l with phase }) }

def World.answer (w : World) (t : Nat) (l : Launch) (answer : Except LaunchError RunNowResponse) :
    World :=
  w.setPhase t l (.answered answer)

/-- `spawn_routine_run` failed: `run_now` returns the error, `fire_routine` marks the run first. -/
def World.spawnFailed (w : World) (t : Nat) (l : Launch) (run : RoutineRun) : World :=
  match l.entry with
  | .runNow => w.answer t l (.error .spawn)
  | .fireRoutine => w.setPhase t l (.settling run)

def World.serve (w : World) (t : Nat) (l : Launch) (reply : Reply) (found : Bool)
    (setups : List Bool) : World :=
  match l.phase with
  | .received =>
    if reply ≠ .ok then w.answer t l (.error .database)
    else if found then w.setPhase t l .checking
    else w.answer t l (.error .routineNotFound)
  | .checking =>
    if reply ≠ .ok then w.answer t l (.error .database)
    else if RoutineRun.hasRunning w.runs l.routineId then
      w.setPhase t { l with blocked := true } .skipping
    else w.setPhase t l (.creating w.runs.length)
  | .skipping =>
    let run := RoutineRun.new l.runId l.routineId l.now .skipped prevStillRunning
    match reply with
    | .failed => w.answer t l (.error .database)
    | .ok =>
      { w.answer t l (.ok ⟨run, none, true, prevStillRunning⟩) with runs := w.runs ++ [run] }
    | .lost => { w.answer t l (.error .database) with runs := w.runs ++ [run] }
  | .creating _ =>
    let run := RoutineRun.new l.runId l.routineId l.now .pending none
    match reply with
    | .failed => w.answer t l (.error .database)
    | .ok => { w.setPhase t l (.spawning run) with runs := w.runs ++ [run] }
    | .lost => { w.answer t l (.error .database) with runs := w.runs ++ [run] }
  | .spawning run =>
    if reply ≠ .ok then w.spawnFailed t l run
    else
      { w.setPhase t l (.attaching run w.nextId) with
        routineWorkspaces := w.nextId :: w.routineWorkspaces
        nextId := w.nextId + 1 }
  | .attaching run workspaceId =>
    match reply with
    | .failed => w.spawnFailed t l run
    | .ok =>
      { w.setPhase t l (.marking run workspaceId) with
        runs := RoutineRun.attachWorkspace w.runs l.runId workspaceId }
    | .lost =>
      { w.spawnFailed t l run with runs := RoutineRun.attachWorkspace w.runs l.runId workspaceId }
  | .marking run workspaceId =>
    match reply with
    | .failed => w.spawnFailed t l run
    | .ok =>
      { w.setPhase t l (.starting run workspaceId) with
        runs := RoutineRun.markRunning w.runs l.runId l.now }
    | .lost => { w.spawnFailed t l run with runs := RoutineRun.markRunning w.runs l.runId l.now }
  | .starting run workspaceId =>
    if reply ≠ .ok then w.spawnFailed t l run
    else
      { w.setPhase t l (.executing run workspaceId w.nextId (startActions setups)) with
        nextId := w.nextId + 1 }
  | .executing run workspaceId sessionId actions =>
    match actions with
    | [] => w.answer t l (.ok ⟨run, some workspaceId, false, none⟩)
    | action :: actions =>
      if reply = .ok then
        { w.setPhase t l (.executing run workspaceId sessionId actions) with
          executions := w.executions ++ [Execution.start workspaceId sessionId action] }
      -- a parallel setup script that cannot be started is passed over
      else if actions.isEmpty then w.spawnFailed t l run
      else w.setPhase t l (.executing run workspaceId sessionId actions)
  | .settling run =>
    match reply with
    | .failed => w.answer t l (.error .database)
    | .ok =>
      { w.answer t l (.error .spawn) with runs := RoutineRun.markDone w.runs run.id l.now true }
    | .lost =>
      { w.answer t l (.error .database) with runs := RoutineRun.markDone w.runs run.id l.now true }
  | .answered _ => w
  | .lost => w

def Execution.shouldFinalize (x : Execution) : Bool :=
  if x.runReason = .devServer then false
  else if x.runReason = .setupScript ∧ x.next = [] then false
  else if x.status = .failed ∨ x.status = .killed then true
  else x.next = []

def World.hasRunningCodingAgentForSession (w : World) (sessionId : Uuid) : Bool :=
  w.executions.any fun x =>
    x.sessionId = sessionId ∧ x.runReason = .codingAgent ∧ x.status = .running

def World.setExecution (w : World) (n : Nat) (x : Execution) : World :=
  { w with executions := w.executions.set n x }

def World.exit (w : World) (n : Nat) (x : Execution) (reply : Reply) (outcome : Outcome)
    (allowNextAction : Bool) : World :=
  match x.phase, reply with
  | .running, .failed => w.setExecution n { x with phase := .ended }
  | .running, .lost => w.setExecution n { x with status := outcome.status, phase := .ended }
  | .running, .ok =>
    let success := outcome = .completed true
    let cleanupDone := x.runReason = .cleanupScript
    let phase :=
      if allowNextAction ∧ (success ∨ cleanupDone) ∧ x.next ≠ [] then .chaining else .finishing
    w.setExecution n { x with status := outcome.status, phase }
  | _, _ => w

/-- The exit monitor after the end of an execution was recorded. -/
def World.monitor (w : World) (n : Nat) (x : Execution) (reply : Reply) (now : Time) : World :=
  match x.phase with
  | .running => w
  | .chaining =>
    let w' := w.setExecution n { x with phase := .finishing }
    match reply, x.next with
    | .ok, reason :: next =>
      { w' with
        executions := w'.executions ++ [Execution.start x.workspaceId x.sessionId (reason, next)] }
    | _, _ => w'
  | .finishing =>
    -- a read that fails counts as a running agent
    let hasRunningAgent := reply ≠ .ok ∨ w.hasRunningCodingAgentForSession x.sessionId = true
    let phase := if x.shouldFinalize ∧ ¬ hasRunningAgent then .finalizing else .ended
    w.setExecution n { x with phase }
  | .finalizing =>
    if x.runReason = .codingAgent ∧ x.workspaceId ∈ w.routineWorkspaces ∧ reply = .ok then
      match RoutineRun.findActiveByWorkspace w.runs x.workspaceId with
      | some run => w.setExecution n { x with phase := .settling run.id }
      | none => w.setExecution n { x with phase := .ended }
    else w.setExecution n { x with phase := .ended }
  | .settling runId =>
    let w' := w.setExecution n { x with phase := .ended }
    if reply = .failed then w'
    else { w' with runs := RoutineRun.markDone w.runs runId now (x.status = .failed) }
  | .ended => w

def Launch.lose (l : Launch) : Launch :=
  match l.phase with
  | .answered _ => l
  | _ => { l with phase := .lost }

/-- Nothing survives but the tables: `cleanup_orphan_executions` fails the rows still running. -/
def Execution.orphaned (x : Execution) : Execution :=
  { x with
    status := if x.status = .running then .failed else x.status
    phase := .ended }

def World.restart (w : World) : World :=
  { w with
    launches := fun t => (w.launches t).map Launch.lose
    executions := w.executions.map Execution.orphaned }

def World.step (w : World) : Event → World
  | .request t entry routineId now =>
    match w.launches t with
    | none =>
      let phase := match entry with
        | .runNow => .received
        | .fireRoutine => .checking
      let l := ⟨entry, routineId, w.nextId, now, false, phase⟩
      { w with
        launches := Function.update w.launches t (some l)
        nextId := w.nextId + 1 }
    | some _ => w
  | .step t reply found setups =>
    match w.launches t with
    | none => w
    | some l => w.serve t l reply found setups
  | .lose t =>
    match w.launches t with
    | none => w
    | some l => { w with launches := Function.update w.launches t (some l.lose) }
  | .missed routineId scheduledAt =>
    let run := RoutineRun.new w.nextId routineId scheduledAt .skipped (some "app_offline")
    { w with
      runs := w.runs ++ [run]
      nextId := w.nextId + 1 }
  | .execute workspaceId sessionId action =>
    { w with executions := w.executions ++ [Execution.start workspaceId sessionId action] }
  | .exit n reply outcome allowNextAction =>
    match w.executions[n]? with
    | none => w
    | some x => w.exit n x reply outcome allowNextAction
  | .monitor n reply now =>
    match w.executions[n]? with
    | none => w
    | some x => w.monitor n x reply now
  | .restart => w.restart

end Cdesktop.Routines
