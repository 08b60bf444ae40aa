import Cdesktop.ExecutionProcess
import Cdesktop.LogCodec
import Cdesktop.Run

/-! An execution from its start to its end: the start under the scheduler lock, the recorder of its
output, the exit monitor, and the calls that stop it. -/

namespace Cdesktop.ExecutionStop
open Table (Reply)
open ExecutionLog (CaptureOutcome)
set_option autoImplicit true

inductive OutcomeBindingScope where
  | account | route | task
deriving DecidableEq

structure NormalizedExecutionOutcome where
  cls : ExecutionOutcomeClass
  providerCode : Option String
  retryAfterSeconds : Option Int
  resetsAt : Option Time
  bindingScope : Option OutcomeBindingScope
  safeMessage : String
deriving DecidableEq

def NormalizedExecutionOutcome.new (cls : ExecutionOutcomeClass) : NormalizedExecutionOutcome :=
  let (bindingScope, safeMessage) := match cls with
    | .quotaExhausted => (some .account, "Subscription quota exhausted")
    | .authExpired => (some .account, "Authentication expired; reauthentication required")
    | .authInvalid => (some .account, "Authentication rejected")
    | .modelUnavailable => (some .route, "Requested model unavailable")
    | .rateLimitedTransient => (some .account, "Rate limited; retry later")
    | .networkTransient => (some .route, "Transient provider or network failure")
    | .userStopped => (some .task, "Stopped by user")
    | .taskFailed => (some .task, "Task failed")
    | .unknown => (none, "Unclassified failure")
  { cls, providerCode := none, retryAfterSeconds := none, resetsAt := none
    bindingScope, safeMessage }

inductive ExecutorExitResult where
  | success
  | failure (outcome : Option NormalizedExecutionOutcome)
deriving DecidableEq

/-- What `try_wait` found: the exit code, `none` where a signal ended the process, or an error. -/
inductive ExitStatus where
  | exited (code : Option Int)
  | error
deriving DecidableEq

inductive NormalizedProcessOutcome where
  | success (exitCode : Int)
  | failure (exitCode : Option Int) (outcome : Option NormalizedExecutionOutcome)
  | requestedStop (status : ExecutionProcessStatus) (outcome : Option NormalizedExecutionOutcome)
deriving DecidableEq

namespace NormalizedProcessOutcome

def ofRequest (status : ExecutionProcessStatus) : NormalizedProcessOutcome :=
  .requestedStop status (if status = .killed then some (.new .userStopped) else none)

/-- `none` where the executor dropped its end of the channel. -/
def fromExecutorSignal : Option ExecutorExitResult → NormalizedProcessOutcome
  | some .success => .success 0
  | some (.failure outcome) => .failure (some 1) outcome
  | none => .failure (some 1) none

def recordingFailed : NormalizedProcessOutcome :=
  .failure none (some { NormalizedExecutionOutcome.new .taskFailed with
    providerCode := some "local_recording_unavailable" })

def fromExitStatusResult : ExitStatus → NormalizedProcessOutcome
  | .exited code => if code = some 0 then .success 0 else .failure (some (code.getD (-1))) none
  | .error => .failure none none

def statusAndExitCode : NormalizedProcessOutcome → ExecutionProcessStatus × Option Int
  | .success exitCode => (.completed, some exitCode)
  | .failure exitCode _ => (.failed, exitCode)
  | .requestedStop status _ => (status, if status = .completed then some 0 else none)

def normalizedOutcome : NormalizedProcessOutcome → Option NormalizedExecutionOutcome
  | .success _ => none
  | .failure _ outcome => outcome
  | .requestedStop _ outcome => outcome

end NormalizedProcessOutcome

/-- The row, and the row of `execution_process_outcomes` where there is one. -/
structure Row where
  status : ExecutionProcessStatus
  exitCode : Option Int
  completedAt : Option Time
  outcome : Option NormalizedExecutionOutcome

/-- The start of the execution. It holds the scheduler lock from `admitted` on. -/
inductive Start where
  | waiting
  | admitted
  | created
  | spawned
  /-- The child's entry is to be inserted and the table of running executions is write-locked. -/
  | registering
  | registered
  | failing (outcome : NormalizedExecutionOutcome)
  | explaining
  | returned
deriving DecidableEq

inductive Captured where
  | outcome (outcome : CaptureOutcome)
  | panicked
deriving DecidableEq

inductive Recorder where
  | absent
  | recording
  /-- It failed, and stops the process. -/
  | stopping
  | ended (captured : Captured)
deriving DecidableEq

inductive Monitor where
  | absent
  | waiting
  | signalled (outcome : NormalizedProcessOutcome)
  | exited (outcome : NormalizedProcessOutcome)
  | draining (outcome : NormalizedProcessOutcome)
  | captured (outcome : NormalizedProcessOutcome) (recordingFailed : Bool)
  | deciding (outcome : NormalizedProcessOutcome) (allowNextAction : Bool)
  | following (allowNextAction : Bool) (exitCode : Option Int)
  | releasing
  | finished
  | panicked
deriving DecidableEq

inductive StopPhase where
  | lookup
  | admission
  | recheck
  | orphan
  | requeue
  | record
  | check
  | cancelling
  | graceful
  | killing
  | awaiting
  | reading
  | returned (ok : Bool)
  | abandoned
deriving DecidableEq

structure Stop where
  status : ExecutionProcessStatus
  phase : StopPhase
deriving DecidableEq

inductive Writer where
  | start | monitor
  | stop (i : Nat)

inductive Holder where
  | start
  | stop (i : Nat)
  | other
deriving DecidableEq

inductive Act where
  | requested (i : Nat) (status : ExecutionProcessStatus)
  | left (writer : Writer) (row : Row)
  | nextAction
  | sealFailed

/-- What is fixed for the execution: whether its executor has a cancel token, its run reason, and
whether its action has a next one. -/
structure Execution where
  hasCancel : Bool
  runReason : ExecutionProcessRunReason
  hasNext : Bool

structure World where
  schedulerLock : Option Holder
  start : Start
  row : Option Row
  alive : Bool
  exit : Option ExitStatus
  registered : Bool
  cancelled : Bool
  requestedStop : Option ExecutionProcessStatus
  monitor : Monitor
  recorder : Recorder
  /-- The log owner and, once it is sealed, its outcome. -/
  owner : Option (Option CaptureOutcome)
  stops : List Stop
  acts : List Act

def World.new : World :=
  { schedulerLock := none, start := .waiting, row := none, alive := false, exit := none
    registered := false, cancelled := false, requestedStop := none, monitor := .absent
    recorder := .absent, owner := none, stops := [], acts := [] }

/-- `complete_running_attempt`. Whether the write was made is not known where the reply is lost. -/
def World.complete (writer : Writer) (reply : Reply) (now : Time)
    (status : ExecutionProcessStatus) (exitCode : Option Int)
    (outcome : Option NormalizedExecutionOutcome) (w : World) : World :=
  match reply, w.row with
  | .failed, _ => w
  | _, none => w
  | _, some row =>
    if row.status = .running then
      let row : Row :=
        { status, exitCode
          completedAt := ExecutionProcess.completedAt? status now
          outcome := row.outcome.or outcome }
      { w with row := some row, acts := w.acts ++ [.left writer row] }
    else w

def World.wins (reply : Reply) (w : World) : Bool :=
  reply = .ok ∧ w.row.any fun row => row.status = .running

/-- `update_completion` at the start, whatever the row's status is. -/
def World.update (reply : Reply) (now : Time) (status : ExecutionProcessStatus)
    (exitCode : Option Int) (w : World) : World :=
  match reply, w.row with
  | .failed, _ => w
  | _, none => w
  | _, some row =>
    let row : Row :=
      { row with status, exitCode, completedAt := ExecutionProcess.completedAt? status now }
    { w with row := some row, acts := w.acts ++ [.left .start row] }

def World.returnStart (w : World) : World := { w with start := .returned, schedulerLock := none }

inductive StartMove where
  | go
  /-- An error that leaves the row as it is. -/
  | fail
  | refuse (reply : Reply) (now : Time)
  /-- `start_execution_inner` fails, with a child left where it was not killed. -/
  | failInner (outcome : NormalizedExecutionOutcome) (killed : Bool)
  | complete (reply : Reply) (now : Time)
  /-- The log owner gets the error's text, unless it cannot be written. -/
  | explain (written : Bool)
deriving DecidableEq

def World.startStep (move : StartMove) (w : World) : World :=
  match w.start, move with
  | .waiting, .go =>
    if w.schedulerLock = none then
      { w with start := .admitted, schedulerLock := some .start }
    else w
  | .admitted, .go => { w with start := .created, row := some ⟨.running, none, none, none⟩ }
  | .admitted, .fail => w.returnStart
  | .created, .fail => w.returnStart
  | .created, .refuse reply now => (w.update reply now .failed none).returnStart
  | .created, .failInner outcome _ => { w with start := .failing outcome }
  | .created, .go => { w with start := .spawned, alive := true }
  | .spawned, .failInner outcome killed =>
    { w with start := .failing outcome, alive := w.alive && !killed }
  | .spawned, .go =>
    { w with
      start := .registering, owner := some none, recorder := .recording, monitor := .waiting }
  | .registering, .go => { w with start := .registered, registered := true }
  | .registered, .go => w.returnStart
  | .failing outcome, .complete reply now =>
    { w.complete .start reply now .failed none (some outcome) with start := .explaining }
  | .explaining, .explain written =>
    World.returnStart { w with owner := if written then w.owner.or (some none) else w.owner }
  | _, _ => w

inductive RecorderMove where
  | complete
  /-- Recording failed. The seal says so unless it could not be written. -/
  | fail (sealed : Bool)
  | stop (killed : Bool)
  | panic
deriving DecidableEq

/-- `capture_raw_logs`. On a failure the registered process is cancelled and killed. -/
def World.recorderStep (move : RecorderMove) (w : World) : World :=
  match w.recorder, move with
  | .recording, .complete =>
    { w with recorder := .ended (.outcome .complete), owner := some (some .complete) }
  | .recording, .fail true =>
    { w with recorder := .stopping, owner := some (some .unavailable) }
  | .recording, .fail false =>
    { w with recorder := .stopping, acts := w.acts ++ [.sealFailed] }
  | .recording, .panic =>
    { w with recorder := .ended .panicked, acts := w.acts ++ [.sealFailed] }
  | .stopping, .stop killed =>
    if w.start = .registering then w
    else
      { w with
        recorder := .ended (.outcome .unavailable)
        cancelled := w.cancelled || w.registered
        alive := w.alive && !(w.registered && killed) }
  | _, _ => w

inductive MonitorMove where
  | go
  | signal (result : Option ExecutorExitResult)
  | exit
  | kill (killed : Bool)
  | complete (reply : Reply) (now : Time)
  | follow (loaded : Bool)
  | panic
deriving DecidableEq

/-- What the monitor writes once it holds the lock of `requested_stop`. -/
def publishedOutcome (outcome : NormalizedProcessOutcome) (recordingFailed : Bool)
    (requestedStop : Option ExecutionProcessStatus) : NormalizedProcessOutcome :=
  if recordingFailed then .recordingFailed
  else match requestedStop with
    | some status => .ofRequest status
    | none => outcome

def World.monitorStep (x : Execution) (move : MonitorMove) (w : World) : World :=
  match w.monitor, move with
  | .absent, _ => w
  | .finished, _ => w
  | _, .panic => { w with monitor := .panicked }
  | .waiting, .signal result => { w with monitor := .signalled (.fromExecutorSignal result) }
  | .waiting, .exit =>
    match w.exit with
    | some status => { w with monitor := .exited (.fromExitStatusResult status) }
    | none => w
  | .signalled outcome, .kill killed =>
    { w with monitor := .exited outcome, alive := w.alive && !killed }
  | .exited outcome, .kill killed =>
    { w with monitor := .draining outcome, alive := w.alive && !killed }
  | .draining outcome, .go =>
    match w.recorder with
    | .ended captured =>
      { w with monitor := .captured outcome (captured ≠ .outcome .complete) }
    | _ => w
  | .captured outcome recordingFailed, .go =>
    { w with
      monitor := .deciding (publishedOutcome outcome recordingFailed w.requestedStop)
        (!recordingFailed && w.requestedStop.isNone) }
  | .deciding outcome allowNextAction, .complete reply now =>
    let (status, exitCode) := outcome.statusAndExitCode
    { w.complete .monitor reply now status exitCode outcome.normalizedOutcome with
      monitor := if w.wins reply then .following allowNextAction exitCode else .releasing }
  | .following allowNextAction exitCode, .follow loaded =>
    let success := w.row.any (fun row => row.status = .completed) ∧ exitCode = some 0
    let cleanupDone := x.runReason = .cleanupScript ∧ w.row.any fun row => row.status ≠ .running
    { w with
      monitor := .releasing
      acts := w.acts ++ if loaded ∧ allowNextAction ∧ (success ∨ cleanupDone) ∧ x.hasNext
        then [.nextAction] else [] }
  | .releasing, .go =>
    if w.start = .registering then w else { w with monitor := .finished, registered := false }
  | _, _ => w

def World.setStop (i : Nat) (s : Stop) (phase : StopPhase) (w : World) : World :=
  { w with stops := w.stops.set i { s with phase } }

/-- What a stop meets when it goes on: the answer of the database, and whether the kill worked. -/
structure StopIo where
  reply : Reply
  now : Time
  killed : Bool

/-- `stop_execution` between two of its awaits. -/
def World.stopStep (x : Execution) (i : Nat) (s : Stop) (io : StopIo) (w : World) : World :=
  match s.phase with
  | .lookup =>
    if w.start = .registering then w
    else if w.registered then w.setStop i s .record
    else w.setStop i s .admission
  | .admission =>
    if w.schedulerLock = none then
      World.setStop i s .recheck { w with schedulerLock := some (.stop i) }
    else w
  | .recheck =>
    World.setStop i s (if w.registered then .record else .orphan) { w with schedulerLock := none }
  | .orphan =>
    (w.complete (.stop i) io.reply io.now s.status none none).setStop i s
      (if io.reply = .ok then if s.status = .killed then .requeue else .returned true
      else .returned false)
  | .requeue => w.setStop i s (.returned (io.reply = .ok))
  | .record =>
    match w.monitor with
    | .deciding _ _ => w
    | _ =>
      World.setStop i s .check { w with
        requestedStop := w.requestedStop.or (some s.status)
        acts := w.acts ++ [.requested i s.status] }
  | .check =>
    if w.monitor = .finished then w.setStop i s .reading
    else if x.hasCancel then w.setStop i s .cancelling
    else w.setStop i s .killing
  | .cancelling => World.setStop i s .graceful { w with cancelled := true }
  | .graceful =>
    match w.monitor with
    | .finished => w.setStop i s .reading
    | .panicked => w.setStop i s .killing
    | _ => w
  | .killing =>
    if io.killed then World.setStop i s .awaiting { w with alive := false }
    else w.setStop i s (.returned false)
  | .awaiting =>
    match w.monitor with
    | .finished => w.setStop i s .reading
    | .panicked => w.setStop i s (.returned false)
    | _ => w
  | .reading =>
    w.setStop i s (.returned (io.reply = .ok ∧ w.row.any fun row => row.status ≠ .running))
  | .returned _ => w
  | .abandoned => w

/-- The caller goes away. The lock it may hold is released. -/
def World.abandon (i : Nat) (s : Stop) (w : World) : World :=
  match s.phase with
  | .returned _ => w
  | .recheck => World.setStop i s .abandoned { w with schedulerLock := none }
  | _ => w.setStop i s .abandoned

inductive Event where
  | start (move : StartMove)
  | recorder (move : RecorderMove)
  | monitor (move : MonitorMove)
  /-- The process ends, or `try_wait` fails. -/
  | exits (status : ExitStatus)
  | call (status : ExecutionProcessStatus)
  | stop (i : Nat) (io : StopIo)
  | timeout (i : Nat)
  | abandon (i : Nat)
  /-- Another task takes the scheduler lock, or gives it back. -/
  | lock
  | unlock

def World.exec (x : Execution) (w : World) : Event → World
  | .start move => w.startStep move
  | .recorder move => w.recorderStep move
  | .monitor move => w.monitorStep x move
  | .exits status =>
    if w.monitor = .absent then w
    else { w with alive := w.alive && status = .error, exit := some status }
  | .call status =>
    if w.row = none then w
    else
      { w with stops := w.stops ++ [⟨status,
        if status = .running then .returned false else .lookup⟩] }
  | .stop i io =>
    match w.stops[i]? with
    | some s => w.stopStep x i s io
    | none => w
  | .timeout i =>
    match w.stops[i]? with
    | some s => if s.phase = .graceful then w.setStop i s .killing else w
    | none => w
  | .abandon i =>
    match w.stops[i]? with
    | some s => w.abandon i s
    | none => w
  | .lock => if w.schedulerLock = none then { w with schedulerLock := some .other } else w
  | .unlock => if w.schedulerLock = some .other then { w with schedulerLock := none } else w

end Cdesktop.ExecutionStop
