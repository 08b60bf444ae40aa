import Cdesktop.Container
import Cdesktop.ProgramRun

namespace Cdesktop
set_option autoImplicit true

def World.setMsgStore (w : World) (executionProcessId : Uuid) (registered : Bool) : World :=
  { w with external := { w.external with
      msgStore := Function.update w.external.msgStore executionProcessId registered } }

/-- What a start does besides its statements: it keeps the message store of the execution. -/
inductive StartOp where
  | durable (op : Op)
  | insertMsgStore (executionProcessId : Uuid)
  | removeMsgStore (executionProcessId : Uuid)

@[reducible] def StartOp.Val : StartOp → Type
  | .durable op => op.Val
  | _ => Unit

namespace ExecutionStart

abbrev Start := Program StartOp StartOp.Val ContainerError

def durable (p : Task α) : Start α := p.lift .durable fun _ => id

def insertMsgStore (executionProcessId : Uuid) : Start Unit :=
  Program.perform (StartOp.insertMsgStore executionProcessId)

def removeMsgStore (executionProcessId : Uuid) : Start Unit :=
  Program.perform (StartOp.removeMsgStore executionProcessId)

def storeRemoved (executionProcessId : Uuid) (p : Task Unit) : Start Unit := do
  let outcome ← (durable p).attempt
  match outcome with
  | .ok _ => pure ()
  | .error error => do
    removeMsgStore executionProcessId
    .throw error

/-- Spawns the child; a failing spawn also settles the row and its commands, each as far as the
database lets it. -/
def startInner (executionProcessId : Uuid) (action : ExecutorAction) : Start Unit := do
  let outcome ← (durable (call (.startExecutionInner executionProcessId action))).attempt
  match outcome with
  | .ok _ => pure ()
  | .error startError => do
    removeMsgStore executionProcessId
    let _ ← (durable (call (.completeRunningAttempt executionProcessId .failed))).attempt
    let _ ← (durable (call (.finishExecution executionProcessId false))).attempt
    .throw startError

structure Call where
  workspace : Workspace
  session : Session
  action : ExecutorAction
  runReason : ExecutionProcessRunReason
  executionProcessId : Uuid
  claimPendingCommands : Bool

def Call.program (c : Call) : Start ExecutionProcess := do
  let executionProcess ← durable
    (Container.createExecution c.workspace c.session c.runReason c.executionProcessId)
  durable (Container.attachCommands c.session c.action c.runReason c.executionProcessId
    c.claimPendingCommands)
  insertMsgStore c.executionProcessId
  storeRemoved c.executionProcessId (Container.unarchive c.workspace c.runReason)
  storeRemoved c.executionProcessId (Container.registerTurn c.executionProcessId c.action)
  startInner c.executionProcessId c.action
  storeRemoved c.executionProcessId (Container.normalizeLogs c.executionProcessId c.action)
  pure executionProcess

/-- The monitor of a child that exited before its log is looked at: the status it gives the row,
and which of its own statements are carried out. -/
structure ExitMonitor where
  status : ExecutionProcessStatus
  terminal : status ≠ .running
  exitCode : Option Int
  succeeded : Bool
  completes : Bool
  loadsContext : Bool
  finishes : Bool

/-- The monitor completes the row, finishes the commands of a coding agent, and last takes the
message store away. -/
def ExitMonitor.act (m : ExitMonitor) (c : Call) (w : World) : World :=
  let (executions, won) :=
    ExecutionProcess.completeRunningAttempt w.executions c.executionProcessId m.status m.exitCode w.now
  let completed := if m.completes then { w with executions } else w
  let finished :=
    if m.completes ∧ won ∧ m.loadsContext ∧ c.runReason = .codingAgent ∧ m.finishes then
      { completed with commands :=
          SessionCommand.finishExecution w.commands c.executionProcessId m.succeeded w.now }
    else completed
  finished.setMsgStore c.executionProcessId false

/-- What a call meets: the operations that are refused, and a child that exits at once. -/
structure Surroundings where
  refusal : Op → Option ContainerError
  exited : Option ExitMonitor

/-- What has happened by the time an operation is asked for. -/
def Surroundings.before (u : Surroundings) (c : Call) : Op → World → World
  | .getMsgStoreById _, w =>
    match u.exited with
    | some m => m.act c w
    | none => w
  | _, w => w

def Surroundings.answer (u : Surroundings) (c : Call) (op : Op) (w : World) :
    Except ContainerError op.Val × World :=
  (u.before c op w).exec op (u.refusal op)

def Surroundings.exec (u : Surroundings) (c : Call) :
    (op : StartOp) → World → Except ContainerError op.Val × World
  | .durable op, w => u.answer c op w
  | .insertMsgStore id, w => (.ok (), w.setMsgStore id true)
  | .removeMsgStore id, w => (.ok (), w.setMsgStore id false)

def startExecutionWithId (c : Call) (u : Surroundings) (w : World) :
    Except ContainerError ExecutionProcess × World :=
  c.program.eval (u.exec c) w

/-- The execution is not running, nothing is claimed for it and no store is kept, so that capacity,
the agents that run and the queues are what they were. -/
structure NothingLeft (executionProcessId : Uuid) (before after : World) : Prop where
  row : ∀ p ∈ after.executions, p.id = executionProcessId → p.status ≠ .running
  commands : ∀ cmd ∈ after.commands, SessionCommand.isBoundTo executionProcessId cmd = false
  store : after.external.msgStore executionProcessId = false
  capacity : ExecutionProcess.countRunningCodingAgents after.executions =
    ExecutionProcess.countRunningCodingAgents before.executions
  agents : ∀ sessionId, ExecutionProcess.hasRunningCodingAgentForSession after.executions sessionId =
    ExecutionProcess.hasRunningCodingAgentForSession before.executions sessionId
  queue : ∀ sessionId,
    SessionCommand.pending after.commands sessionId = SessionCommand.pending before.commands sessionId

structure Fresh (executionProcessId : Uuid) (w : World) : Prop where
  row : ∀ p ∈ w.executions, p.id ≠ executionProcessId
  commands : ∀ cmd ∈ w.commands, cmd.executionProcessId ≠ some executionProcessId
  store : w.external.msgStore executionProcessId = false

/-- Of steps that fail or not, the first that fails takes an exit that undoes everything. -/
def firstUndoes (steps : List (Bool × Bool)) : Bool := (steps.find? Prod.fst).any Prod.snd

def Surroundings.fails (u : Surroundings) (op : Op) : Bool := (u.refusal op).any op.refuses

section
variable (c : Call) (u : Surroundings) (w : World)

def Call.prompted : Bool := c.action.request.isSome

def Call.claims : Bool :=
  c.runReason = .codingAgent ∧ (c.claimPendingCommands ∨ c.prompted)

def notCreated : Bool :=
  u.fails .admitExecutionStart ∨ u.fails .ensureLaunchAdmission ∨
    u.fails (.findReposForWorkspace c.workspace.id) ∨ w.external.repositories c.workspace.id = [] ∨
    u.fails (.insertExecution c.executionProcessId c.session.id c.runReason) ∨
    (c.runReason = .codingAgent ∧
      ExecutionProcess.hasRunningCodingAgentForSession w.executions c.session.id)

def claimRefused : Bool :=
  c.action.request.any fun (body, executorConfig) =>
    let providerId := c.action.selectedProviderId.bind String.toNat?
    u.fails (.ensureClaimed c.session.id c.executionProcessId body
      { executorConfig, selectedProviderId := providerId, authBindingId := providerId,
        metered := none })

def turnRefused : Bool :=
  c.action.request.any fun (prompt, _) => u.fails (.createTurn c.executionProcessId prompt)

/-- The row is written as failed where nothing can be claimed for it. -/
def failedWritten : Bool := ¬ u.fails (.updateCompletion c.executionProcessId .failed)

def spawnSettled : Bool :=
  ¬ u.fails (.completeRunningAttempt c.executionProcessId .failed) ∧
    (c.claims → ¬ u.fails (.finishExecution c.executionProcessId false))

def monitorSettled : Bool :=
  u.exited.any fun m => m.completes ∧ (c.claims → m.loadsContext ∧ m.finishes)

/-- The exits of the call in their order: whether a step fails, and whether the exit it takes
undoes what was done before. -/
def exits : List (Bool × Bool) :=
  [ (notCreated c u w, true),
    (u.fails (.createRepoStates c.executionProcessId), false),
    (u.fails (.findExecution c.executionProcessId), false),
    (c.runReason = .codingAgent ∧ c.claimPendingCommands ∧
      u.fails (.bindExecution c.session.id c.executionProcessId), false),
    (c.runReason = .codingAgent ∧ c.claimPendingCommands ∧
      ¬ w.commands.any (SessionCommand.isUnbound c.session.id), failedWritten c u),
    (c.runReason = .codingAgent ∧ ¬ c.claimPendingCommands ∧ claimRefused c u, failedWritten c u),
    (c.runReason ≠ .archiveScript ∧ u.fails (.setArchived c.workspace.id), false),
    (turnRefused c u, false),
    (u.fails (.startExecutionInner c.executionProcessId c.action), spawnSettled c u),
    (c.prompted ∧ u.exited.isSome, monitorSettled c u) ]

/-- The first step that fails takes an exit that undoes everything. -/
def undone : Bool := firstUndoes (exits c u w)

end
end ExecutionStart
end Cdesktop
