import Cdesktop.MeteredApproval

namespace Cdesktop
set_option autoImplicit true

inductive SessionError where
  | notFound
  | executorMismatch (expected actual : String)
deriving DecidableEq

inductive WorkspaceError where
  | workspaceNotFound
deriving DecidableEq

inductive ContainerError where
  | infrastructureUnavailable (message : String)
  | gitServiceError
  | sqlx
  | executorError
  | worktree
  | workspace (error : WorkspaceError)
  | session (error : SessionError)
  | executionProcess
  | io
  | hostAdmission
  | maintenanceDrain
  | codingAgentCapacity
  | other (message : String)
deriving DecidableEq

structure Session where
  id : Uuid
  workspaceId : Uuid
  executor : Option String
  agentWorkingDir : Option String

structure Workspace where
  id : Uuid

inductive ExecutorActionType where
  | codingAgentInitialRequest (prompt : String) (executorConfig : ExecutorConfig)
      (workingDir : Option String)
  | codingAgentFollowUpRequest (prompt sessionId : String) (executorConfig : ExecutorConfig)
      (workingDir : Option String)
  | reviewRequest (prompt : String) (executorConfig : ExecutorConfig)
  | scriptRequest

structure ExecutorAction where
  typ : ExecutorActionType
  selectedProviderId : Option String
  selectedModelId : Option String

/-- The prompt of an action with the configuration it runs under; a script has none. -/
def ExecutorAction.request (a : ExecutorAction) : Option (String × ExecutorConfig) :=
  match a.typ with
  | .codingAgentInitialRequest prompt executorConfig _ => some (prompt, executorConfig)
  | .codingAgentFollowUpRequest prompt _ executorConfig _ => some (prompt, executorConfig)
  | .reviewRequest prompt executorConfig => some (prompt, executorConfig)
  | .scriptRequest => none

/-- What the dispatcher reads of the rest of the system; any of it may change at any moment. -/
structure External where
  sessions : List Session
  workspaces : List Workspace
  repositories : Uuid → List Uuid
  latestExecutorProfile : Uuid → Option ExecutorProfileId
  latestSessionInfo : Uuid → Option String
  resolveForLaunch : SessionCommandConfig → ExecutorConfig → ExecutorConfig
  msgStore : Uuid → Bool

/-- The durable state. `nextId` stands for the identifiers `Uuid::new_v4` has not drawn yet. -/
structure World where
  commands : Commands
  executions : List ExecutionProcess
  approvals : Approvals
  external : External
  now : Time
  nextId : Uuid

/-- One SQL statement or transaction of the dispatcher, or one call of something outside it. -/
inductive Op where
  | hasRunningCodingAgentForSession (sessionId : Uuid)
  | pending (sessionId : Uuid)
  | findLatestForCommand (sessionCommandId : Uuid)
  | ensurePending (sessionCommandId : Uuid) (accountAlias : Option String)
  | ensureBlocked (sessionCommandId : Uuid) (accountAlias : Option String)
  | releaseUnbound (sessionId : Uuid)
  | newUuid
  | claimPending (sessionId : Uuid)
  | consumeApproval (sessionCommandId executionProcessId : Uuid)
  | recordAutoStart (sessionCommandId executionProcessId : Uuid) (accountAlias : Option String)
  | findSession (id : Uuid)
  | findWorkspace (id : Uuid)
  | ensureContainerExists (workspaceId : Uuid)
  | latestExecutorProfileForSession (sessionId : Uuid)
  | updateExecutor (sessionId : Uuid) (executor : String)
  | resolveForLaunch (config : SessionCommandConfig) (executorConfig : ExecutorConfig)
  | findLatestSessionInfo (sessionId : Uuid)
  | countRunningCodingAgents
  | admitExecutionStart
  | ensureLaunchAdmission
  | findReposForWorkspace (workspaceId : Uuid)
  | insertExecution (id sessionId : Uuid) (runReason : ExecutionProcessRunReason)
  | createRepoStates (executionProcessId : Uuid)
  | findExecution (id : Uuid)
  | bindExecution (sessionId executionProcessId : Uuid)
  | updateCompletion (id : Uuid) (status : ExecutionProcessStatus)
  | ensureClaimed (sessionId executionProcessId : Uuid) (body : String)
      (config : SessionCommandConfig)
  | setArchived (workspaceId : Uuid)
  | createTurn (executionProcessId : Uuid) (prompt : String)
  | updateSelectedModelProvider (executionProcessId : Uuid) (modelId providerId : String)
  | startExecutionInner (executionProcessId : Uuid) (action : ExecutorAction)
  | completeRunningAttempt (id : Uuid) (status : ExecutionProcessStatus)
  | finishExecution (executionProcessId : Uuid) (succeeded : Bool)
  | getMsgStoreById (executionProcessId : Uuid)
  | findRunning
  | releaseExecution (executionProcessId : Uuid)
  | requeueKilledExecution (executionProcessId : Uuid)
  | pendingSessionIds

@[reducible] def Op.Val : Op → Type
  | .hasRunningCodingAgentForSession _ => Bool
  | .pending _ => List SessionCommand
  | .findLatestForCommand _ => Option MeteredApproval
  | .releaseUnbound _ => Nat
  | .newUuid => Uuid
  | .claimPending _ => List SessionCommand
  | .consumeApproval .. => Bool
  | .findSession _ => Option Session
  | .findWorkspace _ => Option Workspace
  | .latestExecutorProfileForSession _ => Option ExecutorProfileId
  | .resolveForLaunch .. => ExecutorConfig
  | .findLatestSessionInfo _ => Option String
  | .countRunningCodingAgents => Nat
  | .findReposForWorkspace _ => List Uuid
  | .findExecution _ => Option ExecutionProcess
  | .bindExecution .. => Nat
  | .completeRunningAttempt .. => Bool
  | .getMsgStoreById _ => Bool
  | .findRunning => List ExecutionProcess
  | .requeueKilledExecution _ => Nat
  | .pendingSessionIds => List Uuid
  | _ => Unit

/-- The errors an operation can be refused with: a drain, a full process table, a failing
container or child, and for a statement the database. -/
def Op.refuses : Op → ContainerError → Bool
  | .newUuid, _ => false
  | .getMsgStoreById _, _ => false
  | .admitExecutionStart, e => e = .maintenanceDrain
  | .ensureLaunchAdmission, .infrastructureUnavailable _ => true
  | .ensureLaunchAdmission, _ => false
  | .resolveForLaunch .., .other _ => true
  | .resolveForLaunch .., _ => false
  | .latestExecutorProfileForSession _, e => e = .executionProcess
  | .ensureContainerExists _, e => e ≠ .codingAgentCapacity
  | .startExecutionInner .., e => e ≠ .codingAgentCapacity
  | _, e => e = .sqlx

namespace World

def findSession (w : World) (id : Uuid) : Option Session :=
  w.external.sessions.find? fun s => s.id = id

def updateExecutor (w : World) (id : Uuid) (executor : String) : World :=
  { w with external := { w.external with
      sessions := Table.update (fun s => s.id = id)
        (fun s => { s with executor := some executor }) w.external.sessions } }

/-- What an operation does when nothing outside the database refuses it. -/
def perform (w : World) : (op : Op) → Except ContainerError op.Val × World
  | .hasRunningCodingAgentForSession s =>
    (.ok (ExecutionProcess.hasRunningCodingAgentForSession w.executions s), w)
  | .pending s => (.ok (SessionCommand.pending w.commands s), w)
  | .findLatestForCommand c => (.ok (MeteredApproval.findLatestForCommand w.approvals c), w)
  | .ensurePending c accountAlias =>
    (.ok (), { w with
      approvals := MeteredApproval.ensurePending w.approvals w.nextId c accountAlias w.now
      nextId := w.nextId + 1 })
  | .ensureBlocked c accountAlias =>
    (.ok (), { w with
      approvals := MeteredApproval.ensureBlocked w.approvals w.nextId c accountAlias w.now
      nextId := w.nextId + 1 })
  | .releaseUnbound s =>
    let (commands, released) := SessionCommand.releaseUnbound w.commands s
    (.ok released, { w with commands })
  | .newUuid => (.ok w.nextId, { w with nextId := w.nextId + 1 })
  | .claimPending s =>
    let (commands, claimed) := SessionCommand.claimPending w.commands s
    (.ok claimed, { w with commands })
  | .consumeApproval c e =>
    let (approvals, consumed) := MeteredApproval.consumeApproval w.approvals c e
    (.ok consumed, { w with approvals })
  | .recordAutoStart c e accountAlias =>
    (.ok (), { w with
      approvals := MeteredApproval.recordAutoStart w.approvals w.nextId c e accountAlias w.now
      nextId := w.nextId + 1 })
  | .findSession s => (.ok (w.findSession s), w)
  | .findWorkspace id => (.ok (w.external.workspaces.find? fun x => x.id = id), w)
  | .ensureContainerExists _ => (.ok (), w)
  | .latestExecutorProfileForSession s => (.ok (w.external.latestExecutorProfile s), w)
  | .updateExecutor s executor => (.ok (), w.updateExecutor s executor)
  | .resolveForLaunch config executorConfig =>
    (.ok (w.external.resolveForLaunch config executorConfig), w)
  | .findLatestSessionInfo s => (.ok (w.external.latestSessionInfo s), w)
  | .countRunningCodingAgents => (.ok (ExecutionProcess.countRunningCodingAgents w.executions), w)
  | .admitExecutionStart => (.ok (), w)
  | .ensureLaunchAdmission => (.ok (), w)
  | .findReposForWorkspace id => (.ok (w.external.repositories id), w)
  | .insertExecution e s runReason =>
    match ExecutionProcess.insert w.executions
        { id := e, sessionId := s, runReason, status := .running, exitCode := none,
          startedAt := w.now, completedAt := none } with
    | some executions => (.ok (), { w with executions })
    | none => (.error .sqlx, w)
  | .createRepoStates _ => (.ok (), w)
  | .findExecution e => (.ok (ExecutionProcess.findById w.executions e), w)
  | .bindExecution s e =>
    match SessionCommand.bindExecution w.executions w.commands s e with
    | some (commands, bound) => (.ok bound, { w with commands })
    | none => (.error .sqlx, w)
  | .updateCompletion e status =>
    (.ok (), { w with
      executions := ExecutionProcess.updateCompletion w.executions e status none w.now })
  | .ensureClaimed s e body config =>
    match SessionCommand.ensureClaimed w.executions w.commands w.nextId s e body config w.now with
    | some commands => (.ok (), { w with commands, nextId := w.nextId + 1 })
    | none => (.error .sqlx, w)
  | .setArchived _ => (.ok (), w)
  | .createTurn .. => (.ok (), w)
  | .updateSelectedModelProvider .. => (.ok (), w)
  | .startExecutionInner .. => (.ok (), w)
  | .completeRunningAttempt e status =>
    let (executions, won) :=
      ExecutionProcess.completeRunningAttempt w.executions e status none w.now
    (.ok won, { w with executions })
  | .finishExecution e succeeded =>
    (.ok (), { w with commands := SessionCommand.finishExecution w.commands e succeeded w.now })
  | .getMsgStoreById e => (.ok (w.external.msgStore e), w)
  | .findRunning => (.ok (ExecutionProcess.findRunning w.executions), w)
  | .releaseExecution e =>
    (.ok (), { w with commands := SessionCommand.releaseExecution w.commands e })
  | .requeueKilledExecution e =>
    let (commands, requeued) :=
      SessionCommand.requeueKilledExecution w.executions w.commands e
    (.ok requeued, { w with commands })
  | .pendingSessionIds => (.ok (SessionCommand.pendingSessionIds w.commands), w)

def exec (op : Op) (refusal : Option ContainerError) (w : World) :
    Except ContainerError op.Val × World :=
  match refusal with
  | some e => if op.refuses e then (.error e, w) else w.perform op
  | none => w.perform op

/-- What happens without the scheduler lock: requests, responses, completions of children. -/
inductive Act where
  | enqueue (new : NewSessionCommand)
  | cancel (sessionId id : Uuid)
  | cancelPending (sessionId : Uuid)
  | respond (id : Uuid) (approved : Bool) (reason : Option String)
  | requeueExecution (executionProcessId : Uuid)
  | completeRunningAttempt (id : Uuid) (status : ExecutionProcessStatus) (exitCode : Option Int)
  | finishExecution (executionProcessId : Uuid) (succeeded : Bool)
  | external (external : External)
  | tick

def act (w : World) : Act → World
  | .enqueue new =>
    match SessionCommand.enqueue w.commands new w.nextId w.now with
    | some (commands, _, _) => { w with commands, nextId := w.nextId + 1 }
    | none => { w with nextId := w.nextId + 1 }
  | .cancel s id => { w with commands := (SessionCommand.cancel w.executions w.commands s id w.now).1 }
  | .cancelPending s => { w with commands := SessionCommand.cancelPending w.commands s w.now }
  | .respond id approved reason =>
    { w with approvals := (MeteredApproval.respond w.approvals id approved reason w.now).1 }
  | .requeueExecution e =>
    { w with commands := (SessionCommand.requeueExecution w.executions w.commands e).1 }
  | .completeRunningAttempt e status exitCode =>
    { w with executions :=
        (ExecutionProcess.completeRunningAttempt w.executions e status exitCode w.now).1 }
  | .finishExecution e succeeded =>
    { w with commands := SessionCommand.finishExecution w.commands e succeeded w.now }
  | .external external => { w with external }
  | .tick => { w with now := w.now + 1 }

end World
end Cdesktop
