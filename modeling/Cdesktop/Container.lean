import Cdesktop.Machine
import Cdesktop.World

namespace Cdesktop
set_option autoImplicit true

abbrev Task := Program Op Op.Val ContainerError

def call (op : Op) : Task op.Val := Program.perform op

namespace Container

/-- Decide whether the head-of-queue command may launch, opening the question if none is open. -/
def gate (command : SessionCommand) : Task MeteredGateDecision :=
  match command.config.metered with
  | none => pure .proceed
  | some metered =>
    match metered.policy with
    | .auto => pure .proceed
    | .ask => do
      let latest ← call (.findLatestForCommand command.id)
      match MeteredApproval.decision latest with
      | some decision => pure decision
      | none => do
        let _ ← call (.ensurePending command.id metered.accountAlias)
        pure .awaitApproval
    | .never => do
      let _ ← call (.ensureBlocked command.id metered.accountAlias)
      pure .blocked

/-- The gate of the head of the queue, before anything is claimed. -/
def headGate (sessionId : Uuid) : Task MeteredGateDecision := do
  let pending ← call (.pending sessionId)
  match pending.head? with
  | none => pure .proceed
  | some head => gate head

/-- Metered bookkeeping for the winning claim; `false` holds the launch back. -/
def recordLaunch (first : SessionCommand) (executionId : Uuid) : Task Bool :=
  match first.config.metered with
  | none => pure true
  | some metered =>
    match metered.policy with
    | .ask => do
      let _ ← call (.consumeApproval first.id executionId)
      pure true
    | .auto => do
      let _ ← call (.recordAutoStart first.id executionId metered.accountAlias)
      pure true
    | .never => pure false

def promptOf (commands : List SessionCommand) : String :=
  "\n\n".intercalate (commands.map (·.body))

/-- The executor a session is held to, by its latest execution or else by its own column. -/
def expectedExecutor (latest : Option ExecutorProfileId) (session : Session) : Option String :=
  (latest.map fun profile => profile.executor.toString).or session.executor

def checkExecutor (latest : Option ExecutorProfileId) (session : Session) (actual : String) :
    Task Unit :=
  match expectedExecutor latest session with
  | some expected =>
    if expected ≠ actual then .throw (.session (.executorMismatch expected actual)) else pure ()
  | none => pure ()

/-- A session without an executor takes the one of its first launch. -/
def adoptExecutor (session : Session) (actual : String) : Task Unit :=
  if session.executor = none then call (.updateExecutor session.id actual) else pure ()

/-- The action of a queued prompt, following up where the agent has a session to resume. -/
def promptAction (config : SessionCommandConfig) (prompt : String) (session : Session)
    (executorConfig : ExecutorConfig) (info : Option String) : ExecutorAction :=
  let workingDir := session.agentWorkingDir.filter fun dir => dir ≠ ""
  { typ := match info with
      | some agentSessionId =>
        .codingAgentFollowUpRequest prompt agentSessionId executorConfig workingDir
      | none => .codingAgentInitialRequest prompt executorConfig workingDir
    selectedProviderId := config.selectedProviderId.map toString
    selectedModelId := executorConfig.modelId }

/-- Everything a launch needs before its admission. -/
def prepareLaunch (sessionId : Uuid) (config : SessionCommandConfig) (prompt : String) :
    Task (Workspace × Session × ExecutorAction) := do
  let found ← call (.findSession sessionId)
  let session ← Program.orThrow (.session .notFound) found
  let found ← call (.findWorkspace session.workspaceId)
  let workspace ← Program.orThrow (.workspace .workspaceNotFound) found
  let _ ← call (.ensureContainerExists workspace.id)
  let latest ← call (.latestExecutorProfileForSession session.id)
  checkExecutor latest session config.executorConfig.profileId.executor.toString
  adoptExecutor session config.executorConfig.profileId.executor.toString
  let executorConfig ← call (.resolveForLaunch config config.executorConfig)
  let info ← call (.findLatestSessionInfo session.id)
  pure (workspace, session, promptAction config prompt session executorConfig info)

def admitCodingAgent (maxRunning : Nat) : Task Unit := do
  let running ← call .countRunningCodingAgents
  if maxRunning ≤ running then .throw .codingAgentCapacity else pure ()

def admitStart (maxRunning : Nat) (runReason : ExecutionProcessRunReason) : Task Unit :=
  if runReason = .codingAgent then admitCodingAgent maxRunning else pure ()

/-- Admission and the committed execution row: the `INSERT`, its repository states, and the row
read back. -/
def createExecution (workspace : Workspace) (session : Session)
    (runReason : ExecutionProcessRunReason) (executionProcessId : Uuid) :
    Task ExecutionProcess := do
  let _ ← call .admitExecutionStart
  let _ ← call .ensureLaunchAdmission
  let repositories ← call (.findReposForWorkspace workspace.id)
  if repositories = [] then .throw (.other "Workspace has no repositories configured")
  else do
    let _ ← call (.insertExecution executionProcessId session.id runReason)
    let _ ← call (.createRepoStates executionProcessId)
    let created ← call (.findExecution executionProcessId)
    Program.orThrow .sqlx created

/-- Stamps the claimed batch, refusing a launch that finds none of it left. -/
def bindClaimed (sessionId executionProcessId : Uuid) : Task Unit := do
  let bound ← call (.bindExecution sessionId executionProcessId)
  if bound = 0 then do
    let _ ← call (.updateCompletion executionProcessId .failed)
    .throw (.other s!"No claimed session command for execution attempt {executionProcessId}")
  else pure ()

def claimPrompt (sessionId executionProcessId : Uuid) (action : ExecutorAction) : Task Unit :=
  match action.request with
  | none => pure ()
  | some (body, executorConfig) => do
    let providerId := action.selectedProviderId.bind String.toNat?
    let config : SessionCommandConfig :=
      { executorConfig, selectedProviderId := providerId, authBindingId := providerId,
        metered := none }
    let outcome ← (call (.ensureClaimed sessionId executionProcessId body config)).attempt
    match outcome with
    | .ok _ => pure ()
    | .error error => do
      let _ ← call (.updateCompletion executionProcessId .failed)
      .throw error

/-- A coding agent runs for commands: the batch claimed for it, or its own prompt. -/
def attachCommands (session : Session) (action : ExecutorAction)
    (runReason : ExecutionProcessRunReason) (executionProcessId : Uuid)
    (claimPendingCommands : Bool) : Task Unit :=
  if runReason = .codingAgent then
    if claimPendingCommands then bindClaimed session.id executionProcessId
    else claimPrompt session.id executionProcessId action
  else pure ()

def unarchive (workspace : Workspace) (runReason : ExecutionProcessRunReason) : Task Unit :=
  if runReason = .archiveScript then pure () else call (.setArchived workspace.id)

def registerTurn (executionProcessId : Uuid) (action : ExecutorAction) : Task Unit :=
  match action.request with
  | none => pure ()
  | some (prompt, _) => do
    let _ ← call (.createTurn executionProcessId prompt)
    match action.selectedModelId, action.selectedProviderId with
    | some modelId, some providerId =>
      if modelId ≠ "" ∧ providerId ≠ "" then do
        let _ ← (call (.updateSelectedModelProvider executionProcessId modelId providerId)).attempt
        pure ()
      else pure ()
    | _, _ => pure ()

/-- Spawns the child; a spawn that fails settles its own execution and commands. -/
def spawnChild (executionProcessId : Uuid) (action : ExecutorAction) : Task Unit := do
  let outcome ← (call (.startExecutionInner executionProcessId action)).attempt
  match outcome with
  | .ok _ => pure ()
  | .error startError => do
    let _ ← (call (.completeRunningAttempt executionProcessId .failed)).attempt
    let _ ← (call (.finishExecution executionProcessId false)).attempt
    .throw startError

def normalizeLogs (executionProcessId : Uuid) (action : ExecutorAction) : Task Unit :=
  match action.request with
  | none => pure ()
  | some _ => do
    let present ← call (.getMsgStoreById executionProcessId)
    if present = true then pure ()
    else
      .throw (.other
        s!"MsgStore missing for execution {executionProcessId} during normalization setup")

/-- The part of a launch after its commands are attached. -/
def launchChild (workspace : Workspace) (action : ExecutorAction)
    (runReason : ExecutionProcessRunReason) (executionProcess : ExecutionProcess)
    (executionProcessId : Uuid) : Task ExecutionProcess := do
  unarchive workspace runReason
  registerTurn executionProcessId action
  spawnChild executionProcessId action
  normalizeLogs executionProcessId action
  pure executionProcess

/-- Called while the scheduler lock is held. -/
def startExecutionWithId (workspace : Workspace) (session : Session) (action : ExecutorAction)
    (runReason : ExecutionProcessRunReason) (executionProcessId : Uuid)
    (claimPendingCommands : Bool) : Task ExecutionProcess := do
  let executionProcess ← createExecution workspace session runReason executionProcessId
  attachCommands session action runReason executionProcessId claimPendingCommands
  launchChild workspace action runReason executionProcess executionProcessId

/-- A start of its own: a prompt, a script, or the next action of a finished execution. -/
def startExecution (maxRunning : Nat) (workspace : Workspace) (session : Session)
    (action : ExecutorAction) (runReason : ExecutionProcessRunReason) :
    Task ExecutionProcess := do
  admitStart maxRunning runReason
  let executionProcessId ← call .newUuid
  startExecutionWithId workspace session action runReason executionProcessId false

def launchClaimed (maxRunning : Nat) (sessionId executionId : Uuid)
    (commands : List SessionCommand) (config : SessionCommandConfig) :
    Task ExecutionProcess := do
  let (workspace, session, action) ←
    prepareLaunch sessionId config (promptOf (SessionCommand.headBatch commands))
  admitCodingAgent maxRunning
  startExecutionWithId workspace session action .codingAgent executionId true

def releaseClaim (sessionId : Uuid) : Task (Option ExecutionProcess) := do
  let _ ← call (.releaseUnbound sessionId)
  pure none

/-- A full host puts the batch back; any other failure fails the commands of the execution. -/
def settle (sessionId executionId : Uuid) :
    Except ContainerError ExecutionProcess → Task (Option ExecutionProcess)
  | .ok executionProcess => pure (some executionProcess)
  | .error .codingAgentCapacity => releaseClaim sessionId
  | .error error => do
    let _ ← call (.finishExecution executionId false)
    .throw error

/-- A non-empty claim: its gate once more, its bookkeeping, its launch. -/
def dispatchClaimed (maxRunning : Nat) (sessionId executionId : Uuid) (first : SessionCommand)
    (commands : List SessionCommand) : Task (Option ExecutionProcess) := do
  let decision ← gate first
  if decision = .proceed then do
    let recorded ← recordLaunch first executionId
    if recorded = true then do
      let result ← (launchClaimed maxRunning sessionId executionId commands first.config).attempt
      settle sessionId executionId result
    else releaseClaim sessionId
  else releaseClaim sessionId

/-- Leftovers of an earlier attempt go back to the queue before the head batch is claimed. -/
def claimAndDispatch (maxRunning : Nat) (sessionId : Uuid) : Task (Option ExecutionProcess) := do
  let _ ← call (.releaseUnbound sessionId)
  let executionId ← call .newUuid
  let commands ← call (.claimPending sessionId)
  match commands with
  | [] => pure none
  | first :: rest => dispatchClaimed maxRunning sessionId executionId first (first :: rest)

def dispatchPendingCommands (maxRunning : Nat) (sessionId : Uuid) :
    Task (Option ExecutionProcess) := do
  let running ← call (.hasRunningCodingAgentForSession sessionId)
  if running = true then pure none
  else do
    let decision ← headGate sessionId
    if decision = .proceed then claimAndDispatch maxRunning sessionId else pure none

def cleanupOrphanExecutions : Task Unit := do
  let running ← call .findRunning
  Program.forEach (fun process => do
    let outcome ← (call (.updateCompletion process.id .failed)).attempt
    match outcome with
    | .error _ => pure ()
    | .ok _ => do
      let _ ← call (.releaseExecution process.id)
      pure ()) running

/-- A freshly started server owns no child processes. -/
def terminalizeInheritedExecutions : Task Unit := do
  let running ← call .findRunning
  Program.forEach (fun process =>
    if process.runReason ≠ .codingAgent then pure ()
    else do
      let _ ← call (.updateCompletion process.id .killed)
      let _ ← call (.requeueKilledExecution process.id)
      pure ()) running

/-- One dispatch a session, until one launches nothing on a full host. -/
def dispatchEach (maxRunning : Nat) : List Uuid → Task Unit
  | [] => pure ()
  | sessionId :: rest => do
    let outcome ← (dispatchPendingCommands maxRunning sessionId).attempt
    match outcome with
    | .ok none => do
      let running ← call .countRunningCodingAgents
      if maxRunning ≤ running then pure () else dispatchEach maxRunning rest
    | .ok (some _) => dispatchEach maxRunning rest
    | .error _ => dispatchEach maxRunning rest

def dispatchAllPendingCommands (maxRunning : Nat) : Task Unit := do
  let sessionIds ← call .pendingSessionIds
  dispatchEach maxRunning sessionIds

/-- The recovery a server runs before it serves. -/
def startup (maxRunning : Nat) : Task Unit := do
  cleanupOrphanExecutions
  terminalizeInheritedExecutions
  dispatchAllPendingCommands maxRunning

end Container

inductive Entry where
  | dispatchPendingCommands (sessionId : Uuid)
  | startExecution (workspace : Workspace) (session : Session) (action : ExecutorAction)
      (runReason : ExecutionProcessRunReason)
  | startup

def Entry.program (maxRunning : Nat) : Entry → Task (Option ExecutionProcess)
  | .dispatchPendingCommands sessionId => Container.dispatchPendingCommands maxRunning sessionId
  | .startExecution workspace session action runReason => do
    let started ← Container.startExecution maxRunning workspace session action runReason
    pure (some started)
  | .startup => do
    Container.startup maxRunning
    pure none

/-- One server process over the durable state, crashing and restarting at any point. -/
def container (maxRunning : Nat) :
    System World Op Op.Val ContainerError World.Act Entry (Option ExecutionProcess) where
  exec op refusal w := w.exec op refusal
  act a w := w.act a
  program := Entry.program maxRunning

end Cdesktop
