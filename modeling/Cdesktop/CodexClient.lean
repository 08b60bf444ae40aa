import Cdesktop.ExecutionProcess
import Cdesktop.RelayRefresh
import Cdesktop.Run

/-! The client of the Codex app server: the loop that reads its messages, and what it sends. -/

namespace Cdesktop.Codex
open RelayRefresh (trim)
set_option autoImplicit true

structure NormalizedExecutionOutcome where
  outcomeClass : ExecutionOutcomeClass
  providerCode : Option String
deriving DecidableEq

inductive ExecutorExitResult where
  | success
  | failure (outcome : Option NormalizedExecutionOutcome)
deriving DecidableEq

inductive CodexErrorInfo where
  | usageLimitExceeded | sessionBudgetExceeded | unauthorized | serverOverloaded
  | internalServerError | contextWindowExceeded
  | httpConnectionFailed (httpStatusCode : Option Nat)
  | responseStreamConnectionFailed (httpStatusCode : Option Nat)
  | responseStreamDisconnected (httpStatusCode : Option Nat)
  | responseTooManyFailedAttempts (httpStatusCode : Option Nat)
  | other

def fromHttpStatus : Option Nat → NormalizedExecutionOutcome
  | some 401 => ⟨.authExpired, some "http_401"⟩
  | some 403 => ⟨.authInvalid, some "http_403"⟩
  | some 404 => ⟨.modelUnavailable, some "http_404"⟩
  | some 429 => ⟨.rateLimitedTransient, some "http_429"⟩
  | some code =>
    if 500 ≤ code ∧ code ≤ 599 then ⟨.networkTransient, some ("http_" ++ toString code)⟩
    else ⟨.networkTransient, none⟩
  | none => ⟨.networkTransient, none⟩

def normalizedTurnFailure : Option CodexErrorInfo → NormalizedExecutionOutcome
  | some .usageLimitExceeded => ⟨.quotaExhausted, some "usage_limit_exceeded"⟩
  | some .sessionBudgetExceeded => ⟨.quotaExhausted, some "session_budget_exceeded"⟩
  | some .unauthorized => ⟨.authExpired, some "unauthorized"⟩
  | some .serverOverloaded => ⟨.networkTransient, some "server_overloaded"⟩
  | some .internalServerError => ⟨.networkTransient, some "internal_server_error"⟩
  | some (.httpConnectionFailed code) | some (.responseStreamConnectionFailed code)
  | some (.responseStreamDisconnected code) | some (.responseTooManyFailedAttempts code) =>
    fromHttpStatus code
  | some .contextWindowExceeded => ⟨.taskFailed, some "context_window_exceeded"⟩
  | some .other | none => ⟨.unknown, none⟩

inductive ApprovalScope where
  | once | session
deriving DecidableEq

inductive ApprovalStatus where
  | pending
  | approved (scope : ApprovalScope)
  | denied (reason : Option String)
  | timedOut
deriving DecidableEq

inductive ApprovalDecision where
  | acceptForSession | accept | cancel | decline

def denialFeedback (reason : Option String) : Option String :=
  (reason.map trim).filter (!·.isEmpty)

def approvalDecision (autoApprove : Bool) (status : ApprovalStatus) :
    ApprovalDecision × Option String :=
  if autoApprove then (.acceptForSession, none)
  else
    match status with
    | .approved .session => (.acceptForSession, none)
    | .approved .once => (.accept, none)
    | .denied reason =>
      match denialFeedback reason with
      | some feedback => (.cancel, some feedback)
      | none => (.decline, none)
    | .timedOut => (.decline, none)
    | .pending => (.decline, none)

def commandExecutionDecision := approvalDecision

def fileChangeDecision := approvalDecision

structure Settings where
  autoApprove : Bool
  planMode : Bool
  commitReminder : Bool
  commitReminderPrompt : String
  approvals : Bool

inductive Origin where
  | prompt
  | feedback
  | plan
  | reminder
deriving DecidableEq

inductive SendState where
  | waiting | sent | failed
deriving DecidableEq

/-- A `turn/start` request of the client, which a task of its own sends. -/
structure Turn where
  requestId : Nat
  origin : Origin
  input : String
  state : SendState

inductive TurnStatus where
  | completed | interrupted | failed | inProgress
deriving DecidableEq

structure Completed where
  turnId : String
  status : TurnStatus
  error : Option CodexErrorInfo

inductive ServerRequest where
  | commandExecutionRequestApproval
  | fileChangeRequestApproval
  | toolRequestUserInput
  /-- It is answered at once, with an empty result or as not supported. -/
  | answered
  /-- It belongs to an older version of the protocol. -/
  | deprecated

inductive Message where
  /-- With the id of the turn, where it answers a `turn/start`. -/
  | response (requestId : Nat) (turnId : Option String)
  | error (requestId : Nat)
  | request (request : ServerRequest)
  | planCompleted (itemId : String)
  /-- With the turn, where its parameters can be read. -/
  | turnCompleted (completed : Option Completed)
  | notification
  | nonJson

structure Io where
  logged : Bool
  allowed : Bool
  decision : Option ApprovalStatus
  answered : Bool
  uncommitted : String

inductive End where
  | finished
  | failed
  /-- At the end of the stream, or by an error of the read. -/
  | stream
  | cancelled

structure World where
  threadId : Option String
  resolvedModel : Bool
  pendingFeedback : List String
  pendingPlan : Option String
  commitReminderSent : Bool
  exitOutcome : Option NormalizedExecutionOutcome
  cancelled : Bool
  nextRequestId : Nat
  turns : List Turn
  /-- The reasons that were sent to the server, and all that the user has given. -/
  delivered : List String
  denials : List String
  started : List (Nat × String)
  completions : List (String × TurnStatus)
  ended : Option End
  signals : List ExecutorExitResult

def World.new : World :=
  { threadId := none, resolvedModel := false, pendingFeedback := [], pendingPlan := none
    commitReminderSent := false, exitOutcome := none, cancelled := false, nextRequestId := 1
    turns := [], delivered := [], denials := [], started := [], completions := [], ended := none
    signals := [] }

inductive Flow where
  | goOn | finished | failed

def userFeedback (message : String) : String := "User feedback: " ++ message

def planFeedback (message : String) : String := "User feedback on the plan: " ++ message

def World.spawnTurnStart (origin : Origin) (input : String) (w : World) : World :=
  { w with
    turns := w.turns ++ [⟨w.nextRequestId, origin, input, .waiting⟩]
    nextRequestId := w.nextRequestId + 1 }

def World.enqueueFeedback (message : String) (w : World) : World :=
  if (trim message).isEmpty then w
  else { w with pendingFeedback := w.pendingFeedback ++ [message] }

/-- The messages are sent as new turns; without a thread they are dropped. -/
def World.flushPendingFeedback (w : World) : World × Bool :=
  let messages := (w.pendingFeedback.map trim).filter (!·.isEmpty)
  match w.pendingFeedback, w.threadId with
  | [], _ => (w, false)
  | _, none => ({ w with pendingFeedback := [] }, false)
  | _, some _ =>
    (messages.foldl (fun w message => w.spawnTurnStart .feedback (userFeedback message))
      { w with pendingFeedback := [] }, !messages.isEmpty)

def World.enforceStorageLimits (io : Io) (w : World) : World × Bool :=
  if io.allowed then (w, true)
  else if w.threadId = none then (w, false)
  else
    ({ w with exitOutcome := some ⟨.taskFailed, some "local_storage_limit"⟩, cancelled := true },
      false)

def World.deny (feedback : Option String) (input : String → String) (w : World) : World :=
  match feedback with
  | some feedback => { w with denials := w.denials ++ [input feedback] }
  | none => w

/-- `request_tool_approval`; `none` is an error. -/
def requestToolApproval (settings : Settings) (io : Io) : Option ApprovalStatus :=
  if settings.autoApprove then some (.approved .once)
  else if settings.approvals then io.decision else none

/-- The decision is logged and goes back to the server, and its reason into the queue. -/
def World.answer (io : Io) (feedback : Option String) (w : World) : World × Flow :=
  let w := w.deny feedback userFeedback
  if io.answered then (feedback.elim w fun message => w.enqueueFeedback message, .goOn)
  else (w, .failed)

def World.handleServerRequest (settings : Settings) (io : Io) (request : ServerRequest)
    (w : World) : World × Flow :=
  match request with
  | .commandExecutionRequestApproval =>
    match requestToolApproval settings io with
    | some status => w.answer io (commandExecutionDecision settings.autoApprove status).2
    | none => (w, .failed)
  | .fileChangeRequestApproval =>
    match requestToolApproval settings io with
    | some status => w.answer io (fileChangeDecision settings.autoApprove status).2
    | none => (w, .failed)
  | .toolRequestUserInput =>
    (w, if settings.approvals && io.decision.isSome && io.answered then .goOn else .failed)
  | .answered => (w, if io.answered then .goOn else .failed)
  | .deprecated => (w, .failed)

def ApprovalStatus.feedback : ApprovalStatus → Option String
  | .denied reason => denialFeedback reason
  | .pending | .approved _ | .timedOut => none

def World.decidePlan (status : ApprovalStatus) (w : World) : World × Flow :=
  match status with
  | .approved _ =>
    if w.resolvedModel then (w.spawnTurnStart .plan "Implement the plan.", .goOn)
    else (w, .failed)
  | .denied reason =>
    match denialFeedback reason with
    | some message =>
      if w.resolvedModel then (w.spawnTurnStart .feedback (planFeedback message), .goOn)
      else (w, .failed)
    | none => (w, .finished)
  | .pending | .timedOut => (w, .finished)

def World.handlePlanCompleted (settings : Settings) (io : Io) (w : World) : World × Flow :=
  match if settings.approvals then io.decision else none with
  | none => (w, .failed)
  | some status =>
    let w := w.deny status.feedback planFeedback
    if io.answered then
      if w.threadId.isSome then w.decidePlan status else (w, .finished)
    else (w, .failed)

/-- The commit reminder, where no feedback keeps the run alive. -/
def World.remind (settings : Settings) (io : Io) (w : World) : World × Flow :=
  if settings.commitReminder && !w.commitReminderSent then
    let w := { w with commitReminderSent := true }
    if !io.uncommitted.isEmpty && w.threadId.isSome then
      (w.spawnTurnStart .reminder (settings.commitReminderPrompt ++ "\n" ++ io.uncommitted), .goOn)
    else (w, .finished)
  else (w, .finished)

def World.turnCompleted (settings : Settings) (io : Io) (completed : Option Completed)
    (w : World) : World × Flow :=
  let (w, keepAlive) :=
    match completed.map (·.status) with
    | some .interrupted => w.flushPendingFeedback
    | some .failed =>
      ({ w with exitOutcome := some (normalizedTurnFailure (completed.bind (·.error))) }, false)
    | _ => (w, false)
  if settings.planMode && w.pendingPlan.isSome then
    { w with pendingPlan := none }.handlePlanCompleted settings io
  else if keepAlive then (w, .goOn)
  else w.remind settings io

/-- The callbacks, after the line is logged and the storage limits are checked. -/
def World.handle (settings : Settings) (io : Io) (message : Message) (w : World) : World × Flow :=
  match message with
  | .request request => w.handleServerRequest settings io request
  | .planCompleted itemId =>
    (if settings.planMode then { w with pendingPlan := some itemId } else w, .goOn)
  | .turnCompleted completed => w.turnCompleted settings io completed
  | .response .. | .error _ | .notification | .nonJson => (w, .goOn)

def World.callback (settings : Settings) (io : Io) (message : Message) (w : World) :
    World × Flow :=
  if io.logged then
    match w.enforceStorageLimits io with
    | (w, true) => w.handle settings io message
    | (w, false) => (w, .failed)
  else (w, .failed)

def World.observe (message : Message) (w : World) : World :=
  match message with
  | .response requestId (some turnId) => { w with started := w.started ++ [(requestId, turnId)] }
  | .turnCompleted (some completed) =>
    if completed.status = .inProgress then w
    else { w with completions := w.completions ++ [(completed.turnId, completed.status)] }
  | _ => w

def finalExitResult : Option NormalizedExecutionOutcome → ExecutorExitResult
  | some outcome => .failure (some outcome)
  | none => .success

def World.leave (how : End) (w : World) : World :=
  { w with
    ended := some how, signals := w.signals ++ [finalExitResult w.exitOutcome]
    exitOutcome := none }

def conclude : World × Flow → World
  | (w, .goOn) => w
  | (w, .finished) => w.leave .finished
  | (w, .failed) => w.leave .failed

inductive Event where
  /-- `register_session`, with the resolved model. -/
  | register (threadId : String)
  | start (input : String)
  | send (i : Nat) (ok : Bool)
  | receive (message : Message) (io : Io)
  | endOfStream
  | cancel
  | leave

def World.send (i : Nat) (ok : Bool) (w : World) : World :=
  match w.turns[i]? with
  | some turn =>
    if turn.state = .waiting then
      { w with
        turns := w.turns.set i { turn with state := if ok then .sent else .failed }
        delivered :=
          if ok ∧ turn.origin = .feedback then w.delivered ++ [turn.input] else w.delivered }
    else w
  | none => w

def World.act (settings : Settings) (w : World) : Event → World
  | .register threadId =>
    { w with threadId := some threadId, resolvedModel := true }.flushPendingFeedback.1
  | .start input => w.spawnTurnStart .prompt input
  | .send i ok => w.send i ok
  | .receive message io => conclude ((w.observe message).callback settings io message)
  | .endOfStream => w.leave .stream
  | .cancel => { w with cancelled := true }
  | .leave => if w.cancelled then w.leave .cancelled else w

/-- Nothing is followed behind the end of the loop. -/
def World.step (settings : Settings) (w : World) (event : Event) : World :=
  if w.ended.isSome then w else w.act settings event

def World.HasCompleted (w : World) (turn : Turn) : Prop :=
  turn.state = .sent ∧ ∃ started ∈ w.started, started.1 = turn.requestId ∧
    ∃ completion ∈ w.completions, completion.1 = started.2

def World.HasFailed (w : World) (turn : Turn) : Prop :=
  ∃ started ∈ w.started, started.1 = turn.requestId ∧ (started.2, .failed) ∈ w.completions

instance (w : World) (turn : Turn) : Decidable (w.HasCompleted turn) :=
  inferInstanceAs (Decidable (_ ∧ ∃ _ ∈ _, _))

instance (w : World) (turn : Turn) : Decidable (w.HasFailed turn) :=
  inferInstanceAs (Decidable (∃ _ ∈ _, _))

end Cdesktop.Codex
