import Cdesktop.Config
import Cdesktop.Table

namespace Cdesktop
set_option autoImplicit true

inductive ExecutionProcessStatus where
  | running | completed | failed | killed
deriving DecidableEq

inductive ExecutionProcessRunReason where
  | setupScript | cleanupScript | archiveScript | codingAgent | devServer
deriving DecidableEq

inductive ExecutionOutcomeClass where
  | quotaExhausted | authExpired | authInvalid | modelUnavailable | rateLimitedTransient
  | networkTransient | userStopped | taskFailed | unknown
deriving DecidableEq

structure ExecutionProcess where
  id : Uuid
  sessionId : Uuid
  runReason : ExecutionProcessRunReason
  status : ExecutionProcessStatus
  exitCode : Option Int
  startedAt : Time
  completedAt : Option Time

namespace ExecutionProcess

/-- The predicate of the partial index `idx_one_running_coding_agent_per_session`. -/
def runningCodingAgent (p : ExecutionProcess) : Bool :=
  p.status = .running ∧ p.runReason = .codingAgent

def findById (t : List ExecutionProcess) (id : Uuid) : Option ExecutionProcess :=
  t.find? fun p => p.id = id

/-- Rowid order stands for `ORDER BY created_at`. -/
def findRunning (t : List ExecutionProcess) : List ExecutionProcess :=
  t.filter fun p => p.status = .running

def hasRunningCodingAgentForSession (t : List ExecutionProcess) (sessionId : Uuid) : Bool :=
  t.any fun p => p.sessionId = sessionId ∧ p.runningCodingAgent

def countRunningCodingAgents (t : List ExecutionProcess) : Nat :=
  t.countP runningCodingAgent

/-- The `INSERT` of `ExecutionProcess::create`, refused by the primary key and by the
unique index over running coding agents. -/
def insert (t : List ExecutionProcess) (p : ExecutionProcess) : Option (List ExecutionProcess) :=
  if t.any (fun q => q.id = p.id) ∨
      (p.runningCodingAgent ∧ hasRunningCodingAgentForSession t p.sessionId) then none
  else some (t ++ [p])

def completedAt? (status : ExecutionProcessStatus) (now : Time) : Option Time :=
  if status = .running then none else some now

def updateCompletion (t : List ExecutionProcess) (id : Uuid) (status : ExecutionProcessStatus)
    (exitCode : Option Int) (now : Time) : List ExecutionProcess :=
  Table.update (fun p => p.id = id)
    (fun p => { p with status, exitCode, completedAt := completedAt? status now }) t

/-- Exact-once completion: only a running row is written, and the writer learns whether it won. -/
def completeRunningAttempt (t : List ExecutionProcess) (id : Uuid)
    (status : ExecutionProcessStatus) (exitCode : Option Int) (now : Time) :
    List ExecutionProcess × Bool :=
  (Table.update (fun p => p.id = id ∧ p.status = .running)
    (fun p => { p with status, exitCode, completedAt := completedAt? status now }) t,
    t.any fun p => p.id = id ∧ p.status = .running)

def isRunning (t : List ExecutionProcess) (id : Uuid) : Bool :=
  t.any fun p => p.id = id ∧ p.status = .running

def isTerminal (t : List ExecutionProcess) (id : Uuid) : Bool :=
  t.any fun p => p.id = id ∧ p.status ≠ .running

end ExecutionProcess
end Cdesktop
