import Cdesktop.ExecutionProcess

namespace Cdesktop
set_option autoImplicit true

inductive SessionCommandIntent where
  | «continue» | replace
deriving DecidableEq

inductive SessionCommandState where
  | pending | claimed | done | failed | cancelled
deriving DecidableEq

structure SessionCommand where
  id : Uuid
  sessionId : Uuid
  dedupeKey : Option String
  intent : SessionCommandIntent
  body : String
  config : SessionCommandConfig
  state : SessionCommandState
  executionProcessId : Option Uuid
  attemptNumber : Nat
  createdAt : Time
  finishedAt : Option Time

structure NewSessionCommand where
  sessionId : Uuid
  dedupeKey : Option String
  intent : SessionCommandIntent
  body : String
  config : SessionCommandConfig

inductive CancelSessionCommand where
  | cancelled (command : SessionCommand)
  | notFound
  | running (command : SessionCommand)

/-- The statements of `session_commands`, each on the table in rowid order. -/
abbrev Commands := List SessionCommand

namespace SessionCommand

def findById (t : Commands) (id : Uuid) : Option SessionCommand :=
  t.find? fun c => c.id = id

def cancelWith (now : Time) (c : SessionCommand) : SessionCommand :=
  { c with state := .cancelled, finishedAt := some now }

/-- The `WHERE` clause of the cancelling `UPDATE`: a command whose execution runs is refused. -/
def cancellable (ex : List ExecutionProcess) (sessionId id : Uuid) (c : SessionCommand) : Bool :=
  c.id = id ∧ c.sessionId = sessionId ∧ (c.state = .pending ∨ c.state = .claimed) ∧
    ¬ c.executionProcessId.any (ExecutionProcess.isRunning ex)

def cancelUpdate (ex : List ExecutionProcess) (t : Commands) (sessionId id : Uuid) (now : Time) :
    Commands × Option SessionCommand :=
  (Table.update (cancellable ex sessionId id) (cancelWith now) t,
    (t.find? (cancellable ex sessionId id)).map (cancelWith now))

def cancel (ex : List ExecutionProcess) (t : Commands) (sessionId id : Uuid) (now : Time) :
    Commands × CancelSessionCommand :=
  match cancelUpdate ex t sessionId id now with
  | (t', some command) => (t', .cancelled command)
  | (t', none) =>
    match findById t' id with
    | none => (t', .notFound)
    | some command =>
      if command.sessionId ≠ sessionId then (t', .notFound)
      else if command.executionProcessId.any (ExecutionProcess.isRunning ex) then
        (t', .running command)
      else (t', .cancelled command)

def ofNew (new : NewSessionCommand) (id : Uuid) (now : Time) : SessionCommand where
  id := id
  sessionId := new.sessionId
  dedupeKey := new.dedupeKey
  intent := new.intent
  body := new.body
  config := new.config
  state := .pending
  executionProcessId := none
  attemptNumber := 0
  createdAt := now
  finishedAt := none

/-- The row a keyed enqueue conflicts with on `idx_session_commands_dedupe`. -/
def dedupeConflict (t : Commands) (new : NewSessionCommand) : Option SessionCommand :=
  match new.dedupeKey with
  | none => none
  | some key => t.find? fun c => c.sessionId = new.sessionId ∧ c.dedupeKey = some key

/-- What a freshly inserted `Replace` with identifier `id` cancels. -/
def superseded (sessionId id : Uuid) (c : SessionCommand) : Bool :=
  c.sessionId = sessionId ∧ c.id ≠ id ∧ (c.state = .pending ∨ c.state = .claimed)

/-- One transaction; `none` is the primary key refusing an identifier already in the table. -/
def enqueue (t : Commands) (new : NewSessionCommand) (id : Uuid) (now : Time) :
    Option (Commands × SessionCommand × Bool) :=
  match dedupeConflict t new with
  | some existing => some (t, existing, false)
  | none =>
    if t.any (fun c => c.id = id) then none
    else
      let inserted := ofNew new id now
      let t := t ++ [inserted]
      if new.intent = .replace then
        some (Table.update (superseded new.sessionId id) (cancelWith now) t, inserted, true)
      else some (t, inserted, true)

def isPending (sessionId : Uuid) (c : SessionCommand) : Bool :=
  c.sessionId = sessionId ∧ c.state = .pending

def isClaimed (sessionId : Uuid) (c : SessionCommand) : Bool :=
  c.sessionId = sessionId ∧ c.state = .claimed

/-- Claimed, and not yet stamped with the execution it is for. -/
def isUnbound (sessionId : Uuid) (c : SessionCommand) : Bool :=
  c.sessionId = sessionId ∧ c.state = .claimed ∧ c.executionProcessId = none

def isBoundTo (executionProcessId : Uuid) (c : SessionCommand) : Bool :=
  c.executionProcessId = some executionProcessId ∧ c.state = .claimed

def pending (t : Commands) (sessionId : Uuid) : List SessionCommand :=
  t.filter (isPending sessionId)

def claim (c : SessionCommand) : SessionCommand :=
  { c with state := .claimed, attemptNumber := c.attemptNumber + 1 }

/-- The leading commands that share the configuration of the first one. -/
def headBatch : List SessionCommand → List SessionCommand
  | [] => []
  | first :: rest => (first :: rest).takeWhile fun c => c.config = first.config

def claimPending (t : Commands) (sessionId : Uuid) : Commands × List SessionCommand :=
  if t.any (isClaimed sessionId) then (t, [])
  else
    match pending t sessionId with
    | [] => (t, [])
    | first :: rest =>
      let ids := (headBatch (first :: rest)).map (·.id)
      let t := Table.update (fun c => c.id ∈ ids ∧ c.state = .pending) claim t
      (t, t.filter (isUnbound sessionId))

def hasClaimedExecution (t : Commands) (executionProcessId : Uuid) : Bool :=
  t.any (isBoundTo executionProcessId)

/-- `GROUP BY session_id ORDER BY MIN(rowid)`. -/
def pendingSessionIds (t : Commands) : List Uuid :=
  (((t.filter fun c => c.state = .pending).map (·.sessionId)).reverse.dedup).reverse

def release (c : SessionCommand) : SessionCommand :=
  { c with state := .pending, executionProcessId := none }

def releaseExecution (t : Commands) (executionProcessId : Uuid) : Commands :=
  Table.update (isBoundTo executionProcessId) release t

/-- `none` is the foreign key refusing an execution that has no row. -/
def bindExecution (ex : List ExecutionProcess) (t : Commands) (sessionId executionProcessId : Uuid) :
    Option (Commands × Nat) :=
  if (t.any (isUnbound sessionId)) ∧ ¬ ex.any (fun p => p.id = executionProcessId) then none
  else
    some (Table.update (isUnbound sessionId)
      (fun c => { c with executionProcessId := some executionProcessId }) t,
      t.countP (isUnbound sessionId))

def releaseUnbound (t : Commands) (sessionId : Uuid) : Commands × Nat :=
  (Table.update (isUnbound sessionId) (fun c => { c with state := .pending }) t,
    t.countP (isUnbound sessionId))

def requeueable (ex : List ExecutionProcess) (executionProcessId : Uuid) (c : SessionCommand) : Bool :=
  c.executionProcessId = some executionProcessId ∧ (c.state = .claimed ∨ c.state = .failed) ∧
    ExecutionProcess.isTerminal ex executionProcessId

def requeue (c : SessionCommand) : SessionCommand :=
  { c with state := .pending, executionProcessId := none, finishedAt := none }

def requeueExecution (ex : List ExecutionProcess) (t : Commands) (executionProcessId : Uuid) :
    Commands × Nat :=
  (Table.update (requeueable ex executionProcessId) requeue t,
    t.countP (requeueable ex executionProcessId))

def requeueKilledExecution (ex : List ExecutionProcess) (t : Commands) (executionProcessId : Uuid) :
    Commands × Nat :=
  requeueExecution ex t executionProcessId

/-- The row a direct start writes for its own prompt unless the execution already has one; `none`
is the foreign key again. -/
def ensureClaimed (ex : List ExecutionProcess) (t : Commands)
    (id sessionId executionProcessId : Uuid) (body : String) (config : SessionCommandConfig)
    (now : Time) : Option Commands :=
  if t.any (fun c => c.executionProcessId = some executionProcessId) then some t
  else if ex.any (fun p => p.id = executionProcessId) then
    some (t ++ [{ id, sessionId, dedupeKey := none, intent := .continue, body, config,
                  state := .claimed, executionProcessId := some executionProcessId,
                  attemptNumber := 1, createdAt := now, finishedAt := none }])
  else none

def finish (succeeded : Bool) (now : Time) (c : SessionCommand) : SessionCommand :=
  { c with state := if succeeded then .done else .failed, finishedAt := some now }

def finishExecution (t : Commands) (executionProcessId : Uuid) (succeeded : Bool) (now : Time) :
    Commands :=
  Table.update (isBoundTo executionProcessId) (finish succeeded now) t

def cancelPending (t : Commands) (sessionId : Uuid) (now : Time) : Commands :=
  Table.update (isPending sessionId) (cancelWith now) t

end SessionCommand
end Cdesktop
