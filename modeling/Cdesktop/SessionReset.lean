import Cdesktop.ExecutionProcess
import Cdesktop.Run
import Mathlib.Data.List.Sort

/-! A session that is put back to one of its processes, while its agents write, end, and are
followed by the commands that wait for them. -/

namespace Cdesktop.SessionReset
open Table (Reply)
set_option autoImplicit true

structure ExecutionProcessRepoState where
  repoId : Uuid
  beforeHeadCommit : Option String
  afterHeadCommit : Option String
deriving DecidableEq

structure Process where
  id : Uuid
  sessionId : Uuid
  runReason : ExecutionProcessRunReason
  status : ExecutionProcessStatus
  createdAt : Time
  dropped : Bool
  repoStates : List ExecutionProcessRepoState
deriving DecidableEq

/-- The commit that a repository was recorded at when the process was created. -/
def beforeHeadCommit (states : List ExecutionProcessRepoState) (repo : Uuid) : Option String :=
  (states.find? fun state => state.repoId = repo).bind (·.beforeHeadCommit)

structure Workspace where
  useWorktree : Bool
  containerRef : Bool
  repos : List Uuid
  repos_nodup : repos.Nodup

structure Worktree where
  head : String
  uncommitted : Nat
  untracked : Nat
deriving DecidableEq

def Worktree.clean (tree : Worktree) : Bool := tree.uncommitted = 0 ∧ tree.untracked = 0

structure ResetRequest where
  sessionId : Uuid
  targetProcessId : Uuid
  performGitReset : Bool
  forceWhenDirty : Bool

/-- Where `reset_session_to_process` is. The repositories and sessions that are left come last. -/
inductive Phase where
  | asked
  | ensuring (states : List ExecutionProcessRepoState)
  | checking (states : List ExecutionProcessRepoState) (todo : List Uuid)
  | repos (states : List ExecutionProcessRepoState) (isDirty : Bool) (todo : List Uuid)
  /-- `reconcile_worktree_to_commit`, from the read of the head on. -/
  | head (states : List ExecutionProcessRepoState) (isDirty : Bool) (repo : Uuid) (oid : String)
    (todo : List Uuid)
  | reset (states : List ExecutionProcessRepoState) (isDirty : Bool) (repo : Uuid) (oid : String)
    (todo : List Uuid)
  | clean (states : List ExecutionProcessRepoState) (isDirty : Bool) (repo : Uuid)
    (todo : List Uuid)
  | sessions
  | listing (todo : List Uuid)
  | stopping (processes : List Process) (todo : List Uuid)
  | dropping
  | returned (ok : Bool)
deriving DecidableEq

/-- What was done, in the order in which it was. -/
inductive Act where
  | wrote (repo : Uuid)
  | looked (repo : Uuid)
  /-- `is_container_clean` answered without a look at the worktrees. -/
  | unchecked
  | gitFailed (repo : Uuid)
  /-- `clean -fd` left untracked directories that are repositories themselves. -/
  | kept (repo : Uuid)
  /-- The processes of a session could not be listed, or the sessions themselves. -/
  | listFailed (session : Option Uuid)
  | stopFailed (id : Uuid)

structure World where
  sessions : List Uuid
  processes : List Process
  /-- The sessions of the commands that wait, in their order. -/
  pending : List Uuid
  worktrees : Uuid → Option Worktree
  phase : Phase
  acts : List Act

/-- `SELECT created_at FROM execution_processes WHERE id = …` -/
def createdAt (processes : List Process) (id : Uuid) : Option Time :=
  (processes.find? fun p => p.id = id).map (·.createdAt)

/-- `ORDER BY created_at DESC LIMIT 1` -/
def latest : List Process → Option Process
  | [] => none
  | p :: processes =>
    match latest processes with
    | some q => if p.createdAt < q.createdAt then some q else some p
    | none => some p

def findPrevAfterHeadCommit (processes : List Process) (sessionId boundaryProcessId : Uuid)
    (repo : Uuid) : Option String :=
  let earlier := processes.filter fun p =>
    p.sessionId = sessionId ∧ (p.repoStates.any fun state => state.repoId = repo) ∧
      (createdAt processes boundaryProcessId).any fun boundary => p.createdAt < boundary
  (latest earlier).bind fun p =>
    (p.repoStates.find? fun state => state.repoId = repo).bind (·.afterHeadCommit)

def dropAtAndAfter (sessionId boundaryProcessId : Uuid) (processes : List Process) :
    List Process :=
  Table.update
    (fun p => p.sessionId = sessionId ∧ p.dropped = false ∧
      (createdAt processes boundaryProcessId).any fun boundary => boundary ≤ p.createdAt)
    (fun p => { p with dropped := true }) processes

/-- `find_by_session_id`, without the dropped ones. -/
def findBySessionId (processes : List Process) (sessionId : Uuid) : List Process :=
  List.insertionSort (fun p q => p.createdAt ≤ q.createdAt)
    (processes.filter fun p => p.sessionId = sessionId ∧ p.dropped = false)

/-- The write of `complete_running_attempt`, by its status. -/
def finish (id : Uuid) (status : ExecutionProcessStatus) (processes : List Process) :
    List Process :=
  Table.update (fun p => p.id = id ∧ p.status = .running) (fun p => { p with status }) processes

inductive Move where
  | go
  | load (reply : Reply)
  /-- Worktrees that are missing or broken are made anew. -/
  | ensure (reply : Reply) (created : Uuid → Worktree)
  | check (counted : Bool)
  | target (reply : Reply)
  | head (read : Bool)
  /-- With what is untracked at the commit, where git did it. -/
  | reset (untracked : Option Nat)
  | clean (left : Option Nat)
  | stop (ok : Bool)
  | drop (reply : Reply)

def World.setTree (repo : Uuid) (tree : Option Worktree) (w : World) : World :=
  { w with worktrees := fun r => if r = repo then tree else w.worktrees r }

/-- `reconcile_worktree_to_commit` up to the reset: whether there is to be one. -/
def needsReset (x : ResetRequest) (head : Option String) (oid : String) (isDirty : Bool) : Bool :=
  (head ≠ some oid ∨ isDirty) ∧ x.performGitReset ∧ ¬(isDirty ∧ ¬x.forceWhenDirty)

/-- `reset_session_to_process` between two of its awaits. -/
def World.resetStep (ws : Workspace) (x : ResetRequest) (move : Move) (w : World) : World :=
  match w.phase, move with
  | .asked, .load reply =>
    match w.processes.find? fun p => p.id = x.targetProcessId with
    | none => { w with phase := .returned false }
    | some process =>
      if reply = .ok ∧ process.sessionId = x.sessionId ∧ x.sessionId ∈ w.sessions then
        { w with
          phase := if ws.useWorktree then .ensuring process.repoStates else .sessions }
      else { w with phase := .returned false }
  | .ensuring states, .ensure reply created =>
    let w := { w with
      worktrees := fun repo =>
        if repo ∈ ws.repos then some ((w.worktrees repo).getD (created repo))
        else w.worktrees repo }
    if reply = .ok then
      if ws.containerRef then { w with phase := .checking states ws.repos }
      else { w with phase := .checking states [], acts := w.acts ++ [.unchecked] }
    else { w with phase := .returned false }
  | .checking states [], .go => { w with phase := .repos states false ws.repos }
  | .checking states (repo :: todo), .check counted =>
    match w.worktrees repo with
    | none => { w with phase := .checking states todo }
    | some tree =>
      if counted = false then
        { w with phase := .repos states false ws.repos, acts := w.acts ++ [.unchecked] }
      else if tree.clean then
        { w with phase := .checking states todo, acts := w.acts ++ [.looked repo] }
      else { w with phase := .repos states true ws.repos }
  | .repos _ _ [], .go => { w with phase := .sessions }
  | .repos states isDirty (repo :: todo), .target reply =>
    match beforeHeadCommit states repo with
    | some oid => { w with phase := .head states isDirty repo oid todo }
    | none =>
      if reply = .ok then
        match findPrevAfterHeadCommit w.processes x.sessionId x.targetProcessId repo with
        | some oid => { w with phase := .head states isDirty repo oid todo }
        | none => { w with phase := .repos states isDirty todo }
      else { w with phase := .returned false }
  | .head states isDirty repo oid todo, .head read =>
    let head := if read then (w.worktrees repo).map (·.head) else none
    if needsReset x head oid isDirty then
      { w with phase := .reset states isDirty repo oid todo }
    else { w with phase := .repos states isDirty todo }
  | .reset states isDirty repo oid todo, .reset untracked =>
    match w.worktrees repo, untracked with
    | some tree, some untracked =>
      if x.forceWhenDirty then
        World.setTree repo (some ⟨oid, 0, untracked⟩) { w with
          phase := .clean states isDirty repo todo, acts := w.acts ++ [.looked repo] }
      else if tree.uncommitted = 0 then
        World.setTree repo (some ⟨oid, 0, untracked⟩) { w with
          phase := .repos states isDirty todo, acts := w.acts ++ [.looked repo] }
      else { w with phase := .repos states isDirty todo, acts := w.acts ++ [.gitFailed repo] }
    | _, _ => { w with phase := .repos states isDirty todo, acts := w.acts ++ [.gitFailed repo] }
  | .clean states isDirty repo todo, .clean left =>
    match left with
    | some left =>
      World.setTree repo ((w.worktrees repo).map fun tree => { tree with untracked := left }) {
        w with
        phase := .repos states isDirty todo
        acts := w.acts ++ if left = 0 then [] else [.kept repo] }
    | none => { w with phase := .repos states isDirty todo, acts := w.acts ++ [.gitFailed repo] }
  | .sessions, .load reply =>
    if reply = .ok then { w with phase := .listing w.sessions }
    else { w with phase := .dropping, acts := w.acts ++ [.listFailed none] }
  | .listing [], .go => { w with phase := .dropping }
  | .listing (session :: todo), .load reply =>
    if reply = .ok then
      { w with phase := .stopping (findBySessionId w.processes session) todo }
    else { w with phase := .listing todo, acts := w.acts ++ [.listFailed (some session)] }
  | .stopping [] todo, .go => { w with phase := .listing todo }
  | .stopping (p :: processes) todo, .stop ok =>
    if p.runReason = .devServer ∨ p.status ≠ .running then
      { w with phase := .stopping processes todo }
    -- A stop that succeeds has waited for the monitor's write, or made it itself.
    else if ok then
      { w with
        phase := .stopping processes todo, processes := finish p.id .killed w.processes }
    else { w with phase := .stopping processes todo, acts := w.acts ++ [.stopFailed p.id] }
  | .dropping, .drop reply =>
    match reply with
    | .failed => { w with phase := .returned false }
    | _ =>
      { w with
        phase := .returned (reply = .ok)
        processes := dropAtAndAfter x.sessionId x.targetProcessId w.processes }
  | _, _ => w

def World.insert (ws : Workspace) (id sessionId : Uuid) (runReason : ExecutionProcessRunReason)
    (now : Time) (w : World) : World :=
  let process : Process :=
    { id, sessionId, runReason, status := .running, createdAt := now, dropped := false
      repoStates := ws.repos.map fun repo => ⟨repo, (w.worktrees repo).map (·.head), none⟩ }
  { w with processes := w.processes ++ [process] }

/-- The session is there, the id is new, and the session has no other running coding agent. -/
def World.admits (id sessionId : Uuid) (runReason : ExecutionProcessRunReason) (w : World) : Bool :=
  sessionId ∈ w.sessions ∧ (w.processes.all fun p => p.id ≠ id) ∧
    (runReason = .codingAgent → w.processes.all fun p =>
      ¬(p.sessionId = sessionId ∧ p.runReason = .codingAgent ∧ p.status = .running))

inductive Event where
  | reset (move : Move)
  | write (id : Uuid) (repo : Uuid) (tree : Option Worktree)
  | publish (id : Uuid) (status : ExecutionProcessStatus)
  | updateAfterHeadCommit (id : Uuid) (repo : Uuid)
  | createSession (sessionId : Uuid)
  | enqueue (sessionId : Uuid)
  | dispatch (sessionId id : Uuid) (now : Time)
  | start (id sessionId : Uuid) (runReason : ExecutionProcessRunReason) (now : Time)

/-- Whether a running process of one of the workspace's sessions has the id. -/
def World.runs (id : Uuid) (w : World) : Bool :=
  w.processes.any fun p => p.id = id ∧ p.status = .running ∧ p.sessionId ∈ w.sessions

def World.exec (ws : Workspace) (x : ResetRequest) (w : World) : Event → World
  | .reset move => w.resetStep ws x move
  | .write id repo tree =>
    if w.runs id ∧ repo ∈ ws.repos ∧ (w.worktrees repo).isSome then
      World.setTree repo tree { w with acts := w.acts ++ [.wrote repo] }
    else w
  | .publish id status =>
    if status = .running then w else { w with processes := finish id status w.processes }
  | .updateAfterHeadCommit id repo =>
    match w.worktrees repo with
    | none => w
    | some tree =>
      { w with
        processes := Table.update (fun p => p.id = id ∧ p.status ≠ .running)
          (fun p => { p with
            repoStates := Table.update (fun state => state.repoId = repo)
              (fun state => { state with afterHeadCommit := some tree.head }) p.repoStates })
          w.processes }
  | .createSession sessionId => { w with sessions := w.sessions ++ [sessionId] }
  | .enqueue sessionId => { w with pending := w.pending ++ [sessionId] }
  | .dispatch sessionId id now =>
    if sessionId ∈ w.pending ∧ w.admits id sessionId .codingAgent then
      World.insert ws id sessionId .codingAgent now { w with
        pending := w.pending.filter fun session => session ≠ sessionId }
    else w
  | .start id sessionId runReason now =>
    if w.admits id sessionId runReason then w.insert ws id sessionId runReason now else w

/-- The reset is asked for, in whatever the world has come to. -/
def World.ask (w : World) : World := { w with phase := .asked, acts := [] }

end Cdesktop.SessionReset
