import Cdesktop.Disk
import Cdesktop.Run

namespace Cdesktop.LegacyMigration
open Paths
set_option autoImplicit true

structure Repo where
  name : String
  path : Node
deriving DecidableEq

structure RepoWorkspaceInput where
  repo : Repo
  targetBranch : String
deriving DecidableEq

inductive WorkspaceError where
  | noRepositories
  | worktree
  | gitService
  | io
deriving DecidableEq

structure Worktree where
  repo : Node
  path : Node
  branch : String

/-- A workspace, the directories that the cleanup looks through, and what is on its branch. -/
structure Workspace where
  baseDir : Node
  name : String
  input : RepoWorkspaceInput
  branch : String
  defaultDir : Node
  currentDir : Node
  checkout : Disk

def Workspace.repo (ws : Workspace) : Repo := ws.input.repo

def Workspace.dir (ws : Workspace) : Node := ws.baseDir ++ [ws.name]

def Workspace.tempPath (ws : Workspace) : Node := ws.baseDir ++ [ws.name ++ "-migrating"]

def Workspace.worktreePath (ws : Workspace) (repo : Repo) : Node := ws.dir ++ [repo.name]

inductive Sweep where
  | directory (dir : Node)
  | entry (path : Node)
  | suspected (path : Node)
  | remove (path : Node)
deriving DecidableEq

/-- The next step of `ensure_workspace_exists`. -/
inductive Stage where
  | ensure (inputs : List RepoWorkspaceInput)
  | moveAside (repo : Repo)
  | createDir (repo : Repo)
  | moveInto (repo : Repo)
  | removeAside (repo : Repo)
  | makeDir (inputs : List RepoWorkspaceInput)
  | checkBranch (input : RepoWorkspaceInput) (rest : List RepoWorkspaceInput)
  | createBranch (input : RepoWorkspaceInput) (rest : List RepoWorkspaceInput)
  | verify (input : RepoWorkspaceInput) (rest : List RepoWorkspaceInput)
  | cleanup (input : RepoWorkspaceInput) (rest : List RepoWorkspaceInput)
  | makeParent (input : RepoWorkspaceInput) (rest : List RepoWorkspaceInput)
  | add (input : RepoWorkspaceInput) (rest : List RepoWorkspaceInput)
  | addAgain (input : RepoWorkspaceInput) (rest : List RepoWorkspaceInput)
deriving DecidableEq

inductive Process where
  | down
  | sweeping (todo : List Sweep)
  | idle
  | ensuring (stage : Stage)
deriving DecidableEq

structure World where
  disk : Disk
  worktrees : List Worktree
  refs : Node → Bool
  process : Process
  answers : List (Except WorkspaceError Unit)

structure Outside where
  fails : Bool
  listing : List String
  unreadable : Bool
  /-- Whether there is the branch, and whether the repository can be opened. -/
  found : Bool
  inferred : Option Node
  /-- What `git worktree remove --force` keeps of the directory. -/
  gitKept : Node → Bool
  /-- What a removal of a directory that fails keeps of it. -/
  removalKept : Option (Node → Bool)
  unregistered : Bool
  pruned : Bool

inductive Event where
  | restart (disabled : Bool)
  | ensure
  | step (outside : Outside)
  | rows (refs : Node → Bool)
  | crash

def World.removeDirAll (w : World) (path : Node) (outside : Outside) :
    World × Except WorkspaceError Unit :=
  if (w.disk path).isSome then
    match outside.removalKept with
    | none => ({ w with disk := eraseBelow path (fun _ => false) w.disk }, .ok ())
    | some kept => ({ w with disk := eraseBelow path kept w.disk }, .error .worktree)
  else (w, .ok ())

def simpleWorktreeCleanup (w : World) (path : Node) (outside : Outside) :
    World × Except WorkspaceError Unit :=
  w.removeDirAll path outside

def World.prune (w : World) (repo : Node) : World :=
  { w with worktrees := w.worktrees.filter fun t =>
      t.repo ≠ repo || (w.disk (t.path ++ [".git"])).isSome }

def World.unregister (w : World) (repo path : Node) : World :=
  { w with worktrees := w.worktrees.filter fun t => !(t.repo = repo && t.path = path) }

def comprehensiveWorktreeCleanup (w : World) (repo path : Node) (outside : Outside) :
    World × Except WorkspaceError Unit :=
  let w := { w with disk := eraseBelow path outside.gitKept w.disk }
  let w := if outside.unregistered then w.unregister repo path else w
  match w.removeDirAll path outside with
  | (w, .error e) => (w, .error e)
  | (w, .ok ()) => (if outside.pruned then w.prune repo else w, .ok ())

def comprehensiveWorktreeCleanupAsync (w : World) (repo path : Node) (outside : Outside) :
    World × Except WorkspaceError Unit :=
  if outside.fails then (w, .error .worktree)
  else if outside.found then comprehensiveWorktreeCleanup w repo path outside
  else simpleWorktreeCleanup w path outside

/-- `cleanup_worktree`, of a path that comes without its repository. -/
def cleanupWorktree (w : World) (path : Node) (outside : Outside) :
    World × Except WorkspaceError Unit :=
  match outside.inferred with
  | some repo => comprehensiveWorktreeCleanupAsync w repo path outside
  | none => simpleWorktreeCleanup w path outside

def cleanupSuspectedWorktree (w : World) (path : Node) (outside : Outside) :
    World × Except WorkspaceError Unit :=
  if isFile w.disk (path ++ [".git"]) then cleanupWorktree w path outside else (w, .ok ())

def isWorktreeProperlySetUp (w : World) (repo path : Node) : Bool :=
  (w.disk path).isSome && w.worktrees.any fun t => t.repo = repo && t.path = path

/-- Where `git worktree move` takes the worktree to. -/
def landing (disk : Disk) (old new : Node) : Node :=
  if isDir disk new then new ++ old.getLast?.toList else new

/-- `git worktree move`, which does all of it or nothing. -/
def moveWorktree (w : World) (repo old new : Node) (outside : Outside) :
    Except WorkspaceError World :=
  let target := landing w.disk old new
  if !outside.fails && isWorktreeProperlySetUp w repo old && isFile w.disk (old ++ [".git"]) &&
      (w.disk target).isNone && isDir w.disk target.dropLast then
    .ok { w with
      disk := rename old target w.disk
      worktrees := w.worktrees.map fun t =>
        if t.repo = repo ∧ t.path = old then { t with path := target } else t }
  else .error .worktree

/-- `git worktree add`, of a branch that no other worktree has checked out. -/
def addWorktree (w : World) (checkout : Disk) (repo path : Node) (branch : String)
    (outside : Outside) : Except WorkspaceError World :=
  if !outside.fails && (w.disk path).isNone &&
      !w.worktrees.any (fun t => t.repo = repo && t.branch = branch) then
    .ok { w with
      disk := fun n => if path.isPrefixOf n then checkout (n.drop path.length) else w.disk n
      worktrees := w.worktrees ++ [⟨repo, path, branch⟩] }
  else .error .worktree

def World.createDirAll (w : World) (path : Node) (outside : Outside) :
    Except WorkspaceError World :=
  if outside.fails then .error .io
  else
    match Paths.createDirAll path w.disk with
    | some disk => .ok { w with disk }
    | none => .error .io

/-- A step of the cleanup, with what it finds to do. Its errors are only logged. -/
def World.sweep (w : World) (outside : Outside) : Sweep → World × List Sweep
  | .directory dir =>
    if (w.disk dir).isSome && !outside.fails then
      (w, outside.listing.map fun name => .entry (dir ++ [name]))
    else (w, [])
  | .entry path =>
    if isDir w.disk path && !outside.fails && !w.refs path then
      (w, (if outside.unreadable then [] else
        outside.listing.map fun name => .suspected (path ++ [name])) ++ [.remove path])
    else (w, [])
  | .suspected path =>
    if isDir w.disk path then ((cleanupSuspectedWorktree w path outside).1, []) else (w, [])
  | .remove path => ((w.removeDirAll path outside).1, [])

def World.goto (w : World) (stage : Stage) : World := { w with process := .ensuring stage }

def World.answer (w : World) (result : Except WorkspaceError Unit) : World :=
  { w with process := .idle, answers := w.answers ++ [result] }

def World.after (w : World) (result : Except WorkspaceError World) (next : World → World) : World :=
  match result with
  | .ok w' => next w'
  | .error e => w.answer (.error e)

def World.next (w : World) : List RepoWorkspaceInput → World
  | [] => w.answer (.ok ())
  | input :: rest => w.goto (.checkBranch input rest)

def isOldStyle (ws : Workspace) (disk : Disk) (repo : Repo) : Bool :=
  (disk ws.dir).isSome && isFile disk (ws.dir ++ [".git"]) &&
    (disk (ws.worktreePath repo)).isNone

def World.ensureStep (ws : Workspace) (w : World) (outside : Outside) : Stage → World
  | .ensure [] => w.answer (.error .noRepositories)
  | .ensure [input] =>
    if isOldStyle ws w.disk input.repo then w.goto (.moveAside input.repo)
    else w.goto (.makeDir [input])
  | .ensure inputs => w.goto (.makeDir inputs)
  -- `migrate_legacy_worktree`
  | .moveAside repo =>
    w.after (moveWorktree w repo.path ws.dir ws.tempPath outside) (·.goto (.createDir repo))
  | .createDir repo => w.after (w.createDirAll ws.dir outside) (·.goto (.moveInto repo))
  | .moveInto repo =>
    w.after (moveWorktree w repo.path ws.tempPath (ws.worktreePath repo) outside)
      (·.goto (.removeAside repo))
  | .removeAside _ => (w.removeDirAll ws.tempPath outside).1.answer (.ok ())
  | .makeDir inputs =>
    if (w.disk ws.dir).isSome then w.next inputs
    else w.after (w.createDirAll ws.dir outside) (·.next inputs)
  | .checkBranch input rest =>
    if outside.fails then w.answer (.error .gitService)
    else if outside.found then w.goto (.verify input rest)
    else w.goto (.createBranch input rest)
  | .createBranch input rest =>
    if outside.fails then w.answer (.error .worktree) else w.goto (.verify input rest)
  -- `ensure_worktree_exists`
  | .verify input rest =>
    if outside.fails then w.answer (.error .worktree)
    -- a worktree that git cannot open is set up anew, although it is registered
    else if isWorktreeProperlySetUp w input.repo.path (ws.worktreePath input.repo) &&
        !outside.unreadable then w.next rest
    else w.goto (.cleanup input rest)
  -- `recreate_worktree_internal`
  | .cleanup input rest =>
    match comprehensiveWorktreeCleanupAsync w input.repo.path (ws.worktreePath input.repo)
        outside with
    | (w, .ok ()) => w.goto (.makeParent input rest)
    | (w, .error e) => w.answer (.error e)
  | .makeParent input rest =>
    w.after (w.createDirAll ws.dir outside) (·.goto (.add input rest))
  | .add input rest =>
    match addWorktree w ws.checkout input.repo.path (ws.worktreePath input.repo) ws.branch
        outside with
    | .ok w => w.next rest
    | .error _ => w.goto (.addAgain input rest)
  | .addAgain input rest =>
    match (w.unregister input.repo.path (ws.worktreePath input.repo)).removeDirAll
        (ws.worktreePath input.repo) outside with
    | (w, .ok ()) =>
      w.after (addWorktree w ws.checkout input.repo.path (ws.worktreePath input.repo) ws.branch
        outside) (·.next rest)
    | (w, .error e) => w.answer (.error e)

def World.step (ws : Workspace) (w : World) (outside : Outside) : World :=
  match w.process with
  | .down | .idle => w
  | .sweeping [] => { w with process := .idle }
  | .sweeping (task :: todo) =>
    let swept := w.sweep outside task
    { swept.1 with process := .sweeping (swept.2 ++ todo) }
  | .ensuring stage => w.ensureStep ws outside stage

def World.exec (ws : Workspace) (w : World) : Event → World
  | .restart disabled =>
    if w.process = .down then
      { w with process := if disabled then .idle
          else .sweeping (.directory ws.defaultDir ::
            if ws.currentDir = ws.defaultDir then [] else [.directory ws.currentDir]) }
    else w
  | .ensure => if w.process = .idle then w.goto (.ensure [ws.input]) else w
  | .step outside => w.step ws outside
  -- the row of the workspace stays
  | .rows refs => { w with refs := fun path => path = ws.dir || refs path }
  | .crash => { w with process := .down }

end Cdesktop.LegacyMigration
