import Cdesktop.CommitGraph
import Cdesktop.Run

namespace Cdesktop.MergeChanges
open CommitGraph
set_option autoImplicit true

inductive GitServiceError where
  | git (message : String)
  | branchNotFound (name : String)
  | branchesDiverged (message : String)
  | worktreeDirty (branch files : String)
  | invalidRepository (message : String)
  | mergeConflicts (message : String) (conflictedFiles : List String)
deriving DecidableEq

/-- The next step of `merge_changes`, with what the steps before it have read. -/
inductive Stage where
  | openRepos
  | statusTask
  | statusBase (task : Nat)
  | findCheckout
  -- the base branch is checked out
  | hasStagedChanges
  | ensureIdentity
  | checkout
  | mergeSquash
  | commit (task : Nat)
  | revParse (task : Nat)
  | updateRef (task sha : Nat)
  -- the base branch is not checked out
  | findTask
  | findBase (task : Nat)
  | squash (task base : Nat)
  | updateBase (task base squash : Nat)
  | resetTask (task squash : Nat)

structure World where
  commits : Graph
  branches : String → Option Nat
  remotes : String → Option Nat
  tags : String → Option Nat
  checkedOut : String → Bool
  /-- The commit whose squash merge is staged where the base branch is checked out. -/
  index : Option Nat
  stage : Option Stage
  tips : String → List Nat
  answers : List (Except GitServiceError Nat)

structure Outside where
  fails : Option String
  staged : Bool
  conflicts : Bool

inductive Event where
  | merge
  | step (outside : Outside)
  /-- A commit on the tip of a branch, and on other commits. -/
  | land (branch : String) (others : List Nat)
  | landStaged
  | checkout (checkedOut : String → Bool)
deriving Inhabited

structure Call where
  taskBranch : String
  baseBranch : String

def World.setBranch (w : World) (name : String) (oid : Nat) : World :=
  { w with
    branches := fun n => if n = name then some oid else w.branches n
    tips := fun n => if n = name then w.tips n ++ [oid] else w.tips n }

/-- A new commit, which no branch points to. -/
def World.write (w : World) (commit : Commit) : World :=
  { w with commits := w.commits ++ [commit] }

def World.goto (w : World) (stage : Stage) : World := { w with stage := some stage }

def World.answer (w : World) (result : Except GitServiceError Nat) : World :=
  { w with stage := none, answers := w.answers ++ [result] }

def World.findBranch (w : World) (name : String) : Option Nat :=
  (w.branches name).or (w.remotes name)

/-- What the git command line takes a name for. -/
def World.revision (w : World) (name : String) : Option Nat :=
  (w.tags name).or (w.findBranch name)

/-- What comes after a branch that may be missing. -/
def World.found (w : World) (name : String) (next : Nat → World) : World :=
  match w.findBranch name with
  | some oid => next oid
  | none => w.answer (.error (.branchNotFound name))

/-- What comes after a call that may fail, with its error made of the message. -/
def World.called (w : World) (outside : Outside) (error : String → GitServiceError)
    (next : World) : World :=
  match outside.fails with
  | some message => w.answer (.error (error message))
  | none => next

def divergedMessage (call : Call) (taskBehind : Nat) : String :=
  "Cannot merge: base branch '" ++ call.baseBranch ++ "' is " ++ toString taskBehind ++
    " commits ahead of task branch '" ++ call.taskBranch ++
    "'. The base branch has moved forward since the task was created."

def worktreeListError (message : String) : GitServiceError :=
  .invalidRepository ("git worktree list failed: " ++ message)

def diffCachedError (message : String) : GitServiceError :=
  .invalidRepository ("git diff --cached failed: " ++ message)

def cliMergeError (message : String) : GitServiceError :=
  .invalidRepository ("CLI merge failed: " ++ message)

def updateRefError (message : String) : GitServiceError :=
  .invalidRepository ("git update-ref failed: " ++ message)

def World.commitIndex (w : World) (branch : String) : Option World :=
  w.index.map fun task =>
    ({ w with index := none }.write ⟨(w.branches branch).toList, some task⟩).setBranch branch
      w.commits.length

def World.step (call : Call) (w : World) (outside : Outside) : Stage → World
  | .openRepos => w.called outside .git (w.goto .statusTask)
  -- `get_branch_status`
  | .statusTask => w.found call.taskBranch fun task => w.goto (.statusBase task)
  | .statusBase task =>
    w.found call.baseBranch fun base =>
      w.called outside .git
        (let taskBehind := behind w.commits task base
        if taskBehind > 0 then
          w.answer (.error (.branchesDiverged (divergedMessage call taskBehind)))
        else w.goto .findCheckout)
  | .findCheckout =>
    w.called outside worktreeListError
      (if w.checkedOut call.baseBranch then w.goto .hasStagedChanges else w.goto .findTask)
  | .hasStagedChanges =>
    w.called outside diffCachedError
      (if outside.staged then
        w.answer (.error (.worktreeDirty call.baseBranch "staged changes present"))
      else w.goto .ensureIdentity)
  | .ensureIdentity => w.called outside .git (w.goto .checkout)
  -- `merge_squash_commit`
  | .checkout => w.called outside cliMergeError (w.goto .mergeSquash)
  | .mergeSquash =>
    w.called outside cliMergeError
      (match w.revision call.taskBranch with
      | some task => { w with index := some task }.goto (.commit task)
      | none => w.answer (.error (cliMergeError "not something we can merge")))
  | .commit task =>
    w.called outside cliMergeError
      (match w.commitIndex call.baseBranch with
      | some w => w.goto (.revParse task)
      | none => w.answer (.error (cliMergeError "nothing to commit")))
  | .revParse task =>
    w.called outside cliMergeError
      (match w.branches call.baseBranch with
      | some sha => w.goto (.updateRef task sha)
      | none => w.answer (.error (cliMergeError "unknown revision")))
  | .updateRef _ sha =>
    w.called outside updateRefError ((w.setBranch call.taskBranch sha).answer (.ok sha))
  | .findTask => w.found call.taskBranch fun task => w.goto (.findBase task)
  | .findBase task =>
    w.found call.baseBranch fun base => w.called outside .git (w.goto (.squash task base))
  -- `perform_squash_merge`
  | .squash task base =>
    w.called outside .git
      (if outside.conflicts then
        w.answer (.error (.mergeConflicts
          "Merge failed due to conflicts. Please resolve conflicts manually." []))
      else (w.write ⟨[base], some task⟩).goto (.updateBase task base w.commits.length))
  | .updateBase task _ squash =>
    w.called outside .git ((w.setBranch call.baseBranch squash).goto (.resetTask task squash))
  | .resetTask _ squash =>
    w.called outside .git ((w.setBranch call.taskBranch squash).answer (.ok squash))

def World.exec (call : Call) (w : World) : Event → World
  | .merge => if w.stage = none then w.goto .openRepos else w
  | .step outside =>
    match w.stage with
    | some stage => w.step call outside stage
    | none => w
  | .land branch others =>
    match w.branches branch with
    | some tip =>
      if others.all (· < w.commits.length) then
        (w.write ⟨tip :: others, none⟩).setBranch branch w.commits.length
      else w
    | none => w
  | .landStaged => (w.commitIndex call.baseBranch).getD w
  | .checkout checkedOut => { w with checkedOut }

def World.OnBranch (w : World) (name : String) (c : Nat) : Prop :=
  ∃ tip ∈ w.tips name, Reach w.commits c tip

def World.Reachable (w : World) (name : String) (c : Nat) : Prop :=
  ∃ tip, w.branches name = some tip ∧ Reach w.commits c tip

/-- The changes of the commit are in the base branch, or the task branch still has the commit. -/
def World.Kept (call : Call) (w : World) (c : Nat) : Prop :=
  (∃ tip, w.branches call.baseBranch = some tip ∧ Contained w.commits c tip) ∨
    w.Reachable call.taskBranch c

/-- No commit that the base branch pointed to is lost, and none that was on the task branch. -/
structure World.Sound (call : Call) (w : World) : Prop where
  base : ∀ c ∈ w.tips call.baseBranch, w.Reachable call.baseBranch c
  task : ∀ c, w.OnBranch call.taskBranch c → w.Kept call c

end Cdesktop.MergeChanges
