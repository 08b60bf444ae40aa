import Cdesktop.MergeChanges

/-! `merge_changes` with the trees of the commits, the index of each worktree and what a command
that is refused leaves behind. -/

namespace Cdesktop.SquashMerge
open CommitGraph MergeChanges
set_option autoImplicit true

abbrev Tree := List (String × String)

structure Commit where
  parents : List Nat
  tree : Tree
  message : String

structure Worktree where
  branch : Option String
  index : Tree
  unmerged : List String

structure World where
  commits : List Commit
  branches : String → Option Nat
  remotes : String → Option Nat
  tags : String → Option Nat
  worktrees : List String
  worktree : String → Worktree
  identity : Bool
  tips : ∀ name, ∀ oid ∈ branches name, oid < commits.length

namespace World
variable (w : World)

def graph : Graph := w.commits.map fun commit => ⟨commit.parents, none⟩

def tree (oid : Nat) : Tree := (w.commits[oid]?.map (·.tree)).getD []

/-- The commit that `HEAD` stands for where a branch is checked out. -/
def headTip (path : String) : Option Nat := (w.worktree path).branch.bind w.branches

def headTree (path : String) : Tree := ((w.headTip path).map w.tree).getD []

def findBranch (name : String) : Option Nat := (w.branches name).or (w.remotes name)

/-- What the git command line takes a name for. -/
def revision (name : String) : Option Nat := (w.tags name).or (w.findBranch name)

def setWorktree (path : String) (worktree : Worktree) : World :=
  { w with worktree := Function.update w.worktree path worktree }

def setBranch (name : String) (oid : Nat) (h : oid < w.commits.length) : World :=
  { w with
    branches := Function.update w.branches name (some oid)
    tips := by
      intro other tip htip
      by_cases hname : other = name
      · rw [hname, Function.update_self] at htip
        cases htip
        exact h
      · rw [Function.update_of_ne hname] at htip
        exact w.tips other tip htip }

/-- A new commit, which no branch points to. -/
def write (commit : Commit) : World :=
  { w with
    commits := w.commits ++ [commit]
    tips := by
      intro name oid hoid
      rw [List.length_append]
      exact Nat.lt_of_lt_of_le (w.tips name oid hoid) (Nat.le_add_right _ _) }

end World

inductive Step where
  | openTask
  | openBase
  | openStatus
  | statusTask
  | statusBase
  | aheadBehind
  | worktreeList
  -- the base branch is checked out
  | diffCached
  | identity
  | checkout
  | mergeSquash
  | commit
  | revParse
  | updateRef
  -- the base branch is not checked out
  | findTask
  | findBase
  | peelBase
  | peelTask
  | signature
  | mergeCommits
  | writeTree
  | createCommit
  | updateBase
  | resetTask
deriving DecidableEq

structure Conflicts where
  index : Tree
  unmerged : List String
  nonempty : unmerged ≠ []

structure Surroundings where
  /-- The message that a step is refused with, before it changes anything. -/
  refusal : Step → Option String
  merge : Nat → Nat → Except Conflicts Tree
  /-- What the hooks of a commit leave of the index, and whether they refuse the commit. -/
  hooks : Tree → Tree × Option String

structure Call where
  taskBranch : String
  baseBranch : String
  commitMessage : String

abbrev Reading := ReaderT World (Except GitServiceError)

abbrev Cli := ExceptT String (StateM World)

abbrev Git := ExceptT GitServiceError (StateM World)

section
variable (u : Surroundings)

def Surroundings.fails (step : Step) : Bool := (u.refusal step).isSome

/-- A step with its error made of the message. -/
def Surroundings.allow [MonadExceptOf ε m] [Pure m] (step : Step) (error : String → ε) : m Unit :=
  match u.refusal step with
  | some message => throw (error message)
  | none => pure ()

def findBranch (step : Step) (name : String) : Reading Nat := fun w =>
  match u.refusal step, w.findBranch name with
  | none, some oid => .ok oid
  | _, _ => .error (.branchNotFound name)

def getBranchStatus (branchName baseBranchName : String) : Reading (Nat × Nat) := do
  u.allow .openStatus GitServiceError.git
  let branch ← findBranch u .statusTask branchName
  let baseBranch ← findBranch u .statusBase baseBranchName
  u.allow .aheadBehind GitServiceError.git
  let w ← read
  pure (behind w.graph baseBranch branch, behind w.graph branch baseBranch)

def findCheckoutPathForBranch (branchName : String) : Reading (Option String) := do
  u.allow .worktreeList worktreeListError
  let w ← read
  pure (w.worktrees.find? fun path => (w.worktree path).branch = some branchName)

/-- The tree of a merge, where nothing is in conflict. -/
def mergeTrees (base task : Nat) (w : World) : Except Conflicts Tree :=
  if reaches w.graph task w.graph.length base then .ok (w.tree base)
  else if reaches w.graph base w.graph.length task then .ok (w.tree task)
  else u.merge base task

/-- What `git merge --squash --no-commit` stages. -/
def squash (path fromBranch : String) (w : World) : Option (Except Conflicts Tree) :=
  match w.headTip path, w.revision fromBranch with
  | some head, some oid => some (mergeTrees u head oid w)
  | _, _ => none

def reading (p : Reading α) : Git α := ExceptT.mk fun w => (p w, w)

def hasStagedChanges (path : String) : Reading Bool := do
  u.allow .diffCached diffCachedError
  let w ← read
  pure (decide ((w.worktree path).index ≠ w.headTree path ∨ (w.worktree path).unmerged ≠ []))

def ensureCliCommitIdentity : Git Unit := do
  u.allow .identity GitServiceError.git
  modify fun w => { w with identity := true }

def checkout (path baseBranch : String) : Cli Unit := do
  u.allow .checkout id
  let w ← get
  match w.branches baseBranch with
  | none => throw "pathspec did not match any file(s) known to git"
  | some oid =>
    if (w.worktree path).branch = some baseBranch then pure ()
    else set (w.setWorktree path ⟨some baseBranch, w.tree oid, []⟩)

def mergeSquash (path fromBranch : String) : Cli Unit := do
  u.allow .mergeSquash id
  let w ← get
  match squash u path fromBranch w with
  | none => throw "not something we can merge"
  | some (.ok index) => set (w.setWorktree path { w.worktree path with index })
  | some (.error conflicts) => do
    set (w.setWorktree path
      { w.worktree path with index := conflicts.index, unmerged := conflicts.unmerged })
    throw "Automatic merge failed; fix conflicts and then commit the result."

/-- `git commit -m`, which fails when nothing is staged once the hooks have run. -/
def commit (path message : String) : Cli Unit := do
  u.allow .commit id
  let w ← get
  let (index, refused) := u.hooks (w.worktree path).index
  let hooked := w.setWorktree path { w.worktree path with index }
  set hooked
  match refused with
  | some reason => throw reason
  | none =>
    if index = w.headTree path then throw "nothing to commit" else
    let written := hooked.write ⟨(w.headTip path).toList, index, message⟩
    match (w.worktree path).branch with
    | some name => set (written.setBranch name w.commits.length (by
        simp only [written, World.write, hooked, World.setWorktree, List.length_append,
          List.length_singleton, Nat.lt_add_one]))
    | none => set written

def revParse (path : String) : Cli Nat := do
  u.allow .revParse id
  let w ← get
  match w.headTip path with
  | some oid => pure oid
  | none => throw "ambiguous argument 'HEAD': unknown revision or path not in the working tree."

def mergeSquashCommit (path baseBranch fromBranch message : String) : Cli Nat := do
  checkout u path baseBranch
  mergeSquash u path fromBranch
  commit u path message
  revParse u path

def reference [MonadExceptOf ε m] [MonadStateOf World m] [Monad m] (step : Step)
    (error : String → ε) (name : String) (oid : Nat) : m Unit := do
  u.allow step error
  let w ← get
  if h : oid < w.commits.length then set (w.setBranch name oid h)
  else throw (error "trying to write ref with nonexistent object")

def mergeInWorktree (c : Call) (path : String) : Git Nat := do
  if ← reading (hasStagedChanges u path) then
    throw (.worktreeDirty c.baseBranch "staged changes present")
  ensureCliCommitIdentity u
  let sha ← (mergeSquashCommit u path c.baseBranch c.taskBranch c.commitMessage).adapt cliMergeError
  reference u .updateRef updateRefError c.taskBranch sha
  pure sha

/-- Conflicts make the merge itself fail, so that none are found in the index it returns. -/
def performSquashMerge (baseCommit taskCommit : Nat) (commitMessage baseBranchName : String) :
    Git Nat := do
  u.allow .mergeCommits GitServiceError.git
  let w ← get
  match mergeTrees u baseCommit taskCommit w with
  | .error _ => throw (.git "merge conflicts exist")
  | .ok tree => do
    u.allow .writeTree GitServiceError.git
    u.allow .createCommit GitServiceError.git
    set (w.write ⟨[baseCommit], tree, commitMessage⟩)
    reference u .updateBase GitServiceError.git baseBranchName w.commits.length
    pure w.commits.length

def mergedCommits (c : Call) : Reading (Nat × Nat) := do
  let taskCommit ← findBranch u .findTask c.taskBranch
  let baseCommit ← findBranch u .findBase c.baseBranch
  u.allow .peelBase GitServiceError.git
  u.allow .peelTask GitServiceError.git
  u.allow .signature GitServiceError.git
  pure (baseCommit, taskCommit)

def mergeRefs (c : Call) : Git Nat := do
  let (baseCommit, taskCommit) ← reading (mergedCommits u c)
  let squashCommitId ← performSquashMerge u baseCommit taskCommit c.commitMessage c.baseBranch
  reference u .resetTask GitServiceError.git c.taskBranch squashCommitId
  pure squashCommitId

/-- Where the base branch is checked out, once the merge is not refused for it. -/
def locate (c : Call) : Reading (Option String) := do
  u.allow .openTask GitServiceError.git
  u.allow .openBase GitServiceError.git
  let (_, taskBehind) ← getBranchStatus u c.taskBranch c.baseBranch
  if taskBehind > 0 then throw (.branchesDiverged
    (divergedMessage ⟨c.taskBranch, c.baseBranch⟩ taskBehind))
  findCheckoutPathForBranch u c.baseBranch

def mergeChanges (c : Call) : Git Nat := do
  match ← reading (locate u c) with
  | some baseCheckoutPath => mergeInWorktree u c baseCheckoutPath
  | none => mergeRefs u c

end

/-- The two branches point where they did, and each worktree has checked out and staged what it
had, with the same paths in conflict. -/
structure Unchanged (c : Call) (before after : World) : Prop where
  base : after.branches c.baseBranch = before.branches c.baseBranch
  task : after.branches c.taskBranch = before.branches c.taskBranch
  branch : ∀ path, (after.worktree path).branch = (before.worktree path).branch
  index : ∀ path, (after.worktree path).index = (before.worktree path).index
  head : ∀ path, after.headTree path = before.headTree path
  unmerged : ∀ path, (after.worktree path).unmerged = (before.worktree path).unmerged

section
variable (c : Call) (u : Surroundings) (w : World)

/-- What is staged when `git commit` is through, where it does not make the commit. -/
def leftStaged (index : Tree) : Tree := if u.fails .commit then index else (u.hooks index).1

/-- What the merge stages conflicts or is not left as the tree of the base branch. -/
def leaves (path fromBranch : String) : Bool :=
  match squash u path fromBranch w with
  | none => false
  | some (.error _) => true
  | some (.ok index) => leftStaged u index ≠ w.headTree path

/-- The command that stages the merge is reached and not refused, and something is left. -/
def stages (path : String) : Bool :=
  hasStagedChanges u path w = .ok false ∧ u.fails .identity = false ∧ u.fails .checkout = false ∧
    u.fails .mergeSquash = false ∧ leaves u w path c.taskBranch

def written (baseCommit taskCommit : Nat) : Bool :=
  !u.fails .mergeCommits && (mergeTrees u baseCommit taskCommit w).toBool &&
    !u.fails .writeTree && !u.fails .createCommit && !u.fails .updateBase

def moves : Bool :=
  match mergedCommits u c w with
  | .error _ => false
  | .ok (baseCommit, taskCommit) => written u w baseCommit taskCommit

def changes : Bool :=
  match locate u c w with
  | .error _ => false
  | .ok (some path) => stages c u w path
  | .ok none => moves c u w

end
end Cdesktop.SquashMerge
