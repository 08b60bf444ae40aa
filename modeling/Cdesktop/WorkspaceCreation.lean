import Cdesktop.LegacyMigration

/-! `create_workspace`, over the disk, the worktrees and the branches of its repositories. -/

namespace Cdesktop.WorkspaceCreation
open Paths
open LegacyMigration (Repo RepoWorkspaceInput Worktree Outside)
set_option autoImplicit true

inductive WorkspaceError where
  | noRepositories
  | io
  | partialCreation (repoName : String) (cause : LegacyMigration.WorkspaceError)
deriving DecidableEq

structure World where
  site : LegacyMigration.World
  branches : Node → String → Option Nat
  remotes : Node → String → Option Nat

structure RepoWorktree where
  repoName : String
  sourceRepoPath : Node
  worktreePath : Node
deriving DecidableEq

structure WorktreeContainer where
  workspaceDir : Node
  worktrees : List RepoWorktree
deriving DecidableEq

structure Call where
  workspaceDir : Node
  repos : List RepoWorkspaceInput
  branchName : String

/-- What the steps for one repository meet. -/
structure Attempt where
  createBranch : Outside
  verify : Outside
  cleanup : Outside
  /-- How far the directory that the worktree goes into is made, where it is not made. -/
  parent : Option Nat
  add : Outside
  metadata : Outside
  addAgain : Outside

structure Surroundings where
  workspaceDir : Option Nat
  attempt : Nat → Attempt
  rollback : Nat → Outside
  removeDir : Outside
  checkout : Node → String → Disk

def World.setDisk (w : World) (disk : Disk) : World := { w with site := { w.site with disk } }

/-- `fs::create_dir_all`. Where it stops, it has made only some of the directories above. -/
def World.makeDirs (w : World) (path : Node) (stop : Option Nat) :
    World × Except LegacyMigration.WorkspaceError Unit :=
  match stop with
  | some depth =>
    (w.setDisk ((createDirAll (path.dropLast.take depth) w.site.disk).getD w.site.disk), .error .io)
  | none =>
    match createDirAll path w.site.disk with
    | some disk => (w.setDisk disk, .ok ())
    | none => (w, .error .io)

def World.findBranch (w : World) (repo : Node) (name : String) : Option Nat :=
  (w.branches repo name).or (w.remotes repo name)

def createBranch (w : World) (repo : Node) (newBranchName baseBranchName : String)
    (outside : Outside) : Except LegacyMigration.WorkspaceError World :=
  if outside.fails then .error .worktree
  else
    match w.findBranch repo baseBranchName, w.branches repo newBranchName with
    | some tip, none =>
      .ok { w with
        branches := fun path name =>
          if path = repo ∧ name = newBranchName then some tip else w.branches path name }
    | _, _ => .error .worktree

def gitWorktreeAdd (u : Surroundings) (w : World) (repo path : Node) (branch : String)
    (outside : Outside) : Except LegacyMigration.WorkspaceError World :=
  if (w.branches repo branch).isNone then .error .worktree
  else
    (LegacyMigration.addWorktree w.site (u.checkout repo branch) repo path branch outside).map
      fun site => { w with site }

/-- The worktree that git has added must be there. -/
def checkAdded (path : Node) (added : Except LegacyMigration.WorkspaceError World) (w : World) :
    World × Except LegacyMigration.WorkspaceError Unit :=
  match added with
  | .ok w => (w, if (w.site.disk path).isSome then .ok () else .error .worktree)
  | .error e => (w, .error e)

def World.onSite (w : World)
    (f : LegacyMigration.World → LegacyMigration.World × Except LegacyMigration.WorkspaceError Unit) :
    World × Except LegacyMigration.WorkspaceError Unit :=
  ({ w with site := (f w.site).1 }, (f w.site).2)

/-- A step that is taken where the one before it answers. -/
def after (step : World × Except LegacyMigration.WorkspaceError Unit)
    (next : World → World × Except LegacyMigration.WorkspaceError Unit) :
    World × Except LegacyMigration.WorkspaceError Unit :=
  match step with
  | (w, .ok ()) => next w
  | (w, .error e) => (w, .error e)

def forceCleanupWorktreeMetadata (repo path : Node) (outside : Outside)
    (site : LegacyMigration.World) :
    LegacyMigration.World × Except LegacyMigration.WorkspaceError Unit :=
  if outside.fails then (site, .error .worktree) else (site.unregister repo path, .ok ())

/-- Where the first attempt fails, the metadata and the directory are removed for a second. -/
def createWorktreeWithRetry (u : Surroundings) (a : Attempt) (repo path : Node) (branch : String)
    (w : World) : World × Except LegacyMigration.WorkspaceError Unit :=
  match gitWorktreeAdd u w repo path branch a.add with
  | .ok added => checkAdded path (.ok added) w
  | .error _ =>
    after (w.onSite (forceCleanupWorktreeMetadata repo path a.metadata)) fun w =>
      after (w.onSite fun site => site.removeDirAll path a.addAgain) fun w =>
        checkAdded path (gitWorktreeAdd u w repo path branch a.addAgain) w

def recreateWorktreeInternal (u : Surroundings) (a : Attempt) (repo path : Node) (branch : String)
    (w : World) : World × Except LegacyMigration.WorkspaceError Unit :=
  after (w.onSite fun site =>
      LegacyMigration.comprehensiveWorktreeCleanupAsync site repo path a.cleanup) fun w =>
    after (w.makeDirs path.dropLast a.parent) (createWorktreeWithRetry u a repo path branch)

def ensureWorktreeExists (u : Surroundings) (a : Attempt) (repo path : Node) (branch : String)
    (w : World) : World × Except LegacyMigration.WorkspaceError Unit :=
  if a.verify.fails then (w, .error .worktree)
  else if LegacyMigration.isWorktreeProperlySetUp w.site repo path then (w, .ok ())
  else recreateWorktreeInternal u a repo path branch w

def createWorktree (u : Surroundings) (a : Attempt) (repo path : Node)
    (branchName baseBranch : String) (w : World) :
    World × Except LegacyMigration.WorkspaceError Unit :=
  match createBranch w repo branchName baseBranch a.createBranch with
  | .error e => (w, .error e)
  | .ok w => ensureWorktreeExists u a repo path branchName w

/-- The errors of the rollback are only logged. -/
def cleanupCreatedWorktrees (outside : Nat → Outside) : List RepoWorktree → Nat → World → World
  | [], _, w => w
  | worktree :: worktrees, i, w =>
    cleanupCreatedWorktrees outside worktrees (i + 1)
      (w.onSite fun site => LegacyMigration.comprehensiveWorktreeCleanupAsync site
        worktree.sourceRepoPath worktree.worktreePath (outside i)).1

/-- `fs::remove_dir`, of a directory with nothing in it. -/
def World.removeDir (w : World) (path : Node) (outside : Outside) : World :=
  if outside.fails ∨ isDir w.site.disk path = false ∨
      outside.listing.any (fun name => (w.site.disk (path ++ [name])).isSome) then w
  else w.setDisk fun n => if n = path then none else w.site.disk n

inductive Created where
  | all (worktrees : List RepoWorktree)
  | failed (worktrees : List RepoWorktree) (repoName : String) (cause : LegacyMigration.WorkspaceError)

def createWorktrees (c : Call) (u : Surroundings) :
    List RepoWorkspaceInput → List RepoWorktree → World → World × Created
  | [], created, w => (w, .all created)
  | input :: inputs, created, w =>
    let worktreePath := c.workspaceDir ++ [input.repo.name]
    match createWorktree u (u.attempt created.length) input.repo.path worktreePath c.branchName
        input.targetBranch w with
    | (w, .ok ()) =>
      createWorktrees c u inputs
        (created ++ [⟨input.repo.name, input.repo.path, worktreePath⟩]) w
    | (w, .error cause) => (w, .failed created input.repo.name cause)

def createWorkspace (c : Call) (u : Surroundings) (w : World) :
    World × Except WorkspaceError WorktreeContainer :=
  if c.repos = [] then (w, .error .noRepositories)
  else
    match w.makeDirs c.workspaceDir u.workspaceDir with
    | (w, .error _) => (w, .error .io)
    | (w, .ok ()) =>
      match createWorktrees c u c.repos [] w with
      | (w, .all worktrees) => (w, .ok ⟨c.workspaceDir, worktrees⟩)
      | (w, .failed created repoName cause) =>
        ((cleanupCreatedWorktrees u.rollback created 0 w).removeDir c.workspaceDir u.removeDir,
          .error (.partialCreation repoName cause))

/-- The repositories have the branches and worktrees that they had, no directory is there that was
not there, and a call that would have gone through before still does. -/
structure Restored (c : Call) (before after : World) : Prop where
  branches : ∀ input ∈ c.repos, ∀ name,
    after.branches input.repo.path name = before.branches input.repo.path name
  worktrees : ∀ input ∈ c.repos, ∀ worktree : Worktree, worktree.repo = input.repo.path →
    (worktree ∈ after.site.worktrees ↔ worktree ∈ before.site.worktrees)
  directories : ∀ node, isDir after.site.disk node = true → isDir before.site.disk node = true
  again : ∀ u container, (createWorkspace c u before).2 = .ok container →
    (createWorkspace c u after).2 = .ok container

section
variable (c : Call) (u : Surroundings) (w : World)

def allThere (nodes : List Node) : Bool := nodes.all fun n => (w.site.disk n).isSome

/-- The directories of a call that makes no worktree are not there afterwards. -/
def leavesNoDir : Bool :=
  allThere w (c.workspaceDir.inits.filter (· ≠ c.workspaceDir)) &&
    (isDir w.site.disk c.workspaceDir || !u.removeDir.fails &&
      !u.removeDir.listing.any fun name => (w.site.disk (c.workspaceDir ++ [name])).isSome)

/-- The call fails before a branch is made, and leaves no directory. -/
def restores : Bool :=
  match c.repos with
  | [] => true
  | input :: _ =>
    match u.workspaceDir with
    | some depth =>
      let node := c.workspaceDir.dropLast.take depth
      node.inits.any (isFile w.site.disk) || allThere w node.inits
    | none =>
      c.workspaceDir.inits.any (isFile w.site.disk) ||
        !(createBranch w input.repo.path c.branchName input.targetBranch
          (u.attempt 0).createBranch).toBool && leavesNoDir c u w

end

section
variable {u : Surroundings} {w w' : World}

theorem makeDirs_branches (w : World) (path : Node) (stop : Option Nat) :
    (w.makeDirs path stop).1.branches = w.branches := by
  cases stop with
  | some depth => rfl
  | none =>
    simp only [World.makeDirs]
    cases createDirAll path w.site.disk <;> rfl

theorem after_branches {step : World × Except LegacyMigration.WorkspaceError Unit}
    {next : World → World × Except LegacyMigration.WorkspaceError Unit}
    (hstep : step.1.branches = w.branches)
    (hnext : ∀ w' : World, w'.branches = w.branches → (next w').1.branches = w.branches) :
    (after step next).1.branches = w.branches := by
  obtain ⟨w', result⟩ := step
  cases result with
  | error e => exact hstep
  | ok _ => exact hnext w' hstep

theorem gitWorktreeAdd_branches (h : gitWorktreeAdd u w repo path branch outside = .ok w') :
    w'.branches = w.branches := by
  rw [gitWorktreeAdd] at h
  split at h
  · cases h
  · cases hadd : LegacyMigration.addWorktree w.site (u.checkout repo branch) repo path branch outside with
    | error e =>
      rw [hadd] at h
      cases h
    | ok site =>
      rw [hadd] at h
      cases h
      rfl

theorem checkAdded_branches (u : Surroundings) (w : World) (repo path : Node) (branch : String)
    (outside : Outside) :
    (checkAdded path (gitWorktreeAdd u w repo path branch outside) w).1.branches = w.branches := by
  cases hadd : gitWorktreeAdd u w repo path branch outside with
  | error e => rfl
  | ok added => exact gitWorktreeAdd_branches hadd

theorem createWorktreeWithRetry_branches (u : Surroundings) (a : Attempt) (repo path : Node)
    (branch : String) (w : World) :
    (createWorktreeWithRetry u a repo path branch w).1.branches = w.branches := by
  rw [createWorktreeWithRetry]
  cases hadd : gitWorktreeAdd u w repo path branch a.add with
  | ok added => exact gitWorktreeAdd_branches hadd
  | error e =>
    apply after_branches rfl
    intro w₁ h₁
    rw [← h₁]
    apply after_branches rfl
    intro w₂ h₂
    rw [← h₂]
    exact checkAdded_branches u w₂ repo path branch a.addAgain

theorem ensureWorktreeExists_branches (u : Surroundings) (a : Attempt) (repo path : Node)
    (branch : String) (w : World) :
    (ensureWorktreeExists u a repo path branch w).1.branches = w.branches := by
  rw [ensureWorktreeExists]
  split
  · rfl
  · split
    · rfl
    · apply after_branches rfl
      intro w₁ h₁
      rw [← h₁]
      apply after_branches (makeDirs_branches w₁ path.dropLast a.parent)
      intro w₂ h₂
      rw [← h₂]
      exact createWorktreeWithRetry_branches u a repo path branch w₂

theorem createBranch_ok (h : createBranch w repo name base outside = .ok w') :
    w.branches repo name = none ∧ (w'.branches repo name).isSome = true ∧
      ∀ path other, (w.branches path other).isSome = true → (w'.branches path other).isSome = true := by
  rw [createBranch] at h
  split at h
  · cases h
  · split at h
    · rename_i tip _ hnone
      cases h
      apply And.intro hnone
      constructor
      · simp
      · intro path other hother
        dsimp only
        split
        · rfl
        · exact hother
    · cases h

theorem createWorktree_isSome (h : (w.branches path other).isSome = true) :
    ((createWorktree u a repo worktreePath name base w).1.branches path other).isSome = true := by
  rw [createWorktree]
  cases hcreate : createBranch w repo name base a.createBranch with
  | error e => exact h
  | ok w₁ =>
    dsimp only
    rw [ensureWorktreeExists_branches]
    exact (createBranch_ok hcreate).2.2 path other h

theorem createWorktrees_isSome (c : Call) (u : Surroundings) (inputs : List RepoWorkspaceInput)
    (created : List RepoWorktree) (h : (w.branches path other).isSome = true) :
    ((createWorktrees c u inputs created w).1.branches path other).isSome = true := by
  induction inputs generalizing created w with
  | nil => exact h
  | cons input inputs ih =>
    rw [createWorktrees]
    have hstep : ((createWorktree u (u.attempt created.length) input.repo.path
        (c.workspaceDir ++ [input.repo.name]) c.branchName input.targetBranch w).1.branches path
        other).isSome = true := createWorktree_isSome h
    cases hrun : createWorktree u (u.attempt created.length) input.repo.path
        (c.workspaceDir ++ [input.repo.name]) c.branchName input.targetBranch w with
    | mk w₁ result =>
      rw [hrun] at hstep
      cases result with
      | error cause => exact hstep
      | ok _ => exact ih _ hstep

theorem createWorktrees_left (c : Call) (u : Surroundings) (inputs : List RepoWorkspaceInput)
    (h : createBranch w input.repo.path c.branchName input.targetBranch
      (u.attempt 0).createBranch = .ok w') :
    ((createWorktrees c u (input :: inputs) [] w).1.branches input.repo.path c.branchName).isSome =
      true := by
  have hensured := ensureWorktreeExists_branches u (u.attempt 0) input.repo.path
    (c.workspaceDir ++ [input.repo.name]) c.branchName w'
  rw [createWorktrees, createWorktree]
  dsimp only [List.length_nil]
  rw [h]
  dsimp only
  cases hrun : ensureWorktreeExists u (u.attempt 0) input.repo.path
      (c.workspaceDir ++ [input.repo.name]) c.branchName w' with
  | mk w₁ result =>
    rw [hrun] at hensured
    have hsome : (w₁.branches input.repo.path c.branchName).isSome = true := by
      rw [hensured]
      exact (createBranch_ok h).2.1
    cases result with
    | error cause => exact hsome
    | ok _ => exact createWorktrees_isSome c u inputs _ hsome

theorem cleanupCreatedWorktrees_branches (outside : Nat → Outside) (created : List RepoWorktree)
    (i : Nat) (w : World) : (cleanupCreatedWorktrees outside created i w).branches = w.branches := by
  induction created generalizing i w with
  | nil => rfl
  | cons worktree created ih =>
    rw [cleanupCreatedWorktrees, ih]
    rfl

theorem removeDir_branches (w : World) (path : Node) (outside : Outside) :
    (w.removeDir path outside).branches = w.branches := by
  rw [World.removeDir]
  split <;> rfl

theorem createBranch_congr (hbranches : w'.branches = w.branches) (hremotes : w'.remotes = w.remotes)
    (repo : Node) (name base : String) (outside : Outside) :
    (createBranch w' repo name base outside).toBool = (createBranch w repo name base outside).toBool := by
  rw [createBranch, createBranch, World.findBranch, World.findBranch, hbranches, hremotes]
  split
  · rfl
  · split <;> rfl

theorem isFile_any_eq_false (h : node.inits.any (isFile disk) = false) (hn : n <+: node) :
    isFile disk n = false :=
  Bool.eq_false_iff.2 (List.any_eq_false.1 h n ((List.mem_inits n node).2 hn))

theorem createDirAll_same (h : createDirAll node disk = some disk')
    (hthere : ∀ n, n <+: node → (disk n).isSome = true) : disk' = disk := by
  funext n
  rw [createDirAll_apply h]
  split
  · rename_i hmade
    obtain ⟨hle, hnone⟩ := Bool.and_eq_true_iff.1 hmade
    have hsome := hthere n (List.isPrefixOf_iff_prefix.1 hle)
    rw [Option.isNone_iff_eq_none.1 hnone] at hsome
    cases hsome
  · rfl

theorem createDirAll_makes (h : createDirAll node disk = some disk') (hle : n <+: node)
    (hnone : disk n = none) : isDir disk' n = true := by
  apply isDir_iff.2
  rw [createDirAll_apply h, hnone, List.isPrefixOf_iff_prefix.2 hle]
  rfl

theorem isDir_of_none (h : disk n = none) : isDir disk n = false := by
  rw [isDir, h]
  rfl

theorem createDirAll_erased (h : isDir disk node = true) :
    createDirAll node (fun n => if n = node then none else disk n) = createDirAll node disk := by
  have hfile : isFile (fun n => if n = node then none else disk n) = isFile disk := by
    funext n
    rw [isFile, isFile]
    by_cases hn : n = node
    · rw [if_pos hn, hn, isDir_iff.1 h]
    · rw [if_neg hn]
  rw [createDirAll, createDirAll, hfile]
  split
  · rfl
  · congr 1
    funext n
    by_cases hn : n = node
    · have hle : n.isPrefixOf node = true := List.isPrefixOf_iff_prefix.2 (hn ▸ List.prefix_rfl)
      rw [if_pos hn, hle, hn, isDir_iff.1 h]
      rfl
    · rw [if_neg hn]

theorem setDisk_self (w : World) : w.setDisk w.site.disk = w := rfl

theorem Restored.refl (c : Call) (w : World) : Restored c w w :=
  ⟨fun _ _ _ => rfl, fun _ _ _ _ => Iff.rfl, fun _ => id, fun _ _ => id⟩

theorem createWorkspace_again {c : Call}
    (h : ∀ stop w₁, w.makeDirs c.workspaceDir stop = (w₁, .ok ()) →
      w'.makeDirs c.workspaceDir stop = (w₁, .ok ()))
    (hok : (createWorkspace c u w).2 = .ok container) :
    (createWorkspace c u w').2 = .ok container := by
  rw [createWorkspace] at hok ⊢
  split at hok
  · cases hok
  · rename_i hrepos
    rw [if_neg hrepos]
    cases hmake : w.makeDirs c.workspaceDir u.workspaceDir with
    | mk w₁ result =>
      rw [hmake] at hok
      cases result with
      | error e => cases hok
      | ok _ =>
        rw [h _ _ hmake]
        exact hok

theorem restored_setDisk {c : Call} {disk : Disk}
    (hdirs : ∀ n, isDir disk n = true → isDir w.site.disk n = true)
    (hmake : createDirAll c.workspaceDir disk = createDirAll c.workspaceDir w.site.disk) :
    Restored c w (w.setDisk disk) where
  branches _ _ _ := rfl
  worktrees _ _ _ _ := Iff.rfl
  directories := hdirs
  again u container hok := by
    apply createWorkspace_again _ hok
    intro stop w₁ h
    cases stop with
    | some depth => cases h
    | none =>
      simp only [World.makeDirs] at h ⊢
      rw [show (w.setDisk disk).site.disk = disk from rfl, hmake]
      cases hcreate : createDirAll c.workspaceDir w.site.disk with
      | none =>
        rw [hcreate] at h
        cases h
      | some made =>
        rw [hcreate] at h
        exact h

theorem allThere_iff {nodes : List Node} :
    allThere w nodes = true ↔ ∀ n ∈ nodes, (w.site.disk n).isSome = true := List.all_eq_true

theorem makeDirs_stopped (c : Call) (w : World) (depth : Nat) :
    Restored c w (w.makeDirs c.workspaceDir (some depth)).1 ↔
      ((c.workspaceDir.dropLast.take depth).inits.any (isFile w.site.disk) ||
        allThere w (c.workspaceDir.dropLast.take depth).inits) = true := by
  let node := c.workspaceDir.dropLast.take depth
  change Restored c w (w.setDisk ((createDirAll node w.site.disk).getD w.site.disk)) ↔
    (node.inits.any (isFile w.site.disk) || allThere w node.inits) = true
  cases hfile : node.inits.any (isFile w.site.disk) with
  | true =>
    have hnone : createDirAll node w.site.disk = none := by rw [createDirAll, if_pos hfile]
    rw [hnone]
    exact iff_of_true (.refl c w) rfl
  | false =>
    obtain ⟨made, hmade⟩ := createDirAll_isSome fun n hn => isFile_any_eq_false hfile hn
    rw [hmade, Option.getD_some, Bool.false_or, allThere_iff]
    constructor
    · intro h n hn
      cases hnone : w.site.disk n with
      | some item => rfl
      | none =>
        have hdir := h.directories n (createDirAll_makes hmade ((List.mem_inits n node).1 hn) hnone)
        rw [isDir_of_none hnone] at hdir
        cases hdir
    · intro hthere
      rw [createDirAll_same hmade fun n hn => hthere n ((List.mem_inits n node).2 hn)]
      exact .refl c w

theorem removeDir_disk (w : World) (path : Node) (outside : Outside) :
    w.removeDir path outside = w ∨
      w.removeDir path outside = w.setDisk fun n => if n = path then none else w.site.disk n := by
  rw [World.removeDir]
  split
  · exact .inl rfl
  · exact .inr rfl

theorem removeDir_made {disk : Disk} (hmade : createDirAll path w.site.disk = some disk)
    (hnone : w.site.disk path = none) (outside : Outside) :
    (w.setDisk disk).removeDir path outside =
      if (!outside.fails && !outside.listing.any fun name => (w.site.disk (path ++ [name])).isSome) =
        true then
        w.setDisk fun n => if n = path then none else disk n
      else w.setDisk disk := by
  have hdir : isDir disk path = true := createDirAll_makes hmade List.prefix_rfl hnone
  have hlisting : (outside.listing.any fun name => (disk (path ++ [name])).isSome) =
      outside.listing.any fun name => (w.site.disk (path ++ [name])).isSome := by
    congr 1
    funext name
    rw [createDirAll_of_not_above hmade (not_below_parent path name)]
  rw [World.removeDir]
  change (if outside.fails = true ∨ isDir disk path = false ∨
    (outside.listing.any fun name => (disk (path ++ [name])).isSome) = true then _ else _) = _
  rw [hdir, hlisting]
  cases outside.fails <;>
    cases (outside.listing.any fun name => (w.site.disk (path ++ [name])).isSome) <;> rfl

theorem createDirAll_no_file (h : createDirAll node disk = some disk')
    (hitem : disk node = some (.file content)) : False := by
  have hfile : node.inits.any (isFile disk) = true :=
    List.any_eq_true.2 ⟨node, (List.mem_inits node node).2 List.prefix_rfl, by rw [isFile, hitem]⟩
  rw [createDirAll, if_pos hfile] at h
  cases h

theorem removeDir_restored {c : Call} {disk : Disk}
    (hmade : createDirAll c.workspaceDir w.site.disk = some disk) :
    Restored c w ((w.setDisk disk).removeDir c.workspaceDir u.removeDir) ↔
      leavesNoDir c u w = true := by
  rw [leavesNoDir, Bool.and_eq_true, allThere_iff]
  by_cases habove : ∀ n ∈ c.workspaceDir.inits.filter (· ≠ c.workspaceDir),
      (w.site.disk n).isSome = true
  · have hthere (n : Node) (hle : n <+: c.workspaceDir) (hne : n ≠ c.workspaceDir) :
        (w.site.disk n).isSome = true :=
      habove n (List.mem_filter.2 ⟨(List.mem_inits n _).2 hle, decide_eq_true hne⟩)
    rw [and_iff_right habove]
    cases hitem : w.site.disk c.workspaceDir with
    | some item =>
      have hdir : isDir w.site.disk c.workspaceDir = true := by
        cases item with
        | dir => exact isDir_iff.2 hitem
        | file content => exact (createDirAll_no_file hmade hitem).elim
      have hsame : disk = w.site.disk := by
        apply createDirAll_same hmade
        intro n hle
        by_cases hn : n = c.workspaceDir
        · rw [hn, hitem]
          rfl
        · exact hthere n hle hn
      rw [hsame, setDisk_self, hdir, Bool.true_or]
      apply iff_of_true _ rfl
      cases removeDir_disk w c.workspaceDir u.removeDir with
      | inl hkept =>
        rw [hkept]
        exact .refl c w
      | inr herased =>
        rw [herased]
        apply restored_setDisk _ (createDirAll_erased hdir)
        intro n hn
        rw [isDir_iff] at hn ⊢
        split at hn
        · cases hn
        · exact hn
    | none =>
      rw [removeDir_made hmade hitem, isDir_of_none hitem, Bool.false_or]
      split
      · rename_i hremoved
        have hsame : (fun n => if n = c.workspaceDir then none else disk n) = w.site.disk := by
          funext n
          by_cases hn : n = c.workspaceDir
          · rw [if_pos hn, hn, hitem]
          · rw [if_neg hn, createDirAll_apply hmade]
            split
            · rename_i hmissing
              obtain ⟨hle, hnone⟩ := Bool.and_eq_true_iff.1 hmissing
              have hsome := hthere n (List.isPrefixOf_iff_prefix.1 hle) hn
              rw [Option.isNone_iff_eq_none.1 hnone] at hsome
              cases hsome
            · rfl
        rw [hsame, setDisk_self]
        exact iff_of_true (.refl c w) hremoved
      · rename_i hkept
        apply iff_of_false _ hkept
        intro h
        have hdir := h.directories _ (createDirAll_makes hmade List.prefix_rfl hitem)
        rw [isDir_of_none hitem] at hdir
        cases hdir
  · apply iff_of_false _ fun h => habove h.1
    intro h
    apply habove
    intro n hn
    obtain ⟨hle, hne⟩ := List.mem_filter.1 hn
    cases hnone : w.site.disk n with
    | some item => rfl
    | none =>
      have hmadeDir := createDirAll_makes hmade ((List.mem_inits n _).1 hle) hnone
      have hleft : isDir ((w.setDisk disk).removeDir c.workspaceDir u.removeDir).site.disk n = true := by
        cases removeDir_disk (w.setDisk disk) c.workspaceDir u.removeDir with
        | inl hkept =>
          rw [hkept]
          exact hmadeDir
        | inr herased =>
          rw [herased, isDir_iff]
          change (if n = c.workspaceDir then none else disk n) = some .dir
          rw [if_neg (of_decide_eq_true hne)]
          exact isDir_iff.1 hmadeDir
      have hdir := h.directories n hleft
      rw [isDir_of_none hnone] at hdir
      cases hdir

/-- A call that fails restores what it found just when it fails before a branch is made, and no
directory stays. -/
theorem createWorkspace_restored (c : Call) (u : Surroundings) (w w' : World) (e : WorkspaceError)
    (h : createWorkspace c u w = (w', .error e)) : Restored c w w' ↔ restores c u w = true := by
  rw [createWorkspace] at h
  rw [restores]
  cases hrepos : c.repos with
  | nil =>
    rw [if_pos hrepos] at h
    cases h
    exact iff_of_true (.refl c w) rfl
  | cons input inputs =>
  rw [if_neg (by rw [hrepos]; exact List.cons_ne_nil _ _)] at h
  cases hstop : u.workspaceDir with
  | some depth =>
    rw [hstop] at h
    have hmake : w' = (w.makeDirs c.workspaceDir (some depth)).1 := by
      cases h
      rfl
    rw [hmake]
    exact makeDirs_stopped c w depth
  | none =>
  rw [hstop] at h
  simp only [World.makeDirs] at h
  cases hmade : createDirAll c.workspaceDir w.site.disk with
  | none =>
    rw [hmade] at h
    cases h
    have hfile : c.workspaceDir.inits.any (isFile w.site.disk) = true := by
      rw [createDirAll] at hmade
      split at hmade
      · assumption
      · cases hmade
    dsimp only
    rw [hfile]
    exact iff_of_true (.refl c w) rfl
  | some disk =>
  rw [hmade, hrepos] at h
  have hfile : c.workspaceDir.inits.any (isFile w.site.disk) = false := by
    rw [createDirAll] at hmade
    split at hmade
    · cases hmade
    · exact Bool.eq_false_iff.2 ‹_›
  have hbranch : (createBranch (w.setDisk disk) input.repo.path c.branchName input.targetBranch
      (u.attempt 0).createBranch).toBool = (createBranch w input.repo.path c.branchName
      input.targetBranch (u.attempt 0).createBranch).toBool :=
    @createBranch_congr w (w.setDisk disk) rfl rfl _ _ _ _
  dsimp only at h ⊢
  rw [hfile, ← hbranch, Bool.false_or, Bool.and_eq_true]
  cases hcreate : createBranch (w.setDisk disk) input.repo.path c.branchName input.targetBranch
      (u.attempt 0).createBranch with
  | error cause =>
    have hloop : createWorktrees c u (input :: inputs) [] (w.setDisk disk) =
        (w.setDisk disk, .failed [] input.repo.name cause) := by
      rw [createWorktrees, createWorktree]
      dsimp only [List.length_nil]
      rw [hcreate]
    rw [hloop] at h
    cases h
    exact (removeDir_restored hmade).trans (and_iff_right rfl).symm
  | ok w₁ =>
    have hleft := createWorktrees_left c u inputs hcreate
    have hnone : w.branches input.repo.path c.branchName = none := (createBranch_ok hcreate).1
    apply iff_of_false
    · intro hrestored
      have hsame := hrestored.branches input (by rw [hrepos]; exact List.mem_cons_self) c.branchName
      cases hloop : createWorktrees c u (input :: inputs) [] (w.setDisk disk) with
      | mk made outcome =>
        rw [hloop] at h hleft
        cases outcome with
        | all worktrees => cases h
        | failed created repoName cause =>
          cases h
          rw [removeDir_branches, cleanupCreatedWorktrees_branches, hnone] at hsame
          rw [hsame] at hleft
          cases hleft
    · rintro ⟨hnone, -⟩
      cases hnone

theorem createWorkspace_refused {c : Call} (hrepos : c.repos = input :: inputs)
    (hleft : (w.branches input.repo.path c.branchName).isSome = true) (u : Surroundings) :
    ∃ e, (createWorkspace c u w).2 = .error e := by
  rw [createWorkspace, if_neg (by rw [hrepos]; exact List.cons_ne_nil _ _)]
  have hbranches := makeDirs_branches w c.workspaceDir u.workspaceDir
  cases hmake : w.makeDirs c.workspaceDir u.workspaceDir with
  | mk w₁ result =>
    cases result with
    | error e => exact ⟨_, rfl⟩
    | ok _ =>
      rw [hmake] at hbranches
      rw [← hbranches] at hleft
      obtain ⟨tip, htip⟩ := Option.isSome_iff_exists.1 hleft
      have hcreate : createBranch w₁ input.repo.path c.branchName input.targetBranch
          (u.attempt 0).createBranch = .error .worktree := by
        rw [createBranch, htip]
        split
        · rfl
        · split
          · contradiction
          · rfl
      dsimp only
      rw [hrepos, createWorktrees, createWorktree]
      dsimp only [List.length_nil]
      rw [hcreate]
      exact ⟨_, rfl⟩

end

def sample : World where
  site :=
    { disk := fun n => if [[], ["work"], ["api"], ["web"]].contains n then some .dir else none
      worktrees := []
      refs := fun _ => false
      process := .idle
      answers := [] }
  branches _ name := if name = "main" then some 0 else none
  remotes _ _ := none

def sampleCall : Call :=
  ⟨["work", "task"], [⟨⟨"api", ["api"]⟩, "main"⟩, ⟨⟨"web", ["web"]⟩, "main"⟩], "cd/task"⟩

def sampleOutside (fails : Bool) : Outside :=
  ⟨fails, [], false, true, none, fun _ => false, none, true, true⟩

def sampleSurroundings (refused : Nat) : Surroundings where
  workspaceDir := none
  attempt i := ⟨sampleOutside (refused ≤ i), sampleOutside false, sampleOutside false, none,
    sampleOutside false, sampleOutside false, sampleOutside false⟩
  rollback _ := sampleOutside false
  removeDir := sampleOutside false
  checkout _ _ n :=
    if n = [] then some .dir else if n = [".git"] then some (.file "gitdir") else none

theorem createWorkspace_restored_sample :
    Restored sampleCall sample (createWorkspace sampleCall (sampleSurroundings 0) sample).1 ↔
      restores sampleCall (sampleSurroundings 0) sample = true :=
  createWorkspace_restored sampleCall (sampleSurroundings 0) sample _
    (.partialCreation "api" .worktree) (Prod.ext rfl (by decide))

/-- The second repository refuses its branch. That of the first stays, and no later call succeeds,
not even in surroundings where the call would have. -/
theorem createWorkspace_not_restored :
    ∃ w', createWorkspace sampleCall (sampleSurroundings 1) sample =
        (w', .error (.partialCreation "web" .worktree)) ∧
      ¬ Restored sampleCall sample w' ∧
      (∃ container, (createWorkspace sampleCall (sampleSurroundings 2) sample).2 = .ok container) ∧
      ∀ u, ∃ e, (createWorkspace sampleCall u w').2 = .error e := by
  have hleft : ((createWorkspace sampleCall (sampleSurroundings 1) sample).1.branches ["api"]
      "cd/task").isSome = true := by decide
  apply Exists.intro (createWorkspace sampleCall (sampleSurroundings 1) sample).1
  apply And.intro (Prod.ext rfl (by decide))
  apply And.intro
  · intro h
    exact absurd (h.branches ⟨⟨"api", ["api"]⟩, "main"⟩ List.mem_cons_self "cd/task") (by decide)
  · apply And.intro
    · exact ⟨⟨["work", "task"], [⟨"api", ["api"], ["work", "task", "api"]⟩,
        ⟨"web", ["web"], ["work", "task", "web"]⟩]⟩, by decide⟩
    · exact createWorkspace_refused rfl hleft

end Cdesktop.WorkspaceCreation
