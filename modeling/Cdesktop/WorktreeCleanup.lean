import Cdesktop.Paths

namespace Cdesktop.WorktreeManager
open Paths
set_option autoImplicit true

inductive WorktreeError where
  | taskJoin (message : String)
  | invalidPath (message : String)
  | io (message : String)
deriving DecidableEq

structure WorktreeCleanup where
  worktreePath : Path
  gitRepoPath : Option Path
  protectPaths : List Path

def WorktreeCleanup.new (worktreePath : Path) (gitRepoPath : Option Path) : WorktreeCleanup :=
  { worktreePath
    gitRepoPath
    protectPaths := [] }

def WorktreeCleanup.withProtectPaths (cleanup : WorktreeCleanup) (protectPaths : List Path) :
    WorktreeCleanup :=
  { cleanup with protectPaths }

structure Repo where
  name : String
  path : Path

/-- What a removal of a whole directory answers. Where it fails, it may have kept some of it. -/
inductive Removal where
  | done
  | failed (message : String) (kept : Node → Bool)

structure Outside where
  /-- What `git rev-parse --git-common-dir` leads to. -/
  inferred : Option Path
  /-- Whether the repository can be opened, where the task that asks does not fail. -/
  openable : Except String Bool
  /-- What `git worktree remove --force` keeps of the directory. -/
  gitKept : Node → Bool
  removal : Removal

def Removal.apply (removal : Removal) (node : Node) (tree : Tree) : Tree × Except WorktreeError Unit :=
  match removal with
  | .done => (removeBelow node (fun _ => false) tree, .ok ())
  | .failed message kept => (removeBelow node kept tree, .error (.io message))

/-- The first path that the guard of a cleanup stops at. -/
def refusal (target : Path) (protectPaths : List Path) : Option Path :=
  protectPaths.find? fun protected_ => same target protected_ || startsWith target protected_

/-- `if path.exists() { remove_dir_all(path) }` -/
def removeDirAll (cwd : Node) (outside : Outside) (path : Path) (tree : Tree) :
    Tree × Except WorktreeError Unit :=
  if tree (resolve cwd path) then outside.removal.apply (resolve cwd path) tree else (tree, .ok ())

def simpleWorktreeCleanup (cwd : Node) (outside : Outside) (worktreePath : Path) (tree : Tree) :
    Tree × Except WorktreeError Unit :=
  removeDirAll cwd outside worktreePath tree

/-- What git keeps of its own about the worktree is not in the tree. -/
def comprehensiveWorktreeCleanup (cwd : Node) (outside : Outside) (worktreePath : Path)
    (tree : Tree) : Tree × Except WorktreeError Unit :=
  removeDirAll cwd outside worktreePath
    (removeBelow (resolve cwd worktreePath) outside.gitKept tree)

def comprehensiveWorktreeCleanupAsync (cwd : Node) (outside : Outside) (worktreePath : Path)
    (tree : Tree) : Tree × Except WorktreeError Unit :=
  match outside.openable with
  | .error message => (tree, .error (.taskJoin message))
  | .ok true => comprehensiveWorktreeCleanup cwd outside worktreePath tree
  | .ok false => simpleWorktreeCleanup cwd outside worktreePath tree

def cleanupWorktree (cwd : Node) (outside : Outside) (worktree : WorktreeCleanup) (tree : Tree) :
    Tree × Except WorktreeError Unit :=
  match refusal worktree.worktreePath worktree.protectPaths with
  | some protected_ =>
    (tree, .error (.invalidPath ("refused to clean up worktree at " ++ worktree.worktreePath ++
      ": target equals or contains protected repo path " ++ protected_)))
  | none =>
    match worktree.gitRepoPath.or outside.inferred with
    | some _ => comprehensiveWorktreeCleanupAsync cwd outside worktree.worktreePath tree
    | none => simpleWorktreeCleanup cwd outside worktree.worktreePath tree

/-- A cleanup of a batch, with the trees before and after it. Its error is only logged. -/
structure Step where
  target : Path
  before : Tree
  after : Tree
  result : Except WorktreeError Unit

def batchCleanupWorktrees (cwd : Node) (outside : Nat → Outside) :
    List WorktreeCleanup → Nat → Tree → List Step × Tree
  | [], _, tree => ([], tree)
  | worktree :: worktrees, i, tree =>
    let cleaned := cleanupWorktree cwd (outside i) worktree tree
    let rest := batchCleanupWorktrees cwd outside worktrees (i + 1) cleaned.1
    (⟨worktree.worktreePath, tree, cleaned.1, cleaned.2⟩ :: rest.1, rest.2)

def cleanupData (workspaceDir : Path) (repos : List Repo) : List WorktreeCleanup :=
  repos.map fun repo =>
    (WorktreeCleanup.new (join workspaceDir repo.name) (some repo.path)).withProtectPaths
      (repos.map (·.path))

/-- The removal of the workspace directory itself. Where it fails, this is only logged. -/
def removeWorkspaceDir (cwd : Node) (outside : Outside) (workspaceDir : Path)
    (protectPaths : List Path) (tree : Tree) : Tree × Except WorktreeError Unit :=
  match refusal workspaceDir protectPaths with
  | some protected_ =>
    (tree, .error (.invalidPath ("refused to remove workspace dir at " ++ workspaceDir ++
      ": equals or contains protected repo path " ++ protected_)))
  | none => ((removeDirAll cwd outside workspaceDir tree).1, .ok ())

/-- What `cleanup_workspace` does: the steps for the worktrees and the one for the directory. -/
structure WorkspaceCleanup where
  worktrees : List Step
  workspace : Step

def cleanupWorkspace (cwd : Node) (outside : Nat → Outside) (workspaceDir : Path)
    (repos : List Repo) (tree : Tree) : WorkspaceCleanup :=
  let batch := batchCleanupWorktrees cwd outside (cleanupData workspaceDir repos) 0 tree
  let removed := removeWorkspaceDir cwd (outside repos.length) workspaceDir (repos.map (·.path))
    batch.2
  { worktrees := batch.1
    workspace := ⟨workspaceDir, batch.2, removed.1, removed.2⟩ }

def WorkspaceCleanup.steps (cleanup : WorkspaceCleanup) : List Step :=
  cleanup.worktrees ++ [cleanup.workspace]

def Holds (cwd : Node) (protectPaths : List Path) (node : Node) : Prop :=
  ∃ protected_ ∈ protectPaths, node <+: resolve cwd protected_

/-- A target that is a protected repository or has one below it is refused, with nothing removed. -/
def Step.Refused (cwd : Node) (protectPaths : List Path) (step : Step) : Prop :=
  Holds cwd protectPaths (resolve cwd step.target) →
    (∃ message, step.result = .error (.invalidPath message)) ∧ step.after = step.before

/-- No node that is removed is a protected repository or has one below it. -/
def Kept (cwd : Node) (protectPaths : List Path) (before after : Tree) : Prop :=
  ∀ node, before node = true → after node = false → ¬ Holds cwd protectPaths node

/-- A target with a protected repository at or below it is, by its components, at or below a
protected repository. -/
def Covered (cwd : Node) (protectPaths : List Path) (target : Path) : Prop :=
  Holds cwd protectPaths (resolve cwd target) →
    ∃ protected_ ∈ protectPaths, startsWith target protected_ = true

theorem refusal_isSome_iff (target : Path) (protectPaths : List Path) :
    (refusal target protectPaths).isSome = true ↔
      ∃ protected_ ∈ protectPaths, startsWith target protected_ = true := by
  rw [refusal, List.find?_isSome]
  constructor
  · intro h
    obtain ⟨protected_, hmem, hguard⟩ := h
    refine ⟨protected_, hmem, ?_⟩
    rw [Bool.or_eq_true] at hguard
    exact hguard.elim startsWith_of_same id
  · intro h
    obtain ⟨protected_, hmem, hinside⟩ := h
    exact ⟨protected_, hmem, by rw [hinside, Bool.or_true]⟩

theorem Holds.above (h : Holds cwd protectPaths node) (hle : target <+: node) :
    Holds cwd protectPaths target := by
  obtain ⟨protected_, hmem, hbelow⟩ := h
  exact ⟨protected_, hmem, hle.trans hbelow⟩

theorem Kept.refl (cwd : Node) (protectPaths : List Path) (tree : Tree) :
    Kept cwd protectPaths tree tree := by
  intro node hbefore hafter
  rw [hbefore] at hafter
  cases hafter

theorem Kept.trans (h : Kept cwd protectPaths before between)
    (h' : Kept cwd protectPaths between after) : Kept cwd protectPaths before after := by
  intro node hbefore hafter
  cases hbetween : between node with
  | true => exact h' node hbetween hafter
  | false => exact h node hbefore hbetween

theorem kept_removeBelow (h : ¬ Holds cwd protectPaths target) (kept : Node → Bool) (tree : Tree) :
    Kept cwd protectPaths tree (removeBelow target kept tree) := by
  intro node hbefore hafter hholds
  exact h (hholds.above (below_of_removed hbefore hafter))

/-- An answer that is no refusal. -/
def Plain (result : Except WorktreeError Unit) : Prop :=
  ∀ message, result ≠ .error (.invalidPath message)

theorem removeDirAll_plain (cwd : Node) (outside : Outside) (path : Path) (tree : Tree) :
    Plain (removeDirAll cwd outside path tree).2 := by
  intro message
  rw [removeDirAll]
  split
  · cases outside.removal with
    | done => nofun
    | failed message' kept => nofun
  · nofun

theorem removeDirAll_kept (h : ¬ Holds cwd protectPaths (resolve cwd path)) (outside : Outside)
    (tree : Tree) : Kept cwd protectPaths tree (removeDirAll cwd outside path tree).1 := by
  rw [removeDirAll]
  split
  · cases outside.removal with
    | done => exact kept_removeBelow h _ _
    | failed message kept => exact kept_removeBelow h _ _
  · exact Kept.refl _ _ _

theorem comprehensive_plain (cwd : Node) (outside : Outside) (path : Path) (tree : Tree) :
    Plain (comprehensiveWorktreeCleanupAsync cwd outside path tree).2 := by
  rw [comprehensiveWorktreeCleanupAsync]
  split
  · nofun
  · exact removeDirAll_plain _ _ _ _
  · exact removeDirAll_plain _ _ _ _

theorem comprehensive_kept (h : ¬ Holds cwd protectPaths (resolve cwd path)) (outside : Outside)
    (tree : Tree) :
    Kept cwd protectPaths tree (comprehensiveWorktreeCleanupAsync cwd outside path tree).1 := by
  rw [comprehensiveWorktreeCleanupAsync]
  split
  · exact Kept.refl _ _ _
  · exact (kept_removeBelow h _ _).trans (removeDirAll_kept h _ _)
  · exact removeDirAll_kept h _ _

def worktreeStep (cwd : Node) (outside : Outside) (worktree : WorktreeCleanup) (tree : Tree) : Step :=
  let cleaned := cleanupWorktree cwd outside worktree tree
  ⟨worktree.worktreePath, tree, cleaned.1, cleaned.2⟩

theorem worktreeStep_kept {worktree : WorktreeCleanup}
    (h : Covered cwd worktree.protectPaths worktree.worktreePath) (outside : Outside) (tree : Tree) :
    Kept cwd worktree.protectPaths tree (worktreeStep cwd outside worktree tree).after := by
  rw [worktreeStep, cleanupWorktree]
  split
  · exact Kept.refl _ _ _
  · rename_i hnone
    have hholds : ¬ Holds cwd worktree.protectPaths (resolve cwd worktree.worktreePath) := by
      intro hholds
      have hsome := (refusal_isSome_iff ..).mpr (h hholds)
      rw [hnone] at hsome
      cases hsome
    split
    · exact comprehensive_kept hholds _ _
    · exact removeDirAll_kept hholds _ _

theorem worktreeStep_refused_iff (cwd : Node) (outside : Outside) (worktree : WorktreeCleanup)
    (tree : Tree) :
    (worktreeStep cwd outside worktree tree).Refused cwd worktree.protectPaths ↔
      Covered cwd worktree.protectPaths worktree.worktreePath := by
  constructor
  · intro h hholds
    obtain ⟨⟨message, hresult⟩, -⟩ := h hholds
    rw [← refusal_isSome_iff]
    rw [worktreeStep, cleanupWorktree] at hresult
    split at hresult
    · rename_i protected_ hsome
      rw [hsome]
      rfl
    · split at hresult
      · exact (comprehensive_plain _ _ _ _ _ hresult).elim
      · exact (removeDirAll_plain _ _ _ _ _ hresult).elim
  · intro h hholds
    have hsome := (refusal_isSome_iff ..).mpr (h hholds)
    obtain ⟨protected_, hrefusal⟩ := Option.isSome_iff_exists.mp hsome
    rw [worktreeStep, cleanupWorktree, hrefusal]
    exact ⟨⟨_, rfl⟩, rfl⟩

def workspaceStep (cwd : Node) (outside : Outside) (workspaceDir : Path) (protectPaths : List Path)
    (tree : Tree) : Step :=
  let removed := removeWorkspaceDir cwd outside workspaceDir protectPaths tree
  ⟨workspaceDir, tree, removed.1, removed.2⟩

theorem workspaceStep_kept (h : Covered cwd protectPaths workspaceDir) (outside : Outside)
    (tree : Tree) :
    Kept cwd protectPaths tree (workspaceStep cwd outside workspaceDir protectPaths tree).after := by
  rw [workspaceStep, removeWorkspaceDir]
  split
  · exact Kept.refl _ _ _
  · rename_i hnone
    apply removeDirAll_kept
    intro hholds
    have hsome := (refusal_isSome_iff ..).mpr (h hholds)
    rw [hnone] at hsome
    cases hsome

theorem workspaceStep_refused_iff (cwd : Node) (outside : Outside) (workspaceDir : Path)
    (protectPaths : List Path) (tree : Tree) :
    (workspaceStep cwd outside workspaceDir protectPaths tree).Refused cwd protectPaths ↔
      Covered cwd protectPaths workspaceDir := by
  constructor
  · intro h hholds
    obtain ⟨⟨message, hresult⟩, -⟩ := h hholds
    rw [← refusal_isSome_iff]
    rw [workspaceStep, removeWorkspaceDir] at hresult
    split at hresult
    · rename_i protected_ hsome
      rw [hsome]
      rfl
    · cases hresult
  · intro h hholds
    have hsome := (refusal_isSome_iff ..).mpr (h hholds)
    obtain ⟨protected_, hrefusal⟩ := Option.isSome_iff_exists.mp hsome
    rw [workspaceStep, removeWorkspaceDir, hrefusal]
    exact ⟨⟨_, rfl⟩, rfl⟩

theorem batch_refused_iff (cwd : Node) (outside : Nat → Outside)
    (h : ∀ worktree ∈ worktrees, worktree.protectPaths = protectPaths) (i : Nat) (tree : Tree) :
    (∀ step ∈ (batchCleanupWorktrees cwd outside worktrees i tree).1,
        step.Refused cwd protectPaths) ↔
      ∀ worktree ∈ worktrees, Covered cwd protectPaths worktree.worktreePath := by
  induction worktrees generalizing i tree with
  | nil => simp [batchCleanupWorktrees]
  | cons worktree worktrees ih =>
    have hsame := h worktree List.mem_cons_self
    have hrest := ih (fun worktree' hmem => h worktree' (List.mem_cons_of_mem _ hmem)) (i + 1)
      (worktreeStep cwd (outside i) worktree tree).after
    have hfirst := worktreeStep_refused_iff cwd (outside i) worktree tree
    rw [hsame] at hfirst
    rw [batchCleanupWorktrees, List.forall_mem_cons, List.forall_mem_cons]
    exact and_congr hfirst hrest

theorem batch_kept (h : ∀ worktree ∈ worktrees, worktree.protectPaths = protectPaths ∧
      Covered cwd protectPaths worktree.worktreePath) (outside : Nat → Outside) (i : Nat)
    (tree : Tree) :
    Kept cwd protectPaths tree (batchCleanupWorktrees cwd outside worktrees i tree).2 := by
  induction worktrees generalizing i tree with
  | nil => exact Kept.refl _ _ _
  | cons worktree worktrees ih =>
    obtain ⟨hsame, hcovered⟩ := h worktree List.mem_cons_self
    subst hsame
    have hstep := worktreeStep_kept hcovered (outside i) tree
    exact hstep.trans (ih (fun worktree' hmem => h worktree' (List.mem_cons_of_mem _ hmem)) _ _)

structure Safe (cwd : Node) (protectPaths : List Path) (before : Tree) (cleanup : WorkspaceCleanup) :
    Prop where
  kept : Kept cwd protectPaths before cleanup.workspace.after
  refused : ∀ step ∈ cleanup.steps, step.Refused cwd protectPaths

def targets (workspaceDir : Path) (repos : List Repo) : List Path :=
  repos.map (fun repo => join workspaceDir repo.name) ++ [workspaceDir]

theorem protectPaths_of_mem (h : worktree ∈ cleanupData workspaceDir repos) :
    worktree.protectPaths = repos.map (·.path) := by
  obtain ⟨repo, -, heq⟩ := List.mem_map.mp h
  subst heq
  rfl

theorem forall_target_iff {P : Path → Prop} :
    (∀ target ∈ targets workspaceDir repos, P target) ↔
      (∀ worktree ∈ cleanupData workspaceDir repos, P worktree.worktreePath) ∧ P workspaceDir := by
  rw [targets, cleanupData, List.forall_mem_append, List.forall_mem_map, List.forall_mem_map,
    List.forall_mem_singleton]
  rfl

theorem cleanupWorkspace_safe_iff (cwd : Node) (outside : Nat → Outside) (workspaceDir : Path)
    (repos : List Repo) (tree : Tree) :
    Safe cwd (repos.map (·.path)) tree (cleanupWorkspace cwd outside workspaceDir repos tree) ↔
      ∀ target ∈ targets workspaceDir repos, Covered cwd (repos.map (·.path)) target := by
  have hsame : ∀ worktree ∈ cleanupData workspaceDir repos,
      worktree.protectPaths = repos.map (·.path) := fun worktree hmem => protectPaths_of_mem hmem
  have hbatch := batch_refused_iff cwd outside hsame 0 tree
  have hworkspace := workspaceStep_refused_iff cwd (outside repos.length) workspaceDir
    (repos.map (·.path)) (cleanupWorkspace cwd outside workspaceDir repos tree).workspace.before
  have hrefused : (∀ step ∈ (cleanupWorkspace cwd outside workspaceDir repos tree).steps,
      step.Refused cwd (repos.map (·.path))) ↔
      ∀ target ∈ targets workspaceDir repos, Covered cwd (repos.map (·.path)) target := by
    rw [forall_target_iff, WorkspaceCleanup.steps, List.forall_mem_append,
      List.forall_mem_singleton]
    exact and_congr hbatch hworkspace
  constructor
  · intro h
    exact hrefused.mp h.refused
  · intro h
    obtain ⟨hworktrees, hdir⟩ := forall_target_iff.mp h
    constructor
    · have hcovered : ∀ worktree ∈ cleanupData workspaceDir repos,
          worktree.protectPaths = repos.map (·.path) ∧
            Covered cwd (repos.map (·.path)) worktree.worktreePath :=
        fun worktree hmem => ⟨hsame worktree hmem, hworktrees worktree hmem⟩
      have hkept := batch_kept hcovered outside 0 tree
      exact hkept.trans (workspaceStep_kept hdir _ _)
    · exact hrefused.mpr h

/-- The guards keep the attached repositories exactly where a target that has one below it is itself
at or below one. -/
theorem cleanup_safe_iff (cwd : Node) (tree : Tree) :
    (∀ outside worktree,
      (Kept cwd worktree.protectPaths tree (worktreeStep cwd outside worktree tree).after ∧
          (worktreeStep cwd outside worktree tree).Refused cwd worktree.protectPaths) ↔
        Covered cwd worktree.protectPaths worktree.worktreePath) ∧
      ∀ outside workspaceDir repos,
        Safe cwd (repos.map (·.path)) tree (cleanupWorkspace cwd outside workspaceDir repos tree) ↔
          ∀ target ∈ targets workspaceDir repos, Covered cwd (repos.map (·.path)) target := by
  constructor
  · intro outside worktree
    have hiff := worktreeStep_refused_iff cwd outside worktree tree
    constructor
    · intro h
      exact hiff.mp h.2
    · intro h
      exact ⟨worktreeStep_kept h outside tree, hiff.mpr h⟩
  · intro outside workspaceDir repos
    exact cleanupWorkspace_safe_iff cwd outside workspaceDir repos tree

def sampleOutside : Outside :=
  { inferred := none
    openable := .ok true
    gitKept := fun _ => true
    removal := .done }

def attached : Tree := fun node =>
  [[], ["home"], ["home", "code"], ["home", "code", "app"],
    ["home", "code", "app", ".git"]].contains node

/-- The directories with the repository in them are removed and no one is told. -/
theorem attached_repository_removed :
    (cleanupWorktree [] sampleOutside
        ((WorktreeCleanup.new "/home/code" none).withProtectPaths ["/home/code/app"]) attached).2 =
        .ok () ∧
      (cleanupWorktree [] sampleOutside
        ((WorktreeCleanup.new "/home/code" none).withProtectPaths ["/home/code/app"]) attached).1
          ["home", "code", "app"] = false ∧
      (cleanupWorkspace [] (fun _ => sampleOutside) "/home/code" [⟨"web", "/home/code/app"⟩]
        attached).workspace.result = .ok () ∧
      (cleanupWorkspace [] (fun _ => sampleOutside) "/home/code" [⟨"web", "/home/code/app"⟩]
        attached).workspace.after ["home", "code", "app"] = false := by
  decide +kernel

end Cdesktop.WorktreeManager
