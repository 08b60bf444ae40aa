import Cdesktop.LegacyMigration

namespace Cdesktop.LegacyMigration
open Paths
set_option autoImplicit true

/-- A directory whose entries are the workspace's directory or neither above nor below it. -/
def Workspace.Clear (ws : Workspace) (dir : Node) : Prop :=
  ¬ ws.dir <+: dir ∧ (dir <+: ws.baseDir → dir = ws.baseDir)

instance (ws : Workspace) (dir : Node) : Decidable (ws.Clear dir) :=
  inferInstanceAs (Decidable (_ ∧ _))

structure WorktreeFiles (files : Disk) : Prop where
  dir : files [] = some .dir
  marker : isFile files [".git"] = true

/-- The workspace has the old layout, and the process has not started. -/
structure Workspace.Legacy (ws : Workspace) (files : Disk) (w : World) : Prop where
  contents : Contains w.disk ws.dir files
  registered : ⟨ws.repo.path, ws.dir, ws.branch⟩ ∈ w.worktrees
  above : ∀ n, n <+: ws.baseDir → w.disk n = some .dir
  named : w.refs ws.dir = true
  down : w.process = .down
  fresh : w.answers = []

def World.between (w : World) : Bool :=
  match w.process with
  | .ensuring (.createDir _) | .ensuring (.moveInto _) => true
  | _ => false

/-- The first move, where it is done, takes the worktree to the temporary path. -/
def Workspace.TempFree (ws : Workspace) (disk : Disk) : Prop :=
  isDir disk ws.tempPath = true → (disk (ws.tempPath ++ [ws.name])).isSome = true

def Workspace.PlaceFree (ws : Workspace) (disk : Disk) : Prop :=
  isFile disk (ws.dir ++ [".git"]) = true → disk (ws.worktreePath ws.repo) = none

instance (ws : Workspace) (disk : Disk) : Decidable (ws.PlaceFree disk) :=
  inferInstanceAs (Decidable (_ → _))

instance (ws : Workspace) (disk : Disk) : Decidable (ws.TempFree disk) :=
  inferInstanceAs (Decidable (_ → _))

def Workspace.StageUnbroken (ws : Workspace) (disk : Disk) (outside : Outside) : Stage → Prop
  | .ensure _ => ws.PlaceFree disk
  | .moveAside _ => ws.TempFree disk
  | .createDir _ | .moveInto _ => outside.fails = false
  | .verify _ _ => outside.unreadable = false
  | .removeAside _ | .makeDir _ | .checkBranch _ _ | .createBranch _ _ | .cleanup _ _
  | .makeParent _ _ | .add _ _ | .addAgain _ _ => True

instance (ws : Workspace) (disk : Disk) (outside : Outside) :
    ∀ stage, Decidable (ws.StageUnbroken disk outside stage)
  | .ensure _ => inferInstanceAs (Decidable (ws.PlaceFree disk))
  | .moveAside _ => inferInstanceAs (Decidable (ws.TempFree disk))
  | .createDir _ | .moveInto _ | .verify _ _ => inferInstanceAs (Decidable (_ = _))
  | .removeAside _ | .makeDir _ | .checkBranch _ _ | .createBranch _ _ | .cleanup _ _
  | .makeParent _ _ | .add _ _ | .addAgain _ _ => inferInstanceAs (Decidable True)

/-- Between the two moves nothing fails and the process does not die; what the migration looks at is
free when it does; and git can open the worktree. -/
def Workspace.Unbroken (ws : Workspace) (w : World) : Event → Prop
  | .crash => w.between = false
  | .step outside =>
    match w.process with
    | .ensuring stage => ws.StageUnbroken w.disk outside stage
    | .down | .sweeping _ | .idle => True
  | .restart _ | .ensure | .rows _ => True

instance (ws : Workspace) (w : World) (event : Event) : Decidable (ws.Unbroken w event) :=
  match event, w with
  | .crash, _ => inferInstanceAs (Decidable (_ = _))
  | .step outside, ⟨disk, _, _, .ensuring stage, _⟩ =>
    inferInstanceAs (Decidable (ws.StageUnbroken disk outside stage))
  | .step _, ⟨_, _, _, .down, _⟩ | .step _, ⟨_, _, _, .sweeping _, _⟩ | .step _, ⟨_, _, _, .idle, _⟩
  | .restart _, _ | .ensure, _ | .rows _, _ => inferInstanceAs (Decidable True)

/-- The files are where they were, on their way, or where they belong. There they are when a call
has answered that all is in place. -/
def Workspace.Kept (ws : Workspace) (files : Disk) (w : World) : Prop :=
  (Contains w.disk ws.dir files ∨ (w.between = true ∧ Contains w.disk ws.tempPath files) ∨
      Contains w.disk (ws.worktreePath ws.repo) files) ∧
    (.ok () ∈ w.answers → Contains w.disk (ws.worktreePath ws.repo) files)

/-- A call with no step that fails puts the files where they belong. -/
def Workspace.Completes (ws : Workspace) (files : Disk) (w : World) : Prop :=
  w.process = .idle →
    (isFile w.disk (ws.dir ++ [".git"]) = true →
      w.disk (ws.worktreePath ws.repo) = none ∧ w.disk ws.tempPath = none) →
    ∀ outsides : List Outside, 5 ≤ outsides.length → (∀ outside ∈ outsides, outside.fails = false ∧ outside.unreadable = false) →
      let w' := Run.run (World.exec ws) w (.ensure :: outsides.map .step)
      w'.process = .idle ∧ w'.answers = w.answers ++ [.ok ()] ∧
        Contains w'.disk (ws.worktreePath ws.repo) files

/-- Nothing on the way to the workspace, or in it, and none of its worktrees is changed. -/
structure Undisturbed (ws : Workspace) (w w' : World) : Prop where
  disk : ∀ n, ws.dir <+: n ∨ n <+: ws.dir → w'.disk n = w.disk n
  worktrees : ∀ t ∈ w.worktrees, ws.dir <+: t.path →
    (w.disk (t.path ++ [".git"])).isSome = true → t ∈ w'.worktrees
  refs : w'.refs = w.refs
  answers : w'.answers = w.answers

theorem Undisturbed.refl (ws : Workspace) (w : World) : Undisturbed ws w w where
  disk _ _ := rfl
  worktrees _ ht _ _ := ht
  refs := rfl
  answers := rfl

theorem Undisturbed.trans (h : Undisturbed ws w w') (h' : Undisturbed ws w' w'') :
    Undisturbed ws w w'' where
  disk n hn := (h'.disk n hn).trans (h.disk n hn)
  worktrees t ht hpath hmarker := by
    apply h'.worktrees t (h.worktrees t ht hpath hmarker) hpath
    rw [h.disk _ (.inl (hpath.trans (List.prefix_append _ _)))]
    exact hmarker
  refs := h'.refs.trans h.refs
  answers := h'.answers.trans h.answers

theorem eraseBelow_near (h : Apart path dir) (hn : dir <+: n ∨ n <+: dir) (kept : Node → Bool)
    (disk : Disk) : eraseBelow path kept disk n = disk n := by
  apply eraseBelow_of_not_below
  intro hbelow
  cases hn with
  | inl hle =>
    cases List.prefix_or_prefix_of_prefix hbelow hle with
    | inl hle' => exact h.1 hle'
    | inr hle' => exact h.2 hle'
  | inr hle => exact h.1 (hbelow.trans hle)

variable {w : World} {ws : Workspace}

theorem undisturbed_erase (h : Apart path ws.dir) (kept : Node → Bool) :
    Undisturbed ws w { w with disk := eraseBelow path kept w.disk } where
  disk _ hn := eraseBelow_near h hn kept w.disk
  worktrees _ ht _ _ := ht
  refs := rfl
  answers := rfl

theorem undisturbed_removeDirAll (h : Apart path ws.dir) (outside : Outside) :
    Undisturbed ws w (w.removeDirAll path outside).1 := by
  rw [World.removeDirAll]
  split
  · split
    · exact undisturbed_erase h _
    · exact undisturbed_erase h _
  · exact Undisturbed.refl ws w

theorem undisturbed_unregister (h : Apart path ws.dir) (repo : Node) :
    Undisturbed ws w (w.unregister repo path) where
  disk _ _ := rfl
  worktrees t ht hpath _ := by
    apply List.mem_filter.mpr
    have hne : t.path ≠ path := by
      intro heq
      rw [heq] at hpath
      exact h.2 hpath
    simp [ht, hne]
  refs := rfl
  answers := rfl

theorem undisturbed_prune (ws : Workspace) (w : World) (repo : Node) :
    Undisturbed ws w (w.prune repo) where
  disk _ _ := rfl
  worktrees t ht _ hmarker := by
    apply List.mem_filter.mpr
    rw [hmarker, Bool.or_true]
    exact ⟨ht, rfl⟩
  refs := rfl
  answers := rfl

theorem undisturbed_comprehensive (h : Apart path ws.dir) (repo : Node) (outside : Outside) :
    Undisturbed ws w (comprehensiveWorktreeCleanup w repo path outside).1 := by
  have hunregister : ∀ w : World, Undisturbed ws w
      (if outside.unregistered then w.unregister repo path else w) := by
    intro w
    split
    · exact undisturbed_unregister h repo
    · exact Undisturbed.refl ws w
  have hremove := ((undisturbed_erase (w := w) h outside.gitKept).trans (hunregister _)).trans
    (undisturbed_removeDirAll h outside)
  rw [comprehensiveWorktreeCleanup]
  split
  · rename_i heq
    rw [heq] at hremove
    exact hremove
  · rename_i heq
    rw [heq] at hremove
    apply hremove.trans
    dsimp only
    split
    · exact undisturbed_prune ws _ repo
    · exact Undisturbed.refl ws _

theorem undisturbed_cleanupWorktree (h : Apart path ws.dir) (outside : Outside) :
    Undisturbed ws w (cleanupWorktree w path outside).1 := by
  rw [cleanupWorktree]
  split
  · rw [comprehensiveWorktreeCleanupAsync]
    split
    · exact Undisturbed.refl ws w
    · split
      · exact undisturbed_comprehensive h _ outside
      · exact undisturbed_removeDirAll h outside
  · exact undisturbed_removeDirAll h outside

def Workspace.Spares (ws : Workspace) : Sweep → Prop
  | .directory dir => ws.Clear dir
  | .entry path => path = ws.dir ∨ Apart path ws.dir
  | .suspected path | .remove path => Apart path ws.dir

theorem entry_clear {dir : Node} (h : ws.Clear dir) (name : String) :
    dir ++ [name] = ws.dir ∨ Apart (dir ++ [name]) ws.dir := by
  by_cases heq : dir ++ [name] = ws.dir
  · exact .inl heq
  apply Or.inr
  apply And.intro
  · intro hle
    rw [Workspace.dir, List.prefix_concat_iff] at hle
    cases hle with
    | inl hself => exact heq hself
    | inr habove =>
      have hdir := h.2 ((List.prefix_append dir [name]).trans habove)
      rw [hdir] at habove
      exact not_below_parent ws.baseDir name habove
  · intro hle
    rw [List.prefix_concat_iff] at hle
    cases hle with
    | inl hself => exact heq hself.symm
    | inr hbelow => exact h.1 hbelow

theorem sweep_spares (h : ws.Spares task) (hnamed : w.refs ws.dir = true) (outside : Outside) :
    Undisturbed ws w (w.sweep outside task).1 ∧
      ∀ task' ∈ (w.sweep outside task).2, ws.Spares task' := by
  cases task with
  | directory dir =>
    rw [World.sweep]
    split
    · apply And.intro (Undisturbed.refl ws w)
      intro task' htask
      obtain ⟨name, -, rfl⟩ := List.mem_map.mp htask
      exact entry_clear h name
    · exact ⟨Undisturbed.refl ws w, List.forall_mem_nil _⟩
  | entry path =>
    rw [World.sweep]
    split
    next hguard =>
      have hapart : Apart path ws.dir := by
        cases h with
        | inl hself =>
          subst hself
          simp [hnamed] at hguard
        | inr hapart => exact hapart
      apply And.intro (Undisturbed.refl ws w)
      intro task' htask
      cases List.mem_append.mp htask with
      | inl hsuspected =>
        split at hsuspected
        · cases hsuspected
        · obtain ⟨name, -, rfl⟩ := List.mem_map.mp hsuspected
          exact hapart.append [name]
      | inr hremove =>
        rw [List.mem_singleton.mp hremove]
        exact hapart
    · exact ⟨Undisturbed.refl ws w, List.forall_mem_nil _⟩
  | suspected path =>
    rw [World.sweep]
    split
    · apply And.intro _ (List.forall_mem_nil _)
      dsimp only
      rw [cleanupSuspectedWorktree]
      split
      · exact undisturbed_cleanupWorktree h outside
      · exact Undisturbed.refl ws w
    · exact ⟨Undisturbed.refl ws w, List.forall_mem_nil _⟩
  | remove path => exact ⟨undisturbed_removeDirAll h outside, List.forall_mem_nil _⟩

structure Workspace.Placed (ws : Workspace) (files : Disk) (path : Node) (w : World) : Prop where
  contents : Contains w.disk path files
  registered : ⟨ws.repo.path, path, ws.branch⟩ ∈ w.worktrees
  above : ∀ n, n <+: ws.baseDir → w.disk n = some .dir

def Workspace.Doing (ws : Workspace) (stages : Stage → Prop) : Process → Prop
  | .down | .idle => True
  | .sweeping todo => ∀ task ∈ todo, ws.Spares task
  | .ensuring stage => stages stage

def Workspace.OldStage (ws : Workspace) : Stage → Prop
  | .ensure inputs => inputs = [ws.input]
  | .moveAside repo => repo = ws.repo
  | _ => False

def Workspace.NewStage (ws : Workspace) : Stage → Prop
  | .ensure inputs | .makeDir inputs => inputs = [ws.input]
  | .removeAside repo => repo = ws.repo
  | .checkBranch input rest | .createBranch input rest | .verify input rest =>
    input = ws.input ∧ rest = []
  | _ => False

structure Workspace.AtOld (ws : Workspace) (files : Disk) (w : World) : Prop extends
    ws.Placed files ws.dir w where
  open_ : .ok () ∉ w.answers
  doing : ws.Doing ws.OldStage w.process

structure Workspace.AtTemp (ws : Workspace) (files : Disk) (w : World) : Prop extends
    ws.Placed files ws.tempPath w where
  open_ : .ok () ∉ w.answers
  empty : w.disk (ws.worktreePath ws.repo) = none
  doing : (w.process = .ensuring (.createDir ws.repo) ∧ w.disk ws.dir = none) ∨
    (w.process = .ensuring (.moveInto ws.repo) ∧ w.disk ws.dir = some .dir)

structure Workspace.AtNew (ws : Workspace) (files : Disk) (w : World) : Prop extends
    ws.Placed files (ws.worktreePath ws.repo) w where
  dir : w.disk ws.dir = some .dir
  doing : ws.Doing ws.NewStage w.process

structure Workspace.Inv (ws : Workspace) (files : Disk) (w : World) : Prop where
  named : w.refs ws.dir = true
  place : ws.AtOld files w ∨ ws.AtTemp files w ∨ ws.AtNew files w

theorem temp_apart (ws : Workspace) : Apart ws.tempPath ws.dir := by
  apply apart_of_ne
  intro heq
  have hlength := congrArg String.length heq
  simp at hlength

theorem dir_le_worktreePath (ws : Workspace) (repo : Repo) : ws.dir <+: ws.worktreePath repo :=
  List.prefix_append _ _

theorem dropLast_worktreePath (ws : Workspace) (repo : Repo) :
    (ws.worktreePath repo).dropLast = ws.dir :=
  List.dropLast_concat

theorem not_dir_le_above {n : Node} (h : n <+: ws.baseDir) : ¬ ws.dir <+: n := by
  intro hle
  exact not_below_parent ws.baseDir ws.name (hle.trans h)

theorem not_temp_le_above {n : Node} (h : n <+: ws.baseDir) :
    ¬ ws.tempPath <+: n := by
  intro hle
  exact not_below_parent ws.baseDir _ (hle.trans h)

theorem Workspace.Placed.setUp (h : ws.Placed files path w)
    (hfiles : WorktreeFiles files) : isWorktreeProperlySetUp w ws.repo.path path = true := by
  rw [isWorktreeProperlySetUp, h.contents.root, hfiles.dir, Option.isSome_some, Bool.true_and,
    List.any_eq_true]
  exact ⟨_, h.registered, by simp⟩

theorem Workspace.Placed.marker (h : ws.Placed files path w)
    (hfiles : WorktreeFiles files) : isFile w.disk (path ++ [".git"]) = true := by
  rw [isFile_congr (h.contents [".git"])]
  exact hfiles.marker

theorem Workspace.Placed.undisturbed (h : ws.Placed files path w)
    (hfiles : WorktreeFiles files) (hpath : ws.dir <+: path) (hkept : Undisturbed ws w w') :
    ws.Placed files path w' where
  contents := h.contents.congr fun rest =>
    hkept.disk _ (.inl (hpath.trans (List.prefix_append path rest)))
  registered := hkept.worktrees _ h.registered hpath (isSome_of_isFile (h.marker hfiles))
  above n hn := by
    rw [hkept.disk n (.inr (hn.trans (List.prefix_append _ _)))]
    exact h.above n hn

theorem Workspace.Placed.of_eq (h : ws.Placed files path w)
    (hdisk : w'.disk = w.disk) (hworktrees : w'.worktrees = w.worktrees) :
    ws.Placed files path w' where
  contents := by rw [hdisk]; exact h.contents
  registered := by rw [hworktrees]; exact h.registered
  above := by rw [hdisk]; exact h.above

theorem landing_of_not_dir (h : isDir disk new = false) : landing disk old new = new := by
  rw [landing, h]
  rfl

theorem moveWorktree_ok (h : moveWorktree w repo old new outside = .ok w') :
    w.disk (landing w.disk old new) = none ∧
      w' = { w with
        disk := rename old (landing w.disk old new) w.disk
        worktrees := w.worktrees.map fun t =>
          if t.repo = repo ∧ t.path = old then { t with path := landing w.disk old new } else t } := by
  rw [moveWorktree] at h
  split at h
  next hguard =>
    simp only [Bool.and_eq_true, Option.isNone_iff_eq_none] at hguard
    exact ⟨hguard.1.2, (Except.ok.inj h).symm⟩
  · cases h

theorem Workspace.Placed.move (h : ws.Placed files old w)
    (hold : ∀ n, n <+: ws.baseDir → ¬ old <+: n) (hnew : ∀ n, n <+: ws.baseDir → ¬ new <+: n)
    (hdir : isDir w.disk new = false)
    (hmove : moveWorktree w ws.repo.path old new outside = .ok w') :
    ws.Placed files new w' := by
  rw [(moveWorktree_ok hmove).2, landing_of_not_dir hdir]
  apply Workspace.Placed.mk
  · exact h.contents.rename new
  · apply List.mem_map.mpr
    refine ⟨_, h.registered, ?_⟩
    rw [if_pos ⟨rfl, rfl⟩]
  · intro n hn
    dsimp only
    rw [rename_of_not_below (hold n hn) (hnew n hn)]
    exact h.above n hn

end Cdesktop.LegacyMigration
