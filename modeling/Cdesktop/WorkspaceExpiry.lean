import Cdesktop.ExecutionProcess
import Cdesktop.Run
import Mathlib.Data.List.Sort

/-! The directories of workspaces: how they are made, and how the cleanups of expired workspaces
and of orphaned directories remove them. -/

namespace Cdesktop.WorkspaceExpiry
open Table (Reply)
set_option autoImplicit true

structure Workspace where
  /-- What its `container_ref` is, or is to be. The name is made of four digits of the id and of
  the label, so another workspace may have it too. -/
  dir : String
  useWorktree : Bool
  archived : Bool
  updatedAt : Time
  hasContainerRef : Bool
  worktreeDeleted : Bool
deriving Inhabited

/-- An execution of one of the workspace's sessions. It runs until it is completed. -/
structure Execution where
  workspaceId : Uuid
  completedAt : Option Time

inductive CreationKind where
  | create
  | ensure
deriving DecidableEq

inductive CreationPhase where
  | loaded
  | touched
  | made
  | stored
  | done
deriving DecidableEq

/-- A call that makes the directory of a workspace, with what its row said when it was read. -/
structure Creation where
  kind : CreationKind
  workspaceId : Uuid
  hadContainerRef : Bool
  wasDeleted : Bool
  phase : CreationPhase

/-- Where `cleanup_expired_workspaces` is, with what it still has to do. -/
inductive Cleanup where
  | looping (todo : List Uuid)
  | deleting (id : Uuid) (todo : List Uuid)
  | marking (id : Uuid) (todo : List Uuid)

inductive Orphans where
  | looking (entries : List String)
  | deleting (path : String) (entries : List String)

/-- What became of a directory, by the creations and by the cleanup of expired workspaces. -/
inductive Act where
  | created (dir : String)
  | removed (dir : String)

structure World where
  ids : List Uuid
  row : Uuid → Workspace
  executions : List Execution
  dirs : List String
  creations : List Creation
  cleanup : Cleanup
  orphans : Orphans
  acts : List Act

def World.new : World :=
  { ids := [], row := fun _ => default, executions := [], dirs := [], creations := []
    cleanup := .looping [], orphans := .looking [], acts := [] }

def World.setRow (id : Uuid) (f : Workspace → Workspace) (w : World) : World :=
  { w with row := fun i => if i = id then f (w.row i) else w.row i }

def World.completions (id : Uuid) (w : World) : List Time :=
  (w.executions.filter fun e => e.workspaceId = id).filterMap (·.completedAt)

/-- `MAX(max(updated_at, completed_at))`, which is null where no execution has completed. -/
def World.lastActivity (id : Uuid) (w : World) : Option Time :=
  ((w.completions id).map fun completed => max (w.row id).updatedAt completed).max?

/-- The local time is compared with times in UTC. -/
def World.expired (now : Time) (localOffset : Int) (id : Uuid) (w : World) : Bool :=
  (w.row id).hasContainerRef ∧ (w.row id).worktreeDeleted = false ∧
    (w.executions.all fun e => ¬(e.workspaceId = id ∧ e.completedAt = none)) ∧
    (w.lastActivity id).any fun last =>
      (last : Int) < now + localOffset - if (w.row id).archived then 3600 else 72 * 3600

def World.findExpiredForCleanup (now : Time) (localOffset : Int) (w : World) : List Uuid :=
  List.insertionSort (fun a b => (w.completions a).max?.getD 0 ≤ (w.completions b).max?.getD 0)
    (w.ids.filter fun id => w.expired now localOffset id)

inductive Make where
  | made
  | failed (left : Bool)
deriving DecidableEq

inductive CreationMove where
  /-- `touch`, unless one was made shortly before. -/
  | touch (debounced : Bool) (reply : Reply) (now : Time)
  | make (result : Make)
  | store (reply : Reply) (now : Time)
  | clear (reply : Reply) (now : Time)
  /-- A failure of another step, or the caller going away. -/
  | abort

def World.setCreation (i : Nat) (c : Creation) (phase : CreationPhase) (w : World) : World :=
  { w with creations := w.creations.set i { c with phase } }

def World.setDir (dir : String) (w : World) : World :=
  { w with dirs := if dir ∈ w.dirs then w.dirs else w.dirs ++ [dir]
           acts := w.acts ++ [.created dir] }

/-- A write to the row. Where its reply is lost, it was made. -/
def World.write (id : Uuid) (reply : Reply) (f : Workspace → Workspace) (w : World) : World :=
  match reply with
  | .failed => w
  | _ => w.setRow id f

/-- `create` and `ensure_container_exists` between two of their awaits. -/
def World.creationStep (i : Nat) (c : Creation) (move : CreationMove) (w : World) : World :=
  match c.phase, move with
  | .done, _ => w
  | _, .abort => w.setCreation i c .done
  | .loaded, .touch debounced reply now =>
    if debounced then w.setCreation i c .touched
    else
      (w.write c.workspaceId reply fun ws => { ws with updatedAt := now }).setCreation i c
        (if reply = .ok then .touched else .done)
  | .touched, .make .made => (w.setDir (w.row c.workspaceId).dir).setCreation i c .made
  | .touched, .make (.failed left) =>
    (if left then w.setDir (w.row c.workspaceId).dir else w).setCreation i c .done
  | .made, .store reply now =>
    if c.kind = .ensure ∧ c.hadContainerRef then w.setCreation i c .stored
    else
      (w.write c.workspaceId reply fun ws =>
        { ws with hasContainerRef := true, updatedAt := now }).setCreation i c
        (if reply = .ok then .stored else .done)
  | .stored, .clear reply now =>
    if c.kind = .ensure ∧ c.wasDeleted then
      (w.write c.workspaceId reply fun ws =>
        { ws with worktreeDeleted := false, updatedAt := now }).setCreation i c .done
    else w.setCreation i c .done
  | _, _ => w

inductive Event where
  | insert (id : Uuid) (dir : String) (useWorktree : Bool) (now : Time)
  | touch (id : Uuid) (now : Time)
  | archive (id : Uuid)
  | load (kind : CreationKind) (id : Uuid)
  | creation (i : Nat) (move : CreationMove)
  | start (id : Uuid)
  | complete (i : Nat) (now : Time)
  | query (reply : Reply) (now : Time) (localOffset : Int)
  | next
  | remove (removed : Bool)
  | mark (reply : Reply) (now : Time)
  | readDir (entries : List String)
  | look (reply : Reply)
  | removeOrphan (removed : Bool)

def World.exec (w : World) : Event → World
  | .insert id dir useWorktree now =>
    if id ∈ w.ids then w
    else
      World.setRow id (fun _ => ⟨dir, useWorktree, false, now, false, false⟩)
        { w with ids := w.ids ++ [id] }
  | .touch id now => w.setRow id fun ws => { ws with updatedAt := now }
  | .archive id => w.setRow id fun ws => { ws with archived := true }
  | .load kind id =>
    -- In direct mode there is nothing to make.
    if id ∈ w.ids ∧ (w.row id).useWorktree then
      { w with creations := w.creations ++ [⟨kind, id, (w.row id).hasContainerRef,
        (w.row id).worktreeDeleted, if kind = .create then .touched else .loaded⟩] }
    else w
  | .creation i move =>
    match w.creations[i]? with
    | some c => w.creationStep i c move
    | none => w
  | .start id =>
    if id ∈ w.ids ∧ ((w.row id).useWorktree → (w.row id).hasContainerRef) then
      { w with executions := w.executions ++ [⟨id, none⟩] }
    else w
  | .complete i now =>
    match w.executions[i]? with
    | some e => { w with executions := w.executions.set i ⟨e.workspaceId, e.completedAt.or (some now)⟩ }
    | none => w
  | .query reply now localOffset =>
    match w.cleanup with
    | .looping [] =>
      if reply = .ok then { w with cleanup := .looping (w.findExpiredForCleanup now localOffset) }
      else w
    | _ => w
  | .next =>
    match w.cleanup with
    | .looping (id :: todo) =>
      if (w.row id).useWorktree then { w with cleanup := .deleting id todo }
      else { w with cleanup := .looping todo }
    | _ => w
  | .remove removed =>
    match w.cleanup with
    | .deleting id todo =>
      let dir := (w.row id).dir
      if dir ∈ w.dirs ∧ removed then
        { w with
          cleanup := .marking id todo
          dirs := w.dirs.filter fun d => d ≠ dir
          acts := w.acts ++ [.removed dir] }
      -- A removal that failed is only logged.
      else { w with cleanup := .marking id todo }
    | _ => w
  | .mark reply now =>
    match w.cleanup with
    | .marking id todo =>
      World.write id reply (fun ws => { ws with worktreeDeleted := true, updatedAt := now })
        { w with cleanup := .looping todo }
    | _ => w
  | .readDir entries =>
    match w.orphans with
    | .looking [] => { w with orphans := .looking entries }
    | _ => w
  | .look reply =>
    match w.orphans with
    | .looking (path :: entries) =>
      if path ∈ w.dirs ∧ reply = .ok ∧
          w.ids.all fun id => ¬((w.row id).hasContainerRef ∧ (w.row id).dir = path) then
        { w with orphans := .deleting path entries }
      else { w with orphans := .looking entries }
    | _ => w
  | .removeOrphan removed =>
    match w.orphans with
    | .deleting path entries =>
      { w with
        orphans := .looking entries
        dirs := if removed then w.dirs.filter fun d => d ≠ path else w.dirs }
    | _ => w

def World.deletes (path : String) (w : World) : Bool :=
  (match w.cleanup with
    | .deleting id _ => (w.row id).dir = path
    | _ => false) ||
  match w.orphans with
  | .deleting p _ => p = path
  | _ => false

/-- An execution of the directory's workspace runs, or the directory is made and its
`container_ref` not stored yet. -/
def World.inUse (path : String) (w : World) : Bool :=
  (w.ids.any fun id => (w.row id).dir = path ∧ (w.row id).hasContainerRef ∧
    w.executions.any fun e => e.workspaceId = id ∧ e.completedAt = none) ||
  w.creations.any fun c =>
    (w.row c.workspaceId).dir = path ∧ c.phase = .made ∧ c.hadContainerRef = false

/-- Whether the cleanup of expired workspaces removed the directory and nothing made it anew. -/
def gone (dir : String) (acts : List Act) : Bool :=
  acts.foldl (fun was act =>
    match act with
    | .created d => if d = dir then false else was
    | .removed d => if d = dir then true else was) false

def Cleanup.held : Cleanup → List Uuid
  | .looping todo => todo
  | .deleting id todo => id :: todo
  | .marking id todo => id :: todo

def World.quiet (w : World) : Bool :=
  w.cleanup.held = [] ∧ w.creations.all fun c => c.phase = .done

end Cdesktop.WorkspaceExpiry
