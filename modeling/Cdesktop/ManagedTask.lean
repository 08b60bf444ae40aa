import Cdesktop.Config
import Cdesktop.Run
import Cdesktop.Table
import Mathlib.Logic.Function.Basic

namespace Cdesktop.ManagedTask
open Table (Reply)
set_option autoImplicit true

inductive LaunchKind where
  | workspace | session
deriving DecidableEq

inductive EffectState where
  | pending | active | refused | lost
deriving DecidableEq

structure ManagedTaskEffect where
  taskId : Uuid
  epoch : Int
  requestHash : String
  kind : LaunchKind
  state : EffectState
  workspaceId : Uuid
  sessionId : Uuid
  ownerInstanceId : Uuid
  leaseId : Uuid
  effectCreated : Bool
  reason : Option String
deriving DecidableEq

structure ManagedLaunch where
  kind : LaunchKind
  json : String

structure NewManagedTaskEffect where
  taskId : Uuid
  epoch : Int
  requestHash : String
  kind : LaunchKind
  workspaceId : Uuid
  sessionId : Uuid
  ownerInstanceId : Uuid
  leaseId : Uuid

structure FinishManagedTaskEffect where
  taskId : Uuid
  epoch : Int
  ownerInstanceId : Uuid
  leaseId : Uuid
  state : EffectState
  effectCreated : Bool
  reason : Option String

structure ManagedTaskEffectResponse where
  state : EffectState
  workspaceId : Option Uuid
  sessionId : Option Uuid
  reason : Option String
  created : Bool
deriving DecidableEq

inductive ApiError where
  | badRequest (message : String)
  | conflict (message : String)
  | tooEarly (message : String)
  | database
deriving DecidableEq

def conflict : ApiError :=
  .conflict "The task epoch already belongs to different launch parameters"

def staleEpoch : ApiError := .conflict "The task epoch is stale"

def tooEarly : ApiError := .tooEarly "Managed task launch is still running"

abbrev Effects := List ManagedTaskEffect

def ManagedTaskEffect.isAt (taskId : Uuid) (epoch : Int) (row : ManagedTaskEffect) : Bool :=
  row.taskId = taskId ∧ row.epoch = epoch

def find (rows : Effects) (taskId : Uuid) (epoch : Int) : Option ManagedTaskEffect :=
  rows.find? (·.isAt taskId epoch)

def newer (rows : Effects) (taskId : Uuid) (epoch : Int) : Bool :=
  rows.any fun row => row.taskId = taskId ∧ epoch < row.epoch

def NewManagedTaskEffect.row (effect : NewManagedTaskEffect) : ManagedTaskEffect :=
  { taskId := effect.taskId
    epoch := effect.epoch
    requestHash := effect.requestHash
    kind := effect.kind
    state := .pending
    workspaceId := effect.workspaceId
    sessionId := effect.sessionId
    ownerInstanceId := effect.ownerInstanceId
    leaseId := effect.leaseId
    effectCreated := false
    reason := none }

/-- The insertion of `begin`, and whether it made a row. -/
def insert (rows : Effects) (effect : NewManagedTaskEffect) : Effects × Bool :=
  if newer rows effect.taskId effect.epoch then (rows, false)
  else
    match find rows effect.taskId effect.epoch with
    | some _ => (rows, false)
    | none => (rows ++ [effect.row], true)

def FinishManagedTaskEffect.matches (effect : FinishManagedTaskEffect) (row : ManagedTaskEffect) :
    Bool :=
  row.isAt effect.taskId effect.epoch ∧ row.state = .pending ∧
    row.ownerInstanceId = effect.ownerInstanceId ∧ row.leaseId = effect.leaseId

def finish (rows : Effects) (effect : FinishManagedTaskEffect) : Effects :=
  Table.update effect.matches (fun row =>
    { row with
      state := effect.state
      effectCreated := effect.effectCreated
      reason := effect.reason }) rows

def toResponse (record : ManagedTaskEffect) (createdByRequest : Bool) :
    ManagedTaskEffectResponse :=
  let visible := record.effectCreated
  { state := record.state
    workspaceId := if visible then some record.workspaceId else none
    sessionId := if visible then some record.sessionId else none
    reason := record.reason
    created := createdByRequest && visible }

/-- `create_or_return` between its operations on the table and on the host. -/
inductive RequestPhase where
  | received
  | inserting
  | finding (inserted : Bool)
  /-- `begin` found no row: is there a newer one? -/
  | asking
  | launching (record : ManagedTaskEffect)
  /-- The launch failed: the row is to be read again. -/
  | refinding (record : ManagedTaskEffect)
  | checking (record : ManagedTaskEffect)
  | finishing (record : ManagedTaskEffect) (state : EffectState) (effectCreated : Bool)
      (reason : Option String)
  | rereading
  | answered (answer : Except ApiError ManagedTaskEffectResponse)
  | lost
deriving DecidableEq

structure Request where
  launch : ManagedLaunch
  effect : NewManagedTaskEffect
  begun : Option ManagedTaskEffect
  phase : RequestPhase

/-- The table, the requests of all server instances, and what was done, newest first. -/
structure World where
  rows : Effects
  requests : Nat → Option Request
  launches : List (Uuid × Int)
  finalized : List FinishManagedTaskEffect

def World.new : World :=
  { rows := []
    requests := fun _ => none
    launches := []
    finalized := [] }

/-- What the host answers where the request asks it: the launch, and whether an effect is there. -/
structure Native where
  launched : Bool
  exists_ : Bool

inductive Event where
  | request (t : Nat) (taskId : Uuid) (epoch : Int) (launch : ManagedLaunch)
      (workspaceId sessionId ownerInstanceId leaseId : Uuid)
  | step (t : Nat) (reply : Reply) (native : Native)
  /-- Any other call of `finish`. -/
  | finish (effect : FinishManagedTaskEffect)
  | lose (t : Nat)

def World.setPhase (w : World) (t : Nat) (r : Request) (phase : RequestPhase) : World :=
  { w with requests := Function.update w.requests t (some { r with phase }) }

def World.refuse (w : World) (t : Nat) (r : Request) (e : ApiError) : World :=
  w.setPhase t r (.answered (.error e))

/-- `finish`, and what is noted of it. -/
def World.finish (w : World) (effect : FinishManagedTaskEffect) : World :=
  { w with
    rows := ManagedTask.finish w.rows effect
    finalized :=
      if w.rows.any effect.matches ∧ effect.state ≠ .pending then effect :: w.finalized
      else w.finalized }

def Request.finishing (r : Request) (record : ManagedTaskEffect) (state : EffectState)
    (effectCreated : Bool) (reason : Option String) : FinishManagedTaskEffect :=
  { taskId := r.effect.taskId
    epoch := r.effect.epoch
    ownerInstanceId := r.effect.ownerInstanceId
    leaseId := record.leaseId
    state, effectCreated, reason }

def World.serve (w : World) (t : Nat) (r : Request) (reply : Reply) (native : Native) : World :=
  let effect := r.effect
  match r.phase with
  | .received =>
    if effect.epoch < 1 then w.refuse t r (.badRequest "Task epoch must be positive")
    else w.setPhase t r .inserting
  | .inserting =>
    match reply with
    | .failed => w.refuse t r .database
    | .ok =>
      let (rows, inserted) := insert w.rows effect
      { w.setPhase t r (.finding inserted) with rows }
    | .lost => { w.refuse t r .database with rows := (insert w.rows effect).1 }
  | .finding inserted =>
    if reply ≠ .ok then w.refuse t r .database
    else
      match find w.rows effect.taskId effect.epoch with
      | none => w.setPhase t r .asking
      | some row =>
        if row.requestHash ≠ effect.requestHash ∨ row.kind ≠ effect.kind then
          w.refuse t r conflict
        else
          let r := { r with begun := some row }
          if inserted then w.setPhase t r (.launching row)
          else if row.state = .pending ∧ row.ownerInstanceId = effect.ownerInstanceId then
            w.refuse t r tooEarly
          else w.setPhase t r (.answered (.ok (toResponse row false)))
  | .asking =>
    if reply ≠ .ok then w.refuse t r .database
    else if newer w.rows effect.taskId effect.epoch then w.refuse t r staleEpoch
    else w.refuse t r conflict
  | .launching record =>
    let next := if native.launched then .finishing record .active true none else .refinding record
    { w.setPhase t r next with launches := (effect.taskId, effect.epoch) :: w.launches }
  | .refinding record =>
    if reply ≠ .ok then w.refuse t r .database
    else
      match find w.rows effect.taskId effect.epoch with
      | none => w.refuse t r (.badRequest "Managed task effect not found")
      | some _ => w.setPhase t r (.checking record)
  | .checking record =>
    if reply ≠ .ok then w.refuse t r .database
    else if native.exists_ then w.setPhase t r (.finishing record .active true none)
    else w.setPhase t r (.finishing record .lost false (some "native_launch_failed"))
  | .finishing record state effectCreated reason =>
    let call := r.finishing record state effectCreated reason
    match reply with
    | .failed => w.refuse t r .database
    | .ok => (w.finish call).setPhase t r .rereading
    | .lost => (w.finish call).refuse t r .database
  | .rereading =>
    if reply ≠ .ok then w.refuse t r .database
    else
      match find w.rows effect.taskId effect.epoch with
      | none => w.refuse t r .database
      | some row => w.setPhase t r (.answered (.ok (toResponse row true)))
  | .answered _ => w
  | .lost => w

def World.step (sha256 : String → String) (w : World) : Event → World
  | .request t taskId epoch launch workspaceId sessionId ownerInstanceId leaseId =>
    match w.requests t with
    | none =>
      let effect :=
        { taskId, epoch
          requestHash := sha256 launch.json
          kind := launch.kind
          workspaceId, sessionId, ownerInstanceId, leaseId }
      { w with requests := Function.update w.requests t (some ⟨launch, effect, none, .received⟩) }
    | some _ => w
  | .step t reply native =>
    match w.requests t with
    | none => w
    | some r => w.serve t r reply native
  | .finish effect => w.finish effect
  | .lose t =>
    match w.requests t with
    | none => w
    | some r =>
      match r.phase with
      | .answered _ => w
      | _ => w.setPhase t r .lost

/-- What `begin` wrote of a row, which no later statement changes. -/
def ManagedTaskEffect.effect (row : ManagedTaskEffect) : NewManagedTaskEffect :=
  { taskId := row.taskId
    epoch := row.epoch
    requestHash := row.requestHash
    kind := row.kind
    workspaceId := row.workspaceId
    sessionId := row.sessionId
    ownerInstanceId := row.ownerInstanceId
    leaseId := row.leaseId }

def World.recorded (w : World) : List NewManagedTaskEffect := w.rows.map ManagedTaskEffect.effect

def NewManagedTaskEffect.key (effect : NewManagedTaskEffect) : Uuid × Int :=
  (effect.taskId, effect.epoch)

def FinishManagedTaskEffect.key (effect : FinishManagedTaskEffect) : Uuid × Int :=
  (effect.taskId, effect.epoch)

def Recorded (recorded : List NewManagedTaskEffect) (key : Uuid × Int) : Prop :=
  ∃ effect ∈ recorded, effect.key = key

def Later (recorded : List NewManagedTaskEffect) (key : Uuid × Int) : Prop :=
  ∃ effect ∈ recorded, effect.taskId = key.1 ∧ key.2 < effect.epoch

theorem find_eq_some (h : find rows taskId epoch = some row) :
    row ∈ rows ∧ row.effect.key = (taskId, epoch) := by
  have hat := List.find?_some h
  simp only [ManagedTaskEffect.isAt, Bool.decide_and, Bool.and_eq_true, decide_eq_true_eq] at hat
  refine ⟨List.mem_of_find?_eq_some h, ?_⟩
  rw [← hat.1, ← hat.2]
  rfl

theorem find_eq_none :
    find rows taskId epoch = none ↔
      ¬ Recorded (rows.map ManagedTaskEffect.effect) (taskId, epoch) := by
  simp [find, Recorded, ManagedTaskEffect.isAt, NewManagedTaskEffect.key, ManagedTaskEffect.effect]

theorem newer_iff :
    newer rows taskId epoch = true ↔ Later (rows.map ManagedTaskEffect.effect) (taskId, epoch) := by
  simp [newer, Later, ManagedTaskEffect.effect]

def Grows (recorded recorded' : List NewManagedTaskEffect) : Prop :=
  recorded' = recorded ∨ ∃ effect, recorded' = recorded ++ [effect] ∧
    ¬ Later recorded effect.key ∧ ¬ Recorded recorded effect.key

theorem insert_cases (rows : Effects) (effect : NewManagedTaskEffect) :
    (insert rows effect = (rows ++ [effect.row], true) ∧
      ¬ Later (rows.map ManagedTaskEffect.effect) effect.key ∧
      ¬ Recorded (rows.map ManagedTaskEffect.effect) effect.key) ∨
    (insert rows effect = (rows, false) ∧
      (Later (rows.map ManagedTaskEffect.effect) effect.key ∨
        Recorded (rows.map ManagedTaskEffect.effect) effect.key)) := by
  rw [insert]
  cases hnewer : newer rows effect.taskId effect.epoch with
  | true => exact Or.inr ⟨rfl, Or.inl (newer_iff.mp hnewer)⟩
  | false =>
    have hlater : ¬ Later (rows.map ManagedTaskEffect.effect) effect.key := by
      intro hlater
      rw [newer_iff.mpr hlater] at hnewer
      cases hnewer
    cases hfind : find rows effect.taskId effect.epoch with
    | some row =>
      obtain ⟨hmem, hkey⟩ := find_eq_some hfind
      exact Or.inr ⟨rfl, Or.inr ⟨row.effect, List.mem_map_of_mem hmem, hkey⟩⟩
    | none => exact Or.inl ⟨rfl, hlater, find_eq_none.mp hfind⟩

@[simp] theorem row_effect (effect : NewManagedTaskEffect) : effect.row.effect = effect := rfl

theorem recorded_finish (rows : Effects) (call : FinishManagedTaskEffect) :
    (finish rows call).map ManagedTaskEffect.effect = rows.map ManagedTaskEffect.effect :=
  Table.update_map _ (fun _ _ _ => rfl)

end Cdesktop.ManagedTask
