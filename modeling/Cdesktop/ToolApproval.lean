import Cdesktop.Config
import Mathlib.Logic.Function.Basic

namespace Cdesktop.ToolApproval
set_option autoImplicit true

inductive ApprovalScope where
  | once | session
deriving DecidableEq

structure ApprovalPatterns where
  request : List String
  session : List String
deriving DecidableEq

structure QuestionAnswer where
  question : String
  answer : List String
deriving DecidableEq

inductive ApprovalOutcome where
  | approved (scope : ApprovalScope)
  | denied (reason : Option String)
  | answered (answers : List QuestionAnswer)
  | timedOut
deriving DecidableEq

structure ApprovalRequest where
  id : String
  toolName : String
  executionProcessId : Uuid
  patterns : ApprovalPatterns
  createdAt : Time
  timeoutAt : Time

structure ApprovalResponse where
  executionProcessId : Uuid
  status : ApprovalOutcome

structure PendingApproval where
  executionProcessId : Uuid
  toolName : String
  patterns : ApprovalPatterns
  isQuestion : Bool
  createdAt : Time
  timeoutAt : Time
deriving DecidableEq

structure ToolContext where
  toolName : String
  executionProcessId : Uuid
deriving DecidableEq

structure ApprovalInfo where
  approvalId : String
  toolName : String
  executionProcessId : Uuid
  patterns : ApprovalPatterns
  isQuestion : Bool
  createdAt : Time
  timeoutAt : Time

inductive ApprovalError where
  | notFound | alreadyCompleted | executionProcessMismatch | invalidStatus
deriving DecidableEq

def ApprovalRequest.pending (request : ApprovalRequest) (isQuestion : Bool) : PendingApproval :=
  { executionProcessId := request.executionProcessId
    toolName := request.toolName
    patterns := request.patterns
    isQuestion
    createdAt := request.createdAt
    timeoutAt := request.timeoutAt }

def PendingApproval.info (id : String) (p : PendingApproval) : ApprovalInfo :=
  { approvalId := id
    toolName := p.toolName
    executionProcessId := p.executionProcessId
    patterns := p.patterns
    isQuestion := p.isQuestion
    createdAt := p.createdAt
    timeoutAt := p.timeoutAt }

def PendingApproval.context (p : PendingApproval) : ToolContext :=
  ⟨p.toolName, p.executionProcessId⟩

def validateApprovalResponse (outcome : ApprovalOutcome) (isQuestion : Bool) :
    Option ApprovalError :=
  match outcome with
  | .approved _ | .denied _ => if isQuestion then some .invalidStatus else none
  | .answered _ => if isQuestion then none else some .invalidStatus
  | .timedOut => none

/-- Why a response is turned away: the process first, then the status. -/
def reject (response : ApprovalResponse) (p : PendingApproval) : Option ApprovalError :=
  if response.executionProcessId ≠ p.executionProcessId then some .executionProcessMismatch
  else validateApprovalResponse response.status p.isQuestion

inductive Waiter where
  | waiting
  | received (o : ApprovalOutcome)
  | dropped
deriving DecidableEq

/-- What the waiter resolves to: a sender dropped unused counts as a timeout. -/
def Waiter.outcome : Waiter → Option ApprovalOutcome
  | .waiting => none
  | .received o => some o
  | .dropped => some .timedOut

/-- `create_with_waiter` between its operations on what is shared. -/
inductive CreatePhase where
  | absent
  | inserted (p : PendingApproval)
  | announced (p : PendingApproval)
  | spawned (p : PendingApproval)

def CreatePhase.approval : CreatePhase → Option PendingApproval
  | .absent => none
  | .inserted p | .announced p | .spawned p => some p

inductive WatcherPhase where
  | absent | watching
  | selected (o : ApprovalOutcome)
  | recorded | removed | notified | done
deriving DecidableEq

inductive RespondPhase where
  | called
  | missing
  | rejecting (p : PendingApproval) (e : ApprovalError)
  | accepted (p : PendingApproval)
  | recorded (p : PendingApproval)
  | delivered (p : PendingApproval)
  | returned (result : Except ApprovalError (ApprovalOutcome × ToolContext))
deriving DecidableEq

structure Respond where
  response : ApprovalResponse
  phase : RespondPhase

inductive CancelPhase where
  | called | removed | recorded | announced | returned

structure Approval where
  pending : Option PendingApproval
  completed : Option ApprovalOutcome
  waiter : Waiter
  creation : CreatePhase
  watcher : WatcherPhase
  responds : Nat → Option Respond
  cancels : Nat → Option CancelPhase

def Approval.new : Approval :=
  { pending := none
    completed := none
    waiter := .waiting
    creation := .absent
    watcher := .absent
    responds := fun _ => none
    cancels := fun _ => none }

inductive ApprovalPatch where
  | snapshot (pending : String → Option ApprovalInfo)
  | created (info : ApprovalInfo)
  | resolved (id : String)

/-- A step of the creation, of the watcher, of a call of `respond` or of one of `cancel`. -/
inductive ApprovalEvent where
  | create (request : ApprovalRequest) (isQuestion : Bool)
  | announce
  | spawn
  | watch (expired : Bool)
  | call (t : Nat) (response : ApprovalResponse)
  | respond (t : Nat)
  | cancel (t : Nat)
  | cancelStep (t : Nat)

def Approval.watch (id : String) (expired : Bool) (a : Approval) :
    Approval × List ApprovalPatch :=
  match a.watcher with
  | .absent | .done => (a, [])
  | .watching =>
    -- biased: a resolved waiter comes before the deadline
    match a.waiter.outcome with
    | some o => ({ a with watcher := .selected o }, [])
    | none => (if expired then { a with watcher := .selected .timedOut } else a, [])
  | .selected o =>
    ({ a with
      completed := some o
      watcher := if o = .timedOut then .recorded else .done }, [])
  | .recorded =>
    match a.pending with
    | none => ({ a with watcher := .done }, [])
    | some _ => ({ a with pending := none, watcher := .removed }, [])
  | .removed => ({ a with watcher := .notified }, [.resolved id])
  | .notified => ({ a with waiter := .received .timedOut, watcher := .done }, [])

def Approval.setRespond (a : Approval) (t : Nat) (task : Respond) : Approval :=
  { a with responds := Function.update a.responds t (some task) }

theorem Approval.setRespond_cases (h : (Approval.setRespond a t next).responds t' = some task) :
    t' = t ∧ task = next ∨ t' ≠ t ∧ a.responds t' = some task := by
  by_cases ht : t' = t
  · exact .inl ⟨ht, by simpa [Approval.setRespond, ht, eq_comm] using h⟩
  · exact .inr ⟨ht, by simpa [Approval.setRespond, ht] using h⟩

def Approval.respond (id : String) (t : Nat) (task : Respond) (a : Approval) :
    Approval × List ApprovalPatch :=
  let go (a : Approval) (phase : RespondPhase) : Approval := a.setRespond t { task with phase }
  match task.phase with
  | .called =>
    match a.pending with
    | none => (go a .missing, [])
    | some p =>
      match reject task.response p with
      | some e => (go { a with pending := none } (.rejecting p e), [])
      | none => (go { a with pending := none } (.accepted p), [])
  | .missing =>
    let e := if a.completed.isSome then .alreadyCompleted else .notFound
    (go a (.returned (.error e)), [])
  | .rejecting p e => (go { a with pending := some p } (.returned (.error e)), [])
  | .accepted p => (go { a with completed := some task.response.status } (.recorded p), [])
  | .recorded p => (go { a with waiter := .received task.response.status } (.delivered p), [])
  | .delivered p => (go a (.returned (.ok (task.response.status, p.context))), [.resolved id])
  | .returned _ => (a, [])

def cancelled : ApprovalOutcome := .denied (some "Cancelled")

namespace Approval

def cancelStep (id : String) (t : Nat) (phase : CancelPhase) (a : Approval) :
    Approval × List ApprovalPatch :=
  let go (a : Approval) (phase : CancelPhase) : Approval :=
    { a with cancels := Function.update a.cancels t (some phase) }
  match phase with
  | .called =>
    match a.pending with
    | none => (go a .returned, [])
    | some _ => (go { a with pending := none } .removed, [])
  | .removed => (go { a with completed := some cancelled } .recorded, [])
  | .recorded => (go a .announced, [.resolved id])
  -- the pending approval is dropped here, and its sender with it
  | .announced => (go { a with waiter := .dropped } .returned, [])
  | .returned => (a, [])

def step (id : String) (a : Approval) : ApprovalEvent → Approval × List ApprovalPatch
  | .create request isQuestion =>
    match a.creation with
    | .absent =>
      let p := request.pending isQuestion
      ({ a with pending := some p, creation := .inserted p }, [])
    | _ => (a, [])
  | .announce =>
    match a.creation with
    | .inserted p => ({ a with creation := .announced p }, [.created (p.info id)])
    | _ => (a, [])
  | .spawn =>
    match a.creation with
    | .announced p => ({ a with creation := .spawned p, watcher := .watching }, [])
    | _ => (a, [])
  | .watch expired => a.watch id expired
  | .call t response =>
    match a.responds t with
    | none => (a.setRespond t ⟨response, .called⟩, [])
    | some _ => (a, [])
  | .respond t =>
    match a.responds t with
    | none => (a, [])
    | some task => a.respond id t task
  | .cancel t =>
    match a.cancels t with
    | none => ({ a with cancels := Function.update a.cancels t (some .called) }, [])
    | some _ => (a, [])
  | .cancelStep t =>
    match a.cancels t with
    | none => (a, [])
    | some phase => a.cancelStep id t phase

/-- The steps one after the other. -/
def run (id : String) (a : Approval) (events : List ApprovalEvent) : Approval :=
  events.foldl (fun a event => (a.step id event).1) a

@[simp] theorem run_cons (id : String) (a : Approval) (event : ApprovalEvent)
    (events : List ApprovalEvent) :
    a.run id (event :: events) = (a.step id event).1.run id events := rfl

theorem run_append (id : String) (a : Approval) (events later : List ApprovalEvent) :
    a.run id (events ++ later) = (a.run id events).run id later :=
  List.foldl_append

def Keeps (a a' : Approval) : Prop :=
  (∀ p, a.creation.approval = some p → a'.creation.approval = some p) ∧
    ∀ t task, a.responds t = some task →
      ∃ task', a'.responds t = some task' ∧ task'.response = task.response

theorem Keeps.of_eq (hcreation : creation a' = creation a)
    (hresponds : a'.responds = a.responds) : a.Keeps a' := by
  constructor
  · intro p hp
    rwa [hcreation]
  · intro t task htask
    exact ⟨task, by rwa [hresponds], rfl⟩

theorem Keeps.refl (a : Approval) : a.Keeps a := .of_eq rfl rfl

theorem Keeps.trans (h : Keeps a a') (h' : a'.Keeps a'') : a.Keeps a'' := by
  constructor
  · intro p hp
    exact h'.1 p (h.1 p hp)
  · intro t task htask
    obtain ⟨task', htask', hresponse⟩ := h.2 t task htask
    obtain ⟨task'', htask'', hresponse'⟩ := h'.2 t task' htask'
    exact ⟨task'', htask'', hresponse'.trans hresponse⟩

theorem Keeps.setRespond (hcreation : creation a' = creation a)
    (hresponds : a'.responds = a.responds)
    (htask : ∀ task, a.responds t = some task → task'.response = task.response) :
    a.Keeps (a'.setRespond t task') := by
  constructor
  · intro p hp
    simpa [Approval.setRespond, hcreation] using hp
  · intro t' task ht'
    by_cases ht : t' = t
    · subst ht
      exact ⟨task', by simp [Approval.setRespond], htask task ht'⟩
    · exact ⟨task, by simpa [Approval.setRespond, ht, hresponds] using ht', rfl⟩

theorem Keeps.watch (id : String) (a : Approval) (expired : Bool) :
    a.Keeps (a.watch id expired).1 := by
  rw [Approval.watch]
  cases a.watcher with
  | absent => exact .refl a
  | watching =>
    cases a.waiter.outcome with
    | some o => exact .of_eq rfl rfl
    | none => cases expired <;> exact .of_eq rfl rfl
  | selected o => exact .of_eq rfl rfl
  | recorded => cases a.pending <;> exact .of_eq rfl rfl
  | removed => exact .of_eq rfl rfl
  | notified => exact .of_eq rfl rfl
  | done => exact .refl a

theorem Keeps.respond (id : String) (htask : responds a t = some task) :
    a.Keeps (a.respond id t task).1 := by
  have hsame : ∀ task', a.responds t = some task' → task.response = task'.response := by
    intro task' htask'
    cases htask.symm.trans htask'
    rfl
  rw [Approval.respond]
  cases task.phase with
  | called =>
    cases a.pending with
    | none => exact .setRespond rfl rfl hsame
    | some p =>
      cases hreject : reject task.response p with
      | some e =>
        simp only [hreject]
        exact .setRespond rfl rfl hsame
      | none =>
        simp only [hreject]
        exact .setRespond rfl rfl hsame
  | returned result => exact .refl a
  | _ => exact .setRespond rfl rfl hsame

theorem Keeps.cancelStep (id : String) (a : Approval) (t : Nat) (phase : CancelPhase) :
    a.Keeps (a.cancelStep id t phase).1 := by
  rw [cancelStep.eq_def]
  cases phase with
  | called => cases a.pending <;> exact .of_eq rfl rfl
  | removed => exact .of_eq rfl rfl
  | recorded => exact .of_eq rfl rfl
  | announced => exact .of_eq rfl rfl
  | returned => exact .refl a

theorem Keeps.step (id : String) (a : Approval) (event : ApprovalEvent) :
    a.Keeps (a.step id event).1 := by
  cases event with
  | create request isQuestion =>
    rw [Approval.step]
    cases hcreation : a.creation with
    | absent =>
      refine ⟨fun p hp => ?_, fun t task htask => ⟨task, htask, rfl⟩⟩
      rw [hcreation] at hp
      cases hp
    | _ => exact .refl a
  | announce =>
    rw [Approval.step]
    cases hcreation : a.creation with
    | inserted p =>
      refine ⟨fun q hq => ?_, fun t task htask => ⟨task, htask, rfl⟩⟩
      rwa [hcreation] at hq
    | _ => exact .refl a
  | spawn =>
    rw [Approval.step]
    cases hcreation : a.creation with
    | announced p =>
      refine ⟨fun q hq => ?_, fun t task htask => ⟨task, htask, rfl⟩⟩
      rwa [hcreation] at hq
    | _ => exact .refl a
  | watch expired => exact .watch id a expired
  | call t response =>
    rw [Approval.step]
    cases hnone : a.responds t with
    | none => exact .setRespond rfl rfl (fun task htask => by cases hnone.symm.trans htask)
    | some task => exact .refl a
  | respond t =>
    rw [Approval.step]
    cases htask : a.responds t with
    | none => exact .refl a
    | some task => exact .respond id htask
  | cancel t =>
    rw [Approval.step]
    cases a.cancels t with
    | none => exact .of_eq rfl rfl
    | some phase => exact .refl a
  | cancelStep t =>
    rw [Approval.step]
    cases a.cancels t with
    | none => exact .refl a
    | some phase => exact .cancelStep id a t phase

theorem Keeps.run (id : String) (a : Approval) (events : List ApprovalEvent) :
    a.Keeps (a.run id events) := by
  induction events generalizing a with
  | nil => exact .refl a
  | cons event events ih => exact (Keeps.step id a event).trans (ih _)

end Approval

end Cdesktop.ToolApproval
