import Cdesktop.CodexClient

/-! One run of an ACP agent: its prompts, its events and their way into the log. -/

namespace Cdesktop.Acp
open Codex (ApprovalScope ApprovalStatus ExecutorExitResult)
open RelayRefresh (trim)
set_option autoImplicit true

inductive PermissionOptionKind where
  | allowOnce | allowAlways | rejectOnce | rejectAlways
deriving DecidableEq

structure PermissionOption where
  optionId : String
  kind : PermissionOptionKind

inductive RequestPermissionOutcome where
  | cancelled
  | selected (optionId : String)
deriving DecidableEq

inductive AcpError where
  | invalidRequest | internalError
deriving DecidableEq

inductive Response where
  | outcome (outcome : RequestPermissionOutcome)
  | error (error : AcpError)
deriving DecidableEq

inductive AcpEvent where
  | user (prompt : String)
  | sessionStart (sessionId : String)
  | update (text : String)
  | requestPermission (toolCallId : String)
  | approvalRequested (toolCallId approvalId : String)
  | approvalResponse (toolCallId : String) (status : ApprovalStatus)
  | error (message : String)
  | done (stopReason : String)
deriving DecidableEq

structure Settings where
  prompt : String
  approvals : Bool

inductive ExecutorApprovalError where
  | cancelled
  /-- The service is unavailable, or the request failed. -/
  | other

/-- A `request_permission` of the agent. -/
inductive Stage where
  | creating
  | waiting
  | answered (response : Response)
deriving DecidableEq

structure Permission where
  toolCallId : String
  options : List PermissionOption
  stage : Stage

structure Answer where
  toolCallId : String
  options : List PermissionOption
  status : ApprovalStatus
  response : Response

structure Prompt where
  text : String
  reasons : List String
deriving DecidableEq

structure PromptError where
  internal : Bool
  data : Option String
  message : String

inductive PromptResult where
  | response (stopReason : String)
  | failed (error : PromptError)

/-- Where the task stands that creates the session and runs the prompts. -/
inductive Main where
  | manager
  | session
  | prompting (prompt : Prompt)
  | awaiting
  | draining
  | exiting
  | finished
deriving DecidableEq

/-- What was recorded when a prompt got its response, and what was in the log before its line. -/
structure Done where
  recorded : List AcpEvent
  lines : List AcpEvent
  stopReason : String

structure World where
  main : Main
  cancelled : Bool
  events : List AcpEvent
  hand : Option AcpEvent
  logQueue : List AcpEvent
  log : List AcpEvent
  feedbackQueue : List String
  permissions : List Permission
  sessionCancels : Nat
  signals : List ExecutorExitResult
  recorded : List AcpEvent
  reasons : List String
  /-- The reasons recorded before the result of the last prompt. -/
  heard : List String
  prompts : List Prompt
  /-- The last prompt that was sent has got its response. -/
  responded : Bool
  answers : List Answer
  dones : List Done

def World.new : World :=
  { main := .manager, cancelled := false, events := [], hand := none, logQueue := [], log := []
    feedbackQueue := [], permissions := [], sessionCancels := 0, signals := [], recorded := []
    reasons := [], heard := [], prompts := [], responded := false, answers := [], dones := [] }

def World.sendEvent (event : AcpEvent) (w : World) : World :=
  { w with events := w.events ++ [event], recorded := w.recorded ++ [event] }

def World.sendLine (event : AcpEvent) (w : World) : World :=
  { w with logQueue := w.logQueue ++ [event] }

def World.enqueueFeedback (message : String) (w : World) : World :=
  let trimmed := trim message
  if trimmed.isEmpty then w
  else { w with feedbackQueue := w.feedbackQueue ++ [trimmed], reasons := w.reasons ++ [trimmed] }

def findKind (kind : PermissionOptionKind) (options : List PermissionOption) :
    Option PermissionOption :=
  options.find? (·.kind = kind)

/-- Without an approval service, the best option there is. -/
def autoApprove (options : List PermissionOption) : RequestPermissionOutcome :=
  match ((findKind .allowAlways options).or (findKind .allowOnce options)).or options.head? with
  | some option => .selected option.optionId
  | none => .cancelled

def chooseApproval (scope : ApprovalScope) (options : List PermissionOption) :
    Option PermissionOption :=
  match scope with
  | .session => (findKind .allowAlways options).or (findKind .allowOnce options)
  | .once => findKind .allowOnce options

def chooseDenial (options : List PermissionOption) : RequestPermissionOutcome :=
  match findKind .rejectOnce options with
  | some option => .selected option.optionId
  | none => .cancelled

def World.respond (i : Nat) (permission : Permission) (response : Response) (w : World) : World :=
  { w with permissions := w.permissions.set i { permission with stage := .answered response } }

/-- The decision is recorded, where it is, and the agent gets its answer. -/
def World.answer (i : Nat) (permission : Permission) (status : ApprovalStatus)
    (response : Response) (record : Bool) (w : World) : World :=
  let w := if record then w.sendEvent (.approvalResponse permission.toolCallId status) else w
  { w.respond i permission response with
    answers := w.answers ++ [⟨permission.toolCallId, permission.options, status, response⟩] }

def World.handleApprovalError (i : Nat) (permission : Permission) (error : ExecutorApprovalError)
    (w : World) : World :=
  match error with
  | .cancelled => w.respond i permission (.outcome .cancelled)
  | .other => w.answer i permission .timedOut (.error .internalError) true

def World.requestPermission (settings : Settings) (toolCallId : String)
    (options : List PermissionOption) (w : World) : World :=
  let stage :=
    if settings.approvals then .creating else .answered (.outcome (autoApprove options))
  { w.sendEvent (.requestPermission toolCallId) with
    permissions := w.permissions ++ [⟨toolCallId, options, stage⟩] }

def World.created (i : Nat) (permission : Permission)
    (result : Except ExecutorApprovalError String) (w : World) : World :=
  match result with
  | .ok approvalId =>
    { w.sendEvent (.approvalRequested permission.toolCallId approvalId) with
      permissions := w.permissions.set i { permission with stage := .waiting } }
  | .error error => w.handleApprovalError i permission error

def World.decided (i : Nat) (permission : Permission)
    (result : Except ExecutorApprovalError ApprovalStatus) (w : World) : World :=
  match result with
  | .error error => w.handleApprovalError i permission error
  | .ok (.approved scope) =>
    match chooseApproval scope permission.options with
    | some option =>
      w.answer i permission (.approved scope) (.outcome (.selected option.optionId)) true
    | none => w.answer i permission (.approved scope) (.error .invalidRequest) false
  | .ok (.denied reason) =>
    let w :=
      match reason with
      | some feedback => w.enqueueFeedback feedback
      | none => w
    w.answer i permission (.denied reason) (.outcome (chooseDenial permission.options)) true
  | .ok .timedOut => w.answer i permission .timedOut (.outcome .cancelled) true
  | .ok .pending => w.answer i permission .pending (.outcome .cancelled) true

def AcpEvent.cancelsSession : AcpEvent → Bool
  | .approvalResponse _ (.denied (some reason)) => !(trim reason).isEmpty
  | _ => false

def World.take (w : World) : World :=
  match w.hand, w.events with
  | none, event :: events =>
    { w with
      events := events, hand := some event
      sessionCancels := if event.cancelsSession then w.sessionCancels + 1 else w.sessionCancels }
  | _, _ => w

def World.forward (w : World) : World :=
  match w.hand with
  | some event => { w.sendLine event with hand := none }
  | none => w

def World.write (w : World) : World :=
  match w.logQueue with
  | line :: lines => { w with logQueue := lines, log := w.log ++ [line] }
  | [] => w

def World.result (result : PromptResult) (w : World) : World :=
  let w :=
    match result with
    | .response stopReason =>
      { w.sendLine (.done stopReason) with
        responded := true
        dones := w.dones ++ [Done.mk w.recorded (w.log ++ w.logQueue) stopReason] }
    | .failed error =>
      if error.internal ∧ error.data = some "server shut down unexpectedly" then w
      else w.sendLine (.error error.message)
  { w with main := .draining, heard := w.reasons }

/-- The reasons of the user make the next prompt, or there is none. -/
def World.drain (w : World) : World :=
  let feedback := trim ("\n".intercalate w.feedbackQueue)
  { w with
    feedbackQueue := []
    main := if feedback.isEmpty then .exiting else .prompting ⟨feedback, w.feedbackQueue⟩ }

inductive Event where
  | manager (ok : Bool)
  /-- With the id that is displayed and the prompt, where the session is created. -/
  | session (result : Option (String × String))
  /-- The loop looks for a cancellation, and sends its prompt. -/
  | prompt
  | result (result : PromptResult)
  | abort
  | drain
  | exit
  | take
  | forward
  | write
  | update (text : String)
  | requestPermission (toolCallId : String) (options : List PermissionOption)
  | created (i : Nat) (result : Except ExecutorApprovalError String)
  | decided (i : Nat) (result : Except ExecutorApprovalError ApprovalStatus)
  | cancel

/-- The steps of the task itself, in their order. -/
def World.proceed (settings : Settings) (w : World) (event : Event) : World :=
  match w.main, event with
  | .manager, .manager true => { w.sendEvent (.user settings.prompt) with main := .session }
  | .manager, .manager false => { w with main := .finished }
  | .session, .session (some (displayId, text)) =>
    { w.sendLine (.sessionStart displayId) with main := .prompting ⟨text, []⟩ }
  | .session, .session none => { w with main := .finished }
  | .prompting prompt, .prompt =>
    if w.cancelled then { w with main := .exiting }
    else { w with main := .awaiting, prompts := w.prompts ++ [prompt], responded := false }
  | .awaiting, .result result => w.result result
  | .awaiting, .abort => if w.cancelled then { w with main := .exiting } else w
  | .draining, .drain => w.drain
  | .exiting, .exit =>
    { w with
      main := .finished, signals := w.signals ++ [.success]
      sessionCancels := w.sessionCancels + 1 }
  | _, _ => w

def World.connected (w : World) : Bool := w.main ≠ .manager

def World.forwarding (w : World) : Bool := w.main ≠ .manager ∧ w.main ≠ .session

def World.step (settings : Settings) (w : World) (event : Event) : World :=
  if w.main = .finished then w
  else
    match event with
    | .take => if w.forwarding then w.take else w
    | .forward => if w.forwarding then w.forward else w
    | .write => w.write
    | .update text => if w.connected then w.sendEvent (.update text) else w
    | .requestPermission toolCallId options =>
      if w.connected then w.requestPermission settings toolCallId options else w
    | .created i result =>
      match w.permissions[i]? with
      | some permission =>
        if permission.stage = .creating then w.created i permission result else w
      | none => w
    | .decided i result =>
      match w.permissions[i]? with
      | some permission =>
        if permission.stage = .waiting then w.decided i permission result else w
      | none => w
    | .cancel => { w with cancelled := true }
    | .manager _ | .session _ | .prompt | .result _ | .abort | .drain | .exit =>
      w.proceed settings event

end Cdesktop.Acp
