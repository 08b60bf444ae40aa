import Cdesktop.CodexClient

/-! What the callbacks of the Codex client come to, told from the state they are called in. -/

namespace Cdesktop.Codex
open RelayRefresh (trim)
set_option autoImplicit true

def decided (settings : Settings) (io : Io) : Bool :=
  settings.approvals && io.decision.isSome && io.answered

def ServerRequest.served (settings : Settings) (io : Io) : ServerRequest → Bool
  | .commandExecutionRequestApproval | .fileChangeRequestApproval =>
    (settings.autoApprove || settings.approvals && io.decision.isSome) && io.answered
  | .toolRequestUserInput => decided settings io
  | .answered => io.answered
  | .deprecated => false

def World.planWaits (settings : Settings) (w : World) : Bool :=
  settings.planMode && w.pendingPlan.isSome

def World.served (settings : Settings) (io : Io) (message : Message) (w : World) : Bool :=
  io.logged && io.allowed &&
    match message with
    | .request request => request.served settings io
    | .turnCompleted _ => !w.planWaits settings || decided settings io
    | .planCompleted _ | .response .. | .error _ | .notification | .nonJson => true

def Message.status : Message → Option TurnStatus
  | .turnCompleted completed => completed.map (·.status)
  | _ => none

def World.flushes (message : Message) (w : World) : Bool :=
  message.status = some .interrupted && w.threadId.isSome &&
    w.pendingFeedback.any fun message => !(trim message).isEmpty

def World.reminds (settings : Settings) (io : Io) (w : World) : Bool :=
  settings.commitReminder && !w.commitReminderSent && !io.uncommitted.isEmpty &&
    w.threadId.isSome

def plansOn : ApprovalStatus → Bool
  | .approved _ => true
  | .denied reason => (denialFeedback reason).isSome
  | .pending | .timedOut => false

def World.finishes (settings : Settings) (io : Io) (message : Message) (w : World) : Bool :=
  match message with
  | .turnCompleted _ =>
    if w.planWaits settings then w.threadId.isNone || !io.decision.any plansOn
    else !w.flushes message && !w.reminds settings io
  | _ => false

def World.noted (message : Message) (w : World) : World :=
  match message with
  | .turnCompleted (some ⟨_, .failed, error⟩) =>
    { w with exitOutcome := some (normalizedTurnFailure error) }
  | _ => w

structure World.Frame (w w' : World) : Prop where
  threadId : w'.threadId = w.threadId
  resolvedModel : w'.resolvedModel = w.resolvedModel
  exitOutcome : w'.exitOutcome = w.exitOutcome
  cancelled : w'.cancelled = w.cancelled
  delivered : w'.delivered = w.delivered
  started : w'.started = w.started
  completions : w'.completions = w.completions
  ended : w'.ended = w.ended
  signals : w'.signals = w.signals

theorem World.Frame.refl (w : World) : w.Frame w := by
  constructor <;> rfl

theorem World.Frame.trans {w w' w'' : World} (h : w.Frame w') (h' : w'.Frame w'') :
    w.Frame w'' := by
  constructor
  · exact h'.threadId.trans h.threadId
  · exact h'.resolvedModel.trans h.resolvedModel
  · exact h'.exitOutcome.trans h.exitOutcome
  · exact h'.cancelled.trans h.cancelled
  · exact h'.delivered.trans h.delivered
  · exact h'.started.trans h.started
  · exact h'.completions.trans h.completions
  · exact h'.ended.trans h.ended
  · exact h'.signals.trans h.signals

theorem World.spawnTurnStart_frame (origin : Origin) (input : String) (w : World) :
    w.Frame (w.spawnTurnStart origin input) := by
  constructor <;> rfl

theorem World.enqueueFeedback_frame (message : String) (w : World) :
    w.Frame (w.enqueueFeedback message) := by
  unfold World.enqueueFeedback
  split
  · exact .refl w
  · constructor <;> rfl

theorem World.deny_frame (feedback : Option String) (input : String → String) (w : World) :
    w.Frame (w.deny feedback input) := by
  cases feedback <;> constructor <;> rfl

def feedbackTurns (n : Nat) : List String → List Turn
  | [] => []
  | message :: messages =>
    ⟨n, .feedback, userFeedback message, .waiting⟩ :: feedbackTurns (n + 1) messages

theorem World.spawnAll_eq (messages : List String) (w : World) :
    messages.foldl (fun w message => w.spawnTurnStart .feedback (userFeedback message)) w =
      { w with
        turns := w.turns ++ feedbackTurns w.nextRequestId messages
        nextRequestId := w.nextRequestId + messages.length } := by
  induction messages generalizing w with
  | nil => rw [feedbackTurns, List.append_nil]; rfl
  | cons message messages ih =>
    rw [List.foldl_cons, ih]
    unfold World.spawnTurnStart
    dsimp only [feedbackTurns]
    rw [List.append_assoc, List.length_cons, Nat.add_assoc, Nat.add_comm 1]
    rfl

def nonblank (messages : List String) : List String :=
  (messages.map trim).filter (!·.isEmpty)

namespace World

theorem flushPendingFeedback_none {w : World} (h : w.threadId = none) :
    w.flushPendingFeedback.1 = { w with pendingFeedback := [] } := by
  unfold flushPendingFeedback
  cases hpending : w.pendingFeedback with
  | nil => exact congrArg (fun messages => { w with pendingFeedback := messages }) hpending
  | cons message messages => rw [h]

theorem flushPendingFeedback_some {w : World} {threadId : String}
    (h : w.threadId = some threadId) :
    w.flushPendingFeedback.1 =
      { w with
        pendingFeedback := []
        turns := w.turns ++ feedbackTurns w.nextRequestId (nonblank w.pendingFeedback)
        nextRequestId := w.nextRequestId + (nonblank w.pendingFeedback).length } := by
  unfold flushPendingFeedback
  unfold nonblank
  cases hpending : w.pendingFeedback with
  | nil =>
    have hself : w = { w with pendingFeedback := [] } :=
      congrArg (fun messages => { w with pendingFeedback := messages }) hpending
    simpa [feedbackTurns] using hself
  | cons message messages =>
    rw [h]
    exact spawnAll_eq _ _

theorem flushPendingFeedback_frame (w : World) : w.Frame w.flushPendingFeedback.1 := by
  cases hthread : w.threadId with
  | none => rw [flushPendingFeedback_none hthread]; constructor <;> rfl
  | some threadId => rw [flushPendingFeedback_some hthread]; constructor <;> rfl

theorem flushPendingFeedback_pendingPlan (w : World) :
    w.flushPendingFeedback.1.pendingPlan = w.pendingPlan := by
  cases hthread : w.threadId with
  | none => rw [flushPendingFeedback_none hthread]
  | some threadId => rw [flushPendingFeedback_some hthread]

theorem flushPendingFeedback_commitReminderSent (w : World) :
    w.flushPendingFeedback.1.commitReminderSent = w.commitReminderSent := by
  cases hthread : w.threadId with
  | none => rw [flushPendingFeedback_none hthread]
  | some threadId => rw [flushPendingFeedback_some hthread]

theorem answer_frame (io : Io) (feedback : Option String) (w : World) :
    w.Frame (w.answer io feedback).1 := by
  have hdeny := w.deny_frame feedback userFeedback
  unfold answer
  dsimp only
  split
  · cases feedback with
    | none => exact hdeny
    | some message => exact hdeny.trans (enqueueFeedback_frame _ _)
  · exact hdeny

theorem handleServerRequest_frame (settings : Settings) (io : Io) (request : ServerRequest)
    (w : World) : w.Frame (w.handleServerRequest settings io request).1 := by
  cases request with
  | commandExecutionRequestApproval | fileChangeRequestApproval =>
    unfold handleServerRequest
    dsimp only
    split
    · exact w.answer_frame io _
    · exact .refl w
  | toolRequestUserInput | answered | deprecated => exact .refl w

theorem decidePlan_frame (status : ApprovalStatus) (w : World) :
    w.Frame (w.decidePlan status).1 := by
  unfold decidePlan
  split
  · split
    · exact w.spawnTurnStart_frame _ _
    · exact .refl w
  · split
    · split
      · exact w.spawnTurnStart_frame _ _
      · exact .refl w
    · exact .refl w
  · exact .refl w
  · exact .refl w

theorem handlePlanCompleted_frame (settings : Settings) (io : Io) (w : World) :
    w.Frame (w.handlePlanCompleted settings io).1 := by
  unfold handlePlanCompleted
  split
  · exact .refl w
  · next status _ =>
    have hdeny := w.deny_frame status.feedback planFeedback
    dsimp only
    split
    · split
      · exact hdeny.trans (decidePlan_frame _ _)
      · exact hdeny
    · exact hdeny

theorem remind_frame (settings : Settings) (io : Io) (w : World) :
    w.Frame (w.remind settings io).1 := by
  unfold remind
  split
  · dsimp only
    split <;> constructor <;> rfl
  · exact .refl w

/-- The plan or the reminder, after the queue is flushed and the failure noted. -/
def proceed (settings : Settings) (io : Io) (keepAlive : Bool) (w : World) :
    World × Flow :=
  if w.planWaits settings then { w with pendingPlan := none }.handlePlanCompleted settings io
  else if keepAlive then (w, .goOn)
  else w.remind settings io

theorem proceed_frame (settings : Settings) (io : Io) (keepAlive : Bool) (w : World) :
    w.Frame (w.proceed settings io keepAlive).1 := by
  unfold proceed
  split
  · have htaken : w.Frame { w with pendingPlan := none } := by constructor <;> rfl
    exact htaken.trans (handlePlanCompleted_frame _ _ _)
  · split
    · exact .refl w
    · exact w.remind_frame settings io

theorem turnCompleted_interrupted (settings : Settings) (io : Io) (w : World)
    (h : (Message.turnCompleted completed).status = some .interrupted) :
    w.turnCompleted settings io completed =
      w.flushPendingFeedback.1.proceed settings io w.flushPendingFeedback.2 := by
  unfold turnCompleted
  change completed.map (·.status) = some .interrupted at h
  rw [h]
  rfl

theorem turnCompleted_other (settings : Settings) (io : Io) (w : World)
    (h : (Message.turnCompleted completed).status ≠ some .interrupted) :
    w.turnCompleted settings io completed =
      (w.noted (.turnCompleted completed)).proceed settings io false := by
  unfold turnCompleted
  cases completed with
  | none => rfl
  | some completed =>
    obtain ⟨turnId, status, error⟩ := completed
    cases status with
    | interrupted => exact absurd rfl h
    | completed | failed | inProgress => rfl

theorem noted_interrupted (w : World)
    (h : (Message.turnCompleted completed).status = some .interrupted) :
    w.noted (.turnCompleted completed) = w := by
  obtain ⟨c, rfl, hc⟩ := Option.map_eq_some_iff.mp h
  obtain ⟨turnId, status, error⟩ := c
  cases hc
  rfl

theorem handle_frame (settings : Settings) (io : Io) (message : Message) (w : World) :
    (w.noted message).Frame (w.handle settings io message).1 := by
  cases message with
  | request request => exact w.handleServerRequest_frame settings io request
  | planCompleted itemId =>
    unfold handle
    dsimp only
    split <;> constructor <;> rfl
  | turnCompleted completed =>
    by_cases h : (Message.turnCompleted completed).status = some .interrupted
    · rw [w.noted_interrupted h]
      unfold handle
      dsimp only
      rw [w.turnCompleted_interrupted settings io h]
      exact w.flushPendingFeedback_frame.trans (proceed_frame _ _ _ _)
    · unfold handle
      dsimp only
      rw [w.turnCompleted_other settings io h]
      exact proceed_frame _ _ _ _
  | response | error | notification | nonJson => exact .refl w

end World

theorem isEmpty_nonblank (messages : List String) :
    (nonblank messages).isEmpty = !messages.any fun message => !(trim message).isEmpty := by
  unfold nonblank
  induction messages with
  | nil => rfl
  | cons message messages ih =>
    by_cases hblank : (trim message).isEmpty
    · simpa [hblank] using ih
    · simp [hblank]

namespace World

theorem flushPendingFeedback_sent (w : World) :
    w.flushPendingFeedback.2 =
      (w.threadId.isSome && w.pendingFeedback.any fun message => !(trim message).isEmpty) := by
  unfold flushPendingFeedback
  cases w.threadId with
  | none => cases w.pendingFeedback <;> rfl
  | some threadId =>
    cases w.pendingFeedback with
    | nil => rfl
    | cons message messages =>
      have hempty := isEmpty_nonblank (message :: messages)
      unfold nonblank at hempty
      dsimp only
      rw [hempty, Bool.not_not]
      rfl

theorem answer_flow (io : Io) (feedback : Option String) (w : World) :
    (w.answer io feedback).2 = if io.answered then .goOn else .failed := by
  unfold answer
  dsimp only
  split <;> rfl

theorem handleServerRequest_flow (settings : Settings) (io : Io) (request : ServerRequest)
    (w : World) :
    (w.handleServerRequest settings io request).2 =
      if request.served settings io then .goOn else .failed := by
  cases request with
  | commandExecutionRequestApproval | fileChangeRequestApproval =>
    unfold handleServerRequest
    unfold ServerRequest.served
    unfold requestToolApproval
    dsimp only
    by_cases hauto : settings.autoApprove
    · simp only [hauto, if_true, Bool.true_or, Bool.true_and]
      exact w.answer_flow io _
    · by_cases happrovals : settings.approvals
      · cases hdecision : io.decision <;> simp [hauto, happrovals, answer_flow]
      · simp [hauto, happrovals]
  | toolRequestUserInput | answered | deprecated => rfl

theorem decidePlan_flow (status : ApprovalStatus) (h : w.resolvedModel) :
    (decidePlan status w).2 = if plansOn status then .goOn else .finished := by
  unfold decidePlan
  rw [if_pos h]
  cases status with
  | approved scope | pending | timedOut => rfl
  | denied reason =>
    unfold plansOn
    dsimp only
    by_cases hreason : (denialFeedback reason).isSome
    · obtain ⟨message, hmessage⟩ := Option.isSome_iff_exists.mp hreason
      rw [if_pos hreason, hmessage]
      exact congrArg Prod.snd (if_pos h)
    · rw [if_neg hreason, Option.not_isSome_iff_eq_none.mp hreason]

theorem handlePlanCompleted_flow (settings : Settings) (io : Io) (w : World)
    (hresolved : w.threadId.isSome → w.resolvedModel) :
    (w.handlePlanCompleted settings io).2 =
      if decided settings io then
        if w.threadId.isNone || !io.decision.any plansOn then .finished else .goOn
      else .failed := by
  unfold handlePlanCompleted
  unfold decided
  by_cases happrovals : settings.approvals
  · cases hdecision : io.decision with
    | none => simp [happrovals]
    | some status =>
      simp only [happrovals, if_true, Bool.true_and, Option.isSome_some, Option.any_some]
      have hframe := w.deny_frame status.feedback planFeedback
      split
      · rw [hframe.threadId]
        by_cases hthread : w.threadId.isSome
        · have hmodel : (w.deny status.feedback planFeedback).resolvedModel :=
            hframe.resolvedModel.trans (hresolved hthread)
          rw [if_pos hthread, decidePlan_flow status hmodel, ← Option.not_isSome, hthread]
          by_cases hon : plansOn status <;> simp [hon]
        · rw [if_neg hthread, ← Option.not_isSome, Bool.eq_false_iff.mpr hthread]
          rfl
      · rfl
  · simp [happrovals]

theorem remind_flow (settings : Settings) (io : Io) (w : World) :
    (w.remind settings io).2 = if w.reminds settings io then .goOn else .finished := by
  unfold remind
  unfold reminds
  cases settings.commitReminder <;> cases w.commitReminderSent <;>
    cases io.uncommitted.isEmpty <;> cases w.threadId <;> rfl

theorem proceed_flow (settings : Settings) (io : Io) (keepAlive : Bool) (w : World)
    (hresolved : w.threadId.isSome → w.resolvedModel) :
    (w.proceed settings io keepAlive).2 =
      if w.planWaits settings then
        if decided settings io then
          if w.threadId.isNone || !io.decision.any plansOn then .finished else .goOn
        else .failed
      else if keepAlive || w.reminds settings io then .goOn else .finished := by
  unfold proceed
  split
  · exact handlePlanCompleted_flow settings io _ hresolved
  · split
    · next h => rw [h]; rfl
    · next h =>
      rw [w.remind_flow settings io, Bool.eq_false_iff.mpr h]
      rfl

theorem noted_eq (message : Message) (w : World) :
    ∃ outcome, w.noted message = { w with exitOutcome := outcome } := by
  unfold noted
  split
  · exact ⟨_, rfl⟩
  · exact ⟨w.exitOutcome, rfl⟩

theorem turnCompleted_flow (settings : Settings) (io : Io) (w : World)
    (completed : Option Completed) (hresolved : w.threadId.isSome → w.resolvedModel) :
    (w.turnCompleted settings io completed).2 =
      if w.planWaits settings then
        if decided settings io then
          if w.threadId.isNone || !io.decision.any plansOn then .finished else .goOn
        else .failed
      else if w.flushes (.turnCompleted completed) || w.reminds settings io then .goOn
      else .finished := by
  by_cases h : (Message.turnCompleted completed).status = some .interrupted
  · have hframe := w.flushPendingFeedback_frame
    have hthread : w.flushPendingFeedback.1.threadId.isSome →
        w.flushPendingFeedback.1.resolvedModel := by
      rw [hframe.threadId, hframe.resolvedModel]
      exact hresolved
    have hplan : w.flushPendingFeedback.1.planWaits settings = w.planWaits settings := by
      unfold planWaits
      rw [w.flushPendingFeedback_pendingPlan]
    have hreminds : w.flushPendingFeedback.1.reminds settings io = w.reminds settings io := by
      unfold reminds
      rw [w.flushPendingFeedback_commitReminderSent, hframe.threadId]
    have hflushes : w.flushes (.turnCompleted completed) = w.flushPendingFeedback.2 := by
      unfold flushes
      rw [h, decide_eq_true rfl, Bool.true_and, flushPendingFeedback_sent]
    rw [w.turnCompleted_interrupted settings io h, proceed_flow settings io _ _ hthread, hplan,
      hreminds, hflushes, hframe.threadId]
  · have hflushes : w.flushes (.turnCompleted completed) = false := by
      unfold flushes
      rw [decide_eq_false h, Bool.false_and, Bool.false_and]
    obtain ⟨outcome, hnoted⟩ := w.noted_eq (.turnCompleted completed)
    rw [w.turnCompleted_other settings io h, hnoted, hflushes]
    exact proceed_flow settings io false _ hresolved

theorem callback_flow (settings : Settings) (io : Io) (message : Message) (w : World)
    (hresolved : w.threadId.isSome → w.resolvedModel) :
    (w.callback settings io message).2 =
      if w.served settings io message then
        if w.finishes settings io message then .finished else .goOn
      else .failed := by
  unfold callback
  unfold enforceStorageLimits
  unfold served
  by_cases hlogged : io.logged
  · by_cases hallowed : io.allowed
    · simp only [hlogged, hallowed, if_true, Bool.true_and]
      cases message with
      | request request => exact w.handleServerRequest_flow settings io request
      | turnCompleted completed =>
        unfold handle
        unfold finishes
        dsimp only
        rw [w.turnCompleted_flow settings io completed hresolved]
        by_cases hplan : w.planWaits settings
        · simp only [hplan, if_true, Bool.not_true, Bool.false_or]
        · simp only [hplan, Bool.false_eq_true, if_false, Bool.not_false, Bool.true_or, if_true]
          cases w.flushes (.turnCompleted completed) <;> cases w.reminds settings io <;> rfl
      | planCompleted itemId | response | error | notification | nonJson => rfl
    · rw [if_pos hlogged, if_neg hallowed]
      by_cases hthread : w.threadId = none <;> simp [hthread, hallowed]
  · simp [hlogged]

theorem observe_eq (message : Message) (w : World) :
    ∃ started completions,
      w.observe message = { w with started := started, completions := completions } := by
  unfold observe
  split
  · exact ⟨_, _, rfl⟩
  · split
    · exact ⟨w.started, w.completions, rfl⟩
    · exact ⟨_, _, rfl⟩
  · exact ⟨w.started, w.completions, rfl⟩

theorem callback_refused (settings : Settings) (message : Message) (w : World)
    (h : ¬(io.logged ∧ io.allowed)) :
    ∃ outcome cancelled, (w.callback settings io message).1 =
      { w with exitOutcome := outcome, cancelled := cancelled } := by
  unfold callback
  unfold enforceStorageLimits
  by_cases hlogged : io.logged
  · rw [if_pos hlogged, if_neg fun hallowed => h ⟨hlogged, hallowed⟩]
    by_cases hthread : w.threadId = none
    · rw [if_pos hthread]
      exact ⟨w.exitOutcome, w.cancelled, rfl⟩
    · rw [if_neg hthread]
      exact ⟨_, _, rfl⟩
  · rw [if_neg hlogged]
    exact ⟨w.exitOutcome, w.cancelled, rfl⟩

theorem callback_handle (settings : Settings) (message : Message) (w : World)
    (hlogged : io.logged) (hallowed : io.allowed) :
    w.callback settings io message = w.handle settings io message := by
  unfold callback
  unfold enforceStorageLimits
  rw [if_pos hlogged, if_pos hallowed]

def recorded (io : Io) (message : Message) (w : World) : Bool :=
  w.exitOutcome.isSome ||
    io.logged &&
      if io.allowed then message.status = some .failed else w.threadId.isSome

theorem noted_exitOutcome (message : Message) (w : World) :
    (w.noted message).exitOutcome.isSome =
      (w.exitOutcome.isSome || message.status = some .failed) := by
  cases message with
  | turnCompleted completed =>
    cases completed with
    | none => exact (Bool.or_false _).symm
    | some completed =>
      obtain ⟨turnId, status, error⟩ := completed
      cases status with
      | failed => exact (Bool.or_true _).symm
      | completed | interrupted | inProgress => exact (Bool.or_false _).symm
  | request | planCompleted | response | error | notification | nonJson =>
    exact (Bool.or_false _).symm

theorem callback_exitOutcome (settings : Settings) (io : Io) (message : Message)
    (w : World) : (w.callback settings io message).1.exitOutcome.isSome = w.recorded io message := by
  unfold recorded
  by_cases hlogged : io.logged
  · by_cases hallowed : io.allowed
    · rw [callback_handle settings message w hlogged hallowed,
        (w.handle_frame settings io message).exitOutcome, noted_exitOutcome, hlogged, if_pos hallowed,
        Bool.true_and]
    · unfold callback
      unfold enforceStorageLimits
      rw [if_pos hlogged, if_neg hallowed, if_neg hallowed, hlogged, Bool.true_and]
      cases hthread : w.threadId with
      | none => exact (Bool.or_false _).symm
      | some threadId => exact (Bool.or_true _).symm
  · unfold callback
    rw [if_neg hlogged, Bool.eq_false_iff.mpr hlogged, Bool.false_and, Bool.or_false]

end World

theorem conclude_goOn {result : World × Flow} (h : result.2 = .goOn) :
    conclude result = result.1 := by
  obtain ⟨w, flow⟩ := result
  cases h
  rfl

theorem conclude_finished {result : World × Flow} (h : result.2 = .finished) :
    conclude result = result.1.leave .finished := by
  obtain ⟨w, flow⟩ := result
  cases h
  rfl

theorem conclude_failed {result : World × Flow} (h : result.2 = .failed) :
    conclude result = result.1.leave .failed := by
  obtain ⟨w, flow⟩ := result
  cases h
  rfl

end Cdesktop.Codex
