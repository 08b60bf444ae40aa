import Cdesktop.CodexExit
import Cdesktop.Trim

/-! What the user answers to a denial, on its way back to the Codex server. -/

namespace Cdesktop.Codex
open RelayRefresh (trim)
open Trim (trim_trim)
set_option autoImplicit true

def Turn.awaiting (turn : Turn) : Bool := turn.origin = .feedback ∧ turn.state = .waiting

def World.outstanding (w : World) : List String :=
  (w.turns.filter Turn.awaiting).map (·.input) ++
    w.pendingFeedback.map fun message => userFeedback (trim message)

/-- The reasons are sent in their order and none twice, and where the run ends, all of them are; it
is not ended by a completion while feedback is queued or a turn that the client added is open. -/
def World.FeedbackDelivered (w : World) : Prop :=
  w.delivered <+: w.denials ∧
    ∀ how, w.ended = some how → w.cancelled = false →
      w.delivered = w.denials ∧
        (how = .finished → w.pendingFeedback = [] ∧
          ∀ turn ∈ w.turns, turn.origin ≠ .prompt → w.HasCompleted turn)

theorem denialFeedback_some (h : denialFeedback reason = some message) :
    trim message = message ∧ message.isEmpty = false := by
  obtain ⟨hmem, hblank⟩ := Option.filter_eq_some_iff.mp h
  obtain ⟨s, hs, htrim⟩ := Option.map_eq_some_iff.mp hmem
  rw [← htrim, trim_trim]
  apply And.intro rfl
  rw [htrim]
  exact (Bool.not_eq_true' _).mp hblank

theorem approvalDecision_feedback (h : (approvalDecision autoApprove status).2 = some message) :
    trim message = message ∧ message.isEmpty = false := by
  unfold approvalDecision at h
  split at h
  · cases h
  · split at h
    · cases h
    · cases h
    · next reason =>
      split at h
      · next feedback hfeedback =>
        cases h
        exact denialFeedback_some hfeedback
      · cases h
    · cases h
    · cases h

structure World.Balanced (w : World) : Prop where
  resolved : w.threadId.isSome → w.resolvedModel
  spoken : ∀ message ∈ w.pendingFeedback, (trim message).isEmpty = false
  balance : w.delivered ++ w.outstanding = w.denials

theorem World.Balanced.extend {w w' : World} (h : w.Balanced) (hframe : w.Frame w')
    (hspoken : ∀ message ∈ w'.pendingFeedback, (trim message).isEmpty = false)
    (houtstanding : w'.outstanding = w.outstanding ++ more)
    (hdenials : w'.denials = w.denials ++ more) : w'.Balanced := by
  constructor
  · rw [hframe.threadId, hframe.resolvedModel]
    exact h.resolved
  · exact hspoken
  · rw [hframe.delivered, houtstanding, hdenials, ← h.balance, List.append_assoc]

theorem World.Balanced.same {w w' : World} (h : w.Balanced) (hframe : w.Frame w')
    (hpending : w'.pendingFeedback = w.pendingFeedback)
    (houtstanding : w'.outstanding = w.outstanding) (hdenials : w'.denials = w.denials) :
    w'.Balanced := by
  apply h.extend hframe
  · rw [hpending]
    exact h.spoken
  · rw [houtstanding]
    exact (List.append_nil _).symm
  · rw [hdenials]
    exact (List.append_nil _).symm

theorem World.spawnTurnStart_outstanding (input : String) (w : World) (h : origin ≠ .feedback) :
    (w.spawnTurnStart origin input).outstanding = w.outstanding := by
  have hawaiting : Turn.awaiting ⟨w.nextRequestId, origin, input, .waiting⟩ = false :=
    decide_eq_false fun hboth => h hboth.1
  unfold World.outstanding
  unfold World.spawnTurnStart
  dsimp only
  rw [List.filter_append, List.filter_cons_of_neg (Bool.eq_false_iff.mp hawaiting),
    List.filter_nil, List.append_nil]

theorem World.Balanced.spawn (h : World.Balanced w) (horigin : origin ≠ .feedback) :
    (w.spawnTurnStart origin input).Balanced :=
  h.same (w.spawnTurnStart_frame origin input) rfl (w.spawnTurnStart_outstanding input horigin) rfl

theorem feedbackTurns_awaiting (n : Nat) (messages : List String) :
    ((feedbackTurns n messages).filter Turn.awaiting).map (·.input) = messages.map userFeedback := by
  induction messages generalizing n with
  | nil => rfl
  | cons message messages ih =>
    have hawaiting : Turn.awaiting ⟨n, .feedback, userFeedback message, .waiting⟩ = true := rfl
    rw [feedbackTurns, List.filter_cons, if_pos hawaiting, List.map_cons, List.map_cons, ih]

theorem World.Balanced.flush (h : World.Balanced w)
    (hthread : w.threadId = none → w.pendingFeedback = []) :
    w.flushPendingFeedback.1.Balanced := by
  cases hcase : w.threadId with
  | none =>
    rw [flushPendingFeedback_none hcase]
    apply h.same
    · constructor <;> rfl
    · exact (hthread hcase).symm
    · unfold World.outstanding
      rw [hthread hcase]
    · rfl
  | some threadId =>
    have hall : nonblank w.pendingFeedback = w.pendingFeedback.map trim := by
      apply List.filter_eq_self.mpr
      intro trimmed hmem
      obtain ⟨message, hmessage, rfl⟩ := List.mem_map.mp hmem
      rw [h.spoken message hmessage]
      rfl
    have hframe := w.flushPendingFeedback_frame
    rw [flushPendingFeedback_some hcase] at *
    apply h.extend hframe
    · intro message hmem
      cases hmem
    · unfold World.outstanding
      dsimp only
      rw [List.filter_append, List.map_append, feedbackTurns_awaiting, hall, List.map_map,
        List.map_nil, List.append_nil, List.append_nil]
      rfl
    · exact (List.append_nil _).symm

theorem World.enqueueFeedback_eq (w : World) (h : (trim message).isEmpty = false) :
    w.enqueueFeedback message = { w with pendingFeedback := w.pendingFeedback ++ [message] } :=
  if_neg (Bool.eq_false_iff.mp h)

theorem World.Balanced.enqueue (h : World.Balanced w) (htrim : trim message = message)
    (hblank : message.isEmpty = false) :
    ((w.deny (some message) userFeedback).enqueueFeedback message).Balanced := by
  have hnew : (trim message).isEmpty = false := htrim.symm ▸ hblank
  have hframe := (w.deny_frame (some message) userFeedback).trans (enqueueFeedback_frame message _)
  have hspoken : ∀ m ∈ w.pendingFeedback ++ [message], (trim m).isEmpty = false := by
    intro m hm
    cases List.mem_append.mp hm with
    | inl hm => exact h.spoken m hm
    | inr hm => exact List.mem_singleton.mp hm ▸ hnew
  have houtstanding :
      (w.turns.filter Turn.awaiting).map (·.input) ++
          (w.pendingFeedback ++ [message]).map (fun message => userFeedback (trim message)) =
        w.outstanding ++ [userFeedback message] := by
    rw [List.map_append, ← List.append_assoc, List.map_singleton, htrim]
    rfl
  rw [World.enqueueFeedback_eq _ hnew] at *
  exact h.extend hframe hspoken houtstanding rfl

def ServerRequest.denies (settings : Settings) (io : Io) : ServerRequest → Bool
  | .commandExecutionRequestApproval | .fileChangeRequestApproval =>
    (requestToolApproval settings io).any fun status =>
      (approvalDecision settings.autoApprove status).2.isSome
  | .toolRequestUserInput | .answered | .deprecated => false

namespace World

def planDenied (settings : Settings) (io : Io) (w : World) : Bool :=
  w.planWaits settings && settings.approvals && io.decision.any fun status => status.feedback.isSome

def denies (settings : Settings) (io : Io) (message : Message) (w : World) : Bool :=
  match message with
  | .request request => request.denies settings io
  | .turnCompleted _ => w.planDenied settings io
  | _ => false

def Gives (given : Bool) (w w' : World) : Prop :=
  ∃ more, w'.denials = w.denials ++ more ∧ (given = false → more = [])

theorem Gives.same {w w' : World} (h : w'.denials = w.denials) : w.Gives given w' :=
  ⟨[], h.trans (List.append_nil _).symm, fun _ => rfl⟩

theorem Gives.le {w w' : World} (h : w.Gives given w') : w.denials <+: w'.denials := by
  obtain ⟨more, hmore, hnone⟩ := h
  exact ⟨more, hmore.symm⟩

theorem Gives.eq {w w' : World} (h : w.Gives false w') : w'.denials = w.denials := by
  obtain ⟨more, hmore, hnone⟩ := h
  rw [hmore, hnone rfl, List.append_nil]

theorem enqueueFeedback_denials (w : World) (message : String) :
    (w.enqueueFeedback message).denials = w.denials := by
  unfold enqueueFeedback
  split <;> rfl

theorem deny_gives (feedback : Option String) (input : String → String) (w : World)
    {w' : World} (h : w'.denials = (w.deny feedback input).denials) :
    w.Gives feedback.isSome w' := by
  cases feedback with
  | none => exact .same h
  | some message => exact ⟨_, h, nofun⟩

theorem answer_gives (io : Io) (feedback : Option String) (w : World) :
    w.Gives feedback.isSome (w.answer io feedback).1 := by
  apply w.deny_gives feedback userFeedback
  unfold answer
  dsimp only
  split
  · cases feedback with
    | none => rfl
    | some message =>
      rw [Option.elim_some, enqueueFeedback_denials]
  · rfl

theorem handleServerRequest_gives (settings : Settings) (io : Io) (request : ServerRequest)
    (w : World) : w.Gives (request.denies settings io) (w.handleServerRequest settings io request).1 := by
  cases request with
  | commandExecutionRequestApproval | fileChangeRequestApproval =>
    unfold ServerRequest.denies
    unfold handleServerRequest
    dsimp only
    cases requestToolApproval settings io with
    | none => exact .same rfl
    | some status => exact w.answer_gives io _
  | toolRequestUserInput | answered | deprecated => exact .same rfl

theorem decidePlan_denials (status : ApprovalStatus) (w : World) :
    (w.decidePlan status).1.denials = w.denials := by
  unfold decidePlan
  split
  · split <;> rfl
  · split
    · split <;> rfl
    · rfl
  · rfl
  · rfl

theorem handlePlanCompleted_gives (settings : Settings) (io : Io) (w : World) :
    w.Gives (settings.approvals && io.decision.any fun status => status.feedback.isSome)
      (w.handlePlanCompleted settings io).1 := by
  unfold handlePlanCompleted
  by_cases happrovals : settings.approvals
  · rw [if_pos happrovals, happrovals, Bool.true_and]
    cases io.decision with
    | none => exact .same rfl
    | some status =>
      apply w.deny_gives status.feedback planFeedback
      dsimp only
      split
      · split
        · exact decidePlan_denials status _
        · rfl
      · rfl
  · rw [if_neg happrovals]
    exact .same rfl

theorem remind_denials (settings : Settings) (io : Io) (w : World) :
    (w.remind settings io).1.denials = w.denials := by
  unfold remind
  split
  · dsimp only
    split <;> rfl
  · rfl

theorem flushPendingFeedback_denials (w : World) :
    w.flushPendingFeedback.1.denials = w.denials := by
  cases hthread : w.threadId with
  | none => rw [flushPendingFeedback_none hthread]
  | some threadId => rw [flushPendingFeedback_some hthread]

theorem proceed_gives (settings : Settings) (io : Io) (keepAlive : Bool) (w : World) :
    w.Gives (w.planDenied settings io) (w.proceed settings io keepAlive).1 := by
  unfold proceed
  unfold planDenied
  split
  · next hplan =>
    rw [hplan, Bool.true_and]
    exact handlePlanCompleted_gives settings io _
  · split
    · exact .same rfl
    · exact .same (w.remind_denials settings io)

theorem flushPendingFeedback_planDenied (settings : Settings) (io : Io) (w : World) :
    w.flushPendingFeedback.1.planDenied settings io = w.planDenied settings io := by
  unfold planDenied
  unfold planWaits
  rw [w.flushPendingFeedback_pendingPlan]

theorem handle_gives (settings : Settings) (io : Io) (message : Message) (w : World) :
    w.Gives (w.denies settings io message) (w.handle settings io message).1 := by
  cases message with
  | request request => exact w.handleServerRequest_gives settings io request
  | turnCompleted completed =>
    unfold handle
    unfold denies
    dsimp only
    by_cases h : (Message.turnCompleted completed).status = some .interrupted
    · obtain ⟨more, hmore, hnone⟩ :=
        w.flushPendingFeedback.1.proceed_gives settings io w.flushPendingFeedback.2
      rw [w.turnCompleted_interrupted settings io h]
      rw [flushPendingFeedback_denials] at hmore
      rw [flushPendingFeedback_planDenied] at hnone
      exact ⟨more, hmore, hnone⟩
    · rw [w.turnCompleted_other settings io h]
      obtain ⟨outcome, hnoted⟩ := w.noted_eq (.turnCompleted completed)
      rw [hnoted]
      exact proceed_gives settings io false { w with exitOutcome := outcome }
  | planCompleted itemId =>
    apply Gives.same
    unfold handle
    dsimp only
    split <;> rfl
  | response | error | notification | nonJson => exact .same rfl

end World

namespace World

section
variable (h : Balanced w)
include h

theorem Balanced.answer (hanswered : io.answered) (hfeedback : ∀ message, feedback = some message →
      trim message = message ∧ message.isEmpty = false) :
    (w.answer io feedback).1.Balanced := by
  unfold World.answer
  dsimp only
  rw [if_pos hanswered]
  cases feedback with
  | none => exact h
  | some message =>
    dsimp only [Option.elim_some]
    exact h.enqueue (hfeedback message rfl).1 (hfeedback message rfl).2

theorem Balanced.handleServerRequest (hserved : request.served settings io) :
    (w.handleServerRequest settings io request).1.Balanced := by
  cases request with
  | commandExecutionRequestApproval | fileChangeRequestApproval =>
    unfold World.handleServerRequest
    dsimp only
    split
    · exact h.answer (Bool.and_eq_true_iff.mp hserved).2 fun message => approvalDecision_feedback
    · exact h
  | toolRequestUserInput | answered | deprecated => exact h

theorem Balanced.plan (hqueue : w.pendingFeedback = []) :
    ((w.deny (some message) planFeedback).spawnTurnStart .feedback (planFeedback message)).Balanced := by
  have hframe := (w.deny_frame (some message) planFeedback).trans
    (spawnTurnStart_frame .feedback (planFeedback message) _)
  have hawaiting : Turn.awaiting ⟨w.nextRequestId, .feedback, planFeedback message, .waiting⟩ := rfl
  have houtstanding :
      ((w.deny (some message) planFeedback).spawnTurnStart .feedback
          (planFeedback message)).outstanding = w.outstanding ++ [planFeedback message] := by
    unfold outstanding
    unfold spawnTurnStart
    unfold deny
    dsimp only
    rw [hqueue, List.map_nil, List.append_nil, List.append_nil, List.filter_append, List.map_append,
      List.filter_cons_of_pos hawaiting]
    rfl
  exact h.extend hframe h.spoken houtstanding rfl

theorem Balanced.decidePlan (hmodel : w.resolvedModel)
    (hqueue : status.feedback.isSome → w.pendingFeedback = []) :
    ((w.deny status.feedback planFeedback).decidePlan status).1.Balanced := by
  cases status with
  | approved scope =>
    have hflow : (w.decidePlan (.approved scope)).1 =
        w.spawnTurnStart .plan "Implement the plan." := congrArg Prod.fst (if_pos hmodel)
    exact hflow ▸ h.spawn nofun
  | denied reason =>
    change (denialFeedback reason).isSome → _ at hqueue
    change ((w.deny (denialFeedback reason) planFeedback).decidePlan (.denied reason)).1.Balanced
    unfold World.decidePlan
    dsimp only
    split
    · next message hreason =>
      rw [hreason] at hqueue ⊢
      split
      · exact h.plan (hqueue rfl)
      · next hunresolved => exact absurd hmodel hunresolved
    · next hreason =>
      rw [hreason]
      exact h
  | pending | timedOut => exact h

theorem Balanced.handlePlanCompleted (hdecided : decided settings io)
    (hqueue : io.decision.any (fun status => status.feedback.isSome) →
      w.threadId.isSome ∧ w.pendingFeedback = []) :
    (w.handlePlanCompleted settings io).1.Balanced := by
  unfold decided at hdecided
  rw [Bool.and_eq_true, Bool.and_eq_true] at hdecided
  obtain ⟨status, hstatus⟩ := Option.isSome_iff_exists.mp hdecided.1.2
  rw [hstatus, Option.any_some] at hqueue
  unfold World.handlePlanCompleted
  rw [if_pos hdecided.1.1, hstatus]
  dsimp only
  have hframe := w.deny_frame status.feedback planFeedback
  rw [if_pos hdecided.2, hframe.threadId]
  split
  · next hthread => exact h.decidePlan (h.resolved hthread) fun hsome => (hqueue hsome).2
  · next hthread =>
    cases hfeedback : status.feedback with
    | none => exact h
    | some message =>
      rw [hfeedback] at hqueue
      exact absurd (hqueue rfl).1 hthread

theorem Balanced.remind : (w.remind settings io).1.Balanced := by
  unfold World.remind
  split
  · have hsent : { w with commitReminderSent := true }.Balanced :=
      ⟨h.resolved, h.spoken, h.balance⟩
    dsimp only
    split
    · exact hsent.spawn nofun
    · exact hsent
  · exact h

/-- A reason for the plan is given where no thread can take it, or where it would overtake the
queue. -/
theorem Balanced.proceed (hserved : w.planWaits settings → decided settings io)
    (hqueue : w.planDenied settings io → w.threadId.isSome ∧ w.pendingFeedback = []) :
    (w.proceed settings io keepAlive).1.Balanced := by
  unfold World.proceed
  split
  · next hplan =>
    have hdecided := hserved hplan
    have htaken : { w with pendingPlan := none }.Balanced := ⟨h.resolved, h.spoken, h.balance⟩
    apply htaken.handlePlanCompleted hdecided
    intro hany
    apply hqueue
    unfold decided at hdecided
    unfold planDenied
    rw [Bool.and_eq_true, Bool.and_eq_true] at hdecided
    rw [hplan, hdecided.1.1, hany]
    rfl
  · split
    · exact h
    · exact h.remind

end

/-- Where the queue is dropped for want of a thread, or the reason of a plan is dropped or overtakes
the queue. -/
def loses (settings : Settings) (io : Io) (message : Message) (w : World) : Bool :=
  match message with
  | .turnCompleted _ =>
    let interrupted := message.status = some .interrupted
    interrupted && w.threadId.isNone && !w.pendingFeedback.isEmpty ||
      w.planDenied settings io &&
        (w.threadId.isNone || !interrupted && !w.pendingFeedback.isEmpty)
  | _ => false

theorem flush_empty (w : World) : w.flushPendingFeedback.1.pendingFeedback = [] := by
  cases hthread : w.threadId with
  | none => rw [flushPendingFeedback_none hthread]
  | some threadId => rw [flushPendingFeedback_some hthread]

theorem Balanced.turnCompleted (h : Balanced w)
    (hserved : w.planWaits settings → decided settings io)
    (hkeeps : ¬w.loses settings io (.turnCompleted completed)) :
    (w.turnCompleted settings io completed).1.Balanced := by
  unfold loses at hkeeps
  dsimp only at hkeeps
  rw [Bool.not_eq_true, Bool.or_eq_false_iff] at hkeeps
  by_cases hstatus : (Message.turnCompleted completed).status = some .interrupted
  · rw [w.turnCompleted_interrupted settings io hstatus]
    rw [decide_eq_true hstatus, Bool.true_and, Bool.not_true, Bool.false_and, Bool.or_false] at hkeeps
    have hflush : w.flushPendingFeedback.1.Balanced := by
      apply h.flush
      intro hnone
      rw [hnone] at hkeeps
      simpa using hkeeps.1
    apply hflush.proceed
    · unfold planWaits
      rw [w.flushPendingFeedback_pendingPlan]
      exact hserved
    · rw [w.flushPendingFeedback_planDenied, w.flushPendingFeedback_frame.threadId]
      intro hdenied
      rw [hdenied, Bool.true_and] at hkeeps
      apply And.intro _ w.flush_empty
      rw [← Option.not_isNone, hkeeps.2]
      rfl
  · rw [w.turnCompleted_other settings io hstatus]
    obtain ⟨outcome, hnoted⟩ := w.noted_eq (.turnCompleted completed)
    rw [hnoted]
    have hbalanced : { w with exitOutcome := outcome }.Balanced := ⟨h.resolved, h.spoken, h.balance⟩
    apply hbalanced.proceed hserved
    intro hdenied
    change w.planDenied settings io at hdenied
    rw [hdenied, decide_eq_false hstatus] at hkeeps
    have hboth : w.threadId.isSome ∧ w.pendingFeedback = [] := by
      simpa [Option.isSome_iff_ne_none] using hkeeps.2
    exact hboth

theorem Balanced.handle (h : Balanced w) (hserved : w.served settings io message)
    (hkeeps : ¬w.loses settings io message) :
    (w.handle settings io message).1.Balanced := by
  unfold served at hserved
  have hserved := (Bool.and_eq_true_iff.mp hserved).2
  cases message with
  | request request => exact h.handleServerRequest hserved
  | planCompleted itemId =>
    unfold World.handle
    dsimp only
    split
    · exact ⟨h.resolved, h.spoken, h.balance⟩
    · exact h
  | turnCompleted completed =>
    apply h.turnCompleted _ hkeeps
    intro hplan
    rw [hplan] at hserved
    exact hserved
  | response | error | notification | nonJson => exact h

theorem deny_queue (feedback : Option String) (input : String → String) (w : World) :
    (w.deny feedback input).pendingFeedback = w.pendingFeedback := by
  cases feedback <;> rfl

theorem decidePlan_queue (status : ApprovalStatus) (w : World) :
    (w.decidePlan status).1.pendingFeedback = w.pendingFeedback := by
  unfold decidePlan
  split
  · split <;> rfl
  · split
    · split <;> rfl
    · rfl
  · rfl
  · rfl

theorem proceed_queue (settings : Settings) (io : Io) (keepAlive : Bool) (w : World) :
    (w.proceed settings io keepAlive).1.pendingFeedback = w.pendingFeedback := by
  unfold proceed
  split
  · unfold handlePlanCompleted
    split
    · rfl
    · next status _ =>
      have hdeny := { w with pendingPlan := none }.deny_queue status.feedback planFeedback
      dsimp only
      split
      · split
        · exact (decidePlan_queue status _).trans hdeny
        · exact hdeny
      · exact hdeny
  · split
    · rfl
    · unfold remind
      split
      · dsimp only
        split <;> rfl
      · rfl

theorem turnCompleted_queue {w : World} (h : w.pendingFeedback = []) :
    (w.turnCompleted settings io completed).1.pendingFeedback = [] := by
  by_cases hstatus : (Message.turnCompleted completed).status = some .interrupted
  · rw [w.turnCompleted_interrupted settings io hstatus, proceed_queue]
    exact w.flush_empty
  · obtain ⟨outcome, hnoted⟩ := w.noted_eq (.turnCompleted completed)
    rw [w.turnCompleted_other settings io hstatus, proceed_queue, hnoted]
    exact h

def quiet (w : World) : Bool :=
  w.pendingFeedback.isEmpty && !w.turns.any Turn.awaiting

def followUpsCompleted (w : World) : Bool :=
  ∀ turn ∈ w.turns, turn.origin ≠ .prompt → w.HasCompleted turn

/-- The message loses no reason: it goes into the queue or a turn, and the run ends only with nothing
left to send. -/
def attends (settings : Settings) (io : Io) (message : Message) (w : World) : Bool :=
  if w.served settings io message then
    !w.loses settings io message &&
      (!w.finishes settings io message || w.cancelled ||
        w.pendingFeedback.isEmpty && w.followUpsCompleted)
  else
    w.cancelled || io.logged && !io.allowed && w.threadId.isSome ||
      w.quiet && !(io.logged && io.allowed && w.denies settings io message)

def keepsFeedback (settings : Settings) (w : World) : Event → Bool
  | .send i ok =>
    match w.turns[i]? with
    | some turn => !turn.awaiting || ok && !(w.turns.take i).any Turn.awaiting
    | none => true
  | .receive message io => (w.observe message).attends settings io message
  | .endOfStream => w.cancelled || w.quiet
  | .register _ | .start _ | .cancel | .leave => true

end World

theorem filter_around {l : List α} (p : α → Bool) (hi : l[i]? = some x) (y : α) :
    l.filter p = (l.take i).filter p ++ ([x].filter p ++ (l.drop (i + 1)).filter p) ∧
      (l.set i y).filter p = (l.take i).filter p ++ ([y].filter p ++ (l.drop (i + 1)).filter p) := by
  obtain ⟨hlt, hget⟩ := List.getElem?_eq_some_iff.mp hi
  apply And.intro
  · rw [← List.filter_append, ← List.filter_append, ← hget, List.singleton_append,
      ← List.drop_eq_getElem_cons hlt, List.take_append_drop]
  · rw [← List.filter_append, ← List.filter_append, List.singleton_append,
      List.set_eq_take_append_cons_drop, if_pos hlt]

theorem World.Balanced.send (h : World.Balanced w) (hok : w.keepsFeedback settings (.send i ok)) :
    (w.send i ok).Balanced := by
  unfold World.keepsFeedback at hok
  unfold World.send
  dsimp only at hok
  cases hturn : w.turns[i]? with
  | none => exact h
  | some turn =>
    rw [hturn] at hok
    dsimp only at *
    split
    · next hwaiting =>
      have hstate : (if ok then SendState.sent else SendState.failed) ≠ .waiting := by
        cases ok <;> nofun
      generalize (if ok then SendState.sent else SendState.failed) = state at hstate ⊢
      have haround := filter_around Turn.awaiting hturn { turn with state := state }
      have hafter : Turn.awaiting { turn with state := state } = false :=
        decide_eq_false fun hboth => hstate hboth.2
      rw [List.filter_cons_of_neg (Bool.eq_false_iff.mp hafter)] at haround
      by_cases horigin : turn.origin = .feedback
      · have hawaiting : turn.awaiting := decide_eq_true ⟨horigin, hwaiting⟩
        rw [hawaiting, Bool.not_true, Bool.false_or, Bool.and_eq_true] at hok
        have hearlier : (w.turns.take i).filter Turn.awaiting = [] := by
          apply List.filter_eq_nil_iff.mpr
          intro earlier hmem hearlier
          have hany := List.any_eq_true.mpr ⟨earlier, hmem, hearlier⟩
          rw [hany] at hok
          cases hok.2
        rw [List.filter_cons_of_pos hawaiting, hearlier] at haround
        have hbalance := h.balance
        unfold World.outstanding at hbalance
        rw [haround.1] at hbalance
        constructor
        · exact h.resolved
        · exact h.spoken
        · rw [if_pos ⟨hok.1, horigin⟩, ← hbalance, List.append_assoc]
          unfold World.outstanding
          dsimp only
          rw [haround.2]
          rfl
      · have hawaiting : turn.awaiting = false := decide_eq_false fun hboth => horigin hboth.1
        rw [List.filter_cons_of_neg (Bool.eq_false_iff.mp hawaiting)] at haround
        have hsame := haround.2.trans haround.1.symm
        constructor
        · exact h.resolved
        · exact h.spoken
        · rw [if_neg fun hboth => horigin hboth.2, ← h.balance]
          unfold World.outstanding
          dsimp only
          rw [hsame]
    · exact h

structure World.Attentive (w : World) : Prop where
  balanced : w.ended = none → w.Balanced
  delivered : w.FeedbackDelivered

theorem World.Balanced.attentive (h : World.Balanced w) (hgoing : w.ended = none) :
    w.Attentive := by
  apply World.Attentive.mk fun _ => h
  apply And.intro ⟨_, h.balance⟩
  intro how hhow
  rw [hgoing] at hhow
  cases hhow

theorem World.leave_attentive {w : World} (hle : w.delivered <+: w.denials)
    (hend : w.cancelled = false → w.delivered = w.denials ∧
      (how = .finished → w.pendingFeedback = [] ∧
        ∀ turn ∈ w.turns, turn.origin ≠ .prompt → w.HasCompleted turn)) :
    (w.leave how).Attentive := by
  constructor
  · intro hgoing
    cases hgoing
  · apply And.intro hle
    intro how' hhow
    cases hhow
    exact hend

theorem World.Balanced.quiet (h : World.Balanced w) (hquiet : w.quiet) :
    w.delivered = w.denials := by
  unfold World.quiet at hquiet
  rw [Bool.and_eq_true, List.isEmpty_iff, Bool.not_eq_true', List.any_eq_false] at hquiet
  have hbalance := h.balance
  unfold World.outstanding at hbalance
  rw [hquiet.1, List.filter_eq_nil_iff.mpr hquiet.2] at hbalance
  exact (List.append_nil _).symm.trans hbalance

namespace World

theorem followUpsCompleted_quiet {w : World} (hqueue : w.pendingFeedback.isEmpty)
    (h : w.followUpsCompleted) : w.quiet := by
  unfold quiet
  rw [hqueue, Bool.true_and, Bool.not_eq_true', List.any_eq_false]
  intro turn hturn hawaiting
  obtain ⟨horigin, hstate⟩ := of_decide_eq_true hawaiting
  have hcompleted := of_decide_eq_true h turn hturn fun heq => by
    rw [horigin] at heq
    cases heq
  cases hstate.symm.trans hcompleted.1

theorem finishes_denies {w : World} (h : w.finishes settings io message)
    (hkeeps : ¬w.loses settings io message) : w.denies settings io message = false := by
  cases message with
  | turnCompleted completed =>
    apply Bool.eq_false_iff.mpr
    intro hdenied
    change w.planDenied settings io at hdenied
    have hthread : w.threadId.isNone = false := by
      apply Bool.eq_false_iff.mpr
      intro hnone
      apply hkeeps
      unfold loses
      rw [hdenied, hnone]
      exact Bool.or_true _
    unfold planDenied at hdenied
    rw [Bool.and_eq_true, Bool.and_eq_true] at hdenied
    obtain ⟨status, hstatus, hreason⟩ := (Option.any_eq_true _ _).mp hdenied.2
    have hplans : plansOn status := by
      cases status with
      | denied reason => exact hreason
      | approved | pending | timedOut => cases hreason
    unfold finishes at h
    dsimp only at h
    rw [if_pos hdenied.1.1, hthread, hstatus, Option.any_some, hplans] at h
    cases h
  | request | planCompleted | response | error | notification | nonJson => cases h

theorem callback_cancelled (settings : Settings) (io : Io) (message : Message) (w : World) :
    (w.callback settings io message).1.cancelled =
      (w.cancelled || io.logged && !io.allowed && w.threadId.isSome) := by
  by_cases hlogged : io.logged
  · by_cases hallowed : io.allowed
    · obtain ⟨outcome, hnoted⟩ := w.noted_eq message
      rw [callback_handle settings message w hlogged hallowed,
        (w.handle_frame settings io message).cancelled, hnoted, hallowed, Bool.not_true,
        Bool.and_false, Bool.false_and, Bool.or_false]
    · unfold callback
      unfold enforceStorageLimits
      rw [if_pos hlogged, if_neg hallowed, hlogged, Bool.eq_false_iff.mpr hallowed]
      cases hthread : w.threadId with
      | none => exact (Bool.or_false _).symm
      | some threadId => exact (Bool.or_true _).symm
  · unfold callback
    rw [if_neg hlogged, Bool.eq_false_iff.mpr hlogged, Bool.false_and, Bool.false_and, Bool.or_false]

theorem callback_delivered (settings : Settings) (io : Io) (message : Message) (w : World) :
    (w.callback settings io message).1.delivered = w.delivered := by
  by_cases htaken : io.logged ∧ io.allowed
  · obtain ⟨outcome, hnoted⟩ := w.noted_eq message
    rw [callback_handle settings message w htaken.1 htaken.2,
      (w.handle_frame settings io message).delivered, hnoted]
  · obtain ⟨outcome, cancelled, heq⟩ := w.callback_refused settings message htaken
    rw [heq]

theorem callback_gives (settings : Settings) (io : Io) (message : Message) (w : World) :
    w.Gives (io.logged && io.allowed && w.denies settings io message)
      (w.callback settings io message).1 := by
  by_cases htaken : io.logged ∧ io.allowed
  · rw [callback_handle settings message w htaken.1 htaken.2, htaken.1, htaken.2]
    exact w.handle_gives settings io message
  · obtain ⟨outcome, cancelled, heq⟩ := w.callback_refused settings message htaken
    rw [heq]
    exact .same rfl

theorem Balanced.receive (h : Balanced w) (hgoing : w.ended = none)
    (hok : w.attends settings io message) :
    (conclude (w.callback settings io message)).Attentive := by
  have hflow := w.callback_flow settings io message h.resolved
  have hdelivered := w.callback_delivered settings io message
  have hcancelled := w.callback_cancelled settings io message
  have hgives := w.callback_gives settings io message
  have hle : (w.callback settings io message).1.delivered <+:
      (w.callback settings io message).1.denials := by
    rw [hdelivered]
    exact (show w.delivered <+: w.denials from ⟨_, h.balance⟩).trans hgives.le
  unfold attends at hok
  by_cases hserved : w.served settings io message
  · rw [if_pos hserved] at hok hflow
    rw [Bool.and_eq_true, Bool.not_eq_true'] at hok
    have hkeeps := Bool.eq_false_iff.mp hok.1
    have htaken := served_taken hserved
    by_cases hfinishes : w.finishes settings io message
    · rw [if_pos hfinishes] at hflow
      rw [hfinishes, Bool.not_true, Bool.false_or] at hok
      rw [conclude_finished hflow]
      apply leave_attentive hle
      intro hrunning
      rw [hcancelled, Bool.or_eq_false_iff] at hrunning
      rw [hrunning.1, Bool.false_or, Bool.and_eq_true] at hok
      rw [finishes_denies hfinishes hkeeps, Bool.and_false] at hgives
      have hqueue := List.isEmpty_iff.mp hok.2.1
      apply And.intro
      · rw [hdelivered, hgives.eq]
        exact h.quiet (followUpsCompleted_quiet hok.2.1 hok.2.2)
      · intro hfinished
        apply And.intro
        · rw [callback_handle settings message w htaken.1 htaken.2]
          cases message with
          | turnCompleted completed => exact turnCompleted_queue hqueue
          | request | planCompleted | response | error | notification | nonJson => cases hfinishes
        · intro turn hturn horigin
          have hflushes : ¬w.flushes message := by
            unfold flushes
            rw [hqueue, List.any_nil, Bool.and_false]
            exact Bool.false_ne_true
          rw [callback_finished hflow hflushes] at hturn
          exact callback_hasCompleted.mpr (of_decide_eq_true hok.2.2 turn hturn horigin)
    · rw [if_neg hfinishes] at hflow
      rw [conclude_goOn hflow, callback_handle settings message w htaken.1 htaken.2]
      obtain ⟨outcome, hnoted⟩ := w.noted_eq message
      apply (h.handle hserved hkeeps).attentive
      rw [(w.handle_frame settings io message).ended, hnoted]
      exact hgoing
  · rw [if_neg hserved] at hok hflow
    rw [conclude_failed hflow]
    apply leave_attentive hle
    intro hrunning
    rw [hcancelled] at hrunning
    rw [hrunning, Bool.false_or, Bool.and_eq_true, Bool.not_eq_true'] at hok
    rw [hok.2] at hgives
    apply And.intro
    · rw [hdelivered, hgives.eq]
      exact h.quiet hok.1
    · intro hfinished
      cases hfinished

theorem Balanced.observe (h : Balanced w) (message : Message) :
    (w.observe message).Balanced := by
  obtain ⟨started, completions, heq⟩ := w.observe_eq message
  rw [heq]
  exact ⟨h.resolved, h.spoken, h.balance⟩

end World

theorem World.Balanced.act (h : World.Balanced w) (hgoing : w.ended = none)
    (hok : w.keepsFeedback settings event) : (w.act settings event).Attentive := by
  cases event with
  | register threadId =>
    have hregistered : { w with threadId := some threadId, resolvedModel := true }.Balanced :=
      ⟨fun _ => rfl, h.spoken, h.balance⟩
    apply (hregistered.flush nofun).attentive
    exact (World.flushPendingFeedback_frame _).ended.trans hgoing
  | start input =>
    have hstarted : (w.spawnTurnStart .prompt input).Balanced := h.spawn nofun
    exact hstarted.attentive hgoing
  | send i ok =>
    apply (h.send hok).attentive
    unfold World.send
    split
    · split <;> exact hgoing
    · exact hgoing
  | receive message io =>
    apply (h.observe message).receive _ hok
    obtain ⟨started, completions, heq⟩ := w.observe_eq message
    rw [heq]
    exact hgoing
  | endOfStream =>
    apply World.leave_attentive ⟨_, h.balance⟩
    intro hrunning
    unfold World.keepsFeedback at hok
    rw [hrunning, Bool.false_or] at hok
    apply And.intro (h.quiet hok)
    intro hfinished
    cases hfinished
  | cancel => exact World.Balanced.attentive ⟨h.resolved, h.spoken, h.balance⟩ hgoing
  | leave =>
    unfold World.act
    dsimp only
    split
    · next hcancelled =>
      apply World.leave_attentive ⟨_, h.balance⟩
      intro hrunning
      rw [hcancelled] at hrunning
      cases hrunning
    · exact h.attentive hgoing

theorem World.Attentive.step (h : World.Attentive w) (hok : w.keepsFeedback settings event) :
    (w.step settings event).Attentive := by
  unfold World.step
  split
  · exact h
  · next hended =>
    have hgoing := Option.not_isSome_iff_eq_none.mp hended
    exact (h.balanced hgoing).act hgoing hok

theorem World.new_balanced : World.new.Balanced := by
  constructor
  · intro hthread
    cases hthread
  · intro message hmessage
    cases hmessage
  · rfl

/-- In every run that sends the feedback turns in their order and without failure, loses no reason on
its way, and ends only with nothing left to send and every turn it added completed, the reasons of
the user are delivered. -/
theorem feedback_delivered (settings : Settings) (events : List Event)
    (h : Run.Each (World.step settings) (fun w event => w.keepsFeedback settings event = true)
      World.new events) :
    (Run.run (World.step settings) World.new events).FeedbackDelivered := by
  have hattentive : (Run.run (World.step settings) World.new events).Attentive := by
    apply Run.Each.preserves _ (World.new_balanced.attentive rfl) h
    intro w event hw hok
    exact hw.step hok
  exact hattentive.delivered

def askingSettings : Settings := { plainSettings with autoApprove := false }

def denying (reason : String) : Io := { smooth with decision := some (.denied (some reason)) }

def oneDenial : List Event :=
  firstTurn ++
    [.receive (.request .commandExecutionRequestApproval) (denying "Run the tests first"),
      .receive (.turnCompleted (some ⟨"turn", .interrupted, none⟩)) smooth,
      .send 1 true, .receive (.response 2 (some "next")) smooth,
      .receive (.turnCompleted (some ⟨"next", .completed, none⟩)) smooth]

def twoDenials : List Event :=
  firstTurn ++
    [.receive (.request .commandExecutionRequestApproval) (denying "Run the tests first"),
      .receive (.request .fileChangeRequestApproval) (denying "Not in this file"),
      .receive (.turnCompleted (some ⟨"turn", .interrupted, none⟩)) smooth,
      .send 1 true, .receive (.response 2 (some "next")) smooth,
      .receive (.turnCompleted (some ⟨"next", .completed, none⟩)) smooth]

theorem feedback_delivered_sample :
    (Run.run (World.step askingSettings) World.new oneDenial).FeedbackDelivered := by
  apply feedback_delivered
  decide +kernel

theorem feedback_not_delivered :
    ¬(Run.run (World.step askingSettings) World.new twoDenials).FeedbackDelivered := by
  intro h
  have hended : (Run.run (World.step askingSettings) World.new twoDenials).ended = some .finished := rfl
  have hall := (h.2 .finished hended rfl).1
  revert hall
  decide +kernel

end Cdesktop.Codex
