import Cdesktop.CodexCallbacks

/-! The exit signal of the Codex reader, matched with the turns that the client has started. -/

namespace Cdesktop.Codex
set_option autoImplicit true

/-- One signal is sent, at the end, and it is a success only if all turns are. -/
def World.Truthful (w : World) : Prop :=
  match w.ended with
  | none => w.signals = []
  | some how =>
    ∃ result, w.signals = [result] ∧
      (result = .success →
        how ≠ .failed ∧ ∀ turn ∈ w.turns, w.HasCompleted turn ∧ ¬w.HasFailed turn)

def World.allCompleted (w : World) : Bool := ∀ turn ∈ w.turns, w.HasCompleted turn

/-- With no failure on record, the message ends the loop as the last turn completes: the callback
meets no error, and no turn is open, nor one about to start. -/
def World.endsLast (settings : Settings) (io : Io) (message : Message) (w : World) : Bool :=
  w.recorded io message ||
    w.served settings io message &&
      (!w.finishes settings io message || !w.flushes message && w.allCompleted)

def World.leavesLast (settings : Settings) (w : World) : Event → Bool
  | .receive message io => (w.observe message).endsLast settings io message
  | .endOfStream => w.exitOutcome.isSome || w.allCompleted
  | .leave => !w.cancelled || w.exitOutcome.isSome || w.allCompleted
  | .register _ | .start _ | .send .. | .cancel => true

structure World.Running (w : World) : Prop where
  going : w.ended = none
  silent : w.signals = []
  resolved : w.threadId.isSome → w.resolvedModel
  noted : ∀ completion ∈ w.completions, completion.2 = .failed → w.exitOutcome.isSome

variable {w : World}

namespace World

theorem Running.frame {w' : World} (h : w.Running) (hframe : w.Frame w') :
    w'.Running := by
  constructor
  · exact hframe.ended.trans h.going
  · exact hframe.signals.trans h.silent
  · rw [hframe.threadId, hframe.resolvedModel]
    exact h.resolved
  · rw [hframe.completions, hframe.exitOutcome]
    exact h.noted

theorem Running.start (h : Running w) : (w.spawnTurnStart origin input).Running :=
  h.frame (w.spawnTurnStart_frame origin input)

theorem Running.register {threadId : String} (h : Running w) :
    { w with threadId := some threadId, resolvedModel := true }.flushPendingFeedback.1.Running := by
  apply Running.frame _ (flushPendingFeedback_frame _)
  exact ⟨h.going, h.silent, fun _ => rfl, h.noted⟩

theorem Running.send (h : Running w) : (w.send i ok).Running := by
  unfold World.send
  split
  · split
    · exact ⟨h.going, h.silent, h.resolved, h.noted⟩
    · exact h
  · exact h

theorem leave_truthful (hsilent : w.signals = [])
    (hhow : w.exitOutcome = none → how ≠ .failed)
    (hcompleted : w.exitOutcome = none → ∀ turn ∈ w.turns, w.HasCompleted turn)
    (hnoted : ∀ completion ∈ w.completions, completion.2 = .failed → w.exitOutcome.isSome) :
    (w.leave how).Truthful := by
  apply Exists.intro (finalExitResult w.exitOutcome)
  apply And.intro
  · unfold leave
    rw [hsilent]
    rfl
  · intro hsuccess
    have hnone : w.exitOutcome = none := by
      cases houtcome : w.exitOutcome with
      | none => rfl
      | some outcome =>
        rw [houtcome] at hsuccess
        cases hsuccess
    apply And.intro (hhow hnone)
    intro turn hturn
    apply And.intro (hcompleted hnone turn hturn)
    intro hfailed
    obtain ⟨started, hstarted, hid, hmem⟩ := hfailed
    have hsome := hnoted _ hmem rfl
    rw [hnone] at hsome
    cases hsome

theorem Frame.hasCompleted {w' : World} (h : w.Frame w') :
    w'.HasCompleted turn ↔ w.HasCompleted turn := by
  unfold HasCompleted
  rw [h.started, h.completions]

theorem deny_turns (feedback : Option String) (input : String → String) (w : World) :
    (w.deny feedback input).turns = w.turns := by
  cases feedback <;> rfl

theorem decidePlan_finished (h : (w.decidePlan status).2 = .finished) :
    (w.decidePlan status).1 = w := by
  unfold decidePlan at *
  cases status with
  | approved scope =>
    dsimp only at *
    split at h <;> cases h
  | denied reason =>
    dsimp only at *
    cases hreason : denialFeedback reason with
    | none => rfl
    | some message =>
      rw [hreason] at h
      dsimp only at h
      split at h <;> cases h
  | pending | timedOut => rfl

theorem handlePlanCompleted_finished (h : (w.handlePlanCompleted settings io).2 = .finished) :
    (w.handlePlanCompleted settings io).1.turns = w.turns := by
  unfold handlePlanCompleted at *
  split
  · rfl
  · next status hstatus =>
    rw [hstatus] at h
    have hdeny := w.deny_turns status.feedback planFeedback
    dsimp only at *
    split
    · next hanswered =>
      rw [if_pos hanswered] at h
      split
      · next hthread =>
        rw [if_pos hthread] at h
        rw [decidePlan_finished h]
        exact hdeny
      · exact hdeny
    · exact hdeny

theorem remind_finished (h : (w.remind settings io).2 = .finished) :
    (w.remind settings io).1.turns = w.turns := by
  unfold remind at *
  split
  · next hreminder =>
    rw [if_pos hreminder] at h
    dsimp only at *
    split
    · next huncommitted =>
      rw [if_pos huncommitted] at h
      cases h
    · rfl
  · rfl

theorem proceed_finished (h : (w.proceed settings io keepAlive).2 = .finished) :
    (w.proceed settings io keepAlive).1.turns = w.turns := by
  unfold proceed at *
  split
  · next hplan =>
    rw [if_pos hplan] at h
    exact handlePlanCompleted_finished h
  · next hplan =>
    rw [if_neg hplan] at h
    split
    · rfl
    · next hkeep =>
      rw [if_neg hkeep] at h
      exact remind_finished h

theorem flushPendingFeedback_unsent (h : w.flushPendingFeedback.2 = false) :
    w.flushPendingFeedback.1.turns = w.turns := by
  cases hthread : w.threadId with
  | none => rw [flushPendingFeedback_none hthread]
  | some threadId =>
    rw [flushPendingFeedback_sent, hthread, Option.isSome_some, Bool.true_and] at h
    have hempty := isEmpty_nonblank w.pendingFeedback
    rw [h, Bool.not_false, List.isEmpty_iff] at hempty
    rw [flushPendingFeedback_some hthread, hempty]
    exact List.append_nil _

theorem callback_finished
    (h : (w.callback settings io message).2 = .finished) (hflushes : ¬w.flushes message) :
    (w.callback settings io message).1.turns = w.turns := by
  by_cases htaken : io.logged ∧ io.allowed
  · rw [callback_handle settings message w htaken.1 htaken.2] at *
    cases message with
    | turnCompleted completed =>
      unfold handle at *
      dsimp only at *
      by_cases hstatus : (Message.turnCompleted completed).status = some .interrupted
      · rw [w.turnCompleted_interrupted settings io hstatus] at *
        rw [proceed_finished h]
        apply flushPendingFeedback_unsent
        rw [flushPendingFeedback_sent]
        unfold flushes at hflushes
        rw [hstatus, decide_eq_true rfl, Bool.true_and] at hflushes
        exact Bool.eq_false_iff.mpr hflushes
      · rw [w.turnCompleted_other settings io hstatus] at *
        obtain ⟨outcome, hnoted⟩ := w.noted_eq (.turnCompleted completed)
        rw [proceed_finished h, hnoted]
    | request request =>
      unfold handle at h
      dsimp only at h
      rw [handleServerRequest_flow] at h
      split at h <;> cases h
    | planCompleted | response | error | notification | nonJson => cases h
  · obtain ⟨outcome, cancelled, heq⟩ := w.callback_refused settings message htaken
    rw [heq]

structure Observed (message : Message) (w : World) : Prop where
  going : w.ended = none
  silent : w.signals = []
  resolved : w.threadId.isSome → w.resolvedModel
  noted : ∀ completion ∈ w.completions, completion.2 = .failed →
    w.exitOutcome.isSome ∨ message.status = some .failed

theorem Running.observe (h : Running w) (message : Message) :
    (w.observe message).Observed message := by
  have hself : w.Observed message :=
    ⟨h.going, h.silent, h.resolved, fun c hc hfailed => .inl (h.noted c hc hfailed)⟩
  unfold World.observe
  split
  · exact ⟨h.going, h.silent, h.resolved, hself.noted⟩
  · next completed =>
    split
    · exact hself
    · constructor
      · exact h.going
      · exact h.silent
      · exact h.resolved
      · intro c hc hfailed
        cases List.mem_append.mp hc with
        | inl hc => exact .inl (h.noted c hc hfailed)
        | inr hc =>
          rw [List.mem_singleton.mp hc] at hfailed
          exact .inr (congrArg some hfailed)
  · exact hself

end World

namespace World

/-- After the callback a failed turn is on record, or the failure of the callback itself is. -/
theorem Observed.callback (h : Observed message w)
    (hrecorded : ¬(io.logged ∧ io.allowed) → w.recorded io message) :
    (w.callback settings io message).1.Running := by
  by_cases htaken : io.logged ∧ io.allowed
  · rw [callback_handle settings message w htaken.1 htaken.2]
    apply Running.frame _ (w.handle_frame settings io message)
    have hsome := w.noted_exitOutcome message
    obtain ⟨outcome, hnoted⟩ := w.noted_eq message
    rw [hnoted] at hsome ⊢
    constructor
    · exact h.going
    · exact h.silent
    · exact h.resolved
    · intro c hc hfailed
      apply hsome.trans
      apply Bool.or_eq_true_iff.mpr
      cases h.noted c hc hfailed with
      | inl hsome => exact .inl hsome
      | inr hstatus => exact .inr (decide_eq_true hstatus)
  · have hsome := w.callback_exitOutcome settings io message
    obtain ⟨outcome, cancelled, heq⟩ := w.callback_refused settings message htaken
    rw [heq] at hsome
    rw [heq]
    exact ⟨h.going, h.silent, h.resolved, fun _ _ _ => hsome.trans (hrecorded htaken)⟩

theorem Running.leave (h : Running w) (how : End)
    (hhow : w.exitOutcome = none → how ≠ .failed)
    (hok : w.exitOutcome.isSome ∨ ∀ turn ∈ w.turns, w.HasCompleted turn) :
    (w.leave how).Truthful := by
  apply leave_truthful h.silent hhow _ h.noted
  intro hnone
  cases hok with
  | inl hsome => rw [hnone] at hsome; cases hsome
  | inr hall => exact hall

structure Candid (w : World) : Prop where
  running : w.ended = none → w.Running
  truthful : w.Truthful

theorem Running.candid (h : Running w) : w.Candid := by
  apply Candid.mk fun _ => h
  unfold Truthful
  rw [h.going]
  exact h.silent

theorem leave_candid (h : (leave how w).Truthful) : (w.leave how).Candid :=
  ⟨nofun, h⟩

theorem callback_hasCompleted :
    (w.callback settings io message).1.HasCompleted turn ↔ w.HasCompleted turn := by
  by_cases htaken : io.logged ∧ io.allowed
  · rw [callback_handle settings message w htaken.1 htaken.2,
      (w.handle_frame settings io message).hasCompleted]
    obtain ⟨outcome, hnoted⟩ := w.noted_eq message
    rw [hnoted]
    rfl
  · obtain ⟨outcome, cancelled, heq⟩ := w.callback_refused settings message htaken
    rw [heq]
    rfl

theorem served_taken (h : served settings io message w) : io.logged ∧ io.allowed := by
  unfold served at h
  rw [Bool.and_eq_true, Bool.and_eq_true] at h
  exact h.1

theorem Observed.receive (h : Observed message w)
    (hok : w.endsLast settings io message) :
    (conclude (w.callback settings io message)).Candid := by
  have hflow := w.callback_flow settings io message h.resolved
  have houtcome := w.callback_exitOutcome settings io message
  unfold endsLast at hok
  rw [Bool.or_eq_true] at hok
  have hrunning : (w.callback settings io message).1.Running := by
    apply h.callback
    intro hrefused
    cases hok with
    | inl hrecorded => exact hrecorded
    | inr hok => exact absurd (served_taken (Bool.and_eq_true_iff.mp hok).1) hrefused
  cases hcase : (w.callback settings io message).2 with
  | goOn =>
    rw [conclude_goOn hcase]
    exact hrunning.candid
  | finished =>
    rw [conclude_finished hcase]
    apply leave_candid
    apply hrunning.leave .finished fun _ heq => by cases heq
    cases hok with
    | inl hrecorded => exact .inl (houtcome.trans hrecorded)
    | inr hok =>
      rw [hcase] at hflow
      have hfinishes : w.finishes settings io message := by
        by_contra hfinishes
        rw [if_neg hfinishes] at hflow
        split at hflow <;> cases hflow
      rw [hfinishes, Bool.not_true, Bool.false_or, Bool.and_eq_true, Bool.and_eq_true,
        Bool.not_eq_true'] at hok
      apply Or.inr
      intro turn hturn
      rw [callback_finished hcase (Bool.eq_false_iff.mp hok.2.1)] at hturn
      exact callback_hasCompleted.mpr (decide_eq_true_iff.mp hok.2.2 turn hturn)
  | failed =>
    rw [conclude_failed hcase]
    have hsome : (w.callback settings io message).1.exitOutcome.isSome := by
      apply houtcome.trans
      cases hok with
      | inl hrecorded => exact hrecorded
      | inr hok =>
        rw [hcase, if_pos (Bool.and_eq_true_iff.mp hok).1] at hflow
        split at hflow <;> cases hflow
    apply leave_candid
    apply hrunning.leave .failed _ (.inl hsome)
    intro hnone
    rw [hnone] at hsome
    cases hsome

end World

theorem World.Running.act (h : World.Running w) (hok : w.leavesLast settings event) :
    (w.act settings event).Candid := by
  cases event with
  | register threadId => exact h.register.candid
  | start input => exact h.start.candid
  | send i ok => exact h.send.candid
  | receive message io => exact (h.observe message).receive hok
  | endOfStream =>
    apply World.leave_candid
    apply h.leave .stream fun _ heq => by cases heq
    exact (Bool.or_eq_true_iff.mp hok).imp id of_decide_eq_true
  | cancel =>
    apply World.Running.candid
    exact ⟨h.going, h.silent, h.resolved, h.noted⟩
  | leave =>
    unfold World.act
    dsimp only
    split
    · next hcancelled =>
      unfold World.leavesLast at hok
      rw [hcancelled, Bool.not_true, Bool.false_or] at hok
      apply World.leave_candid
      apply h.leave .cancelled fun _ heq => by cases heq
      exact (Bool.or_eq_true_iff.mp hok).imp id of_decide_eq_true
    · exact h.candid

theorem World.Candid.step (h : World.Candid w) (hok : w.leavesLast settings event) :
    (w.step settings event).Candid := by
  unfold World.step
  split
  · exact h
  · next hended => exact (h.running (Option.not_isSome_iff_eq_none.mp hended)).act hok

theorem World.new_running : World.new.Running := by
  constructor
  · rfl
  · rfl
  · intro hthread
    cases hthread
  · intro c hc
    cases hc

/-- In every run that leaves the loop only as the last turn completes, or with a failure on record,
the exit signal is sent once, and it is true. -/
theorem exit_truthful (settings : Settings) (events : List Event)
    (h : Run.Each (World.step settings) (fun w event => w.leavesLast settings event = true)
      World.new events) :
    (Run.run (World.step settings) World.new events).Truthful := by
  have hcandid : (Run.run (World.step settings) World.new events).Candid := by
    apply Run.Each.preserves _ World.new_running.candid h
    intro w event hw hok
    exact hw.step hok
  exact hcandid.truthful

def plainSettings : Settings :=
  { autoApprove := true, planMode := false, commitReminder := false, commitReminderPrompt := ""
    approvals := true }

def smooth : Io :=
  { logged := true, allowed := true, decision := none, answered := true, uncommitted := "" }

def firstTurn : List Event :=
  [.register "thread", .start "Hello", .send 0 true, .receive (.response 1 (some "turn")) smooth]

theorem exit_truthful_sample :
    (Run.run (World.step plainSettings) World.new
      (firstTurn ++ [.receive (.turnCompleted (some ⟨"turn", .completed, none⟩)) smooth])).Truthful := by
  apply exit_truthful
  decide +kernel

theorem World.not_truthful (hended : w.ended = some how)
    (hsignals : w.signals = [.success]) (hopen : ¬w.allCompleted) : ¬w.Truthful := by
  intro h
  unfold World.Truthful at h
  rw [hended] at h
  obtain ⟨result, hresult, hsuccess⟩ := h
  rw [hsignals] at hresult
  have hall := (hsuccess (List.singleton_inj.mp hresult).symm).2
  exact hopen (decide_eq_true fun turn hturn => (hall turn hturn).1)

/-- Where the stream ends in the middle of the turn, or a callback meets an error there, the run is
reported as a success. -/
theorem exit_not_truthful :
    ¬(Run.run (World.step plainSettings) World.new (firstTurn ++ [.endOfStream])).Truthful ∧
    ¬(Run.run (World.step plainSettings) World.new
      (firstTurn ++ [.receive (.request .deprecated) smooth])).Truthful := by
  apply And.intro
  · apply World.not_truthful
    · exact rfl
    · decide +kernel
    · decide +kernel
  · apply World.not_truthful
    · exact rfl
    · decide +kernel
    · decide +kernel

end Cdesktop.Codex
