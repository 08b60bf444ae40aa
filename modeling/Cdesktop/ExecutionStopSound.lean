import Cdesktop.ExecutionStop

/-! Who ends an execution, and what a stop that returned has left. -/

namespace Cdesktop.ExecutionStop
open Table (Reply)
open ExecutionLog (CaptureOutcome)
set_option autoImplicit true

def Start.holds : Start → Bool
  | .waiting => false
  | .returned => false
  | _ => true

def Start.early : Start → Bool
  | .waiting | .admitted | .created | .spawned | .failing _ | .explaining => true
  | .registering | .registered | .returned => false

def Start.past : Start → Bool
  | .registered | .returned => true
  | _ => false

def Monitor.before : Monitor → Bool
  | .absent | .waiting | .signalled _ | .exited _ | .draining _ | .captured _ _ => true
  | .deciding _ _ => true
  | _ => false

def Monitor.outcome : Monitor → Option NormalizedProcessOutcome
  | .signalled outcome | .exited outcome | .draining outcome => some outcome
  | .captured outcome _ => some outcome
  | .deciding outcome _ => some outcome
  | _ => none

def Row.terminal (row : Row) : Prop := row.status ≠ .running

def firstRequest (acts : List Act) : Option ExecutionProcessStatus :=
  acts.findSome? fun
    | .requested _ status => some status
    | _ => none

namespace World

def Over (w : World) : Prop := ∃ row, w.row = some row ∧ row.terminal

def Fits (w : World) (i : Nat) (s : Stop) : Prop :=
  match s.phase with
  | .lookup | .admission | .abandoned | .returned false => True
  | .recheck => w.schedulerLock = some (.stop i)
  | .orphan => w.start = .returned ∧ w.registered = false
  | .requeue => w.start = .returned ∧ w.registered = false ∧ w.Over
  | .record | .check | .cancelling | .graceful | .killing | .awaiting =>
    w.monitor ≠ .absent ∧ w.start.past = true
  | .reading => w.monitor = .finished
  | .returned true => w.start.past = true ∧ w.registered = false ∧ w.Over

structure Goes (w w' : World) : Prop where
  lock : ∀ i, w.schedulerLock = some (.stop i) → w'.schedulerLock = some (.stop i)
  returned : w.start = .returned → w'.start = .returned
  past : w.start.past = true → w'.start.past = true
  unregistered : w.start.past = true → w.registered = false → w'.registered = false
  monitored : w.monitor ≠ .absent → w'.monitor ≠ .absent
  finished : w.monitor = .finished → w'.monitor = .finished
  isOver : ∀ row, w.row = some row → row.terminal → w'.row = some row

theorem Goes.fits (h : Goes w w') (hfits : w.Fits i s) : w'.Fits i s := by
  have hover : w.Over → w'.Over := by
    intro hw
    obtain ⟨row, hrow, hterminal⟩ := hw
    exact ⟨row, h.isOver row hrow hterminal, hterminal⟩
  have hpast : w.start = .returned → w.start.past = true := by
    intro hreturned
    rw [hreturned]
    rfl
  unfold Fits at hfits ⊢
  split at hfits
  · trivial
  · trivial
  · trivial
  · trivial
  · exact h.lock i hfits
  · exact ⟨h.returned hfits.1, h.unregistered (hpast hfits.1) hfits.2⟩
  · exact ⟨h.returned hfits.1, h.unregistered (hpast hfits.1) hfits.2.1, hover hfits.2.2⟩
  · exact ⟨h.monitored hfits.1, h.past hfits.2⟩
  · exact ⟨h.monitored hfits.1, h.past hfits.2⟩
  · exact ⟨h.monitored hfits.1, h.past hfits.2⟩
  · exact ⟨h.monitored hfits.1, h.past hfits.2⟩
  · exact ⟨h.monitored hfits.1, h.past hfits.2⟩
  · exact ⟨h.monitored hfits.1, h.past hfits.2⟩
  · exact h.finished hfits
  · exact ⟨h.past hfits.1, h.unregistered hfits.1 hfits.2.1, hover hfits.2.2⟩

structure Frame (w : World) : Prop where
  held : w.start.holds = true → w.schedulerLock = some .start
  fresh : w.start = .waiting ∨ w.start = .admitted → w.row = none
  called : w.stops ≠ [] → w.row ≠ none
  created : w.start = .created → ∃ row, w.row = some row ∧ row.status = .running
  early : w.start.early = true → w.monitor = .absent
  monitored : w.start = .registering ∨ w.start = .registered → w.monitor ≠ .absent
  registered : w.registered = true ↔
    w.monitor ≠ .absent ∧ w.monitor ≠ .finished ∧ w.start.past = true
  finished : w.monitor = .finished → w.start.past = true
  ends : ∀ outcome, w.monitor.outcome = some outcome → outcome.statusAndExitCode.1 ≠ .running
  terminal : ∀ status, w.requestedStop = some status → status ≠ .running

def Suits (w : World) (i : Nat) (s : Stop) : Prop :=
  w.Fits i s ∧ (s.status = .running → s.phase = .returned false)

structure Shape (w : World) : Prop extends w.Frame where
  stops : ∀ i s, w.stops[i]? = some s → w.Suits i s

section
variable (writer : Writer) (reply : Reply) (now : Time) (status : ExecutionProcessStatus)
  (exitCode : Option Int) (outcome : Option NormalizedExecutionOutcome)

theorem complete_cases (w : World) :
    w.complete writer reply now status exitCode outcome = w ∧
        (reply = .ok → w.row = none ∨ w.Over) ∨
      ∃ row new : Row, w.row = some row ∧ row.status = .running ∧ new.status = status ∧
        w.complete writer reply now status exitCode outcome =
          { w with row := some new, acts := w.acts ++ [.left writer new] } := by
  unfold complete
  split
  · exact .inl ⟨rfl, by simp⟩
  · rename_i hrow
    exact .inl ⟨rfl, fun _ => .inl (by assumption)⟩
  · rename_i row _ hrow
    split
    · rename_i hrunning
      exact .inr ⟨row, _, hrow, hrunning, rfl, rfl⟩
    · rename_i hterminal
      exact .inl ⟨rfl, fun _ => .inr ⟨row, hrow, hterminal⟩⟩

theorem Goes.refl (w : World) : Goes w w where
  lock _ h := h
  returned h := h
  past h := h
  unregistered _ h := h
  monitored h := h
  finished h := h
  isOver _ h _ := h

theorem Goes.trans (h : Goes w w') (h' : Goes w' w'') : Goes w w'' where
  lock i hi := h'.lock i (h.lock i hi)
  returned hr := h'.returned (h.returned hr)
  past hp := h'.past (h.past hp)
  unregistered hp hr := h'.unregistered (h.past hp) (h.unregistered hp hr)
  monitored hm := h'.monitored (h.monitored hm)
  finished hf := h'.finished (h.finished hf)
  isOver row hrow hterminal := h'.isOver row (h.isOver row hrow hterminal) hterminal

theorem Shape.goes (h : w.Shape) (hframe : w'.Frame) (hgoes : Goes w w')
    (hstops : w'.stops = w.stops) : w'.Shape := by
  apply Shape.mk hframe
  intro i s hs
  rw [hstops] at hs
  exact ⟨hgoes.fits (h.stops i s hs).1, (h.stops i s hs).2⟩

theorem complete_rest (w : World) :
    ∃ row acts, w.complete writer reply now status exitCode outcome = { w with row, acts } ∧
      (w.row ≠ none → row ≠ none) := by
  obtain ⟨heq, -⟩ | ⟨row, new, -, -, -, heq⟩ :=
    w.complete_cases writer reply now status exitCode outcome
  · exact ⟨w.row, w.acts, heq, id⟩
  · exact ⟨_, _, heq, by simp⟩

theorem complete_stops (w : World) :
    (w.complete writer reply now status exitCode outcome).stops = w.stops := by
  obtain ⟨row, acts, heq, -⟩ := w.complete_rest writer reply now status exitCode outcome
  rw [heq]

theorem goes_complete (w : World) :
    Goes w (w.complete writer reply now status exitCode outcome) := by
  obtain ⟨heq, -⟩ | ⟨row, new, hrow, hrunning, -, heq⟩ :=
    w.complete_cases writer reply now status exitCode outcome
  · rw [heq]
    exact .refl w
  · rw [heq]
    exact { Goes.refl w with
      isOver := by
        intro old hold hterminal
        rw [hrow] at hold
        cases hold
        exact absurd hrunning hterminal }

end

theorem complete_over (w : World) (writer : Writer) (reply : Reply) (now : Time)
    (hstatus : status ≠ .running) (exitCode : Option Int)
    (outcome : Option NormalizedExecutionOutcome) (hok : reply = .ok) (hrow : w.row ≠ none) :
    (w.complete writer reply now status exitCode outcome).Over := by
  obtain ⟨heq, hover⟩ | ⟨row, new, -, -, hnew, heq⟩ :=
    w.complete_cases writer reply now status exitCode outcome
  · rw [heq]
    exact (hover hok).resolve_left hrow
  · rw [heq]
    apply Exists.intro new
    apply And.intro rfl
    rwa [Row.terminal, hnew]

theorem Frame.complete {w : World} (h : w.Frame) (hstart : w.start ≠ .created) (writer : Writer)
    (reply : Reply) (now : Time) (status : ExecutionProcessStatus) (exitCode : Option Int)
    (outcome : Option NormalizedExecutionOutcome) :
    (w.complete writer reply now status exitCode outcome).Frame := by
  obtain ⟨heq, -⟩ | ⟨row, new, hrow, -, -, heq⟩ :=
    w.complete_cases writer reply now status exitCode outcome
  · rw [heq]
    exact h
  · rw [heq]
    exact { h with
      fresh := fun hfresh => absurd (h.fresh hfresh) (by simp [hrow])
      called := fun _ => by simp
      created := fun hcreated => absurd hcreated hstart }

theorem Shape.stepped_complete (h : w.Shape) (hstart : w.start ≠ .created)
    (writer : Writer) (reply : Reply) (now : Time) (status : ExecutionProcessStatus)
    (exitCode : Option Int) (outcome : Option NormalizedExecutionOutcome) :
    (w.complete writer reply now status exitCode outcome).Shape ∧
      Goes w (w.complete writer reply now status exitCode outcome) := by
  have hgoes := w.goes_complete writer reply now status exitCode outcome
  have hframe := h.complete hstart writer reply now status exitCode outcome
  obtain ⟨row, acts, heq, -⟩ := w.complete_rest writer reply now status exitCode outcome
  rw [heq] at hgoes hframe ⊢
  exact ⟨h.goes hframe hgoes rfl, hgoes⟩

theorem Frame.past {w : World} (h : w.Frame) (hmonitor : w.monitor ≠ .absent)
    (hstart : w.start ≠ .registering) : w.start.past = true := by
  cases hcase : w.start with
  | registering => exact absurd hcase hstart
  | registered => rfl
  | returned => rfl
  | _ => exact absurd (h.early (by rw [hcase]; rfl)) hmonitor

structure Early (w w' : World) : Prop where
  monitor : w'.monitor = w.monitor
  registered : w'.registered = w.registered
  stops : w'.stops = w.stops
  start : w'.start ≠ .registering ∧ w'.start ≠ .registered
  held : w'.start.holds = true → w'.schedulerLock = some .start
  fresh : w'.start = .waiting ∨ w'.start = .admitted → w'.row = none
  called : w.row ≠ none → w'.row ≠ none
  created : w'.start = .created → ∃ row, w'.row = some row ∧ row.status = .running
  requests : w'.requestedStop = w.requestedStop
  isOver : ∀ row, w.row = some row → row.terminal → w'.row = some row

theorem Early.goes (hearly : Early w w') (hstart : w.start.early = true)
    (hlock : ∀ i, w.schedulerLock ≠ some (.stop i)) : Goes w w' where
  lock i hi := absurd hi (hlock i)
  returned hreturned := by rw [hreturned] at hstart; cases hstart
  past hpast := by
    revert hstart hpast
    cases w.start <;> simp [Start.early, Start.past]
  unregistered _ hregistered := by rw [hearly.registered, hregistered]
  monitored hmonitor := by rwa [hearly.monitor]
  finished hfinished := by rwa [hearly.monitor]
  isOver := hearly.isOver

theorem Early.shape (hearly : Early w w') (h : w.Shape)
    (hstart : w.start.early = true) (hlock : ∀ i, w.schedulerLock ≠ some (.stop i)) :
    w'.Shape := by
  have habsent : w.monitor = .absent := h.early hstart
  have hregistered : w.registered = false := by
    have hiff := h.registered
    rw [habsent] at hiff
    simpa using hiff
  apply h.goes _ (hearly.goes hstart hlock) hearly.stops
  exact {
    held := hearly.held
    fresh := hearly.fresh
    called := by
      rw [hearly.stops]
      exact fun hcalled => hearly.called (h.called hcalled)
    created := hearly.created
    early := fun _ => by rw [hearly.monitor, habsent]
    monitored := fun hmonitored =>
      hmonitored.elim (absurd · hearly.start.1) (absurd · hearly.start.2)
    registered := by rw [hearly.registered, hearly.monitor, habsent, hregistered]; simp
    finished := by rw [hearly.monitor, habsent]; simp
    ends := by rw [hearly.monitor]; exact h.ends
    terminal := by rw [hearly.requests]; exact h.terminal }

theorem Early.returned {w w₁ : World} (hmonitor : w₁.monitor = w.monitor)
    (hregistered : w₁.registered = w.registered) (hstops : w₁.stops = w.stops)
    (hcalled : w.row ≠ none → w₁.row ≠ none)
    (hrequests : w₁.requestedStop = w.requestedStop)
    (hover : ∀ row, w.row = some row → row.terminal → w₁.row = some row) :
    Early w w₁.returnStart where
  monitor := hmonitor
  registered := hregistered
  stops := hstops
  start := by simp [returnStart]
  held := by simp [returnStart, Start.holds]
  fresh := by simp [returnStart]
  called := hcalled
  created := by simp [returnStart]
  requests := hrequests
  isOver := hover

theorem Early.keeps {w : World} (hlock : w.schedulerLock = some .start) {next : Start}
    {alive : Bool} (hstart : next = .spawned ∨ ∃ outcome, next = .failing outcome) :
    Early w { w with start := next, alive } where
  monitor := rfl
  registered := rfl
  stops := rfl
  start := by rcases hstart with rfl | ⟨outcome, rfl⟩ <;> simp
  held _ := hlock
  fresh := by rcases hstart with rfl | ⟨outcome, rfl⟩ <;> simp
  called h := h
  created := by rcases hstart with rfl | ⟨outcome, rfl⟩ <;> simp
  requests := rfl
  isOver _ h _ := h

theorem update_cases (w : World) (reply : Reply) (now : Time)
    (status : ExecutionProcessStatus) (exitCode : Option Int) :
    w.update reply now status exitCode = w ∨ ∃ row new : Row, w.row = some row ∧
      new.status = status ∧ w.update reply now status exitCode =
        { w with row := some new, acts := w.acts ++ [.left .start new] } := by
  unfold update
  split
  · exact .inl rfl
  · exact .inl rfl
  · rename_i row _ hrow
    exact .inr ⟨row, _, hrow, rfl, rfl⟩

theorem stepped_startStep (h : w.Shape) (move : StartMove) :
    (w.startStep move).Shape ∧ Goes w (w.startStep move) := by
  have hboth : ∀ w', w.start.early = true → Early w w' →
      (∀ i, w.schedulerLock ≠ some (.stop i)) → w'.Shape ∧ Goes w w' :=
    fun w' hstart hearly hlock => ⟨hearly.shape h hstart hlock, hearly.goes hstart hlock⟩
  have hfree : ∀ i, w.schedulerLock = some .start → w.schedulerLock ≠ some (.stop i) := by
    intro i hlock
    simp [hlock]
  unfold startStep
  split
  · rename_i hstart
    have hrow := h.fresh (.inl hstart)
    split
    · rename_i hnone
      apply hboth _ (by rw [hstart]; rfl) _ (by simp [hnone])
      exact {
        monitor := rfl, registered := rfl, stops := rfl, start := by simp, held := fun _ => rfl
        fresh := fun _ => hrow, called := fun hcalled => hcalled, created := by simp
        requests := rfl, isOver := fun _ hold _ => hold }
    · exact ⟨h, .refl w⟩
  · rename_i hstart
    have hrow := h.fresh (.inr hstart)
    have hlock := h.held (by rw [hstart]; rfl)
    apply hboth _ (by rw [hstart]; rfl) _ fun i => hfree i hlock
    exact {
      monitor := rfl, registered := rfl, stops := rfl, start := by simp, held := fun _ => hlock
      fresh := by simp, called := by simp, created := fun _ => ⟨_, rfl, rfl⟩
      requests := rfl
      isOver := fun row hold _ => absurd hold (by simp [hrow]) }
  · rename_i hstart
    have hlock := h.held (by rw [hstart]; rfl)
    apply hboth _ (by rw [hstart]; rfl) _ fun i => hfree i hlock
    exact .returned rfl rfl rfl id rfl fun _ hold _ => hold
  · rename_i hstart
    have hlock := h.held (by rw [hstart]; rfl)
    apply hboth _ (by rw [hstart]; rfl) _ fun i => hfree i hlock
    exact .returned rfl rfl rfl id rfl fun _ hold _ => hold
  · rename_i reply now hstart
    have hlock := h.held (by rw [hstart]; rfl)
    obtain ⟨row, hrow, hrunning⟩ := h.created hstart
    apply hboth _ (by rw [hstart]; rfl) _ fun i => hfree i hlock
    obtain heq | ⟨old, new, -, -, heq⟩ := w.update_cases reply now .failed none
    · rw [heq]
      exact .returned rfl rfl rfl id rfl fun _ hold _ => hold
    · rw [heq]
      apply Early.returned
      · rfl
      · rfl
      · rfl
      · simp
      · rfl
      · intro row' hold hterminal
        rw [hrow] at hold
        cases hold
        exact absurd hrunning hterminal
  · rename_i hstart
    have hlock := h.held (by rw [hstart]; rfl)
    apply hboth _ (by rw [hstart]; rfl) _ fun i => hfree i hlock
    exact .keeps hlock (.inr ⟨_, rfl⟩)
  · rename_i hstart
    have hlock := h.held (by rw [hstart]; rfl)
    apply hboth _ (by rw [hstart]; rfl) _ fun i => hfree i hlock
    exact .keeps hlock (.inl rfl)
  · rename_i hstart
    have hlock := h.held (by rw [hstart]; rfl)
    apply hboth _ (by rw [hstart]; rfl) _ fun i => hfree i hlock
    exact .keeps hlock (.inr ⟨_, rfl⟩)
  · rename_i hstart
    have hlock := h.held (by rw [hstart]; rfl)
    have habsent := h.early (by rw [hstart]; rfl)
    have hregistered : w.registered = false := by
      have hiff := h.registered
      rw [habsent] at hiff
      simpa using hiff
    have hgoes : Goes w { w with
        start := .registering, owner := some none, recorder := .recording
        monitor := .waiting } := {
      Goes.refl w with
      lock := fun i hi => absurd hi (hfree i hlock)
      returned := by simp [hstart]
      past := by simp [hstart, Start.past]
      monitored := by simp
      finished := by simp [habsent] }
    apply And.intro _ hgoes
    apply h.goes _ hgoes rfl
    exact { h.toFrame with
      held := fun _ => hlock
      fresh := by simp
      created := by simp
      early := by simp [Start.early]
      monitored := by simp
      registered := by simp [hregistered, Start.past]
      finished := by simp
      ends := by simp [Monitor.outcome] }
  · rename_i hstart
    have hlock := h.held (by rw [hstart]; rfl)
    have hmonitor := h.monitored (.inl hstart)
    have hgoes : Goes w { w with start := .registered, registered := true } := {
      Goes.refl w with
      returned := by simp [hstart]
      past := by simp [Start.past]
      unregistered := by simp [hstart, Start.past] }
    apply And.intro _ hgoes
    apply h.goes _ hgoes rfl
    exact { h.toFrame with
      held := fun _ => hlock
      fresh := by simp
      created := by simp
      early := by simp [Start.early]
      monitored := fun _ => hmonitor
      registered := by
        have hfinished : w.monitor ≠ .finished := by
          intro hfinished
          simpa [hstart, Start.past] using h.finished hfinished
        simp [hmonitor, hfinished, Start.past]
      finished := by simp [Start.past] }
  · rename_i hstart
    have hlock := h.held (by rw [hstart]; rfl)
    have hgoes : Goes w w.returnStart := {
      Goes.refl w with
      lock := fun i hi => absurd hi (hfree i hlock)
      returned := fun _ => rfl
      past := fun _ => rfl }
    apply And.intro _ hgoes
    apply h.goes _ hgoes rfl
    exact { h.toFrame with
      held := by simp [returnStart, Start.holds]
      fresh := by simp [returnStart]
      created := by simp [returnStart]
      early := by simp [returnStart, Start.early]
      monitored := by simp [returnStart]
      registered := by
        have hiff := h.registered
        rw [hstart] at hiff
        exact hiff
      finished := fun _ => rfl }
  · rename_i outcome reply now hstart
    have hlock := h.held (by rw [hstart]; rfl)
    have hearly : w.start.early = true := by rw [hstart]; rfl
    apply hboth _ hearly _ fun i => hfree i hlock
    have hgoes := w.goes_complete .start reply now .failed none (some outcome)
    obtain ⟨row, acts, heq, hcalled⟩ :=
      w.complete_rest .start reply now .failed none (some outcome)
    rw [heq] at hgoes ⊢
    exact {
      monitor := rfl, registered := rfl, stops := rfl, start := by simp, held := fun _ => hlock
      fresh := by simp, called := hcalled, created := by simp
      requests := rfl
      isOver := hgoes.isOver }
  · rename_i hstart
    have hlock := h.held (by rw [hstart]; rfl)
    apply hboth _ (by rw [hstart]; rfl) _ fun i => hfree i hlock
    apply Early.returned
    · rfl
    · rfl
    · rfl
    · exact id
    · rfl
    · exact fun _ hold _ => hold
  · exact ⟨h, .refl w⟩

theorem Shape.refl (h : w.Shape) : w.Shape ∧ Goes w w := ⟨h, .refl w⟩

theorem stepped_recorderStep (h : w.Shape) (move : RecorderMove) :
    (w.recorderStep move).Shape ∧ Goes w (w.recorderStep move) := by
  have hstep : ∀ recorder owner acts cancelled alive,
      Shape { w with recorder, owner, acts, cancelled, alive } ∧
        Goes w { w with recorder, owner, acts, cancelled, alive } := by
    intro recorder owner acts cancelled alive
    have hgoes : Goes w { w with recorder, owner, acts, cancelled, alive } :=
      { Goes.refl w with }
    apply And.intro _ hgoes
    exact h.goes { h.toFrame with } hgoes rfl
  unfold recorderStep
  split
  · exact hstep _ _ w.acts w.cancelled w.alive
  · exact hstep _ _ w.acts w.cancelled w.alive
  · exact hstep _ w.owner _ w.cancelled w.alive
  · exact hstep _ w.owner _ w.cancelled w.alive
  · split
    · exact h.refl
    · exact hstep _ w.owner w.acts _ _
  · exact h.refl

theorem Shape.monitor (h : w.Shape) (hmonitor : w.monitor ≠ .absent)
    (hfinished : w.monitor ≠ .finished) (next : Monitor) (alive : Bool) (acts : List Act)
    (hnext : next ≠ .absent ∧ next ≠ .finished)
    (hends : ∀ outcome, next.outcome = some outcome → outcome.statusAndExitCode.1 ≠ .running) :
    Shape { w with monitor := next, alive, acts } ∧
      Goes w { w with monitor := next, alive, acts } := by
  have hgoes : Goes w { w with monitor := next, alive, acts } := {
    Goes.refl w with
    monitored := fun _ => hnext.1
    finished := fun hold => absurd hold hfinished }
  apply And.intro _ hgoes
  apply h.goes _ hgoes rfl
  exact { h.toFrame with
    early := fun hearly => absurd (h.early hearly) hmonitor
    monitored := fun _ => hnext.1
    registered := by
      have hiff := h.registered
      simpa [hmonitor, hfinished, hnext.1, hnext.2] using hiff
    finished := fun hold => absurd hold hnext.2
    ends := hends }

end World

theorem publishedOutcome_terminal (houtcome : outcome.statusAndExitCode.1 ≠ .running)
    (hrequest : ∀ status, requestedStop = some status → status ≠ .running) :
    (publishedOutcome outcome recordingFailed requestedStop).statusAndExitCode.1 ≠ .running := by
  unfold publishedOutcome
  split
  · simp [NormalizedProcessOutcome.recordingFailed, NormalizedProcessOutcome.statusAndExitCode]
  · split
    · rename_i status
      exact hrequest status rfl
    · exact houtcome

theorem fromExecutorSignal_terminal (result : Option ExecutorExitResult) :
    (NormalizedProcessOutcome.fromExecutorSignal result).statusAndExitCode.1 ≠ .running := by
  unfold NormalizedProcessOutcome.fromExecutorSignal
  split <;> simp [NormalizedProcessOutcome.statusAndExitCode]

theorem fromExitStatusResult_terminal (status : ExitStatus) :
    (NormalizedProcessOutcome.fromExitStatusResult status).statusAndExitCode.1 ≠ .running := by
  cases status with
  | exited code =>
    unfold NormalizedProcessOutcome.fromExitStatusResult
    dsimp only
    split <;> simp [NormalizedProcessOutcome.statusAndExitCode]
  | error => simp [NormalizedProcessOutcome.fromExitStatusResult,
      NormalizedProcessOutcome.statusAndExitCode]

theorem World.stepped_monitorStep (h : w.Shape) (x : Execution) (move : MonitorMove) :
    (w.monitorStep x move).Shape ∧ World.Goes w (w.monitorStep x move) := by
  by_cases habsent : w.monitor = .absent
  · simp only [World.monitorStep, habsent]
    exact h.refl
  by_cases hfinished : w.monitor = .finished
  · simp only [World.monitorStep, hfinished]
    exact h.refl
  have hquiet : ∀ (next : Monitor) (alive : Bool) (acts : List Act),
      next ≠ .absent → next ≠ .finished → next.outcome = none →
      World.Shape { w with monitor := next, alive, acts } ∧
        World.Goes w { w with monitor := next, alive, acts } := by
    intro next alive acts hnext hend houtcome
    exact h.monitor habsent hfinished next alive acts ⟨hnext, hend⟩ (by simp [houtcome])
  have hwith : ∀ (next : Monitor) (alive : Bool) (outcome : NormalizedProcessOutcome),
      next ≠ .absent → next ≠ .finished → next.outcome = some outcome →
      outcome.statusAndExitCode.1 ≠ .running →
      World.Shape { w with monitor := next, alive } ∧
        World.Goes w { w with monitor := next, alive } := by
    intro next alive outcome hnext hend houtcome hterminal
    apply h.monitor habsent hfinished next alive w.acts ⟨hnext, hend⟩
    intro outcome' houtcome'
    rw [houtcome] at houtcome'
    cases houtcome'
    exact hterminal
  unfold World.monitorStep
  split
  · exact h.refl
  · exact h.refl
  · exact hquiet .panicked w.alive w.acts (by simp) (by simp) rfl
  · exact hwith _ w.alive _ (by simp) (by simp) rfl (fromExecutorSignal_terminal _)
  · split
    · exact hwith _ w.alive _ (by simp) (by simp) rfl (fromExitStatusResult_terminal _)
    · exact h.refl
  · rename_i outcome killed hmonitor
    exact hwith _ _ outcome (by simp) (by simp) rfl (h.ends outcome (by simp [hmonitor, Monitor.outcome]))
  · rename_i outcome killed hmonitor
    exact hwith _ _ outcome (by simp) (by simp) rfl (h.ends outcome (by simp [hmonitor, Monitor.outcome]))
  · rename_i outcome hmonitor
    split
    · exact hwith _ w.alive outcome (by simp) (by simp) rfl
        (h.ends outcome (by simp [hmonitor, Monitor.outcome]))
    · exact h.refl
  · rename_i outcome recordingFailed hmonitor
    apply hwith _ w.alive _ (by simp) (by simp) rfl
    exact publishedOutcome_terminal (h.ends outcome (by simp [hmonitor, Monitor.outcome])) h.terminal
  · rename_i outcome allowNextAction reply now hmonitor
    have hcreated : w.start ≠ .created := by
      intro hcreated
      exact habsent (h.early (by rw [hcreated]; rfl))
    have hstep := h.stepped_complete hcreated .monitor reply now outcome.statusAndExitCode.1
      outcome.statusAndExitCode.2 outcome.normalizedOutcome
    obtain ⟨row, acts, heq, -⟩ := w.complete_rest .monitor reply now outcome.statusAndExitCode.1
      outcome.statusAndExitCode.2 outcome.normalizedOutcome
    dsimp only
    rw [heq] at hstep ⊢
    have hnext : ∀ next : Monitor, next ≠ .absent → next ≠ .finished → next.outcome = none →
        World.Shape { w with row, acts, monitor := next } ∧
          World.Goes w { w with row, acts, monitor := next } := by
      intro next hnext hend houtcome
      have hmore := hstep.1.monitor habsent hfinished next w.alive acts ⟨hnext, hend⟩
        (by simp [houtcome])
      exact ⟨hmore.1, hstep.2.trans hmore.2⟩
    split
    · exact hnext _ (by simp) (by simp) rfl
    · exact hnext _ (by simp) (by simp) rfl
  · exact hquiet .releasing w.alive _ (by simp) (by simp) rfl
  · rename_i hmonitor
    split
    · exact h.refl
    · rename_i hregistering
      have hpast : w.start.past = true := h.past habsent hregistering
      have hgoes : World.Goes w { w with monitor := .finished, registered := false } := {
        World.Goes.refl w with
        unregistered := fun _ _ => rfl
        monitored := by simp
        finished := fun _ => rfl }
      apply And.intro _ hgoes
      apply h.goes _ hgoes rfl
      exact { h.toFrame with
        early := fun hearly => absurd (h.early hearly) habsent
        monitored := by simp
        registered := by simp
        finished := fun _ => hpast
        ends := by simp [Monitor.outcome] }
  · exact h.refl

section Stops
variable {w w₁ : World} {s : Stop} {i j : Nat}

namespace World

theorem Shape.advance (h : w.Shape) (hs : w.stops[i]? = some s) (hframe : w₁.Frame)
    (hstops : w₁.stops = w.stops) (hothers : ∀ j s', j ≠ i → w.Fits j s' → w₁.Fits j s')
    (phase : StopPhase) (hfits : w₁.Fits i { s with phase })
    (hstatus : s.status = .running → phase = .returned false) :
    (w₁.setStop i s phase).Shape := by
  have hframe' : (w₁.setStop i s phase).Frame := { hframe with
    called := by
      intro hcalled
      apply hframe.called
      intro hnil
      simp [setStop, hnil] at hcalled }
  apply Shape.mk hframe'
  intro j s' hs'
  by_cases hij : j = i
  · subst hij
    obtain ⟨hlt, -⟩ := List.getElem?_eq_some_iff.mp hs
    simp only [setStop, hstops, List.getElem?_set_self hlt, Option.some.injEq] at hs'
    subst hs'
    exact ⟨hfits, hstatus⟩
  · simp only [setStop, hstops, List.getElem?_set_ne (Ne.symm hij)] at hs'
    obtain ⟨hold, hrefused⟩ := h.stops j s' hs'
    exact ⟨hothers j s' hij hold, hrefused⟩

theorem Shape.step (h : w.Shape) (hs : w.stops[i]? = some s) (phase : StopPhase)
    (hfits : w.Fits i { s with phase }) (hstatus : s.status = .running → phase = .returned false) :
    (w.setStop i s phase).Shape :=
  h.advance hs h.toFrame rfl (fun _ _ _ hold => hold) phase hfits hstatus

def Lasts (w w' : World) : Prop :=
  ∀ row, w.row = some row → row.terminal → w'.row = some row

theorem Lasts.refl (w : World) : Lasts w w := fun _ hrow _ => hrow

theorem Frame.relock {w : World} (h : w.Frame) (hstart : w.start.holds = false)
    (lock : Option Holder) : Frame { w with schedulerLock := lock } :=
  { h with held := fun hholds => absurd hholds (by simp [hstart]) }

theorem fits_relock {w : World} (hlock : w.schedulerLock = none ∨ w.schedulerLock = some (.stop i))
    (hij : j ≠ i) (h : w.Fits j s) (lock : Option Holder) :
    Fits { w with schedulerLock := lock } j s := by
  unfold Fits at h ⊢
  split at h
  · trivial
  · trivial
  · trivial
  · trivial
  · rw [h] at hlock
    simp [hij] at hlock
  all_goals exact h

theorem Frame.free {w : World} (h : w.Frame) (hlock : w.schedulerLock ≠ some .start) :
    w.start.holds = false := by
  cases hholds : w.start.holds with
  | false => rfl
  | true => exact absurd (h.held hholds) hlock

theorem Shape.returned (h : w.Shape) (hs : w.stops[i]? = some s)
    (hstart : w.start.holds = false) : w.start = .returned := by
  have hrow : w.row ≠ none := by
    apply h.called
    intro hnil
    simp [hnil] at hs
  cases hcase : w.start with
  | waiting => exact absurd (h.fresh (.inl hcase)) hrow
  | returned => rfl
  | _ => simp [hcase, Start.holds] at hstart

theorem stepped_stopStep (h : w.Shape) (x : Execution) (hs : w.stops[i]? = some s)
    (io : StopIo) : (w.stopStep x i s io).Shape ∧ Lasts w (w.stopStep x i s io) := by
  obtain ⟨hfits, hrefused⟩ := h.stops i s hs
  have hset : ∀ phase, s.phase ≠ .returned false → w.Fits i { s with phase } →
      (w.setStop i s phase).Shape ∧ Lasts w (w.setStop i s phase) :=
    fun phase hphase hfits =>
      ⟨h.step hs phase hfits fun hrunning => absurd (hrefused hrunning) hphase, .refl w⟩
  have hregistered : w.registered = true → w.monitor ≠ .absent ∧ w.start.past = true := by
    intro hregistered
    have hiff := h.registered.mp hregistered
    exact ⟨hiff.1, hiff.2.2⟩
  unfold stopStep
  split
  · rename_i hphase
    split
    · exact ⟨h, .refl w⟩
    · split
      · rename_i hentry
        exact hset _ (by simp [hphase]) (hregistered hentry)
      · exact hset _ (by simp [hphase]) trivial
  · rename_i hphase
    split
    · rename_i hlock
      apply And.intro _ (Lasts.refl w)
      apply h.advance hs
      · exact h.relock (h.free (by simp [hlock])) _
      · rfl
      · exact fun j s' hij hold => fits_relock (.inl hlock) hij hold _
      · rfl
      · exact fun hrunning => absurd (hrefused hrunning) (by simp [hphase])
    · exact ⟨h, .refl w⟩
  · rename_i hphase
    have hlock : w.schedulerLock = some (.stop i) := by
      simpa only [Fits, hphase] using hfits
    have hstart := h.free (by simp [hlock])
    apply And.intro _ (Lasts.refl w)
    apply h.advance hs
    · exact h.relock hstart _
    · rfl
    · exact fun j s' hij hold => fits_relock (.inr hlock) hij hold _
    · split
      · rename_i hentry
        exact hregistered hentry
      · rename_i hentry
        exact ⟨h.returned hs hstart, by simpa using hentry⟩
    · exact fun hrunning => absurd (hrefused hrunning) (by simp [hphase])
  · rename_i hphase
    have horphan : w.start = .returned ∧ w.registered = false := by
      simpa only [Fits, hphase] using hfits
    have hstatus : s.status ≠ .running := fun hrunning => by simp [hrefused hrunning] at hphase
    have hpast : w.start.past = true := by rw [horphan.1]; rfl
    obtain ⟨hshape, hgoes⟩ := h.stepped_complete (by simp [horphan.1]) (.stop i) io.reply io.now
      s.status none none
    have hstops := w.complete_stops (.stop i) io.reply io.now s.status none none
    have hover := w.complete_over (.stop i) io.reply io.now hstatus none none
    have hsame : ∀ row, w.row = some row → row.terminal →
        ((w.complete (.stop i) io.reply io.now s.status none none).setStop i s
          (if io.reply = .ok then if s.status = .killed then .requeue else .returned true
          else .returned false)).row = some row := hgoes.isOver
    apply And.intro _ hsame
    rw [← hstops] at hs
    apply hshape.step hs _ _ fun hrunning => absurd hrunning hstatus
    have hreturned := hgoes.returned horphan.1
    have hunregistered := hgoes.unregistered hpast horphan.2
    split
    · rename_i hok
      have hrow : w.row ≠ none := by
        apply h.called
        intro hnil
        rw [hstops, hnil] at hs
        simp at hs
      split
      · exact ⟨hreturned, hunregistered, hover hok hrow⟩
      · exact ⟨hgoes.past hpast, hunregistered, hover hok hrow⟩
    · trivial
  · rename_i hphase
    have hrequeue : w.start = .returned ∧ w.registered = false ∧ w.Over := by
      simpa only [Fits, hphase] using hfits
    apply hset _ (by simp [hphase])
    cases decide (io.reply = .ok) with
    | true => exact ⟨by rw [hrequeue.1]; rfl, hrequeue.2⟩
    | false => trivial
  · rename_i hphase
    have hstatus : s.status ≠ .running := fun hrunning => by simp [hrefused hrunning] at hphase
    have hrecord : w.monitor ≠ .absent ∧ w.start.past = true := by
      simpa only [Fits, hphase] using hfits
    split
    · exact ⟨h, .refl w⟩
    · apply And.intro _ (Lasts.refl w)
      apply h.advance hs
      · exact { h.toFrame with
          terminal := by
            intro status hrequested
            cases hold : w.requestedStop with
            | some first =>
              simp only [hold, Option.some_or] at hrequested
              exact h.terminal status (hold.trans hrequested)
            | none =>
              simp only [hold, Option.none_or, Option.some.injEq] at hrequested
              rwa [← hrequested] }
      · rfl
      · exact fun j s' _ hold => hold
      · exact hrecord
      · exact fun hrunning => absurd hrunning hstatus
  · rename_i hphase
    have hcheck : w.monitor ≠ .absent ∧ w.start.past = true := by
      simpa only [Fits, hphase] using hfits
    split
    · rename_i hfinished
      exact hset _ (by simp [hphase]) hfinished
    · split
      · exact hset _ (by simp [hphase]) hcheck
      · exact hset _ (by simp [hphase]) hcheck
  · rename_i hphase
    have hcancel : w.monitor ≠ .absent ∧ w.start.past = true := by
      simpa only [Fits, hphase] using hfits
    apply And.intro _ (Lasts.refl w)
    apply h.advance hs
    · exact { h.toFrame with }
    · rfl
    · exact fun j s' _ hold => hold
    · exact hcancel
    · exact fun hrunning => absurd (hrefused hrunning) (by simp [hphase])
  · rename_i hphase
    have hgraceful : w.monitor ≠ .absent ∧ w.start.past = true := by
      simpa only [Fits, hphase] using hfits
    split
    · rename_i hfinished
      exact hset _ (by simp [hphase]) hfinished
    · exact hset _ (by simp [hphase]) hgraceful
    · exact ⟨h, .refl w⟩
  · rename_i hphase
    have hkilling : w.monitor ≠ .absent ∧ w.start.past = true := by
      simpa only [Fits, hphase] using hfits
    split
    · apply And.intro _ (Lasts.refl w)
      apply h.advance hs
      · exact { h.toFrame with }
      · rfl
      · exact fun j s' _ hold => hold
      · exact hkilling
      · exact fun hrunning => absurd (hrefused hrunning) (by simp [hphase])
    · exact hset _ (by simp [hphase]) trivial
  · rename_i hphase
    split
    · rename_i hfinished
      exact hset _ (by simp [hphase]) hfinished
    · exact hset _ (by simp [hphase]) trivial
    · exact ⟨h, .refl w⟩
  · rename_i hphase
    have hfinished : w.monitor = .finished := by
      simpa only [Fits, hphase] using hfits
    apply hset _ (by simp [hphase])
    cases hread : decide (io.reply = .ok ∧ w.row.any fun row => row.status ≠ .running) with
    | true =>
      obtain ⟨-, hany⟩ := of_decide_eq_true hread
      have hpast := h.toFrame.finished hfinished
      have hunregistered : w.registered = false := by
        have hiff := h.registered
        rw [hfinished] at hiff
        simpa using hiff
      cases hrow : w.row with
      | none => simp [hrow] at hany
      | some row =>
        simp only [hrow, Option.any_some, decide_eq_true_eq] at hany
        exact ⟨hpast, hunregistered, row, hrow, hany⟩
    | false => trivial
  · exact ⟨h, .refl w⟩
  · exact ⟨h, .refl w⟩

theorem stepped_abandon (h : w.Shape) (hs : w.stops[i]? = some s) :
    (w.abandon i s).Shape ∧ Lasts w (w.abandon i s) := by
  obtain ⟨hfits, hrefused⟩ := h.stops i s hs
  unfold abandon
  split
  · exact ⟨h, .refl w⟩
  · rename_i hphase
    have hlock : w.schedulerLock = some (.stop i) := by
      simpa only [Fits, hphase] using hfits
    apply And.intro _ (Lasts.refl w)
    apply h.advance hs
    · exact h.relock (h.free (by simp [hlock])) _
    · rfl
    · exact fun j s' hij hold => fits_relock (.inr hlock) hij hold _
    · trivial
    · exact fun hrunning => absurd (hrefused hrunning) (by simp [hphase])
  · rename_i hphase _
    apply And.intro _ (Lasts.refl w)
    apply h.step hs .abandoned trivial
    exact fun hrunning => absurd (hrefused hrunning) (hphase false)

theorem stepped_exec (h : w.Shape) (x : Execution) (event : Event) :
    (w.exec x event).Shape ∧ Lasts w (w.exec x event) := by
  cases event with
  | start move =>
    have hstep := w.stepped_startStep h move
    exact ⟨hstep.1, hstep.2.isOver⟩
  | recorder move =>
    have hstep := w.stepped_recorderStep h move
    exact ⟨hstep.1, hstep.2.isOver⟩
  | monitor move =>
    have hstep := w.stepped_monitorStep h x move
    exact ⟨hstep.1, hstep.2.isOver⟩
  | exits status =>
    simp only [exec]
    split
    · exact ⟨h, .refl w⟩
    · exact ⟨h.goes { h.toFrame with } { Goes.refl w with } rfl, .refl w⟩
  | call status =>
    simp only [exec]
    split
    · exact ⟨h, .refl w⟩
    · rename_i hrow
      apply And.intro _ (Lasts.refl w)
      apply Shape.mk
      · exact { h.toFrame with called := fun _ => hrow }
      · intro j s' hs'
        rcases Nat.lt_or_ge j w.stops.length with hlt | hge
        · rw [List.getElem?_append_left hlt] at hs'
          exact h.stops j s' hs'
        · rw [List.getElem?_append_right hge] at hs'
          have hnew := List.mem_singleton.mp (List.mem_of_getElem? hs')
          rw [hnew]
          by_cases hrunning : status = .running
          · exact ⟨by simp [Fits, hrunning], by simp [hrunning]⟩
          · exact ⟨by simp [Fits, hrunning], fun hsame => absurd hsame hrunning⟩
  | stop i io =>
    simp only [exec]
    split
    · rename_i s hs
      exact w.stepped_stopStep h x hs io
    · exact ⟨h, .refl w⟩
  | timeout i =>
    simp only [exec]
    split
    · rename_i s hs
      split
      · rename_i hphase
        obtain ⟨hfits, hrefused⟩ := h.stops i s hs
        apply And.intro _ (Lasts.refl w)
        apply h.step hs
        · simpa only [Fits, hphase] using hfits
        · exact fun hrunning => absurd (hrefused hrunning) (by simp [hphase])
      · exact ⟨h, .refl w⟩
    · exact ⟨h, .refl w⟩
  | abandon i =>
    simp only [exec]
    split
    · rename_i s hs
      exact w.stepped_abandon h hs
    · exact ⟨h, .refl w⟩
  | lock =>
    simp only [exec]
    split
    · rename_i hlock
      apply And.intro _ (Lasts.refl w)
      apply h.goes (h.relock (h.free (by simp [hlock])) (some .other)) _ rfl
      exact { Goes.refl w with lock := by simp [hlock] }
    · exact ⟨h, .refl w⟩
  | unlock =>
    simp only [exec]
    split
    · rename_i hlock
      apply And.intro _ (Lasts.refl w)
      apply h.goes (h.relock (h.free (by simp [hlock])) none) _ rfl
      exact { Goes.refl w with lock := by simp [hlock] }
    · exact ⟨h, .refl w⟩

end World

end Stops

theorem World.shape_new : World.new.Shape := by
  apply World.Shape.mk
  · exact {
      held := by simp [World.new, Start.holds]
      fresh := by simp [World.new]
      called := by simp [World.new]
      created := by simp [World.new]
      early := fun _ => rfl
      monitored := by simp [World.new]
      registered := by simp [World.new]
      finished := by simp [World.new]
      ends := by simp [World.new, Monitor.outcome]
      terminal := by simp [World.new] }
  · simp [World.new]

end Cdesktop.ExecutionStop
