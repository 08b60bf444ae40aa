import Cdesktop.ToolApproval

namespace Cdesktop.ToolApproval
set_option autoImplicit true

/-- Where an approval stands as long as no step disturbs another. -/
inductive Stage where
  | absent
  | opened (p : PendingApproval)
  | rejecting (p : PendingApproval) (t : Nat) (e : ApprovalError)
  | accepted (p : PendingApproval) (t : Nat) (o : ApprovalOutcome)
  | recorded (p : PendingApproval) (t : Nat) (o : ApprovalOutcome)
  | delivered (p : PendingApproval) (t : Nat) (o : ApprovalOutcome)
  | expiring (p : PendingApproval)
  | expired (p : PendingApproval)
  | removed
  | timedOut

def Stage.pending : Stage → Option PendingApproval
  | .opened p | .expiring p | .expired p => some p
  | _ => none

def Stage.completed : Stage → Option ApprovalOutcome
  | .recorded _ _ o | .delivered _ _ o => some o
  | .expired _ | .removed | .timedOut => some .timedOut
  | _ => none

def Stage.waiter : Stage → Waiter
  | .delivered _ _ o => .received o
  | .timedOut => .received .timedOut
  | _ => .waiting

def Stage.watches : Stage → WatcherPhase → Prop
  | .absent, w => w = .absent
  | .opened _, w | .rejecting .., w | .accepted .., w | .recorded .., w =>
    w = .absent ∨ w = .watching
  | .delivered _ _ o, w => w = .absent ∨ w = .watching ∨ w = .selected o ∨
      (w = .recorded ∧ o = .timedOut) ∨ w = .done
  | .expiring _, w => w = .selected .timedOut
  | .expired _, w => w = .recorded
  | .removed, w => w = .removed ∨ w = .notified
  | .timedOut, w => w = .done

def Stage.owns : Stage → Nat → Respond → Prop
  | .rejecting p t₀ e, t, task =>
    t = t₀ ∧ task.phase = .rejecting p e ∧ reject task.response p = some e
  | .accepted p t₀ o, t, task => t = t₀ ∧ task.phase = .accepted p ∧
      reject task.response p = none ∧ task.response.status = o
  | .recorded p t₀ o, t, task => t = t₀ ∧ task.phase = .recorded p ∧
      reject task.response p = none ∧ task.response.status = o
  | .delivered p t₀ o, t, task => t = t₀ ∧
      (task.phase = .delivered p ∨ task.phase = .returned (.ok (o, p.context))) ∧
      reject task.response p = none ∧ task.response.status = o
  | _, _, _ => False

def Stage.holder : Stage → Option Nat
  | .rejecting _ t _ | .accepted _ t _ | .recorded _ t _ | .delivered _ t _ => some t
  | _ => none

def Stage.approval : Stage → Option PendingApproval
  | .opened p | .rejecting p _ _ | .accepted p _ _ | .recorded p _ _ | .delivered p _ _
  | .expiring p | .expired p => some p
  | .absent | .removed | .timedOut => none

def RespondPhase.empty : RespondPhase → Prop
  | .called | .missing | .returned (.error _) => True
  | _ => False

structure Approval.Stands (a : Approval) (s : Stage) : Prop where
  pending : a.pending = s.pending
  completed : a.completed = s.completed
  waiter : a.waiter = s.waiter
  watcher : s.watches a.watcher
  creation : a.creation = .absent ↔ s = .absent
  approval : ∀ p, s.approval = some p → a.creation.approval = some p
  spawned : a.watcher = .absent ↔ ∀ p, a.creation ≠ .spawned p
  responds : ∀ t task, a.responds t = some task → s.owns t task ∨ task.phase.empty
  holder : ∀ t, s.holder = some t → ∃ task, a.responds t = some task ∧ s.owns t task
  cancels : ∀ t phase, a.cancels t = some phase → phase = .called ∨ phase = .returned

def Approval.held (a : Approval) : Prop :=
  ∃ t task p, a.responds t = some task ∧
    ((∃ e, task.phase = .rejecting p e) ∨ task.phase = .accepted p ∨ task.phase = .recorded p)

def Approval.heldInVain (a : Approval) : Prop :=
  ∃ t task p e, a.responds t = some task ∧ task.phase = .rejecting p e

def Approval.expiring (a : Approval) : Prop :=
  a.pending.isSome ∧ (a.watcher = .selected .timedOut ∨ a.watcher = .recorded)

/-- The step does not come between two operations of another that belong together: the deadline is
not taken while a call has the approval, no call takes it from the watcher, a call that would be
accepted does not come while another is being turned away, and nobody cancels what is open. -/
def Approval.Undisturbed (a : Approval) : ApprovalEvent → Prop
  | .watch expired => a.watcher = .watching → a.waiter.outcome = none → expired = true → ¬ a.held
  | .respond t => ∀ task, a.responds t = some task → task.phase = .called →
      ¬ a.expiring ∧ ∀ t' task' p e, a.responds t' = some task' → task'.phase = .rejecting p e →
        (reject task.response p).isSome
  | .cancelStep t => a.cancels t = some .called → a.pending = none ∧ ¬ a.heldInVain
  | _ => True

def Approval.UndisturbedRun (id : String) : Approval → List ApprovalEvent → Prop
  | _, [] => True
  | a, event :: events =>
    a.Undisturbed event ∧ UndisturbedRun id (a.step id event).1 events

theorem Approval.new_stands : Approval.new.Stands .absent where
  pending := rfl
  completed := rfl
  waiter := rfl
  watcher := rfl
  creation := by simp [new]
  approval := fun p h => by cases h
  spawned := by simp [new]
  responds := fun t task h => by cases h
  holder := fun t h => by cases h
  cancels := fun t phase h => by cases h

def Stage.Leads (s s' : Stage) : Prop :=
  (∀ o, s.completed = some o → s'.completed = some o) ∧
    ∀ o, s.waiter = .received o → s'.waiter = .received o

theorem Stage.Leads.refl (s : Stage) : s.Leads s := ⟨fun _ h => h, fun _ h => h⟩

theorem Stage.Leads.trans (h : Stage.Leads s s') (h' : Stage.Leads s' s'') : s.Leads s'' :=
  ⟨fun o ho => h'.1 o (h.1 o ho), fun o ho => h'.2 o (h.2 o ho)⟩

theorem Stage.Leads.of_none (hcompleted : s.completed = none) (hwaiter : s.waiter = .waiting) :
    Stage.Leads s s' := by
  constructor
  · intro o ho
    rw [hcompleted] at ho
    cases ho
  · intro o ho
    rw [hwaiter] at ho
    cases ho

variable (id : String)

theorem Approval.Stands.create (h : Approval.Stands a s) (request : ApprovalRequest)
    (isQuestion : Bool) :
    ∃ s', (a.step id (.create request isQuestion)).1.Stands s' ∧ s.Leads s' := by
  rw [step]
  split
  · rename_i habsent
    obtain rfl := h.creation.mp habsent
    refine ⟨.opened (request.pending isQuestion), ?_, .of_none rfl rfl⟩
    exact
      { pending := rfl
        completed := h.completed
        waiter := h.waiter
        watcher := Or.inl h.watcher
        creation := by simp
        approval := fun p hp => hp
        spawned := by simp [show a.watcher = .absent from h.watcher]
        responds := h.responds
        holder := fun t ht => by cases ht
        cancels := h.cancels }
  · exact ⟨s, h, .refl s⟩

theorem Approval.Stands.announce (h : Approval.Stands a s) :
    ∃ s', (a.step id .announce).1.Stands s' ∧ s.Leads s' := by
  rw [step]
  split
  · rename_i p hinserted
    refine ⟨s, { h with creation := ?_, approval := ?_, spawned := ?_ }, .refl s⟩
    · rw [← h.creation, hinserted]
      simp
    · intro q hq
      rw [← h.approval q hq, hinserted]
      rfl
    · rw [h.spawned, hinserted]
      simp
  · exact ⟨s, h, .refl s⟩

theorem Stage.watches_start (h : Stage.watches s .absent) (hs : s ≠ .absent) :
    s.watches .watching := by
  cases s with
  | absent => exact absurd rfl hs
  | opened p => exact Or.inr rfl
  | rejecting p t e => exact Or.inr rfl
  | accepted p t o => exact Or.inr rfl
  | recorded p t o => exact Or.inr rfl
  | delivered p t o => exact Or.inr (Or.inl rfl)
  | expiring p => cases h
  | expired p => cases h
  | removed => cases h with
    | inl h => cases h
    | inr h => cases h
  | timedOut => cases h

section
variable (h : Approval.Stands a s)
include h

theorem Approval.Stands.spawn :
    ∃ s', (a.step id .spawn).1.Stands s' ∧ s.Leads s' := by
  rw [step]
  split
  · rename_i p hannounced
    have hunwatched : a.watcher = .absent := by
      rw [h.spawned, hannounced]
      simp
    have hs : s ≠ .absent := by
      rw [Ne, ← h.creation, hannounced]
      simp
    refine ⟨s, { h with watcher := ?_, creation := ?_, approval := ?_, spawned := ?_ }, .refl s⟩
    · apply Stage.watches_start _ hs
      rw [← hunwatched]
      exact h.watcher
    · simp [hs]
    · intro q hq
      rw [← h.approval q hq, hannounced]
      rfl
    · simp
  · exact ⟨s, h, .refl s⟩

theorem Approval.Stands.setWatcher (hw : s.watches w)
    (hspawned : a.watcher ≠ .absent) (habsent : w ≠ .absent) :
    Approval.Stands { a with watcher := w } s :=
  { h with
    watcher := hw
    spawned := iff_of_false habsent (fun hno => hspawned (h.spawned.mpr hno)) }

theorem Approval.Stands.held (hs : (∃ p t e, s = .rejecting p t e) ∨ (∃ p t o, s = .accepted p t o) ∨
      ∃ p t o, s = .recorded p t o) : a.held := by
  rcases hs with ⟨p, t, e, rfl⟩ | ⟨p, t, o, rfl⟩ | ⟨p, t, o, rfl⟩
  · obtain ⟨task, htask, -, hphase, -⟩ := h.holder t rfl
    exact ⟨t, task, p, htask, Or.inl ⟨e, hphase⟩⟩
  · obtain ⟨task, htask, -, hphase, -⟩ := h.holder t rfl
    exact ⟨t, task, p, htask, Or.inr (Or.inl hphase)⟩
  · obtain ⟨task, htask, -, hphase, -⟩ := h.holder t rfl
    exact ⟨t, task, p, htask, Or.inr (Or.inr hphase)⟩

theorem Approval.Stands.expire (hw : a.watcher = .watching)
    (houtcome : a.waiter.outcome = none) (hheld : ¬ a.held) :
    ∃ s', Approval.Stands { a with watcher := .selected .timedOut } s' ∧ s.Leads s' := by
  have hwatches := h.watcher
  rw [hw] at hwatches
  cases s with
  | absent => cases hwatches
  | opened p =>
    refine ⟨.expiring p, ?_, .of_none rfl rfl⟩
    exact
      { pending := h.pending
        completed := h.completed
        waiter := h.waiter
        watcher := rfl
        creation := iff_of_false (fun hno => by cases h.creation.mp hno) (fun hno => by cases hno)
        approval := fun q hq => h.approval q hq
        spawned := iff_of_false (fun hno => by cases hno)
          (fun hno => by cases hw.symm.trans (h.spawned.mpr hno))
        responds := h.responds
        holder := fun t ht => by cases ht
        cancels := h.cancels }
  | rejecting p t e => exact absurd (h.held (Or.inl ⟨p, t, e, rfl⟩)) hheld
  | accepted p t o => exact absurd (h.held (Or.inr (Or.inl ⟨p, t, o, rfl⟩))) hheld
  | recorded p t o => exact absurd (h.held (Or.inr (Or.inr ⟨p, t, o, rfl⟩))) hheld
  | delivered p t o =>
    rw [h.waiter] at houtcome
    cases houtcome
  | expiring p => cases hwatches
  | expired p => cases hwatches
  | removed => cases hwatches with
    | inl h => cases h
    | inr h => cases h
  | timedOut => cases hwatches

theorem Approval.Stands.resolved (hw : a.watcher = .watching)
    (houtcome : a.waiter.outcome = some o) : ∃ p t, s = .delivered p t o := by
  have hwatches := h.watcher
  rw [hw] at hwatches
  rw [h.waiter] at houtcome
  cases s with
  | delivered p t o' =>
    cases houtcome
    exact ⟨p, t, rfl⟩
  | timedOut => cases hwatches
  | _ => cases houtcome

end

theorem Stage.watches_past (h : Stage.watches s w) (habsent : w ≠ .absent)
    (hwatching : w ≠ .watching) :
    (∃ p t o, s = .delivered p t o) ∨ (∃ p, s = .expiring p) ∨ (∃ p, s = .expired p) ∨
      s = .removed ∨ s = .timedOut := by
  cases s with
  | absent => exact absurd h habsent
  | opened p => exact (h.elim habsent hwatching).elim
  | rejecting p t e => exact (h.elim habsent hwatching).elim
  | accepted p t o => exact (h.elim habsent hwatching).elim
  | recorded p t o => exact (h.elim habsent hwatching).elim
  | delivered p t o => exact Or.inl ⟨p, t, o, rfl⟩
  | expiring p => exact Or.inr (Or.inl ⟨p, rfl⟩)
  | expired p => exact Or.inr (Or.inr (Or.inl ⟨p, rfl⟩))
  | removed => exact Or.inr (Or.inr (Or.inr (Or.inl rfl)))
  | timedOut => exact Or.inr (Or.inr (Or.inr (Or.inr rfl)))

section
variable (h : Approval.Stands a s)
include h

theorem Approval.Stands.selected (hw : a.watcher = .selected o) :
    (∃ p t, s = .delivered p t o) ∨ ∃ p, s = .expiring p ∧ o = .timedOut := by
  have hwatches := h.watcher
  rw [hw] at hwatches
  rcases Stage.watches_past hwatches (by simp) (by simp) with
    ⟨p, t, o', rfl⟩ | ⟨p, rfl⟩ | ⟨p, rfl⟩ | rfl | rfl
  · obtain rfl : o = o' := by simpa [Stage.watches] using hwatches
    exact Or.inl ⟨p, t, rfl⟩
  · obtain rfl : o = .timedOut := by simpa [Stage.watches] using hwatches
    exact Or.inr ⟨p, rfl, rfl⟩
  · cases hwatches
  · simp [Stage.watches] at hwatches
  · cases hwatches

theorem Approval.Stands.timed (hw : a.watcher = .recorded) :
    (∃ p t, s = .delivered p t .timedOut) ∨ ∃ p, s = .expired p := by
  have hwatches := h.watcher
  rw [hw] at hwatches
  rcases Stage.watches_past hwatches (by simp) (by simp) with
    ⟨p, t, o, rfl⟩ | ⟨p, rfl⟩ | ⟨p, rfl⟩ | rfl | rfl
  · obtain rfl : o = .timedOut := by simpa [Stage.watches] using hwatches
    exact Or.inl ⟨p, t, rfl⟩
  · cases hwatches
  · exact Or.inr ⟨p, rfl⟩
  · simp [Stage.watches] at hwatches
  · cases hwatches

theorem Approval.Stands.ended (hw : a.watcher = .removed ∨ a.watcher = .notified) : s = .removed := by
  have hwatches := h.watcher
  have hpast : a.watcher ≠ .absent ∧ a.watcher ≠ .watching := by
    rcases hw with hw | hw <;> simp [hw]
  rcases Stage.watches_past hwatches hpast.1 hpast.2 with
    ⟨p, t, o, rfl⟩ | ⟨p, rfl⟩ | ⟨p, rfl⟩ | rfl | rfl
  · rcases hw with hw | hw <;> simp [Stage.watches, hw] at hwatches
  · rcases hw with hw | hw <;> simp [Stage.watches, hw] at hwatches
  · rcases hw with hw | hw <;> simp [Stage.watches, hw] at hwatches
  · rfl
  · rcases hw with hw | hw <;> simp [Stage.watches, hw] at hwatches

theorem Approval.Stands.ne_absent (hs : s ≠ .absent) :
    a.creation ≠ .absent :=
  fun hno => hs (h.creation.mp hno)

theorem Approval.Stands.watch (hundisturbed : a.Undisturbed (.watch expired)) :
    ∃ s', (a.step id (.watch expired)).1.Stands s' ∧ s.Leads s' := by
  rw [step, Approval.watch]
  cases hw : a.watcher with
  | absent => exact ⟨s, h, .refl s⟩
  | done => exact ⟨s, h, .refl s⟩
  | watching =>
    have hspawned : a.watcher ≠ .absent := by simp [hw]
    cases houtcome : a.waiter.outcome with
    | some o =>
      obtain ⟨p, t, rfl⟩ := h.resolved hw houtcome
      refine ⟨_, h.setWatcher ?_ hspawned (by simp), .refl _⟩
      exact Or.inr (Or.inr (Or.inl rfl))
    | none =>
      cases expired with
      | true => exact h.expire hw houtcome (hundisturbed hw houtcome rfl)
      | false => exact ⟨s, h, .refl s⟩
  | selected o =>
    have hspawned : a.watcher ≠ .absent := by simp [hw]
    rcases h.selected hw with ⟨p, t, rfl⟩ | ⟨p, rfl, rfl⟩
    · have hnext : Stage.watches (.delivered p t o) (if o = .timedOut then .recorded else .done) := by
        by_cases ho : o = .timedOut <;> simp [Stage.watches, ho]
      have hpresent : (if o = .timedOut then .recorded else .done) ≠ WatcherPhase.absent := by
        by_cases ho : o = .timedOut <;> simp [ho]
      exact ⟨_, { h.setWatcher hnext hspawned hpresent with completed := rfl }, .refl _⟩
    · refine ⟨.expired p, ?_, .of_none rfl rfl⟩
      exact
        { pending := h.pending
          completed := rfl
          waiter := h.waiter
          watcher := rfl
          creation := iff_of_false (h.ne_absent (by simp)) (by simp)
          approval := fun q hq => h.approval q hq
          spawned := iff_of_false (by simp) (fun hno => hspawned (h.spawned.mpr hno))
          responds := h.responds
          holder := fun t ht => by cases ht
          cancels := h.cancels }
  | recorded =>
    have hspawned : a.watcher ≠ .absent := by simp [hw]
    rcases h.timed hw with ⟨p, t, rfl⟩ | ⟨p, rfl⟩
    · have hpending : a.pending = none := h.pending
      have hdone : Stage.watches (.delivered p t .timedOut) .done :=
        Or.inr (Or.inr (Or.inr (Or.inr rfl)))
      have hstands := h.setWatcher hdone hspawned (by simp)
      rw [hpending] at hstands
      simp only [hpending]
      exact ⟨_, hstands, .refl _⟩
    · have hpending : a.pending = some p := h.pending
      simp only [hpending]
      refine ⟨.removed, ?_, fun o ho => ho, fun o ho => by cases ho⟩
      exact
        { pending := rfl
          completed := h.completed
          waiter := h.waiter
          watcher := Or.inl rfl
          creation := iff_of_false (h.ne_absent (by simp)) (by simp)
          approval := fun q hq => by cases hq
          spawned := iff_of_false (by simp) (fun hno => hspawned (h.spawned.mpr hno))
          responds := h.responds
          holder := fun t ht => by cases ht
          cancels := h.cancels }
  | removed =>
    obtain rfl := h.ended (Or.inl hw)
    exact ⟨_, h.setWatcher (Or.inr rfl) (by simp [hw]) (by simp), .refl _⟩
  | notified =>
    obtain rfl := h.ended (Or.inr hw)
    have hspawned : a.watcher ≠ .absent := by simp [hw]
    refine ⟨.timedOut, ?_, fun o ho => ho, fun o ho => by cases ho⟩
    exact
      { pending := h.pending
        completed := h.completed
        waiter := rfl
        watcher := rfl
        creation := iff_of_false (h.ne_absent (by simp)) (by simp)
        approval := fun q hq => by cases hq
        spawned := iff_of_false (by simp) (fun hno => hspawned (h.spawned.mpr hno))
        responds := h.responds
        holder := fun t ht => by cases ht
        cancels := h.cancels }

end

theorem Stage.owns_holder (h : Stage.owns s t task) : s.holder = some t := by
  cases s with
  | rejecting p t₀ e => exact congrArg some h.1.symm
  | accepted p t₀ o => exact congrArg some h.1.symm
  | recorded p t₀ o => exact congrArg some h.1.symm
  | delivered p t₀ o => exact congrArg some h.1.symm
  | absent => exact h.elim
  | opened p => exact h.elim
  | expiring p => exact h.elim
  | expired p => exact h.elim
  | removed => exact h.elim
  | timedOut => exact h.elim

theorem Stage.owns_not_empty (h : Stage.owns s t task) : ¬ task.phase.empty := by
  intro hempty
  cases s with
  | rejecting p t₀ e => simp [RespondPhase.empty, h.2.1] at hempty
  | accepted p t₀ o => simp [RespondPhase.empty, h.2.1] at hempty
  | recorded p t₀ o => simp [RespondPhase.empty, h.2.1] at hempty
  | delivered p t₀ o =>
    rcases h.2.1 with hphase | hphase <;> simp [RespondPhase.empty, hphase] at hempty
  | absent => exact h.elim
  | opened p => exact h.elim
  | expiring p => exact h.elim
  | expired p => exact h.elim
  | removed => exact h.elim
  | timedOut => exact h.elim

theorem Approval.Stands.owns (h : Approval.Stands a s) (htask : a.responds t = some task)
    (hphase : ¬ task.phase.empty) : s.owns t task :=
  (h.responds t task htask).resolve_right hphase

section
variable (h : Stage.owns s t task)
include h

theorem Stage.owns_rejecting (hphase : task.phase = .rejecting p e) :
    s = .rejecting p t e ∧ reject task.response p = some e := by
  cases s <;> simp_all [Stage.owns]

theorem Stage.owns_accepted (hphase : task.phase = .accepted p) :
    s = .accepted p t task.response.status ∧ reject task.response p = none := by
  cases s <;> simp_all [Stage.owns]

theorem Stage.owns_recorded (hphase : task.phase = .recorded p) :
    s = .recorded p t task.response.status ∧ reject task.response p = none := by
  cases s <;> simp_all [Stage.owns]

theorem Stage.owns_delivered (hphase : task.phase = .delivered p) :
    s = .delivered p t task.response.status ∧ reject task.response p = none := by
  cases s <;> simp_all [Stage.owns]

theorem Stage.owns_returned (hphase : task.phase = .returned (.ok (o, ctx))) :
    (∃ p, s = .delivered p t o ∧ reject task.response p = none) ∧ task.response.status = o := by
  cases s <;> simp_all [Stage.owns]

end

namespace Approval

section
variable (h : Stands a s)
include h

theorem Stands.goOn (s' : Stage) (task' : Respond) (hs : s.holder = some t ∨ s.holder = none)
    (hs' : s'.owns t task' ∨ s'.holder = none ∧ task'.phase.empty)
    (hpending : p' = s'.pending) (hcompleted : o' = s'.completed)
    (hwaiter : w' = s'.waiter) (hwatches : s'.watches a.watcher)
    (habsent : s ≠ .absent ∧ s' ≠ .absent)
    (happroval : ∀ p, s'.approval = some p → a.creation.approval = some p) :
    (setRespond { a with pending := p', completed := o', waiter := w' } t task').Stands s'
    where
  pending := hpending
  completed := hcompleted
  waiter := hwaiter
  watcher := hwatches
  creation := iff_of_false (h.ne_absent habsent.1) habsent.2
  approval := happroval
  spawned := h.spawned
  cancels := h.cancels
  responds := by
    intro t' task htask
    rcases setRespond_cases htask with ⟨rfl, rfl⟩ | ⟨ht, hold⟩
    · exact hs'.imp id And.right
    · rcases h.responds t' task hold with howns | hempty
      · rcases hs with hs | hs
        · exact absurd (Option.some.inj ((Stage.owns_holder howns).symm.trans hs)) ht
        · cases (Stage.owns_holder howns).symm.trans hs
      · exact Or.inr hempty
  holder := by
    intro t' ht'
    rcases hs' with howns | ⟨hnone, -⟩
    · obtain rfl := Option.some.inj ((Stage.owns_holder howns).symm.trans ht')
      exact ⟨task', by simp [setRespond], howns⟩
    · cases hnone.symm.trans ht'

theorem Stands.setRespond (hbefore : ∀ task, a.responds t = some task → task.phase.empty) (hempty : task'.phase.empty) :
    (a.setRespond t task').Stands s := by
  refine { h with responds := ?_, holder := ?_ }
  · intro t' task htask
    rcases setRespond_cases htask with ⟨rfl, rfl⟩ | ⟨-, hold⟩
    · exact Or.inr hempty
    · exact h.responds t' task hold
  · intro t' ht'
    obtain ⟨task, htask, howns⟩ := h.holder t' ht'
    have ht : t' ≠ t := by
      rintro rfl
      exact Stage.owns_not_empty howns (hbefore task htask)
    exact ⟨task, by simpa [Approval.setRespond, ht] using htask, howns⟩

theorem Stands.call (t : Nat) (response : ApprovalResponse) :
    ∃ s', (a.step id (.call t response)).1.Stands s' ∧ s.Leads s' := by
  rw [step]
  cases hnone : a.responds t with
  | none => exact ⟨s, h.setRespond (fun task htask => by cases hnone.symm.trans htask) trivial, .refl s⟩
  | some task => exact ⟨s, h, .refl s⟩

theorem Stands.opened (hpending : a.pending = some p)
    (hexpiring : ¬ a.expiring) : s = .opened p := by
  have hsome : a.pending.isSome = true := by simp [hpending]
  have heq := h.pending.symm.trans hpending
  have hwatches := h.watcher
  cases s with
  | opened q =>
    cases heq
    rfl
  | expiring q => exact absurd ⟨hsome, Or.inl hwatches⟩ hexpiring
  | expired q => exact absurd ⟨hsome, Or.inr hwatches⟩ hexpiring
  | absent => cases heq
  | rejecting q t e => cases heq
  | accepted q t o => cases heq
  | recorded q t o => cases heq
  | delivered q t o => cases heq
  | removed => cases heq
  | timedOut => cases heq

theorem Stands.called (htask : a.responds t = some task) (hphase : task.phase = .called)
    (hundisturbed : a.Undisturbed (.respond t)) :
    ∃ s', (a.respond id t task).1.Stands s' ∧ s.Leads s' := by
  have hempty : ∀ task', a.responds t = some task' → task'.phase.empty := by
    intro task' htask'
    cases htask.symm.trans htask'
    simp [RespondPhase.empty, hphase]
  rw [respond, hphase]
  cases hpending : a.pending with
  | none =>
    have hstands := h.setRespond hempty
      (show RespondPhase.empty (Respond.phase { task with phase := .missing }) from trivial)
    exact ⟨s, hstands, .refl s⟩
  | some p =>
    obtain rfl := h.opened hpending (hundisturbed task htask hphase).1
    cases hreject : reject task.response p with
    | some e =>
      refine ⟨.rejecting p t e, ?_, .of_none rfl rfl⟩
      simp only [hreject]
      exact h.goOn (.rejecting p t e) { task with phase := .rejecting p e } (Or.inr rfl) (Or.inl ⟨rfl, rfl, hreject⟩) rfl
        h.completed h.waiter h.watcher (by simp) h.approval
    | none =>
      refine ⟨.accepted p t task.response.status, ?_, .of_none rfl rfl⟩
      simp only [hreject]
      exact h.goOn (.accepted p t task.response.status) { task with phase := .accepted p }
        (Or.inr rfl) (Or.inl ⟨rfl, rfl, hreject, rfl⟩) rfl h.completed h.waiter h.watcher (by simp) h.approval

theorem Stands.respond (t : Nat) (hundisturbed : a.Undisturbed (.respond t)) :
    ∃ s', (a.step id (.respond t)).1.Stands s' ∧ s.Leads s' := by
  rw [step]
  cases htask : a.responds t with
  | none => exact ⟨s, h, .refl s⟩
  | some task =>
    have howns := h.owns htask
    show ∃ s', (a.respond id t task).1.Stands s' ∧ s.Leads s'
    cases hphase : task.phase with
    | called => exact h.called id htask hphase hundisturbed
    | missing =>
      have hempty : ∀ task', a.responds t = some task' → task'.phase.empty := by
        intro task' htask'
        cases htask.symm.trans htask'
        simp [RespondPhase.empty, hphase]
      rw [Approval.respond, hphase]
      exact ⟨s, h.setRespond hempty trivial, .refl s⟩
    | rejecting p e =>
      obtain ⟨rfl, -⟩ := Stage.owns_rejecting (howns (by simp [RespondPhase.empty, hphase])) hphase
      rw [Approval.respond, hphase]
      refine ⟨.opened p, ?_, .of_none rfl rfl⟩
      exact h.goOn (.opened p) { task with phase := .returned (.error e) } (Or.inl rfl)
        (Or.inr ⟨rfl, trivial⟩) rfl h.completed h.waiter h.watcher (by simp) h.approval
    | accepted p =>
      obtain ⟨rfl, hreject⟩ :=
        Stage.owns_accepted (howns (by simp [RespondPhase.empty, hphase])) hphase
      rw [Approval.respond, hphase]
      refine ⟨.recorded p t task.response.status, ?_, .of_none rfl rfl⟩
      exact h.goOn (.recorded p t task.response.status) { task with phase := .recorded p }
        (Or.inl rfl) (Or.inl ⟨rfl, rfl, hreject, rfl⟩) h.pending rfl h.waiter h.watcher (by simp) h.approval
    | recorded p =>
      obtain ⟨rfl, hreject⟩ :=
        Stage.owns_recorded (howns (by simp [RespondPhase.empty, hphase])) hphase
      rw [Approval.respond, hphase]
      refine ⟨.delivered p t task.response.status, ?_, fun o ho => ho, fun o ho => by cases ho⟩
      exact h.goOn (.delivered p t task.response.status) { task with phase := .delivered p }
        (Or.inl rfl) (Or.inl ⟨rfl, Or.inl rfl, hreject, rfl⟩) h.pending h.completed rfl
        (h.watcher.imp_right Or.inl) (by simp) h.approval
    | delivered p =>
      obtain ⟨rfl, hreject⟩ :=
        Stage.owns_delivered (howns (by simp [RespondPhase.empty, hphase])) hphase
      rw [Approval.respond, hphase]
      refine ⟨_, ?_, .refl _⟩
      exact h.goOn (.delivered p t task.response.status)
        { task with phase := .returned (.ok (task.response.status, p.context)) }
        (Or.inl rfl) (Or.inl ⟨rfl, Or.inr rfl, hreject, rfl⟩) h.pending h.completed h.waiter
        h.watcher (by simp) h.approval
    | returned result =>
      rw [Approval.respond, hphase]
      exact ⟨s, h, .refl s⟩

theorem Stands.setCancel (hphase : phase = .called ∨ phase = .returned) :
    Stands { a with cancels := Function.update a.cancels t (some phase) } s := by
  refine { h with cancels := ?_ }
  intro t' phase' hphase'
  by_cases ht : t' = t
  · subst ht
    obtain rfl : phase = phase' := by simpa using hphase'
    exact hphase
  · exact h.cancels t' phase' (by simpa [ht] using hphase')

theorem Stands.cancel (t : Nat) :
    ∃ s', (a.step id (.cancel t)).1.Stands s' ∧ s.Leads s' := by
  rw [step]
  cases a.cancels t with
  | none => exact ⟨s, h.setCancel (Or.inl rfl), .refl s⟩
  | some phase => exact ⟨s, h, .refl s⟩

theorem Stands.cancelStep (t : Nat) (hundisturbed : a.Undisturbed (.cancelStep t)) :
    ∃ s', (a.step id (.cancelStep t)).1.Stands s' ∧ s.Leads s' := by
  rw [step]
  cases hphase : a.cancels t with
  | none => exact ⟨s, h, .refl s⟩
  | some phase =>
    rcases h.cancels t phase hphase with rfl | rfl
    · simp only [Approval.cancelStep, (hundisturbed hphase).1]
      have hstands := h.setCancel (t := t) (Or.inr rfl)
      rw [(hundisturbed hphase).1] at hstands
      exact ⟨s, hstands, .refl s⟩
    · exact ⟨s, h, .refl s⟩

theorem Stands.step (hundisturbed : a.Undisturbed event) :
    ∃ s', (a.step id event).1.Stands s' ∧ s.Leads s' := by
  cases event with
  | create request isQuestion => exact h.create id request isQuestion
  | announce => exact h.announce id
  | spawn => exact h.spawn id
  | watch expired => exact h.watch id hundisturbed
  | call t response => exact h.call id t response
  | respond t => exact h.respond id t hundisturbed
  | cancel t => exact h.cancel id t
  | cancelStep t => exact h.cancelStep id t hundisturbed

theorem Stands.run (hundisturbed : a.UndisturbedRun id events) :
    ∃ s', (a.run id events).Stands s' ∧ s.Leads s' := by
  induction events generalizing a s with
  | nil => exact ⟨s, h, .refl s⟩
  | cons event events ih =>
    obtain ⟨s', hs', hleads⟩ := h.step id hundisturbed.1
    obtain ⟨s'', hs'', hleads'⟩ := ih hs' hundisturbed.2
    exact ⟨s'', hs'', hleads.trans hleads'⟩

end

end Approval

end Cdesktop.ToolApproval
