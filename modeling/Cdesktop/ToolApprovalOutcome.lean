import Cdesktop.ToolApprovalStage

namespace Cdesktop.ToolApproval
set_option autoImplicit true

/-- The call does not match the approval that was created: another process, or a status that the
tool does not have. -/
def Approval.mismatched (a : Approval) (t : Nat) : Bool :=
  match a.creation.approval, a.responds t with
  | some p, some task => (reject task.response p).isSome
  | _, _ => false

def ApprovalEvent.ofCalls (calls : Nat → Bool) : ApprovalEvent → Bool
  | .call t _ | .respond t => calls t
  | _ => false

/-- The steps of a run without these calls. -/
def without (calls : Nat → Bool) (events : List ApprovalEvent) : List ApprovalEvent :=
  events.filter fun event => !event.ofCalls calls

def Approval.vain (a : Approval) (p : PendingApproval) : Prop :=
  ∃ t task e, a.responds t = some task ∧ task.phase = .rejecting p e

/-- The second approval is the first as it were without these calls. -/
structure Approval.Without (calls : Nat → Bool) (a b : Approval) : Prop where
  restored : ∀ p, a.vain p → b.pending = some p
  pending : (∀ p, ¬ a.vain p) → b.pending = a.pending
  completed : b.completed = a.completed
  waiter : b.waiter = a.waiter
  creation : b.creation = a.creation
  watcher : b.watcher = a.watcher
  cancels : b.cancels = a.cancels
  responds : ∀ t, calls t = false → b.responds t = a.responds t

def Approval.Fits (calls : Nat → Bool) (a : Approval) : Prop :=
  ∀ t task p, a.responds t = some task → a.creation.approval = some p →
    calls t = (reject task.response p).isSome

theorem Approval.Without.refl (calls : Nat → Bool) (hvain : ∀ p, ¬ Approval.vain a p) :
    a.Without calls a where
  restored := fun p hp => absurd hp (hvain p)
  pending := fun _ => rfl
  completed := rfl
  waiter := rfl
  creation := rfl
  watcher := rfl
  cancels := rfl
  responds := fun _ _ => rfl

theorem Approval.Stands.vain (h : Approval.Stands a s) (hvain : a.vain p) :
    ∃ t e, s = .rejecting p t e := by
  obtain ⟨t, task, e, htask, hphase⟩ := hvain
  have howns := h.owns htask (by simp [RespondPhase.empty, hphase])
  exact ⟨t, e, (Stage.owns_rejecting howns hphase).1⟩

/-- What a call that is not being turned away does before and after leaves the others as they are. -/
theorem Approval.vain_setRespond
    (hbefore : ∀ task, Approval.responds a t = some task → ∀ p e, task.phase ≠ .rejecting p e)
    (hafter : ∀ p e, task'.phase ≠ .rejecting p e) :
    (a.setRespond t task').vain p ↔ a.vain p := by
  constructor
  · rintro ⟨t', task, e, htask, hphase⟩
    rcases setRespond_cases htask with ⟨rfl, rfl⟩ | ⟨-, hold⟩
    · exact absurd hphase (hafter p e)
    · exact ⟨t', task, e, hold, hphase⟩
  · rintro ⟨t', task, e, htask, hphase⟩
    have ht : t' ≠ t := by
      rintro rfl
      exact hbefore task htask p e hphase
    exact ⟨t', task, e, by simpa [setRespond, ht] using htask, hphase⟩

theorem Approval.Fits.rejecting (hfits : Approval.Fits calls a) (h : a.Stands s)
    (htask : a.responds t = some task) (hphase : task.phase = .rejecting p e) :
    calls t = true := by
  have howns := h.owns htask (by simp [RespondPhase.empty, hphase])
  obtain ⟨rfl, hreject⟩ := Stage.owns_rejecting howns hphase
  rw [hfits t task p htask (h.approval p rfl), hreject]
  rfl

theorem Approval.Without.responds_called (h : Approval.Without calls a b) (ht : calls t = true)
    (t' : Nat) (ht' : calls t' = false) : b.responds t' = (a.setRespond t task).responds t' := by
  have hne : t' ≠ t := by
    rintro rfl
    cases ht.symm.trans ht'
  rw [h.responds t' ht']
  simp [Approval.setRespond, hne]

theorem Approval.Without.setRespond (h : Approval.Without calls a b) (ht : calls t = true)
    (hbefore : ∀ task, a.responds t = some task → ∀ p e, task.phase ≠ .rejecting p e)
    (hafter : ∀ p e, task'.phase ≠ .rejecting p e) :
    (a.setRespond t task').Without calls b := by
  have hvain := fun p => Approval.vain_setRespond (p := p) hbefore hafter
  refine { h with restored := ?_, pending := ?_, responds := h.responds_called ht }
  · intro p hp
    exact h.restored p ((hvain p).mp hp)
  · intro hno
    exact h.pending (fun p hp => hno p ((hvain p).mpr hp))

theorem Approval.Without.takeOut (h : Approval.Without calls a b)
    (hstands : a.Stands (.opened p)) (ht : calls t = true) :
    (Approval.setRespond { a with pending := none } t ⟨response, .rejecting p e⟩).Without
      calls b := by
  have hnone : ∀ q, ¬ a.vain q := by
    intro q hq
    obtain ⟨t', e', hs⟩ := hstands.vain hq
    cases hs
  have hpending : b.pending = some p := (h.pending hnone).trans hstands.pending
  refine { h with restored := ?_, pending := ?_, responds := h.responds_called ht }
  · rintro q ⟨t', task, e', htask, hphase⟩
    rcases Approval.setRespond_cases htask with ⟨rfl, rfl⟩ | ⟨-, hold⟩
    · cases hphase
      exact hpending
    · exact absurd ⟨t', task, e', hold, hphase⟩ (hnone q)
  · intro hno
    exact absurd ⟨t, ⟨response, .rejecting p e⟩, e, by simp [Approval.setRespond], rfl⟩ (hno p)

theorem Approval.Without.putBack (h : Approval.Without calls a b)
    (hstands : a.Stands (.rejecting p t e)) (ht : calls t = true) :
    (Approval.setRespond { a with pending := some p } t ⟨response, .returned (.error e)⟩).Without
      calls b := by
  obtain ⟨task, htask, -, hphase, -⟩ := hstands.holder t rfl
  have hpending : b.pending = some p := h.restored p ⟨t, task, e, htask, hphase⟩
  refine { h with
    restored := ?_
    pending := fun _ => hpending
    responds := h.responds_called ht }
  rintro q ⟨t', task', e', htask', hphase'⟩
  rcases Approval.setRespond_cases htask' with ⟨rfl, rfl⟩ | ⟨-, hold⟩
  · cases hphase'
  · obtain ⟨t'', e'', hs⟩ := hstands.vain ⟨t', task', e', hold, hphase'⟩
    cases hs
    exact hpending

theorem Approval.Without.leftOut (id : String) (h : Approval.Without calls a b)
    (hstands : a.Stands s) (hfits : a.Fits calls) (hundisturbed : a.Undisturbed event)
    (hevent : event.ofCalls calls = true) : (a.step id event).1.Without calls b := by
  cases event with
  | call t response =>
    rw [step]
    cases hnone : a.responds t with
    | none =>
      have hbefore : ∀ task, a.responds t = some task → ∀ p e, task.phase ≠ .rejecting p e :=
        fun task htask => by cases hnone.symm.trans htask
      exact h.setRespond hevent hbefore (fun p e hno => by cases hno)
    | some task => exact h
  | respond t =>
    rw [step]
    cases htask : a.responds t with
    | none => exact h
    | some task =>
      have howns := hstands.owns htask
      have hbefore : (∀ p e, task.phase ≠ .rejecting p e) →
          ∀ task', a.responds t = some task' → ∀ p e, task'.phase ≠ .rejecting p e := by
        intro hphase task' htask'
        cases htask.symm.trans htask'
        exact hphase
      show (a.respond id t task).1.Without calls b
      rw [Approval.respond]
      cases hphase : task.phase with
      | called =>
        have hphases := hbefore (fun p e hno => by cases hphase.symm.trans hno)
        cases hpending : a.pending with
        | none =>
          have hafter : ∀ p e, Respond.phase { task with phase := .missing } ≠ .rejecting p e :=
            fun p e hno => by cases hno
          exact h.setRespond hevent hphases hafter
        | some p =>
          obtain rfl := hstands.opened hpending (hundisturbed task htask hphase).1
          have hmismatch : (reject task.response p).isSome = true :=
            (hfits t task p htask (hstands.approval p rfl)).symm.trans hevent
          cases hreject : reject task.response p with
          | none => simp [hreject] at hmismatch
          | some e =>
            simp only [hreject]
            exact h.takeOut hstands hevent
      | missing =>
        have hphases := hbefore (fun p e hno => by cases hphase.symm.trans hno)
        exact h.setRespond hevent hphases (fun p e hno => by cases hno)
      | rejecting p e =>
        obtain ⟨rfl, -⟩ := Stage.owns_rejecting (howns (by simp [RespondPhase.empty, hphase])) hphase
        exact h.putBack hstands hevent
      | accepted p =>
        obtain ⟨rfl, hreject⟩ :=
          Stage.owns_accepted (howns (by simp [RespondPhase.empty, hphase])) hphase
        have hmatch := (hfits t task p htask (hstands.approval p rfl)).symm.trans hevent
        simp [hreject] at hmatch
      | recorded p =>
        obtain ⟨rfl, hreject⟩ :=
          Stage.owns_recorded (howns (by simp [RespondPhase.empty, hphase])) hphase
        have hmatch := (hfits t task p htask (hstands.approval p rfl)).symm.trans hevent
        simp [hreject] at hmatch
      | delivered p =>
        obtain ⟨rfl, hreject⟩ :=
          Stage.owns_delivered (howns (by simp [RespondPhase.empty, hphase])) hphase
        have hmatch := (hfits t task p htask (hstands.approval p rfl)).symm.trans hevent
        simp [hreject] at hmatch
      | returned result => exact h
  | create request isQuestion => cases hevent
  | announce => cases hevent
  | spawn => cases hevent
  | watch expired => cases hevent
  | cancel t => cases hevent
  | cancelStep t => cases hevent

theorem Approval.Without.setBoth (h : Approval.Without calls a b)
    (hbefore : ∀ task, a.responds t = some task → ∀ p e, task.phase ≠ .rejecting p e)
    (hafter : ∀ p e, task'.phase ≠ .rejecting p e) :
    (a.setRespond t task').Without calls (b.setRespond t task') := by
  have hvain := fun p => Approval.vain_setRespond (p := p) hbefore hafter
  refine { h with restored := ?_, pending := ?_, responds := ?_ }
  · intro p hp
    exact h.restored p ((hvain p).mp hp)
  · intro hno
    exact h.pending (fun p hp => hno p ((hvain p).mpr hp))
  · intro t' ht'
    by_cases hne : t' = t
    · simp [Approval.setRespond, hne]
    · simp [Approval.setRespond, hne, h.responds t' ht']

theorem Approval.Without.setPending (h : Approval.Without calls a b) (hvain : ∀ p, ¬ a.vain p)
    (q : Option PendingApproval) :
    Approval.Without calls { a with pending := q } { b with pending := q } :=
  { h with
    restored := fun p hp => absurd hp (hvain p)
    pending := fun _ => rfl }

theorem Approval.Without.watch (id : String) (h : Approval.Without calls a b)
    (hstands : a.Stands s) :
    (a.watch id expired).1.Without calls (b.watch id expired).1 := by
  rw [Approval.watch, Approval.watch, h.watcher]
  cases hw : a.watcher with
  | absent => exact h
  | done => exact h
  | watching =>
    have hsame : b.waiter.outcome = a.waiter.outcome := congrArg Waiter.outcome h.waiter
    simp only [hsame]
    cases a.waiter.outcome with
    | some o => exact { h with watcher := rfl }
    | none =>
      cases expired with
      | true => exact { h with watcher := rfl }
      | false => exact h
  | selected o => exact { h with watcher := rfl, completed := rfl }
  | recorded =>
    have hvain : ∀ p, ¬ a.vain p := by
      intro p hp
      obtain ⟨t, e, rfl⟩ := hstands.vain hp
      rcases hstands.timed hw with ⟨q, t', hs⟩ | ⟨q, hs⟩
      · cases hs
      · cases hs
    have hsame := h.pending hvain
    cases hpending : a.pending with
    | none =>
      have hnone := hsame.trans hpending
      simp only [hnone]
      exact { h.setPending hvain none with watcher := rfl }
    | some p =>
      have hsome := hsame.trans hpending
      simp only [hsome]
      exact { h.setPending hvain none with watcher := rfl }
  | removed => exact { h with watcher := rfl }
  | notified => exact { h with watcher := rfl, waiter := rfl }

theorem Approval.Without.respond (id : String) (h : Approval.Without calls a b)
    (hstands : a.Stands s) (hfits : a.Fits calls) (hundisturbed : a.Undisturbed (.respond t))
    (htask : a.responds t = some task) (ht : calls t = false) :
    (a.respond id t task).1.Without calls (b.respond id t task).1 := by
  have howns := hstands.owns htask
  have hbefore : ∀ task', a.responds t = some task' → ∀ p e, task'.phase ≠ .rejecting p e := by
    intro task' htask' p e hphase
    cases ht.symm.trans (hfits.rejecting hstands htask' hphase)
  rw [Approval.respond, Approval.respond]
  cases hphase : task.phase with
  | called =>
    have hvain : ∀ p, ¬ a.vain p := by
      intro p hp
      obtain ⟨t', e, rfl⟩ := hstands.vain hp
      obtain ⟨t', task', e', htask', hphase'⟩ := hp
      have hmismatch := (hundisturbed task htask hphase).2 t' task' p e' htask' hphase'
      have hmatch := hfits t task p htask (hstands.approval p rfl)
      cases ht.symm.trans (hmatch.trans hmismatch)
    rw [h.pending hvain]
    cases hpending : a.pending with
    | none =>
      have hafter : ∀ p e, Respond.phase { task with phase := .missing } ≠ .rejecting p e :=
        fun p e hno => by cases hno
      exact h.setBoth hbefore hafter
    | some p =>
      obtain rfl := hstands.opened hpending (hundisturbed task htask hphase).1
      have hmatch := hfits t task p htask (hstands.approval p rfl)
      cases hreject : reject task.response p with
      | some e => simp [hreject, ht] at hmatch
      | none =>
        simp only [hreject]
        apply Approval.Without.setBoth (h.setPending hvain none) hbefore
        intro q e hno
        cases hno
  | missing =>
    rw [h.completed]
    exact h.setBoth hbefore (fun p e hno => by cases hno)
  | rejecting p e => exact absurd hphase (hbefore task htask p e)
  | accepted p =>
    have hboth : Approval.Without calls { a with completed := some task.response.status }
        { b with completed := some task.response.status } := { h with completed := rfl }
    have hafter : ∀ q e, Respond.phase { task with phase := .recorded p } ≠ .rejecting q e :=
      fun q e hno => by cases hno
    exact hboth.setBoth hbefore hafter
  | recorded p =>
    have hboth : Approval.Without calls { a with waiter := .received task.response.status }
        { b with waiter := .received task.response.status } := { h with waiter := rfl }
    have hafter : ∀ q e, Respond.phase { task with phase := .delivered p } ≠ .rejecting q e :=
      fun q e hno => by cases hno
    exact hboth.setBoth hbefore hafter
  | delivered p => exact h.setBoth hbefore (fun p e hno => by cases hno)
  | returned result => exact h

namespace Approval

theorem Without.kept (id : String) (h : Without calls a b)
    (hstands : a.Stands s) (hfits : a.Fits calls) (hundisturbed : a.Undisturbed event)
    (hevent : event.ofCalls calls = false) :
    (a.step id event).1.Without calls (b.step id event).1 := by
  cases event with
  | create request isQuestion =>
    rw [step, step, h.creation]
    cases hcreation : a.creation with
    | absent =>
      obtain rfl := hstands.creation.mp hcreation
      have hvain : ∀ p, ¬ a.vain p := by
        intro p hp
        obtain ⟨t, e, hs⟩ := hstands.vain hp
        cases hs
      exact { h.setPending hvain (some (request.pending isQuestion)) with creation := rfl }
    | _ => exact h
  | announce =>
    rw [step, step, h.creation]
    cases hcreation : a.creation with
    | inserted p => exact { h with creation := rfl }
    | _ => exact h
  | spawn =>
    rw [step, step, h.creation]
    cases hcreation : a.creation with
    | announced p => exact { h with creation := rfl, watcher := rfl }
    | _ => exact h
  | watch expired => exact h.watch id hstands
  | call t response =>
    rw [step, step, h.responds t hevent]
    cases hnone : a.responds t with
    | none =>
      apply h.setBoth
      · intro task htask
        cases hnone.symm.trans htask
      · intro p e hno
        cases hno
    | some task => exact h
  | respond t =>
    rw [step, step, h.responds t hevent]
    cases htask : a.responds t with
    | none => exact h
    | some task => exact h.respond id hstands hfits hundisturbed htask hevent
  | cancel t =>
    rw [step, step, h.cancels]
    cases a.cancels t with
    | none => exact { h with cancels := by simp }
    | some phase => exact h
  | cancelStep t =>
    rw [step, step, h.cancels]
    cases hphase : a.cancels t with
    | none => exact h
    | some phase =>
      rcases hstands.cancels t phase hphase with rfl | rfl
      · obtain ⟨hnone, hheld⟩ := hundisturbed hphase
        have hvain : ∀ p, ¬ a.vain p := by
          rintro p ⟨t, task, e, htask, hphase⟩
          exact hheld ⟨t, task, p, e, htask, hphase⟩
        have hnone' : b.pending = none := (h.pending hvain).trans hnone
        simp only [cancelStep, hnone, hnone']
        exact { h with
          pending := fun _ => rfl
          restored := fun p hp => absurd hp (hvain p)
          cancels := by simp [h.cancels] }
      · exact h

theorem Keeps.fits (h : Keeps a a') : a.Fits a'.mismatched := by
  intro t task p htask hp
  obtain ⟨task', htask', hresponse⟩ := h.2 t task htask
  rw [mismatched, h.1 p hp, htask']
  simp only [hresponse]

theorem Without.run (id : String) (h : Without calls a b) (hstands : a.Stands s)
    (hundisturbed : a.UndisturbedRun id events)
    (hcalls : calls = (a.run id events).mismatched) :
    (a.run id events).Without calls (b.run id (without calls events)) := by
  induction events generalizing a b s with
  | nil => exact h
  | cons event events ih =>
    have hfits : a.Fits calls := hcalls ▸ (Keeps.run id a (event :: events)).fits
    obtain ⟨s', hs', -⟩ := hstands.step id hundisturbed.1
    cases hevent : event.ofCalls calls with
    | true =>
      have hnext := ih (h.leftOut id hstands hfits hundisturbed.1 hevent) hs' hundisturbed.2 hcalls
      simpa [without, hevent] using hnext
    | false =>
      have hnext := ih (h.kept id hstands hfits hundisturbed.1 hevent) hs' hundisturbed.2 hcalls
      simpa [without, hevent] using hnext

def Delivers (a : Approval) (t : Nat) (o : ApprovalOutcome) : Prop :=
  ∃ task, a.responds t = some task ∧ task.response.status = o ∧
    ((∃ p, task.phase = .delivered p) ∨ ∃ ctx, task.phase = .returned (.ok (o, ctx)))

def Returns (a : Approval) (t : Nat)
    (result : Except ApprovalError (ApprovalOutcome × ToolContext)) : Prop :=
  ∃ task, a.responds t = some task ∧ task.phase = .returned result

structure Agreed (a : Approval) : Prop where
  sent : ∀ o, a.waiter.outcome = some o → a.waiter = .received o ∧ a.completed = some o
  /-- Until then somebody has the approval and will go on with it. -/
  kept : a.creation ≠ .absent → a.waiter.outcome = none →
    a.pending.isSome ∨ a.held ∨ a.watcher = .removed ∨ a.watcher = .notified
  returned : ∀ t o ctx, a.Returns t (.ok (o, ctx)) →
    a.waiter = .received o ∧ a.Delivers t o ∧ a.mismatched t = false
  /-- What the waiter received, one call delivered to it, or the deadline and no call. -/
  received : ∀ o, a.waiter = .received o →
    (∃ t, a.Delivers t o ∧ ∀ t' o', a.Delivers t' o' → t' = t) ∨
      (o = .timedOut ∧ a.watcher = .done ∧ ∀ t' o', ¬ a.Delivers t' o')

theorem Stands.delivers (h : Stands a s) (hdelivers : a.Delivers t o) :
    ∃ p, s = .delivered p t o := by
  obtain ⟨task, htask, rfl, ⟨p, hphase⟩ | ⟨ctx, hphase⟩⟩ := hdelivers
  · have howns := h.owns htask (by simp [RespondPhase.empty, hphase])
    exact ⟨p, (Stage.owns_delivered howns hphase).1⟩
  · have howns := h.owns htask (by simp [RespondPhase.empty, hphase])
    obtain ⟨⟨p, hs, -⟩, -⟩ := Stage.owns_returned howns hphase
    exact ⟨p, hs⟩

theorem Stands.sent (h : Stands a s) (houtcome : a.waiter.outcome = some o) :
    a.waiter = .received o ∧ a.completed = some o := by
  rw [h.waiter] at houtcome ⊢
  rw [h.completed]
  cases s with
  | delivered p t o' =>
    cases houtcome
    exact ⟨rfl, rfl⟩
  | timedOut =>
    cases houtcome
    exact ⟨rfl, rfl⟩
  | _ => cases houtcome

theorem Stands.kept (h : Stands a s) (hcreated : a.creation ≠ .absent)
    (houtcome : a.waiter.outcome = none) :
    a.pending.isSome ∨ a.held ∨ a.watcher = .removed ∨ a.watcher = .notified := by
  have hwatches := h.watcher
  rw [h.waiter] at houtcome
  rw [h.pending]
  cases s with
  | absent => exact absurd (h.creation.mpr rfl) hcreated
  | opened p => exact Or.inl rfl
  | rejecting p t e => exact Or.inr (Or.inl (h.held (Or.inl ⟨p, t, e, rfl⟩)))
  | accepted p t o => exact Or.inr (Or.inl (h.held (Or.inr (Or.inl ⟨p, t, o, rfl⟩))))
  | recorded p t o => exact Or.inr (Or.inl (h.held (Or.inr (Or.inr ⟨p, t, o, rfl⟩))))
  | expiring p => exact Or.inl rfl
  | expired p => exact Or.inl rfl
  | removed => exact Or.inr (Or.inr hwatches)
  | delivered p t o => cases houtcome
  | timedOut => cases houtcome

theorem Stands.returned (h : Stands a s)
    (hreturns : a.Returns t (.ok (o, ctx))) :
    a.waiter = .received o ∧ a.Delivers t o ∧ a.mismatched t = false := by
  obtain ⟨task, htask, hphase⟩ := hreturns
  have howns := h.owns htask (by simp [RespondPhase.empty, hphase])
  obtain ⟨⟨p, rfl, hreject⟩, hstatus⟩ := Stage.owns_returned howns hphase
  refine ⟨h.waiter, ⟨task, htask, hstatus, Or.inr ⟨ctx, hphase⟩⟩, ?_⟩
  rw [mismatched, h.approval p rfl, htask]
  simp [hreject]

theorem Stands.received (h : Stands a s) (hreceived : a.waiter = .received o) :
    (∃ t, a.Delivers t o ∧ ∀ t' o', a.Delivers t' o' → t' = t) ∨
      (o = .timedOut ∧ a.watcher = .done ∧ ∀ t' o', ¬ a.Delivers t' o') := by
  have hwatches := h.watcher
  rw [h.waiter] at hreceived
  cases s with
  | delivered p t o' =>
    cases hreceived
    left
    obtain ⟨task, htask, -, hphase, -, hstatus⟩ := h.holder t rfl
    refine ⟨t, ⟨task, htask, hstatus, hphase.imp (fun hp => ⟨p, hp⟩) (fun hp => ⟨_, hp⟩)⟩, ?_⟩
    intro t' o'' hdelivers
    obtain ⟨q, hs⟩ := h.delivers hdelivers
    cases hs
    rfl
  | timedOut =>
    cases hreceived
    right
    refine ⟨rfl, hwatches, ?_⟩
    intro t' o' hdelivers
    obtain ⟨q, hs⟩ := h.delivers hdelivers
    cases hs
  | _ => cases hreceived

theorem Stands.agreed (h : Stands a s) : a.Agreed where
  sent := fun _ => h.sent
  kept := h.kept
  returned := fun _ _ _ => h.returned
  received := fun _ => h.received

theorem UndisturbedRun.split {id : String} (h : UndisturbedRun id a (events ++ later)) :
    a.UndisturbedRun id events ∧ (a.run id events).UndisturbedRun id later := by
  induction events generalizing a with
  | nil => exact ⟨trivial, h⟩
  | cons event events ih => exact ⟨⟨h.1, (ih h.2).1⟩, (ih h.2).2⟩

end Approval

theorem outcome_agreement (id : String) (events later : List ApprovalEvent)
    (h : Approval.new.UndisturbedRun id (events ++ later)) :
    let a := Approval.new.run id events
    let a' := Approval.new.run id (events ++ later)
    a.Agreed ∧
    (∀ o, a.completed = some o → a'.completed = some o) ∧
    (∀ o, a.waiter = .received o → a'.waiter = .received o) ∧
    a.Without a.mismatched (Approval.new.run id (without a.mismatched events)) := by
  obtain ⟨hevents, hlater⟩ := h.split
  obtain ⟨s, hs, -⟩ := Approval.new_stands.run id hevents
  obtain ⟨s', hs', hleads⟩ := hs.run id hlater
  rw [← Approval.run_append] at hs'
  refine ⟨hs.agreed, ?_, ?_, ?_⟩
  · intro o ho
    rw [hs'.completed]
    exact hleads.1 o (hs.completed.symm.trans ho)
  · intro o ho
    rw [hs'.waiter]
    exact hleads.2 o (hs.waiter.symm.trans ho)
  · have hvain : ∀ p, ¬ Approval.new.vain p := by
      rintro p ⟨t, task, e, htask, -⟩
      cases htask
    exact Approval.Without.run id (.refl _ hvain) Approval.new_stands hevents rfl

/-- A call that does not match comes first and is turned away; the next one is accepted. -/
theorem outcome_agreement_sample :
    let request : ApprovalRequest := ⟨"a", "Bash", 1, ⟨[], []⟩, 0, 9⟩
    let opening : List ApprovalEvent := [.create request false, .announce, .spawn]
    let rejected : List ApprovalEvent := [.call 0 ⟨2, .denied none⟩, .respond 0, .respond 0]
    let accepted : List ApprovalEvent :=
      [.call 1 ⟨1, .approved .once⟩, .respond 1, .respond 1, .respond 1, .respond 1]
    let a := Approval.new.run "a" (opening ++ rejected ++ accepted)
    a.waiter = .received (.approved .once) ∧ a.mismatched 0 = true ∧ a.Agreed ∧
      a.Without a.mismatched
        (Approval.new.run "a" (without a.mismatched (opening ++ rejected ++ accepted))) := by
  intro request opening rejected accepted a
  have hundisturbed : Approval.new.UndisturbedRun "a"
      ((opening ++ rejected ++ accepted) ++ [.watch true]) := by
    simp [opening, rejected, accepted, request, Approval.UndisturbedRun, Approval.Undisturbed,
      Approval.new, Approval.step, Approval.setRespond, Approval.respond, Approval.expiring,
      reject, validateApprovalResponse, ApprovalRequest.pending, Waiter.outcome,
      Function.update_apply]
    constructor
    · rintro t' task' p e rfl rfl hphase
      cases hphase
    · intro t' task' p e htask hphase
      split_ifs at htask
      · cases htask
        cases hphase
      · cases htask
        cases hphase
  have hagreed := outcome_agreement "a" (opening ++ rejected ++ accepted) [.watch true] hundisturbed
  exact ⟨by decide +kernel, by decide +kernel, hagreed.1, hagreed.2.2.2⟩

/-- What is recorded changes after `cancel`: the waiter times out with its sender, and the watcher
records that. A deadline while a call that does not match has the approval leaves it pending with
nobody to end it, and the next call changes what is recorded. -/
theorem cancel_and_mismatched_call :
    (let request : ApprovalRequest := ⟨"a", "Bash", 1, ⟨[], []⟩, 0, 9⟩
    let a := Approval.new.run "a" [.create request false, .announce, .spawn, .cancel 0,
      .cancelStep 0, .cancelStep 0, .cancelStep 0, .cancelStep 0]
    let a' := a.run "a" [.watch false, .watch false]
    a.completed = some (.denied (some "Cancelled")) ∧ a.waiter.outcome = some .timedOut ∧
      a'.completed = some .timedOut) ∧
    (let request : ApprovalRequest := ⟨"a", "Bash", 1, ⟨[], []⟩, 0, 9⟩
    let opening : List ApprovalEvent := [.create request false, .announce, .spawn]
    let deadline : List ApprovalEvent := [.watch true, .watch true, .watch true]
    let a := Approval.new.run "a"
      (opening ++ [.call 0 ⟨2, .denied none⟩, .respond 0] ++ deadline ++ [.respond 0])
    let a' := a.run "a" [.call 1 ⟨1, .approved .once⟩, .respond 1, .respond 1, .respond 1]
    let b := Approval.new.run "a" (opening ++ deadline ++ [.watch true, .watch true])
    a.watcher = .done ∧ a.waiter = .waiting ∧ a.pending.isSome ∧ a.completed = some .timedOut ∧
      a'.completed = some (.approved .once) ∧ b.waiter = .received .timedOut) := by
  decide +kernel

end Cdesktop.ToolApproval
