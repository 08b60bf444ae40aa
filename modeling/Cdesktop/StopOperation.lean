import Cdesktop.Config
import Cdesktop.Run
import Cdesktop.Table
import Mathlib.Logic.Function.Basic

namespace Cdesktop.StopOperation
open Table (Reply)
set_option autoImplicit true

inductive StopExecutionOutcome where
  | accepted | rejected | interrupted
deriving DecidableEq

def StopExecutionOutcome.asStr : StopExecutionOutcome → String
  | .accepted => "accepted"
  | .rejected => "rejected"
  | .interrupted => "interrupted"

def StopExecutionOutcome.parse (value : String) : Option StopExecutionOutcome :=
  if value = "accepted" then some .accepted
  else if value = "rejected" then some .rejected
  else if value = "interrupted" then some .interrupted
  else none

structure StopExecutionOperationRow where
  ownerInstanceId : Uuid
  outcome : Option String

inductive StopExecutionOperationState where
  | owner
  | pending (ownedByCurrentInstance : Bool)
  | complete (outcome : StopExecutionOutcome)

inductive StopResponse where
  | success
  | badRequest (message : String)
  | conflict (message : String)
  | stopInterrupted (message : String)
  | tooEarly (message : String)
  | stopFailed
  | database
  | protocol (message : String)
deriving DecidableEq

def stopOutcomeResponse : StopExecutionOutcome → StopResponse
  | .accepted => .success
  | .rejected => .conflict "The original stop request was rejected."
  | .interrupted => .stopInterrupted
      "The original stop owner ended before its result was durably known; reconcile this key without issuing another stop."

def orphanedStopOutcome : StopExecutionOutcome := .interrupted

/-- A request to stop between its operations on the table and on the container. -/
inductive StopPhase where
  | received
  /-- `begin`: the row is to be inserted. -/
  | inserting (key : String)
  /-- `begin`: the row was there and is to be read. -/
  | reading (key : String)
  | stopping (key : Option String)
  /-- `complete`: the outcome is to be recorded. -/
  | completing (key : String) (outcome : StopExecutionOutcome)
  /-- `complete`: the recorded outcome is to be read. -/
  | rereading (key : String)
  | answered (response : StopResponse)
  | lost
deriving DecidableEq

structure StopRequest where
  executionProcessId : Uuid
  dedupeKey : Option String
  instanceId : Uuid
  phase : StopPhase
deriving DecidableEq

/-- The table, the requests of all server instances, and what was done, newest first. -/
structure StopWorld where
  rows : Uuid → String → Option StopExecutionOperationRow
  requests : Nat → Option StopRequest
  /-- Where `begin` returned `Owner`. -/
  owned : List (Uuid × String)
  stops : List (Uuid × Option String)
  /-- Where an outcome was recorded. -/
  recorded : List (Uuid × String)

def StopWorld.new : StopWorld :=
  { rows := fun _ _ => none
    requests := fun _ => none
    owned := []
    stops := []
    recorded := [] }

inductive StopEvent where
  | request (t : Nat) (executionProcessId : Uuid) (dedupeKey : Option String) (instanceId : Uuid)
  | step (t : Nat) (reply : Reply) (stopped : Bool)
  | lose (t : Nat)

def StopWorld.setPhase (w : StopWorld) (t : Nat) (r : StopRequest) (phase : StopPhase) : StopWorld :=
  { w with requests := Function.update w.requests t (some { r with phase }) }

def StopWorld.setRow (w : StopWorld) (id : Uuid) (key : String) (row : StopExecutionOperationRow) :
    StopWorld :=
  { w with rows := Function.update w.rows id (Function.update (w.rows id) key (some row)) }

/-- `state`, from the row as it is read. -/
def operationState (row : Option StopExecutionOperationRow) (instanceId : Uuid) :
    Except StopResponse StopExecutionOperationState :=
  match row with
  | none => .error .database
  | some row =>
    match row.outcome with
    | some value =>
      match StopExecutionOutcome.parse value with
      | some outcome => .ok (.complete outcome)
      | none => .error (.protocol s!"invalid execution process stop outcome: {value}")
    | none => .ok (.pending (row.ownerInstanceId = instanceId))

def tooEarly : StopResponse :=
  .tooEarly "The original stop request is still in progress; retry the same dedupe_key."

def notCompleted : StopResponse :=
  .protocol "execution process stop operation was not completed"

/-- `stop_execution_process`, one operation. -/
def StopWorld.serve (w : StopWorld) (t : Nat) (r : StopRequest) (reply : Reply) (stopped : Bool) :
    StopWorld :=
  match r.phase with
  | .received =>
    match r.dedupeKey with
    | none => w.setPhase t r (.stopping none)
    | some key =>
      if key = "" then
        w.setPhase t r (.answered (.badRequest "dedupe_key must not be empty"))
      else w.setPhase t r (.inserting key)
  | .inserting key =>
    match reply, w.rows r.executionProcessId key with
    | .failed, _ => w.setPhase t r (.answered .database)
    | .ok, some _ => w.setPhase t r (.reading key)
    | .lost, some _ => w.setPhase t r (.answered .database)
    | .ok, none =>
      let w := w.setRow r.executionProcessId key ⟨r.instanceId, none⟩
      { w.setPhase t r (.stopping (some key)) with
        owned := (r.executionProcessId, key) :: w.owned }
    | .lost, none =>
      (w.setRow r.executionProcessId key ⟨r.instanceId, none⟩).setPhase t r (.answered .database)
  | .reading key =>
    if reply ≠ .ok then w.setPhase t r (.answered .database)
    else
      match operationState (w.rows r.executionProcessId key) r.instanceId with
      | .error response => w.setPhase t r (.answered response)
      | .ok (.complete outcome) => w.setPhase t r (.answered (stopOutcomeResponse outcome))
      | .ok (.pending true) => w.setPhase t r (.answered tooEarly)
      | .ok (.pending false) => w.setPhase t r (.completing key orphanedStopOutcome)
      | .ok .owner => w.setPhase t r (.stopping (some key))
  | .stopping none =>
    { w.setPhase t r (.answered (if stopped then .success else .stopFailed)) with
      stops := (r.executionProcessId, none) :: w.stops }
  | .stopping (some key) =>
    let outcome := if stopped then .accepted else .rejected
    { w.setPhase t r (.completing key outcome) with
      stops := (r.executionProcessId, some key) :: w.stops }
  | .completing key outcome =>
    if reply = .failed then w.setPhase t r (.answered .database)
    else
      let next := if reply = .ok then .rereading key else .answered .database
      match w.rows r.executionProcessId key with
      | some ⟨owner, none⟩ =>
        let w := w.setRow r.executionProcessId key ⟨owner, some outcome.asStr⟩
        { w.setPhase t r next with recorded := (r.executionProcessId, key) :: w.recorded }
      | _ => w.setPhase t r next
  | .rereading key =>
    if reply ≠ .ok then w.setPhase t r (.answered .database)
    else
      match operationState (w.rows r.executionProcessId key) r.instanceId with
      | .error response => w.setPhase t r (.answered response)
      | .ok (.complete outcome) => w.setPhase t r (.answered (stopOutcomeResponse outcome))
      | .ok (.pending _) => w.setPhase t r (.answered notCompleted)
      | .ok .owner => w.setPhase t r (.answered notCompleted)
  | .answered _ => w
  | .lost => w

def StopWorld.step (w : StopWorld) : StopEvent → StopWorld
  | .request t executionProcessId dedupeKey instanceId =>
    match w.requests t with
    | none =>
      let r := ⟨executionProcessId, dedupeKey, instanceId, .received⟩
      { w with requests := Function.update w.requests t (some r) }
    | some _ => w
  | .step t reply stopped =>
    match w.requests t with
    | none => w
    | some r => w.serve t r reply stopped
  | .lose t =>
    match w.requests t with
    | none => w
    | some r =>
      match r.phase with
      | .answered _ => w
      | _ => w.setPhase t r .lost

def StopPhase.key : StopPhase → Option (Option String)
  | .inserting key | .reading key | .completing key _ | .rereading key => some (some key)
  | .stopping key => some key
  | .received | .answered _ | .lost => none

def StopRequest.Reports (r : StopRequest) (id : Uuid) (key : String)
    (outcome : StopExecutionOutcome) : Prop :=
  r.executionProcessId = id ∧ r.dedupeKey = some key ∧
    r.phase = .answered (stopOutcomeResponse outcome)

def StopRequest.Stops (r : StopRequest) (id : Uuid) (key : String) : Prop :=
  r.executionProcessId = id ∧ r.phase = .stopping (some key)

def StopWorld.outcome (w : StopWorld) (id : Uuid) (key : String) : Option String :=
  (w.rows id key).bind (·.outcome)

structure StopWorld.Sound (w : StopWorld) (id : Uuid) (key : String) : Prop where
  owned : w.owned.count (id, key) ≤ 1
  inserted : w.rows id key = none → w.owned.count (id, key) = 0
  stopped : w.stops.count (id, some key) ≤ w.owned.count (id, key)
  stopping : ∀ t r, w.requests t = some r → r.Stops id key →
    w.stops.count (id, some key) = 0 ∧ w.owned.count (id, key) = 1 ∧
      ∀ t' r', w.requests t' = some r' → r'.Stops id key → t' = t
  recorded : w.recorded.count (id, key) = if (w.outcome id key).isSome then 1 else 0
  written : ∀ value, w.outcome id key = some value →
    ∃ outcome : StopExecutionOutcome, value = outcome.asStr
  keyed : ∀ t r k, w.requests t = some r → r.phase.key = some k → r.dedupeKey = k
  reports : ∀ t r outcome, w.requests t = some r → r.Reports id key outcome →
    w.outcome id key = some outcome.asStr

theorem StopExecutionOutcome.parse_asStr (outcome : StopExecutionOutcome) :
    parse outcome.asStr = some outcome := by
  cases outcome <;> rfl

theorem StopExecutionOutcome.asStr_inj (h : asStr outcome = asStr outcome') :
    outcome = outcome' := by
  have hparse := congrArg parse h
  rw [parse_asStr, parse_asStr] at hparse
  exact Option.some.inj hparse

theorem stopOutcomeResponse_inj (h : stopOutcomeResponse outcome = stopOutcomeResponse outcome') :
    outcome = outcome' := by
  cases outcome <;> cases outcome' <;> first | rfl | cases h

theorem operationState_complete (h : operationState row instanceId = .ok (.complete outcome))
    (hwritten : ∀ value, row.bind (·.outcome) = some value →
      ∃ outcome : StopExecutionOutcome, value = outcome.asStr) :
    row.bind (·.outcome) = some outcome.asStr := by
  rw [operationState.eq_def] at h
  split at h
  · cases h
  · rename_i row
    split at h
    · rename_i value hvalue
      obtain ⟨outcome', rfl⟩ := hwritten value hvalue
      rw [StopExecutionOutcome.parse_asStr] at h
      cases h
      exact hvalue
    · cases h

theorem operationState_ne_owner (row : Option StopExecutionOperationRow) (instanceId : Uuid) :
    operationState row instanceId ≠ .ok .owner := by
  intro h
  rw [operationState.eq_def] at h
  split at h
  · cases h
  · split at h
    · split at h
      · cases h
      · cases h
    · cases h

theorem StopWorld.Sound.setPhase (h : StopWorld.Sound w p key) (r : StopRequest)
    (hstops : phase ≠ .stopping (some key) ∨ r.executionProcessId ≠ p)
    (hkey : ∀ k, phase.key = some k → r.dedupeKey = k)
    (hreports : ∀ outcome, r.executionProcessId = p → r.dedupeKey = some key →
      phase = .answered (stopOutcomeResponse outcome) →
      w.outcome p key = some outcome.asStr) :
    (w.setPhase t r phase).Sound p key := by
  have hcases : ∀ t' r', (w.setPhase t r phase).requests t' = some r' →
      (t' = t ∧ r' = { r with phase }) ∨ w.requests t' = some r' := by
    intro t' r' hr'
    by_cases ht : t' = t
    · subst ht
      left
      exact ⟨rfl, by simpa [StopWorld.setPhase, eq_comm] using hr'⟩
    · right
      simpa [StopWorld.setPhase, ht] using hr'
  have hnot : ¬ StopRequest.Stops { r with phase } p key := by
    rintro ⟨hid, hphase⟩
    exact hstops.elim (fun hne => hne hphase) (fun hne => hne hid)
  refine { h with stopping := ?_, keyed := ?_, reports := ?_ }
  · intro t' r' hr' hr'stops
    rcases hcases t' r' hr' with ⟨-, rfl⟩ | hold
    · exact absurd hr'stops hnot
    · obtain ⟨hzero, hone, hunique⟩ := h.stopping t' r' hold hr'stops
      refine ⟨hzero, hone, fun t'' r'' hr'' hr''stops => ?_⟩
      rcases hcases t'' r'' hr'' with ⟨-, rfl⟩ | hold''
      · exact absurd hr''stops hnot
      · exact hunique t'' r'' hold'' hr''stops
  · intro t' r' k hr' hk
    rcases hcases t' r' hr' with ⟨-, rfl⟩ | hold
    · exact hkey k hk
    · exact h.keyed t' r' k hold hk
  · intro t' r' outcome hr' hr'reports
    rcases hcases t' r' hr' with ⟨-, rfl⟩ | hold
    · exact hreports outcome hr'reports.1 hr'reports.2.1 hr'reports.2.2
    · exact h.reports t' r' outcome hold hr'reports

theorem StopWorld.outcome_setRow_ne (w : StopWorld) (hne : ¬ (p' = p ∧ key' = key))
    (row : StopExecutionOperationRow) : (w.setRow p' key' row).rows p key = w.rows p key := by
  by_cases hp : p = p'
  · subst hp
    have hkey : key ≠ key' := fun hkey => hne ⟨rfl, hkey.symm⟩
    simp [StopWorld.setRow, hkey]
  · simp [StopWorld.setRow, hp]

@[simp] theorem StopWorld.rows_setRow (w : StopWorld) (p : Uuid) (key : String)
    (row : StopExecutionOperationRow) : (w.setRow p key row).rows p key = some row := by
  simp [StopWorld.setRow]

theorem StopWorld.Sound.other {w' : StopWorld} (h : StopWorld.Sound w p key)
    (hrequests : w'.requests = w.requests) (hrow : w'.rows p key = w.rows p key)
    (howned : w'.owned.count (p, key) = w.owned.count (p, key))
    (hstops : w'.stops.count (p, some key) = w.stops.count (p, some key))
    (hrecorded : w'.recorded.count (p, key) = w.recorded.count (p, key)) :
    w'.Sound p key := by
  have houtcome : w'.outcome p key = w.outcome p key := by rw [outcome, outcome, hrow]
  exact
    { owned := by rw [howned]; exact h.owned
      inserted := by rw [howned, hrow]; exact h.inserted
      stopped := by rw [howned, hstops]; exact h.stopped
      stopping := by rw [howned, hstops, hrequests]; exact h.stopping
      recorded := by rw [hrecorded, houtcome]; exact h.recorded
      written := by rw [houtcome]; exact h.written
      keyed := by rw [hrequests]; exact h.keyed
      reports := by rw [hrequests, houtcome]; exact h.reports }

theorem StopWorld.Sound.insert (h : StopWorld.Sound w p key) (hnone : w.rows p key = none)
    (owner : Uuid) : (w.setRow p key ⟨owner, none⟩).Sound p key := by
  have hbefore : w.outcome p key = none := by rw [outcome, hnone]; rfl
  have hafter : (w.setRow p key ⟨owner, none⟩).outcome p key = none := by simp [outcome]
  exact
    { owned := h.owned
      inserted := fun hno => by simp at hno
      stopped := h.stopped
      stopping := h.stopping
      recorded := by rw [hafter, ← hbefore]; exact h.recorded
      written := by rw [hafter, ← hbefore]; exact h.written
      keyed := h.keyed
      reports := by rw [hafter, ← hbefore]; exact h.reports }

theorem StopWorld.Sound.begin (h : StopWorld.Sound w p key) (hr : w.requests t = some r)
    (hphase : r.phase = .inserting key') (hnone : w.rows r.executionProcessId key' = none) :
    StopWorld.Sound
      { (w.setRow r.executionProcessId key' ⟨r.instanceId, none⟩).setPhase t r
          (.stopping (some key')) with
        owned := (r.executionProcessId, key') :: w.owned } p key := by
  have hkeyed : r.dedupeKey = some key' := h.keyed t r (some key') hr (by rw [hphase]; rfl)
  by_cases hsame : r.executionProcessId = p ∧ key' = key
  · obtain ⟨rfl, rfl⟩ := hsame
    have hinsert := h.insert hnone r.instanceId
    have hzero := h.inserted hnone
    have hnobody : ∀ t' r', w.requests t' = some r' → ¬ r'.Stops r.executionProcessId key' := by
      intro t' r' hr' hstops
      have hone := (h.stopping t' r' hr' hstops).2.1
      omega
    have hcases : ∀ t' r', Function.update w.requests t
        (some { r with phase := .stopping (some key') }) t' = some r' →
        (t' = t ∧ r' = { r with phase := .stopping (some key') }) ∨ w.requests t' = some r' := by
      intro t' r' hr'
      by_cases ht : t' = t
      · subst ht
        left
        exact ⟨rfl, by simpa [eq_comm] using hr'⟩
      · right
        simpa [ht] using hr'
    refine { hinsert with owned := ?_, inserted := ?_, stopped := ?_, stopping := ?_,
                          keyed := ?_, reports := ?_ }
    · simp [hzero]
    · intro hno
      simp [StopWorld.setPhase] at hno
    · have hstopped := h.stopped
      simp only [List.count_cons_self]
      exact Nat.le_succ_of_le hstopped
    · intro t' r' hr' hstops
      refine ⟨?_, by simp [hzero], fun t'' r'' hr'' hstops' => ?_⟩
      · have hstopped := h.stopped
        show w.stops.count (r.executionProcessId, some key') = 0
        omega
      · rcases hcases t' r' hr' with ⟨rfl, -⟩ | hold
        · rcases hcases t'' r'' hr'' with ⟨rfl, -⟩ | hold'
          · rfl
          · exact absurd hstops' (hnobody t'' r'' hold')
        · exact absurd hstops (hnobody t' r' hold)
    · intro t' r' k hr' hk
      rcases hcases t' r' hr' with ⟨-, rfl⟩ | hold
      · cases hk
        exact hkeyed
      · exact h.keyed t' r' k hold hk
    · intro t' r' outcome hr' hreports
      rcases hcases t' r' hr' with ⟨-, rfl⟩ | hold
      · cases hreports.2.2
      · exact hinsert.reports t' r' outcome hold hreports
  · have hrow : StopWorld.Sound (w.setRow r.executionProcessId key' ⟨r.instanceId, none⟩) p key :=
      h.other rfl (w.outcome_setRow_ne hsame _) rfl rfl rfl
    have hne : StopPhase.stopping (some key') ≠ .stopping (some key) ∨ r.executionProcessId ≠ p := by
      by_cases hp : r.executionProcessId = p
      · left
        intro hno
        cases hno
        exact hsame ⟨hp, rfl⟩
      · exact Or.inr hp
    have hphase' := hrow.setPhase (t := t) r hne (fun k hk => by cases hk; exact hkeyed)
      (fun outcome _ _ hno => by cases hno)
    have hpair : (r.executionProcessId, key') ≠ (p, key) := fun hno => by
      cases hno
      exact hsame ⟨rfl, rfl⟩
    exact hphase'.other rfl rfl (List.count_cons_of_ne hpair) rfl rfl

theorem StopWorld.Sound.stop (h : StopWorld.Sound w p key) (hr : w.requests t = some r)
    (hphase : r.phase = .stopping (some key')) (outcome : StopExecutionOutcome) :
    StopWorld.Sound
      { w.setPhase t r (.completing key' outcome) with
        stops := (r.executionProcessId, some key') :: w.stops } p key := by
  have hkeyed : r.dedupeKey = some key' := h.keyed t r (some key') hr (by rw [hphase]; rfl)
  have hnext : (w.setPhase t r (.completing key' outcome)).Sound p key :=
    h.setPhase r (Or.inl (fun hno => by cases hno)) (fun k hk => by cases hk; exact hkeyed)
      (fun outcome' _ _ hno => by cases hno)
  by_cases hsame : r.executionProcessId = p ∧ key' = key
  · obtain ⟨rfl, rfl⟩ := hsame
    obtain ⟨hzero, hone, hunique⟩ := h.stopping t r hr ⟨rfl, hphase⟩
    refine { hnext with stopped := ?_, stopping := ?_ }
    · rw [List.count_cons_self, hzero]
      exact le_of_eq hone.symm
    · intro t' r' hr' hstops
      by_cases ht : t' = t
      · subst ht
        have heq : r' = { r with phase := .completing key' outcome } := by
          simpa [StopWorld.setPhase, eq_comm] using hr'
        subst heq
        cases hstops.2
      · have hold : w.requests t' = some r' := by simpa [StopWorld.setPhase, ht] using hr'
        exact absurd (hunique t' r' hold hstops) ht
  · have hpair : (r.executionProcessId, some key') ≠ (p, some key) := fun hno => by
      cases hno
      exact hsame ⟨rfl, rfl⟩
    exact hnext.other rfl rfl rfl (List.count_cons_of_ne hpair) rfl

theorem StopWorld.Sound.record (h : StopWorld.Sound w p' key')
    (hrow : w.rows p key = some ⟨owner, none⟩) (outcome : StopExecutionOutcome) :
    StopWorld.Sound
      { w.setRow p key ⟨owner, some outcome.asStr⟩ with recorded := (p, key) :: w.recorded }
      p' key' := by
  by_cases hsame : p = p' ∧ key = key'
  · obtain ⟨rfl, rfl⟩ := hsame
    have hbefore : w.outcome p key = none := by rw [StopWorld.outcome, hrow]; rfl
    have hnone : w.recorded.count (p, key) = 0 := by
      rw [h.recorded, hbefore]
      rfl
    have hafter : (w.setRow p key ⟨owner, some outcome.asStr⟩).outcome p key =
        some outcome.asStr := by simp [StopWorld.outcome]
    exact
      { owned := h.owned
        inserted := fun hno => by
          have hsome := w.rows_setRow p key ⟨owner, some outcome.asStr⟩
          cases hsome.symm.trans hno
        stopped := h.stopped
        stopping := h.stopping
        recorded := by
          show ((p, key) :: w.recorded).count (p, key) = _
          rw [List.count_cons_self, hnone]
          exact (if_pos (by
            show ((w.setRow p key ⟨owner, some outcome.asStr⟩).outcome p key).isSome = true
            rw [hafter]
            rfl)).symm
        written := by
          intro value hvalue
          exact ⟨outcome, Option.some.inj (hvalue.symm.trans hafter)⟩
        keyed := h.keyed
        reports := by
          intro t r outcome' hr hreports
          cases hbefore.symm.trans (h.reports t r outcome' hr hreports) }
  · have hpair : (p, key) ≠ (p', key') := fun hno => by
      cases hno
      exact hsame ⟨rfl, rfl⟩
    exact h.other rfl (w.outcome_setRow_ne hsame _) rfl rfl (List.count_cons_of_ne hpair)

def StopResponse.Plain (response : StopResponse) : Prop :=
  ∀ outcome, response ≠ stopOutcomeResponse outcome

theorem StopWorld.Sound.refuse (h : StopWorld.Sound w p key) (r : StopRequest)
    (hplain : StopResponse.Plain response) : (w.setPhase t r (.answered response)).Sound p key := by
  apply h.setPhase r (Or.inl (fun hno => by cases hno)) (fun k hk => by cases hk)
  intro outcome _ _ hphase
  cases hphase
  exact absurd rfl (hplain outcome)

theorem StopWorld.Sound.goOn (h : StopWorld.Sound w p key) (r : StopRequest)
    (hkeyed : r.dedupeKey = k) (hphase : phase.key = some k)
    (hstops : ∀ key, phase ≠ .stopping (some key)) : (w.setPhase t r phase).Sound p key := by
  apply h.setPhase r (Or.inl (hstops key))
  · intro k' hk'
    cases hphase.symm.trans hk'
    exact hkeyed
  · intro outcome _ _ hno
    rw [hno] at hphase
    cases hphase

theorem StopWorld.Sound.report {outcome : StopExecutionOutcome} (h : StopWorld.Sound w p key)
    (r : StopRequest)
    (hkeyed : r.dedupeKey = some key')
    (hread : w.outcome r.executionProcessId key' = some outcome.asStr) :
    (w.setPhase t r (.answered (stopOutcomeResponse outcome))).Sound p key := by
  apply h.setPhase r (Or.inl (fun hno => by cases hno)) (fun k hk => by cases hk)
  intro outcome' hp hkey hphase
  cases hkeyed.symm.trans hkey
  cases stopOutcomeResponse_inj (StopPhase.answered.inj hphase)
  rw [← hp]
  exact hread

theorem database_plain : StopResponse.Plain .database := by
  intro outcome hno
  cases outcome <;> cases hno

theorem protocol_plain (message : String) : StopResponse.Plain (.protocol message) := by
  intro outcome hno
  cases outcome <;> cases hno

theorem tooEarly_plain : tooEarly.Plain := by
  intro outcome hno
  cases outcome <;> cases hno

theorem operationState_error (h : operationState row instanceId = .error response) :
    response.Plain := by
  rw [operationState.eq_def] at h
  split at h
  · cases h
    exact database_plain
  · split at h
    · split at h
      · cases h
      · cases h
        exact protocol_plain _
    · cases h

theorem StopWorld.Sound.serve (h : ∀ p key, StopWorld.Sound w p key) (hr : w.requests t = some r)
    (reply : Reply) (stopped : Bool) (p : Uuid) (key : String) :
    (w.serve t r reply stopped).Sound p key := by
  have hkeyed : ∀ k, r.phase.key = some k → r.dedupeKey = k := fun k => (h p key).keyed t r k hr
  have hrefuse : ∀ response, StopResponse.Plain response →
      (w.setPhase t r (.answered response)).Sound p key :=
    fun response hplain => (h p key).refuse r hplain
  rw [StopWorld.serve.eq_def]
  cases hphase : r.phase with
  | received =>
    cases hdedupe : r.dedupeKey with
    | none => exact (h p key).goOn r hdedupe rfl (fun key hno => by cases hno)
    | some key' =>
      by_cases hempty : key' = ""
      · simp only [if_pos hempty]
        apply hrefuse
        intro outcome hno
        cases outcome <;> cases hno
      · simp only [if_neg hempty]
        exact (h p key).goOn r hdedupe rfl (fun key hno => by cases hno)
  | inserting key' =>
    rw [hphase] at hkeyed
    have hdedupe := hkeyed (some key') rfl
    cases hrow : w.rows r.executionProcessId key' with
    | none =>
      cases reply with
      | failed => simpa only [hrow] using hrefuse _ database_plain
      | ok =>
        simp only [hrow]
        exact (h p key).begin hr hphase hrow
      | lost =>
        simp only [hrow]
        by_cases hsame : r.executionProcessId = p ∧ key' = key
        · obtain ⟨rfl, rfl⟩ := hsame
          exact ((h _ _).insert hrow r.instanceId).refuse r database_plain
        · have hother : (w.setRow r.executionProcessId key' ⟨r.instanceId, none⟩).Sound p key :=
            (h p key).other rfl (w.outcome_setRow_ne hsame _) rfl rfl rfl
          exact hother.refuse r database_plain
    | some row =>
      cases reply with
      | failed => simpa only [hrow] using hrefuse _ database_plain
      | lost => simpa only [hrow] using hrefuse _ database_plain
      | ok =>
        simp only [hrow]
        exact (h p key).goOn r hdedupe rfl (fun key hno => by cases hno)
  | reading key' =>
    rw [hphase] at hkeyed
    have hdedupe := hkeyed (some key') rfl
    by_cases hreply : reply ≠ .ok
    · simp only [if_pos hreply]
      exact hrefuse _ database_plain
    · simp only [if_neg hreply]
      cases hstate : operationState (w.rows r.executionProcessId key') r.instanceId with
      | error response => exact hrefuse _ (operationState_error hstate)
      | ok state =>
        cases state with
        | owner => exact absurd hstate (operationState_ne_owner _ _)
        | complete outcome =>
          apply (h p key).report r hdedupe
          exact operationState_complete hstate (h r.executionProcessId key').written
        | pending owned =>
          cases owned with
          | true => exact hrefuse _ tooEarly_plain
          | false => exact (h p key).goOn r hdedupe rfl (fun key hno => by cases hno)
  | stopping key' =>
    cases key' with
    | some key' => exact (h p key).stop hr hphase _
    | none =>
      rw [hphase] at hkeyed
      have hdedupe := hkeyed none rfl
      have hnext : (w.setPhase t r (.answered (if stopped then .success else .stopFailed))).Sound
          p key := by
        apply (h p key).setPhase r (Or.inl (fun hno => by cases hno)) (fun k hk => by cases hk)
        intro outcome _ hkey
        cases hdedupe.symm.trans hkey
      exact hnext.other rfl rfl rfl (List.count_cons_of_ne (fun hno => by cases hno)) rfl
  | completing key' outcome =>
    rw [hphase] at hkeyed
    have hdedupe := hkeyed (some key') rfl
    by_cases hfailed : reply = .failed
    · simp only [if_pos hfailed]
      exact hrefuse _ database_plain
    · simp only [if_neg hfailed]
      have hgo : ∀ w' : StopWorld, w'.Sound p key →
          (w'.setPhase t r (if reply = .ok then .rereading key' else .answered .database)).Sound
            p key := by
        intro w' hw'
        by_cases hok : reply = .ok
        · rw [if_pos hok]
          exact hw'.goOn r hdedupe rfl (fun key hno => by cases hno)
        · rw [if_neg hok]
          exact hw'.refuse r database_plain
      split
      · rename_i owner hrow
        exact hgo _ ((h p key).record hrow outcome)
      · exact hgo w (h p key)
  | rereading key' =>
    rw [hphase] at hkeyed
    have hdedupe := hkeyed (some key') rfl
    by_cases hreply : reply ≠ .ok
    · simp only [if_pos hreply]
      exact hrefuse _ database_plain
    · simp only [if_neg hreply]
      cases hstate : operationState (w.rows r.executionProcessId key') r.instanceId with
      | error response => exact hrefuse _ (operationState_error hstate)
      | ok state =>
        cases state with
        | owner => exact absurd hstate (operationState_ne_owner _ _)
        | complete outcome =>
          apply (h p key).report r hdedupe
          exact operationState_complete hstate (h r.executionProcessId key').written
        | pending owned => exact hrefuse _ (protocol_plain _)
  | answered response => exact h p key
  | lost => exact h p key

theorem StopWorld.Sound.step (h : ∀ p key, StopWorld.Sound w p key) (event : StopEvent) (p : Uuid)
    (key : String) : (w.step event).Sound p key := by
  cases event with
  | request t executionProcessId dedupeKey instanceId =>
    rw [StopWorld.step]
    cases w.requests t with
    | some r => exact h p key
    | none =>
      exact (h p key).setPhase ⟨executionProcessId, dedupeKey, instanceId, .received⟩
        (Or.inl (fun hno => by cases hno)) (fun k hk => by cases hk)
        (fun outcome _ _ hno => by cases hno)
  | step t reply stopped =>
    rw [StopWorld.step]
    cases hr : w.requests t with
    | none => exact h p key
    | some r => exact StopWorld.Sound.serve h hr reply stopped p key
  | lose t =>
    have hlose : ∀ r : StopRequest, (w.setPhase t r .lost).Sound p key := fun r =>
      (h p key).setPhase r (Or.inl (fun hno => by cases hno)) (fun k hk => by cases hk)
        (fun outcome _ _ hno => by cases hno)
    rw [StopWorld.step]
    cases hr : w.requests t with
    | none => exact h p key
    | some r =>
      cases hphase : r.phase with
      | answered response =>
        simp only [hphase]
        exact h p key
      | _ => simpa only [hphase] using hlose r

theorem StopWorld.new_sound (p : Uuid) (key : String) : StopWorld.new.Sound p key where
  owned := Nat.zero_le _
  inserted := fun _ => rfl
  stopped := Nat.le_refl _
  stopping := fun t r hr => by cases hr
  recorded := rfl
  written := fun value hvalue => by cases hvalue
  keyed := fun t r k hr => by cases hr
  reports := fun t r outcome hr => by cases hr

/-- Whatever requests come, wherever they are lost or the table fails them, and however many server
instances there are: one owner, one stop, one record, one answer for each key. -/
theorem keyed_stop_once (events : List StopEvent) (p : Uuid) (key : String) :
    let w := Run.run StopWorld.step .new events
    w.owned.count (p, key) ≤ 1 ∧ w.stops.count (p, some key) ≤ 1 ∧
      w.recorded.count (p, key) ≤ 1 ∧
      ∀ t r outcome t' r' outcome', w.requests t = some r → r.Reports p key outcome →
        w.requests t' = some r' → r'.Reports p key outcome' → outcome = outcome' := by
  intro w
  have hsound : ∀ p key, w.Sound p key :=
    Run.preserves (P := fun w : StopWorld => ∀ p key, w.Sound p key)
      (fun w event h => StopWorld.Sound.step h event) StopWorld.new_sound events
  have h := hsound p key
  refine ⟨h.owned, le_trans h.stopped h.owned, ?_, ?_⟩
  · rw [h.recorded]
    split <;> decide
  · intro t r outcome t' r' outcome' hr hreports hr' hreports'
    have hread := h.reports t r outcome hr hreports
    have hread' := h.reports t' r' outcome' hr' hreports'
    exact StopExecutionOutcome.asStr_inj (Option.some.inj (hread.symm.trans hread'))

/-- A request and its retry after a restart. -/
theorem keyed_stop_once_sample :
    let serve (t : Nat) (n : Nat) : List StopEvent := List.replicate n (.step t .ok true)
    let w := Run.run StopWorld.step .new (.request 0 1 (some "key") 7 :: serve 0 5 ++
      .request 1 1 (some "key") 8 :: serve 1 3)
    w.stops.count (1, some "key") = 1 ∧ w.stops.count (1, some "key") ≤ 1 ∧
      ∀ outcome : StopExecutionOutcome,
        (⟨1, some "key", 8, .answered .success⟩ : StopRequest).Reports 1 "key" outcome →
          .accepted = outcome := by
  intro serve w
  have honce := keyed_stop_once (.request 0 1 (some "key") 7 :: serve 0 5 ++
    .request 1 1 (some "key") 8 :: serve 1 3) 1 "key"
  refine ⟨by decide +kernel, honce.2.1, fun outcome hreports => ?_⟩
  exact honce.2.2.2 0 ⟨1, some "key", 7, .answered .success⟩ .accepted 1
    ⟨1, some "key", 8, .answered .success⟩ outcome (by decide +kernel) ⟨rfl, rfl, rfl⟩
    (by decide +kernel) hreports

end Cdesktop.StopOperation
