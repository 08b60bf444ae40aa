import Cdesktop.DispatchExits
import Mathlib.Data.List.Dedup

namespace Cdesktop
set_option autoImplicit true
open System Container SessionCommand

def starting : ServiceHistory → Bool
  | [] => false
  | .began .startup _ :: _ => true
  | .began .. :: _ => false
  | _ :: h => starting h

def ended (e : Uuid) : ServiceHistory → Bool
  | [] => false
  | .began .. :: _ => false
  | .acted (.completeRunningAttempt i _ _) _ :: h => i = e ∨ ended e h
  | _ :: h => ended e h

/-- The session of the last dispatch of the running program. -/
def dispatched : ServiceHistory → Option Uuid
  | [] => none
  | .began .. :: _ => none
  | .called (.hasRunningCodingAgentForSession s) _ _ :: _ => some s
  | _ :: h => dispatched h

def dispatchedAt (h : ServiceHistory) : Op → Option Uuid
  | .hasRunningCodingAgentForSession s => some s
  | _ => dispatched h

/-- The running dispatch failed to settle the commands of an execution. -/
def unsettled : ServiceHistory → Bool
  | [] => false
  | .began .. :: _ => false
  | .called (.hasRunningCodingAgentForSession _) _ _ :: _ => false
  | .called (.finishExecution e succeeded) refusal w :: h =>
    unsettled h ∨ ¬ (w.exec (.finishExecution e succeeded) refusal).1.isOk
  | _ :: h => unsettled h

/-- A call of a startup after which everything can still be recovered: it ends no dispatch with a
row of its session unbound, lists every session with an unbound row, finds the host full only when
no row is unbound, and settles the commands of a failed spawn at the second attempt at the latest. -/
def recoverableCall (maxRunning : Nat) (h : ServiceHistory) (op : Op)
    (refusal : Option ContainerError) (w : World) : Prop :=
  (∀ s ∈ dispatchedAt h op, strands s h (.called op refusal w) = true →
      w.commands.any (isUnbound s) = false) ∧
    match op with
    | .pendingSessionIds => ∀ c ∈ w.commands, isUnbound c.sessionId c = true →
        ∃ r ∈ w.commands, isPending c.sessionId r = true
    | .countRunningCodingAgents => phase h = .claimed ∨
        ExecutionProcess.countRunningCodingAgents w.executions < maxRunning ∨
          ∀ c ∈ w.commands, isUnbound c.sessionId c = false
    | .finishExecution e _ => (w.exec op refusal).1.isOk = true ∨ unsettled h = false ∨
        hasClaimedExecution w.commands e = false
    | _ => True

instance recoverableCall.decidable (maxRunning : Nat) (h : ServiceHistory) (op : Op)
    (refusal : Option ContainerError) (w : World) :
    Decidable (recoverableCall maxRunning h op refusal w) := by
  apply Op.casesOn (motive := fun op => Decidable (recoverableCall maxRunning h op refusal w)) op
  all_goals
    intros
    unfold recoverableCall
    infer_instance

/-- A startup begins with every bound command bound to a running execution, makes recoverable calls,
and returns with no command still claimed for an execution that something else has completed. -/
def recoverable (maxRunning : Nat) (h : ServiceHistory) : ServiceEvent → Prop
  | .began .startup w => ∀ c ∈ w.commands, c.state = .claimed → ∀ e ∈ c.executionProcessId,
      ExecutionProcess.isRunning w.executions e = true
  | .called op refusal w => starting h = true → recoverableCall maxRunning h op refusal w
  | .returned .startup (.ok _) w => ∀ c ∈ w.commands, c.state = .claimed →
      ∀ e ∈ c.executionProcessId, ended e h = false
  | _ => True

instance recoverable.decidable (maxRunning : Nat) (h : ServiceHistory) (ev : ServiceEvent) :
    Decidable (recoverable maxRunning h ev) :=
  match ev with
  | .began .startup w => inferInstanceAs (Decidable (∀ c ∈ w.commands, c.state = .claimed →
      ∀ e ∈ c.executionProcessId, ExecutionProcess.isRunning w.executions e = true))
  | .called op refusal w => inferInstanceAs (Decidable (starting h = true →
      recoverableCall maxRunning h op refusal w))
  | .returned .startup (.ok _) w => inferInstanceAs (Decidable (∀ c ∈ w.commands,
      c.state = .claimed → ∀ e ∈ c.executionProcessId, ended e h = false))
  | .began (.dispatchPendingCommands _) _ | .began (.startExecution ..) _ | .acted .. | .crashed ..
  | .returned (.dispatchPendingCommands _) .. | .returned (.startExecution ..) ..
  | .returned .startup (.error _) _ => .isTrue trivial

def ClaimsRun (w : World) : Prop :=
  ∀ c ∈ w.commands, c.state = .claimed →
    ∃ e ∈ c.executionProcessId, ExecutionProcess.isRunning w.executions e = true

instance ClaimsRun.decidable (w : World) : Decidable (ClaimsRun w) :=
  inferInstanceAs (Decidable (∀ c ∈ w.commands, _ → ∃ e ∈ c.executionProcessId, _))

def recovers (_ : ServiceHistory) : ServiceEvent → Prop
  | .returned .startup (.ok _) w => ClaimsRun w
  | _ => True

instance recovers.decidable (h : ServiceHistory) (ev : ServiceEvent) :
    Decidable (recovers h ev) :=
  match ev with
  | .returned .startup (.ok _) w => inferInstanceAs (Decidable (ClaimsRun w))
  | .began .. | .called .. | .acted .. | .crashed .. | .returned (.dispatchPendingCommands _) ..
  | .returned (.startExecution ..) .. | .returned .startup (.error _) _ => .isTrue trivial

structure World.Consistent (w : World) : Prop where
  ids : w.IdsOk
  fk : w.FkOk
  free : w.QueueFree

def recovery (maxRunning : Nat) : ServiceContract where
  ok := recoverable maxRunning
  always h w := w.Consistent ∧ All recovers h
  idle _ _ := True

variable {maxRunning : Nat} {sessionId e : Uuid} {cs : List SessionCommand} {rest : List Uuid}

def Lives (e : Uuid) : ServiceAssertion := fun h w =>
  ExecutionProcess.isRunning w.executions e = true ∨ ended e h = true

def Accounted (waits owes : Uuid → Prop) (c : SessionCommand) : ServiceAssertion := fun h w =>
  match c.executionProcessId with
  | none => waits c.sessionId
  | some e => Lives e h w ∨ owes e

structure Recovering (waits owes : Uuid → Prop) (h : ServiceHistory) (w : World) : Prop where
  starting : starting h = true
  rows : ∀ c ∈ w.commands, c.state = .claimed → Accounted waits owes c h w

theorem isRunning_update {p : ExecutionProcess → Bool} {f : ExecutionProcess → ExecutionProcess}
    {t : List ExecutionProcess} (hp : ∀ q, p q = true → q.id ≠ e)
    (hr : ExecutionProcess.isRunning t e = true) :
    ExecutionProcess.isRunning (Table.update p f t) e = true := by
  obtain ⟨q, hq, hrun⟩ := List.any_eq_true.1 hr
  have hid : q.id = e := (of_decide_eq_true hrun).1
  have hno : p q = false := by
    rw [Bool.eq_false_iff]
    exact fun hyes => hp q hyes hid
  exact List.any_eq_true.2 ⟨q, Table.mem_update_of_false hq hno, hrun⟩

variable {h : ServiceHistory} {w : World} {op : Op} {t : Commands} {refusal : Option ContainerError}
  {p : Phase} {left : List Uuid} {E : ServiceAssertion}

theorem ended_act (a : World.Act) (he : ended e h = true) :
    ended e (.acted a w :: h) = true := by
  cases a with
  | completeRunningAttempt => exact decide_eq_true (.inr he)
  | _ => exact he

theorem Lives.act (hl : Lives e h w) (a : World.Act) :
    Lives e (.acted a w :: h) (w.act a) := by
  rcases hl with hl | hl
  · cases a with
    | completeRunningAttempt i status exitCode =>
      by_cases hi : i = e
      · exact .inr (decide_eq_true (.inl hi))
      · refine .inl (isRunning_update (fun q hq hid => hi ?_) hl)
        exact (of_decide_eq_true hq).1.symm.trans hid
    | enqueue new =>
      simp only [World.act]
      split <;> exact .inl hl
    | _ => exact .inl hl
  · exact .inr (ended_act a hl)

def Op.completes : Op → Option Uuid
  | .updateCompletion e _ => some e
  | .completeRunningAttempt e _ => some e
  | _ => none

theorem Lives.called (hl : Lives e h w)
    (hop : op.completes ≠ some e) (refusal : Option ContainerError) :
    Lives e (.called op refusal w :: h) (w.exec op refusal).2 := by
  rcases hl with hl | hl
  · left
    cases hw : op.writesExecutions with
    | false =>
      rw [World.exec_executions_eq hw]
      exact hl
    | true =>
      rcases w.exec_cases op refusal with ⟨error, -, -, hx⟩ | hx
      · rw [hx]
        exact hl
      · rw [hx]
        cases op with
        | updateCompletion i status =>
          refine isRunning_update (fun q hq hid => hop ?_) hl
          rw [← hid, ← of_decide_eq_true hq]
          rfl
        | completeRunningAttempt i status =>
          refine isRunning_update (fun q hq hid => hop ?_) hl
          rw [← hid, ← (of_decide_eq_true hq).1]
          rfl
        | insertExecution i s runReason =>
          cases hv : (w.perform (.insertExecution i s runReason)).1 with
          | error error =>
            rw [World.insert_error hv]
            exact hl
          | ok v =>
            rw [(World.insert_some hv).2.2]
            obtain ⟨q, hq, hrun⟩ := List.any_eq_true.1 hl
            exact List.any_eq_true.2 ⟨q, List.mem_append_left _ hq, hrun⟩
        | _ => cases hw
  · exact .inr hl

variable {waits waits' owes owes' : Uuid → Prop}

section
variable (hr : Recovering waits owes h w)
include hr

theorem Recovering.step {w' : World} {ev : ServiceEvent} (hstart : Cdesktop.starting (ev :: h) = true)
    (hlives : ∀ e, Lives e h w → Lives e (ev :: h) w' ∨ owes' e)
    (hrows : ∀ c ∈ w'.commands, c.state = .claimed →
      Accounted waits' owes' c (ev :: h) w' ∨
        c ∈ w.commands ∧ (c.executionProcessId = none → waits c.sessionId → waits' c.sessionId) ∧
          ∀ e, c.executionProcessId = some e → owes e → owes' e) :
    Recovering waits' owes' (ev :: h) w' := by
  refine ⟨hstart, fun c hc hst => ?_⟩
  rcases hrows c hc hst with hacc | ⟨hc, hwaits, howes⟩
  · exact hacc
  · have hold := hr.rows c hc hst
    simp only [Accounted] at hold ⊢
    cases he : c.executionProcessId with
    | none =>
      rw [he] at hold
      exact hwaits he hold
    | some e =>
      rw [he] at hold
      rcases hold with hl | ho
      · exact hlives e hl
      · exact .inr (howes e he ho)

theorem Recovering.mono (hwaits : ∀ c ∈ w.commands, isUnbound c.sessionId c = true → waits c.sessionId → waits' c.sessionId)
    (howes : ∀ c ∈ w.commands, ∀ e, isBoundTo e c = true → owes e → owes' e) :
    Recovering waits' owes' h w := by
  refine ⟨hr.starting, fun c hc hst => ?_⟩
  have hold := hr.rows c hc hst
  simp only [Accounted] at hold ⊢
  cases he : c.executionProcessId with
  | none =>
    rw [he] at hold
    exact hwaits c hc (decide_eq_true ⟨rfl, hst, he⟩) hold
  | some e =>
    rw [he] at hold
    exact hold.imp_right (howes c hc e (decide_eq_true ⟨he, hst⟩))

theorem Recovering.act (a : World.Act) : Recovering waits owes (.acted a w :: h) (w.act a) := by
  refine hr.step hr.starting (fun e hl => .inl (hl.act a)) fun c hc hst => ?_
  exact .inr ⟨World.act_claimed hc hst, fun _ hw => hw, fun _ _ ho => ho⟩

theorem Recovering.called (hop : op.writesCommands = false) (hno : op.completes = none) (refusal : Option ContainerError) :
    Recovering waits owes (.called op refusal w :: h) (w.exec op refusal).2 := by
  refine hr.step hr.starting (fun e hl => .inl (hl.called (by rw [hno]; simp) refusal))
    fun c hc hst => ?_
  rw [World.exec_commands_eq hop] at hc
  exact .inr ⟨hc, fun _ hw => hw, fun _ _ ho => ho⟩

theorem Recovering.refused (op : Op)
    (refusal : Option ContainerError) : Recovering waits owes (.called op refusal w :: h) w := by
  refine hr.step hr.starting (fun e hl => .inl hl) fun c hc hst => ?_
  exact .inr ⟨hc, fun _ hw => hw, fun _ _ ho => ho⟩

theorem Recovering.release (refusal : Option ContainerError) :
    Recovering (fun s => waits s ∧ s ≠ sessionId) owes
      (.called (.releaseUnbound sessionId) refusal w :: h)
      (w.perform (.releaseUnbound sessionId)).2 := by
  refine hr.step hr.starting (fun e hl => .inl hl) fun c hc hst => .inr ?_
  rcases Table.mem_update.1 hc with ⟨c₀, -, -, rfl⟩ | ⟨hc, hno⟩
  · cases hst
  · refine ⟨hc, fun hnone hw => ⟨hw, fun hs => ?_⟩, fun _ _ ho => ho⟩
    have hu : isUnbound sessionId c = true := decide_eq_true ⟨hs, hst, hnone⟩
    rw [hno] at hu
    cases hu

theorem Recovering.claim (hw : w.Consistent) (refusal : Option ContainerError) :
    Recovering (fun s => waits s ∨ s = sessionId) owes
      (.called (.claimPending sessionId) refusal w :: h)
      (w.perform (.claimPending sessionId)).2 := by
  refine hr.step hr.starting (fun e hl => .inl hl) fun c hc hst => ?_
  rw [World.perform_commands] at hc
  simp only [World.promptRow, List.append_nil] at hc
  rcases Queue.mem_step.1 hc with ⟨c₀, hc₀, hs, rfl⟩ | ⟨hc, -⟩ | hc
  · left
    simp only [Queue.selects, decide_eq_true_eq] at hs
    obtain ⟨hsession, hpending⟩ := World.claimIds_row hw.ids hc₀ hs.1
    have hnone : c₀.executionProcessId = none := hw.free c₀ hc₀ hpending
    simp only [Accounted, Queue.rewrites, SessionCommand.claim, hnone]
    exact .inr hsession
  · exact .inr ⟨hc, fun _ hw => .inl hw, fun _ _ ho => ho⟩
  · cases hc

theorem Recovering.bind {n : Nat} (hl : Lives e h w) (refusal : Option ContainerError)
    (hbind : bindExecution w.executions w.commands sessionId e = some (t, n)) :
    Recovering (fun s => waits s ∧ s ≠ sessionId) owes
      (.called (.bindExecution sessionId e) refusal w :: h) { w with commands := t } := by
  simp only [bindExecution] at hbind
  split at hbind
  · cases hbind
  obtain ⟨rfl, -⟩ := Prod.mk.injEq .. ▸ Option.some.inj hbind
  refine hr.step hr.starting (fun i hi => .inl hi) fun c hc hst => ?_
  rcases Table.mem_update.1 hc with ⟨c₀, -, -, rfl⟩ | ⟨hc, hno⟩
  · exact .inl (.inl hl)
  · refine .inr ⟨hc, fun hnone hw => ⟨hw, fun hs => ?_⟩, fun _ _ ho => ho⟩
    have hu : isUnbound sessionId c = true := decide_eq_true ⟨hs, hst, hnone⟩
    rw [hno] at hu
    cases hu

theorem Recovering.settled {f : SessionCommand → SessionCommand} (hf : ∀ c, (f c).state ≠ .claimed) :
    Recovering waits (fun i => owes i ∧ i ≠ e) (.called op refusal w :: h)
      { w with commands := Table.update (isBoundTo e) f w.commands } := by
  refine hr.step hr.starting (fun i hi => .inl hi) fun c hc hst => .inr ?_
  rcases Table.mem_update.1 hc with ⟨c₀, -, -, rfl⟩ | ⟨hc, hno⟩
  · exact absurd hst (hf c₀)
  · refine ⟨hc, fun _ hw => hw, fun i hi ho => ⟨ho, ?_⟩⟩
    rintro rfl
    have hb : isBoundTo i c = true := decide_eq_true ⟨hi, hst⟩
    rw [hno] at hb
    cases hb

theorem Recovering.requeue (hw : w.Consistent) (refusal : Option ContainerError) :
    Recovering waits (fun i => owes i ∧ i ≠ e) (.called (.requeueKilledExecution e) refusal w :: h)
      (w.perform (.requeueKilledExecution e)).2 := by
  refine hr.step hr.starting (fun i hi => .inl hi) fun c hc hst => ?_
  rcases Table.mem_update.1 hc with ⟨c₀, -, -, rfl⟩ | ⟨hc, hno⟩
  · cases hst
  · by_cases he : c.executionProcessId = some e
    · left
      simp only [Accounted, he]
      refine .inl (.inl ?_)
      obtain ⟨p, hp, hid⟩ := hw.fk c hc e he
      have hterminal : ExecutionProcess.isTerminal w.executions e = false := by
        rw [Bool.eq_false_iff]
        intro hterminal
        have hyes : requeueable w.executions e c = true :=
          decide_eq_true ⟨he, .inl hst, hterminal⟩
        rw [hno] at hyes
        cases hyes
      have hp' := List.any_eq_false.1 hterminal p hp
      simp only [hid, true_and, ne_eq, decide_not, Bool.not_eq_true', decide_eq_false_iff_not,
        Decidable.not_not] at hp'
      exact List.any_eq_true.2 ⟨p, hp, decide_eq_true ⟨hid, hp'⟩⟩
    · refine .inr ⟨hc, fun _ hw => hw, fun i hi ho => ⟨ho, ?_⟩⟩
      rintro rfl
      exact he hi

theorem Recovering.complete (hop : op.writesCommands = false) (hcompletes : op.completes = some e)
    (refusal : Option ContainerError) :
    Recovering waits (fun i => owes i ∨ i = e) (.called op refusal w :: h) (w.exec op refusal).2 := by
  refine hr.step hr.starting (fun i hl => ?_) fun c hc hst => .inr ?_
  · by_cases hi : i = e
    · exact .inr (.inr hi)
    · refine .inl (hl.called ?_ refusal)
      rw [hcompletes]
      exact fun hsame => hi (Option.some.inj hsame).symm
  · rw [World.exec_commands_eq hop] at hc
    exact ⟨hc, fun _ hw => hw, fun _ _ ho => .inl ho⟩

end

theorem World.Consistent.of_nil (hw : w.commands = []) : w.Consistent := by
  refine ⟨⟨?_, ?_⟩, ?_, ?_⟩
  · rw [hw]
    exact List.nodup_nil
  all_goals
    intro c hc
    rw [hw] at hc
    cases hc

theorem World.Consistent.act (hw : w.Consistent) (a : World.Act) :
    (w.act a).Consistent :=
  ⟨hw.ids.act a, hw.fk.act a, hw.free.act a⟩

theorem World.Consistent.exec (hw : w.Consistent) (op : Op)
    (refusal : Option ContainerError) : (w.exec op refusal).2.Consistent :=
  ⟨hw.ids.exec op refusal, hw.fk.exec op refusal, hw.free.exec op refusal⟩

theorem recovery_called (hj : (recovery maxRunning).always h w)
    (op : Op) (refusal : Option ContainerError) :
    (recovery maxRunning).always (.called op refusal w :: h) (w.exec op refusal).2 :=
  ⟨hj.1.exec op refusal, trivial, hj.2⟩

def Left (rest : List Uuid) : ServiceAssertion := Recovering (· ∈ rest) fun _ => False

theorem stable_recovering :
    (container maxRunning).Stable (recovery maxRunning) (Recovering waits owes) :=
  fun _ _ a _ _ hr => hr.act a

theorem Left.drop (hr : Left (sessionId :: rest) h w)
    (hno : w.commands.any (isUnbound sessionId) = false) : Left rest h w := by
  refine Recovering.mono hr (fun c hc hu hs => ?_) fun _ _ _ _ ho => ho
  rcases List.mem_cons.1 hs with hs | hs
  · rw [hs] at hu
    exact absurd hu (List.any_eq_false.1 hno c hc)
  · exact hs

structure Reached (p : Phase) (sessionId : Uuid) (left : List Uuid) (h : ServiceHistory)
    (w : World) : Prop where
  phase : phase h = p
  session : dispatched h = some sessionId
  left : Left left h w

theorem stable_reached :
    (container maxRunning).Stable (recovery maxRunning) (Reached p sessionId left) :=
  fun _ _ a _ _ hr => ⟨hr.phase, hr.session, hr.left.act a⟩

theorem dispatched_called (hop : ∀ s, op ≠ .hasRunningCodingAgentForSession s)
    (refusal : Option ContainerError) (w : World) (h : ServiceHistory) :
    dispatched (.called op refusal w :: h) = dispatched h := by
  cases op with
  | hasRunningCodingAgentForSession s => exact absurd rfl (hop s)
  | _ => rfl

theorem dispatchedAt_of (hop : ∀ s, op ≠ .hasRunningCodingAgentForSession s)
    (h : ServiceHistory) : dispatchedAt h op = dispatched h := by
  cases op with
  | hasRunningCodingAgentForSession s => exact absurd rfl (hop s)
  | _ => rfl

theorem Reached.called (hr : Reached p sessionId left h w) (hop : op.writesCommands = false)
    (hno : op.completes = none) (hop' : ∀ s, op ≠ .hasRunningCodingAgentForSession s)
    (refusal : Option ContainerError) :
    Reached p sessionId left (.called op refusal w :: h) (w.exec op refusal).2 :=
  ⟨(phase_called hop hop' refusal w h).trans hr.phase,
    (dispatched_called hop' refusal w h).trans hr.session, Recovering.called hr.left hop hno refusal⟩

theorem reached_effect (hop : op.writesCommands = false)
    (hno : op.completes = none) (hop' : ∀ s, op ≠ .hasRunningCodingAgentForSession s) :
    (container maxRunning).Effect (recovery maxRunning) (Reached p sessionId left) op
      (fun _ => Reached p sessionId left) (fun _ => Reached p sessionId left) := by
  intro h w refusal hr hj _
  refine ⟨recovery_called hj op refusal, ?_⟩
  have hr' := hr.called hop hno hop' refusal
  change Ends _ _ (w.exec op refusal).1 _ (w.exec op refusal).2
  cases (w.exec op refusal).1 <;> exact hr'

/-- The dispatch of a session is over, with nothing of it left. -/
def Done (rest : List Uuid) : ServiceAssertion := fun h w => phase h ≠ .claimed ∧ Left rest h w

def Took (sessionId : Uuid) (rest : List Uuid) (cs : List SessionCommand) : ServiceAssertion :=
  fun h w => Reached .claimed sessionId (sessionId :: rest) h w ∧ claimed h = cs

theorem Left.stranding
    (hr : Left (sessionId :: rest) h w) (hok : recoverable maxRunning h (.called op refusal w))
    (hs : dispatchedAt h op = some sessionId)
    (hstrands : strands sessionId h (.called op refusal w) = true ∨
      w.commands.any (isUnbound sessionId) = false) : Left rest h w := by
  apply hr.drop
  rcases hstrands with hstrands | hno
  · exact (hok hr.starting).1 sessionId hs hstrands
  · exact hno

theorem left_halts {A : ServiceAssertion} (hop : op.writesCommands = false)
    (hno : op.completes = none) (hleft : ∀ h w, A h w → Left (sessionId :: rest) h w)
    (hat : ∀ h w, A h w → phaseAt h op = .opening ∧ dispatchedAt h op = some sessionId)
    (hphase : ∀ h w refusal, A h w → phase (.called op refusal w :: h) = .opening ∧
      dispatched (.called op refusal w :: h) = some sessionId) :
    Halts (recovery maxRunning) A op (Reached .opening sessionId (sessionId :: rest))
      (Done rest) (Left rest) := by
  intro h w refusal ha hj hok
  refine ⟨recovery_called hj op refusal, ?_⟩
  obtain ⟨hopening, hsession⟩ := hat h w ha
  obtain ⟨hphase, hdispatched⟩ := hphase h w refusal ha
  have hdone (hend : (w.exec op refusal).1.isOk = false ∨ stops w op = true) :
      Left rest (.called op refusal w :: h) (w.exec op refusal).2 := by
    have hdrop : Left rest h w := by
      apply (hleft h w ha).stranding hok hsession
      rw [strands_opening hopening hend]
      exact Bool.eq_false_or_eq_true _
    exact Recovering.called hdrop hop hno refusal
  split
  · rename_i hfail
    exact hdone (.inl hfail)
  · split
    · rename_i hstop
      exact ⟨by rw [hphase]; simp, hdone (.inr hstop)⟩
    · exact ⟨hphase, hdispatched, Recovering.called (hleft h w ha) hop hno refusal⟩

theorem opening_halts_left (hop : op.writesCommands = false) (hno : op.completes = none)
    (hop' : ∀ s, op ≠ .hasRunningCodingAgentForSession s) :
    Halts (recovery maxRunning) (Reached .opening sessionId (sessionId :: rest)) op
      (Reached .opening sessionId (sessionId :: rest))
      (Done rest) (Left rest) :=
  left_halts hop hno (fun _ _ hr => hr.left)
    (fun h _ hr => ⟨(phaseAt_of hop' h).trans hr.phase, (dispatchedAt_of hop' h).trans hr.session⟩)
    fun h w refusal hr => ⟨(phase_called hop hop' refusal w h).trans hr.phase,
      (dispatched_called hop' refusal w h).trans hr.session⟩

theorem reached_release :
    (container maxRunning).Effect (recovery maxRunning)
      (Reached .opening sessionId (sessionId :: rest)) (.releaseUnbound sessionId)
      (fun _ => Reached .released sessionId rest) (fun _ => Left rest) := by
  refine effect_intro (fun hj _ => recovery_called hj _) ?_ ?_
  · intro h w error hr _ hrefused hok
    have hfail : (w.exec (.releaseUnbound sessionId) (some error)).1.isOk = false := by
      rw [World.exec_refused hrefused]
      rfl
    have hat : phaseAt h (.releaseUnbound sessionId) = .opening := hr.phase
    have hdrop : Left rest h w := by
      apply hr.left.stranding hok hr.session
      rw [strands_opening hat (.inl hfail)]
      exact Bool.eq_false_or_eq_true _
    exact Recovering.refused hdrop _ _
  · intro h w refusal hr _ _ hx
    refine ⟨?_, hr.session, ?_⟩
    · simp only [phase, phaseBy, hx, hr.phase]
      rfl
    · refine (Recovering.release hr.left refusal).mono (fun c _ _ hs => ?_) fun _ _ _ _ ho => ho
      exact (List.mem_cons.1 hs.1).resolve_left hs.2

theorem claimPending_none (hnil : (claimPending t sessionId).2 = []) :
    (claimPending t sessionId).1 = t ∨
      (claimPending t sessionId).1.any (isUnbound sessionId) = false := by
  simp only [claimPending] at hnil ⊢
  split
  · exact .inl rfl
  · rename_i hany
    rw [if_neg hany] at hnil
    split
    · exact .inl rfl
    · rename_i hpending
      rw [hpending] at hnil
      right
      rw [List.any_eq_false]
      exact fun c hc hu => List.filter_eq_nil_iff.1 hnil c hc hu

theorem reached_claim :
    (container maxRunning).Effect (recovery maxRunning) (Reached .released sessionId rest)
      (.claimPending sessionId)
      (fun cs => if cs = [] then Done rest else Took sessionId rest cs) (fun _ => Left rest) := by
  refine effect_intro (fun hj _ => recovery_called hj _)
    (fun h w e hr _ _ _ => Recovering.refused hr.left _ _) fun h w refusal hr hj _ hx => ?_
  change (if (claimPending w.commands sessionId).2 = [] then Done rest
    else Took sessionId rest (claimPending w.commands sessionId).2) _ _
  have hanswer : (w.exec (.claimPending sessionId) refusal).1 =
      .ok (claimPending w.commands sessionId).2 := by
    rw [hx]
    rfl
  have hclaim : Left (sessionId :: rest) (.called (.claimPending sessionId) refusal w :: h)
      (w.perform (.claimPending sessionId)).2 := by
    refine (Recovering.claim hr.left hj.1 refusal).mono (fun c _ _ hs => ?_) fun _ _ _ _ ho => ho
    rcases hs with hs | hs
    · exact List.mem_cons_of_mem _ hs
    · exact List.mem_cons.2 (.inl hs)
  split
  · rename_i hnil
    refine ⟨?_, ?_⟩
    · simp only [phase, phaseBy, hanswer, hnil, hr.phase]
      simp
    · rcases claimPending_none hnil with hsame | hno
      · refine Recovering.step hr.left hr.left.starting (fun e hl => .inl hl) fun c hc hst => ?_
        refine .inr ⟨?_, fun _ hw => hw, fun _ _ ho => ho⟩
        rw [← hsame]
        exact hc
      · exact hclaim.drop hno
  · rename_i hne
    obtain ⟨c, l, hcs⟩ := List.exists_cons_of_ne_nil hne
    refine ⟨⟨?_, hr.session, hclaim⟩, ?_⟩
    · simp only [phase, phaseBy, hanswer, hcs]
    · simp only [Cdesktop.claimed, claimedBy, hanswer]

theorem reached_clears {A : ServiceAssertion} (hop : op.writesCommands = false)
    (hno : op.completes = none) (hop' : ∀ s, op ≠ .hasRunningCodingAgentForSession s)
    (hA : ∀ h w, A h w → Reached .claimed sessionId (sessionId :: rest) h w)
    (hE : ∀ h w, Left rest h w → E h w)
    (hnext : ∀ h w refusal, A h w → (recovery maxRunning).always h w →
      A (.called op refusal w :: h) (w.exec op refusal).2) :
    Clears (recovery maxRunning) A op A E := by
  intro h w refusal ha hj hok
  refine ⟨recovery_called hj op refusal, ?_⟩
  have hr := hA h w ha
  split
  · rename_i ho
    have hdrop : Left rest h w := by
      apply hr.left.stranding hok ((dispatchedAt_of hop' h).trans hr.session)
      rw [strands_claimed hr.phase hop']
      exact .inl ho
    exact hE _ _ (Recovering.called hdrop hop hno refusal)
  · exact hnext h w refusal ha hj

theorem stable_took : (container maxRunning).Stable (recovery maxRunning) (Took sessionId rest cs) :=
  fun h w a hok hj ht => ⟨stable_reached h w a hok hj ht.1, ht.2⟩

theorem took_clears (hop : op.writesCommands = false)
    (hno : op.completes = none) (hop' : ∀ s, op ≠ .hasRunningCodingAgentForSession s)
    (hE : ∀ h w, Left rest h w → E h w) :
    Clears (recovery maxRunning) (Took sessionId rest cs) op (Took sessionId rest cs) E := by
  refine reached_clears hop hno hop' (fun _ _ ht => ht.1) hE fun h w refusal ht _ =>
    ⟨ht.1.called hop hno hop' refusal, ?_⟩
  rw [claimed_called, ht.2]
  rintro s rfl
  cases hop

theorem Op.completes_reads (h : op.reads = true) : op.completes = none := by
  cases op <;> first | rfl | cases h

theorem took_reads (hop : op.reads = true) (hE : ∀ h w, Left rest h w → E h w) :
    Clears (recovery maxRunning) (Took sessionId rest cs) op (Took sessionId rest cs) E :=
  took_clears (Op.reads_writes hop).1 (Op.completes_reads hop) (not_running (.inl hop)) hE

theorem Reached.failed
    {error : ContainerError} (hr : Reached .claimed sessionId (sessionId :: rest) h w)
    (hok : recoverable maxRunning h (.called op refusal w))
    (hop : ∀ s, op ≠ .hasRunningCodingAgentForSession s)
    (hx : w.exec op refusal = (.error error, w)) : Left rest (.called op refusal w :: h) w := by
  have hdrop : Left rest h w := by
    apply hr.left.stranding hok ((dispatchedAt_of hop h).trans hr.session)
    rw [strands_claimed hr.phase hop, obstructs_error (congrArg Prod.fst hx)]
    exact .inl rfl
  exact Recovering.refused hdrop _ _

theorem took_putBack :
    (container maxRunning).Effect (recovery maxRunning) (Took sessionId rest cs)
      (.releaseUnbound sessionId) (fun _ => Done rest) (fun _ => Left rest) := by
  refine effect_intro (fun hj _ => recovery_called hj _) ?_ ?_
  · intro h w error ht _ hrefused hok
    exact ht.1.failed hok (by simp) (by rw [World.exec_some, if_pos hrefused])
  · intro h w refusal ht _ _ hx
    refine ⟨?_, ?_⟩
    · simp only [phase, phaseBy, hx, ht.1.phase, World.perform, Except.isOk, Except.toBool]
      simp
    · refine (Recovering.release ht.1.left refusal).mono (fun c _ _ hs => ?_) fun _ _ _ _ ho => ho
      exact (List.mem_cons.1 hs.1).resolve_left hs.2

def Raised (e sessionId : Uuid) (rest : List Uuid) : ServiceAssertion := fun h w =>
  Reached .claimed sessionId (sessionId :: rest) h w ∧ Lives e h w ∧
    ∀ c ∈ w.commands, c.executionProcessId ≠ some e

theorem stable_raised :
    (container maxRunning).Stable (recovery maxRunning) (Raised e sessionId rest) := by
  intro h w a hok hj hr
  refine ⟨stable_reached h w a hok hj hr.1, hr.2.1.act a, fun c hc he => ?_⟩
  obtain ⟨c₀, hc₀, he₀⟩ := World.act_stamp hc he
  exact hr.2.2 c₀ hc₀ he₀

theorem raised_clears (hop : op.reads = true) (hE : ∀ h w, Left rest h w → E h w) :
    Clears (recovery maxRunning) (Raised e sessionId rest) op (Raised e sessionId rest) E := by
  have hw := (Op.reads_writes hop).1
  have hno := Op.completes_reads hop
  have hop' := not_running (.inl hop)
  refine reached_clears hw hno hop' (fun _ _ hr => hr.1) hE fun h w refusal hr _ => ?_
  refine ⟨hr.1.called hw hno hop' refusal, hr.2.1.called (by rw [hno]; simp) refusal, ?_⟩
  rw [World.exec_commands_eq hw]
  exact hr.2.2

theorem took_insert {s : Uuid} {runReason : ExecutionProcessRunReason}
    (hE : ∀ h w, Left rest h w → E h w) :
    Clears (recovery maxRunning) (Took sessionId rest cs) (.insertExecution e s runReason)
      (Raised e sessionId rest) E := by
  intro h w refusal ht hj hok
  refine ⟨recovery_called hj _ refusal, ?_⟩
  rcases w.exec_cases (.insertExecution e s runReason) refusal with ⟨error, -, -, hx⟩ | hx
  · rw [if_pos (obstructs_error (congrArg Prod.fst hx)), hx]
    exact hE _ _ (ht.1.failed hok (by simp) hx)
  · cases hv : (w.perform (.insertExecution e s runReason)).1 with
    | error error =>
      have hx' : w.exec (.insertExecution e s runReason) refusal = (.error error, w) := by
        rw [hx]
        exact Prod.ext hv (World.insert_error hv)
      rw [if_pos (obstructs_error (congrArg Prod.fst hx')), hx']
      exact hE _ _ (ht.1.failed hok (by simp) hx')
    | ok v =>
      rw [if_neg (by rw [not_obstructs (by rw [hx, hv]) rfl]; exact Bool.false_ne_true)]
      refine ⟨ht.1.called rfl rfl (by simp) refusal, .inl ?_, ?_⟩
      · rw [hx, (World.insert_some hv).2.2]
        refine List.any_eq_true.2 ⟨w.runningRow e s runReason, ?_, decide_eq_true ⟨rfl, rfl⟩⟩
        exact List.mem_append_right _ List.mem_cons_self
      · rw [World.exec_commands_eq rfl]
        exact fun c hc he => (World.insert_some hv).1 (hj.1.fk c hc e he)

def Emptied (e : Uuid) (rest : List Uuid) : ServiceAssertion := fun h w =>
  Left rest h w ∧ ∀ c ∈ w.commands, isBoundTo e c = false

def Lost (e : Uuid) (rest : List Uuid) : ServiceAssertion := fun h w =>
  Left rest h w ∨ Recovering (· ∈ rest) (· = e) h w ∧ unsettled h = true

theorem stable_emptied :
    (container maxRunning).Stable (recovery maxRunning) (Emptied e rest) := by
  intro h w a _ _ hr
  refine ⟨hr.1.act a, fun c hc => ?_⟩
  rw [Bool.eq_false_iff]
  intro hb
  have hst : c.state = .claimed := (of_decide_eq_true hb).2
  exact Bool.false_ne_true ((hr.2 c (World.act_claimed hc hst)).symm.trans hb)

theorem stable_lost : (container maxRunning).Stable (recovery maxRunning) (Lost e rest) :=
  fun _ _ a _ _ hl => hl.imp (fun hr => hr.act a) fun hr => ⟨hr.1.act a, hr.2⟩

theorem bindExecution_zero {n : Nat}
    (hbind : bindExecution w.executions w.commands sessionId e = some (t, n)) (hn : n = 0)
    (hno : ∀ c ∈ w.commands, c.executionProcessId ≠ some e) : ∀ c ∈ t, isBoundTo e c = false := by
  simp only [bindExecution] at hbind
  split at hbind
  · cases hbind
  obtain ⟨rfl, rfl⟩ := Prod.mk.injEq .. ▸ Option.some.inj hbind
  intro c hc
  rw [Bool.eq_false_iff]
  intro hb
  rcases Table.mem_update.1 hc with ⟨c₀, hc₀, hu, -⟩ | ⟨hc, -⟩
  · exact List.countP_eq_zero.1 hn c₀ hc₀ hu
  · exact hno c hc (of_decide_eq_true hb).1

theorem raised_bind :
    (container maxRunning).Effect (recovery maxRunning) (Raised e sessionId rest)
      (.bindExecution sessionId e)
      (fun n => if n = 0 then Emptied e rest else Reached .settled sessionId rest)
      (fun _ => Lost e rest) := by
  refine effect_intro (fun hj _ => recovery_called hj _) ?_ ?_
  · intro h w error hr _ hrefused hok
    exact .inl (hr.1.failed hok (by simp) (by rw [World.exec_some, if_pos hrefused]))
  · intro h w refusal hr _ hok hx
    cases hbind : bindExecution w.executions w.commands sessionId e with
    | none =>
      have hp : w.perform (.bindExecution sessionId e) = (.error .sqlx, w) := by
        simp only [World.perform, hbind]
      rw [hp]
      exact .inl (hr.1.failed hok (by simp) (hx.trans hp))
    | some r =>
      obtain ⟨t, n⟩ := r
      have hp : w.perform (.bindExecution sessionId e) = (.ok n, { w with commands := t }) := by
        simp only [World.perform, hbind]
      have hleft : Left rest (.called (.bindExecution sessionId e) refusal w :: h)
          { w with commands := t } := by
        refine (Recovering.bind hr.1.left hr.2.1 refusal hbind).mono (fun c _ _ hs => ?_)
          fun _ _ _ _ ho => ho
        exact (List.mem_cons.1 hs.1).resolve_left hs.2
      rw [hp]
      change (if n = 0 then Emptied e rest else Reached .settled sessionId rest) _ _
      split
      · rename_i hn
        exact ⟨hleft, bindExecution_zero hbind hn hr.2.2⟩
      · refine ⟨?_, hr.1.session, hleft⟩
        simp only [phase, phaseBy, hx, hp]
        rfl

theorem complete_effect (hop : op.writesCommands = false) (hcompletes : op.completes = some e) :
    (container maxRunning).Effect (recovery maxRunning) (Recovering waits owes) op
      (fun _ => Recovering waits (fun i => owes i ∨ i = e))
      (fun _ => Recovering waits (fun i => owes i ∨ i = e)) := by
  intro h w refusal hr hj _
  refine ⟨recovery_called hj op refusal, ?_⟩
  have hr' := Recovering.complete hr hop hcompletes refusal
  change Ends _ _ (w.exec op refusal).1 _ (w.exec op refusal).2
  cases (w.exec op refusal).1 <;> exact hr'

theorem emptied_fail :
    (container maxRunning).Effect (recovery maxRunning) (Emptied e rest)
      (.updateCompletion e .failed) (fun _ => Lost e rest) (fun _ => Lost e rest) := by
  intro h w refusal hr hj hok
  obtain ⟨hj', -⟩ := complete_effect rfl rfl h w refusal hr.1 hj hok
  refine ⟨hj', ?_⟩
  have hleft : Left rest (.called (.updateCompletion e .failed) refusal w :: h)
      (w.exec (.updateCompletion e .failed) refusal).2 := by
    refine (Recovering.complete hr.1 rfl rfl refusal).mono (fun _ _ _ hs => hs) ?_
    intro c hc i hb ho
    rw [World.exec_commands_eq rfl] at hc
    obtain rfl := ho.resolve_left id
    exact Bool.false_ne_true ((hr.2 c hc).symm.trans hb)
  change Ends _ _ (w.exec (.updateCompletion e .failed) refusal).1 _
    (w.exec (.updateCompletion e .failed) refusal).2
  cases (w.exec (.updateCompletion e .failed) refusal).1 <;> exact .inl hleft

theorem finish_claimed (succeeded : Bool) (now : Time) (c : SessionCommand) :
    (finish succeeded now c).state ≠ .claimed := by
  cases succeeded <;> simp [finish]

theorem owing_finish (succeeded : Bool) :
    (container maxRunning).Effect (recovery maxRunning)
      (Recovering (· ∈ rest) fun i => False ∨ i = e) (.finishExecution e succeeded)
      (fun _ => Lost e rest) (fun _ => Lost e rest) := by
  refine effect_intro (fun hj _ => recovery_called hj _) ?_ ?_
  · intro h w error hr _ hrefused _
    refine .inr ⟨(Recovering.refused hr _ _).mono (fun _ _ _ hs => hs) ?_, ?_⟩
    · exact fun _ _ _ _ ho => ho.resolve_left id
    · refine decide_eq_true (.inr ?_)
      rw [World.exec_refused hrefused]
      exact Bool.false_ne_true
  · intro h w refusal hr _ _ _
    refine .inl ((Recovering.settled hr (finish_claimed succeeded w.now)).mono
      (fun _ _ _ hs => hs) fun _ _ _ _ ho => ?_)
    exact ho.2 (ho.1.resolve_left id)

theorem lost_finish :
    (container maxRunning).Effect (recovery maxRunning) (Lost e rest) (.finishExecution e false)
      (fun _ => Left rest) (fun _ => Left rest) := by
  refine effect_intro (fun hj _ => recovery_called hj _) ?_ ?_
  · intro h w error hl _ hrefused hok
    rcases hl with hr | ⟨hr, hun⟩
    · exact Recovering.refused hr _ _
    · refine (Recovering.refused hr _ _).mono (fun _ _ _ hs => hs) fun c hc i hb ho => ?_
      rcases (hok hr.starting).2 with hx | hx | hx
      · rw [World.exec_refused hrefused] at hx
        cases hx
      · rw [hun] at hx
        cases hx
      · obtain rfl := ho
        exact List.any_eq_false.1 hx c hc hb
  · intro h w refusal hl _ _ _
    rcases hl with hr | ⟨hr, -⟩
    · exact (Recovering.settled hr (finish_claimed false w.now)).mono (fun _ _ _ hs => hs)
        fun _ _ _ _ ho => ho.1
    · exact (Recovering.settled hr (finish_claimed false w.now)).mono (fun _ _ _ hs => hs)
        fun _ _ _ _ ho => ho.2 ho.1

theorem reached_spawn (action : ExecutorAction) :
    (container maxRunning).Triple (recovery maxRunning) (Reached .settled sessionId rest)
      (spawnChild e action) (fun _ => Done rest)
      (fun error h w => Lost e rest h w ∧ error ≠ .codingAgentCapacity) := by
  refine .bind (B := launchedOr (Reached .settled sessionId rest))
    (.attempt (.perform stable_reached (effect_error (reached_effect rfl rfl (by simp)))))
    fun outcome => ?_
  cases outcome with
  | ok => exact .pure fun _ _ hr => ⟨by rw [hr.phase]; simp, hr.left⟩
  | error startError =>
    intro h w herror
    have hsettle : (container maxRunning).Triple (recovery maxRunning) (Left rest)
        ((call (.completeRunningAttempt e .failed)).attempt.bind fun _ =>
          (call (.finishExecution e false)).attempt.bind fun _ =>
            (.throw startError : Task Unit)) (fun _ => Done rest)
        (fun error h w => Lost e rest h w ∧ error ≠ .codingAgentCapacity) := by
      refine .bind (.attempt (C := fun _ => Recovering (· ∈ rest) fun i => False ∨ i = e)
        (.perform stable_recovering (complete_effect rfl rfl))) fun _ => ?_
      refine .bind (.attempt (C := fun _ => Lost e rest)
        (.perform stable_recovering (owing_finish false))) fun _ => ?_
      exact .throw fun _ _ hl => ⟨hl, herror.2⟩
    exact hsettle h w herror.1.left

theorem done_reads (hop : op.reads = true) :
    (container maxRunning).Effect (recovery maxRunning) (Done rest) op (fun _ => Done rest)
      (fun _ => Done rest) := by
  intro h w refusal hd hj _
  refine ⟨recovery_called hj op refusal, ?_⟩
  have hd' : Done rest (.called op refusal w :: h) (w.exec op refusal).2 := by
    refine ⟨?_, Recovering.called hd.2 (Op.reads_writes hop).1 (Op.completes_reads hop) refusal⟩
    rw [phase_called (Op.reads_writes hop).1 (not_running (.inl hop))]
    exact hd.1
  change Ends _ _ (w.exec op refusal).1 _ (w.exec op refusal).2
  cases (w.exec op refusal).1 <;> exact hd'

theorem stable_done : (container maxRunning).Stable (recovery maxRunning) (Done rest) :=
  fun _ _ a _ _ hd => ⟨hd.1, hd.2.act a⟩

theorem entering_running :
    (container maxRunning).Effect (recovery maxRunning) (Left (sessionId :: rest))
      (.hasRunningCodingAgentForSession sessionId)
      (fun v => if v = true then Done rest else Reached .opening sessionId (sessionId :: rest))
      (fun _ => Left rest) := by
  have hhalts : Halts (recovery maxRunning) (Left (sessionId :: rest))
      (.hasRunningCodingAgentForSession sessionId)
      (Reached .opening sessionId (sessionId :: rest)) (Done rest) (Left rest) :=
    left_halts rfl rfl (fun _ _ hl => hl) (fun _ _ _ => ⟨rfl, rfl⟩) fun _ _ _ _ => ⟨rfl, rfl⟩
  exact hhalts.effect (b := fun v => v) fun _ _ hv => Except.ok.inj hv

def recoveryOutline (maxRunning : Nat) (sessionId : Uuid) (rest : List Uuid) :
    Outline (recovery maxRunning) maxRunning sessionId where
  entering := Left (sessionId :: rest)
  opening := Reached .opening sessionId (sessionId :: rest)
  released := Reached .released sessionId rest
  drawn _ := Reached .released sessionId rest
  claimed _ := Took sessionId rest
  authorized _ := Took sessionId rest
  held _ := Took sessionId rest
  ready _ := Took sessionId rest
  admitted _ := Took sessionId rest
  full _ := Took sessionId rest
  created e _ := Raised e sessionId rest
  emptied e := Emptied e rest
  bound _ _ := Reached .settled sessionId rest
  lost e := Lost e rest
  isOver := Done rest
  failed := Left rest
  stable_entering := stable_recovering
  stable_opening := stable_reached
  stable_released := stable_reached
  stable_drawn _ := stable_reached
  stable_held _ _ := stable_took
  stable_ready _ _ := stable_took
  stable_full _ _ := stable_took
  stable_created _ _ := stable_raised
  stable_emptied _ := stable_emptied
  stable_bound _ _ := stable_reached
  stable_lost _ := stable_lost
  stable_over := stable_done
  running := entering_running
  headGate := headGate_halts stable_reached sessionId (opening_halts_left rfl rfl (by simp))
    fun op hop => opening_halts_left (by cases op <;> first | rfl | cases hop)
      (by cases op <;> first | rfl | cases hop) (by rintro s rfl; cases hop)
  release := reached_release
  draw := (reached_effect rfl rfl (by simp)).mono (fun _ _ _ hr => hr) fun _ _ _ hr => hr.left
  claim _ := reached_claim
  gate _ first rest' := (gate_keeps stable_took first fun op hop =>
    (took_clears (by cases op <;> first | rfl | cases hop)
      (by cases op <;> first | rfl | cases hop) (by rintro s rfl; cases hop)
      fun _ _ hl => hl).effect fun _ _ => by cases op <;> first | rfl | cases hop).consequence
        (fun _ _ h => h) (fun _ _ _ h => by rw [ite_self]; exact h) fun _ _ _ h => h
  record e first rest' := (recordLaunch_keeps stable_took first e fun op hop =>
    (took_clears (by cases op <;> first | rfl | cases hop)
      (by cases op <;> first | rfl | cases hop) (by rintro s rfl; cases hop)
      fun _ _ hl => hl).effect fun _ _ => by cases op <;> first | rfl | cases hop).consequence
        (fun _ _ h => h) (fun _ _ _ h => by rw [ite_self]; exact h) fun _ _ _ h => h
  putBack _ _ := took_putBack
  prepare _ first rest' := prepareLaunch_clears stable_took sessionId first rest' _
    (fun _ _ ht => ht.2) fun _ hop _ => took_reads hop fun _ _ hl => .inl hl
  admission _ _ := ((took_reads rfl fun _ _ hl => .inl hl).effect fun _ _ => rfl).mono
    (fun _ _ _ h => by rw [ite_self]; exact h) fun _ _ _ h => h
  putBackFull _ _ := took_putBack
  create e cs workspace session _ := createExecution_clears stable_took stable_raised workspace
    session .codingAgent e (fun _ hop => took_reads hop fun _ _ hl => .inl hl)
    (took_insert fun _ _ hl => .inl hl) fun _ hop => raised_clears hop fun _ _ hl => .inl hl
  bind _ _ := raised_bind
  fail _ := emptied_fail
  bound_reads _ _ _ hop _ := reached_effect (Op.reads_writes hop).1 (Op.completes_reads hop)
    (not_running (.inl hop))
  bound_lost _ _ _ _ hr := .inl hr.left
  spawn _ _ action _ _ := reached_spawn action
  over_reads _ hop _ := done_reads hop
  over_lost _ _ _ hd := .inl hd.2
  lose _ := lost_finish

theorem done_count :
    (container maxRunning).Effect (recovery maxRunning) (Done rest) .countRunningCodingAgents
      (fun n => if maxRunning ≤ n then Left [] else Left rest) (fun _ _ _ => True) := by
  refine effect_ok (fun hj _ => recovery_called hj _)
    fun h w refusal v hd hj hok hx hv => ?_
  obtain rfl : ExecutionProcess.countRunningCodingAgents w.executions = v := Except.ok.inj hv
  have hleft : Left rest (.called .countRunningCodingAgents refusal w :: h) w :=
    Recovering.refused hd.2 _ _
  change (if maxRunning ≤ ExecutionProcess.countRunningCodingAgents w.executions then Left []
    else Left rest) _ w
  split
  · rename_i hfull
    refine Recovering.mono hleft (fun c hc hu _ => ?_) fun _ _ _ _ ho => ho
    rcases (hok hd.2.starting).2 with hp | hlt | hno
    · exact absurd hp hd.1
    · exact absurd hlt (Nat.not_lt.2 hfull)
    · exact absurd ((hno c hc).symm.trans hu) Bool.false_ne_true
  · exact hleft

def Scanning : ServiceAssertion := Recovering (fun _ => True) fun _ => False

theorem mem_pendingSessionIds {c : SessionCommand} (hc : c ∈ t) {s : Uuid}
    (hp : isPending s c = true) : s ∈ pendingSessionIds t := by
  obtain ⟨hs, hst⟩ := of_decide_eq_true hp
  simp only [pendingSessionIds, List.mem_reverse, List.mem_dedup, List.mem_map, List.mem_filter]
  exact ⟨c, ⟨hc, decide_eq_true hst⟩, hs⟩

theorem scanning_sessions :
    (container maxRunning).Effect (recovery maxRunning) Scanning .pendingSessionIds Left
      (fun _ _ _ => True) := by
  refine effect_ok (fun hj _ => recovery_called hj _)
    fun h w refusal v hr hj hok hx hv => ?_
  obtain rfl : pendingSessionIds w.commands = v := Except.ok.inj hv
  refine (Recovering.refused hr .pendingSessionIds refusal).mono (fun c hc hu _ => ?_)
    fun _ _ _ _ ho => ho
  obtain ⟨r, hr, hp⟩ := (hok hr.starting).2 c hc hu
  exact mem_pendingSessionIds hr hp

theorem scanning_running :
    (container maxRunning).Effect (recovery maxRunning) Scanning .findRunning (fun _ => Scanning)
      (fun _ _ _ => True) := by
  refine effect_ok (fun hj _ => recovery_called hj _)
    fun h w refusal v hr _ _ _ _ => ?_
  exact Recovering.refused hr _ _

theorem scanning_release :
    (container maxRunning).Effect (recovery maxRunning)
      (Recovering (fun _ => True) fun i => False ∨ i = e) (.releaseExecution e)
      (fun _ => Scanning) (fun _ _ _ => True) := by
  refine effect_ok (fun hj _ => recovery_called hj _)
    fun h w refusal v hr _ _ _ _ => ?_
  refine (Recovering.settled hr fun c => ?_).mono (fun _ _ _ hs => hs)
    fun _ _ _ _ ho => ho.2 (ho.1.resolve_left id)
  simp [SessionCommand.release]

theorem scanning_requeue :
    (container maxRunning).Effect (recovery maxRunning)
      (Recovering (fun _ => True) fun i => False ∨ i = e) (.requeueKilledExecution e)
      (fun _ => Scanning) (fun _ _ _ => True) := by
  refine effect_ok (fun hj _ => recovery_called hj _)
    fun h w refusal v hr hj _ _ _ => ?_
  exact (Recovering.requeue hr hj.1 refusal).mono (fun _ _ _ hs => hs)
    fun _ _ _ _ ho => ho.2 (ho.1.resolve_left id)

/-- An orphan whose completion is refused keeps running; the commands of any other go back. -/
theorem cleanup_recovers :
    (container maxRunning).Triple (recovery maxRunning) Scanning cleanupOrphanExecutions
      (fun _ => Scanning) (fun _ _ _ => True) := by
  refine .perform_bind (D := fun _ => Scanning) stable_recovering scanning_running fun running => ?_
  refine .forEach running fun process => ?_
  refine .bind (B := fun
      | .ok _ => Recovering (fun _ => True) fun i => False ∨ i = process.id
      | .error _ => Scanning) (.attempt (.perform stable_recovering ?_)) fun outcome => ?_
  · refine effect_intro (fun hj _ => recovery_called hj _)
      (fun h w error hr _ _ _ => Recovering.refused hr _ _) fun h w refusal hr _ _ hx => ?_
    have hr' : Recovering _ _ _ (w.exec (.updateCompletion process.id .failed) refusal).2 :=
      Recovering.complete hr rfl rfl refusal
    rw [hx] at hr'
    exact hr'
  · cases outcome with
    | ok =>
      exact .perform_bind (D := fun _ => Scanning) stable_recovering scanning_release
        fun _ => .pure fun _ _ h => h
    | error => exact .pure fun _ _ h => h

theorem terminalize_recovers :
    (container maxRunning).Triple (recovery maxRunning) Scanning terminalizeInheritedExecutions
      (fun _ => Scanning) (fun _ _ _ => True) := by
  refine .perform_bind (D := fun _ => Scanning) stable_recovering scanning_running fun running => ?_
  refine .forEach running fun process => ?_
  split
  · exact .pure fun _ _ h => h
  · refine .perform_bind (D := fun _ => Recovering (fun _ => True) fun i => False ∨ i = process.id)
      stable_recovering ?_ fun _ => ?_
    · exact (complete_effect rfl rfl).mono (fun _ _ _ h => h) fun _ _ _ _ => trivial
    · exact .perform_bind (D := fun _ => Scanning) stable_recovering scanning_requeue
        fun _ => .pure fun _ _ h => h

theorem startup_recovers :
    (container maxRunning).Triple (recovery maxRunning) Scanning (startup maxRunning)
      (fun _ => Left []) (fun _ _ _ => True) := by
  refine .bind cleanup_recovers fun _ => .bind terminalize_recovers fun _ => ?_
  refine .perform_bind (D := Left) stable_recovering scanning_sessions fun sessionIds => ?_
  exact Outline.dispatchEach (recoveryOutline maxRunning) (fun _ _ _ _ h => h)
    (fun _ _ => done_count) (fun _ _ _ _ hd => hd.2) (fun _ _ _ _ h => h) (fun _ _ h => h) sessionIds

theorem recovery_top (op : Op) :
    (container maxRunning).Effect (recovery maxRunning) (fun _ _ => True) op (fun _ _ _ => True)
      (fun _ _ _ => True) :=
  effect_ok (fun hj _ => recovery_called hj op) fun _ _ _ _ _ _ _ _ _ => trivial

def recoveryStart : Entry → ServiceAssertion
  | .startup => Scanning
  | _ => fun _ _ => True

def recoveryEnd : Entry → Except ContainerError (Option ExecutionProcess) → ServiceAssertion
  | .startup, .ok _ => Left []
  | _, _ => fun _ _ => True

theorem recovery_keeps (maxRunning : Nat) :
    Keeps (container maxRunning) (recovery maxRunning) := by
  refine Keeps.of_triples (C := recoveryStart) (D := recoveryEnd)
    (fun _ _ a _ hj _ => ⟨hj.1.act a, trivial, hj.2⟩) (fun _ _ _ _ _ _ => trivial)
    (fun _ _ _ hj => ⟨⟨hj.1, trivial, hj.2⟩, trivial⟩) ?_ (fun entry => ?_) ?_
  · intro entry h w hok hj _
    refine ⟨⟨hj.1, trivial, hj.2⟩, ?_⟩
    cases entry with
    | startup =>
      refine ⟨rfl, fun c hc hst => ?_⟩
      cases he : c.executionProcessId with
      | none => simp only [Accounted, he]
      | some e =>
        simp only [Accounted, he]
        exact .inl (.inl (hok c hc hst e he))
    | _ => trivial
  · have hany (p : Task (Option ExecutionProcess)) :
        (container maxRunning).Triple (recovery maxRunning) (fun _ _ => True) p (fun _ _ _ => True)
          (fun _ _ _ => True) :=
      Triple.of_calls (Program.Calls.all p) (fun _ _ _ _ _ _ => trivial) fun op _ => recovery_top op
    cases entry with
    | startup => exact .bind startup_recovers fun _ => .pure fun _ _ h => h
    | dispatchPendingCommands => exact hany _
    | startExecution => exact hany _
  · intro entry r h w hd hj hok
    refine ⟨⟨hj.1, ?_, hj.2⟩, trivial⟩
    cases entry with
    | startup =>
      cases r with
      | ok =>
        intro c hc hst
        have hold := hd.rows c hc hst
        cases he : c.executionProcessId with
        | none =>
          simp only [Accounted, he] at hold
          cases hold
        | some e =>
          simp only [Accounted, he] at hold
          refine ⟨e, rfl, ?_⟩
          rcases hold with hl | ho
          · rcases hl with hrun | hend
            · exact hrun
            · exact absurd (hend.symm.trans (hok c hc hst e he)) Bool.true_eq_false.mp
          · cases ho
      | error => trivial
    | _ => trivial

/-- In every run whose startups begin, call and return recoverably, a startup that succeeds leaves
every claimed command bound to a running execution, wherever the process died before. -/
theorem startup_complete (maxRunning : Nat) (w : World) (hw : w.Consistent)
    (labels : List (Label ContainerError World.Act Entry))
    (hok : All (recoverable maxRunning)
      ((container maxRunning).run (System.start w) labels).history) :
    All recovers ((container maxRunning).run (System.start w) labels).history := by
  have hstart : Kept (container maxRunning) (recovery maxRunning) (System.start w) :=
    ⟨⟨hw, trivial⟩, trivial⟩
  exact ((recovery_keeps maxRunning).run hstart labels hok).1.2

def restartRun (died : Nat) : List (Label ContainerError World.Act Entry) :=
  .act (.enqueue (sampleCommand "prompt")) :: .begin (.dispatchPendingCommands 1) ::
    List.replicate died (.call none) ++ .crash :: .begin .startup ::
      List.replicate 40 (.call none)

theorem claim_lost_on_crash :
    ¬ All recovers ((container 4).run (System.start sampleWorld) (restartRun 6)).history := by
  decide +kernel

theorem startup_complete_sample :
    All recovers ((container 4).run (System.start sampleWorld) (restartRun 20)).history :=
  startup_complete 4 sampleWorld (.of_nil rfl) (restartRun 20) (by decide +kernel)

end Cdesktop