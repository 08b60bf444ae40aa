import Cdesktop.Dispatch
import Cdesktop.QueueStateMachine

namespace Cdesktop
set_option autoImplicit true

def Op.writesCommands : Op → Bool
  | .releaseUnbound _ | .claimPending _ | .bindExecution .. | .ensureClaimed ..
  | .finishExecution .. | .releaseExecution _ | .requeueKilledExecution _ => true
  | _ => false

def Op.writesExecutions : Op → Bool
  | .insertExecution .. | .updateCompletion .. | .completeRunningAttempt .. => true
  | _ => false

def Op.writesApprovals : Op → Bool
  | .ensurePending .. | .ensureBlocked .. | .consumeApproval .. | .recordAutoStart .. => true
  | _ => false

variable {op : Op} {w : World} {c : SessionCommand} {s e : Uuid}

theorem Op.reads_writes (h : op.reads = true) :
    op.writesCommands = false ∧ op.writesExecutions = false ∧ op.writesApprovals = false := by
  cases op <;> first | exact ⟨rfl, rfl, rfl⟩ | cases h

theorem SessionCommand.claimPending_unbound (t : Commands) (sessionId : Uuid) :
    (SessionCommand.claimPending t sessionId).2 = [] ∨
      (SessionCommand.claimPending t sessionId).2 =
        (SessionCommand.claimPending t sessionId).1.filter (SessionCommand.isUnbound sessionId) := by
  simp only [SessionCommand.claimPending]
  split
  · exact .inl rfl
  · split
    · exact .inl rfl
    · exact .inr rfl

namespace World

def queue (w : World) : Queue := ⟨w.commands, w.executions, []⟩

def actQueueOp (w : World) : Act → Option QueueOp
  | .enqueue new => some (.enqueue new w.nextId w.now)
  | .cancel s id => some (.cancel s id w.now)
  | .cancelPending s => some (.cancelPending s w.now)
  | .requeueExecution e => some (.requeueExecution e)
  | .finishExecution e succeeded => some (.finishExecution e succeeded w.now)
  | _ => none

def queueOp (w : World) : Op → Option QueueOp
  | .releaseUnbound s => some (.releaseUnbound s)
  | .claimPending s => some (.claimPending s)
  | .bindExecution s e => some (.bindExecution s e)
  | .finishExecution e succeeded => some (.finishExecution e succeeded w.now)
  | .releaseExecution e => some (.releaseExecution e)
  | .requeueKilledExecution e => some (.requeueExecution e)
  | _ => none

/-- The commands after one transaction, or none. -/
def after (w : World) : Option QueueOp → Commands
  | some op => (w.queue.step op).commands
  | none => w.commands

theorem act_commands (w : World) (a : Act) : (w.act a).commands = w.after (w.actQueueOp a) := by
  cases a with
  | enqueue new =>
    simp only [act, actQueueOp, after, Queue.step, queue]
    cases SessionCommand.enqueue w.commands new w.nextId w.now <;> rfl
  | _ => rfl

def promptRow (w : World) : Op → List SessionCommand
  | .ensureClaimed s e body config =>
    if w.commands.any (fun c => c.executionProcessId = some e) then []
    else if w.executions.any (fun p => p.id = e) then
      [{ id := w.nextId, sessionId := s, dedupeKey := none, intent := .continue, body, config,
         state := .claimed, executionProcessId := some e, attemptNumber := 1, createdAt := w.now,
         finishedAt := none }]
    else []
  | _ => []

theorem perform_commands (w : World) (op : Op) :
    (w.perform op).2.commands = w.after (w.queueOp op) ++ w.promptRow op := by
  cases op with
  | ensureClaimed s e body config =>
    simp only [perform, SessionCommand.ensureClaimed, queueOp, after, promptRow]
    by_cases hrow : w.commands.any (fun c => c.executionProcessId = some e) = true
    · simp only [hrow, ↓reduceIte, List.append_nil]
    · by_cases hex : w.executions.any (fun p => p.id = e) = true
      · simp only [hrow, hex, Bool.false_eq_true, ↓reduceIte]
      · simp only [hrow, hex, Bool.false_eq_true, ↓reduceIte, List.append_nil]
  | bindExecution s e =>
    simp only [perform, queueOp, after, promptRow, List.append_nil, Queue.step, queue]
    cases SessionCommand.bindExecution w.executions w.commands s e <;> rfl
  | insertExecution e s runReason =>
    simp only [perform, queueOp, after, promptRow, List.append_nil]
    split <;> rfl
  | _ =>
    simp only [queueOp, after, promptRow, List.append_nil]
    rfl

theorem exec_keeps {P : World → Prop} (op : Op) (refusal : Option ContainerError) (hw : P w)
    (hperform : P (w.perform op).2) : P (w.exec op refusal).2 := by
  rcases w.exec_cases op refusal with ⟨e, -, -, hx⟩ | hx
  · rw [hx]
    exact hw
  · rw [hx]
    exact hperform

theorem exec_commands (w : World) (op : Op) (refusal : Option ContainerError) :
    (w.exec op refusal).2.commands = w.commands ∨
      (w.exec op refusal).2.commands = w.after (w.queueOp op) ++ w.promptRow op := by
  rcases w.exec_cases op refusal with ⟨e, -, -, hx⟩ | hx
  · exact .inl (by rw [hx])
  · exact .inr (by rw [hx, perform_commands])

structure IdsOk (w : World) : Prop where
  nodup : (w.commands.map (·.id)).Nodup
  drawn : ∀ c ∈ w.commands, c.id < w.nextId

theorem act_nextId (w : World) (a : Act) : w.nextId ≤ (w.act a).nextId := by
  cases a with
  | enqueue new =>
    simp only [act]
    split <;> simp
  | _ => exact le_refl _

theorem perform_nextId (w : World) (op : Op) : w.nextId ≤ (w.perform op).2.nextId := by
  cases op with
  | insertExecution =>
    simp only [perform]
    split <;> exact le_refl _
  | bindExecution =>
    simp only [perform]
    split <;> exact le_refl _
  | ensureClaimed =>
    simp only [perform]
    split
    · exact Nat.le_succ _
    · exact le_refl _
  | ensurePending | ensureBlocked | newUuid | recordAutoStart => exact Nat.le_succ _
  | _ => exact le_refl _

theorem exec_nextId (w : World) (op : Op) (refusal : Option ContainerError) :
    w.nextId ≤ (w.exec op refusal).2.nextId :=
  exec_keeps (P := fun w' => w.nextId ≤ w'.nextId) op refusal (le_refl _) (perform_nextId w op)

theorem after_nodup (hw : w.IdsOk) (op : Option QueueOp) :
    ((w.after op).map (·.id)).Nodup := by
  cases op with
  | none => exact hw.nodup
  | some op => exact Queue.step_ids hw.nodup op

theorem mem_after {op : Option QueueOp} (hc : c ∈ w.after op) :
    (∃ c₀ ∈ w.commands, c₀.id = c.id) ∨ ∃ op', op = some op' ∧ c ∈ w.queue.inserts op' := by
  cases op with
  | none => exact .inl ⟨c, hc, rfl⟩
  | some op =>
    rcases Queue.mem_step_old hc with ⟨c₀, hc₀, hid, -⟩ | hc
    · exact .inl ⟨c₀, hc₀, hid⟩
    · exact .inr ⟨op, rfl, hc⟩

theorem IdsOk.act (hw : w.IdsOk) (a : Act) : (w.act a).IdsOk := by
  refine ⟨?_, fun c hc => ?_⟩
  · rw [act_commands]
    exact after_nodup hw _
  · rw [act_commands] at hc
    rcases mem_after hc with ⟨c₀, hc₀, hid⟩ | ⟨op, hop, hc⟩
    · exact hid ▸ (hw.drawn c₀ hc₀).trans_le (w.act_nextId a)
    · cases a with
      | enqueue new =>
        cases hop
        obtain ⟨new', newId, now, rfl, -, -⟩ := Queue.inserts_eq hc
        simp only [Queue.inserts] at hc
        split at hc
        · have hid : newId = w.nextId := congrArg SessionCommand.id (List.mem_singleton.1 hc)
          have hnext : (w.act (.enqueue new)).nextId = w.nextId + 1 := by
            simp only [World.act]
            split <;> rfl
          rw [hnext]
          exact hid ▸ Nat.lt_succ_self _
        · cases hc
      | cancel | cancelPending | requeueExecution | finishExecution =>
        cases hop
        cases hc
      | _ => cases hop

theorem promptRow_cons {row : SessionCommand} {l : List SessionCommand}
    (h : w.promptRow op = row :: l) :
    l = [] ∧ row.id = w.nextId ∧ row.state = .claimed ∧ row.executionProcessId ≠ none ∧
      (w.perform op).2.nextId = w.nextId + 1 ∧ w.queueOp op = none := by
  cases op with
  | ensureClaimed s e body config =>
    simp only [promptRow] at h
    split at h
    · cases h
    · rename_i hrow
      split at h
      · rename_i hex
        obtain ⟨rfl, rfl⟩ := List.cons.inj h
        refine ⟨rfl, rfl, rfl, by simp, ?_, rfl⟩
        simp only [perform, SessionCommand.ensureClaimed, hrow, hex, Bool.false_eq_true, ↓reduceIte]
      · cases h
  | _ => cases h

theorem IdsOk.perform (hw : w.IdsOk) (op : Op) : (w.perform op).2.IdsOk := by
  have hcmds := w.perform_commands op
  cases hp : w.promptRow op with
  | nil =>
    rw [hp, List.append_nil] at hcmds
    refine ⟨hcmds ▸ after_nodup hw _, fun c hc => ?_⟩
    rw [hcmds] at hc
    rcases mem_after hc with ⟨c₀, hc₀, hid⟩ | ⟨op', hop, hc⟩
    · exact hid ▸ (hw.drawn c₀ hc₀).trans_le (w.perform_nextId op)
    · cases op <;> cases hop <;> cases hc
  | cons row l =>
    obtain ⟨rfl, hid, -, -, hnext, hq⟩ := promptRow_cons hp
    rw [hp, hq] at hcmds
    have hcmds : (w.perform op).2.commands = w.commands ++ [row] := hcmds
    refine ⟨?_, fun c hc => ?_⟩
    · rw [hcmds, List.map_append, List.nodup_append]
      refine ⟨hw.nodup, by simp, ?_⟩
      intro i hi j hj hij
      obtain ⟨c, hc, rfl⟩ := List.mem_map.1 hi
      have hlt := hw.drawn c hc
      simp only [List.map_cons, List.map_nil, List.mem_singleton] at hj
      rw [hj, hid] at hij
      exact hlt.ne hij
    · rw [hcmds, List.mem_append, List.mem_singleton] at hc
      rw [hnext]
      rcases hc with hc | rfl
      · exact (hw.drawn c hc).trans (Nat.lt_succ_self _)
      · exact hid ▸ Nat.lt_succ_self _

theorem IdsOk.exec (hw : w.IdsOk) (op : Op) (refusal : Option ContainerError) :
    (w.exec op refusal).2.IdsOk :=
  exec_keeps op refusal hw (hw.perform op)

theorem act_claimed {a : Act} (hc : c ∈ (w.act a).commands)
    (hst : c.state = .claimed) : c ∈ w.commands := by
  rw [act_commands] at hc
  cases hop : w.actQueueOp a with
  | none =>
    rw [hop] at hc
    exact hc
  | some op =>
    rw [hop] at hc
    rcases Queue.mem_step.1 hc with ⟨c₀, -, hs, rfl⟩ | ⟨hc, -⟩ | hc
    · rcases Queue.claimed_of_rewrites hs hst with ⟨s, rfl⟩ | ⟨s, e, rfl⟩ <;>
        cases a <;> cases hop
    · exact hc
    · obtain ⟨new, newId, now, rfl, -, -⟩ := Queue.inserts_eq hc
      cases hst

theorem unbound_claimed (hu : SessionCommand.isUnbound s c = true) :
    c.sessionId = s ∧ c.state = .claimed ∧ c.executionProcessId = none := by
  simpa [SessionCommand.isUnbound] using hu

/-- A command that no execution holds stays or is cancelled. -/
theorem act_free (a : Act) (hc : c ∈ w.commands)
    (hfree : c.state = .pending ∨ c.executionProcessId = none) :
    c ∈ (w.act a).commands ∨ ∃ c' ∈ (w.act a).commands, c'.id = c.id ∧ c'.state = .cancelled := by
  rw [act_commands]
  cases hop : w.actQueueOp a with
  | none => exact .inl hc
  | some op =>
    cases hs : w.queue.selects op c with
    | false => exact .inl (Queue.mem_step.2 (.inr (.inl ⟨hc, hs⟩)))
    | true =>
      refine .inr ⟨Queue.rewrites op c, Queue.mem_step.2 (.inl ⟨c, hc, hs, rfl⟩), by simp, ?_⟩
      cases a with
      | enqueue | cancel | cancelPending =>
        cases hop
        rfl
      | requeueExecution | finishExecution =>
        cases hop
        rcases hfree with hst | hnone
        · simp [Queue.selects, SessionCommand.requeueable, SessionCommand.isBoundTo, hst] at hs
        · simp [Queue.selects, SessionCommand.requeueable, SessionCommand.isBoundTo, hnone] at hs
      | _ => cases hop

theorem act_unbound (a : Act) (hc : c ∈ w.commands) (hu : SessionCommand.isUnbound s c = true) :
    c ∈ (w.act a).commands ∨ ∃ c' ∈ (w.act a).commands, c'.id = c.id ∧ c'.state = .cancelled :=
  act_free a hc (.inr (unbound_claimed hu).2.2)

theorem act_pending (a : Act) (hc : c ∈ w.commands) (hst : c.state = .pending) :
    ∃ c' ∈ (w.act a).commands, c'.id = c.id ∧ (c'.state = .pending ∨ c'.state = .cancelled) := by
  obtain hold | ⟨c', hc', hid, hcancelled⟩ := act_free a hc (.inl hst)
  · exact ⟨c, hold, rfl, .inl hst⟩
  · exact ⟨c', hc', hid, .inr hcancelled⟩

theorem act_settled (a : Act) (hc : c ∈ w.commands)
    (hst : c.state = .done ∨ c.state = .cancelled) : c ∈ (w.act a).commands := by
  rw [act_commands]
  cases hop : w.actQueueOp a with
  | none => exact hc
  | some op => exact Queue.mem_step.2 (.inr (.inl ⟨hc, Queue.selects_settled hst⟩))

theorem mem_after_kept (op : Option QueueOp) (hc : c ∈ w.commands) :
    ∃ c' ∈ w.after op, c'.id = c.id ∧ c'.config = c.config := by
  cases op with
  | none => exact ⟨c, hc, rfl, rfl⟩
  | some op =>
    cases hs : w.queue.selects op c with
    | false => exact ⟨c, Queue.mem_step.2 (.inr (.inl ⟨hc, hs⟩)), rfl, rfl⟩
    | true =>
      exact ⟨Queue.rewrites op c, Queue.mem_step.2 (.inl ⟨c, hc, hs, rfl⟩), by simp, by simp⟩

def Knows (w : World) (c : SessionCommand) : Prop :=
  ∃ r ∈ w.commands, r.id = c.id ∧ r.config = c.config

theorem Knows.act (h : w.Knows c) (a : Act) :
    (w.act a).Knows c := by
  obtain ⟨r, hr, hid, hconfig⟩ := h
  obtain ⟨r', hr', hid', hconfig'⟩ := mem_after_kept (w.actQueueOp a) hr
  rw [← act_commands] at hr'
  exact ⟨r', hr', hid'.trans hid, hconfig'.trans hconfig⟩

theorem Knows.perform (h : w.Knows c) (op : Op) :
    (w.perform op).2.Knows c := by
  obtain ⟨r, hr, hid, hconfig⟩ := h
  obtain ⟨r', hr', hid', hconfig'⟩ := mem_after_kept (w.queueOp op) hr
  refine ⟨r', ?_, hid'.trans hid, hconfig'.trans hconfig⟩
  rw [perform_commands]
  exact List.mem_append_left _ hr'

theorem Knows.exec (h : w.Knows c) (op : Op)
    (refusal : Option ContainerError) : (w.exec op refusal).2.Knows c :=
  exec_keeps (P := (Knows · c)) op refusal h (h.perform op)

theorem exec_commands_eq (hop : op.writesCommands = false)
    (refusal : Option ContainerError) : (w.exec op refusal).2.commands = w.commands := by
  refine exec_keeps (P := (·.commands = w.commands)) op refusal rfl ?_
  cases op with
  | insertExecution =>
    simp only [perform]
    split <;> rfl
  | releaseUnbound | claimPending | bindExecution | ensureClaimed | finishExecution
  | releaseExecution | requeueKilledExecution => cases hop
  | _ => rfl

theorem exec_executions_eq (hop : op.writesExecutions = false)
    (refusal : Option ContainerError) : (w.exec op refusal).2.executions = w.executions := by
  refine exec_keeps (P := (·.executions = w.executions)) op refusal rfl ?_
  cases op with
  | bindExecution | ensureClaimed =>
    simp only [perform]
    split <;> rfl
  | insertExecution | updateCompletion | completeRunningAttempt => cases hop
  | _ => rfl

theorem exec_approvals_eq (hop : op.writesApprovals = false)
    (refusal : Option ContainerError) : (w.exec op refusal).2.approvals = w.approvals := by
  refine exec_keeps (P := (·.approvals = w.approvals)) op refusal rfl ?_
  cases op with
  | bindExecution | insertExecution | ensureClaimed =>
    simp only [perform]
    split <;> rfl
  | ensurePending | ensureBlocked | consumeApproval | recordAutoStart => cases hop
  | _ => rfl

def HasExecution (w : World) (e : Uuid) : Prop := ∃ p ∈ w.executions, p.id = e

theorem hasExecution_update {w' : World} (he : w.HasExecution e)
    {p : ExecutionProcess → Bool} {f : ExecutionProcess → ExecutionProcess}
    (hex : w'.executions = Table.update p f w.executions) (hf : ∀ q, (f q).id = q.id) :
    w'.HasExecution e := by
  obtain ⟨q, hq, rfl⟩ := he
  cases hp : p q with
  | true => exact ⟨f q, hex ▸ Table.mem_update_of_true hq hp, hf q⟩
  | false => exact ⟨q, hex ▸ Table.mem_update_of_false hq hp, rfl⟩

theorem HasExecution.act (he : w.HasExecution e) (a : Act) :
    (w.act a).HasExecution e := by
  cases a with
  | completeRunningAttempt => exact hasExecution_update he rfl fun _ => rfl
  | enqueue new =>
    simp only [World.act]
    split <;> exact he
  | _ => exact he

theorem HasExecution.exec (he : w.HasExecution e) (op : Op)
    (refusal : Option ContainerError) : (w.exec op refusal).2.HasExecution e := by
  cases hop : op.writesExecutions with
  | false =>
    simp only [HasExecution, exec_executions_eq hop]
    exact he
  | true =>
    refine exec_keeps (P := (HasExecution · e)) op refusal he ?_
    cases op with
    | updateCompletion => exact hasExecution_update he rfl fun _ => rfl
    | completeRunningAttempt => exact hasExecution_update he rfl fun _ => rfl
    | insertExecution e' s runReason =>
      simp only [World.perform]
      split
      · rename_i executions hinsert
        simp only [ExecutionProcess.insert] at hinsert
        split at hinsert
        · cases hinsert
        · obtain ⟨p, hp, hid⟩ := he
          obtain rfl := Option.some.inj hinsert
          exact ⟨p, List.mem_append_left _ hp, hid⟩
      · exact he
    | _ => cases hop

def runningRow (w : World) (e s : Uuid) (runReason : ExecutionProcessRunReason) :
    ExecutionProcess where
  id := e
  sessionId := s
  runReason := runReason
  status := .running
  exitCode := none
  startedAt := w.now
  completedAt := none

/-- An insert that succeeds found neither its row nor a running coding agent of the session. -/
theorem insert_some {runReason : ExecutionProcessRunReason}
    (hok : (w.perform (.insertExecution e s runReason)).1 = .ok ()) :
    ¬ w.HasExecution e ∧
      ¬ (runReason = .codingAgent ∧
        ExecutionProcess.hasRunningCodingAgentForSession w.executions s = true) ∧
      (w.perform (.insertExecution e s runReason)).2 =
        { w with executions := w.executions ++ [w.runningRow e s runReason] } := by
  simp only [World.perform, ExecutionProcess.insert] at hok ⊢
  split at hok
  · rename_i executions hinsert
    split at hinsert
    · cases hinsert
    · rename_i hno
      obtain rfl := Option.some.inj hinsert
      rw [not_or] at hno
      refine ⟨?_, ?_, ?_⟩
      · rintro ⟨p, hp, rfl⟩
        exact hno.1 (List.any_eq_true.2 ⟨p, hp, by simp⟩)
      · simpa [ExecutionProcess.runningCodingAgent] using hno.2
      · rfl
  · cases hok

theorem insert_error {runReason : ExecutionProcessRunReason}
    {error : ContainerError} (herror : (w.perform (.insertExecution e s runReason)).1 = .error error) :
    (w.perform (.insertExecution e s runReason)).2 = w := by
  simp only [World.perform] at herror ⊢
  split at herror
  · cases herror
  · rfl

def FkOk (w : World) : Prop :=
  ∀ c ∈ w.commands, ∀ e ∈ c.executionProcessId, w.HasExecution e

theorem mem_after_stamp {op : Option QueueOp}
    (hc : c ∈ w.after op) (he : c.executionProcessId = some e) :
    (∃ c₀ ∈ w.commands, c₀.executionProcessId = some e) ∨ w.HasExecution e := by
  cases op with
  | none => exact .inl ⟨c, hc, he⟩
  | some op =>
    rcases Queue.mem_step.1 hc with ⟨c₀, hc₀, hs, rfl⟩ | ⟨hc, -⟩ | hc
    · cases op with
      | bindExecution s e' =>
        obtain rfl : e' = e := Option.some.inj he
        simp only [Queue.selects, decide_eq_true_eq] at hs
        obtain ⟨p, hp, hid⟩ := List.any_eq_true.1 hs.1
        exact .inr ⟨p, hp, of_decide_eq_true hid⟩
      | releaseExecution | requeueExecution => cases he
      | _ => exact .inl ⟨c₀, hc₀, he⟩
    · exact .inl ⟨c, hc, he⟩
    · obtain ⟨new, newId, now, rfl, -, -⟩ := Queue.inserts_eq hc
      cases he

theorem act_stamp {a : Act} (hc : c ∈ (w.act a).commands)
    (he : c.executionProcessId = some e) : ∃ c₀ ∈ w.commands, c₀.executionProcessId = some e := by
  rw [act_commands] at hc
  cases hop : w.actQueueOp a with
  | none =>
    rw [hop] at hc
    exact ⟨c, hc, he⟩
  | some op =>
    rw [hop] at hc
    rcases Queue.mem_step.1 hc with ⟨c₀, hc₀, -, rfl⟩ | ⟨hc, -⟩ | hc
    · cases a with
      | enqueue | cancel | cancelPending | finishExecution =>
        cases hop
        exact ⟨c₀, hc₀, he⟩
      | requeueExecution =>
        cases hop
        cases he
      | _ => cases hop
    · exact ⟨c, hc, he⟩
    · obtain ⟨new, newId, now, rfl, -, -⟩ := Queue.inserts_eq hc
      cases he

theorem promptRow_stamp {row : SessionCommand} (h : row ∈ w.promptRow op)
    (he : row.executionProcessId = some e) : w.HasExecution e := by
  cases op with
  | ensureClaimed s e' body config =>
    simp only [promptRow] at h
    split at h
    · cases h
    · split at h
      · rename_i hex
        rw [List.mem_singleton.1 h] at he
        obtain rfl := Option.some.inj he
        obtain ⟨p, hp, hid⟩ := List.any_eq_true.1 hex
        exact ⟨p, hp, of_decide_eq_true hid⟩
      · cases h
  | _ => cases h

theorem FkOk.act (hw : w.FkOk) (a : Act) : (w.act a).FkOk := by
  intro c hc e he
  rw [act_commands] at hc
  rcases mem_after_stamp hc he with ⟨c₀, hc₀, he₀⟩ | hex
  · exact (hw c₀ hc₀ e he₀).act a
  · exact hex.act a

theorem FkOk.exec (hw : w.FkOk) (op : Op) (refusal : Option ContainerError) :
    (w.exec op refusal).2.FkOk := by
  intro c hc e he
  rcases w.exec_commands op refusal with hsame | happ
  · rw [hsame] at hc
    exact (hw c hc e he).exec op refusal
  · rw [happ] at hc
    rcases List.mem_append.1 hc with hc | hc
    · rcases mem_after_stamp hc he with ⟨c₀, hc₀, he₀⟩ | hex
      · exact (hw c₀ hc₀ e he₀).exec op refusal
      · exact hex.exec op refusal
    · exact (promptRow_stamp hc he).exec op refusal

def QueueFree (w : World) : Prop :=
  ∀ c ∈ w.commands, c.state = .pending → c.executionProcessId = none

theorem QueueFree.after (hw : w.QueueFree) {op : Option QueueOp}
    (hc : c ∈ w.after op) (hst : c.state = .pending) : c.executionProcessId = none := by
  cases op with
  | none => exact hw c hc hst
  | some op =>
    rcases Queue.mem_step.1 hc with ⟨c₀, hc₀, hs, rfl⟩ | ⟨hc, -⟩ | hc
    · cases op with
      | enqueue | cancel | cancelPending | claimPending => cases hst
      | releaseExecution | requeueExecution => rfl
      | releaseUnbound s => exact (unbound_claimed hs).2.2
      | finishExecution e succeeded => cases succeeded <;> cases hst
      | bindExecution s e =>
        simp only [Queue.selects, decide_eq_true_eq] at hs
        have hclaimed : c₀.state = .claimed := (unbound_claimed hs.2).2.1
        exact absurd (hclaimed.symm.trans hst) (by simp)
      | insertExecution | updateCompletion => exact hw c₀ hc₀ hst
    · exact hw c hc hst
    · obtain ⟨new, newId, now, rfl, -, -⟩ := Queue.inserts_eq hc
      rfl

theorem QueueFree.act (hw : w.QueueFree) (a : Act) : (w.act a).QueueFree := by
  intro c hc hst
  rw [act_commands] at hc
  exact hw.after hc hst

theorem QueueFree.exec (hw : w.QueueFree) (op : Op) (refusal : Option ContainerError) :
    (w.exec op refusal).2.QueueFree := by
  intro c hc hst
  rcases w.exec_commands op refusal with hsame | happ
  · rw [hsame] at hc
    exact hw c hc hst
  · rw [happ] at hc
    rcases List.mem_append.1 hc with hc | hc
    · exact hw.after hc hst
    · cases hp : w.promptRow op with
      | nil =>
        rw [hp] at hc
        cases hc
      | cons row l =>
        obtain ⟨rfl, -, hclaimed, -⟩ := promptRow_cons hp
        rw [hp, List.mem_singleton] at hc
        rw [hc, hclaimed] at hst
        cases hst

theorem claimIds_row (hw : w.IdsOk) (hc : c ∈ w.commands)
    (h : c.id ∈ w.queue.claimIds s) : c.sessionId = s ∧ c.state = .pending := by
  simp only [Queue.claimIds] at h
  split at h
  · cases h
  · obtain ⟨c', hc', he⟩ := List.mem_map.1 h
    have hmem := (Queue.headBatch_sublist w.commands s).subset hc'
    obtain rfl : c' = c := Table.eq_of_key hw.nodup hmem hc he
    exact Queue.headBatch_isPending hc'

end World
end Cdesktop
