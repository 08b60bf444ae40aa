import Cdesktop.ExecutionStart
import Cdesktop.WorldSteps

namespace Cdesktop.ExecutionStart
set_option autoImplicit true
open Program Container SessionCommand

variable {c : Call} {u : Surroundings} {w : World}

@[simp] theorem setMsgStore_msgStore (w : World) (id : Uuid) (b : Bool) :
    (w.setMsgStore id b).external.msgStore id = b := by
  simp only [World.setMsgStore, Function.update_self]

theorem eval_durable (p : Task α) (s : World) :
    (durable p).eval (u.exec c) s = p.eval (u.answer c) s := by
  rw [durable, eval_lift]
  congr
  funext op s
  simp only [Surroundings.exec]
  cases h : u.answer c op s with
  | mk answer s' => cases answer <;> rfl

variable {op : Op} {s s' w' : World} {v : op.Val} {f : op.Val → Task α} {now : Time}
  {e : ContainerError}

theorem answer_refused (h : u.fails op = true) (hb : u.before c op s = s) :
    ∃ e, u.answer c op s = (.error e, s) := by
  rw [Surroundings.fails, Option.any_eq_true] at h
  obtain ⟨e, he, hrefuses⟩ := h
  apply Exists.intro e
  simp only [Surroundings.answer, hb, he, World.exec, hrefuses, ↓reduceIte]

theorem answer_allowed (h : ¬ u.fails op = true) :
    u.answer c op s = (u.before c op s).perform op := by
  rw [Surroundings.answer]
  cases he : u.refusal op with
  | none => rfl
  | some e =>
    have hno : ¬ op.refuses e = true := by
      intro hr
      apply h
      simp only [Surroundings.fails, he, Option.any_some, hr]
    simp only [World.exec, if_neg hno]

theorem call_answered (h : u.answer c op s = (.ok v, s')) :
    ((call op).bind f).eval (u.answer c) s = (f v).eval (u.answer c) s' :=
  eval_bind_ok (eval_perform_ok h)

theorem call_refused (h : u.fails op = true)
    (hb : u.before c op s = s) : ∃ e, ((call op).bind f).eval (u.answer c) s = (.error e, s) := by
  obtain ⟨e, he⟩ := answer_refused h hb
  exact ⟨e, eval_bind_error (eval_perform_error he)⟩

theorem call_allowed
    (h : ¬ u.fails op = true) (hb : u.before c op s = s) (hp : s.perform op = (.ok v, s')) :
    ((call op).bind f).eval (u.answer c) s = (f v).eval (u.answer c) s' := by
  have he := answer_allowed (c := c) (s := s) h
  rw [hb, hp] at he
  exact call_answered he

def inserted (c : Call) (w : World) : World :=
  { w with executions :=
      w.executions ++ [w.runningRow c.executionProcessId c.session.id c.runReason] }

section
variable (hfresh : Fresh c.executionProcessId w)
include hfresh

theorem perform_insert :
    if c.runReason = .codingAgent ∧
        ExecutionProcess.hasRunningCodingAgentForSession w.executions c.session.id = true then
      w.perform (.insertExecution c.executionProcessId c.session.id c.runReason) = (.error .sqlx, w)
    else
      w.perform (.insertExecution c.executionProcessId c.session.id c.runReason) =
        (.ok (), inserted c w) := by
  have hno : w.executions.any (fun q => decide (q.id = c.executionProcessId)) = false := by
    rw [List.any_eq_false]
    intro p hp
    simpa using hfresh.row p hp
  split
  · rename_i hrun
    simp only [World.perform, ExecutionProcess.insert, ExecutionProcess.runningCodingAgent, hrun.1,
      hrun.2, hno, Bool.false_eq_true, and_self, decide_true, or_true, ↓reduceIte]
  · rename_i hrun
    have hins : ¬ (w.executions.any (fun q => decide (q.id = c.executionProcessId)) = true ∨
        (ExecutionProcess.runningCodingAgent
            (w.runningRow c.executionProcessId c.session.id c.runReason) = true ∧
          ExecutionProcess.hasRunningCodingAgentForSession w.executions c.session.id = true)) := by
      rw [hno]
      simpa [ExecutionProcess.runningCodingAgent, World.runningRow] using hrun
    have heq : ExecutionProcess.insert w.executions
        (w.runningRow c.executionProcessId c.session.id c.runReason) =
        some (inserted c w).executions := if_neg hins
    rw [World.runningRow] at heq
    simp only [World.perform, heq]
    rfl

theorem create_refused (h : notCreated c u w = true) :
    ∃ e, (createExecution c.workspace c.session c.runReason c.executionProcessId).eval (u.answer c) w =
      (.error e, w) := by
  rw [notCreated, decide_eq_true_eq] at h
  simp only [createExecution, bind_def]
  by_cases hadmitted : u.fails .admitExecutionStart = true
  · exact call_refused hadmitted rfl
  rw [call_allowed hadmitted rfl rfl]
  by_cases hlaunch : u.fails .ensureLaunchAdmission = true
  · exact call_refused hlaunch rfl
  rw [call_allowed hlaunch rfl rfl]
  by_cases hrepos : u.fails (.findReposForWorkspace c.workspace.id) = true
  · exact call_refused hrepos rfl
  rw [call_allowed hrepos rfl rfl]
  by_cases hempty : w.external.repositories c.workspace.id = []
  · rw [if_pos hempty]
    exact ⟨_, rfl⟩
  rw [if_neg hempty]
  by_cases hinsert :
      u.fails (.insertExecution c.executionProcessId c.session.id c.runReason) = true
  · exact call_refused hinsert rfl
  have hrun : c.runReason = .codingAgent ∧
      ExecutionProcess.hasRunningCodingAgentForSession w.executions c.session.id = true := by tauto
  have hp := perform_insert hfresh
  rw [if_pos hrun] at hp
  have he := answer_allowed (c := c) (s := w) hinsert
  have hb : u.before c (.insertExecution c.executionProcessId c.session.id c.runReason) w = w := rfl
  rw [hb, hp] at he
  exact ⟨_, eval_bind_error (eval_perform_error he)⟩

theorem create_written (h : notCreated c u w = false) :
    (createExecution c.workspace c.session c.runReason c.executionProcessId).eval (u.answer c) w =
      ((call (.createRepoStates c.executionProcessId)).bind fun _ =>
        (call (.findExecution c.executionProcessId)).bind fun created =>
          Program.orThrow .sqlx created).eval (u.answer c) (inserted c w) := by
  simp only [notCreated, decide_eq_false_iff_not, not_or] at h
  obtain ⟨hadmitted, hlaunch, hrepos, hempty, hinsert, hrun⟩ := h
  have hp := perform_insert hfresh
  rw [if_neg hrun] at hp
  simp only [createExecution, bind_def]
  rw [call_allowed hadmitted rfl rfl, call_allowed hlaunch rfl rfl, call_allowed hrepos rfl rfl,
    if_neg hempty, call_allowed hinsert rfl hp]

theorem findById_inserted :
    ExecutionProcess.findById (inserted c w).executions c.executionProcessId =
      some (w.runningRow c.executionProcessId c.session.id c.runReason) := by
  rw [ExecutionProcess.findById, inserted, List.find?_append, Option.or_eq_some_iff]
  apply Or.inr
  constructor
  · rw [List.find?_eq_none]
    intro p hp
    simpa using hfresh.row p hp
  · simp only [World.runningRow, List.find?_cons, decide_true]

theorem create_repoStates (h : notCreated c u w = false)
    (hfails : u.fails (.createRepoStates c.executionProcessId) = true) :
    ∃ e, (createExecution c.workspace c.session c.runReason c.executionProcessId).eval (u.answer c) w =
      (.error e, inserted c w) := by
  rw [create_written hfresh h]
  exact call_refused hfails rfl

theorem create_readBack (h : notCreated c u w = false)
    (hstates : ¬ u.fails (.createRepoStates c.executionProcessId) = true)
    (hfails : u.fails (.findExecution c.executionProcessId) = true) :
    ∃ e, (createExecution c.workspace c.session c.runReason c.executionProcessId).eval (u.answer c) w =
      (.error e, inserted c w) := by
  rw [create_written hfresh h, call_allowed hstates rfl rfl]
  exact call_refused hfails rfl

theorem create_ok (h : notCreated c u w = false)
    (hstates : ¬ u.fails (.createRepoStates c.executionProcessId) = true)
    (hfind : ¬ u.fails (.findExecution c.executionProcessId) = true) :
    (createExecution c.workspace c.session c.runReason c.executionProcessId).eval (u.answer c) w =
      (.ok (w.runningRow c.executionProcessId c.session.id c.runReason), inserted c w) := by
  rw [create_written hfresh h, call_allowed hstates rfl rfl, call_allowed hfind rfl rfl,
    findById_inserted hfresh]
  rfl

end

def endedRow (c : Call) (w : World) (status : ExecutionProcessStatus) (exitCode : Option Int)
    (now : Time) : ExecutionProcess :=
  { w.runningRow c.executionProcessId c.session.id c.runReason with
    status, exitCode, completedAt := ExecutionProcess.completedAt? status now }

theorem update_row (hfresh : Fresh c.executionProcessId w) {p : ExecutionProcess → Bool}
    {f : ExecutionProcess → ExecutionProcess}
    (hp : ∀ r, p r = true → r.id = c.executionProcessId)
    (hrow : p (w.runningRow c.executionProcessId c.session.id c.runReason) = true) :
    Table.update p f (inserted c w).executions =
      w.executions ++ [f (w.runningRow c.executionProcessId c.session.id c.runReason)] := by
  have hold : Table.update p f w.executions = w.executions := by
    apply Table.update_eq_self
    intro r hr
    rw [Bool.eq_false_iff]
    intro hpr
    exact hfresh.row r hr (hp r hpr)
  rw [Table.update] at hold
  rw [Table.update, inserted, List.map_append, hold]
  simp only [List.map_cons, hrow, ↓reduceIte, List.map_nil]

theorem updateCompletion_inserted (hfresh : Fresh c.executionProcessId w)
    (status : ExecutionProcessStatus) (exitCode : Option Int) (now : Time) :
    ExecutionProcess.updateCompletion (inserted c w).executions c.executionProcessId status exitCode now =
      w.executions ++ [endedRow c w status exitCode now] := by
  apply update_row hfresh
  · intro r hr
    exact of_decide_eq_true hr
  · exact decide_eq_true rfl

theorem completeRunningAttempt_inserted (hfresh : Fresh c.executionProcessId w)
    (status : ExecutionProcessStatus) (exitCode : Option Int) (now : Time) :
    ExecutionProcess.completeRunningAttempt (inserted c w).executions c.executionProcessId status
        exitCode now =
      (w.executions ++ [endedRow c w status exitCode now], true) := by
  apply Prod.ext
  · apply update_row hfresh
    · intro r hr
      exact (of_decide_eq_true hr).1
    · exact decide_eq_true ⟨rfl, rfl⟩
  · apply List.any_eq_true.2
    exact ⟨_, List.mem_append_right _ (List.mem_singleton.2 rfl), decide_eq_true ⟨rfl, rfl⟩⟩

structure Attached (c : Call) (w s : World) : Prop where
  executions : s.executions = (inserted c w).executions
  claimed : (∃ cmd ∈ s.commands, isBoundTo c.executionProcessId cmd = true) ↔ c.claims = true
  queue : ∀ sessionId, pending s.commands sessionId = pending w.commands sessionId

theorem pending_update {p : SessionCommand → Bool} {f : SessionCommand → SessionCommand}
    (hp : ∀ r, p r = true → r.state ≠ .pending) (hf : ∀ r, p r = true → (f r).state ≠ .pending)
    (t : Commands) (sessionId : Uuid) :
    pending (Table.update p f t) sessionId = pending t sessionId := by
  induction t with
  | nil => rfl
  | cons r t ih =>
    simp only [pending, Table.update] at ih
    simp only [pending, Table.update, List.map_cons, List.filter_cons, ih]
    cases hr : p r with
    | true =>
      have hno : isPending sessionId r = false := by simp [isPending, hp r hr]
      have hno' : isPending sessionId (f r) = false := by simp [isPending, hf r hr]
      simp only [↓reduceIte, hno, hno', Bool.false_eq_true]
    | false => simp only [Bool.false_eq_true, ↓reduceIte]

theorem pending_bound (t : Commands) (sessionId executionProcessId sessionId' : Uuid) :
    pending (Table.update (isUnbound sessionId)
      (fun cmd => { cmd with executionProcessId := some executionProcessId }) t) sessionId' =
      pending t sessionId' := by
  apply pending_update
  · intro r hr
    rw [(World.unbound_claimed hr).2.1]
    exact fun h => nomatch h
  · intro r hr
    change r.state ≠ .pending
    rw [(World.unbound_claimed hr).2.1]
    exact fun h => nomatch h

theorem pending_finishExecution (t : Commands) (executionProcessId : Uuid) (succeeded : Bool)
    (now : Time) (sessionId : Uuid) :
    pending (finishExecution t executionProcessId succeeded now) sessionId = pending t sessionId := by
  apply pending_update
  · intro r hr
    rw [(of_decide_eq_true hr : _ ∧ _).2]
    exact fun h => nomatch h
  · intro r hr
    cases succeeded <;> exact fun h => nomatch h

theorem finishExecution_settles {t : Commands} {executionProcessId : Uuid} {succeeded : Bool}
    : ∀ cmd ∈ finishExecution t executionProcessId succeeded now,
      isBoundTo executionProcessId cmd = false := by
  intro cmd hcmd
  rcases Table.mem_update.1 hcmd with ⟨r, -, -, rfl⟩ | ⟨-, hno⟩
  · cases succeeded <;> simp [isBoundTo, finish]
  · exact hno

theorem claimed_inserted (hfresh : Fresh c.executionProcessId w) :
    ∀ cmd ∈ w.commands, isBoundTo c.executionProcessId cmd = false := by
  intro cmd hcmd
  have hne := hfresh.commands cmd hcmd
  simp [isBoundTo, hne]

theorem any_inserted (c : Call) (w : World) :
    (inserted c w).executions.any (fun p => decide (p.id = c.executionProcessId)) = true :=
  List.any_eq_true.2 ⟨_, List.mem_append_right _ (List.mem_singleton.2 rfl), decide_eq_true rfl⟩

def bound (c : Call) (w : World) : World :=
  { inserted c w with
    commands := Table.update (isUnbound c.session.id)
      (fun cmd => { cmd with executionProcessId := some c.executionProcessId }) w.commands }

theorem perform_bind (c : Call) (w : World) :
    (inserted c w).perform (.bindExecution c.session.id c.executionProcessId) =
      (.ok (w.commands.countP (isUnbound c.session.id)), bound c w) := by
  have hbind : SessionCommand.bindExecution (inserted c w).executions w.commands c.session.id
      c.executionProcessId = some ((bound c w).commands, w.commands.countP (isUnbound c.session.id)) := by
    rw [SessionCommand.bindExecution, any_inserted, if_neg (fun h => h.2 rfl)]
    rfl
  have hcommands : (inserted c w).commands = w.commands := rfl
  simp only [World.perform, hcommands, hbind]
  rfl

def failed (c : Call) (u : Surroundings) (w : World) : World :=
  { inserted c w with executions :=
      if failedWritten c u = true then w.executions ++ [endedRow c w .failed none w.now]
      else (inserted c w).executions }

theorem fail_eval (hfresh : Fresh c.executionProcessId w) (error : ContainerError) :
    ∃ e, ((call (.updateCompletion c.executionProcessId .failed)).bind fun _ =>
        (.throw error : Task Unit)).eval (u.answer c) (inserted c w) = (.error e, failed c u w) := by
  by_cases hfails : u.fails (.updateCompletion c.executionProcessId .failed) = true
  · obtain ⟨e, he⟩ := call_refused (c := c) (s := inserted c w)
      (f := fun _ => (.throw error : Task Unit)) hfails rfl
    apply Exists.intro e
    rw [he, failed, failedWritten, hfails]
    rfl
  · apply Exists.intro error
    rw [call_allowed hfails rfl rfl, eval_throw, failed, failedWritten]
    simp only [hfails, Bool.false_eq_true, not_false_eq_true, decide_true, ↓reduceIte]
    rw [updateCompletion_inserted hfresh]
    rfl

theorem countP_unbound (w : World) (sessionId : Uuid) :
    w.commands.countP (isUnbound sessionId) = 0 ↔ w.commands.any (isUnbound sessionId) = false := by
  rw [List.countP_eq_zero, List.any_eq_false]

theorem bound_none (h : w.commands.any (isUnbound c.session.id) = false) :
    bound c w = inserted c w := by
  have hsame : Table.update (isUnbound c.session.id)
      (fun cmd => { cmd with executionProcessId := some c.executionProcessId }) w.commands =
      w.commands := by
    apply Table.update_eq_self
    intro r hr
    simpa using List.any_eq_false.1 h r hr
  rw [bound, hsame]
  rfl

abbrev Call.attach (c : Call) : Task Unit :=
  attachCommands c.session c.action c.runReason c.executionProcessId c.claimPendingCommands

theorem attach_bindRefused (hcoding : c.runReason = .codingAgent)
    (hclaim : c.claimPendingCommands = true)
    (hfails : u.fails (.bindExecution c.session.id c.executionProcessId) = true) :
    ∃ e, c.attach.eval (u.answer c) (inserted c w) = (.error e, inserted c w) := by
  simp only [Call.attach, attachCommands, if_pos hcoding, if_pos hclaim, bindClaimed, bind_def]
  exact call_refused hfails rfl

theorem attach_unbound (hfresh : Fresh c.executionProcessId w) (hcoding : c.runReason = .codingAgent)
    (hclaim : c.claimPendingCommands = true)
    (hbind : ¬ u.fails (.bindExecution c.session.id c.executionProcessId) = true)
    (hnone : w.commands.any (isUnbound c.session.id) = false) :
    ∃ e, c.attach.eval (u.answer c) (inserted c w) = (.error e, failed c u w) := by
  simp only [Call.attach, attachCommands, if_pos hcoding, if_pos hclaim, bindClaimed, bind_def]
  rw [call_allowed hbind rfl (perform_bind c w), if_pos ((countP_unbound w _).2 hnone),
    bound_none hnone]
  exact fail_eval hfresh _

theorem attach_bound (hcoding : c.runReason = .codingAgent) (hclaim : c.claimPendingCommands = true)
    (hbind : ¬ u.fails (.bindExecution c.session.id c.executionProcessId) = true)
    (hsome : ¬ w.commands.any (isUnbound c.session.id) = false) :
    c.attach.eval (u.answer c) (inserted c w) = (.ok (), bound c w) := by
  simp only [Call.attach, attachCommands, if_pos hcoding, if_pos hclaim, bindClaimed, bind_def]
  rw [call_allowed hbind rfl (perform_bind c w), if_neg (fun h => hsome ((countP_unbound w _).1 h))]
  rfl

theorem bound_attached (hcoding : c.runReason = .codingAgent) (hclaim : c.claimPendingCommands = true)
    (hsome : ¬ w.commands.any (isUnbound c.session.id) = false) : Attached c w (bound c w) where
  executions := rfl
  claimed := by
    rw [Bool.not_eq_false, List.any_eq_true] at hsome
    obtain ⟨cmd, hcmd, hunbound⟩ := hsome
    have hclaims : c.claims = true := by
      simp only [Call.claims, hcoding, hclaim, true_or, and_self, decide_true]
    apply iff_of_true _ hclaims
    refine ⟨_, Table.mem_update_of_true hcmd hunbound, ?_⟩
    exact decide_eq_true ⟨rfl, (World.unbound_claimed hunbound).2.1⟩
  queue sessionId := pending_bound _ _ _ _

theorem caught_refused {f : Except ContainerError op.Val → Task α}
    (he : u.answer c op s = (.error e, s)) :
    ((call op).attempt.bind f).eval (u.answer c) s = (f (.error e)).eval (u.answer c) s :=
  eval_bind_ok (eval_attempt (eval_perform_error he))

theorem caught_allowed {f : Except ContainerError op.Val → Task α} (h : ¬ u.fails op = true)
    (hb : u.before c op s = s) (hp : s.perform op = (.ok v, s')) :
    ((call op).attempt.bind f).eval (u.answer c) s = (f (.ok v)).eval (u.answer c) s' := by
  have he := answer_allowed (c := c) (s := s) h
  rw [hb, hp] at he
  exact eval_bind_ok (eval_attempt (eval_perform_ok he))

theorem attach_claimRefused (hfresh : Fresh c.executionProcessId w)
    (hcoding : c.runReason = .codingAgent) (hclaim : ¬ c.claimPendingCommands = true)
    (h : claimRefused c u = true) :
    ∃ e, c.attach.eval (u.answer c) (inserted c w) = (.error e, failed c u w) := by
  rw [claimRefused, Option.any_eq_true] at h
  obtain ⟨⟨body, executorConfig⟩, hrequest, hfails⟩ := h
  simp only [Call.attach, attachCommands, if_pos hcoding, if_neg hclaim, claimPrompt, hrequest, bind_def]
  obtain ⟨e, he⟩ := answer_refused (c := c) (s := inserted c w) hfails rfl
  rw [caught_refused he]
  exact fail_eval hfresh e

def promptRow (c : Call) (w : World) (body : String) (config : SessionCommandConfig) :
    SessionCommand where
  id := w.nextId
  sessionId := c.session.id
  dedupeKey := none
  intent := .continue
  body := body
  config := config
  state := .claimed
  executionProcessId := some c.executionProcessId
  attemptNumber := 1
  createdAt := w.now
  finishedAt := none

def prompted (c : Call) (w : World) (row : SessionCommand) : World :=
  { inserted c w with commands := w.commands ++ [row], nextId := w.nextId + 1 }

theorem prompted_attached (hcoding : c.runReason = .codingAgent) (hrequest : c.prompted = true)
    {row : SessionCommand} (hstate : row.state = .claimed)
    (hid : row.executionProcessId = some c.executionProcessId) : Attached c w (prompted c w row) where
  executions := rfl
  claimed := by
    have hclaims : c.claims = true := by
      simp only [Call.claims, hcoding, hrequest, or_true, and_self, decide_true]
    apply iff_of_true _ hclaims
    exact ⟨row, List.mem_append_right _ (List.mem_singleton.2 rfl), decide_eq_true ⟨hid, hstate⟩⟩
  queue sessionId := by
    have hno : isPending sessionId row = false := by simp [isPending, hstate]
    simp only [prompted, pending, List.filter_append, List.filter_cons, hno, Bool.false_eq_true,
      ↓reduceIte, List.filter_nil, List.append_nil]

theorem attach_prompted (hfresh : Fresh c.executionProcessId w) (hcoding : c.runReason = .codingAgent)
    (hclaim : ¬ c.claimPendingCommands = true) (h : ¬ claimRefused c u = true)
    (hprompted : c.prompted = true) :
    ∃ s, c.attach.eval (u.answer c) (inserted c w) = (.ok (), s) ∧ Attached c w s := by
  obtain ⟨⟨body, executorConfig⟩, hrequest⟩ := Option.isSome_iff_exists.1 hprompted
  simp only [claimRefused, hrequest, Option.any_some] at h
  have hnone : w.commands.any
      (fun cmd => decide (cmd.executionProcessId = some c.executionProcessId)) = false := by
    rw [List.any_eq_false]
    intro cmd hcmd
    simpa using hfresh.commands cmd hcmd
  have hcommands : (inserted c w).commands = w.commands := rfl
  simp only [Call.attach, attachCommands, if_pos hcoding, if_neg hclaim, claimPrompt, hrequest, bind_def]
  have hperform : ∀ config, (inserted c w).perform
      (.ensureClaimed c.session.id c.executionProcessId body config) =
        (.ok (), prompted c w (promptRow c w body config)) := by
    intro config
    simp only [World.perform, ensureClaimed, hcommands, hnone, any_inserted, Bool.false_eq_true,
      ↓reduceIte]
    rfl
  rw [caught_allowed h rfl (hperform _)]
  exact ⟨_, rfl, prompted_attached hcoding hprompted rfl rfl⟩

theorem inserted_attached (hfresh : Fresh c.executionProcessId w) (h : ¬ c.claims = true) :
    Attached c w (inserted c w) where
  executions := rfl
  claimed := by
    apply iff_of_false _ h
    rintro ⟨cmd, hcmd, hbound⟩
    rw [claimed_inserted hfresh cmd hcmd] at hbound
    cases hbound
  queue _ := rfl

theorem attach_nothing (h : ¬ c.claims = true)
    (hclaim : ¬ (c.runReason = .codingAgent ∧ c.claimPendingCommands = true)) :
    c.attach.eval (u.answer c) (inserted c w) = (.ok (), inserted c w) := by
  by_cases hcoding : c.runReason = .codingAgent
  · have hno : ¬ c.claimPendingCommands = true := fun hyes => hclaim ⟨hcoding, hyes⟩
    have hrequest : c.action.request = none := by
      simpa [Call.claims, Call.prompted, hcoding, hno] using h
    simp only [Call.attach, attachCommands, if_pos hcoding, if_neg hno, claimPrompt, hrequest]
    rfl
  · simp only [Call.attach, attachCommands, if_neg hcoding]
    rfl

theorem attach_ok (hfresh : Fresh c.executionProcessId w)
    (hbind : ¬ (c.runReason = .codingAgent ∧ c.claimPendingCommands = true ∧
      u.fails (.bindExecution c.session.id c.executionProcessId) = true))
    (hsome : ¬ (c.runReason = .codingAgent ∧ c.claimPendingCommands = true ∧
      ¬ w.commands.any (isUnbound c.session.id) = true))
    (hclaimed : ¬ (c.runReason = .codingAgent ∧ ¬ c.claimPendingCommands = true ∧
      claimRefused c u = true)) :
    ∃ s, c.attach.eval (u.answer c) (inserted c w) = (.ok (), s) ∧ Attached c w s := by
  by_cases hclaims : c.claims = true
  · have hcoding : c.runReason = .codingAgent := by
      rw [Call.claims, decide_eq_true_eq] at hclaims
      exact hclaims.1
    by_cases hclaim : c.claimPendingCommands = true
    · have hno : ¬ w.commands.any (isUnbound c.session.id) = false := by
        intro hno
        apply hsome
        exact ⟨hcoding, hclaim, by rw [hno]; exact Bool.false_ne_true⟩
      exact ⟨_, attach_bound hcoding hclaim (fun h => hbind ⟨hcoding, hclaim, h⟩) hno,
        bound_attached hcoding hclaim hno⟩
    · have hprompted : c.prompted = true := by
        rw [Call.claims, decide_eq_true_eq] at hclaims
        exact hclaims.2.resolve_left hclaim
      exact attach_prompted hfresh hcoding hclaim (fun h => hclaimed ⟨hcoding, hclaim, h⟩) hprompted
  · have hclaim : ¬ (c.runReason = .codingAgent ∧ c.claimPendingCommands = true) := by
      rintro ⟨hcoding, hclaim⟩
      apply hclaims
      simp only [Call.claims, hcoding, hclaim, true_or, and_self, decide_true]
    exact ⟨_, attach_nothing hclaims hclaim, inserted_attached hfresh hclaims⟩

theorem mem_inserted (c : Call) (w : World) :
    w.runningRow c.executionProcessId c.session.id c.runReason ∈ (inserted c w).executions :=
  List.mem_append_right _ (List.mem_singleton.2 rfl)

theorem running_left (h : w'.executions = (inserted c w).executions) :
    ¬ NothingLeft c.executionProcessId w w' := by
  intro hleft
  apply hleft.row (w.runningRow c.executionProcessId c.session.id c.runReason)
  · rw [h]
    exact mem_inserted c w
  · rfl
  · rfl

section
variable (hfresh : Fresh c.executionProcessId w)
include hfresh

theorem ended_left {status : ExecutionProcessStatus} {exitCode : Option Int} (hstatus : status ≠ .running)
    (hrow : w'.executions = w.executions ++ [endedRow c w status exitCode now])
    (hcommands : ∀ cmd ∈ w'.commands, isBoundTo c.executionProcessId cmd = false)
    (hqueue : ∀ sessionId, pending w'.commands sessionId = pending w.commands sessionId)
    (hstore : w'.external.msgStore c.executionProcessId = false) :
    NothingLeft c.executionProcessId w w' where
  row := by
    intro p hp hid
    rw [hrow, List.mem_append, List.mem_singleton] at hp
    rcases hp with hp | rfl
    · exact absurd hid (hfresh.row p hp)
    · exact hstatus
  commands := hcommands
  store := hstore
  capacity := by
    have hno : ExecutionProcess.runningCodingAgent (endedRow c w status exitCode now) = false := by
      simp [ExecutionProcess.runningCodingAgent, endedRow, hstatus]
    rw [hrow, ExecutionProcess.countRunningCodingAgents, List.countP_append, List.countP_singleton, hno]
    rfl
  agents sessionId := by
    have hno : ExecutionProcess.runningCodingAgent (endedRow c w status exitCode now) = false := by
      simp [ExecutionProcess.runningCodingAgent, endedRow, hstatus]
    rw [hrow, ExecutionProcess.hasRunningCodingAgentForSession, List.any_append]
    simp [hno, ExecutionProcess.hasRunningCodingAgentForSession]
  queue := hqueue

theorem nothing_left :
    NothingLeft c.executionProcessId w w where
  row p hp hid := absurd hid (hfresh.row p hp)
  commands := claimed_inserted hfresh
  store := hfresh.store
  capacity := rfl
  agents _ := rfl
  queue _ := rfl

theorem failed_left_iff :
    NothingLeft c.executionProcessId w (failed c u w) ↔ failedWritten c u = true := by
  constructor
  · intro hleft
    by_contra hno
    exact running_left (if_neg hno) hleft
  · intro hyes
    have hrow : (failed c u w).executions = w.executions ++ [endedRow c w .failed none w.now] :=
      if_pos hyes
    apply ended_left hfresh _ hrow
    · intro cmd hcmd
      exact claimed_inserted hfresh cmd hcmd
    · exact fun _ => rfl
    · exact hfresh.store
    · exact fun h => nomatch h

theorem settled_left_iff (hs : Attached c w s)
    {status : ExecutionProcessStatus} {exitCode : Option Int} {now' : Time} {succeeded : Bool}
    {completes finishes : Prop} [Decidable completes] [Decidable finishes] (hstatus : status ≠ .running)
    (hrow : w'.executions = if completes then
      (ExecutionProcess.completeRunningAttempt s.executions c.executionProcessId status exitCode now).1
      else s.executions)
    (hcommands : w'.commands = if finishes then
      finishExecution s.commands c.executionProcessId succeeded now' else s.commands)
    (hstore : w'.external.msgStore c.executionProcessId = false) :
    NothingLeft c.executionProcessId w w' ↔ completes ∧ (c.claims = true → finishes) := by
  by_cases hcompletes : completes
  · rw [if_pos hcompletes, hs.executions, completeRunningAttempt_inserted hfresh] at hrow
    by_cases hfinishes : finishes
    · rw [if_pos hfinishes] at hcommands
      apply iff_of_true _ ⟨hcompletes, fun _ => hfinishes⟩
      apply ended_left hfresh hstatus hrow _ _ hstore
      · rw [hcommands]
        exact finishExecution_settles
      · intro sessionId
        rw [hcommands, pending_finishExecution, hs.queue]
    · rw [if_neg hfinishes] at hcommands
      by_cases hclaims : c.claims = true
      · apply iff_of_false
        · intro hleft
          obtain ⟨cmd, hcmd, hbound⟩ := hs.claimed.2 hclaims
          rw [← hcommands] at hcmd
          rw [hleft.commands cmd hcmd] at hbound
          cases hbound
        · exact fun h => hfinishes (h.2 hclaims)
      · apply iff_of_true _ ⟨hcompletes, fun h => absurd h hclaims⟩
        apply ended_left hfresh hstatus hrow _ _ hstore
        · intro cmd hcmd
          rw [hcommands] at hcmd
          rw [Bool.eq_false_iff]
          exact fun hbound => hclaims (hs.claimed.1 ⟨cmd, hcmd, hbound⟩)
        · intro sessionId
          rw [hcommands, hs.queue]
  · rw [if_neg hcompletes, hs.executions] at hrow
    exact iff_of_false (running_left hrow) fun h => hcompletes h.1

end

theorem eval_insertMsgStore (id : Uuid) (s : World) :
    (insertMsgStore id).eval (u.exec c) s = (.ok (), s.setMsgStore id true) := rfl

theorem storeRemoved_ok {id : Uuid} {p : Task Unit} (h : p.eval (u.answer c) s = (.ok (), s')) :
    (storeRemoved id p).eval (u.exec c) s = (.ok (), s') := by
  rw [← eval_durable (c := c) (u := u)] at h
  simp only [storeRemoved, bind_def]
  rw [eval_bind_ok (eval_attempt h)]
  rfl

theorem storeRemoved_error {id : Uuid} {p : Task Unit}
    (h : p.eval (u.answer c) s = (.error e, s')) :
    (storeRemoved id p).eval (u.exec c) s = (.error e, s'.setMsgStore id false) := by
  rw [← eval_durable (c := c) (u := u)] at h
  simp only [storeRemoved, bind_def]
  rw [eval_bind_ok (eval_attempt h)]
  rfl

theorem unarchive_eval (c : Call) (u : Surroundings) (s : World) :
    if c.runReason ≠ .archiveScript ∧ u.fails (.setArchived c.workspace.id) = true then
      ∃ e, (unarchive c.workspace c.runReason).eval (u.answer c) s = (.error e, s)
    else (unarchive c.workspace c.runReason).eval (u.answer c) s = (.ok (), s) := by
  by_cases harchive : c.runReason = .archiveScript
  · simp only [harchive, ne_eq, not_true_eq_false, false_and, ↓reduceIte, unarchive]
    rfl
  · simp only [unarchive, if_neg harchive]
    split
    · rename_i h
      obtain ⟨e, he⟩ := answer_refused (c := c) (s := s) h.2 rfl
      exact ⟨e, eval_perform_error he⟩
    · rename_i h
      have hno : ¬ u.fails (.setArchived c.workspace.id) = true := fun hyes => h ⟨harchive, hyes⟩
      exact eval_perform_ok (answer_allowed hno)

theorem registerTurn_refused (h : turnRefused c u = true) (s : World) :
    ∃ e, (registerTurn c.executionProcessId c.action).eval (u.answer c) s = (.error e, s) := by
  rw [turnRefused, Option.any_eq_true] at h
  obtain ⟨⟨prompt, executorConfig⟩, hrequest, hfails⟩ := h
  simp only [registerTurn, hrequest, bind_def]
  exact call_refused hfails rfl

theorem registerTurn_ok (h : ¬ turnRefused c u = true) (s : World) :
    (registerTurn c.executionProcessId c.action).eval (u.answer c) s = (.ok (), s) := by
  cases hrequest : c.action.request with
  | none =>
    simp only [registerTurn, hrequest]
    rfl
  | some request =>
    obtain ⟨prompt, executorConfig⟩ := request
    simp only [turnRefused, hrequest, Option.any_some] at h
    simp only [registerTurn, hrequest, bind_def]
    rw [call_allowed h rfl rfl]
    split
    · rename_i modelId providerId _ _
      split
      · by_cases hupdate : u.fails
            (.updateSelectedModelProvider c.executionProcessId modelId providerId) = true
        · obtain ⟨e, he⟩ := answer_refused (c := c) (s := s) hupdate rfl
          rw [caught_refused he]
          rfl
        · rw [caught_allowed hupdate rfl rfl]
          rfl
      · rfl
    · rfl

theorem startInner_ok (h : ¬ u.fails (.startExecutionInner c.executionProcessId c.action) = true)
    (s : World) : (startInner c.executionProcessId c.action).eval (u.exec c) s = (.ok (), s) := by
  have he : (call (.startExecutionInner c.executionProcessId c.action)).eval (u.answer c) s = (.ok (), s) :=
    eval_perform_ok (answer_allowed h)
  rw [← eval_durable (c := c) (u := u)] at he
  simp only [startInner, bind_def]
  rw [eval_bind_ok (eval_attempt he)]
  rfl

theorem settle_eval {o : Op} {f : Except ContainerError o.Val → Start α}
    (hb : u.before c o s = s) (hok : (s.perform o).1.isOk = true) :
    ∃ answer, ((durable (call o)).attempt.bind f).eval (u.exec c) s =
      (f answer).eval (u.exec c) (if u.fails o = true then s else (s.perform o).2) := by
  by_cases hfails : u.fails o = true
  · obtain ⟨e, he⟩ := answer_refused hfails hb
    have hcall : (call o).eval (u.answer c) s = (.error e, s) := eval_perform_error he
    rw [← eval_durable (c := c) (u := u)] at hcall
    rw [if_pos hfails]
    exact ⟨_, eval_bind_ok (eval_attempt hcall)⟩
  · have he := answer_allowed (c := c) (s := s) hfails
    rw [hb] at he
    cases hp : s.perform o with
    | mk answer s' =>
      rw [hp] at he hok
      cases answer with
      | error e => cases hok
      | ok v =>
        have hcall : (call o).eval (u.answer c) s = (.ok v, s') := eval_perform_ok he
        rw [← eval_durable (c := c) (u := u)] at hcall
        rw [if_neg hfails]
        exact ⟨_, eval_bind_ok (eval_attempt hcall)⟩

def tried (u : Surroundings) (op : Op) (s : World) : World :=
  if u.fails op = true then s else (s.perform op).2

def settled (c : Call) (u : Surroundings) (s : World) : World :=
  tried u (.finishExecution c.executionProcessId false)
    (tried u (.completeRunningAttempt c.executionProcessId .failed)
      (s.setMsgStore c.executionProcessId false))

theorem startInner_error (h : u.fails (.startExecutionInner c.executionProcessId c.action) = true)
    (s : World) : ∃ e, (startInner c.executionProcessId c.action).eval (u.exec c) s =
      (.error e, settled c u s) := by
  obtain ⟨e, he⟩ := answer_refused (c := c) (s := s) h rfl
  have hcall : (call (.startExecutionInner c.executionProcessId c.action)).eval (u.answer c) s =
      (.error e, s) := eval_perform_error he
  rw [← eval_durable (c := c) (u := u)] at hcall
  obtain ⟨_, hcomplete⟩ := settle_eval (c := c) (u := u)
    (o := .completeRunningAttempt c.executionProcessId .failed)
    (s := s.setMsgStore c.executionProcessId false)
    (f := fun _ => ((durable (call (.finishExecution c.executionProcessId false))).attempt.bind
      fun _ => (.throw e : Start Unit))) rfl rfl
  obtain ⟨_, hfinish⟩ := settle_eval (c := c) (u := u)
    (o := .finishExecution c.executionProcessId false)
    (s := tried u (.completeRunningAttempt c.executionProcessId .failed)
      (s.setMsgStore c.executionProcessId false))
    (f := fun _ => (.throw e : Start Unit)) rfl rfl
  apply Exists.intro e
  simp only [startInner, bind_def]
  rw [eval_bind_ok (eval_attempt hcall)]
  exact hcomplete.trans hfinish

/-- A failing spawn leaves nothing exactly when its two statements are carried out, the second one
where commands are claimed. -/
theorem settled_left (hfresh : Fresh c.executionProcessId w) (hs : Attached c w s) :
    NothingLeft c.executionProcessId w (settled c u s) ↔ spawnSettled c u = true := by
  have hrow : (settled c u s).executions =
      if ¬ u.fails (.completeRunningAttempt c.executionProcessId .failed) = true then
        (ExecutionProcess.completeRunningAttempt s.executions c.executionProcessId .failed none s.now).1
      else s.executions := by
    simp only [settled, tried]
    split <;> split <;> rfl
  have hcommands : (settled c u s).commands =
      if ¬ u.fails (.finishExecution c.executionProcessId false) = true then
        finishExecution s.commands c.executionProcessId false s.now
      else s.commands := by
    simp only [settled, tried]
    split <;> split <;> rfl
  have hstore : (settled c u s).external.msgStore c.executionProcessId = false := by
    simp only [settled, tried]
    split <;> split <;> exact setMsgStore_msgStore s c.executionProcessId false
  have hstatus : ExecutionProcessStatus.failed ≠ .running := fun h => nomatch h
  rw [settled_left_iff hfresh hs hstatus hrow hcommands hstore, spawnSettled, decide_eq_true_eq]

theorem monitor_left (hfresh : Fresh c.executionProcessId w) (hs : Attached c w s)
    (m : ExitMonitor) :
    NothingLeft c.executionProcessId w ((m.act c s).setMsgStore c.executionProcessId false) ↔
      m.completes = true ∧ (c.claims = true → m.loadsContext = true ∧ m.finishes = true) := by
  have hwon : (ExecutionProcess.completeRunningAttempt s.executions c.executionProcessId m.status
      m.exitCode s.now).2 = true := by
    rw [hs.executions, completeRunningAttempt_inserted hfresh]
  have hrow : ((m.act c s).setMsgStore c.executionProcessId false).executions =
      if m.completes = true then (ExecutionProcess.completeRunningAttempt s.executions
        c.executionProcessId m.status m.exitCode s.now).1 else s.executions := by
    simp only [ExitMonitor.act]
    split <;> split <;> rfl
  have hcommands : ((m.act c s).setMsgStore c.executionProcessId false).commands =
      if m.completes = true ∧ m.loadsContext = true ∧ c.runReason = .codingAgent ∧
          m.finishes = true then
        finishExecution s.commands c.executionProcessId m.succeeded s.now
      else s.commands := by
    simp only [ExitMonitor.act, hwon, true_and]
    split
    · rfl
    · split <;> rfl
  have hstore : ((m.act c s).setMsgStore c.executionProcessId false).external.msgStore
      c.executionProcessId = false := setMsgStore_msgStore _ _ _
  rw [settled_left_iff hfresh hs m.terminal hrow hcommands hstore]
  constructor
  · rintro ⟨hcompletes, hfinished⟩
    exact ⟨hcompletes, fun hclaims => ⟨(hfinished hclaims).2.1, (hfinished hclaims).2.2.2⟩⟩
  · rintro ⟨hcompletes, hfinished⟩
    apply And.intro hcompletes
    intro hclaims
    have hcoding : c.runReason = .codingAgent := by
      rw [Call.claims, decide_eq_true_eq] at hclaims
      exact hclaims.1
    exact ⟨hcompletes, (hfinished hclaims).1, hcoding, (hfinished hclaims).2⟩

theorem normalizeLogs_ok (hstore : s.external.msgStore c.executionProcessId = true)
    (h : ¬ (c.prompted = true ∧ u.exited.isSome = true)) :
    ∃ s', (normalizeLogs c.executionProcessId c.action).eval (u.answer c) s = (.ok (), s') := by
  cases hrequest : c.action.request with
  | none =>
    simp only [normalizeLogs, hrequest]
    exact ⟨s, rfl⟩
  | some request =>
    have hnone : u.exited = none := by
      cases hexited : u.exited with
      | none => rfl
      | some m => exact absurd ⟨by rw [Call.prompted, hrequest]; rfl, by rw [hexited]; rfl⟩ h
    have hanswer : u.answer c (.getMsgStoreById c.executionProcessId) s = (.ok true, s) := by
      simp only [Surroundings.answer, Surroundings.before, hnone, World.exec]
      split
      · simp only [Op.refuses, Bool.false_eq_true, ↓reduceIte, World.perform, hstore]
      · simp only [World.perform, hstore]
    simp only [normalizeLogs, hrequest, bind_def]
    rw [call_answered hanswer]
    exact ⟨s, rfl⟩

theorem normalizeLogs_missing {m : ExitMonitor} (hprompted : c.prompted = true)
    (hexited : u.exited = some m) :
    ∃ e, (normalizeLogs c.executionProcessId c.action).eval (u.answer c) s = (.error e, m.act c s) := by
  obtain ⟨request, hrequest⟩ := Option.isSome_iff_exists.1 hprompted
  have hgone : (m.act c s).external.msgStore c.executionProcessId = false := by
    rw [ExitMonitor.act]
    exact setMsgStore_msgStore _ _ _
  have hanswer : u.answer c (.getMsgStoreById c.executionProcessId) s = (.ok false, m.act c s) := by
    simp only [Surroundings.answer, Surroundings.before, hexited, World.exec]
    split
    · simp only [Op.refuses, Bool.false_eq_true, ↓reduceIte, World.perform, hgone]
    · simp only [World.perform, hgone]
  simp only [normalizeLogs, hrequest, bind_def]
  rw [call_answered hanswer]
  exact ⟨_, rfl⟩

def Call.rest (c : Call) (executionProcess : ExecutionProcess) : Start ExecutionProcess := do
  insertMsgStore c.executionProcessId
  storeRemoved c.executionProcessId (unarchive c.workspace c.runReason)
  storeRemoved c.executionProcessId (registerTurn c.executionProcessId c.action)
  startInner c.executionProcessId c.action
  storeRemoved c.executionProcessId (normalizeLogs c.executionProcessId c.action)
  Pure.pure executionProcess

def restExits (c : Call) (u : Surroundings) : List (Bool × Bool) :=
  [ (c.runReason ≠ .archiveScript ∧ u.fails (.setArchived c.workspace.id), false),
    (turnRefused c u, false),
    (u.fails (.startExecutionInner c.executionProcessId c.action), spawnSettled c u),
    (c.prompted ∧ u.exited.isSome, monitorSettled c u) ]

theorem firstUndoes_true (b : Bool) (steps : List (Bool × Bool)) :
    firstUndoes ((true, b) :: steps) = b := rfl

theorem firstUndoes_false (b : Bool) (steps : List (Bool × Bool)) :
    firstUndoes ((false, b) :: steps) = firstUndoes steps := rfl

theorem rest_left (hfresh : Fresh c.executionProcessId w) (hs : Attached c w s)
    {executionProcess : ExecutionProcess}
    (h : (c.rest executionProcess).eval (u.exec c) s = (.error e, w')) :
    NothingLeft c.executionProcessId w w' ↔ firstUndoes (restExits c u) = true := by
  simp only [Call.rest, bind_def, eval_bind_ok (eval_insertMsgStore c.executionProcessId s)] at h
  have hs' : Attached c w (s.setMsgStore c.executionProcessId true) :=
    ⟨hs.executions, hs.claimed, hs.queue⟩
  have hunarchive := unarchive_eval c u (s.setMsgStore c.executionProcessId true)
  rw [restExits]
  by_cases harchive : c.runReason ≠ .archiveScript ∧ u.fails (.setArchived c.workspace.id) = true
  · rw [if_pos harchive] at hunarchive
    obtain ⟨e', he⟩ := hunarchive
    rw [eval_bind_error (storeRemoved_error he)] at h
    cases h
    rw [decide_eq_true harchive, firstUndoes_true]
    exact iff_of_false (running_left hs.executions) Bool.false_ne_true
  rw [if_neg harchive] at hunarchive
  rw [eval_bind_ok (storeRemoved_ok hunarchive)] at h
  rw [decide_eq_false harchive, firstUndoes_false]
  cases hturn : turnRefused c u with
  | true =>
    obtain ⟨e', he⟩ := registerTurn_refused hturn (s.setMsgStore c.executionProcessId true)
    rw [eval_bind_error (storeRemoved_error he)] at h
    cases h
    rw [firstUndoes_true]
    exact iff_of_false (running_left hs.executions) Bool.false_ne_true
  | false =>
    have hregister := registerTurn_ok (Bool.eq_false_iff.1 hturn) (s.setMsgStore c.executionProcessId true)
    rw [eval_bind_ok (storeRemoved_ok hregister)] at h
    rw [firstUndoes_false]
    cases hspawn : u.fails (.startExecutionInner c.executionProcessId c.action) with
    | true =>
      obtain ⟨e', he⟩ := startInner_error hspawn (s.setMsgStore c.executionProcessId true)
      rw [eval_bind_error he] at h
      cases h
      rw [firstUndoes_true]
      exact settled_left hfresh hs'
    | false =>
      rw [eval_bind_ok (startInner_ok (Bool.eq_false_iff.1 hspawn) _)] at h
      rw [firstUndoes_false]
      by_cases hexited : c.prompted = true ∧ u.exited.isSome = true
      · obtain ⟨m, hm⟩ := Option.isSome_iff_exists.1 hexited.2
        obtain ⟨e', he⟩ := normalizeLogs_missing (s := s.setMsgStore c.executionProcessId true) hexited.1 hm
        rw [eval_bind_error (storeRemoved_error he)] at h
        cases h
        rw [decide_eq_true hexited, firstUndoes_true, monitor_left hfresh hs', monitorSettled, hm,
          Option.any_some, decide_eq_true_eq]
      · obtain ⟨s', he⟩ := normalizeLogs_ok (u := u)
          (setMsgStore_msgStore s c.executionProcessId true) hexited
        rw [eval_bind_ok (storeRemoved_ok he)] at h
        cases h

def attachExits (c : Call) (u : Surroundings) (w : World) : List (Bool × Bool) :=
  (c.runReason = .codingAgent ∧ c.claimPendingCommands ∧
      u.fails (.bindExecution c.session.id c.executionProcessId), false) ::
    (c.runReason = .codingAgent ∧ c.claimPendingCommands ∧
      ¬ w.commands.any (isUnbound c.session.id), failedWritten c u) ::
    (c.runReason = .codingAgent ∧ ¬ c.claimPendingCommands ∧ claimRefused c u, failedWritten c u) ::
    restExits c u

theorem attach_left (hfresh : Fresh c.executionProcessId w) {executionProcess : ExecutionProcess}
    (h : ((durable c.attach).bind fun _ => c.rest executionProcess).eval (u.exec c) (inserted c w) =
      (.error e, w')) :
    NothingLeft c.executionProcessId w w' ↔ firstUndoes (attachExits c u w) = true := by
  rw [attachExits]
  by_cases hbind : c.runReason = .codingAgent ∧ c.claimPendingCommands = true ∧
      u.fails (.bindExecution c.session.id c.executionProcessId) = true
  · obtain ⟨e', he⟩ := attach_bindRefused (w := w) hbind.1 hbind.2.1 hbind.2.2
    rw [← eval_durable] at he
    rw [eval_bind_error he] at h
    cases h
    rw [decide_eq_true hbind, firstUndoes_true]
    exact iff_of_false (running_left rfl) Bool.false_ne_true
  rw [decide_eq_false hbind, firstUndoes_false]
  by_cases hsome : c.runReason = .codingAgent ∧ c.claimPendingCommands = true ∧
      ¬ w.commands.any (isUnbound c.session.id) = true
  · have hno : ¬ u.fails (.bindExecution c.session.id c.executionProcessId) = true :=
      fun hfails => hbind ⟨hsome.1, hsome.2.1, hfails⟩
    obtain ⟨e', he⟩ := attach_unbound hfresh hsome.1 hsome.2.1 hno (Bool.eq_false_iff.2 hsome.2.2)
    rw [← eval_durable] at he
    rw [eval_bind_error he] at h
    cases h
    rw [decide_eq_true hsome, firstUndoes_true]
    exact failed_left_iff hfresh
  rw [decide_eq_false hsome, firstUndoes_false]
  by_cases hclaimed : c.runReason = .codingAgent ∧ ¬ c.claimPendingCommands = true ∧
      claimRefused c u = true
  · obtain ⟨e', he⟩ := attach_claimRefused hfresh hclaimed.1 hclaimed.2.1 hclaimed.2.2
    rw [← eval_durable] at he
    rw [eval_bind_error he] at h
    cases h
    rw [decide_eq_true hclaimed, firstUndoes_true]
    exact failed_left_iff hfresh
  rw [decide_eq_false hclaimed, firstUndoes_false]
  obtain ⟨s, he, hs⟩ := attach_ok hfresh hbind hsome hclaimed
  rw [← eval_durable] at he
  rw [eval_bind_ok he] at h
  exact rest_left hfresh hs h

/-- A call that fails leaves nothing running exactly when the first step that fails is one whose
exit undoes what was done. -/
theorem startExecutionWithId_left (c : Call) (u : Surroundings) (w : World)
    (hfresh : Fresh c.executionProcessId w) {e : ContainerError} {w' : World}
    (h : startExecutionWithId c u w = (.error e, w')) :
    NothingLeft c.executionProcessId w w' ↔ undone c u w = true := by
  have hprogram : c.program = (durable (createExecution c.workspace c.session c.runReason
      c.executionProcessId)).bind fun executionProcess =>
        (durable c.attach).bind fun _ => c.rest executionProcess := rfl
  rw [startExecutionWithId, hprogram] at h
  rw [undone, exits]
  cases hcreated : notCreated c u w with
  | true =>
    obtain ⟨e', he⟩ := create_refused hfresh hcreated
    rw [← eval_durable] at he
    rw [eval_bind_error he] at h
    cases h
    exact iff_of_true (nothing_left hfresh) rfl
  | false =>
    rw [firstUndoes_false]
    cases hstates : u.fails (.createRepoStates c.executionProcessId) with
    | true =>
      obtain ⟨e', he⟩ := create_repoStates hfresh hcreated hstates
      rw [← eval_durable] at he
      rw [eval_bind_error he] at h
      cases h
      exact iff_of_false (running_left rfl) Bool.false_ne_true
    | false =>
      rw [firstUndoes_false]
      cases hfind : u.fails (.findExecution c.executionProcessId) with
      | true =>
        obtain ⟨e', he⟩ := create_readBack hfresh hcreated (Bool.eq_false_iff.1 hstates) hfind
        rw [← eval_durable] at he
        rw [eval_bind_error he] at h
        cases h
        exact iff_of_false (running_left rfl) Bool.false_ne_true
      | false =>
        have he := create_ok hfresh hcreated (Bool.eq_false_iff.1 hstates) (Bool.eq_false_iff.1 hfind)
        rw [← eval_durable] at he
        rw [eval_bind_ok he] at h
        rw [firstUndoes_false]
        exact attach_left hfresh h

def sampleCall : Call where
  workspace := ⟨1⟩
  session := ⟨2, 1, none, none⟩
  action := ⟨.codingAgentInitialRequest "fix it" (.new .codex) none, none, none⟩
  runReason := .codingAgent
  executionProcessId := 7
  claimPendingCommands := true

def sampleWorld : World where
  commands := [⟨3, 2, none, .continue, "fix it", ⟨.new .codex, none, none, none⟩,
    .claimed, none, 1, 0, none⟩]
  executions := []
  approvals := []
  external := ⟨[], [], fun _ => [5], fun _ => none, fun _ => none, fun _ config => config, fun _ => false⟩
  now := 10
  nextId := 8

theorem sampleWorld_fresh : Fresh sampleCall.executionProcessId sampleWorld where
  row := by decide
  commands := by decide
  store := rfl

def refusing (refused : Op → Bool) : Surroundings where
  refusal op := if refused op then some .sqlx else none
  exited := none

def isSetArchived : Op → Bool
  | .setArchived _ => true
  | _ => false

def isStartExecutionInner : Op → Bool
  | .startExecutionInner .. => true
  | _ => false

theorem startExecutionWithId_left_sample :
    NothingLeft sampleCall.executionProcessId sampleWorld
      (startExecutionWithId sampleCall (refusing isStartExecutionInner) sampleWorld).2 :=
  (startExecutionWithId_left sampleCall (refusing isStartExecutionInner) sampleWorld sampleWorld_fresh
    (e := .sqlx) rfl).2 rfl

/-- A workspace that cannot be taken out of the archive leaves the row running. -/
theorem startExecutionWithId_not_left :
    ¬ ∀ (c : Call) (u : Surroundings) (w : World), Fresh c.executionProcessId w →
      ∀ e w', startExecutionWithId c u w = (.error e, w') →
        NothingLeft c.executionProcessId w w' := by
  intro hall
  have hleft := hall sampleCall (refusing isSetArchived) sampleWorld sampleWorld_fresh .sqlx _ rfl
  exact hleft.row _ (mem_inserted sampleCall sampleWorld) rfl rfl

end Cdesktop.ExecutionStart
