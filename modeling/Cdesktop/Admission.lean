import Cdesktop.ServiceHistory

namespace Cdesktop
set_option autoImplicit true
open System Container SessionCommand

/-- The operations that turn a start away by failing: a drain, a full process table, a refused row. -/
def Op.turnsAway : Op → Bool
  | .admitExecutionStart | .ensureLaunchAdmission | .insertExecution .. => true
  | _ => false

/-- The event turns a start away, for want of a slot or by failing. -/
def declines (maxRunning : Nat) : ServiceEvent → Bool
  | .called .countRunningCodingAgents refusal w =>
    (w.exec .countRunningCodingAgents refusal).1.isOk ∧
      maxRunning ≤ ExecutionProcess.countRunningCodingAgents w.executions
  | .called op refusal w => op.turnsAway ∧ ¬ (w.exec op refusal).1.isOk
  | _ => false

def declined (maxRunning : Nat) : ServiceHistory → Bool
  | [] => false
  | .began .. :: _ => false
  | .called (.hasRunningCodingAgentForSession _) _ _ :: _ => false
  | ev :: h => declined maxRunning h || declines maxRunning ev

def creates : ServiceEvent → Bool
  | .called (.insertExecution e s runReason) refusal w =>
    (w.exec (.insertExecution e s runReason) refusal).1.isOk
  | _ => false

def created : ServiceHistory → Bool
  | [] => false
  | .began .. :: _ => false
  | .called (.hasRunningCodingAgentForSession _) _ _ :: _ => false
  | ev :: h => created h || creates ev

def someWaiting (h : ServiceHistory) (w : World) : Bool :=
  (claimed h).any fun c => w.commands.any fun r => r.id = c.id ∧ isUnbound r.sessionId r

/-- The event leaves the claimed batch waiting: its start is turned away other than by a full host,
or the release after a full host fails. -/
def abandons (maxRunning : Nat) (h : ServiceHistory) : ServiceEvent → Bool
  | .called (.releaseUnbound s) refusal w =>
    ¬ (w.exec (.releaseUnbound s) refusal).1.isOk ∧ someWaiting h w
  | .called .countRunningCodingAgents _ _ => false
  | .called op refusal w => declines maxRunning (.called op refusal w) ∧ someWaiting h w
  | _ => false

def abandoned (maxRunning : Nat) : ServiceHistory → Bool
  | [] => false
  | .began .. :: _ => false
  | .called (.hasRunningCodingAgentForSession _) _ _ :: _ => false
  | ev :: h => abandoned maxRunning h || abandons maxRunning h ev

/-- The claimed batch is back in the queue, but for what was cancelled. -/
def Requeued (h : ServiceHistory) (w : World) : Prop :=
  ∀ c ∈ claimed h, ∃ r ∈ w.commands, r.id = c.id ∧ (r.state = .pending ∨ r.state = .cancelled)

instance Requeued.decidable (h : ServiceHistory) (w : World) : Decidable (Requeued h w) :=
  inferInstanceAs (Decidable (∀ c ∈ claimed h, ∃ r ∈ w.commands, _))

def Entry.startsOnce : Entry → Bool
  | .startup => false
  | _ => true

def refusedLeavesQueue (maxRunning : Nat) (h : ServiceHistory) : ServiceEvent → Prop
  | .returned entry _ w =>
    entry.startsOnce = true → declined maxRunning h = true → created h = false ∧ Requeued h w
  | _ => True

instance refusedLeavesQueue.decidable (maxRunning : Nat) (h : ServiceHistory) (ev : ServiceEvent) :
    Decidable (refusedLeavesQueue maxRunning h ev) := by
  unfold refusedLeavesQueue
  split <;> infer_instance

/-- A coding agent is admitted below the maximum, and a start turned away creates no row and puts
its batch back unless it abandons it. -/
def admissionSound (maxRunning : Nat) (h : ServiceHistory) : ServiceEvent → Prop
  | .called (.insertExecution e s .codingAgent) refusal w =>
    (w.exec (.insertExecution e s .codingAgent) refusal).1.isOk = true →
      ExecutionProcess.countRunningCodingAgents
        (w.exec (.insertExecution e s .codingAgent) refusal).2.executions ≤ maxRunning
  | .returned entry _ w =>
    entry.startsOnce = true → declined maxRunning h = true →
      created h = false ∧ (abandoned maxRunning h = false → Requeued h w)
  | _ => True

def OneEach (w : World) : Prop :=
  ∀ s, w.executions.countP (fun p => p.sessionId = s ∧ p.runningCodingAgent) ≤ 1

def admission (maxRunning : Nat) : ServiceContract where
  ok _ _ := True
  always h w := OneEach w ∧ All (admissionSound maxRunning) h
  idle _ _ := True

def Room (maxRunning : Nat) (w : World) : Prop :=
  ExecutionProcess.countRunningCodingAgents w.executions < maxRunning

def Op.revives : Op → Bool
  | .updateCompletion _ status => status = .running
  | _ => false

variable {maxRunning : Nat} {sessionId : Uuid} {e : Uuid} {cs : List SessionCommand}

variable {w : World} {op : Op} {refusal : Option ContainerError} {h : ServiceHistory}
  {error : ContainerError} {s : Uuid} {runReason : ExecutionProcessRunReason}

theorem exec_countP (hop : op.revives = false)
    (hop' : ∀ e s runReason, op ≠ .insertExecution e s runReason) (q : ExecutionProcess → Bool)
    (hq : ∀ p r : ExecutionProcess, p.sessionId = r.sessionId → p.runReason = r.runReason →
      p.status = r.status → q p = q r)
    (hrun : ∀ p, q p = true → p.status = .running) (refusal : Option ContainerError) :
    (w.exec op refusal).2.executions.countP q ≤ w.executions.countP q := by
  cases hw : op.writesExecutions with
  | false => rw [World.exec_executions_eq hw]
  | true =>
    rcases w.exec_cases op refusal with ⟨error, -, -, hx⟩ | hx
    · rw [hx]
    · rw [hx]
      cases op with
      | insertExecution e s runReason => exact absurd rfl (hop' e s runReason)
      | updateCompletion e status =>
        apply Table.countP_update_mono
        intro p _ hqp
        have hst : status = .running := hrun _ hqp
        simp [Op.revives, hst] at hop
      | completeRunningAttempt e status =>
        apply Table.countP_update_mono
        intro p hp hqp
        have hst : status = .running := hrun _ hqp
        have hold := (of_decide_eq_true hp).2
        have hsame := hq p
          { p with
            status, exitCode := none, completedAt := ExecutionProcess.completedAt? status w.now }
          rfl rfl (hold.trans hst.symm)
        exact hsame.trans hqp
      | _ => cases hw

theorem act_countP (a : World.Act) (q : ExecutionProcess → Bool)
    (hq : ∀ p r : ExecutionProcess, p.sessionId = r.sessionId → p.runReason = r.runReason →
      p.status = r.status → q p = q r)
    (hrun : ∀ p, q p = true → p.status = .running) :
    (w.act a).executions.countP q ≤ w.executions.countP q := by
  cases a with
  | completeRunningAttempt e status exitCode =>
    apply Table.countP_update_mono
    intro p hp hqp
    have hst : status = .running := hrun _ hqp
    have hold := (of_decide_eq_true hp).2
    have hsame := hq p
      { p with status, exitCode, completedAt := ExecutionProcess.completedAt? status w.now }
      rfl rfl (hold.trans hst.symm)
    exact hsame.trans hqp
  | enqueue new =>
    simp only [World.act]
    split <;> exact le_refl _
  | _ => exact le_refl _

theorem runningCodingAgent_congr {p r : ExecutionProcess} (hr : p.runReason = r.runReason)
    (hs : p.status = r.status) : p.runningCodingAgent = r.runningCodingAgent := by
  simp only [ExecutionProcess.runningCodingAgent, hr, hs]

theorem runningCodingAgent_running {p : ExecutionProcess} (h : p.runningCodingAgent = true) :
    p.status = .running :=
  (of_decide_eq_true h).1

theorem OneEach.act (ho : OneEach w) (a : World.Act) : OneEach (w.act a) := by
  intro s
  refine (act_countP a _ ?_ ?_).trans (ho s)
  · intro p r hs hr hst
    simp only [hs, runningCodingAgent_congr hr hst]
  · intro p hp
    exact runningCodingAgent_running (of_decide_eq_true hp).2

theorem OneEach.exec (ho : OneEach w) (hop : op.revives = false)
    (refusal : Option ContainerError) : OneEach (w.exec op refusal).2 := by
  intro s
  by_cases hop' : ∃ e s runReason, op = .insertExecution e s runReason
  · obtain ⟨e, s', runReason, rfl⟩ := hop'
    rcases w.exec_cases (.insertExecution e s' runReason) refusal with ⟨error, -, -, hx⟩ | hx
    · rw [hx]
      exact ho s
    · rw [hx]
      cases hv : (w.perform (.insertExecution e s' runReason)).1 with
      | error error =>
        rw [World.insert_error hv]
        exact ho s
      | ok v =>
        obtain ⟨-, hno, hrow⟩ := World.insert_some hv
        rw [hrow, List.countP_append]
        by_cases hnew : s' = s ∧ runReason = .codingAgent
        · obtain ⟨rfl, rfl⟩ := hnew
          have hnone : w.executions.countP
              (fun p => p.sessionId = s' ∧ p.runningCodingAgent) = 0 := by
            apply List.countP_eq_zero.2
            intro p hp hpr
            exact hno ⟨rfl, List.any_eq_true.2 ⟨p, hp, hpr⟩⟩
          rw [hnone, Nat.zero_add]
          exact List.countP_le_length
        · have hzero : [w.runningRow e s' runReason].countP
              (fun p => p.sessionId = s ∧ p.runningCodingAgent) = 0 := by
            apply List.countP_eq_zero.2
            intro p hp hpr
            obtain rfl := List.mem_singleton.1 hp
            obtain ⟨hs, hr⟩ := of_decide_eq_true hpr
            exact hnew ⟨hs, (of_decide_eq_true hr).2⟩
          rw [hzero, Nat.add_zero]
          exact ho s
  · refine (exec_countP hop (fun e s runReason h => hop' ⟨e, s, runReason, h⟩) _ ?_ ?_
      refusal).trans (ho s)
    · intro p r hs hr hst
      simp only [hs, runningCodingAgent_congr hr hst]
    · intro p hp
      exact runningCodingAgent_running (of_decide_eq_true hp).2

theorem Room.act (hr : Room maxRunning w) (a : World.Act) :
    Room maxRunning (w.act a) :=
  (act_countP a _ (fun _ _ _ => runningCodingAgent_congr)
    fun _ => runningCodingAgent_running).trans_lt hr

theorem Room.exec (hr : Room maxRunning w) (hop : op.revives = false)
    (hop' : ∀ e s runReason, op ≠ .insertExecution e s runReason)
    (refusal : Option ContainerError) : Room maxRunning (w.exec op refusal).2 :=
  (exec_countP hop hop' _ (fun _ _ _ => runningCodingAgent_congr)
    (fun _ => runningCodingAgent_running) refusal).trans_lt hr

def Op.starts : Op → Bool
  | .hasRunningCodingAgentForSession _ | .insertExecution .. => true
  | op => op.admits

theorem declined_act (a : World.Act) (w : World) (h : ServiceHistory) :
    declined maxRunning (.acted a w :: h) = declined maxRunning h :=
  Bool.or_false _

theorem created_act (a : World.Act) (w : World) (h : ServiceHistory) :
    created (.acted a w :: h) = created h :=
  Bool.or_false _

theorem abandoned_act (a : World.Act) (w : World) (h : ServiceHistory) :
    abandoned maxRunning (.acted a w :: h) = abandoned maxRunning h :=
  Bool.or_false _

theorem declined_called (hop : op.starts = false) (refusal : Option ContainerError)
    (w : World) (h : ServiceHistory) :
    declined maxRunning (.called op refusal w :: h) = declined maxRunning h := by
  cases op <;> first | exact Bool.or_false _ | cases hop

theorem created_called (hop : op.starts = false) (refusal : Option ContainerError)
    (w : World) (h : ServiceHistory) : created (.called op refusal w :: h) = created h := by
  cases op <;> first | exact Bool.or_false _ | cases hop

theorem created_reads (hop : op.reads = true)
    : created (.called op refusal w :: h) = created h := by
  cases op <;> first | exact Bool.or_false _ | cases hop

theorem abandoned_called (hop : op.starts = false) (hop' : ∀ s, op ≠ .releaseUnbound s)
    (refusal : Option ContainerError) (w : World) (h : ServiceHistory) :
    abandoned maxRunning (.called op refusal w :: h) = abandoned maxRunning h := by
  cases op with
  | releaseUnbound s => exact absurd rfl (hop' s)
  | hasRunningCodingAgentForSession | insertExecution | countRunningCodingAgents
  | admitExecutionStart | ensureLaunchAdmission => cases hop
  | _ => simp [abandoned, abandons, declines, Op.turnsAway]

def Calm (maxRunning : Nat) (h : ServiceHistory) (_ : World) : Prop :=
  declined maxRunning h = false ∧ created h = false

def Holding (maxRunning : Nat) (sessionId : Uuid) (cs : List SessionCommand) : ServiceAssertion :=
  fun h w => Calm maxRunning h w ∧ HeldBatch sessionId cs h w

def Undeclined (maxRunning : Nat) (h : ServiceHistory) (_ : World) : Prop :=
  declined maxRunning h = false

def Declined (maxRunning : Nat) : ServiceAssertion := fun h w =>
  declined maxRunning h = true →
    created h = false ∧ (abandoned maxRunning h = false → Requeued h w)

theorem Undeclined.declined {w' : World} (hu : Undeclined maxRunning h w) :
    Declined maxRunning h w' := by
  intro hd
  rw [hu] at hd
  cases hd

theorem admission_act (hj : (admission maxRunning).always h w)
    (a : World.Act) : (admission maxRunning).always (.acted a w :: h) (w.act a) :=
  ⟨hj.1.act a, trivial, hj.2⟩

theorem admission_called (hj : (admission maxRunning).always h w) (hop : op.revives = false)
    (hop' : ∀ e s runReason, op ≠ .insertExecution e s runReason)
    (refusal : Option ContainerError) :
    (admission maxRunning).always (.called op refusal w :: h) (w.exec op refusal).2 := by
  refine ⟨hj.1.exec hop refusal, ?_, hj.2⟩
  cases op with
  | insertExecution e s runReason => exact absurd rfl (hop' e s runReason)
  | _ => trivial

theorem Requeued.act (hq : Requeued h w) (a : World.Act) :
    Requeued (.acted a w :: h) (w.act a) := by
  intro c hc
  obtain ⟨r, hr, hid, hst⟩ := hq c hc
  rcases hst with hst | hst
  · obtain ⟨r', hr', hid', hst'⟩ := World.act_pending a hr hst
    exact ⟨r', hr', hid'.trans hid, hst'⟩
  · exact ⟨r, World.act_settled a hr (.inr hst), hid, .inr hst⟩

theorem Requeued.called (hq : Requeued h w)
    (hop : op.reads = true ∨ op.settles = true) (refusal : Option ContainerError) :
    Requeued (.called op refusal w :: h) (w.exec op refusal).2 := by
  have hclaim : ∀ s, op ≠ .claimPending s := by
    rintro s rfl
    rcases hop with hop | hop <;> cases hop
  intro c hc
  rw [claimed_called hclaim] at hc
  obtain ⟨r, hr, hid, hst⟩ := hq c hc
  refine ⟨r, ?_, hid, hst⟩
  cases hw : op.writesCommands with
  | false =>
    rw [World.exec_commands_eq hw]
    exact hr
  | true =>
    cases op with
    | finishExecution e succeeded =>
      rcases w.exec_cases (.finishExecution e succeeded) refusal with ⟨_, -, -, hx⟩ | hx
      · rw [hx]
        exact hr
      · rw [hx]
        apply Table.mem_update_of_false hr
        rcases hst with hst | hst <;> simp [isBoundTo, hst]
    | releaseUnbound | claimPending | bindExecution | ensureClaimed | releaseExecution
    | requeueKilledExecution => rcases hop with hop | hop <;> cases hop
    | _ => cases hw

theorem HeldBatch.requeued (hb : HeldBatch sessionId cs h w)
    (hno : someWaiting h w = false) : Requeued h w := by
  intro c hc
  obtain ⟨r, hr, hid, hst⟩ := hb.rows c (hb.claimed ▸ hc)
  refine ⟨r, hr, hid, .inr (hst.resolve_left fun hu => ?_)⟩
  have hs : r.sessionId = sessionId := (World.unbound_claimed hu).1
  have hw : someWaiting h w = true := by
    refine List.any_eq_true.2 ⟨c, hc, List.any_eq_true.2 ⟨r, hr, decide_eq_true ⟨hid, ?_⟩⟩⟩
    rw [hs]
    exact hu
  rw [hno] at hw
  cases hw

theorem HeldBatch.released (hb : HeldBatch sessionId cs h w) (refusal : Option ContainerError) :
    Requeued (.called (.releaseUnbound sessionId) refusal w :: h)
      (w.perform (.releaseUnbound sessionId)).2 := by
  intro c hc
  obtain ⟨r, hr, hid, hst⟩ := hb.rows c (hb.claimed ▸ hc)
  rcases hst with hu | hst
  · exact ⟨{ r with state := .pending }, Table.mem_update_of_true hr hu, hid, .inl rfl⟩
  · refine ⟨r, Table.mem_update_of_false hr ?_, hid, .inr hst⟩
    simp [isUnbound, hst]

theorem stable_calm : (container maxRunning).Stable (admission maxRunning) (Calm maxRunning) :=
  fun h w a _ _ hc => ⟨(declined_act a w h).trans hc.1, (created_act a w h).trans hc.2⟩

theorem stable_holding :
    (container maxRunning).Stable (admission maxRunning) (Holding maxRunning sessionId cs) :=
  fun h w a hok hj hb => ⟨stable_calm h w a hok hj hb.1, hb.2.act a⟩

theorem stable_undeclined :
    (container maxRunning).Stable (admission maxRunning) (Undeclined maxRunning) :=
  fun h w a _ _ hu => (declined_act a w h).trans hu

theorem stable_declined :
    (container maxRunning).Stable (admission maxRunning) (Declined maxRunning) := by
  intro h w a _ _ hd hdeclined
  obtain ⟨hcreated, hq⟩ := hd ((declined_act a w h).symm.trans hdeclined)
  exact ⟨(created_act a w h).trans hcreated,
    fun hab => (hq ((abandoned_act a w h).symm.trans hab)).act a⟩

theorem calm_effect (hop : op.starts = false) (hno : op.revives = false) :
    (container maxRunning).Effect (admission maxRunning) (Calm maxRunning) op
      (fun _ => Calm maxRunning) (fun _ => Declined maxRunning) := by
  intro h w refusal hc hj _
  refine ⟨admission_called hj hno (by rintro e s r rfl; cases hop) refusal, ?_⟩
  have hd := (declined_called hop refusal w h).trans hc.1
  cases ((container maxRunning).exec op refusal w).1 with
  | ok => exact ⟨hd, (created_called hop refusal w h).trans hc.2⟩
  | error => exact Undeclined.declined (w := w) hd

theorem undeclined_effect (hop : op.starts = false) (hno : op.revives = false) :
    (container maxRunning).Effect (admission maxRunning) (Undeclined maxRunning) op
      (fun _ => Undeclined maxRunning) (fun _ => Undeclined maxRunning) := by
  intro h w refusal hu hj _
  refine ⟨admission_called hj hno (by rintro e s r rfl; cases hop) refusal, ?_⟩
  have hd := (declined_called hop refusal w h).trans hu
  cases ((container maxRunning).exec op refusal w).1 <;> exact hd

theorem holding_effect (hop : op.starts = false) (hno : op.revives = false)
    (hw : op.writesCommands = false) :
    (container maxRunning).Effect (admission maxRunning) (Holding maxRunning sessionId cs) op
      (fun _ => Holding maxRunning sessionId cs) (fun _ => Declined maxRunning) := by
  intro h w refusal hb hj hok
  obtain ⟨hj', hr⟩ := calm_effect hop hno h w refusal hb.1 hj hok
  refine ⟨hj', ?_⟩
  have hb' : HeldBatch sessionId cs (.called op refusal w :: h)
      ((container maxRunning).exec op refusal w).2 := hb.2.called hw refusal
  cases hx : ((container maxRunning).exec op refusal w).1 with
  | ok =>
    rw [hx] at hr
    exact ⟨hr, hb'⟩
  | error =>
    rw [hx] at hr
    exact hr

theorem declined_effect (hop : op.starts = false) (hkeep : op.reads = true ∨ op.settles = true) :
    (container maxRunning).Effect (admission maxRunning) (Declined maxRunning) op
      (fun _ => Declined maxRunning) (fun _ => Declined maxRunning) := by
  intro h w refusal hd hj _
  have hno : op.revives = false := by
    cases op with
    | updateCompletion e status => simpa [Op.settles, Op.reads, Op.revives] using hkeep
    | _ => rfl
  have hrelease : ∀ s, op ≠ .releaseUnbound s := by
    rintro s rfl
    rcases hkeep with hkeep | hkeep <;> cases hkeep
  refine ⟨admission_called hj hno (by rintro e s r rfl; cases hop) refusal, ?_⟩
  have hd' : Declined maxRunning (.called op refusal w :: h) (w.exec op refusal).2 := by
    intro hdeclined
    obtain ⟨hcreated, hq⟩ := hd ((declined_called hop refusal w h).symm.trans hdeclined)
    refine ⟨(created_called hop refusal w h).trans hcreated, fun hab => ?_⟩
    exact (hq ((abandoned_called hop hrelease refusal w h).symm.trans hab)).called hkeep refusal
  cases ((container maxRunning).exec op refusal w).1 <;> exact hd'

theorem running_effect {A : ServiceAssertion} :
    (container maxRunning).Effect (admission maxRunning) A
      (.hasRunningCodingAgentForSession sessionId)
      (fun v => if v = true then Declined maxRunning else Calm maxRunning)
      (fun _ => Declined maxRunning) := by
  refine effect_intro (fun hj _ => admission_called hj rfl (by simp))
    (fun h w e _ _ _ _ => Undeclined.declined (w := w) rfl) fun h w refusal _ _ _ _ => ?_
  change (if _ = true then Declined maxRunning else Calm maxRunning) _ _
  split
  · exact Undeclined.declined (w := w) rfl
  · exact ⟨rfl, rfl⟩

theorem Calm.failed (hc : Calm maxRunning h w) (hop : op.turnsAway = true)
    (hx : (w.exec op refusal).1 = .error error) : created (.called op refusal w :: h) = false := by
  have hfail : (w.exec op refusal).1.isOk = false := by
    rw [hx]
    rfl
  have hcreated : created h = false := hc.2
  cases op with
  | admitExecutionStart | ensureLaunchAdmission | insertExecution =>
    simp [created, creates, hcreated, hfail]
  | _ => cases hop

theorem Calm.passed (hc : Calm maxRunning h w) {v : op.Val} (hop : op.turnsAway = true)
    (hx : (w.exec op refusal).1 = .ok v) : declined maxRunning (.called op refusal w :: h) = false := by
  have hpass : (w.exec op refusal).1.isOk = true := by
    rw [hx]
    rfl
  have hd : declined maxRunning h = false := hc.1
  cases op with
  | admitExecutionStart | ensureLaunchAdmission | insertExecution =>
    simp [declined, declines, hd, hpass]
  | _ => cases hop

theorem Holding.failed (hb : Holding maxRunning sessionId cs h w) (hop : op.turnsAway = true)
    (hx : (w.exec op refusal).1 = .error error) :
    Declined maxRunning (.called op refusal w :: h) w := by
  intro _
  have hfail : (w.exec op refusal).1.isOk = false := by
    rw [hx]
    rfl
  refine ⟨hb.1.failed hop hx, fun hab c hc => ?_⟩
  have hno : someWaiting h w = false := by
    have hab' : (abandoned maxRunning h || someWaiting h w) = false := by
      cases op with
      | admitExecutionStart | ensureLaunchAdmission | insertExecution =>
        simpa [abandoned, abandons, declines, hfail, Op.turnsAway] using hab
      | _ => cases hop
    exact (Bool.or_eq_false_iff.1 hab').2
  rw [claimed_called (by rintro s rfl; cases hop)] at hc
  exact hb.2.requeued hno c hc

def Admitted (maxRunning : Nat) (sessionId : Uuid) (cs : List SessionCommand) : ServiceAssertion :=
  fun h w => Holding maxRunning sessionId cs h w ∧ Room maxRunning w

def Full (sessionId : Uuid) (cs : List SessionCommand) : ServiceAssertion :=
  fun h w => created h = false ∧ HeldBatch sessionId cs h w

theorem stable_admitted :
    (container maxRunning).Stable (admission maxRunning) (Admitted maxRunning sessionId cs) :=
  fun h w a hok hj hb => ⟨stable_holding h w a hok hj hb.1, hb.2.act a⟩

theorem stable_full :
    (container maxRunning).Stable (admission maxRunning) (Full sessionId cs) :=
  fun h w a _ _ hb => ⟨(created_act a w h).trans hb.1, hb.2.act a⟩

theorem holding_admission :
    (container maxRunning).Effect (admission maxRunning) (Holding maxRunning sessionId cs)
      .countRunningCodingAgents
      (fun n => if maxRunning ≤ n then Full sessionId cs else Admitted maxRunning sessionId cs)
      (fun _ => Declined maxRunning) := by
  refine effect_intro (fun hj _ => admission_called hj rfl (by simp)) ?_ ?_
  · intro h w e hb _ he _
    have hx : w.exec .countRunningCodingAgents (some e) = (.error e, w) := by
      rw [World.exec_some, if_pos he]
    have hd : declined maxRunning (.called .countRunningCodingAgents (some e) w :: h) = false := by
      have hno : declined maxRunning h = false := hb.1.1
      simp [declined, declines, hno, hx, Except.isOk, Except.toBool]
    exact Undeclined.declined (w := w) hd
  · intro h w refusal hb _ _ hx
    have hcreated : created (.called .countRunningCodingAgents refusal w :: h) = false :=
      (Bool.or_false _).trans hb.1.2
    have hheld : HeldBatch sessionId cs (.called .countRunningCodingAgents refusal w :: h) w := by
      have hsame := hb.2.called (show Op.writesCommands .countRunningCodingAgents = false from rfl)
        refusal
      rw [hx] at hsame
      exact hsame
    change (if maxRunning ≤ ExecutionProcess.countRunningCodingAgents w.executions then
      Full sessionId cs else Admitted maxRunning sessionId cs) _ w
    split
    · exact ⟨hcreated, hheld⟩
    · rename_i hroom
      have hno : declined maxRunning h = false := hb.1.1
      refine ⟨⟨⟨?_, hcreated⟩, hheld⟩, Nat.lt_of_not_le hroom⟩
      simp [declined, declines, hno, hroom]

theorem full_release :
    (container maxRunning).Effect (admission maxRunning) (Full sessionId cs)
      (.releaseUnbound sessionId) (fun _ => Declined maxRunning) (fun _ => Declined maxRunning) := by
  refine effect_intro (fun hj _ => admission_called hj rfl (by simp)) ?_ ?_
  · intro h w e hb _ he _ _
    have hx : w.exec (.releaseUnbound sessionId) (some e) = (.error e, w) := by
      rw [World.exec_some, if_pos he]
    refine ⟨(Bool.or_false _).trans hb.1, fun hab c hc => ?_⟩
    have hno : someWaiting h w = false := by
      simp [abandoned, abandons, hx, Except.isOk, Except.toBool] at hab
      exact hab.2
    exact hb.2.requeued hno c hc
  · intro h w refusal hb _ _ _ _
    exact ⟨(Bool.or_false _).trans hb.1, fun _ => hb.2.released refusal⟩

theorem admitted_admits (hop : op.turnsAway = true) (hop' : op.reads = true) :
    (container maxRunning).Effect (admission maxRunning) (Admitted maxRunning sessionId cs) op
      (fun _ => Admitted maxRunning sessionId cs) (fun _ => Declined maxRunning) := by
  have hins : ∀ e s r, op ≠ .insertExecution e s r := by
    rintro e s r rfl
    cases hop'
  have hno : op.revives = false := by cases op <;> first | rfl | cases hop'
  refine effect_intro (fun hj _ => admission_called hj hno hins) ?_ ?_
  · intro h w e hb _ he _
    exact hb.1.failed hop (World.exec_refused he)
  · intro h w refusal hb _ _ hx
    have hheld := hb.1.2.called (Op.reads_writes hop').1 refusal
    have hroom := hb.2.exec hno hins refusal
    rw [hx] at hheld hroom
    cases hv : (w.perform op).1 with
    | error error => exact absurd hv (World.perform_reads hop')
    | ok v =>
      have hv' : (w.exec op refusal).1 = .ok v := by rw [hx, hv]
      exact ⟨⟨⟨hb.1.1.passed hop hv', (created_reads hop').trans hb.1.1.2⟩, hheld⟩, hroom⟩

theorem admission_insert (hj : (admission maxRunning).always h w)
    (hroom : runReason = .codingAgent → Room maxRunning w) (refusal : Option ContainerError) :
    (admission maxRunning).always (.called (.insertExecution e s runReason) refusal w :: h)
      (w.exec (.insertExecution e s runReason) refusal).2 := by
  refine ⟨hj.1.exec rfl refusal, ?_, hj.2⟩
  cases runReason with
  | codingAgent =>
    intro _
    have hlt : ExecutionProcess.countRunningCodingAgents w.executions < maxRunning := hroom rfl
    rcases w.exec_cases (.insertExecution e s .codingAgent) refusal with ⟨error, -, -, hx⟩ | hx
    · rw [hx]
      exact hlt.le
    · rw [hx]
      cases hv : (w.perform (.insertExecution e s .codingAgent)).1 with
      | error error =>
        rw [World.insert_error hv]
        exact hlt.le
      | ok v =>
        rw [(World.insert_some hv).2.2]
        simp only [ExecutionProcess.countRunningCodingAgents, List.countP_append] at hlt ⊢
        have hone := List.countP_le_length (p := ExecutionProcess.runningCodingAgent)
          (l := [w.runningRow e s .codingAgent])
        simp only [List.length_singleton] at hone
        omega
  | _ => trivial

theorem admitted_insert :
    (container maxRunning).Effect (admission maxRunning) (Admitted maxRunning sessionId cs)
      (.insertExecution e s .codingAgent) (fun _ => Undeclined maxRunning)
      (fun _ => Declined maxRunning) := by
  refine effect_intro (fun hj hb => admission_insert hj (fun _ => hb.2)) ?_ ?_
  · intro h w error hb _ he _
    exact hb.1.failed rfl (World.exec_refused he)
  · intro h w refusal hb _ _ hx
    cases hv : (w.perform (.insertExecution e s .codingAgent)).1 with
    | error error =>
      rw [World.insert_error hv]
      exact hb.1.failed rfl ((congrArg Prod.fst hx).trans hv)
    | ok v =>
      have hv' : (w.exec (.insertExecution e s .codingAgent) refusal).1 = .ok v := by rw [hx, hv]
      exact hb.1.1.passed rfl hv'

theorem Op.quiet_reads (h : op.reads = true) (hno : op.admits = false) :
    op.starts = false ∧ op.revives = false := by
  cases op with
  | countRunningCodingAgents | admitExecutionStart | ensureLaunchAdmission => cases hno
  | _ => first | exact ⟨rfl, rfl⟩ | cases h

theorem Op.quiet_settles (h : op.settles = true) :
    op.starts = false ∧ op.revives = false := by
  cases op with
  | updateCompletion e status => exact ⟨rfl, by simpa [Op.settles, Op.revives] using h⟩
  | completeRunningAttempt | finishExecution => exact ⟨rfl, rfl⟩
  | _ => cases h

theorem Op.quiet_gates (h : op.gates = true ∨ op.records = true) :
    op.starts = false ∧ op.revives = false ∧ op.writesCommands = false := by
  cases op <;> first | exact ⟨rfl, rfl, rfl⟩ | (rcases h with h | h <;> cases h)

theorem Calm.declined {w' : World} (hc : Calm maxRunning h w) :
    Declined maxRunning h w' :=
  Undeclined.declined (w := w) hc.1

theorem undeclined_start (hop : op.starts = false) (hno : op.revives = false) :
    (container maxRunning).Effect (admission maxRunning) (Undeclined maxRunning) op
      (fun _ => Undeclined maxRunning) (fun _ => Declined maxRunning) :=
  (undeclined_effect hop hno).mono (fun _ _ _ hu => hu) fun _ _ _ hu => hu.declined

theorem admitted_effect (hop : op.starts = false) (hno : op.revives = false)
    (hw : op.writesCommands = false) :
    (container maxRunning).Effect (admission maxRunning) (Admitted maxRunning sessionId cs) op
      (fun _ => Admitted maxRunning sessionId cs) (fun _ => Declined maxRunning) := by
  intro h w refusal hb hj hok
  obtain ⟨hj', hr⟩ := holding_effect hop hno hw h w refusal hb.1 hj hok
  have hroom : Room maxRunning ((container maxRunning).exec op refusal w).2 :=
    hb.2.exec hno (by rintro e s r rfl; cases hop) refusal
  refine ⟨hj', ?_⟩
  cases hx : ((container maxRunning).exec op refusal w).1 with
  | ok =>
    rw [hx] at hr
    exact ⟨hr, hroom⟩
  | error =>
    rw [hx] at hr
    exact hr

theorem calm_claim :
    (container maxRunning).Effect (admission maxRunning) (Calm maxRunning) (.claimPending sessionId)
      (fun cs => if cs = [] then Declined maxRunning else Holding maxRunning sessionId cs)
      (fun _ => Declined maxRunning) := by
  refine effect_intro (fun hj _ => admission_called hj rfl (by simp)) ?_ ?_
  · intro h w e hc _ _ _
    have hd : declined maxRunning (.called (.claimPending sessionId) (some e) w :: h) = false :=
      (declined_called rfl _ w h).trans hc.1
    exact Undeclined.declined (w := w) hd
  · intro h w refusal hc _ _ hx
    have hc' : Calm maxRunning (.called (.claimPending sessionId) refusal w :: h)
        (w.perform (.claimPending sessionId)).2 :=
      ⟨(declined_called rfl _ w h).trans hc.1, (created_called rfl _ w h).trans hc.2⟩
    change (if (claimPending w.commands sessionId).2 = [] then Declined maxRunning
      else Holding maxRunning sessionId (claimPending w.commands sessionId).2) _ _
    split
    · exact hc'.declined
    · rename_i hne
      exact ⟨hc', HeldBatch.claim hx hne⟩

theorem holding_quiet (hop : op.gates = true ∨ op.records = true) :
    (container maxRunning).Effect (admission maxRunning) (Holding maxRunning sessionId cs) op
      (fun _ => Holding maxRunning sessionId cs) (fun _ => Declined maxRunning) :=
  holding_effect (Op.quiet_gates hop).1 (Op.quiet_gates hop).2.1 (Op.quiet_gates hop).2.2

def admissionOutline (maxRunning : Nat) (sessionId : Uuid) :
    Outline (admission maxRunning) maxRunning sessionId where
  entering _ _ := True
  opening := Calm maxRunning
  released := Calm maxRunning
  drawn _ := Calm maxRunning
  claimed _ := Holding maxRunning sessionId
  authorized _ := Holding maxRunning sessionId
  held _ _ := Calm maxRunning
  ready _ := Holding maxRunning sessionId
  admitted _ := Admitted maxRunning sessionId
  full _ := Full sessionId
  created _ _ := Undeclined maxRunning
  emptied _ := Declined maxRunning
  bound _ _ := Undeclined maxRunning
  lost _ := Declined maxRunning
  isOver := Declined maxRunning
  failed := Declined maxRunning
  stable_entering _ _ _ _ _ _ := trivial
  stable_opening := stable_calm
  stable_released := stable_calm
  stable_drawn _ := stable_calm
  stable_held _ _ := stable_calm
  stable_ready _ _ := stable_holding
  stable_full _ _ := stable_full
  stable_created _ _ := stable_undeclined
  stable_emptied _ := stable_declined
  stable_bound _ _ := stable_undeclined
  stable_lost _ := stable_declined
  stable_over := stable_declined
  running := running_effect
  headGate := .consequence (headGate_keeps stable_calm sessionId (calm_effect rfl rfl) fun op hop =>
    calm_effect (Op.quiet_gates (.inl hop)).1 (Op.quiet_gates (.inl hop)).2.1) (fun _ _ h => h)
      (fun d h w hc => by
        split
        · exact hc
        · exact hc.declined) fun _ _ _ h => h
  release := calm_effect rfl rfl
  draw := calm_effect rfl rfl
  claim _ := calm_claim
  gate _ first rest := .consequence (gate_keeps stable_holding first fun op hop =>
    holding_quiet (.inl hop)) (fun _ _ h => h) (fun d h w hb => by
      split
      · exact hb
      · exact hb.1) fun _ _ _ h => h
  record e first rest := .consequence (recordLaunch_keeps stable_holding first e fun op hop =>
    holding_quiet (.inr hop)) (fun _ _ h => h) (fun b h w hb => by
      split
      · exact hb
      · exact hb.1) fun _ _ _ h => h
  putBack _ _ := (calm_effect rfl rfl).mono (fun _ _ _ hc => hc.declined)
    fun _ _ _ h => h
  prepare _ first rest := prepareLaunch_keeps stable_holding
    (fun _ _ hb => hb.1.declined) (fun op hop hno => holding_effect (Op.quiet_reads hop hno).1
      (Op.quiet_reads hop hno).2 (Op.reads_writes hop).1)
    sessionId first.config _
  admission _ _ := holding_admission
  putBackFull _ _ := full_release
  create e cs workspace session _ := createExecution_rule stable_admitted stable_undeclined workspace
    session .codingAgent e (admitted_admits rfl rfl) (admitted_admits rfl rfl) ((admitted_effect rfl rfl
    rfl).mono (fun _ _ _ hb => by
      split
      · exact hb.1.1.declined
      · exact hb) fun _ _ _ h => h)
    admitted_insert (undeclined_start rfl rfl) ((undeclined_start rfl rfl).mono (fun _ _ _ hu => by
      split
      · exact hu.declined
      · exact hu) fun _ _ _ h => h)
  bind _ _ := (undeclined_start rfl rfl).mono (fun _ _ _ hu => by
    split
    · exact hu.declined
    · exact hu) fun _ _ _ h => h
  fail _ := declined_effect rfl (.inr rfl)
  bound_reads _ _ op hop hno := undeclined_effect (Op.quiet_reads hop hno).1
    (Op.quiet_reads hop hno).2
  bound_lost _ _ _ _ hu := hu.declined
  spawn e _ action _ _ := spawnChild_keeps stable_undeclined stable_declined e action
    ((undeclined_effect rfl rfl).mono (fun _ _ _ hu => hu.declined)
      fun _ _ _ hu => hu.declined) fun _ hop =>
      declined_effect (Op.quiet_settles hop).1 (.inr hop)
  over_reads _ hop hno := declined_effect (Op.quiet_reads hop hno).1 (.inl hop)
  over_lost _ _ _ h := h
  lose _ := declined_effect rfl (.inr rfl)

def Fresh (maxRunning : Nat) : ServiceAssertion := fun h w => Calm maxRunning h w ∧ claimed h = []

def Slot (maxRunning : Nat) (runReason : ExecutionProcessRunReason) : ServiceAssertion :=
  fun h w => Fresh maxRunning h w ∧ (runReason = .codingAgent → Room maxRunning w)

theorem stable_fresh : (container maxRunning).Stable (admission maxRunning) (Fresh maxRunning) :=
  fun h w a hok hj hf => ⟨stable_calm h w a hok hj hf.1, hf.2⟩

theorem stable_slot :
    (container maxRunning).Stable (admission maxRunning) (Slot maxRunning runReason) :=
  fun h w a hok hj hs => ⟨stable_fresh h w a hok hj hs.1, fun hr => (hs.2 hr).act a⟩

theorem Fresh.declined (hclaimed : claimed h = [])
    (hcreated : created h = false) : Declined maxRunning h w := by
  refine fun _ => ⟨hcreated, fun _ c hc => ?_⟩
  rw [hclaimed] at hc
  cases hc

theorem slot_effect (hop : op.starts = false)
    (hno : op.revives = false) (hclaim : ∀ s, op ≠ .claimPending s) :
    (container maxRunning).Effect (admission maxRunning) (Slot maxRunning runReason) op
      (fun _ => Slot maxRunning runReason) (fun _ => Declined maxRunning) := by
  intro h w refusal hs hj hok
  obtain ⟨hj', hr⟩ := calm_effect hop hno h w refusal hs.1.1 hj hok
  refine ⟨hj', ?_⟩
  have hclaimed := (claimed_called hclaim refusal w h).trans hs.1.2
  cases hx : ((container maxRunning).exec op refusal w).1 with
  | ok =>
    rw [hx] at hr
    exact ⟨⟨hr, hclaimed⟩,
      fun hreason => (hs.2 hreason).exec hno (by rintro e s r rfl; cases hop) refusal⟩
  | error =>
    rw [hx] at hr
    exact hr

theorem slot_failed (hs : Slot maxRunning runReason h w)
    (hop : op.turnsAway = true) (hx : (w.exec op refusal).1 = .error error) :
    Declined maxRunning (.called op refusal w :: h) w := by
  have hclaimed : claimed (.called op refusal w :: h) = [] :=
    (claimed_called (by rintro s rfl; cases hop) refusal w h).trans hs.1.2
  exact Fresh.declined hclaimed (hs.1.1.failed hop hx)

theorem slot_admits (hop : op.turnsAway = true) (hop' : op.reads = true) :
    (container maxRunning).Effect (admission maxRunning) (Slot maxRunning runReason) op
      (fun _ => Slot maxRunning runReason) (fun _ => Declined maxRunning) := by
  have hins : ∀ e s r, op ≠ .insertExecution e s r := by
    rintro e s r rfl
    cases hop'
  have hno : op.revives = false := by cases op <;> first | rfl | cases hop'
  refine effect_intro (fun hj _ => admission_called hj hno hins) ?_ ?_
  · intro h w e hs _ he _
    exact slot_failed hs hop (World.exec_refused he)
  · intro h w refusal hs _ _ hx
    have hclaim : ∀ s, op ≠ .claimPending s := by
      rintro s rfl
      cases hop
    have hclaimed := (claimed_called hclaim refusal w h).trans hs.1.2
    cases hv : (w.perform op).1 with
    | error error => exact absurd hv (World.perform_reads hop')
    | ok v =>
      have hv' : (w.exec op refusal).1 = .ok v := by rw [hx, hv]
      refine ⟨⟨⟨hs.1.1.passed hop hv', (created_reads hop').trans hs.1.1.2⟩, hclaimed⟩, ?_⟩
      intro hreason
      have hroom := (hs.2 hreason).exec hno hins refusal
      rw [hx] at hroom
      exact hroom

theorem slot_insert :
    (container maxRunning).Effect (admission maxRunning) (Slot maxRunning runReason)
      (.insertExecution e s runReason) (fun _ => Undeclined maxRunning)
      (fun _ => Declined maxRunning) := by
  refine effect_intro (fun hj hs => admission_insert hj hs.2) ?_ ?_
  · intro h w error hs _ he _
    exact slot_failed hs rfl (World.exec_refused he)
  · intro h w refusal hs _ _ hx
    cases hv : (w.perform (.insertExecution e s runReason)).1 with
    | error error =>
      rw [World.insert_error hv]
      exact slot_failed hs rfl ((congrArg Prod.fst hx).trans hv)
    | ok v =>
      have hv' : (w.exec (.insertExecution e s runReason) refusal).1 = .ok v := by rw [hx, hv]
      exact hs.1.1.passed rfl hv'

theorem fresh_admission :
    (container maxRunning).Effect (admission maxRunning) (Fresh maxRunning) .countRunningCodingAgents
      (fun n => if maxRunning ≤ n then Declined maxRunning else Slot maxRunning .codingAgent)
      (fun _ => Declined maxRunning) := by
  refine effect_intro (fun hj _ => admission_called hj rfl (by simp)) ?_ ?_
  · intro h w e hf _ _ _
    exact Fresh.declined hf.2 ((Bool.or_false _).trans hf.1.2)
  · intro h w refusal hf _ _ hx
    have hcreated : created (.called .countRunningCodingAgents refusal w :: h) = false :=
      (Bool.or_false _).trans hf.1.2
    change (if maxRunning ≤ ExecutionProcess.countRunningCodingAgents w.executions then
      Declined maxRunning else Slot maxRunning .codingAgent) _ w
    split
    · exact Fresh.declined hf.2 hcreated
    · rename_i hroom
      have hno : declined maxRunning h = false := hf.1.1
      refine ⟨⟨⟨?_, hcreated⟩, hf.2⟩, fun _ => Nat.lt_of_not_le hroom⟩
      simp [declined, declines, hno, hroom]

theorem admitStart_slot (runReason : ExecutionProcessRunReason) :
    (container maxRunning).Triple (admission maxRunning) (Fresh maxRunning)
      (admitStart maxRunning runReason) (fun _ => Slot maxRunning runReason)
      (fun _ => Declined maxRunning) := by
  by_cases hr : runReason = .codingAgent
  · subst hr
    refine .perform_bind
      (D := fun n : Nat => if maxRunning ≤ n then Declined maxRunning else Slot maxRunning .codingAgent)
      stable_fresh fresh_admission fun n => ?_
    by_cases hn : maxRunning ≤ n
    · simp only [hn, ↓reduceIte]
      exact .throw fun _ _ h => h
    · simp only [hn, ↓reduceIte]
      exact .pure fun _ _ h => h
  · simp only [admitStart, hr, ↓reduceIte]
    exact .pure fun _ _ hf => ⟨hf, fun h => absurd h hr⟩

theorem undeclined_attaches (hop : op.attaches = true) :
    (container maxRunning).Effect (admission maxRunning) (Undeclined maxRunning) op
      (fun _ => Undeclined maxRunning) (fun _ => Undeclined maxRunning) := by
  cases op with
  | hasRunningCodingAgentForSession s =>
    intro h w refusal _ hj _
    refine ⟨admission_called hj rfl (by simp) refusal, ?_⟩
    cases ((container maxRunning).exec (.hasRunningCodingAgentForSession s) refusal w).1 <;> rfl
  | updateCompletion e status =>
    exact undeclined_effect rfl (by simpa [Op.attaches, Op.direct, Op.revives] using hop)
  | countRunningCodingAgents | admitExecutionStart | ensureLaunchAdmission | insertExecution =>
    cases hop
  | _ => exact undeclined_effect rfl rfl

theorem startExecution_admission (workspace : Workspace) (session : Session)
    (action : ExecutorAction) (runReason : ExecutionProcessRunReason) :
    (container maxRunning).Triple (admission maxRunning) (Fresh maxRunning)
      (startExecution maxRunning workspace session action runReason) (fun _ => Declined maxRunning)
      (fun _ => Declined maxRunning) := by
  refine .bind (admitStart_slot runReason) fun _ => ?_
  refine .perform_bind (D := fun _ => Slot maxRunning runReason) stable_slot
    (slot_effect rfl rfl (by simp)) fun e => ?_
  refine .bind (B := fun _ => Undeclined maxRunning) ?_ fun process => ?_
  · refine .consequence (createExecution_rule stable_slot stable_undeclined workspace session
      runReason e (slot_admits rfl rfl) (slot_admits rfl rfl) ?_ slot_insert
      (undeclined_start rfl rfl) ?_) (fun _ _ h => h) (fun _ _ _ h => h) fun _ _ _ h => h.1
    · refine (slot_effect rfl rfl (by simp)).mono (fun repositories _ _ hs => ?_) fun _ _ _ h => h
      split
      · exact hs.1.1.declined
      · exact hs
    · refine (undeclined_start rfl rfl).mono (fun process _ _ hu => ?_) fun _ _ _ h => h
      split
      · exact hu.declined
      · exact hu
  · have hcalls : (attachCommands session action runReason e false |>.bind fun _ =>
        launchChild workspace action runReason process e).Calls fun op => op.attaches = true :=
      Program.Calls.bind (attachCommands_calls session action runReason e) fun _ =>
        launchChild_calls workspace action runReason process e
    exact (Triple.of_calls hcalls stable_undeclined fun _ => undeclined_attaches).consequence
      (fun _ _ h => h) (fun _ _ _ hu => hu.declined) fun _ _ _ hu => hu.declined

theorem nothing_effect (hop : op.recovers = true ∨ op.reads = true) :
    (container maxRunning).Effect (admission maxRunning) (fun _ _ => True) op (fun _ _ _ => True)
      (fun _ _ _ => True) := by
  have hno : op.revives = false := by
    cases op with
    | updateCompletion e status => simpa [Op.recovers, Op.reads, Op.revives] using hop
    | _ => rfl
  intro h w refusal _ hj _
  refine ⟨admission_called hj hno ?_ refusal, ?_⟩
  · rintro e s r rfl
    rcases hop with hop | hop <;> cases hop
  · cases ((container maxRunning).exec op refusal w).1 <;> trivial

theorem admission_keeps (maxRunning : Nat) : Keeps (container maxRunning) (admission maxRunning) := by
  refine Keeps.of_triples (C := fun entry => match entry with
      | .startExecution .. => Fresh maxRunning
      | _ => fun _ _ => True)
    (D := fun entry _ => match entry with
      | .startup => fun _ _ => True
      | _ => Declined maxRunning) (fun _ _ a _ hj _ => admission_act hj a) (fun _ _ _ _ _ _ => trivial)
    (fun h w _ hj => ⟨⟨hj.1, trivial, hj.2⟩, trivial⟩) ?_ (fun entry => ?_) ?_
  · intro entry h w _ hj _
    refine ⟨⟨hj.1, trivial, hj.2⟩, ?_⟩
    cases entry with
    | startExecution => exact ⟨⟨rfl, rfl⟩, rfl⟩
    | _ => trivial
  · cases entry with
    | dispatchPendingCommands sessionId =>
      exact (admissionOutline maxRunning sessionId).dispatchPendingCommands
    | startExecution workspace session action runReason =>
      exact .bind (startExecution_admission workspace session action runReason) fun _ =>
        .pure fun _ _ h => h
    | startup =>
      exact .bind (Outline.startup (admissionOutline maxRunning) (fun _ _ _ _ _ _ => trivial)
        (fun _ _ _ _ _ _ => trivial) (fun op hop => nothing_effect (.inl hop))
        (fun op hop => nothing_effect (.inr hop)) (fun _ _ h => h) (fun _ _ _ h => h)
        (fun _ _ _ _ => trivial) fun _ _ _ _ => trivial) fun _ => .pure fun _ _ h => h
  · intro entry r h w hd hj _
    refine ⟨⟨hj.1, ?_, hj.2⟩, trivial⟩
    cases entry with
    | startup => intro hno; cases hno
    | _ => exact fun _ => hd

/-- In every run coding agents are admitted below the maximum, one to a session, and a start that is
turned away creates no row and puts its batch back unless it abandons it. -/
theorem admission_sound (maxRunning : Nat) (w : World) (hw : OneEach w)
    (labels : List (Label ContainerError World.Act Entry)) :
    OneEach ((container maxRunning).run (System.start w) labels).state ∧
      All (admissionSound maxRunning)
        ((container maxRunning).run (System.start w) labels).history := by
  have hstart : Kept (container maxRunning) (admission maxRunning) (System.start w) :=
    ⟨⟨hw, trivial⟩, trivial⟩
  exact ((admission_keeps maxRunning).run hstart labels (All.of_forall (fun _ _ => trivial) _)).1

def drainedRun : List (Label ContainerError World.Act Entry) :=
  [.act (.enqueue (sampleCommand "queued")), .begin (.dispatchPendingCommands 1)] ++
    List.replicate 13 (.call none) ++ [.call (some .maintenanceDrain)] ++
      List.replicate 5 (.call none)

theorem drain_keeps_claim :
    ¬ All (refusedLeavesQueue 4) ((container 4).run (System.start sampleWorld) drainedRun).history := by
  decide +kernel

/-- A start is turned away, and an agent is admitted after it. -/
def admittedRun : List (Label ContainerError World.Act Entry) :=
  drainedRun ++ [.act (.enqueue (sampleCommand "sent")), .begin (.dispatchPendingCommands 1)] ++
    List.replicate 20 (.call none)

theorem admission_sound_sample :
    OneEach ((container 4).run (System.start sampleWorld) admittedRun).state ∧
      All (admissionSound 4) ((container 4).run (System.start sampleWorld) admittedRun).history :=
  admission_sound 4 sampleWorld (fun _ => Nat.zero_le 1) admittedRun

end Cdesktop
