import Cdesktop.Container

namespace Cdesktop
set_option autoImplicit true
open System Container

abbrev ServiceEvent := Event World Op ContainerError World.Act Entry (Option ExecutionProcess)

abbrev ServiceHistory := History World Op ContainerError World.Act Entry (Option ExecutionProcess)

abbrev ServiceContract :=
  Contract World Op ContainerError World.Act Entry (Option ExecutionProcess)

abbrev ServiceAssertion :=
  Assertion World Op ContainerError World.Act Entry (Option ExecutionProcess)

/-- The operations that leave every table of the dispatcher as it is, but for the one that opens a
dispatch. -/
def Op.reads : Op → Bool
  | .pending _ | .findLatestForCommand _ | .findSession _ | .findWorkspace _
  | .ensureContainerExists _ | .latestExecutorProfileForSession _ | .updateExecutor ..
  | .resolveForLaunch .. | .findLatestSessionInfo _ | .countRunningCodingAgents
  | .admitExecutionStart | .ensureLaunchAdmission | .findReposForWorkspace _ | .createRepoStates _
  | .findExecution _ | .setArchived _ | .createTurn .. | .updateSelectedModelProvider ..
  | .getMsgStoreById _ | .findRunning | .pendingSessionIds => true
  | _ => false

def Op.settles : Op → Bool
  | .updateCompletion _ status => status ≠ .running
  | .completeRunningAttempt _ status => status ≠ .running
  | .finishExecution .. => true
  | _ => false

def Op.ofDispatch : Op → Bool
  | .ensurePending .. | .ensureBlocked .. | .releaseUnbound _ | .claimPending _
  | .consumeApproval .. | .recordAutoStart .. | .bindExecution .. => true
  | _ => false

def Op.direct : Op → Bool
  | .updateCompletion _ status => status ≠ .running
  | .completeRunningAttempt _ status => status ≠ .running
  | op => ¬ op.ofDispatch

def Op.looksUp : Op → Bool
  | .findSession _ | .findWorkspace _ | .latestExecutorProfileForSession _
  | .findReposForWorkspace _ | .findExecution _ => true
  | _ => false

def Op.admits : Op → Bool
  | .countRunningCodingAgents | .admitExecutionStart | .ensureLaunchAdmission => true
  | _ => false

def Op.attaches : Op → Bool
  | .countRunningCodingAgents | .admitExecutionStart | .ensureLaunchAdmission
  | .insertExecution .. => false
  | op => op.direct

variable {op : Op} {w : World} {e : ContainerError}

theorem Op.direct_of_attaches (h : op.attaches = true) : op.direct = true := by
  cases op <;> first | rfl | exact h

def Op.recovers : Op → Bool
  | .findRunning | .releaseExecution _ | .requeueKilledExecution _ => true
  | .updateCompletion _ status => status ≠ .running
  | _ => false

theorem Op.direct_of_recovers (h : op.recovers = true) : op.direct = true := by
  cases op <;> first | rfl | exact h | cases h

def Op.gates : Op → Bool
  | .findLatestForCommand _ | .ensurePending .. | .ensureBlocked .. => true
  | _ => false

def Op.records : Op → Bool
  | .consumeApproval .. | .recordAutoStart .. => true
  | _ => false

namespace World

theorem exec_some (w : World) (op : Op) (e : ContainerError) :
    w.exec op (some e) = if op.refuses e then (.error e, w) else w.perform op := rfl

theorem exec_cases (w : World) (op : Op) (refusal : Option ContainerError) :
    (∃ e, refusal = some e ∧ op.refuses e = true ∧ w.exec op refusal = (.error e, w)) ∨
      w.exec op refusal = w.perform op := by
  cases refusal with
  | none => exact .inr rfl
  | some e =>
    rw [exec_some]
    by_cases h : op.refuses e = true
    · exact .inl ⟨e, rfl, h, if_pos h⟩
    · exact .inr (if_neg h)

theorem exec_refused (he : op.refuses e = true) :
    (w.exec op (some e)).1 = .error e := by
  rw [exec_some, if_pos he]

theorem refuses_ne_capacity (h : op.refuses e = true) :
    e ≠ .codingAgentCapacity := by
  rintro rfl
  cases op <;> simp [Op.refuses] at h

theorem perform_error (h : (w.perform op).1 = .error e) :
    e = .sqlx := by
  cases op with
  | insertExecution e s runReason =>
    simp only [perform] at h
    split at h
    · cases h
    · exact (Except.error.inj h).symm
  | bindExecution s e =>
    simp only [perform] at h
    split at h
    · cases h
    · exact (Except.error.inj h).symm
  | ensureClaimed s e body config =>
    simp only [perform] at h
    split at h
    · cases h
    · exact (Except.error.inj h).symm
  | _ => cases h

theorem exec_error {refusal : Option ContainerError}
    (h : (w.exec op refusal).1 = .error e) : e ≠ .codingAgentCapacity := by
  rcases w.exec_cases op refusal with ⟨e', -, he', hx⟩ | hx
  · rw [hx] at h
    cases h
    exact refuses_ne_capacity he'
  · rw [hx] at h
    rw [perform_error h]
    simp

theorem exec_ok {refusal : Option ContainerError} {v : op.Val}
    (h : (w.exec op refusal).1 = .ok v) : (w.perform op).1 = .ok v := by
  rcases w.exec_cases op refusal with ⟨e, -, -, hx⟩ | hx
  · rw [hx] at h
    cases h
  · rw [← hx]
    exact h

theorem perform_reads (hop : op.reads = true) :
    (w.perform op).1 ≠ .error e := by
  intro h
  cases op <;> first | cases h | cases hop

end World

namespace Container
open Program

theorem admitStart_calls (maxRunning : Nat) (runReason : ExecutionProcessRunReason) :
    (admitStart maxRunning runReason).Calls fun op => op.direct = true := by
  simp only [admitStart]
  split
  · refine Calls.bind (.perform rfl) fun running => ?_
    split <;> trivial
  · trivial

theorem createExecution_calls (workspace : Workspace) (session : Session)
    (runReason : ExecutionProcessRunReason) (e : Uuid) :
    (createExecution workspace session runReason e).Calls fun op => op.direct = true := by
  refine Calls.bind (.perform rfl) fun _ => Calls.bind (.perform rfl) fun _ =>
    Calls.bind (.perform rfl) fun repositories => ?_
  split
  · trivial
  · exact Calls.bind (.perform rfl) fun _ => Calls.bind (.perform rfl) fun _ =>
      Calls.bind (.perform rfl) fun _ => .orThrow _ _

theorem claimPrompt_calls (sessionId e : Uuid) (action : ExecutorAction) :
    (claimPrompt sessionId e action).Calls fun op => op.attaches = true := by
  simp only [claimPrompt]
  split
  · trivial
  · refine Calls.bind (.attempt (.perform rfl)) fun outcome => ?_
    cases outcome with
    | ok => trivial
    | error => exact Calls.bind (.perform rfl) fun _ => trivial

theorem registerTurn_calls (e : Uuid) (action : ExecutorAction) :
    (registerTurn e action).Calls fun op => op.attaches = true := by
  simp only [registerTurn]
  split
  · trivial
  · refine Calls.bind (.perform rfl) fun _ => ?_
    split
    · split
      · exact Calls.bind (.attempt (.perform rfl)) fun _ => trivial
      · trivial
    · trivial

theorem spawnChild_calls (e : Uuid) (action : ExecutorAction) :
    (spawnChild e action).Calls fun op => op.attaches = true := by
  refine Calls.bind (.attempt (.perform rfl)) fun outcome => ?_
  cases outcome with
  | ok => trivial
  | error =>
    exact Calls.bind (.attempt (.perform rfl)) fun _ => Calls.bind (.attempt (.perform rfl))
      fun _ => trivial

theorem normalizeLogs_calls (e : Uuid) (action : ExecutorAction) :
    (normalizeLogs e action).Calls fun op => op.attaches = true := by
  simp only [normalizeLogs]
  split
  · trivial
  · refine Calls.bind (.perform rfl) fun present => ?_
    split <;> trivial

theorem launchChild_calls (workspace : Workspace) (action : ExecutorAction)
    (runReason : ExecutionProcessRunReason) (process : ExecutionProcess) (e : Uuid) :
    (launchChild workspace action runReason process e).Calls fun op => op.attaches = true := by
  refine Calls.bind ?_ fun _ => Calls.bind (registerTurn_calls e action) fun _ =>
    Calls.bind (spawnChild_calls e action) fun _ => Calls.bind (normalizeLogs_calls e action)
      fun _ => trivial
  simp only [unarchive]
  split
  · trivial
  · exact .perform rfl

theorem attachCommands_calls (session : Session) (action : ExecutorAction)
    (runReason : ExecutionProcessRunReason) (e : Uuid) :
    (attachCommands session action runReason e false).Calls fun op => op.attaches = true := by
  simp only [attachCommands, Bool.false_eq_true, ↓reduceIte]
  split
  · exact claimPrompt_calls session.id e action
  · trivial

theorem startDirect_calls (workspace : Workspace) (session : Session) (action : ExecutorAction)
    (runReason : ExecutionProcessRunReason) (e : Uuid) :
    (startExecutionWithId workspace session action runReason e false).Calls
      fun op => op.direct = true := by
  refine Calls.bind (createExecution_calls workspace session runReason e) fun process =>
    Calls.mono (fun _ => Op.direct_of_attaches) ?_
  refine Calls.bind (attachCommands_calls session action runReason e) fun _ =>
    launchChild_calls workspace action runReason process e

theorem startExecution_calls (maxRunning : Nat) (workspace : Workspace) (session : Session)
    (action : ExecutorAction) (runReason : ExecutionProcessRunReason) :
    (startExecution maxRunning workspace session action runReason).Calls
      fun op => op.direct = true :=
  Calls.bind (admitStart_calls maxRunning runReason) fun _ => Calls.bind (.perform rfl)
    fun e => startDirect_calls workspace session action runReason e

theorem cleanupOrphanExecutions_calls :
    cleanupOrphanExecutions.Calls fun op => op.recovers = true := by
  refine Calls.bind (.perform rfl) fun running => .forEach _ fun process _ => ?_
  refine Calls.bind (.attempt (.perform rfl)) fun outcome => ?_
  cases outcome with
  | ok => exact Calls.bind (.perform rfl) fun _ => trivial
  | error => trivial

theorem terminalizeInheritedExecutions_calls :
    terminalizeInheritedExecutions.Calls fun op => op.recovers = true := by
  refine Calls.bind (.perform rfl) fun running => .forEach _ fun process _ => ?_
  split
  · trivial
  · exact Calls.bind (.perform rfl) fun _ => Calls.bind (.perform rfl) fun _ => trivial

end Container

variable {K : ServiceContract} {maxRunning : Nat}

/-- What a dispatch of the session shows of itself: an assertion for each of its points, and each
operation leading from one to the next. A dispatch that hands back a value ends in `isOver`, one that
hands back an error in `failed`; a launch that fails is `lost` until its commands are settled. -/
structure Outline (K : ServiceContract) (maxRunning : Nat) (sessionId : Uuid) where
  entering : ServiceAssertion
  opening : ServiceAssertion
  released : ServiceAssertion
  drawn : Uuid → ServiceAssertion
  claimed : Uuid → List SessionCommand → ServiceAssertion
  authorized : Uuid → List SessionCommand → ServiceAssertion
  held : Uuid → List SessionCommand → ServiceAssertion
  ready : Uuid → List SessionCommand → ServiceAssertion
  admitted : Uuid → List SessionCommand → ServiceAssertion
  full : Uuid → List SessionCommand → ServiceAssertion
  created : Uuid → List SessionCommand → ServiceAssertion
  emptied : Uuid → ServiceAssertion
  bound : Uuid → List SessionCommand → ServiceAssertion
  lost : Uuid → ServiceAssertion
  isOver : ServiceAssertion
  failed : ServiceAssertion
  stable_entering : (container maxRunning).Stable K entering
  stable_opening : (container maxRunning).Stable K opening
  stable_released : (container maxRunning).Stable K released
  stable_drawn : ∀ e, (container maxRunning).Stable K (drawn e)
  stable_held : ∀ e cs, (container maxRunning).Stable K (held e cs)
  stable_ready : ∀ e cs, (container maxRunning).Stable K (ready e cs)
  stable_full : ∀ e cs, (container maxRunning).Stable K (full e cs)
  stable_created : ∀ e cs, (container maxRunning).Stable K (created e cs)
  stable_emptied : ∀ e, (container maxRunning).Stable K (emptied e)
  stable_bound : ∀ e cs, (container maxRunning).Stable K (bound e cs)
  stable_lost : ∀ e, (container maxRunning).Stable K (lost e)
  stable_over : (container maxRunning).Stable K isOver
  running : (container maxRunning).Effect K entering (.hasRunningCodingAgentForSession sessionId)
    (fun v => if v = true then isOver else opening) (fun _ => failed)
  headGate : (container maxRunning).Triple K opening (headGate sessionId)
    (fun d => if d = .proceed then opening else isOver) (fun _ => failed)
  release : (container maxRunning).Effect K opening (.releaseUnbound sessionId)
    (fun _ => released) (fun _ => failed)
  draw : (container maxRunning).Effect K released .newUuid drawn (fun _ => failed)
  claim : ∀ e, (container maxRunning).Effect K (drawn e) (.claimPending sessionId)
    (fun cs => if cs = [] then isOver else claimed e cs) (fun _ => failed)
  gate : ∀ e first rest, (container maxRunning).Triple K (claimed e (first :: rest)) (gate first)
    (fun d => if d = .proceed then authorized e (first :: rest) else held e (first :: rest))
    (fun _ => failed)
  record : ∀ e first rest, (container maxRunning).Triple K (authorized e (first :: rest))
    (recordLaunch first e)
    (fun b => if b = true then ready e (first :: rest) else held e (first :: rest))
    (fun _ => failed)
  putBack : ∀ e cs, (container maxRunning).Effect K (held e cs) (.releaseUnbound sessionId)
    (fun _ => isOver) (fun _ => failed)
  prepare : ∀ e first rest, (container maxRunning).Triple K (ready e (first :: rest))
    (prepareLaunch sessionId first.config (promptOf (SessionCommand.headBatch (first :: rest))))
    (fun r h w => ready e (first :: rest) h w ∧ r.2.1.id = sessionId ∧
      ∃ c, r.2.2.request = some (promptOf (SessionCommand.headBatch (first :: rest)), c))
    (fun error h w => lost e h w ∧ error ≠ .codingAgentCapacity)
  admission : ∀ e cs, (container maxRunning).Effect K (ready e cs) .countRunningCodingAgents
    (fun n => if maxRunning ≤ n then full e cs else admitted e cs) (fun _ => lost e)
  putBackFull : ∀ e cs, (container maxRunning).Effect K (full e cs) (.releaseUnbound sessionId)
    (fun _ => isOver) (fun _ => failed)
  create : ∀ e cs workspace session, session.id = sessionId →
    (container maxRunning).Triple K (admitted e cs)
      (createExecution workspace session .codingAgent e) (fun _ => created e cs)
      (fun error h w => lost e h w ∧ error ≠ .codingAgentCapacity)
  bind : ∀ e cs, (container maxRunning).Effect K (created e cs) (.bindExecution sessionId e)
    (fun n => if n = 0 then emptied e else bound e cs) (fun _ => lost e)
  fail : ∀ e, (container maxRunning).Effect K (emptied e) (.updateCompletion e .failed)
    (fun _ => lost e) (fun _ => lost e)
  bound_reads : ∀ e cs op, op.reads = true → op.admits = false →
    (container maxRunning).Effect K (bound e cs) op (fun _ => bound e cs) (fun _ => bound e cs)
  bound_lost : ∀ e cs h w, bound e cs h w → lost e h w
  spawn : ∀ e cs action config,
    action.request = some (promptOf (SessionCommand.headBatch cs), config) →
    (container maxRunning).Triple K (bound e cs) (spawnChild e action) (fun _ => isOver)
      (fun error h w => lost e h w ∧ error ≠ .codingAgentCapacity)
  over_reads : ∀ op, op.reads = true → op.admits = false →
    (container maxRunning).Effect K isOver op (fun _ => isOver) (fun _ => isOver)
  over_lost : ∀ e h w, isOver h w → lost e h w
  lose : ∀ e, (container maxRunning).Effect K (lost e) (.finishExecution e false)
    (fun _ => failed) (fun _ => failed)

/-- The executor is not the one the session is held to. -/
def mismatched (latest : Option ExecutorProfileId) (session : Session) (actual : String) : Bool :=
  (expectedExecutor latest session).any fun expected => expected ≠ actual

theorem effect_error {A E : ServiceAssertion} {B : op.Val → ServiceAssertion}
    (hop : (container maxRunning).Effect K A op B (fun _ => E)) :
    (container maxRunning).Effect K A op B
      (fun error h w => E h w ∧ error ≠ .codingAgentCapacity) := by
  intro h w refusal ha hj hok
  obtain ⟨hj', hr⟩ := hop h w refusal ha hj hok
  refine ⟨hj', ?_⟩
  cases hx : ((container maxRunning).exec op refusal w).1 with
  | ok v =>
    rw [hx] at hr
    exact hr
  | error e =>
    rw [hx] at hr
    exact ⟨hr, World.exec_error hx⟩

theorem effect_intro {A : ServiceAssertion} {B : op.Val → ServiceAssertion}
    {E : ContainerError → ServiceAssertion}
    (hj : ∀ {h w}, K.always h w → A h w → ∀ refusal,
      K.always (.called op refusal w :: h) (w.exec op refusal).2)
    (hE : ∀ h w e, A h w → K.always h w → op.refuses e = true →
      K.ok h (.called op (some e) w) → E e (.called op (some e) w :: h) w)
    (hB : ∀ h w refusal, A h w → K.always h w → K.ok h (.called op refusal w) →
      w.exec op refusal = w.perform op →
      Ends B E (w.perform op).1 (.called op refusal w :: h) (w.perform op).2) :
    (container maxRunning).Effect K A op B E := by
  intro h w refusal ha halways hok
  refine ⟨hj halways ha refusal, ?_⟩
  change Ends B E (w.exec op refusal).1 (.called op refusal w :: h) (w.exec op refusal).2
  rcases w.exec_cases op refusal with ⟨e, rfl, he, hx⟩ | hx
  · rw [hx]
    exact hE h w e ha halways he hok
  · rw [hx]
    exact hB h w refusal ha halways hok hx

/-- An operation by what it does when nothing refuses it, where a failure leaves nothing to show. -/
theorem effect_ok {A : ServiceAssertion} {B : op.Val → ServiceAssertion}
    (hj : ∀ {h w}, K.always h w → A h w → ∀ refusal,
      K.always (.called op refusal w :: h) (w.exec op refusal).2)
    (hB : ∀ h w refusal v, A h w → K.always h w → K.ok h (.called op refusal w) →
      w.exec op refusal = w.perform op → (w.perform op).1 = .ok v →
      B v (.called op refusal w :: h) (w.perform op).2) :
    (container maxRunning).Effect K A op B (fun _ _ _ => True) := by
  refine effect_intro hj (fun _ _ _ _ _ _ _ => trivial) fun h w refusal ha halways hok hx => ?_
  cases hv : (w.perform op).1 with
  | ok v => exact hB h w refusal v ha halways hok hx hv
  | error => trivial

section
variable {A B E : ServiceAssertion} (hA : (container maxRunning).Stable K A)
include hA

theorem gate_keeps (command : SessionCommand)
    (hop : ∀ op, op.gates = true → (container maxRunning).Effect K A op (fun _ => A) (fun _ => E)) :
    (container maxRunning).Triple K A (gate command) (fun _ => A) (fun _ => E) := by
  simp only [Container.gate]
  split
  · exact .pure fun _ _ h => h
  · split
    · exact .pure fun _ _ h => h
    · refine .perform_bind (D := fun _ => A) hA (hop _ rfl) fun latest => ?_
      split
      · exact .pure fun _ _ h => h
      · exact .perform_bind (D := fun _ => A) hA (hop _ rfl) fun _ => .pure fun _ _ h => h
    · exact .perform_bind (D := fun _ => A) hA (hop _ rfl) fun _ => .pure fun _ _ h => h

theorem headGate_keeps (sessionId : Uuid)
    (hpending : (container maxRunning).Effect K A (.pending sessionId) (fun _ => A) (fun _ => E))
    (hop : ∀ op, op.gates = true → (container maxRunning).Effect K A op (fun _ => A) (fun _ => E)) :
    (container maxRunning).Triple K A (headGate sessionId) (fun _ => A) (fun _ => E) := by
  refine .perform_bind (D := fun _ => A) hA hpending fun pending => ?_
  split
  · exact .pure fun _ _ h => h
  · exact gate_keeps hA _ hop

theorem recordLaunch_keeps (first : SessionCommand) (e : Uuid)
    (hop : ∀ op, op.records = true →
      (container maxRunning).Effect K A op (fun _ => A) (fun _ => E)) :
    (container maxRunning).Triple K A (recordLaunch first e) (fun _ => A) (fun _ => E) := by
  simp only [Container.recordLaunch]
  split
  · exact .pure fun _ _ h => h
  · split
    · exact .perform_bind (D := fun _ => A) hA (hop _ rfl) fun _ => .pure fun _ _ h => h
    · exact .perform_bind (D := fun _ => A) hA (hop _ rfl) fun _ => .pure fun _ _ h => h
    · exact .pure fun _ _ h => h

omit hA in
theorem checkExecutor_rule (latest : Option ExecutorProfileId) (session : Session)
    (actual : String) :
    (container maxRunning).Triple K
      (if mismatched latest session actual = true then E else A)
      (checkExecutor latest session actual) (fun _ => A)
      (fun error h w => E h w ∧ error ≠ .codingAgentCapacity) := by
  cases hexpected : expectedExecutor latest session with
  | none =>
    simp only [Container.checkExecutor, mismatched, hexpected, Option.any_none,
      Bool.false_eq_true, ↓reduceIte]
    exact .pure fun _ _ h => h
  | some expected =>
    simp only [Container.checkExecutor, mismatched, hexpected, Option.any_some, decide_eq_true_eq]
    split
    · exact .throw fun h w he => ⟨he, by simp⟩
    · exact .pure fun _ _ h => h

theorem adoptExecutor_keeps
    (hop : ∀ op, op.reads = true → op.admits = false → op.looksUp = false →
      (container maxRunning).Effect K A op (fun _ => A) (fun _ => E))
    (session : Session) (actual : String) :
    (container maxRunning).Triple K A (adoptExecutor session actual) (fun _ => A)
      (fun error h w => E h w ∧ error ≠ .codingAgentCapacity) := by
  simp only [Container.adoptExecutor]
  split
  · exact .perform hA (effect_error (hop _ rfl rfl rfl))
  · exact .pure fun _ _ h => h

omit hA in
theorem effect_findSession (sessionId : Uuid)
    (hop : (container maxRunning).Effect K A (.findSession sessionId) (fun _ => A) (fun _ => E)) :
    (container maxRunning).Effect K A (.findSession sessionId)
      (fun found h w => A h w ∧ ∀ session, found = some session → session.id = sessionId)
      (fun _ => E) := by
  intro h w refusal ha hj hok
  obtain ⟨hj', hr⟩ := hop h w refusal ha hj hok
  refine ⟨hj', ?_⟩
  rcases w.exec_cases (.findSession sessionId) refusal with ⟨e, rfl, -, hx⟩ | hx
  · have hx' : (container maxRunning).exec (.findSession sessionId) (some e) w = (.error e, w) := hx
    rw [hx'] at hr ⊢
    exact hr
  · have hx' : (container maxRunning).exec (.findSession sessionId) refusal w =
        w.perform (.findSession sessionId) := hx
    rw [hx'] at hr ⊢
    refine ⟨hr, fun session hs => ?_⟩
    have hfound := List.find?_some (p := fun s : Session => decide (s.id = sessionId)) hs
    exact of_decide_eq_true hfound

theorem prepareLaunch_rule {B : Session → ServiceAssertion}
    (hB : ∀ session, (container maxRunning).Stable K (B session)) (sessionId : Uuid)
    (config : SessionCommandConfig) (prompt : String)
    (hid : ∀ session h w, B session h w → session.id = sessionId)
    (hsession : (container maxRunning).Effect K A (.findSession sessionId)
      (fun | some session => B session | none => E) (fun _ => E))
    (hworkspace : ∀ session, (container maxRunning).Effect K (B session)
      (.findWorkspace session.workspaceId) (fun found => if found = none then E else B session)
      (fun _ => E))
    (hcontainer : ∀ session id, (container maxRunning).Effect K (B session)
      (.ensureContainerExists id) (fun _ => B session) (fun _ => E))
    (hexecutor : ∀ session, (container maxRunning).Effect K (B session)
      (.latestExecutorProfileForSession session.id)
      (fun latest =>
        if mismatched latest session config.executorConfig.profileId.executor.toString = true then E
        else A)
      (fun _ => E))
    (hop : ∀ op, op.reads = true → op.admits = false → op.looksUp = false →
      (container maxRunning).Effect K A op (fun _ => A) (fun _ => E)) :
    (container maxRunning).Triple K A (prepareLaunch sessionId config prompt)
      (fun r h w => A h w ∧ r.2.1.id = sessionId ∧ ∃ c, r.2.2.request = some (prompt, c))
      (fun error h w => E h w ∧ error ≠ .codingAgentCapacity) := by
  refine .perform_bind hA (effect_error hsession) fun found => ?_
  refine .bind (B := B) ?_ fun session => ?_
  · cases found with
    | none => exact .throw fun _ _ he => ⟨he, by simp⟩
    | some session => exact .pure fun _ _ hb => hb
  intro h w hb
  have hs := hid session h w hb
  revert h w
  refine Triple.perform_bind (hB session) (effect_error (hworkspace session)) fun found => ?_
  refine .bind (B := fun _ => B session) ?_ fun workspace => ?_
  · cases found with
    | none => exact .throw fun _ _ he => ⟨he, by simp⟩
    | some workspace => exact .pure fun _ _ hb => hb
  refine .perform_bind (hB session) (effect_error (hcontainer session workspace.id)) fun _ => ?_
  refine .perform_bind (hB session) (effect_error (hexecutor session)) fun latest => ?_
  refine .bind (B := fun _ => A) (checkExecutor_rule latest session _) fun _ => ?_
  refine .bind (B := fun _ => A) (adoptExecutor_keeps hA hop session _) fun _ => ?_
  refine .perform_bind (D := fun _ => A) hA (effect_error (hop _ rfl rfl rfl)) fun executorConfig => ?_
  refine .perform_bind (D := fun _ => A) hA (effect_error (hop _ rfl rfl rfl)) fun info => ?_
  refine .pure fun h w ha => ⟨ha, hs, executorConfig, ?_⟩
  cases info <;> rfl

theorem prepareLaunch_keeps (hAE : ∀ h w, A h w → E h w)
    (hop : ∀ op, op.reads = true → op.admits = false →
      (container maxRunning).Effect K A op (fun _ => A) (fun _ => E))
    (sessionId : Uuid) (config : SessionCommandConfig) (prompt : String) :
    (container maxRunning).Triple K A (prepareLaunch sessionId config prompt)
      (fun r h w => A h w ∧ r.2.1.id = sessionId ∧ ∃ c, r.2.2.request = some (prompt, c))
      (fun error h w => E h w ∧ error ≠ .codingAgentCapacity) := by
  have hfound {op : Op} (hreads : op.reads = true) (hno : op.admits = false) (session : Session) :
      (container maxRunning).Effect K (fun h w => A h w ∧ session.id = sessionId) op
        (fun _ h w => A h w ∧ session.id = sessionId) (fun _ => E) := by
    intro h w refusal ha hj hok
    obtain ⟨hj', hr⟩ := hop op hreads hno h w refusal ha.1 hj hok
    exact ⟨hj', hr.mono (fun _ _ _ hr => ⟨hr, ha.2⟩) fun _ _ _ hr => hr⟩
  refine prepareLaunch_rule hA (B := fun session h w => A h w ∧ session.id = sessionId)
    (fun session h w a hok hj hb => ⟨hA h w a hok hj hb.1, hb.2⟩) sessionId config prompt
    (fun _ _ _ hb => hb.2) ?_ (fun session => ?_) (fun session _ => hfound rfl rfl session)
    (fun session => ?_) fun op hreads hno _ => hop op hreads hno
  · refine (effect_findSession sessionId (hop _ rfl rfl)).mono (fun found h w hb => ?_)
      fun _ _ _ h => h
    cases found with
    | none => exact hAE h w hb.1
    | some session => exact ⟨hb.1, hb.2 session rfl⟩
  · refine (hfound rfl rfl session).mono (fun found h w hb => ?_) fun _ _ _ h => h
    split
    · exact hAE h w hb.1
    · exact hb
  · refine (hfound rfl rfl session).mono (fun latest h w hb => ?_) fun _ _ _ h => h
    split
    · exact hAE h w hb.1
    · exact hb.1

theorem createExecution_rule (hB : (container maxRunning).Stable K B) (workspace : Workspace)
    (session : Session) (runReason : ExecutionProcessRunReason) (e : Uuid)
    (hstart : (container maxRunning).Effect K A .admitExecutionStart (fun _ => A) (fun _ => E))
    (hensure : (container maxRunning).Effect K A .ensureLaunchAdmission (fun _ => A) (fun _ => E))
    (hrepositories : (container maxRunning).Effect K A (.findReposForWorkspace workspace.id)
      (fun repositories => if repositories = [] then E else A) (fun _ => E))
    (hinsert : (container maxRunning).Effect K A (.insertExecution e session.id runReason)
      (fun _ => B) (fun _ => E))
    (hstates : (container maxRunning).Effect K B (.createRepoStates e) (fun _ => B) (fun _ => E))
    (hcreated : (container maxRunning).Effect K B (.findExecution e)
      (fun created => if created = none then E else B) (fun _ => E)) :
    (container maxRunning).Triple K A (createExecution workspace session runReason e) (fun _ => B)
      (fun error h w => E h w ∧ error ≠ .codingAgentCapacity) := by
  refine .perform_bind (D := fun _ => A) hA (effect_error hstart) fun _ => ?_
  refine .perform_bind (D := fun _ => A) hA (effect_error hensure) fun _ => ?_
  refine .perform_bind hA (effect_error hrepositories) fun repositories => ?_
  split
  · exact .throw fun h w he => ⟨he, by simp⟩
  · refine .perform_bind (D := fun _ => B) hA (effect_error hinsert) fun _ => ?_
    refine .perform_bind (D := fun _ => B) hB (effect_error hstates) fun _ => ?_
    refine .perform_bind hB (effect_error hcreated) fun created => ?_
    cases created with
    | none => exact .throw fun _ _ he => ⟨he, by simp⟩
    | some process => exact .pure fun _ _ hb => hb

theorem createExecution_keeps (hB : (container maxRunning).Stable K B) (hAE : ∀ h w, A h w → E h w)
    (hBE : ∀ h w, B h w → E h w)
    (hop : ∀ op, op.reads = true → (container maxRunning).Effect K A op (fun _ => A) (fun _ => E))
    (hop' : ∀ op, op.reads = true → (container maxRunning).Effect K B op (fun _ => B) (fun _ => E))
    (workspace : Workspace) (session : Session) (runReason : ExecutionProcessRunReason) (e : Uuid)
    (hinsert : (container maxRunning).Effect K A (.insertExecution e session.id runReason)
      (fun _ => B) (fun _ => E)) :
    (container maxRunning).Triple K A (createExecution workspace session runReason e) (fun _ => B)
      (fun error h w => E h w ∧ error ≠ .codingAgentCapacity) := by
  refine createExecution_rule hA hB workspace session runReason e (hop _ rfl) (hop _ rfl) ?_ hinsert
    (hop' _ rfl) ?_
  · refine (hop _ rfl).mono (fun _ h w ha => ?_) fun _ _ _ h => h
    split
    · exact hAE h w ha
    · exact ha
  · refine (hop' _ rfl).mono (fun _ h w hb => ?_) fun _ _ _ h => h
    split
    · exact hBE h w hb
    · exact hb

def launchedOr (E : ServiceAssertion) : Except ContainerError α → ServiceAssertion
  | .ok _ => E
  | .error error => fun h w => E h w ∧ error ≠ .codingAgentCapacity

theorem spawnChild_keeps (hE : (container maxRunning).Stable K E) (e : Uuid)
    (action : ExecutorAction)
    (hlaunch : (container maxRunning).Effect K A (.startExecutionInner e action)
      (fun _ => E) (fun _ => E))
    (hop : ∀ op, op.settles = true → (container maxRunning).Effect K E op (fun _ => E) (fun _ => E)) :
    (container maxRunning).Triple K A (spawnChild e action) (fun _ => E)
      (fun error h w => E h w ∧ error ≠ .codingAgentCapacity) := by
  refine .bind (B := launchedOr E) (.attempt (.perform hA (effect_error hlaunch)))
    fun outcome => ?_
  cases outcome with
  | ok => exact .pure fun _ _ h => h
  | error startError =>
    intro h w herror
    have hsettle : (container maxRunning).Triple K E
        ((call (.completeRunningAttempt e .failed)).attempt.bind fun _ =>
          (call (.finishExecution e false)).attempt.bind fun _ =>
            (.throw startError : Task Unit)) (fun _ => E)
        (fun error h w => E h w ∧ error ≠ .codingAgentCapacity) := by
      refine .bind (.attempt (C := fun _ => E) (.perform hE (hop _ rfl))) fun _ => ?_
      refine .bind (.attempt (C := fun _ => E) (.perform hE (hop _ rfl))) fun _ => ?_
      exact .throw fun _ _ h => ⟨h, herror.2⟩
    exact hsettle h w herror.1

end

namespace Outline
variable {sessionId : Uuid} (o : Outline K maxRunning sessionId)

theorem releaseClaim {A : ServiceAssertion} (hA : (container maxRunning).Stable K A)
    (hop : (container maxRunning).Effect K A (.releaseUnbound sessionId)
      (fun _ => o.isOver) (fun _ => o.failed)) :
    (container maxRunning).Triple K A (Container.releaseClaim sessionId) (fun _ => o.isOver)
      (fun _ => o.failed) :=
  .perform_bind hA hop fun _ => .pure fun _ _ h => h

theorem admitCodingAgent (e : Uuid) (cs : List SessionCommand) :
    (container maxRunning).Triple K (o.ready e cs) (Container.admitCodingAgent maxRunning)
      (fun _ => o.admitted e cs)
      (fun error h w => if error = .codingAgentCapacity then o.full e cs h w else o.lost e h w) := by
  refine .perform_bind
    (D := fun n : Nat => if maxRunning ≤ n then o.full e cs else o.admitted e cs)
    (o.stable_ready e cs) ?_ fun n => ?_
  · refine (effect_error (o.admission e cs)).mono (fun _ _ _ h => h) fun error h w hE => ?_
    simpa only [if_neg hE.2] using hE.1
  · by_cases hn : maxRunning ≤ n
    · simp only [hn, ↓reduceIte]
      exact .throw fun _ _ h => by simpa using h
    · simp only [hn, ↓reduceIte]
      exact .pure fun _ _ h => h

theorem bindClaimed (e : Uuid) (cs : List SessionCommand) :
    (container maxRunning).Triple K (o.created e cs) (Container.bindClaimed sessionId e)
      (fun _ => o.bound e cs) (fun error h w => o.lost e h w ∧ error ≠ .codingAgentCapacity) := by
  refine .perform_bind (o.stable_created e cs) (effect_error (o.bind e cs)) fun n => ?_
  by_cases hn : n = 0
  · simp only [hn, ↓reduceIte]
    refine .perform_bind (D := fun _ => o.lost e) (o.stable_emptied e) (effect_error (o.fail e))
      fun _ => .throw fun _ _ h => ⟨h, by simp⟩
  · simp only [hn, ↓reduceIte]
    exact .pure fun _ _ h => h

theorem unarchive (workspace : Workspace) (runReason : ExecutionProcessRunReason) (e : Uuid)
    (cs : List SessionCommand) :
    (container maxRunning).Triple K (o.bound e cs) (Container.unarchive workspace runReason)
      (fun _ => o.bound e cs) (fun error h w => o.lost e h w ∧ error ≠ .codingAgentCapacity) := by
  simp only [Container.unarchive]
  split
  · exact .pure fun _ _ h => h
  · refine .consequence (.perform (o.stable_bound e cs) (effect_error (o.bound_reads e cs _ rfl rfl)))
      (fun _ _ h => h) (fun _ _ _ h => h) fun _ h w hE => ⟨o.bound_lost e cs h w hE.1, hE.2⟩

theorem registerTurn (action : ExecutorAction) (e : Uuid) (cs : List SessionCommand) :
    (container maxRunning).Triple K (o.bound e cs) (Container.registerTurn e action)
      (fun _ => o.bound e cs) (fun error h w => o.lost e h w ∧ error ≠ .codingAgentCapacity) := by
  simp only [Container.registerTurn]
  split
  · exact .pure fun _ _ h => h
  · refine .perform_bind (D := fun _ => o.bound e cs) (o.stable_bound e cs) ?_ fun _ => ?_
    · exact (effect_error (o.bound_reads e cs _ rfl rfl)).mono (fun _ _ _ h => h)
        fun _ h w hE => ⟨o.bound_lost e cs h w hE.1, hE.2⟩
    · split
      · split
        · exact .bind (.attempt (C := fun _ => o.bound e cs)
            (.perform (o.stable_bound e cs) (o.bound_reads e cs _ rfl rfl))) fun _ =>
              .pure fun _ _ h => h
        · exact .pure fun _ _ h => h
      · exact .pure fun _ _ h => h

theorem normalizeLogs (action : ExecutorAction) (e : Uuid) :
    (container maxRunning).Triple K o.isOver (Container.normalizeLogs e action)
      (fun _ => o.isOver) (fun error h w => o.lost e h w ∧ error ≠ .codingAgentCapacity) := by
  simp only [Container.normalizeLogs]
  split
  · exact .pure fun _ _ h => h
  · refine .perform_bind (D := fun _ => o.isOver) o.stable_over ?_ fun present => ?_
    · exact (effect_error (o.over_reads _ rfl rfl)).mono (fun _ _ _ h => h)
        fun _ h w hE => ⟨o.over_lost e h w hE.1, hE.2⟩
    · split
      · exact .pure fun _ _ h => h
      · exact .throw fun h w ho => ⟨o.over_lost e h w ho, by simp⟩

theorem launchChild {action : ExecutorAction} {config : ExecutorConfig} (workspace : Workspace)
    (process : ExecutionProcess) (e : Uuid) (cs : List SessionCommand)
    (ha : action.request = some (promptOf (SessionCommand.headBatch cs), config)) :
    (container maxRunning).Triple K (o.bound e cs)
      (Container.launchChild workspace action .codingAgent process e) (fun _ => o.isOver)
      (fun error h w => o.lost e h w ∧ error ≠ .codingAgentCapacity) := by
  refine .bind (o.unarchive workspace .codingAgent e cs) fun _ => ?_
  refine .bind (o.registerTurn action e cs) fun _ => ?_
  refine .bind (o.spawn e cs action config ha) fun _ => ?_
  exact .bind (o.normalizeLogs action e) fun _ => .pure fun _ _ h => h

theorem launchClaimed (e : Uuid) (first : SessionCommand) (rest : List SessionCommand) :
    (container maxRunning).Triple K (o.ready e (first :: rest))
      (Container.launchClaimed maxRunning sessionId e (first :: rest) first.config)
      (fun _ => o.isOver)
      (fun error h w => if error = .codingAgentCapacity then o.full e (first :: rest) h w
        else o.lost e h w) := by
  have hE {error : ContainerError} {h w} (hE : o.lost e h w ∧ error ≠ .codingAgentCapacity) :
      if error = .codingAgentCapacity then o.full e (first :: rest) h w else o.lost e h w := by
    simpa only [if_neg hE.2] using hE.1
  refine .bind (.consequence (o.prepare e first rest) (fun _ _ h => h) (fun _ _ _ h => h)
    fun _ _ _ => hE) fun ⟨workspace, session, action⟩ => ?_
  intro h w hready
  obtain ⟨hready, hs, config, ha⟩ := hready
  have hs : session.id = sessionId := hs
  have ha : action.request = some (promptOf (SessionCommand.headBatch (first :: rest)), config) := ha
  refine Triple.bind (o.admitCodingAgent e (first :: rest)) (fun _ => ?_) h w hready
  refine .consequence ?_ (fun _ _ h => h) (fun _ _ _ h => h) fun _ _ _ => hE
  refine .bind (o.create e (first :: rest) workspace session hs) fun process => ?_
  refine .bind (B := fun _ => o.bound e (first :: rest)) ?_ fun _ =>
    o.launchChild workspace process e (first :: rest) ha
  simp only [attachCommands, ↓reduceIte, hs]
  exact o.bindClaimed e (first :: rest)

theorem settle (e : Uuid) (cs : List SessionCommand) (result : Except ContainerError ExecutionProcess) :
    (container maxRunning).Triple K
      (match result with
        | .ok _ => o.isOver
        | .error error => if error = .codingAgentCapacity then o.full e cs else o.lost e)
      (Container.settle sessionId e result) (fun _ => o.isOver) (fun _ => o.failed) := by
  cases result with
  | ok => exact .pure fun _ _ h => h
  | error error =>
    by_cases hc : error = .codingAgentCapacity
    · subst hc
      exact o.releaseClaim (o.stable_full e cs) (o.putBackFull e cs)
    · simp only [hc, ↓reduceIte]
      have hfail : (container maxRunning).Triple K (o.lost e)
          ((call (.finishExecution e false)).bind fun _ =>
            (.throw error : Task (Option ExecutionProcess))) (fun _ => o.isOver) (fun _ => o.failed) :=
        .perform_bind (o.stable_lost e) (o.lose e) fun _ => .throw fun _ _ h => h
      cases error <;> first | exact hfail | exact absurd rfl hc

theorem dispatchClaimed (e : Uuid) (first : SessionCommand) (rest : List SessionCommand) :
    (container maxRunning).Triple K (o.claimed e (first :: rest))
      (Container.dispatchClaimed maxRunning sessionId e first (first :: rest)) (fun _ => o.isOver)
      (fun _ => o.failed) := by
  have hheld := o.releaseClaim (o.stable_held e (first :: rest)) (o.putBack e (first :: rest))
  refine .bind (o.gate e first rest) fun decision => ?_
  split
  · refine .bind (o.record e first rest) fun recorded => ?_
    split
    · refine .bind (B := fun
        | .ok _ => o.isOver
        | .error error => if error = .codingAgentCapacity then o.full e (first :: rest) else o.lost e)
        (.attempt (.consequence (o.launchClaimed e first rest) (fun _ _ h => h) (fun _ _ _ h => h)
          fun error _ _ h => ?_)) fun result => o.settle e (first :: rest) result
      by_cases hc : error = .codingAgentCapacity
      · simpa only [hc, ↓reduceIte] using h
      · simpa only [hc, ↓reduceIte] using h
    · exact hheld
  · exact hheld

theorem claimAndDispatch :
    (container maxRunning).Triple K o.opening (Container.claimAndDispatch maxRunning sessionId)
      (fun _ => o.isOver) (fun _ => o.failed) := by
  refine .perform_bind o.stable_opening o.release fun _ => ?_
  refine .perform_bind o.stable_released o.draw fun e => ?_
  refine .perform_bind (o.stable_drawn e) (o.claim e) fun commands => ?_
  cases commands with
  | nil => exact .pure fun _ _ h => h
  | cons first rest =>
    simp only [reduceCtorEq, ↓reduceIte]
    exact o.dispatchClaimed e first rest

theorem dispatchPendingCommands :
    (container maxRunning).Triple K o.entering
      (Container.dispatchPendingCommands maxRunning sessionId) (fun _ => o.isOver)
      (fun _ => o.failed) := by
  refine .perform_bind (D := fun running : Bool => if running = true then o.isOver else o.opening)
    o.stable_entering o.running fun running => ?_
  split
  · exact .pure fun _ _ h => h
  · refine .bind o.headGate fun decision => ?_
    split
    · exact o.claimAndDispatch
    · exact .pure fun _ _ h => h

theorem dispatchEach {S : List Uuid → ServiceAssertion} {D : ServiceAssertion}
    {E : ContainerError → ServiceAssertion} (o : ∀ sessionId, List Uuid → Outline K maxRunning sessionId)
    (hentering : ∀ sessionId rest h w, S (sessionId :: rest) h w → (o sessionId rest).entering h w)
    (hcount : ∀ sessionId rest, (container maxRunning).Effect K (o sessionId rest).isOver
      .countRunningCodingAgents (fun n => if maxRunning ≤ n then D else S rest) E)
    (hover : ∀ sessionId rest h w, (o sessionId rest).isOver h w → S rest h w)
    (hfailed : ∀ sessionId rest h w, (o sessionId rest).failed h w → S rest h w)
    (hdone : ∀ h w, S [] h w → D h w) (sessionIds : List Uuid) :
    (container maxRunning).Triple K (S sessionIds) (Container.dispatchEach maxRunning sessionIds)
      (fun _ => D) E := by
  induction sessionIds with
  | nil => exact .pure hdone
  | cons sessionId rest ih =>
    refine .bind (B := fun
        | .ok _ => (o sessionId rest).isOver
        | .error _ => (o sessionId rest).failed)
      (.attempt ((o sessionId rest).dispatchPendingCommands.consequence (hentering sessionId rest)
        (fun _ _ _ h => h) fun _ _ _ h => h)) fun outcome => ?_
    match outcome with
    | .ok none =>
      refine .perform_bind (o sessionId rest).stable_over (hcount sessionId rest) fun running => ?_
      split
      · exact .pure fun _ _ h => h
      · exact ih
    | .ok (some _) => exact ih.pre (hover sessionId rest)
    | .error _ => exact ih.pre (hfailed sessionId rest)

theorem startup (o : ∀ sessionId, Outline K maxRunning sessionId) {A S : ServiceAssertion}
    (hA : (container maxRunning).Stable K A) (hS : (container maxRunning).Stable K S)
    (hop : ∀ op, op.recovers = true → (container maxRunning).Effect K A op (fun _ => A) (fun _ => A))
    (hreads : ∀ op, op.reads = true → (container maxRunning).Effect K S op (fun _ => S) (fun _ => S))
    (hAS : ∀ h w, A h w → S h w) (hentering : ∀ sessionId h w, S h w → (o sessionId).entering h w)
    (hover : ∀ sessionId h w, (o sessionId).isOver h w → S h w)
    (hfailed : ∀ sessionId h w, (o sessionId).failed h w → S h w) :
    (container maxRunning).Triple K A (Container.startup maxRunning) (fun _ => S) (fun _ => S) := by
  refine .bind (B := fun _ => A) ((Triple.of_calls cleanupOrphanExecutions_calls hA hop).consequence
    (fun _ _ h => h) (fun _ _ _ h => h) fun _ => hAS) fun _ => ?_
  refine .bind (B := fun _ => S) ((Triple.of_calls terminalizeInheritedExecutions_calls hA
    hop).consequence (fun _ _ h => h) (fun _ => hAS) fun _ => hAS) fun _ => ?_
  refine .perform_bind (D := fun _ => S) hS (hreads _ rfl) fun sessionIds => ?_
  refine dispatchEach (S := fun _ => S) (fun sessionId _ => o sessionId)
    (fun sessionId _ => hentering sessionId) (fun sessionId _ h w refusal ho hj hok => ?_)
    (fun sessionId _ => hover sessionId) (fun sessionId _ => hfailed sessionId) (fun _ _ h => h)
    sessionIds
  obtain ⟨hj', hr⟩ := hreads .countRunningCodingAgents rfl h w refusal (hover sessionId h w ho) hj hok
  exact ⟨hj', hr.mono (fun _ _ _ hs => by rw [ite_self]; exact hs) fun _ _ _ hs => hs⟩

/-- A contract with nothing to show of an idle service, from an outline of the dispatch that starts
anywhere and an assertion the direct starts keep. -/
theorem keeps (o : ∀ sessionId, Outline K maxRunning sessionId) {A : ServiceAssertion}
    (hidle : ∀ h w, K.idle h w) (hact : (container maxRunning).Stable K K.always)
    (hcrash : ∀ h w, K.always h w → K.always (.crashed w :: h) w)
    (hbegan : ∀ entry h w, K.always h w → K.always (.began entry w :: h) w)
    (hreturned : ∀ entry r h w, K.always h w → K.always (.returned entry r w :: h) w)
    (hentering : ∀ sessionId h w, (o sessionId).entering h w)
    (hA : (container maxRunning).Stable K A) (hdirect : ∀ entry h w, A (.began entry w :: h) w)
    (hop : ∀ op, op.direct = true → (container maxRunning).Effect K A op (fun _ => A) (fun _ => A))
    (hreads : ∀ op, op.reads = true → (container maxRunning).Effect K (fun _ _ => True) op
      (fun _ _ _ => True) (fun _ _ _ => True)) :
    Keeps (container maxRunning) K := by
  refine Keeps.of_triples (C := fun entry => match entry with
      | .dispatchPendingCommands _ => fun _ _ => True
      | _ => A) (D := fun _ _ _ _ => True) hact (fun _ _ _ _ _ _ => hidle _ _)
    (fun h w _ hj => ⟨hcrash h w hj, hidle _ _⟩) (fun entry h w _ hj _ => ⟨hbegan entry h w hj, ?_⟩)
    (fun entry => ?_) fun entry r h w _ hj _ => ⟨hreturned entry r h w hj, hidle _ _⟩
  · cases entry with
    | dispatchPendingCommands => trivial
    | startExecution => exact hdirect _ h w
    | startup => exact hdirect _ h w
  · cases entry with
    | dispatchPendingCommands sessionId =>
      exact (o sessionId).dispatchPendingCommands.consequence (fun h w _ => hentering sessionId h w)
        (fun _ _ _ _ => trivial) fun _ _ _ _ => trivial
    | startExecution workspace session action runReason =>
      exact .bind (B := fun _ _ _ => True) ((Triple.of_calls
        (startExecution_calls maxRunning workspace session action runReason) hA hop).consequence
          (fun _ _ h => h) (fun _ _ _ _ => trivial) fun _ _ _ _ => trivial) fun _ =>
            .pure fun _ _ _ => trivial
    | startup =>
      exact .bind (B := fun _ _ _ => True) (Outline.startup o hA (fun _ _ _ _ _ _ => trivial)
        (fun op h => hop op (Op.direct_of_recovers h)) hreads (fun _ _ _ => trivial)
        (fun sessionId h w _ => hentering sessionId h w) (fun _ _ _ _ => trivial)
        fun _ _ _ _ => trivial) fun _ => .pure fun _ _ _ => trivial

end Outline
end Cdesktop
