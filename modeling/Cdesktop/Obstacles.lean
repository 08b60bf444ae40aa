import Cdesktop.ServiceHistory

namespace Cdesktop
set_option autoImplicit true
open System Container SessionCommand

/-- The session the running program looked up, after one more event. -/
def foundBy (found : Option Session) : ServiceEvent → Option Session
  | .began .. => none
  | .called (.findSession s) refusal w =>
    match (w.exec (.findSession s) refusal).1 with
    | .ok session => session
    | .error _ => found
  | _ => found

def foundSession : ServiceHistory → Option Session
  | [] => none
  | ev :: h => foundBy (foundSession h) ev

/-- The executor of the claimed batch is not the one its session is held to. -/
def misfits (h : ServiceHistory) (latest : Option ExecutorProfileId) : Bool :=
  (foundSession h).any fun session => (claimed h).head?.any fun first =>
    mismatched latest session first.config.executorConfig.profileId.executor.toString

/-- The state holds no answer a launch goes on with. -/
def lacks (h : ServiceHistory) (w : World) : Op → Bool
  | .findSession s => w.findSession s = none
  | .findWorkspace i => (w.external.workspaces.find? fun x => x.id = i) = none
  | .latestExecutorProfileForSession s => misfits h (w.external.latestExecutorProfile s)
  | .findReposForWorkspace i => w.external.repositories i = []
  | .findExecution e => ExecutionProcess.findById w.executions e = none
  | _ => false

/-- The call fails, or answers what no launch goes on with. -/
def obstructs (h : ServiceHistory) : ServiceEvent → Bool
  | .called op refusal w => ¬ (w.exec op refusal).1.isOk ∨ lacks h w op
  | _ => false

variable {h : ServiceHistory} {w : World} {op : Op} {refusal : Option ContainerError}

theorem lacks_looksUp (hop : op.looksUp = false) :
    lacks h w op = false := by
  cases op <;> first | rfl | cases hop

theorem obstructs_error {e : ContainerError} (hx : (w.exec op refusal).1 = .error e) :
    obstructs h (.called op refusal w) = true := by
  simp [obstructs, hx, Except.isOk, Except.toBool]

theorem obstructs_lacks (hl : lacks h w op = true) : obstructs h (.called op refusal w) = true := by
  simp [obstructs, hl]

theorem not_obstructs
    {v : op.Val} (hx : (w.exec op refusal).1 = .ok v) (hl : lacks h w op = false) :
    obstructs h (.called op refusal w) = false := by
  simp [obstructs, hx, hl, Except.isOk, Except.toBool]

theorem foundSession_called (hop : ∀ s, op ≠ .findSession s)
    (refusal : Option ContainerError) (w : World) (h : ServiceHistory) :
    foundSession (.called op refusal w :: h) = foundSession h := by
  cases op with
  | findSession s => exact absurd rfl (hop s)
  | _ => rfl

variable {K : ServiceContract} {maxRunning : Nat} {A B E : ServiceAssertion}

def Clears (K : ServiceContract) (A : ServiceAssertion) (op : Op) (B E : ServiceAssertion) : Prop :=
  ∀ h w refusal, A h w → K.always h w → K.ok h (.called op refusal w) →
    K.always (.called op refusal w :: h) (w.exec op refusal).2 ∧
      if obstructs h (.called op refusal w) = true then
        E (.called op refusal w :: h) (w.exec op refusal).2
      else B (.called op refusal w :: h) (w.exec op refusal).2

theorem Clears.effect (hc : Clears K A op B E) (hl : ∀ h w, lacks h w op = false) :
    (container maxRunning).Effect K A op (fun _ => B) (fun _ => E) := by
  intro h w refusal ha hj hok
  obtain ⟨hj', hcase⟩ := hc h w refusal ha hj hok
  refine ⟨hj', ?_⟩
  cases hx : ((container maxRunning).exec op refusal w).1 with
  | ok v =>
    rw [if_neg (by rw [not_obstructs hx (hl h w)]; exact Bool.false_ne_true)] at hcase
    exact hcase
  | error e =>
    rw [if_pos (obstructs_error hx)] at hcase
    exact hcase

theorem Clears.answers (hc : Clears K A op B E) {C : op.Val → ServiceAssertion}
    (hlack : ∀ h w refusal v, A h w → w.exec op refusal = w.perform op →
      (w.perform op).1 = .ok v → lacks h w op = true →
      E (.called op refusal w :: h) (w.perform op).2 →
      C v (.called op refusal w :: h) (w.perform op).2)
    (hhave : ∀ h w refusal v, A h w → w.exec op refusal = w.perform op →
      (w.perform op).1 = .ok v → lacks h w op = false →
      B (.called op refusal w :: h) (w.perform op).2 →
      C v (.called op refusal w :: h) (w.perform op).2) :
    (container maxRunning).Effect K A op C (fun _ => E) := by
  intro h w refusal ha hj hok
  obtain ⟨hj', hcase⟩ := hc h w refusal ha hj hok
  refine ⟨hj', ?_⟩
  change Ends C _ (w.exec op refusal).1 _ (w.exec op refusal).2
  rcases w.exec_cases op refusal with ⟨e, -, -, hx⟩ | hx
  · rw [if_pos (obstructs_error (congrArg Prod.fst hx)), hx] at hcase
    rw [hx]
    exact hcase
  · cases hv : (w.perform op).1 with
    | error e =>
      rw [if_pos (obstructs_error (by rw [hx, hv])), hx] at hcase
      rw [hx, hv]
      exact hcase
    | ok v =>
      rw [hx, hv]
      cases hl : lacks h w op with
      | true =>
        rw [if_pos (obstructs_lacks hl), hx] at hcase
        exact hlack h w refusal v ha hx hv hl hcase
      | false =>
        rw [if_neg (by rw [not_obstructs (by rw [hx, hv]) hl]; exact Bool.false_ne_true), hx] at hcase
        exact hhave h w refusal v ha hx hv hl hcase

theorem prepareLaunch_clears (hA : (container maxRunning).Stable K A) (sessionId : Uuid)
    (first : SessionCommand) (rest : List SessionCommand) (prompt : String)
    (hclaimed : ∀ h w, A h w → claimed h = first :: rest)
    (hop : ∀ op, op.reads = true → op.admits = false → Clears K A op A E) :
    (container maxRunning).Triple K A (prepareLaunch sessionId first.config prompt)
      (fun r h w => A h w ∧ r.2.1.id = sessionId ∧ ∃ c, r.2.2.request = some (prompt, c))
      (fun error h w => E h w ∧ error ≠ .codingAgentCapacity) := by
  have hfound {op : Op} (hreads : op.reads = true) (hno : op.admits = false) (hop' : ∀ s, op ≠ .findSession s)
      (session : Session) :
      Clears K (fun h w => A h w ∧ foundSession h = some session ∧ session.id = sessionId) op
        (fun h w => A h w ∧ foundSession h = some session ∧ session.id = sessionId) E := by
    intro h w refusal ha hj hok
    obtain ⟨hj', hcase⟩ := hop op hreads hno h w refusal ha.1 hj hok
    refine ⟨hj', ?_⟩
    have hsame := foundSession_called hop' refusal w h
    split at hcase
    · rename_i ho
      rw [if_pos ho]
      exact hcase
    · rename_i ho
      rw [if_neg ho]
      exact ⟨hcase, hsame.trans ha.2.1, ha.2.2⟩
  refine prepareLaunch_rule hA
    (B := fun session h w => A h w ∧ foundSession h = some session ∧ session.id = sessionId)
    (fun session h w a hok hj hb => ⟨hA h w a hok hj hb.1, hb.2⟩) sessionId first.config prompt
    (fun _ _ _ hb => hb.2.2) ?_ (fun session => ?_) (fun session id => ?_) (fun session => ?_)
    fun op hreads hno hno' => (hop op hreads hno).effect fun _ _ => lacks_looksUp hno'
  · refine (hop _ rfl rfl).answers ?_ ?_
    · intro h w refusal v ha hx hv hl he
      obtain rfl : w.findSession sessionId = v := Except.ok.inj hv
      simp only [lacks, decide_eq_true_eq] at hl
      rw [hl]
      exact he
    · intro h w refusal v ha hx hv hl ha'
      obtain rfl : w.findSession sessionId = v := Except.ok.inj hv
      simp only [lacks, decide_eq_false_iff_not] at hl
      cases hs : w.findSession sessionId with
      | none => exact absurd hs hl
      | some session =>
        have hsession := List.find?_some (p := fun s : Session => decide (s.id = sessionId)) hs
        refine ⟨ha', ?_, of_decide_eq_true hsession⟩
        have hanswer : (w.exec (.findSession sessionId) refusal).1 = .ok (some session) := by
          rw [hx]
          exact congrArg Except.ok hs
        simp only [foundSession, foundBy, hanswer]
  · refine (hfound rfl rfl (by simp) session).answers ?_ ?_
    · intro h w refusal v _ _ hv hl he
      have hv : (w.external.workspaces.find? fun x => x.id = session.workspaceId) = v :=
        Except.ok.inj hv
      simp only [lacks, decide_eq_true_eq, hv] at hl
      simp only [hl, ↓reduceIte]
      exact he
    · intro h w refusal v _ _ hv hl hb
      have hv : (w.external.workspaces.find? fun x => x.id = session.workspaceId) = v :=
        Except.ok.inj hv
      simp only [lacks, decide_eq_false_iff_not, hv] at hl
      simp only [hl, ↓reduceIte]
      exact hb
  · exact (hfound rfl rfl (by simp) session).effect fun _ _ => rfl
  · refine (hfound rfl rfl (by simp) session).answers ?_ ?_
    · intro h w refusal v ha _ hv hl he
      obtain rfl : w.external.latestExecutorProfile session.id = v := Except.ok.inj hv
      simp only [lacks, misfits, hclaimed h w ha.1, ha.2.1, List.head?_cons, Option.any_some] at hl
      simp only [hl, ↓reduceIte]
      exact he
    · intro h w refusal v ha _ hv hl hb
      obtain rfl : w.external.latestExecutorProfile session.id = v := Except.ok.inj hv
      simp only [lacks, misfits, hclaimed h w ha.1, ha.2.1, List.head?_cons, Option.any_some] at hl
      simp only [hl, Bool.false_eq_true, ↓reduceIte]
      exact hb.1

theorem createExecution_clears (hA : (container maxRunning).Stable K A)
    (hB : (container maxRunning).Stable K B) (workspace : Workspace) (session : Session)
    (runReason : ExecutionProcessRunReason) (e : Uuid)
    (hop : ∀ op, op.reads = true → Clears K A op A E)
    (hinsert : Clears K A (.insertExecution e session.id runReason) B E)
    (hop' : ∀ op, op.reads = true → Clears K B op B E) :
    (container maxRunning).Triple K A (createExecution workspace session runReason e) (fun _ => B)
      (fun error h w => E h w ∧ error ≠ .codingAgentCapacity) := by
  refine createExecution_rule hA hB workspace session runReason e
    ((hop _ rfl).effect fun _ _ => rfl) ((hop _ rfl).effect fun _ _ => rfl) ?_
    (hinsert.effect fun _ _ => rfl) ((hop' _ rfl).effect fun _ _ => rfl) ?_
  · refine (hop _ rfl).answers ?_ ?_
    · intro h w refusal v _ _ hv hl he
      obtain rfl : w.external.repositories workspace.id = v := Except.ok.inj hv
      simp only [lacks, decide_eq_true_eq] at hl
      simp only [hl, ↓reduceIte]
      exact he
    · intro h w refusal v _ _ hv hl ha
      obtain rfl : w.external.repositories workspace.id = v := Except.ok.inj hv
      simp only [lacks, decide_eq_false_iff_not] at hl
      simp only [hl, ↓reduceIte]
      exact ha
  · refine (hop' _ rfl).answers ?_ ?_
    · intro h w refusal v _ _ hv hl he
      obtain rfl : ExecutionProcess.findById w.executions e = v := Except.ok.inj hv
      simp only [lacks, decide_eq_true_eq] at hl
      simp only [hl, ↓reduceIte]
      exact he
    · intro h w refusal v _ _ hv hl hb
      obtain rfl : ExecutionProcess.findById w.executions e = v := Except.ok.inj hv
      simp only [lacks, decide_eq_false_iff_not] at hl
      simp only [hl, ↓reduceIte]
      exact hb

/-- The answer ends a dispatch that has claimed nothing yet. -/
def stops (w : World) : Op → Bool
  | .hasRunningCodingAgentForSession s =>
    ExecutionProcess.hasRunningCodingAgentForSession w.executions s
  | .findLatestForCommand c =>
    (MeteredApproval.decision (MeteredApproval.findLatestForCommand w.approvals c)).any
      fun d => d ≠ .proceed
  | .ensurePending .. => true
  | .ensureBlocked .. => true
  | _ => false

def Halts (K : ServiceContract) (A : ServiceAssertion) (op : Op) (B O E : ServiceAssertion) : Prop :=
  ∀ h w refusal, A h w → K.always h w → K.ok h (.called op refusal w) →
    K.always (.called op refusal w :: h) (w.exec op refusal).2 ∧
      if (w.exec op refusal).1.isOk = false then
        E (.called op refusal w :: h) (w.exec op refusal).2
      else if stops w op = true then O (.called op refusal w :: h) (w.exec op refusal).2
      else B (.called op refusal w :: h) (w.exec op refusal).2

section
variable {O : ServiceAssertion}

theorem Halts.effect (hc : Halts K A op B O E) {b : op.Val → Bool}
    (hb : ∀ w v, (w.perform op).1 = .ok v → stops w op = b v) :
    (container maxRunning).Effect K A op (fun v => if b v = true then O else B) (fun _ => E) := by
  intro h w refusal ha hj hok
  obtain ⟨hj', hcase⟩ := hc h w refusal ha hj hok
  refine ⟨hj', ?_⟩
  change Ends _ _ (w.exec op refusal).1 _ (w.exec op refusal).2
  cases hx : (w.exec op refusal).1 with
  | error error =>
    rw [if_pos (by rw [hx]; rfl)] at hcase
    exact hcase
  | ok v =>
    rw [if_neg (by rw [hx]; exact Bool.true_eq_false.mp), hb w v (World.exec_ok hx)] at hcase
    change (if b v = true then O else B) _ _
    split at hcase
    · rename_i hbv
      rw [if_pos hbv]
      exact hcase
    · rename_i hbv
      rw [if_neg hbv]
      exact hcase

theorem Halts.passes (hc : Halts K A op B O E) (hgo : ∀ w, stops w op = false) :
    (container maxRunning).Effect K A op (fun _ => B) (fun _ => E) :=
  (hc.effect (b := fun _ => false) fun w _ _ => hgo w).mono
    (fun _ _ _ h => by simpa only [Bool.false_eq_true, ↓reduceIte] using h) fun _ _ _ h => h

theorem Halts.ends (hc : Halts K A op B O E) (hend : ∀ w, stops w op = true) :
    (container maxRunning).Effect K A op (fun _ => O) (fun _ => E) :=
  (hc.effect (b := fun _ => true) fun w _ _ => hend w).mono
    (fun _ _ _ h => by simpa only [↓reduceIte] using h) fun _ _ _ h => h

theorem gate_halts (hA : (container maxRunning).Stable K A) (command : SessionCommand)
    (hop : ∀ op, op.gates = true → Halts K A op A O E) :
    (container maxRunning).Triple K A (gate command) (fun d => if d = .proceed then A else O)
      (fun _ => E) := by
  simp only [Container.gate]
  split
  · exact .pure fun _ _ h => h
  · rename_i metered _
    split
    · exact .pure fun _ _ h => h
    · refine .perform_bind hA ((hop (.findLatestForCommand command.id) rfl).effect
        (b := fun latest => (MeteredApproval.decision latest).any fun d => d ≠ .proceed) ?_)
        fun latest => ?_
      · intro w v hv
        obtain rfl := Except.ok.inj hv
        rfl
      · cases hd : MeteredApproval.decision latest with
        | none =>
          simp only [Option.any_none, Bool.false_eq_true, ↓reduceIte]
          exact .perform_bind (D := fun _ => O) hA ((hop _ rfl).ends fun _ => rfl)
            fun _ => .pure fun _ _ h => h
        | some d =>
          refine .pure fun h w hD => ?_
          by_cases hp : d = .proceed
          · simpa [hd, hp] using hD
          · simpa [hd, hp] using hD
    · exact .perform_bind (D := fun _ => O) hA ((hop _ rfl).ends fun _ => rfl)
        fun _ => .pure fun _ _ h => h

theorem headGate_halts (hA : (container maxRunning).Stable K A) (sessionId : Uuid)
    (hpending : Halts K A (.pending sessionId) A O E)
    (hop : ∀ op, op.gates = true → Halts K A op A O E) :
    (container maxRunning).Triple K A (headGate sessionId)
      (fun d => if d = .proceed then A else O) (fun _ => E) := by
  refine .perform_bind (D := fun _ => A) hA (hpending.passes fun _ => rfl) fun pending => ?_
  split
  · exact .pure fun _ _ h => h
  · exact gate_halts hA _ hop

end

end Cdesktop
