import Cdesktop.ServiceHistory

namespace Cdesktop
set_option autoImplicit true
open System Container SessionCommand MeteredApproval

/-- Every command of a launched batch that must ask has been answered and not denied. -/
def launchAnswered (h : ServiceHistory) : ServiceEvent → Prop
  | .called (.startExecutionInner _ _) _ w =>
    ∀ c ∈ headBatch (claimed h), c.config.asks = true → heldBack w.approvals c.id = false
  | _ => True

instance launchAnswered.decidable (h : ServiceHistory) (ev : ServiceEvent) :
    Decidable (launchAnswered h ev) := by
  apply Event.casesOn (motive := fun ev => Decidable (launchAnswered h ev)) ev
  case called =>
    intro op refusal w
    apply Op.casesOn (motive := fun op => Decidable (launchAnswered h (.called op refusal w))) op
    all_goals
      intros
      unfold launchAnswered
      infer_instance
  all_goals
    intros
    exact .isTrue trivial

/-- No follower of a claimed batch waits for its answer or was denied. -/
def followersAnswered (_ : ServiceHistory) : ServiceEvent → Prop
  | .called (.claimPending sessionId) _ w =>
    ∀ c ∈ (claimPending w.commands sessionId).2.tail, c.config.asks = true →
      heldBack w.approvals c.id = false
  | _ => True

instance followersAnswered.decidable (h : ServiceHistory) (ev : ServiceEvent) :
    Decidable (followersAnswered h ev) := by
  unfold followersAnswered
  split <;> infer_instance

variable {h : ServiceHistory} {op : Op} {w : World} {c e : Uuid}

theorem launch_answered : OfLaunches launchAnswered where
  rest h ev hev := by
    unfold launchAnswered
    split
    · cases hev
    · trivial
  direct h e action refusal w hc c hm := by
    rw [hc] at hm
    cases hm

def meteredGate : ServiceContract where
  ok := followersAnswered
  always h w := w.IdsOk ∧ All launchAnswered h
  idle _ _ := True

variable {maxRunning : Nat} {sessionId : Uuid} {cs : List SessionCommand}

theorem heldBack_act (a : World.Act)
    (h : heldBack w.approvals c = false) : heldBack (w.act a).approvals c = false := by
  cases a with
  | respond id approved reason =>
    have hlatest := findLatest_update (p := respondable id)
      (f := resolve approved reason w.now) (fun _ => rfl) w.approvals c
    have happ : (w.act (.respond id approved reason)).approvals =
        Table.update (respondable id) (resolve approved reason w.now) w.approvals := rfl
    rw [happ]
    simp only [heldBack, hlatest] at h ⊢
    cases hl : findLatestForCommand w.approvals c with
    | none => rfl
    | some latest =>
      rw [hl] at h
      simp only [Option.any_some, decide_eq_false_iff_not, not_or] at h
      have hno : respondable id latest = false := by simp [respondable, h.1]
      simp [hno, h.1, h.2]
  | enqueue new =>
    simp only [World.act]
    split <;> exact h
  | _ => exact h

theorem heldBack_consume {t : Approvals} {c' : Uuid} :
    heldBack (consumeApproval t c' e).1 c = heldBack t c := by
  have hlatest := findLatest_update (p := consumable c')
    (f := fun a => { a with executionProcessId := some e }) (fun _ => rfl) t c
  have happ : (consumeApproval t c' e).1 =
      Table.update (consumable c') (fun a => { a with executionProcessId := some e }) t := rfl
  rw [happ]
  simp only [heldBack, hlatest]
  cases findLatestForCommand t c with
  | none => rfl
  | some latest =>
    simp only [Option.map_some, Option.any_some]
    split <;> rfl

theorem heldBack_autoStart {t : Approvals} {id c' : Uuid} {accountAlias : Option String}
    {now : Time} (h : heldBack t c = false) :
    heldBack (recordAutoStart t id c' e accountAlias now) c = false := by
  simp only [recordAutoStart]
  split
  · exact h
  · simp only [heldBack, findLatest_append] at h ⊢
    split
    · rfl
    · exact h

structure FollowersOk (cs : List SessionCommand) (h : ServiceHistory) (w : World) : Prop where
  claimed : claimed h = cs
  followers : ∀ c ∈ cs.tail, c.config.asks = true → heldBack w.approvals c.id = false

structure BatchOk (cs : List SessionCommand) (h : ServiceHistory) (w : World) : Prop where
  claimed : claimed h = cs
  answered : ∀ c ∈ cs, c.config.asks = true → heldBack w.approvals c.id = false

theorem stable_followers : (container maxRunning).Stable meteredGate (FollowersOk cs) :=
  fun _ _ a _ _ hf => ⟨hf.claimed, fun c hc ha => heldBack_act a (hf.followers c hc ha)⟩

theorem stable_batch : (container maxRunning).Stable meteredGate (BatchOk cs) :=
  fun _ _ a _ _ hb => ⟨hb.claimed, fun c hc ha => heldBack_act a (hb.answered c hc ha)⟩

theorem BatchOk.called (hb : BatchOk cs h w)
    (hop : op.writesApprovals = false) (hop' : ∀ s, op ≠ .claimPending s)
    (refusal : Option ContainerError) :
    BatchOk cs (.called op refusal w :: h) (w.exec op refusal).2 := by
  refine ⟨by rw [claimed_called hop', hb.claimed], ?_⟩
  rw [World.exec_approvals_eq hop]
  exact hb.answered

theorem batch_effect (hop : op.writesApprovals = false)
    (hop' : ∀ e action, op ≠ .startExecutionInner e action) (hop'' : ∀ s, op ≠ .claimPending s) :
    (container maxRunning).Effect meteredGate (BatchOk cs) op (fun _ => BatchOk cs)
      (fun _ _ _ => True) :=
  effect_ok (fun hj _ _ => launch_answered.always hop' hj)
    fun _ _ refusal _ hb _ _ hx _ => hx ▸ hb.called hop hop'' refusal

theorem batch_reads (hop : op.reads = true) :
    (container maxRunning).Effect meteredGate (BatchOk cs) op (fun _ => BatchOk cs)
      (fun _ => BatchOk cs) := by
  have hno : ∀ e action, op ≠ .startExecutionInner e action := by
    rintro e action rfl
    cases hop
  have hno' : ∀ s, op ≠ .claimPending s := by
    rintro s rfl
    cases hop
  have hw := (Op.reads_writes hop).2.2
  refine effect_intro (fun hj _ _ => launch_answered.always hno hj)
    (fun h w e hb _ _ _ => ⟨by rw [claimed_called hno', hb.claimed], hb.answered⟩)
    fun h w refusal hb _ _ hx => ?_
  have hb' : BatchOk cs (.called op refusal w :: h) (w.perform op).2 :=
    hx ▸ hb.called hw hno' refusal
  cases (w.perform op).1 <;> exact hb'

theorem gate_followers (first : SessionCommand) (rest : List SessionCommand) :
    (container maxRunning).Triple meteredGate (FollowersOk (first :: rest)) (gate first)
      (fun d => if d = .proceed then BatchOk (first :: rest) else fun _ _ => True)
      (fun _ _ _ => True) := by
  have hcons {h : ServiceHistory} {w : World} (hf : FollowersOk (first :: rest) h w)
      (hhead : first.config.asks = true → heldBack w.approvals first.id = false) :
      BatchOk (first :: rest) h w := by
    refine ⟨hf.claimed, fun c hc ha => ?_⟩
    rcases List.mem_cons.1 hc with rfl | hc
    · exact hhead ha
    · exact hf.followers c hc ha
  simp only [Container.gate]
  split
  · rename_i hm
    exact .pure fun h w hf => hcons hf fun ha => by simp [SessionCommandConfig.asks, hm] at ha
  · rename_i metered hm
    split
    · rename_i hp
      exact .pure fun h w hf => hcons hf fun ha => by simp [SessionCommandConfig.asks, hm, hp] at ha
    · refine .perform_bind
        (D := fun latest => if decision latest = some .proceed then BatchOk (first :: rest)
          else fun _ _ => True) stable_followers ?_ fun latest => ?_
      · refine effect_ok (fun hj _ _ => launch_answered.always (by simp) hj)
          fun h w refusal latest hf _ _ _ hv => ?_
        have hlatest : findLatestForCommand w.approvals first.id = latest := Except.ok.inj hv
        by_cases hd : decision latest = some .proceed
        · simp only [hd, ↓reduceIte]
          obtain ⟨a, ha, hst, -⟩ := decision_proceed hd
          refine hcons ⟨hf.claimed, hf.followers⟩ fun _ => ?_
          have hno : heldBack w.approvals first.id = false := by
            simp [heldBack, hlatest, ha, hst]
          exact hno
        · simp only [hd, ↓reduceIte]
      · cases hd : decision latest with
        | none =>
          simp only [reduceCtorEq, ↓reduceIte]
          exact .perform_bind (D := fun _ _ _ => True) stable_top
            (launch_answered.top (by simp)) fun _ => .pure fun _ _ _ => trivial
        | some d =>
          refine .pure fun h w hD => ?_
          by_cases hp : d = .proceed
          · simpa [hp] using hD
          · simp only [hp, ↓reduceIte]
    · have hblocked : (container maxRunning).Triple meteredGate (fun _ _ => True)
          ((call (.ensureBlocked first.id metered.accountAlias)).bind fun _ =>
            .pure MeteredGateDecision.blocked)
          (fun d => if d = .proceed then BatchOk (first :: rest) else fun _ _ => True)
          (fun _ _ _ => True) :=
        .perform_bind (D := fun _ _ _ => True) stable_top
          (launch_answered.top (by simp)) fun _ => .pure fun _ _ _ => trivial
      exact hblocked.pre fun _ _ _ => trivial

theorem record_batch (first : SessionCommand) (rest : List SessionCommand) (e : Uuid) :
    (container maxRunning).Triple meteredGate (BatchOk (first :: rest)) (recordLaunch first e)
      (fun _ => BatchOk (first :: rest)) (fun _ _ _ => True) := by
  refine recordLaunch_keeps stable_batch first e fun op hop => ?_
  have hno : ∀ e action, op ≠ .startExecutionInner e action := by
    rintro e action rfl
    cases hop
  refine effect_ok (fun hj _ _ => launch_answered.always hno hj)
    fun h w refusal v hb _ _ _ _ => ?_
  cases op with
  | consumeApproval c e =>
    exact ⟨hb.claimed, fun c' hc' ha => heldBack_consume.trans (hb.answered c' hc' ha)⟩
  | recordAutoStart c e accountAlias =>
    exact ⟨hb.claimed, fun c' hc' ha => heldBack_autoStart (hb.answered c' hc' ha)⟩
  | _ => cases hop

theorem batch_launch {action : ExecutorAction} :
    (container maxRunning).Effect meteredGate (BatchOk cs) (.startExecutionInner e action)
      (fun _ _ _ => True) (fun _ _ _ => True) := by
  refine effect_ok (fun {h w} hj hb refusal => ⟨hj.1.exec _ refusal, ?_, hj.2⟩)
    fun _ _ _ _ _ _ _ _ _ => trivial
  intro c hc ha
  rw [hb.claimed] at hc
  exact hb.answered c ((Queue.headBatch_leads cs).subset hc) ha

def gateOutline (maxRunning : Nat) (sessionId : Uuid) :
    Outline meteredGate maxRunning sessionId where
  entering _ _ := True
  opening _ _ := True
  released _ _ := True
  drawn _ _ _ := True
  claimed _ cs := FollowersOk cs
  authorized _ cs := BatchOk cs
  held _ _ _ _ := True
  ready _ cs := BatchOk cs
  admitted _ cs := BatchOk cs
  full _ _ _ _ := True
  created _ cs := BatchOk cs
  emptied _ _ _ := True
  bound _ cs := BatchOk cs
  lost _ _ _ := True
  isOver _ _ := True
  failed _ _ := True
  stable_entering := stable_top
  stable_opening := stable_top
  stable_released := stable_top
  stable_drawn _ := stable_top
  stable_held _ _ := stable_top
  stable_ready _ _ := stable_batch
  stable_full _ _ := stable_top
  stable_created _ _ := stable_batch
  stable_emptied _ := stable_top
  stable_bound _ _ := stable_batch
  stable_lost _ := stable_top
  stable_over := stable_top
  running := (launch_answered.top (by simp)).mono (fun v _ _ _ => by split <;> trivial)
    fun _ _ _ h => h
  headGate := (headGate_keeps stable_top sessionId (launch_answered.top (by simp))
    fun op hop => launch_answered.top (by rintro e action rfl; cases hop)).consequence
      (fun _ _ h => h) (fun d _ _ _ => by split <;> trivial) fun _ _ _ h => h
  release := launch_answered.top (by simp)
  draw := launch_answered.top (by simp)
  claim _ := by
    refine effect_ok (fun hj _ _ => launch_answered.always (by simp) hj)
      fun h w refusal v _ _ hok hx hv => ?_
    have hv : (claimPending w.commands sessionId).2 = v := Except.ok.inj hv
    by_cases hcs : v = []
    · simp only [hcs, ↓reduceIte]
    · simp only [hcs, ↓reduceIte]
      subst hv
      refine ⟨?_, hok⟩
      simp only [Cdesktop.claimed, claimedBy, hx]
      rfl
  gate _ first rest := gate_followers first rest
  record e first rest := (record_batch first rest e).consequence (fun _ _ h => h)
    (fun b _ _ h => by split <;> first | exact h | trivial) fun _ _ _ h => h
  putBack _ _ := launch_answered.top (by simp)
  prepare _ first rest := prepareLaunch_keeps stable_batch (fun _ _ _ => trivial)
    (fun _ hop _ => (batch_reads hop).mono (fun _ _ _ h => h) fun _ _ _ _ => trivial) sessionId
    first.config _
  admission _ _ := (batch_reads rfl).mono
    (fun v _ _ h => by split <;> first | exact h | trivial) fun _ _ _ _ => trivial
  putBackFull _ _ := launch_answered.top (by simp)
  create e cs workspace session _ := createExecution_keeps stable_batch stable_batch
    (fun _ _ _ => trivial) (fun _ _ _ => trivial)
    (fun _ hop => (batch_reads hop).mono (fun _ _ _ h => h) fun _ _ _ _ => trivial)
    (fun _ hop => (batch_reads hop).mono (fun _ _ _ h => h) fun _ _ _ _ => trivial)
    workspace session .codingAgent e (batch_effect rfl (by simp) (by simp))
  bind e cs := (batch_effect rfl (by simp) (by simp)).mono
    (fun v _ _ h => by split <;> first | exact h | trivial) fun _ _ _ h => h
  fail _ := launch_answered.top (by simp)
  bound_reads _ _ _ hop _ := batch_reads hop
  bound_lost _ _ _ _ _ := trivial
  spawn e cs action _ _ := spawnChild_keeps stable_batch stable_top e action batch_launch
    fun _ hop => launch_answered.top (by rintro e action rfl; cases hop)
  over_reads op hop _ := launch_answered.top (by rintro e action rfl; cases hop)
  over_lost _ _ _ _ := trivial
  lose _ := launch_answered.top (by simp)

theorem meteredGate_keeps (maxRunning : Nat) : Keeps (container maxRunning) meteredGate :=
  launch_answered.keeps (gateOutline maxRunning) fun _ _ _ => trivial

/-- No launched batch holds a command that was denied or still waits for its answer, in every run
that claims no such follower. -/
theorem launches_answered (maxRunning : Nat) (w : World) (hw : w.IdsOk)
    (labels : List (Label ContainerError World.Act Entry))
    (hok : All followersAnswered ((container maxRunning).run (System.start w) labels).history) :
    All launchAnswered ((container maxRunning).run (System.start w) labels).history := by
  have hstart : Kept (container maxRunning) meteredGate (System.start w) :=
    ⟨⟨hw, trivial⟩, trivial⟩
  exact ((meteredGate_keeps maxRunning).run hstart labels hok).1.2

def deniedFollowerRun : List (Label ContainerError World.Act Entry) :=
  [.act (.enqueue (askingCommand "first"))] ++ dispatchAlone ++
    [.act (.respond 11 true none)] ++ dispatchAlone ++
    [.act (.enqueue (askingCommand "second")), .act (.completeRunningAttempt 12 .failed none),
      .act (.finishExecution 12 false)] ++ dispatchAlone ++
    [.act (.respond 14 false none), .act (.requeueExecution 12)] ++ dispatchAlone ++
    [.act (.respond 15 true none)] ++ dispatchAlone

theorem denied_follower_launched :
    ¬ All launchAnswered
      ((container 4).run (System.start sampleWorld) deniedFollowerRun).history := by
  decide +kernel

theorem launches_answered_sample :
    All launchAnswered ((container 4).run (System.start sampleWorld)
      ([.act (.enqueue (askingCommand "metered"))] ++ dispatchAlone ++
        [.act (.respond 11 true none)] ++ dispatchAlone)).history :=
  launches_answered 4 sampleWorld ⟨by decide, by decide⟩ _ (by decide +kernel)

end Cdesktop
