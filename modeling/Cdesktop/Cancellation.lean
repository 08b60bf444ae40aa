import Cdesktop.ServiceHistory

namespace Cdesktop
set_option autoImplicit true
open System Container SessionCommand

def uncancelled (table : Commands) (batch : List SessionCommand) : Prop :=
  ∀ c ∈ batch, ∀ row ∈ table, row.id = c.id → row.state ≠ .cancelled

instance uncancelled.decidable (table : Commands) (batch : List SessionCommand) :
    Decidable (uncancelled table batch) :=
  inferInstanceAs (Decidable (∀ c ∈ batch, ∀ row ∈ table, row.id = c.id → row.state ≠ .cancelled))

/-- A prompt launched for a claimed batch is the prompt of its commands, none of them cancelled
when `bind_execution` returned. -/
def promptSound (h : ServiceHistory) : ServiceEvent → Prop
  | .called (.startExecutionInner _ action) _ _ =>
    claimed h = [] ∨
      (action.request.map (·.1) = some (promptOf (headBatch (claimed h))) ∧
        ∃ table ∈ boundTable h, uncancelled table (headBatch (claimed h)))
  | _ => True

instance promptSound.decidable (h : ServiceHistory) (ev : ServiceEvent) :
    Decidable (promptSound h ev) := by
  unfold promptSound
  split <;> infer_instance

def waits (w : World) (sessionId : Uuid) (c : SessionCommand) : Bool :=
  w.commands.any fun r => r.id = c.id ∧ isUnbound sessionId r

/-- Whenever a batch is bound, the cancels since its claim took none of its commands or all. -/
def unsplit (h : ServiceHistory) : ServiceEvent → Prop
  | .called (.bindExecution sessionId _) _ w =>
    (∀ c ∈ claimed h, waits w sessionId c = true) ∨ ∀ c ∈ claimed h, waits w sessionId c = false
  | _ => True

instance unsplit.decidable (h : ServiceHistory) (ev : ServiceEvent) : Decidable (unsplit h ev) := by
  unfold unsplit
  split <;> infer_instance

variable {h : ServiceHistory} {op : Op} {w : World}

theorem launch_sound : OfLaunches promptSound where
  rest h ev hev := by
    unfold promptSound
    split
    · cases hev
    · trivial
  direct _ _ _ _ _ hc := .inl hc

def cancellation : ServiceContract where
  ok := unsplit
  always h w := w.IdsOk ∧ All promptSound h
  idle _ _ := True

variable {maxRunning : Nat} {sessionId : Uuid} {cs : List SessionCommand}

def BoundBatch (cs : List SessionCommand) (h : ServiceHistory) (_ : World) : Prop :=
  claimed h = cs ∧ ∃ table ∈ boundTable h, uncancelled table cs

theorem HeldBatch.bind {e : Uuid} {t : Commands} {n : Nat}
    (hb : HeldBatch sessionId cs h w) (hw : w.IdsOk) (refusal : Option ContainerError)
    (hok : unsplit h (.called (.bindExecution sessionId e) refusal w))
    (hbind : bindExecution w.executions w.commands sessionId e = some (t, n)) (hn : n ≠ 0) :
    uncancelled t cs := by
  simp only [bindExecution] at hbind
  split at hbind
  · cases hbind
  obtain ⟨rfl, rfl⟩ := Prod.mk.injEq .. ▸ Option.some.inj hbind
  obtain ⟨r, hr, hu⟩ := List.countP_pos_iff.1 (Nat.pos_of_ne_zero hn)
  obtain ⟨c, hc, hid⟩ := hb.only r hr hu
  have hwaits : ∀ c ∈ cs, waits w sessionId c = true := by
    simp only [unsplit, hb.claimed] at hok
    rcases hok with hok | hok
    · exact hok
    · have hno := hok c hc
      have hyes : waits w sessionId c = true :=
        List.any_eq_true.2 ⟨r, hr, by simp [hid, hu]⟩
      rw [hyes] at hno
      cases hno
  intro c hc row hrow hrowid
  obtain ⟨r, hr, hru⟩ := List.any_eq_true.1 (hwaits c hc)
  simp only [Bool.decide_and, Bool.decide_eq_true, Bool.and_eq_true, decide_eq_true_eq] at hru
  obtain ⟨hrid, hru⟩ := hru
  have hclaimed := (World.unbound_claimed hru).2.1
  rcases Table.mem_update.1 hrow with ⟨r₀, hr₀, -, rfl⟩ | ⟨hrow, -⟩
  · have heq : r₀ = r := Table.eq_of_key hw.nodup hr₀ hr (hrowid.trans hrid.symm)
    subst heq
    simp [hclaimed]
  · have heq : row = r := Table.eq_of_key hw.nodup hrow hr (hrowid.trans hrid.symm)
    subst heq
    simp [hclaimed]

theorem BoundBatch.called {w' : World} (hb : BoundBatch cs h w)
    (hop : op.writesCommands = false) (refusal : Option ContainerError) :
    BoundBatch cs (.called op refusal w :: h) w' := by
  obtain ⟨hc, table, ht, hu⟩ := hb
  refine ⟨?_, table, ?_, hu⟩
  · rw [claimed_called, hc]
    rintro s rfl
    cases hop
  · rw [boundTable_called]
    · exact ht
    · rintro s e rfl
      cases hop

theorem stable_held : (container maxRunning).Stable cancellation (HeldBatch sessionId cs) :=
  fun _ _ a _ _ hb => hb.act a

theorem stable_bound : (container maxRunning).Stable cancellation (BoundBatch cs) :=
  fun _ _ _ _ _ hb => hb

theorem held_effect (hop : op.writesCommands = false)
    (hop' : ∀ e action, op ≠ .startExecutionInner e action) :
    (container maxRunning).Effect cancellation (HeldBatch sessionId cs) op
      (fun _ => HeldBatch sessionId cs) (fun _ _ _ => True) :=
  effect_ok (fun hj _ _ => launch_sound.always hop' hj)
    fun _ _ refusal _ hb _ _ hx _ => hx ▸ hb.called hop refusal

theorem held_reads (hop : op.reads = true) :
    (container maxRunning).Effect cancellation (HeldBatch sessionId cs) op
      (fun _ => HeldBatch sessionId cs) (fun _ _ _ => True) :=
  held_effect (Op.reads_writes hop).1 (by rintro e action rfl; cases hop)

theorem bound_reads (hop : op.reads = true) :
    (container maxRunning).Effect cancellation (BoundBatch cs) op (fun _ => BoundBatch cs)
      (fun _ => BoundBatch cs) := by
  have hop' : ∀ e action, op ≠ .startExecutionInner e action := by
    rintro e action rfl
    cases hop
  refine effect_intro (fun hj _ refusal => launch_sound.always hop' hj)
    (fun h w e hb _ _ _ => hb.called (Op.reads_writes hop).1 _) fun h w refusal hb _ _ _ => ?_
  have hb' : BoundBatch cs (.called op refusal w :: h) (w.perform op).2 :=
    hb.called (Op.reads_writes hop).1 refusal
  cases (w.perform op).1 <;> exact hb'

theorem bound_launch {e : Uuid} {action : ExecutorAction} {config : ExecutorConfig}
    (ha : action.request = some (promptOf (headBatch cs), config)) :
    (container maxRunning).Effect cancellation (BoundBatch cs) (.startExecutionInner e action)
      (fun _ _ _ => True) (fun _ _ _ => True) := by
  refine effect_intro (fun {h w} hj hb refusal => ⟨hj.1.exec _ refusal, ?_, hj.2⟩)
    (fun _ _ _ _ _ _ _ => trivial) fun _ _ _ _ _ _ _ => trivial
  obtain ⟨hc, table, ht, hu⟩ := hb
  refine .inr ⟨by rw [ha, hc]; rfl, table, ht, ?_⟩
  rw [hc]
  exact fun c hm => hu c ((Queue.headBatch_leads cs).subset hm)

def cancellationOutline (maxRunning : Nat) (sessionId : Uuid) :
    Outline cancellation maxRunning sessionId where
  entering _ _ := True
  opening _ _ := True
  released _ _ := True
  drawn _ _ _ := True
  claimed _ cs := HeldBatch sessionId cs
  authorized _ cs := HeldBatch sessionId cs
  held _ _ _ _ := True
  ready _ cs := HeldBatch sessionId cs
  admitted _ cs := HeldBatch sessionId cs
  full _ _ _ _ := True
  created _ cs := HeldBatch sessionId cs
  emptied _ _ _ := True
  bound _ cs := BoundBatch cs
  lost _ _ _ := True
  isOver _ _ := True
  failed _ _ := True
  stable_entering := stable_top
  stable_opening := stable_top
  stable_released := stable_top
  stable_drawn _ := stable_top
  stable_held _ _ := stable_top
  stable_ready _ _ := stable_held
  stable_full _ _ := stable_top
  stable_created _ _ := stable_held
  stable_emptied _ := stable_top
  stable_bound _ _ := stable_bound
  stable_lost _ := stable_top
  stable_over := stable_top
  running := (launch_sound.top (by simp)).mono (fun v _ _ _ => by split <;> trivial)
    fun _ _ _ h => h
  headGate := (headGate_keeps stable_top sessionId (launch_sound.top (by simp))
    fun op hop => launch_sound.top (by rintro e action rfl; cases hop)).consequence
      (fun _ _ h => h) (fun d _ _ _ => by split <;> trivial) fun _ _ _ h => h
  release := launch_sound.top (by simp)
  draw := launch_sound.top (by simp)
  claim _ := by
    refine effect_ok (fun hj _ _ => launch_sound.always (by simp) hj)
      fun h w refusal v _ _ _ hx hv => ?_
    have hv : (claimPending w.commands sessionId).2 = v := Except.ok.inj hv
    by_cases hcs : v = []
    · simp only [hcs, ↓reduceIte]
    · simp only [hcs, ↓reduceIte]
      subst hv
      exact .claim hx hcs
  gate _ first rest := (gate_keeps stable_held first fun op hop =>
    held_effect (by cases op <;> first | rfl | cases hop)
      (by rintro e action rfl; cases hop)).consequence (fun _ _ h => h)
        (fun d _ _ h => by split <;> first | exact h | trivial) fun _ _ _ h => h
  record e first rest := (recordLaunch_keeps stable_held first e fun op hop =>
    held_effect (by cases op <;> first | rfl | cases hop)
      (by rintro e action rfl; cases hop)).consequence (fun _ _ h => h)
        (fun b _ _ h => by split <;> first | exact h | trivial) fun _ _ _ h => h
  putBack _ _ := launch_sound.top (by simp)
  prepare _ first rest := prepareLaunch_keeps stable_held (fun _ _ _ => trivial)
    (fun _ hop _ => held_reads hop) sessionId first.config _
  admission _ _ := (held_reads rfl).mono
    (fun v _ _ h => by split <;> first | exact h | trivial) fun _ _ _ h => h
  putBackFull _ _ := launch_sound.top (by simp)
  create e cs workspace session _ := createExecution_keeps stable_held stable_held
    (fun _ _ _ => trivial) (fun _ _ _ => trivial) (fun _ hop => held_reads hop)
    (fun _ hop => held_reads hop) workspace session .codingAgent e (held_effect rfl (by simp))
  bind e cs := by
    refine effect_ok (fun hj _ _ => launch_sound.always (by simp) hj)
      fun h w refusal v hb hj hok hx hv => ?_
    cases hbind : bindExecution w.executions w.commands sessionId e with
    | none =>
      simp only [World.perform, hbind] at hv
      cases hv
    | some r =>
      obtain ⟨t, n⟩ := r
      have hp : w.perform (.bindExecution sessionId e) = (.ok n, { w with commands := t }) := by
        simp only [World.perform, hbind]
      rw [hp] at hv
      obtain rfl : n = v := Except.ok.inj hv
      by_cases hn : n = 0
      · simp only [hn, ↓reduceIte]
      · simp only [hn, ↓reduceIte]
        refine ⟨hb.claimed, t, ?_, hb.bind hj.1 refusal hok hbind hn⟩
        simp only [boundTable, boundBy, hx, hp]
        rfl
  fail _ := launch_sound.top (by simp)
  bound_reads _ _ _ hop _ := bound_reads hop
  bound_lost _ _ _ _ _ := trivial
  spawn e _ action _ ha := spawnChild_keeps stable_bound stable_top e action (bound_launch ha)
    fun _ hop => launch_sound.top (by rintro e action rfl; cases hop)
  over_reads op hop _ := launch_sound.top (by rintro e action rfl; cases hop)
  over_lost _ _ _ _ := trivial
  lose _ := launch_sound.top (by simp)

theorem cancellation_keeps (maxRunning : Nat) : Keeps (container maxRunning) cancellation :=
  launch_sound.keeps (cancellationOutline maxRunning) fun _ _ _ => trivial

/-- No launched prompt holds a cancelled command, in every run that splits no batch. -/
theorem prompts_sound (maxRunning : Nat) (w : World) (hw : w.IdsOk)
    (labels : List (Label ContainerError World.Act Entry))
    (hok : All unsplit ((container maxRunning).run (System.start w) labels).history) :
    All promptSound ((container maxRunning).run (System.start w) labels).history := by
  have hstart : Kept (container maxRunning) cancellation (System.start w) :=
    ⟨⟨hw, trivial⟩, trivial⟩
  exact ((cancellation_keeps maxRunning).run hstart labels hok).1.2

def splitRun : List (Label ContainerError World.Act Entry) :=
  [.act (.enqueue (sampleCommand "first")), .act (.enqueue (sampleCommand "second")),
    .begin (.dispatchPendingCommands 1)] ++ List.replicate 5 (.call none) ++
    [.act (.cancel 1 10)] ++ List.replicate 20 (.call none)

theorem cancelled_prompt_launched :
    ¬ All promptSound ((container 4).run (System.start sampleWorld) splitRun).history := by
  decide +kernel

theorem prompts_sound_sample :
    All promptSound ((container 4).run (System.start sampleWorld)
      ([.act (.enqueue (sampleCommand "first")), .act (.enqueue (sampleCommand "second")),
        .begin (.dispatchPendingCommands 1)] ++ List.replicate 25 (.call none))).history :=
  prompts_sound 4 sampleWorld ⟨by decide, by decide⟩ _ (by decide +kernel)

end Cdesktop
