import Cdesktop.WorldSteps

namespace Cdesktop
set_option autoImplicit true
open System

/-- The batch the running program claimed, after one more event. -/
def claimedBy (batch : List SessionCommand) : ServiceEvent → List SessionCommand
  | .began .. => []
  | .called (.claimPending s) refusal w =>
    match (w.exec (.claimPending s) refusal).1 with
    | .ok commands => commands
    | .error _ => batch
  | _ => batch

def claimed : ServiceHistory → List SessionCommand
  | [] => []
  | ev :: h => claimedBy (claimed h) ev

/-- The table `bind_execution` left for the running program, after one more event. -/
def boundBy (table : Option Commands) : ServiceEvent → Option Commands
  | .began .. => none
  | .called (.bindExecution s e) refusal w => some (w.exec (.bindExecution s e) refusal).2.commands
  | _ => table

/-- The table `bind_execution` left for the running program. -/
def boundTable : ServiceHistory → Option Commands
  | [] => none
  | ev :: h => boundBy (boundTable h) ev

variable {op : Op} {h : ServiceHistory} {w : World}

theorem claimed_called (hop : ∀ s, op ≠ .claimPending s) (refusal : Option ContainerError)
    (w : World) (h : ServiceHistory) : claimed (.called op refusal w :: h) = claimed h := by
  cases op with
  | claimPending s => exact absurd rfl (hop s)
  | _ => rfl

theorem boundTable_called (hop : ∀ s e, op ≠ .bindExecution s e)
    (refusal : Option ContainerError) (w : World) (h : ServiceHistory) :
    boundTable (.called op refusal w :: h) = boundTable h := by
  cases op with
  | bindExecution s e => exact absurd rfl (hop s e)
  | _ => rfl

theorem claimed_direct (hop : op.direct = true) (refusal : Option ContainerError)
    (w : World) (h : ServiceHistory) : claimed (.called op refusal w :: h) = claimed h := by
  refine claimed_called (fun s => ?_) refusal w h
  rintro rfl
  cases hop

variable {sessionId : Uuid} {cs : List SessionCommand}

structure HeldBatch (sessionId : Uuid) (cs : List SessionCommand) (h : ServiceHistory)
    (w : World) : Prop where
  claimed : claimed h = cs
  rows : ∀ c ∈ cs, ∃ r ∈ w.commands, r.id = c.id ∧
    (SessionCommand.isUnbound sessionId r = true ∨ r.state = .cancelled)
  only : ∀ r ∈ w.commands, SessionCommand.isUnbound sessionId r = true → ∃ c ∈ cs, c.id = r.id

theorem HeldBatch.act (hb : HeldBatch sessionId cs h w)
    (a : World.Act) : HeldBatch sessionId cs (.acted a w :: h) (w.act a) := by
  refine ⟨hb.claimed, fun c hc => ?_, fun r hr hu => ?_⟩
  · obtain ⟨r, hr, hid, hst⟩ := hb.rows c hc
    rcases hst with hu | hst
    · rcases World.act_unbound a hr hu with hr' | ⟨r', hr', hid', hst'⟩
      · exact ⟨r, hr', hid, .inl hu⟩
      · exact ⟨r', hr', hid'.trans hid, .inr hst'⟩
    · exact ⟨r, World.act_settled a hr (.inr hst), hid, .inr hst⟩
  · exact hb.only r (World.act_claimed hr (World.unbound_claimed hu).2.1) hu

theorem HeldBatch.called (hb : HeldBatch sessionId cs h w)
    (hop : op.writesCommands = false) (refusal : Option ContainerError) :
    HeldBatch sessionId cs (.called op refusal w :: h) (w.exec op refusal).2 := by
  have hcmds := World.exec_commands_eq hop refusal (w := w)
  refine ⟨?_, by rw [hcmds]; exact hb.rows, by rw [hcmds]; exact hb.only⟩
  rw [claimed_called, hb.claimed]
  rintro s rfl
  cases hop

theorem HeldBatch.claim {refusal : Option ContainerError}
    (hx : w.exec (.claimPending sessionId) refusal = w.perform (.claimPending sessionId))
    (hcs : (SessionCommand.claimPending w.commands sessionId).2 ≠ []) :
    HeldBatch sessionId (SessionCommand.claimPending w.commands sessionId).2
      (.called (.claimPending sessionId) refusal w :: h)
      (w.perform (.claimPending sessionId)).2 := by
  have hfilter := (SessionCommand.claimPending_unbound w.commands sessionId).resolve_left hcs
  refine ⟨?_, fun c hc => ?_, fun r hr hu => ⟨r, ?_, rfl⟩⟩
  · simp only [Cdesktop.claimed, claimedBy, hx]
    rfl
  · rw [hfilter] at hc
    obtain ⟨hc, hu⟩ := List.mem_filter.1 hc
    exact ⟨c, hc, rfl, .inl hu⟩
  · rw [hfilter]
    exact List.mem_filter.2 ⟨hr, hu⟩

def ServiceEvent.isLaunch : ServiceEvent → Bool
  | .called (.startExecutionInner ..) .. => true
  | _ => false

structure OfLaunches (sound : ServiceHistory → ServiceEvent → Prop) : Prop where
  rest : ∀ h ev, ev.isLaunch = false → sound h ev
  direct : ∀ h e action refusal w, claimed h = [] →
    sound h (.called (.startExecutionInner e action) refusal w)

namespace OfLaunches
variable {ok sound : ServiceHistory → ServiceEvent → Prop} {maxRunning : Nat} {op : Op}

def contract (ok sound : ServiceHistory → ServiceEvent → Prop) : ServiceContract where
  ok := ok
  always h w := w.IdsOk ∧ All sound h
  idle _ _ := True

section
variable (hsound : OfLaunches sound)
include hsound

section
variable (hop : ∀ e action, op ≠ .startExecutionInner e action)
include hop

theorem called {h : ServiceHistory} {w : World} {refusal : Option ContainerError} :
    sound h (.called op refusal w) :=
  hsound.rest _ _ (by
    cases op with
    | startExecutionInner e action => exact absurd rfl (hop e action)
    | _ => rfl)

theorem always {h : ServiceHistory} {w : World} {refusal : Option ContainerError} (hj : (contract ok sound).always h w) :
    (contract ok sound).always (.called op refusal w :: h) (w.exec op refusal).2 :=
  ⟨hj.1.exec op refusal, hsound.called hop, hj.2⟩

theorem top :
    (container maxRunning).Effect (contract ok sound) (fun _ _ => True) op (fun _ _ _ => True)
      (fun _ _ _ => True) :=
  effect_ok (fun hj _ _ => hsound.always hop hj) fun _ _ _ _ _ _ _ _ _ => trivial

end

theorem direct_effect (hop : op.direct = true) :
    (container maxRunning).Effect (contract ok sound) (fun h _ => claimed h = []) op
      (fun _ h _ => claimed h = []) (fun _ h _ => claimed h = []) := by
  refine effect_intro (fun {h w} hj hc refusal => ⟨hj.1.exec op refusal, ?_, hj.2⟩)
    (fun h w e hc _ _ _ => by rw [claimed_direct hop, hc]) fun h w refusal hc _ _ _ => ?_
  · by_cases hstart : ∃ e action, op = .startExecutionInner e action
    · obtain ⟨e, action, rfl⟩ := hstart
      exact hsound.direct _ _ _ _ _ hc
    · exact hsound.called fun e action heq => hstart ⟨e, action, heq⟩
  · have hc' : claimed (.called op refusal w :: h) = [] := by rw [claimed_direct hop, hc]
    cases (w.perform op).1 <;> exact hc'

theorem skip {h : ServiceHistory} {ev : ServiceEvent} {w w' : World} (hj : (contract ok sound).always h w) (hids : w'.IdsOk) (hev : ev.isLaunch = false) :
    (contract ok sound).always (ev :: h) w' :=
  ⟨hids, hsound.rest _ _ hev, hj.2⟩

theorem keeps (o : ∀ sessionId, Outline (contract ok sound) maxRunning sessionId)
    (hentering : ∀ sessionId h w, (o sessionId).entering h w) :
    Keeps (container maxRunning) (contract ok sound) := by
  apply Outline.keeps o (A := fun h _ => claimed h = [])
  · exact fun _ _ => trivial
  · exact fun _ _ a _ hj _ => hsound.skip hj (hj.1.act a) rfl
  · exact fun _ _ hj => hsound.skip hj hj.1 rfl
  · exact fun _ _ _ hj => hsound.skip hj hj.1 rfl
  · exact fun _ _ _ _ hj => hsound.skip hj hj.1 rfl
  · exact hentering
  · exact fun _ _ _ _ _ hc => hc
  · exact fun _ _ _ => rfl
  · exact fun _ hop => hsound.direct_effect hop
  · exact fun _ hop => hsound.top (by rintro e action rfl; cases hop)

end

end OfLaunches

theorem stable_top {K : ServiceContract} {maxRunning : Nat} :
    (container maxRunning).Stable K fun _ _ => True :=
  fun _ _ _ _ _ _ => trivial

def sampleWorld : World where
  commands := []
  executions := []
  approvals := []
  external :=
    { sessions := [{ id := 1, workspaceId := 2, executor := none, agentWorkingDir := none }]
      workspaces := [{ id := 2 }]
      repositories := fun _ => [3]
      latestExecutorProfile := fun _ => none
      latestSessionInfo := fun _ => none
      resolveForLaunch := fun _ executorConfig => executorConfig
      msgStore := fun _ => true }
  now := 0
  nextId := 10

def sampleConfig (metered : Option MeteredExecution) : SessionCommandConfig where
  executorConfig := .new .claudeCode
  selectedProviderId := none
  authBindingId := none
  metered := metered

def sampleCommand (body : String) : NewSessionCommand where
  sessionId := 1
  dedupeKey := none
  intent := .continue
  body := body
  config := sampleConfig none

def askingCommand (body : String) : NewSessionCommand where
  sessionId := 1
  dedupeKey := none
  intent := .continue
  body := body
  config := sampleConfig (some { policy := .ask, accountAlias := none })

def dispatchAlone : List (Label ContainerError World.Act Entry) :=
  .begin (.dispatchPendingCommands 1) :: List.replicate 30 (.call none)

end Cdesktop
