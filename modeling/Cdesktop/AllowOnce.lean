import Cdesktop.ApprovalLedger

namespace Cdesktop
set_option autoImplicit true
open System Container SessionCommand MeteredApproval

/-- The execution launched for a batch that the command heads and must ask for. -/
def headLaunch (command : Uuid) (h : ServiceHistory) : ServiceEvent → Option Uuid
  | .called (.startExecutionInner e _) _ _ =>
    if (claimed h).head?.any fun first => first.id = command ∧ first.config.asks then some e
    else none
  | _ => none

def launches (command : Uuid) : ServiceHistory → List Uuid
  | [] => []
  | ev :: h => (headLaunch command h ev).toList ++ launches command h

def Spent (w : World) (command e : Uuid) : Prop :=
  ∃ a ∈ w.approvals, a.sessionCommandId = command ∧ a.state = .approved ∧
    a.executionProcessId = some e

def Granted (w : World) (command : Uuid) : Prop :=
  ∃ a ∈ w.approvals, consumable command a = true

def NoneOpen (w : World) (command : Uuid) : Prop :=
  ∀ a ∈ w.approvals, a.sessionCommandId = command → a.isOpen = false

def OpenOk (w : World) : Prop :=
  ∀ a ∈ w.approvals, a.isOpen = true →
    findLatestForCommand w.approvals a.sessionCommandId = some a ∧
      ∃ c ∈ w.commands, c.id = a.sessionCommandId ∧ c.config.asks = true

structure LaunchesOk (h : ServiceHistory) (w : World) : Prop where
  nodup : ∀ command, (launches command h).Nodup
  spent : ∀ command, ∀ e ∈ launches command h, e < w.nextId ∧ Spent w command e

theorem isOpen_iff {a : MeteredApproval} : a.isOpen = true ↔
    a.state = .pending ∨ (a.state = .approved ∧ a.executionProcessId = none) := by
  simp [isOpen]

theorem act_approvals (w : World) (a : World.Act) : (w.act a).approvals = w.approvals ∨
    ∃ id granted reason, a = .respond id granted reason ∧ (w.act a).approvals =
      Table.update (respondable id) (resolve granted reason w.now) w.approvals := by
  cases a with
  | respond id granted reason => exact .inr ⟨id, granted, reason, rfl, rfl⟩
  | enqueue new =>
    refine .inl ?_
    simp only [World.act]
    split <;> rfl
  | _ => exact .inl rfl

variable {w w' : World} {command : Uuid} {op : Op} {h : ServiceHistory} {ev : ServiceEvent}

theorem mem_act_approvals (act : World.Act) {a : MeteredApproval}
    (ha : a ∈ w.approvals) (hst : a.state ≠ .pending) : a ∈ (w.act act).approvals := by
  rcases act_approvals w act with happ | ⟨id, granted, reason, rfl, happ⟩
  · rw [happ]
    exact ha
  · rw [happ]
    exact Table.mem_update_of_false ha (by simp [respondable, hst])

theorem Spent.act {e : Uuid} (hs : Spent w command e) (a : World.Act) :
    Spent (w.act a) command e := by
  obtain ⟨b, hb, hc, hst, he⟩ := hs
  exact ⟨b, mem_act_approvals a hb (by simp [hst]), hc, hst, he⟩

theorem Granted.act (hg : Granted w command) (a : World.Act) :
    Granted (w.act a) command := by
  obtain ⟨b, hb, hc⟩ := hg
  have hst := (of_decide_eq_true hc).2.1
  exact ⟨b, mem_act_approvals a hb (by simp [hst]), hc⟩

theorem NoneOpen.act (hn : NoneOpen w command) (a : World.Act) :
    NoneOpen (w.act a) command := by
  rcases act_approvals w a with happ | ⟨id, granted, reason, rfl, happ⟩
  · intro b hb
    rw [happ] at hb
    exact hn b hb
  · intro b hb hc
    rw [happ] at hb
    rcases Table.mem_update.1 hb with ⟨b₀, hb₀, hr, rfl⟩ | ⟨hb₀, -⟩
    · have hno := hn b₀ hb₀ hc
      have hst := (of_decide_eq_true hr).2
      rw [Bool.eq_false_iff, ne_eq, isOpen_iff] at hno
      exact absurd (.inl hst) hno
    · exact hn b hb₀ hc

theorem Spent.exec {e : Uuid} (hs : Spent w command e) (op : Op)
    (refusal : Option ContainerError) : Spent (w.exec op refusal).2 command e := by
  obtain ⟨b, hb, hc, hst, he⟩ := hs
  rcases w.exec_approvals op refusal with
    ⟨happ, -⟩ | ⟨c, e', rfl, hx⟩ | ⟨a, -, happ, -, -⟩
  · exact ⟨b, happ ▸ hb, hc, hst, he⟩
  · rw [hx]
    exact ⟨b, Table.mem_update_of_false hb (by simp [consumable, he]), hc, hst, he⟩
  · exact ⟨b, happ ▸ List.mem_append_left _ hb, hc, hst, he⟩

section
variable (ho : OpenOk w)
include ho

theorem OpenOk.update {p : MeteredApproval → Bool}
    {f : MeteredApproval → MeteredApproval} (happ : w'.approvals = Table.update p f w.approvals)
    (hf : ∀ a, (f a).sessionCommandId = a.sessionCommandId)
    (hopen : ∀ a, p a = true → (f a).isOpen = true → a.isOpen = true)
    (hknows : ∀ c, w.Knows c → w'.Knows c) : OpenOk w' := by
  intro a ha hopen'
  rw [happ] at ha ⊢
  rw [findLatest_update hf]
  have hcommand {b : MeteredApproval} (hb : ∃ c ∈ w.commands, c.id = b.sessionCommandId ∧
      c.config.asks = true) : ∃ c ∈ w'.commands, c.id = b.sessionCommandId ∧
        c.config.asks = true := by
    obtain ⟨c, hc, hid, hasks⟩ := hb
    obtain ⟨c', hc', hid', hconfig⟩ := hknows c ⟨c, hc, rfl, rfl⟩
    exact ⟨c', hc', hid'.trans hid, hconfig ▸ hasks⟩
  rcases Table.mem_update.1 ha with ⟨a₀, ha₀, hp, rfl⟩ | ⟨ha₀, hp⟩
  · obtain ⟨hlatest, hc⟩ := ho a₀ ha₀ (hopen a₀ hp hopen')
    rw [hf, hlatest, Option.map_some, if_pos hp]
    exact ⟨rfl, hcommand hc⟩
  · obtain ⟨hlatest, hc⟩ := ho a ha₀ hopen'
    rw [hlatest, Option.map_some, hp, if_neg Bool.false_ne_true]
    exact ⟨rfl, hcommand hc⟩

theorem OpenOk.same (happ : w'.approvals = w.approvals)
    (hknows : ∀ c, w.Knows c → w'.Knows c) : OpenOk w' := by
  apply ho.update (p := fun _ => false) (f := fun a => a)
  · rw [happ, Table.update_eq_self fun _ _ => rfl]
  · exact fun _ => rfl
  · exact fun _ _ h => h
  · exact hknows

theorem OpenOk.append {b : MeteredApproval}
    (happ : w'.approvals = w.approvals ++ [b]) (hnone : NoneOpen w b.sessionCommandId)
    (hasks : b.isOpen = true →
      ∃ c ∈ w'.commands, c.id = b.sessionCommandId ∧ c.config.asks = true)
    (hknows : ∀ c, w.Knows c → w'.Knows c) : OpenOk w' := by
  intro a ha hopen
  rw [happ] at ha ⊢
  rw [findLatest_append]
  rcases List.mem_append.1 ha with ha | ha
  · have hne : b.sessionCommandId ≠ a.sessionCommandId := by
      intro heq
      rw [hnone a ha heq.symm] at hopen
      cases hopen
    rw [if_neg hne]
    obtain ⟨hlatest, c, hc, hid, hconfig⟩ := ho a ha hopen
    obtain ⟨c', hc', hid', hconfig'⟩ := hknows c ⟨c, hc, rfl, rfl⟩
    exact ⟨hlatest, c', hc', hid'.trans hid, hconfig' ▸ hconfig⟩
  · obtain rfl := List.mem_singleton.1 ha
    rw [if_pos rfl]
    exact ⟨rfl, hasks hopen⟩

theorem OpenOk.act (a : World.Act) : OpenOk (w.act a) := by
  rcases act_approvals w a with happ | ⟨id, granted, reason, rfl, happ⟩
  · exact ho.same happ fun _ hc => hc.act a
  · apply ho.update happ (fun _ => rfl)
    · intro b hb _
      exact isOpen_iff.2 (.inl (of_decide_eq_true hb).2)
    · exact fun _ hc => hc.act _

theorem OpenOk.noneOpen (hd : decision (findLatestForCommand w.approvals command) = none) : NoneOpen w command := by
  rintro a ha rfl
  rw [Bool.eq_false_iff]
  intro hopen
  have hno := decision_none hd a (ho a ha hopen).1
  rw [hno] at hopen
  cases hopen

theorem OpenOk.noneOpen_unasked (hw : w.IdsOk) {first : SessionCommand}
    (hknows : w.Knows first) (hasks : first.config.asks = false) : NoneOpen w first.id := by
  intro a ha hid
  rw [Bool.eq_false_iff]
  intro hopen
  obtain ⟨-, c, hc, hcid, hconfig⟩ := ho a ha hopen
  obtain ⟨r, hr, hrid, hrconfig⟩ := hknows
  have heq : c = r := Table.eq_of_key hw.nodup hc hr (by rw [hcid, hid, hrid])
  rw [heq, hrconfig, hasks] at hconfig
  cases hconfig

theorem OpenOk.exec (refusal : Option ContainerError)
    (hop : ∀ a ∈ w.approvalRow op, NoneOpen w a.sessionCommandId ∧
      (a.isOpen = true → ∃ c ∈ w.commands, c.id = a.sessionCommandId ∧ c.config.asks = true)) :
    OpenOk (w.exec op refusal).2 := by
  have hknows (c : SessionCommand) (hc : w.Knows c) : (w.exec op refusal).2.Knows c :=
    hc.exec op refusal
  rcases w.exec_approvals op refusal with
    ⟨happ, -⟩ | ⟨c, e, rfl, hx⟩ | ⟨a, hrow, happ, -, -⟩
  · exact ho.same happ hknows
  · apply ho.update (p := consumable c) (f := fun a => { a with executionProcessId := some e })
    · rw [hx]
      rfl
    · exact fun _ => rfl
    · intro a hc hopen
      have hst := (of_decide_eq_true hc).2
      exact isOpen_iff.2 (.inr hst)
    · exact hknows
  · obtain ⟨hnone, hasks⟩ := hop a (by rw [hrow]; exact List.mem_singleton_self a)
    apply ho.append happ hnone ?_ hknows
    intro hopen
    obtain ⟨c, hc, hid, hconfig⟩ := hasks hopen
    obtain ⟨c', hc', hid', hconfig'⟩ := hknows c ⟨c, hc, rfl, rfl⟩
    exact ⟨c', hc', hid'.trans hid, hconfig' ▸ hconfig⟩

end

theorem launches_cons
    (hno : headLaunch command h ev = none) : launches command (ev :: h) = launches command h := by
  simp only [launches, hno, Option.toList_none, List.nil_append]

theorem LaunchesOk.other (hl : LaunchesOk h w) (hno : ∀ command, headLaunch command h ev = none)
    (hnext : w.nextId ≤ w'.nextId) (hspent : ∀ c e, Spent w c e → Spent w' c e) :
    LaunchesOk (ev :: h) w' := by
  constructor
  · intro command
    rw [launches_cons (hno command)]
    exact hl.nodup command
  · intro command e he
    rw [launches_cons (hno command)] at he
    obtain ⟨hlt, hs⟩ := hl.spent command e he
    exact ⟨hlt.trans_le hnext, hspent command e hs⟩

theorem LaunchesOk.launch (hl : LaunchesOk h w)
    {e : Uuid} {action : ExecutorAction} {refusal : Option ContainerError}
    (hfresh : ∀ command, e ∉ launches command h) (hdrawn : e < w.nextId)
    (hpaid : ∀ first ∈ (claimed h).head?, first.config.asks = true → Spent w first.id e)
    (hnext : w.nextId ≤ w'.nextId) (hspent : ∀ c e, Spent w c e → Spent w' c e) :
    LaunchesOk (.called (.startExecutionInner e action) refusal w :: h) w' := by
  constructor
  · intro command
    simp only [launches, headLaunch]
    split
    · exact List.nodup_cons.2 ⟨hfresh command, hl.nodup command⟩
    · exact hl.nodup command
  · intro command e' he'
    simp only [launches, headLaunch] at he'
    split at he'
    · rename_i hhead
      rcases List.mem_cons.1 he' with rfl | he'
      · cases hfirst : (claimed h).head? with
        | none =>
          rw [hfirst] at hhead
          cases hhead
        | some first =>
          rw [hfirst] at hhead
          simp only [Option.any_some, decide_eq_true_eq] at hhead
          obtain ⟨rfl, hasks⟩ := hhead
          exact ⟨hdrawn.trans_le hnext, hspent _ _ (hpaid first hfirst hasks)⟩
      · obtain ⟨hlt, hs⟩ := hl.spent command e' he'
        exact ⟨hlt.trans_le hnext, hspent command e' hs⟩
    · obtain ⟨hlt, hs⟩ := hl.spent command e' he'
      exact ⟨hlt.trans_le hnext, hspent command e' hs⟩

theorem LaunchesOk.length_le (hl : LaunchesOk h w) (command : Uuid) : (launches command h).length ≤
      w.approvals.countP fun a => a.sessionCommandId = command ∧ a.state = .approved := by
  have hsub : launches command h ⊆
      (w.approvals.filter fun a => a.sessionCommandId = command ∧ a.state = .approved).filterMap
        (·.executionProcessId) := by
    intro e he
    obtain ⟨-, a, ha, hc, hst, hexec⟩ := hl.spent command e he
    exact List.mem_filterMap.2 ⟨a, List.mem_filter.2 ⟨ha, by simp [hc, hst]⟩, hexec⟩
  calc (launches command h).length
      ≤ _ := (hl.nodup command).length_le_of_subset hsub
    _ ≤ _ := List.length_filterMap_le _ _
    _ = _ := List.countP_eq_length_filter.symm

def allowOnce : ServiceContract where
  ok _ _ := True
  always h w := w.IdsOk ∧ Ledger h w ∧ OpenOk w ∧ LaunchesOk h w
  idle _ _ := True

variable {maxRunning : Nat} {sessionId : Uuid} {e : Uuid} {cs : List SessionCommand}

theorem headLaunch_called {refusal : Option ContainerError}
    (hop : ∀ e action, op ≠ .startExecutionInner e action) (command : Uuid) :
    headLaunch command h (.called op refusal w) = none := by
  cases op with
  | startExecutionInner e action => exact absurd rfl (hop e action)
  | _ => rfl

theorem allowOnce_act (hj : allowOnce.always h w)
    (a : World.Act) : allowOnce.always (.acted a w :: h) (w.act a) := by
  obtain ⟨hw, hl, ho, hn⟩ := hj
  refine ⟨hw.act a, hl.act a, ho.act a, ?_⟩
  exact hn.other (fun _ => rfl) (w.act_nextId a) fun _ _ hs => hs.act a

theorem allowOnce_skip (hj : allowOnce.always h w)
    (hno : Silent ev) (hno' : ∀ command, headLaunch command h ev = none) :
    allowOnce.always (ev :: h) w := by
  obtain ⟨hw, hl, ho, hn⟩ := hj
  exact ⟨hw, hl.skip hno, ho, hn.other hno' (le_refl _) fun _ _ hs => hs⟩

theorem allowOnce_called (hj : allowOnce.always h w)
    (refusal : Option ContainerError) (hop : ∀ e action, op ≠ .startExecutionInner e action)
    (hrow : ∀ a ∈ w.approvalRow op, NoneOpen w a.sessionCommandId ∧
      (a.isOpen = true → ∃ c ∈ w.commands, c.id = a.sessionCommandId ∧ c.config.asks = true)) :
    allowOnce.always (.called op refusal w :: h) (w.exec op refusal).2 := by
  obtain ⟨hw, hl, ho, hn⟩ := hj
  refine ⟨hw.exec op refusal, hl.exec op refusal, ho.exec refusal hrow, ?_⟩
  exact hn.other (headLaunch_called hop) (w.exec_nextId op refusal) fun _ _ hs => hs.exec op refusal

def Op.opensNone (op : Op) : Prop :=
  ∀ w : World, w.approvalRow op = []

theorem Op.opensNone_of_direct (hop : op.direct = true) : op.opensNone := by
  intro w
  cases op <;> first | rfl | cases hop

theorem Op.opensNone_of_keeps (hop : op.reads = true ∨ op.settles = true) :
    op.opensNone := by
  intro w
  cases op <;> first | rfl | (rcases hop with hop | hop <;> cases hop)

theorem allowOnce_quiet (hj : allowOnce.always h w)
    (refusal : Option ContainerError) (hop : ∀ e action, op ≠ .startExecutionInner e action)
    (hnone : op.opensNone) :
    allowOnce.always (.called op refusal w :: h) (w.exec op refusal).2 := by
  apply allowOnce_called hj refusal hop
  intro a ha
  rw [hnone w] at ha
  cases ha

theorem allowOnce_top (hop : ∀ e action, op ≠ .startExecutionInner e action)
    (hnone : op.opensNone) :
    (container maxRunning).Effect allowOnce (fun _ _ => True) op (fun _ _ _ => True)
      (fun _ _ _ => True) :=
  effect_ok (fun hj _ refusal => allowOnce_quiet hj refusal hop hnone)
    fun _ _ _ _ _ _ _ _ _ => trivial

structure Drawn (e : Uuid) (h : ServiceHistory) (w : World) : Prop where
  drawn : e < w.nextId
  fresh : ∀ command, e ∉ launches command h

structure Headed (e : Uuid) (cs : List SessionCommand) (h : ServiceHistory) (w : World) : Prop
    extends Drawn e h w where
  claimed : claimed h = cs
  knows : ∀ first ∈ cs.head?, w.Knows first

structure Paid (e : Uuid) (cs : List SessionCommand) (h : ServiceHistory) (w : World) : Prop
    extends Headed e cs h w where
  paid : ∀ first ∈ cs.head?, first.config.asks = true → Spent w first.id e

theorem Drawn.act (hd : Drawn e h w) (a : World.Act) :
    Drawn e (.acted a w :: h) (w.act a) := by
  refine ⟨hd.drawn.trans_le (w.act_nextId a), fun command => ?_⟩
  rw [launches_cons rfl]
  exact hd.fresh command

theorem Drawn.called (hd : Drawn e h w)
    (refusal : Option ContainerError) (hop : ∀ e action, op ≠ .startExecutionInner e action) :
    Drawn e (.called op refusal w :: h) (w.exec op refusal).2 := by
  refine ⟨hd.drawn.trans_le (w.exec_nextId op refusal), fun command => ?_⟩
  rw [launches_cons (headLaunch_called hop command)]
  exact hd.fresh command

theorem Headed.act (hd : Headed e cs h w) (a : World.Act) :
    Headed e cs (.acted a w :: h) (w.act a) :=
  ⟨hd.toDrawn.act a, hd.claimed, fun first hf => (hd.knows first hf).act a⟩

theorem Headed.called (hd : Headed e cs h w)
    (refusal : Option ContainerError) (hop : ∀ e action, op ≠ .startExecutionInner e action)
    (hop' : ∀ s, op ≠ .claimPending s) :
    Headed e cs (.called op refusal w :: h) (w.exec op refusal).2 := by
  refine ⟨hd.toDrawn.called refusal hop, ?_, fun first hf => (hd.knows first hf).exec op refusal⟩
  rw [claimed_called hop', hd.claimed]

theorem Paid.act (hp : Paid e cs h w) (a : World.Act) :
    Paid e cs (.acted a w :: h) (w.act a) :=
  ⟨hp.toHeaded.act a, fun first hf hasks => (hp.paid first hf hasks).act a⟩

theorem Paid.called (hp : Paid e cs h w)
    (refusal : Option ContainerError) (hop : ∀ e action, op ≠ .startExecutionInner e action)
    (hop' : ∀ s, op ≠ .claimPending s) :
    Paid e cs (.called op refusal w :: h) (w.exec op refusal).2 :=
  ⟨hp.toHeaded.called refusal hop hop',
    fun first hf hasks => (hp.paid first hf hasks).exec op refusal⟩

theorem stable_headed : (container maxRunning).Stable allowOnce (Headed e cs) :=
  fun _ _ a _ _ hd => hd.act a

theorem stable_paid : (container maxRunning).Stable allowOnce (Paid e cs) :=
  fun _ _ a _ _ hp => hp.act a

theorem paid_effect (hop : ∀ e action, op ≠ .startExecutionInner e action)
    (hop' : ∀ s, op ≠ .claimPending s) (hnone : op.opensNone) :
    (container maxRunning).Effect allowOnce (Paid e cs) op (fun _ => Paid e cs)
      (fun _ => Paid e cs) := by
  intro h w refusal hp hj _
  have hp' : Paid e cs (.called op refusal w :: h) (w.exec op refusal).2 :=
    hp.called refusal hop hop'
  refine ⟨allowOnce_quiet hj refusal hop hnone, ?_⟩
  cases ((container maxRunning).exec op refusal w).1 <;> exact hp'

theorem paid_reads (hop : op.reads = true) :
    (container maxRunning).Effect allowOnce (Paid e cs) op (fun _ => Paid e cs)
      (fun _ => Paid e cs) := by
  apply paid_effect
  · rintro e action rfl
    cases hop
  · rintro s rfl
    cases hop
  · exact Op.opensNone_of_keeps (.inl hop)

/-- A gate opens a question only where none is open, and proceeds with an approval to spend. -/
theorem gate_grants {A : ServiceAssertion} (hA : (container maxRunning).Stable allowOnce A)
    {first : SessionCommand} (hknows : ∀ h w, A h w → w.Knows first)
    (hcall : ∀ h w refusal, A h w →
      A (.called (.findLatestForCommand first.id) refusal w :: h) w) :
    (container maxRunning).Triple allowOnce A (gate first)
      (fun d h w => d = .proceed → A h w ∧ (first.config.asks = true → Granted w first.id))
      (fun _ _ _ => True) := by
  simp only [Container.gate]
  split
  · rename_i hm
    exact .pure fun h w ha _ => ⟨ha, fun hasks => by simp [SessionCommandConfig.asks, hm] at hasks⟩
  · rename_i metered hm
    split
    · rename_i hp
      exact .pure fun h w ha _ =>
        ⟨ha, fun hasks => by simp [SessionCommandConfig.asks, hm, hp] at hasks⟩
    · rename_i hp
      have hasks : first.config.asks = true := by simp [SessionCommandConfig.asks, hm, hp]
      refine .perform_bind
        (D := fun latest h w => A h w ∧ (decision latest = some .proceed → Granted w first.id) ∧
          (decision latest = none → NoneOpen w first.id)) hA ?_ fun latest => ?_
      · refine effect_ok (fun hj _ refusal => allowOnce_quiet hj refusal (by simp) fun _ => rfl)
          fun h w refusal latest ha hj _ _ hv => ?_
        have hlatest : findLatestForCommand w.approvals first.id = latest := Except.ok.inj hv
        refine ⟨hcall h w refusal ha, fun hd => ?_, fun hd => ?_⟩
        · obtain ⟨a, rfl, hst, hnone⟩ := decision_proceed hd
          obtain ⟨hmem, hc⟩ := findLatest_mem hlatest
          exact ⟨a, hmem, decide_eq_true ⟨hc, hst, hnone⟩⟩
        · rw [← hlatest] at hd
          exact hj.2.2.1.noneOpen hd
      · cases hd : decision latest with
        | none =>
          have hstable : (container maxRunning).Stable allowOnce fun h w =>
              A h w ∧ NoneOpen w first.id :=
            fun h w a hok hj hb => ⟨hA h w a hok hj hb.1, hb.2.act a⟩
          have hopen : (container maxRunning).Triple allowOnce
              (fun h w => A h w ∧ NoneOpen w first.id)
              ((call (.ensurePending first.id metered.accountAlias)).bind fun _ =>
                .pure MeteredGateDecision.awaitApproval)
              (fun d h w => d = .proceed → A h w ∧ (first.config.asks = true → Granted w first.id))
              (fun _ _ _ => True) := by
            refine .perform_bind (D := fun _ _ _ => True) hstable ?_ fun _ => .pure fun _ _ _ => by simp
            refine effect_ok (fun {h w} hj hb refusal => ?_) fun _ _ _ _ _ _ _ _ _ => trivial
            apply allowOnce_called hj refusal (by simp)
            intro a ha
            have hc : a.sessionCommandId = first.id := by
              simp only [World.approvalRow] at ha
              split at ha
              · cases ha
              · rw [List.mem_singleton.1 ha]
            rw [hc]
            obtain ⟨r, hr, hid, hconfig⟩ := hknows h w hb.1
            exact ⟨hb.2, fun _ => ⟨r, hr, hid, hconfig ▸ hasks⟩⟩
          exact hopen.pre fun h w hb => ⟨hb.1, hb.2.2 rfl⟩
        | some d =>
          refine .pure fun h w hb hp => ?_
          obtain ⟨ha, hg, -⟩ := hb
          subst hp
          exact ⟨ha, fun _ => hg rfl⟩
    · rename_i hp
      have hasks : first.config.asks = false := by simp [SessionCommandConfig.asks, hm, hp]
      refine .perform_bind (D := fun _ _ _ => True) hA ?_ fun _ => .pure fun _ _ _ => by simp
      refine effect_ok (fun {h w} hj ha refusal => ?_) fun _ _ _ _ _ _ _ _ _ => trivial
      apply allowOnce_called hj refusal (by simp)
      intro a harow
      simp only [World.approvalRow] at harow
      split at harow
      · cases harow
      · rw [List.mem_singleton.1 harow]
        refine ⟨hj.2.2.1.noneOpen_unasked hj.1 (hknows h w ha) hasks, ?_⟩
        simp [isOpen]

theorem record_pays (first : SessionCommand) (rest : List SessionCommand) :
    (container maxRunning).Triple allowOnce
      (fun h w => Headed e (first :: rest) h w ∧
        (first.config.asks = true → Granted w first.id))
      (recordLaunch first e)
      (fun b => if b = true then Paid e (first :: rest) else fun _ _ => True)
      (fun _ _ _ => True) := by
  have hstable : (container maxRunning).Stable allowOnce fun h w =>
      Headed e (first :: rest) h w ∧ (first.config.asks = true → Granted w first.id) :=
    fun _ _ a _ _ hb => ⟨hb.1.act a, fun hasks => (hb.2 hasks).act a⟩
  have hunasked {h : ServiceHistory} {w : World} (hd : Headed e (first :: rest) h w)
      (hasks : first.config.asks = false) : Paid e (first :: rest) h w := by
    refine ⟨hd, fun c hc hyes => ?_⟩
    obtain rfl : first = c := Option.some.inj hc
    rw [hasks] at hyes
    cases hyes
  simp only [Container.recordLaunch]
  split
  · rename_i hm
    exact .pure fun h w hb => hunasked hb.1 (by simp [SessionCommandConfig.asks, hm])
  · rename_i metered hm
    split
    · rename_i hp
      have hasks : first.config.asks = true := by simp [SessionCommandConfig.asks, hm, hp]
      refine .perform_bind (D := fun _ => Paid e (first :: rest)) hstable ?_
        fun _ => .pure fun _ _ h => h
      refine effect_ok (fun hj _ refusal => allowOnce_quiet hj refusal (by simp) fun _ => rfl)
        fun h w refusal v hb _ _ hx _ => ?_
      have hd : Headed e (first :: rest) (.called (.consumeApproval first.id e) refusal w :: h)
          (w.perform (.consumeApproval first.id e)).2 :=
        hx ▸ hb.1.called refusal (by simp) (by simp)
      refine ⟨hd, fun c hc _ => ?_⟩
      obtain rfl : first = c := Option.some.inj hc
      obtain ⟨a, ha, hca⟩ := hb.2 hasks
      have hst := of_decide_eq_true hca
      exact ⟨{ a with executionProcessId := some e }, Table.mem_update_of_true ha hca, hst.1,
        hst.2.1, rfl⟩
    · rename_i hp
      have hasks : first.config.asks = false := by simp [SessionCommandConfig.asks, hm, hp]
      refine .perform_bind (D := fun _ => Paid e (first :: rest)) hstable ?_
        fun _ => .pure fun _ _ h => h
      refine effect_ok (fun {h w} hj hb refusal => ?_) fun h w refusal v hb _ _ hx _ =>
        hx ▸ hunasked (hb.1.called refusal (by simp) (by simp)) hasks
      apply allowOnce_called hj refusal (by simp)
      intro a harow
      simp only [World.approvalRow] at harow
      split at harow
      · cases harow
      · rw [List.mem_singleton.1 harow]
        refine ⟨hj.2.2.1.noneOpen_unasked hj.1 (hb.1.knows first rfl) hasks, ?_⟩
        simp [isOpen]
    · exact .pure fun _ _ _ => trivial

theorem headGate_opens : (container maxRunning).Triple allowOnce (fun _ _ => True)
    (headGate sessionId) (fun _ _ _ => True) (fun _ _ _ => True) := by
  refine .perform_bind (D := fun pending _ w => ∀ head ∈ pending.head?, w.Knows head)
    stable_top ?_ fun pending => ?_
  · refine effect_ok (fun hj _ refusal => allowOnce_quiet hj refusal (by simp) fun _ => rfl)
      fun h w refusal pending _ _ _ _ hv head hhead => ?_
    have hpending : SessionCommand.pending w.commands sessionId = pending := Except.ok.inj hv
    rw [← hpending] at hhead
    exact ⟨head, (List.mem_filter.1 (List.mem_of_mem_head? hhead)).1, rfl, rfl⟩
  · cases hhead : pending.head? with
    | none => exact .pure fun _ _ _ => trivial
    | some head =>
      have hgate : (container maxRunning).Triple allowOnce (fun _ w => w.Knows head) (gate head)
          (fun d _ w => d = .proceed →
            w.Knows head ∧ (head.config.asks = true → Granted w head.id)) (fun _ _ _ => True) :=
        gate_grants (fun _ _ a _ _ hk => hk.act a) (fun _ _ hk => hk) fun _ _ _ hk => hk
      exact hgate.consequence (fun h w hk => hk head rfl) (fun _ _ _ _ => trivial)
        fun _ _ _ _ => trivial

theorem claim_heads : (container maxRunning).Effect allowOnce (Drawn e) (.claimPending sessionId)
    (fun cs => if cs = [] then fun _ _ => True else Headed e cs) (fun _ _ _ => True) := by
  refine effect_ok (fun hj _ refusal => allowOnce_quiet hj refusal (by simp) fun _ => rfl)
    fun h w refusal v hd _ _ hx hv => ?_
  have hv : (claimPending w.commands sessionId).2 = v := Except.ok.inj hv
  by_cases hcs : v = []
  · simp only [hcs, ↓reduceIte]
  · simp only [hcs, ↓reduceIte]
    subst hv
    have hd' : Drawn e (.called (.claimPending sessionId) refusal w :: h)
        (w.perform (.claimPending sessionId)).2 :=
      hx ▸ hd.called refusal (by simp)
    refine ⟨hd', ?_, fun first hf => ?_⟩
    · simp only [Cdesktop.claimed, claimedBy, hx]
      rfl
    · have hmem := List.mem_of_mem_head? hf
      rw [(claimPending_unbound w.commands sessionId).resolve_left hcs] at hmem
      exact ⟨first, (List.mem_filter.1 hmem).1, rfl, rfl⟩

theorem paid_launch {action : ExecutorAction} :
    (container maxRunning).Effect allowOnce (Paid e cs) (.startExecutionInner e action)
      (fun _ _ _ => True) (fun _ _ _ => True) := by
  refine effect_ok (fun {h w} hj hp refusal => ?_) fun _ _ _ _ _ _ _ _ _ => trivial
  obtain ⟨hw, hl, ho, hn⟩ := hj
  refine ⟨hw.exec _ refusal, hl.exec _ refusal, ho.exec refusal ?_, ?_⟩
  · intro a ha
    cases ha
  · apply hn.launch hp.fresh hp.drawn ?_ (w.exec_nextId _ refusal)
    · exact fun _ _ hs => hs.exec _ refusal
    · rw [hp.claimed]
      exact hp.paid

def allowOnceOutline (maxRunning : Nat) (sessionId : Uuid) :
    Outline allowOnce maxRunning sessionId where
  entering _ _ := True
  opening _ _ := True
  released _ _ := True
  drawn e := Drawn e
  claimed e cs := Headed e cs
  authorized e cs h w :=
    Headed e cs h w ∧ ∀ first ∈ cs.head?, first.config.asks = true → Granted w first.id
  held _ _ _ _ := True
  ready e cs := Paid e cs
  admitted e cs := Paid e cs
  full _ _ _ _ := True
  created e cs := Paid e cs
  emptied _ _ _ := True
  bound e cs := Paid e cs
  lost _ _ _ := True
  isOver _ _ := True
  failed _ _ := True
  stable_entering := stable_top
  stable_opening := stable_top
  stable_released := stable_top
  stable_drawn _ := fun _ _ a _ _ hd => hd.act a
  stable_held _ _ := stable_top
  stable_ready _ _ := stable_paid
  stable_full _ _ := stable_top
  stable_created _ _ := stable_paid
  stable_emptied _ := stable_top
  stable_bound _ _ := stable_paid
  stable_lost _ := stable_top
  stable_over := stable_top
  running := (allowOnce_top (by simp) fun _ => rfl).mono (fun v _ _ _ => by split <;> trivial)
    fun _ _ _ h => h
  headGate := headGate_opens.consequence (fun _ _ h => h) (fun d _ _ _ => by split <;> trivial)
    fun _ _ _ h => h
  release := allowOnce_top (by simp) fun _ => rfl
  draw := by
    refine effect_ok (fun hj _ refusal => allowOnce_quiet hj refusal (by simp) fun _ => rfl)
      fun h w refusal v _ hj _ _ hv => ?_
    obtain rfl : w.nextId = v := Except.ok.inj hv
    refine ⟨Nat.lt_succ_self _, fun command he => ?_⟩
    rw [launches_cons (headLaunch_called (by simp) command)] at he
    exact (hj.2.2.2.spent command _ he).1.ne rfl
  claim _ := claim_heads
  gate e first rest := by
    have hgate : (container maxRunning).Triple allowOnce (Headed e (first :: rest)) (gate first)
        (fun d h w => d = .proceed → Headed e (first :: rest) h w ∧
          (first.config.asks = true → Granted w first.id)) (fun _ _ _ => True) :=
      gate_grants stable_headed (fun _ _ hd => hd.knows first rfl)
        fun h w refusal hd => ⟨⟨hd.drawn, fun command => by
          rw [launches_cons rfl]
          exact hd.fresh command⟩, hd.claimed, hd.knows⟩
    refine hgate.consequence (fun _ _ h => h) (fun d h w hd => ?_) fun _ _ _ h => h
    by_cases hp : d = .proceed
    · simp only [hp, ↓reduceIte]
      obtain ⟨hb, hg⟩ := hd hp
      refine ⟨hb, fun c hc hasks => ?_⟩
      obtain rfl : first = c := Option.some.inj hc
      exact hg hasks
    · simp only [hp, ↓reduceIte]
  record _ first rest := (record_pays first rest).pre fun _ _ hb => ⟨hb.1, hb.2 first rfl⟩
  putBack _ _ := allowOnce_top (by simp) fun _ => rfl
  prepare _ first rest := prepareLaunch_keeps stable_paid (fun _ _ _ => trivial)
    (fun _ hop _ => (paid_reads hop).mono (fun _ _ _ h => h) fun _ _ _ _ => trivial) sessionId
    first.config _
  admission _ _ := (paid_reads rfl).mono
    (fun v _ _ h => by split <;> first | exact h | trivial) fun _ _ _ _ => trivial
  putBackFull _ _ := allowOnce_top (by simp) fun _ => rfl
  create e cs workspace session _ := createExecution_keeps stable_paid stable_paid
    (fun _ _ _ => trivial) (fun _ _ _ => trivial)
    (fun _ hop => (paid_reads hop).mono (fun _ _ _ h => h) fun _ _ _ _ => trivial)
    (fun _ hop => (paid_reads hop).mono (fun _ _ _ h => h) fun _ _ _ _ => trivial)
    workspace session .codingAgent e
    ((paid_effect (by simp) (by simp) fun _ => rfl).mono (fun _ _ _ h => h) fun _ _ _ _ => trivial)
  bind e cs := (paid_effect (by simp) (by simp) fun _ => rfl).mono
    (fun v _ _ h => by split <;> first | exact h | trivial) fun _ _ _ _ => trivial
  fail _ := allowOnce_top (by simp) fun _ => rfl
  bound_reads _ _ _ hop _ := paid_reads hop
  bound_lost _ _ _ _ _ := trivial
  spawn e _ action _ _ := spawnChild_keeps stable_paid stable_top e action paid_launch
    fun _ hop => allowOnce_top (by rintro e action rfl; cases hop)
      (Op.opensNone_of_keeps (.inr hop))
  over_reads op hop _ := allowOnce_top (by rintro e action rfl; cases hop)
    (Op.opensNone_of_keeps (.inl hop))
  over_lost _ _ _ _ := trivial
  lose _ := allowOnce_top (by simp) fun _ => rfl

theorem allowOnce_direct (hop : op.direct = true) :
    (container maxRunning).Effect allowOnce (fun h _ => claimed h = []) op
      (fun _ h _ => claimed h = []) (fun _ h _ => claimed h = []) := by
  have hnone := Op.opensNone_of_direct hop
  refine effect_intro (fun {h w} hj hc refusal => ?_)
    (fun h w e hc _ _ _ => by rw [claimed_direct hop, hc]) fun h w refusal hc _ _ _ => ?_
  · obtain ⟨hw, hl, ho, hn⟩ := hj
    refine ⟨hw.exec op refusal, hl.exec op refusal, ho.exec refusal ?_, ?_⟩
    · intro a ha
      rw [hnone w] at ha
      cases ha
    · apply hn.other ?_ (w.exec_nextId op refusal) fun _ _ hs => hs.exec op refusal
      intro command
      cases op with
      | startExecutionInner => simp [headLaunch, hc]
      | _ => rfl
  · have hc' : claimed (.called op refusal w :: h) = [] := by rw [claimed_direct hop, hc]
    cases (w.perform op).1 <;> exact hc'

theorem allowOnce_keeps (maxRunning : Nat) : Keeps (container maxRunning) allowOnce :=
  Outline.keeps (allowOnceOutline maxRunning) (A := fun h _ => claimed h = [])
    (fun _ _ => trivial) (fun _ _ a _ hj _ => allowOnce_act hj a)
    (fun _ _ hj => allowOnce_skip hj (fun _ => ⟨rfl, rfl, rfl, rfl⟩) fun _ => rfl)
    (fun _ _ _ hj => allowOnce_skip hj (fun _ => ⟨rfl, rfl, rfl, rfl⟩) fun _ => rfl)
    (fun _ _ _ _ hj => allowOnce_skip hj (fun _ => ⟨rfl, rfl, rfl, rfl⟩) fun _ => rfl)
    (fun _ _ _ => trivial) (fun _ _ _ _ _ hc => hc) (fun _ _ _ => rfl)
    (fun _ hop => allowOnce_direct hop) fun _ hop =>
      allowOnce_top (by rintro e action rfl; cases hop) (Op.opensNone_of_keeps (.inl hop))

theorem OpenOk.open_le_one (ho : OpenOk w) (hn : (w.approvals.map (·.id)).Nodup) (command : Uuid) :
    (w.approvals.filter fun a => a.sessionCommandId = command ∧ a.isOpen).length ≤ 1 := by
  apply Table.length_filter_le_one (List.Nodup.of_map _ hn)
  intro a ha b hb hpa hpb
  obtain ⟨hca, hoa⟩ := of_decide_eq_true hpa
  obtain ⟨hcb, hob⟩ := of_decide_eq_true hpb
  have hlatest := (ho a ha hoa).1
  rw [hca, ← hcb, (ho b hb hob).1] at hlatest
  exact (Option.some.inj hlatest).symm

/-- What allow-once promises of a run that reached this state. -/
structure AllowedOnce (h : ServiceHistory) (w : World) : Prop where
  launched : ∀ command, (launches command h).length ≤ h.countP (approves command)
  consumed : ∀ a ∈ w.approvals, h.countP (consumes a.id) ≤ 1
  openOne : ∀ command,
    (w.approvals.filter fun a => a.sessionCommandId = command ∧ a.isOpen).length ≤ 1
  winner : ∀ a ∈ w.approvals, a.policy = .ask →
    h.countP (wins a.id) = if h.countP (responds a.id) = 0 then 0 else 1

/-- However requests, responses, dispatches, crashes and restarts interleave, a question is answered
once, its approval spent once, and its command launched no more often than it was approved. -/
theorem allowed_once (maxRunning : Nat) (w : World) (hw : w.IdsOk) (hempty : w.approvals = [])
    (labels : List (Label ContainerError World.Act Entry)) :
    AllowedOnce ((container maxRunning).run (System.start w) labels).history
      ((container maxRunning).run (System.start w) labels).state := by
  have hledger : Ledger [] w := by
    refine ⟨by simp [hempty], by simp [hempty], fun _ _ => ⟨rfl, rfl, rfl⟩, by simp [hempty], ?_⟩
    simp [hempty]
  have hopen : OpenOk w := by
    intro a ha
    rw [hempty] at ha
    cases ha
  have hstart : Kept (container maxRunning) allowOnce (System.start w) :=
    ⟨⟨hw, hledger, hopen, ⟨fun _ => List.nodup_nil, fun _ _ he => by cases he⟩⟩, trivial⟩
  have hall := All.of_forall (P := allowOnce.ok) fun _ _ => trivial
  obtain ⟨-, hl, ho, hn⟩ := ((allowOnce_keeps maxRunning).run hstart labels (hall _)).1
  refine ⟨fun command => (hn.length_le command).trans (hl.approved command), ?_,
    ho.open_le_one hl.nodup, ?_⟩
  · intro a ha
    rw [(hl.rows a ha).consumed]
    split <;> simp
  · intro a ha hask
    by_cases hst : a.state = .pending
    · obtain ⟨hr, hwin, -⟩ := (hl.rows a ha).waiting hask hst
      rw [hr, hwin, if_pos rfl]
    · obtain ⟨hr, hwin⟩ := (hl.rows a ha).decided hask hst
      rw [hwin, if_neg hr.ne']

def askedRun : List (Label ContainerError World.Act Entry) :=
  [.act (.enqueue (askingCommand "metered"))] ++ dispatchAlone ++
    [.act (.respond 11 true none), .act (.respond 11 false none)] ++ dispatchAlone ++
    [.crash, .begin .startup] ++ List.replicate 40 (.call none)

theorem allowed_once_sample :
    AllowedOnce ((container 4).run (System.start sampleWorld) askedRun).history
      ((container 4).run (System.start sampleWorld) askedRun).state :=
  allowed_once 4 sampleWorld ⟨by decide, by decide⟩ rfl askedRun

end Cdesktop
