import Cdesktop.Obstacles

namespace Cdesktop
set_option autoImplicit true
open System Container SessionCommand

inductive Phase where
  | opening | released | claimed | settled
deriving DecidableEq

/-- The phase of the running dispatch, after one more event. -/
def phaseBy (p : Phase) : ServiceEvent → Phase
  | .called (.hasRunningCodingAgentForSession _) _ _ => .opening
  | .called (.releaseUnbound s) refusal w =>
    if (w.exec (.releaseUnbound s) refusal).1.isOk then
      if p = .opening then .released else .settled
    else p
  | .called (.claimPending s) refusal w =>
    match (w.exec (.claimPending s) refusal).1 with
    | .ok (_ :: _) => .claimed
    | _ => p
  | .called (.bindExecution s e) refusal w =>
    if (w.exec (.bindExecution s e) refusal).1.isOk then .settled else p
  | _ => p

@[simp] def phase : ServiceHistory → Phase
  | [] => .opening
  | ev :: h => phaseBy (phase h) ev

/-- The phase a call finds; the first call of a dispatch opens it. -/
def phaseAt (h : ServiceHistory) : Op → Phase
  | .hasRunningCodingAgentForSession _ => .opening
  | _ => phase h

/-- The event ends the dispatch with a claimed row of the session unbound: one left by an earlier
attempt and not released yet, or one of its own batch. -/
@[simp] def strands (sessionId : Uuid) (h : ServiceHistory) : ServiceEvent → Bool
  | .called op refusal w =>
    match phaseAt h op with
    | .opening =>
      (¬ (w.exec op refusal).1.isOk ∨ stops w op) ∧ w.commands.any (isUnbound sessionId)
    | .claimed => obstructs h (.called op refusal w)
    | _ => false
  | _ => false

/-- Some event of the running dispatch stranded a row, after one more event. -/
def strandedBy (sessionId : Uuid) (h : ServiceHistory) (b : Bool) : ServiceEvent → Bool
  | .called (.hasRunningCodingAgentForSession s) refusal w =>
    strands sessionId h (.called (.hasRunningCodingAgentForSession s) refusal w)
  | ev => b || strands sessionId h ev

@[simp] def stranded (sessionId : Uuid) : ServiceHistory → Bool
  | [] => false
  | ev :: h => strandedBy sessionId h (stranded sessionId h) ev

/-- Nothing has interfered since the running dispatch made its first call. -/
def undisturbed : ServiceHistory → Bool
  | [] => true
  | .called (.hasRunningCodingAgentForSession _) _ _ :: _ => true
  | .acted .. :: _ => false
  | _ :: h => undisturbed h

def NoneStranded (sessionId : Uuid) (w : World) : Prop :=
  ∀ c ∈ w.commands, c.sessionId = sessionId → c.state = .claimed →
    ∃ p ∈ w.executions, c.executionProcessId = some p.id

instance NoneStranded.decidable (sessionId : Uuid) (w : World) :
    Decidable (NoneStranded sessionId w) :=
  inferInstanceAs (Decidable (∀ c ∈ w.commands, _ → _ → _))

def leavesNone (_ : ServiceHistory) : ServiceEvent → Prop
  | .returned (.dispatchPendingCommands sessionId) _ w => NoneStranded sessionId w
  | _ => True

instance leavesNone.decidable (h : ServiceHistory) (ev : ServiceEvent) :
    Decidable (leavesNone h ev) := by
  unfold leavesNone
  split <;> infer_instance

/-- A dispatch that strands nothing leaves nothing stranded, and only such a one unless something
else takes the rows away. -/
def exitSettled (h : ServiceHistory) : ServiceEvent → Prop
  | .returned (.dispatchPendingCommands sessionId) _ w =>
    (stranded sessionId h = false → NoneStranded sessionId w) ∧
      (undisturbed h = true → NoneStranded sessionId w → stranded sessionId h = false)
  | _ => True

def exits : ServiceContract where
  ok _ _ := True
  always h w := w.FkOk ∧ All exitSettled h
  idle _ _ := True

variable {maxRunning : Nat} {sessionId : Uuid} {e : Uuid} {cs : List SessionCommand}

def NoUnbound (sessionId : Uuid) (w : World) : Prop :=
  ∀ c ∈ w.commands, isUnbound sessionId c = false

def SomeUnbound (sessionId : Uuid) (w : World) : Prop :=
  ∃ c ∈ w.commands, isUnbound sessionId c = true

theorem NoUnbound.noneStranded {w : World} (hn : NoUnbound sessionId w) (hw : w.FkOk) :
    NoneStranded sessionId w := by
  intro c hc hs hst
  cases he : c.executionProcessId with
  | none =>
    have hyes : isUnbound sessionId c = true := decide_eq_true ⟨hs, hst, he⟩
    rw [hn c hc] at hyes
    cases hyes
  | some e =>
    obtain ⟨p, hp, rfl⟩ := hw c hc e he
    exact ⟨p, hp, rfl⟩

theorem SomeUnbound.stranded {w : World} (hu : SomeUnbound sessionId w) :
    ¬ NoneStranded sessionId w := by
  obtain ⟨c, hc, hu⟩ := hu
  obtain ⟨hs, hst, hnone⟩ := World.unbound_claimed hu
  intro hn
  obtain ⟨p, -, hp⟩ := hn c hc hs hst
  rw [hnone] at hp
  cases hp

theorem any_unbound {w : World} : w.commands.any (isUnbound sessionId) = true ↔
    SomeUnbound sessionId w := List.any_eq_true

theorem noUnbound_iff {w : World} : NoUnbound sessionId w ↔
    w.commands.any (isUnbound sessionId) = false := by
  rw [List.any_eq_false]
  exact ⟨fun h c hc => by simpa using h c hc, fun h c hc => by simpa using h c hc⟩

theorem NoUnbound.act {w : World} (hn : NoUnbound sessionId w) (a : World.Act) :
    NoUnbound sessionId (w.act a) := by
  intro c hc
  rw [Bool.eq_false_iff]
  intro hu
  have hold := hn c (World.act_claimed hc (World.unbound_claimed hu).2.1)
  rw [hu] at hold
  cases hold

theorem phase_called {op : Op} (hop : op.writesCommands = false)
    (hop' : ∀ s, op ≠ .hasRunningCodingAgentForSession s) (refusal : Option ContainerError)
    (w : World) (h : ServiceHistory) : phase (.called op refusal w :: h) = phase h := by
  cases op with
  | hasRunningCodingAgentForSession s => exact absurd rfl (hop' s)
  | releaseUnbound | claimPending | bindExecution => cases hop
  | _ => rfl

theorem phaseAt_of {op : Op} (hop : ∀ s, op ≠ .hasRunningCodingAgentForSession s)
    (h : ServiceHistory) : phaseAt h op = phase h := by
  cases op with
  | hasRunningCodingAgentForSession s => exact absurd rfl (hop s)
  | _ => rfl

theorem stranded_called {op : Op} (hop : ∀ s, op ≠ .hasRunningCodingAgentForSession s)
    (refusal : Option ContainerError) (w : World) (h : ServiceHistory) :
    stranded sessionId (.called op refusal w :: h) =
      (stranded sessionId h || strands sessionId h (.called op refusal w)) := by
  cases op with
  | hasRunningCodingAgentForSession s => exact absurd rfl (hop s)
  | _ => rfl

theorem undisturbed_called {op : Op} {refusal : Option ContainerError} {w : World}
    {h : ServiceHistory} (hop : ∀ s, op ≠ .hasRunningCodingAgentForSession s)
    (hu : undisturbed (.called op refusal w :: h) = true) : undisturbed h = true := by
  cases op with
  | hasRunningCodingAgentForSession s => exact absurd rfl (hop s)
  | _ => exact hu

theorem strands_free {h : ServiceHistory} {w : World} {op : Op} {refusal : Option ContainerError}
    (hn : NoUnbound sessionId w) (hp : phase h ≠ .claimed) :
    strands sessionId h (.called op refusal w) = false := by
  have hany := noUnbound_iff.1 hn
  cases hat : phaseAt h op with
  | opening => simp only [strands, hat, hany, Bool.false_eq_true, and_false, decide_false]
  | released => simp only [strands, hat]
  | settled => simp only [strands, hat]
  | claimed =>
    have hno : ∀ s, op ≠ .hasRunningCodingAgentForSession s := by
      rintro s rfl
      cases hat
    rw [phaseAt_of hno] at hat
    exact absurd hat hp

theorem strands_claimed {h : ServiceHistory} {w : World} {op : Op}
    {refusal : Option ContainerError} (hp : phase h = .claimed)
    (hop : ∀ s, op ≠ .hasRunningCodingAgentForSession s) :
    strands sessionId h (.called op refusal w) = obstructs h (.called op refusal w) := by
  simp only [strands, phaseAt_of hop, hp]

theorem strands_opening {h : ServiceHistory} {w : World} {op : Op}
    {refusal : Option ContainerError} (hat : phaseAt h op = .opening)
    (hend : (w.exec op refusal).1.isOk = false ∨ stops w op = true) :
    strands sessionId h (.called op refusal w) = w.commands.any (isUnbound sessionId) := by
  simp only [strands, hat]
  rw [Bool.eq_iff_iff, decide_eq_true_eq]
  refine ⟨fun hboth => hboth.2, fun hany => ⟨hend.imp_left fun hno => ?_, hany⟩⟩
  rw [hno]
  exact Bool.false_ne_true

def Opening (sessionId : Uuid) (h : ServiceHistory) (_ : World) : Prop :=
  phase h = .opening ∧ stranded sessionId h = false

structure Free (p : Phase) (sessionId : Uuid) (h : ServiceHistory) (w : World) : Prop where
  phase : phase h = p
  stranded : stranded sessionId h = false
  none : NoUnbound sessionId w

structure Holds (sessionId : Uuid) (cs : List SessionCommand) (h : ServiceHistory) (w : World) :
    Prop where
  phase : phase h = .claimed
  stranded : stranded sessionId h = false
  claimed : claimed h = cs
  some : undisturbed h = true → SomeUnbound sessionId w

structure Over (sessionId : Uuid) (h : ServiceHistory) (w : World) : Prop where
  free : stranded sessionId h = false → phase h ≠ .claimed ∧ NoUnbound sessionId w
  lost : stranded sessionId h = true → undisturbed h = true → SomeUnbound sessionId w

theorem exits_called {h : ServiceHistory} {w : World} (hj : exits.always h w) (op : Op)
    (refusal : Option ContainerError) :
    exits.always (.called op refusal w :: h) (w.exec op refusal).2 :=
  ⟨hj.1.exec op refusal, trivial, hj.2⟩

theorem stable_opening : (container maxRunning).Stable exits (Opening sessionId) :=
  fun _ _ _ _ _ ho => ⟨ho.1, by simp only [stranded, strandedBy, strands, ho.2, Bool.or_false]⟩

theorem stranded_act (a : World.Act) (w : World) (h : ServiceHistory) :
    stranded sessionId (.acted a w :: h) = stranded sessionId h := by
  simp only [stranded, strandedBy, strands, Bool.or_false]

theorem stable_free {p : Phase} : (container maxRunning).Stable exits (Free p sessionId) :=
  fun _ _ a _ _ hf => ⟨hf.phase, (stranded_act a _ _).trans hf.stranded, hf.none.act a⟩

theorem stable_holds : (container maxRunning).Stable exits (Holds sessionId cs) :=
  fun _ _ a _ _ hb => ⟨hb.phase, (stranded_act a _ _).trans hb.stranded, hb.claimed,
    fun hu => by cases hu⟩

theorem stable_over : (container maxRunning).Stable exits (Over sessionId) := by
  intro h w a _ _ ho
  refine ⟨fun hst => ?_, fun _ hu => by cases hu⟩
  rw [stranded_act] at hst
  exact ⟨(ho.free hst).1, (ho.free hst).2.act a⟩

theorem Free.isOver {p : Phase} {h : ServiceHistory} {w : World} (hf : Free p sessionId h w)
    (hp : p ≠ .claimed) : Over sessionId h w :=
  ⟨fun _ => ⟨by rw [hf.phase]; exact hp, hf.none⟩,
    fun hst => by rw [hf.stranded] at hst; cases hst⟩

theorem over_stranded {h : ServiceHistory} {w : World} (hst : stranded sessionId h = true)
    (hu : undisturbed h = true → SomeUnbound sessionId w) : Over sessionId h w :=
  ⟨fun hno => absurd hst (by rw [hno]; exact Bool.false_ne_true), fun _ => hu⟩

theorem opening_called {h : ServiceHistory} {w : World} {op : Op} {refusal : Option ContainerError}
    (hop : op.writesCommands = false)
    (ho : Opening sessionId h w ∨ ∃ s, op = .hasRunningCodingAgentForSession s) :
    ((w.exec op refusal).1.isOk = false ∨ stops w op = true →
        Over sessionId (.called op refusal w :: h) (w.exec op refusal).2) ∧
      ((w.exec op refusal).1.isOk = true → stops w op = false →
        Opening sessionId (.called op refusal w :: h) (w.exec op refusal).2) := by
  have hat : phaseAt h op = .opening := by
    rcases ho with ho | ⟨s, rfl⟩
    · cases op <;> first | rfl | exact ho.1
    · rfl
  have hphase : phase (.called op refusal w :: h) = .opening := by
    rcases ho with ho | ⟨s, rfl⟩
    · cases op with
      | hasRunningCodingAgentForSession s => rfl
      | releaseUnbound | claimPending | bindExecution => cases hop
      | _ => exact ho.1
    · rfl
  have hst : stranded sessionId (.called op refusal w :: h) =
      strands sessionId h (.called op refusal w) := by
    rcases ho with ho | ⟨s, rfl⟩
    · cases op with
      | hasRunningCodingAgentForSession s => rfl
      | _ => simp only [stranded, strandedBy, ho.2, Bool.false_or]
    · rfl
  have hcmds := World.exec_commands_eq hop refusal (w := w)
  constructor
  · intro hend
    have hends : strands sessionId h (.called op refusal w) =
        w.commands.any (isUnbound sessionId) := strands_opening hat hend
    constructor
    · intro hno
      rw [hst, hends] at hno
      refine ⟨by rw [hphase]; simp, ?_⟩
      intro c hc
      rw [hcmds] at hc
      exact noUnbound_iff.2 hno c hc
    · intro hyes _
      rw [hst, hends, any_unbound] at hyes
      obtain ⟨c, hc, hu⟩ := hyes
      exact ⟨c, hcmds ▸ hc, hu⟩
  · intro hok hgo
    refine ⟨hphase, ?_⟩
    rw [hst]
    simp only [strands, hat, hok, hgo]
    simp

theorem opening_halts {A : ServiceAssertion} {op : Op} (hop : op.writesCommands = false)
    (ho : ∀ h w, A h w → Opening sessionId h w ∨ ∃ s, op = .hasRunningCodingAgentForSession s) :
    Halts exits A op (Opening sessionId) (Over sessionId) (Over sessionId) := by
  intro h w refusal ha hj _
  refine ⟨exits_called hj op refusal, ?_⟩
  obtain ⟨hend, hgoes⟩ := @opening_called sessionId h w op refusal hop (ho h w ha)
  split
  · rename_i hfail
    exact hend (.inl hfail)
  · rename_i hpass
    split
    · rename_i hstop
      exact hend (.inr hstop)
    · rename_i hgo
      exact hgoes (by simpa using hpass) (Bool.eq_false_iff.2 hgo)

theorem claimPending_nil {t : Commands} (hnil : (claimPending t sessionId).2 = [])
    (hn : ∀ c ∈ t, isUnbound sessionId c = false) :
    ∀ c ∈ (claimPending t sessionId).1, isUnbound sessionId c = false := by
  simp only [claimPending] at hnil ⊢
  split at hnil
  · rename_i hany
    rw [if_pos hany]
    exact hn
  · rename_i hany
    rw [if_neg hany]
    split at hnil
    · exact hn
    · intro c hc
      have hno := List.filter_eq_nil_iff.1 hnil c hc
      simpa using hno

theorem holds_clears {op : Op} (hop : op.writesCommands = false)
    (hop' : ∀ s, op ≠ .hasRunningCodingAgentForSession s) :
    Clears exits (Holds sessionId cs) op (Holds sessionId cs) (Over sessionId) := by
  intro h w refusal hb hj _
  refine ⟨exits_called hj op refusal, ?_⟩
  have hst : stranded sessionId (.called op refusal w :: h) =
      obstructs h (.called op refusal w) := by
    rw [stranded_called hop', hb.stranded, Bool.false_or, strands_claimed hb.phase hop']
  have hsome (hu : undisturbed (.called op refusal w :: h) = true) :
      SomeUnbound sessionId (w.exec op refusal).2 := by
    obtain ⟨c, hc, hu⟩ := hb.some (undisturbed_called hop' hu)
    refine ⟨c, ?_, hu⟩
    rw [World.exec_commands_eq hop]
    exact hc
  split
  · rename_i ho
    exact over_stranded (hst.trans ho) hsome
  · rename_i ho
    refine ⟨(phase_called hop hop' refusal w h).trans hb.phase,
      hst.trans (Bool.eq_false_iff.2 ho), ?_, hsome⟩
    rw [claimed_called, hb.claimed]
    rintro s rfl
    cases hop

theorem not_running {op : Op} (hop : op.reads = true ∨ op.settles = true) (s : Uuid) :
    op ≠ .hasRunningCodingAgentForSession s := by
  rintro rfl
  rcases hop with hop | hop <;> cases hop

theorem holds_reads {op : Op} (hop : op.reads = true) :
    Clears exits (Holds sessionId cs) op (Holds sessionId cs) (Over sessionId) :=
  holds_clears (Op.reads_writes hop).1 (not_running (.inl hop))

theorem noUnbound_release (w : World) :
    NoUnbound sessionId (w.perform (.releaseUnbound sessionId)).2 := by
  intro c hc
  rcases Table.mem_update.1 hc with ⟨c₀, -, -, rfl⟩ | ⟨-, hno⟩
  · simp [isUnbound]
  · exact hno

theorem noUnbound_bind {w : World} {t : Commands} {n : Nat}
    (hbind : bindExecution w.executions w.commands sessionId e = some (t, n)) :
    NoUnbound sessionId { w with commands := t } := by
  simp only [bindExecution] at hbind
  split at hbind
  · cases hbind
  obtain ⟨rfl, -⟩ := Prod.mk.injEq .. ▸ Option.some.inj hbind
  intro c hc
  rcases Table.mem_update.1 hc with ⟨c₀, -, -, rfl⟩ | ⟨-, hno⟩
  · simp [isUnbound]
  · exact hno

theorem opening_release :
    (container maxRunning).Effect exits (Opening sessionId) (.releaseUnbound sessionId)
      (fun _ => Free .released sessionId) (fun _ => Over sessionId) := by
  refine effect_intro (fun hj _ => exits_called hj _) ?_ ?_
  · intro h w error ho _ hrefused _
    have hx : w.exec (.releaseUnbound sessionId) (some error) = (.error error, w) := by
      rw [World.exec_some, if_pos hrefused]
    have hst : stranded sessionId (.called (.releaseUnbound sessionId) (some error) w :: h) =
        w.commands.any (isUnbound sessionId) := by
      rw [stranded_called (by simp), ho.2, Bool.false_or]
      exact strands_opening ho.1 (.inl (by rw [hx]; rfl))
    constructor
    · intro hno
      refine ⟨?_, noUnbound_iff.2 (hst.symm.trans hno)⟩
      simp only [phase, phaseBy, hx, Except.isOk, Except.toBool, ho.1]
      simp
    · intro hyes _
      exact any_unbound.1 (hst.symm.trans hyes)
  · intro h w refusal ho _ _ hx
    refine ⟨?_, ?_, noUnbound_release w⟩
    · simp only [phase, phaseBy, hx, ho.1]
      rfl
    · rw [stranded_called (by simp), ho.2, Bool.false_or]
      simp only [strands, phaseAt, ho.1, hx, World.perform, stops, Except.isOk, Except.toBool]
      simp

theorem holds_putBack :
    (container maxRunning).Effect exits (Holds sessionId cs) (.releaseUnbound sessionId)
      (fun _ => Over sessionId) (fun _ => Over sessionId) := by
  refine effect_intro (fun hj _ => exits_called hj _) ?_ ?_
  · intro h w error hb _ hrefused _
    have hx : w.exec (.releaseUnbound sessionId) (some error) = (.error error, w) := by
      rw [World.exec_some, if_pos hrefused]
    apply over_stranded
    · rw [stranded_called (by simp), strands_claimed hb.phase (by simp),
        obstructs_error (congrArg Prod.fst hx), Bool.or_true]
    · exact fun hu => hb.some (undisturbed_called (by simp) hu)
  · intro h w refusal hb _ _ hx
    have hf : Free .settled sessionId (.called (.releaseUnbound sessionId) refusal w :: h)
        (w.perform (.releaseUnbound sessionId)).2 := by
      refine ⟨?_, ?_, noUnbound_release w⟩
      · simp only [phase, phaseBy, hx, hb.phase]
        rfl
      · rw [stranded_called (by simp), hb.stranded, Bool.false_or,
          strands_claimed hb.phase (by simp)]
        exact not_obstructs (congrArg Prod.fst hx) rfl
    exact hf.isOver (by simp)

theorem holds_bind :
    (container maxRunning).Effect exits (Holds sessionId cs) (.bindExecution sessionId e)
      (fun n => if n = 0 then Over sessionId else Free .settled sessionId)
      (fun _ => Over sessionId) := by
  have herror {h : ServiceHistory} {w : World} {refusal : Option ContainerError}
      {error : ContainerError} (hb : Holds sessionId cs h w)
      (hx : w.exec (.bindExecution sessionId e) refusal = (.error error, w)) :
      Over sessionId (.called (.bindExecution sessionId e) refusal w :: h) w := by
    apply over_stranded
    · rw [stranded_called (by simp), strands_claimed hb.phase (by simp),
        obstructs_error (congrArg Prod.fst hx), Bool.or_true]
    · exact fun hu => hb.some (undisturbed_called (by simp) hu)
  refine effect_intro (fun hj _ => exits_called hj _) ?_ ?_
  · intro h w error hb _ hrefused _
    exact herror hb (by rw [World.exec_some, if_pos hrefused])
  · intro h w refusal hb _ _ hx
    cases hbind : bindExecution w.executions w.commands sessionId e with
    | none =>
      have hp : w.perform (.bindExecution sessionId e) = (.error .sqlx, w) := by
        simp only [World.perform, hbind]
      rw [hp]
      exact herror hb (hx.trans hp)
    | some r =>
      obtain ⟨t, n⟩ := r
      have hp : w.perform (.bindExecution sessionId e) = (.ok n, { w with commands := t }) := by
        simp only [World.perform, hbind]
      have hf : Free .settled sessionId (.called (.bindExecution sessionId e) refusal w :: h)
          { w with commands := t } := by
        refine ⟨?_, ?_, noUnbound_bind hbind⟩
        · simp only [phase, phaseBy, hx, hp]
          rfl
        · rw [stranded_called (by simp), hb.stranded, Bool.false_or,
            strands_claimed hb.phase (by simp)]
          exact not_obstructs (congrArg Prod.fst (hx.trans hp)) rfl
      rw [hp]
      change (if n = 0 then Over sessionId else Free .settled sessionId) _ _
      split
      · exact hf.isOver (by simp)
      · exact hf

theorem Free.called {p : Phase} {h : ServiceHistory} {w : World} (hf : Free p sessionId h w)
    (hp : p ≠ .claimed) {op : Op} (hop : op.writesCommands = false)
    (hop' : ∀ s, op ≠ .hasRunningCodingAgentForSession s) (refusal : Option ContainerError) :
    Free p sessionId (.called op refusal w :: h) (w.exec op refusal).2 := by
  refine ⟨(phase_called hop hop' refusal w h).trans hf.phase, ?_, ?_⟩
  · rw [stranded_called hop', hf.stranded, Bool.false_or]
    exact strands_free hf.none (by rw [hf.phase]; exact hp)
  · intro c hc
    rw [World.exec_commands_eq hop] at hc
    exact hf.none c hc

theorem free_effect {p : Phase} (hp : p ≠ .claimed) {op : Op} (hop : op.writesCommands = false)
    (hop' : ∀ s, op ≠ .hasRunningCodingAgentForSession s) :
    (container maxRunning).Effect exits (Free p sessionId) op (fun _ => Free p sessionId)
      (fun _ => Free p sessionId) := by
  intro h w refusal hf hj _
  have hf' := hf.called hp hop hop' refusal
  refine ⟨exits_called hj op refusal, ?_⟩
  change Ends _ _ (w.exec op refusal).1 _ (w.exec op refusal).2
  cases (w.exec op refusal).1 <;> exact hf'

theorem free_claim :
    (container maxRunning).Effect exits (Free .released sessionId) (.claimPending sessionId)
      (fun cs => if cs = [] then Over sessionId else Holds sessionId cs)
      (fun _ => Over sessionId) := by
  have hst {h : ServiceHistory} {w : World} {refusal : Option ContainerError}
      (hf : Free .released sessionId h w) :
      stranded sessionId (.called (.claimPending sessionId) refusal w :: h) = false := by
    rw [stranded_called (by simp), hf.stranded, Bool.false_or]
    exact strands_free hf.none (by rw [hf.phase]; simp)
  refine effect_intro (fun hj _ => exits_called hj _) ?_ ?_
  · intro h w error hf _ hrefused _
    have hx : w.exec (.claimPending sessionId) (some error) = (.error error, w) := by
      rw [World.exec_some, if_pos hrefused]
    have hf' : Free .released sessionId (.called (.claimPending sessionId) (some error) w :: h) w := by
      refine ⟨?_, hst hf, hf.none⟩
      simp only [phase, phaseBy, hx, hf.phase]
    exact hf'.isOver (by simp)
  · intro h w refusal hf _ _ hx
    change (if (claimPending w.commands sessionId).2 = [] then Over sessionId
      else Holds sessionId (claimPending w.commands sessionId).2) _ _
    have hanswer : (w.exec (.claimPending sessionId) refusal).1 =
        .ok (claimPending w.commands sessionId).2 := by
      rw [hx]
      rfl
    split
    · rename_i hnil
      have hf' : Free .released sessionId (.called (.claimPending sessionId) refusal w :: h)
          (w.perform (.claimPending sessionId)).2 := by
        refine ⟨?_, hst hf, ?_⟩
        · simp only [phase, phaseBy, hanswer, hnil, hf.phase]
        · intro c hc
          exact claimPending_nil hnil hf.none c hc
      exact hf'.isOver (by simp)
    · rename_i hne
      obtain ⟨c, rest, hcs⟩ := List.exists_cons_of_ne_nil hne
      refine ⟨?_, hst hf, ?_, fun _ => ?_⟩
      · simp only [phase, phaseBy, hanswer, hcs]
      · simp only [Cdesktop.claimed, claimedBy, hanswer]
      · have hc : c ∈ (claimPending w.commands sessionId).2 := by
          rw [hcs]
          exact List.mem_cons_self
        rw [(claimPending_unbound w.commands sessionId).resolve_left hne] at hc
        exact ⟨c, List.mem_filter.1 hc⟩

theorem settles_unbound {w : World} {op : Op} (hop : op.reads = true ∨ op.settles = true)
    (refusal : Option ContainerError) :
    (NoUnbound sessionId w → NoUnbound sessionId (w.exec op refusal).2) ∧
      (SomeUnbound sessionId w → SomeUnbound sessionId (w.exec op refusal).2) := by
  cases hw : op.writesCommands with
  | false =>
    simp only [NoUnbound, SomeUnbound, World.exec_commands_eq hw]
    exact ⟨fun h => h, fun h => h⟩
  | true =>
    have hsettles : op.settles = true := by
      refine hop.resolve_left fun hreads => ?_
      rw [(Op.reads_writes hreads).1] at hw
      cases hw
    rcases w.exec_cases op refusal with ⟨error, -, -, hx⟩ | hx
    · rw [hx]
      exact ⟨fun h => h, fun h => h⟩
    · rw [hx]
      cases op with
      | finishExecution e succeeded =>
        constructor
        · intro hn c hc
          rcases Table.mem_update.1 hc with ⟨c₀, -, -, rfl⟩ | ⟨hc, -⟩
          · cases succeeded <;> simp [isUnbound, finish]
          · exact hn c hc
        · rintro ⟨c, hc, hu⟩
          refine ⟨c, Table.mem_update_of_false hc ?_, hu⟩
          simp [isBoundTo, (World.unbound_claimed hu).2.2]
      | updateCompletion | completeRunningAttempt => cases hw
      | _ => cases hsettles

theorem phase_settles {op : Op} (hop : op.reads = true ∨ op.settles = true)
    (refusal : Option ContainerError) (w : World) (h : ServiceHistory) :
    phase (.called op refusal w :: h) = phase h := by
  cases op <;> first | rfl | (rcases hop with hop | hop <;> cases hop)

theorem over_effect {op : Op} (hop : op.reads = true ∨ op.settles = true) :
    (container maxRunning).Effect exits (Over sessionId) op (fun _ => Over sessionId)
      (fun _ => Over sessionId) := by
  intro h w refusal ho hj _
  refine ⟨exits_called hj op refusal, ?_⟩
  have ho' : Over sessionId (.called op refusal w :: h) (w.exec op refusal).2 := by
    obtain ⟨hnone, hsome⟩ := settles_unbound (w := w) hop refusal
    have hst : stranded sessionId (.called op refusal w :: h) = stranded sessionId h := by
      rw [stranded_called (not_running hop)]
      cases hs : stranded sessionId h with
      | true => rfl
      | false =>
        obtain ⟨hp, hn⟩ := ho.free hs
        exact strands_free hn hp
    constructor
    · intro hno
      obtain ⟨hp, hn⟩ := ho.free (hst.symm.trans hno)
      exact ⟨by rw [phase_settles hop]; exact hp, hnone hn⟩
    · intro hyes hu
      exact hsome (ho.lost (hst.symm.trans hyes) (undisturbed_called (not_running hop) hu))
  change Ends _ _ (w.exec op refusal).1 _ (w.exec op refusal).2
  cases (w.exec op refusal).1 <;> exact ho'

def exitsOutline (maxRunning : Nat) (sessionId : Uuid) : Outline exits maxRunning sessionId where
  entering _ _ := True
  opening := Opening sessionId
  released := Free .released sessionId
  drawn _ := Free .released sessionId
  claimed _ := Holds sessionId
  authorized _ := Holds sessionId
  held _ := Holds sessionId
  ready _ := Holds sessionId
  admitted _ := Holds sessionId
  full _ := Holds sessionId
  created _ := Holds sessionId
  emptied _ := Over sessionId
  bound _ _ := Free .settled sessionId
  lost _ := Over sessionId
  isOver := Over sessionId
  failed := Over sessionId
  stable_entering _ _ _ _ _ _ := trivial
  stable_opening := stable_opening
  stable_released := stable_free
  stable_drawn _ := stable_free
  stable_held _ _ := stable_holds
  stable_ready _ _ := stable_holds
  stable_full _ _ := stable_holds
  stable_created _ _ := stable_holds
  stable_emptied _ := stable_over
  stable_bound _ _ := stable_free
  stable_lost _ := stable_over
  stable_over := stable_over
  running := (opening_halts rfl fun _ _ _ => .inr ⟨sessionId, rfl⟩).effect (b := fun v => v)
    fun _ _ hv => Except.ok.inj hv
  headGate := headGate_halts stable_opening sessionId (opening_halts rfl fun _ _ ho => .inl ho)
    fun op hop => opening_halts (by cases op <;> first | rfl | cases hop) fun _ _ ho => .inl ho
  release := opening_release
  draw := (free_effect (by simp) rfl (by simp)).mono (fun _ _ _ h => h)
    fun _ _ _ h => h.isOver (by simp)
  claim _ := free_claim
  gate _ first rest := (gate_keeps stable_holds first fun op hop =>
    (holds_clears (by cases op <;> first | rfl | cases hop) (by rintro s rfl; cases hop)).effect
      fun _ _ => by cases op <;> first | rfl | cases hop).consequence (fun _ _ h => h)
        (fun _ _ _ h => by rw [ite_self]; exact h) fun _ _ _ h => h
  record e first rest := (recordLaunch_keeps stable_holds first e fun op hop =>
    (holds_clears (by cases op <;> first | rfl | cases hop) (by rintro s rfl; cases hop)).effect
      fun _ _ => by cases op <;> first | rfl | cases hop).consequence (fun _ _ h => h)
        (fun _ _ _ h => by rw [ite_self]; exact h) fun _ _ _ h => h
  putBack _ _ := holds_putBack
  prepare _ first rest := prepareLaunch_clears stable_holds sessionId first rest _
    (fun _ _ hb => hb.claimed) fun _ hop _ => holds_reads hop
  admission _ _ := ((holds_reads rfl).effect fun _ _ => rfl).mono
    (fun _ _ _ h => by rw [ite_self]; exact h) fun _ _ _ h => h
  putBackFull _ _ := holds_putBack
  create e cs workspace session _ := createExecution_clears stable_holds stable_holds workspace
    session .codingAgent e (fun _ => holds_reads) (holds_clears rfl (by simp)) fun _ => holds_reads
  bind _ _ := holds_bind
  fail _ := over_effect (.inr rfl)
  bound_reads _ _ _ hop _ := free_effect (by simp) (Op.reads_writes hop).1 (not_running (.inl hop))
  bound_lost _ _ _ _ h := h.isOver (by simp)
  spawn e _ action _ _ := spawnChild_keeps stable_free stable_over e action
    ((free_effect (by simp) rfl (by simp)).mono (fun _ _ _ h => h.isOver (by simp))
      fun _ _ _ h => h.isOver (by simp)) fun _ hop => over_effect (.inr hop)
  over_reads _ hop _ := over_effect (.inl hop)
  over_lost _ _ _ h := h
  lose _ := over_effect (.inr rfl)

theorem exits_skip {h : ServiceHistory} {w : World} (hj : exits.always h w) {ev : ServiceEvent}
    (hev : exitSettled h ev) : exits.always (ev :: h) w :=
  ⟨hj.1, hev, hj.2⟩

theorem exits_top (op : Op) :
    (container maxRunning).Effect exits (fun _ _ => True) op (fun _ _ _ => True)
      (fun _ _ _ => True) :=
  effect_ok (fun hj _ => exits_called hj op)
    fun _ _ _ _ _ _ _ _ _ => trivial

def exitsEnd : Entry → Except ContainerError (Option ExecutionProcess) → ServiceAssertion
  | .dispatchPendingCommands sessionId => fun _ => Over sessionId
  | _ => fun _ _ _ => True

theorem exits_keeps (maxRunning : Nat) : Keeps (container maxRunning) exits := by
  refine Keeps.of_triples (C := fun _ _ _ => True) (D := exitsEnd)
    (fun _ _ a _ hj _ => ⟨hj.1.act a, trivial, hj.2⟩)
    (fun _ _ _ _ _ _ => trivial) (fun _ _ _ hj => ⟨exits_skip hj trivial, trivial⟩)
    (fun _ _ _ _ hj _ => ⟨exits_skip hj trivial, trivial⟩) (fun entry => ?_) ?_
  · cases entry with
    | dispatchPendingCommands sessionId =>
      exact (exitsOutline maxRunning sessionId).dispatchPendingCommands
    | startExecution workspace session action runReason =>
      exact .bind (Triple.of_calls (startExecution_calls maxRunning workspace session action
        runReason) (fun _ _ _ _ _ _ => trivial) fun op _ => exits_top op) fun _ =>
          .pure fun _ _ _ => trivial
    | startup =>
      exact .bind (B := fun _ _ _ => True) (Outline.startup (exitsOutline maxRunning)
        (fun _ _ _ _ _ _ => trivial) (fun _ _ _ _ _ _ => trivial) (fun op _ => exits_top op)
        (fun op _ => exits_top op) (fun _ _ _ => trivial) (fun _ _ _ _ => trivial)
        (fun _ _ _ _ => trivial) fun _ _ _ _ => trivial) fun _ => .pure fun _ _ _ => trivial
  · intro entry r h w hd hj _
    refine ⟨exits_skip hj ?_, trivial⟩
    cases entry with
    | dispatchPendingCommands sessionId =>
      refine ⟨fun hst => (hd.free hst).2.noneStranded hj.1, fun hu hn => ?_⟩
      rw [Bool.eq_false_iff]
      exact fun hst => (hd.lost hst hu).stranded hn
    | _ => trivial

/-- A dispatch that strands nothing leaves every claimed row of its session bound to an execution
that exists, whatever interferes; and left alone, only such a dispatch does. -/
theorem exits_settled (maxRunning : Nat) (w : World) (hw : w.FkOk)
    (labels : List (Label ContainerError World.Act Entry)) :
    All exitSettled ((container maxRunning).run (System.start w) labels).history := by
  have hall := All.of_forall (P := exits.ok) fun _ _ => trivial
  have hstart : Kept (container maxRunning) exits (System.start w) := ⟨⟨hw, trivial⟩, trivial⟩
  exact ((exits_keeps maxRunning).run hstart labels (hall _)).1.2

def bareWorld : World :=
  { sampleWorld with external := { sampleWorld.external with repositories := fun _ => [] } }

def queuedRun : List (Label ContainerError World.Act Entry) :=
  .act (.enqueue (sampleCommand "prompt")) :: dispatchAlone

theorem repositories_missing_strand :
    ¬ All leavesNone ((container 4).run (System.start bareWorld) queuedRun).history := by
  decide +kernel

theorem exits_settled_sample :
    All exitSettled ((container 4).run (System.start sampleWorld) queuedRun).history :=
  exits_settled 4 sampleWorld (by intro c hc; cases hc) queuedRun

end Cdesktop
