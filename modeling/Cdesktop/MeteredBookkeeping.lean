import Cdesktop.ApprovalLedger
import Cdesktop.Obstacles

namespace Cdesktop
set_option autoImplicit true
open System Container SessionCommand MeteredApproval

/-- The execution the running program stamped on an approval before its row exists, after one more
event. -/
@[simp] def stampedBy (stamp : Option Uuid) : ServiceEvent → Option Uuid
  | .began .. => none
  | .crashed _ => none
  | .called (.consumeApproval c e) refusal w =>
    if (w.exec (.consumeApproval c e) refusal).1.isOk ∧ w.approvals.any (consumable c) then some e
    else stamp
  | .called (.recordAutoStart c e accountAlias) refusal w =>
    if (w.exec (.recordAutoStart c e accountAlias) refusal).1.isOk ∧
        ¬ w.approvals.any (fun a => a.executionProcessId = some e) then some e
    else stamp
  | .called (.insertExecution e s runReason) refusal w =>
    if (w.exec (.insertExecution e s runReason) refusal).1.isOk then none else stamp
  | _ => stamp

/-- The execution the running program stamped on an approval before its row exists. -/
@[simp] def stamped : ServiceHistory → Option Uuid
  | [] => none
  | ev :: h => stampedBy (stamped h) ev

/-- The event keeps a launch from its execution row: a failure, a missing answer, a full host or a
crash. -/
def interrupts (maxRunning : Nat) (h : ServiceHistory) : ServiceEvent → Bool
  | .crashed _ => true
  | .called .countRunningCodingAgents refusal w =>
    obstructs h (.called .countRunningCodingAgents refusal w) ∨
      maxRunning ≤ ExecutionProcess.countRunningCodingAgents w.executions
  | ev => obstructs h ev

/-- Nothing interrupts a launch between the bookkeeping of its approval and its execution row. -/
def carriedThrough (maxRunning : Nat) (h : ServiceHistory) (ev : ServiceEvent) : Prop :=
  stamped h = none ∨ interrupts maxRunning h ev = false

instance carriedThrough.decidable (maxRunning : Nat) (h : ServiceHistory) (ev : ServiceEvent) :
    Decidable (carriedThrough maxRunning h ev) :=
  inferInstanceAs (Decidable (_ ∨ _))

def NamesExecutions (w : World) : Prop :=
  ∀ a ∈ w.approvals, ∀ e ∈ a.executionProcessId, ∃ p ∈ w.executions, p.id = e

instance NamesExecutions.decidable (w : World) : Decidable (NamesExecutions w) :=
  inferInstanceAs (Decidable (∀ a ∈ w.approvals, ∀ e ∈ a.executionProcessId, _))

def returnsNamed (_ : ServiceHistory) : ServiceEvent → Prop
  | .returned _ _ w => NamesExecutions w
  | _ => True

instance returnsNamed.decidable (h : ServiceHistory) (ev : ServiceEvent) :
    Decidable (returnsNamed h ev) :=
  match ev with
  | .returned _ _ w => inferInstanceAs (Decidable (NamesExecutions w))
  | .began .. | .called .. | .acted .. | .crashed .. => .isTrue trivial

def NamesOrStamps (h : ServiceHistory) (w : World) : Prop :=
  ∀ a ∈ w.approvals, ∀ e ∈ a.executionProcessId, w.HasExecution e ∨ stamped h = some e

def bookkeeping (maxRunning : Nat) : ServiceContract where
  ok := carriedThrough maxRunning
  always h w := NamesOrStamps h w ∧ All returnsNamed h
  idle h _ := stamped h = none

def Op.stamps : Op → Bool
  | .consumeApproval .. | .recordAutoStart .. | .insertExecution .. => true
  | _ => false

variable {op : Op} {h : ServiceHistory} {w : World} {refusal : Option ContainerError} {s : Uuid}
  {runReason : ExecutionProcessRunReason}

theorem Op.stamps_reads (h : op.reads = true ∨ op.settles = true) :
    op.stamps = false := by
  cases op <;> first | rfl | (rcases h with h | h <;> cases h)

theorem stamped_called (hop : op.stamps = false) (refusal : Option ContainerError)
    (w : World) (h : ServiceHistory) : stamped (.called op refusal w :: h) = stamped h := by
  cases op <;> first | rfl | cases hop

variable {maxRunning : Nat} {sessionId : Uuid} {e : Uuid} {cs : List SessionCommand}

theorem NamesOrStamps.act (hn : NamesOrStamps h w)
    (a : World.Act) : NamesOrStamps (.acted a w :: h) (w.act a) := by
  intro b hb e he
  have hold : ∃ b₀ ∈ w.approvals, b₀.executionProcessId = b.executionProcessId := by
    cases a with
    | respond id granted reason =>
      rcases Table.mem_update.1 hb with ⟨b₀, hb₀, -, rfl⟩ | ⟨hb₀, -⟩
      · exact ⟨b₀, hb₀, rfl⟩
      · exact ⟨b, hb₀, rfl⟩
    | enqueue new =>
      simp only [World.act] at hb
      split at hb <;> exact ⟨b, hb, rfl⟩
    | _ => exact ⟨b, hb, rfl⟩
  obtain ⟨b₀, hb₀, heq⟩ := hold
  rcases hn b₀ hb₀ e (heq ▸ he) with hex | hst
  · exact .inl (hex.act a)
  · exact .inr hst

theorem NamesOrStamps.called (hn : NamesOrStamps h w)
    (hop : op.stamps = false) (refusal : Option ContainerError) :
    NamesOrStamps (.called op refusal w :: h) (w.exec op refusal).2 := by
  intro b hb e he
  rw [stamped_called hop]
  rcases w.exec_approvals op refusal with
    ⟨happ, -⟩ | ⟨c, e', rfl, -⟩ | ⟨a, hrow, happ, -, -⟩
  · rw [happ] at hb
    exact (hn b hb e he).imp_left fun hex => hex.exec op refusal
  · cases hop
  · rw [happ] at hb
    rcases List.mem_append.1 hb with hb | hb
    · exact (hn b hb e he).imp_left fun hex => hex.exec op refusal
    · obtain rfl := List.mem_singleton.1 hb
      cases op with
      | ensurePending | ensureBlocked =>
        simp only [World.approvalRow] at hrow
        split at hrow
        · cases hrow
        · obtain rfl := (List.cons.inj hrow).1
          cases he
      | recordAutoStart => cases hop
      | _ => cases hrow

theorem NamesOrStamps.skip (hn : NamesOrStamps h w)
    {ev : ServiceEvent} (hev : stamped (ev :: h) = stamped h) : NamesOrStamps (ev :: h) w := by
  intro a ha e he
  rw [hev]
  exact hn a ha e he

theorem NamesOrStamps.names (hn : NamesOrStamps h w)
    (hst : stamped h = none) : NamesExecutions w := by
  intro a ha e he
  rcases hn a ha e he with hex | hst'
  · exact hex
  · rw [hst] at hst'
    cases hst'

theorem bookkeeping_act (hj : (bookkeeping maxRunning).always h w) (a : World.Act) :
    (bookkeeping maxRunning).always (.acted a w :: h) (w.act a) :=
  ⟨hj.1.act a, trivial, hj.2⟩

theorem bookkeeping_called (hop : op.stamps = false) (hj : (bookkeeping maxRunning).always h w) :
    (bookkeeping maxRunning).always (.called op refusal w :: h) (w.exec op refusal).2 :=
  ⟨hj.1.called hop refusal, trivial, hj.2⟩

def Unstamped (h : ServiceHistory) (_ : World) : Prop := stamped h = none

theorem stable_unstamped : (container maxRunning).Stable (bookkeeping maxRunning) Unstamped :=
  fun _ _ _ _ _ hst => hst

theorem unstamped_effect (hop : op.stamps = false) :
    (container maxRunning).Effect (bookkeeping maxRunning) Unstamped op (fun _ => Unstamped)
      (fun _ => Unstamped) := by
  intro h w refusal hst hj _
  have hst' : Unstamped (.called op refusal w :: h) (w.exec op refusal).2 :=
    (stamped_called hop refusal w h).trans hst
  refine ⟨bookkeeping_called hop hj, ?_⟩
  cases ((container maxRunning).exec op refusal w).1 <;> exact hst'

theorem NamesOrStamps.insert (hn : NamesOrStamps h w) (hst : stamped h = none ∨ stamped h = some e)
    (refusal : Option ContainerError) :
    NamesOrStamps (.called (.insertExecution e s runReason) refusal w :: h)
      (w.exec (.insertExecution e s runReason) refusal).2 := by
  intro a ha i hi
  rw [World.exec_approvals_eq rfl] at ha
  cases hx : (w.exec (.insertExecution e s runReason) refusal).1 with
  | error error =>
    have hsame : stamped (.called (.insertExecution e s runReason) refusal w :: h) = stamped h := by
      simp only [stamped, stampedBy, hx, Except.isOk, Except.toBool, Bool.false_eq_true, ↓reduceIte]
    rw [hsame]
    exact (hn a ha i hi).imp_left fun hex => hex.exec _ refusal
  | ok v =>
    refine .inl ?_
    rcases hn a ha i hi with hex | hst'
    · exact hex.exec _ refusal
    · rcases hst with hst | hst
      · rw [hst] at hst'
        cases hst'
      · rw [hst] at hst'
        obtain rfl := Option.some.inj hst'
        rcases w.exec_cases (.insertExecution e s runReason) refusal with ⟨e', -, -, hx'⟩ | hx'
        · rw [hx'] at hx
          cases hx
        · rw [hx'] at hx ⊢
          rw [(World.insert_some hx).2.2]
          exact ⟨_, List.mem_append_right _ (List.mem_singleton_self _), rfl⟩

theorem stamped_insert {v : Unit}
    (hx : (w.exec (.insertExecution e s runReason) refusal).1 = .ok v) :
    stamped (.called (.insertExecution e s runReason) refusal w :: h) = none := by
  simp only [stamped, stampedBy, hx, Except.isOk, Except.toBool, ↓reduceIte]

theorem unstamped_insert :
    (container maxRunning).Effect (bookkeeping maxRunning) Unstamped
      (.insertExecution e s runReason) (fun _ => Unstamped) (fun _ => Unstamped) := by
  intro h w refusal hst hj _
  refine ⟨⟨hj.1.insert (.inl hst) refusal, trivial, hj.2⟩, ?_⟩
  have hst' : Unstamped (.called (.insertExecution e s runReason) refusal w :: h)
      (w.exec (.insertExecution e s runReason) refusal).2 := by
    simp only [Unstamped, stamped, stampedBy]
    split
    · rfl
    · exact hst
  cases ((container maxRunning).exec (.insertExecution e s runReason) refusal w).1 <;> exact hst'

def Unrecorded (cs : List SessionCommand) (h : ServiceHistory) (_ : World) : Prop :=
  claimed h = cs ∧ stamped h = none

def Recorded (e : Uuid) (cs : List SessionCommand) (h : ServiceHistory) (_ : World) : Prop :=
  claimed h = cs ∧ (stamped h = none ∨ stamped h = some e)

theorem stable_unrecorded :
    (container maxRunning).Stable (bookkeeping maxRunning) (Unrecorded cs) :=
  fun _ _ _ _ _ h => h

theorem stable_recorded :
    (container maxRunning).Stable (bookkeeping maxRunning) (Recorded e cs) :=
  fun _ _ _ _ _ h => h

theorem unstamped_of_obstructs (hok : carriedThrough maxRunning h (.called op refusal w))
    (ho : obstructs h (.called op refusal w) = true) : stamped h = none := by
  rcases hok with hst | hno
  · exact hst
  · have hyes : interrupts maxRunning h (.called op refusal w) = true := by
      cases op <;> simp [interrupts, ho]
    rw [hno] at hyes
    cases hyes

theorem recorded_clears (hop : op.stamps = false) (hop' : ∀ s, op ≠ .claimPending s) :
    Clears (bookkeeping maxRunning) (Recorded e cs) op (Recorded e cs) Unstamped := by
  intro h w refusal hr hj hok
  refine ⟨bookkeeping_called hop hj, ?_⟩
  have hst := stamped_called hop refusal w h
  split
  · rename_i ho
    exact hst.trans (unstamped_of_obstructs hok ho)
  · exact ⟨(claimed_called hop' refusal w h).trans hr.1, hst ▸ hr.2⟩

theorem recorded_reads (hop : op.reads = true) :
    Clears (bookkeeping maxRunning) (Recorded e cs) op (Recorded e cs) Unstamped :=
  recorded_clears (Op.stamps_reads (.inl hop)) (by rintro s rfl; cases hop)

theorem recorded_insert :
    Clears (bookkeeping maxRunning) (Recorded e cs) (.insertExecution e s runReason) Unstamped
      Unstamped := by
  intro h w refusal hr hj hok
  refine ⟨⟨hj.1.insert hr.2 refusal, trivial, hj.2⟩, ?_⟩
  split
  · rename_i ho
    have hst := unstamped_of_obstructs hok ho
    simp only [Unstamped, stamped, stampedBy, hst, ite_self]
  · rename_i ho
    cases hx : (w.exec (.insertExecution e s runReason) refusal).1 with
    | ok v => exact stamped_insert hx
    | error error => exact absurd (obstructs_error hx) ho

theorem unrecorded_refused {error : ContainerError} (hop : op.records = true)
    (hu : Unrecorded cs h w) (hj : (bookkeeping maxRunning).always h w)
    (hx : w.exec op refusal = (.error error, w)) :
    (bookkeeping maxRunning).always (.called op refusal w :: h) w ∧
      Unstamped (.called op refusal w :: h) w := by
  have hst : stamped (.called op refusal w :: h) = stamped h := by
    cases op with
    | consumeApproval | recordAutoStart =>
      simp only [stamped, stampedBy, hx, Except.isOk, Except.toBool, Bool.false_eq_true, false_and,
        ↓reduceIte]
    | _ => cases hop
  exact ⟨⟨hj.1.skip hst, trivial, hj.2⟩, hst.trans hu.2⟩

theorem consume_stamps (c : Uuid) :
    (container maxRunning).Effect (bookkeeping maxRunning) (Unrecorded cs) (.consumeApproval c e)
      (fun _ => Recorded e cs) (fun _ => Unstamped) := by
  intro h w refusal hu hj _
  change (bookkeeping maxRunning).always _ (w.exec (.consumeApproval c e) refusal).2 ∧
    Ends _ _ (w.exec (.consumeApproval c e) refusal).1 _ (w.exec (.consumeApproval c e) refusal).2
  rcases w.exec_cases (.consumeApproval c e) refusal with ⟨error, -, -, hx⟩ | hx
  · obtain ⟨hj', hst⟩ := unrecorded_refused (by rfl) hu hj hx
    rw [hx]
    exact ⟨hj', hst⟩
  · have hst : stamped (.called (.consumeApproval c e) refusal w :: h) =
        if w.approvals.any (consumable c) = true then some e else none := by
      simp only [stamped, stampedBy, hx, hu.2, World.perform, Except.isOk, Except.toBool, true_and]
    rw [hx]
    refine ⟨⟨?_, trivial, hj.2⟩, ⟨hu.1, ?_⟩⟩
    · intro a ha i hi
      rcases Table.mem_update.1 ha with ⟨a₀, ha₀, hc, rfl⟩ | ⟨ha₀, -⟩
      · obtain rfl : e = i := Option.some.inj hi
        rw [hst, if_pos (List.any_eq_true.2 ⟨a₀, ha₀, hc⟩)]
        exact .inr rfl
      · exact .inl (hj.1.names hu.2 a ha₀ i hi)
    · rw [hst]
      split
      · exact .inr rfl
      · exact .inl rfl

theorem autoStart_stamps (c : Uuid) (accountAlias : Option String) :
    (container maxRunning).Effect (bookkeeping maxRunning) (Unrecorded cs)
      (.recordAutoStart c e accountAlias) (fun _ => Recorded e cs) (fun _ => Unstamped) := by
  intro h w refusal hu hj _
  change (bookkeeping maxRunning).always _ (w.exec (.recordAutoStart c e accountAlias) refusal).2 ∧
    Ends _ _ (w.exec (.recordAutoStart c e accountAlias) refusal).1 _
      (w.exec (.recordAutoStart c e accountAlias) refusal).2
  rcases w.exec_cases (.recordAutoStart c e accountAlias) refusal with ⟨error, -, -, hx⟩ | hx
  · obtain ⟨hj', hst⟩ := unrecorded_refused (by rfl) hu hj hx
    rw [hx]
    exact ⟨hj', hst⟩
  · have happ : (w.perform (.recordAutoStart c e accountAlias)).2.approvals =
        w.approvals ++ w.approvalRow (.recordAutoStart c e accountAlias) :=
      World.perform_approvals (by simp)
    rw [hx]
    by_cases hany : w.approvals.any (fun a => a.executionProcessId = some e) = true
    · have hst : stamped (.called (.recordAutoStart c e accountAlias) refusal w :: h) = none := by
        simp only [stamped, stampedBy, hu.2, hany, not_true_eq_false, and_false, ↓reduceIte]
      simp only [World.approvalRow, hany, ↓reduceIte, List.append_nil] at happ
      refine ⟨⟨?_, trivial, hj.2⟩, ⟨hu.1, .inl hst⟩⟩
      intro a ha i hi
      rw [happ] at ha
      exact .inl (hj.1.names hu.2 a ha i hi)
    · have hst : stamped (.called (.recordAutoStart c e accountAlias) refusal w :: h) = some e := by
        simp only [stamped, stampedBy, hx, hany, World.perform, Except.isOk, Except.toBool,
          Bool.false_eq_true, not_false_eq_true, and_self, ↓reduceIte]
      simp only [World.approvalRow, hany, Bool.false_eq_true, ↓reduceIte] at happ
      refine ⟨⟨?_, trivial, hj.2⟩, ⟨hu.1, .inr hst⟩⟩
      intro a ha i hi
      rw [happ] at ha
      rcases List.mem_append.1 ha with ha | ha
      · exact .inl (hj.1.names hu.2 a ha i hi)
      · obtain rfl := List.mem_singleton.1 ha
        exact .inr (hst.trans hi)

theorem record_stamps (first : SessionCommand) (rest : List SessionCommand) :
    (container maxRunning).Triple (bookkeeping maxRunning) (Unrecorded (first :: rest))
      (recordLaunch first e)
      (fun b => if b = true then Recorded e (first :: rest) else Unstamped)
      (fun _ => Unstamped) := by
  simp only [Container.recordLaunch]
  split
  · exact .pure fun _ _ h => ⟨h.1, .inl h.2⟩
  · split
    · exact .perform_bind (D := fun _ => Recorded e (first :: rest)) stable_unrecorded
        (consume_stamps first.id) fun _ => .pure fun _ _ h => h
    · exact .perform_bind (D := fun _ => Recorded e (first :: rest)) stable_unrecorded
        (autoStart_stamps first.id _) fun _ => .pure fun _ _ h => h
    · exact .pure fun _ _ h => h.2

theorem unrecorded_gates (hop : op.gates = true) :
    (container maxRunning).Effect (bookkeeping maxRunning) (Unrecorded cs) op
      (fun _ => Unrecorded cs) (fun _ => Unstamped) := by
  have hno : op.stamps = false := by cases op <;> first | rfl | cases hop
  intro h w refusal hu hj _
  have hst := (stamped_called hno refusal w h).trans hu.2
  have hc : claimed (.called op refusal w :: h) = cs := by
    rw [claimed_called (by rintro s rfl; cases hop), hu.1]
  refine ⟨bookkeeping_called hno hj, ?_⟩
  cases ((container maxRunning).exec op refusal w).1 with
  | ok => exact ⟨hc, hst⟩
  | error => exact hst

theorem recorded_admission :
    (container maxRunning).Effect (bookkeeping maxRunning) (Recorded e cs)
      .countRunningCodingAgents
      (fun n => if maxRunning ≤ n then Unstamped else Recorded e cs) (fun _ => Unstamped) := by
  refine effect_intro (fun hj _ refusal => bookkeeping_called rfl hj) ?_ ?_
  · intro h w error hr _ hrefused hok
    have hx : w.exec .countRunningCodingAgents (some error) = (.error error, w) := by
      rw [World.exec_some, if_pos hrefused]
    have hst : stamped h = none :=
      unstamped_of_obstructs hok (obstructs_error (congrArg Prod.fst hx))
    exact hst
  · intro h w refusal hr _ hok hx
    change (if maxRunning ≤ ExecutionProcess.countRunningCodingAgents w.executions then Unstamped
      else Recorded e cs) _ _
    split
    · rename_i hfull
      rcases hok with hst | hno
      · exact hst
      · simp [interrupts, hfull] at hno
    · exact hr

def bookkeepingOutline (maxRunning : Nat) (sessionId : Uuid) :
    Outline (bookkeeping maxRunning) maxRunning sessionId where
  entering := Unstamped
  opening := Unstamped
  released := Unstamped
  drawn _ := Unstamped
  claimed _ cs := Unrecorded cs
  authorized _ cs := Unrecorded cs
  held _ _ := Unstamped
  ready e cs := Recorded e cs
  admitted e cs := Recorded e cs
  full _ _ := Unstamped
  created _ _ := Unstamped
  emptied _ := Unstamped
  bound _ _ := Unstamped
  lost _ := Unstamped
  isOver := Unstamped
  failed := Unstamped
  stable_entering := stable_unstamped
  stable_opening := stable_unstamped
  stable_released := stable_unstamped
  stable_drawn _ := stable_unstamped
  stable_held _ _ := stable_unstamped
  stable_ready _ _ := stable_recorded
  stable_full _ _ := stable_unstamped
  stable_created _ _ := stable_unstamped
  stable_emptied _ := stable_unstamped
  stable_bound _ _ := stable_unstamped
  stable_lost _ := stable_unstamped
  stable_over := stable_unstamped
  running := (unstamped_effect rfl).mono (fun _ _ _ h => by rw [ite_self]; exact h) fun _ _ _ h => h
  headGate := (headGate_keeps stable_unstamped sessionId (unstamped_effect rfl) fun op hop =>
    unstamped_effect (by cases op <;> first | rfl | cases hop)).consequence (fun _ _ h => h)
      (fun _ _ _ h => by rw [ite_self]; exact h) fun _ _ _ h => h
  release := unstamped_effect rfl
  draw := unstamped_effect rfl
  claim _ := by
    refine effect_intro (fun hj _ refusal => bookkeeping_called rfl hj)
      (fun _ _ _ hst _ _ _ => hst) fun h w refusal hst _ _ hx => ?_
    change (if (claimPending w.commands sessionId).2 = [] then Unstamped
      else Unrecorded (claimPending w.commands sessionId).2) _ _
    split
    · exact hst
    · refine ⟨?_, hst⟩
      simp only [Cdesktop.claimed, claimedBy, hx]
      rfl
  gate _ first rest := (gate_keeps stable_unrecorded first fun _ => unrecorded_gates).consequence
    (fun _ _ h => h) (fun d h w hu => by
      split
      · exact hu
      · exact hu.2) fun _ _ _ h => h
  record _ first rest := record_stamps first rest
  putBack _ _ := unstamped_effect rfl
  prepare _ first rest := prepareLaunch_clears stable_recorded sessionId first rest _
    (fun _ _ hr => hr.1) fun _ hop _ => recorded_reads hop
  admission _ _ := recorded_admission
  putBackFull _ _ := unstamped_effect rfl
  create e cs workspace session _ := createExecution_clears stable_recorded stable_unstamped workspace
    session .codingAgent e (fun _ => recorded_reads) recorded_insert fun op hop => by
      intro h w refusal hst hj _
      have hno := Op.stamps_reads (.inl hop)
      have hst' : Unstamped (.called op refusal w :: h) (w.exec op refusal).2 :=
        (stamped_called hno refusal w h).trans hst
      exact ⟨bookkeeping_called hno hj, by rw [ite_self]; exact hst'⟩
  bind _ _ := (unstamped_effect rfl).mono (fun _ _ _ h => by rw [ite_self]; exact h) fun _ _ _ h => h
  fail _ := unstamped_effect rfl
  bound_reads _ _ _ hop _ := unstamped_effect (Op.stamps_reads (.inl hop))
  bound_lost _ _ _ _ h := h
  spawn e _ action _ _ := spawnChild_keeps stable_unstamped stable_unstamped e action
    (unstamped_effect rfl) fun _ hop => unstamped_effect (Op.stamps_reads (.inr hop))
  over_reads _ hop _ := unstamped_effect (Op.stamps_reads (.inl hop))
  over_lost _ _ _ h := h
  lose _ := unstamped_effect rfl

theorem unstamped_direct (hop : op.direct = true) :
    (container maxRunning).Effect (bookkeeping maxRunning) Unstamped op (fun _ => Unstamped)
      (fun _ => Unstamped) := by
  cases op with
  | insertExecution e s runReason => exact unstamped_insert
  | consumeApproval | recordAutoStart => cases hop
  | _ => exact unstamped_effect rfl

theorem bookkeeping_skip
    (hj : (bookkeeping maxRunning).always h w) (hst : stamped h = none) {ev : ServiceEvent}
    (hev : stamped (ev :: h) = none) (hreturns : returnsNamed h ev) :
    (bookkeeping maxRunning).always (ev :: h) w :=
  ⟨hj.1.skip (hev.trans hst.symm), hreturns, hj.2⟩

theorem bookkeeping_keeps (maxRunning : Nat) :
    Keeps (container maxRunning) (bookkeeping maxRunning) := by
  refine Keeps.of_triples (C := fun _ => Unstamped) (D := fun _ _ => Unstamped)
    (fun _ _ a _ hj _ => bookkeeping_act hj a) stable_unstamped ?_ ?_ ?_ ?_
  · intro h w hok hj
    have hst : stamped h = none := by
      rcases hok with hst | hno
      · exact hst
      · cases hno
    exact ⟨bookkeeping_skip hj hst rfl trivial, rfl⟩
  · exact fun entry h w _ hj hst => ⟨bookkeeping_skip hj hst rfl trivial, rfl⟩
  · intro entry
    cases entry with
    | dispatchPendingCommands sessionId =>
      exact (bookkeepingOutline maxRunning sessionId).dispatchPendingCommands
    | startExecution workspace session action runReason =>
      exact .bind (Triple.of_calls (startExecution_calls maxRunning workspace session action
        runReason) stable_unstamped fun _ => unstamped_direct) fun _ => .pure fun _ _ h => h
    | startup =>
      exact .bind (Outline.startup (bookkeepingOutline maxRunning) stable_unstamped stable_unstamped
        (fun _ hop => unstamped_direct (Op.direct_of_recovers hop))
        (fun _ hop => unstamped_effect (Op.stamps_reads (.inl hop))) (fun _ _ h => h)
        (fun _ _ _ h => h) (fun _ _ _ h => h) fun _ _ _ h => h) fun _ => .pure fun _ _ h => h
  · intro entry r h w hst hj _
    exact ⟨bookkeeping_skip hj hst hst (hj.1.names hst), hst⟩

/-- Whenever a program returns, every stamped approval names an execution that was created, in every
run that carries each stamped launch through to its execution row. -/
theorem bookkeeping_named (maxRunning : Nat) (w : World) (hw : NamesExecutions w)
    (labels : List (Label ContainerError World.Act Entry))
    (hok : All (carriedThrough maxRunning)
      ((container maxRunning).run (System.start w) labels).history) :
    All returnsNamed ((container maxRunning).run (System.start w) labels).history := by
  have hstart : Kept (container maxRunning) (bookkeeping maxRunning) (System.start w) :=
    ⟨⟨fun a ha e he => .inl (hw a ha e he), trivial⟩, rfl⟩
  exact ((bookkeeping_keeps maxRunning).run hstart labels hok).1.2

def fullHostRun : List (Label ContainerError World.Act Entry) :=
  [.act (.enqueue (askingCommand "metered"))] ++ dispatchAlone ++ [.act (.respond 11 true none)] ++
    dispatchAlone

def fullHost : World :=
  { sampleWorld with executions := [sampleWorld.runningRow 5 6 .codingAgent] }

theorem full_host_spends_approval :
    ¬ All returnsNamed ((container 1).run (System.start fullHost) fullHostRun).history := by
  decide +kernel

theorem bookkeeping_named_sample :
    All returnsNamed ((container 2).run (System.start fullHost) fullHostRun).history :=
  bookkeeping_named 2 fullHost (by decide) fullHostRun (by decide +kernel)

end Cdesktop
