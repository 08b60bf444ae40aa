import Cdesktop.ServiceHistory

namespace Cdesktop
set_option autoImplicit true
open System MeteredApproval

/-- A response to the approval, whether it decides it or comes too late. -/
def responds (id : Uuid) : ServiceEvent → Bool
  | .acted (.respond i _ _) w => i = id ∧ w.approvals.any fun a => a.id = id
  | _ => false

def wins (id : Uuid) : ServiceEvent → Bool
  | .acted (.respond i approved reason) w =>
    i = id ∧ (respond w.approvals i approved reason w.now).2
  | _ => false

def approves (command : Uuid) : ServiceEvent → Bool
  | .acted (.respond i true _) w =>
    w.approvals.any fun a => respondable i a ∧ a.sessionCommandId = command
  | _ => false

def consumes (id : Uuid) : ServiceEvent → Bool
  | .called (.consumeApproval command e) refusal w =>
    (w.exec (.consumeApproval command e) refusal).1.isOk ∧
      w.approvals.any fun a => a.id = id ∧ consumable command a
  | _ => false

def Silent (ev : ServiceEvent) : Prop :=
  ∀ id, responds id ev = false ∧ wins id ev = false ∧ approves id ev = false ∧
    consumes id ev = false

variable {w : World} {op : Op} {refusal : Option ContainerError} {h : ServiceHistory}
  {a : MeteredApproval} {ev : ServiceEvent}

theorem silent_act {a : World.Act} (ha : ∀ id granted reason, a ≠ .respond id granted reason) :
    Silent (.acted a w) := by
  cases a with
  | respond id granted reason => exact absurd rfl (ha id granted reason)
  | _ => exact fun _ => ⟨rfl, rfl, rfl, rfl⟩

theorem silent_called
    (hop : ∀ command e, op ≠ .consumeApproval command e) : Silent (.called op refusal w) := by
  cases op with
  | consumeApproval command e => exact absurd rfl (hop command e)
  | _ => exact fun _ => ⟨rfl, rfl, rfl, rfl⟩

theorem silent_refused {e : ContainerError}
    (hx : w.exec op refusal = (.error e, w)) : Silent (.called op refusal w) := by
  cases op with
  | consumeApproval command e =>
    refine fun id => ⟨rfl, rfl, rfl, ?_⟩
    simp only [consumes, hx]
    rfl
  | _ => exact silent_called (by simp)

structure RowLedger (h : ServiceHistory) (a : MeteredApproval) : Prop where
  unasked : a.policy ≠ .ask → a.state = .autoStarted ∨ a.state = .blocked
  waiting : a.policy = .ask → a.state = .pending →
    h.countP (responds a.id) = 0 ∧ h.countP (wins a.id) = 0 ∧ a.executionProcessId = none
  decided : a.policy = .ask → a.state ≠ .pending →
    0 < h.countP (responds a.id) ∧ h.countP (wins a.id) = 1
  consumed : h.countP (consumes a.id) =
    if a.state = .approved ∧ a.executionProcessId ≠ none then 1 else 0

structure Ledger (h : ServiceHistory) (w : World) : Prop where
  nodup : (w.approvals.map (·.id)).Nodup
  drawn : ∀ a ∈ w.approvals, a.id < w.nextId
  fresh : ∀ id, w.nextId ≤ id → h.countP (responds id) = 0 ∧ h.countP (wins id) = 0 ∧
    h.countP (consumes id) = 0
  rows : ∀ a ∈ w.approvals, RowLedger h a
  approved : ∀ command,
    w.approvals.countP (fun a => a.sessionCommandId = command ∧ a.state = .approved) ≤
      h.countP (approves command)

theorem RowLedger.cons (hr : RowLedger h a)
    (hresponds : responds a.id ev = false) (hwins : wins a.id ev = false)
    (hconsumes : consumes a.id ev = false) : RowLedger (ev :: h) a := by
  refine ⟨hr.unasked, ?_, ?_, ?_⟩
  · simpa [List.countP_cons, hresponds, hwins] using hr.waiting
  · simpa [List.countP_cons, hresponds, hwins] using hr.decided
  · simpa [List.countP_cons, hconsumes] using hr.consumed

theorem Ledger.other {w' : World} (hl : Ledger h w)
    (hno : Silent ev) (happ : w'.approvals = w.approvals)
    (hnext : w.nextId ≤ w'.nextId) : Ledger (ev :: h) w' := by
  refine ⟨happ ▸ hl.nodup, ?_, ?_, ?_, ?_⟩
  · rw [happ]
    exact fun a ha => (hl.drawn a ha).trans_le hnext
  · intro id hid
    obtain ⟨hr, hw, -, hc⟩ := hno id
    simpa [List.countP_cons, hr, hw, hc] using hl.fresh id (hnext.trans hid)
  · rw [happ]
    exact fun a ha => (hl.rows a ha).cons (hno a.id).1 (hno a.id).2.1 (hno a.id).2.2.2
  · intro command
    simpa [List.countP_cons, (hno command).2.2.1, happ] using hl.approved command

theorem Ledger.append {w' : World} (hl : Ledger h w)
    (hno : Silent ev) (happ : w'.approvals = w.approvals ++ [a])
    (hid : a.id = w.nextId) (hnext : w'.nextId = w.nextId + 1)
    (hstate : (a.policy = .ask ∧ a.state = .pending ∧ a.executionProcessId = none) ∨
      (a.policy ≠ .ask ∧ (a.state = .autoStarted ∨ a.state = .blocked))) : Ledger (ev :: h) w' := by
  have hfresh := hl.fresh a.id hid.ge
  have hna : a.state ≠ .approved := by
    rcases hstate with ⟨-, hst, -⟩ | ⟨-, hst | hst⟩ <;> simp [hst]
  refine ⟨?_, ?_, ?_, ?_, ?_⟩
  · rw [happ, List.map_append, List.nodup_append]
    refine ⟨hl.nodup, by simp, ?_⟩
    intro i hi j hj hij
    obtain ⟨b, hb, rfl⟩ := List.mem_map.1 hi
    simp only [List.map_cons, List.map_nil, List.mem_singleton] at hj
    rw [hj, hid] at hij
    exact (hl.drawn b hb).ne hij
  · rw [happ, hnext]
    intro b hb
    rcases List.mem_append.1 hb with hb | hb
    · exact (hl.drawn b hb).trans (Nat.lt_succ_self _)
    · rw [List.mem_singleton.1 hb, hid]
      exact Nat.lt_succ_self _
  · intro id hid'
    rw [hnext] at hid'
    obtain ⟨hr, hw, -, hc⟩ := hno id
    simpa [List.countP_cons, hr, hw, hc] using hl.fresh id (Nat.le_of_succ_le hid')
  · rw [happ]
    intro b hb
    rcases List.mem_append.1 hb with hb | hb
    · exact (hl.rows b hb).cons (hno b.id).1 (hno b.id).2.1 (hno b.id).2.2.2
    · obtain rfl := List.mem_singleton.1 hb
      refine RowLedger.cons ⟨?_, ?_, ?_, ?_⟩ (hno b.id).1 (hno b.id).2.1 (hno b.id).2.2.2
      · intro hp
        rcases hstate with ⟨hask, -, -⟩ | ⟨-, hst⟩
        · exact absurd hask hp
        · exact hst
      · intro hp hst
        rcases hstate with ⟨-, -, hnone⟩ | ⟨hnask, -⟩
        · exact ⟨hfresh.1, hfresh.2.1, hnone⟩
        · exact absurd hp hnask
      · intro hp hst
        rcases hstate with ⟨-, hst', -⟩ | ⟨hnask, -⟩
        · exact absurd hst' hst
        · exact absurd hp hnask
      · simp [hna, hfresh.2.2]
  · intro command
    rw [happ, List.countP_append]
    simpa [List.countP_cons, (hno command).2.2.1, hna] using hl.approved command

theorem countP_respondable {t : Approvals} (hn : (t.map (·.id)).Nodup) (id : Uuid) :
    t.countP (respondable id) = if t.any (respondable id) then 1 else 0 := by
  have hle : t.countP (respondable id) ≤ 1 := by
    rw [List.countP_eq_length_filter]
    apply Table.length_filter_le_one (List.Nodup.of_map _ hn)
    intro a ha b hb hra hrb
    simp only [respondable, decide_eq_true_eq] at hra hrb
    exact Table.eq_of_key hn ha hb (hra.1.trans hrb.1.symm)
  cases hany : t.any (respondable id) with
  | true =>
    have hpos := List.countP_pos_iff.2 (List.any_eq_true.1 hany)
    simp only [↓reduceIte]
    omega
  | false =>
    simp only [Bool.false_eq_true, ↓reduceIte]
    exact List.countP_eq_zero.2 fun a ha => by
      have hno := List.any_eq_false.1 hany a ha
      simpa using hno

theorem wins_respond (hn : (w.approvals.map (·.id)).Nodup) (i id : Uuid)
    (granted : Bool) (reason : Option String) :
    wins i (.acted (.respond id granted reason) w) = true ↔
      id = i ∧ ∃ a ∈ w.approvals, respondable id a = true := by
  simp only [wins, MeteredApproval.respond, countP_respondable hn, decide_eq_true_eq]
  rw [← List.any_eq_true]
  by_cases hany : w.approvals.any (respondable id) = true <;> simp [hany]

theorem responds_respond (i id : Uuid) (granted : Bool) (reason : Option String) :
    responds i (.acted (.respond id granted reason) w) = true ↔
      id = i ∧ ∃ a ∈ w.approvals, a.id = id := by
  simp only [responds, decide_eq_true_eq, List.any_eq_true]
  constructor
  · rintro ⟨rfl, ha⟩
    exact ⟨rfl, ha⟩
  · rintro ⟨rfl, ha⟩
    exact ⟨rfl, ha⟩

theorem RowLedger.respond (hl : Ledger h w)
    (ha : a ∈ w.approvals) {id : Uuid} (hra : respondable id a = true) (granted : Bool)
    (reason : Option String) :
    RowLedger (.acted (.respond id granted reason) w :: h) (resolve granted reason w.now a) := by
  have hrow := hl.rows a ha
  have hwins := (wins_respond hl.nodup id id granted reason).2 ⟨rfl, a, ha, hra⟩
  simp only [respondable, decide_eq_true_eq] at hra
  obtain ⟨rfl, hst⟩ := hra
  have hresponds := (responds_respond a.id a.id granted reason).2 ⟨rfl, a, ha, rfl⟩
  have hask : a.policy = .ask := by
    by_contra hp
    rcases hrow.unasked hp with hst' | hst' <;> rw [hst] at hst' <;> cases hst'
  obtain ⟨-, hw0, hnone⟩ := hrow.waiting hask hst
  have hcons := hrow.consumed
  simp only [hst, reduceCtorEq, false_and, ↓reduceIte] at hcons
  have hconsumes : consumes a.id (.acted (.respond a.id granted reason) w) = false := rfl
  refine ⟨fun hp => absurd hask hp, fun _ hp => ?_, fun _ _ => ⟨?_, ?_⟩, ?_⟩
  · cases granted <;> cases hp
  · simp only [resolve, List.countP_cons, hresponds, ↓reduceIte]
    exact Nat.succ_pos _
  · simp only [resolve, List.countP_cons, hwins, hw0, ↓reduceIte]
  · simp only [resolve, List.countP_cons, hconsumes, hcons, hnone]
    simp

theorem RowLedger.unanswered (hl : Ledger h w)
    (ha : a ∈ w.approvals) {id : Uuid} (hra : respondable id a = false)
    (granted : Bool) (reason : Option String) :
    RowLedger (.acted (.respond id granted reason) w :: h) a := by
  have hrow := hl.rows a ha
  have hwins : wins a.id (.acted (.respond id granted reason) w) = false := by
    rw [Bool.eq_false_iff]
    intro hw
    obtain ⟨rfl, b, hb, hrb⟩ := (wins_respond hl.nodup a.id id granted reason).1 hw
    have hid : b.id = a.id := (of_decide_eq_true hrb).1
    rw [Table.eq_of_key hl.nodup hb ha hid, hra] at hrb
    cases hrb
  have hconsumes : consumes a.id (.acted (.respond id granted reason) w) = false := rfl
  refine ⟨hrow.unasked, fun hask hst => ?_, fun hask hst => ?_, ?_⟩
  · have hresponds : responds a.id (.acted (.respond id granted reason) w) = false := by
      rw [Bool.eq_false_iff]
      intro hr
      obtain ⟨rfl, -⟩ := (responds_respond a.id id granted reason).1 hr
      simp [respondable, hst] at hra
    simpa [List.countP_cons, hresponds, hwins] using hrow.waiting hask hst
  · obtain ⟨hpos, hone⟩ := hrow.decided hask hst
    refine ⟨?_, by simpa [List.countP_cons, hwins] using hone⟩
    rw [List.countP_cons]
    omega
  · simpa [List.countP_cons, hconsumes] using hrow.consumed

theorem approved_respond (hn : (w.approvals.map (·.id)).Nodup) (id command : Uuid)
    (granted : Bool) (reason : Option String) :
    (w.act (.respond id granted reason)).approvals.countP
        (fun a => a.sessionCommandId = command ∧ a.state = .approved) ≤
      w.approvals.countP (fun a => a.sessionCommandId = command ∧ a.state = .approved) +
        if approves command (.acted (.respond id granted reason) w) then 1 else 0 := by
  refine (Table.countP_update_le (respondable id) _ (resolve granted reason w.now)
    w.approvals).trans (Nat.add_le_add_left ?_ _)
  by_cases happ : approves command (.acted (.respond id granted reason) w) = true
  · rw [if_pos happ]
    refine (List.countP_mono_left fun a _ ha => ?_).trans
      ((countP_respondable hn id).trans_le (by split <;> simp))
    exact (Bool.and_eq_true_iff.1 ha).1
  · rw [if_neg happ, Nat.le_zero, List.countP_eq_zero]
    intro a ha hboth
    apply happ
    obtain ⟨hra, hst⟩ := Bool.and_eq_true_iff.1 hboth
    cases granted with
    | false => simp [resolve] at hst
    | true =>
      refine List.any_eq_true.2 ⟨a, ha, decide_eq_true ⟨hra, ?_⟩⟩
      exact (of_decide_eq_true hst).1

theorem Ledger.respond (hl : Ledger h w) (id : Uuid) (granted : Bool) (reason : Option String) :
    Ledger (.acted (.respond id granted reason) w :: h) (w.act (.respond id granted reason)) := by
  have happ : (w.act (.respond id granted reason)).approvals =
      Table.update (respondable id) (resolve granted reason w.now) w.approvals := rfl
  refine ⟨?_, ?_, ?_, ?_, ?_⟩
  · rw [happ, Table.update_map (f := resolve granted reason w.now)
      (fun a : MeteredApproval => a.id) fun _ _ _ => rfl]
    exact hl.nodup
  · rw [happ]
    intro a ha
    rcases Table.mem_update.1 ha with ⟨a₀, ha₀, -, rfl⟩ | ⟨ha₀, -⟩
    · exact hl.drawn a₀ ha₀
    · exact hl.drawn a ha₀
  · intro i hi
    have hnone (a : MeteredApproval) (ha : a ∈ w.approvals) : a.id ≠ i :=
      ((hl.drawn a ha).trans_le hi).ne
    have hresponds : responds i (.acted (.respond id granted reason) w) = false := by
      rw [Bool.eq_false_iff]
      intro hr
      obtain ⟨rfl, a, ha, hid⟩ := (responds_respond i id granted reason).1 hr
      exact hnone a ha hid
    have hwins : wins i (.acted (.respond id granted reason) w) = false := by
      rw [Bool.eq_false_iff]
      intro hw
      obtain ⟨rfl, a, ha, hra⟩ := (wins_respond hl.nodup i id granted reason).1 hw
      exact hnone a ha (of_decide_eq_true hra).1
    have hconsumes : consumes i (.acted (.respond id granted reason) w) = false := rfl
    simpa [List.countP_cons, hresponds, hwins, hconsumes] using hl.fresh i hi
  · rw [happ]
    intro a ha
    rcases Table.mem_update.1 ha with ⟨a₀, ha₀, hra, rfl⟩ | ⟨ha₀, hra⟩
    · exact .respond hl ha₀ hra granted reason
    · exact .unanswered hl ha₀ hra granted reason
  · intro command
    refine (approved_respond hl.nodup id command granted reason).trans ?_
    rw [List.countP_cons]
    exact Nat.add_le_add_right (hl.approved command) _

theorem consumes_consume {command e : Uuid}
    (hx : w.exec (.consumeApproval command e) refusal = w.perform (.consumeApproval command e))
    (id : Uuid) : consumes id (.called (.consumeApproval command e) refusal w) = true ↔
      ∃ a ∈ w.approvals, a.id = id ∧ consumable command a = true := by
  simp only [consumes, hx, World.perform, Except.isOk, Except.toBool,
    List.any_eq_true, decide_eq_true_eq, true_and]

theorem Ledger.consume (hl : Ledger h w) {command e : Uuid}
    (hx : w.exec (.consumeApproval command e) refusal = w.perform (.consumeApproval command e)) :
    Ledger (.called (.consumeApproval command e) refusal w :: h)
      (w.perform (.consumeApproval command e)).2 := by
  have happ : (w.perform (.consumeApproval command e)).2.approvals =
      Table.update (consumable command) (fun a => { a with executionProcessId := some e })
        w.approvals := rfl
  have hresponds (i : Uuid) :
      responds i (.called (.consumeApproval command e) refusal w) = false := rfl
  have hwins (i : Uuid) : wins i (.called (.consumeApproval command e) refusal w) = false := rfl
  refine ⟨?_, ?_, ?_, ?_, ?_⟩
  · rw [happ, Table.update_map (f := fun a => { a with executionProcessId := some e })
      (fun a : MeteredApproval => a.id) fun _ _ _ => rfl]
    exact hl.nodup
  · rw [happ]
    intro a ha
    rcases Table.mem_update.1 ha with ⟨a₀, ha₀, -, rfl⟩ | ⟨ha₀, -⟩
    · exact hl.drawn a₀ ha₀
    · exact hl.drawn a ha₀
  · intro i hi
    have hconsumes : consumes i (.called (.consumeApproval command e) refusal w) = false := by
      rw [Bool.eq_false_iff]
      intro hc
      obtain ⟨a, ha, rfl, -⟩ := (consumes_consume hx i).1 hc
      exact ((hl.drawn a ha).trans_le hi).ne rfl
    simpa [List.countP_cons, hresponds, hwins, hconsumes] using hl.fresh i hi
  · rw [happ]
    intro a ha
    rcases Table.mem_update.1 ha with ⟨a₀, ha₀, hca, rfl⟩ | ⟨ha₀, hca⟩
    · have hrow := hl.rows a₀ ha₀
      have hconsumes := (consumes_consume hx a₀.id).2 ⟨a₀, ha₀, rfl, hca⟩
      simp only [consumable, decide_eq_true_eq] at hca
      obtain ⟨-, hst, hnone⟩ := hca
      have hcons := hrow.consumed
      simp only [hnone, ne_eq, not_true_eq_false, and_false, ↓reduceIte] at hcons
      refine ⟨hrow.unasked, fun _ hp => ?_, fun hask hp => ?_, ?_⟩
      · rw [hst] at hp
        cases hp
      · simpa [List.countP_cons, hresponds, hwins] using hrow.decided hask hp
      · simp only [List.countP_cons, hconsumes, hcons, hst]
        simp
    · refine (hl.rows a ha₀).cons (hresponds _) (hwins _) ?_
      rw [Bool.eq_false_iff]
      intro hc
      obtain ⟨b, hb, hid, hcb⟩ := (consumes_consume hx a.id).1 hc
      rw [Table.eq_of_key hl.nodup hb ha₀ hid, hca] at hcb
      cases hcb
  · intro c
    have happroves : approves c (.called (.consumeApproval command e) refusal w) = false := rfl
    rw [happ, List.countP_cons, happroves]
    refine le_trans (le_of_eq ?_) (hl.approved c)
    rw [Table.update, List.countP_map]
    apply List.countP_congr
    intro a _
    simp only [Function.comp_apply]
    split <;> simp

namespace World

def approvalRow (w : World) : Op → List MeteredApproval
  | .ensurePending c accountAlias =>
    if w.approvals.any (fun a => a.sessionCommandId = c ∧ a.state = .pending) then []
    else
      [{ id := w.nextId, sessionCommandId := c, policy := .ask, state := .pending, accountAlias,
         reason := none, executionProcessId := none, createdAt := w.now, resolvedAt := none }]
  | .ensureBlocked c accountAlias =>
    if w.approvals.any (fun a => a.sessionCommandId = c ∧ a.state = .blocked) then []
    else
      [{ id := w.nextId, sessionCommandId := c, policy := .never, state := .blocked, accountAlias,
         reason := some routesExhaustedReason, executionProcessId := none, createdAt := w.now,
         resolvedAt := some w.now }]
  | .recordAutoStart c e accountAlias =>
    if w.approvals.any (fun a => a.executionProcessId = some e) then []
    else
      [{ id := w.nextId, sessionCommandId := c, policy := .auto, state := .autoStarted,
         accountAlias, reason := none, executionProcessId := some e, createdAt := w.now,
         resolvedAt := some w.now }]
  | _ => []

theorem perform_approvals (hop : ∀ command e, op ≠ .consumeApproval command e) :
    (w.perform op).2.approvals = w.approvals ++ w.approvalRow op := by
  cases op with
  | ensurePending c accountAlias =>
    simp only [perform, MeteredApproval.ensurePending, approvalRow]
    split <;> simp
  | ensureBlocked c accountAlias =>
    simp only [perform, MeteredApproval.ensureBlocked, approvalRow]
    split <;> simp
  | recordAutoStart c e accountAlias =>
    simp only [perform, MeteredApproval.recordAutoStart, approvalRow]
    split <;> simp
  | consumeApproval command e => exact absurd rfl (hop command e)
  | insertExecution | bindExecution | ensureClaimed =>
    simp only [perform, approvalRow, List.append_nil]
    split <;> rfl
  | _ =>
    simp only [approvalRow, List.append_nil]
    rfl

theorem approvalRow_cons {l : List MeteredApproval} (h : w.approvalRow op = a :: l) :
    l = [] ∧ a.id = w.nextId ∧ (w.perform op).2.nextId = w.nextId + 1 ∧
      ((a.policy = .ask ∧ a.state = .pending ∧ a.executionProcessId = none) ∨
        (a.policy ≠ .ask ∧ (a.state = .autoStarted ∨ a.state = .blocked))) := by
  cases op with
  | ensurePending c accountAlias =>
    simp only [approvalRow] at h
    split at h
    · cases h
    · obtain ⟨rfl, rfl⟩ := List.cons.inj h
      exact ⟨rfl, rfl, rfl, .inl ⟨rfl, rfl, rfl⟩⟩
  | ensureBlocked c accountAlias =>
    simp only [approvalRow] at h
    split at h
    · cases h
    · obtain ⟨rfl, rfl⟩ := List.cons.inj h
      exact ⟨rfl, rfl, rfl, .inr ⟨by simp, .inr rfl⟩⟩
  | recordAutoStart c e accountAlias =>
    simp only [approvalRow] at h
    split at h
    · cases h
    · obtain ⟨rfl, rfl⟩ := List.cons.inj h
      exact ⟨rfl, rfl, rfl, .inr ⟨by simp, .inl rfl⟩⟩
  | _ => cases h

theorem exec_approvals (w : World) (op : Op) (refusal : Option ContainerError) :
    ((w.exec op refusal).2.approvals = w.approvals ∧ Silent (.called op refusal w)) ∨
      (∃ command e, op = .consumeApproval command e ∧ w.exec op refusal = w.perform op) ∨
      ∃ a, w.approvalRow op = [a] ∧ (w.exec op refusal).2.approvals = w.approvals ++ [a] ∧
        (w.exec op refusal).2.nextId = w.nextId + 1 ∧ Silent (.called op refusal w) := by
  rcases w.exec_cases op refusal with ⟨e, -, -, hx⟩ | hx
  · exact .inl ⟨by rw [hx], silent_refused hx⟩
  · by_cases hop : ∃ command e, op = .consumeApproval command e
    · obtain ⟨command, e, rfl⟩ := hop
      exact .inr (.inl ⟨command, e, rfl, hx⟩)
    · have hop' : ∀ command e, op ≠ .consumeApproval command e :=
        fun command e h => hop ⟨command, e, h⟩
      have happ := perform_approvals (w := w) hop'
      rw [hx]
      cases hrow : w.approvalRow op with
      | nil =>
        rw [hrow, List.append_nil] at happ
        exact .inl ⟨happ, silent_called hop'⟩
      | cons a l =>
        obtain ⟨rfl, -, hnext, -⟩ := approvalRow_cons hrow
        rw [hrow] at happ
        exact .inr (.inr ⟨a, rfl, happ, hnext, silent_called hop'⟩)

end World

theorem Ledger.act (hl : Ledger h w) (a : World.Act) :
    Ledger (.acted a w :: h) (w.act a) := by
  cases a with
  | respond id granted reason => exact hl.respond id granted reason
  | enqueue new =>
    refine hl.other (silent_act (by simp)) ?_ (w.act_nextId _)
    simp only [World.act]
    split <;> rfl
  | _ => exact hl.other (silent_act (by simp)) rfl (w.act_nextId _)

theorem Ledger.exec (hl : Ledger h w) (op : Op) (refusal : Option ContainerError) :
    Ledger (.called op refusal w :: h) (w.exec op refusal).2 := by
  rcases w.exec_approvals op refusal with
    ⟨happ, hno⟩ | ⟨command, e, rfl, hx⟩ | ⟨a, hrow, happ, hnext, hno⟩
  · exact hl.other hno happ (w.exec_nextId op refusal)
  · rw [hx]
    exact hl.consume hx
  · obtain ⟨-, hid, -, hstate⟩ := World.approvalRow_cons hrow
    exact hl.append hno happ hid hnext hstate

theorem Ledger.skip (hl : Ledger h w) (hno : Silent ev) : Ledger (ev :: h) w :=
  hl.other hno rfl (le_refl _)

end Cdesktop
