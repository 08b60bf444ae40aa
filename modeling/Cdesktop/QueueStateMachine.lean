import Cdesktop.SessionCommand

namespace Cdesktop
set_option autoImplicit true

/-- The durable queue with the executions its statements consult. `claims` lists the
non-empty claims made so far, newest first, with the identifiers each one took. -/
structure Queue where
  commands : Commands
  executions : List ExecutionProcess
  claims : List (Uuid × List Uuid)

/-- One atomic transaction on the queue, or a change of an execution row by the rest of the system. -/
inductive QueueOp where
  | enqueue (new : NewSessionCommand) (id : Uuid) (now : Time)
  | cancel (sessionId id : Uuid) (now : Time)
  | cancelPending (sessionId : Uuid) (now : Time)
  | claimPending (sessionId : Uuid)
  | bindExecution (sessionId executionProcessId : Uuid)
  | releaseExecution (executionProcessId : Uuid)
  | releaseUnbound (sessionId : Uuid)
  | requeueExecution (executionProcessId : Uuid)
  | finishExecution (executionProcessId : Uuid) (succeeded : Bool) (now : Time)
  | insertExecution (p : ExecutionProcess)
  | updateCompletion (executionProcessId : Uuid) (status : ExecutionProcessStatus)
      (exitCode : Option Int) (now : Time)

namespace Queue
open SessionCommand

def step (q : Queue) : QueueOp → Queue
  | .enqueue new newId now =>
    match SessionCommand.enqueue q.commands new newId now with
    | some (commands, _, _) => { q with commands }
    | none => q
  | .cancel sessionId commandId now =>
    { q with commands := (SessionCommand.cancel q.executions q.commands sessionId commandId now).1 }
  | .cancelPending sessionId now =>
    { q with commands := SessionCommand.cancelPending q.commands sessionId now }
  | .claimPending sessionId =>
    let (commands, batch) := SessionCommand.claimPending q.commands sessionId
    { q with
      commands
      claims := if batch = [] then q.claims else (sessionId, batch.map (·.id)) :: q.claims }
  | .bindExecution sessionId executionProcessId =>
    match SessionCommand.bindExecution q.executions q.commands sessionId executionProcessId with
    | some (commands, _) => { q with commands }
    | none => q
  | .releaseExecution executionProcessId =>
    { q with commands := SessionCommand.releaseExecution q.commands executionProcessId }
  | .releaseUnbound sessionId =>
    { q with commands := (SessionCommand.releaseUnbound q.commands sessionId).1 }
  | .requeueExecution executionProcessId =>
    { q with
      commands := (SessionCommand.requeueExecution q.executions q.commands executionProcessId).1 }
  | .finishExecution executionProcessId succeeded now =>
    { q with
      commands := SessionCommand.finishExecution q.commands executionProcessId succeeded now }
  | .insertExecution p =>
    { q with executions := (ExecutionProcess.insert q.executions p).getD q.executions }
  | .updateCompletion executionProcessId status exitCode now =>
    { q with
      executions := ExecutionProcess.updateCompletion q.executions executionProcessId status
        exitCode now }

/-- Any sequence of operations; an interleaving of atomic transactions is one of these. -/
def run (q : Queue) (ops : List QueueOp) : Queue := ops.foldl step q

/-- A queue before its first command, beside whatever executions there are. -/
def start (executions : List ExecutionProcess) : Queue := ⟨[], executions, []⟩

def claimIds (q : Queue) (sessionId : Uuid) : List Uuid :=
  if q.commands.any (isClaimed sessionId) then []
  else (headBatch (pending q.commands sessionId)).map (·.id)

def selects (q : Queue) : QueueOp → SessionCommand → Bool
  | .enqueue new newId _, c =>
    dedupeConflict q.commands new = none ∧ ¬ q.commands.any (fun c => c.id = newId) ∧
      new.intent = .replace ∧ superseded new.sessionId newId c
  | .cancel sessionId commandId _, c => cancellable q.executions sessionId commandId c
  | .cancelPending sessionId _, c => isPending sessionId c
  | .claimPending sessionId, c => c.id ∈ q.claimIds sessionId ∧ c.state = .pending
  | .bindExecution sessionId e, c =>
    q.executions.any (fun p => p.id = e) ∧ isUnbound sessionId c
  | .releaseExecution e, c => isBoundTo e c
  | .releaseUnbound sessionId, c => isUnbound sessionId c
  | .requeueExecution e, c => requeueable q.executions e c
  | .finishExecution e _ _, c => isBoundTo e c
  | .insertExecution _, _ => false
  | .updateCompletion .., _ => false

def rewrites : QueueOp → SessionCommand → SessionCommand
  | .enqueue _ _ now => cancelWith now
  | .cancel _ _ now => cancelWith now
  | .cancelPending _ now => cancelWith now
  | .claimPending _ => claim
  | .bindExecution _ e => fun c => { c with executionProcessId := some e }
  | .releaseExecution _ => release
  | .releaseUnbound _ => fun c => { c with state := .pending }
  | .requeueExecution _ => requeue
  | .finishExecution _ succeeded now => finish succeeded now
  | .insertExecution _ => fun c => c
  | .updateCompletion .. => fun c => c

def inserts (q : Queue) : QueueOp → List SessionCommand
  | .enqueue new newId now =>
    if dedupeConflict q.commands new = none ∧ ¬ q.commands.any (fun c => c.id = newId) then
      [ofNew new newId now]
    else []
  | _ => []

theorem superseded_ofNew (new : NewSessionCommand) (id : Uuid) (now : Time) :
    superseded new.sessionId id (ofNew new id now) = false := by
  simp [superseded, ofNew]

theorem cancel_fst (ex : List ExecutionProcess) (t : Commands) (sessionId id : Uuid) (now : Time) :
    (SessionCommand.cancel ex t sessionId id now).1 =
      Table.update (cancellable ex sessionId id) (cancelWith now) t := by
  simp only [SessionCommand.cancel, cancelUpdate]
  cases t.find? (cancellable ex sessionId id) with
  | some c => rfl
  | none =>
    simp only [Option.map_none]
    split
    · rfl
    · split
      · rfl
      · split <;> rfl

theorem claimPending_fst (q : Queue) (sessionId : Uuid) :
    (SessionCommand.claimPending q.commands sessionId).1 =
      Table.update (q.selects (.claimPending sessionId)) claim q.commands := by
  simp only [SessionCommand.claimPending]
  split
  · rename_i h
    exact (Table.update_eq_self (by simp [selects, claimIds, h])).symm
  · rename_i h
    split
    · rename_i hp
      exact (Table.update_eq_self (by simp [selects, claimIds, h, hp, headBatch])).symm
    · rename_i first rest hp
      apply List.map_congr_left
      intro c _
      simp only [selects, claimIds, h, hp, Bool.false_eq_true, ↓reduceIte]

theorem step_commands (q : Queue) (op : QueueOp) :
    (q.step op).commands =
      Table.update (q.selects op) (rewrites op) q.commands ++ q.inserts op := by
  cases op with
  | enqueue new newId now =>
    simp only [step, SessionCommand.enqueue, inserts]
    cases hd : dedupeConflict q.commands new with
    | some existing =>
      simp only [reduceCtorEq, false_and, ↓reduceIte, List.append_nil]
      exact (Table.update_eq_self (by simp [selects, hd])).symm
    | none =>
      cases hid : q.commands.any (fun c => c.id = newId) with
      | true =>
        simp only [↓reduceIte, not_true_eq_false, and_false, List.append_nil]
        exact (Table.update_eq_self (by simp only [selects, hid]; simp)).symm
      | false =>
        simp only [Bool.false_eq_true, ↓reduceIte, not_false_eq_true, and_self]
        by_cases hr : new.intent = .replace
        · simp only [hr, ↓reduceIte, Table.update, List.map_append, List.map_cons, List.map_nil,
            superseded_ofNew, Bool.false_eq_true]
          congr 1
          apply List.map_congr_left
          intro c _
          simp [selects, hd, hid, hr, rewrites]
        · simp only [hr, ↓reduceIte]
          congr 1
          exact (Table.update_eq_self (by simp [selects, hr])).symm
  | cancel sessionId id now =>
    simp only [step, inserts, List.append_nil]
    exact cancel_fst _ _ _ _ _
  | claimPending sessionId =>
    simp only [step, inserts, List.append_nil]
    exact claimPending_fst q sessionId
  | bindExecution sessionId e =>
    simp only [step, SessionCommand.bindExecution, inserts, List.append_nil]
    cases he : q.executions.any (fun p => p.id = e) with
    | true =>
      simp only [not_true_eq_false, and_false, ↓reduceIte]
      apply List.map_congr_left
      intro c _
      simp [selects, he, rewrites]
    | false =>
      have hs : Table.update (q.selects (.bindExecution sessionId e))
          (rewrites (.bindExecution sessionId e)) q.commands = q.commands :=
        Table.update_eq_self (by simp only [selects, he]; simp)
      rw [hs]
      cases hu : q.commands.any (isUnbound sessionId) with
      | true => simp
      | false =>
        simp only [Bool.false_eq_true, false_and, ↓reduceIte]
        exact Table.update_eq_self (by simpa using hu)
  | insertExecution p =>
    simp only [step, inserts, List.append_nil]
    exact (Table.update_eq_self (by simp [selects])).symm
  | updateCompletion =>
    simp only [step, inserts, List.append_nil]
    exact (Table.update_eq_self (by simp [selects])).symm
  | _ => simp only [step, inserts, List.append_nil]; rfl

variable {q : Queue} {op : QueueOp} {c : SessionCommand}

theorem mem_step :
    c ∈ (q.step op).commands ↔
      (∃ c₀ ∈ q.commands, q.selects op c₀ = true ∧ rewrites op c₀ = c) ∨
        (c ∈ q.commands ∧ q.selects op c = false) ∨ c ∈ q.inserts op := by
  rw [step_commands, List.mem_append, Table.mem_update, or_assoc]

@[simp] theorem rewrites_id (op : QueueOp) (c : SessionCommand) : (rewrites op c).id = c.id := by
  cases op <;> rfl

@[simp] theorem rewrites_sessionId (op : QueueOp) (c : SessionCommand) :
    (rewrites op c).sessionId = c.sessionId := by
  cases op <;> rfl

@[simp] theorem rewrites_dedupeKey (op : QueueOp) (c : SessionCommand) :
    (rewrites op c).dedupeKey = c.dedupeKey := by
  cases op <;> rfl

@[simp] theorem rewrites_config (op : QueueOp) (c : SessionCommand) :
    (rewrites op c).config = c.config := by
  cases op <;> rfl

theorem inserts_eq (h : c ∈ q.inserts op) :
    ∃ new newId now, c = ofNew new newId now ∧ dedupeConflict q.commands new = none ∧
      ∀ c' ∈ q.commands, c'.id ≠ newId := by
  cases op with
  | enqueue new newId now =>
    simp only [inserts] at h
    split at h
    · rename_i hc
      refine ⟨new, newId, now, by simpa using h, hc.1, ?_⟩
      simpa using hc.2
    · cases h
  | _ => cases h

theorem selects_settled (h : c.state = .done ∨ c.state = .cancelled) : q.selects op c = false := by
  rcases h with h | h <;>
    cases op <;>
      simp [selects, superseded, cancellable, isPending, isUnbound, isBoundTo, requeueable, h]

structure RowOk (c : SessionCommand) : Prop where
  pending : c.state = .pending → c.executionProcessId = none ∧ c.finishedAt = none
  claimed : c.state = .claimed → c.finishedAt = none
  finished : c.state = .done ∨ c.state = .failed ∨ c.state = .cancelled → c.finishedAt ≠ none

theorem RowOk.ofNew (new : NewSessionCommand) (newId : Uuid) (now : Time) :
    RowOk (SessionCommand.ofNew new newId now) :=
  ⟨fun _ => ⟨rfl, rfl⟩, fun _ => rfl, fun h => by simp [SessionCommand.ofNew] at h⟩

theorem RowOk.rewrites (hc : RowOk c) (hs : q.selects op c = true) : RowOk (rewrites op c) := by
  cases op with
  | enqueue | cancel | cancelPending =>
    exact ⟨fun h => by simp [Queue.rewrites, cancelWith] at h,
      fun h => by simp [Queue.rewrites, cancelWith] at h,
      fun _ => by simp [Queue.rewrites, cancelWith]⟩
  | claimPending =>
    simp only [selects, decide_eq_true_eq] at hs
    exact ⟨fun h => by simp [Queue.rewrites, claim] at h, fun _ => (hc.pending hs.2).2,
      fun h => by simp [Queue.rewrites, claim] at h⟩
  | bindExecution sessionId e =>
    simp only [selects, isUnbound, Bool.decide_and, Bool.and_eq_true, decide_eq_true_eq] at hs
    have hcl : c.state = .claimed := hs.2.2.1
    exact ⟨fun h => by simp [Queue.rewrites, hcl] at h, fun _ => hc.claimed hcl,
      fun h => by simp [Queue.rewrites, hcl] at h⟩
  | releaseExecution e =>
    simp only [selects, isBoundTo, decide_eq_true_eq] at hs
    exact ⟨fun _ => ⟨rfl, hc.claimed hs.2⟩, fun h => by simp [Queue.rewrites, release] at h,
      fun h => by simp [Queue.rewrites, release] at h⟩
  | releaseUnbound sessionId =>
    simp only [selects, isUnbound, decide_eq_true_eq] at hs
    exact ⟨fun _ => ⟨hs.2.2, hc.claimed hs.2.1⟩, fun h => by simp [Queue.rewrites] at h,
      fun h => by simp [Queue.rewrites] at h⟩
  | requeueExecution e =>
    exact ⟨fun _ => ⟨rfl, rfl⟩, fun h => by simp [Queue.rewrites, requeue] at h,
      fun h => by simp [Queue.rewrites, requeue] at h⟩
  | finishExecution e succeeded now =>
    refine ⟨fun h => ?_, fun h => ?_, fun _ => by simp [Queue.rewrites, finish]⟩ <;>
      cases succeeded <;> simp [Queue.rewrites, finish] at h
  | insertExecution | updateCompletion => exact hc

def claimsOf (q : Queue) (id : Uuid) : Nat := q.claims.countP fun cl => id ∈ cl.2

def lastClaim (q : Queue) (sessionId : Uuid) : Option (List Uuid) :=
  (q.claims.find? fun cl => cl.1 = sessionId).map (·.2)

structure Inv (q : Queue) : Prop where
  ids : (q.commands.map (·.id)).Nodup
  keys : ∀ c ∈ q.commands, ∀ c' ∈ q.commands, c.sessionId = c'.sessionId →
    c.dedupeKey = c'.dedupeKey → c.dedupeKey ≠ none → c = c'
  rows : ∀ c ∈ q.commands, RowOk c
  known : ∀ cl ∈ q.claims, ∀ i ∈ cl.2, ∃ c ∈ q.commands, c.id = i
  attempts : ∀ c ∈ q.commands, c.attemptNumber = q.claimsOf c.id
  oneClaim : ∀ c ∈ q.commands, c.state = .claimed →
    ∃ ids, q.lastClaim c.sessionId = some ids ∧ c.id ∈ ids
  sameExecution : ∀ c ∈ q.commands, ∀ c' ∈ q.commands, c.state = .claimed → c'.state = .claimed →
    c.sessionId = c'.sessionId → c.executionProcessId = c'.executionProcessId

theorem headBatch_leads (l : List SessionCommand) : headBatch l <+: l := by
  cases l with
  | nil => exact List.prefix_rfl
  | cons a l => exact List.takeWhile_prefix _

theorem headBatch_sublist (t : Commands) (sessionId : Uuid) :
    (headBatch (pending t sessionId)).Sublist t :=
  (headBatch_leads _).sublist.trans List.filter_sublist

theorem headBatch_isPending {t : Commands} {sessionId : Uuid}
    (h : c ∈ headBatch (pending t sessionId)) : c.sessionId = sessionId ∧ c.state = .pending := by
  have hp := List.of_mem_filter ((headBatch_leads _).subset h)
  simpa [isPending] using hp

theorem Inv.mem_claimIds (hi : Inv q) (hc : c ∈ q.commands)
    {sessionId : Uuid} (h : c.id ∈ q.claimIds sessionId) :
    q.commands.any (isClaimed sessionId) = false ∧ c ∈ headBatch (pending q.commands sessionId) ∧
      c.sessionId = sessionId ∧ c.state = .pending := by
  simp only [claimIds] at h
  split at h
  · cases h
  · rename_i hcl
    simp only [List.mem_map] at h
    obtain ⟨c', hc', he⟩ := h
    have heq : c' = c :=
      Table.eq_of_key hi.ids ((headBatch_sublist _ _).subset hc') hc he
    subst c'
    exact ⟨by simpa using hcl, hc', headBatch_isPending hc'⟩

theorem Inv.claimPending_snd (hi : Inv q) (sessionId : Uuid) :
    (SessionCommand.claimPending q.commands sessionId).2 =
      if q.commands.any (isClaimed sessionId) then []
      else (headBatch (pending q.commands sessionId)).map claim := by
  simp only [SessionCommand.claimPending]
  split
  · rfl
  · rename_i hcl
    have hsub := headBatch_sublist q.commands sessionId
    split
    · rename_i hp
      simp [hp, headBatch]
    · rename_i first rest hp
      rw [← hp]
      have hmem (c : SessionCommand) (hc : c ∈ q.commands)
          (h : c.id ∈ (headBatch (pending q.commands sessionId)).map (·.id)) :
          c.sessionId = sessionId ∧ c.state = .pending := by
        obtain ⟨c', hc', he⟩ := List.mem_map.1 h
        have heq : c' = c := Table.eq_of_key hi.ids (hsub.subset hc') hc he
        subst c'
        exact headBatch_isPending hc'
      dsimp only
      rw [Table.filter_update]
      · congr 1
        refine (List.filter_congr fun c hc => ?_).trans (Table.filter_key_eq hsub hi.ids)
        by_cases h : c.id ∈ (headBatch (pending q.commands sessionId)).map (·.id)
        · simp only [h, (hmem c hc h).2, and_self, decide_true]
        · simp only [h, false_and]
      · intro c hc hp
        simp only [decide_eq_true_eq] at hp
        obtain ⟨hs, hst⟩ := hmem c hc hp.1
        simp [isUnbound, claim, hs, (hi.rows c hc).pending hst]
      · intro c hc _
        simp only [Bool.not_eq_true, List.any_eq_false] at hcl
        have hn := hcl c hc
        simp only [isClaimed, decide_eq_false_iff_not, not_and] at hn
        simp only [isUnbound, decide_eq_false_iff_not, not_and]
        exact fun hs hst => absurd hst (hn hs)

def newClaims (q : Queue) : QueueOp → List (Uuid × List Uuid)
  | .claimPending sessionId =>
    if q.claimIds sessionId = [] then [] else [(sessionId, q.claimIds sessionId)]
  | _ => []

theorem Inv.step_claims (hi : Inv q) (op : QueueOp) :
    (q.step op).claims = q.newClaims op ++ q.claims := by
  cases op with
  | claimPending sessionId =>
    simp only [step, newClaims, claimIds]
    rw [hi.claimPending_snd]
    by_cases hcl : q.commands.any (isClaimed sessionId) = true
    · simp [hcl]
    · simp only [hcl, Bool.false_eq_true, ↓reduceIte, List.map_eq_nil_iff]
      split
      · rfl
      · simp only [List.map_map, List.cons_append, List.nil_append]
        rfl
  | enqueue new newId now =>
    simp only [step]
    split <;> rfl
  | bindExecution sessionId e =>
    simp only [step]
    split <;> rfl
  | _ => rfl

theorem newClaims_count (q : Queue) (sessionId i : Uuid) :
    (q.newClaims (.claimPending sessionId)).countP (fun cl => i ∈ cl.2) =
      if i ∈ q.claimIds sessionId then 1 else 0 := by
  simp only [newClaims]
  split
  · rename_i h
    simp [h]
  · simp

theorem mem_newClaims {cl : Uuid × List Uuid} (h : cl ∈ q.newClaims op) :
    ∃ sessionId, op = .claimPending sessionId ∧ cl = (sessionId, q.claimIds sessionId) := by
  cases op with
  | claimPending sessionId =>
    simp only [newClaims] at h
    split at h
    · cases h
    · exact ⟨sessionId, rfl, by simpa using h⟩
  | _ => cases h

theorem claimed_of_rewrites (hs : q.selects op c = true) (h : (rewrites op c).state = .claimed) :
    (∃ sessionId, op = .claimPending sessionId) ∨ ∃ sessionId e, op = .bindExecution sessionId e := by
  cases op with
  | claimPending sessionId => exact .inl ⟨_, rfl⟩
  | bindExecution sessionId e => exact .inr ⟨_, _, rfl⟩
  | enqueue | cancel | cancelPending => simp [rewrites, cancelWith] at h
  | releaseExecution => simp [rewrites, release] at h
  | releaseUnbound => simp [rewrites] at h
  | requeueExecution => simp [rewrites, requeue] at h
  | finishExecution e succeeded => cases succeeded <;> simp [rewrites, finish] at h
  | insertExecution | updateCompletion => simp [selects] at hs

def spends : QueueOp → Nat
  | .claimPending _ => 1
  | _ => 0

theorem rewrites_attemptNumber (op : QueueOp) (c : SessionCommand) :
    (rewrites op c).attemptNumber = c.attemptNumber + spends op := by
  cases op <;> rfl

theorem step_ids (hids : (q.commands.map (·.id)).Nodup) (op : QueueOp) :
    ((q.step op).commands.map (·.id)).Nodup := by
  rw [step_commands, List.map_append, Table.update_map (·.id) (fun c _ _ => rewrites_id op c)]
  cases hn : q.inserts op with
  | nil => simpa using hids
  | cons c l =>
    obtain ⟨new, newId, now, rfl, -, hid⟩ := inserts_eq (hn ▸ List.mem_cons_self)
    have hl : l = [] := by
      cases op with
      | enqueue =>
        simp only [inserts] at hn
        split at hn <;> simp_all
      | _ => cases hn
    subst l
    simp only [List.map_cons, List.map_nil, List.nodup_append, hids, List.nodup_singleton,
      true_and]
    rintro i hm j hj rfl
    obtain ⟨c, hc, rfl⟩ := List.mem_map.1 hm
    exact hid c hc (by simpa [ofNew] using hj)

theorem dedupeConflict_none {t : Commands} {new : NewSessionCommand}
    (h : dedupeConflict t new = none) (hc : c ∈ t)
    (hs : c.sessionId = new.sessionId) (hk : c.dedupeKey = new.dedupeKey) : c.dedupeKey = none := by
  simp only [dedupeConflict] at h
  cases hn : new.dedupeKey with
  | none => rw [hk, hn]
  | some key =>
    simp only [hn, List.find?_eq_none] at h
    have := h c hc
    simp [hs, hk, hn] at this

theorem mem_step_old (hc : c ∈ (q.step op).commands) :
    (∃ c₀ ∈ q.commands, c₀.id = c.id ∧ c₀.sessionId = c.sessionId ∧ c₀.dedupeKey = c.dedupeKey) ∨
      c ∈ q.inserts op := by
  rcases mem_step.1 hc with ⟨c₀, hc₀, -, rfl⟩ | ⟨hc, -⟩ | hc
  · exact .inl ⟨c₀, hc₀, by simp⟩
  · exact .inl ⟨c, hc, rfl, rfl, rfl⟩
  · exact .inr hc

theorem Inv.step_keys (hi : Inv q) (op : QueueOp) :
    ∀ c ∈ (q.step op).commands, ∀ c' ∈ (q.step op).commands, c.sessionId = c'.sessionId →
      c.dedupeKey = c'.dedupeKey → c.dedupeKey ≠ none → c = c' := by
  intro c hc c' hc' hs hk hn
  apply Table.eq_of_key (step_ids hi.ids op) hc hc'
  rcases mem_step_old hc with ⟨d, hd, hid, hds, hdk⟩ | hnew
  · rcases mem_step_old hc' with ⟨d', hd', hid', hds', hdk'⟩ | hnew'
    · have heq : d = d' := hi.keys d hd d' hd' (by rw [hds, hds', hs]) (by rw [hdk, hdk', hk])
        (by rw [hdk]; exact hn)
      rw [← hid, ← hid', heq]
    · obtain ⟨new, newId, now, rfl, hconf, -⟩ := inserts_eq hnew'
      have hno := dedupeConflict_none hconf hd (hds.trans hs) (hdk.trans hk)
      exact absurd (hdk ▸ hno) hn
  · obtain ⟨new, newId, now, rfl, hconf, -⟩ := inserts_eq hnew
    rcases mem_step_old hc' with ⟨d', hd', hid', hds', hdk'⟩ | hnew'
    · have hno := dedupeConflict_none hconf hd' (hds'.trans hs.symm) (hdk'.trans hk.symm)
      exact absurd (hk.trans (hdk' ▸ hno)) hn
    · cases op with
      | enqueue new₀ newId₀ now₀ =>
        simp only [inserts] at hnew hnew'
        split at hnew
        · rename_i hcond
          rw [if_pos hcond, List.mem_singleton] at hnew'
          rw [List.mem_singleton.1 hnew, hnew']
        · cases hnew
      | _ => cases hnew

theorem Inv.step_rows (hi : Inv q) (op : QueueOp) :
    ∀ c ∈ (q.step op).commands, RowOk c := by
  intro c hc
  rcases mem_step.1 hc with ⟨c₀, hc₀, hs, rfl⟩ | ⟨hc, -⟩ | hc
  · exact (hi.rows c₀ hc₀).rewrites hs
  · exact hi.rows c hc
  · obtain ⟨new, newId, now, rfl, -, -⟩ := inserts_eq hc
    exact .ofNew new newId now

theorem step_id (hc : c ∈ q.commands) :
    ∃ c' ∈ (q.step op).commands, c'.id = c.id := by
  cases hs : q.selects op c with
  | true => exact ⟨rewrites op c, mem_step.2 (.inl ⟨c, hc, hs, rfl⟩), by simp⟩
  | false => exact ⟨c, mem_step.2 (.inr (.inl ⟨hc, hs⟩)), rfl⟩

section
variable (hi : Inv q)
include hi

theorem Inv.step_known (op : QueueOp) :
    ∀ cl ∈ (q.step op).claims, ∀ i ∈ cl.2, ∃ c ∈ (q.step op).commands, c.id = i := by
  intro cl hcl i hm
  have hold : ∃ c ∈ q.commands, c.id = i := by
    rw [hi.step_claims, List.mem_append] at hcl
    rcases hcl with hcl | hcl
    · obtain ⟨sessionId, -, rfl⟩ := mem_newClaims hcl
      simp only [claimIds] at hm
      split at hm
      · cases hm
      · obtain ⟨c, hc, rfl⟩ := List.mem_map.1 hm
        exact ⟨c, (headBatch_sublist _ _).subset hc, rfl⟩
    · exact hi.known cl hcl i hm
  obtain ⟨c, hc, rfl⟩ := hold
  exact step_id hc

theorem Inv.step_claimsOf (op : QueueOp) (i : Uuid) :
    (q.step op).claimsOf i =
      q.claimsOf i + (q.newClaims op).countP fun cl => i ∈ cl.2 := by
  simp only [claimsOf, hi.step_claims, List.countP_append]
  omega

theorem Inv.step_attempts (op : QueueOp) :
    ∀ c ∈ (q.step op).commands, c.attemptNumber = (q.step op).claimsOf c.id := by
  intro c hc
  rw [hi.step_claimsOf]
  rcases mem_step.1 hc with ⟨c₀, hc₀, hs, rfl⟩ | ⟨hold, hs⟩ | hc
  · rw [rewrites_attemptNumber, rewrites_id, hi.attempts c₀ hc₀]
    congr 1
    cases op with
    | claimPending sessionId =>
      simp only [selects, decide_eq_true_eq] at hs
      rw [newClaims_count, if_pos hs.1]
      rfl
    | _ => rfl
  · rw [hi.attempts c hold]
    cases op with
    | claimPending sessionId =>
      have hnot : c.id ∉ q.claimIds sessionId := by
        intro hm
        have hp := (hi.mem_claimIds hold hm).2.2.2
        simp [selects, hm, hp] at hs
      rw [newClaims_count, if_neg hnot]
      rfl
    | _ => rfl
  · obtain ⟨new, newId, now, rfl, -, hid⟩ := inserts_eq hc
    have hzero : q.claimsOf newId = 0 := by
      refine List.countP_eq_zero.2 fun cl hcl hm => ?_
      obtain ⟨d, hd, he⟩ := hi.known cl hcl newId (of_decide_eq_true hm)
      exact hid d hd he
    cases op with
    | enqueue => simpa [newClaims, ofNew] using hzero.symm
    | _ => cases hc

theorem Inv.step_lastClaim (op : QueueOp) (s : Uuid) :
    (q.step op).lastClaim s =
      (((q.newClaims op).find? fun cl => cl.1 = s).map (·.2)).or (q.lastClaim s) := by
  simp only [lastClaim, hi.step_claims, List.find?_append]
  cases (q.newClaims op).find? fun cl => cl.1 = s <;> simp

/-- A claimed row was claimed before the step, or the step is the claim or the bind that wrote it. -/
theorem Inv.claimed_cases (hc : c ∈ (q.step op).commands) (hst : c.state = .claimed) :
    (c ∈ q.commands ∧ q.selects op c = false) ∨
      (∃ sessionId, op = .claimPending sessionId ∧ c.sessionId = sessionId ∧
        c.id ∈ q.claimIds sessionId ∧ q.commands.any (isClaimed sessionId) = false ∧
        c.executionProcessId = none) ∨
      ∃ sessionId e, op = .bindExecution sessionId e ∧ c.sessionId = sessionId ∧
        c.executionProcessId = some e ∧ q.executions.any (fun p => p.id = e) = true ∧
        ∃ c₀ ∈ q.commands, c₀.state = .claimed ∧ c₀.executionProcessId = none ∧ c₀.id = c.id ∧
          c₀.sessionId = c.sessionId := by
  rcases mem_step.1 hc with ⟨c₀, hc₀, hs, rfl⟩ | hc | hc
  · right
    rcases claimed_of_rewrites hs hst with ⟨sessionId, rfl⟩ | ⟨sessionId, e, rfl⟩
    · simp only [selects, decide_eq_true_eq] at hs
      obtain ⟨hno, -, hss, -⟩ := hi.mem_claimIds hc₀ hs.1
      exact .inl ⟨sessionId, rfl, hss, hs.1, hno, ((hi.rows c₀ hc₀).pending hs.2).1⟩
    · simp only [selects, isUnbound, Bool.decide_and, Bool.and_eq_true, decide_eq_true_eq] at hs
      exact .inr ⟨sessionId, e, rfl, hs.2.1, rfl, by simpa using hs.1, c₀, hc₀, hs.2.2.1, hs.2.2.2,
        rfl, rfl⟩
  · exact .inl hc
  · obtain ⟨new, newId, now, rfl, -, -⟩ := inserts_eq hc
    simp [ofNew] at hst

theorem Inv.lastClaim_of_claimed (op : QueueOp) (hc : c ∈ q.commands) (hst : c.state = .claimed) :
    (q.step op).lastClaim c.sessionId = q.lastClaim c.sessionId := by
  rw [hi.step_lastClaim]
  have hnone : (q.newClaims op).find? (fun cl => cl.1 = c.sessionId) = none := by
    rw [List.find?_eq_none]
    intro cl hcl he
    have hss : cl.1 = c.sessionId := of_decide_eq_true he
    obtain ⟨sessionId, rfl, rfl⟩ := mem_newClaims hcl
    have hcl' : q.commands.any (isClaimed sessionId) = true :=
      List.any_eq_true.2 ⟨c, hc, by simp [isClaimed, hst, ← hss]⟩
    simp [newClaims, claimIds, hcl'] at hcl
  rw [hnone]
  rfl

theorem Inv.step_oneClaim (op : QueueOp) :
    ∀ c ∈ (q.step op).commands, c.state = .claimed →
      ∃ ids, (q.step op).lastClaim c.sessionId = some ids ∧ c.id ∈ ids := by
  intro c hc hst
  rcases hi.claimed_cases hc hst with ⟨hc, -⟩ | ⟨sessionId, rfl, hss, hm, -, -⟩ |
    ⟨sessionId, e, rfl, -, -, -, c₀, hc₀, hst₀, -, hid, hss⟩
  · rw [hi.lastClaim_of_claimed op hc hst]
    exact hi.oneClaim c hc hst
  · refine ⟨q.claimIds sessionId, ?_, hm⟩
    rw [hi.step_lastClaim, newClaims, if_neg (List.ne_nil_of_mem hm)]
    simp [hss]
  · rw [← hss, ← hid, hi.lastClaim_of_claimed _ hc₀ hst₀]
    exact hi.oneClaim c₀ hc₀ hst₀

theorem Inv.step_sameExecution (op : QueueOp) :
    ∀ c ∈ (q.step op).commands, ∀ c' ∈ (q.step op).commands, c.state = .claimed →
      c'.state = .claimed → c.sessionId = c'.sessionId →
      c.executionProcessId = c'.executionProcessId := by
  intro c hc c' hc' hst hst' hss
  -- a bind writes every unbound claimed row of its session, so it cannot split the batch
  have hbind (d d' : SessionCommand) (hd : d ∈ q.commands) (hdst : d.state = .claimed)
      (hds : q.selects op d = false) (sessionId e : Uuid) (hop : op = .bindExecution sessionId e)
      (hs : d'.sessionId = sessionId) (hex : q.executions.any (fun p => p.id = e) = true)
      (hd' : ∃ c₀ ∈ q.commands, c₀.state = .claimed ∧ c₀.executionProcessId = none ∧
        c₀.id = d'.id ∧ c₀.sessionId = d'.sessionId) (hsd : d.sessionId = d'.sessionId) : False := by
    obtain ⟨c₀, hc₀, hst₀, hnone, -, hss₀⟩ := hd'
    have he := hi.sameExecution d hd c₀ hc₀ hdst hst₀ (hsd.trans hss₀.symm)
    subst hop
    have hun : isUnbound sessionId d = true := by
      simp [isUnbound, hdst, he, hnone, hsd, hs]
    simp only [selects, hex, hun] at hds
    simp at hds
  rcases hi.claimed_cases hc hst with ⟨hc, hs⟩ | ⟨sessionId, rfl, hse, -, hno, he⟩ |
    ⟨sessionId, e, hop, hse, he, hex, hold⟩ <;>
  rcases hi.claimed_cases hc' hst' with ⟨hc', hs'⟩ | ⟨sessionId', hop', hse', -, hno', he'⟩ |
    ⟨sessionId', e', hop', hse', he', hex', hold'⟩
  · exact hi.sameExecution c hc c' hc' hst hst' hss
  · have hcl : q.commands.any (isClaimed sessionId') = true :=
      List.any_eq_true.2 ⟨c, hc, by simp [isClaimed, hst, hss, hse']⟩
    rw [hcl] at hno'
    cases hno'
  · exact (hbind c c' hc hst hs sessionId' e' hop' hse' hex' hold' hss).elim
  · have hcl : q.commands.any (isClaimed sessionId) = true :=
      List.any_eq_true.2 ⟨c', hc', by simp [isClaimed, hst', ← hss, hse]⟩
    rw [hcl] at hno
    cases hno
  · rw [he, he']
  · cases hop'
  · exact (hbind c' c hc' hst' hs' sessionId e hop hse hex hold hss.symm).elim
  · cases hop.symm.trans hop'
  · cases hop.symm.trans hop'
    rw [he, he']

theorem Inv.step (op : QueueOp) : Inv (q.step op) :=
  ⟨step_ids hi.ids op, hi.step_keys op, hi.step_rows op, hi.step_known op, hi.step_attempts op,
    hi.step_oneClaim op, hi.step_sameExecution op⟩

theorem Inv.run (ops : List QueueOp) : Inv (q.run ops) := by
  induction ops generalizing q with
  | nil => exact hi
  | cons op ops ih => exact ih (hi.step op)

end

theorem start_inv (ex : List ExecutionProcess) : Inv (start ex) := by
  constructor <;> simp [start]

theorem run_settled (ops : List QueueOp) (hc : c ∈ q.commands)
    (hst : c.state = .done ∨ c.state = .cancelled) : c ∈ (q.run ops).commands := by
  induction ops generalizing q with
  | nil => exact hc
  | cons op ops ih => exact ih (mem_step.2 (.inr (.inl ⟨hc, selects_settled hst⟩)))

theorem Inv.enqueue_existing (hi : Inv q) {new : NewSessionCommand}
    (hc : c ∈ q.commands) (hs : c.sessionId = new.sessionId) (hk : c.dedupeKey = new.dedupeKey)
    (hn : c.dedupeKey ≠ none) (newId : Uuid) (now : Time) :
    SessionCommand.enqueue q.commands new newId now = some (q.commands, c, false) := by
  have hconf : dedupeConflict q.commands new = some c := by
    cases hnew : new.dedupeKey with
    | none => exact absurd (hk.trans hnew) hn
    | some key =>
      simp only [dedupeConflict, hnew]
      cases hf : q.commands.find? fun d => d.sessionId = new.sessionId ∧ d.dedupeKey = some key with
      | none =>
        rw [List.find?_eq_none] at hf
        exact absurd (by simp [hs, hk, hnew]) (hf c hc)
      | some d =>
        have hd := List.find?_some hf
        simp only [decide_eq_true_eq] at hd
        have hdk : d.dedupeKey = c.dedupeKey := hd.2.trans (hnew.symm.trans hk.symm)
        rw [hi.keys d (List.mem_of_find?_eq_some hf) c hc (hd.1.trans hs.symm) hdk (hdk ▸ hn)]
  simp only [SessionCommand.enqueue, hconf]

/-- The longest leading run of `l` that shares the configuration of its head. -/
def IsHeadBatch (batch l : List SessionCommand) : Prop :=
  ∃ rest, l = batch ++ rest ∧
    ∀ first, l.head? = some first → (∀ c ∈ batch, c.config = first.config) ∧
      ∀ c, rest.head? = some c → c.config ≠ first.config

theorem headBatch_isHeadBatch (l : List SessionCommand) : IsHeadBatch (headBatch l) l := by
  cases l with
  | nil => exact ⟨[], rfl, fun first h => by cases h⟩
  | cons a l =>
    refine ⟨(a :: l).dropWhile fun c => c.config = a.config, ?_, ?_⟩
    · simp only [headBatch, List.takeWhile_append_dropWhile]
    · intro first hf
      cases hf
      constructor
      · intro c hc
        have hp := List.mem_takeWhile_imp hc
        simpa using hp
      · intro c hc
        have hp := List.head?_dropWhile_not (fun c => decide (c.config = a.config)) (a :: l)
        simp only [hc] at hp
        simpa using hp

def settles : QueueOp → Option Uuid
  | .releaseExecution e | .requeueExecution e | .finishExecution e _ _ => some e
  | _ => none

theorem step_settles {e : Uuid} (hop : settles op = some e)
    (hc : c ∈ q.commands) (he : c.executionProcessId ≠ some e) :
    c ∈ (q.step op).commands := by
  refine mem_step.2 (.inr (.inl ⟨hc, ?_⟩))
  cases op with
  | releaseExecution | requeueExecution | finishExecution =>
    simp only [settles, Option.some.injEq] at hop
    subst hop
    simp [selects, isBoundTo, requeueable, he]
  | _ => cases hop

theorem Inv.key_unique (hi : Inv q) (s : Uuid) (key : String) :
    (q.commands.filter fun c => c.sessionId = s ∧ c.dedupeKey = some key).length ≤ 1 := by
  apply Table.length_filter_le_one (List.Nodup.of_map _ hi.ids)
  intro c hc c' hc' hp hp'
  simp only [decide_eq_true_eq] at hp hp'
  exact hi.keys c hc c' hc' (hp.1.trans hp'.1.symm) (hp.2.trans hp'.2.symm) (by rw [hp.2]; simp)

theorem Inv.claimPending_head (hi : Inv q) (s : Uuid) :
    (q.commands.any (isClaimed s) = true ∧ (SessionCommand.claimPending q.commands s).2 = []) ∨
      (q.commands.any (isClaimed s) = false ∧ ∃ batch, IsHeadBatch batch (pending q.commands s) ∧
        (SessionCommand.claimPending q.commands s).2 = batch.map claim) := by
  have hsnd := hi.claimPending_snd s
  cases hcl : q.commands.any (isClaimed s) with
  | true => exact .inl ⟨rfl, by simpa [hcl] using hsnd⟩
  | false => exact .inr ⟨rfl, _, headBatch_isHeadBatch _, by simpa [hcl] using hsnd⟩

/-- The state machine of session commands, over every sequence of its transactions. -/
theorem run_state_machine (ex : List ExecutionProcess) (ops : List QueueOp) :
    let q := (start ex).run ops
    (∀ more, ∀ c ∈ q.commands, c.state = .done ∨ c.state = .cancelled →
      c ∈ (q.run more).commands) ∧
    (∀ s key, (q.commands.filter fun c => c.sessionId = s ∧ c.dedupeKey = some key).length ≤ 1) ∧
    (∀ c ∈ q.commands, ∀ new newId now, c.sessionId = new.sessionId →
      c.dedupeKey = new.dedupeKey → c.dedupeKey ≠ none →
      SessionCommand.enqueue q.commands new newId now = some (q.commands, c, false)) ∧
    (∀ c ∈ q.commands,
      (c.state = .pending → c.executionProcessId = none ∧ c.finishedAt = none) ∧
      (c.state = .done ∨ c.state = .failed ∨ c.state = .cancelled → c.finishedAt ≠ none) ∧
      c.attemptNumber = q.claimsOf c.id) ∧
    (∀ c ∈ q.commands, ∀ c' ∈ q.commands, c.state = .claimed → c'.state = .claimed →
      c.sessionId = c'.sessionId → c.executionProcessId = c'.executionProcessId ∧
        ∃ ids, q.lastClaim c.sessionId = some ids ∧ c.id ∈ ids ∧ c'.id ∈ ids) ∧
    (∀ s, (q.commands.any (isClaimed s) = true ∧
        (SessionCommand.claimPending q.commands s).2 = []) ∨
      (q.commands.any (isClaimed s) = false ∧ ∃ batch, IsHeadBatch batch (pending q.commands s) ∧
        (SessionCommand.claimPending q.commands s).2 = batch.map claim)) ∧
    (∀ op e, settles op = some e → ∀ c ∈ q.commands, c.executionProcessId ≠ some e →
      c ∈ (q.step op).commands) := by
  have hi := (start_inv ex).run ops
  refine ⟨fun more c hc hst => run_settled more hc hst, hi.key_unique,
    fun c hc new newId now hs hk hn => hi.enqueue_existing hc hs hk hn newId now, ?_, ?_,
    hi.claimPending_head, fun op e hop c hc he => step_settles hop hc he⟩
  · intro c hc
    exact ⟨(hi.rows c hc).pending, (hi.rows c hc).finished, hi.attempts c hc⟩
  · intro c hc c' hc' hst hst' hss
    obtain ⟨ids, hids, hm⟩ := hi.oneClaim c hc hst
    obtain ⟨ids', hids', hm'⟩ := hi.oneClaim c' hc' hst'
    have hsame : ids' = ids := by
      rw [← hss, hids] at hids'
      exact (Option.some.inj hids').symm
    exact ⟨hi.sameExecution c hc c' hc' hst hst' hss, ids, hids, hm, hsame ▸ hm'⟩

end Queue
end Cdesktop
