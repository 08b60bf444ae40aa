import Cdesktop.SessionCommand

namespace Cdesktop
set_option autoImplicit true

inductive MeteredApprovalState where
  | pending | approved | denied | autoStarted | blocked
deriving DecidableEq

structure MeteredApproval where
  id : Uuid
  sessionCommandId : Uuid
  policy : MeteredApprovalPolicy
  state : MeteredApprovalState
  accountAlias : Option String
  reason : Option String
  executionProcessId : Option Uuid
  createdAt : Time
  resolvedAt : Option Time

inductive MeteredGateDecision where
  | proceed | awaitApproval | blocked
deriving DecidableEq

abbrev Approvals := List MeteredApproval

namespace MeteredApproval

def routesExhaustedReason : String := "routes_exhausted"

def forCommand (t : Approvals) (sessionCommandId : Uuid) : List MeteredApproval :=
  t.filter fun a => a.sessionCommandId = sessionCommandId

def findLatestForCommand (t : Approvals) (sessionCommandId : Uuid) : Option MeteredApproval :=
  (forCommand t sessionCommandId).getLast?

/-- Awaiting a response, or granted and not yet spent. -/
def isOpen (a : MeteredApproval) : Bool :=
  a.state = .pending ∨ (a.state = .approved ∧ a.executionProcessId = none)

/-- The decision the latest row of an `ask` command carries, if it carries one. -/
def decision : Option MeteredApproval → Option MeteredGateDecision
  | none => none
  | some latest =>
    if latest.state = .pending then some .awaitApproval
    else if latest.state = .approved ∧ latest.executionProcessId = none then some .proceed
    else if latest.state = .denied then some .blocked
    else none

/-- `ON CONFLICT … DO NOTHING` on the index over open questions. -/
def ensurePending (t : Approvals) (id sessionCommandId : Uuid) (accountAlias : Option String)
    (now : Time) : Approvals :=
  if t.any (fun a => a.sessionCommandId = sessionCommandId ∧ a.state = .pending) then t
  else
    t ++ [{ id, sessionCommandId, policy := .ask, state := .pending, accountAlias, reason := none,
            executionProcessId := none, createdAt := now, resolvedAt := none }]

def ensureBlocked (t : Approvals) (id sessionCommandId : Uuid) (accountAlias : Option String)
    (now : Time) : Approvals :=
  if t.any (fun a => a.sessionCommandId = sessionCommandId ∧ a.state = .blocked) then t
  else
    t ++ [{ id, sessionCommandId, policy := .never, state := .blocked, accountAlias,
            reason := some routesExhaustedReason, executionProcessId := none, createdAt := now,
            resolvedAt := some now }]

def respondable (id : Uuid) (a : MeteredApproval) : Bool :=
  a.id = id ∧ a.state = .pending

def resolve (approved : Bool) (reason : Option String) (now : Time) (a : MeteredApproval) :
    MeteredApproval :=
  { a with state := if approved then .approved else .denied, reason, resolvedAt := some now }

/-- Single-winner: the answer says whether this response decided the approval. -/
def respond (t : Approvals) (id : Uuid) (approved : Bool) (reason : Option String) (now : Time) :
    Approvals × Bool :=
  (Table.update (respondable id) (resolve approved reason now) t, t.countP (respondable id) = 1)

def consumable (sessionCommandId : Uuid) (a : MeteredApproval) : Bool :=
  a.sessionCommandId = sessionCommandId ∧ a.state = .approved ∧ a.executionProcessId = none

def consumeApproval (t : Approvals) (sessionCommandId executionProcessId : Uuid) :
    Approvals × Bool :=
  (Table.update (consumable sessionCommandId)
    (fun a => { a with executionProcessId := some executionProcessId }) t,
    t.countP (consumable sessionCommandId) = 1)

def recordAutoStart (t : Approvals) (id sessionCommandId executionProcessId : Uuid)
    (accountAlias : Option String) (now : Time) : Approvals :=
  if t.any (fun a => a.executionProcessId = some executionProcessId) then t
  else
    t ++ [{ id, sessionCommandId, policy := .auto, state := .autoStarted, accountAlias,
            reason := none, executionProcessId := some executionProcessId, createdAt := now,
            resolvedAt := some now }]

def heldBack (t : Approvals) (sessionCommandId : Uuid) : Bool :=
  (findLatestForCommand t sessionCommandId).any fun a => a.state = .pending ∨ a.state = .denied

theorem findLatest_mem {t : Approvals} {c : Uuid} {a : MeteredApproval}
    (h : findLatestForCommand t c = some a) : a ∈ t ∧ a.sessionCommandId = c := by
  have hm := List.mem_filter.1 (List.mem_of_getLast? h)
  exact ⟨hm.1, of_decide_eq_true hm.2⟩

theorem findLatest_append (t : Approvals) (a : MeteredApproval) (c : Uuid) :
    findLatestForCommand (t ++ [a]) c =
      if a.sessionCommandId = c then some a else findLatestForCommand t c := by
  simp only [findLatestForCommand, forCommand, List.filter_append]
  by_cases h : a.sessionCommandId = c
  · simp [h]
  · simp [h]

theorem findLatest_update {p : MeteredApproval → Bool} {f : MeteredApproval → MeteredApproval}
    (hf : ∀ a, (f a).sessionCommandId = a.sessionCommandId) (t : Approvals) (c : Uuid) :
    findLatestForCommand (Table.update p f t) c =
      (findLatestForCommand t c).map fun a => if p a then f a else a := by
  have hfilter : forCommand (Table.update p f t) c = Table.update p f (forCommand t c) := by
    simp only [forCommand, Table.update, List.filter_map]
    congr 1
    apply List.filter_congr
    intro a _
    by_cases hp : p a = true <;> simp [hp, hf]
  rw [findLatestForCommand, hfilter, Table.update, List.getLast?_map]
  rfl

theorem decision_proceed {latest : Option MeteredApproval}
    (h : decision latest = some .proceed) :
    ∃ a, latest = some a ∧ a.state = .approved ∧ a.executionProcessId = none := by
  cases latest with
  | none => cases h
  | some a =>
    simp only [decision] at h
    split at h
    · cases h
    · split at h
      · rename_i ha
        exact ⟨a, rfl, ha⟩
      · split at h <;> cases h

theorem decision_none {latest : Option MeteredApproval} (h : decision latest = none) :
    ∀ a, latest = some a → a.isOpen = false := by
  rintro a rfl
  simp only [decision] at h
  split at h
  · cases h
  · split at h
    · cases h
    · simp_all [isOpen]

end MeteredApproval
end Cdesktop
