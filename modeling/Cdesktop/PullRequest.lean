import Cdesktop.Config
import Cdesktop.Table

/-! The table of tracked pull requests. -/

namespace Cdesktop.PullRequests
set_option autoImplicit true

inductive MergeStatus where
  | open | merged | closed | unknown
deriving DecidableEq

/-- The text of a time: `CURRENT_TIMESTAMP` separates the day from the time by a blank, the driver
writes a `T`, and the texts are compared. -/
structure Stamp where
  day : Nat
  separator : Char
  time : Nat
deriving DecidableEq

def Stamp.before (a b : Stamp) : Bool :=
  a.day < b.day ∨ a.day = b.day ∧
    (a.separator < b.separator ∨ a.separator = b.separator ∧ a.time < b.time)

/-- `Utc::now()`, as it is bound to a statement. -/
def Stamp.now (now : Time) : Stamp := ⟨now / 86400, 'T', now % 86400⟩

def Stamp.currentTimestamp (now : Time) : Stamp := ⟨now / 86400, ' ', now % 86400⟩

structure PullRequest where
  id : String
  workspaceId : Option Uuid
  repoId : Option Uuid
  prUrl : String
  prNumber : Int
  prStatus : MergeStatus
  targetBranchName : String
  mergedAt : Option Time
  mergeCommitSha : Option String
  createdAt : Stamp
  updatedAt : Stamp
  syncedAt : Option Stamp
deriving DecidableEq

structure CreateData where
  id : String
  workspaceId : Option Uuid
  repoId : Option Uuid
  prUrl : String
  prNumber : Int
  targetBranchName : String

/-- The row of a pull request that is tracked already gets the workspace and the repository only
where it has none. -/
def create (now : Time) (data : CreateData) (rows : List PullRequest) : List PullRequest :=
  if rows.any (·.prUrl = data.prUrl) then
    Table.update (·.prUrl = data.prUrl) (fun pr => { pr with
      workspaceId := pr.workspaceId.or data.workspaceId
      repoId := pr.repoId.or data.repoId
      updatedAt := .currentTimestamp now }) rows
  else rows ++ [{
    id := data.id, workspaceId := data.workspaceId, repoId := data.repoId, prUrl := data.prUrl
    prNumber := data.prNumber, prStatus := .open, targetBranchName := data.targetBranchName
    mergedAt := none, mergeCommitSha := none, createdAt := .now now
    updatedAt := .currentTimestamp now, syncedAt := none }]

def getOpen (rows : List PullRequest) : List PullRequest := rows.filter (·.prStatus = .open)

def updateStatus (now : Time) (prUrl : String) (status : MergeStatus) (mergedAt : Option Time)
    (mergeCommitSha : Option String) (rows : List PullRequest) : List PullRequest :=
  Table.update (·.prUrl = prUrl) (fun pr => { pr with
    prStatus := status, mergedAt, mergeCommitSha, updatedAt := .now now, syncedAt := none }) rows

def countOpenForWorkspace (workspaceId : Uuid) (rows : List PullRequest) : Nat :=
  rows.countP fun pr => pr.workspaceId = some workspaceId ∧ pr.prStatus = .open

def PullRequest.pendingSync (pr : PullRequest) : Bool :=
  match pr.syncedAt with
  | none => true
  | some syncedAt => syncedAt.before pr.updatedAt

def getPendingSync (rows : List PullRequest) : List PullRequest := rows.filter (·.pendingSync)

def markSynced (now : Time) (id : String) (rows : List PullRequest) : List PullRequest :=
  Table.update (·.id = id) (fun pr => { pr with syncedAt := some (.now now) }) rows

def delete (id : String) (rows : List PullRequest) : List PullRequest := rows.filter (·.id ≠ id)

theorem mem_create (h : pr ∈ create now data rows) :
    (∃ old ∈ rows, old.id = pr.id ∧ old.prUrl = pr.prUrl ∧ old.prStatus = pr.prStatus ∧
      old.mergedAt = pr.mergedAt ∧ old.mergeCommitSha = pr.mergeCommitSha ∧
      old.syncedAt = pr.syncedAt ∧
      (old.workspaceId = pr.workspaceId ∨
        old.workspaceId = none ∧ old.prUrl = data.prUrl ∧ pr.workspaceId = data.workspaceId)) ∨
    pr.id = data.id ∧ pr.prUrl = data.prUrl ∧ pr.prStatus = .open ∧ pr.syncedAt = none ∧
      pr.workspaceId = data.workspaceId ∧ ∀ old ∈ rows, old.prUrl ≠ data.prUrl := by
  unfold create at h
  split at h
  · obtain ⟨old, hold, hurl, rfl⟩ | ⟨hold, -⟩ := Table.mem_update.mp h
    · refine .inl ⟨old, hold, rfl, rfl, rfl, rfl, rfl, rfl, ?_⟩
      cases hws : old.workspaceId with
      | none => exact .inr ⟨rfl, of_decide_eq_true hurl, rfl⟩
      | some id => exact .inl rfl
    · exact .inl ⟨pr, hold, rfl, rfl, rfl, rfl, rfl, rfl, .inl rfl⟩
  · obtain hold | hnew := List.mem_append.mp h
    · exact .inl ⟨pr, hold, rfl, rfl, rfl, rfl, rfl, rfl, .inl rfl⟩
    · rw [List.mem_singleton.mp hnew]
      refine .inr ⟨rfl, rfl, rfl, rfl, rfl, ?_⟩
      intro old hold heq
      exact ‹¬_› (List.any_eq_true.mpr ⟨old, hold, decide_eq_true heq⟩)

theorem create_keeps (now : Time) (data : CreateData) (h : pr ∈ rows) : ∃ pr' ∈ create now data rows, pr'.prUrl = pr.prUrl ∧
    pr'.prStatus = pr.prStatus ∧ (pr.workspaceId = none ∨ pr'.workspaceId = pr.workspaceId) := by
  unfold create
  split
  · by_cases hurl : pr.prUrl = data.prUrl
    · refine ⟨_, Table.mem_update_of_true h (decide_eq_true hurl), rfl, rfl, ?_⟩
      cases pr.workspaceId with
      | none => exact .inl rfl
      | some id => exact .inr rfl
    · exact ⟨pr, Table.mem_update_of_false h (decide_eq_false hurl), rfl, rfl, .inr rfl⟩
  · exact ⟨pr, List.mem_append_left _ h, rfl, rfl, .inr rfl⟩

theorem mem_updateStatus :
    pr ∈ updateStatus now url status mergedAt sha rows ↔
      (∃ old ∈ rows, old.prUrl = url ∧ pr = { old with
        prStatus := status, mergedAt := mergedAt, mergeCommitSha := sha, updatedAt := .now now
        syncedAt := none }) ∨
      pr ∈ rows ∧ pr.prUrl ≠ url := by
  rw [updateStatus, Table.mem_update]
  constructor
  · rintro (⟨old, hold, hurl, rfl⟩ | ⟨hpr, hurl⟩)
    · exact .inl ⟨old, hold, of_decide_eq_true hurl, rfl⟩
    · exact .inr ⟨hpr, of_decide_eq_false hurl⟩
  · rintro (⟨old, hold, hurl, rfl⟩ | ⟨hpr, hurl⟩)
    · exact .inl ⟨old, hold, decide_eq_true hurl, rfl⟩
    · exact .inr ⟨hpr, decide_eq_false hurl⟩

theorem updateStatus_urls : (updateStatus now url status mergedAt sha rows).map (·.prUrl) =
    rows.map (·.prUrl) := Table.update_map _ fun _ _ _ => rfl

theorem create_urls (h : (rows.map (·.prUrl)).Nodup) :
    ((create now data rows).map (·.prUrl)).Nodup := by
  unfold create
  split
  · have hmap := Table.update_map (fun pr : PullRequest => pr.prUrl)
      (p := (·.prUrl = data.prUrl)) (t := rows) (f := fun pr => { pr with
        workspaceId := pr.workspaceId.or data.workspaceId
        repoId := pr.repoId.or data.repoId
        updatedAt := .currentTimestamp now }) fun _ _ _ => rfl
    rwa [hmap]
  · rename_i hnew
    rw [List.map_append, List.map_singleton]
    apply List.Nodup.append h (List.nodup_singleton _)
    intro url hurl hmem
    obtain ⟨pr, hpr, rfl⟩ := List.mem_map.mp hurl
    exact hnew (List.any_eq_true.mpr ⟨pr, hpr, decide_eq_true (List.mem_singleton.mp hmem)⟩)

end Cdesktop.PullRequests
