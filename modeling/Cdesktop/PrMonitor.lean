import Cdesktop.PullRequest
import Cdesktop.Run

/-! The monitor that polls the host for the open pull requests and archives the workspaces whose work
is merged. -/

namespace Cdesktop.PrMonitor
open PullRequests
open Table (Reply)
set_option autoImplicit true

structure PullRequestInfo where
  status : MergeStatus
  mergedAt : Option Time
  mergeCommitSha : Option String

structure Workspace where
  pinned : Bool
  archived : Bool

/-- Where `check_all_open_prs` is, with the pull requests that it still has to check as it read
them. -/
inductive Poll where
  | idle
  | checking (todo : List PullRequest)
  | storing (pr : PullRequest) (info : PullRequestInfo) (todo : List PullRequest)
  /-- `try_archive_workspace` -/
  | loading (workspaceId : Uuid) (todo : List PullRequest)
  | counting (workspaceId : Uuid) (pinned : Bool) (todo : List PullRequest)
  | archiving (workspaceId : Uuid) (todo : List PullRequest)

structure World where
  pullRequests : List PullRequest
  workspaces : Uuid → Option Workspace
  poll : Poll
  failed : Bool
  /-- The last event is the end of a poll in which nothing went wrong. -/
  polled : Bool
  reports : List (String × MergeStatus)
  /-- The workspace was unarchived after its work was merged. -/
  unarchived : Uuid → Bool

def World.new : World :=
  { pullRequests := [], workspaces := fun _ => none, poll := .idle, failed := false
    polled := false, reports := [], unarchived := fun _ => false }

inductive Event where
  | create (now : Time) (data : CreateData)
  | insert (workspaceId : Uuid)
  | remove (workspaceId : Uuid)
  | pin (workspaceId : Uuid) (pinned : Bool)
  /-- `set_archived`: by the user, by the start of an execution or as the workspace is idle. -/
  | setArchived (workspaceId : Uuid) (archived : Bool)
  | start (read : Bool)
  | answer (info : Option PullRequestInfo)
  | store (now : Time) (reply : Reply)
  | load (read : Bool)
  | count (read : Bool)
  | archive (reply : Reply)
  | finish
  /-- Between two polls: the remote server did not know the pull request, which had no workspace. -/
  | delete (id : String)
  | crash

def World.setWorkspace (id : Uuid) (ws : Option Workspace) (w : World) : World :=
  { w with workspaces := fun i => if i = id then ws else w.workspaces i }

def World.hasMerged (id : Uuid) (w : World) : Bool :=
  w.pullRequests.any fun pr => pr.workspaceId = some id ∧ pr.prStatus = .merged

/-- All the pull requests of the workspace are merged or closed, and one is merged. -/
def World.due (id : Uuid) (w : World) : Bool :=
  w.hasMerged id ∧ countOpenForWorkspace id w.pullRequests = 0

def World.active (id : Uuid) (w : World) : Bool :=
  (w.workspaces id).any fun ws => !ws.pinned && !ws.archived

/-- The error is logged, and the next pull request is checked. -/
def World.fail (todo : List PullRequest) (w : World) : World :=
  { w with poll := .checking todo, failed := true }

def World.stored (pr : PullRequest) (info : PullRequestInfo) (todo : List PullRequest)
    (w : World) : World :=
  match info.status, pr.workspaceId with
  | .merged, some id => { w with poll := .loading id todo }
  | _, _ => { w with poll := .checking todo }

def World.store (now : Time) (pr : PullRequest) (info : PullRequestInfo) (w : World) : World :=
  let mergedAt := if info.status = .merged then some (info.mergedAt.getD now) else none
  { w with pullRequests :=
      updateStatus now pr.prUrl info.status mergedAt info.mergeCommitSha w.pullRequests }

def World.act (w : World) : Event → World
  | .create now data => { w with pullRequests := create now data w.pullRequests }
  | .insert id =>
    if w.workspaces id = none ∧ ∀ pr ∈ w.pullRequests, pr.workspaceId ≠ some id then
      w.setWorkspace id (some ⟨false, false⟩)
    else w
  | .remove id => w.setWorkspace id none
  | .pin id pinned => w.setWorkspace id ((w.workspaces id).map fun ws => { ws with pinned })
  | .setArchived id archived =>
    { w.setWorkspace id ((w.workspaces id).map fun ws => { ws with archived }) with
      unarchived := fun i => w.unarchived i || (i = id && !archived) }
  | .start read =>
    match w.poll with
    | .idle => if read then
        { w with poll := .checking (getOpen w.pullRequests), failed := false }
      else w
    | _ => w
  | .answer info =>
    match w.poll, info with
    | .checking (_ :: todo), none => w.fail todo
    | .checking (pr :: todo), some info =>
      { w with
        reports := w.reports ++ [(pr.prUrl, info.status)]
        poll := if info.status = .open then .checking todo else .storing pr info todo }
    | _, _ => w
  | .store now reply =>
    match w.poll, reply with
    | .storing pr info todo, .ok => (w.store now pr info).stored pr info todo
    | .storing _ _ todo, .failed => w.fail todo
    | .storing pr info todo, .lost => (w.store now pr info).fail todo
    | _, _ => w
  | .load read =>
    match w.poll with
    | .loading id todo =>
      if read then
        match w.workspaces id with
        | none => { w with poll := .checking todo }
        | some ws => { w with poll := .counting id ws.pinned todo }
      else w.fail todo
    | _ => w
  | .count read =>
    match w.poll with
    | .counting id pinned todo =>
      if read then
        if countOpenForWorkspace id w.pullRequests = 0 ∧ pinned = false then
          { w with poll := .archiving id todo }
        else { w with poll := .checking todo }
      else w.fail todo
    | _ => w
  | .archive reply =>
    match w.poll, reply with
    | .archiving id todo, .ok =>
      { w.setWorkspace id ((w.workspaces id).map fun ws => { ws with archived := true }) with
        poll := .checking todo }
    | .archiving _ todo, .failed => w.fail todo
    | .archiving id todo, .lost =>
      (w.setWorkspace id ((w.workspaces id).map fun ws => { ws with archived := true })).fail todo
    | _, _ => w
  | .finish =>
    match w.poll with
    | .checking [] => { w with poll := .idle, polled := !w.failed }
    | _ => w
  | .delete id =>
    match w.poll with
    | .idle => { w with pullRequests := delete id w.pullRequests }
    | _ => w
  | .crash => { w with poll := .idle }

/-- That a workspace was unarchived is forgotten where its work is not merged, or is open again. -/
def World.step (w : World) (event : Event) : World :=
  let w' := World.act { w with polled := false } event
  { w' with unarchived := fun id => w'.unarchived id && w'.due id }

def World.neglects (id : Uuid) (w : World) : Bool :=
  w.active id && w.due id && !w.unarchived id

/-- After a poll without an error every workspace that is to be archived is, and a pull request stays
among those that are polled until the host has reported it as merged or closed. -/
def MergedArchived (events : List Event) : Prop :=
  let w := Run.run World.step .new events
  (w.polled = true → ∀ id, w.neglects id = false) ∧
    ∀ before after, events = before ++ after →
      ∀ pr ∈ (Run.run World.step .new before).pullRequests,
        (pr.prUrl, .merged) ∉ w.reports → (pr.prUrl, .closed) ∉ w.reports →
        ∃ pr' ∈ getOpen w.pullRequests, pr'.prUrl = pr.prUrl

def World.hasOther (prUrl : String) (id : Uuid) (w : World) : Bool :=
  w.pullRequests.any fun pr =>
    pr.prUrl ≠ prUrl ∧ pr.workspaceId = some id ∧ pr.prStatus = .open

def World.okStored (pr : PullRequest) (status : MergeStatus) (replied : Bool) (row : PullRequest)
    (w : World) : Bool :=
  match status with
  | .open => true
  | .unknown => false
  | .closed => row.workspaceId.all fun id =>
      w.active id → w.hasMerged id → w.hasOther pr.prUrl id
  | .merged => (replied ∧ row.workspaceId = pr.workspaceId) ∨
      row.workspaceId.all fun id => w.active id → w.hasOther pr.prUrl id

/-- The host does not report the last open pull request of a workspace with a merged one as closed,
and no pull request as unknown; a merge is stored for the workspace that the pull request has, and
the calls that are to archive the workspace succeed; no merged pull request is linked to a workspace,
no workspace whose work is merged is unpinned, and no open pull request is deleted. -/
def World.ok (w : World) : Event → Bool
  | .create _ data => w.pullRequests.all fun pr =>
      pr.prUrl = data.prUrl → pr.workspaceId = none → pr.prStatus = .merged →
        data.workspaceId.all fun id => w.active id →
          countOpenForWorkspace id w.pullRequests = 0 → w.unarchived id
  | .pin id pinned => pinned = false → w.due id →
      w.unarchived id ∨ (w.workspaces id).all fun ws => ws.archived || !ws.pinned
  | .store _ reply =>
    match w.poll with
    | .storing pr info _ => reply = .failed ∨ (w.pullRequests.all fun row =>
        row.prUrl = pr.prUrl → w.okStored pr info.status (reply = .ok) row)
    | _ => true
  | .load read =>
    match w.poll with
    | .loading id _ => read ∨ ¬w.neglects id
    | _ => true
  | .count read =>
    match w.poll with
    | .counting id _ _ => read ∨ ¬w.neglects id
    | _ => true
  | .archive reply =>
    match w.poll with
    | .archiving id _ => reply ≠ .failed ∨ ¬w.neglects id
    | _ => true
  | .delete id =>
    match w.poll with
    | .idle => w.pullRequests.all fun pr => pr.id = id → pr.prStatus ≠ .open
    | _ => true
  | .crash =>
    match w.poll with
    | .loading id _ | .counting id _ _ | .archiving id _ => ¬w.neglects id
    | _ => true
  | _ => true

end Cdesktop.PrMonitor
