import Cdesktop.PullRequest
import Cdesktop.Run
import Mathlib.Algebra.Ring.Nat

/-! The sweep that sends the pending pull requests to the remote server. -/

namespace Cdesktop.PrSync
open PullRequests
open Table (Reply)
set_option autoImplicit true

inductive PullRequestStatus where
  | open | merged | closed

/-- A field that is left out is not changed. -/
structure UpdatePullRequestApiRequest where
  url : String
  status : Option PullRequestStatus
  mergedAt : Option (Option Time)
  mergeCommitSha : Option (Option String)

structure UpsertPullRequestRequest where
  url : String
  number : Int
  status : PullRequestStatus
  mergedAt : Option Time
  mergeCommitSha : Option String
  targetBranchName : String
  localWorkspaceId : Uuid

inductive Request where
  | update (request : UpdatePullRequestApiRequest)
  | upsert (request : UpsertPullRequestRequest)

def apiStatus : MergeStatus → Option PullRequestStatus
  | .open => some .open
  | .merged => some .merged
  | .closed => some .closed
  | .unknown => none

/-- The request tells the status, the merge time and the commit of the pull request. -/
def Request.carries (pr : PullRequest) : Request → Prop
  | .update request => request.url = pr.prUrl ∧ request.status.isSome = true ∧
      request.status = apiStatus pr.prStatus ∧ request.mergedAt.join = pr.mergedAt ∧
      request.mergeCommitSha.join = pr.mergeCommitSha
  | .upsert request => request.url = pr.prUrl ∧ some request.status = apiStatus pr.prStatus ∧
      request.mergedAt = pr.mergedAt ∧ request.mergeCommitSha = pr.mergeCommitSha

def updateRequest (pr : PullRequest) (status : PullRequestStatus) : UpdatePullRequestApiRequest :=
  { url := pr.prUrl, status := some status, mergedAt := pr.mergedAt.map some
    mergeCommitSha := pr.mergeCommitSha.map some }

def upsertRequest (pr : PullRequest) (status : PullRequestStatus) (workspaceId : Uuid) :
    UpsertPullRequestRequest :=
  { url := pr.prUrl, number := pr.prNumber.bmod (2 ^ 32), status, mergedAt := pr.mergedAt
    mergeCommitSha := pr.mergeCommitSha, targetBranchName := pr.targetBranchName
    localWorkspaceId := workspaceId }

inductive Answer where
  | ok
  | notFound
  | auth
  /-- Another error, where the remote may have accepted the request all the same. -/
  | error (accepted : Bool)
deriving DecidableEq

def Answer.accepted : Answer → Bool
  | .ok => true
  | .error accepted => accepted
  | _ => false

/-- Where `sync_pending_to_remote` is, with the pending rows that it still has to send as it read
them. -/
inductive Sweep where
  | sending (todo : List PullRequest)
  | checking (pr : PullRequest) (request : UpsertPullRequestRequest) (todo : List PullRequest)
  | upserting (pr : PullRequest) (request : UpsertPullRequestRequest) (todo : List PullRequest)
  | marking (pr : PullRequest) (accepted : Bool) (todo : List PullRequest)
  | deleting (pr : PullRequest) (todo : List PullRequest)

def Sweep.sent (pr : PullRequest) (status : PullRequestStatus) (todo : List PullRequest) :
    Answer → Sweep
  | .ok => .marking pr true todo
  | .notFound =>
    match pr.workspaceId with
    | some workspaceId => .checking pr (upsertRequest pr status workspaceId) todo
    | none => .deleting pr todo
  | .auth => .sending []
  | .error _ => .sending todo

structure World where
  pullRequests : List PullRequest
  sweep : Sweep
  accepted : List Request
  ids : List String

def World.new : World := { pullRequests := [], sweep := .sending [], accepted := [], ids := [] }

inductive Event where
  | create (now : Time) (data : CreateData)
  | updateStatus (now : Time) (prUrl : String) (status : MergeStatus) (mergedAt : Option Time)
      (mergeCommitSha : Option String)
  | readPending (ok : Bool)
  | send (answer : Answer)
  /-- `workspace_exists` -/
  | check (answer : Answer)
  | upsert (answer : Answer)
  | mark (now : Time) (reply : Reply)
  | delete (reply : Reply)
  | crash

def World.receive (request : Request) (answer : Answer) (w : World) : World :=
  if answer.accepted then { w with accepted := w.accepted ++ [request] } else w

def World.step (w : World) : Event → World
  | .create now data =>
    if data.id ∈ w.ids then w
    else { w with pullRequests := create now data w.pullRequests, ids := data.id :: w.ids }
  | .updateStatus now prUrl status mergedAt mergeCommitSha =>
    { w with
      pullRequests := updateStatus now prUrl status mergedAt mergeCommitSha w.pullRequests }
  | .readPending ok =>
    match w.sweep with
    | .sending [] => if ok then { w with sweep := .sending (getPendingSync w.pullRequests) } else w
    | _ => w
  | .send answer =>
    match w.sweep with
    | .sending (pr :: todo) =>
      match apiStatus pr.prStatus with
      | none => { w with sweep := .sending todo }
      | some status =>
        { w.receive (.update (updateRequest pr status)) answer with
          sweep := .sent pr status todo answer }
    | _ => w
  | .check answer =>
    match w.sweep with
    | .checking pr request todo =>
      { w with sweep :=
          if answer = .ok then .upserting pr request todo else .marking pr false todo }
    | _ => w
  | .upsert answer =>
    match w.sweep with
    | .upserting pr request todo =>
      { w.receive (.upsert request) answer with
        sweep := .marking pr (answer = .ok) todo }
    | _ => w
  | .mark now reply =>
    match w.sweep with
    | .marking pr _ todo =>
      { w with
        pullRequests :=
          if reply = .failed then w.pullRequests else markSynced now pr.id w.pullRequests
        sweep := .sending todo }
    | _ => w
  | .delete reply =>
    match w.sweep with
    | .deleting pr todo =>
      { w with
        pullRequests := if reply = .failed then w.pullRequests else delete pr.id w.pullRequests
        sweep := .sending todo }
    | _ => w
  | .crash => { w with sweep := .sending [] }

/-- Of a row that is not pending the remote has accepted the present status. -/
def World.Synced (w : World) : Prop :=
  ∀ pr ∈ w.pullRequests, pr ∉ getPendingSync w.pullRequests → ∃ r ∈ w.accepted, r.carries pr

/-- A row is marked as synced only where the last request was answered with success, and the row has
not changed since it was read. -/
def World.ok (w : World) : Event → Bool
  | .mark _ reply =>
    match w.sweep with
    | .marking pr accepted _ => reply = .failed ∨ accepted ∧
        w.pullRequests.all fun row => row.id = pr.id → row.prStatus = pr.prStatus ∧
          row.mergedAt = pr.mergedAt ∧ row.mergeCommitSha = pr.mergeCommitSha
    | _ => true
  | _ => true

def Sweep.copies : Sweep → List PullRequest
  | .sending todo => todo
  | .checking pr _ todo | .upserting pr _ todo | .marking pr _ todo | .deleting pr todo =>
    pr :: todo

def Sweep.Carries (accepted : List Request) : Sweep → Prop
  | .sending _ | .deleting .. | .marking _ false _ => True
  | .checking pr request _ | .upserting pr request _ => (Request.upsert request).carries pr
  | .marking pr true _ => ∃ r ∈ accepted, r.carries pr

structure Inv (w : World) : Prop where
  synced : ∀ pr ∈ w.pullRequests, pr.syncedAt ≠ none → ∃ r ∈ w.accepted, r.carries pr
  carries : w.sweep.Carries w.accepted
  drawn : ∀ pr, pr ∈ w.pullRequests ∨ pr ∈ w.sweep.copies → pr.id ∈ w.ids
  urls : ∀ pr, pr ∈ w.pullRequests ∨ pr ∈ w.sweep.copies → ∀ row ∈ w.pullRequests,
    row.id = pr.id → row.prUrl = pr.prUrl

theorem Request.carries_congr {r : Request} {pr pr' : PullRequest} (h : r.carries pr)
    (hurl : pr'.prUrl = pr.prUrl) (hstatus : pr'.prStatus = pr.prStatus)
    (hmerged : pr'.mergedAt = pr.mergedAt) (hsha : pr'.mergeCommitSha = pr.mergeCommitSha) :
    r.carries pr' := by
  cases r with
  | update request => rwa [Request.carries, hurl, hstatus, hmerged, hsha]
  | upsert request => rwa [Request.carries, hurl, hstatus, hmerged, hsha]

theorem updateRequest_carries (h : apiStatus pr.prStatus = some status) :
    (Request.update (updateRequest pr status)).carries pr := by
  refine ⟨rfl, rfl, h.symm, ?_, ?_⟩
  · cases hmerged : pr.mergedAt <;> simp [updateRequest, hmerged]
  · cases hsha : pr.mergeCommitSha <;> simp [updateRequest, hsha]

theorem upsertRequest_carries {id : Uuid} (h : apiStatus pr.prStatus = some status) :
    (Request.upsert (upsertRequest pr status id)).carries pr := ⟨rfl, h.symm, rfl, rfl⟩

theorem receive_accepted {w : World} (h : r ∈ w.accepted) :
    r ∈ (w.receive request answer).accepted := by
  unfold World.receive
  split
  · exact List.mem_append_left _ h
  · exact h

@[simp] theorem receive_pullRequests {w : World} :
    (w.receive request answer).pullRequests = w.pullRequests := by
  unfold World.receive
  split <;> rfl

@[simp] theorem receive_ids {w : World} : (w.receive request answer).ids = w.ids := by
  unfold World.receive
  split <;> rfl

section
variable (hinv : Inv w)
include hinv

theorem Inv.moves (w' : World) (hrows : w'.pullRequests = w.pullRequests)
    (hids : w'.ids = w.ids) (haccepted : ∀ r ∈ w.accepted, r ∈ w'.accepted)
    (hcopies : ∀ pr ∈ w'.sweep.copies, pr ∈ w.pullRequests ∨ pr ∈ w.sweep.copies)
    (hcarries : w'.sweep.Carries w'.accepted) : Inv w' := by
  have hheld : ∀ pr, pr ∈ w'.pullRequests ∨ pr ∈ w'.sweep.copies →
      pr ∈ w.pullRequests ∨ pr ∈ w.sweep.copies := by
    intro pr hpr
    rw [hrows] at hpr
    exact hpr.elim .inl (hcopies pr)
  apply Inv.mk
  · intro pr hpr hsynced
    rw [hrows] at hpr
    obtain ⟨r, hr, hcarry⟩ := hinv.synced pr hpr hsynced
    exact ⟨r, haccepted r hr, hcarry⟩
  · exact hcarries
  · intro pr hpr
    rw [hids]
    exact hinv.drawn pr (hheld pr hpr)
  · intro pr hpr
    rw [hrows]
    exact hinv.urls pr (hheld pr hpr)

theorem Inv.rows (w' : World) (haccepted : w'.accepted = w.accepted)
    (hids : w'.ids = w.ids) (hcarries : w'.sweep.Carries w.accepted)
    (hcopies : ∀ pr ∈ w'.sweep.copies, pr ∈ w.sweep.copies)
    (hrows : ∀ pr ∈ w'.pullRequests, ∃ old ∈ w.pullRequests, old.id = pr.id ∧
      old.prUrl = pr.prUrl ∧ (pr.syncedAt ≠ none → ∃ r ∈ w.accepted, r.carries pr)) : Inv w' := by
  apply Inv.mk
  · intro pr hpr hsynced
    rw [haccepted]
    obtain ⟨-, -, -, -, hcarry⟩ := hrows pr hpr
    exact hcarry hsynced
  · rw [haccepted]
    exact hcarries
  · intro pr hpr
    rw [hids]
    obtain hrow | hcopy := hpr
    · obtain ⟨old, hold, hid, -⟩ := hrows pr hrow
      rw [← hid]
      exact hinv.drawn old (.inl hold)
    · exact hinv.drawn pr (.inr (hcopies pr hcopy))
  · intro pr hpr row hrow heq
    obtain ⟨old, hold, hid, hurl, -⟩ := hrows row hrow
    rw [← hurl]
    obtain hpr | hcopy := hpr
    · obtain ⟨old', hold', hid', hurl', -⟩ := hrows pr hpr
      rw [← hurl']
      exact hinv.urls old' (.inl hold') old hold ((hid.trans heq).trans hid'.symm)
    · exact hinv.urls pr (.inr (hcopies pr hcopy)) old hold (hid.trans heq)

theorem Inv.create : Inv (w.step (.create now data)) := by
  simp only [World.step]
  split
  · exact hinv
  rename_i hnew
  have hother : ∀ pr, pr ∈ w.pullRequests ∨ pr ∈ w.sweep.copies → pr.id ≠ data.id :=
    fun pr hpr heq => hnew (heq ▸ hinv.drawn pr hpr)
  have hrow : ∀ row ∈ PullRequests.create now data w.pullRequests, ∀ pr,
      pr ∈ w.pullRequests ∨ pr ∈ w.sweep.copies → row.id = pr.id → row.prUrl = pr.prUrl := by
    intro row hmem pr hpr heq
    obtain ⟨old, hold, hid, hurl, -⟩ | ⟨hid, -⟩ := mem_create hmem
    · rw [← hurl]
      exact hinv.urls pr hpr old hold (hid.trans heq)
    · exact absurd (heq.symm.trans hid) (hother pr hpr)
  apply Inv.mk
  · intro pr hpr hsynced
    obtain ⟨old, hold, -, hurl, hstatus, hmerged, hsha, hat, -⟩ | ⟨-, -, -, hnone, -⟩ :=
      mem_create hpr
    · obtain ⟨r, hr, hcarry⟩ := hinv.synced old hold (hat ▸ hsynced)
      exact ⟨r, hr, Request.carries_congr hcarry hurl.symm hstatus.symm hmerged.symm hsha.symm⟩
    · exact absurd hnone hsynced
  · exact hinv.carries
  · intro pr hpr
    obtain hmem | hcopy := hpr
    · obtain ⟨old, hold, hid, -⟩ | ⟨hid, -⟩ := mem_create hmem
      · rw [← hid]
        exact List.mem_cons_of_mem _ (hinv.drawn old (.inl hold))
      · rw [hid]
        exact List.mem_cons_self
    · exact List.mem_cons_of_mem _ (hinv.drawn pr (.inr hcopy))
  · intro pr hpr row hmem heq
    obtain hnow | hcopy := hpr
    · obtain ⟨old, hold, hid, hurl, -⟩ | ⟨hid, hurl, -⟩ := mem_create hnow
      · rw [← hurl]
        exact hrow row hmem old (.inl hold) (heq.trans hid.symm)
      · obtain ⟨old, hold, hid', -⟩ | ⟨-, hurl', -⟩ := mem_create hmem
        · exact absurd (hid'.trans (heq.trans hid)) (hother old (.inl hold))
        · exact hurl'.trans hurl.symm
    · exact hrow row hmem pr (.inr hcopy) heq

theorem Inv.updateStatus :
    Inv (w.step (.updateStatus now prUrl status mergedAt mergeCommitSha)) := by
  apply hinv.rows (w.step (.updateStatus now prUrl status mergedAt mergeCommitSha)) rfl rfl
    hinv.carries fun pr hpr => hpr
  intro pr hpr
  obtain ⟨old, hold, -, rfl⟩ | ⟨hold, -⟩ := mem_updateStatus.mp hpr
  · exact ⟨old, hold, rfl, rfl, fun hsynced => absurd rfl hsynced⟩
  · exact ⟨pr, hold, rfl, rfl, hinv.synced pr hold⟩

theorem Inv.send : Inv (w.step (.send answer)) := by
  simp only [World.step]
  split
  · rename_i pr todo hsweep
    have hcopy : ∀ pr' ∈ pr :: todo, pr' ∈ w.pullRequests ∨ pr' ∈ w.sweep.copies := by
      rw [hsweep]
      exact fun pr' hpr' => .inr hpr'
    have htodo : ∀ pr' ∈ todo, pr' ∈ w.pullRequests ∨ pr' ∈ w.sweep.copies :=
      fun pr' hpr' => hcopy pr' (List.mem_cons_of_mem _ hpr')
    cases hstatus : apiStatus pr.prStatus with
    | none =>
      exact hinv.moves { w with sweep := .sending todo } rfl rfl (fun _ hr => hr) htodo trivial
    | some status =>
      apply hinv.moves { w.receive (.update (updateRequest pr status)) answer with
        sweep := .sent pr status todo answer } receive_pullRequests receive_ids
        (fun _ hr => receive_accepted hr)
      · intro pr' hpr'
        cases answer with
        | ok => exact hcopy pr' hpr'
        | auth => cases hpr'
        | error => exact htodo pr' hpr'
        | notFound =>
          rw [Sweep.sent] at hpr'
          cases hws : pr.workspaceId with
          | none =>
            rw [hws] at hpr'
            exact hcopy pr' hpr'
          | some id =>
            rw [hws] at hpr'
            exact hcopy pr' hpr'
      · cases answer with
        | ok =>
          refine ⟨_, ?_, updateRequest_carries hstatus⟩
          exact List.mem_append_right _ (List.mem_singleton.mpr rfl)
        | auth => trivial
        | error => trivial
        | notFound =>
          rw [Sweep.sent]
          cases pr.workspaceId with
          | none => trivial
          | some id => exact upsertRequest_carries hstatus
  · exact hinv

theorem Inv.check : Inv (w.step (.check answer)) := by
  simp only [World.step]
  split
  · rename_i pr request todo hsweep
    have hcarry := hinv.carries
    rw [hsweep] at hcarry
    apply hinv.moves { w with
      sweep := if answer = .ok then .upserting pr request todo else .marking pr false todo } rfl
      rfl (fun _ hr => hr)
    · intro pr' hpr'
      rw [hsweep]
      dsimp only at hpr'
      split at hpr' <;> exact .inr hpr'
    · dsimp only
      split
      · exact hcarry
      · trivial
  · exact hinv

theorem Inv.upsert : Inv (w.step (.upsert answer)) := by
  simp only [World.step]
  split
  · rename_i pr request todo hsweep
    have hcarry := hinv.carries
    rw [hsweep] at hcarry
    apply hinv.moves { w.receive (.upsert request) answer with
      sweep := .marking pr (answer = .ok) todo } receive_pullRequests receive_ids
      (fun _ hr => receive_accepted hr)
    · rw [hsweep]
      exact fun pr' hpr' => .inr hpr'
    · cases answer with
      | ok =>
        have hr : (Request.upsert request).carries pr := hcarry
        refine ⟨_, ?_, hr⟩
        exact List.mem_append_right _ (List.mem_singleton.mpr rfl)
      | _ => trivial
  · exact hinv

theorem Inv.mark (hok : w.ok (.mark now reply) = true) :
    Inv (w.step (.mark now reply)) := by
  simp only [World.ok] at hok
  simp only [World.step]
  cases hsweep : w.sweep with
  | marking pr accepted todo =>
    rw [hsweep] at hok
    have hcarry := hinv.carries
    rw [hsweep] at hcarry
    apply hinv.rows { w with
      pullRequests := if reply = .failed then w.pullRequests
        else markSynced now pr.id w.pullRequests
      sweep := .sending todo } rfl rfl trivial
    · rw [hsweep]
      exact fun pr' hpr' => List.mem_cons_of_mem _ hpr'
    · intro row hrow
      dsimp only at hrow
      split at hrow
      · exact ⟨row, hrow, rfl, rfl, hinv.synced row hrow⟩
      · rename_i hreply
        obtain ⟨haccepted, hall⟩ := (of_decide_eq_true hok).resolve_left hreply
        rw [haccepted] at hcarry
        obtain ⟨r, hr, hcarry⟩ := hcarry
        obtain ⟨old, hold, hid, rfl⟩ | ⟨hold, -⟩ := Table.mem_update.mp hrow
        · refine ⟨old, hold, rfl, rfl, fun _ => ⟨r, hr, ?_⟩⟩
          have hid := of_decide_eq_true hid
          obtain ⟨hstatus, hmerged, hsha⟩ :=
            of_decide_eq_true (List.all_eq_true.mp hall old hold) hid
          have hurl : old.prUrl = pr.prUrl := by
            apply hinv.urls pr _ old hold hid
            rw [hsweep]
            exact .inr List.mem_cons_self
          exact Request.carries_congr hcarry hurl hstatus hmerged hsha
        · exact ⟨row, hold, rfl, rfl, hinv.synced row hold⟩
  | _ => exact hinv

theorem Inv.delete : Inv (w.step (.delete reply)) := by
  simp only [World.step]
  split
  · rename_i pr todo hsweep
    apply hinv.rows { w with
      pullRequests := if reply = .failed then w.pullRequests
        else PullRequests.delete pr.id w.pullRequests
      sweep := .sending todo } rfl rfl trivial
    · rw [hsweep]
      exact fun pr' hpr' => List.mem_cons_of_mem _ hpr'
    · intro row hrow
      have hold : row ∈ w.pullRequests := by
        dsimp only at hrow
        split at hrow
        · exact hrow
        · exact List.mem_of_mem_filter hrow
      exact ⟨row, hold, rfl, rfl, hinv.synced row hold⟩
  · exact hinv

theorem Inv.step (hok : w.ok event = true) : Inv (w.step event) := by
  cases event with
  | create now data => exact hinv.create
  | updateStatus => exact hinv.updateStatus
  | readPending ok =>
    simp only [World.step]
    split
    · split
      · apply hinv.moves { w with sweep := .sending (getPendingSync w.pullRequests) } rfl rfl
          (fun _ hr => hr) _ trivial
        exact fun pr hpr => .inl (List.mem_of_mem_filter hpr)
      · exact hinv
    · exact hinv
  | send answer => exact hinv.send
  | check answer => exact hinv.check
  | upsert answer => exact hinv.upsert
  | mark now reply => exact hinv.mark hok
  | delete reply => exact hinv.delete
  | crash =>
    exact hinv.moves { w with sweep := .sending [] } rfl rfl (fun _ hr => hr)
      (fun pr hpr => by cases hpr) trivial

end

theorem Inv.new : Inv .new := by
  apply Inv.mk
  · exact fun pr hpr => by cases hpr
  · trivial
  · exact fun pr hpr => by cases hpr <;> contradiction
  · exact fun pr hpr row hrow => by cases hrow

theorem Inv.holds (hinv : Inv w) : w.Synced := by
  intro pr hpr hpending
  apply hinv.synced pr hpr
  intro hnone
  apply hpending
  apply List.mem_filter.mpr
  rw [PullRequest.pendingSync, hnone]
  exact ⟨hpr, rfl⟩

theorem pending_synced (hok : Run.Each World.step (fun w event => w.ok event = true) .new events) :
    (Run.run World.step .new events).Synced := by
  have hinv : Inv (Run.run World.step .new events) :=
    Run.Each.preserves (fun _ _ hinv hok => hinv.step hok) Inv.new hok
  exact hinv.holds

def tracked (workspaceId : Option Uuid) : List Event :=
  [.create 0 ⟨"a", workspaceId, none, "url", 1, "main"⟩, .readPending true]

/-- A new pull request is upserted, and its merge is sent by the next sweep. -/
theorem pending_synced_sample :
    (Run.run World.step .new (tracked (some 1) ++ [.send .notFound, .check .ok, .upsert .ok,
      .mark 1 .ok, .updateStatus 2 "url" .merged (some 2) (some "c0ffee"), .readPending true,
      .send .ok, .mark 3 .ok])).Synced :=
  pending_synced (by decide +kernel)

/-- The status changes between the answer and the mark; and the mark follows an upsert that was not
accepted. -/
theorem pending_not_synced :
    ¬(Run.run World.step .new (tracked none ++ [.send .ok,
        .updateStatus 2 "url" .merged (some 2) none, .mark 3 .ok])).Synced ∧
      ¬(Run.run World.step .new (tracked (some 1) ++ [.send .notFound, .check .ok,
        .upsert (.error false), .mark 3 .ok])).Synced := by
  constructor
  · intro h
    obtain ⟨r, hr, hcarry⟩ := h _ (List.mem_singleton.mpr rfl) (by decide +kernel)
    rw [List.mem_singleton.mp hr] at hcarry
    obtain ⟨-, -, hstatus, -⟩ := hcarry
    cases hstatus
  · intro h
    obtain ⟨r, hr, -⟩ := h _ (List.mem_singleton.mpr rfl) (by decide +kernel)
    cases hr

end Cdesktop.PrSync
