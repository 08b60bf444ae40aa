import Cdesktop.PrMonitor

/-! When the poll archives every workspace whose work is merged. -/

namespace Cdesktop.PrMonitor
open PullRequests
open Table (Reply)
set_option autoImplicit true
variable {id i : Uuid} {read : Bool}

attribute [local simp] World.act World.ok

def Poll.copies : Poll → List PullRequest
  | .idle => []
  | .checking todo | .loading _ todo | .counting _ _ todo | .archiving _ todo => todo
  | .storing pr _ todo => pr :: todo

def Poll.settles (id : Uuid) : Poll → Prop
  | .loading id' _ | .archiving id' _ => id' = id
  | .counting id' pinned _ => id' = id ∧ pinned = false
  | _ => False

def World.Copied (pr : PullRequest) (w : World) : Prop :=
  ∃ row ∈ w.pullRequests, row.prUrl = pr.prUrl ∧
    (pr.workspaceId = none ∨ row.workspaceId = pr.workspaceId)

def World.Reported (pr : PullRequest) (w : World) : Prop :=
  (pr.prUrl, .merged) ∈ w.reports ∨ (pr.prUrl, .closed) ∈ w.reports

structure Inv (w : World) : Prop where
  urls : (w.pullRequests.map (·.prUrl)).Nodup
  copied : ∀ pr ∈ w.poll.copies, w.Copied pr
  settled : ∀ id, w.neglects id = true → w.poll.settles id
  reported : ∀ pr ∈ w.pullRequests, pr.prStatus = .open ∨ w.Reported pr
  storing : ∀ pr info todo, w.poll = .storing pr info todo →
    info.status ≠ .open ∧ (pr.prUrl, info.status) ∈ w.reports

theorem hasMerged_iff : World.hasMerged id w = true ↔
    ∃ pr ∈ w.pullRequests, pr.workspaceId = some id ∧ pr.prStatus = .merged := by
  simp [World.hasMerged]

theorem countOpen_zero : countOpenForWorkspace id rows = 0 ↔
    ∀ pr ∈ rows, pr.workspaceId = some id → pr.prStatus ≠ .open := by
  rw [countOpenForWorkspace, List.countP_eq_zero]
  simp

theorem neglects_iff : World.neglects id w = true ↔
    w.active id = true ∧ w.hasMerged id = true ∧ countOpenForWorkspace id w.pullRequests = 0 ∧
      w.unarchived id = false := by
  rw [World.neglects, World.due, Bool.and_eq_true, Bool.and_eq_true, decide_eq_true_eq,
    Bool.not_eq_true']
  tauto

theorem neglects_congr (hrows : w'.pullRequests = w.pullRequests)
    (hws : w'.workspaces = w.workspaces) (hun : w'.unarchived = w.unarchived) (id : Uuid) :
    World.neglects id w' = World.neglects id w := by
  rw [World.neglects, World.neglects, World.active, World.active, World.due, World.due,
    World.hasMerged, World.hasMerged, hrows, hws, hun]

theorem Inv.moves (hinv : Inv w) (w' : World)
    (hsame : (w'.pullRequests, w'.workspaces, w'.unarchived) =
      (w.pullRequests, w.workspaces, w.unarchived)) (hreports : w.reports ⊆ w'.reports)
    (hcopies : ∀ pr ∈ w'.poll.copies, pr ∈ w.poll.copies ∨ pr ∈ w.pullRequests)
    (hsettled : ∀ id, w.neglects id = true → w.poll.settles id → w'.poll.settles id)
    (hstoring : ∀ pr info todo, w'.poll = .storing pr info todo →
      info.status ≠ .open ∧ (pr.prUrl, info.status) ∈ w'.reports) : Inv w' := by
  simp only [Prod.mk.injEq] at hsame
  obtain ⟨hrows, hws, hun⟩ := hsame
  apply Inv.mk
  · rw [hrows]
    exact hinv.urls
  · intro pr hpr
    rw [World.Copied, hrows]
    obtain hcopy | hrow := hcopies pr hpr
    · exact hinv.copied pr hcopy
    · exact ⟨pr, hrow, rfl, .inr rfl⟩
  · intro id hneglects
    rw [neglects_congr hrows hws hun] at hneglects
    exact hsettled id hneglects (hinv.settled id hneglects)
  · intro pr hpr
    rw [hrows] at hpr
    obtain hopen | hmerged | hclosed := hinv.reported pr hpr
    · exact .inl hopen
    · exact .inr (.inl (hreports hmerged))
    · exact .inr (.inr (hreports hclosed))
  · exact hstoring

theorem Inv.fails (hinv : Inv w) (hsub : ∀ pr ∈ todo, pr ∈ w.poll.copies)
    (hidle : ∀ id, w.poll.settles id → w.neglects id = false) : Inv (w.fail todo) := by
  refine hinv.moves (w.fail todo) rfl (.refl _) ?_ ?_
    fun _ _ _ heq => by cases heq
  · exact fun pr hpr => .inl (hsub pr hpr)
  · intro id hneglects hsettles
    rw [hidle id hsettles] at hneglects
    cases hneglects

theorem Inv.workspace (hinv : Inv w) (hrows : w'.pullRequests = w.pullRequests)
    (hpoll : w'.poll = w.poll) (hreports : w'.reports = w.reports)
    (hneglects : ∀ id, w'.neglects id = true → w.neglects id = true) : Inv w' := by
  apply Inv.mk
  · rw [hrows]
    exact hinv.urls
  · rw [hpoll]
    intro pr hpr
    rw [World.Copied, hrows]
    exact hinv.copied pr hpr
  · rw [hpoll]
    exact fun id h => hinv.settled id (hneglects id h)
  · intro pr hpr
    rw [World.Reported, hreports]
    rw [hrows] at hpr
    exact hinv.reported pr hpr
  · rw [hpoll, hreports]
    exact hinv.storing

theorem active_setWorkspace : World.active i (World.setWorkspace id ws w) =
    if i = id then ws.any fun ws => !ws.pinned && !ws.archived else w.active i := by
  simp only [World.active, World.setWorkspace]
  split <;> rfl

theorem neglects_setWorkspace : World.neglects i (World.setWorkspace id ws w) =
    if i = id then (ws.any fun ws => !ws.pinned && !ws.archived) && w.due id && !w.unarchived id
    else w.neglects i := by
  rw [World.neglects, active_setWorkspace]
  split
  · subst i
    rfl
  · rfl

theorem Inv.create (hinv : Inv w) (hok : w.ok (.create now data) = true) :
    Inv { w with pullRequests := create now data w.pullRequests } := by
  rw [World.ok, List.all_eq_true] at hok
  apply Inv.mk
  · exact create_urls hinv.urls
  · intro pr hpr
    obtain ⟨row, hrow, hurl, hws⟩ := hinv.copied pr hpr
    obtain ⟨row', hrow', hurl', -, hws'⟩ := create_keeps now data hrow
    refine ⟨row', hrow', hurl'.trans hurl, ?_⟩
    obtain hnone | hsome := hws
    · exact .inl hnone
    · obtain hnone | hsame := hws'
      · exact .inl (hsome ▸ hnone)
      · exact .inr (hsame.trans hsome)
  · intro id hneglects
    apply hinv.settled
    rw [neglects_iff] at hneglects ⊢
    obtain ⟨hactive, hmerged, hcount, hun⟩ := hneglects
    have hold : countOpenForWorkspace id w.pullRequests = 0 := by
      rw [countOpen_zero] at hcount ⊢
      intro row hrow hws
      obtain ⟨row', hrow', -, hstatus, hws'⟩ := create_keeps now data hrow
      rw [← hstatus]
      apply hcount row' hrow'
      obtain hnone | hsame := hws'
      · rw [hws] at hnone
        cases hnone
      · exact hsame.trans hws
    refine ⟨hactive, ?_, hold, hun⟩
    rw [hasMerged_iff] at hmerged ⊢
    obtain ⟨pr, hpr, hws, hstatus⟩ := hmerged
    obtain ⟨old, hmem, -, -, hold', -, -, -, hlink⟩ | ⟨-, -, hopen, -⟩ := mem_create hpr
    · obtain hsame | ⟨hnone, hurl, hdata⟩ := hlink
      · exact ⟨old, hmem, hsame.trans hws, hold'.trans hstatus⟩
      · have hall := of_decide_eq_true (hok old hmem) hurl hnone (hold'.trans hstatus)
        rw [← hdata, hws] at hall
        have := of_decide_eq_true hall hactive hold
        rw [hun] at this
        cases this
    · rw [hopen] at hstatus
      cases hstatus
  · intro pr hpr
    obtain ⟨old, hmem, -, hurl, hstatus, -⟩ | ⟨-, -, hopen, -⟩ := mem_create hpr
    · have := hinv.reported old hmem
      rwa [World.Reported, hurl, hstatus] at this
    · exact .inl hopen
  · exact hinv.storing

theorem store_neglects {w : World} {pr : PullRequest} {info : PullRequestInfo}
    (h : (w.store now pr info).neglects id = true) :
    w.neglects id = true ∨ ∃ row ∈ w.pullRequests, row.prUrl = pr.prUrl ∧
      row.workspaceId = some id ∧ w.active id = true ∧ w.hasOther pr.prUrl id = false ∧
      (info.status = .merged ∨ w.hasMerged id = true) := by
  rw [neglects_iff] at h
  obtain ⟨hactive, hmerged, hcount, hun⟩ := h
  rw [countOpen_zero] at hcount
  rw [hasMerged_iff] at hmerged
  have hother : w.hasOther pr.prUrl id = false := by
    apply Bool.eq_false_iff.mpr
    intro hother
    obtain ⟨row, hrow, hp⟩ := List.any_eq_true.mp hother
    obtain ⟨hurl, hws, hopen⟩ := of_decide_eq_true hp
    exact hcount row (mem_updateStatus.mpr (.inr ⟨hrow, hurl⟩)) hws hopen
  by_cases hrow : ∃ row ∈ w.pullRequests, row.prUrl = pr.prUrl ∧ row.workspaceId = some id
  · obtain ⟨row, hmem, hurl, hws⟩ := hrow
    refine .inr ⟨row, hmem, hurl, hws, hactive, hother, ?_⟩
    obtain ⟨pr', hpr', hws', hst⟩ := hmerged
    obtain ⟨old, -, -, rfl⟩ | ⟨hold, -⟩ := mem_updateStatus.mp hpr'
    · exact .inl hst
    · exact .inr (hasMerged_iff.mpr ⟨pr', hold, hws', hst⟩)
  · left
    rw [neglects_iff]
    refine ⟨hactive, ?_, ?_, hun⟩
    · obtain ⟨pr', hpr', hws', hst⟩ := hmerged
      obtain ⟨old, hold, hurl, rfl⟩ | ⟨hold, -⟩ := mem_updateStatus.mp hpr'
      · exact absurd ⟨old, hold, hurl, hws'⟩ hrow
      · exact hasMerged_iff.mpr ⟨pr', hold, hws', hst⟩
    · rw [countOpen_zero]
      intro row hmem hws
      by_cases hurl : row.prUrl = pr.prUrl
      · exact absurd ⟨row, hmem, hurl, hws⟩ hrow
      · exact hcount row (mem_updateStatus.mpr (.inr ⟨hmem, hurl⟩)) hws

theorem Inv.stores (hinv : Inv w) (hpoll : w.poll = .storing pr info todo)
    (hfinal : info.status ≠ .unknown) (now : Time) (w' : World)
    (hrows : w'.pullRequests = (w.store now pr info).pullRequests)
    (hreports : w'.reports = w.reports) (hcopies : w'.poll.copies = todo)
    (hstoring : ∀ pr info todo, w'.poll ≠ .storing pr info todo)
    (hsettled : ∀ id, w'.neglects id = true → w'.poll.settles id) : Inv w' := by
  obtain ⟨hopen, hmem⟩ := hinv.storing pr info todo hpoll
  apply Inv.mk
  · rw [hrows]
    exact (congrArg List.Nodup updateStatus_urls).mpr hinv.urls
  · intro pr' hpr'
    rw [hcopies] at hpr'
    obtain ⟨row, hrow, hurl, hws⟩ := hinv.copied pr' (by
      rw [hpoll]
      exact List.mem_cons_of_mem _ hpr')
    rw [World.Copied, hrows]
    by_cases hsame : row.prUrl = pr.prUrl
    · exact ⟨_, mem_updateStatus.mpr (.inl ⟨row, hrow, hsame, rfl⟩), hurl, hws⟩
    · exact ⟨row, mem_updateStatus.mpr (.inr ⟨hrow, hsame⟩), hurl, hws⟩
  · exact hsettled
  · intro row hrow
    rw [World.Reported, hreports]
    rw [hrows] at hrow
    obtain ⟨old, -, hurl, rfl⟩ | ⟨hold, -⟩ := mem_updateStatus.mp hrow
    · right
      rw [← hurl] at hmem
      cases hstatus : info.status with
      | «open» => exact absurd hstatus hopen
      | merged => exact .inl (hstatus ▸ hmem)
      | closed => exact .inr (hstatus ▸ hmem)
      | unknown => exact absurd hstatus hfinal
    · exact hinv.reported row hold
  · exact fun pr info todo heq => absurd heq (hstoring pr info todo)

theorem store_settles (hinv : Inv w) (hpoll : w.poll = .storing pr info todo)
    (hok : ∀ row ∈ w.pullRequests, row.prUrl = pr.prUrl →
      w.okStored pr info.status replied row = true)
    (h : (w.store now pr info).neglects id = true) :
    replied = true ∧ info.status = .merged ∧ pr.workspaceId = some id := by
  obtain hold | ⟨row, hrow, hurl, hws, hactive, hother, hstatus⟩ := store_neglects h
  · have hsettles := hinv.settled id hold
    rw [hpoll] at hsettles
    exact hsettles.elim
  · have hrow' := hok row hrow hurl
    unfold World.okStored at hrow'
    cases hinfo : info.status with
    | «open» => exact absurd hinfo (hinv.storing pr info todo hpoll).1
    | unknown =>
      rw [hinfo] at hrow'
      cases hrow'
    | closed =>
      rw [hinfo] at hrow' hstatus
      rw [hws] at hrow'
      have hmerged : w.hasMerged id = true := hstatus.resolve_left nofun
      rw [of_decide_eq_true hrow' hactive hmerged] at hother
      cases hother
    | merged =>
      rw [hinfo, hws] at hrow'
      obtain ⟨hreplied, hsame⟩ | hall := of_decide_eq_true hrow'
      · exact ⟨hreplied, rfl, hsame.symm⟩
      · rw [of_decide_eq_true hall hactive] at hother
        cases hother

theorem Inv.store (hinv : Inv w) (hok : w.ok (.store now reply) = true) :
    Inv (w.act (.store now reply)) := by
  simp only [World.ok] at hok
  simp only [World.act]
  cases hpoll : w.poll with
  | storing pr info todo =>
    have hcopy : pr ∈ w.poll.copies := by
      rw [hpoll]
      exact List.mem_cons_self
    rw [hpoll] at hok
    obtain hfailed | hall := of_decide_eq_true hok
    · rw [hfailed]
      apply hinv.fails
      · intro pr' hpr'
        rw [hpoll]
        exact List.mem_cons_of_mem _ hpr'
      · intro id hsettles
        rw [hpoll] at hsettles
        exact hsettles.elim
    · rw [List.all_eq_true] at hall
      have hrows : ∀ row ∈ w.pullRequests, row.prUrl = pr.prUrl →
          w.okStored pr info.status (reply = .ok) row = true :=
        fun row hrow => of_decide_eq_true (hall row hrow)
      obtain ⟨row, hrow, hurl, -⟩ := hinv.copied pr hcopy
      have hfinal : info.status ≠ .unknown := by
        intro hunknown
        have := hrows row hrow hurl
        rw [hunknown] at this
        cases this
      cases reply with
      | failed =>
        apply hinv.fails
        · intro pr' hpr'
          rw [hpoll]
          exact List.mem_cons_of_mem _ hpr'
        · intro id hsettles
          rw [hpoll] at hsettles
          exact hsettles.elim
      | lost =>
        apply hinv.stores hpoll hfinal now ((w.store now pr info).fail todo) rfl rfl rfl
          (fun _ _ _ heq => by cases heq)
        intro id hneglects
        cases (store_settles hinv hpoll hrows hneglects).1
      | ok =>
        have hstored : ∀ id, (w.store now pr info).neglects id = true →
            info.status = .merged ∧ pr.workspaceId = some id :=
          fun id hneglects => (store_settles hinv hpoll hrows hneglects).2
        dsimp only
        unfold World.stored
        split
        · rename_i id hmerged hws
          apply hinv.stores hpoll hfinal now
            { w.store now pr info with poll := .loading id todo } rfl rfl rfl
            (fun _ _ _ heq => by cases heq)
          intro id' hneglects
          obtain ⟨-, hws'⟩ := hstored id' hneglects
          rw [hws] at hws'
          exact Option.some.inj hws'
        · rename_i hnone
          apply hinv.stores hpoll hfinal now
            { w.store now pr info with poll := .checking todo } rfl rfl rfl
            (fun _ _ _ heq => by cases heq)
          intro id hneglects
          obtain ⟨hmerged, hws⟩ := hstored id hneglects
          exact (hnone id hmerged hws).elim
  | _ => exact hinv

theorem Inv.load (hinv : Inv w) (hok : w.ok (.load read) = true) :
    Inv (w.act (.load read)) := by
  simp only [World.ok] at hok
  simp only [World.act]
  cases hpoll : w.poll with
  | loading id todo =>
    rw [hpoll] at hok
    have hcopies : ∀ pr ∈ todo, pr ∈ w.poll.copies := by
      rw [hpoll]
      exact fun pr hpr => hpr
    dsimp only
    split
    · cases hws : w.workspaces id with
      | none =>
        refine hinv.moves { w with poll := .checking todo } rfl (.refl _) ?_ ?_
          fun _ _ _ heq => by cases heq
        · exact fun pr hpr => .inl (hcopies pr hpr)
        · intro id' hneglects hsettles
          rw [hpoll] at hsettles
          obtain ⟨hactive, -⟩ := neglects_iff.mp hneglects
          rw [World.active, ← show id = id' from hsettles, hws] at hactive
          cases hactive
      | some ws =>
        refine hinv.moves { w with poll := .counting id ws.pinned todo } rfl (.refl _) ?_ ?_
          fun _ _ _ heq => by cases heq
        · exact fun pr hpr => .inl (hcopies pr hpr)
        · intro id' hneglects hsettles
          rw [hpoll] at hsettles
          obtain ⟨hactive, -⟩ := neglects_iff.mp hneglects
          rw [World.active, ← show id = id' from hsettles, hws] at hactive
          refine ⟨hsettles, ?_⟩
          have hpinned := (Bool.and_eq_true_iff.mp hactive).1
          rwa [Bool.not_eq_true'] at hpinned
    · apply hinv.fails hcopies
      intro id' hsettles
      rw [hpoll] at hsettles
      have hidle := (of_decide_eq_true hok).resolve_left ‹_›
      rw [← show id = id' from hsettles]
      exact Bool.eq_false_iff.mpr hidle
  | _ => exact hinv

theorem Inv.count (hinv : Inv w) (hok : w.ok (.count read) = true) :
    Inv (w.act (.count read)) := by
  simp only [World.ok] at hok
  simp only [World.act]
  cases hpoll : w.poll with
  | counting id pinned todo =>
    rw [hpoll] at hok
    have hcopies : ∀ pr ∈ todo, pr ∈ w.poll.copies := by
      rw [hpoll]
      exact fun pr hpr => hpr
    dsimp only
    split
    · split
      · refine hinv.moves { w with poll := .archiving id todo } rfl (.refl _) ?_ ?_
          fun _ _ _ heq => by cases heq
        · exact fun pr hpr => .inl (hcopies pr hpr)
        · intro id' _ hsettles
          rw [hpoll] at hsettles
          exact hsettles.1
      · rename_i hskip
        refine hinv.moves { w with poll := .checking todo } rfl (.refl _) ?_ ?_
          fun _ _ _ heq => by cases heq
        · exact fun pr hpr => .inl (hcopies pr hpr)
        · intro id' hneglects hsettles
          rw [hpoll] at hsettles
          obtain ⟨rfl, hpinned⟩ := hsettles
          exact (hskip ⟨(neglects_iff.mp hneglects).2.2.1, hpinned⟩).elim
    · apply hinv.fails hcopies
      intro id' hsettles
      rw [hpoll] at hsettles
      have hidle := (of_decide_eq_true hok).resolve_left ‹_›
      rw [← hsettles.1]
      exact Bool.eq_false_iff.mpr hidle
  | _ => exact hinv

theorem neglects_archived : (World.setWorkspace id ((w.workspaces id).map fun ws =>
    { ws with archived := true }) w).neglects i = if i = id then false else w.neglects i := by
  rw [neglects_setWorkspace]
  split
  · cases w.workspaces id <;> simp
  · rfl

section
variable (hinv : Inv w)
include hinv

theorem Inv.archived : Inv (World.setWorkspace id ((w.workspaces id).map fun ws =>
    { ws with archived := true }) w) := by
  refine hinv.workspace rfl rfl rfl ?_
  intro i hneglects
  rw [neglects_archived] at hneglects
  split at hneglects
  · cases hneglects
  · exact hneglects

theorem Inv.archive (hok : w.ok (.archive reply) = true) :
    Inv (w.act (.archive reply)) := by
  simp only [World.ok] at hok
  simp only [World.act]
  cases hpoll : w.poll with
  | archiving id todo =>
    rw [hpoll] at hok
    have hcopies : ∀ pr ∈ todo, pr ∈ w.poll.copies := by
      rw [hpoll]
      exact fun pr hpr => hpr
    have hidle : ∀ i, w.poll.settles i → (World.setWorkspace id ((w.workspaces id).map fun ws =>
        { ws with archived := true }) w).neglects i = false := by
      intro i hsettles
      rw [hpoll] at hsettles
      rw [neglects_archived, if_pos (show i = id from hsettles.symm)]
    cases reply with
    | ok =>
      refine hinv.archived.moves { w.setWorkspace id ((w.workspaces id).map fun ws =>
        { ws with archived := true }) with poll := .checking todo } rfl (.refl _) ?_ ?_
        fun _ _ _ heq => by cases heq
      · exact fun pr hpr => .inl (hcopies pr hpr)
      · intro i hneglects hsettles
        rw [hidle i hsettles] at hneglects
        cases hneglects
    | failed =>
      apply hinv.fails hcopies
      intro i hsettles
      rw [hpoll] at hsettles
      have hnone := (of_decide_eq_true hok).resolve_left (fun h => h rfl)
      rw [← show id = i from hsettles]
      exact Bool.eq_false_iff.mpr hnone
    | lost => exact hinv.archived.fails hcopies hidle
  | _ => exact hinv

theorem Inv.crash (hok : w.ok .crash = true) : Inv (w.act .crash) := by
  refine hinv.moves { w with poll := .idle } rfl (.refl _) ?_ ?_
    fun _ _ _ heq => by cases heq
  · intro pr hpr
    cases hpr
  · intro i hneglects hsettles
    simp only [World.ok] at hok
    cases hpoll : w.poll with
    | idle | checking | storing =>
      rw [hpoll] at hsettles
      exact hsettles
    | loading id todo | archiving id todo =>
      rw [hpoll] at hsettles hok
      have hid : id = i := hsettles
      rw [hid] at hok
      exact of_decide_eq_true hok hneglects
    | counting id pinned todo =>
      rw [hpoll] at hsettles hok
      obtain ⟨hid, -⟩ := hsettles
      rw [hid] at hok
      exact of_decide_eq_true hok hneglects

theorem Inv.start : Inv (w.act (.start read)) := by
  simp only [World.act]
  cases hpoll : w.poll with
  | idle =>
    dsimp only
    split
    · refine hinv.moves { w with poll := .checking (getOpen w.pullRequests), failed := false } rfl
        (.refl _) ?_ ?_ fun _ _ _ heq => by cases heq
      · exact fun pr hpr => .inr (List.mem_of_mem_filter hpr)
      · intro i _ hsettles
        rw [hpoll] at hsettles
        exact hsettles
    · exact hinv
  | _ => exact hinv

theorem Inv.answer : Inv (w.act (.answer info)) := by
  simp only [World.act]
  split
  · rename_i pr todo hpoll
    apply hinv.fails
    · intro pr' hpr'
      rw [hpoll]
      exact List.mem_cons_of_mem _ hpr'
    · intro i hsettles
      rw [hpoll] at hsettles
      exact hsettles.elim
  · rename_i pr todo info hpoll
    refine hinv.moves { w with
      reports := w.reports ++ [(pr.prUrl, info.status)]
      poll := if info.status = .open then .checking todo else .storing pr info todo } rfl
      (List.subset_append_left _ _) ?_ ?_ ?_
    · intro pr' hpr'
      rw [hpoll]
      dsimp only at hpr'
      split at hpr'
      · exact .inl (List.mem_cons_of_mem _ hpr')
      · exact .inl hpr'
    · intro i _ hsettles
      rw [hpoll] at hsettles
      exact hsettles.elim
    · intro pr' info' todo' heq
      dsimp only at heq
      split at heq
      · cases heq
      · rename_i hopen
        cases heq
        exact ⟨hopen, List.mem_append_right _ (List.mem_singleton.mpr rfl)⟩
  · exact hinv

theorem Inv.finish : Inv (w.act .finish) := by
  simp only [World.act]
  split
  · rename_i hpoll
    refine hinv.moves { w with poll := .idle, polled := !w.failed } rfl (.refl _) ?_ ?_
      fun _ _ _ heq => by cases heq
    · intro pr hpr
      cases hpr
    · intro i _ hsettles
      rw [hpoll] at hsettles
      exact hsettles
  · exact hinv

omit hinv in
theorem delete_keeps (hok : w.pullRequests.all fun pr => pr.id = prId → pr.prStatus ≠ .open)
    (h : pr ∈ w.pullRequests) (hopen : pr.prStatus = .open) :
    pr ∈ PullRequests.delete prId w.pullRequests := by
  have hne := of_decide_eq_true (List.all_eq_true.mp hok pr h)
  exact List.mem_filter.mpr ⟨h, decide_eq_true fun hid => hne hid hopen⟩

theorem Inv.delete (hok : w.ok (.delete prId) = true) : Inv (w.act (.delete prId)) := by
  simp only [World.act]
  split
  · rename_i hpoll
    rw [World.ok, hpoll] at hok
    apply Inv.mk
    · exact hinv.urls.sublist (List.filter_sublist.map _)
    · rw [hpoll]
      exact fun pr hpr => by cases hpr
    · intro i hneglects
      apply hinv.settled
      obtain ⟨hactive, hmerged, hcount, hun⟩ := neglects_iff.mp hneglects
      rw [countOpen_zero] at hcount
      obtain ⟨pr, hpr, hstatus⟩ := hasMerged_iff.mp hmerged
      refine neglects_iff.mpr ⟨hactive, hasMerged_iff.mpr ⟨pr, List.mem_of_mem_filter hpr, hstatus⟩,
        countOpen_zero.mpr fun row hrow hws hopen => ?_, hun⟩
      exact hcount row (delete_keeps hok hrow hopen) hws hopen
    · exact fun pr hpr => hinv.reported pr (List.mem_of_mem_filter hpr)
    · exact hinv.storing
  · exact hinv

theorem Inv.insert : Inv (w.act (.insert id)) := by
  simp only [World.act]
  split
  · rename_i hnew
    refine hinv.workspace rfl rfl rfl ?_
    intro i hneglects
    rw [neglects_setWorkspace] at hneglects
    split at hneglects
    · rw [Bool.and_eq_true, Bool.and_eq_true] at hneglects
      obtain ⟨⟨-, hdue⟩, -⟩ := hneglects
      obtain ⟨hmerged, -⟩ := of_decide_eq_true hdue
      obtain ⟨pr, hpr, hws, -⟩ := hasMerged_iff.mp hmerged
      exact (hnew.2 pr hpr hws).elim
    · exact hneglects
  · exact hinv

theorem Inv.remove : Inv (w.act (.remove id)) := by
  refine hinv.workspace rfl rfl rfl ?_
  intro i hneglects
  simp only [World.act] at hneglects
  rw [neglects_setWorkspace] at hneglects
  split at hneglects
  · cases hneglects
  · exact hneglects

theorem Inv.pin (hok : w.ok (.pin id pinned) = true) :
    Inv (w.act (.pin id pinned)) := by
  refine hinv.workspace rfl rfl rfl ?_
  intro i hneglects
  simp only [World.act] at hneglects
  rw [neglects_setWorkspace] at hneglects
  split at hneglects
  · rename_i hid
    rw [hid]
    rw [Bool.and_eq_true, Bool.and_eq_true, Bool.not_eq_true'] at hneglects
    obtain ⟨⟨hactive, hdue⟩, hun⟩ := hneglects
    cases hws : w.workspaces id with
    | none =>
      rw [hws] at hactive
      cases hactive
    | some ws =>
      rw [hws] at hactive
      obtain ⟨hpinned, harchived⟩ := Bool.and_eq_true_iff.mp
        (show (!pinned && !ws.archived) = true from hactive)
      rw [Bool.not_eq_true'] at hpinned harchived
      have hor := of_decide_eq_true hok hpinned hdue
      rw [hun, hws] at hor
      have hfree := hor.resolve_left nofun
      rw [Option.all_some, harchived, Bool.false_or] at hfree
      rw [World.neglects, World.active, hws, hdue, hun, Option.any_some, hfree, harchived]
      rfl
  · exact hneglects

theorem Inv.setArchived {archived : Bool} :
    Inv (w.act (.setArchived id archived)) := by
  refine hinv.workspace rfl rfl rfl ?_
  intro i hneglects
  obtain ⟨hactive, hmerged, hcount, hun⟩ := neglects_iff.mp hneglects
  obtain ⟨hun, hthis⟩ := Bool.or_eq_false_iff.mp
    (show (w.unarchived i || (i = id && !archived)) = false from hun)
  apply neglects_iff.mpr
  refine ⟨?_, hmerged, hcount, hun⟩
  have hset : (w.setWorkspace id ((w.workspaces id).map fun ws => { ws with archived })).active i =
    true := hactive
  rw [active_setWorkspace] at hset
  split at hset
  · rename_i hid
    have harchived : archived = true := by
      rw [decide_eq_true hid, Bool.true_and, Bool.not_eq_false'] at hthis
      exact hthis
    rw [harchived] at hset
    cases hws : w.workspaces id with
    | none =>
      rw [hws] at hset
      cases hset
    | some ws =>
      rw [hws] at hset
      have := (Bool.and_eq_true_iff.mp (show (!ws.pinned && !true) = true from hset)).2
      cases this
  · exact hset

theorem Inv.act (hok : w.ok event = true) : Inv (w.act event) := by
  cases event with
  | create now data => exact hinv.create hok
  | insert id => exact hinv.insert
  | remove id => exact hinv.remove
  | pin id pinned => exact hinv.pin hok
  | setArchived id archived => exact hinv.setArchived
  | start read => exact hinv.start
  | answer info => exact hinv.answer
  | store now reply => exact hinv.store hok
  | load read => exact hinv.load hok
  | count read => exact hinv.count hok
  | archive reply => exact hinv.archive hok
  | finish => exact hinv.finish
  | delete id => exact hinv.delete hok
  | crash => exact hinv.crash hok

theorem Inv.step (hok : w.ok event = true) : Inv (w.step event) := by
  have hstart : Inv { w with polled := false } := by
    exact hinv.moves { w with polled := false } rfl (.refl _) (fun pr hpr => .inl hpr)
      (fun i _ hsettles => hsettles) hinv.storing
  have hacted : Inv (World.act { w with polled := false } event) := by
    apply hstart.act
    cases event <;> exact hok
  refine hacted.workspace rfl rfl rfl ?_
  intro i hneglects
  obtain ⟨hactive, hmerged, hcount, hun⟩ := neglects_iff.mp hneglects
  have hdue : (World.act { w with polled := false } event).due i = true :=
    decide_eq_true ⟨hmerged, hcount⟩
  have hkept : ((World.act { w with polled := false } event).unarchived i &&
      (World.act { w with polled := false } event).due i) = false := hun
  rw [hdue, Bool.and_true] at hkept
  exact neglects_iff.mpr ⟨hactive, hmerged, hcount, hkept⟩

end

theorem Inv.new : Inv .new := by
  apply Inv.mk
  · exact List.nodup_nil
  · exact fun pr hpr => by cases hpr
  · exact fun i hneglects => by cases hneglects
  · exact fun pr hpr => by cases hpr
  · exact fun pr info todo heq => by cases heq

def World.urls (w : World) : List String :=
  w.pullRequests.map (·.prUrl)

/-- What an event makes of a world. -/
structure Acts (w : World) (event : Event) (w' : World) : Prop where
  reports : w.reports ⊆ w'.reports
  polled : w'.polled = w.polled ∨ w'.poll = .idle
  urls : w.urls ⊆ w'.urls ∨
    w.poll = .idle ∧ ∃ id, event = .delete id ∧ w'.pullRequests = delete id w.pullRequests

theorem act_acts (w : World) (event : Event) : Acts w event (w.act event) := by
  have hkept : ∀ w', w'.reports = w.reports → w'.polled = w.polled → w'.urls = w.urls →
      Acts w event w' :=
    fun w' hreports hpolled hurls => ⟨hreports ▸ .refl _, .inl hpolled, .inl (hurls ▸ .refl _)⟩
  cases event with
  | create now data =>
    refine ⟨.refl _, .inl rfl, .inl fun url h => ?_⟩
    obtain ⟨pr, hpr, rfl⟩ := List.mem_map.mp h
    obtain ⟨pr', hpr', hurl, -⟩ := create_keeps now data hpr
    exact List.mem_map.mpr ⟨pr', hpr', hurl⟩
  | answer info =>
    simp only [World.act]
    split
    · exact hkept _ rfl rfl rfl
    · exact ⟨List.subset_append_left _ _, .inl rfl, .inl (.refl _)⟩
    · exact hkept _ rfl rfl rfl
  | store now reply =>
    simp only [World.act]
    split
    · unfold World.stored
      split <;> exact hkept _ rfl rfl updateStatus_urls
    · exact hkept _ rfl rfl rfl
    · exact hkept _ rfl rfl updateStatus_urls
    · exact hkept _ rfl rfl rfl
  | finish =>
    simp only [World.act]
    split
    · exact ⟨.refl _, .inr rfl, .inl (.refl _)⟩
    · exact hkept _ rfl rfl rfl
  | delete id =>
    simp only [World.act]
    split
    · rename_i hpoll
      exact ⟨.refl _, .inl rfl, .inr ⟨hpoll, id, rfl, rfl⟩⟩
    · exact hkept _ rfl rfl rfl
  | insert | start | load | count | archive =>
    simp only [World.act]
    repeat' split
    all_goals exact hkept _ rfl rfl rfl
  | remove | pin | setArchived | crash => exact hkept _ rfl rfl rfl

theorem step_polled (h : (World.step w event).polled = true) :
    (World.step w event).poll = .idle := by
  obtain hkept | hidle := (act_acts { w with polled := false } event).polled
  · cases hkept.symm.trans h
  · exact hidle

theorem step_reports (event : Event) : w.reports ⊆ (World.step w event).reports :=
  (act_acts { w with polled := false } event).reports

def World.Keeps (pr : PullRequest) (w : World) : Prop :=
  w.Reported pr ∨ pr.prUrl ∈ w.urls

theorem step_keeps (hinv : Inv w) (hok : w.ok event = true) (h : pr ∈ w.pullRequests) :
    (World.step w event).Keeps pr := by
  obtain hurls | ⟨hpoll, id, rfl, hrows⟩ := (act_acts { w with polled := false } event).urls
  · exact .inr (hurls (List.mem_map_of_mem h))
  · rw [World.ok, show w.poll = .idle from hpoll] at hok
    obtain hopen | hreported := hinv.reported pr h
    · exact .inr (List.mem_map_of_mem (hrows ▸ delete_keeps hok h hopen))
    · exact .inl (hreported.imp (step_reports _ ·) (step_reports _ ·))

theorem Inv.run_keeps (hinv : Inv w)
    (hok : Run.Each World.step (fun w event => w.ok event = true) w events) (h : w.Keeps pr) :
    (Run.run World.step w events).Keeps pr := by
  induction events generalizing w with
  | nil => exact h
  | cons event events ih =>
    apply ih (hinv.step hok.1) hok.2
    obtain hreported | hurl := h
    · exact .inl (hreported.imp (step_reports event ·) (step_reports event ·))
    · obtain ⟨pr', hpr', hurl⟩ := List.mem_map.mp hurl
      have hkept := step_keeps hinv hok.1 hpr'
      rwa [World.Keeps, World.Reported, hurl] at hkept

theorem merged_archived (hok : Run.Each World.step (fun w event => w.ok event = true) .new events) :
    MergedArchived events := by
  have hrun : ∀ {events}, Run.Each World.step (fun w event => w.ok event = true) .new events →
      Inv (Run.run World.step .new events) :=
    Run.Each.preserves (fun _ _ hinv hok => hinv.step hok) Inv.new
  have hinv := hrun hok
  apply And.intro
  · intro hpolled id
    have hidle : (Run.run World.step .new events).poll = .idle := by
      obtain rfl | ⟨init, event, rfl⟩ := events.eq_nil_or_concat
      · rfl
      · rw [List.concat_eq_append, Run.run_append] at hpolled ⊢
        exact step_polled hpolled
    apply Bool.eq_false_iff.mpr
    intro hneglects
    have hsettles := hinv.settled id hneglects
    rw [hidle] at hsettles
    exact hsettles
  · intro before after hsplit pr hpr hmerged hclosed
    obtain ⟨hbefore, hafter⟩ := (hsplit ▸ hok).append
    have hkept := (hrun hbefore).run_keeps hafter (.inr (List.mem_map_of_mem hpr))
    rw [← Run.run_append, ← hsplit] at hkept
    obtain ⟨pr', hpr', hurl⟩ := List.mem_map.mp (hkept.resolve_left (not_or.mpr ⟨hmerged, hclosed⟩))
    refine ⟨pr', List.mem_filter.mpr ⟨hpr', ?_⟩, hurl⟩
    obtain hopen | hrep | hrep := hinv.reported pr' hpr'
    · exact decide_eq_true hopen
    · rw [hurl] at hrep
      exact absurd hrep hmerged
    · rw [hurl] at hrep
      exact absurd hrep hclosed

def tracked (number : Nat) : List Event :=
  [.insert 1, .create 0 ⟨toString number, some 1, none, toString number, number, "main"⟩]

def poll (status : MergeStatus) : List Event :=
  [.start true, .answer (some ⟨status, none, none⟩), .store 1 .ok]

theorem merged_archived_sample :
    MergedArchived (tracked 1 ++ poll .merged ++ [.load true, .count true, .archive .ok, .finish]) :=
  merged_archived (by decide +kernel)

/-- Of two pull requests the second is closed after the first is merged; a status is not known; and
the server stops after a merge is stored. -/
theorem merged_not_archived :
    ¬MergedArchived (tracked 1 ++ tracked 2 ++ poll .merged ++ [.load true, .count true,
        .answer (some ⟨.closed, none, none⟩), .store 1 .ok, .finish]) ∧
      ¬MergedArchived (tracked 1 ++ poll .unknown ++ [.finish]) ∧
      ¬MergedArchived (tracked 1 ++ poll .merged ++ [.crash, .start true, .finish]) := by
  refine ⟨?_, ?_, ?_⟩
  · intro h
    have := h.1 (by decide +kernel) 1
    revert this
    decide +kernel
  · intro h
    have := h.2 _ [] (List.append_nil _).symm
    revert this
    decide +kernel
  · intro h
    have := h.1 (by decide +kernel) 1
    revert this
    decide +kernel

end Cdesktop.PrMonitor
