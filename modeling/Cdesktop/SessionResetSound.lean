import Cdesktop.SessionReset

/-! What a reset that returns Ok has done to the worktrees and to the processes of its session. -/

namespace Cdesktop.SessionReset
open Table (Reply)
set_option autoImplicit true

structure Process.Follows (p q : Process) : Prop where
  id : q.id = p.id
  sessionId : q.sessionId = p.sessionId
  runReason : q.runReason = p.runReason
  createdAt : q.createdAt = p.createdAt
  dropped : q.dropped = p.dropped
  before : ∀ repo, beforeHeadCommit q.repoStates repo = beforeHeadCommit p.repoStates repo
  isOver : p.status ≠ .running → q.status ≠ .running

theorem Process.Follows.refl (p : Process) : p.Follows p :=
  ⟨rfl, rfl, rfl, rfl, rfl, fun _ => rfl, fun hover => hover⟩

theorem Process.Follows.trans {p q r : Process} (h : p.Follows q) (h' : q.Follows r) :
    p.Follows r where
  id := h'.id.trans h.id
  sessionId := h'.sessionId.trans h.sessionId
  runReason := h'.runReason.trans h.runReason
  createdAt := h'.createdAt.trans h.createdAt
  dropped := h'.dropped.trans h.dropped
  before repo := (h'.before repo).trans (h.before repo)
  isOver hover := h'.isOver (h.isOver hover)

/-- The rows stay in their places, and new ones come after them. -/
def Follows (ps qs : List Process) : Prop :=
  ∀ (i : Nat) (p : Process), ps[i]? = some p → ∃ q, qs[i]? = some q ∧ p.Follows q

theorem Follows.refl (ps : List Process) : Follows ps ps := fun _ p hp => ⟨p, hp, .refl p⟩

theorem Follows.trans {ps qs rs : List Process} (h : Follows ps qs) (h' : Follows qs rs) :
    Follows ps rs := by
  intro i p hp
  obtain ⟨q, hq, hpq⟩ := h i p hp
  obtain ⟨r, hr, hqr⟩ := h' i q hq
  exact ⟨r, hr, hpq.trans hqr⟩

theorem follows_append (ps more : List Process) : Follows ps (ps ++ more) := by
  intro i p hp
  obtain ⟨hlt, -⟩ := List.getElem?_eq_some_iff.mp hp
  apply Exists.intro p
  apply And.intro _ (.refl p)
  rw [List.getElem?_append_left hlt, hp]

theorem follows_update {ps : List Process} {c : Process → Bool} {f : Process → Process}
    (h : ∀ p, c p = true → p.Follows (f p)) : Follows ps (Table.update c f ps) := by
  intro i p hp
  apply Exists.intro (if c p then f p else p)
  apply And.intro
  · simp [Table.update, hp]
  · split
    · rename_i hc
      exact h p hc
    · exact .refl p

theorem follows_finish (id : Uuid) (status : ExecutionProcessStatus) (ps : List Process) :
    Follows ps (finish id status ps) := by
  apply follows_update
  intro p hp
  have hrunning : p.status = .running := (of_decide_eq_true hp).2
  exact {
    id := rfl, sessionId := rfl, runReason := rfl, createdAt := rfl, dropped := rfl
    before := fun _ => rfl, isOver := fun hover => absurd hrunning hover }

theorem beforeHeadCommit_update {f : ExecutionProcessRepoState → ExecutionProcessRepoState}
    {c : ExecutionProcessRepoState → Bool} (hrepo : ∀ state, (f state).repoId = state.repoId)
    (hbefore : ∀ state, (f state).beforeHeadCommit = state.beforeHeadCommit)
    (states : List ExecutionProcessRepoState) (repo : Uuid) :
    beforeHeadCommit (Table.update c f states) repo = beforeHeadCommit states repo := by
  induction states with
  | nil => rfl
  | cons state states ih =>
    have hkey : (if c state then f state else state).repoId = state.repoId := by
      split
      · exact hrepo state
      · rfl
    have hhead : (if c state then f state else state).beforeHeadCommit =
        state.beforeHeadCommit := by
      split
      · exact hbefore state
      · rfl
    unfold beforeHeadCommit at ih ⊢
    simp only [Table.update, List.map_cons, List.find?_cons, hkey] at ih ⊢
    split
    · exact hhead
    · exact ih

theorem Follows.find {ps qs : List Process} (h : Follows ps qs) {a : Uuid} {p : Process}
    (hp : ps.find? (fun p => p.id = a) = some p) :
    ∃ q, qs.find? (fun p => p.id = a) = some q ∧ p.Follows q := by
  obtain ⟨hid, i, hi, hget, hbefore⟩ := List.find?_eq_some_iff_getElem.mp hp
  obtain ⟨q, hq, hpq⟩ := h i p (List.getElem?_eq_some_iff.mpr ⟨hi, hget⟩)
  obtain ⟨hi', hget'⟩ := List.getElem?_eq_some_iff.mp hq
  apply Exists.intro q
  apply And.intro _ hpq
  apply List.find?_eq_some_iff_getElem.mpr
  apply And.intro
  · rw [hpq.id]
    exact hid
  · apply Exists.intro i
    apply Exists.intro hi'
    apply And.intro hget'
    intro j hj
    have hlt : j < ps.length := Nat.lt_trans hj hi
    obtain ⟨r, hr, hfollows⟩ := h j ps[j] (List.getElem?_eq_some_iff.mpr ⟨hlt, rfl⟩)
    obtain ⟨hlt', hr'⟩ := List.getElem?_eq_some_iff.mp hr
    rw [hr', hfollows.id]
    exact hbefore j hj

theorem Follows.createdAt {ps qs : List Process} (h : Follows ps qs) {a : Uuid} {t : Time}
    (ht : createdAt ps a = some t) : SessionReset.createdAt qs a = some t := by
  obtain ⟨p, hp, htime⟩ := Option.map_eq_some_iff.mp ht
  obtain ⟨q, hq, hpq⟩ := h.find hp
  rw [SessionReset.createdAt, hq, Option.map_some, hpq.createdAt, htime]

def Phase.loaded : Phase → Bool
  | .ensuring _ | .checking _ _ | .repos _ _ _ | .head _ _ _ _ _ | .reset _ _ _ _ _
  | .clean _ _ _ _ => true
  | _ => false

namespace World

structure Early (w w' : World) : Prop where
  processes : w'.processes = w.processes
  sessions : w'.sessions = w.sessions
  acts : ∀ act ∈ w.acts, act ∈ w'.acts
  phase : w'.phase.loaded = true ∨ w'.phase = .sessions ∨ w'.phase = .returned false

theorem early_resetStep (ws : Workspace) (x : ResetRequest) (move : Move) (w : World)
    (hloaded : w.phase.loaded = true) : Early w (w.resetStep ws x move) := by
  have hkept : ∀ (phase : Phase) (worktrees : Uuid → Option Worktree),
      phase.loaded = true ∨ phase = .sessions ∨ phase = .returned false →
      Early w { w with phase, worktrees } :=
    fun _ _ hphase => ⟨rfl, rfl, fun _ hact => hact, hphase⟩
  have hmore : ∀ (phase : Phase) (worktrees : Uuid → Option Worktree) (more : List Act),
      phase.loaded = true ∨ phase = .sessions ∨ phase = .returned false →
      Early w { w with phase, worktrees, acts := w.acts ++ more } :=
    fun _ _ _ hphase => ⟨rfl, rfl, fun _ hact => List.mem_append_left _ hact, hphase⟩
  unfold resetStep
  split
  · rename_i hphase
    simp [hphase, Phase.loaded] at hloaded
  · dsimp only
    split
    · split
      · exact hkept _ _ (.inl rfl)
      · exact hmore _ _ _ (.inl rfl)
    · exact hkept _ _ (.inr (.inr rfl))
  · exact hkept _ w.worktrees (.inl rfl)
  · split
    · exact hkept _ w.worktrees (.inl rfl)
    · split
      · exact hmore _ w.worktrees _ (.inl rfl)
      · split
        · exact hmore _ w.worktrees _ (.inl rfl)
        · exact hkept _ w.worktrees (.inl rfl)
  · exact hkept _ w.worktrees (.inr (.inl rfl))
  · split
    · exact hkept _ w.worktrees (.inl rfl)
    · split
      · split
        · exact hkept _ w.worktrees (.inl rfl)
        · exact hkept _ w.worktrees (.inl rfl)
      · exact hkept _ w.worktrees (.inr (.inr rfl))
  · rename_i states isDirty repo oid todo read _
    dsimp only
    cases needsReset x (if read then (w.worktrees repo).map (·.head) else none) oid isDirty with
    | true => exact hkept _ w.worktrees (.inl rfl)
    | false => exact hkept _ w.worktrees (.inl rfl)
  · split
    · split
      · exact hmore _ _ _ (.inl rfl)
      · split
        · exact hmore _ _ _ (.inl rfl)
        · exact hmore _ w.worktrees _ (.inl rfl)
    · exact hmore _ w.worktrees _ (.inl rfl)
  · split
    · exact hmore _ _ _ (.inl rfl)
    · exact hmore _ w.worktrees _ (.inl rfl)
  · rename_i hphase
    simp [hphase, Phase.loaded] at hloaded
  · rename_i hphase
    simp [hphase, Phase.loaded] at hloaded
  · rename_i hphase
    simp [hphase, Phase.loaded] at hloaded
  · rename_i hphase
    simp [hphase, Phase.loaded] at hloaded
  · rename_i hphase
    simp [hphase, Phase.loaded] at hloaded
  · rename_i hphase
    simp [hphase, Phase.loaded] at hloaded
  · exact ⟨rfl, rfl, fun _ hact => hact, .inl hloaded⟩

inductive Late (ws : Workspace) (x : ResetRequest) (w : World) : World → Prop where
  | idle : Late ws x w w
  | refused : w.phase = .asked → Late ws x w { w with phase := .returned false }
  | found (states : List ExecutionProcessRepoState) : x.sessionId ∈ w.sessions →
      w.phase = .asked → Late ws x w
        { w with phase := if ws.useWorktree then .ensuring states else .sessions }
  | listed : w.phase = .sessions → Late ws x w { w with phase := .listing w.sessions }
  | unlisted : w.phase = .sessions →
      Late ws x w { w with phase := .dropping, acts := w.acts ++ [.listFailed none] }
  | ended : w.phase = .listing [] → Late ws x w { w with phase := .dropping }
  | loaded : w.phase = .listing (session :: todo) →
      Late ws x w
        { w with phase := .stopping (findBySessionId w.processes session) todo }
  | unloaded : w.phase = .listing (session :: todo) →
      Late ws x w
        { w with phase := .listing todo, acts := w.acts ++ [.listFailed (some session)] }
  | finished : w.phase = .stopping [] todo → Late ws x w { w with phase := .listing todo }
  | skipped : q.runReason = .devServer ∨ q.status ≠ .running →
      w.phase = .stopping (q :: rest) todo →
        Late ws x w { w with phase := .stopping rest todo }
  | killed : w.phase = .stopping (q :: rest) todo →
      Late ws x w
        { w with phase := .stopping rest todo, processes := finish q.id .killed w.processes }
  | missed : w.phase = .stopping (q :: rest) todo →
      Late ws x w
        { w with phase := .stopping rest todo, acts := w.acts ++ [.stopFailed q.id] }
  | failed : w.phase = .dropping → Late ws x w { w with phase := .returned false }
  | dropped (ok : Bool) : w.phase = .dropping →
      Late ws x w
        { w with
          phase := .returned ok
          processes := dropAtAndAfter x.sessionId x.targetProcessId w.processes }

theorem late_resetStep (ws : Workspace) (x : ResetRequest) (move : Move) (w : World)
    (hloaded : ¬ w.phase.loaded = true) : Late ws x w (w.resetStep ws x move) := by
  have hstep := resetStep.eq_def ws x move w
  split at hstep
  case h_1 reply hphase =>
    rw [hstep]
    split
    · exact .refused hphase
    · split
      next hfound => exact .found _ hfound.2.2 hphase
      · exact .refused hphase
  case h_10 reply hphase =>
    rw [hstep]
    split
    · exact .listed hphase
    · exact .unlisted hphase
  case h_11 hphase => exact hstep ▸ .ended hphase
  case h_12 session todo reply hphase =>
    rw [hstep]
    split
    · exact .loaded hphase
    · exact .unloaded hphase
  case h_13 todo hphase => exact hstep ▸ .finished hphase
  case h_14 q rest todo ok hphase =>
    rw [hstep]
    split
    next hskipped => exact .skipped hskipped hphase
    · split
      · exact .killed hphase
      · exact .missed hphase
  case h_15 reply hphase =>
    rw [hstep]
    split
    · exact .failed hphase
    · exact .dropped _ hphase
  case h_16 =>
    rw [hstep]
    exact .idle
  all_goals
    rename_i hphase
    exact absurd (by rw [hphase]; rfl) hloaded

theorem follows_resetStep (ws : Workspace) (x : ResetRequest) (move : Move) (w : World)
    (hphase : w.phase ≠ .dropping) : Follows w.processes (w.resetStep ws x move).processes := by
  by_cases hloaded : w.phase.loaded = true
  · rw [(w.early_resetStep ws x move hloaded).processes]
    exact .refl _
  have hlate := w.late_resetStep ws x move hloaded
  generalize w.resetStep ws x move = w' at hlate
  cases hlate with
  | killed => exact follows_finish _ _ _
  | dropped ok hdropping => exact absurd hdropping hphase
  | _ => exact .refl _

structure Others (w w' : World) : Prop where
  follows : Follows w.processes w'.processes
  phase : w'.phase = w.phase
  sessions : ∀ session ∈ w.sessions, session ∈ w'.sessions
  trees : w'.worktrees = w.worktrees ∧ w'.acts = w.acts ∨
    ∃ repo tree, w'.worktrees = (w.setTree repo tree).worktrees ∧ w'.acts = w.acts ++ [.wrote repo]

theorem others_exec (ws : Workspace) (x : ResetRequest) (event : Event) (w : World)
    (hevent : ∀ move, event ≠ .reset move) : Others w (w.exec ws x event) := by
  have hrefl : Others w w := ⟨.refl _, rfl, fun _ h => h, .inl ⟨rfl, rfl⟩⟩
  cases event with
  | reset move => exact absurd rfl (hevent move)
  | write id repo tree =>
    simp only [exec]
    split
    · exact ⟨.refl _, rfl, fun _ h => h, .inr ⟨repo, tree, rfl, rfl⟩⟩
    · exact hrefl
  | publish id status =>
    simp only [exec]
    split
    · exact hrefl
    · exact ⟨follows_finish _ _ _, rfl, fun _ h => h, .inl ⟨rfl, rfl⟩⟩
  | updateAfterHeadCommit id repo =>
    simp only [exec]
    split
    · exact hrefl
    · apply Others.mk
      · apply follows_update
        intro p _
        exact {
          id := rfl, sessionId := rfl, runReason := rfl, createdAt := rfl, dropped := rfl
          before := by
            intro r
            apply beforeHeadCommit_update
            · exact fun _ => rfl
            · exact fun _ => rfl
          isOver := fun hover => hover }
      · rfl
      · exact fun _ h => h
      · exact .inl ⟨rfl, rfl⟩
  | createSession sessionId =>
    exact ⟨.refl _, rfl, fun _ h => List.mem_append_left _ h, .inl ⟨rfl, rfl⟩⟩
  | enqueue sessionId => exact ⟨.refl _, rfl, fun _ h => h, .inl ⟨rfl, rfl⟩⟩
  | dispatch sessionId id now =>
    simp only [exec]
    split
    · exact ⟨follows_append _ _, rfl, fun _ h => h, .inl ⟨rfl, rfl⟩⟩
    · exact hrefl
  | start id sessionId runReason now =>
    simp only [exec]
    split
    · exact ⟨follows_append _ _, rfl, fun _ h => h, .inl ⟨rfl, rfl⟩⟩
    · exact hrefl

end World

/-- Whether a process wrote to the worktree after the reset had last looked at it. -/
def dirtied (repo : Uuid) (acts : List Act) : Bool :=
  acts.foldl (fun was act =>
    match act with
    | .wrote r => if r = repo then true else was
    | .looked r => if r = repo then false else was
    | _ => was) false

theorem dirtied_wrote (repo : Uuid) (acts : List Act) :
    dirtied repo (acts ++ [.wrote repo]) = true := by
  simp [dirtied, List.foldl_append]

theorem dirtied_append (hact : act ≠ .looked repo) (h : dirtied repo acts = true) :
    dirtied repo (acts ++ [act]) = true := by
  unfold dirtied at h ⊢
  rw [List.foldl_append, h]
  cases act with
  | wrote r => simp
  | looked r =>
    have hne : r ≠ repo := fun heq => hact (by rw [heq])
    simp [hne]
  | unchecked => rfl
  | gitFailed r => rfl
  | kept r => rfl
  | listFailed session => rfl
  | stopFailed id => rfl

/-- Why a worktree may not be as the reset was to leave it. -/
def World.Excused (repo : Uuid) (w : World) : Prop :=
  .unchecked ∈ w.acts ∨ .gitFailed repo ∈ w.acts ∨ .kept repo ∈ w.acts ∨
    dirtied repo w.acts = true

theorem World.Excused.append {w w' : World} (h : w.Excused repo)
    (hacts : w'.acts = w.acts ∨ ∃ act, w'.acts = w.acts ++ [act] ∧ act ≠ .looked repo) :
    w'.Excused repo := by
  obtain heq | ⟨act, heq, hact⟩ := hacts
  · unfold World.Excused
    rw [heq]
    exact h
  · unfold World.Excused
    rw [heq]
    obtain hmem | hmem | hmem | hwrote := h
    · exact .inl (List.mem_append_left _ hmem)
    · exact .inr (.inl (List.mem_append_left _ hmem))
    · exact .inr (.inr (.inl (List.mem_append_left _ hmem)))
    · exact .inr (.inr (.inr (dirtied_append hact hwrote)))

inductive Stage where
  | unseen
  | present
  | seen (isDirty : Bool)
  | cleaning
  | done

def Phase.stage (repo : Uuid) : Phase → Stage
  | .asked | .ensuring _ | .returned _ => .unseen
  | .checking _ todo => if repo ∈ todo then .present else .seen false
  | .repos _ isDirty todo => if repo ∈ todo then .seen isDirty else .done
  | .head _ isDirty r _ todo => if repo = r ∨ repo ∈ todo then .seen isDirty else .done
  | .reset _ isDirty r _ todo => if repo = r ∨ repo ∈ todo then .seen isDirty else .done
  | .clean _ isDirty r todo =>
    if repo = r then .cleaning else if repo ∈ todo then .seen isDirty else .done
  | .sessions | .listing _ | .stopping _ _ | .dropping => .done

def Stage.Holds (oid : String) (tree : Worktree) : Stage → Prop
  | .unseen => True
  | .present => True
  | .seen isDirty => isDirty = true ∨ tree.clean = true
  | .cleaning => tree.head = oid ∧ tree.uncommitted = 0
  | .done => tree.head = oid ∧ tree.clean = true

def World.Fits (oid : String) (repo : Uuid) (stage : Stage) (w : World) : Prop :=
  w.Excused repo ∨ stage = .unseen ∨ ∃ tree, w.worktrees repo = some tree ∧ stage.Holds oid tree

/-- A step that does not touch the worktree, and leaves it at a stage that asks for no more. -/
theorem World.Fits.keeps {w w' : World} (h : w.Fits oid repo stage) (hunseen : stage ≠ .unseen)
    (hworktree : w'.worktrees repo = w.worktrees repo)
    (hacts : w'.acts = w.acts ∨ ∃ act, w'.acts = w.acts ++ [act] ∧ act ≠ .looked repo)
    (hstage : ∀ tree, stage.Holds oid tree → stage'.Holds oid tree) :
    w'.Fits oid repo stage' := by
  obtain hexcused | heq | ⟨tree, htree, hholds⟩ := h
  · exact .inl (hexcused.append hacts)
  · exact absurd heq hunseen
  · exact .inr (.inr ⟨tree, hworktree.trans htree, hstage tree hholds⟩)

/-- The commit of the repository that the target process started from, where it is recorded. -/
def World.startedFrom (x : ResetRequest) (repo : Uuid) (w : World) : Option String :=
  (w.processes.find? fun p => p.id = x.targetProcessId).bind fun p =>
    beforeHeadCommit p.repoStates repo

def Phase.states : Phase → List ExecutionProcessRepoState
  | .ensuring states => states
  | .checking states _ => states
  | .repos states _ _ => states
  | .head states _ _ _ _ => states
  | .reset states _ _ _ _ => states
  | .clean states _ _ _ => states
  | _ => []

def Phase.todo : Phase → List Uuid
  | .repos _ _ todo => todo
  | .head _ _ repo _ todo => repo :: todo
  | .reset _ _ repo _ todo => repo :: todo
  | .clean _ _ repo todo => repo :: todo
  | _ => []

def Phase.aim : Phase → Option (Uuid × String)
  | .head _ _ repo oid _ => some (repo, oid)
  | .reset _ _ repo oid _ => some (repo, oid)
  | _ => none

structure World.Restores (ws : Workspace) (x : ResetRequest) (w₀ w : World) : Prop where
  states : w.phase.loaded = true → ∀ repo oid, w₀.startedFrom x repo = some oid →
    beforeHeadCommit w.phase.states repo = some oid
  aim : ∀ repo oid, w.phase.aim = some (repo, oid) →
    ∀ oid', w₀.startedFrom x repo = some oid' → oid' = oid
  todo : w.phase.todo.Nodup
  fits : ∀ repo ∈ ws.repos, ∀ oid, w₀.startedFrom x repo = some oid →
    w.Fits oid repo (w.phase.stage repo)

section Restores
variable {ws : Workspace} {x : ResetRequest} {w₀ w w' : World}
  {states : List ExecutionProcessRepoState} {isDirty : Bool} {repo : Uuid} {oid : String}
  {todo : List Uuid}

theorem World.Restores.quiet (hloaded : w'.phase.loaded = false) (haim : w'.phase.aim = none)
    (htodo : w'.phase.todo = []) (hfits : ∀ repo ∈ ws.repos, ∀ oid,
      w₀.startedFrom x repo = some oid → w'.Fits oid repo (w'.phase.stage repo)) :
    World.Restores ws x w₀ w' where
  states := by simp [hloaded]
  aim := by simp [haim]
  todo := by simp [htodo]
  fits := hfits

theorem World.Restores.others (h : World.Restores ws x w₀ w) (hothers : World.Others w w') :
    World.Restores ws x w₀ w' where
  states := by rw [hothers.phase]; exact h.states
  aim := by rw [hothers.phase]; exact h.aim
  todo := by rw [hothers.phase]; exact h.todo
  fits := by
    intro repo hrepo oid hoid
    rw [hothers.phase]
    have hold := h.fits repo hrepo oid hoid
    by_cases hunseen : w.phase.stage repo = .unseen
    · exact .inr (.inl hunseen)
    obtain ⟨htrees, hacts⟩ | ⟨r, tree, htrees, hacts⟩ := hothers.trees
    · exact hold.keeps hunseen (by rw [htrees]) (.inl hacts) fun _ hholds => hholds
    · by_cases heq : repo = r
      · subst heq
        apply Or.inl
        apply Or.inr
        apply Or.inr
        apply Or.inr
        rw [hacts]
        exact dirtied_wrote repo w.acts
      · apply hold.keeps hunseen _ (.inr ⟨_, hacts, by simp⟩) fun _ hholds => hholds
        rw [htrees]
        simp [World.setTree, heq]

theorem needsReset_true (hgit : x.performGitReset = true) (hforce : x.forceWhenDirty = true) :
    needsReset x head oid isDirty = false ↔ head = some oid ∧ isDirty = false := by
  simp [needsReset, hgit, hforce]

namespace World

theorem Restores.load (huse : ws.useWorktree = true)
    (hfollows : Follows w₀.processes w.processes) (hphase : w.phase = .asked) (reply : Reply) :
    Restores ws x w₀ (w.resetStep ws x (.load reply)) := by
  have hback : ∀ ok, Restores ws x w₀ { w with phase := .returned ok } :=
    fun ok => .quiet rfl rfl rfl fun _ _ _ _ => .inr (.inl rfl)
  simp only [resetStep, hphase, huse, if_true]
  split
  · exact hback false
  · rename_i process hprocess
    split
    · exact {
        states := by
          intro _ repo oid hoid
          obtain ⟨p, hp, hbefore⟩ := Option.bind_eq_some_iff.mp hoid
          obtain ⟨q, hq, hpq⟩ := hfollows.find hp
          rw [hprocess] at hq
          cases hq
          exact (hpq.before repo).trans hbefore
        aim := by simp [Phase.aim]
        todo := by simp [Phase.todo]
        fits := fun _ _ _ _ => .inr (.inl rfl) }
    · exact hback false

section
variable (h : Restores ws x w₀ w)
include h

theorem Restores.ensure (hphase : w.phase = .ensuring states)
    (reply : Reply) (created : Uuid → Worktree) :
    Restores ws x w₀ (w.resetStep ws x (.ensure reply created)) := by
  have hstates := h.states (by rw [hphase]; rfl)
  simp only [hphase, Phase.states] at hstates
  simp only [resetStep, hphase]
  split
  · split
    · exact {
        states := fun _ => hstates
        aim := by simp [Phase.aim]
        todo := by simp [Phase.todo]
        fits := by
          intro repo hrepo oid _
          apply Or.inr
          apply Or.inr
          simp only [if_pos hrepo, Phase.stage]
          exact ⟨_, rfl, trivial⟩ }
    · exact {
        states := fun _ => hstates
        aim := by simp [Phase.aim]
        todo := by simp [Phase.todo]
        fits := fun repo _ oid _ => .inl (.inl (by simp)) }
  · exact .quiet rfl rfl rfl fun _ _ _ _ => .inr (.inl rfl)

theorem Restores.checked (hphase : w.phase = .checking states [])  :
    Restores ws x w₀ (w.resetStep ws x .go) := by
  have hstates := h.states (by rw [hphase]; rfl)
  have hfits := h.fits
  simp only [hphase, Phase.states, Phase.stage] at hstates hfits
  simp only [resetStep, hphase]
  exact {
    states := fun _ => hstates
    aim := by simp [Phase.aim]
    todo := ws.repos_nodup
    fits := by
      intro repo hrepo oid hoid
      apply (hfits repo hrepo oid hoid).keeps (by simp) rfl (.inl rfl)
      intro tree hholds
      simpa [Phase.stage, hrepo] using hholds }

theorem Restores.check (hphase : w.phase = .checking states (repo :: todo)) (counted : Bool) :
    Restores ws x w₀ (w.resetStep ws x (.check counted)) := by
  have hstates := h.states (by rw [hphase]; rfl)
  have hfits := h.fits
  simp only [hphase, Phase.states, Phase.stage] at hstates hfits
  simp only [resetStep, hphase]
  split
  · rename_i hnone
    exact {
      states := fun _ => hstates
      aim := by simp [Phase.aim]
      todo := by simp [Phase.todo]
      fits := by
        intro r hr oid hoid
        by_cases heq : r = repo
        · obtain hexcused | hunseen | ⟨tree, htree, -⟩ := hfits r hr oid hoid
          · exact .inl hexcused
          · simp [heq] at hunseen
          · rw [heq, hnone] at htree
            cases htree
        · have hold := hfits r hr oid hoid
          simp only [List.mem_cons, heq, false_or] at hold
          apply hold.keeps _ rfl (.inl rfl) fun _ hholds => hholds
          split <;> simp }
  · rename_i tree htree
    split
    · exact {
        states := fun _ => hstates
        aim := by simp [Phase.aim]
        todo := ws.repos_nodup
        fits := fun r _ oid _ => .inl (.inl (by simp)) }
    · split
      · rename_i hclean
        exact {
          states := fun _ => hstates
          aim := by simp [Phase.aim]
          todo := by simp [Phase.todo]
          fits := by
            intro r hr oid hoid
            by_cases heq : r = repo
            · subst heq
              apply Or.inr
              apply Or.inr
              apply Exists.intro tree
              apply And.intro htree
              simp only [Phase.stage]
              split
              · trivial
              · exact .inr hclean
            · have hold := hfits r hr oid hoid
              simp only [List.mem_cons, heq, false_or] at hold
              apply Fits.keeps hold
              · split <;> simp
              · rfl
              · exact .inr ⟨.looked repo, rfl, by simp [Ne.symm heq]⟩
              · exact fun _ hholds => hholds }
      · exact {
          states := fun _ => hstates
          aim := by simp [Phase.aim]
          todo := ws.repos_nodup
          fits := by
            intro r hr oid hoid
            apply (hfits r hr oid hoid).keeps _ rfl (.inl rfl)
            · intro tree' _
              simp [Phase.stage, hr, Stage.Holds]
            · split <;> simp }

theorem Restores.next (hcurrent : w.phase.todo = repo :: todo) (hloaded : w.phase.loaded = true)
    (hphase : w'.phase = .repos w.phase.states isDirty todo)
    (hrest : ∀ r, r ≠ repo → w.phase.stage r = if r ∈ todo then .seen isDirty else .done)
    (hworktrees : ∀ r, r ≠ repo → w'.worktrees r = w.worktrees r)
    (hacts : w'.acts = w.acts ∨ ∃ act, w'.acts = w.acts ++ [act] ∧ ∀ r, r ≠ repo → act ≠ .looked r)
    (hdone : repo ∈ ws.repos → ∀ oid, w₀.startedFrom x repo = some oid →
      w'.Fits oid repo .done) : Restores ws x w₀ w' := by
  have hnodup := h.todo
  rw [hcurrent] at hnodup
  obtain ⟨hnot, hnodup⟩ := List.nodup_cons.mp hnodup
  exact {
    states := by
      rw [hphase]
      exact fun _ => h.states hloaded
    aim := by simp [hphase, Phase.aim]
    todo := by
      rw [hphase]
      exact hnodup
    fits := by
      intro r hr oid hoid
      rw [hphase]
      by_cases heq : r = repo
      · subst heq
        simp only [Phase.stage, if_neg hnot]
        exact hdone hr oid hoid
      · have hold := h.fits r hr oid hoid
        rw [hrest r heq] at hold
        apply hold.keeps
        · split <;> simp
        · exact hworktrees r heq
        · exact hacts.imp id fun ⟨act, hact, hlooked⟩ => ⟨act, hact, hlooked r heq⟩
        · exact fun _ hholds => hholds }

theorem Restores.aimed (hcurrent : w.phase.todo = repo :: todo) (hloaded : w.phase.loaded = true)
    (hphase : w'.phase = .head w.phase.states isDirty repo oid todo ∨
      w'.phase = .reset w.phase.states isDirty repo oid todo)
    (hstage : ∀ r, w.phase.stage r = if r = repo ∨ r ∈ todo then .seen isDirty else .done)
    (hworktrees : w'.worktrees = w.worktrees) (hacts : w'.acts = w.acts)
    (haim : ∀ oid', w₀.startedFrom x repo = some oid' → oid' = oid) :
    Restores ws x w₀ w' := by
  have hnodup := h.todo
  rw [hcurrent] at hnodup
  have hstates := h.states hloaded
  have hfits : ∀ r ∈ ws.repos, ∀ oid, w₀.startedFrom x r = some oid →
      w'.Fits oid r (if r = repo ∨ r ∈ todo then .seen isDirty else .done) := by
    intro r hr oid hoid
    have hold := h.fits r hr oid hoid
    rw [hstage r] at hold
    apply hold.keeps _ (by rw [hworktrees]) (.inl hacts) fun _ hholds => hholds
    split <;> simp
  obtain heq | heq := hphase
  · exact {
      states := by rw [heq]; exact fun _ => hstates
      aim := by
        intro r oid' hr
        rw [heq] at hr
        cases hr
        exact haim
      todo := by rw [heq]; exact hnodup
      fits := by rw [heq]; exact hfits }
  · exact {
      states := by rw [heq]; exact fun _ => hstates
      aim := by
        intro r oid' hr
        rw [heq] at hr
        cases hr
        exact haim
      todo := by rw [heq]; exact hnodup
      fits := by rw [heq]; exact hfits }

theorem Restores.target (hphase : w.phase = .repos states isDirty (repo :: todo)) (reply : Reply) :
    Restores ws x w₀ (w.resetStep ws x (.target reply)) := by
  have hstates := h.states (by rw [hphase]; rfl)
  have hstage : ∀ r, w.phase.stage r =
      if r = repo ∨ r ∈ todo then .seen isDirty else .done := by
    intro r
    rw [hphase]
    simp only [Phase.stage, List.mem_cons]
  simp only [hphase, Phase.states] at hstates
  simp only [resetStep, hphase]
  split
  · rename_i oid hoid
    apply h.aimed (by rw [hphase]; rfl) (by rw [hphase]; rfl)
    · exact .inl (by rw [hphase]; rfl)
    · exact hstage
    · rfl
    · rfl
    · intro oid' hoid'
      rw [hstates repo oid' hoid'] at hoid
      exact Option.some.inj hoid
  · rename_i hnone
    have hnever : ∀ oid', w₀.startedFrom x repo ≠ some oid' := by
      intro oid' hoid'
      rw [hstates repo oid' hoid'] at hnone
      cases hnone
    split
    · split
      · rename_i oid _
        apply h.aimed (by rw [hphase]; rfl) (by rw [hphase]; rfl)
        · exact .inl (by rw [hphase]; rfl)
        · exact hstage
        · rfl
        · rfl
        · exact fun oid' hoid' => absurd hoid' (hnever oid')
      · apply h.next (by rw [hphase]; rfl) (by rw [hphase]; rfl)
        · rw [hphase]
          rfl
        · intro r hr
          rw [hstage r]
          simp [hr]
        · exact fun _ _ => rfl
        · exact .inl rfl
        · exact fun _ oid hoid => absurd hoid (hnever oid)
    · exact .quiet rfl rfl rfl fun _ _ _ _ => .inr (.inl rfl)

theorem Restores.head (hgit : x.performGitReset = true)
    (hforce : x.forceWhenDirty = true) (hphase : w.phase = .head states isDirty repo oid todo)
    (read : Bool) : Restores ws x w₀ (w.resetStep ws x (.head read)) := by
  have hstage : ∀ r, w.phase.stage r =
      if r = repo ∨ r ∈ todo then .seen isDirty else .done := by
    intro r
    rw [hphase]
    rfl
  have haim : ∀ oid', w₀.startedFrom x repo = some oid' → oid' = oid :=
    h.aim repo oid (by rw [hphase]; rfl)
  simp only [resetStep, hphase]
  cases hneeds : needsReset x (if read then (w.worktrees repo).map (·.head) else none) oid isDirty with
  | true =>
    apply h.aimed (by rw [hphase]; rfl) (by rw [hphase]; rfl)
    · exact .inr (by rw [hphase]; rfl)
    · exact hstage
    · rfl
    · rfl
    · exact haim
  | false =>
    obtain ⟨hhead, hdirty⟩ := (needsReset_true hgit hforce).mp hneeds
    apply h.next (by rw [hphase]; rfl) (by rw [hphase]; rfl)
    · rw [hphase]
      rfl
    · intro r hr
      rw [hstage r]
      simp [hr]
    · exact fun _ _ => rfl
    · exact .inl rfl
    · intro hrepo oid' hoid'
      rw [haim oid' hoid']
      have hold := h.fits repo hrepo oid' hoid'
      rw [hstage repo, if_pos (.inl rfl), hdirty] at hold
      obtain hexcused | hunseen | ⟨tree, htree, hholds⟩ := hold
      · exact .inl hexcused
      · cases hunseen
      · -- The head is read where the worktree was seen, and it was clean when it was.
        rw [htree] at hhead
        obtain hno | hclean := hholds
        · cases hno
        · apply Or.inr
          apply Or.inr
          apply Exists.intro tree
          apply And.intro htree
          apply And.intro _ hclean
          cases read with
          | true => simpa using hhead
          | false => cases hhead

theorem Restores.reset (hforce : x.forceWhenDirty = true)
    (hphase : w.phase = .reset states isDirty repo oid todo) (untracked : Option Nat) :
    Restores ws x w₀ (w.resetStep ws x (.reset untracked)) := by
  have hstage : ∀ r, r ≠ repo → w.phase.stage r = if r ∈ todo then .seen isDirty else .done := by
    intro r hr
    rw [hphase]
    simp [Phase.stage, hr]
  have haim : ∀ oid', w₀.startedFrom x repo = some oid' → oid' = oid :=
    h.aim repo oid (by rw [hphase]; rfl)
  have hnodup := h.todo
  have hstates := h.states (by rw [hphase]; rfl)
  simp only [hphase, Phase.todo, Phase.states] at hnodup hstates
  simp only [resetStep, hphase, hforce, if_true]
  split
  · rename_i tree untracked htree
    exact {
      states := fun _ => hstates
      aim := by simp [Phase.aim, setTree]
      todo := hnodup
      fits := by
        intro r hr oid' hoid'
        by_cases heq : r = repo
        · subst heq
          apply Or.inr
          apply Or.inr
          apply Exists.intro ⟨oid, 0, untracked⟩
          apply And.intro
          · simp [setTree]
          · simp [setTree, Phase.stage, Stage.Holds, haim oid' hoid']
        · have hold := h.fits r hr oid' hoid'
          rw [hstage r heq] at hold
          apply Fits.keeps hold
          · split <;> simp
          · simp [setTree, heq]
          · exact .inr ⟨.looked repo, rfl, by simp [Ne.symm heq]⟩
          · intro tree' hholds
            simpa [setTree, Phase.stage, heq] using hholds }
  · apply h.next (by rw [hphase]; rfl) (by rw [hphase]; rfl)
    · rw [hphase]
      rfl
    · exact hstage
    · exact fun _ _ => rfl
    · exact .inr ⟨.gitFailed repo, rfl, by simp⟩
    · exact fun _ _ _ => .inl (.inr (.inl (List.mem_append_right _ (List.mem_singleton_self _))))

theorem Restores.clean (hphase : w.phase = .clean states isDirty repo todo) (left : Option Nat) :
    Restores ws x w₀ (w.resetStep ws x (.clean left)) := by
  have hstage : ∀ r, r ≠ repo → w.phase.stage r = if r ∈ todo then .seen isDirty else .done := by
    intro r hr
    rw [hphase]
    simp [Phase.stage, hr]
  have hfits := h.fits repo
  have hcleaning : w.phase.stage repo = .cleaning := by rw [hphase]; simp [Phase.stage]
  rw [hcleaning] at hfits
  simp only [resetStep, hphase]
  split
  · rename_i left
    apply h.next (by rw [hphase]; rfl) (by rw [hphase]; rfl)
    · rw [hphase]
      rfl
    · exact hstage
    · intro r hr
      simp [setTree, hr]
    · by_cases hleft : left = 0
      · exact .inl (by simp [setTree, hleft])
      · exact .inr ⟨.kept repo, by simp [setTree, hleft], by simp⟩
    · intro hrepo oid hoid
      by_cases hleft : left = 0
      · obtain hexcused | hunseen | ⟨tree, htree, hhead, huncommitted⟩ := hfits hrepo oid hoid
        · apply Or.inl
          exact hexcused.append (.inl (by simp [setTree, hleft]))
        · cases hunseen
        · apply Or.inr
          apply Or.inr
          apply Exists.intro { tree with untracked := left }
          apply And.intro
          · simp [setTree, htree]
          · exact ⟨hhead, by simp [Worktree.clean, huncommitted, hleft]⟩
      · apply Or.inl
        apply Or.inr
        apply Or.inr
        apply Or.inl
        simp [setTree, hleft]
  · apply h.next (by rw [hphase]; rfl) (by rw [hphase]; rfl)
    · rw [hphase]
      rfl
    · exact hstage
    · exact fun _ _ => rfl
    · exact .inr ⟨.gitFailed repo, rfl, by simp⟩
    · exact fun _ _ _ => .inl (.inr (.inl (List.mem_append_right _ (List.mem_singleton_self _))))

theorem Restores.past {phase : Phase} (hphase : w.phase = phase)
    (hacts : w'.acts = w.acts ∨ ∃ act, w'.acts = w.acts ++ [act] ∧ ∀ r, act ≠ .looked r)
    (hpast : (w'.phase.loaded, w'.phase.aim, w'.phase.todo, w'.worktrees) =
      (false, none, [], w.worktrees)) (hdone : ∀ r, phase.stage r = .done)
    (hstage : ∀ r, w'.phase.stage r = .done ∨ w'.phase.stage r = .unseen) :
    Restores ws x w₀ w' := by
  simp only [Prod.mk.injEq] at hpast
  obtain ⟨hloaded, haim, htodo, hworktrees⟩ := hpast
  apply Restores.quiet hloaded haim htodo
  intro r hr oid hoid
  have hold := h.fits r hr oid hoid
  rw [hphase, hdone r] at hold
  obtain heq | heq := hstage r
  · rw [heq]
    apply hold.keeps (by simp) (by rw [hworktrees]) _ fun _ hholds => hholds
    exact hacts.imp id fun ⟨act, hact, hlooked⟩ => ⟨act, hact, hlooked r⟩
  · exact .inr (.inl heq)

theorem Restores.resetStep (huse : ws.useWorktree = true)
    (hgit : x.performGitReset = true) (hforce : x.forceWhenDirty = true)
    (hfollows : (∀ ok, w.phase ≠ .returned ok) → Follows w₀.processes w.processes)
    (move : Move) : Restores ws x w₀ (w.resetStep ws x move) := by
  have hstep := resetStep.eq_def ws x move w
  split at hstep
  · rename_i reply hphase
    exact Restores.load huse (hfollows (by simp [hphase])) hphase reply
  · rename_i states reply created hphase
    exact h.ensure hphase reply created
  · rename_i states hphase
    exact h.checked hphase
  · rename_i states repo todo counted hphase
    exact h.check hphase counted
  · rename_i hphase
    rw [hstep]
    exact h.past hphase (.inl rfl) rfl (fun _ => by simp [Phase.stage]) fun _ => .inl rfl
  · rename_i states isDirty repo todo reply hphase
    exact h.target hphase reply
  · rename_i states isDirty repo oid todo read hphase
    exact h.head hgit hforce hphase read
  · rename_i states isDirty repo oid todo untracked hphase
    exact h.reset hforce hphase untracked
  · rename_i states isDirty repo todo left hphase
    exact h.clean hphase left
  · rename_i reply hphase
    rw [hstep]
    split
    · exact h.past hphase (.inl rfl) rfl (fun _ => rfl) fun _ => .inl rfl
    · exact h.past hphase (.inr ⟨.listFailed none, rfl, by simp⟩) rfl (fun _ => rfl)
        fun _ => .inl rfl
  · rename_i hphase
    rw [hstep]
    exact h.past hphase (.inl rfl) rfl (fun _ => rfl) fun _ => .inl rfl
  · rename_i session todo reply hphase
    rw [hstep]
    split
    · exact h.past hphase (.inl rfl) rfl (fun _ => rfl) fun _ => .inl rfl
    · exact h.past hphase (.inr ⟨.listFailed (some session), rfl, by simp⟩) rfl (fun _ => rfl)
        fun _ => .inl rfl
  · rename_i hphase
    rw [hstep]
    exact h.past hphase (.inl rfl) rfl (fun _ => rfl) fun _ => .inl rfl
  · rename_i p processes todo ok hphase
    rw [hstep]
    split
    · exact h.past hphase (.inl rfl) rfl (fun _ => rfl) fun _ => .inl rfl
    · split
      · exact h.past hphase (.inl rfl) rfl (fun _ => rfl) fun _ => .inl rfl
      · exact h.past hphase (.inr ⟨.stopFailed p.id, rfl, by simp⟩) rfl (fun _ => rfl)
          fun _ => .inl rfl
  · rename_i reply hphase
    rw [hstep]
    split
    · exact h.past hphase (.inl rfl) rfl (fun _ => rfl) fun _ => .inr rfl
    · exact h.past hphase (.inl rfl) rfl (fun _ => rfl) fun _ => .inr rfl
  · rw [hstep]
    exact h

end

end World

end Restores

def World.Tried (x : ResetRequest) (id : Uuid) (w : World) : Prop :=
  .stopFailed id ∈ w.acts ∨ .listFailed none ∈ w.acts ∨ .listFailed (some x.sessionId) ∈ w.acts

def World.Awaits (x : ResetRequest) (p : Process) (w : World) : Prop :=
  match w.phase with
  | .listing todo => x.sessionId ∈ todo
  | .stopping processes todo =>
    x.sessionId ∈ todo ∨
      ∃ q ∈ processes, q.id = p.id ∧ q.runReason = p.runReason ∧ q.status = .running
  | .dropping => False
  | _ => True

def Phase.begun : Phase → Bool
  | .asked | .returned _ => false
  | _ => true

/-- What becomes of the processes that there were when the reset was asked for in `w₀`. -/
structure World.Settles (x : ResetRequest) (w₀ w : World) : Prop where
  session : w.phase.begun = true → x.sessionId ∈ w.sessions
  settled : ∀ (i : Nat) (p₀ p : Process), w₀.processes[i]? = some p₀ →
    w.processes[i]? = some p → p.sessionId = x.sessionId → p.dropped = false →
    p.runReason ≠ .devServer → p.status = .running → w.Tried x p.id ∨ w.Awaits x p

section Settles
variable {ws : Workspace} {x : ResetRequest} {w₀ w w' : World} {session : Uuid} {todo : List Uuid}
  {q : Process} {rest : List Process}

theorem World.Settles.step (h : World.Settles x w₀ w) (h₀ : Follows w₀.processes w.processes)
    (hfollows : Follows w.processes w'.processes)
    (hsession : w'.phase.begun = true → x.sessionId ∈ w'.sessions)
    (hacts : ∀ act ∈ w.acts, act ∈ w'.acts)
    (hawaits : ∀ p' ∈ w'.processes, p'.status = .running → p'.sessionId = x.sessionId →
      p'.dropped = false → p'.runReason ≠ .devServer → w.Awaits x p' →
      w'.Tried x p'.id ∨ w'.Awaits x p') : World.Settles x w₀ w' where
  session := hsession
  settled := by
    intro i p₀ p' hp₀ hp' hsessionId hdropped hreason hrunning
    obtain ⟨p, hp, -⟩ := h₀ i p₀ hp₀
    obtain ⟨q, hq, hpq⟩ := hfollows i p hp
    rw [hp'] at hq
    cases hq
    have hbefore : p.status = .running := by
      by_contra hover
      exact hpq.isOver hover hrunning
    obtain htried | hwaits := h.settled i p₀ p hp₀ hp (hpq.sessionId.symm.trans hsessionId)
      (hpq.dropped.symm.trans hdropped) (by rwa [← hpq.runReason]) hbefore
    · apply Or.inl
      rw [hpq.id]
      exact htried.imp (hacts _) (Or.imp (hacts _) (hacts _))
    · apply hawaits p' (List.mem_of_getElem? hp') hrunning hsessionId hdropped hreason
      unfold World.Awaits at hwaits ⊢
      rw [hpq.id, hpq.runReason]
      exact hwaits

theorem mem_findBySessionId {p : Process} (hp : p ∈ processes) (hsession : p.sessionId = session)
    (hdropped : p.dropped = false) : p ∈ findBySessionId processes session := by
  apply (List.perm_insertionSort _ _).mem_iff.mpr
  apply List.mem_filter.mpr
  exact ⟨hp, by simp [hsession, hdropped]⟩

theorem finish_over {a : Uuid} {p : Process} (hp : p ∈ finish a status processes) (hid : p.id = a)
    (hstatus : status ≠ .running) : p.status ≠ .running := by
  obtain ⟨q, -, -, heq⟩ | ⟨-, hq⟩ := Table.mem_update.mp hp
  · rw [← heq]
    exact hstatus
  · intro hrunning
    simp [hid, hrunning] at hq

theorem World.Settles.quiet (h : World.Settles x w₀ w) (h₀ : Follows w₀.processes w.processes)
    (hprocesses : w'.processes = w.processes) (hsessions : w'.sessions = w.sessions)
    (hfound : w'.phase.begun = true → x.sessionId ∈ w.sessions)
    (hacts : ∀ act ∈ w.acts, act ∈ w'.acts) (hawaits : ∀ p, w'.Awaits x p) :
    World.Settles x w₀ w' := by
  apply h.step h₀
  · rw [hprocesses]
    exact .refl _
  · rw [hsessions]
    exact hfound
  · exact hacts
  · exact fun p _ _ _ _ _ _ => .inr (hawaits p)

theorem World.Settles.late (h : World.Settles x w₀ w) (h₀ : Follows w₀.processes w.processes)
    (hphase : w.phase ≠ .dropping) (hlate : World.Late ws x w w') : World.Settles x w₀ w' := by
  -- A stop of the process `q` leaves the others of the list, and of the sessions, to wait.
  have hwaits : ∀ {q rest todo p}, w.phase = .stopping (q :: rest) todo → w.Awaits x p →
      (x.sessionId ∈ todo ∨
        ∃ r ∈ rest, r.id = p.id ∧ r.runReason = p.runReason ∧ r.status = .running) ∨
      q.id = p.id ∧ q.runReason = p.runReason ∧ q.status = .running := by
    intro q rest todo p hstopping hp
    simp only [World.Awaits, hstopping, List.mem_cons, exists_eq_or_imp] at hp
    obtain hmem | hcurrent | hlater := hp
    · exact .inl (.inl hmem)
    · exact .inr hcurrent
    · exact .inl (.inr hlater)
  have hfound : w.phase.begun = true → x.sessionId ∈ w.sessions := h.session
  cases hlate with
  | idle => exact h
  | refused => exact h.quiet h₀ rfl rfl nofun (fun _ hact => hact) fun _ => trivial
  | found states hsession hasked =>
    split <;> exact h.quiet h₀ rfl rfl (fun _ => hsession) (fun _ hact => hact) fun _ => trivial
  | listed hsessions =>
    have hsession := hfound (by rw [hsessions]; rfl)
    exact h.quiet h₀ rfl rfl (fun _ => hsession) (fun _ hact => hact) fun _ => hsession
  | unlisted hsessions =>
    refine h.step h₀ (.refl _) (fun _ => hfound (by rw [hsessions]; rfl))
      (fun _ => List.mem_append_left _) ?_
    exact fun _ _ _ _ _ _ _ => .inl (.inr (.inl List.mem_concat_self))
  | ended hlisting =>
    refine h.step h₀ (.refl _) (fun _ => hfound (by rw [hlisting]; rfl)) (fun _ hact => hact) ?_
    intro p _ _ _ _ _ hawaits
    simp [World.Awaits, hlisting] at hawaits
  | loaded hlisting =>
    refine h.step h₀ (.refl _) (fun _ => hfound (by rw [hlisting]; rfl)) (fun _ hact => hact) ?_
    intro p hp hrunning hsession hdropped _ hawaits
    simp only [World.Awaits, hlisting] at hawaits
    apply Or.inr
    obtain heq | hmem := List.mem_cons.mp hawaits
    · -- The session is listed now, and the process is among what is found.
      exact .inr ⟨p, mem_findBySessionId hp (hsession.trans heq) hdropped, rfl, rfl, hrunning⟩
    · exact .inl hmem
  | unloaded hlisting =>
    refine h.step h₀ (.refl _) (fun _ => hfound (by rw [hlisting]; rfl))
      (fun _ => List.mem_append_left _) ?_
    intro p _ _ _ _ _ hawaits
    simp only [World.Awaits, hlisting] at hawaits
    obtain rfl | hmem := List.mem_cons.mp hawaits
    · exact .inl (.inr (.inr List.mem_concat_self))
    · exact .inr hmem
  | finished hstopping =>
    refine h.step h₀ (.refl _) (fun _ => hfound (by rw [hstopping]; rfl)) (fun _ hact => hact) ?_
    intro p _ _ _ _ _ hawaits
    simp only [World.Awaits, hstopping, List.not_mem_nil, false_and, exists_false,
      or_false] at hawaits
    exact .inr hawaits
  | skipped hskipped hstopping =>
    refine h.step h₀ (.refl _) (fun _ => hfound (by rw [hstopping]; rfl)) (fun _ hact => hact) ?_
    intro p _ _ _ _ hreason hp
    obtain hlater | ⟨-, hsame, hrunning⟩ := hwaits hstopping hp
    · exact .inr hlater
    · obtain hdev | hover := hskipped
      · exact absurd (hsame.symm.trans hdev) hreason
      · exact absurd hrunning hover
  | killed hstopping =>
    refine h.step h₀ (follows_finish _ _ _) (fun _ => hfound (by rw [hstopping]; rfl))
      (fun _ hact => hact) ?_
    intro p hp hrunning _ _ _ hawaits
    obtain hlater | ⟨hid, -, -⟩ := hwaits hstopping hawaits
    · exact .inr hlater
    · exact absurd hrunning (finish_over hp hid.symm (by simp))
  | missed hstopping =>
    refine h.step h₀ (.refl _) (fun _ => hfound (by rw [hstopping]; rfl))
      (fun _ => List.mem_append_left _) ?_
    intro p _ _ _ _ _ hawaits
    obtain hlater | ⟨hid, -, -⟩ := hwaits hstopping hawaits
    · exact .inr hlater
    · rw [hid]
      exact .inl (.inl (List.mem_append_right _ (List.mem_singleton_self _)))
  | failed hdropping => exact absurd hdropping hphase
  | dropped ok hdropping => exact absurd hdropping hphase

theorem World.Settles.resetStep (h : World.Settles x w₀ w)
    (h₀ : Follows w₀.processes w.processes) (hphase : w.phase ≠ .dropping)
    (move : Move) : World.Settles x w₀ (w.resetStep ws x move) := by
  by_cases hloaded : w.phase.loaded = true
  · have hearly := w.early_resetStep ws x move hloaded
    have hfound := h.session (by
      cases hcase : w.phase with
      | asked => simp [hcase, Phase.loaded] at hloaded
      | returned ok => simp [hcase, Phase.loaded] at hloaded
      | _ => rfl)
    apply h.quiet h₀ hearly.processes hearly.sessions (fun _ => hfound) hearly.acts
    intro p
    unfold World.Awaits
    obtain hnext | hnext | hnext := hearly.phase
    · split
      · rename_i hcase
        simp [hcase, Phase.loaded] at hnext
      · rename_i hcase
        simp [hcase, Phase.loaded] at hnext
      · rename_i hcase
        simp [hcase, Phase.loaded] at hnext
      · trivial
    · rw [hnext]
      trivial
    · rw [hnext]
      trivial
  · exact h.late h₀ hphase (w.late_resetStep ws x move hloaded)

end Settles

def World.Open (w : World) : Prop := ∀ ok, w.phase ≠ .returned ok

structure World.Inv (ws : Workspace) (x : ResetRequest) (w₀ w : World) : Prop where
  follows : Follows w₀.processes w.processes
  settles : World.Settles x w₀ w
  restores : ws.useWorktree = true → x.performGitReset = true → x.forceWhenDirty = true →
    World.Restores ws x w₀ w

section Inv
variable {ws : Workspace} {x : ResetRequest} {w₀ w w' : World}

namespace World

theorem Inv.others (h : Inv ws x w₀ w) (hothers : Others w w') :
    Inv ws x w₀ w' where
  follows := h.follows.trans hothers.follows
  settles := by
    apply h.settles.step h.follows hothers.follows
    · intro hbegun
      rw [hothers.phase] at hbegun
      exact hothers.sessions _ (h.settles.session hbegun)
    · obtain ⟨-, hacts⟩ | ⟨repo, tree, -, hacts⟩ := hothers.trees
      · rw [hacts]
        exact fun _ hact => hact
      · rw [hacts]
        exact fun _ => List.mem_append_left _
    · intro p _ _ _ _ _ hawaits
      unfold Awaits at hawaits ⊢
      rw [hothers.phase]
      exact .inr hawaits
  restores huse hgit hforce := (h.restores huse hgit hforce).others hothers

theorem Inv.resetStep (h : Inv ws x w₀ w) (hphase : w.phase ≠ .dropping)
    (move : Move) : Inv ws x w₀ (w.resetStep ws x move) where
  follows := h.follows.trans (w.follows_resetStep ws x move hphase)
  settles := h.settles.resetStep h.follows hphase move
  restores huse hgit hforce :=
    (h.restores huse hgit hforce).resetStep huse hgit hforce (fun _ => h.follows) move

theorem resetStep_dropping (ws : Workspace) (x : ResetRequest) (hphase : w.phase = .dropping)
    (move : Move) :
    w.resetStep ws x move = w ∨ w.resetStep ws x move = { w with phase := .returned false } ∨
      ∃ ok, w.resetStep ws x move =
        { w with
          phase := .returned ok
          processes := dropAtAndAfter x.sessionId x.targetProcessId w.processes } := by
  have hlate := w.late_resetStep ws x move (by rw [hphase]; nofun)
  generalize w.resetStep ws x move = w' at hlate
  cases hlate with
  | idle => exact .inl rfl
  | failed => exact .inr (.inl rfl)
  | dropped ok => exact .inr (.inr ⟨ok, rfl⟩)
  | _ =>
    rename_i hcase
    rw [hphase] at hcase
    cases hcase

theorem resetStep_returned (hphase : w.phase = .returned ok) (move : Move) :
    w.resetStep ws x move = w := by
  have hlate := w.late_resetStep ws x move (by rw [hphase]; nofun)
  generalize w.resetStep ws x move = w' at hlate
  cases hlate with
  | idle => rfl
  | _ =>
    rename_i hcase
    rw [hphase] at hcase
    cases hcase

theorem inv_exec (h : w.Open → Inv ws x w₀ w) (event : Event)
    (hopen : (w.exec ws x event).Open) : Inv ws x w₀ (w.exec ws x event) := by
  by_cases hreset : ∃ move, event = .reset move
  · obtain ⟨move, rfl⟩ := hreset
    have hbefore : w.Open := by
      intro ok hphase
      apply hopen ok
      show (w.resetStep ws x move).phase = .returned ok
      rw [resetStep_returned hphase, hphase]
    by_cases hphase : w.phase = .dropping
    · obtain heq | heq | ⟨ok, heq⟩ := resetStep_dropping ws x hphase move
      · show Inv ws x w₀ (w.resetStep ws x move)
        rw [heq]
        exact h hbefore
      · exact absurd (congrArg phase heq) (hopen false)
      · exact absurd (congrArg phase heq) (hopen ok)
    · exact (h hbefore).resetStep hphase move
  · have hothers := w.others_exec ws x event fun move heq => hreset ⟨move, heq⟩
    apply Inv.others (h _) hothers
    intro ok hphase
    exact hopen ok (hothers.phase.trans hphase)

theorem inv_ask (ws : Workspace) (x : ResetRequest) (w₀ : World) :
    Inv ws x w₀ w₀.ask where
  follows := .refl _
  settles := {
    session := by simp [ask, Phase.begun]
    settled := fun _ _ _ _ _ _ _ _ _ => .inr trivial }
  restores _ _ _ := .quiet rfl rfl rfl fun _ _ _ _ => .inr (.inl rfl)

theorem inv_run (ws : Workspace) (x : ResetRequest) (w₀ : World) (events : List Event) :
    (Run.run (exec ws x) w₀.ask events).Open →
      Inv ws x w₀ (Run.run (exec ws x) w₀.ask events) :=
  Run.preserves (P := fun w => w.Open → Inv ws x w₀ w)
    (fun _ event h => inv_exec h event) (fun _ => inv_ask ws x w₀) events

theorem resetStep_ok (hbefore : w.phase ≠ .returned true) (move : Move)
    (hafter : (w.resetStep ws x move).phase = .returned true) :
    w.phase = .dropping ∧ w.resetStep ws x move =
      { w with
        phase := .returned true
        processes := dropAtAndAfter x.sessionId x.targetProcessId w.processes } := by
  by_cases hdropping : w.phase = .dropping
  · apply And.intro hdropping
    obtain heq | heq | ⟨ok, heq⟩ := resetStep_dropping ws x hdropping move
    · rw [heq] at hafter
      exact absurd hafter hbefore
    · rw [heq] at hafter
      cases hafter
    · rw [heq] at hafter ⊢
      cases hafter
      rfl
  exfalso
  by_cases hloaded : w.phase.loaded = true
  · obtain hnext | hnext | hnext := (w.early_resetStep ws x move hloaded).phase
    · simp [hafter, Phase.loaded] at hnext
    · simp [hafter] at hnext
    · simp [hafter] at hnext
  have hlate := w.late_resetStep ws x move hloaded
  generalize w.resetStep ws x move = w' at hafter hlate
  cases hlate with
  | idle => exact hbefore hafter
  | found states => split at hafter <;> cases hafter
  | dropped ok hcase => exact hdropping hcase
  | _ => cases hafter

end World

end Inv

theorem dropAtAndAfter_row (session : Uuid) {ps : List Process} {i : Nat} {p : Process} (hp : ps[i]? = some p)
    (hboundary : createdAt ps boundaryId = some boundary) :
    ∃ q, (dropAtAndAfter session boundaryId ps)[i]? = some q ∧ q.id = p.id ∧
      q.status = p.status ∧ q.runReason = p.runReason ∧
      (q.dropped = true ↔
        p.dropped = true ∨ p.sessionId = session ∧ boundary ≤ p.createdAt) := by
  by_cases hdrop : p.sessionId = session ∧ p.dropped = false ∧ boundary ≤ p.createdAt
  · apply Exists.intro { p with dropped := true }
    apply And.intro
    · simp [dropAtAndAfter, Table.update, hp, hboundary, hdrop]
    · simp [hdrop]
  · apply Exists.intro p
    apply And.intro
    · simp [dropAtAndAfter, Table.update, hp, hboundary, hdrop]
    · apply And.intro rfl
      apply And.intro rfl
      apply And.intro rfl
      cases hwas : p.dropped with
      | true => simp
      | false =>
        simp only [hwas, true_and] at hdrop
        simp [hdrop]

/-- When a reset returns Ok, the worktrees are clean at the commits that the target process started
from, but for those that a process wrote to since, or that git could not look at or reset. Of the
processes that there were when it was asked for, those at and after the target are dropped, and
none of these runs but for dev servers and for what could not be listed or stopped. -/
theorem reset_session_to_process (ws : Workspace) (x : ResetRequest) (w₀ : World)
    (events : List Event) (event : Event) :
    let w := Run.run (World.exec ws x) w₀.ask events
    let w' := w.exec ws x event
    w.phase ≠ .returned true → w'.phase = .returned true →
    (ws.useWorktree = true → x.performGitReset = true → x.forceWhenDirty = true →
      ∀ repo ∈ ws.repos, ∀ oid, w₀.startedFrom x repo = some oid →
        (∃ tree, w'.worktrees repo = some tree ∧ tree.head = oid ∧ tree.clean = true) ∨
        w'.Excused repo) ∧
    ∀ boundary, createdAt w₀.processes x.targetProcessId = some boundary →
      ∀ (i : Nat) (p₀ : Process), w₀.processes[i]? = some p₀ →
        ∃ p, w'.processes[i]? = some p ∧ p.id = p₀.id ∧
          (p.dropped = true ↔
            p₀.dropped = true ∨ p₀.sessionId = x.sessionId ∧ boundary ≤ p₀.createdAt) ∧
          (p.dropped = true → p₀.dropped = false → p.status = .running →
            p.runReason = .devServer ∨ .stopFailed p.id ∈ w'.acts ∨ .listFailed none ∈ w'.acts ∨
              .listFailed (some x.sessionId) ∈ w'.acts) := by
  intro w w' hbefore hafter
  have hreset : ∃ move, event = .reset move := by
    by_contra hother
    have hothers := w.others_exec ws x event fun move heq => hother ⟨move, heq⟩
    exact hbefore (hothers.phase.symm.trans hafter)
  obtain ⟨move, rfl⟩ := hreset
  obtain ⟨hphase, hdrop⟩ := World.resetStep_ok hbefore move hafter
  have hdrop : w' = _ := hdrop
  have hinv : World.Inv ws x w₀ w := World.inv_run ws x w₀ events (by simp [World.Open, w, hphase])
  rw [hdrop]
  apply And.intro
  · intro huse hgit hforce repo hrepo oid hoid
    have hfits := (hinv.restores huse hgit hforce).fits repo hrepo oid hoid
    rw [hphase] at hfits
    obtain hexcused | hunseen | hdone := hfits
    · exact .inr hexcused
    · cases hunseen
    · exact .inl hdone
  · intro boundary hboundary i p₀ hp₀
    obtain ⟨q, hq, hfollows⟩ := hinv.follows i p₀ hp₀
    obtain ⟨p, hp, hid, hstatus, hreason, hdropped⟩ :=
      dropAtAndAfter_row x.sessionId hq (hinv.follows.createdAt hboundary)
    apply Exists.intro p
    apply And.intro hp
    apply And.intro (hid.trans hfollows.id)
    rw [hfollows.dropped, hfollows.sessionId, hfollows.createdAt] at hdropped
    apply And.intro hdropped
    intro hnow hwas hrunning
    obtain hold | ⟨hsession, -⟩ := hdropped.mp hnow
    · rw [hwas] at hold
      cases hold
    by_cases hdev : q.runReason = .devServer
    · exact .inl (hreason.trans hdev)
    apply Or.inr
    rw [hid]
    have hsettled := hinv.settles.settled i p₀ q hp₀ hq (hfollows.sessionId.trans hsession)
      (hfollows.dropped.trans hwas) hdev (hstatus.symm.trans hrunning)
    obtain htried | hawaits := hsettled
    · exact htried
    · simp [World.Awaits, hphase] at hawaits

theorem reset_session_to_process_sample :
    let ws : Workspace := ⟨true, true, [5], by decide⟩
    let x : ResetRequest := ⟨1, 10, true, true⟩
    let agent : Process := ⟨10, 1, .codingAgent, .running, 3, false, [⟨5, some "aa", none⟩]⟩
    let w₀ : World := ⟨[1], [agent], [], fun _ => some ⟨"bb", 2, 0⟩, .returned true, []⟩
    let w := Run.run (World.exec ws x) w₀.ask
      [.reset (.load .ok), .reset (.ensure .ok fun _ => ⟨"aa", 0, 0⟩), .reset (.check true),
        .reset (.target .ok), .reset (.head true), .reset (.reset (some 1)),
        .reset (.clean (some 0)), .reset .go, .reset (.load .ok), .reset (.load .ok),
        .publish 10 .killed, .reset (.stop true), .reset .go, .reset .go]
    let w' := w.exec ws x (.reset (.drop .ok))
    ((∃ tree, w'.worktrees 5 = some tree ∧ tree.head = "aa" ∧ tree.clean = true) ∨
      w'.Excused 5) ∧
    ∃ p, w'.processes[0]? = some p ∧ p.dropped = true := by
  intro ws x agent w₀ w w'
  have hbefore : w.phase ≠ .returned true := by decide +kernel
  have hafter : w'.phase = .returned true := by decide +kernel
  -- the run is forgotten, or it would be evaluated again below
  obtain ⟨events, hw⟩ : ∃ events, w = Run.run (World.exec ws x) w₀.ask events := ⟨_, rfl⟩
  have hw' : w' = w.exec ws x (.reset (.drop .ok)) := rfl
  clear_value w' w
  subst hw' hw
  obtain ⟨htrees, hprocesses⟩ :=
    reset_session_to_process ws x w₀ events (.reset (.drop .ok)) hbefore hafter
  apply And.intro
  · exact htrees rfl rfl rfl 5 (List.mem_singleton_self _) "aa" rfl
  · obtain ⟨p, hp, -, hdropped, -⟩ := hprocesses 3 rfl 0 agent rfl
    exact ⟨p, hp, hdropped.mpr (.inr ⟨rfl, Nat.le_refl 3⟩)⟩

/-- Nor does a reset keep off what goes on around it: the agent writes to the worktree that it has
looked at, the command that waited is dispatched once the agent is stopped and its process is
dropped in its turn, and the dev server is dropped while it runs. -/
theorem reset_overtaken :
    let ws : Workspace := ⟨true, true, [5], by decide⟩
    let x : ResetRequest := ⟨1, 10, true, true⟩
    let agent : Process := ⟨10, 1, .codingAgent, .running, 3, false, [⟨5, some "aa", none⟩]⟩
    let server : Process := ⟨11, 1, .devServer, .running, 4, false, []⟩
    let w₀ : World := ⟨[1], [agent, server], [1], fun _ => some ⟨"aa", 0, 0⟩, .returned true, []⟩
    let w := Run.run (World.exec ws x) w₀.ask
      [.reset (.load .ok), .reset (.ensure .ok fun _ => ⟨"aa", 0, 0⟩), .reset (.check true),
        .reset .go, .reset (.target .ok), .reset (.head true), .write 10 5 (some ⟨"aa", 1, 0⟩),
        .reset .go, .reset (.load .ok), .reset (.load .ok), .publish 10 .killed,
        .dispatch 1 12 9, .reset (.stop true), .reset (.stop true), .reset .go, .reset .go,
        .reset (.drop .ok)]
    w.phase = .returned true ∧ w.worktrees 5 = some ⟨"aa", 1, 0⟩ ∧
      w.processes.map (fun p => (p.id, p.status, p.dropped)) =
        [(10, .killed, true), (11, .running, true), (12, .running, true)] := by
  decide +kernel

end Cdesktop.SessionReset
