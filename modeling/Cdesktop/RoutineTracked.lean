import Cdesktop.RoutineActive

namespace Cdesktop.Routines
open Table (Reply)
set_option autoImplicit true

@[simp] def LaunchPhase.inserted : LaunchPhase → Bool
  | .received | .checking | .skipping | .creating _ => false
  | _ => true

@[simp] def LaunchPhase.run : LaunchPhase → Option RoutineRun
  | .spawning run | .attaching run _ | .marking run _ | .starting run _ | .executing run _ _ _
  | .settling run => some run
  | _ => none

@[simp] def LaunchPhase.toAttach : LaunchPhase → Option Uuid
  | .attaching _ workspaceId => some workspaceId
  | _ => none

@[simp] def LaunchPhase.unattached : LaunchPhase → Bool
  | .spawning _ | .attaching _ _ => true
  | _ => false

@[simp] def LaunchPhase.workspace : LaunchPhase → Option Uuid
  | .marking _ workspaceId | .starting _ workspaceId | .executing _ workspaceId _ _ =>
    some workspaceId
  | _ => none

def keysOf (runs : List RoutineRun) : List (Uuid × Option Uuid) :=
  runs.map fun run => (run.id, run.workspaceId)

def World.keys (w : World) : List (Uuid × Option Uuid) := keysOf w.runs

structure Launch.Tracked (w : World) (l : Launch) : Prop where
  fresh : l.runId < w.nextId
  before : l.phase.inserted = false → ∀ key ∈ w.keys, key.1 ≠ l.runId
  run : ∀ run, l.phase.run = some run → run.id = l.runId
  unattached : l.phase.unattached = true → ∀ key ∈ w.keys, key.1 = l.runId → key.2 = none
  toAttach : ∀ workspaceId, l.phase.toAttach = some workspaceId → workspaceId < w.nextId ∧
    workspaceId ∈ w.routineWorkspaces ∧ ∀ key ∈ w.keys, key.2 ≠ some workspaceId
  attached : ∀ workspaceId, l.phase.workspace = some workspaceId →
    ∀ key ∈ w.keys, key.1 = l.runId → key.2 = some workspaceId

structure World.Tracked (w : World) : Prop where
  launches : ∀ t l, w.launches t = some l → l.Tracked w
  distinct : ∀ t l t' l', w.launches t = some l → w.launches t' = some l' → l.runId = l'.runId →
    t = t'
  toAttach : ∀ t l t' l' workspaceId, w.launches t = some l → w.launches t' = some l' →
    l.phase.toAttach = some workspaceId → l'.phase.toAttach = some workspaceId → t = t'
  fresh : ∀ key ∈ w.keys, key.1 < w.nextId
  workspaces : ∀ key ∈ w.keys, ∀ workspaceId, key.2 = some workspaceId →
    workspaceId < w.nextId ∧ workspaceId ∈ w.routineWorkspaces
  unique : ∀ key ∈ w.keys, ∀ key' ∈ w.keys, ∀ workspaceId, key.2 = some workspaceId →
    key'.2 = some workspaceId → key.1 = key'.1
  settling : ∀ x ∈ w.executions, ∀ runId, x.phase = .settling runId →
    (∃ key ∈ w.keys, key.2 = some x.workspaceId) ∧
      ∀ key ∈ w.keys, key.2 = some x.workspaceId → key.1 = runId

theorem World.new_tracked : World.new.Tracked where
  launches := fun t l hlaunch => by cases hlaunch
  distinct := fun t l t' l' hlaunch => by cases hlaunch
  toAttach := fun t l t' l' workspaceId hlaunch => by cases hlaunch
  fresh := fun key hkey => by cases hkey
  workspaces := fun key hkey => by cases hkey
  unique := fun key hkey => by cases hkey
  settling := fun x hx => by cases hx

structure World.Extends (w w' : World) : Prop where
  keys : w'.keys = w.keys
  nextId : w.nextId ≤ w'.nextId
  routineWorkspaces : ∀ workspaceId ∈ w.routineWorkspaces, workspaceId ∈ w'.routineWorkspaces
  executions : ∀ x ∈ w'.executions, ∀ runId, x.phase = .settling runId → x ∈ w.executions

variable {w w' : World} {l l' : Launch} {t' : Nat} {runs : List RoutineRun} {p workspaceId : Uuid}
  {phase : LaunchPhase}

theorem Launch.Tracked.extends (h : l.Tracked w) (hext : w.Extends w') :
    l.Tracked w' where
  fresh := lt_of_lt_of_le h.fresh hext.nextId
  before := by
    rw [hext.keys]
    exact h.before
  run := h.run
  unattached := by
    rw [hext.keys]
    exact h.unattached
  toAttach := by
    intro workspaceId hphase
    rw [hext.keys]
    obtain ⟨hlt, hmem, hnot⟩ := h.toAttach workspaceId hphase
    exact ⟨lt_of_lt_of_le hlt hext.nextId, hext.routineWorkspaces _ hmem, hnot⟩
  attached := by
    rw [hext.keys]
    exact h.attached

structure World.Goes (w w' : World) (t : Nat) (l' : Launch) : Prop where
  launches : w'.launches = Function.update w.launches t (some l')
  runId : (∃ l, w.launches t = some l ∧ l.runId = l'.runId) ∨
    w.launches t = none ∧ w.nextId ≤ l'.runId
  toAttach : ∀ workspaceId, l'.phase.toAttach = some workspaceId →
    (∃ l, w.launches t = some l ∧ l.phase.toAttach = some workspaceId) ∨ w.nextId ≤ workspaceId

theorem World.Goes.cases (h : w.Goes w' t l') (hlaunch : w'.launches t' = some l) :
    (t' = t ∧ l = l') ∨ (t' ≠ t ∧ w.launches t' = some l) := by
  rw [h.launches] at hlaunch
  by_cases ht : t' = t
  · subst ht
    left
    exact ⟨rfl, by simpa [eq_comm] using hlaunch⟩
  · right
    exact ⟨ht, by simpa [ht] using hlaunch⟩

theorem World.Goes.runId_ne (h : w.Goes w' t l')
    (htracked : w.Tracked) (ht : t' ≠ t) (hlaunch : w.launches t' = some l) :
    l.runId ≠ l'.runId := by
  intro heq
  rcases h.runId with ⟨l₀, hlaunch₀, hrunId⟩ | ⟨-, hfresh⟩
  · exact ht (htracked.distinct t' l t l₀ hlaunch hlaunch₀ (heq.trans hrunId.symm))
  · have hlt := lt_of_lt_of_le (htracked.launches t' l hlaunch).fresh hfresh
    exact absurd heq (ne_of_lt hlt)

theorem World.Goes.distinct (h : w.Goes w' t l')
    (htracked : w.Tracked) : ∀ t₁ l₁ t₂ l₂, w'.launches t₁ = some l₁ → w'.launches t₂ = some l₂ →
      l₁.runId = l₂.runId → t₁ = t₂ := by
  intro t₁ l₁ t₂ l₂ h₁ h₂ heq
  rcases h.cases h₁ with ⟨rfl, rfl⟩ | ⟨ht₁, h₁⟩
  · rcases h.cases h₂ with ⟨rfl, rfl⟩ | ⟨ht₂, h₂⟩
    · rfl
    · exact absurd heq.symm (h.runId_ne htracked ht₂ h₂)
  · rcases h.cases h₂ with ⟨rfl, rfl⟩ | ⟨ht₂, h₂⟩
    · exact absurd heq (h.runId_ne htracked ht₁ h₁)
    · exact htracked.distinct t₁ l₁ t₂ l₂ h₁ h₂ heq

theorem World.Goes.toAttach_ne (h : w.Goes w' t l')
    (htracked : w.Tracked) (ht : t' ≠ t) (hlaunch : w.launches t' = some l)
    (hl : l.phase.toAttach = some workspaceId) : l'.phase.toAttach ≠ some workspaceId := by
  intro hl'
  rcases h.toAttach workspaceId hl' with ⟨l₀, hlaunch₀, hl₀⟩ | hfresh
  · exact ht (htracked.toAttach t' l t l₀ workspaceId hlaunch hlaunch₀ hl hl₀)
  · have hlt := ((htracked.launches t' l hlaunch).toAttach workspaceId hl).1
    exact absurd hlt (not_lt_of_ge hfresh)

theorem World.Goes.attach (h : w.Goes w' t l')
    (htracked : w.Tracked) : ∀ t₁ l₁ t₂ l₂ workspaceId, w'.launches t₁ = some l₁ →
      w'.launches t₂ = some l₂ → l₁.phase.toAttach = some workspaceId →
      l₂.phase.toAttach = some workspaceId → t₁ = t₂ := by
  intro t₁ l₁ t₂ l₂ workspaceId h₁ h₂ ha₁ ha₂
  rcases h.cases h₁ with ⟨rfl, rfl⟩ | ⟨ht₁, h₁⟩
  · rcases h.cases h₂ with ⟨rfl, rfl⟩ | ⟨ht₂, h₂⟩
    · rfl
    · exact absurd ha₁ (h.toAttach_ne htracked ht₂ h₂ ha₂)
  · rcases h.cases h₂ with ⟨rfl, rfl⟩ | ⟨ht₂, h₂⟩
    · exact absurd ha₂ (h.toAttach_ne htracked ht₁ h₁ ha₁)
    · exact htracked.toAttach t₁ l₁ t₂ l₂ workspaceId h₁ h₂ ha₁ ha₂

theorem World.mem_keys_append {runId : Uuid} {key : Uuid × Option Uuid}
    (hkeys : w'.keys = w.keys ++ [(runId, none)]) (hkey : key ∈ w'.keys) :
    key ∈ w.keys ∨ key = (runId, none) := by
  rw [hkeys] at hkey
  simpa using hkey

theorem Launch.Tracked.append {runId : Uuid} (h : l.Tracked w)
    (hkeys : w'.keys = w.keys ++ [(runId, none)]) (hne : runId ≠ l.runId)
    (hnext : w.nextId ≤ w'.nextId)
    (hroutine : w'.routineWorkspaces = w.routineWorkspaces) : l.Tracked w' where
  fresh := lt_of_lt_of_le h.fresh hnext
  before := by
    intro hphase key hkey
    rcases World.mem_keys_append hkeys hkey with hold | rfl
    · exact h.before hphase key hold
    · exact hne
  run := h.run
  unattached := by
    intro hphase key hkey hid
    rcases World.mem_keys_append hkeys hkey with hold | rfl
    · exact h.unattached hphase key hold hid
    · rfl
  toAttach := by
    intro workspaceId hphase
    obtain ⟨hlt, hmem, hnot⟩ := h.toAttach workspaceId hphase
    refine ⟨lt_of_lt_of_le hlt hnext, hroutine ▸ hmem, fun key hkey => ?_⟩
    rcases World.mem_keys_append hkeys hkey with hold | rfl
    · exact hnot key hold
    · simp
  attached := by
    intro workspaceId hphase key hkey hid
    rcases World.mem_keys_append hkeys hkey with hold | rfl
    · exact h.attached workspaceId hphase key hold hid
    · exact absurd hid hne

section
variable (h : w.Tracked)
    (hlaunches : ∀ t l, w'.launches t = some l → l.Tracked w')
    (hdistinct : ∀ t l t' l', w'.launches t = some l → w'.launches t' = some l' →
      l.runId = l'.runId → t = t')
    (htoAttach : ∀ t l t' l' workspaceId, w'.launches t = some l → w'.launches t' = some l' →
      l.phase.toAttach = some workspaceId → l'.phase.toAttach = some workspaceId → t = t')
include h hlaunches hdistinct htoAttach

theorem World.Tracked.extends (hext : w.Extends w') : w'.Tracked where
  launches := hlaunches
  distinct := hdistinct
  toAttach := htoAttach
  fresh := by
    rw [hext.keys]
    exact fun key hkey => lt_of_lt_of_le (h.fresh key hkey) hext.nextId
  workspaces := by
    rw [hext.keys]
    intro key hkey workspaceId hworkspace
    obtain ⟨hlt, hmem⟩ := h.workspaces key hkey workspaceId hworkspace
    exact ⟨lt_of_lt_of_le hlt hext.nextId, hext.routineWorkspaces _ hmem⟩
  unique := by
    rw [hext.keys]
    exact h.unique
  settling := by
    rw [hext.keys]
    intro x hx runId hphase
    exact h.settling x (hext.executions x hx runId hphase) runId hphase

theorem World.Tracked.append {runId : Uuid}
    (hkeys : w'.keys = w.keys ++ [(runId, none)]) (hrunId : runId < w'.nextId)
    (hnext : w.nextId ≤ w'.nextId) (hroutine : w'.routineWorkspaces = w.routineWorkspaces)
    (hexecutions : w'.executions = w.executions) : w'.Tracked := by
  have hmem : ∀ key ∈ w'.keys, key ∈ w.keys ∨ key = (runId, none) :=
    fun _ => World.mem_keys_append hkeys
  constructor
  · exact hlaunches
  · exact hdistinct
  · exact htoAttach
  · intro key hkey
    rcases hmem key hkey with hold | rfl
    · exact lt_of_lt_of_le (h.fresh key hold) hnext
    · exact hrunId
  · intro key hkey workspaceId hworkspace
    rcases hmem key hkey with hold | rfl
    · obtain ⟨hlt, hroutine'⟩ := h.workspaces key hold workspaceId hworkspace
      exact ⟨lt_of_lt_of_le hlt hnext, hroutine ▸ hroutine'⟩
    · cases hworkspace
  · intro key hkey key' hkey' workspaceId hworkspace hworkspace'
    rcases hmem key hkey with hold | rfl
    · rcases hmem key' hkey' with hold' | rfl
      · exact h.unique key hold key' hold' workspaceId hworkspace hworkspace'
      · cases hworkspace'
    · cases hworkspace
  · intro x hx runId' hphase
    rw [hexecutions] at hx
    obtain ⟨⟨key, hkey, hworkspace⟩, hall⟩ := h.settling x hx runId' hphase
    refine ⟨⟨key, hkeys ▸ List.mem_append_left _ hkey, hworkspace⟩, fun key' hkey' hworkspace' => ?_⟩
    rcases hmem key' hkey' with hold | rfl
    · exact hall key' hold hworkspace'
    · cases hworkspace'

end

theorem World.Tracked.goes (h : w.Tracked) (hgoes : w.Goes w' t l')
    (hext : w.Extends w') (htracked : l'.Tracked w') : w'.Tracked := by
  refine h.extends ?_ ?_ ?_ hext
  · intro t' l hlaunch
    rcases hgoes.cases hlaunch with ⟨-, rfl⟩ | ⟨-, hold⟩
    · exact htracked
    · exact (h.launches t' l hold).extends hext
  · exact hgoes.distinct h
  · exact hgoes.attach h

theorem mem_keysOf_attachWorkspace
    {key : Uuid × Option Uuid} (h : key ∈ keysOf (RoutineRun.attachWorkspace runs p workspaceId)) :
    (key = (p, some workspaceId) ∧ ∃ old ∈ keysOf runs, old.1 = p) ∨
      (key ∈ keysOf runs ∧ key.1 ≠ p) := by
  obtain ⟨run, hrun, rfl⟩ := List.mem_map.mp h
  rcases Table.mem_update.mp hrun with ⟨run₀, hrun₀, hid, rfl⟩ | ⟨hold, hid⟩
  · have hid : run₀.id = p := by simpa using hid
    exact Or.inl ⟨by rw [hid], _, List.mem_map_of_mem hrun₀, hid⟩
  · exact Or.inr ⟨List.mem_map_of_mem hold, by simpa using hid⟩

theorem mem_keysOf_attachWorkspace_of_ne
    {key : Uuid × Option Uuid} (h : key ∈ keysOf runs) (hne : key.1 ≠ p) :
    key ∈ keysOf (RoutineRun.attachWorkspace runs p workspaceId) := by
  obtain ⟨run, hrun, rfl⟩ := List.mem_map.mp h
  apply List.mem_map_of_mem (f := fun run : RoutineRun => (run.id, run.workspaceId))
  apply Table.mem_update_of_false hrun
  simpa using hne

theorem Launch.Tracked.attach (h : l.Tracked w)
    (hkeys : w'.keys = keysOf (RoutineRun.attachWorkspace w.runs p workspaceId))
    (hne : l.runId ≠ p) (htoAttach : l.phase.toAttach ≠ some workspaceId)
    (hnext : w'.nextId = w.nextId) (hroutine : w'.routineWorkspaces = w.routineWorkspaces) :
    l.Tracked w' where
  fresh := hnext ▸ h.fresh
  before := by
    intro hphase key hkey
    rw [hkeys] at hkey
    rcases mem_keysOf_attachWorkspace hkey with ⟨rfl, -⟩ | ⟨hold, -⟩
    · exact hne.symm
    · exact h.before hphase key hold
  run := h.run
  unattached := by
    intro hphase key hkey hid
    rw [hkeys] at hkey
    rcases mem_keysOf_attachWorkspace hkey with ⟨rfl, -⟩ | ⟨hold, -⟩
    · exact absurd hid.symm hne
    · exact h.unattached hphase key hold hid
  toAttach := by
    intro workspaceId' hphase
    obtain ⟨hlt, hmem, hnot⟩ := h.toAttach workspaceId' hphase
    refine ⟨hnext ▸ hlt, hroutine ▸ hmem, fun key hkey => ?_⟩
    rw [hkeys] at hkey
    rcases mem_keysOf_attachWorkspace hkey with ⟨rfl, -⟩ | ⟨hold, -⟩
    · intro heq
      rw [hphase] at htoAttach
      exact htoAttach heq.symm
    · exact hnot key hold
  attached := by
    intro workspaceId' hphase key hkey hid
    rw [hkeys] at hkey
    rcases mem_keysOf_attachWorkspace hkey with ⟨rfl, -⟩ | ⟨hold, -⟩
    · exact absurd hid.symm hne
    · exact h.attached workspaceId' hphase key hold hid

theorem World.Tracked.attach (h : w.Tracked)
    (hlaunch : w.launches t = some l) (hphase : l.phase = .attaching run workspaceId)
    (hlaunches : w'.launches = Function.update w.launches t (some { l with phase }))
    (hruns : w'.runs = RoutineRun.attachWorkspace w.runs l.runId workspaceId)
    (hnext : w'.nextId = w.nextId) (hroutine : w'.routineWorkspaces = w.routineWorkspaces)
    (hexecutions : w'.executions = w.executions)
    (hgoes : phase = .marking run workspaceId ∨ phase = .settling run ∨
      ∃ answer, phase = .answered answer) : w'.Tracked := by
  have hl := h.launches t l hlaunch
  have hkeys : w'.keys = keysOf (RoutineRun.attachWorkspace w.runs l.runId workspaceId) :=
    congrArg keysOf hruns
  obtain ⟨hlt, hmem, hnot⟩ := hl.toAttach workspaceId (by rw [hphase]; rfl)
  have hrun := hl.run run (by rw [hphase]; rfl)
  have hnone := hl.unattached (by rw [hphase]; rfl)
  have hsteps : w.Goes w' t { l with phase } := by
    constructor
    · exact hlaunches
    · exact Or.inl ⟨l, hlaunch, rfl⟩
    · intro workspaceId' htoAttach
      rcases hgoes with rfl | rfl | ⟨answer, rfl⟩ <;> cases htoAttach
  have hwas : ∀ key ∈ w'.keys, key = (l.runId, some workspaceId) ∨
      (key ∈ w.keys ∧ key.1 ≠ l.runId) := by
    intro key hkey
    rw [hkeys] at hkey
    exact (mem_keysOf_attachWorkspace hkey).imp (·.1) id
  constructor
  · intro t' l' hlaunch'
    rcases hsteps.cases hlaunch' with ⟨-, rfl⟩ | ⟨ht, hold⟩
    · constructor
      · exact hnext ▸ hl.fresh
      · intro hinserted
        rcases hgoes with rfl | rfl | ⟨answer, rfl⟩ <;> cases hinserted
      · intro run' hrun'
        rcases hgoes with rfl | rfl | ⟨answer, rfl⟩
        · cases hrun'
          exact hrun
        · cases hrun'
          exact hrun
        · cases hrun'
      · intro hunattached
        rcases hgoes with rfl | rfl | ⟨answer, rfl⟩ <;> cases hunattached
      · intro workspaceId' htoAttach
        rcases hgoes with rfl | rfl | ⟨answer, rfl⟩ <;> cases htoAttach
      · intro workspaceId' hworkspace key hkey hid
        rcases hgoes with rfl | rfl | ⟨answer, rfl⟩
        · cases hworkspace
          rcases hwas key hkey with rfl | ⟨-, hne⟩
          · rfl
          · exact absurd hid hne
        · cases hworkspace
        · cases hworkspace
    · apply (h.launches t' l' hold).attach hkeys _ _ hnext hroutine
      · intro heq
        exact ht (h.distinct t' l' t l hold hlaunch heq)
      · intro htoAttach
        exact ht (h.toAttach t' l' t l workspaceId hold hlaunch htoAttach (by rw [hphase]; rfl))
  · exact hsteps.distinct h
  · exact hsteps.attach h
  · intro key hkey
    rw [hnext]
    rcases hwas key hkey with rfl | ⟨hold, -⟩
    · exact hl.fresh
    · exact h.fresh key hold
  · intro key hkey workspaceId' hworkspace
    rw [hnext, hroutine]
    rcases hwas key hkey with rfl | ⟨hold, -⟩
    · cases hworkspace
      exact ⟨hlt, hmem⟩
    · exact h.workspaces key hold workspaceId' hworkspace
  · intro key hkey key' hkey' workspaceId' hworkspace hworkspace'
    rcases hwas key hkey with rfl | ⟨hold, -⟩
    · rcases hwas key' hkey' with rfl | ⟨hold', -⟩
      · rfl
      · cases hworkspace
        exact absurd hworkspace' (hnot key' hold')
    · rcases hwas key' hkey' with rfl | ⟨hold', -⟩
      · cases hworkspace'
        exact absurd hworkspace (hnot key hold)
      · exact h.unique key hold key' hold' workspaceId' hworkspace hworkspace'
  · intro x hx runId hsettling
    rw [hexecutions] at hx
    obtain ⟨⟨key, hkey, hworkspace⟩, hall⟩ := h.settling x hx runId hsettling
    constructor
    · refine ⟨key, ?_, hworkspace⟩
      rw [hkeys]
      apply mem_keysOf_attachWorkspace_of_ne hkey
      intro hid
      rw [hnone key hkey hid] at hworkspace
      cases hworkspace
    · intro key' hkey' hworkspace'
      rcases hwas key' hkey' with rfl | ⟨hold, -⟩
      · cases hworkspace'
        exact absurd hworkspace (hnot key hkey)
      · exact hall key' hold hworkspace'

structure LaunchPhase.Follows (next phase : LaunchPhase) : Prop where
  inserted : next.inserted = false → phase.inserted = false
  run : ∀ run, next.run = some run → phase.run = some run
  unattached : next.unattached = true → phase.unattached = true
  workspace : ∀ workspaceId, next.workspace = some workspaceId → phase.workspace = some workspaceId
  toAttach : next.toAttach = none

theorem follows_answered (answer : Except LaunchError RunNowResponse) (phase : LaunchPhase) :
    (LaunchPhase.answered answer).Follows phase := by
  constructor <;> simp

theorem follows_settling (hrun : phase.run = some run) :
    (LaunchPhase.settling run).Follows phase where
  inserted := fun h => by cases h
  run := fun _ h => hrun.trans h
  unattached := fun h => by cases h
  workspace := fun _ h => by cases h
  toAttach := rfl

theorem Launch.Tracked.follows (hl : l.Tracked w) (hrunId : l'.runId = l.runId)
    (hfollows : l'.phase.Follows l.phase) : l'.Tracked w := by
  constructor
  · rw [hrunId]
    exact hl.fresh
  · intro hphase
    rw [hrunId]
    exact hl.before (hfollows.inserted hphase)
  · intro run hphase
    rw [hrunId]
    exact hl.run run (hfollows.run run hphase)
  · intro hphase
    rw [hrunId]
    exact hl.unattached (hfollows.unattached hphase)
  · intro workspaceId hphase
    rw [hfollows.toAttach] at hphase
    cases hphase
  · intro workspaceId hphase
    rw [hrunId]
    exact hl.attached workspaceId (hfollows.workspace workspaceId hphase)

theorem World.Tracked.advance (h : w.Tracked) (hlaunch : w.launches t = some l)
    (hlaunches : w'.launches = Function.update w.launches t (some l')) (hext : w.Extends w')
    (hrunId : l'.runId = l.runId) (hfollows : l'.phase.Follows l.phase) : w'.Tracked := by
  have hl := (h.launches t l hlaunch).extends hext
  have hgoes : w.Goes w' t l' := by
    constructor
    · exact hlaunches
    · exact Or.inl ⟨l, hlaunch, hrunId.symm⟩
    · intro workspaceId hphase
      rw [hfollows.toAttach] at hphase
      cases hphase
  exact h.goes hgoes hext (hl.follows hrunId hfollows)

theorem mem_of_settling {runId : Uuid} {executions : List Execution}
    (h : x ∈ executions ++ [Execution.start workspaceId sessionId action])
    (hsettling : x.phase = .settling runId) : x ∈ executions := by
  rcases List.mem_append.mp h with hold | hnew
  · exact hold
  · rw [List.mem_singleton.mp hnew] at hsettling
    cases hsettling

theorem World.Extends.of_eq (hkeys : w'.keys = w.keys) (hnext : w'.nextId = w.nextId)
    (hroutine : w'.routineWorkspaces = w.routineWorkspaces)
    (hexecutions : ∀ x ∈ w'.executions, ∀ runId, x.phase = .settling runId → x ∈ w.executions) :
    w.Extends w' where
  keys := hkeys
  nextId := le_of_eq hnext.symm
  routineWorkspaces := fun _ hmem => hroutine ▸ hmem
  executions := hexecutions

theorem World.Extends.setPhase (w : World) (t : Nat) (l : Launch) (phase : LaunchPhase) :
    w.Extends (w.setPhase t l phase) :=
  World.Extends.of_eq rfl rfl rfl (fun _ hx _ _ => hx)

theorem World.Extends.spawnFailed (w : World) (t : Nat) (l : Launch) (run : RoutineRun)
    (hkeys : keysOf runs = w.keys) :
    w.Extends { w.spawnFailed t l run with runs } := by
  cases hentry : l.entry with
  | runNow =>
    simp only [World.spawnFailed, hentry]
    exact World.Extends.of_eq hkeys rfl rfl (fun _ hx _ _ => hx)
  | fireRoutine =>
    simp only [World.spawnFailed, hentry]
    exact World.Extends.of_eq hkeys rfl rfl (fun _ hx _ _ => hx)

theorem World.Tracked.answer (h : World.Tracked w) (hlaunch : w.launches t = some l)
    (answer : Except LaunchError RunNowResponse) : (w.answer t l answer).Tracked :=
  h.advance hlaunch rfl (World.Extends.setPhase w t l _) rfl (follows_answered answer _)

theorem keysOf_update {p : RoutineRun → Bool} {f : RoutineRun → RoutineRun}
    (h : ∀ run, (f run).id = run.id ∧ (f run).workspaceId = run.workspaceId)
    (runs : List RoutineRun) : keysOf (Table.update p f runs) = keysOf runs := by
  apply Table.update_map
  intro run _ _
  exact Prod.ext (h run).1 (h run).2

theorem keysOf_markRunning (runs : List RoutineRun) (p : Uuid) (now : Time) :
    keysOf (RoutineRun.markRunning runs p now) = keysOf runs :=
  keysOf_update (by simp) runs

theorem keysOf_markDone (runs : List RoutineRun) (p : Uuid) (now : Time) (failed : Bool) :
    keysOf (RoutineRun.markDone runs p now failed) = keysOf runs :=
  keysOf_update (by simp) runs

theorem World.Tracked.spawnFailed (h : w.Tracked) (hlaunch : w.launches t = some l)
    (hrun : l.phase.run = some run)
    (hlaunches : w'.launches = (w.spawnFailed t l run).launches) (hext : w.Extends w') :
    w'.Tracked := by
  rw [World.spawnFailed] at hlaunches
  cases hentry : l.entry with
  | runNow =>
    rw [hentry] at hlaunches
    exact h.advance hlaunch hlaunches hext rfl (follows_answered _ _)
  | fireRoutine =>
    rw [hentry] at hlaunches
    exact h.advance hlaunch hlaunches hext rfl (follows_settling hrun)

theorem World.Tracked.insert {row : RoutineRun}
    (h : w.Tracked) (hlaunch : w.launches t = some l) (hbefore : l.phase.inserted = false)
    (hlaunches : w'.launches = Function.update w.launches t (some { l with phase }))
    (hruns : w'.runs = w.runs ++ [row]) (hrow : row.id = l.runId ∧ row.workspaceId = none)
    (hnext : w'.nextId = w.nextId) (hroutine : w'.routineWorkspaces = w.routineWorkspaces)
    (hexecutions : w'.executions = w.executions)
    (hgoes : phase = .spawning row ∨ ∃ answer, phase = .answered answer) : w'.Tracked := by
  have hl := h.launches t l hlaunch
  have hkeys : w'.keys = w.keys ++ [(l.runId, none)] := by
    simp [World.keys, keysOf, hruns, hrow.1, hrow.2]
  have hsteps : w.Goes w' t { l with phase } := by
    constructor
    · exact hlaunches
    · exact Or.inl ⟨l, hlaunch, rfl⟩
    · intro workspaceId htoAttach
      rcases hgoes with rfl | ⟨answer, rfl⟩ <;> cases htoAttach
  refine h.append ?_ ?_ ?_ hkeys (hnext ▸ hl.fresh) (le_of_eq hnext.symm) hroutine hexecutions
  · intro t' l' hlaunch'
    rcases hsteps.cases hlaunch' with ⟨-, rfl⟩ | ⟨ht, hold⟩
    · constructor
      · exact hnext ▸ hl.fresh
      · intro hinserted
        rcases hgoes with rfl | ⟨answer, rfl⟩ <;> cases hinserted
      · intro run hrun
        rcases hgoes with rfl | ⟨answer, rfl⟩
        · cases hrun
          exact hrow.1
        · cases hrun
      · intro _ key hkey hid
        rw [hkeys] at hkey
        rcases List.mem_append.mp hkey with hold | hnew
        · exact absurd hid (hl.before hbefore key hold)
        · rw [List.mem_singleton] at hnew
          rw [hnew]
      · intro workspaceId htoAttach
        rcases hgoes with rfl | ⟨answer, rfl⟩ <;> cases htoAttach
      · intro workspaceId hworkspace
        rcases hgoes with rfl | ⟨answer, rfl⟩ <;> cases hworkspace
    · apply (h.launches t' l' hold).append hkeys _ (le_of_eq hnext.symm) hroutine
      intro heq
      exact ht (h.distinct t' l' t l hold hlaunch heq.symm)
  · exact hsteps.distinct h
  · exact hsteps.attach h

theorem World.Tracked.serve (h : World.Tracked w) (hlaunch : w.launches t = some l)
    (reply : Reply) (found : Bool) (setups : List Bool) :
    (w.serve t l reply found setups).Tracked := by
  have hl := h.launches t l hlaunch
  have hanswer := h.answer hlaunch
  have hspawn : ∀ run, l.phase.run = some run → (w.spawnFailed t l run).Tracked := by
    intro run hrun
    apply h.spawnFailed hlaunch hrun rfl
    rw [World.spawnFailed]
    split <;> exact World.Extends.setPhase w t l _
  cases hphase : l.phase with
  | received =>
    rw [World.serve.eq_def, hphase]
    dsimp only
    split
    · exact hanswer _
    · split
      · exact h.advance hlaunch rfl (World.Extends.setPhase w t l _) rfl (by rw [hphase]; constructor <;> simp)
      · exact hanswer _
  | checking =>
    rw [World.serve.eq_def, hphase]
    dsimp only
    split
    · exact hanswer _
    · split
      · exact h.advance hlaunch rfl (World.Extends.setPhase w t _ _) rfl (by rw [hphase]; constructor <;> simp)
      · exact h.advance hlaunch rfl (World.Extends.setPhase w t l _) rfl (by rw [hphase]; constructor <;> simp)
  | skipping =>
    rw [World.serve.eq_def, hphase]
    cases reply with
    | failed => exact hanswer _
    | ok =>
      exact h.insert hlaunch (by rw [hphase]; rfl) rfl rfl ⟨rfl, rfl⟩ rfl rfl rfl (Or.inr ⟨_, rfl⟩)
    | lost =>
      exact h.insert hlaunch (by rw [hphase]; rfl) rfl rfl ⟨rfl, rfl⟩ rfl rfl rfl (Or.inr ⟨_, rfl⟩)
  | creating rows =>
    rw [World.serve.eq_def, hphase]
    cases reply with
    | failed => exact hanswer _
    | ok =>
      exact h.insert hlaunch (by rw [hphase]; rfl) rfl rfl ⟨rfl, rfl⟩ rfl rfl rfl (Or.inl rfl)
    | lost =>
      exact h.insert hlaunch (by rw [hphase]; rfl) rfl rfl ⟨rfl, rfl⟩ rfl rfl rfl (Or.inr ⟨_, rfl⟩)
  | spawning run =>
    have hrun : l.phase.run = some run := by rw [hphase]; rfl
    rw [World.serve.eq_def, hphase]
    dsimp only
    split
    · exact hspawn run hrun
    · apply h.goes
      · constructor
        · rfl
        · exact Or.inl ⟨l, hlaunch, rfl⟩
        · intro workspaceId htoAttach
          cases htoAttach
          exact Or.inr (le_refl _)
      · constructor
        · rfl
        · exact Nat.le_succ _
        · intro workspaceId hmem
          exact List.mem_cons_of_mem _ hmem
        · exact fun x hx _ _ => hx
      · constructor
        · exact Nat.lt_succ_of_lt hl.fresh
        · intro hinserted
          cases hinserted
        · intro run' hrun'
          cases hrun'
          exact hl.run run hrun
        · intro _
          exact hl.unattached (by rw [hphase]; rfl)
        · intro workspaceId htoAttach
          cases htoAttach
          refine ⟨Nat.lt_succ_self _, List.mem_cons_self, fun key hkey hworkspace => ?_⟩
          exact absurd (h.workspaces key hkey _ hworkspace).1 (lt_irrefl _)
        · intro workspaceId hworkspace
          cases hworkspace
  | attaching run workspaceId =>
    rw [World.serve.eq_def, hphase]
    cases reply with
    | failed => exact hspawn run (by rw [hphase]; rfl)
    | ok => exact h.attach hlaunch hphase rfl rfl rfl rfl rfl (Or.inl rfl)
    | lost =>
      dsimp only
      cases hentry : l.entry with
      | runNow =>
        simp only [World.spawnFailed, hentry]
        exact h.attach hlaunch hphase rfl rfl rfl rfl rfl (Or.inr (Or.inr ⟨_, rfl⟩))
      | fireRoutine =>
        simp only [World.spawnFailed, hentry]
        exact h.attach hlaunch hphase rfl rfl rfl rfl rfl (Or.inr (Or.inl rfl))
  | marking run workspaceId =>
    have hmarked := keysOf_markRunning w.runs l.runId l.now
    rw [World.serve.eq_def, hphase]
    cases reply with
    | failed => exact hspawn run (by rw [hphase]; rfl)
    | ok =>
      exact h.advance hlaunch rfl (World.Extends.of_eq hmarked rfl rfl (fun _ hx _ _ => hx)) rfl (by rw [hphase]; constructor <;> simp)
    | lost =>
      exact h.spawnFailed hlaunch (by rw [hphase]; rfl) rfl (World.Extends.spawnFailed w t l run hmarked)
  | starting run workspaceId =>
    rw [World.serve.eq_def, hphase]
    dsimp only
    split
    · exact hspawn run (by rw [hphase]; rfl)
    · have hext : w.Extends { w.setPhase t l (.executing run workspaceId w.nextId
          (startActions setups)) with nextId := w.nextId + 1 } := by
        constructor
        · rfl
        · exact Nat.le_succ _
        · exact fun _ hmem => hmem
        · exact fun _ hx _ _ => hx
      exact h.advance hlaunch rfl hext rfl (by rw [hphase]; constructor <;> simp)
  | executing run workspaceId sessionId actions =>
    rw [World.serve.eq_def, hphase]
    cases actions with
    | nil => exact hanswer _
    | cons action actions =>
      have hext : w.Extends { w.setPhase t l (.executing run workspaceId sessionId actions) with
          executions := w.executions ++ [Execution.start workspaceId sessionId action] } :=
        World.Extends.of_eq rfl rfl rfl (fun _ hx _ => mem_of_settling hx)
      dsimp only
      split
      · exact h.advance hlaunch rfl hext rfl (by rw [hphase]; constructor <;> simp)
      · split
        · exact hspawn run (by rw [hphase]; rfl)
        · exact h.advance hlaunch rfl (World.Extends.setPhase w t l _) rfl (by rw [hphase]; constructor <;> simp)
  | settling run =>
    have hdone := keysOf_markDone w.runs run.id l.now true
    have hext : ∀ answer, w.Extends { w.answer t l answer with
        runs := RoutineRun.markDone w.runs run.id l.now true } := by
      intro answer
      exact World.Extends.of_eq hdone rfl rfl (fun _ hx _ _ => hx)
    rw [World.serve.eq_def, hphase]
    cases reply with
    | failed => exact hanswer _
    | ok =>
      exact h.advance hlaunch rfl (hext _) rfl (by rw [hphase]; constructor <;> simp)
    | lost =>
      exact h.advance hlaunch rfl (hext _) rfl (by rw [hphase]; constructor <;> simp)
  | answered answer =>
    rw [World.serve.eq_def, hphase]
    exact h
  | lost =>
    rw [World.serve.eq_def, hphase]
    exact h

theorem World.Tracked.found (h : w.Tracked) {x : Execution} {run : RoutineRun}
    (hrun : RoutineRun.findActiveByWorkspace w.runs x.workspaceId = some run) :
    (∃ key ∈ w.keys, key.2 = some x.workspaceId) ∧
      ∀ key ∈ w.keys, key.2 = some x.workspaceId → key.1 = run.id := by
  have hmem := List.mem_of_getLast? hrun
  obtain ⟨hold, hworkspace⟩ := List.mem_filter.mp hmem
  simp only [Bool.decide_and, Bool.decide_eq_true, Bool.and_eq_true, decide_eq_true_eq] at hworkspace
  have hkey : (run.id, run.workspaceId) ∈ w.keys := List.mem_map_of_mem hold
  refine ⟨⟨_, hkey, hworkspace.1⟩, fun key hkey' hworkspace' => ?_⟩
  exact h.unique key hkey' _ hkey x.workspaceId hworkspace' hworkspace.1

theorem World.Tracked.of_executions (h : w.Tracked)
    (hlaunches : w'.launches = w.launches) (hkeys : w'.keys = w.keys) (hnext : w'.nextId = w.nextId)
    (hroutine : w'.routineWorkspaces = w.routineWorkspaces)
    (hsettling : ∀ x ∈ w'.executions, ∀ runId, x.phase = .settling runId → x ∈ w.executions ∨
      (∃ key ∈ w.keys, key.2 = some x.workspaceId) ∧
        ∀ key ∈ w.keys, key.2 = some x.workspaceId → key.1 = runId) : w'.Tracked := by
  constructor
  · intro t l hlaunch
    rw [hlaunches] at hlaunch
    have hl := h.launches t l hlaunch
    constructor
    · exact hnext ▸ hl.fresh
    · rw [hkeys]
      exact hl.before
    · exact hl.run
    · rw [hkeys]
      exact hl.unattached
    · rw [hkeys, hnext, hroutine]
      exact hl.toAttach
    · rw [hkeys]
      exact hl.attached
  · rw [hlaunches]
    exact h.distinct
  · rw [hlaunches]
    exact h.toAttach
  · rw [hkeys, hnext]
    exact h.fresh
  · rw [hkeys, hnext, hroutine]
    exact h.workspaces
  · rw [hkeys]
    exact h.unique
  · rw [hkeys]
    intro x hx runId hphase
    rcases hsettling x hx runId hphase with hold | hnew
    · exact h.settling x hold runId hphase
    · exact hnew

theorem settling_of_set {executions : List Execution} {y : Execution}
    (hy : ∀ runId, y.phase ≠ .settling runId) {x : Execution} (hx : x ∈ executions.set n y)
    (hphase : x.phase = .settling runId) : x ∈ executions := by
  rcases List.mem_or_eq_of_mem_set hx with hold | rfl
  · exact hold
  · exact absurd hphase (hy runId)

theorem World.Tracked.setExecution (h : World.Tracked w) {y : Execution}
    (hy : ∀ runId, y.phase ≠ .settling runId) : (w.setExecution n y).Tracked :=
  h.of_executions rfl rfl rfl rfl fun _ hx _ hphase => Or.inl (settling_of_set hy hx hphase)

theorem World.Tracked.exit (h : World.Tracked w) (n : Nat) (x : Execution) (reply : Reply)
    (outcome : Outcome) (allowNextAction : Bool) :
    (w.exit n x reply outcome allowNextAction).Tracked := by
  rw [World.exit.eq_def]
  split
  · exact h.setExecution (by simp)
  · exact h.setExecution (by simp)
  · dsimp only
    split <;> exact h.setExecution (by simp)
  · exact h

theorem World.Tracked.monitor (h : World.Tracked w) (n : Nat) (x : Execution) (reply : Reply)
    (now : Time) : (w.monitor n x reply now).Tracked := by
  cases hphase : x.phase with
  | running =>
    rw [World.monitor.eq_def, hphase]
    exact h
  | chaining =>
    rw [World.monitor.eq_def, hphase]
    dsimp only
    have hset : (w.setExecution n { x with phase := .finishing }).Tracked :=
      h.setExecution (by simp)
    split
    · refine hset.of_executions rfl rfl rfl rfl ?_
      intro y hy runId hsettling
      exact Or.inl (mem_of_settling hy hsettling)
    · exact hset
  | finishing =>
    rw [World.monitor.eq_def, hphase]
    dsimp only
    split <;> exact h.setExecution (by simp)
  | finalizing =>
    rw [World.monitor.eq_def, hphase]
    dsimp only
    split
    · split
      · rename_i run hrun
        refine h.of_executions rfl rfl rfl rfl ?_
        intro y hy runId hsettling
        rcases List.mem_or_eq_of_mem_set hy with hold | rfl
        · exact Or.inl hold
        · cases hsettling
          exact Or.inr (h.found hrun)
      · exact h.setExecution (by simp)
    · exact h.setExecution (by simp)
  | settling runId =>
    rw [World.monitor.eq_def, hphase]
    dsimp only
    split
    · exact h.setExecution (by simp)
    · refine h.of_executions rfl (keysOf_markDone _ _ _ _) rfl rfl ?_
      intro y hy runId' hsettling
      exact Or.inl (settling_of_set (by simp) hy hsettling)
  | ended =>
    rw [World.monitor.eq_def, hphase]
    exact h

theorem Launch.lose_runId (l : Launch) : l.lose.runId = l.runId := by
  rw [Launch.lose.eq_def]
  split <;> rfl

theorem Launch.lose_follows (l : Launch) : l.lose.phase.Follows l.phase := by
  rw [Launch.lose.eq_def]
  split
  · rename_i answer hphase
    rw [hphase]
    exact follows_answered answer _
  · constructor <;> simp

theorem World.Tracked.request (h : World.Tracked w) (hnone : w.launches t = none)
    (hrunId : l'.runId = w.nextId) (hbefore : l'.phase = .received ∨ l'.phase = .checking) :
    World.Tracked { w with
      launches := Function.update w.launches t (some l')
      nextId := w.nextId + 1 } := by
  apply h.goes
  · constructor
    · rfl
    · exact Or.inr ⟨hnone, le_of_eq hrunId.symm⟩
    · intro workspaceId htoAttach
      rcases hbefore with hphase | hphase
      · rw [hphase] at htoAttach
        cases htoAttach
      · rw [hphase] at htoAttach
        cases htoAttach
  · constructor
    · rfl
    · exact Nat.le_succ _
    · exact fun _ hmem => hmem
    · exact fun x hx _ _ => hx
  · constructor
    · rw [hrunId]
      exact Nat.lt_succ_self _
    · intro _ key hkey
      rw [hrunId]
      exact ne_of_lt (h.fresh key hkey)
    all_goals
      rcases hbefore with hphase | hphase <;> simp [hphase]

theorem World.Tracked.step (h : World.Tracked w) (event : Event) : (w.step event).Tracked := by
  cases event with
  | request t entry routineId now =>
    rw [World.step.eq_def]
    dsimp only
    split
    · rename_i hnone
      apply h.request hnone
      · rfl
      · cases entry with
        | runNow => exact Or.inl rfl
        | fireRoutine => exact Or.inr rfl
    · exact h
  | step t reply found setups =>
    rw [World.step.eq_def]
    dsimp only
    split
    · exact h
    · rename_i l hlaunch
      exact h.serve hlaunch reply found setups
  | lose t =>
    rw [World.step.eq_def]
    dsimp only
    split
    · exact h
    · rename_i l hlaunch
      exact h.advance hlaunch rfl (World.Extends.of_eq rfl rfl rfl (fun _ hx _ _ => hx))
        l.lose_runId l.lose_follows
  | missed routineId scheduledAt =>
    have hkeys : (w.step (.missed routineId scheduledAt)).keys = w.keys ++ [(w.nextId, none)] := by
      simp [World.step, World.keys, keysOf, RoutineRun.new]
    refine h.append ?_ ?_ ?_ hkeys (Nat.lt_succ_self _) (Nat.le_succ _) rfl rfl
    · intro t l hlaunch
      have hl := h.launches t l hlaunch
      exact hl.append hkeys (ne_of_gt hl.fresh) (Nat.le_succ _) rfl
    · exact h.distinct
    · exact h.toAttach
  | execute workspaceId sessionId action =>
    refine h.of_executions rfl rfl rfl rfl ?_
    intro x hx runId hsettling
    exact Or.inl (mem_of_settling hx hsettling)
  | exit n reply outcome allowNextAction =>
    rw [World.step.eq_def]
    dsimp only
    split
    · exact h
    · exact h.exit n _ reply outcome allowNextAction
  | monitor n reply now =>
    rw [World.step.eq_def]
    dsimp only
    split
    · exact h
    · exact h.monitor n _ reply now
  | restart =>
    have hlost : ∀ t l, w.restart.launches t = some l → ∃ l₀, w.launches t = some l₀ ∧
        l = l₀.lose := by
      intro t l hlaunch
      obtain ⟨l₀, hlaunch₀, rfl⟩ := Option.map_eq_some_iff.mp hlaunch
      exact ⟨l₀, hlaunch₀, rfl⟩
    have hext : w.Extends w.restart := by
      refine World.Extends.of_eq rfl rfl rfl ?_
      intro x hx runId hsettling
      obtain ⟨x₀, -, rfl⟩ := List.mem_map.mp hx
      cases hsettling
    refine h.extends ?_ ?_ ?_ hext
    · intro t l hlaunch
      obtain ⟨l₀, hlaunch₀, rfl⟩ := hlost t l hlaunch
      exact ((h.launches t l₀ hlaunch₀).extends hext).follows l₀.lose_runId l₀.lose_follows
    · intro t l t' l' hlaunch hlaunch' heq
      obtain ⟨l₀, hlaunch₀, rfl⟩ := hlost t l hlaunch
      obtain ⟨l₀', hlaunch₀', rfl⟩ := hlost t' l' hlaunch'
      rw [l₀.lose_runId, l₀'.lose_runId] at heq
      exact h.distinct t l₀ t' l₀' hlaunch₀ hlaunch₀' heq
    · intro t l t' l' workspaceId hlaunch hlaunch' htoAttach
      obtain ⟨l₀, hlaunch₀, rfl⟩ := hlost t l hlaunch
      rw [l₀.lose_follows.toAttach] at htoAttach
      cases htoAttach

end Cdesktop.Routines
