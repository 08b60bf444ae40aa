import Cdesktop.Routine

namespace Cdesktop.Routines
open Table (Reply)
set_option autoImplicit true

def RoutineRun.activeOf (routineId : Uuid) (run : RoutineRun) : Bool :=
  run.routineId = routineId ∧ run.isActive

/-- What came between the check of a launch and the writes that follow from it: no run that was
created since is still active, and the run that is marked as running has not ended. -/
def World.Serial (w : World) : Event → Prop
  | .step t _ _ _ => ∀ l, w.launches t = some l →
    match l.phase with
    | .creating rows => ∀ run ∈ w.runs.drop rows, run.activeOf l.routineId = false
    | .marking _ _ => ∀ run ∈ w.runs, run.id = l.runId → run.isActive = true
    | _ => True
  | _ => True

structure World.OneActive (w : World) : Prop where
  one : w.runs.Pairwise fun a b => a.isActive = true → b.isActive = true → a.routineId ≠ b.routineId
  checked : ∀ t l rows, w.launches t = some l → l.phase = .creating rows →
    rows ≤ w.runs.length ∧ ∀ run ∈ w.runs.take rows, run.activeOf l.routineId = false

/-- A write to the runs that makes none active. -/
structure Quiet (runs runs' : List RoutineRun) : Prop where
  updated : ∃ f, runs' = runs.map f ∧ ∀ run ∈ runs, (f run).routineId = run.routineId ∧
    ((f run).isActive = true → run.isActive = true)

theorem Quiet.refl (runs : List RoutineRun) : Quiet runs runs where
  updated := ⟨id, by simp⟩

theorem Quiet.update {p : RoutineRun → Bool} {f : RoutineRun → RoutineRun}
    (h : ∀ run ∈ runs, p run = true → (f run).routineId = run.routineId ∧
      ((f run).isActive = true → run.isActive = true)) : Quiet runs (Table.update p f runs) where
  updated := by
    refine ⟨fun run => if p run then f run else run, rfl, fun run hrun => ?_⟩
    cases hp : p run with
    | true => simpa [hp] using h run hrun hp
    | false => simp [hp]

theorem quiet_attachWorkspace (runs : List RoutineRun) (id workspaceId : Uuid) :
    Quiet runs (RoutineRun.attachWorkspace runs id workspaceId) :=
  Quiet.update fun _ _ _ => ⟨rfl, fun h => h⟩

theorem quiet_markDone (runs : List RoutineRun) (id : Uuid) (now : Time) (failed : Bool) :
    Quiet runs (RoutineRun.markDone runs id now failed) := by
  apply Quiet.update
  intro run _ _
  refine ⟨rfl, fun h => ?_⟩
  cases failed <;> simp [RoutineRun.isActive] at h

theorem quiet_markRunning {runs : List RoutineRun} {id : Uuid}
    (h : ∀ run ∈ runs, run.id = id → run.isActive = true) (now : Time) :
    Quiet runs (RoutineRun.markRunning runs id now) := by
  apply Quiet.update
  intro run hrun hid
  exact ⟨rfl, fun _ => h run hrun (by simpa using hid)⟩

theorem activeOf_iff {run : RoutineRun} {routineId : Uuid} :
    run.activeOf routineId = true ↔ run.routineId = routineId ∧ run.isActive = true := by
  simp [RoutineRun.activeOf]

def World.Checks (w w' : World) : Prop :=
  ∀ t l rows, w'.launches t = some l → l.phase = .creating rows →
    w.launches t = some l ∨
      (rows = w.runs.length ∧ RoutineRun.hasRunning w.runs l.routineId = false)

theorem hasRunning_eq_false {runs : List RoutineRun} {routineId : Uuid} :
    RoutineRun.hasRunning runs routineId = false ↔
      ∀ run ∈ runs, run.activeOf routineId = false := by
  simp [RoutineRun.hasRunning, RoutineRun.activeOf]

theorem World.OneActive.checks (h : World.OneActive w) (hchecks : w.Checks w')
    (hlaunch : w'.launches t = some l) (hphase : l.phase = .creating rows) :
    rows ≤ w.runs.length ∧ ∀ run ∈ w.runs.take rows, run.activeOf l.routineId = false := by
  rcases hchecks t l rows hlaunch hphase with hold | ⟨rfl, hnone⟩
  · exact h.checked t l rows hold hphase
  · refine ⟨le_refl _, fun run hrun => ?_⟩
    exact hasRunning_eq_false.mp hnone run (List.mem_of_mem_take hrun)

theorem World.OneActive.quiet (h : World.OneActive w) (hchecks : w.Checks w')
    (hquiet : Quiet w.runs w'.runs) : w'.OneActive := by
  obtain ⟨f, hruns, hf⟩ := hquiet.updated
  constructor
  · rw [hruns, List.pairwise_map]
    apply h.one.imp_of_mem
    intro a b ha hb hne hactive hactive'
    rw [(hf a ha).1, (hf b hb).1]
    exact hne ((hf a ha).2 hactive) ((hf b hb).2 hactive')
  · intro t l rows hlaunch hphase
    obtain ⟨hle, hnone⟩ := h.checks hchecks hlaunch hphase
    rw [hruns, List.length_map, ← List.map_take]
    refine ⟨hle, fun run hrun => ?_⟩
    obtain ⟨run₀, hrun₀, rfl⟩ := List.mem_map.mp hrun
    have hquiet₀ := hf run₀ (List.mem_of_mem_take hrun₀)
    rw [Bool.eq_false_iff]
    intro hactive
    obtain ⟨hroutine, hactive⟩ := activeOf_iff.mp hactive
    have hwas := activeOf_iff.mpr ⟨hquiet₀.1.symm.trans hroutine, hquiet₀.2 hactive⟩
    rw [hnone run₀ hrun₀] at hwas
    cases hwas

theorem World.OneActive.append (h : World.OneActive w) (hchecks : w.Checks w')
    (hruns : w'.runs = w.runs ++ [run])
    (hnew : run.isActive = true → ∀ other ∈ w.runs, other.activeOf run.routineId = false) :
    w'.OneActive := by
  constructor
  · rw [hruns]
    apply List.pairwise_append.mpr
    refine ⟨h.one, List.pairwise_singleton _ _, fun a ha b hb hactive hactive' hroutine => ?_⟩
    rw [List.mem_singleton] at hb
    subst hb
    have hwas := activeOf_iff.mpr ⟨hroutine, hactive⟩
    rw [hnew hactive' a ha] at hwas
    cases hwas
  · intro t l rows hlaunch hphase
    obtain ⟨hle, hnone⟩ := h.checks hchecks hlaunch hphase
    rw [hruns, List.length_append, List.take_append_of_le_length hle]
    exact ⟨le_trans hle (Nat.le_add_right _ _), hnone⟩

variable {w' : World} {l' l : Launch}

theorem World.Checks.setPhase {w : World}
    (hlaunches : w'.launches = Function.update w.launches t (some l'))
    (hphase : ∀ rows, l'.phase ≠ .creating rows) : w.Checks w' := by
  intro t' l rows hlaunch hcreating
  rw [hlaunches] at hlaunch
  by_cases ht : t' = t
  · subst ht
    simp only [Function.update_self, Option.some.injEq] at hlaunch
    subst hlaunch
    exact absurd hcreating (hphase rows)
  · left
    simpa [ht] using hlaunch

theorem World.Checks.of_eq (hlaunches : w'.launches = w.launches) : World.Checks w w' := by
  intro t l rows hlaunch _
  left
  rw [← hlaunches]
  exact hlaunch

theorem World.Checks.answer (w : World) (t : Nat) (l : Launch)
    (answer : Except LaunchError RunNowResponse) : w.Checks (w.answer t l answer) := by
  apply World.Checks.setPhase rfl
  intro rows hphase
  cases hphase

theorem World.Checks.spawnFailed (w : World) (t : Nat) (l : Launch) (run : RoutineRun) :
    w.Checks (w.spawnFailed t l run) := by
  cases hentry : l.entry with
  | runNow =>
    rw [World.spawnFailed, hentry]
    exact World.Checks.answer w t l _
  | fireRoutine =>
    rw [World.spawnFailed, hentry]
    apply World.Checks.setPhase rfl
    intro rows hphase
    cases hphase

@[simp] theorem spawnFailed_runs (w : World) (t : Nat) (l : Launch) (run : RoutineRun) :
    (w.spawnFailed t l run).runs = w.runs := by
  rw [World.spawnFailed]
  split <;> rfl

namespace World

theorem OneActive.goOn (h : OneActive w)
    (hlaunches : w'.launches = Function.update w.launches t (some l'))
    (hphase : ∀ rows, l'.phase ≠ .creating rows) (hquiet : Quiet w.runs w'.runs) : w'.OneActive :=
  h.quiet (Checks.setPhase hlaunches hphase) hquiet

theorem OneActive.serve (h : OneActive w) (hlaunch : w.launches t = some l)
    (reply : Reply) (found : Bool) (setups : List Bool)
    (hserial : w.Serial (.step t reply found setups)) :
    (w.serve t l reply found setups).OneActive := by
  have hserial := hserial l hlaunch
  have hanswer : ∀ answer, (w.answer t l answer).OneActive := by
    intro answer
    exact h.quiet (Checks.answer w t l answer) (Quiet.refl _)
  have hspawn : ∀ run, (w.spawnFailed t l run).OneActive := by
    intro run
    apply h.quiet (Checks.spawnFailed w t l run)
    rw [spawnFailed_runs]
    exact Quiet.refl _
  cases hphase : l.phase with
  | received =>
    rw [serve.eq_def, hphase]
    dsimp only
    split
    · exact hanswer _
    · split
      · exact h.goOn rfl (by simp) (Quiet.refl _)
      · exact hanswer _
  | checking =>
    rw [serve.eq_def, hphase]
    dsimp only
    split
    · exact hanswer _
    · split
      · exact h.goOn rfl (by simp) (Quiet.refl _)
      · rename_i hnone
        refine h.quiet ?_ (Quiet.refl _)
        intro t' l' rows hlaunch' hcreating
        by_cases ht : t' = t
        · subst ht
          simp only [setPhase, Function.update_self, Option.some.injEq] at hlaunch'
          subst hlaunch'
          cases hcreating
          right
          exact ⟨rfl, by simpa using hnone⟩
        · left
          simpa [setPhase, ht] using hlaunch'
  | skipping =>
    rw [serve.eq_def, hphase]
    cases reply with
    | failed => exact hanswer _
    | ok => exact h.append (Checks.answer w t l _) rfl (fun hactive => by cases hactive)
    | lost => exact h.append (Checks.answer w t l _) rfl (fun hactive => by cases hactive)
  | creating rows =>
    rw [hphase] at hserial
    obtain ⟨-, hchecked⟩ := h.checked t l rows hlaunch hphase
    have hnone : ∀ other ∈ w.runs, other.activeOf l.routineId = false := by
      intro other hother
      rw [← List.take_append_drop rows w.runs] at hother
      rcases List.mem_append.mp hother with hold | hnew
      · exact hchecked other hold
      · exact hserial other hnew
    rw [serve.eq_def, hphase]
    cases reply with
    | failed => exact hanswer _
    | ok =>
      exact h.append (Checks.setPhase rfl (by simp)) rfl (fun _ => hnone)
    | lost => exact h.append (Checks.answer w t l _) rfl (fun _ => hnone)
  | spawning run =>
    rw [serve.eq_def, hphase]
    dsimp only
    split
    · exact hspawn run
    · exact h.goOn rfl (by simp) (Quiet.refl _)
  | attaching run workspaceId =>
    have hquiet := quiet_attachWorkspace w.runs l.runId workspaceId
    rw [serve.eq_def, hphase]
    cases reply with
    | failed => exact hspawn run
    | ok =>
      exact h.goOn rfl (by simp) hquiet
    | lost => exact h.quiet (Checks.spawnFailed w t l run) hquiet
  | marking run workspaceId =>
    rw [hphase] at hserial
    have hquiet := quiet_markRunning hserial l.now
    rw [serve.eq_def, hphase]
    cases reply with
    | failed => exact hspawn run
    | ok =>
      exact h.goOn rfl (by simp) hquiet
    | lost => exact h.quiet (Checks.spawnFailed w t l run) hquiet
  | starting run workspaceId =>
    rw [serve.eq_def, hphase]
    dsimp only
    split
    · exact hspawn run
    · exact h.goOn rfl (by simp) (Quiet.refl _)
  | executing run workspaceId sessionId actions =>
    have hgoes : ∀ actions executions,
        OneActive { w.setPhase t l (.executing run workspaceId sessionId actions) with
          executions } := by
      intro actions executions
      exact h.goOn rfl (by simp) (Quiet.refl _)
    rw [serve.eq_def, hphase]
    cases actions with
    | nil => exact hanswer _
    | cons action actions =>
      dsimp only
      split
      · exact hgoes actions _
      · split
        · exact hspawn run
        · exact hgoes actions _
  | settling run =>
    have hquiet := quiet_markDone w.runs run.id l.now true
    rw [serve.eq_def, hphase]
    cases reply with
    | failed => exact hanswer _
    | ok => exact h.quiet (Checks.answer w t l _) hquiet
    | lost => exact h.quiet (Checks.answer w t l _) hquiet
  | answered answer =>
    rw [serve.eq_def, hphase]
    exact h
  | lost =>
    rw [serve.eq_def, hphase]
    exact h

end World

theorem quiet_monitor (w : World) (n : Nat) (x : Execution) (reply : Reply) (now : Time) :
    (w.monitor n x reply now).launches = w.launches ∧ Quiet w.runs (w.monitor n x reply now).runs := by
  cases hphase : x.phase with
  | running =>
    rw [World.monitor.eq_def, hphase]
    exact ⟨rfl, Quiet.refl _⟩
  | chaining =>
    rw [World.monitor.eq_def, hphase]
    dsimp only
    split <;> exact ⟨rfl, Quiet.refl _⟩
  | finishing =>
    rw [World.monitor.eq_def, hphase]
    exact ⟨rfl, Quiet.refl _⟩
  | finalizing =>
    rw [World.monitor.eq_def, hphase]
    dsimp only
    split
    · split <;> exact ⟨rfl, Quiet.refl _⟩
    · exact ⟨rfl, Quiet.refl _⟩
  | settling runId =>
    rw [World.monitor.eq_def, hphase]
    dsimp only
    split
    · exact ⟨rfl, Quiet.refl _⟩
    · exact ⟨rfl, quiet_markDone _ _ _ _⟩
  | ended =>
    rw [World.monitor.eq_def, hphase]
    exact ⟨rfl, Quiet.refl _⟩

theorem exit_launches (w : World) (n : Nat) (x : Execution) (reply : Reply) (outcome : Outcome)
    (allowNextAction : Bool) : (w.exit n x reply outcome allowNextAction).launches = w.launches ∧
      (w.exit n x reply outcome allowNextAction).runs = w.runs := by
  rw [World.exit.eq_def]
  split <;> exact ⟨rfl, rfl⟩

theorem Launch.lose_creating (h : l.lose.phase = .creating rows) : l.lose = l := by
  rw [Launch.lose.eq_def] at h
  cases hphase : l.phase <;> simp [hphase] at h

theorem World.OneActive.step (h : World.OneActive w) (event : Event) (hserial : w.Serial event) :
    (w.step event).OneActive := by
  cases event with
  | request t entry routineId now =>
    rw [World.step.eq_def]
    dsimp only
    split
    · refine h.goOn rfl ?_ (Quiet.refl _)
      cases entry <;> simp
    · exact h
  | step t reply found setups =>
    rw [World.step.eq_def]
    dsimp only
    split
    · exact h
    · rename_i l hlaunch
      exact h.serve hlaunch reply found setups hserial
  | lose t =>
    rw [World.step.eq_def]
    dsimp only
    split
    · exact h
    · rename_i l hlaunch
      refine h.quiet ?_ (Quiet.refl _)
      intro t' l' rows hlaunch' hcreating
      left
      by_cases ht : t' = t
      · subst ht
        simp only [Function.update_self, Option.some.injEq] at hlaunch'
        subst hlaunch'
        rw [Launch.lose_creating hcreating]
        exact hlaunch
      · simpa [ht] using hlaunch'
  | missed routineId scheduledAt =>
    exact h.append (World.Checks.of_eq rfl) rfl (fun hactive => by cases hactive)
  | execute workspaceId sessionId action => exact h.quiet (World.Checks.of_eq rfl) (Quiet.refl _)
  | exit n reply outcome allowNextAction =>
    rw [World.step.eq_def]
    dsimp only
    split
    · exact h
    · rename_i x hx
      obtain ⟨hlaunches, hruns⟩ := exit_launches w n x reply outcome allowNextAction
      apply h.quiet (World.Checks.of_eq hlaunches)
      rw [hruns]
      exact Quiet.refl _
  | monitor n reply now =>
    rw [World.step.eq_def]
    dsimp only
    split
    · exact h
    · rename_i x hx
      obtain ⟨hlaunches, hquiet⟩ := quiet_monitor w n x reply now
      exact h.quiet (World.Checks.of_eq hlaunches) hquiet
  | restart =>
    refine h.quiet ?_ (Quiet.refl _)
    intro t l rows hlaunch hcreating
    left
    obtain ⟨l₀, hlaunch₀, rfl⟩ := Option.map_eq_some_iff.mp hlaunch
    rw [Launch.lose_creating hcreating]
    exact hlaunch₀

theorem World.new_oneActive : World.new.OneActive where
  one := List.Pairwise.nil
  checked := fun t l rows hlaunch => by cases hlaunch

/-- Where a launch may be whose check found an active run. -/
def Launch.Reports (l : Launch) : Prop :=
  l.phase = .skipping ∨
    l.phase = .answered (.ok ⟨RoutineRun.new l.runId l.routineId l.now .skipped prevStillRunning, none,
      true, prevStillRunning⟩) ∨
    l.phase = .answered (.error .database) ∨ l.phase = .lost

def World.Reported (w : World) : Prop :=
  ∀ t l, w.launches t = some l → l.blocked = true → l.Reports

theorem World.Reported.setLaunch (h : World.Reported w)
    (hlaunches : w'.launches = Function.update w.launches t (some l'))
    (hreports : l'.blocked = true → l'.Reports) : w'.Reported := by
  intro t' l hlaunch hblocked
  rw [hlaunches] at hlaunch
  by_cases ht : t' = t
  · subst ht
    simp only [Function.update_self, Option.some.injEq] at hlaunch
    subst hlaunch
    exact hreports hblocked
  · apply h t' l _ hblocked
    simpa [ht] using hlaunch

theorem spawnFailed_launches (w : World) (t : Nat) (l : Launch) (run : RoutineRun) :
    ∃ phase, (w.spawnFailed t l run).launches =
      Function.update w.launches t (some { l with phase }) := by
  rw [World.spawnFailed]
  split
  · exact ⟨_, rfl⟩
  · exact ⟨_, rfl⟩

theorem serve_launches (w : World) (t : Nat) (l : Launch) (reply : Reply) (found : Bool)
    (setups : List Bool) (hchecking : l.phase ≠ .checking) :
    (w.serve t l reply found setups).launches = w.launches ∨
      ∃ phase, (w.serve t l reply found setups).launches =
        Function.update w.launches t (some { l with phase }) := by
  have hspawn := spawnFailed_launches w t l
  cases hphase : l.phase with
  | checking => exact absurd hphase hchecking
  | received =>
    rw [World.serve.eq_def, hphase]
    dsimp only
    right
    split
    · exact ⟨_, rfl⟩
    · split <;> exact ⟨_, rfl⟩
  | skipping =>
    rw [World.serve.eq_def, hphase]
    right
    cases reply <;> exact ⟨_, rfl⟩
  | creating rows =>
    rw [World.serve.eq_def, hphase]
    right
    cases reply <;> exact ⟨_, rfl⟩
  | spawning run =>
    rw [World.serve.eq_def, hphase]
    dsimp only
    right
    split
    · exact hspawn run
    · exact ⟨_, rfl⟩
  | attaching run workspaceId =>
    rw [World.serve.eq_def, hphase]
    right
    cases reply with
    | ok => exact ⟨_, rfl⟩
    | failed => exact hspawn run
    | lost => exact hspawn run
  | marking run workspaceId =>
    rw [World.serve.eq_def, hphase]
    right
    cases reply with
    | ok => exact ⟨_, rfl⟩
    | failed => exact hspawn run
    | lost => exact hspawn run
  | starting run workspaceId =>
    rw [World.serve.eq_def, hphase]
    dsimp only
    right
    split
    · exact hspawn run
    · exact ⟨_, rfl⟩
  | executing run workspaceId sessionId actions =>
    rw [World.serve.eq_def, hphase]
    right
    cases actions with
    | nil => exact ⟨_, rfl⟩
    | cons action actions =>
      dsimp only
      split
      · exact ⟨_, rfl⟩
      · split
        · exact hspawn run
        · exact ⟨_, rfl⟩
  | settling run =>
    rw [World.serve.eq_def, hphase]
    right
    cases reply <;> exact ⟨_, rfl⟩
  | answered answer =>
    rw [World.serve.eq_def, hphase]
    left
    rfl
  | lost =>
    rw [World.serve.eq_def, hphase]
    left
    rfl

def Launch.skippedRun (l : Launch) : RoutineRun :=
  RoutineRun.new l.runId l.routineId l.now .skipped prevStillRunning

theorem serve_blocked (w : World) (t : Nat) (h : l.Reports) (reply : Reply)
    (found : Bool) (setups : List Bool) :
    let w' := w.serve t l reply found setups
    (w'.launches = w.launches ∨ ∃ l', w'.launches = Function.update w.launches t (some l') ∧
      l'.Reports) ∧
    w'.executions = w.executions ∧ (w'.runs = w.runs ∨ w'.runs = w.runs ++ [l.skippedRun]) := by
  intro w'
  rcases h with hphase | hphase | hphase | hphase
  · have hw' : w' = w.serve t l reply found setups := rfl
    rw [World.serve.eq_def, hphase] at hw'
    cases reply with
    | failed =>
      rw [hw']
      exact ⟨Or.inr ⟨_, rfl, Or.inr (Or.inr (Or.inl rfl))⟩, rfl, Or.inl rfl⟩
    | ok =>
      rw [hw']
      exact ⟨Or.inr ⟨_, rfl, Or.inr (Or.inl rfl)⟩, rfl, Or.inr rfl⟩
    | lost =>
      rw [hw']
      exact ⟨Or.inr ⟨_, rfl, Or.inr (Or.inr (Or.inl rfl))⟩, rfl, Or.inr rfl⟩
  all_goals
    have hw' : w' = w.serve t l reply found setups := rfl
    rw [World.serve.eq_def, hphase] at hw'
    rw [hw']
    exact ⟨Or.inl rfl, rfl, Or.inl rfl⟩

theorem World.Reported.serve (h : World.Reported w) (hlaunch : w.launches t = some l)
    (reply : Reply) (found : Bool) (setups : List Bool) :
    (w.serve t l reply found setups).Reported := by
  cases hblocked : l.blocked with
  | true =>
    obtain ⟨hlaunches, -, -⟩ := serve_blocked w t (h t l hlaunch hblocked) reply found setups
    rcases hlaunches with hsame | ⟨l', hnext, hreports⟩
    · intro t' l' hlaunch'
      rw [hsame] at hlaunch'
      exact h t' l' hlaunch'
    · exact h.setLaunch hnext (fun _ => hreports)
  | false =>
    by_cases hchecking : l.phase = .checking
    · rw [World.serve.eq_def, hchecking]
      dsimp only
      split
      · exact h.setLaunch rfl (fun _ => Or.inr (Or.inr (Or.inl rfl)))
      · split
        · exact h.setLaunch rfl (fun _ => Or.inl rfl)
        · apply h.setLaunch rfl
          intro hblocked'
          exact absurd (hblocked.symm.trans hblocked') (by simp)
    · rcases serve_launches w t l reply found setups hchecking with hsame | ⟨phase, hnext⟩
      · intro t' l' hlaunch'
        rw [hsame] at hlaunch'
        exact h t' l' hlaunch'
      · apply h.setLaunch hnext
        intro hblocked'
        exact absurd (hblocked.symm.trans hblocked') (by simp)

theorem World.Reported.lose (h : l.blocked = true → l.Reports) :
    l.lose.blocked = true → l.lose.Reports := by
  intro hblocked
  rw [Launch.lose.eq_def] at hblocked ⊢
  split
  · rename_i answer hphase
    rw [hphase] at hblocked
    exact h hblocked
  · exact Or.inr (Or.inr (Or.inr rfl))

theorem World.Reported.step (h : World.Reported w) (event : Event) : (w.step event).Reported := by
  cases event with
  | request t entry routineId now =>
    rw [World.step.eq_def]
    dsimp only
    split
    · exact h.setLaunch rfl (fun hblocked => by cases hblocked)
    · exact h
  | step t reply found setups =>
    rw [World.step.eq_def]
    dsimp only
    split
    · exact h
    · rename_i l hlaunch
      exact h.serve hlaunch reply found setups
  | lose t =>
    rw [World.step.eq_def]
    dsimp only
    split
    · exact h
    · rename_i l hlaunch
      exact h.setLaunch rfl (World.Reported.lose (h t l hlaunch))
  | missed routineId scheduledAt => exact h
  | execute workspaceId sessionId action => exact h
  | exit n reply outcome allowNextAction =>
    rw [World.step.eq_def]
    dsimp only
    split
    · exact h
    · rename_i x hx
      intro t l hlaunch
      rw [(exit_launches w n x reply outcome allowNextAction).1] at hlaunch
      exact h t l hlaunch
  | monitor n reply now =>
    rw [World.step.eq_def]
    dsimp only
    split
    · exact h
    · rename_i x hx
      intro t l hlaunch
      rw [(quiet_monitor w n x reply now).1] at hlaunch
      exact h t l hlaunch
  | restart =>
    intro t l hlaunch
    obtain ⟨l₀, hlaunch₀, rfl⟩ := Option.map_eq_some_iff.mp hlaunch
    exact World.Reported.lose (h t l₀ hlaunch₀)

/-- Whatever the requests and the ticks and their order, a launch that finds an active run notes that
it was skipped and reports it. Two active runs of a routine need another run to be created between
the check and the creation of one, or one to end before it is marked as running. -/
theorem one_active_run (events : List Event) :
    let w := Run.run World.step World.new events
    (Run.Each World.step World.Serial World.new events →
      ∀ routineId, (w.runs.filter (RoutineRun.activeOf routineId)).length ≤ 1) ∧
    (∀ t l found setups, w.launches t = some l → l.phase = .checking →
      RoutineRun.hasRunning w.runs l.routineId = true →
      (w.step (.step t .ok found setups)).launches t =
        some { l with blocked := true, phase := .skipping }) ∧
    ∀ t l, w.launches t = some l → l.blocked = true → l.Reports ∧
      ∀ reply found setups, let w' := w.step (.step t reply found setups)
        w'.executions = w.executions ∧ (w'.runs = w.runs ∨ w'.runs = w.runs ++ [l.skippedRun]) := by
  intro w
  have hreported : w.Reported :=
    Run.preserves (P := World.Reported) (fun _ event h => h.step event)
      (fun t l hlaunch => by cases hlaunch) events
  refine ⟨?_, ?_, ?_⟩
  · intro hserial routineId
    have h : w.OneActive :=
      Run.Each.preserves (P := World.OneActive) (fun _ event h hok => h.step event hok)
        World.new_oneActive hserial
    have hone := h.one.sublist (List.filter_sublist (p := RoutineRun.activeOf routineId))
    cases hfilter : w.runs.filter (RoutineRun.activeOf routineId) with
    | nil => simp
    | cons a l =>
      cases l with
      | nil => simp
      | cons b l =>
        rw [hfilter] at hone
        have ha := (List.mem_filter.mp (hfilter ▸ List.mem_cons_self :
          a ∈ w.runs.filter (RoutineRun.activeOf routineId))).2
        have hb := (List.mem_filter.mp (hfilter ▸ List.mem_cons_of_mem _ List.mem_cons_self :
          b ∈ w.runs.filter (RoutineRun.activeOf routineId))).2
        obtain ⟨haroutine, haactive⟩ := activeOf_iff.mp ha
        obtain ⟨hbroutine, hbactive⟩ := activeOf_iff.mp hb
        have hne := (List.pairwise_cons.mp hone).1 b List.mem_cons_self haactive hbactive
        exact absurd (haroutine.trans hbroutine.symm) hne
  · intro t l found setups hlaunch hphase hrunning
    rw [World.step.eq_def]
    simp only [hlaunch]
    rw [World.serve.eq_def, hphase]
    simp [hrunning, World.setPhase]
  · intro t l hlaunch hblocked
    have hreports := hreported t l hlaunch hblocked
    refine ⟨hreports, fun reply found setups => ?_⟩
    rw [World.step.eq_def]
    simp only [hlaunch]
    exact (serve_blocked w t hreports reply found setups).2

/-- A request after another: it finds the run of the first. -/
theorem one_active_run_sample :
    let events : List Event := [.request 0 .runNow 7 100, .step 0 .ok true [], .step 0 .ok true [],
      .step 0 .ok true [], .request 1 .fireRoutine 7 101, .step 1 .ok true []]
    let w := Run.run World.step World.new events
    (w.runs.filter (RoutineRun.activeOf 7)).length ≤ 1 ∧ RoutineRun.hasRunning w.runs 7 = true ∧
      (w.launches 1).map (·.phase) = some .skipping := by
  intro events w
  have hone := one_active_run events
  have hserial : Run.Each World.step World.Serial World.new events := by
    refine ⟨trivial, fun l hl => ?_, fun l hl => ?_, fun l hl => ?_, trivial, fun l hl => ?_, trivial⟩
    · cases hl
      trivial
    · cases hl
      trivial
    · cases hl
      intro run hrun
      cases hrun
    · cases hl
      trivial
  exact ⟨hone.1 hserial 7, by decide +kernel, by decide +kernel⟩

def twoRequests : List Event :=
  [.request 0 .runNow 7 100, .step 0 .ok true [], .request 1 .runNow 7 100, .step 1 .ok true [],
    .step 0 .ok true [], .step 1 .ok true [], .step 0 .ok true [], .step 1 .ok true []]

/-- Both requests check before either creates its run. -/
theorem two_active_runs :
    ((Run.run World.step World.new twoRequests).runs.filter (RoutineRun.activeOf 7)).length = 2 := by
  decide +kernel

end Cdesktop.Routines
