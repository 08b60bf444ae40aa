import Cdesktop.RoutineTracked

namespace Cdesktop.Routines
open Table (Reply)
set_option autoImplicit true

def LaunchPhase.inProgress : LaunchPhase → Bool
  | .spawning _ | .attaching _ _ | .marking _ _ | .starting _ _ | .executing _ _ _ (_ :: _)
  | .settling _ => true
  | _ => false

def World.Launching (w : World) (run : RoutineRun) : Prop :=
  ∃ t l, w.launches t = some l ∧ l.runId = run.id ∧ l.phase.inProgress = true

/-- An execution in the workspace of the run is running, or its exit monitor is. -/
def World.Live (w : World) (run : RoutineRun) : Prop :=
  ∃ (n : Nat) (x : Execution), w.executions[n]? = some x ∧ run.workspaceId = some x.workspaceId ∧ x.phase ≠ .ended

def World.Covered (w : World) : Prop :=
  ∀ run ∈ w.runs, run.isActive = true → w.Launching run ∨ w.Live run

def World.Elsewhere (w : World) (n : Nat) (x : Execution) : Prop :=
  ∀ run ∈ w.runs, run.isActive = true → run.workspaceId = some x.workspaceId →
    w.Launching run ∨ ∃ (m : Nat) (y : Execution), m ≠ n ∧ w.executions[m]? = some y ∧
      run.workspaceId = some y.workspaceId ∧ y.phase ≠ .ended

/-- The exit monitor ends and settles no run: the chain is not to be finalized, its last execution is
no coding agent, or a statement fails. -/
def World.EndsUnsettled (w : World) (x : Execution) (reply : Reply) : Prop :=
  match x.phase with
  | .finishing => x.shouldFinalize = false ∨ reply ≠ .ok ∨
      w.hasRunningCodingAgentForSession x.sessionId = true
  | .finalizing => x.runReason ≠ .codingAgent ∨ reply ≠ .ok
  | .settling _ => reply = .failed
  | _ => False

def World.Settles (w : World) : Event → Prop
  | .step t reply _ _ => ∀ l, w.launches t = some l →
    match l.phase with
    | .creating _ => reply ≠ .lost
    | .spawning _ | .attaching _ _ | .marking _ _ | .starting _ _ => l.entry = .runNow → reply = .ok
    | .executing _ _ _ actions => l.entry = .runNow → actions.length = 1 → reply = .ok
    | .settling _ => reply ≠ .failed
    | _ => True
  | .lose t => ∀ l, w.launches t = some l → l.phase.inProgress = false
  | .exit n reply _ _ => ∀ x, w.executions[n]? = some x → x.phase = .running → reply ≠ .ok →
    w.Elsewhere n x
  | .monitor n reply _ => ∀ x, w.executions[n]? = some x → w.EndsUnsettled x reply → w.Elsewhere n x
  | .restart => ∀ run ∈ w.runs, run.isActive = false
  | _ => True

variable {w w' : World} {l l' : Launch} {runs : List RoutineRun} {x : Execution}

theorem World.Live.mono (h : w.Live run)
    (hexecutions : ∃ more, w'.executions = w.executions ++ more) : w'.Live run := by
  obtain ⟨n, x, hx, hworkspace, hphase⟩ := h
  obtain ⟨more, hmore⟩ := hexecutions
  refine ⟨n, x, ?_, hworkspace, hphase⟩
  rw [hmore, List.getElem?_append_left (List.getElem?_eq_some_iff.mp hx).1]
  exact hx

theorem World.Covered.goOn (h : w.Covered) (hlaunch : w.launches t = some l)
    (hlaunches : w'.launches = Function.update w.launches t (some l')) (hrunId : l'.runId = l.runId)
    (hexecutions : ∃ more, w'.executions = w.executions ++ more)
    (hruns : ∀ run ∈ w'.runs, run.isActive = true → run.id ≠ l.runId → run ∈ w.runs)
    (hown : ∀ run ∈ w'.runs, run.isActive = true → run.id = l.runId →
      l'.phase.inProgress = true ∨ w'.Live run ∨ (run ∈ w.runs ∧ l.phase.inProgress = false)) :
    w'.Covered := by
  -- what another launch sees to it still does
  have hother : ∀ run, w.Launching run → (run.id = l.runId → l.phase.inProgress = false) →
      w'.Launching run := by
    rintro run ⟨t', l₀, hlaunch₀, hid, hphase⟩ hnot
    have ht : t' ≠ t := by
      rintro rfl
      rw [hlaunch] at hlaunch₀
      cases hlaunch₀
      rw [hnot hid.symm] at hphase
      cases hphase
    exact ⟨t', l₀, by simpa [hlaunches, ht] using hlaunch₀, hid, hphase⟩
  intro run hrun hactive
  by_cases hid : run.id = l.runId
  · rcases hown run hrun hactive hid with hphase | hlive | ⟨hold, hnot⟩
    · exact Or.inl ⟨t, l', by simp [hlaunches], hrunId.trans hid.symm, hphase⟩
    · exact Or.inr hlive
    · rcases h run hold hactive with hlaunching | hlive
      · exact Or.inl (hother run hlaunching (fun _ => hnot))
      · exact Or.inr (hlive.mono hexecutions)
  · rcases h run (hruns run hrun hactive hid) hactive with hlaunching | hlive
    · exact Or.inl (hother run hlaunching (fun heq => absurd heq hid))
    · exact Or.inr (hlive.mono hexecutions)

theorem World.Covered.aside (h : w.Covered)
    (hlaunch : w.launches t = some l) (hnot : l.phase.inProgress = false)
    (hlaunches : w'.launches = Function.update w.launches t (some l')) (hrunId : l'.runId = l.runId)
    (hexecutions : w'.executions = w.executions)
    (hruns : ∀ run ∈ w'.runs, run.isActive = true → run ∈ w.runs) : w'.Covered := by
  apply h.goOn hlaunch hlaunches hrunId ⟨[], by simp [hexecutions]⟩
  · intro run hrun hactive _
    exact hruns run hrun hactive
  · intro run hrun hactive _
    exact Or.inr (Or.inr ⟨hruns run hrun hactive, hnot⟩)

theorem World.Covered.under (h : w.Covered) (hlaunch : w.launches t = some l)
    (hlaunches : w'.launches = Function.update w.launches t (some l')) (hrunId : l'.runId = l.runId)
    (hexecutions : ∃ more, w'.executions = w.executions ++ more)
    (hruns : ∀ run ∈ w'.runs, run.id ≠ l.runId → run ∈ w.runs)
    (hphase : l'.phase.inProgress = true) : w'.Covered := by
  apply h.goOn hlaunch hlaunches hrunId hexecutions
  · intro run hrun _ hne
    exact hruns run hrun hne
  · intro run _ _ _
    exact Or.inl hphase

theorem mem_of_active {run row : RoutineRun} (h : run ∈ runs ++ [row]) (hrow : row.isActive = false)
    (hactive : run.isActive = true) : run ∈ runs := by
  rcases List.mem_append.mp h with hold | hnew
  · exact hold
  · rw [List.mem_singleton.mp hnew, hrow] at hactive
    cases hactive

theorem mem_of_attachWorkspace (run : RoutineRun)
    (h : run ∈ RoutineRun.attachWorkspace runs p workspaceId) (hne : run.id ≠ p) : run ∈ runs := by
  rcases Table.mem_update.mp h with ⟨run₀, -, hid, rfl⟩ | ⟨hold, -⟩
  · exact absurd (by simpa using hid) hne
  · exact hold

theorem mem_of_markRunning (run : RoutineRun)
    (h : run ∈ RoutineRun.markRunning runs p now) (hne : run.id ≠ p) : run ∈ runs := by
  rcases Table.mem_update.mp h with ⟨run₀, -, hid, rfl⟩ | ⟨hold, -⟩
  · exact absurd (by simpa using hid) hne
  · exact hold

theorem mem_of_markDone {run : RoutineRun}
    (h : run ∈ RoutineRun.markDone runs p now failed) (hactive : run.isActive = true) :
    run ∈ runs ∧ run.id ≠ p := by
  rcases Table.mem_update.mp h with ⟨run₀, -, hid, rfl⟩ | ⟨hold, hid⟩
  · cases failed <;> simp [RoutineRun.isActive] at hactive
  · exact ⟨hold, by simpa using hid⟩

theorem World.Covered.spawnFailed (h : w.Covered) (hlaunch : w.launches t = some l)
    (hentry : l.entry ≠ .runNow) (hlaunches : w'.launches = (w.spawnFailed t l row).launches)
    (hexecutions : w'.executions = w.executions)
    (hruns : ∀ run ∈ w'.runs, run.id ≠ l.runId → run ∈ w.runs) : w'.Covered := by
  cases hl : l.entry with
  | runNow => exact absurd hl hentry
  | fireRoutine =>
    simp only [World.spawnFailed, hl] at hlaunches
    exact h.under hlaunch hlaunches rfl ⟨[], by simp [hexecutions]⟩ hruns rfl

theorem spawnFailed_executions (w : World) (t : Nat) (l : Launch) (run : RoutineRun) :
    (w.spawnFailed t l run).executions = w.executions := by
  rw [World.spawnFailed]
  split <;> rfl

theorem World.Covered.serve (h : World.Covered w) (htracked : World.Tracked w)
    (hlaunch : w.launches t = some l) (reply : Reply) (found : Bool) (setups : List Bool)
    (hsettles : w.Settles (.step t reply found setups)) :
    (w.serve t l reply found setups).Covered := by
  have hok := hsettles l hlaunch
  have hl := htracked.launches t l hlaunch
  have hanswer : l.phase.inProgress = false → ∀ answer, (w.answer t l answer).Covered := by
    intro hnot answer
    exact h.aside hlaunch hnot rfl rfl rfl (fun run hrun _ => hrun)
  have hspawn : l.entry ≠ .runNow → ∀ run, (w.spawnFailed t l run).Covered := by
    intro hentry run
    apply h.spawnFailed hlaunch hentry rfl (spawnFailed_executions w t l run)
    intro run' hrun' _
    rw [spawnFailed_runs] at hrun'
    exact hrun'
  cases hphase : l.phase with
  | received =>
    have hnot : l.phase.inProgress = false := by rw [hphase]; rfl
    rw [World.serve.eq_def, hphase]
    dsimp only
    split
    · exact hanswer hnot _
    · split
      · exact h.aside hlaunch hnot rfl rfl rfl (fun run hrun _ => hrun)
      · exact hanswer hnot _
  | checking =>
    have hnot : l.phase.inProgress = false := by rw [hphase]; rfl
    rw [World.serve.eq_def, hphase]
    dsimp only
    split
    · exact hanswer hnot _
    · split
      · exact h.aside hlaunch hnot rfl rfl rfl (fun run hrun _ => hrun)
      · exact h.aside hlaunch hnot rfl rfl rfl (fun run hrun _ => hrun)
  | skipping =>
    have hnot : l.phase.inProgress = false := by rw [hphase]; rfl
    have hskipped : ∀ run ∈ w.runs ++ [l.skippedRun], run.isActive = true → run ∈ w.runs :=
      fun run hrun => mem_of_active hrun rfl
    rw [World.serve.eq_def, hphase]
    cases reply with
    | failed => exact hanswer hnot _
    | ok => exact h.aside hlaunch hnot rfl rfl rfl hskipped
    | lost => exact h.aside hlaunch hnot rfl rfl rfl hskipped
  | creating rows =>
    have hnot : l.phase.inProgress = false := by rw [hphase]; rfl
    rw [hphase] at hok
    rw [World.serve.eq_def, hphase]
    cases reply with
    | failed => exact hanswer hnot _
    | ok =>
      refine h.under hlaunch rfl rfl ⟨[], by simp [World.setPhase]⟩ ?_ rfl
      intro run hrun hne
      rcases List.mem_append.mp hrun with hold | hnew
      · exact hold
      · exact absurd (congrArg RoutineRun.id (List.mem_singleton.mp hnew)) hne
    | lost => exact absurd rfl hok
  | spawning run =>
    rw [hphase] at hok
    rw [World.serve.eq_def, hphase]
    dsimp only
    split
    · rename_i hreply
      exact hspawn (fun hentry => hreply (hok hentry)) run
    · exact h.under hlaunch rfl rfl ⟨[], by simp [World.setPhase]⟩ (fun run hrun _ => hrun) rfl
  | attaching run workspaceId =>
    rw [hphase] at hok
    rw [World.serve.eq_def, hphase]
    cases reply with
    | failed => exact hspawn (fun hentry => by cases hok hentry) run
    | ok =>
      exact h.under hlaunch rfl rfl ⟨[], by simp [World.setPhase]⟩ (mem_of_attachWorkspace ·) rfl
    | lost =>
      exact h.spawnFailed hlaunch (fun hentry => by cases hok hentry) rfl
        (spawnFailed_executions w t l run) (mem_of_attachWorkspace ·)
  | marking run workspaceId =>
    rw [hphase] at hok
    rw [World.serve.eq_def, hphase]
    cases reply with
    | failed => exact hspawn (fun hentry => by cases hok hentry) run
    | ok => exact h.under hlaunch rfl rfl ⟨[], by simp [World.setPhase]⟩ (mem_of_markRunning ·) rfl
    | lost =>
      exact h.spawnFailed hlaunch (fun hentry => by cases hok hentry) rfl
        (spawnFailed_executions w t l run) (mem_of_markRunning ·)
  | starting run workspaceId =>
    rw [hphase] at hok
    rw [World.serve.eq_def, hphase]
    dsimp only
    split
    · rename_i hreply
      exact hspawn (fun hentry => hreply (hok hentry)) run
    · refine h.under hlaunch rfl rfl ⟨[], by simp [World.setPhase]⟩ (fun run hrun _ => hrun) ?_
      cases hactions : startActions setups with
      | nil =>
        rw [startActions] at hactions
        split at hactions
        · cases hactions
        · split at hactions <;> simp at hactions
      | cons action actions => rfl
  | executing run workspaceId sessionId actions =>
    rw [hphase] at hok
    rw [World.serve.eq_def, hphase]
    cases actions with
    | nil => exact hanswer (by rw [hphase]; rfl) _
    | cons action actions =>
      dsimp only
      split
      · -- the execution that was started is live in the workspace of the run
        refine h.goOn hlaunch rfl rfl ⟨_, rfl⟩ ?_ ?_
        · intro run' hrun' _ _
          exact hrun'
        · intro run' hrun' _ hid
          cases actions with
          | cons action' actions => exact Or.inl rfl
          | nil =>
            right
            left
            have hworkspace := hl.attached workspaceId (by rw [hphase]; rfl) _
              (List.mem_map_of_mem hrun') hid
            exact ⟨w.executions.length, Execution.start workspaceId sessionId action, by simp,
              hworkspace, by simp [Execution.start]⟩
      · rename_i hreply
        cases actions with
        | nil => exact hspawn (fun hentry => hreply (hok hentry rfl)) run
        | cons action' actions =>
          exact h.under hlaunch rfl rfl ⟨[], by simp [World.setPhase]⟩ (fun run hrun _ => hrun) rfl
  | settling run =>
    rw [hphase] at hok
    have hrun := hl.run run (by rw [hphase]; rfl)
    have hdone : ∀ answer, World.Covered { w.answer t l answer with
        runs := RoutineRun.markDone w.runs run.id l.now true } := by
      intro answer
      refine h.goOn hlaunch rfl rfl ⟨[], by simp [World.answer, World.setPhase]⟩ ?_ ?_
      · intro run' hrun' hactive _
        exact (mem_of_markDone hrun' hactive).1
      · intro run' hrun' hactive hid
        exact absurd (hid.trans hrun.symm) (mem_of_markDone hrun' hactive).2
    rw [World.serve.eq_def, hphase]
    cases reply with
    | failed => exact absurd rfl hok
    | ok => exact hdone _
    | lost => exact hdone _
  | answered answer =>
    rw [World.serve.eq_def, hphase]
    exact h
  | lost =>
    rw [World.serve.eq_def, hphase]
    exact h

theorem World.Covered.of_live (h : w.Covered) (hlaunches : w'.launches = w.launches)
    (hruns : ∀ run ∈ w'.runs, run.isActive = true → run ∈ w.runs)
    (hlive : ∀ run ∈ w'.runs, run.isActive = true → w.Live run → w.Launching run ∨ w'.Live run) :
    w'.Covered := by
  have hlaunching : ∀ run, w.Launching run → w'.Launching run := by
    intro run hrun
    rw [World.Launching, hlaunches]
    exact hrun
  intro run hrun hactive
  rcases h run (hruns run hrun hactive) hactive with hlaunch | hrunning
  · exact Or.inl (hlaunching run hlaunch)
  · exact (hlive run hrun hactive hrunning).imp (hlaunching run) id

theorem World.Covered.setExecution {y : Execution} (h : w.Covered)
    (hx : w.executions[n]? = some x) (hworkspace : y.workspaceId = x.workspaceId)
    (hphase : y.phase ≠ .ended) : (w.setExecution n y).Covered := by
  refine h.of_live rfl (fun run hrun _ => hrun) ?_
  rintro run - - ⟨m, z, hz, hzworkspace, hzphase⟩
  right
  by_cases hm : m = n
  · subst hm
    rw [hx] at hz
    cases hz
    refine ⟨m, y, ?_, hzworkspace.trans (congrArg some hworkspace.symm), hphase⟩
    have hlt := (List.getElem?_eq_some_iff.mp hx).1
    simp [World.setExecution, hlt]
  · refine ⟨m, z, ?_, hzworkspace, hzphase⟩
    rw [World.setExecution, List.getElem?_set_ne (Ne.symm hm)]
    exact hz

namespace World

theorem Covered.ends {y : Execution} (h : w.Covered)
    (hx : w.executions[n]? = some x) (hlaunches : w'.launches = w.launches)
    (hexecutions : w'.executions = w.executions.set n y)
    (hruns : ∀ run ∈ w'.runs, run.isActive = true → run ∈ w.runs)
    (helsewhere : ∀ run ∈ w'.runs, run.isActive = true → run.workspaceId = some x.workspaceId →
      w.Launching run ∨ ∃ (m : Nat) (y : Execution), m ≠ n ∧ w.executions[m]? = some y ∧
        run.workspaceId = some y.workspaceId ∧ y.phase ≠ .ended) : w'.Covered := by
  have hstays : ∀ (m : Nat) (z : Execution), m ≠ n → w.executions[m]? = some z →
      w'.executions[m]? = some z := by
    intro m z hm hz
    rw [hexecutions, List.getElem?_set_ne (Ne.symm hm)]
    exact hz
  apply h.of_live hlaunches hruns
  rintro run hrun hactive ⟨m, z, hz, hzworkspace, hzphase⟩
  by_cases hm : m = n
  · subst hm
    rw [hx] at hz
    cases hz
    rcases helsewhere run hrun hactive hzworkspace with hlaunching | ⟨k, v, hk, hv, hvworkspace, hvphase⟩
    · exact Or.inl hlaunching
    · exact Or.inr ⟨k, v, hstays k v hk hv, hvworkspace, hvphase⟩
  · exact Or.inr ⟨m, z, hstays m z hm hz, hzworkspace, hzphase⟩

theorem Covered.exit (h : Covered w) (hx : w.executions[n]? = some x)
    (reply : Reply) (outcome : Outcome) (allowNextAction : Bool)
    (hok : x.phase = .running → reply ≠ .ok → w.Elsewhere n x) :
    (w.exit n x reply outcome allowNextAction).Covered := by
  rw [exit.eq_def]
  split
  · rename_i hphase
    exact h.ends hx rfl rfl (fun run hrun _ => hrun) (hok hphase (by simp))
  · rename_i hphase
    exact h.ends hx rfl rfl (fun run hrun _ => hrun) (hok hphase (by simp))
  · dsimp only
    split <;> exact h.setExecution hx rfl (by simp)
  · exact h

theorem Covered.monitor (h : Covered w) (htracked : Tracked w)
    (hx : w.executions[n]? = some x) (reply : Reply) (now : Time)
    (hok : w.EndsUnsettled x reply → w.Elsewhere n x) : (w.monitor n x reply now).Covered := by
  have hmem : x ∈ w.executions := List.mem_of_getElem? hx
  have hunsettled : w.EndsUnsettled x reply →
      (w.setExecution n { x with phase := .ended }).Covered := by
    intro hends
    exact h.ends hx rfl rfl (fun run hrun _ => hrun) (hok hends)
  cases hphase : x.phase with
  | running =>
    rw [monitor.eq_def, hphase]
    exact h
  | chaining =>
    have hset : (w.setExecution n { x with phase := .finishing }).Covered :=
      h.setExecution hx rfl (by simp)
    rw [monitor.eq_def, hphase]
    dsimp only
    split
    · refine hset.of_live rfl (fun run hrun _ => hrun) ?_
      intro run _ _ hlive
      exact Or.inr (hlive.mono ⟨_, rfl⟩)
    · exact hset
  | finishing =>
    rw [monitor.eq_def, hphase]
    dsimp only
    split
    · exact h.setExecution hx rfl (by simp)
    · rename_i hends
      apply hunsettled
      rw [EndsUnsettled, hphase]
      by_contra hnot
      simp only [not_or, not_not, Bool.not_eq_false, Bool.not_eq_true] at hnot
      exact hends ⟨hnot.1, by simp [hnot.2.1, hnot.2.2]⟩
  | finalizing =>
    rw [monitor.eq_def, hphase]
    dsimp only
    split
    · split
      · exact h.setExecution hx rfl (by simp)
      · rename_i hnone
        refine h.ends hx rfl rfl (fun run hrun _ => hrun) ?_
        -- the query would have found the run
        intro run hrun hactive hworkspace
        have hempty := List.getLast?_eq_none_iff.mp hnone
        have hin : run ∈ w.runs.filter fun run =>
            run.workspaceId = some x.workspaceId ∧ run.isActive = true :=
          List.mem_filter.mpr ⟨hrun, by simp [hworkspace, hactive]⟩
        rw [hempty] at hin
        cases hin
    · rename_i hnot
      refine h.ends hx rfl rfl (fun run hrun _ => hrun) ?_
      intro run hrun hactive hworkspace
      have hroutine := (htracked.workspaces _ (List.mem_map_of_mem hrun) _ hworkspace).2
      have hends : w.EndsUnsettled x reply := by
        rw [EndsUnsettled, hphase]
        by_contra hboth
        simp only [not_or, not_not] at hboth
        exact hnot ⟨hboth.1, hroutine, hboth.2⟩
      exact hok hends run hrun hactive hworkspace
  | settling runId =>
    rw [monitor.eq_def, hphase]
    dsimp only
    split
    · rename_i hreply
      apply hunsettled
      rw [EndsUnsettled, hphase]
      exact hreply
    · refine h.ends hx rfl rfl (fun run hrun hactive => (mem_of_markDone hrun hactive).1) ?_
      intro run hrun hactive hworkspace
      obtain ⟨hold, hne⟩ := mem_of_markDone hrun hactive
      have hsame := (htracked.settling x hmem runId hphase).2 _ (List.mem_map_of_mem hold) hworkspace
      exact absurd hsame hne
  | ended =>
    rw [monitor.eq_def, hphase]
    exact h

/-- The next execution of the chain sees to the runs of its workspace in the place of the one before. -/
theorem elsewhere_of_chained (hx : w.executions[n]? = some x) (hphase : x.phase = .chaining)
    (hnext : x.next ≠ []) (now : Time) : (w.monitor n x .ok now).Elsewhere n x := by
  intro run _ _ hworkspace
  obtain ⟨reason, next, hnext⟩ := List.exists_cons_of_ne_nil hnext
  have hlt := (List.getElem?_eq_some_iff.mp hx).1
  right
  refine ⟨w.executions.length, Execution.start x.workspaceId x.sessionId (reason, next), hlt.ne',
    ?_, hworkspace, by simp [Execution.start]⟩
  simp [monitor.eq_def, hphase, hnext, setExecution]

theorem Covered.step (h : Covered w) (htracked : Tracked w) (event : Event)
    (hsettles : w.Settles event) : (w.step event).Covered := by
  cases event with
  | request t entry routineId now =>
    rw [step.eq_def]
    dsimp only
    split
    · rename_i hnone
      intro run hrun hactive
      rcases h run hrun hactive with ⟨t', l, hlaunch, hid, hphase⟩ | hlive
      · left
        have ht : t' ≠ t := by
          rintro rfl
          rw [hnone] at hlaunch
          cases hlaunch
        exact ⟨t', l, by simpa [ht] using hlaunch, hid, hphase⟩
      · exact Or.inr hlive
    · exact h
  | step t reply found setups =>
    rw [step.eq_def]
    dsimp only
    split
    · exact h
    · rename_i l hlaunch
      exact h.serve htracked hlaunch reply found setups hsettles
  | lose t =>
    rw [step.eq_def]
    dsimp only
    split
    · exact h
    · rename_i l hlaunch
      exact h.aside hlaunch (hsettles l hlaunch) rfl l.lose_runId rfl (fun run hrun _ => hrun)
  | missed routineId scheduledAt =>
    exact h.of_live rfl (fun run hrun => mem_of_active hrun rfl) (fun _ _ _ hlive => Or.inr hlive)
  | execute workspaceId sessionId action =>
    refine h.of_live rfl (fun run hrun _ => hrun) ?_
    intro run _ _ hlive
    exact Or.inr (hlive.mono ⟨_, rfl⟩)
  | exit n reply outcome allowNextAction =>
    rw [step.eq_def]
    dsimp only
    split
    · exact h
    · rename_i x hx
      exact h.exit hx reply outcome allowNextAction (hsettles x hx)
  | monitor n reply now =>
    rw [step.eq_def]
    dsimp only
    split
    · exact h
    · rename_i x hx
      exact h.monitor htracked hx reply now (hsettles x hx)
  | restart =>
    intro run hrun hactive
    rw [hsettles run hrun] at hactive
    cases hactive

end World

/-- As long as no step leaves a run that it should settle, every active run has its launch in progress
or an execution in its workspace, and where neither is left the routine is not blocked. -/
theorem routine_never_blocked (events : List Event)
    (hsettles : Run.Each World.step World.Settles World.new events) :
    let w := Run.run World.step World.new events
    (∀ run ∈ w.runs, run.isActive = true → w.Launching run ∨ w.Live run) ∧
    ∀ routineId, (∀ run ∈ w.runs, run.routineId = routineId → ¬ w.Launching run ∧ ¬ w.Live run) →
      RoutineRun.hasRunning w.runs routineId = false := by
  intro w
  have h : w.Covered ∧ w.Tracked := by
    apply Run.Each.preserves (P := fun w => World.Covered w ∧ World.Tracked w) _ _ hsettles
    · intro w event h hok
      exact ⟨h.1.step h.2 event hok, h.2.step event⟩
    · exact ⟨fun run hrun => (by cases hrun), World.new_tracked⟩
  refine ⟨h.1, fun routineId hnone => ?_⟩
  apply hasRunning_eq_false.mpr
  intro run hrun
  rw [Bool.eq_false_iff]
  intro hactive
  obtain ⟨hroutine, hactive⟩ := activeOf_iff.mp hactive
  obtain ⟨hnotLaunching, hnotLive⟩ := hnone run hrun hroutine
  exact (h.1 run hrun hactive).elim hnotLaunching hnotLive

/-- A request, its coding agent and the end of both. -/
theorem routine_never_blocked_sample :
    let step : Event := .step 0 .ok true []
    let w := Run.run World.step World.new ([.request 0 .runNow 7 100, step, step, step, step, step,
      step, step, step, step, .exit 0 .ok (.completed true) true, .monitor 0 .ok 101,
      .monitor 0 .ok 102, .monitor 0 .ok 103])
    RoutineRun.hasRunning w.runs 7 = false ∧ w.runs.map (·.status) = [.done] ∧
      ∀ run ∈ w.runs, run.isActive = true → w.Launching run ∨ w.Live run := by
  intro step w
  refine ⟨by decide +kernel, by decide +kernel, (routine_never_blocked _ ?_).1⟩
  refine ⟨trivial, ?_, ?_, ?_, ?_, ?_, ?_, ?_, ?_, ?_, ?_, ?_, ?_, ?_, trivial⟩
  all_goals intro l hl
  case refine_1 | refine_2 => cases hl; trivial
  case refine_3 => cases hl; decide
  case refine_4 | refine_5 | refine_6 | refine_7 => cases hl; exact fun _ => rfl
  case refine_8 => cases hl; exact fun _ _ => rfl
  case refine_9 => cases hl; trivial
  case refine_10 => exact fun _ hne => absurd rfl hne
  case refine_11 =>
    cases hl
    rintro (hends | hends | hends)
    · cases hends
    · exact absurd rfl hends
    · cases hends
  case refine_12 =>
    cases hl
    rintro (hends | hends)
    · exact absurd rfl hends
    · exact absurd rfl hends
  case refine_13 =>
    intro hends
    have hphase := congrArg (Option.map Execution.phase) hl
    have hsettling : some (MonitorPhase.settling 0) = some l.phase :=
      .trans (by decide +kernel) hphase
    rw [World.EndsUnsettled, ← Option.some.inj hsettling] at hends
    cases hends

def failedSpawn : List Event :=
  let step (t : Nat) : Event := .step t .ok true []
  [.request 0 .runNow 7 100, step 0, step 0, step 0, .step 0 .failed true [],
    .request 1 .runNow 7 200, step 1, step 1]

/-- `run_now` returned the error of the spawn and left its run pending: nothing is under way for it,
and the next request is turned away. -/
theorem blocked_by_failed_spawn :
    let w := Run.run World.step World.new failedSpawn
    (w.launches 0).map (·.phase) = some (.answered (.error .spawn)) ∧
      (w.launches 1).map (·.phase) = some .skipping ∧
      ∃ run ∈ w.runs, run.isActive = true ∧ ¬ (w.Launching run ∨ w.Live run) := by
  intro w
  refine ⟨by decide +kernel, by decide +kernel, RoutineRun.new 0 7 100 .pending none,
    by decide +kernel, by decide +kernel, ?_⟩
  rintro (⟨t, l, hlaunch, -, hphase⟩ | ⟨n, x, hx, -⟩)
  · match t with
    | 0 =>
      cases hlaunch
      cases hphase
    | 1 =>
      cases hlaunch
      cases hphase
    | t + 2 => cases hlaunch
  · cases hx

end Cdesktop.Routines
