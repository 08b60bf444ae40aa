import Cdesktop.MergeChanges

namespace Cdesktop.MergeChanges
open CommitGraph
set_option autoImplicit true

def StageCurrent (call : Call) (w : World) : Stage → Prop
  | .updateBase _ base _ => ∀ tip ∈ w.branches call.baseBranch, tip = base
  | .updateRef task squash | .resetTask task squash =>
    ∀ tip ∈ w.branches call.taskBranch,
      tip = squash ∨ (tip = task ∧ call.taskBranch ≠ call.baseBranch)
  | .openRepos | .statusTask | .statusBase _ | .findCheckout | .hasStagedChanges | .ensureIdentity
  | .checkout | .mergeSquash | .commit _ | .revParse _ | .findTask | .findBase _ | .squash _ _ => True

def Current (call : Call) (w : World) : Event → Prop
  | .step _ => ∀ stage ∈ w.stage, StageCurrent call w stage
  | .merge | .land _ _ | .landStaged | .checkout _ => True

instance (call : Call) (w : World) : ∀ stage, Decidable (StageCurrent call w stage)
  | .updateBase _ _ _ => inferInstanceAs (Decidable (∀ tip ∈ w.branches _, _))
  | .updateRef _ _ | .resetTask _ _ => inferInstanceAs (Decidable (∀ tip ∈ w.branches _, _))
  | .openRepos | .statusTask | .statusBase _ | .findCheckout | .hasStagedChanges | .ensureIdentity
  | .checkout | .mergeSquash | .commit _ | .revParse _ | .findTask | .findBase _ | .squash _ _ =>
    inferInstanceAs (Decidable True)

instance (call : Call) (w : World) : ∀ event, Decidable (Current call w event)
  | .step _ => inferInstanceAs (Decidable (∀ stage ∈ w.stage, _))
  | .merge | .land _ _ | .landStaged | .checkout _ => inferInstanceAs (Decidable True)

def World.Merged (call : Call) (w : World) (task : Nat) : Prop :=
  ∃ tip, w.branches call.baseBranch = some tip ∧ Absorbed w.commits task tip

def StageInv (call : Call) (w : World) : Stage → Prop
  | .commit task => ∀ staged ∈ w.index, staged = task
  | .revParse task | .updateRef task _ | .resetTask task _ => w.Merged call task
  | .updateBase task base squash => w.commits[squash]? = some ⟨[base], some task⟩
  | .openRepos | .statusTask | .statusBase _ | .findCheckout | .hasStagedChanges | .ensureIdentity
  | .checkout | .mergeSquash | .findTask | .findBase _ | .squash _ _ => True

structure World.Inv (call : Call) (w : World) : Prop where
  base : ∀ c ∈ w.tips call.baseBranch, w.Reachable call.baseBranch c
  task : ∀ c ∈ w.tips call.taskBranch, w.Kept call c
  doing : ∀ stage ∈ w.stage, StageInv call w stage

theorem setBranch_self (w : World) (name : String) (oid : Nat) :
    (w.setBranch name oid).branches name = some oid := by
  rw [World.setBranch]
  exact if_pos rfl

theorem setBranch_of_ne (w : World) (oid : Nat) (h : other ≠ name) :
    (w.setBranch name oid).branches other = w.branches other := by
  rw [World.setBranch]
  exact if_neg h

theorem mem_tips_setBranch {w : World} (h : c ∈ (w.setBranch name oid).tips other) :
    c ∈ w.tips other ∨ (other = name ∧ c = oid) := by
  rw [World.setBranch] at h
  dsimp only at h
  split at h
  next heq =>
    cases List.mem_append.mp h with
    | inl hmem => exact .inl hmem
    | inr hnew => exact .inr ⟨heq, List.mem_singleton.mp hnew⟩
  · exact .inl h

structure Advanced (w w' : World) : Prop where
  commits : ∃ more, w'.commits = w.commits ++ more
  branches : ∀ name tip, w.branches name = some tip →
    ∃ tip', w'.branches name = some tip' ∧ Reach w'.commits tip tip'
  tips : ∀ name, ∀ c ∈ w'.tips name, c ∈ w.tips name ∨ w'.branches name = some c

theorem Advanced.reach (h : Advanced w w') (hreach : Reach w.commits c d) :
    Reach w'.commits c d := by
  obtain ⟨more, hmore⟩ := h.commits
  rw [hmore]
  exact hreach.append more

theorem Advanced.reachable (h : Advanced w w') (hreachable : w.Reachable name c) :
    w'.Reachable name c := by
  obtain ⟨tip, htip, hreach⟩ := hreachable
  obtain ⟨tip', htip', hreach'⟩ := h.branches name tip htip
  exact ⟨tip', htip', (h.reach hreach).trans hreach'⟩

theorem Advanced.merged (h : Advanced w w') (hmerged : w.Merged call task) :
    w'.Merged call task := by
  obtain ⟨tip, htip, hat⟩ := hmerged
  obtain ⟨tip', htip', hreach⟩ := h.branches _ tip htip
  obtain ⟨more, hmore⟩ := h.commits
  refine ⟨tip', htip', ?_⟩
  rw [hmore] at hreach ⊢
  exact (hat.append more).trans hreach

theorem Advanced.kept (h : Advanced w w') (hkept : w.Kept call c) : w'.Kept call c := by
  cases hkept with
  | inl hcontained =>
    obtain ⟨tip, htip, hat⟩ := hcontained
    obtain ⟨tip', htip', hreach⟩ := h.branches _ tip htip
    obtain ⟨more, hmore⟩ := h.commits
    apply Or.inl
    refine ⟨tip', htip', ?_⟩
    rw [hmore] at hreach ⊢
    exact (hat.append more).trans hreach
  | inr hreachable => exact .inr (h.reachable hreachable)

theorem Advanced.refl (w : World) : Advanced w w where
  commits := ⟨[], (List.append_nil _).symm⟩
  branches _ tip htip := ⟨tip, htip, .refl⟩
  tips _ _ hc := .inl hc

theorem advanced_write (w : World) (commit : Commit) : Advanced w (w.write commit) where
  commits := ⟨[commit], rfl⟩
  branches _ tip htip := ⟨tip, htip, .refl⟩
  tips _ _ hc := .inl hc

theorem Advanced.setBranch (h : Advanced w w')
    (hreach : ∀ tip, w'.branches name = some tip → Reach w'.commits tip oid)
    (htips : w'.tips = w.tips) : Advanced w (w'.setBranch name oid) where
  commits := h.commits
  branches other tip htip := by
    obtain ⟨tip', htip', hreach'⟩ := h.branches other tip htip
    by_cases hname : other = name
    · subst hname
      exact ⟨oid, setBranch_self _ _ _, hreach'.trans (hreach tip' htip')⟩
    · exact ⟨tip', (setBranch_of_ne _ _ hname).trans htip', hreach'⟩
  tips other c hc := by
    cases mem_tips_setBranch hc with
    | inl hold =>
      rw [htips] at hold
      exact .inl hold
    | inr hnew =>
      rw [hnew.1, hnew.2]
      exact .inr (setBranch_self _ _ _)

theorem Advanced.base (h : Advanced w w') (hinv : w.Inv call) :
    ∀ c ∈ w'.tips call.baseBranch, w'.Reachable call.baseBranch c := by
  intro c hc
  cases h.tips _ c hc with
  | inl hold => exact h.reachable (hinv.base c hold)
  | inr hnew => exact ⟨c, hnew, .refl⟩

theorem Advanced.task (h : Advanced w w') (hinv : w.Inv call) :
    ∀ c ∈ w'.tips call.taskBranch, w'.Kept call c := by
  intro c hc
  cases h.tips _ c hc with
  | inl hold => exact h.kept (hinv.task c hold)
  | inr hnew => exact .inr ⟨c, hnew, .refl⟩

theorem Advanced.stageInv (h : Advanced w w') (hindex : ∀ staged ∈ w'.index, staged ∈ w.index)
    (hstage : StageInv call w stage) : StageInv call w' stage := by
  cases stage with
  | commit task => exact fun staged hstaged => hstage staged (hindex staged hstaged)
  | revParse task => exact h.merged hstage
  | updateRef task sha => exact h.merged hstage
  | resetTask task squash => exact h.merged hstage
  | updateBase task base squash =>
    obtain ⟨more, hmore⟩ := h.commits
    rw [StageInv] at hstage ⊢
    obtain ⟨hlt, -⟩ := List.getElem?_eq_some_iff.mp hstage
    rw [hmore, List.getElem?_append_left hlt]
    exact hstage
  | _ => trivial

theorem World.Inv.advance {stage : Stage} (h : World.Inv call w) (hadvanced : Advanced w w')
    (hstage : StageInv call w' stage) : (w'.goto stage).Inv call where
  base := hadvanced.base h
  task := hadvanced.task h
  doing stage' hmem := by
    cases hmem
    cases stage <;> exact hstage

theorem World.Inv.answer (h : World.Inv call w) (result : Except GitServiceError Nat) :
    (w.answer result).Inv call where
  base := h.base
  task := h.task
  doing _ hstage := by cases hstage

theorem World.Inv.goto {stage : Stage} (h : World.Inv call w) (hstage : StageInv call w stage) :
    (w.goto stage).Inv call :=
  h.advance (Advanced.refl w) hstage

theorem World.Inv.found (h : World.Inv call w) (hnext : ∀ oid, (next oid).Inv call) :
    (w.found name next).Inv call := by
  rw [World.found]
  split
  · exact hnext _
  · exact h.answer _

theorem World.Inv.called (h : World.Inv call w) (hnext : next.Inv call) :
    (w.called outside error next).Inv call := by
  rw [World.called]
  split
  · exact h.answer _
  · exact hnext

theorem commitIndex_some (h : w.commitIndex branch = some w') :
    Advanced w w' ∧ w'.index = none ∧ w'.stage = w.stage ∧
      ∀ task ∈ w.index, ∃ tip, w'.branches branch = some tip ∧ Absorbed w'.commits task tip := by
  rw [World.commitIndex, Option.map_eq_some_iff] at h
  obtain ⟨task, hindex, rfl⟩ := h
  refine ⟨?_, rfl, rfl, ?_⟩
  · have hwritten : Advanced w
        ({ w with index := none }.write ⟨(w.branches branch).toList, some task⟩) :=
      ⟨⟨_, rfl⟩, fun _ tip htip => ⟨tip, htip, .refl⟩, fun _ _ hc => .inl hc⟩
    apply hwritten.setBranch _ rfl
    intro tip htip
    apply Reach.new .refl
    rw [Option.mem_toList]
    exact htip
  · intro task' htask
    rw [hindex] at htask
    cases htask
    exact ⟨w.commits.length, setBranch_self _ _ _, absorbed_new w.commits rfl⟩

theorem World.Inv.setTask {task squash : Nat} (h : World.Inv call w) (hmerged : w.Merged call task)
    (hcurrent : ∀ tip ∈ w.branches call.taskBranch,
      tip = squash ∨ (tip = task ∧ call.taskBranch ≠ call.baseBranch))
    (result : Except GitServiceError Nat) :
    ((w.setBranch call.taskBranch squash).answer result).Inv call := by
  have hadvance : (∀ tip, w.branches call.taskBranch = some tip → Reach w.commits tip squash) →
      ((w.setBranch call.taskBranch squash).answer result).Inv call := by
    intro hreach
    have hadvanced := (Advanced.refl w).setBranch hreach rfl
    exact World.Inv.answer
      ⟨hadvanced.base h, hadvanced.task h, fun stage hstage => hadvanced.stageInv
        (fun _ hstaged => hstaged) (h.doing stage hstage)⟩ result
  cases htip : w.branches call.taskBranch with
  | none =>
    apply hadvance
    intro tip hsome
    rw [htip] at hsome
    cases hsome
  | some tip =>
    cases hcurrent tip htip with
    | inl hsame =>
      apply hadvance
      intro tip' htip'
      rw [htip] at htip'
      cases htip'
      rw [hsame]
      exact .refl
    | inr hold =>
      have hbase := setBranch_of_ne w squash hold.2.symm
      apply World.Inv.mk
      · intro c hc
        cases mem_tips_setBranch hc with
        | inl hmem =>
          obtain ⟨tip', htip', hreach⟩ := h.base c hmem
          exact ⟨tip', hbase.trans htip', hreach⟩
        | inr hnew => exact (hold.2 hnew.1.symm).elim
      · intro c hc
        cases mem_tips_setBranch hc with
        | inl hmem =>
          apply Or.inl
          cases h.task c hmem with
          | inl hcontained =>
            obtain ⟨tip', htip', hat⟩ := hcontained
            exact ⟨tip', hbase.trans htip', hat⟩
          | inr hreachable =>
            obtain ⟨tip', htip', hreach⟩ := hreachable
            rw [htip] at htip'
            cases htip'
            rw [hold.1] at hreach
            obtain ⟨base, hbaseTip, habsorbed⟩ := hmerged
            exact ⟨base, hbase.trans hbaseTip, .inr ⟨task, hreach, habsorbed⟩⟩
        | inr hnew =>
          rw [hnew.2]
          exact .inr ⟨squash, setBranch_self _ _ _, .refl⟩
      · intro stage hstage
        cases hstage

theorem World.Inv.step {stage : Stage} (h : World.Inv call w) (hstage : StageInv call w stage)
    (hcurrent : StageCurrent call w stage) (outside : Outside) :
    (w.step call outside stage).Inv call := by
  cases stage with
  | openRepos => exact h.called (h.goto trivial)
  | statusTask => exact h.found fun task => h.goto trivial
  | statusBase task =>
    apply h.found
    intro base
    apply h.called
    dsimp only
    split
    · exact h.answer _
    · exact h.goto trivial
  | findCheckout =>
    apply h.called
    split
    · exact h.goto trivial
    · exact h.goto trivial
  | hasStagedChanges =>
    apply h.called
    split
    · exact h.answer _
    · exact h.goto trivial
  | ensureIdentity => exact h.called (h.goto trivial)
  | checkout => exact h.called (h.goto trivial)
  | mergeSquash =>
    apply h.called
    split
    next task _ =>
      have hadvanced : Advanced w { w with index := some task } :=
        ⟨⟨[], (List.append_nil _).symm⟩, fun _ tip htip => ⟨tip, htip, .refl⟩, fun _ _ hc => .inl hc⟩
      apply h.advance hadvanced
      intro staged hstaged
      exact (Option.mem_some_iff.mp hstaged).symm
    · exact h.answer _
  | commit task =>
    apply h.called
    split
    next w' hcommit =>
      obtain ⟨hadvanced, -, -, habsorbed⟩ := commitIndex_some hcommit
      apply h.advance hadvanced
      rw [World.commitIndex, Option.map_eq_some_iff] at hcommit
      obtain ⟨staged, hindex, -⟩ := hcommit
      have hsame := hstage staged hindex
      subst hsame
      exact habsorbed staged hindex
    · exact h.answer _
  | revParse task =>
    apply h.called
    split
    · exact h.goto hstage
    · exact h.answer _
  | updateRef task sha => exact h.called (h.setTask hstage hcurrent _)
  | findTask => exact h.found fun task => h.goto trivial
  | findBase task => exact h.found fun base => h.called (h.goto trivial)
  | squash task base =>
    apply h.called
    split
    · exact h.answer _
    · have hadvanced := advanced_write w ⟨[base], some task⟩
      apply h.advance hadvanced
      exact getElem?_concat_self w.commits _
  | updateBase task base squash =>
    apply h.called
    have hadvanced : Advanced w (w.setBranch call.baseBranch squash) := by
      apply (Advanced.refl w).setBranch _ rfl
      intro tip htip
      rw [hcurrent tip htip]
      exact .parent hstage List.mem_cons_self .refl
    apply h.advance hadvanced
    exact ⟨squash, setBranch_self _ _ _, squash, _, .refl, hstage, rfl⟩
  | resetTask task squash => exact h.called (h.setTask hstage hcurrent _)

theorem World.Inv.landed (h : World.Inv call w) (hadvanced : Advanced w w')
    (hindex : ∀ staged ∈ w'.index, staged ∈ w.index) (hstage : w'.stage = w.stage) :
    w'.Inv call where
  base := hadvanced.base h
  task := hadvanced.task h
  doing stage hmem := by
    rw [hstage] at hmem
    exact hadvanced.stageInv hindex (h.doing stage hmem)

theorem World.Inv.exec (h : World.Inv call w) (hcurrent : Current call w event) :
    (w.exec call event).Inv call := by
  cases event with
  | merge =>
    rw [World.exec]
    split
    · exact h.goto trivial
    · exact h
  | step outside =>
    rw [World.exec]
    split
    next stage hstage => exact h.step (h.doing stage hstage) (hcurrent stage hstage) outside
    · exact h
  | land branch others =>
    rw [World.exec]
    split
    next tip htip =>
      split
      · have hadvanced : Advanced w ((w.write ⟨tip :: others, none⟩).setBranch branch
            w.commits.length) := by
          apply (advanced_write w _).setBranch _ rfl
          intro tip' htip'
          apply Reach.new .refl
          rw [show w.branches branch = some tip' from htip'] at htip
          cases htip
          exact List.mem_cons_self
        exact h.landed hadvanced (fun _ hstaged => hstaged) rfl
      · exact h
    · exact h
  | landStaged =>
    rw [World.exec]
    cases hcommit : w.commitIndex call.baseBranch with
    | none => exact h
    | some w' =>
      obtain ⟨hadvanced, hindex, hstage, -⟩ := commitIndex_some hcommit
      apply h.landed hadvanced _ hstage
      intro staged hstaged
      rw [hindex] at hstaged
      cases hstaged
  | checkout checkedOut => exact h.landed ⟨⟨[], (List.append_nil _).symm⟩,
      fun _ tip htip => ⟨tip, htip, .refl⟩, fun _ _ hc => .inl hc⟩ (fun _ hstaged => hstaged) rfl

theorem World.Kept.below (h : World.Kept call w c) (hreach : Reach w.commits b c) :
    w.Kept call b := by
  cases h with
  | inl hcontained =>
    obtain ⟨tip, htip, hat⟩ := hcontained
    exact .inl ⟨tip, htip, hat.below hreach⟩
  | inr hreachable =>
    obtain ⟨tip, htip, hat⟩ := hreachable
    exact .inr ⟨tip, htip, hreach.trans hat⟩

theorem World.Inv.sound (h : World.Inv call w) : w.Sound call where
  base := h.base
  task c hc := by
    obtain ⟨tip, htip, hreach⟩ := hc
    exact (h.task tip htip).below hreach

structure World.Starts (w : World) : Prop where
  tips : ∀ name, ∀ c ∈ w.tips name, w.branches name = some c
  idle : w.stage = none

theorem World.Starts.inv (h : World.Starts w) (call : Call) : w.Inv call where
  base c hc := ⟨c, h.tips _ c hc, .refl⟩
  task c hc := .inr ⟨c, h.tips _ c hc, .refl⟩
  doing stage hstage := by
    rw [h.idle] at hstage
    cases hstage

/-- In a run in which each branch, when it is set, points to what was merged, no commit is lost. -/
theorem merge_loses_no_commit (call : Call) (w : World) (hstart : w.Starts) (events : List Event)
    (h : Run.Each (World.exec call) (Current call) w events) :
    (Run.run (World.exec call) w events).Sound call :=
  (Run.Each.preserves (P := World.Inv call) (fun _ _ h hcurrent => h.exec hcurrent)
    (hstart.inv call) h).sound

def sampleCall : Call := ⟨"feature", "main"⟩

def sampleWorld : World :=
  { commits := [⟨[], none⟩]
    branches := fun name => if name = "main" ∨ name = "feature" then some 0 else none
    remotes := fun _ => none
    tags := fun _ => none
    checkedOut := fun _ => false
    index := none
    stage := none
    tips := fun name => if name = "main" ∨ name = "feature" then [0] else []
    answers := [] }

def goesWell : Event := .step ⟨none, false, false⟩

theorem sampleWorld_starts : sampleWorld.Starts where
  tips name c hc := by
    dsimp only [sampleWorld] at hc ⊢
    split at hc
    next hname => rw [if_pos hname, List.mem_singleton.mp hc]
    · cases hc
  idle := rfl

/-- A merge while the base branch is not checked out, and one while it is. -/
def merged : List Event :=
  .land "feature" [] :: .merge :: List.replicate 9 goesWell ++
    .checkout (· = "main") :: .land "feature" [] :: .merge :: List.replicate 11 goesWell

theorem merge_loses_no_commit_sample :
    (Run.run (World.exec sampleCall) sampleWorld merged).Sound sampleCall :=
  merge_loses_no_commit sampleCall sampleWorld sampleWorld_starts merged (by decide +kernel)

def baseMoved : World :=
  Run.run (World.exec sampleCall) sampleWorld
    (.land "feature" [] :: .merge :: List.replicate 7 goesWell ++ .land "main" [] ::
      List.replicate 2 goesWell)

def taskMoved : World :=
  Run.run (World.exec sampleCall) sampleWorld
    (.checkout (· = "main") :: .land "feature" [] :: .merge :: List.replicate 9 goesWell ++
      .land "feature" [] :: List.replicate 2 goesWell)

theorem moved_tip_lost :
    baseMoved.answers = [.ok 2] ∧ baseMoved.tips "main" = [0, 3, 2] ∧
      ¬ baseMoved.Reachable "main" 3 ∧
      taskMoved.answers = [.ok 2] ∧ taskMoved.tips "feature" = [0, 1, 3, 2] ∧
      ¬ taskMoved.Kept sampleCall 3 := by
  have hbase : baseMoved.commits =
      [⟨[], none⟩, ⟨[0], none⟩, ⟨[0], some 1⟩, ⟨[0], none⟩] := by decide +kernel
  have htask : taskMoved.commits =
      [⟨[], none⟩, ⟨[0], none⟩, ⟨[0], some 1⟩, ⟨[1], none⟩] := by decide +kernel
  have hlost : ∀ {c d : Nat}, Reach taskMoved.commits c d → c ≤ d := by
    intro c d hreach
    apply hreach.le
    rw [htask]
    decide
  refine ⟨by decide +kernel, by decide +kernel, ?_, by decide +kernel, by decide +kernel, ?_⟩
  · intro h
    obtain ⟨tip, htip, hreach⟩ := h
    rw [show baseMoved.branches "main" = some 2 by decide +kernel] at htip
    cases htip
    have hle := hreach.le (by rw [hbase]; decide)
    omega
  · intro h
    cases h with
    | inl hcontained =>
      obtain ⟨tip, htip, hat⟩ := hcontained
      rw [show taskMoved.branches sampleCall.baseBranch = some 2 by decide +kernel] at htip
      cases htip
      cases hat with
      | inl hreach =>
        have hle := hlost hreach
        omega
      | inr habsorbed =>
        obtain ⟨t, hreach, s, commit, hs, hcommit, hsquashed⟩ := habsorbed
        have hle := hlost hs
        have ht := hlost hreach
        rw [htask] at hcommit
        match s, hle with
        | 0, _ => cases hcommit; cases hsquashed
        | 1, _ => cases hcommit; cases hsquashed
        | 2, _ =>
          cases hcommit
          cases hsquashed
          omega
    | inr hreachable =>
      obtain ⟨tip, htip, hreach⟩ := hreachable
      rw [show taskMoved.branches sampleCall.taskBranch = some 2 by decide +kernel] at htip
      cases htip
      have hle := hlost hreach
      omega

end Cdesktop.MergeChanges
