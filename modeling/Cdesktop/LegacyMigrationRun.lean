import Cdesktop.LegacyMigrationKept

namespace Cdesktop.LegacyMigration
open Paths
set_option autoImplicit true

theorem moveWorktree_done (hcall : outside.fails = false)
    (hsetUp : isWorktreeProperlySetUp w repo old = true)
    (hmarker : isFile w.disk (old ++ [".git"]) = true) (hnew : w.disk new = none)
    (hparent : w.disk new.dropLast = some .dir) :
    ∃ w', moveWorktree w repo old new outside = .ok w' := by
  have hdir : isDir w.disk new = false := by
    rw [isDir, hnew]
    rfl
  rw [moveWorktree, landing_of_not_dir hdir, hcall, hsetUp, hmarker, hnew, isDir, hparent]
  exact ⟨_, rfl⟩

theorem createDirAll_ok {w : World} {disk : Disk} (hcall : outside.fails = false)
    (hcreate : Paths.createDirAll path w.disk = some disk) :
    w.createDirAll path outside = .ok { w with disk } := by
  rw [World.createDirAll, hcall, hcreate]
  rfl

theorem not_mem_answers {answers : List (Except WorkspaceError Unit)} (h : .ok () ∉ answers)
    (e : WorkspaceError) : .ok () ∉ answers ++ [.error e] := by
  simp [h]

variable {ws : Workspace}

theorem Workspace.AtOld.goto (h : ws.AtOld files w)
    (hdoing : ws.Doing ws.OldStage p) : ws.AtOld files { w with process := p } where
  toPlaced := h.toPlaced.of_eq rfl rfl
  open_ := h.open_
  doing := hdoing

theorem Workspace.AtNew.goto (h : ws.AtNew files w)
    (hdoing : ws.Doing ws.NewStage p) : ws.AtNew files { w with process := p } where
  toPlaced := h.toPlaced.of_eq rfl rfl
  dir := h.dir
  doing := hdoing

theorem Workspace.AtOld.failed (h : ws.AtOld files w) (e : WorkspaceError) :
    ws.AtOld files (w.answer (.error e)) where
  toPlaced := h.toPlaced.of_eq rfl rfl
  open_ := not_mem_answers h.open_ e
  doing := trivial

theorem Workspace.AtNew.answer (h : ws.AtNew files w)
    (result : Except WorkspaceError Unit) : ws.AtNew files (w.answer result) where
  toPlaced := h.toPlaced.of_eq rfl rfl
  dir := h.dir
  doing := trivial

theorem Workspace.AtOld.undisturbed (h : ws.AtOld files w)
    (hfiles : WorktreeFiles files) (hkept : Undisturbed ws w w')
    (hdoing : ws.Doing ws.OldStage p) : ws.AtOld files { w' with process := p } where
  toPlaced := (h.toPlaced.undisturbed hfiles List.prefix_rfl hkept).of_eq rfl rfl
  open_ := by
    rw [hkept.answers]
    exact h.open_
  doing := hdoing

theorem Workspace.AtNew.undisturbed (h : ws.AtNew files w)
    (hfiles : WorktreeFiles files) (hkept : Undisturbed ws w w')
    (hdoing : ws.Doing ws.NewStage p) : ws.AtNew files { w' with process := p } where
  toPlaced := (h.toPlaced.undisturbed hfiles (dir_le_worktreePath ws _) hkept).of_eq rfl rfl
  dir := (hkept.disk _ (.inl List.prefix_rfl)).trans h.dir
  doing := hdoing

theorem Workspace.AtOld.ensure (h : ws.AtOld files w)
    (hfiles : WorktreeFiles files) (hfree : ws.PlaceFree w.disk) (outside : Outside) :
    w.ensureStep ws outside (.ensure [ws.input]) = w.goto (.moveAside ws.repo) := by
  have hmarker := h.marker hfiles
  have hold : isOldStyle ws w.disk ws.input.repo = true := by
    rw [isOldStyle, h.contents.root, hfiles.dir, hmarker, ← Workspace.repo, hfree hmarker]
    rfl
  rw [World.ensureStep, if_pos hold]
  rfl

theorem Workspace.AtOld.moved (h : ws.AtOld files w) (hfree : ws.TempFree w.disk)
    (hmove : moveWorktree w ws.repo.path ws.dir ws.tempPath outside = .ok w') :
    ws.AtTemp files (w'.goto (.createDir ws.repo)) ∧ w'.refs = w.refs ∧ w'.answers = w.answers := by
  have hok := moveWorktree_ok hmove
  have hdir : isDir w.disk ws.tempPath = false := by
    rw [Bool.eq_false_iff]
    intro htemp
    have hsome := hfree htemp
    have hlanding : landing w.disk ws.dir ws.tempPath = ws.tempPath ++ [ws.name] := by
      rw [landing, htemp, Workspace.dir, List.getLast?_concat]
      rfl
    rw [hlanding] at hok
    rw [hok.1] at hsome
    cases hsome
  have hplaced := h.toPlaced.move (fun _ hn => not_dir_le_above hn)
    (fun _ hn => not_temp_le_above hn) hdir hmove
  rw [landing_of_not_dir hdir] at hok
  rw [hok.2] at hplaced ⊢
  have hempty : ∀ n, ws.dir <+: n → rename ws.dir ws.tempPath w.disk n = none := by
    intro n hn
    apply rename_old hn
    obtain ⟨rest, rfl⟩ := hn
    exact (temp_apart ws).symm.below rest
  refine ⟨?_, rfl, rfl⟩
  exact {
    toPlaced := hplaced.of_eq rfl rfl
    open_ := h.open_
    empty := hempty _ (dir_le_worktreePath ws _)
    doing := .inl ⟨rfl, hempty _ List.prefix_rfl⟩ }

theorem Workspace.AtTemp.created (h : ws.AtTemp files w)
    (hdir : w.disk ws.dir = none) (hcall : outside.fails = false) :
    ∃ w', w.createDirAll ws.dir outside = .ok w' ∧ w'.refs = w.refs ∧ w'.answers = w.answers ∧
      ws.AtTemp files (w'.goto (.moveInto ws.repo)) := by
  have hfiles : ∀ n, n <+: ws.dir → isFile w.disk n = false := by
    intro n hn
    rw [Workspace.dir, List.prefix_concat_iff] at hn
    cases hn with
    | inl hself =>
      rw [hself]
      exact isFile_of_none hdir
    | inr habove => exact isFile_of_dir (h.above n habove)
  obtain ⟨disk', hcreate⟩ := createDirAll_isSome hfiles
  refine ⟨_, createDirAll_ok hcall hcreate, rfl, rfl, ?_⟩
  exact {
    contents := h.contents.createDirAll (temp_apart ws).1 hcreate
    registered := h.registered
    above := fun n hn => createDirAll_of_isSome hcreate (h.above n hn)
    open_ := h.open_
    empty := (createDirAll_of_not_above hcreate (not_below_parent ws.dir _)).trans h.empty
    doing := .inr ⟨rfl, createDirAll_node hcreate hdir⟩ }

theorem Workspace.AtTemp.moved (h : ws.AtTemp files w)
    (hfiles : WorktreeFiles files) (hdir : w.disk ws.dir = some .dir)
    (hcall : outside.fails = false) :
    ∃ w', moveWorktree w ws.repo.path ws.tempPath (ws.worktreePath ws.repo) outside = .ok w' ∧
      w'.refs = w.refs ∧ w'.answers = w.answers ∧
      ws.AtNew files (w'.goto (.removeAside ws.repo)) := by
  have hparent : w.disk (ws.worktreePath ws.repo).dropLast = some .dir := by
    rw [dropLast_worktreePath]
    exact hdir
  obtain ⟨w', hmove⟩ := moveWorktree_done hcall (h.setUp hfiles) (h.marker hfiles) h.empty hparent
  have hlanding : isDir w.disk (ws.worktreePath ws.repo) = false := by
    rw [isDir, h.empty]
    rfl
  have hplaced := h.toPlaced.move (fun _ hn => not_temp_le_above hn)
    (fun _ hn hle => not_dir_le_above hn ((dir_le_worktreePath ws _).trans hle)) hlanding hmove
  have hok := (moveWorktree_ok hmove).2
  rw [landing_of_not_dir hlanding] at hok
  refine ⟨w', hmove, by rw [hok], by rw [hok], ?_⟩
  have hdir' : w'.disk ws.dir = some .dir := by
    rw [hok]
    exact (rename_of_not_below (temp_apart ws).1 (not_below_parent ws.dir _)).trans hdir
  exact {
    toPlaced := hplaced.of_eq rfl rfl
    dir := hdir'
    doing := rfl }

theorem Workspace.AtNew.ensure (h : ws.AtNew files w)
    (hfiles : WorktreeFiles files) (outside : Outside) :
    w.ensureStep ws outside (.ensure [ws.input]) = w.goto (.makeDir [ws.input]) := by
  have hnew : isOldStyle ws w.disk ws.input.repo = false := by
    rw [isOldStyle, ← Workspace.repo, h.contents.root, hfiles.dir, Option.isNone_some,
      Bool.and_false]
  rw [World.ensureStep, hnew]
  rfl

theorem Workspace.AtNew.makeDir (h : ws.AtNew files w) (outside : Outside) :
    w.ensureStep ws outside (.makeDir [ws.input]) = w.goto (.checkBranch ws.input []) := by
  rw [World.ensureStep, h.dir]
  rfl

theorem Workspace.AtNew.verify (h : ws.AtNew files w)
    (hfiles : WorktreeFiles files) (hreadable : outside.unreadable = false) :
    w.ensureStep ws outside (.verify ws.input []) =
      w.answer (if outside.fails then .error .worktree else .ok ()) := by
  have hsetUp := h.setUp hfiles
  rw [Workspace.repo] at hsetUp
  rw [World.ensureStep, hsetUp, hreadable]
  cases outside.fails <;> rfl

theorem Workspace.AtNew.removeAside (h : ws.AtNew files w)
    (hfiles : WorktreeFiles files) (outside : Outside) :
    ws.AtNew files (w.ensureStep ws outside (.removeAside ws.repo)) ∧
      (w.ensureStep ws outside (.removeAside ws.repo)).answers = w.answers ++ [.ok ()] ∧
      (w.ensureStep ws outside (.removeAside ws.repo)).refs = w.refs := by
  have hkept := undisturbed_removeDirAll (w := w) (temp_apart ws) outside
  rw [World.ensureStep]
  refine ⟨?_, ?_, hkept.refs⟩
  · exact (h.undisturbed (p := .idle) hfiles hkept trivial).answer _
  · rw [World.answer, hkept.answers]

theorem Workspace.AtOld.step (h : ws.AtOld files w) (hfiles : WorktreeFiles files)
    (hnamed : w.refs ws.dir = true) (hok : ws.Unbroken w (.step outside)) :
    ws.Inv files (w.step ws outside) := by
  have hdoing := h.doing
  rw [World.step]
  rw [Workspace.Unbroken] at hok
  cases hprocess : w.process with
  | down => exact ⟨hnamed, .inl h⟩
  | idle => exact ⟨hnamed, .inl h⟩
  | sweeping todo =>
    rw [hprocess] at hdoing
    cases todo with
    | nil => exact ⟨hnamed, .inl (h.goto (p := .idle) trivial)⟩
    | cons task todo =>
      have hswept := sweep_spares (hdoing task List.mem_cons_self) hnamed outside
      apply Workspace.Inv.mk
      · exact (congrFun hswept.1.refs ws.dir).trans hnamed
      · apply Or.inl
        apply h.undisturbed hfiles hswept.1
        exact List.forall_mem_append.mpr ⟨hswept.2, fun t ht => hdoing t (List.mem_cons_of_mem _ ht)⟩
  | ensuring stage =>
    rw [hprocess] at hdoing hok
    cases stage with
    | ensure inputs =>
      rw [show inputs = [ws.input] from hdoing]
      dsimp only
      rw [h.ensure hfiles hok]
      exact ⟨hnamed, .inl (h.goto (p := .ensuring _) rfl)⟩
    | moveAside repo =>
      rw [show repo = ws.repo from hdoing]
      dsimp only
      rw [World.ensureStep]
      cases hmove : moveWorktree w ws.repo.path ws.dir ws.tempPath outside with
      | error e => exact ⟨hnamed, .inl (h.failed e)⟩
      | ok w' =>
        have hmoved := h.moved hok hmove
        exact ⟨(congrFun hmoved.2.1 ws.dir).trans hnamed, .inr (.inl hmoved.1)⟩
    | _ => exact hdoing.elim

theorem Workspace.AtTemp.step (h : ws.AtTemp files w)
    (hfiles : WorktreeFiles files) (hnamed : w.refs ws.dir = true)
    (hok : ws.Unbroken w (.step outside)) : ws.Inv files (w.step ws outside) := by
  rw [Workspace.Unbroken] at hok
  rw [World.step]
  cases h.doing with
  | inl hcreate =>
    rw [hcreate.1] at hok ⊢
    obtain ⟨w', hcreated, hrefs, -, hat⟩ := h.created hcreate.2 hok
    dsimp only
    rw [World.ensureStep, hcreated]
    exact ⟨(congrFun hrefs ws.dir).trans hnamed, .inr (.inl hat)⟩
  | inr hmove =>
    rw [hmove.1] at hok ⊢
    obtain ⟨w', hmoved, hrefs, -, hat⟩ := h.moved hfiles hmove.2 hok
    dsimp only
    rw [World.ensureStep, hmoved]
    exact ⟨(congrFun hrefs ws.dir).trans hnamed, .inr (.inr hat)⟩

theorem Workspace.AtNew.step (h : ws.AtNew files w) (hfiles : WorktreeFiles files)
    (hnamed : w.refs ws.dir = true) (hok : ws.Unbroken w (.step outside)) :
    ws.Inv files (w.step ws outside) := by
  have hdoing := h.doing
  rw [Workspace.Unbroken] at hok
  rw [World.step]
  cases hprocess : w.process with
  | down => exact ⟨hnamed, .inr (.inr h)⟩
  | idle => exact ⟨hnamed, .inr (.inr h)⟩
  | sweeping todo =>
    rw [hprocess] at hdoing
    cases todo with
    | nil => exact ⟨hnamed, .inr (.inr (h.goto (p := .idle) trivial))⟩
    | cons task todo =>
      have hswept := sweep_spares (hdoing task List.mem_cons_self) hnamed outside
      apply Workspace.Inv.mk
      · exact (congrFun hswept.1.refs ws.dir).trans hnamed
      · apply Or.inr ∘ Or.inr
        apply h.undisturbed hfiles hswept.1
        exact List.forall_mem_append.mpr ⟨hswept.2, fun t ht => hdoing t (List.mem_cons_of_mem _ ht)⟩
  | ensuring stage =>
    rw [hprocess] at hdoing hok
    cases stage with
    | ensure inputs =>
      rw [show inputs = [ws.input] from hdoing]
      dsimp only
      rw [h.ensure hfiles]
      exact ⟨hnamed, .inr (.inr (h.goto (p := .ensuring _) rfl))⟩
    | removeAside repo =>
      rw [show repo = ws.repo from hdoing]
      have hremoved := h.removeAside hfiles outside
      exact ⟨(congrFun hremoved.2.2 ws.dir).trans hnamed, .inr (.inr hremoved.1)⟩
    | makeDir inputs =>
      rw [show inputs = [ws.input] from hdoing]
      dsimp only
      rw [h.makeDir]
      exact ⟨hnamed, .inr (.inr (h.goto (p := .ensuring _) ⟨rfl, rfl⟩))⟩
    | checkBranch input rest =>
      obtain ⟨rfl, rfl⟩ := hdoing
      dsimp only
      rw [World.ensureStep]
      cases outside.fails with
      | true => exact ⟨hnamed, .inr (.inr (h.answer _))⟩
      | false =>
        cases outside.found with
        | true => exact ⟨hnamed, .inr (.inr (h.goto (p := .ensuring _) ⟨rfl, rfl⟩))⟩
        | false => exact ⟨hnamed, .inr (.inr (h.goto (p := .ensuring _) ⟨rfl, rfl⟩))⟩
    | createBranch input rest =>
      obtain ⟨rfl, rfl⟩ := hdoing
      dsimp only
      rw [World.ensureStep]
      cases outside.fails with
      | true => exact ⟨hnamed, .inr (.inr (h.answer _))⟩
      | false => exact ⟨hnamed, .inr (.inr (h.goto (p := .ensuring _) ⟨rfl, rfl⟩))⟩
    | verify input rest =>
      obtain ⟨rfl, rfl⟩ := hdoing
      dsimp only
      rw [h.verify hfiles hok]
      exact ⟨hnamed, .inr (.inr (h.answer _))⟩
    | _ => exact hdoing.elim

theorem Workspace.AtTemp.between (h : ws.AtTemp files w) : w.between = true := by
  rw [World.between]
  cases h.doing with
  | inl hcreate => rw [hcreate.1]
  | inr hmove => rw [hmove.1]

theorem Workspace.Inv.goto (h : ws.Inv files w) (hbetween : w.between = false)
    (hold : ws.Doing ws.OldStage p) (hnew : ws.Doing ws.NewStage p) :
    ws.Inv files { w with process := p } where
  named := h.named
  place := by
    cases h.place with
    | inl hat => exact .inl (hat.goto hold)
    | inr hplace =>
      cases hplace with
      | inl htemp =>
        rw [htemp.between] at hbetween
        cases hbetween
      | inr hat => exact .inr (.inr (hat.goto hnew))

theorem Workspace.Inv.exec (hclear : ∀ dir ∈ [ws.defaultDir, ws.currentDir],
    ws.Clear dir) (hfiles : WorktreeFiles files) (h : ws.Inv files w)
    (hok : ws.Unbroken w event) : ws.Inv files (w.exec ws event) := by
  cases event with
  | restart disabled =>
    rw [World.exec]
    split
    next hdown =>
      have hbetween : w.between = false := by rw [World.between, hdown]
      cases disabled with
      | true => exact h.goto (p := .idle) hbetween trivial trivial
      | false =>
        have hsweep : ∀ task ∈ Sweep.directory ws.defaultDir ::
            (if ws.currentDir = ws.defaultDir then [] else [.directory ws.currentDir]),
            ws.Spares task := by
          intro task htask
          cases List.mem_cons.mp htask with
          | inl hdefault =>
            rw [hdefault]
            exact hclear _ List.mem_cons_self
          | inr hcurrent =>
            split at hcurrent
            · cases hcurrent
            · rw [List.mem_singleton.mp hcurrent]
              exact hclear _ (List.mem_cons_of_mem _ List.mem_cons_self)
        exact h.goto (p := .sweeping _) hbetween hsweep hsweep
    · exact h
  | ensure =>
    rw [World.exec]
    split
    next hidle =>
      have hbetween : w.between = false := by rw [World.between, hidle]
      exact h.goto (p := .ensuring _) hbetween rfl rfl
    · exact h
  | step outside =>
    cases h.place with
    | inl hold => exact hold.step hfiles h.named hok
    | inr hplace =>
      cases hplace with
      | inl htemp => exact htemp.step hfiles h.named hok
      | inr hnew => exact hnew.step hfiles h.named hok
  | rows refs =>
    apply Workspace.Inv.mk
    · simp [World.exec]
    · cases h.place with
      | inl hold => exact .inl { hold with toPlaced := hold.toPlaced.of_eq rfl rfl }
      | inr hplace =>
        cases hplace with
        | inl htemp => exact .inr (.inl { htemp with toPlaced := htemp.toPlaced.of_eq rfl rfl })
        | inr hnew => exact .inr (.inr { hnew with toPlaced := hnew.toPlaced.of_eq rfl rfl })
  | crash => exact h.goto (p := .down) hok trivial trivial

theorem Workspace.Legacy.inv (h : ws.Legacy files w) : ws.Inv files w where
  named := h.named
  place := by
    apply Or.inl
    exact {
      contents := h.contents
      registered := h.registered
      above := h.above
      open_ := by
        rw [h.fresh]
        exact List.not_mem_nil
      doing := by
        rw [h.down]
        trivial }

theorem Workspace.Inv.kept (h : ws.Inv files w) : ws.Kept files w := by
  cases h.place with
  | inl hold => exact ⟨.inl hold.contents, fun hok => (hold.open_ hok).elim⟩
  | inr hplace =>
    cases hplace with
    | inl htemp =>
      exact ⟨.inr (.inl ⟨htemp.between, htemp.contents⟩), fun hok => (htemp.open_ hok).elim⟩
    | inr hnew => exact ⟨.inr (.inr hnew.contents), fun _ => hnew.contents⟩

theorem run_idle (h : w.process = .idle) (outsides : List Outside) :
    Run.run (World.exec ws) w (outsides.map .step) = w := by
  induction outsides with
  | nil => rfl
  | cons outside outsides ih =>
    have hstep : w.exec ws (.step outside) = w := by
      rw [World.exec, World.step, h]
    rw [List.map_cons, Run.run_cons, hstep, ih]

theorem run_ensuring (hprocess : w.process = .ensuring stage)
    (hnext : w.ensureStep ws outside stage = v) (events : List Event) :
    Run.run (World.exec ws) w (.step outside :: events) = Run.run (World.exec ws) v events := by
  rw [Run.run_cons, World.exec, World.step, hprocess]
  dsimp only
  rw [hnext]

theorem five_of_length {outsides : List Outside} (h : 5 ≤ outsides.length) :
    ∃ o₁ o₂ o₃ o₄ o₅ rest, outsides = o₁ :: o₂ :: o₃ :: o₄ :: o₅ :: rest := by
  match outsides, h with
  | o₁ :: o₂ :: o₃ :: o₄ :: o₅ :: rest, _ => exact ⟨o₁, o₂, o₃, o₄, o₅, rest, rfl⟩

theorem Workspace.AtNew.answered {l : List Outside}
    (h : ws.AtNew files w) (hidle : w.process = .idle) (hanswers : w.answers = answers ++ [.ok ()])
    (hrun : run' = Run.run (World.exec ws) w (l.map .step)) :
    run'.process = .idle ∧ run'.answers = answers ++ [.ok ()] ∧
      Contains run'.disk (ws.worktreePath ws.repo) files := by
  rw [hrun, run_idle hidle]
  exact ⟨hidle, hanswers, h.contents⟩

theorem Workspace.AtOld.completes (h : ws.AtOld files w)
    (hfiles : WorktreeFiles files) : ws.Completes files w := by
  intro hidle hfree outsides hlength hcalls
  obtain ⟨o₁, o₂, o₃, o₄, o₅, rest, rfl⟩ := five_of_length hlength
  obtain ⟨hplace, htemp⟩ := hfree (h.marker hfiles)
  simp only [List.forall_mem_cons] at hcalls
  have hbegun := h.goto (p := .ensuring (.moveAside ws.repo)) rfl
  have hparent : w.disk ws.tempPath.dropLast = some .dir := by
    rw [Workspace.tempPath, List.dropLast_concat]
    exact h.above _ List.prefix_rfl
  obtain ⟨w₁, hmove⟩ := moveWorktree_done (w := w.goto (.moveAside ws.repo)) hcalls.2.1.1
    (hbegun.setUp hfiles) (h.marker hfiles) htemp hparent
  have htempFree : ws.TempFree w.disk := by
    intro hdir
    rw [isDir, htemp] at hdir
    cases hdir
  obtain ⟨hat₁, -, hanswers₁⟩ := hbegun.moved htempFree hmove
  have hgone : (w₁.goto (.createDir ws.repo)).disk ws.dir = none := by
    cases hat₁.doing with
    | inl hcreate => exact hcreate.2
    | inr hmove => cases hmove.1
  obtain ⟨w₂, hcreated, -, hanswers₂, hat₂⟩ := hat₁.created hgone hcalls.2.2.1.1
  have hmade : (w₂.goto (.moveInto ws.repo)).disk ws.dir = some .dir := by
    cases hat₂.doing with
    | inl hcreate => cases hcreate.1
    | inr hmove => exact hmove.2
  obtain ⟨w₃, hmoved, -, hanswers₃, hat₃⟩ := hat₂.moved hfiles hmade hcalls.2.2.2.1.1
  obtain ⟨hat₄, hanswers₄, -⟩ := hat₃.removeAside hfiles o₅
  have hensure : w.exec ws .ensure = w.goto (.ensure [ws.input]) := by
    rw [World.exec, if_pos hidle]
  apply hat₄.answered rfl (l := rest)
  · rw [hanswers₄]
    exact congrArg (· ++ [.ok ()]) (hanswers₃.trans (hanswers₂.trans hanswers₁))
  · rw [Run.run_cons, hensure]
    simp only [List.map_cons]
    have hstarted : (w.goto (.ensure [ws.input])).ensureStep ws o₁ (.ensure [ws.input]) =
        w.goto (.moveAside ws.repo) :=
      (h.goto (p := .ensuring (.ensure [ws.input])) rfl).ensure hfiles (fun _ => hplace) o₁
    rw [run_ensuring rfl hstarted]
    rw [run_ensuring rfl (v := w₁.goto (.createDir ws.repo))]
    · rw [run_ensuring rfl (v := w₂.goto (.moveInto ws.repo))]
      · rw [run_ensuring rfl (v := w₃.goto (.removeAside ws.repo))]
        · rw [run_ensuring rfl rfl]
        · rw [World.ensureStep, hmoved]
          rfl
      · rw [World.ensureStep, hcreated]
        rfl
    · rw [World.ensureStep]
      exact congrArg (fun result => World.after _ result _) hmove

theorem Workspace.AtNew.completes (h : ws.AtNew files w)
    (hfiles : WorktreeFiles files) : ws.Completes files w := by
  intro hidle _ outsides hlength hcalls
  obtain ⟨o₁, o₂, o₃, o₄, o₅, rest, rfl⟩ := five_of_length hlength
  simp only [List.forall_mem_cons] at hcalls
  have hensure : w.exec ws .ensure = w.goto (.ensure [ws.input]) := by
    rw [World.exec, if_pos hidle]
  have hstarted : (w.goto (.ensure [ws.input])).ensureStep ws o₁ (.ensure [ws.input]) =
      w.goto (.makeDir [ws.input]) :=
    (h.goto (p := .ensuring (.ensure [ws.input])) rfl).ensure hfiles o₁
  have hmade : (w.goto (.makeDir [ws.input])).ensureStep ws o₂ (.makeDir [ws.input]) =
      w.goto (.checkBranch ws.input []) :=
    (h.goto (p := .ensuring (.makeDir [ws.input])) rfl).makeDir o₂
  have hverified : ∀ outside : Outside, outside.fails = false ∧ outside.unreadable = false →
      (w.goto (.verify ws.input [])).ensureStep ws outside (.verify ws.input []) =
        w.answer (.ok ()) := by
    intro outside hcall
    have hverify := (h.goto (p := .ensuring (.verify ws.input [])) ⟨rfl, rfl⟩).verify hfiles hcall.2
    rw [hcall.1] at hverify
    exact hverify
  rw [Run.run_cons, hensure]
  simp only [List.map_cons]
  rw [run_ensuring rfl hstarted, run_ensuring rfl hmade]
  cases hfound : o₃.found with
  | true =>
    have hchecked : (w.goto (.checkBranch ws.input [])).ensureStep ws o₃ (.checkBranch ws.input []) =
        w.goto (.verify ws.input []) := by
      rw [World.ensureStep, hcalls.2.2.1.1, hfound]
      rfl
    rw [run_ensuring rfl hchecked, run_ensuring rfl (hverified o₄ hcalls.2.2.2.1)]
    exact (h.answer (.ok ())).answered rfl rfl (l := o₅ :: rest) rfl
  | false =>
    have hchecked : (w.goto (.checkBranch ws.input [])).ensureStep ws o₃ (.checkBranch ws.input []) =
        w.goto (.createBranch ws.input []) := by
      rw [World.ensureStep, hcalls.2.2.1.1, hfound]
      rfl
    have hcreated : (w.goto (.createBranch ws.input [])).ensureStep ws o₄
        (.createBranch ws.input []) = w.goto (.verify ws.input []) := by
      rw [World.ensureStep, hcalls.2.2.2.1.1]
      rfl
    rw [run_ensuring rfl hchecked, run_ensuring rfl hcreated,
      run_ensuring rfl (hverified o₅ hcalls.2.2.2.2.1)]
    exact (h.answer (.ok ())).answered rfl rfl (l := rest) rfl

theorem Workspace.Inv.completes (h : ws.Inv files w)
    (hfiles : WorktreeFiles files) : ws.Completes files w := by
  cases h.place with
  | inl hold => exact hold.completes hfiles
  | inr hplace =>
    cases hplace with
    | inl htemp =>
      intro hidle
      have hbetween := htemp.between
      rw [World.between, hidle] at hbetween
      cases hbetween
    | inr hnew => exact hnew.completes hfiles

/-- In a run that the migration is not broken off in, with its paths free, the files of the worktree
are never lost, and a call of which no step fails has them where they belong. -/
theorem migration_keeps_files (ws : Workspace) (files : Disk) (w : World)
    (hclear : ∀ dir ∈ [ws.defaultDir, ws.currentDir], ws.Clear dir) (hfiles : WorktreeFiles files)
    (hlegacy : ws.Legacy files w) (events : List Event)
    (h : Run.Each (World.exec ws) ws.Unbroken w events) :
    ws.Kept files (Run.run (World.exec ws) w events) ∧
      ws.Completes files (Run.run (World.exec ws) w events) := by
  have hinv := Run.Each.preserves (P := ws.Inv files)
    (fun _ _ h hok => Workspace.Inv.exec hclear hfiles h hok) hlegacy.inv h
  exact ⟨hinv.kept, hinv.completes hfiles⟩

def sampleWorkspace : Workspace :=
  { baseDir := ["worktrees"]
    name := "legacy"
    input := ⟨⟨"app", ["repos", "app"]⟩, "main"⟩
    branch := "work"
    defaultDir := ["worktrees"]
    currentDir := ["worktrees"]
    checkout := fun rest =>
      if rest = [] then some .dir else if rest = [".git"] then some (.file "gitdir") else none }

def sampleFiles : Disk := fun rest =>
  if rest = ["notes"] then some (.file "uncommitted") else sampleWorkspace.checkout rest

def sampleWorld : World :=
  { disk := fun n =>
      if n = [] ∨ n = ["worktrees"] then some .dir
      else if ["worktrees", "legacy"].isPrefixOf n then sampleFiles (n.drop 2)
      else none
    worktrees := [⟨["repos", "app"], ["worktrees", "legacy"], "work"⟩]
    refs := fun n => n = ["worktrees", "legacy"]
    process := .down
    answers := [] }

def well : Outside :=
  { fails := false
    listing := ["legacy", "legacy-migrating"]
    unreadable := false
    found := true
    inferred := none
    gitKept := fun _ => true
    removalKept := none
    unregistered := true
    pruned := true }

def startUp : List Event := .restart false :: List.replicate 7 (.step well)

theorem sampleWorld_legacy : sampleWorkspace.Legacy sampleFiles sampleWorld where
  contents _ := rfl
  registered := List.mem_singleton_self _
  above n hn := by
    rw [show sampleWorkspace.baseDir = [] ++ ["worktrees"] from rfl, List.prefix_concat_iff,
      List.prefix_nil] at hn
    cases hn with
    | inl hn => rw [hn]; rfl
    | inr hn => rw [hn]; rfl
  named := rfl
  down := rfl
  fresh := rfl

def migrated : List Event :=
  startUp ++ .ensure :: List.replicate 5 (.step well) ++ .crash :: startUp ++
    .ensure :: List.replicate 5 (.step well)

theorem migration_keeps_files_sample :
    sampleWorkspace.Kept sampleFiles
        (Run.run (World.exec sampleWorkspace) sampleWorld migrated) ∧
      sampleWorkspace.Completes sampleFiles
        (Run.run (World.exec sampleWorkspace) sampleWorld migrated) := by
  apply migration_keeps_files
  · decide
  · exact ⟨rfl, rfl⟩
  · exact sampleWorld_legacy
  · decide +kernel

def brokenOff : List Event :=
  startUp ++ .ensure :: List.replicate 2 (.step well) ++ .crash :: startUp ++
    .ensure :: List.replicate 7 (.step well)

/-- The sweep removes the worktree on its way, and the call puts a new one where it belongs. -/
theorem migrating_worktree_removed :
    sampleWorld.disk ["worktrees", "legacy", "notes"] = some (.file "uncommitted") ∧
      (Run.run (World.exec sampleWorkspace) sampleWorld brokenOff).answers = [.ok ()] ∧
      (Run.run (World.exec sampleWorkspace) sampleWorld brokenOff).disk
        ["worktrees", "legacy", "app"] = some .dir ∧
      (Run.run (World.exec sampleWorkspace) sampleWorld brokenOff).disk
        ["worktrees", "legacy", "app", "notes"] = none ∧
      (Run.run (World.exec sampleWorkspace) sampleWorld brokenOff).disk
        ["worktrees", "legacy-migrating", "notes"] = none := by
  decide +kernel

end Cdesktop.LegacyMigration
