import Cdesktop.WorkspaceExpiry

/-! When the cleanups leave a directory in use alone, and the flag says what became of it. -/

namespace Cdesktop.WorkspaceExpiry
open Table (Reply)
set_option autoImplicit true

def CreationPhase.busy : CreationPhase → Bool
  | .made | .stored => true
  | _ => false

def Orphans.found : Orphans → Option String
  | .deleting path _ => some path
  | _ => none

/-- The directory is not one that the orphan cleanup is at, and a call that made a removed directory
anew clears the flag. -/
def World.okCreation (c : Creation) (move : CreationMove) (w : World) : Bool :=
  match c.phase, move with
  | .touched, .make result =>
    w.orphans.found ≠ some (w.row c.workspaceId).dir ∧
      (result = .failed true → c.wasDeleted = false)
  | .made, .abort => c.wasDeleted = false
  | .stored, .abort => c.wasDeleted = false
  | .stored, .clear reply _ => c.wasDeleted = true → reply ≠ .failed
  | _, _ => true

/-- The directory's name is of one workspace; no call or start for a workspace falls between the
query that finds it expired and the write of its flag; the removal and the write succeed; and the
orphan cleanup does not look at a directory while it is made. -/
def World.ok (w : World) : Event → Bool
  | .insert _ dir _ _ => w.ids.all fun id => (w.row id).dir ≠ dir
  | .load kind id => id ∉ w.cleanup.held ∧ (kind = .create → (w.row id).worktreeDeleted = false)
  | .start id => id ∉ w.cleanup.held
  | .query _ now localOffset =>
    w.creations.all fun c =>
      c.phase ≠ .done → c.workspaceId ∉ w.findExpiredForCleanup now localOffset
  | .remove removed => removed
  | .mark reply _ => reply ≠ .failed
  | .look _ =>
    match w.orphans with
    | .looking (path :: _) => w.creations.all fun c =>
      ¬(c.phase = .made ∧ c.hadContainerRef = false ∧ (w.row c.workspaceId).dir = path)
    | _ => true
  | .creation i move =>
    match w.creations[i]? with
    | some c => w.okCreation c move
    | none => true
  | _ => true

theorem gone_created (dir : String) (acts : List Act) (d : String) :
    gone dir (acts ++ [.created d]) = if d = dir then false else gone dir acts := by
  simp [gone, List.foldl_append]

theorem gone_removed (dir : String) (acts : List Act) (d : String) :
    gone dir (acts ++ [.removed d]) = if d = dir then true else gone dir acts := by
  simp [gone, List.foldl_append]

def Cleanup.marked : Cleanup → Option Uuid
  | .marking id _ => some id
  | _ => none

theorem Cleanup.mem_held {cleanup : Cleanup} {id : Uuid} (h : cleanup.marked = some id) :
    id ∈ cleanup.held := by
  cases cleanup with
  | looping todo => cases h
  | deleting a todo => cases h
  | marking a todo =>
    cases h
    exact List.mem_cons_self

def World.Busy (id : Uuid) (w : World) : Prop :=
  w.cleanup.marked = some id ∨
    ∃ (i : Nat) (c : Creation),
      w.creations[i]? = some c ∧ c.workspaceId = id ∧ c.phase.busy = true

structure World.Knows (c : Creation) (w : World) : Prop where
  there : c.workspaceId ∈ w.ids
  referred : c.hadContainerRef = true → (w.row c.workspaceId).hasContainerRef = true
  deleted : c.wasDeleted = true → c.hadContainerRef = true ∧ c.kind = .ensure
  flag : c.phase ≠ .done → (w.row c.workspaceId).worktreeDeleted = true → c.wasDeleted = true
  made : c.phase.busy = true →
    (w.row c.workspaceId).dir ∈ w.dirs ∧ gone (w.row c.workspaceId).dir w.acts = false
  stored : c.phase = .stored → (w.row c.workspaceId).hasContainerRef = true

structure World.Held (id : Uuid) (w : World) : Prop where
  there : id ∈ w.ids
  referred : (w.row id).hasContainerRef = true
  flag : (w.row id).worktreeDeleted = false
  executions : ∀ e ∈ w.executions, e.workspaceId = id → e.completedAt ≠ none
  creations : ∀ c ∈ w.creations, c.workspaceId = id → c.phase = .done

structure World.Inv (w : World) : Prop where
  ids : w.ids.Nodup
  dirs : ∀ a ∈ w.ids, ∀ b ∈ w.ids, (w.row a).dir = (w.row b).dir → a = b
  gone : ∀ dir, gone dir w.acts = true → ∃ id ∈ w.ids, (w.row id).dir = dir
  referred : ∀ id ∈ w.ids, (w.row id).worktreeDeleted = true → (w.row id).hasContainerRef = true
  flag : ∀ id ∈ w.ids, w.Busy id ∨
    ((w.row id).worktreeDeleted = true ↔ WorkspaceExpiry.gone (w.row id).dir w.acts = true)
  present : ∀ id ∈ w.ids, (w.row id).hasContainerRef = true →
    (w.row id).worktreeDeleted = false → w.cleanup.marked ≠ some id → (w.row id).dir ∈ w.dirs
  creations : ∀ (i : Nat) (c : Creation), w.creations[i]? = some c → w.Knows c
  held : ∀ id ∈ w.cleanup.held, w.Held id
  nodup : w.cleanup.held.Nodup
  marked : ∀ id, w.cleanup.marked = some id →
    WorkspaceExpiry.gone (w.row id).dir w.acts = true
  found : ∀ path, w.orphans.found = some path →
    (∀ id ∈ w.ids, (w.row id).dir = path → (w.row id).hasContainerRef = false) ∧
    ∀ c ∈ w.creations, c.phase = .made → c.hadContainerRef = false →
      (w.row c.workspaceId).dir ≠ path

section Steps
variable {w w' : World} {id : Uuid}

theorem World.Inv.inert (h : w.Inv) (f : Workspace → Workspace)
    (hf : ∀ ws, (f ws).dir = ws.dir ∧ (f ws).hasContainerRef = ws.hasContainerRef ∧
      (f ws).worktreeDeleted = ws.worktreeDeleted) : (w.setRow id f).Inv := by
  have hrow : ∀ i, ((w.setRow id f).row i).dir = (w.row i).dir ∧
      ((w.setRow id f).row i).hasContainerRef = (w.row i).hasContainerRef ∧
      ((w.setRow id f).row i).worktreeDeleted = (w.row i).worktreeDeleted := by
    intro i
    unfold World.setRow
    dsimp only
    split
    · exact hf _
    · exact ⟨rfl, rfl, rfl⟩
  exact {
    ids := h.ids
    dirs := by
      intro a ha b hb hab
      rw [(hrow a).1, (hrow b).1] at hab
      exact h.dirs a ha b hb hab
    gone := by
      intro dir hdir
      obtain ⟨a, ha, heq⟩ := h.gone dir hdir
      exact ⟨a, ha, (hrow a).1.trans heq⟩
    referred := by
      intro a ha
      rw [(hrow a).2.1, (hrow a).2.2]
      exact h.referred a ha
    flag := by
      intro a ha
      rw [(hrow a).1, (hrow a).2.2]
      exact h.flag a ha
    present := by
      intro a ha
      rw [(hrow a).1, (hrow a).2.1, (hrow a).2.2]
      exact h.present a ha
    creations := by
      intro i c hc
      have hold := h.creations i c hc
      exact {
        there := hold.there
        referred := by rw [(hrow _).2.1]; exact hold.referred
        deleted := hold.deleted
        flag := by rw [(hrow _).2.2]; exact hold.flag
        made := by rw [(hrow _).1]; exact hold.made
        stored := by rw [(hrow _).2.1]; exact hold.stored }
    held := by
      intro a ha
      have hold := h.held a ha
      exact {
        there := hold.there
        referred := by rw [(hrow a).2.1]; exact hold.referred
        flag := by rw [(hrow a).2.2]; exact hold.flag
        executions := hold.executions
        creations := hold.creations }
    nodup := h.nodup
    marked := by
      intro a ha
      rw [(hrow a).1]
      exact h.marked a ha
    found := by
      intro path hpath
      obtain ⟨hids, hcreations⟩ := h.found path hpath
      apply And.intro
      · intro a ha
        rw [(hrow a).1, (hrow a).2.1]
        exact hids a ha
      · intro c hc
        rw [(hrow _).1]
        exact hcreations c hc }

theorem World.Inv.insert (h : w.Inv) (hnew : id ∉ w.ids)
    (hdir : ∀ a ∈ w.ids, (w.row a).dir ≠ dir) (useWorktree : Bool) (now : Time) :
    World.Inv (World.setRow id (fun _ => ⟨dir, useWorktree, false, now, false, false⟩)
      { w with ids := w.ids ++ [id] }) := by
  have hold : ∀ a ∈ w.ids, a ≠ id := fun a ha heq => hnew (heq ▸ ha)
  have hrow : ∀ a, a ≠ id →
      (World.setRow id (fun _ => ⟨dir, useWorktree, false, now, false, false⟩)
        { w with ids := w.ids ++ [id] }).row a = w.row a := by
    intro a ha
    simp [World.setRow, ha]
  have hself : (World.setRow id (fun _ => ⟨dir, useWorktree, false, now, false, false⟩)
      { w with ids := w.ids ++ [id] }).row id = ⟨dir, useWorktree, false, now, false, false⟩ := by
    simp [World.setRow]
  have hmem : ∀ a, a ∈ w.ids ++ [id] → a ∈ w.ids ∨ a = id := by
    intro a ha
    simpa using ha
  have hnone : WorkspaceExpiry.gone dir w.acts = false := by
    cases hcase : WorkspaceExpiry.gone dir w.acts with
    | false => rfl
    | true =>
      obtain ⟨a, ha, heq⟩ := h.gone dir hcase
      exact absurd heq (hdir a ha)
  exact {
    ids := List.nodup_append.mpr ⟨h.ids, by simp, by
      intro a ha b hb heq
      rw [List.mem_singleton.mp hb] at heq
      exact hold a ha heq⟩
    dirs := by
      intro a ha b hb hab
      obtain hina | hisa := hmem a ha
      · obtain hinb | hisb := hmem b hb
        · rw [hrow a (hold a hina), hrow b (hold b hinb)] at hab
          exact h.dirs a hina b hinb hab
        · rw [hisb, hrow a (hold a hina), hself] at hab
          exact absurd hab (hdir a hina)
      · obtain hinb | hisb := hmem b hb
        · rw [hisa, hrow b (hold b hinb), hself] at hab
          exact absurd hab.symm (hdir b hinb)
        · rw [hisa, hisb]
    gone := by
      intro d hd
      obtain ⟨a, ha, heq⟩ := h.gone d hd
      apply Exists.intro a
      apply And.intro (List.mem_append_left _ ha)
      rw [hrow a (hold a ha), heq]
    referred := by
      intro a ha
      obtain ha | rfl := hmem a ha
      · rw [hrow a (hold a ha)]
        exact h.referred a ha
      · rw [hself]
        simp
    flag := by
      intro a ha
      obtain ha | rfl := hmem a ha
      · rw [hrow a (hold a ha)]
        exact h.flag a ha
      · apply Or.inr
        rw [hself]
        simp [World.setRow, hnone]
    present := by
      intro a ha
      obtain ha | rfl := hmem a ha
      · rw [hrow a (hold a ha)]
        exact h.present a ha
      · rw [hself]
        simp
    creations := by
      intro i c hc
      have hknows := h.creations i c hc
      have heq := hrow _ (hold _ hknows.there)
      exact {
        there := List.mem_append_left _ hknows.there
        referred := by rw [heq]; exact hknows.referred
        deleted := hknows.deleted
        flag := by rw [heq]; exact hknows.flag
        made := by rw [heq]; exact hknows.made
        stored := by rw [heq]; exact hknows.stored }
    held := by
      intro a ha
      have hheld := h.held a ha
      have heq := hrow a (hold a hheld.there)
      exact {
        there := List.mem_append_left _ hheld.there
        referred := by rw [heq]; exact hheld.referred
        flag := by rw [heq]; exact hheld.flag
        executions := hheld.executions
        creations := hheld.creations }
    nodup := h.nodup
    marked := by
      intro a ha
      have hthere : a ∈ w.ids := (h.held a (Cleanup.mem_held ha)).there
      rw [hrow a (hold a hthere)]
      exact h.marked a ha
    found := by
      intro path hpath
      obtain ⟨hids, hcreations⟩ := h.found path hpath
      apply And.intro
      · intro a ha
        obtain ha | rfl := hmem a ha
        · rw [hrow a (hold a ha)]
          exact hids a ha
        · rw [hself]
          simp
      · intro c hc
        obtain ⟨i, hi⟩ := List.mem_iff_getElem?.mp hc
        rw [hrow _ (hold _ (h.creations i c hi).there)]
        exact hcreations c hc }

structure World.Creates (i : Nat) (c : Creation) (phase : CreationPhase) (w w' : World) :
    Prop where
  ids : w'.ids = w.ids
  executions : w'.executions = w.executions
  cleanup : w'.cleanup = w.cleanup
  orphans : w'.orphans = w.orphans
  creations : w'.creations = w.creations.set i { c with phase }
  others : ∀ a, a ≠ c.workspaceId → w'.row a = w.row a
  dir : (w'.row c.workspaceId).dir = (w.row c.workspaceId).dir
  referred : (w.row c.workspaceId).hasContainerRef = true →
    (w'.row c.workspaceId).hasContainerRef = true
  deleted : (w'.row c.workspaceId).worktreeDeleted = true →
    (w.row c.workspaceId).worktreeDeleted = true
  dirs : ∀ d ∈ w.dirs, d ∈ w'.dirs
  acts : w'.acts = w.acts ∨ w'.acts = w.acts ++ [.created (w.row c.workspaceId).dir]
  made : phase.busy = true → (w.row c.workspaceId).dir ∈ w'.dirs ∧
    WorkspaceExpiry.gone (w.row c.workspaceId).dir w'.acts = false
  stored : phase = .stored → (w'.row c.workspaceId).hasContainerRef = true
  found : w.orphans.found = some (w.row c.workspaceId).dir →
    (w'.row c.workspaceId).hasContainerRef = (w.row c.workspaceId).hasContainerRef ∧ phase ≠ .made
  flag : phase.busy = true ∨
    (c.phase.busy = false ∧ w'.row c.workspaceId = { w.row c.workspaceId with
      updatedAt := (w'.row c.workspaceId).updatedAt } ∧ w'.acts = w.acts) ∨
    (w'.row c.workspaceId).worktreeDeleted = false ∧
      WorkspaceExpiry.gone (w.row c.workspaceId).dir w'.acts = false
  present : (w'.row c.workspaceId).hasContainerRef = true →
    (w'.row c.workspaceId).worktreeDeleted = false → (w.row c.workspaceId).dir ∈ w'.dirs

variable {i : Nat} {c : Creation} {phase : CreationPhase}

namespace World

theorem Creates.gone (hstep : Creates i c phase w w') (dir : String) :
    WorkspaceExpiry.gone dir w'.acts = WorkspaceExpiry.gone dir w.acts ∨
      dir = (w.row c.workspaceId).dir ∧ WorkspaceExpiry.gone dir w'.acts = false := by
  obtain heq | heq := hstep.acts
  · exact .inl (by rw [heq])
  · rw [heq, gone_created]
    split
    · rename_i hdir
      exact .inr ⟨hdir.symm, rfl⟩
    · exact .inl rfl

theorem Inv.creates (h : w.Inv) (hc : w.creations[i]? = some c) (hphase : c.phase ≠ .done)
    (hstep : Creates i c phase w w') : w'.Inv := by
  have hknows := h.creations i c hc
  have hfree : ∀ a ∈ w.cleanup.held, a ≠ c.workspaceId := by
    intro a ha heq
    exact hphase ((h.held a ha).creations c (List.mem_of_getElem? hc) heq.symm)
  have hdir : ∀ a, (w'.row a).dir = (w.row a).dir := by
    intro a
    by_cases heq : a = c.workspaceId
    · rw [heq, hstep.dir]
    · rw [hstep.others a heq]
  have hdeleted : ∀ a, (w'.row a).worktreeDeleted = true → (w.row a).worktreeDeleted = true := by
    intro a
    by_cases heq : a = c.workspaceId
    · rw [heq]
      exact hstep.deleted
    · rw [hstep.others a heq]
      exact id
  have hreferred : ∀ a, (w.row a).hasContainerRef = true → (w'.row a).hasContainerRef = true := by
    intro a
    by_cases heq : a = c.workspaceId
    · rw [heq]
      exact hstep.referred
    · rw [hstep.others a heq]
      exact id
  have hother : ∀ a ∈ w.ids, a ≠ c.workspaceId →
      WorkspaceExpiry.gone (w.row a).dir w'.acts = WorkspaceExpiry.gone (w.row a).dir w.acts := by
    intro a ha hne
    obtain heq | ⟨heq, -⟩ := hstep.gone (w.row a).dir
    · exact heq
    · exact absurd (h.dirs a ha _ hknows.there heq) hne
  have hmarked : w.cleanup.marked ≠ some c.workspaceId := by
    exact fun hmarked => hfree c.workspaceId (Cleanup.mem_held hmarked) rfl
  have hbusy : ∀ a, (a ≠ c.workspaceId ∨ c.phase.busy = false ∨ phase.busy = true) →
      w.Busy a → w'.Busy a := by
    intro a hcase hbusy
    obtain hmark | ⟨j, d, hd, hda, hdbusy⟩ := hbusy
    · exact .inl (by rw [hstep.cleanup, hmark])
    · apply Or.inr
      by_cases hij : i = j
      · subst hij
        rw [hc] at hd
        cases hd
        apply Exists.intro i
        apply Exists.intro { c with phase }
        obtain ⟨hlt, -⟩ := List.getElem?_eq_some_iff.mp hc
        rw [hstep.creations, List.getElem?_set_self hlt]
        apply And.intro rfl
        apply And.intro hda
        obtain hne | hquiet | hnext := hcase
        · exact absurd hda.symm hne
        · rw [hquiet] at hdbusy
          cases hdbusy
        · exact hnext
      · apply Exists.intro j
        apply Exists.intro d
        rw [hstep.creations, List.getElem?_set_ne hij]
        exact ⟨hd, hda, hdbusy⟩
  have hgone : ∀ a ∈ w.ids, WorkspaceExpiry.gone (w.row a).dir w.acts = false →
      WorkspaceExpiry.gone (w.row a).dir w'.acts = false := by
    intro a _ hold
    obtain heq | ⟨-, heq⟩ := hstep.gone (w.row a).dir
    · rw [heq, hold]
    · exact heq
  have hcreation : ∀ (j : Nat) (d : Creation), w'.creations[j]? = some d →
      (d = { c with phase }) ∨ w.creations[j]? = some d := by
    intro j d hd
    rw [hstep.creations] at hd
    by_cases hij : i = j
    · subst hij
      obtain ⟨hlt, -⟩ := List.getElem?_eq_some_iff.mp hc
      rw [List.getElem?_set_self hlt] at hd
      exact .inl (Option.some.inj hd).symm
    · rw [List.getElem?_set_ne hij] at hd
      exact .inr hd
  exact {
    ids := by rw [hstep.ids]; exact h.ids
    dirs := by
      rw [hstep.ids]
      intro a ha b hb hab
      rw [hdir a, hdir b] at hab
      exact h.dirs a ha b hb hab
    gone := by
      rw [hstep.ids]
      intro dir hgonedir
      obtain heq | ⟨-, heq⟩ := hstep.gone dir
      · rw [heq] at hgonedir
        obtain ⟨a, ha, hadir⟩ := h.gone dir hgonedir
        exact ⟨a, ha, (hdir a).trans hadir⟩
      · rw [heq] at hgonedir
        cases hgonedir
    referred := by
      rw [hstep.ids]
      exact fun a ha hflag => hreferred a (h.referred a ha (hdeleted a hflag))
    flag := by
      rw [hstep.ids]
      intro a ha
      rw [hdir a]
      by_cases heq : a = c.workspaceId
      · subst heq
        obtain hnext | ⟨hquiet, hrow, hacts⟩ | ⟨hflag, hnone⟩ := hstep.flag
        · apply Or.inl
          apply Or.inr
          apply Exists.intro i
          apply Exists.intro { c with phase }
          obtain ⟨hlt, -⟩ := List.getElem?_eq_some_iff.mp hc
          rw [hstep.creations, List.getElem?_set_self hlt]
          exact ⟨rfl, rfl, hnext⟩
        · obtain hold | hiff := h.flag c.workspaceId ha
          · exact .inl (hbusy _ (.inr (.inl hquiet)) hold)
          · apply Or.inr
            rw [hrow, hacts]
            exact hiff
        · apply Or.inr
          rw [hflag, hnone]
      · obtain hold | hiff := h.flag a ha
        · exact .inl (hbusy a (.inl heq) hold)
        · apply Or.inr
          rw [hstep.others a heq, hother a ha heq]
          exact hiff
    present := by
      rw [hstep.ids, hstep.cleanup]
      intro a ha hhas hflag hunmarked
      rw [hdir a]
      by_cases heq : a = c.workspaceId
      · subst heq
        exact hstep.present hhas hflag
      · rw [hstep.others a heq] at hhas hflag
        exact hstep.dirs _ (h.present a ha hhas hflag hunmarked)
    creations := by
      intro j d hd
      obtain rfl | hold := hcreation j d hd
      · exact {
          there := by rw [hstep.ids]; exact hknows.there
          referred := fun hhad => hreferred _ (hknows.referred hhad)
          deleted := hknows.deleted
          flag := fun _ hflag => hknows.flag hphase (hdeleted _ hflag)
          made := by
            rw [hdir]
            exact hstep.made
          stored := hstep.stored }
      · have hd := h.creations j d hold
        exact {
          there := by rw [hstep.ids]; exact hd.there
          referred := fun hhad => hreferred _ (hd.referred hhad)
          deleted := hd.deleted
          flag := fun hopen hflag => hd.flag hopen (hdeleted _ hflag)
          made := by
            intro hdbusy
            rw [hdir]
            obtain ⟨hmem, hnone⟩ := hd.made hdbusy
            exact ⟨hstep.dirs _ hmem, hgone _ hd.there hnone⟩
          stored := fun hstored => hreferred _ (hd.stored hstored) }
    held := by
      rw [hstep.cleanup]
      intro a ha
      have hold := h.held a ha
      have hrow := hstep.others a (hfree a ha)
      exact {
        there := by rw [hstep.ids]; exact hold.there
        referred := by rw [hrow]; exact hold.referred
        flag := by rw [hrow]; exact hold.flag
        executions := by rw [hstep.executions]; exact hold.executions
        creations := by
          intro d hd hda
          obtain ⟨j, hj⟩ := List.mem_iff_getElem?.mp hd
          obtain rfl | hbefore := hcreation j d hj
          · exact absurd hda.symm (hfree a ha)
          · exact hold.creations d (List.mem_of_getElem? hbefore) hda }
    nodup := by rw [hstep.cleanup]; exact h.nodup
    marked := by
      rw [hstep.cleanup]
      intro a ha
      have hne : a ≠ c.workspaceId := fun heq => hmarked (heq ▸ ha)
      have hthere : a ∈ w.ids := (h.held a (Cleanup.mem_held ha)).there
      rw [hdir a, hother a hthere hne]
      exact h.marked a ha
    found := by
      rw [hstep.ids, hstep.orphans]
      intro path hpath
      obtain ⟨hids, hcreations⟩ := h.found path hpath
      apply And.intro
      · intro a ha hadir
        rw [hdir a] at hadir
        by_cases heq : a = c.workspaceId
        · subst heq
          rw [(hstep.found (by rw [hpath, hadir])).1]
          exact hids _ ha hadir
        · rw [hstep.others a heq]
          exact hids a ha hadir
      · intro d hd hmade hhad
        rw [hdir]
        obtain ⟨j, hj⟩ := List.mem_iff_getElem?.mp hd
        obtain rfl | hbefore := hcreation j d hj
        · intro hddir
          exact (hstep.found (by rw [hpath, ← hddir])).2 hmade
        · exact hcreations d (List.mem_of_getElem? hbefore) hmade hhad }

theorem Inv.quietCreation (h : w.Inv) (phase : CreationPhase)
    (hc : w.creations[i]? = some c) (hopen : c.phase ≠ .done) (hphase : c.phase.busy = false)
    (hnext : phase.busy = false) : (w.setCreation i c phase).Inv := by
  have hknows := h.creations i c hc
  apply h.creates hc hopen
  exact {
    ids := rfl, executions := rfl, cleanup := rfl, orphans := rfl, creations := rfl
    others := fun _ _ => rfl, dir := rfl, referred := id, deleted := id
    dirs := fun _ hd => hd, acts := .inl rfl
    made := by simp [hnext]
    stored := fun hstored => by simp [hstored, CreationPhase.busy] at hnext
    found := fun _ => ⟨rfl, fun hmade => by simp [hmade, CreationPhase.busy] at hnext⟩
    flag := .inr (.inl ⟨hphase, rfl, rfl⟩)
    present := by
      intro hhas hflag
      apply h.present _ hknows.there hhas hflag
      intro hmarked
      exact hopen ((h.held _ (Cleanup.mem_held hmarked)).creations c (List.mem_of_getElem? hc) rfl) }

theorem Inv.write (h : w.Inv) (reply : Reply) (f : Workspace → Workspace)
    (hf : ∀ ws, (f ws).dir = ws.dir ∧ (f ws).hasContainerRef = ws.hasContainerRef ∧
      (f ws).worktreeDeleted = ws.worktreeDeleted) : (w.write id reply f).Inv := by
  cases reply with
  | failed => exact h
  | ok => exact h.inert f hf
  | lost => exact h.inert f hf

theorem setRow_self (w : World) (id : Uuid) : w.setRow id (fun ws => ws) = w := by
  simp [setRow]

theorem Inv.goesOn (h : w.Inv) (phase : CreationPhase)
    (hc : w.creations[i]? = some c) (hbusy : c.phase.busy = true) (f : Workspace → Workspace)
    (hdir : ∀ ws, (f ws).dir = ws.dir)
    (hreferred : ∀ ws, ws.hasContainerRef = true → (f ws).hasContainerRef = true)
    (hdeleted : ∀ ws, (f ws).worktreeDeleted = true → ws.worktreeDeleted = true)
    (hstored : phase = .stored → (f (w.row c.workspaceId)).hasContainerRef = true)
    (hflag : phase.busy = true ∨ (f (w.row c.workspaceId)).worktreeDeleted = false) :
    ((w.setRow c.workspaceId f).setCreation i c phase).Inv := by
  have hknows := h.creations i c hc
  obtain ⟨hmem, hnone⟩ := hknows.made hbusy
  have hopen : c.phase ≠ .done := fun hdone => by simp [hdone, CreationPhase.busy] at hbusy
  have hrow : ((w.setRow c.workspaceId f).setCreation i c phase).row c.workspaceId =
      f (w.row c.workspaceId) := by
    simp [setRow, setCreation]
  apply h.creates hc hopen
  exact {
    ids := rfl, executions := rfl, cleanup := rfl, orphans := rfl, creations := rfl
    others := by
      intro a ha
      simp [setRow, setCreation, ha]
    dir := by rw [hrow]; exact hdir _
    referred := by rw [hrow]; exact hreferred _
    deleted := by rw [hrow]; exact hdeleted _
    dirs := fun _ hd => hd
    acts := .inl rfl
    made := fun _ => ⟨hmem, hnone⟩
    stored := by rw [hrow]; exact hstored
    found := by
      -- The orphan cleanup is at no directory that is made.
      intro hfound
      exfalso
      obtain ⟨hunreferred, hunmade⟩ := h.found _ hfound
      have hnone := hunreferred _ hknows.there rfl
      cases hphase : c.phase with
      | made =>
        apply hunmade c (List.mem_of_getElem? hc) hphase _ rfl
        cases hhad : c.hadContainerRef with
        | false => rfl
        | true => simp [hknows.referred hhad] at hnone
      | stored => simp [hknows.stored hphase] at hnone
      | loaded => simp [hphase, CreationPhase.busy] at hbusy
      | touched => simp [hphase, CreationPhase.busy] at hbusy
      | done => simp [hphase, CreationPhase.busy] at hbusy
    flag := by
      rw [hrow]
      exact hflag.imp id fun hfalse => .inr ⟨hfalse, hnone⟩
    present := fun _ _ => hmem }

theorem Inv.abandons (h : w.Inv) (hc : w.creations[i]? = some c)
    (hbusy : c.phase.busy = true) (hflag : (w.row c.workspaceId).worktreeDeleted = false) :
    (w.setCreation i c .done).Inv := by
  have hstep := h.goesOn .done hc hbusy (fun ws => ws) (fun _ => rfl) (fun _ hhas => hhas)
    (fun _ hdel => hdel) (by simp) (.inr hflag)
  rwa [setRow_self] at hstep

theorem Inv.make (h : w.Inv) (hc : w.creations[i]? = some c) (hphase : c.phase = .touched)
    (hfound : w.orphans.found ≠ some (w.row c.workspaceId).dir)
    (hnext : phase = .made ∨ phase = .done ∧ c.wasDeleted = false) :
    ((w.setDir (w.row c.workspaceId).dir).setCreation i c phase).Inv := by
  have hknows := h.creations i c hc
  have hopen : c.phase ≠ .done := by simp [hphase]
  apply h.creates hc hopen
  have hmem : (w.row c.workspaceId).dir ∈ (w.setDir (w.row c.workspaceId).dir).dirs := by
    simp only [setDir]
    split
    · assumption
    · exact List.mem_append_right _ (List.mem_singleton_self _)
  have hnone : WorkspaceExpiry.gone (w.row c.workspaceId).dir
      (w.setDir (w.row c.workspaceId).dir).acts = false := by
    simp [setDir, gone_created]
  exact {
    ids := rfl, executions := rfl, cleanup := rfl, orphans := rfl, creations := rfl
    others := fun _ _ => rfl, dir := rfl, referred := id, deleted := id
    dirs := by
      intro d hd
      show d ∈ (w.setDir _).dirs
      simp only [setDir]
      split
      · exact hd
      · exact List.mem_append_left _ hd
    acts := .inr rfl
    made := fun _ => ⟨hmem, hnone⟩
    stored := by
      intro hstored
      obtain heq | ⟨heq, -⟩ := hnext
      · rw [heq] at hstored
        cases hstored
      · rw [heq] at hstored
        cases hstored
    found := fun hat => absurd hat hfound
    flag := by
      obtain heq | ⟨heq, hkept⟩ := hnext
      · exact .inl (by rw [heq]; rfl)
      · apply Or.inr
        apply Or.inr
        apply And.intro _ hnone
        cases hflag : (w.row c.workspaceId).worktreeDeleted with
        | false => exact hflag
        | true =>
          rw [hknows.flag hopen hflag] at hkept
          cases hkept
    present := fun _ _ => hmem }

theorem Inv.creationStep (h : w.Inv) (hc : w.creations[i]? = some c)
    (move : CreationMove) (hok : w.okCreation c move = true) :
    (w.creationStep i c move).Inv := by
  have hknows := h.creations i c hc
  cases hphase : c.phase with
  | done => 
    simp only [World.creationStep, hphase]
    exact h
  | loaded =>
    have hopen : c.phase ≠ .done := by simp [hphase]
    have hbusy : c.phase.busy = false := by simp [hphase, CreationPhase.busy]
    cases move with
    | abort =>
      simp only [World.creationStep, hphase]
      exact h.quietCreation .done hc hopen hbusy rfl
    | touch debounced reply now =>
      simp only [World.creationStep, hphase]
      split
      · exact h.quietCreation .touched hc hopen hbusy rfl
      · have hwritten : (w.write c.workspaceId reply fun ws => { ws with updatedAt := now }).Inv :=
          h.write reply _ fun _ => ⟨rfl, rfl, rfl⟩
        apply hwritten.quietCreation _ _ hopen hbusy
        · split <;> rfl
        · cases reply <;> exact hc
    | make | store | clear =>
      simp only [World.creationStep, hphase]
      exact h
  | touched =>
    have hopen : c.phase ≠ .done := by simp [hphase]
    have hbusy : c.phase.busy = false := by simp [hphase, CreationPhase.busy]
    cases move with
    | abort =>
      simp only [World.creationStep, hphase]
      exact h.quietCreation .done hc hopen hbusy rfl
    | make result =>
      simp only [okCreation, hphase, decide_eq_true_eq] at hok
      cases result with
      | made =>
        simp only [World.creationStep, hphase]
        exact h.make hc hphase hok.1 (.inl rfl)
      | failed left =>
        simp only [World.creationStep, hphase]
        cases left with
        | true => exact h.make hc hphase hok.1 (.inr ⟨rfl, hok.2 rfl⟩)
        | false => exact h.quietCreation .done hc hopen hbusy rfl
    | touch | store | clear =>
      simp only [World.creationStep, hphase]
      exact h
  | made =>
    have hopen : c.phase ≠ .done := by simp [hphase]
    have hbusy : c.phase.busy = true := by simp [hphase, CreationPhase.busy]
    cases move with
    | abort =>
      simp only [okCreation, hphase, decide_eq_true_eq] at hok
      simp only [World.creationStep, hphase]
      apply h.abandons hc hbusy
      by_contra hflag
      rw [hknows.flag hopen (by simpa using hflag)] at hok
      cases hok
    | store reply now =>
      simp only [World.creationStep, hphase]
      split
      · rename_i hkept
        have hstep := h.goesOn .stored hc hbusy (fun ws => ws) (fun _ => rfl)
          (fun _ hhas => hhas) (fun _ hdel => hdel) (fun _ => hknows.referred hkept.2) (.inl rfl)
        rwa [setRow_self] at hstep
      · rename_i hfresh
        have hflag : (w.row c.workspaceId).worktreeDeleted = false := by
          by_contra hflag
          obtain ⟨hhad, hensure⟩ := hknows.deleted (hknows.flag hopen (by simpa using hflag))
          exact hfresh ⟨hensure, hhad⟩
        cases reply with
        | failed => exact h.abandons hc hbusy hflag
        | ok =>
          exact h.goesOn .stored hc hbusy _ (fun _ => rfl) (fun _ _ => rfl) (fun _ hdel => hdel)
            (fun _ => rfl) (.inl rfl)
        | lost =>
          exact h.goesOn .done hc hbusy _ (fun _ => rfl) (fun _ _ => rfl) (fun _ hdel => hdel)
            (fun _ => rfl) (.inr hflag)
    | touch | make | clear =>
      simp only [World.creationStep, hphase]
      exact h
  | stored =>
    have hopen : c.phase ≠ .done := by simp [hphase]
    have hbusy : c.phase.busy = true := by simp [hphase, CreationPhase.busy]
    cases move with
    | abort =>
      simp only [okCreation, hphase, decide_eq_true_eq] at hok
      simp only [World.creationStep, hphase]
      apply h.abandons hc hbusy
      by_contra hflag
      rw [hknows.flag hopen (by simpa using hflag)] at hok
      cases hok
    | clear reply now =>
      simp only [okCreation, hphase, decide_eq_true_eq] at hok
      simp only [World.creationStep, hphase]
      split
      · rename_i hcleared
        cases reply with
        | failed => exact absurd rfl (hok hcleared.2)
        | ok =>
          exact h.goesOn .done hc hbusy _ (fun _ => rfl) (fun _ hhas => hhas) (by simp) (by simp)
            (.inr rfl)
        | lost =>
          exact h.goesOn .done hc hbusy _ (fun _ => rfl) (fun _ hhas => hhas) (by simp) (by simp)
            (.inr rfl)
      · rename_i hkept
        apply h.abandons hc hbusy
        by_contra hflag
        have hwas := hknows.flag hopen (by simpa using hflag)
        exact hkept ⟨(hknows.deleted hwas).2, hwas⟩
    | touch | make | store =>
      simp only [World.creationStep, hphase]
      exact h

end World

namespace World

section
variable (h : w.Inv)
include h

theorem Inv.executions (executions : List Execution)
    (hheld : ∀ id ∈ w.cleanup.held, ∀ e ∈ executions, e.workspaceId = id →
      e.completedAt ≠ none) : Inv { w with executions } :=
  { h with
    creations := fun i c hc => { h.creations i c hc with }
    held := fun id hid => { h.held id hid with executions := hheld id hid } }

theorem Inv.loops (cleanup : Cleanup) (hmarked : w.cleanup.marked = none)
    (hnext : cleanup.marked = none) (hnodup : cleanup.held.Nodup)
    (hheld : ∀ id ∈ cleanup.held, w.Held id) : Inv { w with cleanup } :=
  { h with
    flag := by
      intro id hid
      obtain hmark | hcreation := h.flag id hid
      · apply Or.inl
        obtain hmark | hcreation := hmark
        · rw [hmarked] at hmark
          cases hmark
        · exact .inr hcreation
      · exact .inr hcreation
    present := fun id hid hhas hflag _ => h.present id hid hhas hflag (by simp [hmarked])
    creations := fun i c hc => { h.creations i c hc with }
    held := fun id hid => { hheld id hid with }
    nodup := hnodup
    marked := by simp [hnext] }

theorem Inv.query (hcleanup : w.cleanup = .looping []) (now : Time) (localOffset : Int)
    (hok : ∀ c ∈ w.creations, c.phase ≠ .done →
      c.workspaceId ∉ w.findExpiredForCleanup now localOffset) :
    Inv { w with cleanup := .looping (w.findExpiredForCleanup now localOffset) } := by
  have hperm := List.perm_insertionSort
    (fun a b => (w.completions a).max?.getD 0 ≤ (w.completions b).max?.getD 0)
    (w.ids.filter fun id => w.expired now localOffset id)
  apply h.loops
  · rw [hcleanup]
    rfl
  · rfl
  · exact hperm.nodup_iff.mpr (h.ids.filter _)
  · intro id hid
    obtain ⟨hthere, hexpired⟩ := List.mem_filter.mp (hperm.mem_iff.mp hid)
    obtain ⟨hreferred, hflag, hcompleted, -⟩ := of_decide_eq_true hexpired
    exact {
      there := hthere
      referred := hreferred
      flag := hflag
      executions := by
        intro e he heq hnone
        have hall := List.all_eq_true.mp hcompleted e he
        simp [heq, hnone] at hall
      creations := by
        intro c hc heq
        by_contra hopen
        exact hok c hc hopen (heq ▸ hid) }

theorem Inv.next (hcleanup : w.cleanup = .looping (id :: todo)) :
    Inv { w with cleanup := .deleting id todo } ∧
      Inv { w with cleanup := .looping todo } := by
  have hheld := h.held
  have hnodup := h.nodup
  rw [hcleanup] at hheld hnodup
  have hmarked : w.cleanup.marked = none := by rw [hcleanup]; rfl
  apply And.intro
  · exact h.loops _ hmarked rfl hnodup hheld
  · exact h.loops _ hmarked rfl (List.nodup_cons.mp hnodup).2 fun a ha =>
      hheld a (List.mem_cons_of_mem id ha)

theorem Inv.remove (hcleanup : w.cleanup = .deleting id todo) :
    (w.row id).dir ∈ w.dirs ∧
    Inv { w with
      cleanup := .marking id todo
      dirs := w.dirs.filter fun d => d ≠ (w.row id).dir
      acts := w.acts ++ [.removed (w.row id).dir] } := by
  have hid : id ∈ w.cleanup.held := by rw [hcleanup]; exact List.mem_cons_self
  have hheld := h.held id hid
  have hmarked : ∀ a, w.cleanup.marked ≠ some a := by simp [hcleanup, Cleanup.marked]
  apply And.intro (h.present id hheld.there hheld.referred hheld.flag (hmarked id))
  have hother : ∀ a ∈ w.ids, a ≠ id → (w.row a).dir ≠ (w.row id).dir :=
    fun a ha hne heq => hne (h.dirs a ha id hheld.there heq)
  have hgone : ∀ a ∈ w.ids, a ≠ id →
      WorkspaceExpiry.gone (w.row a).dir (w.acts ++ [.removed (w.row id).dir]) =
        WorkspaceExpiry.gone (w.row a).dir w.acts := by
    intro a ha hne
    rw [gone_removed, if_neg fun heq => hother a ha hne heq.symm]
  exact {
    ids := h.ids
    dirs := h.dirs
    gone := by
      intro dir hdir
      rw [gone_removed] at hdir
      split at hdir
      · rename_i heq
        exact ⟨id, hheld.there, heq⟩
      · exact h.gone dir hdir
    referred := h.referred
    flag := by
      intro a ha
      by_cases heq : a = id
      · exact .inl (.inl (by rw [heq]; rfl))
      · obtain hmark | hiff := h.flag a ha
        · obtain hmark | hcreation := hmark
          · exact absurd hmark (hmarked a)
          · exact .inl (.inr hcreation)
        · exact .inr (hiff.trans (by rw [hgone a ha heq]))
    present := by
      intro a ha hhas hflag hunmarked
      have hne : a ≠ id := fun heq => hunmarked (by rw [heq]; rfl)
      apply List.mem_filter.mpr
      exact ⟨h.present a ha hhas hflag (hmarked a), by simpa using hother a ha hne⟩
    creations := by
      intro i c hc
      have hknows := h.creations i c hc
      exact { hknows with
        made := by
          intro hbusy
          obtain ⟨hmem, hnone⟩ := hknows.made hbusy
          have hne : c.workspaceId ≠ id := by
            intro heq
            have hdone := hheld.creations c (List.mem_of_getElem? hc) heq
            simp [hdone, CreationPhase.busy] at hbusy
          apply And.intro
          · apply List.mem_filter.mpr
            exact ⟨hmem, by simpa using hother _ hknows.there hne⟩
          · exact (hgone _ hknows.there hne).trans hnone }
    held := by
      intro a ha
      have hbefore : a ∈ w.cleanup.held := by rw [hcleanup]; exact ha
      exact { h.held a hbefore with }
    nodup := by
      have hnodup := h.nodup
      rw [hcleanup] at hnodup
      exact hnodup
    marked := by
      intro a ha
      cases ha
      simp [gone_removed]
    found := h.found }

theorem Inv.mark (hcleanup : w.cleanup = .marking id todo) (f : Workspace → Workspace)
    (hf : ∀ ws, (f ws).dir = ws.dir ∧ (f ws).hasContainerRef = ws.hasContainerRef ∧
      (f ws).worktreeDeleted = true) :
    Inv (setRow id f { w with cleanup := .looping todo }) := by
  have hid : id ∈ w.cleanup.held := by rw [hcleanup]; exact List.mem_cons_self
  have hheld := h.held id hid
  have hnodup := h.nodup
  rw [hcleanup] at hnodup
  have hgone := h.marked id (by rw [hcleanup]; rfl)
  have hmarked : ∀ a, a ≠ id → w.cleanup.marked ≠ some a := by
    intro a ha
    simp [hcleanup, Cleanup.marked, ha.symm]
  have hrow : ∀ a, a ≠ id →
      (setRow id f { w with cleanup := .looping todo }).row a = w.row a := by
    intro a ha
    simp [setRow, ha]
  have hself : (setRow id f { w with cleanup := .looping todo }).row id = f (w.row id) := by
    simp [setRow]
  have hdir : ∀ a, ((setRow id f { w with cleanup := .looping todo }).row a).dir =
      (w.row a).dir := by
    intro a
    by_cases heq : a = id
    · rw [heq, hself, (hf _).1]
    · rw [hrow a heq]
  have hhas : ∀ a,
      ((setRow id f { w with cleanup := .looping todo }).row a).hasContainerRef =
        (w.row a).hasContainerRef := by
    intro a
    by_cases heq : a = id
    · rw [heq, hself, (hf _).2.1]
    · rw [hrow a heq]
  exact {
    ids := h.ids
    dirs := by
      intro a ha b hb hab
      rw [hdir a, hdir b] at hab
      exact h.dirs a ha b hb hab
    gone := by
      intro dir hdirgone
      obtain ⟨a, ha, heq⟩ := h.gone dir hdirgone
      exact ⟨a, ha, (hdir a).trans heq⟩
    referred := by
      intro a ha
      rw [hhas a]
      by_cases heq : a = id
      · rw [heq]
        exact fun _ => hheld.referred
      · rw [hrow a heq]
        exact h.referred a ha
    flag := by
      intro a ha
      rw [hdir a]
      by_cases heq : a = id
      · apply Or.inr
        rw [heq, hself, (hf _).2.2]
        exact ⟨fun _ => hgone, fun _ => rfl⟩
      · rw [hrow a heq]
        obtain hmark | hiff := h.flag a ha
        · obtain hmark | hcreation := hmark
          · exact absurd hmark (hmarked a heq)
          · exact .inl (.inr hcreation)
        · exact .inr hiff
    present := by
      intro a ha
      rw [hhas a, hdir a]
      by_cases heq : a = id
      · rw [heq, hself, (hf _).2.2]
        simp
      · rw [hrow a heq]
        exact fun hreferred hflag _ => h.present a ha hreferred hflag (hmarked a heq)
    creations := by
      intro i c hc
      have hknows := h.creations i c hc
      exact {
        there := hknows.there
        referred := by rw [hhas]; exact hknows.referred
        deleted := hknows.deleted
        flag := by
          intro hopen
          have hne : c.workspaceId ≠ id :=
            fun heq => hopen (hheld.creations c (List.mem_of_getElem? hc) heq)
          rw [hrow _ hne]
          exact hknows.flag hopen
        made := by rw [hdir]; exact hknows.made
        stored := by rw [hhas]; exact hknows.stored }
    held := by
      intro a ha
      have hne : a ≠ id := fun heq => (List.nodup_cons.mp hnodup).1 (heq ▸ ha)
      have hold := h.held a (by rw [hcleanup]; exact List.mem_cons_of_mem id ha)
      exact {
        there := hold.there
        referred := by rw [hhas]; exact hold.referred
        flag := by rw [hrow a hne]; exact hold.flag
        executions := hold.executions
        creations := hold.creations }
    nodup := (List.nodup_cons.mp hnodup).2
    marked := by simp [setRow, Cleanup.marked]
    found := by
      intro path hpath
      obtain ⟨hids, hcreations⟩ := h.found path hpath
      apply And.intro
      · intro a ha
        rw [hdir a, hhas a]
        exact hids a ha
      · intro c hc
        rw [hdir]
        exact hcreations c hc }

theorem Inv.orphans (orphans : Orphans) (hfound : ∀ path, orphans.found = some path →
      (∀ id ∈ w.ids, (w.row id).dir = path → (w.row id).hasContainerRef = false) ∧
      ∀ c ∈ w.creations, c.phase = .made → c.hadContainerRef = false →
        (w.row c.workspaceId).dir ≠ path) : Inv { w with orphans } :=
  { h with
    creations := fun i c hc => { h.creations i c hc with }
    held := fun id hid => { h.held id hid with }
    found := hfound }

theorem Inv.removeOrphan (hfound : w.orphans.found = some path) :
    Inv { w with dirs := w.dirs.filter fun d => d ≠ path } := by
  obtain ⟨hids, hmade⟩ := h.found path hfound
  exact { h with
    present := by
      intro id hid hhas hflag hmarked
      apply List.mem_filter.mpr
      apply And.intro (h.present id hid hhas hflag hmarked)
      have hne : (w.row id).dir ≠ path := by
        intro heq
        rw [hids id hid heq] at hhas
        cases hhas
      simpa using hne
    creations := by
      intro i c hc
      have hknows := h.creations i c hc
      exact { hknows with
        made := by
          intro hbusy
          obtain ⟨hmem, hnone⟩ := hknows.made hbusy
          apply And.intro _ hnone
          apply List.mem_filter.mpr
          apply And.intro hmem
          have hne : (w.row c.workspaceId).dir ≠ path := by
            intro heq
            have hunreferred := hids _ hknows.there heq
            cases hphase : c.phase with
            | made =>
              apply hmade c (List.mem_of_getElem? hc) hphase _ heq
              cases hhad : c.hadContainerRef with
              | false => rfl
              | true => simp [hknows.referred hhad] at hunreferred
            | stored => simp [hknows.stored hphase] at hunreferred
            | loaded => simp [hphase, CreationPhase.busy] at hbusy
            | touched => simp [hphase, CreationPhase.busy] at hbusy
            | done => simp [hphase, CreationPhase.busy] at hbusy
          simpa using hne }
    held := fun id hid => { h.held id hid with } }

theorem Inv.load (kind : CreationKind) (hid : id ∈ w.ids)
    (hheld : id ∉ w.cleanup.held) (hkind : kind = .create → (w.row id).worktreeDeleted = false)
    (hphase : phase.busy = false) :
    Inv { w with
      creations := w.creations ++
        [⟨kind, id, (w.row id).hasContainerRef, (w.row id).worktreeDeleted, phase⟩] } := by
  have hcreation : ∀ (i : Nat) (c : Creation),
      (w.creations ++
        [⟨kind, id, (w.row id).hasContainerRef, (w.row id).worktreeDeleted, phase⟩])[i]? = some c →
      w.creations[i]? = some c ∨
        c = ⟨kind, id, (w.row id).hasContainerRef, (w.row id).worktreeDeleted, phase⟩ := by
    intro i c hc
    rcases Nat.lt_or_ge i w.creations.length with hlt | hge
    · rw [List.getElem?_append_left hlt] at hc
      exact .inl hc
    · rw [List.getElem?_append_right hge] at hc
      exact .inr (List.mem_singleton.mp (List.mem_of_getElem? hc))
  exact { h with
    flag := by
      intro a ha
      obtain hbusy | hiff := h.flag a ha
      · obtain hmark | ⟨i, c, hc, hca, hcbusy⟩ := hbusy
        · exact .inl (.inl hmark)
        · apply Or.inl
          apply Or.inr
          apply Exists.intro i
          apply Exists.intro c
          obtain ⟨hlt, -⟩ := List.getElem?_eq_some_iff.mp hc
          exact ⟨by rw [List.getElem?_append_left hlt, hc], hca, hcbusy⟩
      · exact .inr hiff
    creations := by
      intro i c hc
      obtain hold | rfl := hcreation i c hc
      · exact { h.creations i c hold with }
      · exact {
          there := hid
          referred := fun hhas => hhas
          deleted := by
            intro hflag
            apply And.intro (h.referred id hid hflag)
            cases kind with
            | create =>
              rw [hkind rfl] at hflag
              cases hflag
            | ensure => rfl
          flag := fun _ hflag => hflag
          made := by simp [hphase]
          stored := by
            intro hstored
            have hstored : phase = .stored := hstored
            rw [hstored] at hphase
            cases hphase }
    held := by
      intro a ha
      have hold := h.held a ha
      exact { hold with
        creations := by
          intro c hc hca
          obtain hmem | hmem := List.mem_append.mp hc
          · exact hold.creations c hmem hca
          · rw [List.mem_singleton.mp hmem] at hca
            have hca : id = a := hca
            exact absurd (hca.symm ▸ ha) hheld }
    found := by
      intro path hpath
      obtain ⟨hids, hmade⟩ := h.found path hpath
      apply And.intro hids
      intro c hc hcmade
      obtain hmem | hmem := List.mem_append.mp hc
      · exact hmade c hmem hcmade
      · rw [List.mem_singleton.mp hmem] at hcmade
        have hcmade : phase = .made := hcmade
        rw [hcmade] at hphase
        cases hphase }

end

end World

namespace World

theorem Inv.exec (h : w.Inv) (event : Event) (hok : w.ok event = true) :
    (w.exec event).Inv := by
  cases event with
  | insert id dir useWorktree now =>
    simp only [ok, List.all_eq_true, decide_eq_true_eq] at hok
    simp only [World.exec]
    split
    · exact h
    · rename_i hnew
      exact h.insert hnew hok useWorktree now
  | touch id now =>
    exact h.inert (fun ws => { ws with updatedAt := now }) fun _ => ⟨rfl, rfl, rfl⟩
  | archive id => exact h.inert (fun ws => { ws with archived := true }) fun _ => ⟨rfl, rfl, rfl⟩
  | load kind id =>
    obtain ⟨hheld, hkind⟩ := of_decide_eq_true hok
    simp only [World.exec]
    split
    · rename_i hload
      apply h.load kind hload.1 hheld hkind
      split <;> rfl
    · exact h
  | creation i move =>
    simp only [World.exec]
    simp only [ok] at hok
    split
    · rename_i c hc
      rw [hc] at hok
      exact h.creationStep hc move hok
    · exact h
  | start id =>
    have hheld : id ∉ w.cleanup.held := of_decide_eq_true hok
    simp only [World.exec]
    split
    · apply h.executions
      intro a ha e he heq
      obtain hmem | hmem := List.mem_append.mp he
      · exact (h.held a ha).executions e hmem heq
      · rw [List.mem_singleton.mp hmem] at heq
        have heq : id = a := heq
        exact absurd (heq.symm ▸ ha) hheld
    · exact h
  | complete i now =>
    simp only [World.exec]
    split
    · rename_i e hget
      apply h.executions
      intro a ha e' he' heq
      obtain hold | hnew := List.mem_or_eq_of_mem_set he'
      · exact (h.held a ha).executions e' hold heq
      · rw [hnew]
        cases e.completedAt <;> simp
    · exact h
  | query reply now localOffset =>
    simp only [ok, List.all_eq_true, decide_eq_true_eq] at hok
    simp only [World.exec]
    split
    · rename_i hcleanup
      split
      · exact h.query hcleanup now localOffset hok
      · exact h
    · exact h
  | next =>
    simp only [World.exec]
    split
    · rename_i id todo hcleanup
      split
      · exact (h.next hcleanup).1
      · exact (h.next hcleanup).2
    · exact h
  | remove removed =>
    have hremoved : removed = true := hok
    simp only [World.exec]
    split
    · rename_i id todo hcleanup
      obtain ⟨hmem, hinv⟩ := h.remove hcleanup
      rw [if_pos ⟨hmem, hremoved⟩]
      exact hinv
    · exact h
  | mark reply now =>
    have hreply : reply ≠ .failed := of_decide_eq_true hok
    simp only [World.exec]
    split
    · rename_i id todo hcleanup
      have hinv := h.mark hcleanup
        (fun ws => { ws with worktreeDeleted := true, updatedAt := now }) fun _ => ⟨rfl, rfl, rfl⟩
      cases reply with
      | failed => exact absurd rfl hreply
      | ok => exact hinv
      | lost => exact hinv
    · exact h
  | readDir entries =>
    simp only [World.exec]
    split
    · exact h.orphans _ (by simp [Orphans.found])
    · exact h
  | look reply =>
    simp only [World.exec]
    simp only [ok] at hok
    split
    · rename_i path entries horphans
      rw [horphans] at hok
      simp only [List.all_eq_true, decide_eq_true_eq] at hok
      split
      · rename_i hlook
        apply h.orphans
        intro p hp
        cases hp
        apply And.intro
        · intro id hid hdir
          have hall := List.all_eq_true.mp hlook.2.2 id hid
          cases hhas : (w.row id).hasContainerRef with
          | false => rfl
          | true => simp [hhas, hdir] at hall
        · intro c hc hmade hhad hdir
          exact hok c hc ⟨hmade, hhad, hdir⟩
      · exact h.orphans _ (by simp [Orphans.found])
    · exact h
  | removeOrphan removed =>
    simp only [World.exec]
    split
    · rename_i path entries horphans
      split
      · exact (h.removeOrphan (by rw [horphans]; rfl)).orphans _ (by simp [Orphans.found])
      · exact h.orphans _ (by simp [Orphans.found])
    · exact h

theorem inv_new : new.Inv where
  ids := List.nodup_nil
  dirs := by simp [new]
  gone := by simp [new, WorkspaceExpiry.gone]
  referred := by simp [new]
  flag := by simp [new]
  present := by simp [new]
  creations := by simp [new]
  held := by simp [new, Cleanup.held]
  nodup := by simp [new, Cleanup.held]
  marked := by simp [new, Cleanup.marked]
  found := by simp [new, Orphans.found]

theorem Inv.spares (h : w.Inv) (hdeletes : w.deletes path = true) :
    w.inUse path = false := by
  cases hinUse : w.inUse path with
  | false => rfl
  | true =>
    exfalso
    -- Who uses the directory, and which cleanup is at it.
    have huse : (∃ id ∈ w.ids, (w.row id).dir = path ∧ (w.row id).hasContainerRef = true ∧
          ∃ e ∈ w.executions, e.workspaceId = id ∧ e.completedAt = none) ∨
        ∃ c ∈ w.creations, (w.row c.workspaceId).dir = path ∧ c.phase = .made ∧
          c.hadContainerRef = false := by
      simpa [inUse, and_assoc] using hinUse
    have hat : (∃ id todo, w.cleanup = .deleting id todo ∧ (w.row id).dir = path) ∨
        w.orphans.found = some path := by
      obtain hexpired | horphan := Bool.or_eq_true_iff.mp hdeletes
      · split at hexpired
        · rename_i id todo hcleanup
          exact .inl ⟨id, todo, hcleanup, of_decide_eq_true hexpired⟩
        · cases hexpired
      · split at horphan
        · rename_i p entries horphans
          apply Or.inr
          rw [horphans, Orphans.found, of_decide_eq_true horphan]
        · cases horphan
    obtain ⟨id, todo, hcleanup, hdir⟩ | hfound := hat
    · have hheld := h.held id (by rw [hcleanup]; exact List.mem_cons_self)
      obtain ⟨a, ha, hadir, -, e, he, hea, hrunning⟩ | ⟨c, hc, hcdir, hmade, -⟩ := huse
      · have heq := h.dirs a ha id hheld.there (hadir.trans hdir.symm)
        exact hheld.executions e he (hea.trans heq) hrunning
      · obtain ⟨i, hi⟩ := List.mem_iff_getElem?.mp hc
        have hthere := (h.creations i c hi).there
        have heq := h.dirs _ hthere id hheld.there (hcdir.trans hdir.symm)
        rw [hheld.creations c hc heq] at hmade
        cases hmade
    · obtain ⟨hids, hunmade⟩ := h.found path hfound
      obtain ⟨a, ha, hadir, hhas, -⟩ | ⟨c, hc, hcdir, hmade, hhad⟩ := huse
      · rw [hids a ha hadir] at hhas
        cases hhas
      · exact hunmade c hc hmade hhad hcdir

end World

end Steps

/-- No cleanup is at a directory in use, and when all is done the flags say which directories are
gone, in a run in which the directories have one workspace each, no call or start for a workspace
comes between the query that finds it and the write of its flag, removals and writes succeed, and
the orphan cleanup does not look at a directory in the making. -/
theorem cleanup_spares_in_use (events : List Event)
    (hrun : Run.Each World.exec (fun w event => w.ok event = true) World.new events) :
    let w := Run.run World.exec World.new events
    (∀ path, w.deletes path = true → w.inUse path = false) ∧
    (w.quiet = true → ∀ id ∈ w.ids,
      ((w.row id).worktreeDeleted = true ↔ gone (w.row id).dir w.acts = true)) := by
  intro w
  have hinv : w.Inv :=
    hrun.preserves (P := World.Inv) (fun _ event h hok => h.exec event hok) World.inv_new
  apply And.intro
  · exact fun path hdeletes => hinv.spares hdeletes
  · intro hquiet id hid
    obtain ⟨hheld, hdone⟩ := of_decide_eq_true hquiet
    obtain hbusy | hiff := hinv.flag id hid
    · obtain hmarked | ⟨i, c, hc, -, hcbusy⟩ := hbusy
      · have hmem := Cleanup.mem_held hmarked
        rw [hheld] at hmem
        cases hmem
      · have hphase := List.all_eq_true.mp hdone c (List.mem_of_getElem? hc)
        simp [of_decide_eq_true hphase, CreationPhase.busy] at hcbusy
    · exact hiff

theorem cleanup_spares_in_use_sample :
    let events : List Event :=
      [.insert 1 "0001-task" true 0, .load .create 1, .creation 0 (.make .made),
        .creation 0 (.store .ok 1), .creation 0 (.clear .ok 1), .start 1, .complete 0 2,
        .query .ok 300000 0, .next, .remove true, .mark .ok 300001]
    let w := Run.run World.exec World.new events
    (∀ path, w.deletes path = true → w.inUse path = false) ∧
      (w.row 1).worktreeDeleted = true := by
  intro events w
  have hsound := cleanup_spares_in_use events (by decide +kernel)
  apply And.intro hsound.1
  exact (hsound.2 (by decide +kernel) 1 (by decide +kernel)).mpr (by decide +kernel)

/-- A workspace that the query found is cleaned up though an execution of it was started since; a
directory goes before its `container_ref` is stored; and the flag is set on a directory that was
made anew before it was written. -/
theorem cleanup_removes_in_use :
    let created : List Event :=
      [.insert 1 "0001-task" true 0, .load .create 1, .creation 0 (.make .made),
        .creation 0 (.store .ok 1), .creation 0 (.clear .ok 1), .start 1, .complete 0 2]
    let ensured : List Event :=
      [.load .ensure 1, .creation 1 (.touch false .ok 300001), .creation 1 (.make .made),
        .creation 1 (.store .ok 300001), .creation 1 (.clear .ok 300001)]
    let started := Run.run World.exec World.new
      (created ++ [.query .ok 300000 0] ++ ensured ++ [.start 1, .next])
    let creating := Run.run World.exec World.new
      [.insert 1 "0001-task" true 0, .load .create 1, .creation 0 (.make .made),
        .readDir ["0001-task"], .look .ok]
    let restored := Run.run World.exec World.new
      (created ++ [.query .ok 300000 0, .next, .remove true] ++ ensured ++ [.mark .ok 300002])
    (started.deletes "0001-task" = true ∧ started.inUse "0001-task" = true) ∧
      (creating.deletes "0001-task" = true ∧ creating.inUse "0001-task" = true) ∧
      restored.quiet = true ∧ (restored.row 1).worktreeDeleted = true ∧
      gone "0001-task" restored.acts = false := by
  decide +kernel

end Cdesktop.WorkspaceExpiry
