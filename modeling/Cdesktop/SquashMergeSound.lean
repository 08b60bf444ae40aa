import Cdesktop.SquashMerge

namespace Cdesktop.SquashMerge
open MergeChanges
set_option autoImplicit true

theorem run_bind_ok {x : ExceptT ε (StateM World) α} {f : α → ExceptT ε (StateM World) β}
    (h : x w = (.ok a, w')) : (x >>= f) w = f a w' := by
  change (ExceptT.bindCont f (x w).1) (x w).2 = _
  rw [h]
  rfl

theorem run_bind_error {x : ExceptT ε (StateM World) α} {f : α → ExceptT ε (StateM World) β}
    (h : x w = (.error e, w')) : (x >>= f) w = (.error e, w') := by
  change (ExceptT.bindCont f (x w).1) (x w).2 = _
  rw [h]
  rfl

theorem run_adapt {x : Cli α} {f : String → GitServiceError} (h : x w = (r, w')) :
    (x.adapt f : Git α) w = (r.mapError f, w') := by
  change (((x w).1.mapError f), (x w).2) = _
  rw [h]

section
variable {u : Surroundings} {w w' : World}

variable {error : String → ε} {f : Unit → ExceptT ε (StateM World) α} {p : Reading α}

theorem allow_ok [MonadExceptOf ε m] [Pure m] (h : u.fails step = false) :
    (u.allow step error : m Unit) = pure () := by
  rw [Surroundings.allow, Option.isNone_iff_eq_none.1 (Option.isSome_eq_false_iff.1 h)]

theorem allow_error [MonadExceptOf ε m] [Pure m] (h : u.fails step = true) :
    ∃ message, (u.allow step error : m Unit) = throw (error message) := by
  obtain ⟨message, hmessage⟩ := Option.isSome_iff_exists.1 h
  exact ⟨message, by rw [Surroundings.allow, hmessage]⟩

theorem run_allow_ok (h : u.fails step = false) : (u.allow step error >>= f) w = f () w := by
  rw [allow_ok h]
  rfl

theorem run_allow_error
    (h : u.fails step = true) : ∃ e, (u.allow step error >>= f) w = (.error e, w) := by
  obtain ⟨message, hmessage⟩ :
      ∃ message, (u.allow step error : ExceptT ε (StateM World) Unit) = throw (error message) :=
    allow_error h
  rw [hmessage]
  exact ⟨_, rfl⟩

theorem state_of_refused
    (h : u.fails step = true) (hrun : (u.allow step error >>= f) w = (r, w')) : w' = w := by
  obtain ⟨e, he⟩ : ∃ e, (u.allow step error >>= f) w = (.error e, w) := run_allow_error h
  rw [he] at hrun
  cases hrun
  rfl

theorem Unchanged.refl (c : Call) (w : World) : Unchanged c w w :=
  ⟨rfl, rfl, fun _ => rfl, fun _ => rfl, fun _ => rfl, fun _ => rfl⟩

theorem setWorktree_self (w : World) (path : String) : w.setWorktree path (w.worktree path) = w := by
  rw [World.setWorktree, Function.update_eq_self]

theorem setWorktree_of_index (h : index = (w.worktree path).index) :
    w.setWorktree path { w.worktree path with index } = w := by
  rw [h]
  exact setWorktree_self w path

@[simp] theorem worktree_setWorktree (w : World) (path : String) (worktree : Worktree) :
    (w.setWorktree path worktree).worktree path = worktree := Function.update_self _ _ _

theorem unchanged_identity {c : Call} {b : Bool} (h : Unchanged c { w with identity := b } w') :
    Unchanged c w w' := ⟨h.base, h.task, h.branch, h.index, h.head, h.unmerged⟩

theorem branches_ne_new (w : World) (name : String) : w.branches name ≠ some w.commits.length :=
  fun h => Nat.lt_irrefl _ (w.tips name _ h)

theorem checkout_ok (hcheckout : u.fails .checkout = false)
    (hbranch : (w.worktree path).branch = some base) (htip : w.branches base = some tip) :
    checkout u path base w = (.ok (), w) := by
  rw [checkout, run_allow_ok hcheckout, run_bind_ok (show (get : Cli World) w = (.ok w, w) from rfl)]
  simp only [htip, if_pos hbranch]
  rfl

theorem checkout_error (h : u.fails .checkout = true ∨ w.branches base = none) :
    ∃ e, checkout u path base w = (.error e, w) := by
  rw [checkout]
  by_cases hcheckout : u.fails .checkout = true
  · exact run_allow_error hcheckout
  · rw [run_allow_ok (Bool.eq_false_iff.2 hcheckout),
      run_bind_ok (show (get : Cli World) w = (.ok w, w) from rfl)]
    simp only [h.resolve_left hcheckout]
    exact ⟨_, rfl⟩

theorem mergeSquash_eq (h : u.fails .mergeSquash = false) :
    mergeSquash u path task w =
      match squash u path task w with
      | none => (.error "not something we can merge", w)
      | some (.ok index) => (.ok (), w.setWorktree path { w.worktree path with index })
      | some (.error conflicts) =>
        (.error "Automatic merge failed; fix conflicts and then commit the result.",
          w.setWorktree path
            { w.worktree path with index := conflicts.index, unmerged := conflicts.unmerged }) := by
  rw [mergeSquash, run_allow_ok h, run_bind_ok (show (get : Cli World) w = (.ok w, w) from rfl)]
  cases squash u path task w with
  | none => rfl
  | some merged => cases merged <;> rfl

theorem mergeSquash_error (h : u.fails .mergeSquash = true) :
    ∃ e, mergeSquash u path task w = (.error e, w) := by
  rw [mergeSquash]
  exact run_allow_error h

theorem commit_cases (u : Surroundings) (path message : String) (w : World) :
    (∃ e, commit u path message w = (.error e, w.setWorktree path
      { w.worktree path with index := leftStaged u (w.worktree path).index })) ∨
    leftStaged u (w.worktree path).index ≠ w.headTree path ∧
      ∃ w', commit u path message w = (.ok (), w') ∧
        ∀ name, (w.worktree path).branch = some name → w'.branches name = some w.commits.length := by
  rw [commit]
  by_cases hcommit : u.fails .commit = true
  · rw [leftStaged, if_pos hcommit, setWorktree_self]
    exact .inl (run_allow_error hcommit)
  rw [run_allow_ok (Bool.eq_false_iff.2 hcommit), leftStaged, if_neg hcommit,
    run_bind_ok (show (get : Cli World) w = (.ok w, w) from rfl)]
  cases hhooks : u.hooks (w.worktree path).index with
  | mk index refused =>
    cases refused with
    | some reason => exact .inl ⟨_, rfl⟩
    | none =>
      by_cases hindex : index = w.headTree path
      · simp only [if_pos hindex]
        exact .inl ⟨_, rfl⟩
      · right
        apply And.intro hindex
        simp only [if_neg hindex]
        cases hbranch : (w.worktree path).branch with
        | none => exact ⟨_, rfl, fun name hname => nomatch hname⟩
        | some name =>
          apply Exists.intro
          apply And.intro rfl
          intro other hother
          cases hother
          exact Function.update_self _ _ _

theorem revParse_state (u : Surroundings) (path : String) (w : World) :
    (revParse u path w).2 = w := by
  rw [revParse]
  by_cases hrefused : u.fails .revParse = true
  · exact state_of_refused hrefused rfl
  · rw [run_allow_ok (Bool.eq_false_iff.2 hrefused),
      run_bind_ok (show (get : Cli World) w = (.ok w, w) from rfl)]
    cases w.headTip path <;> rfl

theorem reference_error
    (h : (reference u step error name oid : ExceptT ε (StateM World) Unit) w = (.error e, w')) :
    w' = w := by
  rw [reference] at h
  by_cases hrefused : u.fails step = true
  · exact state_of_refused hrefused h
  · rw [run_allow_ok (Bool.eq_false_iff.2 hrefused),
      run_bind_ok (show (get : ExceptT ε (StateM World) World) w = (.ok w, w) from rfl)] at h
    by_cases hoid : oid < w.commits.length
    · rw [dif_pos hoid] at h
      cases h
    · rw [dif_neg hoid] at h
      cases h
      rfl

theorem last_reference_error {a : α}
    (h : (reference u step error name oid >>= fun _ => pure a : ExceptT ε (StateM World) α) w =
      (.error e, w')) : w' = w := by
  cases hrun : (reference u step error name oid : ExceptT ε (StateM World) Unit) w with
  | mk r set =>
    cases r with
    | error e' =>
      rw [run_bind_error hrun] at h
      cases h
      exact reference_error hrun
    | ok _ =>
      rw [run_bind_ok hrun] at h
      cases h

theorem reference_ok {oid : Nat} (hrefused : u.fails step = false) (hoid : oid < w.commits.length) :
    (reference u step error name oid : ExceptT ε (StateM World) Unit) w =
      (.ok (), w.setBranch name oid hoid) := by
  rw [reference, run_allow_ok hrefused,
    run_bind_ok (show (get : ExceptT ε (StateM World) World) w = (.ok w, w) from rfl), dif_pos hoid]
  rfl

theorem run_reading_ok {f : α → Git β} (h : p w = .ok a) :
    (reading p >>= f) w = f a w :=
  run_bind_ok (show reading p w = (.ok a, w) by rw [← h]; rfl)

theorem run_reading_error {f : α → Git β} (h : p w = .error e) :
    (reading p >>= f) w = (.error e, w) :=
  run_bind_error (show reading p w = (.error e, w) by rw [← h]; rfl)

def Staged (u : Surroundings) (w : World) (path task : String) : Prop :=
  u.fails .checkout = false ∧ u.fails .mergeSquash = false ∧ leaves u w path task = true

inductive Trace (w : World) (path base : String) : Except String Nat × World → Prop where
  | index (e : String) (worktree : Worktree)
      (h : worktree.index ≠ w.headTree path ∨ worktree.unmerged ≠ []) :
      Trace w path base (.error e, w.setWorktree path worktree)
  | branch (r : Except String Nat) (w' : World) (h : w'.branches base = some w.commits.length) :
      Trace w path base (r, w')

theorem mergeSquashCommit_cases (hbranch : (w.worktree path).branch = some base)
    (hindex : (w.worktree path).index = w.headTree path) (task message : String) :
    (∃ e, mergeSquashCommit u path base task message w = (.error e, w)) ∧ ¬ Staged u w path task ∨
    Trace w path base (mergeSquashCommit u path base task message w) ∧ Staged u w path task := by
  rw [mergeSquashCommit]
  cases hcheckout : u.fails .checkout with
  | true =>
    obtain ⟨e, he⟩ : ∃ e, checkout u path base w = (.error e, w) := checkout_error (.inl hcheckout)
    rw [run_bind_error he]
    exact .inl ⟨⟨e, rfl⟩, fun h => nomatch hcheckout.symm.trans h.1⟩
  | false =>
  cases htip : w.branches base with
  | none =>
    obtain ⟨e, he⟩ : ∃ e, checkout u path base w = (.error e, w) := checkout_error (.inr htip)
    have hleaves : leaves u w path task = false := by
      rw [leaves, squash, World.headTip, hbranch, Option.bind_some, htip]
    rw [run_bind_error he]
    exact .inl ⟨⟨e, rfl⟩, fun h => nomatch hleaves.symm.trans h.2.2⟩
  | some tip =>
  rw [run_bind_ok (checkout_ok hcheckout hbranch htip)]
  cases hmerge : u.fails .mergeSquash with
  | true =>
    obtain ⟨e, he⟩ : ∃ e, mergeSquash u path task w = (.error e, w) := mergeSquash_error hmerge
    rw [run_bind_error he]
    exact .inl ⟨⟨e, rfl⟩, fun h => nomatch hmerge.symm.trans h.2.1⟩
  | false =>
  have hmerged : mergeSquash u path task w = _ := mergeSquash_eq hmerge
  cases hsquash : squash u path task w with
  | none =>
    rw [hsquash] at hmerged
    rw [run_bind_error hmerged]
    have hleaves : leaves u w path task = false := by rw [leaves, hsquash]
    exact .inl ⟨⟨_, rfl⟩, fun h => nomatch hleaves.symm.trans h.2.2⟩
  | some merged =>
  rw [hsquash] at hmerged
  cases merged with
  | error conflicts =>
    rw [run_bind_error hmerged]
    have hleaves : leaves u w path task = true := by rw [leaves, hsquash]
    exact .inr ⟨.index _ _ (.inr conflicts.nonempty), hcheckout, hmerge, hleaves⟩
  | ok index =>
    rw [run_bind_ok hmerged]
    let merged := w.setWorktree path { w.worktree path with index }
    have hworktree : merged.worktree path = { w.worktree path with index } :=
      worktree_setWorktree _ _ _
    have hhead : merged.headTree path = w.headTree path := by
      simp only [World.headTree, World.headTip, hworktree]
      rfl
    have hleaves : leaves u w path task = decide (leftStaged u index ≠ w.headTree path) := by
      rw [leaves, hsquash]
    cases commit_cases u path message merged with
    | inl herror =>
      obtain ⟨e, he⟩ := herror
      rw [run_bind_error he, hworktree]
      have hset (worktree : Worktree) : merged.setWorktree path worktree = w.setWorktree path worktree := by
        simp only [merged, World.setWorktree, Function.update_idem]
      rw [hset]
      by_cases hleft : leftStaged u index = w.headTree path
      · rw [setWorktree_of_index (hleft.trans hindex.symm)]
        exact .inl ⟨⟨e, rfl⟩, fun h => of_decide_eq_true (hleaves.symm.trans h.2.2) hleft⟩
      · exact .inr ⟨.index _ _ (.inl hleft), hcheckout, hmerge, hleaves.trans (decide_eq_true hleft)⟩
    | inr hmade =>
      obtain ⟨hleft, w', hrun, hmoved⟩ := hmade
      rw [hworktree, hhead] at hleft
      rw [run_bind_ok hrun]
      have hbase : w'.branches base = some w.commits.length :=
        hmoved base (by rw [hworktree]; exact hbranch)
      have hread : revParse u path w' = ((revParse u path w').1, w') :=
        Prod.ext rfl (revParse_state u path w')
      have htrace : Trace w path base (revParse u path w') := hread ▸ .branch _ w' hbase
      exact .inr ⟨htrace, hcheckout, hmerge, hleaves.trans (decide_eq_true hleft)⟩

theorem hasStagedChanges_false (h : hasStagedChanges u path w = .ok false) :
    (w.worktree path).index = w.headTree path ∧ (w.worktree path).unmerged = [] := by
  change ((u.allow .diffCached diffCachedError : Reading Unit) w).bind (fun _ => .ok _) = _ at h
  cases hrefused : u.refusal .diffCached with
  | some message =>
    rw [Surroundings.allow, hrefused] at h
    cases h
  | none =>
    rw [Surroundings.allow, hrefused] at h
    have hsame := not_or.1 (of_decide_eq_false (Except.ok.inj h))
    exact ⟨Decidable.not_not.1 hsame.1, Decidable.not_not.1 hsame.2⟩

theorem Trace.not_unchanged (h : Trace w path c.baseBranch (r, w'))
    (hindex : (w.worktree path).index = w.headTree path) (hunmerged : (w.worktree path).unmerged = []) :
    ¬ Unchanged c w w' := by
  intro hkept
  cases h with
  | index e worktree h =>
    have hkeptIndex := hkept.index path
    have hkeptUnmerged := hkept.unmerged path
    rw [worktree_setWorktree] at hkeptIndex hkeptUnmerged
    cases h with
    | inl h => exact h (hkeptIndex.trans hindex)
    | inr h => exact h (hkeptUnmerged.trans hunmerged)
  | branch _ _ h => exact branches_ne_new w c.baseBranch (hkept.base.symm.trans h)

/-- Where the base branch is checked out, a failing merge changes nothing just when nothing is left
of what it staged. -/
theorem mergeInWorktree_unchanged (hbranch : (w.worktree path).branch = some c.baseBranch)
    (h : mergeInWorktree u c path w = (.error e, w')) :
    Unchanged c w w' ↔ stages c u w path = false := by
  rw [mergeInWorktree] at h
  cases hdirty : hasStagedChanges u path w with
  | error e' =>
    rw [run_reading_error hdirty] at h
    cases h
    exact iff_of_true (.refl c w) (decide_eq_false fun hready => nomatch hdirty.symm.trans hready.1)
  | ok dirty =>
  rw [run_reading_ok hdirty] at h
  cases dirty with
  | true =>
    cases h
    exact iff_of_true (.refl c w) (decide_eq_false fun hready => nomatch hdirty.symm.trans hready.1)
  | false =>
  obtain ⟨hindex, hunmerged⟩ := hasStagedChanges_false hdirty
  simp only [Bool.false_eq_true, if_false] at h
  cases hidentity : u.fails .identity with
  | true =>
    obtain ⟨e', he⟩ : ∃ e', ensureCliCommitIdentity u w = (.error e', w) := run_allow_error hidentity
    rw [run_bind_error he] at h
    cases h
    exact iff_of_true (.refl c w)
      (decide_eq_false fun hready => nomatch hidentity.symm.trans hready.2.1)
  | false =>
  have hensured : ensureCliCommitIdentity u w = (.ok (), { w with identity := true }) :=
    run_allow_ok hidentity
  rw [run_bind_ok hensured] at h
  let identified : World := { w with identity := true }
  have hstages : stages c u w path = true ↔ Staged u identified path c.taskBranch := by
    rw [stages, decide_eq_true_iff, and_iff_right hdirty, and_iff_right hidentity]
    rfl
  cases mergeSquashCommit_cases (u := u) (w := identified) hbranch hindex c.taskBranch
      c.commitMessage with
  | inl hkept =>
    obtain ⟨⟨e', he⟩, hnot⟩ := hkept
    rw [run_bind_error (run_adapt he)] at h
    obtain ⟨-, hsame⟩ := Prod.mk.inj h
    rw [← hsame]
    exact iff_of_true (unchanged_identity (.refl c identified))
      (Bool.eq_false_iff.2 fun hstaged => hnot (hstages.1 hstaged))
  | inr hleft =>
    obtain ⟨htrace, hstaged⟩ := hleft
    apply iff_of_false
    · intro hkept
      have hsame : Unchanged c identified w' := unchanged_identity hkept
      cases hrun : mergeSquashCommit u path c.baseBranch c.taskBranch c.commitMessage identified with
      | mk r made =>
      rw [hrun] at htrace
      cases r with
      | error e' =>
        rw [run_bind_error (run_adapt hrun)] at h
        cases h
        exact htrace.not_unchanged hindex hunmerged hsame
      | ok sha =>
        rw [run_bind_ok (run_adapt hrun)] at h
        rw [last_reference_error h] at hsame
        exact htrace.not_unchanged hindex hunmerged hsame
    · rw [Bool.eq_false_iff, ne_eq, hstages, not_not]
      exact hstaged


theorem tree_write (w : World) (commit : Commit) (h : oid < w.commits.length) :
    (w.write commit).tree oid = w.tree oid := by
  rw [World.tree, World.tree, World.write, List.getElem?_append_left h]

theorem headTree_write (w : World) (commit : Commit) (path : String) :
    (w.write commit).headTree path = w.headTree path := by
  change ((w.headTip path).map (w.write commit).tree).getD [] = _
  rw [World.headTree]
  cases htip : w.headTip path with
  | none => rfl
  | some oid =>
    obtain ⟨name, -, hname⟩ := Option.bind_eq_some_iff.1 htip
    rw [Option.map_some, Option.map_some, tree_write w commit (w.tips name oid hname)]

theorem unchanged_write (c : Call) (w : World) (commit : Commit) : Unchanged c w (w.write commit) :=
  ⟨rfl, rfl, fun _ => rfl, fun _ => rfl, headTree_write w commit, fun _ => rfl⟩

theorem performSquashMerge_cases (u : Surroundings) (c : Call) (w : World) (base task : Nat) :
    (∃ e w', performSquashMerge u base task c.commitMessage c.baseBranch w = (.error e, w') ∧
      Unchanged c w w') ∧ written u w base task = false ∨
    written u w base task = true ∧
      ∃ w', performSquashMerge u base task c.commitMessage c.baseBranch w =
        (.ok w.commits.length, w') ∧ w'.branches c.baseBranch = some w.commits.length := by
  rw [performSquashMerge, written]
  cases hmerge : u.fails .mergeCommits with
  | true =>
    obtain ⟨e, he⟩ := run_allow_error hmerge
    exact .inl ⟨⟨e, w, he, .refl c w⟩, by simp⟩
  | false =>
  rw [run_allow_ok hmerge, run_bind_ok (show (get : Git World) w = (.ok w, w) from rfl)]
  cases htree : mergeTrees u base task w with
  | error conflicts => exact .inl ⟨⟨_, w, rfl, .refl c w⟩, rfl⟩
  | ok tree =>
  dsimp only
  cases hwrite : u.fails .writeTree with
  | true =>
    obtain ⟨e, he⟩ := run_allow_error hwrite
    exact .inl ⟨⟨e, w, he, .refl c w⟩, by simp⟩
  | false =>
  rw [run_allow_ok hwrite]
  cases hcreate : u.fails .createCommit with
  | true =>
    obtain ⟨e, he⟩ := run_allow_error hcreate
    exact .inl ⟨⟨e, w, he, .refl c w⟩, by simp⟩
  | false =>
  let made := w.write ⟨[base], tree, c.commitMessage⟩
  rw [run_allow_ok hcreate, run_bind_ok (show (set made : Git Unit) w = (.ok (), made) from rfl)]
  cases hupdate : u.fails .updateBase with
  | true =>
    obtain ⟨e, he⟩ := run_allow_error hupdate
    exact .inl ⟨⟨e, made, run_bind_error he, unchanged_write c w _⟩, by simp⟩
  | false =>
    have hnew : w.commits.length < made.commits.length := by
      simp only [made, World.write, List.length_append, List.length_singleton, Nat.lt_add_one]
    rw [run_bind_ok (reference_ok hupdate hnew)]
    exact .inr ⟨rfl, _, rfl, Function.update_self _ _ _⟩

/-- Where the base branch is not checked out, a failing merge changes nothing just when it does not
move that branch. -/
theorem mergeRefs_unchanged (h : mergeRefs u c w = (.error e, w')) :
    Unchanged c w w' ↔ moves c u w = false := by
  rw [mergeRefs] at h
  cases hmerged : mergedCommits u c w with
  | error e' =>
    rw [run_reading_error hmerged] at h
    cases h
    exact iff_of_true (.refl c w) (by rw [moves, hmerged])
  | ok commits =>
  obtain ⟨baseCommit, taskCommit⟩ := commits
  rw [run_reading_ok hmerged] at h
  dsimp only at h
  have hmoves : moves c u w = written u w baseCommit taskCommit := by rw [moves, hmerged]
  rw [hmoves]
  cases performSquashMerge_cases u c w baseCommit taskCommit with
  | inl hkept =>
    obtain ⟨⟨e', kept, he, hsame⟩, hnot⟩ := hkept
    rw [run_bind_error he] at h
    cases h
    exact iff_of_true hsame hnot
  | inr hmoved =>
    obtain ⟨hwritten, made, hrun, hbase⟩ := hmoved
    rw [run_bind_ok hrun] at h
    rw [hwritten, last_reference_error h]
    apply iff_of_false
    · exact fun hsame => branches_ne_new w c.baseBranch (hsame.base.symm.trans hbase)
    · decide

theorem reading_ok {f : α → Reading β} (h : (p >>= f) w = .ok b) :
    ∃ a, p w = .ok a ∧ f a w = .ok b := by
  change (p w).bind (fun a => f a w) = .ok b at h
  cases hp : p w with
  | error e =>
    rw [hp] at h
    cases h
  | ok a =>
    rw [hp] at h
    exact ⟨a, rfl, h⟩

theorem locate_some (h : locate u c w = .ok (some path)) :
    (w.worktree path).branch = some c.baseBranch := by
  rw [locate] at h
  obtain ⟨_, -, h⟩ := reading_ok h
  obtain ⟨_, -, h⟩ := reading_ok h
  obtain ⟨⟨_, taskBehind⟩, -, h⟩ := reading_ok h
  by_cases hbehind : taskBehind > 0
  · simp only [if_pos hbehind] at h
    cases h
  · simp only [if_neg hbehind] at h
    rw [findCheckoutPathForBranch] at h
    obtain ⟨_, -, h⟩ := reading_ok h
    have hfound := List.find?_some (Except.ok.inj h)
    exact of_decide_eq_true hfound

theorem Unchanged.hasStagedChanges_eq (h : Unchanged c w w') (u : Surroundings) (path : String) :
    hasStagedChanges u path w' = hasStagedChanges u path w := by
  change ((u.allow .diffCached diffCachedError : Reading Unit) w').bind (fun _ => .ok _) =
    ((u.allow .diffCached diffCachedError : Reading Unit) w).bind (fun _ => .ok _)
  simp only [h.index, h.head, h.unmerged]
  cases hrefused : u.refusal .diffCached <;> rw [Surroundings.allow, hrefused] <;> rfl

/-- A failing merge changes nothing just when the step that fails comes before anything is left
staged or a branch is moved. A later merge then finds no staged changes that were not there. -/
theorem mergeChanges_unchanged (c : Call) (u : Surroundings) (w w' : World) (e : GitServiceError)
    (h : mergeChanges u c w = (.error e, w')) :
    (Unchanged c w w' ↔ changes c u w = false) ∧
      (changes c u w = false →
        ∀ u' path, hasStagedChanges u' path w' = hasStagedChanges u' path w) := by
  have hunchanged : Unchanged c w w' ↔ changes c u w = false := by
    rw [mergeChanges] at h
    cases hlocated : locate u c w with
    | error e' =>
      rw [run_reading_error hlocated] at h
      cases h
      exact iff_of_true (.refl c w) (by rw [changes, hlocated])
    | ok located =>
      rw [run_reading_ok hlocated] at h
      rw [changes, hlocated]
      cases located with
      | none => exact mergeRefs_unchanged h
      | some path => exact mergeInWorktree_unchanged (locate_some hlocated) h
  exact ⟨hunchanged, fun hkept => (hunchanged.2 hkept).hasStagedChanges_eq⟩

def sample : World where
  commits := [⟨[], [("a.txt", "old")], "first"⟩, ⟨[0], [("a.txt", "new")], "work"⟩]
  branches name := if name = "main" then some 0 else if name = "feature" then some 1 else none
  remotes _ := none
  tags _ := none
  worktrees := ["/repo"]
  worktree _ := ⟨some "main", [("a.txt", "old")], []⟩
  identity := true
  tips := by
    intro name oid hoid
    by_cases hmain : name = "main"
    · rw [if_pos hmain] at hoid
      cases hoid
      decide
    · rw [if_neg hmain] at hoid
      by_cases hfeature : name = "feature"
      · rw [if_pos hfeature] at hoid
        cases hoid
        decide
      · rw [if_neg hfeature] at hoid
        cases hoid

def sampleCall : Call := ⟨"feature", "main", "squash"⟩

def sampleSurroundings (refused : List Step) (hook : Option String) : Surroundings where
  refusal step := if step ∈ refused then some "refused" else none
  merge _ _ := .ok []
  hooks index := (index, hook)

theorem mergeChanges_unchanged_sample :
    (Unchanged sampleCall sample sample ↔
      changes sampleCall (sampleSurroundings [.mergeSquash] none) sample = false) ∧
      (changes sampleCall (sampleSurroundings [.mergeSquash] none) sample = false →
        ∀ u' path, hasStagedChanges u' path sample = hasStagedChanges u' path sample) :=
  mergeChanges_unchanged sampleCall (sampleSurroundings [.mergeSquash] none) sample sample
    (cliMergeError "refused") rfl

/-- A hook refuses the commit, and the squash is left staged, which a later merge is refused for. -/
theorem mergeChanges_not_unchanged :
    ∃ e w', mergeChanges (sampleSurroundings [] (some "hook declined")) sampleCall sample =
        (.error e, w') ∧
      ¬ Unchanged sampleCall sample w' ∧
      (mergeChanges (sampleSurroundings [] none) sampleCall sample).1 = .ok 2 ∧
      (mergeChanges (sampleSurroundings [] none) sampleCall w').1 =
        .error (.worktreeDirty "main" "staged changes present") := by
  apply Exists.intro (cliMergeError "hook declined")
  apply Exists.intro
  apply And.intro rfl
  apply And.intro
  · intro h
    exact absurd (h.index "/repo") (by decide)
  · exact ⟨by decide, by decide⟩

end
end Cdesktop.SquashMerge
