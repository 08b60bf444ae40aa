import Cdesktop.DiffStream
import Mathlib.Data.List.Dedup

namespace Cdesktop.DiffStream
open TrustedKeys (isBlank)
set_option autoImplicit true

section
variable {a : Args} {r : Repo} {m m' : Manager}

structure SameHead (m m' : Manager) : Prop where
  pendingReset : m'.pendingReset = m.pendingReset
  lastHeadCommit : m'.lastHeadCommit = m.lastHeadCommit
  currentBaseCommit : m'.currentBaseCommit = m.currentBaseCommit
  currentTargetBranch : m'.currentTargetBranch = m.currentTargetBranch

theorem SameHead.trans (h : SameHead m m') (h' : SameHead m' m'') : SameHead m m'' where
  pendingReset := h'.pendingReset.trans h.pendingReset
  lastHeadCommit := h'.lastHeadCommit.trans h.lastHeadCommit
  currentBaseCommit := h'.currentBaseCommit.trans h.currentBaseCommit
  currentTargetBranch := h'.currentTargetBranch.trans h.currentTargetBranch

theorem sameHead_remember (r : Repo) (paths : List String) (m : Manager) :
    SameHead m (paths.foldl (Manager.remember r) m) := by
  induction paths generalizing m with
  | nil => exact ⟨rfl, rfl, rfl, rfl⟩
  | cons path paths ih =>
    have hfirst : SameHead m (m.remember r path) := ⟨rfl, rfl, rfl, rfl⟩
    exact hfirst.trans (ih _)

theorem sameHead_forget (paths : List String) (m : Manager) :
    SameHead m (paths.foldl Manager.forget m) := by
  induction paths generalizing m with
  | nil => exact ⟨rfl, rfl, rfl, rfl⟩
  | cons path paths ih =>
    have hfirst : SameHead m (m.forget path) := ⟨rfl, rfl, rfl, rfl⟩
    exact hfirst.trans (ih _)

theorem cumulative_forget (paths : List String) (m : Manager) :
    (paths.foldl Manager.forget m).cumulative = m.cumulative := by
  induction paths generalizing m with
  | nil => rfl
  | cons path paths ih => exact ih (m.forget path)

theorem known_remember (r : Repo) (paths : List String) (m : Manager) (p : String) :
    p ∈ (paths.foldl (Manager.remember r) m).knownPaths ↔ p ∈ m.knownPaths ∨ p ∈ paths := by
  induction paths generalizing m with
  | nil => simp only [List.foldl_nil, List.not_mem_nil, or_false]
  | cons path paths ih =>
    rw [List.foldl_cons, ih, Manager.remember, List.mem_insert_iff, List.mem_cons]
    tauto

theorem known_forget (paths : List String) (m : Manager) (p : String) :
    p ∈ (paths.foldl Manager.forget m).knownPaths ↔ p ∈ m.knownPaths ∧ p ∉ paths := by
  induction paths generalizing m with
  | nil => simp only [List.foldl_nil, List.not_mem_nil, not_false_eq_true, and_true]
  | cons path paths ih =>
    rw [List.foldl_cons, ih, Manager.forget, List.mem_filter, decide_eq_true_iff, List.mem_cons]
    tauto

theorem stats_remember (r : Repo) (paths : List String) (m : Manager) (p : String) :
    (paths.foldl (Manager.remember r) m).sentFileStats p =
      if p ∈ paths then (r.stat p).or (m.sentFileStats p) else m.sentFileStats p := by
  induction paths generalizing m with
  | nil => rfl
  | cons path paths ih =>
    rw [List.foldl_cons, ih]
    by_cases hpath : p = path
    · subst hpath
      simp only [Manager.remember, if_pos, List.mem_cons, true_or]
      cases r.stat p <;> simp
    · simp only [Manager.remember, List.mem_cons, hpath, false_or, if_false]

theorem stats_forget (paths : List String) (m : Manager) (p : String) :
    (paths.foldl Manager.forget m).sentFileStats p =
      if p ∈ paths then none else m.sentFileStats p := by
  induction paths generalizing m with
  | nil => rfl
  | cons path paths ih =>
    rw [List.foldl_cons, ih]
    by_cases hpath : p = path
    · subst hpath
      simp only [Manager.forget, if_pos, List.mem_cons, true_or, ite_self]
    · simp only [Manager.forget, List.mem_cons, hpath, false_or, if_false]

theorem path_statusDiffEntry (h : statusDiffEntry r compared change = some e) :
    e.path = change.name := by
  rw [statusDiffEntry] at h
  split at h
  · split at h <;> cases h <;> rfl
  · cases h
    rfl
  · split at h <;> cases h
    rfl

theorem diffPath_statusEntryToDiff (h : statusDiffEntry r compared change = some e) (a : Args)
    (baseTree : String → Option Blob) :
    diffPath (statusEntryToDiff r a baseTree e) = change.name := by
  rw [statusDiffEntry] at h
  split at h
  · split at h <;> cases h <;> rfl
  · cases h
    rfl
  · split at h
    · cases h
    · cases h
      rfl

def reported (r : Repo) (compared : List Change) : List String :=
  compared.filterMap fun change => (statusDiffEntry r compared change).map fun _ => change.name

theorem mem_reported {compared : List Change} :
    p ∈ reported r compared ↔
      ∃ change ∈ compared, change.name = p ∧ (statusDiffEntry r compared change).isSome = true := by
  rw [reported, List.mem_filterMap]
  constructor
  · rintro ⟨change, hchange, hp⟩
    obtain ⟨e, he, rfl⟩ := Option.map_eq_some_iff.1 hp
    exact ⟨change, hchange, rfl, by rw [he]; rfl⟩
  · rintro ⟨change, hchange, rfl, hsome⟩
    obtain ⟨e, he⟩ := Option.isSome_iff_exists.1 hsome
    exact ⟨change, hchange, by rw [he]; rfl⟩

theorem getDiffs_some (h : getDiffs r a base paths = some diffs) :
    ∃ changes, r.changes base = some changes ∧
      diffs.map diffPath = reported r (selected r changes paths) := by
  obtain ⟨baseTree, -, h⟩ := Option.bind_eq_some_iff.1 h
  obtain ⟨entries, hentries, rfl⟩ := Option.map_eq_some_iff.1 h
  obtain ⟨changes, hchanges, rfl⟩ := Option.map_eq_some_iff.1 hentries
  apply Exists.intro changes
  apply And.intro hchanges
  rw [List.map_map, List.map_filterMap, reported]
  apply List.filterMap_congr
  intro change _
  cases hentry : statusDiffEntry r (selected r changes paths) change with
  | none => rfl
  | some e =>
    rw [Option.map_some, Option.map_some, Function.comp_apply, diffPath_statusEntryToDiff hentry]

theorem getDiffFilePaths_eq (h : r.changes base = some changes) :
    getDiffFilePaths r base = some (reported r changes).dedup := by
  rw [getDiffFilePaths, diffStatus, h, Option.map_some, Option.map_some, List.map_filterMap, reported]
  congr 2
  apply List.filterMap_congr
  intro change _
  cases hentry : statusDiffEntry r changes change with
  | none => exact congrArg (Option.map (·.path)) hentry
  | some e =>
    rw [Option.map_some, ← path_statusDiffEntry hentry]
    exact congrArg (Option.map (·.path)) hentry

theorem mem_fresh (hfresh : getDiffFilePaths r base = some fresh) :
    ∃ changes, r.changes base = some changes ∧ ∀ p, p ∈ fresh ↔ p ∈ reported r changes := by
  cases hchanges : r.changes base with
  | none =>
    rw [getDiffFilePaths, diffStatus, hchanges] at hfresh
    cases hfresh
  | some changes =>
    rw [getDiffFilePaths_eq hchanges] at hfresh
    cases hfresh
    exact ⟨changes, rfl, fun p => List.mem_dedup⟩

structure Discovered (m : Manager) (fresh : List String) (m' : Manager) : Prop extends
    SameHead m m' where
  cumulative : m'.cumulative = m.cumulative
  known : ∀ p, p ∈ m'.knownPaths ↔ p ∈ m.knownPaths ∧ p ∈ fresh
  stats : ∀ p ∈ fresh, m'.sentFileStats p = m.sentFileStats p

structure Rediffed (r : Repo) (m : Manager) (fresh names : List String) (m' : Manager) : Prop extends
    SameHead m m' where
  known : ∀ p, p ∈ m'.knownPaths ↔
    (p ∈ m.knownPaths ∧ p ∈ fresh ∨ p ∈ names) ∧ ¬ (p ∈ pathsToDiff r m fresh ∧ p ∉ names)
  stats : ∀ p ∈ fresh, m'.sentFileStats p =
    if p ∈ pathsToDiff r m fresh ∧ p ∉ names then none
    else if p ∈ names then (r.stat p).or (m.sentFileStats p) else m.sentFileStats p

inductive Outcome (a : Args) (r : Repo) (m : Manager) : Manager × List Patch → Prop where
  | rests (cycle : Nat) : Outcome a r m ({ m with reconcileCycle := cycle }, [])
  | kept (fresh : List String) (hfresh : getDiffFilePaths r m.currentBaseCommit = some fresh)
      (hnothing : pathsToDiff r m fresh = [] ∨
        getDiffs r a m.currentBaseCommit (some (pathsToDiff r m fresh)) = none)
      (m' : Manager) (hkept : Discovered m fresh m') (patches : List Patch)
      (hpatches : (∀ p ∈ m.knownPaths, p ∈ fresh) → patches = []) :
      Outcome a r m (m', patches)
  | updated (fresh : List String) (hfresh : getDiffFilePaths r m.currentBaseCommit = some fresh)
      (hpaths : pathsToDiff r m fresh ≠ []) (diffs : List Diff)
      (hdiffs : getDiffs r a m.currentBaseCommit (some (pathsToDiff r m fresh)) = some diffs)
      (m' : Manager) (hupdated : Rediffed r m fresh (diffs.map diffPath) m') (patches : List Patch) :
      Outcome a r m (m', patches)

theorem removed_discovered (c : Nat) (b : Bool) (m : Manager) (fresh : List String) :
    Discovered m fresh ((m.knownPaths.filter (· ∉ fresh)).foldl Manager.forget
      { m with reconcileCycle := c, needsPostResetDiscovery := b }) := by
  have hfirst : SameHead m { m with reconcileCycle := c, needsPostResetDiscovery := b } :=
    ⟨rfl, rfl, rfl, rfl⟩
  have hsame := hfirst.trans (sameHead_forget (m.knownPaths.filter (· ∉ fresh)) _)
  exact {
    toSameHead := hsame
    cumulative := cumulative_forget _ _
    known := by
      intro p
      rw [known_forget, List.mem_filter, decide_eq_true_iff]
      tauto
    stats := by
      intro p hp
      rw [stats_forget, if_neg]
      rw [List.mem_filter, decide_eq_true_iff]
      exact fun h => h.2 hp }

theorem diffPath_applyStreamOmitPolicy (a : Args) (sentBytes : Nat) (diff : Diff) :
    diffPath (applyStreamOmitPolicy a sentBytes diff).1 = diffPath diff := by
  have homit : diffPath (omitDiffContents a diff) = diffPath diff := by
    simp only [diffPath, omitDiffContents]
    split <;> rfl
  rw [applyStreamOmitPolicy]
  split
  · exact homit
  · split
    · rfl
    · split
      · exact homit
      · rfl

theorem map_applyPolicyToAll (a : Args) (sentBytes : Nat) (diffs : List Diff) :
    (applyPolicyToAll a sentBytes diffs).1.map diffPath = diffs.map diffPath := by
  induction diffs generalizing sentBytes with
  | nil => rfl
  | cons diff diffs ih =>
    rw [applyPolicyToAll, List.map_cons, List.map_cons, ih, diffPath_applyStreamOmitPolicy]

theorem sent_ne_nil (a : Args) (sentBytes : Nat) (f : Diff → PatchOp) (rest : Patch)
    (h : diffs ≠ []) : (applyPolicyToAll a sentBytes diffs).1.map f ++ rest ≠ [] := by
  intro hnil
  have hsent := List.map_eq_nil_iff.1 (List.append_eq_nil_iff.1 hnil).1
  have hpaths := map_applyPolicyToAll a sentBytes diffs
  rw [hsent] at hpaths
  exact h (List.map_eq_nil_iff.1 hpaths.symm)

theorem processFileChanges_none (h : getDiffs r a m.currentBaseCommit (some paths) = none) :
    processFileChanges a r paths m = none := by
  rw [processFileChanges, h]
  rfl

theorem processFileChanges_rediffed (hkept : Discovered m fresh kept)
    (hdiffs : getDiffs r a m.currentBaseCommit (some (pathsToDiff r m fresh)) = some diffs) :
    ∃ m' patch, processFileChanges a r (pathsToDiff r m fresh) kept = some (m', patch) ∧
      Rediffed r m fresh (diffs.map diffPath) m' ∧ (diffs ≠ [] → patch ≠ []) := by
  have hsame : getDiffs r a kept.currentBaseCommit (some (pathsToDiff r m fresh)) = some diffs := by
    rw [hkept.currentBaseCommit, hdiffs]
  rw [processFileChanges, hsame, Option.map_some]
  refine ⟨_, _, rfl, ?_, sent_ne_nil a kept.cumulative _ _⟩
  let sent : Manager := { kept with cumulative := (applyPolicyToAll a kept.cumulative diffs).2 }
  have hfirst : SameHead kept sent := ⟨rfl, rfl, rfl, rfl⟩
  exact {
    toSameHead := hkept.toSameHead.trans
      ((hfirst.trans (sameHead_remember r _ _)).trans (sameHead_forget _ _))
    known := by
      intro p
      rw [known_forget, known_remember, List.mem_filter, decide_eq_true_iff, hkept.known]
    stats := by
      intro p hp
      simp only [stats_forget, stats_remember, List.mem_filter, decide_eq_true_iff,
        hkept.stats p hp] }

theorem reconcileFiles_outcome (a : Args) (r : Repo) (force : Bool) (m : Manager) :
    Outcome a r m (reconcileFiles a r force m) := by
  rw [reconcileFiles]
  dsimp only
  split
  · exact .rests _
  cases hfresh : getDiffFilePaths r m.currentBaseCommit with
  | none => exact .rests _
  | some fresh =>
  dsimp only
  have hkept := removed_discovered ((m.reconcileCycle + 1) % 256) false m fresh
  have hremovals (h : ∀ p ∈ m.knownPaths, p ∈ fresh) :
      sendPatch ((m.knownPaths.filter (· ∉ fresh)).map (.removeRepoDiff a.repoKey)) = [] := by
    have hnone : m.knownPaths.filter (· ∉ fresh) = [] := by
      rw [List.filter_eq_nil_iff]
      intro p hp
      rw [decide_eq_true_iff]
      exact not_not_intro (h p hp)
    rw [hnone]
    rfl
  split
  · rename_i hpaths
    exact .kept fresh hfresh (.inl hpaths) _ hkept _ hremovals
  · rename_i hpaths
    cases hdiffs : getDiffs r a m.currentBaseCommit (some (pathsToDiff r m fresh)) with
    | none =>
      rw [processFileChanges_none (by rw [hkept.currentBaseCommit, hdiffs])]
      exact .kept fresh hfresh (.inr hdiffs) _ hkept _ hremovals
    | some diffs =>
      obtain ⟨m', patch, hprocess, hupdated, -⟩ := processFileChanges_rediffed hkept hdiffs
      rw [hprocess]
      exact .updated fresh hfresh hpaths diffs hdiffs m' hupdated _

structure Calm (r : Repo) (m : Manager) : Prop where
  pendingReset : m.pendingReset = false
  head : m.lastHeadCommit = r.head ∨ r.mergeBase m.currentTargetBranch = none

/-- The known paths are those that differ, and no stat is out of date. Where the base commit cannot
be read, no path can be diffed. -/
def Current (r : Repo) (m : Manager) : Prop :=
  ∀ fresh ∈ getDiffFilePaths r m.currentBaseCommit, (∀ p ∈ m.knownPaths, p ∈ fresh) ∧
    (r.baseTree m.currentBaseCommit = none ∨
      (∀ p ∈ fresh, p ∈ m.knownPaths) ∧ ∀ p ∈ m.knownPaths, statChanged r m p = false)

def Covering (r : Repo) (m : Manager) : Prop :=
  ∀ fresh ∈ getDiffFilePaths r m.currentBaseCommit, (∀ p ∈ fresh, p ∈ m.knownPaths) ∧
    ∀ p ∈ m.knownPaths, p ∈ fresh → statChanged r m p = false

structure Closing (r : Repo) (m : Manager) (fresh : List String) : Prop where
  same : ∀ p ∈ m.knownPaths, p ∈ fresh → statChanged r m p = false
  gone : ∀ p ∈ fresh, r.stat p = none → m.sentFileStats p = none
  lone : ∀ p ∈ fresh, p ∉ m.knownPaths → Lone r m.currentBaseCommit p

def Ranked (a : Args) (r : Repo) : Nat → Manager → Prop
  | 0, m => m.pendingReset = true ∨ Calm r m ∧ Current r m
  | 1, m => Calm r m ∧ Covering r m
  | 2, m => Calm r m ∧ ∀ fresh ∈ getDiffFilePaths r m.currentBaseCommit, Closing r m fresh
  | 3, m => Calm r m ∧ Refreshes a r m
  | _, m => m.pendingReset = false ∧ m.lastHeadCommit ≠ r.head ∧ (resets r m = true ∨ Refreshes a r m)

theorem Calm.sameHead (h : Calm r m) (hsame : SameHead m m') : Calm r m' where
  pendingReset := hsame.pendingReset.trans h.pendingReset
  head := by
    rw [hsame.lastHeadCommit, hsame.currentTargetBranch]
    exact h.head

theorem statChanged_congr (h : m'.sentFileStats p = m.sentFileStats p) :
    statChanged r m' p = statChanged r m p := by
  rw [statChanged, statChanged, h]

theorem statChanged_of_eq (h : m.sentFileStats p = (r.stat p).or stat) (hgone : r.stat p = none → stat = none) :
    statChanged r m p = false := by
  rw [statChanged, h]
  cases hstat : r.stat p with
  | none =>
    rw [hgone hstat]
    rfl
  | some current => exact decide_eq_false fun hne => hne rfl

variable {fresh : List String}

theorem mem_pathsToDiff :
    p ∈ pathsToDiff r m fresh ↔
      p ∈ fresh ∧ (p ∈ m.knownPaths → statChanged r m p = true) := by
  rw [pathsToDiff, List.mem_append, List.mem_filter, List.mem_filter, List.mem_filter,
    decide_eq_true_iff, decide_eq_true_iff]
  tauto

theorem pathsToDiff_eq_nil (hknown : ∀ p ∈ fresh, p ∈ m.knownPaths)
    (hsame : ∀ p ∈ m.knownPaths, p ∈ fresh → statChanged r m p = false) :
    pathsToDiff r m fresh = [] := by
  rw [List.eq_nil_iff_forall_not_mem]
  intro p hp
  obtain ⟨hfresh, hchanged⟩ := mem_pathsToDiff.1 hp
  have htrue := hchanged (hknown p hfresh)
  rw [hsame p (hknown p hfresh) hfresh] at htrue
  cases htrue

theorem known_of_nil (hnil : pathsToDiff r m fresh = []) :
    ∀ p ∈ fresh, p ∈ m.knownPaths := by
  intro p hp
  by_contra hknown
  have hmem : p ∈ pathsToDiff r m fresh := mem_pathsToDiff.2 ⟨hp, fun hk => absurd hk hknown⟩
  rw [hnil] at hmem
  cases hmem

theorem same_of_not_mem (hin : p ∈ fresh)
    (hp : p ∉ pathsToDiff r m fresh) : statChanged r m p = false := by
  rw [Bool.eq_false_iff]
  exact fun hchanged => hp (mem_pathsToDiff.2 ⟨hin, fun _ => hchanged⟩)

theorem Discovered.current (h : Discovered m fresh m')
    (hfresh : getDiffFilePaths r m.currentBaseCommit = some fresh)
    (hrest : r.baseTree m.currentBaseCommit = none ∨
      (∀ p ∈ fresh, p ∈ m.knownPaths) ∧ ∀ p ∈ m.knownPaths, p ∈ fresh → statChanged r m p = false) :
    Current r m' := by
  intro fresh' hfresh'
  rw [h.currentBaseCommit, hfresh] at hfresh'
  cases hfresh'
  apply And.intro
  · exact fun p hp => ((h.known p).1 hp).2
  · rw [h.currentBaseCommit]
    apply hrest.imp_right
    rintro ⟨hknown, hsame⟩
    apply And.intro
    · exact fun p hp => (h.known p).2 ⟨hknown p hp, hp⟩
    · intro p hp
      obtain ⟨hbefore, hin⟩ := (h.known p).1 hp
      rw [statChanged_congr (h.stats p hin)]
      exact hsame p hbefore hin

theorem getDiffs_none (h : getDiffs r a base filter = none)
    (hfresh : getDiffFilePaths r base = some fresh) : r.baseTree base = none := by
  obtain ⟨changes, hchanges, -⟩ := mem_fresh hfresh
  cases htree : r.baseTree base with
  | none => rfl
  | some baseTree =>
    rw [getDiffs, htree, diffStatus, hchanges] at h
    cases h

def Idle (m : Manager) (result : Manager × List Patch) : Prop :=
  result.2 = [] ∧ result.1.cumulative = m.cumulative

theorem Outcome.sameHead (h : Outcome a r m result) : SameHead m result.1 := by
  cases h with
  | rests cycle => exact ⟨rfl, rfl, rfl, rfl⟩
  | kept fresh hfresh hnothing m' hkept => exact hkept.toSameHead
  | updated fresh hfresh hpaths diffs hdiffs m' hupdated => exact hupdated.toSameHead

theorem Current.step (h : Current r m) (houtcome : Outcome a r m result) :
    Idle m result ∧ Current r result.1 := by
  cases houtcome with
  | rests cycle => exact ⟨⟨rfl, rfl⟩, h⟩
  | kept fresh hfresh hnothing m' hkept patches hpatches =>
    obtain ⟨hknown, hrest⟩ := h fresh hfresh
    apply And.intro ⟨hpatches hknown, hkept.cumulative⟩
    apply hkept.current hfresh
    exact hrest.imp_right fun hall => ⟨hall.1, fun p hp _ => hall.2 p hp⟩
  | updated fresh hfresh hpaths diffs hdiffs m' hupdated patches =>
    obtain ⟨-, hrest⟩ := h fresh hfresh
    cases hrest with
    | inl hnone =>
      rw [getDiffs, hnone] at hdiffs
      cases hdiffs
    | inr hall => exact absurd (pathsToDiff_eq_nil hall.1 fun p hp _ => hall.2 p hp) hpaths

theorem Covering.step (h : Covering r m) (houtcome : Outcome a r m result) :
    Idle m result ∧ Covering r result.1 ∨ Current r result.1 := by
  cases houtcome with
  | rests cycle => exact .inl ⟨⟨rfl, rfl⟩, h⟩
  | kept fresh hfresh hnothing m' hkept patches hpatches =>
    exact .inr (hkept.current hfresh (.inr (h fresh hfresh)))
  | updated fresh hfresh hpaths diffs hdiffs m' hupdated patches =>
    obtain ⟨hknown, hsame⟩ := h fresh hfresh
    exact absurd (pathsToDiff_eq_nil hknown hsame) hpaths

theorem lone_reported {paths : List String} (hlone : ∀ p ∈ paths, Lone r base p)
    (hdiffs : getDiffs r a base (some paths) = some diffs) (hp : p ∈ paths) :
    p ∈ diffs.map diffPath := by
  obtain ⟨changes, hchanges, hnames⟩ := getDiffs_some hdiffs
  have hfilters : paths.filter (fun path => !isBlank path) = paths := by
    rw [List.filter_eq_self]
    intro path hpath
    rw [(hlone path hpath).1]
    rfl
  have hselected : selected r changes (some paths) =
      changes.filter fun change => paths.any fun path => r.selects path change.name := by
    rw [selected, hfilters, if_neg (List.ne_nil_of_mem hp)]
  have hdeleted : ∀ change ∈ selected r changes (some paths), change.kind = .deleted := by
    intro change hchange
    rw [hselected, List.mem_filter, List.any_eq_true] at hchange
    obtain ⟨hmem, path, hpath, hselects⟩ := hchange
    exact ((hlone path hpath).2 changes hchanges).2 change hmem hselects
  obtain ⟨change, hmem, rfl, hself⟩ := ((hlone p hp).2 changes hchanges).1
  have hin : change ∈ selected r changes (some paths) := by
    rw [hselected, List.mem_filter, List.any_eq_true]
    exact ⟨hmem, change.name, hp, hself⟩
  rw [hnames, mem_reported]
  refine ⟨change, hin, rfl, ?_⟩
  rw [statusDiffEntry, hdeleted change hin]
  dsimp only
  rw [if_neg]
  · rfl
  · rw [List.any_eq_true]
    rintro ⟨other, hother, hadded⟩
    rw [hdeleted other hother] at hadded
    cases hadded

theorem Closing.covering (h : Closing r m fresh)
    (hfresh : getDiffFilePaths r m.currentBaseCommit = some fresh)
    (hupdated : Rediffed r m fresh names m') (hall : ∀ p ∈ pathsToDiff r m fresh, p ∈ names) :
    Covering r m' := by
  intro fresh' hfresh'
  rw [hupdated.currentBaseCommit, hfresh] at hfresh'
  cases hfresh'
  have hkept (p : String) : ¬ (p ∈ pathsToDiff r m fresh ∧ p ∉ names) := fun hp => hp.2 (hall p hp.1)
  apply And.intro
  · intro p hp
    apply (hupdated.known p).2
    apply And.intro _ (hkept p)
    by_cases hknown : p ∈ m.knownPaths
    · exact .inl ⟨hknown, hp⟩
    · exact .inr (hall p (mem_pathsToDiff.2 ⟨hp, fun hk => absurd hk hknown⟩))
  · intro p hp hin
    have hstats := hupdated.stats p hin
    rw [if_neg (hkept p)] at hstats
    by_cases hname : p ∈ names
    · rw [if_pos hname] at hstats
      exact statChanged_of_eq hstats (h.gone p hin)
    · rw [if_neg hname] at hstats
      rw [statChanged_congr hstats]
      have hbefore := ((hupdated.known p).1 hp).1.resolve_right hname
      exact h.same p hbefore.1 hin

theorem Closing.step (h : ∀ fresh ∈ getDiffFilePaths r m.currentBaseCommit, Closing r m fresh)
    (houtcome : Outcome a r m result) :
    (Idle m result ∧ ∀ fresh ∈ getDiffFilePaths r result.1.currentBaseCommit,
      Closing r result.1 fresh) ∨ Current r result.1 ∨ Covering r result.1 := by
  cases houtcome with
  | rests cycle =>
    exact .inl ⟨⟨rfl, rfl⟩, fun fresh hfresh => ⟨(h fresh hfresh).same, (h fresh hfresh).gone,
      (h fresh hfresh).lone⟩⟩
  | kept fresh hfresh hnothing m' hkept patches hpatches =>
    refine .inr (.inl (hkept.current hfresh ?_))
    cases hnothing with
    | inl hnil => exact .inr ⟨known_of_nil hnil, (h fresh hfresh).same⟩
    | inr hnone => exact .inl (getDiffs_none hnone hfresh)
  | updated fresh hfresh hpaths diffs hdiffs m' hupdated patches =>
    have hclosing := h fresh hfresh
    have hlone : ∀ p ∈ pathsToDiff r m fresh, Lone r m.currentBaseCommit p := by
      intro p hp
      obtain ⟨hin, hchanged⟩ := mem_pathsToDiff.1 hp
      by_cases hknown : p ∈ m.knownPaths
      · have hsame := hclosing.same p hknown hin
        rw [hchanged hknown] at hsame
        cases hsame
      · exact hclosing.lone p hin hknown
    exact .inr (.inr (hclosing.covering hfresh hupdated fun p hp => lone_reported hlone hdiffs hp))

theorem Refreshes.closing (hgone : ∀ p ∈ names, r.stat p = none → m.sentFileStats p = none)
    (hlone : ∀ p ∈ pathsToDiff r m fresh, p ∉ names → Lone r m.currentBaseCommit p)
    (hupdated : Rediffed r m fresh names m') : Closing r m' fresh where
  same := by
    intro p hp hin
    obtain ⟨hbefore, hkept⟩ := (hupdated.known p).1 hp
    have hstats := hupdated.stats p hin
    rw [if_neg hkept] at hstats
    by_cases hname : p ∈ names
    · rw [if_pos hname] at hstats
      exact statChanged_of_eq hstats (hgone p hname)
    · rw [if_neg hname] at hstats
      rw [statChanged_congr hstats]
      exact same_of_not_mem hin fun hmem => hkept ⟨hmem, hname⟩
  gone := by
    intro p hin hstat
    rw [hupdated.stats p hin]
    split
    · rfl
    · rename_i hkept
      split
      · rename_i hname
        rw [hstat, hgone p hname hstat]
        rfl
      · rename_i hname
        have hpath : p ∉ pathsToDiff r m fresh := fun hmem => hkept ⟨hmem, hname⟩
        have hknown : p ∈ m.knownPaths := by
          by_contra hknown
          exact hpath (mem_pathsToDiff.2 ⟨hin, fun hk => absurd hk hknown⟩)
        have hsame := same_of_not_mem hin hpath
        rw [statChanged, hstat] at hsame
        cases hsent : m.sentFileStats p with
        | none => rfl
        | some sent =>
          rw [hsent] at hsame
          cases hsame
  lone := by
    intro p hin hknown
    rw [hupdated.currentBaseCommit]
    have hname : p ∉ names := by
      intro hname
      exact hknown ((hupdated.known p).2 ⟨.inr hname, fun h => h.2 hname⟩)
    apply hlone p _ hname
    by_contra hpath
    apply hknown
    apply (hupdated.known p).2
    apply And.intro _ fun h => hpath h.1
    by_contra hbefore
    exact hpath (mem_pathsToDiff.2 ⟨hin, fun hk => absurd (.inl ⟨hk, hin⟩) hbefore⟩)

theorem Refreshes.step (h : Refreshes a r m) (houtcome : Outcome a r m result) :
    Idle m result ∧ Refreshes a r result.1 ∨ Current r result.1 ∨
      ∀ fresh ∈ getDiffFilePaths r result.1.currentBaseCommit, Closing r result.1 fresh := by
  cases houtcome with
  | rests cycle => exact .inl ⟨⟨rfl, rfl⟩, h⟩
  | kept fresh hfresh hnothing m' hkept patches hpatches =>
    refine .inr (.inl (hkept.current hfresh ?_))
    cases hnothing with
    | inl hnil =>
      have hnone (p : String) : p ∉ pathsToDiff r m fresh := by
        rw [hnil]
        exact List.not_mem_nil
      exact .inr ⟨known_of_nil hnil, fun p _ hin => same_of_not_mem hin (hnone p)⟩
    | inr hnone => exact .inl (getDiffs_none hnone hfresh)
  | updated fresh hfresh hpaths diffs hdiffs m' hupdated patches =>
    obtain ⟨hgone, hlone⟩ := h fresh hfresh hpaths diffs hdiffs
    right
    right
    intro fresh' hfresh'
    rw [hupdated.currentBaseCommit, hfresh] at hfresh'
    cases hfresh'
    exact Refreshes.closing hgone hlone hupdated

theorem resetStream_current (a : Args) (r : Repo) (m : Manager) :
    (resetStream a r m).1.pendingReset = false ∧
      (resetStream a r m).1.lastHeadCommit = m.lastHeadCommit ∧ Current r (resetStream a r m).1 := by
  rw [resetStream]
  cases hdiffs : getDiffs r a m.currentBaseCommit none with
  | none =>
    refine ⟨rfl, rfl, ?_⟩
    intro fresh hfresh
    exact ⟨fun p hp => (List.not_mem_nil hp).elim, .inl (getDiffs_none hdiffs hfresh)⟩
  | some diffs =>
    let cleared : Manager :=
      { m with
        needsPostResetDiscovery := true
        pendingReset := false
        cumulative := (applyPolicyToAll a 0 diffs).2
        sentFileStats := fun _ => none
        knownPaths := [] }
    have hfold : (applyPolicyToAll a 0 diffs).1.foldl
        (fun m diff => m.remember r (diffPath diff)) cleared =
          (diffs.map diffPath).foldl (Manager.remember r) cleared := by
      rw [← map_applyPolicyToAll a 0 diffs, List.foldl_map]
    have hsame := sameHead_remember r (diffs.map diffPath) cleared
    dsimp only
    rw [hfold]
    refine ⟨hsame.pendingReset, hsame.lastHeadCommit, ?_⟩
    intro fresh hfresh
    rw [hsame.currentBaseCommit] at hfresh
    obtain ⟨changes, hchanges, hnames⟩ := getDiffs_some hdiffs
    obtain ⟨changes', hchanges', hmem⟩ := mem_fresh hfresh
    cases hchanges.symm.trans hchanges'
    have hknown (p : String) :
        p ∈ ((diffs.map diffPath).foldl (Manager.remember r) cleared).knownPaths ↔ p ∈ fresh := by
      rw [known_remember, hmem, hnames]
      exact or_iff_right List.not_mem_nil
    apply And.intro fun p hp => (hknown p).1 hp
    right
    apply And.intro fun p hp => (hknown p).2 hp
    intro p hp
    have hpath : p ∈ diffs.map diffPath :=
      ((known_remember r (diffs.map diffPath) cleared p).1 hp).resolve_left List.not_mem_nil
    have hstats := stats_remember r (diffs.map diffPath) cleared p
    rw [if_pos hpath] at hstats
    exact statChanged_of_eq hstats fun _ => rfl

theorem Calm.onlyFiles (h : Calm r m) (a : Args) :
    ∃ force, handleReconcile a r m = reconcileFiles a r force m := by
  rw [handleReconcile, h.pendingReset, if_neg Bool.false_ne_true]
  by_cases hhead : m.lastHeadCommit = r.head
  · exact ⟨false, if_pos hhead⟩
  · have hbase := h.head.resolve_left hhead
    have hresets : resets r m = false := by
      rw [resets, hbase, Bool.and_false]
    rw [if_neg hhead, hresets, if_neg Bool.false_ne_true, Manager.followHead, hbase]
    exact ⟨true, rfl⟩

theorem Calm.outcome (h : Calm r m) (a : Args) : Outcome a r m (handleReconcile a r m) := by
  obtain ⟨force, hrun⟩ := h.onlyFiles a
  rw [hrun]
  exact reconcileFiles_outcome a r force m

theorem Refreshes.ranked (h : Refreshes a r m) (hcalm : Calm r m) (houtcome : Outcome a r m result) :
    Idle m result ∧ Ranked a r 3 result.1 ∨ ∃ j < 3, Ranked a r j result.1 := by
  have hafter := hcalm.sameHead houtcome.sameHead
  rcases h.step houtcome with ⟨hidle, hrefreshes⟩ | hcurrent | hclosing
  · exact .inl ⟨hidle, hafter, hrefreshes⟩
  · exact .inr ⟨0, by decide, .inr ⟨hafter, hcurrent⟩⟩
  · exact .inr ⟨2, by decide, hafter, hclosing⟩

theorem followHead_calm (hpending : m.pendingReset = false) (hhead : m.lastHeadCommit ≠ r.head)
    (hresets : resets r m = false) (h : Refreshes a r m) :
    Calm r (m.followHead r) ∧ Refreshes a r (m.followHead r) := by
  rw [resets, decide_eq_true hhead, Bool.true_and] at hresets
  cases hbase : r.mergeBase m.currentTargetBranch with
  | none =>
    rw [Manager.followHead, hbase]
    exact ⟨⟨hpending, .inr hbase⟩, h⟩
  | some base =>
    rw [hbase] at hresets
    have hsame : base = m.currentBaseCommit :=
      Decidable.not_not.1 (of_decide_eq_false (Bool.or_eq_false_iff.1 hresets).1)
    rw [Manager.followHead, hbase, hsame]
    exact ⟨⟨hpending, .inl rfl⟩, h⟩

theorem followHead_head (hresets : resets r m = true) :
    (m.followHead r).lastHeadCommit = r.head := by
  rw [resets, Bool.and_eq_true] at hresets
  rw [Manager.followHead]
  cases hbase : r.mergeBase m.currentTargetBranch with
  | none =>
    rw [hbase] at hresets
    cases hresets.2
  | some base => rfl

theorem ranked_step (a : Args) (r : Repo) (k : Nat) (m : Manager) (h : Ranked a r k m) :
    Quiet a r m ∧ Ranked a r k (handleReconcile a r m).1 ∨
      ∃ j < k, Ranked a r j (handleReconcile a r m).1 := by
  match k, h with
  | 0, .inl hpending =>
    have hrun : handleReconcile a r m = (m, []) := if_pos hpending
    rw [Quiet, hrun]
    exact .inl ⟨⟨rfl, rfl⟩, .inl hpending⟩
  | 0, .inr ⟨hcalm, hcurrent⟩ =>
    obtain ⟨hidle, hafter⟩ := hcurrent.step (hcalm.outcome a)
    exact .inl ⟨hidle, .inr ⟨hcalm.sameHead (hcalm.outcome a).sameHead, hafter⟩⟩
  | 1, ⟨hcalm, hcovering⟩ =>
    have hafter := hcalm.sameHead (hcalm.outcome a).sameHead
    cases hcovering.step (hcalm.outcome a) with
    | inl hidle => exact .inl ⟨hidle.1, hafter, hidle.2⟩
    | inr hcurrent => exact .inr ⟨0, by decide, .inr ⟨hafter, hcurrent⟩⟩
  | 2, ⟨hcalm, hclosing⟩ =>
    have hafter := hcalm.sameHead (hcalm.outcome a).sameHead
    rcases Closing.step hclosing (hcalm.outcome a) with hidle | hcurrent | hcovering
    · exact .inl ⟨hidle.1, hafter, hidle.2⟩
    · exact .inr ⟨0, by decide, .inr ⟨hafter, hcurrent⟩⟩
    · exact .inr ⟨1, by decide, hafter, hcovering⟩
  | 3, ⟨hcalm, hrefreshes⟩ => exact hrefreshes.ranked hcalm (hcalm.outcome a)
  | k + 4, ⟨hpending, hhead, hdiffs⟩ =>
    right
    have hrun : handleReconcile a r m = if resets r m then
        ((resetStream a r (m.followHead r)).1, (resetStream a r (m.followHead r)).2.toList)
        else reconcileFiles a r true (m.followHead r) := by
      rw [handleReconcile, hpending, if_neg Bool.false_ne_true, if_neg hhead]
    cases hresets : resets r m with
    | true =>
      rw [hresets, if_pos rfl] at hrun
      obtain ⟨hcleared, hkept, hcurrent⟩ := resetStream_current a r (m.followHead r)
      rw [hrun]
      exact ⟨0, by omega, .inr ⟨⟨hcleared, .inl (hkept.trans (followHead_head hresets))⟩, hcurrent⟩⟩
    | false =>
      rw [hresets, if_neg Bool.false_ne_true] at hrun
      have hrefreshes := hdiffs.resolve_left (by rw [hresets]; exact Bool.false_ne_true)
      obtain ⟨hcalm, hsame⟩ := followHead_calm hpending hhead hresets hrefreshes
      rw [hrun]
      cases hsame.ranked hcalm (reconcileFiles_outcome a r true (m.followHead r)) with
      | inl hidle => exact ⟨3, by omega, hidle.2⟩
      | inr hlower =>
        obtain ⟨j, hj, hranked⟩ := hlower
        exact ⟨j, by omega, hranked⟩

end

/-- The file of a known path is gone, its stat is remembered, and git reports the path whenever it is
asked for it. -/
structure Stuck (a : Args) (r : Repo) (path : String) (m : Manager) : Prop extends Calm r m where
  known : path ∈ m.knownPaths
  gone : r.stat path = none
  sent : (m.sentFileStats path).isSome = true
  listed : ∃ fresh, getDiffFilePaths r m.currentBaseCommit = some fresh ∧ path ∈ fresh
  asked : ∀ paths, path ∈ paths →
    ∃ diffs, getDiffs r a m.currentBaseCommit (some paths) = some diffs ∧ path ∈ diffs.map diffPath

theorem Stuck.step {a : Args} {r : Repo} {m : Manager} (h : Stuck a r path m) :
    (handleReconcile a r m).2 ≠ [] ∧ Stuck a r path (handleReconcile a r m).1 := by
  obtain ⟨force, hrun⟩ := h.toCalm.onlyFiles a
  have hchanged : statChanged r m path = true := by
    obtain ⟨sent, hsent⟩ := Option.isSome_iff_exists.1 h.sent
    rw [statChanged, h.gone, hsent]
  have hlooks : (m.knownPaths.filter (statChanged r m)).isEmpty = false := by
    rw [List.isEmpty_eq_false_iff]
    exact List.ne_nil_of_mem (List.mem_filter.2 ⟨h.known, hchanged⟩)
  obtain ⟨fresh, hfresh, hin⟩ := h.listed
  have hpath : path ∈ pathsToDiff r m fresh := mem_pathsToDiff.2 ⟨hin, fun _ => hchanged⟩
  obtain ⟨diffs, hdiffs, hname⟩ := h.asked _ hpath
  have hkept := removed_discovered ((m.reconcileCycle + 1) % 256) false m fresh
  obtain ⟨m', patch, hprocess, hupdated, hpatch⟩ := processFileChanges_rediffed hkept hdiffs
  have hresult : handleReconcile a r m = (m',
      sendPatch ((m.knownPaths.filter (· ∉ fresh)).map (.removeRepoDiff a.repoKey)) ++
        sendPatch patch) := by
    rw [hrun, reconcileFiles]
    dsimp only
    rw [hlooks, Bool.not_false, Bool.or_true, Bool.true_or, if_neg (by decide), hfresh]
    dsimp only
    rw [if_neg (List.ne_nil_of_mem hpath), hprocess]
  have hkeeps : ¬ (path ∈ pathsToDiff r m fresh ∧ path ∉ diffs.map diffPath) := fun hp => hp.2 hname
  have hstats := hupdated.stats path hin
  rw [if_neg hkeeps, if_pos hname, h.gone, Option.none_or] at hstats
  rw [hresult]
  constructor
  · intro hnil
    have hne := hpatch (List.ne_nil_of_mem (List.mem_map.1 hname).choose_spec.1)
    have hsends := (List.append_eq_nil_iff.1 hnil).2
    rw [sendPatch, if_neg hne] at hsends
    cases hsends
  · exact {
      toCalm := h.toCalm.sameHead hupdated.toSameHead
      known := (hupdated.known path).2 ⟨.inr hname, hkeeps⟩
      gone := h.gone
      sent := by rw [hstats]; exact h.sent
      listed := by
        rw [hupdated.currentBaseCommit]
        exact h.listed
      asked := by
        rw [hupdated.currentBaseCommit]
        exact h.asked }

theorem Stuck.not_quiesces {a : Args} {r : Repo} {m : Manager} (h : Stuck a r path m) :
    ¬ Quiesces a r m := by
  have hstuck (n : Nat) : Stuck a r path ((fun m => (handleReconcile a r m).1)^[n] m) := by
    induction n with
    | zero => exact h
    | succ n ih =>
      rw [Function.iterate_succ_apply']
      exact ih.step.2
  rintro ⟨n, hn⟩
  exact (hstuck n).step.1 (hn n (Nat.le_refl n)).1

theorem handleReconcile_quiesces (a : Args) (r : Repo) (m : Manager)
    (h : m.pendingReset = true ∨ resets r m = true ∨ Refreshes a r m) : Quiesces a r m := by
  have hranked : ∃ k, Ranked a r k m := by
    cases hpending : m.pendingReset with
    | true => exact ⟨0, .inl hpending⟩
    | false =>
      have hdiffs := h.resolve_left (by rw [hpending]; exact Bool.false_ne_true)
      by_cases hhead : m.lastHeadCommit = r.head
      · have hresets : resets r m = false := by
          rw [resets, decide_eq_false (not_not_intro hhead), Bool.false_and]
        rw [hresets] at hdiffs
        exact ⟨3, ⟨hpending, .inl hhead⟩, hdiffs.resolve_left Bool.false_ne_true⟩
      · exact ⟨4, hpending, hhead, hdiffs⟩
  obtain ⟨k, hk⟩ := hranked
  exact Settling.settles_of_ranked (ranked_step a r) hk

/-- A stream that comes to rest in every state that a run reaches from which the paths are brought
up to date, and in none with a path that is sent again and again. -/
theorem run_quiesces (a : Args) (first : Repo) (events : List (Repo × Event)) (r : Repo) :
    ((run a first events).pendingReset = true ∨ resets r (run a first events) = true ∨
        Refreshes a r (run a first events) → Quiesces a r (run a first events)) ∧
      ∀ path, Stuck a r path (run a first events) → ¬ Quiesces a r (run a first events) :=
  ⟨handleReconcile_quiesces a r _, fun _ => Stuck.not_quiesces⟩

def sampleArgs : Args where
  repoId := 0
  targetBranch := "main"
  baseCommit := 0
  statsOnly := false
  pathPrefix := none
  computeLineChangeCounts _ _ := (1, 1)

def sampleRepo (stat : Option Stat) : Repo where
  head := some 0
  headParent := none
  mergeBase _ := some 0
  targetBranch := some "main"
  changes _ := some [⟨"a.txt", if stat.isSome then .modified else .deleted⟩]
  source _ _ := none
  selects path name := path = name
  baseTree _ := some fun path => if path = "a.txt" then some ⟨4, false, some "old\n"⟩ else none
  stat path := if path = "a.txt" then stat else none
  text path := if path = "a.txt" ∧ stat.isSome then some "new\n" else none

theorem run_quiesces_sample :
    Quiesces sampleArgs (sampleRepo (some (2, 4))) (run sampleArgs (sampleRepo (some (1, 4))) []) := by
  apply (run_quiesces sampleArgs (sampleRepo (some (1, 4))) [] (sampleRepo (some (2, 4)))).1
  right
  right
  intro fresh hfresh hpaths diffs hdiffs
  cases hfresh
  have hnames : diffs.map diffPath = ["a.txt"] := by
    cases hdiffs
    decide
  rw [hnames]
  constructor
  · intro path hpath hstat
    rw [List.mem_singleton.1 hpath] at hstat
    cases hstat
  · intro path hpath hname
    exact absurd hpath hname

/-- A file is deleted once its diff was sent. Every reconcile from then on sends it again, with its
content counted each time. -/
theorem run_not_quiesces :
    let m := run sampleArgs (sampleRepo (some (1, 4))) []
    let next := fun m => (handleReconcile sampleArgs (sampleRepo none) m).1
    ¬ Quiesces sampleArgs (sampleRepo none) m ∧
      (m.cumulative, (next m).cumulative, (next (next m)).cumulative) = (8, 12, 16) := by
  intro m next
  apply And.intro _ (by decide)
  have hstuck : Stuck sampleArgs (sampleRepo none) "a.txt" m := {
    pendingReset := by decide
    head := .inl (by decide)
    known := by decide
    gone := by decide
    sent := by decide
    listed := ⟨["a.txt"], by decide, by decide⟩
    asked := by
      intro paths hpath
      have hselected : selected (sampleRepo none) [⟨"a.txt", .deleted⟩] (some paths) =
          [⟨"a.txt", .deleted⟩] := by
        have hfilters : "a.txt" ∈ paths.filter fun path => !isBlank path :=
          List.mem_filter.2 ⟨hpath, by decide⟩
        rw [selected, if_neg (List.ne_nil_of_mem hfilters)]
        exact List.filter_eq_self.2 fun change hchange => by
          rw [List.mem_singleton.1 hchange, List.any_eq_true]
          exact ⟨"a.txt", hfilters, by decide⟩
      have hstatus : diffStatus (sampleRepo none) 0 (some paths) = diffStatus (sampleRepo none) 0 none := by
        change some ((selected (sampleRepo none) [⟨"a.txt", .deleted⟩] (some paths)).filterMap
          (statusDiffEntry (sampleRepo none)
            (selected (sampleRepo none) [⟨"a.txt", .deleted⟩] (some paths)))) = _
        rw [hselected]
        rfl
      have hbase : m.currentBaseCommit = 0 := by decide
      rw [hbase, getDiffs, hstatus]
      exact ⟨_, rfl, by decide⟩ }
  exact hstuck.not_quiesces

end Cdesktop.DiffStream
