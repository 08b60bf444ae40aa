import Cdesktop.PathWalk
import Mathlib.Data.List.Infix

/-! The barrier that syncs the directories on the way to a file. -/

namespace Cdesktop.DurableFs
open PathWalk
set_option autoImplicit true

inductive Failure (ε : Type) where
  | sync (error : ε)
  | metadata
deriving DecidableEq

/-- The file system with the depth to which links in links are followed, and the current directory. -/
structure Process (ι : Type) where
  fs : FileSystem ι
  depth : Nat
  currentDir : List Component
  here : ι
  walk_here : ∃ dirs, fs.walk depth fs.root currentDir = some (here, dirs)

section Code

variable {ι ε : Type} (proc : Process ι)

/-- `std::path::absolute`. A dot at the end is dropped. -/
def absolute (path : Path) : Path :=
  { absolute := true
    components := if path.absolute then path.components else proc.currentDir ++ path.components
    ending := if path.ending = .slash then .slash else .bare }

def ancestors (path : Path) : List Path :=
  path.components.inits.reverse.map fun cs =>
    ⟨true, cs, if cs = path.components then path.ending else .bare⟩

structure Barrier where
  /-- Paths are the same where their components are. -/
  visited : List (List Component)
  /-- The last path that was pushed is the first. -/
  pending : List Path
  synced : List (List Component)
deriving DecidableEq

/-- The error of a call of `sync` on a directory, by the number of calls before it. -/
abbrev Sync (ε : Type) := Nat → List Component → Option ε

variable (sync : Sync ε)

def visitEntry (entry : Path) (s : Barrier) : Except (Failure ε) Barrier :=
  if entry.components ∈ s.visited then .ok s
  else
    let s := { s with visited := entry.components :: s.visited }
    if entry.components = [] then .ok s
    else
      let parent := entry.components.dropLast
      match sync s.synced.length parent with
      | some error => .error (.sync error)
      | none =>
        let s := { s with synced := s.synced ++ [parent] }
        match proc.fs.symlinkMetadata proc.depth entry with
        | none => .error .metadata
        | some i =>
          match proc.fs.target? i with
          | some target => .ok { s with pending := target.join parent :: s.pending }
          | none => .ok s

def visitEntries : List Path → Barrier → Except (Failure ε) Barrier
  | [], s => .ok s
  | entry :: entries, s =>
    match visitEntry proc sync entry s with
    | .ok s => visitEntries entries s
    | .error failure => .error failure

/-- The loop, for at most so many rounds. -/
def run : Nat → Barrier → Option (Except (Failure ε) Barrier)
  | 0, _ => none
  | n + 1, s =>
    match s.pending with
    | [] => some (.ok s)
    | path :: pending =>
      match visitEntries proc sync (ancestors path) { s with pending } with
      | .ok s => run n s
      | .error failure => some (.error failure)

def start (path : Path) : Barrier := ⟨[], [absolute proc path], []⟩

def syncParentChainWith (n : Nat) (path : Path) : Option (Except (Failure ε) Barrier) :=
  run proc sync n (start proc path)

/-- The path leads to something, and names are looked up in the directories on the way. -/
def Resolves (path : Path) (dirs : List ι) : Prop :=
  ∃ i, proc.fs.walk proc.depth (proc.fs.start proc.here path) path.components = some (i, dirs) ∧
    (path.ending = .bare ∨ proc.fs.isDir i)

/-- The barrier ends. When it succeeds each of the directories has been synced, and no call of
`sync` has failed; when it does not, the failure is that of a call. -/
structure Complete (path : Path) (dirs : List ι) : Prop where
  terminates : ∃ n r, syncParentChainWith proc sync n path = some r
  covers : ∀ n s, syncParentChainWith proc sync n path = some (.ok s) → ∀ d ∈ dirs,
    ∃ cs ∈ s.synced, ∃ dirs', proc.fs.walk proc.depth proc.fs.root cs = some (d, dirs')
  succeeds : ∀ n s, syncParentChainWith proc sync n path = some (.ok s) →
    ∀ k cs, s.synced[k]? = some cs → sync k cs = none
  fails : ∀ n failure, syncParentChainWith proc sync n path = some (.error failure) →
    ∃ k cs error, sync k cs = some error ∧ failure = .sync error

/-- What the loop has come to before a round. -/
inductive Head (path : Path) : Barrier → Prop where
  | start : Head path (start proc path)
  | round (h : Head path s) (hpending : s.pending = q :: rest)
      (hvisit : visitEntries proc sync (ancestors q) { s with pending := rest } = .ok s') :
      Head path s'

/-- No path that a round takes up has a separator behind the name of a link, other than one that was
visited already. -/
def Plain (path : Path) : Prop := ∀ s q rest, Head proc sync path s → s.pending = q :: rest →
  q.ending ≠ .bare → q.components ∉ s.visited → proc.fs.linkAt proc.depth q.components = none

end Code

section Entries

variable {ι ε : Type} {proc : Process ι} {sync : Sync ε} {failure : Failure ε}

def entryTarget (proc : Process ι) (entry : Path) : Option Path :=
  (proc.fs.symlinkMetadata proc.depth entry).bind proc.fs.target?

theorem target?_of_isDir {fs : FileSystem ι} (h : fs.isDir i) : fs.target? i = none := by
  have hkind : fs.kind i = .dir := of_decide_eq_true h
  rw [FileSystem.target?, hkind]

theorem linkAt_nil : proc.fs.linkAt proc.depth [] = none :=
  target?_of_isDir (decide_eq_true proc.fs.root_dir)

theorem entryTarget_bare (h : entry.ending = .bare) :
    entryTarget proc entry = proc.fs.linkAt proc.depth entry.components := by
  rw [entryTarget, FileSystem.symlinkMetadata, if_pos h]
  rfl

theorem entryTarget_of_ending (h : entry.ending ≠ .bare) : entryTarget proc entry = none := by
  rw [entryTarget, FileSystem.symlinkMetadata, if_neg h, Option.bind_eq_none_iff]
  intro i hi
  exact target?_of_isDir (Option.filter_eq_some_iff.mp hi).2

theorem linkAt_of_entryTarget (h : entryTarget proc entry = some target) :
    proc.fs.linkAt proc.depth entry.components = some target := by
  by_cases hbare : entry.ending = .bare
  · rw [← entryTarget_bare hbare, h]
  · rw [entryTarget_of_ending hbare] at h
    cases h

structure Visited (proc : Process ι) (sync : Sync ε) (entry : Path) (s s' : Barrier) : Prop where
  visited : s'.visited = entry.components :: s.visited
  pending : s'.pending =
    ((entryTarget proc entry).map (·.join entry.components.dropLast)).toList ++ s.pending
  synced : s'.synced = s.synced ++
    if entry.components = [] then [] else [entry.components.dropLast]
  succeeds : entry.components ≠ [] → sync s.synced.length entry.components.dropLast = none

theorem visitEntry_ok (h : visitEntry proc sync entry s = .ok s') :
    entry.components ∈ s.visited ∧ s' = s ∨
    entry.components ∉ s.visited ∧ Visited proc sync entry s s' := by
  rw [visitEntry] at h
  split at h
  · next hmem =>
    cases h
    exact .inl ⟨hmem, rfl⟩
  · next hmem =>
    refine .inr ⟨hmem, ?_⟩
    dsimp only at h
    split at h
    · next hnil =>
      cases h
      have htarget : entryTarget proc entry = none := by
        cases htarget : entryTarget proc entry with
        | none => rfl
        | some target =>
          have hlink := linkAt_of_entryTarget htarget
          rw [hnil, linkAt_nil] at hlink
          cases hlink
      refine ⟨rfl, ?_, ?_, fun hne => absurd hnil hne⟩
      · rw [htarget]
        rfl
      · rw [if_pos hnil, List.append_nil]
    · next hne =>
      split at h
      · cases h
      · next hsync =>
        split at h
        · cases h
        · next i hi =>
          have htarget : entryTarget proc entry = proc.fs.target? i := by
            rw [entryTarget, hi]
            rfl
          split at h <;>
          · next hkind =>
            cases h
            refine ⟨rfl, ?_, (if_neg hne).symm ▸ rfl, fun _ => hsync⟩
            rw [htarget, hkind]
            rfl

theorem visitEntry_error (h : visitEntry proc sync entry s = .error failure) :
    (∃ k cs error, sync k cs = some error ∧ failure = .sync error) ∨
    proc.fs.symlinkMetadata proc.depth entry = none := by
  rw [visitEntry] at h
  split at h
  · cases h
  · dsimp only at h
    split at h
    · cases h
    · split at h
      · next error herror =>
        cases h
        exact .inl ⟨_, _, error, herror, rfl⟩
      · split at h
        · next hnone => exact .inr hnone
        · split at h <;> cases h

structure VisitedAll (proc : Process ι) (entries : List Path) (s s' : Barrier) : Prop where
  visited : ∀ cs, cs ∈ s'.visited ↔ cs ∈ s.visited ∨ ∃ entry ∈ entries, entry.components = cs
  synced : s.synced <+: s'.synced
  parents : ∀ cs ∈ s'.visited, cs ∉ s.visited → cs ≠ [] → cs.dropLast ∈ s'.synced
  pending : ∃ targets, s'.pending = targets ++ s.pending ∧
    (∀ q ∈ targets, ∃ entry ∈ entries, ∃ target, entryTarget proc entry = some target ∧
      q = target.join entry.components.dropLast) ∧
    ∀ cs ∈ s'.visited, cs ∉ s.visited → ∃ entry ∈ entries, entry.components = cs ∧
      ∀ target, entryTarget proc entry = some target → target.join cs.dropLast ∈ targets

theorem VisitedAll.nil (s : Barrier) : VisitedAll proc [] s s := by
  refine ⟨fun cs => (or_iff_left ?_).symm, List.prefix_refl _, fun cs hcs hnot => absurd hcs hnot, [],
    rfl, fun q hq => absurd hq List.not_mem_nil, fun cs hcs hnot => absurd hcs hnot⟩
  rintro ⟨entry, hentry, -⟩
  cases hentry

theorem VisitedAll.singleton (h : visitEntry proc sync entry s = .ok s') :
    VisitedAll proc [entry] s s' := by
  have hsingle (cs : List Component) :
      (∃ e ∈ [entry], e.components = cs) ↔ entry.components = cs := by
    simp only [List.mem_singleton, exists_eq_left]
  obtain ⟨hmem, rfl⟩ | ⟨hmem, hvisit⟩ := visitEntry_ok h
  · refine ⟨fun cs => ?_, List.prefix_refl _, fun cs hcs hnot => absurd hcs hnot, [], rfl,
      fun q hq => absurd hq List.not_mem_nil, fun cs hcs hnot => absurd hcs hnot⟩
    rw [hsingle, or_iff_left_of_imp fun heq => heq ▸ hmem]
  · have hnew {cs : List Component} (hcs : cs ∈ s'.visited) (hnot : cs ∉ s.visited) :
        entry.components = cs := by
      rw [hvisit.visited, List.mem_cons] at hcs
      exact (hcs.resolve_right hnot).symm
    refine ⟨fun cs => ?_, ?_, ?_, _, hvisit.pending, ?_, ?_⟩
    · rw [hsingle, hvisit.visited, List.mem_cons, or_comm, eq_comm]
    · rw [hvisit.synced]
      exact List.prefix_append ..
    · intro cs hcs hnot hne
      cases hnew hcs hnot
      rw [hvisit.synced, if_neg hne]
      exact List.mem_append_right _ List.mem_cons_self
    · intro q hq
      rw [Option.mem_toList, Option.map_eq_some_iff] at hq
      obtain ⟨target, htarget, rfl⟩ := hq
      exact ⟨entry, List.mem_cons_self, target, htarget, rfl⟩
    · intro cs hcs hnot
      cases hnew hcs hnot
      refine ⟨entry, List.mem_cons_self, rfl, fun target htarget => ?_⟩
      rw [htarget]
      exact List.mem_cons_self

theorem VisitedAll.cons (h : VisitedAll proc [entry] s s') (h' : VisitedAll proc entries s' s'') :
    VisitedAll proc (entry :: entries) s s'' := by
  obtain ⟨targets, hpending, htargets, hlinks⟩ := h.pending
  obtain ⟨targets', hpending', htargets', hlinks'⟩ := h'.pending
  have hfirst {e : Path} (he : e ∈ [entry]) : e ∈ entry :: entries :=
    List.mem_cons.mpr (.inl (List.mem_singleton.mp he))
  refine ⟨fun cs => ?_, h.synced.trans h'.synced, ?_, targets' ++ targets, ?_, ?_, ?_⟩
  · rw [h'.visited, h.visited, or_assoc]
    simp only [List.mem_cons, List.not_mem_nil, or_false, exists_eq_left, exists_eq_or_imp]
  · intro cs hcs hnot hne
    by_cases hmem : cs ∈ s'.visited
    · exact h'.synced.subset (h.parents cs hmem hnot hne)
    · exact h'.parents cs hcs hmem hne
  · rw [hpending', hpending, List.append_assoc]
  · intro q hq
    cases List.mem_append.mp hq with
    | inl hq =>
      obtain ⟨e, he, hrest⟩ := htargets' q hq
      exact ⟨e, List.mem_cons_of_mem _ he, hrest⟩
    | inr hq =>
      obtain ⟨e, he, hrest⟩ := htargets q hq
      exact ⟨e, hfirst he, hrest⟩
  · intro cs hcs hnot
    by_cases hmem : cs ∈ s'.visited
    · obtain ⟨e, he, heq, hpush⟩ := hlinks cs hmem hnot
      exact ⟨e, hfirst he, heq, fun target h => List.mem_append_right _ (hpush target h)⟩
    · obtain ⟨e, he, heq, hpush⟩ := hlinks' cs hcs hmem
      exact ⟨e, List.mem_cons_of_mem _ he, heq, fun target h => List.mem_append_left _ (hpush target h)⟩

theorem visitEntries_ok (h : visitEntries proc sync entries s = .ok s') :
    VisitedAll proc entries s s' := by
  induction entries generalizing s with
  | nil =>
    cases h
    exact .nil _
  | cons entry entries ih =>
    rw [visitEntries] at h
    split at h
    · next s₁ hentry => exact (VisitedAll.singleton hentry).cons (ih h)
    · cases h

theorem visitEntries_error (h : visitEntries proc sync entries s = .error failure) :
    (∃ k cs error, sync k cs = some error ∧ failure = .sync error) ∨
    ∃ entry ∈ entries, proc.fs.symlinkMetadata proc.depth entry = none := by
  induction entries generalizing s with
  | nil => cases h
  | cons entry entries ih =>
    rw [visitEntries] at h
    split at h
    · obtain hsync | ⟨e, he, hnone⟩ := ih h
      · exact .inl hsync
      · exact .inr ⟨e, List.mem_cons_of_mem _ he, hnone⟩
    · next hentry =>
      cases h
      obtain hsync | hnone := visitEntry_error hentry
      · exact .inl hsync
      · exact .inr ⟨entry, List.mem_cons_self, hnone⟩

def Succeeded (sync : Sync ε) (s : Barrier) : Prop :=
  ∀ k cs, s.synced[k]? = some cs → sync k cs = none

theorem Succeeded.visitEntry (h : Succeeded sync s) (hentry : visitEntry proc sync entry s = .ok s') :
    Succeeded sync s' := by
  obtain ⟨-, rfl⟩ | ⟨-, hvisit⟩ := visitEntry_ok hentry
  · exact h
  · intro k cs hk
    rw [hvisit.synced] at hk
    split at hk
    · rw [List.append_nil] at hk
      exact h k cs hk
    · next hne =>
      obtain hlt | hge := Nat.lt_or_ge k s.synced.length
      · rw [List.getElem?_append_left hlt] at hk
        exact h k cs hk
      · rw [List.getElem?_append_right hge, List.getElem?_singleton] at hk
        split at hk
        · next hzero =>
          cases hk
          have heq : k = s.synced.length := by omega
          rw [heq]
          exact hvisit.succeeds hne
        · cases hk

theorem Succeeded.visitEntries (h : Succeeded sync s)
    (hentries : visitEntries proc sync entries s = .ok s') : Succeeded sync s' := by
  induction entries generalizing s with
  | nil =>
    cases hentries
    exact h
  | cons entry entries ih =>
    rw [DurableFs.visitEntries] at hentries
    split at hentries
    · next s₁ hentry => exact ih (h.visitEntry hentry) hentries
    · cases hentries

end Entries

section Resolved

variable {ι ε : Type} {proc : Process ι}

def Resolved (proc : Process ι) (path : Path) (dirs : List ι) : Prop :=
  ∃ i, proc.fs.walk proc.depth proc.fs.root path.components = some (i, dirs) ∧
    (path.ending = .bare ∨ proc.fs.isDir i)

theorem mem_ancestors : entry ∈ ancestors path ↔ ∃ cs, cs <+: path.components ∧
    entry = ⟨true, cs, if cs = path.components then path.ending else .bare⟩ := by
  rw [ancestors, List.mem_map]
  simp only [List.mem_reverse, List.mem_inits]
  exact exists_congr fun cs => and_congr_right fun _ => eq_comm

theorem ancestors_components (path : Path) (cs : List Component) :
    (∃ entry ∈ ancestors path, entry.components = cs) ↔ cs <+: path.components := by
  constructor
  · rintro ⟨entry, hentry, rfl⟩
    obtain ⟨cs, hbegins, rfl⟩ := mem_ancestors.mp hentry
    exact hbegins
  · intro hbegins
    exact ⟨_, mem_ancestors.mpr ⟨cs, hbegins, rfl⟩, rfl⟩

theorem Resolved.ancestor (h : Resolved proc path dirs) (hentry : entry ∈ ancestors path) :
    ∃ dirs', Resolved proc entry dirs' ∧ dirs'.length ≤ dirs.length := by
  obtain ⟨cs, hbegins, rfl⟩ := mem_ancestors.mp hentry
  obtain ⟨j, hwalk, hend⟩ := h
  by_cases heq : cs = path.components
  · exact ⟨dirs, ⟨j, heq ▸ hwalk, by rw [if_pos heq]; exact hend⟩, Nat.le_refl _⟩
  · obtain ⟨i, dirs', hcs, hle⟩ := FileSystem.walk_prefix hwalk hbegins
    exact ⟨dirs', ⟨i, hcs, .inl (if_neg heq)⟩, hle.length_le⟩

theorem Resolved.metadata (h : Resolved proc entry dirs) :
    (proc.fs.symlinkMetadata proc.depth entry).isSome := by
  obtain ⟨i, hwalk, hend⟩ := h
  rw [FileSystem.symlinkMetadata]
  split
  · obtain hnil | ⟨cs, c, hcs⟩ := List.eq_nil_or_concat' entry.components
    · rw [hnil]
      rfl
    · rw [hcs] at hwalk ⊢
      obtain ⟨d, dirs', -, hsome, -⟩ := FileSystem.walk_concat hwalk
      exact hsome
  · next hne =>
    rw [hwalk, Option.map_some, Option.filter_some, if_pos (hend.resolve_left hne)]
    rfl

theorem Resolved.target {target : Path} (h : Resolved proc entry dirs)
    (hlink : proc.fs.linkAt proc.depth entry.components = some target) :
    ∃ dirs', Resolved proc (target.join entry.components.dropLast) dirs' ∧
      dirs'.length < dirs.length := by
  obtain ⟨i, hwalk, -⟩ := h
  obtain hnil | ⟨cs, c, hcs⟩ := List.eq_nil_or_concat' entry.components
  · rw [hnil, linkAt_nil] at hlink
    cases hlink
  · rw [hcs] at hwalk hlink ⊢
    obtain ⟨d, dirs₁, hparent, -, hlast⟩ := FileSystem.walk_concat hwalk
    rw [hlink] at hlast
    obtain ⟨dirs₂, htarget, hend, rfl⟩ := hlast
    obtain ⟨dirs', hjoin, -, hle⟩ := FileSystem.walk_join hparent htarget
    rw [List.dropLast_concat]
    refine ⟨dirs', ⟨i, hjoin, ?_⟩, ?_⟩
    · rw [Path.join]
      split <;> exact hend
    · rw [List.length_append, List.length_cons]
      omega

theorem resolves_absolute {path : Path} (h : Resolves proc path dirs) :
    ∃ dirs', Resolved proc (absolute proc path) dirs' ∧ dirs ⊆ dirs' := by
  obtain ⟨i, hwalk, hend⟩ := h
  have hend' : (absolute proc path).ending = .bare ∨ proc.fs.isDir i := by
    rw [absolute]
    dsimp only
    split
    · next hslash =>
      rw [hslash] at hend
      exact hend
    · exact .inl rfl
  rw [FileSystem.start] at hwalk
  cases habsolute : path.absolute with
  | true =>
    rw [habsolute, if_pos rfl] at hwalk
    refine ⟨dirs, ⟨i, ?_, hend'⟩, List.Subset.refl _⟩
    rw [absolute, habsolute]
    exact hwalk
  | false =>
    rw [habsolute, if_neg Bool.false_ne_true] at hwalk
    obtain ⟨dirs₁, hhere⟩ := proc.walk_here
    refine ⟨dirs₁ ++ dirs, ⟨i, ?_, hend'⟩, List.subset_append_right ..⟩
    rw [absolute, habsolute]
    exact FileSystem.walk_append.mpr ⟨proc.here, dirs₁, dirs, hhere, hwalk, rfl⟩

end Resolved

section Loop

variable {ι ε : Type} {proc : Process ι} {sync : Sync ε} {failure : Failure ε}

theorem run_cons (hpending : s.pending = path :: rest) (n : Nat) : run proc sync (n + 1) s =
    match visitEntries proc sync (ancestors path) { s with pending := rest } with
    | .ok s => run proc sync n s
    | .error failure => some (.error failure) := by
  rw [run, hpending]

theorem run_nil (hpending : s.pending = []) (n : Nat) :
    run proc sync (n + 1) s = some (.ok s) := by
  rw [run, hpending]

def Finishes (proc : Process ι) (sync : Sync ε) (s : Barrier) (rest : List Path) : Prop :=
  (∃ n failure, run proc sync n s = some (.error failure)) ∨
  ∃ n s', s'.pending = rest ∧ ∀ m, run proc sync (n + m) s = run proc sync m s'

theorem Finishes.trans {rest' : List Path} (h : Finishes proc sync s rest)
    (hrest : ∀ s', s'.pending = rest → Finishes proc sync s' rest') :
    Finishes proc sync s rest' := by
  obtain hfails | ⟨n, s₁, hpending, hrun⟩ := h
  · exact .inl hfails
  · obtain ⟨m, failure, hfails⟩ | ⟨m, s₂, hpending', hrun'⟩ := hrest s₁ hpending
    · exact .inl ⟨n + m, failure, by rw [hrun, hfails]⟩
    · refine .inr ⟨n + m, s₂, hpending', fun k => ?_⟩
      rw [Nat.add_assoc, hrun, hrun']

theorem finishes_append {paths : List Path}
    (h : ∀ path ∈ paths, ∀ s rest, s.pending = path :: rest → Finishes proc sync s rest)
    (hpending : s.pending = paths ++ rest) : Finishes proc sync s rest := by
  induction paths generalizing s with
  | nil => exact .inr ⟨0, s, hpending, fun m => by rw [Nat.zero_add]⟩
  | cons path paths ih =>
    apply (h path List.mem_cons_self s (paths ++ rest) hpending).trans
    exact fun s' => ih fun p hp => h p (List.mem_cons_of_mem _ hp)

theorem Resolved.finishes (h : Resolved proc path dirs) (hpending : s.pending = path :: rest) :
    Finishes proc sync s rest := by
  induction hn : dirs.length using Nat.strong_induction_on generalizing path dirs s rest with
  | _ n ih =>
    cases hvisit : visitEntries proc sync (ancestors path) { s with pending := rest } with
    | error failure =>
      refine .inl ⟨1, failure, ?_⟩
      rw [run_cons hpending, hvisit]
    | ok s₁ =>
      obtain ⟨targets, hpending₁, htargets, -⟩ := (visitEntries_ok hvisit).pending
      have hstep : Finishes proc sync s (targets ++ rest) := by
        refine .inr ⟨1, s₁, hpending₁, fun m => ?_⟩
        rw [Nat.add_comm, run_cons hpending, hvisit]
      apply hstep.trans
      intro s' hs'
      apply finishes_append _ hs'
      intro q hq s'' rest' hs''
      obtain ⟨entry, hentry, target, htarget, rfl⟩ := htargets q hq
      obtain ⟨dirs₁, hresolved, hle⟩ := h.ancestor hentry
      obtain ⟨dirs₂, hresolved', hlt⟩ := hresolved.target (linkAt_of_entryTarget htarget)
      exact ih dirs₂.length (by omega) hresolved' hs'' rfl

theorem terminates (h : ∀ q ∈ s.pending, ∃ dirs, Resolved proc q dirs) :
    ∃ n r, run proc sync n s = some r := by
  have hfinishes : Finishes proc sync s [] := by
    refine finishes_append ?_ (List.append_nil s.pending).symm
    intro path hpath s' rest hs'
    obtain ⟨dirs, hresolved⟩ := h path hpath
    exact hresolved.finishes hs'
  obtain ⟨n, failure, hrun⟩ | ⟨n, s', hpending, hrun⟩ := hfinishes
  · exact ⟨n, _, hrun⟩
  · exact ⟨n + 1, .ok s', by rw [hrun, run_nil hpending]⟩

end Loop

section Covered

variable {ι ε : Type} {proc : Process ι} {sync : Sync ε} {failure : Failure ε}

/-- The entries above a visited one are visited or come with the paths that are pending, and so is
the target of its link. -/
structure Inv (proc : Process ι) (path : Path) (s : Barrier) : Prop where
  parents : ∀ cs ∈ s.visited, cs ≠ [] → cs.dropLast ∈ s.visited ∧ cs.dropLast ∈ s.synced
  links : ∀ cs ∈ s.visited, ∀ target, proc.fs.linkAt proc.depth cs = some target →
    (target.join cs.dropLast).components ∈ s.visited ∨
    ∃ q ∈ s.pending, q.components = (target.join cs.dropLast).components
  origin : (absolute proc path).components ∈ s.visited ∨
    ∃ q ∈ s.pending, q.components = (absolute proc path).components

theorem Inv.init (proc : Process ι) (path : Path) : Inv proc path (start proc path) :=
  ⟨fun _ hcs => absurd hcs List.not_mem_nil, fun _ hcs => absurd hcs List.not_mem_nil,
    .inr ⟨_, List.mem_cons_self, rfl⟩⟩

theorem Inv.visit (h : Inv proc path s) (hpending : s.pending = q :: rest)
    (hplain : q.ending ≠ .bare → q.components ∉ s.visited →
      proc.fs.linkAt proc.depth q.components = none)
    (hvisit : visitEntries proc sync (ancestors q) { s with pending := rest } = .ok s') :
    Inv proc path s' := by
  have hall := visitEntries_ok hvisit
  obtain ⟨targets, htargets, hfrom, hlinks⟩ := hall.pending
  have hvisited (cs : List Component) : cs ∈ s'.visited ↔ cs ∈ s.visited ∨ cs <+: q.components := by
    rw [hall.visited, ancestors_components]
  have hkept {cs : List Component} (hcs : cs ∈ s.visited ∨ ∃ q ∈ s.pending, q.components = cs) :
      cs ∈ s'.visited ∨ ∃ q ∈ s'.pending, q.components = cs := by
    obtain hcs | ⟨q', hq', rfl⟩ := hcs
    · exact .inl ((hvisited cs).mpr (.inl hcs))
    · rw [hpending] at hq'
      cases List.mem_cons.mp hq' with
      | inl heq => exact .inl ((hvisited _).mpr (.inr (heq ▸ List.prefix_refl _)))
      | inr hq' =>
        refine .inr ⟨q', ?_, rfl⟩
        rw [htargets]
        exact List.mem_append_right _ hq'
  constructor
  · intro cs hcs hne
    have hdrop : cs.dropLast ∈ s'.visited := by
      rw [hvisited] at hcs ⊢
      cases hcs with
      | inl hcs => exact .inl (h.parents cs hcs hne).1
      | inr hcs => exact .inr ((List.dropLast_prefix cs).trans hcs)
    refine ⟨hdrop, ?_⟩
    by_cases hmem : cs ∈ s.visited
    · exact hall.synced.subset (h.parents cs hmem hne).2
    · exact hall.parents cs hcs hmem hne
  · intro cs hcs target htarget
    by_cases hmem : cs ∈ s.visited
    · exact hkept (h.links cs hmem target htarget)
    · obtain ⟨entry, hentry, rfl, hpush⟩ := hlinks cs hcs hmem
      have hread : entryTarget proc entry = some target := by
        by_cases hbare : entry.ending = .bare
        · rw [entryTarget_bare hbare, htarget]
        · -- Only the path itself has something behind its last component.
          obtain ⟨cs, hbegins, rfl⟩ := mem_ancestors.mp hentry
          by_cases heq : cs = q.components
          · rw [if_pos heq] at hbare
            have hnone := hplain hbare fun hvisited => hmem (heq ▸ hvisited)
            rw [← heq, htarget] at hnone
            cases hnone
          · exact absurd (if_neg heq) hbare
      refine .inr ⟨_, ?_, rfl⟩
      rw [htargets]
      exact List.mem_append_left _ (hpush target hread)
  · exact hkept h.origin

theorem run_preserves {P : Barrier → Prop}
    (hround : ∀ s s' q rest, P s → s.pending = q :: rest →
      visitEntries proc sync (ancestors q) { s with pending := rest } = .ok s' → P s')
    (h : P s) (hrun : run proc sync n s = some (.ok s')) : P s' ∧ s'.pending = [] := by
  induction n generalizing s with
  | zero => cases hrun
  | succ n ih =>
    cases hpending : s.pending with
    | nil =>
      rw [run_nil hpending] at hrun
      cases hrun
      exact ⟨h, hpending⟩
    | cons q rest =>
      rw [run_cons hpending] at hrun
      split at hrun
      · next s₁ hvisit => exact ih (hround s s₁ q rest h hpending hvisit) hrun
      · cases hrun

theorem Inv.covers (h : Inv proc path s) (hpending : s.pending = []) (hcs : cs ∈ s.visited)
    (hwalk : proc.fs.walk proc.depth proc.fs.root cs = some (j, dirs)) :
    ∀ d ∈ dirs, ∃ cs ∈ s.synced, ∃ dirs', proc.fs.walk proc.depth proc.fs.root cs = some (d, dirs') := by
  induction hn : dirs.length using Nat.strong_induction_on generalizing cs j dirs with
  | _ n ih =>
    obtain rfl | ⟨parent, c, rfl⟩ := List.eq_nil_or_concat' cs
    · have hnil : proc.fs.walk proc.depth proc.fs.root [] = some (proc.fs.root, []) := by
        cases proc.depth <;> rfl
      rw [hnil] at hwalk
      cases hwalk
      exact fun d hd => absurd hd List.not_mem_nil
    · have hne : parent ++ [c] ≠ [] := List.append_ne_nil_of_right_ne_nil _ (List.cons_ne_nil _ _)
      obtain ⟨hvisited, hsynced⟩ := h.parents _ hcs hne
      rw [List.dropLast_concat] at hvisited hsynced
      obtain ⟨d₀, dirs₁, hparent, -, hlast⟩ := FileSystem.walk_concat hwalk
      have hhere : ∃ cs ∈ s.synced, ∃ dirs', proc.fs.walk proc.depth proc.fs.root cs = some (d₀, dirs') :=
        ⟨parent, hsynced, dirs₁, hparent⟩
      cases hlink : proc.fs.linkAt proc.depth (parent ++ [c]) with
      | none =>
        rw [hlink] at hlast
        subst hlast
        rw [List.length_append, List.length_singleton] at hn
        intro d hd
        cases List.mem_append.mp hd with
        | inl hd => exact ih dirs₁.length (by omega) hvisited hparent rfl d hd
        | inr hd =>
          rw [List.mem_singleton.mp hd]
          exact hhere
      | some target =>
        rw [hlink] at hlast
        obtain ⟨dirs₂, htarget, -, rfl⟩ := hlast
        obtain ⟨dirs', hjoin, hsubset, hle⟩ := FileSystem.walk_join hparent htarget
        rw [List.length_append, List.length_cons] at hn
        have hjoined := h.links _ hcs target hlink
        rw [List.dropLast_concat, hpending] at hjoined
        have htargetVisited := hjoined.resolve_right fun ⟨q, hq, _⟩ => absurd hq List.not_mem_nil
        intro d hd
        cases List.mem_append.mp hd with
        | inl hd => exact ih dirs₁.length (by omega) hvisited hparent rfl d hd
        | inr hd =>
          cases List.mem_cons.mp hd with
          | inl heq =>
            rw [heq]
            exact hhere
          | inr hd => exact ih dirs'.length (by omega) htargetVisited hjoin rfl d (hsubset hd)

theorem run_fails (h : ∀ q ∈ s.pending, ∃ dirs, Resolved proc q dirs)
    (hrun : run proc sync n s = some (.error failure)) :
    ∃ k cs error, sync k cs = some error ∧ failure = .sync error := by
  induction n generalizing s with
  | zero => cases hrun
  | succ n ih =>
    cases hpending : s.pending with
    | nil =>
      rw [run_nil hpending] at hrun
      cases hrun
    | cons q rest =>
      rw [run_cons hpending] at hrun
      obtain ⟨dirs, hresolved⟩ := h q (hpending ▸ List.mem_cons_self)
      split at hrun
      · next s₁ hvisit =>
        apply ih _ hrun
        obtain ⟨targets, htargets, hfrom, -⟩ := (visitEntries_ok hvisit).pending
        intro q' hq'
        rw [htargets] at hq'
        cases List.mem_append.mp hq' with
        | inl hq' =>
          obtain ⟨entry, hentry, target, htarget, rfl⟩ := hfrom q' hq'
          obtain ⟨dirs₁, hentryResolved, -⟩ := hresolved.ancestor hentry
          obtain ⟨dirs₂, htargetResolved, -⟩ := hentryResolved.target (linkAt_of_entryTarget htarget)
          exact ⟨dirs₂, htargetResolved⟩
        | inr hq' => exact h q' (hpending ▸ List.mem_cons_of_mem _ hq')
      · next hvisit =>
        cases hrun
        obtain hsync | ⟨entry, hentry, hnone⟩ := visitEntries_error hvisit
        · exact hsync
        · obtain ⟨dirs₁, hentryResolved, -⟩ := hresolved.ancestor hentry
          have hsome := hentryResolved.metadata
          rw [hnone] at hsome
          cases hsome

/-- The barrier is complete where no path on the way has a separator behind the name of a link that
was not visited before. -/
theorem complete_of_plain (proc : Process ι) (sync : Sync ε) (path : Path) (dirs : List ι)
    (hresolves : Resolves proc path dirs) (hplain : Plain proc sync path) :
    Complete proc sync path dirs := by
  obtain ⟨dirs', hresolved, hsubset⟩ := resolves_absolute hresolves
  have hpaths : ∀ q ∈ (start proc path).pending, ∃ dirs, Resolved proc q dirs := by
    intro q hq
    rw [List.mem_singleton.mp hq]
    exact ⟨dirs', hresolved⟩
  constructor
  · exact terminates hpaths
  · intro n s hrun d hd
    have hround (s s' : Barrier) (q : Path) (rest : List Path)
        (h : Head proc sync path s ∧ Inv proc path s) (hpending : s.pending = q :: rest)
        (hvisit : visitEntries proc sync (ancestors q) { s with pending := rest } = .ok s') :
        Head proc sync path s' ∧ Inv proc path s' :=
      ⟨h.1.round hpending hvisit, h.2.visit hpending (hplain s q rest h.1 hpending) hvisit⟩
    obtain ⟨⟨-, hinv⟩, hpending⟩ := run_preserves hround ⟨.start, .init proc path⟩ hrun
    obtain ⟨i, hwalk, -⟩ := hresolved
    have hstart := hinv.origin
    rw [hpending] at hstart
    have hvisited := hstart.resolve_right fun ⟨q, hq, _⟩ => absurd hq List.not_mem_nil
    exact hinv.covers hpending hvisited hwalk d (hsubset hd)
  · intro n s hrun
    have hnone : Succeeded sync (start proc path) := fun k cs hk => by simp [start] at hk
    have hround (s s' : Barrier) (q : Path) (rest : List Path) (h : Succeeded sync s)
        (_ : s.pending = q :: rest)
        (hvisit : visitEntries proc sync (ancestors q) { s with pending := rest } = .ok s') :
        Succeeded sync s' := Succeeded.visitEntries (s := { s with pending := rest }) h hvisit
    exact (run_preserves hround hnone hrun).1
  · exact fun n failure hrun => run_fails hpaths hrun

end Covered

def linkedFs (ending : Ending) : FileSystem Nat where
  root := 0
  kind i := match i with
    | 1 => .link ⟨false, [.normal "second"], ending⟩
    | 2 => .link ⟨false, [.normal "sub", .normal "dir"], .bare⟩
    | 5 => .file
    | _ => .dir
  root_dir := rfl
  entries d name := match d, name with
    | 0, "first" => some 1
    | 0, "second" => some 2
    | 0, "sub" => some 3
    | 3, "dir" => some 4
    | 4, "owner" => some 5
    | _, _ => none
  up _ := 0
  up_dir _ _ := rfl

def linked (ending : Ending) : Process Nat where
  fs := linkedFs ending
  depth := 40
  currentDir := []
  here := 0
  walk_here := ⟨[], rfl⟩

def owner : Path := ⟨true, [.normal "first", .normal "owner"], .bare⟩

def noError : Sync String := fun _ _ => none

theorem linked_bare (h : (linkedFs .bare).target? i = some target) : target.ending = .bare := by
  have hkind : (linkedFs .bare).kind i = .link target := by
    rw [FileSystem.target?] at h
    split at h
    · next hkind =>
      cases h
      exact hkind
    · cases h
  change (match i with
    | 1 => Kind.link ⟨false, [.normal "second"], .bare⟩
    | 2 => .link ⟨false, [.normal "sub", .normal "dir"], .bare⟩
    | 5 => .file
    | _ => .dir) = .link target at hkind
  split at hkind <;> cases hkind <;> rfl

theorem bare_of_head (h : Head (linked .bare) noError owner s) :
    ∀ q ∈ s.pending, q.ending = .bare := by
  induction h with
  | start => decide
  | round _ hpending hvisit ih =>
    obtain ⟨targets, htargets, hfrom, -⟩ := (visitEntries_ok hvisit).pending
    rw [htargets]
    intro q hq
    cases List.mem_append.mp hq with
    | inl hq =>
      obtain ⟨entry, -, target, htarget, rfl⟩ := hfrom q hq
      obtain ⟨i, -, htarget⟩ := Option.bind_eq_some_iff.mp htarget
      have hbare : target.ending = .bare := linked_bare htarget
      rw [Path.join]
      split <;> exact hbare
    | inr hq => exact ih q (hpending ▸ List.mem_cons_of_mem _ hq)

theorem complete_linked : Complete (linked .bare) noError owner [0, 0, 0, 3, 4] := by
  apply complete_of_plain
  · exact ⟨5, by decide +kernel, .inl rfl⟩
  · intro s q rest h hpending hbare
    exact absurd (bare_of_head h q (hpending ▸ List.mem_cons_self)) hbare

/-- Behind a link to `second/` the directory `sub` is not synced. -/
theorem not_complete_linked :
    Resolves (linked .slash) owner [0, 0, 0, 3, 4] ∧
    ¬ Complete (linked .slash) noError owner [0, 0, 0, 3, 4] := by
  refine ⟨⟨5, by decide +kernel, .inl rfl⟩, fun h => ?_⟩
  have hrun : syncParentChainWith (linked .slash) noError 3 owner = some (.ok
      ⟨[[.normal "second"], [], [.normal "first"], [.normal "first", .normal "owner"]], [],
        [[.normal "first"], [], []]⟩) := by
    decide +kernel
  obtain ⟨cs, hcs, dirs', hwalk⟩ := h.covers 3 _ hrun 3 (by decide)
  have hnone : ∀ cs ∈ [[Component.normal "first"], [], []],
      ((linked .slash).fs.walk 40 0 cs).map (·.1) ≠ some 3 := by
    decide +kernel
  apply hnone cs hcs
  change (linked .slash).fs.walk 40 0 cs = _ at hwalk
  rw [hwalk]
  rfl

end Cdesktop.DurableFs
