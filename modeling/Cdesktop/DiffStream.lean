import Cdesktop.Settling
import Cdesktop.TrustedKeys

/-! The stream of the diffs of a worktree, with what it remembers of the files it has sent. -/

namespace Cdesktop.DiffStream
open TrustedKeys (isBlank)
set_option autoImplicit true

abbrev Stat := Nat × Nat

inductive ChangeType where
  | added
  | deleted
  | modified
  | renamed
deriving DecidableEq

inductive DiffChangeKind where
  | added
  | deleted
  | modified
  | renamed
  | permissionChange
deriving DecidableEq

/-- A line of `git diff --name-status`. -/
structure StatusDiffEntry where
  change : ChangeType
  path : String
  oldPath : Option String

structure Diff where
  change : DiffChangeKind
  oldPath : Option String
  newPath : Option String
  oldContent : Option String
  newContent : Option String
  contentOmitted : Bool
  additions : Option Nat
  deletions : Option Nat
  repoId : Option Nat

/-- A path that differs between a base commit and the worktree, before renames are looked for. -/
inductive ChangeKind where
  | added
  | modified
  | deleted
deriving DecidableEq

structure Change where
  name : String
  kind : ChangeKind

structure Blob where
  size : Nat
  isBinary : Bool
  text : Option String

structure Repo where
  head : Option Nat
  /-- The first parent of `HEAD`. -/
  headParent : Option Nat
  mergeBase : String → Option Nat
  targetBranch : Option String
  /-- What differs from a base commit, where git does not fail. -/
  changes : Nat → Option (List Change)
  /-- The deleted path that git takes an added one to be renamed from, among the changes compared. -/
  source : List Change → String → Option String
  /-- Whether a path given to git selects the path that it prints so. -/
  selects : String → String → Bool
  /-- The files of a base commit, where it can be read. -/
  baseTree : Nat → Option (String → Option Blob)
  stat : String → Option Stat
  text : String → Option String

structure Args where
  repoId : Nat
  targetBranch : String
  baseCommit : Nat
  statsOnly : Bool
  pathPrefix : Option String
  /-- The lines added and removed between two texts. -/
  computeLineChangeCounts : String → String → Nat × Nat

inductive PatchOp where
  | replaceRepoDiffs (repoKey : String) (diffs : List (String × Diff))
  | addRepoDiff (repoKey path : String) (diff : Diff)
  | removeRepoDiff (repoKey path : String)

abbrev Patch := List PatchOp

structure Manager where
  cumulative : Nat
  knownPaths : List String
  sentFileStats : String → Option Stat
  currentBaseCommit : Nat
  currentTargetBranch : String
  lastHeadCommit : Option Nat
  reconcileCycle : Nat
  needsPostResetDiscovery : Bool
  pendingReset : Bool
  ended : Bool

def maxInlineDiffBytes : Nat := 2 * 1024 * 1024

def maxCumulativeDiffBytes : Nat := 200 * 1024 * 1024

section
variable (r : Repo)

/-- The changes that are compared. Blank paths do not filter. -/
def selected (changes : List Change) (pathFilter : Option (List String)) : List Change :=
  match pathFilter with
  | none => changes
  | some paths =>
    let filters := paths.filter fun path => !isBlank path
    if filters = [] then changes
    else changes.filter fun change => filters.any fun path => r.selects path change.name

/-- A path that another one is renamed from has no line of its own. -/
def statusDiffEntry (compared : List Change) (change : Change) : Option StatusDiffEntry :=
  match change.kind with
  | .added =>
    match r.source compared change.name with
    | some old => some ⟨.renamed, change.name, some old⟩
    | none => some ⟨.added, change.name, none⟩
  | .modified => some ⟨.modified, change.name, none⟩
  | .deleted =>
    if compared.any fun other =>
        other.kind = .added && r.source compared other.name = some change.name then none
    else some ⟨.deleted, change.name, none⟩

def diffStatus (baseCommit : Nat) (pathFilter : Option (List String)) :
    Option (List StatusDiffEntry) :=
  (r.changes baseCommit).map fun changes =>
    let compared := selected r changes pathFilter
    compared.filterMap (statusDiffEntry r compared)

def getDiffFilePaths (baseCommit : Nat) : Option (List String) :=
  (diffStatus r baseCommit none).map fun entries => (entries.map (·.path)).dedup

def lineCount (text : String) : Nat :=
  let pieces := text.splitOn "\n"
  if pieces.getLast? = some "" then pieces.length - 1 else pieces.length

def Blob.toText (blob : Blob) : Option String := if blob.isBinary then none else blob.text

def statusEntryToDiff (a : Args) (baseTree : String → Option Blob) (e : StatusDiffEntry) : Diff :=
  let change : DiffChangeKind :=
    match e.change with
    | .added => .added
    | .deleted => .deleted
    | .modified => .modified
    | .renamed => .renamed
  let oldPath :=
    match e.change with
    | .added => none
    | .deleted | .modified => some (e.oldPath.getD e.path)
    | .renamed => e.oldPath
  let newPath := if e.change = .deleted then none else some e.path
  let oldBlob := oldPath.bind baseTree
  let contentOmitted :=
    oldBlob.any (fun blob => !blob.isBinary && blob.size > maxInlineDiffBytes) ||
      (newPath.bind r.stat).any fun stat => stat.2 > maxInlineDiffBytes
  let oldContent := if contentOmitted then none else oldBlob.bind (·.toText)
  let newContent := if contentOmitted then none else newPath.bind r.text
  let counts :=
    match oldContent, newContent with
    | some old, some new =>
      (some (a.computeLineChangeCounts old new).1, some (a.computeLineChangeCounts old new).2)
    | some old, none => (some 0, some (lineCount old))
    | none, some new => (some (lineCount new), some 0)
    | none, none => (none, none)
  { change :=
      if change = .modified ∧ oldContent.isSome ∧ oldContent = newContent then .permissionChange
      else change
    oldPath
    newPath
    oldContent
    newContent
    contentOmitted
    additions := counts.1
    deletions := counts.2
    repoId := none }

def getDiffs (a : Args) (baseCommit : Nat) (pathFilter : Option (List String)) :
    Option (List Diff) :=
  (r.baseTree baseCommit).bind fun baseTree =>
    (diffStatus r baseCommit pathFilter).map fun entries =>
      entries.map (statusEntryToDiff r a baseTree)

end

def diffPath (diff : Diff) : String := (diff.newPath.or diff.oldPath).getD ""

def omitDiffContents (a : Args) (diff : Diff) : Diff :=
  let counted :=
    if diff.additions = none ∧ diff.deletions = none ∧
        (diff.oldContent.isSome ∨ diff.newContent.isSome) then
      let counts := a.computeLineChangeCounts (diff.oldContent.getD "") (diff.newContent.getD "")
      { diff with
        additions := some counts.1
        deletions := some counts.2 }
    else diff
  { counted with
    oldContent := none
    newContent := none
    contentOmitted := true }

def contentSize (diff : Diff) : Nat :=
  (diff.oldContent.map (·.utf8ByteSize)).getD 0 + (diff.newContent.map (·.utf8ByteSize)).getD 0

def applyStreamOmitPolicy (a : Args) (sentBytes : Nat) (diff : Diff) : Diff × Nat :=
  if a.statsOnly then (omitDiffContents a diff, sentBytes)
  else if contentSize diff = 0 then (diff, sentBytes)
  else if sentBytes + contentSize diff > maxCumulativeDiffBytes then
    (omitDiffContents a diff, sentBytes)
  else (diff, sentBytes + contentSize diff)

def applyPolicyToAll (a : Args) : Nat → List Diff → List Diff × Nat
  | sentBytes, [] => ([], sentBytes)
  | sentBytes, diff :: diffs =>
    let (sent, sentBytes) := applyStreamOmitPolicy a sentBytes diff
    let (rest, sentBytes) := applyPolicyToAll a sentBytes diffs
    (sent :: rest, sentBytes)

def prefixPath (path : String) (before : Option String) : String :=
  match before with
  | some p => p ++ "/" ++ path
  | none => path

def Args.repoKey (a : Args) : String := a.pathPrefix.getD "_"

def Args.address (a : Args) (diff : Diff) : Diff :=
  { diff with
    oldPath := diff.oldPath.map (prefixPath · a.pathPrefix)
    newPath := diff.newPath.map (prefixPath · a.pathPrefix)
    repoId := some a.repoId }

def Manager.new (a : Args) : Manager where
  cumulative := 0
  knownPaths := []
  sentFileStats _ := none
  currentBaseCommit := a.baseCommit
  currentTargetBranch := a.targetBranch
  lastHeadCommit := none
  reconcileCycle := 0
  needsPostResetDiscovery := false
  pendingReset := false
  ended := false

def Manager.remember (r : Repo) (m : Manager) (path : String) : Manager :=
  { m with
    knownPaths := m.knownPaths.insert path
    sentFileStats := fun p => if p = path then (r.stat path).or (m.sentFileStats p) else m.sentFileStats p }

def Manager.forget (m : Manager) (path : String) : Manager :=
  { m with
    knownPaths := m.knownPaths.filter (· ≠ path)
    sentFileStats := fun p => if p = path then none else m.sentFileStats p }

/-- A patch with nothing in it is not sent. -/
def sendPatch (patch : Patch) : List Patch := if patch = [] then [] else [patch]

/-- Without a patch where the diffs cannot be read. -/
def resetStream (a : Args) (r : Repo) (m : Manager) : Manager × Option Patch :=
  let cleared :=
    { m with
      needsPostResetDiscovery := true
      pendingReset := false
      cumulative := 0
      sentFileStats := fun _ => none
      knownPaths := [] }
  match getDiffs r a m.currentBaseCommit none with
  | none => (cleared, none)
  | some diffs =>
    let (sent, cumulative) := applyPolicyToAll a 0 diffs
    (sent.foldl (fun m diff => m.remember r (diffPath diff)) { cleared with cumulative },
      some [.replaceRepoDiffs a.repoKey (sent.map fun diff => (diffPath diff, a.address diff))])

/-- The diffs of some paths are sent again. Those that have none are taken back. -/
def processFileChanges (a : Args) (r : Repo) (changedPaths : List String) (m : Manager) :
    Option (Manager × Patch) :=
  (getDiffs r a m.currentBaseCommit (some changedPaths)).map fun diffs =>
    let (sent, cumulative) := applyPolicyToAll a m.cumulative diffs
    let filesWithDiffs := diffs.map diffPath
    let gone := changedPaths.filter (· ∉ filesWithDiffs)
    (gone.foldl Manager.forget (filesWithDiffs.foldl (Manager.remember r) { m with cumulative }),
      (sent.map fun diff => .addRepoDiff a.repoKey (diffPath diff) (a.address diff)) ++
        gone.map (.removeRepoDiff a.repoKey))

/-- `HEAD` is a commit on the one seen last. -/
def isChildOfCurrentHead (r : Repo) (m : Manager) : Bool :=
  match m.lastHeadCommit with
  | some last => r.headParent = some last
  | none => false

/-- The remembered stat of a path is not the one of its file. -/
def statChanged (r : Repo) (m : Manager) (path : String) : Bool :=
  match r.stat path, m.sentFileStats path with
  | some current, some sent => current ≠ sent
  | none, some _ => true
  | some _, none => true
  | none, none => false

def pathsToDiff (r : Repo) (m : Manager) (fresh : List String) : List String :=
  ((m.knownPaths.filter (statChanged r m)).filter (· ∈ fresh)) ++ fresh.filter (· ∉ m.knownPaths)

def reconcileFiles (a : Args) (r : Repo) (forceDiscovery : Bool) (m : Manager) :
    Manager × List Patch :=
  let changed := m.knownPaths.filter (statChanged r m)
  let counted := { m with reconcileCycle := (m.reconcileCycle + 1) % 256 }
  let runDiscovery := forceDiscovery || m.needsPostResetDiscovery || !changed.isEmpty ||
    counted.reconcileCycle % 6 = 0
  if !runDiscovery then (counted, [])
  else
    match getDiffFilePaths r m.currentBaseCommit with
    | none => (counted, [])
    | some fresh =>
      let removed := m.knownPaths.filter (· ∉ fresh)
      let kept := removed.foldl Manager.forget { counted with needsPostResetDiscovery := false }
      let removals := sendPatch (removed.map (.removeRepoDiff a.repoKey))
      if pathsToDiff r m fresh = [] then (kept, removals)
      else
        match processFileChanges a r (pathsToDiff r m fresh) kept with
        | none => (kept, removals)
        | some (updated, patch) => (updated, removals ++ sendPatch patch)

/-- `HEAD` has changed in a way that all diffs are sent anew for. -/
def resets (r : Repo) (m : Manager) : Bool :=
  m.lastHeadCommit ≠ r.head &&
    match r.mergeBase m.currentTargetBranch with
    | some base => base ≠ m.currentBaseCommit || !isChildOfCurrentHead r m
    | none => false

/-- `HEAD` and its base commit as they are now. Without a base commit, both stay as they were. -/
def Manager.followHead (r : Repo) (m : Manager) : Manager :=
  match r.mergeBase m.currentTargetBranch with
  | some base =>
    { m with
      lastHeadCommit := r.head
      currentBaseCommit := base }
  | none => m

def handleReconcile (a : Args) (r : Repo) (m : Manager) : Manager × List Patch :=
  if m.pendingReset then (m, [])
  else if m.lastHeadCommit = r.head then reconcileFiles a r false m
  else if resets r m then
    ((resetStream a r (m.followHead r)).1, (resetStream a r (m.followHead r)).2.toList)
  else reconcileFiles a r true (m.followHead r)

inductive Event where
  | filesystem (changedPaths : List String)
  | gitStateChange
  | checkTarget
  | reconcile
  | debouncedReset

def resetOrEnd (a : Args) (r : Repo) (m : Manager) : Manager × List Patch :=
  match resetStream a r m with
  | (m, some patch) => (m, [patch])
  | (m, none) => ({ m with ended := true }, [])

def Manager.step (a : Args) (r : Repo) (m : Manager) : Event → Manager × List Patch
  | .filesystem changedPaths =>
    if changedPaths = [] then (m, [])
    else
      match processFileChanges a r changedPaths m with
      | some (m, patch) => (m, sendPatch patch)
      | none => (m, [])
  | .gitStateChange =>
    if isChildOfCurrentHead r m then (m, []) else ({ m with pendingReset := true }, [])
  | .checkTarget =>
    match r.targetBranch with
    | none => (m, [])
    | some target =>
      match r.mergeBase target with
      | some base =>
        if target = m.currentTargetBranch then (m, [])
        else resetOrEnd a r { m with currentTargetBranch := target, currentBaseCommit := base }
      | none => (m, [])
  | .reconcile => handleReconcile a r m
  | .debouncedReset =>
    if m.pendingReset then
      let m := { m with currentBaseCommit := (r.mergeBase m.currentTargetBranch).getD m.currentBaseCommit }
      resetOrEnd a r { m with lastHeadCommit := r.head }
    else (m, [])

def Manager.exec (a : Args) (m : Manager) (event : Repo × Event) : Manager :=
  if m.ended then m else (m.step a event.1 event.2).1

/-- The stream sends all diffs, and then sees one event after another. -/
def run (a : Args) (first : Repo) (events : List (Repo × Event)) : Manager :=
  let started := (resetOrEnd a first (Manager.new a)).1
  events.foldl (Manager.exec a) { started with lastHeadCommit := first.head }

/-- A reconcile sends no patch, and no more content counts as sent. -/
def Quiet (a : Args) (r : Repo) (m : Manager) : Prop :=
  (handleReconcile a r m).2 = [] ∧ (handleReconcile a r m).1.cumulative = m.cumulative

/-- Where nothing changes any more, the reconciles come to send nothing. -/
def Quiesces (a : Args) (r : Repo) (m : Manager) : Prop :=
  Settling.Settles (fun m => (handleReconcile a r m).1) (Quiet a r) m

/-- A path that, given to git, selects the path printed so, and besides it only deleted ones. -/
def Lone (r : Repo) (baseCommit : Nat) (path : String) : Prop :=
  isBlank path = false ∧
    ∀ changes ∈ r.changes baseCommit,
      (∃ change ∈ changes, change.name = path ∧ r.selects path path = true) ∧
      ∀ change ∈ changes, r.selects path change.name = true → change.kind = .deleted

/-- Of the paths that the next reconcile diffs again, those with a diff whose file is gone have no
stat remembered, and those without one can be diffed by themselves. -/
def Refreshes (a : Args) (r : Repo) (m : Manager) : Prop :=
  ∀ fresh ∈ getDiffFilePaths r m.currentBaseCommit, pathsToDiff r m fresh ≠ [] →
    ∀ diffs ∈ getDiffs r a m.currentBaseCommit (some (pathsToDiff r m fresh)),
      (∀ path ∈ diffs.map diffPath, r.stat path = none → m.sentFileStats path = none) ∧
      ∀ path ∈ pathsToDiff r m fresh, path ∉ diffs.map diffPath → Lone r m.currentBaseCommit path

end Cdesktop.DiffStream
