import Mathlib.Data.List.Basic
import Cdesktop.Run
import Mathlib.Data.List.Lex
import Mathlib.Data.String.Basic

/-! The watcher of a directory tree: which directories it watches, and how it follows the changes. -/

namespace Cdesktop.FilesystemWatcher
set_option autoImplicit true

abbrev Path := List String

def alwaysSkipDirs : List String := [".git", "node_modules"]

def shouldSkipDir (name : String) : Bool := name ∈ alwaysSkipDirs

/-- The platform, what the ignore files say of a directory (to the set built from them, and to the
walker with its own rules), and the watches that the system does not grant. -/
structure Settings where
  nativeRecursive : Bool
  ignored : Path → Bool
  walkIgnored : Path → Bool
  refused : Path → Bool

def pathAllowed (settings : Settings) (path : Path) : Bool :=
  path.dropLast.all (fun name => !shouldSkipDir name) && !settings.ignored path

/-- The walker does not yield the directory, nor descend into it. -/
def walkSkips (settings : Settings) (path : Path) : Bool :=
  shouldSkipDir (path.getLastD "") || settings.walkIgnored path

/-- A watch, and whether it still reports: it ends with its directory, when that is removed, or is
moved with one above it. -/
structure Watch where
  path : Path
  recursive : Bool
  alive : Bool

abbrev WatchedDirs := List Watch

namespace WatchedDirs

def contains (watched : WatchedDirs) (path : Path) : Bool := watched.any fun e => e.path = path

def hasRecursiveCover (watched : WatchedDirs) (path : Path) : Bool :=
  watched.any fun e => e.recursive && e.path != path && e.path.isPrefixOf path

def insert (watched : WatchedDirs) (path : Path) (recursive : Bool) : WatchedDirs :=
  watched.filter (fun e => e.path ≠ path) ++ [⟨path, recursive, true⟩]

def removeDirAndChildren (watched : WatchedDirs) (base : Path) : WatchedDirs :=
  watched.filter fun e => !base.isPrefixOf e.path

def removeChildrenOnly (watched : WatchedDirs) (base : Path) : WatchedDirs :=
  watched.filter fun e => !(base.isPrefixOf e.path && e.path != base)

def endBelow (watched : WatchedDirs) (base : Path) : WatchedDirs :=
  watched.map fun e => if base.isPrefixOf e.path then { e with alive := false } else e

end WatchedDirs

/-- One of the descendants has a name to skip, or is ignored and not one the walker yields. -/
def hasIgnoredDescendants (settings : Settings) (dirs allowedDirs : List Path) (dir : Path) : Bool :=
  dirs.any fun d => dir.isPrefixOf d && d != dir &&
    (shouldSkipDir (d.getLastD "") || !allowedDirs.contains d && !pathAllowed settings d)

def walkedDirs (settings : Settings) (dirs : List Path) : List Path :=
  dirs.filter fun d => d.inits.all fun a => a = [] || !walkSkips settings a

/-- The stack of the ancestors, each with whether its watch is recursive, and the directories
that are left. -/
def collectTargets (settings : Settings) (dirs allowedDirs : List Path) :
    List (Path × Bool) → List Path → List (Path × Bool)
  | _, [] => []
  | stack, path :: paths =>
    let stack := stack.dropWhile fun ancestor => !ancestor.1.isPrefixOf path
    if stack.head?.any (·.2) then collectTargets settings dirs allowedDirs stack paths
    else
      let recursive := settings.nativeRecursive &&
        !hasIgnoredDescendants settings dirs allowedDirs path
      (path, recursive) ::
        collectTargets settings dirs allowedDirs ((path, recursive) :: stack) paths

def collectWatchDirectories (settings : Settings) (dirs : List Path) : List (Path × Bool) :=
  let allowedDirs := (walkedDirs settings dirs).mergeSort fun a b => a ≤ b
  collectTargets settings dirs allowedDirs [] allowedDirs

/-- Whether a new directory is watched recursively. Only its own children are looked at. -/
def determineWatchMode (settings : Settings) (dirs : List Path) (path : Path) : Bool :=
  settings.nativeRecursive && !dirs.any fun d => d != [] && d.dropLast = path &&
    (shouldSkipDir (d.getLastD "") || !pathAllowed settings d)

def addDirectoryWatch (settings : Settings) (dirs : List Path) (dirPath : Path)
    (watched : WatchedDirs) : WatchedDirs :=
  if !pathAllowed settings dirPath then watched
  else if watched.contains dirPath || watched.hasRecursiveCover dirPath then watched
  else if settings.refused dirPath then watched
  else
    let recursive := determineWatchMode settings dirs dirPath
    (if recursive then watched.removeChildrenOnly dirPath else watched).insert dirPath recursive

def removeDirectoryWatch (dirPath : Path) (watched : WatchedDirs) : WatchedDirs :=
  watched.removeDirAndChildren dirPath

inductive RenameMode where
  | sideFrom | sideTo | both | any

inductive Event where
  | create (paths : List Path)
  | remove (paths : List Path)
  | name (mode : RenameMode) (paths : List Path)
  | other (paths : List Path)

/-- What the loop does for an event: it takes a path for gone, or adds the directory at it. -/
inductive Action where
  | vanish (path : Path)
  | appear (path : Path)

def Event.actions : Event → List Action
  | .create paths => paths.map .appear
  | .remove paths => paths.map .vanish
  | .name .sideFrom paths => paths.map .vanish
  | .name .sideTo paths => paths.map .appear
  | .name .both paths =>
    match paths with
    | source :: rest => .vanish source :: (rest.getLast?.map Action.appear).toList
    | [] => []
  | .name .any paths => paths.map .vanish ++ paths.map .appear
  | .other _ => []

def Event.paths : Event → List Path
  | .create paths => paths
  | .remove paths => paths
  | .name _ paths => paths
  | .other paths => paths

/-- The directories there are, those that are watched, and what is still to be done for the events
that were reported, in their order. -/
structure World where
  dirs : List Path
  watched : WatchedDirs
  queue : List Action

namespace World

/-- A change of the directory at the path is reported: the one above it is watched, or lies below a
recursive watch. -/
def reports (w : World) (path : Path) : Bool :=
  w.watched.any fun e => e.alive &&
    (e.path = path.dropLast || e.recursive && e.path != path && e.path.isPrefixOf path)

def reportsGone (w : World) (path : Path) : Bool :=
  w.reports path || w.watched.any fun e => e.alive && e.path = path

def emit (events : List Event) (w : World) : World :=
  { w with queue := w.queue ++ events.flatMap Event.actions }

def mkdir (path : Path) (w : World) : World :=
  if path ≠ [] ∧ path ∉ w.dirs ∧ path.dropLast ∈ w.dirs then
    emit (if w.reports path then [.create [path]] else []) { w with dirs := path :: w.dirs }
  else w

/-- A directory with others in it is removed after them. -/
def rmdir (path : Path) (w : World) : World :=
  if path ≠ [] ∧ path ∈ w.dirs ∧ ∀ d ∈ w.dirs, path <+: d → d = path then
    emit (if w.reportsGone path then [.remove [path]] else [])
      { w with
        dirs := w.dirs.filter (· ≠ path)
        watched := w.watched.endBelow path }
  else w

/-- The path of a directory after a directory was renamed. -/
def movedTo (source target d : Path) : Path :=
  if source.isPrefixOf d then target ++ d.drop source.length else d

/-- Some systems tell the sides of a renaming, others only its paths. -/
def renameEvents (sides gone new : Bool) (source target : Path) : List Event :=
  if sides then
    match gone, new with
    | true, true => [.name .both [source, target]]
    | true, false => [.name .sideFrom [source]]
    | false, true => [.name .sideTo [target]]
    | false, false => []
  else
    (if gone then [.name .any [source]] else []) ++ (if new then [.name .any [target]] else [])

/-- A directory is renamed with everything in it. One that has the name is removed before. -/
def rename (sides : Bool) (source target : Path) (w : World) : World :=
  if source ≠ [] ∧ source ∈ w.dirs ∧ target ≠ [] ∧ target ∉ w.dirs ∧ target.dropLast ∈ w.dirs ∧
      ¬ source <+: target then
    emit (renameEvents sides (w.reportsGone source) (w.reports target) source target)
      { w with
        dirs := w.dirs.map (movedTo source target)
        watched := w.watched.endBelow source }
  else w

/-- An event about paths where no directory is: a file's, or one with names from before a renaming. -/
def elsewhere (event : Event) (w : World) : World :=
  if ∀ path ∈ event.paths, path ∉ w.dirs then w.emit [event] else w

/-- The loop, for the next path of an event. -/
def handle (settings : Settings) (w : World) : World :=
  match w.queue with
  | [] => w
  | .vanish path :: queue => { w with watched := removeDirectoryWatch path w.watched, queue }
  | .appear path :: queue =>
    if path ∈ w.dirs then
      { w with watched := addDirectoryWatch settings w.dirs path w.watched, queue }
    else { w with queue }

end World

inductive Step where
  | mkdir (path : Path)
  | rmdir (path : Path)
  | rename (sides : Bool) (source target : Path)
  | elsewhere (event : Event)
  | handle

def World.step (settings : Settings) (w : World) : Step → World
  | .mkdir path => w.mkdir path
  | .rmdir path => w.rmdir path
  | .rename sides source target => w.rename sides source target
  | .elsewhere event => w.elsewhere event
  | .handle => w.handle settings

/-- `async_watcher`: the directories that are collected, less those whose watch is refused. -/
def asyncWatcher (settings : Settings) (dirs : List Path) : World :=
  { dirs
    watched := (collectWatchDirectories settings dirs).foldl
      (fun watched target =>
        if settings.refused target.1 then watched else watched.insert target.1 target.2) []
    queue := [] }

end Cdesktop.FilesystemWatcher
