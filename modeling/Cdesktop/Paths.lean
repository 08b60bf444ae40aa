import Mathlib.Data.List.Infix
import Mathlib.Data.List.SplitOn

/-! Paths of a Unix file system, and the directories that they name. -/

namespace Paths
set_option autoImplicit true

/-- The text of a path. -/
abbrev Path := String

inductive Component where
  | rootDir
  | curDir
  | parentDir
  | normal (name : String)
deriving DecidableEq

def isAbsolute (path : Path) : Bool := path.toList.head? = some '/'

/-- A name between two separators. A dot counts only where a relative path begins with it. -/
def component (name : List Char) : Option Component :=
  if name = [] ∨ name = ['.'] then none
  else if name = ['.', '.'] then some .parentDir
  else some (.normal (String.ofList name))

def components (path : Path) : List Component :=
  let names := path.toList.splitOn '/'
  let front :=
    if isAbsolute path then [.rootDir] else if names.head? = some ['.'] then [.curDir] else []
  front ++ names.filterMap component

def same (path other : Path) : Bool := components path = components other

def startsWith (path base : Path) : Bool := (components base).isPrefixOf (components path)

def join (path name : Path) : Path :=
  if isAbsolute name then name
  else if path = "" ∨ path.toList.getLast? = some '/' then path ++ name
  else path ++ "/" ++ name

/-- A directory or a file, by the names on the way to it from the root. -/
abbrev Node := List String

/-- What a path names, seen from a directory. There are no symbolic links. -/
def resolve (cwd : Node) (path : Path) : Node :=
  (components path).foldl
    (fun node component =>
      match component with
      | .rootDir => []
      | .curDir => node
      | .parentDir => node.dropLast
      | .normal name => node ++ [name])
    cwd

abbrev Tree := Node → Bool

/-- What is at or below the node goes, but for what is kept. -/
def removeBelow (node : Node) (kept : Node → Bool) (tree : Tree) : Tree :=
  fun n => tree n && (!node.isPrefixOf n || kept n)

theorem startsWith_of_same (h : same path other = true) : startsWith path other = true := by
  have heq : components path = components other := by simpa [same] using h
  rw [startsWith, heq]
  exact List.isPrefixOf_iff_prefix.mpr List.prefix_rfl

theorem below_of_removed (hbefore : tree n = true) (hafter : removeBelow node kept tree n = false) :
    node <+: n := by
  rw [removeBelow, hbefore, Bool.true_and, Bool.or_eq_false_iff] at hafter
  have hbegins : node.isPrefixOf n = true := by simpa using hafter.1
  exact List.isPrefixOf_iff_prefix.mp hbegins

end Paths
