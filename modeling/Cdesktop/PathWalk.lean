import Mathlib.Data.List.Basic
import Mathlib.Data.Option.Basic

/-! How a path is resolved in a file system with symbolic links, and the directories in which a name
is looked up on the way. -/

namespace PathWalk
set_option autoImplicit true

inductive Component where
  | parentDir
  | normal (name : String)
deriving DecidableEq

/-- What is behind the last component of a path. -/
inductive Ending where
  | bare | slash | dot
deriving DecidableEq

/-- A path by its components. Dots and repeated separators between them do not count. -/
structure Path where
  absolute : Bool
  components : List Component
  ending : Ending
deriving DecidableEq

/-- A path behind a directory's. -/
def Path.join (parent : List Component) (path : Path) : Path :=
  if path.absolute then path else ⟨true, parent ++ path.components, path.ending⟩

inductive Kind where
  | dir | file
  | link (target : Path)
deriving DecidableEq

structure FileSystem (ι : Type) where
  root : ι
  kind : ι → Kind
  root_dir : kind root = .dir
  entries : ι → String → Option ι
  /-- The entry `..` of a directory. -/
  up : ι → ι
  up_dir : ∀ d, kind d = .dir → kind (up d) = .dir

namespace FileSystem
variable {ι : Type} (fs : FileSystem ι)

def isDir (i : ι) : Bool := fs.kind i = .dir

def target? (i : ι) : Option Path :=
  match fs.kind i with
  | .link target => some target
  | _ => none

def entry (d : ι) : Component → Option ι
  | .parentDir => some (fs.up d)
  | .normal name => fs.entries d name

section Follow

variable (follow : ι → Path → Option (ι × List ι))

/-- A name is looked up in a directory, and a link is followed. -/
def enter (d : ι) (c : Component) : Option (ι × List ι) :=
  if fs.isDir d then
    (fs.entry d c).bind fun i =>
      match fs.target? i with
      | some target => (follow d target).map fun (j, dirs) => (j, d :: dirs)
      | none => some (i, [d])
  else none

/-- What the components lead to, and the directories of the lookups. -/
def walkWith : ι → List Component → Option (ι × List ι)
  | d, [] => some (d, [])
  | d, c :: cs =>
    (fs.enter follow d c).bind fun (i, dirs) =>
      (walkWith i cs).map fun (j, dirs') => (j, dirs ++ dirs')

end Follow

def start (d : ι) (path : Path) : ι := if path.absolute then fs.root else d

/-- A walk with links in links up to a depth. -/
def walk : Nat → ι → List Component → Option (ι × List ι)
  | 0 => fs.walkWith fun _ _ => none
  | depth + 1 => fs.walkWith fun d target =>
    (walk depth (fs.start d target) target.components).filter fun r =>
      target.ending = .bare || fs.isDir r.1

variable (depth : Nat)

/-- What an absolute path names when its last component is not followed. -/
def lookupLast (cs : List Component) : Option ι :=
  match cs.getLast? with
  | none => some fs.root
  | some c => (fs.walk depth fs.root cs.dropLast).bind fun (d, _) =>
    if fs.isDir d then fs.entry d c else none

/-- The target of the link that the path names. -/
def linkAt (cs : List Component) : Option Path := (fs.lookupLast depth cs).bind fs.target?

/-- `lstat`. A link with a separator behind it is followed. -/
def symlinkMetadata (path : Path) : Option ι :=
  if path.ending = .bare then fs.lookupLast depth path.components
  else ((fs.walk depth fs.root path.components).map (·.1)).filter fs.isDir

variable {fs} {depth}

theorem enter_eq_some {follow : ι → Path → Option (ι × List ι)} :
    fs.enter follow d c = some r ↔ fs.isDir d ∧ ∃ i, fs.entry d c = some i ∧
      match fs.target? i with
      | some target => ∃ r', follow d target = some r' ∧ r = (r'.1, d :: r'.2)
      | none => r = (i, [d]) := by
  rw [enter]
  cases fs.isDir d with
  | false => exact iff_of_false nofun fun h => Bool.false_ne_true h.1
  | true =>
    rw [if_pos rfl, Option.bind_eq_some_iff]
    apply Iff.trans _ (and_iff_right rfl).symm
    apply exists_congr
    intro i
    apply and_congr_right
    intro _
    cases fs.target? i with
    | none => exact Option.some_inj.trans eq_comm
    | some target =>
      dsimp only
      rw [Option.map_eq_some_iff]
      exact exists_congr fun r' => and_congr_right fun _ => eq_comm

theorem walkWith_cons {follow : ι → Path → Option (ι × List ι)} :
    fs.walkWith follow d (c :: cs) = some (j, dirs) ↔ ∃ i dirs₁ dirs₂,
      fs.enter follow d c = some (i, dirs₁) ∧ fs.walkWith follow i cs = some (j, dirs₂) ∧
        dirs = dirs₁ ++ dirs₂ := by
  rw [walkWith, Option.bind_eq_some_iff]
  constructor
  · rintro ⟨⟨i, dirs₁⟩, henter, hrest⟩
    obtain ⟨⟨j', dirs₂⟩, hwalk, heq⟩ := Option.map_eq_some_iff.mp hrest
    cases heq
    exact ⟨i, dirs₁, dirs₂, henter, hwalk, rfl⟩
  · rintro ⟨i, dirs₁, dirs₂, henter, hwalk, rfl⟩
    exact ⟨(i, dirs₁), henter, Option.map_eq_some_iff.mpr ⟨(j, dirs₂), hwalk, rfl⟩⟩

theorem walkWith_mono {follow follow' : ι → Path → Option (ι × List ι)}
    (h : ∀ d target r, follow d target = some r → follow' d target = some r)
    (hwalk : fs.walkWith follow d cs = some (j, dirs)) :
    fs.walkWith follow' d cs = some (j, dirs) := by
  induction cs generalizing d dirs with
  | nil => exact hwalk
  | cons c cs ih =>
    obtain ⟨i, dirs₁, dirs₂, henter, hrest, rfl⟩ := walkWith_cons.mp hwalk
    refine walkWith_cons.mpr ⟨i, dirs₁, dirs₂, ?_, ih hrest, rfl⟩
    obtain ⟨hdir, l, hl, hlink⟩ := enter_eq_some.mp henter
    refine enter_eq_some.mpr ⟨hdir, l, hl, ?_⟩
    cases htarget : fs.target? l with
    | none =>
      rw [htarget] at hlink
      exact hlink
    | some target =>
      rw [htarget] at hlink
      obtain ⟨r', hr', heq⟩ := hlink
      exact ⟨r', h d target r' hr', heq⟩

theorem walkWith_append {follow : ι → Path → Option (ι × List ι)} :
    fs.walkWith follow d (cs ++ cs') = some (j, dirs) ↔ ∃ i dirs₁ dirs₂,
      fs.walkWith follow d cs = some (i, dirs₁) ∧ fs.walkWith follow i cs' = some (j, dirs₂) ∧
        dirs = dirs₁ ++ dirs₂ := by
  induction cs generalizing d dirs with
  | nil =>
    constructor
    · exact fun h => ⟨d, [], dirs, rfl, h, rfl⟩
    · rintro ⟨i, dirs₁, dirs₂, hnil, h, rfl⟩
      cases hnil
      exact h
  | cons c cs ih =>
    rw [List.cons_append, walkWith_cons]
    constructor
    · rintro ⟨i, dirs₁, dirs₂, henter, hrest, rfl⟩
      obtain ⟨k, dirs₃, dirs₄, hfirst, hlast, rfl⟩ := ih.mp hrest
      exact ⟨k, dirs₁ ++ dirs₃, dirs₄, walkWith_cons.mpr ⟨i, dirs₁, dirs₃, henter, hfirst, rfl⟩, hlast,
        (List.append_assoc ..).symm⟩
    · rintro ⟨k, dirs₁, dirs₂, hfirst, hlast, rfl⟩
      obtain ⟨i, dirs₃, dirs₄, henter, hrest, rfl⟩ := walkWith_cons.mp hfirst
      exact ⟨i, dirs₃, dirs₄ ++ dirs₂, henter, ih.mpr ⟨k, dirs₄, dirs₂, hrest, hlast, rfl⟩,
        List.append_assoc ..⟩

theorem walk_append : fs.walk depth d (cs ++ cs') = some (j, dirs) ↔ ∃ i dirs₁ dirs₂,
    fs.walk depth d cs = some (i, dirs₁) ∧ fs.walk depth i cs' = some (j, dirs₂) ∧
      dirs = dirs₁ ++ dirs₂ := by
  cases depth <;> exact walkWith_append

theorem walk_mono (h : fs.walk depth d cs = some (j, dirs)) :
    fs.walk (depth + 1) d cs = some (j, dirs) := by
  induction depth generalizing d cs j dirs with
  | zero =>
    refine walkWith_mono ?_ h
    intro d target r hnone
    cases hnone
  | succ depth ih =>
    refine walkWith_mono ?_ h
    rintro d target ⟨i, dirs'⟩ hr
    rw [Option.filter_eq_some_iff] at hr ⊢
    exact ⟨ih hr.1, hr.2⟩

theorem walk_prefix (h : fs.walk depth d cs = some (j, dirs)) (hbegins : cs' <+: cs) :
    ∃ i dirs', fs.walk depth d cs' = some (i, dirs') ∧ dirs' <+: dirs := by
  obtain ⟨rest, rfl⟩ := hbegins
  obtain ⟨i, dirs₁, dirs₂, hwalk, -, rfl⟩ := walk_append.mp h
  exact ⟨i, dirs₁, hwalk, List.prefix_append ..⟩

theorem lookupLast_concat (cs : List Component) (c : Component) :
    fs.lookupLast depth (cs ++ [c]) = (fs.walk depth fs.root cs).bind fun r =>
      if fs.isDir r.1 then fs.entry r.1 c else none := by
  rw [lookupLast, List.getLast?_concat, List.dropLast_concat]

theorem walk_singleton (h : fs.walk depth d [c] = some (j, dirs)) :
    fs.isDir d ∧ ∃ l, fs.entry d c = some l ∧
      match fs.target? l with
      | none => dirs = [d]
      | some target => ∃ dirs', fs.walk depth (fs.start d target) target.components = some (j, dirs') ∧
          (target.ending = .bare ∨ fs.isDir j) ∧ dirs = d :: dirs' := by
  have hsingle {follow : ι → Path → Option (ι × List ι)} (h : fs.walkWith follow d [c] = some (j, dirs)) :
      fs.enter follow d c = some (j, dirs) := by
    obtain ⟨i, dirs₁, dirs₂, henter, hnil, rfl⟩ := walkWith_cons.mp h
    cases hnil
    rw [List.append_nil]
    exact henter
  cases depth with
  | zero =>
    obtain ⟨hdir, l, hl, hlink⟩ := enter_eq_some.mp (hsingle h)
    refine ⟨hdir, l, hl, ?_⟩
    cases htarget : fs.target? l with
    | none =>
      rw [htarget] at hlink
      exact congrArg Prod.snd hlink
    | some target =>
      rw [htarget] at hlink
      obtain ⟨r', hr', -⟩ := hlink
      cases hr'
  | succ depth =>
    obtain ⟨hdir, l, hl, hlink⟩ := enter_eq_some.mp (hsingle h)
    refine ⟨hdir, l, hl, ?_⟩
    cases htarget : fs.target? l with
    | none =>
      rw [htarget] at hlink
      exact congrArg Prod.snd hlink
    | some target =>
      rw [htarget] at hlink
      obtain ⟨⟨j', dirs'⟩, hr', heq⟩ := hlink
      cases heq
      obtain ⟨hwalk, hend⟩ := Option.filter_eq_some_iff.mp hr'
      rw [Bool.or_eq_true, decide_eq_true_iff] at hend
      exact ⟨dirs', walk_mono hwalk, hend, rfl⟩

theorem walk_concat (h : fs.walk depth fs.root (cs ++ [c]) = some (j, dirs)) :
    ∃ d dirs₁, fs.walk depth fs.root cs = some (d, dirs₁) ∧
      (fs.lookupLast depth (cs ++ [c])).isSome ∧
      match fs.linkAt depth (cs ++ [c]) with
      | none => dirs = dirs₁ ++ [d]
      | some target => ∃ dirs₂, fs.walk depth (fs.start d target) target.components = some (j, dirs₂) ∧
          (target.ending = .bare ∨ fs.isDir j) ∧ dirs = dirs₁ ++ d :: dirs₂ := by
  obtain ⟨d, dirs₁, dirs₂, hwalk, hlast, rfl⟩ := walk_append.mp h
  obtain ⟨hdir, l, hl, hlink⟩ := walk_singleton hlast
  have hat : fs.lookupLast depth (cs ++ [c]) = some l := by
    rw [lookupLast_concat, hwalk, Option.bind_some, if_pos hdir, hl]
  refine ⟨d, dirs₁, hwalk, by rw [hat]; rfl, ?_⟩
  rw [linkAt, hat, Option.bind_some]
  cases htarget : fs.target? l with
  | none =>
    rw [htarget] at hlink
    exact congrArg (dirs₁ ++ ·) hlink
  | some target =>
    rw [htarget] at hlink
    obtain ⟨dirs', htargetWalk, hend, rfl⟩ := hlink
    exact ⟨dirs', htargetWalk, hend, rfl⟩

theorem walk_join (hparent : fs.walk depth fs.root cs = some (d, dirs₁))
    (htarget : fs.walk depth (fs.start d target) target.components = some (j, dirs₂)) :
    ∃ dirs, fs.walk depth fs.root (target.join cs).components = some (j, dirs) ∧
      dirs₂ ⊆ dirs ∧ dirs.length ≤ dirs₁.length + dirs₂.length := by
  rw [Path.join]
  rw [start] at htarget
  split
  · next habsolute =>
    rw [if_pos habsolute] at htarget
    exact ⟨dirs₂, htarget, List.Subset.refl _, Nat.le_add_left ..⟩
  · next habsolute =>
    rw [if_neg habsolute] at htarget
    refine ⟨dirs₁ ++ dirs₂, walk_append.mpr ⟨d, dirs₁, dirs₂, hparent, htarget, rfl⟩,
      List.subset_append_right .., ?_⟩
    exact Nat.le_of_eq List.length_append

end FileSystem

end PathWalk
