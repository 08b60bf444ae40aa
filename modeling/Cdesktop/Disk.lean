import Cdesktop.Paths

/-! A disk with directories and the contents of its files, and what whole directories go through. -/

namespace Paths
set_option autoImplicit true

inductive Item where
  | dir
  | file (content : String)
deriving DecidableEq

abbrev Disk := Node → Option Item

def isDir (disk : Disk) (node : Node) : Bool := disk node = some .dir

def isFile (disk : Disk) (node : Node) : Bool :=
  match disk node with
  | some (.file _) => true
  | _ => false

/-- What is at or below the node goes, but for what is kept. -/
def eraseBelow (node : Node) (kept : Node → Bool) (disk : Disk) : Disk :=
  fun n => if node.isPrefixOf n && !kept n then none else disk n

/-- `fs::create_dir_all`, which fails where a file is in the way. -/
def createDirAll (node : Node) (disk : Disk) : Option Disk :=
  if node.inits.any (isFile disk) then none
  else some fun n => if n.isPrefixOf node && (disk n).isNone then some .dir else disk n

/-- The rename of a directory to where nothing is. -/
def rename (old new : Node) (disk : Disk) : Disk :=
  fun n =>
    if new.isPrefixOf n then disk (old ++ n.drop new.length)
    else if old.isPrefixOf n then none
    else disk n

/-- What is at and below the node, by the names on the way to it from the node. -/
def Contains (disk : Disk) (node : Node) (files : Disk) : Prop :=
  ∀ rest, disk (node ++ rest) = files rest

def Apart (node other : Node) : Prop := ¬ node <+: other ∧ ¬ other <+: node

theorem isDir_iff : isDir disk node = true ↔ disk node = some .dir := decide_eq_true_iff

theorem isFile_of_dir (h : disk node = some .dir) : isFile disk node = false := by
  rw [isFile, h]

theorem isFile_of_none (h : disk node = none) : isFile disk node = false := by
  rw [isFile, h]

theorem isSome_of_isFile (h : isFile disk node = true) : (disk node).isSome = true := by
  cases hitem : disk node with
  | none => rw [isFile_of_none hitem] at h; cases h
  | some item => rfl

theorem isFile_congr (h : disk node = disk' node') : isFile disk node = isFile disk' node' := by
  rw [isFile, isFile, h]

theorem Contains.root (h : Contains disk node files) : disk node = files [] := by
  have := h []
  rwa [List.append_nil] at this

theorem Contains.congr (h : Contains disk node files)
    (heq : ∀ rest, disk' (node ++ rest) = disk (node ++ rest)) : Contains disk' node files := by
  intro rest
  rw [heq, h]

/-- Nodes below two that are apart are not below the other one. -/
theorem Apart.below (h : Apart node other) (rest : Node) : ¬ other <+: node ++ rest := by
  intro hbelow
  cases List.prefix_or_prefix_of_prefix (List.prefix_append node rest) hbelow with
  | inl hle => exact h.1 hle
  | inr hle => exact h.2 hle

theorem Apart.symm (h : Apart node other) : Apart other node := ⟨h.2, h.1⟩

theorem Apart.append (h : Apart node other) (rest : Node) : Apart (node ++ rest) other := by
  apply And.intro _ (h.below rest)
  intro hle
  exact h.1 ((List.prefix_append node rest).trans hle)

theorem apart_of_ne {node : Node} (h : name ≠ name') : Apart (node ++ [name]) (node ++ [name']) := by
  have hne : ∀ {a b : String}, a ≠ b → ¬ node ++ [a] <+: node ++ [b] := by
    intro a b hab hle
    rw [List.prefix_append_right_inj, List.cons_prefix_cons] at hle
    exact hab hle.1
  exact ⟨hne h, hne h.symm⟩

theorem not_below_parent (node : Node) (name : String) : ¬ node ++ [name] <+: node := by
  intro hle
  have hlength := hle.length_le
  rw [List.length_append, List.length_singleton] at hlength
  omega

theorem eraseBelow_of_not_below (h : ¬ node <+: n) : eraseBelow node kept disk n = disk n := by
  have hfalse : node.isPrefixOf n = false := by
    rw [Bool.eq_false_iff, Ne, List.isPrefixOf_iff_prefix]
    exact h
  rw [eraseBelow, hfalse]
  rfl

theorem createDirAll_isSome (h : ∀ n, n <+: node → isFile disk n = false) :
    ∃ disk', createDirAll node disk = some disk' := by
  have hnone : node.inits.any (isFile disk) = false := by
    rw [List.any_eq_false]
    intro n hn
    rw [h n (List.mem_inits n node |>.mp hn)]
    exact Bool.false_ne_true
  rw [createDirAll, hnone]
  exact ⟨_, rfl⟩

section
variable (h : createDirAll node disk = some disk')
include h

theorem createDirAll_apply (n : Node) :
    disk' n = if n.isPrefixOf node && (disk n).isNone then some .dir else disk n := by
  rw [createDirAll] at h
  split at h
  · cases h
  · rw [← Option.some.inj h]

theorem createDirAll_of_not_above (hn : ¬ n <+: node) :
    disk' n = disk n := by
  have hfalse : n.isPrefixOf node = false := by
    rw [Bool.eq_false_iff, Ne, List.isPrefixOf_iff_prefix]
    exact hn
  rw [createDirAll_apply h, hfalse]
  rfl

theorem createDirAll_of_isSome (hn : disk n = some item) : disk' n = some item := by
  rw [createDirAll_apply h, hn, Option.isNone_some, Bool.and_false]
  rfl

theorem createDirAll_node (hn : disk node = none) :
    disk' node = some .dir := by
  rw [createDirAll_apply h, hn, Option.isNone_none, Bool.and_true,
    List.isPrefixOf_iff_prefix.mpr List.prefix_rfl, if_pos rfl]

end

theorem Contains.createDirAll (h : Contains disk node files) (hnot : ¬ node <+: other)
    (hcreate : createDirAll other disk = some disk') : Contains disk' node files := by
  apply h.congr
  intro rest
  apply createDirAll_of_not_above hcreate
  intro hle
  exact hnot ((List.prefix_append node rest).trans hle)

theorem Contains.rename (h : Contains disk old files) (new : Node) :
    Contains (rename old new disk) new files := by
  intro rest
  rw [Paths.rename, if_pos (List.isPrefixOf_iff_prefix.mpr (List.prefix_append new rest)),
    List.drop_left]
  exact h rest

theorem rename_of_not_below (hold : ¬ old <+: n) (hnew : ¬ new <+: n) :
    rename old new disk n = disk n := by
  rw [← List.isPrefixOf_iff_prefix] at hold hnew
  rw [rename, if_neg hnew, if_neg hold]

theorem rename_old (hold : old <+: n) (hnew : ¬ new <+: n) : rename old new disk n = none := by
  rw [← List.isPrefixOf_iff_prefix] at hold hnew
  rw [rename, if_neg hnew, if_pos hold]

end Paths
