import Cdesktop.DiffStream
import Mathlib.Data.List.Perm.Basic

/-! The tree of the files that a list of diffs is about. -/

namespace Cdesktop.FileTree
open DiffStream (Diff)
set_option autoImplicit true

abbrev Text := List Char

/-- The id of a node is its path; what a file shows besides is read off its diff. -/
inductive TreeNode where
  | file (path name : Text) (diff : Diff)
  | folder (path name : Text) (children : List TreeNode)

namespace TreeNode

def path : TreeNode → Text
  | file path .. | folder path .. => path

def name : TreeNode → Text
  | file _ name _ | folder _ name _ => name

def isFolder : TreeNode → Bool
  | file .. => false
  | folder .. => true

end TreeNode

def split (path : Text) : List Text := path.splitOn '/'

def join (parts : List Text) : Text := ['/'].intercalate parts

def filePath (diff : Diff) : Option Text := (diff.newPath.or diff.oldPath).map String.toList

/-- `if (!currentMap.has(part))`: the new node goes behind those that are there. -/
def ensure (diff : Diff) (folders : List Text) (part : Text) (rest : List Text)
    (nodes : List TreeNode) : List TreeNode :=
  if nodes.any (·.name = part) then nodes
  else
    let path := join (folders ++ [part])
    nodes ++ [if rest.isEmpty then .file path part diff else .folder path part []]

def change (part : Text) (f : TreeNode → TreeNode) : List TreeNode → List TreeNode
  | [] => []
  | node :: nodes => if node.name = part then f node :: nodes else node :: change part f nodes

/-- The loop over the parts, from one on. The map of a folder's children is made for the next part,
and what is put into it later on is not among the children. -/
def place (diff : Diff) (folders : List Text) : List Text → List TreeNode → List TreeNode
  | [], currentMap => currentMap
  | part :: rest, currentMap =>
    let currentMap := ensure diff folders part rest currentMap
    match currentMap.find? (·.name = part), rest.head? with
    | some (.folder path name children), some next =>
      let children := ensure diff (folders ++ [part]) next rest.tail children
      let childMap := place diff (folders ++ [part]) rest children
      change part (fun _ => .folder path name (childMap.take children.length)) currentMap
    | _, _ => place diff (folders ++ [part]) rest currentMap

def addDiff (rootMap : List TreeNode) (diff : Diff) : List TreeNode :=
  match filePath diff with
  | none | some [] => rootMap
  | some (c :: path) => place diff [] (split (c :: path)) rootMap

section
variable (localeCompare : Text → Text → Ordering)

def compareNodes (a b : TreeNode) : Ordering :=
  if a.isFolder ≠ b.isFolder then if a.isFolder then .lt else .gt
  else localeCompare a.name b.name

def order (nodes : List TreeNode) : List TreeNode :=
  nodes.mergeSort fun a b => (compareNodes localeCompare a b).isLE

mutual
def sortNode : TreeNode → TreeNode
  | .file path name diff => .file path name diff
  | .folder path name children => .folder path name (order localeCompare (sortEach children))

def sortEach : List TreeNode → List TreeNode
  | [] => []
  | node :: nodes => sortNode node :: sortEach nodes
end

def sortTreeNodes (nodes : List TreeNode) : List TreeNode :=
  order localeCompare (sortEach localeCompare nodes)

def buildFileTree (diffs : List Diff) : List TreeNode :=
  sortTreeNodes localeCompare (diffs.foldl addDiff [])

/-- The loop of `sortDiffs` over the parts of two paths. -/
def compareParts : List Text → List Text → Ordering
  | [], [] => .eq
  | [], _ :: _ => .lt
  | _ :: _, [] => .gt
  | a :: as, b :: bs =>
    if as.isEmpty ≠ bs.isEmpty then if as.isEmpty then .gt else .lt
    else (localeCompare a b).then (compareParts as bs)

def sortPath (diff : Diff) : Text :=
  match diff.newPath.map String.toList with
  | none | some [] => (diff.oldPath.map String.toList).getD []
  | some path => path

def sortDiffs (diffs : List Diff) : List Diff :=
  diffs.mergeSort fun a b =>
    (compareParts localeCompare (split (sortPath a)) (split (sortPath b))).isLE

end

mutual
/-- The nodes at and below one, depth first, each with the names on the way to it. -/
def TreeNode.nodes : TreeNode → List (List Text × TreeNode)
  | .file path name diff => [([name], .file path name diff)]
  | .folder path name children =>
    ([name], .folder path name children) :: (allNodes children).map fun n => (name :: n.1, n.2)

def allNodes : List TreeNode → List (List Text × TreeNode)
  | [] => []
  | node :: nodes => node.nodes ++ allNodes nodes
end

mutual
def TreeNode.files : TreeNode → List (List Text × Diff)
  | .file _ name diff => [([name], diff)]
  | .folder _ name children => (allFiles children).map fun n => (name :: n.1, n.2)

def allFiles : List TreeNode → List (List Text × Diff)
  | [] => []
  | node :: nodes => node.files ++ allFiles nodes
end

def parts (diff : Diff) : List Text := split ((filePath diff).getD [])

/-- Each diff is that of one file, in the folders that its path names, and the files are in the order
of the diffs; each node has the path of its names, and no two of a type have one. -/
structure Shows (localeCompare : Text → Text → Ordering) (diffs : List Diff)
    (tree : List TreeNode) : Prop where
  files : allFiles tree = (sortDiffs localeCompare diffs).map fun diff => (parts diff, diff)
  paths : ∀ n ∈ allNodes tree, n.2.path = join n.1
  distinct : ((allNodes tree).map fun n => (n.2.path, n.2.isFolder)).Nodup

/-- Each diff has a path, and no path leads through a file of another. -/
structure Separate (diffs : List Diff) : Prop where
  named : ∀ diff ∈ diffs, ∃ path ∈ filePath diff, path ≠ []
  apart : ∀ diff ∈ diffs, ∀ diff' ∈ diffs, parts diff <+: parts diff' → parts diff = parts diff'

/-- No two siblings have a name, and the diffs of the files are of a kind. -/
inductive Level (P : Diff → Prop) : List TreeNode → Prop
  | mk (names : (nodes.map TreeNode.name).Nodup)
    (files : ∀ path name diff, .file path name diff ∈ nodes → P diff)
    (below : ∀ path name children, .folder path name children ∈ nodes → Level P children) :
    Level P nodes

theorem allFiles_eq (nodes : List TreeNode) : allFiles nodes = nodes.flatMap TreeNode.files := by
  induction nodes with
  | nil => rfl
  | cons node nodes ih => rw [allFiles, ih, List.flatMap_cons]

theorem allNodes_eq (nodes : List TreeNode) : allNodes nodes = nodes.flatMap TreeNode.nodes := by
  induction nodes with
  | nil => rfl
  | cons node nodes ih => rw [allNodes, ih, List.flatMap_cons]

theorem allFiles_append (nodes nodes' : List TreeNode) :
    allFiles (nodes ++ nodes') = allFiles nodes ++ allFiles nodes' := by
  simp only [allFiles_eq, List.flatMap_append]

theorem files_head (h : f ∈ TreeNode.files node) : ∃ rest, f.1 = node.name :: rest := by
  cases node with
  | file path name diff =>
    rw [TreeNode.files, List.mem_singleton] at h
    exact ⟨[], congrArg Prod.fst h⟩
  | folder path name children =>
    obtain ⟨g, _, rfl⟩ := List.mem_map.mp h
    exact ⟨g.1, rfl⟩

theorem files_ne_nil (hf : f ∈ allFiles nodes) : f.1 ≠ [] := by
  rw [allFiles_eq] at hf
  obtain ⟨node, _, hf⟩ := List.mem_flatMap.mp hf
  obtain ⟨rest, hrest⟩ := files_head hf
  exact hrest ▸ List.cons_ne_nil _ _

theorem files_tail (h : f ∈ TreeNode.files node) : f.1.tail.isEmpty = !node.isFolder := by
  cases node with
  | file path name diff =>
    rw [TreeNode.files, List.mem_singleton] at h
    rw [h]
    rfl
  | folder path name children =>
    obtain ⟨g, hg, rfl⟩ := List.mem_map.mp h
    exact List.isEmpty_eq_false_iff.mpr (files_ne_nil hg)

theorem change_eq (node : TreeNode) (f : TreeNode → TreeNode) (h : ∀ n ∈ before, n.name ≠ node.name)
    (after : List TreeNode) :
    change node.name f (before ++ node :: after) = before ++ f node :: after := by
  induction before with
  | nil => rw [List.nil_append, change, if_pos rfl, List.nil_append]
  | cons n before ih =>
    rw [List.cons_append, change, if_neg (h n List.mem_cons_self),
      ih fun n hn => h n (List.mem_cons_of_mem _ hn), List.cons_append]

theorem find_split {nodes : List TreeNode} (h : nodes.find? (·.name = part) = some node) :
    node.name = part ∧ ∃ before after, nodes = before ++ node :: after ∧
      ∀ n ∈ before, n.name ≠ node.name := by
  obtain ⟨hname, before, after, hnodes, hbefore⟩ := List.find?_eq_some_iff_append.mp h
  have hpart : node.name = part := of_decide_eq_true hname
  refine ⟨hpart, before, after, hnodes, fun n hn heq => ?_⟩
  have hn := hbefore n hn
  rw [heq, hpart, decide_eq_true rfl] at hn
  cases hn

namespace Level

variable {P : Diff → Prop}

theorem nil : Level P [] := .mk List.nodup_nil nofun nofun

theorem file (h : Level P nodes) (hm : .file path name diff ∈ nodes) : P diff := by
  cases h with
  | mk _ files _ => exact files _ _ _ hm

theorem inner (h : Level P nodes) (hm : .folder path name ch ∈ nodes) : Level P ch := by
  cases h with
  | mk _ _ below => exact below _ _ _ hm

theorem names (h : Level P nodes) : (nodes.map TreeNode.name).Nodup := by
  cases h with
  | mk names _ _ => exact names

theorem take (h : Level P nodes) (n : Nat) : Level P (nodes.take n) :=
  .mk (h.names.sublist ((List.take_sublist n nodes).map _))
    (fun _ _ _ hm => h.file (List.mem_of_mem_take hm))
    fun _ _ _ hm => h.inner (List.mem_of_mem_take hm)

theorem ensure (h : Level P nodes) (hdiff : P diff) (folders : List Text) (part : Text)
    (rest : List Text) : Level P (ensure diff folders part rest nodes) := by
  unfold FileTree.ensure
  split
  next => exact h
  next hany =>
    have hpart : ∀ n ∈ nodes, n.name ≠ part := by
      intro n hn heq
      exact hany (List.any_eq_true.mpr ⟨n, hn, decide_eq_true heq⟩)
    refine .mk ?_ (fun path name d hm => ?_) fun path name ch hm => ?_
    · rw [List.map_append, List.nodup_append]
      refine ⟨h.names, List.nodup_singleton _, fun name hname name' hname' heq => ?_⟩
      obtain ⟨n, hn, rfl⟩ := List.mem_map.mp hname
      rw [List.map_singleton, List.mem_singleton] at hname'
      subst hname'
      apply hpart n hn
      rw [heq]
      split <;> rfl
    · rcases List.mem_append.mp hm with hm | hm
      · exact h.file hm
      · split at hm
        next => cases List.mem_singleton.mp hm; exact hdiff
        next => cases List.mem_singleton.mp hm
    · rcases List.mem_append.mp hm with hm | hm
      · exact h.inner hm
      · split at hm
        next => cases List.mem_singleton.mp hm
        next => cases List.mem_singleton.mp hm; exact nil

theorem replace (h : Level P (before ++ .folder path name children :: after))
    (hchildren : Level P children') :
    Level P (before ++ .folder path name children' :: after) := by
  have hmem : ∀ node, node ∈ before ++ .folder path name children' :: after →
      node = .folder path name children' ∨ node ∈ before ++ .folder path name children :: after := by
    intro node hm
    simp only [List.mem_append, List.mem_cons] at hm ⊢
    tauto
  refine .mk ?_ (fun _ _ _ hm => ?_) fun _ _ _ hm => ?_
  · have hnames := h.names
    rw [List.map_append, List.map_cons] at hnames ⊢
    exact hnames
  · rcases hmem _ hm with hm | hm
    · cases hm
    · exact h.file hm
  · rcases hmem _ hm with hm | hm
    · cases hm
      exact hchildren
    · exact h.inner hm

theorem place (h : Level P nodes) (hdiff : P diff) (folders parts : List Text) :
    Level P (place diff folders parts nodes) := by
  induction parts generalizing folders nodes with
  | nil => exact h
  | cons part rest ih =>
    have hensure := h.ensure hdiff folders part rest
    rw [FileTree.place]
    split
    next path name children next hfind hnext =>
      obtain ⟨hname, before, after, hnodes, hbefore⟩ := find_split hfind
      subst hname
      rw [hnodes] at hensure ⊢
      rw [change_eq _ _ hbefore]
      have hch := hensure.inner (List.mem_append_right _ List.mem_cons_self)
      exact hensure.replace ((ih (hch.ensure hdiff _ _ _) _).take _)
    next => exact ih hensure _

theorem files (h : Level P nodes) (hf : f ∈ allFiles nodes) : P f.2 := by
  induction h generalizing f with
  | mk names files below ih =>
    rw [allFiles_eq] at hf
    obtain ⟨node, hnode, hf⟩ := List.mem_flatMap.mp hf
    cases node with
    | file path name diff =>
      rw [TreeNode.files, List.mem_singleton] at hf
      exact hf ▸ files path name diff hnode
    | folder path name ch =>
      obtain ⟨g, hg, rfl⟩ := List.mem_map.mp hf
      exact ih path name ch hnode (f := g) hg

/-- No file is below another one. -/
theorem apart (h : Level P nodes) (hf : f ∈ allFiles nodes) (hg : g ∈ allFiles nodes)
    (hfg : f.1 <+: g.1) : f.1 = g.1 := by
  induction h generalizing f g with
  | mk names files below ih =>
    rw [allFiles_eq] at hf hg
    obtain ⟨node, hnode, hf⟩ := List.mem_flatMap.mp hf
    obtain ⟨node', hnode', hg⟩ := List.mem_flatMap.mp hg
    obtain ⟨rest, hrest⟩ := files_head hf
    obtain ⟨rest', hrest'⟩ := files_head hg
    have hsame : node = node' := by
      apply List.inj_on_of_nodup_map names hnode hnode'
      rw [hrest, hrest'] at hfg
      exact (List.cons_prefix_cons.mp hfg).1
    subst hsame
    cases node with
    | file path name diff =>
      rw [TreeNode.files, List.mem_singleton] at hf hg
      rw [hf, hg]
    | folder path name ch =>
      obtain ⟨f', hf', rfl⟩ := List.mem_map.mp hf
      obtain ⟨g', hg', rfl⟩ := List.mem_map.mp hg
      have hprefix := (List.cons_prefix_cons.mp hfg).2
      exact congrArg (name :: ·) (ih path name ch hnode hf' hg' hprefix)

end Level

variable {P : Diff → Prop} {localeCompare : Text → Text → Ordering}

theorem sortEach_eq (nodes : List TreeNode) :
    sortEach localeCompare nodes = nodes.map (sortNode localeCompare) := by
  induction nodes with
  | nil => rfl
  | cons node nodes ih => rw [sortEach, ih, List.map_cons]

theorem sortNode_name (node : TreeNode) : (sortNode localeCompare node).name = node.name := by
  cases node <;> rfl

theorem sortNode_path (node : TreeNode) : (sortNode localeCompare node).path = node.path := by
  cases node <;> rfl

theorem sortTreeNodes_perm (nodes : List TreeNode) :
    (sortTreeNodes localeCompare nodes).Perm (nodes.map (sortNode localeCompare)) := by
  rw [sortTreeNodes, sortEach_eq]
  exact List.mergeSort_perm _ _

theorem mem_sortTreeNodes : node ∈ sortTreeNodes localeCompare nodes ↔
    ∃ n ∈ nodes, sortNode localeCompare n = node := by
  rw [(sortTreeNodes_perm nodes).mem_iff, List.mem_map]

theorem file_of_sort (h : .file path name diff ∈ sortTreeNodes localeCompare nodes) :
    .file path name diff ∈ nodes := by
  obtain ⟨n, hn, heq⟩ := mem_sortTreeNodes.mp h
  cases n with
  | file => cases heq; exact hn
  | folder => cases heq

theorem folder_of_sort (h : .folder path name children ∈ sortTreeNodes localeCompare nodes) :
    ∃ ch, .folder path name ch ∈ nodes ∧ children = sortTreeNodes localeCompare ch := by
  obtain ⟨n, hn, heq⟩ := mem_sortTreeNodes.mp h
  cases n with
  | file => cases heq
  | folder path name ch => cases heq; exact ⟨ch, hn, rfl⟩

theorem Level.sort (h : Level P nodes) (localeCompare : Text → Text → Ordering) :
    Level P (sortTreeNodes localeCompare nodes) := by
  induction h with
  | @mk nodes names files below ih =>
    refine .mk ?_ (fun path name diff hm => files path name diff (file_of_sort hm)) ?_
    · have hnames := (@sortTreeNodes_perm localeCompare nodes).map TreeNode.name
      rw [List.map_map] at hnames
      exact hnames.nodup_iff.mpr
        ((List.map_congr_left fun n _ => sortNode_name n).symm ▸ names)
    · intro path name children hm
      obtain ⟨ch, hch, rfl⟩ := folder_of_sort hm
      exact ih path name ch hch

theorem Level.sort_files (h : Level P nodes) :
    (allFiles (sortTreeNodes localeCompare nodes)).Perm (allFiles nodes) := by
  induction h with
  | @mk nodes names files below ih =>
    simp only [allFiles_eq]
    refine ((sortTreeNodes_perm nodes).flatMap_right _).trans ?_
    rw [List.flatMap_map]
    refine List.Perm.flatMap_left _ fun node hnode => ?_
    cases node with
    | file => exact .refl _
    | folder path name ch => exact (ih path name ch hnode).map _

/-- Folders before files, and the names of one type in their order. -/
def compareKey (localeCompare : Text → Text → Ordering) : Bool × Text → Bool × Text → Ordering :=
  compareLex (compareOn Prod.fst) fun a b => localeCompare a.2 b.2

def keys : List Text → List (Bool × Text)
  | [] => []
  | part :: rest => (rest.isEmpty, part) :: keys rest

theorem keys_parts (parts : List Text) : (keys parts).map Prod.snd = parts := by
  induction parts with
  | nil => rfl
  | cons part rest ih => exact congrArg (part :: ·) ih

theorem compareNodes_eq (a b : TreeNode) : compareNodes localeCompare a b =
    compareKey localeCompare (!a.isFolder, a.name) (!b.isFolder, b.name) := by
  cases a <;> cases b <;> rfl

theorem compareParts_eq (as bs : List Text) : compareParts localeCompare as bs =
    List.compareLex (compareKey localeCompare) (keys as) (keys bs) := by
  induction as generalizing bs with
  | nil => cases bs <;> rfl
  | cons a as ih =>
    cases bs with
    | nil => rfl
    | cons b bs =>
      rw [compareParts, keys, keys, List.compareLex_cons_cons, ← ih]
      cases as <;> cases bs <;> rfl

theorem lt_of_isLE {compare : α → α → Ordering} [Std.LawfulEqCmp compare]
    (hle : (compare a b).isLE) (hne : a ≠ b) : compare a b = .lt := by
  cases h : compare a b with
  | lt => rfl
  | eq => exact (hne (Std.LawfulEqCmp.eq_of_compare h)).elim
  | gt => rw [h] at hle; cases hle

theorem isLE_total {compare : α → α → Ordering} [Std.OrientedCmp compare] (a b : α) :
    ((compare a b).isLE || (compare b a).isLE) = true := by
  rw [@Std.OrientedCmp.eq_swap _ compare _ b]
  cases compare a b <;> rfl

section
variable [Std.LawfulEqCmp localeCompare]

instance compareKey.lawfulEqCmp : Std.LawfulEqCmp (compareKey localeCompare) where
  compare_self := by
    intro a
    exact Ordering.then_eq_eq.mpr ⟨Std.ReflCmp.compare_self, Std.ReflCmp.compare_self⟩
  eq_of_compare := by
    intro a b h
    obtain ⟨hflag, hpart⟩ := Ordering.then_eq_eq.mp h
    exact Prod.ext (Std.LawfulEqCmp.eq_of_compare hflag) (Std.LawfulEqCmp.eq_of_compare hpart)

theorem compareParts_lt (hle : (compareParts localeCompare as bs).isLE) (hne : as ≠ bs) :
    compareParts localeCompare as bs = .lt := by
  rw [compareParts_eq] at hle ⊢
  exact lt_of_isLE hle fun heq => hne (by rw [← keys_parts as, heq, keys_parts])

/-- The files of siblings in their order are in theirs. -/
theorem files_lt (hle : (compareNodes localeCompare a b).isLE) (hne : a.name ≠ b.name)
    (hf : f ∈ a.files) (hg : g ∈ b.files) : compareParts localeCompare f.1 g.1 = .lt := by
  obtain ⟨rest, hrest⟩ := files_head hf
  obtain ⟨rest', hrest'⟩ := files_head hg
  have htail := files_tail hf
  have htail' := files_tail hg
  rw [hrest, List.tail_cons] at htail
  rw [hrest', List.tail_cons] at htail'
  rw [hrest, hrest', compareParts, htail, htail']
  rw [compareNodes] at hle
  split at hle
  next hflags =>
    rw [if_pos fun heq => hflags (Bool.not_inj heq)]
    split at hle
    next hfolder => rw [hfolder]; rfl
    next => cases hle
  next hflags =>
    rw [if_neg fun h => hflags fun heq => h (congrArg _ heq), lt_of_isLE hle hne, Ordering.lt_then]

end

section
variable [Std.TransCmp localeCompare]

instance compareKey.transCmp : Std.TransCmp (compareKey localeCompare) :=
  have : Std.TransCmp fun a b : Bool × Text => localeCompare a.2 b.2 :=
    { eq_swap := Std.OrientedCmp.eq_swap, isLE_trans := Std.TransCmp.isLE_trans }
  inferInstanceAs (Std.TransCmp (compareLex _ _))

theorem pairwise_order (nodes : List TreeNode) :
    (order localeCompare nodes).Pairwise fun a b => (compareNodes localeCompare a b).isLE := by
  apply List.pairwise_mergeSort
  · intro a b c hab hbc
    rw [compareNodes_eq] at hab hbc ⊢
    exact Std.TransCmp.isLE_trans hab hbc
  · intro a b
    rw [compareNodes_eq, compareNodes_eq]
    exact isLE_total _ _

theorem pairwise_sortDiffs (diffs : List Diff) : (sortDiffs localeCompare diffs).Pairwise
    fun a b => (compareParts localeCompare (split (sortPath a)) (split (sortPath b))).isLE := by
  apply List.pairwise_mergeSort
  · intro a b c hab hbc
    rw [compareParts_eq] at hab hbc ⊢
    exact Std.TransCmp.isLE_trans hab hbc
  · intro a b
    rw [compareParts_eq, compareParts_eq]
    exact isLE_total _ _

theorem compareParts_asymm (h : compareParts localeCompare as bs = .lt) :
    compareParts localeCompare bs as ≠ .lt := by
  rw [compareParts_eq] at h ⊢
  rw [Std.OrientedCmp.gt_of_lt h]
  nofun

variable [Std.LawfulEqCmp localeCompare]

theorem Level.sorted (h : Level P nodes) :
    (allFiles (sortTreeNodes localeCompare nodes)).Pairwise
    fun f g => compareParts localeCompare f.1 g.1 = .lt := by
  induction h with
  | @mk nodes names files below ih =>
    have hnames := (Level.mk names files below).sort localeCompare |>.names
    rw [allFiles_eq, List.pairwise_flatMap]
    constructor
    · intro node hnode
      obtain ⟨n, hn, rfl⟩ := mem_sortTreeNodes.mp hnode
      cases n with
      | file => exact List.pairwise_singleton _ _
      | folder path name ch =>
        refine List.pairwise_map.mpr ((ih path name ch hn).imp_of_mem fun {f g} hf hg hfg => ?_)
        have hself : localeCompare name name = .eq := Std.ReflCmp.compare_self
        rw [compareParts, List.isEmpty_eq_false_iff.mpr (files_ne_nil hf),
          List.isEmpty_eq_false_iff.mpr (files_ne_nil hg), hself, Ordering.eq_then]
        exact hfg
    · have horder := @pairwise_order localeCompare _ (sortEach localeCompare nodes)
      exact horder.imp₂ (fun a b hle hne f hf g hg => files_lt hle hne hf hg) (List.pairwise_map.mp hnames)

end

/-- The nodes have the paths of their names, and no folder is empty. -/
inductive Good : List Text → List TreeNode → Prop
  | mk (paths : ∀ n ∈ nodes, n.path = join (folders ++ [n.name]) ∧ '/' ∉ n.name)
    (filled : ∀ path name children, .folder path name children ∈ nodes → children ≠ [])
    (below : ∀ path name children, .folder path name children ∈ nodes →
      Good (folders ++ [name]) children) :
    Good folders nodes

namespace Good

theorem subset {nodes' : List TreeNode} (h : Good folders nodes) (hsub : nodes' ⊆ nodes) :
    Good folders nodes' := by
  cases h with
  | mk paths filled below =>
    exact .mk (fun n hn => paths n (hsub hn)) (fun path name ch hm => filled path name ch (hsub hm))
      fun path name ch hm => below path name ch (hsub hm)

theorem insert {node : TreeNode} (after : List TreeNode) (h : Good folders (before ++ after))
    (hpath : node.path = join (folders ++ [node.name])) (hfree : '/' ∉ node.name)
    (hch : ∀ path name ch, node = .folder path name ch → ch ≠ [] ∧ Good (folders ++ [name]) ch) :
    Good folders (before ++ node :: after) := by
  cases h with
  | mk paths filled below =>
    have hmem : ∀ n, n ∈ before ++ node :: after → n = node ∨ n ∈ before ++ after := by
      intro n hn
      simp only [List.mem_append, List.mem_cons] at hn ⊢
      tauto
    refine .mk (fun n hn => ?_) (fun path name ch hm => ?_) fun path name ch hm => ?_
    · rcases hmem n hn with rfl | hn
      · exact ⟨hpath, hfree⟩
      · exact paths n hn
    · rcases hmem _ hm with heq | hm
      · exact (hch path name ch heq.symm).1
      · exact filled path name ch hm
    · rcases hmem _ hm with heq | hm
      · exact (hch path name ch heq.symm).2
      · exact below path name ch hm

theorem exists_file (h : Good folders nodes) (hne : nodes ≠ []) : ∃ f, f ∈ allFiles nodes := by
  induction h with
  | @mk nodes folders paths filled below ih =>
    obtain ⟨node, nodes, rfl⟩ := List.exists_cons_of_ne_nil hne
    rw [allFiles]
    cases node with
    | file path name diff => exact ⟨_, List.mem_append_left _ (List.mem_singleton.mpr rfl)⟩
    | folder path name ch =>
      obtain ⟨f, hf⟩ := ih path name ch List.mem_cons_self (filled path name ch List.mem_cons_self)
      exact ⟨_, List.mem_append_left _ (List.mem_map_of_mem hf)⟩

theorem nil : Good folders [] := .mk nofun nofun nofun

theorem folder (h : Good folders nodes) (hm : .folder path name ch ∈ nodes) :
    path = join (folders ++ [name]) ∧ Good (folders ++ [name]) ch := by
  cases h with
  | mk paths _ below => exact ⟨(paths _ hm).1, below _ _ _ hm⟩

theorem exists_below (h : Good folders nodes) (hnode : node ∈ nodes) :
    ∃ f ∈ allFiles nodes, [node.name] <+: f.1 := by
  have hsub : [node] ⊆ nodes := List.cons_subset.mpr ⟨hnode, List.nil_subset _⟩
  obtain ⟨f, hf⟩ := (h.subset hsub).exists_file (List.cons_ne_nil _ _)
  rw [allFiles, allFiles, List.append_nil] at hf
  obtain ⟨rest, hrest⟩ := files_head hf
  refine ⟨f, ?_, ⟨rest, hrest.symm⟩⟩
  rw [allFiles_eq]
  exact List.mem_flatMap_of_mem hnode hf

end Good

theorem ensure_ensure (diff : Diff) (folders : List Text) (part : Text) (rest : List Text)
    (nodes : List TreeNode) :
    ensure diff folders part rest (ensure diff folders part rest nodes) =
      ensure diff folders part rest nodes := by
  by_cases hany : nodes.any (·.name = part)
  · simp only [ensure, if_pos hany]
  · rw [ensure, if_pos]
    rw [ensure, if_neg hany, List.any_append, List.any_cons, Bool.or_eq_true, Bool.or_eq_true]
    refine .inr (.inl (decide_eq_true ?_))
    split <;> rfl

theorem place_ensure (diff : Diff) (folders : List Text) (part : Text) (rest : List Text)
    (nodes : List TreeNode) :
    place diff folders (part :: rest) (ensure diff folders part rest nodes) =
      place diff folders (part :: rest) nodes := by
  rw [place, place, ensure_ensure]

theorem place_folder {rest : List Text} (hensure : ensure diff folders part (next :: rest) nodes =
      before ++ .folder path part ch :: after) (hbefore : ∀ n ∈ before, n.name ≠ part) :
    place diff folders (part :: next :: rest) nodes =
      before ++ .folder path part ((place diff (folders ++ [part]) (next :: rest) ch).take
        (ensure diff (folders ++ [part]) next rest ch).length) :: after := by
  have hfind : (before ++ .folder path part ch :: after).find? (·.name = part) =
      some (.folder path part ch) :=
    List.find?_eq_some_iff_append.mpr ⟨decide_eq_true rfl, before, after, rfl, fun n hn => by
      rw [decide_eq_false (hbefore n hn)]
      rfl⟩
  rw [place, hensure]
  simp only [hfind, List.head?_cons, List.tail_cons, place_ensure]
  exact change_eq (.folder path part ch) _ hbefore after

structure Placed (diff : Diff) (folders : List Text) (part : Text) (rest : List Text)
    (nodes : List TreeNode) : Prop where
  good : Good folders (place diff folders (part :: rest) nodes)
  files : (allFiles (place diff folders (part :: rest) nodes)).Perm
    (allFiles nodes ++ [(part :: rest, diff)])
  length : (place diff folders (part :: rest) nodes).length =
    (ensure diff folders part rest nodes).length

/-- The next part is placed among the children of a folder, which the node may be or become. -/
theorem Placed.folder {rest : List Text} {ch : List TreeNode} (before after : List TreeNode)
    (h : Placed diff (folders ++ [part]) next rest ch) (hgood : Good folders (before ++ after))
    (hfree : '/' ∉ part)
    (hensure : ensure diff folders part (next :: rest) nodes =
      before ++ .folder (join (folders ++ [part])) part ch :: after)
    (hbefore : ∀ n ∈ before, n.name ≠ part)
    (hfiles : allFiles nodes =
      allFiles before ++ ((allFiles ch).map (fun n => (part :: n.1, n.2)) ++ allFiles after)) :
    Placed diff folders part (next :: rest) nodes := by
  have hplace := place_folder hensure hbefore
  rw [← h.length, List.take_length] at hplace
  have hne : place diff (folders ++ [part]) (next :: rest) ch ≠ [] := by
    intro hnil
    have hperm := h.files
    rw [hnil] at hperm
    have hlength := hperm.length_eq
    rw [List.length_append, List.length_singleton] at hlength
    exact absurd hlength (Nat.succ_ne_zero _).symm
  refine ⟨?_, ?_, ?_⟩
  · rw [hplace]
    refine hgood.insert _ rfl hfree fun path name ch' heq => ?_
    cases heq
    exact ⟨hne, h.good⟩
  · rw [hplace, allFiles_append, hfiles, allFiles, TreeNode.files]
    have hmap := h.files.map fun n : List Text × Diff => (part :: n.1, n.2)
    rw [List.map_append, List.map_singleton] at hmap
    refine (((hmap.append_right _).trans ?_).append_left _).trans (.of_eq (List.append_assoc ..).symm)
    rw [List.append_assoc, List.append_assoc]
    exact List.perm_append_comm.append_left _
  · rw [hplace, hensure, List.length_append, List.length_append, List.length_cons, List.length_cons]

theorem Good.placed (h : Good folders nodes) (diff : Diff) (part : Text) (rest : List Text)
    (hfree : ∀ p ∈ part :: rest, '/' ∉ p)
    (hnew : ∀ f ∈ allFiles nodes, ¬ f.1 <+: part :: rest ∧ ¬ part :: rest <+: f.1) :
    Placed diff folders part rest nodes := by
  induction rest generalizing folders nodes part with
  | nil =>
    have hany : ¬ nodes.any (·.name = part) := by
      intro hany
      obtain ⟨node, hnode, hname⟩ := List.any_eq_true.mp hany
      obtain ⟨f, hf, hpart⟩ := h.exists_below hnode
      apply (hnew f hf).2
      rw [← of_decide_eq_true hname]
      exact hpart
    have hensure : ensure diff folders part [] nodes =
        nodes ++ [.file (join (folders ++ [part])) part diff] := if_neg hany
    have hplace : place diff folders [part] nodes = ensure diff folders part [] nodes := by
      rw [place]
      split
      next hnext => cases hnext
      next => rfl
    refine ⟨?_, ?_, congrArg List.length hplace⟩
    · rw [hplace, hensure]
      exact Good.insert [] (by rwa [List.append_nil]) rfl (hfree part List.mem_cons_self) nofun
    · rw [hplace, hensure, allFiles_append]
      exact .refl _
  | cons next rest ih =>
    have hrest : ∀ p ∈ next :: rest, '/' ∉ p := fun p hp => hfree p (List.mem_cons_of_mem _ hp)
    by_cases hany : nodes.any (·.name = part)
    · have hensure : ensure diff folders part (next :: rest) nodes = nodes := if_pos hany
      obtain ⟨node, hfind⟩ := Option.isSome_iff_exists.mp (List.find?_isSome.mpr
        (List.any_eq_true.mp hany))
      obtain ⟨hname, before, after, hnodes, hbefore⟩ := find_split hfind
      rw [hname] at hbefore
      have hfiles : allFiles nodes = allFiles before ++ (node.files ++ allFiles after) := by
        rw [hnodes, allFiles_append, allFiles]
      have hmem : ∀ f ∈ node.files, f ∈ allFiles nodes := by
        intro f hf
        rw [hfiles]
        exact List.mem_append_right _ (List.mem_append_left _ hf)
      cases node with
      | file path name d =>
        cases hname
        exact ((hnew _ (hmem _ List.mem_cons_self)).1 ⟨next :: rest, rfl⟩).elim
      | folder path name ch =>
        cases hname
        obtain ⟨hpath, hch⟩ := h.folder (hnodes ▸ List.mem_append_right _ List.mem_cons_self)
        subst hpath
        refine Placed.folder before after (ih hch next hrest fun f hf => ?_) (h.subset ?_)
          (hfree _ List.mem_cons_self) (hensure.trans hnodes) hbefore hfiles
        · obtain ⟨hbelow, habove⟩ := hnew _ (hmem _ (List.mem_map_of_mem hf))
          exact ⟨fun hle => hbelow (List.cons_prefix_cons.mpr ⟨rfl, hle⟩),
            fun hle => habove (List.cons_prefix_cons.mpr ⟨rfl, hle⟩)⟩
        · rw [hnodes]
          exact List.append_subset.mpr ⟨List.subset_append_left _ _,
            fun n hn => List.mem_append_right _ (List.mem_cons_of_mem _ hn)⟩
    · refine Placed.folder nodes [] (ih .nil next hrest fun _ hf => nomatch hf) ?_
        (hfree _ List.mem_cons_self) (if_neg hany) (fun n hn heq => ?_) ?_
      · rwa [List.append_nil]
      · exact hany (List.any_eq_true.mpr ⟨n, hn, decide_eq_true heq⟩)
      · exact (List.append_nil _).symm

theorem Good.sort (h : Good folders nodes) (localeCompare : Text → Text → Ordering) :
    Good folders (sortTreeNodes localeCompare nodes) := by
  induction h with
  | @mk nodes folders paths filled below ih =>
    refine .mk (fun n hn => ?_) (fun path name children hm => ?_) fun path name children hm => ?_
    · obtain ⟨m, hm, rfl⟩ := mem_sortTreeNodes.mp hn
      rw [sortNode_path, sortNode_name]
      exact paths m hm
    · obtain ⟨ch, hch, rfl⟩ := folder_of_sort hm
      obtain ⟨node, hnode⟩ := List.exists_mem_of_ne_nil ch (filled path name ch hch)
      exact List.ne_nil_of_mem (mem_sortTreeNodes.mpr ⟨node, hnode, rfl⟩)
    · obtain ⟨ch, hch, rfl⟩ := folder_of_sort hm
      exact ih path name ch hch

theorem Good.paths (h : Good folders nodes) (hn : n ∈ allNodes nodes) :
    n.1 ≠ [] ∧ n.2.path = join (folders ++ n.1) ∧ ∀ name ∈ n.1, '/' ∉ name := by
  induction h generalizing n with
  | @mk nodes folders paths filled below ih =>
    rw [allNodes_eq] at hn
    obtain ⟨node, hnode, hn⟩ := List.mem_flatMap.mp hn
    have hpath := paths node hnode
    have htop : ([node.name], node).1 ≠ [] ∧ node.path = join (folders ++ [node.name]) ∧
        ∀ name ∈ [node.name], '/' ∉ name :=
      ⟨List.cons_ne_nil _ _, hpath.1, fun _ hm => List.mem_singleton.mp hm ▸ hpath.2⟩
    cases node with
    | file path name diff =>
      cases List.mem_singleton.mp hn
      exact htop
    | folder path name ch =>
      rcases List.mem_cons.mp hn with rfl | hn
      · exact htop
      · obtain ⟨m, hm, rfl⟩ := List.mem_map.mp hn
        obtain ⟨_, hpath', hfree⟩ := ih path name ch hnode (n := m) hm
        refine ⟨List.cons_ne_nil _ _, ?_, List.forall_mem_cons.mpr ⟨hpath.2, hfree⟩⟩
        rw [hpath', List.append_assoc]
        rfl

theorem nodes_head (h : n ∈ TreeNode.nodes node) : ∃ rest, n.1 = node.name :: rest := by
  cases node with
  | file path name diff =>
    cases List.mem_singleton.mp h
    exact ⟨[], rfl⟩
  | folder path name children =>
    rcases List.mem_cons.mp h with rfl | h
    · exact ⟨[], rfl⟩
    · obtain ⟨m, _, rfl⟩ := List.mem_map.mp h
      exact ⟨m.1, rfl⟩

theorem nodes_ne_nil (hn : n ∈ allNodes nodes) : n.1 ≠ [] := by
  rw [allNodes_eq] at hn
  obtain ⟨node, _, hn⟩ := List.mem_flatMap.mp hn
  obtain ⟨rest, hrest⟩ := nodes_head hn
  exact hrest ▸ List.cons_ne_nil _ _

theorem Level.chains (h : Level P nodes) : (allNodes nodes).Pairwise fun m n => m.1 ≠ n.1 := by
  induction h with
  | @mk nodes names files below ih =>
    rw [allNodes_eq, List.pairwise_flatMap]
    constructor
    · intro node hnode
      cases node with
      | file => exact List.pairwise_singleton _ _
      | folder path name ch =>
        refine List.pairwise_cons.mpr ⟨fun n hn heq => ?_, ?_⟩
        · obtain ⟨m, hm, rfl⟩ := List.mem_map.mp hn
          exact nodes_ne_nil hm (List.cons.inj heq).2.symm
        · exact List.pairwise_map.mpr
            ((ih path name ch hnode).imp fun hne heq => hne (List.cons.inj heq).2)
    · refine (List.pairwise_map.mp names).imp fun hne m hm n hn heq => ?_
      obtain ⟨rest, hrest⟩ := nodes_head hm
      obtain ⟨rest', hrest'⟩ := nodes_head hn
      rw [hrest, hrest'] at heq
      exact hne (List.cons.inj heq).1

theorem split_join (hne : names ≠ []) (h : ∀ name ∈ names, '/' ∉ name) :
    split (join names) = names := List.splitOn_intercalate '/' h hne

theorem join_split (path : Text) : join (split path) = path := List.intercalate_splitOn '/'

theorem split_ne_nil (path : Text) : split path ≠ [] := List.splitOn_ne_nil _ _

theorem not_mem_split (h : part ∈ split path) : '/' ∉ part := by
  induction path generalizing part with
  | nil =>
    cases List.mem_singleton.mp h
    exact List.not_mem_nil
  | cons c path ih =>
    rw [split, List.splitOn_cons_eq_if_modifyHead] at h
    split at h
    next =>
      rcases List.mem_cons.mp h with rfl | h
      · exact List.not_mem_nil
      · exact ih h
    next hc =>
      obtain ⟨first, others, hsplit⟩ := List.exists_cons_of_ne_nil (split_ne_nil path)
      rw [split] at hsplit ih
      rw [hsplit] at h ih
      rcases List.mem_cons.mp h with rfl | h
      · intro hm
        rcases List.mem_cons.mp hm with heq | hm
        · exact hc (beq_iff_eq.mpr heq.symm)
        · exact ih List.mem_cons_self hm
      · exact ih (List.mem_cons_of_mem _ h)

theorem split_inj (h : split path = split path') : path = path' := by
  rw [← join_split path, h, join_split]

def Named (diff : Diff) : Prop := ∃ path ∈ filePath diff, path ≠ []

theorem addDiff_eq (nodes : List TreeNode) (diff : Diff) :
    addDiff nodes diff = place diff [] (parts diff) nodes ∧ Named diff ∨
      addDiff nodes diff = nodes ∧ ¬ Named diff := by
  unfold addDiff parts Named
  cases filePath diff with
  | none => exact .inr ⟨rfl, nofun⟩
  | some path =>
    cases path with
    | nil => exact .inr ⟨rfl, fun ⟨path, hpath, hne⟩ => hne (Option.some.inj hpath).symm⟩
    | cons c path => exact .inl ⟨rfl, _, rfl, List.cons_ne_nil _ _⟩

theorem Level.build (h : Level Named nodes) (diffs : List Diff) :
    Level Named (diffs.foldl addDiff nodes) := by
  induction diffs generalizing nodes with
  | nil => exact h
  | cons diff diffs ih =>
    apply ih
    rcases addDiff_eq nodes diff with ⟨heq, hnamed⟩ | ⟨heq, _⟩
    · rw [heq]
      exact h.place hnamed _ _
    · rw [heq]
      exact h

theorem level_buildFileTree (localeCompare : Text → Text → Ordering) (diffs : List Diff) :
    Level Named (buildFileTree localeCompare diffs) := (Level.nil.build diffs).sort localeCompare

theorem Shows.separate {diffs : List Diff}
    (h : Shows localeCompare diffs (buildFileTree localeCompare diffs)) : Separate diffs := by
  have hlevel := level_buildFileTree localeCompare diffs
  have hmem : ∀ diff ∈ diffs, (parts diff, diff) ∈ allFiles (buildFileTree localeCompare diffs) := by
    intro diff hdiff
    rw [h.files]
    exact List.mem_map_of_mem (List.mem_mergeSort.mpr hdiff)
  exact ⟨fun diff hdiff => hlevel.files (hmem diff hdiff),
    fun diff hdiff diff' hdiff' => hlevel.apart (hmem diff hdiff) (hmem diff' hdiff')⟩

theorem parts_inj (hnamed : Named diff) (hnamed' : Named diff') (h : parts diff = parts diff') :
    filePath diff = filePath diff' := by
  obtain ⟨path, hpath, _⟩ := hnamed
  obtain ⟨path', hpath', _⟩ := hnamed'
  have heq := split_inj h
  rw [hpath, hpath'] at heq ⊢
  exact congrArg some heq

theorem Separate.build (done : List Diff) {rest : List Diff} (h : Separate (done ++ rest))
    (hdistinct : ((done ++ rest).map filePath).Nodup) (hgood : Good [] nodes)
    (hfiles : (allFiles nodes).Perm (done.map fun diff => (parts diff, diff))) :
    Good [] (rest.foldl addDiff nodes) ∧ (allFiles (rest.foldl addDiff nodes)).Perm
      ((done ++ rest).map fun diff => (parts diff, diff)) := by
  induction rest generalizing done nodes with
  | nil =>
    rw [List.append_nil]
    exact ⟨hgood, hfiles⟩
  | cons diff rest ih =>
    have hmem : diff ∈ done ++ diff :: rest := List.mem_append_right _ List.mem_cons_self
    have hnamed := h.named diff hmem
    have hplace : addDiff nodes diff = place diff [] (parts diff) nodes := by
      rcases addDiff_eq nodes diff with ⟨heq, _⟩ | ⟨_, hnot⟩
      · exact heq
      · exact (hnot hnamed).elim
    have hnew : ∀ f ∈ allFiles nodes, ¬ f.1 <+: parts diff ∧ ¬ parts diff <+: f.1 := by
      intro f hf
      obtain ⟨diff', hdiff', rfl⟩ := List.mem_map.mp (hfiles.mem_iff.mp hf)
      have hmem' : diff' ∈ done ++ diff :: rest := List.mem_append_left _ hdiff'
      have hne : parts diff' ≠ parts diff := by
        intro heq
        have hpath := parts_inj (h.named diff' hmem') hnamed heq
        rw [List.map_append, List.nodup_append] at hdistinct
        exact hdistinct.2.2 _ (List.mem_map_of_mem hdiff') _ List.mem_cons_self hpath
      exact ⟨fun hle => hne (h.apart diff' hmem' diff hmem hle),
        fun hle => hne (h.apart diff hmem diff' hmem' hle).symm⟩
    obtain ⟨part, others, hparts⟩ := List.exists_cons_of_ne_nil (split_ne_nil ((filePath diff).getD []))
    change parts diff = _ at hparts
    rw [hparts] at hnew
    have hplaced := hgood.placed diff part others (fun p hp => not_mem_split (hparts ▸ hp)) hnew
    have hfiles' := hplaced.files
    rw [← hparts] at hfiles'
    rw [List.foldl_cons, hplace, hparts]
    rw [List.append_cons] at h hdistinct ⊢
    refine ih _ h hdistinct hplaced.good ?_
    rw [← hparts, List.map_append]
    exact hfiles'.trans (hfiles.append_right _)

theorem Separate.sortPath {diffs : List Diff} (h : Separate diffs) (hdiff : diff ∈ diffs) :
    split (sortPath diff) = parts diff := by
  obtain ⟨path, hpath, hne⟩ := h.named diff hdiff
  unfold FileTree.sortPath parts
  rw [hpath]
  unfold filePath at hpath
  cases hnew : diff.newPath with
  | none =>
    rw [hnew, Option.none_or] at hpath
    exact congrArg split (congrArg (·.getD []) hpath)
  | some path' =>
    rw [hnew, Option.some_or, Option.map_some] at hpath
    cases hpath
    cases hlist : path'.toList with
    | nil => exact (hne hlist).elim
    | cons c rest => simp only [Option.map_some, hlist, Option.getD_some]

theorem Separate.sorted [Std.TransCmp localeCompare] [Std.LawfulEqCmp localeCompare]
    {diffs : List Diff} (h : Separate diffs) (hdistinct : (diffs.map filePath).Nodup) :
    (sortDiffs localeCompare diffs).Pairwise
      fun a b => compareParts localeCompare (parts a) (parts b) = .lt := by
  have hperm : (sortDiffs localeCompare diffs).Perm diffs := List.mergeSort_perm _ _
  have hpaths := List.pairwise_map.mp ((hperm.map filePath).nodup_iff.mpr hdistinct)
  refine ((pairwise_sortDiffs diffs).and hpaths).imp_of_mem fun {a b} ha hb hab => ?_
  have ha := hperm.mem_iff.mp ha
  have hb := hperm.mem_iff.mp hb
  obtain ⟨hle, hne⟩ := hab
  rw [h.sortPath ha, h.sortPath hb] at hle
  exact compareParts_lt hle fun heq => hne (parts_inj (h.named a ha) (h.named b hb) heq)

/-- The tree shows the diffs if and only if each of them has a path, and no path leads through a
file of another: of two such files one is lost, or is put into another folder. -/
theorem buildFileTree_iff (localeCompare : Text → Text → Ordering) [Std.TransCmp localeCompare]
    [Std.LawfulEqCmp localeCompare] (diffs : List Diff) (h : (diffs.map filePath).Nodup) :
    Shows localeCompare diffs (buildFileTree localeCompare diffs) ↔ Separate diffs := by
  refine ⟨Shows.separate, fun hsep => ?_⟩
  have hlevel : Level Named (diffs.foldl addDiff []) := Level.nil.build diffs
  obtain ⟨hgood, hfiles⟩ := Separate.build [] hsep h .nil (.refl _)
  have hgood := hgood.sort localeCompare
  have hsorted : (sortDiffs localeCompare diffs).Perm diffs := List.mergeSort_perm _ _
  refine ⟨?_, fun n hn => (hgood.paths hn).2.1, ?_⟩
  · exact List.Perm.eq_of_pairwise (fun f g _ _ hlt hgt => (compareParts_asymm hlt hgt).elim)
      hlevel.sorted (List.pairwise_map.mpr (hsep.sorted h))
      ((hlevel.sort_files.trans hfiles).trans (hsorted.map _).symm)
  · have hchains := (hlevel.sort localeCompare).chains
    refine List.pairwise_map.mpr (hchains.imp_of_mem fun {m n} hm hn hne heq => hne ?_)
    obtain ⟨hnil, hpath, hfree⟩ := hgood.paths hm
    obtain ⟨hnil', hpath', hfree'⟩ := hgood.paths hn
    have hjoin := (Prod.mk.inj heq).1
    rw [hpath, hpath'] at hjoin
    rw [← split_join hnil hfree, ← split_join hnil' hfree']
    exact congrArg split hjoin

def sampleDiff (path : String) : Diff :=
  ⟨.modified, none, some path, none, none, false, none, none, none⟩

def codePoints : Text → Text → Ordering := List.compareLex compare

instance codePoints.transCmp : Std.TransCmp codePoints :=
  inferInstanceAs (Std.TransCmp (List.compareLex compare))

instance codePoints.lawfulEqCmp : Std.LawfulEqCmp codePoints :=
  inferInstanceAs (Std.LawfulEqCmp (List.compareLex compare))

theorem buildFileTree_sample :
    Shows codePoints [sampleDiff "a/b", sampleDiff "c"]
      (buildFileTree codePoints [sampleDiff "a/b", sampleDiff "c"]) :=
  (buildFileTree_iff codePoints _ (by decide)).mpr ⟨by decide, by decide⟩

/-- A file becomes a directory: the file below it is shown beside it. -/
theorem not_buildFileTree_shows : ¬ ∀ diffs : List Diff, (diffs.map filePath).Nodup →
    Shows codePoints diffs (buildFileTree codePoints diffs) := by
  intro h
  have hsep := (h [sampleDiff "a", sampleDiff "a/b"] (by decide)).separate
  have hparts := hsep.apart _ List.mem_cons_self _ (List.mem_cons_of_mem _ List.mem_cons_self)
    (by decide)
  exact absurd hparts (by decide)

end Cdesktop.FileTree
