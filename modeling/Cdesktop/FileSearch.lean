import Cdesktop.Ranking
import Mathlib.Data.List.Infix
import Mathlib.Data.List.Lex
import Mathlib.Data.String.Basic

/-! The file search of a repository, over an index built beforehand and without one. -/

namespace Cdesktop.FileSearch
open Ranking
set_option autoImplicit true

abbrev Text := List Char

/-- `str::to_lowercase`. It maps each character to one or more, and a separator ends a word. -/
structure Lowercase where
  run : Text → Text
  slash : ∀ s t, run (s ++ '/' :: t) = run s ++ '/' :: run t
  nonempty : ∀ s, run s = [] → s = []

/-- What a directory has, in the order in which it is read. A leaf that is no file is a link or the
like. -/
inductive Node where
  | leaf (name : Text) (isFile : Bool)
  | directory (name : Text) (children : List Node)
  | unreadable (name : Text)

def Node.name : Node → Text
  | .leaf name _ => name
  | .directory name _ => name
  | .unreadable name => name

mutual

def Node.WellFormed : Node → Prop
  | .directory name children => (name ≠ [] ∧ '/' ∉ name) ∧ NodesWellFormed children
  | .leaf name _ => name ≠ [] ∧ '/' ∉ name
  | .unreadable name => name ≠ [] ∧ '/' ∉ name

def NodesWellFormed : List Node → Prop
  | [] => True
  | node :: nodes =>
    node.WellFormed ∧ node.name ∉ nodes.map Node.name ∧ NodesWellFormed nodes

end

/-- The walker's own decisions are given: whether its rules ignore a path, when it reads git's ignore
files and when it does not. -/
structure Repository where
  name : Option Text
  children : List Node
  wellFormed : NodesWellFormed children
  ignores : Bool → List Text → Bool

structure Entry where
  path : List Text
  isFile : Bool
deriving DecidableEq

inductive WalkError where
  | io

mutual

/-- What a walker yields below a directory; what it skips it does not descend into. The repository
itself, which comes first, is left out: every loop passes it over. -/
@[simp] def walkNode (skips : List Text → Bool) (parent : List Text) : Node → List (Except WalkError Entry)
  | .leaf name isFile =>
    if skips (parent ++ [name]) then [] else [.ok ⟨parent ++ [name], isFile⟩]
  | .directory name children =>
    if skips (parent ++ [name]) then []
    else .ok ⟨parent ++ [name], false⟩ :: walkNodes skips (parent ++ [name]) children
  | .unreadable name =>
    if skips (parent ++ [name]) then [] else [.ok ⟨parent ++ [name], false⟩, .error .io]

@[simp] def walkNodes (skips : List Text → Bool) (parent : List Text) :
    List Node → List (Except WalkError Entry)
  | [] => []
  | node :: nodes => walkNode skips parent node ++ walkNodes skips parent nodes

end

def walk (repo : Repository) (skips : List Text → Bool) : List (Except WalkError Entry) :=
  walkNodes skips [] repo.children

def Entry.fileName (e : Entry) : Text := e.path.getLastD []

def Entry.parentName (repo : Repository) (e : Entry) : Option Text :=
  match e.path.dropLast.getLast? with
  | some name => some name
  | none => repo.name

def Entry.relativePath (e : Entry) : Text := ['/'].intercalate e.path

def isGit (name : Text) : Bool := name = ".git".toList

def isPerformanceKiller (name : Text) : Bool :=
  name = "node_modules".toList || name = "target".toList || name = "dist".toList ||
    name = "build".toList

/-- The walker over everything but git's own and the large directories. -/
def supersetSkips (repo : Repository) (path : List Text) : Bool :=
  repo.ignores false path || isGit (path.getLastD []) || isPerformanceKiller (path.getLastD [])

/-- The walker that reads git's ignore files. -/
def ignoreSkips (repo : Repository) (path : List Text) : Bool :=
  repo.ignores true path || isGit (path.getLastD [])

inductive SearchMatchType where
  | fileName | directoryName | fullPath
deriving DecidableEq

inductive SearchMode where
  | taskForm | settings

structure SearchResult where
  path : Text
  isFile : Bool
  matchType : SearchMatchType
  score : Int
deriving DecidableEq

structure FileStat where
  lastIndex : Nat
  commitCount : Nat

abbrev FileStats := Text → Option FileStat

def baseScore : SearchMatchType → Int
  | .fileName => 100
  | .directoryName => 10
  | .fullPath => 1

def calculateScore (stats : FileStats) (result : SearchResult) : Int :=
  match stats result.path with
  | some stat =>
    let recencyBonus := (100 - (min stat.lastIndex 99 : Int)) * 2
    let frequencyBonus := (stat.commitCount : Int) * 1
    baseScore result.matchType * 1000 + recencyBonus * 10 + frequencyBonus
  | none => baseScore result.matchType * 1000

def rerank (stats : FileStats) (results : List SearchResult) : List SearchResult :=
  rank (calculateScore stats) results

def populateScores (stats : FileStats) (results : List SearchResult) : List SearchResult :=
  results.map fun result => { result with score := calculateScore stats result }

structure IndexedFile where
  path : Text
  isFile : Bool
  matchType : SearchMatchType
  pathLowercase : Text
  isIgnored : Bool

def indexFile (lower : Lowercase) (repo : Repository) (nonIgnoredPaths : List (List Text))
    (e : Entry) : IndexedFile :=
  { path := e.relativePath
    isFile := e.isFile
    matchType :=
      if (lower.run e.fileName).isEmpty = false then .fileName
      else if ((e.parentName repo).map lower.run).getD [] ≠ lower.run e.relativePath then
        .directoryName
      else .fullPath
    pathLowercase := lower.run e.relativePath
    isIgnored := e.path ∉ nonIgnoredPaths }

/-- The first error of the walk ends the build. -/
def indexFiles (lower : Lowercase) (repo : Repository) (nonIgnoredPaths : List (List Text)) :
    List (Except WalkError Entry) → Except WalkError (List IndexedFile)
  | [] => .ok []
  | .error error :: _ => .error error
  | .ok e :: items =>
    (indexFiles lower repo nonIgnoredPaths items).map fun files =>
      if (lower.run e.relativePath).isEmpty then files
      else indexFile lower repo nonIgnoredPaths e :: files

def entries : List (Except WalkError Entry) → List Entry := List.filterMap Except.toOption

def buildFileIndex (lower : Lowercase) (repo : Repository) :
    Except WalkError (List IndexedFile) :=
  indexFiles lower repo ((entries (walk repo (ignoreSkips repo))).map Entry.path)
    (walk repo (supersetSkips repo))

def cachedResult (lower : Lowercase) (query : Text) (mode : SearchMode) (file : IndexedFile) :
    Option SearchResult :=
  if lower.run query <:+: file.pathLowercase then
    match mode with
    | .taskForm =>
      if file.isIgnored then none else some ⟨file.path, file.isFile, file.matchType, 0⟩
    | .settings => some ⟨file.path, file.isFile, file.matchType, 0⟩
  else none

def searchInCache (lower : Lowercase) (index : List IndexedFile) (stats : FileStats) (query : Text)
    (mode : SearchMode) : List SearchResult :=
  (populateScores stats (rerank stats (index.filterMap (cachedResult lower query mode)))).take 10

def walkerSkips (repo : Repository) : SearchMode → List Text → Bool
  | .settings => supersetSkips repo
  | .taskForm => ignoreSkips repo

def walkedResult (lower : Lowercase) (repo : Repository) (query : Text) (e : Entry) :
    Option SearchResult :=
  if lower.run query <:+: lower.run e.fileName then
    some ⟨e.relativePath, e.isFile, .fileName, 0⟩
  else if lower.run query <:+: lower.run e.relativePath then
    if lower.run query <:+: ((e.parentName repo).map lower.run).getD [] then
      some ⟨e.relativePath, e.isFile, .directoryName, 0⟩
    else some ⟨e.relativePath, e.isFile, .fullPath, 0⟩
  else none

def priority : SearchMatchType → Nat
  | .fileName => 0
  | .directoryName => 1
  | .fullPath => 2

/-- The ranking without git's history: by priority, then by path. -/
def sortByPriority (results : List SearchResult) : List SearchResult :=
  results.mergeSort fun a b =>
    priority a.matchType < priority b.matchType ∨
      priority a.matchType = priority b.matchType ∧ a.path ≤ b.path

def searchFilesNoCache (lower : Lowercase) (repo : Repository) (stats : Option FileStats)
    (query : Text) (mode : SearchMode) : List SearchResult :=
  let results :=
    (entries (walk repo (walkerSkips repo mode))).filterMap (walkedResult lower repo query)
  match stats with
  | some stats => (populateScores stats (rerank stats results)).take 10
  | none => (sortByPriority results).take 10

@[elab_as_elim]
theorem nodes_induct {P : List Node → Prop} (nil : P [])
    (leaf : ∀ name isFile nodes, P nodes → P (.leaf name isFile :: nodes))
    (directory : ∀ name children nodes, P children → P nodes →
      P (.directory name children :: nodes))
    (unreadable : ∀ name nodes, P nodes → P (.unreadable name :: nodes)) : ∀ nodes, P nodes
  | [] => nil
  | .leaf name isFile :: nodes =>
    leaf name isFile nodes (nodes_induct nil leaf directory unreadable nodes)
  | .directory name children :: nodes =>
    directory name children nodes (nodes_induct nil leaf directory unreadable children)
      (nodes_induct nil leaf directory unreadable nodes)
  | .unreadable name :: nodes =>
    unreadable name nodes (nodes_induct nil leaf directory unreadable nodes)
termination_by nodes => sizeOf nodes

@[simp]
theorem entries_nil : entries [] = [] := rfl

@[simp]
theorem entries_ok (e : Entry) (items : List (Except WalkError Entry)) :
    entries (.ok e :: items) = e :: entries items := rfl

@[simp]
theorem entries_error (error : WalkError) (items : List (Except WalkError Entry)) :
    entries (.error error :: items) = entries items := rfl

@[simp]
theorem entries_append (items items' : List (Except WalkError Entry)) :
    entries (items ++ items') = entries items ++ entries items' := List.filterMap_append

/-- The names from a directory on, none of which the walker skips. -/
def kept (skips : List Text → Bool) (parent : List Text) : List Text → Bool
  | [] => true
  | name :: rest => !skips (parent ++ [name]) && kept skips (parent ++ [name]) rest

def Repository.entries (repo : Repository) : List Entry :=
  FileSearch.entries (walk repo fun _ => false)

variable {skips : List Text → Bool} {parent : List Text} {nodes : List Node}

variable {e : Entry}

theorem mem_walkNodes_cons (he : e ∈ entries (walkNodes skips parent (node :: nodes))) :
    e.path = parent ++ [node.name] ∨
      (∃ children, node = .directory node.name children ∧
        e ∈ entries (walkNodes skips (parent ++ [node.name]) children)) ∨
      e ∈ entries (walkNodes skips parent nodes) := by
  rw [walkNodes, entries_append, List.mem_append] at he
  rcases he with he | he
  · cases node <;> rw [walkNode] at he <;> split at he <;>
      simp only [entries_ok, entries_error, entries_nil, List.mem_cons, List.not_mem_nil, or_false] at he
    · exact .inl (by rw [he]; rfl)
    · rcases he with rfl | he
      · exact .inl rfl
      · exact .inr (.inl ⟨_, rfl, he⟩)
    · exact .inl (by rw [he]; rfl)
  · exact .inr (.inr he)

theorem walkNodes_path (he : e ∈ entries (walkNodes skips parent nodes)) :
    ∃ node ∈ nodes, ∃ rest, e.path = parent ++ node.name :: rest := by
  induction nodes using nodes_induct generalizing parent with
  | nil => simp [walkNodes] at he
  | leaf name isFile nodes ih | unreadable name nodes ih =>
    obtain hself | ⟨_, heq, -⟩ | he := mem_walkNodes_cons he
    · exact ⟨_, List.mem_cons_self, [], hself⟩
    · cases heq
    · obtain ⟨node, hm, h⟩ := ih he
      exact ⟨node, List.mem_cons_of_mem _ hm, h⟩
  | directory name children nodes ihc ih =>
    obtain hself | ⟨_, heq, he⟩ | he := mem_walkNodes_cons he
    · exact ⟨_, List.mem_cons_self, [], hself⟩
    · cases heq
      obtain ⟨node, -, rest, h⟩ := ihc he
      exact ⟨_, List.mem_cons_self, node.name :: rest, by rw [h, List.append_assoc]; rfl⟩
    · obtain ⟨node, hm, h⟩ := ih he
      exact ⟨node, List.mem_cons_of_mem _ hm, h⟩

theorem entries_walkNodes (skips : List Text → Bool) (parent : List Text) (nodes : List Node) :
    entries (walkNodes skips parent nodes) =
      (entries (walkNodes (fun _ => false) parent nodes)).filter fun e =>
        kept skips parent (e.path.drop parent.length) := by
  induction nodes using nodes_induct generalizing parent with
  | nil => rfl
  | leaf name isFile nodes ih =>
    rw [walkNodes, walkNodes, entries_append, entries_append, List.filter_append, ih]
    by_cases hs : skips (parent ++ [name]) <;> simp [walkNode, kept, hs]
  | unreadable name nodes ih =>
    rw [walkNodes, walkNodes, entries_append, entries_append, List.filter_append, ih]
    by_cases hs : skips (parent ++ [name]) <;> simp [walkNode, kept, hs]
  | directory name children nodes ihc ih =>
    rw [walkNodes, walkNodes, entries_append, entries_append, List.filter_append, ih]
    have hbelow : ∀ e ∈ entries (walkNodes (fun _ => false) (parent ++ [name]) children),
        kept skips parent (e.path.drop parent.length) =
          (!skips (parent ++ [name]) &&
            kept skips (parent ++ [name]) (e.path.drop (parent ++ [name]).length)) := by
      intro e he
      obtain ⟨node, -, rest, hpath⟩ := walkNodes_path he
      have hdrop : e.path.drop parent.length = name :: node.name :: rest := by
        rw [hpath, List.append_assoc, List.drop_left]
        rfl
      have hdrop' : e.path.drop (parent ++ [name]).length = node.name :: rest := by
        rw [hpath, List.drop_left]
      rw [hdrop, hdrop']
      rfl
    congr 1
    rw [walkNode, walkNode, if_neg Bool.false_ne_true, entries_ok, List.filter_cons,
      List.filter_congr hbelow]
    by_cases hs : skips (parent ++ [name])
    · simp [kept, hs]
    · have hchildren := ihc (parent ++ [name])
      rw [List.length_append, List.length_singleton] at hchildren
      simpa [kept, hs] using hchildren

theorem NodesWellFormed.name_notMem {node : Node} (h : NodesWellFormed (node :: nodes)) :
    ∀ node' ∈ nodes, node'.name ≠ node.name := by
  intro node' hm he
  rw [NodesWellFormed] at h
  exact h.2.1 (he ▸ List.mem_map_of_mem hm)

theorem nodup_cons {node : Node} (hwf : NodesWellFormed (node :: nodes))
    (hnode : ((entries (walkNode skips parent node)).map Entry.path).Nodup)
    (hnodes : ((entries (walkNodes skips parent nodes)).map Entry.path).Nodup) :
    ((entries (walkNodes skips parent (node :: nodes))).map Entry.path).Nodup := by
  have hone : walkNodes skips parent [node] = walkNode skips parent node := by simp [walkNodes]
  rw [walkNodes, entries_append, List.map_append, List.nodup_append]
  refine ⟨hnode, hnodes, fun p hp p' hp' he => ?_⟩
  obtain ⟨e, hm, rfl⟩ := List.mem_map.1 hp
  obtain ⟨e', hm', rfl⟩ := List.mem_map.1 hp'
  obtain ⟨node₁, h₁, rest₁, hpath₁⟩ := walkNodes_path (hone ▸ hm)
  obtain ⟨node₂, h₂, rest₂, hpath₂⟩ := walkNodes_path hm'
  rw [List.mem_singleton] at h₁
  subst h₁
  rw [hpath₁, hpath₂, List.append_cancel_left_eq, List.cons.injEq] at he
  exact hwf.name_notMem node₂ h₂ he.1.symm

theorem walkNodes_nodup (h : NodesWellFormed nodes) :
    ((entries (walkNodes skips parent nodes)).map Entry.path).Nodup := by
  induction nodes using nodes_induct generalizing parent with
  | nil => simp [walkNodes]
  | leaf name isFile nodes ih =>
    refine nodup_cons h ?_ (ih (by rw [NodesWellFormed] at h; exact h.2.2))
    by_cases hs : skips (parent ++ [name]) <;> simp [walkNode, hs]
  | unreadable name nodes ih =>
    refine nodup_cons h ?_ (ih (by rw [NodesWellFormed] at h; exact h.2.2))
    by_cases hs : skips (parent ++ [name]) <;> simp [walkNode, hs]
  | directory name children nodes ihc ih =>
    have hwf := h
    rw [NodesWellFormed, Node.WellFormed] at hwf
    refine nodup_cons h ?_ (ih hwf.2.2)
    rw [walkNode]
    split
    · exact List.nodup_nil
    · rw [entries_ok, List.map_cons, List.nodup_cons]
      refine ⟨fun hm => ?_, ihc hwf.1.2⟩
      obtain ⟨e, he, hpath⟩ := List.mem_map.1 hm
      obtain ⟨node, -, rest, hlonger⟩ := walkNodes_path he
      rw [hlonger] at hpath
      have hlength := congrArg List.length hpath
      simp only [List.length_append, List.length_cons] at hlength
      omega

theorem walkNodes_names (h : NodesWellFormed nodes)
    (he : e ∈ entries (walkNodes skips parent nodes)) :
    ∃ rest, e.path = parent ++ rest ∧ rest ≠ [] ∧ ∀ name ∈ rest, name ≠ [] ∧ '/' ∉ name := by
  induction nodes using nodes_induct generalizing parent with
  | nil => simp [walkNodes] at he
  | leaf name isFile nodes ih | unreadable name nodes ih =>
    rw [NodesWellFormed, Node.WellFormed] at h
    obtain hself | ⟨_, heq, -⟩ | he := mem_walkNodes_cons he
    · exact ⟨[name], hself, by simp, by simpa using h.1⟩
    · cases heq
    · exact ih h.2.2 he
  | directory name children nodes ihc ih =>
    rw [NodesWellFormed, Node.WellFormed] at h
    obtain hself | ⟨_, heq, he⟩ | he := mem_walkNodes_cons he
    · exact ⟨[name], hself, by simp, by simpa using h.1.1⟩
    · cases heq
      obtain ⟨rest, hpath, -, hnames⟩ := ihc h.1.2 he
      refine ⟨name :: rest, by rw [hpath, List.append_assoc]; rfl, by simp, ?_⟩
      exact List.forall_mem_cons.2 ⟨h.1.1, hnames⟩
    · exact ih h.2.2 he

theorem Repository.entries_names {repo : Repository} (he : e ∈ repo.entries) :
    e.path ≠ [] ∧ ∀ name ∈ e.path, name ≠ [] ∧ '/' ∉ name := by
  obtain ⟨rest, hpath, hne, hnames⟩ := walkNodes_names repo.wellFormed he
  rw [List.nil_append] at hpath
  exact hpath ▸ ⟨hne, hnames⟩

theorem Repository.entries_nodup (repo : Repository) : repo.entries.Nodup :=
  List.Nodup.of_map _ (walkNodes_nodup repo.wellFormed)

theorem entries_walk (repo : Repository) (skips : List Text → Bool) :
    entries (walk repo skips) = repo.entries.filter fun e => kept skips [] e.path := by
  rw [walk, entries_walkNodes]
  rfl

theorem Repository.eq_of_relativePath {repo : Repository} {e' : Entry} (he : e ∈ repo.entries)
    (he' : e' ∈ repo.entries) (h : e.relativePath = e'.relativePath) : e = e' := by
  obtain ⟨hne, hnames⟩ := repo.entries_names he
  obtain ⟨hne', hnames'⟩ := repo.entries_names he'
  have hpath : e.path = e'.path := by
    rw [← List.splitOn_intercalate '/' (fun name hm => (hnames name hm).2) hne,
      ← List.splitOn_intercalate '/' (fun name hm => (hnames' name hm).2) hne']
    exact congrArg (List.splitOn '/') h
  exact List.inj_on_of_nodup_map (walkNodes_nodup repo.wellFormed) he he' hpath

def searchMatches (lower : Lowercase) (repo : Repository) (query : Text) (mode : SearchMode) :
    List Entry :=
  repo.entries.filter fun e =>
    kept (walkerSkips repo mode) [] e.path && decide (lower.run query <:+: lower.run e.relativePath)

def isIndexed (repo : Repository) (e : Entry) : Bool := kept (supersetSkips repo) [] e.path

/-- A match in the name itself, not in a directory's. -/
def isNameMatch (lower : Lowercase) (query : Text) (e : Entry) : Bool :=
  lower.run query <:+: lower.run e.fileName

def indexedMatches (lower : Lowercase) (repo : Repository) (query : Text) (mode : SearchMode) :
    List Entry :=
  (searchMatches lower repo query mode).filter (isIndexed repo)

def searchMatchType (lower : Lowercase) (repo : Repository) (query : Text) (e : Entry) :
    SearchMatchType :=
  if lower.run query <:+: lower.run e.fileName then .fileName
  else if lower.run query <:+: ((e.parentName repo).map lower.run).getD [] then .directoryName
  else .fullPath

def Entry.result (e : Entry) (matchType : SearchMatchType) : SearchResult :=
  ⟨e.relativePath, e.isFile, matchType, 0⟩

def matchScore (stats : FileStats) (matchType : Entry → SearchMatchType) (e : Entry) : Int :=
  calculateScore stats (e.result (matchType e))

theorem searchMatchType_eq_fileName {lower : Lowercase} {repo : Repository} {query : Text}
    : searchMatchType lower repo query e = .fileName ↔
      isNameMatch lower query e = true := by
  rw [searchMatchType, isNameMatch, decide_eq_true_eq]
  constructor
  · intro h
    by_contra hn
    rw [if_neg hn] at h
    split at h <;> cases h
  · intro h
    exact if_pos h

section Results
variable {lower : Lowercase} {repo : Repository} {query : Text} {mode : SearchMode}

theorem lower_fileName_infix (hne : e.path ≠ []) (h : lower.run query <:+: lower.run e.fileName) :
    lower.run query <:+: lower.run e.relativePath := by
  have hsuffix : ∀ path : List Text, path ≠ [] →
      lower.run (path.getLastD []) <:+: lower.run (['/'].intercalate path) := by
    intro path hpath
    induction path with
    | nil => exact absurd rfl hpath
    | cons name path ih =>
      cases path with
      | nil =>
        rw [List.intercalate_singleton]
        exact List.infix_rfl
      | cons name' path =>
        rw [List.intercalate_cons_cons, List.append_assoc, List.singleton_append, lower.slash]
        exact (ih (by simp)).trans ⟨lower.run name ++ ['/'], [], by simp⟩
  exact h.trans (hsuffix e.path hne)

theorem walked_results : (entries (walk repo (walkerSkips repo mode))).filterMap
    (walkedResult lower repo query) = (searchMatches lower repo query mode).map fun e =>
      e.result (searchMatchType lower repo query e) := by
  have hresult : ∀ e ∈ repo.entries, walkedResult lower repo query e =
      if lower.run query <:+: lower.run e.relativePath then
        some (e.result (searchMatchType lower repo query e)) else none := by
    intro e he
    rw [walkedResult, searchMatchType]
    by_cases hn : lower.run query <:+: lower.run e.fileName
    · have hp := lower_fileName_infix (repo.entries_names he).1 hn
      rw [if_pos hn, if_pos hn, if_pos hp]
      rfl
    · rw [if_neg hn, if_neg hn]
      split
      · split <;> rfl
      · rfl
  have hsome : ∀ l : List Entry, (∀ e ∈ l, e ∈ repo.entries) →
      l.filterMap (walkedResult lower repo query) =
        (l.filter fun e => lower.run query <:+: lower.run e.relativePath).map fun e =>
          e.result (searchMatchType lower repo query e) := by
    intro l hl
    induction l with
    | nil => rfl
    | cons e l ih =>
      rw [List.filterMap_cons, hresult e (hl e List.mem_cons_self),
        ih fun e he => hl e (List.mem_cons_of_mem _ he)]
      by_cases hp : lower.run query <:+: lower.run e.relativePath <;> simp [hp]
  rw [entries_walk, hsome _ fun e he => (List.mem_filter.1 he).1, List.filter_filter, searchMatches]
  simp only [Bool.and_comm]

theorem indexFiles_eq {nonIgnoredPaths : List (List Text)} {items : List (Except WalkError Entry)}
    {files : List IndexedFile} (hitems : ∀ e ∈ entries items, e.relativePath ≠ [])
    (h : indexFiles lower repo nonIgnoredPaths items = .ok files) :
    files = (entries items).map (indexFile lower repo nonIgnoredPaths) := by
  induction items generalizing files with
  | nil =>
    cases h
    rfl
  | cons item items ih =>
    cases item with
    | error error => cases h
    | ok e =>
      rw [indexFiles] at h
      cases hrest : indexFiles lower repo nonIgnoredPaths items with
      | error error =>
        rw [hrest] at h
        cases h
      | ok rest =>
        rw [hrest] at h
        rw [entries_ok] at hitems
        have hne : (lower.run e.relativePath).isEmpty = false := by
          rw [List.isEmpty_eq_false_iff]
          exact fun hn => hitems e List.mem_cons_self (lower.nonempty _ hn)
        have hfiles : indexFile lower repo nonIgnoredPaths e :: rest = files := by
          simpa [Except.map, hne] using h
        rw [← hfiles, ih (fun e he => hitems e (List.mem_cons_of_mem _ he)) hrest]
        rfl

theorem Repository.relativePath_ne (he : e ∈ repo.entries) : e.relativePath ≠ [] := by
  obtain ⟨hne, hnames⟩ := repo.entries_names he
  intro h
  rw [Entry.relativePath] at h
  cases hp : e.path with
  | nil => exact hne hp
  | cons name path =>
    rw [hp] at h hnames
    cases path with
    | nil => exact (hnames name List.mem_cons_self).1 (by simpa using h)
    | cons name' path => simp [List.intercalate_cons_cons] at h

theorem cached_results {index : List IndexedFile} (hindex : buildFileIndex lower repo = .ok index) :
    index.filterMap (cachedResult lower query mode) =
      (indexedMatches lower repo query mode).map fun e => e.result .fileName := by
  have hindexed : ∀ e ∈ entries (walk repo (supersetSkips repo)),
      e ∈ repo.entries ∧ isIndexed repo e = true := fun e he => by
    rw [entries_walk, List.mem_filter] at he
    exact he
  have hfiles := indexFiles_eq (fun e he => repo.relativePath_ne (hindexed e he).1) hindex
  have hresult : ∀ e ∈ entries (walk repo (supersetSkips repo)),
      cachedResult lower query mode (indexFile lower repo
        ((entries (walk repo (ignoreSkips repo))).map Entry.path) e) =
      if kept (walkerSkips repo mode) [] e.path = true ∧
        lower.run query <:+: lower.run e.relativePath then some (e.result .fileName) else none := by
    intro e he
    obtain ⟨hmem, hkept⟩ := hindexed e he
    have hname : (lower.run e.fileName).isEmpty = false := by
      obtain ⟨hne, hnames⟩ := repo.entries_names hmem
      rw [List.isEmpty_eq_false_iff]
      intro hn
      refine (hnames (e.path.getLastD []) ?_).1 (lower.nonempty _ hn)
      rw [List.getLastD_eq_getLast?, List.getLast?_eq_some_getLast hne]
      exact List.getLast_mem hne
    have hignored : e.path ∈ (entries (walk repo (ignoreSkips repo))).map Entry.path ↔
        kept (ignoreSkips repo) [] e.path = true := by
      rw [entries_walk, List.mem_map]
      constructor
      · rintro ⟨e', he', hpath⟩
        exact hpath ▸ (List.mem_filter.1 he').2
      · intro hk
        exact ⟨e, List.mem_filter.2 ⟨hmem, hk⟩, rfl⟩
    have htype : (indexFile lower repo
        ((entries (walk repo (ignoreSkips repo))).map Entry.path) e).matchType = .fileName :=
      if_pos hname
    cases mode with
    | settings =>
      have hall : kept (walkerSkips repo .settings) [] e.path = true := hkept
      simp only [cachedResult, htype, hall, true_and]
      rfl
    | taskForm =>
      simp only [cachedResult, htype, walkerSkips]
      by_cases hp : lower.run query <:+: lower.run e.relativePath
      · by_cases hk : kept (ignoreSkips repo) [] e.path = true <;>
          simp [indexFile, hp, hk, hignored, Entry.result]
      · simp [indexFile, hp]
  have hsome : ∀ l : List Entry, (∀ e ∈ l, e ∈ entries (walk repo (supersetSkips repo))) →
      (l.map (indexFile lower repo
        ((entries (walk repo (ignoreSkips repo))).map Entry.path))).filterMap
          (cachedResult lower query mode) =
        (l.filter fun e => kept (walkerSkips repo mode) [] e.path &&
          decide (lower.run query <:+: lower.run e.relativePath)).map fun e =>
            e.result .fileName := by
    intro l hl
    induction l with
    | nil => rfl
    | cons e l ih =>
      rw [List.map_cons, List.filterMap_cons, hresult e (hl e List.mem_cons_self),
        ih fun e he => hl e (List.mem_cons_of_mem _ he)]
      by_cases hp : kept (walkerSkips repo mode) [] e.path = true ∧
        lower.run query <:+: lower.run e.relativePath
      · simp [hp]
      · have hp' : (kept (walkerSkips repo mode) [] e.path &&
            decide (lower.run query <:+: lower.run e.relativePath)) = false := by
          simpa [Bool.and_eq_false_iff, not_and] using hp
        simp [hp, hp']
  rw [hfiles, hsome _ fun e he => he, entries_walk, List.filter_filter, indexedMatches,
    searchMatches, List.filter_filter]
  simp only [Bool.and_comm, isIndexed]

theorem searchMatches_entries (he : e ∈ searchMatches lower repo query mode) :
    e ∈ repo.entries := (List.mem_filter.1 he).1

theorem searchMatches_nodup : (searchMatches lower repo query mode).Nodup :=
  repo.entries_nodup.filter _

theorem indexedMatches_nodup : (indexedMatches lower repo query mode).Nodup :=
  searchMatches_nodup.filter _

theorem populateScores_rerank (stats : FileStats) (matchType : Entry → SearchMatchType)
    (l : List Entry) :
    (populateScores stats (rerank stats (l.map fun e => e.result (matchType e)))).take 10 =
      ((rank (matchScore stats matchType) l).take 10).map fun e =>
        { e.result (matchType e) with score := matchScore stats matchType e } := by
  rw [rerank, rank_map, populateScores, List.map_map, ← List.map_take]
  rfl

/-- Each of the first ten matches, ranked as either of the searches ranks, is a match in the name of
an entry that the index has. -/
def NamesLead (lower : Lowercase) (repo : Repository) (stats : FileStats) (query : Text)
    (mode : SearchMode) : Prop :=
  (∀ e, Leads (matchScore stats fun _ => .fileName) (indexedMatches lower repo query mode) 10 e →
    isNameMatch lower query e = true) ∧
  ∀ e, Leads (matchScore stats (searchMatchType lower repo query))
      (searchMatches lower repo query mode) 10 e →
    isNameMatch lower query e = true ∧ isIndexed repo e = true

theorem searchInCache_iff (lower : Lowercase) (repo : Repository) (index : List IndexedFile)
    (stats : FileStats) (query : Text) (mode : SearchMode)
    (hindex : buildFileIndex lower repo = .ok index) :
    searchInCache lower index stats query mode =
        searchFilesNoCache lower repo (some stats) query mode ↔
      NamesLead lower repo stats query mode := by
  have hcached : searchInCache lower index stats query mode =
      ((rank (matchScore stats fun _ => .fileName)
        (indexedMatches lower repo query mode)).take 10).map fun e =>
          { e.result .fileName with score := matchScore stats (fun _ => .fileName) e } := by
    rw [searchInCache, cached_results hindex]
    exact populateScores_rerank stats (fun _ => .fileName) _
  have hwalked : searchFilesNoCache lower repo (some stats) query mode =
      ((rank (matchScore stats (searchMatchType lower repo query))
        (searchMatches lower repo query mode)).take 10).map fun e =>
          { e.result (searchMatchType lower repo query e) with
            score := matchScore stats (searchMatchType lower repo query) e } := by
    rw [searchFilesNoCache, walked_results]
    exact populateScores_rerank stats _ _
  simp only [NamesLead, ← mem_take_rank indexedMatches_nodup,
    ← mem_take_rank searchMatches_nodup]
  rw [hcached, hwalked]
  constructor
  · intro heq
    have hone : ∀ e e', e ∈ repo.entries → e' ∈ repo.entries →
        ({ e.result .fileName with score := matchScore stats (fun _ => .fileName) e } :
          SearchResult) = { e'.result (searchMatchType lower repo query e') with
            score := matchScore stats (searchMatchType lower repo query) e' } →
        e = e' ∧ isNameMatch lower query e' = true := by
      intro e e' he he' hr
      refine ⟨repo.eq_of_relativePath he he' (congrArg SearchResult.path hr), ?_⟩
      exact searchMatchType_eq_fileName.1 (congrArg SearchResult.matchType hr).symm
    have hindexed : ∀ {e}, e ∈ (rank (matchScore stats fun _ => .fileName)
        (indexedMatches lower repo query mode)).take 10 →
        e ∈ searchMatches lower repo query mode ∧ isIndexed repo e = true := fun he =>
      List.mem_filter.1 (mem_rank.1 (List.mem_of_mem_take he))
    have hmatched : ∀ {e}, e ∈ (rank (matchScore stats (searchMatchType lower repo query))
        (searchMatches lower repo query mode)).take 10 → e ∈ repo.entries := fun he =>
      searchMatches_entries (mem_rank.1 (List.mem_of_mem_take he))
    refine ⟨fun e he => ?_, fun e he => ?_⟩
    · have hm := heq ▸ List.mem_map_of_mem he
      obtain ⟨e', he', hr⟩ := List.mem_map.1 hm
      obtain ⟨rfl, hname⟩ := hone e e' (searchMatches_entries (hindexed he).1) (hmatched he') hr.symm
      exact hname
    · have hm := heq.symm ▸ List.mem_map_of_mem he
      obtain ⟨e', he', hr⟩ := List.mem_map.1 hm
      obtain ⟨rfl, hname⟩ := hone e' e (searchMatches_entries (hindexed he').1) (hmatched he) hr
      exact ⟨hname, (hindexed he').2⟩
  · rintro ⟨hnames, hall⟩
    have hscore : ∀ e, isNameMatch lower query e = true →
        matchScore stats (searchMatchType lower repo query) e =
          matchScore stats (fun _ => .fileName) e := fun e he => by
      rw [matchScore, matchScore, searchMatchType_eq_fileName.2 he]
    have hwalkedFirst := take_rank_filter searchMatches_nodup
      (p := fun e => isNameMatch lower query e && isIndexed repo e)
      (fun e he => by simpa using hall e he)
    have hcachedFirst := take_rank_filter indexedMatches_nodup (p := isNameMatch lower query) hnames
    have hfilter : (indexedMatches lower repo query mode).filter (isNameMatch lower query) =
        (searchMatches lower repo query mode).filter fun e =>
          isNameMatch lower query e && isIndexed repo e := by
      rw [indexedMatches, List.filter_filter]
    have hrank : rank (matchScore stats (searchMatchType lower repo query))
        ((searchMatches lower repo query mode).filter fun e =>
          isNameMatch lower query e && isIndexed repo e) =
        rank (matchScore stats fun _ => .fileName)
          ((searchMatches lower repo query mode).filter fun e =>
            isNameMatch lower query e && isIndexed repo e) :=
      rank_congr fun e he => hscore e (Bool.and_eq_true_iff.1 (List.mem_filter.1 he).2).1
    have hsame : (rank (matchScore stats fun _ => .fileName)
        (indexedMatches lower repo query mode)).take 10 =
        (rank (matchScore stats (searchMatchType lower repo query))
          (searchMatches lower repo query mode)).take 10 := by
      rw [hcachedFirst, hwalkedFirst, hfilter, hrank]
    rw [← hsame]
    apply List.map_congr_left
    intro e he
    rw [hscore e (hnames e he), searchMatchType_eq_fileName.2 (hnames e he)]

end Results

def asciiLowercase : Lowercase where
  run := List.map Char.toLower
  slash s t := by
    rw [List.map_append, List.map_cons]
    rfl
  nonempty s h := List.map_eq_nil_iff.1 h

def docs : Text := "docs".toList

def readme : Text := "readme".toList

def sampleRepository : Repository where
  name := none
  children := [.directory docs [.leaf readme true]]
  wellFormed := by
    simp [NodesWellFormed, Node.WellFormed, docs, readme]
  ignores _ _ := false

def sampleIndex : List IndexedFile :=
  [⟨docs, false, .fileName, docs, false⟩,
    ⟨docs ++ '/' :: readme, true, .fileName, docs ++ '/' :: readme, false⟩]

theorem buildFileIndex_sample : buildFileIndex asciiLowercase sampleRepository = .ok sampleIndex := by
  rfl

/-- The name of the file is searched for. -/
theorem searchInCache_iff_sample :
    searchInCache asciiLowercase sampleIndex (fun _ => none) readme .taskForm =
        searchFilesNoCache asciiLowercase sampleRepository (some fun _ => none) readme .taskForm ↔
      NamesLead asciiLowercase sampleRepository (fun _ => none) readme .taskForm :=
  searchInCache_iff asciiLowercase sampleRepository sampleIndex (fun _ => none) readme .taskForm
    buildFileIndex_sample

def acrossQuery : Text := "s/r".toList

/-- The index takes the match for one in the name. -/
theorem searchInCache_ne :
    buildFileIndex asciiLowercase sampleRepository = .ok sampleIndex ∧
      searchInCache asciiLowercase sampleIndex (fun _ => none) acrossQuery .taskForm ≠
        searchFilesNoCache asciiLowercase sampleRepository (some fun _ => none) acrossQuery
          .taskForm := by
  refine ⟨buildFileIndex_sample, ?_⟩
  have hcached : sampleIndex.filterMap (cachedResult asciiLowercase acrossQuery .taskForm) =
      [⟨docs ++ '/' :: readme, true, .fileName, 0⟩] := by
    decide
  have hwalked : (entries (walk sampleRepository (walkerSkips sampleRepository .taskForm))).filterMap
      (walkedResult asciiLowercase sampleRepository acrossQuery) =
      [⟨docs ++ '/' :: readme, true, .fullPath, 0⟩] := by
    decide
  simp [searchInCache, searchFilesNoCache, hcached, hwalked, rerank, rank, populateScores]

end Cdesktop.FileSearch
