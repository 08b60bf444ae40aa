import Cdesktop.Runs

/-! The entries of a conversation as they are displayed, consecutive ones of a kind taken together. -/

namespace Cdesktop.AggregateEntries
set_option autoImplicit true

inductive CommandCategory where
  | read
  | search
  | edit
  | fetch
  | other
deriving DecidableEq

/-- `ActionType`, with what is read of an action. -/
inductive ActionType where
  | fileRead
  | fileEdit (path : String)
  | commandRun (category : CommandCategory)
  | search
  | webFetch
  | tool
  | taskCreate
  | planPresentation
  | todoManagement
  | askUserQuestion
  | other
deriving DecidableEq

inductive NormalizedEntryType where
  | userMessage
  | userFeedback
  | assistantMessage
  | toolUse (actionType : ActionType)
  | systemMessage
  | errorMessage
  | thinking
  | loading
  | nextAction
  | tokenUsageInfo
  | userAnsweredQuestions
deriving DecidableEq

inductive PatchType where
  | normalizedEntry (entryType : NormalizedEntryType) (content : String)
  | stdout (content : String)
  | stderr (content : String)
  | diff

structure PatchTypeWithKey where
  patch : PatchType
  patchKey : String
  executionProcessId : String

inductive ToolAggregationType where
  | fileRead
  | search
  | webFetch
  | commandRunRead
  | commandRunSearch
  | commandRunEdit
  | commandRunFetch
deriving DecidableEq

structure AggregatedPatchGroup where
  /-- `null` where the type asserted to be there is not. -/
  aggregationType : Option ToolAggregationType
  entries : List PatchTypeWithKey
  patchKey : String
  executionProcessId : String

structure AggregatedDiffGroup where
  /-- `null` where the path asserted to be there is not. -/
  filePath : Option String
  entries : List PatchTypeWithKey
  patchKey : String
  executionProcessId : String

structure AggregatedThinkingGroup where
  entries : List PatchTypeWithKey
  patchKey : String
  executionProcessId : String

inductive DisplayEntry where
  | entry (entry : PatchTypeWithKey)
  | group (group : AggregatedPatchGroup)
  | diffGroup (group : AggregatedDiffGroup)
  | thinkingGroup (group : AggregatedThinkingGroup)

def entryType (entry : PatchTypeWithKey) : Option NormalizedEntryType :=
  match entry.patch with
  | .normalizedEntry entryType _ => some entryType
  | _ => none

def isUserMessage (entry : PatchTypeWithKey) : Bool := entryType entry = some .userMessage

def isThinkingEntry (entry : PatchTypeWithKey) : Bool := entryType entry = some .thinking

/-- What `trim` takes off the ends of a text. -/
def isTrimmed (c : Char) : Bool :=
  c.val ∈ [0x9, 0xA, 0xB, 0xC, 0xD, 0x20, 0xA0, 0x1680, 0x2028, 0x2029, 0x202F, 0x205F, 0x3000,
    0xFEFF] || 0x2000 ≤ c.val && c.val ≤ 0x200A

def isEmptyThinkingEntry (entry : PatchTypeWithKey) : Bool :=
  match entry.patch with
  | .normalizedEntry .thinking content => content.toList.all isTrimmed
  | _ => false

def getFileEditPath (entry : PatchTypeWithKey) : Option String :=
  match entryType entry with
  | some (.toolUse (.fileEdit path)) => some path
  | _ => none

def getAggregationType (entry : PatchTypeWithKey) : Option ToolAggregationType :=
  match entryType entry with
  | some (.toolUse .fileRead) => some .fileRead
  | some (.toolUse .search) => some .search
  | some (.toolUse .webFetch) => some .webFetch
  | some (.toolUse (.commandRun .read)) => some .commandRunRead
  | some (.toolUse (.commandRun .search)) => some .commandRunSearch
  | some (.toolUse (.commandRun .edit)) => some .commandRunEdit
  | some (.toolUse (.commandRun .fetch)) => some .commandRunFetch
  | _ => none

/-- What the first pass hands on: a thinking group is cast to an entry there. -/
inductive Collapsed where
  | entry (entry : PatchTypeWithKey)
  | thinkingGroup (group : AggregatedThinkingGroup)

structure ThinkingPass where
  result : List Collapsed
  currentThinkingGroup : List PatchTypeWithKey

def thinkingGroup (firstEntry : PatchTypeWithKey) (rest : List PatchTypeWithKey) : Collapsed :=
  .thinkingGroup
    { entries := firstEntry :: rest
      patchKey := "agg-thinking:" ++ firstEntry.patchKey
      executionProcessId := firstEntry.executionProcessId }

namespace ThinkingPass

def flushThinkingGroup (s : ThinkingPass) : ThinkingPass :=
  match s.currentThinkingGroup with
  | [] => s
  | firstEntry :: rest => ⟨s.result ++ [thinkingGroup firstEntry rest], []⟩

def push (s : ThinkingPass) (entry : PatchTypeWithKey) : ThinkingPass :=
  { s with result := s.result ++ [.entry entry] }

def step (isInPreviousTurn : Bool) (s : ThinkingPass) (entry : PatchTypeWithKey) : ThinkingPass :=
  if isUserMessage entry then s.flushThinkingGroup.push entry
  else if isInPreviousTurn && isThinkingEntry entry then
    { s with currentThinkingGroup := s.currentThinkingGroup ++ [entry] }
  else s.flushThinkingGroup.push entry

end ThinkingPass

def userMessageIndices (entries : List PatchTypeWithKey) : List Nat :=
  (entries.zipIdx.filter fun indexed => isUserMessage indexed.1).map (·.2)

def aggregateThinkingInPreviousTurns (entries : List PatchTypeWithKey) : List Collapsed :=
  if (userMessageIndices entries).length ≤ 1 then entries.map .entry
  else
    let lastUserMessageIndex := (userMessageIndices entries).getLastD 0
    (entries.zipIdx.foldl (fun s (entry, i) => s.step (i < lastUserMessageIndex) entry)
      (⟨[], []⟩ : ThinkingPass)).flushThinkingGroup.result

structure ToolPass where
  result : List DisplayEntry
  currentToolGroup : List PatchTypeWithKey
  currentAggregationType : Option ToolAggregationType
  currentDiffGroup : List PatchTypeWithKey
  currentDiffPath : Option String

namespace ToolPass

def flushToolGroup (s : ToolPass) : ToolPass :=
  match s.currentToolGroup with
  | [] => s
  | [entry] =>
    { s with
      result := s.result ++ [.entry entry]
      currentToolGroup := []
      currentAggregationType := none }
  | firstEntry :: rest =>
    { s with
      result := s.result ++ [.group
        { aggregationType := s.currentAggregationType
          entries := firstEntry :: rest
          patchKey := "agg:" ++ firstEntry.patchKey
          executionProcessId := firstEntry.executionProcessId }]
      currentToolGroup := []
      currentAggregationType := none }

def flushDiffGroup (s : ToolPass) : ToolPass :=
  match s.currentDiffGroup with
  | [] => s
  | [entry] =>
    { s with
      result := s.result ++ [.entry entry]
      currentDiffGroup := []
      currentDiffPath := none }
  | firstEntry :: rest =>
    { s with
      result := s.result ++ [.diffGroup
        { filePath := s.currentDiffPath
          entries := firstEntry :: rest
          patchKey := "agg-diff:" ++ firstEntry.patchKey
          executionProcessId := firstEntry.executionProcessId }]
      currentDiffGroup := []
      currentDiffPath := none }

def startDiffGroup (s : ToolPass) (fileEditPath : String) (entry : PatchTypeWithKey) : ToolPass :=
  { s with
    currentDiffPath := some fileEditPath
    currentDiffGroup := s.currentDiffGroup ++ [entry] }

def addFileEdit (s : ToolPass) (fileEditPath : String) (entry : PatchTypeWithKey) : ToolPass :=
  match s.currentDiffPath with
  | none => s.startDiffGroup fileEditPath entry
  | some path =>
    if fileEditPath = path then { s with currentDiffGroup := s.currentDiffGroup ++ [entry] }
    else s.flushDiffGroup.startDiffGroup fileEditPath entry

def startToolGroup (s : ToolPass) (aggregationType : ToolAggregationType)
    (entry : PatchTypeWithKey) : ToolPass :=
  { s with
    currentAggregationType := some aggregationType
    currentToolGroup := s.currentToolGroup ++ [entry] }

def addTool (s : ToolPass) (aggregationType : ToolAggregationType) (entry : PatchTypeWithKey) :
    ToolPass :=
  match s.currentAggregationType with
  | none => s.startToolGroup aggregationType entry
  | some current =>
    if aggregationType = current then { s with currentToolGroup := s.currentToolGroup ++ [entry] }
    else s.flushToolGroup.startToolGroup aggregationType entry

def push (s : ToolPass) (shown : DisplayEntry) : ToolPass :=
  { s with result := s.result ++ [shown] }

def step (s : ToolPass) : Collapsed → ToolPass
  | .thinkingGroup group => s.flushToolGroup.flushDiffGroup.push (.thinkingGroup group)
  | .entry entry =>
    match getFileEditPath entry, getAggregationType entry with
    | some fileEditPath, _ => s.flushToolGroup.addFileEdit fileEditPath entry
    | none, some aggregationType => s.flushDiffGroup.addTool aggregationType entry
    | none, none => s.flushToolGroup.flushDiffGroup.push (.entry entry)

end ToolPass

def aggregateConsecutiveEntries (entries : List PatchTypeWithKey) : List DisplayEntry :=
  let filteredEntries := entries.filter fun entry => !isEmptyThinkingEntry entry
  ((aggregateThinkingInPreviousTurns filteredEntries).foldl ToolPass.step
    ⟨[], [], none, [], none⟩).flushToolGroup.flushDiffGroup.result

inductive Kind where
  | tool (aggregationType : ToolAggregationType)
  | edits (filePath : String)
  | thinking
deriving DecidableEq

def toolKind (entry : PatchTypeWithKey) : Option Kind :=
  match getFileEditPath entry, getAggregationType entry with
  | some fileEditPath, _ => some (.edits fileEditPath)
  | none, some aggregationType => some (.tool aggregationType)
  | none, none => none

def entryKind (entry : PatchTypeWithKey) : Option Kind :=
  if isThinkingEntry entry then some .thinking else toolKind entry

namespace DisplayEntry

def members : DisplayEntry → List PatchTypeWithKey
  | .entry e => [e]
  | .group g => g.entries
  | .diffGroup g => g.entries
  | .thinkingGroup g => g.entries

def kind : DisplayEntry → Option Kind
  | .entry e => entryKind e
  | .group g => g.aggregationType.map .tool
  | .diffGroup g => g.filePath.map .edits
  | .thinkingGroup _ => some .thinking

def OfOneKind : DisplayEntry → Prop
  | .entry _ => True
  | .group g => 2 ≤ g.entries.length ∧
      ∃ type, g.aggregationType = some type ∧ ∀ e ∈ g.entries, getAggregationType e = some type
  | .diffGroup g => 2 ≤ g.entries.length ∧
      ∃ path, g.filePath = some path ∧ ∀ e ∈ g.entries, getFileEditPath e = some path
  | .thinkingGroup g => g.entries ≠ [] ∧ ∀ e ∈ g.entries, isThinkingEntry e = true

end DisplayEntry

def Maximal (shown : List DisplayEntry) : Prop :=
  ∀ front a b rest k, shown = front ++ a :: b :: rest → a.kind = some k → b.kind ≠ some k

/-- Neighbours of one kind are single thinking entries of the current turn: the conversation has no
second user message, or none after them. -/
def MaximalInTurns (entries : List PatchTypeWithKey) (shown : List DisplayEntry) : Prop :=
  ∀ front a b rest k, shown = front ++ a :: b :: rest → a.kind = some k → b.kind = some k →
    k = .thinking ∧ (∃ x y, a = .entry x ∧ b = .entry y) ∧
      (entries.countP isUserMessage ≤ 1 ∨
        ∀ e ∈ (a :: b :: rest).flatMap DisplayEntry.members, isUserMessage e = false)

def thinkingKey (entry : PatchTypeWithKey) : Option Unit :=
  if isThinkingEntry entry then some () else none

abbrev ThinkingRuns : List PatchTypeWithKey → List Collapsed → Prop :=
  Runs thinkingKey .entry fun _ => thinkingGroup

theorem thinkingKey_eq_some : thinkingKey entry = some u ↔ isThinkingEntry entry = true := by
  rw [thinkingKey]
  split <;> simp_all

theorem thinkingKey_eq_none : thinkingKey entry = none ↔ isThinkingEntry entry = false := by
  rw [thinkingKey]
  split <;> simp_all

theorem isThinkingEntry_of_user (h : isUserMessage entry = true) : isThinkingEntry entry = false := by
  rw [isUserMessage, decide_eq_true_iff] at h
  rw [isThinkingEntry, h]
  rfl

theorem isUserMessage_of_thinking (h : isThinkingEntry entry = true) :
    isUserMessage entry = false := by
  rw [isThinkingEntry, decide_eq_true_iff] at h
  rw [isUserMessage, h]
  rfl

def closed : List PatchTypeWithKey → List Collapsed
  | [] => []
  | firstEntry :: rest => [thinkingGroup firstEntry rest]

theorem flushThinkingGroup_eq (result : List Collapsed) (group : List PatchTypeWithKey) :
    (⟨result, group⟩ : ThinkingPass).flushThinkingGroup = ⟨result ++ closed group, []⟩ := by
  cases group with
  | nil => exact congrArg (ThinkingPass.mk · []) (List.append_nil result).symm
  | cons => rfl

theorem closed_runs {group : List PatchTypeWithKey}
    (hgroup : ∀ e ∈ group, isThinkingEntry e = true)
    (hrest : ∀ e ∈ rest.head?, isThinkingEntry e = false) (h : ThinkingRuns rest shown) :
    ThinkingRuns (group ++ rest) (closed group ++ shown) := by
  cases group with
  | nil => exact h
  | cons first group =>
    apply Runs.run () first group (fun y hy => thinkingKey_eq_some.2 (hgroup y hy)) _ h
    intro y hy hkey
    exact Bool.false_ne_true ((hrest y hy).symm.trans (thinkingKey_eq_some.1 hkey))

theorem previousTurns_runs (entries : List PatchTypeWithKey) (result : List Collapsed)
    (group : List PatchTypeWithKey) (hgroup : ∀ e ∈ group, isThinkingEntry e = true) :
    ∃ shown, (entries.foldl (ThinkingPass.step true) ⟨result, group⟩).flushThinkingGroup =
      ⟨result ++ shown, []⟩ ∧ ThinkingRuns (group ++ entries) shown := by
  induction entries generalizing result group with
  | nil =>
    have hruns : ThinkingRuns (group ++ []) (closed group ++ []) :=
      closed_runs hgroup (fun _ h => nomatch h) .nil
    rw [List.append_nil (closed group)] at hruns
    exact ⟨closed group, flushThinkingGroup_eq result group, hruns⟩
  | cons entry entries ih =>
    cases hthinking : isThinkingEntry entry with
    | true =>
      have hstep : ThinkingPass.step true ⟨result, group⟩ entry = ⟨result, group ++ [entry]⟩ := by
        rw [ThinkingPass.step, isUserMessage_of_thinking hthinking, hthinking]
        rfl
      have hgrown : ∀ e ∈ group ++ [entry], isThinkingEntry e = true := by
        intro e he
        rcases List.mem_append.1 he with he | he
        · exact hgroup e he
        · rwa [List.mem_singleton.1 he]
      obtain ⟨shown, hfold, hruns⟩ := ih result (group ++ [entry]) hgrown
      rw [List.append_assoc] at hruns
      exact ⟨shown, by rw [List.foldl_cons, hstep, hfold], hruns⟩
    | false =>
      have hstep : ThinkingPass.step true ⟨result, group⟩ entry =
          ⟨result ++ closed group ++ [.entry entry], []⟩ := by
        rw [ThinkingPass.step, hthinking, Bool.and_false, flushThinkingGroup_eq]
        exact ite_self _
      obtain ⟨shown, hfold, hruns⟩ :=
        ih (result ++ closed group ++ [.entry entry]) [] (fun _ h => nomatch h)
      refine ⟨closed group ++ .entry entry :: shown, ?_, ?_⟩
      · rw [List.foldl_cons, hstep, hfold, List.append_assoc, List.append_assoc]
        rfl
      · have hhead : ∀ e ∈ (entry :: entries).head?, isThinkingEntry e = false := by
          intro e he
          rwa [← Option.some.inj he]
        exact closed_runs hgroup hhead (.single entry (thinkingKey_eq_none.2 hthinking) hruns)

theorem step_user (huser : isUserMessage user = true) (s : ThinkingPass) :
    s.step false user = s.flushThinkingGroup.push user :=
  if_pos huser

theorem currentTurn_entries (entries : List PatchTypeWithKey) (result : List Collapsed) :
    entries.foldl (ThinkingPass.step false) ⟨result, []⟩ = ⟨result ++ entries.map .entry, []⟩ := by
  induction entries generalizing result with
  | nil => rw [List.map_nil, List.append_nil]; rfl
  | cons entry entries ih =>
    have hstep : ThinkingPass.step false ⟨result, []⟩ entry = ⟨result ++ [.entry entry], []⟩ :=
      ite_self _
    rw [List.foldl_cons, hstep, ih, List.append_assoc]
    rfl

theorem foldl_zipIdx {f : σ → α × Nat → σ} {g : σ → α → σ} (l : List α) (n : Nat) (s : σ)
    (h : ∀ s x, ∀ i, n ≤ i → i < n + l.length → f s (x, i) = g s x) :
    (l.zipIdx n).foldl f s = l.foldl g s := by
  induction l generalizing n s with
  | nil => rfl
  | cons x l ih =>
    rw [List.zipIdx_cons, List.foldl_cons, List.foldl_cons,
      h s x n (Nat.le_refl n) (Nat.lt_add_of_pos_right (Nat.succ_pos _))]
    apply ih
    intro s x i hi hlt
    apply h s x i (by omega)
    rw [List.length_cons]
    omega

theorem userMessageIndices_length (entries : List PatchTypeWithKey) :
    (userMessageIndices entries).length = entries.countP isUserMessage := by
  have hfilter (n : Nat) : ((entries.zipIdx n).filter fun indexed => isUserMessage indexed.1).length =
      entries.countP isUserMessage := by
    induction entries generalizing n with
    | nil => rfl
    | cons entry entries ih =>
      rw [List.zipIdx_cons, List.filter_cons, List.countP_cons]
      split
      · rw [List.length_cons, ih]
      · exact ih (n + 1)
  rw [userMessageIndices, List.length_map, hfilter]

theorem filter_zipIdx_none {entries : List PatchTypeWithKey} (n : Nat)
    (h : ∀ e ∈ entries, isUserMessage e = false) :
    ((entries.zipIdx n).filter fun indexed => isUserMessage indexed.1) = [] := by
  apply List.filter_eq_nil_iff.2
  intro indexed hindexed
  rw [h indexed.1 (List.fst_mem_of_mem_zipIdx hindexed)]
  exact Bool.false_ne_true

theorem userMessageIndices_last (pre post : List PatchTypeWithKey) (huser : isUserMessage user = true)
    (hpost : ∀ e ∈ post, isUserMessage e = false) :
    (userMessageIndices (pre ++ user :: post)).getLastD 0 = pre.length := by
  have hcons (n : Nat) : (((user :: post).zipIdx n).filter fun indexed => isUserMessage indexed.1) =
      [(user, n)] := by
    rw [List.zipIdx_cons, List.filter_cons, if_pos huser, filter_zipIdx_none (n + 1) hpost]
  rw [userMessageIndices, List.zipIdx_append, List.filter_append, hcons, List.map_append,
    List.getLastD_eq_getLast?, List.map_singleton, List.getLast?_concat, Nat.zero_add]
  rfl

theorem exists_last_user {entries : List PatchTypeWithKey} (h : 0 < entries.countP isUserMessage) :
    ∃ pre user post, entries = pre ++ user :: post ∧ isUserMessage user = true ∧
      ∀ e ∈ post, isUserMessage e = false := by
  induction entries with
  | nil => cases h
  | cons entry entries ih =>
    by_cases hlater : 0 < entries.countP isUserMessage
    · obtain ⟨pre, user, post, rfl, huser, hpost⟩ := ih hlater
      exact ⟨entry :: pre, user, post, rfl, huser, hpost⟩
    · have hzero := Nat.eq_zero_of_not_pos hlater
      rw [List.countP_cons, hzero, Nat.zero_add] at h
      refine ⟨[], entry, entries, rfl, ?_, ?_⟩
      · by_contra hno
        rw [if_neg hno] at h
        cases h
      · exact fun e he => Bool.eq_false_iff.2 (List.countP_eq_zero.1 hzero e he)

theorem aggregateThinkingInPreviousTurns_cases (entries : List PatchTypeWithKey) :
    (entries.countP isUserMessage ≤ 1 ∧
      aggregateThinkingInPreviousTurns entries = entries.map .entry) ∨
    ∃ pre user post shown, entries = pre ++ user :: post ∧ isUserMessage user = true ∧
      (∀ e ∈ post, isUserMessage e = false) ∧ ThinkingRuns pre shown ∧
      aggregateThinkingInPreviousTurns entries = shown ++ (user :: post).map .entry := by
  rw [aggregateThinkingInPreviousTurns, userMessageIndices_length]
  split
  · exact .inl ⟨‹_›, rfl⟩
  · rename_i hmany
    obtain ⟨pre, user, post, rfl, huser, hpost⟩ :=
      exists_last_user (Nat.lt_of_lt_of_le Nat.zero_lt_one (Nat.le_of_not_le hmany))
    obtain ⟨shown, hfold, hruns⟩ := previousTurns_runs pre [] [] (fun _ h => nomatch h)
    refine .inr ⟨pre, user, post, shown, rfl, huser, hpost, hruns, ?_⟩
    dsimp only
    rw [userMessageIndices_last pre post huser hpost, List.zipIdx_append, List.foldl_append,
      foldl_zipIdx (g := ThinkingPass.step true) pre 0, foldl_zipIdx (g := ThinkingPass.step false)]
    · have hpush : (⟨[] ++ shown, []⟩ : ThinkingPass).push user = ⟨shown ++ [.entry user], []⟩ := rfl
      rw [List.foldl_cons, step_user huser, hfold, hpush, currentTurn_entries, flushThinkingGroup_eq,
        closed, List.append_nil, List.append_assoc]
      rfl
    · intro s x i hle hlt
      rw [decide_eq_false (by omega)]
    · intro s x i hle hlt
      rw [decide_eq_true (by omega)]

def Collapsed.members : Collapsed → List PatchTypeWithKey
  | .entry e => [e]
  | .thinkingGroup g => g.entries

theorem members_entries (entries : List PatchTypeWithKey) :
    (entries.map .entry).flatMap Collapsed.members = entries := by
  rw [List.flatMap_map]
  exact List.flatMap_singleton' entries

def Collapsed.toolKind : Collapsed → Option Kind
  | .entry e => AggregateEntries.toolKind e
  | .thinkingGroup _ => none

def Collapsed.shown : Collapsed → DisplayEntry
  | .entry e => .entry e
  | .thinkingGroup g => .thinkingGroup g

def shownGroup (firstEntry : PatchTypeWithKey) : List PatchTypeWithKey → Kind → DisplayEntry
  | [], _ | _, .thinking => .entry firstEntry
  | rest, .tool type => .group
      { aggregationType := some type
        entries := firstEntry :: rest
        patchKey := "agg:" ++ firstEntry.patchKey
        executionProcessId := firstEntry.executionProcessId }
  | rest, .edits path => .diffGroup
      { filePath := some path
        entries := firstEntry :: rest
        patchKey := "agg-diff:" ++ firstEntry.patchKey
        executionProcessId := firstEntry.executionProcessId }

def shownRun (kind : Kind) : Collapsed → List Collapsed → DisplayEntry
  | .entry e, rest => shownGroup e (rest.flatMap Collapsed.members) kind
  | .thinkingGroup g, _ => .thinkingGroup g

abbrev ToolRuns : List Collapsed → List DisplayEntry → Prop :=
  Runs Collapsed.toolKind Collapsed.shown shownRun

abbrev Held := Option (Kind × PatchTypeWithKey × List PatchTypeWithKey)

namespace Held

def entries : Held → List Collapsed
  | none => []
  | some (_, first, rest) => (first :: rest).map .entry

def shown : Held → List DisplayEntry
  | none => []
  | some (kind, first, rest) => [shownGroup first rest kind]

def state (result : List DisplayEntry) : Held → ToolPass
  | some (.tool type, first, rest) => ⟨result, first :: rest, some type, [], none⟩
  | some (.edits path, first, rest) => ⟨result, [], none, first :: rest, some path⟩
  | none | some (.thinking, _, _) => ⟨result, [], none, [], none⟩

def Valid (held : Held) : Prop :=
  ∀ kind first rest, held = some (kind, first, rest) →
    ∀ e ∈ first :: rest, toolKind e = some kind

end Held

theorem toolKind_ne_thinking : toolKind entry ≠ some .thinking := by
  rw [toolKind]
  split <;> intro h <;> cases h

theorem Held.Valid.none : Held.Valid none :=
  fun _ _ _ h => nomatch h

theorem Held.Valid.single (h : toolKind entry = some kind) :
    Held.Valid (some (kind, entry, [])) := by
  intro kind' first rest heq e he
  cases heq
  rw [List.mem_singleton.1 he, h]

theorem Held.Valid.append (hvalid : Held.Valid (some (kind, first, rest)))
    (h : toolKind entry = some kind) : Held.Valid (some (kind, first, rest ++ [entry])) := by
  intro kind' first' rest' heq e he
  cases heq
  rcases List.mem_append.1 (List.cons_append .. ▸ he) with he | he
  · exact hvalid kind first rest rfl e he
  · rw [List.mem_singleton.1 he, h]

theorem flush_tool (result : List DisplayEntry) (first : PatchTypeWithKey)
    (rest : List PatchTypeWithKey) (type : ToolAggregationType) :
    (⟨result, first :: rest, some type, [], none⟩ : ToolPass).flushToolGroup =
      Held.state (result ++ [shownGroup first rest (.tool type)]) none := by
  cases rest <;> rfl

theorem flush_edits (result : List DisplayEntry) (first : PatchTypeWithKey)
    (rest : List PatchTypeWithKey) (path : String) :
    (⟨result, [], none, first :: rest, some path⟩ : ToolPass).flushDiffGroup =
      Held.state (result ++ [shownGroup first rest (.edits path)]) none := by
  cases rest <;> rfl

variable {held : Held}

theorem flush_state (hvalid : held.Valid) (result : List DisplayEntry) :
    (held.state result).flushToolGroup.flushDiffGroup = Held.state (result ++ held.shown) none := by
  match held with
  | none => exact congrArg (Held.state · none) (List.append_nil result).symm
  | some (.tool type, first, rest) =>
    rw [Held.state, flush_tool]
    rfl
  | some (.edits path, first, rest) => exact flush_edits ..
  | some (.thinking, first, rest) =>
    exact (toolKind_ne_thinking (hvalid _ _ _ rfl first List.mem_cons_self)).elim

theorem step_entry (s : ToolPass) (entry : PatchTypeWithKey) : s.step (.entry entry) =
    match toolKind entry with
    | some (.edits path) => s.flushToolGroup.addFileEdit path entry
    | some (.tool type) => s.flushDiffGroup.addTool type entry
    | _ => s.flushToolGroup.flushDiffGroup.push (.entry entry) := by
  rw [toolKind, ToolPass.step]
  split <;> rfl

theorem step_none (hvalid : held.Valid) (result : List DisplayEntry)
    {c : Collapsed} (hc : c.toolKind = none) :
    (held.state result).step c = Held.state (result ++ held.shown ++ [c.shown]) none := by
  have hpush : (held.state result).step c =
      (held.state result).flushToolGroup.flushDiffGroup.push c.shown := by
    cases c with
    | thinkingGroup group => rfl
    | entry e =>
      rw [step_entry, show toolKind e = none from hc]
      rfl
  rw [hpush, flush_state hvalid]
  rfl

theorem step_same (result : List DisplayEntry) (h : toolKind entry = some kind) :
    (Held.state result (some (kind, first, rest))).step (.entry entry) =
      Held.state result (some (kind, first, rest ++ [entry])) := by
  rw [step_entry, h]
  cases kind with
  | tool type => exact if_pos rfl
  | edits path => exact if_pos rfl
  | thinking => exact (toolKind_ne_thinking h).elim

theorem step_other (hvalid : held.Valid) (result : List DisplayEntry)
    (h : toolKind entry = some kind)
    (hother : ∀ kind' first rest, held = some (kind', first, rest) → kind' ≠ kind) :
    (held.state result).step (.entry entry) =
      Held.state (result ++ held.shown) (some (kind, entry, [])) := by
  rw [step_entry, h]
  match held, kind with
  | none, .tool type | none, .edits path =>
    rw [Held.shown, List.append_nil]
    rfl
  | some (.tool type', first, rest), .tool type =>
    have hne : type ≠ type' := fun heq => hother _ _ _ rfl (congrArg Kind.tool heq.symm)
    change ite _ _ _ = _
    rw [if_neg hne]
    change ((⟨result, first :: rest, some type', [], none⟩ : ToolPass).flushToolGroup).startToolGroup
      type entry = _
    rw [flush_tool]
    rfl
  | some (.tool type', first, rest), .edits path =>
    change ((⟨result, first :: rest, some type', [], none⟩ : ToolPass).flushToolGroup).addFileEdit
      path entry = _
    rw [flush_tool]
    rfl
  | some (.edits path', first, rest), .tool type =>
    change ((⟨result, [], none, first :: rest, some path'⟩ : ToolPass).flushDiffGroup).addTool
      type entry = _
    rw [flush_edits]
    rfl
  | some (.edits path', first, rest), .edits path =>
    have hne : path ≠ path' := fun heq => hother _ _ _ rfl (congrArg Kind.edits heq.symm)
    change ite _ _ _ = _
    rw [if_neg hne]
    change ((⟨result, [], none, first :: rest, some path'⟩ : ToolPass).flushDiffGroup).startDiffGroup
      path entry = _
    rw [flush_edits]
    rfl
  | some (.thinking, first, rest), _ =>
    exact (toolKind_ne_thinking (hvalid _ _ _ rfl first List.mem_cons_self)).elim
  | _, .thinking => exact (toolKind_ne_thinking h).elim

theorem held_runs (hvalid : held.Valid)
    (hrest : ∀ kind first rest, held = some (kind, first, rest) →
      ∀ c ∈ cs.head?, Collapsed.toolKind c ≠ some kind) (h : ToolRuns cs shown) :
    ToolRuns (held.entries ++ cs) (held.shown ++ shown) := by
  match held with
  | none => exact h
  | some (kind, first, rest) =>
    have hkey : ∀ c ∈ Collapsed.entry first :: rest.map .entry, c.toolKind = some kind := by
      intro c hc
      obtain ⟨e, he, rfl⟩ := List.mem_map.1 (List.map_cons ▸ hc)
      exact hvalid kind first rest rfl e he
    have hruns := Runs.run kind (Collapsed.entry first) (rest.map .entry) hkey
      (hrest kind first rest rfl) h
    rwa [shownRun, members_entries] at hruns

theorem toolPass_runs (cs : List Collapsed) (result : List DisplayEntry) (hvalid : held.Valid) :
    ∃ shown, (cs.foldl ToolPass.step (held.state result)).flushToolGroup.flushDiffGroup =
      Held.state (result ++ shown) none ∧ ToolRuns (held.entries ++ cs) shown := by
  induction cs generalizing result held with
  | nil =>
    have hruns : ToolRuns (held.entries ++ []) (held.shown ++ []) :=
      held_runs hvalid (fun _ _ _ _ _ h => nomatch h) .nil
    rw [List.append_nil held.shown] at hruns
    exact ⟨held.shown, flush_state hvalid result, hruns⟩
  | cons c cs ih =>
    rw [List.foldl_cons]
    cases hc : c.toolKind with
    | none =>
      obtain ⟨shown, hfold, hruns⟩ := ih (result ++ held.shown ++ [c.shown]) Held.Valid.none
      refine ⟨held.shown ++ c.shown :: shown, ?_, ?_⟩
      · rw [step_none hvalid result hc, hfold, List.append_assoc, List.append_assoc]
        rfl
      · apply held_runs hvalid _ (.single c hc hruns)
        intro kind first rest _ c' hc'
        rw [← Option.some.inj hc', hc]
        exact nofun
    | some kind =>
      obtain ⟨entry, rfl⟩ : ∃ entry, c = .entry entry := by
        cases c with
        | entry e => exact ⟨e, rfl⟩
        | thinkingGroup g => cases hc
      by_cases hsame : ∃ first rest, held = some (kind, first, rest)
      · obtain ⟨first, rest, rfl⟩ := hsame
        obtain ⟨shown, hfold, hruns⟩ := ih result (hvalid.append hc)
        refine ⟨shown, by rw [step_same result hc, hfold], ?_⟩
        rw [Held.entries, ← List.cons_append, List.map_append, List.append_assoc] at hruns
        exact hruns
      · have hother : ∀ kind' first rest, held = some (kind', first, rest) → kind' ≠ kind :=
          fun kind' first rest hheld heq => hsame ⟨first, rest, heq ▸ hheld⟩
        obtain ⟨shown, hfold, hruns⟩ := ih (result ++ held.shown) (Held.Valid.single hc)
        refine ⟨held.shown ++ shown, ?_, ?_⟩
        · rw [step_other hvalid result hc hother, hfold, List.append_assoc]
        · apply held_runs hvalid _ hruns
          intro kind' first rest hheld c' hc'
          rw [← Option.some.inj hc']
          exact fun heq => hother kind' first rest hheld (Option.some.inj (hc.symm.trans heq)).symm

theorem aggregateConsecutiveEntries_runs (entries : List PatchTypeWithKey) :
    ToolRuns (aggregateThinkingInPreviousTurns (entries.filter fun e => !isEmptyThinkingEntry e))
      (aggregateConsecutiveEntries entries) := by
  obtain ⟨shown, hfold, hruns⟩ := toolPass_runs
    (aggregateThinkingInPreviousTurns (entries.filter fun e => !isEmptyThinkingEntry e)) []
    Held.Valid.none
  have hresult := congrArg ToolPass.result hfold
  change aggregateConsecutiveEntries entries = shown at hresult
  rwa [hresult]

theorem members_shownGroup (first : PatchTypeWithKey) (rest : List PatchTypeWithKey)
    (hkind : kind ≠ .thinking) : (shownGroup first rest kind).members = first :: rest := by
  cases rest <;> cases kind <;> first | rfl | exact (hkind rfl).elim

theorem collapsed_kind {c : Collapsed} (h : c.toolKind = some kind) :
    ∃ entry, c = .entry entry ∧ toolKind entry = some kind ∧ kind ≠ .thinking := by
  cases c with
  | entry e => exact ⟨e, rfl, h, fun heq => toolKind_ne_thinking (heq ▸ h)⟩
  | thinkingGroup g => cases h

theorem members_shownRun (h : c.toolKind = some kind) (rest : List Collapsed) :
    (shownRun kind c rest).members = c.members ++ rest.flatMap Collapsed.members := by
  obtain ⟨entry, rfl, -, hkind⟩ := collapsed_kind h
  exact members_shownGroup entry _ hkind

theorem members_thinkingPass (entries : List PatchTypeWithKey) :
    (aggregateThinkingInPreviousTurns entries).flatMap Collapsed.members = entries := by
  obtain ⟨-, heq⟩ | ⟨pre, user, post, shown, rfl, -, -, hruns, heq⟩ :=
    aggregateThinkingInPreviousTurns_cases entries
  · rw [heq, members_entries]
  · rw [heq, List.flatMap_append, members_entries]
    have hmembers : shown.flatMap Collapsed.members = pre.flatMap fun e => [e] := by
      apply hruns.flatMap_eq
      · exact fun _ _ => rfl
      · exact fun _ e group _ => (List.flatMap_singleton' (e :: group)).symm
    rw [hmembers, List.flatMap_singleton']

theorem members_display (h : ToolRuns cs shown) :
    shown.flatMap DisplayEntry.members = cs.flatMap Collapsed.members := by
  apply h.flatMap_eq
  · intro c _
    cases c <;> rfl
  · exact fun kind c rest hkey => members_shownRun (hkey c List.mem_cons_self) rest

theorem aggregate_flatten (entries : List PatchTypeWithKey) :
    (aggregateConsecutiveEntries entries).flatMap DisplayEntry.members =
      entries.filter fun e => !isEmptyThinkingEntry e := by
  rw [members_display (aggregateConsecutiveEntries_runs entries), members_thinkingPass]

theorem thinkingGroup_members {entries : List PatchTypeWithKey}
    (hgroup : .thinkingGroup group ∈ aggregateThinkingInPreviousTurns entries) :
    group.entries ≠ [] ∧ ∀ e ∈ group.entries, isThinkingEntry e = true := by
  have hentry (l : List PatchTypeWithKey) : Collapsed.thinkingGroup group ∉ l.map .entry := by
    intro hmem
    obtain ⟨e, -, heq⟩ := List.mem_map.1 hmem
    cases heq
  obtain ⟨-, heq⟩ | ⟨pre, user, post, shown, rfl, -, -, hruns, heq⟩ :=
    aggregateThinkingInPreviousTurns_cases entries
  · exact (hentry _ (heq ▸ hgroup)).elim
  · rw [heq] at hgroup
    rcases List.mem_append.1 hgroup with hgroup | hgroup
    · obtain ⟨e, -, -, heq⟩ | ⟨u, e, rest, hkey, -, heq⟩ := hruns.of_mem hgroup
      · cases heq
      · cases heq
        exact ⟨List.cons_ne_nil _ _, fun x hx => thinkingKey_eq_some.1 (hkey x hx)⟩
    · exact (hentry _ hgroup).elim

theorem edits_of_toolKind (h : toolKind entry = some (.edits path)) :
    getFileEditPath entry = some path := by
  rw [toolKind] at h
  split at h <;> cases h
  assumption

theorem tool_of_toolKind (h : toolKind entry = some (.tool type)) :
    getAggregationType entry = some type := by
  rw [toolKind] at h
  split at h <;> cases h
  assumption

theorem shownGroup_ofOneKind (hkey : ∀ e ∈ first :: rest, toolKind e = some kind) :
    (shownGroup first rest kind).OfOneKind := by
  cases rest with
  | nil => exact trivial
  | cons second rest =>
    have hlength : 2 ≤ (first :: second :: rest).length :=
      Nat.succ_le_succ (Nat.succ_le_succ (Nat.zero_le _))
    cases kind with
    | tool type => exact ⟨hlength, type, rfl, fun e he => tool_of_toolKind (hkey e he)⟩
    | edits path => exact ⟨hlength, path, rfl, fun e he => edits_of_toolKind (hkey e he)⟩
    | thinking => exact trivial

theorem aggregate_ofOneKind (entries : List PatchTypeWithKey)
    (h : d ∈ aggregateConsecutiveEntries entries) : d.OfOneKind := by
  obtain ⟨c, hc, -, rfl⟩ | ⟨kind, c, rest, hkey, -, rfl⟩ :=
    (aggregateConsecutiveEntries_runs entries).of_mem h
  · cases c with
    | entry e => exact trivial
    | thinkingGroup group => exact thinkingGroup_members hc
  · obtain ⟨first, rfl, hfirst, -⟩ := collapsed_kind (hkey c List.mem_cons_self)
    apply shownGroup_ofOneKind
    intro e he
    rcases List.mem_cons.1 he with rfl | he
    · exact hfirst
    · obtain ⟨c, hc, he⟩ := List.mem_flatMap.1 he
      obtain ⟨e', rfl, hkind, -⟩ := collapsed_kind (hkey c (List.mem_cons_of_mem _ hc))
      rwa [List.mem_singleton.1 he]

def Collapsed.thinking : Collapsed → Option Unit
  | .entry e => thinkingKey e
  | .thinkingGroup _ => some ()

def DisplayEntry.toolKind : DisplayEntry → Option Kind
  | .entry e => AggregateEntries.toolKind e
  | .group g => g.aggregationType.map .tool
  | .diffGroup g => g.filePath.map .edits
  | .thinkingGroup _ => none

theorem toolKind_shownGroup (h : toolKind first = some kind) (rest : List PatchTypeWithKey) :
    (shownGroup first rest kind).toolKind = some kind := by
  cases rest with
  | nil => exact h
  | cons second rest =>
    cases kind with
    | tool type => rfl
    | edits path => rfl
    | thinking => exact h

theorem toolKind_shows :
    Runs.Shows Collapsed.toolKind Collapsed.shown shownRun DisplayEntry.toolKind := by
  apply Runs.Shows.mk
  · intro c hc
    cases c with
    | entry e => exact hc
    | thinkingGroup g => rfl
  · intro kind c rest hkey
    obtain ⟨first, rfl, hfirst, -⟩ := collapsed_kind (hkey c List.mem_cons_self)
    exact toolKind_shownGroup hfirst _

theorem toolKind_of_thinking (h : isThinkingEntry entry = true) : toolKind entry = none := by
  rw [isThinkingEntry, decide_eq_true_iff] at h
  rw [toolKind, getFileEditPath, getAggregationType, h]

theorem kind_ne_thinking {d : DisplayEntry} (h : d.kind = some kind) (hkind : kind ≠ .thinking) :
    d.toolKind = some kind := by
  cases d with
  | entry e =>
    rw [DisplayEntry.kind, entryKind] at h
    split at h
    · cases h
      exact (hkind rfl).elim
    · exact h
  | group g => exact h
  | diffGroup g => exact h
  | thinkingGroup g =>
    cases h
    exact (hkind rfl).elim

theorem entryKind_thinking : entryKind entry = some .thinking ↔ isThinkingEntry entry = true := by
  rw [entryKind]
  split
  · exact iff_of_true rfl ‹_›
  · exact iff_of_false toolKind_ne_thinking ‹_›

theorem kind_shownGroup (h : toolKind first = some kind) (rest : List PatchTypeWithKey) :
    (shownGroup first rest kind).kind ≠ some .thinking := by
  have hfirst : entryKind first ≠ some .thinking := by
    intro hkind
    rw [toolKind_of_thinking (entryKind_thinking.1 hkind)] at h
    cases h
  cases rest with
  | nil => exact hfirst
  | cons second rest =>
    cases kind with
    | tool type => exact nofun
    | edits path => exact nofun
    | thinking => exact hfirst

theorem thinking_head (h : ToolRuns cs (d :: ds)) (hd : d.kind = some .thinking) :
    ∃ c rest, cs = c :: rest ∧ d = c.shown ∧ c.thinking = some () ∧ ToolRuns rest ds := by
  cases h with
  | single c hc h =>
    refine ⟨c, _, rfl, rfl, ?_, h⟩
    cases c with
    | entry e => exact if_pos (entryKind_thinking.1 hd)
    | thinkingGroup g => rfl
  | run kind c rest hkey hrest h =>
    obtain ⟨first, rfl, hfirst, -⟩ := collapsed_kind (hkey c List.mem_cons_self)
    exact (kind_shownGroup hfirst _ hd).elim

theorem thinking_shows : Runs.Shows thinkingKey .entry (fun _ => thinkingGroup) Collapsed.thinking :=
  ⟨fun _ hkey => hkey, fun _ _ _ _ => rfl⟩

theorem thinking_user (huser : isUserMessage user = true) :
    (Collapsed.entry user).thinking ≠ some () := by
  rw [Collapsed.thinking, thinkingKey_eq_none.2 (isThinkingEntry_of_user huser)]
  exact nofun

theorem thinking_neighbours {entries : List PatchTypeWithKey}
    (heq : aggregateThinkingInPreviousTurns entries = before ++ c :: c' :: cs)
    (hc : c.thinking = some ()) (hc' : c'.thinking = some ()) :
    ∃ current : List PatchTypeWithKey, c :: c' :: cs = current.map .entry ∧
      (entries.countP isUserMessage ≤ 1 ∨ ∀ e ∈ current, isUserMessage e = false) := by
  have hsuffix : ∀ {before} {l : List PatchTypeWithKey}, l.map Collapsed.entry = before ++ c :: c' :: cs →
      ∃ current : List PatchTypeWithKey, c :: c' :: cs = current.map .entry ∧
        ∀ e ∈ current, e ∈ l := by
    intro before l hl
    obtain ⟨front, current, rfl, -, hcurrent⟩ := List.map_eq_append_iff.1 hl
    exact ⟨current, hcurrent.symm, fun e he => List.mem_append_right _ he⟩
  obtain ⟨hcount, hcollapsed⟩ | ⟨pre, user, post, shown, rfl, huser, hpost, hruns, hcollapsed⟩ :=
    aggregateThinkingInPreviousTurns_cases entries
  · rw [heq] at hcollapsed
    obtain ⟨current, hcurrent, -⟩ := hsuffix hcollapsed.symm
    exact ⟨current, hcurrent, .inl hcount⟩
  · rw [heq] at hcollapsed
    obtain ⟨m, rfl, hm⟩ | ⟨m, rfl, hm⟩ := List.append_eq_append_iff.1 hcollapsed
    · -- the pair begins among the groups of previous turns
      match m, hm with
      | [], hm =>
        obtain ⟨rfl, -⟩ := List.cons.inj hm
        exact (thinking_user huser hc).elim
      | [_], hm =>
        obtain ⟨-, htail⟩ := List.cons.inj hm
        obtain ⟨rfl, -⟩ := List.cons.inj htail
        exact (thinking_user huser hc').elim
      | _ :: _ :: m, hm =>
        obtain ⟨rfl, htail⟩ := List.cons.inj hm
        obtain ⟨rfl, -⟩ := List.cons.inj htail
        exact (hruns.neighbours thinking_shows hc hc').elim
    · match m, hm with
      | [], hm =>
        obtain ⟨rfl, -⟩ := List.cons.inj hm
        exact (thinking_user huser hc).elim
      | _ :: m, hm =>
        obtain ⟨-, htail⟩ := List.cons.inj hm
        obtain ⟨current, hcurrent, hin⟩ := hsuffix htail
        exact ⟨current, hcurrent, .inr fun e he => hpost e (hin e he)⟩

theorem countP_filter_user (entries : List PatchTypeWithKey) :
    (entries.filter fun e => !isEmptyThinkingEntry e).countP isUserMessage =
      entries.countP isUserMessage := by
  rw [List.countP_filter]
  apply List.countP_congr
  intro e _
  rw [Bool.and_eq_true]
  constructor
  · exact fun h => h.1
  · intro h
    refine ⟨h, ?_⟩
    rw [isUserMessage, decide_eq_true_iff, entryType] at h
    rw [isEmptyThinkingEntry]
    split at h
    · rename_i heq
      rw [heq]
      cases h
      rfl
    · cases h

theorem aggregate_maximalInTurns (entries : List PatchTypeWithKey) :
    MaximalInTurns entries (aggregateConsecutiveEntries entries) := by
  intro front a b rest k hshown ha hb
  have hruns := aggregateConsecutiveEntries_runs entries
  rw [hshown] at hruns
  by_cases hk : k = .thinking
  · subst hk
    obtain ⟨before, cs, heq, htail⟩ := hruns.tail
    obtain ⟨c, cs, rfl, rfl, hc, htail'⟩ := thinking_head htail ha
    obtain ⟨c', cs, rfl, rfl, hc', -⟩ := thinking_head htail' hb
    obtain ⟨current, hcurrent, hturn⟩ := thinking_neighbours heq hc hc'
    rw [countP_filter_user] at hturn
    rw [members_display htail, hcurrent, members_entries]
    match current, hcurrent with
    | x :: y :: current, hcurrent =>
      obtain ⟨rfl, hnext⟩ := List.cons.inj hcurrent
      obtain ⟨rfl, -⟩ := List.cons.inj hnext
      exact ⟨rfl, ⟨x, y, rfl, rfl⟩, hturn⟩
  · exact (hruns.neighbours toolKind_shows (kind_ne_thinking ha hk) (kind_ne_thinking hb hk)).elim

/-- Single thinking entries of the current turn apart, groups are maximal. -/
theorem aggregateConsecutiveEntries_groups (entries : List PatchTypeWithKey) :
    (aggregateConsecutiveEntries entries).flatMap DisplayEntry.members =
        entries.filter (fun e => !isEmptyThinkingEntry e) ∧
      (∀ d ∈ aggregateConsecutiveEntries entries, d.OfOneKind) ∧
      MaximalInTurns entries (aggregateConsecutiveEntries entries) :=
  ⟨aggregate_flatten entries, fun _ h => aggregate_ofOneKind entries h,
    aggregate_maximalInTurns entries⟩

/-- Two thoughts of the turn that runs are shown side by side. -/
theorem aggregateConsecutiveEntries_not_maximal :
    ¬∀ entries, (aggregateConsecutiveEntries entries).flatMap DisplayEntry.members =
          entries.filter (fun e => !isEmptyThinkingEntry e) ∧
        (∀ d ∈ aggregateConsecutiveEntries entries, d.OfOneKind) ∧
        Maximal (aggregateConsecutiveEntries entries) := by
  intro h
  let thought (key : String) : PatchTypeWithKey := ⟨.normalizedEntry .thinking "hm", key, "run"⟩
  exact (h [thought "0", thought "1"]).2.2 [] (.entry (thought "0")) (.entry (thought "1")) []
    .thinking rfl rfl rfl

end Cdesktop.AggregateEntries
