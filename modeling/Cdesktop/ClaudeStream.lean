import Cdesktop.ClaudeLogs
import Cdesktop.Labelled
import Cdesktop.Run

/-! What the Claude log processor shows of the assistant's messages while they are streamed. -/

namespace Cdesktop.ClaudeStream
open ClaudeLogs Labels
set_option autoImplicit true

inductive NormalizedEntry where
  | assistantMessage (content : String)
  | thinking (content : String)
  | toolUse (toolData : ClaudeToolData)
  | tokenUsageInfo

structure Log where
  current : Nat
  entries : List NormalizedEntry

def Log.add (entry : NormalizedEntry) (log : Log) : Nat × Log :=
  (log.current, ⟨log.current + 1, log.entries.insertIdx log.current entry⟩)

def Log.replace (index : Nat) (entry : NormalizedEntry) (log : Log) : Log :=
  { log with entries := log.entries.set index entry }

/-- The entry goes where there is one already, or is added. -/
def Log.upsert (existing : Option Nat) (entry : NormalizedEntry) (log : Log) : Nat × Log :=
  match existing with
  | some index => (index, log.replace index entry)
  | none => log.add entry

def contentItemToNormalizedEntry (contentItem : ClaudeContentItem) (role : String) :
    Option NormalizedEntry :=
  match contentItem with
  | .text text => if role = "assistant" then some (.assistantMessage text) else none
  | .thinking thinking => some (.thinking thinking)
  | .toolUse _ toolData => some (.toolUse toolData)
  | .toolResult _ => none
  | .redactedThinking => none

def applyContentBlockDelta (index : Nat) (delta : ClaudeContentBlockDelta)
    (s : StreamingMessageState Nat) (log : Log) : StreamingMessageState Nat × Log :=
  match (s.contents index).or (StreamingContentState.fromDelta delta) with
  | none => (s, log)
  | some state =>
    let state := state.applyContentDelta delta
    match contentItemToNormalizedEntry state.toContentItem s.role with
    | some entry =>
      let (entryIndex, log) := log.upsert state.entryIndex entry
      (s.set index { state with entryIndex := some entryIndex }, log)
    | none => (s.set index state, log)

/-- The processor with the log it writes to. The tools are kept with the index of their entry. -/
structure ClaudeLogProcessor where
  toolMap : String → Option Nat
  streamingMessages : String → Option (StreamingMessageState Nat)
  streamingMessageId : Option String
  log : Log

inductive Line where
  | assistant (message : ClaudeMessage)
  | streamEvent (event : ClaudeStreamEvent) (parentToolUseId : Option String)

namespace ClaudeLogProcessor

def new : ClaudeLogProcessor :=
  { toolMap := fun _ => none
    streamingMessages := fun _ => none
    streamingMessageId := none
    log := ⟨0, []⟩ }

def assistantItem (role : String) (entryIndex : Option Nat) (item : ClaudeContentItem)
    (p : ClaudeLogProcessor) : ClaudeLogProcessor :=
  match item with
  | .toolUse id toolData =>
    let (index, log) := p.log.upsert (entryIndex.or (p.toolMap id)) (.toolUse toolData)
    { p with toolMap := Function.update p.toolMap id (some index), log }
  | .text _ | .thinking _ =>
    match contentItemToNormalizedEntry item role with
    | some entry => { p with log := (p.log.upsert entryIndex entry).2 }
    | none => p
  | .toolResult _ | .redactedThinking => p

def assistantItems (role : String) (streaming : Option (StreamingMessageState Nat)) :
    Nat → List ClaudeContentItem → ClaudeLogProcessor → ClaudeLogProcessor
  | _, [], p => p
  | contentIndex, item :: items, p =>
    let entryIndex := streaming.bind (·.contentEntryIndex contentIndex)
    assistantItems role streaming (contentIndex + 1) items (p.assistantItem role entryIndex item)

def assistant (message : ClaudeMessage) (p : ClaudeLogProcessor) : ClaudeLogProcessor :=
  match message.id with
  | some id =>
    assistantItems message.role (p.streamingMessages id) 0 message.content.items
      { p with streamingMessages := Function.update p.streamingMessages id none }
  | none => assistantItems message.role none 0 message.content.items p

def streaming (p : ClaudeLogProcessor) : Option (String × StreamingMessageState Nat) :=
  p.streamingMessageId.bind fun id => (p.streamingMessages id).map fun s => (id, s)

def setStreaming (id : String) (s : StreamingMessageState Nat) (p : ClaudeLogProcessor) :
    ClaudeLogProcessor :=
  { p with streamingMessages := Function.update p.streamingMessages id (some s) }

@[simp] def streamEvent (event : ClaudeStreamEvent) (parentToolUseId : Option String)
    (p : ClaudeLogProcessor) : ClaudeLogProcessor :=
  match event with
  | .messageStart message =>
    if message.role = "assistant" then
      match message.id with
      | some id => { p.setStreaming id (.new message.role) with streamingMessageId := some id }
      | none => { p with streamingMessageId := none }
    else { p with streamingMessageId := none }
  | .contentBlockStart index contentBlock =>
    match p.streaming with
    | some (id, s) => p.setStreaming id (s.contentBlockStart index contentBlock)
    | none => p
  | .contentBlockDelta index delta =>
    match p.streaming with
    | some (id, s) =>
      let (s, log) := applyContentBlockDelta index delta s p.log
      { p.setStreaming id s with log }
    | none => p
  | .contentBlockStop => p
  | .messageDelta hasUsage =>
    -- not for subagents
    if parentToolUseId = none ∧ hasUsage then { p with log := (p.log.add .tokenUsageInfo).2 }
    else p
  | .messageStop =>
    match p.streamingMessageId with
    | some id =>
      { p with
        streamingMessageId := none
        streamingMessages := Function.update p.streamingMessages id none }
    | none => p
  | .unknown => p

def normalizeEntries (p : ClaudeLogProcessor) : Line → ClaudeLogProcessor
  | .assistant message => p.assistant message
  | .streamEvent event parentToolUseId => p.streamEvent event parentToolUseId

end ClaudeLogProcessor

/-- A text or thinking block as far as it was streamed. The text of its start comes first. -/
structure Block where
  kind : StreamingContentKind
  deltas : List String
  shown : Bool

def Block.content (b : Block) : String := String.join b.deltas

def Block.entry (b : Block) : NormalizedEntry :=
  match b.kind with
  | .text => .assistantMessage b.content
  | .thinking => .thinking b.content

def Block.ofStart : ClaudeContentItem → Option Block
  | .text text => some ⟨.text, [text], false⟩
  | .thinking thinking => some ⟨.thinking, [thinking], false⟩
  | _ => none

/-- A block whose start was not sent begins with its first delta. -/
def Block.ofDelta : ClaudeContentBlockDelta → Option Block
  | .textDelta _ => some ⟨.text, [], false⟩
  | .thinkingDelta _ => some ⟨.thinking, [], false⟩
  | _ => none

def Block.delta (delta : ClaudeContentBlockDelta) (b : Block) : Block :=
  { b with deltas := b.deltas ++ (deltaText b.kind delta).toList, shown := true }

/-- A message of the assistant. One without an id is never streamed. -/
inductive MessageKey where
  | named (id : String)
  | unnamed (n : Nat)
deriving DecidableEq

inductive Label where
  | block (key : MessageKey) (index : Nat)
  | tool (id : String)
  | usage (n : Nat)
deriving DecidableEq

/-- What the lines say, each event taken for the message that its own agent is streaming. The agents
are told apart by the tool use that started them. -/
structure Conversation where
  current : Option String → Option String
  started : String → Bool
  blocks : String → Nat → Option Block
  completed : MessageKey → Option (List ClaudeContentItem)
  unnamed : Nat
  tools : String → Option ClaudeToolData
  usages : Nat

namespace Conversation

def new : Conversation :=
  { current := fun _ => none
    started := fun _ => false
    blocks := fun _ _ => none
    completed := fun _ => none
    unnamed := 0
    tools := fun _ => none
    usages := 0 }

def key (c : Conversation) (message : ClaudeMessage) : MessageKey :=
  match message.id with
  | some id => .named id
  | none => .unnamed c.unnamed

def setBlock (id : String) (index : Nat) (b : Option Block) (c : Conversation) : Conversation :=
  { c with blocks := Function.update c.blocks id (Function.update (c.blocks id) index b) }

def toolsOf : List ClaudeContentItem → (String → Option ClaudeToolData) →
    String → Option ClaudeToolData
  | [], tools => tools
  | .toolUse id toolData :: items, tools =>
    toolsOf items (Function.update tools id (some toolData))
  | _ :: items, tools => toolsOf items tools

/-- An event of a message changes nothing once the message is complete. -/
def streamEvent (event : ClaudeStreamEvent) (parentToolUseId : Option String)
    (c : Conversation) : Conversation :=
  match event with
  | .messageStart message =>
    if message.role = "assistant" then
      match message.id with
      | some id =>
        { c with
          current := Function.update c.current parentToolUseId (some id)
          started := Function.update c.started id true }
      | none => { c with current := Function.update c.current parentToolUseId none }
    else { c with current := Function.update c.current parentToolUseId none }
  | .contentBlockStart index contentBlock =>
    match c.current parentToolUseId with
    | some id =>
      if (c.completed (.named id)).isSome then c
      else c.setBlock id index ((Block.ofStart contentBlock).or (c.blocks id index))
    | none => c
  | .contentBlockDelta index delta =>
    match c.current parentToolUseId with
    | some id =>
      if (c.completed (.named id)).isSome then c
      else c.setBlock id index (((c.blocks id index).or (Block.ofDelta delta)).map (Block.delta delta))
    | none => c
  | .contentBlockStop => c
  | .messageDelta hasUsage =>
    if parentToolUseId = none ∧ hasUsage then { c with usages := c.usages + 1 } else c
  | .messageStop => { c with current := Function.update c.current parentToolUseId none }
  | .unknown => c

def line (c : Conversation) : Line → Conversation
  | .assistant message =>
    { c with
      completed := Function.update c.completed (c.key message) (some message.content.items)
      unnamed := if message.id = none then c.unnamed + 1 else c.unnamed
      tools := toolsOf message.content.items c.tools }
  | .streamEvent event parentToolUseId => c.streamEvent event parentToolUseId

@[simp] def streamed (c : Conversation) (key : MessageKey) (index : Nat) : Option NormalizedEntry :=
  match key with
  | .named id => (c.blocks id index).bind fun b => if b.shown then some b.entry else none
  | .unnamed _ => none

def itemEntry : ClaudeContentItem → Option NormalizedEntry
  | .text text => some (.assistantMessage text)
  | .thinking thinking => some (.thinking thinking)
  | _ => none

/-- A block has the content of the complete message, or that of its deltas before it. -/
@[simp] def expected (c : Conversation) : Label → Option NormalizedEntry
  | .block key index =>
    ((c.completed key).bind fun items => items[index]?.bind itemEntry).or (c.streamed key index)
  | .tool id => (c.tools id).map .toolUse
  | .usage n => if n < c.usages then some .tokenUsageInfo else none

end Conversation

/-- One entry for each block that was streamed or is in a complete message, and one for each tool
use, each with the content expected for it. -/
def Shows (c : Conversation) (entries : List NormalizedEntry) : Prop :=
  ∃ labels, Labelled c.expected entries labels

def itemKind : ClaudeContentItem → Option StreamingContentKind
  | .text _ => some .text
  | .thinking _ => some .thinking
  | _ => none

/-- An agent streams one message after the other, each with an id of its own; a message is complete
once, with the blocks that were streamed of it. -/
def WellFormed (c : Conversation) : Line → Prop
  | .assistant message =>
    message.role = "assistant" ∧ ∀ id, message.id = some id → c.completed (.named id) = none ∧
      ∀ index b, c.blocks id index = some b → b.shown = true →
        message.content.items[index]?.bind itemKind = some b.kind
  | .streamEvent (.messageStart message) agent =>
    message.role = "assistant" ∧ c.current agent = none ∧
      ∃ id, message.id = some id ∧ c.started id = false
  | .streamEvent (.contentBlockStart index _) agent =>
    ∃ id, c.current agent = some id ∧ c.blocks id index = none
  | .streamEvent .unknown _ => True
  | .streamEvent _ agent => (c.current agent).isSome

/-- An event of a block comes while its message is the one that the processor streams, a stop while
no other message is; a message is complete after its start and before the processor has dropped its
entries. -/
def InTurn (c : Conversation) (p : ClaudeLogProcessor) : Line → Prop
  | .assistant message =>
    ∀ id, message.id = some id →
      (p.streamingMessages id).isSome ∨ ∀ index, c.streamed (.named id) index = none
  | .streamEvent (.messageStart message) _ =>
    ∀ id, message.id = some id → c.completed (.named id) = none
  | .streamEvent (.contentBlockStart _ _) agent | .streamEvent (.contentBlockDelta _ _) agent =>
    p.streamingMessageId = c.current agent ∨
      p.streamingMessageId = none ∧
        ∃ id, c.current agent = some id ∧ (c.completed (.named id)).isSome
  | .streamEvent .messageStop agent =>
    p.streamingMessageId = none ∨ p.streamingMessageId = c.current agent
  | _ => True

structure Logged (expected : Label → Option NormalizedEntry) (log : Log) (labels : List Label) :
    Prop where
  current : log.current = log.entries.length
  labelled : Labelled expected log.entries labels

variable {expected : Label → Option NormalizedEntry} {log : Log} {l : Label} {index : Nat}
  {message : ClaudeMessage} {id : String} {state : StreamingContentState Nat} {agent : Option String}
  {s : StreamingMessageState Nat} {delta : ClaudeContentBlockDelta}

theorem Logged.add {labels : List Label}
    (h : Logged expected log labels) (hl : expected l = none) (entry : NormalizedEntry) :
    Logged (Function.update expected l (some entry)) (log.add entry).2 (labels ++ [l]) := by
  refine ⟨?_, ?_⟩
  · simp only [Log.add, h.current, List.length_insertIdx, le_refl, if_true]
  · simp only [Log.add, h.current, List.insertIdx_length_self]
    exact h.labelled.concat hl entry

theorem Logged.upsert {labels : List Label} (h : Logged expected log labels) {existing : Option Nat}
    (hsome : ∀ k, existing = some k → labels[k]? = some l)
    (hnone : existing = none → expected l = none) (entry : NormalizedEntry) :
    ∃ labels', labels <+: labels' ∧ labels'[(log.upsert existing entry).1]? = some l ∧
      Logged (Function.update expected l (some entry)) (log.upsert existing entry).2 labels' := by
  cases existing with
  | some k =>
    have hk := hsome k rfl
    refine ⟨labels, List.prefix_refl _, hk, ?_, h.labelled.set hk entry⟩
    simp only [Log.upsert, Log.replace, List.length_set]
    exact h.current
  | none =>
    refine ⟨labels ++ [l], List.prefix_append _ _, ?_, h.add (hnone rfl) entry⟩
    simp only [Log.upsert, Log.add, h.current, ← h.labelled.length, List.getElem?_concat_length]

structure Written (expected : Label → Option NormalizedEntry) (p : ClaudeLogProcessor)
    (labels : List Label) : Prop where
  logged : Logged expected p.log labels
  tool : ∀ id k, p.toolMap id = some k → labels[k]? = some (.tool id)
  noTool : ∀ id, p.toolMap id = none → expected (.tool id) = none

namespace Conversation

def afterItem (key : MessageKey) (index : Nat) (item : ClaudeContentItem)
    (expected : Label → Option NormalizedEntry) : Label → Option NormalizedEntry :=
  match item with
  | .toolUse id toolData => Function.update expected (.tool id) (some (.toolUse toolData))
  | item =>
    match itemEntry item with
    | some entry => Function.update expected (.block key index) (some entry)
    | none => expected

def afterItems (key : MessageKey) : Nat → List ClaudeContentItem →
    (Label → Option NormalizedEntry) → Label → Option NormalizedEntry
  | _, [], expected => expected
  | index, item :: items, expected =>
    afterItems key (index + 1) items (afterItem key index item expected)

end Conversation

theorem Written.assistantItem {p : ClaudeLogProcessor}
    {labels : List Label} (h : Written expected p labels) {key : MessageKey}
    (entryIndex : Option Nat) (item : ClaudeContentItem) (hsome : ∀ k, entryIndex = some k →
      labels[k]? = some (.block key index) ∧ (itemKind item).isSome)
    (hnone : entryIndex = none → expected (.block key index) = none) :
    ∃ labels', labels <+: labels' ∧ Written (Conversation.afterItem key index item expected)
      (p.assistantItem "assistant" entryIndex item) labels' := by
  have hwrite : ∀ entry, ∃ labels', labels <+: labels' ∧
      Written (Function.update expected (.block key index) (some entry))
        { p with log := (p.log.upsert entryIndex entry).2 } labels' := by
    intro entry
    obtain ⟨labels', hp, -, hlogged⟩ :=
      h.logged.upsert (fun k hk => (hsome k hk).1) hnone entry
    exact ⟨labels', hp, hlogged, fun id k hk => getElem?_of_isPrefix hp (h.tool id k hk), h.noTool⟩
  cases item with
  | text text => exact hwrite (.assistantMessage text)
  | thinking thinking => exact hwrite (.thinking thinking)
  | redactedThinking => exact ⟨labels, List.prefix_refl _, h⟩
  | toolResult toolUseId => exact ⟨labels, List.prefix_refl _, h⟩
  | toolUse id toolData =>
    have hentry : entryIndex = none := by
      cases he : entryIndex with
      | none => rfl
      | some k => exact absurd (hsome k he).2 (by simp [itemKind])
    subst hentry
    obtain ⟨labels', hp, hindex, hlogged⟩ :=
      h.logged.upsert (h.tool id) (h.noTool id) (.toolUse toolData)
    refine ⟨labels', hp, hlogged, fun id' k hk => ?_, fun id' hid => ?_⟩
    · by_cases he : id' = id
      · subst he
        simp only [ClaudeLogProcessor.assistantItem, Option.none_or, Function.update_self,
          Option.some.injEq] at hk
        exact hk ▸ hindex
      · simp only [ClaudeLogProcessor.assistantItem, Function.update_of_ne he] at hk
        exact getElem?_of_isPrefix hp (h.tool id' k hk)
    · by_cases he : id' = id
      · subst he
        simp only [ClaudeLogProcessor.assistantItem, Function.update_self, reduceCtorEq] at hid
      · simp only [ClaudeLogProcessor.assistantItem, Function.update_of_ne he] at hid
        have hne : Label.tool id' ≠ Label.tool id := fun hl => he (Label.tool.inj hl)
        rw [Conversation.afterItem, Function.update_of_ne hne]
        exact h.noTool id' hid

theorem Written.assistantItems
    {p : ClaudeLogProcessor} {labels : List Label} (h : Written expected p labels)
    (key : MessageKey) (index : Nat) (streaming : Option (StreamingMessageState Nat))
    (items : List ClaudeContentItem)
    (hsome : ∀ i k, streaming.bind (·.contentEntryIndex (index + i)) = some k →
      labels[k]? = some (.block key (index + i)) ∧ (items[i]?.bind itemKind).isSome)
    (hnone : ∀ i, streaming.bind (·.contentEntryIndex (index + i)) = none →
      expected (.block key (index + i)) = none) :
    ∃ labels', labels <+: labels' ∧ Written (Conversation.afterItems key index items expected)
      (p.assistantItems "assistant" streaming index items) labels' := by
  induction items generalizing expected p labels index with
  | nil => exact ⟨labels, List.prefix_refl _, h⟩
  | cons item items ih =>
    obtain ⟨labels₁, hp₁, hitem⟩ := h.assistantItem
      (streaming.bind (·.contentEntryIndex index)) item (hsome 0) (hnone 0)
    obtain ⟨labels₂, hp₂, hitems⟩ := ih hitem (index + 1)
      (fun i k hk => by
        rw [Nat.add_assoc, Nat.add_comm 1 i] at hk ⊢
        have hi := hsome (i + 1) k hk
        exact ⟨getElem?_of_isPrefix hp₁ hi.1, hi.2⟩)
      (fun i hi => by
        rw [Nat.add_assoc, Nat.add_comm 1 i] at hi ⊢
        have hlater := hnone (i + 1) hi
        have hne : Label.block key (index + (i + 1)) ≠ Label.block key index := by
          intro he
          have hindex := (Label.block.inj he).2
          omega
        cases item with
        | toolUse id toolData =>
          rw [Conversation.afterItem, Function.update_of_ne (fun he => Label.noConfusion he)]
          exact hlater
        | text text => exact (Function.update_of_ne hne _ _).trans hlater
        | thinking thinking => exact (Function.update_of_ne hne _ _).trans hlater
        | redactedThinking => exact hlater
        | toolResult toolUseId => exact hlater)
    exact ⟨labels₂, hp₁.trans hp₂, hitems⟩

namespace Conversation

variable (key : MessageKey)

theorem afterItem_tool (index : Nat) (item : ClaudeContentItem)
    {tools : String → Option ClaudeToolData}
    (h : ∀ id, expected (.tool id) = (tools id).map .toolUse) (id : String) :
    afterItem key index item expected (.tool id) = (toolsOf [item] tools id).map .toolUse := by
  cases item with
  | toolUse id' toolData =>
    by_cases he : id = id'
    · simp [afterItem, toolsOf, he]
    · simp [afterItem, toolsOf, he, h]
  | text text => exact (Function.update_of_ne (fun he => Label.noConfusion he) _ _).trans (h id)
  | thinking thinking =>
    exact (Function.update_of_ne (fun he => Label.noConfusion he) _ _).trans (h id)
  | redactedThinking => exact h id
  | toolResult toolUseId => exact h id

theorem toolsOf_cons (item : ClaudeContentItem) (items : List ClaudeContentItem)
    (tools : String → Option ClaudeToolData) :
    toolsOf (item :: items) tools = toolsOf items (toolsOf [item] tools) := by
  cases item <;> rfl

theorem afterItems_tool (index : Nat) (items : List ClaudeContentItem)
    {tools : String → Option ClaudeToolData}
    (h : ∀ id, expected (.tool id) = (tools id).map .toolUse) (id : String) :
    afterItems key index items expected (.tool id) = (toolsOf items tools id).map .toolUse := by
  induction items generalizing expected tools index with
  | nil => exact h id
  | cons item items ih =>
    rw [afterItems, toolsOf_cons]
    exact ih (index + 1) (afterItem_tool key index item h)

theorem afterItem_usage (index : Nat) (item : ClaudeContentItem)
    (expected : Label → Option NormalizedEntry) (n : Nat) :
    afterItem key index item expected (.usage n) = expected (.usage n) := by
  cases item with
  | toolUse id toolData => simp [afterItem]
  | text text => simp [afterItem, itemEntry]
  | thinking thinking => simp [afterItem, itemEntry]
  | redactedThinking => rfl
  | toolResult toolUseId => rfl

theorem afterItems_usage (index : Nat) (items : List ClaudeContentItem)
    (expected : Label → Option NormalizedEntry) (n : Nat) :
    afterItems key index items expected (.usage n) = expected (.usage n) := by
  induction items generalizing expected index with
  | nil => rfl
  | cons item items ih => rw [afterItems, ih, afterItem_usage]

theorem afterItem_block (index : Nat) (item : ClaudeContentItem)
    (expected : Label → Option NormalizedEntry) (key' : MessageKey) (i : Nat) :
    afterItem key index item expected (.block key' i) =
      if key' = key ∧ i = index then (itemEntry item).or (expected (.block key' i))
      else expected (.block key' i) := by
  have hwrite : ∀ entry : NormalizedEntry,
      Function.update expected (.block key index) (some entry) (.block key' i) =
        if key' = key ∧ i = index then some entry else expected (.block key' i) := by
    intro entry
    by_cases he : key' = key ∧ i = index
    · rw [if_pos he, he.1, he.2, Function.update_self]
    · have hne : Label.block key' i ≠ Label.block key index := fun hl => he (Label.block.inj hl)
      rw [if_neg he, Function.update_of_ne hne]
  cases item with
  | toolUse id toolData =>
    rw [afterItem, Function.update_of_ne (fun he => Label.noConfusion he)]
    exact (ite_self _).symm
  | text text => exact hwrite _
  | thinking thinking => exact hwrite _
  | redactedThinking => exact (ite_self _).symm
  | toolResult toolUseId => exact (ite_self _).symm

theorem afterItems_block (index : Nat) (items : List ClaudeContentItem)
    (expected : Label → Option NormalizedEntry) (key' : MessageKey) (i : Nat) :
    afterItems key index items expected (.block key' i) =
      if key' = key ∧ index ≤ i then
        (items[i - index]?.bind itemEntry).or (expected (.block key' i))
      else expected (.block key' i) := by
  induction items generalizing expected index with
  | nil => exact (ite_self _).symm
  | cons item items ih =>
    rw [afterItems, ih, afterItem_block]
    by_cases hkey : key' = key
    · simp only [hkey, true_and]
      obtain hlt | rfl | hgt := Nat.lt_trichotomy i index
      · rw [if_neg (by omega), if_neg (by omega), if_neg (by omega)]
      · rw [if_neg (by omega), if_pos rfl, if_pos (Nat.le_refl i), Nat.sub_self]
        rfl
      · obtain ⟨n, rfl⟩ := Nat.exists_eq_add_of_lt hgt
        rw [if_pos (by omega), if_neg (by omega), if_pos (by omega),
          show index + n + 1 - (index + 1) = n by omega,
          show index + n + 1 - index = n + 1 by omega, List.getElem?_cons_succ]
    · simp only [hkey, false_and, if_false]

theorem afterItems_expected {c : Conversation} (h : c.completed (c.key message) = none) :
    afterItems (c.key message) 0 message.content.items c.expected =
      (c.line (.assistant message)).expected := by
  funext l
  cases l with
  | usage n => exact afterItems_usage _ _ _ _ n
  | tool id => exact afterItems_tool _ _ _ (fun _ => rfl) id
  | block key i =>
    rw [afterItems_block]
    by_cases hkey : key = c.key message
    · subst hkey
      simp only [expected, line, h, Function.update_self, Option.bind_none, Option.none_or,
        Option.bind_some, true_and, Nat.zero_le, if_true, Nat.sub_zero]
      rfl
    · simp only [expected, line, Function.update_of_ne hkey, hkey, false_and, if_false]
      rfl

theorem setBlock_expected {c : Conversation} (h : c.completed (.named id) = none)
    (index : Nat) (b : Option Block) :
    (c.setBlock id index b).expected = Function.update c.expected (.block (.named id) index)
      (b.bind fun b => if b.shown then some b.entry else none) := by
  funext l
  by_cases hl : l = .block (.named id) index
  · subst hl
    simp only [expected, setBlock, h, streamed, Function.update_self, Option.bind_none,
      Option.none_or]
  · rw [Function.update_of_ne hl]
    cases l with
    | tool id' => rfl
    | usage n => rfl
    | block key i =>
      cases key with
      | unnamed n => rfl
      | named id' =>
        by_cases hid : id' = id
        · subst hid
          have hi : i ≠ index := fun hi => hl (by rw [hi])
          simp only [expected, setBlock, streamed, Function.update_self, Function.update_of_ne hi]
        · simp only [expected, setBlock, streamed, Function.update_of_ne hid]

end Conversation

/-- A block of the processor has what was streamed of it, and knows its entry. -/
def Holds (labels : List Label) (l : Label) :
    Option (StreamingContentState Nat) → Option Block → Prop
  | none, none => True
  | some state, some b =>
    state.kind = b.kind ∧ state.buffer = b.content ∧ state.entryIndex.isSome = b.shown ∧
      ∀ k, state.entryIndex = some k → labels[k]? = some l
  | _, _ => False

theorem Holds.mono {labels labels' : List Label} (hp : labels <+: labels')
    {state : Option (StreamingContentState Nat)} {b : Option Block} (h : Holds labels l state b) :
    Holds labels' l state b := by
  match state, b with
  | none, none => trivial
  | some _, some _ => exact ⟨h.1, h.2.1, h.2.2.1, fun k hk => getElem?_of_isPrefix hp (h.2.2.2 k hk)⟩
  | none, some _ | some _, none => exact h.elim

theorem Holds.ofStart (labels : List Label) (l : Label) (contentBlock : ClaudeContentItem) :
    Holds labels l (StreamingContentState.fromContentBlock contentBlock)
      (Block.ofStart contentBlock) := by
  cases contentBlock with
  | text text => exact ⟨rfl, rfl, rfl, fun _ hk => nomatch hk⟩
  | thinking thinking => exact ⟨rfl, rfl, rfl, fun _ hk => nomatch hk⟩
  | redactedThinking | toolUse _ _ | toolResult _ => trivial

theorem Holds.orDelta {labels : List Label} {state : Option (StreamingContentState Nat)}
    {b : Option Block} (h : Holds labels l state b) (delta : ClaudeContentBlockDelta) :
    Holds labels l (state.or (StreamingContentState.fromDelta delta))
      (b.or (Block.ofDelta delta)) := by
  match state, b with
  | some _, some _ => exact h
  | none, none =>
    cases delta with
    | textDelta text => exact ⟨rfl, rfl, rfl, fun _ hk => nomatch hk⟩
    | thinkingDelta thinking => exact ⟨rfl, rfl, rfl, fun _ hk => nomatch hk⟩
    | signatureDelta | unknown => trivial
  | none, some _ | some _, none => exact h.elim

theorem delta_content (delta : ClaudeContentBlockDelta) {b : Block}
    (hkind : state.kind = b.kind) (hbuffer : state.buffer = b.content) :
    (state.applyContentDelta delta).buffer = (b.delta delta).content := by
  rw [StreamingContentState.applyContentDelta, Block.content, Block.delta, ← hkind]
  cases deltaText state.kind delta with
  | none => simpa [Block.content] using hbuffer
  | some text => simp [hbuffer, Block.content, String.join]

theorem applyContentDelta_kind (delta : ClaudeContentBlockDelta) (state : StreamingContentState Nat) :
    (state.applyContentDelta delta).kind = state.kind := by
  rw [StreamingContentState.applyContentDelta]
  split <;> rfl

theorem toContentItem_entry {b : Block}
    (hkind : state.kind = b.kind) (hbuffer : state.buffer = b.content) :
    contentItemToNormalizedEntry state.toContentItem "assistant" = some b.entry := by
  rw [StreamingContentState.toContentItem, Block.entry, ← hkind, hbuffer]
  cases state.kind <;> rfl

structure Tracks (c : Conversation) (p : ClaudeLogProcessor) (labels : List Label) : Prop where
  written : Written c.expected p labels
  streaming : ∀ id s, p.streamingMessages id = some s →
    c.completed (.named id) = none ∧ s.role = "assistant" ∧
      ∀ index, Holds labels (.block (.named id) index) (s.contents index) (c.blocks id index)
  present : ∀ id, p.streamingMessageId = some id → c.completed (.named id) = none →
    p.streamingMessages id ≠ none
  started : ∀ agent id, c.current agent = some id → c.started id = true
  fresh : ∀ id, c.started id = false → ∀ index, c.blocks id index = none
  unnamed : ∀ n, c.unnamed ≤ n → c.completed (.unnamed n) = none

theorem Tracks.shows {c : Conversation} {p : ClaudeLogProcessor} {labels : List Label}
    (h : Tracks c p labels) : Shows c p.log.entries := ⟨labels, h.written.logged.labelled⟩

theorem Tracks.new : Tracks .new .new [] := by
  have hnone : Conversation.new.expected = fun _ => none := by
    funext l
    cases l with
    | block key i => cases key <;> rfl
    | tool id => rfl
    | usage n => rfl
  have hlogged : Logged Conversation.new.expected ⟨0, []⟩ [] := ⟨rfl, hnone ▸ Labelled.nil⟩
  exact {
    written := ⟨hlogged, fun _ _ hk => (nomatch hk), fun _ _ => rfl⟩
    streaming := fun _ _ h => nomatch h
    present := fun _ h => nomatch h
    started := fun _ _ h => nomatch h
    fresh := fun _ _ _ => rfl
    unnamed := fun _ _ => rfl }

variable {c : Conversation} {p : ClaudeLogProcessor} {labels : List Label}

theorem Tracks.inTurn (h : Tracks c p labels) (hid : c.current agent = some id)
    (hturn : p.streamingMessageId = c.current agent ∨
      p.streamingMessageId = none ∧
        ∃ id, c.current agent = some id ∧ (c.completed (.named id)).isSome) :
    (c.completed (.named id)).isSome = true ∧ p.streaming = none ∨
      c.completed (.named id) = none ∧ ∃ s, p.streamingMessages id = some s ∧
        p.streaming = some (id, s) := by
  rcases hturn with hcur | ⟨hnone, id', hid', hdone⟩
  · rw [hid] at hcur
    cases hc : c.completed (.named id) with
    | some items =>
      have hs : p.streamingMessages id = none := by
        cases hs : p.streamingMessages id with
        | none => rfl
        | some s => exact absurd (h.streaming id s hs).1 (by simp [hc])
      exact .inl ⟨rfl, by simp [ClaudeLogProcessor.streaming, hcur, hs]⟩
    | none =>
      obtain ⟨s, hs⟩ := Option.ne_none_iff_exists'.1 (h.present id hcur hc)
      exact .inr ⟨rfl, s, hs, by simp [ClaudeLogProcessor.streaming, hcur, hs]⟩
  · rw [hid, Option.some.injEq] at hid'
    exact .inl ⟨hid' ▸ hdone, by simp [ClaudeLogProcessor.streaming, hnone]⟩

theorem Tracks.setBlock (h : Tracks c p labels)
    (hs : p.streamingMessages id = some s) (hstarted : c.started id = true)
    (state : Option (StreamingContentState Nat)) (b : Option Block) {labels' : List Label}
    (hp : labels <+: labels') (hlogged : Logged (c.setBlock id index b).expected log labels')
    (hb : Holds labels' (.block (.named id) index) state b) :
    Tracks (c.setBlock id index b)
      { p.setStreaming id { s with contents := Function.update s.contents index state } with log }
      labels' := by
  obtain ⟨hdone, hrole, hcontents⟩ := h.streaming id s hs
  refine ⟨⟨hlogged, fun id' k hk => getElem?_of_isPrefix hp (h.written.tool id' k hk), ?_⟩, ?_, ?_,
    h.started, ?_, h.unnamed⟩
  · intro id' hid'
    rw [Conversation.setBlock_expected hdone, Function.update_of_ne (by simp)]
    exact h.written.noTool id' hid'
  · intro id' s' hs'
    by_cases he : id' = id
    · subst he
      simp only [ClaudeLogProcessor.setStreaming, Function.update_self, Option.some.injEq] at hs'
      subst hs'
      refine ⟨hdone, hrole, fun i => ?_⟩
      by_cases hi : i = index
      · subst hi
        simpa [Conversation.setBlock] using hb
      · simpa [Conversation.setBlock, hi] using (hcontents i).mono hp
    · simp only [ClaudeLogProcessor.setStreaming, Function.update_of_ne he] at hs'
      obtain ⟨hdone', hrole', hcontents'⟩ := h.streaming id' s' hs'
      refine ⟨hdone', hrole', fun i => ?_⟩
      simpa [Conversation.setBlock, he] using (hcontents' i).mono hp
  · intro id' hid' hdone'
    by_cases he : id' = id
    · simp [ClaudeLogProcessor.setStreaming, he]
    · simpa [ClaudeLogProcessor.setStreaming, he] using h.present id' hid' hdone'
  · intro id' hid' i
    have he : id' ≠ id := by
      rintro rfl
      exact absurd (hstarted.symm.trans hid') (by simp)
    simpa [Conversation.setBlock, he] using h.fresh id' hid' i

theorem Tracks.contentBlockStart (h : Tracks c p labels) {contentBlock : ClaudeContentItem}
    (hwf : WellFormed c (.streamEvent (.contentBlockStart index contentBlock) agent))
    (hturn : InTurn c p (.streamEvent (.contentBlockStart index contentBlock) agent)) :
    Tracks (c.streamEvent (.contentBlockStart index contentBlock) agent)
      (p.streamEvent (.contentBlockStart index contentBlock) agent) labels := by
  obtain ⟨id, hid, hnew⟩ := hwf
  rcases h.inTurn hid hturn with ⟨hdone, hnone⟩ | ⟨hdone, s, hs, hstreaming⟩
  · simp only [Conversation.streamEvent, ClaudeLogProcessor.streamEvent, hid, hdone, hnone, if_true]
    exact h
  · have hold := (h.streaming id s hs).2.2 index
    rw [hnew] at hold
    have hstate : s.contents index = none := by
      cases hc : s.contents index with
      | none => rfl
      | some state => exact (hc ▸ hold : Holds _ _ (some state) none).elim
    have hstart := Holds.ofStart labels (.block (.named id) index) contentBlock
    have hset : s.contentBlockStart index contentBlock = { s with
        contents := Function.update s.contents index
          (StreamingContentState.fromContentBlock contentBlock) } := by
      rw [StreamingMessageState.contentBlockStart]
      cases hfrom : StreamingContentState.fromContentBlock contentBlock with
      | some state => rfl
      | none =>
        have hsame : Function.update s.contents index none = s.contents := by
          rw [← hstate, Function.update_eq_self]
        rw [hsame]
    have hexpected : (c.setBlock id index (Block.ofStart contentBlock)).expected = c.expected := by
      have hblock : c.expected (.block (.named id) index) = none := by
        simp [Conversation.expected, Conversation.streamed, hdone, hnew]
      have hhidden : ((Block.ofStart contentBlock).bind fun b =>
          if b.shown then some b.entry else none) = none := by
        cases contentBlock <;> rfl
      rw [Conversation.setBlock_expected hdone, hhidden, ← hblock, Function.update_eq_self]
    simp only [Conversation.streamEvent, ClaudeLogProcessor.streamEvent, hid, hdone, hstreaming,
      hnew, Option.isSome_none, Bool.false_eq_true, if_false, Option.or_none, hset]
    exact h.setBlock hs (h.started agent id hid) _ _ (List.prefix_refl _)
      (hexpected ▸ h.written.logged) hstart

theorem applyContentBlockDelta_of_none
    (h : (s.contents index).or (StreamingContentState.fromDelta delta) = none) (log : Log) :
    applyContentBlockDelta index delta s log = (s, log) := by
  rw [applyContentBlockDelta, h]

theorem applyContentBlockDelta_of_some {entry : NormalizedEntry}
    (h : (s.contents index).or (StreamingContentState.fromDelta delta) = some state)
    (hentry : contentItemToNormalizedEntry (state.applyContentDelta delta).toContentItem s.role =
      some entry) (log : Log) :
    applyContentBlockDelta index delta s log =
      (s.set index { state.applyContentDelta delta with
          entryIndex := some (log.upsert (state.applyContentDelta delta).entryIndex entry).1 },
        (log.upsert (state.applyContentDelta delta).entryIndex entry).2) := by
  rw [applyContentBlockDelta, h]
  simp only [hentry]

theorem Tracks.contentBlockDelta (h : Tracks c p labels)
    (hwf : WellFormed c (.streamEvent (.contentBlockDelta index delta) agent))
    (hturn : InTurn c p (.streamEvent (.contentBlockDelta index delta) agent)) :
    ∃ labels', Tracks (c.streamEvent (.contentBlockDelta index delta) agent)
      (p.streamEvent (.contentBlockDelta index delta) agent) labels' := by
  obtain ⟨id, hid⟩ := Option.isSome_iff_exists.1 hwf
  rcases h.inTurn hid hturn with ⟨hdone, hnone⟩ | ⟨hdone, s, hs, hstreaming⟩
  · refine ⟨labels, ?_⟩
    simp only [Conversation.streamEvent, ClaudeLogProcessor.streamEvent, hid, hdone, hnone, if_true]
    exact h
  · obtain ⟨-, hrole, hcontents⟩ := h.streaming id s hs
    have hstarted := h.started agent id hid
    have hor := (hcontents index).orDelta delta
    simp only [Conversation.streamEvent, ClaudeLogProcessor.streamEvent, hid, hdone, hstreaming,
      Option.isSome_none, Bool.false_eq_true, if_false]
    cases hstate : (s.contents index).or (StreamingContentState.fromDelta delta) with
    | none =>
      have hb : (c.blocks id index).or (Block.ofDelta delta) = none := by
        cases hb : (c.blocks id index).or (Block.ofDelta delta) with
        | none => rfl
        | some b => exact (hstate ▸ hb ▸ hor : Holds _ _ none (some b)).elim
      have hold : s.contents index = none ∧ c.blocks id index = none :=
        ⟨(Option.or_eq_none_iff.1 hstate).1, (Option.or_eq_none_iff.1 hb).1⟩
      have hexpected : (c.setBlock id index none).expected = c.expected := by
        have hblock : c.expected (.block (.named id) index) = none := by
          simp [Conversation.expected, Conversation.streamed, hdone, hold.2]
        rw [Conversation.setBlock_expected hdone, Option.bind_none, ← hblock,
          Function.update_eq_self]
      have hset := h.setBlock hs hstarted none none (List.prefix_refl _)
        (hexpected ▸ h.written.logged) trivial
      rw [← hold.1, Function.update_eq_self] at hset
      rw [hb, applyContentBlockDelta_of_none hstate]
      exact ⟨labels, hset⟩
    | some state =>
      obtain ⟨b, hb⟩ : ∃ b, (c.blocks id index).or (Block.ofDelta delta) = some b := by
        cases hb : (c.blocks id index).or (Block.ofDelta delta) with
        | none => exact (hstate ▸ hb ▸ hor : Holds _ _ (some state) none).elim
        | some b => exact ⟨b, rfl⟩
      rw [hstate, hb] at hor
      obtain ⟨hkind, hbuffer, hshown, hindex⟩ := hor
      have hkind' : (state.applyContentDelta delta).kind = (b.delta delta).kind :=
        (applyContentDelta_kind delta state).trans hkind
      have hbuffer' := delta_content delta hkind hbuffer
      have hnone : (state.applyContentDelta delta).entryIndex = none →
          c.expected (.block (.named id) index) = none := by
        intro he
        rw [applyContentDelta_entryIndex] at he
        rw [he, Option.isSome_none] at hshown
        have hhidden : ∀ b', c.blocks id index = some b' → b'.shown = false := by
          intro b' hb'
          rw [hb', Option.some_or, Option.some.injEq] at hb
          rw [hb, hshown]
        simp only [Conversation.expected, Conversation.streamed, hdone, Option.bind_none,
          Option.none_or]
        cases hb' : c.blocks id index with
        | none => rfl
        | some b' => simp [hhidden b' hb']
      obtain ⟨labels', hp, hk, hlogged⟩ := h.written.logged.upsert
        (fun k hk => hindex k (applyContentDelta_entryIndex delta state ▸ hk)) hnone
        (b.delta delta).entry
      have hexpected : (c.setBlock id index (some (b.delta delta))).expected =
          Function.update c.expected (.block (.named id) index) (some (b.delta delta).entry) :=
        Conversation.setBlock_expected hdone index _
      rw [hb, applyContentBlockDelta_of_some hstate
        (hrole.symm ▸ toContentItem_entry hkind' hbuffer')]
      refine ⟨labels', h.setBlock hs hstarted _ _ hp (hexpected ▸ hlogged) ?_⟩
      refine ⟨hkind', hbuffer', rfl, fun k hk' => ?_⟩
      rw [← Option.some.inj hk']
      exact hk

theorem Tracks.messageStart (h : Tracks c p labels)
    (hwf : WellFormed c (.streamEvent (.messageStart message) agent))
    (hturn : InTurn c p (.streamEvent (.messageStart message) agent)) :
    Tracks (c.streamEvent (.messageStart message) agent)
      (p.streamEvent (.messageStart message) agent) labels := by
  obtain ⟨hrole, -, id, hid, hnew⟩ := hwf
  have hdone := hturn id hid
  simp only [Conversation.streamEvent, ClaudeLogProcessor.streamEvent, hrole, hid, if_true]
  refine ⟨⟨h.written.logged, h.written.tool, h.written.noTool⟩, fun id' s hs => ?_,
    fun id' hid' _ => ?_, fun agent' id' hcur => ?_, fun id' hid' => ?_, h.unnamed⟩
  · by_cases he : id' = id
    · subst he
      simp only [ClaudeLogProcessor.setStreaming, Function.update_self, Option.some.injEq] at hs
      subst hs
      refine ⟨hdone, rfl, fun index => ?_⟩
      rw [h.fresh id' hnew index]
      trivial
    · simp only [ClaudeLogProcessor.setStreaming, Function.update_of_ne he] at hs
      exact h.streaming id' s hs
  · rw [Option.some.injEq] at hid'
    simp [ClaudeLogProcessor.setStreaming, hid']
  · by_cases he : id' = id
    · simp [he]
    · simp only [Function.update_of_ne he]
      refine h.started agent' id' ?_
      by_cases ha : agent' = agent
      · simp only [ha, Function.update_self, Option.some.injEq] at hcur
        exact absurd hcur.symm he
      · simpa [ha] using hcur
  · have he : id' ≠ id := by
      rintro rfl
      simp at hid'
    simp only [Function.update_of_ne he] at hid'
    exact h.fresh id' hid'

theorem Tracks.messageStop (h : Tracks c p labels) (agent : Option String) :
    Tracks (c.streamEvent .messageStop agent) (p.streamEvent .messageStop agent) labels := by
  have hstarted : ∀ agent' id, Function.update c.current agent none agent' = some id →
      c.started id = true := by
    intro agent' id hcur
    by_cases ha : agent' = agent
    · simp [ha] at hcur
    · rw [Function.update_of_ne ha] at hcur
      exact h.started agent' id hcur
  rw [ClaudeLogProcessor.streamEvent]
  cases hid : p.streamingMessageId with
  | none => exact ⟨h.written, h.streaming, h.present, hstarted, h.fresh, h.unnamed⟩
  | some id =>
    refine ⟨⟨h.written.logged, h.written.tool, h.written.noTool⟩, fun id' s hs => ?_,
      fun _ hid' => (nomatch hid'), hstarted, h.fresh, h.unnamed⟩
    by_cases he : id' = id
    · simp [he] at hs
    · simp only [Function.update_of_ne he] at hs
      exact h.streaming id' s hs

theorem Tracks.messageDelta (h : Tracks c p labels) (hasUsage : Bool) (agent : Option String) :
    ∃ labels', Tracks (c.streamEvent (.messageDelta hasUsage) agent)
      (p.streamEvent (.messageDelta hasUsage) agent) labels' := by
  rw [Conversation.streamEvent, ClaudeLogProcessor.streamEvent]
  split
  · have hexpected : ({ c with usages := c.usages + 1 } : Conversation).expected =
        Function.update c.expected (.usage c.usages) (some .tokenUsageInfo) := by
      funext l
      by_cases hl : l = .usage c.usages
      · subst hl
        simp [Conversation.expected]
      · rw [Function.update_of_ne hl]
        cases l with
        | block key index => rfl
        | tool id => rfl
        | usage n =>
          have hn : n ≠ c.usages := fun he => hl (by rw [he])
          have hlt : n < c.usages + 1 ↔ n < c.usages := by omega
          simp only [Conversation.expected, hlt]
    have hp : labels <+: labels ++ [.usage c.usages] := List.prefix_append _ _
    have hlogged := h.written.logged.add (l := .usage c.usages)
      (by simp [Conversation.expected]) .tokenUsageInfo
    refine ⟨labels ++ [.usage c.usages], ⟨hexpected ▸ hlogged, fun id k hk => ?_, fun id hid => ?_⟩,
      fun id s hs => ?_, h.present, h.started, h.fresh, h.unnamed⟩
    · exact getElem?_of_isPrefix hp (h.written.tool id k hk)
    · exact h.written.noTool id hid
    · obtain ⟨hdone, hrole, hcontents⟩ := h.streaming id s hs
      exact ⟨hdone, hrole, fun index => (hcontents index).mono hp⟩
  · exact ⟨labels, h⟩

theorem assistantItems_streaming (role : String) (streaming : Option (StreamingMessageState Nat))
    (index : Nat) (items : List ClaudeContentItem) (p : ClaudeLogProcessor) :
    (p.assistantItems role streaming index items).streamingMessages = p.streamingMessages ∧
      (p.assistantItems role streaming index items).streamingMessageId = p.streamingMessageId := by
  induction items generalizing p index with
  | nil => exact ⟨rfl, rfl⟩
  | cons item items ih =>
    have hitem : ∀ entryIndex, (p.assistantItem role entryIndex item).streamingMessages =
        p.streamingMessages ∧ (p.assistantItem role entryIndex item).streamingMessageId =
        p.streamingMessageId := by
      intro entryIndex
      cases item with
      | toolUse id toolData => exact ⟨rfl, rfl⟩
      | text text =>
        rw [ClaudeLogProcessor.assistantItem]
        split <;> exact ⟨rfl, rfl⟩
      | thinking thinking => exact ⟨rfl, rfl⟩
      | redactedThinking => exact ⟨rfl, rfl⟩
      | toolResult toolUseId => exact ⟨rfl, rfl⟩
    rw [ClaudeLogProcessor.assistantItems, (ih _ _).1, (ih _ _).2]
    exact hitem _

theorem Tracks.assistant (h : Tracks c p labels)
    (hwf : WellFormed c (.assistant message)) (hturn : InTurn c p (.assistant message)) :
    ∃ labels', Tracks (c.line (.assistant message)) (p.assistant message) labels' := by
  obtain ⟨hrole, hblocks⟩ := hwf
  cases hid : message.id with
  | none =>
    have hkey : c.key message = .unnamed c.unnamed := by rw [Conversation.key, hid]
    have hdone : c.completed (c.key message) = none := hkey ▸ h.unnamed c.unnamed (Nat.le_refl _)
    obtain ⟨labels', hp, hwritten⟩ := h.written.assistantItems (c.key message) 0
      none message.content.items (fun _ _ hk => nomatch hk) (fun i _ => by
        simp [Conversation.expected, hkey ▸ hdone, Conversation.streamed, hkey])
    rw [Conversation.afterItems_expected hdone] at hwritten
    obtain ⟨hmessages, hmessageId⟩ :=
      assistantItems_streaming "assistant" none 0 message.content.items p
    have hnamed : ∀ id, (c.line (.assistant message)).completed (.named id) =
        c.completed (.named id) := fun id => by
      simp [Conversation.line, hkey]
    refine ⟨labels', ?_⟩
    rw [ClaudeLogProcessor.assistant, hid, hrole]
    refine ⟨hwritten, fun id s hs => ?_, fun id hid' hdone' => ?_, h.started, h.fresh,
      fun n hn => ?_⟩
    · obtain ⟨hdone', hrole', hcontents⟩ := h.streaming id s (hmessages ▸ hs)
      exact ⟨(hnamed id).trans hdone', hrole', fun index => (hcontents index).mono hp⟩
    · rw [hmessages]
      exact h.present id (hmessageId ▸ hid') ((hnamed id).symm.trans hdone')
    · simp only [Conversation.line, hid, if_true] at hn ⊢
      rw [hkey, Function.update_of_ne (by
        intro he
        have hnu := MessageKey.unnamed.inj he
        omega)]
      exact h.unnamed n (by omega)
  | some id =>
    have hkey : c.key message = .named id := by rw [Conversation.key, hid]
    obtain ⟨hdone, hmatch⟩ := hblocks id hid
    have hstreamed : ∀ index, c.expected (.block (.named id) index) =
        c.streamed (.named id) index := fun index => by
      simp [Conversation.expected, hdone]
    have hremoved : Written c.expected
        { p with streamingMessages := Function.update p.streamingMessages id none } labels :=
      ⟨h.written.logged, h.written.tool, h.written.noTool⟩
    obtain ⟨labels', hp, hwritten⟩ := hremoved.assistantItems (.named id) 0
      (p.streamingMessages id) message.content.items
      (fun i k hk => by
        rw [Nat.zero_add] at hk ⊢
        obtain ⟨s, hs, hentry⟩ := Option.bind_eq_some_iff.1 hk
        obtain ⟨state, hstate, hentry⟩ := Option.bind_eq_some_iff.1 hentry
        have hholds := (h.streaming id s hs).2.2 i
        rw [hstate] at hholds
        cases hb : c.blocks id i with
        | none => exact (hb ▸ hholds : Holds _ _ (some state) none).elim
        | some b =>
          rw [hb] at hholds
          obtain ⟨-, -, hshown, hindex⟩ := hholds
          rw [hentry, Option.isSome_some] at hshown
          exact ⟨hindex k hentry, by rw [hmatch i b hb hshown.symm]; rfl⟩)
      (fun i hi => by
        rw [Nat.zero_add] at hi ⊢
        rw [hstreamed]
        rcases hturn id hid with hsome | hnone
        · obtain ⟨s, hs⟩ := Option.isSome_iff_exists.1 hsome
          have hholds := (h.streaming id s hs).2.2 i
          rw [hs, Option.bind_some, StreamingMessageState.contentEntryIndex] at hi
          rw [Conversation.streamed]
          cases hb : c.blocks id i with
          | none => rfl
          | some b =>
            cases hstate : s.contents i with
            | none =>
              rw [hb, hstate] at hholds
              exact hholds.elim
            | some state =>
              rw [hb, hstate] at hholds
              rw [hstate, Option.bind_some] at hi
              have hshown := hholds.2.2.1
              rw [hi, Option.isSome_none] at hshown
              simp [← hshown]
        · exact hnone i)
    rw [← hkey, Conversation.afterItems_expected (hkey ▸ hdone)] at hwritten
    obtain ⟨hmessages, hmessageId⟩ := assistantItems_streaming "assistant"
      (p.streamingMessages id) 0 message.content.items
      { p with streamingMessages := Function.update p.streamingMessages id none }
    have hother : ∀ id', id' ≠ id → (c.line (.assistant message)).completed (.named id') =
        c.completed (.named id') := fun id' he => by
      simp [Conversation.line, hkey, he]
    refine ⟨labels', ?_⟩
    rw [ClaudeLogProcessor.assistant, hid, hrole]
    refine ⟨hwritten, fun id' s hs => ?_, fun id' hid' hdone' => ?_, h.started, h.fresh,
      fun n hn => ?_⟩
    · rw [hmessages] at hs
      have he : id' ≠ id := by
        rintro rfl
        simp at hs
      simp only [Function.update_of_ne he] at hs
      obtain ⟨hdone', hrole', hcontents⟩ := h.streaming id' s hs
      exact ⟨(hother id' he).trans hdone', hrole', fun index => (hcontents index).mono hp⟩
    · have he : id' ≠ id := by
        rintro rfl
        simp [Conversation.line, hkey] at hdone'
      rw [hmessages]
      simp only [ne_eq, Function.update_of_ne he]
      exact h.present id' (hmessageId ▸ hid') ((hother id' he).symm.trans hdone')
    · simp only [Conversation.line, hid, hkey, reduceCtorEq, if_false] at hn ⊢
      rw [Function.update_of_ne (by simp)]
      exact h.unnamed n hn

abbrev World := Conversation × ClaudeLogProcessor

def World.new : World := (.new, .new)

def World.line (w : World) (line : Line) : World := (w.1.line line, w.2.normalizeEntries line)

def World.InTurn (w : World) (line : Line) : Prop :=
  WellFormed w.1 line ∧ ClaudeStream.InTurn w.1 w.2 line

theorem Tracks.line (h : Tracks c p labels) {line : Line} (hwf : WellFormed c line)
    (hturn : InTurn c p line) : ∃ labels', Tracks (c.line line) (p.normalizeEntries line) labels' := by
  cases line with
  | assistant message => exact h.assistant hwf hturn
  | streamEvent event agent =>
    cases event with
    | messageStart message => exact ⟨labels, h.messageStart hwf hturn⟩
    | contentBlockStart index contentBlock => exact ⟨labels, h.contentBlockStart hwf hturn⟩
    | contentBlockDelta index delta => exact h.contentBlockDelta hwf hturn
    | contentBlockStop => exact ⟨labels, h⟩
    | messageDelta hasUsage => exact h.messageDelta hasUsage agent
    | messageStop => exact ⟨labels, h.messageStop agent⟩
    | unknown => exact ⟨labels, h⟩

/-- While every line comes in turn, the entries are those of the messages. -/
theorem normalizeEntries_shows (lines : List Line)
    (h : Run.Each World.line World.InTurn World.new lines) :
    Shows (Run.run World.line World.new lines).1 (Run.run World.line World.new lines).2.log.entries := by
  have htracks : ∃ labels, Tracks (Run.run World.line World.new lines).1
      (Run.run World.line World.new lines).2 labels :=
    Run.Each.preserves (P := fun w => ∃ labels, Tracks w.1 w.2 labels)
      (fun w line ⟨_, hw⟩ hok => hw.line hok.1 hok.2) ⟨[], Tracks.new⟩ h
  obtain ⟨labels, hlabels⟩ := htracks
  exact hlabels.shows

def sampleMessage (id : String) (items : List ClaudeContentItem) : ClaudeMessage :=
  ⟨some id, "assistant", .array items⟩

def inTurnRun : List Line :=
  [.streamEvent (.messageStart (sampleMessage "m" [])) none,
    .streamEvent (.contentBlockDelta 0 (.textDelta "a")) none,
    .assistant (sampleMessage "m" [.text "a", .toolUse "t" .bash]),
    .streamEvent .messageStop none]

theorem normalizeEntries_shows_sample :
    Run.Each World.line World.InTurn World.new inTurnRun ∧
      Shows (Run.run World.line World.new inTurnRun).1
        (Run.run World.line World.new inTurnRun).2.log.entries := by
  have hrun : Run.Each World.line World.InTurn World.new inTurnRun := by
    refine ⟨⟨⟨rfl, rfl, "m", rfl, rfl⟩, fun id hid => rfl⟩, ⟨rfl, .inl rfl⟩,
      ⟨⟨rfl, fun id hid => ?_⟩, fun id hid => ?_⟩, ⟨rfl, .inr rfl⟩, trivial⟩
    · obtain rfl : "m" = id := Option.some.inj hid
      refine ⟨rfl, fun index b hb _ => ?_⟩
      cases index with
      | zero =>
        obtain rfl := Option.some.inj hb
        rfl
      | succ index => cases hb
    · obtain rfl : "m" = id := Option.some.inj hid
      exact .inl rfl
  exact ⟨hrun, normalizeEntries_shows inTurnRun hrun⟩

def overlappingRun : List Line :=
  [.streamEvent (.messageStart (sampleMessage "m" [])) none,
    .streamEvent (.messageStart (sampleMessage "n" [])) (some "t"),
    .streamEvent (.contentBlockDelta 0 (.textDelta "a")) none,
    .streamEvent (.contentBlockDelta 0 (.textDelta "b")) (some "t")]

/-- Both texts are in one entry. -/
theorem normalizeEntries_not_shows :
    Run.Each World.line (fun w line => WellFormed w.1 line) World.new overlappingRun ∧
      ¬ Shows (Run.run World.line World.new overlappingRun).1
        (Run.run World.line World.new overlappingRun).2.log.entries := by
  refine ⟨⟨⟨rfl, rfl, "m", rfl, rfl⟩, ⟨rfl, rfl, "n", rfl, rfl⟩, rfl, rfl, trivial⟩, ?_⟩
  rintro ⟨labels, hlabelled⟩
  have hentries : (Run.run World.line World.new overlappingRun).2.log.entries =
      [.assistantMessage "ab"] := by rfl
  have hm := hlabelled.complete (.block (.named "m") 0) (by simp [Conversation.expected]; decide)
  have hn := hlabelled.complete (.block (.named "n") 0) (by simp [Conversation.expected]; decide)
  have hlength := hlabelled.length
  rw [hentries, List.length_singleton, List.length_eq_one_iff] at hlength
  obtain ⟨l, hl⟩ := hlength
  rw [hl, List.mem_singleton] at hm hn
  exact absurd (hm.trans hn.symm) (by decide)

end Cdesktop.ClaudeStream
