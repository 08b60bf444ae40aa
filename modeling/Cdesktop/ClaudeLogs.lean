import Mathlib.Data.List.Infix
import Cdesktop.IndexOrder
import Mathlib.Algebra.Ring.Nat

/-! The Claude log processor and the processor of its stderr, as far as they say where an entry
goes. -/

namespace Cdesktop.ClaudeLogs
open SharedIndex
set_option autoImplicit true

def contains (s pattern : String) : Bool := pattern.toList <:+: s.toList

def startsWith (s pattern : String) : Bool := pattern.toList <+: s.toList

/-- Which field of the tool's input is there is of no use here. -/
inductive ClaudeToolData where
  | todoWrite | task | glob | ls | read | bash | grep | exitPlanMode | edit | multiEdit | write
  | notebookEdit | webFetch | webSearch | oracle | mermaid | codebaseSearchAgent | undoEdit
  | todoRead | askUserQuestion | unknown

inductive ClaudeContentItem where
  | text (text : String)
  | thinking (thinking : String)
  | redactedThinking
  | toolUse (id : String) (toolData : ClaudeToolData)
  | toolResult (toolUseId : String)

inductive ClaudeMessageContent where
  | array (items : List ClaudeContentItem)
  | text (text : String)

def ClaudeMessageContent.items : ClaudeMessageContent → List ClaudeContentItem
  | .array items => items
  | .text _ => []

def ClaudeMessageContent.asText : ClaudeMessageContent → Option String
  | .array _ => none
  | .text s => some s

structure ClaudeMessage where
  id : Option String
  role : String
  content : ClaudeMessageContent

inductive ClaudeContentBlockDelta where
  | textDelta (text : String)
  | thinkingDelta (thinking : String)
  | signatureDelta
  | unknown

inductive ClaudeStreamEvent where
  | messageStart (message : ClaudeMessage)
  | contentBlockStart (index : Nat) (contentBlock : ClaudeContentItem)
  | contentBlockDelta (index : Nat) (delta : ClaudeContentBlockDelta)
  | contentBlockStop
  | messageDelta (hasUsage : Bool)
  | messageStop
  | unknown

inductive ApprovalStatus where
  | pending | approved | denied | timedOut
deriving DecidableEq

inductive QuestionStatus where
  | answered | timedOut
deriving DecidableEq

inductive ClaudeJson where
  | system (subtype apiKeySource model toolUseId description : Option String)
  | assistant (message : ClaudeMessage)
  | user (message : ClaudeMessage) (isSynthetic isReplay : Bool)
  | toolUse (id : String) (toolData : ClaudeToolData)
  | toolResult
  | streamEvent (event : ClaudeStreamEvent) (parentToolUseId : Option String)
  /-- The usage says for each model whether it has a context window. -/
  | result (subtype : Option String) (isError : Option Bool) (result : Option String)
      (modelUsage : Option (List (String × Bool)))
  | approvalRequested (toolCallId : String)
  | approvalResponse (toolCallId : String) (approvalStatus : ApprovalStatus)
  | questionResponse (toolCallId : String) (questionStatus : QuestionStatus)
  | unknown
  | controlRequest | controlResponse | controlCancelRequest | rateLimitEvent

inductive HistoryStrategy where
  | default | ampResume
deriving DecidableEq

structure ClaudeToolCallInfo where
  entryIndex : Ticket
  toolData : ClaudeToolData

inductive StreamingContentKind where
  | text | thinking

/-- The entry's index is a ticket or a number. -/
structure StreamingContentState (ι : Type) where
  kind : StreamingContentKind
  buffer : String
  entryIndex : Option ι

def StreamingContentState.fromContentBlock : ClaudeContentItem → Option (StreamingContentState ι)
  | .text text => some ⟨.text, text, none⟩
  | .thinking thinking => some ⟨.thinking, thinking, none⟩
  | _ => none

def StreamingContentState.fromDelta : ClaudeContentBlockDelta → Option (StreamingContentState ι)
  | .textDelta _ => some ⟨.text, "", none⟩
  | .thinkingDelta _ => some ⟨.thinking, "", none⟩
  | _ => none

/-- What a delta adds to a block of the kind; a delta of the other kind is only logged. -/
def deltaText : StreamingContentKind → ClaudeContentBlockDelta → Option String
  | .text, .textDelta text => some text
  | .thinking, .thinkingDelta thinking => some thinking
  | _, _ => none

def StreamingContentState.applyContentDelta (delta : ClaudeContentBlockDelta)
    (state : StreamingContentState ι) : StreamingContentState ι :=
  match deltaText state.kind delta with
  | some text => { state with buffer := state.buffer ++ text }
  | none => state

theorem applyContentDelta_entryIndex (delta : ClaudeContentBlockDelta)
    (state : StreamingContentState ι) :
    (state.applyContentDelta delta).entryIndex = state.entryIndex := by
  rw [StreamingContentState.applyContentDelta]
  split <;> rfl

def StreamingContentState.toContentItem (state : StreamingContentState ι) : ClaudeContentItem :=
  match state.kind with
  | .text => .text state.buffer
  | .thinking => .thinking state.buffer

structure StreamingMessageState (ι : Type) where
  role : String
  contents : Nat → Option (StreamingContentState ι)

namespace StreamingMessageState

def new (role : String) : StreamingMessageState ι :=
  { role, contents := fun _ => none }

def set (index : Nat) (state : StreamingContentState ι) (s : StreamingMessageState ι) :
    StreamingMessageState ι :=
  { s with contents := Function.update s.contents index (some state) }

def contentBlockStart (index : Nat) (contentBlock : ClaudeContentItem)
    (s : StreamingMessageState ι) : StreamingMessageState ι :=
  match StreamingContentState.fromContentBlock contentBlock with
  | some state => s.set index state
  | none => s

def contentEntryIndex (contentIndex : Nat) (s : StreamingMessageState ι) : Option ι :=
  (s.contents contentIndex).bind (·.entryIndex)

end StreamingMessageState

structure ClaudeLogProcessor where
  toolMap : String → Option ClaudeToolCallInfo
  strategy : HistoryStrategy
  streamingMessages : String → Option (StreamingMessageState Ticket)
  streamingMessageId : Option String
  lastAssistantMessage : Option String
  mainModelName : Option String

def ClaudeLogProcessor.new (strategy : HistoryStrategy) : ClaudeLogProcessor :=
  { toolMap := fun _ => none
    strategy
    streamingMessages := fun _ => none
    streamingMessageId := none
    lastAssistantMessage := none
    mainModelName := none }

/-- Whether there is an entry for the item, and the last assistant message after it. -/
def contentItemToNormalizedEntry (contentItem : ClaudeContentItem) (role : String)
    (lastAssistantMessage : Option String) : Bool × Option String :=
  match contentItem with
  | .text text => if role = "assistant" then (true, some text) else (false, lastAssistantMessage)
  | .thinking _ => (true, lastAssistantMessage)
  | .toolUse _ _ => (true, lastAssistantMessage)
  | .toolResult _ => (false, lastAssistantMessage)
  | .redactedThinking => (false, lastAssistantMessage)

/-- The entry goes where there is one already, or is added. -/
def upsert : Option Ticket → Prog Ticket
  | some entryIndex => do
    replaceEntry entryIndex
    return entryIndex
  | none => addEntry

/-- An entry is added where the condition holds. -/
def addWhen (c : Bool) : Prog Unit :=
  if c then .add fun _ => .done () else .done ()

/-- The message's new state and the last assistant message. -/
def StreamingMessageState.applyContentBlockDelta (index : Nat) (delta : ClaudeContentBlockDelta)
    (lastAssistantMessage : Option String) (s : StreamingMessageState Ticket) :
    Prog (StreamingMessageState Ticket × Option String) :=
  match (s.contents index).or (StreamingContentState.fromDelta delta) with
  | none => return (s, lastAssistantMessage)
  | some state => do
    let state := state.applyContentDelta delta
    let (hasEntry, last) :=
      contentItemToNormalizedEntry state.toContentItem s.role lastAssistantMessage
    if hasEntry then
      let entryIndex ← upsert state.entryIndex
      let state := { state with entryIndex := some entryIndex }
      return (s.set index state, last)
    else return (s.set index state, last)

namespace ClaudeLogProcessor

def insertTool (id : String) (entryIndex : Ticket) (toolData : ClaudeToolData)
    (p : ClaudeLogProcessor) : ClaudeLogProcessor :=
  { p with toolMap := Function.update p.toolMap id (some ⟨entryIndex, toolData⟩) }

/-- A tool's entry is replaced where there is a tool and it is known. -/
def replaceTool (toolCallId : Option String) (p : ClaudeLogProcessor) : Prog Unit :=
  match toolCallId.bind p.toolMap with
  | some info => replaceEntry info.entryIndex
  | none => return ()

def system (subtype apiKeySource model toolUseId description : Option String)
    (p : ClaudeLogProcessor) : Prog ClaudeLogProcessor := do
  -- the billing warning
  addWhen (apiKeySource = some "ANTHROPIC_API_KEY")
  match subtype with
  | some "init" => return { p with mainModelName := p.mainModelName.or model }
  | some "status" => return p
  | some "compact_boundary" => return p
  | some "task_started" =>
    match toolUseId with
    | some id =>
      if (p.toolMap id).isSome then return p
      else
        let entryIndex ← addEntry
        return p.insertTool id entryIndex .task
    | none => return p
  | some "task_progress" =>
    p.replaceTool (if description.isSome then toolUseId else none)
    return p
  | some "task_notification" =>
    p.replaceTool toolUseId
    return p
  | _ =>
    addWhen true
    return p

def assistantItem (role : String) (entryIndex : Option Ticket) (item : ClaudeContentItem)
    (p : ClaudeLogProcessor) : Prog ClaudeLogProcessor :=
  match item with
  | .toolUse id toolData => do
    let entryIndex ← upsert (entryIndex.or ((p.toolMap id).map (·.entryIndex)))
    return p.insertTool id entryIndex toolData
  | .text _ | .thinking _ =>
    let (hasEntry, last) := contentItemToNormalizedEntry item role p.lastAssistantMessage
    if hasEntry then do
      let _ ← upsert entryIndex
      return { p with lastAssistantMessage := last }
    else return { p with lastAssistantMessage := last }
  | .toolResult _ | .redactedThinking => return p

def assistantItems (role : String) (streaming : Option (StreamingMessageState Ticket)) :
    Nat → List ClaudeContentItem → ClaudeLogProcessor → Prog ClaudeLogProcessor
  | _, [], p => return p
  | contentIndex, item :: items, p => do
    let entryIndex := streaming.bind (·.contentEntryIndex contentIndex)
    let p ← p.assistantItem role entryIndex item
    assistantItems role streaming (contentIndex + 1) items p

def assistant (message : ClaudeMessage) (p : ClaudeLogProcessor) : Prog ClaudeLogProcessor :=
  match message.id with
  | some id =>
    assistantItems message.role (p.streamingMessages id) 0 message.content.items
      { p with streamingMessages := Function.update p.streamingMessages id none }
  | none => assistantItems message.role none 0 message.content.items p

def addTexts : List ClaudeContentItem → Prog Unit
  | [] => return ()
  | .text _ :: items => do
    addWhen true
    addTexts items
  | _ :: items => addTexts items

def resultShown : ClaudeToolData → Bool
  | .bash | .task => true
  | .unknown | .oracle | .mermaid | .codebaseSearchAgent | .notebookEdit => true
  | _ => false

def toolResults (p : ClaudeLogProcessor) : List ClaudeContentItem → Prog Unit
  | [] => return ()
  | .toolResult toolUseId :: items =>
    match p.toolMap toolUseId with
    | some info =>
      if resultShown info.toolData then do
        replaceEntry info.entryIndex
        toolResults p items
      else toolResults p items
    | none => toolResults p items
  | _ :: items => toolResults p items

def isText : ClaudeContentItem → Bool
  | .text _ => true
  | _ => false

/-- A message of the user replaces the history that came before it. -/
def clearHistory (p : ClaudeLogProcessor) : Prog ClaudeLogProcessor := do
  let cur ← current
  if 0 < cur then
    removeAll cur
    return { p with toolMap := fun _ => none }
  else return p

def userEntries (message : ClaudeMessage) (resumed isSynthetic : Bool) (p : ClaudeLogProcessor) :
    Prog ClaudeLogProcessor := do
  addTexts (if resumed then message.content.items else [])
  addTexts (if isSynthetic then message.content.items else [])
  addWhen message.content.asText.isSome
  toolResults p message.content.items
  return p

def user (message : ClaudeMessage) (isSynthetic isReplay : Bool) (p : ClaudeLogProcessor) :
    Prog ClaudeLogProcessor :=
  if isReplay then return p
  else if p.strategy = .ampResume ∧ message.content.items.any isText then do
    let p ← p.clearHistory
    p.userEntries message true isSynthetic
  else p.userEntries message false isSynthetic

def toolUse (id : String) (toolData : ClaudeToolData) (p : ClaudeLogProcessor) :
    Prog ClaudeLogProcessor := do
  let entryIndex ← upsert ((p.toolMap id).map (·.entryIndex))
  return p.insertTool id entryIndex toolData

def streaming (p : ClaudeLogProcessor) : Option (String × StreamingMessageState Ticket) :=
  p.streamingMessageId.bind fun id => (p.streamingMessages id).map fun s => (id, s)

def setStreaming (id : String) (s : StreamingMessageState Ticket) (p : ClaudeLogProcessor) :
    ClaudeLogProcessor :=
  { p with streamingMessages := Function.update p.streamingMessages id (some s) }

def streamEvent (event : ClaudeStreamEvent) (parentToolUseId : Option String)
    (p : ClaudeLogProcessor) : Prog ClaudeLogProcessor :=
  match event with
  | .messageStart message =>
    if message.role = "assistant" then
      match message.id with
      | some id =>
        return { p.setStreaming id (.new message.role) with streamingMessageId := some id }
      | none => return { p with streamingMessageId := none }
    else return { p with streamingMessageId := none }
  | .contentBlockStart index contentBlock =>
    match p.streaming with
    | some (id, s) => return p.setStreaming id (s.contentBlockStart index contentBlock)
    | none => return p
  | .contentBlockDelta index delta =>
    match p.streaming with
    | some (id, s) => do
      let (s, last) ← s.applyContentBlockDelta index delta p.lastAssistantMessage
      return { p.setStreaming id s with lastAssistantMessage := last }
    | none => return p
  | .contentBlockStop => return p
  | .messageDelta hasUsage =>
    -- not for subagents
    do
      addWhen (parentToolUseId = none ∧ hasUsage)
      return p
  | .messageStop =>
    match p.streamingMessageId with
    | some id =>
      return { p with
        streamingMessageId := none
        streamingMessages := Function.update p.streamingMessages id none }
    | none => return p
  | .unknown => return p

/-- The context window of the main model, where the usage has one. -/
def reportsContextWindow (modelUsage : Option (List (String × Bool))) (p : ClaudeLogProcessor) :
    Bool :=
  match modelUsage, p.mainModelName with
  | some modelUsage, some name => (modelUsage.lookup name).getD false
  | _, _ => false

/-- Whether the result's text was not in the last assistant message. -/
def resultUnseen (text : String) (p : ClaudeLogProcessor) : Bool :=
  match p.lastAssistantMessage with
  | none => true
  | some message => !contains message text

def result (subtype : Option String) (isError : Option Bool) (result : Option String)
    (modelUsage : Option (List (String × Bool))) (p : ClaudeLogProcessor) :
    Prog ClaudeLogProcessor := do
  addWhen (p.reportsContextWindow modelUsage)
  addWhen (if p.strategy = .ampResume ∧ isError.getD false then true
    else subtype = some "success" ∧ result.any p.resultUnseen)
  return p

def approvalResponse (toolCallId : String) (approvalStatus : ApprovalStatus)
    (p : ClaudeLogProcessor) : Prog ClaudeLogProcessor := do
  p.replaceTool (if approvalStatus = .pending then none else some toolCallId)
  addWhen (approvalStatus = .denied ∨ approvalStatus = .timedOut)
  return p

def questionResponse (toolCallId : String) (questionStatus : QuestionStatus)
    (p : ClaudeLogProcessor) : Prog ClaudeLogProcessor := do
  p.replaceTool (some toolCallId)
  addWhen (questionStatus = .answered)
  return p

def normalizeEntries (claudeJson : ClaudeJson) (p : ClaudeLogProcessor) :
    Prog ClaudeLogProcessor :=
  match claudeJson with
  | .system subtype apiKeySource model toolUseId description =>
    p.system subtype apiKeySource model toolUseId description
  | .assistant message => p.assistant message
  | .user message isSynthetic isReplay => p.user message isSynthetic isReplay
  | .toolUse id toolData => p.toolUse id toolData
  | .toolResult => return p
  | .streamEvent event parentToolUseId => p.streamEvent event parentToolUseId
  | .result subtype isError result modelUsage => p.result subtype isError result modelUsage
  | .approvalRequested toolCallId => do
    p.replaceTool (some toolCallId)
    return p
  | .approvalResponse toolCallId approvalStatus => p.approvalResponse toolCallId approvalStatus
  | .questionResponse toolCallId questionStatus => p.questionResponse toolCallId questionStatus
  | .unknown => do
    addWhen true
    return p
  | .controlRequest | .controlResponse | .controlCancelRequest | .rateLimitEvent => return p

def processLine (parse : String → Option ClaudeJson) (trimmed : String) (p : ClaudeLogProcessor) :
    Prog ClaudeLogProcessor :=
  if trimmed.isEmpty then return p
  else if startsWith trimmed "Service not running, starting service" ∨
      contains trimmed "claude code router service has been successfully stopped" then return p
  else match parse trimmed with
    | some claudeJson => p.normalizeEntries claudeJson
    | none => do
      addWhen true
      return p

def processRest (trimmed : String) (p : ClaudeLogProcessor) : Prog ClaudeLogProcessor := do
  addWhen (¬ trimmed.isEmpty)
  return p

end ClaudeLogProcessor

def splitInclusive : List Char → List (List Char)
  | [] => []
  | '\n' :: chars => ['\n'] :: splitInclusive chars
  | c :: chars =>
    match splitInclusive chars with
    | [] => [[c]]
    | line :: lines => (c :: line) :: lines

structure PlainTextLogProcessor where
  lines : List String
  currentEntryIndex : Option Ticket

def suppressedStderrPatterns : List String := ["[WARN] Fast mode requires the native binary"]

def transformLines : HistoryStrategy → List String → List String
  | .default => List.filter fun line => !suppressedStderrPatterns.any (contains line)
  | .ampResume => id

namespace PlainTextLogProcessor

def new : PlainTextLogProcessor := { lines := [], currentEntryIndex := none }

def isEmpty (p : PlainTextLogProcessor) : Bool := (p.lines.map String.length).sum = 0

/-- The last line grows where it has no newline. -/
def ingest (chunk : String) (lines : List String) : List String :=
  match lines.getLast? with
  | some last =>
    if last.toList.getLast? = some '\n' then
      lines ++ (splitInclusive chunk.toList).map String.ofList
    else lines.dropLast ++ (splitInclusive (last ++ chunk).toList).map String.ofList
  | none => (splitInclusive chunk.toList).map String.ofList

def createPatch (p : PlainTextLogProcessor) : Prog PlainTextLogProcessor := do
  let entryIndex ← upsert p.currentEntryIndex
  return { p with currentEntryIndex := some entryIndex }

def accept (strategy : HistoryStrategy) (chunk : String) (p : PlainTextLogProcessor) :
    Prog PlainTextLogProcessor :=
  let p := { p with lines := transformLines strategy (ingest chunk p.lines) }
  if p.isEmpty then return p else p.createPatch

/-- `late` when the chunk came two seconds or more after the one before. What the buffer holds is
then written once more and the chunk is dropped. -/
def process (strategy : HistoryStrategy) (late : Bool) (chunk : String)
    (p : PlainTextLogProcessor) : Prog PlainTextLogProcessor :=
  if chunk.isEmpty then return p
  else if ¬ p.isEmpty ∧ late then
    if p.lines ≠ [] then { p with lines := [] }.createPatch
    else { p with currentEntryIndex := none }.accept strategy chunk
  else p.accept strategy chunk

end PlainTextLogProcessor

inductive Author where
  | stdout | stderr
deriving DecidableEq

instance : Fintype Author where
  elems := {.stdout, .stderr}
  complete author := by cases author <;> decide

inductive Message where
  | line (trimmed : String)
  | rest (trimmed : String)
  | chunk (late : Bool) (text : String)

/-- What the tasks keep. Each uses only its own processor. -/
structure Local where
  processor : ClaudeLogProcessor
  stderr : PlainTextLogProcessor

def Local.new (strategy : HistoryStrategy) : Local :=
  { processor := .new strategy, stderr := .new }

def handle (parse : String → Option ClaudeJson) (author : Author) (s : Local) :
    Message → Prog Local
  | .line trimmed =>
    match author with
    | .stdout => do return { s with processor := ← s.processor.processLine parse trimmed }
    | .stderr => return s
  | .rest trimmed =>
    match author with
    | .stdout => do return { s with processor := ← s.processor.processRest trimmed }
    | .stderr => return s
  | .chunk late text =>
    match author with
    | .stdout => return s
    | .stderr => do
      return { s with stderr := ← s.stderr.process s.processor.strategy late text }

/-- An operation of an earlier patch: an add whose path is `/entries/` and a number, or another. -/
inductive PatchOperation where
  | add (index : Nat)
  | other

def firstAdd : List PatchOperation → Option Nat
  | [] => none
  | .add index :: _ => some index
  | .other :: patch => firstAdd patch

/-- Where the counter starts with earlier patches in the store. -/
def startFrom (history : List (List PatchOperation)) : Nat :=
  match (history.filterMap firstAdd).max? with
  | some n => n + 1
  | none => 0

end Cdesktop.ClaudeLogs
