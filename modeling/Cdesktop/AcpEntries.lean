import Cdesktop.CodexClient
import Cdesktop.TextSearch
import Mathlib.Logic.Function.Basic
import Mathlib.Algebra.Ring.Nat

/-! The entries of the conversation that the events of an ACP agent give. -/

namespace Cdesktop.AcpEntries
open Codex (ApprovalStatus)
open RelayRefresh (trim)
open TrustedKeys (isWhiteSpace)
set_option autoImplicit true

inductive ToolKind where
  | read | edit | delete | move | search | execute | think | fetch | switchMode | other
deriving DecidableEq

inductive ToolCallStatus where
  | pending | inProgress | completed | failed
deriving DecidableEq

inductive ContentBlock where
  | text (text : String)
  | other

inductive ToolCallContent where
  | content (content : ContentBlock)
  | diff (path : String) (oldText : Option String) (newText : String)
  | terminal

structure ToolCall (Value : Type) where
  toolCallId : String
  title : String
  kind : ToolKind
  status : ToolCallStatus
  content : List ToolCallContent
  locations : List String
  rawInput : Option Value
  rawOutput : Option Value

structure ToolCallUpdate (Value : Type) where
  toolCallId : String
  title : Option String
  kind : Option ToolKind
  status : Option ToolCallStatus
  content : Option (List ToolCallContent)
  locations : Option (List String)
  rawInput : Option Value
  rawOutput : Option Value

structure PlanEntry where
  content : String
  status : Option String
  priority : Option String

inductive AcpEvent (Value : Type) where
  | user (prompt : String)
  | sessionStart (id : String)
  | message (content : ContentBlock)
  | thought (content : ContentBlock)
  | toolCall (tc : ToolCall Value)
  | toolUpdate (update : ToolCallUpdate Value)
  | plan (entries : List PlanEntry)
  | availableCommands (names : List String)
  | currentMode (modeId : String)
  | requestPermission (toolCall : ToolCallUpdate Value)
  | approvalRequested (toolCallId approvalId : String)
  | approvalResponse (toolCallId : String) (status : ApprovalStatus)
  | error (msg : String)
  | done (stopReason : String)
  | tokenUsage (used size : Nat)
  | other

inductive ToolStatus where
  | created | success | failed
  | denied (reason : Option String)
  | pendingApproval (approvalId : String)
  | timedOut
deriving DecidableEq

def ToolStatus.fromApprovalStatus : ApprovalStatus → Option ToolStatus
  | .approved _ => some .created
  | .denied reason => some (.denied reason)
  | .timedOut => some .timedOut
  | .pending => none

structure TodoItem where
  content : String
  status : String
  priority : Option String
deriving DecidableEq

inductive FileChange where
  | write (content : String)
  | delete
  | edit (unifiedDiff : String) (hasLineNumbers : Bool)
deriving DecidableEq

inductive ToolResult (Value : Type) where
  | markdown (value : Value)
  | json (value : Value)
deriving DecidableEq

structure CommandRunResult where
  exitStatus : Option Bool
  output : Option String
deriving DecidableEq

inductive CommandCategory where
  | read | search | edit | fetch | other
deriving DecidableEq

inductive ActionType (Value : Type) where
  | fileRead (path : String)
  | fileEdit (path : String) (changes : List FileChange)
  | commandRun (command : String) (result : Option CommandRunResult) (category : CommandCategory)
  | search (query : String)
  | webFetch (url : String)
  | tool (toolName : String) (arguments : Option Value) (result : Option (ToolResult Value))
  | todoManagement (todos : List TodoItem) (operation : String)
  | other (description : String)
deriving DecidableEq

inductive NormalizedEntryType (Value : Type) where
  | assistantMessage
  | thinking
  | systemMessage
  /-- Its type is `Other`. -/
  | errorMessage
  | toolUse (toolName : String) (actionType : ActionType Value) (status : ToolStatus)
  | userFeedback (deniedTool : String)
  | tokenUsageInfo (totalTokens modelContextWindow : Nat)
deriving DecidableEq

/-- Its timestamp is always `None`. The metadata are the id of a tool call. -/
structure NormalizedEntry (Value : Type) where
  entryType : NormalizedEntryType Value
  content : String
  metadata : Option String
deriving DecidableEq

inductive ConversationPatch (Value : Type) where
  | addNormalizedEntry (index : Nat) (entry : NormalizedEntry Value)
  | replace (index : Nat) (entry : NormalizedEntry Value)

structure PartialToolCallData (Value : Type) where
  index : Nat
  id : String
  kind : ToolKind
  title : String
  status : ToolCallStatus
  path : Option String
  content : List ToolCallContent
  rawInput : Option Value
  rawOutput : Option Value

structure EditInput where
  filePath : String
  diff : Option String
  oldString : Option String
  newString : Option String

/-- The conversion of the protocol, the worktree, and what is read from JSON and from texts.
An update with a title is a tool call, with its id. -/
structure Externals (Value : Type) where
  tryFrom : ToolCallUpdate Value → Option (ToolCall Value)
  tryFrom_id : ∀ update tc, tryFrom update = some tc → tc.toolCallId = update.toolCallId
  tryFrom_title : ∀ update, update.title.isSome → (tryFrom update).isSome
  makePathRelative : String → String
  /-- The string under `command` of an object. -/
  command : Value → Option String
  searchQuery : Value → Option String
  fetchUrl : Value → Option String
  editInput : Value → Option EditInput
  fromStr : String → Option Value
  string : String → Value
  object : List (String × String) → Value
  extractUrlFromText : String → Option String
  categoryFromCommand : String → CommandCategory
  createUnifiedDiff : String → String → String → String
  normalizeUnifiedDiff : String → String → String

namespace PartialToolCallData

def default : PartialToolCallData Value :=
  { index := 0
    id := ""
    kind := .other
    title := ""
    status := .pending
    path := none
    content := []
    rawInput := none
    rawOutput := none }

variable (x : Externals Value)

def extend (tc : ToolCall Value) (d : PartialToolCallData Value) : PartialToolCallData Value :=
  { d with
    id := tc.toolCallId
    kind := if tc.kind ≠ .other then tc.kind else d.kind
    title := if tc.title ≠ "" then tc.title else d.title
    status := if tc.status ≠ .pending then tc.status else d.status
    path := match tc.locations with
      | [] => d.path
      | path :: _ => some (x.makePathRelative path)
    content := if tc.content ≠ [] then tc.content else d.content
    rawInput := tc.rawInput.or d.rawInput
    rawOutput := tc.rawOutput.or d.rawOutput }

end PartialToolCallData

/-- The name before a last `-` with digits alone behind it. -/
def extractToolNameFromId (id : String) : Option String :=
  match TextSearch.rfindAt ['-'] id.toList with
  | some idx =>
    if ((id.toList.drop idx).dropWhile (· = '-')).all Char.isDigit then
      some (String.ofList (id.toList.take idx))
    else none
  | none => none

def collectTextContent (content : List ToolCallContent) : Option String :=
  let out := content.foldl (fun out c =>
    match c with
    | .content (.text text) =>
      let out := out ++ text
      if out.toList.getLast? = some '\n' then out else out ++ "\n"
    | _ => out) ""
  if out = "" then none else some out

/-- The title before the first ` [current working directory `, where no command is given. -/
def parseExecuteCommand (x : Externals Value) (tc : PartialToolCallData Value) : String :=
  match tc.rawInput.bind x.command with
  | some command => command
  | none =>
    let title := tc.title.toList
    let cut := TextSearch.findAt " [current working directory ".toList title
    trim (String.ofList (title.take (cut.getD title.length)))

def startsWith (start text : String) : Bool := start.toList.isPrefixOf text.toList

def getToolContent (x : Externals Value) (tc : PartialToolCallData Value) : String :=
  match tc.kind with
  | .execute => parseExecuteCommand x tc
  | .think => "Saving memory"
  | .other =>
    let toolName := (extractToolNameFromId tc.id).getD "tool"
    if tc.title = "" then toolName else toolName ++ ": " ++ tc.title
  | .read => if startsWith "read_many_files" tc.id then "Read files" else tc.path.getD tc.title
  | _ => tc.title

def contentChanges (x : Externals Value) (tc : PartialToolCallData Value) : List FileChange :=
  tc.content.filterMap fun c =>
    match c with
    | .diff path oldText newText =>
      let rel := if path ≠ "" then path else tc.path.getD ""
      let oldText := oldText.getD ""
      if oldText = "" then some (.write newText)
      else some (.edit (x.createUnifiedDiff rel oldText newText) false)
    | _ => none

def inputChanges (x : Externals Value) (input : EditInput) : List FileChange :=
  match input.diff, input.oldString, input.newString with
  | some diff, _, _ => [.edit (x.normalizeUnifiedDiff input.filePath diff) true]
  | none, some old, some new => [.edit (x.createUnifiedDiff input.filePath old new) false]
  | none, _, _ => []

def extractFileChanges (x : Externals Value) (tc : PartialToolCallData Value) : List FileChange :=
  match contentChanges x tc with
  | [] => ((tc.rawInput.bind x.editInput).map (inputChanges x)).getD []
  | changes => changes

def textResult (x : Externals Value) (tc : PartialToolCallData Value) : Option (ToolResult Value) :=
  (collectTextContent tc.content).map fun text => .markdown (x.string text)

def rawResult (x : Externals Value) (tc : PartialToolCallData Value) : Option (ToolResult Value) :=
  (tc.rawOutput.map .json).or (textResult x tc)

def exitStatus : ToolCallStatus → Option Bool
  | .completed => some true
  | .failed => some false
  | _ => none

def mapToActionType (x : Externals Value) (tc : PartialToolCallData Value) : ActionType Value :=
  match tc.kind with
  | .read =>
    if startsWith "read_many_files" tc.id then
      .tool "read_many_files" (some (x.string tc.title)) (textResult x tc)
    else .fileRead (tc.path.getD "")
  | .edit => .fileEdit (tc.path.getD "") (extractFileChanges x tc)
  | .execute =>
    let command := parseExecuteCommand x tc
    .commandRun command (some ⟨exitStatus tc.status, collectTextContent tc.content⟩)
      (x.categoryFromCommand command)
  | .delete => .fileEdit (tc.path.getD "") [.delete]
  | .search => .search ((tc.rawInput.bind x.searchQuery).getD tc.title)
  | .fetch =>
    let url := (tc.rawInput.bind x.fetchUrl).getD ""
    .webFetch (if url = "" then (x.extractUrlFromText tc.title).getD url else url)
  | .think =>
    let text := (collectTextContent tc.content).map fun text => ("content", text)
    .tool ((extractToolNameFromId tc.id).getD tc.title)
      (some (x.object (("title", tc.title) :: text.toList))) (rawResult x tc)
  | .switchMode => .other "switch_mode"
  | .other | .move =>
    let arguments := match tc.rawInput with
      | some raw => some raw
      | none =>
        if (tc.title.toList.dropWhile isWhiteSpace).head? = some '\x7b' then x.fromStr tc.title
        else none
    .tool ((extractToolNameFromId tc.id).getD tc.title) arguments (rawResult x tc)

def convertToolStatus : ToolCallStatus → ToolStatus
  | .pending | .inProgress => .created
  | .completed => .success
  | .failed => .failed

inductive TextKind where
  | assistant | thinking
deriving DecidableEq

structure StreamingText where
  index : Nat
  content : String

structure StreamingState where
  assistantText : Option StreamingText
  thinkingText : Option StreamingText

namespace StreamingState

def default : StreamingState := ⟨none, none⟩

def get (kind : TextKind) (s : StreamingState) : Option StreamingText :=
  match kind with
  | .assistant => s.assistantText
  | .thinking => s.thinkingText

def set (kind : TextKind) (text : Option StreamingText) (s : StreamingState) : StreamingState :=
  match kind with
  | .assistant => { s with assistantText := text }
  | .thinking => { s with thinkingText := text }

end StreamingState

def TextKind.other : TextKind → TextKind
  | .assistant => .thinking
  | .thinking => .assistant

def TextKind.skips (kind : TextKind) (text : String) : Bool :=
  match kind with
  | .assistant => text = "\n"
  | .thinking => false

def TextKind.entry (kind : TextKind) (content : String) : NormalizedEntry Value :=
  match kind with
  | .assistant => ⟨.assistantMessage, content, none⟩
  | .thinking => ⟨.thinking, content, none⟩

structure Processor (Value : Type) where
  storedSessionId : Bool
  sessionIds : List String
  streaming : StreamingState
  toolStates : String → Option (PartialToolCallData Value)
  /-- The index provider, which the stderr of the agent has too. -/
  entryIndex : Nat
  patches : List (ConversationPatch Value)

namespace Processor

def start (entryIndex : Nat) : Processor Value :=
  { storedSessionId := false
    sessionIds := []
    streaming := .default
    toolStates := fun _ => none
    entryIndex
    patches := [] }

def push (patch : ConversationPatch Value) (p : Processor Value) : Processor Value :=
  { p with patches := p.patches ++ [patch] }

def addEntry (entry : NormalizedEntry Value) (p : Processor Value) : Processor Value :=
  { p.push (.addNormalizedEntry p.entryIndex entry) with entryIndex := p.entryIndex + 1 }

def resetStreaming (p : Processor Value) : Processor Value := { p with streaming := .default }

def pushText (kind : TextKind) (text : String) (p : Processor Value) : Processor Value :=
  match p.streaming.get kind with
  | none =>
    if kind.skips text then p
    else
      let streaming := p.streaming.set kind (some ⟨p.entryIndex, text⟩)
      { p.addEntry (kind.entry text) with streaming }
  | some s =>
    let s := { s with content := s.content ++ text }
    { p.push (.replace s.index (kind.entry s.content)) with
      streaming := p.streaming.set kind (some s) }

def handleText (kind : TextKind) (content : ContentBlock) (p : Processor Value) :
    Processor Value :=
  let p := { p with streaming := p.streaming.set kind.other none }
  match content with
  | .text text => p.pushText kind text
  | .other => p

variable (x : Externals Value)

def toolEntry (tc : PartialToolCallData Value) (status : ToolStatus) (metadata : Option String) :
    NormalizedEntry Value :=
  ⟨.toolUse tc.title (mapToActionType x tc) status, getToolContent x tc, metadata⟩

def handleToolCall (tc : ToolCall Value) (p : Processor Value) : Processor Value :=
  let p := p.resetStreaming
  let id := tc.toolCallId
  match p.toolStates id with
  | none =>
    let toolData := { PartialToolCallData.default.extend x tc with index := p.entryIndex }
    let entry := toolEntry x toolData (convertToolStatus toolData.status) (some toolData.id)
    { p.addEntry entry with toolStates := Function.update p.toolStates id (some toolData) }
  | some toolData =>
    let toolData := toolData.extend x tc
    let entry := toolEntry x toolData (convertToolStatus toolData.status) (some toolData.id)
    { p.push (.replace toolData.index entry) with
      toolStates := Function.update p.toolStates id (some toolData) }

def convertAndHandle (update : ToolCallUpdate Value) (p : Processor Value) : Processor Value :=
  match x.tryFrom update with
  | some tc => p.handleToolCall x tc
  | none => p

def titled (title : Option String) (update : ToolCallUpdate Value) : ToolCallUpdate Value :=
  if update.title = none then { update with title := title.or (some "") } else update

def replaceTool (toolCallId : String) (status : Option ToolStatus) (metadata : Bool)
    (p : Processor Value) : Processor Value :=
  match p.toolStates toolCallId, status with
  | some toolData, some status =>
    let metadata := if metadata then some toolData.id else none
    p.push (.replace toolData.index (toolEntry x toolData status metadata))
  | _, _ => p

def feedbackEntry (toolData : Option (PartialToolCallData Value)) (reason : Option String) :
    NormalizedEntry Value :=
  let deniedTool := toolData.map fun t => (extractToolNameFromId t.id).getD t.title
  ⟨.userFeedback (deniedTool.getD ""), trim (reason.getD "User denied this tool use request"), none⟩

def planEntry (entries : List PlanEntry) : NormalizedEntry Value :=
  let todos := entries.map fun e => ⟨e.content, e.status.getD "unknown", e.priority⟩
  ⟨.toolUse "plan" (.todoManagement todos "update") .success, "Plan updated", none⟩

def commandsEntry (names : List String) : NormalizedEntry Value :=
  let body := names.foldl (fun body name => body ++ ("- " ++ name ++ "\n")) "Available commands:\n"
  ⟨.systemMessage, body, none⟩

def usageEntry (used size : Nat) : NormalizedEntry Value :=
  let totalTokens := min used (2 ^ 32 - 1)
  let modelContextWindow := min size (2 ^ 32 - 1)
  ⟨.tokenUsageInfo totalTokens modelContextWindow,
    s!"Tokens used: {totalTokens} / Context window: {modelContextWindow}", none⟩

def handle (event : AcpEvent Value) (p : Processor Value) : Processor Value :=
  match event with
  | .sessionStart id =>
    if p.storedSessionId then p
    else { p with storedSessionId := true, sessionIds := p.sessionIds ++ [id] }
  | .error msg => p.addEntry ⟨.errorMessage, msg, none⟩
  | .done _ => p.resetStreaming
  | .message content => p.handleText .assistant content
  | .thought content => p.handleText .thinking content
  | .plan entries => p.resetStreaming.addEntry (planEntry entries)
  | .availableCommands names => p.addEntry (commandsEntry names)
  | .currentMode modeId => p.addEntry ⟨.systemMessage, "Current mode: " ++ modeId, none⟩
  | .requestPermission toolCall => p.convertAndHandle x toolCall
  | .toolCall tc => p.handleToolCall x tc
  | .toolUpdate update =>
    p.convertAndHandle x (titled ((p.toolStates update.toolCallId).map (·.title)) update)
  | .approvalRequested toolCallId approvalId =>
    p.replaceTool x toolCallId (some (.pendingApproval approvalId)) false
  | .approvalResponse toolCallId status =>
    let answered := p.replaceTool x toolCallId (ToolStatus.fromApprovalStatus status) true
    match status with
    | .denied reason => answered.addEntry (feedbackEntry (p.toolStates toolCallId) reason)
    | _ => answered
  | .tokenUsage used size => p.addEntry (usageEntry used size)
  | .user _ | .other => p

end Processor

/-- The next event of the agent, or an entry of its stderr that takes an index. -/
inductive Input (Value : Type) where
  | event (event : AcpEvent Value)
  | stderrEntry

def step (x : Externals Value) (p : Processor Value) : Input Value → Processor Value
  | .event event => p.handle x event
  | .stderrEntry => { p with entryIndex := p.entryIndex + 1 }

/-- The entries that the patches add, in their order, as they are after the patches. -/
def applyPatch (entries : List (Nat × NormalizedEntry Value)) :
    ConversationPatch Value → List (Nat × NormalizedEntry Value)
  | .addNormalizedEntry index entry => entries ++ [(index, entry)]
  | .replace index entry => entries.map fun e => if e.1 = index then (index, entry) else e

def Processor.entries (p : Processor Value) : List (Nat × NormalizedEntry Value) :=
  p.patches.foldl applyPatch []

end Cdesktop.AcpEntries
