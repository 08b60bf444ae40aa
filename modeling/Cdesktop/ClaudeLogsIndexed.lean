import Cdesktop.ClaudeLogs

/-! The processors use only indices that they took, so that an entry goes to the wrong place only
where the two tasks overtake each other or a reset overtakes one of them. -/

namespace Cdesktop.ClaudeLogs
open SharedIndex
set_option autoImplicit true

def Held (tickets : List Ticket) (ticket : Option Ticket) : Prop :=
  ∀ t, ticket = some t → t ∈ tickets

theorem Held.mono (h : Held tickets ticket) (hsub : tickets ⊆ held) : Held held ticket :=
  fun t ht => hsub (h t ht)

theorem held_none : Held tickets none := fun _ ht => nomatch ht

theorem held_some (h : t ∈ tickets) : Held tickets (some t) := by
  intro t' ht'
  cases ht'
  exact h

theorem Held.or (h : Held tickets a) (h' : Held tickets b) : Held tickets (a.or b) := by
  cases a with
  | none => exact h'
  | some t => exact h

def StreamingMessageState.Within (tickets : List Ticket) (s : StreamingMessageState Ticket) : Prop :=
  ∀ index state, s.contents index = some state → Held tickets state.entryIndex

structure ClaudeLogProcessor.Within (tickets : List Ticket) (p : ClaudeLogProcessor) : Prop where
  tools : ∀ id info, p.toolMap id = some info → info.entryIndex ∈ tickets
  messages : ∀ id s, p.streamingMessages id = some s → s.Within tickets

def PlainTextLogProcessor.Within (tickets : List Ticket) (p : PlainTextLogProcessor) : Prop :=
  Held tickets p.currentEntryIndex

structure Local.Within (s : Local) (tickets : List Ticket) : Prop where
  processor : s.processor.Within tickets
  stderr : s.stderr.Within tickets

theorem StreamingMessageState.Within.mono {s : StreamingMessageState Ticket} (h : s.Within tickets)
    (hsub : tickets ⊆ held) : s.Within held :=
  fun index state hstate => (h index state hstate).mono hsub

theorem ClaudeLogProcessor.Within.mono {p : ClaudeLogProcessor} (h : p.Within tickets)
    (hsub : tickets ⊆ held) : p.Within held :=
  ⟨fun id info hinfo => hsub (h.tools id info hinfo),
    fun id s hs => (h.messages id s hs).mono hsub⟩

theorem Local.within_new (strategy : HistoryStrategy) : (Local.new strategy).Within [] :=
  ⟨⟨fun _ _ h => (nomatch h), fun _ _ h => (nomatch h)⟩, held_none⟩

theorem plain_upsert (h : Held tickets entryIndex)
    (hQ : ∀ t held, tickets ⊆ held → t ∈ held → Q t held) :
    (upsert entryIndex).Plain Q tickets := by
  cases entryIndex with
  | some t =>
    have hmem := h t rfl
    exact ⟨hmem, hQ t tickets (List.Subset.refl _) hmem⟩
  | none =>
    intro t
    exact hQ t (t :: tickets) (List.subset_cons_self t tickets) List.mem_cons_self

section Streaming
variable {s : StreamingMessageState Ticket}

theorem StreamingMessageState.Within.set (h : s.Within tickets)
    (hstate : Held tickets state.entryIndex) (index : Nat) : (s.set index state).Within tickets := by
  intro i state' hi
  by_cases heq : i = index
  · subst heq
    simp only [StreamingMessageState.set, Function.update_self] at hi
    cases hi
    exact hstate
  · simp only [StreamingMessageState.set, Function.update_of_ne heq] at hi
    exact h i state' hi

theorem StreamingMessageState.Within.entryIndex (h : s.Within tickets) (index : Nat) :
    Held tickets (s.contentEntryIndex index) := by
  intro t ht
  obtain ⟨state, hstate, hentry⟩ := Option.bind_eq_some_iff.mp ht
  exact h index state hstate t hentry

theorem StreamingMessageState.Within.contentBlockStart (h : s.Within tickets) (index : Nat)
    (contentBlock : ClaudeContentItem) :
    (s.contentBlockStart index contentBlock).Within tickets := by
  unfold StreamingMessageState.contentBlockStart
  split
  · rename_i state hstate
    apply h.set
    cases contentBlock <;> cases hstate <;> exact held_none
  · exact h

theorem StreamingMessageState.Within.plain_applyContentBlockDelta (h : s.Within tickets)
    (index : Nat) (delta : ClaudeContentBlockDelta) (last : Option String) :
    (s.applyContentBlockDelta index delta last).Plain (fun result held =>
      tickets ⊆ held ∧ result.1.Within held) tickets := by
  unfold StreamingMessageState.applyContentBlockDelta
  split
  · exact ⟨List.Subset.refl _, h⟩
  · rename_i state hstate
    have hentry : Held tickets (state.applyContentDelta delta).entryIndex := by
      rw [applyContentDelta_entryIndex]
      cases hcontents : s.contents index with
      | some old =>
        rw [hcontents, Option.some_or] at hstate
        cases hstate
        exact h index _ hcontents
      | none =>
        rw [hcontents, Option.none_or] at hstate
        cases delta <;> cases hstate <;> exact held_none
    dsimp only
    split
    · rw [Prog.plain_bind]
      apply plain_upsert hentry
      intro t held hsub ht
      exact ⟨hsub, (h.mono hsub).set (held_some ht) index⟩
    · exact ⟨List.Subset.refl _, h.set hentry index⟩

end Streaming

namespace ClaudeLogProcessor
variable {p : ClaudeLogProcessor}

theorem Within.insertTool (h : p.Within tickets) (ht : t ∈ tickets) (id : String)
    (toolData : ClaudeToolData) : (p.insertTool id t toolData).Within tickets := by
  apply Within.mk
  · intro id' info hinfo
    by_cases heq : id' = id
    · subst heq
      simp only [ClaudeLogProcessor.insertTool, Function.update_self] at hinfo
      cases hinfo
      exact ht
    · simp only [ClaudeLogProcessor.insertTool, Function.update_of_ne heq] at hinfo
      exact h.tools id' info hinfo
  · exact h.messages

theorem Within.setMessage {s : Option (StreamingMessageState Ticket)} (h : p.Within tickets)
    (hs : ∀ s', s = some s' → s'.Within tickets) (id : String) (last : Option String)
    (current : Option String) :
    Within tickets { p with
      streamingMessages := Function.update p.streamingMessages id s
      streamingMessageId := current
      lastAssistantMessage := last } := by
  apply Within.mk
  · exact h.tools
  · intro id' s' hs'
    by_cases heq : id' = id
    · subst heq
      simp only [Function.update_self] at hs'
      exact hs s' hs'
    · simp only [Function.update_of_ne heq] at hs'
      exact h.messages id' s' hs'

theorem Within.tool (h : p.Within tickets) (id : String) :
    Held tickets ((p.toolMap id).map (·.entryIndex)) := by
  intro t ht
  obtain ⟨info, hinfo, rfl⟩ := Option.map_eq_some_iff.mp ht
  exact h.tools id info hinfo

abbrev Keeps (tickets : List Ticket) (prog : Prog ClaudeLogProcessor) : Prop :=
  prog.Plain (fun p held => p.Within held) tickets

theorem Within.plain_replaceTool (h : p.Within tickets) (id : Option String)
    (hQ : Q () tickets) : (p.replaceTool id).Plain Q tickets := by
  unfold replaceTool
  split
  · rename_i info hinfo
    obtain ⟨id', -, htool⟩ := Option.bind_eq_some_iff.mp hinfo
    exact ⟨h.tools id' info htool, hQ⟩
  · exact hQ

theorem plain_addWhen (c : Bool) (hQ : ∀ held, tickets ⊆ held → Q () held) :
    (addWhen c).Plain Q tickets := by
  unfold addWhen
  split
  · intro t
    exact hQ _ (List.subset_cons_self t tickets)
  · exact hQ tickets (List.Subset.refl _)

theorem plain_addTexts (items : List ClaudeContentItem)
    (hQ : ∀ held, tickets ⊆ held → Q () held) : (addTexts items).Plain Q tickets := by
  induction items generalizing tickets with
  | nil => exact hQ tickets (List.Subset.refl _)
  | cons item items ih =>
    cases item with
    | text s =>
      rw [addTexts, Prog.plain_bind]
      apply plain_addWhen
      intro held hsub
      exact ih fun held' hsub' => hQ held' (List.Subset.trans hsub hsub')
    | thinking s => exact ih hQ
    | redactedThinking => exact ih hQ
    | toolUse id toolData => exact ih hQ
    | toolResult toolUseId => exact ih hQ

section
variable (h : p.Within tickets)
include h

theorem Within.plain_toolResults (items : List ClaudeContentItem)
    (hQ : Q () tickets) : (toolResults p items).Plain Q tickets := by
  induction items with
  | nil => exact hQ
  | cons item items ih =>
    cases item with
    | toolResult toolUseId =>
      rw [toolResults]
      split
      · rename_i info hinfo
        split
        · exact ⟨h.tools toolUseId info hinfo, ih⟩
        · exact ih
      · exact ih
    | text s => exact ih
    | thinking s => exact ih
    | redactedThinking => exact ih
    | toolUse id toolData => exact ih

theorem Within.keeps_addWhen (c : Bool) :
    Keeps tickets (do addWhen c; return p) := by
  rw [Keeps, Prog.plain_bind]
  apply plain_addWhen
  intro held hsub
  exact h.mono hsub

theorem Within.keeps_replaceTool (id : Option String) :
    Keeps tickets (do p.replaceTool id; return p) := by
  rw [Keeps, Prog.plain_bind]
  exact h.plain_replaceTool id h

theorem Within.keeps_system (subtype apiKeySource model toolUseId description : Option String) :
    Keeps tickets (p.system subtype apiKeySource model toolUseId description) := by
  rw [Keeps, system.eq_def, Prog.plain_bind]
  apply plain_addWhen
  intro held hsub
  have hheld := h.mono hsub
  split
  · exact ⟨hheld.tools, hheld.messages⟩
  · exact hheld
  · exact hheld
  · split
    · rename_i id
      split
      · exact hheld
      · intro t
        exact (hheld.mono (List.subset_cons_self t held)).insertTool List.mem_cons_self id .task
    · exact hheld
  · exact hheld.keeps_replaceTool _
  · exact hheld.keeps_replaceTool _
  · exact hheld.keeps_addWhen true

theorem Within.plain_assistantItem (role : String)
    (hentry : Held tickets entryIndex) (item : ClaudeContentItem) :
    (p.assistantItem role entryIndex item).Plain
      (fun p held => tickets ⊆ held ∧ p.Within held) tickets := by
  have hlast : ∀ last held, tickets ⊆ held →
      tickets ⊆ held ∧ Within held { p with lastAssistantMessage := last } :=
    fun last held hsub => ⟨hsub, (h.mono hsub).tools, (h.mono hsub).messages⟩
  unfold assistantItem
  split
  · rename_i id toolData
    rw [Prog.plain_bind]
    apply plain_upsert (hentry.or (h.tool id))
    intro t held hsub ht
    exact ⟨hsub, (h.mono hsub).insertTool ht id toolData⟩
  · dsimp only
    split
    · rw [Prog.plain_bind]
      apply plain_upsert hentry
      intro t held hsub _
      exact hlast _ held hsub
    · exact hlast _ tickets (List.Subset.refl _)
  · dsimp only
    split
    · rw [Prog.plain_bind]
      apply plain_upsert hentry
      intro t held hsub _
      exact hlast _ held hsub
    · exact hlast _ tickets (List.Subset.refl _)
  · exact ⟨List.Subset.refl _, h⟩
  · exact ⟨List.Subset.refl _, h⟩

theorem Within.keeps_assistantItems (role : String) {streaming : Option (StreamingMessageState Ticket)}
    (hstreaming : ∀ s, streaming = some s → s.Within tickets) (contentIndex : Nat)
    (items : List ClaudeContentItem) :
    Keeps tickets (assistantItems role streaming contentIndex items p) := by
  induction items generalizing p tickets contentIndex with
  | nil => exact h
  | cons item items ih =>
    have hentry : Held tickets (streaming.bind (·.contentEntryIndex contentIndex)) := by
      cases streaming with
      | none => exact held_none
      | some s => exact (hstreaming s rfl).entryIndex contentIndex
    rw [Keeps, assistantItems, Prog.plain_bind]
    apply (h.plain_assistantItem role hentry item).imp
    intro p' held _ hp'
    exact ih hp'.2 (fun s hs => (hstreaming s hs).mono hp'.1) (contentIndex + 1)

theorem Within.keeps_assistant (message : ClaudeMessage) :
    Keeps tickets (p.assistant message) := by
  unfold assistant
  split
  · rename_i id hid
    apply Within.keeps_assistantItems
    · exact h.setMessage (by simp) id p.lastAssistantMessage
        p.streamingMessageId
    · exact fun s hs => h.messages id s hs
  · exact h.keeps_assistantItems message.role (by simp) 0 _

theorem Within.keeps_userEntries (message : ClaudeMessage)
    (resumed isSynthetic : Bool) : Keeps tickets (p.userEntries message resumed isSynthetic) := by
  rw [Keeps, userEntries, Prog.plain_bind]
  apply plain_addTexts
  intro held hsub
  rw [Prog.plain_bind]
  apply plain_addTexts
  intro held' hsub'
  rw [Prog.plain_bind]
  apply plain_addWhen
  intro held'' hsub''
  rw [Prog.plain_bind]
  have hp := h.mono (List.Subset.trans hsub (List.Subset.trans hsub' hsub''))
  exact hp.plain_toolResults message.content.items hp

theorem Within.keeps_toolUse (id : String) (toolData : ClaudeToolData) :
    Keeps tickets (p.toolUse id toolData) := by
  rw [Keeps, toolUse, Prog.plain_bind]
  apply plain_upsert (h.tool id)
  intro t held hsub ht
  exact (h.mono hsub).insertTool ht id toolData

theorem Within.streaming {id : String} {s : StreamingMessageState Ticket} (hs : p.streaming = some (id, s)) :
    s.Within tickets := by
  obtain ⟨id', -, hmap⟩ := Option.bind_eq_some_iff.mp hs
  obtain ⟨s', hs', heq⟩ := Option.map_eq_some_iff.mp hmap
  cases heq
  exact h.messages _ _ hs'

theorem Within.keeps_streamEvent (event : ClaudeStreamEvent)
    (parentToolUseId : Option String) : Keeps tickets (p.streamEvent event parentToolUseId) := by
  have hnone : ∀ id, Within tickets { p with streamingMessageId := id } :=
    fun id => ⟨h.tools, h.messages⟩
  cases event with
  | messageStart message =>
    simp only [streamEvent]
    split
    · split
      · rename_i id hid
        apply h.setMessage _ id p.lastAssistantMessage
        intro s hs
        cases hs
        exact fun index state hstate => (nomatch hstate)
      · exact hnone none
    · exact hnone none
  | contentBlockStart index contentBlock =>
    simp only [streamEvent]
    split
    · rename_i id s hs
      apply h.setMessage _ id p.lastAssistantMessage
      intro s' hs'
      cases hs'
      exact (h.streaming hs).contentBlockStart index contentBlock
    · exact h
  | contentBlockDelta index delta =>
    simp only [streamEvent]
    split
    · rename_i id s hs
      rw [Keeps, Prog.plain_bind]
      apply ((h.streaming hs).plain_applyContentBlockDelta index delta _).imp
      intro result held _ hresult
      apply (h.mono hresult.1).setMessage _ id
      intro s' hs'
      cases hs'
      exact hresult.2
    · exact h
  | contentBlockStop => exact h
  | messageDelta hasUsage => exact h.keeps_addWhen _
  | messageStop =>
    simp only [streamEvent]
    split
    · rename_i id hid
      exact h.setMessage (by simp) id p.lastAssistantMessage none
    · exact h
  | unknown => exact h

theorem Within.keeps_result (subtype : Option String)
    (isError : Option Bool) (result : Option String)
    (modelUsage : Option (List (String × Bool))) :
    Keeps tickets (p.result subtype isError result modelUsage) := by
  rw [Keeps, ClaudeLogProcessor.result, Prog.plain_bind]
  apply plain_addWhen
  intro held hsub
  exact (h.mono hsub).keeps_addWhen _

theorem Within.keeps_response (id : Option String) (c : Bool) :
    Keeps tickets (do p.replaceTool id; addWhen c; return p) := by
  rw [Keeps, Prog.plain_bind]
  exact h.plain_replaceTool id (h.keeps_addWhen c)

theorem Within.sound_user (message : ClaudeMessage) (isSynthetic isReplay : Bool) :
    (p.user message isSynthetic isReplay).Sound (fun p held => p.Within held) tickets := by
  unfold user
  split
  · exact .inl h
  · split
    · apply Prog.Sound.bind
      apply Or.inr
      apply Exists.intro _
      apply And.intro rfl
      intro cur
      dsimp only [Prog.bind]
      split
      · apply Or.inr
        apply Exists.intro _
        apply And.intro rfl
        apply Within.keeps_userEntries
        exact ⟨fun id info hinfo => (nomatch hinfo), h.messages⟩
      · exact .inl (h.keeps_userEntries message true isSynthetic)
    · exact .inl (h.keeps_userEntries message false isSynthetic)

theorem Within.sound_normalizeEntries (claudeJson : ClaudeJson) :
    (p.normalizeEntries claudeJson).Sound (fun p held => p.Within held) tickets := by
  cases claudeJson with
  | system subtype apiKeySource model toolUseId description =>
    exact .inl (h.keeps_system subtype apiKeySource model toolUseId description)
  | assistant message => exact .inl (h.keeps_assistant message)
  | user message isSynthetic isReplay => exact h.sound_user message isSynthetic isReplay
  | toolUse id toolData => exact .inl (h.keeps_toolUse id toolData)
  | streamEvent event parentToolUseId => exact .inl (h.keeps_streamEvent event parentToolUseId)
  | result subtype isError result modelUsage =>
    exact .inl (h.keeps_result subtype isError result modelUsage)
  | approvalRequested toolCallId => exact .inl (h.keeps_replaceTool (some toolCallId))
  | approvalResponse toolCallId approvalStatus => exact .inl (h.keeps_response _ _)
  | questionResponse toolCallId questionStatus => exact .inl (h.keeps_response _ _)
  | unknown => exact .inl (h.keeps_addWhen true)
  | toolResult => exact .inl h
  | controlRequest => exact .inl h
  | controlResponse => exact .inl h
  | controlCancelRequest => exact .inl h
  | rateLimitEvent => exact .inl h

theorem Within.sound_processLine (parse : String → Option ClaudeJson) (trimmed : String) :
    (p.processLine parse trimmed).Sound (fun p held => p.Within held) tickets := by
  unfold processLine
  split
  · exact .inl h
  · split
    · exact .inl h
    · split
      · exact h.sound_normalizeEntries _
      · exact .inl (h.keeps_addWhen true)

end

end ClaudeLogProcessor

namespace PlainTextLogProcessor
variable {p : PlainTextLogProcessor}

theorem Within.plain_createPatch (h : p.Within tickets) :
    p.createPatch.Plain (fun p held => tickets ⊆ held ∧ p.Within held) tickets := by
  rw [createPatch, Prog.plain_bind]
  apply plain_upsert h
  intro t held hsub ht
  exact ⟨hsub, held_some ht⟩

theorem Within.plain_accept (h : p.Within tickets) (strategy : HistoryStrategy)
    (chunk : String) : (p.accept strategy chunk).Plain
      (fun p held => tickets ⊆ held ∧ p.Within held) tickets := by
  unfold accept
  dsimp only
  split
  · exact ⟨List.Subset.refl _, h⟩
  · exact Within.plain_createPatch h

theorem Within.plain_process (h : p.Within tickets) (strategy : HistoryStrategy) (late : Bool)
    (chunk : String) : (p.process strategy late chunk).Plain
      (fun p held => tickets ⊆ held ∧ p.Within held) tickets := by
  unfold process
  split
  · exact ⟨List.Subset.refl _, h⟩
  · split
    · split
      · exact Within.plain_createPatch h
      · exact Within.plain_accept (p := { p with currentEntryIndex := none }) held_none strategy
          chunk
    · exact h.plain_accept strategy chunk

end PlainTextLogProcessor

theorem Local.Within.sound_handle {s : Local} (h : s.Within tickets)
    (parse : String → Option ClaudeJson) (author : Author) (msg : Message) :
    (handle parse author s msg).Sound Local.Within tickets := by
  have hstdout : ∀ p held, tickets ⊆ held → p.Within held →
      Local.Within { s with processor := p } held :=
    fun p held hsub hp => ⟨hp, h.stderr.mono hsub⟩
  cases msg with
  | line trimmed =>
    cases author with
    | stdout =>
      apply Prog.Sound.bind
      exact (h.processor.sound_processLine parse trimmed).imp hstdout
    | stderr => exact .inl h
  | rest trimmed =>
    cases author with
    | stdout =>
      apply Prog.Sound.bind
      have hrest : ClaudeLogProcessor.Keeps tickets (s.processor.processRest trimmed) :=
        h.processor.keeps_addWhen _
      exact .inl (hrest.imp hstdout)
    | stderr => exact .inl h
  | chunk late text =>
    cases author with
    | stdout => exact .inl h
    | stderr =>
      apply Prog.Sound.bind
      apply Or.inl
      apply (PlainTextLogProcessor.Within.plain_process h.stderr _ late text).imp
      intro p held _ hp
      exact ⟨h.processor.mono hp.1, hp.2⟩

/-- Earlier patches that added each entry at the number of entries, so many in the end. -/
inductive InOrder : List (List PatchOperation) → Nat → Prop where
  | empty : InOrder [] 0
  | add : InOrder history n → firstAdd patch = some n → InOrder (history ++ [patch]) (n + 1)
  | other : InOrder history n → firstAdd patch = none → InOrder (history ++ [patch]) n

theorem InOrder.adds (h : InOrder history n) : history.filterMap firstAdd = List.range n := by
  induction h with
  | empty => rfl
  | add _ hpatch ih => rw [List.filterMap_append, ih, List.range_succ]; simp [hpatch]
  | other _ hpatch ih => rw [List.filterMap_append, ih]; simp [hpatch]

theorem InOrder.startFrom_eq (h : InOrder history n) : startFrom history = n := by
  rw [startFrom, h.adds]
  cases n with
  | zero => rfl
  | succ n =>
    have hmax : (List.range (n + 1)).max? = some n := by
      apply List.max?_eq_some_iff.mpr
      apply And.intro List.self_mem_range_succ
      intro i hi
      exact Nat.le_of_lt_succ (List.mem_range.mp hi)
    rw [hmax]

/-- The two tasks at the start, with a counter that starts from the store's earlier patches. -/
def start (strategy : HistoryStrategy) (history : List (List PatchOperation)) (n : Nat) :
    World Author Local :=
  World.start (Local.new strategy) n (startFrom history)

/-- In every run whose steps are orderly, each add is at the number of entries and each replace is
of the entry that its author added. -/
theorem conversation_indices_right (parse : String → Option ClaudeJson)
    (strategy : HistoryStrategy) (h : InOrder history n)
    (hrun : Run.Each (World.exec (handle parse)) Orderly (start strategy history n) events) :
    ∀ p ∈ (Run.run (World.exec (handle parse)) (start strategy history n) events).pushes,
      p.Right := by
  rw [start, h.startFrom_eq] at hrun ⊢
  apply pushes_right (Q := Local.Within) (Local.within_new strategy) _ hrun
  intro author s msg tickets hs
  exact hs.sound_handle parse author msg

def prompt (_ : String) : Option ClaudeJson :=
  some (.user ⟨none, "user", .array [.text "go on"]⟩ false false)

def orderlyRun : List (Event Author Message) :=
  [.load .stderr (.chunk false "a"), .step .stderr, .load .stdout (.line "b"), .step .stdout,
    .step .stderr, .step .stdout, .step .stdout, .step .stdout, .step .stdout, .step .stdout]

theorem conversation_indices_right_sample :
    Run.Each (World.exec (handle prompt)) Orderly (start .ampResume [] 0) orderlyRun ∧
      (∀ p ∈ (Run.run (World.exec (handle prompt)) (start .ampResume [] 0) orderlyRun).pushes,
        p.Right) := by
  have hrun : Run.Each (World.exec (handle prompt)) Orderly (start .ampResume [] 0)
      orderlyRun := by
    decide +kernel
  exact ⟨hrun, conversation_indices_right prompt .ampResume .empty hrun⟩

def overtaken : List (Event Author Message) :=
  [.load .stdout (.line "starting"), .step .stdout, .load .stderr (.chunk false "warning"),
    .step .stderr, .step .stderr]

def cleared : List (Event Author Message) :=
  [.load .stderr (.chunk false "warning"), .step .stderr, .step .stderr,
    .load .stdout (.line "go on"), .step .stdout, .step .stdout, .step .stdout, .step .stdout,
    .step .stdout, .load .stderr (.chunk false "again"), .step .stderr, .step .stderr]

/-- An add at another index than the number of entries, and a replace of the other's entry. -/
theorem conversation_index_wrong :
    (∃ p ∈ (Run.run (World.exec (handle fun _ => none)) (start .default [] 0) overtaken).pushes,
      ¬ p.Right) ∧
    (∃ p ∈ (Run.run (World.exec (handle prompt)) (start .ampResume [] 0) cleared).pushes,
      ¬ p.Right) := by
  decide +kernel

end Cdesktop.ClaudeLogs
