import Cdesktop.AcpEntries
import Mathlib.Data.List.Induction

/-! One entry for each tool and each streamed text of an ACP agent. -/

namespace Cdesktop.AcpEntries
open Codex (ApprovalStatus)
set_option autoImplicit true

section Spec

variable (x : Externals Value)

/-- The tool call of an event, where the tool has had the title before. -/
def toolCallOf (title : Option String) : AcpEvent Value → Option (ToolCall Value)
  | .toolCall tc => some tc
  | .requestPermission toolCall => x.tryFrom toolCall
  | .toolUpdate update => x.tryFrom (Processor.titled title update)
  | _ => none

def extendData (id : String) (data : Option (PartialToolCallData Value)) (event : AcpEvent Value) :
    Option (PartialToolCallData Value) :=
  match toolCallOf x (data.map (·.title)) event with
  | some tc =>
    if tc.toolCallId = id then some ((data.getD .default).extend x tc) else data
  | none => data

def toolData (id : String) (events : List (AcpEvent Value)) : Option (PartialToolCallData Value) :=
  events.foldl (extendData x id) none

def answer : AcpEvent Value → Option (String × ToolStatus)
  | .approvalRequested toolCallId approvalId => some (toolCallId, .pendingApproval approvalId)
  | .approvalResponse toolCallId status =>
    (ToolStatus.fromApprovalStatus status).map fun status => (toolCallId, status)
  | _ => none

def Concerns (id : String) (event : AcpEvent Value) : Prop :=
  (∃ title tc, toolCallOf x title event = some tc ∧ tc.toolCallId = id) ∨
    ∃ status, answer event = some (id, status)

def mark (kind : TextKind) : AcpEvent Value → Option (Option String)
  | .message content => match kind, content with
    | .assistant, .text text => some (some text)
    | .assistant, .other => none
    | .thinking, _ => some none
  | .thought content => match kind, content with
    | .thinking, .text text => some (some text)
    | .thinking, .other => none
    | .assistant, _ => some none
  | .done _ | .plan _ | .toolCall _ | .toolUpdate _ => some none
  | .requestPermission toolCall => if (x.tryFrom toolCall).isSome then some none else none
  | _ => none

/-- Consecutive chunks, those that are followed by an end and those that are not yet. -/
structure Groups where
  closed : List (List String)
  last : List String

def Groups.next (g : Groups) : Option String → Groups
  | some chunk => { g with last := g.last ++ [chunk] }
  | none => ⟨g.closed ++ [g.last], []⟩

def Groups.all (g : Groups) : List (List String) := g.closed ++ [g.last]

def groups (kind : TextKind) (events : List (AcpEvent Value)) : Groups :=
  (events.filterMap (mark x kind)).foldl Groups.next ⟨[], []⟩

def TextKind.texts (kind : TextKind) (all : List (List String)) : List (List String) :=
  (all.map (·.dropWhile kind.skips)).filter (· ≠ [])

end Spec

inductive Item (Value : Type) where
  | tool (toolData : PartialToolCallData Value) (status : ToolStatus) (metadata : Option String)
  | text (kind : TextKind) (chunks : List String)
  | notice (entry : NormalizedEntry Value)

namespace Item

def entry (x : Externals Value) : Item Value → NormalizedEntry Value
  | tool toolData status metadata => Processor.toolEntry x toolData status metadata
  | text kind chunks => kind.entry (String.join chunks)
  | notice entry => entry

def tool? (id : String) : Item Value → Option (PartialToolCallData Value × ToolStatus)
  | tool toolData status _ => if toolData.id = id then some (toolData, status) else none
  | _ => none

def text? (kind : TextKind) : Item Value → Option (List String)
  | text kind' chunks => if kind' = kind then some chunks else none
  | _ => none

end Item

/-- The entries that the events are to have. Each tool has one, with all that the events say of it,
and each text has one, with its consecutive chunks. What an approval says of a tool is shown until
the next event of the tool. -/
structure Told (x : Externals Value) (events : List (AcpEvent Value)) (items : List (Item Value)) :
    Prop where
  tools : ∀ id, items.filterMap (fun item => (item.tool? id).map (·.1)) = (toolData x id events).toList
  texts : ∀ kind, items.filterMap (Item.text? kind) = kind.texts (groups x kind events).all
  chunks : ∀ kind, (groups x kind events).all.flatten =
    events.filterMap fun event => (mark x kind event).join
  approvals : ∀ before event after id status, events = before ++ event :: after →
    answer event = some (id, status) → (toolData x id before).isSome →
    (∀ event ∈ after, ¬ Concerns x id event) →
    items.filterMap (fun item => (item.tool? id).map (·.2)) = [status]

structure Located (x : Externals Value) (p : Processor Value) (located : List (Nat × Item Value)) :
    Prop where
  entries : p.entries = located.map fun l => (l.1, l.2.entry x)
  nodup : (located.map (·.1)).Nodup
  below : ∀ l ∈ located, l.1 < p.entryIndex

section Located

variable {x : Externals Value} {p : Processor Value}

theorem Processor.entries_push (patch : ConversationPatch Value) :
    (p.push patch).entries = applyPatch p.entries patch := by
  rw [entries, push, List.foldl_append]
  rfl

theorem Located.congr {p' : Processor Value} (h : Located x p located)
    (hpatches : p'.patches = p.patches) (hindex : p.entryIndex ≤ p'.entryIndex) :
    Located x p' located := by
  constructor
  · rw [Processor.entries, hpatches]
    exact h.entries
  · exact h.nodup
  · exact fun l hl => Nat.lt_of_lt_of_le (h.below l hl) hindex

theorem Located.add (h : Located x p located) (item : Item Value) :
    Located x (p.addEntry (item.entry x)) (located ++ [(p.entryIndex, item)]) := by
  constructor
  · change (p.push _).entries = _
    rw [Processor.entries_push, h.entries, List.map_append]
    rfl
  · rw [List.map_append, List.nodup_append]
    refine ⟨h.nodup, List.nodup_singleton _, ?_⟩
    intro i hi j hj
    obtain ⟨l, hl, rfl⟩ := List.mem_map.mp hi
    rw [List.mem_singleton.mp hj]
    exact Nat.ne_of_lt (h.below l hl)
  · intro l hl
    change l.1 < p.entryIndex + 1
    cases List.mem_append.mp hl with
    | inl hl => exact Nat.lt_succ_of_lt (h.below l hl)
    | inr hl =>
      rw [List.mem_singleton.mp hl]
      exact Nat.lt_succ_self _

theorem Located.replace (h : Located x p (before ++ (index, item) :: after)) (item' : Item Value) :
    Located x (p.push (.replace index (item'.entry x))) (before ++ (index, item') :: after) := by
  have hnodup := h.nodup
  rw [List.map_append, List.map_cons, List.nodup_append, List.nodup_cons] at hnodup
  obtain ⟨-, ⟨hafter, -⟩, hbefore⟩ := hnodup
  have hkeep {items : List (Nat × Item Value)} (hitems : ∀ l ∈ items, l.1 ≠ index) :
      (items.map fun l => (l.1, l.2.entry x)).map
        (fun e => if e.1 = index then (index, item'.entry x) else e) =
      items.map fun l => (l.1, l.2.entry x) := by
    rw [List.map_map]
    exact List.map_congr_left fun l hl => if_neg (hitems l hl)
  constructor
  · rw [Processor.entries_push, h.entries, applyPatch, List.map_append, List.map_append,
      List.map_cons, List.map_cons, hkeep, hkeep, if_pos rfl, List.map_append, List.map_cons]
    · intro l hl heq
      rw [← heq] at hafter
      exact hafter (List.mem_map.mpr ⟨l, hl, rfl⟩)
    · exact fun l hl => hbefore _ (List.mem_map_of_mem hl) _ List.mem_cons_self
  · have hindices := h.nodup
    rw [List.map_append, List.map_cons] at hindices ⊢
    exact hindices
  · intro l hl
    cases List.mem_append.mp hl with
    | inl hl => exact h.below l (List.mem_append_left _ hl)
    | inr hl =>
      cases List.mem_cons.mp hl with
      | inl heq =>
        rw [heq]
        exact h.below (index, item) (List.mem_append_right _ List.mem_cons_self)
      | inr hl => exact h.below l (List.mem_append_right _ (List.mem_cons_of_mem _ hl))

end Located

section Shown

variable {id : String} {located : List (Nat × Item Value)}

@[simp] def toolAt (id : String) (l : Nat × Item Value) :
    Option (Nat × PartialToolCallData Value × ToolStatus) :=
  (l.2.tool? id).map fun shown => (l.1, shown)

@[simp] def textAt (kind : TextKind) (l : Nat × Item Value) : Option (Nat × List String) :=
  (l.2.text? kind).map fun chunks => (l.1, chunks)

inductive ToolShown (id : String) (located : List (Nat × Item Value)) :
    Option (PartialToolCallData Value) → Option (PartialToolCallData Value × ToolStatus) → Prop where
  | unknown (h : located.filterMap (toolAt id) = []) : ToolShown id located none none
  | known (index : Nat) (hid : data.id = id)
      (h : located.filterMap (toolAt id) = [(index, data, status)]) :
      ToolShown id located (some { data with index }) (some (data, status))

inductive TextShown (kind : TextKind) (located : List (Nat × Item Value)) :
    Option StreamingText → Groups → Prop where
  | closed (h : (located.filterMap (textAt kind)).map (·.2) = kind.texts g.closed)
      (hlast : g.last.dropWhile kind.skips = []) : TextShown kind located none g
  | streamed (h : located.filterMap (textAt kind) =
        earlier ++ [(s.index, g.last.dropWhile kind.skips)])
      (hearlier : earlier.map (·.2) = kind.texts g.closed)
      (hlast : g.last.dropWhile kind.skips ≠ [])
      (hcontent : s.content = String.join (g.last.dropWhile kind.skips)) :
      TextShown kind located (some s) g

theorem ToolShown.congr {located' : List (Nat × Item Value)} (h : ToolShown id located data shown)
    (heq : located'.filterMap (toolAt id) = located.filterMap (toolAt id)) :
    ToolShown id located' data shown := by
  cases h with
  | unknown h => exact .unknown (heq.trans h)
  | known index hid h => exact .known index hid (heq.trans h)

theorem TextShown.congr {located' : List (Nat × Item Value)} (h : TextShown kind located text g)
    (heq : located'.filterMap (textAt kind) = located.filterMap (textAt kind)) :
    TextShown kind located' text g := by
  cases h with
  | closed h hlast => exact .closed (by rw [heq, h]) hlast
  | streamed h hearlier hlast hcontent => exact .streamed (heq.trans h) hearlier hlast hcontent

theorem ToolShown.title (h : ToolShown id located data shown) :
    data.map PartialToolCallData.title = shown.map fun shown => shown.1.title := by
  cases h <;> rfl

variable {f : α → Option β} {kind' : TextKind}

theorem exists_found {items : List α} (h : items.filterMap f = earlier ++ [found]) :
    ∃ before item after, items = before ++ item :: after ∧ f item = some found ∧
      before.filterMap f = earlier ∧ after.filterMap f = [] := by
  obtain ⟨before, rest, rfl, hbefore, hrest⟩ := List.filterMap_eq_append_iff.mp h
  obtain ⟨skipped, item, after, rfl, hskipped, hitem, hafter⟩ := List.filterMap_eq_cons_iff.mp hrest
  refine ⟨before ++ skipped, item, after, by rw [List.append_assoc], hitem, ?_, hafter⟩
  rw [List.filterMap_append, hbefore, List.filterMap_eq_nil_iff.mpr hskipped, List.append_nil]

theorem filterMap_replace (before after : List α) (h : f item' = f item) :
    (before ++ item' :: after).filterMap f = (before ++ item :: after).filterMap f := by
  rw [List.filterMap_append, List.filterMap_append, List.filterMap_cons, List.filterMap_cons, h]

theorem filterMap_add (items : List α) (h : f item = none) :
    (items ++ [item]).filterMap f = items.filterMap f := by
  rw [List.filterMap_append, List.filterMap_cons_none h, List.filterMap_nil, List.append_nil]

theorem toolAt_eq_some (h : toolAt id l = some (index, data, status)) :
    ∃ metadata, l = (index, .tool data status metadata) ∧ data.id = id := by
  obtain ⟨i, item⟩ := l
  obtain ⟨shown, htool, heq⟩ := Option.map_eq_some_iff.mp h
  cases heq
  cases item with
  | tool data' status' metadata =>
    rw [Item.tool?] at htool
    split at htool
    · next hid =>
      cases htool
      exact ⟨metadata, rfl, hid⟩
    · cases htool
  | text => cases htool
  | notice => cases htool

theorem textAt_eq_some (h : textAt kind l = some (index, chunks)) :
    l = (index, .text kind chunks) := by
  obtain ⟨i, item⟩ := l
  obtain ⟨shown, htext, heq⟩ := Option.map_eq_some_iff.mp h
  cases heq
  cases item with
  | text kind' chunks' =>
    rw [Item.text?] at htext
    split at htext
    · next hkind =>
      cases htext
      rw [hkind]
    · cases htext
  | tool => cases htext
  | notice => cases htext

theorem toolAt_self (hid : data.id = id) :
    toolAt id (index, .tool data status metadata) = some (index, data, status) := by
  rw [toolAt, Item.tool?, if_pos hid]
  rfl

theorem toolAt_ne (hid : data.id ≠ id) :
    toolAt id (index, .tool data status metadata) = none := by
  rw [toolAt, Item.tool?, if_neg hid]
  rfl

theorem ToolShown.of_split (hid : data.id = id) (hbefore : before.filterMap (toolAt id) = [])
    (hafter : after.filterMap (toolAt id) = []) :
    ToolShown id (before ++ (index, .tool data status metadata) :: after)
      (some { data with index }) (some (data, status)) := by
  refine .known index hid ?_
  rw [List.filterMap_append, hbefore, List.filterMap_cons_some (toolAt_self hid), hafter]
  rfl

theorem textAt_self (kind : TextKind) (index : Nat) (chunks : List String) :
    textAt kind (index, (.text kind chunks : Item Value)) = some (index, chunks) := by
  rw [textAt, Item.text?, if_pos rfl]
  rfl

theorem textAt_ne (hkind : kind' ≠ kind) :
    textAt kind (index, (.text kind' chunks : Item Value)) = none := by
  rw [textAt, Item.text?, if_neg hkind]
  rfl

end Shown

/-- What is shown is what was told of each tool, and the texts in their groups. -/
structure Inv (x : Externals Value)
    (told : String → Option (PartialToolCallData Value × ToolStatus)) (g : TextKind → Groups)
    (p : Processor Value) (located : List (Nat × Item Value)) : Prop where
  placed : Located x p located
  tools : ∀ id, ToolShown id located (p.toolStates id) (told id)
  texts : ∀ kind, TextShown kind located (p.streaming.get kind) (g kind)

section Steps

variable {x : Externals Value} {p : Processor Value}
  {told : String → Option (PartialToolCallData Value × ToolStatus)} {g : TextKind → Groups}

theorem StreamingState.get_set_self (kind : TextKind) (text : Option StreamingText)
    (s : StreamingState) : (s.set kind text).get kind = text := by
  cases kind <;> rfl

theorem StreamingState.get_set_ne {kind : TextKind} (h : kind' ≠ kind)
    (text : Option StreamingText) (s : StreamingState) :
    (s.set kind text).get kind' = s.get kind' := by
  cases kind <;> cases kind' <;> first | rfl | exact absurd rfl h

theorem TextKind.eq_other {kind : TextKind} (h : kind' ≠ kind) : kind' = kind.other := by
  cases kind <;> cases kind' <;> first | rfl | exact absurd rfl h

theorem TextKind.texts_append (kind : TextKind) (all all' : List (List String)) :
    kind.texts (all ++ all') = kind.texts all ++ kind.texts all' := by
  rw [texts, List.map_append, List.filter_append]
  rfl

theorem TextKind.texts_nil {kind : TextKind} (h : chunks.dropWhile kind.skips = []) :
    kind.texts [chunks] = [] := by
  rw [texts, List.map_singleton, h]
  rfl

theorem TextKind.texts_singleton {kind : TextKind} (h : chunks.dropWhile kind.skips ≠ []) :
    kind.texts [chunks] = [chunks.dropWhile kind.skips] := by
  rw [texts, List.map_singleton, List.filter_singleton, decide_eq_true h, cond_true]

theorem TextShown.cut (h : TextShown kind located text group) :
    TextShown kind located none (group.next none) := by
  cases h with
  | closed h hlast =>
    refine .closed ?_ rfl
    change _ = kind.texts (group.closed ++ [group.last])
    rw [h, kind.texts_append, TextKind.texts_nil hlast, List.append_nil]
  | streamed h hearlier hlast hcontent =>
    refine .closed ?_ rfl
    change _ = kind.texts (group.closed ++ [group.last])
    rw [h, List.map_append, hearlier, kind.texts_append, TextKind.texts_singleton hlast]
    rfl

theorem Inv.notice (h : Inv x told g p located) (entry : NormalizedEntry Value) :
    Inv x told g (p.addEntry entry) (located ++ [(p.entryIndex, .notice entry)]) := by
  constructor
  · exact h.placed.add (.notice entry)
  · exact fun id => (h.tools id).congr (filterMap_add _ rfl)
  · exact fun kind => (h.texts kind).congr (filterMap_add _ rfl)

theorem Inv.reset (h : Inv x told g p located) :
    Inv x told (fun kind => (g kind).next none) p.resetStreaming located := by
  constructor
  · exact h.placed.congr rfl (Nat.le_refl _)
  · exact h.tools
  · intro kind
    have hnone : (p.resetStreaming.streaming.get kind) = none := by cases kind <;> rfl
    rw [hnone]
    exact (h.texts kind).cut

def chunkMark (kind kind' : TextKind) (content : ContentBlock) : Option (Option String) :=
  if kind' = kind then
    match content with
    | .text text => some (some text)
    | .other => none
  else some none

def Groups.after (group : Groups) (m : Option (Option String)) : Groups := m.elim group group.next

theorem Inv.cutOther (h : Inv x told g p located) (kind : TextKind) :
    Inv x told (fun kind' => if kind' = kind then g kind' else (g kind').next none)
      { p with streaming := p.streaming.set kind.other none } located := by
  constructor
  · exact h.placed.congr rfl (Nat.le_refl _)
  · exact h.tools
  · intro kind'
    dsimp only
    split
    · next hkind =>
      have hne : kind' ≠ kind.other := by
        rw [hkind]
        cases kind <;> exact nofun
      rw [StreamingState.get_set_ne hne]
      exact h.texts kind'
    · next hkind =>
      rw [← TextKind.eq_other hkind, StreamingState.get_set_self]
      exact (h.texts kind').cut

theorem join_concat (chunks : List String) (chunk : String) :
    String.join (chunks ++ [chunk]) = String.join chunks ++ chunk := by
  simp

theorem join_singleton (chunk : String) : String.join [chunk] = chunk := by
  simp

theorem dropWhile_concat_of_nil {skips : String → Bool} (h : chunks.dropWhile skips = [])
    (chunk : String) :
    (chunks ++ [chunk]).dropWhile skips = if skips chunk then [] else [chunk] := by
  rw [List.dropWhile_append, h, List.isEmpty_nil, if_pos rfl, List.dropWhile_cons]
  rfl

theorem dropWhile_concat_of_ne_nil {skips : String → Bool} (h : chunks.dropWhile skips ≠ [])
    (chunk : String) :
    (chunks ++ [chunk]).dropWhile skips = chunks.dropWhile skips ++ [chunk] := by
  rw [List.dropWhile_append, if_neg]
  rwa [List.isEmpty_iff]

theorem Inv.pushText (h : Inv x told g p located) (kind : TextKind) (text : String) :
    ∃ located', Inv x told
      (fun kind' => if kind' = kind then (g kind').next (some text) else g kind')
      (p.pushText kind text) located' := by
  have htext := h.texts kind
  rw [Processor.pushText]
  generalize hstreaming : p.streaming.get kind = streaming at htext
  cases htext with
  | closed hclosed hlast =>
    have hdrop := dropWhile_concat_of_nil hlast text
    cases hskips : kind.skips text with
    | true =>
      rw [hskips, if_pos rfl] at hdrop
      dsimp only
      rw [if_pos rfl]
      refine ⟨located, h.placed, h.tools, fun kind' => ?_⟩
      split
      · next hkind =>
        rw [hkind, hstreaming]
        exact .closed hclosed hdrop
      · exact h.texts kind'
    | false =>
      rw [hskips, if_neg Bool.false_ne_true] at hdrop
      dsimp only
      rw [if_neg Bool.false_ne_true]
      refine ⟨located ++ [(p.entryIndex, .text kind [text])], ?_, ?_, ?_⟩
      · have hadd := h.placed.add (.text kind [text])
        rw [Item.entry, join_singleton] at hadd
        exact hadd.congr rfl (Nat.le_refl _)
      · exact fun id => (h.tools id).congr (filterMap_add _ rfl)
      · intro kind'
        dsimp only
        split
        · next hkind =>
          rw [hkind, StreamingState.get_set_self]
          refine .streamed (g := (g kind).next (some text)) ?_ hclosed ?_ ?_
          · rw [List.filterMap_append, List.filterMap_cons_some (textAt_self ..)]
            change _ = _ ++ [(_, ((g kind).last ++ [text]).dropWhile kind.skips)]
            rw [hdrop]
            rfl
          · change ((g kind).last ++ [text]).dropWhile kind.skips ≠ []
            rw [hdrop]
            exact List.cons_ne_nil _ _
          · change _ = String.join (((g kind).last ++ [text]).dropWhile kind.skips)
            rw [hdrop, join_singleton]
        · next hkind =>
          rw [StreamingState.get_set_ne hkind]
          exact (h.texts kind').congr (filterMap_add _ (textAt_ne (Ne.symm hkind)))
  | @streamed earlier s _ hshown hearlier hlast hcontent =>
    have hdrop := dropWhile_concat_of_ne_nil hlast text
    obtain ⟨before, l, after, rfl, hl, hbefore, hafter⟩ := exists_found hshown
    obtain rfl := textAt_eq_some hl
    refine ⟨before ++ (s.index, .text kind (((g kind).last ++ [text]).dropWhile kind.skips)) :: after,
      ?_, ?_, ?_⟩
    · have hreplace := h.placed.replace (.text kind (((g kind).last ++ [text]).dropWhile kind.skips))
      rw [Item.entry, hdrop, join_concat, ← hcontent] at hreplace
      rw [hdrop]
      exact hreplace.congr rfl (Nat.le_refl _)
    · exact fun id => (h.tools id).congr (filterMap_replace before after rfl)
    · intro kind'
      dsimp only
      split
      · next hkind =>
        rw [hkind, StreamingState.get_set_self]
        refine .streamed (g := (g kind).next (some text)) ?_ hearlier ?_ ?_
        · rw [List.filterMap_append, List.filterMap_cons_some (textAt_self ..), hbefore, hafter]
          rfl
        · change ((g kind).last ++ [text]).dropWhile kind.skips ≠ []
          rw [hdrop]
          exact List.append_ne_nil_of_right_ne_nil _ (List.cons_ne_nil _ _)
        · change _ = String.join (((g kind).last ++ [text]).dropWhile kind.skips)
          rw [hdrop, join_concat, ← hcontent]
      · next hkind =>
        rw [StreamingState.get_set_ne hkind]
        apply (h.texts kind').congr
        apply filterMap_replace
        rw [textAt_ne (Ne.symm hkind), textAt_ne (Ne.symm hkind)]

theorem Inv.handleText (h : Inv x told g p located) (kind : TextKind) (content : ContentBlock) :
    ∃ located', Inv x told (fun kind' => (g kind').after (chunkMark kind kind' content))
      (p.handleText kind content) located' := by
  have hcut := h.cutOther kind
  cases content with
  | other =>
    have hmarks : (fun kind' => (g kind').after (chunkMark kind kind' .other)) =
        fun kind' => if kind' = kind then g kind' else (g kind').next none := by
      funext kind'
      rw [chunkMark]
      split <;> rfl
    rw [hmarks]
    exact ⟨located, hcut⟩
  | text text =>
    have hmarks : (fun kind' => (g kind').after (chunkMark kind kind' (.text text))) =
        fun kind' => if kind' = kind then
          (if kind' = kind then g kind' else (g kind').next none).next (some text)
        else if kind' = kind then g kind' else (g kind').next none := by
      funext kind'
      rw [chunkMark]
      by_cases hkind : kind' = kind
      · rw [if_pos hkind, if_pos hkind, if_pos hkind]
        rfl
      · rw [if_neg hkind, if_neg hkind, if_neg hkind]
        rfl
    rw [hmarks]
    exact hcut.pushText kind text

def toldCall (x : Externals Value) (shown : Option (PartialToolCallData Value × ToolStatus))
    (tc : ToolCall Value) : PartialToolCallData Value × ToolStatus :=
  let data := ((shown.map Prod.fst).getD PartialToolCallData.default).extend x tc
  (data, convertToolStatus data.status)

theorem Inv.handleToolCall (h : Inv x told g p located) (tc : ToolCall Value) :
    ∃ located', Inv x
      (Function.update told tc.toolCallId (some (toldCall x (told tc.toolCallId) tc)))
      (fun kind => (g kind).next none) (p.handleToolCall x tc) located' := by
  have hreset := h.reset
  have htool := hreset.tools tc.toolCallId
  rw [Processor.handleToolCall]
  dsimp only
  generalize hstate : p.resetStreaming.toolStates tc.toolCallId = state at htool
  generalize htold : told tc.toolCallId = shown at htool
  cases htool with
  | unknown hnone =>
    let data := PartialToolCallData.default.extend x tc
    refine ⟨located ++ [(p.entryIndex, .tool data (convertToolStatus data.status) (some data.id))],
      ?_, ?_, ?_⟩
    · exact (hreset.placed.add _).congr rfl (Nat.le_refl _)
    · intro id
      by_cases hid : id = tc.toolCallId
      · dsimp only
        rw [hid, Function.update_self, Function.update_self]
        have hdata : data.id = tc.toolCallId := rfl
        exact ToolShown.of_split hdata hnone rfl
      · dsimp only
        rw [Function.update_of_ne hid, Function.update_of_ne hid]
        exact (hreset.tools id).congr (filterMap_add _ (toolAt_ne (Ne.symm hid)))
    · exact fun kind => (hreset.texts kind).congr (filterMap_add _ rfl)
  | @known data status index hid hshown =>
    obtain ⟨before, l, after, rfl, hl, hbefore, hafter⟩ :=
      exists_found (hshown.trans (List.nil_append _).symm)
    obtain ⟨metadata, rfl, -⟩ := toolAt_eq_some hl
    let data' := data.extend x tc
    refine ⟨before ++ (index, .tool data' (convertToolStatus data'.status) (some data'.id)) :: after,
      ?_, ?_, ?_⟩
    · exact (hreset.placed.replace _).congr rfl (Nat.le_refl _)
    · intro id
      by_cases hne : id = tc.toolCallId
      · dsimp only
        rw [hne, Function.update_self, Function.update_self]
        have hdata : data'.id = tc.toolCallId := rfl
        exact ToolShown.of_split hdata hbefore hafter
      · dsimp only
        rw [Function.update_of_ne hne, Function.update_of_ne hne]
        apply (hreset.tools id).congr
        apply filterMap_replace
        rw [toolAt_ne (Ne.symm hne), toolAt_ne (hid ▸ Ne.symm hne)]
    · intro kind
      apply (hreset.texts kind).congr
      exact filterMap_replace before after rfl

theorem Inv.replaceTool (h : Inv x told g p located) (id : String) (status : Option ToolStatus)
    (metadata : Bool) :
    ∃ located', Inv x
      (Function.update told id ((told id).map fun shown => (shown.1, status.getD shown.2)))
      g (p.replaceTool x id status metadata) located' := by
  have htool := h.tools id
  unfold Processor.replaceTool
  generalize hstate : p.toolStates id = state at htool
  generalize htold : told id = shown at htool
  cases htool with
  | unknown hnone =>
    refine ⟨located, ?_⟩
    rw [Option.map_none, ← htold, Function.update_eq_self]
    exact h
  | @known data shownStatus index hid hshown =>
    cases status with
    | none =>
      refine ⟨located, ?_⟩
      change Inv x (Function.update told id (some (data, shownStatus))) g p located
      rw [← htold, Function.update_eq_self]
      exact h
    | some status =>
      obtain ⟨before, l, after, rfl, hl, hbefore, hafter⟩ :=
        exists_found (hshown.trans (List.nil_append _).symm)
      obtain ⟨metadata', rfl, -⟩ := toolAt_eq_some hl
      refine ⟨before ++ (index, .tool data status (if metadata then some data.id else none)) :: after,
        ?_, ?_, ?_⟩
      · exact h.placed.replace (.tool data status (if metadata then some data.id else none))
      · intro id'
        change ToolShown id' _ (p.toolStates id') _
        by_cases hne : id' = id
        · rw [hne, hstate, Function.update_self]
          exact ToolShown.of_split hid hbefore hafter
        · rw [Function.update_of_ne hne]
          apply (h.tools id').congr
          apply filterMap_replace
          rw [toolAt_ne (hid ▸ Ne.symm hne), toolAt_ne (hid ▸ Ne.symm hne)]
      · intro kind
        apply (h.texts kind).congr
        exact filterMap_replace before after rfl

@[simp] def toldEvent (x : Externals Value) (id : String)
    (shown : Option (PartialToolCallData Value × ToolStatus)) (event : AcpEvent Value) :
    Option (PartialToolCallData Value × ToolStatus) :=
  match toolCallOf x (shown.map fun shown => shown.1.title) event, answer event with
  | some tc, _ => if tc.toolCallId = id then some (toldCall x shown tc) else shown
  | none, some (toolCallId, status) =>
    if toolCallId = id then shown.map fun shown => (shown.1, status) else shown
  | none, none => shown

theorem mark_message (kind : TextKind) (content : ContentBlock) :
    mark x kind (.message content) = chunkMark .assistant kind content := by
  cases kind <;> cases content <;> rfl

theorem mark_thought (kind : TextKind) (content : ContentBlock) :
    mark x kind (.thought content) = chunkMark .thinking kind content := by
  cases kind <;> cases content <;> rfl

theorem toldEvent_call (event : AcpEvent Value) (tc : ToolCall Value) (hcall : ∀ id, ∃ tc',
      toolCallOf x ((told id).map fun shown => shown.1.title) event = some tc' ∧
        tc'.toolCallId = tc.toolCallId ∧ (id = tc.toolCallId → tc' = tc)) :
    (fun id => toldEvent x id (told id) event) =
      Function.update told tc.toolCallId (some (toldCall x (told tc.toolCallId) tc)) := by
  funext id
  obtain ⟨tc', htc', hid', heq⟩ := hcall id
  rw [toldEvent, htc']
  dsimp only
  by_cases hid : id = tc.toolCallId
  · rw [heq hid, hid, if_pos rfl, Function.update_self]
  · rw [if_neg (hid' ▸ Ne.symm hid), Function.update_of_ne hid]

theorem toldEvent_answer (event : AcpEvent Value) (toolCallId : String) (status : Option ToolStatus)
    (hcall : ∀ title, toolCallOf x title event = none)
    (hanswer : answer event = status.map fun status => (toolCallId, status)) :
    (fun id => toldEvent x id (told id) event) = Function.update told toolCallId
      ((told toolCallId).map fun shown => (shown.1, status.getD shown.2)) := by
  funext id
  rw [toldEvent, hcall, hanswer]
  cases status with
  | none =>
    have hkeep : ((told toolCallId).map fun shown => (shown.1, shown.2)) = told toolCallId := by
      cases told toolCallId <;> rfl
    change told id = Function.update told toolCallId
      ((told toolCallId).map fun shown => (shown.1, shown.2)) id
    rw [hkeep, Function.update_eq_self]
  | some status =>
    dsimp only [Option.map_some, Option.getD_some]
    by_cases hid : id = toolCallId
    · rw [hid, if_pos rfl, Function.update_self]
    · rw [if_neg (Ne.symm hid), Function.update_of_ne hid]

theorem Inv.convertAndHandle (h : Inv x told g p located) {update : ToolCallUpdate Value}
    (hupdate : x.tryFrom update = some tc) :
    ∃ located', Inv x
      (Function.update told tc.toolCallId (some (toldCall x (told tc.toolCallId) tc)))
      (fun kind => (g kind).next none) (p.convertAndHandle x update) located' := by
  rw [Processor.convertAndHandle, hupdate]
  exact h.handleToolCall tc

theorem titled_isSome (title : Option String) (update : ToolCallUpdate Value) :
    (Processor.titled title update).title.isSome := by
  rw [Processor.titled]
  split
  · cases title <;> rfl
  · next hne => exact Option.isSome_iff_ne_none.mpr hne

theorem titled_toolCallId (title : Option String) (update : ToolCallUpdate Value) :
    (Processor.titled title update).toolCallId = update.toolCallId := by
  rw [Processor.titled]
  split <;> rfl

theorem Inv.handle (h : Inv x told g p located) (event : AcpEvent Value) :
    ∃ located', Inv x (fun id => toldEvent x id (told id) event)
      (fun kind => (g kind).after (mark x kind event)) (p.handle x event) located' := by
  cases event with
  | user | other => exact ⟨located, h⟩
  | sessionStart id =>
    refine ⟨located, ?_⟩
    change Inv x told g (if p.storedSessionId then p else _) located
    split
    · exact h
    · exact ⟨h.placed.congr rfl (Nat.le_refl _), h.tools, h.texts⟩
  | error | availableCommands | currentMode | tokenUsage => exact ⟨_, h.notice _⟩
  | done => exact ⟨_, h.reset⟩
  | plan => exact ⟨_, h.reset.notice _⟩
  | message content =>
    simp only [mark_message]
    exact h.handleText .assistant content
  | thought content =>
    simp only [mark_thought]
    exact h.handleText .thinking content
  | toolCall tc =>
    rw [toldEvent_call (.toolCall tc) tc fun id => ⟨tc, rfl, rfl, fun _ => rfl⟩]
    exact h.handleToolCall tc
  | toolUpdate update =>
    have htitle (title : Option String) :=
      Option.isSome_iff_exists.mp (x.tryFrom_title _ (titled_isSome title update))
    have hid {title : Option String} {tc : ToolCall Value}
        (htc : x.tryFrom (Processor.titled title update) = some tc) :
        tc.toolCallId = update.toolCallId :=
      (x.tryFrom_id _ _ htc).trans (titled_toolCallId title update)
    obtain ⟨tc, htc⟩ := htitle ((p.toolStates update.toolCallId).map (·.title))
    rw [toldEvent_call (.toolUpdate update) tc]
    · exact h.convertAndHandle htc
    · intro id
      obtain ⟨tc', htc'⟩ := htitle ((told id).map fun shown => shown.1.title)
      refine ⟨tc', htc', (hid htc').trans (hid htc).symm, fun heq => ?_⟩
      rw [heq, hid htc, ← (h.tools _).title, htc] at htc'
      exact (Option.some.inj htc').symm
  | requestPermission toolCall =>
    cases htc : x.tryFrom toolCall with
    | none =>
      refine ⟨located, ?_⟩
      have hhandle : p.handle x (.requestPermission toolCall) = p := by
        rw [Processor.handle, Processor.convertAndHandle, htc]
      have hmark (kind : TextKind) : mark x kind (.requestPermission toolCall) = none := by
        rw [mark, htc]
        rfl
      have htold : (fun id => toldEvent x id (told id) (.requestPermission toolCall)) = told := by
        funext id
        rw [toldEvent, toolCallOf, htc]
        rfl
      simp only [hmark]
      rw [hhandle, htold]
      exact h
    | some tc =>
      have hmark (kind : TextKind) : mark x kind (.requestPermission toolCall) = some none := by
        rw [mark, htc]
        rfl
      simp only [hmark]
      rw [toldEvent_call (.requestPermission toolCall) tc fun id => ⟨tc, htc, rfl, fun _ => rfl⟩]
      exact h.convertAndHandle htc
  | approvalRequested toolCallId approvalId =>
    rw [toldEvent_answer _ toolCallId (some (.pendingApproval approvalId)) (fun _ => rfl) rfl]
    exact h.replaceTool toolCallId _ false
  | approvalResponse toolCallId status =>
    rw [toldEvent_answer _ toolCallId (ToolStatus.fromApprovalStatus status) (fun _ => rfl) rfl]
    obtain ⟨located', hanswered⟩ := h.replaceTool toolCallId (ToolStatus.fromApprovalStatus status) true
    cases status with
    | denied reason => exact ⟨_, hanswered.notice _⟩
    | pending | approved | timedOut => exact ⟨located', hanswered⟩

theorem Inv.start (x : Externals Value) (entryIndex : Nat) :
    Inv x (fun _ => none) (fun _ => ⟨[], []⟩) (.start entryIndex) [] := by
  refine ⟨⟨rfl, List.nodup_nil, fun l hl => absurd hl List.not_mem_nil⟩, fun id => .unknown rfl, fun kind => ?_⟩
  have hnone : (Processor.start entryIndex : Processor Value).streaming.get kind = none := by
    cases kind <;> rfl
  rw [hnone]
  exact .closed rfl rfl

end Steps

section Runs

variable (x : Externals Value)

def events (inputs : List (Input Value)) : List (AcpEvent Value) :=
  inputs.filterMap fun
    | .event event => some event
    | .stderrEntry => none

def run (entryIndex : Nat) (inputs : List (Input Value)) : Processor Value :=
  inputs.foldl (step x) (.start entryIndex)

def shownOf (events : List (AcpEvent Value)) (id : String) :
    Option (PartialToolCallData Value × ToolStatus) :=
  events.foldl (toldEvent x id) none

theorem groups_concat (kind : TextKind) (events : List (AcpEvent Value)) (event : AcpEvent Value) :
    groups x kind (events ++ [event]) = (groups x kind events).after (mark x kind event) := by
  rw [groups, List.filterMap_append, List.foldl_append]
  cases hmark : mark x kind event with
  | none =>
    rw [List.filterMap_cons_none hmark]
    rfl
  | some m =>
    rw [List.filterMap_cons_some hmark]
    rfl

theorem inv_run (entryIndex : Nat) (inputs : List (Input Value)) :
    ∃ located, Inv x (shownOf x (events inputs)) (fun kind => groups x kind (events inputs))
      (run x entryIndex inputs) located := by
  induction inputs using List.reverseRecOn with
  | nil => exact ⟨[], Inv.start x entryIndex⟩
  | append_singleton inputs input ih =>
    obtain ⟨located, h⟩ := ih
    rw [run, List.foldl_append]
    cases input with
    | stderrEntry =>
      refine ⟨located, ?_⟩
      rw [events, List.filterMap_append, List.filterMap_cons_none rfl, List.filterMap_nil,
        List.append_nil]
      exact ⟨h.placed.congr rfl (Nat.le_succ _), h.tools, h.texts⟩
    | event event =>
      obtain ⟨located', hnext⟩ := h.handle event
      refine ⟨located', ?_⟩
      have hevents : events (inputs ++ [.event event]) = events inputs ++ [event] := by
        rw [events, List.filterMap_append]
        rfl
      have hshown : shownOf x (events inputs ++ [event]) =
          fun id => toldEvent x id (shownOf x (events inputs) id) event := by
        funext id
        rw [shownOf, List.foldl_append]
        rfl
      rw [hevents, hshown]
      simp only [groups_concat]
      exact hnext

variable {x} {id : String} {located : List (Nat × Item Value)}

theorem toldEvent_fst (id : String) (shown : Option (PartialToolCallData Value × ToolStatus))
    (event : AcpEvent Value) :
    (toldEvent x id shown event).map (·.1) = extendData x id (shown.map (·.1)) event := by
  have htitle : (shown.map (·.1)).map PartialToolCallData.title =
      shown.map fun shown => shown.1.title := Option.map_map ..
  rw [toldEvent, extendData, htitle]
  cases toolCallOf x (shown.map fun shown => shown.1.title) event with
  | some tc =>
    dsimp only
    split <;> rfl
  | none =>
    cases answer event with
    | none => rfl
    | some answered =>
      dsimp only
      split
      · exact Option.map_map ..
      · rfl

theorem shownOf_fst (events : List (AcpEvent Value)) (id : String) :
    (shownOf x events id).map (·.1) = toolData x id events := by
  induction events using List.reverseRecOn with
  | nil => rfl
  | append_singleton events event ih =>
    rw [shownOf, toolData, List.foldl_append, List.foldl_append]
    change (toldEvent x id (shownOf x events id) event).map (·.1) =
      extendData x id (toolData x id events) event
    rw [toldEvent_fst, ih]

theorem toldEvent_of_not_concerns (h : ¬ Concerns x id event) : toldEvent x id shown event = shown := by
  rw [toldEvent]
  cases htc : toolCallOf x (shown.map fun shown => shown.1.title) event with
  | some tc => exact if_neg fun hid => h (.inl ⟨_, tc, htc, hid⟩)
  | none =>
    cases hanswer : answer event with
    | none => rfl
    | some answered =>
      obtain ⟨toolCallId, status⟩ := answered
      apply if_neg
      rintro rfl
      exact h (.inr ⟨status, hanswer⟩)

theorem toolCallOf_answer (h : answer event = some answered) (title : Option String) :
    toolCallOf x title event = none := by
  cases event with
  | approvalRequested | approvalResponse => rfl
  | _ => cases h

theorem shownOf_answer (hanswer : answer event = some (id, status))
    (hafter : ∀ event ∈ after, ¬ Concerns x id event) :
    shownOf x (before ++ event :: after) id =
      (shownOf x before id).map fun shown => (shown.1, status) := by
  induction after using List.reverseRecOn with
  | nil =>
    rw [shownOf, List.foldl_append]
    change toldEvent x id (shownOf x before id) event = _
    rw [toldEvent, toolCallOf_answer hanswer, hanswer]
    exact if_pos rfl
  | append_singleton after later ih =>
    rw [← List.cons_append, ← List.append_assoc, shownOf, List.foldl_append]
    change toldEvent x id (shownOf x (before ++ event :: after) id) later = _
    rw [toldEvent_of_not_concerns (hafter later (by simp)),
      ih fun e he => hafter e (List.mem_append_left _ he)]

theorem Groups.after_flatten (group : Groups) (m : Option (Option String)) :
    (group.after m).all.flatten = group.all.flatten ++ m.join.toList := by
  cases m with
  | none => exact (List.append_nil _).symm
  | some chunk =>
    cases chunk with
    | none =>
      change ((group.closed ++ [group.last]) ++ [[]]).flatten = _
      rw [List.flatten_append]
      rfl
    | some chunk =>
      change (group.closed ++ [group.last ++ [chunk]]).flatten = (group.closed ++ [group.last]).flatten ++ [chunk]
      rw [List.flatten_append, List.flatten_append, List.append_assoc, List.flatten_singleton,
        List.flatten_singleton]

theorem groups_flatten (kind : TextKind) (events : List (AcpEvent Value)) :
    (groups x kind events).all.flatten = events.filterMap fun event => (mark x kind event).join := by
  induction events using List.reverseRecOn with
  | nil => rfl
  | append_singleton events event ih =>
    rw [groups_concat, Groups.after_flatten, ih, List.filterMap_append]
    have hsingle : [event].filterMap (fun event => (mark x kind event).join) =
        (mark x kind event).join.toList := by
      rw [List.filterMap_cons, List.filterMap_nil]
      cases (mark x kind event).join <;> rfl
    rw [hsingle]

theorem ToolShown.filterMap (h : ToolShown id located data shown) :
    (located.map (·.2)).filterMap (Item.tool? id) = shown.toList := by
  have htools : (located.map (·.2)).filterMap (Item.tool? id) =
      (located.filterMap (toolAt id)).map (·.2) := by
    rw [List.filterMap_map, List.map_filterMap]
    apply List.filterMap_congr
    intro l _
    rw [toolAt, Option.map_map]
    exact (congrFun Option.map_id _).symm
  rw [htools]
  cases h with
  | unknown h => rw [h]; rfl
  | known index hid h => rw [h]; rfl

theorem TextShown.filterMap (h : TextShown kind located text group) :
    (located.map (·.2)).filterMap (Item.text? kind) = kind.texts group.all := by
  have htexts : (located.map (·.2)).filterMap (Item.text? kind) =
      (located.filterMap (textAt kind)).map (·.2) := by
    rw [List.filterMap_map, List.map_filterMap]
    apply List.filterMap_congr
    intro l _
    rw [textAt, Option.map_map]
    exact (congrFun Option.map_id _).symm
  rw [htexts, Groups.all, kind.texts_append]
  cases h with
  | closed h hlast => rw [h, TextKind.texts_nil hlast, List.append_nil]
  | streamed h hearlier hlast hcontent =>
    rw [h, List.map_append, hearlier, TextKind.texts_singleton hlast]
    rfl

theorem Inv.told {events : List (AcpEvent Value)} (h : Inv x (shownOf x events) (fun kind => groups x kind events) p located) :
    Told x events (located.map (·.2)) := by
  constructor
  · intro id
    rw [← List.map_filterMap, (h.tools id).filterMap, ← shownOf_fst]
    cases shownOf x events id <;> rfl
  · exact fun kind => (h.texts kind).filterMap
  · exact fun kind => groups_flatten kind events
  · intro before event after id status heq hanswer hknown hafter
    rw [← List.map_filterMap, (h.tools id).filterMap, heq, shownOf_answer hanswer hafter]
    rw [← shownOf_fst, Option.isSome_map] at hknown
    obtain ⟨shown, hshown⟩ := Option.isSome_iff_exists.mp hknown
    rw [hshown]
    rfl

theorem handle_call {p : Processor Value} (hid : tc.toolCallId = id)
    (h : toolCallOf x ((p.toolStates id).map PartialToolCallData.title) event = some tc) :
    p.handle x event = p.handleToolCall x tc := by
  cases event with
  | toolCall tc' =>
    cases h
    rfl
  | requestPermission toolCall =>
    rw [toolCallOf] at h
    rw [Processor.handle, Processor.convertAndHandle, h]
  | toolUpdate update =>
    rw [toolCallOf] at h
    have hupdate := (x.tryFrom_id _ _ h).symm.trans hid
    rw [titled_toolCallId] at hupdate
    rw [Processor.handle, hupdate, Processor.convertAndHandle, h]
  | _ => cases h

theorem entries_concat (entryIndex : Nat) (inputs : List (Input Value)) (event : AcpEvent Value)
    (hbefore : toolData x id (events inputs) = none)
    (hafter : (toolData x id (events inputs ++ [event])).isSome) :
    ∃ entry, (run x entryIndex (inputs ++ [.event event])).entries =
      (run x entryIndex inputs).entries ++ [entry] := by
  obtain ⟨located, h⟩ := inv_run x entryIndex inputs
  have hnone : (run x entryIndex inputs).toolStates id = none := by
    have htool := h.tools id
    rw [← shownOf_fst, Option.map_eq_none_iff] at hbefore
    rw [hbefore] at htool
    generalize (run x entryIndex inputs).toolStates id = state at htool
    cases htool
    rfl
  rw [toolData, List.foldl_append] at hafter
  change (extendData x id (toolData x id (events inputs)) event).isSome at hafter
  rw [hbefore, extendData] at hafter
  rw [run, List.foldl_append]
  change ∃ entry, ((run x entryIndex inputs).handle x event).entries = _
  cases htc : toolCallOf x none event with
  | none =>
    rw [Option.map_none, htc] at hafter
    cases hafter
  | some tc =>
    rw [Option.map_none, htc] at hafter
    dsimp only at hafter
    split at hafter
    · next hid =>
      rw [handle_call hid (by rw [hnone]; exact htc), Processor.handleToolCall, hid]
      generalize hp : run x entryIndex inputs = p at hnone
      have hreset : p.resetStreaming.toolStates id = none := hnone
      rw [hreset]
      exact ⟨_, Processor.entries_push ..⟩
    · cases hafter

/-- Each tool has one entry, added at its first event, with the fold of all its updates, and each
text has one, with its consecutive chunks. What an approval says of a tool is shown until the next
event of the tool. -/
theorem entries_told (x : Externals Value) (entryIndex : Nat) (inputs : List (Input Value)) :
    ((run x entryIndex inputs).entries.map (·.1)).Nodup ∧
    (∃ items, (run x entryIndex inputs).entries.map (·.2) = items.map (Item.entry x) ∧
      Told x (events inputs) items) ∧
    ∀ id event, toolData x id (events inputs) = none →
      (toolData x id (events inputs ++ [event])).isSome →
      ∃ entry, (run x entryIndex (inputs ++ [.event event])).entries =
        (run x entryIndex inputs).entries ++ [entry] := by
  obtain ⟨located, h⟩ := inv_run x entryIndex inputs
  refine ⟨?_, ⟨located.map (·.2), ?_, h.told⟩, fun id event => entries_concat entryIndex inputs event⟩
  · rw [h.placed.entries, List.map_map]
    exact h.placed.nodup
  · rw [h.placed.entries, List.map_map, List.map_map]
    rfl

def plainExternals : Externals Unit where
  tryFrom update := update.title.map fun title =>
    { toolCallId := update.toolCallId
      title
      kind := update.kind.getD .other
      status := update.status.getD .pending
      content := update.content.getD []
      locations := update.locations.getD []
      rawInput := update.rawInput
      rawOutput := update.rawOutput }
  tryFrom_id update tc h := by
    obtain ⟨title, -, rfl⟩ := Option.map_eq_some_iff.mp h
    rfl
  tryFrom_title update h := by
    rw [Option.isSome_map]
    exact h
  makePathRelative path := path
  command _ := none
  searchQuery _ := none
  fetchUrl _ := none
  editInput _ := none
  fromStr _ := none
  string _ := ()
  object _ := ()
  extractUrlFromText _ := none
  categoryFromCommand _ := .other
  createUnifiedDiff _ _ new := new
  normalizeUnifiedDiff _ diff := diff

/-- Chunks are lost: a line break that starts a message is. A tool that timed out is shown as created
again by a later update that does not end it. -/
theorem entries_lost :
    (¬ ∀ (inputs : List (Input Unit)) (kind : TextKind),
      String.join (((run plainExternals 0 inputs).entries.filter fun l =>
        l.2.entryType = (kind.entry "" : NormalizedEntry Unit).entryType).map fun l => l.2.content) =
        String.join ((events inputs).filterMap fun event => (mark plainExternals kind event).join)) ∧
    ¬ ∀ (before after : List (Input Unit)) (update : ToolCallUpdate Unit),
      update.status = some .inProgress →
      ∀ l ∈ (run plainExternals 0
        (before ++ .event (.approvalResponse update.toolCallId .timedOut) :: after ++
          [.event (.toolUpdate update)])).entries, l.2.metadata = some update.toolCallId →
        ∀ toolName actionType, l.2.entryType ≠ .toolUse toolName actionType .created := by
  apply And.intro
  · intro h
    have hjoined := h [.event (.message (.text "\n")), .event (.message (.text "a"))] .assistant
    revert hjoined
    decide +kernel
  · intro h
    have hshown := h [.event (.toolUpdate ⟨"t", some "u", none, none, none, none, none, none⟩)] []
      ⟨"t", none, none, some .inProgress, none, none, none, none⟩ rfl
      (0, ⟨.toolUse "u" (.tool "u" none none) .created, "tool: u", some "t"⟩) (by decide +kernel) rfl
    exact hshown "u" (.tool "u" none none) rfl

end Runs

end Cdesktop.AcpEntries
