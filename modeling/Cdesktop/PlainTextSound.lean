import Cdesktop.PlainText

/-! What comes of the output in the entries of a plain text processor. -/

namespace Cdesktop.PlainText
open ClaudeLogs (splitInclusive)
set_option autoImplicit true

theorem splitInclusive_flatten (cs : List Char) : (splitInclusive cs).flatten = cs := by
  induction cs using ClaudeLogs.splitInclusive.induct with
  | case1 => rfl
  | case2 cs ih => exact congrArg ('\n' :: ·) ih
  | case3 c cs hc hsplit ih =>
    rw [splitInclusive, hsplit]
    · rw [hsplit] at ih
      rw [← ih]
      rfl
    · exact hc
  | case4 c cs hc line lines hsplit ih =>
    rw [splitInclusive, hsplit]
    · rw [hsplit] at ih
      rw [← ih]
      rfl
    · exact hc

theorem splitInclusive_ne_nil (h : line ∈ splitInclusive cs) : line ≠ [] := by
  induction cs using ClaudeLogs.splitInclusive.induct with
  | case1 => exact absurd h List.not_mem_nil
  | case2 cs ih =>
    cases h with
    | head => exact List.cons_ne_nil _ _
    | tail _ h => exact ih h
  | case3 c cs hc hsplit ih =>
    rw [splitInclusive, hsplit] at h
    · rw [List.mem_singleton.mp h]
      exact List.cons_ne_nil _ _
    · exact hc
  | case4 c cs hc line' lines hsplit ih =>
    rw [splitInclusive, hsplit] at h
    · cases h with
      | head => exact List.cons_ne_nil _ _
      | tail _ h =>
        apply ih
        rw [hsplit]
        exact List.mem_cons_of_mem _ h
    · exact hc

theorem join_map_ofList (parts : List (List Char)) :
    String.join (parts.map String.ofList) = String.ofList parts.flatten := by
  induction parts with
  | nil => rfl
  | cons part parts ih =>
    rw [List.map_cons, String.join_cons, ih, List.flatten_cons, String.ofList_append]

structure PlainTextBuffer.Valid (b : PlainTextBuffer) : Prop where
  lines : ∀ line ∈ b.lines, line ≠ ""
  totalLen : b.totalLen = (b.lines.map String.utf8ByteSize).sum

def PlainTextBuffer.text (b : PlainTextBuffer) : String := String.join b.lines

theorem utf8ByteSize_join (lines : List String) :
    (String.join lines).utf8ByteSize = (lines.map String.utf8ByteSize).sum := by
  induction lines with
  | nil => rfl
  | cons line lines ih =>
    rw [String.join_cons, String.utf8ByteSize_append, ih]
    rfl

variable {b : PlainTextBuffer}

theorem PlainTextBuffer.Valid.isEmpty_iff (h : b.Valid) :
    b.isEmpty = true ↔ b.lines = [] := by
  rw [PlainTextBuffer.isEmpty, decide_eq_true_iff, h.totalLen]
  constructor
  · intro hsum
    cases hlines : b.lines with
    | nil => rfl
    | cons line lines =>
      rw [hlines, List.map_cons, List.sum_cons] at hsum
      have hline : line.utf8ByteSize = 0 := by omega
      have hne := h.lines line (hlines ▸ List.mem_cons_self)
      exact absurd (String.utf8ByteSize_eq_zero_iff.mp hline) hne
  · intro hlines
    rw [hlines]
    rfl

theorem foldl_sub (lines : List String) (len : Nat) :
    lines.foldl (fun len line => len - line.utf8ByteSize) len =
      len - (lines.map String.utf8ByteSize).sum := by
  induction lines generalizing len with
  | nil => rfl
  | cons line lines ih =>
    rw [List.foldl_cons, ih, List.map_cons, List.sum_cons, Nat.sub_sub]

theorem PlainTextBuffer.Valid.drainLines (h : b.Valid) (n : Nat) :
    (b.drainLines n).2.Valid ∧
      String.join (b.drainLines n).1 ++ (b.drainLines n).2.text = b.text := by
  have hlines := List.take_append_drop (min n b.lines.length) b.lines
  have hjoin := congrArg String.join hlines
  rw [String.join_append] at hjoin
  apply And.intro _ hjoin
  constructor
  · exact fun line hline => h.lines line (List.mem_of_mem_drop hline)
  · have hsum := congrArg (fun lines => (lines.map String.utf8ByteSize).sum) hlines
    rw [List.map_append, List.sum_append] at hsum
    change List.foldl _ _ _ = List.sum (List.map _ (b.lines.drop (min n b.lines.length)))
    rw [foldl_sub, h.totalLen]
    omega

theorem valid_append {lines : List String} {totalLen : Nat}
    (h : PlainTextBuffer.Valid ⟨lines, totalLen⟩) (textChunk : String) :
    PlainTextBuffer.Valid ⟨lines ++ (splitInclusive textChunk.toList).map String.ofList,
      totalLen + textChunk.utf8ByteSize⟩ := by
  constructor
  · intro line hline
    cases List.mem_append.mp hline with
    | inl hline => exact h.lines line hline
    | inr hline =>
      obtain ⟨part, hpart, rfl⟩ := List.mem_map.mp hline
      intro hempty
      apply splitInclusive_ne_nil hpart
      rw [← String.toList_ofList (l := part), hempty]
      rfl
  · dsimp only
    rw [List.map_append, List.sum_append, ← h.totalLen, ← utf8ByteSize_join, join_map_ofList,
      splitInclusive_flatten, String.ofList_toList]

theorem PlainTextBuffer.Valid.ingest (h : b.Valid) (textChunk : String) :
    (b.ingest textChunk).Valid ∧ (b.ingest textChunk).text = b.text ++ textChunk := by
  have hsplit (text : String) :
      String.join ((splitInclusive text.toList).map String.ofList) = text := by
    rw [join_map_ofList, splitInclusive_flatten, String.ofList_toList]
  have hwhole : PlainTextBuffer.Valid
      ⟨b.lines ++ (splitInclusive ("" ++ textChunk).toList).map String.ofList,
        b.totalLen + ("" ++ textChunk).utf8ByteSize⟩ := valid_append h _
  unfold PlainTextBuffer.ingest
  cases hlast : b.lines.getLast? with
  | none =>
    apply And.intro hwhole
    rw [text, String.join_append, hsplit, String.empty_append]
    rfl
  | some last =>
    dsimp only
    split
    · apply And.intro hwhole
      rw [text, String.join_append, hsplit, String.empty_append]
      rfl
    · obtain ⟨lines, hlines⟩ := List.getLast?_eq_some_iff.mp hlast
      have hdrop : b.lines.dropLast = lines := by rw [hlines, List.dropLast_concat]
      have htext : b.text = String.join lines ++ last := by
        rw [text, hlines, String.join_append]
        exact congrArg (_ ++ ·) (String.join_cons.trans String.append_empty)
      have hvalid : PlainTextBuffer.Valid ⟨lines, b.totalLen - last.utf8ByteSize⟩ := by
        constructor
        · exact fun line hline => h.lines line (hlines ▸ List.mem_append_left _ hline)
        · dsimp only
          rw [h.totalLen, hlines, List.map_append, List.sum_append, List.map_singleton,
            List.sum_singleton, Nat.add_sub_cancel]
      rw [hdrop]
      apply And.intro (valid_append hvalid _)
      rw [text, String.join_append, hsplit, htext, String.append_assoc]

theorem EntryIndexProvider.next_lt (provider : EntryIndexProvider) (h : i < j) :
    provider.next i < provider.next j := strictMono_nat_of_lt_succ provider.increasing h

section Process

variable {ε : Type} (make : String → ε) (sizeThreshold timeGap : Option Nat) (provider : EntryIndexProvider)

/-- A processor with no predicate and no functions on the text. Its entries keep the content they
are made of. -/
def plain : Config (String × ε) :=
  .new (fun content => (content, make content)) sizeThreshold timeGap none none none

def entriesFor (contents : List String) : List (Nat × String × ε) :=
  contents.mapIdx fun k content => (provider.next k, content, make content)

structure Tracks (p : PlainTextLogProcessor) (entries : List (Nat × String × ε))
    (contents : List String) : Prop where
  entries : entries = entriesFor make provider contents
  taken : p.taken = contents.length
  current : ∀ index, p.currentEntryIndex = some index →
    ∃ done last, contents = done ++ [last] ∧ index = provider.next done.length

def kept (p : PlainTextLogProcessor) (contents : List String) : List String :=
  if p.currentEntryIndex.isSome then contents.dropLast else contents

theorem entriesFor_concat (contents : List String) (content : String) :
    entriesFor make provider (contents ++ [content]) =
      entriesFor make provider contents ++
        [(provider.next contents.length, content, make content)] := List.mapIdx_concat

theorem entriesFor_prefix (contents contents' : List String) :
    entriesFor make provider contents <+: entriesFor make provider (contents ++ contents') := by
  rw [entriesFor, entriesFor, List.mapIdx_append]
  exact List.prefix_append _ _

theorem index_lt (h : e ∈ entriesFor make provider contents) :
    e.1 < provider.next contents.length := by
  obtain ⟨k, hk, rfl⟩ := List.mem_mapIdx.mp h
  exact provider.next_lt hk

theorem map_content (contents : List String) :
    (entriesFor make provider contents).map (·.2.1) = contents := by
  apply List.ext_getElem
  · rw [List.length_map, entriesFor, List.length_mapIdx]
  · intro i hi _
    simp only [entriesFor, List.getElem_map, List.getElem_mapIdx]

variable {make provider} {written : List (Nat × String × ε)}
  {p : PlainTextLogProcessor} {contents : List String}

theorem applyPatch_replace (done : List String) (last content : String) :
    applyPatch (entriesFor make provider (done ++ [last]))
      (.replace (provider.next done.length) (content, make content)) =
      entriesFor make provider (done ++ [content]) := by
  rw [entriesFor_concat, entriesFor_concat, applyPatch, List.map_append, List.map_singleton,
    if_pos rfl, List.append_left_inj]
  have hkeep : ∀ e ∈ entriesFor make provider done,
      (if e.1 = provider.next done.length then (provider.next done.length, content, make content)
        else e) = id e :=
    fun e he => if_neg (Nat.ne_of_lt (index_lt make provider he))
  exact (List.map_congr_left hkeep).trans (List.map_id _)

theorem Tracks.createPatch (h : Tracks make provider p written contents) (lines : List String) :
    Tracks make provider (createPatch (plain make sizeThreshold timeGap) provider lines p).2
      (applyPatch written (createPatch (plain make sizeThreshold timeGap) provider lines p).1)
      (kept p contents ++ [String.join lines]) ∧
    (createPatch (plain make sizeThreshold timeGap) provider lines p).2.currentEntryIndex.isSome := by
  unfold PlainText.createPatch kept
  cases hcurrent : p.currentEntryIndex with
  | some index =>
    obtain ⟨done, last, rfl, rfl⟩ := h.current index hcurrent
    rw [Option.isSome_some, if_pos rfl, List.dropLast_concat]
    apply And.intro _ (by rw [hcurrent]; rfl)
    constructor
    · rw [h.entries]
      exact applyPatch_replace done last (String.join lines)
    · rw [h.taken, List.length_append, List.length_append]
      rfl
    · intro index hindex
      rw [hcurrent] at hindex
      exact ⟨done, String.join lines, rfl, (Option.some.inj hindex).symm⟩
  | none =>
    rw [Option.isSome_none, if_neg Bool.false_ne_true]
    apply And.intro _ rfl
    constructor
    · rw [entriesFor_concat, ← h.entries, ← h.taken]
      rfl
    · dsimp only
      rw [List.length_append, h.taken]
      rfl
    · intro index hindex
      apply Exists.intro contents
      apply Exists.intro (String.join lines)
      rw [← h.taken]
      exact ⟨rfl, (Option.some.inj hindex).symm⟩

theorem Tracks.of_eq (h : Tracks make provider p written contents)
    (hcurrent : p'.currentEntryIndex = p.currentEntryIndex) (htaken : p'.taken = p.taken) :
    Tracks make provider p' written contents :=
  ⟨h.entries, htaken.trans h.taken, fun index hindex => h.current index (hcurrent ▸ hindex)⟩

theorem Tracks.conclude (h : Tracks make provider p written contents)
    (drained : List String × PlainTextBuffer) :
    Tracks make provider (conclude (plain make sizeThreshold timeGap) provider drained p).2
      (applyPatch written (conclude (plain make sizeThreshold timeGap) provider drained p).1)
      (kept p contents ++ [String.join drained.1]) := by
  have hdrained : Tracks make provider { p with buffer := drained.2 } written contents :=
    h.of_eq rfl rfl
  obtain ⟨hentries, htaken, -⟩ :=
    (hdrained.createPatch sizeThreshold timeGap drained.1).1
  exact ⟨hentries, htaken, nofun⟩

theorem kept_of_none (h : p.currentEntryIndex = none) (contents : List String) :
    kept p contents = contents := by
  rw [kept, h]
  rfl

theorem linesToDrain_ge (len drainedLen lines : Nat) (rest : List String) :
    lines ≤ linesToDrain len drainedLen lines rest := by
  induction rest generalizing drainedLen lines with
  | nil => exact Nat.le_refl _
  | cons line rest ih =>
    rw [linesToDrain]
    split
    · exact Nat.le_refl _
    · exact Nat.le_of_succ_le (ih _ _)

theorem drainSize_eq_nil (h : (b.drainSize len).1 = []) : b.lines = [] := by
  cases hlines : b.lines with
  | nil => rfl
  | cons line lines =>
    change b.lines.take (min (linesToDrain len 0 0 b.lines) b.lines.length) = [] at h
    rw [hlines, linesToDrain, if_neg fun h => absurd h.2 (Nat.lt_irrefl 0)] at h
    have hone := linesToDrain_ge len (0 + line.utf8ByteSize) (0 + 1) lines
    have hlength := congrArg List.length h
    rw [List.length_take, List.length_cons, List.length_nil] at hlength
    omega

theorem Tracks.splitSizes (h : Tracks make provider p written contents) (hbuffer : p.buffer.Valid)
    (hclosed : p.buffer.lines = [] → p.currentEntryIndex = none) (threshold : Nat) :
    ∃ patches p' contents' pieces,
      splitSizes (plain make sizeThreshold timeGap) provider threshold p = (patches, p') ∧
      Tracks make provider p' (patches.foldl applyPatch written) contents' ∧
      kept p' contents' = kept p contents ++ pieces ∧
      String.join pieces ++ p'.buffer.text = p.buffer.text ∧ p'.buffer.Valid ∧
      (p'.buffer.lines = [] → p'.currentEntryIndex = none) ∧
      p'.lastChunkArrivalTime = p.lastChunkArrivalTime := by
  induction hn : p.buffer.lines.length using Nat.strong_induction_on generalizing p written contents with
  | _ n ih =>
  subst hn
  obtain ⟨hdrained, htext⟩ := hbuffer.drainLines (linesToDrain threshold 0 0 p.buffer.lines)
  change String.join (p.buffer.drainSize threshold).1 ++ (p.buffer.drainSize threshold).2.text = _
    at htext
  rw [PlainText.splitSizes]
  split
  · dsimp only
    split
    · next hnil =>
      have hlines := drainSize_eq_nil hnil
      have hdrained' : Tracks make provider
          { p with buffer := (p.buffer.drainSize threshold).2 } written contents := h.of_eq rfl rfl
      rw [hnil] at htext
      exact ⟨[], _, contents, [], rfl, hdrained', (List.append_nil _).symm, htext, hdrained,
        fun _ => hclosed hlines, rfl⟩
    · next hne =>
      have hconclude := h.conclude sizeThreshold timeGap
        (p.buffer.drainSize threshold)
      generalize hconcluded : PlainText.conclude (plain make sizeThreshold timeGap) provider
        (p.buffer.drainSize threshold) p = concluded at hconclude
      have hbuffer' : concluded.2.buffer = (p.buffer.drainSize threshold).2 := by
        rw [← hconcluded]
        exact conclude_buffer _ _ _ _
      have hcurrent : concluded.2.currentEntryIndex = none := by
        rw [← hconcluded]
        rfl
      have htime : concluded.2.lastChunkArrivalTime = p.lastChunkArrivalTime := by
        rw [← hconcluded]
        unfold PlainText.conclude PlainText.createPatch
        dsimp only
        split <;> rfl
      have hlength : concluded.2.buffer.lines.length < p.buffer.lines.length := by
        rw [hbuffer']
        exact drainLines_length hne
      obtain ⟨patches, p', contents', pieces, hsplit, htracks, hkept, htext', hvalid, hclosed',
        htime'⟩ := ih _ hlength hconclude (hbuffer' ▸ hdrained) (fun _ => hcurrent) rfl
      rw [kept_of_none hcurrent, List.append_assoc] at hkept
      rw [hsplit]
      have hpieces : String.join (String.join (p.buffer.drainSize threshold).1 :: pieces) ++
          p'.buffer.text = p.buffer.text := by
        rw [String.join_cons, String.append_assoc, htext', hbuffer', htext]
      exact ⟨_, p', contents', _, rfl, htracks, hkept, hpieces, hvalid, hclosed',
        htime'.trans htime⟩
  · exact ⟨[], p, contents, [], rfl, h, (List.append_nil _).symm, String.empty_append, hbuffer,
      hclosed, rfl⟩

theorem Tracks.splitBySize (h : Tracks make provider p written contents)
    (hbuffer : p.buffer.Valid) (hne : p.buffer.lines ≠ []) :
    ∃ patches p' contents' pieces,
      splitBySize (plain make sizeThreshold timeGap) provider p = (patches, p') ∧
      Tracks make provider p' (patches.foldl applyPatch written) contents' ∧
      kept p' contents' = kept p contents ++ pieces ∧
      String.join pieces ++ p'.buffer.text = p.buffer.text ∧ p'.buffer.Valid ∧
      (p'.buffer.lines = [] → p'.currentEntryIndex = none) ∧
      p'.lastChunkArrivalTime = p.lastChunkArrivalTime := by
  unfold PlainText.splitBySize
  split
  · exact h.splitSizes sizeThreshold timeGap hbuffer (fun hnil => absurd hnil hne) _
  · exact ⟨[], p, contents, [], rfl, h, (List.append_nil _).symm, String.empty_append, hbuffer,
      fun hnil => absurd hnil hne, rfl⟩

/-- Where the processor stands between two chunks: what it buffers is the content of the entry that
is written to. -/
structure Ready (p : PlainTextLogProcessor) (contents : List String) : Prop where
  valid : p.buffer.Valid
  open' : p.buffer.lines ≠ [] → p.currentEntryIndex.isSome ∧
    ∃ done, contents = done ++ [p.buffer.text]

def Closed (p : PlainTextLogProcessor) : Prop :=
  p.buffer.lines = [] → p.currentEntryIndex = none

theorem createPatch_time (c : Config ε) (lines : List String) (p : PlainTextLogProcessor) :
    (createPatch c provider lines p).2.lastChunkArrivalTime = p.lastChunkArrivalTime := by
  unfold PlainText.createPatch
  split <;> rfl

theorem Tracks.emit (h : Tracks make provider p written contents) (hbuffer : p.buffer.Valid)
    (hne : p.buffer.lines ≠ []) :
    ∃ patches p' pieces,
      emit (plain make sizeThreshold timeGap) provider [] p = (patches, p') ∧
      Tracks make provider p' (patches.foldl applyPatch written) (kept p contents ++ pieces) ∧
      String.join pieces = p.buffer.text ∧ Ready p' (kept p contents ++ pieces) ∧ Closed p' ∧
      p'.lastChunkArrivalTime = p.lastChunkArrivalTime := by
  obtain ⟨patches, p', contents', pieces, hsplit, htracks, hkept, htext, hvalid, hclosed, htime⟩ :=
    h.splitBySize sizeThreshold timeGap hbuffer hne
  unfold PlainText.emit
  rw [hsplit]
  dsimp only
  split
  · next hempty =>
    have hlines := hvalid.isEmpty_iff.mp hempty
    rw [kept_of_none (hclosed hlines)] at hkept
    have htext' : String.join pieces = p.buffer.text := by
      rw [← htext, PlainTextBuffer.text, hlines]
      exact String.append_empty.symm
    rw [hkept] at htracks
    exact ⟨patches, p', pieces, rfl, htracks, htext', ⟨hvalid, fun hne => absurd hlines hne⟩,
      hclosed, htime⟩
  · next hempty =>
    have hlines : p'.buffer.lines ≠ [] := fun hnil => hempty (hvalid.isEmpty_iff.mpr hnil)
    obtain ⟨hcreated, hcurrent⟩ := htracks.createPatch sizeThreshold timeGap
      p'.buffer.lines
    rw [hkept, List.append_assoc] at hcreated
    have hbuffer' := createPatch_buffer (plain make sizeThreshold timeGap) provider p'.buffer.lines p'
    have htext' : String.join (pieces ++ [p'.buffer.text]) = p.buffer.text := by
      rw [String.join_append, ← htext]
      exact congrArg (_ ++ ·) (String.join_cons.trans String.append_empty)
    have hready : Ready (PlainText.createPatch (plain make sizeThreshold timeGap) provider
        p'.buffer.lines p').2 (kept p contents ++ (pieces ++ [p'.buffer.text])) := by
      constructor
      · rw [hbuffer']
        exact hvalid
      · rw [hbuffer']
        exact fun _ => ⟨hcurrent, _, (List.append_assoc ..).symm⟩
    have hclosed' : Closed (PlainText.createPatch (plain make sizeThreshold timeGap) provider
        p'.buffer.lines p').2 := by
      intro hnil
      rw [hbuffer'] at hnil
      exact absurd hnil hlines
    rw [← List.foldl_concat (f := applyPatch)] at hcreated
    exact ⟨_, _, _, rfl, hcreated, htext', hready, hclosed', (createPatch_time _ _ _).trans htime⟩

def Late (timeGap : Option Nat) (chunk : Chunk) (p : PlainTextLogProcessor) : Prop :=
  chunk.text ≠ "" ∧ ¬ p.buffer.isEmpty ∧
    timeGap.any fun timeGap => decide (timeGap ≤ chunk.arrival - p.lastChunkArrivalTime)

instance (timeGap : Option Nat) (chunk : Chunk) (p : PlainTextLogProcessor) :
    Decidable (Late timeGap chunk p) := inferInstanceAs (Decidable (_ ∧ _ ∧ _))

theorem splitMessages_plain (p : PlainTextLogProcessor) :
    splitMessages (plain make sizeThreshold timeGap) provider p = some ([], p, false) := by
  rw [splitMessages]
  rfl

theorem plain_formatChunk : (plain make sizeThreshold timeGap).formatChunk = none := rfl

theorem plain_transformLines : (plain make sizeThreshold timeGap).transformLines = none := rfl

theorem plain_timeGap : (plain make sizeThreshold timeGap).timeGap = timeGap := rfl

theorem accept_plain (hchunk : chunk.text ≠ "") (p : PlainTextLogProcessor) :
    accept (plain make sizeThreshold timeGap) provider chunk p =
      some (emit (plain make sizeThreshold timeGap) provider []
        { p with lastChunkArrivalTime := chunk.arrival, buffer := p.buffer.ingest chunk.text }) := by
  unfold accept
  simp only [plain_formatChunk, plain_transformLines, if_neg hchunk, Option.isSome_none,
    Bool.false_eq_true, false_and, if_false, splitMessages_plain]

theorem Tracks.process (h : Tracks make provider p written contents) (hready : Ready p contents)
    (hchunk : chunk.text ≠ "") (hlate : ¬ Late timeGap chunk p) :
    ∃ patches p' pieces,
      process (plain make sizeThreshold timeGap) provider chunk p = some (patches, p') ∧
      Tracks make provider p' (patches.foldl applyPatch written) (kept p contents ++ pieces) ∧
      String.join pieces = p.buffer.text ++ chunk.text ∧
      Ready p' (kept p contents ++ pieces) ∧ Closed p' := by
  obtain ⟨hvalid, htext⟩ := hready.valid.ingest chunk.text
  have hne : (p.buffer.ingest chunk.text).lines ≠ [] := by
    intro hnil
    rw [PlainTextBuffer.text, hnil] at htext
    have hsize := congrArg String.utf8ByteSize htext
    rw [String.utf8ByteSize_append] at hsize
    have hzero : chunk.text.utf8ByteSize = 0 := by
      change 0 = _ at hsize
      omega
    exact hchunk (String.utf8ByteSize_eq_zero_iff.mp hzero)
  have hingest : Tracks make provider
      { p with lastChunkArrivalTime := chunk.arrival, buffer := p.buffer.ingest chunk.text }
      written contents := h.of_eq rfl rfl
  obtain ⟨patches, p', pieces, hemit, htracks, hpieces, hready', hclosed, -⟩ :=
    hingest.emit sizeThreshold timeGap hvalid hne
  have hprocess : PlainText.process (plain make sizeThreshold timeGap) provider chunk p =
      some (patches, p') := by
    unfold PlainText.process
    rw [if_neg hchunk, plain_timeGap, if_neg fun h => hlate ⟨hchunk, h⟩, accept_plain sizeThreshold timeGap hchunk, hemit]
  exact ⟨patches, p', pieces, hprocess, htracks, hpieces.trans htext, hready', hclosed⟩

theorem Tracks.process_late (h : Tracks make provider p written contents)
    (hready : Ready p contents) (hlate : Late timeGap chunk p) :
    ∃ patches p',
      PlainText.process (plain make sizeThreshold timeGap) provider chunk p = some (patches, p') ∧
      Tracks make provider p' (patches.foldl applyPatch written) contents ∧ Ready p' contents := by
  obtain ⟨hchunk, hbuffer⟩ := hlate
  have hlines : p.buffer.lines ≠ [] := fun hnil => hbuffer.1 (hready.valid.isEmpty_iff.mpr hnil)
  obtain ⟨hcurrent, done, hdone⟩ := hready.open' hlines
  have hflush : Tracks make provider { p with buffer := ⟨[], 0⟩ } written contents :=
    h.of_eq rfl rfl
  have hcreated := (hflush.createPatch sizeThreshold timeGap
    p.buffer.lines).1
  have hkept : kept { p with buffer := ⟨[], 0⟩ } contents ++ [String.join p.buffer.lines] =
      contents := by
    rw [kept, if_pos hcurrent, hdone, List.dropLast_concat]
    rfl
  rw [hkept] at hcreated
  have hbuffer' := createPatch_buffer (plain make sizeThreshold timeGap) provider p.buffer.lines
    { p with buffer := ⟨[], 0⟩ }
  have hready' : Ready (PlainText.createPatch (plain make sizeThreshold timeGap) provider
      p.buffer.lines { p with buffer := ⟨[], 0⟩ }).2 contents := by
    constructor
    · rw [hbuffer']
      exact ⟨nofun, rfl⟩
    · rw [hbuffer']
      exact fun hne => absurd rfl hne
  have hprocess : PlainText.process (plain make sizeThreshold timeGap) provider chunk p =
      some ([(PlainText.createPatch (plain make sizeThreshold timeGap) provider p.buffer.lines
        { p with buffer := ⟨[], 0⟩ }).1], (PlainText.createPatch
        (plain make sizeThreshold timeGap) provider p.buffer.lines
        { p with buffer := ⟨[], 0⟩ }).2) := by
    unfold PlainText.process
    rw [if_neg hchunk, plain_timeGap, if_pos hbuffer]
    exact if_pos hlines
  exact ⟨_, _, hprocess, hcreated, hready'⟩

theorem text_of_nil (h : b.lines = []) : b.text = "" := by
  rw [PlainTextBuffer.text, h]
  rfl

theorem prefix_kept (p : PlainTextLogProcessor) (contents : List String) :
    kept p contents <+: contents := by
  unfold kept
  split
  · exact List.dropLast_prefix contents
  · exact List.prefix_refl contents

theorem join_concat (contents : List String) (content : String) :
    String.join (contents ++ [content]) = String.join contents ++ content := by
  rw [String.join_append]
  exact congrArg (_ ++ ·) (String.join_cons.trans String.append_empty)

theorem kept_le (p : PlainTextLogProcessor) (contents : List String) :
    (String.join (kept p contents)).utf8ByteSize ≤ (String.join contents).utf8ByteSize := by
  unfold kept
  split
  · obtain rfl | ⟨done, last, rfl⟩ := List.eq_nil_or_concat contents
    · exact Nat.le_refl _
    · rw [List.concat_eq_append, List.dropLast_concat, join_concat, String.utf8ByteSize_append]
      exact Nat.le_add_right _ _
  · exact Nat.le_refl _

theorem Ready.size_le (h : Ready p contents) :
    (String.join (kept p contents)).utf8ByteSize + p.buffer.text.utf8ByteSize ≤
      (String.join contents).utf8ByteSize := by
  by_cases hlines : p.buffer.lines = []
  · rw [text_of_nil hlines]
    exact kept_le p contents
  · obtain ⟨hcurrent, done, hdone⟩ := h.open' hlines
    rw [kept, if_pos hcurrent, hdone, List.dropLast_concat, join_concat,
      String.utf8ByteSize_append]

theorem Ready.join_kept (h : Ready p contents) (hclosed : Closed p) :
    String.join (kept p contents) ++ p.buffer.text = String.join contents := by
  by_cases hlines : p.buffer.lines = []
  · rw [text_of_nil hlines, kept_of_none (hclosed hlines), String.append_empty]
  · obtain ⟨hcurrent, done, hdone⟩ := h.open' hlines
    rw [kept, if_pos hcurrent, hdone, List.dropLast_concat, join_concat]

def size (chunks : List Chunk) : Nat := (chunks.map (·.text.utf8ByteSize)).sum

def InTime (c : Config ε') (provider : EntryIndexProvider) :
    List Chunk → PlainTextLogProcessor → Prop
  | [], _ => True
  | chunk :: chunks, p => ¬ Late c.timeGap chunk p ∧
      ∀ patches p', PlainText.process c provider chunk p = some (patches, p') →
        InTime c provider chunks p'

theorem processAll_cons (c : Config ε') (h : PlainText.process c provider chunk p = some (patches, p'))
    (hrest : processAll c provider chunks p' = some (patches', p'')) :
    processAll c provider (chunk :: chunks) p = some (patches ++ patches', p'') := by
  rw [processAll, h]
  change (processAll c provider chunks p').bind _ = _
  rw [hrest]
  rfl

theorem inTime_cons (c : Config ε') (chunks : List Chunk)
    (h : PlainText.process c provider chunk p = some (patches, p')) :
    InTime c provider (chunk :: chunks) p ↔
      ¬ Late c.timeGap chunk p ∧ InTime c provider chunks p' := by
  apply and_congr_right
  intro _
  constructor
  · exact fun hin => hin patches p' h
  · intro hin patches' p'' h'
    obtain ⟨-, rfl⟩ := Prod.mk.inj (Option.some.inj (h.symm.trans h'))
    exact hin

theorem Tracks.step (h : Tracks make provider p written contents) (hready : Ready p contents)
    (chunk : Chunk) :
    ∃ patches p' contents',
      PlainText.process (plain make sizeThreshold timeGap) provider chunk p = some (patches, p') ∧
      Tracks make provider p' (patches.foldl applyPatch written) contents' ∧ Ready p' contents' ∧
      (String.join contents').utf8ByteSize ≤
        (String.join contents).utf8ByteSize + chunk.text.utf8ByteSize ∧
      (Late timeGap chunk p → (String.join contents').utf8ByteSize <
        (String.join contents).utf8ByteSize + chunk.text.utf8ByteSize) ∧
      (¬ Late timeGap chunk p → Closed p → Closed p' ∧
        String.join contents' = String.join contents ++ chunk.text ∧
        kept p contents <+: kept p' contents') := by
  by_cases hchunk : chunk.text = ""
  · have hprocess : PlainText.process (plain make sizeThreshold timeGap) provider chunk p =
        some ([], p) := if_pos hchunk
    rw [hchunk]
    exact ⟨[], p, contents, hprocess, h, hready, Nat.le_refl _, fun hlate => absurd hchunk hlate.1,
      fun _ hclosed => ⟨hclosed, String.append_empty.symm, List.prefix_refl _⟩⟩
  by_cases hlate : Late timeGap chunk p
  · obtain ⟨patches, p', hprocess, htracks, hready'⟩ := h.process_late sizeThreshold timeGap
      hready hlate
    have hpos : 0 < chunk.text.utf8ByteSize :=
      Nat.pos_of_ne_zero fun hzero => hchunk (String.utf8ByteSize_eq_zero_iff.mp hzero)
    exact ⟨patches, p', contents, hprocess, htracks, hready', Nat.le_add_right _ _,
      fun _ => Nat.lt_add_of_pos_right hpos, fun hnot => absurd hlate hnot⟩
  · obtain ⟨patches, p', pieces, hprocess, htracks, hpieces, hready', hclosed'⟩ := h.process sizeThreshold timeGap
      hready hchunk hlate
    have hsize := hready.size_le
    have hle : (String.join (kept p contents ++ pieces)).utf8ByteSize ≤
        (String.join contents).utf8ByteSize + chunk.text.utf8ByteSize := by
      rw [String.join_append, hpieces, String.utf8ByteSize_append, String.utf8ByteSize_append]
      omega
    have hjoin (hclosed : Closed p) : String.join (kept p contents ++ pieces) =
        String.join contents ++ chunk.text := by
      rw [String.join_append, hpieces, ← String.append_assoc, hready.join_kept hclosed]
    have hkept : kept p contents <+: kept p' (kept p contents ++ pieces) := by
      have hne : pieces ≠ [] := by
        intro hnil
        rw [hnil] at hpieces
        have hempty := (String.append_eq_empty_iff.mp hpieces.symm).2
        exact hchunk hempty
      generalize kept p contents = base
      unfold kept
      split
      · rw [List.dropLast_append_of_ne_nil hne]
        exact List.prefix_append _ _
      · exact List.prefix_append _ _
    exact ⟨patches, p', _, hprocess, htracks, hready', hle, fun h => absurd h hlate,
      fun _ hclosed => ⟨hclosed', hjoin hclosed, hkept⟩⟩

theorem Tracks.run (h : Tracks make provider p written contents) (hready : Ready p contents)
    (chunks : List Chunk) :
    ∃ patches p' contents',
      processAll (plain make sizeThreshold timeGap) provider chunks p = some (patches, p') ∧
      Tracks make provider p' (patches.foldl applyPatch written) contents' ∧
      (String.join contents').utf8ByteSize ≤ (String.join contents).utf8ByteSize + size chunks ∧
      (¬ InTime (plain make sizeThreshold timeGap) provider chunks p →
        (String.join contents').utf8ByteSize <
          (String.join contents).utf8ByteSize + size chunks) ∧
      (InTime (plain make sizeThreshold timeGap) provider chunks p → Closed p →
        Ready p' contents' ∧ Closed p' ∧
        String.join contents' = String.join contents ++ String.join (chunks.map Chunk.text) ∧
        kept p contents <+: kept p' contents') := by
  induction chunks generalizing p written contents with
  | nil =>
    exact ⟨[], p, contents, rfl, h, Nat.le_refl _, fun hnot => absurd trivial hnot,
      fun _ hclosed => ⟨hready, hclosed, String.append_empty.symm, List.prefix_refl _⟩⟩
  | cons chunk chunks ih =>
    obtain ⟨patches, p', contents', hprocess, htracks, hready', hle, hlt, hstep⟩ :=
      h.step sizeThreshold timeGap hready chunk
    obtain ⟨patches', p'', contents'', hrun, htracks', hle', hlt', hrest⟩ := ih htracks hready'
    rw [← List.foldl_append] at htracks'
    have hsize : size (chunk :: chunks) = chunk.text.utf8ByteSize + size chunks := rfl
    have htime := inTime_cons (plain make sizeThreshold timeGap) chunks hprocess
    have hall : (String.join contents'').utf8ByteSize ≤
        (String.join contents).utf8ByteSize + size (chunk :: chunks) := by omega
    have hless (hnot : ¬ InTime (plain make sizeThreshold timeGap) provider (chunk :: chunks) p) :
        (String.join contents'').utf8ByteSize <
          (String.join contents).utf8ByteSize + size (chunk :: chunks) := by
      by_cases hlate : Late timeGap chunk p
      · have hchunk := hlt hlate
        omega
      · have hlater := hlt' fun hrest => hnot (htime.mpr ⟨hlate, hrest⟩)
        omega
    have hwhole (hin : InTime (plain make sizeThreshold timeGap) provider (chunk :: chunks) p)
        (hclosed : Closed p) : Ready p'' contents'' ∧ Closed p'' ∧
          String.join contents'' = String.join contents ++
            String.join ((chunk :: chunks).map Chunk.text) ∧
          kept p contents <+: kept p'' contents'' := by
      obtain ⟨hlate, hin'⟩ := htime.mp hin
      obtain ⟨hclosed', hjoin, hkept⟩ := hstep hlate hclosed
      obtain ⟨hready'', hclosed'', hjoin', hkept'⟩ := hrest hin' hclosed'
      rw [List.map_cons, String.join_cons, ← String.append_assoc, ← hjoin]
      exact ⟨hready'', hclosed'', hjoin', hkept.trans hkept'⟩
    exact ⟨_, p'', contents'', processAll_cons _ hprocess hrun, htracks', hall, hless, hwhole⟩

theorem processAll_inv (c : Config ε')
    (h : processAll c provider (chunk :: chunks) p = some (patches, p'')) :
    ∃ patches₁ p' patches₂, PlainText.process c provider chunk p = some (patches₁, p') ∧
      processAll c provider chunks p' = some (patches₂, p'') ∧ patches = patches₁ ++ patches₂ := by
  rw [processAll] at h
  obtain ⟨⟨patches₁, p'⟩, hprocess, h⟩ := Option.bind_eq_some_iff.mp h
  obtain ⟨⟨patches₂, p₂⟩, hrest, h⟩ := Option.bind_eq_some_iff.mp h
  obtain ⟨rfl, rfl⟩ := Prod.mk.inj (Option.some.inj h)
  exact ⟨patches₁, p', patches₂, hprocess, hrest, rfl⟩

theorem processAll_append (c : Config ε')
    (h : processAll c provider before p = some (patches, p'))
    (hafter : processAll c provider after p' = some (patches', p'')) :
    processAll c provider (before ++ after) p = some (patches ++ patches', p'') := by
  induction before generalizing p patches with
  | nil =>
    obtain ⟨rfl, rfl⟩ := Prod.mk.inj (Option.some.inj h)
    exact hafter
  | cons chunk before ih =>
    obtain ⟨patches₁, p₁, patches₂, hprocess, hrest, rfl⟩ := processAll_inv c h
    rw [List.append_assoc]
    exact processAll_cons c hprocess (ih hrest)

theorem inTime_append (c : Config ε')
    (h : processAll c provider before p = some (patches, p')) :
    InTime c provider (before ++ after) p ↔
      InTime c provider before p ∧ InTime c provider after p' := by
  induction before generalizing p patches with
  | nil =>
    obtain ⟨-, rfl⟩ := Prod.mk.inj (Option.some.inj h)
    exact (and_iff_right trivial).symm
  | cons chunk before ih =>
    obtain ⟨patches₁, p₁, patches₂, hprocess, hrest, -⟩ := processAll_inv c h
    rw [List.cons_append, inTime_cons c _ hprocess, inTime_cons c _ hprocess, ih hrest, and_assoc]

end Process

def finished (p : PlainTextLogProcessor) (entries : List (Nat × ε)) : List (Nat × ε) :=
  if p.buffer.isEmpty then entries else entries.dropLast

/-- The contents of the entries in the order of their indexes are the output, and no chunk changes
an entry that was finished. -/
structure Keeps (c : Config (String × ε)) (provider : EntryIndexProvider) (start : Nat)
    (chunks : List Chunk) : Prop where
  whole : ∀ patches p, processAll c provider chunks (.new start) = some (patches, p) →
    String.join ((entriesOf patches).map (·.2.1)) = String.join (chunks.map Chunk.text)
  kept : ∀ before after, chunks = before ++ after → ∀ patches p patches' p',
    processAll c provider before (.new start) = some (patches, p) →
    processAll c provider chunks (.new start) = some (patches', p') →
    finished p (entriesOf patches) <+: entriesOf patches'

section Run

variable {ε : Type} {make : String → ε} {sizeThreshold timeGap : Option Nat}
  {provider : EntryIndexProvider}

theorem tracks_new (make : String → ε) (provider : EntryIndexProvider) (start : Nat) :
    Tracks make provider (.new start) [] [] := ⟨rfl, rfl, nofun⟩

theorem ready_new (start : Nat) : Ready (.new start) [] :=
  ⟨⟨nofun, rfl⟩, fun hne => absurd rfl hne⟩

theorem entriesFor_ordered (contents : List String) :
    (entriesFor make provider contents).Pairwise fun e e' => e.1 < e'.1 := by
  induction contents using List.reverseRecOn with
  | nil => exact .nil
  | append_singleton contents content ih =>
    rw [entriesFor_concat]
    apply List.pairwise_append.mpr
    apply And.intro ih
    apply And.intro (List.pairwise_singleton _ _)
    intro e he e' he'
    rw [List.mem_singleton.mp he']
    exact index_lt make provider he

theorem finished_eq (h : Tracks make provider p written contents) (hready : Ready p contents)
    (hclosed : Closed p) : finished p written = entriesFor make provider (kept p contents) := by
  unfold finished
  rw [h.entries]
  by_cases hlines : p.buffer.lines = []
  · rw [if_pos (hready.valid.isEmpty_iff.mpr hlines), kept_of_none (hclosed hlines)]
  · obtain ⟨hcurrent, done, hdone⟩ := hready.open' hlines
    have hnot : ¬ p.buffer.isEmpty = true := fun hempty =>
      hlines (hready.valid.isEmpty_iff.mp hempty)
    rw [if_neg hnot, kept, if_pos hcurrent, hdone, List.dropLast_concat, entriesFor_concat,
      List.dropLast_concat]

theorem keeps_of_inTime (h : InTime (plain make sizeThreshold timeGap) provider chunks (.new start)) :
    Keeps (plain make sizeThreshold timeGap) provider start chunks := by
  have hclosed : Closed (.new start) := fun _ => rfl
  constructor
  · intro patches p hrun
    obtain ⟨patches', p', contents, hrun', htracks, -, -, hin⟩ :=
      (tracks_new make provider start).run sizeThreshold timeGap
        (ready_new start) chunks
    obtain ⟨rfl, rfl⟩ := Prod.mk.inj (Option.some.inj (hrun.symm.trans hrun'))
    obtain ⟨-, -, hjoin, -⟩ := hin h hclosed
    rw [entriesOf, htracks.entries, map_content, hjoin]
    exact String.empty_append
  · intro before after heq patches p patches' p' hbefore hrun
    rw [heq] at h
    obtain ⟨hinbefore, hinafter⟩ := (inTime_append _ hbefore).mp h
    obtain ⟨patches₁, p₁, contents₁, hrun₁, htracks₁, -, -, hin₁⟩ :=
      (tracks_new make provider start).run sizeThreshold timeGap
        (ready_new start) before
    obtain ⟨rfl, rfl⟩ := Prod.mk.inj (Option.some.inj (hbefore.symm.trans hrun₁))
    obtain ⟨hready₁, hclosed₁, -, -⟩ := hin₁ hinbefore hclosed
    obtain ⟨patches₂, p₂, contents₂, hrun₂, htracks₂, -, -, hin₂⟩ :=
      htracks₁.run sizeThreshold timeGap hready₁ after
    obtain ⟨hready₂, hclosed₂, -, hkept⟩ := hin₂ hinafter hclosed₁
    have hall := processAll_append _ hbefore hrun₂
    rw [heq] at hrun
    obtain ⟨rfl, rfl⟩ := Prod.mk.inj (Option.some.inj (hrun.symm.trans hall))
    rw [entriesOf, finished_eq htracks₁ hready₁ hclosed₁, entriesOf, List.foldl_append,
      htracks₂.entries]
    obtain ⟨rest, hrest⟩ := hkept.trans (prefix_kept p' contents₂)
    rw [← hrest]
    exact entriesFor_prefix _ _ _ _

/-- The entries of a run hold the output if and only if no chunk comes late while something is
buffered: such a chunk is dropped. -/
theorem keeps_iff (start : Nat) (chunks : List Chunk) :
    Keeps (plain make sizeThreshold timeGap) provider start chunks ↔
      InTime (plain make sizeThreshold timeGap) provider chunks (.new start) := by
  constructor
  · intro hkeeps
    by_contra hnot
    obtain ⟨patches, p, contents, hrun, htracks, -, hless, -⟩ :=
      (tracks_new make provider start).run sizeThreshold timeGap
        (ready_new start) chunks
    have hwhole := hkeeps.whole patches p hrun
    rw [entriesOf, htracks.entries, map_content] at hwhole
    have hlt := hless hnot
    have hsize : (String.join (chunks.map Chunk.text)).utf8ByteSize = size chunks := by
      rw [utf8ByteSize_join, List.map_map]
      rfl
    rw [hwhole, hsize] at hlt
    have hzero : (String.join []).utf8ByteSize = 0 := rfl
    omega
  · exact keeps_of_inTime

/-- A run has an end and numbers its entries in order, and they hold the output, and keep it, if and
only if no chunk comes late while something is buffered. -/
theorem process_keeps_iff (make : String → ε) (sizeThreshold timeGap : Option Nat)
    (provider : EntryIndexProvider) (start : Nat) (chunks : List Chunk) :
    (∃ patches p, processAll (plain make sizeThreshold timeGap) provider chunks (.new start) =
        some (patches, p) ∧ (entriesOf patches).Pairwise (fun (e e' : Nat × String × ε) => e.1 < e'.1) ∧
        ∀ e ∈ entriesOf patches, e.2.2 = make e.2.1) ∧
    (Keeps (plain make sizeThreshold timeGap) provider start chunks ↔
      InTime (plain make sizeThreshold timeGap) provider chunks (.new start)) := by
  obtain ⟨patches, p, contents, hrun, htracks, -⟩ :=
    (tracks_new make provider start).run sizeThreshold timeGap
      (ready_new start) chunks
  have hordered : (entriesOf patches).Pairwise fun (e e' : Nat × String × ε) => e.1 < e'.1 := by
    rw [entriesOf, htracks.entries]
    exact entriesFor_ordered contents
  have hmade : ∀ e ∈ entriesOf patches, e.2.2 = make e.2.1 := by
    intro e he
    rw [entriesOf, htracks.entries] at he
    obtain ⟨k, hk, rfl⟩ := List.mem_mapIdx.mp he
    rfl
  exact ⟨⟨patches, p, hrun, hordered, hmade⟩, keeps_iff start chunks⟩

/-- Two lines a gap apart: the second one is nowhere. -/
theorem process_not_keeps : ¬ ∀ (make : String → String) (sizeThreshold timeGap : Option Nat)
    (provider : EntryIndexProvider) (start : Nat) (chunks : List Chunk),
    Keeps (plain make sizeThreshold timeGap) provider start chunks := by
  intro h
  have hkeeps := h id none (some 2000000000) ⟨id, Nat.lt_succ_self⟩ 0
    [⟨"warning: slow\n", 1⟩, ⟨"error: disk full\n", 3000000001⟩]
  obtain ⟨-, hin⟩ := (keeps_iff 0 _).mp hkeeps
  have hfirst : PlainText.process (plain id none (some 2000000000)) ⟨id, Nat.lt_succ_self⟩
      ⟨"warning: slow\n", 1⟩ (.new 0) = some (emit (plain id none (some 2000000000))
        ⟨id, Nat.lt_succ_self⟩ []
        { PlainTextLogProcessor.new 0 with
          lastChunkArrivalTime := 1
          buffer := (PlainTextLogProcessor.new 0).buffer.ingest "warning: slow\n" }) := by
    unfold PlainText.process
    rw [if_neg (by decide), if_neg (by decide), accept_plain none (some 2000000000) (by decide)]
  exact (hin _ _ hfirst).1 (by decide +kernel)

end Run

end Cdesktop.PlainText
