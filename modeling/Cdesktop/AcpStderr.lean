import Cdesktop.Lines
import Cdesktop.PlainTextSound
import Mathlib.Data.List.Chain

/-! The stderr of an ACP agent, with the log entries that are not of interest left out. -/

namespace Cdesktop.AcpStderr
open ClaudeLogs (splitInclusive contains startsWith)
open PlainText
set_option autoImplicit true

inductive NormalizedEntryError where
  | other
deriving DecidableEq

inductive NormalizedEntryType where
  | errorMessage (errorType : NormalizedEntryError)
deriving DecidableEq

structure NormalizedEntry where
  timestamp : Option String
  entryType : NormalizedEntryType
  content : String
  metadata : Option String
deriving DecidableEq

structure StderrFilter where
  suppressedPatterns : List String
  isNewEntryMarker : Option (String → Bool)

namespace StderrFilter

variable (f : StderrFilter)

/-- The closure given to `retain`: whether the line stays, and the captured variable after it. -/
def retain (suppressCurrent : Bool) (line : String) : Bool × Bool :=
  match f.isNewEntryMarker with
  | some isNew =>
    let suppressCurrent :=
      if isNew line then f.suppressedPatterns.any (contains line) else suppressCurrent
    (!suppressCurrent, suppressCurrent)
  | none => (!f.suppressedPatterns.any (contains line), suppressCurrent)

def transformLines (suppressCurrent : Bool) : List String → List String × Bool
  | [] => ([], suppressCurrent)
  | line :: lines =>
    let retained := f.retain suppressCurrent line
    let rest := transformLines retained.2 lines
    (if retained.1 then line :: rest.1 else rest.1, rest.2)

end StderrFilter

def hasTimestampPrefix (line : String) : Bool :=
  match line.toList with
  | y1 :: y2 :: y3 :: y4 :: '-' :: m1 :: m2 :: '-' :: d1 :: d2 :: ' ' :: h1 :: h2 :: ':' :: _ =>
    [y1, y2, y3, y4, m1, m2, d1, d2, h1, h2].all Char.isDigit
  | _ => false

def isHermesLogEntryStart (line : String) : Bool :=
  hasTimestampPrefix line || startsWith line "Traceback " || startsWith line "ERROR:" ||
    startsWith line "CRITICAL:" || startsWith line "FATAL:"

structure State where
  processor : PlainTextLogProcessor
  suppressCurrent : Bool
  patches : List (Patch NormalizedEntry)

def State.new (now : Nat) : State := { processor := .new now, suppressCurrent := false, patches := [] }

def timeGap : Nat := 2 * 1000000000

section Normalize

variable (f : StderrFilter) (stripStr : String → String) (provider : EntryIndexProvider)

def normalizedEntryProducer (content : String) : NormalizedEntry :=
  { timestamp := none, entryType := .errorMessage .other, content := stripStr content
    metadata := none }

def processorConfig (suppressCurrent : Bool) : Config NormalizedEntry :=
  .new (normalizedEntryProducer stripStr) none (some timeGap) none
    (some fun lines => (f.transformLines suppressCurrent lines).1) none

def handed (chunk : Chunk) (p : PlainTextLogProcessor) : Option (List String) :=
  if chunk.text = "" then none
  else if ¬ p.buffer.isEmpty ∧ timeGap ≤ chunk.arrival - p.lastChunkArrivalTime then
    if p.buffer.lines ≠ [] then none else some (p.buffer.flush.2.ingest chunk.text).lines
  else some (p.buffer.ingest chunk.text).lines

def step (s : State) (chunk : Chunk) : Option State :=
  (process (processorConfig f stripStr s.suppressCurrent) provider chunk s.processor).map
    fun (patches, processor) =>
      { processor
        suppressCurrent :=
          match handed chunk s.processor with
          | some lines => (f.transformLines s.suppressCurrent lines).2
          | none => s.suppressCurrent
        patches := s.patches ++ patches }

def normalizeAcpStderrLogsWithState (now : Nat) (chunks : List Chunk) : Option State :=
  chunks.foldlM (step f stripStr provider) (.new now)

end Normalize

/-! Each whole line decided once. -/

@[simp] def linesOf (text : String) : List String := (splitInclusive text.toList).map String.ofList

namespace StderrFilter

variable (f : StderrFilter)

def Decides (line : String) : Bool := f.isNewEntryMarker.all (· line)

def Matches (line : String) : Bool := f.suppressedPatterns.any (contains line)

/-- Whether a line is suppressed that follows one for which it was `inherited`. -/
def suppressed (inherited : Bool) (line : String) : Bool :=
  if f.Decides line then f.Matches line else inherited

@[simp] def shownLines (inherited : Bool) : List String → List String
  | [] => []
  | line :: lines =>
    if f.suppressed inherited line then shownLines (f.suppressed inherited line) lines
    else line :: shownLines (f.suppressed inherited line) lines

def lastSuppressed (inherited : Bool) (lines : List String) : Bool :=
  lines.foldl f.suppressed inherited

theorem shownLines_append (inherited : Bool) (lines lines' : List String) :
    f.shownLines inherited (lines ++ lines') =
      f.shownLines inherited lines ++ f.shownLines (f.lastSuppressed inherited lines) lines' := by
  induction lines generalizing inherited with
  | nil => rfl
  | cons line lines ih =>
    rw [List.cons_append, shownLines, shownLines, ih]
    split <;> rfl

theorem lastSuppressed_append (inherited : Bool) (lines lines' : List String) :
    f.lastSuppressed inherited (lines ++ lines') =
      f.lastSuppressed (f.lastSuppressed inherited lines) lines' := List.foldl_append

theorem shownLines_sublist (inherited : Bool) (lines : List String) :
    (f.shownLines inherited lines).Sublist lines := by
  induction lines generalizing inherited with
  | nil => exact .slnil
  | cons line lines ih =>
    rw [shownLines]
    split
    · exact (ih _).cons line
    · exact (ih _).cons_cons line

theorem not_matches_of_shown (h : line ∈ f.shownLines inherited lines) (hdecides : f.Decides line) :
    f.Matches line = false := by
  induction lines generalizing inherited with
  | nil => exact absurd h List.not_mem_nil
  | cons first lines ih =>
    rw [shownLines] at h
    split at h
    · exact ih h
    · next hshown =>
      cases h with
      | head =>
        rw [suppressed, if_pos hdecides] at hshown
        exact Bool.eq_false_of_not_eq_true hshown
      | tail _ h => exact ih h

theorem shown_congr (h : f.suppressed i line = f.suppressed j line) (lines : List String) :
    f.shownLines i (line :: lines) = f.shownLines j (line :: lines) ∧
      f.lastSuppressed i (line :: lines) = f.lastSuppressed j (line :: lines) := by
  constructor
  · rw [shownLines, shownLines, h]
  · rw [lastSuppressed, lastSuppressed, List.foldl_cons, List.foldl_cons, h]

theorem shown_of_suppressed (h : f.suppressed i line = true) (lines : List String) :
    f.shownLines i (line :: lines) = f.shownLines true lines ∧
      f.lastSuppressed i (line :: lines) = f.lastSuppressed true lines := by
  constructor
  · rw [shownLines, h, if_pos rfl]
  · rw [lastSuppressed, List.foldl_cons, h]
    rfl

theorem shown_again (inherited : Bool) (shown : List String)
    (h : ∀ line ∈ shown, f.Decides line → f.Matches line = false)
    (hfirst : inherited = true → ∀ line ∈ shown.head?, f.Decides line) :
    f.shownLines inherited shown = shown ∧
      f.lastSuppressed inherited shown = (inherited && shown.isEmpty) := by
  induction shown generalizing inherited with
  | nil => exact ⟨rfl, (Bool.and_true _).symm⟩
  | cons line shown ih =>
    have hline : f.suppressed inherited line = false := by
      rw [suppressed]
      split
      · next hdecides => exact h line List.mem_cons_self hdecides
      · next hdecides =>
        cases inherited with
        | false => rfl
        | true => exact absurd (hfirst rfl line rfl) hdecides
    obtain ⟨hshown, hlast⟩ := ih false
      (fun line hline => h line (List.mem_cons_of_mem _ hline)) nofun
    constructor
    · rw [shownLines, hline, if_neg Bool.false_ne_true, hshown]
    · rw [lastSuppressed, List.foldl_cons, hline, List.isEmpty_cons, Bool.and_false]
      exact hlast.trans (Bool.false_and _)

theorem transformLines_eq (h : f.isNewEntryMarker.isSome → suppressCurrent = inherited)
    (lines : List String) :
    (f.transformLines suppressCurrent lines).1 = f.shownLines inherited lines ∧
      (f.isNewEntryMarker.isSome →
        (f.transformLines suppressCurrent lines).2 = f.lastSuppressed inherited lines) := by
  induction lines generalizing suppressCurrent inherited with
  | nil => exact ⟨rfl, h⟩
  | cons line lines ih =>
    have hretain : (f.retain suppressCurrent line).1 = !f.suppressed inherited line ∧
        (f.isNewEntryMarker.isSome →
          (f.retain suppressCurrent line).2 = f.suppressed inherited line) := by
      unfold retain suppressed Decides Matches
      cases hmarker : f.isNewEntryMarker with
      | none => exact ⟨rfl, nofun⟩
      | some isNew =>
        rw [h (hmarker ▸ rfl)]
        exact ⟨rfl, fun _ => rfl⟩
    obtain ⟨hlines, hlast⟩ := ih hretain.2
    constructor
    · rw [transformLines, shownLines, hretain.1, hlines]
      cases f.suppressed inherited line <;> rfl
    · exact hlast

end StderrFilter

theorem splitInclusive_eq (text : List Char) : splitInclusive text = Lines.split '\n' text := by
  induction text using ClaudeLogs.splitInclusive.induct with
  | case1 => rfl
  | case2 text ih => rw [splitInclusive, Lines.split_sep, ih]
  | case3 c text hc hsplit ih =>
    rw [splitInclusive, hsplit, Lines.split, if_neg hc, ← ih, hsplit]
    exact hc
  | case4 c text hc line lines hsplit ih =>
    rw [splitInclusive, hsplit, Lines.split, if_neg hc, ← ih, hsplit]
    exact hc

theorem linesOf_eq_nil (h : linesOf text = []) : text = "" := by
  rw [linesOf, splitInclusive_eq, List.map_eq_nil_iff] at h
  apply String.toList_inj.mp
  exact Lines.split_nil_of_eq_nil _ h

def endedLines (text : String) : List String :=
  (Lines.split '\n' (Lines.ended '\n' text.toList)).map String.ofList

def openLine (text : String) : String := String.ofList (Lines.openLine '\n' text.toList)

theorem linesOf_append (text chunk : String) :
    linesOf (text ++ chunk) = endedLines text ++ linesOf (openLine text ++ chunk) := by
  have hcut := Lines.ended_append_openLine '\n' text.toList
  rw [linesOf, linesOf, endedLines, openLine, splitInclusive_eq, splitInclusive_eq,
    String.toList_append, String.toList_append, String.toList_ofList, ← List.map_append,
    ← Lines.split_append '\n' (Lines.closed_ended '\n' _), ← List.append_assoc, hcut]

theorem endedLines_getLast? (h : line ∈ endedLines text) : line.toList.getLast? = some '\n' := by
  obtain ⟨body, hbody, rfl⟩ := List.mem_map.mp h
  rw [String.toList_ofList]
  exact (Lines.closed_ended '\n' text.toList).mem_split '\n' hbody

theorem openLine_toList (text : String) : '\n' ∉ (openLine text).toList := by
  rw [openLine, String.toList_ofList]
  exact Lines.not_mem_openLine '\n' text.toList

theorem linesOf_eq (text : String) :
    linesOf text = endedLines text ++ if openLine text = "" then [] else [openLine text] := by
  have happend := linesOf_append text ""
  rw [String.append_empty, String.append_empty] at happend
  rw [happend, List.append_right_inj]
  split
  · next hrest =>
    rw [hrest]
    rfl
  · next hrest =>
    have hne : (openLine text).toList ≠ [] := fun hnil => hrest (String.toList_inj.mp hnil)
    rw [linesOf, splitInclusive_eq, Lines.split_open '\n' (openLine_toList text) hne,
      List.map_singleton, String.ofList_toList]

theorem linesOf_openLine (text : String) (hchunk : linesOf chunk = first :: lines) :
    linesOf (openLine text ++ chunk) = (openLine text ++ first) :: lines := by
  rw [linesOf, splitInclusive_eq] at hchunk
  obtain ⟨first, lines, hsplit, rfl, rfl⟩ := List.map_eq_cons_iff.mp hchunk
  rw [linesOf, splitInclusive_eq, String.toList_append,
    Lines.split_append_open '\n' (openLine_toList text) hsplit, List.map_cons, String.ofList_append,
    String.ofList_toList]

section Fits

variable (f : StderrFilter)

/-- What the closure remembers decides the first line of the chunk as the lines of the text do. The
closure decides the lines in the buffer once more before it. -/
def FitsFirst (text first : String) : Prop :=
  let inherited := f.lastSuppressed false (endedLines text)
  let noneShown := (f.shownLines false (endedLines text)).isEmpty
  let line := openLine text ++ first
  if openLine text = "" then
    f.suppressed (inherited && noneShown) first = f.suppressed inherited first
  else if f.suppressed inherited (openLine text) then
    -- The start of the line is gone.
    f.suppressed inherited line = true ∧ f.suppressed noneShown first = true
  else f.suppressed false line = f.suppressed inherited line

structure Fits (text chunk : String) : Prop where
  /-- No line in the buffer is taken for a continuation of the line that was suppressed last. -/
  buffered : f.lastSuppressed false (linesOf text) = true →
    ∀ line ∈ (f.shownLines false (linesOf text)).head?, f.Decides line
  first : ∀ first ∈ (linesOf chunk).head?, FitsFirst f text first
  kept : f.shownLines false (linesOf text) ≠ [] → f.shownLines false (linesOf (text ++ chunk)) ≠ []

variable {b : PlainTextBuffer} {p : PlainTextLogProcessor}

theorem ingest_ended
    (h : ∀ line ∈ b.lines.getLast?, line.toList.getLast? = some '\n') (chunk : String) :
    (b.ingest chunk).lines = b.lines ++ linesOf chunk := by
  unfold PlainTextBuffer.ingest
  cases hlast : b.lines.getLast? with
  | none =>
    dsimp only
    rw [String.empty_append]
    rfl
  | some last =>
    rw [hlast] at h
    dsimp only
    rw [if_pos (h last rfl), String.empty_append]
    rfl

theorem ingest_open (h : b.lines = lines ++ [last])
    (hlast : last.toList.getLast? ≠ some '\n') (chunk : String) :
    (b.ingest chunk).lines = lines ++ linesOf (last ++ chunk) := by
  unfold PlainTextBuffer.ingest
  rw [h, List.getLast?_concat]
  dsimp only
  rw [if_neg hlast, List.dropLast_concat]
  rfl

variable {f}

theorem shown_ended_getLast? (h : line ∈ (f.shownLines inherited (endedLines text)).getLast?) :
    line.toList.getLast? = some '\n' :=
  endedLines_getLast? ((f.shownLines_sublist inherited _).mem (List.mem_of_getLast? h))

/-- The lines that are decided again, and those of the chunk, are shown as they are in the whole
text. -/
theorem Fits.ingest (h : Fits f text chunk) (hchunk : chunk ≠ "")
    (hb : b.lines = f.shownLines false (linesOf text)) :
    f.shownLines (f.lastSuppressed false (linesOf text)) (b.ingest chunk).lines =
        f.shownLines false (linesOf (text ++ chunk)) ∧
      f.lastSuppressed (f.lastSuppressed false (linesOf text)) (b.ingest chunk).lines =
        f.lastSuppressed false (linesOf (text ++ chunk)) := by
  obtain ⟨first, lines, hsplit⟩ := List.exists_cons_of_ne_nil
    fun hnil : linesOf chunk = [] => hchunk (linesOf_eq_nil hnil)
  have hfirst := h.first first (hsplit ▸ rfl)
  have hagain := f.shown_again _ (f.shownLines false (linesOf text))
    (fun line hline => f.not_matches_of_shown hline) h.buffered
  rw [linesOf_append, linesOf_openLine text hsplit, f.shownLines_append, f.lastSuppressed_append]
  have hlines := linesOf_eq text
  unfold FitsFirst at hfirst
  dsimp only at hfirst
  split at hfirst
  · next hrest =>
    rw [if_pos hrest, List.append_nil] at hlines
    rw [hlines] at hb hagain ⊢
    have hended := ingest_ended (b := b) (fun line hline => shown_ended_getLast? (hb ▸ hline)) chunk
    obtain ⟨hshown, hlast⟩ := f.shown_congr hfirst lines
    rw [hended, hb, hsplit, hrest, String.empty_append, f.shownLines_append,
      f.lastSuppressed_append, hagain.1, hagain.2, hshown, hlast]
    exact ⟨rfl, rfl⟩
  · next hrest =>
    rw [if_neg hrest] at hlines
    rw [hlines] at hb hagain ⊢
    rw [f.shownLines_append] at hb hagain
    rw [f.lastSuppressed_append] at hagain ⊢
    have hopen : f.lastSuppressed (f.lastSuppressed false (endedLines text)) [openLine text] =
        f.suppressed (f.lastSuppressed false (endedLines text)) (openLine text) := rfl
    rw [hopen] at hagain ⊢
    split at hfirst
    · next hsuppressed =>
      have hgone := (f.shown_of_suppressed hsuppressed []).1
      rw [hgone, StderrFilter.shownLines, List.append_nil] at hb hagain
      have hended :=
        ingest_ended (b := b) (fun line hline => shown_ended_getLast? (hb ▸ hline)) chunk
      obtain ⟨hshown, hlast⟩ := f.shown_of_suppressed hfirst.1 lines
      obtain ⟨hshown', hlast'⟩ := f.shown_of_suppressed hfirst.2 lines
      rw [hsuppressed, Bool.true_and] at hagain
      rw [hended, hb, hsplit, hsuppressed, f.shownLines_append, f.lastSuppressed_append, hagain.1,
        hagain.2, hshown, hlast, hshown', hlast']
      exact ⟨rfl, rfl⟩
    · next hnot =>
      have hkept : f.suppressed (f.lastSuppressed false (endedLines text)) (openLine text) = false :=
        Bool.eq_false_of_not_eq_true hnot
      rw [StderrFilter.shownLines, if_neg hnot] at hb
      have hlast : (openLine text).toList.getLast? ≠ some '\n' := fun hlast =>
        openLine_toList text (List.mem_of_getLast? hlast)
      have hended := f.shown_again false (f.shownLines false (endedLines text))
        (fun line hline => f.not_matches_of_shown hline) nofun
      obtain ⟨hshown, hlast'⟩ := f.shown_congr hfirst lines
      rw [ingest_open hb hlast, linesOf_openLine text hsplit, hkept, f.shownLines_append,
        f.lastSuppressed_append, hended.1, hended.2, Bool.false_and, hshown, hlast']
      exact ⟨rfl, rfl⟩

end Fits

section Run

variable (f : StderrFilter) (stripStr : String → String) (provider : EntryIndexProvider)

def shownEntries (lines : List String) : List (Nat × NormalizedEntry) :=
  if lines = [] then [] else
    [(provider.next 0, normalizedEntryProducer stripStr (String.join lines))]

structure Tracks (text : String) (arrival : Option Nat) (s : State) : Prop where
  valid : s.processor.buffer.Valid
  lines : s.processor.buffer.lines = f.shownLines false (linesOf text)
  suppressCurrent : f.isNewEntryMarker.isSome →
    s.suppressCurrent = f.lastSuppressed false (linesOf text)
  entries : entriesOf s.patches = shownEntries stripStr provider s.processor.buffer.lines
  current : if s.processor.buffer.lines = [] then
      s.processor.currentEntryIndex = none ∧ s.processor.taken = 0
    else s.processor.currentEntryIndex = some (provider.next 0)
  time : s.processor.buffer.lines ≠ [] → arrival = some s.processor.lastChunkArrivalTime

theorem tracks_new (now : Nat) : Tracks f stripStr provider "" none (.new now) :=
  ⟨⟨nofun, rfl⟩, rfl, fun _ => rfl, rfl, ⟨rfl, rfl⟩, fun hne => absurd rfl hne⟩

def transformed (suppressCurrent : Bool) (chunk : Chunk) (p : PlainTextLogProcessor) :
    PlainTextLogProcessor :=
  let buffer := p.buffer.ingest chunk.text
  { p with
    lastChunkArrivalTime := chunk.arrival
    buffer := { buffer with
      lines := (f.transformLines suppressCurrent buffer.lines).1 }.recomputeLen }

theorem transformed_valid (h : p.buffer.Valid) (suppressCurrent : Bool)
    (chunk : Chunk) : (transformed f suppressCurrent chunk p).buffer.Valid := by
  have hsub := f.shownLines_sublist suppressCurrent (p.buffer.ingest chunk.text).lines
  rw [← (f.transformLines_eq (fun _ => rfl) _).1] at hsub
  constructor
  · exact fun line hline => (h.ingest chunk.text).1.lines line (hsub.mem hline)
  · rfl

theorem formatChunk_eq (suppressCurrent : Bool) :
    (processorConfig f stripStr suppressCurrent).formatChunk = none := rfl

theorem transformLines_config (suppressCurrent : Bool) :
    (processorConfig f stripStr suppressCurrent).transformLines =
      some fun lines => (f.transformLines suppressCurrent lines).1 := rfl

theorem splitMessages_eq (suppressCurrent : Bool) (p : PlainTextLogProcessor) :
    splitMessages (processorConfig f stripStr suppressCurrent) provider p = some ([], p, false) := by
  rw [splitMessages]
  rfl

theorem splitBySize_eq (suppressCurrent : Bool) (p : PlainTextLogProcessor) :
    splitBySize (processorConfig f stripStr suppressCurrent) provider p = ([], p) := rfl

theorem process_eq {chunk : Chunk} (hchunk : chunk.text ≠ "")
    (hlate : ¬ (¬ p.buffer.isEmpty ∧ timeGap ≤ chunk.arrival - p.lastChunkArrivalTime))
    (hvalid : p.buffer.Valid) (suppressCurrent : Bool) :
    process (processorConfig f stripStr suppressCurrent) provider chunk p =
      if (transformed f suppressCurrent chunk p).buffer.lines = [] then
        some ([], transformed f suppressCurrent chunk p)
      else
        let created := createPatch (processorConfig f stripStr suppressCurrent) provider
          (transformed f suppressCurrent chunk p).buffer.lines (transformed f suppressCurrent chunk p)
        some ([created.1], created.2) := by
  have hgap : (processorConfig f stripStr suppressCurrent).timeGap = some timeGap := rfl
  have hnotlate : ¬ (¬ p.buffer.isEmpty ∧ (processorConfig f stripStr suppressCurrent).timeGap.any
      (fun gap => decide (gap ≤ chunk.arrival - p.lastChunkArrivalTime))) := by
    rw [hgap, Option.any_some, decide_eq_true_iff]
    exact hlate
  have haccept : accept (processorConfig f stripStr suppressCurrent) provider chunk p =
      if (transformed f suppressCurrent chunk p).buffer.isEmpty then
        some ([], transformed f suppressCurrent chunk p)
      else some (emit (processorConfig f stripStr suppressCurrent) provider []
        (transformed f suppressCurrent chunk p)) := by
    unfold accept
    simp only [formatChunk_eq, transformLines_config, if_neg hchunk, Option.isSome_some, true_and,
      splitMessages_eq]
    rfl
  rw [process, if_neg hchunk, if_neg hnotlate, haccept]
  have hempty := (transformed_valid f hvalid suppressCurrent chunk).isEmpty_iff
  split
  · next h => rw [if_pos (hempty.mp h)]
  · next h =>
    have hlines : (transformed f suppressCurrent chunk p).buffer.lines ≠ [] :=
      fun hnil => h (hempty.mpr hnil)
    rw [if_neg hlines, emit, splitBySize_eq]
    dsimp only
    rw [if_neg h]
    rfl

theorem step_eq {s : State} {chunk : Chunk} (hchunk : chunk.text ≠ "")
    (hlate : ¬ (¬ s.processor.buffer.isEmpty ∧
      timeGap ≤ chunk.arrival - s.processor.lastChunkArrivalTime))
    (hvalid : s.processor.buffer.Valid) :
    step f stripStr provider s chunk =
      let p := transformed f s.suppressCurrent chunk s.processor
      let suppressCurrent :=
        (f.transformLines s.suppressCurrent (s.processor.buffer.ingest chunk.text).lines).2
      if p.buffer.lines = [] then some { processor := p, suppressCurrent, patches := s.patches }
      else
        let created := createPatch (processorConfig f stripStr s.suppressCurrent) provider
          p.buffer.lines p
        some { processor := created.2, suppressCurrent, patches := s.patches ++ [created.1] } := by
  have hhanded : handed chunk s.processor = some (s.processor.buffer.ingest chunk.text).lines := by
    rw [handed, if_neg hchunk, if_neg hlate]
  rw [step, process_eq f stripStr provider hchunk hlate hvalid, hhanded]
  dsimp only
  split
  · rw [Option.map_some]
    dsimp only
    rw [List.append_nil]
  · rfl

theorem createPatch_entry {s : State}
    (hentries : entriesOf s.patches = shownEntries stripStr provider shown)
    (hcurrent : if shown = [] then p.currentEntryIndex = none ∧ p.taken = 0
      else p.currentEntryIndex = some (provider.next 0))
    (hlines : lines ≠ []) (suppressCurrent : Bool) :
    entriesOf (s.patches ++
        [(createPatch (processorConfig f stripStr suppressCurrent) provider lines p).1]) =
      shownEntries stripStr provider lines ∧
    (createPatch (processorConfig f stripStr suppressCurrent) provider lines p).2.currentEntryIndex =
      some (provider.next 0) := by
  have hproducer : (processorConfig f stripStr suppressCurrent).normalizedEntryProducer =
      normalizedEntryProducer stripStr := rfl
  rw [entriesOf, List.foldl_concat]
  change applyPatch (entriesOf s.patches) _ = _ ∧ _
  rw [hentries, shownEntries, shownEntries, if_neg hlines, createPatch]
  by_cases hshown : shown = []
  · rw [if_pos hshown] at hcurrent ⊢
    rw [hcurrent.1, hcurrent.2]
    exact ⟨rfl, rfl⟩
  · rw [if_neg hshown] at hcurrent ⊢
    rw [hcurrent, hproducer]
    dsimp only
    rw [applyPatch, List.map_singleton, if_pos rfl]
    exact ⟨rfl, hcurrent⟩

variable {f stripStr provider}

section
variable (h : Tracks f stripStr provider text arrival s)
include h

theorem Tracks.not_late (chunk : Chunk) (hgap : ∀ a ∈ arrival, chunk.arrival - a < timeGap) :
    ¬ (¬ s.processor.buffer.isEmpty ∧
      timeGap ≤ chunk.arrival - s.processor.lastChunkArrivalTime) := by
  rintro ⟨hne, hlate⟩
  have hlines : s.processor.buffer.lines ≠ [] := fun hnil => hne (h.valid.isEmpty_iff.mpr hnil)
  exact Nat.not_le_of_lt (hgap _ (h.time hlines)) hlate

theorem Tracks.transformed {chunk : Chunk}
    (hchunk : chunk.text ≠ "") (hfits : Fits f text chunk.text) :
    (transformed f s.suppressCurrent chunk s.processor).buffer.lines =
        f.shownLines false (linesOf (text ++ chunk.text)) ∧
      (f.isNewEntryMarker.isSome →
        (f.transformLines s.suppressCurrent (s.processor.buffer.ingest chunk.text).lines).2 =
          f.lastSuppressed false (linesOf (text ++ chunk.text))) := by
  obtain ⟨hlines, hlast⟩ := f.transformLines_eq h.suppressCurrent
    (s.processor.buffer.ingest chunk.text).lines
  obtain ⟨hshown, hlast'⟩ := hfits.ingest hchunk h.lines
  exact ⟨hlines.trans hshown, fun hsome => (hlast hsome).trans hlast'⟩

theorem Tracks.step (chunk : Chunk)
    (hchunk : chunk.text ≠ "") (hgap : ∀ a ∈ arrival, chunk.arrival - a < timeGap)
    (hfits : Fits f text chunk.text) :
    ∃ s', step f stripStr provider s chunk = some s' ∧
      Tracks f stripStr provider (text ++ chunk.text) (some chunk.arrival) s' := by
  obtain ⟨hlines, hlast⟩ := h.transformed hchunk hfits
  have hvalid := transformed_valid f h.valid s.suppressCurrent chunk
  rw [step_eq f stripStr provider hchunk (h.not_late chunk hgap) h.valid]
  dsimp only
  by_cases hnil : (AcpStderr.transformed f s.suppressCurrent chunk s.processor).buffer.lines = []
  · rw [if_pos hnil]
    have hbefore : s.processor.buffer.lines = [] := by
      by_contra hne
      apply hfits.kept (h.lines ▸ hne)
      rw [← hlines]
      exact hnil
    have hcurrent := h.current
    rw [if_pos hbefore] at hcurrent
    apply Exists.intro _
    apply And.intro rfl
    constructor
    · exact hvalid
    · exact hlines
    · exact hlast
    · dsimp only
      rw [h.entries, hbefore, hnil]
    · dsimp only
      rw [if_pos hnil]
      exact hcurrent
    · exact fun hne => absurd hnil hne
  · rw [if_neg hnil]
    obtain ⟨hentries, hcurrent⟩ := createPatch_entry f stripStr provider
      (p := AcpStderr.transformed f s.suppressCurrent chunk s.processor) h.entries h.current hnil
      s.suppressCurrent
    have hbuffer := createPatch_buffer (processorConfig f stripStr s.suppressCurrent) provider
      (AcpStderr.transformed f s.suppressCurrent chunk s.processor).buffer.lines
      (AcpStderr.transformed f s.suppressCurrent chunk s.processor)
    apply Exists.intro _
    apply And.intro rfl
    constructor
    · dsimp only
      rw [hbuffer]
      exact hvalid
    · dsimp only
      rw [hbuffer]
      exact hlines
    · exact hlast
    · dsimp only
      rw [hbuffer]
      exact hentries
    · dsimp only
      rw [hbuffer, if_neg hnil]
      exact hcurrent
    · intro _
      exact congrArg some (createPatch_time (processorConfig f stripStr s.suppressCurrent) _
        (AcpStderr.transformed f s.suppressCurrent chunk s.processor)).symm

end

def written (chunks : List Chunk) : List Chunk := chunks.filter fun chunk => chunk.text ≠ ""

def textOf (chunks : List Chunk) : String := String.join (chunks.map Chunk.text)

theorem written_append (before after : List Chunk) :
    written (before ++ after) = written before ++ written after := List.filter_append ..

theorem written_cons {chunk : Chunk} (hchunk : chunk.text ≠ "") (chunks : List Chunk) :
    written (chunk :: chunks) = chunk :: written chunks := by
  rw [written, List.filter_cons, if_pos (decide_eq_true hchunk)]
  rfl

theorem textOf_concat (chunks : List Chunk) (chunk : Chunk) :
    textOf (chunks ++ [chunk]) = textOf chunks ++ chunk.text := by
  rw [textOf, List.map_append, String.join_append]
  exact congrArg (textOf chunks ++ ·) (String.join_cons.trans String.append_empty)

theorem Tracks.run_step (h : Tracks f stripStr provider text arrival s) {chunk : Chunk}
    (hgap : chunk.text ≠ "" → ∀ a ∈ arrival, chunk.arrival - a < timeGap)
    (hfits : chunk.text ≠ "" → Fits f text chunk.text) :
    ∃ s', AcpStderr.step f stripStr provider s chunk = some s' ∧
      Tracks f stripStr provider (text ++ chunk.text)
        (if chunk.text = "" then arrival else some chunk.arrival) s' := by
  by_cases hchunk : chunk.text = ""
  · have hprocess : process (processorConfig f stripStr s.suppressCurrent) provider chunk s.processor =
        some ([], s.processor) := by rw [process, if_pos hchunk]
    have hhanded : handed chunk s.processor = none := by rw [handed, if_pos hchunk]
    rw [AcpStderr.step, hprocess, hhanded, if_pos hchunk, hchunk, String.append_empty]
    apply Exists.intro s
    apply And.intro _ h
    rw [Option.map_some]
    dsimp only
    rw [List.append_nil]
  · rw [if_neg hchunk]
    exact h.step chunk hchunk (hgap hchunk) (hfits hchunk)

variable (f stripStr provider)

def FitsAll (chunks : List Chunk) : Prop :=
  ∀ before chunk after, chunks = before ++ chunk :: after → chunk.text ≠ "" →
    Fits f (textOf before) chunk.text

/-- What is shown of a stderr after any part of it are the lines of that part, each decided once and
in order, if each chunk fits. -/
theorem normalizeAcpStderrLogsWithState_entries (now : Nat) (chunks : List Chunk)
    (htime : (written chunks).IsChain fun c c' => c'.arrival - c.arrival < timeGap)
    (hfits : FitsAll f chunks) (before after : List Chunk) (h : chunks = before ++ after) :
    ∃ s, normalizeAcpStderrLogsWithState f stripStr provider now before = some s ∧
      entriesOf s.patches =
        shownEntries stripStr provider (f.shownLines false (linesOf (textOf before))) := by
  suffices htracks : ∃ s, normalizeAcpStderrLogsWithState f stripStr provider now before = some s ∧
      Tracks f stripStr provider (textOf before) ((written before).getLast?.map Chunk.arrival) s by
    obtain ⟨s, hrun, htracks⟩ := htracks
    exact ⟨s, hrun, htracks.lines ▸ htracks.entries⟩
  induction before using List.reverseRecOn generalizing after with
  | nil => exact ⟨_, rfl, tracks_new f stripStr provider now⟩
  | append_singleton before chunk ih =>
    rw [List.append_assoc, List.singleton_append] at h
    obtain ⟨s, hrun, htracks⟩ := ih (chunk :: after) h
    have hgap : chunk.text ≠ "" →
        ∀ a ∈ (written before).getLast?.map Chunk.arrival, chunk.arrival - a < timeGap := by
      intro hchunk a ha
      obtain ⟨last, hlast, rfl⟩ := Option.map_eq_some_iff.mp ha
      rw [h, written_append, written_cons hchunk] at htime
      exact (List.isChain_append.mp htime).2.2 last hlast chunk rfl
    obtain ⟨s', hstep, htracks'⟩ := htracks.run_step hgap (hfits before chunk after h)
    apply Exists.intro s'
    constructor
    · rw [normalizeAcpStderrLogsWithState] at hrun ⊢
      rw [List.foldlM_append, hrun]
      change (List.foldlM _ s [chunk] : Option State) = _
      rw [List.foldlM_cons, hstep]
      rfl
    · rw [textOf_concat]
      by_cases hchunk : chunk.text = ""
      · rw [if_pos hchunk] at htracks'
        have hnone : written [chunk] = [] := by
          rw [written, List.filter_cons, hchunk]
          rfl
        rw [written_append, hnone, List.append_nil]
        exact htracks'
      · rw [if_neg hchunk] at htracks'
        rw [written_append, written_cons hchunk]
        change Tracks f stripStr provider _ ((written before ++ [chunk]).getLast?.map _) s'
        rw [List.getLast?_concat]
        exact htracks'

theorem fits_empty (chunk : String) : Fits f "" chunk := ⟨nofun, fun _ _ => rfl, fun h => absurd rfl h⟩

end Run

def hermesFilter : StderrFilter := ⟨["[INFO]"], some isHermesLogEntryStart⟩

def failure : String := "2026-01-01 10:00: no space\n"

def request : String := "2026-01-01 10:01: [INFO] send\n"

theorem fits_failure : Fits hermesFilter (failure ++ request) failure := by
  constructor
  · decide +kernel
  · have hhead : (linesOf failure).head? = some failure := by decide +kernel
    rw [hhead]
    intro first hfirst
    cases hfirst
    unfold FitsFirst
    decide +kernel
  · decide +kernel

theorem fitsAll_sample : FitsAll hermesFilter [⟨failure ++ request, 1⟩, ⟨failure, 2⟩] := by
  intro before chunk after h _
  match before, h with
  | [], h =>
    cases h
    exact fits_empty hermesFilter _
  | [_], h =>
    cases h
    exact fits_failure
  | [_, _], h => cases h
  | _ :: _ :: _ :: _, h => cases h

theorem normalizeAcpStderrLogsWithState_sample :
    ∃ s, normalizeAcpStderrLogsWithState hermesFilter id ⟨id, Nat.lt_succ_self⟩ 0
        [⟨failure ++ request, 1⟩, ⟨failure, 2⟩] = some s ∧
      entriesOf s.patches = shownEntries id ⟨id, Nat.lt_succ_self⟩
        (hermesFilter.shownLines false (linesOf (textOf [⟨failure ++ request, 1⟩, ⟨failure, 2⟩]))) :=
  normalizeAcpStderrLogsWithState_entries hermesFilter id ⟨id, Nat.lt_succ_self⟩ 0
    [⟨failure ++ request, 1⟩, ⟨failure, 2⟩] (by decide +kernel) fitsAll_sample _ [] rfl

def payload : String := "  payload\n"

/-- The second line of a request comes with the next chunk, and is shown. -/
theorem normalizeAcpStderrLogsWithState_not : ¬ ∀ (f : StderrFilter) (stripStr : String → String)
    (provider : EntryIndexProvider) (now : Nat) (chunks : List Chunk),
    (written chunks).IsChain (fun c c' => c'.arrival - c.arrival < timeGap) →
    ∃ s, normalizeAcpStderrLogsWithState f stripStr provider now chunks = some s ∧
      entriesOf s.patches =
        shownEntries stripStr provider (f.shownLines false (linesOf (textOf chunks))) := by
  intro h
  obtain ⟨s', hrun, hentries⟩ := h hermesFilter id ⟨id, Nat.lt_succ_self⟩ 0
    [⟨failure ++ request, 1⟩, ⟨payload, 2⟩] (by decide +kernel)
  obtain ⟨s, hfirst, htracks⟩ := (tracks_new hermesFilter id ⟨id, Nat.lt_succ_self⟩ 0).step
    ⟨failure ++ request, 1⟩ (by decide +kernel) nofun (fits_empty hermesFilter _)
  have hlines : s.processor.buffer.lines = [failure] := htracks.lines.trans (by decide +kernel)
  have hsuppress : s.suppressCurrent = true := (htracks.suppressCurrent rfl).trans (by decide +kernel)
  have hingest : (s.processor.buffer.ingest payload).lines = [failure, payload] := by
    rw [ingest_ended, hlines]
    · decide +kernel
    · rw [hlines]
      decide +kernel
  have hkept : (transformed hermesFilter s.suppressCurrent ⟨payload, 2⟩ s.processor).buffer.lines =
      [failure, payload] := by
    change (hermesFilter.transformLines _ (s.processor.buffer.ingest payload).lines).1 = _
    rw [hingest, hsuppress]
    decide +kernel
  have hne : (transformed hermesFilter s.suppressCurrent ⟨payload, 2⟩ s.processor).buffer.lines ≠ [] := by
    rw [hkept]
    exact List.cons_ne_nil _ _
  have hsecond : step hermesFilter id ⟨id, Nat.lt_succ_self⟩ s ⟨payload, 2⟩ = some s' := by
    rw [normalizeAcpStderrLogsWithState, List.foldlM_cons, hfirst] at hrun
    change (List.foldlM _ s [_] : Option State) = some s' at hrun
    rw [List.foldlM_cons] at hrun
    exact (bind_pure _).symm.trans hrun
  have hlate := htracks.not_late ⟨payload, 2⟩ (by decide +kernel)
  rw [step_eq hermesFilter id _ (by decide +kernel) hlate htracks.valid] at hsecond
  dsimp only at hsecond
  rw [if_neg hne] at hsecond
  cases hsecond
  obtain ⟨hwritten, -⟩ := createPatch_entry hermesFilter id ⟨id, Nat.lt_succ_self⟩
    (p := transformed hermesFilter s.suppressCurrent ⟨payload, 2⟩ s.processor) htracks.entries
    htracks.current hne s.suppressCurrent
  have hshown := hwritten.symm.trans hentries
  rw [hkept] at hshown
  exact absurd hshown (by decide +kernel)

end Cdesktop.AcpStderr
